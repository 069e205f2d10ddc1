import Reflowfy.Assoc.Lookup
import Reflowfy.CompositeRequest

namespace Reflowfy.ElasticSource

variable {owner owner' spec : Value} {path rest : List String} {name : String}

section Engine

-- An aggregation, or a query, without the aggregations under it.
def bare : Value → Value
  | .dict d => .dict (d.filter fun entry => entry.1 ≠ .str "aggs" ∧ entry.1 ≠ .str "aggregations")
  | spec => spec

-- A search engine as far as its users can tell: the documents that a query leaves, and what an
-- aggregation answers of itself, either in one bucket, where its sub-aggregations are
-- answered from fewer documents, or in several, or as a composite with all that is under it.
structure Engine (Docs : Type) where
  matching : Value → Docs
  own : Docs → Value → Entries
  bucket : Docs → Value → Option Docs
  composite : Docs → Value → Value

variable {Docs : Type} (engine : Engine Docs)

mutual

def answers (docs : Docs) (aggs : Value) : Entries :=
  match aggs with
  | .dict entries => answers_in docs entries
  | _ => []
termination_by sizeOf aggs

def answers_in (docs : Docs) (entries : Entries) : Entries :=
  match entries with
  | [] => []
  | (name, spec) :: rest =>
      (name, if is_composite spec then engine.composite docs spec
        else match engine.bucket docs (bare spec) with
          | some below => .dict (engine.own docs (bare spec) ++ answers below (sub_aggs spec))
          | none => .dict (engine.own docs (bare spec))) :: answers_in docs rest
termination_by sizeOf entries
decreasing_by
  · exact Nat.lt_of_le_of_lt (sizeOf_sub_aggs_le spec) (sizeOf_entry_le name spec rest)
  · simp only [List.cons.sizeOf_spec]
    omega

end

-- What a page of the composite at `path` is read from.
def response (body : Value) : Value :=
  .dict (answers engine (engine.matching (bare body)) (sub_aggs body))

end Engine

section Dicts

theorem set_eq_insert (d : Entries) (k : String) (v : Value) :
    Entries.set d k v = Assoc.insert d (.str k) v := rfl

theorem lookup_set (d : Entries) (k k' : String) (v : Value) :
    (Entries.set d k v).lookup (.str k') = if k' = k then some v else d.lookup (.str k') := by
  rw [set_eq_insert, Assoc.lookup_insert]
  simp only [Key.str.injEq]

theorem get_set (d : Entries) (k k' : String) (v : Value) :
    Entries.get (Entries.set d k v) k' = if k' = k then v else Entries.get d k' := by
  unfold Entries.get
  rw [lookup_set]
  split <;> rfl

theorem filter_set {p : Key → Bool} {k : String} (hk : p (.str k) = false)
    (d : Entries) (v : Value) :
    (Entries.set d k v).filter (fun entry => p entry.1) = d.filter fun entry => p entry.1 :=
  Assoc.filter_insert hk d v

end Dicts

section Writes

variable {aggs : Entries}

theorem eq_dict_of_sub_aggs (h : sub_aggs owner = .dict aggs) (hne : aggs ≠ []) :
    ∃ d, owner = .dict d := by
  unfold sub_aggs at h
  split at h
  · exact ⟨_, rfl⟩
  · cases h
    exact absurd rfl hne

-- The dict of sub-aggregations is replaced, and nothing else.
theorem sub_aggs_set_sub_aggs (h : sub_aggs owner = .dict aggs) (hne : aggs ≠ []) {new : Entries}
    (hnew : new ≠ []) :
    sub_aggs (set_sub_aggs owner (.dict new)) = .dict new ∧
      bare (set_sub_aggs owner (.dict new)) = bare owner ∧
      is_composite (set_sub_aggs owner (.dict new)) = is_composite owner := by
  have htruthy : (Value.dict new).truthy = true := by
    cases new with
    | nil => exact absurd rfl hnew
    | cons _ _ => rfl
  have hbare : ∀ (d : Entries) (k : String) (v : Value), k = "aggs" ∨ k = "aggregations" →
      bare (.dict (Entries.set d k v)) = bare (.dict d) := by
    intro d k v hk
    simp only [bare]
    refine congrArg Value.dict
      (filter_set (p := fun key => key ≠ .str "aggs" ∧ key ≠ .str "aggregations") ?_ d v)
    rcases hk with rfl | rfl <;> decide
  have hcomposite : ∀ (d : Entries) (k : String) (v : Value), "composite" ≠ k →
      is_composite (.dict (Entries.set d k v)) = is_composite (.dict d) := by
    intro d k v hk
    simp only [is_composite, lookup_set, if_neg hk]
  obtain ⟨d, rfl⟩ := eq_dict_of_sub_aggs h hne
  simp only [sub_aggs] at h
  simp only [set_sub_aggs]
  split
  · refine ⟨?_, hbare d _ _ (.inl rfl), hcomposite d _ _ (by decide)⟩
    simp only [sub_aggs, get_set, if_pos, htruthy]
  · rename_i haggs
    rw [if_neg haggs] at h
    split
    · refine ⟨?_, hbare d _ _ (.inr rfl), hcomposite d _ _ (by decide)⟩
      simp only [sub_aggs, get_set, htruthy, if_neg (by decide : ¬"aggs" = "aggregations"),
        if_neg haggs, if_pos]
    · rename_i haggregations
      rw [if_neg haggregations] at h
      cases h
      exact absurd rfl hne

-- No composite stands above the end of the path.
def Clear : List String → Value → Prop
  | [], _ => True
  | name :: rest, owner => ∃ aggs below, sub_aggs owner = .dict aggs ∧
      aggs.lookup (.str name) = some below ∧
      (rest = [] ∨ is_composite below = false) ∧ Clear rest below

-- Nothing but the path.
def Single : List String → Value → Prop
  | [], _ => True
  | name :: rest, owner => ∃ below, sub_aggs owner = .dict [(.str name, below)] ∧ Single rest below

-- Along the path the same, apart from what stands beside it.
def Alike : List String → Value → Value → Prop
  | [], spec, spec' => spec = spec'
  | name :: rest, owner, owner' => ∃ aggs aggs' below below', sub_aggs owner = .dict aggs ∧
      sub_aggs owner' = .dict aggs' ∧
      aggs.lookup (.str name) = some below ∧ aggs'.lookup (.str name) = some below' ∧
      (rest = [] ∨ is_composite below = false ∧ is_composite below' = false ∧
        bare below = bare below') ∧ Alike rest below below'

theorem ne_nil_of_lookup {below : Value} {k : Key}
    (h : aggs.lookup k = some below) : aggs ≠ [] := by
  rintro rfl
  cases h

theorem update_at_cons (rest : List String) (update : Value → Value) {below : Value}
    (h : sub_aggs owner = .dict aggs) (hlookup : aggs.lookup (.str name) = some below) :
    ∃ aggs', sub_aggs (update_at update (name :: rest) owner) = .dict aggs' ∧
      aggs'.lookup (.str name) = some (update_at update rest below) ∧
      bare (update_at update (name :: rest) owner) = bare owner ∧
      is_composite (update_at update (name :: rest) owner) = is_composite owner ∧
      (aggs = [(.str name, below)] → aggs' = [(.str name, update_at update rest below)]) := by
  have hset : (Entries.set aggs name (update_at update rest below)).lookup (.str name) =
      some (update_at update rest below) := by
    rw [lookup_set, if_pos rfl]
  have hwrite := sub_aggs_set_sub_aggs h (ne_nil_of_lookup hlookup) (ne_nil_of_lookup hset)
  have heq : update_at update (name :: rest) owner =
      set_sub_aggs owner (.dict (Entries.set aggs name (update_at update rest below))) := by
    simp only [update_at, h, hlookup]
  rw [heq]
  refine ⟨_, hwrite.1, hset, hwrite.2.1, hwrite.2.2, ?_⟩
  rintro rfl
  simp [Entries.set, List.lookup_cons_self]

theorem Alike.update (update : Value → Value) (h : Alike path owner owner') :
    Alike path (update_at update path owner) (update_at update path owner') := by
  induction path generalizing owner owner' with
  | nil => exact congrArg update h
  | cons name rest ih =>
      obtain ⟨aggs, aggs', below, below', haggs, haggs', hbelow, hbelow', hplain, hrest⟩ := h
      obtain ⟨new, hnew, hlookup, _⟩ := update_at_cons rest update haggs hbelow
      obtain ⟨new', hnew', hlookup', _⟩ := update_at_cons rest update haggs' hbelow'
      refine ⟨new, new', _, _, hnew, hnew', hlookup, hlookup', ?_, ih hrest⟩
      cases rest with
      | nil => exact .inl rfl
      | cons name' rest =>
          obtain ⟨inner, inner', deep, deep', hinner, hinner', hdeep, hdeep', _, _⟩ := hrest
          obtain ⟨hcomposite, hcomposite', hbare⟩ := hplain.resolve_left (by simp)
          obtain ⟨_, _, _, hbelow, hkeeps, _⟩ := update_at_cons rest update hinner hdeep
          obtain ⟨_, _, _, hbelow', hkeeps', _⟩ := update_at_cons rest update hinner' hdeep'
          exact .inr ⟨hkeeps.trans hcomposite, hkeeps'.trans hcomposite',
            by rw [hbelow, hbelow', hbare]⟩

theorem Single.update (update : Value → Value) (h : Single path owner) :
    Single path (update_at update path owner) := by
  induction path generalizing owner with
  | nil => trivial
  | cons name rest ih =>
      obtain ⟨below, haggs, hrest⟩ := h
      obtain ⟨new, hnew, _, _, _, hone⟩ := update_at_cons rest update haggs List.lookup_cons_self
      rw [hone rfl] at hnew
      exact ⟨_, hnew, ih hrest⟩

theorem spec_at_cons (haggs : sub_aggs owner = .dict aggs) {below : Value}
    (hbelow : aggs.lookup (.str name) = some below) :
    spec_at (name :: rest) owner = spec_at rest below := by
  simp only [spec_at, haggs, hbelow]

theorem spec_at_update (update : Value → Value) (h : spec_at path owner = .ok spec) :
    spec_at path (update_at update path owner) = .ok (update spec) := by
  induction path generalizing owner with
  | nil =>
      cases h
      rfl
  | cons name rest ih =>
      unfold spec_at at h
      split at h
      · rename_i aggs haggs
        split at h
        · rename_i below hbelow
          obtain ⟨new, hnew, hlookup, _⟩ := update_at_cons rest update haggs hbelow
          rw [spec_at_cons hnew hlookup]
          exact ih h
        · cases h
      · cases h

theorem Alike.spec_at (h : Alike path owner owner') :
    ElasticSource.spec_at path owner' = ElasticSource.spec_at path owner := by
  induction path generalizing owner owner' with
  | nil => exact congrArg Except.ok (Eq.symm h)
  | cons name rest ih =>
      obtain ⟨aggs, aggs', below, below', haggs, haggs', hbelow, hbelow', _, hrest⟩ := h
      rw [spec_at_cons haggs' hbelow', spec_at_cons haggs hbelow]
      exact ih hrest

theorem Clear.bare_update (update : Value → Value) (hne : path ≠ []) (h : Clear path owner) :
    bare (update_at update path owner) = bare owner := by
  cases path with
  | nil => exact absurd rfl hne
  | cons name rest =>
      obtain ⟨aggs, below, haggs, hbelow, _⟩ := h
      obtain ⟨_, _, _, hbare, _⟩ := update_at_cons rest update haggs hbelow
      exact hbare

theorem Alike.clear (h : Alike path owner owner') : Clear path owner' := by
  induction path generalizing owner owner' with
  | nil => trivial
  | cons name rest ih =>
      obtain ⟨aggs, aggs', below, below', haggs, haggs', hbelow, hbelow', hplain, hrest⟩ := h
      exact ⟨aggs', below', haggs', hbelow', hplain.imp_right fun h => h.2.1, ih hrest⟩

-- What is left by `prune_to_path`.
theorem exists_prune (hne : path ≠ []) (h : Clear path owner) :
    ∃ entry, prune_to_path path (sub_aggs owner) = .ok (.dict [entry]) ∧
      Single path (set_sub_aggs owner (.dict [entry])) ∧
        Alike path owner (set_sub_aggs owner (.dict [entry])) := by
  induction path generalizing owner with
  | nil => exact absurd rfl hne
  | cons name rest ih =>
      obtain ⟨aggs, below, haggs, hbelow, hplain, hrest⟩ := h
      have hwrite : ∀ entry, sub_aggs (set_sub_aggs owner (.dict [entry])) = .dict
          [entry] := fun entry =>
        (sub_aggs_set_sub_aggs haggs (ne_nil_of_lookup hbelow) (by simp)).1
      cases rest with
      | nil =>
          refine ⟨(.str name, below),
            by simp only [prune_to_path, haggs, hbelow], ⟨below, hwrite _, trivial⟩, ?_⟩
          exact ⟨aggs, _, below, below, haggs, hwrite _, hbelow,
            List.lookup_cons_self, .inl rfl, rfl⟩
      | cons name' rest =>
          obtain ⟨entry, hprune, hsingle, halike⟩ := ih (by simp) hrest
          obtain ⟨inner, deep, hinner, hdeep, _⟩ := hrest
          obtain ⟨_, hbare, hcomposite⟩ := sub_aggs_set_sub_aggs hinner (ne_nil_of_lookup hdeep)
            (List.cons_ne_nil entry [])
          have hclear := hplain.resolve_left (by simp)
          refine ⟨(.str name, set_sub_aggs below (.dict [entry])), ?_, ⟨_, hwrite _, hsingle⟩, ?_⟩
          · simp only [prune_to_path, haggs, hbelow, hprune]
            rfl
          · exact ⟨aggs, _, below, _, haggs, hwrite _, hbelow, List.lookup_cons_self,
              .inr ⟨hclear, hcomposite.trans hclear, hbare.symm⟩, halike⟩

end Writes

section Finding

-- An aggregation that is there adds what is found in it.
theorem mem_find_in_entries {aggs : Entries} {below : Value} {found : List (List String)}
    (hbelow : aggs.lookup (.str name) = some below) (h : find_in_entries aggs = .ok found) :
    ∃ inner, (if is_composite below then .ok [[]]
      else find_composites (sub_aggs below)) = Except.ok inner ∧
      ∀ p ∈ inner, name :: p ∈ found := by
  induction aggs generalizing found with
  | nil => cases hbelow
  | cons entry aggs ih =>
      obtain ⟨key, spec⟩ := entry
      rw [find_in_entries] at h
      split at h
      · rename_i inner others hinner hothers
        cases h
        by_cases hkey : Key.str name = key
        · subst hkey
          rw [List.lookup_cons_self, Option.some.injEq] at hbelow
          subst hbelow
          exact ⟨inner, hinner, fun p hp => List.mem_append_left _ (List.mem_map_of_mem hp)⟩
        · rw [Assoc.lookup_cons_of_ne hkey] at hbelow
          obtain ⟨inner', hinner', hmem⟩ := ih hbelow hothers
          exact ⟨inner', hinner', fun p hp => List.mem_append_right _ (hmem p hp)⟩
      · cases h
      · cases h

theorem exists_found {found : List (List String)} (hne : path ≠ [])
    (hfound : find_composites (sub_aggs owner) = .ok found)
    (hspec : spec_at path owner = .ok spec) (hcomposite : is_composite spec) :
    ∃ p ∈ found, p <+: path ∧ (p = path → Clear path owner) := by
  induction path generalizing owner found with
  | nil => exact absurd rfl hne
  | cons name rest ih =>
      unfold spec_at at hspec
      split at hspec
      · rename_i aggs haggs
        split at hspec
        · rename_i below hbelow
          rw [haggs, find_composites] at hfound
          obtain ⟨inner, hinner, hmem⟩ := mem_find_in_entries hbelow hfound
          by_cases hstops : is_composite below = true
          · rw [if_pos hstops] at hinner
            cases hinner
            refine ⟨[name], hmem [] (List.mem_singleton_self _),
              List.prefix_append [name] rest, fun heq => ?_⟩
            cases heq
            exact ⟨aggs, below, haggs, hbelow, .inl rfl, trivial⟩
          · rw [if_neg hstops] at hinner
            cases rest with
            | nil =>
                cases hspec
                exact absurd hcomposite hstops
            | cons name' rest =>
                obtain ⟨p, hp, hprefix, hclear⟩ := ih (by simp) hinner hspec
                refine ⟨name :: p, hmem p hp,
                  (List.prefix_cons_inj name).mpr hprefix, fun heq => ?_⟩
                exact ⟨aggs, below, haggs, hbelow, .inr (by simpa using hstops),
                  hclear (List.cons.inj heq).2⟩
        · cases hspec
      · cases hspec

theorem find_composites_of_single (hne : path ≠ []) (h : Single path owner)
    (hclear : Clear path owner)
    (hspec : spec_at path owner = .ok spec) (hcomposite : is_composite spec) :
    find_composites (sub_aggs owner) = .ok [path] := by
  induction path generalizing owner with
  | nil => exact absurd rfl hne
  | cons name rest ih =>
      obtain ⟨below, haggs, hrest⟩ := h
      obtain ⟨aggs, below', haggs', hbelow', hplain, hclear⟩ := hclear
      rw [haggs] at haggs'
      cases haggs'
      rw [List.lookup_cons_self, Option.some.injEq] at hbelow'
      subst hbelow'
      rw [spec_at_cons haggs List.lookup_cons_self] at hspec
      have hinner : (if is_composite below then .ok [[]] else find_composites (sub_aggs below)) =
          Except.ok [rest] := by
        cases rest with
        | nil =>
            cases hspec
            rw [if_pos hcomposite]
        | cons name' rest =>
            have hstops := hplain.resolve_left (by simp)
            rw [hstops, if_neg Bool.false_ne_true]
            exact ih (by simp) hrest hclear hspec
      rw [haggs, find_composites, find_in_entries, hinner, find_in_entries]
      rfl

end Finding

section Answers

variable {Docs : Type} (engine : Engine Docs)

def answer (docs : Docs) (spec : Value) : Value :=
  if is_composite spec then engine.composite docs spec
  else match engine.bucket docs (bare spec) with
    | some below => .dict (engine.own docs (bare spec) ++ answers engine below (sub_aggs spec))
    | none => .dict (engine.own docs (bare spec))

theorem lookup_answers_in (docs : Docs) (aggs : Entries) (k : Key) :
    (answers_in engine docs aggs).lookup k = (aggs.lookup k).map (answer engine docs) := by
  induction aggs with
  | nil =>
      rw [answers_in]
      rfl
  | cons entry aggs ih =>
      obtain ⟨key, spec⟩ := entry
      rw [answers_in]
      by_cases hk : k = key
      · subst hk
        rw [List.lookup_cons_self, List.lookup_cons_self]
        rfl
      · rw [Assoc.lookup_cons_of_ne hk, Assoc.lookup_cons_of_ne hk, ih]

-- What is read at the end of the path does not depend on what stands beside it.
theorem composite_answer_of_alike (full : List String) (hne : path ≠ [])
    (h : Alike path owner owner') (docs : Docs) (before : Entries) :
    composite_answer full path (.dict (before ++ answers engine docs (sub_aggs owner))) =
      composite_answer full path (.dict (before ++ answers engine docs (sub_aggs owner'))) := by
  induction path generalizing owner owner' docs before with
  | nil => exact absurd rfl hne
  | cons name rest ih =>
      obtain ⟨aggs, aggs', below, below', haggs, haggs', hbelow, hbelow', hplain, hrest⟩ := h
      simp only [composite_answer]
      rw [haggs, haggs', answers, answers, List.lookup_append, List.lookup_append,
        lookup_answers_in, lookup_answers_in,
        hbelow, hbelow']
      cases before.lookup (.str name) with
      | some _ => rfl
      | none =>
          simp only [Option.map_some, Option.none_or]
          cases rest with
          | nil =>
              obtain rfl : below = below' := hrest
              rfl
          | cons name' rest =>
              obtain ⟨hcomposite, hcomposite', hbare⟩ := hplain.resolve_left (by simp)
              rw [answer, answer, hcomposite, hcomposite', hbare, if_neg Bool.false_ne_true,
                if_neg Bool.false_ne_true]
              cases engine.bucket docs (bare below') with
              | none => rfl
              | some docs' => exact ih (by simp) hrest docs' _

end Answers

section Request

variable {query composite entries : Entries} {size : Option ℕ} {default : Value}

-- The query as it is, but for the two sizes.
def unpruned (query : Entries) (path : List String) (size : Option ℕ) (default : Value) : Value :=
  update_at (set_composite (sized size default)) path (.dict (Entries.set query "size" (.int 0)))

-- A request that asks for the composite alone.
structure Requests (query : Entries) (path : List String) (size : Option ℕ) (default : Value)
    (composite entries : Entries) (body : Value) : Prop where
  only : Single path body
  found : composite_path body = .ok (some path)
  spec : spec_at path body =
    .ok (.dict (Entries.set entries "composite" (.dict (sized size default composite))))
  rest : bare body = bare (.dict (Entries.set query "size" (.int 0)))
  answers : ∀ {Docs : Type} (engine : Engine Docs),
    composite_answer path path (response engine body) = composite_answer path path
      (response engine (unpruned query path size default))

theorem found_of_path {path : List String} (h : composite_path owner = .ok (some path)) :
    find_composites (sub_aggs owner) = .ok [path] := by
  unfold composite_path at h
  cases hfound : find_composites (sub_aggs owner) with
  | error e =>
      rw [hfound] at h
      cases h
  | ok found =>
      simp only [hfound, bind, Except.bind] at h
      split at h
      · cases h
      · rename_i hshort
        cases found with
        | nil => cases h
        | cons p found =>
            cases found with
            | nil =>
                cases h
                rfl
            | cons _ _ =>
                simp only [List.length_cons] at hshort
                omega

theorem ne_nil_of_find {aggs : Entries} {found : List (List String)}
    (h : find_in_entries aggs = .ok found) :
    ∀ p ∈ found, p ≠ [] := by
  induction aggs generalizing found with
  | nil =>
      rw [find_in_entries] at h
      cases h
      simp
  | cons entry aggs ih =>
      obtain ⟨key, spec⟩ := entry
      rw [find_in_entries] at h
      split at h
      · rename_i inner others _ hothers
        cases h
        intro p hp
        rcases List.mem_append.mp hp with hp | hp
        · obtain ⟨p, _, rfl⟩ := List.mem_map.mp hp
          exact List.cons_ne_nil _ _
        · exact ih hothers p hp
      · cases h
      · cases h

theorem composite_request_pruned (hpath : composite_path (.dict query) = .ok (some path))
    (hspec : spec_at path (.dict query) = .ok (.dict entries))
    (hcomposite : entries.lookup (.str "composite") = some (.dict composite))
    (size : Option ℕ) (default : Value) :
    ∃ body, composite_request (.dict query) path size default = .ok body ∧
      Requests query path size default composite entries body := by
  have hfound := found_of_path hpath
  have his : is_composite (.dict entries) = true := by
    rw [is_composite, hcomposite, Option.isSome_some]
  have hne : path ≠ [] := by
    cases haggs : sub_aggs (.dict query) with
    | dict aggs =>
        rw [haggs, find_composites] at hfound
        exact ne_nil_of_find hfound path (List.mem_singleton_self path)
    | _ =>
        rw [haggs, find_composites] at hfound
        · cases hfound
        · simp
  -- the size of the hits changes nothing of the aggregations
  have hsized : sub_aggs (.dict (Entries.set query "size" (.int 0))) = sub_aggs (.dict query) := by
    simp only [sub_aggs, get_set, if_neg (by decide : ¬"aggs" = "size"),
      if_neg (by decide : ¬"aggregations" = "size")]
  have hspec' : spec_at path (.dict (Entries.set query "size" (.int 0))) = .ok (.dict entries) := by
    cases path with
    | nil => exact absurd rfl hne
    | cons name rest =>
        unfold spec_at at hspec ⊢
        rw [hsized]
        exact hspec
  obtain ⟨p, hp, _, hclear⟩ := exists_found hne (hsized ▸ hfound) hspec' his
  have hclear := hclear (List.mem_singleton.mp hp)
  obtain ⟨entry, hprune, hsingle, halike⟩ := exists_prune hne hclear
  have hat : spec_at path (set_sub_aggs (.dict (Entries.set query "size" (.int 0)))
      (.dict [entry])) = .ok (.dict entries) :=
    halike.spec_at.trans hspec'
  have hwritten := spec_at_update (set_composite (sized size default)) hat
  have halike' := halike.update (set_composite (sized size default))
  have hset : set_composite (sized size default) (.dict entries) =
      .dict (Entries.set entries "composite" (.dict (sized size default composite))) := by
    simp only [set_composite, Entries.get, hcomposite, Option.getD_some]
  rw [hset] at hwritten
  have hstill : is_composite
      (.dict (Entries.set entries "composite" (.dict (sized size default composite)))) = true := by
    rw [is_composite, lookup_set, if_pos rfl, Option.isSome_some]
  have hbare : bare (set_sub_aggs (.dict (Entries.set query "size" (.int 0))) (.dict [entry])) =
      bare (.dict (Entries.set query "size" (.int 0))) := by
    cases path with
    | nil => exact absurd rfl hne
    | cons name rest =>
        obtain ⟨aggs, below, haggs, hbelow, _⟩ := hclear
        exact (sub_aggs_set_sub_aggs haggs (ne_nil_of_lookup hbelow)
          (List.cons_ne_nil entry [])).2.1
  refine ⟨_, ?_, hsingle.update _, ?_, hwritten, ?_, fun engine => ?_⟩
  · rw [hsized] at hprune
    simp only [composite_request, hprune, bind, Except.bind, hat, hcomposite]
  · unfold composite_path
    rw [find_composites_of_single hne (hsingle.update _) halike'.clear hwritten hstill]
    rfl
  · rw [halike.clear.bare_update _ hne, hbare]
  · have hroot : bare (update_at (set_composite (sized size default)) path
        (set_sub_aggs (.dict (Entries.set query "size" (.int 0))) (.dict [entry]))) = bare
            (unpruned query path size default) := by
      rw [halike.clear.bare_update _ hne, hbare, unpruned, hclear.bare_update _ hne]
    unfold response
    rw [hroot]
    exact (composite_answer_of_alike engine path hne halike' _ []).symm

-- A composite under a filter, with one aggregation beside it and one beside its parent.
def nested_composite : Entries :=
  [(.str "aggs", .dict
    [(.str "total", .dict [(.str "value_count", .dict [(.str "field", .str "id")])]),
      (.str "paid", .dict
        [(.str "filter", .dict [(.str "term", .dict [(.str "paid", .bool true)])]),
          (.str "aggs", .dict
            [(.str "users", .dict [(.str "composite", .dict [(.str "sources", .list [])])]),
              (.str "days", .dict [(.str "terms", .dict [(.str "field", .str "day")])])])])])]

theorem composite_request_pruned_nested :
    ∃ body, composite_request (.dict nested_composite)
      ["paid", "users"] none (.int 1000) = .ok body ∧
      Requests nested_composite ["paid", "users"] none (.int 1000) [(.str "sources", .list [])]
        [(.str "composite", .dict [(.str "sources", .list [])])] body := by
  refine composite_request_pruned ?_ rfl rfl none (.int 1000)
  simp [composite_path, nested_composite, sub_aggs, Entries.get, Value.truthy, find_composites,
    find_in_entries, is_composite,
    List.lookup_cons, Key.text, bind, Except.bind, beq_eq_decide]

end Request

end Reflowfy.ElasticSource
