import Reflowfy.Paging.Loop

namespace Paging

variable {ε α β : Type}

theorem bind_eq_ok {x : Except ε α} {f : α → Except ε β} {b : β} : x >>= f = .ok b ↔
    ∃ a, x = .ok a ∧ f a = .ok b := by
  cases x with
  | error e => exact iff_of_false (fun h => by cases h) fun ⟨_, h, _⟩ => by cases h
  | ok a => exact ⟨fun h => ⟨a, rfl, h⟩, fun ⟨_, h, hf⟩ => by cases h; exact hf⟩

theorem map_eq_ok {f : α → β} {x : Except ε α} {b : β} : f <$> x = .ok b ↔
    ∃ a, x = .ok a ∧ f a = b := by
  cases x with
  | error e => exact iff_of_false (fun h => by cases h) fun ⟨_, h, _⟩ => by cases h
  | ok a => exact ⟨fun h => ⟨a, rfl, by cases h; rfl⟩, fun ⟨_, h, hf⟩ => by cases h; rw [← hf]; rfl⟩

theorem mapM_eq_ok {f : α → Except ε β} {l : List α} {l' : List β} :
    l.mapM f = .ok l' ↔ List.Forall₂ (fun a b => f a = .ok b) l l' := by
  induction l generalizing l' with
  | nil => simp [pure, Except.pure, eq_comm]
  | cons a l ih =>
      rw [List.mapM_cons, List.forall₂_cons_left_iff]
      simp only [bind_eq_ok, ih, pure, Except.pure, Except.ok.injEq]
      constructor
      · rintro ⟨b, hb, l'', hl'', rfl⟩
        exact ⟨b, l'', hb, hl'', rfl⟩
      · rintro ⟨b, l'', hb, hl'', rfl⟩
        exact ⟨b, hb, l'', hl'', rfl⟩

-- What is computed from each element and its result.
theorem mapM_map_eq_ok {γ : Type} {f : α → Except ε β} {g : α → β → γ} {l : List α} {out : List γ} :
    (l.mapM fun a => g a <$> f a) = .ok out ↔ ∃ l', l.mapM f = .ok l' ∧
    out = List.zipWith g l l' := by
  induction l generalizing out with
  | nil => simp [pure, Except.pure, eq_comm]
  | cons a l ih =>
      rw [List.mapM_cons, List.mapM_cons]
      simp only [bind_eq_ok, map_eq_ok, ih, pure, Except.pure, Except.ok.injEq]
      constructor
      · rintro ⟨c, ⟨b, hb, rfl⟩, _, ⟨l', hl', rfl⟩, rfl⟩
        exact ⟨b :: l', ⟨b, hb, l', hl', rfl⟩, rfl⟩
      · rintro ⟨_, ⟨b, hb, l', hl', rfl⟩, rfl⟩
        exact ⟨g a b, ⟨b, hb, rfl⟩, _, ⟨l', hl', rfl⟩, rfl⟩

theorem forall₂_zipWith {γ : Type} {R : α → β → Prop} {T : β → γ → Prop} {g : α → β → γ}
    {l : List α} {l' : List β} (h : List.Forall₂ R l l') (hT : ∀ a ∈ l, ∀ b, R a b → T b (g a b)) :
      List.Forall₂ T l' (List.zipWith g l l') := by
  induction h with
  | nil => exact .nil
  | cons hab _ ih => exact .cons (hT _ List.mem_cons_self _ hab) (ih fun a ha =>
      hT a (List.mem_cons_of_mem _ ha))

theorem forall₂_trans {γ : Type} {R : α → β → Prop} {T : β → γ → Prop} {l : List α}
    {l' : List β} {l'' : List γ} (h : List.Forall₂ R l l') (h' : List.Forall₂ T l' l'') :
      List.Forall₂ (fun a c => ∃ b, R a b ∧ T b c) l l'' := by
  induction h generalizing l'' with
  | nil =>
      cases h'
      exact .nil
  | cons hab _ ih =>
      cases h' with
      | cons hbc hrest => exact .cons ⟨_, hab, hbc⟩ (ih hrest)

theorem exists_forall₂ {R : α → β → Prop} {l : List α} (h : ∀ a ∈ l, ∃ b, R a b) :
    ∃ l', List.Forall₂ R l l' := by
  induction l with
  | nil => exact ⟨[], .nil⟩
  | cons a l ih =>
      obtain ⟨b, hb⟩ := h a List.mem_cons_self
      obtain ⟨l', hl'⟩ := ih fun c hc => h c (List.mem_cons_of_mem a hc)
      exact ⟨b :: l', .cons hb hl'⟩

theorem exists_mapM_eq_ok {f : α → Except ε β} {l : List α} (h : ∀ a ∈ l, ∃ b, f a = .ok b) :
    ∃ l', l.mapM f = .ok l' := by
  obtain ⟨l', hl'⟩ := exists_forall₂ h
  exact ⟨l', mapM_eq_ok.mpr hl'⟩

theorem forall₂_comp_iff {γ : Type} {R : α → β → Prop} {T : β → γ → Prop}
    {l : List α} {l'' : List γ} :
    List.Forall₂ (fun a c => ∃ b, R a b ∧ T b c) l l'' ↔ ∃ l', List.Forall₂ R l l' ∧
      List.Forall₂ T l' l'' := by
  constructor
  · intro h
    induction h with
    | nil => exact ⟨[], .nil, .nil⟩
    | cons hac _ ih =>
        obtain ⟨b, hab, hbc⟩ := hac
        obtain ⟨l', hl, hl'⟩ := ih
        exact ⟨b :: l', .cons hab hl, .cons hbc hl'⟩
  · rintro ⟨l', hl, hl'⟩
    exact forall₂_trans hl hl'

-- Two lists that match and have parts of the same lengths match part by part.
theorem forall₂_flatMap {ι : Type} {R : α → β → Prop} {l : List ι} {f : ι → List α} {g : ι → List β}
    (hlen : ∀ i ∈ l, (f i).length = (g i).length) (h : List.Forall₂ R (l.flatMap f) (l.flatMap g)) :
    ∀ i ∈ l, List.Forall₂ R (f i) (g i) := by
  induction l with
  | nil => simp
  | cons i l ih =>
      rw [List.flatMap_cons, List.flatMap_cons] at h
      have hfront := List.forall₂_take_append _ _ _ h
      have hback := List.forall₂_drop_append _ _ _ h
      rw [← hlen i List.mem_cons_self] at hfront hback
      rw [List.take_left] at hfront
      rw [List.drop_left] at hback
      intro j hj
      rcases List.mem_cons.mp hj with rfl | hj
      · exact hfront
      · exact ih (fun j hj => hlen j (List.mem_cons_of_mem i hj)) hback j hj

theorem forall₂_mem_right {R : α → β → Prop} {l : List α} {l' : List β} (h : List.Forall₂ R l l') :
    ∀ b ∈ l', ∃ a ∈ l, R a b := by
  induction h with
  | nil => simp
  | cons hab _ ih =>
      intro c hc
      rcases List.mem_cons.mp hc with rfl | hc
      · exact ⟨_, List.mem_cons_self, hab⟩
      · obtain ⟨a, ha, hac⟩ := ih c hc
        exact ⟨a, List.mem_cons_of_mem _ ha, hac⟩

-- Jobs that are computed from others first.
theorem mapM_delivers {γ : Type} {f : α → Except ε β} {fetches : β → List γ → Prop}
    {l : List α} {out : List γ} :
    (∃ l', l.mapM f = .ok l' ∧ Delivers fetches l' out) ↔
      Delivers (fun a part => ∃ b, f a = .ok b ∧ fetches b part) l out := by
  induction l generalizing out with
  | nil => simp [pure, Except.pure, delivers_nil_iff]
  | cons a l ih =>
      simp only [List.mapM_cons, bind_eq_ok, delivers_cons_iff, ← ih, pure,
        Except.pure, Except.ok.injEq]
      constructor
      · rintro ⟨_, ⟨b, hb, l', hl', rfl⟩, hout⟩
        obtain ⟨part, rest, hpart, hrest, rfl⟩ := delivers_cons_iff.mp hout
        exact ⟨part, rest, ⟨b, hb, hpart⟩, ⟨l', hl', hrest⟩, rfl⟩
      · rintro ⟨part, rest, ⟨b, hb, hpart⟩, ⟨l', hl', hrest⟩, rfl⟩
        exact ⟨b :: l', ⟨b, hb, l', hl', rfl⟩,
          delivers_cons_iff.mpr ⟨part, rest, hpart, hrest, rfl⟩⟩

theorem flatten_mapM_eq_ok {f : α → Except ε (List β)} {l : List α} {out : List β} :
    List.flatten <$> l.mapM f = .ok out ↔ Delivers (fun a part => f a = .ok part) l out := by
  rw [map_eq_ok]
  simp only [mapM_eq_ok, Delivers]
  constructor
  · rintro ⟨parts, hparts, h⟩
    exact ⟨parts, hparts, h.symm⟩
  · rintro ⟨parts, hparts, h⟩
    exact ⟨parts, hparts, h.symm⟩

section Constant

variable {ι : Type} {jobs : List ι} {e e' : Except ε (List α)} {out : List α}

theorem const_part (hne : jobs ≠ []) (h : Delivers (fun _ part => e = .ok part) jobs out) :
    ∃ part, e = .ok part ∧ out.length = jobs.length * part.length := by
  obtain ⟨job, hjob⟩ := List.exists_mem_of_ne_nil jobs hne
  obtain ⟨part, hpart⟩ := h.exists_part job hjob
  have hall : Delivers (fun _ p => e = .ok p) (jobs.map fun i => i) (jobs.flatMap fun _ => part) :=
    delivers_map fun _ _ => hpart
  rw [List.map_id'] at hall
  rw [h.unique (fun _ r r' hr hr' => Except.ok.inj (hr.symm.trans hr')) hall]
  exact ⟨part, hpart, by simp [List.length_flatMap]⟩

-- One and the same part for every job can be told from what they deliver together.
theorem const_same (hne : jobs ≠ []) (h : Delivers (fun _ part => e = .ok part) jobs out)
    (h' : Delivers (fun _ part => e' = .ok part) jobs out) : ∃ part, e = .ok part ∧
      e' = .ok part := by
  obtain ⟨part, hpart, hlen⟩ := const_part hne h
  obtain ⟨part', hpart', hlen'⟩ := const_part hne h'
  have hsame : part'.length = part.length :=
    Nat.eq_of_mul_eq_mul_left (List.length_pos_iff.mpr hne) (hlen'.symm.trans hlen)
  obtain ⟨job, hjob⟩ := List.exists_mem_of_ne_nil jobs hne
  exact h.common_part part.length (fun _ _ hp => by rw [Except.ok.inj (hpart.symm.trans hp)])
    (fun _ _ hp => by rw [← hsame, Except.ok.inj (hpart'.symm.trans hp)]) h' job hjob

end Constant

end Paging
