import Reflowfy.RecordIdentity

namespace Reflowfy

open Json

-- What a record's hash is computed of. JSON objects have no key twice.
structure HashedRecord where
  pipeline_name : String
  identity : Json
  destination : Option (List (String × Json))
  job_params : Option (List (String × Json))
  identity_wf : identity.WellFormed
  destination_wf : (obj (destination.getD [])).WellFormed
  job_params_wf : (obj (job_params.getD [])).WellFormed

namespace HashedRecord

def stable (r : HashedRecord) : Json :=
  Reflowfy.stable r.pipeline_name r.identity r.destination r.job_params

def hash {Text Digest : Type} (dumps : Json → Text) (sha256 : Text → Digest)
    (r : HashedRecord) : Digest :=
  compute_record_hash dumps sha256 r.pipeline_name r.identity r.destination r.job_params

-- The params of a job that say more than which slice carried the record.
def params_of_write (r : HashedRecord) : List (String × Json) :=
  (r.job_params.getD []).filter fun entry =>
    entry.1 ≠ "current_id" ∧ entry.1 ≠ "current_ids" ∧ entry.1 ≠ "input_ids"

-- The same record written by the same pipeline to the same place for the same params.
structure SameWrite (r r' : HashedRecord) : Prop where
  pipeline_name : r.pipeline_name = r'.pipeline_name
  identity : Same r.identity r'.identity
  destination : Same (obj (r.destination.getD [])) (obj (r'.destination.getD []))
  job_params : Same (obj r.params_of_write) (obj r'.params_of_write)

theorem own_params_eq (r : HashedRecord) : own_params r.job_params = r.params_of_write := by
  unfold own_params params_of_write
  refine List.filter_congr fun entry _ => ?_
  simp [SLICE_PARAMS]

end HashedRecord

section Stable

theorem wellFormed_filter {entries : List (String × Json)} (p : String × Json → Bool)
    (h : (obj entries).WellFormed) :
    (obj (entries.filter p)).WellFormed := by
  refine ⟨List.Nodup.sublist (List.filter_sublist.map _) h.1,
    wellFormedEntries_iff.mpr fun entry hentry => ?_⟩
  exact wellFormedEntries_iff.mp h.2 entry (List.mem_of_mem_filter hentry)

theorem stable_wellFormed (r : HashedRecord) : r.stable.WellFormed := by
  have hown := wellFormed_filter (fun entry => !SLICE_PARAMS.contains entry.1) r.job_params_wf
  have hdest := r.destination_wf
  have hid := r.identity_wf
  unfold HashedRecord.stable stable stable_part
  constructor
  · split <;> split <;> simp
  · rw [wellFormedEntries_iff]
    split <;> split <;> simp_all [WellFormed, own_params]

-- Empty or not is settled by the keys.
theorem same_isEmpty_eq {xs ys : List (String × Json)} (h : Same (obj xs) (obj ys)) :
    xs.isEmpty = ys.isEmpty := by
  cases h with
  | obj hkeys _ =>
      cases xs with
      | nil =>
          cases ys with
          | nil => rfl
          | cons y ys => simpa using (hkeys y.1).mpr (by simp)
      | cons x xs =>
          cases ys with
          | nil => simpa using (hkeys x.1).mp (by simp)
          | cons y ys => rfl

theorem same_nil : Same (obj []) (obj []) := .obj (by simp) (by simp)

theorem mem_stable_part {key k : String} {entries : List (String × Json)} {v : Json} :
    (k, v) ∈ stable_part key entries ↔ k = key ∧ v = obj entries ∧ entries.isEmpty = false := by
  unfold stable_part
  split <;> simp_all

-- A part that is left out when empty: whether it is there shows in the keys, what it is in
-- the value.
theorem same_of_part {xs ys : List (String × Json)} (h : Same (obj xs) (obj ys)) (key : String)
    {part part' : List (String × Json)} (hx : ∀ v, (key, v) ∈ xs ↔ v = obj part ∧
      part.isEmpty = false)
    (hy : ∀ v, (key, v) ∈ ys ↔ v = obj part' ∧ part'.isEmpty = false) :
      Same (obj part) (obj part') := by
  cases h with
  | obj hkeys hvalues =>
      have hkey : part.isEmpty = false ↔ part'.isEmpty = false := by
        have hkey := hkeys key
        simp only [List.mem_map, Prod.exists, exists_and_right, exists_eq_right, hx, hy] at hkey
        simpa using hkey
      by_cases hpart : part.isEmpty = false
      · exact hvalues key _ _ ((hx _).mpr ⟨rfl, hpart⟩) ((hy _).mpr ⟨rfl, hkey.mp hpart⟩)
      · have hpart' := mt hkey.mpr hpart
        simp only [Bool.not_eq_false, List.isEmpty_iff] at hpart hpart'
        rw [hpart, hpart']
        exact same_nil

-- The entries of `stable`.
def HashedRecord.entries (r : HashedRecord) : List (String × Json) :=
  [("pipeline_name", .str r.pipeline_name), ("record", r.identity)] ++
    stable_part "destination" (r.destination.getD []) ++
      stable_part "job_params" (own_params r.job_params)

theorem mem_entries {r : HashedRecord} {k : String} {v : Json} : (k, v) ∈ r.entries ↔
    (k = "pipeline_name" ∧ v = .str r.pipeline_name) ∨ (k = "record" ∧ v = r.identity) ∨
      (k = "destination" ∧ v = obj (r.destination.getD []) ∧
        (r.destination.getD []).isEmpty = false) ∨
      (k = "job_params" ∧ v = obj (own_params r.job_params) ∧
        (own_params r.job_params).isEmpty = false) := by
  simp only [HashedRecord.entries, List.mem_append, mem_stable_part, List.mem_cons,
    List.not_mem_nil, or_false,
    Prod.mk.injEq, or_assoc]

theorem mem_entries_keys {r : HashedRecord} {k : String} : k ∈ r.entries.map Prod.fst ↔
    k = "pipeline_name" ∨ k = "record" ∨
      (k = "destination" ∧ (r.destination.getD []).isEmpty = false) ∨
      (k = "job_params" ∧ (own_params r.job_params).isEmpty = false) := by
  simp only [List.mem_map, Prod.exists, exists_and_right, exists_eq_right, mem_entries]
  constructor
  · rintro ⟨v, ⟨hk, -⟩ | ⟨hk, -⟩ | ⟨hk, -, hne⟩ | ⟨hk, -, hne⟩⟩ <;> simp [*]
  · rintro (hk | hk | ⟨hk, hne⟩ | ⟨hk, hne⟩) <;> simp [*]

theorem same_stable_iff (r r' : HashedRecord) : Same r.stable r'.stable ↔ r.SameWrite r' := by
  change Same (obj r.entries) (obj r'.entries) ↔ _
  constructor
  · intro h
    refine ⟨?_, ?_, same_of_part h "destination" (fun v => ?_) fun v => ?_,
      r.own_params_eq ▸ r'.own_params_eq ▸ same_of_part h "job_params" (fun v => ?_) fun v => ?_⟩
    · cases h with
      | obj _ hvalues =>
          have hstr : ∀ s t, Same (.str s) (.str t) → s = t := by
            intro s t hsame
            cases hsame
            rfl
          apply hstr
          exact hvalues "pipeline_name" _ _ (mem_entries.mpr (.inl ⟨rfl, rfl⟩))
            (mem_entries.mpr (.inl ⟨rfl, rfl⟩))
    · cases h with
      | obj _ hvalues =>
          exact hvalues "record" _ _ (mem_entries.mpr (.inr (.inl ⟨rfl, rfl⟩)))
            (mem_entries.mpr (.inr (.inl ⟨rfl, rfl⟩)))
    all_goals simp [mem_entries]
  · intro h
    have hparams : Same (obj (own_params r.job_params)) (obj (own_params r'.job_params)) := by
      rw [r.own_params_eq, r'.own_params_eq]
      exact h.job_params
    refine .obj (fun k => ?_) fun k a b ha hb => ?_
    · rw [mem_entries_keys, mem_entries_keys, same_isEmpty_eq h.destination,
        same_isEmpty_eq hparams]
    · rw [mem_entries] at ha hb
      rcases ha with ⟨rfl, rfl⟩ | ⟨rfl, rfl⟩ | ⟨rfl, rfl, -⟩ | ⟨rfl, rfl, -⟩
      · obtain rfl : b = .str r'.pipeline_name := by simpa using hb
        rw [h.pipeline_name]
        exact .str _
      · obtain rfl : b = r'.identity := by simpa using hb
        exact h.identity
      · obtain ⟨rfl, -⟩ : b = obj (r'.destination.getD []) ∧ _ := by simpa using hb
        exact h.destination
      · obtain ⟨rfl, -⟩ : b = obj (own_params r'.job_params) ∧ _ := by simpa using hb
        exact hparams

end Stable

-- Hashes agree iff the writes are the same.
theorem record_hash_eq_iff {Text Digest : Type} {dumps : Json → Text} {sha256 : Text → Digest}
    (hdumps : Function.Injective dumps) (hsha : Function.Injective sha256) (r r' : HashedRecord) :
    r.hash dumps sha256 = r'.hash dumps sha256 ↔ r.SameWrite r' := by
  rw [HashedRecord.hash, HashedRecord.hash, compute_record_hash, compute_record_hash,
    hsha.eq_iff, hdumps.eq_iff]
  exact (sorted_eq_iff _ _ (stable_wellFormed r) (stable_wellFormed r')).trans
    (same_stable_iff r r')

-- One record, with its keys in another order, carried by a slice, and written for a tenant.
def plain_user : HashedRecord where
  pipeline_name := "p"
  identity := obj [("id", .int 1), ("name", .str "x")]
  destination := none
  job_params := none
  identity_wf := by simp [WellFormed, WellFormedEntries]
  destination_wf := by simp [WellFormed, WellFormedEntries]
  job_params_wf := by simp [WellFormed, WellFormedEntries]

def sliced_user : HashedRecord where
  pipeline_name := "p"
  identity := obj [("name", .str "x"), ("id", .int 1)]
  destination := some []
  job_params := some [("current_id", .int 1)]
  identity_wf := by simp [WellFormed, WellFormedEntries]
  destination_wf := by simp [WellFormed, WellFormedEntries]
  job_params_wf := by simp [WellFormed, WellFormedEntries]

def tenant_user : HashedRecord where
  pipeline_name := "p"
  identity := obj [("id", .int 1), ("name", .str "x")]
  destination := none
  job_params := some [("tenant", .str "a")]
  identity_wf := by simp [WellFormed, WellFormedEntries]
  destination_wf := by simp [WellFormed, WellFormedEntries]
  job_params_wf := by simp [WellFormed, WellFormedEntries]

-- The order and the slice do not count, the tenant does.
theorem record_hash_eq_slice :
    plain_user.hash id id = sliced_user.hash id id ∧
      plain_user.hash id id ≠ tenant_user.hash id id := by
  have hiff := @record_hash_eq_iff _ _ id id Function.injective_id Function.injective_id plain_user
  constructor
  · refine (hiff sliced_user).mpr ⟨rfl, .obj (by simp [or_comm]) fun k a b ha hb => ?_,
      same_nil, same_nil⟩
    simp only [List.mem_cons, Prod.mk.injEq, List.not_mem_nil, or_false] at ha hb
    rcases ha with ⟨rfl, rfl⟩ | ⟨rfl, rfl⟩
    · obtain rfl : b = .int 1 := by simpa using hb
      exact .int 1
    · obtain rfl : b = .str "x" := by simpa using hb
      exact .str "x"
  · intro hsame
    have hempty := same_isEmpty_eq ((hiff tenant_user).mp hsame).job_params
    simp [HashedRecord.params_of_write, plain_user, tenant_user] at hempty

end Reflowfy
