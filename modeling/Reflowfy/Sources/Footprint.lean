import Reflowfy.JobRunner
import Reflowfy.Paging.Fallible
import Mathlib.Data.Set.Function

namespace Reflowfy.SourceKind

open Paging (Delivers)

variable {S : Type} {kind : SourceKind S} {splits fetches : Set String} {source : S}
    {params params' : Params}

-- The children that a source is split into fetch together what the source fetches.
def Faithful (kind : SourceKind S) (source : S) : Prop :=
  ∀ params records,
    (∃ jobs, kind.split source params = .ok jobs ∧
      Delivers (fun job part => kind.fetch job params = .ok part) jobs records) ↔
      kind.fetch source params = .ok records

-- How a source is split depends on the first of these params alone, and what its children fetch on
-- the others.
structure Reads (kind : SourceKind S) (splits fetches : Set String) (source : S) : Prop where
  split : ∀ params params' : Params, Set.EqOn params params' splits →
    kind.split source params = kind.split source params'
  children : ∀ planning jobs, kind.split source planning = .ok jobs → ∀ job ∈ jobs,
    ∀ params params' : Params, Set.EqOn params params' fetches →
      kind.fetch job params = kind.fetch job params'

theorem Reads.mono {splits' fetches' : Set String} (hsplits : splits ⊆ splits')
    (hfetches : fetches ⊆ fetches')
    (hreads : kind.Reads splits fetches source) : kind.Reads splits' fetches' source where
  split params params' heq := hreads.split params params' (heq.mono hsplits)
  children planning jobs hjobs job hjob params params' heq :=
    hreads.children planning jobs hjobs job hjob params params' (heq.mono hfetches)

theorem faithful_static (records : List Value) :
    kind.with_static.Faithful (.StaticSource records) := by
  intro params out
  cases records with
  | nil =>
      simp only [SourceKind.with_static, List.isEmpty_nil, if_true,
        Except.ok.injEq, exists_eq_left']
      rw [Paging.delivers_nil_iff, eq_comm]
  | cons record records =>
      simp only [SourceKind.with_static, List.isEmpty_cons, Bool.false_eq_true,
        if_false, Except.ok.injEq,
        exists_eq_left', Paging.delivers_cons_iff, Paging.delivers_nil_iff]
      simp [eq_comm]

theorem Faithful.of (hfaithful : kind.Faithful source) :
    kind.with_static.Faithful (.of source) := by
  intro params records
  simp only [SourceKind.with_static, ← hfaithful params records, Paging.map_eq_ok]
  constructor
  · rintro ⟨_, ⟨jobs, hjobs, rfl⟩, hdeliver⟩
    exact ⟨jobs, hjobs, Paging.delivers_map_iff.mp hdeliver⟩
  · rintro ⟨jobs, hjobs, hdeliver⟩
    exact ⟨_, ⟨jobs, hjobs, rfl⟩, Paging.delivers_map_iff.mpr hdeliver⟩

theorem reads_static (records : List Value) :
    kind.with_static.Reads splits fetches (.StaticSource records) where
  split _ _ _ := rfl
  children planning jobs hjobs job hjob params params' heq := by
    obtain rfl := Except.ok.inj hjobs
    cases records with
    | nil => cases hjob
    | cons record records =>
        obtain rfl := List.mem_singleton.mp hjob
        rfl

theorem Reads.of (hreads : kind.Reads splits fetches source) :
    kind.with_static.Reads splits fetches (.of source) where
  split params params' heq := congrArg (List.map Source.of <$> ·) (hreads.split params params' heq)
  children planning jobs hjobs job hjob params params' heq := by
    obtain ⟨children, hchildren, rfl⟩ := Paging.map_eq_ok.mp hjobs
    obtain ⟨child, hchild, rfl⟩ := List.mem_map.mp hjob
    exact hreads.children planning children hchildren child hchild params params' heq

-- A source that is split with some params, and each child fetched with others, gives what it
-- fetches itself with any params that are the same where each of them is read.
theorem Faithful.delivers_iff (hfaithful : kind.Faithful source)
    (hreads : kind.Reads splits fetches source)
    (hsplit : Set.EqOn params params' splits) {jobs : List S}
    (hjobs : kind.split source params = .ok jobs) {runs : List (S × Params)}
    (hruns : List.Forall₂ (fun run job => run.1 = job ∧ Set.EqOn run.2 params' fetches) runs jobs)
    (records : List Value) :
    Delivers (fun run part => kind.fetch run.1 run.2 = .ok part) runs records ↔
      kind.fetch source params' = .ok records := by
  have hjobs' : kind.split source params' = .ok jobs := hreads.split params params' hsplit ▸ hjobs
  have hsame : ∀ run ∈ runs, kind.fetch run.1 run.2 = kind.fetch run.1 params' := by
    intro run hrun
    obtain ⟨i, hi, rfl⟩ := List.mem_iff_getElem.mp hrun
    obtain ⟨hjob, heq⟩ :=
      (List.forall₂_iff_get.mp hruns).2 i hi ((List.forall₂_iff_get.mp hruns).1 ▸ hi)
    have hmem := List.get_mem jobs ⟨i, (List.forall₂_iff_get.mp hruns).1 ▸ hi⟩
    rw [← hjob] at hmem
    exact hreads.children params jobs hjobs _ hmem _ _ heq
  have hmap : runs.map Prod.fst = jobs := by
    rw [← List.forall₂_eq_eq_eq, List.forall₂_map_left_iff]
    exact hruns.imp fun _ _ h => h.1
  rw [← hfaithful params' records, Paging.delivers_congr fun run hrun part => by
    rw [hsame run hrun]]
  constructor
  · intro hdeliver
    exact ⟨jobs, hjobs', hmap ▸ Paging.delivers_map_iff.mpr hdeliver⟩
  · rintro ⟨jobs'', hjobs'', hdeliver⟩
    obtain rfl := Except.ok.inj (hjobs'.symm.trans hjobs'')
    rw [← hmap] at hdeliver
    exact Paging.delivers_map_iff.mp hdeliver

section Probes

-- A param, as a record.
def seen (k : String) (params : Params) : Value :=
  match params k with
  | some v => .list [v]
  | none => .list []

theorem seen_inj {k : String} (h : seen k params = seen k params') : params k = params' k := by
  unfold seen at h
  cases hp : params k <;> cases hp' : params' k <;> simp_all

theorem seen_congr {k : String} (heq : Set.EqOn params params' {k}) :
    seen k params = seen k params' := by
  rw [seen, seen, heq rfl]

-- A source that reads one param; its child keeps what it has read.
def keeping (k : String) : SourceKind (Option Value) where
  split source params := .ok [some (source.getD (seen k params))]
  fetch source params := .ok [source.getD (seen k params)]

theorem keeping_faithful (k : String) (source : Option Value) : (keeping k).Faithful source := by
  intro params records
  simp [keeping, Paging.delivers_cons_iff, Paging.delivers_nil_iff, eq_comm]

theorem keeping_reads (k : String) (source : Option Value) : (keeping k).Reads {k} ∅ source where
  split _ _ heq := by simp [keeping, seen_congr heq]
  children _ _ hjobs job hjob _ _ _ := by
    rw [← Except.ok.inj hjobs] at hjob
    rw [List.mem_singleton.mp hjob]
    rfl

-- `n` records that each read one param, and are fetched one by one when the source is split.
def reading (n : ℕ) (k : String) : SourceKind Bool where
  split whole _ := .ok (if whole then List.replicate n false else [false])
  fetch whole params := .ok (List.replicate (if whole then n else 1) (seen k params))

theorem reading_part {n : ℕ} {k : String} {part : List Value} :
    (reading n k).fetch false params = .ok part ↔ part = [seen k params] := by
  simp [reading, eq_comm]

theorem reading_faithful (n : ℕ) (k : String) (whole : Bool) : (reading n k).Faithful whole := by
  intro params records
  cases whole with
  | false => simp [reading, Paging.delivers_cons_iff, Paging.delivers_nil_iff, eq_comm]
  | true =>
      have hsplit : (reading n k).split true params = .ok (List.replicate n false) := rfl
      have hfetch : (reading n k).fetch true params = .ok (List.replicate n (seen k params)) := rfl
      have hparts : ∀ job ∈ List.replicate n false, ∀ part,
          (reading n k).fetch job params = .ok part ↔ part = [seen k params] := by
        intro job hjob part
        rw [List.eq_of_mem_replicate hjob, reading_part]
      simp only [hsplit, hfetch, Except.ok.injEq, exists_eq_left']
      rw [Paging.delivers_congr hparts, Paging.delivers_singletons_iff, List.map_replicate, eq_comm]

theorem reading_reads (n : ℕ) (k : String) (whole : Bool) : (reading n k).Reads ∅ {k} whole where
  split _ _ _ := rfl
  children _ _ _ job _ _ _ heq := by simp [reading, seen_congr heq]

-- Some lists of records, each of which is a job.
def listed : SourceKind (List (List Value)) where
  split parts _ := .ok (parts.map fun part => [part])
  fetch parts _ := .ok parts.flatten

theorem listed_reads (parts : List (List Value)) : listed.Reads splits fetches parts where
  split _ _ _ := rfl
  children _ _ _ _ _ _ _ _ := rfl

end Probes

end Reflowfy.SourceKind
