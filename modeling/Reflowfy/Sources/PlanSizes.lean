import Reflowfy.Sources.RangeWindows
import Reflowfy.Paging.Fallible

namespace Reflowfy.ElasticSource

open Paging Arithmetic

variable {Doc Key : Type} [LinearOrder Key] {settings : Settings} {count : ℕ}

-- As many jobs as expected, each with a document, and none with more than its share.
structure Sized (pit : Listing Doc Key) (settings : Settings)
    (plan : List (Planned (Window Key))) : Prop where
  jobs : plan.length = expected_jobs settings pit.hits.length
  documents : ∀ job ∈ plan, ∃ records, Fetches pit settings job records ∧ records ≠ [] ∧
    records.length ≤ pit.hits.length ⌈/⌉ plan.length

-- The jobs that the scan of so many documents finds cursors for, and what each is to hold.
def scanned_jobs (settings : Settings) (count : ℕ) : ℕ :=
  if num_windows settings count ≤ 1 then 1
  else min (num_windows settings count) (count / window_size settings count + 1)

def job_size (settings : Settings) (count : ℕ) : ℕ :=
  if num_windows settings count ≤ 1 then count else window_size settings count

-- The scan ends with as many cursors as expected, the last of them before the last document.
structure Spread (settings : Settings) (count : ℕ) : Prop where
  jobs : scanned_jobs settings count = expected_jobs settings count
  last : (expected_jobs settings count - 1) * job_size settings count < count
  share : min (job_size settings count) count ≤ count ⌈/⌉ expected_jobs settings count

section Plan

variable {pit : Listing Doc Key}

-- The jobs of a plan read the snapshot in steps of their size.
theorem plan_reads (hsize : 1 ≤ settings.size) (hcount : pit.hits ≠ []) :
    ∃ plan, Splits pit settings pit.hits.length plan ∧ List.Forall₂ (Fetches pit settings) plan
      ((List.range (scanned_jobs settings pit.hits.length)).map fun k =>
        (pit.hits.drop (k * job_size settings pit.hits.length)).take
        (job_size settings pit.hits.length)) := by
  have hpos := List.length_pos_iff.mpr hcount
  by_cases hone : num_windows settings pit.hits.length ≤ 1
  · refine ⟨[.self], ?_, ?_⟩
    · rw [Splits, Plans, if_neg hpos.ne', if_pos hone]
    · rw [scanned_jobs, if_pos hone, job_size, if_pos hone]
      refine .cons ?_ .nil
      have hreturns := scroll_returns hsize pit.hits
      simpa [Fetches] using hreturns
  · refine ⟨_, plans_cuts pit _ hsize (Nat.not_le.mp hone), ?_⟩
    rw [scanned_jobs, if_neg hone, job_size, if_neg hone, cuts, List.map_map, List.map_map,
      List.forall₂_map_left_iff,
      List.forall₂_map_right_iff, List.forall₂_same]
    exact fun k _ => fetch_window_returns hsize _ _

theorem job_size_pos (hcount : 0 < count) : 0 < job_size settings count := by
  unfold job_size
  split
  · exact hcount
  · exact ceilTrueDiv_pos hcount (by omega)

theorem scanned_jobs_pos : 0 < scanned_jobs settings count := by
  unfold scanned_jobs
  split
  · exact Nat.one_pos
  · exact Nat.lt_min.mpr ⟨by omega, Nat.succ_pos _⟩

theorem sized_iff (pit : Listing Doc Key) (hsize : 1 ≤ settings.size) (hcount : pit.hits ≠ []) :
    (∃ plan, Splits pit settings pit.hits.length plan ∧ Sized pit settings plan) ↔
    Spread settings pit.hits.length := by
  have hpos := List.length_pos_iff.mpr hcount
  have hstep : 0 < job_size settings pit.hits.length := job_size_pos hpos
  have hjobs : 0 < scanned_jobs settings pit.hits.length := scanned_jobs_pos
  obtain ⟨plan, hsplits, hreads⟩ := plan_reads hsize hcount
  have hlen : plan.length = scanned_jobs settings pit.hits.length := by
    rw [hreads.length_eq, List.length_map, List.length_range]
  have hpart : ∀ k,
      ((pit.hits.drop (k * job_size settings pit.hits.length)).take
        (job_size settings pit.hits.length)).length =
      min (job_size settings pit.hits.length)
          (pit.hits.length - k * job_size settings pit.hits.length) := by
    intro k
    rw [List.length_take, List.length_drop]
  constructor
  · rintro ⟨plan', hsplits', hsized⟩
    obtain rfl := plans_unique hsplits hsplits'
    have hdocs : ∀ k < scanned_jobs settings pit.hits.length,
        0 < min (job_size settings pit.hits.length)
          (pit.hits.length - k * job_size settings pit.hits.length) ∧
          min (job_size settings pit.hits.length)
            (pit.hits.length - k * job_size settings pit.hits.length) ≤
            pit.hits.length ⌈/⌉ plan.length := by
      intro k hk
      obtain ⟨job, hjob, hfetch⟩ :=
        Paging.forall₂_mem_right hreads _ (List.mem_map_of_mem (List.mem_range.mpr hk))
      obtain ⟨records, hrecords, hne, hshare⟩ := hsized.documents job hjob
      obtain rfl := fetches_unique job _ _ hfetch hrecords
      rw [← hpart k]
      exact ⟨List.length_pos_iff.mpr hne, hshare⟩
    have hjobs' := hlen.symm.trans hsized.jobs
    refine ⟨hjobs', ?_, ?_⟩
    · have hlast := (hdocs (scanned_jobs settings pit.hits.length - 1) (by omega)).1
      rw [hjobs'] at hlast
      omega
    · have hfirst := (hdocs 0 hjobs).2
      rw [hlen, hjobs'] at hfirst
      simpa using hfirst
  · rintro ⟨hjobs', hlast, hshare⟩
    refine ⟨plan, hsplits, hlen.trans hjobs', fun job hjob => ?_⟩
    obtain ⟨part, hpart', hfetch⟩ := Paging.forall₂_mem_right hreads.flip job hjob
    obtain ⟨k, hk, rfl⟩ := List.mem_map.mp hpart'
    have hk' := List.mem_range.mp hk
    have hbefore : k * job_size settings pit.hits.length ≤
        (expected_jobs settings pit.hits.length - 1) * job_size settings pit.hits.length :=
      Nat.mul_le_mul_right _ (by omega)
    refine ⟨_, hfetch, ?_, ?_⟩
    · rw [← List.length_pos_iff, hpart k]
      omega
    · rw [hpart k, hlen, hjobs']
      omega

theorem spread_iff (hdocs : 1 ≤ settings.docs_per_job) (hmax : 1 ≤ settings.max_slices)
    (hcount : 0 < count) (hsmall : count < 2 ^ 53) : Spread settings count ↔
      (expected_jobs settings count - 1) * (count ⌈/⌉ expected_jobs settings count) < count := by
  have hwindows := num_windows_eq hdocs hsmall
  have hpos : 0 < expected_jobs settings count := by
    rw [expected_jobs, Nat.ceilDiv_eq_add_pred_div]
    exact Nat.lt_min.mpr ⟨Nat.div_pos (by omega) hdocs, hmax⟩
  by_cases hone : expected_jobs settings count ≤ 1
  · have hexpected : expected_jobs settings count = 1 := by omega
    refine iff_of_true ⟨?_, ?_, ?_⟩ ?_
    · rw [scanned_jobs, hwindows, if_pos hone, hexpected]
    · rw [hexpected]
      omega
    · rw [hexpected, Nat.ceilDiv_eq_add_pred_div, Nat.div_one]
      exact Nat.min_le_right ..
    · rw [hexpected]
      omega
  · have hshare := window_size_eq hdocs hsmall hpos
    have hjob : job_size settings count = count ⌈/⌉ expected_jobs settings count := by
      rw [job_size, hwindows, if_neg hone, hshare]
    have hsize : 0 < count ⌈/⌉ expected_jobs settings count := hjob ▸ job_size_pos hcount
    refine ⟨fun h => hjob ▸ h.last, fun hlast =>
      ⟨?_, by rwa [hjob], by rw [hjob]; exact Nat.min_le_left ..⟩⟩
    rw [scanned_jobs, hwindows, if_neg hone, hshare]
    have hreach : expected_jobs settings count - 1 ≤ count /
        (count ⌈/⌉ expected_jobs settings count) :=
      (Nat.le_div_iff_mul_le hsize).mpr hlast.le
    omega

-- The jobs of a plan are as many and as big as they should be iff the scan ends well.
theorem plan_sized_iff (pit : Listing Doc Key) (hsize : 1 ≤ settings.size)
    (hdocs : 1 ≤ settings.docs_per_job) (hmax : 1 ≤ settings.max_slices) (hcount : pit.hits ≠ []) :
    ((∃ plan, Splits pit settings pit.hits.length plan ∧ Sized pit settings plan) ↔
      Spread settings pit.hits.length) ∧
      (pit.hits.length < 2 ^ 53 →
        (Spread settings pit.hits.length ↔ (expected_jobs settings pit.hits.length - 1) *
        (pit.hits.length ⌈/⌉ expected_jobs settings pit.hits.length) < pit.hits.length)) :=
  ⟨sized_iff pit hsize hcount, spread_iff hdocs hmax (List.length_pos_iff.mpr hcount)⟩

-- One document to a job.
theorem plan_sized_ten :
    ((∃ plan, Splits (Listing.range 10) ⟨3, 1, 1024⟩ 10 plan ∧
    Sized (Listing.range 10) ⟨3, 1, 1024⟩ plan) ↔
      Spread ⟨3, 1, 1024⟩ 10) ∧
    (10 < 2 ^ 53 → (Spread ⟨3, 1, 1024⟩ 10 ↔
      (expected_jobs ⟨3, 1, 1024⟩ 10 - 1) * (10 ⌈/⌉ expected_jobs ⟨3, 1, 1024⟩ 10) < 10)) :=
  plan_sized_iff (Listing.range 10) (by decide) (by decide) (by decide) (by decide)

-- Ten documents, in at most seven jobs: there are six, and the last of them is empty.
theorem plan_short : ¬∃ plan, Splits (Listing.range 10) ⟨3, 1, 7⟩ 10 plan ∧
    Sized (Listing.range 10) ⟨3, 1, 7⟩ plan := by
  intro hplan
  have hspread := (sized_iff (Listing.range 10) (by decide) (by decide)).mp hplan
  exact absurd hspread.jobs (by decide)

end Plan

end Reflowfy.ElasticSource
