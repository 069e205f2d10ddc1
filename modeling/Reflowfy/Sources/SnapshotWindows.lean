import Reflowfy.Sources.Elastic
import Mathlib.Algebra.Order.Floor.Div

namespace Reflowfy.ElasticSource

open Paging Arithmetic

variable {Doc Key : Type} [LinearOrder Key] {pit : Listing Doc Key}

section Fetch

-- What a window has read are the documents behind its cursor, up to the next one.
def Read (pit : Listing Doc Key) (start target : ℕ) : List Doc × Option Key → Prop
  | (out, search_after) =>
      out.length ≤ target ∧ out = (pit.hits.drop start).take out.length ∧
        search_after = pit.cursor (start + out.length)

theorem Read.length_search {start target : ℕ} {out : List Doc} {search_after : Option Key}
    (hread : Read pit start target (out, search_after)) (size : ℕ) :
    (pit.search search_after size).length = min size (pit.hits.length - (start + out.length)) := by
  obtain ⟨-, -, rfl⟩ := hread
  exact pit.length_search (start + out.length) size

-- One page more has been read.
theorem Read.page {start target size : ℕ} {out : List Doc} {search_after : Option Key}
    (hread : Read pit start target (out, search_after)) (hpage : pit.search search_after size ≠ [])
    (hfit : out.length + (pit.search search_after size).length ≤ target) :
    Read pit start target (out ++ pit.search search_after size,
      (pit.search search_after size).getLast?.map pit.sort) := by
  obtain ⟨-, hout, rfl⟩ := hread
  refine ⟨?_, ?_, ?_⟩
  · rw [List.length_append]
    exact hfit
  · rw [List.length_append, List.take_add, List.drop_drop, pit.take_length_search, ← hout]
  · rw [List.length_append, ← Nat.add_assoc]
    exact pit.cursor_search hpage

-- Nothing is left behind what has been read.
theorem Read.all {start target size : ℕ} {out : List Doc} {search_after : Option Key}
    (hsize : 1 ≤ size) (hread : Read pit start target (out, search_after))
    (hempty : pit.search search_after size = []) :
    out = (pit.hits.drop start).take target := by
  obtain ⟨hle, hout, rfl⟩ := hread
  rw [pit.search_eq_nil_iff hsize] at hempty
  rw [List.take_of_length_le (l := pit.hits.drop start) (by simp; omega), hout]
  exact List.take_of_length_le (by simp; omega)

theorem fetch_window_step {size start target : ℕ} (hsize : 1 ≤ size) {s : List Doc × Option Key}
    (hread : Read pit start target s) :
    (∃ s', fetch_window pit size target none s = .inl s' ∧ Read pit start target s' ∧
      target - s'.1.length < target - s.1.length) ∨
    ∃ out, fetch_window pit size target none s = .inr out ∧
      out = (pit.hits.drop start).take target := by
  obtain ⟨out, search_after⟩ := s
  have hle : out.length ≤ target := hread.1
  by_cases hlt : out.length < target
  · by_cases hempty : pit.search search_after (min size (target - out.length)) = []
    · refine .inr ⟨out.take target, by simp [fetch_window, hlt, hempty], ?_⟩
      rw [List.take_of_length_le hle]
      exact hread.all (by omega) hempty
    · have hlen := hread.length_search (min size (target - out.length))
      have hpos := List.length_pos_iff.mpr hempty
      refine .inl ⟨(out ++ pit.search search_after (min size (target - out.length)),
        (pit.search search_after (min size (target - out.length))).getLast?.map pit.sort),
        ?_, ?_, ?_⟩
      · simp [fetch_window, hlt, hempty, sample]
      · exact hread.page hempty (by omega)
      · show target - (out ++ _).length < target - out.length
        rw [List.length_append]
        omega
  · refine .inr ⟨out.take target, by simp [fetch_window, hlt], ?_⟩
    rw [hread.2.1, List.take_take]
    congr 1
    omega

theorem fetch_window_returns {size : ℕ} (hsize : 1 ≤ size) (start target : ℕ) :
    Returns (fetch_window pit size target none) ([], pit.cursor start)
      ((pit.hits.drop start).take target) := by
  obtain ⟨out, hreturns, rfl⟩ := returns_of_variant (fun s => target - s.1.length)
    (fun s hs => fetch_window_step hsize hs) (s := ([], pit.cursor start)) ⟨Nat.zero_le _, rfl, rfl⟩
  exact hreturns

end Fetch

section Scan

variable {size w n seen : ℕ}

-- The cursors found among the first `seen` documents.
def cuts (pit : Listing Doc Key) (w n seen : ℕ) : List (Option Key) :=
  (List.range (min n (seen / w + 1))).map fun k => pit.cursor (k * w)

theorem note_next (hseen : seen < pit.hits.length) (search_after : Option Key) :
    note pit w n (cuts pit w n seen, seen, search_after) pit.hits[seen] =
      (cuts pit w n (seen + 1), seen + 1, pit.cursor (seen + 1)) := by
  have hlen : (cuts pit w n seen).length = min n (seen / w + 1) := by simp [cuts]
  have hcursor := pit.cursor_succ hseen
  have hdiv : (seen + 1) / w = seen / w + if w ∣ seen + 1 then 1 else 0 := Nat.succ_div
  simp only [note, hlen, ← hcursor, Prod.mk.injEq, and_true]
  by_cases hcut : (seen + 1) % w = 0 ∧ min n (seen / w + 1) < n
  · obtain ⟨hmod, hmore⟩ := hcut
    rw [if_pos ⟨hmod, hmore⟩]
    rw [if_pos (Nat.dvd_of_mod_eq_zero hmod)] at hdiv
    have hhere : (seen / w + 1) * w = seen + 1 := by
      rw [← hdiv]
      exact Nat.div_mul_cancel (Nat.dvd_of_mod_eq_zero hmod)
    have hnow : min n (seen / w + 1) = seen / w + 1 := by omega
    have hnext : min n ((seen + 1) / w + 1) = seen / w + 1 + 1 := by omega
    rw [cuts, cuts, hnow, hnext, List.range_succ (n := seen / w + 1), List.map_append,
      List.map_singleton, hhere]
  · rw [if_neg hcut]
    have hsame : min n ((seen + 1) / w + 1) = min n (seen / w + 1) := by
      by_cases hmod : (seen + 1) % w = 0
      · rw [if_pos (Nat.dvd_of_mod_eq_zero hmod)] at hdiv
        omega
      · rw [if_neg fun hdvd => hmod (Nat.mod_eq_zero_of_dvd hdvd)] at hdiv
        omega
    rw [cuts, cuts, hsame]

theorem note_page (m : ℕ) (hm : seen + m ≤ pit.hits.length) :
    ((pit.hits.drop seen).take m).foldl (note pit w n) (cuts pit w n seen, seen, pit.cursor seen) =
      (cuts pit w n (seen + m), seen + m, pit.cursor (seen + m)) := by
  induction m with
  | zero => simp
  | succ m ih =>
      have hlast : m < (pit.hits.drop seen).length := by
        rw [List.length_drop]
        omega
      rw [List.take_succ_eq_append_getElem hlast, List.foldl_append, ih (by omega),
        List.foldl_cons, List.foldl_nil,
        List.getElem_drop]
      exact note_next (by omega) _

def Scanned (pit : Listing Doc Key) (w n : ℕ) : List (Option Key) × ℕ × Option Key → Prop
  | (cursors, seen, search_after) =>
      seen ≤ pit.hits.length ∧ cursors = cuts pit w n seen ∧ search_after = pit.cursor seen

theorem scan_step (hsize : 1 ≤ size) {s : List (Option Key) × ℕ × Option Key}
    (hs : Scanned pit w n s) :
    (∃ s', scan_window_cursors pit size w n s = .inl s' ∧ Scanned pit w n s' ∧
      pit.hits.length - s'.2.1 < pit.hits.length - s.2.1) ∨
    ∃ cursors, scan_window_cursors pit size w n s = .inr cursors ∧
      cursors = cuts pit w n pit.hits.length := by
  obtain ⟨cursors, seen, search_after⟩ := s
  obtain ⟨hseen, rfl, rfl⟩ := hs
  have hlen : (cuts pit w n seen).length = min n (seen / w + 1) := by simp [cuts]
  by_cases hmore : (cuts pit w n seen).length < n
  · by_cases hempty : pit.search (pit.cursor seen) size = []
    · have hend := (pit.search_eq_nil_iff hsize).mp hempty
      obtain rfl : seen = pit.hits.length := Nat.le_antisymm hseen hend
      exact .inr ⟨cuts pit w n pit.hits.length, by simp [scan_window_cursors, hmore, hempty], rfl⟩
    · have hpage := pit.length_search seen size
      have hpos := List.length_pos_iff.mpr hempty
      have hfold := note_page (w := w) (n := n) (pit.search (pit.cursor seen) size).length
        (show seen + (pit.search (pit.cursor seen) size).length ≤ pit.hits.length by omega)
      rw [pit.take_length_search] at hfold
      refine .inl ⟨(cuts pit w n (seen + (pit.search (pit.cursor seen) size).length),
        seen + (pit.search (pit.cursor seen) size).length,
        pit.cursor (seen + (pit.search (pit.cursor seen) size).length)), ?_, ⟨?_, rfl, rfl⟩, ?_⟩
      · simp [scan_window_cursors, hmore, hempty, hfold]
      · omega
      · show pit.hits.length - (seen + _) < pit.hits.length - seen
        omega
  · refine .inr ⟨cuts pit w n seen, by simp [scan_window_cursors, hmore], ?_⟩
    have hle : seen / w ≤ pit.hits.length / w := Nat.div_le_div_right hseen
    have hfull : min n (seen / w + 1) = min n (pit.hits.length / w + 1) := by omega
    rw [cuts, cuts, hfull]

theorem scan_returns (hsize : 1 ≤ size) (hn : 1 ≤ n) :
    Returns (scan_window_cursors pit size w n) ([none], 0, none)
      (cuts pit w n pit.hits.length) := by
  have hstart : Scanned pit w n ([none], 0, none) := by
    refine ⟨Nat.zero_le _, ?_, rfl⟩
    have hone : min n (0 / w + 1) = 1 := by
      rw [Nat.zero_div]
      omega
    rw [cuts, hone]
    simp
  obtain ⟨cursors, hreturns, rfl⟩ := returns_of_variant
    (fun s : List (Option Key) × ℕ × Option Key => pit.hits.length - s.2.1)
      (fun s hs => scan_step hsize hs) hstart
  exact hreturns

end Scan

section Sizes

variable {settings : Settings} {count : ℕ}

-- `min(ceil(count / docs_per_job), max_slices)`, of the quotient itself.
def expected_jobs (settings : Settings) (count : ℕ) : ℕ :=
  min (count ⌈/⌉ settings.docs_per_job) settings.max_slices

-- The same of the quotient as a float has it.
def rounded_jobs (settings : Settings) (count : ℕ) : ℕ :=
  min (ceilTrueDiv count settings.docs_per_job) settings.max_slices

-- Below 2 ^ 53 documents the rounding of the quotients changes nothing.
theorem num_windows_eq (hdocs : 1 ≤ settings.docs_per_job) (hsmall : count < 2 ^ 53) :
    num_windows settings count = expected_jobs settings count := by
  rw [num_windows, expected_jobs, ceilTrueDiv_eq hsmall hdocs, Nat.ceilDiv_eq_add_pred_div]

theorem window_size_eq (hdocs : 1 ≤ settings.docs_per_job) (hsmall : count < 2 ^ 53)
    (hpos : 0 < expected_jobs settings count) :
      window_size settings count = count ⌈/⌉ expected_jobs settings count := by
  rw [window_size, num_windows_eq hdocs hsmall, ceilTrueDiv_eq hsmall hpos,
    Nat.ceilDiv_eq_add_pred_div]

end Sizes

section Plan

variable {settings : Settings} {count : ℕ}

-- The windows that the scan finds read the snapshot as far as they reach.
theorem windows_read (pit : Listing Doc Key) (w n : ℕ) :
    (List.range (min n (pit.hits.length / w + 1))).flatMap
    (fun k => (pit.hits.drop (k * w)).take w) =
      pit.hits.take (n * w) := by
  rw [List.flatMap_def, flatten_slices]
  rcases Nat.eq_zero_or_pos w with rfl | hw
  · simp
  · by_cases hn : n ≤ pit.hits.length / w + 1
    · rw [Nat.min_eq_left hn]
    · -- the scan ran out of documents: the last window ends behind them
      have hreach : pit.hits.length ≤ (pit.hits.length / w + 1) * w := by
        have hlt := Nat.lt_div_mul_add (a := pit.hits.length) hw
        rw [Nat.succ_mul]
        omega
      have hmore : (pit.hits.length / w + 1) * w ≤ n * w := Nat.mul_le_mul_right w (by omega)
      rw [Nat.min_eq_right (by omega), List.take_of_length_le hreach,
        List.take_of_length_le (hreach.trans hmore)]

theorem plans_unique {Window : Type} {windows : List (Option Key) → List Window}
    {plan plan' : List (Planned Window)}
    (h : Plans pit settings count windows plan) (h' : Plans pit settings count windows plan') :
      plan = plan' := by
  unfold Plans at h h'
  by_cases hcount : count = 0
  · rw [if_pos hcount] at h h'
    rw [h, h']
  · rw [if_neg hcount] at h h'
    by_cases hn : num_windows settings count ≤ 1
    · rw [if_pos hn] at h h'
      rw [h, h']
    · rw [if_neg hn] at h h'
      obtain ⟨cursors, hcursors, rfl⟩ := h
      obtain ⟨cursors', hcursors', rfl⟩ := h'
      rw [hcursors.unique hcursors']

theorem count_ne_zero (hplan : 1 < num_windows settings count) : count ≠ 0 := by
  intro h
  rw [h] at hplan
  simp [num_windows] at hplan

-- Where windows are planned, the scan finds their cursors.
theorem plans_cuts {Window : Type} (pit : Listing Doc Key)
    (windows : List (Option Key) → List Window)
    (hsize : 1 ≤ settings.size) (hplan : 1 < num_windows settings count) :
    Plans pit settings count windows
      ((windows (cuts pit (window_size settings count) (num_windows settings count)
        pit.hits.length)).map .narrowed) := by
  rw [Plans, if_neg (count_ne_zero hplan), if_neg (Nat.not_le.mpr hplan)]
  exact ⟨_, scan_returns hsize (by omega), rfl⟩

theorem fetches_unique (job : Planned (Window Key)) (records records' : List Doc)
    (h : Fetches pit settings job records) (h' : Fetches pit settings job records') :
      records = records' := by
  cases job with
  | self => exact Returns.unique h h'
  | narrowed window => exact Returns.unique h h'

theorem delivers_windows (pit : Listing Doc Key) (hsize : 1 ≤ settings.size)
    (hplan : 2 ≤ num_windows settings count) :
    ∃ plan, Splits pit settings count plan ∧ Delivers (Fetches pit settings) plan
      (pit.hits.take (num_windows settings count * window_size settings count)) := by
  refine ⟨_, plans_cuts pit _ hsize hplan, ?_⟩
  rw [cuts, List.map_map, List.map_map, ← windows_read]
  exact delivers_map fun k _ => fetch_window_returns hsize (k * window_size settings count)
    (window_size settings count)

theorem partition_iff (pit : Listing Doc Key) (hsize : 1 ≤ settings.size)
    (hplan : 2 ≤ num_windows settings count) :
    (∃ plan, Splits pit settings count plan ∧ Delivers (Fetches pit settings) plan pit.hits) ↔
      pit.hits.length ≤ num_windows settings count * window_size settings count := by
  obtain ⟨plan, hsplits, hread⟩ := delivers_windows pit hsize hplan
  rw [← take_eq_self_iff]
  constructor
  · rintro ⟨plan', hsplits', hall⟩
    rw [plans_unique hsplits' hsplits] at hall
    exact hread.unique fetches_unique hall
  · intro hreach
    rw [hreach] at hread
    exact ⟨plan, hsplits, hread⟩

-- Whatever the count was, the windows read the front of the snapshot, so far as they reach: to the
-- last of the counted documents, and up to the rounding of the window size beyond it.
theorem windows_partition_iff (pit : Listing Doc Key) (hsize : 1 ≤ settings.size)
    (hdocs : 1 ≤ settings.docs_per_job) (hplan : 2 ≤ rounded_jobs settings count) :
    ((∃ plan, Splits pit settings count plan ∧ Delivers (Fetches pit settings) plan pit.hits) ↔
      pit.hits.length ≤ rounded_jobs settings count * ceilTrueDiv count
        (rounded_jobs settings count)) ∧
    (count < 2 ^ 53 →
      ((∃ plan, Splits pit settings count plan ∧ Delivers (Fetches pit settings) plan pit.hits) ↔
        pit.hits.length ≤ expected_jobs settings count * (count ⌈/⌉ expected_jobs settings count)) ∧
      (pit.hits.length ≤ count →
        ∃ plan, Splits pit settings count plan ∧
          Delivers (Fetches pit settings) plan pit.hits)) := by
  have hiff := partition_iff pit hsize hplan
  refine ⟨hiff, fun hsmall => ?_⟩
  have hwindows := num_windows_eq hdocs hsmall
  have hpos : 0 < expected_jobs settings count := by
    rw [← hwindows]
    exact Nat.lt_of_lt_of_le Nat.two_pos hplan
  rw [hwindows, window_size_eq hdocs hsmall hpos] at hiff
  exact ⟨hiff, fun hcounted => hiff.mpr (hcounted.trans (le_smul_ceilDiv hpos))⟩

-- Eleven documents were counted, four to a job: ten of them and twelve are read, and
-- thirteen are not.
theorem windows_partition_eleven :
    (∃ plan, Splits (Listing.range 10) ⟨3, 4, 1024⟩ 11 plan ∧
      Delivers (Fetches (Listing.range 10) ⟨3, 4, 1024⟩) plan (Listing.range 10).hits) ∧
    (∃ plan, Splits (Listing.range 12) ⟨3, 4, 1024⟩ 11 plan ∧
      Delivers (Fetches (Listing.range 12) ⟨3, 4, 1024⟩) plan (Listing.range 12).hits) ∧
    ¬∃ plan, Splits (Listing.range 13) ⟨3, 4, 1024⟩ 11 plan ∧
      Delivers (Fetches (Listing.range 13) ⟨3, 4, 1024⟩) plan (Listing.range 13).hits := by
  have hreach : expected_jobs ⟨3, 4, 1024⟩ 11 * (11 ⌈/⌉ expected_jobs ⟨3, 4, 1024⟩ 11) = 12 := by
    simp [expected_jobs, Nat.ceilDiv_eq_add_pred_div]
  refine ⟨?_, ?_, fun h => ?_⟩
  · exact ((windows_partition_iff (Listing.range 10) (by decide) (by decide) (by decide)).2
      (by decide)).2 (by decide)
  · refine ((windows_partition_iff (Listing.range 12) (by decide) (by decide) (by decide)).2
      (by decide)).1.mpr ?_
    rw [hreach]
    decide
  · have hlen := ((windows_partition_iff (Listing.range 13) (by decide) (by decide) (by decide)).2
      (by decide)).1.mp h
    rw [hreach] at hlen
    exact absurd hlen (by decide)

-- Ten documents were counted, and an eleventh is in the snapshot: it is in no window.
theorem windows_lose_tail :
    num_windows ⟨3, 5, 1024⟩ 10 = 2 ∧
    ¬∃ plan, Splits (Listing.range 11) ⟨3, 5, 1024⟩ 10 plan ∧
      Delivers (Fetches (Listing.range 11) ⟨3, 5, 1024⟩) plan (Listing.range 11).hits := by
  refine ⟨by decide, ?_⟩
  rintro ⟨plan, hsplits, hall⟩
  have hplan : 2 ≤ num_windows ⟨3, 5, 1024⟩ 10 := by decide
  obtain ⟨plan', hsplits', hread⟩ := delivers_windows (Listing.range 11) (by decide) hplan
  rw [plans_unique hsplits hsplits'] at hall
  have htail := hall.unique fetches_unique hread
  exact absurd htail (by decide)

end Plan

end Reflowfy.ElasticSource
