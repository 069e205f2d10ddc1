import Reflowfy.AsyncUtils.Exact
import Reflowfy.RecordTransformation
import Mathlib.Algebra.BigOperators.Group.List.Basic
import Mathlib.Algebra.Ring.Nat

namespace Reflowfy.PerRecord

open AsyncUtils TransformationRunner Interleaving

def Applied.kept : Applied → Option Value
  | value .None => none
  | value record => some record
  | Skipped _ => none

def Applied.skipped : Applied → Bool
  | value _ => false
  | Skipped _ => true

def times (reasons : Reasons) : ℕ := (reasons.map (·.2)).sum

section Reasons

variable {reasons : Reasons}

@[simp] theorem times_add_times (reasons : Reasons) (reason : String) (n : ℕ) :
    times (add_times reasons reason n) = times reasons + n := by
  induction reasons with
  | nil => simp [add_times, times]
  | cons entry reasons ih =>
      simp only [times] at ih
      simp only [add_times]
      split
      · simp only [times, List.map_cons, List.sum_cons]
        omega
      · simp only [times, List.map_cons, List.sum_cons, ih]
        omega

theorem keys_add_times (reasons : Reasons) (reason : String) (n : ℕ) :
    (add_times reasons reason n).map (·.1) =
      if reason ∈ reasons.map (·.1) then reasons.map (·.1) else reasons.map (·.1) ++ [reason] := by
  induction reasons with
  | nil => rfl
  | cons entry reasons ih =>
      simp only [add_times]
      by_cases hkey : entry.1 = reason
      · simp [hkey]
      · have hkey' : ¬reason = entry.1 := fun h => hkey h.symm
        simp only [hkey, if_false, List.map_cons, ih, List.mem_cons, hkey', false_or]
        split <;> simp

-- At most `MAX_SKIP_REASONS` reasons of their own, and the one for the others.
structure Bounded (reasons : Reasons) : Prop where
  nodup : (reasons.map (·.1)).Nodup
  length_le : reasons.length ≤ MAX_SKIP_REASONS + 1
  full : MAX_SKIP_REASONS < reasons.length → OTHER_SKIP_REASON ∈ reasons.map (·.1)

theorem bounded_nil : Bounded [] := ⟨List.nodup_nil, Nat.zero_le _, fun h => by cases h⟩

theorem Bounded.add_times (h : Bounded reasons) {reason : String} (n : ℕ)
    (hroom : reason ∈ reasons.map (·.1) ∨ reasons.length < MAX_SKIP_REASONS ∨
      reason = OTHER_SKIP_REASON) :
    Bounded (add_times reasons reason n) := by
  have hkeys := keys_add_times reasons reason n
  have hlen := congrArg List.length hkeys
  by_cases hold : reason ∈ reasons.map (·.1)
  · rw [if_pos hold] at hkeys hlen
    simp only [List.length_map] at hlen
    exact ⟨hkeys ▸ h.nodup, hlen ▸ h.length_le, fun hfull => hkeys ▸ h.full (hlen ▸ hfull)⟩
  · rw [if_neg hold] at hkeys hlen
    simp only [List.length_map, List.length_append, List.length_singleton] at hlen
    have hlt : reasons.length < MAX_SKIP_REASONS + 1 := by
      rcases hroom with hroom | hroom | hroom
      · exact absurd hroom hold
      · omega
      · have hnot : ¬MAX_SKIP_REASONS < reasons.length := fun hfull => hold (hroom ▸ h.full hfull)
        omega
    refine ⟨?_, by omega, ?_⟩
    · rw [hkeys]
      exact List.nodup_append.mpr ⟨h.nodup, by simp, fun a ha b hb hab =>
        hold (by rw [← List.mem_singleton.mp hb, ← hab]; exact ha)⟩
    · intro hfull
      rw [hkeys]
      rcases hroom with hroom | hroom | hroom
      · exact absurd hroom hold
      · omega
      · rw [hroom]
        simp

theorem times_count_skip_reason (reasons : Reasons) (reason : String) (n : ℕ) :
    times (count_skip_reason reasons reason n) = times reasons + n := by
  unfold count_skip_reason
  simp only
  split
  · exact times_add_times ..
  · exact times_add_times ..

theorem Bounded.count_skip_reason (h : Bounded reasons) (reason : String) (n : ℕ) :
    Bounded (count_skip_reason reasons reason n) := by
  unfold PerRecord.count_skip_reason
  simp only
  split
  · exact h.add_times n (.inr (.inr rfl))
  · rename_i hnot
    apply h.add_times n
    by_cases hold : shorten reason ∈ reasons.map (·.1)
    · exact .inl hold
    · refine .inr (.inl ?_)
      have hle : ¬MAX_SKIP_REASONS ≤ reasons.length := fun hle => hnot ⟨hold, hle⟩
      omega

-- The loop over the results of the calls, from what it has kept before.
theorem foldl_keep (results : List Applied) (acc : RecordResults) (h : Bounded acc.skip_reasons) :
    (results.map some |>.foldl keep acc).records = acc.records ++ results.filterMap Applied.kept ∧
      times (results.map some |>.foldl keep acc).skip_reasons = times acc.skip_reasons +
        results.countP Applied.skipped ∧
      Bounded (results.map some |>.foldl keep acc).skip_reasons := by
  induction results generalizing acc with
  | nil => simp [h]
  | cons result results ih =>
      rw [List.map_cons, List.foldl_cons]
      cases result with
      | Skipped reason =>
          obtain ⟨hrecords, htimes, hbounded⟩ :=
            ih (keep acc (some (.Skipped reason))) (h.count_skip_reason reason 1)
          refine ⟨hrecords, ?_, hbounded⟩
          rw [htimes]
          simp only [keep, times_count_skip_reason, List.countP_cons, Applied.skipped, if_true]
          omega
      | value record =>
          have hreasons : (keep acc (some (.value record))).skip_reasons = acc.skip_reasons := by
            cases record <;> rfl
          have hkept : (keep acc (some (.value record))).records =
              acc.records ++ (Applied.value record).kept.toList := by
            cases record with
            | None => exact (List.append_nil _).symm
            | _ => rfl
          obtain ⟨hrecords, htimes, hbounded⟩ := ih (keep acc (some (.value record))) (hreasons ▸ h)
          refine ⟨?_, ?_, hbounded⟩
          · rw [hrecords, hkept, List.append_assoc, ← filterMap_cons_toList]
          · rw [htimes, hreasons]
            simp [Applied.skipped]

end Reasons

section Runs

variable {records : List Value} {concurrency : ℕ} {timeout : Option String} {s : RecordPool}

theorem apply_all_exact (hconcurrency : 1 ≤ concurrency)
    (hr : Reach Pool.step (· = apply_all records concurrency) (AppliesOne timeout) s) :
    s.items = records ∧ s.Exact concurrency := by
  apply Pool.exact_of_reach .gathering _ (.inl rfl) ?_ (fun _ => Nat.le_refl _) hr
  intro hne
  have hlen := List.length_pos_iff.mpr hne
  omega

-- What a call has left is what `_apply_one` gave back for its record.
theorem applied_of_finish
    (hr : Reach Pool.step (· = apply_all records concurrency) (AppliesOne timeout) s) :
    ∀ i result, .finish i result ∈ s.log →
      ∃ record awaited, s.items[i]? = some record ∧
        apply_one timeout i record awaited = .ok result := by
  induction hr with
  | init hi =>
      subst hi
      intro i result hmem
      cases hmem
  | step _ hok hstep ih =>
      intro i result hmem
      have hsteps := Pool.steps_of_step hstep
      rw [(Pool.frame hsteps).1]
      rcases Pool.finish_of_steps hsteps hmem with hold | ⟨w, cancelling, rfl, hw⟩
      · exact ih i result hold
      · obtain ⟨index, record, awaited, hw', hrecord, happlied⟩ := hok
        rw [hw] at hw'
        cases hw'
        exact ⟨record, awaited, hrecord, happlied⟩

-- Some run of the pool has called `_apply_one` for every record, with these results.
def Called (timeout : Option String) (records : List Value) (concurrency : ℕ)
    (results : List Applied) : Prop :=
  results.length = records.length ∧
    ∃ s, Reach Pool.step (· = apply_all records concurrency) (AppliesOne timeout) s ∧
      s.caller = .returned ∧
      starts s.log = records.zipIdx ∧ ∀ i result, .finish i result ∈ s.log ↔
        results[i]? = some result

theorem called_of_returned (hconcurrency : 1 ≤ concurrency)
    (hr : Reach Pool.step (· = apply_all records concurrency) (AppliesOne timeout) s)
    (hback : s.caller = .returned) :
    ∃ results, s.results = results.map some ∧ Called timeout records concurrency results := by
  obtain ⟨hitems, hexact⟩ := apply_all_exact hconcurrency hr
  obtain ⟨hstarts, _, results, hresults, hlen, hfinish⟩ := hexact.returned hback
  rw [hitems] at hstarts hlen
  exact ⟨results, hresults, hlen, s, hr, hback, hstarts, hfinish⟩

theorem called_nil (timeout : Option String) (concurrency : ℕ) :
    Called timeout [] concurrency [] := by
  have hinit : Reach Pool.step (· = apply_all [] concurrency) (AppliesOne timeout)
    (apply_all [] concurrency) := .init rfl
  have hcomplete : (apply_all [] concurrency).step .complete =
      some { apply_all [] concurrency with caller := .returned } := by
    simp [Pool.step, apply_all, Pool.start]
  exact ⟨rfl, _, hinit.step (e := .complete) trivial hcomplete, rfl, rfl,
    by simp [apply_all, Pool.start]⟩

theorem called_of_applyRecords (hconcurrency : 1 ≤ concurrency) {t : RecordTransformation}
    {out : RecordResults}
    (ht : t.effective_concurrency = .ok concurrency) (h : t.ApplyRecords records (.ok out)) :
    ∃ results, Called t.timeout records concurrency results ∧
      out = (results.map some).foldl keep ⟨[], []⟩ := by
  unfold RecordTransformation.ApplyRecords at h
  by_cases hempty : records.isEmpty
  · rw [if_pos hempty] at h
    cases List.isEmpty_iff.mp hempty
    cases h
    exact ⟨[], called_nil t.timeout concurrency, rfl⟩
  · rw [if_neg hempty, ht] at h
    cases hsetup : t.setup with
    | error e =>
        rw [hsetup] at h
        cases h
    | ok =>
        rw [hsetup] at h
        obtain ⟨out', ⟨s, hr, hout'⟩, hout⟩ := h
        cases hteardown : t.teardown with
        | error e =>
            rw [hteardown] at hout
            cases hout
        | ok =>
            rw [hteardown] at hout
            rcases hout' with ⟨hback, rfl⟩ | ⟨e, _, rfl⟩
            · obtain ⟨results, hresults, hcalled⟩ := called_of_returned hconcurrency hr hback
              cases hout
              exact ⟨results, hcalled, by rw [hresults]⟩
            · cases hout

end Runs

-- Both pools are exact under every schedule, and a step of its own keeps what its calls leave.
theorem worker_pools_exact {α ρ ε κ : Type} (concurrency : ℕ) (hconcurrency : 1 ≤ concurrency) :
    (∀ (items : List α) (Ok : Pool α ρ ε κ → Action ρ ε κ → Prop) (s : Pool α ρ ε κ),
      Reach Pool.step (· = for_each_concurrently items concurrency) Ok s → s.items = items ∧
        s.Exact concurrency) ∧
    (∀ (records : List Value) (timeout : Option String) (s : RecordPool),
      Reach Pool.step (· = apply_all records concurrency) (AppliesOne timeout) s →
        s.items = records ∧ s.Exact concurrency ∧
          ∀ i result, .finish i result ∈ s.log →
            ∃ record awaited, records[i]? = some record ∧
              apply_one timeout i record awaited = .ok result) ∧
    ∀ (t : RecordTransformation) (records : List Value) (out : RecordResults),
      t.effective_concurrency = .ok concurrency → t.ApplyRecords records (.ok out) →
        ∃ results, Called t.timeout records concurrency results ∧
          out.records = results.filterMap Applied.kept ∧
          times out.skip_reasons = results.countP Applied.skipped ∧ out.skip_reasons.length ≤ 21 ∧
          (out.skip_reasons.map (·.1)).Nodup := by
  refine ⟨?_, ?_, ?_⟩
  · intro items Ok s hr
    exact for_each_concurrently_exact hconcurrency hr
  · intro records timeout s hr
    obtain ⟨hitems, hexact⟩ := apply_all_exact hconcurrency hr
    refine ⟨hitems, hexact, ?_⟩
    rw [← hitems]
    exact applied_of_finish hr
  · intro t records out ht h
    obtain ⟨results, hcalled, rfl⟩ := called_of_applyRecords hconcurrency ht h
    obtain ⟨hrecords, htimes, hbounded⟩ := foldl_keep results ⟨[], []⟩ bounded_nil
    refine ⟨results, hcalled, ?_, ?_, hbounded.length_le, hbounded.nodup⟩
    · rw [hrecords, List.nil_append]
    · rw [htimes]
      exact Nat.zero_add _

-- Two workers and three records: the second call ends first, with a SkipRecord, and its
-- worker takes the third record while the first call still runs.
theorem skipping_pool_run :
    ∃ s : RecordPool,
      Reach Pool.step (· = apply_all [.str "a", .str "b", .str "c"] 2) (AppliesOne none) s ∧
        s.caller = .returned ∧
        s.results = [some (.value (.str "a")), some (.Skipped "no email"),
          some (.value (.str "c"))] ∧
        s.log = [.start 0 (.str "a"), .start 1 (.str "b"), .finish 1 (.Skipped "no email"),
          .start 2 (.str "c"),
          .finish 2 (.value (.str "c")), .finish 0 (.value (.str "a"))] := by
  have hinit : Reach Pool.step (· = apply_all [.str "a", .str "b", .str "c"] 2) (AppliesOne none)
      (apply_all [.str "a", .str "b", .str "c"] 2) := .init rfl
  have hfirst := hinit.step (e := Action.resume 0) trivial rfl
  have hsecond := hfirst.step (e := Action.resume 1) trivial rfl
  have hskip := hsecond.step (e := Action.finish 1 (.Skipped "no email"))
    ⟨1, .str "b", .raised (.SkipRecord "no email" "no email"), rfl, rfl, rfl⟩ rfl
  have hthird := hskip.step (e := Action.finish 1 (.value (.str "c")))
    ⟨2, .str "c", .returned (.str "c"), rfl, rfl, rfl⟩ rfl
  have hlast := hthird.step (e := Action.finish 0 (.value (.str "a")))
    ⟨0, .str "a", .returned (.str "a"), rfl, rfl, rfl⟩ rfl
  exact ⟨_, hlast.step (e := Action.complete) trivial rfl, rfl, rfl, rfl⟩

theorem interleaved_loop_run :
    ∃ s : Pool String Unit String Unit,
      Reach Pool.step (· = for_each_concurrently ["a", "b", "c"] 2) (fun _ _ => True) s ∧
        s.caller = .returned ∧
        s.log = [.start 0 "a", .start 1 "b", .finish 1 (), .start 2 "c", .finish 0 (),
          .finish 2 ()] := by
  have hinit : Reach Pool.step
    (· = (for_each_concurrently ["a", "b", "c"] 2 : Pool String Unit String Unit))
      (fun _ _ => True) (for_each_concurrently ["a", "b", "c"] 2) := .init rfl
  have hfirst := hinit.step (e := .resume 0) trivial rfl
  have hsecond := hfirst.step (e := .resume 1) trivial rfl
  have hthird := hsecond.step (e := .finish 1 ()) trivial rfl
  have hnone := hthird.step (e := .finish 0 ()) trivial rfl
  have hlast := hnone.step (e := .finish 1 ()) trivial rfl
  exact ⟨_, hlast.step (e := .complete) trivial rfl, rfl, rfl⟩

theorem worker_pools_exact_interleaved :
    (∃ s : Pool String Unit String Unit,
      Reach Pool.step (· = for_each_concurrently ["a", "b", "c"] 2) (fun _ _ => True) s ∧
        s.caller = .returned ∧
        s.Exact 2) ∧
    (∃ s : RecordPool,
      Reach Pool.step (· = apply_all [.str "a", .str "b", .str "c"] 2) (AppliesOne none) s ∧
        s.caller = .returned ∧
        s.log = [.start 0 (.str "a"), .start 1 (.str "b"), .finish 1 (.Skipped "no email"),
          .start 2 (.str "c"),
          .finish 2 (.value (.str "c")), .finish 0 (.value (.str "a"))] ∧ s.Exact 2) ∧
    (⟨.ok 2, none, .ok (), .ok ()⟩ : RecordTransformation).ApplyRecords
    [.str "a", .str "b", .str "c"]
      (.ok ⟨[.str "a", .str "c"], [("no email", 1)]⟩) ∧
    ∃ results, Called none [.str "a", .str "b", .str "c"] 2 results ∧
      [.str "a", .str "c"] = results.filterMap Applied.kept ∧
      1 = results.countP Applied.skipped := by
  obtain ⟨s, hr, hback, hresults, hlog⟩ := skipping_pool_run
  obtain ⟨s', hr', hback', -⟩ := interleaved_loop_run
  have hexact := worker_pools_exact (α := String) (ρ := Unit) (ε := String) (κ := Unit) 2 (by omega)
  have hout : (⟨.ok 2, none, .ok (), .ok ()⟩ : RecordTransformation).ApplyRecords
    [.str "a", .str "b", .str "c"]
      (.ok ⟨[.str "a", .str "c"], [("no email", 1)]⟩) :=
    ⟨.ok s.results, ⟨s, hr, .inl ⟨hback, rfl⟩⟩, by rw [hresults]; rfl⟩
  obtain ⟨results, hcalled, hrecords, htimes, -⟩ := hexact.2.2 _ _ _ rfl hout
  exact ⟨⟨s', hr', hback', (hexact.1 _ _ s' hr').2⟩,
    ⟨s, hr, hback, hlog, (hexact.2.1 _ _ s hr).2.1⟩, hout, results,
    hcalled, hrecords, htimes⟩

-- Between the error of a call and the `cancel` another worker takes the next item.
theorem starts_after_error :
    ∃ s : Pool String Unit String Unit,
      Reach Pool.step (· = for_each_concurrently ["a", "b"] 2) (fun _ _ => True) s ∧
        s.caller = .raised "boom" ∧
        s.log = [.start 0 "a", .fail 0 "boom", .start 1 "b", .cancel, .give_up 1] := by
  have hinit : Reach Pool.step
    (· = (for_each_concurrently ["a", "b"] 2 : Pool String Unit String Unit))
      (fun _ _ => True) (for_each_concurrently ["a", "b"] 2) := .init rfl
  have hfirst := hinit.step (e := .resume 0) trivial rfl
  have hfail := hfirst.step (e := .fail 0 "boom") trivial rfl
  have hsecond := hfail.step (e := .resume 1) trivial rfl
  have hcancel := hsecond.step (e := .cancel 0) trivial rfl
  have hgiveup := hcancel.step (e := .give_up 1) trivial rfl
  have hjoin := hgiveup.step (e := .join) trivial rfl
  exact ⟨_, hjoin, rfl, rfl⟩

end Reflowfy.PerRecord
