import Reflowfy.Executor
import Reflowfy.Transformations.IterativeFold
import Reflowfy.Transformations.RecordPool

namespace Reflowfy

open Paging TransformationRunner PerRecord

namespace PerRecord

def Short (reasons : Reasons) : Prop := ∀ reason ∈ reasons.map (·.1), reason.length ≤
    MAX_SKIP_REASON_LENGTH

theorem length_shorten_le (reason : String) : (shorten reason).length ≤ MAX_SKIP_REASON_LENGTH := by
  unfold shorten
  simp only
  split
  · decide
  · rw [String.length_ofList, List.length_take]
    exact Nat.min_le_left _ _

theorem Short.add_times {reasons : Reasons} (h : Short reasons) {reason : String} (n : ℕ)
    (hreason : reason.length ≤ MAX_SKIP_REASON_LENGTH) : Short (add_times reasons reason n) := by
  intro other hother
  rw [keys_add_times] at hother
  split at hother
  · exact h other hother
  · rcases List.mem_append.mp hother with hold | hnew
    · exact h other hold
    · rwa [List.mem_singleton.mp hnew]

theorem Short.count_skip_reason {reasons : Reasons} (h : Short reasons) (reason : String) (n : ℕ) :
    Short (count_skip_reason reasons reason n) := by
  unfold PerRecord.count_skip_reason
  simp only
  split
  · exact h.add_times n (by decide)
  · exact h.add_times n (length_shorten_le reason)

-- Reasons as they are reported: their counts add up to what has been skipped.
structure Counts (reasons : Reasons) (skipped : ℕ) : Prop where
  total : times reasons = skipped
  bounded : Bounded reasons
  short : Short reasons

theorem counts_nil : Counts [] 0 := ⟨rfl, bounded_nil, fun _ h => by cases h⟩

theorem Counts.count_skip_reason {reasons : Reasons} {skipped : ℕ} (h : Counts reasons skipped)
    (reason : String) (n : ℕ) :
    Counts (count_skip_reason reasons reason n) (skipped + n) :=
  ⟨by rw [times_count_skip_reason,
    h.total], h.bounded.count_skip_reason reason n, h.short.count_skip_reason reason n⟩

theorem Counts.foldl {α : Type} {reasons : Reasons} {skipped : ℕ} (h : Counts reasons skipped)
    (entries : List α) (reason : α → String) (n : α → ℕ) :
    Counts (entries.foldl
      (fun reasons entry => PerRecord.count_skip_reason reasons (reason entry) (n entry)) reasons)
      (skipped + (entries.map n).sum) := by
  induction entries generalizing reasons skipped with
  | nil => exact h
  | cons entry entries ih =>
      rw [List.foldl_cons, List.map_cons, List.sum_cons, ← Nat.add_assoc]
      exact ih (h.count_skip_reason (reason entry) (n entry))

theorem Counts.foldl_one {α : Type} {reasons : Reasons} {skipped : ℕ} (h : Counts reasons skipped)
    (entries : List α) (reason : α → String) :
    Counts (entries.foldl
      (fun reasons entry => PerRecord.count_skip_reason reasons (reason entry) 1) reasons)
      (skipped + entries.length) := by
  have hones : (entries.map fun _ => 1).sum = entries.length := by
    rw [List.map_const', List.sum_replicate_nat, Nat.mul_one]
  exact hones ▸ h.foldl entries reason fun _ => 1

end PerRecord

namespace Executor

variable {Destination : Type} {delivered : Delivered Destination} {job : JobRecords Destination}
    {stats : JobStats}

section Counting

theorem count_counts (step : JobStep) (h : Counts stats.record_skip_reasons stats.records_skipped) :
    Counts (stats.count step).record_skip_reasons (stats.count step).records_skipped ∧
      (stats.count step).records_skipped = stats.records_skipped + step.records_skipped ∧
      (stats.count step).records_input = stats.records_input ∧
      (stats.count step).records_deduplicated = stats.records_deduplicated := by
  unfold JobStats.count
  by_cases hnone : step.records_skipped = 0
  · simp [hnone, h]
  · rw [if_neg hnone]
    exact ⟨h.foldl step.skip_reasons (·.1) (·.2), rfl, rfl, rfl⟩

-- The loop over the applied steps.
theorem foldl_count_counts (stats : JobStats) (applied : List JobStep)
    (h : Counts stats.record_skip_reasons stats.records_skipped) :
    Counts (applied.foldl JobStats.count stats).record_skip_reasons
      (applied.foldl JobStats.count stats).records_skipped ∧
      (applied.foldl JobStats.count stats).records_skipped =
        stats.records_skipped + (applied.map JobStep.records_skipped).sum ∧
      (applied.foldl JobStats.count stats).records_input = stats.records_input ∧
      (applied.foldl JobStats.count stats).records_deduplicated = stats.records_deduplicated := by
  induction applied generalizing stats with
  | nil => exact ⟨h, rfl, rfl, rfl⟩
  | cons step applied ih =>
      obtain ⟨hcounts, hskipped, hinput, hdeduplicated⟩ := count_counts step h
      obtain ⟨hcounts', hskipped', hinput', hdeduplicated'⟩ := ih _ hcounts
      refine ⟨hcounts', ?_, hinput'.trans hinput, hdeduplicated'.trans hdeduplicated⟩
      rw [List.foldl_cons, hskipped', hskipped, List.map_cons, List.sum_cons, Nat.add_assoc]

end Counting

section Sending

-- A delivery that ran this job, with what it has counted of it.
structure Ran (job : JobRecords Destination) (stats : JobStats) (out : Run Destination) : Prop where
  ran : out.job = some job
  reported : out.reported = true
  input : out.stats.records_input = stats.records_input
  skipped : out.stats.records_skipped = stats.records_skipped
  reasons : out.stats.record_skip_reasons = stats.record_skip_reasons
  success : out.returned = out.stats.success
  sends : out.sends = [] ∨ ∃ destination sent, out.sends = [(destination, sent)] ∧
    sent.Sublist job.transformed_records ∧
    sent.length = out.stats.records_output
  output : out.returned = true → out.stats.records_output = (out.sends.map (·.2.length)).sum ∧
    job.transformed_records.length = out.stats.records_output + out.stats.records_deduplicated

theorem ran_failed (e : Thrown) : Ran job stats (failed delivered stats [] (some job) e) where
  ran := rfl
  reported := rfl
  input := rfl
  skipped := rfl
  reasons := rfl
  success := rfl
  sends := .inl rfl
  output h := by cases h

theorem ran_deliver (stats : JobStats) (destination : Destination) {sent : List Value}
    (hsent : sent.Sublist job.transformed_records) (houtput : stats.records_output = sent.length)
    (hdeduplicated : job.transformed_records.length = stats.records_output +
      stats.records_deduplicated) :
    Ran job stats (deliver delivered job stats destination sent) := by
  unfold deliver
  split
  · exact ran_failed _
  · exact ⟨rfl, rfl, rfl, rfl, rfl, rfl, .inl rfl, fun h => by cases h⟩
  · split
    · exact ⟨rfl, rfl, rfl, rfl, rfl, rfl, .inr ⟨destination, sent, rfl, hsent, houtput.symm⟩,
        fun h => by cases h⟩
    · refine ⟨rfl, rfl, rfl, rfl, rfl, rfl, .inr ⟨destination, sent, rfl, hsent, houtput.symm⟩,
        fun _ => ⟨?_, hdeduplicated⟩⟩
      simpa using houtput

theorem Ran.of_eq {stats' : JobStats} {out : Run Destination} (h : Ran job stats' out)
    (hinput : stats'.records_input = stats.records_input)
    (hskipped : stats'.records_skipped = stats.records_skipped)
    (hreasons : stats'.record_skip_reasons = stats.record_skip_reasons) : Ran job stats out :=
  ⟨h.ran, h.reported, h.input.trans hinput, h.skipped.trans hskipped, h.reasons.trans hreasons,
    h.success, h.sends, h.output⟩

theorem keep_records_sublist (won seen : List RecordHash) (records : List Value)
    (hashes : List RecordHash) :
    (keep_records won seen (records.zip hashes)).Sublist records := by
  induction records generalizing hashes seen with
  | nil => exact List.Sublist.refl _
  | cons record records ih =>
      cases hashes with
      | nil => exact List.nil_sublist _
      | cons h hashes =>
          rw [List.zip_cons_cons, keep_records]
          split
          · exact (ih (h :: seen) hashes).cons_cons record
          · exact (ih seen hashes).cons record

theorem claim_records_sublist {transformed_records kept : List Value}
    (h : claim_records delivered transformed_records = .ok kept) :
      kept.Sublist transformed_records := by
  unfold claim_records at h
  split at h
  · cases h
    exact List.nil_sublist _
  · cases hhashes : delivered.hashes transformed_records with
    | error e => simp [hhashes, bind, Except.bind] at h
    | ok hashes =>
        cases hwon : delivered.claim_record_hashes hashes with
        | error e => simp [hhashes, hwon, bind, Except.bind] at h
        | ok won =>
            simp only [hhashes, hwon, bind, Except.bind, pure, Except.pure, Except.ok.injEq] at h
            exact h ▸ keep_records_sublist won [] transformed_records hashes

theorem ran_send_kept (pipeline : JobPipeline Destination) (params : Params) {kept : List Value}
    (hkept : kept.Sublist job.transformed_records) :
      Ran job stats (send_kept delivered job pipeline stats params kept) := by
  have hle := hkept.length_le
  unfold send_kept
  simp only
  split
  · rename_i hnone
    refine ⟨rfl, rfl, rfl, rfl, rfl, rfl, .inl rfl, fun _ => ⟨rfl, ?_⟩⟩
    simp [hnone]
  · split
    · refine (ran_deliver { stats with
        records_deduplicated := job.transformed_records.length - kept.length,
          records_output := kept.length }
        job.destination hkept rfl ?_).of_eq rfl rfl rfl
      show job.transformed_records.length = kept.length +
        (job.transformed_records.length - kept.length)
      omega
    · split
      · exact (ran_failed _).of_eq rfl rfl rfl
      · rename_i destination _ _
        refine (ran_deliver { stats with
          records_deduplicated := job.transformed_records.length - kept.length,
            records_output := kept.length }
          destination hkept rfl ?_).of_eq rfl rfl rfl
        show job.transformed_records.length = kept.length +
          (job.transformed_records.length - kept.length)
        omega

theorem ran_records (delivered : Delivered Destination) (job : JobRecords Destination)
    (pipeline : JobPipeline Destination) (params : Params) :
    Ran job (job.applied.foldl JobStats.count
      { JobStats.start with records_input := job.records.length })
      (run_records delivered job pipeline params) := by
  unfold run_records
  simp only
  split
  · split
    · exact (ran_failed _).of_eq rfl rfl rfl
    · rename_i kept hkept
      exact (ran_send_kept pipeline params (claim_records_sublist hkept)).of_eq rfl rfl rfl
  · have hdeduplicated :=
      (foldl_count_counts { JobStats.start with records_input := job.records.length }
      job.applied counts_nil).2.2.2
    refine (ran_deliver _ job.destination (List.Sublist.refl _) rfl ?_).of_eq rfl rfl rfl
    exact (congrArg (job.transformed_records.length + ·) hdeduplicated).symm

end Sending

section Steps

variable {records_in records_out : ℕ} {steps : List JobStep}

-- The records go from one step to the next.
def Chained (records_in : ℕ) : List JobStep → ℕ → Prop
  | [], records_out => records_in = records_out
  | step :: steps, records_out => step.records_in = records_in ∧
      Chained step.records_out steps records_out

-- What a step neither lets through nor skips has gone without a reason.
def Sound (step : JobStep) : Prop := step.records_out + step.records_skipped ≤ step.records_in

def Exact (step : JobStep) : Prop := step.records_out + step.records_skipped = step.records_in

theorem Chained.append {mid : ℕ} {steps' : List JobStep} (h : Chained records_in steps mid)
    (h' : Chained mid steps' records_out) : Chained records_in (steps ++ steps') records_out := by
  induction steps generalizing records_in with
  | nil => exact Eq.subst (motive := fun n => Chained n steps' records_out) (Eq.symm h) h'
  | cons step steps ih => exact ⟨h.1, ih h.2⟩

theorem Chained.delta (h : Chained records_in steps records_out) :
    (records_in : Int) + (steps.map JobStep.delta).sum = records_out := by
  induction steps generalizing records_in with
  | nil =>
      obtain rfl : records_in = records_out := h
      exact Int.add_zero _
  | cons step steps ih =>
      have hrest := ih h.2
      rw [List.map_cons, List.sum_cons, JobStep.delta, h.1]
      omega

theorem Chained.skipped_le (h : Chained records_in steps records_out)
    (hsteps : ∀ step ∈ steps, Sound step) :
    records_out + (steps.map JobStep.records_skipped).sum ≤ records_in := by
  induction steps generalizing records_in with
  | nil => exact Nat.le_of_eq h.symm
  | cons step steps ih =>
      obtain ⟨hstep, hrest⟩ := List.forall_mem_cons.mp hsteps
      have hsum := ih h.2 hrest
      have hin := h.1
      rw [List.map_cons, List.sum_cons]
      unfold Sound at hstep
      omega

theorem Chained.skipped_eq (h : Chained records_in steps records_out)
    (hsteps : ∀ step ∈ steps, Exact step) :
    records_out + (steps.map JobStep.records_skipped).sum = records_in := by
  induction steps generalizing records_in with
  | nil => exact h.symm
  | cons step steps ih =>
      obtain ⟨hstep, hrest⟩ := List.forall_mem_cons.mp hsteps
      have hsum := ih h.2 hrest
      have hin := h.1
      rw [List.map_cons, List.sum_cons]
      unfold Exact at hstep
      omega

end Steps

section Check

open RecordValidation

variable {record_type : RecordType} {records : List Value}

-- pydantic's errors are about records of the list.
def InRange (record_type : RecordType) : Prop := ∀ records, ∀ error ∈ record_type.errors records,
    error.index < records.length

theorem foldl_setdefault (errors : List RecordError) (invalid : Invalid)
    (hnodup : (invalid.map (·.1)).Nodup) :
    ((errors.foldl setdefault invalid).map (·.1)).Nodup ∧
      ∀ i ∈ (errors.foldl setdefault invalid).map (·.1), i ∈ invalid.map (·.1) ∨
        i ∈ errors.map (·.index) := by
  induction errors generalizing invalid with
  | nil => exact ⟨hnodup, fun i hi => .inl hi⟩
  | cons error errors ih =>
      have hstep : ((setdefault invalid error).map (·.1)).Nodup ∧
          ∀ i ∈ (setdefault invalid error).map (·.1), i ∈ invalid.map (·.1) ∨ i = error.index := by
        unfold setdefault
        split
        · exact ⟨hnodup, fun i hi => .inl hi⟩
        · rename_i hnew
          rw [List.map_append]
          refine ⟨List.nodup_append.mpr
            ⟨hnodup, by simp, fun a ha b hb hab => hnew ?_⟩, fun i hi => ?_⟩
          · have hindex : b = error.index := by simpa using hb
            rwa [← hindex, ← hab]
          · simpa using hi
      obtain ⟨hnodup', hmem⟩ := ih _ hstep.1
      refine ⟨hnodup', fun i hi => ?_⟩
      rw [List.map_cons, List.mem_cons]
      rcases hmem i hi with hold | hnew
      · rcases hstep.2 i hold with hold | rfl
        · exact .inl hold
        · exact .inr (.inl rfl)
      · exact .inr (.inr hnew)

theorem length_kept {indices : List ℕ} (hnodup : indices.Nodup)
    (hrange : ∀ i ∈ indices, i < records.length) :
    ((records.zipIdx.filter fun (_, i) => i ∉ indices).map (·.1)).length + indices.length =
    records.length := by
  have hperm : ((List.range records.length).filter (· ∈ indices)).Perm indices := by
    refine (List.perm_ext_iff_of_nodup (List.nodup_range.filter _) hnodup).mpr fun i => ?_
    simp only [List.mem_filter, List.mem_range, decide_eq_true_eq, and_iff_right_iff_imp]
    exact hrange i
  have hkept : ((records.zipIdx.filter fun (_, i) => i ∉ indices).map (·.1)).length =
      (List.range records.length).countP fun i => i ∉ indices := by
    rw [List.length_map, ← List.countP_eq_length_filter, List.range_eq_range',
      ← List.zipIdx_map_snd, List.countP_map]
    rfl
  have hin : (List.range records.length).countP (fun i => i ∈ indices) = indices.length := by
    rw [List.countP_eq_length_filter, hperm.length_eq]
  have hsplit := List.length_eq_countP_add_countP (l := List.range records.length)
    (fun i => decide (i ∈ indices))
  rw [List.length_range, hin] at hsplit
  simp only [decide_eq_true_eq] at hsplit
  omega

theorem invalid_indices (hrange : InRange record_type) (records : List Value) :
    ((find_invalid_records record_type records).map (·.1)).Nodup ∧
      ∀ i ∈ (find_invalid_records record_type records).map (·.1), i < records.length := by
  obtain ⟨hnodup, hmem⟩ := foldl_setdefault (record_type.errors records) [] List.nodup_nil
  refine ⟨hnodup, fun i hi => ?_⟩
  obtain ⟨error, herror, rfl⟩ := List.mem_map.mp ((hmem i hi).resolve_left (by simp))
  exact hrange records error herror

theorem check_counts {skip : Bool} {duration : Int} {kept : List Value} {step : CheckStep}
    (h : check_record_type record_type skip duration records = .ok (kept, step)) :
    Chained records.length [.check step] kept.length ∧
      (InRange record_type → Exact (.check step)) := by
  unfold check_record_type at h
  simp only at h
  split at h
  · cases h
    exact ⟨⟨rfl, rfl⟩, fun _ => rfl⟩
  · split at h
    · cases h
      refine ⟨⟨rfl, rfl⟩, fun hrange => ?_⟩
      obtain ⟨hnodup, hlt⟩ := invalid_indices hrange records
      have hlen := length_kept hnodup hlt
      rw [@List.length_map _ _ (find_invalid_records record_type records)] at hlen
      have hcounts := counts_nil.foldl_one (find_invalid_records record_type records) fun entry =>
        "invalid " ++ entry.2
      exact (congrArg _ (hcounts.total.trans (Nat.zero_add _))).trans hlen
    · cases h

end Check

section Transformations

variable {σ : Type} {p : TransformationRunner.Pipeline σ} {t : Transformation σ}
    {ok : Applied → Prop}

-- A per-record step: what it gives back comes from a call for each record, with results that
-- are `ok`.
def AppliesRecords (ok : Applied → Prop) (t : Transformation σ) : Prop :=
  t.mode = .per_record ∧ ∀ records params out params', t.apply records params = (.ok out, params') →
    ∃ timeout concurrency results, 1 ≤ concurrency ∧ Called timeout records concurrency results ∧
      out = (results.map some).foldl PerRecord.keep ⟨[], []⟩ ∧ ∀ result ∈ results, ok result

theorem apply_of_step {validate_steps : Bool} {records : List Value} {params params' : σ}
    {result : RecordResults} (h : t.step validate_steps records params = (.ok result, params')) :
      t.apply records params = (.ok result, params') := by
  have hrun : t.run records params = (.ok result, params') := by
    unfold Transformation.step at h
    grind
  unfold Transformation.run at hrun
  grind

theorem length_kept_add_skipped (results : List Applied) :
    (results.filterMap Applied.kept).length + results.countP Applied.skipped ≤ results.length ∧
      ((∀ result ∈ results, result ≠ .value .None) →
        (results.filterMap Applied.kept).length + results.countP Applied.skipped =
        results.length) := by
  induction results with
  | nil => exact ⟨Nat.le_refl _, fun _ => rfl⟩
  | cons result results ih =>
      obtain ⟨hle, heq⟩ := ih
      simp only [AsyncUtils.filterMap_cons_toList, List.length_append, List.countP_cons,
        List.length_cons, List.forall_mem_cons]
      cases result with
      | Skipped reason =>
          simp only [Applied.kept, Applied.skipped, Option.toList_none, List.length_nil, if_true]
          exact ⟨by omega, fun h => by have := heq h.2; omega⟩
      | value record =>
          cases record with
          | None =>
              refine ⟨?_, fun h => absurd rfl h.1⟩
              simp only [Applied.kept, Applied.skipped, Option.toList_none, List.length_nil,
                Bool.false_eq_true, if_false]
              omega
          | _ =>
              simp only [Applied.kept, Applied.skipped, Option.toList_some, List.length_singleton,
                Bool.false_eq_true, if_false]
              exact ⟨by omega, fun h => by have := heq h.2; omega⟩

theorem applied_step_counts {validate_steps : Bool} {records : List Value} {params params' : σ}
    {result : RecordResults} (ht : AppliesRecords ok t)
    (hstep : t.step validate_steps records params = (.ok result, params')) (duration : Int) :
    Sound (.transformation (applied_step t duration records.length result)) ∧
      ((∀ result, ok result → result ≠ .value .None) →
        Exact (.transformation (applied_step t duration records.length result))) := by
  obtain ⟨hmode, happlies⟩ := ht
  obtain ⟨timeout, concurrency, results, _, hcalled, rfl, hok⟩ :=
    happlies _ _ _ _ (apply_of_step hstep)
  obtain ⟨hrecords, htimes, _⟩ := foldl_keep results ⟨[], []⟩ bounded_nil
  obtain ⟨hle, heq⟩ := length_kept_add_skipped results
  rw [hcalled.1] at hle heq
  have hout : (JobStep.transformation (applied_step t duration records.length
      ((results.map some).foldl PerRecord.keep ⟨[], []⟩))).records_out =
          (results.filterMap Applied.kept).length := by
    simp [JobStep.records_out, applied_step, hrecords]
  have hskipped : (JobStep.transformation (applied_step t duration records.length
      ((results.map some).foldl PerRecord.keep ⟨[], []⟩))).records_skipped =
          results.countP Applied.skipped := by
    simp only [JobStep.records_skipped, JobStep.skip_reasons, applied_step, hmode,
      if_true, Option.getD_some]
    exact htimes.trans (Nat.zero_add _)
  unfold Sound Exact
  rw [hout, hskipped]
  exact ⟨hle, fun hnone => heq fun result hresult => hnone result (hok result hresult)⟩

theorem chained_of_comes {records : List Value} {max_steps : ℕ} {durations : ℕ → Int}
    {params : σ} {s : State σ} (h : Comes p records max_steps durations params s) :
    Chained records.length (s.applied.map .transformation) s.transformed.length := by
  induction h with
  | refl => rfl
  | tail _ hround ih =>
      obtain ⟨_, t, result, _, _, _, hs'⟩ := round_eq_inl hround
      rw [hs', List.map_append]
      exact ih.append ⟨rfl, rfl⟩

-- Whatever list is resolved, it has such steps only.
def PerRecordOnly (ok : Applied → Prop) (p : TransformationRunner.Pipeline σ) : Prop :=
  ∀ records params current, p.define_transformations records params = .ok current →
    ∀ t ∈ current, AppliesRecords ok t

theorem applied_counts (hp : PerRecordOnly ok p) {records : List Value} {max_steps : ℕ}
    {durations : ℕ → Int} {params : σ}
    {s : State σ} (h : Comes p records max_steps durations params s) :
    ∀ step ∈ s.applied, Sound (.transformation step) ∧
      ((∀ result, ok result → result ≠ .value .None) → Exact (.transformation step)) := by
  induction h with
  | refl => simp [State.start]
  | @tail s _ _ hround ih =>
      obtain ⟨_, t, result, ⟨hcurrent, ht⟩, _, hstep, hs'⟩ := round_eq_inl hround
      rw [hs']
      intro step hmem
      rcases List.mem_append.mp hmem with hold | hnew
      · exact ih step hold
      · rw [List.mem_singleton.mp hnew]
        exact applied_step_counts (hp _ _ _ hcurrent t (List.mem_of_getElem? ht)) hstep _

end Transformations

section Jobs

variable {pipeline : JobPipeline Destination}
    {fetch : Params → Except HookError (List Value) × Params} {limit : Option ℤ}
  {durations : Durations} {runtime_params params : Params}

theorem caught_ne (e : HookError) (params params' : Params) (job : JobRecords Destination) :
    JobRunner.caught e params ≠ (.ok (some job), params') := by
  intro h
  cases e <;> cases h

theorem resolve_destination_ok {records transformed_records : List Value} {applied : List JobStep}
    {params' : Params}
    (h : (Except.ok (some job), params') =
      JobRunner.resolve_destination pipeline records transformed_records applied params) :
    job.records = records ∧ job.transformed_records = transformed_records ∧
      job.applied = applied := by
  unfold JobRunner.resolve_destination at h
  split at h
  · exact absurd h.symm (caught_ne _ _ _ _)
  · cases h
    exact ⟨rfl, rfl, rfl⟩

-- The check passes on what the transformations begin with.
theorem checked_counts {duration : Int} {records kept : List Value} {checks : List JobStep}
    (h : JobRunner.checked pipeline duration records = .ok (kept, checks)) :
    Chained records.length checks kept.length ∧
      ((∀ record_type, pipeline.record_type = some record_type → InRange record_type) →
        ∀ step ∈ checks, Exact step) := by
  unfold JobRunner.checked at h
  split at h
  · cases h
    exact ⟨rfl, by simp⟩
  · rename_i record_type htype
    cases hcheck : RecordValidation.check_record_type record_type pipeline.skip_invalid
        duration records with
    | error e => simp [hcheck, Functor.map, Except.map] at h
    | ok checked =>
        obtain ⟨_, step⟩ := checked
        simp only [hcheck, Functor.map, Except.map, Except.ok.injEq, Prod.mk.injEq] at h
        obtain ⟨rfl, rfl⟩ := h
        obtain ⟨hchain, hexact⟩ := check_counts hcheck
        refine ⟨hchain, fun hrange other hother => ?_⟩
        rw [List.mem_singleton.mp hother]
        exact hexact (hrange record_type htype)

-- The steps of a job that came to its destination.
theorem job_steps (h : JobRunner.RunsJobRecords pipeline fetch limit durations runtime_params
    (.ok (some job), params)) :
    Chained job.records.length job.applied job.transformed_records.length ∧
      ∀ ok, (∀ record_type, pipeline.record_type = some record_type → InRange record_type) →
        PerRecordOnly ok pipeline.toPipeline → ∀ step ∈ job.applied, Sound step ∧
          ((∀ result, ok result → result ≠ .value .None) → Exact step) := by
  unfold JobRunner.RunsJobRecords at h
  split at h
  · exact absurd h.symm (caught_ne _ _ _ _)
  · simp only at h
    split at h
    · cases h
    · split at h
      · exact absurd h.symm (caught_ne _ _ _ _)
      · rename_i kept checks hchecked
        obtain ⟨hchain, hchecks⟩ := checked_counts hchecked
        obtain ⟨ended, hreturns, hended⟩ := h
        obtain ⟨s, hs, hround⟩ := hreturns.exists_last
        split at hended
        · exact absurd hended.symm (caught_ne _ _ _ _)
        · rename_i transformed_records applied hresult
          obtain ⟨hrecords, htransformed, happlied⟩ := resolve_destination_ok hended
          obtain ⟨rfl, rfl⟩ : s.transformed = transformed_records ∧ s.applied = applied := by
            rcases round_eq_inr hround with
              ⟨e, _, hout⟩ | ⟨_, _, ⟨_, hout⟩ | ⟨_, _, hout⟩ | ⟨_, _, _, _, _, hout⟩⟩
            · rw [hout] at hresult
              cases hresult
            · rw [hout] at hresult
              cases hresult
              exact ⟨rfl, rfl⟩
            · rw [hout] at hresult
              cases hresult
            · rw [hout] at hresult
              cases hresult
          rw [hrecords, htransformed, happlied]
          refine ⟨hchain.append (chained_of_comes hs), fun ok hrange hp step hmem => ?_⟩
          rcases List.mem_append.mp hmem with hcheck | hstep
          · have hexact := hchecks hrange step hcheck
            exact ⟨Nat.le_of_eq hexact, fun _ => hexact⟩
          · obtain ⟨applied, happlied, rfl⟩ := List.mem_map.mp hstep
            exact applied_counts hp hs applied happlied

end Jobs

-- What the stats of a delivery say.
structure Accounted (delivered : Delivered Destination) (out : Run Destination) : Prop where
  counts : Counts out.stats.record_skip_reasons out.stats.records_skipped
  success : out.returned = out.stats.success
  -- no records came through: nothing sent, and the record counts are still those of a start
  idle : out.job = none → out.sends = [] ∧ out.stats.records_input = 0 ∧
    out.stats.records_skipped = 0 ∧
    out.stats.records_output = 0
  blocked : out.reported = false ↔ delivered.claim_job ≠ none
  sends : ∀ job, out.job = some job → out.sends = [] ∨
    ∃ destination sent, out.sends = [(destination, sent)] ∧
    sent.Sublist job.transformed_records ∧ sent.length = out.stats.records_output
  processed : out.stats.records_processed = if out.returned then
    (out.sends.map (·.2.length)).sum else 0
  input : ∀ job, out.job = some job → out.stats.records_input = job.records.length
  skipped : ∀ job, out.job = some job →
    out.stats.records_skipped = (job.applied.map JobStep.records_skipped).sum
  delta : ∀ job, out.job = some job → out.returned = true → (out.stats.records_input : Int) +
    (job.applied.map JobStep.delta).sum = out.stats.records_output + out.stats.records_deduplicated
  -- per-record steps lose records only where a call returns None
  kept : ∀ pipeline ok, delivered.pipeline = some pipeline → PerRecordOnly ok pipeline.toPipeline →
    (∀ record_type, pipeline.record_type = some record_type → InRange record_type) →
    ∀ job, out.job = some job → out.returned = true →
      out.stats.records_output + out.stats.records_deduplicated + out.stats.records_skipped ≤
        out.stats.records_input ∧
        ((∀ result, ok result → result ≠ .value .None) →
          out.stats.records_output + out.stats.records_deduplicated +
          out.stats.records_skipped = out.stats.records_input)

theorem accounted_of_idle {out : Run Destination} (hjob : out.job = none) (hsends : out.sends = [])
    (hsuccess : out.returned = out.stats.success) (hinput : out.stats.records_input = 0)
    (houtput : out.stats.records_output = 0) (hskipped : out.stats.records_skipped = 0)
    (hreasons : out.stats.record_skip_reasons = []) (hblocked : out.reported = false ↔
      delivered.claim_job ≠ none) :
    Accounted delivered out where
  counts := by rw [hskipped, hreasons]; exact counts_nil
  success := hsuccess
  idle _ := ⟨hsends, hinput, hskipped, houtput⟩
  blocked := hblocked
  sends job h := by rw [hjob] at h; cases h
  processed := by rw [JobStats.records_processed, houtput, hsends]; simp
  input job h := by rw [hjob] at h; cases h
  skipped job h := by rw [hjob] at h; cases h
  delta job h := by rw [hjob] at h; cases h
  kept _ _ _ _ _ job h := by rw [hjob] at h; cases h

theorem accounted_of_records {pipeline : JobPipeline Destination}
    {fetch : Params → Except HookError (List Value) × Params} {params : Params}
    (hclaim : delivered.claim_job = none) (hpipeline : delivered.pipeline = some pipeline)
    (h : JobRunner.RunsJobRecords pipeline fetch none delivered.durations delivered.runtime_params
      (.ok (some job), params)) :
    Accounted delivered (run_records delivered job pipeline params) := by
  obtain ⟨hchain, hsteps⟩ := job_steps h
  obtain ⟨hcounts, hskipped, hinput, _⟩ :=
    foldl_count_counts { JobStats.start with records_input := job.records.length }
      job.applied counts_nil
  have hran := ran_records delivered job pipeline params
  have hsum : (run_records delivered job pipeline params).stats.records_skipped =
      (job.applied.map JobStep.records_skipped).sum := by
    rw [hran.skipped, hskipped]
    exact Nat.zero_add _
  have hin : (run_records delivered job pipeline params).stats.records_input =
      job.records.length := by
    rw [hran.input, hinput]
  refine
    { counts := by rw [hran.reasons, hran.skipped]; exact hcounts
      success := hran.success
      idle := fun hnone => by rw [hran.ran] at hnone; cases hnone
      blocked := by simp [hran.reported, hclaim]
      sends := fun job' hjob => by rw [hran.ran] at hjob; cases hjob; exact hran.sends
      processed := ?_
      input := fun job' hjob => by rw [hran.ran] at hjob; cases hjob; exact hin
      skipped := fun job' hjob => by rw [hran.ran] at hjob; cases hjob; exact hsum
      delta := fun job' hjob hback => ?_
      kept := fun pipeline' ok hpipeline' hp hrange job' hjob hback => ?_ }
  · rw [JobStats.records_processed, ← hran.success]
    split
    · rename_i hback
      exact (hran.output hback).1
    · rfl
  · rw [hran.ran] at hjob
    cases hjob
    have hdelta := hchain.delta
    have houtput := (hran.output hback).2
    rw [hin, hdelta]
    omega
  · rw [hran.ran] at hjob
    cases hjob
    rw [hpipeline] at hpipeline'
    cases hpipeline'
    have hstep := hsteps ok hrange hp
    have houtput := (hran.output hback).2
    have hle := hchain.skipped_le fun step hmem => (hstep step hmem).1
    refine ⟨by omega, fun hnone => ?_⟩
    have heq := hchain.skipped_eq fun step hmem => (hstep step hmem).2 hnone
    omega

section Example

def trusting : Transformation Params where
  name := "keep"
  kind := .sync
  validate_input _ := .ok ()
  apply records params := (.ok ⟨records, []⟩, params)
  validate_output _ := .ok ()
  find_invalid_records _ := .ok none

-- Ints are not orders.
def orders_type : RecordType where
  type_label := "Order"
  errors records := records.zipIdx.filterMap fun
    | (.int _, i) => some ⟨i, [.name "data", .position 0], "missing"⟩
    | _ => none

def orders : JobPipeline Unit where
  name := "orders"
  define_transformations _ _ := .ok [trusting]
  validate_steps := false
  record_type := some orders_type
  skip_invalid := true
  define_destination _ params := (.ok (), params)

def orders_delivered : Delivered Unit where
  claim_job := none
  runtime_params := .empty
  source := .ok fun params => (.ok [.str "a", .int 1], params)
  pipeline := some orders
  pipeline_missing := ⟨"RuntimeError", "not found"⟩
  durations := ⟨0, fun _ => 0⟩
  dedup_check := false
  held_by_other_job := false
  hashes _ := .ok []
  claim_record_hashes _ := .ok []
  health_check _ := .ok true
  send_with_retry _ _ := .ok ()
  format_exc e := e.message

-- One of two records is no order.
def orders_job : JobRecords Unit where
  records := [.str "a", .int 1]
  transformed_records := [.str "a"]
  applied := [.check ⟨0, 2, 1, some [("invalid data[]: missing", 1)]⟩,
    .transformation ⟨"keep", 0, 1, 1, .sync, none, none⟩]
  destination := ()

end Example

end Executor

end Reflowfy
