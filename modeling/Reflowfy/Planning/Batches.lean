import Reflowfy.Planning
import Mathlib.Data.Finset.Card
import Mathlib.Data.Finset.Image
import Mathlib.Order.Interval.Finset.Nat

namespace Reflowfy.PipelineRunner

variable {S : Type} {B : ℕ} {context : ExecutionContext} {default_job_params : Params}

-- The row of a job by the number of its batch.
def row (context : ExecutionContext) (default_job_params : Params) (batch_number : ℕ)
    (sub_source : JobId × Planned S) :
    PlannedJob S :=
  ⟨sub_source.1, job_payload { context with batch_number } default_job_params sub_source.1
    sub_source.2, batch_number⟩

-- Every job of a plan in a batch of `B`.
def rows (B : ℕ) (context : ExecutionContext) (default_job_params : Params)
    (plan : List (JobId × Planned S)) :
    List (PlannedJob S) :=
  plan.mapIdx fun i sub_source => row context default_job_params (i / B + 1) sub_source

section Loop

-- The loop has come through this part of the plan.
def Saved (B : ℕ) (context : ExecutionContext) (default_job_params : Params)
    (plan : List (JobId × Planned S)) (p : PlanLoop S) : Prop :=
  p.saved ++ p.job_rows = rows B context default_job_params plan ∧
    p.job_rows.length = plan.length % B ∧ p.current_job_ids.length = plan.length % B ∧
    p.batch_number = plan.length / B + 1 ∧ p.job_count = plan.length

theorem saved_start : Saved B context default_job_params [] (PlanLoop.start (S := S)) := by
  simp [Saved, PlanLoop.start, rows]

theorem next_batch {n : ℕ} (hB : 1 ≤ B) (hfull : B ≤ n % B + 1) : (n + 1) % B = 0 ∧
    (n + 1) / B = n / B + 1 := by
  have hlt := Nat.mod_lt n hB
  have hn : n + 1 = B * (n / B + 1) := by
    rw [Nat.mul_succ]
    have := Nat.div_add_mod n B
    omega
  constructor
  · rw [hn, Nat.mul_mod_right]
  · rw [hn, Nat.mul_div_cancel_left _ hB]

theorem same_batch {n : ℕ} (hB : 1 ≤ B) (hroom : n % B + 1 < B) : (n + 1) % B = n % B + 1 ∧
    (n + 1) / B = n / B := by
  have hn : n + 1 = n % B + 1 + B * (n / B) := by
    have := Nat.div_add_mod n B
    omega
  constructor
  · rw [hn, Nat.add_mul_mod_self_left, Nat.mod_eq_of_lt hroom]
  · rw [hn, Nat.add_mul_div_left _ _ hB, Nat.div_eq_of_lt hroom, Nat.zero_add]

theorem Saved.step (hB : 1 ≤ B) {plan : List (JobId × Planned S)} {p : PlanLoop S}
    (h : Saved B context default_job_params plan p) (sub_source : JobId × Planned S) :
    Saved B context default_job_params (plan ++ [sub_source])
      ((p.append context default_job_params sub_source).flush B) := by
  obtain ⟨hrows, hbuffer, hids, hbatch, hcount⟩ := h
  have hnext : p.saved ++ (p.append context default_job_params sub_source).job_rows =
      rows B context default_job_params (plan ++ [sub_source]) := by
    rw [rows, List.mapIdx_append]
    show p.saved ++ (p.job_rows ++ [row context default_job_params p.batch_number sub_source]) = _
    rw [← List.append_assoc, hrows, hbatch]
    simp [rows]
  have hlen : (p.append context default_job_params sub_source).current_job_ids.length =
      plan.length % B + 1 := by
    simp [PlanLoop.append, hids]
  rw [PlanLoop.flush, hlen]
  by_cases hfull : B ≤ plan.length % B + 1
  · obtain ⟨hmod, hdiv⟩ := next_batch hB hfull
    rw [if_pos hfull]
    refine ⟨?_, ?_, ?_, ?_, ?_⟩
    · exact (List.append_nil _).trans hnext
    · simpa using hmod.symm
    · simpa using hmod.symm
    · simp [PlanLoop.append, hbatch, hdiv]
    · simp [PlanLoop.append, PlanLoop.create_jobs, hcount]
  · obtain ⟨hmod, hdiv⟩ := same_batch hB (Nat.not_le.mp hfull)
    rw [if_neg hfull]
    refine ⟨hnext, ?_, ?_, ?_, ?_⟩
    · simp [PlanLoop.append, hbuffer, hmod]
    · simp [PlanLoop.append, hids, hmod]
    · simp [PlanLoop.append, hbatch, hdiv]
    · simp [PlanLoop.append, hcount]

theorem saved_run (hB : 1 ≤ B) (context : ExecutionContext) (default_job_params : Params)
    (plan : List (JobId × Planned S)) :
    Saved B context default_job_params plan (PlanLoop.run B context default_job_params plan) := by
  induction plan using List.reverseRecOn with
  | nil => exact saved_start
  | append_singleton plan sub_source ih =>
      rw [PlanLoop.run, List.foldl_append]
      exact ih.step hB sub_source

-- The buffer is at its fullest right after a job has been added to it.
theorem buffered_le (hB : 1 ≤ B) (plan : List (JobId × Planned S))
    (sub_source : JobId × Planned S) :
    ((PlanLoop.run B context default_job_params plan).append context default_job_params
      sub_source).job_rows.length ≤ B := by
  obtain ⟨-, hbuffer, -⟩ := saved_run hB context default_job_params plan
  have hlt := Nat.mod_lt plan.length hB
  simp only [PlanLoop.append, List.length_append, hbuffer, List.length_singleton]
  omega

end Loop

section Tables

theorem jobs_eq (hB : 1 ≤ B) (plan : List (JobId × Planned S)) :
    (plan_jobs B context default_job_params plan).jobs =
      bulk_set_total_batches (plan.length / B + 1) (rows B context default_job_params plan) := by
  obtain ⟨hrows, -, -, hbatch, -⟩ := saved_run hB context default_job_params plan
  show bulk_set_total_batches (PlanLoop.run B context default_job_params plan).batch_number
    ((PlanLoop.run B context default_job_params plan).saved ++
      (PlanLoop.run B context default_job_params plan).job_rows) = _
  rw [hrows, hbatch]

-- Numbers that the jobs of a plan get, in plan order.
def batch_numbers (B n : ℕ) : List ℕ := (List.range n).map fun i => i / B + 1

theorem map_rows {α : Type} (f : PlannedJob S → α) (g : ℕ → JobId × Planned S → α)
    (h : ∀ i sub_source, f (row context default_job_params (i / B + 1) sub_source) = g i sub_source)
    (plan : List (JobId × Planned S)) : (rows B context default_job_params plan).map f =
      plan.mapIdx g := by
  refine List.ext_getElem (by simp [rows]) fun i _ _ => ?_
  simp only [rows, List.getElem_map, List.getElem_mapIdx, h]

theorem mapIdx_const {α β : Type} (f : ℕ → β) (l : List α) :
    (l.mapIdx fun i _ => f i) = (List.range l.length).map f := by
  induction l using List.reverseRecOn with
  | nil => rfl
  | append_singleton l a ih => simp [List.mapIdx_append, ih, List.range_succ]

-- The batches of `n` jobs.
theorem distinct_batches (hB : 1 ≤ B) (n : ℕ) : (batch_numbers B n).toFinset = Finset.Icc 1
    ((n + B - 1) / B) := by
  ext b
  simp only [batch_numbers, List.mem_toFinset, List.mem_map, List.mem_range, Finset.mem_Icc]
  constructor
  · rintro ⟨i, hi, rfl⟩
    refine ⟨Nat.le_add_left .., ?_⟩
    rw [Nat.le_div_iff_mul_le hB, Nat.succ_mul]
    have := Nat.div_mul_le_self i B
    omega
  · rintro ⟨h1, hb⟩
    rw [Nat.le_div_iff_mul_le hB] at hb
    refine ⟨(b - 1) * B, ?_, ?_⟩
    · obtain ⟨b, rfl⟩ : ∃ k, b = k + 1 := ⟨b - 1, by omega⟩
      rw [Nat.succ_mul] at hb
      rw [Nat.add_sub_cancel]
      omega
    · rw [Nat.mul_div_cancel _ hB]
      omega

theorem card_batches (hB : 1 ≤ B) (n : ℕ) :
    (batch_numbers B n).toFinset.card = (n + B - 1) / B := by
  rw [distinct_batches hB, Nat.card_Icc, Nat.add_sub_cancel]

-- The number that is written is one too high where the last batch is full.
theorem written_eq_iff (hB : 1 ≤ B) {n : ℕ} (hn : n ≠ 0) :
    n / B + 1 = (n + B - 1) / B ↔ ¬B ∣ n := by
  have hceil : (n + B - 1) / B = (n - 1) / B + 1 := by
    rw [show n + B - 1 = n - 1 + B by omega, Nat.add_div_right _ hB]
  rw [hceil, Nat.add_right_cancel_iff]
  obtain ⟨m, rfl⟩ := Nat.exists_eq_succ_of_ne_zero hn
  rw [Nat.succ_sub_one, Nat.succ_div]
  split
  · rename_i hdvd
    simp [hdvd]
  · rename_i hdvd
    simp [hdvd]

end Tables

-- Every job is saved once, in plan order and by its batch, no more than `B` are held back,
-- and the totals are those of the plan.
structure Bookkept (B : ℕ) (context : ExecutionContext) (default_job_params : Params)
    (plan : List (JobId × Planned S)) :
    Prop where
  saved : (plan_jobs B context default_job_params plan).jobs.map
    (fun job => (job.job_id, job.job_payload.source)) =
    plan.map fun sub_source => (sub_source.1, sub_source.2.source)
  batch_number : (plan_jobs B context default_job_params plan).jobs.map (·.batch_number) =
    batch_numbers B plan.length
  payloads : (plan_jobs B context default_job_params plan).jobs.map
    (·.job_payload.metadata.context.batch_number) =
    batch_numbers B plan.length
  buffered : ∀ front sub_source back, plan = front ++ sub_source :: back →
    ((PlanLoop.run B context default_job_params front).append context default_job_params
      sub_source).job_rows.length ≤ B
  total_jobs : (plan_jobs B context default_job_params plan).total_jobs = plan.length
  total_batches : ∀ job ∈ (plan_jobs B context default_job_params plan).jobs,
    job.job_payload.metadata.context.total_batches =
      ((plan_jobs B context default_job_params plan).jobs.map (·.batch_number)).toFinset.card ∧
    job.job_payload.metadata.context.total_batches = (plan.length + B - 1) / B

theorem total_batches_eq (hB : 1 ≤ B) (plan : List (JobId × Planned S)) :
    ∀ job ∈ (plan_jobs B context default_job_params plan).jobs,
      job.job_payload.metadata.context.total_batches = plan.length / B + 1 := by
  rw [jobs_eq hB, bulk_set_total_batches]
  intro job hjob
  obtain ⟨job', -, rfl⟩ := List.mem_map.mp hjob
  rfl

theorem jobs_map {α : Type} (hB : 1 ≤ B) (plan : List (JobId × Planned S)) (f : PlannedJob S → α)
    (hf : ∀ total_batches job,
      f { job with job_payload.metadata.context.total_batches := total_batches } = f job) :
    (plan_jobs B context default_job_params plan).jobs.map f =
        (rows B context default_job_params plan).map f := by
  rw [jobs_eq hB, bulk_set_total_batches, List.map_map]
  exact List.map_congr_left fun job _ => hf _ job

theorem saved_jobs (hB : 1 ≤ B) (plan : List (JobId × Planned S)) :
    (plan_jobs B context default_job_params plan).jobs.map
    (fun job => (job.job_id, job.job_payload.source)) =
      plan.map fun sub_source => (sub_source.1, sub_source.2.source) := by
  rw [jobs_map hB plan _ fun _ _ => rfl,
    map_rows _ (fun _ sub_source => (sub_source.1, sub_source.2.source)) fun _ _ => rfl]
  exact List.ext_getElem (by simp) fun i _ _ => by simp

theorem saved_numbers (hB : 1 ≤ B) (plan : List (JobId × Planned S)) :
    (plan_jobs B context default_job_params plan).jobs.map (·.batch_number) =
    batch_numbers B plan.length := by
  rw [jobs_map hB plan _ fun _ _ => rfl, map_rows _ (fun i _ => i / B + 1) fun _ _ => rfl]
  exact mapIdx_const _ _

theorem payload_numbers (hB : 1 ≤ B) (plan : List (JobId × Planned S)) :
    (plan_jobs B context default_job_params plan).jobs.map
    (·.job_payload.metadata.context.batch_number) =
      batch_numbers B plan.length := by
  rw [jobs_map hB plan _ fun _ _ => rfl, map_rows _ (fun i _ => i / B + 1) fun _ _ => rfl]
  exact mapIdx_const _ _

-- The bookkeeping of a plan is right but for the number of its batches, which is one too
-- high where the last batch is full.
theorem plan_bookkept_iff (hB : 1 ≤ B) (context : ExecutionContext) (default_job_params : Params)
    (plan : List (JobId × Planned S)) : Bookkept B context default_job_params plan ↔ plan = [] ∨
      ¬B ∣ plan.length := by
  have hlength : (plan_jobs B context default_job_params plan).jobs.length = plan.length := by
    simpa using congrArg List.length (@saved_jobs S B context default_job_params hB plan)
  constructor
  · intro hkept
    rw [or_iff_not_imp_left]
    intro hne
    have hjobs : (plan_jobs B context default_job_params plan).jobs ≠ [] := by
      rwa [ne_eq, ← List.length_eq_zero_iff, hlength, List.length_eq_zero_iff]
    obtain ⟨job, hjob⟩ := List.exists_mem_of_ne_nil _ hjobs
    have hone := (hkept.total_batches job hjob).2
    rw [total_batches_eq hB plan job hjob] at hone
    exact (written_eq_iff hB fun h => hne (List.length_eq_zero_iff.mp h)).mp hone
  · intro hnot_full
    refine ⟨saved_jobs hB plan, saved_numbers hB plan, payload_numbers hB plan,
      fun front sub_source _ _ => buffered_le hB front sub_source,
        (saved_run hB context default_job_params plan).2.2.2.2, ?_⟩
    intro job hjob
    have hne : plan ≠ [] := by
      rintro rfl
      rw [List.length_nil, List.length_eq_zero_iff] at hlength
      rw [hlength] at hjob
      cases hjob
    have hone := (written_eq_iff hB fun h => hne (List.length_eq_zero_iff.mp h)).mpr
      (hnot_full.resolve_left hne)
    rw [saved_numbers hB, card_batches hB, total_batches_eq hB plan job hjob]
    exact ⟨hone, hone⟩

-- Three jobs in batches of two.
theorem plan_bookkept_three : Bookkept 2 ⟨"run", "batch", "users", "", 0, 0, 0, false⟩ .empty
    [(0, (⟨"a", none⟩ : Planned String)), (1, ⟨"b", none⟩), (2, ⟨"c", none⟩)] :=
  (plan_bookkept_iff (by decide) _ _ _).mpr (.inr (by decide))

-- One job in a batch of one is told that it is in the first of two batches.
theorem one_batch_too_many : ¬Bookkept 1 ⟨"run", "batch", "users", "", 0, 0, 0, false⟩ .empty
    [(0, (⟨"a", none⟩ : Planned String))] := by
  intro hkept
  have htwo : (2 : ℕ) = 1 := (hkept.total_batches _ List.mem_cons_self).1
  cases htwo

end Reflowfy.PipelineRunner
