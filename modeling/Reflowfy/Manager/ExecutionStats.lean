import Reflowfy.Lifecycle.Settlement
import Mathlib.Data.List.Dedup
import Mathlib.Data.List.Sort

namespace Reflowfy.Manager

inductive BatchState
  | failed | completed | in_progress | pending
  deriving DecidableEq, Repr

-- One entry of `checkpoints`.
structure BatchStats where
  batch_number : ℕ
  total_jobs : ℕ
  pending : ℕ
  completed : ℕ
  failed : ℕ
  state : BatchState
  deriving DecidableEq, Repr

def batch_state (total_jobs completed failed : ℕ) : BatchState :=
  if 0 < failed then .failed
  else if completed = total_jobs then .completed
  else if 0 < completed then .in_progress
  else .pending

-- The aggregates over the rows of one group.
def batch_stats (batch_number : ℕ) (jobs : List Job) : BatchStats where
  batch_number := batch_number
  total_jobs := jobs.length
  pending := jobs.countP (·.state = .pending)
  completed := jobs.countP (·.state = .completed)
  failed := jobs.countP (·.state = .failed)
  state := batch_state jobs.length (jobs.countP (·.state = .completed))
    (jobs.countP (·.state = .failed))

-- GROUP BY batch_number ORDER BY batch_number. No row here has a NULL for it.
def batch_numbers (jobs : List Job) : List ℕ :=
  (jobs.map (·.batch_number)).dedup.insertionSort (· ≤ ·)

def get_batch_checkpoint_stats (jobs : List Job) : List BatchStats :=
  (batch_numbers jobs).map fun n => batch_stats n (jobs.filter (·.batch_number = n))

-- The first batch that is not completed, or else the number of batches.
def current_checkpoint (checkpoints : List BatchStats) : Option ℕ :=
  match checkpoints.find? (·.state != .completed) with
  | some cp => some cp.batch_number
  | none => if checkpoints = [] then none else some checkpoints.length

structure ExecutionStats where
  state : ExecutionState
  total_jobs : ℕ
  jobs_dispatched : ℕ
  jobs_pending : ℕ
  jobs_running : ℕ
  jobs_cancelled : ℕ
  jobs_completed : ℕ
  jobs_failed : ℕ
  deduplicated_jobs : ℕ
  current_checkpoint : Option ℕ
  created_at : Int
  completed_at : Option Int
  error_message : Option String
  checkpoints : List BatchStats
  deriving DecidableEq, Repr

def get_execution_stats (execution : Option Execution) (jobs : List Job) : Option ExecutionStats :=
  execution.map fun execution =>
    let job_counts := get_job_counts jobs
    let checkpoints := get_batch_checkpoint_stats jobs
    { state := execution.state
      total_jobs := execution.total_jobs
      jobs_dispatched := job_counts.dispatched + job_counts.running + job_counts.completed +
        job_counts.failed +
        job_counts.deduplicated
      jobs_pending := job_counts.pending
      jobs_running := job_counts.running
      jobs_cancelled := job_counts.cancelled
      jobs_completed := job_counts.completed
      jobs_failed := job_counts.failed
      deduplicated_jobs := execution.deduplicated_jobs
      current_checkpoint := current_checkpoint checkpoints
      created_at := execution.created_at
      completed_at := execution.completed_at
      error_message := execution.error_message
      checkpoints := checkpoints }

variable {jobs : List Job} {k n : ℕ}

-- The jobs of a batch.
def InBatch (jobs : List Job) (n : ℕ) (job : Job) : Prop := job ∈ jobs ∧ job.batch_number = n

def BatchSucceeded (jobs : List Job) (n : ℕ) : Prop := ∀ job, InBatch jobs n job →
    job.state.succeeded = true

-- What the statistics say about rows whose batches are 1, …, k.
structure StatsAgree (k : ℕ) (jobs : List Job) (stats : ExecutionStats) : Prop where
  sum : stats.jobs_dispatched + stats.jobs_pending + stats.jobs_cancelled = jobs.length
  batches : stats.checkpoints.map (·.batch_number) = List.range' 1 k
  failed : ∀ cp ∈ stats.checkpoints, cp.state = .failed ↔ ∃ job, InBatch jobs cp.batch_number job ∧
    job.state = .failed
  completed : ∀ cp ∈ stats.checkpoints, cp.state = .completed ↔ BatchSucceeded jobs cp.batch_number
  -- the execution settles as 'completed'
  settled : AllSucceeded jobs →
    finalState jobs.length (get_job_counts jobs).finished
      (get_job_counts jobs).failed = .completed ∧
      (∀ cp ∈ stats.checkpoints, cp.state = .completed) ∧
      stats.current_checkpoint = (stats.checkpoints.getLast?).map (·.batch_number)

section Counts

-- Every row is counted once, in its state.
theorem counts_sum (jobs : List Job) :
    (get_job_counts jobs).dispatched + (get_job_counts jobs).running +
    (get_job_counts jobs).completed +
      (get_job_counts jobs).failed + (get_job_counts jobs).deduplicated +
      (get_job_counts jobs).pending +
      (get_job_counts jobs).cancelled = jobs.length := by
  simp only [get_job_counts]
  induction jobs with
  | nil => rfl
  | cons job jobs ih =>
      simp only [List.countP_cons, List.length_cons]
      cases job.state <;> simp <;> omega

theorem settles_completed (hall : AllSucceeded jobs) :
    finalState jobs.length (get_job_counts jobs).finished
      (get_job_counts jobs).failed = .completed := by
  have hfailed : (get_job_counts jobs).failed = 0 := by
    apply counts_of_noFailed
    intro job hjob hstate
    have := hall job hjob
    simp [hstate, JobState.succeeded] at this
  have hsucceeded := (countP_succeeded jobs).symm.trans (List.countP_eq_length.mpr hall)
  have hfinished : (get_job_counts jobs).finished = jobs.length := by
    simp only [JobCounts.finished, get_job_counts] at hfailed ⊢
    omega
  rw [finalState, if_pos hfinished, if_pos hfailed]

end Counts

section Batches

theorem batch_state_failed_iff (total_jobs completed failed : ℕ) :
    batch_state total_jobs completed failed = .failed ↔ 0 < failed := by
  unfold batch_state
  split_ifs <;> simp_all

theorem batch_state_completed_iff (total_jobs completed failed : ℕ) :
    batch_state total_jobs completed failed = .completed ↔ failed = 0 ∧ completed = total_jobs := by
  unfold batch_state
  split_ifs <;> simp_all
  omega

theorem mem_batch_numbers : n ∈ batch_numbers jobs ↔ n ∈ jobs.map (·.batch_number) := by
  rw [batch_numbers, List.mem_insertionSort, List.mem_dedup]

theorem batch_numbers_eq (hbatches : ∀ n, n ∈ jobs.map (·.batch_number) ↔ 1 ≤ n ∧ n ≤ k) :
    batch_numbers jobs = List.range' 1 k := by
  have hmem : ∀ n, n ∈ batch_numbers jobs ↔ n ∈ List.range' 1 k := by
    intro n
    rw [mem_batch_numbers, hbatches, List.mem_range'_1]
    omega
  have hnodup : (batch_numbers jobs).Nodup := (List.perm_insertionSort _ _).nodup_iff.mpr
    (List.nodup_dedup _)
  have hperm := (List.perm_ext_iff_of_nodup hnodup (List.nodup_range' (s := 1) (n := k))).mpr hmem
  exact hperm.eq_of_pairwise' (List.pairwise_insertionSort (· ≤ ·) _) (List.pairwise_le_range' ..)

-- A batch is 'failed' with a failed job, and 'completed' when every job of it is.
theorem batch_stats_failed_iff :
    (batch_stats n (jobs.filter (·.batch_number = n))).state = .failed ↔
    ∃ job, InBatch jobs n job ∧ job.state = .failed := by
  show batch_state _ _ _ = .failed ↔ _
  rw [batch_state_failed_iff, List.countP_pos_iff]
  simp [InBatch]

theorem batch_stats_completed_iff :
    (batch_stats n (jobs.filter (·.batch_number = n))).state = .completed ↔
    ∀ job, InBatch jobs n job → job.state = .completed := by
  show batch_state _ _ _ = .completed ↔ _
  rw [batch_state_completed_iff, List.countP_eq_zero, List.countP_eq_length]
  constructor
  · intro h job hjob
    simpa using h.2 job (List.mem_filter.mpr ⟨hjob.1, by simpa using hjob.2⟩)
  · intro h
    have hjobs : ∀ job ∈ jobs.filter (·.batch_number = n), job.state = .completed := by
      intro job hjob
      exact h job ⟨List.mem_of_mem_filter hjob, by simpa using List.of_mem_filter hjob⟩
    exact ⟨fun job hjob => by simp [hjobs job hjob], fun job hjob => by simp [hjobs job hjob]⟩

theorem checkpoints_numbers (jobs : List Job) :
    (get_batch_checkpoint_stats jobs).map (·.batch_number) = batch_numbers jobs := by
  rw [get_batch_checkpoint_stats, List.map_map]
  exact List.map_id _

theorem current_checkpoint_completed {checkpoints : List BatchStats}
    (hnumbers : checkpoints.map (·.batch_number) = List.range' 1 k)
    (hall : ∀ cp ∈ checkpoints, cp.state = .completed) :
    current_checkpoint checkpoints = (checkpoints.getLast?).map (·.batch_number) := by
  have hfind : checkpoints.find? (·.state != .completed) = none := by
    rw [List.find?_eq_none]
    intro cp hcp
    simp [hall cp hcp]
  have hlen : checkpoints.length = k := by
    rw [← List.length_map (·.batch_number), hnumbers, List.length_range']
  rw [current_checkpoint, hfind, ← List.getLast?_map, hnumbers]
  cases k with
  | zero => simp [List.length_eq_zero_iff.mp hlen]
  | succ k =>
      have hne : checkpoints ≠ [] := List.ne_nil_of_length_eq_add_one hlen
      simp [hne, hlen, List.range'_concat]
      omega

end Batches

-- The statistics agree with the rows iff no batch that has ended successfully has a
-- deduplicated job.
theorem stats_agree_iff (execution : Execution) (jobs : List Job)
    (hbatches : ∀ n, n ∈ jobs.map (·.batch_number) ↔ 1 ≤ n ∧ n ≤ k) :
    (∃ stats, get_execution_stats (some execution) jobs = some stats ∧ StatsAgree k jobs stats) ↔
      ∀ n, BatchSucceeded jobs n → ∀ job, InBatch jobs n job → job.state ≠ .deduplicated := by
  have hnumbers := (checkpoints_numbers jobs).trans (batch_numbers_eq hbatches)
  constructor
  · rintro ⟨stats, hstats, hagree⟩ n hsucceeded job hjob hstate
    cases hstats
    have hcp : batch_stats n (jobs.filter (·.batch_number = n)) ∈ get_batch_checkpoint_stats jobs :=
      List.mem_map_of_mem (mem_batch_numbers.mpr (List.mem_map.mpr ⟨job, hjob⟩))
    have hcompleted := batch_stats_completed_iff.mp
      ((hagree.completed _ hcp).mpr hsucceeded) job hjob
    rw [hstate] at hcompleted
    cases hcompleted
  · intro hno
    have hbatch : ∀ n, (∀ job, InBatch jobs n job → job.state = .completed) ↔
        BatchSucceeded jobs n := by
      intro n
      constructor
      · intro h job hjob
        rw [h job hjob]
        rfl
      · intro h job hjob
        have hsucceeded := h job hjob
        have hne := hno n h job hjob
        revert hsucceeded hne
        cases job.state <;> simp [JobState.succeeded]
    have hcompleted : ∀ cp ∈ get_batch_checkpoint_stats jobs, cp.state = .completed ↔
        BatchSucceeded jobs cp.batch_number := by
      intro cp hcp
      obtain ⟨n, -, rfl⟩ := List.mem_map.mp hcp
      exact batch_stats_completed_iff.trans (hbatch n)
    refine ⟨_, rfl, ⟨?_, hnumbers, ?_, hcompleted, ?_⟩⟩
    · have hsum := counts_sum jobs
      simp only
      omega
    · intro cp hcp
      obtain ⟨n, -, rfl⟩ := List.mem_map.mp hcp
      exact batch_stats_failed_iff
    · intro hall
      have hstates : ∀ cp ∈ get_batch_checkpoint_stats jobs, cp.state = .completed :=
        fun cp hcp => (hcompleted cp hcp).mpr fun job hjob => hall job hjob.1
      exact ⟨settles_completed hall, hstates, current_checkpoint_completed hnumbers hstates⟩

-- Two batches, the first of them done.
theorem stats_agree_two : ∃ stats,
    get_execution_stats (some (Execution.create_execution 0))
      [{ Job.create_job 1 1 0 with state := .completed }, Job.create_job 2 2 0] = some stats ∧
    StatsAgree 2 [{ Job.create_job 1 1 0 with state := .completed },
        Job.create_job 2 2 0] stats := by
  refine (stats_agree_iff _ _ fun n => ?_).mpr fun n _ job hjob => ?_
  · simp [Job.create_job]
    omega
  · rcases hjob with ⟨hjob, -⟩
    simp only [List.mem_cons, List.not_mem_nil, or_false] at hjob
    obtain rfl | rfl := hjob <;> decide

-- One job completed and one deduplicated: the execution is done, its batch is 'in_progress'.
def deduplicated_batch : List Job :=
  [{ Job.create_job 1 1 0 with state := .completed },
    { Job.create_job 2 1 0 with state := .deduplicated }]

theorem deduplicated_in_progress :
    (∀ n, n ∈ deduplicated_batch.map (·.batch_number) ↔ 1 ≤ n ∧ n ≤ 1) ∧
    ¬∃ stats, get_execution_stats (some (Execution.create_execution 0))
      deduplicated_batch = some stats ∧
      StatsAgree 1 deduplicated_batch stats := by
  constructor
  · intro n
    simp [deduplicated_batch, Job.create_job]
    omega
  · rintro ⟨stats, hstats, hagree⟩
    cases hstats
    have hall : AllSucceeded deduplicated_batch := by
      intro job hjob
      simp only [deduplicated_batch, List.mem_cons, List.not_mem_nil, or_false] at hjob
      obtain rfl | rfl := hjob <;> rfl
    exact absurd (hagree.settled hall).2.1 (by decide)

end Reflowfy.Manager
