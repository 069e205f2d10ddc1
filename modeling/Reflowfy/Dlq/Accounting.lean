import Reflowfy.Dlq.Refinement

namespace Reflowfy.DLQScheduler

open Interleaving

variable {dumps : Params → String} {f : Prop}

section Views

-- What a transaction writes has `n` failures counted, and is archived with the last of them.
def JobWrite.Counts (n : ℕ) : JobWrite → Prop
  | .update job => job.retry_count = n ∧ n < job.max_retries
  | .archive row => row.retry_count = n ∧ n = row.max_retries

-- What the call that owns a job knows of its row.
def Phase.Knows (d : JobData) : Phase → Prop
  | .free => True
  | .taken job => d.row = some job
  | .running job => d.row = some job
  | .written write => d.row.isSome ∧ write.Counts d.failures
  | .failed _ => d.row.isSome
  | .handled loaded write => ∃ job error_msg now, d.row = some job ∧
      job.retry_count = loaded.retry_count ∧
      job.max_retries = loaded.max_retries ∧ loaded.handle_job_failure error_msg now = some write

structure Accounted (v : JobView) : Prop where
  unscheduled : v.data.scheduled = false →
    v.data.row = none ∧ v.data.archive = none ∧ v.data.failures = 0 ∧ v.phase = .free
  one : v.data.scheduled = true → v.data.row.isSome = !v.data.archive.isSome
  row : ∀ job, v.data.row = some job →
    job.retry_count + v.phase.owed = v.data.failures ∧ job.retry_count < job.max_retries
  archive : ∀ row, v.data.archive = some row →
    row.retry_count = v.data.failures ∧ row.retry_count = row.max_retries
  knows : v.phase.Knows v.data

theorem handle_counts {job : DLQJob} {error_msg : String} {now : Int} {write : JobWrite}
    (hmax : job.retry_count < job.max_retries)
    (h : job.handle_job_failure error_msg now = some write) :
    write.Counts (job.retry_count + 1) ∧ write.completed = false := by
  rcases Nat.lt_or_ge (job.retry_count + 1) job.max_retries with hmore | hlast
  · rw [handle_job_failure_more hmore] at h
    obtain ⟨scheduled_at, -, rfl⟩ := Option.map_eq_some_iff.mp h
    exact ⟨⟨rfl, hmore⟩, rfl⟩
  · rw [handle_job_failure_last hlast] at h
    cases h
    exact ⟨⟨rfl, Nat.le_antisymm hmax hlast⟩, rfl⟩

-- A job that is rescheduled has a dispatch left.
theorem lt_of_handle_update {job new : DLQJob} {error_msg : String} {now : Int}
    (h : job.handle_job_failure error_msg now = some (.update new)) :
      job.retry_count + 1 < job.max_retries := by
  rcases Nat.lt_or_ge (job.retry_count + 1) job.max_retries with hmore | hlast
  · exact hmore
  · rw [handle_job_failure_last hlast] at h
    cases h

variable {v v' : JobView} {job : DLQJob} {write : JobWrite}

theorem owed_of_not_completed (h : write.completed = false) : (Phase.written write).owed = 1 := by
  simp [Phase.owed, h]

theorem Accounted.archive_none (h : Accounted v) (hrow : v.data.row = some job) :
    v.data.archive = none := by
  cases hs : v.data.scheduled with
  | false =>
      rw [(h.unscheduled hs).1] at hrow
      cases hrow
  | true =>
      have hone := h.one hs
      rw [hrow] at hone
      simpa using hone.symm

theorem Accounted.scheduled (h : Accounted v) (hrow : v.data.row = some job) :
    v.data.scheduled = true := by
  cases hs : v.data.scheduled with
  | false =>
      rw [(h.unscheduled hs).1] at hrow
      cases hrow
  | true => rfl

-- A job that stays in `dlq_jobs`.
theorem Accounted.keep (h : Accounted v) (hrow : v.data.row = some job) {next : DLQJob}
    {d' : JobData} {ph : Phase} (hs : d'.scheduled = v.data.scheduled) (hrow' : d'.row = some next)
    (harchive : d'.archive = v.data.archive)
    (hcount : next.retry_count + ph.owed = d'.failures) (hmax : next.retry_count < next.max_retries)
    (hknows : ph.Knows d') : Accounted ⟨d', ph⟩ where
  unscheduled hun := by
    rw [hs, h.scheduled hrow] at hun
    cases hun
  one _ := by
    show d'.row.isSome = !d'.archive.isSome
    rw [hrow', harchive, h.archive_none hrow]
    rfl
  row job' hjob' := by
    obtain rfl : next = job' := Option.some.inj (hrow'.symm.trans hjob')
    exact ⟨hcount, hmax⟩
  archive row hrow := by
    replace hrow : d'.archive = some row := hrow
    rw [harchive, h.archive_none ‹_›] at hrow
    cases hrow
  knows := hknows

-- A job that has been moved to the archive.
theorem Accounted.move (h : Accounted v) (hrow : v.data.row = some job)
    {row : DLQJobArchive} {d' : JobData}
    (hs : d'.scheduled = v.data.scheduled) (hrow' : d'.row = none)
    (harchive : d'.archive = some row)
    (hcount : row.retry_count = d'.failures) (hmax : row.retry_count = row.max_retries) :
      Accounted ⟨d', .free⟩ where
  unscheduled hun := by
    rw [hs, h.scheduled hrow] at hun
    cases hun
  one _ := by
    show d'.row.isSome = !d'.archive.isSome
    rw [hrow', harchive]
    rfl
  row job' hjob' := by
    rw [hrow'] at hjob'
    cases hjob'
  archive row' h' := by
    obtain rfl : row = row' := Option.some.inj (harchive.symm.trans h')
    exact ⟨hcount, hmax⟩
  knows := trivial

theorem Accounted.step (h : Accounted v) (hstep : JobStep True f v v') : Accounted v' := by
  cases hstep with
  | schedule hnew hcount hpending hmax =>
      rename_i d ph job
      obtain ⟨-, harchive, hfailures, hphase⟩ := h.unscheduled hnew
      replace hphase : ph = .free := hphase
      subst hphase
      have hpos : 0 < job.max_retries := hmax trivial
      refine ⟨nofun, fun _ => by
        simp [show d.archive = none from harchive], fun job' hjob' => ?_,
        fun row hrow => ?_, trivial⟩
      · cases hjob'
        exact ⟨by rw [hcount]; exact hfailures.symm, hcount ▸ hpos⟩
      · rw [show d.archive = none from harchive] at hrow
        cases hrow
  | take hrow hpending =>
      obtain ⟨hcount, hmax⟩ := h.row _ hrow
      exact h.keep hrow rfl hrow rfl hcount hmax hrow
  | start =>
      obtain ⟨hcount, hmax⟩ := h.row _ h.knows
      exact h.keep h.knows rfl h.knows rfl hcount hmax h.knows
  | lock hrow hpending =>
      obtain ⟨hcount, hmax⟩ := h.row _ hrow
      exact h.keep hrow rfl hrow rfl hcount hmax hrow
  | returned =>
      obtain ⟨hcount, hmax⟩ := h.row _ h.knows
      refine h.keep h.knows rfl h.knows rfl hcount hmax
        ⟨Option.isSome_iff_exists.mpr ⟨_, h.knows⟩, ?_⟩
      exact ⟨hcount, hcount ▸ hmax⟩
  | raised hwrite =>
      obtain ⟨hcount, hmax⟩ := h.row _ h.knows
      obtain ⟨hcounts, hnot⟩ := handle_counts hmax hwrite
      refine h.keep h.knows rfl h.knows rfl ?_ hmax ⟨Option.isSome_iff_exists.mpr ⟨_, h.knows⟩, ?_⟩
      · rw [owed_of_not_completed hnot]
        exact congrArg (· + 1) hcount
      · exact (show _ = _ from hcount) ▸ hcounts
  | commit =>
      rename_i d write
      obtain ⟨hsome, hcounts⟩ := h.knows
      obtain ⟨job, hrow⟩ := Option.isSome_iff_exists.mp hsome
      cases write with
      | update next => exact h.keep hrow rfl rfl rfl hcounts.1 (hcounts.1 ▸ hcounts.2) trivial
      | archive row => exact h.move hrow rfl rfl rfl hcounts.1 (hcounts.1.trans hcounts.2)
  | completed =>
      obtain ⟨hcount, hmax⟩ := h.row _ h.knows
      exact h.keep h.knows rfl rfl rfl hcount hmax trivial
  | rejected =>
      obtain ⟨hcount, hmax⟩ := h.row _ h.knows
      exact h.keep h.knows rfl h.knows rfl (congrArg (· + 1) hcount) hmax
        (Option.isSome_iff_exists.mpr ⟨_, h.knows⟩)
  | reload hrow hwrite =>
      obtain ⟨hcount, hmax⟩ := h.row _ hrow
      exact h.keep hrow rfl hrow rfl hcount hmax ⟨_, _, _, hrow, rfl, rfl, hwrite⟩
  | gone hgone =>
      have hsome : Option.isSome _ = true := h.knows
      rw [show _ = none from hgone trivial] at hsome
      cases hsome
  | recorded hrow =>
      rename_i d loaded new current
      obtain ⟨job, error_msg, now, hjob, hretry, hmax, hwrite⟩ := h.knows
      obtain rfl : current = job := Option.some.inj (hrow.symm.trans hjob)
      obtain ⟨hcount, hlt⟩ := h.row _ hrow
      obtain ⟨hcounts, -⟩ := handle_counts (hmax ▸ hretry ▸ hlt) hwrite
      have hnew : new.retry_count = loaded.retry_count + 1 := hcounts.1
      have hflush : (loaded.flush new current).retry_count = current.retry_count + 1 := by
        simp [DLQJob.flush, updated, hnew, hretry]
      refine h.keep hrow rfl rfl rfl ?_ ?_ trivial
      · rw [hflush]
        exact hcount
      · rw [hflush, hretry]
        exact (show current.max_retries = loaded.max_retries from hmax) ▸ lt_of_handle_update hwrite
  | archived hnew =>
      rename_i d loaded row
      obtain ⟨job, error_msg, now, hjob, hretry, hmax, hwrite⟩ := h.knows
      obtain ⟨hcount, hlt⟩ := h.row _ hjob
      obtain ⟨hcounts, -⟩ := handle_counts (hmax ▸ hretry ▸ hlt) hwrite
      refine h.move hjob rfl rfl rfl ?_ (hcounts.1.trans hcounts.2)
      rw [hcounts.1, ← hretry]
      exact hcount
  | stale hstale =>
      obtain ⟨job, error_msg, now, hjob, -⟩ := h.knows
      rcases hstale with hnone | hsome
      · rw [show _ = some job from hjob] at hnone
        cases hnone
      · rw [show _ = none from h.archive_none hjob] at hsome
        cases hsome
  | cancel hrow hunlocked hfinal =>
      rename_i d ph job
      obtain ⟨hcount, hlt⟩ := h.row _ hrow
      refine h.keep hrow rfl rfl rfl hcount hlt ?_
      cases ph with
      | free => trivial
      | failed error_msg => exact rfl
      | handled loaded write =>
          obtain ⟨job', error_msg, now, hjob, hretry, hmax, hwrite⟩ := h.knows
          obtain rfl : job = job' := Option.some.inj (hrow.symm.trans hjob)
          exact ⟨_, error_msg, now, rfl, hretry, hmax, hwrite⟩
      | _ => cases hunlocked
  | undo hcounted => exact absurd trivial hcounted
  | overflow hcounted => exact absurd trivial hcounted
  | lost hcounted => exact absurd trivial hcounted

end Views

-- A manual dispatch that has failed keeps its job to itself until the failure is recorded,
-- and every statement succeeds.
def Kept (s : DlqSystem) (e : DlqEvent) : Prop := Lockable s e ∧ Counted s e

section Runs

variable {s : DlqSystem} {i j : TaskId} {k : JobId}

theorem base_initial (h : s.Initial) : Base s := by
  obtain ⟨-, htables, -, -, -, -, hidle⟩ := h
  refine ⟨fun k => .inl (htables k).2.2.1, fun i => ?_⟩
  rw [hidle i]
  refine ⟨fun k => ?_, fun k => ?_, List.nodup_nil⟩
  · simp [(htables k).2.2.1, DlqPc.held]
  · simp [(htables k).2.2.2, DlqPc.window]

-- A job that has not been scheduled.
theorem view_initial (h : s.Initial) (k : JobId) :
    s.view k = ⟨⟨false, none, none, 0, 0, [], false⟩, .free⟩ := by
  obtain ⟨hid, htables, hstarted, hfailures, hdispatched, hcancelled, -⟩ := h
  obtain ⟨hjobs, harchive, hlocks, hhandling⟩ := htables k
  simp [DlqSystem.view, DlqStore.data, DlqSystem.phase, DlqStore.owner, hid, hjobs, harchive,
    hlocks, hhandling,
    hstarted, hfailures, hdispatched, hcancelled]

theorem accounted_of_reach (hr : Reach (DlqSystem.step dumps) DlqSystem.Initial Kept s) :
    Base s ∧ ∀ k, Accounted (s.view k) := by
  refine hr.invariant (I := fun s => Base s ∧ ∀ k, Accounted (s.view k))
    (fun s hs => ⟨base_initial hs, fun k => ?_⟩)
    fun s e s' _ hI hok hstep => ?_
  · rw [view_initial hs]
    exact ⟨fun _ => ⟨rfl, rfl, rfl, rfl⟩, nofun, nofun, nofun, trivial⟩
  · obtain ⟨hbase, hmoves⟩ := step_moves hI.1 hok.1 hstep
    refine ⟨hbase, fun k => ?_⟩
    rcases hmoves k with hsame | hmove
    · rw [hsame]
      exact hI.2 k
    · rw [eq_true hok.2] at hmove
      exact (hI.2 k).step hmove

-- The jobs that a call is dispatching.
def DlqPc.dispatching : DlqPc → List JobId
  | .dispatch group _ _ => group.map Prod.fst
  | .manual_dispatch k _ => [k]
  | _ => []

theorem dispatching_held {pc : DlqPc} (h : k ∈ pc.dispatching) : k ∈ pc.held := by
  cases pc with
  | dispatch group groups done => exact List.mem_append_left _ (List.mem_append_left _ h)
  | manual_dispatch k' job => exact h
  | _ => cases h

theorem Base.dispatching_unique (h : Base s) (hi : k ∈ (s.procs i).dispatching)
    (hj : k ∈ (s.procs j).dispatching) :
    i = j := by
  have hlocki := ((h.owned i).locked k).mpr (dispatching_held hi)
  have hlockj := ((h.owned j).locked k).mpr (dispatching_held hj)
  exact Option.some.inj (hlocki.symm.trans hlockj)

-- A scheduled job is in one of the two tables, its failures are counted, it is archived with
-- the last of them, and no two dispatches of it overlap.
theorem failures_accounted (hr : Reach (DlqSystem.step dumps) DlqSystem.Initial Kept s) :
    (∀ k < s.store.next_id, (s.store.jobs k).isSome = !(s.store.archive k).isSome) ∧
    (∀ k job, s.store.jobs k = some job →
      job.retry_count + (s.phase k).owed = s.store.failures.count k ∧
        job.retry_count < job.max_retries) ∧
    (∀ k row, s.store.archive k = some row →
      row.retry_count = s.store.failures.count k ∧ row.retry_count = row.max_retries) ∧
    ∀ i j k, k ∈ (s.procs i).dispatching → k ∈ (s.procs j).dispatching → i = j := by
  obtain ⟨hbase, hjobs⟩ := accounted_of_reach hr
  exact ⟨fun k hk => (hjobs k).one (decide_eq_true hk), fun k job hjob => (hjobs k).row job hjob,
    fun k row hrow => (hjobs k).archive row hrow, fun i j k hi hj => hbase.dispatching_unique hi hj⟩

end Runs

section Examples

instance (s : DlqStore) : DecidablePred (DlqPc.lockable s)
  | .manual k => inferInstanceAs (Decidable (s.handling k = none))
  | .idle | .poll _ | .pipeline _ | .batch _ _ | .dispatch _ _ _
  | .manual_dispatch _ _ | .failed _ _
  | .handled _ _ _ | .cancel _ | .cancelling _ _ => .isTrue trivial

instance (s : DlqSystem) : DecidablePred (Lockable s)
  | .select _ jobs => inferInstanceAs (Decidable (∀ k ∈ jobs, s.store.handling k = none))
  | .go i => inferInstanceAs (Decidable ((s.procs i).lockable s.store))
  | .tick _ | .schedule _ _ _ _ | .poll _ | .dispatch_pipeline _ _ | .dispatch_job _ _
  | .cancel _ _ | .outcome _ _
  | .abort _ => .isTrue trivial

instance (job : DLQJob) (now : Int) : Decidable (job.fits now) :=
  inferInstanceAs (Decidable (job.retry_count + 1 < job.max_retries →
    now + calculate_backoff (job.retry_count + 1) * minute ≤ DATETIME_MAX))

instance (s : DlqStore) : DecidablePred (DlqPc.fits s)
  | .dispatch group _ _ => inferInstanceAs (Decidable (∀ p ∈ group, p.2.fits s.clock))
  | .failed k _ => inferInstanceAs (Decidable (∀ job ∈ s.jobs k, job.fits s.clock))
  | .idle | .poll _ | .pipeline _ | .batch _ _ | .manual _ | .manual_dispatch _ _
  | .handled _ _ _ | .cancel _
  | .cancelling _ _ => .isTrue trivial

instance (s : DlqSystem) : DecidablePred (Counted s)
  | .schedule _ _ _ max_retries => inferInstanceAs (Decidable (1 ≤ max_retries))
  | .go i => inferInstanceAs (Decidable ((s.procs i).fits s.store))
  | .outcome i outcome =>
      inferInstanceAs (Decidable (outcome.saved ∧ (outcome.raises → (s.procs i).fits s.store)))
  | .abort _ => .isFalse id
  | .tick _ | .poll _ | .dispatch_pipeline _ _ | .dispatch_job _ _ | .cancel _ _
  | .select _ _ => .isTrue trivial

instance (s : DlqSystem) (e : DlqEvent) : Decidable (Kept s e) :=
  inferInstanceAs (Decidable (Lockable s e ∧ Counted s e))

def emptyDlq : DlqSystem where
  store :=
    { clock := 0, next_id := 0, jobs := fun _ => none, archive := fun _ => none
      locks := fun _ => none
      handling := fun _ => none, started := [], failures := [], dispatched := [], cancelled := [] }
  procs _ := .idle

theorem initial_emptyDlq : emptyDlq.Initial :=
  ⟨rfl, fun _ => ⟨rfl, rfl, rfl, rfl⟩, rfl, rfl, rfl, rfl, fun _ => rfl⟩

-- A manual dispatch fails, and re-reads the job. A poll dispatches it before that failure is
-- written, and fails too: two failures leave a count of one.
theorem failure_lost : ¬ ∀ (dumps : Params → String) (s : DlqSystem),
    Reach (DlqSystem.step dumps) DlqSystem.Initial Counted s → ∀ k job, s.store.jobs k = some job →
      job.retry_count + (s.phase k).owed = s.store.failures.count k := by
  intro h
  obtain ⟨s, hr, -, htest⟩ := Reach.replay (DlqSystem.step fun _ => "{}") DlqSystem.Initial Counted
    (fun s e => decide (Counted s e)) (fun _ _ => of_decide_eq_true) initial_emptyDlq
    [.schedule "orders" .empty 0 5, .poll 2, .dispatch_job 1 0, .go 1,
      .outcome 1 (.raised "down"), .go 1,
      .select 2 [0], .go 2, .outcome 2 (.raised "down"), .go 2, .go 1]
    (fun s => (s.store.jobs 0).any fun job => job.retry_count + (s.phase 0).owed ≠
      s.store.failures.count 0)
    (by decide +kernel)
  obtain ⟨job, hjob, hne⟩ := Option.any_eq_true _ _ |>.mp htest
  exact of_decide_eq_true hne (h _ s hr 0 job hjob)

-- Two jobs, one of which fails twice and is archived, by a manual dispatch and a poll.
theorem failures_accounted_two :
    ∃ s, Reach (DlqSystem.step fun _ => "{}") DlqSystem.Initial Kept s ∧
    (s.store.archive 0).isSome ∧ s.store.failures.count 0 = 2 ∧
    (s.store.jobs 0).isSome = !(s.store.archive 0).isSome := by
  obtain ⟨s, hr, -, htest⟩ := Reach.replay (DlqSystem.step fun _ => "{}") DlqSystem.Initial Kept
    (fun s e => decide (Kept s e)) (fun _ _ => of_decide_eq_true) initial_emptyDlq
    [.schedule "orders" .empty 0 2, .schedule "orders" .empty 0 2, .dispatch_job 1 0, .go 1,
      .outcome 1 (.raised "down"),
      .go 1, .go 1, .tick 600000000, .poll 2, .select 2 [1, 0], .go 2,
        .outcome 2 (.raised "down"), .go 2]
    (fun s => 0 < s.store.next_id ∧ (s.store.archive 0).isSome ∧ s.store.failures.count 0 = 2)
      (by decide +kernel)
  obtain ⟨hid, harchive, hcount⟩ := of_decide_eq_true htest
  exact ⟨s, hr, harchive, hcount, (failures_accounted hr).1 0 hid⟩

end Examples

end Reflowfy.DLQScheduler
