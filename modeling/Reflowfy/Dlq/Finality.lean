import Reflowfy.Dlq.Accounting

namespace Reflowfy.DLQScheduler

open Interleaving

variable {dumps : Params → String} {c : Prop}

section Views

-- What the call that owns a job has not yet committed of it.
def Phase.Open (d : JobData) : Phase → Prop
  | .free => (∀ id ∈ d.dispatched, ∃ job, d.row = some job ∧ job.status = .completed ∧
      job.execution_id = some id) ∧
      (d.cancelled = true → ∃ job, d.row = some job ∧ job.status = .cancelled)
  | .taken job => d.row = some job ∧ job.status = .pending ∧ d.dispatched = [] ∧ d.cancelled = false
  | .running job => d.row = some job ∧ job.status = .pending ∧ d.dispatched = [] ∧
      d.cancelled = false
  | .written write => (∃ job, d.row = some job ∧ job.status = .pending) ∧ d.cancelled = false ∧
      ∀ id ∈ d.dispatched, ∃ job, write = .update job ∧ job.status = .completed ∧
        job.execution_id = some id
  | .failed _ => d.dispatched = [] ∧ d.cancelled = false
  | .handled _ _ => d.dispatched = [] ∧ d.cancelled = false

-- A job that has been dispatched is completed, or will be when its call commits; one that
-- has been cancelled stays so.
structure Settled (v : JobView) : Prop where
  unscheduled : v.data.scheduled = false → v.data.row = none ∧ v.data.archive = none ∧
    v.data.dispatched = [] ∧
    v.data.cancelled = false ∧ v.phase = .free
  archive : ∀ job, v.data.row = some job → v.data.archive = none
  isOpen : v.phase.Open v.data

variable {v v' : JobView} {job : DLQJob} {d d' : JobData} {ph : Phase}

theorem Settled.scheduled (h : Settled v) (hrow : v.data.row = some job) :
    v.data.scheduled = true := by
  cases hs : v.data.scheduled with
  | false =>
      rw [(h.unscheduled hs).1] at hrow
      cases hrow
  | true => rfl

theorem Settled.scheduled_of_phase (h : Settled v) (hph : v.phase ≠ .free) :
    v.data.scheduled = true := by
  cases hs : v.data.scheduled with
  | false => exact absurd (h.unscheduled hs).2.2.2.2 hph
  | true => rfl

-- What a step leaves of a scheduled job, unless it moves it to the archive.
theorem Settled.keep (h : Settled v) (hs : v.data.scheduled = true)
    (hs' : d'.scheduled = v.data.scheduled)
    (harchive : d'.row = none ∨ d'.archive = v.data.archive ∧
      (d'.row = v.data.row ∨ ∃ job, v.data.row = some job))
    (hopen : ph.Open d') : Settled ⟨d', ph⟩ where
  unscheduled hun := by
    rw [hs', hs] at hun
    cases hun
  archive job hjob := by
    replace hjob : d'.row = some job := hjob
    show d'.archive = none
    rcases harchive with hnone | ⟨hsame, hrow | ⟨job', hrow⟩⟩
    · rw [hnone] at hjob
      cases hjob
    · rw [hsame]
      exact h.archive job (hrow ▸ hjob)
    · rw [hsame]
      exact h.archive job' hrow
  isOpen := hopen

-- A call that has dispatched nothing for the job can end.
theorem open_free (hdispatched : d.dispatched = []) (hcancelled : d.cancelled = false) :
    Phase.Open d .free := by
  refine ⟨fun id hid => ?_, fun hc => ?_⟩
  · rw [hdispatched] at hid
    cases hid
  · rw [hcancelled] at hc
    cases hc

-- A pending job that no call owns has neither been dispatched nor cancelled.
theorem Settled.of_pending (h : Settled ⟨d, .free⟩) (hrow : d.row = some job)
    (hpending : job.status = .pending) :
    d.dispatched = [] ∧ d.cancelled = false := by
  obtain ⟨hdone, hcancelled⟩ := h.isOpen
  refine ⟨List.eq_nil_iff_forall_not_mem.mpr fun id hid => ?_, Bool.eq_false_iff.mpr fun hc => ?_⟩
  · obtain ⟨job', hrow', hstatus, -⟩ := hdone id hid
    obtain rfl : job = job' := Option.some.inj (hrow.symm.trans hrow')
    rw [hpending] at hstatus
    cases hstatus
  · obtain ⟨job', hrow', hstatus⟩ := hcancelled hc
    obtain rfl : job = job' := Option.some.inj (hrow.symm.trans hrow')
    rw [hpending] at hstatus
    cases hstatus

-- A transaction that has nothing to undo but failures has dispatched nothing.
theorem Settled.undo (h : Settled ⟨d, ph⟩) (hnot : ph.completed = false) : Phase.Open d .free := by
  have hopen := h.isOpen
  cases ph with
  | free => exact hopen
  | taken job => exact open_free hopen.2.2.1 hopen.2.2.2
  | running job => exact open_free hopen.2.2.1 hopen.2.2.2
  | failed error_msg => exact open_free hopen.1 hopen.2
  | handled loaded write => exact open_free hopen.1 hopen.2
  | written write =>
      obtain ⟨-, hcancelled, hdone⟩ := hopen
      refine open_free (List.eq_nil_iff_forall_not_mem.mpr fun id hid => ?_) hcancelled
      obtain ⟨job, rfl, hstatus, -⟩ := hdone id hid
      simp [Phase.completed, JobWrite.completed, hstatus] at hnot

theorem Settled.step (h : Settled v) (hstep : JobStep c True v v') : Settled v' := by
  cases hstep with
  | schedule hnew hcount hpending hmax =>
      rename_i d ph job
      obtain ⟨-, harchive, hdispatched, hcancelled, hphase⟩ := h.unscheduled hnew
      replace hphase : ph = .free := hphase
      subst hphase
      exact ⟨nofun, fun _ _ => harchive, open_free hdispatched hcancelled⟩
  | take hrow hpending =>
      obtain ⟨hdispatched, hcancelled⟩ := h.of_pending hrow hpending
      exact h.keep (h.scheduled hrow) rfl (.inr ⟨rfl, .inl rfl⟩)
        ⟨hrow, hpending, hdispatched, hcancelled⟩
  | start => exact h.keep (h.scheduled h.isOpen.1) rfl (.inr ⟨rfl, .inl rfl⟩) h.isOpen
  | lock hrow hpending =>
      obtain ⟨hdispatched, hcancelled⟩ := h.of_pending hrow hpending
      exact h.keep (h.scheduled hrow) rfl (.inr ⟨rfl, .inl rfl⟩)
        ⟨hrow, hpending, hdispatched, hcancelled⟩
  | returned =>
      rename_i d job id now
      obtain ⟨hrow, hpending, hdispatched, hcancelled⟩ := h.isOpen
      refine h.keep (h.scheduled hrow) rfl (.inr ⟨rfl, .inl rfl⟩)
        ⟨⟨job, hrow, hpending⟩, hcancelled, fun id' hid => ?_⟩
      rw [show d.dispatched = [] from hdispatched, List.mem_singleton] at hid
      exact ⟨_, rfl, rfl, by rw [hid]; rfl⟩
  | raised hwrite =>
      rename_i d job error_msg now write
      obtain ⟨hrow, hpending, hdispatched, hcancelled⟩ := h.isOpen
      refine h.keep (h.scheduled hrow) rfl (.inr ⟨rfl, .inl rfl⟩)
        ⟨⟨job, hrow, hpending⟩, hcancelled, fun id hid => ?_⟩
      rw [show d.dispatched = [] from hdispatched] at hid
      cases hid
  | commit =>
      rename_i d write
      obtain ⟨⟨job, hrow, -⟩, hcancelled, hdone⟩ := h.isOpen
      cases write with
      | update next =>
          refine h.keep (h.scheduled hrow) rfl (.inr ⟨rfl, .inr ⟨job, hrow⟩⟩)
            ⟨fun id hid => ?_, fun hc => ?_⟩
          · obtain ⟨job', heq, hstatus, hid⟩ := hdone id hid
            cases heq
            exact ⟨_, rfl, hstatus, hid⟩
          · rw [show (d.write (.update next)).cancelled = false from hcancelled] at hc
            cases hc
      | archive row =>
          refine h.keep (h.scheduled hrow) rfl (.inl rfl)
            (open_free (List.eq_nil_iff_forall_not_mem.mpr fun id hid => ?_) hcancelled)
          obtain ⟨job', heq, -⟩ := hdone id hid
          cases heq
  | completed =>
      rename_i d job id now
      obtain ⟨hrow, hpending, hdispatched, hcancelled⟩ := h.isOpen
      refine h.keep (h.scheduled hrow) rfl (.inr ⟨rfl, .inr ⟨job, hrow⟩⟩)
        ⟨fun id' hid => ?_, fun hc => ?_⟩
      · rw [show d.dispatched = [] from hdispatched, List.mem_singleton] at hid
        exact ⟨_, rfl, rfl, by rw [hid]; rfl⟩
      · rw [show d.cancelled = false from hcancelled] at hc
        cases hc
  | rejected =>
      obtain ⟨hrow, hpending, hdispatched, hcancelled⟩ := h.isOpen
      exact h.keep (h.scheduled hrow) rfl (.inr ⟨rfl, .inl rfl⟩) ⟨hdispatched, hcancelled⟩
  | reload hrow hwrite => exact h.keep (h.scheduled hrow) rfl (.inr ⟨rfl, .inl rfl⟩) h.isOpen
  | gone hgone =>
      exact h.keep (h.scheduled_of_phase nofun) rfl (.inr ⟨rfl, .inl rfl⟩)
        (open_free h.isOpen.1 h.isOpen.2)
  | recorded hrow =>
      exact h.keep (h.scheduled hrow) rfl (.inr ⟨rfl, .inr ⟨_, hrow⟩⟩)
        (open_free h.isOpen.1 h.isOpen.2)
  | archived hnew =>
      exact h.keep (h.scheduled_of_phase nofun) rfl (.inl rfl) (open_free h.isOpen.1 h.isOpen.2)
  | stale hstale =>
      exact h.keep (h.scheduled_of_phase nofun) rfl (.inr ⟨rfl, .inl rfl⟩)
        (open_free h.isOpen.1 h.isOpen.2)
  | cancel hrow hunlocked hfinal =>
      rename_i d ph job
      obtain ⟨rfl, hpending⟩ := hfinal trivial
      refine h.keep (h.scheduled hrow) rfl (.inr ⟨rfl, .inr ⟨job, hrow⟩⟩)
        ⟨fun id hid => ?_, fun _ => ⟨_, rfl, rfl⟩⟩
      rw [show d.dispatched = [] from (h.of_pending hrow hpending).1] at hid
      cases hid
  | undo hcounted hfinal =>
      rename_i d ph
      have hopen := h.undo (hfinal trivial)
      exact ⟨fun hun => ⟨(h.unscheduled hun).1, (h.unscheduled hun).2.1, (h.unscheduled hun).2.2.1,
        (h.unscheduled hun).2.2.2.1, rfl⟩, h.archive, hopen⟩
  | overflow hcounted =>
      obtain ⟨hrow, hpending, hdispatched, hcancelled⟩ := h.isOpen
      exact h.keep (h.scheduled hrow) rfl (.inr ⟨rfl, .inl rfl⟩) (open_free hdispatched hcancelled)
  | lost hcounted hfinal => exact absurd trivial hfinal

-- The job has been run, or cancelled.
def Finished (d : JobData) : Prop := d.dispatched ≠ [] ∨ d.cancelled = true

theorem Settled.not_finished (h : Settled ⟨d, ph⟩) (hph : ph = .taken job ∨ ph = .running job) :
    ¬ Finished d := by
  rintro (hdone | hcancelled)
  · rcases hph with rfl | rfl
    · exact hdone h.isOpen.2.2.1
    · exact hdone h.isOpen.2.2.1
  · rcases hph with rfl | rfl
    · exact Bool.false_ne_true (h.isOpen.2.2.2.symm.trans hcancelled)
    · exact Bool.false_ne_true (h.isOpen.2.2.2.symm.trans hcancelled)

-- It is not run again, and neither can be undone.
theorem Settled.finished_step (h : Settled v) (hfinished : Finished v.data)
    (hstep : JobStep c True v v') :
    v'.data.started = v.data.started ∧ v'.data.dispatched = v.data.dispatched ∧
      (v.data.cancelled = true → v'.data.cancelled = true) := by
  cases hstep with
  | start => exact absurd hfinished (h.not_finished (.inl rfl))
  | lock hrow hpending =>
      obtain ⟨hdispatched, hcancelled⟩ := h.of_pending hrow hpending
      rcases hfinished with hdone | hc
      · exact absurd hdispatched hdone
      · exact absurd (hcancelled.symm.trans hc) Bool.false_ne_true
  | returned => exact absurd hfinished (h.not_finished (.inr rfl))
  | completed => exact absurd hfinished (h.not_finished (.inr rfl))
  | commit =>
      rename_i d write
      cases write <;> exact ⟨rfl, rfl, id⟩
  | cancel => exact ⟨rfl, rfl, fun _ => rfl⟩
  | lost hcounted hfinal => exact absurd trivial hfinal
  | _ => exact ⟨rfl, rfl, id⟩

-- The row says that execution `id` has the job.
def Recorded (d : JobData) (id : ℕ) : Prop :=
  (∃ job, d.row = some job ∧ job.status = .completed ∧
    job.execution_id = some id) ∧ d.archive = none

theorem Settled.recorded (h : Settled ⟨d, ph⟩) {id : ℕ} (hid : id ∈ d.dispatched)
    (hunlocked : ph.unlocked) :
    Recorded d id := by
  have hopen := h.isOpen
  cases ph with
  | free =>
      obtain ⟨job, hrow, hdone⟩ := hopen.1 id hid
      exact ⟨⟨job, hrow, hdone⟩, h.archive job hrow⟩
  | failed error_msg => rw [show d.dispatched = [] from hopen.1] at hid; cases hid
  | handled loaded write => rw [show d.dispatched = [] from hopen.1] at hid; cases hid
  | _ => cases hunlocked

theorem Settled.recorded_step (h : Settled v) {id : ℕ} (hid : id ∈ v.data.dispatched)
    (hrecorded : Recorded v.data id) (hstep : JobStep c True v v') : Recorded v'.data id := by
  obtain ⟨⟨job, hrow, hstatus, hexec⟩, harchive⟩ := hrecorded
  have hpending : ∀ job', v.data.row = some job' → job'.status ≠ .pending := by
    intro job' hrow' hpending
    obtain rfl : job = job' := Option.some.inj (hrow.symm.trans hrow')
    rw [hstatus] at hpending
    cases hpending
  cases hstep with
  | schedule hnew =>
      rw [(h.unscheduled hnew).1] at hrow
      cases hrow
  | take hrow' hpending' => exact absurd hpending' (hpending _ hrow')
  | start => exact absurd h.isOpen.2.1 (hpending _ h.isOpen.1)
  | lock hrow' hpending' => exact absurd hpending' (hpending _ hrow')
  | returned => exact absurd h.isOpen.2.1 (hpending _ h.isOpen.1)
  | raised => exact absurd h.isOpen.2.1 (hpending _ h.isOpen.1)
  | completed => exact absurd h.isOpen.2.1 (hpending _ h.isOpen.1)
  | rejected => exact absurd h.isOpen.2.1 (hpending _ h.isOpen.1)
  | overflow => exact absurd h.isOpen.2.1 (hpending _ h.isOpen.1)
  | commit =>
      obtain ⟨⟨job', hrow', hpending'⟩, -⟩ := h.isOpen
      exact absurd hpending' (hpending _ hrow')
  | recorded => rw [show _ = [] from h.isOpen.1] at hid; cases hid
  | archived => rw [show _ = [] from h.isOpen.1] at hid; cases hid
  | cancel hrow' hunlocked hfinal =>
      exact absurd (hfinal trivial).2 (hpending _ hrow')
  | lost hcounted hfinal => exact absurd trivial hfinal
  | _ => exact ⟨⟨job, hrow, hstatus, hexec⟩, harchive⟩

end Views

theorem Settled.cancelled_nil {v : JobView} (h : Settled v) (hcancelled : v.data.cancelled = true) :
    v.data.dispatched = [] := by
  obtain ⟨d, ph⟩ := v
  have hopen := h.isOpen
  cases ph with
  | free =>
      obtain ⟨job, hrow, hstatus⟩ := hopen.2 hcancelled
      refine List.eq_nil_iff_forall_not_mem.mpr fun id hid => ?_
      obtain ⟨job', hrow', hcompleted, -⟩ := hopen.1 id hid
      obtain rfl : job = job' := Option.some.inj (hrow.symm.trans hrow')
      rw [hstatus] at hcompleted
      cases hcompleted
  | taken job => exact hopen.2.2.1
  | running job => exact hopen.2.2.1
  | written write => exact absurd (hopen.2.1.symm.trans hcancelled) Bool.false_ne_true
  | failed error_msg => exact hopen.1
  | handled loaded write => exact hopen.1

-- A manual dispatch that has failed keeps its job to itself until the failure is recorded, no
-- call commits between the SELECT of a cancel and its UPDATE, and no success is rolled back.
def Settles (s : DlqSystem) (e : DlqEvent) : Prop := Lockable s e ∧ Final s e

-- The job is in `dlq_jobs`, as completed by this execution.
def CompletedBy (s : DlqStore) (k : JobId) (id : ℕ) : Prop :=
  (∃ job, s.jobs k = some job ∧ job.status = .completed ∧ job.execution_id = some id) ∧
    s.archive k = none

section Runs

variable {s s' : DlqSystem} {k : JobId} {id : ℕ}

theorem settled_initial (h : s.Initial) : Base s ∧ ∀ k, Settled (s.view k) := by
  refine ⟨base_initial h, fun k => ?_⟩
  rw [view_initial h]
  exact ⟨fun _ => ⟨rfl, rfl, rfl, rfl, rfl⟩, nofun, open_free rfl rfl⟩

theorem settled_step (h : Base s ∧ ∀ k, Settled (s.view k)) {e : DlqEvent} (hok : Settles s e)
    (hstep : s.step dumps e = some s') :
    (Base s' ∧ ∀ k, Settled (s'.view k)) ∧
    ∀ k, Moves (Counted s e) True (s.view k) (s'.view k) := by
  obtain ⟨hbase, hmoves⟩ := step_moves h.1 hok.1 hstep
  rw [eq_true hok.2] at hmoves
  refine ⟨⟨hbase, fun k => ?_⟩, hmoves⟩
  rcases hmoves k with hsame | hmove
  · rw [hsame]
    exact h.2 k
  · exact (h.2 k).step hmove

theorem settled_of_reach (hr : Reach (DlqSystem.step dumps) DlqSystem.Initial Settles s) :
    Base s ∧ ∀ k, Settled (s.view k) :=
  hr.invariant (fun _ hs => settled_initial hs) fun _ _ _ _ h hok hstep =>
    (settled_step h hok hstep).1

-- What a run keeps of a job that was finished when it began.
def KeepsFinished (s s' : DlqSystem) : Prop := ∀ k, Finished (s.store.data k) →
  (s'.store.data k).started = (s.store.data k).started ∧
    (s'.store.data k).dispatched = (s.store.data k).dispatched ∧
    ((s.store.data k).cancelled = true → (s'.store.data k).cancelled = true) ∧
    ∀ id ∈ (s.store.data k).dispatched, Recorded (s.store.data k) id → Recorded (s'.store.data k) id

theorem KeepsFinished.step {m : DlqSystem} (h : KeepsFinished s m)
    (hm : ∀ k, Settled (m.view k)) {c : Prop}
    (hmoves : ∀ k, Moves c True (m.view k) (s'.view k)) : KeepsFinished s s' := by
  intro k hk
  obtain ⟨hstarted, hdispatched, hcancelled, hrecorded⟩ := h k hk
  rcases hmoves k with hsame | hmove
  · have hdata : s'.store.data k = m.store.data k := congrArg JobView.data hsame
    rw [hdata]
    exact ⟨hstarted, hdispatched, hcancelled, hrecorded⟩
  · have hfinished : Finished (m.view k).data := by
      rcases hk with hdone | hc
      · exact .inl (by rw [show (m.view k).data.dispatched = _ from hdispatched]; exact hdone)
      · exact .inr (hcancelled hc)
    obtain ⟨hstarted', hdispatched', hcancelled'⟩ := (hm k).finished_step hfinished hmove
    refine ⟨hstarted'.trans hstarted, hdispatched'.trans hdispatched,
      fun hc => hcancelled' (hcancelled hc),
      fun id hid hrec => ?_⟩
    exact (hm k).recorded_step
      (show id ∈ (m.store.data k).dispatched by rw [hdispatched]; exact hid)
      (hrecorded id hid hrec) hmove

theorem keepsFinished_of_path (hr : Reach (DlqSystem.step dumps) DlqSystem.Initial Settles s)
    (hp : Path (DlqSystem.step dumps) Settles s s') :
    (Base s' ∧ ∀ k, Settled (s'.view k)) ∧ KeepsFinished s s' := by
  refine hp.invariant (I := fun m => (Base m ∧ ∀ k, Settled (m.view k)) ∧ KeepsFinished s m)
    (fun m e m' h hok hstep => ?_)
      ⟨settled_of_reach hr, fun k _ => ⟨rfl, rfl, fun h => h, fun _ _ h => h⟩⟩
  obtain ⟨hsettled, hmoves⟩ := settled_step h.1 hok hstep
  exact ⟨hsettled, h.2.step h.1.2 hmoves⟩

theorem mem_dispatched {s : DlqStore} :
    id ∈ (s.data k).dispatched ↔ ∃ d ∈ s.dispatched, k ∈ d.dlq_job_ids ∧ d.execution_id = id := by
  simp [DlqStore.data, List.mem_map, List.mem_filter, and_assoc]

theorem Base.unlocked (h : Base s) (hfree : s.store.locks k = none) : (s.phase k).unlocked := by
  cases howner : s.store.owner k with
  | none => simp [DlqSystem.phase, howner, Phase.unlocked]
  | some i =>
      have hhandling : s.store.handling k = some i := by simpa [DlqStore.owner, hfree] using howner
      rw [Base.phase_of_owner howner]
      exact window_unlocked (((h.owned i).handling k).mp hhandling)

-- A job that has been dispatched is not dispatched again, is recorded so once its call has
-- committed, and stays recorded; a job that has been cancelled is never dispatched.
theorem success_final (hr : Reach (DlqSystem.step dumps) DlqSystem.Initial Settles s)
    (hp : Path (DlqSystem.step dumps) Settles s s') :
    (∀ d ∈ s.store.dispatched, ∀ k ∈ d.dlq_job_ids,
      s'.store.started.count k = s.store.started.count k ∧
      (s'.store.locks k = none → CompletedBy s'.store k d.execution_id) ∧
      (CompletedBy s.store k d.execution_id → CompletedBy s'.store k d.execution_id)) ∧
    ∀ k ∈ s.store.cancelled, s'.store.started.count k = s.store.started.count k ∧
      ∀ d ∈ s'.store.dispatched, k ∉ d.dlq_job_ids := by
  obtain ⟨⟨hbase, hsettled⟩, hkeeps⟩ := keepsFinished_of_path hr hp
  refine ⟨fun d hd k hk => ?_, fun k hk => ?_⟩
  · have hid : d.execution_id ∈ (s.store.data k).dispatched := mem_dispatched.mpr ⟨d, hd, hk, rfl⟩
    obtain ⟨hstarted, hdispatched, -, hrecorded⟩ := hkeeps k (.inl (List.ne_nil_of_mem hid))
    exact ⟨hstarted, fun hfree => (hsettled k).recorded (hdispatched ▸ hid)
      (hbase.unlocked hfree), hrecorded _ hid⟩
  · have hcancelled : (s.store.data k).cancelled = true := decide_eq_true hk
    obtain ⟨hstarted, hdispatched, -, -⟩ := hkeeps k (.inr hcancelled)
    refine ⟨hstarted, fun d hd hmem => ?_⟩
    have hid : d.execution_id ∈ (s'.store.data k).dispatched :=
      mem_dispatched.mpr ⟨d, hd, hmem, rfl⟩
    rw [hdispatched, show (s.store.data k).dispatched = [] from
      ((settled_of_reach hr).2 k).cancelled_nil hcancelled] at hid
    cases hid

end Runs

section Examples

instance : DecidablePred DlqPc.unfinished
  | .batch _ done => inferInstanceAs (Decidable (∀ p ∈ done, p.2.completed = false))
  | .dispatch _ _ done => inferInstanceAs (Decidable (∀ p ∈ done, p.2.completed = false))
  | .idle | .poll _ | .pipeline _ | .manual _ | .manual_dispatch _ _ | .failed _ _
  | .handled _ _ _ | .cancel _
  | .cancelling _ _ => .isTrue trivial

instance (s : DlqStore) : DecidablePred (DlqPc.undisturbed s)
  | .cancelling k loaded =>
      inferInstanceAs (Decidable
        (s.handling k = none ∧ ∀ job ∈ s.jobs k, job.status = loaded.1.status))
  | .idle | .poll _ | .pipeline _ | .batch _ _ | .dispatch _ _ _ | .manual _
  | .manual_dispatch _ _ | .failed _ _
  | .handled _ _ _ | .cancel _ => .isTrue trivial

instance (s : DlqSystem) : DecidablePred (Final s)
  | .go i => inferInstanceAs (Decidable ((s.procs i).undisturbed s.store))
  | .outcome i outcome => inferInstanceAs (Decidable (outcome.saved ∧
      (outcome.raises → (s.procs i).unfinished ∨ (s.procs i).fits s.store)))
  | .abort i => inferInstanceAs (Decidable ((s.procs i).unfinished))
  | .tick _ | .schedule _ _ _ _ | .poll _ | .dispatch_pipeline _ _ | .dispatch_job _ _
  | .cancel _ _ | .select _ _ =>
      .isTrue trivial

instance (s : DlqSystem) (e : DlqEvent) : Decidable (Settles s e) :=
  inferInstanceAs (Decidable (Lockable s e ∧ Final s e))

def status (s : DlqSystem) (k : JobId) : Option DLQStatus := (s.store.jobs k).map DLQJob.status

def completedRun : List DlqEvent :=
  [.schedule "orders" .empty 0 5, .cancel 1 0, .go 1, .poll 2, .select 2 [0], .go 2,
    .outcome 2 (.returned 7), .go 2]

-- A cancel reads a pending job, a poll completes it, and the cancel's write then takes the
-- completion back.
theorem success_cancelled : ¬ ∀ (dumps : Params → String) (s s' : DlqSystem),
    Reach (DlqSystem.step dumps) DlqSystem.Initial (fun _ _ => True) s →
      Path (DlqSystem.step dumps) (fun _ _ => True) s s' →
      ∀ d ∈ s.store.dispatched, ∀ k ∈ d.dlq_job_ids,
        CompletedBy s.store k d.execution_id → CompletedBy s'.store k d.execution_id := by
  intro h
  obtain ⟨s, hr, hs, htest⟩ := Reach.replay (DlqSystem.step fun _ => "{}")
    DlqSystem.Initial (fun _ _ => True)
    (fun _ _ => true) (fun _ _ _ => trivial) initial_emptyDlq completedRun
    (fun s => status s 0 = some .completed ∧ (s.store.jobs 0).bind DLQJob.execution_id = some 7 ∧
      (s.store.archive 0).isNone ∧
        s.store.dispatched.map (fun d => (d.execution_id, d.dlq_job_ids)) = [(7, [0])])
    (by decide +kernel)
  obtain ⟨s', hp, -, htest'⟩ := Path.replay (DlqSystem.step fun _ => "{}")
    (fun _ _ => True) (fun _ _ => true)
    (fun _ _ _ => trivial) (s := s) [.go 1] (fun s => status s 0 = some .cancelled)
    (by rw [← replay_append [.go 1] hs]; decide +kernel)
  obtain ⟨hstatus, hexec, harchive, hlog⟩ := of_decide_eq_true htest
  obtain ⟨job, hjob, hcompleted⟩ := Option.map_eq_some_iff.mp hstatus
  obtain ⟨d, hd, hpair⟩ := List.mem_map.mp (hlog ▸ List.mem_singleton_self (7, [0]))
  obtain ⟨hid, hids⟩ := Prod.mk.inj hpair
  rw [hjob, Option.bind_some] at hexec
  obtain ⟨⟨job', hjob', hstill, -⟩, -⟩ := h _ s s' hr hp d hd 0
    (by rw [hids]; exact List.mem_singleton_self 0)
    ⟨⟨job, hjob, hcompleted, by rw [hexec, hid]⟩, Option.isNone_iff_eq_none.mp harchive⟩
  have hcancelled : status s' 0 = some .cancelled := of_decide_eq_true htest'
  rw [status, hjob', Option.map_some, hstill] at hcancelled
  cases hcancelled

-- One job is completed, another one cancelled between two of its dispatches.
theorem success_final_two : ∃ s, Reach (DlqSystem.step fun _ => "{}") DlqSystem.Initial Settles s ∧
    s.store.dispatched.map (fun d => (d.execution_id, d.dlq_job_ids)) = [(7, [0])] ∧
      1 ∈ s.store.cancelled ∧
    CompletedBy s.store 0 7 ∧ ∀ d ∈ s.store.dispatched, 1 ∉ d.dlq_job_ids := by
  obtain ⟨s, hr, -, htest⟩ := Reach.replay (DlqSystem.step fun _ => "{}") DlqSystem.Initial Settles
    (fun s e => decide (Settles s e)) (fun _ _ => of_decide_eq_true) initial_emptyDlq
    [.schedule "orders" .empty 0 5, .schedule "users" .empty 0 5, .cancel 1 1, .poll 2,
      .select 2 [1, 0], .go 1, .go 2,
      .outcome 2 (.raised "down"), .go 2, .outcome 2 (.returned 7), .go 2, .go 1, .abort 3]
    (fun s => s.store.dispatched.map (fun d => (d.execution_id, d.dlq_job_ids)) = [(7, [0])] ∧
      1 ∈ s.store.cancelled ∧ s.store.locks 0 = none) (by decide +kernel)
  obtain ⟨hlog, hcancelled, hfree⟩ := of_decide_eq_true htest
  obtain ⟨d, hd, hpair⟩ := List.mem_map.mp (hlog ▸ List.mem_singleton_self (7, [0]))
  obtain ⟨hid, hids⟩ := Prod.mk.inj hpair
  have hfinal := success_final hr .refl
  have hdone := (hfinal.1 d hd 0 (by rw [hids]; exact List.mem_singleton_self 0)).2.1 hfree
  exact ⟨s, hr, hlog, hcancelled, hid ▸ hdone, (hfinal.2 1 hcancelled).2⟩

end Examples

end Reflowfy.DLQScheduler
