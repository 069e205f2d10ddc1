import Reflowfy.Scheduler.Instants

namespace Reflowfy.PipelineScheduler

open Interleaving

variable {next_run : String → Int → Int} {schedules : List ScheduleKey}

section Advanced

-- An open poll has put all it has flushed behind its `now`.
def Advanced (s : ScheduleSystem) : Prop :=
  ∀ i now due done created, s.procs i = .trigger now due done created →
    ∀ p ∈ done, now < p.2.next_run_at

theorem Advanced.set {s : ScheduleSystem} {i : TaskId} {store : ScheduleStore}
    {pc : SchedulerPc} (h : Advanced s)
    (hpc : ∀ now due done created, pc = .trigger now due done created →
      ∀ p ∈ done, now < p.2.next_run_at) :
    Advanced (s.set i store pc) := by
  intro j now due done created hj
  by_cases hji : j = i
  · subst hji
    rw [Pool.set_procs_self] at hj
    exact hpc now due done created hj
  · rw [Pool.set_procs_of_ne s store pc hji] at hj
    exact h j now due done created hj

-- `go` never leaves a poll with schedules flushed.
theorem go_not_flushed {s store : ScheduleStore} {i : TaskId} {pc pc' : SchedulerPc}
    (hgo : pc.go next_run schedules i s = some (store, pc')) {now : Int} {due done : Writes}
    {created : List ScheduleKey} (hpc : pc' = .trigger now due done created) : done = [] := by
  subst hpc
  cases pc with
  | idle => cases hgo
  | poll =>
      simp only [SchedulerPc.go] at hgo
      split at hgo <;> cases hgo
      rfl
  | trigger _ due =>
      cases due with
      | nil => cases hgo
      | cons => cases hgo
  | reset => cases hgo
  | update _ loaded =>
      cases loaded with
      | nil => cases hgo
      | cons =>
          simp only [SchedulerPc.go] at hgo
          split at hgo
          · split at hgo <;> cases hgo
          · cases hgo

theorem advanced_step (hnext : ∀ cron t, t < next_run cron t) {s s' : ScheduleSystem}
    {e : ScheduleEvent}
    (h : Advanced s) (hstep : s.step next_run schedules e = some s') : Advanced s' := by
  cases e with
  | tick d => cases hstep; exact h
  | poll i =>
      simp only [ScheduleSystem.step] at hstep
      split at hstep <;> cases hstep
      exact h.set fun _ _ _ _ hpc => by cases hpc
  | run i pipeline_name =>
      simp only [ScheduleSystem.step] at hstep
      split at hstep <;> cases hstep
      exact h.set fun _ _ _ _ hpc => by cases hpc
  | abort i => cases hstep; exact h.set fun _ _ _ _ hpc => by cases hpc
  | go i =>
      obtain ⟨⟨store, pc⟩, hgo, rfl⟩ := Option.map_eq_some_iff.mp hstep
      refine h.set fun now due done created hpc p hp => ?_
      rw [go_not_flushed hgo hpc] at hp
      cases hp
  | trigger i k outcome uuid =>
      obtain ⟨⟨store, pc⟩, hgo, rfl⟩ := Option.map_eq_some_iff.mp hstep
      unfold SchedulerPc.trigger_pipeline at hgo
      split at hgo
      · rename_i now k' row due done created hproc
        split at hgo
        · cases hgo
          refine h.set fun now' due' done' created' hpc p hp => ?_
          cases hpc
          rcases List.mem_cons.mp hp with rfl | hp
          · exact hnext row.cron_expression now
          · exact h i now _ done created hproc p hp
        · cases hgo
      · cases hgo

theorem advanced_of_reach (hnext : ∀ cron t, t < next_run cron t) {s : ScheduleSystem}
    (hr : Reach (ScheduleSystem.step next_run schedules) ScheduleSystem.Initial
      (fun _ _ => True) s) : Advanced s :=
  hr.invariant (fun s hs i now due done created hi => by rw [hs.2.2 i] at hi; cases hi)
    fun _ _ _ _ h _ hstep => advanced_step hnext h hstep

-- The commit of a poll.
theorem next_run_at_after_commit {s s' : ScheduleSystem} (h : Advanced s) {i : TaskId}
    {now : Int} {done : Writes}
    {created : List ScheduleKey} (hproc : s.procs i = .trigger now [] done created)
    (hstep : s.step next_run schedules (.go i) = some s') :
    ∀ k ∈ done.map Prod.fst, now < (s'.store.row k).next_run_at := by
  intro k hk
  simp only [ScheduleSystem.step, hproc, SchedulerPc.go, Option.map_some,
    Option.some.injEq] at hstep
  subst hstep
  obtain ⟨row, hrow, hmem⟩ := exists_lookup_eq_some hk
  show now < ((done.lookup k).getD _).next_run_at
  rw [hrow]
  exact h i now [] done created hproc (k, row) hmem

end Advanced

section Blur

-- What is left of a state when the executions of schedule `k`, and which of them was the
-- last, are left out of it.
def PipelineSchedule.blur (k k' : ScheduleKey) (row : PipelineSchedule) : PipelineSchedule :=
  if k' = k then { row with last_execution_id := none } else row

def blurWrites (k : ScheduleKey) (writes : Writes) : Writes :=
  writes.map fun p => (p.1, p.2.blur k p.1)

def ScheduleStore.blur (k : ScheduleKey) (s : ScheduleStore) : ScheduleStore :=
  { s with
    row := fun k' => (s.row k').blur k k'
    executions := s.executions.filter fun f => f.schedule ≠ k }

def SchedulerPc.blur (k : ScheduleKey) : SchedulerPc → SchedulerPc
  | .trigger now due done created =>
      .trigger now (blurWrites k due) (blurWrites k done) (created.filter fun k' => k' ≠ k)
  | .update triggered_at loaded done => .update triggered_at (blurWrites k loaded)
      (blurWrites k done)
  | pc => pc

def ScheduleSystem.blur (k : ScheduleKey) (s : ScheduleSystem) : ScheduleSystem where
  store := s.store.blur k
  procs i := (s.procs i).blur k

variable {k : ScheduleKey}

@[simp] theorem blur_enabled (k' : ScheduleKey) (row : PipelineSchedule) :
    (row.blur k k').enabled = row.enabled := by
  unfold PipelineSchedule.blur
  split <;> rfl

@[simp] theorem blur_next_run_at (k' : ScheduleKey) (row : PipelineSchedule) :
    (row.blur k k').next_run_at = row.next_run_at := by
  unfold PipelineSchedule.blur
  split <;> rfl

@[simp] theorem blur_blur (k' : ScheduleKey) (row : PipelineSchedule) :
    (row.blur k k').blur k k' = row.blur k k' := by
  unfold PipelineSchedule.blur
  split <;> rfl

@[simp] theorem blur_of_ne {k' : ScheduleKey} (h : k' ≠ k) (row : PipelineSchedule) :
    row.blur k k' = row := if_neg h

theorem blur_trigger_self (next_run : String → Int → Int) (row : PipelineSchedule) (now : Int)
    (outcome outcome' : TriggerOutcome) (id id' : ScheduledId) :
    ((row.blur k k).trigger next_run now outcome id).blur k k =
    (row.trigger next_run now outcome' id').blur k k := by
  simp [PipelineSchedule.blur, PipelineSchedule.trigger]

theorem blur_dirty (k' : ScheduleKey) (row : PipelineSchedule) (t : Int) :
    (row.blur k k').dirty ((row.blur k k').reset next_run t) = row.dirty
    (row.reset next_run t) := by
  unfold PipelineSchedule.blur
  split <;> rfl

theorem blur_flush (k' : ScheduleKey) (row current : PipelineSchedule) (t : Int) :
    (row.blur k k').flush ((row.blur k k').reset next_run t) (current.blur k k') =
      (row.flush (row.reset next_run t) current).blur k k' := by
  unfold PipelineSchedule.blur
  split <;> rfl

theorem blurWrites_blurWrites (writes : Writes) :
    blurWrites k (blurWrites k writes) = blurWrites k writes := by
  simp [blurWrites, Function.comp_def]

theorem lookup_blurWrites (writes : Writes) (k' : ScheduleKey) :
    (blurWrites k writes).lookup k' = (writes.lookup k').map (PipelineSchedule.blur k k') := by
  induction writes with
  | nil => rfl
  | cons p writes ih =>
      obtain ⟨k₁, row⟩ := p
      simp only [blurWrites, List.map_cons, List.lookup_cons] at ih ⊢
      by_cases hk : k' == k₁
      · simp [eq_of_beq hk]
      · simp only [hk, ih]

theorem due_blur (s : ScheduleStore) (now : Int) :
    (s.blur k).due schedules now = s.due schedules now := by
  simp [ScheduleStore.due, ScheduleStore.blur]

theorem load_blur (s : ScheduleStore) (keys : List ScheduleKey) :
    (s.blur k).load keys = blurWrites k (s.load keys) := by
  simp [ScheduleStore.load, ScheduleStore.blur, blurWrites, Function.comp_def]

theorem enabled_blur (s : ScheduleStore) (pipeline_name : String) :
    (s.blur k).enabled schedules pipeline_name = s.enabled schedules pipeline_name := by
  simp [ScheduleStore.enabled, ScheduleStore.blur]

theorem commit_blur (s : ScheduleStore) (i : TaskId) (done : Writes) :
    (s.blur k).commit i (blurWrites k done) = (s.commit i done).blur k := by
  simp only [ScheduleStore.commit, ScheduleStore.blur, lookup_blurWrites]
  congr 1
  funext k'
  cases done.lookup k' <;> rfl

theorem blur_set (s : ScheduleSystem) (i : TaskId) (store : ScheduleStore) (pc : SchedulerPc) :
    ScheduleSystem.blur k (s.set i store pc) = (s.blur k).set i (store.blur k) (pc.blur k) := by
  simp only [ScheduleSystem.blur, Pool.set]
  congr 1
  funext j
  by_cases hj : j = i
  · simp [hj]
  · simp [hj]

theorem SchedulerPc.blur_blur (pc : SchedulerPc) : (pc.blur k).blur k = pc.blur k := by
  cases pc <;> simp [SchedulerPc.blur, blurWrites_blurWrites]

theorem ScheduleStore.blur_blur (s : ScheduleStore) : (s.blur k).blur k = s.blur k := by
  simp [ScheduleStore.blur]

def blurResult (k : ScheduleKey) (r : ScheduleStore × SchedulerPc) : ScheduleStore × SchedulerPc :=
  (r.1.blur k, r.2.blur k)

theorem blurResult_blurResult (r : ScheduleStore × SchedulerPc) :
    blurResult k (blurResult k r) = blurResult k r := by
  simp only [blurResult, ScheduleStore.blur_blur, SchedulerPc.blur_blur]

-- No other statement reads what is left out.
theorem go_blur (s : ScheduleStore) (i : TaskId) (pc : SchedulerPc) :
    (pc.blur k).go next_run schedules i (s.blur k) = (pc.go next_run schedules i s).map
    (blurResult k) := by
  cases pc with
  | idle => rfl
  | poll now =>
      simp only [SchedulerPc.blur, SchedulerPc.go, due_blur, load_blur]
      split <;> rfl
  | trigger now due done created =>
      cases due with
      | nil => exact congrArg some (Prod.ext (commit_blur s i done) rfl)
      | cons p due => rfl
  | reset pipeline_name triggered_at =>
      simp only [SchedulerPc.blur, SchedulerPc.go, enabled_blur, load_blur]
      rfl
  | update triggered_at loaded done =>
      cases loaded with
      | nil => exact congrArg some (Prod.ext (commit_blur s i done) rfl)
      | cons p rest =>
          obtain ⟨k', row⟩ := p
          simp only [SchedulerPc.blur, blurWrites, List.map_cons, SchedulerPc.go, blur_dirty]
          split
          · simp only [ScheduleStore.blur, blur_flush]
            split <;> rfl
          · rfl

-- The executions of `k`, and those of the others when the outcome is the same.
theorem trigger_blur (s : ScheduleStore) (pc : SchedulerPc) {k' : ScheduleKey}
    {outcome outcome' : TriggerOutcome}
    {uuid uuid' : ℕ} (hsame : k' = k ∨ (outcome = outcome' ∧ uuid = uuid')) :
    ((pc.blur k).trigger_pipeline next_run (s.blur k) k' outcome uuid).map (blurResult k) =
      (pc.trigger_pipeline next_run s k' outcome' uuid').map (blurResult k) := by
  cases pc with
  | trigger now due done created =>
      cases due with
      | nil => rfl
      | cons p due =>
          obtain ⟨k₁, row⟩ := p
          simp only [SchedulerPc.blur, blurWrites, List.map_cons, SchedulerPc.trigger_pipeline]
          by_cases hk₁ : k₁ = k'
          · subst hk₁
            simp only [if_true, Option.map_some, Option.some.injEq, blurResult, Prod.mk.injEq]
            by_cases hk : k₁ = k
            · subst hk
              refine ⟨?_, ?_⟩
              · cases outcome.created <;> cases outcome'.created <;>
                  simp [ScheduleStore.blur, ScheduleStore.create_execution]
              · simp only [SchedulerPc.blur, blurWrites, List.map_cons,
                  SchedulerPc.trigger.injEq, true_and,
                  blur_trigger_self next_run row now outcome outcome' _ ⟨k₁.schedule_name, uuid'⟩]
                refine ⟨blurWrites_blurWrites due, ?_, ?_⟩
                · exact congrArg _ (blurWrites_blurWrites done)
                · cases outcome.created <;> cases outcome'.created <;> simp
            · obtain ⟨rfl, rfl⟩ := hsame.resolve_left hk
              refine ⟨?_, ?_⟩
              · cases outcome.created <;>
                  simp [ScheduleStore.blur, ScheduleStore.create_execution, hk]
              · simp only [SchedulerPc.blur, blurWrites, List.map_cons,
                  SchedulerPc.trigger.injEq, true_and,
                  blur_of_ne hk]
                refine ⟨blurWrites_blurWrites due, ?_, ?_⟩
                · exact congrArg _ (blurWrites_blurWrites done)
                · cases outcome.created <;> simp [hk]
          · simp only [hk₁, if_false]
  | _ => rfl

-- Two events that differ at most in how a start of schedule `k` goes.
inductive SameBut (k : ScheduleKey) : ScheduleEvent → ScheduleEvent → Prop
  | refl (e : ScheduleEvent) : SameBut k e e
  | start (i : TaskId) (outcome outcome' : TriggerOutcome) (uuid uuid' : ℕ) :
      SameBut k (.trigger i k outcome uuid) (.trigger i k outcome' uuid')

theorem map_set_blur (s : ScheduleSystem) (i : TaskId) (r r' : Option (ScheduleStore × SchedulerPc))
    (h : r.map (blurResult k) = r'.map (blurResult k)) :
    (r.map fun r => (s.blur k).set i r.1 r.2).map (ScheduleSystem.blur k) =
      (r'.map fun r => s.set i r.1 r.2).map (ScheduleSystem.blur k) := by
  have hset : ∀ r : ScheduleStore × SchedulerPc, ScheduleSystem.blur k (s.set i r.1 r.2) =
      (s.blur k).set i (blurResult k r).1 (blurResult k r).2 := fun r => blur_set s i r.1 r.2
  have hset' : ∀ r : ScheduleStore × SchedulerPc, ScheduleSystem.blur k ((s.blur k).set i r.1 r.2) =
      (s.blur k).set i (blurResult k r).1 (blurResult k r).2 := by
    intro r
    rw [blur_set]
    congr 1
    simp only [ScheduleSystem.blur, ScheduleStore.blur_blur, SchedulerPc.blur_blur]
  cases r with
  | none =>
      cases r' with
      | none => rfl
      | some r' => cases h
  | some r =>
      cases r' with
      | none => cases h
      | some r' =>
          simp only [Option.map_some, Option.some.injEq] at h ⊢
          rw [hset, hset', h]

theorem ready_blur (pc : SchedulerPc) : (pc.blur k).ready = pc.ready := by
  cases pc <;> rfl

theorem step_blur (s : ScheduleSystem) {e e' : ScheduleEvent} (h : SameBut k e e') :
    ((s.blur k).step next_run schedules e).map (ScheduleSystem.blur k) =
      (s.step next_run schedules e').map (ScheduleSystem.blur k) := by
  have hblur : ∀ pc : SchedulerPc, ∀ i, ScheduleSystem.blur k
    ((s.blur k).set i (s.blur k).store pc) =
      ScheduleSystem.blur k (s.set i s.store pc) := by
    intro pc i
    rw [blur_set, blur_set]
    simp only [ScheduleSystem.blur, ScheduleStore.blur_blur, SchedulerPc.blur_blur]
  cases h with
  | start i outcome outcome' uuid uuid' =>
      exact map_set_blur s i _ _ (trigger_blur s.store (s.procs i) (.inl rfl))
  | refl e =>
      cases e with
      | tick d =>
          simp only [ScheduleSystem.step, ScheduleSystem.blur, Option.map_some,
            SchedulerPc.blur_blur]
          simp [ScheduleStore.blur]
      | poll i =>
          simp only [ScheduleSystem.step,
            show (s.blur k).procs i = (s.procs i).blur k from rfl, ready_blur]
          split
          · exact congrArg some (hblur _ i)
          · rfl
      | run i pipeline_name =>
          simp only [ScheduleSystem.step,
            show (s.blur k).procs i = (s.procs i).blur k from rfl, ready_blur]
          split
          · exact congrArg some (hblur _ i)
          · rfl
      | trigger i k' outcome uuid =>
          exact map_set_blur s i _ _ (trigger_blur s.store (s.procs i) (.inr ⟨rfl, rfl⟩))
      | go i =>
          refine map_set_blur s i _ _ ?_
          rw [show (s.blur k).procs i = (s.procs i).blur k from rfl,
            show (s.blur k).store = s.store.blur k from rfl,
            go_blur, Option.map_map]
          congr 1
          funext r
          exact blurResult_blurResult r
      | abort i =>
          refine congrArg some ?_
          rw [blur_set, blur_set]
          congr 1
          · simp only [ScheduleSystem.blur, ScheduleStore.blur_blur, SchedulerPc.blur_blur]
          · simp [ScheduleSystem.blur, ScheduleStore.blur, ScheduleStore.rollback]

-- Runs that differ at most in how the starts of `k` go leave the same in everything else.
theorem replay_blur {es es' : List ScheduleEvent} (h : List.Forall₂ (SameBut k) es es')
    {s s' : ScheduleSystem} (hs : s.blur k = s'.blur k) :
    (replay (ScheduleSystem.step next_run schedules) (fun _ _ => true) s es).map
    (ScheduleSystem.blur k) =
      (replay (ScheduleSystem.step next_run schedules) (fun _ _ => true) s' es').map
      (ScheduleSystem.blur k) := by
  induction h generalizing s s' with
  | nil => exact congrArg some hs
  | @cons e e' es es' he _ ih =>
      have hstep := (@step_blur next_run schedules k s _ _ (.refl e)).symm.trans
        (hs ▸ step_blur s' he)
      simp only [replay, if_true]
      cases ht : ScheduleSystem.step next_run schedules s e with
      | none =>
          cases ht' : ScheduleSystem.step next_run schedules s' e' with
          | none => rfl
          | some t' => rw [ht, ht'] at hstep; cases hstep
      | some t =>
          cases ht' : ScheduleSystem.step next_run schedules s' e' with
          | none => rw [ht, ht'] at hstep; cases hstep
          | some t' =>
              rw [ht, ht'] at hstep
              exact ih (Option.some.inj hstep)

end Blur

section Main

-- A blurred state shows the other schedules as they are, and when `k` runs next.
theorem seen_of_blur {k k' : ScheduleKey} {s s' : ScheduleSystem}
    (h : s'.blur k = s.blur k) (hne : k' ≠ k) :
    s'.store.seen k' = s.store.seen k' := by
  have hstore : s'.store.blur k = s.store.blur k := congrArg Pool.store h
  have hrow := congrFun (congrArg ScheduleStore.row hstore) k'
  have hlog := congrArg (List.filter fun f => f.schedule = k')
    (congrArg ScheduleStore.executions hstore)
  have hfilter : ∀ log : List ScheduledExecution,
      (log.filter fun f => f.schedule ≠ k).filter (fun f => f.schedule = k') = log.filter fun f =>
          f.schedule = k' := by
    intro log
    rw [List.filter_filter]
    congr 1
    funext f
    by_cases hf : f.schedule = k'
    · simp [hf, hne]
    · simp [hf]
  simp only [ScheduleStore.blur, hfilter] at hlog
  simp only [ScheduleStore.blur, blur_of_ne hne] at hrow
  exact Prod.ext hrow hlog

theorem next_run_at_of_blur {k : ScheduleKey} {s s' : ScheduleSystem} (h : s'.blur k = s.blur k)
    (k' : ScheduleKey) :
    (s'.store.row k').next_run_at = (s.store.row k').next_run_at := by
  have hrow := congrFun (congrArg ScheduleStore.row (congrArg Pool.store h)) k'
  simpa [ScheduleSystem.blur, ScheduleStore.blur] using congrArg PipelineSchedule.next_run_at hrow

-- No instant of a schedule is fired twice, a poll leaves what it fired with a later
-- `next_run_at`, and how the starts of one schedule go makes no difference to the others.
theorem fires_once (hnext : ∀ cron t, t < next_run cron t) (hkeys : schedules.Nodup) :
    (∀ s, Reach (ScheduleSystem.step next_run schedules) ScheduleSystem.Initial Kept s →
      FiredOnce s.store) ∧
    (∀ s, Reach (ScheduleSystem.step next_run schedules) ScheduleSystem.Initial
      (fun _ _ => True) s →
      ∀ i now done created s', s.procs i = .trigger now [] done created →
        s.step next_run schedules (.go i) = some s' →
        ∀ k ∈ done.map Prod.fst, now < (s'.store.row k).next_run_at) ∧
    ∀ k es es' s t, List.Forall₂ (SameBut k) es es' →
      replay (ScheduleSystem.step next_run schedules) (fun _ _ => true) s es = some t →
      ∃ t', replay (ScheduleSystem.step next_run schedules) (fun _ _ => true) s es' = some t' ∧
        (∀ k', k' ≠ k → t'.store.seen k' = t.store.seen k') ∧
        ∀ k', (t'.store.row k').next_run_at = (t.store.row k').next_run_at := by
  refine ⟨fun s hr => (holds_of_reach hnext hkeys hr).1.once,
    fun s hr i now done created s' hproc hstep => ?_,
    fun k es es' s t hsame ht => ?_⟩
  · exact next_run_at_after_commit (advanced_of_reach hnext hr) hproc hstep
  · have hblur := @replay_blur next_run schedules k es es' hsame s s rfl
    rw [ht] at hblur
    obtain ⟨t', ht', heq⟩ := Option.map_eq_some_iff.mp hblur.symm
    exact ⟨t', ht', fun k' hk' => seen_of_blur heq hk', next_run_at_of_blur heq⟩

def hour : Int := 3600 * second

-- "0 * * * *".
def hourly (_ : String) (t : Int) : Int := (t / hour + 1) * hour

theorem lt_hourly (cron : String) (t : Int) : t < hourly cron t :=
  Int.lt_ediv_add_one_mul_self t (by decide)

def nightly : ScheduleKey := ⟨"orders", "nightly"⟩

-- One schedule, which is due in a millisecond.
def almostDue : ScheduleSystem where
  store :=
    { clock := hour - 1000
      row := fun _ => ⟨"0 * * * *", .empty, hour, none, none, true⟩
      locks := fun _ => none
      executions := [] }
  procs _ := .idle

theorem initial_almostDue : almostDue.Initial := ⟨fun _ => rfl, rfl, fun _ => rfl⟩

def firings (s : ScheduleSystem) : List (ScheduleKey × Int) := s.store.executions.map fun f =>
    (f.schedule, f.due)

-- A manual run has read the clock before the instant, and the row after the poll that fired
-- it: it sets the schedule back, and the next poll fires the instant again.
theorem instant_fired_twice :
    ¬ ∀ (next_run : String → Int → Int) (schedules : List ScheduleKey) (s : ScheduleSystem),
    (∀ cron t, t < next_run cron t) → schedules.Nodup →
    Reach (ScheduleSystem.step next_run schedules) ScheduleSystem.Initial (fun _ _ => True) s →
      FiredOnce s.store := by
  intro h
  obtain ⟨s, hr, -, htest⟩ := Reach.replay (ScheduleSystem.step hourly [nightly])
    ScheduleSystem.Initial
    (fun _ _ => True) (fun _ _ => true) (fun _ _ _ => trivial) initial_almostDue
    [.run 1 "orders", .tick 2000, .poll 0, .go 0, .trigger 0 nightly .dispatched 7, .go 0,
      .go 1, .go 1, .go 1,
      .poll 0, .go 0, .trigger 0 nightly .dispatched 8]
    (fun s => firings s = [(nightly, hour), (nightly, hour)]) (by decide +kernel)
  have hlog : firings s = [(nightly, hour), (nightly, hour)] := of_decide_eq_true htest
  have hnodup : (firings s).Nodup := h hourly [nightly] s lt_hourly (List.nodup_singleton _) hr
  rw [hlog] at hnodup
  exact absurd hnodup (by decide)

-- Two polls fire it for two instants, a start that fails and a manual run between them.
theorem fires_once_hourly :
    ∃ s, Reach (ScheduleSystem.step hourly [nightly]) ScheduleSystem.Initial Kept s ∧
    (firings s).length = 2 ∧ FiredOnce s.store := by
  obtain ⟨s, hr, -, htest⟩ := Reach.replay (ScheduleSystem.step hourly [nightly])
    ScheduleSystem.Initial
    Kept (fun s e => decide (Kept s e)) (fun _ _ => of_decide_eq_true) initial_almostDue
    [.tick 2000, .poll 0, .go 0, .trigger 0 nightly .not_dispatched 7, .go 0, .run 1 "orders",
      .go 1, .go 1, .go 1,
      .tick 3600000000, .poll 2, .go 2, .trigger 2 nightly .not_created 8, .go 2,
      .tick 3600000000, .poll 0, .go 0, .trigger 0 nightly .dispatched 9, .go 0]
    (fun s => (firings s).length = 2) (by decide +kernel)
  exact ⟨s, hr, of_decide_eq_true htest, (fires_once lt_hourly (List.nodup_singleton _)).1 s hr⟩

end Main

end Reflowfy.PipelineScheduler
