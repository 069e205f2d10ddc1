import Reflowfy.PipelineScheduler
import Mathlib.Data.List.Basic
import Mathlib.Data.List.Nodup

namespace Reflowfy.PipelineScheduler

open Interleaving

variable {next_run : String → Int → Int} {schedules : List ScheduleKey}

-- Every instant at which the schedule has fired lies before `t`.
def FiredBefore (s : ScheduleStore) (k : ScheduleKey) (t : Int) : Prop :=
  ∀ f ∈ s.executions, f.schedule = k → f.due < t

-- No two executions for one instant of a schedule.
def FiredOnce (s : ScheduleStore) : Prop := (s.executions.map fun f => (f.schedule, f.due)).Nodup

-- What a row's lock protects.
def ScheduleStore.seen (s : ScheduleStore) (k : ScheduleKey) :
    PipelineSchedule × List ScheduledExecution :=
  (s.row k, s.executions.filter fun f => f.schedule = k)

-- The rows that the open transaction has locked.
def SchedulerPc.held : SchedulerPc → List ScheduleKey
  | .trigger _ due done _ => due.map Prod.fst ++ done.map Prod.fst
  | .update _ _ done => done.map Prod.fst
  | _ => []

-- The table: an unlocked schedule has fired only for instants before its `next_run_at`.
structure Instants (s : ScheduleStore) : Prop where
  once : FiredOnce s
  free : ∀ k, s.locks k = none → FiredBefore s k (s.row k).next_run_at

-- A poll has loaded the rows as they are, each once, and has put every schedule that it
-- has fired behind the instant it fired for. A reset has put its schedules behind the time
-- it was given, or leaves them where they are.
def Polled (s : ScheduleStore) : SchedulerPc → Prop
  | .trigger now due done created =>
      (due.map Prod.fst ++ done.map Prod.fst).Nodup ∧ created ⊆ done.map Prod.fst ∧
        (∀ p ∈ due, s.row p.1 = p.2 ∧ p.2.next_run_at ≤ now) ∧
          ∀ p ∈ done, FiredBefore s p.1 p.2.next_run_at
  | .update triggered_at _ done =>
      ∀ p ∈ done, triggered_at < p.2.next_run_at ∨ FiredBefore s p.1 p.2.next_run_at
  | _ => True

structure Transaction (s : ScheduleStore) (i : TaskId) (pc : SchedulerPc) : Prop where
  locked : ∀ k, s.locks k = some i ↔ k ∈ pc.held
  undone : ∀ k ∈ pc.held, k ∉ pc.created → FiredBefore s k (s.row k).next_run_at
  polled : Polled s pc

theorem SchedulerPc.ready_iff {pc : SchedulerPc} : pc.ready = true ↔ pc = .idle := by
  cases pc <;> simp [SchedulerPc.ready]

section Stable

variable {s s' : ScheduleStore} {i : TaskId} {pc : SchedulerPc} {k : ScheduleKey} {t : Int}

theorem firedBefore_iff_seen : FiredBefore s k t ↔ ∀ f ∈ (s.seen k).2, f.due < t := by
  simp only [FiredBefore, ScheduleStore.seen, List.mem_filter, decide_eq_true_eq, and_imp]

theorem row_eq_seen (s : ScheduleStore) (k : ScheduleKey) : s.row k = (s.seen k).1 := rfl

theorem Transaction.other (hg : Guarded ScheduleStore.locks ScheduleStore.seen i s s')
    (h : Transaction s i pc) :
    Transaction s' i pc := by
  have hseen : ∀ k ∈ pc.held, s'.seen k = s.seen k := fun k hk => hg.kept k ((h.locked k).mpr hk)
  refine ⟨fun k => (hg.held k).trans (h.locked k), fun k hk hc => ?_, ?_⟩
  · have hbefore := h.undone k hk hc
    rwa [firedBefore_iff_seen, row_eq_seen, hseen k hk, ← firedBefore_iff_seen]
  · cases pc with
    | trigger now due done created =>
        obtain ⟨hnodup, hcreated, hdue, hdone⟩ := h.polled
        refine ⟨hnodup, hcreated, fun p hp => ?_, fun p hp => ?_⟩
        · have hk : p.1 ∈ (SchedulerPc.trigger now due done created).held :=
            List.mem_append_left _ (List.mem_map_of_mem hp)
          rw [row_eq_seen, hseen p.1 hk]
          exact hdue p hp
        · have hk : p.1 ∈ (SchedulerPc.trigger now due done created).held :=
            List.mem_append_right _ (List.mem_map_of_mem hp)
          rw [firedBefore_iff_seen, hseen p.1 hk, ← firedBefore_iff_seen]
          exact hdone p hp
    | update triggered_at loaded done =>
        intro p hp
        have hk : p.1 ∈ (SchedulerPc.update triggered_at loaded done).held := List.mem_map_of_mem hp
        rw [firedBefore_iff_seen, hseen p.1 hk, ← firedBefore_iff_seen]
        exact h.polled p hp
    | _ => trivial

end Stable

section Statements

variable {s : ScheduleStore} {i : TaskId} {pc : SchedulerPc}

-- Without locks there is nothing to assert.
theorem Transaction.of_held_nil {pc' : SchedulerPc} (h : Transaction s i pc) (hpc : pc.held = [])
    (hpc' : pc'.held = []) (hpolled : Polled s pc') : Transaction s i pc' where
  locked k := by rw [h.locked k, hpc, hpc']
  undone k hk := by rw [hpc'] at hk; cases hk
  polled := hpolled

theorem Transaction.locks_ne (h : Transaction s i pc) (hpc : pc.held = []) (k : ScheduleKey) :
    s.locks k ≠ some i := by
  rw [ne_eq, h.locked k, hpc]
  exact List.not_mem_nil

-- A transaction that gives up its locks leaves none.
theorem Transaction.ended {s' : ScheduleStore} (hlocks : s'.locks = s.locks.release i) :
    Transaction s' i .idle where
  locked k := by rw [hlocks, Locks.release_eq_some_iff]; simp [SchedulerPc.held]
  undone k hk := by cases hk
  polled := trivial

theorem mem_due {now : Int} {k : ScheduleKey} :
    k ∈ s.due schedules now ↔ k ∈ schedules ∧ (s.row k).enabled ∧ (s.row k).next_run_at ≤ now ∧
      s.locks k = none := by
  simp [ScheduleStore.due]

theorem load_keys (s : ScheduleStore) (keys : List ScheduleKey) :
    (s.load keys).map Prod.fst = keys := by
  simp [ScheduleStore.load, Function.comp_def]

theorem mem_load {keys : List ScheduleKey} {p : ScheduleKey × PipelineSchedule} :
    p ∈ s.load keys ↔ p.1 ∈ keys ∧ s.row p.1 = p.2 := by
  obtain ⟨k, row⟩ := p
  simp [ScheduleStore.load]

-- SELECT … FOR UPDATE SKIP LOCKED.
theorem Instants.select (hkeys : schedules.Nodup) (h : Instants s) (hpc : Transaction s i pc)
    (hheld : pc.held = []) (now : Int) :
    Instants { s with locks := s.locks.take i (s.due schedules now) } ∧
      Transaction { s with locks := s.locks.take i (s.due schedules now) } i
        (.trigger now (s.load (s.due schedules now)) [] []) := by
  refine ⟨⟨h.once, fun k hk => h.free k (Locks.take_eq_none_iff.mp hk).2⟩,
    ⟨fun k => ?_, fun k hk _ => ?_, ?_⟩⟩
  · simp only [Locks.take_eq_self_iff, SchedulerPc.held, load_keys, List.map_nil, List.append_nil,
      or_iff_left_iff_imp]
    exact fun hk => absurd hk (hpc.locks_ne hheld k)
  · simp only [SchedulerPc.held, load_keys, List.map_nil, List.append_nil] at hk
    exact h.free k (mem_due.mp hk).2.2.2
  · refine ⟨?_, List.nil_subset _, fun p hp => ?_, fun p hp => by cases hp⟩
    · rw [load_keys, List.map_nil, List.append_nil]
      exact hkeys.filter _
    · obtain ⟨hdue, hrow⟩ := mem_load.mp hp
      exact ⟨hrow, hrow ▸ (mem_due.mp hdue).2.2.1⟩

theorem Instants.commit {done : Writes} (h : Instants s) (hpc : Transaction s i pc)
    (hdone : ∀ k ∈ pc.held, FiredBefore s k ((done.lookup k).getD (s.row k)).next_run_at)
    (hheld : ∀ p ∈ done, p.1 ∈ pc.held) : Instants (s.commit i done) := by
  refine ⟨h.once, fun k hk => ?_⟩
  show FiredBefore s k ((done.lookup k).getD (s.row k)).next_run_at
  rcases Locks.release_eq_none_iff.mp hk with hfree | hown
  · have hnot : done.lookup k = none := by
      apply lookup_eq_none_of_notMem
      intro hmem
      obtain ⟨p, hp, rfl⟩ := List.mem_map.mp hmem
      have hlock := (hpc.locked p.1).mpr (hheld p hp)
      rw [hfree] at hlock
      cases hlock
    rw [hnot]
    exact h.free k hfree
  · exact hdone k ((hpc.locked k).mp hown)

theorem Instants.rollback (h : Instants s) (hpc : Transaction s i pc) (hcreated : pc.created = []) :
    Instants (s.rollback i) := by
  refine ⟨h.once, fun k hk => ?_⟩
  rcases Locks.release_eq_none_iff.mp hk with hfree | hown
  · exact h.free k hfree
  · exact hpc.undone k ((hpc.locked k).mp hown) (by simp [hcreated])

-- The next schedule of a poll: an execution created for it is its first for that instant.
theorem Instants.trigger {now : Int} {due done : Writes}
    {created : List ScheduleKey} {k : ScheduleKey}
    {row : PipelineSchedule} (hnext : ∀ cron t, t < next_run cron t) (h : Instants s)
    (hpc : Transaction s i (.trigger now ((k, row) :: due) done created))
    (outcome : TriggerOutcome) (uuid : ℕ) :
    let s' := if outcome.created then s.create_execution k row uuid else s
    Instants s' ∧ Transaction s' i
      (.trigger now due ((k, row.trigger next_run now outcome ⟨k.schedule_name, uuid⟩) :: done)
        (if outcome.created then k :: created else created)) := by
  intro s'
  obtain ⟨hnodup, hcreated, hdue, hdone⟩ := hpc.polled
  have hrow : s.row k = row := (hdue (k, row) List.mem_cons_self).1
  have hle : row.next_run_at ≤ now := (hdue (k, row) List.mem_cons_self).2
  have hlocked : s.locks k = some i := (hpc.locked k).mpr List.mem_cons_self
  have hnot : k ∉ due.map Prod.fst ++ done.map Prod.fst := (List.nodup_cons.mp hnodup).1
  have hfresh : k ∉ created := fun hk => hnot (List.mem_append_right _ (hcreated hk))
  have hbefore : FiredBefore s k row.next_run_at := hrow ▸ hpc.undone k List.mem_cons_self hfresh
  -- what the step adds to the log, if anything, is for `k`
  have hlog : ∀ f ∈ s'.executions, f ∈ s.executions ∨
      (f.schedule = k ∧ f.due = row.next_run_at ∧ outcome.created) := by
    intro f hf
    by_cases hc : outcome.created
    · simp only [s', hc, if_true, ScheduleStore.create_execution, List.mem_cons] at hf
      rcases hf with rfl | hf
      · exact .inr ⟨rfl, rfl, hc⟩
      · exact .inl hf
    · simp only [s', hc, if_false, Bool.false_eq_true] at hf
      exact .inl hf
  have hlocks : s'.locks = s.locks := by simp only [s']; split <;> rfl
  have hrows : s'.row = s.row := by simp only [s']; split <;> rfl
  have hother : ∀ k' t, k' ≠ k → FiredBefore s k' t → FiredBefore s' k' t := by
    intro k' t hne hk' f hf hfk
    rcases hlog f hf with hf | ⟨hk, -⟩
    · exact hk' f hf hfk
    · exact absurd (hfk.symm.trans hk) hne
  have hnow : FiredBefore s' k (next_run row.cron_expression now) := by
    intro f hf hfk
    have hlt := hnext row.cron_expression now
    rcases hlog f hf with hf | ⟨-, hd, -⟩
    · have := hbefore f hf hfk
      omega
    · omega
  refine ⟨⟨?_, fun k' hk' => ?_⟩, ⟨fun k' => ?_, fun k' hk' hc' => ?_, ?_⟩⟩
  · simp only [FiredOnce, s']
    split
    · refine List.nodup_cons.mpr ⟨fun hmem => ?_, h.once⟩
      obtain ⟨f, hf, heq⟩ := List.mem_map.mp hmem
      obtain ⟨hfk, hfd⟩ := Prod.mk.inj heq
      have hlt := hbefore f hf hfk
      rw [hfd] at hlt
      exact absurd hlt (Int.lt_irrefl _)
    · exact h.once
  · rw [hlocks] at hk'
    rw [hrows]
    exact hother k' _ (fun hk => by rw [hk, hlocked] at hk'; cases hk') (h.free k' hk')
  · rw [hlocks, hpc.locked k']
    simp only [SchedulerPc.held, List.map_cons, List.cons_append, List.mem_cons, List.mem_append]
    tauto
  · have hheld : k' ∈ (SchedulerPc.trigger now ((k, row) :: due) done created).held := by
      simp only [SchedulerPc.held, List.map_cons, List.cons_append, List.mem_cons,
        List.mem_append] at hk' ⊢
      tauto
    rw [hrows]
    by_cases hk : k' = k
    · subst hk
      -- `k` itself: without an execution the log is as it was
      intro f hf hfk
      rcases hlog f hf with hf | ⟨-, -, hc⟩
      · exact hpc.undone k' hheld hfresh f hf hfk
      · exact absurd List.mem_cons_self (by simpa only [SchedulerPc.created, hc, if_true] using hc')
    · refine hother k' _ hk (hpc.undone k' hheld fun hmem => hc' ?_)
      simp only [SchedulerPc.created]
      split
      · exact List.mem_cons_of_mem _ hmem
      · exact hmem
  · refine ⟨?_, ?_, fun p hp => ?_, fun p hp => ?_⟩
    · exact (List.perm_middle.nodup_iff).mpr hnodup
    · split
      · exact List.cons_subset_cons _ hcreated
      · exact List.subset_cons_of_subset _ hcreated
    · rw [hrows]
      exact hdue p (List.mem_cons_of_mem _ hp)
    · rcases List.mem_cons.mp hp with rfl | hp
      · exact hnow
      · exact hother p.1 _ (fun hk => hnot (List.mem_append_right _ (hk ▸ List.mem_map_of_mem hp)))
          (hdone p hp)

-- An UPDATE of the commit of `reset_schedule` that finds its row free.
theorem Instants.flush {triggered_at : Int} {loaded rest done : Writes} {k : ScheduleKey}
    {row : PipelineSchedule}
    (h : Instants s) (hpc : Transaction s i (.update triggered_at loaded done))
    (hfree : s.locks k = none)
    (hrow : triggered_at < row.next_run_at ∨ FiredBefore s k row.next_run_at) :
    Instants { s with locks := s.locks.take i [k] } ∧
      Transaction { s with locks := s.locks.take i [k] } i
          (.update triggered_at rest ((k, row) :: done)) := by
  refine ⟨⟨h.once, fun k' hk' => h.free k' (Locks.take_eq_none_iff.mp hk').2⟩,
    ⟨fun k' => ?_, fun k' hk' _ => ?_, fun p hp => ?_⟩⟩
  · rw [Locks.take_eq_self_iff, hpc.locked k']
    simp [SchedulerPc.held]
  · rcases List.mem_cons.mp hk' with rfl | hk'
    · exact h.free _ hfree
    · exact hpc.undone k' hk' List.not_mem_nil
  · rcases List.mem_cons.mp hp with rfl | hp
    · exact hrow
    · exact hpc.polled p hp

-- What the UPDATE of a reset leaves in a row: an instant after the time it was given, or
-- the one that is there.
theorem next_run_at_flush (hnext : ∀ cron t, t < next_run cron t)
    (loaded current : PipelineSchedule) (triggered_at : Int) :
    triggered_at < (loaded.flush (loaded.reset next_run triggered_at) current).next_run_at ∨
      (loaded.flush (loaded.reset next_run triggered_at) current).next_run_at =
      current.next_run_at := by
  by_cases hsame : next_run loaded.cron_expression triggered_at = loaded.next_run_at
  · exact .inr (if_pos hsame)
  · refine .inl ?_
    have hset : (loaded.flush (loaded.reset next_run triggered_at) current).next_run_at =
        next_run loaded.cron_expression triggered_at := if_neg hsame
    rw [hset]
    exact hnext _ _

end Statements

-- The commit of a reset sets no schedule back to an instant it has fired for.
def SchedulerPc.keeps (s : ScheduleStore) : SchedulerPc → Prop
  | .update _ [] done => ∀ p ∈ done, FiredBefore s p.1 p.2.next_run_at
  | _ => True

-- The steps that keep every instant fired once: all but such a reset, and the rollback of
-- a poll that has fired.
def Kept (s : ScheduleSystem) : ScheduleEvent → Prop
  | .go i => (s.procs i).keeps s.store
  | .abort i => (s.procs i).created = []
  | _ => True

instance (s : ScheduleStore) (k : ScheduleKey) (t : Int) : Decidable (FiredBefore s k t) :=
  inferInstanceAs (Decidable (∀ f ∈ s.executions, f.schedule = k → f.due < t))

instance (s : ScheduleStore) : DecidablePred (SchedulerPc.keeps s)
  | .update _ [] done => inferInstanceAs (Decidable (∀ p ∈ done, FiredBefore s p.1 p.2.next_run_at))
  | .update _ (_ :: _) _ => .isTrue trivial
  | .idle => .isTrue trivial
  | .poll _ => .isTrue trivial
  | .trigger _ _ _ _ => .isTrue trivial
  | .reset _ _ => .isTrue trivial

instance (s : ScheduleSystem) : DecidablePred (Kept s)
  | .go i => inferInstanceAs (Decidable ((s.procs i).keeps s.store))
  | .abort i => inferInstanceAs (Decidable ((s.procs i).created = []))
  | .tick _ => .isTrue trivial
  | .poll _ => .isTrue trivial
  | .run _ _ => .isTrue trivial
  | .trigger _ _ _ _ => .isTrue trivial

section Steps

variable {s s' : ScheduleSystem}

theorem holds_initial (h : s.Initial) : s.Holds Instants Transaction := by
  obtain ⟨hlocks, hlog, hidle⟩ := h
  refine ⟨⟨?_, fun k _ f hf => ?_⟩, fun i => ⟨fun k => ?_, fun k hk => ?_, ?_⟩⟩
  · simp [FiredOnce, hlog]
  · rw [hlog] at hf
    cases hf
  · simp [hlocks, hidle, SchedulerPc.held]
  · rw [hidle] at hk
    cases hk
  · rw [hidle]
    trivial

-- The commit of task `i`.
theorem commit_holds {i : TaskId} {done : Writes} (hs : s.Holds Instants Transaction)
    (hheld : ∀ p ∈ done, p.1 ∈ (s.procs i).held)
    (hdone : ∀ k ∈ (s.procs i).held, FiredBefore s.store k
      ((done.lookup k).getD (s.store.row k)).next_run_at) :
    (s.set i (s.store.commit i done) .idle).Holds Instants Transaction := by
  refine hs.set (hs.1.commit (hs.2 i) hdone hheld) (.ended rfl) fun j hj h => h.other ?_
  refine .of_release hj rfl fun k hk => ?_
  have hnot : done.lookup k = none := by
    apply lookup_eq_none_of_notMem
    intro hmem
    obtain ⟨p, hp, rfl⟩ := List.mem_map.mp hmem
    exact hk (((hs.2 i).locked p.1).mpr (hheld p hp))
  simp [ScheduleStore.seen, ScheduleStore.commit, hnot]

-- What a commit of all that is locked leaves in a row.
theorem firedBefore_lookup {store : ScheduleStore} {done : Writes} {k : ScheduleKey}
    (hk : k ∈ done.map Prod.fst) (hdone : ∀ p ∈ done, FiredBefore store p.1 p.2.next_run_at) :
    FiredBefore store k ((done.lookup k).getD (store.row k)).next_run_at := by
  obtain ⟨row, hrow, hmem⟩ := exists_lookup_eq_some hk
  rw [hrow]
  exact hdone (k, row) hmem

theorem go_holds (hnext : ∀ cron t, t < next_run cron t) (hkeys : schedules.Nodup)
    (hs : s.Holds Instants Transaction) {i : TaskId}
    (hok : Kept s (.go i)) {store : ScheduleStore} {pc : SchedulerPc}
    (hgo : (s.procs i).go next_run schedules i s.store = some (store, pc)) :
    (s.set i store pc).Holds Instants Transaction := by
  have hpc := hs.2 i
  cases hproc : s.procs i with
  | idle => rw [hproc] at hgo; cases hgo
  | poll now =>
      rw [hproc] at hgo hpc
      simp only [SchedulerPc.go] at hgo
      split at hgo
      · cases hgo
        exact hs.set hs.1 (hpc.of_held_nil rfl rfl trivial) fun j _ h => h
      · cases hgo
        obtain ⟨hstore, hown⟩ := hs.1.select hkeys hpc rfl now
        exact hs.set hstore hown fun j hj h =>
          h.other (.of_take hj (fun k hk => (mem_due.mp hk).2.2.2) rfl rfl)
  | trigger now due done created =>
      cases due with
      | nil =>
          rw [hproc] at hgo hpc
          cases hgo
          refine commit_holds hs (fun p hp => ?_) fun k hk => ?_
          · rw [hproc]
            exact List.mem_map_of_mem hp
          · rw [hproc] at hk
            exact firedBefore_lookup hk hpc.polled.2.2.2
      | cons p due => rw [hproc] at hgo; cases hgo
  | reset pipeline_name triggered_at =>
      rw [hproc] at hgo hpc
      cases hgo
      exact hs.set hs.1 (hpc.of_held_nil rfl rfl fun _ hp => by cases hp) fun j _ h => h
  | update triggered_at loaded done =>
      cases loaded with
      | nil =>
          rw [hproc] at hgo hpc
          simp only [Kept, hproc, SchedulerPc.keeps] at hok
          cases hgo
          refine commit_holds hs (fun p hp => ?_) fun k hk => ?_
          · rw [hproc]
            exact List.mem_map_of_mem hp
          · rw [hproc] at hk
            exact firedBefore_lookup hk hok
      | cons p rest =>
          obtain ⟨k, row⟩ := p
          rw [hproc] at hgo hpc
          simp only [SchedulerPc.go] at hgo
          split at hgo
          · split at hgo
            · rename_i hfree
              cases hgo
              obtain ⟨hstore, hown⟩ := hs.1.flush hpc hfree
                ((next_run_at_flush hnext row (s.store.row k) triggered_at).imp id fun hsame =>
                  hsame ▸ hs.1.free k hfree)
              exact hs.set hstore hown fun j hj h =>
                h.other (.of_take hj (fun k' hk' => by rwa [List.mem_singleton.mp hk']) rfl rfl)
            · cases hgo
          · cases hgo
            exact hs.set hs.1 ⟨hpc.locked, hpc.undone, hpc.polled⟩ fun j _ h => h

theorem trigger_holds (hnext : ∀ cron t, t < next_run cron t)
    (hs : s.Holds Instants Transaction) {i : TaskId}
    {k : ScheduleKey} {outcome : TriggerOutcome} {uuid : ℕ} {store : ScheduleStore}
    {pc : SchedulerPc}
    (hgo : (s.procs i).trigger_pipeline next_run s.store k outcome uuid = some (store, pc)) :
    (s.set i store pc).Holds Instants Transaction := by
  have hpc := hs.2 i
  unfold SchedulerPc.trigger_pipeline at hgo
  split at hgo
  · rename_i now k' row due done created hproc
    split at hgo
    · rename_i hk
      subst hk
      cases hgo
      rw [hproc] at hpc
      obtain ⟨hstore, hown⟩ := hs.1.trigger hnext hpc outcome uuid
      refine hs.set hstore hown fun j hj h => h.other ?_
      have hlocked : s.store.locks k' = some i := (hpc.locked k').mpr List.mem_cons_self
      refine .of_write hj (by split <;> rfl) fun k hk => ?_
      have hne : k' ≠ k := fun heq => hk (heq ▸ hlocked)
      split
      · simp [ScheduleStore.seen, ScheduleStore.create_execution, hne]
      · rfl
    · cases hgo
  · cases hgo

theorem step_holds (hnext : ∀ cron t, t < next_run cron t) (hkeys : schedules.Nodup)
    (hs : s.Holds Instants Transaction) {e : ScheduleEvent} (hok : Kept s e)
    (hstep : s.step next_run schedules e = some s') : s'.Holds Instants Transaction := by
  cases e with
  | tick d =>
      cases hstep
      exact hs.store ⟨hs.1.once, hs.1.free⟩ fun j p h =>
        ⟨h.locked, h.undone, by cases p <;> exact h.polled⟩
  | poll i =>
      simp only [ScheduleSystem.step] at hstep
      split at hstep
      · rename_i hidle
        cases hstep
        have hpc := hs.2 i
        rw [SchedulerPc.ready_iff.mp hidle] at hpc
        exact hs.set hs.1 (hpc.of_held_nil rfl rfl trivial) fun j _ h => h
      · cases hstep
  | run i pipeline_name =>
      simp only [ScheduleSystem.step] at hstep
      split at hstep
      · rename_i hidle
        cases hstep
        have hpc := hs.2 i
        rw [SchedulerPc.ready_iff.mp hidle] at hpc
        exact hs.set hs.1 (hpc.of_held_nil rfl rfl trivial) fun j _ h => h
      · cases hstep
  | trigger i k outcome uuid =>
      obtain ⟨⟨store, pc⟩, hgo, rfl⟩ := Option.map_eq_some_iff.mp hstep
      exact trigger_holds hnext hs hgo
  | go i =>
      obtain ⟨⟨store, pc⟩, hgo, rfl⟩ := Option.map_eq_some_iff.mp hstep
      exact go_holds hnext hkeys hs hok hgo
  | abort i =>
      cases hstep
      refine hs.set (hs.1.rollback (hs.2 i) hok) (.ended rfl) fun j hj h => h.other ?_
      exact .of_release hj rfl fun k _ => rfl

theorem holds_of_reach (hnext : ∀ cron t, t < next_run cron t) (hkeys : schedules.Nodup)
    (hr : Reach (ScheduleSystem.step next_run schedules) ScheduleSystem.Initial Kept s) :
    s.Holds Instants Transaction :=
  hr.invariant (fun _ h => holds_initial h) fun _ _ _ _ hs hok hstep =>
    step_holds hnext hkeys hs hok hstep

-- A reset whose time is not before an instant that its schedules have fired for sets none
-- of them back to one.
theorem kept_of_triggered_at (hnext : ∀ cron t, t < next_run cron t) (hkeys : schedules.Nodup)
    (hr : Reach (ScheduleSystem.step next_run schedules) ScheduleSystem.Initial Kept s) {i : TaskId}
    {triggered_at : Int} {loaded done : Writes}
    (hproc : s.procs i = .update triggered_at loaded done)
    (hfired : ∀ f ∈ s.store.executions, f.schedule ∈ done.map Prod.fst → f.due ≤ triggered_at) :
    Kept s (.go i) := by
  have hpolled := ((holds_of_reach hnext hkeys hr).2 i).polled
  rw [hproc] at hpolled
  simp only [Kept, hproc]
  cases loaded with
  | cons => trivial
  | nil =>
      intro p hp
      rcases hpolled p hp with hlater | hbefore
      · intro f hf hk
        exact Int.lt_of_le_of_lt (hfired f hf (hk ▸ List.mem_map_of_mem hp)) hlater
      · exact hbefore

end Steps

end Reflowfy.PipelineScheduler
