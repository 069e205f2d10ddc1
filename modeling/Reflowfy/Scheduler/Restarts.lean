import Reflowfy.ScheduleSync
import Reflowfy.Scheduler.FiresOnce

namespace Reflowfy.PipelineScheduler

open Interleaving

variable {is_valid : String → Bool} {next_run : String → Int → Int} {same : Params → Params → Bool}

section Rows

-- What of a row neither a poll nor a manual run writes.
def PipelineSchedule.settings (row : PipelineSchedule) : Bool × String × Params :=
  (row.enabled, row.cron_expression, row.runtime_params)

theorem settings_poll_row (now : Int) (outcome : ScheduleKey → TriggerOutcome)
    (uuid : ScheduleKey → ℕ) (k : ScheduleKey) (row : PipelineSchedule) :
    (ScheduleTable.poll_row next_run now outcome uuid k row).settings = row.settings := by
  unfold ScheduleTable.poll_row
  split <;> rfl

theorem settings_reset_row (triggered_at : Int) (pipeline_name : String) (k : ScheduleKey)
    (row : PipelineSchedule) :
    (ScheduleTable.reset_row next_run triggered_at pipeline_name k row).settings =
    row.settings := by
  unfold ScheduleTable.reset_row
  split <;> rfl

theorem enabled_of_settings {row row' : PipelineSchedule} (h : row'.settings = row.settings) :
    row'.enabled = row.enabled :=
  congrArg Prod.fst h

theorem cron_of_settings {row row' : PipelineSchedule} (h : row'.settings = row.settings) :
    row'.cron_expression = row.cron_expression := congrArg (fun settings => settings.2.1) h

theorem params_of_settings {row row' : PipelineSchedule} (h : row'.settings = row.settings) :
    row'.runtime_params = row.runtime_params := congrArg (fun settings => settings.2.2) h

-- The row of schedule `k` after an event.
def ScheduleTable.row_after (next_run : String → Int → Int) (same : Params → Params → Bool)
    (s : ScheduleTable is_valid) (k : ScheduleKey) : TableEvent is_valid → Option PipelineSchedule
  | .sync now =>
      match s.registry.declared.lookup k with
      | some run => some (run.upsert next_run same now (s.rows.lookup k))
      | none => (s.rows.lookup k).map fun row => { row with enabled := false }
  | .poll outcome uuid => (s.rows.lookup k).map
      (ScheduleTable.poll_row next_run s.clock outcome uuid k)
  | .run pipeline_name triggered_at =>
      (s.rows.lookup k).map (ScheduleTable.reset_row next_run triggered_at pipeline_name k)
  | _ => s.rows.lookup k

theorem step_sync {s s' : ScheduleTable is_valid} {now : Int}
    (hstep : s.step next_run same (.sync now) = some s') : now ≤ s.clock ∧
      s' = { s with rows := s.sync_schedules_from_registry next_run same now, synced := true } := by
  simp only [ScheduleTable.step, Option.ite_none_right_eq_some, Option.some.injEq] at hstep
  exact ⟨hstep.1, hstep.2.symm⟩

theorem step_run {s s' : ScheduleTable is_valid} {pipeline_name : String} {triggered_at : Int}
    (hstep : s.step next_run same (.run pipeline_name triggered_at) = some s') :
      triggered_at ≤ s.clock ∧
      s' = { s with rows := s.rows.map fun entry =>
        (entry.1, ScheduleTable.reset_row next_run triggered_at pipeline_name
            entry.1 entry.2) } := by
  simp only [ScheduleTable.step, Option.ite_none_right_eq_some, Option.some.injEq] at hstep
  exact ⟨hstep.1, hstep.2.symm⟩

theorem lookup_step {s s' : ScheduleTable is_valid} {e : TableEvent is_valid}
    (hstep : s.step next_run same e = some s') (k : ScheduleKey) :
    s'.rows.lookup k = s.row_after next_run same k e := by
  cases e with
  | sync now =>
      obtain ⟨-, rfl⟩ := step_sync hstep
      exact s.lookup_sync now k
  | poll outcome uuid => cases hstep; exact Assoc.lookup_map_keyed _ _ k
  | run pipeline_name triggered_at =>
      obtain ⟨-, rfl⟩ := step_run hstep
      exact Assoc.lookup_map_keyed _ _ k
  | tick d => cases hstep; rfl
  | restart registry => cases hstep; rfl
  | roll_back created uuid => cases hstep; rfl

theorem keys_map (rows : Writes) (f : ScheduleKey → PipelineSchedule → PipelineSchedule) :
    (rows.map fun entry => (entry.1, f entry.1 entry.2)).map Prod.fst = rows.map Prod.fst := by
  rw [List.map_map]
  rfl

theorem nodup_step {s s' : ScheduleTable is_valid} {e : TableEvent is_valid}
    (h : (s.rows.map Prod.fst).Nodup)
    (hstep : s.step next_run same e = some s') : (s'.rows.map Prod.fst).Nodup := by
  cases e with
  | sync now =>
      obtain ⟨-, rfl⟩ := step_sync hstep
      show ((s.sync_schedules_from_registry next_run same now).map Prod.fst).Nodup
      unfold ScheduleTable.sync_schedules_from_registry
      rw [keys_map _ fun k row => row.soft_disable _ k]
      exact Assoc.nodup_upserts _ _ _ h
  | poll outcome uuid =>
      cases hstep
      show ((s.rows.map fun entry => (entry.1, _)).map Prod.fst).Nodup
      rw [keys_map]
      exact h
  | run pipeline_name triggered_at =>
      obtain ⟨-, rfl⟩ := step_run hstep
      show ((s.rows.map fun entry => (entry.1, _)).map Prod.fst).Nodup
      rw [keys_map]
      exact h
  | tick d => cases hstep; exact h
  | restart registry => cases hstep; exact h
  | roll_back created uuid => cases hstep; exact h

theorem nodup_of_reach {Ok : ScheduleTable is_valid → TableEvent is_valid → Prop}
    {s : ScheduleTable is_valid}
    (hr : Reach (ScheduleTable.step next_run same) ScheduleTable.Initial Ok s) :
      (s.rows.map Prod.fst).Nodup :=
  hr.invariant (fun _ hs => hs.1) fun _ _ _ _ h _ hstep => nodup_step h hstep

-- The expressions in the table are those of pipelines that have been checked.
def CronsValid (s : ScheduleTable is_valid) : Prop :=
  ∀ k row, s.rows.lookup k = some row → is_valid row.cron_expression = true

theorem cronsValid_step {s s' : ScheduleTable is_valid} {e : TableEvent is_valid} (h : CronsValid s)
    (hstep : s.step next_run same e = some s') : CronsValid s' := by
  intro k row hrow
  rw [lookup_step hstep k] at hrow
  cases e with
  | sync now =>
      simp only [ScheduleTable.row_after] at hrow
      split at hrow
      · rename_i run hrun
        have hcron : row.cron_expression = run.cron := by
          rw [← Option.some.inj hrow]
          unfold ScheduledRun.upsert
          split <;> rfl
        rw [hcron]
        exact s.registry.declared_cron_valid hrun
      · obtain ⟨old, hold, rfl⟩ := Option.map_eq_some_iff.mp hrow
        exact h k old hold
  | poll outcome uuid =>
      obtain ⟨old, hold, rfl⟩ := Option.map_eq_some_iff.mp hrow
      rw [cron_of_settings (settings_poll_row ..)]
      exact h k old hold
  | run pipeline_name triggered_at =>
      obtain ⟨old, hold, rfl⟩ := Option.map_eq_some_iff.mp hrow
      rw [cron_of_settings (settings_reset_row ..)]
      exact h k old hold
  | tick d => exact h k row hrow
  | restart registry => exact h k row hrow
  | roll_back created uuid => exact h k row hrow

theorem cronsValid_of_reach {Ok : ScheduleTable is_valid → TableEvent is_valid → Prop}
    {s : ScheduleTable is_valid}
    (hr : Reach (ScheduleTable.step next_run same) ScheduleTable.Initial Ok s) : CronsValid s :=
  hr.invariant (I := CronsValid)
    (fun _ hs k row hrow => hs.2.1 (k, row) (mem_of_lookup_eq_some hrow))
    fun _ _ _ _ h _ hstep => cronsValid_step h hstep

end Rows

section Created

-- The executions that a poll has created, each for one row that was due.
theorem mem_create_executions {s : ScheduleTable is_valid} (hnodup : (s.rows.map Prod.fst).Nodup)
    {created : ScheduleKey → Bool} {uuid : ScheduleKey → ℕ} {e : ScheduledExecution} :
    e ∈ s.create_executions created uuid ↔ ∃ row, s.rows.lookup e.schedule = some row ∧
      row.is_due s.clock = true ∧
      created e.schedule = true ∧
        e = ⟨⟨e.schedule.schedule_name, uuid e.schedule⟩, e.schedule.pipeline_name,
        row.runtime_params, e.schedule, row.next_run_at⟩ := by
  unfold ScheduleTable.create_executions ScheduleTable.due
  rw [List.mem_map]
  constructor
  · rintro ⟨⟨k, row⟩, hmem, rfl⟩
    rw [List.mem_filter, List.mem_filter] at hmem
    obtain ⟨⟨hrow, hdue⟩, hcreated⟩ := hmem
    exact ⟨row, lookup_eq_some_of_mem hnodup hrow, hdue, hcreated, rfl⟩
  · rintro ⟨row, hrow, hdue, hcreated, heq⟩
    refine ⟨(e.schedule, row), ?_, heq.symm⟩
    rw [List.mem_filter, List.mem_filter]
    exact ⟨⟨mem_of_lookup_eq_some hrow, hdue⟩, hcreated⟩

theorem create_executions_nodup {s : ScheduleTable is_valid} (hnodup : (s.rows.map Prod.fst).Nodup)
    (created : ScheduleKey → Bool) (uuid : ScheduleKey → ℕ) :
    ((s.create_executions created uuid).map ScheduledExecution.schedule).Nodup := by
  unfold ScheduleTable.create_executions ScheduleTable.due
  rw [List.map_map]
  exact hnodup.sublist ((List.filter_sublist.trans List.filter_sublist).map Prod.fst)

end Created

section Mirrored

-- The row of a schedule that is declared, but for when it runs next.
structure Declares (same : Params → Params → Bool) (run : ScheduledRun)
    (row : PipelineSchedule) : Prop where
  enabled : row.enabled = true
  cron_expression : row.cron_expression = run.cron
  runtime_params : row.runtime_params = run.params ∨ same row.runtime_params run.params = true

-- The schedules that are enabled are those that are declared.
structure Mirrored (same : Params → Params → Bool) (s : ScheduleTable is_valid) : Prop where
  declared : ∀ k run, s.registry.declared.lookup k = some run → ∃ row, s.rows.lookup k = some row ∧
    Declares same run row
  others : ∀ k, s.registry.declared.lookup k = none → ∀ row, s.rows.lookup k = some row →
    row.enabled = false

theorem declares_upsert (now : Int) (run : ScheduledRun) (existing : Option PipelineSchedule) :
    Declares same run (run.upsert next_run same now existing) := by
  cases existing with
  | none => exact ⟨rfl, rfl, .inl rfl⟩
  | some existing =>
      refine ⟨rfl, rfl, ?_⟩
      show (if same existing.runtime_params run.params then existing.runtime_params
        else run.params) = run.params ∨ _
      split
      · rename_i hsame
        refine .inr ?_
        show same (if same existing.runtime_params run.params then existing.runtime_params
          else run.params) run.params = true
        rw [if_pos hsame]
        exact hsame
      · exact .inl rfl

-- A row that declares the run already is written back as it is.
theorem upsert_of_declares {now : Int} {run : ScheduledRun} {row : PipelineSchedule}
    (h : Declares same run row) :
    run.upsert next_run same now (some row) = row := by
  obtain ⟨cron_expression, runtime_params, next_run_at, last_triggered_at,
    last_execution_id, enabled⟩ := row
  obtain ⟨henabled, hcron, hparams⟩ := h
  dsimp only at henabled hcron hparams
  subst henabled hcron
  simp only [ScheduledRun.upsert, ne_eq, not_true_eq_false, if_false, PipelineSchedule.mk.injEq,
    true_and, and_true]
  split
  · rfl
  · rename_i hsame
    exact (hparams.resolve_right hsame).symm

theorem Mirrored.of_rows {s s' : ScheduleTable is_valid} (h : Mirrored same s)
    (f : ScheduleKey → PipelineSchedule → PipelineSchedule) (hregistry : s'.registry = s.registry)
    (hrows : ∀ k, s'.rows.lookup k = (s.rows.lookup k).map (f k))
    (hsettings : ∀ k row, (f k row).settings = row.settings) : Mirrored same s' := by
  constructor
  · intro k run hrun
    rw [hregistry] at hrun
    obtain ⟨row, hrow, hdeclares⟩ := h.declared k run hrun
    refine ⟨f k row, by rw [hrows, hrow]; rfl, ?_, ?_, ?_⟩
    · rw [enabled_of_settings (hsettings k row)]
      exact hdeclares.enabled
    · rw [cron_of_settings (hsettings k row)]
      exact hdeclares.cron_expression
    · rw [params_of_settings (hsettings k row)]
      exact hdeclares.runtime_params
  · intro k hnone row hrow
    rw [hregistry] at hnone
    rw [hrows] at hrow
    obtain ⟨old, hold, rfl⟩ := Option.map_eq_some_iff.mp hrow
    rw [enabled_of_settings (hsettings k old)]
    exact h.others k hnone old hold

theorem mirrored_step {s s' : ScheduleTable is_valid} {e : TableEvent is_valid}
    (h : s.synced = true → Mirrored same s)
    (hstep : s.step next_run same e = some s') : s'.synced = true → Mirrored same s' := by
  intro hsynced
  have hrows := lookup_step hstep
  cases e with
  | sync now =>
      obtain ⟨-, rfl⟩ := step_sync hstep
      constructor
      · intro k run hrun
        refine ⟨run.upsert next_run same now (s.rows.lookup k), ?_, declares_upsert ..⟩
        rw [hrows k]
        simp only [ScheduleTable.row_after]
        rw [show s.registry.declared.lookup k = some run from hrun]
      · intro k hnone row hrow
        rw [hrows k] at hrow
        simp only [ScheduleTable.row_after] at hrow
        rw [show s.registry.declared.lookup k = none from hnone] at hrow
        obtain ⟨old, -, rfl⟩ := Option.map_eq_some_iff.mp hrow
        rfl
  | poll outcome uuid =>
      cases hstep
      exact (h hsynced).of_rows _ rfl hrows fun _ _ => settings_poll_row ..
  | run pipeline_name triggered_at =>
      obtain ⟨-, rfl⟩ := step_run hstep
      exact (h hsynced).of_rows _ rfl hrows fun _ _ => settings_reset_row ..
  | restart registry => cases hstep; cases hsynced
  | tick d => cases hstep; exact ⟨(h hsynced).declared, (h hsynced).others⟩
  | roll_back created uuid => cases hstep; exact ⟨(h hsynced).declared, (h hsynced).others⟩

theorem mirrored_of_reach {Ok : ScheduleTable is_valid → TableEvent is_valid → Prop}
    {s : ScheduleTable is_valid}
    (hr : Reach (ScheduleTable.step next_run same) ScheduleTable.Initial Ok s) : s.synced = true →
      Mirrored same s :=
  hr.invariant (fun s hs hsynced => by rw [hs.2.2.2] at hsynced; cases hsynced)
      fun _ _ _ _ h _ hstep =>
    mirrored_step h hstep

end Mirrored

section Once

-- The instants that a schedule has been run for, and when it runs next.
structure Fired (s : ScheduleTable is_valid) : Prop where
  past : ∀ e ∈ s.executions, e.due ≤ s.clock
  behind : ∀ e ∈ s.executions, ∀ row, s.rows.lookup e.schedule = some row → e.due < row.next_run_at
  once : s.executions.Pairwise fun e e' => e.schedule = e'.schedule → e'.due < e.due

-- The time that a sync, or a manual run of the pipeline, has read for what it writes.
def TableEvent.reads (pipeline_name : String) : TableEvent is_valid → Option Int
  | .sync now => some now
  | .run name triggered_at => if name = pipeline_name then some triggered_at else none
  | _ => none

-- No poll is rolled back that has created its executions all the same; and no poll fires an
-- instant between the time that a sync or a manual run reads and what it writes for it.
def Committed (s : ScheduleTable is_valid) (e : TableEvent is_valid) : Prop :=
  (∀ created uuid, e = .roll_back created uuid → s.create_executions created uuid = []) ∧
    ∀ fired ∈ s.executions, ∀ at_, e.reads fired.schedule.pipeline_name = some at_ → fired.due ≤ at_

theorem Committed.read {s : ScheduleTable is_valid} {e : TableEvent is_valid} (h : Committed s e)
    {fired : ScheduledExecution} (hfired : fired ∈ s.executions) (at_ : Int)
    (hread : e.reads fired.schedule.pipeline_name = some at_) : fired.due ≤ at_ :=
  h.2 fired hfired at_ hread

theorem poll_row_after {now : Int} (hnext : ∀ cron t, is_valid cron = true → t < next_run cron t)
    {row : PipelineSchedule} (hcron : is_valid row.cron_expression = true)
    (outcome : ScheduleKey → TriggerOutcome)
    (uuid : ScheduleKey → ℕ) (k : ScheduleKey) (henabled : row.enabled = true) :
    now < (ScheduleTable.poll_row next_run now outcome uuid k row).next_run_at := by
  unfold ScheduleTable.poll_row
  split
  · exact hnext row.cron_expression now hcron
  · rename_i hdue
    simp only [PipelineSchedule.is_due, henabled, Bool.true_and, decide_eq_true_eq] at hdue
    exact Int.not_le.mp hdue

-- However a row is written, its next instant stays ahead of an instant that the row, the
-- clock and the time that the writer goes by have passed.
theorem next_run_at_step (hnext : ∀ cron t, is_valid cron = true → t < next_run cron t)
    {s s' : ScheduleTable is_valid} {e : TableEvent is_valid} (hcrons : CronsValid s)
    (hstep : s.step next_run same e = some s') {k : ScheduleKey}
    {due : Int} (hclock : due ≤ s.clock) (hread : ∀ at_, e.reads k.pipeline_name = some at_ →
      due ≤ at_) (hbehind : ∀ row, s.rows.lookup k = some row → due < row.next_run_at)
    {row : PipelineSchedule} (hrow : s'.rows.lookup k = some row) : due < row.next_run_at := by
  rw [lookup_step hstep k] at hrow
  cases e with
  | sync now =>
      simp only [ScheduleTable.row_after] at hrow
      split at hrow
      · rename_i run hrun
        have hlater : due < next_run run.cron now :=
          Int.lt_of_le_of_lt (hread now rfl)
            (hnext run.cron now (s.registry.declared_cron_valid hrun))
        rw [← Option.some.inj hrow]
        cases hold : s.rows.lookup k with
        | none => exact hlater
        | some old =>
            simp only [ScheduledRun.upsert]
            split
            · exact hlater
            · exact hbehind old hold
      · obtain ⟨old, hold, rfl⟩ := Option.map_eq_some_iff.mp hrow
        exact hbehind old hold
  | poll outcome uuid =>
      obtain ⟨old, hold, rfl⟩ := Option.map_eq_some_iff.mp hrow
      unfold ScheduleTable.poll_row
      split
      · exact Int.lt_of_le_of_lt hclock (hnext old.cron_expression s.clock (hcrons k old hold))
      · exact hbehind old hold
  | run pipeline_name triggered_at =>
      obtain ⟨old, hold, rfl⟩ := Option.map_eq_some_iff.mp hrow
      unfold ScheduleTable.reset_row
      split
      · rename_i hboth
        exact Int.lt_of_le_of_lt (hread triggered_at (if_pos hboth.1.symm))
          (hnext _ triggered_at (hcrons k old hold))
      · exact hbehind old hold
  | tick d => exact hbehind row hrow
  | restart registry => exact hbehind row hrow
  | roll_back created uuid => exact hbehind row hrow

theorem Fired.of_same (hnext : ∀ cron t, is_valid cron = true → t < next_run cron t)
    {s s' : ScheduleTable is_valid}
    {e : TableEvent is_valid} (h : Fired s) (hcrons : CronsValid s) (hok : Committed s e)
    (hstep : s.step next_run same e = some s')
    (hclock : s.clock ≤ s'.clock) (hsame : s'.executions = s.executions) : Fired s' := by
  constructor
  · intro e he
    rw [hsame] at he
    exact Int.le_trans (h.past e he) hclock
  · intro e he row hrow
    rw [hsame] at he
    exact next_run_at_step hnext hcrons hstep (h.past e he) (hok.read he) (h.behind e he) hrow
  · rw [hsame]
    exact h.once

theorem fired_step (hnext : ∀ cron t, is_valid cron = true → t < next_run cron t)
    {s s' : ScheduleTable is_valid} {e : TableEvent is_valid} (hnodup : (s.rows.map Prod.fst).Nodup)
    (hcrons : CronsValid s) (h : Fired s)
    (hok : Committed s e) (hstep : s.step next_run same e = some s') : Fired s' := by
  cases e with
  | tick d =>
      refine h.of_same hnext hcrons hok hstep ?_ (by cases hstep; rfl)
      cases hstep
      exact Int.le_add_of_nonneg_right (Int.natCast_nonneg d)
  | restart registry =>
      exact h.of_same hnext hcrons hok hstep (by cases hstep; exact Int.le_refl _)
        (by cases hstep; rfl)
  | sync now =>
      obtain ⟨-, rfl⟩ := step_sync hstep
      exact h.of_same hnext hcrons hok hstep (Int.le_refl _) rfl
  | run pipeline_name triggered_at =>
      obtain ⟨-, rfl⟩ := step_run hstep
      exact h.of_same hnext hcrons hok hstep (Int.le_refl _) rfl
  | roll_back created uuid =>
      refine h.of_same hnext hcrons hok hstep (by cases hstep; exact Int.le_refl _) ?_
      cases hstep
      show s.create_executions created uuid ++ s.executions = s.executions
      rw [hok.1 created uuid rfl, List.nil_append]
  | poll outcome uuid =>
      have hrows := fun k row (hrow : s'.rows.lookup k = some row) => lookup_step hstep k ▸ hrow
      have hbehind : ∀ e ∈ s.executions, ∀ row, s'.rows.lookup e.schedule = some row →
          e.due < row.next_run_at :=
        fun e he row => next_run_at_step hnext hcrons hstep (h.past e he)
          (hok.read he) (h.behind e he)
      cases hstep
      constructor
      · intro e he
        rcases List.mem_append.mp he with he | he
        · obtain ⟨row, -, hdue, -, heq⟩ := (mem_create_executions hnodup).mp he
          simp only [PipelineSchedule.is_due, Bool.and_eq_true, decide_eq_true_eq] at hdue
          rw [heq]
          exact hdue.2
        · exact h.past e he
      · intro e he row hrow
        obtain ⟨old, hold, hpoll⟩ := Option.map_eq_some_iff.mp (hrows e.schedule row hrow)
        rcases List.mem_append.mp he with he | he
        · obtain ⟨row', hrow', hdue, -, heq⟩ := (mem_create_executions hnodup).mp he
          rw [hold] at hrow'
          cases hrow'
          have hdue' : e.due ≤ s.clock := by
            simp only [PipelineSchedule.is_due, Bool.and_eq_true, decide_eq_true_eq] at hdue
            rw [heq]
            exact hdue.2
          rw [← hpoll]
          refine Int.lt_of_le_of_lt hdue'
            (poll_row_after hnext (hcrons _ old hold) outcome uuid _ ?_)
          simp only [PipelineSchedule.is_due, Bool.and_eq_true] at hdue
          exact hdue.1
        · exact hbehind e he row hrow
      · show (_ ++ s.executions).Pairwise _
        rw [List.pairwise_append]
        refine ⟨?_, h.once, ?_⟩
        · refine (List.pairwise_map.mp
            (create_executions_nodup hnodup _ uuid)).imp fun hne heq => ?_
          exact absurd heq hne
        · intro e he e' he' hsame
          obtain ⟨row, hrow, -, -, heq⟩ := (mem_create_executions hnodup).mp he
          rw [heq]
          exact h.behind e' he' row (hsame ▸ hrow)

theorem fired_of_reach (hnext : ∀ cron t, is_valid cron = true → t < next_run cron t)
    {s : ScheduleTable is_valid}
    (hr : Reach (ScheduleTable.step next_run same) ScheduleTable.Initial Committed s) :
      Fired s := by
  refine hr.invariant (fun s hs => ?_) fun s e s' hr h hok hstep =>
    fired_step hnext (nodup_of_reach hr) (cronsValid_of_reach hr) h hok hstep
  have hnone : s.executions = [] := hs.2.2.1
  constructor
  · intro e he
    rw [hnone] at he
    cases he
  · intro e he
    rw [hnone] at he
    cases he
  · rw [hnone]
    exact List.Pairwise.nil

end Once

section Timers

-- Schedule `k` is run neither by a poll nor by hand, and no sync finds it declared with
-- another expression. It may be disabled and declared again, and polls may be rolled back.
def Keeps (k : ScheduleKey) (cron : String) (s : ScheduleTable is_valid) :
    TableEvent is_valid → Prop
  | .sync _ => ∀ run ∈ s.registry.declared.lookup k, run.cron = cron
  | .poll _ _ => ∀ row ∈ s.rows.lookup k, row.is_due s.clock = false
  | .run pipeline_name _ => k.pipeline_name ≠ pipeline_name
  | _ => True

instance (k : ScheduleKey) (cron : String) (s : ScheduleTable is_valid) :
    (e : TableEvent is_valid) → Decidable (Keeps k cron s e)
  | .sync _ => inferInstanceAs (Decidable (∀ run ∈ s.registry.declared.lookup k, run.cron = cron))
  | .poll _ _ => inferInstanceAs (Decidable (∀ row ∈ s.rows.lookup k, row.is_due s.clock = false))
  | .run pipeline_name _ => inferInstanceAs (Decidable (k.pipeline_name ≠ pipeline_name))
  | .tick _ => .isTrue trivial
  | .restart _ => .isTrue trivial
  | .roll_back _ _ => .isTrue trivial

def PipelineSchedule.timer (row : PipelineSchedule) : String × Int :=
  (row.cron_expression, row.next_run_at)

theorem timer_step {s s' : ScheduleTable is_valid} {e : TableEvent is_valid} {k : ScheduleKey}
    {cron : String} {due : Int}
    (h : (s.rows.lookup k).map PipelineSchedule.timer = some (cron, due)) (hok : Keeps k cron s e)
    (hstep : s.step next_run same e = some s') : (s'.rows.lookup k).map PipelineSchedule.timer =
      some (cron, due) := by
  obtain ⟨row, hrow, htimer⟩ := Option.map_eq_some_iff.mp h
  rw [lookup_step hstep k]
  cases e with
  | sync now =>
      simp only [ScheduleTable.row_after, hrow]
      split
      · rename_i run hrun
        cases htimer
        simp only [Option.map_some, PipelineSchedule.timer, ScheduledRun.upsert, hok run hrun,
          ne_eq, not_true_eq_false,
          if_false]
      · exact congrArg some htimer
  | poll outcome uuid =>
      simp only [ScheduleTable.row_after, hrow, Option.map_some,
        ScheduleTable.poll_row, hok row hrow]
      exact congrArg some htimer
  | run pipeline_name triggered_at =>
      have hother : ¬(k.pipeline_name = pipeline_name ∧ row.enabled = true) :=
        fun hboth => hok hboth.1
      simp only [ScheduleTable.row_after, hrow, Option.map_some,
        ScheduleTable.reset_row, if_neg hother]
      exact congrArg some htimer
  | tick d => exact h
  | restart registry => exact h
  | roll_back created uuid => exact h

-- The executions of a poll for one schedule.
theorem created_for {s : ScheduleTable is_valid} (hnodup : (s.rows.map Prod.fst).Nodup)
    {created : ScheduleKey → Bool}
    {uuid : ScheduleKey → ℕ} {k : ScheduleKey} {row : PipelineSchedule}
    (hrow : s.rows.lookup k = some row)
    (hdue : row.is_due s.clock = true) (hcreated : created k = true) :
    (s.create_executions created uuid).filter (fun e => e.schedule = k) =
      [⟨⟨k.schedule_name, uuid k⟩, k.pipeline_name, row.runtime_params, k, row.next_run_at⟩] := by
  have hone : ((s.create_executions created uuid).filter fun e => e.schedule = k).length ≤ 1 := by
    have hcount := List.nodup_iff_count_le_one.mp (create_executions_nodup hnodup created uuid) k
    rw [List.count_eq_countP, List.countP_map, List.countP_eq_length_filter] at hcount
    exact hcount
  have hmem : (⟨⟨k.schedule_name, uuid k⟩, k.pipeline_name, row.runtime_params, k,
    row.next_run_at⟩ : ScheduledExecution) ∈
      (s.create_executions created uuid).filter fun e => e.schedule = k := by
    rw [List.mem_filter]
    exact ⟨(mem_create_executions hnodup).mpr ⟨row, hrow, hdue, hcreated, rfl⟩, decide_eq_true rfl⟩
  obtain ⟨e, he⟩ := List.length_eq_one_iff.mp (Nat.le_antisymm hone (List.length_pos_of_mem hmem))
  rw [he, List.mem_singleton] at hmem
  rw [he, hmem]

end Timers

section Main

-- Once a process has synced, and until the next one is started, the table says what the
-- registry says, syncing again changes nothing, and what a poll creates is declared.
theorem registry_mirrored {s : ScheduleTable is_valid}
    (hr : Reach (ScheduleTable.step next_run same) ScheduleTable.Initial (fun _ _ => True) s)
    (hsynced : s.synced = true) :
    (∀ k run, s.registry.declared.lookup k = some run → ∃ row, s.rows.lookup k = some row ∧
      Declares same run row) ∧
      (∀ k, s.registry.declared.lookup k = none → ∀ row, s.rows.lookup k = some row →
        row.enabled = false) ∧
      (∀ now s', s.step next_run same (.sync now) = some s' →
        ∀ k, s'.rows.lookup k = s.rows.lookup k) ∧
      ∀ outcome uuid s', s.step next_run same (.poll outcome uuid) = some s' →
        ∃ created, s'.executions = created ++ s.executions ∧
          (created.map ScheduledExecution.schedule).Nodup ∧
          (∀ e ∈ created, ∃ run row, s.registry.declared.lookup e.schedule = some run ∧
            s.rows.lookup e.schedule = some row ∧ row.next_run_at ≤ s.clock ∧
              e.due = row.next_run_at ∧
            e.pipeline_name = e.schedule.pipeline_name ∧
            (e.runtime_params = run.params ∨ same e.runtime_params run.params = true)) ∧
          ∀ k run row, s.registry.declared.lookup k = some run → s.rows.lookup k = some row →
            row.next_run_at ≤ s.clock → (outcome k).created = true →
              ∃ e ∈ created, e.schedule = k := by
  have hmirrored := mirrored_of_reach hr hsynced
  have hnodup := nodup_of_reach hr
  refine ⟨hmirrored.declared, hmirrored.others, ?_, ?_⟩
  · intro now s' hstep k
    rw [lookup_step hstep k]
    simp only [ScheduleTable.row_after]
    split
    · rename_i run hrun
      obtain ⟨row, hrow, hdeclares⟩ := hmirrored.declared k run hrun
      rw [hrow, upsert_of_declares hdeclares]
    · rename_i hnone
      cases hrow : s.rows.lookup k with
      | none => rfl
      | some row =>
          have hdisabled := hmirrored.others k hnone row hrow
          rw [Option.map_some, ← hdisabled]
  · intro outcome uuid s' hstep
    cases hstep
    refine ⟨_, rfl, create_executions_nodup hnodup _ uuid, fun e he => ?_,
      fun k run row hrun hrow hdue hcreated => ?_⟩
    · obtain ⟨row, hrow, hdue, -, heq⟩ := (mem_create_executions hnodup).mp he
      simp only [PipelineSchedule.is_due, Bool.and_eq_true, decide_eq_true_eq] at hdue
      cases hrun : s.registry.declared.lookup e.schedule with
      | none =>
          rw [hmirrored.others _ hrun row hrow] at hdue
          cases hdue.1
      | some run =>
          obtain ⟨row', hrow', hdeclares⟩ := hmirrored.declared _ run hrun
          rw [hrow] at hrow'
          cases hrow'
          refine ⟨run, row, rfl, hrow, hdue.2, ?_, ?_, ?_⟩
          · rw [heq]
          · rw [heq]
          · rw [heq]
            exact hdeclares.runtime_params
    · obtain ⟨row', hrow', hdeclares⟩ := hmirrored.declared k run hrun
      rw [hrow] at hrow'
      cases hrow'
      have hrow_due : row.is_due s.clock = true := by
        simp only [PipelineSchedule.is_due, hdeclares.enabled, Bool.true_and, decide_eq_true_eq]
        exact hdue
      exact ⟨⟨⟨k.schedule_name, uuid k⟩, k.pipeline_name, row.runtime_params, k, row.next_run_at⟩,
        (mem_create_executions hnodup).mpr ⟨row, hrow, hrow_due, hcreated, rfl⟩, rfl⟩

def every_hour (cron : String) : Bool := cron = "0 * * * *"

-- `==` where "mode" is the only param.
def same_mode (params others : Params) : Bool :=
  match params "mode", others "mode" with
  | none, none => true
  | some (.str m), some (.str m') => m = m'
  | _, _ => false

def mode (m : String) : Params := Params.empty.set "mode" (.str m)

def orders : ScheduledPipeline every_hour :=
  ⟨"orders", [⟨"nightly", "0 * * * *", mode "full"⟩, ⟨"fresh", "0 * * * *", mode "fast"⟩], rfl⟩

-- A table with `nightly`, which is due, and a schedule that is no longer declared.
def orders_table : ScheduleTable every_hour where
  clock := hour + 1000
  rows :=
    [(⟨"orders", "weekly"⟩, ⟨"0 * * * *", .empty, hour, none, none, true⟩),
      (nightly, ⟨"0 * * * *", .empty, hour, none, none, true⟩)]
  executions := []
  registry := .empty
  synced := false

theorem initial_orders_table : orders_table.Initial := by
  refine ⟨by decide, fun entry hentry => ?_, rfl, rfl⟩
  rcases List.mem_cons.mp hentry with rfl | hentry
  · rfl
  · rcases List.mem_cons.mp hentry with rfl | hentry
    · rfl
    · cases hentry

def fired (s : ScheduleTable every_hour) : List (ScheduleKey × Int) := s.executions.map fun e =>
    (e.schedule, e.due)

-- The poll after a sync runs `nightly` and not `weekly`, which the sync has disabled.
theorem registry_mirrored_orders : ∃ s : ScheduleTable every_hour,
    Reach (ScheduleTable.step hourly same_mode) ScheduleTable.Initial
      (fun _ _ => True) s ∧ s.synced = true ∧
      fired s = [(nightly, hour)] ∧ Mirrored same_mode s := by
  obtain ⟨s, hr, -, htest⟩ := Reach.replay (ScheduleTable.step hourly same_mode)
    ScheduleTable.Initial
    (fun _ _ => True) (fun _ _ => true) (fun _ _ _ => trivial) initial_orders_table
    [.restart (PipelineRegistry.empty.register orders), .sync hour,
      .poll (fun _ => .dispatched) fun _ => 7, .sync hour]
    (fun s => s.synced = true ∧ fired s = [(nightly, hour)]) (by decide +kernel)
  have htest' : s.synced = true ∧ fired s = [(nightly, hour)] := of_decide_eq_true htest
  have hmirrored := registry_mirrored hr htest'.1
  exact ⟨s, hr, htest'.1, htest'.2, hmirrored.1, hmirrored.2.1⟩

-- Without a poll that is rolled back, no instant of a schedule is run twice, over any
-- number of restarts, changed expressions and manual runs. An instant is not lost either:
-- a timer that no poll has come to is still there after the restarts, and the next poll
-- runs it, once.
theorem due_once_across_restarts (hnext : ∀ cron t, is_valid cron = true → t < next_run cron t) :
    (∀ s : ScheduleTable is_valid, Reach (ScheduleTable.step next_run same)
      ScheduleTable.Initial Committed s →
      s.executions.Pairwise fun e e' => e.schedule = e'.schedule → e'.due < e.due) ∧
    ∀ (s s' : ScheduleTable is_valid) (k : ScheduleKey) (row : PipelineSchedule),
      Reach (ScheduleTable.step next_run same) ScheduleTable.Initial (fun _ _ => True) s →
      s.rows.lookup k = some row →
        Path (ScheduleTable.step next_run same) (Keeps k row.cron_expression) s s' →
      ∃ row', s'.rows.lookup k = some row' ∧ row'.cron_expression = row.cron_expression ∧
        row'.next_run_at = row.next_run_at ∧
        ∀ outcome uuid s'', row'.enabled = true → row.next_run_at ≤ s'.clock →
          (outcome k).created = true →
          s'.step next_run same (.poll outcome uuid) = some s'' →
          ((s''.executions.filter fun e => e.schedule = k).map ScheduledExecution.due =
            row.next_run_at :: (s'.executions.filter fun e => e.schedule = k).map
              ScheduledExecution.due) ∧
          ∀ row'', s''.rows.lookup k = some row'' → s''.clock < row''.next_run_at := by
  refine ⟨fun s hr => (fired_of_reach hnext hr).once, fun s s' k row hr hrow hpath => ?_⟩
  have htimer : (s'.rows.lookup k).map PipelineSchedule.timer =
      some (row.cron_expression, row.next_run_at) :=
    hpath.invariant (I := fun s' => (s'.rows.lookup k).map PipelineSchedule.timer =
      some (row.cron_expression, row.next_run_at))
      (fun _ _ _ h hok hstep => timer_step h hok hstep) (by rw [hrow]; rfl)
  have hr' : Reach (ScheduleTable.step next_run same) ScheduleTable.Initial (fun _ _ => True) s' :=
    hpath.invariant (fun _ _ _ h _ hstep => h.step trivial hstep) hr
  have hnodup := nodup_of_reach hr'
  obtain ⟨row', hrow', heq⟩ := Option.map_eq_some_iff.mp htimer
  have hcron : row'.cron_expression = row.cron_expression := congrArg Prod.fst heq
  have hwhen : row'.next_run_at = row.next_run_at := congrArg Prod.snd heq
  refine ⟨row', hrow', hcron, hwhen, fun outcome uuid s'' henabled hdue hcreated hstep => ⟨?_, ?_⟩⟩
  · have hrow_due : row'.is_due s'.clock = true := by
      simp only [PipelineSchedule.is_due, henabled, Bool.true_and, decide_eq_true_eq, hwhen]
      exact hdue
    cases hstep
    show ((_ ++ s'.executions).filter _).map _ = _
    rw [List.filter_append, created_for hnodup hrow' hrow_due hcreated, List.map_append, ← hwhen]
    rfl
  · intro row'' hrow''
    rw [lookup_step hstep k] at hrow''
    obtain ⟨old, hold, rfl⟩ := Option.map_eq_some_iff.mp hrow''
    rw [hrow'] at hold
    cases hold
    have hlater := @poll_row_after _ _ s'.clock hnext row' (cronsValid_of_reach hr' k row' hrow')
      outcome uuid k henabled
    cases hstep
    exact hlater

def committed (s : ScheduleTable every_hour) (e : TableEvent every_hour) : Bool :=
  (match e with
    | .roll_back created uuid => (s.create_executions created uuid).isEmpty
    | _ => true) &&
    s.executions.all fun fired => (e.reads fired.schedule.pipeline_name).all
      fun at_ => fired.due ≤ at_

theorem of_committed {s : ScheduleTable every_hour} {e : TableEvent every_hour}
    (h : committed s e = true) :
    Committed s e := by
  simp only [committed, Bool.and_eq_true, List.all_eq_true] at h
  obtain ⟨hcreated, hreads⟩ := h
  refine ⟨fun created uuid he => ?_, fun fired hfired at_ hread => ?_⟩
  · subst he
    exact List.isEmpty_iff.mp hcreated
  · have hall := hreads fired hfired
    rw [hread, Option.all_some] at hall
    exact of_decide_eq_true hall

-- `nightly` runs at one o'clock and, though its pipeline is run by hand and the process
-- restarted in between, again at two, once each. And from the start it waits through a restart, a
-- poll that is rolled back and a sync that declares it again, and is run by the poll after them.
theorem due_once_across_restarts_orders :
    (∃ s : ScheduleTable every_hour, Reach (ScheduleTable.step hourly same_mode)
      ScheduleTable.Initial Committed s ∧
      fired s = [(nightly, 2 * hour), (⟨"orders", "fresh"⟩, 2 * hour), (nightly, hour)] ∧
      s.executions.Pairwise fun e e' => e.schedule = e'.schedule → e'.due < e.due) ∧
      ∃ s' : ScheduleTable every_hour, Path (ScheduleTable.step hourly same_mode)
        (Keeps nightly "0 * * * *") orders_table s' ∧
        fired s' = [(nightly, hour)] ∧ ∃ row', s'.rows.lookup nightly = some row' ∧
          row'.next_run_at = hour := by
  obtain ⟨s, hr, -, hfired⟩ := Reach.replay (ScheduleTable.step hourly same_mode)
    ScheduleTable.Initial Committed
    committed (fun _ _ => of_committed) initial_orders_table
    [.restart (PipelineRegistry.empty.register orders), .sync hour,
      .poll (fun _ => .dispatched) fun _ => 7,
      .run "orders" (hour + 500), .restart (PipelineRegistry.empty.register orders),
        .sync (hour + 1000),
      .tick 3600000000, .poll (fun _ => .dispatched) fun _ => 8]
    (fun s => fired s = [(nightly, 2 * hour), (⟨"orders", "fresh"⟩, 2 * hour), (nightly, hour)])
      (by decide +kernel)
  obtain ⟨s', hpath, -, htest⟩ := Path.replay (ScheduleTable.step hourly same_mode)
    (Keeps nightly "0 * * * *")
    (fun s e => decide (Keeps nightly "0 * * * *" s e)) (fun _ _ => of_decide_eq_true)
      (s := orders_table)
    [.restart (PipelineRegistry.empty.register orders), .sync hour,
      .roll_back (fun _ => true) fun _ => 7]
    (fun s => fired s = [(nightly, hour)]) (by decide +kernel)
  have hmain := @due_once_across_restarts every_hour hourly same_mode
    fun cron t _ => lt_hourly cron t
  obtain ⟨row', hrow', -, hwhen, -⟩ :=
    hmain.2 orders_table s' nightly _ (.init initial_orders_table) rfl hpath
  exact ⟨⟨s, hr, of_decide_eq_true hfired, hmain.1 s hr⟩, s', hpath, of_decide_eq_true htest,
    row', hrow', hwhen⟩

end Main

end Reflowfy.PipelineScheduler
