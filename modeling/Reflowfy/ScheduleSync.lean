import Reflowfy.Assoc.Upserts
import Reflowfy.PipelineScheduler

namespace Reflowfy.PipelineScheduler

structure ScheduledRun where
  name : String
  cron : String
  params : Params

-- `croniter.is_valid`.
variable (is_valid : String → Bool)

def validate_schedules_after (pipeline_name : String) (seen_names : List String) :
    List ScheduledRun → Except String Unit
  | [] => .ok ()
  | run :: schedules =>
      if run.name ∈ seen_names then
        .error (s!"Pipeline '{pipeline_name}' has duplicate schedule name '{run.name}' " ++
          "— schedule names must be unique per pipeline.")
      else if is_valid run.cron then
        validate_schedules_after pipeline_name (run.name :: seen_names) schedules
      else
        .error (s!"Pipeline '{pipeline_name}' schedule '{run.name}' has invalid cron " ++
          s!"expression: '{run.cron}'. (reflowfy uses 5-field cron: minute hour day month weekday)")

def validate_schedules (pipeline_name : String) (schedules : List ScheduledRun) :
    Except String Unit :=
  validate_schedules_after is_valid pipeline_name [] schedules

-- What the scheduler reads of a pipeline, whose constructor raises what the check says.
structure ScheduledPipeline where
  name : String
  schedules : List ScheduledRun
  validated : validate_schedules is_valid name schedules = .ok ()

structure PipelineRegistry where
  pipelines : List (ScheduledPipeline is_valid)
  unique : (pipelines.map ScheduledPipeline.name).Nodup

namespace PipelineRegistry

variable {is_valid}

def empty : PipelineRegistry is_valid := ⟨[], List.nodup_nil⟩

-- A second pipeline of a name is skipped.
def register (registry : PipelineRegistry is_valid) (pipeline : ScheduledPipeline is_valid) :
    PipelineRegistry is_valid :=
  if h : pipeline.name ∈ registry.pipelines.map ScheduledPipeline.name then registry
  else
    { pipelines := registry.pipelines ++ [pipeline]
      unique := by
        rw [List.map_append]
        exact List.nodup_append.mpr
            ⟨registry.unique, List.nodup_singleton _, fun name hname other hother heq =>
          h (by rwa [heq, List.mem_singleton.mp hother] at hname)⟩ }

-- The `scheduled_keys` of a sync, each with its run.
def declared (registry : PipelineRegistry is_valid) : List (ScheduleKey × ScheduledRun) :=
  registry.pipelines.flatMap fun pipeline => pipeline.schedules.map fun run =>
    (⟨pipeline.name, run.name⟩, run)

end PipelineRegistry

-- `_compute_next_run`, and `==` on two dicts of params.
variable (next_run : String → Int → Int) (same : Params → Params → Bool)

-- The row that a sync leaves for a schedule that is declared.
def ScheduledRun.upsert (now : Int) (run : ScheduledRun) :
    Option PipelineSchedule → PipelineSchedule
  | none => ⟨run.cron, run.params, next_run run.cron now, none, none, true⟩
  | some existing =>
      { existing with
        enabled := true
        cron_expression := run.cron
        next_run_at := if existing.cron_expression ≠ run.cron then next_run run.cron now
          else existing.next_run_at
        runtime_params := if same existing.runtime_params run.params then
          existing.runtime_params else run.params }

def PipelineSchedule.soft_disable (scheduled_keys : List ScheduleKey) (k : ScheduleKey)
    (row : PipelineSchedule) :
    PipelineSchedule :=
  if row.enabled ∧ k ∉ scheduled_keys then { row with enabled := false } else row

def PipelineSchedule.is_due (row : PipelineSchedule) (now : Int) : Bool :=
  row.enabled && row.next_run_at ≤ now

-- The table between two commits, and the pipelines that the running process has loaded. A
-- poll is one step: it overlaps no other transaction. What a sync or a manual run writes is
-- one step too, but the time it goes by was read before it, and polls may have committed
-- since.
structure ScheduleTable where
  clock : Int
  rows : Writes
  executions : List ScheduledExecution
  registry : PipelineRegistry is_valid
  synced : Bool

inductive TableEvent
  | tick (d : ℕ)
  -- a new process has loaded its pipelines; its scheduler polls from here on
  | restart (registry : PipelineRegistry is_valid)
  | sync (now : Int)
  | poll (outcome : ScheduleKey → TriggerOutcome) (uuid : ScheduleKey → ℕ)
  -- a poll that is rolled back, after the executions of some of the schedules
  | roll_back (created : ScheduleKey → Bool) (uuid : ScheduleKey → ℕ)
  | run (pipeline_name : String) (triggered_at : Int)

namespace ScheduleTable

variable {is_valid}

def sync_schedules_from_registry (s : ScheduleTable is_valid) (now : Int) : Writes :=
  (s.registry.declared.foldl
    (Assoc.upsert fun _ run row => run.upsert next_run same now row) s.rows).map
    fun entry => (entry.1, entry.2.soft_disable (s.registry.declared.map Prod.fst) entry.1)

-- The rows that are due; no other poll has any of them locked.
def due (s : ScheduleTable is_valid) : Writes := s.rows.filter fun entry => entry.2.is_due s.clock

-- `_create_execution` for those of them that get that far.
def create_executions (s : ScheduleTable is_valid) (created : ScheduleKey → Bool)
    (uuid : ScheduleKey → ℕ) :
    List ScheduledExecution :=
  (s.due.filter fun entry => created entry.1).map fun entry =>
    ⟨⟨entry.1.schedule_name, uuid entry.1⟩, entry.1.pipeline_name, entry.2.runtime_params, entry.1,
      entry.2.next_run_at⟩

def poll_row (now : Int) (outcome : ScheduleKey → TriggerOutcome)
    (uuid : ScheduleKey → ℕ) (k : ScheduleKey) (row : PipelineSchedule) : PipelineSchedule :=
  if row.is_due now then row.trigger next_run now (outcome k) ⟨k.schedule_name, uuid k⟩ else row

def reset_row (triggered_at : Int) (pipeline_name : String) (k : ScheduleKey)
    (row : PipelineSchedule) : PipelineSchedule :=
  if k.pipeline_name = pipeline_name ∧ row.enabled then row.reset next_run triggered_at else row

def step (s : ScheduleTable is_valid) : TableEvent is_valid → Option (ScheduleTable is_valid)
  | .tick d => some { s with clock := s.clock + d }
  | .restart registry => some { s with registry, synced := false }
  | .sync now =>
      if now ≤ s.clock then
        some { s with rows := s.sync_schedules_from_registry next_run same now, synced := true }
      else none
  | .poll outcome uuid => some
      { s with
        rows := s.rows.map fun entry =>
          (entry.1, poll_row next_run s.clock outcome uuid entry.1 entry.2)
        executions := s.create_executions (fun k => (outcome k).created) uuid ++ s.executions }
  | .roll_back created uuid =>
      some { s with executions := s.create_executions created uuid ++ s.executions }
  | .run pipeline_name triggered_at =>
      if triggered_at ≤ s.clock then
        some { s with rows := s.rows.map fun entry =>
          (entry.1, reset_row next_run triggered_at pipeline_name entry.1 entry.2) }
      else none

-- A table of an earlier process.
def Initial (s : ScheduleTable is_valid) : Prop :=
  (s.rows.map Prod.fst).Nodup ∧ (∀ entry ∈ s.rows, is_valid entry.2.cron_expression) ∧
    s.executions = [] ∧
    s.synced = false

end ScheduleTable

section Declared

variable {is_valid next_run same}

theorem validated_after {pipeline_name : String} {seen_names : List String}
    {schedules : List ScheduledRun}
    (h : validate_schedules_after is_valid pipeline_name seen_names schedules = .ok ()) :
    (schedules.map ScheduledRun.name).Nodup ∧ (∀ run ∈ schedules, run.name ∉ seen_names) ∧
      ∀ run ∈ schedules, is_valid run.cron = true := by
  induction schedules generalizing seen_names with
  | nil => simp
  | cons run schedules ih =>
      unfold validate_schedules_after at h
      split at h
      · cases h
      · rename_i hseen
        split at h
        · rename_i hcron
          obtain ⟨hnodup, hfresh, hvalid⟩ := ih h
          refine ⟨?_, ?_, ?_⟩
          · rw [List.map_cons, List.nodup_cons]
            refine ⟨fun hmem => ?_, hnodup⟩
            obtain ⟨other, hother, heq⟩ := List.mem_map.mp hmem
            exact hfresh other hother (heq ▸ List.mem_cons_self)
          · intro other hother
            rcases List.mem_cons.mp hother with rfl | hother
            · exact hseen
            · exact fun hmem => hfresh other hother (List.mem_cons_of_mem _ hmem)
          · intro other hother
            rcases List.mem_cons.mp hother with rfl | hother
            · exact hcron
            · exact hvalid other hother
        · cases h

theorem ScheduledPipeline.names_nodup (pipeline : ScheduledPipeline is_valid) :
    (pipeline.schedules.map ScheduledRun.name).Nodup := (validated_after pipeline.validated).1

theorem ScheduledPipeline.cron_valid (pipeline : ScheduledPipeline is_valid) {run : ScheduledRun}
    (h : run ∈ pipeline.schedules) : is_valid run.cron = true :=
  (validated_after pipeline.validated).2.2 run h

namespace PipelineRegistry

variable (registry : PipelineRegistry is_valid)

theorem declared_nodup : (registry.declared.map Prod.fst).Nodup := by
  unfold declared
  rw [List.map_flatMap, List.nodup_flatMap]
  constructor
  · intro pipeline _
    rw [List.map_map]
    refine List.Nodup.of_map ScheduleKey.schedule_name ?_
    rw [List.map_map]
    exact pipeline.names_nodup
  · refine (List.pairwise_map.mp registry.unique).imp fun hne => ?_
    refine List.disjoint_left.mpr fun k hk hk' => ?_
    simp only [List.mem_map, exists_exists_and_eq_and] at hk hk'
    obtain ⟨run, -, rfl⟩ := hk
    obtain ⟨run', -, heq⟩ := hk'
    exact hne (congrArg ScheduleKey.pipeline_name heq).symm

theorem declared_cron_valid {k : ScheduleKey} {run : ScheduledRun}
    (h : registry.declared.lookup k = some run) :
    is_valid run.cron = true := by
  obtain ⟨pipeline, -, hrun⟩ := List.mem_flatMap.mp (Interleaving.mem_of_lookup_eq_some h)
  obtain ⟨run', hmem, heq⟩ := List.mem_map.mp hrun
  cases heq
  exact pipeline.cron_valid hmem

end PipelineRegistry

namespace ScheduleTable

-- What a sync leaves of each row.
theorem lookup_sync (s : ScheduleTable is_valid) (now : Int) (k : ScheduleKey) :
    (s.sync_schedules_from_registry next_run same now).lookup k =
      match s.registry.declared.lookup k with
      | some run => some (run.upsert next_run same now (s.rows.lookup k))
      | none => (s.rows.lookup k).map fun row => { row with enabled := false } := by
  unfold sync_schedules_from_registry
  rw [Assoc.lookup_map_keyed, Assoc.lookup_upserts _ _ _ s.registry.declared_nodup]
  cases hrun : s.registry.declared.lookup k with
  | none =>
      have hk : k ∉ s.registry.declared.map Prod.fst := fun hmem => by
        obtain ⟨run, hsome, -⟩ := Interleaving.exists_lookup_eq_some hmem
        rw [hrun] at hsome
        cases hsome
      refine congrArg (fun f => (s.rows.lookup k).map f) (funext fun row => ?_)
      unfold PipelineSchedule.soft_disable
      split
      · rfl
      · rename_i hno
        have henabled : row.enabled = false := by simpa [hk] using hno
        rw [← henabled]
  | some run =>
      have hk : k ∈ s.registry.declared.map Prod.fst :=
        List.mem_map_of_mem (f := Prod.fst) (Interleaving.mem_of_lookup_eq_some hrun)
      simp only [Option.map_some, PipelineSchedule.soft_disable, hk, not_true_eq_false,
        and_false, if_false]

end ScheduleTable

end Declared

end Reflowfy.PipelineScheduler
