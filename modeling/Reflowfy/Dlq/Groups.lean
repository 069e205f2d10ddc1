import Reflowfy.DlqGroups
import Reflowfy.Dlq.Refinement
import Reflowfy.Json.RoundTrip

namespace Reflowfy.DLQScheduler

open Interleaving

section Grouping

variable {α κ : Type} [DecidableEq κ] (key : α → κ)

-- What the jobs still to come make of the first group, and of the others.
theorem foldl_append_to_cons (k : κ) (first : List α) (groups : List (κ × List α)) (jobs : List α) :
    jobs.foldl (fun groups job => append_to (key job) job groups) ((k, first) :: groups) =
      (k, first ++ jobs.filter fun job => key job = k) ::
        (jobs.filter fun job => key job ≠ k).foldl
        (fun groups job => append_to (key job) job groups) groups := by
  induction jobs generalizing first groups with
  | nil => simp
  | cons job jobs ih =>
      by_cases hk : k = key job
      · subst hk
        simp only [List.foldl_cons, append_to, if_true, ih, List.append_assoc,
          List.singleton_append, decide_true,
          List.filter_cons_of_pos, ne_eq, not_true, decide_false, Bool.false_eq_true,
            not_false_eq_true,
          List.filter_cons_of_neg]
      · have hk' : ¬key job = k := fun h => hk h.symm
        simp only [List.foldl_cons, append_to, if_neg hk, ih, List.filter_cons, hk',
          decide_false, ne_eq,
          not_false_eq_true, decide_true, if_true, Bool.false_eq_true, if_false]

-- The first job's group, and the groups of the jobs with other keys.
theorem group_by_cons (job : α) (jobs : List α) :
    group_by key (job :: jobs) =
      (job :: jobs.filter fun other => key other = key job) ::
        group_by key (jobs.filter fun other => key other ≠ key job) := by
  simp only [group_by, List.foldl_cons, append_to, foldl_append_to_cons, List.map_cons,
    List.singleton_append]

-- The induction that goes with it.
theorem group_induction {motive : List α → Prop} (nil : motive [])
    (cons : ∀ job jobs, motive (jobs.filter fun other => key other ≠ key job) →
      motive (job :: jobs)) (jobs : List α) :
    motive jobs := by
  induction hn : jobs.length using Nat.strong_induction_on generalizing jobs with
  | _ n ih =>
      cases jobs with
      | nil => exact nil
      | cons job jobs =>
          refine cons job jobs (ih _ ?_ _ rfl)
          rw [← hn, List.length_cons]
          exact Nat.lt_succ_of_le (List.length_filter_le _ _)

variable {key}

-- A group is in the order of its jobs, and all of them have one key.
theorem mem_group_by {jobs group : List α} (h : group ∈ group_by key jobs) :
    group.Sublist jobs ∧ group ≠ [] ∧ ∀ job ∈ group, ∀ other ∈ jobs, other ∈ group ↔
      key other = key job := by
  induction jobs using group_induction key with
  | nil => simp [group_by] at h
  | cons job jobs ih =>
      rw [group_by_cons, List.mem_cons] at h
      rcases h with rfl | h
      · refine ⟨List.filter_sublist.cons_cons _, List.cons_ne_nil _ _,
          fun first hfirst other hother => ?_⟩
        have hkey : key first = key job := by
          rcases List.mem_cons.mp hfirst with rfl | hmem
          · rfl
          · simpa using (List.mem_filter.mp hmem).2
        rw [hkey]
        rcases List.mem_cons.mp hother with rfl | hmem
        · simp
        · by_cases hsame : key other = key job
          · simp [hmem, hsame]
          · have hne : other ≠ job := fun h => hsame (by rw [h])
            simp [hne, hsame]
      · obtain ⟨hsub, hne, hall⟩ := ih h
        refine ⟨(hsub.trans List.filter_sublist).cons _, hne, fun first hfirst other hother => ?_⟩
        have hkey : key first ≠ key job := by
          simpa using (List.mem_filter.mp (hsub.subset hfirst)).2
        have hmem_filter : ∀ other ∈ group, key other ≠ key job := fun other hmem => by
          simpa using (List.mem_filter.mp (hsub.subset hmem)).2
        rcases List.mem_cons.mp hother with rfl | hmem
        · exact ⟨fun hmem => absurd rfl (hmem_filter _ hmem), fun h => absurd h.symm hkey⟩
        · by_cases hother : key other = key job
          · exact ⟨fun hmem => absurd hother (hmem_filter _ hmem),
              fun h => absurd (h.symm.trans hother) hkey⟩
          · exact hall first hfirst other (List.mem_filter.mpr ⟨hmem, by simpa using hother⟩)

-- The groups are in the order of their first jobs.
theorem heads_sublist (jobs : List α) :
    ((group_by key jobs).filterMap List.head?).Sublist jobs := by
  induction jobs using group_induction key with
  | nil => simp [group_by]
  | cons job jobs ih =>
      simp only [group_by_cons, List.filterMap_cons, List.head?_cons]
      exact (ih.trans List.filter_sublist).cons_cons _

variable (key) in
theorem exists_group {jobs : List α} {job : α} (h : job ∈ jobs) :
    ∃ group ∈ group_by key jobs, job ∈ group :=
  List.mem_flatten.mp ((group_by_perm key jobs).mem_iff.mpr h)

-- Two jobs share a group when they have one key.
theorem share_group_iff {jobs : List α} {job other : α} (hjob : job ∈ jobs)
    (hother : other ∈ jobs) :
    (∃ group ∈ group_by key jobs, job ∈ group ∧ other ∈ group) ↔ key job = key other := by
  constructor
  · rintro ⟨group, hgroup, hmem, hmem'⟩
    exact (((mem_group_by hgroup).2.2 job hmem other hother).mp hmem').symm
  · intro hkey
    obtain ⟨group, hgroup, hmem⟩ := exists_group key hjob
    exact ⟨group, hgroup, hmem, ((mem_group_by hgroup).2.2 job hmem other hother).mpr hkey.symm⟩

end Grouping

section Loop

variable (d : Dispatches)

def Dispatches.succeeds (group : List LockedJob) : Bool :=
  (d.run_pipeline (LockedJob.ids group)).toOption.isSome

-- No failure of the group is lost to its backoff.
def Dispatches.Fits (group : List LockedJob) : Prop :=
  ∀ e, d.run_pipeline (LockedJob.ids group) = .error e → ∀ job ∈ group, job.row.fits (d.now job.id)

-- What is made of the row of a job of this group.
def Dispatches.write (group : List LockedJob) (job : LockedJob) : Option JobWrite :=
  match d.run_pipeline (LockedJob.ids group) with
  | .ok id => some (.update (job.row.mark_completed id (d.processed_at (LockedJob.ids group))))
  | .error e => job.row.handle_job_failure e (d.now job.id)

variable {d} {name : String} {group : List LockedJob} {groups : List (List LockedJob)}
    {batch : Batch} {e : String}

theorem fits_of_handle {job : DLQJob} {now : Int} {write : JobWrite}
    (h : job.handle_job_failure e now = some write) :
    job.fits now := by
  intro hmore
  rw [handle_job_failure_more hmore, Option.map_eq_some_iff] at h
  obtain ⟨scheduled_at, hadd, -⟩ := h
  by_contra hnot
  rw [add_minutes, if_neg hnot] at hadd
  cases hadd

theorem handle_failures_eq_some (h : ∀ job ∈ group, job.row.fits (d.now job.id)) :
    ∃ writes, handle_failures d group e = some writes ∧ writes.map Prod.fst = LockedJob.ids group ∧
      ∀ job ∈ group, ∃ write, job.row.handle_job_failure e (d.now job.id) = some write ∧
        (job.id, write) ∈ writes := by
  induction group with
  | nil => exact ⟨[], rfl, rfl, by simp⟩
  | cons job group ih =>
      obtain ⟨write, hwrite⟩ := Option.isSome_iff_exists.mp
        (handle_job_failure_isSome (e := e) (h job List.mem_cons_self))
      obtain ⟨writes, hwrites, hkeys, hall⟩ :=
        ih fun job hjob => h job (List.mem_cons_of_mem _ hjob)
      unfold handle_failures at hwrites ⊢
      refine ⟨(job.id, write) :: writes, ?_, ?_, fun other hother => ?_⟩
      · simp [List.mapM_cons, hwrite, hwrites]
      · simp only [List.map_cons, LockedJob.ids] at hkeys ⊢
        rw [hkeys]
      · rcases List.mem_cons.mp hother with rfl | hother
        · exact ⟨write, hwrite, List.mem_cons_self⟩
        · obtain ⟨w, hw, hmem⟩ := hall other hother
          exact ⟨w, hw, List.mem_cons_of_mem _ hmem⟩

theorem fits_of_handle_failures : ∀ {group : List LockedJob} {writes : JobWrites},
    handle_failures d group e = some writes → ∀ job ∈ group, job.row.fits (d.now job.id)
  | [], _, _ => by simp
  | job :: group, writes, h => by
      unfold handle_failures at h
      simp only [List.mapM_cons, Option.bind_eq_bind, Option.bind_eq_some_iff,
        Option.map_eq_some_iff] at h
      obtain ⟨-, ⟨write, hwrite, -⟩, rest, hrest, -⟩ := h
      intro other hother
      rcases List.mem_cons.mp hother with rfl | hother
      · exact fits_of_handle hwrite
      · exact fits_of_handle_failures hrest other hother

-- The executions and the errors of the groups, in their order.
def Dispatches.executions (d : Dispatches) (name : String) (groups : List (List LockedJob)) :
    List Dispatched :=
  groups.filterMap fun group => (dispatch_jobs d name group).toOption

def Dispatches.errors (d : Dispatches) (groups : List (List LockedJob)) : List String :=
  groups.filterMap fun group => match d.run_pipeline (LockedJob.ids group) with
    | .ok _ => none
    | .error e => some e

-- What is written for the jobs of these groups: for each of them once, what its group's end
-- makes of it.
structure Written (d : Dispatches) (groups : List (List LockedJob))
    (writes : JobWrites) : Prop where
  keys : writes.map Prod.fst = LockedJob.ids groups.flatten
  mem : ∀ group ∈ groups, ∀ job ∈ group, ∃ write, d.write group job = some write ∧
    (job.id, write) ∈ writes

theorem written_cons {writes rest : JobWrites} (hkeys : writes.map Prod.fst = LockedJob.ids group)
    (hmem : ∀ job ∈ group, ∃ write, d.write group job = some write ∧ (job.id, write) ∈ writes)
    (hrest : Written d groups rest) : Written d (group :: groups) (writes ++ rest) where
  keys := by
    rw [List.map_append, hkeys, hrest.keys]
    simp [LockedJob.ids]
  mem other hother job hjob := by
    rcases List.mem_cons.mp hother with rfl | hother
    · obtain ⟨write, hwrite, hin⟩ := hmem job hjob
      exact ⟨write, hwrite, List.mem_append_left _ hin⟩
    · obtain ⟨write, hwrite, hin⟩ := hrest.mem other hother job hjob
      exact ⟨write, hwrite, List.mem_append_right _ hin⟩

-- The loop, when every failure can be rescheduled.
theorem process_groups_ok (h : ∀ group ∈ groups, d.Fits group) (name : String) (batch : Batch) :
    ∃ writes, Written d groups writes ∧
    process_groups d name groups batch =
      (⟨batch.writes ++ writes, batch.executions ++ d.executions name groups,
      (d.errors groups).getLast?.or batch.last_error⟩, .ok ()) := by
  induction groups generalizing batch with
  | nil => exact ⟨[], ⟨rfl, by simp⟩,
      by simp [process_groups, Dispatches.executions, Dispatches.errors]⟩
  | cons group groups ih =>
      have hrest := ih fun group hgroup => h group (List.mem_cons_of_mem _ hgroup)
      cases hrun : d.run_pipeline (LockedJob.ids group) with
      | ok id =>
          obtain ⟨execution, hexecution, hid⟩ : ∃ execution,
            dispatch_jobs d name group = .ok execution ∧
              execution.execution_id = id := by
            simp only [dispatch_jobs, hrun]
            exact ⟨_, rfl, rfl⟩
          obtain ⟨writes, hwritten, hloop⟩ := hrest { batch with
            writes := batch.writes ++ mark_group d group execution.execution_id
            executions := batch.executions ++ [execution] }
          refine ⟨mark_group d group id ++ writes, written_cons ?_ ?_ hwritten, ?_⟩
          · simp [mark_group, LockedJob.ids]
          · intro job hjob
            refine ⟨_, by rw [Dispatches.write, hrun], List.mem_map.mpr ⟨job, hjob, rfl⟩⟩
          · simp only [process_groups, hexecution]
            rw [hloop, hid]
            simp [Dispatches.executions, Dispatches.errors, hexecution, hrun, Except.toOption]
      | error e =>
          have hdispatch : dispatch_jobs d name group = .error e := by
            simp only [dispatch_jobs, hrun]; rfl
          obtain ⟨writes, hwrites, hkeys, hmem⟩ :=
            handle_failures_eq_some (e := e) (h group List.mem_cons_self e hrun)
          obtain ⟨rest, hwritten, hloop⟩ :=
            hrest { batch with writes := batch.writes ++ writes, last_error := some e }
          refine ⟨writes ++ rest, written_cons hkeys ?_ hwritten, ?_⟩
          · intro job hjob
            simpa only [Dispatches.write, hrun] using hmem job hjob
          · simp only [process_groups, hdispatch, hwrites]
            rw [hloop]
            simp [Dispatches.executions, Dispatches.errors, hdispatch, hrun, Except.toOption,
              List.getLast?_cons]

theorem process_groups_fits {batch batch' : Batch}
    (h : process_groups d name groups batch = (batch', .ok ())) :
      ∀ group ∈ groups, d.Fits group := by
  induction groups generalizing batch with
  | nil => simp
  | cons group groups ih =>
      intro other hother
      cases hrun : d.run_pipeline (LockedJob.ids group) with
      | ok id =>
          have hdispatch : ∃ execution, dispatch_jobs d name group = .ok execution := by
            simp only [dispatch_jobs, hrun]
            exact ⟨_, rfl⟩
          obtain ⟨execution, hdispatch⟩ := hdispatch
          simp only [process_groups, hdispatch] at h
          rcases List.mem_cons.mp hother with rfl | hother
          · intro e he
            rw [hrun] at he
            cases he
          · exact ih h other hother
      | error e =>
          have hdispatch : dispatch_jobs d name group = .error e := by
            simp only [dispatch_jobs, hrun]; rfl
          simp only [process_groups, hdispatch] at h
          cases hhandle : handle_failures d group e with
          | none => simp [hhandle] at h
          | some writes =>
              simp only [hhandle] at h
              rcases List.mem_cons.mp hother with rfl | hother
              · intro e' he
                exact fits_of_handle_failures hhandle
              · exact ih h other hother

end Loop

section Isolation

variable (d : Dispatches) (l : Locked)

-- The execution of a group: each of its jobs has the payload that it is started with, as a JSON
-- object.
structure Runs (group : List LockedJob) (e : Dispatched) : Prop where
  execution_id : d.run_pipeline (LockedJob.ids group) = .ok e.execution_id
  pipeline_name : e.pipeline_name = l.pipeline_name
  dlq_job_ids : e.dlq_job_ids = LockedJob.ids group
  runtime_params : ∀ job ∈ group, ∃ payload, Json.Same (.obj payload) (.obj job.payload) ∧
    e.runtime_params = ((payload_params payload).set "_dlq_source" (.bool true)).set "_dlq_job_ids"
      (.list (group.map fun job => .int job.id))

-- The failure of a job counted, and the job put back or archived.
def Retried (tables : DlqTables) (job : LockedJob) (e : String) : Prop :=
  let row := { job.row with retry_count := job.row.retry_count + 1, error_message := some e }
  if job.row.retry_count + 1 < job.row.max_retries then
    tables.jobs job.id = some { row with
      scheduled_at := d.now job.id + (5 * 2 ^ job.row.retry_count : ℕ) * minute,
        status := .pending } ∧
    tables.archive job.id = l.tables.archive job.id
  else tables.jobs job.id = none ∧ tables.archive job.id = some (row.archive_job (d.now job.id))

-- An execution for each group that succeeds, in their order, and each row as its group's end
-- makes it.
structure GroupsSettled (tables : DlqTables) (executions : List Dispatched) : Prop where
  executed : List.Forall₂ (Runs d l) (l.groups.filter d.succeeds) executions
  completed : ∀ group ∈ l.groups, ∀ id, d.run_pipeline (LockedJob.ids group) =
    .ok id → ∀ job ∈ group,
    tables.jobs job.id = some { job.row with
      status := .completed, processed_at := some (d.processed_at (LockedJob.ids group)),
        execution_id := some id } ∧
    tables.archive job.id = l.tables.archive job.id
  failed : ∀ group ∈ l.groups, ∀ e, d.run_pipeline (LockedJob.ids group) = .error e → ∀ job ∈ group,
    Retried d l tables job e
  others : ∀ k, k ∉ LockedJob.ids l.jobs → tables.jobs k = l.tables.jobs k ∧
    tables.archive k = l.tables.archive k

-- What the two drivers make of the locked jobs of a pipeline.
structure Isolated : Prop where
  partition : l.groups.flatten.Perm l.jobs ∧ ∀ group ∈ l.groups, group ≠ []
  share : ∀ job ∈ l.jobs, ∀ other ∈ l.jobs,
    (∃ group ∈ l.groups, job ∈ group ∧ other ∈ group) ↔
      Json.Same (.obj job.payload) (.obj other.payload)
  first_seen : (∀ group ∈ l.groups, group.Sublist l.jobs) ∧
    (l.groups.filterMap List.head?).Sublist l.jobs
  poll : GroupsSettled d l (poll_and_process d l).tables (poll_and_process d l).executions
  manual : GroupsSettled d l (process_pipeline_immediately d l).tables
    (process_pipeline_immediately d l).executions
  raises : (∃ e, (process_pipeline_immediately d l).result = .error e) ↔
    (∃ group ∈ l.groups, d.succeeds group = false) ∧ ∀ group ∈ l.groups, d.succeeds group = false
  returns : ∀ n ids, (process_pipeline_immediately d l).result = .ok (n, ids) →
    n = (l.groups.filter d.succeeds).flatten.length ∧
      ids.map Except.ok = (l.groups.filter d.succeeds).map fun group =>
        d.run_pipeline (LockedJob.ids group)

variable {d l} {group : List LockedJob} {groups : List (List LockedJob)} {writes : JobWrites}
    {tables : DlqTables}
  {executions : List Dispatched}

theorem key_eq_iff (job other : LockedJob) :
    job.key = other.key ↔ Json.Same (.obj job.payload) (.obj other.payload) :=
  Json.render_sorted_eq_iff job.wellFormed other.wellFormed job.printable other.printable

-- The execution of a group of jobs with one key.
theorem runs_of_dispatch {e : Dispatched}
    (hkey : ∀ job ∈ group, ∀ other ∈ group, job.key = other.key)
    (h : dispatch_jobs d l.pipeline_name group = .ok e) : Runs d l group e := by
  unfold dispatch_jobs at h
  cases hrun : d.run_pipeline (LockedJob.ids group) with
  | error error =>
      rw [hrun] at h
      cases h
  | ok id =>
      rw [hrun] at h
      cases h
      refine ⟨hrun, rfl, rfl, fun job hjob => ?_⟩
      cases group with
      | nil => exact absurd hjob List.not_mem_nil
      | cons first rest =>
          refine ⟨first.payload, (key_eq_iff _ _).mp (hkey first List.mem_cons_self job hjob), ?_⟩
          simp only [List.head?_cons, Option.map_some, Option.getD_some, first.job_payload]

theorem forall₂_executions
    (h : ∀ group ∈ groups, ∀ job ∈ group, ∀ other ∈ group, job.key = other.key) :
    List.Forall₂ (Runs d l) (groups.filter d.succeeds) (d.executions l.pipeline_name groups) := by
  induction groups with
  | nil => exact .nil
  | cons group groups ih =>
      have hrest := ih fun group hgroup => h group (List.mem_cons_of_mem _ hgroup)
      unfold Dispatches.executions at hrest ⊢
      cases hdispatch : dispatch_jobs d l.pipeline_name group with
      | ok e =>
          have hruns := runs_of_dispatch (h group List.mem_cons_self) hdispatch
          rw [List.filter_cons_of_pos (by rw [Dispatches.succeeds, hruns.execution_id]; rfl),
            List.filterMap_cons_some (b := e) (by rw [hdispatch]; rfl)]
          exact .cons hruns hrest
      | error e =>
          have hrun : d.run_pipeline (LockedJob.ids group) = .error e := by
            unfold dispatch_jobs at hdispatch
            cases hrun : d.run_pipeline (LockedJob.ids group) with
            | ok id =>
                rw [hrun] at hdispatch
                cases hdispatch
            | error e' =>
                rw [hrun] at hdispatch
                cases hdispatch
                rfl
          rw [List.filter_cons_of_neg (by rw [Dispatches.succeeds, hrun]; simp [Except.toOption]),
            List.filterMap_cons_none (by rw [hdispatch]; rfl)]
          exact hrest

-- The tables after the COMMIT of what is written for a job.
theorem lookup_written (h : Written d l.groups writes) (hgroup : group ∈ l.groups) {job : LockedJob}
    (hjob : job ∈ group) :
    writes.lookup job.id = d.write group job := by
  obtain ⟨write, hwrite, hmem⟩ := h.mem group hgroup job hjob
  rw [hwrite]
  refine lookup_eq_some_of_mem ?_ hmem
  rw [h.keys]
  exact ((group_by_perm LockedJob.key l.jobs).map LockedJob.id).nodup_iff.mpr l.nodup

theorem groups_settled_commit (h : Written d l.groups writes) :
    GroupsSettled d l (l.tables.commit writes) (d.executions l.pipeline_name l.groups) where
  executed := forall₂_executions fun group hgroup job hjob other hother =>
    (((mem_group_by hgroup).2.2 job hjob other
      ((mem_group_by hgroup).1.subset hother)).mp hother).symm
  completed group hgroup id hrun job hjob := by
    have hlookup := lookup_written h hgroup hjob
    simp only [Dispatches.write, hrun] at hlookup
    simp only [DlqTables.commit, hlookup, DlqTables.write, DLQJob.mark_completed, and_self]
  failed group hgroup e hrun job hjob := by
    have hlookup := lookup_written h hgroup hjob
    obtain ⟨write, hwrite, -⟩ := h.mem group hgroup job hjob
    simp only [Dispatches.write, hrun] at hlookup hwrite
    unfold Retried
    split
    · rename_i hmore
      have hfits := fits_of_handle hwrite hmore
      rw [handle_job_failure_more hmore, add_minutes, if_pos hfits] at hlookup
      simp only [DlqTables.commit, hlookup, Option.map_some, DlqTables.write, calculate_backoff,
        Nat.add_sub_cancel,
        DLQJob.count_failure, and_self]
    · rename_i hlast
      rw [handle_job_failure_last (Nat.not_lt.mp hlast)] at hlookup
      simp only [DlqTables.commit, hlookup, DlqTables.write, DLQJob.count_failure, and_self]
  others k hk := by
    have hnone : writes.lookup k = none := by
      refine lookup_eq_none_of_notMem fun hmem => hk ?_
      rw [h.keys] at hmem
      exact ((group_by_perm LockedJob.key l.jobs).map LockedJob.id).mem_iff.mp hmem
    simp only [DlqTables.commit, hnone, DlqTables.write, and_self]

-- A transaction that is rolled back has settled none of its jobs.
theorem jobs_of_groups_settled (h : GroupsSettled d l l.tables executions) : l.jobs = [] := by
  by_contra hne
  obtain ⟨job, hjob⟩ := List.exists_mem_of_ne_nil _ hne
  obtain ⟨group, hgroup, hmem⟩ := exists_group LockedJob.key hjob
  obtain ⟨hstored, -⟩ := l.stored job hjob
  cases hrun : d.run_pipeline (LockedJob.ids group) with
  | ok id =>
      have hrow := (h.completed group hgroup id hrun job hmem).1
      rw [hstored, Option.some.injEq] at hrow
      have hstatus := congrArg DLQJob.status hrow
      rw [job.pending] at hstatus
      cases hstatus
  | error e =>
      have hrow := h.failed group hgroup e hrun job hmem
      unfold Retried at hrow
      split at hrow
      · have hcount := congrArg (Option.map DLQJob.retry_count) hrow.1
        rw [hstored] at hcount
        simp at hcount
      · rw [hstored] at hrow
        cases hrow.1

-- How the transaction of the groups ends.
theorem commit_groups_cases (d : Dispatches) (l : Locked) :
    ((∀ group ∈ l.groups, d.Fits group) ∧ d.commit_error = none ∧
      ∃ writes, Written d l.groups writes ∧
      commit_groups d l = ⟨l.tables.commit writes, d.executions l.pipeline_name l.groups,
        .ok ⟨writes, d.executions l.pipeline_name l.groups, (d.errors l.groups).getLast?⟩⟩) ∨
    (((∀ group ∈ l.groups, d.Fits group) → d.commit_error ≠ none) ∧
      (commit_groups d l).tables = l.tables ∧
      ∃ e, (commit_groups d l).result = .error e) := by
  by_cases hfits : ∀ group ∈ l.groups, d.Fits group
  · obtain ⟨writes, hwritten, hloop⟩ := process_groups_ok hfits l.pipeline_name ⟨[], [], none⟩
    unfold commit_groups
    rw [hloop]
    cases hcommit : d.commit_error with
    | none =>
        refine .inl ⟨hfits, rfl, writes, hwritten, ?_⟩
        simp only [List.nil_append, Option.or_none]
    | some e => exact .inr ⟨fun _ => by simp, rfl, _, rfl⟩
  · refine .inr ⟨fun h => absurd h hfits, ?_⟩
    unfold commit_groups
    cases hloop : process_groups d l.pipeline_name l.groups ⟨[], [], none⟩ with
    | mk batch r =>
        cases r with
        | error e => exact ⟨rfl, _, rfl⟩
        | ok u => exact absurd (process_groups_fits hloop) hfits

theorem groups_nil (h : l.jobs = []) : l.groups = [] := by
  unfold Locked.groups
  rw [h]
  rfl

-- An empty list of jobs is settled as it is.
theorem groups_settled_nil (h : l.jobs = []) : GroupsSettled d l l.tables [] where
  executed := by rw [groups_nil h]; exact .nil
  completed group hgroup := by rw [groups_nil h] at hgroup; cases hgroup
  failed group hgroup := by rw [groups_nil h] at hgroup; cases hgroup
  others k _ := ⟨rfl, rfl⟩

theorem poll_tables (h : l.jobs ≠ []) : (poll_and_process d l).tables = (commit_groups d l).tables ∧
    (poll_and_process d l).executions = (commit_groups d l).executions := by
  unfold poll_and_process
  rw [if_neg (by simpa using h)]
  exact ⟨rfl, rfl⟩

theorem manual_tables (h : l.jobs ≠ []) : (process_pipeline_immediately d l).tables =
    (commit_groups d l).tables ∧
    (process_pipeline_immediately d l).executions = (commit_groups d l).executions := by
  unfold process_pipeline_immediately
  rw [if_neg (by simpa using h)]
  cases hresult : (commit_groups d l).result with
  | error e => simp only [hresult, and_self]
  | ok batch =>
      simp only [hresult]
      split
      · split <;> exact ⟨rfl, rfl⟩
      · exact ⟨rfl, rfl⟩

-- Some group has failed when there is a last error.
theorem errors_eq_nil_iff : d.errors groups = [] ↔ ∀ group ∈ groups, d.succeeds group = true := by
  rw [Dispatches.errors, List.filterMap_eq_nil_iff]
  refine forall₂_congr fun group _ => ?_
  unfold Dispatches.succeeds
  cases d.run_pipeline (LockedJob.ids group) <;> simp [Except.toOption]

theorem countP_flatten_filter {α : Type} {p : α → Bool} {q : List α → Bool} {parts : List (List α)}
    (h : ∀ part ∈ parts, ∀ a ∈ part, p a = q part) :
      parts.flatten.countP p = (parts.filter q).flatten.length := by
  induction parts with
  | nil => rfl
  | cons part parts ih =>
      have hrest := ih fun part hpart => h part (List.mem_cons_of_mem _ hpart)
      have hfirst := h part List.mem_cons_self
      rw [List.flatten_cons, List.countP_append, hrest]
      cases hq : q part with
      | true =>
          rw [List.filter_cons_of_pos hq, List.flatten_cons, List.length_append,
            List.countP_eq_length.mpr fun a ha => (hfirst a ha).trans hq]
      | false =>
          rw [List.filter_cons_of_neg (by simp [hq]),
            List.countP_eq_zero.mpr fun a ha => by
              rw [hfirst a ha, hq]; exact Bool.false_ne_true, Nat.zero_add]

-- The jobs that are read back as completed are those of the groups that have succeeded.
theorem completed_count_eq (h : GroupsSettled d l tables executions) :
    completed_count l tables = (l.groups.filter d.succeeds).flatten.length := by
  unfold completed_count
  rw [← (group_by_perm LockedJob.key l.jobs).countP_eq]
  refine countP_flatten_filter fun group hgroup job hjob => ?_
  unfold Dispatches.succeeds
  cases hrun : d.run_pipeline (LockedJob.ids group) with
  | ok id =>
      rw [(h.completed group hgroup id hrun job hjob).1]
      rfl
  | error e =>
      have hrow := h.failed group hgroup e hrun job hjob
      unfold Retried at hrow
      split at hrow
      · rw [hrow.1]
        rfl
      · rw [hrow.1]
        rfl

theorem ids_eq {executions : List Dispatched} {parts : List (List LockedJob)}
    (h : List.Forall₂ (Runs d l) parts executions) :
    (executions.map Dispatched.execution_id).map Except.ok =
      parts.map fun group => d.run_pipeline (LockedJob.ids group) := by
  induction h with
  | nil => rfl
  | cons hruns _ ih => rw [List.map_cons, List.map_cons, List.map_cons, ih, hruns.execution_id]

-- What a manual dispatch returns or raises, after its COMMIT.
theorem manual_result (hne : l.jobs ≠ [])
    (h : commit_groups d l =
      ⟨tables, executions, .ok ⟨writes, executions, (d.errors l.groups).getLast?⟩⟩)
    (hsettles : GroupsSettled d l tables executions) :
    ((∃ e, (process_pipeline_immediately d l).result = .error e) ↔
      (∃ group ∈ l.groups, d.succeeds group = false) ∧
      ∀ group ∈ l.groups, d.succeeds group = false) ∧
    ∀ n ids, (process_pipeline_immediately d l).result = .ok (n, ids) →
      n = (l.groups.filter d.succeeds).flatten.length ∧
        ids.map Except.ok = (l.groups.filter d.succeeds).map fun group =>
          d.run_pipeline (LockedJob.ids group) := by
  have hlength := hsettles.executed.length_eq
  have hreturn : ∀ n ids,
    (completed_count l tables, executions.map Dispatched.execution_id) = (n, ids) →
      n = (l.groups.filter d.succeeds).flatten.length ∧
        ids.map Except.ok = (l.groups.filter d.succeeds).map fun group =>
            d.run_pipeline (LockedJob.ids group) := by
    intro n ids heq
    obtain ⟨rfl, rfl⟩ := Prod.mk.injEq .. ▸ heq
    exact ⟨completed_count_eq hsettles, ids_eq hsettles.executed⟩
  unfold process_pipeline_immediately
  rw [if_neg (by simpa using hne), h]
  cases hlast : (d.errors l.groups).getLast? with
  | none =>
      have hall := errors_eq_nil_iff.mp (List.getLast?_eq_none_iff.mp hlast)
      refine ⟨iff_of_false (fun h => ?_) (fun h => ?_), fun n ids heq =>
        hreturn n ids (Except.ok.inj heq)⟩
      · obtain ⟨e, he⟩ := h
        cases he
      · obtain ⟨⟨group, hgroup, hfailed⟩, -⟩ := h
        rw [hall group hgroup] at hfailed
        cases hfailed
  | some e =>
      have hsome : ∃ group ∈ l.groups, d.succeeds group = false := by
        by_contra hnone
        push Not at hnone
        rw [errors_eq_nil_iff.mpr fun group hgroup => by simpa using hnone group hgroup] at hlast
        cases hlast
      cases executions with
      | nil =>
          have hempty : l.groups.filter d.succeeds = [] := List.eq_nil_of_length_eq_zero hlength
          refine ⟨iff_of_true ⟨_, rfl⟩ ⟨hsome, fun group hgroup => ?_⟩, fun n ids heq => ?_⟩
          · simpa using List.filter_eq_nil_iff.mp hempty group hgroup
          · cases heq
      | cons execution rest =>
          obtain ⟨group, hmem⟩ := List.exists_mem_of_length_pos (l := l.groups.filter d.succeeds)
            (by simp [hlength])
          obtain ⟨hgroup, hsucceeds⟩ := List.mem_filter.mp hmem
          refine ⟨iff_of_false (fun h => ?_) (fun h => ?_), fun n ids heq =>
            hreturn n ids (Except.ok.inj heq)⟩
          · obtain ⟨e, he⟩ := h
            cases he
          · rw [h.2 group hgroup] at hsucceeds
            cases hsucceeds

-- The grouping itself, whatever becomes of the dispatches.
theorem groups_partition (l : Locked) : l.groups.flatten.Perm l.jobs ∧
    ∀ group ∈ l.groups, group ≠ [] :=
  ⟨group_by_perm _ _, fun _ hgroup => (mem_group_by hgroup).2.1⟩

theorem groups_share (l : Locked) : ∀ job ∈ l.jobs, ∀ other ∈ l.jobs,
    (∃ group ∈ l.groups, job ∈ group ∧ other ∈ group) ↔
    Json.Same (.obj job.payload) (.obj other.payload) :=
  fun job hjob other hother => (share_group_iff hjob hother).trans (key_eq_iff job other)

theorem groups_first_seen (l : Locked) :
    (∀ group ∈ l.groups, group.Sublist l.jobs) ∧ (l.groups.filterMap List.head?).Sublist l.jobs :=
  ⟨fun _ hgroup => (mem_group_by hgroup).1, heads_sublist _⟩

theorem isolated_nil (h : l.jobs = []) : Isolated d l := by
  have hgroups := groups_nil h
  have hpoll : poll_and_process d l = ⟨l.tables, [], .ok ()⟩ := by rw [poll_and_process, h]; rfl
  have hmanual : process_pipeline_immediately d l = ⟨l.tables, [], .ok (0, [])⟩ := by
    rw [process_pipeline_immediately, h]
    rfl
  refine ⟨groups_partition l, groups_share l, groups_first_seen l, ?_, ?_, ?_, fun n ids heq => ?_⟩
  · rw [hpoll]
    exact groups_settled_nil h
  · rw [hmanual]
    exact groups_settled_nil h
  · rw [hmanual, hgroups]
    simp
  · rw [hmanual] at heq
    cases heq
    rw [hgroups]
    exact ⟨rfl, rfl⟩

theorem isolated_commit (hne : l.jobs ≠ []) (hwritten : Written d l.groups writes)
    (hend : commit_groups d l = ⟨l.tables.commit writes, d.executions l.pipeline_name l.groups,
      .ok ⟨writes, d.executions l.pipeline_name l.groups, (d.errors l.groups).getLast?⟩⟩) :
        Isolated d l := by
  have hsettles := groups_settled_commit hwritten
  obtain ⟨hraises, hreturns⟩ := manual_result hne hend hsettles
  refine ⟨groups_partition l, groups_share l, groups_first_seen l, ?_, ?_, hraises, hreturns⟩
  · rw [(poll_tables hne).1, (poll_tables hne).2, hend]
    exact hsettles
  · rw [(manual_tables hne).1, (manual_tables hne).2, hend]
    exact hsettles

-- Each group is run with its own params, and a failed one leaves the others alone, just when
-- every failure can be rescheduled and the COMMIT goes through.
theorem groups_isolated_iff (d : Dispatches) (l : Locked) : Isolated d l ↔
    (l.jobs ≠ [] → d.commit_error = none) ∧
      ∀ group ∈ l.groups, ∀ e, d.run_pipeline (LockedJob.ids group) = .error e →
        ∀ job ∈ group, job.row.retry_count + 1 < job.row.max_retries →
          d.now job.id + (5 * 2 ^ job.row.retry_count : ℕ) * minute ≤ DATETIME_MAX := by
  have hfits : (∀ group ∈ l.groups, ∀ e, d.run_pipeline (LockedJob.ids group) = .error e →
      ∀ job ∈ group, job.row.retry_count + 1 < job.row.max_retries →
        d.now job.id + (5 * 2 ^ job.row.retry_count : ℕ) * minute ≤ DATETIME_MAX) ↔
            ∀ group ∈ l.groups, d.Fits group := by
    rfl
  rw [hfits]
  by_cases hne : l.jobs = []
  · refine iff_of_true (isolated_nil hne) ⟨fun h => absurd hne h, fun group hgroup => ?_⟩
    rw [groups_nil hne] at hgroup
    cases hgroup
  · obtain ⟨hall, hcommit, writes, hwritten, hend⟩ | ⟨hnot, htables, -⟩ := commit_groups_cases d l
    · exact iff_of_true (isolated_commit hne hwritten hend) ⟨fun _ => hcommit, hall⟩
    · refine iff_of_false (fun h => ?_) fun h => hnot h.2 (h.1 hne)
      have hpoll := h.poll
      rw [(poll_tables hne).1, htables] at hpoll
      exact hne (jobs_of_groups_settled hpoll)

-- A job whose thirty-first failure is of a dispatch in 2023, with retries left.
def late_job : LockedJob where
  id := 0
  payload := []
  row :=
    { job_payload := payload_params [], pipeline_name := "orders", scheduled_at := 0
      delay_minutes := 60, status := .pending, retry_count := 30, max_retries := 100
      error_message := some "no broker", created_at := 0, processed_at := none
      execution_id := none }
  job_payload := rfl
  wellFormed := by simp [Json.WellFormed, Json.WellFormedEntries]
  printable := by simp [Json.Printable, Json.PrintableEntries]
  pending := rfl

def late : Locked where
  tables := ⟨fun k => if k = 0 then some late_job.row else none, fun _ => none⟩
  pipeline_name := "orders"
  jobs := [late_job]
  nodup := List.nodup_singleton _
  stored := by
    intro job hjob
    rw [List.mem_singleton.mp hjob]
    exact ⟨rfl, rfl⟩

def no_broker : Dispatches where
  run_pipeline _ := .error "no broker"
  now _ := 1700000000000000
  processed_at _ := 1700000000000000
  commit_error := none

-- Its backoff is beyond the last datetime: the failure is not counted, and the poll is undone.
theorem backoff_overflows : ¬ Isolated no_broker late := by
  intro h
  have hpoll : GroupsSettled no_broker late late.tables _ := h.poll
  cases jobs_of_groups_settled hpoll

end Isolation

end Reflowfy.DLQScheduler
