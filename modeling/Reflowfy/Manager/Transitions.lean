import Reflowfy.Manager.System

namespace Reflowfy

open Interleaving

-- No job waits for a worker or is held by one.
def Drained (jobs : List Job) : Prop := ∀ job ∈ jobs, job.state.unfinished = false

-- The exception a statement or a call ended with.
def Choice.raised : Choice → Option String
  | db_error message | error message => some message
  | _ => none

-- No statement and no call of the step fails.
def Event.succeeds : Event → Bool
  | .go _ choice => choice.raised.isNone
  | _ => true

-- What task `i` can do at a point of its code: the statement it commits, in the store
-- where that happens, and the point it comes to.
inductive Goes (cfg : Config) (i : TaskId) (s : Store) : Proc → Choice → Stmt → Proc → Prop
  -- the planner
  | plan_beat {pc : PlanPc} :
      Goes cfg i s (.plan true pc) .beat (.heartbeat_driver ⟨.plan, i⟩) (.plan true pc)
  | plan_lease {leased : Bool} :
      Goes cfg i s (.plan leased .lease) .ok (.claim_driver ⟨.plan, i⟩) (.plan true .resolve)
  | plan_resolve {leased : Bool} : Goes cfg i s (.plan leased .resolve) .ok .skip
      (.plan leased .load)
  | plan_load {leased : Bool} {seen : Execution} (hrow : s.execution = some seen) :
      Goes cfg i s (.plan leased .load) .ok .get_execution (.plan leased (.store seen))
  | plan_load_gone {leased : Bool} (hrow : s.execution = none) :
      Goes cfg i s (.plan leased .load) .ok .get_execution (.plan leased .start)
  | plan_store {leased : Bool} {seen : Execution} :
      Goes cfg i s (.plan leased (.store seen)) .ok (.update_execution_state seen .running none)
        (.plan leased .start)
  | plan_slice_check {leased : Bool} {p : Planning} :
      Goes cfg i s (.plan leased (.next p)) .slice .skip
        (.plan leased (.check { p with last_state_check := some s.clock }))
  | plan_slice {leased : Bool} {p : Planning} :
      Goes cfg i s (.plan leased (.next p)) .slice .skip (.plan leased (.next p.add))
  | plan_slice_full {leased : Bool} {p : Planning} :
      Goes cfg i s (.plan leased (.next p)) .slice .skip (.plan leased (.flush p.add))
  | plan_end {leased : Bool} {p : Planning} :
      Goes cfg i s (.plan leased (.next p)) .plan_end .skip (.plan leased (.last p))
  | plan_check_abort {leased : Bool} {p : Planning} {row : Execution}
      (hrow : s.execution = some row)
      (hstate : row.state = .cancelled ∨ row.state = .failed) :
      Goes cfg i s (.plan leased (.check p)) .ok .get_execution (.plan leased .abort)
  | plan_check {leased : Bool} {p : Planning}
      (hstate : ∀ row, s.execution = some row → row.state ≠ .cancelled ∧ row.state ≠ .failed) :
      Goes cfg i s (.plan leased (.check p)) .ok .get_execution (.plan leased (.next p.add))
  | plan_check_full {leased : Bool} {p : Planning}
      (hstate : ∀ row, s.execution = some row → row.state ≠ .cancelled ∧ row.state ≠ .failed) :
      Goes cfg i s (.plan leased (.check p)) .ok .get_execution (.plan leased (.flush p.add))
  | plan_abort {leased : Bool} :
      Goes cfg i s (.plan leased .abort) .ok .cancel_unstarted_jobs (.plan leased (.leave none))
  | plan_flush {leased : Bool} {p : Planning} :
      Goes cfg i s (.plan leased (.flush p)) .ok (.create_jobs p.rows)
        (.plan leased (.next p.flushed))
  | plan_flush_refused {leased : Bool} {p : Planning} (hrow : s.execution = none) :
      Goes cfg i s (.plan leased (.flush p)) .ok (.create_jobs p.rows)
        (.plan leased (.leave foreignKeyViolation))
  | plan_last {leased : Bool} {p : Planning} :
      Goes cfg i s (.plan leased (.last p)) .ok (.create_jobs p.rows)
        (.plan leased (.total p.job_count))
  | plan_last_refused {leased : Bool} {p : Planning} (hrow : s.execution = none) :
      Goes cfg i s (.plan leased (.last p)) .ok (.create_jobs p.rows)
        (.plan leased (.leave foreignKeyViolation))
  | plan_total {leased : Bool} {job_count : ℕ} :
      Goes cfg i s (.plan leased (.total job_count)) .ok (.set_total_jobs job_count)
        (.plan leased .mark)
  | plan_mark {leased : Bool} :
      Goes cfg i s (.plan leased .mark) .ok .mark_plan_complete (.plan leased .stop)
  | plan_stop : Goes cfg i s (.plan true .stop) .ok (.release_driver ⟨.plan, i⟩)
      (.drive .run .claim)
  | plan_stop_unleased : Goes cfg i s (.plan false .stop) .ok .skip (.drive .run .claim)
  | plan_leave : Goes cfg i s (.plan true (.leave none)) .ok (.release_driver ⟨.plan, i⟩) .ended
  | plan_leave_failed {error : String} :
      Goes cfg i s (.plan true (.leave (some error))) .ok (.release_driver ⟨.plan, i⟩)
        (.failed (.load error))
  | plan_leave_unleased : Goes cfg i s (.plan false (.leave none)) .ok .skip .ended
  | plan_leave_unleased_failed {error : String} :
      Goes cfg i s (.plan false (.leave (some error))) .ok .skip (.failed (.load error))
  -- the error path of a run
  | failed_load {message : String} {seen : Execution} (hrow : s.execution = some seen) :
      Goes cfg i s (.failed (.load message)) .ok .get_execution (.failed (.store message seen))
  | failed_gone {message : String} (hrow : s.execution = none) :
      Goes cfg i s (.failed (.load message)) .ok .get_execution .ended
  | failed_store {message : String} {seen : Execution} :
      Goes cfg i s (.failed (.store message seen)) .ok
        (.update_execution_state seen .failed (some message)) .ended
  -- the dispatch loop
  | claim {task : Task}
      (hclaim : s.execution.any (·.claimable ⟨.loop, i⟩ cfg.DRIVER_LEASE_SECONDS s.clock) = true) :
      Goes cfg i s (.drive task .claim) .ok (.claim_driver ⟨.loop, i⟩)
        (.drive task (.heartbeat ⟨none⟩))
  | claim_refused {task : Task}
      (hclaim : s.execution.any (·.claimable ⟨.loop, i⟩ cfg.DRIVER_LEASE_SECONDS s.clock) = false) :
      Goes cfg i s (.drive task .claim) .ok (.claim_driver ⟨.loop, i⟩) (.drive task .standby)
  | standby {task : Task} (hrun : isRunning s.execution = true) :
      Goes cfg i s (.drive task .standby) .ok .get_execution (.drive task .claim)
  | standby_stop {task : Task} (hrun : isRunning s.execution = false) :
      Goes cfg i s (.drive task .standby) .ok .get_execution (.drive task .not_dispatching)
  | not_dispatching {task : Task} :
      Goes cfg i s (.drive task .not_dispatching) .ok .sync_counts_from_db
        (.drive task (.release none))
  | heartbeat {task : Task} {track : Track}
      (hown : s.execution.any (·.driver_id = some ⟨.loop, i⟩) = true) :
      Goes cfg i s (.drive task (.heartbeat track)) .ok (.heartbeat_driver ⟨.loop, i⟩)
        (.drive task (.state track))
  | heartbeat_lost {task : Task} {track : Track}
      (hown : s.execution.any (·.driver_id = some ⟨.loop, i⟩) = false) :
      Goes cfg i s (.drive task (.heartbeat track)) .ok (.heartbeat_driver ⟨.loop, i⟩)
        (.drive task (.stopping track))
  | state_reclaim {task : Task} {track : Track} (hrun : isRunning s.execution = true) :
      Goes cfg i s (.drive task (.state track)) .ok .get_execution
        (.drive task (.reclaim track s.clock))
  | state_counts {task : Task} {track : Track} (hrun : isRunning s.execution = true) :
      Goes cfg i s (.drive task (.state track)) .ok .get_execution (.drive task (.counts track))
  | state_stop {task : Task} {track : Track} (hrun : isRunning s.execution = false) :
      Goes cfg i s (.drive task (.state track)) .ok .get_execution (.drive task (.stopping track))
  | stopping {task : Task} {track : Track} :
      Goes cfg i s (.drive task (.stopping track)) .ok .sync_counts_from_db
        (.drive task (.release none))
  | reclaim {task : Task} {track : Track} {sweep : Int} :
      Goes cfg i s (.drive task (.reclaim track sweep)) .ok (.reclaim_expired_leases sweep)
        (.drive task (.counts ⟨some sweep⟩))
  | counts_settle {task : Task} {track : Track} (hdone : Drained s.jobs) :
      Goes cfg i s (.drive task (.counts track)) .ok .get_job_counts
        (.drive task (.settle_sync track s.jobs.length))
  | counts_fetch {task : Task} {track : Track} {limit : ℕ}
      (hpending : 0 < (get_job_counts s.jobs).pending) :
      Goes cfg i s (.drive task (.counts track)) .ok .get_job_counts
        (.drive task (.fetch track limit))
  | counts_wait {task : Task} {track : Track} :
      Goes cfg i s (.drive task (.counts track)) .ok .get_job_counts
        (.drive task (.heartbeat track))
  | settle_sync {task : Task} {track : Track} {total : ℕ} :
      Goes cfg i s (.drive task (.settle_sync track total)) .ok .sync_counts_from_db
        (.settle (.loop task track) total (get_job_counts s.jobs).totals .sync)
  | fetch_local {task : Task} {track : Track} {limit : ℕ} (hlocal : cfg.local_mode = true) :
      Goes cfg i s (.drive task (.fetch track limit)) .ok (.get_pending_jobs limit)
        (.drive task (.should_stop track ⟨get_pending_jobs limit s.jobs, s.clock, none⟩ false))
  | fetch {task : Task} {track : Track} {limit : ℕ} (hlocal : cfg.local_mode = false) :
      Goes cfg i s (.drive task (.fetch track limit)) .ok (.get_pending_jobs limit)
        (.drive task (.producer track ⟨get_pending_jobs limit s.jobs, s.clock, none⟩))
  | producer {task : Task} {track : Track} {batch : Batch} :
      Goes cfg i s (.drive task (.producer track batch)) .ok .skip
        (.drive task (.should_stop track batch false))
  | should_stop_end {task : Task} {track : Track} {batch : Batch} {token : Bool} :
      Goes cfg i s (.drive task (.should_stop track batch token)) .ok .skip
        (.drive task (.sync track))
  | should_stop_check {task : Task} {track : Track} {batch : Batch} {token : Bool}
      (hjobs : batch.jobs ≠ []) :
      Goes cfg i s (.drive task (.should_stop track batch token)) .ok .skip
        (.drive task (.check_heartbeat track { batch with last_check := some s.clock } token))
  | should_stop_token {task : Task} {track : Track} {batch : Batch} {at_ : Int}
      (hjobs : batch.jobs ≠ []) (hcheck : batch.last_check = some at_)
      (hrecent : s.clock - at_ < second) :
      Goes cfg i s (.drive task (.should_stop track batch false)) .ok .skip
        (.drive task (.acquire_token track batch))
  | should_stop_send {task : Task} {track : Track} {batch : Batch} {at_ : Int}
      (hjobs : batch.jobs ≠ []) (hcheck : batch.last_check = some at_)
      (hrecent : s.clock - at_ < second) :
      Goes cfg i s (.drive task (.should_stop track batch true)) .ok .skip
        (.drive task (.send track batch))
  | check_heartbeat {task : Task} {track : Track} {batch : Batch} {token : Bool}
      (hown : s.execution.any (·.driver_id = some ⟨.loop, i⟩) = true) :
      Goes cfg i s (.drive task (.check_heartbeat track batch token)) .ok
        (.heartbeat_driver ⟨.loop, i⟩) (.drive task (.check_state track batch token))
  | check_heartbeat_lost {task : Task} {track : Track} {batch : Batch} {token : Bool}
      (hown : s.execution.any (·.driver_id = some ⟨.loop, i⟩) = false) :
      Goes cfg i s (.drive task (.check_heartbeat track batch token)) .ok
        (.heartbeat_driver ⟨.loop, i⟩) (.drive task (.sync track))
  | check_state_token {task : Task} {track : Track} {batch : Batch}
      (hrun : isRunning s.execution = true) :
      Goes cfg i s (.drive task (.check_state track batch false)) .ok .get_execution
        (.drive task (.acquire_token track batch))
  | check_state_send {task : Task} {track : Track} {batch : Batch}
      (hrun : isRunning s.execution = true) :
      Goes cfg i s (.drive task (.check_state track batch true)) .ok .get_execution
        (.drive task (.send track batch))
  | check_state_stop {task : Task} {track : Track} {batch : Batch} {token : Bool}
      (hrun : isRunning s.execution = false) :
      Goes cfg i s (.drive task (.check_state track batch token)) .ok .get_execution
        (.drive task (.sync track))
  | acquire_local {task : Task} {track : Track} {batch : Batch} (hlocal : cfg.local_mode = true) :
      Goes cfg i s (.drive task (.acquire_token track batch)) .ok .skip
        (.drive task (.execute_job track batch .claim))
  | acquire_token {task : Task} {track : Track} {batch : Batch} (hlocal : cfg.local_mode = false) :
      Goes cfg i s (.drive task (.acquire_token track batch)) .ok .skip
        (.drive task (.should_stop track batch true))
  | no_token {task : Task} {track : Track} {batch : Batch} :
      Goes cfg i s (.drive task (.acquire_token track batch)) .no_token .skip
        (.drive task (.sync track))
  | send {task : Task} {track : Track} {batch : Batch} {job_id : JobId}
      (hjob : batch.jobs.head? = some job_id) :
      Goes cfg i s (.drive task (.send track batch)) .ok (.send job_id)
        (.drive task (.on_sent track batch))
  | too_large {task : Task} {track : Track} {batch : Batch} {error : String} :
      Goes cfg i s (.drive task (.send track batch)) (.too_large error) .skip
        (.drive task (.on_unsendable track batch (unsendableReason error)))
  | kafka_error {task : Task} {track : Track} {batch : Batch} :
      Goes cfg i s (.drive task (.send track batch)) .kafka_error .skip (.drive task (.sync track))
  | on_sent {task : Task} {track : Track} {batch : Batch} {job_id : JobId}
      (hjob : batch.jobs.head? = some job_id) :
      Goes cfg i s (.drive task (.on_sent track batch)) .ok (.job job_id .mark_job_dispatched)
        (.drive task (.handled track batch))
  | on_unsendable {task : Task} {track : Track} {batch : Batch} {reason : String} {job_id : JobId}
      (hjob : batch.jobs.head? = some job_id) :
      Goes cfg i s (.drive task (.on_unsendable track batch reason)) .ok
        (.job job_id (.update_job_state_failed reason)) (.drive task (.handled track batch))
  | execute_job {task : Task} {track : Track} {batch : Batch} {pc : DeliveryPc} {choice : Choice}
      {a : DeliveryAct} {job_id : JobId} (hjob : batch.jobs.head? = some job_id)
      (ha : pc.act s.clock choice = some a) :
      Goes cfg i s (.drive task (.execute_job track batch pc)) choice (.job job_id a.stmt)
        (.drive task (.execute_job track batch (a.next (a.stmt.reply (s.job job_id)))))
  | executed {task : Task} {track : Track} {batch : Batch} :
      Goes cfg i s (.drive task (.execute_job track batch .ended)) .ok .skip
        (.drive task (.on_sent track batch))
  | sync {task : Task} {track : Track} :
      Goes cfg i s (.drive task (.sync track)) .ok .sync_counts_from_db
        (.drive task (.heartbeat track))
  | release {task : Task} :
      Goes cfg i s (.drive task (.release none)) .ok (.release_driver ⟨.loop, i⟩) .ended
  | release_run {error : String} :
      Goes cfg i s (.drive .run (.release (some error))) .ok (.release_driver ⟨.loop, i⟩)
        (.failed (.load error))
  | release_resume {error : String} :
      Goes cfg i s (.drive .resume (.release (some error))) .ok (.release_driver ⟨.loop, i⟩) .ended
  -- settling
  | settle_failed {settler : Settler} {total : ℕ} {fallback : Totals} :
      Goes cfg i s (.settle settler total fallback .sync) .ok .sync_counts_from_db
        (.settle settler total fallback (.counts (get_job_counts s.jobs).failed))
  | settle_counts {settler : Settler} {total : ℕ} {fallback : Totals} {failed : ℕ} :
      Goes cfg i s (.settle settler total fallback (.counts failed)) .ok .get_job_counts
        (.settle settler total fallback
          (.load (finalState total (get_job_counts s.jobs).finished failed)))
  | settle_load {settler : Settler} {total : ℕ} {fallback : Totals} {final : ExecutionState}
      {seen : Execution} (hrow : s.execution = some seen) :
      Goes cfg i s (.settle settler total fallback (.load final)) .ok .get_execution
        (.settle settler total fallback (.store final seen))
  | settle_gone {task : Task} {track : Track} {total : ℕ} {fallback : Totals}
      {final : ExecutionState}
      (hrow : s.execution = none) :
      Goes cfg i s (.settle (.loop task track) total fallback (.load final)) .ok .get_execution
        (.drive task (.release none))
  | settle_gone_resume {total : ℕ} {fallback : Totals} {final : ExecutionState}
      (hrow : s.execution = none) :
      Goes cfg i s (.settle .resume total fallback (.load final)) .ok .get_execution .ended
  | settle_store {task : Task} {track : Track} {total : ℕ} {fallback : Totals}
      {final : ExecutionState} {seen : Execution} :
      Goes cfg i s (.settle (.loop task track) total fallback (.store final seen)) .ok
        (.update_execution_state seen final none) (.drive task (.release none))
  | settle_store_resume {total : ℕ} {fallback : Totals} {final : ExecutionState}
      {seen : Execution} :
      Goes cfg i s (.settle .resume total fallback (.store final seen)) .ok
        (.update_execution_state seen final none) .ended
  -- resuming
  | resume_gone (hrow : s.execution = none) : Goes cfg i s (.resume .load) .ok .get_execution .ended
  | resume_settled {seen : Execution} (hrow : s.execution = some seen)
      (hstate : seen.state.terminal = true) :
      Goes cfg i s (.resume .load) .ok .get_execution .ended
  | resume_recover {seen : Execution} (hrow : s.execution = some seen)
      (hstate : seen.state.terminal = false) (hplan : seen.plan_complete = some false) :
      Goes cfg i s (.resume .load) .ok .get_execution (.resume .recover)
  | resume_load {seen : Execution} (hrow : s.execution = some seen)
      (hstate : seen.state.terminal = false) (hplan : seen.plan_complete ≠ some false) :
      Goes cfg i s (.resume .load) .ok .get_execution (.resume .counts)
  | missing_ended {message : String}
      (hrow : ∀ seen, s.execution = some seen → seen.state.terminal = true) :
      Goes cfg i s (.resume .load) (.missing message) .get_execution .ended
  | missing {message : String} {seen : Execution} (hrow : s.execution = some seen)
      (hstate : seen.state.terminal = false) :
      Goes cfg i s (.resume .load) (.missing message) .get_execution
        (.resume (.missing_store message seen))
  | missing_store {message : String} {seen : Execution} :
      Goes cfg i s (.resume (.missing_store message seen)) .ok
        (.update_execution_state seen .failed (some message)) .ended
  | recover_ended (hrow : ∀ seen, s.execution = some seen → seen.pausable = false) :
      Goes cfg i s (.resume .recover) .ok .get_execution .ended
  | recover_planned {seen : Execution} (hrow : s.execution = some seen)
      (hstate : seen.pausable = true) (hplan : seen.plan_complete ≠ some false) :
      Goes cfg i s (.resume .recover) .ok .get_execution (.resume .counts)
  | recover_old {seen : Execution} (hrow : s.execution = some seen) (hstate : seen.pausable = true)
      (hplan : seen.plan_complete = some false)
      (hage : cfg.DRIVER_LEASE_SECONDS ≤ s.clock - seen.created_at) :
      Goes cfg i s (.resume .recover) .ok .get_execution (.resume .recover_claim)
  | recover_young {seen : Execution} (hrow : s.execution = some seen)
      (hstate : seen.pausable = true)
      (hplan : seen.plan_complete = some false) :
      Goes cfg i s (.resume .recover) .ok .get_execution (.resume .recover)
  | recover_claim
      (hclaim : s.execution.any
        (·.claimable ⟨.recover, i⟩ cfg.DRIVER_LEASE_SECONDS s.clock) = true) :
      Goes cfg i s (.resume .recover_claim) .ok (.claim_driver ⟨.recover, i⟩)
        (.resume .recover_count)
  | recover_claim_refused
      (hclaim : s.execution.any
        (·.claimable ⟨.recover, i⟩ cfg.DRIVER_LEASE_SECONDS s.clock) = false) :
      Goes cfg i s (.resume .recover_claim) .ok (.claim_driver ⟨.recover, i⟩) (.resume .recover)
  | recover_count :
      Goes cfg i s (.resume .recover_count) .ok .get_job_counts
        (.resume (.recover_load s.jobs.length))
  | recover_load {saved : ℕ} {seen : Execution} (hrow : s.execution = some seen) :
      Goes cfg i s (.resume (.recover_load saved)) .ok .get_execution
        (.resume (.recover_store saved seen))
  | recover_gone {saved : ℕ} (hrow : s.execution = none) :
      Goes cfg i s (.resume (.recover_load saved)) .ok .get_execution (.resume .recover_release)
  | recover_store {saved : ℕ} {seen : Execution} :
      Goes cfg i s (.resume (.recover_store saved seen)) .ok
        (.update_execution_state seen .failed (some (abandonedMessage saved)))
        (.resume .recover_release)
  | recover_release :
      Goes cfg i s (.resume .recover_release) .ok (.release_driver ⟨.recover, i⟩) .ended
  | resume_settle (hdone : Drained s.jobs) :
      Goes cfg i s (.resume .counts) .ok .get_job_counts
        (.settle .resume s.jobs.length ⟨0, 0, 0⟩ .sync)
  | resume_orphans (hlocal : cfg.local_mode = true) :
      Goes cfg i s (.resume .counts) .ok .get_job_counts (.resume .orphans)
  | resume_drive : Goes cfg i s (.resume .counts) .ok .get_job_counts (.drive .resume .claim)
  | orphans : Goes cfg i s (.resume .orphans) .ok .requeue_orphans (.drive .resume .claim)
  -- requests
  | request_load {r : Request} {seen : Execution} (hrow : s.execution = some seen)
      (hadmits : r.admits seen = true) :
      Goes cfg i s (.request r .load) .ok .get_execution (.request r (.store seen))
  | request_refused {r : Request}
      (hadmits : ∀ seen, s.execution = some seen → r.admits seen = false) :
      Goes cfg i s (.request r .load) .ok .get_execution .ended
  | pause {seen : Execution} :
      Goes cfg i s (.request .pause (.store seen)) .ok (.update_execution_state seen .paused none)
        .ended
  | resume_request {seen : Execution} :
      Goes cfg i s (.request .resume (.store seen)) .ok (.update_execution_state seen .running none)
        (.resume .load)
  | cancel {seen : Execution} :
      Goes cfg i s (.request .cancel (.store seen)) .ok
        (.update_execution_state seen .cancelled (some "Cancelled"))
        (.request .cancel .cancel_unstarted_jobs)
  | force_fail {seen : Execution} {error_message : Option String} :
      Goes cfg i s (.request (.fail error_message) (.store seen)) .ok
        (.update_execution_state seen .failed error_message) .ended
  | request_cancel {r : Request} :
      Goes cfg i s (.request r .cancel_unstarted_jobs) .ok .cancel_unstarted_jobs .ended
  | retry_load {error_contains : Option String} {seen : Execution} (hrow : s.execution = some seen)
      (hstate : seen.state ≠ .paused) :
      Goes cfg i s (.retry (.load error_contains)) .ok .get_execution
        (.retry (.requeue error_contains))
  | retry_refused {error_contains : Option String}
      (hrow : ∀ seen, s.execution = some seen → seen.state = .paused) :
      Goes cfg i s (.retry (.load error_contains)) .ok .get_execution .ended
  | retry_requeue {error_contains : Option String} :
      Goes cfg i s (.retry (.requeue error_contains)) .ok (.requeue_failed error_contains)
        (.retry (.reload ((s.jobs.filter (·.retryable cfg.like error_contains)).map (·.job_id))))
  | retry_none {error_contains : Option String}
      (hnone : s.jobs.filter (·.retryable cfg.like error_contains) = []) :
      Goes cfg i s (.retry (.requeue error_contains)) .ok (.requeue_failed error_contains) .ended
  | retry_reload {requeued : List JobId} {seen : Execution} (hrow : s.execution = some seen) :
      Goes cfg i s (.retry (.reload requeued)) .ok .get_execution (.retry (.store requeued seen))
  | retry_gone {requeued : List JobId} (hrow : s.execution = none) :
      Goes cfg i s (.retry (.reload requeued)) .ok .get_execution .ended
  | retry_running {requeued : List JobId} {seen : Execution} (hstate : seen.state = .running) :
      Goes cfg i s (.retry (.store requeued seen)) .ok (.reopen_execution seen) .ended
  | retry_store {requeued : List JobId} {seen : Execution} (hstate : seen.state ≠ .running) :
      Goes cfg i s (.retry (.store requeued seen)) .ok (.reopen_execution seen) (.resume .load)
  -- start-up, deliveries and the retention sweep
  | startup_release :
      Goes cfg i s (.startup .release) .ok (.release_drivers_on_host (cfg.host i)) (.startup .find)
  | startup_find (hrow : s.execution.any (·.interrupted) = true) :
      Goes cfg i s (.startup .find) .ok .get_execution (.resume .load)
  | startup_none (hrow : s.execution.any (·.interrupted) = false) :
      Goes cfg i s (.startup .find) .ok .get_execution .ended
  | deliver {job_id : JobId} {pc : DeliveryPc} {choice : Choice} {a : DeliveryAct}
      (ha : pc.act s.clock choice = some a) :
      Goes cfg i s (.deliver job_id pc) choice (.job job_id a.stmt)
        (.deliver job_id (a.next (a.stmt.reply (s.job job_id))))
  | sweep_jobs {cutoff : Int} :
      Goes cfg i s (.sweep (.jobs cutoff)) .ok (.purge_jobs cutoff)
        (.sweep (.executions cutoff (Stmt.expiredJobs cutoff s)))
  | sweep_executions {cutoff : Int} {doomed : List JobId} :
      Goes cfg i s (.sweep (.executions cutoff doomed)) .ok (.purge_executions cutoff doomed) .ended
  -- an exception leaves the task, or is caught where it is raised
  | lease_error {leased : Bool} {choice : Choice} {message : String}
      (hraised : choice.raised = some message) :
      Goes cfg i s (.plan leased .lease) choice .skip (.plan false .resolve)
  | stop_error {leased : Bool} {choice : Choice} {message : String}
      (hraised : choice.raised = some message) :
      Goes cfg i s (.plan leased .stop) choice .skip (.drive .run .claim)
  | leave_error {leased : Bool} {choice : Choice} {message : String}
      (hraised : choice.raised = some message) :
      Goes cfg i s (.plan leased (.leave none)) choice .skip .ended
  | leave_error_failed {leased : Bool} {error : String} {choice : Choice} {message : String}
      (hraised : choice.raised = some message) :
      Goes cfg i s (.plan leased (.leave (some error))) choice .skip (.failed (.load error))
  | plan_error {leased : Bool} {pc : PlanPc} {choice : Choice} {message : String}
      (hraised : choice.raised = some message) (hlease : pc ≠ .lease) (hstop : pc ≠ .stop) :
      Goes cfg i s (.plan leased pc) choice .skip (.plan leased (.leave (some message)))
  | failed_error {pc : FailedPc} {choice : Choice} {message : String}
      (hraised : choice.raised = some message) :
      Goes cfg i s (.failed pc) choice .skip .ended
  | release_error {task : Task} {choice : Choice} {message : String}
      (hraised : choice.raised = some message) :
      Goes cfg i s (.drive task (.release none)) choice .skip .ended
  | release_error_run {error : String} {choice : Choice} {message : String}
      (hraised : choice.raised = some message) :
      Goes cfg i s (.drive .run (.release (some error))) choice .skip (.failed (.load error))
  | release_error_resume {error : String} {choice : Choice} {message : String}
      (hraised : choice.raised = some message) :
      Goes cfg i s (.drive .resume (.release (some error))) choice .skip .ended
  | drive_error {task : Task} {pc : DrivePc} {message : String}
      (hpc : ∀ track batch pc', pc ≠ .execute_job track batch pc') :
      Goes cfg i s (.drive task pc) (.error message) .skip (.drive task (.release (some message)))
  | not_dispatching_error {task : Task} {message : String} :
      Goes cfg i s (.drive task .not_dispatching) (.db_error message) .skip
        (.drive task (.release (some message)))
  | settle_fallback {settler : Settler} {total : ℕ} {fallback : Totals} {pc : SettlePc}
      {choice : Choice} {message : String} (hraised : choice.raised = some message)
      (hpc : pc = .sync ∨ ∃ failed, pc = .counts failed) :
      Goes cfg i s (.settle settler total fallback pc) choice .skip
        (.settle settler total fallback (.load (fallbackState total fallback)))
  | settle_error {task : Task} {track : Track} {total : ℕ} {fallback : Totals} {pc : SettlePc}
      {message : String} (hpc : (∃ final, pc = .load final) ∨
        ∃ final seen, pc = .store final seen) :
      Goes cfg i s (.settle (.loop task track) total fallback pc) (.error message) .skip
        (.drive task (.release (some message)))
  | settle_error_resume {total : ℕ} {fallback : Totals} {pc : SettlePc} {choice : Choice}
      {message : String} (hraised : choice.raised = some message)
      (hpc : (∃ final, pc = .load final) ∨ ∃ final seen, pc = .store final seen) :
      Goes cfg i s (.settle .resume total fallback pc) choice .skip .ended
  | resume_error {pc : ResumePc} {choice : Choice} {message : String}
      (hraised : choice.raised = some message) :
      Goes cfg i s (.resume pc) choice .skip .ended
  | request_error {r : Request} {pc : RequestPc} {choice : Choice} {message : String}
      (hraised : choice.raised = some message) :
      Goes cfg i s (.request r pc) choice .skip .ended
  | retry_error {pc : RetryPc} {choice : Choice} {message : String}
      (hraised : choice.raised = some message) :
      Goes cfg i s (.retry pc) choice .skip .ended
  | startup_error {pc : StartupPc} {choice : Choice} {message : String}
      (hraised : choice.raised = some message) :
      Goes cfg i s (.startup pc) choice .skip .ended
  | sweep_error {pc : SweepPc} {choice : Choice} {message : String}
      (hraised : choice.raised = some message) :
      Goes cfg i s (.sweep pc) choice .skip .ended
  -- the loop tries again after a DBAPIError
  | claim_db_error {task : Task} {message : String} :
      Goes cfg i s (.drive task .claim) (.db_error message) .skip (.drive task .claim)
  | standby_db_error {task : Task} {message : String} :
      Goes cfg i s (.drive task .standby) (.db_error message) .skip (.drive task .claim)
  | drive_db_error {task : Task} {pc : DrivePc} {track : Track} {message : String}
      (htrack : pc.track = some track) :
      Goes cfg i s (.drive task pc) (.db_error message) .skip (.drive task (.heartbeat track))
  | settle_db_error {task : Task} {track : Track} {total : ℕ} {fallback : Totals} {pc : SettlePc}
      {message : String} (hpc : (∃ final, pc = .load final) ∨
        ∃ final seen, pc = .store final seen) :
      Goes cfg i s (.settle (.loop task track) total fallback pc) (.db_error message) .skip
        (.drive task (.heartbeat track))

theorem drained_of_counts {jobs : List Job} (hp : (get_job_counts jobs).pending = 0)
    (hd : (get_job_counts jobs).dispatched = 0) (hr : (get_job_counts jobs).running = 0) :
    Drained jobs := by
  intro job hjob
  simp only [get_job_counts, List.countP_eq_zero, decide_eq_true_eq] at hp hd hr
  have hpending := hp job hjob
  have hdispatched := hd job hjob
  have hrunning := hr job hjob
  cases hstate : job.state <;> simp_all [JobState.unfinished]

section

variable {cfg : Config} {i : TaskId} {s : Store} {choice : Choice} {a : Act}

theorem plan_goes {leased : Bool} {pc : PlanPc} (h : pc.run cfg i s.clock leased choice = some a) :
    Goes cfg i s (.plan leased pc) choice a.stmt (a.next (a.stmt.reply cfg s)) := by
  cases pc <;> cases choice <;> simp only [PlanPc.run, Option.some.injEq, reduceCtorEq] at h
  case load.ok =>
    subst h
    cases hrow : s.execution <;> simp only [Stmt.reply, hrow]
    case none => exact .plan_load_gone hrow
    case some seen => exact .plan_load hrow
  case next.slice p =>
    split at h <;> cases h
    · exact .plan_slice_check
    · simp only [Act.goto, PlanPc.added]
      split
      · exact .plan_slice_full
      · exact .plan_slice
  case check.ok p =>
    subst h
    have hgo (h : ∀ row, s.execution = some row → row.state ≠ .cancelled ∧ row.state ≠ .failed) :
        Goes cfg i s (.plan leased (.check p)) .ok .get_execution
            (.plan leased (PlanPc.added cfg p)) := by
      unfold PlanPc.added
      split
      · exact .plan_check_full h
      · exact .plan_check h
    cases hrow : s.execution with
    | none =>
        simp only [Stmt.reply, hrow, Option.any_none, Bool.false_eq_true, if_false]
        exact hgo (by simp [hrow])
    | some row =>
        by_cases hstate : row.state = .cancelled ∨ row.state = .failed
        · simp only [Stmt.reply, hrow, Option.any_some, hstate, decide_true, if_true]
          exact .plan_check_abort hrow hstate
        · simp only [Stmt.reply, hrow, Option.any_some, hstate, decide_false,
            Bool.false_eq_true, if_false]
          exact hgo (by simpa [hrow] using hstate)
  case flush.ok p =>
    subst h
    cases hsaved : p.rows.isEmpty || s.execution.isSome <;> simp only [Stmt.reply, hsaved]
    case true => exact .plan_flush
    case false => exact .plan_flush_refused (by simpa using (Bool.or_eq_false_iff.mp hsaved).2)
  case last.ok p =>
    subst h
    cases hsaved : p.rows.isEmpty || s.execution.isSome <;> simp only [Stmt.reply, hsaved]
    case true => exact .plan_last
    case false => exact .plan_last_refused (by simpa using (Bool.or_eq_false_iff.mp hsaved).2)
  case stop.ok => cases leased <;> cases h <;> constructor
  case leave.ok error => cases leased <;> cases error <;> cases h <;> constructor
  all_goals
    subst h
    constructor

theorem failed_goes {pc : FailedPc} (h : pc.run choice = some a) :
    Goes cfg i s (.failed pc) choice a.stmt (a.next (a.stmt.reply cfg s)) := by
  cases pc <;> cases choice <;>
    simp only [FailedPc.run, Option.some.injEq, reduceCtorEq] at h <;> subst h
  case load.ok message =>
    cases hrow : s.execution <;> simp only [Stmt.reply, hrow]
    case none => exact .failed_gone hrow
    case some seen => exact .failed_load hrow
  case store.ok => exact .failed_store

theorem drive_goes {task : Task} {pc : DrivePc} (h : pc.run cfg i s.clock task choice = some a) :
    Goes cfg i s (.drive task pc) choice a.stmt (a.next (a.stmt.reply cfg s)) := by
  cases pc <;> cases choice <;> simp only [DrivePc.run, Option.some.injEq, reduceCtorEq] at h
  case claim.ok =>
    subst h
    exact iteInduction (motive := Goes cfg i s _ _ _) (fun h => .claim h)
      fun h => .claim_refused (eq_false_of_ne_true h)
  case standby.ok =>
    subst h
    exact iteInduction (motive := Goes cfg i s _ _ _) (fun h => .standby h)
      fun h => .standby_stop (eq_false_of_ne_true h)
  case heartbeat.ok track =>
    subst h
    exact iteInduction (motive := Goes cfg i s _ _ _) (fun h => .heartbeat h)
      fun h => .heartbeat_lost (eq_false_of_ne_true h)
  case state.ok track =>
    subst h
    refine iteInduction (motive := Goes cfg i s _ _ _) (fun hrun => ?_)
      fun h => .state_stop (eq_false_of_ne_true h)
    split
    · exact .state_reclaim hrun
    · exact .state_counts hrun
  case counts.ok track =>
    subst h
    refine iteInduction (motive := Goes cfg i s _ _ _) (fun hdone => ?_) fun _ => ?_
    · obtain ⟨hpending, hflight⟩ := hdone
      exact .counts_settle (drained_of_counts hpending (Nat.eq_zero_of_add_eq_zero hflight).1
        (Nat.eq_zero_of_add_eq_zero hflight).2)
    · exact iteInduction (motive := Goes cfg i s _ _ _) (fun h => .counts_fetch h.1)
        fun _ => .counts_wait
  case fetch.ok track limit =>
    subst h
    cases hlocal : cfg.local_mode
    · exact .fetch hlocal
    · exact .fetch_local hlocal
  case should_stop.ok track batch token =>
    split at h
    · cases h
      exact .should_stop_end
    · rename_i hgo
      simp only [not_or] at hgo
      split at h
      · cases h
        exact .should_stop_check hgo.1
      · rename_i hrecent
        cases h
        cases hcheck : batch.last_check with
        | none => simp [hcheck] at hrecent
        | some at_ =>
            have hsecond : s.clock - at_ < second := by simpa [hcheck] using hrecent
            cases token
            · exact .should_stop_token hgo.1 hcheck hsecond
            · exact .should_stop_send hgo.1 hcheck hsecond
  case check_heartbeat.ok track batch token =>
    subst h
    exact iteInduction (motive := Goes cfg i s _ _ _) (fun h => .check_heartbeat h)
      fun h => .check_heartbeat_lost (eq_false_of_ne_true h)
  case check_state.ok track batch token =>
    subst h
    refine iteInduction (motive := Goes cfg i s _ _ _) (fun h => ?_)
      fun h => .check_state_stop (eq_false_of_ne_true h)
    cases token
    · exact .check_state_token h
    · exact .check_state_send h
  case release.ok error =>
    subst h
    cases error <;> cases task <;> constructor
  case acquire_token.ok track batch =>
    cases hlocal : cfg.local_mode <;> simp only [hlocal] at h <;> cases h
    · exact .acquire_token hlocal
    · exact .acquire_local hlocal
  case send.ok | on_sent.ok | on_unsendable.ok =>
    obtain ⟨job_id, hjob, rfl⟩ := Option.map_eq_some_iff.mp h
    constructor
    exact hjob
  all_goals
    subst h
    constructor

theorem settle_goes {settler : Settler} {total : ℕ} {fallback : Totals} {pc : SettlePc}
    (h : pc.run settler total fallback choice = some a) :
    Goes cfg i s (.settle settler total fallback pc) choice a.stmt
      (a.next (a.stmt.reply cfg s)) := by
  cases pc <;> cases choice <;>
    simp only [SettlePc.run, Option.some.injEq, reduceCtorEq] at h <;> subst h
  case load.ok final =>
    cases hrow : s.execution <;> simp only [Stmt.reply, hrow]
    case none =>
      cases settler
      · exact .settle_gone hrow
      · exact .settle_gone_resume hrow
    case some seen => exact .settle_load hrow
  case store.ok => cases settler <;> constructor
  all_goals constructor

theorem resume_goes {pc : ResumePc} (h : pc.run cfg i s.clock choice = some a) :
    Goes cfg i s (.resume pc) choice a.stmt (a.next (a.stmt.reply cfg s)) := by
  cases pc <;> cases choice <;>
    simp only [ResumePc.run, Option.some.injEq, reduceCtorEq] at h <;> subst h
  case load.ok =>
    cases hrow : s.execution <;> simp only [Stmt.reply, hrow]
    case none => exact .resume_gone hrow
    case some seen =>
      cases hstate : seen.state.terminal with
      | true => exact .resume_settled hrow hstate
      | false =>
          by_cases hplan : seen.plan_complete = some false
          · simp only [Bool.false_eq_true, if_false, hplan, if_true]
            exact .resume_recover hrow hstate hplan
          · simp only [Bool.false_eq_true, if_false, hplan]
            exact .resume_load hrow hstate hplan
  case load.missing message =>
    cases hrow : s.execution <;> simp only [Stmt.reply, hrow]
    case none => exact .missing_ended (by simp [hrow])
    case some seen =>
      cases hstate : seen.state.terminal with
      | true => exact .missing_ended (by simp [hrow, hstate])
      | false => exact .missing hrow hstate
  case recover.ok =>
    cases hrow : s.execution <;> simp only [Stmt.reply, hrow]
    case none => exact .recover_ended (by simp [hrow])
    case some seen =>
      cases hstate : seen.pausable with
      | false => exact .recover_ended (by simp [hrow, hstate])
      | true =>
          by_cases hplan : seen.plan_complete = some false
          · simp only [Bool.not_true, Bool.false_eq_true, if_false, hplan, ne_eq, not_true]
            split
            · exact .recover_old hrow hstate hplan ‹_›
            · exact .recover_young hrow hstate hplan
          · simp only [Bool.not_true, Bool.false_eq_true, if_false, ne_eq, hplan,
              not_false_eq_true, if_true]
            exact .recover_planned hrow hstate hplan
  case recover_claim.ok =>
    exact iteInduction (motive := Goes cfg i s _ _ _) (fun h => .recover_claim h)
      fun h => .recover_claim_refused (eq_false_of_ne_true h)
  case recover_load.ok saved =>
    cases hrow : s.execution <;> simp only [Stmt.reply, hrow]
    case none => exact .recover_gone hrow
    case some seen => exact .recover_load hrow
  case counts.ok =>
    refine iteInduction (motive := Goes cfg i s _ _ _) (fun hdone => ?_) fun _ => ?_
    · have hsum : (get_job_counts s.jobs).pending + (get_job_counts s.jobs).dispatched +
          (get_job_counts s.jobs).running = 0 := hdone
      exact .resume_settle (drained_of_counts (by omega) (by omega) (by omega))
    · cases hlocal : cfg.local_mode
      · exact .resume_drive
      · exact .resume_orphans hlocal
  all_goals constructor

theorem request_goes {r : Request} {pc : RequestPc} (h : pc.run r choice = some a) :
    Goes cfg i s (.request r pc) choice a.stmt (a.next (a.stmt.reply cfg s)) := by
  cases pc <;> cases choice <;>
    simp only [RequestPc.run, Option.some.injEq, reduceCtorEq] at h <;> subst h
  case load.ok =>
    cases hrow : s.execution <;> simp only [Stmt.reply, hrow]
    case none => exact .request_refused (by simp [hrow])
    case some seen =>
      cases hadmits : r.admits seen with
      | true => exact .request_load hrow hadmits
      | false => exact .request_refused (by simp [hrow, hadmits])
  case store.ok => cases r <;> constructor
  all_goals constructor

theorem retry_goes {pc : RetryPc} (h : pc.run choice = some a) :
    Goes cfg i s (.retry pc) choice a.stmt (a.next (a.stmt.reply cfg s)) := by
  cases pc <;> cases choice <;>
    simp only [RetryPc.run, Option.some.injEq, reduceCtorEq] at h <;> subst h
  case load.ok error_contains =>
    cases hrow : s.execution <;> simp only [Stmt.reply, hrow]
    case none => exact .retry_refused (by simp [hrow])
    case some seen =>
      split
      · rename_i hstate
        exact .retry_refused (by simp [hrow, hstate])
      · exact .retry_load hrow ‹_›
  case requeue.ok error_contains =>
    refine iteInduction (motive := Goes cfg i s _ _ _) (fun hnone => .retry_none ?_)
      fun _ => .retry_requeue
    exact List.map_eq_nil_iff.mp hnone
  case reload.ok requeued =>
    cases hrow : s.execution <;> simp only [Stmt.reply, hrow]
    case none => exact .retry_gone hrow
    case some seen => exact .retry_reload hrow
  case store.ok requeued seen =>
    simp only
    split
    · exact .retry_running ‹_›
    · exact .retry_store ‹_›

theorem startup_goes {pc : StartupPc} (h : pc.run cfg i choice = some a) :
    Goes cfg i s (.startup pc) choice a.stmt (a.next (a.stmt.reply cfg s)) := by
  cases pc <;> cases choice <;>
    simp only [StartupPc.run, Option.some.injEq, reduceCtorEq] at h <;> subst h
  case release.ok => exact .startup_release
  case find.ok =>
    exact iteInduction (motive := Goes cfg i s _ _ _) (fun h => .startup_find h)
      fun h => .startup_none (eq_false_of_ne_true h)

theorem sweep_goes {pc : SweepPc} (h : pc.run choice = some a) :
    Goes cfg i s (.sweep pc) choice a.stmt (a.next (a.stmt.reply cfg s)) := by
  cases pc <;> cases choice <;>
    simp only [SweepPc.run, Option.some.injEq, reduceCtorEq] at h <;> subst h <;>
    constructor

theorem run_goes {p : Proc} (h : p.run cfg i s.clock choice = some a) :
    Goes cfg i s p choice a.stmt (a.next (a.stmt.reply cfg s)) := by
  cases p with
  | plan leased pc => exact plan_goes h
  | failed pc => exact failed_goes h
  | drive task pc => exact drive_goes h
  | settle settler total fallback pc => exact settle_goes h
  | resume pc => exact resume_goes h
  | request r pc => exact request_goes h
  | retry pc => exact retry_goes h
  | startup pc => exact startup_goes h
  | sweep pc => exact sweep_goes h
  | idle | deliver _ _ | ended => simp [Proc.run] at h

-- An exception that is not a DBAPIError.
theorem error_goes {p : Proc} {message : String} (h : ∀ job_id pc, p ≠ .deliver job_id pc)
    (hexecute : ∀ task track batch pc, p ≠ .drive task (.execute_job track batch pc))
    (hidle : p ≠ .idle) (hended : p ≠ .ended) :
      Goes cfg i s p (.error message) .skip (p.raise message) := by
  have hraised : (Choice.error message).raised = some message := rfl
  cases p with
  | idle => exact absurd rfl hidle
  | ended => exact absurd rfl hended
  | deliver job_id pc => exact absurd rfl (h job_id pc)
  | plan leased pc =>
      cases pc
      case lease => exact .lease_error hraised
      case stop => exact .stop_error hraised
      case leave error =>
        cases error
        · exact .leave_error hraised
        · exact .leave_error_failed hraised
      all_goals exact .plan_error hraised (by simp) (by simp)
  | failed pc => exact .failed_error hraised
  | drive task pc =>
      cases pc
      case release error =>
        cases error
        · cases task <;> exact .release_error hraised
        · cases task
          · exact .release_error_run hraised
          · exact .release_error_resume hraised
      case execute_job track batch pc => exact absurd rfl (hexecute task track batch pc)
      all_goals exact .drive_error (by simp)
  | settle settler total fallback pc =>
      cases pc
      case sync => exact .settle_fallback hraised (.inl rfl)
      case counts failed => exact .settle_fallback hraised (.inr ⟨failed, rfl⟩)
      case load final =>
        cases settler
        · exact .settle_error (.inl ⟨final, rfl⟩)
        · exact .settle_error_resume hraised (.inl ⟨final, rfl⟩)
      case store final seen =>
        cases settler
        · exact .settle_error (.inr ⟨final, seen, rfl⟩)
        · exact .settle_error_resume hraised (.inr ⟨final, seen, rfl⟩)
  | resume pc => exact .resume_error hraised
  | request r pc => exact .request_error hraised
  | retry pc => exact .retry_error hraised
  | startup pc => exact .startup_error hraised
  | sweep pc => exact .sweep_error hraised

theorem db_error_goes {p : Proc} {message : String} (h : ∀ job_id pc, p ≠ .deliver job_id pc)
    (hidle : p ≠ .idle) (hended : p ≠ .ended) :
    Goes cfg i s p (.db_error message) .skip (p.db_error message) := by
  have hraised : (Choice.db_error message).raised = some message := rfl
  cases p with
  | idle => exact absurd rfl hidle
  | ended => exact absurd rfl hended
  | deliver job_id pc => exact absurd rfl (h job_id pc)
  | plan leased pc =>
      cases pc
      case lease => exact .lease_error hraised
      case stop => exact .stop_error hraised
      case leave error =>
        cases error
        · exact .leave_error hraised
        · exact .leave_error_failed hraised
      all_goals exact .plan_error hraised (by simp) (by simp)
  | failed pc => exact .failed_error hraised
  | drive task pc =>
      cases pc
      case claim => exact .claim_db_error
      case standby => exact .standby_db_error
      case not_dispatching => exact .not_dispatching_error
      case release error =>
        cases error
        · cases task <;> exact .release_error hraised
        · cases task
          · exact .release_error_run hraised
          · exact .release_error_resume hraised
      all_goals exact .drive_db_error rfl
  | settle settler total fallback pc =>
      cases pc
      case sync => cases settler <;> exact .settle_fallback hraised (.inl rfl)
      case counts failed => cases settler <;> exact .settle_fallback hraised (.inr ⟨failed, rfl⟩)
      case load final =>
        cases settler
        · exact .settle_db_error (.inl ⟨final, rfl⟩)
        · exact .settle_error_resume hraised (.inl ⟨final, rfl⟩)
      case store final seen =>
        cases settler
        · exact .settle_db_error (.inr ⟨final, seen, rfl⟩)
        · exact .settle_error_resume hraised (.inr ⟨final, seen, rfl⟩)
  | resume pc => exact .resume_error hraised
  | request r pc => exact .request_error hraised
  | retry pc => exact .retry_error hraised
  | startup pc => exact .startup_error hraised
  | sweep pc => exact .sweep_error hraised

theorem goes_of_act {p : Proc} (h : p.act cfg i s.clock choice = some a) :
    Goes cfg i s p choice a.stmt (a.next (a.stmt.reply cfg s)) := by
  unfold Proc.act at h
  split at h
  · cases h
  · cases h
  · obtain ⟨d, hd, rfl⟩ := Option.map_eq_some_iff.mp h
    exact .deliver hd
  · split at h
    · cases h
      exact .executed
    · cases h
    · obtain ⟨job_id, hj, h⟩ := Option.bind_eq_some_iff.mp h
      obtain ⟨d, hd, rfl⟩ := Option.map_eq_some_iff.mp h
      exact .execute_job hj hd
  · cases h
    exact db_error_goes ‹_› ‹_› ‹_›
  · cases h
    exact error_goes ‹_› ‹_› ‹_› ‹_›
  · cases h
    exact .plan_beat
  · exact run_goes h

end

end Reflowfy
