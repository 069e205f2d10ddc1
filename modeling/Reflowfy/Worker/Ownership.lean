import Reflowfy.Worker.JobSystem
import Reflowfy.JobManager.Rows

namespace Reflowfy.JobSystem

open Interleaving

-- A delivery that executes the job holds its claim.
def Owns (store : JobStore) (d : ℕ) : DeliveryPc → Prop
  | .live _ => store.row.state = .running ∧ store.holder = some d
  | _ => True

def Owned (s : JobSystem) : Prop := s.Holds (fun _ => True) Owns

-- Every claim statement reaches the database, a sweep takes a running job only
-- from a delivery that has ended, and a job reported unsendable is still waiting
-- for a worker, as it was when the loop fetched it.
def Orderly (cfg : Config) (s : JobSystem) : JobEvent → Prop
  | .go d choice => s.procs d = .claim ∨ s.procs d = .blocked → choice = .ok
  | .reclaim_expired_leases now =>
      s.store.row.staleRunning cfg now = true → ∀ d at_, s.procs d ≠ .live at_
  | .on_unsendable _ _ => s.store.row.state.unstarted = true
  | _ => True

variable {cfg : Config} {s s' : JobSystem}

theorem owned_initial (h : Initial s) : Owned s :=
  ⟨trivial, fun d => by rw [h.2.2 d]; trivial⟩

theorem Owned.live {d : ℕ} {at_ : Int} (h : Owned s) (hd : s.procs d = .live at_) :
    s.store.row.state = .running ∧ s.store.holder = some d := by
  have := h.2 d
  rwa [hd] at this

theorem Owned.live_unique {d d' : ℕ} {at_ at' : Int} (h : Owned s)
    (hd : s.procs d = .live at_) (hd' : s.procs d' = .live at') : d = d' := by
  have hholder := (h.live hd).2
  rw [(h.live hd').2] at hholder
  exact (Option.some.inj hholder).symm

-- The row may change under the deliveries as long as a running job keeps running.
theorem owns_of_running {store store' : JobStore} (hholder : store'.holder = store.holder)
    (hrow : store.row.state = .running → store'.row.state = .running) (d : ℕ) (p : DeliveryPc)
    (h : Owns store d p) : Owns store' d p := by
  cases p with
  | live at_ => exact ⟨hrow h.1, hholder.trans h.2⟩
  | _ => trivial

theorem owned_row (h : Owned s) (row : Job) (hrow : s.store.row.state = .running →
    row.state = .running)
    (fetched : List TaskId) : Owned { s with store := { s.store with row, fetched } } :=
  h.store trivial (owns_of_running rfl hrow)

-- Without a live delivery any change of the store is safe.
theorem owned_of_not_live (hnot : ∀ d at_, s.procs d ≠ .live at_) (store : JobStore) :
    Owned { s with store } := by
  refine ⟨trivial, fun d => ?_⟩
  change Owns store d (s.procs d)
  cases hd : s.procs d with
  | live at_ => exact absurd hd (hnot d at_)
  | _ => trivial

theorem owned_claim {d : ℕ} (h : Owned s) :
    Owned (s.set d (s.store.apply d .claim_job)
      (if s.store.row.state.unstarted then .live s.store.clock else .blocked)) := by
  cases hstate : s.store.row.state.unstarted with
  | true =>
      refine Pool.Holds.set h trivial ?_ fun j hj hown => ?_
      · simp [Owns, JobStore.apply, JobStmt.set, hstate]
      · -- an executing delivery keeps the row running, and a running row is not granted
        cases hp : s.procs j with
        | live at_ =>
            have := (h.live hp).1
            simp [this, JobState.unstarted] at hstate
        | _ => trivial
  | false =>
      refine Pool.Holds.set h trivial (by simp [Owns]) fun j hj hown => ?_
      exact owns_of_running (by simp [JobStore.apply, hstate])
        (by simp [JobStore.apply, JobStmt.set, hstate]) j _ hown

theorem owned_go {d : ℕ} {choice : Choice} {a : DeliveryAct} (h : Owned s)
    (hok : s.procs d = .claim ∨ s.procs d = .blocked → choice = .ok)
    (ha : (s.procs d).act s.store.clock choice = some a) :
    Owned (s.set d (s.store.apply d a.stmt) (a.next (a.stmt.reply (some s.store.row)))) := by
  have hrun : ∀ stmt : JobStmt, stmt ≠ .claim_job →
      (s.store.row.state = .running → (s.store.apply d stmt).row.state = .running) →
      ∀ p, (∀ at_, p ≠ .live at_) → Owned (s.set d (s.store.apply d stmt) p) := by
    intro stmt hstmt hrow p hp
    refine Pool.Holds.set h trivial ?_ fun j hj hown => ?_
    · cases p with
      | live at_ => exact absurd rfl (hp at_)
      | _ => trivial
    · exact owns_of_running (by cases stmt <;> first | rfl | exact absurd rfl hstmt) hrow j _ hown
  cases hp : s.procs d with
  | idle | ended => cases choice <;> simp [hp, DeliveryPc.act] at ha
  | claim =>
      cases hok (.inl hp)
      simp only [hp, DeliveryPc.act, Option.some.injEq] at ha
      subst ha
      exact owned_claim h
  | blocked =>
      cases hok (.inr hp)
      simp only [hp, DeliveryPc.act, Option.some.injEq] at ha
      subst ha
      exact hrun _ (by simp) (by simp [JobStore.apply, JobStmt.set]) _ (by simp [JobStmt.reply])
  | closing =>
      cases choice <;> simp only [hp, DeliveryPc.act, Option.some.injEq, reduceCtorEq] at ha <;>
        subst ha <;> exact hrun _ (by simp) (by simp [JobStore.apply, JobStmt.set]) _ (by simp)
  | live at_ =>
      obtain ⟨hrow, hholder⟩ := h.live hp
      cases choice <;> simp only [hp, DeliveryPc.act, Option.some.injEq,
        reduceCtorEq] at ha <;> subst ha
      case beat =>
        refine Pool.Holds.set h trivial ?_ fun j hj hown => ?_
        · simp [Owns, JobStore.apply, JobStmt.set, hrow, hholder]
        · have hsame : (s.store.apply d .heartbeat_job).holder = s.store.holder := rfl
          exact owns_of_running hsame (by simp [JobStore.apply, JobStmt.set]) j _ hown
      case result stats =>
        refine Pool.Holds.set h trivial trivial fun j hj hown => ?_
        -- no other delivery executes the job: the claim is this one's
        cases hpj : s.procs j with
        | live at' => exact absurd (h.live_unique hpj hp) hj
        | _ => trivial
      all_goals exact hrun _ (by simp) (by simp [JobStore.apply, JobStmt.set]) _ (by simp)

theorem owned_step {e : JobEvent} (h : Owned s) (hok : Orderly cfg s e)
    (hs : step cfg s e = some s') :
    Owned s' := by
  cases e with
  | tick now =>
      simp only [step, Option.ite_none_right_eq_some, Option.some.injEq] at hs
      obtain ⟨-, rfl⟩ := hs
      exact h.store trivial (owns_of_running rfl id)
  | deliver d =>
      simp only [step, Option.ite_none_right_eq_some, Option.some.injEq] at hs
      obtain ⟨-, rfl⟩ := hs
      exact Pool.Holds.set h trivial trivial fun _ _ hown => hown
  | go d choice =>
      obtain ⟨a, ha, rfl⟩ := Option.map_eq_some_iff.mp hs
      exact owned_go h hok ha
  | mark_job_dispatched =>
      cases hs
      exact owned_row h _ (by simp +contextual) _
  | cancel_unstarted_jobs =>
      cases hs
      exact owned_row h _ (by simp +contextual [JobState.unstarted]) _
  | requeue_failed error_contains =>
      cases hs
      refine owned_row h _ (fun hrow => ?_) _
      rw [Job.requeue_failed_state, if_neg fun hf => ?_]
      · exact hrow
      · simp [Job.failed_of_retryable hf] at hrow
  | reclaim_expired_leases now =>
      simp only [step, Option.ite_none_right_eq_some, Option.some.injEq] at hs
      obtain ⟨-, rfl⟩ := hs
      cases hstale : s.store.row.staleRunning cfg now with
      | true => exact owned_of_not_live (hok hstale) _
      | false =>
          refine h.store trivial
            (owns_of_running (by simp [JobStore.reclaim, hstale]) fun hrow => ?_)
          simp only [JobStore.reclaim]
          rw [Job.reclaim_eq_self hstale (by simp [hrow]), hrow]
  | fetch loop =>
      cases hs
      refine h.store trivial (owns_of_running ?_ ?_) <;> split <;> first | rfl | exact id
  | on_unsendable loop reason =>
      cases hs
      exact owned_row h _ (fun hrow => by simp [Orderly, hrow, JobState.unstarted] at hok) _

theorem owned_reach (hr : Reach (step cfg) Initial (Orderly cfg) s) : Owned s :=
  hr.invariant (fun _ => owned_initial) fun _ _ _ _ h hok hs => owned_step h hok hs

end Reflowfy.JobSystem
