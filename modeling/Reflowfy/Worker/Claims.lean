import Reflowfy.Worker.Ownership

namespace Reflowfy.JobSystem

open Interleaving

-- Deliveries whose statements all succeed, sends, sweeps, cancels and operator
-- retries.
def Protocol : JobEvent → Prop
  | .go _ (.db_error _) | .go _ (.error _) => False
  | .on_unsendable _ _ => False
  | _ => True

-- No delivery executes the job for longer than its running lease: it is at most one
-- lease since it claimed the job or last refreshed its row.
def InLease (cfg : Config) (s : JobSystem) : Prop :=
  ∀ d at_, s.procs d = .live at_ → s.store.clock ≤ at_ + cfg.JOB_RUNNING_LEASE_SECONDS

-- Delivery `d` is granted the claim.
def Granted (s s' : JobSystem) (d : ℕ) : Prop :=
  s.procs d = .claim ∧ ∃ at_, s'.procs d = .live at_

-- The job goes back to 'pending'.
def MovedBack (s s' : JobSystem) : Prop :=
  s.store.row.state ≠ .pending ∧ s'.store.row.state = .pending

-- Part of a run in which the job does not move back, with the claims granted in it.
inductive Epoch (cfg : Config) (s : JobSystem) : ℕ → JobSystem → Prop
  | refl : Epoch cfg s 0 s
  | grant {n : ℕ} {m s' : JobSystem} {e : JobEvent} {d : ℕ} (he : Epoch cfg s n m) (hp : Protocol e)
      (hs : step cfg m e = some s') (hmoved : ¬MovedBack m s') (hd : Granted m s' d) :
      Epoch cfg s (n + 1) s'
  | other {n : ℕ} {m s' : JobSystem} {e : JobEvent} (he : Epoch cfg s n m) (hp : Protocol e)
      (hs : step cfg m e = some s') (hmoved : ¬MovedBack m s') (hd : ∀ d, ¬Granted m s' d) :
      Epoch cfg s n s'

variable {cfg : Config} {s s' : JobSystem} {e : JobEvent}

theorem protocol_go {d : ℕ} {choice : Choice} (hp : Protocol (.go d choice)) :
    (∀ message, choice ≠ .db_error message) ∧ ∀ message, choice ≠ .error message := by
  constructor <;> rintro message rfl <;> exact hp

-- A claim is granted by the worker's UPDATE alone, to a job still waiting for one.
theorem granted_cases {d : ℕ} (hp : Protocol e) (hs : step cfg s e = some s')
    (hd : Granted s s' d) :
    e = .go d .ok ∧ s.store.row.state.unstarted = true ∧ s'.store.row.state = .running := by
  obtain ⟨hclaim, at_, hlive⟩ := hd
  have hsame : s'.procs d ≠ s.procs d := by rw [hclaim, hlive]; simp
  cases e with
  | go d' choice =>
      obtain ⟨a, ha, rfl⟩ := Option.map_eq_some_iff.mp hs
      by_cases hne : d = d'
      · subst hne
        obtain ⟨hdb, herr⟩ := protocol_go hp
        rw [hclaim] at ha
        cases choice <;> simp only [DeliveryPc.act, Option.some.injEq, reduceCtorEq] at ha
        case db_error message => exact absurd rfl (hdb message)
        case error message => exact absurd rfl (herr message)
        subst ha
        cases hu : s.store.row.state.unstarted with
        | true => exact ⟨rfl, rfl, by simp [JobStore.apply, JobStmt.set, hu]⟩
        | false => simp [JobStmt.reply, hu] at hlive
      · exact absurd (Pool.set_procs_of_ne s _ _ hne) hsame
  | deliver d' =>
      simp only [step, Option.ite_none_right_eq_some, Option.some.injEq] at hs
      obtain ⟨hidle, rfl⟩ := hs
      by_cases hne : d = d'
      · subst hne
        rw [hclaim] at hidle
        cases hidle
      · exact absurd (Pool.set_procs_of_ne s _ _ hne) hsame
  | tick now | reclaim_expired_leases now =>
      simp only [step, Option.ite_none_right_eq_some, Option.some.injEq] at hs
      obtain ⟨-, rfl⟩ := hs
      exact absurd rfl hsame
  | _ => cases hs; exact absurd rfl hsame

theorem stats_state_started (stats : JobStats) : stats.state.unstarted = false := by
  unfold JobStats.state
  split
  · rfl
  · split <;> rfl

theorem apply_row_started {store : JobStore} (d : ℕ) (stmt : JobStmt)
    (h : store.row.state.unstarted = false) : (store.apply d stmt).row.state.unstarted = false := by
  cases stmt <;> simp only [JobStore.apply, JobStmt.set]
  case mark_job_dispatched =>
    rw [Job.mark_job_dispatched_state, if_neg fun hp => ?_]
    · exact h
    · simp [hp, JobState.unstarted] at h
  case update_job_in_db stats => exact stats_state_started stats
  case claim_job => simp [h]
  case heartbeat_job => simpa using h
  all_goals first | exact h | rfl

-- Once a delivery has claimed the job, nothing makes it claimable again without
-- moving it back to 'pending' first.
theorem started_step (hs : step cfg s e = some s') (hmoved : ¬MovedBack s s')
    (h : s.store.row.state.unstarted = false) : s'.store.row.state.unstarted = false := by
  have hpending : s.store.row.state ≠ .pending := fun hp => by simp [hp, JobState.unstarted] at h
  have hdispatched : s.store.row.state ≠ .dispatched := fun hp => by
    simp [hp, JobState.unstarted] at h
  have hnot : s'.store.row.state ≠ .pending := fun hp => hmoved ⟨hpending, hp⟩
  cases e with
  | tick now =>
      simp only [step, Option.ite_none_right_eq_some, Option.some.injEq] at hs
      obtain ⟨-, rfl⟩ := hs
      exact h
  | deliver d =>
      simp only [step, Option.ite_none_right_eq_some, Option.some.injEq] at hs
      obtain ⟨-, rfl⟩ := hs
      exact h
  | go d choice =>
      obtain ⟨a, -, rfl⟩ := Option.map_eq_some_iff.mp hs
      exact apply_row_started d a.stmt h
  | mark_job_dispatched =>
      cases hs
      simpa [JobStore.setRow, hpending] using h
  | cancel_unstarted_jobs =>
      cases hs
      simp [h]
  | requeue_failed error_contains =>
      cases hs
      simp only [JobStore.setRow, Job.requeue_failed_state] at hnot ⊢
      split
      · rename_i hf
        simp [hf] at hnot
      · exact h
  | reclaim_expired_leases now =>
      simp only [step, Option.ite_none_right_eq_some, Option.some.injEq] at hs
      obtain ⟨-, rfl⟩ := hs
      simp only [JobStore.reclaim] at hnot ⊢
      rcases Job.reclaim_cases cfg now s.store.row with
        ⟨-, -, hr⟩ | ⟨-, -, hr⟩ | ⟨-, hr⟩ | ⟨-, -, hr⟩
      · simp [hr, JobState.unstarted]
      · exact absurd hr hnot
      · exact absurd hr hnot
      · rw [hr]; exact h
  | fetch loop =>
      cases hs
      simpa [hpending] using h
  | on_unsendable loop reason =>
      cases hs
      rfl

theorem epoch_claims (he : Epoch cfg s n s') :
    n = 0 ∨ (n = 1 ∧ s'.store.row.state.unstarted = false) := by
  induction he with
  | refl => exact .inl rfl
  | @grant n m s' e d _ hp hs hmoved hd ih =>
      obtain ⟨-, hu, hrow⟩ := granted_cases hp hs hd
      rcases ih with rfl | ⟨-, hstarted⟩
      · exact .inr ⟨rfl, by simp [hrow, JobState.unstarted]⟩
      · simp [hu] at hstarted
  | other _ _ hs hmoved _ ih =>
      exact ih.imp_right fun h => ⟨h.1, started_step hs hmoved h.2⟩

-- The lease of an executing delivery is no older than the row's `updated_at`.
def Renewed (store : JobStore) (_ : ℕ) : DeliveryPc → Prop
  | .live at_ => at_ ≤ store.row.updated_at ∧ at_ ≤ store.clock
  | _ => True

-- The steps of a run in which no delivery outlives its lease.
def Leased (cfg : Config) (s : JobSystem) (e : JobEvent) : Prop := Protocol e ∧ InLease cfg s

def LeaseInv (s : JobSystem) : Prop := Owned s ∧ s.Holds (fun _ => True) Renewed

theorem renewed_of_running {store store' : JobStore} (hclock : store.clock ≤ store'.clock)
    (hrow : store'.row.updated_at = store.row.updated_at ∨ store.clock ≤ store'.row.updated_at)
    (d : ℕ) (p : DeliveryPc) (h : Renewed store d p) : Renewed store' d p := by
  cases p with
  | live at_ =>
      obtain ⟨hrenewed, hread⟩ := h
      refine ⟨?_, Int.le_trans hread hclock⟩
      rcases hrow with hrow | hrow
      · rw [hrow]
        exact hrenewed
      · exact Int.le_trans hread hrow
  | _ => trivial

-- A sweep that reads the clock by `s.clock` finds the row of a leased delivery fresh.
theorem LeaseInv.not_stale {d : ℕ} {at_ now : Int} (h : LeaseInv s) (hlease : InLease cfg s)
    (hd : s.procs d = .live at_) (hnow : now ≤ s.store.clock) :
    s.store.row.staleRunning cfg now = false := by
  have hrenewed := h.2.2 d
  rw [hd] at hrenewed
  have hin := hlease d at_ hd
  have hle := hrenewed.1
  simp only [Job.staleRunning, Bool.and_eq_false_iff, decide_eq_false_iff_not]
  exact .inr (by omega)

theorem orderly_of_leased (h : LeaseInv s) (hok : Leased cfg s e) (hs : step cfg s e = some s') :
    Orderly cfg s e := by
  obtain ⟨hp, hlease⟩ := hok
  cases e with
  | go d choice =>
      obtain ⟨hdb, herr⟩ := protocol_go hp
      obtain ⟨a, ha, -⟩ := Option.map_eq_some_iff.mp hs
      rintro (hd | hd) <;> rw [hd] at ha <;> cases choice <;>
        simp_all [DeliveryPc.act]
  | reclaim_expired_leases now =>
      simp only [step, Option.ite_none_right_eq_some, Option.some.injEq] at hs
      intro hstale d at_ hd
      rw [h.not_stale hlease hd hs.1] at hstale
      cases hstale
  | on_unsendable loop reason => exact absurd hp id
  | _ => trivial

-- A statement of the run leaves `updated_at` alone or sets it to the clock.
theorem apply_updated_at (store : JobStore) (d : ℕ) (stmt : JobStmt) :
    (store.apply d stmt).row.updated_at = store.row.updated_at ∨
      (store.apply d stmt).row.updated_at = store.clock := by
  cases stmt <;> simp only [JobStore.apply, JobStmt.set]
  case mark_job_dispatched => exact .inr (Job.mark_job_dispatched_updated_at _ _)
  case claim_job =>
    unfold Job.claim_job
    split
    · exact .inr rfl
    · exact .inl rfl
  case heartbeat_job =>
    unfold Job.heartbeat_job
    split
    · exact .inr rfl
    · exact .inl rfl
  case update_job_in_db stats => exact .inr rfl
  case update_job_state_failed reason => exact .inr rfl
  all_goals exact .inl trivial

theorem renewed_go {d : ℕ} {choice : Choice} {a : DeliveryAct} (h : LeaseInv s)
    (hp : Protocol (.go d choice)) (ha : (s.procs d).act s.store.clock choice = some a) :
    Renewed (s.store.apply d a.stmt) d (a.next (a.stmt.reply (some s.store.row))) := by
  obtain ⟨hdb, herr⟩ := protocol_go hp
  cases hpc : s.procs d with
  | idle | ended => cases choice <;> simp [hpc, DeliveryPc.act] at ha
  | claim =>
      cases choice <;> simp only [hpc, DeliveryPc.act, Option.some.injEq,
        reduceCtorEq] at ha <;> subst ha
      case ok =>
        -- the claim that makes the delivery live stamps the row
        cases hu : s.store.row.state.unstarted <;>
          simp [JobStmt.reply, JobStore.apply, JobStmt.set, Job.claim_job, hu, Renewed]
      case db_error message => exact absurd rfl (hdb message)
      case error message => exact absurd rfl (herr message)
  | blocked =>
      cases choice <;> simp only [hpc, DeliveryPc.act, Option.some.injEq,
        reduceCtorEq] at ha <;> subst ha
      case ok => simp [JobStmt.reply, Renewed]
      case db_error message => exact absurd rfl (hdb message)
      case error message => exact absurd rfl (herr message)
  | closing =>
      cases choice <;> simp only [hpc, DeliveryPc.act, Option.some.injEq,
        reduceCtorEq] at ha <;> subst ha <;>
        trivial
  | live at_ =>
      have hrow := (h.1.live hpc).1
      cases choice <;> simp only [hpc, DeliveryPc.act, Option.some.injEq,
        reduceCtorEq] at ha <;> subst ha
      case beat => simp [JobStore.apply, JobStmt.set, Job.heartbeat_job, hrow, Renewed]
      all_goals trivial

theorem leaseInv_initial (h : Initial s) : LeaseInv s :=
  ⟨owned_initial h, trivial, fun d => by rw [h.2.2 d]; trivial⟩

theorem leaseInv_row (h : LeaseInv s) (row : Job)
    (hrow : row.updated_at = s.store.row.updated_at ∨ row.updated_at = s.store.clock)
    (fetched : List TaskId) :
    Pool.Holds (fun _ => True) Renewed { s with store := { s.store with row, fetched } } :=
  h.2.store trivial <| renewed_of_running (Int.le_refl _) <| hrow.imp_right fun hnow =>
    Int.le_of_eq hnow.symm

theorem leaseInv_step (h : LeaseInv s) (hok : Leased cfg s e) (hs : step cfg s e = some s') :
    LeaseInv s' := by
  refine ⟨owned_step h.1 (orderly_of_leased h hok hs) hs, ?_⟩
  cases e with
  | tick now =>
      simp only [step, Option.ite_none_right_eq_some, Option.some.injEq] at hs
      obtain ⟨hle, rfl⟩ := hs
      exact h.2.store trivial (renewed_of_running hle (.inl rfl))
  | deliver d =>
      simp only [step, Option.ite_none_right_eq_some, Option.some.injEq] at hs
      obtain ⟨-, rfl⟩ := hs
      exact Pool.Holds.set h.2 trivial trivial fun _ _ hrenewed => hrenewed
  | go d choice =>
      obtain ⟨a, ha, rfl⟩ := Option.map_eq_some_iff.mp hs
      refine Pool.Holds.set h.2 trivial (renewed_go h hok.1 ha) fun j _ hrenewed => ?_
      have hclock : s.store.clock ≤ (s.store.apply d a.stmt).clock := Int.le_refl _
      have hupdated := (apply_updated_at s.store d a.stmt).imp_right fun hnow =>
        Int.le_of_eq hnow.symm
      exact renewed_of_running hclock hupdated j _ hrenewed
  | mark_job_dispatched =>
      cases hs
      exact leaseInv_row h _ (.inr (Job.mark_job_dispatched_updated_at _ _)) _
  | cancel_unstarted_jobs =>
      cases hs
      refine leaseInv_row h _ ?_ []
      unfold Job.cancel_unstarted_jobs
      split
      · exact .inr rfl
      · exact .inl rfl
  | requeue_failed error_contains =>
      cases hs
      refine leaseInv_row h _ ?_ _
      unfold Job.requeue_failed
      split
      · exact .inr rfl
      · exact .inl rfl
  | reclaim_expired_leases now =>
      simp only [step, Option.ite_none_right_eq_some, Option.some.injEq] at hs
      obtain ⟨hle, rfl⟩ := hs
      refine ⟨trivial, fun d => ?_⟩
      change Renewed _ d (s.procs d)
      cases hd : s.procs d with
      | live at_ =>
          -- the row of a live delivery is running and fresh: the sweep leaves it alone
          have hrenewed := h.2.2 d
          rw [hd] at hrenewed
          have hrow : s.store.row.state ≠ .dispatched := by simp [(h.1.live hd).1]
          simpa [Renewed, JobStore.reclaim, Job.reclaim_eq_self (h.not_stale hok.2 hd hle) hrow]
            using hrenewed
      | _ => trivial
  | fetch loop =>
      cases hs
      refine h.2.store trivial (renewed_of_running ?_ (.inl ?_))
      · split <;> exact Int.le_refl _
      · split <;> rfl
  | on_unsendable loop reason => exact absurd hok.1 id

theorem leaseInv_reach (hr : Reach (step cfg) Initial (Leased cfg) s) : LeaseInv s :=
  hr.invariant (fun _ => leaseInv_initial) fun _ _ _ _ h hok hs => leaseInv_step h hok hs

-- A late `mark_job_dispatched` touches the timestamps of a claimed or finished job only.
theorem mark_keeps_state (hs : step cfg s .mark_job_dispatched = some s')
    (h : s.store.row.state ≠ .pending) : s'.store.row.state = s.store.row.state := by
  cases hs
  simp [JobStore.setRow, h]

theorem job_claim_protocol (cfg : Config) :
    (∀ s n s', Epoch cfg s n s' → n ≤ 1) ∧
    (∀ s e s' d, Protocol e → step cfg s e = some s' → Granted s s' d →
      s.store.row.state = .pending ∨ s.store.row.state = .dispatched) ∧
    (∀ s s', step cfg s .mark_job_dispatched = some s' → s.store.row.state ≠ .pending →
      s'.store.row.state = s.store.row.state) ∧
    (∀ s, Reach (step cfg) Initial (Leased cfg) s →
      ∀ d d' at_ at', s.procs d = .live at_ → s.procs d' = .live at' → d = d') := by
  refine ⟨fun s n s' he => ?_, fun s e s' d hp hs hd => ?_, fun s s' hs h => mark_keeps_state hs h,
    fun s hr d d' at_ at' hd hd' => (leaseInv_reach hr).1.live_unique hd hd'⟩
  · rcases epoch_claims he with rfl | ⟨rfl, -⟩ <;> omega
  · have hu := (granted_cases hp hs hd).2.1
    cases hstate : s.store.row.state <;> simp [hstate, JobState.unstarted] at hu ⊢

-- Two deliveries of one message: the first claims the job, and only the first executes it.
theorem job_claim_protocol_duplicate :
    ∃ s at_, Reach (step Config.defaults) Initial (Leased Config.defaults) s ∧
      s.procs 0 = .live at_ ∧ s.procs 1 = .claim ∧ ∀ d at', s.procs d = .live at' → d = 0 := by
  let row := Job.create_job 0 1 0
  let s₀ : JobSystem := ⟨⟨0, row, none, []⟩, fun _ => .idle⟩
  let s₁ := s₀.set 0 s₀.store .claim
  let s₂ := s₁.set 1 s₁.store .claim
  have hidle : ∀ d at_, s₂.procs d ≠ .live at_ := by
    intro d at_
    simp only [s₂, s₁, s₀, Pool.set, Function.update_apply]
    split
    · simp
    · split <;> simp
  have hr₀ : Reach (step Config.defaults) Initial (Leased Config.defaults) s₀ :=
    .init ⟨rfl, rfl, fun _ => rfl⟩
  have hr₁ : Reach (step Config.defaults) Initial (Leased Config.defaults) s₁ :=
    hr₀.step (e := .deliver 0) ⟨trivial, fun d at_ hd => by cases hd⟩ rfl
  have hr₂ : Reach (step Config.defaults) Initial (Leased Config.defaults) s₂ := by
    refine .step hr₁ (e := .deliver 1) ⟨trivial, fun d at_ hd => ?_⟩ rfl
    simp only [s₁, s₀, Pool.set, Function.update_apply] at hd
    split at hd <;> cases hd
  have hlease : Leased Config.defaults s₂ (.go 0 .ok) :=
    ⟨trivial, fun d at_ hd => absurd hd (hidle d at_)⟩
  have hr₃ := hr₂.step hlease rfl
  refine ⟨_, 0, hr₃, rfl, rfl, fun d at' hd => ?_⟩
  exact (job_claim_protocol Config.defaults).2.2.2 _ hr₃ d 0 at' 0 hd rfl

end Reflowfy.JobSystem
