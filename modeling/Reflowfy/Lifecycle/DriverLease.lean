import Reflowfy.Lifecycle.States
import Reflowfy.Manager.Leases

namespace Reflowfy.Manager

open Interleaving

-- The row names another driver, or none.
def Displaced (store : Store) (driver : DriverId) : Prop :=
  ∀ row, store.execution = some row → row.driver_id ≠ some driver

def claims (i : TaskId) : Proc → Option DriverId
  | .plan _ .lease => some ⟨.plan, i⟩
  | .drive _ .claim => some ⟨.loop, i⟩
  | .resume .recover_claim => some ⟨.recover, i⟩
  | _ => none

def Claims (s : Manager) (driver : DriverId) : Event → Prop
  | .go i _ => claims i (s.procs i) = some driver
  | _ => False

-- When the batch a loop is sending was last checked against the lease.
def interval : Proc → Option Int
  | .drive _ (.producer _ batch) | .drive _ (.should_stop _ batch _)
  | .drive _ (.check_state _ batch _)
  | .drive _ (.acquire_token _ batch) | .drive _ (.send _ batch) | .drive _ (.on_sent _ batch)
  | .drive _ (.on_unsendable _ batch _) | .drive _ (.execute_job _ batch _) => batch.last_check
  | _ => none

-- From the heartbeat that opens a pass of the loop to the write that settles the
-- execution.
def Settling : Proc → Prop
  | .settle (.loop _ _) _ _ _ => True
  | _ => False

-- A loop settles within one lease of the heartbeat that opened the pass, and no manager
-- that shares a host with another one starts up.
def Prompt (cfg : Config) (s : Manager) : Event → Prop
  | .go i _ => s.procs i ≠ .startup .release ∧ (Settling (s.procs i) →
      ∀ at_, s.store.granted ⟨.loop, i⟩ = some at_ → s.store.clock ≤ at_ + cfg.DRIVER_LEASE_SECONDS)
  | _ => True

structure LeaseKept (cfg : Config) (s : Manager) (e : Event) (s' : Manager) : Prop where
  -- at most one driver has been told within the last lease that it owns the execution
  exclusive : ∀ row driver driver' at_ at', s.store.execution = some row →
    s.store.granted driver = some at_ → s.store.granted driver' = some at' →
    s.store.clock < at_ + cfg.DRIVER_LEASE_SECONDS →
      s.store.clock < at' + cfg.DRIVER_LEASE_SECONDS →
    driver = driver'
  refused : ∀ driver, Displaced s.store driver →
    Stmt.reply cfg s.store (.heartbeat_driver driver) = false
  displaced : ∀ driver, Displaced s.store driver → ¬Claims s driver e → Displaced s'.store driver
  release : ∀ driver, Displaced s.store driver →
    (Stmt.run cfg s.store (.release_driver driver)).execution = s.store.execution
  -- a displaced loop begins no new check interval, and sends only inside one
  sends : ∀ i, Displaced s.store ⟨.loop, i⟩ →
    interval (s'.procs i) = none ∨ interval (s'.procs i) = interval (s.procs i)
  paced : ∀ i choice task track batch token, e = .go i choice →
    s.procs i = .drive task (.should_stop track batch token) → ∀ track' batch',
    (s'.procs i = .drive task (.send track' batch') ∨
      s'.procs i = .drive task (.acquire_token track' batch')) →
    ∃ at_, batch.last_check = some at_ ∧ s.store.clock - at_ < second
  settles : ∀ i choice row, e = .go i choice → Settling (s.procs i) → s.store.execution = some row →
    row.driver_id = some ⟨.loop, i⟩

def LeasesKept (cfg : Config) (Ok : Manager → Event → Prop) : Prop :=
  ∀ s e s', Reach (step cfg) Initial Ok s → Ok s e → step cfg s e = some s' → LeaseKept cfg s e s'

variable {cfg : Config} {s s' : Manager} {e : Event}

-- A loop on its way from a heartbeat that succeeded to the settling of the execution.
def Beating : Proc → Prop
  | .drive _ (.state _) | .drive _ (.reclaim _ _) | .drive _ (.counts _)
  | .drive _ (.settle_sync _ _)
  | .settle (.loop _ _) _ _ _ => True
  | _ => False

-- Past `should_stop`, the batch has been checked.
def Timed : Proc → Prop
  | .drive _ (.check_state _ batch _) | .drive _ (.acquire_token _ batch) | .drive _ (.send _ batch)
  | .drive _ (.on_sent _ batch) | .drive _ (.on_unsendable _ batch _)
  | .drive _ (.execute_job _ batch _) | .drive _ (.check_heartbeat _ batch _) =>
      batch.last_check.isSome
  | _ => True

def LoopInv (store : Store) (i : TaskId) (p : Proc) : Prop :=
  (Beating p → (store.granted ⟨.loop, i⟩).isSome) ∧ Timed p

theorem timed_goes {i : TaskId} {store : Store} {p p' : Proc} {choice : Choice} {stmt : Stmt}
    (h : Goes cfg i store p choice stmt p') (hp : Timed p) : Timed p' := by
  cases h
  case should_stop_check => exact rfl
  case should_stop_token hcheck _ | should_stop_send hcheck _ => simp [Timed, hcheck]
  case check_heartbeat | check_state_token | check_state_send | acquire_local | send | too_large |
      execute_job | executed => exact hp
  all_goals trivial

theorem beating_goes {i : TaskId} {store : Store} {p p' : Proc} {choice : Choice} {stmt : Stmt}
    (h : Goes cfg i store p choice stmt p')
    (hp : Beating p → (store.granted ⟨.loop, i⟩).isSome) (hp' : Beating p') :
    ((stmt.run cfg store).granted ⟨.loop, i⟩).isSome := by
  cases h
  case heartbeat hown => simp [Stmt.run, Stmt.grants, hown]
  case state_reclaim | state_counts | reclaim | counts_settle | settle_sync => exact hp trivial
  case settle_failed settler _ _ | settle_counts settler _ _ _ | settle_load settler _ _ _ _ _ |
      settle_fallback settler _ _ _ _ _ _ =>
    cases settler with
    | loop task track => exact hp trivial
    | resume => cases hp'
  all_goals cases hp'

theorem startup_of_release {i : TaskId} {store : Store} {p p' : Proc}
    {choice : Choice} {hostname : ℕ}
    (h : Goes cfg i store p choice (.release_drivers_on_host hostname) p') :
      p = .startup .release := by
  cases h
  rfl

theorem lease_preserved :
    Preserved cfg Initial (Prompt cfg) (OwnerOrStale cfg fun _ => True) LoopInv where
  init s hs := by
    refine ⟨ownerOrStale_initial hs, fun i => ?_⟩
    · rcases hs.proc i with hp | ⟨-, hp⟩ <;> rw [hp] <;> exact ⟨False.elim, trivial⟩
  tick s now hs _ hle := ⟨ownerOrStale_tick hs.1 hle, fun _ hj => hj⟩
  start _ _ _ _ _ _ hp := by
    rcases Entry.cases hp with ⟨r, rfl⟩ | ⟨_, rfl⟩ | rfl | ⟨_, -, rfl⟩ | ⟨_, rfl⟩ <;>
      exact ⟨False.elim, trivial⟩
  crash _ _ := ⟨False.elim, trivial⟩
  go s i choice stmt p _ hs hok hgoes := by
    have hhost : ∀ hostname, stmt = .release_drivers_on_host hostname →
        ∀ driver : DriverId, True → driver.role ≠ .loop := by
      rintro hostname rfl
      exact absurd (startup_of_release hgoes) hok.1
    refine ⟨ownerOrStale_run hs.1 hhost,
      ⟨beating_goes hgoes (hs.2 i).1, timed_goes hgoes (hs.2 i).2⟩,
      fun j hj hother => ⟨fun hb => ?_, hother.2⟩⟩
    rw [Stmt.run_granted cfg s.store fun hd => hj (hgoes.driver_task hd)]
    exact hother.1 hb

theorem claims_of_goes {i : TaskId} {store : Store} {p p' : Proc} {choice : Choice}
    {driver : DriverId}
    (h : Goes cfg i store p choice (.claim_driver driver) p') : claims i p = some driver := by
  cases h <;> rfl

theorem displaced_run {stmt : Stmt} {store : Store} {driver : DriverId} (h : Displaced store driver)
    (hclaim : stmt ≠ .claim_driver driver) : Displaced (stmt.run cfg store) driver := by
  intro row' hrow'
  obtain ⟨row, hrow, rfl⟩ := Stmt.run_execution cfg store stmt hrow'
  have hrow := h row hrow
  cases stmt <;> simp only [Stmt.onExecution]
  case claim_driver driver' =>
    split
    · exact fun heq => hclaim (by rw [Option.some.inj heq])
    · exact hrow
  case heartbeat_driver | release_driver | release_drivers_on_host =>
    split
    · first | exact hrow | exact fun heq => by cases heq
    · exact hrow
  all_goals exact hrow

theorem displaced_step {driver : DriverId} (h : Displaced s.store driver)
    (hclaims : ¬Claims s driver e) (hs : step cfg s e = some s') : Displaced s'.store driver := by
  cases e with
  | tick now =>
      obtain ⟨-, rfl⟩ := step_tick hs
      exact h
  | start i entry =>
      obtain ⟨-, p, -, rfl⟩ := step_start hs
      exact h
  | go i choice =>
      obtain ⟨stmt, p, hgoes, rfl⟩ := step_goes hs
      refine displaced_run h ?_
      rintro rfl
      exact hclaims (claims_of_goes hgoes)
  | crash i =>
      cases hs
      exact h

theorem owned_any {store : Store} {driver : DriverId} (h : Displaced store driver) :
    store.execution.any (·.driver_id = some driver) = false := by
  cases hrow : store.execution with
  | none => rfl
  | some row => simpa using h row hrow

-- Without the lease, no heartbeat of the loop opens a new check interval.
theorem interval_goes {i : TaskId} {store : Store} {p p' : Proc} {choice : Choice} {stmt : Stmt}
    (h : Goes cfg i store p choice stmt p') (hd : Displaced store ⟨.loop, i⟩) :
    interval p' = none ∨ interval p' = interval p := by
  cases h
  case check_heartbeat hown =>
    rw [owned_any hd] at hown
    cases hown
  case producer | should_stop_token | should_stop_send | check_state_token | check_state_send |
      acquire_local | acquire_token | send | too_large | on_sent | on_unsendable | execute_job |
      executed => exact .inr rfl
  all_goals exact .inl rfl

theorem interval_step {i : TaskId} (hd : Displaced s.store ⟨.loop, i⟩)
    (hs : step cfg s e = some s') :
    interval (s'.procs i) = none ∨ interval (s'.procs i) = interval (s.procs i) := by
  have hset : ∀ j store p, (j = i → interval p = none ∨ interval p = interval (s.procs i)) →
      interval ((s.set j store p).procs i) = none ∨
        interval ((s.set j store p).procs i) = interval (s.procs i) := by
    intro j store p hp
    by_cases hj : j = i
    · subst hj
      simpa using hp rfl
    · rw [Pool.set_procs_of_ne s store p (Ne.symm hj)]
      exact .inr rfl
  cases e with
  | tick now =>
      obtain ⟨-, rfl⟩ := step_tick hs
      exact .inr rfl
  | start j entry =>
      obtain ⟨-, p, hp, rfl⟩ := step_start hs
      refine hset j _ p fun _ => .inl ?_
      rcases Entry.cases hp with ⟨r, rfl⟩ | ⟨_, rfl⟩ | rfl | ⟨_, -, rfl⟩ | ⟨_, rfl⟩ <;> rfl
  | go j choice =>
      obtain ⟨stmt, p, hgoes, rfl⟩ := step_goes hs
      refine hset j _ p fun hj => ?_
      subst hj
      exact interval_goes hgoes hd
  | crash j =>
      cases hs
      exact hset j _ _ fun _ => .inl rfl

theorem paced_goes {i : TaskId} {store : Store} {p p' : Proc} {choice : Choice} {stmt : Stmt}
    {task : Task} {track : Track} {batch : Batch} {token : Bool}
    (h : Goes cfg i store p choice stmt p') (hp : p = .drive task (.should_stop track batch token))
    (hp' : (∃ track batch, p' = .drive task (.send track batch)) ∨
      ∃ track batch, p' = .drive task (.acquire_token track batch)) :
    ∃ at_, batch.last_check = some at_ ∧ store.clock - at_ < second := by
  cases h <;> cases hp
  case should_stop_token hrecent _ hcheck | should_stop_send hrecent _ hcheck =>
    exact ⟨_, hcheck, hrecent⟩
  all_goals
    rcases hp' with ⟨_, _, hp'⟩ | ⟨_, _, hp'⟩ <;> cases hp'

theorem leaseKept_step (hr : Reach (step cfg) Initial (Prompt cfg) s) (hok : Prompt cfg s e)
    (hs : step cfg s e = some s') : LeaseKept cfg s e s' where
  exclusive row driver driver' at_ at' hrow hgranted hgranted' hrecent hrecent' := by
    have hinv := (lease_preserved.reach hr).1
    rcases hinv driver at_ trivial hgranted row hrow with ⟨howner, -⟩ | hstale
    · rcases hinv driver' at' trivial hgranted' row hrow with ⟨howner', -⟩ | hstale'
      · rw [howner] at howner'
        exact Option.some.inj howner'
      · omega
    · omega
  refused driver hd := owned_any hd
  displaced driver hd hclaims := displaced_step hd hclaims hs
  release driver hd := by
    cases hrow : s.store.execution with
    | none => simp [Stmt.run, hrow]
    | some row => simp [Stmt.run, Stmt.onExecution, hrow, hd row hrow]
  sends i hd := interval_step hd hs
  paced i choice task track batch token he hp track' batch' hp' := by
    subst he
    obtain ⟨stmt, p, hgoes, rfl⟩ := step_goes hs
    rw [Pool.set_procs_self] at hp'
    exact paced_goes hgoes hp (hp'.imp (fun h => ⟨_, _, h⟩) fun h => ⟨_, _, h⟩)
  settles i choice row he hsettling hrow := by
    subst he
    have hinv := lease_preserved.reach hr
    have hbeating : Beating (s.procs i) := by
      unfold Settling at hsettling
      split at hsettling
      · rename_i hp
        rw [hp]
        trivial
      · cases hsettling
    obtain ⟨at_, hgranted⟩ := Option.isSome_iff_exists.mp ((hinv.2 i).1 hbeating)
    have hclock := hok.2 hsettling at_ hgranted
    rcases hinv.1 _ at_ trivial hgranted row hrow with ⟨howner, -⟩ | hstale
    · exact howner
    · omega

-- What a displaced loop still sends belongs to the check interval it was displaced in.
theorem send_interval {i : TaskId} {task : Task} {track : Track} {batch : Batch}
    (hr : Reach (step cfg) Initial (Prompt cfg) s) (hd : Displaced s.store ⟨.loop, i⟩)
    (hp : Path (step cfg) (fun s e => Prompt cfg s e ∧ ¬Claims s ⟨.loop, i⟩ e) s s')
    (hsend : s'.procs i = .drive task (.send track batch)) :
    ∃ at_, batch.last_check = some at_ ∧ interval (s.procs i) = some at_ := by
  have hkept := hp.invariant (I := fun m => Reach (step cfg) Initial (Prompt cfg) m ∧
    Displaced m.store ⟨.loop, i⟩ ∧
    (interval (m.procs i) = none ∨ interval (m.procs i) = interval (s.procs i))) ?_
      ⟨hr, hd, .inr rfl⟩
  · obtain ⟨hr', -, hinterval⟩ := hkept
    have htimed := ((lease_preserved.reach hr').2 i).2
    rw [hsend] at htimed hinterval
    obtain ⟨at_, hcheck⟩ := Option.isSome_iff_exists.mp htimed
    rcases hinterval with h | h
    · rw [interval, hcheck] at h
      cases h
    · exact ⟨at_, hcheck, by rw [← h, interval, hcheck]⟩
  · rintro m e m' ⟨hm, hdm, hinterval⟩ ⟨hok, hclaims⟩ hs
    refine ⟨hm.step hok hs, displaced_step hdm hclaims hs, ?_⟩
    rcases interval_step hdm hs with h | h
    · exact .inl h
    · rw [h]
      exact hinterval

theorem dispatch_loops_excluded (cfg : Config) :
    LeasesKept cfg (Prompt cfg) ∧
    ∀ s s' i task track batch, Reach (step cfg) Initial (Prompt cfg) s →
      Displaced s.store ⟨.loop, i⟩ →
      Path (step cfg) (fun s e => Prompt cfg s e ∧ ¬Claims s ⟨.loop, i⟩ e) s s' →
      s'.procs i = .drive task (.send track batch) →
      ∃ at_, batch.last_check = some at_ ∧ interval (s.procs i) = some at_ :=
  ⟨fun _ _ _ hr hok hs => leaseKept_step hr hok hs,
    fun _ _ _ _ _ _ hr hd hp hsend => send_interval hr hd hp hsend⟩

-- A paused execution whose last job was lost by its worker, for good.
def lostJob : Manager where
  store :=
    { clock := 400 * second
      execution := some { Execution.create_execution 0 with
        state := .paused, plan_complete := none }
      jobs := [{ Job.create_job 0 1 0 with state := .running, attempts := 3 }]
      sent := [0]
      granted := fun _ => none }
  procs _ := .idle

instance : DecidablePred Settling
  | .settle (.loop _ _) _ _ _ => inferInstanceAs (Decidable True)
  | .settle .resume _ _ _ | .idle | .plan _ _ | .failed _ | .drive _ _ | .resume _ | .request _ _
  | .retry _ | .startup _ | .deliver _ _ | .sweep _ | .ended => inferInstanceAs (Decidable False)

def noStartup : Event → Bool
  | .start _ .startup => false
  | _ => true

def prompt (cfg : Config) (s : Manager) : Event → Bool
  | .go i _ => s.procs i != .startup .release && (!decide (Settling (s.procs i)) ||
      (s.store.granted ⟨.loop, i⟩).all (s.store.clock ≤ · + cfg.DRIVER_LEASE_SECONDS))
  | _ => true

theorem of_prompt (h : prompt cfg s e = true) : Prompt cfg s e := by
  cases e with
  | go i choice =>
      simp only [prompt, Bool.and_eq_true, bne_iff_ne, Bool.or_eq_true, Bool.not_eq_true',
        decide_eq_false_iff_not,
        Option.all_eq_true, decide_eq_true_eq] at h
      exact ⟨h.1, fun hsettling => h.2.resolve_left (absurd hsettling)⟩
  | tick | start | crash => trivial

def unclaimed (driver : DriverId) (s : Manager) : Event → Bool
  | .go i _ => claims i (s.procs i) != some driver
  | _ => true

theorem not_claims {driver : DriverId} (h : unclaimed driver s e = true) : ¬Claims s driver e := by
  cases e with
  | go i choice => simpa [unclaimed, Claims] using h
  | tick | start | crash => exact not_false

-- One job is planned and its message on its way when a resume comes, and the loop of the run
-- stalls for more than a lease.
def stalledRun : List Event :=
  List.replicate 4 (.go 0 .ok) ++ [.go 0 .slice, .go 0 .ok, .go 0 .plan_end] ++
    List.replicate 16 (.go 0 .ok) ++
    [.start 1 (.request .pause), .go 1 .ok, .go 1 .ok, .start 2 (.request .resume)] ++
    List.replicate 5 (.go 2 .ok) ++ [.tick (61 * second)] ++ List.replicate 3 (.go 2 .ok)

-- The loop of the resume has taken over. The first one sends its message all the same, and is
-- refused at its next heartbeat.
theorem dispatch_loops_excluded_stalled : ∃ s s', Reach (step Config.defaults) Initial
    (Prompt Config.defaults) s ∧
    Displaced s.store ⟨.loop, 0⟩ ∧ s.procs 0 = .drive .run (.send ⟨some 0⟩ ⟨[0], 0, some 0⟩) ∧
    Path (step Config.defaults) (fun s e => Prompt Config.defaults s e ∧
      ¬Claims s ⟨.loop, 0⟩ e) s s' ∧
    s'.procs 0 = .drive .run (.stopping ⟨some 0⟩) := by
  let es : List Event := List.replicate 5 (.go 0 .ok)
  let ok (s : Manager) (e : Event) : Bool := prompt Config.defaults s e && unclaimed ⟨.loop, 0⟩ s e
  let ended (s' : Manager) : Bool := decide (s'.procs 0 = .drive .run (.stopping ⟨some 0⟩))
  obtain ⟨s, hr, -, htest⟩ := Reach.replay (step Config.defaults) Initial (Prompt Config.defaults)
    (prompt Config.defaults) (fun _ _ => of_prompt) (.inl (fresh_created 0)) stalledRun
    (fun s => decide (s.store.execution.map (·.driver_id) = some (some ⟨.loop, 2⟩) ∧
      s.procs 0 = .drive .run (.send ⟨some 0⟩ ⟨[0], 0, some 0⟩)) &&
        (replay (step Config.defaults) ok s es).any ended)
    (by decide)
  simp only [Bool.and_eq_true, decide_eq_true_eq] at htest
  obtain ⟨⟨howner, hsend⟩, hafter⟩ := htest
  obtain ⟨s', hpath, -, hstopping⟩ := Path.replay (step Config.defaults)
    (fun s e => Prompt Config.defaults s e ∧ ¬Claims s ⟨.loop, 0⟩ e) ok
    (fun _ _ h => ⟨of_prompt (Bool.and_eq_true_iff.mp h).1,
      not_claims (Bool.and_eq_true_iff.mp h).2⟩) es _ hafter
  refine ⟨s, s', hr, fun row hrow => ?_, hsend, hpath, of_decide_eq_true hstopping⟩
  simp only [hrow, Option.map_some, Option.some.injEq] at howner
  rw [howner]
  decide

-- The loop of task 1 stalls between its last counts and its write for more than a
-- lease; the loop of task 3 takes over, and task 1 settles the execution all the same.
theorem displaced_loop_settles :
    ¬LeasesKept Config.defaults fun _ e => ∀ i, e ≠ .start i .startup := by
  intro hkept
  have hinit : Initial lostJob :=
    .inr ⟨⟨_, rfl, rfl, by decide⟩, by decide, fun _ => rfl, fun _ => rfl⟩
  obtain ⟨s, hr, -, htest⟩ := Reach.replay (step Config.defaults) Initial
    (fun _ e => ∀ i, e ≠ .start i .startup)
    (fun _ e => noStartup e) (fun _ e he i hi => by rw [hi] at he; cases he) hinit
    [.start 1 (.request .resume), .go 1 .ok, .go 1 .ok, .start 2 (.request .pause),
      .go 2 .ok, .go 2 .ok,
      .start 3 (.request .resume), .go 3 .ok, .go 3 .ok, .go 1 .ok, .go 1 .ok, .go 3 .ok, .go 3 .ok,
      .go 1 .ok, .go 1 .ok, .go 1 .ok, .go 1 .ok, .go 1 .ok, .go 1 .ok, .go 1 .ok,
        .go 1 .ok, .go 1 .ok,
      .tick (461 * second), .go 3 .ok]
    (fun s => decide (Settling (s.procs 1)) && s.store.execution.any
      (·.driver_id == some ⟨.loop, 3⟩) &&
      (step Config.defaults s (.go 1 .ok)).isSome) (by decide)
  simp only [Bool.and_eq_true, decide_eq_true_eq, Option.any_eq_true, beq_iff_eq,
    Option.isSome_iff_exists] at htest
  obtain ⟨⟨hsettling, row, hrow, howner⟩, s', hs⟩ := htest
  have howner' := (hkept s _ s' hr (by simp) hs).settles 1 .ok row rfl hsettling hrow
  rw [howner] at howner'
  cases howner'

end Reflowfy.Manager
