import Reflowfy.Manager.Effects

namespace Reflowfy.Manager

open Interleaving

variable {cfg : Config} {D : DriverId → Prop}

-- A driver of the kind `D` that has been told that it owns the execution still does, or
-- it was told so longer than a lease ago.
def OwnerOrStale (cfg : Config) (D : DriverId → Prop) (store : Store) : Prop :=
  ∀ driver at_, D driver → store.granted driver = some at_ → ∀ row, store.execution = some row →
    (row.driver_id = some driver ∧ row.driver_heartbeat_at = some at_) ∨
      at_ < store.clock - cfg.DRIVER_LEASE_SECONDS

-- A driver is taken over only once its heartbeat is older than a lease.
theorem stale_of_claimable {row : Execution} {driver driver' : DriverId} {at_ lease now : Int}
    (hclaim : row.claimable driver' lease now = true) (hne : driver ≠ driver')
    (howner : row.driver_id = some driver) (hbeat : row.driver_heartbeat_at = some at_) :
    at_ < now - lease := by
  unfold Execution.claimable at hclaim
  simpa [howner, hbeat, hne] using hclaim

theorem ownerOrStale_initial {s : Manager} (h : Initial s) : OwnerOrStale cfg D s.store := by
  intro driver at_ _ hgranted
  rw [h.granted driver] at hgranted
  cases hgranted

theorem ownerOrStale_tick {store : Store} {now : Int} (h : OwnerOrStale cfg D store)
    (hle : store.clock ≤ now) : OwnerOrStale cfg D { store with clock := now } := by
  intro driver at_ hd hgranted row hrow
  rcases h driver at_ hd hgranted row hrow with howner | hstale
  · exact .inl howner
  · refine .inr ?_
    simp only
    omega

-- The start-up of a manager frees the leases of dispatch loops only.
theorem ownerOrStale_run {stmt : Stmt} {store : Store} (h : OwnerOrStale cfg D store)
    (hhost : ∀ hostname, stmt = .release_drivers_on_host hostname → ∀ driver, D driver →
      driver.role ≠ .loop) :
    OwnerOrStale cfg D (stmt.run cfg store) := by
  intro driver at_ hdriver hgranted row' hrow'
  obtain ⟨row, hrow, rfl⟩ := Stmt.run_execution cfg store stmt hrow'
  cases stmt
  case claim_driver driver' =>
    simp only [Stmt.run, Stmt.grants, Stmt.onExecution, hrow, Option.any_some] at hgranted ⊢
    by_cases hd : driver = driver'
    · subst hd
      cases hclaim : row.claimable driver cfg.DRIVER_LEASE_SECONDS store.clock <;>
        simp only [hclaim, Function.update_self] at hgranted
      · cases hgranted
      · cases hgranted
        exact .inl ⟨rfl, rfl⟩
    · rw [Function.update_of_ne hd] at hgranted
      rcases h driver at_ hdriver hgranted row hrow with ⟨howner, hbeat⟩ | hstale
      · split
        · exact .inr (stale_of_claimable ‹_› hd howner hbeat)
        · exact .inl ⟨howner, hbeat⟩
      · exact .inr hstale
  case heartbeat_driver driver' =>
    simp only [Stmt.run, Stmt.grants, Stmt.onExecution, hrow, Option.any_some] at hgranted ⊢
    by_cases hd : driver = driver'
    · subst hd
      by_cases howner : row.driver_id = some driver
      · simp only [howner, decide_true, if_true, Function.update_self,
          Option.some.injEq] at hgranted ⊢
        subst hgranted
        exact .inl ⟨howner, rfl⟩
      · simp [howner] at hgranted
    · rw [Function.update_of_ne hd] at hgranted
      rcases h driver at_ hdriver hgranted row hrow with ⟨howner, hbeat⟩ | hstale
      · rw [if_neg (by rw [howner]; simpa using hd)]
        exact .inl ⟨howner, hbeat⟩
      · exact .inr hstale
  case release_driver driver' =>
    simp only [Stmt.run, Stmt.grants, Stmt.onExecution] at hgranted ⊢
    by_cases hd : driver = driver'
    · subst hd
      simp at hgranted
    · rw [Function.update_of_ne hd] at hgranted
      rcases h driver at_ hdriver hgranted row hrow with ⟨howner, hbeat⟩ | hstale
      · rw [if_neg (by rw [howner]; simpa using hd)]
        exact .inl ⟨howner, hbeat⟩
      · exact .inr hstale
  case release_drivers_on_host hostname =>
    rcases h driver at_ hdriver hgranted row hrow with ⟨howner, hbeat⟩ | hstale
    · have hnot : row.onHost cfg.host hostname = false := by
        simp [Execution.onHost, howner, hhost hostname rfl driver hdriver]
      simp only [Stmt.onExecution, hnot]
      exact .inl ⟨howner, hbeat⟩
    · exact .inr hstale
  case purge_executions cutoff doomed =>
    rw [Stmt.run_granted cfg store (by simp [Stmt.driver])] at hgranted
    rw [Stmt.run_clock]
    exact h driver at_ hdriver hgranted row hrow
  all_goals exact h driver at_ hdriver hgranted row hrow

end Reflowfy.Manager
