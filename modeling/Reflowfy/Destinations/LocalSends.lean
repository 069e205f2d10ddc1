import Reflowfy.LocalRun
import Mathlib.Algebra.BigOperators.Group.List.Basic
import Mathlib.Algebra.Ring.Nat

namespace Reflowfy.LocalRun

variable {ω : Type} {pipeline : Pipeline} {max_records : ℤ}

-- What a job that has been executed hands to its destination.
structure Sent where
  destination : Destination
  records : List Value
  metadata : Params

-- Its send, were it awaited.
def Sent.awaited (sent : Sent) : Except Raised Unit :=
  sent.destination.send_with_retry sent.records sent.metadata

-- The records of these jobs, at the destinations that they are for.
def delivered (jobs : List Sent) : Received :=
  jobs.flatMap fun sent => sent.records.map (sent.destination.name, ·)

def total (jobs : List Sent) : ℕ := (jobs.map fun sent => sent.records.length).sum

-- The send of each of them in turn, up to the first that raises.
def send_all (send : Send ω) : List Sent → ω → Except Raised Unit × ω
  | [], world => (.ok (), world)
  | sent :: jobs, world =>
      match send sent.destination sent.records sent.metadata world with
      | (.error e, world) => (.error e, world)
      | (.ok (), world) => send_all send jobs world

-- The jobs that a run executes: those that it hands to a send that only keeps them.
def record : Send (List Sent) := fun destination records metadata jobs =>
    (.ok (), jobs ++ [⟨destination, records, metadata⟩])

def executed (pipeline : Pipeline) (max_records : ℤ) (resolved : Resolved) : List Sent :=
  (execute record pipeline max_records resolved []).2

-- The run without its sends: whether the plan, or a job's own steps, raise.
def status (pipeline : Pipeline) (max_records : ℤ) (resolved : Resolved) : ExecutionStatus :=
  (execute record pipeline max_records resolved []).1

-- A run that has ended with COMPLETED has delivered what it counts, and one with a failed send
-- has not.
def Faithful (jobs : List Sent) (run : ExecutionStatus × Received) : Prop :=
  (run.1.state = .COMPLETED → ∀ n, ("records_sent", n) ∈ run.1.metadata →
    run.2 = delivered jobs ∧ n = total jobs) ∧
    ((∃ sent ∈ jobs, sent.awaited ≠ .ok ()) → run.1.state = .FAILED)

section Sends

theorem send_all_append (send : Send ω) (jobs others : List Sent) (world : ω) :
    send_all send (jobs ++ others) world =
    match send_all send jobs world with
    | (.error e, world) => (.error e, world)
    | (.ok (), world) => send_all send others world := by
  induction jobs generalizing world with
  | nil => rfl
  | cons sent jobs ih =>
      simp only [List.cons_append, send_all]
      split
      · rfl
      · exact ih _

theorem send_all_record (jobs log : List Sent) :
    send_all record jobs log = (.ok (), log ++ jobs) := by
  induction jobs generalizing log with
  | nil => simp [send_all]
  | cons sent jobs ih => simp [send_all, record, ih]

-- A statement that drops the coroutine leaves nothing behind.
theorem send_all_dropped (jobs : List Sent) (received : Received) :
    send_all send_with_retry jobs received = (.ok (), received) := by
  induction jobs with
  | nil => rfl
  | cons sent jobs ih => exact ih

theorem total_append (jobs others : List Sent) :
    total (jobs ++ others) = total jobs + total others := by
  simp [total]

theorem run_job_records_ne_nil {source : Slice} {params left : Params} {limit : ℤ} {job : JobRun}
    (h : run_job_records pipeline source params limit = (.ok (some job), left)) :
      job.records ≠ [] := by
  have hcaught (e : HookError) (params : Params) : e.caught params ≠ (.ok (some job), left) := by
    cases e <;> simp [HookError.caught]
  unfold run_job_records at h
  split at h
  · exact (hcaught _ _ h).elim
  · split at h
    · simp at h
    · rename_i hne
      split at h
      · exact (hcaught _ _ h).elim
      · split at h
        · exact (hcaught _ _ h).elim
        · split at h
          · exact (hcaught _ _ h).elim
          · simp only [Prod.mk.injEq, Except.ok.injEq, Option.some.injEq] at h
            rw [← h.1]
            simpa using hne

end Sends

section Loops

-- What a loop is, whatever its sends do: the jobs that it executes, and its end if each send
-- succeeds.
theorem run_slices_sends (pipeline : Pipeline) (max_records : ℤ) (shared : Bool)
    (raised : Option Raised) (subs : List Slice) (params : Params) (totals : Totals) : ∃ r jobs,
      (∀ t, r = .ok t → t.sent = totals.sent + total jobs ∧
        totals.fetched + jobs.length ≤ t.fetched) ∧
      ∀ {ω : Type} (send : Send ω) (world : ω),
        run_slices send pipeline max_records shared raised subs params totals world =
          match send_all send jobs world with
          | (.error e, world) => (.error e, world)
          | (.ok (), world) => (r, world) := by
  induction subs generalizing params totals with
  | nil =>
      cases raised with
      | none => exact ⟨.ok totals, [], (fun t h => by cases h; simp [total]), fun _ _ => rfl⟩
      | some e => exact ⟨.error e, [], (fun t h => by cases h), fun _ _ => rfl⟩
  | cons sub subs ih =>
      by_cases hfull : max_records - totals.fetched ≤ 0
      · refine ⟨.ok totals, [], (fun t h => by cases h; simp [total]), fun send world => ?_⟩
        rw [run_slices, if_pos hfull]
        rfl
      · cases hjob : run_job_records pipeline sub (slice_params shared params sub)
            (max_records - totals.fetched) with
        | mk outcome left =>
            cases outcome with
            | error e =>
                refine ⟨.error e, [], (fun t h => by cases h), fun send world => ?_⟩
                rw [run_slices, if_neg hfull, hjob]
                rfl
            | ok job =>
                cases job with
                | none =>
                    obtain ⟨r, jobs, hcount, hsends⟩ := ih (if shared then left else params) totals
                    refine ⟨r, jobs, hcount, fun send world => ?_⟩
                    rw [run_slices, if_neg hfull, hjob]
                    exact hsends send world
                | some job =>
                    obtain ⟨r, jobs, hcount, hsends⟩ :=
                      ih (if shared then left else params) (totals.add job)
                    refine ⟨r, ⟨job.destination, job.transformed_records, left⟩ ::
                      jobs, fun t ht => ?_,
                      fun send world => ?_⟩
                    · obtain ⟨hsent, hfetched⟩ := hcount t ht
                      have hne := List.length_pos_iff.mpr (run_job_records_ne_nil hjob)
                      simp only [Totals.add] at hsent hfetched
                      simp only [total, List.map_cons, List.sum_cons, List.length_cons] at hsent ⊢
                      omega
                    · rw [run_slices, if_neg hfull, hjob]
                      simp only [send_all]
                      cases hsend : send job.destination job.transformed_records left world with
                      | mk out world' =>
                          cases out with
                          | error e => rfl
                          | ok _ => exact hsends send world'

theorem run_ids_sends (pipeline : Pipeline) (max_records : ℤ)
    (resolve : Value → Except Raised (Params × Generated Slice))
    (ids : List Value) (totals : IdTotals) : ∃ r jobs,
      (r.2 = none → r.1.total_records_sent = totals.total_records_sent + total jobs) ∧
      ∀ {ω : Type} (send : Send ω) (world : ω),
        match send_all send jobs world with
        | (.error e, world') => ∃ totals', run_ids send pipeline max_records resolve ids totals
            world = ((totals', some e), world')
        | (.ok (), world') => run_ids send pipeline max_records resolve ids totals
            world = (r, world') := by
  induction ids generalizing totals with
  | nil => exact ⟨(totals, none), [], fun _ => by simp [total], fun _ _ => rfl⟩
  | cons current_id ids ih =>
      cases hresolve : resolve current_id with
      | error e =>
          refine ⟨(totals, some e), [], nofun, fun send world => ?_⟩
          simp only [send_all, run_ids, hresolve]
      | ok resolved =>
          obtain ⟨flat_id_params, subs⟩ := resolved
          obtain ⟨r, jobs, hcount, hsends⟩ :=
            run_slices_sends pipeline max_records true subs.raised subs.items flat_id_params ⟨0, 0⟩
          cases r with
          | error e =>
              refine ⟨(totals, some e), jobs, nofun, fun send world => ?_⟩
              have hrun := hsends send world
              cases hall : send_all send jobs world with
              | mk out world' =>
                  rw [hall] at hrun
                  cases out with
                  | error e => exact ⟨totals, by simp only [run_ids, hresolve, hrun]⟩
                  | ok _ => simp only [run_ids, hresolve, hrun]
          | ok id =>
              obtain ⟨r, others, hrest, hothers⟩ := ih (totals.add id)
              refine ⟨r, jobs ++ others, fun hr => ?_, fun send world => ?_⟩
              · have hsent := (hcount id rfl).1
                have hfetched := (hcount id rfl).2
                rw [hrest hr, total_append]
                unfold IdTotals.add
                split
                · rename_i hzero
                  have hnone : jobs = [] :=
                    List.length_eq_zero_iff.mp (by simp only [hzero] at hfetched; omega)
                  simp [hnone, total]
                · simp only [hsent]
                  omega
              · have hrun := hsends send world
                rw [send_all_append]
                cases hall : send_all send jobs world with
                | mk out world' =>
                    rw [hall] at hrun
                    cases out with
                    | error e => exact ⟨totals, by simp only [run_ids, hresolve, hrun]⟩
                    | ok _ =>
                        have hnext := hothers send world'
                        simp only [run_ids, hresolve, hrun]
                        exact hnext

-- The same of a whole run.
theorem execute_sends (pipeline : Pipeline) (max_records : ℤ) (resolved : Resolved) : ∃ status jobs,
    (status.state = .COMPLETED → (∀ n, ("records_sent", n) ∈ status.metadata → n = total jobs) ∧
      (jobs ≠ [] → ("records_sent", total jobs) ∈ status.metadata)) ∧
    ∀ {ω : Type} (send : Send ω) (world : ω),
      match send_all send jobs world with
      | (.error _, world') => (execute send pipeline max_records resolved world).1.state = .FAILED ∧
          (execute send pipeline max_records resolved world).2 = world'
      | (.ok (), world') => execute send pipeline max_records resolved world =
          (status, world') := by
  cases resolved with
  | plan flat_runtime_params slices =>
      obtain ⟨r, jobs, hcount, hsends⟩ :=
        run_slices_sends pipeline max_records false slices.raised slices.items
          flat_runtime_params ⟨0, 0⟩
      refine ⟨status_of r, jobs, fun hstate => ?_, fun send world => ?_⟩
      · cases r with
        | error e => cases hstate
        | ok t =>
            obtain ⟨hsent, hfetched⟩ := hcount t rfl
            simp only [Nat.zero_add] at hsent hfetched
            unfold status_of
            by_cases hzero : t.fetched = 0
            · have hnone : jobs = [] := List.length_eq_zero_iff.mp (by omega)
              simp [hzero, hnone]
            · simp [hzero, hsent]
      · have hrun := hsends send world
        simp only [execute]
        split <;> rename_i hall <;> rw [hall] at hrun
        · rw [hrun]
          exact ⟨rfl, rfl⟩
        · rw [hrun]
  | id_based ids resolve =>
      obtain ⟨r, jobs, hcount, hsends⟩ := run_ids_sends pipeline max_records resolve ids ⟨0, 0, 0⟩
      refine ⟨id_status_of ids r, jobs, fun hstate => ?_, fun send world => ?_⟩
      · obtain ⟨totals, raised⟩ := r
        cases raised with
        | some e => cases hstate
        | none =>
            have hsent := hcount rfl
            simp only [Nat.zero_add] at hsent
            simp [id_status_of, hsent]
      · have hrun := hsends send world
        simp only [execute]
        split <;> rename_i hall <;> rw [hall] at hrun
        · obtain ⟨totals', hrun⟩ := hrun
          rw [hrun]
          exact ⟨rfl, rfl⟩
        · rw [hrun]

end Loops

variable {resolved : Resolved}

theorem executed_spec (pipeline : Pipeline) (max_records : ℤ) (resolved : Resolved) :
    ((status pipeline max_records resolved).state = .COMPLETED →
      (∀ n, ("records_sent", n) ∈ (status pipeline max_records resolved).metadata →
        n = total (executed pipeline max_records resolved)) ∧
      (executed pipeline max_records resolved ≠ [] →
        ("records_sent", total (executed pipeline max_records resolved)) ∈
        (status pipeline max_records resolved).metadata)) ∧
    ∀ {ω : Type} (send : Send ω) (world : ω),
      match send_all send (executed pipeline max_records resolved) world with
      | (.error _, world') => (execute send pipeline max_records resolved world).1.state = .FAILED ∧
          (execute send pipeline max_records resolved world).2 = world'
      | (.ok (), world') => execute send pipeline max_records resolved world =
          (status pipeline max_records resolved, world') := by
  obtain ⟨st, jobs, hcount, hsends⟩ := execute_sends pipeline max_records resolved
  have hrecord := hsends record []
  rw [send_all_record] at hrecord
  have hstatus : status pipeline max_records resolved = st := by rw [status, hrecord]
  have hjobs : executed pipeline max_records resolved = jobs := by
    rw [executed, hrecord, List.nil_append]
  rw [hstatus, hjobs]
  exact ⟨hcount, hsends⟩

theorem execute_dropped (pipeline : Pipeline) (max_records : ℤ) (resolved : Resolved)
    (received : Received) :
    execute send_with_retry pipeline max_records resolved received =
      (status pipeline max_records resolved, received) := by
  have hrun := (executed_spec pipeline max_records resolved).2 send_with_retry received
  rwa [send_all_dropped] at hrun

theorem delivered_eq_nil {jobs : List Sent} : delivered jobs = [] ↔
    ∀ sent ∈ jobs, sent.records = [] := by
  simp [delivered]

-- As the statement is, a run delivers what it says if and only if it fails before, or has
-- nothing to deliver: no job that it executes has records left to send, nor a send that fails.
theorem local_run_faithful_iff (pipeline : Pipeline) (max_records : ℤ) (resolved : Resolved) :
    Faithful (executed pipeline max_records resolved)
      (execute send_with_retry pipeline max_records resolved []) ↔
      (status pipeline max_records resolved).state = .FAILED ∨
        ∀ sent ∈ executed pipeline max_records resolved, sent.records = [] ∧
          sent.awaited = .ok () := by
  obtain ⟨hcount, -⟩ := executed_spec pipeline max_records resolved
  rw [execute_dropped]
  constructor
  · rintro ⟨hdelivered, hfailed⟩
    refine or_iff_not_imp_left.mpr fun hstate sent hmem => ?_
    have hcompleted : (status pipeline max_records resolved).state = .COMPLETED := by
      cases h : (status pipeline max_records resolved).state with
      | COMPLETED => rfl
      | FAILED => exact absurd h hstate
    have hsent := (hcount hcompleted).2 (List.ne_nil_of_mem hmem)
    refine ⟨delivered_eq_nil.mp (hdelivered hcompleted _ hsent).1.symm sent hmem, ?_⟩
    by_contra hraised
    exact hstate (hfailed ⟨sent, hmem, hraised⟩)
  · rintro (hstate | hnone)
    · refine ⟨fun hcompleted => ?_, fun _ => hstate⟩
      rw [hstate] at hcompleted
      cases hcompleted
    · have hempty : ∀ sent ∈ executed pipeline max_records resolved, sent.records = [] :=
        fun sent hmem => (hnone sent hmem).1
      refine ⟨fun hcompleted n hn =>
        ⟨(delivered_eq_nil.mpr hempty).symm, (hcount hcompleted).1 n hn⟩, ?_⟩
      rintro ⟨sent, hmem, hraised⟩
      exact absurd (hnone sent hmem).2 hraised

-- A plan of one record, and a destination with this end of its sends.
def to_destination (sends : Except Raised Unit) : Pipeline where
  check_record_type := none
  apply_transformations records params := (.ok records, params)
  define_destination _ params := (.ok ⟨0, fun _ _ => sends⟩, params)

def one_record : Resolved := .plan .empty ⟨[⟨none, fun params => (.ok [.int 1], params)⟩], none⟩

-- The run says that it has sent the record, to a destination that takes it and to one that does
-- not, and neither has received it.
theorem completed_without_delivery (sends : Except Raised Unit) :
    execute send_with_retry (to_destination sends) 100 one_record [] =
      (⟨.COMPLETED, 1, 1, 0, none, [("records_fetched", 1), ("records_sent", 1)]⟩, []) := rfl

theorem completed_not_faithful :
    ¬Faithful (executed (to_destination (.ok ())) 100 one_record)
      (execute send_with_retry (to_destination (.ok ())) 100 one_record []) ∧
      ¬Faithful (executed (to_destination (.error (.other "down"))) 100 one_record)
        (execute send_with_retry (to_destination (.error (.other "down"))) 100 one_record []) := by
  constructor
  · rintro ⟨hdelivered, -⟩
    rw [completed_without_delivery] at hdelivered
    have hempty := delivered_eq_nil.mp (hdelivered rfl 1 (by simp)).1.symm
    have hrecord := hempty ⟨⟨0, fun _ _ => .ok ()⟩, [.int 1], .empty⟩ List.mem_cons_self
    cases hrecord
  · rintro ⟨-, hfailed⟩
    rw [completed_without_delivery] at hfailed
    have hstate := hfailed ⟨⟨⟨0, fun _ _ => .error (.other "down")⟩, [.int 1], .empty⟩,
        List.mem_cons_self, by
      simp [Sent.awaited]⟩
    cases hstate

end Reflowfy.LocalRun
