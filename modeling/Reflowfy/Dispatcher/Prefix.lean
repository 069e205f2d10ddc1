import Reflowfy.Dispatcher

namespace Reflowfy.KafkaDispatcher

variable {σ J : Type} {peers : Peers σ J} {job : J} {batch batch' : Batch σ J}

def Event.acknowledges : Event J → Bool
  | send _ .acknowledged => true
  | _ => false

def Event.grants : Event J → Bool
  | acquire_token granted => granted
  | _ => false

-- The answers before a send: no stop, a token, and no stop after the wait for it.
def Cleared (peers : Peers σ J) (world world' : σ) : Prop :=
  ∃ asked waited, peers.stops true world = (false, asked) ∧
    peers.acquire_token asked = (true, waited) ∧
    peers.stops false waited = (false, world')

-- What is answered and told for a job that is handled, from one world to the next, with its part of
-- the log.
inductive Handled (peers : Peers σ J) (job : J) : σ → List (Event J) → σ → Prop
  | sent {world cleared next : σ} {on_sent : J → σ → σ} (hcleared : Cleared peers world cleared)
      (hsend : peers.send_and_wait job cleared = (.acknowledged, next))
        (hsome : peers.on_sent = some on_sent) :
      Handled peers job world [.acquire_token true, .send job .acknowledged, .on_sent job]
        (on_sent job next)
  | acknowledged {world cleared next : σ} (hcleared : Cleared peers world cleared)
      (hsend : peers.send_and_wait job cleared = (.acknowledged, next))
        (hnone : peers.on_sent = none) :
      Handled peers job world [.acquire_token true, .send job .acknowledged] next
  | unsendable {world cleared next : σ} {error : String} {on_unsendable : J → String → σ → σ}
      (hcleared : Cleared peers world cleared)
      (hsend : peers.send_and_wait job cleared = (.MessageSizeTooLargeError error, next))
      (hsome : peers.on_unsendable = some on_unsendable) :
      Handled peers job world
        [.acquire_token true, .send job (.MessageSizeTooLargeError error),
          .on_unsendable job (unsendableReason error)]
        (on_unsendable job (unsendableReason error) next)

inductive HandlesAll (peers : Peers σ J) : List J → σ → List (Event J) → σ → Prop
  | nil (world : σ) : HandlesAll peers [] world [] world
  | cons {job : J} {jobs : List J} {world next last : σ} {events log : List (Event J)}
      (hjob : Handled peers job world events next) (hjobs : HandlesAll peers jobs next log last) :
      HandlesAll peers (job :: jobs) world (events ++ log) last

-- What follows after the last of them, where the batch stops before these jobs.
inductive Stopped (peers : Peers σ J) : List J → σ → List (Event J) → σ → Prop
  | done (world : σ) : Stopped peers [] world [] world
  | should_stop {job : J} {jobs : List J} {world next : σ}
      (hstop : peers.stops true world = (true, next)) :
      Stopped peers (job :: jobs) world [] next
  | no_token {job : J} {jobs : List J} {world asked next : σ}
      (hasked : peers.stops true world = (false, asked))
      (htoken : peers.acquire_token asked = (false, next)) :
      Stopped peers (job :: jobs) world [.acquire_token false] next
  | paused {job : J} {jobs : List J} {world asked waited next : σ}
      (hasked : peers.stops true world = (false, asked))
      (htoken : peers.acquire_token asked = (true, waited))
        (hstop : peers.stops false waited = (true, next)) :
      Stopped peers (job :: jobs) world [.acquire_token true] next
  | unsendable {job : J} {jobs : List J} {world cleared next : σ} {error : String}
      (hcleared : Cleared peers world cleared)
      (hsend : peers.send_and_wait job cleared = (.MessageSizeTooLargeError error, next))
      (hnone : peers.on_unsendable = none) :
      Stopped peers (job :: jobs) world
        [.acquire_token true, .send job (.MessageSizeTooLargeError error)] next
  | transient {job : J} {jobs : List J} {world cleared next : σ} {type_name text : String}
      (hcleared : Cleared peers world cleared)
      (hsend : peers.send_and_wait job cleared = (.KafkaError type_name text, next)) :
      Stopped peers (job :: jobs) world
        [.acquire_token true, .send job (.KafkaError type_name text)] next

-- The step lemma: a round that goes on has handled its job.
theorem one_job_inl (h : one_job peers job batch = .inl batch') :
    ∃ events, Handled peers job batch.world events batch'.world ∧ batch'.log = batch.log ++ events ∧
      batch'.dispatched = batch.dispatched + events.countP Event.acknowledges := by
  unfold one_job at h
  split at h
  · cases h
  · rename_i asked hasked
    split at h
    · cases h
    · rename_i waited htoken
      split at h
      · cases h
      · rename_i cleared hagain
        have hcleared : Cleared peers batch.world cleared := ⟨asked, waited, hasked, htoken, hagain⟩
        split at h
        · rename_i next hsend
          unfold Peers.report_sent at h
          split at h
          · rename_i on_sent hsome
            cases h
            refine ⟨_, .sent hcleared hsend hsome, ?_, rfl⟩
            simp only [List.append_assoc, List.cons_append, List.nil_append]
          · rename_i hnone
            cases h
            refine ⟨_, .acknowledged hcleared hsend hnone, ?_, rfl⟩
            simp only [List.append_assoc, List.cons_append, List.nil_append]
        · rename_i error next hsend
          split at h
          · rename_i on_unsendable hsome
            cases h
            refine ⟨_, .unsendable hcleared hsend hsome, ?_, rfl⟩
            simp only [List.append_assoc, List.cons_append, List.nil_append]
          · cases h
        · cases h

-- A round that breaks has handled nothing.
theorem one_job_inr (h : one_job peers job batch = .inr batch') (jobs : List J) :
    ∃ events, Stopped peers (job :: jobs) batch.world events batch'.world ∧
      batch'.log = batch.log ++ events ∧
      batch'.dispatched = batch.dispatched := by
  unfold one_job at h
  split at h
  · rename_i next hstop
    cases h
    exact ⟨[], .should_stop hstop, (List.append_nil _).symm, rfl⟩
  · rename_i asked hasked
    split at h
    · rename_i next htoken
      cases h
      exact ⟨_, .no_token hasked htoken, rfl, rfl⟩
    · rename_i waited htoken
      split at h
      · rename_i next hstop
        cases h
        exact ⟨_, .paused hasked htoken hstop, rfl, rfl⟩
      · rename_i cleared hagain
        have hcleared : Cleared peers batch.world cleared := ⟨asked, waited, hasked, htoken, hagain⟩
        split at h
        · cases h
        · rename_i error next hsend
          split at h
          · cases h
          · rename_i hnone
            cases h
            refine ⟨_, .unsendable hcleared hsend hnone, ?_, rfl⟩
            simp only [List.append_assoc, List.cons_append, List.nil_append]
        · rename_i type_name text next hsend
          cases h
          refine ⟨_, .transient hcleared hsend, ?_, rfl⟩
          simp only [List.append_assoc, List.cons_append, List.nil_append]

theorem grants_of_handled {world next : σ} {events : List (Event J)}
    (h : Handled peers job world events next) :
    events.countP Event.grants = 1 := by
  cases h with
  | sent => rfl
  | acknowledged => rfl
  | unsendable => rfl

theorem grants_of_stopped {jobs : List J} {world next : σ} {events : List (Event J)}
    (h : Stopped peers jobs world events next) :
    events.countP Event.grants ≤ 1 ∧ events.countP Event.acknowledges = 0 := by
  cases h with
  | done => exact ⟨Nat.zero_le _, rfl⟩
  | should_stop => exact ⟨Nat.zero_le _, rfl⟩
  | no_token => exact ⟨Nat.zero_le _, rfl⟩
  | paused => exact ⟨Nat.le_refl _, rfl⟩
  | unsendable => exact ⟨Nat.le_refl _, rfl⟩
  | transient => exact ⟨Nat.le_refl _, rfl⟩

-- What has become of the jobs between two worlds: those of a prefix were handled, one after
-- the other, and what follows tells how the batch stopped before the rest.
structure HandlesPrefix (peers : Peers σ J) (jobs handled rest : List J) (world : σ)
    (log : List (Event J)) (world' : σ) : Prop where
  split : jobs = handled ++ rest
  parts : ∃ before after reached, HandlesAll peers handled world before reached ∧
    Stopped peers rest reached after world' ∧ log = before ++ after

theorem all_jobs_prefix (peers : Peers σ J) (jobs : List J) (batch : Batch σ J) :
    ∃ handled rest log, HandlesPrefix peers jobs handled rest batch.world log
      (all_jobs peers jobs batch).world ∧
      (all_jobs peers jobs batch).log = batch.log ++ log ∧
      (all_jobs peers jobs batch).dispatched = batch.dispatched + log.countP Event.acknowledges ∧
      log.countP Event.grants ≤ handled.length + 1 := by
  induction jobs generalizing batch with
  | nil =>
      exact ⟨[], [], [], ⟨rfl, [], [], _, .nil _, .done _, rfl⟩, (List.append_nil _).symm,
        rfl, Nat.zero_le _⟩
  | cons job jobs ih =>
      cases hround : one_job peers job batch with
      | inl batch' =>
          obtain ⟨events, hhandled, hlog, hdispatched⟩ := one_job_inl hround
          obtain ⟨handled, rest, log, ⟨hsplit, before, after, reached, hbefore, hafter, hflat⟩,
            hlog', hdispatched',
            hgrants⟩ := ih batch'
          have hall : all_jobs peers (job :: jobs) batch = all_jobs peers jobs batch' := by
            simp only [all_jobs, hround]
          rw [hall]
          refine ⟨job :: handled, rest, events ++ log,
            ⟨?_, events ++ before, after, reached, .cons hhandled hbefore, hafter, ?_⟩, ?_, ?_, ?_⟩
          · rw [hsplit, List.cons_append]
          · rw [hflat, List.append_assoc]
          · rw [hlog', hlog, List.append_assoc]
          · rw [hdispatched', hdispatched, List.countP_append, Nat.add_assoc]
          · rw [List.countP_append, grants_of_handled hhandled, List.length_cons]
            omega
      | inr batch' =>
          obtain ⟨events, hstopped, hlog, hdispatched⟩ := one_job_inr hround jobs
          obtain ⟨hgrants, hacknowledges⟩ := grants_of_stopped hstopped
          have hall : all_jobs peers (job :: jobs) batch = batch' := by
            simp only [all_jobs, hround]
          rw [hall]
          refine ⟨[], job :: jobs, events, ⟨rfl, [], events, _, .nil _, hstopped, rfl⟩,
            hlog, ?_, hgrants⟩
          rw [hdispatched, hacknowledges]
          rfl

-- The batch from this world on, with the count that is returned and the tokens that were
-- taken for it.
def HandlesBatch (peers : Peers σ J) (jobs : List J) (world : σ) (out : Batch σ J) : Prop :=
  ∃ handled rest, HandlesPrefix peers jobs handled rest world out.log out.world ∧
    out.dispatched = out.log.countP Event.acknowledges ∧
      out.log.countP Event.grants ≤ handled.length + 1

theorem handlesBatch_all_jobs (peers : Peers σ J) (jobs : List J) (world : σ) :
    HandlesBatch peers jobs world (all_jobs peers jobs { dispatched := 0, world, log := [] }) := by
  obtain ⟨handled, rest, log, hextends, hlog, hdispatched, hgrants⟩ :=
    all_jobs_prefix peers jobs { dispatched := 0, world, log := [] }
  rw [List.nil_append] at hlog
  refine ⟨handled, rest, ?_, ?_, ?_⟩
  · rw [hlog]
    exact hextends
  · rw [hlog, hdispatched, Nat.zero_add]
  · rw [hlog]
    exact hgrants

-- A batch handles a prefix of its jobs, whatever it is answered; so does that of `_send_jobs`,
-- which marks the jobs that were sent and fails those that cannot be.
theorem dispatch_jobs_batch_prefix {ε : Type} :
    (∀ (get_producer : Except ε σ) (peers : Peers σ J) (jobs : List J),
      (∃ e, get_producer = .error e ∧ dispatch_jobs_batch get_producer peers jobs = .error e) ∨
        ∃ world out, get_producer = .ok world ∧
          dispatch_jobs_batch get_producer peers jobs = .ok out ∧
          HandlesBatch peers jobs world out) ∧
    ∀ (get_producer : σ → Except ε σ) acquire_token send_and_wait (runner : Runner σ J)
      (jobs : List J) (world : σ),
      (∃ e, get_producer (runner.time world).2 = .error e ∧
        send_jobs get_producer acquire_token send_and_wait runner jobs world = .error e) ∨
        ∃ world' out, get_producer (runner.time world).2 = .ok world' ∧
          send_jobs get_producer acquire_token send_and_wait runner jobs world = .ok out ∧
          HandlesBatch (runner.peers acquire_token send_and_wait) jobs
            (⟨(runner.time world).1, 0, false⟩, world') out := by
  constructor
  · intro get_producer peers jobs
    cases get_producer with
    | error e => exact .inl ⟨e, rfl, rfl⟩
    | ok world => exact .inr ⟨world, _, rfl, rfl, handlesBatch_all_jobs peers jobs world⟩
  · intro get_producer acquire_token send_and_wait runner jobs world
    cases hproducer : get_producer (runner.time world).2 with
    | error e => exact .inl ⟨e, rfl, by simp only [send_jobs, hproducer]; rfl⟩
    | ok world' =>
        exact .inr ⟨world', _, rfl,
          by simp only [send_jobs, hproducer]; rfl, handlesBatch_all_jobs _ jobs _⟩

section Example

-- A producer that answers by this list, with callbacks that change nothing.
def scripted : Peers (List Sent) ℕ where
  should_stop := none
  acquire_token world := (true, world)
  send_and_wait _ world := (world.headD (.KafkaError "NodeNotReadyError" ""), world.tail)
  on_sent := some fun _ world => world
  on_unsendable := some fun _ _ world => world

def answers : List Sent :=
  [.acknowledged, .MessageSizeTooLargeError "1048589 bytes", .acknowledged,
    .KafkaError "RequestTimedOutError" "",
    .acknowledged]

def answered : Batch (List Sent) ℕ where
  dispatched := 2
  world := [.acknowledged]
  log :=
    [.acquire_token true, .send 0 .acknowledged, .on_sent 0,
      .acquire_token true, .send 1 (.MessageSizeTooLargeError "1048589 bytes"),
      .on_unsendable 1 (unsendableReason "1048589 bytes"),
      .acquire_token true, .send 2 .acknowledged, .on_sent 2,
      .acquire_token true, .send 3 (.KafkaError "RequestTimedOutError" "")]

theorem dispatch_jobs_batch_prefix_five :
    dispatch_jobs_batch (.ok answers : Except String _) scripted [0, 1, 2, 3, 4] = .ok answered ∧
      HandlesBatch scripted [0, 1, 2, 3, 4] answers answered := by
  have hrun : dispatch_jobs_batch (.ok answers : Except String _) scripted [0, 1, 2, 3, 4] =
    .ok answered := rfl
  refine ⟨hrun, ?_⟩
  rcases ( dispatch_jobs_batch_prefix (ε := String)).1 (.ok answers) scripted [0, 1, 2, 3, 4] with
    ⟨e, he, _⟩ | ⟨world, out, hworld, hout, hhandles⟩
  · cases he
  · rw [hrun] at hout
    cases hworld
    cases hout
    exact hhandles

end Example

end Reflowfy.KafkaDispatcher
