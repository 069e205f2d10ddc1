import Reflowfy.Worker.Consumer

namespace Reflowfy.Consumer

-- An exception, as the handlers of `_process_message` tell them apart. `InvalidPayload` is
-- the module's own.
inductive Exc
  | InvalidPayload
  | CommitFailedError
  | other
  deriving DecidableEq, Repr

-- A message, with what the calls made for it come to: `execute_job`, and each attempt to commit.
structure Message where
  value : Option ByteArray
  execute_job : Except Exc Bool
  commit : ℕ → Option Exc

-- How far `_process_message` has come: the commits attempted, and the exception on its way.
structure Handled where
  commits : ℕ
  raised : Option Exc
  deriving DecidableEq, Repr

def Handled.commit (h : Handled) (m : Message) : Handled := ⟨h.commits + 1, m.commit h.commits⟩

section Process

variable (loads : ByteArray → Loaded)

-- The `try` body after the payload has been decoded.
def run_job (m : Message) (job_payload : List (Key × Value)) : Handled :=
  if supported (job_payload.lookup (.str "schema_version")) then
    match m.execute_job with
    | .ok _ => Handled.commit ⟨0, none⟩ m
    | .error e => ⟨0, some e⟩
  else Handled.commit ⟨0, none⟩ m

-- The `try` body.
def try_message (m : Message) : Handled :=
  match m.value with
  | none => Handled.commit ⟨0, none⟩ m
  | some value =>
      match loads value with
      | .value (.dict job_payload) => run_job m job_payload
      | .other => ⟨0, some .other⟩
      | .value _ | .UnicodeDecodeError | .JSONDecodeError => ⟨0, some .InvalidPayload⟩

-- The `except` clauses.
def except_message (m : Message) (h : Handled) : Handled :=
  match h.raised with
  | none => h
  | some .InvalidPayload => h.commit m
  | some .CommitFailedError | some .other => { h with raised := none }

def handle_message (m : Message) : Handled := except_message m (try_message loads m)

-- What `getmany` comes to; before it the loop looks whether a stop has been requested.
structure Poll where
  stop_requested : Bool
  getmany : Except Exc (List Message)

-- How `_consume_until_stopped` has ended, if it has.
inductive LoopEnd
  | polling
  | stopped
  | poll_error (e : Exc)
  | message_error (e : Exc)
  deriving DecidableEq, Repr

-- The messages of a batch, up to one out of which an exception comes.
def process_batch : List Message → Option Exc
  | [] => none
  | m :: messages => (handle_message loads m).raised <|> process_batch messages

def consume_until_stopped : List Poll → LoopEnd
  | [] => .polling
  | poll :: polls =>
      if poll.stop_requested then .stopped
      else
        match poll.getmany with
        | .error e => .poll_error e
        | .ok messages =>
            match process_batch loads messages with
            | some e => .message_error e
            | none => consume_until_stopped polls

-- The messages that the polls give until a stop is requested or a poll fails.
def polled : List Poll → List Message
  | [] => []
  | poll :: polls =>
      if poll.stop_requested then []
      else
        match poll.getmany with
        | .error _ => []
        | .ok messages => messages ++ polled polls

-- What there is to be done with a message. What cannot be read for another reason than its
-- encoding or its syntax is malformed too.
inductive Kind
  | null
  | malformed
  | unreadable
  | unsupported
  | executed
  | failed (e : Exc)
  deriving DecidableEq, Repr

def kind (m : Message) : Kind :=
  match m.value with
  | none => .null
  | some value =>
      match loads value with
      | .value (.dict job_payload) =>
          if supported (job_payload.lookup (.str "schema_version")) then
            match m.execute_job with
            | .ok _ => .executed
            | .error e => .failed e
          else .unsupported
      | .other => .unreadable
      | .value _ | .UnicodeDecodeError | .JSONDecodeError => .malformed

def Kind.is_failed : Kind → Bool
  | failed _ => true
  | _ => false

-- It is handled without an exception, with one commit at most, and one unless its execution
-- has raised.
structure Settled (m : Message) : Prop where
  returns : (handle_message loads m).raised = none
  once : (handle_message loads m).commits ≤ 1
  commits : (kind loads m).is_failed = false → (handle_message loads m).commits = 1
  keeps : (kind loads m).is_failed = true → (handle_message loads m).commits = 0

-- What is malformed is found out as such, and its commit goes through; `_InvalidPayload` comes
-- out of nothing else.
def Harmless (m : Message) : Prop :=
  match kind loads m with
  | .malformed => m.commit 0 = none
  | .unreadable => False
  | .failed e => e ≠ .InvalidPayload
  | .null | .unsupported | .executed => m.commit 0 ≠ some .InvalidPayload

end Process

variable {loads : ByteArray → Loaded}

section Messages

-- What is done with a message, by its kind.
theorem handle_eq (m : Message) : handle_message loads m =
    match kind loads m with
    | .unreadable => ⟨0, none⟩
    | .malformed | .failed .InvalidPayload => ⟨1, m.commit 0⟩
    | .failed _ => ⟨0, none⟩
    | .null | .unsupported | .executed =>
        if m.commit 0 = some .InvalidPayload then ⟨2, m.commit 1⟩ else ⟨1, none⟩ := by
  -- a first commit that is made in the `try` body
  have hcommit : except_message m (Handled.commit ⟨0, none⟩ m) =
      if m.commit 0 = some .InvalidPayload then ⟨2, m.commit 1⟩ else ⟨1, none⟩ := by
    unfold except_message Handled.commit
    cases m.commit 0 with
    | none => rfl
    | some e => cases e <;> rfl
  unfold handle_message try_message kind
  cases m.value with
  | none => exact hcommit
  | some value =>
      dsimp only
      cases loads value with
      | value job_payload =>
          cases job_payload with
          | dict job_payload =>
              dsimp only [run_job]
              split
              · cases m.execute_job with
                | ok success => exact hcommit
                | error e => cases e <;> rfl
              · exact hcommit
          | _ => rfl
      | _ => rfl

theorem settled_iff (m : Message) : Settled loads m ↔ Harmless loads m := by
  have hiff : Settled loads m ↔ (handle_message loads m).raised = none ∧
      (handle_message loads m).commits = if (kind loads m).is_failed then 0 else 1 := by
    constructor
    · rintro ⟨hreturns, -, hcommits, hkeeps⟩
      refine ⟨hreturns, ?_⟩
      split
      · exact hkeeps ‹_›
      · rename_i hkind
        exact hcommits (Bool.eq_false_iff.mpr hkind)
    · rintro ⟨hreturns, hcommits⟩
      refine ⟨hreturns, ?_, fun hkind => ?_, fun hkind => ?_⟩
      · rw [hcommits]
        split <;> omega
      · rw [hcommits, hkind, if_neg Bool.false_ne_true]
      · rw [hcommits, hkind, if_pos rfl]
  rw [hiff, handle_eq, Harmless]
  cases kind loads m with
  | failed e => cases e <;> simp [Kind.is_failed]
  | malformed => simp [Kind.is_failed]
  | unreadable => simp [Kind.is_failed]
  | _ =>
      dsimp only [Kind.is_failed]
      split <;> simp [*]

-- A batch is gone through if every message in it is settled.
theorem process_batch_none {messages : List Message} (h : ∀ m ∈ messages, Settled loads m) :
    process_batch loads messages = none := by
  induction messages with
  | nil => rfl
  | cons m messages ih =>
      rw [process_batch, (h m List.mem_cons_self).returns, ih fun m hm =>
        h m (List.mem_cons_of_mem _ hm)]
      rfl

theorem consume_ends {polls : List Poll} (h : ∀ m ∈ polled polls, Settled loads m) (e : Exc) :
    consume_until_stopped loads polls ≠ .message_error e := by
  induction polls with
  | nil => exact nofun
  | cons poll polls ih =>
      unfold consume_until_stopped
      unfold polled at h
      split
      · exact nofun
      · rename_i hgoes
        rw [if_neg hgoes] at h
        cases hpoll : poll.getmany with
        | error e => exact nofun
        | ok messages =>
            rw [hpoll] at h
            dsimp only at h ⊢
            rw [process_batch_none fun m hm => h m (List.mem_append_left _ hm)]
            exact ih fun m hm => h m (List.mem_append_right _ hm)

end Messages

-- Every message that the polls give is settled, and none of them ends the loop, if and only if
-- all are harmless.
theorem no_message_stops_iff (loads : ByteArray → Loaded) (polls : List Poll) :
    (∀ m ∈ polled polls, Settled loads m) ∧
    (∀ e, consume_until_stopped loads polls ≠ .message_error e) ↔
      ∀ m ∈ polled polls, Harmless loads m := by
  constructor
  · rintro ⟨hsettled, -⟩ m hm
    exact (settled_iff m).mp (hsettled m hm)
  · intro hharmless
    have hsettled : ∀ m ∈ polled polls, Settled loads m :=
      fun m hm => (settled_iff m).mpr (hharmless m hm)
    exact ⟨hsettled, consume_ends hsettled⟩

-- A message that is no JSON, while the group rebalances.
theorem malformed_stops :
    ¬((∀ m ∈ polled [⟨false, .ok [⟨some ⟨#[]⟩, .ok true, fun _ => some .CommitFailedError⟩]⟩],
      Settled (fun _ => .JSONDecodeError) m) ∧
    ∀ e, consume_until_stopped (fun _ => .JSONDecodeError)
      [⟨false, .ok [⟨some ⟨#[]⟩, .ok true, fun _ => some .CommitFailedError⟩]⟩] ≠
      .message_error e) := by
  rintro ⟨-, hends⟩
  exact hends .CommitFailedError rfl

end Reflowfy.Consumer
