import Reflowfy.Worker.Consumer
import Mathlib.Data.List.TakeWhile

namespace Reflowfy.Consumer

variable {loads : ByteArray → Loaded}

-- What a message comes to, up to its commit.
inductive Fate
  | settled
  -- it carries no job, and no commit is tried
  | skipped
  -- a commit is tried although no outcome is recorded
  | lost
  | raised
  | shutdown
  deriving DecidableEq, Repr

def fate (loads : ByteArray → Loaded) (message : Option ByteArray × JobCall) : Fate :=
  match decode loads message.1 with
  | .empty | .invalid | .bad_schema => .settled
  | .unreadable => .skipped
  | .job _ =>
      match WorkerExecutor.execute_job message.2 with
      | .blocked => .settled
      | .returned _ recorded => if recorded then .settled else .lost
      | .raised => .raised
      | .shutdown => .shutdown

def Fate.is_settled : Fate → Bool
  | settled | skipped => true
  | _ => false

-- Its processing comes to a commit.
def Fate.returns : Fate → Bool
  | settled | lost => true
  | _ => false

def Fate.goes_on : Fate → Bool
  | shutdown => false
  | _ => true

-- Every message below the committed offset is settled.
def AllSettled (c : Consumer) : Prop := ∀ i < c.committed, c.settled[i]? = some true

-- The offsets are those of the messages taken.
def Counted (c : Consumer) : Prop := c.settled.length = c.position ∧ c.committed ≤ c.position

-- One message has been taken, and where its commit goes through all before it are committed too.
def next (c : Consumer) (f : Fate) (reply : CommitReply) (running : Bool) : Consumer where
  position := c.position + 1
  committed := if f.returns ∧ reply = .ok then c.position + 1 else c.committed
  running := running
  settled := c.settled ++ [f.is_settled]

theorem process_message_eq (loads : ByteArray → Loaded) (c : Consumer)
    (message : Option ByteArray × JobCall) (reply : CommitReply) :
    ∃ running, process_message loads c message.1 message.2 reply = c.next
      (fate loads message) reply running ∧
      (reply = .ok → fate loads message ≠ .shutdown → running = c.running) ∧
      (fate loads message = .shutdown → running = false) := by
  unfold process_message fate
  cases decode loads message.1 with
  | empty => cases reply <;> exact ⟨c.running, rfl, fun _ _ => rfl, nofun⟩
  | bad_schema => cases reply <;> exact ⟨c.running, rfl, fun _ _ => rfl, nofun⟩
  | unreadable => cases reply <;> exact ⟨c.running, rfl, fun _ _ => rfl, nofun⟩
  | invalid =>
      cases reply
      case ok => exact ⟨c.running, rfl, fun _ _ => rfl, nofun⟩
      all_goals exact ⟨false, rfl, nofun, nofun⟩
  | job job_payload =>
      cases WorkerExecutor.execute_job message.2 with
      | blocked => cases reply <;> exact ⟨c.running, rfl, fun _ _ => rfl, nofun⟩
      | returned success recorded =>
          cases recorded <;> cases reply <;> exact ⟨c.running, rfl, fun _ _ => rfl, nofun⟩
      | raised => exact ⟨c.running, rfl, fun _ _ => rfl, nofun⟩
      | shutdown => exact ⟨false, rfl, fun _ h => absurd rfl h, fun _ => rfl⟩

section Step

variable {c : Consumer} {f : Fate} {reply : CommitReply} {running : Bool}

theorem Counted.next (h : Counted c) (f : Fate) (reply : CommitReply) (running : Bool) :
    Counted (c.next f reply running) := by
  obtain ⟨hlen, hle⟩ := h
  refine ⟨by simp [Consumer.next, hlen], ?_⟩
  simp only [Consumer.next]
  split
  · exact le_rfl
  · exact hle.trans (Nat.le_succ _)

theorem settled_next_of_lt (h : Counted c) {i : ℕ} (hi : i < c.position) :
    (c.next f reply running).settled[i]? = c.settled[i]? := List.getElem?_append_left (h.1 ▸ hi)

-- A message that is not committed leaves the offset where it is.
theorem AllSettled.next_raised (hc : Counted c) (h : AllSettled c) (hf : f.returns = false) :
    AllSettled (c.next f reply running) := by
  have hsame : (c.next f reply running).committed = c.committed := by simp [Consumer.next, hf]
  intro i hi
  rw [hsame] at hi
  rw [settled_next_of_lt hc (hi.trans_le hc.2)]
  exact h i hi

-- All messages taken so far are settled.
def Clean (c : Consumer) : Prop := ∀ i < c.position, c.settled[i]? = some true

theorem Clean.all (hc : Counted c) (h : Clean c) : AllSettled c :=
  fun i hi => h i (hi.trans_le hc.2)

theorem Clean.next_settled (hc : Counted c) (h : Clean c) (hf : f.is_settled = true)
    (reply : CommitReply) (running : Bool) : Clean (c.next f reply running) := by
  intro i hi
  rcases Nat.lt_succ_iff_lt_or_eq.mp hi with hlt | rfl
  · rw [settled_next_of_lt hc hlt]
    exact h i hlt
  · simp [Consumer.next, ← hc.1, hf]

end Step

-- Up to where the worker is shut down, there are first only messages that are settled, and
-- then only messages that come to no commit.
def Recorded (fates : List Fate) : Prop :=
  ∃ settled silent, fates.takeWhile Fate.goes_on = settled ++ silent ∧
    (∀ f ∈ settled, f.is_settled = true) ∧ ∀ f ∈ silent, f.returns = false

section Runs

theorem consume_stopped {c : Consumer} (h : c.running = false)
    (messages : List ((Option ByteArray × JobCall) × CommitReply)) :
      consume loads c messages = c := by
  cases messages with
  | nil => rfl
  | cons message messages => simp [consume, h]

-- Where no message comes to a commit, nothing more is committed.
theorem consume_silent {messages : List (Option ByteArray × JobCall)}
    (hfates : ∀ f ∈ (messages.map (fate loads)).takeWhile Fate.goes_on,
      f.returns = false) {c : Consumer}
    (hc : Counted c) (h : AllSettled c) (replies : List CommitReply) :
    AllSettled (consume loads c (messages.zip replies)) := by
  induction messages generalizing c replies with
  | nil => exact h
  | cons message messages ih =>
      cases replies with
      | nil => exact h
      | cons reply replies =>
          simp only [List.zip_cons_cons, consume]
          split
          · obtain ⟨running, hnext, -, hstop⟩ := process_message_eq loads c message reply
            rw [hnext]
            rw [List.map_cons, List.takeWhile_cons] at hfates
            by_cases hdown : fate loads message = .shutdown
            · rw [consume_stopped (hstop hdown), hdown]
              exact h.next_raised hc rfl
            · have hgoes : (fate loads message).goes_on = true := by
                cases hf : fate loads message <;> first | rfl | exact absurd hf hdown
              rw [if_pos hgoes, List.forall_mem_cons] at hfates
              exact ih hfates.2 (hc.next _ _ _) (h.next_raised hc hfates.1) replies
          · exact h

theorem consume_recorded {messages : List (Option ByteArray × JobCall)}
    (hfates : Recorded (messages.map (fate loads))) {c : Consumer} (hc : Counted c) (h : Clean c)
    (replies : List CommitReply) : AllSettled (consume loads c (messages.zip replies)) := by
  induction messages generalizing c replies with
  | nil => exact h.all hc
  | cons message messages ih =>
      obtain ⟨settled, silent, hfates, hsettled, hsilent⟩ := hfates
      cases settled with
      | nil => exact consume_silent (hfates ▸ hsilent) hc (h.all hc) replies
      | cons f settled =>
          rw [List.map_cons, List.takeWhile_cons] at hfates
          split at hfates
          · rw [List.cons_append, List.cons.injEq] at hfates
            rw [List.forall_mem_cons] at hsettled
            cases replies with
            | nil => exact h.all hc
            | cons reply replies =>
                simp only [List.zip_cons_cons, consume]
                split
                · obtain ⟨running, hnext, -⟩ := process_message_eq loads c message reply
                  rw [hnext, hfates.1]
                  exact ih ⟨settled, silent, hfates.2, hsettled.2, hsilent⟩ (hc.next _ _ _)
                    (h.next_settled hc hsettled.1 reply running) replies
                · exact h.all hc
          · cases hfates

-- A commit reaches past every message taken before it.
theorem consume_commit {c : Consumer} {message : Option ByteArray × JobCall}
    (hrun : c.running = true) (hreturns : (fate loads message).returns) :
      (consume loads c [(message, .ok)]).committed = c.position + 1 ∧
      (consume loads c [(message, .ok)]).settled = c.settled ++
      [(fate loads message).is_settled] := by
  obtain ⟨running, hnext, -⟩ := process_message_eq loads c message .ok
  simp [consume, hrun, hnext, next, hreturns]

theorem silent_of_unsettled {messages : List (Option ByteArray × JobCall)}
    {c : Consumer} (hc : Counted c) (hrun : c.running = true) {i : ℕ} (hi : i < c.position)
    (hunsettled : c.settled[i]? = some false)
    (hall : ∀ replies, AllSettled (consume loads c (messages.zip replies))) :
    ∀ f ∈ (messages.map (fate loads)).takeWhile Fate.goes_on, f.returns = false := by
  induction messages generalizing c with
  | nil => simp
  | cons message messages ih =>
      have hsilent : (fate loads message).returns = false := by
        by_contra hreturns
        rw [Bool.not_eq_false] at hreturns
        obtain ⟨hcommitted, hsettled⟩ := consume_commit hrun hreturns
        have hbad := hall [.ok] i
        rw [List.zip_cons_cons, List.zip_nil_right, hcommitted, hsettled,
          List.getElem?_append_left (hc.1 ▸ hi), hunsettled] at hbad
        cases hbad (hi.trans (Nat.lt_succ_self _))
      rw [List.map_cons, List.takeWhile_cons]
      split
      · rename_i hgoes_on
        obtain ⟨running, hnext, hgoes, -⟩ := process_message_eq loads c message .ok
        have hrunning : running = true := by
          refine (hgoes rfl fun hdown => ?_).trans hrun
          rw [hdown] at hgoes_on
          cases hgoes_on
        rw [List.forall_mem_cons]
        refine ⟨hsilent, ih (hc.next (fate loads message) .ok running) hrunning
          (hi.trans (Nat.lt_succ_self _))
          ((settled_next_of_lt hc hi).trans hunsettled) fun replies => ?_⟩
        have htail := hall (.ok :: replies)
        rwa [List.zip_cons_cons, consume, if_pos hrun, hnext] at htail
      · simp

theorem recorded_of_settled {messages : List (Option ByteArray × JobCall)}
    {c : Consumer} (hc : Counted c) (hrun : c.running = true)
    (hall : ∀ replies, AllSettled (consume loads c (messages.zip replies))) :
    Recorded (messages.map (fate loads)) := by
  induction messages generalizing c with
  | nil => exact ⟨[], [], rfl, by simp, by simp⟩
  | cons message messages ih =>
      by_cases hdown : fate loads message = .shutdown
      · exact ⟨[], [], by rw [List.map_cons, hdown]; rfl, by simp, by simp⟩
      · obtain ⟨running, hnext, hgoes, -⟩ := process_message_eq loads c message .ok
        have hgoes_on : (fate loads message).goes_on = true := by
          cases hf : fate loads message <;> first | rfl | exact absurd hf hdown
        have hrunning : running = true := (hgoes rfl hdown).trans hrun
        have htail : ∀ replies,
            AllSettled (consume loads (c.next (fate loads message) .ok running)
                (messages.zip replies)) := by
          intro replies
          have htail := hall (.ok :: replies)
          rwa [List.zip_cons_cons, consume, if_pos hrun, hnext] at htail
        cases hsettled : (fate loads message).is_settled with
        | true =>
            obtain ⟨settled, silent, hfates, hfront, hback⟩ := ih (hc.next _ _ _) hrunning htail
            refine ⟨fate loads message :: settled, silent, ?_,
              List.forall_mem_cons.mpr ⟨hsettled, hfront⟩, hback⟩
            rw [List.map_cons, List.takeWhile_cons_of_pos hgoes_on, hfates, List.cons_append]
        | false =>
            have hunsettled : (c.next (fate loads message) .ok running).settled[c.position]? =
                some false := by
              simp [next, hsettled, ← hc.1]
            have hrest := silent_of_unsettled (hc.next _ _ _) hrunning
              (Nat.lt_succ_self _) hunsettled htail
            refine ⟨[], fate loads message :: _, ?_, by simp, List.forall_mem_cons.mpr ⟨?_, hrest⟩⟩
            · rw [List.map_cons, List.takeWhile_cons_of_pos hgoes_on, List.nil_append]
            -- a commit of an unsettled message is the first one that goes too far
            by_contra hreturns
            rw [Bool.not_eq_false] at hreturns
            obtain ⟨hcommitted, hafter⟩ := consume_commit hrun hreturns
            have hbad := hall [.ok] c.position
            rw [List.zip_cons_cons, List.zip_nil_right, hcommitted, hafter, hsettled] at hbad
            have hlast := hbad (Nat.lt_succ_self _)
            rw [← hc.1, List.getElem?_concat_length] at hlast
            cases hlast

end Runs

-- However its commits end, a consumer commits past settled messages only, if and only if it
-- never returns from a job whose outcome is not recorded, nor comes to a commit after a job
-- that raised.
theorem commits_settled_iff (loads : ByteArray → Loaded)
    (messages : List (Option ByteArray × JobCall)) :
    (∀ replies, AllSettled (consume loads start (messages.zip replies))) ↔
    Recorded (messages.map (fate loads)) :=
  ⟨recorded_of_settled ⟨rfl, Nat.le_refl _⟩ rfl, fun hfates replies =>
    consume_recorded hfates ⟨rfl, Nat.le_refl _⟩
      (fun _ hi => absurd hi (Nat.not_lt_zero _)) replies⟩

-- The job has run and the database does not take its result.
theorem commit_unrecorded :
    ¬∀ replies, AllSettled
      (consume (fun _ => .value (.dict [(.str "schema_version", .int 2)])) start
      ([(some ⟨#[]⟩, ⟨false, .claimed, .returned true, .error, .error⟩)].zip replies)) := by
  intro hall
  have hlast := hall [.ok] 0 (by decide)
  cases hlast

end Reflowfy.Consumer
