import Reflowfy.ElasticHandler
import Mathlib.Data.List.Count

namespace Reflowfy.ElasticLogHandler

open Interleaving

-- How often a line is queued, in the shipper's batch, shipped, or counted as dropped.
def LogStore.places (s : LogStore) (line : Line) : ℕ :=
  s.queue.count line + s.batch.count line + s.shipped.count line + s.dropped.count line

-- The store: every accepted line is in one place, once, and the counter counts the dropped ones.
def Accounted (s : LogStore) : Prop :=
  (∀ line, s.places line = s.accepted.count line ∧ s.accepted.count line ≤ 1 ∧
    (line ∈ s.accepted → line.2 < s.emits line.1)) ∧ s.logs_dropped_total = s.dropped.length

-- A thread: the line that it has in hand is its own, and new.
def Emitting (s : LogStore) (i : TaskId) : EmitPc → Prop
  | .idle => True
  | .put_nowait line | .get_nowait line | .put_again line => line.1 = i ∧
      line.2 < s.emits i ∧ line ∉ s.accepted
  | .raised _ => False

-- A second `put_nowait` finds room, and a bulk that raises has shipped none of its lines.
def Ok (c : Config) (s : LogSystem) : LogEvent → Prop
  | .go i => ∀ line, s.procs i = .put_again line → s.store.full c = false
  | .flush (.raised taken) => ∀ line ∈ s.store.due_lines c, taken line = false
  | _ => True

section Store

variable {c : Config} {s : LogStore} {line : Line}

-- Accepting a new line, in the place where it goes.
theorem Accounted.accept (h : Accounted s) (hnew : line ∉ s.accepted)
    (hline : line.2 < s.emits line.1) {t : LogStore}
    (hplaces : ∀ l, t.places l = s.places l + [line].count l)
    (haccepted : t.accepted = line :: s.accepted) (hemits : t.emits = s.emits)
    (htotal : t.logs_dropped_total = t.dropped.length) : Accounted t := by
  refine ⟨fun l => ?_, htotal⟩
  obtain ⟨hsame, hone, hlt⟩ := h.1 l
  have hcount : t.accepted.count l = s.accepted.count l + [line].count l := by
    rw [haccepted, ← List.singleton_append, List.count_append, Nat.add_comm]
  rw [hplaces, hcount, hsame, haccepted, hemits]
  refine ⟨rfl, ?_, fun hmem => ?_⟩
  · by_cases hl : l = line
    · subst hl
      simp [List.count_eq_zero_of_not_mem hnew]
    · have hnone : [line].count l = 0 := List.count_eq_zero_of_not_mem (by simpa using hl)
      omega
  · rcases List.mem_cons.mp hmem with rfl | hmem
    · exact hline
    · exact hlt hmem

-- Moving lines from one place to another.
theorem Accounted.move (h : Accounted s) {t : LogStore} (hplaces : ∀ l, t.places l = s.places l)
    (haccepted : t.accepted = s.accepted) (hemits : t.emits = s.emits)
    (htotal : t.logs_dropped_total = t.dropped.length) : Accounted t := by
  refine ⟨fun l => ?_, htotal⟩
  rw [hplaces, haccepted, hemits]
  exact h.1 l

theorem Accounted.put (h : Accounted s) (hnew : line ∉ s.accepted)
    (hline : line.2 < s.emits line.1) :
    Accounted (s.put line) := by
  refine h.accept hnew hline (fun l => ?_) rfl rfl h.2
  simp only [LogStore.places, LogStore.put, List.count_append]
  omega

theorem drop_total (h : s.logs_dropped_total = s.dropped.length) (lines : List Line) :
    (s.drop lines).logs_dropped_total = (s.drop lines).dropped.length := by
  simp only [LogStore.drop, List.length_append, h]
  omega

theorem count_filter_add (lines : List Line) (p : Line → Bool) (l : Line) :
    (lines.filter p).count l + (lines.filter fun line => !p line).count l = lines.count l := by
  rw [← List.count_append]
  exact (List.filter_append_perm p lines).count_eq l

-- Each line of a flush goes to one place.
theorem flush_places {lines : List Line} {bulk : Bulk} (hbulk : ∀ taken, bulk = .raised taken →
    ∀ line ∈ lines, taken line = false)
    (l : Line) : (s.flush lines bulk).shipped.count l + (s.flush lines bulk).dropped.count l =
      s.shipped.count l + s.dropped.count l + lines.count l := by
  cases bulk with
  | no_client =>
      simp only [LogStore.flush, LogStore.drop, List.count_append]
      omega
  | returned rejected =>
      have hsplit := count_filter_add lines rejected l
      simp only [LogStore.flush, LogStore.drop, LogStore.ship, List.count_append]
      omega
  | raised taken =>
      have hnone : lines.filter taken = [] :=
        List.filter_eq_nil_iff.mpr (by simpa using hbulk taken rfl)
      simp only [LogStore.flush, LogStore.drop, LogStore.ship, List.count_append,
        hnone, List.count_nil]
      omega

theorem flush_same (s : LogStore) (lines : List Line) (bulk : Bulk) :
    (s.flush lines bulk).queue = s.queue ∧
    (s.flush lines bulk).accepted = s.accepted ∧ (s.flush lines bulk).emits = s.emits := by
  cases bulk <;> exact ⟨rfl, rfl, rfl⟩

theorem flush_total (h : s.logs_dropped_total = s.dropped.length)
    (lines : List Line) (bulk : Bulk) :
    (s.flush lines bulk).logs_dropped_total = (s.flush lines bulk).dropped.length := by
  cases bulk <;> exact drop_total h _

-- The lines of a flush are the front of the batch.
theorem due_lines_append (c : Config) (s : LogStore) :
    s.due_lines c ++ s.batch.drop (s.due_lines c).length = s.batch := by
  unfold LogStore.due_lines
  cases s.shipper with
  | due => simp
  | looping => rfl
  | draining => rfl
  | last =>
      have htake := List.take_append_drop c.flush_docs.toNat s.batch
      by_cases hle : c.flush_docs.toNat ≤ s.batch.length
      · rwa [List.length_take_of_le hle]
      · rw [List.take_of_length_le (by omega), List.drop_length, List.append_nil]

theorem Accounted.flush_due (h : Accounted s) {bulk : Bulk}
    (hbulk : ∀ taken, bulk = .raised taken → ∀ line ∈ s.due_lines c, taken line = false) :
    Accounted (s.flush_due c bulk) := by
  obtain ⟨hqueue, haccepted, hemits⟩ := flush_same s (s.due_lines c) bulk
  refine h.move (fun l => ?_) haccepted hemits (flush_total h.2 _ _)
  have hbatch : (s.due_lines c).count l + (s.batch.drop (s.due_lines c).length).count l =
      s.batch.count l := by
    rw [← List.count_append, due_lines_append]
  have hflush := flush_places (s := s) hbulk l
  show List.count l (s.flush _ bulk).queue + (s.batch.drop _).count l +
    (s.flush _ bulk).shipped.count l +
    (s.flush _ bulk).dropped.count l = s.places l
  rw [hqueue, LogStore.places]
  omega

-- A thread does not mind what the others have accepted.
theorem Emitting.other {t : LogStore} {j : TaskId} {pc : EmitPc} (h : Emitting s j pc)
    (hemits : s.emits j ≤ t.emits j)
    (haccepted : ∀ l ∈ t.accepted, l ∈ s.accepted ∨ l.1 ≠ j) : Emitting t j pc := by
  cases pc with
  | idle => trivial
  | raised line => exact h
  | _ =>
      obtain ⟨hown, hlt, hnew⟩ := h
      exact ⟨hown, Nat.lt_of_lt_of_le hlt hemits,
        fun hmem => (haccepted _ hmem).elim hnew fun hne => hne hown⟩

end Store

section Steps

variable {c : Config} {s s' : LogSystem}

theorem holds_initial (h : LogSystem.Initial s) : s.Holds Accounted Emitting := by
  obtain ⟨hstore, hidle⟩ := h
  refine ⟨?_, fun i => ?_⟩
  · rw [hstore]
    exact ⟨fun line => by simp [LogStore.places], rfl⟩
  · rw [hidle i]
    trivial

-- A line that is accepted, by a thread that then is done.
theorem accept_holds (hs : s.Holds Accounted Emitting) {i : TaskId} {line : Line} {store : LogStore}
    (hown : line.1 = i) (hstore : Accounted store) (hemits : store.emits = s.store.emits)
    (haccepted : store.accepted = line :: s.store.accepted) :
      (s.set i store .idle).Holds Accounted Emitting := by
  refine hs.set hstore trivial fun j hj h => h.other (hemits ▸ Nat.le_refl _) fun l hl => ?_
  rw [haccepted] at hl
  rcases List.mem_cons.mp hl with rfl | hl
  · exact .inr fun hsame => hj (hsame.symm.trans hown)
  · exact .inl hl

theorem go_holds (hs : s.Holds Accounted Emitting) {i : TaskId} (hok : Ok c s (.go i))
    {store : LogStore} {pc : EmitPc} (hgo : (s.procs i).go c s.store = some (store, pc)) :
      (s.set i store pc).Holds Accounted Emitting := by
  have hpc := hs.2 i
  cases hproc : s.procs i with
  | idle =>
      rw [hproc] at hgo
      cases hgo
  | raised line =>
      rw [hproc] at hgo
      cases hgo
  | put_nowait line =>
      rw [hproc] at hgo hpc
      simp only [EmitPc.go] at hgo
      split at hgo
      · cases hgo
        exact hs.set hs.1 hpc fun j _ h => h
      · cases hgo
        exact accept_holds hs hpc.1 (hs.1.put hpc.2.2 (hpc.1 ▸ hpc.2.1)) rfl rfl
  | get_nowait line =>
      rw [hproc] at hgo hpc
      simp only [EmitPc.go] at hgo
      split at hgo
      · cases hgo
        refine accept_holds hs hpc.1 (hs.1.accept hpc.2.2 (hpc.1 ▸ hpc.2.1) (fun _ => ?_) rfl rfl
          (drop_total hs.1.2 _)) rfl rfl
        simp only [LogStore.places, LogStore.drop, List.count_append]
        omega
      · rename_i oldest queue hqueue
        cases hgo
        refine hs.set (hs.1.move (fun l => ?_) rfl rfl (drop_total hs.1.2 _)) hpc fun j _ h => h
        simp only [LogStore.places, LogStore.drop, hqueue, List.count_append,
          List.count_cons, List.count_nil]
        omega
  | put_again line =>
      rw [hproc] at hgo hpc
      simp only [EmitPc.go, hok line hproc, Bool.false_eq_true, if_false] at hgo
      cases hgo
      exact accept_holds hs hpc.1 (hs.1.put hpc.2.2 (hpc.1 ▸ hpc.2.1)) rfl rfl

-- What the shipper takes from the queue goes to its batch.
theorem take_accounted {s : LogStore} (h : Accounted s) {line : Line} {queue : List Line}
    (hqueue : s.queue = line :: queue) :
    Accounted { s with queue, batch := s.batch ++ [line] } := by
  refine h.move (fun l => ?_) rfl rfl h.2
  simp only [LogStore.places, hqueue, List.count_append, List.count_cons, List.count_nil]
  omega

theorem next_same (c : Config) (expired : Bool) (s : LogStore) :
    (s.next c expired).emits = s.emits ∧
    (s.next c expired).accepted = s.accepted ∧ (Accounted s → Accounted (s.next c expired)) := by
  unfold LogStore.next
  split
  · exact ⟨rfl, rfl, fun h => h.move (fun _ => rfl) rfl rfl h.2⟩
  · exact ⟨rfl, rfl, fun h => h⟩

-- The shipper's steps are none of the threads' business.
theorem shipper_holds (hs : s.Holds Accounted Emitting) {store : LogStore}
    (hstore : Accounted store)
    (hemits : store.emits = s.store.emits) (haccepted : store.accepted = s.store.accepted) :
    Pool.Holds Accounted Emitting { s with store } :=
  hs.store hstore fun _ _ h => h.other (hemits ▸ Nat.le_refl _) fun _ hl => .inl (haccepted ▸ hl)

theorem step_holds (hs : s.Holds Accounted Emitting) {e : LogEvent} (hok : Ok c s e)
    (hstep : LogSystem.step c s e = some s') : s'.Holds Accounted Emitting := by
  cases e with
  | emit i =>
      simp only [LogSystem.step] at hstep
      split at hstep
      · cases hstep
        have hnew : (i, s.store.emits i) ∉ s.store.accepted :=
          fun hmem => Nat.lt_irrefl _ ((hs.1.1 _).2.2 hmem)
        have hgrown : ∀ j, s.store.emits j ≤ Function.update s.store.emits i
            (s.store.emits i + 1) j := by
          intro j
          by_cases hj : j = i
          · subst hj
            simp
          · exact Nat.le_of_eq (Function.update_of_ne hj _ _).symm
        refine hs.set ⟨fun l => ?_, hs.1.2⟩ ⟨rfl, by simp, hnew⟩ fun j _ h =>
          h.other (hgrown j) fun l hl => .inl hl
        obtain ⟨hplaces, hone, hlt⟩ := hs.1.1 l
        exact ⟨hplaces, hone, fun hmem => Nat.lt_of_lt_of_le (hlt hmem) (hgrown _)⟩
      · cases hstep
  | go i =>
      obtain ⟨⟨store, pc⟩, hgo, rfl⟩ := Option.map_eq_some_iff.mp hstep
      exact go_holds hs hok hgo
  | get expired =>
      simp only [LogSystem.step] at hstep
      split at hstep
      · split at hstep
        · cases hstep
          obtain ⟨hemits, haccepted, hnext⟩ := next_same c expired s.store
          exact shipper_holds hs (hnext hs.1) hemits haccepted
        · rename_i line queue hqueue
          cases hstep
          obtain ⟨hemits, haccepted, hnext⟩ :=
            next_same c expired { s.store with queue, batch := s.store.batch ++ [line] }
          exact shipper_holds hs (hnext (take_accounted hs.1 hqueue)) hemits haccepted
      · cases hstep
  | flush bulk =>
      simp only [LogSystem.step] at hstep
      split at hstep
      · cases hstep
        obtain ⟨-, haccepted, hemits⟩ := flush_same s.store (s.store.due_lines c) bulk
        refine shipper_holds hs (hs.1.flush_due ?_) hemits haccepted
        rintro taken rfl
        exact hok
      · cases hstep
  | stop =>
      simp only [LogSystem.step] at hstep
      split at hstep
      · cases hstep
        exact shipper_holds hs (hs.1.move (fun _ => rfl) rfl rfl hs.1.2) rfl rfl
      · cases hstep
  | drain =>
      simp only [LogSystem.step] at hstep
      split at hstep
      · split at hstep
        · cases hstep
          exact shipper_holds hs (hs.1.move (fun _ => rfl) rfl rfl hs.1.2) rfl rfl
        · rename_i line queue hqueue
          cases hstep
          exact shipper_holds hs (take_accounted hs.1 hqueue) rfl rfl
      · cases hstep

end Steps

-- In every run in which a second `put_nowait` finds room, and no bulk raises after it has
-- shipped something, `emit` does not raise and every line is shipped or counted.
theorem lines_accounted (c : Config) {s : LogSystem}
    (hr : Reach (LogSystem.step c) LogSystem.Initial (Ok c) s) :
    (∀ i line, s.procs i ≠ .raised line) ∧ (∀ line ∈ s.store.accepted, s.store.places line = 1) ∧
      s.store.logs_dropped_total = s.store.dropped.length := by
  have hs : s.Holds Accounted Emitting :=
    hr.invariant (fun _ h => holds_initial h) fun _ _ _ _ hs hok hstep => step_holds hs hok hstep
  refine ⟨fun i line hraised => ?_, fun line hmem => ?_, hs.1.2⟩
  · have hpc := hs.2 i
    rw [hraised] at hpc
    exact hpc
  · obtain ⟨hplaces, hone, -⟩ := hs.1.1 line
    have hpos := List.count_pos_iff.mpr hmem
    omega

section Room

-- No thread puts a line between another one's `get_nowait` and that one's second `put_nowait`.
def Uncrowded (c : Config) (s : LogSystem) : LogEvent → Prop
  | .go i => (∃ line, s.procs i = .put_nowait line ∧ s.store.full c = false ∨
      s.procs i = .put_again line) →
      ∀ j line, j ≠ i → s.procs j ≠ .put_again line
  | e => Ok c s e

-- The queue is within its bound, and has room for a thread that has taken a line out.
structure Room (c : Config) (s : LogSystem) : Prop where
  bounded : 0 < c.queue_max → s.store.queue.length ≤ c.queue_max
  again : ∀ i line, s.procs i = .put_again line → s.store.full c = false

variable {c : Config} {s s' : LogSystem}

theorem full_eq_false_of_lt {store : LogStore}
    (h : 0 < c.queue_max → store.queue.length < c.queue_max) :
    store.full c = false := by
  simp only [LogStore.full, decide_eq_false_iff_not, not_and]
  exact fun hpos => Int.not_le.mpr (h hpos)

-- Taking lines from the queue makes room.
theorem Room.of_shorter {store : LogStore} (h : Room c s)
    (hle : store.queue.length ≤ s.store.queue.length) :
    Room c { s with store } := by
  refine ⟨fun hpos => Int.le_trans (Int.ofNat_le.mpr hle) (h.bounded hpos), fun i line hi => ?_⟩
  have hroom := h.again i line hi
  simp only [LogStore.full, decide_eq_false_iff_not, not_and, Int.not_le] at hroom
  exact full_eq_false_of_lt fun hpos => Int.lt_of_le_of_lt (Int.ofNat_le.mpr hle) (hroom hpos)

theorem room_put {i : TaskId} {line : Line} (hroom : s.store.full c = false)
    (halone : ∀ j line, j ≠ i → s.procs j ≠ .put_again line) :
      Room c (s.set i (s.store.put line) .idle) := by
  simp only [LogStore.full, decide_eq_false_iff_not, not_and, Int.not_le] at hroom
  refine ⟨fun hpos => ?_, fun j line' hj => ?_⟩
  · have hlt := hroom hpos
    simp only [Pool.set_store, LogStore.put, List.length_append, List.length_singleton]
    omega
  · by_cases hij : j = i
    · subst hij
      rw [Pool.set_procs_self] at hj
      cases hj
    · rw [Pool.set_procs_of_ne s _ _ hij] at hj
      exact absurd hj (halone j line' hij)

-- A thread that comes to no second `put_nowait`.
theorem Room.set {i : TaskId} {store : LogStore} {pc : EmitPc} (h : Room c { s with store })
    (hpc : ∀ line, pc ≠ .put_again line) : Room c (s.set i store pc) := by
  refine ⟨h.bounded, fun j line hj => ?_⟩
  by_cases hij : j = i
  · subst hij
    rw [Pool.set_procs_self] at hj
    exact absurd hj (hpc line)
  · rw [Pool.set_procs_of_ne s _ _ hij] at hj
    exact h.again j line hj

theorem room_go (h : Room c s) {i : TaskId} (hok : Uncrowded c s (.go i))
    {store : LogStore} {pc : EmitPc}
    (hgo : (s.procs i).go c s.store = some (store, pc)) : Room c (s.set i store pc) := by
  cases hproc : s.procs i with
  | idle | raised line =>
      rw [hproc] at hgo
      cases hgo
  | put_nowait line =>
      rw [hproc] at hgo
      simp only [EmitPc.go] at hgo
      split at hgo
      · cases hgo
        refine h.set fun _ hagain => ?_
        cases hagain
      · rename_i hroom
        cases hgo
        have hroom : s.store.full c = false := by simpa using hroom
        exact room_put hroom (hok ⟨line, .inl ⟨hproc, hroom⟩⟩)
  | put_again line =>
      have hroom := h.again i line hproc
      rw [hproc] at hgo
      simp only [EmitPc.go, hroom, Bool.false_eq_true, if_false] at hgo
      cases hgo
      exact room_put hroom (hok ⟨line, .inr hproc⟩)
  | get_nowait line =>
      rw [hproc] at hgo
      simp only [EmitPc.go] at hgo
      split at hgo
      · cases hgo
        refine Room.set (h.of_shorter (Nat.le_refl _)) fun _ hagain => ?_
        cases hagain
      · rename_i oldest queue hqueue
        cases hgo
        have hle : queue.length < s.store.queue.length := by simp [hqueue]
        have hshorter : Room c { s with store := { s.store with queue }.drop [oldest] } :=
          h.of_shorter (Nat.le_of_lt hle)
        refine ⟨hshorter.bounded, fun j line' _ => full_eq_false_of_lt fun hpos => ?_⟩
        exact Int.lt_of_lt_of_le (Int.ofNat_lt.mpr hle) (h.bounded hpos)

theorem room_step (h : Room c s) {e : LogEvent} (hok : Uncrowded c s e)
    (hstep : LogSystem.step c s e = some s') :
    Room c s' := by
  cases e with
  | emit i =>
      simp only [LogSystem.step] at hstep
      split at hstep
      · cases hstep
        refine Room.set (h.of_shorter (Nat.le_refl _)) fun _ hagain => ?_
        cases hagain
      · cases hstep
  | go i =>
      obtain ⟨⟨store, pc⟩, hgo, rfl⟩ := Option.map_eq_some_iff.mp hstep
      exact room_go h hok hgo
  | get expired =>
      simp only [LogSystem.step] at hstep
      split at hstep
      · split at hstep
        · cases hstep
          exact h.of_shorter (by unfold LogStore.next; split <;> exact Nat.le_refl _)
        · rename_i line queue hqueue
          cases hstep
          exact h.of_shorter (by unfold LogStore.next; split <;> simp [hqueue])
      · cases hstep
  | flush bulk =>
      simp only [LogSystem.step] at hstep
      split at hstep
      · cases hstep
        exact h.of_shorter (Nat.le_of_eq
          (congrArg List.length (flush_same s.store (s.store.due_lines c) bulk).1))
      · cases hstep
  | stop =>
      simp only [LogSystem.step] at hstep
      split at hstep
      · cases hstep
        exact h.of_shorter (Nat.le_refl _)
      · cases hstep
  | drain =>
      simp only [LogSystem.step] at hstep
      split at hstep
      · split at hstep
        · cases hstep
          exact h.of_shorter (Nat.le_refl _)
        · rename_i line queue hqueue
          cases hstep
          exact h.of_shorter (by simp [hqueue])
      · cases hstep

-- Then a second `put_nowait` always finds room.
theorem ok_of_uncrowded
    (hr : Reach (LogSystem.step c) LogSystem.Initial (Uncrowded c) s) {e : LogEvent}
    (hok : Uncrowded c s e) : Ok c s e := by
  have hroom : Room c s := hr.invariant (fun s hs => ?_) fun _ _ _ _ h hok hstep =>
    room_step h hok hstep
  · cases e with
    | go i => exact fun line hline => hroom.again i line hline
    | _ => exact hok
  · obtain ⟨hstore, hidle⟩ := hs
    refine ⟨fun hpos => ?_, fun i line hi => ?_⟩
    · rw [hstore]
      exact Int.le_of_lt hpos
    · rw [hidle i] at hi
      cases hi

end Room

def initial : LogSystem :=
  { store := ⟨[], .looping, [], 0, fun _ => 0, [], [], []⟩, procs := fun _ => .idle }

theorem initial_initial : LogSystem.Initial initial := ⟨rfl, fun _ => rfl⟩

-- A full queue of one line, whose line is dropped for another, which is then shipped.
theorem lines_accounted_one : ∃ s, Reach (LogSystem.step ⟨1, 1⟩) LogSystem.Initial (Ok ⟨1, 1⟩) s ∧
    s.store.accepted = [(1, 0), (0, 0)] ∧ s.store.shipped = [(1, 0)] ∧
      s.store.logs_dropped_total = 1 ∧
    s.store.places (0, 0) = 1 ∧ s.procs 1 ≠ .raised (1, 0) := by
  obtain ⟨s, hr, -, htest⟩ := Reach.replay (LogSystem.step ⟨1, 1⟩) LogSystem.Initial (Ok ⟨1, 1⟩)
    (fun s e => match e with
      | .go i => match s.procs i with
        | .put_again _ => !s.store.full ⟨1, 1⟩
        | _ => true
      | .flush (.raised _) => false
      | _ => true)
    (fun s e h => by
      cases e with
      | go i =>
          intro line hline
          simpa [hline] using h
      | flush bulk =>
          cases bulk with
          | raised taken => cases h
          | _ => trivial
      | _ => trivial) initial_initial
    [.emit 0, .go 0, .emit 1, .go 1, .go 1, .go 1, .get false, .flush (.returned fun _ => false)]
    (fun s => s.store.accepted = [(1, 0), (0, 0)] ∧ s.store.shipped = [(1, 0)] ∧
      s.store.logs_dropped_total = 1)
    (by decide +kernel)
  obtain ⟨haccepted, hshipped, htotal⟩ := of_decide_eq_true htest
  obtain ⟨hraised, hplaces, -⟩ := lines_accounted ⟨1, 1⟩ hr
  exact ⟨s, hr, haccepted, hshipped, htotal,
    hplaces _ (by rw [haccepted]; decide), hraised 1 (1, 0)⟩

-- A third thread takes the room that the second has made; a bulk raises after its line was taken.
theorem emit_raises_and_counted_twice :
    (∃ s, Reach (LogSystem.step ⟨1, 1⟩) LogSystem.Initial (fun _ _ => True) s ∧
      s.procs 1 = .raised (1, 0)) ∧
      ∃ s, Reach (LogSystem.step ⟨1, 1⟩) LogSystem.Initial (fun _ _ => True) s ∧
        (0, 0) ∈ s.store.accepted ∧
        (0, 0) ∈ s.store.shipped ∧ (0, 0) ∈ s.store.dropped ∧ s.store.places (0, 0) = 2 := by
  constructor
  · obtain ⟨s, hr, -, htest⟩ := Reach.replay (LogSystem.step ⟨1, 1⟩)
      LogSystem.Initial (fun _ _ => True)
      (fun _ _ => true) (fun _ _ _ => trivial) initial_initial
      [.emit 0, .go 0, .emit 1, .go 1, .go 1, .emit 2, .go 2, .go 1]
        (fun s => s.procs 1 = .raised (1, 0))
      (by decide +kernel)
    exact ⟨s, hr, of_decide_eq_true htest⟩
  · obtain ⟨s, hr, -, htest⟩ := Reach.replay (LogSystem.step ⟨1, 1⟩)
      LogSystem.Initial (fun _ _ => True)
      (fun _ _ => true) (fun _ _ _ => trivial) initial_initial
      [.emit 0, .go 0, .get false, .flush (.raised fun _ => true)]
      (fun s => (0, 0) ∈ s.store.accepted ∧ (0, 0) ∈ s.store.shipped ∧ (0, 0) ∈ s.store.dropped ∧
        s.store.places (0, 0) = 2)
      (by decide +kernel)
    exact ⟨s, hr, of_decide_eq_true htest⟩

end Reflowfy.ElasticLogHandler
