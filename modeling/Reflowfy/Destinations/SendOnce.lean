import Reflowfy.AsyncUtils.Progress
import Reflowfy.KafkaDestination

namespace Reflowfy.KafkaDestination

open AsyncUtils TransformationRunner Interleaving

variable {py : Python} {dest : KafkaDestination} {records : List Value} {base : Headers}
    {per_record : Option (List Headers)}
  {s s' : SendPool} {action : Action Unit CallError Message}

-- The record's value can be encoded.
def Encodes (py : Python) (dest : KafkaDestination) (record : Value) : Prop :=
  ∃ text, py.dumps (dest.payload record) = .ok text

instance (py : Python) (dest : KafkaDestination) : DecidablePred (dest.Encodes py) := fun record =>
  match h : py.dumps (dest.payload record) with
  | .ok text => .isTrue ⟨text, h⟩
  | .error e => .isFalse fun ⟨text, htext⟩ => by rw [h] at htext; cases htext

theorem exists_message {record : Value} (h : dest.Encodes py record) (index : ℕ) :
    ∃ what, dest.message py base per_record index record = .ok what := by
  obtain ⟨text, htext⟩ := h
  exact ⟨_, by simp only [message, htext]; rfl⟩

theorem encodes_of_message {record : Value} {index : ℕ} {what : Message}
    (h : dest.message py base per_record index record = .ok what) : dest.Encodes py record := by
  unfold message at h
  cases hdumps : py.dumps (dest.payload record) with
  | ok text => exact ⟨text, hdumps⟩
  | error e =>
      rw [hdumps] at h
      cases h

theorem exists_error {record : Value} (h : ¬dest.Encodes py record) (index : ℕ) :
    ∃ e, dest.message py base per_record index record = .error e := by
  cases hmessage : dest.message py base per_record index record with
  | ok what => exact absurd (encodes_of_message hmessage) h
  | error e => exact ⟨e, rfl⟩

theorem not_encodes_of_error {record : Value} {index : ℕ} {e : Thrown}
    (h : dest.message py base per_record index record = .error e) : ¬dest.Encodes py record := by
  intro hencodes
  obtain ⟨what, hwhat⟩ := @exists_message py dest base per_record record hencodes index
  rw [hwhat] at h
  cases h

-- The records written so far, by their positions.
def written (s : SendPool) : List ℕ := (writes s.log).map (·.1)

theorem writes_append (log log' : List (Event Value Unit CallError Message)) :
    writes (log ++ log') = writes log ++ writes log' :=
  List.filterMap_append ..

theorem mem_written_iff {index : ℕ} : index ∈ written s ↔ s.log.any (given index) = true := by
  simp only [written, writes, List.mem_map, List.mem_filterMap, List.any_eq_true]
  constructor
  · rintro ⟨⟨i, what⟩, ⟨event, hevent, hwrite⟩, rfl⟩
    cases event with
    | act i' what' =>
        cases hwrite
        exact ⟨_, hevent, by simp [given]⟩
    | start _ _ => cases hwrite
    | finish _ _ => cases hwrite
    | fail _ _ => cases hwrite
    | give_up _ => cases hwrite
    | swallow _ => cases hwrite
    | cancel => cases hwrite
  · rintro ⟨event, hevent, hgiven⟩
    cases event with
    | act i what =>
        have hi : i = index := by simpa [given] using hgiven
        exact ⟨(i, what), ⟨_, hevent, rfl⟩, hi⟩
    | start _ _ => cases hgiven
    | finish _ _ => cases hgiven
    | fail _ _ => cases hgiven
    | give_up _ => cases hgiven
    | swallow _ => cases hgiven
    | cancel => cases hgiven

theorem writes_next_item (s : SendPool) (w : ℕ) : writes (s.next_item w).log = writes s.log := by
  rcases Pool.next_item_log s w with heq | ⟨item, heq⟩
  · rw [heq]
  · rw [heq, writes_append]
    exact List.append_nil _

-- What a step writes is what its action says.
theorem writes_of_steps (hstep : Pool.Steps s action s') :
    (∃ w index cancelling what, action = .act w what ∧
      s.workers[w]? = some (.calling index cancelling) ∧
      writes s'.log = writes s.log ++ [(index, what)]) ∨
    (∀ w what, action ≠ .act w what) ∧ writes s'.log = writes s.log := by
  have hput : ∀ (s : SendPool) w worker events, writes events = [] →
      writes (s.put w worker events).log = writes s.log := by
    intro s w worker events hnone
    simp only [Pool.put, writes_append, hnone, List.append_nil]
  cases hstep with
  | @act w index cancelling what hw =>
      exact .inl ⟨w, index, cancelling, what, rfl, hw, writes_append ..⟩
  | resume hw => exact .inr ⟨fun _ _ h => (by cases h), writes_next_item s _⟩
  | @finish w index result hw =>
      refine .inr ⟨fun _ _ h => (by cases h), ?_⟩
      rw [writes_next_item]
      exact hput s w (.created false) [.finish index result] rfl
  | unstarted hw => exact .inr ⟨fun _ _ h => (by cases h), hput s _ _ _ rfl⟩
  | @fail w index cancelling error hw =>
      exact .inr ⟨fun _ _ h => (by cases h), hput s w (.failed error) [.fail index error] rfl⟩
  | give_up hw => exact .inr ⟨fun _ _ h => (by cases h), hput s _ _ _ rfl⟩
  | swallow hw => exact .inr ⟨fun _ _ h => (by cases h), hput s _ _ _ rfl⟩
  | cancel hw hcaller =>
      refine .inr ⟨fun _ _ h => (by cases h), ?_⟩
      rw [writes_append]
      exact List.append_nil _
  | join hcaller hended => exact .inr ⟨fun _ _ h => (by cases h), rfl⟩
  | complete hcaller hdone => exact .inr ⟨fun _ _ h => (by cases h), rfl⟩

-- How far a call of `send` may come.
def Comes (py : Python) (dest : KafkaDestination) (records : List Value) (base : Headers)
    (per_record : Option (List Headers)) (s : SendPool) : Prop :=
  Reach Pool.step (· = for_each_concurrently records dest.concurrency)
    (dest.SendsOne py base per_record) s

-- The calls write the messages of their own records, each once, and none comes to its end before.
structure Sending (py : Python) (dest : KafkaDestination) (base : Headers)
    (per_record : Option (List Headers)) (s : SendPool) : Prop where
  nodup : (written s).Nodup
  own : ∀ index what, (index, what) ∈ writes s.log →
    ∃ record, s.items[index]? = some record ∧
      dest.message py base per_record index record = .ok what
  finished : ∀ index result, .finish index result ∈ s.log → index ∈ written s
  failed : ∀ index error, .fail index error ∈ s.log → ∃ record, s.items[index]? = some record ∧
    ¬dest.Encodes py record

theorem workers_and_items (hr : dest.Comes py records base per_record s) :
    s.items = records ∧ s.Calls ∧ s.Failures := by
  unfold Comes for_each_concurrently at hr
  split at hr
  · obtain ⟨hitems, _, hcalls, hfailures⟩ := Pool.invariant_of_reach (.inr ⟨rfl, rfl⟩) hr
    exact ⟨hitems, hcalls, hfailures⟩
  · obtain ⟨hitems, _, hcalls, hfailures⟩ := Pool.invariant_of_reach (.inl rfl) hr
    exact ⟨hitems, hcalls, hfailures⟩

theorem sending_of_comes (hr : dest.Comes py records base per_record s) :
    dest.Sending py base per_record s := by
  induction hr with
  | init hi =>
      subst hi
      have hlog : (for_each_concurrently records dest.concurrency : SendPool).log = [] := by
        unfold for_each_concurrently
        split <;> rfl
      exact ⟨by simp [written, hlog, writes], by simp [hlog,
        writes], by simp [hlog], by simp [hlog]⟩
  | @step s s' action hr hok hstep ih =>
      have hsteps := Pool.steps_of_step hstep
      have hitems := (Pool.frame hsteps).1
      have hgrows : ∀ index ∈ written s, index ∈ written s' := by
        rcases writes_of_steps hsteps with
          ⟨w, index, cancelling, what, _, _, hwrites⟩ | ⟨_, hwrites⟩
        · intro i hi
          simp only [written, hwrites, List.map_append, List.mem_append]
          exact .inl hi
        · intro i hi
          rwa [written, hwrites]
      refine ⟨?_, ?_, ?_, ?_⟩
      · rcases writes_of_steps hsteps with
          ⟨w, index, cancelling, what, rfl, hw, hwrites⟩ | ⟨_, hwrites⟩
        · obtain ⟨index', record, hw', _, _, hnew⟩ := hok.2
          rw [hw] at hw'
          cases hw'
          have hnot : index ∉ written s := fun hmem => hnew (mem_written_iff.mp hmem)
          rw [written, hwrites, List.map_append, List.nodup_append]
          refine ⟨ih.nodup, by simp, ?_⟩
          intro a ha b hb hab
          simp only [List.map_cons, List.map_nil, List.mem_singleton] at hb
          exact hnot (by rw [← hb, ← hab]; exact ha)
        · rw [written, hwrites]
          exact ih.nodup
      · rcases writes_of_steps hsteps with
          ⟨w, index, cancelling, what, rfl, hw, hwrites⟩ | ⟨_, hwrites⟩
        · obtain ⟨index', record, hw', hrecord, hmessage, _⟩ := hok.2
          rw [hw] at hw'
          cases hw'
          intro i m hmem
          rw [hwrites] at hmem
          rw [hitems]
          rcases List.mem_append.mp hmem with hold | hnew
          · exact ih.own i m hold
          · cases List.mem_singleton.mp hnew
            exact ⟨record, hrecord, hmessage⟩
        · rw [hwrites, hitems]
          exact ih.own
      · intro index result hmem
        rcases Pool.finish_of_steps hsteps hmem with hold | ⟨w, cancelling, rfl, hw⟩
        · exact hgrows index (ih.finished index result hold)
        · obtain ⟨index', hw', hgiven⟩ := hok.2
          rw [hw] at hw'
          cases hw'
          exact hgrows index (mem_written_iff.mpr hgiven)
      · intro index error hmem
        rw [hitems]
        rcases Pool.fail_of_steps hsteps hmem with hold | ⟨w, cancelling, rfl, hw⟩
        · exact ih.failed index error hold
        · obtain ⟨index', cancelling', record, e, hw', hrecord, hmessage, _⟩ := hok.2
          rw [hw] at hw'
          cases hw'
          exact ⟨record, hrecord, not_encodes_of_error hmessage⟩

-- The record of a call that is running.
theorem exists_record (hr : dest.Comes py records base per_record s) {w index : ℕ}
    {cancelling : Bool} (hw : s.workers[w]? = some (.calling index cancelling)) :
      ∃ record, s.items[index]? = some record := by
  obtain ⟨_, hcalls, _⟩ := workers_and_items hr
  exact ⟨_, List.getElem?_eq_getElem (hcalls.not_finished hw).1⟩

section Ends

theorem written_lt (hr : dest.Comes py records base per_record s) {index : ℕ}
    (h : index ∈ written s) :
    index < records.length := by
  obtain ⟨hitems, _⟩ := workers_and_items hr
  obtain ⟨⟨i, what⟩, hmem, rfl⟩ := List.mem_map.mp h
  obtain ⟨record, hrecord, _⟩ := (sending_of_comes hr).own i what hmem
  rw [hitems] at hrecord
  exact (List.getElem?_eq_some_iff.mp hrecord).1

theorem length_written_le (hr : dest.Comes py records base per_record s) :
    (written s).length ≤ records.length := by
  have hsubset : written s ⊆ List.range records.length :=
    fun index hindex => List.mem_range.mpr (written_lt hr hindex)
  have hle := (List.subperm_of_subset (sending_of_comes hr).nodup hsubset).length_le
  rwa [List.length_range] at hle

-- A send that returns has written every record.
theorem perm_of_returned (hr : dest.Comes py records base per_record s)
    (hback : s.caller = .returned) :
    (written s).Perm (List.range records.length) ∧ ∀ record ∈ records, dest.Encodes py record := by
  obtain ⟨hitems, hcalls, hfailures⟩ := workers_and_items hr
  have hsending := sending_of_comes hr
  obtain ⟨hexact_items, hexact⟩ := for_each_concurrently_exact dest.concurrency_pos hr
  obtain ⟨_, _, results, _, hlen, hfinish⟩ := hexact.returned hback
  have hall : ∀ index < records.length, index ∈ written s := by
    intro index hindex
    have hlt : index < results.length := by
      rw [hlen, hitems]
      exact hindex
    exact hsending.finished index results[index] ((hfinish _ _).mpr (List.getElem?_eq_getElem hlt))
  constructor
  · rw [List.perm_ext_iff_of_nodup hsending.nodup List.nodup_range]
    intro index
    rw [List.mem_range]
    exact ⟨written_lt hr, hall index⟩
  · intro record hrecord
    obtain ⟨index, hindex⟩ := List.mem_iff_getElem?.mp hrecord
    obtain ⟨⟨i, what⟩, hmem, rfl⟩ :=
      List.mem_map.mp (hall index (List.getElem?_eq_some_iff.mp hindex).1)
    obtain ⟨record', hrecord', hmessage⟩ := hsending.own i what hmem
    rw [hitems, hindex] at hrecord'
    cases hrecord'
    exact encodes_of_message hmessage

-- A send that raises has come to a record that cannot be encoded.
theorem not_encodes_of_raised (hr : dest.Comes py records base per_record s) {e : CallError}
    (hback : s.caller = .raised e) :
    ∃ record ∈ records, ¬dest.Encodes py record := by
  obtain ⟨hitems, _, hfailures⟩ := workers_and_items hr
  obtain ⟨index, hfail⟩ := hfailures.raising e (.inr hback)
  obtain ⟨record, hrecord, hnot⟩ := (sending_of_comes hr).failed index e hfail
  rw [hitems] at hrecord
  exact ⟨record, List.mem_of_getElem? hrecord, hnot⟩

end Ends

section Progress

-- The worker awaits a call that is to raise at once.
def Bad (py : Python) (dest : KafkaDestination) (s : SendPool) (w : ℕ) : Prop :=
  ∃ index cancelling record, s.workers[w]? = some (.calling index cancelling) ∧
    s.items[index]? = some record ∧
    ¬dest.Encodes py record

theorem action_of_bad {w : ℕ} (hok : dest.SendsOne py base per_record s action)
    (h : dest.Bad py s w) :
    ∃ e, action = .fail w e := by
  obtain ⟨index, cancelling, record, hw, hrecord, hnot⟩ := h
  obtain ⟨e, he⟩ := @exists_error py dest base per_record record hnot index
  exact ⟨_, hok.1 w index cancelling record e hw hrecord he⟩

theorem bad_of_steps (hstep : Pool.Steps s action s') {w : ℕ} (h : dest.Bad py s' w) :
    action.worker = some w ∨ dest.Bad py s w := by
  obtain ⟨index, cancelling, record, hw, hrecord, hnot⟩ := h
  rw [(Pool.frame hstep).1] at hrecord
  rcases Pool.calling_of_steps hstep hw with hworker | ⟨cancelling', hw'⟩
  · exact .inl hworker
  · exact .inr ⟨index, cancelling', record, hw', hrecord, hnot⟩

theorem bad_unique (hr : dest.Comes py records base per_record s) {w w' : ℕ} (h : dest.Bad py s w)
    (h' : dest.Bad py s w') :
    w = w' := by
  induction hr generalizing w w' with
  | init hi =>
      subst hi
      obtain ⟨index, cancelling, record, hw, _⟩ := h
      have hmem := List.mem_of_getElem? hw
      unfold for_each_concurrently at hmem
      split at hmem
      · cases List.eq_of_mem_replicate hmem
      · cases List.eq_of_mem_replicate hmem
  | @step s s' action hr hok hstep ih =>
      have hsteps := Pool.steps_of_step hstep
      rcases bad_of_steps hsteps h with hw | hold
      · rcases bad_of_steps hsteps h' with hw' | hold'
        · rw [hw] at hw'
          exact Option.some.inj hw'
        · obtain ⟨e, rfl⟩ := action_of_bad hok hold'
          exact (Option.some.inj hw).symm
      · obtain ⟨e, rfl⟩ := action_of_bad hok hold
        rcases bad_of_steps hsteps h' with hw' | hold'
        · exact Option.some.inj hw'
        · exact ih hold hold'

-- Until it is back, a send can go on.
theorem exists_allowed (hr : dest.Comes py records base per_record s)
    (hback : dest.result s.caller = none) :
    ∃ action s', dest.SendsOne py base per_record s action ∧ s.step action = some s' := by
  obtain ⟨hitems, hcalls, hfailures⟩ := workers_and_items hr
  by_cases hbad : ∃ w, dest.Bad py s w
  · obtain ⟨w, index, cancelling, record, hw, hrecord, hnot⟩ := hbad
    obtain ⟨e, he⟩ := @exists_error py dest base per_record record hnot index
    refine ⟨.fail w (.other e), ?_⟩
    simp only [Pool.step, hw]
    refine ⟨_, ⟨?_, index, cancelling, record, e, hw, hrecord, he, rfl⟩, rfl⟩
    intro w' index' cancelling' record' e' hw' hrecord' he'
    have hbad' : dest.Bad py s w' :=
      ⟨index', cancelling', record', hw', hrecord', not_encodes_of_error he'⟩
    obtain rfl := bad_unique hr hbad' ⟨index, cancelling, record, hw, hrecord, hnot⟩
    rw [hw] at hw'
    cases hw'
    rw [hrecord] at hrecord'
    cases hrecord'
    rw [he] at he'
    cases he'
    rfl
  · have hgood : ∀ (w index : ℕ) (cancelling : Bool) (record : Value) (e : Thrown),
        s.workers[w]? = some (.calling index cancelling) →
        s.items[index]? = some record → dest.message py base per_record index record =
            .error e → False := by
      intro w index cancelling record e hw hrecord he
      exact hbad ⟨w, index, cancelling, record, hw, hrecord, not_encodes_of_error he⟩
    have hidle : ∀ (action : Action Unit CallError Message) (w index : ℕ) (cancelling : Bool)
        (record : Value) (e : Thrown),
        s.workers[w]? = some (.calling index cancelling) → s.items[index]? = some record →
          dest.message py base per_record index record = .error e → action = .fail w (.other e) :=
      fun _ w index cancelling record e hw hrecord he =>
        (hgood w index cancelling record e hw hrecord he).elim
    by_cases hcalling : s.calling = []
    · have hreturned : s.caller ≠ .returned := fun h => by rw [h] at hback; cases hback
      have hraised : ∀ e, s.caller ≠ .raised e := fun e h => by rw [h] at hback; cases hback
      obtain ⟨action, s', hown, hstep⟩ := Pool.exists_step hfailures hcalling hreturned hraised
      refine ⟨action, s', ⟨hidle action, ?_⟩, hstep⟩
      cases action <;> trivial
    · obtain ⟨index, hindex⟩ := List.exists_mem_of_ne_nil _ hcalling
      obtain ⟨worker, hmem, hworker⟩ := List.mem_filterMap.mp hindex
      obtain ⟨w, hw⟩ := List.mem_iff_getElem?.mp hmem
      cases worker with
      | calling i cancelling =>
          cases hworker
          obtain ⟨record, hrecord⟩ := exists_record hr hw
          cases cancelling with
          | true =>
              refine ⟨.give_up w, ?_⟩
              simp only [Pool.step, hw]
              exact ⟨_, ⟨hidle _, trivial⟩, rfl⟩
          | false =>
              by_cases hgiven : s.log.any (given index)
              · refine ⟨.finish w (), ?_⟩
                simp only [Pool.step, hw]
                exact ⟨_, ⟨hidle _, index, hw, hgiven⟩, rfl⟩
              · cases hmessage : dest.message py base per_record index record with
                | error e => exact (hgood w index false record e hw hrecord hmessage).elim
                | ok what =>
                    refine ⟨.act w what, ?_⟩
                    simp only [Pool.step, hw]
                    exact ⟨_, ⟨hidle _, index, record, hw, hrecord, hmessage, hgiven⟩, rfl⟩
      | created _ => cases hworker
      | done => cases hworker
      | failed _ => cases hworker
      | cancelled => cases hworker

end Progress

end Reflowfy.KafkaDestination
