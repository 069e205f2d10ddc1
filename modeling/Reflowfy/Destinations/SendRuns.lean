import Reflowfy.Destinations.SendOnce

namespace Reflowfy.KafkaDestination

open AsyncUtils TransformationRunner Interleaving

variable {py : Python} {dest : KafkaDestination} {records : List Value} {base : Headers}
    {per_record : Option (List Headers)}
  {s s' : SendPool} {action : Action Unit CallError Message}

section Ending

-- The turns that are left, those within a call included.
def turns_left (s : SendPool) : ℕ := s.turns + (s.items.length - (written s).length)

theorem turns_left_lt (hr : dest.Comes py records base per_record s)
    (hok : dest.SendsOne py base per_record s action)
    (hstep : s.step action = some s') : turns_left s' < turns_left s := by
  have hsteps := Pool.steps_of_step hstep
  have hitems := (workers_and_items hr).1
  have hframe := (Pool.frame hsteps).1
  have hle := length_written_le (hr.step hok hstep)
  simp only [turns_left, hframe, hitems]
  rcases Pool.turns_of_steps hsteps with ⟨w, what, rfl, hturns⟩ | ⟨w, rfl⟩ | hturns
  · rcases writes_of_steps hsteps with ⟨_, index, _, _, _, _, hwrites⟩ | ⟨hnot, _⟩
    · have hlen : (written s').length = (written s).length + 1 := by
        simp [written, hwrites]
      omega
    · exact absurd rfl (hnot w what)
  · exact hok.2.elim
  · have hlen : (written s).length ≤ (written s').length := by
      rcases writes_of_steps hsteps with ⟨_, _, _, _, _, _, hwrites⟩ | ⟨_, hwrites⟩
      · simp [written, hwrites]
      · simp [written, hwrites]
    omega

-- Every send comes to an end, from wherever it stands.
theorem exists_end (hr : dest.Comes py records base per_record s) :
    ∃ s' out, dest.Comes py records base per_record s' ∧ dest.result s'.caller = some out ∧
      writes s.log <+: writes s'.log := by
  induction hturns : turns_left s using Nat.strongRecOn generalizing s with
  | _ turns ih =>
      cases hback : dest.result s.caller with
      | some out => exact ⟨s, out, hr, hback, List.prefix_refl _⟩
      | none =>
          obtain ⟨action, s', hok, hstep⟩ := exists_allowed hr hback
          have hlt := turns_left_lt hr hok hstep
          obtain ⟨last, out, hlast, hout, hextends⟩ := ih _ (hturns ▸ hlt) (hr.step hok hstep) rfl
          have hone : writes s.log <+: writes s'.log := by
            rcases writes_of_steps (Pool.steps_of_step hstep) with
              ⟨_, _, _, _, _, _, hwrites⟩ | ⟨_, hwrites⟩
            · rw [hwrites]
              exact List.prefix_append ..
            · exact ⟨[], by rw [hwrites, List.append_nil]⟩
          exact ⟨last, out, hlast, hout, hone.trans hextends⟩

end Ending

section InOrder

-- One worker alone: its call is the last that has started, and those before have been written.
structure Alone (s : SendPool) : Prop where
  length_workers : s.workers.length = 1
  sorted : (written s).Pairwise (· < ·)
  started : ∀ index ∈ written s, index < s.next_index
  last : ∀ (w index : ℕ) (cancelling : Bool), s.workers[w]? = some (.calling index cancelling) →
    index + 1 = s.next_index

theorem Alone.next_item {w : ℕ} {worker : Worker CallError} (h : Alone s)
    (hw : s.workers[w]? = some worker) :
    Alone (s.next_item w) := by
  have hwrites := writes_next_item s w
  have hlt := (List.getElem?_eq_some_iff.mp hw).1
  have hone := h.length_workers
  obtain rfl : w = 0 := by omega
  cases hitem : s.items[s.next_index]? with
  | none =>
      simp only [Pool.next_item, hitem] at hwrites ⊢
      refine ⟨by simp [Pool.put, hone], by rw [written, hwrites]; exact h.sorted,
        by rw [written, hwrites]; exact h.started, ?_⟩
      intro w index cancelling hget
      by_cases hw0 : w = 0
      · subst hw0
        rw [Pool.put, List.getElem?_set_self hlt] at hget
        cases hget
      · rw [Pool.put, List.getElem?_set_ne (Ne.symm hw0)] at hget
        exact h.last w index cancelling hget
  | some item =>
      simp only [Pool.next_item, hitem] at hwrites ⊢
      refine ⟨by simp [Pool.put, hone], ?_, ?_, ?_⟩
      · rw [written, hwrites]
        exact h.sorted
      · rw [written, hwrites]
        exact fun index hindex => Nat.lt_succ_of_lt (h.started index hindex)
      · intro w index cancelling hget
        by_cases hw0 : w = 0
        · subst hw0
          simp only [Pool.put] at hget
          rw [List.getElem?_set_self hlt] at hget
          cases hget
          rfl
        · have hnone : s.workers[w]? = none := List.getElem?_eq_none (by omega)
          simp only [Pool.put] at hget
          rw [List.getElem?_set_ne (Ne.symm hw0), hnone] at hget
          cases hget

-- A worker that stays in its call or leaves it, and writes nothing.
theorem Alone.put (h : Alone s) {w : ℕ} {worker worker' : Worker CallError}
    {events : List (Event Value Unit CallError Message)} (hw : s.workers[w]? = some worker)
    (hindex : worker'.index = none ∨ worker'.index = worker.index)
    (hnone : writes events = []) (caller : Caller CallError) (results : List (Option Unit)) :
    Alone { s.put w worker' events with caller := caller, results := results } := by
  have hwrites : written
      { s.put w worker' events with caller := caller, results := results } = written s := by
    simp only [written, Pool.put, writes_append, hnone, List.append_nil]
  refine ⟨List.length_set.trans h.length_workers,
    by rw [hwrites]; exact h.sorted, by rw [hwrites]; exact h.started, ?_⟩
  intro j index cancelling hj
  by_cases hjw : w = j
  · subst hjw
    have hlt := (List.getElem?_eq_some_iff.mp hw).1
    have heq : worker' = .calling index cancelling := by
      simp only [Pool.put, List.getElem?_set_self hlt] at hj
      exact Option.some.inj hj
    rw [heq] at hindex
    rcases hindex with hindex | hindex
    · cases hindex
    · cases worker with
      | calling i c =>
          cases hindex
          exact h.last w index c hw
      | created _ => cases hindex
      | done => cases hindex
      | failed _ => cases hindex
      | cancelled => cases hindex
  · simp only [Pool.put, List.getElem?_set_ne hjw] at hj
    exact h.last j index cancelling hj

-- What it writes next comes after all that has been written.
theorem Alone.act (h : Alone s) {w index : ℕ} {cancelling : Bool}
    (hw : s.workers[w]? = some (.calling index cancelling))
    (hnew : index ∉ written s) (what : Message) :
      Alone (s.put w (.calling index cancelling) [.act index what]) := by
  have hlast := h.last w index cancelling hw
  have hwrites : written (s.put w (.calling index cancelling) [.act index what]) =
      written s ++ [index] := by
    simp [written, Pool.put, writes]
  have hset : s.workers.set w (.calling index cancelling) = s.workers := by
    obtain ⟨hlt, heq⟩ := List.getElem?_eq_some_iff.mp hw
    rw [← heq]
    exact List.set_getElem_self hlt
  refine ⟨List.length_set.trans h.length_workers, ?_, ?_, ?_⟩
  · rw [hwrites, List.pairwise_append]
    refine ⟨h.sorted, List.pairwise_singleton _ _, ?_⟩
    intro i hi j hj
    obtain rfl := List.mem_singleton.mp hj
    have hlt := h.started i hi
    have hne : i ≠ j := fun heq => hnew (heq ▸ hi)
    omega
  · rw [hwrites]
    intro i hi
    change i < s.next_index
    rcases List.mem_append.mp hi with hold | hnew
    · exact h.started i hold
    · have hi := List.mem_singleton.mp hnew
      omega
  · intro j i c hj
    simp only [Pool.put, hset] at hj
    exact h.last j i c hj

theorem alone_of_comes (hone : dest.concurrency ≤ 1)
    (hr : dest.Comes py records base per_record s) : Alone s := by
  induction hr with
  | init hi =>
      subst hi
      unfold for_each_concurrently
      rw [if_pos hone]
      refine ⟨rfl, List.Pairwise.nil, by simp [written, writes, Pool.start], ?_⟩
      intro w index cancelling hw
      cases List.eq_of_mem_replicate (List.mem_of_getElem? hw)
  | @step s s' action hr hok hstep ih =>
      cases Pool.steps_of_step hstep with
      | resume hw => exact ih.next_item hw
      | unstarted hw => exact ih.put hw (.inl rfl) rfl s.caller s.results
      | @act w index cancelling what hw =>
          obtain ⟨index', record, hw', _, _, hnew⟩ := hok.2
          rw [hw] at hw'
          cases hw'
          exact ih.act hw (fun hmem => hnew (mem_written_iff.mp hmem)) what
      | @finish w index result hw =>
          have hput : Alone { s.put w (.created false) [.finish index result] with
              caller := s.caller, results := s.results.set index (some result) } :=
                ih.put hw (.inl rfl) rfl _ _
          exact hput.next_item (List.getElem?_set_self (List.getElem?_eq_some_iff.mp hw).1)
      | fail error hw => exact ih.put hw (.inl rfl) rfl _ s.results
      | give_up hw => exact ih.put hw (.inl rfl) rfl s.caller s.results
      | swallow hw => exact hok.2.elim
      | cancel hw hcaller =>
          have hwrites : writes (s.log ++ [.cancel]) = writes s.log := by
            rw [writes_append]
            exact List.append_nil _
          refine ⟨(List.length_map _).trans ih.length_workers,
            by rw [written, hwrites]; exact ih.sorted,
            by rw [written, hwrites]; exact ih.started, ?_⟩
          intro j index cancelling hj
          rcases Pool.calling_of_steps (Pool.steps_of_step hstep) hj with
            hworker | ⟨cancelling', hold⟩
          · cases hworker
          · exact ih.last j index cancelling' hold
      | join hcaller hended => exact ⟨ih.length_workers, ih.sorted, ih.started, ih.last⟩
      | complete hcaller hdone => exact ⟨ih.length_workers, ih.sorted, ih.started, ih.last⟩

-- One worker alone has written all records in their order.
theorem written_eq_range (hone : dest.concurrency ≤ 1)
    (hr : dest.Comes py records base per_record s)
    (hback : s.caller = .returned) : written s = List.range records.length := by
  have hperm := (perm_of_returned hr hback).1
  exact hperm.eq_of_pairwise (fun a b _ _ hab hba => absurd hab (Nat.lt_asymm hba))
    (alone_of_comes hone hr).sorted
    List.pairwise_lt_range

end InOrder

section NothingWritten

def waits : Worker CallError → ℕ
  | .created _ => 1
  | _ => 0

-- Nothing is written, and no more calls can start than there are workers.
structure Unwritten (s : SendPool) : Prop where
  nothing : writes s.log = []
  room : s.next_index + (s.workers.map waits).sum ≤ s.workers.length

theorem Unwritten.next_item (h : Unwritten s) {w : ℕ} (hw : s.workers[w]? = some (.created false)) :
    Unwritten (s.next_item w) := by
  have hroom := h.room
  cases hitem : s.items[s.next_index]? with
  | none =>
      have hsum := Pool.sum_map_set waits .done hw
      simp only [waits] at hsum
      simp only [Pool.next_item, hitem]
      refine ⟨?_, ?_⟩
      · simp only [Pool.put, List.append_nil]
        exact h.nothing
      · simp only [Pool.put, List.length_set]
        omega
  | some item =>
      have hsum := Pool.sum_map_set waits (.calling s.next_index false) hw
      simp only [waits] at hsum
      simp only [Pool.next_item, hitem]
      refine ⟨?_, ?_⟩
      · simp only [Pool.put, writes_append, h.nothing]
        rfl
      · simp only [Pool.put, List.length_set]
        omega

theorem Unwritten.put (h : Unwritten s) {w : ℕ} {worker worker' : Worker CallError}
    {events : List (Event Value Unit CallError Message)} (hw : s.workers[w]? = some worker)
    (hwaits : waits worker' = 0) (hnone : writes events = []) (caller : Caller CallError) :
    Unwritten { s.put w worker' events with caller := caller } := by
  have hroom := h.room
  have hsum := Pool.sum_map_set waits worker' hw
  refine ⟨?_, ?_⟩
  · simp only [Pool.put, writes_append, h.nothing, hnone, List.append_nil]
  · simp only [Pool.put, List.length_set]
    omega

-- Where none of the records that the workers begin with can be encoded.
theorem unwritten_of_comes
    (hbad : ∀ record ∈ records.take dest.concurrency, ¬dest.Encodes py record)
    (hr : dest.Comes py records base per_record s) : Unwritten s ∧
      s.workers.length ≤ dest.concurrency := by
  have hpos := dest.concurrency_pos
  induction hr with
  | init hi =>
      subst hi
      have hstart : ∀ (caller : Caller CallError) (workers : ℕ),
          Unwritten (Pool.start caller workers records) := by
        intro caller workers
        refine ⟨rfl, ?_⟩
        simp [Pool.start, waits]
      unfold for_each_concurrently
      split
      · exact ⟨hstart .looping 1, hpos⟩
      · refine ⟨hstart .gathering _, ?_⟩
        simp only [Pool.start, List.length_replicate]
        omega
  | @step s s' action hr hok hstep ih =>
      obtain ⟨ih, hlen⟩ := ih
      have hsteps := Pool.steps_of_step hstep
      refine ⟨?_, (Pool.frame hsteps).2.trans_le hlen⟩
      have hcalling : ∀ {w index : ℕ} {cancelling : Bool}, s.workers[w]? =
        some (.calling index cancelling) →
          ∃ e, action = .fail w e := by
        intro w index cancelling hw
        obtain ⟨hitems, hcalls, _⟩ := workers_and_items hr
        obtain ⟨record, hrecord⟩ := exists_record hr hw
        have hindex : index ∈ s.calling := List.mem_filterMap.mpr ⟨_, List.mem_of_getElem? hw, rfl⟩
        have hlt := List.mem_range.mp (hcalls.once.mem_iff.mp (List.mem_append_left _ hindex))
        have hroom := ih.room
        have hmem : record ∈ records.take dest.concurrency := by
          apply List.mem_of_getElem? (i := index)
          rw [List.getElem?_take_of_lt (by omega), ← hitems]
          exact hrecord
        exact action_of_bad hok ⟨index, cancelling, record, hw, hrecord, hbad record hmem⟩
      cases hsteps with
      | resume hw => exact ih.next_item hw
      | unstarted hw => exact ih.put hw rfl rfl s.caller
      | act what hw =>
          obtain ⟨e, he⟩ := hcalling hw
          cases he
      | finish result hw =>
          obtain ⟨e, he⟩ := hcalling hw
          cases he
      | fail error hw => exact ih.put hw rfl rfl _
      | give_up hw =>
          obtain ⟨e, he⟩ := hcalling hw
          cases he
      | swallow hw => exact hok.2.elim
      | cancel hw hcaller =>
          have hsame : (s.workers.map Worker.cancel).map waits = s.workers.map waits := by
            rw [List.map_map]
            apply List.map_congr_left
            intro worker _
            cases worker <;> rfl
          refine ⟨?_, ?_⟩
          · rw [writes_append, ih.nothing]
            rfl
          · rw [hsame, List.length_map]
            exact ih.room
      | join hcaller hended => exact ⟨ih.nothing, ih.room⟩
      | complete hcaller hdone => exact ⟨ih.nothing, ih.room⟩

end NothingWritten

section FirstGood

-- The first calls have raised, one after the other, and nothing else has happened.
structure AfterBad (records : List Value) (concurrency k : ℕ) (s : SendPool) : Prop where
  items : s.items = records
  nothing : writes s.log = []
  next_index : s.next_index = k
  idle : ∀ (w index : ℕ) (cancelling : Bool), s.workers[w]? ≠ some (.calling index cancelling)
  created : ∀ w, k ≤ w → w < concurrency → w < records.length →
    s.workers[w]? = some (.created false)

-- A worker that nobody waits for takes the next record.
theorem AfterBad.calling {k : ℕ} (h : AfterBad records dest.concurrency k s)
    (hr : dest.Comes py records base per_record s)
    {record : Value} (hrecord : records[k]? = some record) (hk : k < dest.concurrency) :
    ∃ s', dest.Comes py records base per_record s' ∧ s'.items = records ∧ writes s'.log = [] ∧
      s'.next_index = k + 1 ∧
      s'.workers = s.workers.set k (.calling k false) ∧ k < s.workers.length := by
  have hw := h.created k (Nat.le_refl k) hk (List.getElem?_eq_some_iff.mp hrecord).1
  have hitem : s.items[s.next_index]? = some record := by
    rw [h.items, h.next_index]
    exact hrecord
  have hstep : s.step (.resume k) = some (s.next_item k) := by simp only [Pool.step, hw]
  have hok : dest.SendsOne py base per_record s (.resume k) :=
    ⟨fun w index cancelling _ _ hcalling => absurd hcalling (h.idle w index cancelling), trivial⟩
  refine ⟨s.next_item k, hr.step hok hstep, ?_⟩
  simp only [Pool.next_item, hitem]
  refine ⟨h.items, ?_, congrArg (· + 1) h.next_index, ?_, (List.getElem?_eq_some_iff.mp hw).1⟩
  · simp only [Pool.put, writes_append, h.nothing]
    rfl
  · simp only [Pool.put, h.next_index]

-- Then it is the only one in a call.
theorem AfterBad.only {k : ℕ} (h : AfterBad records dest.concurrency k s)
    (hworkers : s'.workers = s.workers.set k (.calling k false)) (hlt : k < s.workers.length)
    {w index : ℕ} {cancelling : Bool}
    (hw : s'.workers[w]? = some (.calling index cancelling)) : w = k ∧ index = k := by
  rw [hworkers] at hw
  by_cases hwk : k = w
  · subst hwk
    rw [List.getElem?_set_self hlt] at hw
    cases hw
    exact ⟨rfl, rfl⟩
  · rw [List.getElem?_set_ne hwk] at hw
    exact absurd hw (h.idle w index cancelling)

theorem exists_after_bad {k : ℕ} (hk : k ≤ dest.concurrency) (hlen : k ≤ records.length)
    (hbad : ∀ record ∈ records.take k, ¬dest.Encodes py record) :
    ∃ s, dest.Comes py records base per_record s ∧ AfterBad records dest.concurrency k s := by
  induction k with
  | zero =>
      refine ⟨for_each_concurrently records dest.concurrency, .init rfl, ?_⟩
      have hstart : ∀ (caller : Caller CallError) (workers : ℕ),
        min dest.concurrency records.length ≤ workers →
          AfterBad records dest.concurrency 0 (Pool.start caller workers records) := by
        intro caller workers hworkers
        refine ⟨rfl, rfl, rfl, ?_, ?_⟩
        · intro w index cancelling hw
          cases List.eq_of_mem_replicate (List.mem_of_getElem? hw)
        · intro w _ hconcurrency hlt
          exact List.getElem?_replicate_of_lt (by omega)
      unfold for_each_concurrently
      split
      · exact hstart .looping 1 (by omega)
      · exact hstart .gathering _ (Nat.le_refl _)
  | succ k ih =>
      obtain ⟨s, hr, hafter⟩ := ih (Nat.le_of_succ_le hk) (Nat.le_of_succ_le hlen)
          fun record hrecord =>
        hbad record (List.take_subset_take_left records (Nat.le_succ k) hrecord)
      have hrecord : records[k]? = some records[k] := List.getElem?_eq_getElem hlen
      obtain ⟨s', hr', hitems, hwrites, hnext, hworkers, hlt⟩ := hafter.calling hr hrecord hk
      have hnot : ¬dest.Encodes py records[k] := by
        apply hbad
        apply List.mem_of_getElem? (i := k)
        rw [List.getElem?_take_of_lt (Nat.lt_succ_self k)]
        exact hrecord
      have hw : s'.workers[k]? = some (.calling k false) := by
        rw [hworkers]
        exact List.getElem?_set_self hlt
      obtain ⟨e, he⟩ := @exists_error py dest base per_record records[k] hnot k
      have hok : dest.SendsOne py base per_record s' (.fail k (.other e)) := by
        refine ⟨?_, k, false, records[k], e, hw, by rw [hitems]; exact hrecord, he, rfl⟩
        intro w index cancelling record' e' hw' hrecord' he'
        obtain ⟨rfl, rfl⟩ := hafter.only hworkers hlt hw'
        rw [hitems, hrecord] at hrecord'
        cases hrecord'
        rw [he] at he'
        cases he'
        rfl
      have hstep : s'.step (.fail k (.other e)) =
          some { s'.put k (.failed (.other e)) [.fail k (.other e)] with
          caller := s'.caller.fail (.other e) } := by simp only [Pool.step, hw]
      refine ⟨_, hr'.step hok hstep, hitems, ?_, hnext, ?_, ?_⟩
      · simp only [Pool.put, writes_append, hwrites]
        rfl
      · intro w index cancelling hcalling
        simp only [Pool.put, hworkers, List.set_set] at hcalling
        by_cases hwk : k = w
        · subst hwk
          rw [List.getElem?_set_self hlt] at hcalling
          cases hcalling
        · rw [List.getElem?_set_ne hwk] at hcalling
          exact hafter.idle w index cancelling hcalling
      · intro w hle hconcurrency hlen'
        simp only [Pool.put, hworkers, List.set_set]
        rw [List.getElem?_set_ne (by omega)]
        exact hafter.created w (by omega) hconcurrency hlen'

-- The first record that can be encoded may be written, whatever follows it.
theorem exists_written {k : ℕ} (hk : k < dest.concurrency) {record : Value}
    (hrecord : records[k]? = some record)
    (hgood : dest.Encodes py record) (hbad : ∀ record ∈ records.take k, ¬dest.Encodes py record) :
    ∃ s out, dest.Comes py records base per_record s ∧ dest.result s.caller = some out ∧
      k ∈ written s := by
  obtain ⟨s, hr, hafter⟩ := @exists_after_bad py dest records base per_record k (Nat.le_of_lt hk)
    (Nat.le_of_lt (List.getElem?_eq_some_iff.mp hrecord).1) hbad
  obtain ⟨s', hr', hitems, hwrites, _, hworkers, hlt⟩ := hafter.calling hr hrecord hk
  obtain ⟨what, hwhat⟩ := @exists_message py dest base per_record record hgood k
  have hw : s'.workers[k]? = some (.calling k false) := by
    rw [hworkers]
    exact List.getElem?_set_self hlt
  have hnew : k ∉ written s' := by simp [written, hwrites]
  have hok : dest.SendsOne py base per_record s' (.act k what) := by
    refine ⟨?_, k, record, hw,
      by rw [hitems]; exact hrecord, hwhat, fun hgiven => hnew (mem_written_iff.mpr hgiven)⟩
    intro w index cancelling record' e' hw' hrecord' he'
    obtain ⟨rfl, rfl⟩ := hafter.only hworkers hlt hw'
    rw [hitems, hrecord] at hrecord'
    cases hrecord'
    rw [hwhat] at he'
    cases he'
  have hstep : s'.step (.act k what) = some (s'.put k (.calling k false) [.act k what]) := by
    simp only [Pool.step, hw]
  obtain ⟨last, out, hlast, hout, hextends⟩ := exists_end (hr'.step hok hstep)
  refine ⟨last, out, hlast, hout, ?_⟩
  apply (hextends.map (·.1)).subset
  simp [Pool.put, writes]

end FirstGood

end Reflowfy.KafkaDestination
