import Reflowfy.Destinations.SendRuns
import Mathlib.Data.Nat.Find

namespace Reflowfy.KafkaDestination

open AsyncUtils BaseDestination TransformationRunner Interleaving

variable {py : Python} {dest : KafkaDestination} {records : List Value}
    {metadata : List (String × Value)}
  {written : List (ℕ × Message)} {out : Option (Except SendError Unit)}

section Send

-- What a call of `send` has done, its headers built.
theorem sends_iff {per_record : Option (List Headers)}
    (hheaders : dest.build_headers py records (base_headers metadata) = .ok per_record) :
    dest.Sends py (.ok ()) records metadata written out ↔
      ∃ s, dest.Comes py records (base_headers metadata) per_record s ∧ written = writes s.log ∧
        out = dest.result s.caller := by
  simp only [Sends, hheaders]
  exact Iff.rfl

theorem sends_iff_of_error {e : SendError}
    (hheaders : dest.build_headers py records (base_headers metadata) = .error e) :
    dest.Sends py (.ok ()) records metadata written out ↔ written = [] ∧ out = some (.error e) := by
  simp only [Sends, hheaders]

theorem caller_of_result {caller : Caller CallError} {result : Except SendError Unit}
    (h : dest.result caller = some result) :
    caller = .returned ∧ result = .ok () ∨ ∃ e, caller = .raised e ∧
      result = .error (dest.wrap e) := by
  cases caller with
  | returned => exact .inl ⟨rfl, (Option.some.inj h).symm⟩
  | raised e => exact .inr ⟨e, rfl, (Option.some.inj h).symm⟩
  | looping => cases h
  | gathering => cases h
  | joining _ => cases h

theorem retried_wrap (e : CallError) : retried (dest.wrap e) = true := by
  cases e <;> rfl

theorem nodup_of_sends (h : dest.Sends py (.ok ()) records metadata written out) :
    (written.map (·.1)).Nodup := by
  cases hheaders : dest.build_headers py records (base_headers metadata) with
  | error e =>
      rw [((sends_iff_of_error hheaders).mp h).1]
      exact List.nodup_nil
  | ok per_record =>
      obtain ⟨s, hr, rfl, _⟩ := (sends_iff hheaders).mp h
      exact (sending_of_comes hr).nodup

theorem exists_end_of_sends (h : dest.Sends py (.ok ()) records metadata written none) :
    ∃ more result, dest.Sends py (.ok ()) records metadata (written ++ more) (some result) := by
  cases hheaders : dest.build_headers py records (base_headers metadata) with
  | error e => cases ((sends_iff_of_error hheaders).mp h).2
  | ok per_record =>
      obtain ⟨s, hr, rfl, _⟩ := (sends_iff hheaders).mp h
      obtain ⟨s', result, hr', hresult, more, hmore⟩ := exists_end hr
      exact ⟨more, result, (sends_iff hheaders).mpr ⟨s', hr', hmore, hresult.symm⟩⟩

-- A call of `send` that does not raise has written every record.
theorem perm_of_sends (h : dest.Sends py (.ok ()) records metadata written (some (.ok ()))) :
    (written.map (·.1)).Perm (List.range records.length) ∧
      (dest.concurrency = 1 → written.map (·.1) = List.range records.length) ∧
      ∀ record ∈ records, dest.Encodes py record := by
  cases hheaders : dest.build_headers py records (base_headers metadata) with
  | error e => cases ((sends_iff_of_error hheaders).mp h).2
  | ok per_record =>
      obtain ⟨s, hr, rfl, hresult⟩ := (sends_iff hheaders).mp h
      rcases caller_of_result hresult.symm with ⟨hback, _⟩ | ⟨e, _, herror⟩
      · obtain ⟨hperm, hall⟩ := perm_of_returned hr hback
        exact ⟨hperm, fun hone => written_eq_range (Nat.le_of_eq hone) hr hback, hall⟩
      · cases herror

-- One that raises, its headers built, has come to a record that cannot be encoded.
theorem not_encodes_of_sends {per_record : Option (List Headers)} {e : SendError}
    (hheaders : dest.build_headers py records (base_headers metadata) = .ok per_record)
    (h : dest.Sends py (.ok ()) records metadata written (some (.error e))) :
      ∃ record ∈ records, ¬dest.Encodes py record := by
  obtain ⟨s, hr, _, hresult⟩ := (sends_iff hheaders).mp h
  rcases caller_of_result hresult.symm with ⟨_, hok⟩ | ⟨e', hback, _⟩
  · cases hok
  · exact not_encodes_of_raised hr hback

theorem own_of_sends (h : dest.Sends py (.ok ()) records metadata written out) : ∀ m ∈ written,
    ∃ per_record record, dest.build_headers py records (base_headers metadata) = .ok per_record ∧
      records[m.1]? = some record ∧
        dest.message py (base_headers metadata) per_record m.1 record = .ok m.2 := by
  cases hheaders : dest.build_headers py records (base_headers metadata) with
  | error e =>
      rw [((sends_iff_of_error hheaders).mp h).1]
      intro m hm
      cases hm
  | ok per_record =>
      obtain ⟨s, hr, rfl, _⟩ := (sends_iff hheaders).mp h
      intro m hm
      obtain ⟨record, hrecord, hmessage⟩ := (sending_of_comes hr).own m.1 m.2 hm
      rw [(workers_and_items hr).1] at hrecord
      exact ⟨per_record, record, rfl, hrecord, hmessage⟩

end Send

-- Attempts that write nothing.
theorem written_eq_nil
    (hnil : ∀ written out, dest.Sends py (.ok ()) records metadata written out → written = [])
    (h : dest.send_with_retry py records metadata written out) : written = [] := by
  obtain ⟨attempts, hattempts, rfl⟩ := h
  refine List.flatten_eq_nil_iff.mpr fun written hwritten => ?_
  obtain ⟨out, hsends⟩ := hattempts.of_mem hwritten
  exact hnil written out hsends

-- One attempt, which no error leads on from.
theorem nodup_of_single
    (hlast : ∀ written e, dest.Sends py (.ok ()) records metadata written (some (.error e)) →
      retried e = false ∨ dest.max_attempts ≤ 1)
    (h : dest.send_with_retry py records metadata written out) : (written.map (·.1)).Nodup := by
  obtain ⟨attempts, hattempts, rfl⟩ := h
  obtain ⟨written, rfl, hsends⟩ := hattempts.single hlast
  rw [List.flatten_singleton]
  exact nodup_of_sends hsends

-- What `send_with_retry` does with the records, good and bad ones.
structure NoMultipliedWrites (py : Python) (dest : KafkaDestination) (records : List Value)
    (metadata : List (String × Value)) :
    Prop where
  at_most_once : ∀ written out, dest.send_with_retry py records metadata written out →
    (written.map (·.1)).Nodup
  own_message : ∀ written out, dest.send_with_retry py records metadata written out → ∀ m ∈ written,
    ∃ per_record record, dest.build_headers py records (base_headers metadata) = .ok per_record ∧
      records[m.1]? = some record ∧
        dest.message py (base_headers metadata) per_record m.1 record = .ok m.2
  exactly_once : ∀ per_record, dest.build_headers py records
    (base_headers metadata) = .ok per_record →
    (∀ record ∈ records, dest.Encodes py record) → ∀ written result,
      dest.send_with_retry py records metadata written (some result) → result = .ok () ∧
        (written.map (·.1)).Perm (List.range records.length) ∧
        (dest.concurrency = 1 → written.map (·.1) = List.range records.length)
  bad_headers : ∀ e, dest.build_headers py records (base_headers metadata) =
    .error e → ∀ written out,
    dest.send_with_retry py records metadata written out → written = [] ∧ out = some (.error e)
  bad_value : (∃ record ∈ records, ¬dest.Encodes py record) → ∀ written result,
    dest.send_with_retry py records metadata written (some result) → ∃ e, result = .error e
  ends : ∀ written, dest.send_with_retry py records metadata written none → ∃ more result,
    dest.send_with_retry py records metadata (written ++ more) (some result)

-- All but the first holds of every list of records.
theorem no_multiplied_writes_of_nodup
    (h : ∀ written out, dest.send_with_retry py records metadata written out →
      (written.map (·.1)).Nodup) :
    NoMultipliedWrites py dest records metadata where
  at_most_once := h
  own_message written out hruns := by
    obtain ⟨attempts, hattempts, rfl⟩ := hruns
    intro m hm
    obtain ⟨made, hmade, hm⟩ := List.mem_flatten.mp hm
    obtain ⟨_, hsends⟩ := hattempts.of_mem hmade
    exact own_of_sends hsends m hm
  exactly_once per_record hheaders hall written result hruns := by
    have honce : ∀ written e, dest.Sends py (.ok ()) records metadata written
        (some (.error e)) → False := by
      intro written e hsends
      obtain ⟨record, hrecord, hnot⟩ := not_encodes_of_sends hheaders hsends
      exact hnot (hall record hrecord)
    obtain ⟨attempts, hattempts, rfl⟩ := hruns
    obtain ⟨written, rfl, hsends⟩ := hattempts.single fun written e hsends =>
      (honce written e hsends).elim
    rw [List.flatten_singleton]
    cases result with
    | error e => exact (honce written e hsends).elim
    | ok _ =>
        obtain ⟨hperm, horder, _⟩ := perm_of_sends hsends
        exact ⟨rfl, hperm, horder⟩
  bad_headers e hheaders written out hruns := by
    have hwritten := written_eq_nil
      (fun _ _ hsends => ((sends_iff_of_error hheaders).mp hsends).1) hruns
    obtain ⟨attempts, hattempts, -⟩ := hruns
    obtain ⟨last, hlast⟩ := hattempts.exists_last
    exact ⟨hwritten, ((sends_iff_of_error hheaders).mp hlast).2⟩
  bad_value hbad written result hruns := by
    obtain ⟨record, hrecord, hnot⟩ := hbad
    cases result with
    | error e => exact ⟨e, rfl⟩
    | ok _ =>
        obtain ⟨attempts, hattempts, -⟩ := hruns
        obtain ⟨last, hlast⟩ := hattempts.exists_last
        exact absurd ((perm_of_sends hlast).2.2 record hrecord) hnot
  ends written hruns := by
    obtain ⟨attempts, hattempts, rfl⟩ := hruns
    obtain ⟨attempts', result, hends, more, hmore⟩ := hattempts.exists_end fun written hsends => by
      obtain ⟨more, result, hends⟩ := exists_end_of_sends hsends
      exact ⟨_, result, hends, List.prefix_append ..⟩
    exact ⟨more, result, attempts', hends, hmore⟩

-- A record that was written before the bad one raised is written again with every attempt.
theorem exists_multiplied {per_record : Option (List Headers)}
    (hheaders : dest.build_headers py records (base_headers metadata) = .ok per_record)
    (hbad : ∃ record ∈ records, ¬dest.Encodes py record) (hretries : 1 < dest.max_attempts)
    (hgood : ∃ record ∈ records.take dest.concurrency, dest.Encodes py record) :
    ∃ written e, dest.send_with_retry py records metadata written (some (.error e)) ∧
      ¬(written.map (·.1)).Nodup := by
  have hfirst : ∃ k < dest.concurrency, ∃ record, records[k]? = some record ∧
      dest.Encodes py record := by
    obtain ⟨record, hmem, hencodes⟩ := hgood
    obtain ⟨k, hk⟩ := List.mem_iff_getElem?.mp hmem
    have hlt := (List.getElem?_eq_some_iff.mp hk).1
    rw [List.length_take] at hlt
    rw [List.getElem?_take_of_lt (by omega)] at hk
    exact ⟨k, by omega, record, hk, hencodes⟩
  classical
  obtain ⟨hlt, record, hrecord, hencodes⟩ := Nat.find_spec hfirst
  have hmin : ∀ record ∈ records.take (Nat.find hfirst), ¬dest.Encodes py record := by
    intro record hmem hencodes
    obtain ⟨j, hj⟩ := List.mem_iff_getElem?.mp hmem
    have hjlt := (List.getElem?_eq_some_iff.mp hj).1
    rw [List.length_take] at hjlt
    rw [List.getElem?_take_of_lt (by omega)] at hj
    exact Nat.find_min hfirst (by omega : j < _) ⟨by omega, record, hj, hencodes⟩
  obtain ⟨s, result, hr, hresult, hmem⟩ := @exists_written py dest records (base_headers metadata)
    per_record _ hlt record hrecord
    hencodes hmin
  have hsends : dest.Sends py (.ok ()) records metadata (writes s.log) (some result) :=
    (sends_iff hheaders).mpr ⟨s, hr, rfl, hresult.symm⟩
  rcases caller_of_result hresult with ⟨hback, _⟩ | ⟨e, _, rfl⟩
  · obtain ⟨record, hrecord, hnot⟩ := hbad
    exact absurd ((perm_of_returned hr hback).2 record hrecord) hnot
  · obtain ⟨more, hmore⟩ := SendWithRetry.repeats hsends 2
    refine ⟨_, _, ⟨_, .again hsends (retried_wrap e) hretries hmore, rfl⟩, fun hnodup => ?_⟩
    rw [List.flatten_cons, List.flatten_cons, List.map_append, List.map_append] at hnodup
    exact (List.nodup_append.mp hnodup).2.2 _ hmem _ (List.mem_append_left _ hmem) rfl

theorem no_multiplied_writes_iff (py : Python) (dest : KafkaDestination) (records : List Value)
    (metadata : List (String × Value)) :
    NoMultipliedWrites py dest records metadata ↔
      (∃ e, dest.build_headers py records (base_headers metadata) = .error e) ∨
      (∀ record ∈ records, dest.Encodes py record) ∨ dest.max_attempts ≤ 1 ∨
      ∀ record ∈ records.take dest.concurrency, ¬dest.Encodes py record := by
  constructor
  · intro h
    by_contra hnot
    push Not at hnot
    obtain ⟨hheaders, hbad, hretries, hgood⟩ := hnot
    cases hbuilt : dest.build_headers py records (base_headers metadata) with
    | error e => exact hheaders e hbuilt
    | ok per_record =>
        obtain ⟨written, e, hruns, hmultiplied⟩ := exists_multiplied hbuilt hbad (by omega) hgood
        exact hmultiplied (h.at_most_once _ _ hruns)
  · intro hwhen
    apply no_multiplied_writes_of_nodup
    intro written out hruns
    rcases hwhen with ⟨e, hheaders⟩ | hall | hlast | hbad
    · have hnil := written_eq_nil
        (fun _ _ hsends => ((sends_iff_of_error hheaders).mp hsends).1) hruns
      rw [hnil]
      exact List.nodup_nil
    · cases hbuilt : dest.build_headers py records (base_headers metadata) with
      | error e =>
          have hnil := written_eq_nil
            (fun _ _ hsends => ((sends_iff_of_error hbuilt).mp hsends).1) hruns
          rw [hnil]
          exact List.nodup_nil
      | ok per_record =>
          refine nodup_of_single (fun written e hsends => ?_) hruns
          obtain ⟨record, hrecord, hnot⟩ := not_encodes_of_sends hbuilt hsends
          exact absurd (hall record hrecord) hnot
    · exact nodup_of_single (fun _ _ _ => .inr hlast) hruns
    · have hnil : written = [] := by
        refine written_eq_nil (fun written out hsends => ?_) hruns
        cases hbuilt : dest.build_headers py records (base_headers metadata) with
        | error e => exact ((sends_iff_of_error hbuilt).mp hsends).1
        | ok per_record =>
            obtain ⟨s, hr, rfl, _⟩ := (sends_iff hbuilt).mp hsends
            exact (unwritten_of_comes hbad hr).1.nothing
      rw [hnil]
      exact List.nodup_nil

def topic_python : Python where
  str _ := ""
  repr text := "'" ++ text ++ "'"
  type_name _ := "datetime"
  key_type_name _ := "int"
  is_word c := c.isAlphanum || c = '_'
  dumps
    | .dict [(.str "ok", .int 1)] => .ok "\x7b\"ok\": 1\x7d"
    | _ => .error ⟨"TypeError", "Object of type datetime is not JSON serializable"⟩

def orders_topic : KafkaDestination where
  topic := "orders"
  key_field := none
  concurrency := 1
  headers_fn := none
  static_headers := none
  max_attempts := 3
  concurrency_pos := Nat.le_refl 1

-- The second record holds a datetime, and the first is written with every attempt.
theorem datetime_multiplies_writes : ¬NoMultipliedWrites topic_python orders_topic
    [.dict [(.str "ok", .int 1)],
      .dict [(.str "when", .other "datetime.datetime(2024, 1, 1, 0, 0)")]] [] := by
  intro h
  have hbad : ∃ record ∈ [Value.dict [(.str "ok", .int 1)],
      .dict [(.str "when", .other "datetime.datetime(2024, 1, 1, 0, 0)")]],
          ¬orders_topic.Encodes topic_python record := by
    refine ⟨_, List.mem_cons_of_mem _ List.mem_cons_self, ?_⟩
    rintro ⟨text, htext⟩
    cases htext
  have hgood : ∃ record ∈ List.take orders_topic.concurrency [Value.dict [(.str "ok", .int 1)],
      .dict [(.str "when", .other "datetime.datetime(2024, 1, 1, 0, 0)")]],
          orders_topic.Encodes topic_python record :=
    ⟨_, List.mem_cons_self, _, rfl⟩
  obtain ⟨written, e, hruns, hmultiplied⟩ := @exists_multiplied topic_python orders_topic _
    [] none rfl hbad (by decide) hgood
  exact hmultiplied (h.at_most_once _ _ hruns)

end Reflowfy.KafkaDestination
