import Reflowfy.Destinations.RecordUrls

namespace Reflowfy.ApiDestination

open AsyncUtils BaseDestination TransformationRunner Interleaving

variable {py : Python} {get_client : Except Thrown Unit} {dest : ApiDestination}
    {records : List Value}

section Attempts

variable {sends : List (Option ℕ × Request) → Option (Except SendError Unit) → Prop}
    {max_attempts n : Int}
  {attempts : List (List (Option ℕ × Request))} {out : Option (Except SendError Unit)}

-- Every attempt but the last has ended in an error that is retried, and the last has ended
-- as the whole.
structure Attempted (sends : List (Option ℕ × Request) → Option (Except SendError Unit) → Prop)
    (max_attempts n : Int) (attempts : List (List (Option ℕ × Request)))
    (out : Option (Except SendError Unit)) : Prop where
  bounded : n + attempts.length ≤ max n max_attempts + 1
  earlier : ∀ made ∈ attempts.dropLast, ∃ e, retried e = true ∧ sends made (some (.error e))
  last : ∃ made, attempts.getLast? = some made ∧ sends made out
  used_up : ∀ e, out = some (.error e) → retried e = false ∨ max_attempts + 1 ≤ n + attempts.length

theorem attempted_one {made : List (Option ℕ × Request)} (h : sends made out)
    (hlast : ∀ e, out = some (.error e) → retried e = false ∨ max_attempts ≤ n) :
    Attempted sends max_attempts n [made] out where
  bounded := by
    have := Int.le_max_left n max_attempts
    simp only [List.length_singleton]
    omega
  earlier made' hmem := by cases hmem
  last := ⟨made, rfl, h⟩
  used_up e he := (hlast e he).imp_right fun hle => by
    simp only [List.length_singleton]
    omega

theorem attempted_of_send_with_retry (h : SendWithRetry sends max_attempts n attempts out) :
    Attempted sends max_attempts n attempts out := by
  induction h with
  | running h => exact attempted_one h fun _ he => by cases he
  | sent h => exact attempted_one h fun _ he => by cases he
  | raised h hlast =>
      refine attempted_one h fun e he => ?_
      cases he
      exact hlast
  | @again n made rest e out h hretried hn hrest ih =>
      obtain ⟨final, hfinal, hends⟩ := ih.last
      have hne : rest ≠ [] := fun hnil => by rw [hnil] at hfinal; cases hfinal
      refine ⟨?_, ?_, ⟨final, ?_, hends⟩, fun e' he' => (ih.used_up e' he').imp_right fun hle => ?_⟩
      · have hbounded := ih.bounded
        simp only [List.length_cons]
        omega
      · intro made' hmem
        rw [List.dropLast_cons_of_ne_nil hne] at hmem
        rcases List.mem_cons.mp hmem with rfl | hmem
        · exact ⟨e, hretried, h⟩
        · exact ih.earlier made' hmem
      · rw [List.getLast?_cons, hfinal]
        rfl
      · simp only [List.length_cons]
        omega

end Attempts

section Errors

theorem retried_of_refused {total index : ℕ} {error : SendError} (h : refused total index error) :
    retried error = true := by
  obtain ⟨response, hresponse⟩ := h
  cases response <;> cases hresponse <;> rfl

-- The errors that an action raises before anything is sent.
def Unsent {β : Type} (action : Except SendError β) : Prop := ∀ error, action = .error error →
    retried error = false

theorem unsent_bind {β γ : Type} {action : Except SendError β} {next : β → Except SendError γ}
    (h : Unsent action) (hnext : ∀ value, Unsent (next value)) : Unsent (action >>= next) := by
  intro error herror
  cases action with
  | ok value => exact hnext value error herror
  | error e =>
      cases herror
      exact h _ rfl

theorem unsent_ok {β : Type} (value : β) : Unsent (.ok value : Except SendError β) :=
  fun _ h => by cases h

theorem unsent_mapM {β γ : Type} {f : β → Except SendError γ} (h : ∀ item, Unsent (f item))
    (items : List β) :
    Unsent (items.mapM f) := by
  induction items with
  | nil => exact unsent_ok []
  | cons item items ih =>
      rw [List.mapM_cons]
      exact unsent_bind (h item) fun _ => unsent_bind ih fun _ => unsent_ok _

theorem unsent_map {β γ : Type} {action : Except SendError β} (h : Unsent action) (f : β → γ) :
    Unsent (f <$> action) := by
  cases action with
  | ok value => exact unsent_ok (f value)
  | error e =>
      intro error herror
      cases herror
      exact h _ rfl

theorem unsent_substitute {show_value : Value → List Char} {missing : List Char → SendError}
    (hmissing : ∀ field, retried (missing field) = false) (record : Value) (piece : Piece) :
    Unsent (substitute show_value missing record piece) := by
  cases piece with
  | text chars => exact unsent_ok chars
  | field field =>
      simp only [substitute]
      split
      · exact unsent_ok _
      · intro error herror
        cases herror
        exact hmissing field

theorem unsent_fill_param (name : String) (record : Value) (index : ℕ) (value : Value) :
    Unsent (fill_param py name record index value) := by
  unfold fill_param
  split
  · split
    · exact unsent_ok _
    · split
      · split
        · exact unsent_ok _
        · intro error herror
          cases herror
          rfl
      · exact unsent_map (unsent_mapM (unsent_substitute (fun _ => rfl) record) _) _
  · exact unsent_ok _

theorem unsent_own_params (record : Value) (index : ℕ) (params : Option (List (String × Value))) :
    Unsent (own_params py dest record index params) := by
  unfold own_params
  split
  · exact unsent_ok _
  · split
    · exact unsent_ok _
    · split
      · exact unsent_ok _
      · exact unsent_ok _
      · exact unsent_ok _
      · intro error herror
        cases herror
        rfl

theorem unsent_record_request (index : ℕ) (record : Value) :
    Unsent (record_request py get_client dest index record) := by
  have hurl : Unsent (record_url py dest record index) := by
    unfold record_url
    split
    · exact unsent_ok _
    · exact unsent_map (unsent_mapM (unsent_substitute (fun _ => rfl) record) _) _
  have hparams : Unsent (record_params py dest record index) := by
    refine unsent_bind ?_ fun _ => unsent_own_params record index _
    unfold static_params
    split
    · exact unsent_ok _
    · exact unsent_map (unsent_mapM
        (fun _ => unsent_map (unsent_fill_param _ record index _) _) _) _
  unfold record_request
  refine unsent_bind hurl fun _ => unsent_bind hparams fun _ => unsent_bind ?_ fun _ => unsent_ok _
  intro error herror
  cases get_client with
  | ok _ => cases herror
  | error e =>
      cases herror
      rfl

end Errors

section Requests

variable {made : List (Option ℕ × Request)} {out : Option (Except SendError Unit)}

-- The requests of the first `k` records, without those that cannot be made.
def requests (py : Python) (get_client : Except Thrown Unit) (dest : ApiDestination)
    (records : List Value) (k : ℕ) :
    List (Option ℕ × Request) :=
  ((records.zipIdx.take k).filterMap (planned (record_request py get_client dest))).map
    fun request => (some request.1, request.2)

-- What one call of `send` has done.
structure Sent (py : Python) (get_client : Except Thrown Unit) (dest : ApiDestination)
    (records : List Value)
    (made : List (Option ℕ × Request)) (out : Option (Except SendError Unit)) : Prop where
  in_order : ∃ k, made = requests py get_client dest records k
  returned : out = some (.ok ()) → made.map (·.1) = (List.range records.length).map some ∧
    ∀ index record, records[index]? = some record →
      ∃ request, record_request py get_client dest index record = .ok request
  raised : ∀ error, out = some (.error error) → ∃ index record, records[index]? = some record ∧
    (record_request py get_client dest index record = .error error ∧ retried error = false ∧
        some index ∉ made.map (·.1) ∨
      retried error = true ∧ refused records.length index error ∧ some index ∈ made.map (·.1))

theorem map_fst_requests (l : List (ℕ × Request)) :
    (l.map fun request => ((some request.1, request.2) : Option ℕ × Request)).map (·.1) =
    (l.map (·.1)).map some := by
  simp [List.map_map, Function.comp_def]

theorem not_mem_requests {index : ℕ} {record : Value} {error : SendError}
    (hrecord : records[index]? = some record)
    (h : record_request py get_client dest index record = .error error) (k : ℕ) :
    some index ∉ (requests py get_client dest records k).map (·.1) := by
  intro hmem
  rw [requests, map_fst_requests] at hmem
  obtain ⟨i, hi, heq⟩ := List.mem_map.mp hmem
  obtain rfl : i = index := Option.some.inj heq
  obtain ⟨⟨i, request⟩, hplanned, rfl⟩ := List.mem_map.mp hi
  obtain ⟨_, record', hrecord', hok⟩ := mem_planned hplanned
  rw [hrecord] at hrecord'
  cases hrecord'
  rw [h] at hok
  cases hok

theorem sent_of_sends (hper : dest.per_record = true)
    (h : Sends py get_client dest records made out) :
    Sent py get_client dest records made out := by
  cases h with
  | unable hsingle _ =>
      rw [hper] at hsingle
      cases hsingle
  | asked hsingle _ =>
      rw [hper] at hsingle
      cases hsingle
  | answered hsingle _ _ =>
      rw [hper] at hsingle
      cases hsingle
  | @per_record _ s hr =>
      obtain ⟨hitems, hcalls, hfailures, k, hacting⟩ := acting_of_for_each hr
      have horder := hacting.in_order
      rw [hitems] at horder
      refine ⟨⟨k, by rw [horder, requests]⟩, fun hok => ?_, fun error herror => ?_⟩
      · have hback : s.caller = .returned := by
          cases hcaller : s.caller <;> rw [hcaller] at hok <;> first | rfl | cases hok
        obtain ⟨hacts, hmade⟩ :=
          hacting.returned (for_each_concurrently_exact dest.concurrency_pos hr).2 hback
        rw [hitems] at hacts hmade
        exact ⟨by rw [map_fst_requests, hacts, map_planned hmade], hmade⟩
      · have hback : s.caller = .raised error := by
          cases hcaller : s.caller <;> rw [hcaller] at herror <;> cases herror
          rfl
        obtain ⟨index, record, hrecord, hunmade | ⟨⟨request, hrequest⟩, hrefused⟩⟩ :=
          hacting.raised hfailures hback
        · rw [hitems] at hrecord
          refine ⟨index, record, hrecord,
            .inl ⟨hunmade, unsent_record_request index record error hunmade, ?_⟩⟩
          rw [horder]
          exact not_mem_requests hrecord hunmade k
        · rw [hitems] at hrecord
          refine ⟨index, record, hrecord, .inr ⟨retried_of_refused hrefused, hrefused, ?_⟩⟩
          rw [map_fst_requests]
          exact List.mem_map_of_mem (List.mem_map.mpr ⟨_, hrequest, rfl⟩)

theorem sends_can_end (hper : dest.per_record = true)
    (h : Sends py get_client dest records made none) :
    ∃ made' result, Sends py get_client dest records made' (some result) ∧ made <+: made' := by
  generalize hout : (none : Option (Except SendError Unit)) = out at h
  cases h with
  | unable hsingle _ => cases hout
  | answered hsingle _ _ => cases hout
  | asked hsingle _ =>
      rw [hper] at hsingle
      cases hsingle
  | @per_record _ s hr =>
      obtain ⟨last, hlast, hends, hextends⟩ := exists_end hr
      have hmade := hextends.map fun request => ((some request.1, request.2) : Option ℕ × Request)
      rcases hends with hback | ⟨error, hback⟩
      · have hsends := Sends.per_record hper hlast
        rw [hback] at hsends
        exact ⟨_, _, hsends, hmade⟩
      · have hsends := Sends.per_record hper hlast
        rw [hback] at hsends
        exact ⟨_, _, hsends, hmade⟩

-- Per record, whatever the concurrency and the order in which answers come.
structure Requested (py : Python) (get_client : Except Thrown Unit) (dest : ApiDestination)
    (records : List Value) (attempts : List (List (Option ℕ × Request)))
    (out : Option (Except SendError Unit)) : Prop where
  bounded : (attempts.length : ℤ) ≤ max 1 dest.max_attempts
  in_order : ∀ made ∈ attempts, ∃ k, made = requests py get_client dest records k
  earlier : ∀ made ∈ attempts.dropLast, ∃ index error, refused records.length index error ∧
    some index ∈ made.map (·.1)
  returned : out = some (.ok ()) →
    (∃ made, attempts.getLast? = some made ∧
      made.map (·.1) = (List.range records.length).map some) ∧
    ∀ index record, records[index]? = some record →
      ∃ request, record_request py get_client dest index record = .ok request
  raised : ∀ error, out = some (.error error) → ∃ index record, records[index]? = some record ∧
    (record_request py get_client dest index record = .error error ∧
        (∀ made ∈ attempts, some index ∉ made.map (·.1)) ∨
      (attempts.length : ℤ) = max 1 dest.max_attempts ∧ refused records.length index error ∧
        ∃ made, attempts.getLast? = some made ∧ some index ∈ made.map (·.1))
  progress : out = none → ∃ attempts' result, send_with_retry py get_client dest records
    attempts' (some result) ∧
    attempts.flatten <+: attempts'.flatten

theorem records_requested {attempts : List (List (Option ℕ × Request))}
    (hper : dest.per_record = true) (h : send_with_retry py get_client dest records attempts out) :
      Requested py get_client dest records attempts out := by
  have hattempted := attempted_of_send_with_retry h
  obtain ⟨final, hfinal, hsends⟩ := hattempted.last
  have hsent := sent_of_sends hper hsends
  have horder : ∀ made ∈ attempts, ∃ k, made = requests py get_client dest records k := by
    intro made hmem
    obtain ⟨out, hsends⟩ := SendWithRetry.of_mem h hmem
    exact (sent_of_sends hper hsends).in_order
  have hbounded : (attempts.length : ℤ) ≤ max 1 dest.max_attempts := by
    have := hattempted.bounded
    omega
  refine ⟨hbounded, horder, ?_, ?_, ?_, fun hout => ?_⟩
  · intro made hmem
    obtain ⟨error, hretried, hsends⟩ := hattempted.earlier made hmem
    obtain ⟨index, record, _, ⟨_, hnot, _⟩ | ⟨_, hrefused, hmade⟩⟩ :=
      (sent_of_sends hper hsends).raised error rfl
    · rw [hretried] at hnot
      cases hnot
    · exact ⟨index, error, hrefused, hmade⟩
  · intro hok
    obtain ⟨hall, hmade⟩ := hsent.returned hok
    exact ⟨⟨final, hfinal, hall⟩, hmade⟩
  · intro error herror
    obtain ⟨index, record, hrecord, ⟨hunmade, _, _⟩ | ⟨hretried, hrefused, hmem⟩⟩ :=
      hsent.raised error herror
    · refine ⟨index, record, hrecord, .inl ⟨hunmade, fun made hmade => ?_⟩⟩
      obtain ⟨k, rfl⟩ := horder made hmade
      exact not_mem_requests hrecord hunmade k
    · refine ⟨index, record, hrecord, .inr ⟨?_, hrefused, final, hfinal, hmem⟩⟩
      rcases hattempted.used_up error herror with hnot | hused
      · rw [hretried] at hnot
        cases hnot
      · have hpos : 0 < attempts.length := List.length_pos_of_mem (List.mem_of_getLast? hfinal)
        omega
  · subst hout
    exact h.exists_end fun _ => sends_can_end hper

section One

variable {record : Value} {request : Request}

-- The pool of a single record, whose worker stands at `worker`.
def one_record (record : Value) (next_index : ℕ) (worker : Worker SendError)
    (results : List (Option Unit))
    (caller : Caller SendError) (log : List (Event Value Unit SendError Request)) : RequestPool :=
  ⟨[record], next_index, [worker], results, caller, log⟩

theorem idle_worker {next_index : ℕ} (worker : Worker SendError) {results : List (Option Unit)}
    {caller : Caller SendError} {log : List (Event Value Unit SendError Request)}
    (hidle : worker.index = none) {w index : ℕ} {cancelling : Bool} :
    (one_record record next_index worker results caller log).workers[w]? ≠
    some (.calling index cancelling) := by
  intro h
  cases w with
  | zero =>
      cases h
      cases hidle
  | succ w => cases h

-- A single record's request is made, whatever comes of it.
theorem acting_one (hrequest : record_request py get_client dest 0 record = .ok request) :
    Reach Pool.step (· = one_record record 0 (.created false) [none] .gathering [])
      (ActsAtOnce (record_request py get_client dest) (refused 1))
      (one_record record 1 (.calling 0 false) [none] .gathering
        [.start 0 record, .act 0 request]) := by
  have hstarted : Reach Pool.step (· = one_record record 0 (.created false) [none] .gathering [])
      (ActsAtOnce (record_request py get_client dest) (refused 1))
      (one_record record 1 (.calling 0 false) [none] .gathering [.start 0 record]) :=
    .step (e := .resume 0) (.init rfl)
      ⟨fun w _ _ _ hw => absurd hw (idle_worker _ rfl), trivial⟩ rfl
  refine .step (e := .act 0 request) hstarted
    ⟨fun w index cancelling item hw hitem _ => ?_, 0, rfl, Bool.false_ne_true⟩ rfl
  cases w with
  | zero =>
      cases hw
      cases hitem
      rw [hrequest]
  | succ w => cases hw

theorem sends_one (hper : dest.per_record = true) (hmany : 1 < dest.concurrency)
    (hrequest : record_request py get_client dest 0 record = .ok request) :
    Sends py get_client dest [record] [(some 0, request)] (some (.ok ())) ∧
      ∀ error, refused 1 0 error → Sends py get_client dest [record] [(some 0, request)]
        (some (.error error)) := by
  have hstart : (for_each_concurrently [record] dest.concurrency : RequestPool) =
      one_record record 0 (.created false) [none] .gathering [] := by
    rw [for_each_concurrently, if_neg (Nat.not_le.mpr hmany), List.length_singleton,
      Nat.min_eq_right (Nat.le_of_lt hmany)]
    rfl
  have hacting := acting_one hrequest
  rw [← hstart] at hacting
  have hacted : ∀ (w index : ℕ) (cancelling : Bool) (item : Value),
      (one_record record 1 (.calling 0 false) [none] .gathering
        [.start 0 record, .act 0 request]).workers[w]? =
        some (Worker.calling index cancelling) → [record][index]? = some item →
      ([.start 0 record, .act 0 request] : List (Event Value Unit SendError Request)).any
          (acted index) = true := by
    intro w index cancelling item hw _
    cases w with
    | zero =>
        cases hw
        rfl
    | succ w => cases hw
  constructor
  · have hfinished := hacting.step (e := Action.finish 0 ())
      ⟨fun w index c item hw hitem hnot => absurd (hacted w index c item hw hitem)
        hnot, trivial⟩ rfl
    exact Sends.per_record hper (hfinished.step (e := Action.complete)
      ⟨fun w _ _ _ hw => absurd hw (idle_worker .done rfl), trivial⟩ rfl)
  · intro error hrefused
    have hfailed := hacting.step (e := Action.fail 0 error)
      ⟨fun w index c item hw hitem hnot => absurd (hacted w index c item hw hitem) hnot,
        0, false, record, rfl, rfl, .inr ⟨rfl, hrefused⟩⟩ rfl
    have hcancelled := hfailed.step (e := Action.cancel 0)
      ⟨fun w _ _ _ hw => absurd hw (idle_worker (.failed error) rfl), trivial⟩ rfl
    exact Sends.per_record hper (hcancelled.step (e := Action.join)
      ⟨fun w _ _ _ hw => absurd hw (idle_worker (.failed error) rfl), trivial⟩ rfl)

end One

-- A service that is down for the first attempt has the request twice.
theorem records_requested_users :
    let record : Value := .dict [(.str "user_id", .int 7), (.str "version", .int 1)]
    let made : List (Option ℕ × Request) :=
      [(some 0, ⟨"PUT", "https://api.example.com/users/7",
        some [("version", .int 1)], .json record⟩)]
    send_with_retry users_python (.ok ()) users_api [record] [made, made] (some (.ok ())) ∧
      Requested users_python (.ok ()) users_api [record] [made, made] (some (.ok ())) := by
  intro record made
  have hrequest : record_request users_python (.ok ()) users_api 0 record =
      .ok ⟨"PUT", "https://api.example.com/users/7", some [("version", .int 1)],
        .json record⟩ := by rfl
  have hmany : 1 < users_api.concurrency := by decide
  obtain ⟨hok, hrefused⟩ := sends_one rfl hmany hrequest
  have hdown := hrefused _ ⟨.HTTPStatusError 503 "busy" ⟨"HTTPStatusError", "503"⟩, rfl⟩
  have hruns : send_with_retry users_python (.ok ()) users_api [record] [made, made]
      (some (.ok ())) :=
    .again hdown rfl (by decide) (.sent hok)
  exact ⟨hruns, records_requested rfl hruns⟩

end Requests

end Reflowfy.ApiDestination
