import Reflowfy.RunRequests
import Reflowfy.Planning.Resolution

namespace Reflowfy.RunRequests

open Interleaving

variable {S : Type} {py : Python} {eq : Value → Value → Bool} {registry : Registry S}

section Store

variable {store : Store} {i j : TaskId} {execution_id : String} {row : Execution}
    {by_request : Option TaskId}

namespace Store

-- How often a row of this id has been inserted, and deleted.
def inserts (store : Store) (execution_id : String) : ℕ :=
  (store.inserted.map Insert.execution_id).count execution_id

def deletes (store : Store) (execution_id : String) : ℕ := store.deleted.count execution_id

-- The rows and the background tasks that are from request `i`.
def rows_of (store : Store) (i : TaskId) : List Insert := store.inserted.filter fun entry =>
    entry.by_request = some i

def tasks_of (store : Store) (i : TaskId) : List Dispatch :=
  (store.tasks.filter fun task => task.1 = i).map Prod.snd

theorem executions_insert (id : String) : (store.insert execution_id row by_request).executions id =
    if id = execution_id then some row else store.executions id := Function.update_apply ..

theorem executions_delete (id : String) : (store.delete execution_id).executions id =
    if id = execution_id then none else store.executions id := Function.update_apply ..

theorem inserts_insert (id : String) : (store.insert execution_id row by_request).inserts id =
    store.inserts id + if id = execution_id then 1 else 0 := by
  simp only [inserts, insert, List.map_append, List.count_append, List.map_singleton,
    List.count_singleton, beq_iff_eq,
    @eq_comm _ execution_id]

theorem deletes_delete (id : String) : (store.delete execution_id).deletes id =
    store.deletes id + if id = execution_id then 1 else 0 := by
  simp only [deletes, delete, List.count_append, List.count_singleton, beq_iff_eq,
    @eq_comm _ execution_id]

@[simp] theorem inserts_delete (id : String) :
    (store.delete execution_id).inserts id = store.inserts id := rfl

theorem rows_of_insert : (store.insert execution_id row by_request).rows_of i =
    store.rows_of i ++ if by_request = some i then [⟨execution_id, row, by_request⟩] else [] := by
  rw [rows_of, insert, List.filter_append, ← rows_of]
  by_cases h : by_request = some i <;> simp [h]

theorem tasks_of_add_task (dispatch : Dispatch) : (store.add_task j dispatch).tasks_of i =
    store.tasks_of i ++ if j = i then [dispatch] else [] := by
  rw [tasks_of, add_task, List.filter_append, List.map_append, ← tasks_of]
  by_cases h : j = i <;> simp [h]

end Store

-- A row is there iff it was inserted once more than deleted, and it is one that was inserted.
structure Counted (store : Store) : Prop where
  balance : ∀ id, store.inserts id = store.deletes id + (store.executions id).toList.length
  content : ∀ id row, store.executions id = some row →
    ∃ entry ∈ store.inserted, entry.execution_id = id ∧ entry.row = row

theorem Counted.insert (h : Counted store)
    (hfree : store.executions execution_id = none) (row : Execution)
    (by_request : Option TaskId) : Counted (store.insert execution_id row by_request) where
  balance id := by
    have hid := h.balance id
    rw [Store.inserts_insert, hid, Store.executions_insert]
    by_cases heq : id = execution_id
    · subst heq
      simp [hfree, Store.deletes, Store.insert]
    · simp [heq, Store.deletes, Store.insert]
  content id row' hrow := by
    rw [Store.executions_insert] at hrow
    by_cases heq : id = execution_id
    · rw [if_pos heq] at hrow
      exact ⟨⟨execution_id, row, by_request⟩,
        List.mem_append_right _ (List.mem_singleton_self _), heq.symm,
        Option.some.inj hrow⟩
    · rw [if_neg heq] at hrow
      obtain ⟨entry, hentry, hid⟩ := h.content id row' hrow
      exact ⟨entry, List.mem_append_left _ hentry, hid⟩

theorem Counted.delete (h : Counted store) (hthere : (store.executions execution_id).isSome) :
    Counted (store.delete execution_id) where
  balance id := by
    have hid := h.balance id
    rw [Store.deletes_delete, Store.executions_delete]
    by_cases heq : id = execution_id
    · subst heq
      obtain ⟨row, hrow⟩ := Option.isSome_iff_exists.mp hthere
      rw [hrow] at hid
      simpa using hid
    · simpa [heq] using hid
  content id row hrow := by
    rw [Store.executions_delete] at hrow
    by_cases heq : id = execution_id
    · rw [if_pos heq] at hrow
      cases hrow
    · rw [if_neg heq] at hrow
      exact h.content id row hrow

theorem Counted.add_task (h : Counted store) (dispatch : Dispatch) :
    Counted (store.add_task i dispatch) := ⟨h.balance, h.content⟩

-- A row that is there and not from this request is from somewhere else.
theorem Counted.elsewhere (h : Counted store) (hthere : (store.executions execution_id).isSome)
    (hrows : store.rows_of i = []) :
    ∃ entry ∈ store.inserted, entry.execution_id = execution_id ∧ entry.by_request ≠ some i := by
  obtain ⟨row, hrow⟩ := Option.isSome_iff_exists.mp hthere
  obtain ⟨entry, hentry, hid, -⟩ := h.content execution_id row hrow
  refine ⟨entry, hentry, hid, fun hown => ?_⟩
  have hmem : entry ∈ store.rows_of i := List.mem_filter.mpr ⟨hentry, decide_eq_true hown⟩
  rw [hrows] at hmem
  cases hmem

end Store

section Calls

variable {store store' : Store} {i j : TaskId} {call : Call} {stage : Stage}

-- The row that call `i` inserts.
def Call.own (call : Call) (i : TaskId) : Insert := ⟨call.execution_id, call.row, some i⟩

-- The params with which the pipeline will be resolved have been checked.
def Call.Checked (py : Python) (eq : Value → Value → Bool) (registry : Registry S)
    (call : Call) : Prop :=
  ∃ pipeline params, registry.get call.request.pipeline_name = some pipeline ∧
    pipeline.checked_params py eq call.request.params = .ok params

-- What call `i` has done, at each stage.
def Done (py : Python) (eq : Value → Value → Bool) (registry : Registry S) (store : Store)
    (i : TaskId) (call : Call) : Prop :=
  match call.stage with
  | .checked => call.Checked py eq registry ∧ store.rows_of i = [] ∧ store.tasks_of i = []
  | .absent => call.Checked py eq registry ∧ store.rows_of i = [] ∧ store.tasks_of i = []
  | .created => call.Checked py eq registry ∧ store.rows_of i = [call.own i] ∧ store.tasks_of i = []
  | .answered (.accepted execution_id pipeline_name) =>
      (execution_id = call.execution_id ∧ pipeline_name = call.request.pipeline_name) ∧
        call.Checked py eq registry ∧ store.rows_of i = [call.own i] ∧
          store.tasks_of i = [call.dispatch]
  | .answered (.error status_code _) =>
      store.tasks_of i = [] ∧
        (status_code < 500 ∧ store.rows_of i = [] ∧
            (status_code = 409 → ∃ entry ∈ store.inserted, entry.execution_id = call.execution_id ∧
              entry.by_request ≠ some i) ∨
          status_code = 500 ∧ (store.rows_of i = [] ∨ store.rows_of i = [call.own i]))
  | .crashed => store.tasks_of i = [] ∧ (store.rows_of i = [] ∨ store.rows_of i = [call.own i])
  | _ => store.rows_of i = [] ∧ store.tasks_of i = []

structure Asserts (py : Python) (eq : Value → Value → Bool) (registry : Registry S)
    (store : Store) (i : TaskId) (call : Call) : Prop where
  done : Done py eq registry store i call
  -- an id that was asked for is the one it has, from the manager on
  id : call.stage ≠ .idle → call.stage ≠ .posted → ∀ execution_id, call.request.execution_id =
    some execution_id →
    execution_id ≠ "" → call.execution_id = execution_id
  heard : ∀ answer, call.outcome = some (.response answer) → call.stage = .answered answer
  quiet : call.stage = .idle → call.outcome = none

-- What others do leaves all of that as it is.
theorem Done.stable (h : Done py eq registry store i call)
    (hrows : store'.rows_of i = store.rows_of i) (htasks : store'.tasks_of i = store.tasks_of i)
    (hinserted : ∀ entry ∈ store.inserted, entry ∈ store'.inserted) :
    Done py eq registry store' i call := by
  unfold Done at h ⊢
  rw [hrows, htasks]
  split at h
  · exact h
  · exact h
  · exact h
  · exact h
  · refine ⟨h.1, h.2.imp_left fun hrefused => ⟨hrefused.1, hrefused.2.1, fun hcode => ?_⟩⟩
    obtain ⟨entry, hentry, helse⟩ := hrefused.2.2 hcode
    exact ⟨entry, hinserted entry hentry, helse⟩
  · exact h
  · exact h

theorem Asserts.stable (h : Asserts py eq registry store i call)
    (hrows : store'.rows_of i = store.rows_of i) (htasks : store'.tasks_of i = store.tasks_of i)
    (hinserted : ∀ entry ∈ store.inserted, entry ∈ store'.inserted) :
    Asserts py eq registry store' i call :=
  ⟨h.done.stable hrows htasks hinserted, h.id, h.heard, h.quiet⟩

theorem Asserts.next (h : Asserts py eq registry store i call) (hhandling : call.handling = true)
    (hidle : stage ≠ .idle) (hdone : Done py eq registry store' i { call with stage }) :
    Asserts py eq registry store' i { call with stage } where
  done := hdone
  id _ _ := by
    refine h.id ?_ ?_
    · intro hstage
      simp [Call.handling, hstage] at hhandling
    · intro hstage
      simp [Call.handling, hstage] at hhandling
  heard answer hanswer := by
    have hstage := h.heard answer hanswer
    simp [Call.handling, hstage] at hhandling
  quiet hstage := absurd hstage hidle

-- The checks end in a refusal, or the params have been checked.
theorem check_cases (py : Python) (eq : Value → Value → Bool)
    (registry : Registry S) (call : Call) :
    (call.check py eq registry = .checked ∧ call.Checked py eq registry) ∨
      ∃ status_code detail, call.check py eq registry = .answered (.error status_code detail) ∧
        (status_code < 500 ∧ status_code ≠ 409 ∨ status_code = 500) := by
  unfold Call.check
  split
  · exact .inr ⟨404, _, rfl, .inl (by decide)⟩
  · rename_i pipeline hpipeline
    split
    · exact .inr ⟨500, _, rfl, .inr rfl⟩
    · rename_i params hparams
      split
      · exact .inr ⟨500, _, rfl, .inr rfl⟩
      · rename_i hnone
        refine .inl ⟨rfl, pipeline, params, hpipeline, ?_⟩
        simp only [PipelineClass.checked_params, hparams, hnone]
      · exact .inr ⟨422, _, rfl, .inl (by decide)⟩

-- What a statement of the handler leaves: nothing, a new row of its own, or its own task.
inductive Effect (i : TaskId) (call : Call) (store : Store) : Store → Prop
  | none : Effect i call store store
  | insert (hfree : store.executions call.execution_id = none) :
      Effect i call store (store.insert call.execution_id call.row (some i))
  | add_task : Effect i call store (store.add_task i call.dispatch)

theorem go_done (hcounted : Counted store) (h : Asserts py eq registry store i call)
    {fault : Option Fault} (hgo : call.go py eq registry i store fault = some (store', stage)) :
    call.handling = true ∧ stage ≠ .idle ∧ Effect i call store store' ∧
      Done py eq registry store' i { call with stage } := by
  obtain ⟨request, execution_id, now, outcome⟩ := call
  have hdone := h.done
  unfold Call.go at hgo
  unfold Done at hdone
  cases now with
  | received =>
      refine ⟨rfl, ?_⟩
      cases fault with
      | some fault =>
          cases hgo
          exact ⟨by simp [failed_to_start], .none, hdone.2, .inr ⟨rfl, .inl hdone.1⟩⟩
      | none =>
          cases hgo
          rcases check_cases py eq registry ⟨request, execution_id, .received, outcome⟩ with
            ⟨hcheck, hchecked⟩ | ⟨status_code, detail, hcheck, hcode⟩
          · rw [hcheck]
            exact ⟨by simp, .none, hchecked, hdone⟩
          · rw [hcheck]
            refine ⟨by simp, .none, hdone.2, hcode.imp (fun hcode =>
              ⟨hcode.1, hdone.1, fun heq => ?_⟩) fun hcode => ⟨hcode, .inl hdone.1⟩⟩
            exact absurd heq hcode.2
  | checked =>
      refine ⟨rfl, ?_⟩
      cases fault with
      | some fault =>
          cases hgo
          exact ⟨by simp [failed_to_start], .none, hdone.2.2, .inr ⟨rfl, .inl hdone.2.1⟩⟩
      | none =>
          cases hgo
          by_cases hthere : (store.executions execution_id).isSome
          · rw [if_pos hthere]
            exact ⟨by simp [conflict], .none, hdone.2.2,
              .inl ⟨by decide, hdone.2.1, fun _ => hcounted.elsewhere hthere hdone.2.1⟩⟩
          · rw [if_neg hthere]
            exact ⟨by simp, .none, hdone⟩
  | absent =>
      refine ⟨rfl, ?_⟩
      obtain ⟨hchecked, hrows, htasks⟩ := hdone
      have hown (hfree : ¬(store.executions execution_id).isSome) :
          store.executions execution_id = none ∧
          (store.insert execution_id (Call.row ⟨request, execution_id, .absent, outcome⟩)
            (some i)).rows_of i =
            [Call.own ⟨request, execution_id, .absent, outcome⟩ i] := by
        refine ⟨Option.not_isSome_iff_eq_none.mp hfree, ?_⟩
        rw [Store.rows_of_insert, hrows, if_pos rfl]
        rfl
      have hconflict (hthere : (store.executions execution_id).isSome) :
          Done py eq registry store i ⟨request, execution_id,
              .answered (conflict (request.execution_id.getD "None")), outcome⟩ :=
        ⟨htasks, .inl ⟨by decide, hrows, fun _ => hcounted.elsewhere hthere hrows⟩⟩
      rcases fault with _ | ⟨message⟩ | ⟨message⟩
      · by_cases hthere : (store.executions execution_id).isSome
        · simp only [hthere, if_true, Option.some.injEq, Prod.mk.injEq] at hgo
          obtain ⟨rfl, rfl⟩ := hgo
          exact ⟨by simp [conflict], .none, hconflict hthere⟩
        · simp only [hthere] at hgo
          obtain ⟨rfl, rfl⟩ := hgo
          exact ⟨by simp, .insert (hown hthere).1, hchecked, (hown hthere).2, htasks⟩
      · cases hgo
        exact ⟨by simp [failed_to_start], .none, htasks, .inr ⟨rfl, .inl hrows⟩⟩
      · by_cases hthere : (store.executions execution_id).isSome
        · simp only [hthere, if_true, Option.some.injEq, Prod.mk.injEq] at hgo
          obtain ⟨rfl, rfl⟩ := hgo
          exact ⟨by simp [conflict], .none, hconflict hthere⟩
        · simp only [hthere] at hgo
          obtain ⟨rfl, rfl⟩ := hgo
          exact ⟨by simp [failed_to_start], .insert (hown hthere).1, htasks, .inr ⟨rfl,
            .inr (hown hthere).2⟩⟩
  | created =>
      refine ⟨rfl, ?_⟩
      cases fault with
      | some fault =>
          cases hgo
          exact ⟨by simp [failed_to_start], .none, hdone.2.2, .inr ⟨rfl, .inr hdone.2.1⟩⟩
      | none =>
          cases hgo
          refine ⟨by simp, .add_task, ⟨rfl, rfl⟩, hdone.1, hdone.2.1, ?_⟩
          rw [Store.tasks_of_add_task, hdone.2.2, if_pos rfl]
          rfl
  | _ => cases hgo

theorem Effect.counted (h : Effect i call store store') (hcounted : Counted store) :
    Counted store' := by
  cases h with
  | none => exact hcounted
  | insert hfree => exact hcounted.insert hfree call.row (some i)
  | add_task => exact hcounted.add_task call.dispatch

-- It does not touch what another call has asserted.
theorem Effect.others (h : Effect i call store store') (hj : j ≠ i) {other : Call}
    (hother : Asserts py eq registry store j other) : Asserts py eq registry store' j other := by
  cases h with
  | none => exact hother
  | insert hfree =>
      refine hother.stable ?_ rfl fun entry hentry => List.mem_append_left _ hentry
      rw [Store.rows_of_insert, if_neg (by simpa using Ne.symm hj), List.append_nil]
  | add_task =>
      refine hother.stable rfl ?_ fun entry hentry => hentry
      rw [Store.tasks_of_add_task, if_neg (Ne.symm hj), List.append_nil]

end Calls

section Runs

def Sound (py : Python) (eq : Value → Value → Bool) (registry : Registry S) : System → Prop :=
  Pool.Holds Counted (Asserts py eq registry)

theorem sound_initial {s : System} (h : s.Initial) : Sound py eq registry s := by
  obtain ⟨hstore, hcalls⟩ := h
  refine ⟨?_, fun i => ?_⟩
  · rw [hstore]
    exact ⟨fun _ => rfl, fun _ _ hrow => by cases hrow⟩
  · obtain ⟨hidle, hquiet⟩ := hcalls i
    refine ⟨?_, fun hne => absurd hidle hne, fun answer hanswer => ?_, fun _ => hquiet⟩
    · rw [Done, hidle, hstore]
      exact ⟨rfl, rfl⟩
    · rw [hquiet] at hanswer
      cases hanswer

theorem sound_step {s s' : System} {e : Event} (hs : Sound py eq registry s)
    (hstep : s.step py eq registry e = some s') :
    Sound py eq registry s' := by
  cases e with
  | post i request =>
      simp only [System.step, Option.ite_none_right_eq_some, Option.some.injEq] at hstep
      obtain ⟨hidle, rfl⟩ := hstep
      have hdone := (hs.2 i).done
      rw [Done, hidle] at hdone
      refine hs.set hs.1 ⟨hdone, fun _ hne => absurd rfl hne, fun answer hanswer => ?_,
        fun _ => rfl⟩ fun _ _ h => h
      cases hanswer
  | receive i uuid4 =>
      simp only [System.step, Option.ite_none_right_eq_some, Option.some.injEq] at hstep
      obtain ⟨hposted, rfl⟩ := hstep
      have hcall := hs.2 i
      have hdone := hcall.done
      rw [Done, hposted] at hdone
      refine hs.set hs.1 ⟨hdone, fun _ _ execution_id hid hne => ?_, fun answer hanswer => ?_,
        fun hidle => ?_⟩ fun _ _ h => h
      · have hasked : (s.procs i).request.execution_id = some execution_id := hid
        show (s.procs i).request.id_or uuid4 = execution_id
        simp only [RunPipelineRequest.id_or, hasked, if_neg hne]
      · have hstage := hcall.heard answer hanswer
        rw [hposted] at hstage
        cases hstage
      · cases hidle
  | go i fault =>
      simp only [System.step, Option.map_eq_some_iff] at hstep
      obtain ⟨⟨store', stage⟩, hgo, rfl⟩ := hstep
      obtain ⟨hhandling, hidle, heffect, hdone⟩ := go_done hs.1 (hs.2 i) hgo
      exact hs.set (heffect.counted hs.1) ((hs.2 i).next hhandling hidle hdone) fun j hj h =>
        heffect.others hj h
  | crash i =>
      simp only [System.step, Option.ite_none_right_eq_some, Option.some.injEq] at hstep
      obtain ⟨hhandling, rfl⟩ := hstep
      refine hs.set hs.1 ((hs.2 i).next hhandling (by simp) ?_) fun _ _ h => h
      have hdone := (hs.2 i).done
      unfold Done at hdone ⊢
      unfold Call.handling at hhandling
      split at hhandling
      · rename_i hstage
        rw [hstage] at hdone
        exact ⟨hdone.2, .inl hdone.1⟩
      · rename_i hstage
        rw [hstage] at hdone
        exact ⟨hdone.2.2, .inl hdone.2.1⟩
      · rename_i hstage
        rw [hstage] at hdone
        exact ⟨hdone.2.2, .inl hdone.2.1⟩
      · rename_i hstage
        rw [hstage] at hdone
        exact ⟨hdone.2.2, .inr hdone.2.1⟩
      · cases hhandling
  | hear i =>
      simp only [System.step] at hstep
      split at hstep
      · rename_i answer hanswered hwaiting
        cases hstep
        have hcall := hs.2 i
        refine hs.set hs.1 ⟨hcall.done, hcall.id, fun answer' hanswer => ?_, fun hidle =>
          ?_⟩ fun _ _ h => h
        · cases hanswer
          exact hanswered
        · rw [show (s.procs i).stage = .idle from hidle] at hanswered
          cases hanswered
      · cases hstep
  | give_up i message =>
      simp only [System.step, Option.ite_none_right_eq_some, Option.some.injEq] at hstep
      obtain ⟨⟨hidle, -⟩, rfl⟩ := hstep
      have hcall := hs.2 i
      refine hs.set hs.1 ⟨hcall.done, hcall.id, fun answer hanswer => ?_,
        fun h => absurd h hidle⟩ fun _ _ h => h
      cases hanswer
  | insert execution_id row =>
      simp only [System.step, Option.ite_none_right_eq_some, Option.some.injEq] at hstep
      obtain ⟨hfree, rfl⟩ := hstep
      refine hs.store (hs.1.insert hfree row none) fun j call hcall =>
          hcall.stable ?_ rfl fun entry hentry =>
        List.mem_append_left _ hentry
      rw [Store.rows_of_insert, if_neg (by simp), List.append_nil]
  | delete execution_id =>
      simp only [System.step, Option.ite_none_right_eq_some, Option.some.injEq] at hstep
      obtain ⟨hthere, rfl⟩ := hstep
      exact hs.store (hs.1.delete hthere) fun j call hcall =>
        hcall.stable rfl rfl fun _ hentry => hentry

-- A row that has never been deleted is the one that was inserted.
theorem Counted.there {store : Store} (h : Counted store) {entry : Insert}
    (hentry : entry ∈ store.inserted) (hkept : store.deletes entry.execution_id = 0) :
      store.executions entry.execution_id = some entry.row := by
  have hmem {other : Insert} (hother : other ∈ store.inserted)
    (hid : other.execution_id = entry.execution_id) :
      other ∈ store.inserted.filter fun e => e.execution_id == entry.execution_id :=
    List.mem_filter.mpr ⟨hother, by simpa using hid⟩
  have hlen : (store.inserted.filter fun e => e.execution_id == entry.execution_id).length =
      (store.executions entry.execution_id).toList.length := by
    have hbalance := h.balance entry.execution_id
    rw [hkept, Nat.zero_add, Store.inserts, List.count_eq_countP, List.countP_map,
      List.countP_eq_length_filter] at hbalance
    exact hbalance
  cases hrow : store.executions entry.execution_id with
  | none =>
      rw [hrow, Option.toList_none, List.length_nil, List.length_eq_zero_iff] at hlen
      have hnone := hmem hentry rfl
      rw [hlen] at hnone
      cases hnone
  | some row =>
      obtain ⟨found, hfound, hid, rfl⟩ := h.content _ _ hrow
      rw [hrow, Option.toList_some, List.length_singleton] at hlen
      obtain ⟨only, honly⟩ := List.length_eq_one_iff.mp hlen
      have hentry' := hmem hentry rfl
      have hfound' := hmem hfound hid
      rw [honly, List.mem_singleton] at hentry' hfound'
      rw [hentry', hfound']

-- What a request has started: one row, and one task with the same data, whose params will be
-- found valid. The row stays as long as the sweep does not delete it.
structure Started (py : Python) (eq : Value → Value → Bool) (registry : Registry S)
    (store : Store) (i : TaskId) (dispatch : Dispatch) : Prop where
  row : store.rows_of i = [⟨dispatch.execution_id,
    ⟨dispatch.pipeline_name, dispatch.runtime_params, dispatch.rate_limit_override⟩, some i⟩]
  task : store.tasks_of i = [dispatch]
  checked : ∃ pipeline params, registry.get dispatch.pipeline_name = some pipeline ∧
    pipeline.checked_params py eq dispatch.runtime_params = .ok params
  there : store.deletes dispatch.execution_id = 0 → store.executions dispatch.execution_id =
    some ⟨dispatch.pipeline_name, dispatch.runtime_params, dispatch.rate_limit_override⟩

-- What the manager's answer says of call `i`.
def Answer.Holds (py : Python) (eq : Value → Value → Bool) (registry : Registry S)
    (store : Store) (i : TaskId) (request : RunPipelineRequest) : Answer → Prop
  | .accepted execution_id pipeline_name =>
      pipeline_name = request.pipeline_name ∧
        (∀ asked, request.execution_id = some asked → asked ≠ "" → execution_id = asked) ∧
        Started py eq registry store i
          ⟨execution_id, pipeline_name, request.params, request.rate_limit, request.mode,
            request.enable_duplicate_jobs⟩
  | .error status_code _ =>
      store.tasks_of i = [] ∧ (status_code < 500 → store.rows_of i = []) ∧
        (status_code = 409 → ∃ entry ∈ store.inserted, entry.by_request ≠ some i ∧
          ∀ asked, request.execution_id = some asked → asked ≠ "" → entry.execution_id = asked)

-- And the API's reply, of a request that it has made.
def Reply.Holds (py : Python) (eq : Value → Value → Bool) (registry : Registry S)
    (store : Store) (i : TaskId) (dispatch : Dispatch) : Reply → Prop
  | .run execution_id pipeline_name =>
      execution_id = dispatch.execution_id ∧ pipeline_name = dispatch.pipeline_name ∧
        Started py eq registry store i dispatch
  | .HTTPException status_code _ execution_id =>
      execution_id = dispatch.execution_id ∧
        (status_code = 422 ∧ store.rows_of i = [] ∧ store.tasks_of i = [] ∨ status_code = 502)

theorem rows_bounded {store : Store} {i : TaskId} {call : Call}
    (h : Done py eq registry store i call) :
    (store.rows_of i).length ≤ 1 ∧ (store.tasks_of i).length ≤ (store.rows_of i).length := by
  unfold Done at h
  split at h
  · simp [h.2.1, h.2.2]
  · simp [h.2.1, h.2.2]
  · simp [h.2.1, h.2.2]
  · simp [h.2.2.1, h.2.2.2]
  · rcases h.2 with ⟨-, hrows, -⟩ | ⟨-, hrows | hrows⟩
    · simp [h.1, hrows]
    · simp [h.1, hrows]
    · simp [h.1, hrows]
  · rcases h.2 with hrows | hrows
    · simp [h.1, hrows]
    · simp [h.1, hrows]
  · simp [h.1, h.2]

theorem answer_true {store : Store} {i : TaskId} {call : Call} (hcounted : Counted store)
    (h : Asserts py eq registry store i call) {answer : Answer}
    (hanswer : call.outcome = some (.response answer)) :
    answer.Holds py eq registry store i call.request := by
  have hstage := h.heard answer hanswer
  have hdone := h.done
  have hid := h.id (by simp [hstage]) (by simp [hstage])
  rw [Done, hstage] at hdone
  cases answer with
  | accepted execution_id pipeline_name =>
      obtain ⟨⟨rfl, rfl⟩, hchecked, hrows, htasks⟩ := hdone
      refine ⟨rfl, hid, hrows, htasks, hchecked, fun hkept => ?_⟩
      have hown : call.own i ∈ store.inserted := by
        have hmem : call.own i ∈ store.rows_of i := hrows ▸ List.mem_singleton_self _
        exact (List.mem_filter.mp hmem).1
      exact hcounted.there hown hkept
  | error status_code detail =>
      obtain ⟨htasks, ⟨hcode, hrows, helse⟩ | ⟨rfl, -⟩⟩ := hdone
      · refine ⟨htasks, fun _ => hrows, fun hconflict => ?_⟩
        obtain ⟨entry, hentry, heq, hother⟩ := helse hconflict
        exact ⟨entry, hentry, hother, fun asked hasked hne => heq.trans (hid asked hasked hne)⟩
      · exact ⟨htasks, fun hlt => absurd hlt (by decide), fun heq => absurd heq (by decide)⟩

theorem reply_true {store : Store} {i : TaskId} {request : RunPipelineRequest} {outcome : Outcome}
    (h : ∀ answer, outcome = .response answer → answer.Holds py eq registry store i request)
    (http_text : ℕ → String) {pipeline_name execution_id mode : String} {params : Params}
    {rate_limit : Option ℚ}
    (hrequest : request = api_request pipeline_name params execution_id rate_limit mode)
    (hid : execution_id ≠ "") :
    (check_status (execute http_text pipeline_name execution_id outcome)).Holds py
    eq registry store i
      ⟨execution_id, pipeline_name, params, rate_limit, some mode, none⟩ := by
  subst hrequest
  cases outcome with
  | TransportError message => exact ⟨rfl, .inr rfl⟩
  | response answer =>
      have htrue := h answer rfl
      cases answer with
      | accepted id name =>
          obtain ⟨rfl, hasked, hstarted⟩ := htrue
          obtain rfl := hasked execution_id rfl hid
          exact ⟨rfl, rfl, hstarted⟩
      | error status_code detail =>
          obtain ⟨htasks, hrows, -⟩ := htrue
          refine ⟨rfl, ?_⟩
          by_cases hupstream : 500 ≤ status_code
          · exact .inr (if_pos (decide_eq_true hupstream))
          · exact .inl ⟨if_neg (by simpa [execute] using hupstream), hrows (by omega), htasks⟩

-- Whatever managers, clients, schedules and the sweep do meanwhile, and whatever fails: an id
-- that has not been freed by a deletion is accepted once; a request inserts one row at most and
-- adds its task only to a row of its own; and what a caller is told of its request is true.
theorem answers_true (http_text : ℕ → String) {s : System}
    (hr : Reach (System.step py eq registry) System.Initial (fun _ _ => True) s) :
    (∀ id, s.store.inserts id = s.store.deletes id + (s.store.executions id).toList.length) ∧
    (∀ i, (s.store.rows_of i).length ≤ 1 ∧
      (s.store.tasks_of i).length ≤ (s.store.rows_of i).length) ∧
    (∀ i answer, (s.procs i).outcome = some (.response answer) →
      answer.Holds py eq registry s.store i (s.procs i).request) ∧
    ∀ i outcome pipeline_name params execution_id rate_limit mode,
      (s.procs i).outcome = some outcome →
      (s.procs i).request = api_request pipeline_name params execution_id rate_limit mode →
      execution_id ≠ "" →
      (check_status (execute http_text pipeline_name execution_id outcome)).Holds py eq
      registry s.store i
        ⟨execution_id, pipeline_name, params, rate_limit, some mode, none⟩ := by
  have hs : Sound py eq registry s :=
    hr.invariant (fun _ => sound_initial) fun _ _ _ _ hs _ hstep => sound_step hs hstep
  refine ⟨hs.1.balance, fun i => rows_bounded (hs.2 i).done, fun i answer =>
    answer_true hs.1 (hs.2 i), ?_⟩
  intro i outcome pipeline_name params execution_id rate_limit mode houtcome hrequest hid
  refine reply_true (fun answer hanswer => ?_) http_text hrequest hid
  rw [hanswer] at houtcome
  exact answer_true hs.1 (hs.2 i) houtcome

-- Two requests for one id: the API's, and one that comes between its checks and its INSERT.
def paged_registry : Registry ℕ :=
  ⟨fun name => if name = "paged" then some PipelineResolution.paged else none, fun _ => ""⟩

def nothing_posted : System :=
  ⟨⟨fun _ => none, [], [], []⟩, fun _ => ⟨⟨⟨none, none, none⟩, "", none, none⟩, "", .idle, none⟩⟩

def api_call : RunPipelineRequest :=
  api_request "paged" (PipelineResolution.pages 3) "run" none "distributed"

def direct_call : RunPipelineRequest :=
  ⟨⟨none, none, none⟩, "paged", some (PipelineResolution.pages 5), some "run"⟩

def two_calls : List Event :=
  [.post 0 api_call, .post 1 direct_call, .receive 0 "", .receive 1 ""] ++
    (List.replicate 3 [.go 0 none, .go 1 none]).flatten ++ [.go 0 none, .hear 0, .hear 1]

theorem answers_true_twice :
    ∃ s, Reach (System.step PipelineResolution.plain (fun _ _ => false) paged_registry)
      System.Initial (fun _ _ => True) s ∧
    (s.procs 0).outcome = some (.response (.accepted "run" "paged")) ∧
    (s.procs 1).outcome = some (.response (conflict "run")) ∧
    s.store.inserts "run" = s.store.deletes "run" + (s.store.executions "run").toList.length := by
  obtain ⟨s, hr, -, htest⟩ := Reach.replay
    (System.step PipelineResolution.plain (fun _ _ => false) paged_registry)
    System.Initial (fun _ _ => True) (fun _ _ => true) (fun _ _ _ => trivial) (s := nothing_posted)
    ⟨rfl, fun _ => ⟨rfl, rfl⟩⟩ two_calls
    (fun s => (s.procs 0).outcome = some (.response (.accepted "run" "paged")) ∧
      (s.procs 1).outcome = some (.response (conflict "run"))) (by decide +kernel)
  obtain ⟨haccepted, hconflict⟩ := of_decide_eq_true htest
  exact ⟨s, hr, haccepted, hconflict, (answers_true (fun _ => "") hr).1 "run"⟩

end Runs

end Reflowfy.RunRequests
