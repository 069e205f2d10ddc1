import Mathlib.Logic.Relation

namespace Interleaving

variable {S E : Type}

-- States reached from `Init` by finite runs in which every step is taken in a
-- state and by an event that `Ok` allows.
inductive Reach (step : S → E → Option S) (Init : S → Prop) (Ok : S → E → Prop) : S → Prop
  | init {s : S} (hi : Init s) : Reach step Init Ok s
  | step {s s' : S} {e : E} (hr : Reach step Init Ok s) (hok : Ok s e) (hs : step s e = some s') :
      Reach step Init Ok s'

-- A later part of a run.
inductive Path (step : S → E → Option S) (Ok : S → E → Prop) (s : S) : S → Prop
  | refl : Path step Ok s s
  | tail {m s' : S} {e : E} (hp : Path step Ok s m) (hok : Ok m e) (hs : step m e = some s') :
      Path step Ok s s'

section Rules

variable {step : S → E → Option S} {Init : S → Prop} {Ok : S → E → Prop}

theorem Reach.invariant {I : S → Prop} (h0 : ∀ s, Init s → I s)
    (hstep : ∀ s e s', Reach step Init Ok s → I s → Ok s e → step s e = some s' → I s')
    {s : S} (hr : Reach step Init Ok s) : I s := by
  induction hr with
  | init hi => exact h0 _ hi
  | step hr hok hs ih => exact hstep _ _ _ hr ih hok hs

theorem Reach.mono {Init' : S → Prop} {Ok' : S → E → Prop} (hinit : ∀ s, Init s → Init' s)
    (hok : ∀ s e, Ok s e → Ok' s e) {s : S} (hr : Reach step Init Ok s) :
      Reach step Init' Ok' s := by
  induction hr with
  | init hi => exact .init (hinit _ hi)
  | step _ ho hs ih => exact .step ih (hok _ _ ho) hs

theorem Path.invariant {I : S → Prop}
    (hstep : ∀ s e s', I s → Ok s e → step s e = some s' → I s')
    {s s' : S} (hp : Path step Ok s s') (hi : I s) : I s' := by
  induction hp with
  | refl => exact hi
  | tail _ hok hs ih => exact hstep _ _ _ ih hok hs

theorem Path.trans {s m s' : S} (hp : Path step Ok s m) (hq : Path step Ok m s') :
    Path step Ok s s' := by
  induction hq with
  | refl => exact hp
  | tail _ hok hs ih => exact ih.tail hok hs

theorem Reach.path {s s' : S} (hr : Reach step Init Ok s) (hp : Path step Ok s s') :
    Reach step Init Ok s' := by
  induction hp with
  | refl => exact hr
  | tail _ hok hs ih => exact .step ih hok hs

end Rules

-- The system with a note beside its state of what a run has done so far. No step depends
-- on the note.
def noted {N : Type} (step : S → E → Option S) (note : S × N → E → S → N) (x : S × N) (e : E) :
    Option (S × N) :=
  (step x.1 e).map fun s' => (s', note x e s')

section Noted

variable {N : Type} {step : S → E → Option S} {note : S × N → E → S → N} {x x' : S × N} {e : E}

theorem noted_some (h : noted step note x e = some x') : step x.1 e = some x'.1 ∧
    x'.2 = note x e x'.1 := by
  obtain ⟨s', hs, rfl⟩ := Option.map_eq_some_iff.mp h
  exact ⟨hs, rfl⟩

theorem Reach.forget {Init : S → Prop} {InitN : S × N → Prop} {Ok : S → E → Prop}
    {OkN : S × N → E → Prop} (hinit : ∀ x, InitN x → Init x.1) (hok : ∀ x e, OkN x e → Ok x.1 e)
    (hr : Reach (noted step note) InitN OkN x) : Reach step Init Ok x.1 := by
  induction hr with
  | init hi => exact .init (hinit _ hi)
  | step _ ho hs ih => exact .step ih (hok _ _ ho) (noted_some hs).1

-- Every run has its notes.
theorem Reach.noted {Init : S → Prop} {Ok : S → E → Prop} {s : S} {start : N}
    (hr : Reach step Init Ok s) :
    ∃ n, Reach (Interleaving.noted step note) (fun x => Init x.1 ∧ x.2 = start)
      (fun x e => Ok x.1 e) (s, n) := by
  induction hr with
  | init hi => exact ⟨start, .init ⟨hi, rfl⟩⟩
  | step _ ho hs ih =>
      obtain ⟨n, hn⟩ := ih
      exact ⟨_, .step hn ho (by rw [Interleaving.noted, hs]; rfl)⟩

end Noted

-- Runs a list of events, giving up at the first one that `ok` or `step` refuses.
def replay (step : S → E → Option S) (ok : S → E → Bool) : S → List E → Option S
  | s, [] => some s
  | s, e :: es =>
      if ok s e then
        match step s e with
        | some s' => replay step ok s' es
        | none => none
      else none

theorem replay_cons {step : S → E → Option S} {ok : S → E → Bool} {s m : S} {e : E} (es : List E)
    (hok : ok s e = true) (hs : step s e = some m) :
      replay step ok s (e :: es) = replay step ok m es := by
  rw [replay, if_pos hok, hs]

theorem replay_append {step : S → E → Option S} {ok : S → E → Bool} {s m : S}
    {es : List E} (es' : List E)
    (h : replay step ok s es = some m) : replay step ok s (es ++ es') = replay step ok m es' := by
  induction es generalizing s with
  | nil =>
      cases h
      rfl
  | cons e es ih =>
      simp only [replay, List.cons_append] at h ⊢
      split at h
      · rename_i he
        split at h
        · rename_i next hs
          rw [if_pos he]
          exact ih h
        · cases h
      · cases h

-- The run that `replay` finds is one that `Ok` allows, if `ok` says so in the states where
-- `P` holds, and the events among `es` keep `P`.
theorem Path.replay_some {step : S → E → Option S} {Ok : S → E → Prop}
    {ok : S → E → Bool} {P : S → Prop}
    (hok : ∀ s e, P s → ok s e = true → Ok s e) {es : List E} {s₀ : S} :
    ∀ {s s' : S}, (∀ e ∈ es, ∀ s s', P s → step s e = some s' → P s') → P s → Path step Ok s₀ s →
      replay step ok s es = some s' → Path step Ok s₀ s' := by
  induction es with
  | nil =>
      intro s s' _ _ hp h
      cases h
      exact hp
  | cons e es ih =>
      intro s s' hP hs₀ hp h
      simp only [replay] at h
      split at h
      · rename_i he
        split at h
        · rename_i next hs
          exact ih (fun e he => hP e (List.mem_cons_of_mem _ he))
            (hP e List.mem_cons_self s next hs₀ hs)
            (hp.tail (hok _ _ hs₀ he) hs) h
        · cases h
      · cases h

-- A run given by its events, with what a test of its last state shows.
theorem Path.replay (step : S → E → Option S) (Ok : S → E → Prop) (ok : S → E → Bool)
    (hok : ∀ s e, ok s e = true → Ok s e) {s : S} (es : List E) (test : S → Bool)
    (h : (replay step ok s es).any test = true) :
    ∃ s', Path step Ok s s' ∧ replay step ok s es = some s' ∧ test s' = true := by
  obtain ⟨s', hs, htest⟩ := Option.any_eq_true _ _ |>.mp h
  exact ⟨s', Path.replay_some (P := fun _ => True) (fun s e _ => hok s e)
    (fun _ _ _ _ _ _ => trivial) trivial .refl hs,
    hs, htest⟩

theorem Reach.replay (step : S → E → Option S) (Init : S → Prop) (Ok : S → E → Prop)
    (ok : S → E → Bool)
    (hok : ∀ s e, ok s e = true → Ok s e) {s : S} (hi : Init s) (es : List E) (test : S → Bool)
    (h : (replay step ok s es).any test = true) :
    ∃ s', Reach step Init Ok s' ∧ replay step ok s es = some s' ∧ test s' = true := by
  obtain ⟨s', hp, hs, htest⟩ := Path.replay step Ok ok hok es test h
  exact ⟨s', (Reach.init hi).path hp, hs, htest⟩

theorem Reach.replay_within (step : S → E → Option S) (Init : S → Prop) (Ok : S → E → Prop)
    (ok : S → E → Bool)
    (P : S → Prop) (hok : ∀ s e, P s → ok s e = true → Ok s e) {s : S} (hi : Init s)
    (hs : P s) (es : List E)
    (hP : ∀ e ∈ es, ∀ s s', P s → step s e = some s' → P s') (test : S → Bool)
    (h : (Interleaving.replay step ok s es).any test = true) : ∃ s', Reach step Init Ok s' ∧
      test s' = true := by
  obtain ⟨s', hs', htest⟩ := Option.any_eq_true _ _ |>.mp h
  exact ⟨s', (Reach.init hi).path (Path.replay_some hok hP hs .refl hs'), htest⟩

end Interleaving
