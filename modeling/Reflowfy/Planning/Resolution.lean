import Reflowfy.PipelineResolution

namespace Reflowfy.PipelineResolution

open Interleaving

variable {S : Type} {py : Python} {eq : Value → Value → Bool}

-- The pipeline that an execution is resolving.
def PlanPc.holds : PlanPc S → Option PipelineId
  | .check a => some a
  | .store a => some a
  | .define a => some a
  | .keep a _ => some a
  | .read a => some a
  | .use a _ => some a
  | _ => none

section Frame

variable {o o' : Objects S} {i : TaskId} {task : PlanTask S} {pc : PlanPc S}

-- What a step of task `i` leaves of the objects: it makes new ones, and of the old ones it
-- writes to its own dict and to the pipeline that it holds.
structure Untouched (o o' : Objects S) (i : TaskId) (held : Option PipelineId) : Prop where
  registry : o'.registry = o.registry
  next : o.next ≤ o'.next
  pipeline : ∀ a < o.next, o'.pipeline a = o.pipeline a
  has_fork : ∀ a < o.next, o'.has_fork a = o.has_fork a
  attributes : ∀ a < o.next, held ≠ some a → o'.attributes a = o.attributes a
  dicts : ∀ d, d ≠ i → o'.dicts d = o.dicts d

@[simp] theorem set_dict_self (params : Params) : (o.set_dict i params).dicts i = params :=
  Function.update_self ..

@[simp] theorem set_attributes_self (a : PipelineId) (attributes : Attributes S) :
    (o.set_attributes a attributes).attributes a = attributes := Function.update_self ..

theorem Untouched.refl (o : Objects S) (i : TaskId) (held : Option PipelineId) :
    Untouched o o i held :=
  ⟨rfl, Nat.le_refl _, fun _ _ => rfl, fun _ _ => rfl, fun _ _ _ => rfl, fun _ _ => rfl⟩

theorem untouched_set_dict (params : Params) (held : Option PipelineId) :
    Untouched o (o.set_dict i params) i held :=
  ⟨rfl, Nat.le_refl _, fun _ _ => rfl, fun _ _ => rfl, fun _ _ _ => rfl,
    fun _ hd => Function.update_of_ne hd ..⟩

theorem untouched_set_attributes (a : PipelineId) (attributes : Attributes S) :
    Untouched o (o.set_attributes a attributes) i (some a) :=
  ⟨rfl, Nat.le_refl _, fun _ _ => rfl, fun _ _ => rfl,
    fun _ _ hne => Function.update_of_ne (fun heq => hne (congrArg some heq.symm))
      .., fun _ _ => rfl⟩

theorem untouched_fork (a : PipelineId) : Untouched o (o.fork a) i none :=
  ⟨rfl, Nat.le_succ _, fun _ hlt => Function.update_of_ne (Nat.ne_of_lt hlt) ..,
    fun _ hlt => Function.update_of_ne (Nat.ne_of_lt hlt) .., fun _ hlt _ => Function.update_of_ne
      (Nat.ne_of_lt hlt) ..,
    fun _ _ => rfl⟩

theorem untouched_go (h : task.go py eq i o = some (o', pc)) : Untouched o o' i task.pc.holds := by
  unfold PlanTask.go at h
  split at h
  · cases h
  · split at h <;> cases h <;> exact .refl ..
  · rename_i a hpc
    rw [hpc]
    split at h <;> cases h
    · exact untouched_fork a
    · exact .refl ..
  · split at h <;> cases h
    · exact .refl ..
    · exact untouched_set_dict ..
  · rename_i a hpc
    rw [hpc]
    cases h
    exact untouched_set_attributes ..
  · simp only at h
    split at h <;> cases h <;> exact untouched_set_dict ..
  · rename_i a source hpc
    rw [hpc]
    cases h
    exact untouched_set_attributes ..
  · cases h
    exact .refl ..
  · split at h <;> cases h <;> exact .refl ..
  · cases h
  · cases h

-- A task goes on with the pipeline it holds, or drops it, or takes one up: a new one, or the
-- registered one where that has no `fork`.
theorem go_holds (h : task.go py eq i o = some (o', pc)) :
    (∀ a, pc.holds = some a → task.pc.holds = some a ∨
      ∃ r, task.pc = .fork r ∧
        (o.has_fork r = true ∧ a = o.next ∧ o'.has_fork a = true ∨ o.has_fork r = false ∧ a = r)) ∧
      ∀ a, pc = .fork a → task.pc = .get ∧ o.registry task.pipeline_name = some a := by
  unfold PlanTask.go at h
  split at h
  · cases h
  · rename_i hpc
    split at h <;> cases h
    · exact ⟨fun a ha => (by cases ha), fun a ha => (by cases ha)⟩
    · rename_i r hr
      refine ⟨fun a ha => (by cases ha), fun a ha => ?_⟩
      cases ha
      exact ⟨hpc, hr⟩
  · rename_i r hpc
    split at h
    · rename_i hfork
      cases h
      refine ⟨fun a ha => ?_, fun a ha => (by cases ha)⟩
      cases ha
      exact .inr ⟨r, hpc, .inl ⟨hfork, rfl, by simp [Objects.fork, hfork]⟩⟩
    · rename_i hfork
      cases h
      refine ⟨fun a ha => ?_, fun a ha => (by cases ha)⟩
      cases ha
      exact .inr ⟨r, hpc, .inr ⟨Bool.eq_false_iff.mpr hfork, rfl⟩⟩
  · rename_i r hpc
    split at h <;> cases h
    · exact ⟨fun a ha => (by cases ha), fun a ha => (by cases ha)⟩
    · exact ⟨fun a ha => .inl (by rw [hpc]; exact ha), fun a ha => (by cases ha)⟩
  · rename_i r hpc
    cases h
    exact ⟨fun a ha => .inl (by rw [hpc]; exact ha), fun a ha => (by cases ha)⟩
  · rename_i r hpc
    simp only at h
    split at h <;> cases h
    · exact ⟨fun a ha => (by cases ha), fun a ha => (by cases ha)⟩
    · exact ⟨fun a ha => .inl (by rw [hpc]; exact ha), fun a ha => (by cases ha)⟩
  · rename_i r source hpc
    cases h
    exact ⟨fun a ha => .inl (by rw [hpc]; exact ha), fun a ha => (by cases ha)⟩
  · rename_i r hpc
    cases h
    exact ⟨fun a ha => .inl (by rw [hpc]; exact ha), fun a ha => (by cases ha)⟩
  · split at h <;> cases h <;> exact ⟨fun a ha => (by cases ha), fun a ha => (by cases ha)⟩
  · cases h
  · cases h

end Frame

section Apart

-- A pipeline with `fork` is held by one task, and the registered one by none.
structure Apart (s : PlanSystem S) : Prop where
  registered : ∀ name a, s.store.registry name = some a → a < s.store.next
  unresolved : ∀ name a, s.store.registry name = some a → s.store.has_fork a = true →
    s.store.attributes a = ⟨none, none⟩
  found : ∀ i a, (s.procs i).pc = .fork a → s.store.registry (s.procs i).pipeline_name = some a
  held : ∀ i a, (s.procs i).pc.holds = some a → a < s.store.next
  forked : ∀ i a, (s.procs i).pc.holds = some a → s.store.has_fork a = true →
    ∀ name, s.store.registry name ≠ some a
  distinct : ∀ i j a, i ≠ j → (s.procs i).pc.holds = some a → (s.procs j).pc.holds = some a →
    s.store.has_fork a = false

theorem Apart.initial {s : PlanSystem S} (h : s.Initial) : Apart s := by
  have hidle : ∀ i, (s.procs i).pc.holds = none := fun i => by rw [h.2 i]; rfl
  constructor
  · exact fun name a ha => (h.1 name a ha).1
  · exact fun name a ha _ => (h.1 name a ha).2
  · intro i a ha
    rw [h.2 i] at ha
    cases ha
  · intro i a ha
    rw [hidle] at ha
    cases ha
  · intro i a ha
    rw [hidle] at ha
    cases ha
  · intro i j a _ ha
    rw [hidle] at ha
    cases ha

theorem Apart.start {s : PlanSystem S} (h : Apart s) (i : TaskId) (pipeline_name : String)
    (runtime_params : Params) :
    Apart (s.set i s.store ⟨pipeline_name, runtime_params, .get⟩) := by
  have hprocs : ∀ j a,
    ((s.set i s.store ⟨pipeline_name, runtime_params, .get⟩).procs j).pc.holds = some a →
      j ≠ i ∧ (s.procs j).pc.holds = some a := by
    intro j a ha
    by_cases hj : j = i
    · subst hj
      rw [Pool.set_procs_self] at ha
      cases ha
    · rw [Pool.set_procs_of_ne _ _ _ hj] at ha
      exact ⟨hj, ha⟩
  constructor
  · exact h.registered
  · exact h.unresolved
  · intro j a ha
    by_cases hj : j = i
    · subst hj
      rw [Pool.set_procs_self] at ha
      cases ha
    · rw [Pool.set_procs_of_ne _ _ _ hj] at ha ⊢
      exact h.found j a ha
  · exact fun j a ha => h.held j a (hprocs j a ha).2
  · exact fun j a ha => h.forked j a (hprocs j a ha).2
  · exact fun j k a hne ha hb => h.distinct j k a hne (hprocs j a ha).2 (hprocs k a hb).2

theorem Apart.go {s : PlanSystem S} (h : Apart s) {i : TaskId} {o' : Objects S} {pc : PlanPc S}
    (hgo : (s.procs i).go py eq i s.store = some (o', pc)) :
      Apart (s.set i o' { s.procs i with pc }) := by
  have huntouched := untouched_go hgo
  obtain ⟨hholds, hfound⟩ := go_holds hgo
  have hregistered : ∀ name a, o'.registry name = some a → s.store.registry name = some a ∧
      a < s.store.next := by
    intro name a ha
    rw [huntouched.registry] at ha
    exact ⟨ha, h.registered name a ha⟩
  -- What a task holds afterwards, and how that was.
  have hafter : ∀ j a, ((s.set i o' { s.procs i with pc }).procs j).pc.holds = some a →
      (s.procs j).pc.holds = some a ∨ j = i ∧ (a = s.store.next ∧ s.store.next < o'.next ∨
        o'.has_fork a = false ∧ a < s.store.next) := by
    intro j a ha
    by_cases hj : j = i
    · subst hj
      rw [Pool.set_procs_self] at ha
      rcases hholds a ha with hheld | ⟨r, hpc, ⟨hfork, rfl, -⟩ | ⟨hfork, rfl⟩⟩
      · exact .inl hheld
      · refine .inr ⟨rfl, .inl ⟨rfl, ?_⟩⟩
        unfold PlanTask.go at hgo
        rw [hpc] at hgo
        simp only [hfork, if_true, Option.some.injEq, Prod.mk.injEq] at hgo
        rw [← hgo.1]
        exact Nat.lt_succ_self _
      · have hlt := h.registered _ _ (h.found j a hpc)
        exact .inr ⟨rfl, .inr ⟨(huntouched.has_fork a hlt).trans hfork, hlt⟩⟩
    · rw [Pool.set_procs_of_ne _ _ _ hj] at ha
      exact .inl ha
  constructor
  · exact fun name a ha => Nat.lt_of_lt_of_le (hregistered name a ha).2 huntouched.next
  · intro name a ha hfork
    obtain ⟨hold, hlt⟩ := hregistered name a ha
    have hfork' : s.store.has_fork a = true := (huntouched.has_fork a hlt).symm.trans hfork
    have hne : (s.procs i).pc.holds ≠ some a := fun hheld => h.forked i a hheld hfork' name hold
    exact (huntouched.attributes a hlt hne).trans (h.unresolved name a hold hfork')
  · intro j a ha
    show o'.registry _ = some a
    rw [huntouched.registry]
    by_cases hj : j = i
    · subst hj
      rw [Pool.set_procs_self] at ha ⊢
      exact (hfound a ha).2
    · rw [Pool.set_procs_of_ne _ _ _ hj] at ha ⊢
      exact h.found j a ha
  · intro j a ha
    rcases hafter j a ha with hheld | ⟨-, ⟨rfl, hlt⟩ | ⟨-, hlt⟩⟩
    · exact Nat.lt_of_lt_of_le (h.held j a hheld) huntouched.next
    · exact hlt
    · exact Nat.lt_of_lt_of_le hlt huntouched.next
  · intro j a ha hfork name hname
    obtain ⟨hold, hlt⟩ := hregistered name a hname
    rcases hafter j a ha with hheld | ⟨-, ⟨rfl, -⟩ | ⟨hno, -⟩⟩
    · exact h.forked j a hheld ((huntouched.has_fork a hlt).symm.trans hfork) name hold
    · exact Nat.lt_irrefl _ hlt
    · rw [show o'.has_fork a = true from hfork] at hno
      cases hno
  · intro j k a hne ha hb
    rcases hafter j a ha with hj | ⟨rfl, ⟨rfl, -⟩ | ⟨hno, -⟩⟩
    · rcases hafter k a hb with hk | ⟨rfl, ⟨rfl, -⟩ | ⟨hno, -⟩⟩
      · exact (huntouched.has_fork a (h.held j a hj)).trans (h.distinct j k a hne hj hk)
      · exact absurd (h.held j _ hj) (Nat.lt_irrefl _)
      · exact hno
    · rcases hafter k _ hb with hk | ⟨rfl, -⟩
      · exact absurd (h.held k _ hk) (Nat.lt_irrefl _)
      · exact absurd rfl hne
    · exact hno

theorem apart_of_reach {s : PlanSystem S}
    (hr : Reach (PlanSystem.step py eq) PlanSystem.Initial (fun _ _ => True) s) :
    Apart s := by
  refine hr.invariant (fun _ => Apart.initial) fun s e s' _ h _ hstep => ?_
  cases e with
  | start i pipeline_name runtime_params =>
      simp only [PlanSystem.step] at hstep
      split at hstep
      · cases hstep
        exact h.start ..
      · cases hstep
  | go i =>
      obtain ⟨⟨o', pc⟩, hgo, rfl⟩ := Option.map_eq_some_iff.mp hstep
      exact h.go hgo

end Apart

section Plans

variable {o o' : Objects S} {i j : TaskId} {runtime_params : Params} {c : PipelineClass S}

-- How far task `i` has come with the plan of pipeline `c` for its params.
def Resolving (py : Python) (eq : Value → Value → Bool) (c : PipelineClass S)
    (runtime_params : Params) (o : Objects S) (i : TaskId) : PlanPc S → Prop
  | .check a => o.pipeline a = c ∧ o.has_fork a = true
  | .store a => (o.pipeline a = c ∧ o.has_fork a = true) ∧
      c.checked_params py eq runtime_params = .ok (o.dicts i)
  | .define a => (o.pipeline a = c ∧ o.has_fork a = true) ∧
      c.checked_params py eq runtime_params = .ok (o.dicts i) ∧
      (o.attributes a).resolved_params = some i
  | .keep a source => (o.pipeline a = c ∧ o.has_fork a = true) ∧
      (∃ params, c.checked_params py eq runtime_params = .ok params ∧
      c.define_jobs params = (.ok source, o.dicts i)) ∧ (o.attributes a).resolved_params = some i
  | .read a => (o.pipeline a = c ∧ o.has_fork a = true) ∧
      (∃ params, c.checked_params py eq runtime_params = .ok params ∧
      c.define_jobs params = (.ok (o.attributes a).source, o.dicts i)) ∧
        (o.attributes a).resolved_params = some i
  | .use a enriched_params => (o.pipeline a = c ∧ o.has_fork a = true) ∧ ∃ params enriched,
      c.checked_params py eq runtime_params = .ok params ∧
        c.define_jobs params = (.ok (o.attributes a).source, enriched) ∧
      enriched_params = some enriched
  | .done enriched_params source => ∃ enriched, enriched_params = some enriched ∧
      resolve_alone py eq c runtime_params = .ok (enriched, source)
  | .failed e => resolve_alone py eq c runtime_params = .error e
  | _ => True

theorem Resolving.frame {held : Option PipelineId} {pc : PlanPc S}
    (h : Resolving py eq c runtime_params o j pc) (huntouched : Untouched o o' i held) (hne : j ≠ i)
    (hheld : ∀ a, pc.holds = some a → a < o.next ∧ (o.has_fork a = true → held ≠ some a)) :
    Resolving py eq c runtime_params o' j pc := by
  have hdict := huntouched.dicts j hne
  have hpipeline : ∀ a, pc.holds = some a → o'.pipeline a = o.pipeline a :=
    fun a ha => huntouched.pipeline a (hheld a ha).1
  have hfork : ∀ a, pc.holds = some a → o'.has_fork a = o.has_fork a :=
    fun a ha => huntouched.has_fork a (hheld a ha).1
  have hattributes : ∀ a, pc.holds = some a → o.has_fork a = true →
      o'.attributes a = o.attributes a := fun a ha hyes =>
    huntouched.attributes a (hheld a ha).1 ((hheld a ha).2 hyes)
  cases pc with
  | check a => simpa only [Resolving, hpipeline a rfl, hfork a rfl] using h
  | store a => simpa only [Resolving, hpipeline a rfl, hfork a rfl, hdict] using h
  | define a =>
      simpa only [Resolving, hpipeline a rfl, hfork a rfl, hdict, hattributes a rfl h.1.2] using h
  | keep a source =>
      simpa only [Resolving, hpipeline a rfl, hfork a rfl, hdict, hattributes a rfl h.1.2] using h
  | read a =>
      simpa only [Resolving, hpipeline a rfl, hfork a rfl, hdict, hattributes a rfl h.1.2] using h
  | use a enriched_params =>
      simpa only [Resolving, hpipeline a rfl, hfork a rfl, hattributes a rfl h.1.2] using h
  | _ => exact h

theorem Resolving.go {task : PlanTask S} {pc : PlanPc S} {r : PipelineId}
    (hr : o.registry task.pipeline_name = some r)
    (hfork : o.has_fork r = true) (hfound : ∀ a, task.pc = .fork a →
      o.registry task.pipeline_name = some a)
    (h : Resolving py eq (o.pipeline r) task.runtime_params o i task.pc)
    (hgo : task.go py eq i o = some (o', pc)) :
    Resolving py eq (o.pipeline r) task.runtime_params o' i pc := by
  unfold PlanTask.go at hgo
  split at hgo
  · cases hgo
  · rw [hr] at hgo
    cases hgo
    trivial
  · rename_i a hpc
    have hsame : a = r := Option.some.inj ((hfound a hpc).symm.trans hr)
    subst hsame
    rw [if_pos hfork] at hgo
    cases hgo
    exact ⟨Function.update_self .., (Function.update_self ..).trans hfork⟩
  · rename_i a hpc
    rw [hpc] at h
    obtain ⟨hpipeline, hyes⟩ := h
    split at hgo
    · rename_i e hchecked
      cases hgo
      rw [hpipeline] at hchecked
      simp only [Resolving, resolve_alone, hchecked]
    · rename_i params hchecked
      cases hgo
      rw [hpipeline] at hchecked
      exact ⟨⟨hpipeline, hyes⟩, hchecked.trans (congrArg Except.ok (set_dict_self params).symm)⟩
  · rename_i a hpc
    rw [hpc] at h
    cases hgo
    exact ⟨h.1, h.2, by rw [set_attributes_self]⟩
  · rename_i a hpc
    rw [hpc] at h
    obtain ⟨⟨hpipeline, hyes⟩, hchecked, hresolved⟩ := h
    simp only [hpipeline] at hgo
    split at hgo
    · rename_i e hreturned
      cases hgo
      simp only [Resolving, resolve_alone, hchecked]
      rw [← Prod.mk.eta (p := (o.pipeline r).define_jobs (o.dicts i)), hreturned]
    · rename_i source hreturned
      cases hgo
      refine ⟨⟨hpipeline, hyes⟩, ⟨o.dicts i, hchecked, ?_⟩, hresolved⟩
      rw [set_dict_self]
      exact Prod.ext hreturned rfl
  · rename_i a source hpc
    rw [hpc] at h
    cases hgo
    obtain ⟨hsame, ⟨params, hchecked, hjobs⟩, hresolved⟩ := h
    refine ⟨hsame, ⟨params, hchecked, ?_⟩, by rw [set_attributes_self]; exact hresolved⟩
    rw [set_attributes_self]
    exact hjobs
  · rename_i a hpc
    rw [hpc] at h
    cases hgo
    obtain ⟨hsame, ⟨params, hchecked, hjobs⟩, hresolved⟩ := h
    exact ⟨hsame, params, o.dicts i, hchecked, hjobs, by rw [hresolved]; rfl⟩
  · rename_i a enriched_params hpc
    rw [hpc] at h
    obtain ⟨-, params, enriched, hchecked, hjobs, rfl⟩ := h
    split at hgo
    · rename_i hsource
      cases hgo
      rw [hsource] at hjobs
      simp only [Resolving, resolve_alone, hchecked, hjobs]
    · rename_i source hsource
      cases hgo
      rw [hsource] at hjobs
      exact ⟨enriched, rfl, by simp only [resolve_alone, hchecked, hjobs]⟩
  · cases hgo
  · cases hgo

-- Every execution of a pipeline that has `fork` is where it would be alone.
def Alone (py : Python) (eq : Value → Value → Bool) (s : PlanSystem S) : Prop :=
  ∀ i r, s.store.registry (s.procs i).pipeline_name = some r → s.store.has_fork r = true →
    Resolving py eq (s.store.pipeline r) (s.procs i).runtime_params s.store i (s.procs i).pc

theorem alone_of_reach {s : PlanSystem S}
    (hr : Reach (PlanSystem.step py eq) PlanSystem.Initial (fun _ _ => True) s) :
    Alone py eq s := by
  refine hr.invariant (fun s hs i r _ _ => by rw [hs.2 i]; trivial) fun s e s' hr h _ hstep => ?_
  have hapart := apart_of_reach hr
  cases e with
  | start i pipeline_name runtime_params =>
      simp only [PlanSystem.step] at hstep
      split at hstep
      · cases hstep
        intro j r hname hfork
        by_cases hj : j = i
        · subst hj
          rw [Pool.set_procs_self]
          trivial
        · rw [Pool.set_procs_of_ne _ _ _ hj] at hname ⊢
          exact h j r hname hfork
      · cases hstep
  | go i =>
      obtain ⟨⟨o', pc⟩, hgo, rfl⟩ := Option.map_eq_some_iff.mp hstep
      have huntouched := untouched_go hgo
      intro j r hname hfork
      rw [Pool.set_store] at hname hfork ⊢
      rw [huntouched.registry] at hname
      have hlt := hapart.registered _ r hname
      rw [huntouched.has_fork r hlt] at hfork
      rw [huntouched.pipeline r hlt]
      by_cases hj : j = i
      · subst hj
        rw [Pool.set_procs_self] at hname ⊢
        have hname' : s.store.registry (s.procs j).pipeline_name = some r := hname
        have hafter := (h j r hname' hfork).go hname' hfork (hapart.found j) hgo
        exact hafter
      · rw [Pool.set_procs_of_ne _ _ _ hj] at hname ⊢
        refine (h j r hname hfork).frame huntouched hj fun a ha =>
          ⟨hapart.held j a ha, fun hyes hheld => ?_⟩
        rw [hapart.distinct j i a hj ha hheld] at hyes
        cases hyes

end Plans

section Main

def PlanPc.ended : PlanPc S → Bool
  | .done _ _ => true
  | .failed _ => true
  | _ => false

-- How many steps of its own an execution still makes.
def PlanPc.left : PlanPc S → ℕ
  | .idle => 9
  | .get => 8
  | .fork _ => 7
  | .check _ => 6
  | .store _ => 5
  | .define _ => 4
  | .keep _ _ => 3
  | .read _ => 2
  | .use _ _ => 1
  | .done _ _ => 0
  | .failed _ => 0

theorem exists_go (py : Python) (eq : Value → Value → Bool) (i : TaskId) (o : Objects S)
    (task : PlanTask S) (hidle : task.pc ≠ .idle)
    (hended : task.pc.ended = false) : ∃ r, task.go py eq i o = some r ∧
      r.2.left < task.pc.left := by
  unfold PlanTask.go
  cases hpc : task.pc with
  | idle => exact absurd hpc hidle
  | get =>
      cases hname : o.registry task.pipeline_name with
      | none => exact ⟨_, rfl, Nat.succ_pos _⟩
      | some a => exact ⟨_, rfl, Nat.lt_succ_self _⟩
  | fork a =>
      dsimp only
      split <;> exact ⟨_, rfl, Nat.lt_succ_self _⟩
  | check a =>
      dsimp only
      split
      · exact ⟨_, rfl, Nat.succ_pos _⟩
      · exact ⟨_, rfl, Nat.lt_succ_self _⟩
  | store a => exact ⟨_, rfl, Nat.lt_succ_self _⟩
  | define a =>
      dsimp only
      split
      · exact ⟨_, rfl, Nat.succ_pos _⟩
      · exact ⟨_, rfl, Nat.lt_succ_self _⟩
  | keep a source => exact ⟨_, rfl, Nat.lt_succ_self _⟩
  | read a => exact ⟨_, rfl, Nat.lt_succ_self _⟩
  | use a enriched_params =>
      dsimp only
      split <;> exact ⟨_, rfl, Nat.succ_pos _⟩
  | done enriched_params source =>
      rw [hpc] at hended
      cases hended
  | failed e =>
      rw [hpc] at hended
      cases hended

-- Executions of one process, of the same pipelines or others, in any order of their steps:
-- each has the plan it would have alone, or fails as it would, the registered pipelines
-- stay as they are, and none waits for another.
theorem plans_apart {s : PlanSystem S}
    (hr : Reach (PlanSystem.step py eq) PlanSystem.Initial (fun _ _ => True) s) :
    (∀ name a, s.store.registry name = some a → s.store.has_fork a = true →
      s.store.attributes a = ⟨none, none⟩) ∧
      ∀ i a, s.store.registry (s.procs i).pipeline_name = some a → s.store.has_fork a = true →
        (∀ enriched_params source, (s.procs i).pc = .done enriched_params source →
          ∃ enriched, enriched_params = some enriched ∧
          resolve_alone py eq (s.store.pipeline a) (s.procs i).runtime_params =
            .ok (enriched, source)) ∧
        (∀ e, (s.procs i).pc = .failed e →
          resolve_alone py eq (s.store.pipeline a) (s.procs i).runtime_params = .error e) ∧
        ((s.procs i).pc ≠ .idle → (s.procs i).pc.ended = false →
          ∃ s', s.step py eq (.go i) = some s' ∧
          (s'.procs i).pc.left < (s.procs i).pc.left ∧ ∀ j, j ≠ i →
          (s'.procs j).pc = (s.procs j).pc) := by
  have halone := alone_of_reach hr
  refine ⟨(apart_of_reach hr).unresolved, fun i a hname hfork =>
    ⟨fun enriched_params source hpc => ?_, fun e hpc => ?_,
    fun hidle hended => ?_⟩⟩
  · have hresolving := halone i a hname hfork
    rw [hpc] at hresolving
    exact hresolving
  · have hresolving := halone i a hname hfork
    rw [hpc] at hresolving
    exact hresolving
  · obtain ⟨r, hgo, hleft⟩ := exists_go py eq i s.store (s.procs i) hidle hended
    refine ⟨s.set i r.1 { s.procs i with pc := r.2 }, ?_, ?_, fun j hj => ?_⟩
    · simp only [PlanSystem.step, hgo, Option.map_some]
    · rw [Pool.set_procs_self]
      exact hleft
    · rw [Pool.set_procs_of_ne _ _ _ hj]

-- A pipeline whose plan is as many pages as the request says.
def paged : PipelineClass ℕ where
  name := "paged"
  id_based := false
  define_parameters := [⟨"pages", true, .int, .None, []⟩]
  define_jobs params :=
    match params "pages" with
    | some (.int n) => (.ok (some n.toNat), params.set "planned" (.bool true))
    | _ => (.ok none, params)

def plain : Python := ⟨fun _ => "", id, fun _ => "", fun _ => "", fun _ => false, fun _ => .ok ""⟩

def paged_objects (has_fork : Bool) : PlanSystem ℕ where
  store :=
    { registry := fun name => if name = "paged" then some 0 else none
      missing := fun _ => ""
      pipeline := fun _ => paged
      has_fork := fun _ => has_fork
      attributes := fun _ => ⟨none, none⟩
      next := 1
      dicts := fun _ => .empty }
  procs _ := ⟨"", .empty, .idle⟩

theorem initial_paged_objects (has_fork : Bool) : (paged_objects has_fork).Initial := by
  refine ⟨fun name a h => ⟨?_, rfl⟩, fun _ => rfl⟩
  simp only [paged_objects, Option.ite_none_right_eq_some, Option.some.injEq] at h
  rw [← h.2]
  exact Nat.one_pos

def pages (n : ℤ) : Params := Params.empty.set "pages" (.int n)

-- Two runs of it, step by step in turn.
def both_runs : List PlanEvent :=
  [.start 0 "paged" (pages 3), .start 1 "paged" (pages 5)] ++
    (List.replicate 8 [.go 0, .go 1]).flatten

def source_of (s : PlanSystem ℕ) (i : TaskId) : Option ℕ :=
  match (s.procs i).pc with
  | .done _ source => some source
  | _ => none

theorem plans_apart_paged : ∃ s : PlanSystem ℕ,
    Reach (PlanSystem.step plain fun _ _ => false) PlanSystem.Initial (fun _ _ => True) s ∧
      source_of s 0 = some 3 ∧ source_of s 1 = some 5 ∧
      ∀ name a, s.store.registry name = some a → s.store.has_fork a = true →
        s.store.attributes a = ⟨none, none⟩ := by
  obtain ⟨s, hr, -, htest⟩ := Reach.replay (PlanSystem.step plain fun _ _ => false)
    PlanSystem.Initial
    (fun _ _ => True) (fun _ _ => true) (fun _ _ _ => trivial)
      (initial_paged_objects true) both_runs
    (fun s => source_of s 0 = some 3 ∧ source_of s 1 = some 5) (by decide +kernel)
  have htest' : source_of s 0 = some 3 ∧ source_of s 1 = some 5 := of_decide_eq_true htest
  exact ⟨s, hr, htest'.1, htest'.2, (plans_apart hr).1⟩

end Main

end Reflowfy.PipelineResolution
