import Reflowfy.Dlq.JobView

namespace Reflowfy.DLQScheduler

open Interleaving

variable {dumps : Params → String} {c f : Prop} {s : DlqSystem} {i j : TaskId} {k : JobId}

section Data

variable {store : DlqStore} {group rest : Jobs} {done writes : JobWrites} {job : DLQJob}
    {write : JobWrite}

theorem Moves.same {d d' : JobData} {ph ph' : Phase} (hd : d' = d) (hph : ph' = ph) :
    Moves c f ⟨d, ph⟩ ⟨d', ph'⟩ :=
  .inl (by rw [hd, hph])

theorem data_start_of_notMem (h : k ∉ group.map Prod.fst) :
    (store.start group).data k = store.data k := by
  simp only [DlqStore.data, DlqStore.start, List.count_append,
    List.count_eq_zero_of_not_mem h, Nat.zero_add]
  rfl

theorem data_start_of_mem (hnodup : (group.map Prod.fst).Nodup) (h : k ∈ group.map Prod.fst) :
    (store.start group).data k = { store.data k with started := (store.data k).started + 1 } := by
  simp only [DlqStore.data, DlqStore.start, List.count_append,
    List.count_eq_one_of_mem hnodup h, Nat.add_comm]
  rfl

theorem data_start_self :
    (store.start [(k, job)]).data k = { store.data k with started := (store.data k).started + 1 } :=
  data_start_of_mem (List.nodup_singleton k) (List.mem_singleton_self k)

theorem data_fail_of_notMem (h : k ∉ group.map Prod.fst) :
    (store.fail group).data k = store.data k := by
  simp only [DlqStore.data, DlqStore.fail, List.count_append,
    List.count_eq_zero_of_not_mem h, Nat.zero_add]
  rfl

theorem data_fail_of_mem (hnodup : (group.map Prod.fst).Nodup) (h : k ∈ group.map Prod.fst) :
    (store.fail group).data k = { store.data k with failures := (store.data k).failures + 1 } := by
  simp only [DlqStore.data, DlqStore.fail, List.count_append,
    List.count_eq_one_of_mem hnodup h, Nat.add_comm]
  rfl

theorem data_fail_self :
    (store.fail [(k, job)]).data k =
    { store.data k with failures := (store.data k).failures + 1 } :=
  data_fail_of_mem (List.nodup_singleton k) (List.mem_singleton_self k)

theorem data_record_of_notMem {id : ℕ} (h : k ∉ group.map Prod.fst) :
    (store.record group id).data k = store.data k := by
  simp only [DlqStore.data, DlqStore.record]
  rw [List.filter_cons_of_neg (by simpa using h)]
  rfl

theorem data_record_of_mem {id : ℕ} (h : k ∈ group.map Prod.fst) :
    (store.record group id).data k =
    { store.data k with dispatched := id :: (store.data k).dispatched } := by
  simp only [DlqStore.data, DlqStore.record]
  rw [List.filter_cons_of_pos (by simpa using h)]
  rfl

theorem data_record_self {id : ℕ} :
    (store.record [(k, job)] id).data k =
    { store.data k with dispatched := id :: (store.data k).dispatched } :=
  data_record_of_mem (List.mem_singleton_self k)

theorem data_set_job_of_ne {k' : JobId} (h : k ≠ k') :
    (store.set_job k' job).data k = store.data k := by
  simp only [DlqStore.data, DlqStore.set_job, Function.update_of_ne h]
  rfl

theorem data_set_job_self :
    (store.set_job k job).data k = { store.data k with row := some job } := by
  simp only [DlqStore.data, DlqStore.set_job, Function.update_self]
  rfl

theorem data_commit (hdone : done.lookup k = none) :
    (store.commit i done).data k = store.data k := by
  simp only [DlqStore.data, DlqStore.commit, DlqStore.write, hdone]
  rfl

theorem data_commit_some (hdone : done.lookup k = some write) :
    (store.commit i done).data k = (store.data k).write write := by
  simp only [DlqStore.data, DlqStore.commit, hdone]
  cases write <;> rfl

-- What a job is in depends on where its number stands.
theorem phaseIn_written (h : done.lookup k = some write) :
    phaseIn k group rest done = .written write := by
  simp only [phaseIn, h]

theorem phaseIn_running (hdone : k ∉ done.map Prod.fst) (h : group.lookup k = some job) :
    phaseIn k group rest done = .running job := by
  simp only [phaseIn, lookup_eq_none_of_notMem hdone, h]

theorem phaseIn_taken (hdone : k ∉ done.map Prod.fst) (hgroup : k ∉ group.map Prod.fst)
    (h : rest.lookup k = some job) :
    phaseIn k group rest done = .taken job := by
  simp only [phaseIn, lookup_eq_none_of_notMem hdone, lookup_eq_none_of_notMem hgroup, h]
  rfl

-- A job of another group is where it was.
theorem phaseIn_start (hgroup : k ∉ group.map Prod.fst) :
    phaseIn k group rest done = phaseIn k [] (group ++ rest) done := by
  simp only [phaseIn, lookup_eq_none_of_notMem hgroup, List.lookup_nil,
    List.lookup_append, Option.none_or]

theorem phaseIn_end (hgroup : k ∉ group.map Prod.fst) (hwrites : k ∉ writes.map Prod.fst) :
    phaseIn k [] rest (writes ++ done) = phaseIn k group rest done := by
  simp only [phaseIn, lookup_eq_none_of_notMem hgroup, List.lookup_nil, List.lookup_append,
    lookup_eq_none_of_notMem hwrites, Option.none_or]

end Data

section Steps

theorem phase_batch (groups : List Jobs) (done : JobWrites) :
    (DlqPc.batch groups done).phase k = phaseIn k [] groups.flatten done := rfl

theorem phase_dispatch (group : Jobs) (groups : List Jobs) (done : JobWrites) :
    (DlqPc.dispatch group groups done).phase k = phaseIn k group groups.flatten done := rfl

theorem phase_of_nil {pc : DlqPc} (hheld : pc.held = []) (hwindow : pc.window = []) :
    pc.phase k = .free :=
  phase_free (by rw [hheld]; exact List.not_mem_nil) (by rw [hwindow]; exact List.not_mem_nil)

-- A call that owns nothing before and after, and leaves the tables alone.
theorem Base.stay (h : Base s) {pc : DlqPc} (hheld : (s.procs i).held = [])
    (hwindow : (s.procs i).window = []) (hheld' : pc.held = []) (hwindow' : pc.window = []) :
    Base (s.set i s.store pc) ∧
      ∀ k, Moves c f (s.view k) (DlqSystem.view k (s.set i s.store pc)) := by
  refine h.set h.apart
    ((h.owned i).next rfl rfl (by rw [hheld, hheld']) (by rw [hwindow, hwindow']))
    (fun j _ => .of_eq rfl rfl) (fun j k _ _ => .same rfl rfl) fun k _ => .same rfl ?_
  rw [phase_of_nil hheld hwindow, phase_of_nil hheld' hwindow']

theorem ready_iff {pc : DlqPc} : pc.ready = true ↔ pc = .idle := by
  cases pc <;> simp [DlqPc.ready]

theorem call_moves (h : Base s) {s' : DlqSystem} {pc : DlqPc} (hstep : s.call i pc = some s')
    (hheld : pc.held = [])
    (hwindow : pc.window = []) : Base s' ∧ ∀ k, Moves c f (s.view k) (s'.view k) := by
  unfold DlqSystem.call at hstep
  split at hstep
  · rename_i hready
    cases hstep
    have hidle := ready_iff.mp hready
    exact h.stay (by rw [hidle]; rfl) (by rw [hidle]; rfl) hheld hwindow
  · cases hstep

theorem load_keys {store : DlqStore} {ids : List JobId} (h : ∀ k ∈ ids, (store.jobs k).isSome) :
    (store.load ids).map Prod.fst = ids := by
  induction ids with
  | nil => rfl
  | cons k ids ih =>
      obtain ⟨job, hjob⟩ := Option.isSome_iff_exists.mp (h k List.mem_cons_self)
      have htail := ih fun k hk => h k (List.mem_cons_of_mem _ hk)
      simp only [DlqStore.load, List.filterMap_cons, hjob, Option.map_some,
        List.map_cons] at htail ⊢
      rw [htail]

theorem mem_load {store : DlqStore} {ids : List JobId} {p : JobId × DLQJob}
    (h : p ∈ store.load ids) :
    p.1 ∈ ids ∧ store.jobs p.1 = some p.2 := by
  obtain ⟨k, hk, hmap⟩ := List.mem_filterMap.mp h
  obtain ⟨job, hjob, rfl⟩ := Option.map_eq_some_iff.mp hmap
  exact ⟨hk, hjob⟩

-- What the two SELECTs find is pending and free, and their groups are of just these jobs.
theorem select_found {store : DlqStore} {pc : DlqPc} {found : List JobId}
    {groups : Jobs → List Jobs} (h : pc.select dumps store = some (found, groups)) :
    found.Nodup ∧ (∀ k ∈ found, store.locks k = none ∧ ∃ job, store.jobs k = some job ∧
      job.status = .pending) ∧
      (∀ jobs, (groups jobs).flatten.Perm jobs) ∧ pc.held = [] ∧ pc.window = [] := by
  have hfind : ∀ filter : DLQJob → Bool, (∀ job, filter job = true → job.status = .pending) →
      (store.find filter).Nodup ∧
        ∀ k ∈ store.find filter, store.locks k = none ∧ ∃ job, store.jobs k = some job ∧
            job.status = .pending := by
    intro filter hfilter
    refine ⟨List.nodup_range.filter _, fun k hk => ?_⟩
    obtain ⟨-, hcond⟩ := List.mem_filter.mp hk
    obtain ⟨hfree, hany⟩ := of_decide_eq_true hcond
    obtain ⟨job, hjob, hpass⟩ := Option.any_eq_true _ _ |>.mp hany
    exact ⟨hfree, job, hjob, hfilter job hpass⟩
  cases pc with
  | poll now =>
      cases h
      obtain ⟨hnodup, hfound⟩ := hfind (fun job => job.status = .pending ∧ job.scheduled_at ≤ now)
        fun job hjob => (of_decide_eq_true hjob).1
      exact ⟨hnodup, hfound, fun jobs =>
        (flatMap_groups_perm (group_by_perm _) _).trans (group_by_perm _ jobs), rfl, rfl⟩
  | pipeline pipeline_name =>
      cases h
      obtain ⟨hnodup, hfound⟩ := hfind (fun job => job.pipeline_name = pipeline_name ∧
        job.status = .pending)
        fun job hjob => (of_decide_eq_true hjob).2
      exact ⟨hnodup, hfound, group_by_perm _, rfl, rfl⟩
  | _ => cases h

theorem select_moves (h : Base s) {jobs found : List JobId} {groups : Jobs → List Jobs}
    (hselect : (s.procs i).select dumps s.store = some (found, groups)) (hperm : jobs.Perm found)
    (hlockable : ∀ k ∈ jobs, s.store.handling k = none) :
    let s' := s.set i { s.store with locks := s.store.locks.take i jobs }
      (.batch (groups (s.store.load jobs)) [])
    Base s' ∧ ∀ k, Moves c f (s.view k) (DlqSystem.view k s') := by
  intro s'
  obtain ⟨hnodup, hfound, hgroups, hheld, hwindow⟩ := select_found hselect
  have hrows : ∀ k ∈ jobs, s.store.locks k = none ∧ ∃ job, s.store.jobs k = some job ∧
      job.status = .pending :=
    fun k hk => hfound k (hperm.mem_iff.mp hk)
  have hkeys : (s.store.load jobs).map Prod.fst = jobs := load_keys fun k hk => by
    obtain ⟨-, job, hjob, -⟩ := hrows k hk
    simp [hjob]
  have hflat : ((groups (s.store.load jobs)).flatten.map Prod.fst).Perm jobs :=
    ((hgroups _).map Prod.fst).trans (.of_eq hkeys)
  have hnodup' : jobs.Nodup := hperm.nodup_iff.mpr hnodup
  refine h.set (h.apart.take rfl rfl hlockable)
    ((h.owned i).take rfl rfl hheld (by simpa [DlqPc.held] using hflat) hnodup'
      (by rw [hwindow]; rfl))
    (fun j hj => .of_take hj (fun k hk => (hrows k hk).1) rfl rfl)
      (fun j k _ _ => .same rfl rfl) fun k hmine => ?_
  have hfree : (s.procs i).phase k = .free := phase_of_nil hheld hwindow
  by_cases hk : k ∈ jobs
  · obtain ⟨-, job, hjob, hpending⟩ := hrows k hk
    obtain ⟨job', hlookup, hmem⟩ := exists_lookup_eq_some (hflat.mem_iff.mpr hk)
    have hsame : s.store.jobs k = some job' := (mem_load ((hgroups _).mem_iff.mp hmem)).2
    obtain rfl : job' = job := Option.some.inj (hsame.symm.trans hjob)
    rw [hfree, phase_batch, phaseIn_taken (notMem_keys_nil k) (notMem_keys_nil k) hlookup]
    exact .inr (.take hjob hpending)
  · refine .same rfl ?_
    rw [hfree]
    exact phaseIn_free (notMem_keys_nil k) (fun hmem => hk (hflat.mem_iff.mp hmem))
      (notMem_keys_nil k)

theorem start_moves (h : Base s) {group : Jobs} {groups : List Jobs} {done : JobWrites}
    (hpc : s.procs i = .batch (group :: groups) done) :
    Base (s.set i (s.store.start group) (.dispatch group groups done)) ∧
      ∀ k, Moves c f (s.view k)
        (DlqSystem.view k (s.set i (s.store.start group) (.dispatch group groups done))) := by
  have hown := h.owned i
  rw [hpc] at hown
  have hheld : (DlqPc.dispatch group groups done).held =
      (DlqPc.batch (group :: groups) done).held := by
    simp [DlqPc.held]
  have hnodup := hown.nodup
  simp only [DlqPc.held, List.flatten_cons, List.map_append] at hnodup
  have hgroup : (group.map Prod.fst).Nodup := hnodup.of_append_left.of_append_left
  refine h.set h.apart (hown.next rfl rfl (.of_eq hheld) rfl) (fun j _ => .of_eq rfl rfl)
    (fun j k hj howner => .same ?_ rfl) fun k hmine => ?_
  · refine data_start_of_notMem fun hk => ?_
    have hi : s.store.owner k = some i :=
      h.owner_iff.mpr (.inl (by rw [hpc, ← hheld]; simp [DlqPc.held, hk]))
    rw [howner] at hi
    exact hj (Option.some.inj hi)
  · rw [hpc]
    by_cases hk : k ∈ group.map Prod.fst
    · have hdone : k ∉ done.map Prod.fst := fun hmem =>
        (List.nodup_append.mp hnodup).2.2 k (List.mem_append_left _ hk) k hmem rfl
      obtain ⟨job, hlookup, -⟩ := exists_lookup_eq_some hk
      have htaken : (group :: groups).flatten.lookup k = some job := by
        rw [List.flatten_cons, List.lookup_append, hlookup]
        rfl
      rw [phase_batch, phaseIn_taken hdone (notMem_keys_nil k) htaken, phase_dispatch,
        phaseIn_running hdone hlookup,
        data_start_of_mem hgroup hk]
      exact .inr .start
    · exact .same (data_start_of_notMem hk) (phaseIn_start hk)

theorem commit_moves (h : Base s) {done : JobWrites} (hpc : s.procs i = .batch [] done) :
    Base (s.set i (s.store.commit i done) .idle) ∧
      ∀ k, Moves c f (s.view k) (DlqSystem.view k (s.set i (s.store.commit i done) .idle)) := by
  have hown := h.owned i
  refine h.set (h.apart.release rfl (.inr rfl)) (hown.release rfl (.inr ⟨rfl, by rw [hpc]; rfl⟩))
    (fun j hj => .of_release hj rfl (.inl rfl))
      (fun j k hj howner => .same ?_ rfl) fun k hmine => ?_
  · refine data_commit (lookup_eq_none_of_notMem fun hk => ?_)
    have hi : s.store.owner k = some i :=
      h.owner_iff.mpr (.inl (by rw [hpc]; simpa [DlqPc.held] using hk))
    rw [howner] at hi
    exact hj (Option.some.inj hi)
  · rw [hpc]
    by_cases hk : k ∈ done.map Prod.fst
    · obtain ⟨write, hlookup, -⟩ := exists_lookup_eq_some hk
      rw [phase_batch, phaseIn_written hlookup, data_commit_some hlookup]
      exact .inr .commit
    · exact .same (data_commit (lookup_eq_none_of_notMem hk))
        (phaseIn_free (notMem_keys_nil k) (notMem_keys_nil k) hk).symm

-- What the call of `i` owns, no other does.
theorem Base.not_mine (h : Base s) (hj : j ≠ i) (howner : s.store.owner k = some j) :
    k ∉ (s.procs i).held ∧ k ∉ (s.procs i).window := by
  rw [← not_or, ← h.owner_iff, howner]
  exact fun heq => hj (Option.some.inj heq)

theorem lock_moves (h : Base s) {k₀ : JobId} {job : DLQJob} (hpc : s.procs i = .manual k₀)
    (hfree : s.store.locks k₀ = none) (hlockable : s.store.handling k₀ = none)
    (hrow : s.store.jobs k₀ = some job) (hpending : job.status = .pending) :
    let s' := s.set i (DlqStore.start
      { s.store with locks := s.store.locks.take i [k₀] } [(k₀, job)])
      (.manual_dispatch k₀ job)
    Base s' ∧ ∀ k, Moves c f (s.view k) (DlqSystem.view k s') := by
  intro s'
  have hown := h.owned i
  rw [hpc] at hown
  refine h.set (h.apart.take rfl rfl (by simpa using hlockable))
    (hown.take rfl rfl rfl (.refl [k₀]) (List.nodup_singleton _) rfl)
    (fun j hj => .of_take hj (by simpa using hfree) rfl rfl)
      (fun j k hj howner => .same ?_ rfl) fun k hmine => ?_
  · refine @data_start_of_notMem k { s.store with locks := _ } _ fun hk => ?_
    obtain rfl : k = k₀ := by simpa using hk
    simp [DlqStore.owner, hfree, hlockable] at howner
  · rw [hpc]
    by_cases hk : k = k₀
    · subst hk
      refine .inr ?_
      rw [data_start_self]
      show JobStep c f ⟨_, .free⟩ ⟨_, if k = k then .running job else .free⟩
      rw [if_pos rfl]
      exact .lock hrow hpending
    · exact .same (data_start_of_notMem (by simpa using hk)) (if_neg (Ne.symm hk))

-- The handler goes on in its window.
theorem reload_moves (h : Base s) {k₀ : JobId} {error_msg : String} {job : DLQJob}
    {write : JobWrite} (hpc : s.procs i = .failed k₀ error_msg) (hrow : s.store.jobs k₀ = some job)
    (hwrite : job.handle_job_failure error_msg s.store.clock = some write) :
    Base (s.set i s.store (.handled k₀ job write)) ∧
      ∀ k, Moves c f (s.view k) (DlqSystem.view k (s.set i s.store (.handled k₀ job write))) := by
  have hown := h.owned i
  rw [hpc] at hown
  refine h.set h.apart (hown.next rfl rfl (.refl _) rfl) (fun j _ => .of_eq rfl rfl)
    (fun j k _ _ => .same rfl rfl)
    fun k _ => ?_
  rw [hpc]
  by_cases hk : k₀ = k
  · subst hk
    simp only [DlqPc.phase, if_true]
    exact .inr (.reload hrow hwrite)
  · exact .same rfl (by simp only [DlqPc.phase, hk, if_false])

-- The end of a transaction that has changed none of the tables.
theorem rollback_moves (h : Base s) {store : DlqStore}
    (hlocks : store.locks = s.store.locks.release i)
    (hhandling : store.handling = s.store.handling.release i)
    (hothers : ∀ k, k ∉ (s.procs i).held → k ∉ (s.procs i).window → store.data k = s.store.data k)
    (hmine : ∀ k, k ∈ (s.procs i).held ∨ k ∈ (s.procs i).window →
      Moves c f ⟨s.store.data k, (s.procs i).phase k⟩ ⟨store.data k, .free⟩) :
    Base (s.set i store .idle) ∧
      ∀ k, Moves c f (s.view k) (DlqSystem.view k (s.set i store .idle)) := by
  refine h.set (h.apart.release hlocks (.inl hhandling))
    ((h.owned i).release hlocks (.inl hhandling))
    (fun j hj => .of_release hj hlocks (.inr hhandling)) (fun j k hj howner => ?_) fun k _ => ?_
  · obtain ⟨hheld, hwindow⟩ := h.not_mine hj howner
    exact .same (hothers k hheld hwindow) rfl
  · by_cases hk : k ∈ (s.procs i).held ∨ k ∈ (s.procs i).window
    · exact hmine k hk
    · rw [not_or] at hk
      exact .same (hothers k hk.1 hk.2) (phase_free hk.1 hk.2).symm

theorem data_write_failure_of_ne {store : DlqStore} {k₀ : JobId} {loaded : DLQJob}
    {write : JobWrite} (hk : k ≠ k₀) :
    (store.write_failure k₀ loaded write).data k = store.data k := by
  cases write with
  | update new =>
      cases hrow : store.jobs k₀ with
      | none => simp only [DlqStore.write_failure, hrow, Option.elim_none]
      | some current =>
          simp only [DlqStore.write_failure, hrow, Option.elim_some]
          exact data_set_job_of_ne hk
  | archive row =>
      simp only [DlqStore.write_failure]
      split
      · rfl
      · simp only [DlqStore.data, Function.update_of_ne hk]

-- What the failure handler writes touches no lock but those it gives up.
theorem write_failure_released (store : DlqStore) (i : TaskId) (k : JobId) (loaded : DLQJob)
    (write : JobWrite) :
    ((store.write_failure k loaded write).rollback i).locks = store.locks.release i ∧
      ((store.write_failure k loaded write).rollback i).handling = store.handling.release i := by
  simp only [DlqStore.rollback, DlqStore.write_failure]
  cases write with
  | update new => cases store.jobs k <;> exact ⟨rfl, rfl⟩
  | archive row =>
      simp only
      split <;> exact ⟨rfl, rfl⟩

theorem handled_moves (h : Base s) {k₀ : JobId} {loaded : DLQJob} {write : JobWrite}
    (hpc : s.procs i = .handled k₀ loaded write) :
    let s' := s.set i ((s.store.write_failure k₀ loaded write).rollback i) .idle
    Base s' ∧ ∀ k, Moves c f (s.view k) (DlqSystem.view k s') := by
  intro s'
  obtain ⟨hlocks, hhandling⟩ := write_failure_released s.store i k₀ loaded write
  refine rollback_moves h hlocks hhandling (fun k _ hwindow => ?_) fun k hk => ?_
  · rw [hpc] at hwindow
    exact data_write_failure_of_ne (by simpa [DlqPc.window] using hwindow)
  · obtain rfl : k = k₀ := by simpa [hpc, DlqPc.held, DlqPc.window] using hk
    simp only [hpc, DlqPc.phase, if_true]
    refine .inr ?_
    show JobStep c f _ ⟨(s.store.write_failure k loaded write).data k, .free⟩
    cases write with
    | update new =>
        cases hrow : s.store.jobs k with
        | none =>
            simp only [DlqStore.write_failure, hrow, Option.elim_none]
            exact .stale (.inl hrow)
        | some current =>
            simp only [DlqStore.write_failure, hrow, Option.elim_some, data_set_job_self]
            exact .recorded hrow
    | archive row =>
        simp only [DlqStore.write_failure]
        split
        · rename_i hsome
          exact .stale (.inr hsome)
        · rename_i hnone
          simp only [DlqStore.data, Function.update_self]
          exact .archived (by simpa using hnone)

theorem window_unlocked {pc : DlqPc} (h : k ∈ pc.window) : (pc.phase k).unlocked := by
  cases pc with
  | failed k' error_msg =>
      obtain rfl : k = k' := List.mem_singleton.mp h
      simp [DlqPc.phase, Phase.unlocked]
  | handled k' loaded write =>
      obtain rfl : k = k' := List.mem_singleton.mp h
      simp [DlqPc.phase, Phase.unlocked]
  | _ => cases h

-- The UPDATE of a cancel sets the status alone.
theorem flush_cancel {loaded : DLQJob} (h : loaded.status = .pending) (job : DLQJob) :
    loaded.flush loaded.cancel job = job.cancel := by
  simp [DLQJob.flush, DLQJob.cancel, updated, h]

-- The row of an undisturbed cancel is pending, as its SELECT has found it.
theorem cancel_moves (h : Base s) {k₀ : JobId}
    {loaded : { job : DLQJob // job.status = .pending }} {job : DLQJob}
    (hpc : s.procs i = .cancelling k₀ loaded) (hfree : s.store.locks k₀ = none)
    (hrow : s.store.jobs k₀ = some job)
    (hfinal : f → s.store.handling k₀ = none ∧ job.status = loaded.1.status) :
    let s' := s.set i { s.store.set_job k₀ (loaded.1.flush loaded.1.cancel job) with
      cancelled := k₀ :: s.store.cancelled } .idle
    Base s' ∧ ∀ k, Moves c f (s.view k) (DlqSystem.view k s') := by
  intro s'
  have hown := h.owned i
  rw [hpc] at hown
  have hpending : f → job.status = .pending := fun hf => (hfinal hf).2.trans loaded.2
  have hne : ∀ k, k ≠ k₀ →
      DlqStore.data k { s.store.set_job k₀ (loaded.1.flush loaded.1.cancel job) with
      cancelled := k₀ :: s.store.cancelled } = s.store.data k := by
    intro k hk
    simp [DlqStore.data, DlqStore.set_job, hk]
    rfl
  have hself : DlqStore.data k₀ { s.store.set_job k₀ (loaded.1.flush loaded.1.cancel job) with
      cancelled := k₀ :: s.store.cancelled } =
          { s.store.data k₀ with row := some job.cancel, cancelled := true } := by
    simp [DlqStore.data, DlqStore.set_job, flush_cancel loaded.2]
  refine h.set h.apart (hown.next rfl rfl (.refl _) rfl) (fun j _ => .of_eq rfl rfl)
    (fun j k hj howner => ?_) fun k _ => ?_
  · by_cases hk : k = k₀
    · subst hk
      have hhandling : s.store.handling k = some j := by simpa [DlqStore.owner, hfree] using howner
      rw [hself]
      refine .inr (.cancel hrow
        (window_unlocked (((h.owned j).handling k).mp hhandling)) fun hf => ?_)
      rw [(hfinal hf).1] at hhandling
      cases hhandling
    · exact .same (hne k hk) rfl
  · rw [hpc]
    by_cases hk : k = k₀
    · subst hk
      rw [hself]
      exact .inr (.cancel hrow rfl fun hf => ⟨rfl, hpending hf⟩)
    · exact .same (hne k hk) rfl

section Outcomes

variable {group : Jobs} {groups : List Jobs} {done writes : JobWrites}

-- The group that was running is behind the call now, with what has become of each of its jobs.
theorem outcome_moves (h : Base s) (hpc : s.procs i = .dispatch group groups done)
    {store : DlqStore}
    (hlocks : store.locks = s.store.locks) (hhandling : store.handling = s.store.handling)
    (hkeys : writes.map Prod.fst = group.map Prod.fst)
    (hothers : ∀ k, k ∉ group.map Prod.fst → store.data k = s.store.data k)
    (hmine : ∀ k job write, (k, job) ∈ group → group.lookup k = some job →
      writes.lookup k = some write →
      Moves c f ⟨s.store.data k, .running job⟩ ⟨store.data k, .written write⟩) :
    Base (s.set i store (.batch groups (writes ++ done))) ∧
      ∀ k, Moves c f (s.view k)
        (DlqSystem.view k (s.set i store (.batch groups (writes ++ done)))) := by
  have hown := h.owned i
  rw [hpc] at hown
  have hnodup := hown.nodup
  simp only [DlqPc.held] at hnodup
  have hheld : (DlqPc.batch groups (writes ++ done)).held.Perm
      (DlqPc.dispatch group groups done).held := by
    simp only [DlqPc.held, List.map_append, hkeys, List.append_assoc]
    exact List.perm_append_comm_assoc _ _ _
  have hapart : Apart store := fun k => by rw [hlocks, hhandling]; exact h.apart k
  refine h.set hapart (hown.next hlocks hhandling hheld rfl) (fun j _ => .of_eq hlocks hhandling)
    (fun j k hj howner => .same (hothers k fun hk => ?_) rfl) fun k _ => ?_
  · refine (h.not_mine hj howner).1 ?_
    rw [hpc]
    simp only [DlqPc.held, List.mem_append]
    exact .inl (.inl hk)
  · rw [hpc, phase_dispatch, phase_batch]
    by_cases hk : k ∈ group.map Prod.fst
    · have hdone : k ∉ done.map Prod.fst := fun hmem =>
        (List.nodup_append.mp hnodup).2.2 k (List.mem_append_left _ hk) k hmem rfl
      obtain ⟨job, hjob, hmem⟩ := exists_lookup_eq_some hk
      obtain ⟨write, hwrite, -⟩ := exists_lookup_eq_some (hkeys ▸ hk : k ∈ writes.map Prod.fst)
      rw [phaseIn_running hdone hjob, phaseIn_written (by rw [List.lookup_append, hwrite]; rfl)]
      exact hmine k job write hmem hjob hwrite
    · exact .same (hothers k hk) (phaseIn_end hk (hkeys ▸ hk))

theorem lookup_map {α β : Type} (g : JobId → α → β) (l : List (JobId × α)) (k : JobId) :
    (l.map fun p => (p.1, g p.1 p.2)).lookup k = (l.lookup k).map (g k) := by
  induction l with
  | nil => rfl
  | cons p l ih =>
      obtain ⟨k', a⟩ := p
      simp only [List.map_cons, List.lookup_cons]
      by_cases hk : k == k'
      · simp [eq_of_beq hk]
      · simp only [hk, ih]

-- The writes of a group's failures.
theorem handle_group_eq_some {error_msg : String} {now : Int} :
    ∀ {group : Jobs} {writes : JobWrites},
      (group.mapM fun p => (p.2.handle_job_failure error_msg now).map fun write =>
        (p.1, write)) = some writes →
      writes.map Prod.fst = group.map Prod.fst ∧
        ∀ k job write, group.lookup k = some job → writes.lookup k = some write →
          job.handle_job_failure error_msg now = some write := by
  intro group
  induction group with
  | nil =>
      intro writes h
      rw [List.mapM_nil, Option.pure_def, Option.some.injEq] at h
      subst h
      exact ⟨rfl, fun k job write hjob => absurd hjob (by simp)⟩
  | cons p group ih =>
      intro writes h
      obtain ⟨k', job'⟩ := p
      simp only [List.mapM_cons, Option.bind_eq_bind, Option.bind_eq_some_iff,
        Option.map_eq_some_iff, Option.pure_def,
        Option.some.injEq] at h
      obtain ⟨-, ⟨write', hwrite', rfl⟩, writes', hwrites', rfl⟩ := h
      obtain ⟨hkeys, hlookup⟩ := ih hwrites'
      refine ⟨by rw [List.map_cons, List.map_cons, hkeys], fun k job write hjob hwrite => ?_⟩
      simp only [List.lookup_cons] at hjob hwrite
      by_cases hk : k == k'
      · simp only [hk] at hjob hwrite
        cases hjob
        cases hwrite
        exact hwrite'
      · simp only [hk] at hjob hwrite
        exact hlookup k job write hjob hwrite

theorem add_minutes_isSome {t minutes : Int} (h : t + minutes * minute ≤ DATETIME_MAX) :
    (add_minutes t minutes).isSome := by
  unfold add_minutes
  rw [if_pos h, Option.isSome_some]

-- The last failure archives a job, any other reschedules it.
theorem handle_job_failure_last {job : DLQJob} {e : String} {now : Int}
    (h : job.max_retries ≤ job.retry_count + 1) :
    job.handle_job_failure e now =
      some (.archive ((job.count_failure e).archive_job now)) := if_pos h

theorem handle_job_failure_more {job : DLQJob} {e : String} {now : Int}
    (h : job.retry_count + 1 < job.max_retries) :
    job.handle_job_failure e now = (add_minutes now (calculate_backoff (job.retry_count + 1))).map
      fun scheduled_at =>
      .update { job.count_failure e with scheduled_at, status := .pending } :=
  if_neg (Nat.not_le.mpr h)

theorem handle_job_failure_isSome {job : DLQJob} {e : String} {now : Int} (h : job.fits now) :
    (job.handle_job_failure e now).isSome := by
  rcases Nat.lt_or_ge (job.retry_count + 1) job.max_retries with hmore | hlast
  · rw [handle_job_failure_more hmore, Option.isSome_map]
    exact add_minutes_isSome (h hmore)
  · rw [handle_job_failure_last hlast, Option.isSome_some]

theorem exists_handle_group (error_msg : String) {now : Int} {group : Jobs}
    (h : ∀ p : JobId × DLQJob, p ∈ group → p.2.fits now) : ∃ writes : JobWrites,
      (group.mapM fun p => (p.2.handle_job_failure error_msg now).map fun write =>
        (p.1, write)) = some writes := by
  induction group with
  | nil => exact ⟨[], rfl⟩
  | cons p group ih =>
      obtain ⟨write, hwrite⟩ := Option.isSome_iff_exists.mp
        (handle_job_failure_isSome (e := error_msg) (h p List.mem_cons_self))
      obtain ⟨writes, hwrites⟩ := ih fun p hp => h p (List.mem_cons_of_mem _ hp)
      exact ⟨(p.1, write) :: writes, by simp [List.mapM_cons, hwrite, hwrites]⟩

-- A poll whose group's failure has no backoff is rolled back.
theorem overflow_moves (h : Base s) (hpc : s.procs i = .dispatch group groups done) (hcounted : ¬ c)
    (hfinal : f → ∀ p ∈ done, p.2.completed = false) :
    Base (s.set i ((s.store.fail group).rollback i) .idle) ∧
      ∀ k, Moves c f (s.view k)
        (DlqSystem.view k (s.set i ((s.store.fail group).rollback i) .idle)) := by
  have hnodup := (h.owned i).nodup
  rw [hpc] at hnodup
  simp only [DlqPc.held] at hnodup
  refine rollback_moves h rfl rfl (fun k hheld _ => ?_) fun k _ => ?_
  · show (s.store.fail group).data k = _
    refine data_fail_of_notMem fun hk => hheld ?_
    rw [hpc]
    simp only [DlqPc.held, List.mem_append]
    exact .inl (.inl hk)
  · rw [hpc, phase_dispatch]
    show Moves c f _ ⟨(s.store.fail group).data k, .free⟩
    by_cases hk : k ∈ group.map Prod.fst
    · have hdone : k ∉ done.map Prod.fst := fun hmem =>
        (List.nodup_append.mp hnodup).2.2 k (List.mem_append_left _ hk) k hmem rfl
      obtain ⟨job, hjob, -⟩ := exists_lookup_eq_some hk
      rw [phaseIn_running hdone hjob, data_fail_of_mem hnodup.of_append_left.of_append_left hk]
      exact .inr (.overflow hcounted)
    · rw [data_fail_of_notMem hk]
      refine .inr (.undo hcounted fun hf => ?_)
      simp only [phaseIn, lookup_eq_none_of_notMem hk]
      split
      · rename_i write hwrite
        exact hfinal hf _ (mem_of_lookup_eq_some hwrite)
      · cases groups.flatten.lookup k <;> rfl

theorem manual_moves (h : Base s) {k₀ : JobId} {job : DLQJob}
    (hpc : s.procs i = .manual_dispatch k₀ job)
    {store : DlqStore} {pc : DlqPc} {outcome : DispatchOutcome} (hcounted : c → outcome.saved)
    (hfinal : f → outcome.saved)
    (hgo : (DlqPc.manual_dispatch k₀ job).outcome i s.store outcome = some (store, pc)) :
    Base (s.set i store pc) ∧ ∀ k, Moves c f (s.view k) (DlqSystem.view k (s.set i store pc)) := by
  have hown := h.owned i
  rw [hpc] at hown
  have hlock : s.store.locks k₀ = some i := (hown.locked k₀).mpr (List.mem_singleton_self k₀)
  have hhandling : s.store.handling k₀ = none := (h.apart k₀).resolve_left (by simp [hlock])
  have hphase : (s.procs i).phase k₀ = .running job := by simp [hpc, DlqPc.phase]
  -- a failed dispatch gives up the row, and keeps it in its window
  have hfailed : ∀ {store : DlqStore} {error_msg : String}, store.locks = s.store.locks.release i →
      store.handling = s.store.handling.take i [k₀] →
        (∀ k, k ≠ k₀ → store.data k = s.store.data k) →
      Moves c f ⟨s.store.data k₀, .running job⟩ ⟨store.data k₀, .failed error_msg⟩ →
      Base (s.set i store (.failed k₀ error_msg)) ∧
        ∀ k, Moves c f (s.view k) (DlqSystem.view k (s.set i store (.failed k₀ error_msg))) := by
    intro store error_msg hlocks htake hne hself
    have hapart : Apart store := by
      intro k
      by_cases hk : k = k₀
      · subst hk
        exact .inl (by rw [hlocks, Locks.release_eq_none_iff]; exact .inr hlock)
      · rw [hlocks, htake, Locks.release_eq_none_iff, Locks.take_eq_none_iff]
        rcases h.apart k with hfree | hfree
        · exact .inl (.inl hfree)
        · exact .inr ⟨by simpa using hk, hfree⟩
    have hown' : Owned store i (.failed k₀ error_msg) := by
      refine ⟨fun k => ?_, fun k => ?_, List.nodup_nil⟩
      · rw [hlocks, Locks.release_eq_some_iff]
        simp [DlqPc.held]
      · rw [htake, Locks.take_eq_self_iff, hown.handling]
        simp [DlqPc.window]
    refine h.set hapart hown' (fun j hj => ⟨fun k => ?_, fun k => ?_⟩)
      (fun j k hj howner => .same (hne k fun hk => ?_) rfl)
      fun k _ => ?_
    · rw [hlocks, Locks.release_eq_some_iff]
      simp [hj]
    · rw [htake, Locks.take_eq_some_iff (by simpa using hhandling) hj]
    · refine (h.not_mine hj howner).1 ?_
      rw [hpc, hk]
      exact List.mem_singleton_self k₀
    · by_cases hk : k = k₀
      · subst hk
        rw [hphase]
        simpa [DlqPc.phase] using hself
      · rw [hpc]
        exact .same (hne k hk) (by simp [DlqPc.phase, Ne.symm hk])
  cases outcome with
  | returned id =>
      cases hgo
      refine rollback_moves h rfl rfl (fun k hheld _ => ?_) fun k hk => ?_
      · have hk : k ≠ k₀ := by simpa [hpc, DlqPc.held] using hheld
        show ((s.store.record [(k₀, job)] id).set_job k₀ _).data k = _
        rw [data_set_job_of_ne hk, data_record_of_notMem (by simpa using hk)]
      · obtain rfl : k = k₀ := by simpa [hpc, DlqPc.held, DlqPc.window] using hk
        rw [hphase]
        show Moves c f _ ⟨((s.store.record [(k, job)] id).set_job k _).data k, .free⟩
        rw [data_set_job_self, data_record_self]
        exact .inr .completed
  | raised error_msg =>
      cases hgo
      refine hfailed rfl rfl (fun k hk => ?_) ?_
      · exact @data_fail_of_notMem k s.store _ (by simpa using hk)
      · show Moves c f _ ⟨(s.store.fail [(k₀, job)]).data k₀, _⟩
        rw [data_fail_self]
        exact .inr .rejected
  | not_committed id error_msg =>
      cases hgo
      refine hfailed rfl rfl (fun k hk => ?_) (.inr (.lost (fun hc => ?_) fun hf => ?_))
      · exact @data_record_of_notMem k s.store _ _ (by simpa using hk)
      · exact absurd (hcounted hc) Bool.false_ne_true
      · exact absurd (hfinal hf) Bool.false_ne_true
  | not_logged id error_msg =>
      cases hgo
      refine hfailed rfl rfl (fun k hk => ?_) (.inr (.lost (fun hc => ?_) fun hf => ?_))
      · show ((s.store.record [(k₀, job)] id).set_job k₀ _).data k = _
        rw [data_set_job_of_ne hk, data_record_of_notMem (by simpa using hk)]
      · exact absurd (hcounted hc) Bool.false_ne_true
      · exact absurd (hfinal hf) Bool.false_ne_true

end Outcomes

-- An open transaction that is rolled back.
theorem abort_moves (h : Base s) (hcounted : ¬ c) (hfinal : f → (s.procs i).unfinished) :
    Base (s.set i (s.store.rollback i) .idle) ∧
      ∀ k, Moves c f (s.view k) (DlqSystem.view k (s.set i (s.store.rollback i) .idle)) := by
  refine rollback_moves h rfl rfl (fun k _ _ => rfl) fun k _ => .inr (.undo hcounted fun hf => ?_)
  have hunfinished := hfinal hf
  have hin : ∀ {group rest : Jobs} {done : JobWrites}, (∀ p ∈ done, p.2.completed = false) →
      (phaseIn k group rest done).completed = false := by
    intro group rest done hdone
    simp only [phaseIn]
    split
    · rename_i write hwrite
      exact hdone _ (mem_of_lookup_eq_some hwrite)
    · split
      · rfl
      · cases rest.lookup k <;> rfl
  cases hpc : s.procs i with
  | batch groups done =>
      rw [hpc] at hunfinished
      rw [phase_batch]
      exact hin hunfinished
  | dispatch group groups done =>
      rw [hpc] at hunfinished
      exact hin hunfinished
  | manual_dispatch k' job => simp only [DlqPc.phase]; split <;> rfl
  | failed k' error_msg => simp only [DlqPc.phase]; split <;> rfl
  | handled k' loaded write => simp only [DlqPc.phase]; split <;> rfl
  | _ => rfl

-- A reload that finds no row, or no backoff.
theorem gone_moves (h : Base s) {k₀ : JobId} {error_msg : String}
    (hpc : s.procs i = .failed k₀ error_msg) (hgone : c → s.store.jobs k₀ = none) :
    Base (s.set i (s.store.rollback i) .idle) ∧
      ∀ k, Moves c f (s.view k) (DlqSystem.view k (s.set i (s.store.rollback i) .idle)) := by
  refine rollback_moves h rfl rfl (fun k _ _ => rfl) fun k hk => ?_
  obtain rfl : k = k₀ := by simpa [hpc, DlqPc.held, DlqPc.window] using hk
  rw [hpc]
  simp only [DlqPc.phase, if_true]
  exact .inr (.gone hgone)

theorem schedule_moves (h : Base s) {pipeline_name : String} {job_payload : Params}
    {delay_minutes : Int} {max_retries : ℕ} (hmax : c → 1 ≤ max_retries) {store : DlqStore}
    (hstore : s.store.schedule pipeline_name job_payload delay_minutes max_retries = some store) :
    Base { s with store } ∧ ∀ k, Moves c f (s.view k) (DlqSystem.view k { s with store }) := by
  obtain ⟨scheduled_at, -, rfl⟩ := Option.map_eq_some_iff.mp hstore
  refine ⟨⟨h.apart, fun j => (h.owned j).other (.of_eq rfl rfl)⟩, fun k => ?_⟩
  by_cases hk : k = s.store.next_id
  · subst hk
    refine .inr ?_
    have hdata : ∀ job, DlqStore.data s.store.next_id { s.store with
        next_id := s.store.next_id + 1,
          jobs := Function.update s.store.jobs s.store.next_id (some job) } =
          { s.store.data s.store.next_id with scheduled := true, row := some job } := by
      intro job
      simp [DlqStore.data]
    show JobStep c f ⟨_, s.phase _⟩ ⟨_, s.phase _⟩
    rw [hdata]
    exact .schedule (by simp [DlqStore.data]) rfl rfl hmax
  · refine .same ?_ rfl
    have hlt : k < s.store.next_id + 1 ↔ k < s.store.next_id :=
      Nat.lt_succ_iff_lt_or_eq.trans (or_iff_left hk)
    simp [DlqStore.data, Function.update_of_ne hk, hlt]

-- Every step of the calls is, for each job, one of its own steps, or passes it by.
theorem step_moves (h : Base s) {e : DlqEvent} {s' : DlqSystem} (hlockable : Lockable s e)
    (hstep : s.step dumps e = some s') :
    Base s' ∧ ∀ k, Moves (Counted s e) (Final s e) (s.view k) (s'.view k) := by
  cases e with
  | tick d =>
      cases hstep
      exact ⟨⟨h.apart, fun j => (h.owned j).other (.of_eq rfl rfl)⟩, fun k => .same rfl rfl⟩
  | schedule pipeline_name job_payload delay_minutes max_retries =>
      obtain ⟨store, hstore, rfl⟩ := Option.map_eq_some_iff.mp hstep
      exact schedule_moves h id hstore
  | poll i => exact call_moves h hstep rfl rfl
  | dispatch_pipeline i pipeline_name => exact call_moves h hstep rfl rfl
  | dispatch_job i job_id => exact call_moves h hstep rfl rfl
  | cancel i job_id => exact call_moves h hstep rfl rfl
  | abort i =>
      cases hstep
      exact abort_moves h id id
  | select i jobs =>
      simp only [DlqSystem.step] at hstep
      split at hstep
      · rename_i found groups hselect
        split at hstep
        · rename_i hperm
          split at hstep
          · cases hstep
            obtain ⟨-, -, -, hheld, hwindow⟩ := select_found hselect
            exact h.stay hheld hwindow rfl rfl
          · cases hstep
            exact select_moves h hselect (List.isPerm_iff.mp hperm) hlockable
        · cases hstep
      · cases hstep
  | outcome i outcome =>
      obtain ⟨⟨store, pc⟩, hgo, rfl⟩ := Option.map_eq_some_iff.mp hstep
      cases hpc : s.procs i with
      | manual_dispatch k₀ job =>
          rw [hpc] at hgo
          exact manual_moves h hpc (fun hc => hc.1) (fun hf => hf.1) hgo
      | dispatch group groups done =>
          rw [hpc] at hgo
          have hnodup := (h.owned i).nodup
          rw [hpc] at hnodup
          have hgroup : (group.map Prod.fst).Nodup :=
            List.Nodup.of_append_left (List.Nodup.of_append_left hnodup)
          cases outcome with
          | returned id =>
              cases hgo
              refine outcome_moves h hpc rfl rfl (by simp [Function.comp_def])
                (fun k hk => data_record_of_notMem hk)
                fun k job write hmem hjob hwrite => ?_
              rw [lookup_map (fun _ job =>
                JobWrite.update (DLQJob.mark_completed job id s.store.clock)), hjob] at hwrite
              cases hwrite
              rw [data_record_of_mem (List.mem_map_of_mem (f := Prod.fst) hmem)]
              exact .inr .returned
          | raised error_msg =>
              simp only [DlqPc.outcome] at hgo
              split at hgo
              · rename_i writes hwrites
                cases hgo
                obtain ⟨hkeys, hlookup⟩ := handle_group_eq_some hwrites
                refine outcome_moves h hpc rfl rfl hkeys (fun k hk => data_fail_of_notMem hk)
                  fun k job write hmem hjob hwrite => ?_
                rw [data_fail_of_mem hgroup (List.mem_map_of_mem (f := Prod.fst) hmem)]
                exact .inr (.raised (hlookup k job write hjob hwrite))
              · rename_i hnone
                cases hgo
                have hnot : ¬ DlqPc.fits s.store (s.procs i) := by
                  rw [hpc]
                  intro hfits
                  obtain ⟨writes, hwrites⟩ := exists_handle_group error_msg hfits
                  rw [hnone] at hwrites
                  cases hwrites
                refine overflow_moves h hpc (fun hc => hnot (hc.2 rfl)) fun hf => ?_
                have hunfinished := (hf.2 rfl).resolve_right hnot
                rw [hpc] at hunfinished
                exact hunfinished
          | not_committed id error_msg => cases hgo
          | not_logged id error_msg => cases hgo
      | _ => rw [hpc] at hgo; cases hgo
  | go i =>
      obtain ⟨⟨store, pc⟩, hgo, rfl⟩ := Option.map_eq_some_iff.mp hstep
      cases hpc : s.procs i with
      | batch groups done =>
          rw [hpc] at hgo
          cases groups with
          | nil => cases hgo; exact commit_moves h hpc
          | cons group groups => cases hgo; exact start_moves h hpc
      | manual k₀ =>
          rw [hpc] at hgo
          simp only [Lockable, hpc, DlqPc.lockable] at hlockable
          simp only [DlqPc.go] at hgo
          split at hgo
          · rename_i hfree
            split at hgo
            · cases hgo
              exact h.stay (by rw [hpc]; rfl) (by rw [hpc]; rfl) rfl rfl
            · rename_i job hrow
              split at hgo
              · rename_i hpending
                cases hgo
                exact lock_moves h hpc hfree hlockable hrow hpending
              · cases hgo
                exact h.stay (by rw [hpc]; rfl) (by rw [hpc]; rfl) rfl rfl
          · cases hgo
      | failed k₀ error_msg =>
          rw [hpc] at hgo
          simp only [DlqPc.go] at hgo
          split at hgo
          · rename_i job write hload
            cases hgo
            obtain ⟨job', hrow, hmap⟩ := Option.bind_eq_some_iff.mp hload
            obtain ⟨write', hwrite, heq⟩ := Option.map_eq_some_iff.mp hmap
            cases heq
            exact reload_moves h hpc hrow hwrite
          · rename_i hload
            cases hgo
            refine gone_moves h hpc fun hc => ?_
            by_contra hne
            obtain ⟨job, hrow⟩ := Option.ne_none_iff_exists'.mp hne
            have hfits : ∀ job ∈ s.store.jobs k₀, job.fits s.store.clock := by
              simp only [Counted, hpc] at hc
              exact hc
            obtain ⟨write, hwrite⟩ := Option.isSome_iff_exists.mp
              (handle_job_failure_isSome (e := error_msg) (hfits job hrow))
            simp [hrow, hwrite] at hload
      | handled k₀ loaded write =>
          rw [hpc] at hgo
          simp only [DlqPc.go] at hgo
          split at hgo
          · cases hgo
            exact handled_moves h hpc
          · cases hgo
      | cancel k₀ =>
          rw [hpc] at hgo
          simp only [DlqPc.go] at hgo
          split at hgo
          · cases hgo
            exact h.stay (by rw [hpc]; rfl) (by rw [hpc]; rfl) rfl rfl
          · cases hgo
            refine h.stay (by rw [hpc]; rfl) (by rw [hpc]; rfl) ?_ ?_ <;> split <;> rfl
      | cancelling k₀ loaded =>
          rw [hpc] at hgo
          simp only [DlqPc.go] at hgo
          split at hgo
          · rename_i hfree
            split at hgo
            · cases hgo
              exact h.stay (by rw [hpc]; rfl) (by rw [hpc]; rfl) rfl rfl
            · rename_i job hrow
              cases hgo
              refine cancel_moves h hpc hfree hrow fun hf => ?_
              simp only [Final, hpc] at hf
              exact ⟨hf.1, hf.2 job hrow⟩
          · cases hgo
      | _ => rw [hpc] at hgo; cases hgo

end Steps

end Reflowfy.DLQScheduler
