import Reflowfy.Interleaving.LockOrder
import Reflowfy.Interleaving.Pool
import Reflowfy.Dedup.Claims

namespace Reflowfy

open Interleaving

-- One call of `claim_record_hashes`.
structure Claimant where
  job_id : JobId
  hashes : List RecordHash
  now : Int

-- The table and the transactions that claim records in it.
abbrev ClaimSystem := Pool Records ClaimPc

inductive ClaimEvent
  | go (d : TaskId)
  -- the database or its client gives the transaction up
  | abort (d : TaskId)

namespace ClaimSystem

def step (claims : TaskId → Claimant) (s : ClaimSystem) : ClaimEvent → Option ClaimSystem
  | .go d =>
      ((s.procs d).step d (claims d).job_id (claims d).now s.store).map fun (records, pc) =>
        s.set d records pc
  | .abort d => some (s.set d (s.store.rollback d) (.done []))

-- Every call is about to begin, in a table without unfinished transactions.
def Initial (claims : TaskId → Claimant) (s : ClaimSystem) : Prop :=
  (∀ h, s.store.holder h = none) ∧ ∀ d, s.procs d = .claim_record_hashes (claims d).hashes

def Waits (s : ClaimSystem) (d d' : TaskId) : Prop := (s.procs d).waitsFor d s.store = some d'

instance (s : ClaimSystem) (d d' : TaskId) : Decidable (Waits s d d') :=
  inferInstanceAs (Decidable (_ = _))

def CyclicWait (s : ClaimSystem) : Prop := ∃ d, Relation.TransGen (Waits s) d d

-- Some call claims `h` before it comes to `k`.
def ClaimedBefore (claims : TaskId → Claimant) (h k : RecordHash) : Prop :=
  ∃ d, Before (fromkeys (claims d).hashes) h k

-- No interleaving of the calls, from any table, comes to a cyclic wait.
def DeadlockFree (claims : TaskId → Claimant) : Prop :=
  ∀ s, Reach (step claims) (Initial claims) (fun _ _ => True) s → ¬CyclicWait s

-- What a transaction holds stands in its list before what it has yet to come to.
def HoldsEarlier (claims : TaskId → Claimant) (records : Records) (d : TaskId)
    (pc : ClaimPc) : Prop :=
  ∃ past, fromkeys (claims d).hashes = past ++ pc.rest ∧ ∀ h, records.holder h = some d → h ∈ past

variable {claims : TaskId → Claimant} {s s' : ClaimSystem} {e : ClaimEvent}

theorem holdsEarlier_initial (h : Initial claims s) :
    s.Holds (fun _ => True) (HoldsEarlier claims) := by
  refine ⟨trivial, fun d => ⟨[], ?_, fun k hk => ?_⟩⟩
  · rw [h.2 d, ClaimPc.rest_claim_record_hashes, List.nil_append]
  · rw [h.1 k] at hk
    cases hk

theorem holdsEarlier_mono {records records' : Records} {d : TaskId} {pc : ClaimPc}
    (hsub : ∀ h, records'.holder h = some d → records.holder h = some d)
    (hheld : HoldsEarlier claims records d pc) : HoldsEarlier claims records' d pc := by
  obtain ⟨past, hpast, hmem⟩ := hheld
  exact ⟨past, hpast, fun h hh => hmem h (hsub h hh)⟩

theorem holdsEarlier_of_steps {records records' : Records} {d : TaskId} {pc pc' : ClaimPc}
    (hstep : pc.Steps d (claims d).job_id (claims d).now records records' pc')
    (hheld : HoldsEarlier claims records d pc) : HoldsEarlier claims records' d pc' := by
  obtain ⟨past, hpast, hmem⟩ := hheld
  cases hstep with
  | @inserts h rows inserted taken won parts hfree =>
      refine ⟨past ++ [h], by simp [hpast], fun k hk => ?_⟩
      rw [Records.holder_insert] at hk
      by_cases hkh : k = h
      · simp [hkh]
      · rw [if_neg hkh] at hk
        exact List.mem_append_left _ (hmem k hk)
  | @passes h rows inserted taken won parts row hrow hfree =>
      exact ⟨past ++ [h], by simp [hpast], fun k hk => List.mem_append_left _ (hmem k hk)⟩
  | won_all | asks | owns => exact ⟨past, by simpa using hpast, hmem⟩
  | commits =>
      refine ⟨past, hpast, fun k hk => ?_⟩
      rw [Records.holder_commit] at hk
      split at hk
      · cases hk
      · exact hmem k hk

-- Other transactions neither hold anything for `d` nor let go of what it holds.
theorem holder_of_steps {records records' : Records} {i d : TaskId} {job_id : JobId} {now : Int}
    {pc pc' : ClaimPc}
    (hstep : pc.Steps i job_id now records records' pc') (hd : d ≠ i) (h : RecordHash)
    (hh : records'.holder h = some d) : records.holder h = some d := by
  cases hstep with
  | @inserts k =>
      rw [Records.holder_insert] at hh
      split at hh
      · exact absurd (Option.some.inj hh).symm hd
      · exact hh
  | passes | won_all | asks | owns => exact hh
  | commits =>
      rw [Records.holder_commit] at hh
      split at hh
      · cases hh
      · exact hh

theorem holdsEarlier_step (h : s.Holds (fun _ => True) (HoldsEarlier claims))
    (hs : step claims s e = some s') :
    s'.Holds (fun _ => True) (HoldsEarlier claims) := by
  cases e with
  | go d =>
      obtain ⟨⟨records, pc⟩, hstep, rfl⟩ := Option.map_eq_some_iff.mp hs
      have hsteps := ClaimPc.steps_of_step hstep
      exact Pool.Holds.set h trivial (holdsEarlier_of_steps hsteps (h.2 d)) fun j hj =>
        holdsEarlier_mono fun k => holder_of_steps hsteps hj k
  | abort d =>
      cases hs
      have hsub : ∀ j k, (s.store.rollback d).holder k = some j → s.store.holder k = some j := by
        intro j k hk
        rw [Records.holder_rollback] at hk
        split at hk
        · cases hk
        · exact hk
      refine Pool.Holds.set h trivial ⟨fromkeys (claims d).hashes, by simp, fun k hk => ?_⟩
        fun j _ => holdsEarlier_mono (hsub j)
      obtain ⟨past, hpast, hmem⟩ := h.2 d
      rw [hpast]
      exact List.mem_append_left _ (hmem k (hsub d k hk))

theorem holdsEarlier_reach (hr : Reach (step claims) (Initial claims) (fun _ _ => True) s) :
    s.Holds (fun _ => True) (HoldsEarlier claims) :=
  hr.invariant (fun _ => holdsEarlier_initial) fun _ _ _ _ h _ hs => holdsEarlier_step h hs

-- The key a transaction comes to next.
def nextKey (s : ClaimSystem) (d : TaskId) : RecordHash := (s.procs d).rest.headD 0

theorem waits_cases {d d' : TaskId} (h : Waits s d d') :
    (∃ rest, (s.procs d).rest = nextKey s d :: rest) ∧ s.store.holder (nextKey s d) = some d' := by
  unfold Waits ClaimPc.waitsFor at h
  split at h
  · rename_i hp
    simp only [nextKey, hp, ClaimPc.rest_insert, List.cons_append, List.headD_cons]
    exact ⟨⟨_, rfl⟩, (Option.filter_eq_some_iff.mp h).1⟩
  · cases h

-- The key one waits for stands, in the list of the one that holds it, before the key that
-- one waits for.
theorem claimedBefore_of_waits (h : s.Holds (fun _ => True) (HoldsEarlier claims)) {i j k : TaskId}
    (hij : Waits s i j) (hjk : Waits s j k) : ClaimedBefore claims (nextKey s i) (nextKey s j) := by
  obtain ⟨past, hpast, hmem⟩ := h.2 j
  obtain ⟨rest, hrest⟩ := (waits_cases hjk).1
  refine ⟨j, ?_⟩
  rw [hpast, hrest]
  exact before_of_mem_left (hmem _ (waits_cases hij).2)

theorem cycle_of_cyclicWait (h : s.Holds (fun _ => True) (HoldsEarlier claims))
    (hcycle : CyclicWait s) :
    ∃ k, Relation.TransGen (ClaimedBefore claims) k k := by
  obtain ⟨d, hd⟩ := hcycle
  obtain ⟨d', hd', -⟩ := Relation.TransGen.head'_iff.mp hd
  have hstep : ∀ i j k, Waits s i j → Waits s j k →
      ClaimedBefore claims (nextKey s i) (nextKey s j) :=
    fun i j k => claimedBefore_of_waits h
  exact ⟨nextKey s d, transGen_of_waits hstep hd hd'⟩

theorem step_go {d : TaskId} {records : Records} {pc : ClaimPc}
    (h : (s.procs d).step d (claims d).job_id (claims d).now s.store = some (records, pc)) :
    step claims s (.go d) = some (s.set d records pc) := by
  simp [step, h]

-- A transaction left alone takes its steps in the system.
theorem path_of_passes {d : TaskId} {pc : ClaimPc}
    (h : Relation.ReflTransGen
      (ClaimPc.Passes d (claims d).job_id (claims d).now s.store) (s.procs d) pc) :
    Path (step claims) (fun _ _ => True) s (s.set d s.store pc) := by
  induction h with
  | refl =>
      rw [Pool.set_self]
      exact .refl
  | @tail mid pc _ hpass ih =>
      have hstep : step claims (s.set d s.store mid) (.go d) =
          some ((s.set d s.store mid).set d s.store pc) :=
        step_go (by rwa [Pool.set_procs_self])
      rw [Pool.set_set] at hstep
      exact ih.tail trivial hstep

-- A call comes to the first key that is not committed.
theorem path_to_key (claims : TaskId → Claimant) {d : TaskId} {x : RecordHash}
    {rows inserted taken won us vs : List RecordHash} {parts : List (List RecordHash)}
    (hpc : s.procs d = .insert rows inserted taken won parts)
    (hrest : rows ++ parts.flatten = us ++ x :: vs) (hus : ∀ u ∈ us, s.store.committed u = true) :
    ∃ rows' inserted' taken' won' parts', rows' ++ parts'.flatten = vs ∧
      Path (step claims) (fun _ _ => True) s
      (s.set d s.store (.insert (x :: rows') inserted' taken' won' parts')) := by
  obtain ⟨rows', inserted', taken', won', parts', heq, hto⟩ := ClaimPc.passes_to d (claims d).job_id
    (claims d).now inserted taken won hrest hus
  rw [← hpc] at hto
  exact ⟨rows', inserted', taken', won', parts', heq, path_of_passes hto⟩

-- Calls along a circle of keys: call `d k` claims `c k` and later `c (k + 1)`, and of the
-- circle nothing else.
structure Circle (claims : TaskId → Claimant) (n : ℕ) (c : ℕ → RecordHash)
    (d : ℕ → TaskId) : Prop where
  pos : 0 < n
  closed : c n = c 0
  keys : ∀ i j, i < n → j < n → c i = c j → i = j
  tasks : ∀ i j, i < n → j < n → d i = d j → i = j
  claims : ∀ k, k < n → ∃ us ms vs, fromkeys (claims (d k)).hashes = us ++
    c k :: (ms ++ c (k + 1) :: vs) ∧
    ∀ u ∈ us ++ ms, ∀ m, m < n → u ≠ c m

theorem Circle.two {n : ℕ} {c : ℕ → RecordHash} {d : ℕ → TaskId}
    (hc : Circle claims n c d) : 2 ≤ n := by
  by_contra hn
  obtain rfl : n = 1 := by have := hc.pos; omega
  obtain ⟨us, ms, vs, hlist, -⟩ := hc.claims 0 Nat.one_pos
  have hnodup := nodup_fromkeys (claims (d 0)).hashes
  rw [hlist, Nat.zero_add, hc.closed] at hnodup
  have htwice : Before (us ++ c 0 :: (ms ++ c 0 :: vs)) (c 0) (c 0) := before_of_mem_right (by simp)
  exact htwice.ne hnodup rfl

theorem exists_circle {h : RecordHash} (hcycle : Relation.TransGen (ClaimedBefore claims) h h) :
    ∃ n c d, Circle claims n c d := by
  obtain ⟨n, c, hc, hchord⟩ := exists_chordless hcycle
  have hclaim : ∀ k, ∃ d, k < n → Before (fromkeys (claims d).hashes) (c k) (c (k + 1)) := by
    intro k
    by_cases hk : k < n
    · obtain ⟨d, hd⟩ := hc.edge k hk
      exact ⟨d, fun _ => hd⟩
    · exact ⟨0, fun h => absurd h hk⟩
  choose d hd using hclaim
  have hkeys : ∀ i j, i < n → j < n → c i = c j → i = j := fun i j => hc.injective hchord
  have hnodup : ∀ k, (fromkeys (claims (d k)).hashes).Nodup := fun k => nodup_fromkeys _
  -- without shortcuts, a call claims only its own two keys of the circle
  have honly : ∀ k m, k < n → m < n → c m ∈ fromkeys (claims (d k)).hashes → m = k ∨
      c m = c (k + 1) := by
    intro k m hk hm hmem
    by_cases hmk : m = k
    · exact .inl hmk
    rcases before_or hmem (hd k hk).mem_left fun heq =>
      hmk (hkeys m k hm hk heq) with hbefore | hafter
    · have hskip := hbefore.trans (hnodup k) (hd k hk)
      by_cases hlast : k + 1 = n
      · rw [hlast, hc.closed] at hskip
        rcases hchord m 0 hm hc.pos ⟨d k, hskip⟩ with h0 | ⟨hmn, -⟩ <;> omega
      · rcases hchord m (k + 1) hm (by omega) ⟨d k, hskip⟩ with hnext | ⟨-, h0⟩ <;> omega
    · rcases hchord k m hk hm ⟨d k, hafter⟩ with rfl | ⟨hkn, rfl⟩
      · exact .inr rfl
      · exact .inr (by rw [hkn, hc.closed])
  refine ⟨n, c, d, hc.pos, hc.closed, hkeys, fun i j hi hj heq => ?_, fun k hk => ?_⟩
  · have hj' := hd j hj
    rw [← heq] at hj'
    rcases honly i j hi hj hj'.mem_left with hij | hcj
    · exact hij.symm
    · have hi' := hd i hi
      rcases honly j i hj hi (heq ▸ hi'.mem_left) with hij | hci
      · exact hij
      · rw [← hcj] at hi'
        rw [← hci] at hj'
        exact absurd rfl ((hi'.trans (hnodup i) hj').ne (hnodup i))
  · obtain ⟨us, ms, vs, hlist⟩ := (hd k hk).split
    refine ⟨us, ms, vs, hlist, fun u hu m hm hum => ?_⟩
    have hmem : u ∈ fromkeys (claims (d k)).hashes := by
      rw [hlist]
      simp only [List.mem_append, List.mem_cons] at hu ⊢
      tauto
    have hlistnodup := hnodup k
    rw [hlist] at hlistnodup
    rcases honly k m hk hm (hum ▸ hmem) with rfl | hnext <;> grind

-- The first `m` calls of the circle hold their key and have come to the next one; the
-- others have not begun; and every key off the circle is committed.
structure Stage (claims : TaskId → Claimant) (n : ℕ) (c : ℕ → RecordHash) (d : ℕ → TaskId) (m : ℕ)
    (s : ClaimSystem) :
    Prop where
  held : ∀ k, k < m → s.store.holder (c k) = some (d k)
  come : ∀ k, k < m → ∃ rows inserted taken won parts,
    s.procs (d k) = .insert (c (k + 1) :: rows) inserted taken won parts
  free : ∀ k, m ≤ k → k < n → s.store (c k) = none
  fresh : ∀ k, m ≤ k → k < n → s.procs (d k) = .claim_record_hashes (claims (d k)).hashes
  others : ∀ h, (∀ k, k < n → h ≠ c k) → s.store.committed h = true

theorem stage_next {n m : ℕ} {c : ℕ → RecordHash} {d : ℕ → TaskId}
    (hc : Circle claims n c d) (hm : m < n)
    (h : Stage claims n c d m s) : ∃ s', Path (step claims) (fun _ _ => True) s s' ∧
      Stage claims n c d (m + 1) s' := by
  obtain ⟨us, ms, vs, hlist, hoff⟩ := hc.claims m hm
  obtain ⟨rows, parts, hpc, hrest⟩ :=
    ClaimPc.claim_record_hashes_of_ne_nil (claims (d m)).hashes (by simp [hlist])
  rw [hlist] at hrest
  have hcommitted : ∀ u ∈ us ++ ms, s.store.committed u = true := fun u hu => h.others u (hoff u hu)
  -- it passes what is committed, claims its key, and goes on to the next key of the circle
  obtain ⟨rows₁, inserted₁, taken₁, won₁, parts₁, hrest₁, hpath₁⟩ := path_to_key claims
    ((h.fresh m (Nat.le_refl m) hm).trans hpc) hrest fun u hu =>
      hcommitted u (List.mem_append_left ms hu)
  set records := s.store.insert (d m) (claims (d m)).job_id (claims (d m)).now (c m) with hrecords
  have hinsert : step claims
    (s.set (d m) s.store (.insert (c m :: rows₁) inserted₁ taken₁ won₁ parts₁)) (.go (d m)) =
      some (s.set (d m) records (.insert rows₁ (inserted₁ ++ [c m]) taken₁ won₁ parts₁)) := by
    have hstep : ((s.set (d m) s.store (.insert (c m :: rows₁) inserted₁ taken₁ won₁ parts₁)).procs
      (d m)).step (d m)
        (claims (d m)).job_id (claims (d m)).now s.store =
        some (records, .insert rows₁ (inserted₁ ++ [c m]) taken₁ won₁ parts₁) := by
      simp [ClaimPc.step, h.free m (Nat.le_refl m) hm, hrecords]
    rw [step_go hstep, Pool.set_set]
  have hother : ∀ u, u ≠ c m → records u = s.store u := fun u hu => Records.insert_of_ne _ hu
  obtain ⟨rows₂, inserted₂, taken₂, won₂, parts₂, -, hpath₂⟩ := path_to_key claims
    (s := s.set (d m) records (.insert rows₁ (inserted₁ ++ [c m]) taken₁ won₁ parts₁))
      (Pool.set_procs_self ..)
    hrest₁ fun u hu => by
      rw [Pool.set_store, Records.committed, hother u (hoff u (List.mem_append_right us hu) m hm)]
      exact hcommitted u (List.mem_append_right us hu)
  rw [Pool.set_set, Pool.set_store] at hpath₂
  refine ⟨_, (hpath₁.tail trivial hinsert).trans hpath₂,
    ⟨fun k hk => ?_, fun k hk => ?_, fun k hk hkn => ?_,
    fun k hk hkn => ?_, fun u hu => ?_⟩⟩
  · rw [Pool.set_store, hrecords, Records.holder_insert]
    by_cases hkm : k = m
    · rw [hkm, if_pos rfl]
    · rw [if_neg fun heq => hkm (hc.keys k m (by omega) hm heq)]
      exact h.held k (by omega)
  · by_cases hkm : k = m
    · subst hkm
      rw [Pool.set_procs_self]
      exact ⟨rows₂, inserted₂, taken₂, won₂, parts₂, rfl⟩
    · rw [Pool.set_procs_of_ne s _ _ fun heq => hkm (hc.tasks k m (by omega) hm heq)]
      exact h.come k (by omega)
  · rw [Pool.set_store, hother _ fun heq => ?_]
    · exact h.free k (by omega) hkn
    · have hkm := hc.keys k m hkn hm heq
      omega
  · rw [Pool.set_procs_of_ne s _ _ fun heq => ?_]
    · exact h.fresh k (by omega) hkn
    · have hkm := hc.tasks k m hkn hm heq
      omega
  · rw [Pool.set_store, Records.committed, hother u (hu m hm)]
    exact h.others u hu

theorem cyclicWait_of_stage {n : ℕ} {c : ℕ → RecordHash} {d : ℕ → TaskId} (hc : Circle claims n c d)
    (h : Stage claims n c d n s) : CyclicWait s := by
  have htwo := hc.two
  have hwaits : ∀ k j, k < n → j < n → k ≠ j → c (k + 1) = c j → Waits s (d k) (d j) := by
    intro k j hk hj hkj heq
    obtain ⟨rows, inserted, taken, won, parts, hcome⟩ := h.come k hk
    have hne : d j ≠ d k := fun hd => hkj (hc.tasks k j hk hj hd.symm)
    simp [Waits, hcome, ClaimPc.waitsFor, heq, h.held j hj, Option.filter, hne]
  have hd : ∀ k, k < n → (if k = n then d 0 else d k) = d k := fun k hk => if_neg (by omega)
  have hlast : (if n = n then d 0 else d n) = d 0 := if_pos rfl
  have hcycle : IsCycle (Waits s) n (fun k => if k = n then d 0 else d k) := by
    refine ⟨hc.pos, fun k hk => ?_, ?_⟩
    · by_cases hkn : k + 1 = n
      · rw [hd k hk, hkn, hlast]
        exact hwaits k 0 hk hc.pos (by omega) (by rw [hkn, hc.closed])
      · rw [hd k hk, hd (k + 1) (by omega)]
        exact hwaits k (k + 1) hk (by omega) (by omega) rfl
    · rw [hlast, hd 0 hc.pos]
  exact ⟨_, hcycle.transGen⟩

theorem exists_cyclicWait {h : RecordHash} (hcycle : Relation.TransGen (ClaimedBefore claims) h h) :
    ∃ s, Reach (step claims) (Initial claims) (fun _ _ => True) s ∧ CyclicWait s := by
  classical
  obtain ⟨n, c, d, hc⟩ := exists_circle hcycle
  -- everything off the circle has been claimed before
  let s₀ : ClaimSystem :=
    { store := fun h => if ∃ k < n, h = c k then none else some ⟨0, 0, none⟩
      procs := fun d => .claim_record_hashes (claims d).hashes }
  have hstart : Stage claims n c d 0 s₀ := by
    refine ⟨fun k hk => absurd hk (Nat.not_lt_zero k), fun k hk => absurd hk (Nat.not_lt_zero k),
      fun k _ hk => if_pos ⟨k, hk, rfl⟩, fun k _ _ => rfl, fun h hoff => ?_⟩
    have hcommitted : s₀.store h = some ⟨0, 0, none⟩ := if_neg fun ⟨k, hk, heq⟩ => hoff k hk heq
    simp [Records.committed, hcommitted]
  have hstages : ∀ m ≤ n, ∃ s, Path (step claims) (fun _ _ => True) s₀ s ∧
      Stage claims n c d m s := by
    intro m hm
    induction m with
    | zero => exact ⟨s₀, .refl, hstart⟩
    | succ m ih =>
        obtain ⟨s, hpath, hs⟩ := ih (by omega)
        obtain ⟨s', hpath', hs'⟩ := stage_next hc hm hs
        exact ⟨s', hpath.trans hpath', hs'⟩
  have hinit : Initial claims s₀ := by
    refine ⟨fun h => ?_, fun d => rfl⟩
    by_cases hon : ∃ k < n, h = c k
    · have hfree : s₀.store h = none := if_pos hon
      simp [Records.holder, hfree]
    · have hcommitted : s₀.store h = some ⟨0, 0, none⟩ := if_neg hon
      simp [Records.holder, hcommitted]
  obtain ⟨s, hpath, hs⟩ := hstages n (Nat.le_refl n)
  exact ⟨s, (Reach.init hinit).path hpath, cyclicWait_of_stage hc hs⟩

-- The calls are free of deadlocks, from every table, when no key of a circle of keys is
-- claimed before the next by some call, and only then.
theorem deadlockFree_iff (claims : TaskId → Claimant) :
    DeadlockFree claims ↔ ∀ h, ¬Relation.TransGen (ClaimedBefore claims) h h := by
  constructor
  · intro hfree h hcycle
    obtain ⟨s, hr, hwait⟩ := exists_cyclicWait hcycle
    exact hfree s hr hwait
  · intro hacyclic s hr hwait
    obtain ⟨h, hcycle⟩ := cycle_of_cyclicWait (holdsEarlier_reach hr) hwait
    exact hacyclic h hcycle

-- Two jobs that hold the same two records, in opposite orders.
def crossedClaims : TaskId → Claimant
  | 0 => ⟨0, [0, 1], 0⟩
  | 1 => ⟨1, [1, 0], 0⟩
  | _ => ⟨2, [], 0⟩

theorem crossed_deadlock : ¬∀ claims : TaskId → Claimant, DeadlockFree claims := by
  intro hfree
  obtain ⟨s, hr, -, htest⟩ := Reach.replay (step crossedClaims)
    (Initial crossedClaims) (fun _ _ => True)
    (fun _ _ => true) (fun _ _ _ => trivial)
    (s := ⟨fun _ => none, fun d => .claim_record_hashes (crossedClaims d).hashes⟩)
    ⟨fun _ => rfl, fun _ => rfl⟩ [.go 0, .go 1]
    (fun s => decide (Waits s 0 1) && decide (Waits s 1 0)) (by decide)
  simp only [Bool.and_eq_true, decide_eq_true_eq] at htest
  exact hfree crossedClaims s hr ⟨0, .tail (.single htest.1) htest.2⟩

end ClaimSystem

end Reflowfy
