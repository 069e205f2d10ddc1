import Reflowfy.Dedup.Delivery
import Reflowfy.Dedup.Claims

namespace Reflowfy

namespace ClaimPc

-- What the call has won so far.
def gained : ClaimPc → List RecordHash
  | insert _ inserted _ won _ => won ++ inserted
  | own _ won _ | commit won | done won => won

@[simp] theorem gained_nextPart (won : List RecordHash) (parts : List (List RecordHash)) :
    (nextPart won parts).gained = won := by
  cases parts with
  | nil => rfl
  | cons part parts => exact List.append_nil won

theorem gained_claim_record_hashes (hashes : List RecordHash) :
    (claim_record_hashes hashes).gained = [] := by
  unfold claim_record_hashes
  split
  · rfl
  · exact gained_nextPart ..

-- The keys that the call speaks of: what it has yet to come to, has found taken, or has won.
def named : ClaimPc → List RecordHash
  | insert rows inserted taken won parts => rows ++ parts.flatten ++ taken ++ (won ++ inserted)
  | own taken won parts => parts.flatten ++ taken ++ won
  | commit won | done won => won

@[simp] theorem named_nextPart (won : List RecordHash) (parts : List (List RecordHash)) :
    (nextPart won parts).named = parts.flatten ++ won := by
  cases parts with
  | nil => rfl
  | cons part parts => simp [nextPart, named]

theorem named_claim_record_hashes {hashes : List RecordHash} {h : RecordHash}
    (hh : h ∈ (claim_record_hashes hashes).named) : h ∈ hashes := by
  unfold claim_record_hashes at hh
  split at hh
  · cases hh
  · rw [named_nextPart, Paging.slices_flatten (by decide), List.append_nil] at hh
    exact mem_fromkeys.mp hh

-- A call takes up no other keys.
theorem Steps.named_subset {tx : TaskId} {job_id : JobId} {now : Int} {records records' : Records}
    {pc pc' : ClaimPc} (hs : Steps tx job_id now records pc records' pc') :
    pc'.named ⊆ pc.named := by
  intro k hk
  cases hs with
  | inserts | passes | asks =>
      simp only [named, List.mem_append, List.mem_cons, List.not_mem_nil, or_false,
        false_or] at hk ⊢
      tauto
  | won_all =>
      rw [named_nextPart] at hk
      simpa [named] using hk
  | @owns taken won parts =>
      rw [named_nextPart] at hk
      have htaken : k ∈ records.own tx job_id taken → k ∈ taken := List.mem_of_mem_filter
      simp only [named, List.mem_append] at hk ⊢
      tauto
  | commits => exact hk

theorem nextPart_ne_done (won won' : List RecordHash) (parts : List (List RecordHash)) :
    nextPart won parts ≠ done won' := by
  cases parts <;> simp [nextPart]

end ClaimPc

namespace RecordsPc

theorem claimed_done (records : List RecordHash) (now : Int) (won : List RecordHash) :
    ((⟨records, won⟩ : Slice).kept = [] ∧ claimed records now (.done won) = report
      ⟨records, won⟩ .duplicate false) ∨
      claimed records now (.done won) = health_check ⟨records, won⟩ := by
  by_cases hkept : (⟨records, won⟩ : Slice).kept = []
  · exact .inl ⟨hkept, if_pos hkept⟩
  · exact .inr (if_neg hkept)

theorem claimed_of_ne_done {records : List RecordHash} {now : Int} {pc : ClaimPc}
    (h : ∀ won, pc ≠ .done won) :
    claimed records now pc = claiming records now pc := by
  cases pc with
  | done won => exact absurd rfl (h won)
  | _ => rfl

-- The claims a delivery goes on with.
def claims : RecordsPc → List RecordHash
  | claiming _ _ pc => pc.gained
  | health_check slice | send slice => slice.won
  | _ => []

-- The records it goes on without: its transaction has come to them, and has not won them.
-- Its job may yet be reported to have succeeded.
def dropped : RecordsPc → List RecordHash
  | claiming records _ pc => records.filter fun h => h ∉ pc.rest ∧ h ∉ pc.gained
  | health_check slice | send slice => slice.records.filter (· ∉ slice.won)
  | release _ .shutdown _ => []
  | release slice _ stats | report slice stats _ =>
      if stats.success then slice.records.filter (· ∉ slice.won) else []
  | _ => []

-- Within the transaction of its claims.
def inTransaction : RecordsPc → Bool
  | claiming _ _ _ => true
  | _ => false

-- Claims are of the job's own records; and a report of success is of claims whose records
-- have been sent, or of none.
def Told (store : DedupStore) (job_id : JobId) : RecordsPc → Prop
  | claiming records _ pc => pc.named ⊆ records
  | health_check slice | send slice => slice.won ⊆ slice.records
  | release _ by_ stats => by_ ≠ .shutdown → stats.success = false
  | report slice stats _ => stats.success = true → ∀ h ∈ slice.won, (job_id, h) ∈ store.delivered
  | _ => True

-- On the way to its next statement a delivery takes up no claim, drops no record and tells
-- nothing new.
structure Quiet (pc pc' : RecordsPc) : Prop where
  claims : ∀ h ∈ pc'.claims, h ∈ pc.claims ∧ (pc.inTransaction = true → pc'.inTransaction = true)
  dropped : ∀ h ∈ pc'.dropped, h ∈ pc.dropped ∧ (pc.inTransaction = true → pc'.inTransaction = true)
  told : ∀ store job_id, Told store job_id pc → Told store job_id pc'

-- What one step of a delivery does.
inductive Works (cfg : Config) (d : TaskId) (job_id : JobId) (s : DedupStore) :
    RecordsPc → WorkChoice → DedupStore → RecordsPc → Prop
  | skip {pc choice pc'} (hquiet : Quiet pc pc') : Works cfg d job_id s pc choice s pc'
  | row {pc choice pc'} (stmt : JobStmt) (hstmt : stmt = .claim_job ∨ stmt = .heartbeat_job)
      (hquiet : Quiet pc pc') :
      Works cfg d job_id s pc choice (s.exec cfg (.job job_id stmt)) pc'
  | guarded {records job_hashes}
      (hguard : held_by_other_job s.processed_content job_hashes job_id = true) :
      Works cfg d job_id s (held records job_hashes) .ok s (report ⟨records, []⟩ .duplicate false)
  | claims {records now pc table pc'} (hsteps : pc.Steps d job_id now s.records table pc') :
      Works cfg d job_id s (claiming records now pc) .ok { s with records := table }
        (claimed records now pc')
  | aborts {records now pc choice pc'} (hquiet : Quiet ended pc') :
      Works cfg d job_id s (claiming records now pc) choice
        { s with records := s.records.rollback d } pc'
  | wrote {slice h} (hkept : h ∈ slice.kept) :
      Works cfg d job_id s (send slice) (.wrote h) (s.deliver job_id [h]) (send slice)
  | sent {slice} :
      Works cfg d job_id s (send slice) .ok (s.deliver job_id slice.kept)
        (report slice (.sent slice.kept.length) false)
  | releases {slice by_ stats} :
      Works cfg d job_id s (release slice by_ stats) .ok
        { s with records := s.records.release_record_hashes slice.won job_id }
          (reportBy slice stats by_)
  | reports {slice stats caught} :
      Works cfg d job_id s (report slice stats caught) .ok
        ((s.exec cfg (.job job_id (.update_job_in_db stats))).produce job_id
          (if stats.success then slice.records else []))
        (closing slice caught)

section Quiet

variable {pc pc' : RecordsPc} {slice : Slice} {stats : JobStats}

theorem quiet_refl (pc : RecordsPc) : Quiet pc pc :=
  ⟨fun _ h => ⟨h, id⟩, fun _ h => ⟨h, id⟩, fun _ _ h => h⟩

theorem quiet_of_nil (hclaims : pc'.claims = []) (hdropped : pc'.dropped = [])
    (htold : ∀ store job_id, Told store job_id pc') : Quiet pc pc' := by
  refine ⟨fun h hh => ?_, fun h hh => ?_, fun store job_id _ => htold store job_id⟩
  · rw [hclaims] at hh
    cases hh
  · rw [hdropped] at hh
    cases hh

theorem quiet_ended : Quiet pc ended := quiet_of_nil rfl rfl fun _ _ => trivial

-- A call of `claim_record_hashes` begins with all its hashes still to come.
theorem dropped_claim_record_hashes (records : List RecordHash) (now : Int) :
    (claiming records now (.claim_record_hashes records)).dropped = [] := by
  refine List.filter_eq_nil_iff.mpr fun h hh => ?_
  simp [hh]

theorem quiet_closing {caught : Bool} : Quiet pc (closing slice caught) :=
  quiet_of_nil rfl rfl fun _ _ => trivial

-- A report of success, if any, is of no record.
theorem quiet_report {caught : Bool} (h : stats.success = true → slice.records = [])
    (hwon : slice.won = []) : Quiet pc (report slice stats caught) := by
  refine quiet_of_nil rfl ?_ fun store job_id _ k hk => ?_
  · rw [dropped]
    split
    · rename_i hsuccess
      rw [h hsuccess]
      rfl
    · rfl
  · rw [hwon] at hk
    cases hk

-- Claims are released for a job that is not reported to have succeeded.
theorem told_reportBy {by_ : Releasing} {store : DedupStore} {job_id : JobId}
    (h : by_ ≠ .shutdown → stats.success = false) :
      Told store job_id (reportBy slice stats by_) := by
  cases by_ with
  | unhealthy | failed =>
      intro hsuccess
      rw [h (by simp)] at hsuccess
      cases hsuccess
  | shutdown => trivial

-- Nothing has been won of a slice that is a duplicate: what is won is kept.
theorem told_claimed {store : DedupStore} {job_id : JobId} {records : List RecordHash}
    (now : Int) {pc : ClaimPc} (h : pc.named ⊆ records) :
    Told store job_id (claimed records now pc) := by
  cases pc with
  | done won =>
      rcases claimed_done records now won with ⟨hkept, hend⟩ | hgo
      · rw [hend]
        intro _ k hk
        have hmem : k ∈ (⟨records, won⟩ : Slice).kept := mem_keep.mpr ⟨h hk, hk, List.not_mem_nil⟩
        rw [hkept] at hmem
        cases hmem
      · rw [hgo]
        exact h
  | _ => exact h

theorem claims_reportBy (slice : Slice) (stats : JobStats) (by_ : Releasing) :
    (reportBy slice stats by_).claims = [] := by
  cases by_ <;> rfl

theorem dropped_reportBy (slice : Slice) (stats : JobStats) (by_ : Releasing) :
    (reportBy slice stats by_).dropped = (release slice by_ stats).dropped := by
  cases by_ <;> rfl

theorem dropped_release {by_ : Releasing} (h : by_ ≠ .shutdown → stats.success = false) :
    (release slice by_ stats).dropped = [] := by
  cases by_ with
  | shutdown => rfl
  | unhealthy | failed => simp [dropped, h (by simp)]

theorem quiet_reportBy {by_ : Releasing} (h : by_ ≠ .shutdown → stats.success = false) :
    Quiet pc (reportBy slice stats by_) :=
  quiet_of_nil (claims_reportBy slice stats by_) ((dropped_reportBy ..).trans (dropped_release h))
    fun _ _ => told_reportBy h

theorem quiet_releaseBy {by_ : Releasing} (h : by_ ≠ .shutdown → stats.success = false) :
    Quiet pc (releaseBy slice by_ stats) := by
  unfold releaseBy
  split
  · exact quiet_reportBy h
  · exact quiet_of_nil rfl (dropped_release h) fun _ _ => h

end Quiet

variable {cfg : Config} {d : TaskId} {job_id : JobId} {s s' : DedupStore} {pc pc' : RecordsPc}
    {choice : WorkChoice}

theorem Works.beat (pc : RecordsPc) :
    Works cfg d job_id s pc .beat (s.exec cfg (.job job_id .heartbeat_job)) pc :=
  .row .heartbeat_job (.inr rfl) (quiet_refl pc)

theorem works_of_go (h : pc.go cfg d job_id s choice = some (s', pc')) :
    Works cfg d job_id s pc choice s' pc' := by
  cases pc with
  | idle | ended => cases choice <;> cases h
  | claim =>
      cases choice with
      | ok =>
          cases h
          refine .row .claim_job (.inl rfl) ?_
          split <;> exact quiet_of_nil rfl rfl fun _ _ => trivial
      | raised => cases h; exact .skip (quiet_of_nil rfl rfl fun _ _ => trivial)
      | shutdown | die => cases h; exact .skip quiet_ended
      | _ => cases h
  | blocked =>
      cases choice with
      | ok =>
          cases h
          refine .skip ?_
          split <;> exact quiet_of_nil rfl rfl fun _ _ => trivial
      | raised => cases h; exact .skip (quiet_of_nil rfl rfl fun _ _ => trivial)
      | shutdown | die => cases h; exact .skip quiet_ended
      | _ => cases h
  | fetch =>
      cases choice with
      | no_records => cases h; exact .skip (quiet_report (fun _ => rfl) rfl)
      | fetched records job_hashes =>
          cases h
          refine .skip ?_
          split
          · exact quiet_of_nil rfl rfl fun _ _ => List.Subset.refl []
          · exact quiet_of_nil rfl rfl fun _ _ => trivial
      | raised => cases h; exact .skip (quiet_report (fun _ => rfl) rfl)
      | beat => cases h; exact .beat _
      | shutdown | die => cases h; exact .skip quiet_ended
      | _ => cases h
  | held records job_hashes =>
      cases choice with
      | ok =>
          simp only [go] at h
          split at h
          · rename_i hguard
            cases h
            exact .guarded hguard
          · cases h
            exact .skip (quiet_of_nil (ClaimPc.gained_claim_record_hashes records)
              (dropped_claim_record_hashes ..)
              fun _ _ _ => ClaimPc.named_claim_record_hashes)
      | raised => cases h; exact .skip (quiet_report (fun hsuccess => by cases hsuccess) rfl)
      | beat => cases h; exact .beat _
      | shutdown | die => cases h; exact .skip quiet_ended
      | _ => cases h
  | claiming records now claims =>
      cases choice with
      | ok =>
          obtain ⟨⟨table, claims'⟩, hstep, heq⟩ := Option.map_eq_some_iff.mp h
          cases heq
          exact .claims (ClaimPc.steps_of_step hstep)
      | raised =>
          cases h
          exact .aborts (quiet_report (fun hsuccess => by cases hsuccess) rfl)
      | beat => cases h; exact .beat _
      | shutdown | die => cases h; exact .aborts quiet_ended
      | _ => cases h
  | health_check slice =>
      cases choice with
      | ok => cases h; exact .skip ⟨fun _ h => ⟨h, id⟩, fun _ h => ⟨h, id⟩, fun _ _ h => h⟩
      | unhealthy => cases h; exact .skip (quiet_releaseBy fun _ => rfl)
      | raised => cases h; exact .skip (quiet_releaseBy fun _ => rfl)
      | beat => cases h; exact .beat _
      | shutdown => cases h; exact .skip (quiet_releaseBy fun hne => absurd rfl hne)
      | die => cases h; exact .skip quiet_ended
      | _ => cases h
  | send slice =>
      cases choice with
      | ok => cases h; exact .sent
      | wrote k =>
          simp only [go, Option.ite_none_right_eq_some, Option.some.injEq, Prod.mk.injEq] at h
          obtain ⟨hkept, rfl, rfl⟩ := h
          exact .wrote hkept
      | raised => cases h; exact .skip (quiet_releaseBy fun _ => rfl)
      | beat => cases h; exact .beat _
      | shutdown => cases h; exact .skip (quiet_releaseBy fun hne => absurd rfl hne)
      | die => cases h; exact .skip quiet_ended
      | _ => cases h
  | release slice by_ stats =>
      cases choice with
      | ok => cases h; exact .releases
      | raised =>
          cases by_ with
          | unhealthy => cases h; exact .skip (quiet_of_nil rfl rfl fun _ _ _ => rfl)
          | failed | shutdown =>
              cases h
              exact .skip ⟨fun _ hh => absurd hh List.not_mem_nil,
                fun _ hh => ⟨dropped_reportBy .. ▸ hh, id⟩,
                fun _ _ htold => told_reportBy htold⟩
      | beat => cases h; exact .beat _
      | shutdown =>
          cases by_ with
          | unhealthy => cases h; exact .skip (quiet_releaseBy fun hne => absurd rfl hne)
          | failed | shutdown => cases h; exact .skip quiet_ended
      | die => cases by_ <;> cases h <;> exact .skip quiet_ended
      | _ => cases by_ <;> cases h
  | report slice stats caught =>
      cases choice with
      | ok => cases h; exact .reports
      | raised => cases h; exact .skip quiet_closing
      | beat => cases h; exact .beat _
      | shutdown =>
          cases caught with
          | false => cases h; exact .skip (quiet_releaseBy fun hne => absurd rfl hne)
          | true => cases h; exact .skip quiet_ended
      | die => cases caught <;> cases h <;> exact .skip quiet_ended
      | _ => cases caught <;> cases h
  | closing slice caught =>
      cases choice with
      | ok => cases h; exact .skip quiet_ended
      | beat => cases h; exact .beat _
      | shutdown =>
          cases caught with
          | false => cases h; exact .skip (quiet_releaseBy fun hne => absurd rfl hne)
          | true => cases h; exact .skip quiet_ended
      | die => cases caught <;> cases h <;> exact .skip quiet_ended
      | _ => cases caught <;> cases h

theorem Works.delivered (h : Works cfg d job_id s pc choice s' pc') :
    ∀ x ∈ s.delivered, x ∈ s'.delivered := by
  cases h with
  | wrote | sent => exact fun x hx => List.mem_append_right _ hx
  | _ => exact fun x hx => hx

end RecordsPc

namespace DedupSystem

theorem delivered_step {cfg : Config} {s s' : DedupSystem} {e : DedupEvent}
    (hs : step cfg s e = some s') :
    ∀ x ∈ s.store.delivered, x ∈ s'.store.delivered := by
  cases e with
  | tick | deliver | manage =>
      simp only [step, Option.ite_none_right_eq_some, Option.some.injEq] at hs
      obtain ⟨-, rfl⟩ := hs
      exact fun x hx => hx
  | go d choice =>
      obtain ⟨⟨store, pc⟩, hgo, rfl⟩ := Option.map_eq_some_iff.mp hs
      exact (RecordsPc.works_of_go hgo).delivered
  | purge_executions | purge_expired_content | purge_processed_content =>
      cases hs
      exact fun x hx => hx

end DedupSystem

end Reflowfy
