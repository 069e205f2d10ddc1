import Reflowfy.Models
import Reflowfy.Paging.Listing
import Mathlib.Logic.Function.Basic

namespace Reflowfy

-- A digest of `compute_record_hash`: all that claims and sends know of a record.
abbrev RecordHash := ℕ

-- A digest of `compute_content_hash`, over a whole job.
abbrev ContentHash := ℕ

-- A row of `processed_records`. `tx` is the transaction that inserted it, until that commits.
structure ProcessedRecord where
  job_id : JobId
  created_at : Int
  tx : Option TaskId
  deriving DecidableEq, Repr

-- The table `processed_records`, by its primary key.
abbrev Records := RecordHash → Option ProcessedRecord

namespace Records

-- Seen by the other transactions too.
def committed (records : Records) (h : RecordHash) : Bool := (records h).any (·.tx.isNone)

-- The transaction that has yet to decide on this key.
def holder (records : Records) (h : RecordHash) : Option TaskId := (records h).bind (·.tx)

def insert (tx : TaskId) (job_id : JobId) (now : Int) (h : RecordHash)
    (records : Records) : Records :=
  Function.update records h (some ⟨job_id, now, some tx⟩)

-- SELECT record_hash WHERE record_hash IN (:taken) AND job_id = :job_id.
def own (tx : TaskId) (job_id : JobId) (taken : List RecordHash) (records : Records) :
    List RecordHash :=
  taken.filter fun h => (records h).any fun row => row.job_id = job_id &&
    (row.tx.isNone || row.tx = some tx)

def commit (tx : TaskId) (records : Records) : Records := fun h =>
  (records h).map fun row => if row.tx = some tx then { row with tx := none } else row

def rollback (tx : TaskId) (records : Records) : Records := fun h =>
  (records h).filter (·.tx ≠ some tx)

-- DELETE WHERE record_hash IN (:hashes) AND job_id = :job_id, over the chunks of one
-- transaction.
def release_record_hashes (hashes : List RecordHash) (job_id : JobId) (records : Records) :
    Records := fun h =>
  (records h).filter fun row => !(hashes.contains h && row.job_id = job_id && row.tx.isNone)

-- One chunk of `purge_expired_content`: the rows selected are older than the cutoff.
def purge_expired_content (cutoff : Int) (selected : List RecordHash) (records : Records) :
    Records := fun h =>
  (records h).filter fun row => !(selected.contains h && row.created_at < cutoff && row.tx.isNone)

end Records

-- `list(dict.fromkeys(hashes))`: the first of equal hashes stays.
def fromkeys : List RecordHash → List RecordHash
  | [] => []
  | h :: hashes => h :: (fromkeys hashes).filter (· ≠ h)

def CLAIM_CHUNK_SIZE : ℕ := 1000

-- Where a call of `claim_record_hashes` stands. During the INSERT of one part: the rows it
-- has yet to come to, those inserted and those found taken; the hashes won by earlier
-- parts; the parts to follow.
inductive ClaimPc
  | insert (rows inserted taken won : List RecordHash) (parts : List (List RecordHash))
  | own (taken won : List RecordHash) (parts : List (List RecordHash))
  | commit (won : List RecordHash)
  | done (won : List RecordHash)
  deriving DecidableEq, Repr

namespace ClaimPc

def nextPart (won : List RecordHash) : List (List RecordHash) → ClaimPc
  | [] => commit won
  | part :: parts => insert part [] [] won parts

def claim_record_hashes (hashes : List RecordHash) : ClaimPc :=
  if fromkeys hashes = [] then done []
  else nextPart [] (Paging.slices CLAIM_CHUNK_SIZE (fromkeys hashes))

-- One row, or one statement, of the transaction `tx`. A key that another transaction has
-- inserted and not committed makes the INSERT wait.
def step (tx : TaskId) (job_id : JobId) (now : Int) (records : Records) : ClaimPc →
    Option (Records × ClaimPc)
  | insert (h :: rows) inserted taken won parts =>
      match records h with
      | none => some (records.insert tx job_id now h, insert rows (inserted ++ [h]) taken won parts)
      | some row =>
          if row.tx.isSome && row.tx ≠ some tx then none
          else some (records, insert rows inserted (taken ++ [h]) won parts)
  | insert [] inserted taken won parts =>
      some (records,
        if taken = [] then nextPart (won ++ inserted) parts
        else own taken (won ++ inserted) parts)
  | own taken won parts => some (records, nextPart (won ++ records.own tx job_id taken) parts)
  | commit won => some (records.commit tx, done won)
  | done _ => none

-- The transaction whose end the INSERT waits for.
def waitsFor (tx : TaskId) (records : Records) : ClaimPc → Option TaskId
  | insert (h :: _) _ _ _ _ => (records.holder h).filter (· ≠ tx)
  | _ => none

end ClaimPc

-- The loop of `_claim_records` over the records to send and their hashes; `seen` are those kept.
def keep (won seen : List RecordHash) : List RecordHash → List RecordHash
  | [] => []
  | h :: hashes =>
      if won.contains h && !seen.contains h then h :: keep won (h :: seen) hashes
      else keep won seen hashes

-- `held_by_other_job`, from the rows (content_hash, job_id) of `processed_content`.
def held_by_other_job (processed_content : List (ContentHash × JobId))
    (job_hashes : List ContentHash) (job_id : JobId) : Bool :=
  processed_content.any fun (content_hash, owner) =>
    job_hashes.contains content_hash && owner ≠ job_id

end Reflowfy
