import Mathlib.Data.Prod.Lex
import P2panda.Core.Operation
import P2panda.Lib.Collections

/- `MemoryStore` (`p2panda-store/src/memory.rs`): operations by hash, and per author and
   log id an ordered set of `(seq_num, timestamp, hash)` entries.

   The store is the pair of maps of `InnerMemoryStore`; the `RwLock` around it only
   serialises calls, so each method is a function of the store, returning the new store
   when it writes. The error type is `Infallible`: a method fails only by panicking at one
   of its `expect`s, which the model returns as `.error` with the `expect` message.

   The spec lemmas at the end say what each writing method does to each of the two maps,
   as lookups; later proofs use them and do not unfold the methods. -/
namespace P2panda

/-- `LogMeta`: an entry of a log, ordered as the tuple `(seq_num, timestamp, hash)`. -/
structure LogMeta where
  seqNum : UInt64
  timestamp : UInt64
  hash : Hash
  deriving DecidableEq

namespace LogMeta

/-- The tuple the order compares. -/
def key (m : LogMeta) : Lex (UInt64 × Lex (UInt64 × Hash)) :=
  toLex (m.seqNum, toLex (m.timestamp, m.hash))

theorem key_injective : Function.Injective key := by
  rintro ⟨s, t, h⟩ ⟨s', t', h'⟩ heq
  simp only [key, toLex_inj, Prod.mk.injEq] at heq
  obtain ⟨rfl, rfl, rfl⟩ := heq
  rfl

instance : LinearOrder LogMeta := LinearOrder.lift' key key_injective

/-- Entries compare by sequence number first. -/
theorem seqNum_le_of_le {m m' : LogMeta} (h : m ≤ m') : m.seqNum ≤ m'.seqNum := by
  have h : key m ≤ key m' := h
  rcases Prod.Lex.toLex_le_toLex.mp h with hlt | ⟨heq, -⟩
  · exact le_of_lt hlt
  · exact le_of_eq heq

/-- An entry with a smaller sequence number is smaller. -/
theorem lt_of_seqNum_lt {m m' : LogMeta} (h : m.seqNum < m'.seqNum) : m < m' :=
  show key m < key m' from Prod.Lex.toLex_lt_toLex.mpr (Or.inl h)

end LogMeta

variable {L E : Type} [DecidableEq L]

/-- What `operations` holds per hash: `(log_id, header, body, header_bytes)`. -/
structure StoredOperation (L E : Type) where
  logId : L
  header : Header E
  body : Option Body
  headerBytes : List UInt8

/-- `InnerMemoryStore`. -/
structure MemoryStore (L E : Type) [DecidableEq L] where
  operations : AList fun _ : Hash => StoredOperation L E
  logs : AList fun _ : PublicKey × L => SortedSet LogMeta

namespace MemoryStore

/-- `MemoryStore::new`. -/
def new : MemoryStore L E := ⟨∅, ∅⟩

/-- The log entry of a header stored under `hash`. -/
def logMeta (header : Header E) (hash : Hash) : LogMeta :=
  ⟨header.seqNum, header.timestamp, hash⟩

@[simp] theorem logMeta_seqNum (header : Header E) (hash : Hash) :
    (logMeta header hash).seqNum = header.seqNum := rfl

@[simp] theorem logMeta_hash (header : Header E) (hash : Hash) :
    (logMeta header hash).hash = hash := rfl

/-- The log of `key`, empty when there is none (`entry(..).or_default()`). -/
def logOrEmpty (s : MemoryStore L E) (key : PublicKey × L) : SortedSet LogMeta :=
  (s.logs.lookup key).getD .empty

/-! ## `OperationStore` -/

/-- `insert_operation`: add the entry to the log of the header's author and `log_id`, and
store the operation when the entry was new. -/
def insertOperation (s : MemoryStore L E) (hash : Hash) (header : Header E)
    (body : Option Body) (headerBytes : List UInt8) (logId : L) : Bool × MemoryStore L E :=
  let key := (header.publicKey, logId)
  let log := s.logOrEmpty key
  let logMeta := logMeta header hash
  let insertionOccured := decide (logMeta ∉ log)
  let logs := s.logs.insert key (log.insert logMeta)
  if insertionOccured then
    (true, { operations := s.operations.insert hash ⟨logId, header, body, headerBytes⟩, logs })
  else (false, { s with logs })

/-- `get_operation`. -/
def getOperation (s : MemoryStore L E) (hash : Hash) : Option (Header E × Option Body) :=
  (s.operations.lookup hash).map fun op => (op.header, op.body)

/-- `has_operation`. -/
def hasOperation (s : MemoryStore L E) (hash : Hash) : Bool := decide (hash ∈ s.operations)

/-- `delete_operation`: remove the operation, its entry from every log, and every log that
is left empty. -/
def deleteOperation (s : MemoryStore L E) (hash : Hash) : Bool × MemoryStore L E :=
  match s.operations.lookup hash with
  | none => (false, s)
  | some op =>
    let logMeta := logMeta op.header hash
    (true, { operations := s.operations.erase hash
             logs := (s.logs.mapVal fun _ log => log.erase logMeta).filter
               fun _ log => !log.isEmpty })

/-- `delete_payload`. -/
def deletePayload (s : MemoryStore L E) (hash : Hash) : Bool × MemoryStore L E :=
  match s.operations.lookup hash with
  | some op => (true, { s with operations := s.operations.insert hash { op with body := none } })
  | none => (false, s)

/-! ## `LogStore` -/

/-- The entries at or after `from`, when it is given. -/
def fromFilter (fromSeqNum : Option UInt64) (m : LogMeta) : Bool :=
  match fromSeqNum with
  | some fromSeqNum => decide (m.seqNum ≥ fromSeqNum)
  | none => true

/-- `store.operations.get(hash).expect(msg)`. -/
def expectOperation (s : MemoryStore L E) (hash : Hash) (msg : String) :
    Except String (StoredOperation L E) :=
  match s.operations.lookup hash with
  | some op => .ok op
  | none => .error msg

/-- `get_log`: the operations of the log in order, from `from` on when given. -/
def getLog (s : MemoryStore L E) (publicKey : PublicKey) (logId : L)
    (fromSeqNum : Option UInt64) : Except String (Option (List (Header E × Option Body))) :=
  match s.logs.lookup (publicKey, logId) with
  | some log =>
    some <$> (log.toList.filter (fromFilter fromSeqNum)).mapM fun m =>
      (fun op => (op.header, op.body)) <$> s.expectOperation m.hash "exists in hash map"
  | none => .ok none

/-- `get_raw_log`. -/
def getRawLog (s : MemoryStore L E) (publicKey : PublicKey) (logId : L)
    (fromSeqNum : Option UInt64) :
    Except String (Option (List (List UInt8 × Option (List UInt8)))) :=
  match s.logs.lookup (publicKey, logId) with
  | some log =>
    some <$> (log.toList.filter (fromFilter fromSeqNum)).mapM fun m =>
      (fun op => (op.headerBytes, op.body.map Body.bytes)) <$>
        s.expectOperation m.hash "exists in hash map"
  | none => .ok none

/-- `latest_operation`: the operation of the largest entry of the log. -/
def latestOperation (s : MemoryStore L E) (publicKey : PublicKey) (logId : L) :
    Option (Header E × Option Body) := do
  let log ← s.logs.lookup (publicKey, logId)
  let logMeta ← log.max?
  let op ← s.operations.lookup logMeta.hash
  pure (op.header, op.body)

/-- The hashes of the entries of `log` below `before`. -/
def hashesBefore (log : SortedSet LogMeta) (before : UInt64) : List Hash :=
  (log.toList.filter fun m => m.seqNum < before).map LogMeta.hash

/-- `delete_operations`: drop the entries below `before` from the log (which stays in the
map, empty or not) and their operations from `operations`. -/
def deleteOperations (s : MemoryStore L E) (publicKey : PublicKey) (logId : L)
    (before : UInt64) : Bool × MemoryStore L E :=
  let key := (publicKey, logId)
  match s.logs.lookup key with
  | some log =>
    let deleted := hashesBefore log before
    (!deleted.isEmpty,
      { operations := s.operations.filter fun hash _ => decide (hash ∉ deleted)
        logs := s.logs.insert key (log.filter fun m => !decide (m.seqNum < before)) })
  | none => (false, s)

/-- Remove the body of each of `hashes`, panicking at one that is not stored. -/
def clearPayloads (hashes : List Hash) (operations : AList fun _ : Hash => StoredOperation L E) :
    Except String (AList fun _ : Hash => StoredOperation L E) :=
  hashes.foldlM (fun ops hash =>
    match ops.lookup hash with
    | some op => .ok (ops.insert hash { op with body := none })
    | none => .error "operation exists in store") operations

/-- The hashes of the entries of `log` with `from ≤ seq_num < to`. -/
def hashesBetween (log : SortedSet LogMeta) (fromSeqNum toSeqNum : UInt64) : List Hash :=
  (log.toList.filter fun m => fromSeqNum ≤ m.seqNum ∧ m.seqNum < toSeqNum).map LogMeta.hash

/-- `delete_payloads`: remove the bodies of the entries with `from ≤ seq_num < to`. -/
def deletePayloads (s : MemoryStore L E) (publicKey : PublicKey) (logId : L)
    (fromSeqNum toSeqNum : UInt64) : Except String (Bool × MemoryStore L E) := do
  let deleted := ((s.logs.lookup (publicKey, logId)).map
    (hashesBetween · fromSeqNum toSeqNum)).getD []
  let operations ← clearPayloads deleted s.operations
  pure (!deleted.isEmpty, { s with operations })

/-- `get_log_heights`: for every log of `log_id`, its author and largest sequence number. -/
def getLogHeights (s : MemoryStore L E) (logId : L) :
    Except String (List (PublicKey × UInt64)) :=
  (s.logs.entries.filter fun e => decide (e.1.2 = logId)).mapM fun e =>
    match e.2.max? with
    | some m => .ok (e.1.1, m.seqNum)
    | none => .error "all logs contain at least one operation"

/-! ## Spec lemmas -/

section Spec

variable (s : MemoryStore L E)

theorem hasOperation_eq_false {hash : Hash} :
    s.hasOperation hash = false ↔ s.operations.lookup hash = none := by
  rw [hasOperation, decide_eq_false_iff_not, AList.lookup_eq_none]

theorem insertOperation_fst (hash : Hash) (header : Header E) (body : Option Body)
    (headerBytes : List UInt8) (logId : L) :
    (s.insertOperation hash header body headerBytes logId).1 =
      decide (logMeta header hash ∉ s.logOrEmpty (header.publicKey, logId)) := by
  by_cases hnew : logMeta header hash ∈ s.logOrEmpty (header.publicKey, logId) <;>
    simp [insertOperation, hnew]

theorem insertOperation_operations (hash : Hash) (header : Header E) (body : Option Body)
    (headerBytes : List UInt8) (logId : L) (h : Hash) :
    (s.insertOperation hash header body headerBytes logId).2.operations.lookup h =
      if logMeta header hash ∉ s.logOrEmpty (header.publicKey, logId) ∧ h = hash then
        some ⟨logId, header, body, headerBytes⟩
      else s.operations.lookup h := by
  by_cases hnew : logMeta header hash ∈ s.logOrEmpty (header.publicKey, logId)
  · simp [insertOperation, hnew]
  · by_cases hh : h = hash
    · subst hh
      simp [insertOperation, hnew, AList.lookup_insert]
    · simp [insertOperation, hnew, hh, AList.lookup_insert_ne hh]

theorem insertOperation_logs (hash : Hash) (header : Header E) (body : Option Body)
    (headerBytes : List UInt8) (logId : L) (key : PublicKey × L) :
    (s.insertOperation hash header body headerBytes logId).2.logs.lookup key =
      if key = (header.publicKey, logId) then
        some ((s.logOrEmpty key).insert (logMeta header hash))
      else s.logs.lookup key := by
  by_cases hnew : logMeta header hash ∈ s.logOrEmpty (header.publicKey, logId) <;>
  by_cases hk : key = (header.publicKey, logId)
  all_goals first
    | (subst hk; simp [insertOperation, hnew, AList.lookup_insert])
    | simp [insertOperation, hnew, hk, AList.lookup_insert_ne hk]

theorem deleteOperation_operations (hash h : Hash) :
    (s.deleteOperation hash).2.operations.lookup h =
      if h = hash then none else s.operations.lookup h := by
  unfold deleteOperation
  split
  · next hnone =>
    by_cases hh : h = hash
    · subst hh; simp [hnone]
    · simp [hh]
  · by_cases hh : h = hash
    · subst hh; simp [AList.lookup_erase]
    · simp [hh, AList.lookup_erase_ne hh]

theorem deleteOperation_logs (hash : Hash) (op : StoredOperation L E)
    (hop : s.operations.lookup hash = some op) (key : PublicKey × L) :
    (s.deleteOperation hash).2.logs.lookup key =
      ((s.logs.lookup key).map fun log => log.erase (logMeta op.header hash)).filter
        fun log => !log.isEmpty := by
  simp [deleteOperation, hop, AList.lookup_filter, AList.lookup_mapVal]

theorem deleteOperation_of_lookup_none (hash : Hash) (hop : s.operations.lookup hash = none) :
    s.deleteOperation hash = (false, s) := by
  simp [deleteOperation, hop]

theorem deletePayload_operations (hash h : Hash) :
    (s.deletePayload hash).2.operations.lookup h =
      if h = hash then (s.operations.lookup hash).map fun op => { op with body := none }
      else s.operations.lookup h := by
  cases hop : s.operations.lookup hash with
  | none =>
    by_cases hh : h = hash
    · subst hh; simp [deletePayload, hop]
    · simp [deletePayload, hop, hh]
  | some op =>
    by_cases hh : h = hash
    · subst hh; simp [deletePayload, hop, AList.lookup_insert]
    · simp [deletePayload, hop, hh, AList.lookup_insert_ne hh]

theorem deletePayload_logs (hash : Hash) : (s.deletePayload hash).2.logs = s.logs := by
  unfold deletePayload
  split <;> rfl

theorem deleteOperations_operations (publicKey : PublicKey) (logId : L) (before : UInt64)
    (h : Hash) :
    (s.deleteOperations publicKey logId before).2.operations.lookup h =
      (s.operations.lookup h).filter fun _ =>
        decide (h ∉ ((s.logs.lookup (publicKey, logId)).map (hashesBefore · before)).getD []) := by
  cases hlog : s.logs.lookup (publicKey, logId) with
  | none =>
    cases hop : s.operations.lookup h <;> simp [deleteOperations, hlog, hop, Option.filter]
  | some log =>
    simp [deleteOperations, hlog, AList.lookup_filter]

theorem deleteOperations_logs (publicKey : PublicKey) (logId : L) (before : UInt64)
    (key : PublicKey × L) :
    (s.deleteOperations publicKey logId before).2.logs.lookup key =
      if key = (publicKey, logId) then
        (s.logs.lookup key).map fun log => log.filter fun m => !decide (m.seqNum < before)
      else s.logs.lookup key := by
  by_cases hk : key = (publicKey, logId)
  · subst hk
    cases hlog : s.logs.lookup (publicKey, logId) <;>
      simp [deleteOperations, hlog, AList.lookup_insert]
  · cases hlog : s.logs.lookup (publicKey, logId) <;>
      simp [deleteOperations, hlog, hk, AList.lookup_insert_ne hk]

omit [DecidableEq L] in
/-- What `clearPayloads` leaves under each hash: the same operation, without its body when
the hash is one of those cleared. -/
theorem clearPayloads_lookup {hashes : List Hash} {ops ops' : AList fun _ : Hash => StoredOperation L E}
    (h : clearPayloads hashes ops = .ok ops') (k : Hash) :
    ops'.lookup k = (ops.lookup k).map fun op => if k ∈ hashes then { op with body := none } else op := by
  induction hashes generalizing ops with
  | nil =>
    simp only [clearPayloads, List.foldlM_nil] at h
    cases h
    simp
  | cons x xs ih =>
    simp only [clearPayloads, List.foldlM_cons] at h
    cases hx : ops.lookup x with
    | none => rw [hx] at h; cases h
    | some op =>
      rw [hx] at h
      rw [ih h]
      by_cases hk : k = x
      · subst hk
        simp [AList.lookup_insert, hx]
      · simp [AList.lookup_insert_ne hk, hk]

omit [DecidableEq L] in
/-- `clearPayloads` does not panic when every hash is stored. -/
theorem clearPayloads_ok (hashes : List Hash) (ops : AList fun _ : Hash => StoredOperation L E)
    (h : ∀ x ∈ hashes, x ∈ ops) : ∃ ops', clearPayloads hashes ops = .ok ops' := by
  induction hashes generalizing ops with
  | nil => exact ⟨ops, rfl⟩
  | cons x xs ih =>
    obtain ⟨op, hop⟩ := Option.isSome_iff_exists.mp (AList.lookup_isSome.mpr (h x List.mem_cons_self))
    -- inserting keeps every key, so the rest is still stored
    have hrest : ∀ y ∈ xs, y ∈ ops.insert x { op with body := none } := fun y hy =>
      (AList.mem_insert _).mpr (Or.inr (h y (List.mem_cons_of_mem x hy)))
    obtain ⟨ops', hops'⟩ := ih _ hrest
    refine ⟨ops', ?_⟩
    simp only [clearPayloads, List.foldlM_cons, hop]
    exact hops'

theorem deletePayloads_eq (publicKey : PublicKey) (logId : L) (fromSeqNum toSeqNum : UInt64) :
    s.deletePayloads publicKey logId fromSeqNum toSeqNum =
      let deleted := ((s.logs.lookup (publicKey, logId)).map
        (hashesBetween · fromSeqNum toSeqNum)).getD []
      (fun ops => (!deleted.isEmpty, { s with operations := ops })) <$>
        clearPayloads deleted s.operations := by
  simp only [deletePayloads]
  cases clearPayloads _ s.operations <;> rfl

theorem mem_hashesBetween {publicKey : PublicKey} {logId : L} {fromSeqNum toSeqNum : UInt64}
    {h : Hash} :
    h ∈ ((s.logs.lookup (publicKey, logId)).map (hashesBetween · fromSeqNum toSeqNum)).getD [] →
      ∃ m ∈ s.logOrEmpty (publicKey, logId), m.hash = h := by
  unfold logOrEmpty
  cases s.logs.lookup (publicKey, logId) with
  | none => simp
  | some log =>
    simp only [Option.map_some, Option.getD_some, hashesBetween, List.mem_map, List.mem_filter]
    rintro ⟨m, ⟨hm, -⟩, rfl⟩
    exact ⟨m, hm, rfl⟩

/-- `latest_operation` returns the operation of the log's largest entry. -/
theorem latestOperation_eq_some {publicKey : PublicKey} {logId : L} {header : Header E}
    {body : Option Body} :
    s.latestOperation publicKey logId = some (header, body) ↔
      ∃ log m op, s.logs.lookup (publicKey, logId) = some log ∧ log.max? = some m ∧
        s.operations.lookup m.hash = some op ∧ op.header = header ∧ op.body = body := by
  unfold latestOperation
  cases hlog : s.logs.lookup (publicKey, logId) with
  | none => simp
  | some log =>
    cases hmax : log.max? with
    | none => simp [hmax]
    | some m =>
      cases hop : s.operations.lookup m.hash with
      | none => simp [hmax, hop]
      | some op => simp [hmax, hop]

/-! ### Log membership

The same four methods as changes of `logOrEmpty` membership: which entries each log has
afterwards. -/

theorem mem_logOrEmpty {key : PublicKey × L} {m : LogMeta} :
    m ∈ s.logOrEmpty key ↔ ∃ log, s.logs.lookup key = some log ∧ m ∈ log := by
  unfold logOrEmpty
  cases s.logs.lookup key with
  | none => simp
  | some log => simp

theorem mem_logOrEmpty_insertOperation (hash : Hash) (header : Header E) (body : Option Body)
    (headerBytes : List UInt8) (logId : L) (key : PublicKey × L) (m : LogMeta) :
    m ∈ (s.insertOperation hash header body headerBytes logId).2.logOrEmpty key ↔
      (key = (header.publicKey, logId) ∧ m = logMeta header hash) ∨ m ∈ s.logOrEmpty key := by
  by_cases hk : key = (header.publicKey, logId)
  · subst hk
    simp [logOrEmpty, insertOperation_logs]
  · simp [logOrEmpty, insertOperation_logs, hk]

theorem mem_logOrEmpty_deleteOperation (hash : Hash) (op : StoredOperation L E)
    (hop : s.operations.lookup hash = some op) (key : PublicKey × L) (m : LogMeta) :
    m ∈ (s.deleteOperation hash).2.logOrEmpty key ↔
      m ≠ logMeta op.header hash ∧ m ∈ s.logOrEmpty key := by
  unfold logOrEmpty
  rw [deleteOperation_logs s hash op hop]
  cases s.logs.lookup key with
  | none => simp
  | some log =>
    by_cases hempty : (log.erase (logMeta op.header hash)).isEmpty
    · -- the emptied log is dropped: it had no other entry
      have hnone := SortedSet.isEmpty_iff.mp hempty m
      simp only [SortedSet.mem_erase] at hnone
      simp [Option.filter_some, hempty, hnone]
    · simp [Option.filter_some, hempty]

theorem mem_logOrEmpty_deleteOperations (publicKey : PublicKey) (logId : L) (before : UInt64)
    (key : PublicKey × L) (m : LogMeta) :
    m ∈ (s.deleteOperations publicKey logId before).2.logOrEmpty key ↔
      m ∈ s.logOrEmpty key ∧ (key = (publicKey, logId) → ¬ m.seqNum < before) := by
  by_cases hk : key = (publicKey, logId)
  · subst hk
    cases hlog : s.logs.lookup (publicKey, logId) <;>
      simp [logOrEmpty, deleteOperations_logs, hlog]
  · simp [logOrEmpty, deleteOperations_logs, hk]

/-- The hashes `delete_payloads` clears are those of the log's entries from `from` to
`to`. -/
theorem mem_hashesBetween_iff {publicKey : PublicKey} {logId : L} {fromSeqNum toSeqNum : UInt64}
    {h : Hash} :
    h ∈ ((s.logs.lookup (publicKey, logId)).map (hashesBetween · fromSeqNum toSeqNum)).getD [] ↔
      ∃ m ∈ s.logOrEmpty (publicKey, logId),
        (fromSeqNum ≤ m.seqNum ∧ m.seqNum < toSeqNum) ∧ m.hash = h := by
  unfold logOrEmpty
  cases s.logs.lookup (publicKey, logId) with
  | none => simp
  | some log => simp [hashesBetween, and_assoc]

theorem deleteOperation_fst (hash : Hash) : (s.deleteOperation hash).1 = s.hasOperation hash := by
  cases hop : s.operations.lookup hash with
  | none => simp [deleteOperation, hop, (hasOperation_eq_false s).mpr hop]
  | some op =>
    have hmem : hash ∈ s.operations := AList.lookup_isSome.mp (by rw [hop]; rfl)
    simp [deleteOperation, hop, hasOperation, hmem]

theorem deletePayload_fst (hash : Hash) : (s.deletePayload hash).1 = s.hasOperation hash := by
  cases hop : s.operations.lookup hash with
  | none => simp [deletePayload, hop, (hasOperation_eq_false s).mpr hop]
  | some op =>
    have hmem : hash ∈ s.operations := AList.lookup_isSome.mp (by rw [hop]; rfl)
    simp [deletePayload, hop, hasOperation, hmem]

theorem deleteOperations_fst (publicKey : PublicKey) (logId : L) (before : UInt64) :
    (s.deleteOperations publicKey logId before).1 =
      !(((s.logs.lookup (publicKey, logId)).map (hashesBefore · before)).getD []).isEmpty := by
  cases hlog : s.logs.lookup (publicKey, logId) <;> simp [deleteOperations, hlog]

/-- The hashes `delete_operations` removes are those of the log's entries below `before`. -/
theorem mem_hashesBefore {publicKey : PublicKey} {logId : L} {before : UInt64} {h : Hash} :
    h ∈ ((s.logs.lookup (publicKey, logId)).map (hashesBefore · before)).getD [] ↔
      ∃ m ∈ s.logOrEmpty (publicKey, logId), m.seqNum < before ∧ m.hash = h := by
  unfold logOrEmpty
  cases s.logs.lookup (publicKey, logId) with
  | none => simp
  | some log => simp [hashesBefore, and_assoc]

end Spec

end MemoryStore

end P2panda
