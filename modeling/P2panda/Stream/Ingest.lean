import P2panda.Store.MemoryInvariant

/- `ingest_operation` (`p2panda-stream/src/operation.rs`) on a `MemoryStore`.

   An operation that validates and is not stored yet is stored when it passes the log
   check: the prune flag is set, or it is the first of its log (`seq_num` 0), or it is
   the successor of the log's latest operation with a backlink to it. With a prune flag
   the log is then cut below the operation. A gap (`SeqNumNonIncremental`) or an empty
   log gives `Retry`, a wrong author or backlink an error, and in those cases nothing is
   written (`ingestOperation_store`).

   Runs of ingest calls:

   1. Without prune flags (`ingest_logs_chained`) every log is `Chained`: every entry
      names a stored operation of that author under its own hash; the sequence numbers
      form a range `0..=n`; every operation past the first has a backlink to the hash of a
      stored operation one sequence number below; and each sequence number above 0
      occurs once. One call keeps this (`ingestOperation_chained`) because an operation
      past the first is stored only right above the log's largest entry
      (`Chained.latest_entry`). Sequence number 0 can occur twice: the check is skipped
      for it, so a second first operation of the same author and log is stored beside the
      first (`ingest_two_first_operations`).
   2. With prune flags (`ingest_genesis_after_prune`): a first operation that was pruned
      is stored again when it is delivered again, below the prune point, since it is no
      longer found by `has_operation` and the first operation skips the log check.

   Sequence numbers are `u64` with wrapping arithmetic, as in a release build; the
   subtraction in the `Retry` count is modelled as it wraps. -/
namespace P2panda

open MemoryStore

variable {L E : Type} [DecidableEq L]

/-- `IngestResult`. -/
inductive IngestResult (E : Type) where
  /-- The operation was validated and persisted. -/
  | complete (operation : Operation E)
  /-- Earlier operations of the log are missing; `behind` says how many. -/
  | retry (header : Header E) (body : Option Body) (headerBytes : List UInt8) (behind : UInt64)
  deriving DecidableEq

/-- `IngestError`. `ingest_operation` raises only `InvalidOperation` on a `MemoryStore`, whose
own error type is empty, so `StoreError` is left out; the `Ingest` stream raises the other
two. -/
inductive IngestError where
  | invalidOperation (err : OperationError)
  | missingHeaderExtension (name : String)
  | maxAttemptsReached (behind : UInt64)
  deriving DecidableEq, Repr

/-- The `Display` of `IngestError`. -/
def IngestError.toString : IngestError → String
  | .invalidOperation err => "operation validation failed: " ++ err.toString
  | .missingHeaderExtension name => "missing \"" ++ name ++ "\" extension in header"
  | .maxAttemptsReached behind =>
    "too many attempts to ingest out-of-order operation (" ++ Nat.repr behind.toNat ++
      " behind in log)"

section Ingest

variable (P : Primitives) [Extensions E]

/-- The log check for an operation past the first without a prune flag: `none` when it
may be stored, otherwise what `ingest_operation` returns. `validate_backlink` raises only
the three errors matched here and `SeqNumNonIncremental`, so the source's `unreachable!`
arm is never taken and the last arm stands for the three. -/
def checkBacklink (store : MemoryStore L E) (header : Header E) (body : Option Body)
    (headerBytes : List UInt8) (logId : L) : Option (Except IngestError (IngestResult E)) :=
  match store.latestOperation header.publicKey logId with
  | some (latest, _) =>
    match validateBacklink P latest header with
    | .ok () => none
    | .error (.seqNumNonIncremental expected given) =>
      some (.ok (.retry header body headerBytes (given - expected)))
    | .error err => some (.error (.invalidOperation err))
  | none => some (.ok (.retry header body headerBytes header.seqNum))

/-- `if !prune_flag && seq_num > 0`: the log check, skipped for a pruning or a first
operation. -/
def logCheck (store : MemoryStore L E) (header : Header E) (body : Option Body)
    (headerBytes : List UInt8) (logId : L) (pruneFlag : Bool) :
    Option (Except IngestError (IngestResult E)) :=
  if !pruneFlag ∧ 0 < header.seqNum then checkBacklink P store header body headerBytes logId
  else none

/-- `ingest_operation`, with the store after the call. -/
def ingestOperation (store : MemoryStore L E) (header : Header E) (body : Option Body)
    (headerBytes : List UInt8) (logId : L) (pruneFlag : Bool) :
    Except IngestError (IngestResult E) × MemoryStore L E :=
  let operation : Operation E := ⟨header.hash P, header, body⟩
  match validateOperation P operation with
  | .error err => (.error (.invalidOperation err), store)
  | .ok () =>
    if store.hasOperation operation.hash then (.ok (.complete operation), store)
    else
      match logCheck P store header body headerBytes logId pruneFlag with
      | some result => (result, store)
      | none =>
        let store := (store.insertOperation operation.hash header body headerBytes logId).2
        let store := if pruneFlag then
          (store.deleteOperations header.publicKey logId header.seqNum).2 else store
        (.ok (.complete operation), store)

/-- An ingest call: what the stream hands to `ingest_operation`. -/
structure IngestCall (L E : Type) where
  header : Header E
  body : Option Body
  headerBytes : List UInt8
  logId : L

/-- Ingest the calls one after another, each with the prune flag `pruneFlag` reads from its
header; the results in order, and the final store. -/
def ingestRun (pruneFlag : Header E → Bool) :
    MemoryStore L E → List (IngestCall L E) →
      List (Except IngestError (IngestResult E)) × MemoryStore L E
  | store, [] => ([], store)
  | store, c :: calls =>
    let (result, store) :=
      ingestOperation P store c.header c.body c.headerBytes c.logId (pruneFlag c.header)
    let (results, store) := ingestRun pruneFlag store calls
    (result :: results, store)

/-! ## What one call writes -/

theorem checkBacklink_none {store : MemoryStore L E} {header : Header E} {body : Option Body}
    {headerBytes : List UInt8} {logId : L}
    (h : checkBacklink P store header body headerBytes logId = none) :
    ∃ latest latestBody, store.latestOperation header.publicKey logId = some (latest, latestBody) ∧
      validateBacklink P latest header = .ok () := by
  unfold checkBacklink at h
  split at h
  · next latest latestBody hlatest =>
    split at h
    · next hok => exact ⟨latest, latestBody, hlatest, hok⟩
    · cases h
    · cases h
  · cases h

/-- A call either leaves the store as it is, or stores a valid operation that was not
stored and passed the log check, and prunes below it when flagged. -/
theorem ingestOperation_store (store : MemoryStore L E) (header : Header E) (body : Option Body)
    (headerBytes : List UInt8) (logId : L) (pruneFlag : Bool) :
    (ingestOperation P store header body headerBytes logId pruneFlag).2 = store ∨
      (validateOperation P ⟨header.hash P, header, body⟩ = .ok () ∧
        store.hasOperation (header.hash P) = false ∧
        (pruneFlag = false → 0 < header.seqNum →
          ∃ latest latestBody,
            store.latestOperation header.publicKey logId = some (latest, latestBody) ∧
            validateBacklink P latest header = .ok ()) ∧
        (ingestOperation P store header body headerBytes logId pruneFlag).2 =
          let stored := (store.insertOperation (header.hash P) header body headerBytes logId).2
          if pruneFlag then (stored.deleteOperations header.publicKey logId header.seqNum).2
          else stored) := by
  cases hv : validateOperation P ⟨header.hash P, header, body⟩ with
  | error err => exact Or.inl (by simp [ingestOperation, hv])
  | ok u =>
    by_cases hhas : store.hasOperation (header.hash P) = true
    · exact Or.inl (by simp [ingestOperation, hv, hhas])
    · cases hc : logCheck P store header body headerBytes logId pruneFlag with
      | some result => exact Or.inl (by simp [ingestOperation, hv, hhas, hc])
      | none =>
        refine Or.inr ⟨rfl, by simpa using hhas, fun hflag hpos => ?_,
          by simp [ingestOperation, hv, hhas, hc]⟩
        simp only [logCheck, hflag, Bool.not_false, true_and, hpos, if_true] at hc
        exact checkBacklink_none P hc

/-- Whatever the results, a run's final store is reached by its calls one after another. -/
theorem ingestRun_invariant (pruneFlag : Header E → Bool) (I : MemoryStore L E → Prop)
    (hstep : ∀ store (c : IngestCall L E), I store →
      I (ingestOperation P store c.header c.body c.headerBytes c.logId (pruneFlag c.header)).2) :
    ∀ (calls : List (IngestCall L E)) (store : MemoryStore L E), I store →
      I (ingestRun P pruneFlag store calls).2
  | [], _, hs => hs
  | c :: calls, store, hs => ingestRun_invariant pruneFlag I hstep calls _ (hstep store c hs)

end Ingest

/-! ## Log integrity without prune flags -/

namespace MemoryStore

section Chained

variable (P : Primitives) [Extensions E]

/-- The logs of a store that only ever ingested without prune flags. -/
structure Chained (s : MemoryStore L E) : Prop where
  /-- Every entry names a stored operation filed under its log, and back. -/
  wellFiled : s.WellFiled
  /-- Every operation is stored under the hash of its header. -/
  hashes : ∀ hash op, s.operations.lookup hash = some op → op.header.hash P = hash
  /-- No two entries of a log share a sequence number above `0`. -/
  unique : ∀ key m₁ m₂, m₁ ∈ s.logOrEmpty key → m₂ ∈ s.logOrEmpty key →
    m₁.seqNum = m₂.seqNum → 0 < m₁.seqNum → m₁ = m₂
  /-- The sequence numbers of a log form a range from `0`. -/
  contiguous : ∀ key m, m ∈ s.logOrEmpty key → ∀ k ≤ m.seqNum,
    ∃ m' ∈ s.logOrEmpty key, m'.seqNum = k
  /-- Every operation past the first has a backlink to an entry one below it. -/
  backlinks : ∀ key m op, m ∈ s.logOrEmpty key → s.operations.lookup m.hash = some op →
    0 < m.seqNum → ∃ m' ∈ s.logOrEmpty key, m'.seqNum + 1 = m.seqNum ∧
      op.header.backlink = some m'.hash

theorem new_chained : (new : MemoryStore L E).Chained P where
  wellFiled := new_consistent.toWellFiled
  hashes := by simp [new, AList.lookup_empty]
  unique := by simp [new, logOrEmpty, AList.lookup_empty]
  contiguous := by simp [new, logOrEmpty, AList.lookup_empty]
  backlinks := by simp [new, logOrEmpty, AList.lookup_empty]

variable {P} {s : MemoryStore L E}

/-- An operation whose backlink check against the log's latest operation passed sits
right above the log's largest entry, and its backlink is that entry's hash. -/
theorem Chained.latest_entry (hs : s.Chained P) {header latest : Header E} {logId : L}
    {latestBody : Option Body}
    (hlatest : s.latestOperation header.publicKey logId = some (latest, latestBody))
    (hback : validateBacklink P latest header = .ok ()) :
    ∃ m ∈ s.logOrEmpty (header.publicKey, logId), m.seqNum + 1 = header.seqNum ∧
      header.backlink = some m.hash ∧ ∀ m' ∈ s.logOrEmpty (header.publicKey, logId), m' ≤ m := by
  obtain ⟨log, m, op, hlog, hmax, hop, rfl, -⟩ := (latestOperation_eq_some s).mp hlatest
  obtain ⟨-, hsucc, hbacklink⟩ := (validateBacklink_ok_iff P _ _).mp hback
  have hm : m ∈ s.logOrEmpty (header.publicKey, logId) :=
    (mem_logOrEmpty s).mpr ⟨log, hlog, SortedSet.max?_mem hmax⟩
  have hmeta := (hs.wellFiled.entry_eq hm hop).1
  refine ⟨m, hm, ?_, ?_, fun m' hm' => ?_⟩
  · rw [hmeta]
    exact hsucc
  · rw [hbacklink, hs.hashes _ _ hop]
  · obtain ⟨log', hlog', hm'⟩ := (mem_logOrEmpty s).mp hm'
    rw [hlog] at hlog'
    cases hlog'
    exact SortedSet.le_max? hmax hm'

/-- Storing a new operation that is a first operation or passed the backlink check keeps
the logs chained. -/
theorem insertOperation_chained (hs : s.Chained P) {header : Header E} {body : Option Body}
    {headerBytes : List UInt8} {logId : L}
    (hnot : s.hasOperation (header.hash P) = false)
    (hcheck : 0 < header.seqNum → ∃ latest latestBody,
      s.latestOperation header.publicKey logId = some (latest, latestBody) ∧
        validateBacklink P latest header = .ok ()) :
    (s.insertOperation (header.hash P) header body headerBytes logId).2.Chained P := by
  have hnone := (hasOperation_eq_false s).mp hnot
  -- no entry names the new hash, so every old entry keeps its operation
  have hfresh : ∀ key m, m ∈ s.logOrEmpty key → m.hash ≠ header.hash P := by
    intro key m hm heq
    obtain ⟨op, hop, -⟩ := hs.wellFiled.entries_stored key m hm
    rw [heq, hnone] at hop
    cases hop
  have hnew : logMeta header (header.hash P) ∉ s.logOrEmpty (header.publicKey, logId) :=
    fun hm => hfresh _ _ hm rfl
  have hlookup : ∀ h, (s.insertOperation (header.hash P) header body headerBytes logId).2.operations.lookup h =
      if h = header.hash P then some ⟨logId, header, body, headerBytes⟩
      else s.operations.lookup h := by
    intro h
    rw [insertOperation_operations]
    by_cases hh : h = header.hash P <;> simp [hnew, hh]
  -- a successor: above every entry of its log, right above the largest
  have hsucc : 0 < header.seqNum → ∃ m ∈ s.logOrEmpty (header.publicKey, logId),
      m.seqNum + 1 = header.seqNum ∧ header.backlink = some m.hash ∧
        ∀ k, k < header.seqNum ↔ k ≤ m.seqNum := by
    intro hpos
    obtain ⟨latest, latestBody, hlatest, hback⟩ := hcheck hpos
    obtain ⟨m, hm, hseq, hbacklink, -⟩ := hs.latest_entry hlatest hback
    have hne : m.seqNum + 1 ≠ 0 := hseq ▸ hpos.ne'
    exact ⟨m, hm, hseq, hbacklink, fun k => hseq ▸ UInt64.lt_add_one_iff_of_ne_zero hne⟩
  have habove : 0 < header.seqNum → ∀ m ∈ s.logOrEmpty (header.publicKey, logId),
      m.seqNum < header.seqNum := by
    intro hpos m hm
    obtain ⟨latest, latestBody, hlatest, hback⟩ := hcheck hpos
    obtain ⟨mL, hmL, hseq, -, hle⟩ := hs.latest_entry hlatest hback
    have hne : mL.seqNum + 1 ≠ 0 := hseq ▸ hpos.ne'
    rw [← hseq, UInt64.lt_add_one_iff_of_ne_zero hne]
    exact LogMeta.seqNum_le_of_le (hle m hm)
  constructor
  · exact insertOperation_wellFiled hs.wellFiled (fun op hop => by rw [hnone] at hop; cases hop)
  · intro h op hop
    rw [hlookup] at hop
    split at hop
    · next hh =>
      cases hop
      exact hh.symm
    · exact hs.hashes h op hop
  · intro key m₁ m₂ hm₁ hm₂ hseq hpos
    rw [mem_logOrEmpty_insertOperation] at hm₁ hm₂
    rcases hm₁ with ⟨rfl, rfl⟩ | hm₁ <;> rcases hm₂ with ⟨hkey, rfl⟩ | hm₂
    · rfl
    · exact absurd hseq (habove hpos m₂ hm₂).ne'
    · subst hkey
      rw [logMeta_seqNum] at hseq
      exact absurd hseq (habove (hseq ▸ hpos) m₁ hm₁).ne
    · exact hs.unique key m₁ m₂ hm₁ hm₂ hseq hpos
  · intro key m hm k hk
    rw [mem_logOrEmpty_insertOperation] at hm
    rcases hm with ⟨rfl, rfl⟩ | hm
    · by_cases hkm : k = header.seqNum
      · exact ⟨_, (mem_logOrEmpty_insertOperation s _ _ _ _ _ _ _).mpr (Or.inl ⟨rfl, rfl⟩), hkm.symm⟩
      · have hlt : k < header.seqNum := lt_of_le_of_ne hk hkm
        obtain ⟨mL, hmL, -, -, hiff⟩ := hsucc (lt_of_le_of_lt UInt64.zero_le hlt)
        obtain ⟨m', hm', hk'⟩ := hs.contiguous _ mL hmL k ((hiff k).mp hlt)
        exact ⟨m', (mem_logOrEmpty_insertOperation s _ _ _ _ _ _ _).mpr (Or.inr hm'), hk'⟩
    · obtain ⟨m', hm', hk'⟩ := hs.contiguous key m hm k hk
      exact ⟨m', (mem_logOrEmpty_insertOperation s _ _ _ _ _ _ _).mpr (Or.inr hm'), hk'⟩
  · intro key m op hm hop hpos
    rw [mem_logOrEmpty_insertOperation] at hm
    rcases hm with ⟨rfl, rfl⟩ | hm
    · -- the new operation: its backlink names the largest old entry
      rw [hlookup, logMeta_hash, if_pos rfl] at hop
      cases hop
      obtain ⟨mL, hmL, hseq, hbacklink, -⟩ := hsucc hpos
      exact ⟨mL, (mem_logOrEmpty_insertOperation s _ _ _ _ _ _ _).mpr (Or.inr hmL), hseq,
        hbacklink⟩
    · rw [hlookup, if_neg (hfresh key m hm)] at hop
      obtain ⟨m', hm', hseq, hbacklink⟩ := hs.backlinks key m op hm hop hpos
      exact ⟨m', (mem_logOrEmpty_insertOperation s _ _ _ _ _ _ _).mpr (Or.inr hm'), hseq,
        hbacklink⟩

/-- One ingest call without a prune flag keeps the logs chained. -/
theorem ingestOperation_chained (hs : s.Chained P) (header : Header E) (body : Option Body)
    (headerBytes : List UInt8) (logId : L) :
    (ingestOperation P s header body headerBytes logId false).2.Chained P := by
  rcases ingestOperation_store P s header body headerBytes logId false with
    heq | ⟨-, hnot, hcheck, heq⟩
  · rw [heq]
    exact hs
  · rw [heq]
    exact insertOperation_chained hs hnot (hcheck rfl)

end Chained

end MemoryStore

section Runs

variable (P : Primitives) [Extensions E]

/-- Log integrity of ingest: from an empty store, whatever operations arrive in whatever
order, without prune flags every log is chained. -/
theorem ingest_logs_chained (calls : List (IngestCall L E)) :
    (ingestRun P (fun _ => false) new calls).2.Chained P :=
  ingestRun_invariant P _ (fun s => s.Chained P)
    (fun _ c hs => ingestOperation_chained hs c.header c.body c.headerBytes c.logId) calls new
    (new_chained P)

/-- Sequence number `0` is not unique: two first operations of one author in one log, with
different timestamps, are both stored. -/
theorem ingest_two_first_operations :
    let first : Header Unit := sampleHeader 0 1 none none
    let second : Header Unit := sampleHeader 0 2 none none
    let calls : List (IngestCall Nat Unit) :=
      [⟨first, none, first.toBytes cborPrimitives, 0⟩, ⟨second, none, second.toBytes cborPrimitives, 0⟩]
    (ingestRun cborPrimitives (fun _ => false) new calls).1 =
        [.ok (.complete ⟨first.hash cborPrimitives, first, none⟩),
          .ok (.complete ⟨second.hash cborPrimitives, second, none⟩)] ∧
      ((ingestRun cborPrimitives (fun _ => false) new calls).2.logOrEmpty
        (first.publicKey, 0)).toList.map LogMeta.seqNum = [0, 0] := by
  decide +kernel

end Runs

/-! ## Pruning -/

section Pruning

variable (P : Primitives) [Extensions E]

/-- A pruned first operation comes back: after the prune point at sequence number `1` is
ingested and completes, delivering the first operation again stores it below the prune
point. -/
theorem ingest_genesis_after_prune :
    let first : Header PruneFlag := sampleHeader 0 0 none (some ⟨false⟩)
    let prunePoint : Header PruneFlag :=
      sampleHeader 1 1 (some (first.hash cborPrimitives)) (some ⟨true⟩)
    let calls : List (IngestCall Nat PruneFlag) :=
      [⟨first, none, first.toBytes cborPrimitives, 0⟩,
        ⟨prunePoint, none, prunePoint.toBytes cborPrimitives, 0⟩,
        ⟨first, none, first.toBytes cborPrimitives, 0⟩]
    (ingestRun cborPrimitives PruneFlag.ofHeader new calls).1 =
        [.ok (.complete ⟨first.hash cborPrimitives, first, none⟩),
          .ok (.complete ⟨prunePoint.hash cborPrimitives, prunePoint, none⟩),
          .ok (.complete ⟨first.hash cborPrimitives, first, none⟩)] ∧
      PruneFlag.ofHeader prunePoint = true ∧
      ((ingestRun cborPrimitives PruneFlag.ofHeader new calls).2.logOrEmpty
        (first.publicKey, 0)).toList.map LogMeta.seqNum = [0, 1] := by
  decide +kernel

end Pruning

/-! ## The `Retry` count

`ingest_operation` answers a gap with `Retry(.., given - expected)`, `expected` being
`latest.seq_num + 1`, both computed in `u64`. The count is the gap only when the operation
is above the latest one and the latest is below `u64::MAX`; an
operation at or below the latest one, which pruning lets in again, gets a wrapped count. -/

section Retry

variable (P : Primitives) [Extensions E]

/-- The count wraps. The log `0, 1, 2` is pruned below `2` and `1` comes again: it is no
longer stored, passes to the log check, and gets `1 - 3`, which is `2^64 - 2`. A pruning
operation at `u64::MAX` is stored without a log check; the next operation of its log, `5`,
is compared against `u64::MAX + 1`, which is `0`, and gets the count `5`. -/
theorem ingest_retry_wraps :
    let first : Header PruneFlag := sampleHeader 0 0 none (some ⟨false⟩)
    let second : Header PruneFlag :=
      sampleHeader 1 0 (some (first.hash cborPrimitives)) (some ⟨false⟩)
    let third : Header PruneFlag :=
      sampleHeader 2 0 (some (second.hash cborPrimitives)) (some ⟨true⟩)
    let last : Header PruneFlag :=
      sampleHeader 18446744073709551615 0 (some (first.hash cborPrimitives)) (some ⟨true⟩)
    let fifth : Header PruneFlag :=
      sampleHeader 5 0 (some (first.hash cborPrimitives)) (some ⟨false⟩)
    let pruned : List (IngestCall Nat PruneFlag) :=
      [⟨first, none, first.toBytes cborPrimitives, 0⟩,
        ⟨second, none, second.toBytes cborPrimitives, 0⟩,
        ⟨third, none, third.toBytes cborPrimitives, 0⟩,
        ⟨second, none, second.toBytes cborPrimitives, 0⟩]
    let atMax : List (IngestCall Nat PruneFlag) :=
      [⟨last, none, last.toBytes cborPrimitives, 0⟩, ⟨fifth, none, fifth.toBytes cborPrimitives, 0⟩]
    (ingestRun cborPrimitives PruneFlag.ofHeader new pruned).1 =
        [.ok (.complete ⟨first.hash cborPrimitives, first, none⟩),
          .ok (.complete ⟨second.hash cborPrimitives, second, none⟩),
          .ok (.complete ⟨third.hash cborPrimitives, third, none⟩),
          .ok (.retry second none (second.toBytes cborPrimitives) 18446744073709551614)] ∧
      (ingestRun cborPrimitives PruneFlag.ofHeader new atMax).1 =
        [.ok (.complete ⟨last.hash cborPrimitives, last, none⟩),
          .ok (.retry fifth none (fifth.toBytes cborPrimitives) 5)] ∧
      last.seqNum + 1 = 0 := by
  decide +kernel

end Retry

end P2panda
