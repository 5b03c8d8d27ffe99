import P2panda.Store.Memory
import P2panda.Lib.Run

/- The representation invariant of `MemoryStore`, over whole runs of store calls.

   `get_log`, `get_raw_log` and `delete_payloads` `expect` every hash of a log entry to be
   a key of `operations`; `get_log_heights` `expect`s every log in the map to have an
   entry. The invariant has two layers:

   * `WellFiled`: every log entry names a stored operation whose header has the entry's
     sequence number and timestamp and which is filed under that log, and every stored
     operation has its entry in its log. It rules out the first three panics
     (`getLog_ok`, `getRawLog_ok`, `deletePayloads_ok`).
   * `Consistent`: `WellFiled`, and no log in the map is empty. It rules out the fourth
     (`getLogHeights_ok`).

   Step lemmas: every writing method keeps `WellFiled`, `insert_operation` when the
   operation already stored under the hash, if any, is filed under the same log with the
   same entry (`InsertAgrees`); every writing method but `delete_operations` keeps
   `Consistent`. The run lemmas carry both over sequences of calls (`StoreCall`) that
   never insert one hash for two different headers or log ids (`run_wellFiled`,
   `run_consistent`).

   So no read of a store a run made panics (`run_reads_ok`), but `delete_operations`,
   which leaves an emptied log in the map: `get_log_heights` then panics
   (`getLogHeights_after_deleteOperations`). -/
namespace P2panda

namespace MemoryStore

variable {L E : Type} [DecidableEq L]

/-- Every log entry names a stored operation filed under that log with the entry's
sequence number and timestamp, and every stored operation has its entry in its log. -/
structure WellFiled (s : MemoryStore L E) : Prop where
  entries_stored : ∀ key m, m ∈ s.logOrEmpty key →
    ∃ op, s.operations.lookup m.hash = some op ∧ m = logMeta op.header m.hash ∧
      key = (op.header.publicKey, op.logId)
  stored_entries : ∀ hash op, s.operations.lookup hash = some op →
    logMeta op.header hash ∈ s.logOrEmpty (op.header.publicKey, op.logId)

/-- `WellFiled`, and every log in the map has an entry. -/
structure Consistent (s : MemoryStore L E) : Prop extends s.WellFiled where
  logs_nonempty : ∀ key log, s.logs.lookup key = some log → ∃ m, m ∈ log

/-- The operation stored under `hash`, if any, is filed under `logId` of the header's
author with the header's entry. -/
def InsertAgrees (s : MemoryStore L E) (hash : Hash) (header : Header E) (logId : L) : Prop :=
  ∀ op, s.operations.lookup hash = some op →
    (op.header.publicKey, op.logId) = (header.publicKey, logId) ∧
      logMeta op.header hash = logMeta header hash

theorem new_consistent : (new : MemoryStore L E).Consistent where
  entries_stored := by simp [new, logOrEmpty, AList.lookup_empty]
  stored_entries := by simp [new, AList.lookup_empty]
  logs_nonempty := by simp [new, AList.lookup_empty]

/-- The operation stored under an entry's hash is the one the entry was made for. -/
theorem WellFiled.entry_eq {s : MemoryStore L E} (hs : s.WellFiled) {key : PublicKey × L}
    {m : LogMeta} (hm : m ∈ s.logOrEmpty key) {op : StoredOperation L E}
    (hop : s.operations.lookup m.hash = some op) :
    m = logMeta op.header m.hash ∧ key = (op.header.publicKey, op.logId) := by
  obtain ⟨op', hop', hm', hkey⟩ := hs.entries_stored key m hm
  rw [hop] at hop'
  cases hop'
  exact ⟨hm', hkey⟩

/-- A stored operation's hash marks its own entry, in its own log, and no other. -/
theorem WellFiled.exists_entry_iff {s : MemoryStore L E} (hs : s.WellFiled) {hash : Hash}
    {op : StoredOperation L E} (hop : s.operations.lookup hash = some op) (key : PublicKey × L)
    (q : LogMeta → Prop) :
    (∃ m ∈ s.logOrEmpty key, q m ∧ m.hash = hash) ↔
      key = (op.header.publicKey, op.logId) ∧ q (logMeta op.header hash) := by
  constructor
  · rintro ⟨m, hm, hq, rfl⟩
    obtain ⟨hmeta, hkey⟩ := hs.entry_eq hm hop
    refine ⟨hkey, ?_⟩
    rw [← hmeta]
    exact hq
  · rintro ⟨rfl, hq⟩
    exact ⟨_, hs.stored_entries hash op hop, hq, rfl⟩

/-! ## Step lemmas -/

section Steps

variable {s : MemoryStore L E}

theorem insertOperation_wellFiled {hash : Hash} {header : Header E} {body : Option Body}
    {headerBytes : List UInt8} {logId : L} (hs : s.WellFiled)
    (hagree : s.InsertAgrees hash header logId) :
    (s.insertOperation hash header body headerBytes logId).2.WellFiled := by
  constructor
  · intro key m hm
    rw [mem_logOrEmpty_insertOperation] at hm
    rw [insertOperation_operations]
    rcases hm with ⟨rfl, rfl⟩ | hm
    · -- the new entry: stored now, unless it was there and so was its operation
      by_cases hmem : logMeta header hash ∈ s.logOrEmpty (header.publicKey, logId)
      · obtain ⟨op, hop, hm, hkey⟩ := hs.entries_stored _ _ hmem
        simp only [hmem, not_true_eq_false, false_and, if_false]
        exact ⟨op, hop, hm, hkey⟩
      · have hcond : logMeta header hash ∉ s.logOrEmpty (header.publicKey, logId) ∧
            (logMeta header hash).hash = hash := ⟨hmem, rfl⟩
        rw [if_pos hcond]
        exact ⟨_, rfl, rfl, rfl⟩
    · obtain ⟨op, hop, hmop, hkey⟩ := hs.entries_stored key m hm
      by_cases hh : m.hash = hash
      · -- an old entry with the inserted hash is the inserted entry, already there
        obtain ⟨hkey', hmeta⟩ := hagree op (hh ▸ hop)
        have hold : logMeta header hash ∈ s.logOrEmpty (header.publicKey, logId) := by
          rw [← hkey', ← hmeta, ← hkey, ← hh, ← hmop]
          exact hm
        simp only [hold, not_true_eq_false, false_and, if_false]
        exact ⟨op, hop, hmop, hkey⟩
      · simp only [hh, and_false, if_false]
        exact ⟨op, hop, hmop, hkey⟩
  · intro h op hop
    rw [insertOperation_operations] at hop
    rw [mem_logOrEmpty_insertOperation]
    split at hop
    · next hnew =>
      cases hop
      exact Or.inl ⟨rfl, by rw [hnew.2]⟩
    · exact Or.inr (hs.stored_entries h op hop)

theorem deleteOperation_wellFiled {hash : Hash} (hs : s.WellFiled) :
    (s.deleteOperation hash).2.WellFiled := by
  cases hop0 : s.operations.lookup hash with
  | none =>
    rw [deleteOperation_of_lookup_none s hash hop0]
    exact hs
  | some op0 =>
    constructor
    · intro key m hm
      rw [mem_logOrEmpty_deleteOperation s hash op0 hop0] at hm
      obtain ⟨hne, hm⟩ := hm
      obtain ⟨op, hop, hmop, hkey⟩ := hs.entries_stored key m hm
      rw [deleteOperation_operations]
      by_cases hh : m.hash = hash
      · -- the deleted operation's entry is the one removed from every log
        rw [hh, hop0] at hop
        cases hop
        exact absurd (hh ▸ hmop) hne
      · simp only [hh, if_false]
        exact ⟨op, hop, hmop, hkey⟩
    · intro h op hop
      rw [deleteOperation_operations] at hop
      split at hop
      · cases hop
      · next hh =>
        rw [mem_logOrEmpty_deleteOperation s hash op0 hop0]
        refine ⟨fun heq => hh ?_, hs.stored_entries h op hop⟩
        exact congrArg LogMeta.hash heq

/-- Changing stored operations without changing which hashes are stored, nor any stored
header or log id, keeps the store well filed: what `delete_payload(s)` do. -/
theorem WellFiled.of_filing {ops : AList fun _ : Hash => StoredOperation L E} (hs : s.WellFiled)
    (hops : ∀ h, (ops.lookup h).map (fun op => (op.header, op.logId)) =
      (s.operations.lookup h).map fun op => (op.header, op.logId)) :
    ({ s with operations := ops } : MemoryStore L E).WellFiled := by
  constructor
  · intro key m hm
    obtain ⟨op, hop, hmop, hkey⟩ := hs.entries_stored key m hm
    have hm' := hops m.hash
    rw [hop] at hm'
    obtain ⟨op', hop', hfiling⟩ := Option.map_eq_some_iff.mp hm'
    simp only [Prod.mk.injEq] at hfiling
    refine ⟨op', hop', ?_, ?_⟩
    · rw [hfiling.1]; exact hmop
    · rw [hfiling.1, hfiling.2]; exact hkey
  · intro h op' hop'
    have hm' := hops h
    rw [hop'] at hm'
    obtain ⟨op, hop, hfiling⟩ := Option.map_eq_some_iff.mp hm'.symm
    simp only [Prod.mk.injEq] at hfiling
    rw [← hfiling.1, ← hfiling.2]
    exact hs.stored_entries h op hop

theorem deletePayload_wellFiled {hash : Hash} (hs : s.WellFiled) :
    (s.deletePayload hash).2.WellFiled := by
  have hstore : (s.deletePayload hash).2 =
      { s with operations := (s.deletePayload hash).2.operations } := by
    have hlogs := deletePayload_logs s hash
    cases hd : (s.deletePayload hash).2
    rw [hd] at hlogs
    simp only at hlogs
    rw [hlogs]
  rw [hstore]
  apply hs.of_filing
  intro h
  rw [deletePayload_operations]
  split
  · next hh => subst hh; cases s.operations.lookup h <;> rfl
  · rfl

/-- A `delete_payloads` that returns replaced `operations` by the result of `clearPayloads`. -/
theorem deletePayloads_ok_inv {publicKey : PublicKey} {logId : L} {fromSeqNum toSeqNum : UInt64}
    {r : Bool × MemoryStore L E} (h : s.deletePayloads publicKey logId fromSeqNum toSeqNum = .ok r) :
    ∃ hashes ops, clearPayloads hashes s.operations = .ok ops ∧ r.2 = { s with operations := ops } := by
  rw [deletePayloads_eq] at h
  simp only at h
  cases hc : clearPayloads (((s.logs.lookup (publicKey, logId)).map
      (hashesBetween · fromSeqNum toSeqNum)).getD []) s.operations with
  | error e => rw [hc] at h; cases h
  | ok ops =>
    rw [hc] at h
    cases h
    exact ⟨_, ops, hc, rfl⟩

theorem clearPayloads_filing {hashes : List Hash} {ops : AList fun _ : Hash => StoredOperation L E}
    (h : clearPayloads hashes s.operations = .ok ops) (k : Hash) :
    (ops.lookup k).map (fun op => (op.header, op.logId)) =
      (s.operations.lookup k).map fun op => (op.header, op.logId) := by
  rw [clearPayloads_lookup h]
  cases s.operations.lookup k with
  | none => rfl
  | some op => by_cases hk : k ∈ hashes <;> simp [hk]

theorem deletePayloads_wellFiled {publicKey : PublicKey} {logId : L} {fromSeqNum toSeqNum : UInt64}
    {r : Bool × MemoryStore L E} (hs : s.WellFiled)
    (h : s.deletePayloads publicKey logId fromSeqNum toSeqNum = .ok r) : r.2.WellFiled := by
  obtain ⟨hashes, ops, hc, hr⟩ := deletePayloads_ok_inv h
  rw [hr]
  exact hs.of_filing (clearPayloads_filing hc)

theorem deleteOperations_wellFiled {publicKey : PublicKey} {logId : L} {before : UInt64}
    (hs : s.WellFiled) : (s.deleteOperations publicKey logId before).2.WellFiled := by
  constructor
  · intro key m hm
    rw [mem_logOrEmpty_deleteOperations] at hm
    obtain ⟨hm, hkept⟩ := hm
    obtain ⟨op, hop, hmop, hkey⟩ := hs.entries_stored key m hm
    rw [deleteOperations_operations, hop]
    refine ⟨op, ?_, hmop, hkey⟩
    -- no deleted entry has this hash: it would be this entry, which is kept
    have hnot : m.hash ∉ ((s.logs.lookup (publicKey, logId)).map (hashesBefore · before)).getD [] := by
      rw [mem_hashesBefore]
      rintro ⟨m', hm', hlt, hh⟩
      have ⟨hm'op, hkey'⟩ := hs.entry_eq hm' (hh ▸ hop)
      rw [hh, ← hmop] at hm'op
      subst hm'op
      exact hkept (hkey.trans hkey'.symm) hlt
    simp [Option.filter_some, hnot]
  · intro h op hop
    rw [deleteOperations_operations] at hop
    obtain ⟨hop, hkept⟩ := Option.filter_eq_some_iff.mp hop
    simp only [decide_eq_true_eq] at hkept
    rw [mem_logOrEmpty_deleteOperations]
    refine ⟨hs.stored_entries h op hop, fun hkey hlt => hkept ?_⟩
    -- an operation below the bound in this log has its hash deleted
    rw [mem_hashesBefore]
    exact ⟨logMeta op.header h, hkey ▸ hs.stored_entries h op hop, hlt, rfl⟩

/-! ### Nonempty logs -/

theorem insertOperation_consistent {hash : Hash} {header : Header E} {body : Option Body}
    {headerBytes : List UInt8} {logId : L} (hs : s.Consistent)
    (hagree : s.InsertAgrees hash header logId) :
    (s.insertOperation hash header body headerBytes logId).2.Consistent where
  toWellFiled := insertOperation_wellFiled hs.toWellFiled hagree
  logs_nonempty key log hlog := by
    rw [insertOperation_logs] at hlog
    split at hlog
    · cases hlog
      exact ⟨_, SortedSet.mem_insert.mpr (Or.inl rfl)⟩
    · exact hs.logs_nonempty key log hlog

theorem deleteOperation_consistent {hash : Hash} (hs : s.Consistent) :
    (s.deleteOperation hash).2.Consistent where
  toWellFiled := deleteOperation_wellFiled hs.toWellFiled
  logs_nonempty key log hlog := by
    cases hop : s.operations.lookup hash with
    | none =>
      rw [deleteOperation_of_lookup_none s hash hop] at hlog
      exact hs.logs_nonempty key log hlog
    | some op =>
      -- the logs left empty are dropped
      rw [deleteOperation_logs s hash op hop] at hlog
      obtain ⟨-, hne⟩ := Option.filter_eq_some_iff.mp hlog
      by_contra hnone
      have hempty : log.isEmpty = true := SortedSet.isEmpty_iff.mpr fun m hm => hnone ⟨m, hm⟩
      simp [hempty] at hne

theorem deletePayload_consistent {hash : Hash} (hs : s.Consistent) :
    (s.deletePayload hash).2.Consistent where
  toWellFiled := deletePayload_wellFiled hs.toWellFiled
  logs_nonempty key log hlog := by
    rw [deletePayload_logs] at hlog
    exact hs.logs_nonempty key log hlog

theorem deletePayloads_consistent {publicKey : PublicKey} {logId : L}
    {fromSeqNum toSeqNum : UInt64} {r : Bool × MemoryStore L E} (hs : s.Consistent)
    (h : s.deletePayloads publicKey logId fromSeqNum toSeqNum = .ok r) : r.2.Consistent where
  toWellFiled := deletePayloads_wellFiled hs.toWellFiled h
  logs_nonempty key log hlog := by
    obtain ⟨hashes, ops, -, hr⟩ := deletePayloads_ok_inv h
    rw [hr] at hlog
    exact hs.logs_nonempty key log hlog

end Steps

/-! ## No panics -/

section Reads

variable {s : MemoryStore L E}

theorem expectOperation_of_lookup {hash : Hash} {op : StoredOperation L E} (msg : String)
    (h : s.operations.lookup hash = some op) : s.expectOperation hash msg = .ok op := by
  simp [expectOperation, h]

/-- Every entry a log reads has its operation stored. -/
theorem expectOperation_ok (hs : s.WellFiled) {key : PublicKey × L} {log : SortedSet LogMeta}
    (hlog : s.logs.lookup key = some log) {m : LogMeta} (hm : m ∈ log) (msg : String) :
    ∃ op, s.expectOperation m.hash msg = .ok op := by
  have hm : m ∈ s.logOrEmpty key := (mem_logOrEmpty s).mpr ⟨log, hlog, hm⟩
  obtain ⟨op, hop, -⟩ := hs.entries_stored key m hm
  exact ⟨op, expectOperation_of_lookup msg hop⟩

theorem getLog_ok (hs : s.WellFiled) (publicKey : PublicKey) (logId : L)
    (fromSeqNum : Option UInt64) : ∃ r, s.getLog publicKey logId fromSeqNum = .ok r := by
  unfold getLog
  split
  · next log hlog =>
    have hall : ∀ m ∈ log.toList.filter (fromFilter fromSeqNum), ∃ r,
        ((fun op => (op.header, op.body)) <$> s.expectOperation m.hash "exists in hash map") =
          Except.ok r := by
      intro m hm
      obtain ⟨op, hop⟩ := expectOperation_ok hs hlog (List.mem_filter.mp hm).1 _
      exact ⟨_, by rw [hop]; rfl⟩
    obtain ⟨ops, hops⟩ := Except.mapM_ok_of_forall hall
    exact ⟨some ops, by rw [hops]; rfl⟩
  · exact ⟨none, rfl⟩

theorem getRawLog_ok (hs : s.WellFiled) (publicKey : PublicKey) (logId : L)
    (fromSeqNum : Option UInt64) : ∃ r, s.getRawLog publicKey logId fromSeqNum = .ok r := by
  unfold getRawLog
  split
  · next log hlog =>
    have hall : ∀ m ∈ log.toList.filter (fromFilter fromSeqNum), ∃ r,
        ((fun op => (op.headerBytes, op.body.map Body.bytes)) <$>
          s.expectOperation m.hash "exists in hash map") = Except.ok r := by
      intro m hm
      obtain ⟨op, hop⟩ := expectOperation_ok hs hlog (List.mem_filter.mp hm).1 _
      exact ⟨_, by rw [hop]; rfl⟩
    obtain ⟨ops, hops⟩ := Except.mapM_ok_of_forall hall
    exact ⟨some ops, by rw [hops]; rfl⟩
  · exact ⟨none, rfl⟩

theorem deletePayloads_ok (hs : s.WellFiled) (publicKey : PublicKey) (logId : L)
    (fromSeqNum toSeqNum : UInt64) :
    ∃ r, s.deletePayloads publicKey logId fromSeqNum toSeqNum = .ok r := by
  -- every hash to clear is the hash of an entry of the log, hence stored
  have hstored : ∀ h ∈ ((s.logs.lookup (publicKey, logId)).map
      (hashesBetween · fromSeqNum toSeqNum)).getD [], h ∈ s.operations := by
    intro h hh
    obtain ⟨m, hm, rfl⟩ := mem_hashesBetween s hh
    obtain ⟨op, hop, -⟩ := hs.entries_stored _ m hm
    exact AList.lookup_isSome.mp (by rw [hop]; rfl)
  obtain ⟨ops, hops⟩ := clearPayloads_ok _ _ hstored
  rw [deletePayloads_eq]
  exact ⟨_, by simp only; rw [hops]; rfl⟩

theorem getLogHeights_ok (hs : s.Consistent) (logId : L) :
    ∃ r, s.getLogHeights logId = .ok r := by
  unfold getLogHeights
  apply Except.mapM_ok_of_forall
  intro e he
  -- each log of the map has an entry, so a largest one
  have hlog : s.logs.lookup e.1 = some e.2 :=
    AList.mem_lookup_iff.mpr (List.mem_filter.mp he).1
  obtain ⟨m, hm⟩ := hs.logs_nonempty e.1 e.2 hlog
  cases hmax : e.2.max? with
  | none => exact absurd hm (SortedSet.max?_eq_none_iff.mp hmax m)
  | some m' => exact ⟨_, rfl⟩

end Reads

/-! ## Runs of store calls -/

/-- A writing call of `OperationStore` or `LogStore`. `insert_operation` is passed the
header's own hash, as `ingest_operation` passes it. -/
inductive StoreCall (L E : Type) where
  | insertOperation (header : Header E) (body : Option Body) (headerBytes : List UInt8)
      (logId : L)
  | deleteOperation (hash : Hash)
  | deletePayload (hash : Hash)
  | deleteOperations (publicKey : PublicKey) (logId : L) (before : UInt64)
  | deletePayloads (publicKey : PublicKey) (logId : L) (fromSeqNum toSeqNum : UInt64)

section Runs

variable (P : Primitives) [Extensions E]

/-- One call on the store; only `delete_payloads` can panic. -/
def call (s : MemoryStore L E) : StoreCall L E → Except String (MemoryStore L E)
  | .insertOperation header body headerBytes logId =>
    .ok (s.insertOperation (header.hash P) header body headerBytes logId).2
  | .deleteOperation hash => .ok (s.deleteOperation hash).2
  | .deletePayload hash => .ok (s.deletePayload hash).2
  | .deleteOperations publicKey logId before => .ok (s.deleteOperations publicKey logId before).2
  | .deletePayloads publicKey logId fromSeqNum toSeqNum =>
    Prod.snd <$> s.deletePayloads publicKey logId fromSeqNum toSeqNum

/-- The calls one after another. -/
def run (s : MemoryStore L E) (calls : List (StoreCall L E)) : Except String (MemoryStore L E) :=
  calls.foldlM (call P) s

/-- Two insertions of one hash are of one header under one log id. -/
def StoreCall.Agree : StoreCall L E → StoreCall L E → Prop
  | .insertOperation h₁ _ _ l₁, .insertOperation h₂ _ _ l₂ =>
    h₁.hash P = h₂.hash P → h₁ = h₂ ∧ l₁ = l₂
  | _, _ => True

/-- Every stored operation is stored under its header's hash and was inserted by one of
`calls`. -/
def StoredFrom (calls : List (StoreCall L E)) (s : MemoryStore L E) : Prop :=
  ∀ hash op, s.operations.lookup hash = some op →
    op.header.hash P = hash ∧
      ∃ body headerBytes, StoreCall.insertOperation op.header body headerBytes op.logId ∈ calls

variable {P}

theorem storedFrom_new (calls : List (StoreCall L E)) : StoredFrom P calls new := by
  simp [StoredFrom, new, AList.lookup_empty]

theorem StoredFrom.mono {calls calls' : List (StoreCall L E)} {s : MemoryStore L E}
    (hs : StoredFrom P calls s) (hsub : calls ⊆ calls') : StoredFrom P calls' s := by
  intro hash op hop
  obtain ⟨hhash, body, headerBytes, hc⟩ := hs hash op hop
  exact ⟨hhash, body, headerBytes, hsub hc⟩

/-- Insertions that agree pairwise agree with every store they reach. -/
theorem StoredFrom.insertAgrees {calls : List (StoreCall L E)} {s : MemoryStore L E}
    (hs : StoredFrom P calls s) (hagree : ∀ c₁ ∈ calls, ∀ c₂ ∈ calls, StoreCall.Agree P c₁ c₂)
    {header : Header E} {body : Option Body} {headerBytes : List UInt8} {logId : L}
    (hc : StoreCall.insertOperation header body headerBytes logId ∈ calls) :
    s.InsertAgrees (header.hash P) header logId := by
  intro op hop
  obtain ⟨hhash, body', headerBytes', hc'⟩ := hs _ op hop
  obtain ⟨rfl, rfl⟩ := hagree _ hc' _ hc hhash
  exact ⟨rfl, rfl⟩

theorem call_storedFrom {calls : List (StoreCall L E)} {s s' : MemoryStore L E}
    {c : StoreCall L E} (hc : c ∈ calls) (hs : StoredFrom P calls s)
    (hcall : s.call P c = .ok s') : StoredFrom P calls s' := by
  intro h op hop
  cases c with
  | insertOperation header body headerBytes logId =>
    cases hcall
    rw [insertOperation_operations] at hop
    split at hop
    · next hnew =>
      cases hop
      exact ⟨hnew.2.symm, body, headerBytes, hc⟩
    · exact hs h op hop
  | deleteOperation hash =>
    cases hcall
    rw [deleteOperation_operations] at hop
    split at hop
    · cases hop
    · exact hs h op hop
  | deletePayload hash =>
    cases hcall
    rw [deletePayload_operations] at hop
    split at hop
    · next hh =>
      subst hh
      obtain ⟨op', hop', rfl⟩ := Option.map_eq_some_iff.mp hop
      exact hs h op' hop'
    · exact hs h op hop
  | deleteOperations publicKey logId before =>
    cases hcall
    rw [deleteOperations_operations] at hop
    exact hs h op (Option.filter_eq_some_iff.mp hop).1
  | deletePayloads publicKey logId fromSeqNum toSeqNum =>
    simp only [call] at hcall
    cases hd : s.deletePayloads publicKey logId fromSeqNum toSeqNum with
    | error e => rw [hd] at hcall; cases hcall
    | ok r =>
      rw [hd] at hcall
      cases hcall
      obtain ⟨hashes, ops, hclear, hr⟩ := deletePayloads_ok_inv hd
      rw [hr] at hop
      have hfiling := clearPayloads_filing hclear h
      rw [hop] at hfiling
      obtain ⟨op', hop', hsame⟩ := Option.map_eq_some_iff.mp hfiling.symm
      simp only [Prod.mk.injEq] at hsame
      rw [← hsame.1, ← hsame.2]
      exact hs h op' hop'

/-- Every call keeps a well-filed store well filed, given agreeing insertions. -/
theorem call_wellFiled {calls : List (StoreCall L E)} {s s' : MemoryStore L E}
    {c : StoreCall L E} (hagree : ∀ c₁ ∈ calls, ∀ c₂ ∈ calls, StoreCall.Agree P c₁ c₂)
    (hc : c ∈ calls) (hs : s.WellFiled ∧ StoredFrom P calls s) (hcall : s.call P c = .ok s') :
    s'.WellFiled := by
  cases c with
  | insertOperation header body headerBytes logId =>
    cases hcall
    exact insertOperation_wellFiled hs.1 (hs.2.insertAgrees hagree hc)
  | deleteOperation hash =>
    cases hcall
    exact deleteOperation_wellFiled hs.1
  | deletePayload hash =>
    cases hcall
    exact deletePayload_wellFiled hs.1
  | deleteOperations publicKey logId before =>
    cases hcall
    exact deleteOperations_wellFiled hs.1
  | deletePayloads publicKey logId fromSeqNum toSeqNum =>
    simp only [call] at hcall
    cases hd : s.deletePayloads publicKey logId fromSeqNum toSeqNum with
    | error e => rw [hd] at hcall; cases hcall
    | ok r =>
      rw [hd] at hcall
      cases hcall
      exact deletePayloads_wellFiled hs.1 hd

/-- Every call but `delete_operations` keeps a consistent store consistent, given agreeing
insertions. -/
theorem call_consistent {calls : List (StoreCall L E)} {s s' : MemoryStore L E}
    {c : StoreCall L E} (hagree : ∀ c₁ ∈ calls, ∀ c₂ ∈ calls, StoreCall.Agree P c₁ c₂)
    (hc : c ∈ calls) (hprune : ∀ publicKey logId before, c ≠ .deleteOperations publicKey logId before)
    (hs : s.Consistent ∧ StoredFrom P calls s) (hcall : s.call P c = .ok s') :
    s'.Consistent := by
  cases c with
  | insertOperation header body headerBytes logId =>
    cases hcall
    exact insertOperation_consistent hs.1 (hs.2.insertAgrees hagree hc)
  | deleteOperation hash =>
    cases hcall
    exact deleteOperation_consistent hs.1
  | deletePayload hash =>
    cases hcall
    exact deletePayload_consistent hs.1
  | deleteOperations publicKey logId before => exact absurd rfl (hprune publicKey logId before)
  | deletePayloads publicKey logId fromSeqNum toSeqNum =>
    simp only [call] at hcall
    cases hd : s.deletePayloads publicKey logId fromSeqNum toSeqNum with
    | error e => rw [hd] at hcall; cases hcall
    | ok r =>
      rw [hd] at hcall
      cases hcall
      exact deletePayloads_consistent hs.1 hd

/-- From a new store, any run whose insertions agree ends well filed: `get_log`,
`get_raw_log` and `delete_payloads` cannot panic there. -/
theorem run_wellFiled (calls : List (StoreCall L E))
    (hagree : ∀ c₁ ∈ calls, ∀ c₂ ∈ calls, StoreCall.Agree P c₁ c₂) {s : MemoryStore L E}
    (hrun : run P new calls = .ok s) : s.WellFiled :=
  (foldlM_invariant (call P) (fun s => s.WellFiled ∧ StoredFrom P calls s) calls
    (fun _ _ _ hc hs hcall => ⟨call_wellFiled hagree hc hs hcall, call_storedFrom hc hs.2 hcall⟩)
    calls new s (fun _ h => h) ⟨new_consistent.toWellFiled, storedFrom_new calls⟩ hrun).1

/-- An operation is inserted, its payload and then the payloads of its log are deleted, and
it is delivered again. -/
def redeliveryCalls : List (StoreCall Nat Unit) :=
  let header : Header Unit := sampleHeader 0 0 none none
  [.insertOperation header none (header.toBytes cborPrimitives) 0,
    .deletePayload (header.hash cborPrimitives),
    .deletePayloads header.publicKey 0 0 1,
    .insertOperation header none (header.toBytes cborPrimitives) 0]

theorem redeliveryCalls_agree :
    ∀ c₁ ∈ redeliveryCalls, ∀ c₂ ∈ redeliveryCalls, StoreCall.Agree cborPrimitives c₁ c₂ := by
  simp [redeliveryCalls, StoreCall.Agree]

theorem run_wellFiled_redelivery :
    (∀ c₁ ∈ redeliveryCalls, ∀ c₂ ∈ redeliveryCalls, StoreCall.Agree cborPrimitives c₁ c₂) ∧
      ∃ s, run cborPrimitives new redeliveryCalls = .ok s ∧ s.WellFiled := by
  obtain ⟨s, hrun⟩ := Except.exists_ok_of_toBool
    (x := run cborPrimitives (new : MemoryStore Nat Unit) redeliveryCalls) (by decide +kernel)
  exact ⟨redeliveryCalls_agree, s, hrun, run_wellFiled _ redeliveryCalls_agree hrun⟩

/-- From a new store, any run whose insertions agree and that calls no
`delete_operations` ends consistent: `get_log_heights` cannot panic there either. -/
theorem run_consistent (calls : List (StoreCall L E))
    (hagree : ∀ c₁ ∈ calls, ∀ c₂ ∈ calls, StoreCall.Agree P c₁ c₂)
    (hprune : ∀ c ∈ calls, ∀ publicKey logId before, c ≠ .deleteOperations publicKey logId before)
    {s : MemoryStore L E} (hrun : run P new calls = .ok s) : s.Consistent :=
  (foldlM_invariant (call P) (fun s => s.Consistent ∧ StoredFrom P calls s) calls
    (fun _ _ _ hc hs hcall =>
      ⟨call_consistent hagree hc (hprune _ hc) hs hcall, call_storedFrom hc hs.2 hcall⟩)
    calls new s (fun _ h => h) ⟨new_consistent, storedFrom_new calls⟩ hrun).1

theorem run_consistent_redelivery :
    (∀ c₁ ∈ redeliveryCalls, ∀ c₂ ∈ redeliveryCalls, StoreCall.Agree cborPrimitives c₁ c₂) ∧
      (∀ c ∈ redeliveryCalls, ∀ publicKey logId before,
        c ≠ .deleteOperations publicKey logId before) ∧
      ∃ s, run cborPrimitives new redeliveryCalls = .ok s ∧ s.Consistent := by
  have hprune : ∀ c ∈ redeliveryCalls, ∀ publicKey logId before,
      c ≠ .deleteOperations publicKey logId before := by
    simp [redeliveryCalls]
  obtain ⟨s, hrun⟩ := Except.exists_ok_of_toBool
    (x := run cborPrimitives (new : MemoryStore Nat Unit) redeliveryCalls) (by decide +kernel)
  exact ⟨redeliveryCalls_agree, hprune, s, hrun,
    run_consistent _ redeliveryCalls_agree hprune hrun⟩

/-- No read of a store that a run of agreeing calls made panics: `get_log`, `get_raw_log`
and `delete_payloads` succeed on every log, and, when the run calls no
`delete_operations`, so does `get_log_heights` on every log id. -/
theorem run_reads_ok (calls : List (StoreCall L E))
    (hagree : ∀ c₁ ∈ calls, ∀ c₂ ∈ calls, StoreCall.Agree P c₁ c₂) {s : MemoryStore L E}
    (hrun : run P new calls = .ok s) :
    (∀ publicKey logId fromSeqNum, ∃ r, s.getLog publicKey logId fromSeqNum = .ok r) ∧
      (∀ publicKey logId fromSeqNum, ∃ r, s.getRawLog publicKey logId fromSeqNum = .ok r) ∧
      (∀ publicKey logId fromSeqNum toSeqNum,
        ∃ r, s.deletePayloads publicKey logId fromSeqNum toSeqNum = .ok r) ∧
      ((∀ c ∈ calls, ∀ publicKey logId before, c ≠ .deleteOperations publicKey logId before) →
        ∀ logId, ∃ r, s.getLogHeights logId = .ok r) := by
  -- the reads that follow the entries need the filing, `get_log_heights` a non-empty log
  have hfiled := run_wellFiled calls hagree hrun
  exact ⟨getLog_ok hfiled, getRawLog_ok hfiled, deletePayloads_ok hfiled,
    fun hprune => getLogHeights_ok (run_consistent calls hagree hprune hrun)⟩

theorem run_reads_ok_redelivery :
    (∀ c₁ ∈ redeliveryCalls, ∀ c₂ ∈ redeliveryCalls, StoreCall.Agree cborPrimitives c₁ c₂) ∧
      ∃ s, run cborPrimitives new redeliveryCalls = .ok s ∧
        (∀ publicKey logId fromSeqNum, ∃ r, s.getLog publicKey logId fromSeqNum = .ok r) ∧
        (∀ publicKey logId fromSeqNum, ∃ r, s.getRawLog publicKey logId fromSeqNum = .ok r) ∧
        (∀ publicKey logId fromSeqNum toSeqNum,
          ∃ r, s.deletePayloads publicKey logId fromSeqNum toSeqNum = .ok r) ∧
        ((∀ c ∈ redeliveryCalls, ∀ publicKey logId before,
            c ≠ .deleteOperations publicKey logId before) →
          ∀ logId, ∃ r, s.getLogHeights logId = .ok r) := by
  obtain ⟨s, hrun⟩ := Except.exists_ok_of_toBool
    (x := run cborPrimitives (new : MemoryStore Nat Unit) redeliveryCalls) (by decide +kernel)
  exact ⟨redeliveryCalls_agree, s, hrun, run_reads_ok _ redeliveryCalls_agree hrun⟩

end Runs

/-! ## The two exceptions -/

/-- A run of two calls of the store's own interface after which `get_log_heights` panics:
insert the first operation of a log, then `delete_operations` before sequence number 1. -/
theorem getLogHeights_after_deleteOperations :
    (run cborPrimitives (new : MemoryStore Nat Unit)
      [.insertOperation (sampleHeader 0 0 none none) none
          ((sampleHeader 0 0 none none : Header Unit).toBytes cborPrimitives) 0,
        .deleteOperations (sampleHeader (E := Unit) 0 0 none none).publicKey 0 1]) >>=
      (·.getLogHeights 0) = .error "all logs contain at least one operation" := by
  decide +kernel

end MemoryStore

end P2panda
