import P2panda.Store.MemoryInvariant
import P2panda.Store.Sqlite

/- The two stores of `p2panda-store` side by side: `SqliteStore` (`sqlite/store.rs`) as a
   refinement of `MemoryStore` (`memory.rs`), over the calls of `OperationStore` and
   `LogStore`.

   `Mirrors mem sql` is the simulation relation: the memory store is well filed, its
   operations are signed, and the table holds exactly the row `insert_operation` wrote for
   each of them, once. Every write keeps it and returns what the memory store returns
   (`Mirrors.insertOperation`, `Mirrors.deleteOperation`, ...), except `insert_operation` of
   a hash already stored, where the primary key makes the `INSERT` fail
   (`Mirrors.insertOperation_stored`), while the memory store answers `false`. So every run
   of calls from two new stores that inserts each hash once, signed, keeps them mirrored
   (`run_mirrors`, by `foldlM_simulation`).

   On mirrored stores `has_operation` and `get_raw_operation` agree, and `get_operation`
   and `latest_operation` agree as far as the table reads a header back, which is without
   `previous` hashes (`readBack`, `Sqlite.lean`). `get_log` and `get_raw_log` agree when the
   log has no two operations with one sequence number (SQL leaves their order open), except
   that the table answers `None` where the memory store has the log but no operation in it
   from `from` on: after `delete_operations` emptied it, or for a `from` past its end.
   `run_reads_agree` says all of this of the two stores any such run leaves, and
   `stores_disagree` runs both exceptions from new stores.

   SQLite's `CAST(seq_num AS NUMERIC)` is exact integer comparison (`numeric`), and the
   `log_id` column an injective function of the log id (`calculateHash`). -/

namespace P2panda

namespace Sqlite

variable {L E : Type}

/-- What reading rows back needs of the primitives and the extensions: CBOR items and
extensions decode what they encode, and the bytes of every public key make that key. -/
structure Codec (P : Primitives) (E : Type) [Extensions E] : Prop where
  item : ∀ v, P.decodeItem (P.encodeItem v) = .ok (v, [])
  extensions : ∀ e : E, Extensions.deserialize (Extensions.serialize e) = .ok e
  key : ∀ pk : PublicKey, P.keyFromBytes pk.bytes = .ok pk

theorem codec_cbor : Codec cborPrimitives Unit :=
  ⟨cborPrimitives_decodeItem_encodeItem, unit_deserialize_serialize, cborPrimitives_keyFromBytes⟩

section Mirrors

variable (P : Primitives) [Extensions E] (calculateHash : L → UInt64)

/-- The row `insert_operation` writes for a stored operation, if its header is signed. -/
def rowOf (hash : Hash) (op : StoredOperation L E) : Option OperationRow :=
  op.header.signature.map fun signature =>
    OperationRow.ofHeader P calculateHash hash op.header signature op.body op.headerBytes op.logId

/-- The table holds the row of each of the memory store's operations, once, and nothing
else; the memory store is well filed and its headers are signed. -/
structure Mirrors [DecidableEq L] (mem : MemoryStore L E) (sql : SqliteStore) : Prop where
  wellFiled : mem.WellFiled
  signed : ∀ hash op, mem.operations.lookup hash = some op → op.header.signature.isSome
  rows : ∀ row, row ∈ sql.rows ↔
    ∃ hash op, mem.operations.lookup hash = some op ∧ rowOf P calculateHash hash op = some row
  nodup : (sql.rows.map (·.hash)).Nodup

end Mirrors

/-! ### Rows of stored operations -/

section Rows

variable {P : Primitives} [Extensions E] {calculateHash : L → UInt64}

theorem rowOf_eq {hash : Hash} {op : StoredOperation L E} {signature : Signature}
    (hsig : op.header.signature = some signature) :
    rowOf P calculateHash hash op = some (OperationRow.ofHeader P calculateHash hash op.header
      signature op.body op.headerBytes op.logId) := by
  simp [rowOf, hsig]

theorem rowOf_isSome {hash : Hash} {op : StoredOperation L E}
    (hsig : op.header.signature.isSome) : (rowOf P calculateHash hash op).isSome := by
  simpa [rowOf] using hsig

theorem hash_of_rowOf {hash : Hash} {op : StoredOperation L E} {row : OperationRow}
    (h : rowOf P calculateHash hash op = some row) : row.hash = hash.toHex := by
  simp only [rowOf, Option.map_eq_some_iff] at h
  obtain ⟨_, -, rfl⟩ := h
  rfl

/-- A row of a stored operation carries its body, its header bytes and its sequence
number. -/
theorem fields_of_rowOf {hash : Hash} {op : StoredOperation L E} {row : OperationRow}
    (h : rowOf P calculateHash hash op = some row) :
    row.body = op.body.map Body.bytes ∧ row.headerBytes = op.headerBytes ∧
      row.seqValue = op.header.seqNum.toNat := by
  simp only [rowOf, Option.map_eq_some_iff] at h
  obtain ⟨_, -, rfl⟩ := h
  simp [OperationRow.ofHeader, OperationRow.seqValue, numeric, Decimal.parseUInt64_ofUInt64]

/-- The row of an operation is in the log of its author and log id, and in no other. -/
theorem inLog_of_rowOf (hinj : Function.Injective calculateHash) {hash : Hash}
    {op : StoredOperation L E} {row : OperationRow} (h : rowOf P calculateHash hash op = some row)
    (publicKey : PublicKey) (logId : L) :
    row.inLog calculateHash publicKey logId = true ↔
      (op.header.publicKey, op.logId) = (publicKey, logId) := by
  simp only [rowOf, Option.map_eq_some_iff] at h
  obtain ⟨_, -, rfl⟩ := h
  simp only [OperationRow.inLog, OperationRow.ofHeader, Bool.and_eq_true, beq_iff_eq,
    Prod.mk.injEq]
  constructor
  · rintro ⟨hkey, hlog⟩
    exact ⟨PublicKey.toHex_injective hkey, hinj (Decimal.ofUInt64_injective hlog)⟩
  · rintro ⟨rfl, rfl⟩
    exact ⟨rfl, rfl⟩

/-- `SET body = NULL` on the row of an operation is the row of the operation without its
body. -/
theorem rowOf_clearBody {hash : Hash} {op : StoredOperation L E} {row : OperationRow}
    (h : rowOf P calculateHash hash op = some row) :
    rowOf P calculateHash hash { op with body := none } = some { row with body := none } := by
  simp only [rowOf, Option.map_eq_some_iff] at h ⊢
  obtain ⟨signature, hsig, rfl⟩ := h
  exact ⟨signature, hsig, rfl⟩

/-- A row of an operation without `previous` hashes reads back as its header and body. -/
theorem readRow_rowOf (hc : Codec P E) {hash : Hash} {op : StoredOperation L E}
    {row : OperationRow} (h : rowOf P calculateHash hash op = some row)
    (hprev : op.header.previous = []) :
    Header.fromRow P row = .ok op.header ∧ row.body.map Body.mk = op.body := by
  simp only [rowOf, Option.map_eq_some_iff] at h
  obtain ⟨signature, hsig, rfl⟩ := h
  refine ⟨fromRow_ofHeader P hc.item hc.extensions calculateHash hash op.header signature op.body
    op.headerBytes op.logId hsig hprev (hc.key _), ?_⟩
  cases op.body <;> rfl

theorem numeric_ofUInt64 (n : UInt64) : numeric (Decimal.ofUInt64 n) = n.toNat := by
  simp [numeric, Decimal.parseUInt64_ofUInt64]

/-- `from` as the bound of the `WHERE` clause: `from.unwrap_or(0)`. -/
theorem fromFilter_eq (fromSeqNum : Option UInt64) (m : LogMeta) :
    MemoryStore.fromFilter fromSeqNum m = decide (fromSeqNum.getD 0 ≤ m.seqNum) := by
  cases fromSeqNum with
  | none => simp [MemoryStore.fromFilter, UInt64.zero_le]
  | some n => simp [MemoryStore.fromFilter]

end Rows

/-! ### Reading one operation -/

section Reads

variable [DecidableEq L] {P : Primitives} [Extensions E] {calculateHash : L → UInt64}
  {mem : MemoryStore L E} {sql : SqliteStore}

/-- Each stored operation has its row in the table. -/
theorem Mirrors.rowOf_mem (h : Mirrors P calculateHash mem sql) {hash : Hash}
    {op : StoredOperation L E} (hop : mem.operations.lookup hash = some op) :
    ∃ row, rowOf P calculateHash hash op = some row ∧ row ∈ sql.rows := by
  obtain ⟨row, hrow⟩ := Option.isSome_iff_exists.mp (rowOf_isSome (h.signed hash op hop))
  exact ⟨row, hrow, (h.rows row).mpr ⟨hash, op, hop, hrow⟩⟩

/-- The row with a hash is the row of the operation stored under it. -/
theorem Mirrors.find_eq (h : Mirrors P calculateHash mem sql) (hash : Hash) :
    sql.rows.find? (·.hash == hash.toHex) =
      (mem.operations.lookup hash).bind (rowOf P calculateHash hash) := by
  cases hop : mem.operations.lookup hash with
  | none =>
    -- a row's hash is the hash of its operation, which is not stored
    rw [Option.bind_none, List.find?_eq_none]
    intro row hrow hmatch
    obtain ⟨hash', op, hop', hrow'⟩ := (h.rows row).mp hrow
    have hsame : hash' = hash :=
      Hash.toHex_injective ((hash_of_rowOf hrow').symm.trans (beq_iff_eq.mp hmatch))
    rw [hsame, hop] at hop'
    cases hop'
  | some op =>
    obtain ⟨row, hrow, hmem⟩ := h.rowOf_mem hop
    rw [Option.bind_some, hrow]
    have hfind := List.find?_key_eq_some h.nodup hmem
    rwa [hash_of_rowOf hrow] at hfind

theorem Mirrors.hasOperation_eq (h : Mirrors P calculateHash mem sql) (hash : Hash) :
    sql.hasOperation hash = mem.hasOperation hash := by
  rw [SqliteStore.hasOperation, ← List.isSome_find?, h.find_eq hash, MemoryStore.hasOperation]
  cases hop : mem.operations.lookup hash with
  | none => simp [AList.lookup_eq_none.mp hop]
  | some op =>
    have hmem : hash ∈ mem.operations := AList.lookup_isSome.mp (by rw [hop]; rfl)
    obtain ⟨row, hrow, -⟩ := h.rowOf_mem hop
    simp [hmem, hrow]

end Reads

/-! ### Reading a log -/

section Logs

variable [DecidableEq L] {P : Primitives} [Extensions E] {calculateHash : L → UInt64}
  {mem : MemoryStore L E} {sql : SqliteStore}

/-- A row is in a log, with its sequence number such that `q`, exactly when its operation's
entry is in the log with that sequence number. -/
theorem Mirrors.inLog_iff_entry (h : Mirrors P calculateHash mem sql)
    (hinj : Function.Injective calculateHash) {hash : Hash} {op : StoredOperation L E}
    {row : OperationRow} (hop : mem.operations.lookup hash = some op)
    (hrow : rowOf P calculateHash hash op = some row) (publicKey : PublicKey) (logId : L)
    (q : UInt64 → Prop) :
    (row.inLog calculateHash publicKey logId = true ∧ q op.header.seqNum) ↔
      ∃ m ∈ mem.logOrEmpty (publicKey, logId), q m.seqNum ∧ m.hash = hash := by
  rw [inLog_of_rowOf hinj hrow, h.wellFiled.exists_entry_iff hop _ fun m => q m.seqNum,
    MemoryStore.logMeta_seqNum, eq_comm]

/-- The row of the operation of a log entry: every entry has one. -/
theorem Mirrors.entry_row (h : Mirrors P calculateHash mem sql) {key : PublicKey × L}
    {m : LogMeta} (hm : m ∈ mem.logOrEmpty key) :
    ∃ op row, mem.operations.lookup m.hash = some op ∧
      rowOf P calculateHash m.hash op = some row ∧ row.seqValue = m.seqNum.toNat ∧
      key = (op.header.publicKey, op.logId) := by
  obtain ⟨op, hop, hmeta, hkey⟩ := h.wellFiled.entries_stored key m hm
  obtain ⟨row, hrow, -⟩ := h.rowOf_mem hop
  have hseq : m.seqNum = op.header.seqNum := congrArg LogMeta.seqNum hmeta
  exact ⟨op, row, hop, hrow, by rw [(fields_of_rowOf hrow).2.2, hseq], hkey⟩

/-- The rows of a log from `from` on are the rows of the memory store's entries, in the
same order, when no two entries of the log share a sequence number. -/
theorem Mirrors.logRows_eq (h : Mirrors P calculateHash mem sql)
    (hinj : Function.Injective calculateHash) (order : OrderBy) (publicKey : PublicKey)
    (logId : L) (fromSeqNum : Option UInt64)
    (hforks : ∀ m ∈ mem.logOrEmpty (publicKey, logId), ∀ m' ∈ mem.logOrEmpty (publicKey, logId),
      m.seqNum = m'.seqNum → m = m') :
    sql.logRows order calculateHash publicKey logId fromSeqNum =
      ((mem.logOrEmpty (publicKey, logId)).toList.filter (MemoryStore.fromFilter fromSeqNum)).filterMap
        fun m => (mem.operations.lookup m.hash).bind (rowOf P calculateHash m.hash) := by
  -- the rows the `SELECT` finds are the rows of the entries the memory store reads
  have hmem : ∀ row, row ∈ sql.logRows order calculateHash publicKey logId fromSeqNum ↔
      row ∈ ((mem.logOrEmpty (publicKey, logId)).toList.filter
        (MemoryStore.fromFilter fromSeqNum)).filterMap
          fun m => (mem.operations.lookup m.hash).bind (rowOf P calculateHash m.hash) := by
    intro row
    rw [SqliteStore.logRows, (order.perm _).mem_iff, List.mem_filter, List.mem_filterMap]
    constructor
    · rintro ⟨hrows, hsel⟩
      obtain ⟨hash, op, hop, hrow⟩ := (h.rows row).mp hrows
      rw [Bool.and_eq_true, decide_eq_true_eq, numeric_ofUInt64, (fields_of_rowOf hrow).2.2,
        ← UInt64.le_iff_toNat_le] at hsel
      obtain ⟨m, hm, hfrom, rfl⟩ :=
        (h.inLog_iff_entry hinj hop hrow publicKey logId (fromSeqNum.getD 0 ≤ ·)).mp hsel
      refine ⟨m, List.mem_filter.mpr ⟨hm, ?_⟩, ?_⟩
      · rw [fromFilter_eq]
        exact decide_eq_true hfrom
      · rw [hop]
        exact hrow
    · rintro ⟨m, hm, hrow⟩
      rw [List.mem_filter, fromFilter_eq, decide_eq_true_eq] at hm
      obtain ⟨op, _, hop, hrow', -, -⟩ := h.entry_row hm.1
      rw [hop, Option.bind_some] at hrow
      refine ⟨(h.rows row).mpr ⟨m.hash, op, hop, hrow⟩, ?_⟩
      rw [Bool.and_eq_true, decide_eq_true_eq, numeric_ofUInt64, (fields_of_rowOf hrow).2.2,
        ← UInt64.le_iff_toNat_le]
      exact (h.inLog_iff_entry hinj hop hrow publicKey logId (fromSeqNum.getD 0 ≤ ·)).mpr
        ⟨m, hm.1, hm.2, rfl⟩
  -- the rows of two entries: distinct entries have distinct sequence numbers
  have hrows : ∀ ma ∈ mem.logOrEmpty (publicKey, logId), ∀ mb ∈ mem.logOrEmpty (publicKey, logId),
      ∀ a b, (mem.operations.lookup ma.hash).bind (rowOf P calculateHash ma.hash) = some a →
        (mem.operations.lookup mb.hash).bind (rowOf P calculateHash mb.hash) = some b →
        a.seqValue = ma.seqNum.toNat ∧ b.seqValue = mb.seqNum.toNat ∧
          (a.seqValue = b.seqValue → a = b) := by
    intro ma hma mb hmb a b ha hb
    obtain ⟨opa, rowa, hopa, hrowa, hseqa, -⟩ := h.entry_row hma
    obtain ⟨opb, rowb, hopb, hrowb, hseqb, -⟩ := h.entry_row hmb
    rw [hopa, Option.bind_some, hrowa, Option.some.injEq] at ha
    rw [hopb, Option.bind_some, hrowb, Option.some.injEq] at hb
    subst ha hb
    refine ⟨hseqa, hseqb, fun hseq => ?_⟩
    have hsame : ma = mb := hforks ma hma mb hmb (UInt64.toNat_inj.mp (hseqa ▸ hseqb ▸ hseq))
    subst hsame
    rw [hopa, Option.some.injEq] at hopb
    subst hopb
    rw [hrowa, Option.some.injEq] at hrowb
    exact hrowb
  refine @List.eq_of_pairwise_key_lt _ _ _ OperationRow.seqValue _ _ ?_ ?_ hmem
  · -- sorted by sequence number, each row once
    have hnodup : (sql.logRows order calculateHash publicKey logId fromSeqNum).Nodup :=
      (order.perm _).nodup_iff.mpr ((h.nodup.of_map _).filter _)
    refine List.Pairwise.imp_of_mem ?_ ((order.sorted _).and hnodup)
    intro a b ha hb ⟨hab, hne⟩
    obtain ⟨ma, hma, hra⟩ := List.mem_filterMap.mp ((hmem a).mp ha)
    obtain ⟨mb, hmb, hrb⟩ := List.mem_filterMap.mp ((hmem b).mp hb)
    obtain ⟨-, -, hsame⟩ := hrows ma (List.mem_filter.mp hma).1 mb (List.mem_filter.mp hmb).1
      a b hra hrb
    exact lt_of_le_of_ne hab fun hseq => hne (hsame hseq)
  · -- the entries are sorted, and no two share a sequence number
    rw [List.pairwise_filterMap]
    refine List.Pairwise.imp_of_mem ?_ ((mem.logOrEmpty (publicKey, logId)).sorted.filter _)
    intro ma mb hma hmb hlt a ha b hb
    have hma := (List.mem_filter.mp hma).1
    have hmb := (List.mem_filter.mp hmb).1
    obtain ⟨hseqa, hseqb, -⟩ := hrows ma hma mb hmb a b ha hb
    have hne : ma.seqNum ≠ mb.seqNum := fun hseq => (ne_of_lt hlt) (hforks ma hma mb hmb hseq)
    rw [hseqa, hseqb]
    exact UInt64.lt_iff_toNat_lt.mp (lt_of_le_of_ne (LogMeta.seqNum_le_of_le hlt.le) hne)

omit [DecidableEq L] [Extensions E] in
/-- `None` for no rows: `Some` of a log, kept only if it is not empty. -/
theorem ite_isEmpty_eq_filter {α : Type} (l : List α) :
    (if l.isEmpty then none else some l) = (some l).filter fun l => !l.isEmpty := by
  cases l <;> rfl

omit [Extensions E] in
/-- The memory store reads the operations of entries that all have one. -/
theorem mapM_expectOperation {β : Type} (g : StoredOperation L E → β) (msg : String) :
    ∀ ms : List LogMeta, (∀ m ∈ ms, ∃ op, mem.operations.lookup m.hash = some op) →
      ms.mapM (fun m => g <$> mem.expectOperation m.hash msg) =
        .ok (ms.filterMap fun m => (mem.operations.lookup m.hash).map g)
  | [], _ => rfl
  | m :: ms, hall => by
    obtain ⟨op, hop⟩ := hall m List.mem_cons_self
    rw [List.mapM_cons, MemoryStore.expectOperation_of_lookup msg hop,
      mapM_expectOperation g msg ms fun m' hm' => hall m' (List.mem_cons_of_mem m hm'),
      List.filterMap_cons, hop]
    rfl

/-- The table reads the rows of entries whose operations have no `previous` hashes as the
memory store reads the entries. -/
theorem Mirrors.mapM_readRow (h : Mirrors P calculateHash mem sql) (hc : Codec P E) :
    ∀ ms : List LogMeta, (∀ m ∈ ms, ∃ op, mem.operations.lookup m.hash = some op ∧
        op.header.previous = []) →
      (ms.filterMap fun m => (mem.operations.lookup m.hash).bind (rowOf P calculateHash m.hash)).mapM
          (fun row => do
            let header ← Header.fromRow P row
            pure (header, row.body.map Body.mk)) =
        .ok (ms.filterMap fun m => (mem.operations.lookup m.hash).map fun op => (op.header, op.body))
  | [], _ => rfl
  | m :: ms, hall => by
    obtain ⟨op, hop, hprev⟩ := hall m List.mem_cons_self
    obtain ⟨row, hrow, -⟩ := h.rowOf_mem hop
    obtain ⟨hheader, hbody⟩ := readRow_rowOf hc hrow hprev
    rw [List.filterMap_cons, hop, Option.bind_some, hrow, List.mapM_cons,
      h.mapM_readRow hc ms fun m' hm' => hall m' (List.mem_cons_of_mem m hm'),
      List.filterMap_cons, hop]
    simp [hheader, hbody]

/-- `get_log` agrees for a log without two operations of one sequence number and without
`previous` hashes, except that the table answers `None` where the memory store answers
`Some([])`: for a log that has no operation from `from` on. -/
theorem Mirrors.getLog_eq (h : Mirrors P calculateHash mem sql) (hc : Codec P E)
    (hinj : Function.Injective calculateHash) (order : OrderBy) (publicKey : PublicKey)
    (logId : L) (fromSeqNum : Option UInt64)
    (hforks : ∀ m ∈ mem.logOrEmpty (publicKey, logId), ∀ m' ∈ mem.logOrEmpty (publicKey, logId),
      m.seqNum = m'.seqNum → m = m')
    (hprev : ∀ m ∈ mem.logOrEmpty (publicKey, logId), ∀ op,
      mem.operations.lookup m.hash = some op → op.header.previous = [])
    {log : Option (List (Header E × Option Body))}
    (hmem : mem.getLog publicKey logId fromSeqNum = .ok log) :
    sql.getLog P order calculateHash publicKey logId fromSeqNum =
      .ok (log.filter fun l => !l.isEmpty) := by
  have hentries : ∀ m ∈ (mem.logOrEmpty (publicKey, logId)).toList.filter
      (MemoryStore.fromFilter fromSeqNum),
      ∃ op, mem.operations.lookup m.hash = some op ∧ op.header.previous = [] := by
    intro m hm
    obtain ⟨op, -, hop, -, -, -⟩ := h.entry_row (List.mem_filter.mp hm).1
    exact ⟨op, hop, hprev m (List.mem_filter.mp hm).1 op hop⟩
  rw [SqliteStore.getLog, h.logRows_eq hinj order publicKey logId fromSeqNum hforks,
    h.mapM_readRow hc _ hentries, Except.ok_bind]
  unfold MemoryStore.getLog at hmem
  cases hlog : mem.logs.lookup (publicKey, logId) with
  | none =>
    -- no log: no entries, and no rows
    rw [hlog] at hmem
    cases hmem
    simp [MemoryStore.logOrEmpty, hlog, SortedSet.empty]
  | some mlog =>
    rw [hlog] at hmem
    dsimp only at hmem
    have hlogOf : mem.logOrEmpty (publicKey, logId) = mlog := by
      simp [MemoryStore.logOrEmpty, hlog]
    rw [hlogOf] at hentries ⊢
    rw [mapM_expectOperation _ _ _ fun m hm => (hentries m hm).imp fun _ h => h.1] at hmem
    cases hmem
    rw [ite_isEmpty_eq_filter]
    rfl

end Logs

/-! ### Writes -/

section Writes

variable [DecidableEq L] {P : Primitives} [Extensions E] {calculateHash : L → UInt64}
  {mem : MemoryStore L E} {sql : SqliteStore}

/-- A write that keeps some of the operations and deletes the rows of the others. -/
theorem Mirrors.filter (h : Mirrors P calculateHash mem sql) {mem' : MemoryStore L E}
    (hw : mem'.WellFiled) (keep : Hash → StoredOperation L E → Bool)
    (hops : ∀ hash, mem'.operations.lookup hash = (mem.operations.lookup hash).filter (keep hash))
    (p : OperationRow → Bool)
    (hp : ∀ hash op row, mem.operations.lookup hash = some op →
      rowOf P calculateHash hash op = some row → p row = keep hash op) :
    Mirrors P calculateHash mem' ⟨sql.rows.filter p⟩ where
  wellFiled := hw
  signed hash op hop := by
    rw [hops, Option.filter_eq_some_iff] at hop
    exact h.signed hash op hop.1
  rows row := by
    simp only [List.mem_filter, hops, Option.filter_eq_some_iff, h.rows]
    constructor
    · rintro ⟨⟨hash, op, hop, hrow⟩, hprow⟩
      exact ⟨hash, op, ⟨hop, (hp hash op row hop hrow) ▸ hprow⟩, hrow⟩
    · rintro ⟨hash, op, ⟨hop, hkeep⟩, hrow⟩
      exact ⟨⟨hash, op, hop, hrow⟩, (hp hash op row hop hrow).trans hkeep⟩
  nodup := (List.filter_sublist.map _).nodup h.nodup

/-- A write that changes some operations, keeping their headers, and their rows with them. -/
theorem Mirrors.map (h : Mirrors P calculateHash mem sql) {mem' : MemoryStore L E}
    (hw : mem'.WellFiled) (change : Hash → StoredOperation L E → StoredOperation L E)
    (hops : ∀ hash, mem'.operations.lookup hash = (mem.operations.lookup hash).map (change hash))
    (hheader : ∀ hash op, (change hash op).header = op.header)
    (f : OperationRow → OperationRow) (hf : ∀ row, (f row).hash = row.hash)
    (hrow : ∀ hash op row, mem.operations.lookup hash = some op →
      rowOf P calculateHash hash op = some row → rowOf P calculateHash hash (change hash op) = some (f row)) :
    Mirrors P calculateHash mem' ⟨sql.rows.map f⟩ where
  wellFiled := hw
  signed hash op' hop' := by
    rw [hops, Option.map_eq_some_iff] at hop'
    obtain ⟨op, hop, rfl⟩ := hop'
    rw [hheader]
    exact h.signed hash op hop
  rows row' := by
    simp only [List.mem_map, h.rows, hops, Option.map_eq_some_iff]
    constructor
    · rintro ⟨row, ⟨hash, op, hop, hrow'⟩, rfl⟩
      exact ⟨hash, change hash op, ⟨op, hop, rfl⟩, hrow hash op row hop hrow'⟩
    · rintro ⟨hash, _, ⟨op, hop, rfl⟩, hrow'⟩
      obtain ⟨row, hrowOf, -⟩ := h.rowOf_mem hop
      rw [hrow hash op row hop hrowOf, Option.some.injEq] at hrow'
      exact ⟨row, ⟨hash, op, hop, hrowOf⟩, hrow'⟩
  nodup := by
    have hhashes : (sql.rows.map f).map (·.hash) = sql.rows.map (·.hash) := by
      rw [List.map_map]
      exact List.map_congr_left fun row _ => hf row
    rw [hhashes]
    exact h.nodup

/-- An operation whose hash is not stored: both insert it and answer `true`. -/
theorem Mirrors.insertOperation (h : Mirrors P calculateHash mem sql) {hash : Hash}
    {header : Header E} {body : Option Body} {headerBytes : List UInt8} {logId : L}
    (hfresh : mem.hasOperation hash = false) (hsigned : header.signature.isSome) :
    (mem.insertOperation hash header body headerBytes logId).1 = true ∧
      ∃ sql', sql.insertOperation P calculateHash hash header body headerBytes logId =
          .ok (true, sql') ∧
        Mirrors P calculateHash (mem.insertOperation hash header body headerBytes logId).2 sql' := by
  have hnone : mem.operations.lookup hash = none := (mem.hasOperation_eq_false).mp hfresh
  -- an entry names a stored operation, so none has the new hash
  have hnew : MemoryStore.logMeta header hash ∉ mem.logOrEmpty (header.publicKey, logId) := by
    intro hm
    obtain ⟨op, hop, -⟩ := h.wellFiled.entries_stored _ _ hm
    rw [MemoryStore.logMeta_hash, hnone] at hop
    cases hop
  obtain ⟨signature, hsig⟩ := Option.isSome_iff_exists.mp hsigned
  have hany : (sql.rows.any (·.hash == hash.toHex)) = false := by
    rw [← SqliteStore.hasOperation, h.hasOperation_eq, hfresh]
  let op : StoredOperation L E := ⟨logId, header, body, headerBytes⟩
  have hrowOf : rowOf P calculateHash hash op =
      some (OperationRow.ofHeader P calculateHash hash header signature body headerBytes logId) :=
    rowOf_eq hsig
  have hlookup : ∀ hash', (mem.insertOperation hash header body headerBytes logId).2.operations.lookup hash' =
      if hash' = hash then some op else mem.operations.lookup hash' := fun hash' => by
    rw [MemoryStore.insertOperation_operations]
    simp only [hnew, not_false_eq_true, true_and]
    rfl
  refine ⟨by simp [MemoryStore.insertOperation_fst, hnew],
    ⟨sql.rows ++ [OperationRow.ofHeader P calculateHash hash header signature body headerBytes
      logId]⟩, ?_, ?_⟩
  · simp [SqliteStore.insertOperation, hsig, hany]
  · constructor
    · exact MemoryStore.insertOperation_wellFiled h.wellFiled fun op hop => by rw [hnone] at hop; cases hop
    · intro hash' op' hop'
      rw [hlookup] at hop'
      split at hop'
      · cases hop'
        exact hsigned
      · exact h.signed hash' op' hop'
    · intro row
      simp only [List.mem_append, List.mem_singleton, h.rows, hlookup]
      constructor
      · rintro (⟨hash', op', hop', hrow⟩ | rfl)
        · have hne : hash' ≠ hash := by rintro rfl; rw [hnone] at hop'; cases hop'
          exact ⟨hash', op', by rw [if_neg hne]; exact hop', hrow⟩
        · exact ⟨hash, op, by rw [if_pos rfl], hrowOf⟩
      · rintro ⟨hash', op', hop', hrow⟩
        split at hop'
        · next hsame =>
          subst hsame
          cases hop'
          rw [hrowOf, Option.some.injEq] at hrow
          exact .inr hrow.symm
        · exact .inl ⟨hash', op', hop', hrow⟩
    · -- no row had the new hash
      rw [List.map_append, List.nodup_append]
      refine ⟨h.nodup, List.nodup_singleton _, ?_⟩
      intro a ha b hb
      simp only [List.map_cons, List.map_nil, List.mem_singleton] at hb
      rw [hb]
      obtain ⟨row, hrow, rfl⟩ := List.mem_map.mp ha
      intro heq
      have hmatch : sql.rows.any (·.hash == hash.toHex) = true :=
        List.any_eq_true.mpr ⟨row, hrow, by simp [heq, OperationRow.ofHeader]⟩
      rw [hany] at hmatch
      cases hmatch

/-- An operation whose hash is stored: the `INSERT` breaks the primary key, where the memory
store answers `Ok(false)` for the same operation. -/
theorem Mirrors.insertOperation_stored (h : Mirrors P calculateHash mem sql) {hash : Hash}
    {header : Header E} {body : Option Body} {headerBytes : List UInt8} {logId : L}
    (hstored : mem.hasOperation hash = true) (hsigned : header.signature.isSome) :
    sql.insertOperation P calculateHash hash header body headerBytes logId =
      .error "UNIQUE constraint failed: operations_v1.hash" := by
  obtain ⟨signature, hsig⟩ := Option.isSome_iff_exists.mp hsigned
  have hany : (sql.rows.any (·.hash == hash.toHex)) = true := by
    rw [← SqliteStore.hasOperation, h.hasOperation_eq, hstored]
  simp [SqliteStore.insertOperation, hsig, hany]

theorem Mirrors.deleteOperation (h : Mirrors P calculateHash mem sql) (hash : Hash) :
    (sql.deleteOperation hash).1 = (mem.deleteOperation hash).1 ∧
      Mirrors P calculateHash (mem.deleteOperation hash).2 (sql.deleteOperation hash).2 := by
  refine ⟨?_, ?_⟩
  · rw [MemoryStore.deleteOperation_fst, ← h.hasOperation_eq]
    rfl
  · refine h.filter (MemoryStore.deleteOperation_wellFiled h.wellFiled) (fun hash' _ => !decide (hash' = hash))
      (fun hash' => ?_) _ (fun hash' op row hop hrow => ?_)
    · rw [MemoryStore.deleteOperation_operations]
      by_cases hh : hash' = hash
      · simp [hh]
      · simp only [hh, if_false, decide_false, Bool.not_false]
        cases mem.operations.lookup hash' <;> rfl
    · rw [hash_of_rowOf hrow]
      by_cases hh : hash' = hash
      · simp [hh]
      · have hne : hash'.toHex ≠ hash.toHex := fun heq => hh (Hash.toHex_injective heq)
        simp [hh, hne]

theorem Mirrors.deletePayload (h : Mirrors P calculateHash mem sql) (hash : Hash) :
    (sql.deletePayload hash).1 = (mem.deletePayload hash).1 ∧
      Mirrors P calculateHash (mem.deletePayload hash).2 (sql.deletePayload hash).2 := by
  refine ⟨?_, ?_⟩
  · rw [MemoryStore.deletePayload_fst, ← h.hasOperation_eq]
    rfl
  · refine h.map (MemoryStore.deletePayload_wellFiled h.wellFiled)
      (fun hash' op => if hash' = hash then { op with body := none } else op) (fun hash' => ?_)
      (fun hash' op => by split <;> rfl) _ (fun row => by split <;> rfl)
      (fun hash' op row hop hrow => ?_)
    · rw [MemoryStore.deletePayload_operations]
      by_cases hh : hash' = hash
      · subst hh
        simp
      · simp [hh]
    · -- the row of the operation is the row the update clears
      by_cases hh : hash' = hash
      · subst hh
        have hmatch : (row.hash == hash'.toHex) = true := by
          rw [hash_of_rowOf hrow]
          exact beq_self_eq_true _
        rw [if_pos rfl, if_pos hmatch]
        exact rowOf_clearBody hrow
      · have hne : hash'.toHex ≠ hash.toHex := fun heq => hh (Hash.toHex_injective heq)
        simp only [hh, if_false, hash_of_rowOf hrow, beq_iff_eq, hne]
        exact hrow

theorem Mirrors.deleteOperations (h : Mirrors P calculateHash mem sql)
    (hinj : Function.Injective calculateHash) (publicKey : PublicKey) (logId : L)
    (before : UInt64) :
    (sql.deleteOperations calculateHash publicKey logId before).1 =
        (mem.deleteOperations publicKey logId before).1 ∧
      Mirrors P calculateHash (mem.deleteOperations publicKey logId before).2
        (sql.deleteOperations calculateHash publicKey logId before).2 := by
  let deleted := ((mem.logs.lookup (publicKey, logId)).map (MemoryStore.hashesBefore · before)).getD []
  -- the rows the `DELETE` selects are the rows of the hashes the memory store deletes
  have hselect : ∀ hash op row, mem.operations.lookup hash = some op →
      rowOf P calculateHash hash op = some row →
      (row.inLog calculateHash publicKey logId &&
        decide (row.seqValue < numeric (Decimal.ofUInt64 before))) = decide (hash ∈ deleted) := by
    intro hash op row hop hrow
    have hentry := h.inLog_iff_entry hinj hop hrow publicKey logId (· < before)
    rw [← MemoryStore.mem_hashesBefore] at hentry
    rw [(fields_of_rowOf hrow).2.2, numeric_ofUInt64, Bool.eq_iff_iff, Bool.and_eq_true,
      decide_eq_true_eq, decide_eq_true_eq, ← UInt64.lt_iff_toNat_lt]
    exact hentry
  refine ⟨?_, ?_⟩
  · rw [MemoryStore.deleteOperations_fst, Bool.eq_iff_iff]
    simp only [SqliteStore.deleteOperations, List.any_eq_true, Bool.not_eq_true',
      List.isEmpty_eq_false_iff_exists_mem]
    constructor
    · rintro ⟨row, hmem, hdel⟩
      obtain ⟨hash, op, hop, hrow⟩ := (h.rows row).mp hmem
      exact ⟨hash, by simpa [hselect hash op row hop hrow] using hdel⟩
    · rintro ⟨hash, hhash⟩
      obtain ⟨m, hm, -, rfl⟩ := (MemoryStore.mem_hashesBefore mem).mp hhash
      obtain ⟨op, hop, -⟩ := h.wellFiled.entries_stored _ m hm
      obtain ⟨row, hrow, hmem⟩ := h.rowOf_mem hop
      exact ⟨row, hmem, by simpa [hselect m.hash op row hop hrow] using hhash⟩
  · refine h.filter (MemoryStore.deleteOperations_wellFiled h.wellFiled)
      (fun hash _ => decide (hash ∉ deleted))
      (fun hash => MemoryStore.deleteOperations_operations mem publicKey logId before hash) _
      (fun hash op row hop hrow => ?_)
    dsimp only
    rw [hselect hash op row hop hrow]
    simp

theorem Mirrors.deletePayloads (h : Mirrors P calculateHash mem sql)
    (hinj : Function.Injective calculateHash) (publicKey : PublicKey) (logId : L)
    (fromSeqNum toSeqNum : UInt64) {r : Bool × MemoryStore L E}
    (hmem : mem.deletePayloads publicKey logId fromSeqNum toSeqNum = .ok r) :
    (sql.deletePayloads calculateHash publicKey logId fromSeqNum toSeqNum).1 = r.1 ∧
      Mirrors P calculateHash r.2
        (sql.deletePayloads calculateHash publicKey logId fromSeqNum toSeqNum).2 := by
  rw [MemoryStore.deletePayloads_eq] at hmem
  simp only at hmem
  set cleared := ((mem.logs.lookup (publicKey, logId)).map
    (MemoryStore.hashesBetween · fromSeqNum toSeqNum)).getD [] with hcleared
  obtain ⟨ops, hops, rfl⟩ : ∃ ops, MemoryStore.clearPayloads cleared mem.operations = .ok ops ∧
      (!cleared.isEmpty, { mem with operations := ops }) = r := by
    cases hc : MemoryStore.clearPayloads cleared mem.operations with
    | error e => rw [hc] at hmem; cases hmem
    | ok ops =>
      rw [hc] at hmem
      cases hmem
      exact ⟨ops, rfl, rfl⟩
  -- the rows the `UPDATE` selects are the rows of the hashes the memory store clears
  have hselect : ∀ hash op row, mem.operations.lookup hash = some op →
      rowOf P calculateHash hash op = some row →
      (row.inLog calculateHash publicKey logId &&
        decide (numeric (Decimal.ofUInt64 fromSeqNum) ≤ row.seqValue) &&
        decide (row.seqValue < numeric (Decimal.ofUInt64 toSeqNum))) = decide (hash ∈ cleared) := by
    intro hash op row hop hrow
    have hentry := h.inLog_iff_entry hinj hop hrow publicKey logId
      (fun n => fromSeqNum ≤ n ∧ n < toSeqNum)
    rw [← MemoryStore.mem_hashesBetween_iff] at hentry
    rw [(fields_of_rowOf hrow).2.2, numeric_ofUInt64, numeric_ofUInt64, Bool.eq_iff_iff,
      Bool.and_eq_true, Bool.and_eq_true, decide_eq_true_eq, decide_eq_true_eq,
      decide_eq_true_eq, ← UInt64.le_iff_toNat_le, ← UInt64.lt_iff_toNat_lt, and_assoc]
    exact hentry
  refine ⟨?_, ?_⟩
  · rw [Bool.eq_iff_iff]
    simp only [SqliteStore.deletePayloads, List.any_eq_true, Bool.not_eq_true',
      List.isEmpty_eq_false_iff_exists_mem]
    constructor
    · rintro ⟨row, hmem, hsel⟩
      obtain ⟨hash, op, hop, hrow⟩ := (h.rows row).mp hmem
      exact ⟨hash, by simpa [hselect hash op row hop hrow] using hsel⟩
    · rintro ⟨hash, hhash⟩
      obtain ⟨m, hm, -, rfl⟩ := (MemoryStore.mem_hashesBetween_iff mem).mp hhash
      obtain ⟨op, hop, -⟩ := h.wellFiled.entries_stored _ m hm
      obtain ⟨row, hrow, hmem⟩ := h.rowOf_mem hop
      exact ⟨row, hmem, by simpa [hselect m.hash op row hop hrow] using hhash⟩
  · refine h.map (MemoryStore.deletePayloads_wellFiled h.wellFiled hmem)
      (fun hash op => if hash ∈ cleared then { op with body := none } else op)
      (fun hash => MemoryStore.clearPayloads_lookup hops hash)
      (fun hash op => by split <;> rfl) _ (fun row => by split <;> rfl)
      (fun hash op row hop hrow => ?_)
    have hsel := hselect hash op row hop hrow
    by_cases hc : hash ∈ cleared
    · simp only [hc, if_true, hsel, decide_true]
      exact rowOf_clearBody hrow
    · simp only [hc, if_false, hsel, decide_false, Bool.false_eq_true]
      exact hrow

end Writes

/-! ### Runs -/

section Runs

variable (P : Primitives) [Extensions E] (calculateHash : L → UInt64)

/-- A freshly migrated database: the table has no rows. -/
def SqliteStore.new : SqliteStore := ⟨[]⟩

/-- The call `MemoryStore.call` makes, on the table. -/
def SqliteStore.call (store : SqliteStore) : MemoryStore.StoreCall L E → Except String SqliteStore
  | .insertOperation header body headerBytes logId =>
    Prod.snd <$> store.insertOperation P calculateHash (header.hash P) header body headerBytes logId
  | .deleteOperation hash => .ok (store.deleteOperation hash).2
  | .deletePayload hash => .ok (store.deletePayload hash).2
  | .deleteOperations publicKey logId before =>
    .ok (store.deleteOperations calculateHash publicKey logId before).2
  | .deletePayloads publicKey logId fromSeqNum toSeqNum =>
    .ok (store.deletePayloads calculateHash publicKey logId fromSeqNum toSeqNum).2

/-- The calls one after another. -/
def SqliteStore.run (store : SqliteStore) (calls : List (MemoryStore.StoreCall L E)) :
    Except String SqliteStore :=
  calls.foldlM (SqliteStore.call P calculateHash) store

/-- The hash an insertion stores its operation under. -/
def insertedHash : MemoryStore.StoreCall L E → Option Hash
  | .insertOperation header _ _ _ => some (header.hash P)
  | _ => none

/-- Every insertion among `calls` is of a signed header. -/
def InsertsSigned (calls : List (MemoryStore.StoreCall L E)) : Prop :=
  ∀ header body headerBytes logId,
    MemoryStore.StoreCall.insertOperation header body headerBytes logId ∈ calls →
      header.signature.isSome

variable [DecidableEq L]

theorem mirrors_new : Mirrors P calculateHash (MemoryStore.new : MemoryStore L E) SqliteStore.new where
  wellFiled := MemoryStore.new_consistent.toWellFiled
  signed := by simp [MemoryStore.new, AList.lookup_empty]
  rows := by simp [SqliteStore.new, MemoryStore.new, AList.lookup_empty]
  nodup := List.nodup_nil

variable {P calculateHash} {mem : MemoryStore L E} {sql : SqliteStore}

/-- One call keeps the stores mirrored, unless it inserts a stored hash or an unsigned
header. -/
theorem Mirrors.call (h : Mirrors P calculateHash mem sql) (hinj : Function.Injective calculateHash)
    {c : MemoryStore.StoreCall L E}
    (hfresh : ∀ hash, insertedHash P c = some hash → mem.hasOperation hash = false)
    (hsigned : InsertsSigned [c]) {mem' : MemoryStore L E} (hcall : mem.call P c = .ok mem') :
    ∃ sql', sql.call P calculateHash c = .ok sql' ∧ Mirrors P calculateHash mem' sql' := by
  cases c with
  | insertOperation header body headerBytes logId =>
    cases hcall
    obtain ⟨-, sql', hsql, hmirrors⟩ :=
      h.insertOperation (hfresh _ rfl) (hsigned _ _ _ _ List.mem_cons_self)
    refine ⟨sql', ?_, hmirrors⟩
    rw [SqliteStore.call, hsql]
    rfl
  | deleteOperation hash =>
    cases hcall
    exact ⟨_, rfl, (h.deleteOperation hash).2⟩
  | deletePayload hash =>
    cases hcall
    exact ⟨_, rfl, (h.deletePayload hash).2⟩
  | deleteOperations publicKey logId before =>
    cases hcall
    exact ⟨_, rfl, (h.deleteOperations hinj publicKey logId before).2⟩
  | deletePayloads publicKey logId fromSeqNum toSeqNum =>
    -- the memory store's panic ends the run; otherwise both clear the same payloads
    cases hr : mem.deletePayloads publicKey logId fromSeqNum toSeqNum with
    | error e =>
      rw [MemoryStore.call, hr] at hcall
      cases hcall
    | ok r =>
      rw [MemoryStore.call, hr] at hcall
      cases hcall
      exact ⟨_, rfl, (h.deletePayloads hinj publicKey logId fromSeqNum toSeqNum hr).2⟩

/-- A hash that only calls still to come insert is not stored yet. -/
theorem hasOperation_of_storedFrom {done rest : List (MemoryStore.StoreCall L E)}
    (hs : MemoryStore.StoredFrom P done mem)
    (honce : ((done ++ rest).filterMap (insertedHash P)).Nodup) {hash : Hash}
    (hin : hash ∈ rest.filterMap (insertedHash P)) : mem.hasOperation hash = false := by
  rw [MemoryStore.hasOperation_eq_false]
  cases hop : mem.operations.lookup hash with
  | none => rfl
  | some op =>
    -- stored, so inserted among the calls already made, and so inserted twice
    obtain ⟨hhash, body, headerBytes, hc⟩ := hs hash op hop
    have hdone : hash ∈ done.filterMap (insertedHash P) :=
      List.mem_filterMap.mpr ⟨_, hc, by rw [insertedHash, hhash]⟩
    rw [List.filterMap_append, List.nodup_append] at honce
    exact absurd rfl (honce.2.2 hash hdone hash hin)

/-- From two new stores, a run that inserts each hash once and only signed headers keeps
them mirrored: where the memory store's run succeeds, the table's does too. -/
theorem run_mirrors (hinj : Function.Injective calculateHash)
    (calls : List (MemoryStore.StoreCall L E)) (hsigned : InsertsSigned calls)
    (honce : (calls.filterMap (insertedHash P)).Nodup)
    (hrun : MemoryStore.run P MemoryStore.new calls = .ok mem) :
    ∃ sql, SqliteStore.run P calculateHash SqliteStore.new calls = .ok sql ∧
      Mirrors P calculateHash mem sql := by
  -- the relation: mirrored, and every stored operation inserted by a call already made
  let R := fun (mem : MemoryStore L E) (sql : SqliteStore) (rest : List (MemoryStore.StoreCall L E)) =>
    Mirrors P calculateHash mem sql ∧
      ∃ done, done ++ rest = calls ∧ MemoryStore.StoredFrom P done mem
  have hstep : ∀ mem sql c rest mem', R mem sql (c :: rest) → mem.call P c = .ok mem' →
      ∃ sql', sql.call P calculateHash c = .ok sql' ∧ R mem' sql' rest := by
    rintro mem sql c rest mem' ⟨hmirrors, done, rfl, hs⟩ hcall
    have hfresh : ∀ hash, insertedHash P c = some hash → mem.hasOperation hash = false :=
      fun hash hc => hasOperation_of_storedFrom hs honce
        (List.mem_filterMap.mpr ⟨c, List.mem_cons_self, hc⟩)
    have hsigned' : InsertsSigned [c] := fun header body headerBytes logId hc =>
      hsigned header body headerBytes logId
        (List.mem_append_right done (List.mem_cons.mpr (Or.inl (List.mem_singleton.mp hc))))
    obtain ⟨sql', hsql, hmirrors'⟩ := hmirrors.call hinj hfresh hsigned' hcall
    have hs' : MemoryStore.StoredFrom P (done ++ [c]) mem' :=
      MemoryStore.call_storedFrom (List.mem_append_right done List.mem_cons_self)
        (hs.mono (List.subset_append_left done [c])) hcall
    exact ⟨sql', hsql, hmirrors', done ++ [c], by rw [List.append_assoc]; rfl, hs'⟩
  obtain ⟨sql, hsql, hmirrors, -⟩ := foldlM_simulation (MemoryStore.call P)
    (SqliteStore.call P calculateHash) R hstep calls MemoryStore.new SqliteStore.new mem
    ⟨mirrors_new P calculateHash, [], List.nil_append calls, MemoryStore.storedFrom_new []⟩ hrun
  exact ⟨sql, hsql, hmirrors⟩

end Runs

/-! ### Where the stores part -/

/-- The first operation of a log, signed. -/
def sampleOperation : Header Unit := sampleHeader 0 0 none none

/-- The call that inserts it under the log id `()`. -/
def sampleInsert : MemoryStore.StoreCall Unit Unit :=
  .insertOperation sampleOperation none (sampleOperation.toBytes cborPrimitives) ()

theorem sampleInsert_signed : InsertsSigned [sampleInsert] := by
  intro header body headerBytes logId hc
  cases List.mem_singleton.mp hc
  rfl

/-- After the first operation of a log is inserted into both new stores, whichever the log
id column and the order of the rows: inserting it again answers `false` in the memory store
and breaks the table's primary key; and after `delete_operations` below sequence number 1
`get_log` answers `Some([])` in the memory store, whose emptied log stays in its map, and
`None` from the table. -/
theorem stores_disagree (order : OrderBy) (calculateHash : Unit → UInt64) :
    ∃ mem sql, MemoryStore.run cborPrimitives MemoryStore.new [sampleInsert] = .ok mem ∧
      SqliteStore.run cborPrimitives calculateHash SqliteStore.new [sampleInsert] = .ok sql ∧
      (mem.insertOperation (sampleOperation.hash cborPrimitives) sampleOperation none
          (sampleOperation.toBytes cborPrimitives) ()).1 = false ∧
      sql.insertOperation cborPrimitives calculateHash (sampleOperation.hash cborPrimitives)
          sampleOperation none (sampleOperation.toBytes cborPrimitives) () =
        .error "UNIQUE constraint failed: operations_v1.hash" ∧
      (mem.deleteOperations sampleOperation.publicKey () 1).2.getLog sampleOperation.publicKey ()
          none = .ok (some []) ∧
      (sql.deleteOperations calculateHash sampleOperation.publicKey () 1).2.getLog (E := Unit)
          cborPrimitives order calculateHash sampleOperation.publicKey () none = .ok none := by
  have hinj : Function.Injective calculateHash := Function.injective_of_subsingleton _
  obtain ⟨mem, hmem⟩ : ∃ mem, MemoryStore.run cborPrimitives MemoryStore.new [sampleInsert] =
      .ok mem := ⟨_, rfl⟩
  obtain ⟨sql, hsql, hmirrors⟩ :=
    run_mirrors hinj [sampleInsert] sampleInsert_signed (List.nodup_singleton _) hmem
  -- the memory store's side, on the one store it reaches
  have hstored : mem.hasOperation (sampleOperation.hash cborPrimitives) = true := by
    cases hmem
    decide +kernel
  have hagain : (mem.insertOperation (sampleOperation.hash cborPrimitives) sampleOperation none
      (sampleOperation.toBytes cborPrimitives) ()).1 = false := by
    cases hmem
    decide +kernel
  have hpruned : (mem.deleteOperations sampleOperation.publicKey () 1).2.getLog
      sampleOperation.publicKey () none = .ok (some []) := by
    cases hmem
    decide +kernel
  have hempty : ((mem.deleteOperations sampleOperation.publicKey () 1).2.logOrEmpty
      (sampleOperation.publicKey, ())).toList = [] := by
    cases hmem
    decide +kernel
  -- the table's side, through the mirrored stores
  have hnone : ∀ m, m ∉ (mem.deleteOperations sampleOperation.publicKey () 1).2.logOrEmpty
      (sampleOperation.publicKey, ()) := by
    intro m hm
    rw [← SortedSet.mem_toList, hempty] at hm
    cases hm
  have hlog := (hmirrors.deleteOperations hinj sampleOperation.publicKey () 1).2.getLog_eq
    codec_cbor hinj order sampleOperation.publicKey () none (fun m hm => absurd hm (hnone m))
    (fun m hm => absurd hm (hnone m)) hpruned
  exact ⟨mem, sql, hmem, hsql, hagain, hmirrors.insertOperation_stored hstored rfl, hpruned, hlog⟩

end Sqlite

end P2panda
