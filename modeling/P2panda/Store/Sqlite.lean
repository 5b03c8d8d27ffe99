import P2panda.Core.Operation

/- The operations table of `SqliteStore` (`p2panda-store/src/sqlite/store.rs`, `models.rs`).

   `insert_operation` binds each header field to a column as text: numbers in decimal,
   keys, signatures and hashes in hex, `previous` as the concatenation of the hex of its
   hashes, the extensions as CBOR. `get_operation` reads the row with the hash back through
   `From<OperationRow> for Header<E>`, which `unwrap`s every parse: a parse that fails
   panics, modelled as `.error` with the panic text.

   Every field reads back (`fromRow_ofHeader`), except `previous`: the loop that splits it
   cuts 32 characters at a time, the hex of 16 bytes, where each hash took 64. The first
   piece then fails the width check of `Hash`, so every header with a `previous` hash
   panics on the way back (`fromRow_ofHeader_previous`), and after a successful insert
   `get_operation` returns the operation exactly when `previous` is empty
   (`getOperation_insertOperation`). -/
namespace P2panda

namespace Sqlite

open Cbor

variable {L E : Type}

/-- The text of the panic of `Result::unwrap` on an `Err` (the error's `Debug` text that
follows it is left out). -/
def unwrapPanic : String := "called `Result::unwrap()` on an `Err` value"

/-- `Result::unwrap`. -/
def unwrap {ε α : Type} : Except ε α → Except String α
  | .ok a => .ok a
  | .error _ => .error unwrapPanic

/-- `OperationRow`: one row of `operations_v1`, text columns as characters. -/
structure OperationRow where
  hash : List Char
  logId : List Char
  version : List Char
  publicKey : List Char
  signature : List Char
  payloadSize : List Char
  payloadHash : Option (List Char)
  timestamp : List Char
  seqNum : List Char
  backlink : Option (List Char)
  previous : List Char
  extensions : Option (List UInt8)
  body : Option (List UInt8)
  headerBytes : List UInt8

/-- The rows of `operations_v1`, in insertion order. -/
structure SqliteStore where
  rows : List OperationRow

section Rows

variable (P : Primitives) [Extensions E]

/-- `decode_cbor::<E>`: one data item, then its deserialization. -/
def decodeExtensions (bytes : List UInt8) : Except DecodeError E :=
  match P.decodeItem bytes with
  | .ok (item, _) =>
    match Extensions.deserialize item with
    | .ok e => .ok e
    | .error e => .error (.semantic e)
  | .error e => .error e

/-- The values `insert_operation` binds, for a signed header (`signature` is `NOT NULL`);
`calculateHash` is `DefaultHasher` over the log id. -/
def OperationRow.ofHeader (calculateHash : L → UInt64) (hash : Hash) (header : Header E)
    (signature : Signature) (body : Option Body) (headerBytes : List UInt8) (logId : L) :
    OperationRow where
  hash := hash.toHex
  logId := Decimal.ofUInt64 (calculateHash logId)
  version := Decimal.ofUInt64 header.version
  publicKey := header.publicKey.toHex
  signature := signature.toHex
  payloadSize := Decimal.ofUInt64 header.payloadSize
  payloadHash := header.payloadHash.map Hash.toHex
  timestamp := Decimal.ofUInt64 header.timestamp
  seqNum := Decimal.ofUInt64 header.seqNum
  backlink := header.backlink.map Hash.toHex
  previous := header.previous.flatMap Hash.toHex
  extensions := header.extensions.map fun e => P.encodeItem (Extensions.serialize e)
  body := body.map Body.bytes
  headerBytes := headerBytes

/-- The `while` loop over `previous`: `split_at(32)` (a panic on a shorter rest), then
`Hash::from_str(..).unwrap()` on the piece. -/
def readPrevious (text : List Char) : Except String (List Hash) :=
  if text.isEmpty then .ok []
  else if text.length < 32 then .error "byte index 32 is out of bounds"
  else do
    let hash ← unwrap (Hash.fromStr (text.take 32))
    let rest ← readPrevious (text.drop 32)
    pure (hash :: rest)
termination_by text.length
decreasing_by
  simp only [List.length_drop]
  omega

/-- `From<OperationRow> for Header<E>`: `previous` first, then the fields in the order of
the struct literal; the first failed `unwrap` panics. -/
def Header.fromRow (row : OperationRow) : Except String (Header E) := do
  let previous ← readPrevious row.previous
  let version ← unwrap (Decimal.parseUInt64 row.version)
  let publicKey ← unwrap (PublicKey.fromStr P.keyFromBytes row.publicKey)
  let signature ← unwrap (Signature.fromStr row.signature)
  let payloadSize ← unwrap (Decimal.parseUInt64 row.payloadSize)
  let payloadHash ← row.payloadHash.mapM fun hex => unwrap (Hash.fromStr hex)
  let timestamp ← unwrap (Decimal.parseUInt64 row.timestamp)
  let seqNum ← unwrap (Decimal.parseUInt64 row.seqNum)
  let backlink ← row.backlink.mapM fun hex => unwrap (Hash.fromStr hex)
  let extensions ← row.extensions.mapM fun bytes => unwrap (decodeExtensions P bytes)
  pure { version := version
         publicKey := publicKey
         signature := some signature
         payloadSize := payloadSize
         payloadHash := payloadHash
         timestamp := timestamp
         seqNum := seqNum
         backlink := backlink
         previous := previous
         extensions := extensions }

/-- `insert_operation`: the `NOT NULL` constraint on `signature` and the primary key
`hash` are the two ways the `INSERT` fails. -/
def SqliteStore.insertOperation (calculateHash : L → UInt64) (store : SqliteStore) (hash : Hash)
    (header : Header E) (body : Option Body) (headerBytes : List UInt8) (logId : L) :
    Except String (Bool × SqliteStore) :=
  match header.signature with
  | none => .error "NOT NULL constraint failed: operations_v1.signature"
  | some signature =>
    if store.rows.any (·.hash == hash.toHex) then
      .error "UNIQUE constraint failed: operations_v1.hash"
    else
      .ok (true,
        ⟨store.rows ++ [OperationRow.ofHeader P calculateHash hash header signature body
          headerBytes logId]⟩)

/-- `get_operation`: the row with the hash, its header and its body. -/
def SqliteStore.getOperation (store : SqliteStore) (hash : Hash) :
    Except String (Option (Header E × Option Body)) :=
  match store.rows.find? (·.hash == hash.toHex) with
  | none => .ok none
  | some row => do
    let header ← Header.fromRow P row
    pure (some (header, row.body.map Body.mk))

/-- `has_operation`: whether `SELECT 1 .. WHERE hash = ?` finds a row. -/
def SqliteStore.hasOperation (store : SqliteStore) (hash : Hash) : Bool :=
  store.rows.any (·.hash == hash.toHex)

/-- `delete_operation`: whether a row was deleted (`rows_affected() > 0`). -/
def SqliteStore.deleteOperation (store : SqliteStore) (hash : Hash) : Bool × SqliteStore :=
  (store.rows.any (·.hash == hash.toHex), ⟨store.rows.filter fun row => !(row.hash == hash.toHex)⟩)

/-- `delete_payload`: `UPDATE .. SET body = NULL`, which affects the row that has the hash. -/
def SqliteStore.deletePayload (store : SqliteStore) (hash : Hash) : Bool × SqliteStore :=
  (store.rows.any (·.hash == hash.toHex),
    ⟨store.rows.map fun row => if row.hash == hash.toHex then { row with body := none } else row⟩)

/-- `CAST(.. AS NUMERIC)` of a text column, as an exact integer: the value of a decimal, and
`0` for text that is none. -/
def numeric (text : List Char) : Nat :=
  match Decimal.parseUInt64 text with
  | .ok n => n.toNat
  | .error _ => 0

/-- `CAST(seq_num AS NUMERIC)`. -/
def OperationRow.seqValue (row : OperationRow) : Nat := numeric row.seqNum

/-- `public_key = ? AND log_id = ?`, with the key's hex and the log id's hash in decimal. -/
def OperationRow.inLog (calculateHash : L → UInt64) (publicKey : PublicKey) (logId : L)
    (row : OperationRow) : Bool :=
  row.publicKey == publicKey.toHex && row.logId == Decimal.ofUInt64 (calculateHash logId)

/-- `ORDER BY CAST(seq_num AS NUMERIC)`: the rows sorted by sequence number. SQL leaves the
order of rows with equal sequence numbers open, so every such order is one `OrderBy`. -/
structure OrderBy where
  sort : List OperationRow → List OperationRow
  perm : ∀ rows, (sort rows).Perm rows
  sorted : ∀ rows, (sort rows).Pairwise fun a b => a.seqValue ≤ b.seqValue

/-- A stable sort, one order the database may choose. -/
def OrderBy.mergeSort : OrderBy where
  sort rows := rows.mergeSort fun a b => decide (a.seqValue ≤ b.seqValue)
  perm rows := List.mergeSort_perm _ _
  sorted rows := by
    have h : (rows.mergeSort fun a b => decide (a.seqValue ≤ b.seqValue)).Pairwise
        fun a b => decide (a.seqValue ≤ b.seqValue) := List.pairwise_mergeSort
      (fun a b c hab hbc => by simp only [decide_eq_true_eq] at *; omega)
      (fun a b => by simp only [Bool.or_eq_true, decide_eq_true_eq]; omega) rows
    simpa using h

/-- The rows of a log from `from` on (`CAST(seq_num AS NUMERIC) >= CAST(? as NUMERIC)`, with
`from.unwrap_or(0)` bound), in the database's order. -/
def SqliteStore.logRows (order : OrderBy) (calculateHash : L → UInt64) (store : SqliteStore)
    (publicKey : PublicKey) (logId : L) (fromSeqNum : Option UInt64) : List OperationRow :=
  order.sort (store.rows.filter fun row => row.inLog calculateHash publicKey logId &&
    decide (numeric (Decimal.ofUInt64 (fromSeqNum.getD 0)) ≤ row.seqValue))

/-- `get_log`: the log's headers and bodies, and `None` for no rows. -/
def SqliteStore.getLog (order : OrderBy) (calculateHash : L → UInt64) (store : SqliteStore)
    (publicKey : PublicKey) (logId : L) (fromSeqNum : Option UInt64) :
    Except String (Option (List (Header E × Option Body))) := do
  let log ← (store.logRows order calculateHash publicKey logId fromSeqNum).mapM fun row => do
    let header ← Header.fromRow P row
    pure (header, row.body.map Body.mk)
  pure (if log.isEmpty then none else some log)

/-- `get_raw_log`: the log's header bytes and bodies, and `None` for no rows. -/
def SqliteStore.getRawLog (order : OrderBy) (calculateHash : L → UInt64) (store : SqliteStore)
    (publicKey : PublicKey) (logId : L) (fromSeqNum : Option UInt64) :
    Option (List (List UInt8 × Option (List UInt8))) :=
  let log := (store.logRows order calculateHash publicKey logId fromSeqNum).map fun row =>
    (row.headerBytes, row.body)
  if log.isEmpty then none else some log

/-- `latest_operation`: `ORDER BY CAST(seq_num AS NUMERIC) DESC LIMIT 1`, a row with the
largest sequence number, here the last of the database's ascending order. -/
def SqliteStore.latestOperation (order : OrderBy) (calculateHash : L → UInt64)
    (store : SqliteStore) (publicKey : PublicKey) (logId : L) :
    Except String (Option (Header E × Option Body)) :=
  match (order.sort (store.rows.filter (·.inLog calculateHash publicKey logId))).getLast? with
  | none => .ok none
  | some row => do
    let header ← Header.fromRow P row
    pure (some (header, row.body.map Body.mk))

/-- `delete_operations`: the rows of the log below `before`. -/
def SqliteStore.deleteOperations (calculateHash : L → UInt64) (store : SqliteStore)
    (publicKey : PublicKey) (logId : L) (before : UInt64) : Bool × SqliteStore :=
  let deleted := fun row : OperationRow => row.inLog calculateHash publicKey logId &&
    decide (row.seqValue < numeric (Decimal.ofUInt64 before))
  (store.rows.any deleted, ⟨store.rows.filter fun row => !deleted row⟩)

/-- `delete_payloads`: `SET body = NULL` on the rows of the log with `from ≤ seq_num < to`. -/
def SqliteStore.deletePayloads (calculateHash : L → UInt64) (store : SqliteStore)
    (publicKey : PublicKey) (logId : L) (fromSeqNum toSeqNum : UInt64) : Bool × SqliteStore :=
  let cleared := fun row : OperationRow => row.inLog calculateHash publicKey logId &&
    decide (numeric (Decimal.ofUInt64 fromSeqNum) ≤ row.seqValue) &&
    decide (row.seqValue < numeric (Decimal.ofUInt64 toSeqNum))
  (store.rows.any cleared,
    ⟨store.rows.map fun row => if cleared row then { row with body := none } else row⟩)

/-- `get_log_heights`: `GROUP BY public_key` over the log id's rows, each group's largest
sequence number cast back to text, and both parsed (`From<LogHeightRow>`, which `unwrap`s).
SQL leaves the order of the groups open; here it is the order of first rows. -/
def SqliteStore.getLogHeights (calculateHash : L → UInt64) (store : SqliteStore) (logId : L) :
    Except String (List (PublicKey × UInt64)) :=
  let rows := store.rows.filter fun row => row.logId == Decimal.ofUInt64 (calculateHash logId)
  (rows.map (·.publicKey)).dedup.mapM fun publicKey => do
    let height := ((rows.filter (·.publicKey == publicKey)).map (·.seqValue)).foldl max 0
    let publicKey ← unwrap (PublicKey.fromStr P.keyFromBytes publicKey)
    let seqNum ← unwrap (Decimal.parseUInt64 (Nat.toDigits 10 height))
    pure (publicKey, seqNum)

end Rows

/-! ## Reading a row back -/

section Roundtrip

variable (P : Primitives) [Extensions E]

@[simp] theorem unwrap_ok {ε α : Type} (a : α) : unwrap (.ok a : Except ε α) = .ok a := rfl

theorem readPrevious_nil : readPrevious [] = .ok [] := by
  rw [readPrevious]
  rfl

/-- The first piece of the text of a nonempty `previous` list is the hex of the first 16
bytes of its first hash, which is no hash. -/
theorem fromStr_previous_piece (h : Hash) (hs : List Hash) :
    Hash.fromStr (((h :: hs).flatMap Hash.toHex).take 32) = .error (.invalidLength 16 32) := by
  have hpiece : ((h :: hs).flatMap Hash.toHex).take 32 = Hex.encode (h.bytes.take 16) := by
    have hlen : (Hash.toHex h).length = 64 := by simp [Hash.toHex, h.length_eq]
    rw [List.flatMap_cons, List.take_append_of_le_length (by omega), Hash.toHex,
      show 32 = 2 * 16 from rfl, Hex.take_encode]
  have hlen : (h.bytes.take 16).length = 16 := by simp [h.length_eq]
  rw [hpiece, Hash.fromStr, fromHexWith_encode, Hash.tryFrom, dif_neg (by omega), hlen]

theorem readPrevious_cons (h : Hash) (hs : List Hash) :
    readPrevious ((h :: hs).flatMap Hash.toHex) = .error unwrapPanic := by
  have hlen : ((h :: hs).flatMap Hash.toHex).length ≥ 64 := by
    simp [Hash.toHex, h.length_eq]
  have hne : ¬ ((h :: hs).flatMap Hash.toHex).isEmpty := by
    rw [List.isEmpty_iff]
    intro hnil
    rw [hnil] at hlen
    simp at hlen
  rw [readPrevious, if_neg hne, if_neg (by omega), fromStr_previous_piece]
  rfl

theorem decodeExtensions_encode
    (hitem : ∀ v, P.decodeItem (P.encodeItem v) = .ok (v, []))
    (hext : ∀ e : E, Extensions.deserialize (Extensions.serialize e) = .ok e) (e : E) :
    decodeExtensions P (P.encodeItem (Extensions.serialize e)) = .ok e := by
  simp only [decodeExtensions, hitem, hext]

/-- Every field of a signed header without `previous` hashes reads back from its row. -/
theorem fromRow_ofHeader (hitem : ∀ v, P.decodeItem (P.encodeItem v) = .ok (v, []))
    (hext : ∀ e : E, Extensions.deserialize (Extensions.serialize e) = .ok e)
    (calculateHash : L → UInt64) (hash : Hash) (header : Header E) (signature : Signature)
    (body : Option Body) (headerBytes : List UInt8) (logId : L)
    (hsig : header.signature = some signature) (hprev : header.previous = [])
    (hkey : P.keyFromBytes header.publicKey.bytes = .ok header.publicKey) :
    Header.fromRow P (OperationRow.ofHeader P calculateHash hash header signature body
      headerBytes logId) = .ok header := by
  have hpayload : (header.payloadHash.map Hash.toHex).mapM
      (fun hex => unwrap (Hash.fromStr hex)) = .ok header.payloadHash := by
    cases header.payloadHash <;> simp
  have hbacklink : (header.backlink.map Hash.toHex).mapM
      (fun hex => unwrap (Hash.fromStr hex)) = .ok header.backlink := by
    cases header.backlink <;> simp
  have hextensions : (header.extensions.map fun e => P.encodeItem (Extensions.serialize e)).mapM
      (fun bytes => unwrap (decodeExtensions P bytes)) = .ok header.extensions := by
    cases header.extensions with
    | none => rfl
    | some e => simp [decodeExtensions_encode P hitem hext]
  simp only [Header.fromRow, OperationRow.ofHeader, hprev, List.flatMap_nil, readPrevious_nil,
    Decimal.parseUInt64_ofUInt64, PublicKey.fromStr_toHex _ hkey, Signature.fromStr_toHex,
    hpayload, hbacklink, hextensions, unwrap_ok, Except.ok_bind]
  cases header
  simp only at hsig hprev
  subst hsig hprev
  rfl

/-- A signed header with a `previous` hash panics on the way back, whatever its other
fields. -/
theorem fromRow_ofHeader_previous (calculateHash : L → UInt64) (hash : Hash) (header : Header E)
    (signature : Signature) (body : Option Body) (headerBytes : List UInt8) (logId : L)
    (hprev : header.previous ≠ []) :
    Header.fromRow (E := E) P (OperationRow.ofHeader P calculateHash hash header signature body
      headerBytes logId) = .error unwrapPanic := by
  obtain ⟨h, hs, heq⟩ := List.exists_cons_of_ne_nil hprev
  simp only [Header.fromRow, OperationRow.ofHeader, heq, readPrevious_cons]
  rfl

end Roundtrip

/-! ## The store -/

section Store

variable (P : Primitives) [Extensions E]

/-- After a successful insert, `get_operation` finds the new row: no earlier row had its
hash. -/
theorem getOperation_insertOperation_row {calculateHash : L → UInt64} {store store' : SqliteStore}
    {hash : Hash} {header : Header E} {body : Option Body} {headerBytes : List UInt8} {logId : L}
    {inserted : Bool}
    (hins : store.insertOperation P calculateHash hash header body headerBytes logId =
      .ok (inserted, store')) :
    ∃ signature, header.signature = some signature ∧
      store'.getOperation P hash =
        (do
          let header ← Header.fromRow (E := E) P
            (OperationRow.ofHeader P calculateHash hash header signature body headerBytes logId)
          pure (some (header, body))) := by
  unfold SqliteStore.insertOperation at hins
  split at hins
  · cases hins
  · next signature hsig =>
    split at hins
    · cases hins
    · next hfresh =>
      cases hins
      refine ⟨signature, hsig, ?_⟩
      have hnone : store.rows.find? (·.hash == hash.toHex) = none := by
        rw [List.find?_eq_none]
        intro row hrow hmatch
        exact hfresh (List.any_eq_true.mpr ⟨row, hrow, hmatch⟩)
      have hbody : (body.map Body.bytes).map Body.mk = body := by cases body <;> rfl
      simp only [SqliteStore.getOperation, List.find?_append, hnone, Option.none_or,
        List.find?_singleton, OperationRow.ofHeader, beq_self_eq_true, if_true]
      rw [hbody]

/-- Row round trip of the store: after `insert_operation` succeeds, `get_operation` of the
hash returns the header and body exactly when the header has no `previous` hash, and
panics otherwise. -/
theorem getOperation_insertOperation (hitem : ∀ v, P.decodeItem (P.encodeItem v) = .ok (v, []))
    (hext : ∀ e : E, Extensions.deserialize (Extensions.serialize e) = .ok e)
    {calculateHash : L → UInt64} {store store' : SqliteStore} {hash : Hash} {header : Header E}
    {body : Option Body} {headerBytes : List UInt8} {logId : L} {inserted : Bool}
    (hins : store.insertOperation P calculateHash hash header body headerBytes logId =
      .ok (inserted, store'))
    (hkey : P.keyFromBytes header.publicKey.bytes = .ok header.publicKey) :
    store'.getOperation P hash =
      if header.previous = [] then .ok (some (header, body)) else .error unwrapPanic := by
  obtain ⟨signature, hsig, hget⟩ := getOperation_insertOperation_row P hins
  rw [hget]
  split
  · next hprev =>
    rw [fromRow_ofHeader P hitem hext calculateHash hash header signature body headerBytes logId
      hsig hprev hkey]
    rfl
  · next hprev =>
    rw [fromRow_ofHeader_previous P calculateHash hash header signature body headerBytes logId
      hprev]
    rfl

/-- A header with one `previous` hash, inserted into an empty table, cannot be read back:
`get_operation` panics. -/
theorem getOperation_previous_panics :
    let header : Header Unit := Header.sign cborPrimitives sampleKey
      { sampleHeader 0 1 none none with
        previous := [(sampleHeader (E := Unit) 0 0 none none).hash cborPrimitives] }
    ∃ store, SqliteStore.insertOperation cborPrimitives (fun _ : Nat => 0) ⟨[]⟩
        (header.hash cborPrimitives) header none (header.toBytes cborPrimitives) 0 =
          .ok (true, store) ∧
      store.getOperation (E := Unit) cborPrimitives (header.hash cborPrimitives) =
        .error unwrapPanic := by
  intro header
  -- the insert succeeds: the header is signed and the table empty
  obtain ⟨store, hins⟩ : ∃ store, SqliteStore.insertOperation cborPrimitives (fun _ : Nat => 0)
      ⟨[]⟩ (header.hash cborPrimitives) header none (header.toBytes cborPrimitives) 0 =
        .ok (true, store) := ⟨_, rfl⟩
  refine ⟨store, hins, ?_⟩
  rw [getOperation_insertOperation cborPrimitives cborPrimitives_decodeItem_encodeItem
    unit_deserialize_serialize hins (cborPrimitives_keyFromBytes _)]
  rfl

end Store

end Sqlite

end P2panda
