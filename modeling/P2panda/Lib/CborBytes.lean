import Mathlib.Tactic.Ring
import P2panda.Lib.Serde
import P2panda.Lib.Framing

/- A byte encoding of CBOR data items (RFC 8949 §3) with a decoder, and its round trip.

   Every item starts with a head: the major type in the top three bits of the initial
   byte, and an argument, held in the low five bits when it is below 24 and otherwise in
   the 1, 2, 4 or 8 big-endian bytes that follow (additional information 24 to 27). The
   argument is the value of an integer, or the length of a string, an array or a map,
   whose contents follow the head. `false`, `true` and `null` are the single bytes
   `0xf4`, `0xf5` and `0xf6`. The encoder writes the shortest head, as deterministic
   encoding (§4.2.1) asks and as ciborium does.

   A length of `2^64` or more fits no head. No encoder that holds its data in memory
   meets one, but `Item` allows it, so that the round trip can hold for every item this
   encoder writes it with the reserved additional information 28, followed by the excess
   over `2^64` in unary.

   The decoder is given fuel; each nesting level spends one unit. It accepts heads that
   are not the shortest, as a decoder reading a general stream must. An item cut short
   anywhere, in a head, in a string or in an element, is `truncated`: a stream decoder
   tells a partial item from a broken one by this.

   Results:
   1. `readArg_argBytes`: the argument of a head reads back.
   2. `decodeMany_flatMap`: a counted run of items reads back when each item does.
   3. `decode_encode`: with as much fuel as the encoding has bytes, an item reads back as
      itself and leaves the bytes after it unread; `decodeItem_encode` is the fuel-free
      form, and `encode_injective` follows from it.
   4. `decode_strictPrefix`: a strict prefix of an encoding is `truncated`, with more fuel
      than it has bytes; `decodeItem_strictPrefix` is the fuel-free form. -/
namespace Cbor

/-- Why a byte string does not decode to an item. -/
inductive Failure where
  /-- The bytes end inside an item. -/
  | truncated
  /-- A head this decoder does not accept (reserved, a tag, a float, another simple
  value), or an integer argument that does not fit in 64 bits. -/
  | malformed
  /-- A text string that is not UTF-8. -/
  | invalidUtf8
  /-- Items nested deeper than the fuel allows. -/
  | outOfFuel
  deriving DecidableEq, Repr

/-! ## Heads -/

/-- The low `k` bytes of `n`, most significant first. -/
def beBytes : Nat → Nat → List UInt8
  | 0, _ => []
  | k + 1, n => UInt8.ofNat (n / 256 ^ k) :: beBytes k n

/-- Read `k` big-endian bytes onto the number `acc` read so far. -/
def readBe : Nat → Nat → List UInt8 → Except Failure (Nat × List UInt8)
  | 0, acc, bytes => .ok (acc, bytes)
  | _ + 1, _, [] => .error .truncated
  | k + 1, acc, b :: bytes => readBe k (acc * 256 + b.toNat) bytes

/-- Count the zero bytes before the first nonzero one onto `acc`. -/
def readUnary : Nat → List UInt8 → Except Failure (Nat × List UInt8)
  | _, [] => .error .truncated
  | acc, b :: bytes => if b = 0 then readUnary (acc + 1) bytes else .ok (acc, bytes)

/-- The additional information for the argument `n` and the bytes that follow the
initial byte. -/
def argBytes (n : Nat) : Nat × List UInt8 :=
  if n < 24 then (n, [])
  else if n < 2 ^ 8 then (24, beBytes 1 n)
  else if n < 2 ^ 16 then (25, beBytes 2 n)
  else if n < 2 ^ 32 then (26, beBytes 4 n)
  else if n < 2 ^ 64 then (27, beBytes 8 n)
  else (28, List.replicate (n - 2 ^ 64) 0 ++ [1])

/-- The head of major type `major` with argument `n`. -/
def head (major n : Nat) : List UInt8 :=
  UInt8.ofNat (32 * major + (argBytes n).1) :: (argBytes n).2

/-- The argument after an initial byte with additional information `info`. -/
def readArg (info : Nat) (bytes : List UInt8) : Except Failure (Nat × List UInt8) :=
  if info < 24 then .ok (info, bytes)
  else match info with
    | 24 => readBe 1 0 bytes
    | 25 => readBe 2 0 bytes
    | 26 => readBe 4 0 bytes
    | 27 => readBe 8 0 bytes
    | 28 => readUnary (2 ^ 64) bytes
    | _ => .error .malformed

theorem readArg_unary (bytes : List UInt8) : readArg 28 bytes = readUnary (2 ^ 64) bytes := rfl

@[simp] theorem beBytes_length (k n : Nat) : (beBytes k n).length = k := by
  induction k with
  | zero => rfl
  | succ k ih => simp [beBytes, ih]

theorem readBe_beBytes (k acc n : Nat) (rest : List UInt8) :
    readBe k acc (beBytes k n ++ rest) = .ok (acc * 256 ^ k + n % 256 ^ k, rest) := by
  induction k generalizing acc with
  | zero => simp [readBe, beBytes, Nat.mod_one]
  | succ k ih =>
    have hbyte : (UInt8.ofNat (n / 256 ^ k)).toNat = n / 256 ^ k % 256 := by simp
    simp only [beBytes, List.cons_append, readBe, hbyte, ih]
    -- the new byte is the digit of `256 ^ k` in `n`
    rw [Nat.mod_pow_succ]
    congr 2
    ring

theorem readUnary_replicate (m acc : Nat) (b : UInt8) (hb : b ≠ 0) (rest : List UInt8) :
    readUnary acc (List.replicate m 0 ++ b :: rest) = .ok (acc + m, rest) := by
  induction m generalizing acc with
  | zero => simp [readUnary, hb]
  | succ m ih =>
    rw [List.replicate_succ, List.cons_append, readUnary, if_pos rfl, ih]
    congr 2
    omega

theorem argBytes_fst_lt (n : Nat) : (argBytes n).1 < 29 := by
  unfold argBytes
  repeat' split
  all_goals simp only
  all_goals omega

/-- The argument of a head reads back, whatever follows it. -/
theorem readArg_argBytes (n : Nat) (rest : List UInt8) :
    readArg (argBytes n).1 ((argBytes n).2 ++ rest) = .ok (n, rest) := by
  by_cases h0 : n < 24
  · rw [argBytes, if_pos h0]
    simp [readArg, h0]
  by_cases h1 : n < 2 ^ 8
  · rw [argBytes, if_neg h0, if_pos h1]
    simpa [readArg, readBe_beBytes] using h1
  by_cases h2 : n < 2 ^ 16
  · rw [argBytes, if_neg h0, if_neg h1, if_pos h2]
    simpa [readArg, readBe_beBytes] using h2
  by_cases h4 : n < 2 ^ 32
  · rw [argBytes, if_neg h0, if_neg h1, if_neg h2, if_pos h4]
    simpa [readArg, readBe_beBytes] using h4
  by_cases h8 : n < 2 ^ 64
  · rw [argBytes, if_neg h0, if_neg h1, if_neg h2, if_neg h4, if_pos h8]
    simpa [readArg, readBe_beBytes] using h8
  · -- the excess over `2 ^ 64` in unary
    rw [argBytes, if_neg h0, if_neg h1, if_neg h2, if_neg h4, if_neg h8]
    dsimp only
    rw [readArg_unary, List.append_assoc, List.singleton_append,
      readUnary_replicate _ _ 1 (by decide), Nat.add_sub_cancel' (Nat.le_of_not_lt h8)]

/-- The initial byte of a head gives back its major type and additional information. -/
theorem head_initial (major n : Nat) (hmajor : major < 8) :
    (UInt8.ofNat (32 * major + (argBytes n).1)).toNat / 32 = major ∧
      (UInt8.ofNat (32 * major + (argBytes n).1)).toNat % 32 = (argBytes n).1 := by
  have hinfo := argBytes_fst_lt n
  have hlt : 32 * major + (argBytes n).1 < 2 ^ 8 := by omega
  simp only [UInt8.toNat_ofNat', Nat.mod_eq_of_lt hlt]
  omega

/-! ## Strings and counted runs -/

/-- Split off the first `n` bytes. -/
def takeBytes (n : Nat) (bytes : List UInt8) : Except Failure (List UInt8 × List UInt8) :=
  if n ≤ bytes.length then .ok (bytes.take n, bytes.drop n) else .error .truncated

theorem takeBytes_append (bs rest : List UInt8) :
    takeBytes bs.length (bs ++ rest) = .ok (bs, rest) := by
  simp [takeBytes]

/-- UTF-8 bytes as a string. -/
def decodeText (bytes : List UInt8) : Except Failure String :=
  match String.fromUTF8? ⟨bytes.toArray⟩ with
  | some s => .ok s
  | none => .error .invalidUtf8

/-- The UTF-8 bytes of a string. -/
def textBytes (s : String) : List UInt8 := s.toByteArray.data.toList

theorem decodeText_textBytes (s : String) : decodeText (textBytes s) = .ok s := by
  have hvalid : ByteArray.IsValidUTF8 ⟨(textBytes s).toArray⟩ := s.isValidUTF8
  simp only [decodeText, String.fromUTF8?, dif_pos hvalid]
  rfl

/-- `n` items one after another, each read by `item`. -/
def decodeMany {α : Type} (item : List UInt8 → Except Failure (α × List UInt8)) :
    Nat → List UInt8 → Except Failure (List α × List UInt8)
  | 0, bytes => .ok ([], bytes)
  | n + 1, bytes => item bytes >>= fun (x, bytes) =>
    (fun (xs, rest) => (x :: xs, rest)) <$> decodeMany item n bytes

/-- A counted run reads back when each of its items reads back. -/
theorem decodeMany_flatMap {α : Type} {item : List UInt8 → Except Failure (α × List UInt8)}
    {enc : α → List UInt8} (xs : List α)
    (hxs : ∀ x ∈ xs, ∀ rest, item (enc x ++ rest) = .ok (x, rest)) (rest : List UInt8) :
    decodeMany item xs.length (xs.flatMap enc ++ rest) = .ok (xs, rest) := by
  induction xs with
  | nil => rfl
  | cons x xs ih =>
    have hx := hxs x List.mem_cons_self
    have ih := ih fun y hy => hxs y (List.mem_cons_of_mem x hy)
    simp only [List.length_cons, decodeMany, List.flatMap_cons, List.append_assoc, hx, Except.ok_bind,
      ih]
    rfl

/-- A key and then a value. -/
def decodePair {α : Type} (item : List UInt8 → Except Failure (α × List UInt8)) (bytes : List UInt8) :
    Except Failure ((α × α) × List UInt8) :=
  item bytes >>= fun (k, bytes) => (fun (v, rest) => ((k, v), rest)) <$> item bytes

theorem decodePair_append {α : Type} {item : List UInt8 → Except Failure (α × List UInt8)}
    {enc : α → List UInt8} {k v : α} (hk : ∀ rest, item (enc k ++ rest) = .ok (k, rest))
    (hv : ∀ rest, item (enc v ++ rest) = .ok (v, rest)) (rest : List UInt8) :
    decodePair item (enc k ++ enc v ++ rest) = .ok ((k, v), rest) := by
  simp only [decodePair, List.append_assoc, hk, Except.ok_bind, hv]
  rfl

/-! ## Items -/

mutual

/-- The encoding of an item: its head, then its contents. -/
def encode : Item → List UInt8
  | .unsigned n => head 0 n.toNat
  | .negative n => head 1 n.toNat
  | .bytes bs => head 2 bs.length ++ bs
  | .text s => head 3 (textBytes s).length ++ textBytes s
  | .array items => head 4 items.length ++ encodeList items
  | .map entries => head 5 entries.length ++ encodeEntries entries
  | .bool false => [0xf4]
  | .bool true => [0xf5]
  | .null => [0xf6]

/-- The encodings of the elements of an array, one after another. -/
def encodeList : List Item → List UInt8
  | [] => []
  | x :: xs => encode x ++ encodeList xs

/-- The encodings of the entries of a map, each key before its value. -/
def encodeEntries : List (Item × Item) → List UInt8
  | [] => []
  | (k, v) :: es => encode k ++ encode v ++ encodeEntries es

end

/-- The simple values, after the initial byte of major type 7. -/
def decodeSimple : Nat → List UInt8 → Except Failure (Item × List UInt8)
  | 20, bytes => .ok (.bool false, bytes)
  | 21, bytes => .ok (.bool true, bytes)
  | 22, bytes => .ok (.null, bytes)
  | _, _ => .error .malformed

/-- The contents of an item of major type `major` with argument `n`; `item` reads the
elements of an array or a map. -/
def decodeBody (item : List UInt8 → Except Failure (Item × List UInt8)) (major n : Nat)
    (bytes : List UInt8) : Except Failure (Item × List UInt8) :=
  match major with
  | 0 => if n < 2 ^ 64 then .ok (.unsigned (UInt64.ofNat n), bytes) else .error .malformed
  | 1 => if n < 2 ^ 64 then .ok (.negative (UInt64.ofNat n), bytes) else .error .malformed
  | 2 => (fun (bs, rest) => (.bytes bs, rest)) <$> takeBytes n bytes
  | 3 => takeBytes n bytes >>= fun (bs, rest) => (fun s => (.text s, rest)) <$> decodeText bs
  | 4 => (fun (items, rest) => (.array items, rest)) <$> decodeMany item n bytes
  | 5 => (fun (entries, rest) => (.map entries, rest)) <$> decodeMany (decodePair item) n bytes
  | _ => .error .malformed

/-- Decode one item with `fuel` levels of nesting. -/
def decode : Nat → List UInt8 → Except Failure (Item × List UInt8)
  | 0, _ => .error .outOfFuel
  | _ + 1, [] => .error .truncated
  | fuel + 1, b :: bytes =>
    if b.toNat / 32 = 7 then decodeSimple (b.toNat % 32) bytes
    else readArg (b.toNat % 32) bytes >>= fun (n, rest) =>
      decodeBody (decode fuel) (b.toNat / 32) n rest

/-- Decode one item, with one level of nesting more than there are bytes: each level reads
at least its initial byte, so the bytes run out before the fuel does, and the empty input
is `truncated` as a cut item is. -/
def decodeItem (bytes : List UInt8) : Except Failure (Item × List UInt8) :=
  decode (bytes.length + 1) bytes

section RoundTrip

theorem encodeList_eq (xs : List Item) : encodeList xs = xs.flatMap encode := by
  induction xs with
  | nil => rfl
  | cons x xs ih => simp [encodeList, ih]

theorem encodeEntries_eq (es : List (Item × Item)) :
    encodeEntries es = es.flatMap fun e => encode e.1 ++ encode e.2 := by
  induction es with
  | nil => rfl
  | cons e es ih => simp [encodeEntries, ih]

theorem head_length_pos (major n : Nat) : 0 < (head major n).length := by
  simp [head]

theorem encode_length_pos (v : Item) : 0 < (encode v).length := by
  cases v with
  | bool b => cases b <;> simp [encode]
  | null => simp [encode]
  | _ => simp [encode, head]

theorem length_le_flatMap {α : Type} {f : α → List UInt8} {xs : List α} {x : α}
    (hx : x ∈ xs) : (f x).length ≤ (xs.flatMap f).length := by
  rw [List.flatMap_def]
  exact (List.sublist_flatten_of_mem (List.mem_map_of_mem hx)).length_le

/-- The initial byte of a head of a major type other than 7 has its argument read from
the bytes after it, and the argument handed to `decodeBody`. -/
theorem decode_initial (fuel major n : Nat) (hmajor : major < 7) (bytes : List UInt8) :
    decode (fuel + 1) (UInt8.ofNat (32 * major + (argBytes n).1) :: bytes) =
      readArg (argBytes n).1 bytes >>= fun (m, rest) => decodeBody (decode fuel) major m rest := by
  obtain ⟨hmaj, hinfo⟩ := head_initial major n (by omega)
  have hne : major ≠ 7 := by omega
  simp only [decode, hmaj, hinfo, hne, if_false]

/-- A head of a major type other than 7 hands its argument to `decodeBody`. -/
theorem decode_head (fuel major n : Nat) (hmajor : major < 7) (rest : List UInt8) :
    decode (fuel + 1) (head major n ++ rest) = decodeBody (decode fuel) major n rest := by
  rw [head, List.cons_append, decode_initial fuel major n hmajor, readArg_argBytes,
    Except.ok_bind]

/-- With as much fuel as the encoding has bytes, an item reads back as itself. The
induction is on the fuel: the elements of an array or a map have shorter encodings than
the whole, so one unit less fuel still covers each of them. -/
theorem decode_encode (fuel : Nat) (v : Item) (rest : List UInt8)
    (hfuel : (encode v).length ≤ fuel) : decode fuel (encode v ++ rest) = .ok (v, rest) := by
  induction fuel generalizing v rest with
  | zero => exact absurd hfuel (Nat.not_le.mpr (encode_length_pos v))
  | succ fuel ih =>
    cases v with
    | unsigned n =>
      rw [encode, decode_head _ _ _ (by decide)]
      simp [decodeBody, n.toNat_lt]
    | negative n =>
      rw [encode, decode_head _ _ _ (by decide)]
      simp [decodeBody, n.toNat_lt]
    | bytes bs =>
      rw [encode, List.append_assoc, decode_head _ _ _ (by decide)]
      simp [decodeBody, takeBytes_append]
    | text s =>
      rw [encode, List.append_assoc, decode_head _ _ _ (by decide)]
      simp [decodeBody, takeBytes_append, decodeText_textBytes]
    | array items =>
      have hlen : (encodeList items).length ≤ fuel := by
        simp only [encode, List.length_append] at hfuel
        have := head_length_pos 4 items.length
        omega
      rw [encodeList_eq] at hlen
      -- each element is covered by the fuel left after the head
      have hitems : ∀ x ∈ items, ∀ r, decode fuel (encode x ++ r) = .ok (x, r) :=
        fun x hx r => ih x r (Nat.le_trans (length_le_flatMap hx) hlen)
      rw [encode, List.append_assoc, decode_head _ _ _ (by decide), encodeList_eq]
      simp [decodeBody, decodeMany_flatMap items hitems]
    | map entries =>
      have hlen : (encodeEntries entries).length ≤ fuel := by
        simp only [encode, List.length_append] at hfuel
        have := head_length_pos 5 entries.length
        omega
      rw [encodeEntries_eq] at hlen
      have hentries : ∀ e ∈ entries, ∀ r,
          decodePair (decode fuel) (encode e.1 ++ encode e.2 ++ r) = .ok (e, r) := by
        intro e he r
        have he := Nat.le_trans (length_le_flatMap he) hlen
        rw [List.length_append] at he
        exact decodePair_append (fun r => ih e.1 r (by omega)) (fun r => ih e.2 r (by omega)) r
      rw [encode, List.append_assoc, decode_head _ _ _ (by decide), encodeEntries_eq]
      simp [decodeBody, decodeMany_flatMap entries hentries]
    | bool b => cases b <;> rfl
    | null => rfl

/-- The array `[500, true]` of RFC 8949 Appendix A's style: a one-byte head for two
elements, a two-byte argument for 500. -/
example : encode (.array [.unsigned 500, .bool true]) = [0x82, 0x19, 0x01, 0xf4, 0xf5] := by
  decide

/-- An encoded item reads back as itself, leaving what follows it. -/
theorem decodeItem_encode (v : Item) (rest : List UInt8) :
    decodeItem (encode v ++ rest) = .ok (v, rest) :=
  decode_encode _ v rest (by simp only [List.length_append]; omega)

theorem encode_injective : Function.Injective encode := by
  intro v w h
  have hv := decodeItem_encode v []
  rw [h, decodeItem_encode w []] at hv
  cases hv
  rfl

end RoundTrip

/-! ## Items cut short

A strict prefix of an encoding decodes to `truncated`, wherever it stops: in the argument
bytes of a head, in a string, or in an element of an array or a map. -/

section Truncated

open Framing

theorem readBe_short (k acc : Nat) (bytes : List UInt8) (hlen : bytes.length < k) :
    readBe k acc bytes = .error .truncated := by
  induction k generalizing acc bytes with
  | zero => omega
  | succ k ih =>
    cases bytes with
    | nil => rfl
    | cons b bytes =>
      rw [readBe]
      exact ih _ _ (by simpa using hlen)

theorem readUnary_zeros (j acc : Nat) :
    readUnary acc (List.replicate j 0) = .error .truncated := by
  induction j generalizing acc with
  | zero => rfl
  | succ j ih => rw [List.replicate_succ, readUnary, if_pos rfl, ih]

/-- The three shapes of the bytes after an initial byte: none, big-endian bytes that
`readArg` reads with `readBe`, or the excess over `2 ^ 64` in unary. -/
theorem argBytes_cases (n : Nat) :
    argBytes n = (n, []) ∨
      (∃ k, (argBytes n).2 = beBytes k n ∧
        ∀ bytes, readArg (argBytes n).1 bytes = readBe k 0 bytes) ∨
      (2 ^ 64 ≤ n ∧ argBytes n = (28, List.replicate (n - 2 ^ 64) 0 ++ [1])) := by
  by_cases h0 : n < 24
  · rw [argBytes, if_pos h0]
    exact .inl rfl
  by_cases h1 : n < 2 ^ 8
  · rw [argBytes, if_neg h0, if_pos h1]
    exact .inr (.inl ⟨1, rfl, fun _ => rfl⟩)
  by_cases h2 : n < 2 ^ 16
  · rw [argBytes, if_neg h0, if_neg h1, if_pos h2]
    exact .inr (.inl ⟨2, rfl, fun _ => rfl⟩)
  by_cases h4 : n < 2 ^ 32
  · rw [argBytes, if_neg h0, if_neg h1, if_neg h2, if_pos h4]
    exact .inr (.inl ⟨4, rfl, fun _ => rfl⟩)
  by_cases h8 : n < 2 ^ 64
  · rw [argBytes, if_neg h0, if_neg h1, if_neg h2, if_neg h4, if_pos h8]
    exact .inr (.inl ⟨8, rfl, fun _ => rfl⟩)
  · rw [argBytes, if_neg h0, if_neg h1, if_neg h2, if_neg h4, if_neg h8]
    exact .inr (.inr ⟨by omega, rfl⟩)

/-- A head cut inside its argument bytes is `truncated`. -/
theorem readArg_strictPrefix (n : Nat) (p : List UInt8) (hp : StrictPrefix p (argBytes n).2) :
    readArg (argBytes n).1 p = .error .truncated := by
  rcases argBytes_cases n with h | ⟨k, hbytes, hread⟩ | ⟨-, h⟩
  · rw [h] at hp
    exact absurd hp (not_strictPrefix_nil p)
  · rw [hread]
    apply readBe_short
    simpa [hbytes] using hp.length_lt
  · -- a strict prefix of the unary excess holds only its zeros
    rw [h] at hp ⊢
    obtain ⟨r, hr, hpr⟩ := hp
    have hlen : p.length ≤ (List.replicate (n - 2 ^ 64) (0 : UInt8)).length := by
      have hsum := congrArg List.length hpr
      have := List.length_pos_of_ne_nil hr
      simp only [List.length_append, List.length_replicate, List.length_singleton] at hsum ⊢
      omega
    have hzeros' : p <+: List.replicate (n - 2 ^ 64) 0 :=
      List.prefix_of_prefix_length_le ⟨r, hpr⟩ (List.prefix_append _ _) hlen
    have hzeros : p = List.replicate p.length 0 :=
      List.eq_replicate_iff.mpr ⟨rfl, fun b hb => List.eq_of_mem_replicate (hzeros'.subset hb)⟩
    rw [readArg_unary, hzeros, readUnary_zeros]

theorem takeBytes_short (n : Nat) (bytes : List UInt8) (hlen : bytes.length < n) :
    takeBytes n bytes = .error .truncated := by
  rw [takeBytes, if_neg (by omega)]

/-- A counted run cut inside one of its items is `truncated`, when each item reads back
whole and is `truncated` when cut, within the bytes at hand. -/
theorem decodeMany_strictPrefix {α : Type}
    {item : List UInt8 → Except Failure (α × List UInt8)} {enc : α → List UInt8}
    {bound : Nat} (xs : List α)
    (hcomplete : ∀ x ∈ xs, ∀ rest, (enc x).length ≤ bound →
      item (enc x ++ rest) = .ok (x, rest))
    (htrunc : ∀ x ∈ xs, ∀ p, StrictPrefix p (enc x) → p.length ≤ bound →
      item p = .error .truncated) :
    ∀ c, StrictPrefix c (xs.flatMap enc) → c.length ≤ bound →
      decodeMany item xs.length c = .error .truncated := by
  induction xs with
  | nil => intro c hc; exact absurd hc (not_strictPrefix_nil c)
  | cons x xs ih =>
    intro c hc hlen
    rw [List.flatMap_cons] at hc
    rcases hc.append_cases with hx | ⟨c', rfl, hc'⟩
    · -- cut inside the first item
      rw [List.length_cons, decodeMany, htrunc x List.mem_cons_self c hx hlen]
      rfl
    · -- the first item is whole; the cut is further on
      rw [List.length_append] at hlen
      have hx := hcomplete x List.mem_cons_self c' (by omega)
      have hrest := ih (fun y hy => hcomplete y (List.mem_cons_of_mem x hy))
        (fun y hy => htrunc y (List.mem_cons_of_mem x hy)) c' hc' (by omega)
      simp only [List.length_cons, decodeMany, hx, Except.ok_bind, hrest]
      rfl

/-- A key and a value cut short is `truncated`. -/
theorem decodePair_strictPrefix {α : Type}
    {item : List UInt8 → Except Failure (α × List UInt8)} {enc : α → List UInt8} {k v : α}
    {bound : Nat}
    (hk : ∀ rest, (enc k).length ≤ bound → item (enc k ++ rest) = .ok (k, rest))
    (htk : ∀ p, StrictPrefix p (enc k) → p.length ≤ bound → item p = .error .truncated)
    (htv : ∀ p, StrictPrefix p (enc v) → p.length ≤ bound → item p = .error .truncated)
    (c : List UInt8) (hc : StrictPrefix c (enc k ++ enc v)) (hlen : c.length ≤ bound) :
    decodePair item c = .error .truncated := by
  rcases hc.append_cases with hck | ⟨c', rfl, hcv⟩
  · rw [decodePair, htk c hck hlen]
    rfl
  · rw [List.length_append] at hlen
    simp only [decodePair, hk c' (by omega), Except.ok_bind, htv c' hcv (by omega)]
    rfl

/-- An item of major type below 7 cut short is `truncated` when its contents, cut short,
are. -/
theorem decode_head_strictPrefix (fuel major n : Nat) (hmajor : major < 7) (body p : List UInt8)
    (hp : StrictPrefix p (head major n ++ body))
    (hbody : ∀ c, StrictPrefix c body → c.length < p.length →
      decodeBody (decode fuel) major n c = .error .truncated) :
    decode (fuel + 1) p = .error .truncated := by
  cases p with
  | nil => rfl
  | cons b p =>
    obtain ⟨r, hr, hpr⟩ := hp
    rw [head, List.cons_append, List.cons_append, List.cons.injEq] at hpr
    obtain ⟨rfl, hpr⟩ := hpr
    rw [decode_initial fuel major n hmajor]
    rcases StrictPrefix.append_cases ⟨r, hr, hpr⟩ with hp | ⟨c, rfl, hc⟩
    · rw [readArg_strictPrefix n p hp]
      rfl
    · rw [readArg_argBytes, Except.ok_bind]
      exact hbody c hc (by simp only [List.length_cons, List.length_append]; omega)

/-- A strict prefix of an encoding, with more fuel than it has bytes, is `truncated`. The
induction is on the fuel, as for `decode_encode`: an element cut short is shorter than the
whole prefix, and an element before the cut is whole within it. -/
theorem decode_strictPrefix (fuel : Nat) (v : Item) (p : List UInt8)
    (hp : StrictPrefix p (encode v)) (hfuel : p.length < fuel) :
    decode fuel p = .error .truncated := by
  induction fuel generalizing v p with
  | zero => omega
  | succ fuel ih =>
    -- the simple values are one byte, so only the empty input cuts them
    have hsimple : ∀ x, StrictPrefix p [x] → decode (fuel + 1) p = .error .truncated := by
      intro x hx
      have hnil : p = [] := List.eq_nil_of_length_eq_zero (by simpa using hx.length_lt)
      rw [hnil]
      rfl
    cases v with
    | unsigned n =>
      exact decode_head_strictPrefix fuel 0 n.toNat (by decide) [] p
        (by rw [List.append_nil]; exact hp) fun c hc => absurd hc (not_strictPrefix_nil c)
    | negative n =>
      exact decode_head_strictPrefix fuel 1 n.toNat (by decide) [] p
        (by rw [List.append_nil]; exact hp) fun c hc => absurd hc (not_strictPrefix_nil c)
    | bytes bs =>
      refine decode_head_strictPrefix fuel 2 bs.length (by decide) bs p hp fun c hc _ => ?_
      rw [decodeBody, takeBytes_short _ _ hc.length_lt]
      rfl
    | text s =>
      refine decode_head_strictPrefix fuel 3 (textBytes s).length (by decide) _ p hp
        fun c hc _ => ?_
      rw [decodeBody, takeBytes_short _ _ hc.length_lt]
      rfl
    | array items =>
      refine decode_head_strictPrefix fuel 4 items.length (by decide) _ p hp fun c hc hlen => ?_
      rw [encodeList_eq] at hc
      rw [decodeBody, @decodeMany_strictPrefix _ _ _ c.length items
        (fun x _ rest hx => decode_encode fuel x rest (by omega))
        (fun x _ q hq hqlen => ih x q hq (by omega)) c hc le_rfl]
      rfl
    | map entries =>
      refine decode_head_strictPrefix fuel 5 entries.length (by decide) _ p hp
        fun c hc hlen => ?_
      rw [encodeEntries_eq] at hc
      have hcomplete : ∀ (x : Item) (rest : List UInt8), (encode x).length ≤ c.length →
          decode fuel (encode x ++ rest) = .ok (x, rest) :=
        fun x rest hx => decode_encode fuel x rest (by omega)
      have htrunc : ∀ (x : Item) (q : List UInt8), StrictPrefix q (encode x) →
          q.length ≤ c.length → decode fuel q = .error .truncated :=
        fun x q hq hqlen => ih x q hq (by omega)
      rw [decodeBody, @decodeMany_strictPrefix _ _ _ c.length entries
        (fun e _ rest he => decodePair_append (fun r => hcomplete e.1 r (by simp at he; omega))
          (fun r => hcomplete e.2 r (by simp at he; omega)) rest)
        (fun e _ q hq hqlen => decodePair_strictPrefix (fun r hr => hcomplete e.1 r hr)
          (htrunc e.1) (htrunc e.2) q hq hqlen) c hc le_rfl]
      rfl
    | bool b => cases b <;> exact hsimple _ hp
    | null => exact hsimple _ hp

theorem decodeItem_strictPrefix (v : Item) (p : List UInt8) (hp : StrictPrefix p (encode v)) :
    decodeItem p = .error .truncated :=
  decode_strictPrefix _ v p hp (Nat.lt_succ_self _)

end Truncated

end Cbor
