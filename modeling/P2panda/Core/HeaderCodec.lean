import P2panda.Core.Header
import P2panda.Lib.CborBytes

/- What the header encoding and the `HeaderVisitor` guarantee together.

   The encoder decides from the `Option` fields which elements to write; the visitor
   decides from `payload_size` and `seq_num` which elements to read, and always reads a
   signature. The two agree exactly on the well-formed headers (`Header.WellFormed`: a
   payload hash exactly when the payload size is not zero, a backlink exactly when the
   sequence number is not zero):

   1. `visitSeq_elements`: a signed, well-formed header reads back as itself.
   2. `visitSeq_elements_error`: any other header fails to read back. The first field out
      of place makes the visitor read an element of the wrong major type: a hash where
      an integer stands or the other way round, a hash where the `previous` array stands,
      or an integer where the signature should be.
   3. `visitSeq_ok`: whatever elements the visitor accepts, the header it returns is
      signed and well-formed.
   4. `Header.serialize_injective`: the encoding is injective on all headers. Each left-out
      field is a byte string followed by an integer or an array, so the major type of the
      element in its place says whether it was there (`Cbor.optional_cons_inj`).

   `decodeCbor_toBytes` and `toBytes_injective` carry 1 to 4 to bytes, under the two
   promises of ciborium that the code relies on (an encoded item decodes to itself, and
   distinct items encode to distinct bytes) and the round trip of the extensions' serde. -/
namespace P2panda

open Cbor

variable {E : Type}

/-- Payload hash exactly when the payload size is not zero, backlink exactly when the
sequence number is not zero. -/
def Header.WellFormed (h : Header E) : Prop :=
  (h.payloadHash.isSome ↔ h.payloadSize ≠ 0) ∧ (h.backlink.isSome ↔ h.seqNum ≠ 0)

instance (h : Header E) : Decidable h.WellFormed :=
  inferInstanceAs (Decidable ((_ ↔ _) ∧ (_ ↔ _)))

/-! ## A reference instance

The library's CBOR codec (`Cbor.encode`, `Cbor.decodeItem`) in place of ciborium, and
stand-ins for the cryptography: a polynomial "hash" of all the bytes, keys that are any
32 bytes, and a "signature" that repeats the key. Enough to evaluate the header functions
on concrete headers, and to instantiate the results above. -/

/-- The decoding errors of the library codec as `DecodeError`s; it does not track offsets. -/
def DecodeError.ofFailure : Cbor.Failure → DecodeError
  | .truncated => .io .unexpectedEof
  | .outOfFuel => .recursionLimitExceeded
  | _ => .syntaxAt 0

/-- The low 32 bytes of a polynomial in the bytes: distinct for the short inputs the
examples use, and nothing more. -/
def polyHash (bytes : List UInt8) : Hash :=
  ⟨Cbor.beBytes 32 (bytes.foldl (fun acc b => acc * 263 + b.toNat + 1) 0), Cbor.beBytes_length _ _⟩

def cborPrimitives : Primitives where
  encodeItem := Cbor.encode
  decodeItem bytes := (Cbor.decodeItem bytes).mapError DecodeError.ofFailure
  blake3 := polyHash
  keyFromBytes bytes :=
    if h : bytes.length = 32 then .ok ⟨bytes, h⟩ else .error "invalid key length"
  publicKeyOf sk := ⟨sk.bytes, sk.length_eq⟩
  signBytes sk _ := ⟨sk.bytes ++ sk.bytes, by simp [sk.length_eq]⟩
  verifyStrict pk _ sig := sig.bytes == pk.bytes ++ pk.bytes

theorem cborPrimitives_decodeItem_encodeItem (v : Item) :
    cborPrimitives.decodeItem (cborPrimitives.encodeItem v) = .ok (v, []) := by
  have hv := Cbor.decodeItem_encode v []
  rw [List.append_nil] at hv
  simp only [cborPrimitives, hv]
  rfl

theorem cborPrimitives_keyFromBytes (pk : PublicKey) :
    cborPrimitives.keyFromBytes pk.bytes = .ok pk := by
  simp [cborPrimitives, pk.length_eq]

theorem unit_deserialize_serialize (e : Unit) :
    Extensions.deserialize (Extensions.serialize e) = .ok e := rfl

/-- The private key of the sample headers. -/
def sampleKey : PrivateKey := ⟨List.replicate 32 7, rfl⟩

/-- A version 1 header by `sampleKey` without payload or previous links, signed with
`cborPrimitives`. -/
def sampleHeader [Extensions E] (seqNum timestamp : UInt64) (backlink : Option Hash)
    (extensions : Option E) : Header E :=
  Header.sign cborPrimitives sampleKey
    { version := 1, publicKey := cborPrimitives.publicKeyOf sampleKey, signature := none,
      payloadSize := 0, payloadHash := none, timestamp, seqNum, backlink, previous := [],
      extensions }

section Elements

variable [Extensions E]

/-- The elements, with each optional field in front of the element that follows it. -/
theorem Header.elements_eq (h : Header E) :
    h.elements = .unsigned h.version :: h.publicKey.serialize ::
      ((h.signature.map Signature.serialize).toList ++ .unsigned h.payloadSize ::
        ((h.payloadHash.map Hash.serialize).toList ++ .unsigned h.timestamp ::
          .unsigned h.seqNum ::
          ((h.backlink.map Hash.serialize).toList ++ .array (h.previous.map Hash.serialize) ::
            (h.extensions.map Extensions.serialize).toList))) := by
  simp [Header.elements]

/-! ## Injectivity -/

/-- Equal encodings are equal headers, signed or not, well-formed or not. -/
theorem Header.serialize_injective
    (hext : Function.Injective (Extensions.serialize : E → Item)) :
    Function.Injective (Header.serialize : Header E → Item) := by
  intro h₁ h₂ heq
  have helems : h₁.elements = h₂.elements := Item.array.inj heq
  rw [Header.elements_eq, Header.elements_eq] at helems
  obtain ⟨hv, helems⟩ := List.cons.inj helems
  obtain ⟨hpk, helems⟩ := List.cons.inj helems
  -- the element after each optional field is an integer or an array, never a byte string
  obtain ⟨hsig, hps, helems⟩ := optional_cons_inj Signature.serialize_injective
    Signature.isBytes_serialize rfl rfl helems
  obtain ⟨hph, hts, helems⟩ := optional_cons_inj Hash.serialize_injective
    Hash.isBytes_serialize rfl rfl helems
  obtain ⟨hsn, helems⟩ := List.cons.inj helems
  obtain ⟨hbl, hprev, hexts⟩ := optional_cons_inj Hash.serialize_injective
    Hash.isBytes_serialize rfl rfl helems
  have hprev' : h₁.previous = h₂.previous :=
    (List.map_injective_iff.mpr Hash.serialize_injective) (Item.array.inj hprev)
  have hext' : h₁.extensions = h₂.extensions := optional_toList_inj hext hexts
  cases h₁
  cases h₂
  simp only [Item.unsigned.injEq] at hv hps hts hsn
  simp only at hpk hsig hph hbl hprev' hext'
  rw [PublicKey.serialize_injective hpk]
  subst hv hps hts hsn hsig hph hbl hprev' hext'
  rfl

/-- `Header::to_bytes` is injective when ciborium's item encoding is. -/
theorem toBytes_injective (P : Primitives) (henc : Function.Injective P.encodeItem)
    (hext : Function.Injective (Extensions.serialize : E → Item)) :
    Function.Injective (Header.toBytes (E := E) P) := by
  intro h₁ h₂ heq
  exact Header.serialize_injective hext (henc heq)

theorem toBytes_injective_unit :
    Function.Injective (Header.toBytes (E := Unit) cborPrimitives) :=
  toBytes_injective cborPrimitives Cbor.encode_injective (fun _ _ _ => rfl)

/-! ## The visitor against the encoder -/

section Visitor

variable (kfb : List UInt8 → Except String PublicKey)

@[simp] theorem readPayloadHash_zero (items : List Item) :
    readPayloadHash 0 items = .ok (none, items) := rfl

@[simp] theorem readBacklink_zero (items : List Item) :
    readBacklink 0 items = .ok (none, items) := rfl

theorem readPayloadHash_ok {ps : UInt64} {items rest : List Item} {o : Option Hash}
    (h : readPayloadHash ps items = .ok (o, rest)) : (o.isSome ↔ ps ≠ 0) := by
  by_cases hps : ps = 0
  · subst hps
    simp only [readPayloadHash_zero, Except.ok.injEq, Prod.mk.injEq] at h
    simp [← h.1]
  · simp only [readPayloadHash, hps, if_false] at h
    obtain ⟨hash, mid, -, h⟩ := bind_ok h
    simp only [run_pure, Except.ok.injEq, Prod.mk.injEq] at h
    simp [← h.1, hps]

theorem readBacklink_ok {sn : UInt64} {items rest : List Item} {o : Option Hash}
    (h : readBacklink sn items = .ok (o, rest)) : (o.isSome ↔ sn ≠ 0) := by
  by_cases hsn : sn = 0
  · subst hsn
    simp only [readBacklink_zero, Except.ok.injEq, Prod.mk.injEq] at h
    simp [← h.1]
  · simp only [readBacklink, hsn, if_false] at h
    obtain ⟨hash, mid, -, h⟩ := bind_ok h
    cases hash with
    | none => cases h
    | some hash =>
      simp only [run_pure, Except.ok.injEq, Prod.mk.injEq] at h
      simp [← h.1, hsn]

/-- A payload hash in its place reads back when its presence matches the size. -/
theorem readPayloadHash_elements {ps : UInt64} {ph : Option Hash}
    (hph : ph.isSome ↔ ps ≠ 0) (rest : List Item) :
    readPayloadHash ps ((ph.map Hash.serialize).toList ++ rest) = .ok (ph, rest) := by
  cases ph with
  | none =>
    have hps : ps = 0 := by simpa using hph
    subst hps
    rfl
  | some ph =>
    have hps : ps ≠ 0 := by simpa using hph
    simp [readPayloadHash, hps]

/-- A backlink in its place reads back when its presence matches the sequence number. -/
theorem readBacklink_elements {sn : UInt64} {bl : Option Hash}
    (hbl : bl.isSome ↔ sn ≠ 0) (rest : List Item) :
    readBacklink sn ((bl.map Hash.serialize).toList ++ rest) = .ok (bl, rest) := by
  cases bl with
  | none =>
    have hsn : sn = 0 := by simpa using hbl
    subst hsn
    rfl
  | some bl =>
    have hsn : sn ≠ 0 := by simpa using hbl
    simp [readBacklink, hsn]

/-- The trailing extensions read back, present or not. -/
theorem nextWith_extensions (hext : ∀ e : E, Extensions.deserialize (Extensions.serialize e) = .ok e)
    (msg : String) (ext : Option E) :
    nextWith Extensions.deserialize msg ((ext.map Extensions.serialize).toList) =
      .ok (ext, []) := by
  cases ext with
  | none => rfl
  | some e => simp [hext]

/-- A signed, well-formed header reads back as itself, with no element left over. -/
theorem visitSeq_elements (hext : ∀ e : E, Extensions.deserialize (Extensions.serialize e) = .ok e)
    (h : Header E) (hkey : kfb h.publicKey.bytes = .ok h.publicKey) (hsig : h.signature.isSome)
    (hwf : h.WellFormed) : visitSeq kfb h.elements = .ok (h, []) := by
  obtain ⟨v, pk, sig, ps, ph, ts, sn, bl, prev, ext⟩ := h
  obtain ⟨hph, hbl⟩ := hwf
  cases sig with
  | none => cases hsig
  | some sig =>
    have hprev := vec_array_map Hash.deserialize Hash.deserialize_serialize prev
    have hpk := PublicKey.deserialize_serialize pk hkey
    simp only [visitSeq, Header.elements_eq, run_bind, run_pure, nextRequired_cons,
      u64_unsigned, hpk, Option.map_some, Option.toList_some, List.cons_append,
      List.nil_append, Signature.deserialize_serialize, readPayloadHash_elements hph,
      readBacklink_elements hbl, hprev, nextWith_extensions hext]

/-- A header that is unsigned or not well-formed does not read back: the visitor fails. -/
theorem visitSeq_elements_error (h : Header E) (hkey : kfb h.publicKey.bytes = .ok h.publicKey)
    (hbad : ¬ (h.signature.isSome ∧ h.WellFormed)) :
    ∃ e, visitSeq (E := E) kfb h.elements = .error e := by
  obtain ⟨v, pk, sig, ps, ph, ts, sn, bl, prev, ext⟩ := h
  have hpk := PublicKey.deserialize_serialize pk hkey
  cases sig with
  | none =>
    -- the payload size stands where the signature should
    simp only [visitSeq, Header.elements_eq, run_bind, nextRequired_cons, u64_unsigned, hpk,
      Signature.deserialize_unsigned, Option.map_none, Option.toList_none, List.nil_append,
      Except.error.injEq, exists_eq']
  | some sig =>
    simp only [Option.isSome_some, true_and, Header.WellFormed, not_and_or] at hbad
    by_cases hph : ph.isSome ↔ ps ≠ 0
    · -- the payload part reads back, so the backlink is out of place
      have hbl : ¬ (bl.isSome ↔ sn ≠ 0) := hbad.resolve_left (not_not.mpr hph)
      cases bl with
      | none =>
        -- the `previous` array stands where the backlink should
        have hsn : sn ≠ 0 := by simpa using hbl
        simp only [visitSeq, readBacklink, Header.elements_eq, run_bind,
          nextRequired_cons, nextWith_cons, u64_unsigned, hpk, Option.map_some,
          Option.toList_some, Option.map_none, Option.toList_none, List.cons_append,
          List.nil_append, Signature.deserialize_serialize, readPayloadHash_elements hph,
          Hash.deserialize_array, hsn, if_false, Except.error.injEq, exists_eq']
      | some bl =>
        -- the backlink stands where the `previous` array should
        have hsn : sn = 0 := by simpa using hbl
        simp only [visitSeq, Header.elements_eq, run_bind, nextRequired_cons,
          u64_unsigned, hpk, Option.map_some, Option.toList_some, List.cons_append,
          List.nil_append, Signature.deserialize_serialize, readPayloadHash_elements hph,
          hsn, readBacklink_zero, Hash.serialize, vec_bytes, Except.error.injEq, exists_eq']
    · cases ph with
      | none =>
        -- the timestamp stands where the payload hash should
        have hps : ps ≠ 0 := by simpa using hph
        simp only [visitSeq, readPayloadHash, Header.elements_eq, run_bind,
          nextRequired_cons, u64_unsigned, hpk, Signature.deserialize_serialize,
          Hash.deserialize_unsigned, hps, if_false, Option.map_some, Option.toList_some,
          Option.map_none, Option.toList_none, List.cons_append, List.nil_append,
          Except.error.injEq, exists_eq']
      | some ph =>
        -- the payload hash stands where the timestamp should
        have hps : ps = 0 := by simpa using hph
        simp only [visitSeq, Header.elements_eq, run_bind, nextRequired_cons,
          u64_unsigned, u64_bytes, hpk, Signature.deserialize_serialize, hps,
          readPayloadHash_zero, Option.map_some, Option.toList_some, List.cons_append,
          List.nil_append, Hash.serialize, Except.error.injEq, exists_eq']

/-- Whatever the visitor accepts is a signed, well-formed header. -/
theorem visitSeq_ok {items rest : List Item} {h : Header E}
    (hv : visitSeq kfb items = .ok (h, rest)) : h.signature.isSome ∧ h.WellFormed := by
  simp only [visitSeq] at hv
  obtain ⟨version, s1, -, hv⟩ := bind_ok hv
  obtain ⟨publicKey, s2, -, hv⟩ := bind_ok hv
  obtain ⟨signature, s3, -, hv⟩ := bind_ok hv
  obtain ⟨payloadSize, s4, -, hv⟩ := bind_ok hv
  obtain ⟨payloadHash, s5, hph, hv⟩ := bind_ok hv
  obtain ⟨timestamp, s6, -, hv⟩ := bind_ok hv
  obtain ⟨seqNum, s7, -, hv⟩ := bind_ok hv
  obtain ⟨backlink, s8, hbl, hv⟩ := bind_ok hv
  obtain ⟨previous, s9, -, hv⟩ := bind_ok hv
  obtain ⟨extensions, s10, -, hv⟩ := bind_ok hv
  simp only [run_pure, Except.ok.injEq, Prod.mk.injEq] at hv
  obtain ⟨rfl, -⟩ := hv
  exact ⟨rfl, readPayloadHash_ok hph, readBacklink_ok hbl⟩

end Visitor

/-! ## Through the bytes -/

section Bytes

variable (P : Primitives)

/-- What `Header::deserialize` accepts, the visitor accepted. -/
theorem Header.deserialize_ok {kfb : List UInt8 → Except String PublicKey} {item : Item}
    {h : Header E} (hd : Header.deserialize kfb item = .ok h) :
    ∃ items rest, visitSeq kfb items = .ok (h, rest) := by
  cases item with
  | array items =>
    simp only [Header.deserialize] at hd
    cases hv : visitSeq (E := E) kfb items with
    | error e => rw [hv] at hd; cases hd
    | ok r =>
      rw [hv] at hd
      cases hd
      exact ⟨items, r.2, hv⟩
  | _ => cases hd

/-- Whatever `decode_cbor` accepts, from any bytes, is a signed, well-formed header. -/
theorem decodeCbor_ok {bytes : List UInt8} {h : Header E} (hd : decodeCbor P bytes = .ok h) :
    h.signature.isSome ∧ h.WellFormed := by
  unfold decodeCbor at hd
  split at hd
  · split at hd
    · next hdes =>
      cases hd
      obtain ⟨items, rest, hv⟩ := Header.deserialize_ok hdes
      exact visitSeq_ok P.keyFromBytes hv
    · cases hd
  · cases hd

/-- When ciborium reads back the item it wrote, decoding a header's bytes is running the
visitor on its elements. -/
theorem decodeCbor_toBytes_eq (hitem : ∀ v, P.decodeItem (P.encodeItem v) = .ok (v, []))
    (h : Header E) :
    decodeCbor P (h.toBytes P) =
      match visitSeq (E := E) P.keyFromBytes h.elements with
      | .ok (h', _) => .ok h'
      | .error e => .error (.semantic e) := by
  simp only [decodeCbor, Header.toBytes, hitem, Header.serialize, Header.deserialize]
  cases visitSeq (E := E) P.keyFromBytes h.elements <;> rfl

theorem decodeCbor_toBytes (hitem : ∀ v, P.decodeItem (P.encodeItem v) = .ok (v, []))
    (hext : ∀ e : E, Extensions.deserialize (Extensions.serialize e) = .ok e) :
    (∀ h : Header E, P.keyFromBytes h.publicKey.bytes = .ok h.publicKey →
      (h.signature.isSome ∧ h.WellFormed → decodeCbor P (h.toBytes P) = .ok h) ∧
      (¬ (h.signature.isSome ∧ h.WellFormed) →
        ∃ e, decodeCbor (E := E) P (h.toBytes P) = .error e)) ∧
    (∀ (bytes : List UInt8) (h : Header E), decodeCbor P bytes = .ok h →
      h.signature.isSome ∧ h.WellFormed) := by
  refine ⟨fun h hkey => ⟨fun ⟨hsig, hwf⟩ => ?_, fun hbad => ?_⟩, fun _ _ hd => decodeCbor_ok P hd⟩
  · rw [decodeCbor_toBytes_eq P hitem, visitSeq_elements _ hext h hkey hsig hwf]
  · obtain ⟨e, he⟩ := visitSeq_elements_error P.keyFromBytes h hkey hbad
    rw [decodeCbor_toBytes_eq P hitem, he]
    exact ⟨_, rfl⟩

theorem decodeCbor_toBytes_unit :
    (∀ h : Header Unit, cborPrimitives.keyFromBytes h.publicKey.bytes = .ok h.publicKey →
      (h.signature.isSome ∧ h.WellFormed →
        decodeCbor cborPrimitives (h.toBytes cborPrimitives) = .ok h) ∧
      (¬ (h.signature.isSome ∧ h.WellFormed) →
        ∃ e, decodeCbor (E := Unit) cborPrimitives (h.toBytes cborPrimitives) = .error e)) ∧
    (∀ (bytes : List UInt8) (h : Header Unit), decodeCbor cborPrimitives bytes = .ok h →
      h.signature.isSome ∧ h.WellFormed) :=
  decodeCbor_toBytes cborPrimitives cborPrimitives_decodeItem_encodeItem unit_deserialize_serialize

end Bytes

end Elements

end P2panda
