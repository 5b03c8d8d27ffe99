import P2panda.Core.Identity

/- The operation header (`p2panda-core/src/operation.rs`) and its CBOR serde
   implementation (`serde.rs`).

   A header is encoded as one CBOR array. `Header.serialize` follows `impl Serialize for
   Header<E>`: the mandatory fields in order, and each of the four `Option` fields
   (signature, payload hash, backlink, extensions) only when it is `Some`, so the array
   has `field_count` elements. `visitSeq` follows `HeaderVisitor::visit_seq`: it reads
   the payload hash only when the payload size is not zero and the backlink only when the
   sequence number is not zero, always demands a signature, and takes the extensions if
   an element is left. Each error is the one the visitor raises, with its message.

   What the header code takes from outside this repository is collected in
   `Primitives`: ciborium's byte encoding and decoding of one data item, BLAKE3,
   `ed25519_dalek`'s key decompression, signing and strict verification. The type of
   extensions brings its own serde implementation (`Extensions`). `Header.toBytes`,
   `Header.hash`, `Header.sign` and `Header.verify` are then the methods of the same
   names, and `decodeCbor` is `decode_cbor::<Header<E>>`. -/
namespace P2panda

open Cbor

/-- The `std::io::ErrorKind` of an I/O error, as far as decoding distinguishes it. -/
inductive IoErrorKind where
  | unexpectedEof
  | other
  deriving DecidableEq, Repr

/-- `DecodeError` (`cbor.rs`), the image of ciborium's decoding error. -/
inductive DecodeError where
  | io (kind : IoErrorKind)
  | syntaxAt (offset : Nat)
  | semantic (msg : Cbor.Error)
  | recursionLimitExceeded
  deriving DecidableEq, Repr

/-- An Ed25519 private key, by its 32 secret bytes. -/
structure PrivateKey where
  bytes : List UInt8
  length_eq : bytes.length = 32

theorem PrivateKey.bytes_injective : Function.Injective PrivateKey.bytes := by
  rintro ⟨a, ha⟩ ⟨b, hb⟩ h
  cases h
  rfl

instance : DecidableEq PrivateKey := fun a b =>
  decidable_of_iff _ PrivateKey.bytes_injective.eq_iff

/-- The code the header methods call outside this repository. -/
structure Primitives where
  /-- `ciborium::ser::into_writer` of one data item. -/
  encodeItem : Item → List UInt8
  /-- `ciborium::de::from_reader` of one data item, with the bytes it leaves unread. -/
  decodeItem : List UInt8 → Except DecodeError (Item × List UInt8)
  /-- `blake3::hash`. -/
  blake3 : List UInt8 → Hash
  /-- `VerifyingKey::from_bytes` on 32 bytes, with the text of its error. -/
  keyFromBytes : List UInt8 → Except String PublicKey
  /-- `SigningKey::verifying_key`. -/
  publicKeyOf : PrivateKey → PublicKey
  /-- `SigningKey::sign`. -/
  signBytes : PrivateKey → List UInt8 → Signature
  /-- `VerifyingKey::verify_strict(..).is_ok()`. -/
  verifyStrict : PublicKey → List UInt8 → Signature → Bool

/-- `trait Extensions`: the serde implementation of a header's extensions type. -/
class Extensions (E : Type) where
  serialize : E → Item
  deserialize : Item → Except Cbor.Error E

/-- `()` as the extensions: serde writes the unit value as `null` and reads it back only
from `null`. -/
instance : Extensions Unit where
  serialize _ := .null
  deserialize
    | .null => .ok ()
    | _ => .error (.invalidType "unit")

/-- `Header<E>`. -/
structure Header (E : Type) where
  version : UInt64
  publicKey : PublicKey
  signature : Option Signature
  payloadSize : UInt64
  payloadHash : Option Hash
  timestamp : UInt64
  seqNum : UInt64
  backlink : Option Hash
  previous : List Hash
  extensions : Option E
  deriving DecidableEq

variable {E : Type}

/-- `Header::field_count`: six fields always, and each `Option` field that is `Some`. -/
def Header.fieldCount (h : Header E) : Nat :=
  6 + (if h.signature.isSome then 1 else 0) + (if h.payloadHash.isSome then 1 else 0) +
    (if h.backlink.isSome then 1 else 0) + (if h.extensions.isSome then 1 else 0)

section Serde

variable [Extensions E]

/-- The elements `impl Serialize for Header<E>` writes, in order. -/
def Header.elements (h : Header E) : List Item :=
  [.unsigned h.version, h.publicKey.serialize] ++
    (h.signature.map Signature.serialize).toList ++
    [.unsigned h.payloadSize] ++ (h.payloadHash.map Hash.serialize).toList ++
    [.unsigned h.timestamp, .unsigned h.seqNum] ++ (h.backlink.map Hash.serialize).toList ++
    [.array (h.previous.map Hash.serialize)] ++ (h.extensions.map Extensions.serialize).toList

/-- `impl Serialize for Header<E>`: a sequence of `field_count` elements. -/
def Header.serialize (h : Header E) : Item := .array h.elements

/-- The visitor's `match payload_size`: no payload hash for size `0`, otherwise the next
element, which must be a hash. -/
def readPayloadHash (payloadSize : UInt64) : Reader (Option Hash) :=
  if payloadSize = 0 then pure none else do
    let hash ← nextRequired Hash.deserialize
      "invalid payload hash, expected bytes" "payload hash missing"
    pure (some hash)

/-- The visitor's `match seq_num`: no backlink for sequence number `0`, otherwise the next
element, which must be a hash. -/
def readBacklink (seqNum : UInt64) : Reader (Option Hash) :=
  if seqNum = 0 then pure none else do
    let hash ← nextWith Hash.deserialize "invalid backlink, expected bytes"
    match hash with
    | some hash => pure (some hash)
    | none => throw (.custom "backlink missing")

/-- `HeaderVisitor::visit_seq`, reading the elements of the array. -/
def visitSeq (keyFromBytes : List UInt8 → Except String PublicKey) : Reader (Header E) := do
  let version ← nextRequired u64 "invalid version, expected u64" "version missing"
  let publicKey ← nextRequired (PublicKey.deserialize keyFromBytes)
    "invalid public key, expected bytes" "public key missing"
  let signature ← nextRequired Signature.deserialize
    "invalid signature, expected bytes" "signature missing"
  let payloadSize ← nextRequired u64 "invalid payload size, expected u64" "payload size missing"
  let payloadHash ← readPayloadHash payloadSize
  let timestamp ← nextRequired u64 "invalid timestamp, expected u64" "timestamp missing"
  let seqNum ← nextRequired u64 "invalid sequence number, expected u64"
    "sequence number missing"
  let backlink ← readBacklink seqNum
  let previous ← nextRequired (vec Hash.deserialize)
    "invalid previous links, expected array" "previous array missing"
  let extensions ← nextWith Extensions.deserialize "invalid extensions:"
  pure { version, publicKey, signature := some signature, payloadSize, payloadHash, timestamp,
         seqNum, backlink, previous, extensions }

/-- `impl Deserialize for Header<E>`: `deserialize_seq` with the visitor; elements the
visitor leaves are not read. -/
def Header.deserialize (keyFromBytes : List UInt8 → Except String PublicKey) :
    Item → Except Cbor.Error (Header E)
  | .array items => Prod.fst <$> visitSeq keyFromBytes items
  | _ => .error (.invalidType "Header encoded as a sequence")

end Serde

/-! ## The methods that go through the byte encoding -/

/-- The header with its signature removed: the bytes signing and verifying cover. -/
def Header.unsigned (h : Header E) : Header E := { h with signature := none }

section Methods

variable (P : Primitives) [Extensions E]

/-- `decode_cbor::<Header<E>>`: one data item from the bytes, then its deserialization;
bytes after the item are not read. -/
def decodeCbor (bytes : List UInt8) : Except DecodeError (Header E) :=
  match P.decodeItem bytes with
  | .ok (item, _) =>
    match Header.deserialize P.keyFromBytes item with
    | .ok h => .ok h
    | .error e => .error (.semantic e)
  | .error e => .error e

/-- `Header::to_bytes`. -/
def Header.toBytes (h : Header E) : List UInt8 := P.encodeItem h.serialize

/-- `Header::hash`, the operation id. -/
def Header.hash (h : Header E) : Hash := P.blake3 (h.toBytes P)

/-- `Header::sign`: sign the encoding without a signature, then set the signature. -/
def Header.sign (sk : PrivateKey) (h : Header E) : Header E :=
  { h with signature := some (P.signBytes sk (h.unsigned.toBytes P)) }

/-- `Header::verify`. -/
def Header.verify (h : Header E) : Bool :=
  match h.signature with
  | some sig => P.verifyStrict h.publicKey (h.unsigned.toBytes P) sig
  | none => false

end Methods

end P2panda
