import P2panda.Lib.Order
import P2panda.Lib.Serde
import P2panda.Lib.Text

/- Hashes, public keys and signatures (`p2panda-core/src/hash.rs`, `identity.rs`), and
   their serde implementations (`serde.rs`).

   Each of the three is a fixed number of bytes: a BLAKE3 hash 32, an Ed25519 public
   key 32 and a signature 64. The structures carry the length as a field, so a value of
   the wrong width cannot be built. Comparing hashes compares their bytes
   lexicographically, as `Ord for Hash` does.

   With a binary format (CBOR) all three serialize as a byte string (`serialize_hex`)
   and deserialize from one (`deserialize_hex`), followed by the width check of
   `TryFrom<&[u8]>`. For a public key `TryFrom` then asks `ed25519_dalek` to
   decompress the point; that check is outside this repository and is the parameter
   `keyFromBytes` of `PublicKey.deserialize`.

   As text (`to_hex`, `FromStr`) each is lowercase hex; reading it back goes through the
   same width checks (`Hash.fromStr_toHex` and the like). -/
namespace P2panda

open Cbor

/-- A 32-byte BLAKE3 hash. -/
structure Hash where
  bytes : List UInt8
  length_eq : bytes.length = 32
  deriving DecidableEq

/-- An Ed25519 public key (`VerifyingKey`), by its 32 compressed bytes. -/
structure PublicKey where
  bytes : List UInt8
  length_eq : bytes.length = 32
  deriving DecidableEq

/-- An Ed25519 signature: `r` and `s`, 64 bytes together. -/
structure Signature where
  bytes : List UInt8
  length_eq : bytes.length = 64
  deriving DecidableEq

instance : Hashable Hash := ⟨fun h => hash h.bytes⟩

instance : Hashable PublicKey := ⟨fun pk => hash pk.bytes⟩

theorem Hash.bytes_injective : Function.Injective Hash.bytes := by
  rintro ⟨a, ha⟩ ⟨b, hb⟩ h
  cases h
  rfl

theorem PublicKey.bytes_injective : Function.Injective PublicKey.bytes := by
  rintro ⟨a, ha⟩ ⟨b, hb⟩ h
  cases h
  rfl

theorem Signature.bytes_injective : Function.Injective Signature.bytes := by
  rintro ⟨a, ha⟩ ⟨b, hb⟩ h
  cases h
  rfl

/-- `Ord for Hash`: the bytes, lexicographically. -/
instance : LinearOrder Hash := LinearOrder.lift' Hash.bytes Hash.bytes_injective

/-! ## Errors -/

/-- `HashError` (`hash.rs`). -/
inductive HashError where
  | invalidLength (len expected : Nat)
  | invalidHexEncoding
  deriving DecidableEq, Repr

/-- The `Display` of `HashError`. -/
def HashError.toString : HashError → String
  | .invalidLength len expected =>
    "invalid hash length " ++ Nat.repr len ++ " bytes, expected " ++ Nat.repr expected ++
      " bytes"
  | .invalidHexEncoding => "invalid hex encoding in hash string"

/-- `IdentityError` (`identity.rs`); `invalidSignature` carries `ed25519_dalek`'s text. -/
inductive IdentityError where
  | invalidLength (len expected : Nat)
  | invalidHexEncoding
  | invalidSignature (cause : String)
  deriving DecidableEq, Repr

/-- The `Display` of `IdentityError`. -/
def IdentityError.toString : IdentityError → String
  | .invalidLength len expected =>
    "invalid bytes length of " ++ Nat.repr len ++ ", expected " ++ Nat.repr expected ++
      " bytes"
  | .invalidHexEncoding => "invalid hex encoding in string"
  | .invalidSignature cause => "invalid signature: " ++ cause

/-! ## From bytes -/

/-- `TryFrom<&[u8]> for Hash`. -/
def Hash.tryFrom (bs : List UInt8) : Except HashError Hash :=
  if h : bs.length = 32 then .ok ⟨bs, h⟩ else .error (.invalidLength bs.length 32)

/-- `TryFrom<&[u8]> for Signature`: the width check, then the infallible `from_bytes`. -/
def Signature.tryFrom (bs : List UInt8) : Except IdentityError Signature :=
  if h : bs.length = 64 then .ok ⟨bs, h⟩ else .error (.invalidLength bs.length 64)

/-- `TryFrom<&[u8]> for PublicKey`: the width check, then `PublicKey::from_bytes`, which is
`ed25519_dalek`'s decompression `keyFromBytes` with its error wrapped. -/
def PublicKey.tryFrom (keyFromBytes : List UInt8 → Except String PublicKey)
    (bs : List UInt8) : Except IdentityError PublicKey :=
  if bs.length = 32 then
    match keyFromBytes bs with
    | .ok pk => .ok pk
    | .error cause => .error (.invalidSignature cause)
  else .error (.invalidLength bs.length 32)

/-! ## Hex strings

`to_hex` writes the bytes as lowercase hex; `FromStr` decodes hex and then applies
`TryFrom<&[u8]>`, a hex error becoming the type's `InvalidHexEncoding`. -/

/-- The `FromStr` of the three: decode the hex, then the width check `tryFrom`. -/
def fromHexWith {ε α : Type} (tryFrom : List UInt8 → Except ε α) (hexError : ε)
    (s : List Char) : Except ε α :=
  match Hex.decode s with
  | .ok bs => tryFrom bs
  | .error _ => .error hexError

theorem fromHexWith_encode {ε α : Type} (tryFrom : List UInt8 → Except ε α) (hexError : ε)
    (bs : List UInt8) : fromHexWith tryFrom hexError (Hex.encode bs) = tryFrom bs := by
  rw [fromHexWith, Hex.decode_encode]

/-- `Hash::to_hex`. -/
def Hash.toHex (h : Hash) : List Char := Hex.encode h.bytes

/-- `PublicKey::to_hex`. -/
def PublicKey.toHex (pk : PublicKey) : List Char := Hex.encode pk.bytes

/-- `Signature::to_hex`. -/
def Signature.toHex (sig : Signature) : List Char := Hex.encode sig.bytes

/-- `FromStr for Hash`. -/
def Hash.fromStr (s : List Char) : Except HashError Hash :=
  fromHexWith Hash.tryFrom .invalidHexEncoding s

/-- `FromStr for PublicKey`. -/
def PublicKey.fromStr (keyFromBytes : List UInt8 → Except String PublicKey) (s : List Char) :
    Except IdentityError PublicKey :=
  fromHexWith (PublicKey.tryFrom keyFromBytes) .invalidHexEncoding s

/-- `FromStr for Signature`. -/
def Signature.fromStr (s : List Char) : Except IdentityError Signature :=
  fromHexWith Signature.tryFrom .invalidHexEncoding s

@[simp] theorem Hash.fromStr_toHex (h : Hash) : Hash.fromStr h.toHex = .ok h := by
  rw [Hash.fromStr, Hash.toHex, fromHexWith_encode, Hash.tryFrom, dif_pos h.length_eq]

@[simp] theorem Signature.fromStr_toHex (sig : Signature) : Signature.fromStr sig.toHex = .ok sig := by
  rw [Signature.fromStr, Signature.toHex, fromHexWith_encode, Signature.tryFrom,
    dif_pos sig.length_eq]

theorem PublicKey.fromStr_toHex {keyFromBytes : List UInt8 → Except String PublicKey}
    (pk : PublicKey) (hkey : keyFromBytes pk.bytes = .ok pk) :
    PublicKey.fromStr keyFromBytes pk.toHex = .ok pk := by
  rw [PublicKey.fromStr, PublicKey.toHex, fromHexWith_encode, PublicKey.tryFrom,
    if_pos pk.length_eq, hkey]

/-- The hex of a hash names it: its bytes decode back. -/
theorem Hash.toHex_injective : Function.Injective Hash.toHex := by
  intro a b h
  have hbytes : Hex.decode a.toHex = Hex.decode b.toHex := by rw [h]
  simp only [Hash.toHex, Hex.decode_encode, Except.ok.injEq] at hbytes
  exact Hash.bytes_injective hbytes

theorem PublicKey.toHex_injective : Function.Injective PublicKey.toHex := by
  intro a b h
  have hbytes : Hex.decode a.toHex = Hex.decode b.toHex := by rw [h]
  simp only [PublicKey.toHex, Hex.decode_encode, Except.ok.injEq] at hbytes
  exact PublicKey.bytes_injective hbytes

/-! ## Serde -/

def Hash.serialize (h : Hash) : Item := .bytes h.bytes

def PublicKey.serialize (pk : PublicKey) : Item := .bytes pk.bytes

def Signature.serialize (sig : Signature) : Item := .bytes sig.bytes

/-- `Deserialize for Hash`: a byte string, then `TryFrom` with its error as a custom
message. -/
def Hash.deserialize (item : Item) : Except Error Hash := do
  let bs ← byteBuf item
  match Hash.tryFrom bs with
  | .ok h => pure h
  | .error err => throw (.custom err.toString)

def Signature.deserialize (item : Item) : Except Error Signature := do
  let bs ← byteBuf item
  match Signature.tryFrom bs with
  | .ok sig => pure sig
  | .error err => throw (.custom err.toString)

def PublicKey.deserialize (keyFromBytes : List UInt8 → Except String PublicKey)
    (item : Item) : Except Error PublicKey := do
  let bs ← byteBuf item
  match PublicKey.tryFrom keyFromBytes bs with
  | .ok pk => pure pk
  | .error err => throw (.custom err.toString)

@[simp] theorem Hash.deserialize_serialize (h : Hash) : Hash.deserialize h.serialize = .ok h := by
  simp [Hash.deserialize, Hash.serialize, byteBuf, Hash.tryFrom, h.length_eq]

@[simp] theorem Signature.deserialize_serialize (sig : Signature) :
    Signature.deserialize sig.serialize = .ok sig := by
  simp [Signature.deserialize, Signature.serialize, byteBuf, Signature.tryFrom, sig.length_eq]

/-- A public key deserializes back whenever the decompression accepts its own bytes. -/
theorem PublicKey.deserialize_serialize {keyFromBytes : List UInt8 → Except String PublicKey}
    (pk : PublicKey) (hkey : keyFromBytes pk.bytes = .ok pk) :
    PublicKey.deserialize keyFromBytes pk.serialize = .ok pk := by
  simp [PublicKey.deserialize, PublicKey.serialize, byteBuf, PublicKey.tryFrom,
    pk.length_eq, hkey]

theorem Hash.serialize_injective : Function.Injective Hash.serialize := by
  intro a b h
  exact Hash.bytes_injective (Item.bytes.inj h)

theorem PublicKey.serialize_injective : Function.Injective PublicKey.serialize := by
  intro a b h
  exact PublicKey.bytes_injective (Item.bytes.inj h)

theorem Signature.serialize_injective : Function.Injective Signature.serialize := by
  intro a b h
  exact Signature.bytes_injective (Item.bytes.inj h)

@[simp] theorem Hash.isBytes_serialize (h : Hash) : h.serialize.isBytes = true := rfl

@[simp] theorem Signature.isBytes_serialize (sig : Signature) : sig.serialize.isBytes = true :=
  rfl

@[simp] theorem Hash.deserialize_unsigned (n : UInt64) :
    Hash.deserialize (.unsigned n) = .error (.invalidType "bytes") := rfl

@[simp] theorem Hash.deserialize_array (items : List Item) :
    Hash.deserialize (.array items) = .error (.invalidType "bytes") := rfl

@[simp] theorem Signature.deserialize_unsigned (n : UInt64) :
    Signature.deserialize (.unsigned n) = .error (.invalidType "bytes") := rfl

end P2panda
