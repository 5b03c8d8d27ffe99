import P2panda.Lib.Framing
import P2panda.Core.HeaderCodec
import P2panda.Sync.LogSync

/- `CborCodec` (`p2panda-sync/src/cbor.rs`): the tokio codec that frames the messages of a
   sync protocol on a byte stream by their CBOR encoding alone, with no length prefix.

   `CborCodec::encode` appends the encoding of a message to the write buffer.
   `CborCodec::decode` runs `decode_cbor` on the read buffer: on success it advances the
   buffer past the item; when ciborium reports the end of the input it answers `Ok(None)`
   and leaves the buffer as it was; it fails with `Critical` on another I/O error and with
   `InvalidEncoding` on any other error.

   What framing needs of ciborium and of the message type is `CborStream`: the encoding of
   a message, followed by anything, decodes to its item and leaves the rest; the empty
   input and a strict prefix of a message's encoding report the end of the input; and the
   message type's serde reads back what it writes. Under it the codec is a framing decoder
   (`CborStream.frames`), and the `Framing` library does the rest.

   Results:
   1. `cborCodec_chunking`: however the encodings of a list of messages are cut into
      chunks, `FramedRead`'s calls of `decode` yield exactly the messages, in order, and
      leave the buffer empty; on a prefix of the stream `decode` answers `Ok(None)` only
      on a strict prefix of the next message's encoding, and leaves the buffer unchanged.
   2. `cborStream_cborPrimitives`: the library codec meets `CborStream` for every message
      type whose serde round-trips, as its decoder reports every strict prefix of an
      encoding as truncated (`Cbor.decodeItem_strictPrefix`).

   The `Display` texts of `DecodeError` are p2panda-core's. The offset of a semantic
   error is `None`, as ciborium reports the errors raised through serde; the message of a
   serde type error leaves out the unexpected value, which the model does not keep. -/
namespace P2panda

open Framing

/-- The text of an I/O error made from its kind alone (`std::io::ErrorKind`'s). -/
def IoErrorKind.description : IoErrorKind → String
  | .unexpectedEof => "unexpected end of file"
  | .other => "other error"

/-- The message of a serde error, as serde formats it. -/
def serdeMessage : Cbor.Error → String
  | .custom msg => msg
  | .customWith msg cause => msg ++ " " ++ serdeMessage cause
  | .invalidType expected => "invalid type, expected " ++ expected
  | .invalidLength len expected =>
    "invalid length " ++ Nat.repr len ++ ", expected " ++ Nat.repr expected

/-- `DecodeError`'s `Display`. -/
def DecodeError.toString : DecodeError → String
  | .io kind => "an error occurred while reading bytes: " ++ kind.description
  | .syntaxAt offset => "an error occurred while parsing bytes at position " ++ Nat.repr offset
  | .semantic msg =>
    "an error occurred while processing a parsed value at position None: " ++ serdeMessage msg
  | .recursionLimitExceeded => "recursion limit exceeded while decoding"

namespace Sync

namespace CborCodec

section Codec

variable (P : Primitives) {M : Type} (serialize : M → Cbor.Item)
  (deserialize : Cbor.Item → Except Cbor.Error M)

/-- `encode_cbor` of a message: the encoding of the item serde writes for it. -/
def encodeCbor (item : M) : List UInt8 := P.encodeItem (serialize item)

/-- `Encoder::encode`: the encoding of `item` appended to `dst`. `encode_cbor` fails on no
item the model has, so the `Critical` error of a failed encoding is not reached. -/
def encode (item : M) (dst : List UInt8) : List UInt8 := dst ++ encodeCbor P serialize item

/-- The write buffer after `encode` of each message in turn, from an empty one. -/
def encodeAll (items : List M) : List UInt8 :=
  items.foldl (fun dst item => encode P serialize item dst) []

/-- `decode_cbor` on a slice: one item, then serde's reading of the message from it; the
slice is left after the item. -/
def decodeCbor (bytes : List UInt8) : Except DecodeError (M × List UInt8) :=
  match P.decodeItem bytes with
  | .ok (item, rest) =>
    match deserialize item with
    | .ok m => .ok (m, rest)
    | .error e => .error (.semantic e)
  | .error e => .error e

/-- `Decoder::decode`: the message at the front of the buffer and the buffer after it. -/
def decode (src : List UInt8) : Except SyncError (Option M × List UInt8) :=
  let starting := src.length
  match decodeCbor P deserialize src with
  | .ok (item, bytes) =>
    let ending := bytes.length
    .ok (some item, src.drop (starting - ending))
  | .error (.io .unexpectedEof) => .ok (none, src)
  | .error (.io kind) =>
    .error (.critical
      ("CBOR codec failed decoding message due to i/o error, " ++ kind.description))
  | .error err => .error (.invalidEncoding err.toString)

theorem encode_foldl (items : List M) (dst : List UInt8) :
    items.foldl (fun dst item => encode P serialize item dst) dst =
      dst ++ items.flatMap (encodeCbor P serialize) := by
  induction items generalizing dst with
  | nil => simp
  | cons item items ih =>
    rw [List.foldl_cons, ih, encode, List.flatMap_cons, List.append_assoc]

theorem encodeAll_eq (items : List M) :
    encodeAll P serialize items = items.flatMap (encodeCbor P serialize) := by
  simp [encodeAll, encode_foldl]

end Codec

end CborCodec

section Stream

variable (P : Primitives) {M : Type} (serialize : M → Cbor.Item)
  (deserialize : Cbor.Item → Except Cbor.Error M)

/-- What framing needs of ciborium's `decode_cbor` and of the serde implementation of the
message type `M`. -/
structure CborStream : Prop where
  /-- The encoding of a message's item reads back as one item, leaving what follows. -/
  decodeItem_append : ∀ m rest,
    P.decodeItem (CborCodec.encodeCbor P serialize m ++ rest) = .ok (serialize m, rest)
  /-- The empty input, and an input cut inside a message's item, end too early. -/
  decodeItem_incomplete : ∀ p,
    (p = [] ∨ ∃ m, StrictPrefix p (CborCodec.encodeCbor P serialize m)) →
      P.decodeItem p = .error (.io .unexpectedEof)
  /-- serde reads back the message it wrote. -/
  deserialize_serialize : ∀ m, deserialize (serialize m) = .ok m

variable {P serialize deserialize}

theorem CborStream.decodeCbor_append (h : CborStream P serialize deserialize) (m : M)
    (rest : List UInt8) :
    CborCodec.decodeCbor P deserialize (CborCodec.encodeCbor P serialize m ++ rest) =
      .ok (m, rest) := by
  simp only [CborCodec.decodeCbor, h.decodeItem_append, h.deserialize_serialize]

/-- A whole message at the front of the buffer is returned, and the buffer advanced past
it: `starting - ending` is the length of its encoding. -/
theorem CborStream.decode_complete (h : CborStream P serialize deserialize) (m : M)
    (rest : List UInt8) :
    CborCodec.decode P deserialize (CborCodec.encodeCbor P serialize m ++ rest) =
      .ok (some m, rest) := by
  have hlen : (CborCodec.encodeCbor P serialize m ++ rest).length - rest.length =
      (CborCodec.encodeCbor P serialize m).length := by
    simp
  simp only [CborCodec.decode, h.decodeCbor_append, hlen, List.drop_left]

theorem CborStream.decode_incomplete (h : CborStream P serialize deserialize) (p : List UInt8)
    (hp : p = [] ∨ ∃ m, StrictPrefix p (CborCodec.encodeCbor P serialize m)) :
    CborCodec.decode P deserialize p = .ok (none, p) := by
  have hcbor : CborCodec.decodeCbor P deserialize p = .error (.io .unexpectedEof) := by
    simp only [CborCodec.decodeCbor, h.decodeItem_incomplete p hp]
  simp only [CborCodec.decode, hcbor]

/-- Under `CborStream` the codec frames the encodings of messages. -/
theorem CborStream.frames (h : CborStream P serialize deserialize) :
    Frames (CborCodec.decode P deserialize) (CborCodec.encodeCbor P serialize) :=
  ⟨h.decode_complete, h.decode_incomplete⟩

theorem cborCodec_chunking (h : CborStream P serialize deserialize) (ms : List M) :
    (∀ chunks : List (List UInt8), chunks.flatten = CborCodec.encodeAll P serialize ms →
      readChunks (CborCodec.decode P deserialize) [] chunks = .ok (ms, [])) ∧
    (∀ buf q : List UInt8, buf ++ q = CborCodec.encodeAll P serialize ms →
      ∀ buf', CborCodec.decode P deserialize buf = .ok (none, buf') →
        buf' = buf ∧
          ∀ m ∈ ms.head?, StrictPrefix buf (CborCodec.encodeCbor P serialize m)) := by
  rw [CborCodec.encodeAll_eq]
  refine ⟨fun chunks hchunks => h.frames.readChunks_nil hchunks, ?_⟩
  intro buf q hbuf buf' hnone
  rcases h.frames.decode_prefix hbuf with ⟨m, ms', p', -, -, hsome, -⟩ | ⟨hdec, hhead⟩
  · rw [hnone] at hsome
    cases hsome
  · rw [hnone] at hdec
    cases hdec
    exact ⟨rfl, hhead⟩

end Stream

section Reference

/-! The library codec as ciborium, with messages of any type whose serde round-trips. -/

variable {M : Type} {serialize : M → Cbor.Item} {deserialize : Cbor.Item → Except Cbor.Error M}

theorem cborPrimitives_decodeItem_append (v : Cbor.Item) (rest : List UInt8) :
    cborPrimitives.decodeItem (cborPrimitives.encodeItem v ++ rest) = .ok (v, rest) := by
  simp only [cborPrimitives, Cbor.decodeItem_encode]
  rfl

theorem cborStream_cborPrimitives (hserde : ∀ m, deserialize (serialize m) = .ok m) :
    CborStream cborPrimitives serialize deserialize where
  decodeItem_append m rest := cborPrimitives_decodeItem_append (serialize m) rest
  decodeItem_incomplete p hp := by
    rcases hp with rfl | ⟨m, hm⟩
    · rfl
    · simp only [cborPrimitives, Cbor.decodeItem_strictPrefix _ p hm]
      rfl
  deserialize_serialize := hserde

end Reference

/-- serde's `String`: a text string, and read back only from one. -/
def stringSerialize (s : String) : Cbor.Item := .text s

def stringDeserialize : Cbor.Item → Except Cbor.Error String
  | .text s => .ok s
  | _ => .error (.invalidType "a string")

/-- The writes of the test `decoding_more_than_one_frame`: each head apart from its
string. -/
theorem cborCodec_chunking_strings :
    CborStream cborPrimitives stringSerialize stringDeserialize ∧
      readChunks (CborCodec.decode cborPrimitives stringDeserialize) []
          [[101], [104, 101, 108, 108, 111], [105], [97, 113, 117, 97, 114, 105, 117, 109, 115]] =
        .ok (["hello", "aquariums"], []) := by
  have hs : CborStream cborPrimitives stringSerialize stringDeserialize :=
    cborStream_cborPrimitives fun _ => rfl
  exact ⟨hs, (cborCodec_chunking hs ["hello", "aquariums"]).1 _ (by decide)⟩

end Sync

end P2panda
