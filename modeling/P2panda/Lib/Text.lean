import Mathlib.Algebra.Group.Nat.Defs
import Mathlib.Data.List.Basic

/- Text encodings of bytes and numbers: lowercase hexadecimal (the `hex` crate's `encode`
   and `decode`) and the decimal text of a `u64` (`Display` and `FromStr`).

   Text is a list of characters. The `hex` crate works on the bytes of a string; every
   text these functions write is ASCII, where characters and bytes coincide.

   Both codecs read back what they write (`Hex.decode_encode`,
   `Decimal.parseUInt64_ofUInt64`), and hex text is cut between bytes exactly at even
   positions (`Hex.take_encode`). -/

namespace Hex

/-- `FromHexError`, the two errors `decode` can raise. -/
inductive FromHexError where
  | invalidHexCharacter (c : Char) (index : Nat)
  | oddLength
  deriving DecidableEq, Repr

/-- `hex::encode`: two lowercase digits per byte, the high half first. -/
def encode (bytes : List UInt8) : List Char :=
  bytes.flatMap fun b => [Nat.digitChar (b.toNat / 16), Nat.digitChar (b.toNat % 16)]

/-- `val`: the value of a hex digit of either case. -/
def val (c : Char) : Option Nat :=
  if 'A' ≤ c ∧ c ≤ 'F' then some (c.toNat - 'A'.toNat + 10)
  else if 'a' ≤ c ∧ c ≤ 'f' then some (c.toNat - 'a'.toNat + 10)
  else if '0' ≤ c ∧ c ≤ '9' then some (c.toNat - '0'.toNat)
  else none

/-- The pairs of digits from pair `i` on, one byte each; the first bad digit is the error,
with its index in the whole text. -/
def decodePairs : Nat → List Char → Except FromHexError (List UInt8)
  | i, hi :: lo :: rest =>
    match val hi with
    | none => .error (.invalidHexCharacter hi (2 * i))
    | some h =>
      match val lo with
      | none => .error (.invalidHexCharacter lo (2 * i + 1))
      | some l => (UInt8.ofNat (h * 16 + l) :: ·) <$> decodePairs (i + 1) rest
  | _, _ => .ok []

/-- `hex::decode`: the length must be even, then the pairs. -/
def decode (text : List Char) : Except FromHexError (List UInt8) :=
  if text.length % 2 ≠ 0 then .error .oddLength else decodePairs 0 text

@[simp] theorem encode_nil : encode [] = [] := rfl

@[simp] theorem encode_cons (b : UInt8) (bs : List UInt8) :
    encode (b :: bs) = Nat.digitChar (b.toNat / 16) :: Nat.digitChar (b.toNat % 16) :: encode bs :=
  rfl

@[simp] theorem length_encode (bs : List UInt8) : (encode bs).length = 2 * bs.length := by
  induction bs with
  | nil => rfl
  | cons b bs ih =>
    simp only [encode_cons, List.length_cons, ih]
    omega

/-- The first `2 * k` digits are those of the first `k` bytes. -/
theorem take_encode (bs : List UInt8) (k : Nat) : (encode bs).take (2 * k) = encode (bs.take k) := by
  induction bs generalizing k with
  | nil => simp
  | cons b bs ih =>
    cases k with
    | zero => simp
    | succ k =>
      rw [show 2 * (k + 1) = 2 * k + 1 + 1 by omega, encode_cons, List.take_succ_cons,
        List.take_succ_cons, ih, List.take_succ_cons, encode_cons]

/-- Each of the sixteen lowercase digits reads back as its value. -/
theorem val_digitChar {n : Nat} (h : n < 16) : val (Nat.digitChar n) = some n := by
  have hall : ∀ m : Fin 16, val (Nat.digitChar m) = some m := by decide
  exact hall ⟨n, h⟩

theorem decodePairs_encode (bs : List UInt8) (i : Nat) : decodePairs i (encode bs) = .ok bs := by
  induction bs generalizing i with
  | nil => rfl
  | cons b bs ih =>
    have hb := b.toNat_lt
    have hhi : b.toNat / 16 < 16 := by omega
    have hlo : b.toNat % 16 < 16 := Nat.mod_lt _ (by decide)
    have hbyte : UInt8.ofNat (b.toNat / 16 * 16 + b.toNat % 16) = b := by
      rw [show b.toNat / 16 * 16 + b.toNat % 16 = b.toNat by omega]
      exact UInt8.ofNat_toNat
    rw [encode_cons, decodePairs, val_digitChar hhi]
    simp only [val_digitChar hlo, ih, hbyte]
    rfl

/-- Hex text written by `encode` reads back as its bytes. -/
theorem decode_encode (bs : List UInt8) : decode (encode bs) = .ok bs := by
  rw [decode, if_neg (by simp), decodePairs_encode]

end Hex

namespace Decimal

/-- `IntErrorKind`, the errors `u64::from_str` can raise. -/
inductive IntErrorKind where
  | empty
  | invalidDigit
  | posOverflow
  deriving DecidableEq, Repr

/-- `u64::to_string`: the decimal digits, most significant first. -/
def ofUInt64 (n : UInt64) : List Char := Nat.toDigits 10 n.toNat

/-- The digits from an accumulated value on: a non-digit is `InvalidDigit`, a value
past `u64::MAX` is `PosOverflow` (`checked_mul`, `checked_add`). -/
def parseDigits : List Char → Nat → Except IntErrorKind Nat
  | [], acc => .ok acc
  | c :: cs, acc =>
    if c.isDigit then
      let acc := 10 * acc + (c.toNat - '0'.toNat)
      if acc < 2 ^ 64 then parseDigits cs acc else .error .posOverflow
    else .error .invalidDigit

/-- `u64::from_str`: not empty, an optional `+`, then the digits. -/
def parseUInt64 (s : List Char) : Except IntErrorKind UInt64 :=
  UInt64.ofNat <$> match s with
    | [] => .error .empty
    | ['+'] | ['-'] => .error .invalidDigit
    | '+' :: digits => parseDigits digits 0
    | digits => parseDigits digits 0

/-- Digits whose value fits read as that value: every value on the way is below it. -/
theorem parseDigits_ok (cs : List Char) (acc : Nat) (hdigits : ∀ c ∈ cs, c.isDigit = true)
    (hlt : Nat.ofDigitChars 10 cs acc < 2 ^ 64) :
    parseDigits cs acc = .ok (Nat.ofDigitChars 10 cs acc) := by
  induction cs generalizing acc with
  | nil => rfl
  | cons c cs ih =>
    rw [Nat.ofDigitChars_cons] at hlt ⊢
    have hstep : 10 * acc + (c.toNat - '0'.toNat) < 2 ^ 64 := by
      have hge : Nat.ofDigitChars 10 cs (10 * acc + (c.toNat - '0'.toNat)) =
          10 ^ cs.length * (10 * acc + (c.toNat - '0'.toNat)) + Nat.ofDigitChars 10 cs 0 :=
        Nat.ofDigitChars_eq_ofDigitChars_zero
      have hpow := Nat.one_le_pow cs.length 10 (by decide)
      have hmul := Nat.le_mul_of_pos_left (10 * acc + (c.toNat - '0'.toNat)) hpow
      omega
    rw [parseDigits, if_pos (hdigits c List.mem_cons_self)]
    simp only [if_pos hstep]
    exact ih _ (fun d hd => hdigits d (List.mem_cons_of_mem c hd)) hlt

/-- The decimal text of a `u64` parses back as it. -/
theorem parseUInt64_ofUInt64 (n : UInt64) : parseUInt64 (ofUInt64 n) = .ok n := by
  have hdigits : ∀ c ∈ ofUInt64 n, c.isDigit = true := fun c hc =>
    Nat.isDigit_of_mem_toDigits (by decide) (by decide) hc
  have hparse : parseDigits (ofUInt64 n) 0 = .ok n.toNat := by
    have hvalue : Nat.ofDigitChars 10 (ofUInt64 n) 0 = n.toNat := Nat.ofDigitChars_ten_toDigits
    rw [parseDigits_ok _ 0 hdigits (hvalue ▸ n.toNat_lt), hvalue]
  -- the text is not empty and starts with a digit, so neither sign arm applies
  have hne : ofUInt64 n ≠ [] := Nat.toDigits_ne_nil
  unfold parseUInt64
  split
  · next heq => exact absurd heq hne
  · next heq => exact absurd (hdigits '+' (by rw [heq]; simp)) (by decide)
  · next heq => exact absurd (hdigits '-' (by rw [heq]; simp)) (by decide)
  · next digits heq => exact absurd (hdigits '+' (by rw [heq]; simp)) (by decide)
  · rw [hparse]
    simp

theorem ofUInt64_injective : Function.Injective ofUInt64 := by
  intro a b h
  have hparse : parseUInt64 (ofUInt64 a) = parseUInt64 (ofUInt64 b) := by rw [h]
  rw [parseUInt64_ofUInt64, parseUInt64_ofUInt64, Except.ok.injEq] at hparse
  exact hparse

end Decimal
