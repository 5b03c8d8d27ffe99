import Mathlib.Algebra.Group.Nat.Defs
import Mathlib.Data.List.Nodup

/- Base32 without padding, as the `base32` crate writes and reads it for z-base-32
   (`Alphabet::Z`).

   Encoding takes the bits of the bytes, the most significant first, cuts them into
   groups of five, the last one filled up with zeros, and writes each group as the symbol
   of its value in the alphabet. Decoding reads the value of each symbol (failing on a
   byte that is not a symbol), puts their bits back together, cuts them into bytes and
   keeps `5 * length / 8` of them: the bits of a last, partial byte are the zeros of the
   filling. The crate computes the same by five bytes, or eight symbols, at a time.

   Results:
   1. `ofBits_bitsOf`, `bitsOf_ofBits`: the `w` low bits of a number and the value of a
      list of bits are inverse to each other.
   2. `chunks_flatMap`, `flatten_chunks`, `length_chunks`: cutting into groups of `k`.
   3. `decode_encode`: with an alphabet of 32 distinct symbols, decoding gives back every
      byte string encoded. -/
namespace Base32

/-! ## Bits -/

/-- The `w` low bits of `n`, the most significant first. -/
def bitsOf : Nat → Nat → List Bool
  | 0, _ => []
  | w + 1, n => n.testBit w :: bitsOf w n

/-- The value of bits, the most significant first. -/
def ofBits : List Bool → Nat
  | [] => 0
  | b :: bs => b.toNat * 2 ^ bs.length + ofBits bs

@[simp] theorem length_bitsOf (w n : Nat) : (bitsOf w n).length = w := by
  induction w with
  | zero => rfl
  | succ w ih => simp [bitsOf, ih]

theorem ofBits_lt (bs : List Bool) : ofBits bs < 2 ^ bs.length := by
  induction bs with
  | nil => simp [ofBits]
  | cons b bs ih =>
    have hb : b.toNat ≤ 1 := Bool.toNat_le b
    rw [ofBits, List.length_cons, Nat.pow_succ]
    have : b.toNat * 2 ^ bs.length ≤ 2 ^ bs.length := by
      simpa using Nat.mul_le_mul_right (2 ^ bs.length) hb
    omega

/-- The bits below `w` are all `bitsOf w` looks at. -/
theorem bitsOf_congr {w m n : Nat} (h : ∀ i < w, m.testBit i = n.testBit i) :
    bitsOf w m = bitsOf w n := by
  induction w with
  | zero => rfl
  | succ w ih =>
    rw [bitsOf, bitsOf, h w (Nat.lt_succ_self w), ih fun i hi => h i (by omega)]

theorem ofBits_bitsOf (w n : Nat) : ofBits (bitsOf w n) = n % 2 ^ w := by
  induction w with
  | zero => simp [bitsOf, ofBits, Nat.mod_one]
  | succ w ih =>
    -- the new bit is the digit of `2 ^ w` in `n`
    have hbit : (n.testBit w).toNat = n / 2 ^ w % 2 := by
      rw [Nat.testBit_eq_decide_div_mod_eq]
      rcases Nat.mod_two_eq_zero_or_one (n / 2 ^ w) with h | h <;> simp [h]
    rw [bitsOf, ofBits, length_bitsOf, ih, hbit, Nat.mod_pow_succ, Nat.add_comm, Nat.mul_comm]

theorem bitsOf_ofBits (bs : List Bool) : bitsOf bs.length (ofBits bs) = bs := by
  induction bs with
  | nil => rfl
  | cons b bs ih =>
    have hlt := ofBits_lt bs
    -- `ofBits (b :: bs)` is `b` above the `bs.length` bits of `ofBits bs`
    have hval : ofBits (b :: bs) = 2 ^ bs.length * b.toNat + ofBits bs := by
      rw [ofBits, Nat.mul_comm]
    have hlow : ∀ i < bs.length, (ofBits (b :: bs)).testBit i = (ofBits bs).testBit i := by
      intro i hi
      rw [hval, Nat.testBit_two_pow_mul_add _ hlt, if_pos hi]
    have htop : (ofBits (b :: bs)).testBit bs.length = b := by
      rw [hval, Nat.testBit_two_pow_mul_add _ hlt, if_neg (Nat.lt_irrefl _), Nat.sub_self]
      cases b <;> rfl
    rw [List.length_cons, bitsOf, htop, bitsOf_congr hlow, ih]

/-! ## Groups of bits -/

/-- The bits cut into groups of `k`, the last one filled up with `false`. -/
def chunks (k : Nat) (bs : List Bool) : List (List Bool) :=
  if h : k = 0 ∨ bs = [] then []
  else if bs.length ≤ k then [bs ++ List.replicate (k - bs.length) false]
  else bs.take k :: chunks k (bs.drop k)
termination_by bs.length
decreasing_by
  simp only [List.length_drop]
  have : bs ≠ [] := fun hb => h (.inr hb)
  have := List.length_pos_of_ne_nil this
  omega

theorem chunks_nil (k : Nat) : chunks k [] = [] := by
  rw [chunks, dif_pos (.inr rfl)]

/-- A first group of exactly `k` bits is a chunk of its own. -/
theorem chunks_append {k : Nat} (hk : 0 < k) (x rest : List Bool) (hx : x.length = k) :
    chunks k (x ++ rest) = x :: chunks k rest := by
  have hne : ¬(k = 0 ∨ x ++ rest = []) := by
    rintro (h | h)
    · omega
    · have hx0 := (List.append_eq_nil_iff.mp h).1
      subst hx0
      simp only [List.length_nil] at hx
      omega
  rw [chunks, dif_neg hne]
  by_cases hrest : rest = []
  · subst hrest
    simp [hx, chunks_nil]
  · have hlong : ¬(x ++ rest).length ≤ k := by
      have := List.length_pos_of_ne_nil hrest
      simp only [List.length_append]
      omega
    rw [if_neg hlong, ← hx, List.take_left, List.drop_left]

theorem chunks_flatMap {α : Type} {k : Nat} (hk : 0 < k) {f : α → List Bool}
    (hf : ∀ a, (f a).length = k) (as : List α) (rest : List Bool) :
    chunks k (as.flatMap f ++ rest) = as.map f ++ chunks k rest := by
  induction as with
  | nil => rfl
  | cons a as ih =>
    rw [List.flatMap_cons, List.append_assoc, chunks_append hk _ _ (hf a), ih, List.map_cons,
      List.cons_append]

/-- Every group has `k` bits. -/
theorem length_of_mem_chunks {k : Nat} {bs c : List Bool} (hc : c ∈ chunks k bs) :
    c.length = k := by
  induction bs using chunks.induct k with
  | case1 bs h => rw [chunks, dif_pos h] at hc; cases hc
  | case2 bs h hshort =>
    rw [chunks, dif_neg h, if_pos hshort, List.mem_singleton] at hc
    subst hc
    simp only [List.length_append, List.length_replicate]
    omega
  | case3 bs h hlong ih =>
    rw [chunks, dif_neg h, if_neg hlong, List.mem_cons] at hc
    rcases hc with rfl | hc
    · simp only [List.length_take]
      omega
    · exact ih hc

/-- The groups together are the bits and the filling, fewer than `k` zeros. -/
theorem flatten_chunks {k : Nat} (hk : 0 < k) (bs : List Bool) :
    ∃ p, p < k ∧ (chunks k bs).flatten = bs ++ List.replicate p false := by
  induction bs using chunks.induct k with
  | case1 bs h =>
    rcases h with h | rfl
    · omega
    · exact ⟨0, hk, by simp [chunks_nil]⟩
  | case2 bs h hshort =>
    have hne : bs ≠ [] := fun hb => h (.inr hb)
    have := List.length_pos_of_ne_nil hne
    refine ⟨k - bs.length, by omega, ?_⟩
    rw [chunks, dif_neg h, if_pos hshort]
    simp
  | case3 bs h hlong ih =>
    obtain ⟨p, hp, hflat⟩ := ih
    refine ⟨p, hp, ?_⟩
    rw [chunks, dif_neg h, if_neg hlong, List.flatten_cons, hflat, ← List.append_assoc,
      List.take_append_drop]

theorem length_chunks {k : Nat} (hk : 0 < k) (bs : List Bool) :
    (chunks k bs).length = (bs.length + k - 1) / k := by
  induction bs using chunks.induct k with
  | case1 bs h =>
    rcases h with h | rfl
    · omega
    · rw [chunks_nil, List.length_nil, List.length_nil, Nat.zero_add,
        Nat.div_eq_of_lt (by omega)]
  | case2 bs h hshort =>
    have hne : bs ≠ [] := fun hb => h (.inr hb)
    have := List.length_pos_of_ne_nil hne
    rw [chunks, dif_neg h, if_pos hshort, List.length_singleton]
    have hle : bs.length + k - 1 < 2 * k := by omega
    have hge : k ≤ bs.length + k - 1 := by omega
    rw [Nat.div_eq_of_lt_le (by omega) hle]
  | case3 bs h hlong ih =>
    rw [chunks, dif_neg h, if_neg hlong, List.length_cons, ih, List.length_drop]
    have hsplit : bs.length + k - 1 = (bs.length - k + k - 1) + k := by omega
    rw [hsplit, Nat.add_div_right _ hk]

/-! ## The encoding -/

section Codec

variable (alphabet : List UInt8)

/-- `base32::encode` without padding: one symbol per group of five bits. -/
def encode (data : List UInt8) : List UInt8 :=
  (chunks 5 (data.flatMap fun b => bitsOf 8 b.toNat)).map fun g => alphabet.getD (ofBits g) 0

/-- `base32::decode`: the value of every symbol, their bits cut into bytes, and as many
bytes as five bits a symbol make whole. -/
def decode (data : List UInt8) : Option (List UInt8) := do
  let values ← data.mapM fun c => alphabet.idxOf? c
  let bits := values.flatMap (bitsOf 5)
  pure (((chunks 8 bits).map fun g => UInt8.ofNat (ofBits g)).take (data.length * 5 / 8))

theorem length_encode (data : List UInt8) :
    (encode alphabet data).length = (8 * data.length + 4) / 5 := by
  have hbits : (data.flatMap fun b => bitsOf 8 b.toNat).length = 8 * data.length := by
    simp [List.length_flatMap, Nat.mul_comm]
  rw [encode, List.length_map, length_chunks (by decide), hbits]
  omega

/-- Every symbol written is in the alphabet. -/
theorem mem_encode (hlen : alphabet.length = 32) {data : List UInt8} {b : UInt8}
    (hb : b ∈ encode alphabet data) : b ∈ alphabet := by
  obtain ⟨g, hg, rfl⟩ := List.mem_map.mp hb
  have hlt : ofBits g < alphabet.length := by
    have := ofBits_lt g
    rw [length_of_mem_chunks hg] at this
    omega
  rw [List.getD_eq_getElem?_getD, List.getElem?_eq_getElem hlt, Option.getD_some]
  exact List.getElem_mem hlt

theorem idxOf?_getElem {i : Nat} (hnodup : alphabet.Nodup) (hi : i < alphabet.length) :
    alphabet.idxOf? alphabet[i] = some i :=
  List.idxOf?_eq_some_iff.mpr ⟨hi, rfl, fun j hj heq =>
    absurd ((hnodup.getElem_inj_iff).mp heq) (by omega)⟩

theorem mapM_eq_some_map {α β : Type} {f : α → Option β} {g : α → β} :
    ∀ {l : List α}, (∀ x ∈ l, f x = some (g x)) → l.mapM f = some (l.map g)
  | [], _ => rfl
  | x :: l, h => by
    rw [List.mapM_cons, h x List.mem_cons_self, mapM_eq_some_map fun y hy =>
      h y (List.mem_cons_of_mem x hy)]
    rfl

/-- With 32 distinct symbols, decoding reads back what encoding writes: each group's
symbol gives back its value, the groups' bits are the bytes' bits and fewer than five
zeros, and those zeros do not make a whole byte. -/
theorem decode_encode (hlen : alphabet.length = 32) (hnodup : alphabet.Nodup)
    (data : List UInt8) : decode alphabet (encode alphabet data) = some data := by
  have hgroup : ∀ g ∈ chunks 5 (data.flatMap fun b => bitsOf 8 b.toNat), g.length = 5 :=
    fun g hg => length_of_mem_chunks hg
  -- each symbol is read back as the value of its group
  have hvalues : (encode alphabet data).mapM (fun c => alphabet.idxOf? c) =
      some ((chunks 5 (data.flatMap fun b => bitsOf 8 b.toNat)).map ofBits) := by
    rw [encode, List.mapM_map]
    apply mapM_eq_some_map
    intro g hg
    have hlt : ofBits g < alphabet.length := by
      have := ofBits_lt g
      rw [hgroup g hg] at this
      omega
    simp only [Function.comp_apply, List.getD_eq_getElem?_getD, List.getElem?_eq_getElem hlt,
      Option.getD_some]
    exact idxOf?_getElem alphabet hnodup hlt
  -- the values' bits are the groups again: the bytes' bits and fewer than five zeros
  have hbits : ((chunks 5 (data.flatMap fun b => bitsOf 8 b.toNat)).map ofBits).flatMap
      (bitsOf 5) = (chunks 5 (data.flatMap fun b => bitsOf 8 b.toNat)).flatten := by
    rw [List.flatMap_map, List.flatten_eq_flatMap]
    apply List.flatMap_congr
    intro g hg
    rw [← hgroup g hg, bitsOf_ofBits]
    rfl
  obtain ⟨p, hp, hflat⟩ :=
    flatten_chunks (show 0 < 5 by decide) (data.flatMap fun b => bitsOf 8 b.toNat)
  -- whole bytes read back, and the zeros make no whole byte
  have hbytes : (data.map fun b => bitsOf 8 b.toNat).map (fun g => UInt8.ofNat (ofBits g)) =
      data := by
    rw [List.map_map]
    apply List.map_id''
    intro b
    rw [Function.comp_apply, ofBits_bitsOf, Nat.mod_eq_of_lt b.toNat_lt, UInt8.ofNat_toNat]
  have hcount : (encode alphabet data).length * 5 / 8 = data.length := by
    rw [length_encode]
    omega
  rw [decode, hvalues]
  simp only [Option.bind_eq_bind, Option.bind_some, Option.pure_def, Option.some.injEq]
  rw [hcount, hbits, hflat,
    chunks_flatMap (show 0 < 8 by decide) (fun b : UInt8 => length_bitsOf 8 b.toNat),
    List.map_append, hbytes, List.take_left' rfl]

end Codec

/-- The z-base-32 alphabet (`Alphabet::Z`). -/
def zAlphabet : List UInt8 :=
  "ybndrfg8ejkmcpqxot1uwisza345h769".toList.map fun c => c.toNat.toUInt8

theorem zAlphabet_length : zAlphabet.length = 32 := by decide

theorem zAlphabet_nodup : zAlphabet.Nodup := by decide

end Base32
