import Mathlib.Algebra.Group.Nat.Defs
import Mathlib.Order.Std
import Mathlib.Data.List.Lex

/- Machine integers as linear orders.

   Lean's core library orders `UInt8`, `UInt16` and `UInt64` through its own order classes
   (`Std.IsLinearOrder`, `Std.LawfulOrderLT`, `Std.LawfulOrderOrd`); Mathlib's
   `LinearOrder`, which lexicographic products and lists build on, is not derived from
   them. The two `Std.LawfulOrderLeftLeaning*` facts below are what `LinearOrder.ofStd`
   asks for beyond them: the core `min` and `max` are `minOfLe` and `maxOfLe`. The
   resulting orders use the core `≤`, `<`, `min`, `max` and `compare` unchanged, so no
   second instance of any of them appears.

   The lemmas at the end move order facts to `toNat`, where `omega` can use them. -/

section UInt8

instance UInt8.instLawfulOrderLeftLeaningMax : Std.LawfulOrderLeftLeaningMax UInt8 where
  max_eq_left a b h := by
    show (if a ≤ b then b else a) = a
    split
    · exact UInt8.le_antisymm h ‹_›
    · rfl
  max_eq_right a b h := by
    show (if a ≤ b then b else a) = b
    rw [if_pos (UInt8.le_of_lt (UInt8.not_le.mp h))]

instance UInt8.instLawfulOrderLeftLeaningMin : Std.LawfulOrderLeftLeaningMin UInt8 where
  min_eq_left a b h := by
    show (if a ≤ b then a else b) = a
    rw [if_pos h]
  min_eq_right a b h := by
    show (if a ≤ b then a else b) = b
    rw [if_neg h]

instance UInt8.instLinearOrder : LinearOrder UInt8 := LinearOrder.ofStd UInt8

end UInt8

section UInt16

instance UInt16.instLawfulOrderLeftLeaningMax : Std.LawfulOrderLeftLeaningMax UInt16 where
  max_eq_left a b h := by
    show (if a ≤ b then b else a) = a
    split
    · exact UInt16.le_antisymm h ‹_›
    · rfl
  max_eq_right a b h := by
    show (if a ≤ b then b else a) = b
    rw [if_pos (UInt16.le_of_lt (UInt16.not_le.mp h))]

instance UInt16.instLawfulOrderLeftLeaningMin : Std.LawfulOrderLeftLeaningMin UInt16 where
  min_eq_left a b h := by
    show (if a ≤ b then a else b) = a
    rw [if_pos h]
  min_eq_right a b h := by
    show (if a ≤ b then a else b) = b
    rw [if_neg h]

instance UInt16.instLinearOrder : LinearOrder UInt16 := LinearOrder.ofStd UInt16

end UInt16

section UInt64

instance UInt64.instLawfulOrderLeftLeaningMax : Std.LawfulOrderLeftLeaningMax UInt64 where
  max_eq_left a b h := by
    show (if a ≤ b then b else a) = a
    split
    · exact UInt64.le_antisymm h ‹_›
    · rfl
  max_eq_right a b h := by
    show (if a ≤ b then b else a) = b
    rw [if_pos (UInt64.le_of_lt (UInt64.not_le.mp h))]

instance UInt64.instLawfulOrderLeftLeaningMin : Std.LawfulOrderLeftLeaningMin UInt64 where
  min_eq_left a b h := by
    show (if a ≤ b then a else b) = a
    rw [if_pos h]
  min_eq_right a b h := by
    show (if a ≤ b then a else b) = b
    rw [if_neg h]

instance UInt64.instLinearOrder : LinearOrder UInt64 := LinearOrder.ofStd UInt64

namespace UInt64

theorem toNat_lt_toNat {a b : UInt64} : a < b ↔ a.toNat < b.toNat := Iff.rfl

theorem toNat_le_toNat {a b : UInt64} : a ≤ b ↔ a.toNat ≤ b.toNat := Iff.rfl

/-- `a + 1` does not wrap exactly when `a` is below `u64::MAX`. -/
theorem toNat_add_one_of_lt {a : UInt64} (h : a.toNat + 1 < 2 ^ 64) :
    (a + 1).toNat = a.toNat + 1 := by
  rw [UInt64.toNat_add, UInt64.toNat_one]
  exact Nat.mod_eq_of_lt h

/-- A successor that is not `0` did not wrap. -/
theorem toNat_add_one_of_ne_zero {a : UInt64} (h : a + 1 ≠ 0) :
    (a + 1).toNat = a.toNat + 1 := by
  apply toNat_add_one_of_lt
  have ha := a.toNat_lt
  by_contra hge
  have hmax : a.toNat = 2 ^ 64 - 1 := by omega
  apply h
  apply UInt64.toNat_inj.mp
  rw [UInt64.toNat_add, UInt64.toNat_one, hmax]
  rfl

/-- Below a successor that did not wrap lie exactly the numbers up to its predecessor. -/
theorem lt_add_one_iff_of_ne_zero {a k : UInt64} (h : a + 1 ≠ 0) : k < a + 1 ↔ k ≤ a := by
  rw [toNat_lt_toNat, toNat_le_toNat, toNat_add_one_of_ne_zero h]
  omega

end UInt64

end UInt64
