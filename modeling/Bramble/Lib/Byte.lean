import Mathlib

/-!
# Bits of a byte

The masks `1<<k` of C, and the bits of what is or-ed and and-ed with them.
-/

namespace Bramble

theorem testBit_or (x y : UInt8) (c : Nat) :
    (x ||| y).toNat.testBit c = (x.toNat.testBit c || y.toNat.testBit c) := by
  rw [UInt8.toNat_or, Nat.testBit_or]

theorem testBit_shl {k : Nat} (hk : k < 8) (c : Nat) :
    ((1 : UInt8) <<< UInt8.ofNat k).toNat.testBit c = decide (k = c) := by
  have hpow : 2^k < 2^8 := Nat.pow_lt_pow_right (by decide) hk
  have hnat : ((1 : UInt8) <<< UInt8.ofNat k).toNat = 2^k := by
    rw [UInt8.toNat_shiftLeft, UInt8.toNat_ofNat', Nat.mod_eq_of_lt (by omega : k < 2^8),
      Nat.mod_eq_of_lt hk]
    show 1 <<< k % 2^8 = 2^k
    rw [Nat.one_shiftLeft, Nat.mod_eq_of_lt hpow]
  rw [hnat, Nat.testBit_two_pow]

theorem testBit_and_not {x : UInt8} {k : Nat} (hk : k < 8) (c : Nat) :
    (x &&& ~~~((1 : UInt8) <<< UInt8.ofNat k)).toNat.testBit c =
      (x.toNat.testBit c && !decide (k = c)) := by
  rw [← testBit_shl hk c]
  show (x &&& ~~~((1 : UInt8) <<< UInt8.ofNat k)).toBitVec.getLsbD c = _
  rw [UInt8.toBitVec_and, UInt8.toBitVec_not, BitVec.getLsbD_and, BitVec.getLsbD_not]
  by_cases hc : c < 8
  · rw [decide_eq_true hc, Bool.true_and]
    rfl
  · have hx : x.toNat.testBit c = false :=
      Nat.testBit_lt_two_pow (x.toNat_lt.trans_le (Nat.pow_le_pow_right (by decide) (by omega)))
    show (x.toNat.testBit c && _) = (x.toNat.testBit c && _)
    rw [hx, Bool.false_and, Bool.false_and]

theorem and_shl_ne_zero (x : UInt8) {k : Nat} (hk : k < 8) :
    x &&& ((1 : UInt8) <<< UInt8.ofNat k) ≠ 0 ↔ x.toNat.testBit k = true := by
  have hand (c : Nat) : (x &&& ((1 : UInt8) <<< UInt8.ofNat k)).toNat.testBit c =
      (x.toNat.testBit c && decide (k = c)) := by
    rw [UInt8.toNat_and, Nat.testBit_and, testBit_shl hk]
  constructor
  · intro h
    by_contra hbit
    apply h
    apply UInt8.toNat_inj.mp
    apply Nat.eq_of_testBit_eq
    intro c
    rw [hand, UInt8.toNat_zero, Nat.zero_testBit]
    by_cases hc : k = c
    · rw [← hc, Bool.eq_false_iff.mpr hbit, Bool.false_and]
    · rw [decide_eq_false hc, Bool.and_false]
  · intro hbit h
    have hk' := hand k
    rw [h, hbit, decide_eq_true rfl, UInt8.toNat_zero, Nat.zero_testBit] at hk'
    cases hk'

end Bramble
