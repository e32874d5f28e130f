import Mathlib

/-!
# Rings of the last values

A ring of `n` slots, into which the values of a list are written one after the other: the value with
the number `j` into slot `j % n`.

* `Holds`         the ring holds the last `n` values; `Holds.write` keeps it;
* `newest`        the last value that was written into the slot of `j`; `Holds.slot`: it is what is
                  there.
-/

namespace Bramble
namespace Ring
variable {α : Type*} {n : Nat}

/-- of `k` values, the number of the last one in the slot of `j` -/
def newest (n j k : Nat) : Nat := j + n * ((k - 1 - j) / n)

theorem newest_lt {j k : Nat} (h : j < k) : newest n j k < k := by
  have hle : n * ((k - 1 - j) / n) ≤ k - 1 - j := Nat.mul_div_le _ _
  unfold newest
  omega

theorem newest_of_le {j k : Nat} (hj : j < k) (h : k ≤ j + n) : newest n j k = j := by
  have hdiv : (k - 1 - j) / n = 0 := Nat.div_eq_of_lt (by omega)
  rw [newest, hdiv, Nat.mul_zero, Nat.add_zero]

variable [NeZero n]

/-- the last `n` of the values `xs` are in their slots -/
def Holds (r : Fin n → α) (xs : List α) : Prop :=
  ∀ j x, xs[j]? = some x → xs.length ≤ j + n → r (Fin.ofNat n j) = x

theorem Holds.nil (r : Fin n → α) : Holds r [] := by
  intro j x hx
  cases hx

theorem ofNat_eq_iff {i j : Nat} : Fin.ofNat n i = Fin.ofNat n j ↔ i % n = j % n := Fin.ext_iff

/-- The value that is overwritten is the oldest one. -/
theorem Holds.write {r : Fin n → α} {xs : List α} (h : Holds r xs) (x : α) :
    Holds (Function.update r (Fin.ofNat n xs.length) x) (xs ++ [x]) := by
  intro j y hy hlen
  rw [List.length_append, List.length_singleton] at hlen
  rcases Nat.lt_trichotomy j xs.length with hj | rfl | hj
  · have hne : Fin.ofNat n j ≠ Fin.ofNat n xs.length := by
      intro heq
      have hdvd : n ∣ xs.length - j := (Nat.modEq_iff_dvd' hj.le).mp (ofNat_eq_iff.mp heq)
      have hle := Nat.le_of_dvd (by omega) hdvd
      omega
    rw [List.getElem?_append_left hj] at hy
    rw [Function.update_of_ne hne]
    exact h j y hy (by omega)
  · rw [List.getElem?_concat_length] at hy
    rw [Function.update_self]
    exact Option.some.inj hy
  · rw [List.getElem?_eq_none (by rw [List.length_append, List.length_singleton]; omega)] at hy
    cases hy

theorem newest_mod (j k : Nat) : Fin.ofNat n (newest n j k) = Fin.ofNat n j :=
  ofNat_eq_iff.mpr (Nat.add_mul_mod_self_left j n _)

theorem le_newest (j k : Nat) : k ≤ newest n j k + n := by
  have hlt : k - 1 - j < n * ((k - 1 - j) / n) + n := by
    have hmod := Nat.mod_lt (k - 1 - j) (Nat.pos_of_ne_zero (NeZero.ne n))
    have hdiv := Nat.div_add_mod (k - 1 - j) n
    omega
  unfold newest
  omega

/-- **What is in a slot** -/
theorem Holds.slot {r : Fin n → α} {xs : List α} (h : Holds r xs) {j : Nat} (hj : j < xs.length) :
    xs[newest n j xs.length]? = some (r (Fin.ofNat n j)) := by
  have hlt : newest n j xs.length < xs.length := newest_lt hj
  have hslot := h _ _ (List.getElem?_eq_getElem hlt) (le_newest j xs.length)
  rw [newest_mod] at hslot
  rw [List.getElem?_eq_getElem hlt, hslot]

end Ring
end Bramble
