import Mathlib.Tactic

/-!
# Loops that end with a result

A loop goes round until its body gives a result.  The body of the round `k` is `turn k`; `none` goes
round again.  The loop itself takes fuel, so that it can be run.

* `loop`           the result, with the round that gave it;
* `loop_some`      the loop ends in the first round that gives a result;
* `loop_forever`   it never ends exactly if no round gives one.
-/

namespace Bramble

section
variable {ρ : Type*}

/-- at most `fuel` rounds, from the round `k` on -/
def loop (turn : Nat → Option ρ) : Nat → Nat → Option (Nat × ρ)
  | 0, _ => none
  | fuel + 1, k =>
    match turn k with
    | some r => some (k, r)
    | none => loop turn fuel (k + 1)

variable {turn : Nat → Option ρ}

theorem loop_succ_some {k : Nat} {r : ρ} (h : turn k = some r) (fuel : Nat) :
    loop turn (fuel + 1) k = some (k, r) := by
  unfold loop
  rw [h]

theorem loop_succ_none {k : Nat} (h : turn k = none) (fuel : Nat) :
    loop turn (fuel + 1) k = loop turn fuel (k + 1) := by
  show (match turn k with
    | some r => some (k, r)
    | none => loop turn fuel (k + 1)) = _
  rw [h]

theorem loop_eq_some {fuel k n : Nat} {r : ρ} : loop turn fuel k = some (n, r) ↔
    k ≤ n ∧ n < k + fuel ∧ (∀ j, k ≤ j → j < n → turn j = none) ∧ turn n = some r := by
  induction fuel generalizing k with
  | zero =>
    refine iff_of_false (fun h => nomatch h) fun h => ?_
    exact absurd h.2.1 (Nat.not_lt.mpr h.1)
  | succ fuel ih =>
    cases ht : turn k with
    | some r' =>
      rw [loop_succ_some ht]
      constructor
      · intro h
        cases h
        refine ⟨Nat.le_refl _, Nat.lt_add_of_pos_right (Nat.succ_pos fuel), ?_, ht⟩
        exact fun j hj hlt => absurd hj (Nat.not_le.mpr hlt)
      · rintro ⟨hle, _, hbefore, hn⟩
        have heq : k = n := by
          by_contra hne
          have hk := hbefore k (Nat.le_refl k) (Nat.lt_of_le_of_ne hle hne)
          rw [ht] at hk
          cases hk
        subst heq
        rw [ht] at hn
        cases hn
        rfl
    | none =>
      rw [loop_succ_none ht, ih]
      constructor
      · rintro ⟨hle, hlt, hbefore, hn⟩
        refine ⟨Nat.le_of_succ_le hle, by omega, fun j hj hjn => ?_, hn⟩
        rcases Nat.eq_or_lt_of_le hj with rfl | hj
        · exact ht
        · exact hbefore j hj hjn
      · rintro ⟨hle, hlt, hbefore, hn⟩
        have hne : k ≠ n := by
          rintro rfl
          rw [ht] at hn
          cases hn
        refine ⟨Nat.lt_of_le_of_ne hle hne, by omega, fun j hj => ?_, hn⟩
        exact hbefore j (Nat.le_of_succ_le hj)

/-- **The loop ends in the first round that gives a result.** -/
theorem loop_some {n : Nat} {r : ρ} : (∃ fuel, loop turn fuel 0 = some (n, r)) ↔
    (∀ j < n, turn j = none) ∧ turn n = some r := by
  constructor
  · rintro ⟨fuel, h⟩
    obtain ⟨_, _, hbefore, hn⟩ := loop_eq_some.mp h
    exact ⟨fun j hj => hbefore j (Nat.zero_le j) hj, hn⟩
  · rintro ⟨hbefore, hn⟩
    refine ⟨n + 1, loop_eq_some.mpr ⟨Nat.zero_le n, ?_, fun j _ hj => hbefore j hj, hn⟩⟩
    exact Nat.lt_add_left 0 (Nat.lt_succ_self n)

/-- **The loop never ends exactly if no round gives a result.** -/
theorem loop_forever : (∀ fuel, loop turn fuel 0 = none) ↔ ∀ k, turn k = none := by
  constructor
  · intro h k
    induction k using Nat.strong_induction_on with
    | _ k ih =>
      cases ht : turn k with
      | none => rfl
      | some r =>
        obtain ⟨fuel, hfuel⟩ := loop_some.mpr ⟨ih, ht⟩
        rw [h fuel] at hfuel
        cases hfuel
  · intro h fuel
    cases hl : loop turn fuel 0 with
    | none => rfl
    | some x =>
      have hx := (loop_eq_some.mp hl).2.2.2
      rw [h x.1] at hx
      cases hx

end

end Bramble
