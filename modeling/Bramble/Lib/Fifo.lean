import Mathlib

/-!
# Lists in a circular memory

`n` slots, and a list that lies in them from slot `i % n` on.

* `Arc`               the list is there;
* `Arc.concat`        writing the slot after the last one;
* `Arc.drop`          forgetting the first ones;
* `Arc.frame`         a write to any slot in the rest of the circle;
* `wrap`              the next index, by one subtraction;
* `cell`, `copyIn`    a copy in two pieces: up to the end of the memory, and from its start on.
-/

namespace Bramble
namespace Fifo
variable {α : Type*} {n : Nat}

/-- the values `xs` are in the slots from `i` on -/
def Arc (n : Nat) (mem : Nat → α) (i : Nat) (xs : List α) : Prop :=
  ∀ k x, xs[k]? = some x → mem ((i + k) % n) = x

/-- different numbers less than a turn apart have different slots -/
theorem slot_ne {i j : Nat} (h : i < j) (hn : j < i + n) : i % n ≠ j % n := by
  intro heq
  have hdvd : n ∣ j - i := (Nat.modEq_iff_dvd' h.le).mp heq
  have hle := Nat.le_of_dvd (by omega) hdvd
  omega

theorem Arc.nil (mem : Nat → α) (i : Nat) : Arc n mem i [] := by
  intro k x hx
  cases hx

theorem Arc.mod_add {mem : Nat → α} {i j : Nat} {xs : List α} :
    Arc n mem (i % n + j) xs ↔ Arc n mem (i + j) xs := by
  unfold Arc
  simp only [Nat.add_assoc, Nat.mod_add_mod]

theorem Arc.mod_start {mem : Nat → α} {i : Nat} {xs : List α} :
    Arc n mem (i % n) xs ↔ Arc n mem i xs := Arc.mod_add (j := 0)

theorem Arc.append {mem : Nat → α} {i : Nat} {xs ys : List α} :
    Arc n mem i (xs ++ ys) ↔ Arc n mem i xs ∧ Arc n mem (i + xs.length) ys := by
  constructor
  · intro h
    constructor
    · intro k x hx
      have hk : k < xs.length := (List.getElem?_eq_some_iff.mp hx).1
      apply h k x
      rw [List.getElem?_append_left hk, hx]
    · intro k x hx
      have hslot := h (xs.length + k) x (by rw [List.getElem?_append_right (by omega),
        Nat.add_sub_cancel_left, hx])
      rw [Nat.add_assoc]
      exact hslot
  · rintro ⟨hxs, hys⟩ k x hx
    rcases Nat.lt_or_ge k xs.length with hk | hk
    · rw [List.getElem?_append_left hk] at hx
      exact hxs k x hx
    · rw [List.getElem?_append_right hk] at hx
      have hslot := hys (k - xs.length) x hx
      rw [show i + xs.length + (k - xs.length) = i + k by omega] at hslot
      exact hslot

/-- The rest of the circle may be written. -/
theorem Arc.frame {mem : Nat → α} {i j : Nat} {xs : List α} (h : Arc n mem i xs)
    (hj : xs.length ≤ j) (hn : j < n) (x : α) :
    Arc n (Function.update mem ((i + j) % n) x) i xs := by
  intro k y hy
  have hk : k < xs.length := (List.getElem?_eq_some_iff.mp hy).1
  rw [Function.update_of_ne (slot_ne (by omega) (by omega))]
  exact h k y hy

theorem Arc.concat {mem : Nat → α} {i : Nat} {xs : List α} (h : Arc n mem i xs)
    (hn : xs.length < n) (x : α) :
    Arc n (Function.update mem ((i + xs.length) % n) x) i (xs ++ [x]) := by
  refine Arc.append.mpr ⟨h.frame (Nat.le_refl _) hn x, ?_⟩
  intro k y hy
  cases k with
  | zero =>
    rw [Nat.add_zero, Function.update_self]
    exact Option.some.inj hy
  | succ k => cases hy

theorem Arc.drop {mem : Nat → α} {i : Nat} {xs : List α} (h : Arc n mem i xs) {k : Nat}
    (hk : k ≤ xs.length) : Arc n mem (i + k) (xs.drop k) := by
  rw [← List.take_append_drop k xs] at h
  have hlen : (xs.take k).length = k := List.length_take_of_le hk
  have hrest := (Arc.append.mp h).2
  rw [hlen] at hrest
  exact hrest

theorem Arc.take {mem : Nat → α} {i : Nat} {xs : List α} (h : Arc n mem i xs) (k : Nat) :
    Arc n mem i (xs.take k) := by
  rw [← List.take_append_drop k xs] at h
  exact (Arc.append.mp h).1

/-- what is read from the next slot -/
theorem Arc.read {mem : Nat → α} {i : Nat} {xs : List α} (h : Arc n mem i xs) {k : Nat}
    (hk : k < xs.length) : xs.take k ++ [mem ((i + k) % n)] = xs.take (k + 1) := by
  rw [h k _ (List.getElem?_eq_getElem hk), List.take_succ_eq_append_getElem hk]

/-- A list in memory is determined by its length. -/
theorem Arc.unique {mem : Nat → α} {i : Nat} {xs ys : List α} (hx : Arc n mem i xs)
    (hy : Arc n mem i ys) (hlen : xs.length = ys.length) : xs = ys := by
  apply List.ext_getElem hlen
  intro k hk hk'
  rw [← hx k _ (List.getElem?_eq_getElem hk), ← hy k _ (List.getElem?_eq_getElem hk')]

/-! ## indices -/

/-- `if (i >= n) i -= n` -/
def wrap (n i : Nat) : Nat := if n ≤ i then i - n else i

theorem wrap_eq_mod {i : Nat} (h : i < n + n) : wrap n i = i % n := by
  unfold wrap
  split
  · rename_i hle
    rw [Nat.mod_eq_sub_mod hle, Nat.mod_eq_of_lt (by omega)]
  · rename_i hlt
    rw [Nat.mod_eq_of_lt (by omega)]

/-- of a copy of `count` values from slot `i` on, in two pieces, the slot of the `k`-th value -/
def cell (n i count k : Nat) : Nat :=
  let first := min (n - i) count
  if k < first then i + k else k - first

theorem cell_eq_mod {i count k : Nat} (hi : i < n) (hk : k < count) (hc : count ≤ n) :
    cell n i count k = (i + k) % n := by
  unfold cell
  rw [← wrap_eq_mod (by omega)]
  unfold wrap
  simp only
  split <;> split <;> omega

/-- `memcpy` to the address `a` -/
def memcpy (mem : Nat → α) (a : Nat) (xs : List α) : Nat → α := fun b =>
  if a ≤ b then xs[b - a]?.getD (mem b) else mem b

/-- the two pieces of a copy to the slots from `i` on -/
def copyIn (n : Nat) (mem : Nat → α) (i : Nat) (xs : List α) : Nat → α :=
  let first := min (n - i) xs.length
  memcpy (memcpy mem i (xs.take first)) 0 (xs.drop first)

theorem memcpy_self (mem : Nat → α) (a : Nat) {xs : List α} {k : Nat} (h : k < xs.length) :
    memcpy mem a xs (a + k) = xs[k] := by
  unfold memcpy
  rw [if_pos (Nat.le_add_right a k), Nat.add_sub_cancel_left, List.getElem?_eq_getElem h,
    Option.getD_some]

theorem memcpy_other (mem : Nat → α) {a b : Nat} {xs : List α} (h : b < a ∨ a + xs.length ≤ b) :
    memcpy mem a xs b = mem b := by
  unfold memcpy
  split
  · rw [List.getElem?_eq_none (by omega), Option.getD_none]
  · rfl

theorem copyIn_slot (mem : Nat → α) {i k : Nat} {xs : List α} (hi : i < n) (hn : xs.length ≤ n)
    (hk : k < xs.length) : copyIn n mem i xs ((i + k) % n) = xs[k] := by
  have hcell := cell_eq_mod hi hk hn
  unfold cell at hcell
  unfold copyIn
  simp only at hcell ⊢
  rw [← hcell]
  split
  · rename_i hfirst
    -- the second piece ends before the first one starts
    rw [memcpy_other _ (.inr (by rw [List.length_drop]; omega)),
      memcpy_self mem i (by rw [List.length_take]; omega), List.getElem_take]
  · rename_i hsecond
    have hlen : k - min (n - i) xs.length < (xs.drop (min (n - i) xs.length)).length := by
      rw [List.length_drop]
      omega
    have hself := memcpy_self (memcpy mem i (xs.take (min (n - i) xs.length))) 0 hlen
    rw [Nat.zero_add] at hself
    rw [hself, List.getElem_drop]
    congr 1
    omega

theorem copyIn_other (mem : Nat → α) {i b : Nat} {xs : List α} (hi : i < n) (hn : xs.length ≤ n)
    (hb : ∀ k < xs.length, b ≠ (i + k) % n) : copyIn n mem i xs b = mem b := by
  have hne : ∀ k < xs.length, b ≠ cell n i xs.length k := by
    intro k hk
    rw [cell_eq_mod hi hk hn]
    exact hb k hk
  unfold cell at hne
  unfold copyIn
  simp only at hne ⊢
  rw [memcpy_other _ (.inr ?_), memcpy_other _ ?_]
  · rw [List.length_take]
    by_contra hin
    have := hne (b - i) (by omega)
    rw [if_pos (by omega)] at this
    omega
  · rw [List.length_drop]
    by_contra hin
    have := hne (b + min (n - i) xs.length) (by omega)
    rw [if_neg (by omega)] at this
    omega

/-- A copy behind a segment extends it. -/
theorem Arc.copyIn {mem : Nat → α} {i j : Nat} {xs ys : List α} (h : Arc n mem i xs)
    (hj : j = (i + xs.length) % n) (hn : xs.length + ys.length ≤ n) (hpos : 0 < n) :
    Arc n (copyIn n mem j ys) i (xs ++ ys) := by
  have hjn : j < n := by
    rw [hj]
    exact Nat.mod_lt _ hpos
  have hslot : ∀ k, (j + k) % n = (i + (xs.length + k)) % n := by
    intro k
    rw [hj, Nat.mod_add_mod, Nat.add_assoc]
  refine Arc.append.mpr ⟨?_, ?_⟩
  · intro k x hx
    have hk : k < xs.length := (List.getElem?_eq_some_iff.mp hx).1
    rw [copyIn_other mem hjn (by omega)]
    · exact h k x hx
    · intro m hm
      rw [hslot]
      exact slot_ne (by omega) (by omega)
  · intro k x hx
    obtain ⟨hk, rfl⟩ := List.getElem?_eq_some_iff.mp hx
    rw [Nat.add_assoc, ← hslot]
    exact copyIn_slot mem hjn (by omega) hk

/-- the values in the slots from `i` on -/
def values (n : Nat) (mem : Nat → α) (i len : Nat) : List α :=
  (List.range len).map fun k => mem ((i + k) % n)

theorem length_values (mem : Nat → α) (i len : Nat) : (values n mem i len).length = len := by
  unfold values
  rw [List.length_map, List.length_range]

theorem segment_values (mem : Nat → α) (i len : Nat) : Arc n mem i (values n mem i len) := by
  intro k x hx
  unfold values at hx
  rw [List.getElem?_map] at hx
  obtain ⟨m, hm, rfl⟩ := Option.map_eq_some_iff.mp hx
  obtain ⟨hlt, hm⟩ := List.getElem?_eq_some_iff.mp hm
  rw [List.getElem_range] at hm
  rw [hm]

theorem Arc.eq_values {mem : Nat → α} {i : Nat} {xs : List α} (h : Arc n mem i xs) :
    values n mem i xs.length = xs :=
  (segment_values mem i _).unique h (length_values mem i _)

/-- the distance from `i` to `j` around the circle, as the length of a segment -/
theorem wrap_distance {i len : Nat} (hi : i < n) (hlen : len < n) :
    wrap n (n + (i + len) % n - i) = len := by
  rw [← wrap_eq_mod (by omega)]
  unfold wrap
  split <;> split <;> omega

end Fifo
end Bramble
