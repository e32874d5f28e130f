import Mathlib.Data.List.Induction
import Mathlib.Data.List.Nodup
import Mathlib.Data.List.Perm.Subperm

/-!
# Lists

* `concat_eq_append_cons`      where an element of `l ++ [a]` can be;
* `eq_or_mem_eraseIdx`         what is left when an element is erased;
* `filterMap_cons_induction`   up to the first element that `filterMap` keeps;
* `filter_prefix`              a list in which nothing overtakes an element of `l` has its elements
                               in the order of `l`;
* `map_eq_map_congr`           images of lists under functions that tell the same elements apart.
-/

namespace Bramble
variable {α β : Type*}

/-- an element of `l ++ [a]` is the last one or an element of `l` -/
theorem concat_eq_append_cons {l pre post : List α} {a b : α}
    (h : l ++ [a] = pre ++ b :: post) :
    (l = pre ∧ a = b) ∨ ∃ post', l = pre ++ b :: post' := by
  rcases List.eq_nil_or_concat' post with rfl | ⟨post', x, rfl⟩
  · obtain ⟨h1, h2⟩ := List.append_inj' h rfl
    exact .inl ⟨h1, List.head_eq_of_cons_eq h2⟩
  · have h' : l ++ [a] = (pre ++ b :: post') ++ [x] := by
      rw [h, List.append_assoc, List.cons_append]
    exact .inr ⟨post', (List.append_inj' h' rfl).1⟩

/-- an element is the one erased, or stays -/
theorem eq_or_mem_eraseIdx {l : List α} {i : Nat} {a b : α} (hi : l[i]? = some a) (hb : b ∈ l) :
    b = a ∨ b ∈ l.eraseIdx i := by
  obtain ⟨j, hj⟩ := List.getElem?_of_mem hb
  by_cases hji : j = i
  · rw [hji, hi] at hj
    exact .inl (Option.some.inj hj).symm
  · exact .inr (List.mem_eraseIdx_iff_getElem?.mpr ⟨j, hji, hj⟩)

/-- elements that are dropped come before the first that is kept -/
@[elab_as_elim]
theorem filterMap_cons_induction {f : α → Option β} {b : β} {bs : List β}
    {motive : List α → Prop} {l : List α} (h : l.filterMap f = b :: bs)
    (dropped : ∀ a l, f a = none → motive l → motive (a :: l))
    (kept : ∀ a l, f a = some b → l.filterMap f = bs → motive (a :: l)) : motive l := by
  induction l with
  | nil => cases h
  | cons a l ih =>
    cases ha : f a with
    | none =>
      rw [List.filterMap_cons_none ha] at h
      exact dropped a l ha (ih h)
    | some b' =>
      rw [List.filterMap_cons_some ha] at h
      obtain ⟨rfl, hl⟩ := List.cons.inj h
      exact kept a l ha hl

/-- If nothing in `w` overtakes an element of `l`, the elements of `l` in `w` are a first part of
`l`. -/
theorem filter_prefix [BEq α] [LawfulBEq α] {l w : List α} (hl : l.Nodup) (hw : w.Nodup)
    (h : ∀ w1 b w2, w = w1 ++ b :: w2 → ∀ l1 l2, l = l1 ++ b :: l2 → ∀ a ∈ l1, a ∈ w1) :
    w.filter (· ∈ l) <+: l := by
  induction w using List.reverseRecOn with
  | nil => exact List.nil_prefix
  | append_singleton w x ih =>
    obtain ⟨hw', _, hx⟩ := List.nodup_append'.mp hw
    have hxw : x ∉ w := fun hmem => hx hmem (List.mem_singleton_self x)
    have ih' := ih hw' fun w1 b w2 hsplit => h w1 b (w2 ++ [x]) (by
      rw [hsplit, List.append_assoc, List.cons_append])
    rw [List.filter_append]
    by_cases hxl : x ∈ l
    · rw [List.filter_cons_of_pos (by simpa using hxl), List.filter_nil]
      obtain ⟨l1, l2, rfl⟩ := List.append_of_mem hxl
      have hbefore := h w x [] rfl l1 l2 rfl
      obtain ⟨rest, hrest⟩ := ih'
      -- the elements before `x` are there, and `x` is not
      have hsub : l1 ⊆ w.filter (· ∈ l1 ++ x :: l2) := fun a ha =>
        List.mem_filter.mpr ⟨hbefore a ha, by simpa using .inl ha⟩
      have hnot : x ∉ w.filter (· ∈ l1 ++ x :: l2) := fun hmem => hxw (List.mem_filter.mp hmem).1
      have hl1 : l1.Nodup := (List.nodup_append'.mp hl).1
      have hlen : l1.length ≤ (w.filter (· ∈ l1 ++ x :: l2)).length :=
        (hl1.subperm hsub).length_le
      rcases List.append_eq_append_iff.mp hrest with ⟨c, hc, _⟩ | ⟨c, hc, hc'⟩
      · have hnil : c = [] := by
          have := congrArg List.length hc
          rw [List.length_append] at this
          exact List.eq_nil_of_length_eq_zero (by omega)
        rw [hnil, List.append_nil] at hc
        rw [← hc]
        exact ⟨l2, by rw [List.append_assoc]; rfl⟩
      · cases c with
        | nil =>
          rw [List.append_nil] at hc
          rw [hc]
          exact ⟨l2, by rw [List.append_assoc]; rfl⟩
        | cons y c =>
          obtain ⟨rfl, _⟩ := List.cons.inj hc'
          refine absurd ?_ hnot
          rw [hc]
          exact List.mem_append_right _ List.mem_cons_self
    · rw [List.filter_cons_of_neg (by simpa using hxl), List.filter_nil, List.append_nil]
      exact ih'

/-- two functions that tell the same elements apart -/
theorem map_eq_map_congr {γ : Type*} {f : α → β} {g : α → γ} {xs ys : List α}
    (h : ∀ x ∈ xs, ∀ y ∈ ys, f x = f y ↔ g x = g y) : xs.map f = ys.map f ↔ xs.map g = ys.map g := by
  induction xs generalizing ys with
  | nil =>
    cases ys with
    | nil => exact iff_of_true rfl rfl
    | cons y ys => exact iff_of_false (List.cons_ne_nil _ _).symm (List.cons_ne_nil _ _).symm
  | cons x xs ih =>
    cases ys with
    | nil => exact iff_of_false (List.cons_ne_nil _ _) (List.cons_ne_nil _ _)
    | cons y ys =>
      have hrest := ih fun x hx y hy => h x (List.mem_cons_of_mem _ hx) y (List.mem_cons_of_mem _ hy)
      rw [List.map_cons, List.map_cons, List.map_cons, List.map_cons, List.cons.injEq,
        List.cons.injEq, h x List.mem_cons_self y List.mem_cons_self, hrest]

end Bramble
