import Mathlib.Data.List.Induction
import Mathlib.Logic.Function.Basic

/-!
# Rings of linked nodes

Nodes that know the next node and the previous one.

* `Links.Seg`     from a node, through the nodes of a list, to a node;
* `Links.Ring`    from a node back to it;
* `Ring.rotate`   any node of a ring may be taken as its first;
* `Ring.insert`   a node put behind another;
* `Ring.remove`   a node taken out;
* `Ring.frame`    rings whose nodes are not written stay.
-/

namespace Bramble

structure Links (ν : Type*) where
  next : ν → ν
  prev : ν → ν

namespace Links
variable {ν : Type*}

/-- `b` becomes the next node of `a` -/
def link [DecidableEq ν] (k : Links ν) (a b : ν) : Links ν :=
  ⟨Function.update k.next a b, Function.update k.prev b a⟩

def insertAfter [DecidableEq ν] (k : Links ν) (a x : ν) : Links ν := (k.link x (k.next a)).link a x

def remove [DecidableEq ν] (k : Links ν) (x : ν) : Links ν := k.link (k.prev x) (k.next x)

def Seg (k : Links ν) : ν → List ν → ν → Prop
  | a, [], b => k.next a = b ∧ k.prev b = a
  | a, x :: xs, b => (k.next a = x ∧ k.prev x = a) ∧ k.Seg x xs b

def Ring (k : Links ν) (e : ν) (xs : List ν) : Prop := k.Seg e xs e

section
variable {k k' : Links ν} {a b e x : ν} {xs ys : List ν}

theorem seg_append : k.Seg a (xs ++ x :: ys) b ↔ k.Seg a xs x ∧ k.Seg x ys b := by
  induction xs generalizing a with
  | nil => exact Iff.rfl
  | cons y xs ih =>
    show (_ ∧ k.Seg y (xs ++ x :: ys) b) ↔ (_ ∧ k.Seg y xs x) ∧ _
    rw [ih, ← and_assoc]

theorem Seg.congr (h : k.Seg a xs b) (hnext : ∀ y ∈ a :: xs, k'.next y = k.next y)
    (hprev : ∀ y ∈ xs ++ [b], k'.prev y = k.prev y) : k'.Seg a xs b := by
  induction xs generalizing a with
  | nil =>
    refine ⟨?_, ?_⟩
    · rw [hnext a List.mem_cons_self, h.1]
    · rw [hprev b List.mem_cons_self, h.2]
  | cons x xs ih =>
    refine ⟨⟨?_, ?_⟩, ih h.2 ?_ ?_⟩
    · rw [hnext a List.mem_cons_self, h.1.1]
    · rw [hprev x List.mem_cons_self, h.1.2]
    · exact fun y hy => hnext y (List.mem_cons_of_mem a hy)
    · exact fun y hy => hprev y (List.mem_cons_of_mem x hy)

theorem Ring.rotate : k.Ring e (xs ++ a :: ys) ↔ k.Ring a (ys ++ e :: xs) := by
  unfold Ring
  rw [seg_append, seg_append, and_comm]

theorem perm_rotate (e a : ν) (xs ys : List ν) :
    (e :: (xs ++ a :: ys)).Perm (a :: (ys ++ e :: xs)) := by
  have hcomm : (e :: xs ++ a :: ys).Perm (a :: ys ++ e :: xs) := List.perm_append_comm
  exact hcomm

theorem Ring.frame (h : k.Ring e xs) (hnext : ∀ y ∈ e :: xs, k'.next y = k.next y)
    (hprev : ∀ y ∈ e :: xs, k'.prev y = k.prev y) : k'.Ring e xs := by
  refine h.congr hnext fun y hy => hprev y ?_
  obtain hy | hy := List.mem_append.mp hy
  · exact List.mem_cons_of_mem e hy
  · exact List.mem_singleton.mp hy ▸ List.mem_cons_self

/-! ### Neighbours -/

theorem Ring.neighbours (h : k.Ring e (xs ++ ys)) :
    k.next (xs.getLastD e) = ys.headD e ∧ k.prev (ys.headD e) = xs.getLastD e := by
  induction xs using List.reverseRecOn with
  | nil =>
    cases ys with
    | nil => exact h
    | cons y ys => exact h.1
  | append_singleton xs x _ =>
    rw [List.append_assoc, List.singleton_append] at h
    have hx := (seg_append.mp h).2
    rw [List.getLastD_concat]
    cases ys with
    | nil => exact hx
    | cons y ys => exact hx.1

/-! ### A node behind another -/

variable [DecidableEq ν]

theorem link_next (k : Links ν) (a b y : ν) : (k.link a b).next y = if y = a then b else k.next y :=
  Function.update_apply k.next a b y

theorem link_prev (k : Links ν) (a b y : ν) : (k.link a b).prev y = if y = b then a else k.prev y :=
  Function.update_apply k.prev b a y

theorem insertAfter_next (k : Links ν) {a x y : ν} (ha : y ≠ a) (hx : y ≠ x) :
    (k.insertAfter a x).next y = k.next y := by
  rw [insertAfter, link_next, if_neg ha, link_next, if_neg hx]

theorem insertAfter_prev (k : Links ν) {a x y : ν} (hx : y ≠ x) (hb : y ≠ k.next a) :
    (k.insertAfter a x).prev y = k.prev y := by
  rw [insertAfter, link_prev, if_neg hx, link_prev, if_neg hb]

theorem Ring.insert_first (h : k.Ring a xs) (hnodup : (a :: xs).Nodup) (hx : x ∉ a :: xs) :
    (k.insertAfter a x).Ring a (x :: xs) := by
  have hxa : x ≠ a := fun heq => hx (heq ▸ List.mem_cons_self)
  cases xs with
  | nil =>
    obtain ⟨hnext, -⟩ := h
    simp only [insertAfter, Ring, Seg, link_next, link_prev, hnext, hxa, Ne.symm hxa, if_true,
      if_false, and_self]
  | cons b ys =>
    obtain ⟨⟨hnext, -⟩, htail⟩ := h
    have hxb : x ≠ b := fun heq => hx (heq ▸ List.mem_cons_of_mem a List.mem_cons_self)
    obtain ⟨ha, hb⟩ := List.nodup_cons.mp hnodup
    refine ⟨⟨?_, ?_⟩, ⟨?_, ?_⟩, htail.congr ?_ ?_⟩
    · rw [insertAfter, link_next, if_pos rfl]
    · rw [insertAfter, link_prev, if_pos rfl]
    · rw [insertAfter, link_next, if_neg hxa, link_next, if_pos rfl, hnext]
    · rw [insertAfter, link_prev, if_neg (Ne.symm hxb), link_prev, hnext, if_pos rfl]
    · intro y hy
      have hya : y ≠ a := fun heq => ha (heq ▸ hy)
      exact k.insertAfter_next hya fun heq => hx (List.mem_cons_of_mem a (heq ▸ hy))
    · intro y hy
      have hyx : y ≠ x := by
        obtain hy | hy := List.mem_append.mp hy
        · exact fun heq => hx (List.mem_cons_of_mem a (List.mem_cons_of_mem b (heq ▸ hy)))
        · exact fun heq => hxa (heq.symm.trans (List.mem_singleton.mp hy))
      have hyb : y ≠ b := by
        obtain hy | hy := List.mem_append.mp hy
        · exact fun heq => (List.nodup_cons.mp hb).1 (heq ▸ hy)
        · exact fun heq => ha (List.mem_singleton.mp hy ▸ heq ▸ List.mem_cons_self)
      exact k.insertAfter_prev hyx (hnext.symm ▸ hyb)

theorem Ring.insert (h : k.Ring e (xs ++ ys)) (hnodup : (e :: (xs ++ ys)).Nodup)
    (hx : x ∉ e :: (xs ++ ys)) : (k.insertAfter (xs.getLastD e) x).Ring e (xs ++ x :: ys) := by
  induction xs using List.reverseRecOn with
  | nil => exact h.insert_first hnodup hx
  | append_singleton xs a _ =>
    have heq : ∀ zs : List ν, xs ++ [a] ++ zs = xs ++ a :: zs := fun zs =>
      (List.append_cons ..).symm
    rw [heq] at h hnodup hx
    rw [List.getLastD_concat, heq, Ring.rotate]
    refine Ring.insert_first (Ring.rotate.mp h) ((perm_rotate ..).nodup_iff.mp hnodup) fun hmem =>
      hx ?_
    exact (perm_rotate ..).mem_iff.mpr hmem

/-! ### A node out -/

theorem Ring.remove_first (h : k.Ring a (x :: xs)) (hnodup : (a :: x :: xs).Nodup) :
    (k.remove x).Ring a xs := by
  obtain ⟨⟨-, hprev⟩, htail⟩ := h
  obtain ⟨ha, hx⟩ := List.nodup_cons.mp hnodup
  obtain ⟨hx, hxs⟩ := List.nodup_cons.mp hx
  unfold Links.remove
  rw [hprev]
  cases xs with
  | nil =>
    rw [htail.1]
    refine ⟨?_, ?_⟩
    · rw [link_next, if_pos rfl]
    · rw [link_prev, if_pos rfl]
  | cons b ys =>
    obtain ⟨⟨hnext, -⟩, htail⟩ := htail
    rw [hnext]
    refine ⟨⟨?_, ?_⟩, htail.congr ?_ ?_⟩
    · rw [link_next, if_pos rfl]
    · rw [link_prev, if_pos rfl]
    · intro y hy
      have hya : y ≠ a := fun heq => ha (List.mem_cons_of_mem x (heq ▸ hy))
      rw [link_next, if_neg hya]
    · intro y hy
      have hyb : y ≠ b := by
        obtain hy | hy := List.mem_append.mp hy
        · exact fun heq => (List.nodup_cons.mp hxs).1 (heq ▸ hy)
        · exact fun heq => ha (List.mem_singleton.mp hy ▸
            List.mem_cons_of_mem x (heq ▸ List.mem_cons_self))
      rw [link_prev, if_neg hyb]

theorem Ring.remove (h : k.Ring e (xs ++ x :: ys)) (hnodup : (e :: (xs ++ x :: ys)).Nodup) :
    (k.remove x).Ring e (xs ++ ys) := by
  induction xs using List.reverseRecOn with
  | nil => exact h.remove_first hnodup
  | append_singleton xs a _ =>
    have heq : ∀ zs : List ν, xs ++ [a] ++ zs = xs ++ a :: zs := fun zs =>
      (List.append_cons ..).symm
    rw [heq] at h hnodup ⊢
    rw [Ring.rotate]
    exact Ring.remove_first (Ring.rotate.mp h) ((perm_rotate ..).nodup_iff.mp hnodup)

end

end Links
end Bramble
