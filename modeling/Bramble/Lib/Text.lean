import Mathlib

/-!
# Text in columns

Texts are lists of bytes.

* `pad`               `%-ns` of `printf`; what does not end in a blank is read back from it;
* `hex2`, `hexText`   `%02x` of a byte, and of some bytes with blanks between them;
* `lines_inj`         texts that are made of lines are equal exactly if their lines are.
-/

namespace Bramble
namespace Text

/-- the characters of a text that is written in ASCII -/
def ascii (s : String) : List UInt8 := s.toList.map fun c => UInt8.ofNat c.toNat

/-! ## columns -/

/-- `%-ns` -/
def pad (n : Nat) (s : List UInt8) : List UInt8 := s ++ List.replicate (n - s.length) 32

theorem pad_length {n : Nat} {s : List UInt8} (h : s.length ≤ n) : (pad n s).length = n := by
  unfold pad
  rw [List.length_append, List.length_replicate]
  omega

theorem pad_mem {n : Nat} {s : List UInt8} {c : UInt8} (h : c ∈ pad n s) : c ∈ s ∨ c = 32 :=
  (List.mem_append.mp h).imp_right List.eq_of_mem_replicate

/-- what is in front of the blanks at the end -/
theorem rdropWhile_pad {n : Nat} {s : List UInt8} (h : s.getLast? ≠ some 32) :
    (pad n s).rdropWhile (· = 32) = s := by
  unfold pad
  generalize n - s.length = k
  induction k with
  | zero =>
    rw [List.replicate_zero, List.append_nil, List.rdropWhile_eq_self_iff]
    intro hne
    rw [List.getLast?_eq_getLast_of_ne_nil hne] at h
    simpa using fun heq => h (congrArg some heq)
  | succ k ih =>
    rw [List.replicate_succ', ← List.append_assoc, List.rdropWhile_concat_pos _ _ _ (by simp), ih]

theorem pad_inj {n : Nat} {s t : List UInt8} (hs : s.getLast? ≠ some 32)
    (ht : t.getLast? ≠ some 32) (h : pad n s = pad n t) : s = t := by
  rw [← rdropWhile_pad (n := n) hs, h, rdropWhile_pad ht]

/-! ## numbers -/

def hexDigit (d : Nat) : UInt8 := UInt8.ofNat (if d < 10 then 48 + d else 87 + d)

/-- `%02x` -/
def hex2 (v : Nat) : List UInt8 := [hexDigit (v / 16), hexDigit (v % 16)]

theorem hexDigit_facts : ∀ a : Fin 16, hexDigit a ≠ 32 ∧ hexDigit a ≠ 10 ∧ hexDigit a ≠ 0 ∧
    ∀ b : Fin 16, hexDigit a = hexDigit b → a = b := by
  decide

theorem hex2_inj {v w : Nat} (hv : v < 256) (hw : w < 256) (h : hex2 v = hex2 w) : v = w := by
  obtain ⟨hhigh, hlow⟩ := List.cons.inj h
  have hhigh := (hexDigit_facts ⟨v / 16, by omega⟩).2.2.2 ⟨w / 16, by omega⟩ hhigh
  have hlow := (hexDigit_facts ⟨v % 16, by omega⟩).2.2.2 ⟨w % 16, by omega⟩ (List.cons.inj hlow).1
  have hhigh : v / 16 = w / 16 := congrArg Fin.val hhigh
  have hlow : v % 16 = w % 16 := congrArg Fin.val hlow
  omega

theorem hex2_mem {v : Nat} (hv : v < 256) {c : UInt8} (h : c ∈ hex2 v) : c ≠ 32 ∧ c ≠ 10 ∧ c ≠ 0 := by
  obtain ⟨d, rfl⟩ : ∃ d : Fin 16, c = hexDigit d := by
    rcases List.mem_cons.mp h with rfl | h
    · exact ⟨⟨v / 16, by omega⟩, rfl⟩
    · exact ⟨⟨v % 16, by omega⟩, List.mem_singleton.mp h⟩
  obtain ⟨h1, h2, h3, _⟩ := hexDigit_facts d
  exact ⟨h1, h2, h3⟩

/-- what follows the first byte -/
def hexTail : List UInt8 → List UInt8
  | [] => []
  | c :: cs => 32 :: (hex2 c.toNat ++ hexTail cs)

/-- some bytes with blanks between them -/
def hexText : List UInt8 → List UInt8
  | [] => []
  | c :: cs => hex2 c.toNat ++ hexTail cs

theorem hexTail_inj {cs ds : List UInt8} (h : hexTail cs = hexTail ds) : cs = ds := by
  induction cs generalizing ds with
  | nil =>
    cases ds with
    | nil => rfl
    | cons d ds => cases h
  | cons c cs ih =>
    cases ds with
    | nil => cases h
    | cons d ds =>
      obtain ⟨hhead, htail⟩ := List.append_inj (List.cons.inj h).2 rfl
      rw [ih htail, UInt8.toNat_inj.mp (hex2_inj c.toNat_lt d.toNat_lt hhead)]

theorem hexText_inj {cs ds : List UInt8} (h : hexText cs = hexText ds) : cs = ds := by
  refine hexTail_inj ?_
  cases cs with
  | nil =>
    cases ds with
    | nil => rfl
    | cons d ds => cases h
  | cons c cs =>
    cases ds with
    | nil => cases h
    | cons d ds =>
      have h : hex2 c.toNat ++ hexTail cs = hex2 d.toNat ++ hexTail ds := h
      show 32 :: (hex2 c.toNat ++ hexTail cs) = 32 :: (hex2 d.toNat ++ hexTail ds)
      rw [h]

theorem hexTail_length (cs : List UInt8) : (hexTail cs).length = 3 * cs.length := by
  induction cs with
  | nil => rfl
  | cons c cs ih =>
    show (hex2 c.toNat ++ hexTail cs).length + 1 = 3 * (cs.length + 1)
    rw [List.length_append, ih]
    show 2 + 3 * cs.length + 1 = _
    omega

theorem hexText_length (cs : List UInt8) : (hexText cs).length = 3 * cs.length - 1 := by
  cases cs with
  | nil => rfl
  | cons c cs =>
    rw [← hexTail_length]
    rfl

theorem hexTail_last (cs : List UInt8) : (hexTail cs).getLast? ≠ some 32 := by
  induction cs with
  | nil => exact (Option.some_ne_none 32).symm
  | cons c cs ih =>
    have hdigit := (hex2_mem c.toNat_lt (List.mem_cons_of_mem _ List.mem_cons_self)).1
    show ((32 :: hex2 c.toNat) ++ hexTail cs).getLast? ≠ _
    rw [List.getLast?_append]
    cases hlast : (hexTail cs).getLast? with
    | none => exact fun heq => hdigit (Option.some.inj heq)
    | some a =>
      rw [hlast] at ih
      exact ih

theorem hexText_last (cs : List UInt8) : (hexText cs).getLast? ≠ some 32 := by
  cases cs with
  | nil => exact (Option.some_ne_none 32).symm
  | cons c cs =>
    have hlast := hexTail_last (c :: cs)
    have hne : hex2 c.toNat ++ hexTail cs ≠ [] := List.append_ne_nil_of_left_ne_nil
      (List.cons_ne_nil _ _) _
    show (hex2 c.toNat ++ hexTail cs).getLast? ≠ _
    rwa [show hexTail (c :: cs) = 32 :: (hex2 c.toNat ++ hexTail cs) from rfl,
      List.getLast?_cons_of_ne_nil hne] at hlast

theorem hexTail_mem {cs : List UInt8} {a : UInt8} (h : a ∈ hexTail cs) : a ≠ 10 ∧ a ≠ 0 := by
  induction cs with
  | nil => cases h
  | cons c cs ih =>
    rcases List.mem_cons.mp h with rfl | h
    · decide
    · rcases List.mem_append.mp h with h | h
      · exact (hex2_mem c.toNat_lt h).2
      · exact ih h

theorem hexText_mem {cs : List UInt8} {a : UInt8} (h : a ∈ hexText cs) : a ≠ 10 ∧ a ≠ 0 := by
  cases cs with
  | nil => cases h
  | cons c cs =>
    have hmem : a ∈ hexTail (c :: cs) := List.mem_cons_of_mem 32 h
    exact hexTail_mem hmem

/-! ## lines -/

/-- the first `a` ends the first part -/
theorem append_cons_inj {α : Type*} {a : α} {xs ys us vs : List α} (hx : a ∉ xs) (hy : a ∉ ys)
    (h : xs ++ a :: us = ys ++ a :: vs) : xs = ys ∧ us = vs := by
  induction xs generalizing ys with
  | nil =>
    cases ys with
    | nil => exact ⟨rfl, (List.cons.inj h).2⟩
    | cons y ys => exact absurd (List.cons.inj h).1 fun heq => hy (heq ▸ List.mem_cons_self)
  | cons x xs ih =>
    cases ys with
    | nil => exact absurd (List.cons.inj h).1 fun heq => hx (heq ▸ List.mem_cons_self)
    | cons y ys =>
      obtain ⟨rfl, hrest⟩ := List.cons.inj h
      obtain ⟨rfl, hus⟩ := ih (List.not_mem_of_not_mem_cons hx) (List.not_mem_of_not_mem_cons hy)
        hrest
      exact ⟨rfl, hus⟩

/-- **A text determines its lines.** -/
theorem lines_inj {α : Type*} {a : α} {xs ys : List (List α)} (hx : ∀ l ∈ xs, a ∉ l)
    (hy : ∀ l ∈ ys, a ∉ l) (h : xs.flatMap (· ++ [a]) = ys.flatMap (· ++ [a])) : xs = ys := by
  induction xs generalizing ys with
  | nil =>
    cases ys with
    | nil => rfl
    | cons y ys =>
      rw [List.flatMap_cons, List.append_assoc, List.singleton_append] at h
      exact absurd h.symm (List.append_ne_nil_of_right_ne_nil _ (List.cons_ne_nil _ _))
  | cons x xs ih =>
    cases ys with
    | nil =>
      rw [List.flatMap_cons, List.append_assoc, List.singleton_append] at h
      exact absurd h (List.append_ne_nil_of_right_ne_nil _ (List.cons_ne_nil _ _))
    | cons y ys =>
      obtain ⟨hxhead, hxs⟩ := List.forall_mem_cons.mp hx
      obtain ⟨hyhead, hys⟩ := List.forall_mem_cons.mp hy
      rw [List.flatMap_cons, List.flatMap_cons, List.append_assoc, List.append_assoc,
        List.singleton_append, List.singleton_append] at h
      obtain ⟨rfl, hrest⟩ := append_cons_inj hxhead hyhead h
      rw [ih hxs hys hrest]

end Text
end Bramble
