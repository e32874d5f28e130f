import Mathlib

/-!
# Decimal numerals, as `strtol` reads them

Strings are lists of bytes, without the NUL at their end.  A numeral is any white space, an optional
sign, and digits.

* `IsNumeral`      the string is a numeral, with its value;
* `numeral`        reads a numeral from the front of a string;
* `numeral_all`    it takes the whole string exactly if that is a numeral;
* `strtol`         the function of ISO C in base 10, for a type of integers from `lo` to `hi`;
* `strtol_all`     what it takes to the end without an error.
-/

namespace Bramble

/-! ## characters -/

/-- `isspace` of the C locale -/
def isSpace (c : UInt8) : Bool := c == 32 || (9 ≤ c && c ≤ 13)

def isDigit (c : UInt8) : Bool := 48 ≤ c && c ≤ 57

/-- an optional sign -/
inductive Sign where
  | none | plus | minus
  deriving DecidableEq

namespace Sign

def chars : Sign → List UInt8
  | none => []
  | plus => [43]
  | minus => [45]

def apply : Sign → Nat → Int
  | none, n | plus, n => n
  | minus, n => -n

end Sign

/-- the value of a row of digits, after the digits that make `n` -/
def digitsValue (n : Nat) (ds : List UInt8) : Nat :=
  ds.foldl (fun n c => 10 * n + (c.toNat - 48)) n

/-- **`s` is a decimal numeral of the value `v`.** -/
def IsNumeral (s : List UInt8) (v : Int) : Prop :=
  ∃ (ws : List UInt8) (sign : Sign) (ds : List UInt8), s = ws ++ (sign.chars ++ ds) ∧
    (∀ c ∈ ws, isSpace c = true) ∧ ds ≠ [] ∧ (∀ c ∈ ds, isDigit c = true) ∧
    v = sign.apply (digitsValue 0 ds)

/-! ## reading a numeral -/

def takeSign : List UInt8 → Sign × List UInt8
  | [] => (.none, [])
  | c :: s => if c = 45 then (.minus, s) else if c = 43 then (.plus, s) else (.none, c :: s)

/-- the value of the numeral in front, and the rest of the string -/
def numeral (s : List UInt8) : Option (Int × List UInt8) :=
  let (sign, t) := takeSign (s.dropWhile isSpace)
  let ds := t.takeWhile isDigit
  if ds = [] then none else some (sign.apply (digitsValue 0 ds), t.dropWhile isDigit)

structure StrtolResult where
  value : Int
  /-- the string at `endptr` -/
  rest : List UInt8
  erange : Bool
  deriving DecidableEq

/-- `strtol (s, &endptr, 10)` -/
def strtol (lo hi : Int) (s : List UInt8) : StrtolResult :=
  match numeral s with
  | none => ⟨0, s, false⟩
  | some (v, rest) =>
    if v < lo then ⟨lo, rest, true⟩ else if hi < v then ⟨hi, rest, true⟩ else ⟨v, rest, false⟩

/-! ## the numerals are those that are read -/

theorem takeSign_chars (s : List UInt8) : (takeSign s).1.chars ++ (takeSign s).2 = s := by
  cases s with
  | nil => rfl
  | cons c s =>
    by_cases hm : c = 45
    · subst hm
      rfl
    · by_cases hp : c = 43
      · subst hp
        rfl
      · have hnone : takeSign (c :: s) = (.none, c :: s) := by
          show (if c = 45 then _ else _) = _
          rw [if_neg hm, if_neg hp]
        rw [hnone]
        rfl

theorem digit_facts : ∀ c : UInt8, isDigit c = true → isSpace c = false ∧ c ≠ 45 ∧ c ≠ 43 := by
  decide +kernel

theorem takeSign_digits {ds : List UInt8} (hne : ds ≠ []) (hds : ∀ c ∈ ds, isDigit c = true)
    (sign : Sign) : takeSign (sign.chars ++ ds) = (sign, ds) := by
  cases sign with
  | none =>
    cases ds with
    | nil => exact absurd rfl hne
    | cons c ds =>
      obtain ⟨_, hm, hp⟩ := digit_facts c (hds c List.mem_cons_self)
      show (if c = 45 then _ else _) = _
      rw [if_neg hm, if_neg hp]
  | plus => rfl
  | minus => rfl

theorem dropWhile_sign {ds : List UInt8} (hne : ds ≠ []) (hds : ∀ c ∈ ds, isDigit c = true)
    (sign : Sign) : (sign.chars ++ ds).dropWhile isSpace = sign.chars ++ ds := by
  cases sign with
  | none =>
    cases ds with
    | nil => exact absurd rfl hne
    | cons c ds =>
      obtain ⟨hs, _⟩ := digit_facts c (hds c List.mem_cons_self)
      exact List.dropWhile_cons_of_neg (by rw [hs]; exact Bool.false_ne_true)
  | plus => rfl
  | minus => rfl

/-- **A string is read to its end exactly if it is a numeral.** -/
theorem numeral_all {s : List UInt8} {v : Int} : numeral s = some (v, []) ↔ IsNumeral s v := by
  constructor
  · intro h
    have hsign := takeSign_chars (s.dropWhile isSpace)
    unfold numeral at h
    generalize takeSign (s.dropWhile isSpace) = signed at h hsign
    obtain ⟨sign, t⟩ := signed
    obtain ⟨hne, h⟩ := Option.ite_none_left_eq_some.mp h
    obtain ⟨hv, hrest⟩ := Prod.mk.inj (Option.some.inj h)
    have hdigits : ∀ c ∈ t, isDigit c = true := List.dropWhile_eq_nil_iff.mp hrest
    rw [List.takeWhile_eq_self_iff.mpr hdigits] at hne hv
    refine ⟨s.takeWhile isSpace, sign, t, ?_, fun c hc => List.mem_takeWhile_imp hc, hne, hdigits,
      hv.symm⟩
    rw [hsign, List.takeWhile_append_dropWhile]
  · rintro ⟨ws, sign, ds, rfl, hws, hne, hds, rfl⟩
    unfold numeral
    rw [List.dropWhile_append_of_pos hws, dropWhile_sign hne hds, takeSign_digits hne hds]
    simp only [List.takeWhile_eq_self_iff.mpr hds, List.dropWhile_eq_nil_iff.mpr hds, if_neg hne]

/-- a string is a numeral of one value at most -/
theorem IsNumeral.unique {s : List UInt8} {v w : Int} (hv : IsNumeral s v) (hw : IsNumeral s w) :
    v = w := by
  have heq := (numeral_all.mpr hv).symm.trans (numeral_all.mpr hw)
  exact (Prod.mk.inj (Option.some.inj heq)).1

/-- **What `strtol` takes without an error:** the empty string, which is worth 0, and the numerals
whose value the type can hold. -/
theorem strtol_all {lo hi : Int} {s : List UInt8} {x : Int} : strtol lo hi s = ⟨x, [], false⟩ ↔
    (s = [] ∧ x = 0) ∨ (IsNumeral s x ∧ lo ≤ x ∧ x ≤ hi) := by
  unfold strtol
  cases hn : numeral s with
  | none =>
    have hno : ¬ IsNumeral s x := fun h => by
      rw [numeral_all.mpr h] at hn
      cases hn
    simp only [hno, false_and, or_false, StrtolResult.mk.injEq, and_true]
    exact ⟨fun h => ⟨h.2, h.1.symm⟩, fun h => ⟨h.2.symm, h.1⟩⟩
  | some r =>
    obtain ⟨v, rest⟩ := r
    have hempty : s ≠ [] := by
      rintro rfl
      cases hn
    have hone : IsNumeral s x ↔ v = x ∧ rest = [] := by
      rw [← numeral_all, hn, Option.some.injEq, Prod.mk.injEq]
    simp only [hempty, false_and, false_or, hone]
    by_cases hlo : v < lo
    · simp only [if_pos hlo, StrtolResult.mk.injEq]
      refine iff_of_false (fun h => nomatch h.2.2) ?_
      rintro ⟨⟨rfl, _⟩, hle, _⟩
      exact absurd hlo (Int.not_lt.mpr hle)
    · by_cases hhi : hi < v
      · simp only [if_neg hlo, if_pos hhi, StrtolResult.mk.injEq]
        refine iff_of_false (fun h => nomatch h.2.2) ?_
        rintro ⟨⟨rfl, _⟩, _, hle⟩
        exact absurd hhi (Int.not_lt.mpr hle)
      · simp only [if_neg hlo, if_neg hhi, StrtolResult.mk.injEq, and_true]
        constructor
        · rintro ⟨rfl, hrest⟩
          exact ⟨⟨rfl, hrest⟩, Int.not_lt.mp hlo, Int.not_lt.mp hhi⟩
        · exact And.left

end Bramble
