import Bramble.CanMsg
import Bramble.Lib.Strtol

/-!
# Slot arguments (`cmd/power.c`, `cmd/shutdown.c`, `cmd/console.c`)

The commands take the slot of a control processor as a decimal number, and address it at
`slot | 0x10`.  The parsers narrow the `long` of `strtol` to an `int`, and let 16 pass.

* `powerParseSlot`, `shutdownParseSlot`, `consoleSlot`   the three parsers;
* `SlotCommand.address`                                  the CAN address that a command uses;
* `address_iff`                                          which arguments are accepted;
* `SelectsNamed`                                         an accepted argument names the slot that is
                                                         addressed;
* `slot_selects_iff`                                     it does unless the argument is empty or its
                                                         value is one of a few outside 0 to 15.
-/

namespace Bramble

/-! ## the commands -/

/-- `LONG_MIN` and `LONG_MAX` -/
def longMin : Int := -2^63
def longMax : Int := 2^63 - 1

/-- a `long` that is stored into an `int` -/
def longToInt (x : Int) : Int := x.bmod (2^32)

/-- `parse_slot`, with the greatest slot that it accepts -/
def parseSlotUpTo (most : Int) (s : List UInt8) : Int :=
  let r := strtol longMin longMax s
  let slot := longToInt r.value
  if r.erange = true ∨ r.rest ≠ [] ∨ slot < 0 ∨ most < slot then -1 else slot

/-- `parse_slot` of `power.c` -/
def powerParseSlot : List UInt8 → Int := parseSlotUpTo 16

/-- `parse_slot` of `shutdown.c` -/
def shutdownParseSlot : List UInt8 → Int := parseSlotUpTo 16

/-- `slot` in `console_main`; `none` where it dies -/
def consoleSlot (s : List UInt8) : Option Int :=
  let r := strtol longMin longMax s
  let slot := longToInt r.value
  if r.erange = true ∨ r.rest ≠ [] ∨ slot < 0 ∨ 16 < slot then none else some slot

/-- `slot | CANMSG_ADDR_CONTROL` -/
def slotAddr (slot : Int) : Nat := slot.toNat ||| canmsgAddrControl

/-- the commands that take a slot: those of the powerman helper, and two of their own -/
inductive SlotCommand where
  | on | off | status | shutdown | conman
  deriving DecidableEq

namespace SlotCommand

/-- `slot` in the command; negative where it is not accepted -/
def slot : SlotCommand → List UInt8 → Int
  | on, s | off, s | status, s => powerParseSlot s
  | shutdown, s => shutdownParseSlot s
  | conman, s => (consoleSlot s).getD (-1)

/-- the address that the command uses, if it accepts the argument -/
def address (cmd : SlotCommand) (s : List UInt8) : Option Nat :=
  if cmd.slot s < 0 then none else some (slotAddr (cmd.slot s))

end SlotCommand

/-- An argument that is accepted is a numeral from 0 to 15, and the control processor of that slot is
addressed. -/
def SelectsNamed (addr : Option Nat) (s : List UInt8) : Prop :=
  ∀ a, addr = some a → ∃ v, IsNumeral s v ∧ 0 ≤ v ∧ v ≤ 15 ∧ (a : Int) = 0x10 + v

/-- The argument is not empty, and no numeral of a value outside 0 to 15 that a `long` holds and that
leaves at most 16 modulo `2^32`. -/
def NamesSlot (s : List UInt8) : Prop :=
  s ≠ [] ∧ ∀ v, IsNumeral s v → longMin ≤ v → v ≤ longMax → v % 2^32 ≤ 16 → 0 ≤ v ∧ v ≤ 15

/-! ## what is accepted -/

theorem longToInt_small {x : Int} : 0 ≤ longToInt x ∧ longToInt x ≤ 16 ↔ x % 2^32 ≤ 16 := by
  unfold longToInt Int.bmod
  norm_num
  split <;> omega

theorem longToInt_eq {x : Int} (h : x % 2^32 ≤ 16) : longToInt x = x % 2^32 := by
  unfold longToInt Int.bmod
  norm_num at h ⊢
  omega

theorem parseSlotUpTo_iff {s : List UInt8} {slot : Int} (h : 0 ≤ slot) :
    parseSlotUpTo 16 s = slot ↔
      ∃ x, strtol longMin longMax s = ⟨x, [], false⟩ ∧ x % 2^32 ≤ 16 ∧ slot = x % 2^32 := by
  unfold parseSlotUpTo
  generalize strtol longMin longMax s = r
  obtain ⟨x, rest, erange⟩ := r
  simp only [StrtolResult.mk.injEq]
  by_cases hno : erange = true ∨ rest ≠ [] ∨ longToInt x < 0 ∨ 16 < longToInt x
  · rw [if_pos hno]
    refine iff_of_false (by omega) ?_
    rintro ⟨y, ⟨rfl, rfl, rfl⟩, hsmall, _⟩
    obtain ⟨h1, h2⟩ := longToInt_small.mpr hsmall
    rcases hno with hno | hno | hno | hno
    · cases hno
    · exact hno rfl
    · omega
    · omega
  · rw [if_neg hno]
    push Not at hno
    obtain ⟨herange, hrest, h1, h2⟩ := hno
    have hsmall := longToInt_small.mp ⟨h1, h2⟩
    rw [longToInt_eq hsmall]
    constructor
    · rintro rfl
      exact ⟨x, ⟨rfl, hrest, Bool.eq_false_of_not_eq_true herange⟩, hsmall, rfl⟩
    · rintro ⟨y, ⟨rfl, _⟩, _, rfl⟩
      rfl

theorem consoleSlot_eq (s : List UInt8) : (consoleSlot s).getD (-1) = parseSlotUpTo 16 s := by
  unfold consoleSlot parseSlotUpTo
  simp only
  split <;> rfl

theorem SlotCommand.slot_eq (cmd : SlotCommand) (s : List UInt8) :
    cmd.slot s = parseSlotUpTo 16 s := by
  cases cmd with
  | conman => exact consoleSlot_eq s
  | _ => rfl

/-- **What the commands accept**, and which address they use -/
theorem address_iff {cmd : SlotCommand} {s : List UInt8} {a : Nat} : cmd.address s = some a ↔
    (s = [] ∧ a = 0x10) ∨ ∃ v, IsNumeral s v ∧ longMin ≤ v ∧ v ≤ longMax ∧ v % 2^32 ≤ 16 ∧
      a = slotAddr (v % 2^32) := by
  have hparse : cmd.address s = some a ↔
      ∃ x, strtol longMin longMax s = ⟨x, [], false⟩ ∧ x % 2^32 ≤ 16 ∧ a = slotAddr (x % 2^32) := by
    unfold SlotCommand.address
    rw [cmd.slot_eq]
    constructor
    · intro h
      obtain ⟨hge, ha⟩ := Option.ite_none_left_eq_some.mp h
      obtain ⟨x, hx, hsmall, hslot⟩ := (parseSlotUpTo_iff (Int.not_lt.mp hge)).mp rfl
      exact ⟨x, hx, hsmall, by rw [← Option.some.inj ha, hslot]⟩
    · rintro ⟨x, hx, hsmall, rfl⟩
      have hge : 0 ≤ x % 2^32 := Int.emod_nonneg x (by norm_num)
      rw [(parseSlotUpTo_iff hge).mpr ⟨x, hx, hsmall, rfl⟩]
      exact if_neg (Int.not_lt.mpr hge)
  rw [hparse]
  constructor
  · rintro ⟨x, hx, hsmall, ha⟩
    rcases strtol_all.mp hx with ⟨hs, rfl⟩ | ⟨hx, hlo, hhi⟩
    · exact .inl ⟨hs, ha⟩
    · exact .inr ⟨x, hx, hlo, hhi, hsmall, ha⟩
  · rintro (⟨hs, ha⟩ | ⟨v, hv, hlo, hhi, hsmall, ha⟩)
    · exact ⟨0, strtol_all.mpr (.inl ⟨hs, rfl⟩), by norm_num, ha⟩
    · exact ⟨v, strtol_all.mpr (.inr ⟨hv, hlo, hhi⟩), hsmall, ha⟩

theorem not_isNumeral_nil {v : Int} : ¬ IsNumeral [] v := fun h => nomatch numeral_all.mpr h

theorem slotAddr_small {v : Int} (h0 : 0 ≤ v) (h15 : v ≤ 15) : (slotAddr v : Int) = 0x10 + v := by
  unfold slotAddr canmsgAddrControl
  interval_cases v <;> rfl

theorem selectsNamed_iff (cmd : SlotCommand) (s : List UInt8) :
    SelectsNamed (cmd.address s) s ↔ NamesSlot s := by
  constructor
  · intro h
    refine ⟨?_, fun v hv hlo hhi hsmall => ?_⟩
    · rintro rfl
      obtain ⟨v, hv, _⟩ := h 0x10 (address_iff.mpr (.inl ⟨rfl, rfl⟩))
      exact not_isNumeral_nil hv
    · obtain ⟨w, hw, h0, h15, _⟩ := h _ (address_iff.mpr (.inr ⟨v, hv, hlo, hhi, hsmall, rfl⟩))
      rw [hv.unique hw]
      exact ⟨h0, h15⟩
  · rintro ⟨hne, hall⟩ a ha
    rcases address_iff.mp ha with ⟨hs, _⟩ | ⟨v, hv, hlo, hhi, hsmall, rfl⟩
    · exact absurd hs hne
    · obtain ⟨h0, h15⟩ := hall v hv hlo hhi hsmall
      have hmod : v % 2^32 = v := Int.emod_eq_of_lt h0 (by omega)
      exact ⟨v, hv, h0, h15, by rw [hmod]; exact slotAddr_small h0 h15⟩

/-- **A command addresses the slot that its argument names, exactly if the argument is such.**  Two
such arguments that select one control processor have one value. -/
theorem slot_selects_iff (cmd : SlotCommand) (s : List UInt8) :
    (SelectsNamed (cmd.address s) s ↔ NamesSlot s) ∧
      ∀ (cmd' : SlotCommand) (s' : List UInt8) (a : Nat) (v v' : Int),
        NamesSlot s → NamesSlot s' → cmd.address s = some a → cmd'.address s' = some a →
          IsNumeral s v → IsNumeral s' v' → v = v' := by
  refine ⟨selectsNamed_iff cmd s, fun cmd' s' a v v' hs hs' ha ha' hv hv' => ?_⟩
  obtain ⟨w, hw, _, _, haddr⟩ := (selectsNamed_iff cmd s).mpr hs a ha
  obtain ⟨w', hw', _, _, haddr'⟩ := (selectsNamed_iff cmd' s').mpr hs' a ha'
  rw [hv.unique hw, hv'.unique hw']
  omega

/-- the argument `16`, which switches the node of the slot 0 off -/
theorem slot_selects_fails : ¬ ∀ (cmd : SlotCommand) (s : List UInt8),
    SelectsNamed (cmd.address s) s := by
  intro h
  have hsixteen : IsNumeral [49, 54] 16 := numeral_all.mp (by decide)
  obtain ⟨v, hv, _, h15, _⟩ := h .off [49, 54] 0x10 (by decide)
  rw [hv.unique hsixteen] at h15
  exact absurd h15 (by decide)

end Bramble
