import Bramble.Lib.Machine
import Bramble.Lib.BitField

/-!
# The LED matrix (`matrix.c`)

`pending` is the frame buffer that tasks and interrupts draw into, `visible` what the matrix task
has taken out of it, and the digit registers of the max7219 what is on display.  A drawing function
changes `pending` and then notifies the matrix task; the matrix task takes its notifications, copies
`pending` to `visible` and sends the rows that changed, one SPI word each.

* `matrix`             the machine: any number of callers of the drawing functions, the matrix task;
* `Max7219.sendRow_digits`  a row word sets one digit register;
* `Shown`              the invariant, by the program point of the matrix task;
* `display_current`    while the matrix task waits, the display shows `visible`, and `pending` once
                       nobody has a notification to give or to take.
-/

namespace Bramble

/-! ## the chip -/

abbrev Rows := Fin 8 → UInt8

structure Max7219 where
  digits : Rows
  decode : UInt8
  intensity : UInt8
  scanLimit : UInt8
  shutdown : UInt8
  test : UInt8

def max7219ModeDecode : UInt16 := 0x0900
def max7219ModeIntensity : UInt16 := 0x0a00
def max7219ModeScanLimit : UInt16 := 0x0b00
def max7219ModeShutdown : UInt16 := 0x0c00
def max7219ModeTest : UInt16 := 0x0f00

namespace Max7219

/-- register address of a word, bits 8 to 11 -/
def address (data : UInt16) : Nat := ((data >>> 8) &&& 0xf).toNat

/-- The chip takes the word when NSS rises at the end of `max7219_send`. -/
def send (chip : Max7219) (data : UInt16) : Max7219 :=
  let val := data.toUInt8
  match address data with
  | 9 => { chip with decode := val }
  | 10 => { chip with intensity := val }
  | 11 => { chip with scanLimit := val }
  | 12 => { chip with shutdown := val }
  | 15 => { chip with test := val }
  | reg =>
    if h : 1 ≤ reg ∧ reg ≤ 8 then
      { chip with digits := Function.update chip.digits ⟨reg - 1, by omega⟩ val }
    else chip

/-- `max7219_send_row` -/
def sendRow (chip : Max7219) (row : Nat) (val : UInt8) : Max7219 :=
  if row < 8 then chip.send ((UInt16.ofNat row + 1) <<< 8 ||| val.toUInt16) else chip

end Max7219

/-! ## drawing -/

/-- one row of `matrix_xfrm`: bit `col` is bit `row` of that column -/
def xfrmRow (cols : Vector UInt8 5) (row : Nat) : UInt8 :=
  (List.finRange 5).foldl (fun acc col =>
    acc ||| (if cols.get col &&& (1 <<< UInt8.ofNat row) ≠ 0 then 1 <<< UInt8.ofNat col else 0)) 0

/-- `matrix_xfrm`: rows 0 to 6 from five columns -/
def matrixXfrm (cols : Vector UInt8 5) (rows : Rows) : Rows :=
  fun row => if row.val < 7 then xfrmRow cols row else rows row

/-- set or clear bit `b` of row 7 -/
def setLed (b : UInt8) (val : UInt8) (rows : Rows) : Rows :=
  if val ≠ 0 then Function.update rows 7 (rows 7 ||| (1 <<< b))
  else Function.update rows 7 (rows 7 &&& ~~~(1 <<< b))

instance neZero_ninety_six : NeZero 96 := ⟨by decide⟩

/-- the calls that change the frame buffer, with their arguments -/
inductive Draw where
  /-- `matrix_set`, `matrix_set_from_isr` -/
  | set (cols : Vector UInt8 5)
  /-- `matrix_set_char`, `matrix_set_char_from_isr` -/
  | char (c : UInt8)
  | red (val : UInt8)
  | green (val : UInt8)

/-- The frame buffer after a call; `none` if the call does nothing.  `font5x7` has one entry for
each character from 0x20 to 0x7f. -/
def Draw.apply (font5x7 : Fin 96 → Vector UInt8 5) (pending : Rows) : Draw → Option Rows
  | .set cols => some (matrixXfrm cols pending)
  | .char c =>
    if 0x20 ≤ c ∧ c ≤ 0x7f then
      some (matrixXfrm (font5x7 (Fin.ofNat 96 (c.toNat - 0x20))) pending)
    else none
  | .red val => some (setLed 5 val pending)
  | .green val => some (setLed 6 val pending)

/-! ## the matrix task -/

/-- program points of `matrix_task` -/
inductive MatrixPc where
  /-- in `max7219_config`, with the words it has still to send -/
  | config (words : List UInt16)
  /-- at the critical section of `max7219_sync (force)` -/
  | snapshot (force : Bool)
  /-- in the loop of `max7219_sync (force)`, at `row` -/
  | rows (force : Bool) (update : BitVec 8) (row : Nat)
  /-- in `max7219_selftest` -/
  | selftest (words : List UInt16)
  /-- at `ulTaskNotifyTake` -/
  | wait
  deriving DecidableEq

structure Matrix where
  pending : Rows
  visible : Rows
  chip : Max7219
  pc : MatrixPc
  /-- notification count of the matrix task -/
  notify : Nat
  /-- callers that have changed `pending` and have not yet notified -/
  between : Nat

/-- the words of `max7219_config` -/
def configWords : List UInt16 :=
  [max7219ModeScanLimit ||| 7, max7219ModeIntensity ||| 0x2, max7219ModeDecode ||| 0,
    max7219ModeShutdown ||| 1, max7219ModeTest ||| 0]

/-- the words of `max7219_selftest` -/
def selftestWords : List UInt16 := [1, 2, 3, 4, 5, 6].map fun count => max7219ModeTest ||| (count &&& 1)

/-- `1<<row` in the mask `update` -/
def rowBit (row : Nat) : BitVec 8 := 1#8 <<< row

/-- one round of the loop in the critical section of `max7219_sync` -/
def snapshotRow (force : Bool) (pending : Rows) (s : BitVec 8 × Rows) (row : Fin 8) :
    BitVec 8 × Rows :=
  if force || pending row != s.2 row then
    (s.1 ||| rowBit row, Function.update s.2 row (pending row))
  else s

/-- the critical section of `max7219_sync`: `update` and `visible` -/
def max7219Snapshot (force : Bool) (pending visible : Rows) : BitVec 8 × Rows :=
  (List.finRange 8).foldl (snapshotRow force pending) (0, visible)

namespace Matrix

/-- after `matrix_init`; the chip may hold anything -/
def init (chip : Max7219) : Matrix where
  pending := fun _ => 0
  visible := fun _ => 0
  chip := chip
  pc := .config configWords
  notify := 0
  between := 0

/-- one step of `matrix_task` -/
def task (s : Matrix) : Option Matrix :=
  match s.pc with
  | .config [] => some { s with pc := .snapshot true }
  | .config (w :: ws) => some { s with chip := s.chip.send w, pc := .config ws }
  | .snapshot force =>
    let r := max7219Snapshot force s.pending s.visible
    some { s with visible := r.2, pc := .rows force r.1 0 }
  | .rows force update row =>
    if h : row < 8 then
      let chip := if update &&& rowBit row ≠ 0 then s.chip.sendRow row (s.visible ⟨row, h⟩)
        else s.chip
      some { s with chip := chip, pc := .rows force update (row + 1) }
    -- the forced sync is the one in `max7219_config`
    else some { s with pc := if force then .selftest selftestWords else .wait }
  | .selftest [] => some { s with pc := .wait }
  | .selftest (w :: ws) => some { s with chip := s.chip.send w, pc := .selftest ws }
  | .wait => if 0 < s.notify then some { s with notify := 0, pc := .snapshot false } else none

end Matrix

inductive MatrixAct where
  /-- the critical section of a drawing function -/
  | draw (d : Draw)
  /-- its `matrix_sync` -/
  | give
  | task

def Matrix.step (font5x7 : Fin 96 → Vector UInt8 5) (s : Matrix) : MatrixAct → Option Matrix
  | .draw d => (d.apply font5x7 s.pending).map fun p => { s with pending := p, between := s.between + 1 }
  | .give =>
    if 0 < s.between then some { s with notify := s.notify + 1, between := s.between - 1 } else none
  | .task => s.task

def matrix (font5x7 : Fin 96 → Vector UInt8 5) : Machine Matrix MatrixAct := ⟨Matrix.step font5x7⟩

/-! ## the words -/

namespace Max7219

theorem row_word (row : Nat) (val : UInt8) (h : row < 8) :
    address ((UInt16.ofNat row + 1) <<< 8 ||| val.toUInt16) = row + 1 ∧
      ((UInt16.ofNat row + 1) <<< 8 ||| val.toUInt16).toUInt8 = val := by
  have hfit : BitField.Fits [(8, val.toNat), (4, row + 1)] := by
    intro f hf
    simp only [List.mem_cons, List.not_mem_nil, or_false] at hf
    rcases hf with rfl | rfl
    · exact val.toNat_lt
    · show row + 1 < 16
      omega
  have hsucc : (UInt16.ofNat row + 1).toNat = row + 1 := by
    rw [UInt16.toNat_add, UInt16.toNat_ofNat', Nat.mod_eq_of_lt (by omega : row < 2^16)]
    exact Nat.mod_eq_of_lt (by show row + 1 < 2^16; omega)
  have hword : ((UInt16.ofNat row + 1) <<< 8 ||| val.toUInt16).toNat =
      BitField.pack [(8, val.toNat), (4, row + 1)] := by
    rw [← BitField.orInto_zero hfit, UInt16.toNat_or, UInt16.toNat_shiftLeft, hsucc,
      UInt8.toNat_toUInt16, Nat.or_comm]
    have hlt : (row + 1) <<< 8 < 2^16 := by
      rw [Nat.shiftLeft_eq]
      omega
    show val.toNat ||| (row + 1) <<< 8 % 2^16 = 0 ||| val.toNat <<< 0 ||| (row + 1) <<< 8
    rw [Nat.mod_eq_of_lt hlt, Nat.zero_or, Nat.shiftLeft_zero]
  have hunpack := BitField.unpack_pack hfit
  rw [← hword] at hunpack
  obtain ⟨hval, haddr⟩ := List.cons_eq_cons.mp hunpack
  constructor
  · rw [address, UInt16.toNat_and, UInt16.toNat_shiftRight]
    show _ >>> 8 &&& (2^4 - 1) = _
    rw [Nat.and_two_pow_sub_one_eq_mod, Nat.shiftRight_eq_div_pow]
    exact (List.cons_eq_cons.mp haddr).1
  · apply UInt8.toNat_inj.mp
    rw [UInt16.toNat_toUInt8]
    exact hval

/-- A row word sets one digit register. -/
theorem sendRow_digits (chip : Max7219) (row : Fin 8) (val : UInt8) :
    (chip.sendRow row val).digits = Function.update chip.digits row val := by
  obtain ⟨haddr, hval⟩ := row_word row val row.isLt
  have hr : 1 ≤ row.val + 1 ∧ row.val + 1 ≤ 8 := by omega
  unfold sendRow send
  rw [if_pos row.isLt, haddr, hval]
  split <;> first | omega | skip
  rw [dif_pos hr]
  rfl

/-- Words for the other registers leave the digits alone. -/
theorem send_digits (chip : Max7219) {data : UInt16} (h : 8 < address data) :
    (chip.send data).digits = chip.digits := by
  unfold send
  simp only
  split
  any_goals rfl
  rw [dif_neg (by omega)]

end Max7219

/-! ## the snapshot -/

theorem rowBit_getLsbD (row : Nat) (r : Fin 8) :
    (rowBit row).getLsbD r = decide (row = r.val) := by
  rw [rowBit, ← BitVec.twoPow_eq, BitVec.getLsbD_twoPow]
  by_cases h : row = r.val
  · rw [decide_eq_true h, Bool.and_true, decide_eq_true (by omega)]
  · rw [decide_eq_false h, Bool.and_false]

theorem and_rowBit (update : BitVec 8) (row : Fin 8) :
    update &&& rowBit row ≠ 0 ↔ update.getLsbD row = true := by
  constructor
  · intro h
    by_contra hbit
    apply h
    rw [rowBit, ← BitVec.twoPow_eq, BitVec.and_twoPow, if_neg hbit]
    rfl
  · intro hbit h
    have hrow : (update &&& rowBit row).getLsbD row = false := by
      rw [h]
      exact BitVec.getLsbD_zero
    rw [BitVec.getLsbD_and, hbit, rowBit_getLsbD, decide_eq_true rfl] at hrow
    cases hrow

theorem snapshotRow_spec (force : Bool) (pending : Rows) (s : BitVec 8 × Rows) (a r : Fin 8) :
    (snapshotRow force pending s a).1.getLsbD r =
      (s.1.getLsbD r || (decide (r = a) && (force || pending r != s.2 r))) ∧
    (snapshotRow force pending s a).2 r = if r = a then pending r else s.2 r := by
  unfold snapshotRow
  by_cases hr : r = a
  · subst hr
    rw [decide_eq_true rfl, Bool.true_and, if_pos rfl]
    by_cases hc : (force || pending r != s.2 r) = true
    · rw [if_pos hc, hc, Bool.or_true]
      constructor
      · show (s.1 ||| rowBit r).getLsbD r = true
        rw [BitVec.getLsbD_or, rowBit_getLsbD, decide_eq_true rfl, Bool.or_true]
      · exact Function.update_self r _ s.2
    · rw [if_neg hc, Bool.eq_false_iff.mpr hc, Bool.or_false]
      refine ⟨rfl, ?_⟩
      -- a row that is not forced and not copied is up to date
      have heq : (pending r != s.2 r) = false := by
        rw [Bool.or_eq_true, not_or] at hc
        exact Bool.eq_false_iff.mpr hc.2
      exact (bne_eq_false_iff_eq.mp heq).symm
  · rw [decide_eq_false hr, Bool.false_and, Bool.or_false, if_neg hr]
    by_cases hc : (force || pending a != s.2 a) = true
    · rw [if_pos hc]
      constructor
      · show (s.1 ||| rowBit a).getLsbD r = _
        have hne : ¬ a.val = r.val := fun h => hr (Fin.ext h.symm)
        rw [BitVec.getLsbD_or, rowBit_getLsbD, decide_eq_false hne, Bool.or_false]
      · exact Function.update_of_ne hr _ s.2
    · rw [if_neg hc]
      exact ⟨rfl, rfl⟩

/-- what the loop has done to the rows it has passed -/
theorem foldl_snapshotRow (force : Bool) (pending : Rows) {l : List (Fin 8)} (hl : l.Nodup)
    (s : BitVec 8 × Rows) (r : Fin 8) :
    (l.foldl (snapshotRow force pending) s).1.getLsbD r =
      (s.1.getLsbD r || (decide (r ∈ l) && (force || pending r != s.2 r))) ∧
    (l.foldl (snapshotRow force pending) s).2 r = if r ∈ l then pending r else s.2 r := by
  induction l generalizing s with
  | nil => exact ⟨by rw [decide_eq_false List.not_mem_nil, Bool.false_and, Bool.or_false]; rfl, rfl⟩
  | cons a l ih =>
    obtain ⟨ha, hl⟩ := List.nodup_cons.mp hl
    obtain ⟨h1, h2⟩ := ih hl (snapshotRow force pending s a)
    obtain ⟨h3, h4⟩ := snapshotRow_spec force pending s a r
    rw [List.foldl_cons, h1, h2, h3, h4]
    by_cases hr : r = a
    · subst hr
      rw [decide_eq_false ha, if_neg ha, if_pos rfl, if_pos List.mem_cons_self,
        decide_eq_true (List.mem_cons_self : r ∈ r :: l), decide_eq_true rfl]
      simp
    · have hmem : r ∈ a :: l ↔ r ∈ l := by rw [List.mem_cons, or_iff_right hr]
      simp [hr, hmem]

theorem max7219Snapshot_visible (force : Bool) (pending visible : Rows) :
    (max7219Snapshot force pending visible).2 = pending := by
  funext r
  have h := (foldl_snapshotRow force pending (List.nodup_finRange 8) (0, visible) r).2
  rw [if_pos (List.mem_finRange r)] at h
  exact h

theorem max7219Snapshot_update (force : Bool) (pending visible : Rows) (r : Fin 8) :
    (max7219Snapshot force pending visible).1.getLsbD r = (force || pending r != visible r) := by
  have h := (foldl_snapshotRow force pending (List.nodup_finRange 8) (0, visible) r).1
  have hzero : (0 : BitVec 8).getLsbD r = false := BitVec.getLsbD_zero
  rw [decide_eq_true (List.mem_finRange r), hzero, Bool.false_or, Bool.true_and] at h
  exact h

/-! ## the invariant -/

/-- The display shows `visible`, as far as the matrix task has got with it. -/
def Shown (s : Matrix) : Prop :=
  match s.pc with
  | .config _ | .snapshot true => True
  | .rows _ update row =>
    ∀ r : Fin 8, r.val < row ∨ update.getLsbD r = false → s.chip.digits r = s.visible r
  | .selftest words => s.chip.digits = s.visible ∧ ∀ w ∈ words, 8 < Max7219.address w
  | .snapshot false | .wait => s.chip.digits = s.visible

/-- `visible` is up to date, or will be: the matrix task is about to take it, it has a notification,
or a caller owes it one. -/
def Fresh (s : Matrix) : Prop :=
  match s.pc with
  | .config _ | .snapshot _ => True
  | .rows _ _ _ | .selftest _ | .wait => s.pending = s.visible ∨ 0 < s.notify ∨ 0 < s.between

section
variable {s t : Matrix}

theorem Fresh.of_owed (h : 0 < s.notify ∨ 0 < s.between) : Fresh s := by
  unfold Fresh
  split <;> first | trivial | exact .inr h

theorem selftestWords_test : ∀ w ∈ selftestWords, 8 < Max7219.address w := by
  intro w hw
  obtain ⟨count, hcount, rfl⟩ := List.mem_map.mp hw
  simp only [List.mem_cons, List.not_mem_nil, or_false] at hcount
  rcases hcount with rfl | rfl | rfl | rfl | rfl | rfl <;> decide

theorem Shown.task (hs : Shown s) (h : s.task = some t) : Shown t := by
  unfold Matrix.task at h
  unfold Shown at hs
  split at h
  · cases h
    trivial
  · cases h
    trivial
  · rename_i force hpc
    cases h
    rw [hpc] at hs
    intro r hr
    have hbit := hr.resolve_left (Nat.not_lt_zero _)
    rw [max7219Snapshot_update, Bool.or_eq_false_iff, bne_eq_false_iff_eq] at hbit
    obtain ⟨hforce, heq⟩ := hbit
    -- a row that is not sent was shown before and has not changed
    rw [hforce] at hs
    show s.chip.digits r = (max7219Snapshot force s.pending s.visible).2 r
    rw [max7219Snapshot_visible, heq]
    exact congrFun hs r
  · rename_i force update row hpc
    rw [hpc] at hs
    split at h
    · rename_i hrow
      cases h
      intro r hr
      show (if _ then _ else _ : Max7219).digits r = s.visible r
      by_cases hbit : update &&& rowBit row ≠ 0
      · rw [if_pos hbit, Max7219.sendRow_digits s.chip ⟨row, hrow⟩]
        by_cases heq : r = ⟨row, hrow⟩
        · rw [heq, Function.update_self]
        · rw [Function.update_of_ne heq]
          have hne : r.val ≠ row := fun h => heq (Fin.ext h)
          exact hs r (hr.imp_left fun h => by omega)
      · rw [if_neg hbit]
        apply hs r
        by_cases heq : r = ⟨row, hrow⟩
        · right
          rw [heq]
          exact Bool.eq_false_iff.mpr fun h => hbit ((and_rowBit update ⟨row, hrow⟩).mpr h)
        · have hne : r.val ≠ row := fun h => heq (Fin.ext h)
          exact hr.imp_left fun h => by omega
    · rename_i hrow
      cases h
      have hall : s.chip.digits = s.visible := by
        funext r
        exact hs r (.inl (by omega))
      cases force with
      | false => exact hall
      | true => exact ⟨hall, selftestWords_test⟩
  · rename_i hpc
    cases h
    rw [hpc] at hs
    exact hs.1
  · rename_i w ws hpc
    cases h
    rw [hpc] at hs
    refine ⟨?_, fun v hv => hs.2 v (List.mem_cons_of_mem w hv)⟩
    rw [Max7219.send_digits s.chip (hs.2 w List.mem_cons_self)]
    exact hs.1
  · rename_i hpc
    rw [hpc] at hs
    split at h
    · cases h
      exact hs
    · cases h

theorem Fresh.task (hs : Fresh s) (h : s.task = some t) : Fresh t := by
  unfold Matrix.task at h
  unfold Fresh at hs
  split at h
  · cases h
    trivial
  · cases h
    trivial
  · cases h
    left
    exact (max7219Snapshot_visible _ s.pending s.visible).symm
  · rename_i force update row hpc
    rw [hpc] at hs
    split at h
    · cases h
      exact hs
    · cases h
      cases force <;> exact hs
  · rename_i hpc
    cases h
    rw [hpc] at hs
    exact hs
  · rename_i hpc
    cases h
    rw [hpc] at hs
    exact hs
  · split at h
    · cases h
      trivial
    · cases h

variable {font5x7 : Fin 96 → Vector UInt8 5} {a : MatrixAct}

theorem Shown.step (hs : Shown s) (h : (matrix font5x7).step s a = some t) : Shown t := by
  cases a with
  | draw d =>
    obtain ⟨p, _, rfl⟩ := Option.map_eq_some_iff.mp h
    exact hs
  | give =>
    obtain ⟨_, h⟩ := Option.ite_none_right_eq_some.mp h
    cases h
    exact hs
  | task => exact hs.task h

theorem Fresh.step (hs : Fresh s) (h : (matrix font5x7).step s a = some t) : Fresh t := by
  cases a with
  | draw d =>
    obtain ⟨p, _, rfl⟩ := Option.map_eq_some_iff.mp h
    exact .of_owed (.inr (Nat.succ_pos _))
  | give =>
    obtain ⟨_, h⟩ := Option.ite_none_right_eq_some.mp h
    cases h
    exact .of_owed (.inl (Nat.succ_pos _))
  | task => exact hs.task h

end

/-! ## forced and incremental syncs -/

/-- The loop of `max7219_sync` ends, with the frame buffers as they are. -/
theorem rows_run (font5x7 : Fin 96 → Vector UInt8 5) (force : Bool) (update : BitVec 8) (n : Nat)
    (s : Matrix) (hpc : s.pc = .rows force update (8 - n)) (hn : n ≤ 8) :
    ∃ u, (matrix font5x7).run s (List.replicate (n + 1) .task) = some u ∧
      u.pending = s.pending ∧ u.visible = s.visible ∧
      u.pc = if force then .selftest selftestWords else .wait := by
  induction n generalizing s with
  | zero =>
    have hstep : s.task = some { s with pc := if force then .selftest selftestWords else .wait } := by
      unfold Matrix.task
      rw [hpc]
      rfl
    exact ⟨_, (Machine.run_cons_some _).mpr ⟨_, hstep, rfl⟩, rfl, rfl, rfl⟩
  | succ n ih =>
    have hrow : 8 - (n + 1) < 8 := by omega
    obtain ⟨chip, hstep⟩ : ∃ chip, s.task =
        some { s with chip := chip, pc := .rows force update (8 - (n + 1) + 1) } := by
      unfold Matrix.task
      rw [hpc]
      simp only [dif_pos hrow]
      exact ⟨_, rfl⟩
    obtain ⟨u, hu, h1, h2, h3⟩ := ih { s with chip := chip, pc := .rows force update (8 - (n + 1) + 1) }
      (by rw [show 8 - (n + 1) + 1 = 8 - n by omega]) (by omega)
    exact ⟨u, (Machine.run_cons_some _).mpr ⟨_, hstep, hu⟩, h1, h2, h3⟩

/-- A sync that nobody interferes with shows the frame buffer, forced or not. -/
theorem sync_alone (font5x7 : Fin 96 → Vector UInt8 5) (force : Bool) (s : Matrix)
    (hs : s.chip.digits = s.visible) :
    ∃ u, (matrix font5x7).run { s with pc := .snapshot force } (List.replicate 10 .task) = some u ∧
      u.chip.digits = s.pending := by
  have hshown : Shown { s with pc := .snapshot force } := by
    cases force with
    | true => trivial
    | false => exact hs
  have hvis := max7219Snapshot_visible force s.pending s.visible
  obtain ⟨u, hu, _, h2, h3⟩ := rows_run font5x7 force _ 8
    { s with
      visible := (max7219Snapshot force s.pending s.visible).2
      pc := .rows force (max7219Snapshot force s.pending s.visible).1 0 } rfl (by omega)
  have hrun : (matrix font5x7).run { s with pc := .snapshot force } (List.replicate 10 .task) =
      some u :=
    (Machine.run_cons_some _).mpr ⟨_, rfl, hu⟩
  refine ⟨u, hrun, ?_⟩
  have hend : Shown u := (Machine.run_free hrun).inv hshown fun _ _ _ hx _ hs => hx.step hs
  unfold Shown at hend
  rw [h3] at hend
  rw [← h2.trans hvis]
  cases force with
  | true => exact hend.1
  | false => exact hend

/-- **The display never misses an update.**  In every reachable state with the matrix task at
`ulTaskNotifyTake` the digit registers are `visible`; they are `pending` when no notification is
pending and no caller is between its update and its notification; and a sync on its own would give
the same display, forced or not. -/
theorem display_current (font5x7 : Fin 96 → Vector UInt8 5) (chip : Max7219) (t : Matrix)
    (as : List MatrixAct) (h : (matrix font5x7).run (Matrix.init chip) as = some t)
    (hwait : t.pc = .wait) :
    t.chip.digits = t.visible ∧
    (t.notify = 0 → t.between = 0 → t.chip.digits = t.pending) ∧
    ∀ force, ∃ u, (matrix font5x7).run { t with pc := .snapshot force } (List.replicate 10 .task) =
      some u ∧ u.chip.digits = t.pending := by
  have hshown : Shown t := (Machine.run_free h).inv (I := Shown) trivial fun _ _ _ hx _ hs => hx.step hs
  have hfresh : Fresh t := (Machine.run_free h).inv (I := Fresh) trivial fun _ _ _ hx _ hs => hx.step hs
  unfold Shown at hshown
  unfold Fresh at hfresh
  rw [hwait] at hshown hfresh
  refine ⟨hshown, fun hn hb => ?_, fun force => sync_alone font5x7 force t hshown⟩
  rw [hn, hb] at hfresh
  have heq : t.pending = t.visible := by simpa using hfresh
  rw [heq]
  exact hshown

/-- a chip after its reset -/
def Max7219.reset : Max7219 := ⟨fun _ => 0, 0, 0, 0, 0, 0⟩

def Matrix.redRun : List MatrixAct := .draw (.red 1) :: .give :: List.replicate 34 .task

theorem display_current_red : ∃ t,
    (matrix fun _ => Vector.replicate 5 0).run (Matrix.init .reset) Matrix.redRun = some t ∧
    t.pending 7 = 0x20 ∧ t.chip.digits = t.pending ∧ t.chip.digits = t.visible := by
  have hrun : ((matrix fun _ => Vector.replicate 5 0).run (Matrix.init .reset) Matrix.redRun).map
      (fun t => (t.pc, t.notify, t.between, t.pending 7)) = some (.wait, 0, 0, 0x20) := by
    decide +kernel
  obtain ⟨t, ht, hval⟩ := Option.map_eq_some_iff.mp hrun
  obtain ⟨hpc, hval⟩ := Prod.mk.inj hval
  obtain ⟨hn, hval⟩ := Prod.mk.inj hval
  obtain ⟨hb, hred⟩ := Prod.mk.inj hval
  have hcur := display_current _ _ t _ ht hpc
  exact ⟨t, ht, hred, hcur.2.1 hn hb, hcur.1⟩

end Bramble
