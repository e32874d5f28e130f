import Bramble.Firmware.Matrix
import Bramble.Lib.Byte

/-!
# What is in the frame buffer (`matrix.c`)

The callers of the drawing functions share `pending`.  Rows 0 to 6 belong to `matrix_set`, bits 5 and
6 of row 7 to the red and the green LED.

* `matrixXfrm_lit`, `setLed_lit`   the two ways to write into it, bit by bit;
* `drawAll_lit`    a bit is what the last call made it that wrote it;
* `draw_comm`      calls for different parts commute;
* `pending_run`    in a run of the machine `matrix` only its calls count;
* `frame_buffer`   the last columns, the last red and the last green value determine all bits.
-/

namespace Bramble

/-! ## bits -/

/-- bit `c` of a row -/
def Rows.lit (rows : Rows) (r : Fin 8) (c : Nat) : Bool := (rows r).toNat.testBit c

theorem Rows.ext_lit {p q : Rows} (h : ∀ r c, p.lit r c = q.lit r c) : p = q := by
  funext r
  exact UInt8.toNat_inj.mp (Nat.eq_of_testBit_eq (h r))

/-! ## one call -/

theorem foldl_xfrm (cols : Vector UInt8 5) {row : Nat} (hrow : row < 8) (l : List (Fin 5))
    (acc : UInt8) (c : Nat) :
    (l.foldl (fun acc col => acc ||| (if cols.get col &&& (1 <<< UInt8.ofNat row) ≠ 0 then
        1 <<< UInt8.ofNat col else 0)) acc).toNat.testBit c =
      (acc.toNat.testBit c ||
        l.any fun col => decide (col.val = c) && (cols.get col).toNat.testBit row) := by
  induction l generalizing acc with
  | nil => exact (Bool.or_false _).symm
  | cons col l ih =>
    rw [List.foldl_cons, ih, testBit_or, List.any_cons, Bool.or_assoc]
    congr 2
    by_cases hbit : (cols.get col).toNat.testBit row = true
    · rw [if_pos ((and_shl_ne_zero _ hrow).mpr hbit), testBit_shl (by omega), hbit, Bool.and_true]
    · rw [if_neg fun h => hbit ((and_shl_ne_zero _ hrow).mp h), Bool.eq_false_iff.mpr hbit,
        Bool.and_false, UInt8.toNat_zero, Nat.zero_testBit]

/-- bit `row` of column `c`, if there is one -/
def colBit (cols : Vector UInt8 5) (c row : Nat) : Bool :=
  if h : c < 5 then (cols.get ⟨c, h⟩).toNat.testBit row else false

/-- **The transposition** -/
theorem matrixXfrm_lit (cols : Vector UInt8 5) (p : Rows) (r : Fin 8) (c : Nat) :
    (matrixXfrm cols p).lit r c = if r.val < 7 then colBit cols c r else p.lit r c := by
  by_cases hr : r.val < 7
  · unfold Rows.lit matrixXfrm
    rw [if_pos hr, if_pos hr, xfrmRow, foldl_xfrm cols r.isLt, UInt8.toNat_zero, Nat.zero_testBit,
      Bool.false_or, colBit]
    split
    · rename_i hc
      rw [Bool.eq_iff_iff, List.any_eq_true]
      constructor
      · rintro ⟨col, _, hcol⟩
        obtain ⟨hval, hbit⟩ := Bool.and_eq_true_iff.mp hcol
        obtain rfl : col = ⟨c, hc⟩ := Fin.ext (of_decide_eq_true hval)
        exact hbit
      · intro hbit
        exact ⟨⟨c, hc⟩, List.mem_finRange _, Bool.and_eq_true_iff.mpr ⟨decide_eq_true rfl, hbit⟩⟩
    · rename_i hc
      rw [List.any_eq_false]
      intro col _ hcol
      obtain ⟨hval, _⟩ := Bool.and_eq_true_iff.mp hcol
      exact hc (of_decide_eq_true hval ▸ col.isLt)
  · unfold Rows.lit matrixXfrm
    rw [if_neg hr, if_neg hr]

/-- **An LED is one bit of row 7.** -/
theorem setLed_lit {k : Nat} (hk : k < 8) (val : UInt8) (p : Rows) (r : Fin 8) (c : Nat) :
    (setLed (UInt8.ofNat k) val p).lit r c =
      if r.val = 7 ∧ k = c then decide (val ≠ 0) else p.lit r c := by
  unfold Rows.lit setLed
  by_cases hr : r = 7
  · subst hr
    by_cases hval : val ≠ 0
    · rw [if_pos hval, Function.update_self, testBit_or, testBit_shl hk, decide_eq_true hval]
      by_cases hc : k = c
      · rw [decide_eq_true hc, Bool.or_true, if_pos ⟨rfl, hc⟩]
      · rw [decide_eq_false hc, Bool.or_false, if_neg fun h => hc h.2]
    · rw [if_neg hval, Function.update_self, testBit_and_not hk, decide_eq_false hval]
      by_cases hc : k = c
      · rw [decide_eq_true hc, Bool.not_true, Bool.and_false, if_pos ⟨rfl, hc⟩]
      · rw [decide_eq_false hc, Bool.not_false, Bool.and_true, if_neg fun h => hc h.2]
  · have hcell : ¬ (r.val = 7 ∧ k = c) := fun h => hr (Fin.ext h.1)
    rw [if_neg hcell]
    split
    · rw [Function.update_of_ne hr]
    · rw [Function.update_of_ne hr]

inductive Part where
  | display | red | green
  deriving DecidableEq

namespace Draw

def part : Draw → Part
  | .set _ => .display
  | .char _ => .display
  | .red _ => .red
  | .green _ => .green

def redVal : Draw → Option UInt8
  | .red val => some val
  | _ => none

def greenVal : Draw → Option UInt8
  | .green val => some val
  | _ => none

variable (font5x7 : Fin 96 → Vector UInt8 5)

def columns : Draw → Option (Vector UInt8 5)
  | .set cols => some cols
  | .char c =>
    if 0x20 ≤ c ∧ c ≤ 0x7f then some (font5x7 (Fin.ofNat 96 (c.toNat - 0x20))) else none
  | _ => none

/-- the frame buffer after a call, whether it does something or not -/
def draw (p : Rows) (d : Draw) : Rows := (d.apply font5x7 p).getD p

/-- what a call puts into bit `c` of row `r` -/
def cell (d : Draw) (r : Fin 8) (c : Nat) : Option Bool :=
  if r.val < 7 then (d.columns font5x7).map (colBit · c r)
  else if c = 5 then d.redVal.map (decide <| · ≠ 0)
  else if c = 6 then d.greenVal.map (decide <| · ≠ 0)
  else none

variable {font5x7}

theorem xfrm_cell {cols : Vector UInt8 5} {d : Draw} (h : d.columns font5x7 = some cols)
    (hred : d.redVal = none) (hgreen : d.greenVal = none) (p : Rows) (r : Fin 8) (c : Nat) :
    (matrixXfrm cols p).lit r c = (d.cell font5x7 r c).getD (p.lit r c) := by
  rw [matrixXfrm_lit, cell, h, hred, hgreen]
  split_ifs <;> rfl

theorem draw_lit (d : Draw) (p : Rows) (r : Fin 8) (c : Nat) :
    (draw font5x7 p d).lit r c = (d.cell font5x7 r c).getD (p.lit r c) := by
  cases d with
  | set cols => exact xfrm_cell rfl rfl rfl p r c
  | char ch =>
    by_cases hch : 0x20 ≤ ch ∧ ch ≤ 0x7f
    · have hcols : (Draw.char ch).columns font5x7 =
        some (font5x7 (Fin.ofNat 96 (ch.toNat - 0x20))) := if_pos hch
      rw [draw, apply, if_pos hch]
      exact xfrm_cell hcols rfl rfl p r c
    · rw [draw, apply, if_neg hch, cell, columns, if_neg hch]
      split_ifs <;> rfl
  | red val =>
    show (setLed (UInt8.ofNat 5) val p).lit r c = _
    rw [setLed_lit (by decide), cell]
    split_ifs <;> first | rfl | omega
  | green val =>
    show (setLed (UInt8.ofNat 6) val p).lit r c = _
    rw [setLed_lit (by decide), cell]
    split_ifs <;> first | rfl | omega

/-- A call writes no bit of another part. -/
theorem cell_disjoint {d e : Draw} (h : d.part ≠ e.part) (r : Fin 8) (c : Nat) :
    d.cell font5x7 r c = none ∨ e.cell font5x7 r c = none := by
  unfold cell
  split_ifs <;> cases d <;> cases e <;> first | exact .inl rfl | exact .inr rfl | exact absurd rfl h

/-- **Calls of different parts commute.** -/
theorem draw_comm {d e : Draw} (h : d.part ≠ e.part) (p : Rows) :
    draw font5x7 (draw font5x7 p d) e = draw font5x7 (draw font5x7 p e) d := by
  apply Rows.ext_lit
  intro r c
  rw [draw_lit, draw_lit, draw_lit, draw_lit]
  rcases cell_disjoint h r c with hnone | hnone
  · rw [hnone]
    rfl
  · rw [hnone]
    rfl

end Draw

/-! ## any calls -/

/-- what the last call says, of those that say something -/
def lastOf {β : Type*} (f : Draw → Option β) (ds : List Draw) : Option β := (ds.filterMap f).getLast?

theorem lastOf_concat {β : Type*} (f : Draw → Option β) (ds : List Draw) (d : Draw) :
    lastOf f (ds ++ [d]) = (f d).or (lastOf f ds) := by
  unfold lastOf
  rw [List.filterMap_append, List.getLast?_append]
  cases h : f d with
  | none =>
    rw [List.filterMap_cons_none h, List.filterMap_nil]
    rfl
  | some b =>
    rw [List.filterMap_cons_some h, List.filterMap_nil]
    rfl

theorem lastOf_map {β γ : Type*} (f : Draw → Option β) (g : β → γ) (ds : List Draw) :
    lastOf (fun d => (f d).map g) ds = (lastOf f ds).map g := by
  unfold lastOf
  rw [← List.map_filterMap, List.getLast?_map]

theorem lastOf_none {β : Type*} (ds : List Draw) : lastOf (fun _ => (none : Option β)) ds = none := by
  unfold lastOf
  rw [List.filterMap_none]
  rfl

section
variable (font5x7 : Fin 96 → Vector UInt8 5)

/-- `pending` before the first call -/
def blank : Rows := fun _ => 0

def drawAll (p : Rows) (ds : List Draw) : Rows := ds.foldl (Draw.draw font5x7) p

/-- **A bit is what the last call made it that wrote it.** -/
theorem drawAll_lit (p : Rows) (ds : List Draw) (r : Fin 8) (c : Nat) :
    (drawAll font5x7 p ds).lit r c = (lastOf (·.cell font5x7 r c) ds).getD (p.lit r c) := by
  induction ds using List.reverseRecOn with
  | nil => rfl
  | append_singleton ds d ih =>
    rw [drawAll, List.foldl_append, lastOf_concat]
    show (Draw.draw font5x7 (drawAll font5x7 p ds) d).lit r c = _
    rw [Draw.draw_lit, ih]
    cases d.cell font5x7 r c with
    | none => rfl
    | some b => rfl

theorem blank_lit (r : Fin 8) (c : Nat) : blank.lit r c = false := Nat.zero_testBit c

/-- a bit that only one kind of call writes -/
theorem lit_of_cell {β : Type*} {r : Fin 8} {c : Nat} (f : Draw → Option β) (g : β → Bool)
    (h : ∀ d : Draw, d.cell font5x7 r c = (f d).map g) (ds : List Draw) :
    (drawAll font5x7 blank ds).lit r c = (lastOf f ds).elim false g := by
  have hcell : (fun d : Draw => d.cell font5x7 r c) = fun d => (f d).map g := funext h
  rw [drawAll_lit, hcell, lastOf_map, blank_lit]
  cases lastOf f ds with
  | none => rfl
  | some b => rfl

section
variable (ds : List Draw)

theorem display_lit {r : Fin 8} (hr : r.val < 7) (c : Nat) :
    (drawAll font5x7 blank ds).lit r c =
      (lastOf (Draw.columns font5x7) ds).elim false (colBit · c r) :=
  lit_of_cell font5x7 _ _ (fun _ => if_pos hr) ds

theorem red_lit : (drawAll font5x7 blank ds).lit 7 5 =
    (lastOf Draw.redVal ds).elim false (decide <| · ≠ 0) :=
  lit_of_cell font5x7 _ _ (fun _ => rfl) ds

theorem green_lit : (drawAll font5x7 blank ds).lit 7 6 =
    (lastOf Draw.greenVal ds).elim false (decide <| · ≠ 0) :=
  lit_of_cell font5x7 _ _ (fun _ => rfl) ds

theorem dark_lit {c : Nat} (h5 : c ≠ 5) (h6 : c ≠ 6) : (drawAll font5x7 blank ds).lit 7 c = false := by
  rw [drawAll_lit, blank_lit]
  have hcell : (fun d : Draw => d.cell font5x7 7 c) = fun _ => none := by
    funext d
    show (if c = 5 then _ else if c = 6 then _ else none) = none
    rw [if_neg h5, if_neg h6]
  rw [hcell, lastOf_none]
  rfl

end

def MatrixAct.call : MatrixAct → Option Draw
  | .draw d => some d
  | _ => none

theorem task_pending {s t : Matrix} (h : s.task = some t) : t.pending = s.pending := by
  unfold Matrix.task at h
  split at h
  any_goals
    cases h
    rfl
  · split at h <;> cases h <;> rfl
  · split at h
    · cases h
      rfl
    · cases h

theorem pending_run {s t : Matrix} {as : List MatrixAct} (h : (matrix font5x7).run s as = some t) :
    t.pending = drawAll font5x7 s.pending (as.filterMap MatrixAct.call) := by
  induction as generalizing s with
  | nil =>
    cases h
    rfl
  | cons a as ih =>
    obtain ⟨u, hu, ht⟩ := (Machine.run_cons_some _).mp h
    rw [ih ht]
    cases a with
    | draw d =>
      obtain ⟨p, hp, rfl⟩ := Option.map_eq_some_iff.mp hu
      show drawAll font5x7 p _ = drawAll font5x7 (Draw.draw font5x7 s.pending d) _
      rw [Draw.draw, hp]
      rfl
    | give =>
      obtain ⟨_, hu⟩ := Option.ite_none_right_eq_some.mp hu
      cases hu
      rfl
    | task => rw [task_pending hu]; rfl

/-- **Frame-buffer updates are exact and independent.**  After any calls the display rows show the
last columns, bits 5 and 6 of row 7 the last red and green value, and every other bit is 0; nothing
else about the calls matters; and calls for different parts commute and leave each other's bits
alone. -/
theorem frame_buffer (ds : List Draw) :
    (∀ (r : Fin 8) (c : Fin 5), r.val < 7 → (drawAll font5x7 blank ds r).toNat.testBit c =
      (lastOf (Draw.columns font5x7) ds).elim false fun cols => (cols.get c).toNat.testBit r) ∧
    (∀ (r : Fin 8) (c : Nat), r.val < 7 → 5 ≤ c →
      (drawAll font5x7 blank ds r).toNat.testBit c = false) ∧
    (drawAll font5x7 blank ds 7).toNat.testBit 5 =
      (lastOf Draw.redVal ds).elim false (decide <| · ≠ 0) ∧
    (drawAll font5x7 blank ds 7).toNat.testBit 6 =
      (lastOf Draw.greenVal ds).elim false (decide <| · ≠ 0) ∧
    (∀ c, c ≠ 5 → c ≠ 6 → (drawAll font5x7 blank ds 7).toNat.testBit c = false) ∧
    (∀ ds', lastOf (Draw.columns font5x7) ds' = lastOf (Draw.columns font5x7) ds →
      lastOf Draw.redVal ds' = lastOf Draw.redVal ds →
      lastOf Draw.greenVal ds' = lastOf Draw.greenVal ds →
      drawAll font5x7 blank ds' = drawAll font5x7 blank ds) ∧
    ∀ (p : Rows) (d e : Draw), d.part ≠ e.part →
      drawAll font5x7 p [d, e] = drawAll font5x7 p [e, d] ∧
      ∀ r c, e.cell font5x7 r c ≠ none → (drawAll font5x7 p [d]).lit r c = p.lit r c := by
  refine ⟨?_, ?_, red_lit font5x7 ds, green_lit font5x7 ds, fun c => dark_lit font5x7 ds, ?_, ?_⟩
  · intro r c hr
    have hbit := display_lit font5x7 ds hr c
    have hcol (cols : Vector UInt8 5) : colBit cols c r = (cols.get c).toNat.testBit r :=
      dif_pos c.isLt
    simp only [hcol] at hbit
    exact hbit
  · intro r c hr hc
    have hbit := display_lit font5x7 ds hr c
    have hcol (cols : Vector UInt8 5) : colBit cols c r = false := dif_neg (Nat.not_lt.mpr hc)
    simp only [hcol] at hbit
    exact hbit.trans (by cases lastOf (Draw.columns font5x7) ds <;> rfl)
  · intro ds' hcols hred hgreen
    apply Rows.ext_lit
    intro r c
    by_cases hr : r.val < 7
    · rw [display_lit font5x7 ds' hr, display_lit font5x7 ds hr, hcols]
    · obtain rfl : r = 7 := Fin.ext (by show r.val = 7; omega)
      by_cases h5 : c = 5
      · rw [h5, red_lit, red_lit, hred]
      · by_cases h6 : c = 6
        · rw [h6, green_lit, green_lit, hgreen]
        · rw [dark_lit font5x7 ds' h5 h6, dark_lit font5x7 ds h5 h6]
  · intro p d e h
    refine ⟨Draw.draw_comm h p, fun r c he => ?_⟩
    show (Draw.draw font5x7 p d).lit r c = p.lit r c
    rw [Draw.draw_lit, (Draw.cell_disjoint h r c).resolve_right he]
    rfl

end

end Bramble
