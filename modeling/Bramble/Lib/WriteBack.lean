import Mathlib.Logic.Function.Basic
import Mathlib.Data.List.Basic

/-!
# A write-back cache in front of a backing store

The addresses are grouped in regions. The first access to a region after an invalidation copies the
region from the backing store; writes mark their region dirty.

* `Access`, `lastWrite`        reads and writes, and the byte last written to an address;
* `Cache.access`               one access, with what the backing store holds at that moment;
* `Cache.phase`                an invalidation, then accesses;
* `leaves`                     the byte that a phase leaves at an address;
* `Cache.mem_phases`           the memory after some phases: what the last phase that touches the
                               region leaves;
* `Cache.dirty_phases`         a region that was written is dirty;
* `Cache.mem_phase`            the memory after one phase: `image`;
* `Cache.dirty_accesses_iff`   the regions that are dirty after some accesses.
-/

namespace Bramble

/-! ## accesses -/

inductive Access (A V : Type*) where
  | read (a : A)
  | write (a : A) (v : V)
  deriving DecidableEq

section
variable {A R V : Type*}

def Access.addr : Access A V → A
  | .read a => a
  | .write a _ => a

section
variable [DecidableEq A]

/-- the byte that the access writes to `a` -/
def Access.writes (a : A) : Access A V → Option V
  | .read _ => none
  | .write b v => if b = a then some v else none

/-- the byte last written to `a` -/
def lastWrite (a : A) : List (Access A V) → Option V
  | [] => none
  | x :: xs => (lastWrite a xs).or (x.writes a)

theorem lastWrite_cons (a : A) (x : Access A V) (xs : List (Access A V)) :
    lastWrite a (x :: xs) = (lastWrite a xs).or (x.writes a) := rfl

theorem lastWrite_append (a : A) (xs ys : List (Access A V)) :
    lastWrite a (xs ++ ys) = (lastWrite a ys).or (lastWrite a xs) := by
  induction xs with
  | nil => rw [List.nil_append, lastWrite, Option.or_none]
  | cons x xs ih => rw [List.cons_append, lastWrite_cons, lastWrite_cons, ih, Option.or_assoc]

theorem Access.writes_some {a : A} {v : V} {x : Access A V} (h : x.writes a = some v) :
    x = .write a v := by
  cases x with
  | read b => exact absurd h (by simp [Access.writes])
  | write b w =>
    by_cases hb : b = a
    · rw [Access.writes, if_pos hb] at h
      rw [hb, Option.some.inj h]
    · rw [Access.writes, if_neg hb] at h
      exact absurd h (by simp)

theorem lastWrite_isSome {a : A} {v : V} {xs : List (Access A V)} (h : .write a v ∈ xs) :
    ∃ w, lastWrite a xs = some w := by
  induction xs with
  | nil => exact absurd h List.not_mem_nil
  | cons x xs ih =>
    rw [lastWrite_cons]
    rcases List.mem_cons.mp h with rfl | h
    · cases lastWrite a xs with
      | some w => exact ⟨w, rfl⟩
      | none => exact ⟨v, if_pos rfl⟩
    · obtain ⟨w, hw⟩ := ih h
      rw [hw]
      exact ⟨w, rfl⟩

theorem lastWrite_mem {a : A} {v : V} {xs : List (Access A V)} (h : lastWrite a xs = some v) :
    .write a v ∈ xs := by
  induction xs with
  | nil => exact absurd h (by simp [lastWrite])
  | cons x xs ih =>
    rw [lastWrite_cons] at h
    cases hl : lastWrite a xs with
    | some w =>
      rw [hl] at h
      exact List.mem_cons_of_mem _ (ih (hl.trans h))
    | none =>
      rw [hl, Option.none_or] at h
      rw [Access.writes_some h]
      exact List.mem_cons_self

end

/-! ## the cache -/

/-- a memory, with a valid and a dirty flag for each region -/
structure Cache (A R V : Type*) where
  mem : A → V
  valid : R → Bool
  dirty : R → Bool

/-- an access, and the contents of the backing store when it is made -/
abbrev TimedAccess (A V : Type*) := Access A V × (A → V)

variable (region : A → Option R) (writable : R → Bool)

section
variable [DecidableEq A] [DecidableEq R]

namespace Cache

def invalidate (c : Cache A R V) : Cache A R V := { c with valid := fun _ => false }

/-- copy a region from the backing store, if it is not valid -/
def fault (back : A → V) (r : R) (c : Cache A R V) : Cache A R V :=
  if c.valid r then c
  else { c with
    mem := fun a => if region a = some r then back a else c.mem a
    valid := Function.update c.valid r true }

def load (back : A → V) (a : A) (c : Cache A R V) : Cache A R V :=
  match region a with
  | none => c
  | some r => c.fault region back r

def mark (a : A) (c : Cache A R V) : Cache A R V :=
  match region a with
  | none => c
  | some r => if writable r then { c with dirty := Function.update c.dirty r true } else c

def access (c : Cache A R V) : TimedAccess A V → Cache A R V
  | (.read a, back) => c.load region back a
  | (.write a v, back) =>
    let c := c.load region back a
    mark region writable a { c with mem := Function.update c.mem a v }

def accesses : Cache A R V → List (TimedAccess A V) → Cache A R V
  | c, [] => c
  | c, x :: xs => accesses (c.access region writable x) xs

/-- the accesses between two invalidations -/
def phase (c : Cache A R V) (xs : List (TimedAccess A V)) : Cache A R V :=
  c.invalidate.accesses region writable xs

def phases : Cache A R V → List (List (TimedAccess A V)) → Cache A R V
  | c, [] => c
  | c, xs :: xss => phases (c.phase region writable xs) xss

theorem access_write (c : Cache A R V) (a : A) (v : V) (back : A → V) :
    c.access region writable (.write a v, back) = mark region writable a
      { c.load region back a with mem := Function.update (c.load region back a).mem a v } := rfl

theorem accesses_cons (c : Cache A R V) (x : TimedAccess A V) (xs : List (TimedAccess A V)) :
    c.accesses region writable (x :: xs) =
      (c.access region writable x).accesses region writable xs := rfl

theorem accesses_append (c : Cache A R V) (xs ys : List (TimedAccess A V)) :
    c.accesses region writable (xs ++ ys) =
      (c.accesses region writable xs).accesses region writable ys := by
  induction xs generalizing c with
  | nil => rfl
  | cons x xs ih => exact ih _

theorem phases_cons (c : Cache A R V) (xs : List (TimedAccess A V))
    (xss : List (List (TimedAccess A V))) :
    c.phases region writable (xs :: xss) =
      (c.phase region writable xs).phases region writable xss := rfl

end Cache

end

/-! ## what a phase leaves -/

/-- the access is to the region `r` -/
def Touches (r : R) (x : TimedAccess A V) : Prop := region x.1.addr = some r

theorem touches_of_eq {r : R} {x : TimedAccess A V} {y : Access A V} (hx : x.1 = y)
    (hr : region y.addr = some r) : Touches region r x := by
  unfold Touches
  rw [hx]
  exact hr

variable [DecidableEq R]

instance (r : R) (x : TimedAccess A V) : Decidable (Touches region r x) :=
  inferInstanceAs (Decidable (_ = _))

/-- the backing store at the first access to `r` -/
def supplied (r : R) (xs : List (TimedAccess A V)) : Option (A → V) :=
  (xs.find? fun x => decide (Touches region r x)).map (·.2)

theorem supplied_append {r : R} (xs ys : List (TimedAccess A V)) :
    supplied region r (xs ++ ys) = (supplied region r xs).or (supplied region r ys) := by
  unfold supplied
  rw [List.find?_append]
  cases xs.find? fun x => decide (Touches region r x) <;> rfl

theorem supplied_none {r : R} {xs : List (TimedAccess A V)} :
    supplied region r xs = none ↔ ∀ x ∈ xs, ¬ Touches region r x := by
  unfold supplied
  rw [Option.map_eq_none_iff, List.find?_eq_none]
  simp

theorem supplied_isSome {r : R} {xs : List (TimedAccess A V)} :
    (supplied region r xs).isSome ↔ ∃ x ∈ xs, Touches region r x := by
  rw [Option.isSome_iff_ne_none, Ne, supplied_none]
  simp

section
variable [DecidableEq A]

/-- the byte a phase leaves at `a`, an address of the region `r`; `none` if it does not touch `r` -/
def leaves (r : R) (a : A) (xs : List (TimedAccess A V)) : Option V :=
  (supplied region r xs).map fun back => (lastWrite a (xs.map (·.1))).getD (back a)

/-- the byte a phase leaves at `a`, if the memory held `mem` before it -/
def image (mem : A → V) (xs : List (TimedAccess A V)) (a : A) : V :=
  match region a with
  | some r => (leaves region r a xs).getD (mem a)
  | none => (lastWrite a (xs.map (·.1))).getD (mem a)

theorem leaves_none {r : R} {a : A} {xs : List (TimedAccess A V)} :
    leaves region r a xs = none ↔ ∀ x ∈ xs, ¬ Touches region r x := by
  unfold leaves
  rw [Option.map_eq_none_iff, supplied_none]

theorem leaves_some {r : R} {a : A} {v : V} {xs : List (TimedAccess A V)} :
    leaves region r a xs = some v ↔ ∃ back, supplied region r xs = some back ∧
      (lastWrite a (xs.map (·.1)) = some v ∨ lastWrite a (xs.map (·.1)) = none ∧ back a = v) := by
  unfold leaves
  rw [Option.map_eq_some_iff]
  refine exists_congr fun back => and_congr_right fun _ => ?_
  cases lastWrite a (xs.map (·.1)) with
  | none => simp
  | some w => simp

theorem image_of_lastWrite {mem : A → V} {xs : List (TimedAccess A V)} {a : A} {v : V}
    (h : lastWrite a (xs.map (·.1)) = some v) : image region mem xs a = v := by
  unfold image
  cases ha : region a with
  | none =>
    show (lastWrite a (xs.map (·.1))).getD _ = v
    rw [h]
    rfl
  | some r =>
    obtain ⟨x, hx, hxa⟩ := List.mem_map.mp (lastWrite_mem h)
    have htouch : Touches region r x := touches_of_eq region hxa ha
    obtain ⟨back, hback⟩ :=
      Option.isSome_iff_exists.mp ((supplied_isSome region).mpr ⟨x, hx, htouch⟩)
    have hleaves : leaves region r a xs = some v :=
      (leaves_some region).mpr ⟨back, hback, .inl h⟩
    show (leaves region r a xs).getD _ = v
    rw [hleaves]
    rfl

theorem image_congr {mem : A → V} {xs ys : List (TimedAccess A V)}
    (hs : ∀ r, supplied region r xs = supplied region r ys)
    (hl : ∀ a, lastWrite a (xs.map (·.1)) = lastWrite a (ys.map (·.1))) :
    image region mem xs = image region mem ys := by
  funext a
  unfold image leaves
  rw [hl]
  cases region a with
  | none => rfl
  | some r =>
    show (Option.map _ (supplied region r xs)).getD _ = (Option.map _ (supplied region r ys)).getD _
    rw [hs]

end

/-! ## one access -/

section
variable {region writable} {r : R} {a : A} {c : Cache A R V} {x : TimedAccess A V}

theorem Cache.fault_self_valid (back : A → V) : (c.fault region back r).valid r = true := by
  unfold Cache.fault
  split
  · assumption
  · simp

theorem Cache.fault_self_mem (back : A → V) (ha : region a = some r) :
    (c.fault region back r).mem a = if c.valid r then c.mem a else back a := by
  unfold Cache.fault
  split
  · rfl
  · exact if_pos ha

theorem Cache.fault_other {r' : R} (back : A → V) (hr : r' ≠ r) (ha : region a = some r) :
    (c.fault region back r').valid r = c.valid r ∧ (c.fault region back r').mem a = c.mem a := by
  unfold Cache.fault
  split
  · exact ⟨rfl, rfl⟩
  · refine ⟨Function.update_of_ne (Ne.symm hr) _ _, if_neg ?_⟩
    rw [ha]
    exact fun h => hr (Option.some.inj h).symm

theorem Cache.fault_dirty (back : A → V) (r' : R) : (c.fault region back r').dirty = c.dirty := by
  unfold Cache.fault
  split <;> rfl

theorem Cache.load_dirty (back : A → V) (b : A) : (c.load region back b).dirty = c.dirty := by
  unfold Cache.load
  split
  · rfl
  · exact Cache.fault_dirty back _

theorem Cache.mark_mem (b : A) : (c.mark region writable b).mem = c.mem := by
  unfold Cache.mark
  split
  · rfl
  · split <;> rfl

theorem Cache.mark_valid (b : A) : (c.mark region writable b).valid = c.valid := by
  unfold Cache.mark
  split
  · rfl
  · split <;> rfl

theorem Cache.load_self (back : A → V) {b : A} (hb : region b = some r) (ha : region a = some r) :
    (c.load region back b).valid r = true ∧
      (c.load region back b).mem a = if c.valid r then c.mem a else back a := by
  unfold Cache.load
  rw [hb]
  exact ⟨Cache.fault_self_valid back, Cache.fault_self_mem back ha⟩

theorem Cache.load_other (back : A → V) {b : A} (hb : region b ≠ some r) (ha : region a = some r) :
    (c.load region back b).valid r = c.valid r ∧ (c.load region back b).mem a = c.mem a := by
  unfold Cache.load
  split
  · exact ⟨rfl, rfl⟩
  · rename_i r' hr'
    refine Cache.fault_other back ?_ ha
    intro h
    exact hb (by rw [hr', h])

theorem Cache.mark_dirty_iff (b : A) : (c.mark region writable b).dirty r = true ↔
    c.dirty r = true ∨ writable r = true ∧ region b = some r := by
  unfold Cache.mark
  split
  · rename_i hb
    simp [hb]
  · rename_i r' hr'
    rw [hr', Option.some.injEq]
    by_cases hr : r' = r
    · subst hr
      cases hw : writable r' with
      | true => simp
      | false => simp
    · have hr' : r ≠ r' := Ne.symm hr
      split
      · simp [Function.update_of_ne hr', hr]
      · simp [hr]

theorem supplied_touch {xs : List (TimedAccess A V)} (hx : Touches region r x) :
    supplied region r (x :: xs) = some x.2 := by
  unfold supplied
  rw [List.find?_cons_of_pos (by simpa using hx)]
  rfl

theorem supplied_other {xs : List (TimedAccess A V)} (hx : ¬ Touches region r x) :
    supplied region r (x :: xs) = supplied region r xs := by
  unfold supplied
  rw [List.find?_cons_of_neg (by simpa using hx)]

variable [DecidableEq A]

/-- **An access to the region of `a`** -/
theorem Cache.access_touch (ha : region a = some r) (hx : Touches region r x) :
    (c.access region writable x).valid r = true ∧ (c.access region writable x).mem a =
      (x.1.writes a).getD (if c.valid r then c.mem a else x.2 a) := by
  obtain ⟨x, back⟩ := x
  cases x with
  | read b => exact Cache.load_self back hx ha
  | write b v =>
    have hload := @Cache.load_self _ _ _ region _ r a c back b hx ha
    unfold Cache.access
    rw [Cache.mark_valid, Cache.mark_mem]
    refine ⟨hload.1, ?_⟩
    by_cases hb : b = a
    · simp [Access.writes, hb]
    · simp only [Access.writes, if_neg hb, Option.getD_none]
      rw [Function.update_of_ne (Ne.symm hb)]
      exact hload.2

/-- **An access to another region** -/
theorem Cache.access_other (ha : region a = some r) (hx : ¬ Touches region r x) :
    (c.access region writable x).valid r = c.valid r ∧
      (c.access region writable x).mem a = c.mem a ∧ x.1.writes a = none := by
  obtain ⟨x, back⟩ := x
  cases x with
  | read b =>
    have hload := @Cache.load_other _ _ _ region _ r a c back b hx ha
    exact ⟨hload.1, hload.2, rfl⟩
  | write b v =>
    have hb : b ≠ a := fun h => hx (show region b = some r by rw [h, ha])
    have hload := @Cache.load_other _ _ _ region _ r a c back b hx ha
    unfold Cache.access
    rw [Cache.mark_valid, Cache.mark_mem]
    refine ⟨hload.1, ?_, if_neg hb⟩
    show Function.update (c.load region back b).mem b v a = c.mem a
    rw [Function.update_of_ne (Ne.symm hb)]
    exact hload.2

/-- an access marks the region that it writes, if `writable`, and no other -/
theorem Cache.access_dirty_iff : (c.access region writable x).dirty r = true ↔
    c.dirty r = true ∨ writable r = true ∧ ∃ a v, x.1 = .write a v ∧ region a = some r := by
  obtain ⟨x, back⟩ := x
  cases x with
  | read b =>
    rw [show (c.access region writable (.read b, back)).dirty = c.dirty from
      Cache.load_dirty back b]
    simp
  | write b v =>
    rw [Cache.access_write, Cache.mark_dirty_iff]
    show (c.load region back b).dirty r = true ∨ _ ↔ _
    rw [Cache.load_dirty]
    simp

/-! ## accesses in a row -/

theorem getD_or (o o' : Option V) (v : V) : (o.or o').getD v = o.getD (o'.getD v) := by
  cases o <;> rfl

/-- in a valid region only the writes count -/
theorem Cache.mem_accesses_valid (ha : region a = some r) (xs : List (TimedAccess A V))
    (h : c.valid r = true) :
    (c.accesses region writable xs).mem a = (lastWrite a (xs.map (·.1))).getD (c.mem a) := by
  induction xs generalizing c with
  | nil => rfl
  | cons x xs ih =>
    rw [Cache.accesses_cons, List.map_cons, lastWrite_cons, getD_or]
    by_cases hx : Touches region r x
    · obtain ⟨hv, hm⟩ := @Cache.access_touch _ _ _ region writable _ r a c x _ ha hx
      rw [if_pos h] at hm
      rw [ih hv, hm]
    · obtain ⟨hv, hm, hw⟩ := @Cache.access_other _ _ _ region writable _ r a c x _ ha hx
      rw [ih (hv.trans h), hm, hw]
      rfl

/-- the first access to a region that is not valid takes it from the backing store -/
theorem Cache.mem_accesses (ha : region a = some r) (xs : List (TimedAccess A V))
    (h : c.valid r = false) :
    (c.accesses region writable xs).mem a = (leaves region r a xs).getD (c.mem a) := by
  induction xs generalizing c with
  | nil => rfl
  | cons x xs ih =>
    rw [Cache.accesses_cons]
    by_cases hx : Touches region r x
    · obtain ⟨hv, hm⟩ := @Cache.access_touch _ _ _ region writable _ r a c x _ ha hx
      rw [Cache.mem_accesses_valid ha xs hv, hm]
      unfold leaves
      rw [supplied_touch hx, List.map_cons, lastWrite_cons, h]
      show _ = (((lastWrite a (xs.map (·.1))).or (x.1.writes a)).getD (x.2 a))
      rw [getD_or]
      rfl
    · obtain ⟨hv, hm, hw⟩ := @Cache.access_other _ _ _ region writable _ r a c x _ ha hx
      have hleaves : leaves region r a (x :: xs) = leaves region r a xs := by
        unfold leaves
        rw [supplied_other hx, List.map_cons, lastWrite_cons, hw, Option.or_none]
      rw [ih (hv.trans h), hm, hleaves]

theorem Cache.access_none (ha : region a = none) :
    (c.access region writable x).mem a = (x.1.writes a).getD (c.mem a) := by
  have hload : ∀ back b, (c.load region back b).mem a = c.mem a := by
    intro back b
    unfold Cache.load
    split
    · rfl
    · unfold Cache.fault
      split
      · rfl
      · refine if_neg ?_
        rw [ha]
        exact fun h => nomatch h
  obtain ⟨x, back⟩ := x
  cases x with
  | read b => exact hload back b
  | write b v =>
    rw [Cache.access_write, Cache.mark_mem]
    by_cases hb : b = a
    · simp [Access.writes, hb]
    · simp only [Access.writes, if_neg hb, Option.getD_none]
      rw [Function.update_of_ne (Ne.symm hb)]
      exact hload back b

theorem Cache.mem_accesses_none (ha : region a = none) (xs : List (TimedAccess A V)) :
    (c.accesses region writable xs).mem a = (lastWrite a (xs.map (·.1))).getD (c.mem a) := by
  induction xs generalizing c with
  | nil => rfl
  | cons x xs ih =>
    rw [Cache.accesses_cons, ih, Cache.access_none ha, List.map_cons, lastWrite_cons, getD_or]

/-- a byte that has been accessed stays until it is written -/
theorem Cache.mem_accesses_reads (hv : ∀ r, region a = some r → c.valid r = true)
    {xs : List (TimedAccess A V)} (hx : lastWrite a (xs.map (·.1)) = none) :
    (c.accesses region writable xs).mem a = c.mem a := by
  cases ha : region a with
  | none =>
    rw [Cache.mem_accesses_none ha, hx]
    rfl
  | some r =>
    rw [Cache.mem_accesses_valid ha xs (hv r ha), hx]
    rfl

/-- **The memory after one phase** -/
theorem Cache.mem_phase (xs : List (TimedAccess A V)) :
    (c.phase region writable xs).mem = image region c.mem xs := by
  funext a
  unfold image
  cases ha : region a with
  | none => exact Cache.mem_accesses_none ha xs
  | some r => exact Cache.mem_accesses ha xs rfl

/-- **The regions that are dirty after some accesses** -/
theorem Cache.dirty_accesses_iff (xs : List (TimedAccess A V)) :
    (c.accesses region writable xs).dirty r = true ↔ c.dirty r = true ∨
      writable r = true ∧ ∃ a v, .write a v ∈ xs.map (·.1) ∧ region a = some r := by
  induction xs generalizing c with
  | nil => simp [Cache.accesses]
  | cons x xs ih =>
    rw [Cache.accesses_cons, ih, Cache.access_dirty_iff, or_assoc, ← and_or_left]
    refine or_congr_right (and_congr_right fun _ => ?_)
    constructor
    · rintro (⟨a, v, hx, ha⟩ | ⟨a, v, hx, ha⟩)
      · exact ⟨a, v, List.mem_cons.mpr (.inl hx.symm), ha⟩
      · exact ⟨a, v, List.mem_cons_of_mem _ hx, ha⟩
    · rintro ⟨a, v, hx, ha⟩
      rcases List.mem_cons.mp hx with hx | hx
      · exact .inl ⟨a, v, hx.symm, ha⟩
      · exact .inr ⟨a, v, hx, ha⟩

theorem Cache.dirty_accesses (xs : List (TimedAccess A V)) (h : c.dirty r = true) :
    (c.accesses region writable xs).dirty r = true :=
  (Cache.dirty_accesses_iff xs).mpr (.inl h)

theorem Cache.dirty_accesses_write (ha : region a = some r) (hw : writable r = true)
    {xs : List (TimedAccess A V)} {v : V} (hx : .write a v ∈ xs.map (·.1)) :
    (c.accesses region writable xs).dirty r = true :=
  (Cache.dirty_accesses_iff xs).mpr (.inr ⟨hw, a, v, hx, ha⟩)

/-! ## phases -/

/-- **The memory after some phases** is what the last phase that touches the region leaves. -/
theorem Cache.mem_phases (ha : region a = some r) (xss : List (List (TimedAccess A V))) :
    (c.phases region writable xss).mem a =
      (xss.reverse.findSome? (leaves region r a)).getD (c.mem a) := by
  induction xss generalizing c with
  | nil => rfl
  | cons xs xss ih =>
    have hphase : (c.phase region writable xs).mem a = (leaves region r a xs).getD (c.mem a) :=
      @Cache.mem_accesses _ _ _ region writable _ r a c.invalidate _ ha xs rfl
    rw [Cache.phases_cons, ih, hphase, List.reverse_cons, List.findSome?_append, getD_or,
      List.findSome?_singleton]

theorem Cache.dirty_phases (xss : List (List (TimedAccess A V))) (h : c.dirty r = true) :
    (c.phases region writable xss).dirty r = true := by
  induction xss generalizing c with
  | nil => exact h
  | cons xs xss ih =>
    have hphase : (c.phase region writable xs).dirty r = true :=
      @Cache.dirty_accesses _ _ _ region writable _ r c.invalidate _ xs h
    exact ih hphase

/-- **A region that was written is dirty.** -/
theorem Cache.dirty_phases_write (ha : region a = some r) (hw : writable r = true)
    {xss : List (List (TimedAccess A V))} {xs : List (TimedAccess A V)} (hxs : xs ∈ xss) {v : V}
    (hx : .write a v ∈ xs.map (·.1)) : (c.phases region writable xss).dirty r = true := by
  induction xss generalizing c with
  | nil => exact absurd hxs List.not_mem_nil
  | cons ys xss ih =>
    rcases List.mem_cons.mp hxs with rfl | hxs
    · exact Cache.dirty_phases xss (Cache.dirty_accesses_write ha hw hx)
    · exact ih hxs

end

/-! ## the last phase -/

variable [DecidableEq A]

/-- the last phase that touches the region of `a` leaves `v` there -/
theorem findSome_reverse_leaves {r : R} {a : A} {v : V} {xss : List (List (TimedAccess A V))} :
    xss.reverse.findSome? (leaves region r a) = some v ↔
      ∃ before xs after, xss = before ++ xs :: after ∧ leaves region r a xs = some v ∧
        ∀ ys ∈ after, ∀ y ∈ ys, ¬ Touches region r y := by
  rw [List.findSome?_eq_some_iff]
  constructor
  · rintro ⟨l1, xs, l2, hl, hxs, hl1⟩
    refine ⟨l2.reverse, xs, l1.reverse, ?_, hxs, ?_⟩
    · rw [← List.reverse_reverse xss, hl]
      simp
    · intro ys hys
      exact (leaves_none region).mp (hl1 ys (List.mem_reverse.mp hys))
  · rintro ⟨before, xs, after, hl, hxs, hafter⟩
    refine ⟨after.reverse, xs, before.reverse, ?_, hxs, ?_⟩
    · rw [hl]
      simp
    · intro ys hys
      exact (leaves_none region).mpr (hafter ys (List.mem_reverse.mp hys))

end

end Bramble
