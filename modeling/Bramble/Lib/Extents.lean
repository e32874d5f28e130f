import Mathlib

/-!
# Lists of extents

An extent is a run of addresses.  A list of them is kept in order and with gaps in between, so that
each of its extents is as long as it can be.

* `Extents.Covers`     the addresses of a list;
* `Extents.Separated`  in order, with gaps;
* `Extents.insert`     one more extent, joined with the neighbours that it touches;
* `Separated.insert`, `covers_insert`, `total_insert`   what it does;
* `Separated.fits`     a run of covered addresses lies in one extent;
* `Separated.whole`    a list that covers one run of addresses is that run;
* `Tiles`              a separated list and other extents make up a run of addresses;
* `Tiles.take`, `Tiles.cut`, `Tiles.release`   an extent changes sides, or becomes two;
* `Tiles.gap_iff`      the gaps between the others are the extents of the list.
-/

namespace Bramble

/-- the addresses from `addr` on -/
structure Extent where
  addr : Nat
  size : Nat
  deriving DecidableEq

namespace Extent

/-- the address behind -/
def stop (x : Extent) : Nat := x.addr + x.size

def Has (x : Extent) (a : Nat) : Prop := x.addr ≤ a ∧ a < x.stop

def Apart (x y : Extent) : Prop := x.stop ≤ y.addr ∨ y.stop ≤ x.addr

theorem stop_eq (x : Extent) : x.stop = x.addr + x.size := rfl

theorem Apart.symm {x y : Extent} (h : x.Apart y) : y.Apart x := Or.symm h

theorem Apart.not_has {x y : Extent} (h : x.Apart y) {a : Nat} (hx : x.Has a) : ¬ y.Has a := by
  intro hy
  obtain ⟨hx1, hx2⟩ := hx
  obtain ⟨hy1, hy2⟩ := hy
  rcases h with h | h <;> omega

theorem apart_of_has {x y : Extent} (hx : 0 < x.size) (hy : 0 < y.size)
    (h : ∀ a, x.Has a → ¬ y.Has a) : x.Apart y := by
  have hxs := x.stop_eq
  have hys := y.stop_eq
  by_contra hap
  obtain ⟨h1, h2⟩ := not_or.mp hap
  by_cases hle : x.addr ≤ y.addr
  · exact h y.addr ⟨hle, by omega⟩ ⟨Nat.le_refl _, by omega⟩
  · exact h x.addr ⟨Nat.le_refl _, by omega⟩ ⟨by omega, by omega⟩

end Extent

namespace Extents

def Covers (xs : List Extent) (a : Nat) : Prop := ∃ x ∈ xs, x.Has a

structure Separated (xs : List Extent) : Prop where
  pos : ∀ x ∈ xs, 0 < x.size
  gaps : xs.Pairwise fun x y => x.stop < y.addr

def total (xs : List Extent) : Nat := (xs.map Extent.size).sum

/-- `b` in front of the list, joined with the first extent if they touch -/
def glue (b : Extent) : List Extent → List Extent
  | [] => [b]
  | y :: ys => if b.stop = y.addr then ⟨b.addr, b.size + y.size⟩ :: ys else b :: y :: ys

/-- `b` in its place, joined with the neighbours that it touches -/
def insert (b : Extent) : List Extent → List Extent
  | [] => [b]
  | x :: xs =>
    if b.addr ≤ x.addr then glue b (x :: xs)
    else if x.stop = b.addr then glue ⟨x.addr, x.size + b.size⟩ xs
    else x :: insert b xs

section
variable {b x y : Extent} {xs ys zs : List Extent} {a n : Nat}

theorem glue_cons : glue b (y :: ys) =
    if b.stop = y.addr then ⟨b.addr, b.size + y.size⟩ :: ys else b :: y :: ys := rfl

theorem insert_cons : insert b (x :: xs) =
    if b.addr ≤ x.addr then glue b (x :: xs)
    else if x.stop = b.addr then glue ⟨x.addr, x.size + b.size⟩ xs
    else x :: insert b xs := rfl

/-! ## addresses -/

theorem covers_cons : Covers (x :: xs) a ↔ x.Has a ∨ Covers xs a := by
  unfold Covers
  rw [List.exists_mem_cons_iff]

theorem covers_append : Covers (xs ++ ys) a ↔ Covers xs a ∨ Covers ys a := by
  unfold Covers
  constructor
  · rintro ⟨x, hx, ha⟩
    exact (List.mem_append.mp hx).imp (fun hx => ⟨x, hx, ha⟩) fun hx => ⟨x, hx, ha⟩
  · rintro (⟨x, hx, ha⟩ | ⟨x, hx, ha⟩)
    · exact ⟨x, List.mem_append_left _ hx, ha⟩
    · exact ⟨x, List.mem_append_right _ hx, ha⟩

/-- two extents that touch are one -/
theorem has_join (h : b.stop = y.addr) :
    (⟨b.addr, b.size + y.size⟩ : Extent).Has a ↔ b.Has a ∨ y.Has a := by
  have hb := b.stop_eq
  have hy := y.stop_eq
  show b.addr ≤ a ∧ a < b.addr + (b.size + y.size) ↔ _ ∨ _
  unfold Extent.Has
  omega

theorem covers_glue : Covers (glue b ys) a ↔ b.Has a ∨ Covers ys a := by
  cases ys with
  | nil => exact covers_cons
  | cons y ys =>
    rw [glue_cons]
    split
    · rename_i h
      rw [covers_cons, has_join h, covers_cons, or_assoc]
    · exact covers_cons

theorem covers_insert : Covers (insert b xs) a ↔ b.Has a ∨ Covers xs a := by
  induction xs with
  | nil => exact covers_cons
  | cons x xs ih =>
    rw [insert_cons]
    split
    · exact covers_glue
    · split
      · rename_i h
        rw [covers_glue, has_join h, covers_cons, or_assoc, or_left_comm]
      · rw [covers_cons, ih, covers_cons, or_left_comm]

/-! ## sizes -/

theorem total_cons : total (x :: xs) = x.size + total xs := by
  unfold total
  rw [List.map_cons, List.sum_cons]

theorem total_append : total (xs ++ ys) = total xs + total ys := by
  unfold total
  rw [List.map_append, List.sum_append]

theorem total_glue : total (glue b ys) = b.size + total ys := by
  cases ys with
  | nil => exact total_cons
  | cons y ys =>
    rw [glue_cons]
    split
    · rw [total_cons, total_cons, Nat.add_assoc]
    · exact total_cons

theorem total_insert : total (insert b xs) = b.size + total xs := by
  induction xs with
  | nil => exact total_cons
  | cons x xs ih =>
    rw [insert_cons]
    split
    · exact total_glue
    · split
      · rw [total_glue, total_cons]
        show x.size + b.size + _ = _
        omega
      · rw [total_cons, ih, total_cons]
        omega

theorem size_le_total (h : x ∈ xs) : x.size ≤ total xs :=
  List.single_le_sum (fun _ _ => Nat.zero_le _) _ (List.mem_map_of_mem h)

/-! ## multiples -/

/-- addresses and sizes are multiples of `n` -/
def Aligned (n : Nat) (x : Extent) : Prop := n ∣ x.addr ∧ n ∣ x.size

theorem aligned_glue (hb : Aligned n b) (hys : ∀ y ∈ ys, Aligned n y) :
    ∀ y ∈ glue b ys, Aligned n y := by
  cases ys with
  | nil => exact List.forall_mem_singleton.mpr hb
  | cons y ys =>
    obtain ⟨hy, hys'⟩ := List.forall_mem_cons.mp hys
    rw [glue_cons]
    split
    · exact List.forall_mem_cons.mpr ⟨⟨hb.1, hb.2.add hy.2⟩, hys'⟩
    · exact List.forall_mem_cons.mpr ⟨hb, hys⟩

theorem aligned_insert (hb : Aligned n b) (hxs : ∀ x ∈ xs, Aligned n x) :
    ∀ x ∈ insert b xs, Aligned n x := by
  induction xs with
  | nil => exact List.forall_mem_singleton.mpr hb
  | cons x xs ih =>
    obtain ⟨hx, hxs'⟩ := List.forall_mem_cons.mp hxs
    rw [insert_cons]
    split
    · exact aligned_glue hb hxs
    · split
      · exact aligned_glue ⟨hx.1, hx.2.add hb.2⟩ hxs'
      · exact List.forall_mem_cons.mpr ⟨hx, ih hxs'⟩

/-! ## order -/

theorem separated_cons : Separated (x :: xs) ↔
    0 < x.size ∧ (∀ y ∈ xs, x.stop < y.addr) ∧ Separated xs := by
  constructor
  · rintro ⟨hpos, hgaps⟩
    obtain ⟨hx, hgaps'⟩ := List.pairwise_cons.mp hgaps
    exact ⟨hpos x List.mem_cons_self, hx, fun y hy => hpos y (List.mem_cons_of_mem x hy), hgaps'⟩
  · rintro ⟨hpos, hx, h⟩
    exact ⟨List.forall_mem_cons.mpr ⟨hpos, h.pos⟩, List.pairwise_cons.mpr ⟨hx, h.gaps⟩⟩

theorem separated_nil : Separated [] := ⟨fun _ h => absurd h List.not_mem_nil, List.Pairwise.nil⟩

theorem Separated.sublist (h : Separated ys) (hsub : xs.Sublist ys) : Separated xs :=
  ⟨fun x hx => h.pos x (hsub.subset hx), h.gaps.sublist hsub⟩

/-- every extent of a list that is joined starts where one did -/
theorem addr_of_mem_glue (h : x ∈ glue b ys) :
    x.addr = b.addr ∨ ∃ y ∈ ys, x.addr = y.addr := by
  cases ys with
  | nil => exact .inl (congrArg _ (List.mem_singleton.mp h))
  | cons y ys =>
    rw [glue_cons] at h
    split at h
    · rcases List.mem_cons.mp h with rfl | h
      · exact .inl rfl
      · exact .inr ⟨x, List.mem_cons_of_mem y h, rfl⟩
    · rcases List.mem_cons.mp h with rfl | h
      · exact .inl rfl
      · exact .inr ⟨x, h, rfl⟩

theorem Separated.glue (hb : 0 < b.size) (hys : Separated ys) (h : ∀ y ∈ ys, b.stop ≤ y.addr) :
    Separated (glue b ys) := by
  cases ys with
  | nil => exact separated_cons.mpr ⟨hb, fun _ h => absurd h List.not_mem_nil, separated_nil⟩
  | cons y ys =>
    obtain ⟨hy, hgap, hys'⟩ := separated_cons.mp hys
    have hby := h y List.mem_cons_self
    have hstop := y.stop_eq
    rw [glue_cons]
    split
    · rename_i htouch
      refine separated_cons.mpr ⟨Nat.add_pos_left hb _, fun z hz => ?_, hys'⟩
      have hz := hgap z hz
      have hbs := b.stop_eq
      show b.addr + (b.size + y.size) < z.addr
      omega
    · rename_i hne
      refine separated_cons.mpr ⟨hb, fun z hz => ?_, hys⟩
      rcases List.mem_cons.mp hz with rfl | hz
      · omega
      · have hz := hgap z hz
        omega

theorem addr_of_mem_insert (h : x ∈ insert b xs) :
    x.addr = b.addr ∨ ∃ y ∈ xs, x.addr = y.addr := by
  induction xs with
  | nil => exact .inl (congrArg _ (List.mem_singleton.mp h))
  | cons y ys ih =>
    rw [insert_cons] at h
    split at h
    · exact addr_of_mem_glue h
    · split at h
      · rcases addr_of_mem_glue h with h | ⟨z, hz, h⟩
        · exact .inr ⟨y, List.mem_cons_self, h⟩
        · exact .inr ⟨z, List.mem_cons_of_mem y hz, h⟩
      · rcases List.mem_cons.mp h with rfl | h
        · exact .inr ⟨x, List.mem_cons_self, rfl⟩
        · rcases ih h with h | ⟨z, hz, h⟩
          · exact .inl h
          · exact .inr ⟨z, List.mem_cons_of_mem y hz, h⟩

/-- **An insertion keeps the order and the gaps.** -/
theorem Separated.insert (hb : 0 < b.size) (hxs : Separated xs) (h : ∀ x ∈ xs, b.Apart x) :
    Separated (insert b xs) := by
  induction xs with
  | nil => exact separated_cons.mpr ⟨hb, fun _ h => absurd h List.not_mem_nil, separated_nil⟩
  | cons x xs ih =>
    obtain ⟨hx, hgap, hxs'⟩ := separated_cons.mp hxs
    obtain ⟨hapart, hxs''⟩ := List.forall_mem_cons.mp h
    have hbs := b.stop_eq
    have hxstop := x.stop_eq
    rw [insert_cons]
    split
    · rename_i hle
      have hbx : b.stop ≤ x.addr := hapart.resolve_right (by omega)
      refine hxs.glue hb (List.forall_mem_cons.mpr ⟨hbx, fun y hy => ?_⟩)
      have hy := hgap y hy
      omega
    · rename_i hlt
      have hxb : x.stop ≤ b.addr := hapart.resolve_left (by omega)
      split
      · rename_i htouch
        refine hxs'.glue (Nat.add_pos_left hx _) fun y hy => ?_
        have hxy := hgap y hy
        have hys := y.stop_eq
        have hby : b.stop ≤ y.addr := (hxs'' y hy).resolve_right (by omega)
        show x.addr + (x.size + b.size) ≤ y.addr
        omega
      · rename_i hne
        refine separated_cons.mpr ⟨hx, fun y hy => ?_, ih hxs' hxs''⟩
        rcases addr_of_mem_insert hy with hy | ⟨z, hz, hy⟩
        · omega
        · have hz := hgap z hz
          omega

theorem Separated.cases (h : Separated xs) (hx : x ∈ xs) (hy : y ∈ xs) :
    x = y ∨ x.stop < y.addr ∨ y.stop < x.addr := by
  induction xs with
  | nil => exact absurd hx List.not_mem_nil
  | cons z xs ih =>
    obtain ⟨_, hgap, hxs⟩ := separated_cons.mp h
    rcases List.mem_cons.mp hx with rfl | hx'
    · rcases List.mem_cons.mp hy with rfl | hy'
      · exact .inl rfl
      · exact .inr (.inl (hgap y hy'))
    · rcases List.mem_cons.mp hy with rfl | hy'
      · exact .inr (.inr (hgap x hx'))
      · exact ih hxs hx' hy'

/-- **A run of covered addresses lies in one extent.** -/
theorem Separated.fits (h : Separated xs) (hn : 0 < n)
    (hcov : ∀ c, a ≤ c → c < a + n → Covers xs c) : ∃ x ∈ xs, x.addr ≤ a ∧ a + n ≤ x.stop := by
  obtain ⟨x, hx, hxa⟩ := hcov a (Nat.le_refl a) (Nat.lt_add_of_pos_right hn)
  refine ⟨x, hx, hxa.1, ?_⟩
  by_contra hlt
  -- the address behind `x` is in another extent, which touches `x`
  obtain ⟨y, hy, hya⟩ := hcov x.stop (Nat.le_of_lt hxa.2) (Nat.lt_of_not_le hlt)
  have hxs := x.stop_eq
  have hya1 := hya.1
  have hya2 := hya.2
  rcases h.cases hx hy with rfl | hgap | hgap <;> omega

/-- **A list that covers one run of addresses is that run.** -/
theorem Separated.whole (h : Separated xs) (hn : 0 < n)
    (hcov : ∀ c, Covers xs c ↔ a ≤ c ∧ c < a + n) : xs = [⟨a, n⟩] := by
  obtain ⟨x, hx, hxa, hxn⟩ := h.fits hn fun c h1 h2 => (hcov c).mpr ⟨h1, h2⟩
  have hxs := x.stop_eq
  have hpos := h.pos x hx
  have hin (y : Extent) (hy : y ∈ xs) : a ≤ y.addr ∧ y.stop ≤ a + n := by
    have hys := y.stop_eq
    have hypos := h.pos y hy
    have h1 := (hcov y.addr).mp ⟨y, hy, Nat.le_refl _, by omega⟩
    have h2 := (hcov (y.stop - 1)).mp ⟨y, hy, by omega, by omega⟩
    omega
  have hxin := hin x hx
  have hxeq : x = ⟨a, n⟩ := by
    have haddr : x.addr = a := by omega
    have hsize : x.size = n := by omega
    rw [← haddr, ← hsize]
  have hall (y : Extent) (hy : y ∈ xs) : y = ⟨a, n⟩ := by
    have hyin := hin y hy
    have hys := y.stop_eq
    have hypos := h.pos y hy
    rcases h.cases hy hx with heq | hgap | hgap
    · exact heq.trans hxeq
    · omega
    · omega
  -- no extent is there twice
  cases xs with
  | nil => exact absurd hx List.not_mem_nil
  | cons y ys =>
    obtain ⟨_, hgap, _⟩ := separated_cons.mp h
    cases ys with
    | nil => rw [hall y List.mem_cons_self]
    | cons z zs =>
      have hz := hgap z List.mem_cons_self
      rw [hall y List.mem_cons_self, hall z (List.mem_cons_of_mem y List.mem_cons_self)] at hz
      exact absurd (show a + n < a from hz) (by omega)

/-! ## where an extent goes -/

theorem glue_eq (b : Extent) (ys : List Extent) :
    ∃ s zs, glue b ys = ⟨b.addr, s⟩ :: zs ∧ zs <:+ ys := by
  cases ys with
  | nil => exact ⟨b.size, [], rfl, List.suffix_refl _⟩
  | cons y ys =>
    rw [glue_cons]
    split
    · exact ⟨_, ys, rfl, List.suffix_cons y ys⟩
    · exact ⟨b.size, y :: ys, rfl, List.suffix_refl _⟩

theorem Separated.split (h : Separated xs) (a : Nat) :
    ∃ ys zs, xs = ys ++ zs ∧ (∀ y ∈ ys, y.addr < a) ∧ ∀ z ∈ zs, a ≤ z.addr := by
  induction xs with
  | nil => exact ⟨[], [], rfl, fun _ h => absurd h List.not_mem_nil, fun _ h => absurd h List.not_mem_nil⟩
  | cons x xs ih =>
    obtain ⟨_, hgap, hxs⟩ := separated_cons.mp h
    by_cases hx : x.addr < a
    · obtain ⟨ys, zs, rfl, hys, hzs⟩ := ih hxs
      exact ⟨x :: ys, zs, rfl, List.forall_mem_cons.mpr ⟨hx, hys⟩, hzs⟩
    · refine ⟨[], x :: xs, rfl, fun _ h => absurd h List.not_mem_nil, fun z hz => ?_⟩
      have hxs := x.stop_eq
      rcases List.mem_cons.mp hz with rfl | hz
      · omega
      · have hz := hgap z hz
        omega

theorem Separated.nodup (h : Separated xs) : (xs.map Extent.addr).Nodup := by
  refine List.pairwise_map.mpr (h.gaps.imp fun {x y} hlt => ?_)
  have hx := x.stop_eq
  omega

theorem insert_append (h : ∀ x ∈ xs, x.addr < b.addr ∧ x.stop ≠ b.addr) :
    insert b (xs ++ ys) = xs ++ insert b ys := by
  induction xs with
  | nil => rfl
  | cons x xs ih =>
    obtain ⟨hx, hxs⟩ := List.forall_mem_cons.mp h
    rw [List.cons_append, insert_cons, if_neg (Nat.not_le.mpr hx.1), if_neg hx.2, ih hxs,
      List.cons_append]

theorem insert_front (h : ∀ y ∈ ys.head?, b.addr ≤ y.addr) : insert b ys = glue b ys := by
  cases ys with
  | nil => rfl
  | cons y ys => rw [insert_cons, if_pos (h y rfl)]

theorem insert_touch (hlt : x.addr < b.addr) (h : x.stop = b.addr) :
    insert b (x :: ys) = glue ⟨x.addr, x.size + b.size⟩ ys := by
  rw [insert_cons, if_neg (Nat.not_le.mpr hlt), if_pos h]

/-- an extent that touches the one in front -/
theorem Separated.insert_behind (h : Separated (xs ++ x :: ys)) (hxs : ∀ w ∈ xs, w.addr < b.addr)
    (hlt : x.addr < b.addr) (hx : x.stop = b.addr) :
    Extents.insert b (xs ++ x :: ys) = xs ++ Extents.glue ⟨x.addr, x.size + b.size⟩ ys := by
  rw [insert_append, insert_touch hlt hx]
  intro w hw
  have hgap := (List.pairwise_append.mp h.gaps).2.2 w hw x List.mem_cons_self
  exact ⟨hxs w hw, Nat.ne_of_lt (hgap.trans hlt)⟩

/-- only the last of the extents in front can touch -/
theorem Separated.stop_ne (h : Separated xs) (hxs : ∀ x ∈ xs, x.addr < a)
    (hlast : ∀ ws x, xs = ws ++ [x] → x.stop ≠ a) (hx : x ∈ xs) : x.stop ≠ a := by
  obtain ⟨ws, vs, rfl⟩ := List.append_of_mem hx
  cases vs with
  | nil => exact hlast ws x rfl
  | cons v vs =>
    have hgap := (separated_cons.mp (h.sublist (List.sublist_append_right ws _))).2.1 v
      List.mem_cons_self
    have hva := hxs v (List.mem_append_right ws (List.mem_cons_of_mem x List.mem_cons_self))
    exact Nat.ne_of_lt (hgap.trans hva)

end

/-! ## tilings -/

/-- The extents of the separated list `xs` and of `ys` make up the addresses from `lo` to `hi`; all
addresses and sizes are multiples of `n`. -/
structure Tiles (n lo hi : Nat) (xs ys : List Extent) : Prop where
  separated : Separated xs
  pos : ∀ y ∈ ys, 0 < y.size
  apart : (xs ++ ys).Pairwise Extent.Apart
  inside : ∀ x ∈ xs ++ ys, lo ≤ x.addr ∧ x.stop ≤ hi
  aligned : ∀ x ∈ xs ++ ys, Aligned n x
  covers : ∀ a, lo ≤ a → a < hi → Covers (xs ++ ys) a
  total : total xs + total ys = hi - lo

section
variable {n lo hi : Nat} {x y b : Extent} {xs ys zs ws : List Extent} {a : Nat}

theorem covers_perm (h : xs.Perm ys) : Covers xs a ↔ Covers ys a :=
  exists_congr fun _ => and_congr_left fun _ => h.mem_iff

theorem total_perm (h : xs.Perm ys) : Extents.total xs = Extents.total ys := (h.map _).sum_eq

theorem apart_perm (h : xs.Perm ys) (hxs : xs.Pairwise Extent.Apart) :
    ys.Pairwise Extent.Apart :=
  (h.pairwise_iff fun hab => hab.symm).mp hxs

/-- the extents that are covered decide where an extent fits in -/
theorem pairwise_apart_cons (hb : 0 < b.size) (hxs : ∀ x ∈ xs, 0 < x.size) :
    (b :: xs).Pairwise Extent.Apart ↔
      (∀ a, b.Has a → ¬ Covers xs a) ∧ xs.Pairwise Extent.Apart := by
  rw [List.pairwise_cons]
  refine and_congr_left fun _ => ?_
  constructor
  · rintro h a ha ⟨x, hx, hxa⟩
    exact (h x hx).not_has ha hxa
  · intro h x hx
    exact Extent.apart_of_has hb (hxs x hx) fun a ha hxa => h a ha ⟨x, hx, hxa⟩

namespace Tiles

theorem perm (h : Tiles n lo hi xs ys) (hp : ys.Perm zs) : Tiles n lo hi xs zs where
  separated := h.separated
  pos := fun z hz => h.pos z (hp.mem_iff.mpr hz)
  apart := apart_perm (hp.append_left xs) h.apart
  inside := fun x hx => h.inside x ((hp.append_left xs).mem_iff.mpr hx)
  aligned := fun x hx => h.aligned x ((hp.append_left xs).mem_iff.mpr hx)
  covers := fun a h1 h2 => (covers_perm (hp.append_left xs)).mp (h.covers a h1 h2)
  total := by rw [← total_perm hp, h.total]

/-- an extent of the list goes over to the others -/
theorem take (h : Tiles n lo hi (xs ++ x :: ws) ys) : Tiles n lo hi (xs ++ ws) (x :: ys) := by
  have hp : (xs ++ x :: ws ++ ys).Perm (xs ++ ws ++ x :: ys) := by
    rw [List.append_assoc, List.append_assoc, List.cons_append]
    exact List.Perm.append_left xs List.perm_middle.symm
  exact {
    separated := h.separated.sublist (List.Sublist.append_left (List.sublist_cons_self x ws) xs)
    pos := List.forall_mem_cons.mpr ⟨h.separated.pos x (List.mem_append_right xs List.mem_cons_self),
      h.pos⟩
    apart := apart_perm hp h.apart
    inside := fun y hy => h.inside y (hp.mem_iff.mpr hy)
    aligned := fun y hy => h.aligned y (hp.mem_iff.mpr hy)
    covers := fun a h1 h2 => (covers_perm hp).mp (h.covers a h1 h2)
    total := by
      have htotal := h.total
      rw [total_append, total_cons] at htotal ⊢
      omega }

/-- one of the others becomes two -/
theorem cut (h : Tiles n lo hi xs (x :: ys)) {w : Nat} (hw : 0 < w) (hlt : w < x.size) (hn : n ∣ w) :
    Tiles n lo hi xs (⟨x.addr, w⟩ :: ⟨x.addr + w, x.size - w⟩ :: ys) := by
  have hx := x.stop_eq
  have hxmem : x ∈ xs ++ x :: ys := List.mem_append_right xs List.mem_cons_self
  have hhas (a : Nat) : x.Has a ↔ (⟨x.addr, w⟩ : Extent).Has a ∨
      (⟨x.addr + w, x.size - w⟩ : Extent).Has a := by
    show x.addr ≤ a ∧ a < x.stop ↔
      (x.addr ≤ a ∧ a < x.addr + w) ∨ x.addr + w ≤ a ∧ a < x.addr + w + (x.size - w)
    omega
  have hcov (a : Nat) : Covers (x :: ys) a ↔
      Covers (⟨x.addr, w⟩ :: ⟨x.addr + w, x.size - w⟩ :: ys) a := by
    rw [covers_cons, covers_cons, covers_cons, hhas, or_assoc]
  have hpos : ∀ y ∈ xs ++ ys, 0 < y.size := by
    intro y hy
    rcases List.mem_append.mp hy with hy | hy
    · exact h.separated.pos y hy
    · exact h.pos y (List.mem_cons_of_mem x hy)
  refine ⟨h.separated, ?_, ?_, ?_, ?_, fun a h1 h2 => ?_, ?_⟩
  · have hys := (List.forall_mem_cons.mp h.pos).2
    exact List.forall_mem_cons.mpr ⟨hw, List.forall_mem_cons.mpr ⟨Nat.sub_pos_of_lt hlt, hys⟩⟩
  · -- both halves are apart from what `x` is apart from, and from each other
    have hrest := apart_perm List.perm_middle h.apart
    obtain ⟨hapart, hrest⟩ := (pairwise_apart_cons (Nat.lt_trans hw hlt) hpos).mp hrest
    refine apart_perm (List.perm_middle.trans ((List.Perm.cons _ List.perm_middle))).symm ?_
    have hsecond : (⟨x.addr + w, x.size - w⟩ :: (xs ++ ys)).Pairwise Extent.Apart :=
      (pairwise_apart_cons (Nat.sub_pos_of_lt hlt) hpos).mpr
        ⟨fun a ha => hapart a ((hhas a).mpr (.inr ha)), hrest⟩
    refine (pairwise_apart_cons hw ?_).mpr ⟨fun a ha hmem => ?_, hsecond⟩
    · exact List.forall_mem_cons.mpr ⟨Nat.sub_pos_of_lt hlt, hpos⟩
    · rcases covers_cons.mp hmem with hmem | hmem
      · exact absurd (Nat.lt_of_lt_of_le ha.2 hmem.1) (Nat.lt_irrefl _)
      · exact hapart a ((hhas a).mpr (.inl ha)) hmem
  · intro y hy
    have hxin := h.inside x hxmem
    rcases List.mem_append.mp hy with hy | hy
    · exact h.inside y (List.mem_append_left _ hy)
    · rcases List.mem_cons.mp hy with rfl | hy
      · refine ⟨hxin.1, ?_⟩
        show x.addr + w ≤ hi
        omega
      · rcases List.mem_cons.mp hy with rfl | hy
        · constructor
          · show lo ≤ x.addr + w
            omega
          · show x.addr + w + (x.size - w) ≤ hi
            omega
        · exact h.inside y (List.mem_append_right xs (List.mem_cons_of_mem x hy))
  · intro y hy
    have hxal := h.aligned x hxmem
    rcases List.mem_append.mp hy with hy | hy
    · exact h.aligned y (List.mem_append_left _ hy)
    · rcases List.mem_cons.mp hy with rfl | hy
      · exact ⟨hxal.1, hn⟩
      · rcases List.mem_cons.mp hy with rfl | hy
        · exact ⟨hxal.1.add hn, Nat.dvd_sub hxal.2 hn⟩
        · exact h.aligned y (List.mem_append_right xs (List.mem_cons_of_mem x hy))
  · have hold := h.covers a h1 h2
    rw [covers_append] at hold ⊢
    exact hold.imp_right (hcov a).mp
  · have htotal := h.total
    rw [total_cons] at htotal
    rw [total_cons, total_cons]
    show Extents.total xs + (w + (x.size - w + Extents.total ys)) = hi - lo
    omega

/-- **One of the others goes into the list.** -/
theorem release (h : Tiles n lo hi xs (b :: ys)) : Tiles n lo hi (insert b xs) ys := by
  have hp : (xs ++ b :: ys).Perm (b :: (xs ++ ys)) := List.perm_middle
  have hb := h.pos b List.mem_cons_self
  obtain ⟨hapart, hrest⟩ := List.pairwise_cons.mp (apart_perm hp h.apart)
  have hbxs (x : Extent) (hx : x ∈ xs) : b.Apart x := hapart x (List.mem_append_left ys hx)
  have hsep := h.separated.insert hb hbxs
  obtain ⟨_, hys, hxys⟩ := List.pairwise_append.mp hrest
  have hcov (a : Nat) (ha : Covers (insert b xs) a) (hcovys : Covers ys a) : False := by
    obtain ⟨y, hy, hya⟩ := hcovys
    rcases covers_insert.mp ha with hba | ⟨x, hx, hxa⟩
    · exact (hapart y (List.mem_append_right xs hy)).not_has hba hya
    · exact (hxys x hx y hy).not_has hxa hya
  refine ⟨hsep, (List.forall_mem_cons.mp h.pos).2, ?_, ?_, ?_, fun a h1 h2 => ?_, ?_⟩
  · refine List.pairwise_append.mpr ⟨hsep.gaps.imp fun hlt => .inl (Nat.le_of_lt hlt), hys, ?_⟩
    intro x hx y hy
    refine Extent.apart_of_has (hsep.pos x hx) (h.pos y (List.mem_cons_of_mem b hy)) fun a hxa hya => ?_
    exact hcov a ⟨x, hx, hxa⟩ ⟨y, hy, hya⟩
  · -- the ends of an extent are covered, so they were before
    intro y hy
    rcases List.mem_append.mp hy with hy | hy
    · have hpos := hsep.pos y hy
      have hys := y.stop_eq
      have hin (c : Nat) (hc : Covers (insert b xs) c) : lo ≤ c ∧ c < hi := by
        rcases covers_insert.mp hc with hbc | ⟨x, hx, hxc⟩
        · have hbin := h.inside b (List.mem_append_right xs List.mem_cons_self)
          exact ⟨Nat.le_trans hbin.1 hbc.1, Nat.lt_of_lt_of_le hbc.2 hbin.2⟩
        · have hxin := h.inside x (List.mem_append_left _ hx)
          exact ⟨Nat.le_trans hxin.1 hxc.1, Nat.lt_of_lt_of_le hxc.2 hxin.2⟩
      have hfirst := hin y.addr ⟨y, hy, Nat.le_refl _, by omega⟩
      have hlast := hin (y.stop - 1) ⟨y, hy, by omega, by omega⟩
      omega
    · exact h.inside y (List.mem_append_right xs (List.mem_cons_of_mem b hy))
  · intro y hy
    rcases List.mem_append.mp hy with hy | hy
    · exact aligned_insert (h.aligned b (List.mem_append_right xs List.mem_cons_self))
        (fun x hx => h.aligned x (List.mem_append_left _ hx)) y hy
    · exact h.aligned y (List.mem_append_right xs (List.mem_cons_of_mem b hy))
  · have hold := (covers_perm hp).mp (h.covers a h1 h2)
    rw [covers_cons, covers_append] at hold
    rw [covers_append, covers_insert, or_assoc]
    exact hold
  · have htotal := h.total
    rw [total_cons] at htotal
    rw [total_insert]
    omega

/-- **The gaps between the others are the extents of the list.** -/
theorem gap_iff (h : Tiles n lo hi xs ys) {w : Nat} (hw : 0 < w) :
    (∃ x ∈ xs, w ≤ x.size) ↔
      ∃ a, lo ≤ a ∧ a + w ≤ hi ∧ ∀ y ∈ ys, (⟨a, w⟩ : Extent).Apart y := by
  constructor
  · rintro ⟨x, hx, hwx⟩
    have hxin := h.inside x (List.mem_append_left ys hx)
    have hxs := x.stop_eq
    refine ⟨x.addr, hxin.1, by omega, fun y hy => ?_⟩
    have hxy := (List.pairwise_append.mp h.apart).2.2 x hx y hy
    rcases hxy with hxy | hxy
    · left
      show x.addr + w ≤ y.addr
      omega
    · exact .inr hxy
  · rintro ⟨a, hlo, hhi, hapart⟩
    have hcov (c : Nat) (h1 : a ≤ c) (h2 : c < a + w) : Covers xs c := by
      rcases covers_append.mp (h.covers c (by omega) (by omega)) with hc | ⟨y, hy, hyc⟩
      · exact hc
      · exact absurd hyc ((hapart y hy).not_has ⟨h1, h2⟩)
    obtain ⟨x, hx, hxa, hxw⟩ := h.separated.fits hw hcov
    have hxs := x.stop_eq
    exact ⟨x, hx, by omega⟩

/-- where there are no others, the list is the whole run -/
theorem alone (h : Tiles n lo hi xs []) (hlt : lo < hi) : xs = [⟨lo, hi - lo⟩] := by
  refine h.separated.whole (Nat.sub_pos_of_lt hlt) fun c => ?_
  constructor
  · rintro ⟨x, hx, hxc⟩
    have hxin := h.inside x (List.mem_append_left [] hx)
    have hc1 := hxc.1
    have hc2 := hxc.2
    omega
  · rintro ⟨h1, h2⟩
    have hc := h.covers c h1 (by omega)
    rwa [List.append_nil] at hc

/-- no extent of the list starts in one of the others -/
theorem ne_of_has (h : Tiles n lo hi xs ys) (hx : x ∈ xs) (hy : y ∈ ys) (ha : y.Has a) :
    x.addr ≠ a := by
  have hxpos := h.separated.pos x hx
  have hxs := x.stop_eq
  have hapart := (List.pairwise_append.mp h.apart).2.2 x hx y hy
  intro heq
  exact hapart.not_has ⟨Nat.le_of_eq heq, by omega⟩ ha

/-- an address in one extent is not the address of another -/
theorem size_pos (h : Tiles n lo hi xs ys) (hx : x ∈ xs ++ ys) : 0 < x.size :=
  (List.mem_append.mp hx).elim (h.separated.pos x) (h.pos x)

theorem addr_lt (h : Tiles n lo hi xs ys) (hx : x ∈ xs ++ ys) : x.addr < hi :=
  Nat.lt_of_lt_of_le (Nat.lt_add_of_pos_right (h.size_pos hx)) (h.inside x hx).2

theorem addr_ne (h : Tiles n lo hi xs (b :: ys)) (ha : b.Has a) (hy : y ∈ xs ++ ys) :
    y.addr ≠ a := by
  obtain ⟨hapart, _⟩ := List.pairwise_cons.mp (apart_perm List.perm_middle h.apart)
  have hpos := h.size_pos (List.perm_middle.mem_iff.mpr (List.mem_cons_of_mem b hy))
  have hys := y.stop_eq
  intro heq
  exact (hapart y hy).not_has ha ⟨Nat.le_of_eq heq, by omega⟩

theorem length_le (h : Tiles n lo hi xs ys) : xs.length ≤ hi - lo := by
  have hlen : xs.length ≤ Extents.total xs := by
    have hpos := h.separated.pos
    clear h
    induction xs with
    | nil => exact Nat.zero_le _
    | cons x xs ih =>
      obtain ⟨hx, hxs⟩ := List.forall_mem_cons.mp hpos
      have := ih hxs
      rw [total_cons, List.length_cons]
      omega
  have htotal := h.total
  omega

end Tiles

end

end Extents
end Bramble
