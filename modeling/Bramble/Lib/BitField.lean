import Mathlib

/-!
# Bit fields

A word made of fields: `pack` puts the first field into the lowest bits, `unpack` cuts a word
into fields of given widths.

* `unpack_pack`, `pack_unpack`   the two are inverse;
* `orInto_zero`    shifting the fields up and or-ing them together packs them;
* `maskOut_eq`     shifting the word down and masking unpacks them.
-/

namespace Bramble

/-! ## sizes of fields -/

instance neZero_two : NeZero 2 := ⟨by decide⟩
instance neZero_eight : NeZero 8 := ⟨by decide⟩
instance neZero_sixteen : NeZero 16 := ⟨by decide⟩
instance neZero_sixty_four : NeZero 64 := ⟨by decide⟩

/-! ## packing and cutting -/

namespace BitField

/-- the word with the given fields, each a width and a value -/
def pack : List (Nat × Nat) → Nat
  | [] => 0
  | (w, v) :: fs => v + 2^w * pack fs

def unpack : List Nat → Nat → List Nat
  | [], _ => []
  | w :: ws, n => n % 2^w :: unpack ws (n / 2^w)

def Fits (fs : List (Nat × Nat)) : Prop := ∀ f ∈ fs, f.2 < 2^f.1

def width (fs : List (Nat × Nat)) : Nat := (fs.map Prod.fst).sum

theorem width_cons (w v : Nat) (fs : List (Nat × Nat)) :
    width ((w, v) :: fs) = w + width fs := by
  rw [width, List.map_cons, List.sum_cons, ← width]

theorem Fits.head {w v : Nat} {fs : List (Nat × Nat)} (h : Fits ((w, v) :: fs)) : v < 2^w :=
  h _ List.mem_cons_self

theorem Fits.tail {w v : Nat} {fs : List (Nat × Nat)} (h : Fits ((w, v) :: fs)) : Fits fs :=
  fun f hf => h f (List.mem_cons_of_mem _ hf)

theorem pack_lt {fs : List (Nat × Nat)} (h : Fits fs) : pack fs < 2^width fs := by
  induction fs with
  | nil => exact Nat.one_pos
  | cons f fs ih =>
    obtain ⟨w, v⟩ := f
    have hv : v < 2^w := h.head
    have hp : pack fs + 1 ≤ 2^width fs := ih h.tail
    rw [width_cons, Nat.pow_add, pack]
    calc v + 2^w * pack fs < 2^w + 2^w * pack fs := by omega
      _ = 2^w * (pack fs + 1) := by rw [Nat.mul_succ, Nat.add_comm]
      _ ≤ 2^w * 2^width fs := Nat.mul_le_mul_left _ hp

theorem unpack_pack {fs : List (Nat × Nat)} (h : Fits fs) :
    unpack (fs.map Prod.fst) (pack fs) = fs.map Prod.snd := by
  induction fs with
  | nil => rfl
  | cons f fs ih =>
    obtain ⟨w, v⟩ := f
    have hv : v < 2^w := h.head
    show (v + 2^w * pack fs) % 2^w :: unpack _ ((v + 2^w * pack fs) / 2^w) = v :: _
    rw [Nat.add_mul_mod_self_left, Nat.mod_eq_of_lt hv, Nat.add_mul_div_left _ _ (Nat.two_pow_pos w),
      Nat.div_eq_of_lt hv, Nat.zero_add, ih h.tail]

theorem pack_unpack {ws : List Nat} {n : Nat} (h : n < 2^ws.sum) :
    pack (ws.zip (unpack ws n)) = n := by
  induction ws generalizing n with
  | nil =>
    rw [List.sum_nil] at h
    exact (Nat.lt_one_iff.mp h).symm
  | cons w ws ih =>
    rw [List.sum_cons, Nat.pow_add] at h
    have hq : n / 2^w < 2^ws.sum := Nat.div_lt_of_lt_mul h
    show n % 2^w + 2^w * pack (ws.zip (unpack ws (n / 2^w))) = n
    rw [ih hq, Nat.mod_add_div]

/-- the fields shifted and or-ed one after the other into a word, the first at bit `k` -/
def orInto (acc k : Nat) : List (Nat × Nat) → Nat
  | [] => acc
  | (w, v) :: fs => orInto (acc ||| v <<< k) (k + w) fs

/-- the fields shifted down and masked out of a word, the first at bit `k` -/
def maskOut (n k : Nat) : List Nat → List Nat
  | [] => []
  | w :: ws => (n >>> k &&& (2^w - 1)) :: maskOut n (k + w) ws

theorem orInto_eq {acc k : Nat} {fs : List (Nat × Nat)} (hacc : acc < 2^k) (h : Fits fs) :
    orInto acc k fs = acc + 2^k * pack fs := by
  induction fs generalizing acc k with
  | nil => rfl
  | cons f fs ih =>
    obtain ⟨w, v⟩ := f
    have hv : v + 1 ≤ 2^w := h.head
    have hor : acc ||| v <<< k = acc + 2^k * v := by
      rw [Nat.or_comm, ← Nat.shiftLeft_add_eq_or_of_lt hacc, Nat.shiftLeft_eq, Nat.mul_comm,
        Nat.add_comm]
    have hlt : acc + 2^k * v < 2^(k + w) := by
      rw [Nat.pow_add]
      calc acc + 2^k * v < 2^k + 2^k * v := by omega
        _ = 2^k * (v + 1) := by rw [Nat.mul_succ, Nat.add_comm]
        _ ≤ 2^k * 2^w := Nat.mul_le_mul_left _ hv
    rw [orInto, hor, ih hlt h.tail, pack, Nat.pow_add]
    ring

theorem orInto_zero {fs : List (Nat × Nat)} (h : Fits fs) : orInto 0 0 fs = pack fs := by
  rw [orInto_eq Nat.one_pos h, Nat.pow_zero, Nat.one_mul, Nat.zero_add]

theorem maskOut_eq (n k : Nat) (ws : List Nat) : maskOut n k ws = unpack ws (n >>> k) := by
  induction ws generalizing k with
  | nil => rfl
  | cons w ws ih =>
    rw [maskOut, ih, unpack, Nat.and_two_pow_sub_one_eq_mod, Nat.shiftRight_add,
      Nat.shiftRight_eq_div_pow _ w]

end BitField
end Bramble
