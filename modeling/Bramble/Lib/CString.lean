import Mathlib

/-!
# Strings in a buffer

A buffer of `n` bytes with a NUL in it holds the string of the bytes before the first NUL.

* `CBuf.str`, `CBuf.strlen`   the string and its length, which is less than `n`;
* `CBuf.setNul`               a NUL inside the string cuts it off;
* `CBuf.fgets`                the next line of a stream, or as much of it as fits;
* `CBuf.snprintf`             a text at some place of the buffer.
-/

namespace Bramble

/-- `char buf[n]`, with a NUL in it -/
structure CBuf (n : Nat) where
  bytes : List UInt8
  size : bytes.length = n
  nul : 0 ∈ bytes

theorem takeWhile_set {α : Type*} {p : α → Bool} {a : α} (ha : p a = false) {l : List α} {i : Nat}
    (hi : i ≤ (l.takeWhile p).length) (hl : i < l.length) :
    (l.set i a).takeWhile p = l.take i := by
  induction l generalizing i with
  | nil => exact absurd hl (Nat.not_lt_zero i)
  | cons b l ih =>
    cases i with
    | zero =>
      show (a :: l).takeWhile p = []
      rw [List.takeWhile_cons, ha]
      rfl
    | succ i =>
      rw [List.takeWhile_cons] at hi
      split at hi
      · rename_i hb
        show (b :: l.set i a).takeWhile p = b :: l.take i
        rw [List.takeWhile_cons, if_pos hb, ih (Nat.le_of_succ_le_succ hi) (Nat.lt_of_succ_lt_succ hl)]
      · exact absurd hi (Nat.not_succ_le_zero i)

namespace CBuf
variable {n : Nat}

/-- `{ 0 }` -/
def zero (h : 0 < n) : CBuf n :=
  ⟨List.replicate n 0, List.length_replicate, List.mem_replicate.mpr ⟨h.ne', rfl⟩⟩

def str (b : CBuf n) : List UInt8 := b.bytes.takeWhile (· ≠ 0)

def strlen (b : CBuf n) : Nat := b.str.length

theorem strlen_lt (b : CBuf n) : b.strlen < n := by
  have hne : b.bytes.takeWhile (· ≠ 0) ≠ b.bytes := by
    intro heq
    have hall := List.takeWhile_eq_self_iff.mp heq 0 b.nul
    simp at hall
  have hle : b.strlen ≤ b.bytes.length := (List.takeWhile_prefix _).length_le
  have hlt : b.strlen ≠ b.bytes.length := fun heq =>
    hne ((List.takeWhile_prefix _).eq_of_length heq)
  have hsize := b.size
  omega

theorem bytes_get (b : CBuf n) {i : Nat} (h : i < b.strlen) : b.bytes[i]? = b.str[i]? := by
  obtain ⟨rest, hrest⟩ := List.takeWhile_prefix (l := b.bytes) (· ≠ 0)
  calc b.bytes[i]? = (b.str ++ rest)[i]? := by rw [str, hrest]
    _ = b.str[i]? := List.getElem?_append_left h

/-- a NUL at `i` -/
def setNul (b : CBuf n) (i : Nat) (h : i < n) : CBuf n :=
  ⟨b.bytes.set i 0, by rw [List.length_set, b.size], List.mem_set (by rw [b.size]; exact h) 0⟩

theorem str_setNul (b : CBuf n) {i : Nat} (h : i < n) (hi : i ≤ b.strlen) :
    (b.setNul i h).str = b.str.take i := by
  obtain ⟨rest, hrest⟩ := List.takeWhile_prefix (l := b.bytes) (· ≠ 0)
  calc (b.setNul i h).str = b.bytes.take i := takeWhile_set (by decide) hi (by rw [b.size]; exact h)
    _ = (b.str ++ rest).take i := by rw [str, hrest]
    _ = b.str.take i := List.take_append_of_le_length hi

end CBuf

/-- at most `most` bytes of a stream, to the end of the line, and the rest of the stream -/
def readLine : Nat → List UInt8 → List UInt8 × List UInt8
  | 0, s => ([], s)
  | _ + 1, [] => ([], [])
  | most + 1, c :: s =>
    if c = 10 then ([c], s) else (c :: (readLine most s).1, (readLine most s).2)

theorem readLine_length (most : Nat) (s : List UInt8) : (readLine most s).1.length ≤ most := by
  induction most generalizing s with
  | zero => exact le_refl 0
  | succ most ih =>
    cases s with
    | nil => exact Nat.zero_le _
    | cons c s =>
      unfold readLine
      split
      · exact Nat.succ_le_succ (Nat.zero_le most)
      · exact Nat.succ_le_succ (ih s)

theorem readLine_rest (most : Nat) (s : List UInt8) : (readLine most s).2.length ≤ s.length := by
  induction most generalizing s with
  | zero => exact le_refl _
  | succ most ih =>
    cases s with
    | nil => exact le_refl _
    | cons c s =>
      unfold readLine
      split
      · exact Nat.le_succ _
      · exact Nat.le_succ_of_le (ih s)

namespace CBuf
variable {n : Nat}

/-- a line and a NUL over the front of the buffer -/
def store (b : CBuf n) (line : List UInt8) (h : line.length < n) : CBuf n where
  bytes := line ++ 0 :: b.bytes.drop (line.length + 1)
  size := by
    rw [List.length_append, List.length_cons, List.length_drop, b.size]
    omega
  nul := List.mem_append_right _ List.mem_cons_self

/-- `fgets (buf, n, stream)`: the buffer and the rest of the stream; `none` at its end -/
def fgets (b : CBuf (n + 1)) : List UInt8 → Option (CBuf (n + 1) × List UInt8)
  | [] => none
  | c :: s =>
    some (b.store (readLine n (c :: s)).1 (Nat.lt_succ_of_le (readLine_length n (c :: s))),
      (readLine n (c :: s)).2)

/-- Each line takes something from the stream. -/
theorem fgets_rest {b b' : CBuf (n + 2)} {s rest : List UInt8} (h : b.fgets s = some (b', rest)) :
    rest.length < s.length := by
  cases s with
  | nil => cases h
  | cons c s =>
    obtain ⟨_, rfl⟩ := Prod.mk.inj (Option.some.inj h)
    unfold readLine
    split
    · exact Nat.lt_succ_self _
    · exact Nat.lt_succ_of_le (readLine_rest n s)

/-! ## printing into a buffer -/

/-- `buf[0] = '\0'`, whatever was in the array -/
def clear (buf : Vector UInt8 (n + 1)) : CBuf (n + 1) where
  bytes := 0 :: buf.toList.drop 1
  size := by
    rw [List.length_cons, List.length_drop, Vector.length_toList, Nat.add_sub_cancel]
  nul := List.mem_cons_self

theorem str_clear (buf : Vector UInt8 (n + 1)) : (clear buf).str = [] := rfl

def toVector (b : CBuf n) : Vector UInt8 n := ⟨b.bytes.toArray, b.size⟩

/-- `snprintf (&buf[off], size, ..)`, of `text`; `none` if it writes outside of the array -/
def snprintf (b : CBuf n) (off size : Nat) (text : List UInt8) : Option (CBuf n) :=
  if size = 0 then some b
  else if h : off + (text.take (size - 1)).length < n then
    some
      { bytes := b.bytes.take off ++
          (text.take (size - 1) ++ 0 :: b.bytes.drop (off + (text.take (size - 1)).length + 1))
        size := by
          have hsize := b.size
          simp only [List.length_append, List.length_cons, List.length_take, List.length_drop] at h ⊢
          omega
        nul := List.mem_append_right _ (List.mem_append_right _ List.mem_cons_self) }
  else none

theorem take_strlen (b : CBuf n) : b.bytes.take b.strlen = b.str := by
  obtain ⟨rest, hrest⟩ := List.takeWhile_prefix (l := b.bytes) (· ≠ 0)
  calc b.bytes.take b.strlen = (b.str ++ rest).take b.str.length := by rw [str, hrest]; rfl
    _ = b.str := List.take_left

/-- A text that fits is appended to the string. -/
theorem snprintf_append (b : CBuf n) (size : Nat) {text : List UInt8} (hsize : text.length < size)
    (hn : b.strlen + text.length < n) (htext : ∀ c ∈ text, c ≠ 0) :
    ∃ b', b.snprintf b.strlen size text = some b' ∧ b'.str = b.str ++ text := by
  have htake : text.take (size - 1) = text := List.take_of_length_le (Nat.le_sub_one_of_lt hsize)
  have hstr (c : UInt8) (hc : c ∈ b.str ++ text) : decide (c ≠ 0) = true := by
    rcases List.mem_append.mp hc with hc | hc
    · have hall := List.all_takeWhile (p := fun c : UInt8 => decide (c ≠ 0)) (l := b.bytes)
      exact List.all_eq_true.mp hall c hc
    · exact decide_eq_true (htext c hc)
  unfold snprintf
  rw [if_neg (Nat.ne_of_gt (Nat.zero_lt_of_lt hsize)), dif_pos (by rw [htake]; exact hn)]
  refine ⟨_, rfl, ?_⟩
  show List.takeWhile _ (b.bytes.take b.strlen ++ (text.take (size - 1) ++ 0 :: _)) = _
  rw [htake, take_strlen, ← List.append_assoc, List.takeWhile_append_of_pos hstr,
    List.takeWhile_cons_of_neg (by simp), List.append_nil]

end CBuf
end Bramble
