import Bramble.Cmd.Slot
import Bramble.Lib.CString

/-!
# The powerman helper (`cmd/power.c`)

`power_main` takes the white space off the end of the string in `buf`, runs it as a command if
anything is left, and reads the next line.  Before the first line `buf` is empty.

* `dropSpace`            the loop that takes off the white space, with the indices it uses;
* `dropSpace_spec`       it stays in `buf` exactly if the string is not blank;
* `runCommand`           a command, with the entries of `argv` that `argz_extract` stores into;
* `no_turn_safe`         no turn is safe: a blank string makes the loop use the index -1, and any
                         other makes `argz_extract` store one pointer too many.
-/

namespace Bramble

/-! ## white space -/

/-- `buf`, and the bytes around it -/
structure PowerMem where
  buf : CBuf 128
  outside : Int → UInt8

namespace PowerMem

def load (m : PowerMem) (i : Int) : UInt8 :=
  if 0 ≤ i ∧ i < 128 then m.buf.bytes.getD i.toNat 0 else m.outside i

/-- `buf[i]` becomes a NUL -/
def clear (m : PowerMem) (i : Int) : PowerMem :=
  if h : 0 ≤ i ∧ i < 128 then { m with buf := m.buf.setNul i.toNat (by omega) }
  else { m with outside := Function.update m.outside i 0 }

/-- `strlen (buf) - 1`; for an empty string the byte before `buf` -/
def last (m : PowerMem) : Int := m.buf.strlen - 1

theorem last_concat {m : PowerMem} {s : List UInt8} {c : UInt8} (h : m.buf.str = s ++ [c]) :
    m.last = s.length ∧ s.length < m.buf.strlen := by
  have hlen : m.buf.strlen = s.length + 1 := by rw [CBuf.strlen, h, List.length_append]; rfl
  unfold last
  omega

theorem load_last {m : PowerMem} {s : List UInt8} {c : UInt8} (h : m.buf.str = s ++ [c]) :
    m.load m.last = c := by
  obtain ⟨hlast, hlen⟩ := last_concat h
  have hlt := m.buf.strlen_lt
  have hget := m.buf.bytes_get hlen
  rw [h, List.getElem?_concat_length] at hget
  rw [hlast, load, if_pos (by omega), Int.toNat_natCast, List.getD_eq_getElem?_getD, hget]
  rfl

theorem clear_last {m : PowerMem} {s : List UInt8} {c : UInt8} (h : m.buf.str = s ++ [c]) :
    (m.clear m.last).buf.str = s ∧ (m.clear m.last).outside = m.outside := by
  obtain ⟨hlast, hlen⟩ := last_concat h
  have hlt := m.buf.strlen_lt
  have hin : (s.length : Int).toNat < 128 := by omega
  rw [hlast, clear, dif_pos (by omega)]
  refine ⟨(CBuf.str_setNul m.buf hin (by omega)).trans ?_, rfl⟩
  rw [Int.toNat_natCast, h, List.take_left]

theorem clear_empty {m : PowerMem} (h : m.buf.str = []) :
    m.last = -1 ∧ (m.clear m.last).buf = m.buf ∧ (m.clear m.last).outside (-1) = 0 := by
  have hlast : m.last = -1 := by
    unfold last CBuf.strlen
    rw [h]
    rfl
  rw [hlast, clear, dif_neg (by omega)]
  exact ⟨rfl, rfl, Function.update_self (-1) 0 m.outside⟩

/-- how long the loop can go on -/
def fuel (m : PowerMem) : Nat := m.buf.strlen + (isSpace (m.outside (-1))).toNat

theorem clear_fuel {m : PowerMem} (h : isSpace (m.load m.last) = true) :
    (m.clear m.last).fuel < m.fuel := by
  rcases List.eq_nil_or_concat' m.buf.str with hnil | ⟨s, c, hs⟩
  · obtain ⟨hlast, hbuf, hout⟩ := clear_empty hnil
    have hspace : isSpace (m.outside (-1)) = true := by
      rw [hlast, load, if_neg (by omega)] at h
      exact h
    rw [fuel, hbuf, hout, fuel, hspace]
    exact Nat.lt_succ_self _
  · obtain ⟨hstr, hout⟩ := clear_last hs
    rw [fuel, fuel, hout, CBuf.strlen, CBuf.strlen, hstr, hs, List.length_append]
    exact Nat.add_lt_add_right (Nat.lt_succ_self _) _

end PowerMem

/-- the loop that drops trailing white space: the indices that it uses, and the memory after it -/
def dropSpace (m : PowerMem) : List Int × PowerMem :=
  if _h : isSpace (m.load m.last) = true then
    -- once in the condition and once in the body
    (m.last :: m.last :: (dropSpace (m.clear m.last)).1, (dropSpace (m.clear m.last)).2)
  else ([m.last], m)
termination_by m.fuel
decreasing_by exact PowerMem.clear_fuel _h

/-! ## commands -/

/-- `argz_create_sep`, with the word read so far: the words between runs of separators.  The string
does not end in a separator. -/
def argzCreateSep (sep : UInt8) : List UInt8 → List UInt8 → List (List UInt8)
  | word, [] => if word = [] then [] else [word]
  | word, c :: s =>
    if c = sep then (if word = [] then argzCreateSep sep [] s else word :: argzCreateSep sep [] s)
    else argzCreateSep sep (word ++ [c]) s

def lower (c : UInt8) : UInt8 := if 65 ≤ c ∧ c ≤ 90 then c + 32 else c

/-- `!strcasecmp (s, t)` -/
def sameWord (s t : List UInt8) : Bool := s.map lower == t.map lower

def wordHelp : List UInt8 := [104, 101, 108, 112]
def wordOn : List UInt8 := [111, 110]
def wordOff : List UInt8 := [111, 102, 102]
def wordStatus : List UInt8 := [115, 116, 97, 116, 117, 115]

/-- what a command does: what it prints, or the request for the power of a control processor -/
inductive PowerReply where
  | help
  | usage
  | write (dstaddr : Nat) (val : UInt8)
  | read (dstaddr : Nat)
  /-- `run_command` returns false -/
  | invalid
  deriving DecidableEq

/-- `cmd_on`, `cmd_off` and `cmd_status`, with the words after the command -/
def cmdSlot (cmd : SlotCommand) (request : Nat → PowerReply) : List (List UInt8) → PowerReply
  | [s] => (cmd.address s).elim .usage request
  | _ => .usage

/-- a call of `run_command` -/
structure CommandRun where
  argc : Nat
  /-- entries of `argv`, from `calloc (argc, sizeof (argv[0]))` -/
  entries : Nat
  /-- the entries that `argz_extract` stores into, a pointer to each word and NULL -/
  stores : List Nat
  /-- `none` if there is no `argv[0]` -/
  reply : Option PowerReply

/-- `run_command` -/
def runCommand (argz : List (List UInt8)) : CommandRun where
  argc := argz.length
  entries := argz.length
  stores := List.range (argz.length + 1)
  reply :=
    match argz with
    | [] => none
    | name :: args =>
      if sameWord name wordHelp then some .help
      else if sameWord name wordOn then some (cmdSlot .on (.write · 1) args)
      else if sameWord name wordOff then some (cmdSlot .off (.write · 0) args)
      else if sameWord name wordStatus then some (cmdSlot .status .read args)
      else some .invalid

/-- one turn of the loop of `power_main` -/
structure Turn where
  /-- the string in `buf` when the turn begins -/
  line : List UInt8
  /-- the indices into `buf` that the loop over the white space uses -/
  indices : List Int
  command : Option CommandRun

/-- a turn, and `buf` at its end -/
def powerTurn (m : PowerMem) : Turn × CBuf 128 :=
  let r := dropSpace m
  ({ line := m.buf.str
     indices := r.1
     command :=
      if 0 < r.2.buf.strlen then some (runCommand (argzCreateSep 32 [] r.2.buf.str)) else none },
    r.2.buf)

/-- the turns from `buf` on; `outside k` is what is around `buf` in the turn `k` -/
def powerTurns (outside : Nat → Int → UInt8) (k : Nat) (buf : CBuf 128) (stdin : List UInt8) :
    List Turn :=
  let r := powerTurn ⟨buf, outside k⟩
  match _h : r.2.fgets stdin with
  | none => [r.1]
  | some (buf', rest) => r.1 :: powerTurns outside (k + 1) buf' rest
termination_by stdin.length
decreasing_by exact CBuf.fgets_rest _h

/-- the turns of `power_main` with this input -/
def powerMain (outside : Nat → Int → UInt8) (stdin : List UInt8) : List Turn :=
  powerTurns outside 0 (CBuf.zero (by decide)) stdin

/-! ## the loop over the white space -/

/-- Every character of the string is white space. -/
def Blank (s : List UInt8) : Prop := ∀ c ∈ s, isSpace c = true

theorem dropSpace_empty {m : PowerMem} (h : m.buf.str = []) :
    -1 ∈ (dropSpace m).1 ∧ (dropSpace m).2.buf = m.buf := by
  obtain ⟨hlast, hbuf, hout⟩ := PowerMem.clear_empty h
  unfold dropSpace
  split
  · -- the byte before `buf` is white space once, and NUL from then on
    obtain ⟨hlast', _, _⟩ := PowerMem.clear_empty (hbuf ▸ h : (m.clear m.last).buf.str = [])
    have hstop : ¬ isSpace ((m.clear m.last).load (m.clear m.last).last) = true := by
      rw [hlast', PowerMem.load, if_neg (by omega), hout]
      decide
    refine ⟨hlast ▸ List.mem_cons_self, ?_⟩
    rw [dropSpace, dif_neg hstop]
    exact hbuf
  · exact ⟨hlast ▸ List.mem_cons_self, rfl⟩

/-- **The loop**: what it leaves of the string, and whether it stays in `buf`. -/
theorem dropSpace_spec (m : PowerMem) :
    (dropSpace m).2.buf.str = m.buf.str.rdropWhile isSpace ∧
      ((∀ i ∈ (dropSpace m).1, 0 ≤ i ∧ i ≤ 127) ↔ ¬ Blank m.buf.str) := by
  generalize hs : m.buf.str = s
  induction s using List.reverseRecOn generalizing m with
  | nil =>
    obtain ⟨hmem, hbuf⟩ := dropSpace_empty hs
    refine ⟨by rw [hbuf, hs]; rfl, iff_of_false ?_ ?_⟩
    · intro h
      exact absurd (h _ hmem).1 (by omega)
    · intro h
      exact h fun c hc => absurd hc List.not_mem_nil
  | append_singleton s c ih =>
    obtain ⟨hlast, hlen⟩ := PowerMem.last_concat hs
    have hlt := m.buf.strlen_lt
    have hin : 0 ≤ m.last ∧ m.last ≤ 127 := by omega
    obtain ⟨hstr, _⟩ := PowerMem.clear_last hs
    obtain ⟨ih1, ih2⟩ := ih _ hstr
    unfold dropSpace
    rw [PowerMem.load_last hs]
    by_cases hc : isSpace c = true
    · rw [dif_pos hc, List.rdropWhile_concat_pos _ _ _ hc]
      refine ⟨ih1, ?_⟩
      have hblank : Blank (s ++ [c]) ↔ Blank s := by
        simp [Blank, hc, or_imp, forall_and]
      rw [List.forall_mem_cons, List.forall_mem_cons, and_iff_right hin, and_iff_right hin, ih2,
        hblank]
    · rw [dif_neg hc, List.rdropWhile_concat_neg _ _ _ hc]
      refine ⟨hs, iff_of_true ?_ ?_⟩
      · intro i hi
        rw [List.mem_singleton.mp hi]
        exact hin
      · intro h
        exact hc (h c (List.mem_append_right s List.mem_cons_self))

/-! ## turns -/

theorem argzCreateSep_ne_nil {sep : UInt8} {word s : List UInt8}
    (h : word ≠ [] ∨ ∃ c ∈ s, c ≠ sep) : argzCreateSep sep word s ≠ [] := by
  induction s generalizing word with
  | nil =>
    have hword : word ≠ [] := h.resolve_right (by simp)
    rw [argzCreateSep, if_neg hword]
    exact List.cons_ne_nil _ _
  | cons c s ih =>
    unfold argzCreateSep
    split
    · rename_i hc
      split
      · rename_i hword
        obtain ⟨d, hd, hsep⟩ := h.resolve_left (not_not.mpr hword)
        have hs : d ∈ s := (List.mem_cons.mp hd).resolve_left fun heq => hsep (heq.trans hc)
        exact ih (.inr ⟨d, hs, hsep⟩)
      · exact List.cons_ne_nil _ _
    · exact ih (.inl (by simp))

/-- A line of white space is no command, and any other line has a first word. -/
theorem command_cases (m : PowerMem) :
    (Blank m.buf.str ∧ (powerTurn m).1.command = none) ∨
    (¬ Blank m.buf.str ∧ ∃ argz ≠ [], (powerTurn m).1.command = some (runCommand argz)) := by
  obtain ⟨hstr, _⟩ := dropSpace_spec m
  have hempty : 0 < (dropSpace m).2.buf.strlen ↔ ¬ Blank m.buf.str := by
    rw [CBuf.strlen, hstr, List.length_pos_iff, ne_eq, List.rdropWhile_eq_nil_iff]
    rfl
  by_cases hblank : Blank m.buf.str
  · exact .inl ⟨hblank, if_neg fun h => hempty.mp h hblank⟩
  · refine .inr ⟨hblank, argzCreateSep 32 [] (dropSpace m).2.buf.str, ?_, if_pos (hempty.mpr hblank)⟩
    -- the last character that is left is no white space, so no separator either
    have hne : m.buf.str.rdropWhile isSpace ≠ [] := fun h =>
      hblank (List.rdropWhile_eq_nil_iff.mp h)
    have hlast := List.rdropWhile_last_not isSpace m.buf.str hne
    rw [hstr]
    refine argzCreateSep_ne_nil (.inr ⟨_, List.getLast_mem hne, fun heq => ?_⟩)
    rw [heq] at hlast
    exact hlast (by decide)

/-- Every index into `buf` is one, the assertion holds, and every pointer is stored into `argv`. -/
structure Turn.Safe (t : Turn) : Prop where
  indices : ∀ i ∈ t.indices, 0 ≤ i ∧ i ≤ 127
  asserted : ∀ c, t.command = some c → 0 < c.argc
  stored : ∀ c, t.command = some c → ∀ j ∈ c.stores, j < c.entries

theorem powerTurn_safe (m : PowerMem) :
    ((∀ i ∈ (powerTurn m).1.indices, 0 ≤ i ∧ i ≤ 127) ↔ ¬ Blank m.buf.str) ∧
    (∀ c, (powerTurn m).1.command = some c → 0 < c.argc) ∧
    ((∀ c, (powerTurn m).1.command = some c → ∀ j ∈ c.stores, j < c.entries) ↔ Blank m.buf.str) := by
  refine ⟨(dropSpace_spec m).2, ?_⟩
  rcases command_cases m with ⟨hblank, hnone⟩ | ⟨hblank, argz, hargz, hsome⟩
  · rw [hnone]
    constructor
    · rintro c ⟨⟩
    · exact iff_of_true (by rintro c ⟨⟩) hblank
  · rw [hsome]
    constructor
    · rintro c ⟨⟩
      exact List.length_pos_iff.mpr hargz
    · -- NULL goes behind the last entry
      refine iff_of_false (fun h => ?_) hblank
      exact absurd (h _ rfl argz.length (List.mem_range.mpr (Nat.lt_succ_self _))) (Nat.lt_irrefl _)

theorem mem_powerTurns {outside : Nat → Int → UInt8} {k : Nat} {buf : CBuf 128}
    {stdin : List UInt8} {t : Turn} (h : t ∈ powerTurns outside k buf stdin) :
    ∃ m, t = (powerTurn m).1 := by
  induction k, buf, stdin using powerTurns.induct outside with
  | case1 k buf stdin r hend =>
    rw [powerTurns] at h
    split at h
    · exact ⟨_, List.mem_singleton.mp h⟩
    · rename_i hline
      exact absurd (hend.symm.trans hline) (by simp)
  | case2 k buf stdin r buf' rest hline ih =>
    rw [powerTurns] at h
    split at h
    · exact ⟨_, List.mem_singleton.mp h⟩
    · rename_i hline'
      cases hline.symm.trans hline'
      rcases List.mem_cons.mp h with rfl | h
      · exact ⟨_, rfl⟩
      · exact ih h

theorem first_powerTurn (outside : Nat → Int → UInt8) (stdin : List UInt8) :
    (powerTurn ⟨CBuf.zero (by decide), outside 0⟩).1 ∈ powerMain outside stdin := by
  rw [powerMain, powerTurns]
  split
  · exact List.mem_singleton_self _
  · exact List.mem_cons_self

/-- Before the first line the loop uses the index -1. -/
theorem first_turn_escapes (outside : Nat → Int → UInt8) (stdin : List UInt8) :
    ¬ ∀ t ∈ powerMain outside stdin, t.Safe := by
  intro h
  have hindices := (h _ (first_powerTurn outside stdin)).indices
  have hblank : Blank (CBuf.zero (by decide : 0 < 128)).str := by
    intro c hc
    exact absurd hc List.not_mem_nil
  exact (powerTurn_safe _).1.mp hindices hblank

/-- **No input is safe.**  In no run are all turns safe, and no turn of any run is: the loop over the
white space stays in `buf` exactly if the line is not blank, and `argz_extract` in `argv` exactly if
it is blank.  The assertion never fails. -/
theorem no_turn_safe (outside : Nat → Int → UInt8) (stdin : List UInt8) :
    (¬ ∀ t ∈ powerMain outside stdin, t.Safe) ∧
    ∀ t ∈ powerMain outside stdin,
      ((∀ i ∈ t.indices, 0 ≤ i ∧ i ≤ 127) ↔ ¬ Blank t.line) ∧
      (∀ c, t.command = some c → 0 < c.argc) ∧
      ((∀ c, t.command = some c → ∀ j ∈ c.stores, j < c.entries) ↔ Blank t.line) := by
  refine ⟨first_turn_escapes outside stdin, fun t ht => ?_⟩
  obtain ⟨m, rfl⟩ := mem_powerTurns ht
  exact powerTurn_safe m

/-- **Not even without a line** -/
theorem powerman_fails :
    ¬ ∀ (outside : Nat → Int → UInt8) (stdin : List UInt8), ∀ t ∈ powerMain outside stdin, t.Safe := by
  intro h
  exact first_turn_escapes (fun _ _ => 0) [] (h (fun _ _ => 0) [])

end Bramble
