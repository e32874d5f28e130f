import Bramble.Filters
import Bramble.Lib.CString
import Bramble.Lib.Lists
import Bramble.Lib.Text

/-!
# `bramble cansnoop` (`cmd/cansnoop.c`)

A line for each message on the bus, or for each message from or to one address and each broadcast:
the time, the addresses, a mark of the high priority, type, sequence number, object and data.  The
sequence number and the data are printed into buffers of the stack first.

* `CanMsg.told`       what a line says of a message;
* `line_inj`          and no more than that is lost;
* `cansnoop_prints`   no buffer is overrun, and each message gets its line;
* `cansnoop_tells`    from what was printed it follows which messages went by, in order.
-/

namespace Bramble
open Text

/-! ## names -/

/-- `typestr` -/
def typestr : List (Nat × String) :=
  [(MsgType.ro.code.val, "RO"), (MsgType.wo.code.val, "WO"), (MsgType.wna.code.val, "WNA"),
    (MsgType.dat.code.val, "D"), (MsgType.ack.code.val, "ACK"), (MsgType.nak.code.val, "NAK"),
    (MsgType.sig.code.val, "SIG")]

/-- `objstr` -/
def objstr : List (Nat × String) :=
  [(objEcho.toNat, "ECHO"), (objPower.toNat, "POWER"), (objConsoleconn.toNat, "CONSOLE-CONN"),
    (objConsolesend.toNat, "CONSOLE-SEND"), (objConsolerecv.toNat, "CONSOLE-RECV"),
    (objConsoledisc.toNat, "CONSOLE-DISC"), (objShutdown.toNat, "SHUTDOWN")]

def strtabLookup (id : Nat) (tab : List (Nat × String)) : String :=
  ((tab.find? fun e => e.1 == id).map Prod.snd).getD "?"

def canmsgObjstr (object : UInt8) : String := strtabLookup object.toNat objstr

def canmsgTypestr (type : MsgType) : String := strtabLookup type.code.val typestr

/-! ## a line -/

/-- `isprint` of the C locale -/
def isPrint (c : UInt8) : Bool := 32 ≤ c && c ≤ 126

/-- `hex`, `ascii` and `seq`; `cansnoop_main` does not initialise them -/
structure SnoopBufs where
  hex : Vector UInt8 32
  ascii : Vector UInt8 35
  seq : Vector UInt8 8

/-- the character for a byte of data -/
def snoopChar (c : UInt8) : UInt8 := if isPrint c then c else 46

/-- the loop over the data, from byte `i` on; `none` if a buffer is overrun -/
def dumpLoop (hex : CBuf 32) (chars : Vector UInt8 35) (i : Nat) :
    List UInt8 → Option (CBuf 32 × Vector UInt8 35)
  | [] => some (hex, chars)
  | c :: cs =>
    -- a blank follows, but for the last byte
    (hex.snprintf (i * 3) 4 (hex2 c.toNat ++ if cs = [] then [] else ascii " ")).bind fun hex =>
      if h : i < 35 then dumpLoop hex (chars.set i (snoopChar c)) (i + 1) cs else none

/-- what goes into `seq` -/
def snoopSeq (seq : Vector UInt8 8) (msg : CanMsg) : Option (CBuf 8) :=
  let seq := CBuf.clear seq
  if msg.type = .dat then
    (seq.snprintf 0 (8 - 1) (ascii "[" ++ ascii (Nat.repr msg.seq.val) ++ ascii "]")).bind fun seq =>
      if msg.eot then seq.snprintf seq.strlen (8 - seq.strlen) (ascii "*") else some seq
  else some seq

/-- the columns behind the time, but the last -/
def snoopColumns (msg : CanMsg) (seq hex : List UInt8) : List (List UInt8) :=
  [hex2 msg.src.val, ascii "->", hex2 msg.dst.val, ascii "  ",
    ascii (if msg.pri = 0 then "+" else " "), pad 4 (ascii (canmsgTypestr msg.type)), ascii " ",
    pad 5 seq, ascii " ", pad 12 (ascii (canmsgObjstr msg.object)), ascii " ", pad 23 hex, ascii " "]

/-- the last column; `chars` are the characters that `%.*s` takes -/
def snoopChars (msg : CanMsg) (chars : List UInt8) : List UInt8 :=
  (if 0 < msg.dlen then [96] else []) ++ chars ++ (if 0 < msg.dlen then [39] else [])

/-- one turn of the loop of `cansnoop_main`, with the text of `%07.3f` -/
def snoopMsg (bufs : SnoopBufs) (time : List UInt8) (msg : CanMsg) :
    Option (List UInt8 × SnoopBufs) :=
  (dumpLoop (.clear bufs.hex) bufs.ascii 0 msg.data.bytes).bind fun (hex, chars) =>
    (snoopSeq bufs.seq msg).map fun seq =>
      (time ++ 32 :: ((snoopColumns msg seq.str hex.str).flatten ++
          snoopChars msg ((chars.toList.take msg.dlen).takeWhile (· ≠ 0))) ++ [10],
        ⟨hex.toVector, chars, seq.toVector⟩)

/-! ## the command -/

/-- the filters that `cansnoop_main` gives to `can_open_with` -/
def snoopFilters : Option Addr → List CanFilter
  | some addr =>
    [{ canId := word addr.val <<< canmsgDstShift, canMask := canmsgDstMask },
      { canId := word addr.val <<< canmsgSrcShift, canMask := canmsgSrcMask },
      { canId := word canmsgAddrBroadcast <<< canmsgDstShift, canMask := canmsgDstMask }]
  | none => []

/-- what a socket of `can_open_with` receives; without a filter everything -/
def canOpenWithPasses (rfilter : List CanFilter) (id : UInt32) : Bool :=
  rfilter.isEmpty || rfilter.any fun f => decide (f.accepts id)

/-- a frame on the bus: what `read` returns for it, and the text of the time when it does -/
structure SnoopFrame where
  time : List UInt8
  n : Int
  fr : CanFrame

/-- The loop of `cansnoop_main`: what is printed, and whether `can_recv` failed, which ends the
program.  `none` if a buffer is overrun. -/
def cansnoop (addr : Option Addr) (bufs : SnoopBufs) : List SnoopFrame → Option (List UInt8 × Bool)
  | [] => some ([], false)
  | f :: fs =>
    if canOpenWithPasses (snoopFilters addr) f.fr.canId then
      match canRecv f.n f.fr with
      | .error _ => some ([], true)
      | .ok msg =>
        (snoopMsg bufs f.time msg).bind fun (text, bufs) =>
          (cansnoop addr bufs fs).map fun (rest, failed) => (text ++ rest, failed)
    else cansnoop addr bufs fs

/-! ## the buffers -/

theorem snoopChar_facts : ∀ c : UInt8, snoopChar c ≠ 0 ∧ snoopChar c ≠ 10 := by
  decide +kernel

/-- **The loop over the data.**  `hex` is long enough for eight bytes. -/
theorem dumpLoop_spec (cs : List UInt8) (hex : CBuf 32) (chars : Vector UInt8 35) {i : Nat}
    (hi : hex.strlen = i * 3) (hlen : i + cs.length ≤ 8) :
    ∃ hex' chars', dumpLoop hex chars i cs = some (hex', chars') ∧
      hex'.str = hex.str ++ hexText cs ∧
      chars'.toList.take (i + cs.length) = chars.toList.take i ++ cs.map snoopChar := by
  induction cs generalizing hex chars i with
  | nil => exact ⟨hex, chars, rfl, (List.append_nil _).symm, (List.append_nil _).symm⟩
  | cons c cs ih =>
    rw [List.length_cons] at hlen
    have htext (a : UInt8) (ha : a ∈ hex2 c.toNat ++ if cs = [] then [] else ascii " ") : a ≠ 0 := by
      rcases List.mem_append.mp ha with ha | ha
      · exact (hex2_mem c.toNat_lt ha).2.2
      · split at ha
        · cases ha
        · rw [List.mem_singleton.mp ha]
          decide
    have hsize : (hex2 c.toNat ++ if cs = [] then [] else ascii " ").length < 4 := by
      split
      · exact (by decide : 2 < 4)
      · exact (by decide : 3 < 4)
    obtain ⟨hex₁, hprint, hstr⟩ := CBuf.snprintf_append hex 4 hsize (by omega) htext
    have hi35 : i < 35 := by omega
    have hset : (chars.set i (snoopChar c)).toList.take (i + 1) =
        chars.toList.take i ++ [snoopChar c] := by
      have hi' : i < chars.toList.length := by rw [Vector.length_toList]; exact hi35
      rw [Vector.toList_set, List.take_add_one, List.take_set_of_le (Nat.le_refl i),
        List.getElem?_set_self hi']
      rfl
    rw [dumpLoop, ← hi, hprint, Option.bind_some, dif_pos hi35]
    cases cs with
    | nil => exact ⟨hex₁, _, rfl, hstr, hset⟩
    | cons d ds =>
      have hi₁ : hex₁.strlen = (i + 1) * 3 := by
        rw [CBuf.strlen, hstr, List.length_append]
        show hex.strlen + 3 = _
        omega
      obtain ⟨hex', chars', hloop, hstr', hchars⟩ := ih hex₁ (chars.set i (snoopChar c)) hi₁
        (by omega)
      refine ⟨hex', chars', hloop, ?_, ?_⟩
      · rw [hstr', hstr, List.append_assoc]
        rfl
      · rw [List.length_cons, ← Nat.add_assoc, Nat.add_right_comm, hchars, hset, List.append_assoc]
        rfl

/-- what is printed into `seq` -/
def seqText (type : MsgType) (seq : Fin 16) (eot : Bool) : List UInt8 :=
  if type = .dat then
    (ascii "[" ++ ascii (Nat.repr seq.val) ++ ascii "]") ++ if eot then ascii "*" else []
  else []

theorem seqNumber_facts : ∀ seq : Fin 16,
    (ascii "[" ++ ascii (Nat.repr seq.val) ++ ascii "]").length ≤ 4 ∧
      ∀ c ∈ ascii "[" ++ ascii (Nat.repr seq.val) ++ ascii "]", c ≠ 0 := by
  decide +kernel

theorem snoopSeq_spec (seq : Vector UInt8 8) (msg : CanMsg) :
    ∃ b, snoopSeq seq msg = some b ∧ b.str = seqText msg.type msg.seq msg.eot := by
  unfold snoopSeq seqText
  by_cases hdat : msg.type = .dat
  · obtain ⟨hlen, hnul⟩ := seqNumber_facts msg.seq
    have hclear : (CBuf.clear seq).strlen = 0 := rfl
    obtain ⟨b, hb, hstr⟩ := CBuf.snprintf_append (CBuf.clear seq) (8 - 1) (by omega)
      (by omega) hnul
    rw [CBuf.str_clear, List.nil_append] at hstr
    rw [hclear] at hb
    rw [if_pos hdat, if_pos hdat, hb, Option.bind_some]
    cases msg.eot with
    | false => exact ⟨b, rfl, hstr.trans (List.append_nil _).symm⟩
    | true =>
      have hstrlen : b.strlen ≤ 4 := by
        rw [CBuf.strlen, hstr]
        exact hlen
      have hone : (ascii "*").length = 1 := rfl
      have hstar (c : UInt8) (hc : c ∈ ascii "*") : c ≠ 0 := by
        rw [List.mem_singleton.mp hc]
        decide
      obtain ⟨b', hb', hstr'⟩ := CBuf.snprintf_append b (8 - b.strlen) (by omega)
        (by omega) hstar
      exact ⟨b', hb', hstr'.trans (hstr ▸ rfl)⟩
  · rw [if_neg hdat, if_neg hdat]
    exact ⟨_, rfl, CBuf.str_clear seq⟩

/-- the line for a message, without the newline -/
def snoopLine (time : List UInt8) (msg : CanMsg) : List UInt8 :=
  time ++ 32 :: ((snoopColumns msg (seqText msg.type msg.seq msg.eot)
    (hexText msg.data.bytes)).flatten ++ snoopChars msg (msg.data.bytes.map snoopChar))

/-- **No buffer is overrun**, and what was in them does not matter. -/
theorem snoopMsg_spec (bufs : SnoopBufs) (time : List UInt8) (msg : CanMsg) :
    ∃ bufs', snoopMsg bufs time msg = some (snoopLine time msg ++ [10], bufs') := by
  obtain ⟨hex, chars, hdump, hhex, hchars⟩ := dumpLoop_spec msg.data.bytes
    (CBuf.clear bufs.hex) bufs.ascii (i := 0) rfl
    (by rw [Nat.zero_add]; exact msg.data.len_le)
  obtain ⟨seq, hseq, hseqstr⟩ := snoopSeq_spec bufs.seq msg
  have hall (c : UInt8) (hc : c ∈ msg.data.bytes.map snoopChar) : decide (c ≠ 0) = true := by
    obtain ⟨d, _, rfl⟩ := List.mem_map.mp hc
    exact decide_eq_true (snoopChar_facts d).1
  rw [Nat.zero_add, List.take_zero, List.nil_append] at hchars
  rw [CBuf.str_clear, List.nil_append] at hhex
  refine ⟨⟨hex.toVector, chars, seq.toVector⟩, ?_⟩
  unfold snoopMsg
  rw [hdump, Option.bind_some, hseq]
  show some (time ++ 32 :: ((snoopColumns msg seq.str hex.str).flatten ++ snoopChars msg
    ((chars.toList.take msg.data.bytes.length).takeWhile (· ≠ 0))) ++ [10], _) = _
  rw [hseqstr, hhex, hchars, List.takeWhile_eq_self_iff.mpr hall]
  rfl

/-! ## what a line tells -/

/-- the objects of `canmsg.h` -/
def objects : List UInt8 :=
  [objEcho, objPower, objConsoleconn, objConsolerecv, objConsolesend, objConsoledisc, objShutdown]

def knownObject (object : UInt8) : Option UInt8 := if object ∈ objects then some object else none

/-- what a line tells of a message -/
structure Told where
  pri : Fin 2
  src : Addr
  dst : Addr
  type : MsgType
  /-- one of `canmsg.h`, or none of them -/
  object : Option UInt8
  /-- of a DAT message, with `eot` -/
  seq : Option (Fin 16 × Bool)
  data : Payload
  deriving DecidableEq

def CanMsg.told (m : CanMsg) : Told where
  pri := m.pri
  src := m.src
  dst := m.dst
  type := m.type
  object := knownObject m.object
  seq := if m.type = .dat then some (m.seq, m.eot) else none
  data := m.data

theorem typestr_facts (a : MsgType) : (ascii (canmsgTypestr a)).length ≤ 4 ∧
    (ascii (canmsgTypestr a)).getLast? ≠ some 32 ∧ 10 ∉ ascii (canmsgTypestr a) ∧
    ∀ b, ascii (canmsgTypestr a) = ascii (canmsgTypestr b) → a = b := by
  have hall : ∀ c : Fin 8, (ascii (canmsgTypestr (.ofCode c))).length ≤ 4 ∧
      (ascii (canmsgTypestr (.ofCode c))).getLast? ≠ some 32 ∧
      10 ∉ ascii (canmsgTypestr (.ofCode c)) ∧
      ∀ d : Fin 8, ascii (canmsgTypestr (.ofCode c)) = ascii (canmsgTypestr (.ofCode d)) → c = d := by
    decide +kernel
  obtain ⟨hlen, hlast, hline, hinj⟩ := hall a.code
  rw [MsgType.ofCode_code] at hlen hlast hline hinj
  refine ⟨hlen, hlast, hline, fun b hb => ?_⟩
  have hcode := hinj b.code ((MsgType.ofCode_code b).symm ▸ hb)
  rw [← MsgType.ofCode_code a, hcode, MsgType.ofCode_code]

/-- the object with a name -/
def objectNamed (name : List UInt8) : Option UInt8 :=
  objects.find? fun object => ascii (canmsgObjstr object) == name

theorem objstr_facts : ∀ object : UInt8, (ascii (canmsgObjstr object)).length ≤ 12 ∧
    (ascii (canmsgObjstr object)).getLast? ≠ some 32 ∧ 10 ∉ ascii (canmsgObjstr object) ∧
    objectNamed (ascii (canmsgObjstr object)) = knownObject object ∧
    canmsgObjstr object = ((knownObject object).map canmsgObjstr).getD "?" := by
  decide +kernel

theorem seqText_facts : ∀ (seq : Fin 16) (eot : Bool), (seqText .dat seq eot).length ≤ 5 ∧
    (seqText .dat seq eot).getLast? ≠ some 32 ∧ 10 ∉ seqText .dat seq eot ∧
    ∀ (seq' : Fin 16) (eot' : Bool), seqText .dat seq eot = seqText .dat seq' eot' →
      seq = seq' ∧ eot = eot' := by
  decide +kernel

theorem seqText_other {type : MsgType} (h : type ≠ .dat) (seq : Fin 16) (eot : Bool) :
    seqText type seq eot = [] := if_neg h

theorem seqText_column (type : MsgType) (seq : Fin 16) (eot : Bool) :
    (seqText type seq eot).length ≤ 5 ∧ (seqText type seq eot).getLast? ≠ some 32 ∧
      10 ∉ seqText type seq eot := by
  by_cases hdat : type = .dat
  · obtain ⟨hlen, hlast, hline, _⟩ := seqText_facts seq eot
    subst hdat
    exact ⟨hlen, hlast, hline⟩
  · rw [seqText_other hdat]
    exact ⟨Nat.zero_le 5, (Option.some_ne_none 32).symm, List.not_mem_nil⟩

/-- the columns of a line for `m`, but the last -/
def CanMsg.columns (m : CanMsg) : List (List UInt8) :=
  snoopColumns m (seqText m.type m.seq m.eot) (hexText m.data.bytes)

/-- The columns have fixed widths. -/
theorem columns_widths (m : CanMsg) :
    m.columns.map List.length = [2, 2, 2, 2, 1, 4, 1, 5, 1, 12, 1, 23, 1] := by
  have hmark : (ascii (if m.pri = 0 then "+" else " ")).length = 1 := by split <;> rfl
  have htype := pad_length (typestr_facts m.type).1
  have hseq := pad_length (seqText_column m.type m.seq m.eot).1
  have hobject := pad_length (objstr_facts m.object).1
  have hhex : (pad 23 (hexText m.data.bytes)).length = 23 := by
    refine pad_length ?_
    have hlen := m.data.len_le
    rw [hexText_length]
    omega
  unfold CanMsg.columns snoopColumns
  simp only [List.map_cons, List.map_nil, hmark, htype, hseq, hobject, hhex]
  rfl

theorem columns_inj {m m' : CanMsg} (h : m.columns = m'.columns) : m.told = m'.told := by
  unfold CanMsg.columns snoopColumns at h
  simp only [List.cons.injEq, and_true, true_and] at h
  obtain ⟨hsrc, hdst, hmark, htype, hseq, hobject, hhex⟩ := h
  have hsrc : m.src = m'.src := Fin.ext (hex2_inj (by omega) (by omega) hsrc)
  have hdst : m.dst = m'.dst := Fin.ext (hex2_inj (by omega) (by omega) hdst)
  have hpri : m.pri = m'.pri := by
    have hall : ∀ p q : Fin 2, ascii (if p = 0 then "+" else " ") =
        ascii (if q = 0 then "+" else " ") → p = q := by decide +kernel
    exact hall _ _ hmark
  have htype : m.type = m'.type := by
    obtain ⟨_, hlast, _, hinj⟩ := typestr_facts m.type
    exact hinj _ (pad_inj hlast (typestr_facts m'.type).2.1 htype)
  have hobject : knownObject m.object = knownObject m'.object := by
    obtain ⟨_, hlast, _, hnamed, _⟩ := objstr_facts m.object
    obtain ⟨_, hlast', _, hnamed', _⟩ := objstr_facts m'.object
    rw [← hnamed, pad_inj hlast hlast' hobject, hnamed']
  have hseq := pad_inj (seqText_column m.type m.seq m.eot).2.1
    (seqText_column m'.type m'.seq m'.eot).2.1 hseq
  have hdata : m.data = m'.data := by
    have hbytes := hexText_inj (pad_inj (hexText_last _) (hexText_last _) hhex)
    cases hm : m.data with
    | mk bytes hlen =>
      cases hm' : m'.data with
      | mk bytes' hlen' =>
        rw [hm, hm'] at hbytes
        cases hbytes
        rfl
  unfold CanMsg.told
  rw [hpri, hsrc, hdst, htype, hobject, hdata]
  congr 1
  split
  · rename_i hdat
    rw [htype, hdat] at hseq
    obtain ⟨hs, he⟩ := (seqText_facts m.seq m.eot).2.2.2 _ _ hseq
    rw [hs, he]
  · rfl

/-- neither blanks nor newlines, as `%07.3f` -/
def Clean (time : List UInt8) : Prop := 32 ∉ time ∧ 10 ∉ time

instance (time : List UInt8) : Decidable (Clean time) := inferInstanceAs (Decidable (_ ∧ _))

/-- **A line tells `told`, and nothing else.** -/
theorem line_inj {time time' : List UInt8} {m m' : CanMsg} (ht : Clean time) (ht' : Clean time') :
    snoopLine time m = snoopLine time' m' ↔ time = time' ∧ m.told = m'.told := by
  constructor
  · intro h
    obtain ⟨htime, hrest⟩ := append_cons_inj ht.1 ht'.1 h
    have hlen : m.columns.flatten.length = m'.columns.flatten.length := by
      rw [List.length_flatten, List.length_flatten, columns_widths, columns_widths]
    obtain ⟨hcolumns, _⟩ := List.append_inj hrest hlen
    refine ⟨htime, columns_inj (List.eq_iff_flatten_eq.mpr ⟨hcolumns, ?_⟩)⟩
    rw [columns_widths, columns_widths]
  · rintro ⟨rfl, htold⟩
    have hpri : m.pri = m'.pri := congrArg Told.pri htold
    have hsrc : m.src = m'.src := congrArg Told.src htold
    have hdst : m.dst = m'.dst := congrArg Told.dst htold
    have htype : m.type = m'.type := congrArg Told.type htold
    have hdata : m.data = m'.data := congrArg Told.data htold
    have hobject : canmsgObjstr m.object = canmsgObjstr m'.object := by
      have hknown : knownObject m.object = knownObject m'.object := congrArg Told.object htold
      rw [(objstr_facts m.object).2.2.2.2, hknown, ← (objstr_facts m'.object).2.2.2.2]
    have hseq : seqText m.type m.seq m.eot = seqText m'.type m'.seq m'.eot := by
      have htoldseq := congrArg Told.seq htold
      unfold CanMsg.told at htoldseq
      dsimp only at htoldseq
      by_cases hdat : m.type = .dat
      · rw [if_pos hdat, if_pos (htype ▸ hdat)] at htoldseq
        obtain ⟨hs, he⟩ := Prod.mk.inj (Option.some.inj htoldseq)
        rw [htype, hs, he]
      · rw [seqText_other hdat, seqText_other (htype ▸ hdat)]
    unfold snoopLine snoopColumns snoopChars CanMsg.dlen
    rw [hpri, hsrc, hdst, htype, hobject, hdata]
    rw [htype] at hseq
    rw [hseq]

/-- A line is one line. -/
theorem newline_line {time : List UInt8} (ht : Clean time) (m : CanMsg) :
    10 ∉ snoopLine time m := by
  have hpad {n : Nat} {s : List UInt8} (hs : 10 ∉ s) : 10 ∉ pad n s := fun h =>
    (pad_mem h).elim hs (by decide)
  have hhex {v : Nat} (hv : v < 256) : 10 ∉ hex2 v := fun h => (hex2_mem hv h).2.1 rfl
  have hmark : 10 ∉ ascii (if m.pri = 0 then "+" else " ") := by
    split <;> decide +kernel
  have hdata : 10 ∉ hexText m.data.bytes := fun h => (hexText_mem h).1 rfl
  have hcolumns : ∀ column ∈ m.columns, 10 ∉ column := by
    unfold CanMsg.columns snoopColumns
    simp only [List.forall_mem_cons]
    exact ⟨hhex (by omega), by decide +kernel, hhex (by omega), by decide +kernel, hmark,
      hpad (typestr_facts m.type).2.2.1, by decide +kernel,
      hpad (seqText_column m.type m.seq m.eot).2.2, by decide +kernel,
      hpad (objstr_facts m.object).2.2.1, by decide +kernel, hpad hdata, by decide +kernel,
      fun _ h => absurd h List.not_mem_nil⟩
  have hchars : 10 ∉ snoopChars m (m.data.bytes.map snoopChar) := by
    unfold snoopChars
    rw [List.mem_append, List.mem_append, not_or, not_or]
    refine ⟨⟨?_, fun h => ?_⟩, ?_⟩
    · split <;> decide
    · obtain ⟨c, _, hc⟩ := List.mem_map.mp h
      exact (snoopChar_facts c).2 hc
    · split <;> decide
  intro h
  rcases List.mem_append.mp h with h | h
  · exact ht.2 h
  rcases List.mem_cons.mp h with h | h
  · exact absurd h (by decide)
  rcases List.mem_append.mp h with h | h
  · obtain ⟨column, hcolumn, hmem⟩ := List.mem_flatten.mp h
    exact hcolumns column hcolumn hmem
  · exact hchars h

/-! ## the messages that go by -/

/-- a message that `can_send` sends, with the unused bytes of its frame -/
structure OnBus where
  time : List UInt8
  stale : Vector UInt8 8
  msg : CanMsg

def OnBus.frame (x : OnBus) : SnoopFrame := ⟨x.time, canFrameSize, canSendFrame x.stale x.msg⟩

/-- Whether `cansnoop` is to show the message: with an address, what is sent to or from it, or to
all. -/
def snooped (addr : Option Addr) (m : CanMsg) : Bool :=
  match addr with
  | some addr => decide (m.dst = addr ∨ m.src = addr ∨ m.dst.val = canmsgAddrBroadcast)
  | none => true

theorem canSendFrame_src (m0 : CanMsg) (stale : Vector UInt8 8) (m : CanMsg) :
    (idDecode m0 (canSendFrame stale m).canId).src = m.src := by
  have hid : (canSendFrame stale m).canId = idEncode m ||| canEffFlag := rfl
  have hmask : (idEncode m ||| canEffFlag) &&& canEffMask = idEncode m :=
    or_eff_mask (idEncode_lt m)
  have hagree : (idDecode m0 ((idEncode m ||| canEffFlag) &&& canEffMask)).src =
      (idDecode m0 (idEncode m ||| canEffFlag)).src := by
    rw [← src_agree m0, UInt32.and_assoc]
    rfl
  rw [hid, ← hagree, hmask, idDecode_idEncode]

/-- **The filters pass what is to be shown.** -/
theorem snoopFilters_pass (addr : Option Addr) (stale : Vector UInt8 8) (m : CanMsg) :
    canOpenWithPasses (snoopFilters addr) (canSendFrame stale m).canId = snooped addr m := by
  cases addr with
  | none => rfl
  | some addr =>
    have hdst := canRecv_dst CanMsg.zero (canRecv_canSendFrame stale m)
    have hsrc := canSendFrame_src CanMsg.zero stale m
    have hbroadcast : (dstFilter 0x0f).accepts (canSendFrame stale m).canId ↔
        m.dst.val = canmsgAddrBroadcast := by
      rw [dstFilter_accepts CanMsg.zero, ← hdst, Fin.ext_iff]
      rfl
    show ((dstFilter addr :: srcFilter addr :: [dstFilter 0x0f]).any fun f =>
      decide (f.accepts (canSendFrame stale m).canId)) = decide (_ ∨ _ ∨ _)
    simp only [List.any_cons, List.any_nil, Bool.or_false, ← Bool.decide_or, decide_eq_decide]
    rw [dstFilter_accepts CanMsg.zero, ← hdst, srcFilter_accepts CanMsg.zero, hsrc, hbroadcast]

/-- **What is printed.** -/
theorem cansnoop_prints (addr : Option Addr) (bufs : SnoopBufs) (xs : List OnBus) :
    cansnoop addr bufs (xs.map OnBus.frame) =
      some ((xs.filter fun x => snooped addr x.msg).flatMap fun x =>
        snoopLine x.time x.msg ++ [10], false) := by
  induction xs generalizing bufs with
  | nil => rfl
  | cons x xs ih =>
    rw [List.map_cons, cansnoop]
    show (if canOpenWithPasses (snoopFilters addr) (canSendFrame x.stale x.msg).canId then
      _ else _) = _
    rw [snoopFilters_pass]
    by_cases hx : snooped addr x.msg = true
    · obtain ⟨bufs', hline⟩ := snoopMsg_spec bufs x.time x.msg
      have hrecv : canRecv x.frame.n x.frame.fr = .ok x.msg := canRecv_canSendFrame x.stale x.msg
      have htime : x.frame.time = x.time := rfl
      rw [if_pos hx, hrecv, List.filter_cons_of_pos (by exact hx), List.flatMap_cons]
      show Option.bind (snoopMsg bufs x.frame.time x.msg) _ = _
      rw [htime, hline, Option.bind_some]
      show Option.map _ (cansnoop addr bufs' (xs.map OnBus.frame)) = _
      rw [ih]
      rfl
    · rw [if_neg hx, List.filter_cons_of_neg (by exact hx)]
      exact ih bufs

/-- **The output tells what went by.**  On a bus on which everything is sent by `can_send`, `cansnoop`
never fails and never overruns a buffer, and two outputs are equal exactly if the same messages were
to be shown, in the same order and at the same times, as far as lines tell: two objects that
`canmsg.h` does not have are one, and so are two sequence numbers or marks of the end of messages
other than DAT. -/
theorem cansnoop_tells (addr : Option Addr) (bufs bufs' : SnoopBufs) (xs ys : List OnBus)
    (hx : ∀ x ∈ xs, Clean x.time) (hy : ∀ y ∈ ys, Clean y.time) :
    (∃ text, cansnoop addr bufs (xs.map OnBus.frame) = some (text, false)) ∧
      (cansnoop addr bufs (xs.map OnBus.frame) = cansnoop addr bufs' (ys.map OnBus.frame) ↔
        (xs.filter fun x => snooped addr x.msg).map (fun x => (x.time, x.msg.told)) =
          (ys.filter fun y => snooped addr y.msg).map fun y => (y.time, y.msg.told)) := by
  refine ⟨⟨_, cansnoop_prints addr bufs xs⟩, ?_⟩
  rw [cansnoop_prints, cansnoop_prints]
  have hus (x : OnBus) (h : x ∈ xs.filter fun x => snooped addr x.msg) : Clean x.time :=
    hx x (List.mem_of_mem_filter h)
  have hvs (y : OnBus) (h : y ∈ ys.filter fun y => snooped addr y.msg) : Clean y.time :=
    hy y (List.mem_of_mem_filter h)
  generalize xs.filter (fun x => snooped addr x.msg) = us at hus
  generalize ys.filter (fun y => snooped addr y.msg) = vs at hvs
  have hlines (zs : List OnBus) : zs.flatMap (fun z => snoopLine z.time z.msg ++ [10]) =
      (zs.map fun z => snoopLine z.time z.msg).flatMap (· ++ [10]) :=
    (List.flatMap_map (fun z : OnBus => snoopLine z.time z.msg) (· ++ [10]) zs).symm
  have hone (zs : List OnBus) (hzs : ∀ z ∈ zs, Clean z.time) :
      ∀ l ∈ zs.map (fun z => snoopLine z.time z.msg), 10 ∉ l := by
    intro l hl
    obtain ⟨z, hz, rfl⟩ := List.mem_map.mp hl
    exact newline_line (hzs z hz) z.msg
  calc some (us.flatMap fun x => snoopLine x.time x.msg ++ [10], false) =
        some (vs.flatMap fun y => snoopLine y.time y.msg ++ [10], false) ↔
      us.map (fun x => snoopLine x.time x.msg) = vs.map fun y => snoopLine y.time y.msg := by
        rw [Option.some_inj, Prod.mk.injEq, and_iff_left rfl, hlines, hlines]
        exact ⟨lines_inj (hone us hus) (hone vs hvs), fun h => congrArg _ h⟩
    _ ↔ _ := map_eq_map_congr fun x hx y hy => by
        rw [line_inj (hus x hx) (hvs y hy), Prod.mk.injEq]

/-- console data of a compute element, with a sequence number -/
def datOnBus (seq : Fin 16) : OnBus where
  time := ascii "001.250"
  stale := Vector.replicate 8 0
  msg :=
    { CanMsg.zero with
      pri := 1, dst := 0x22, src := 0x13, type := .dat, object := objConsolesend, seq := seq
      data := .single 65 }

def zeroBufs : SnoopBufs := ⟨Vector.replicate 32 0, Vector.replicate 35 0, Vector.replicate 8 0⟩

/-- Two numbers are told apart. -/
theorem cansnoop_tells_numbers :
    cansnoop (some 0x13) zeroBufs ([datOnBus 3].map OnBus.frame) ≠
      cansnoop (some 0x13) zeroBufs ([datOnBus 4].map OnBus.frame) := by
  have hclean (seq : Fin 16) : ∀ x ∈ [datOnBus seq], Clean x.time := by
    rw [List.forall_mem_singleton]
    show Clean (ascii "001.250")
    decide +kernel
  rw [Ne, (cansnoop_tells (some 0x13) zeroBufs zeroBufs _ _ (hclean 3) (hclean 4)).2]
  decide +kernel

end Bramble
