import Bramble.Firmware.Serial
import Bramble.Lib.Fifo
import Bramble.Lib.Simulation

/-!
# Stream buffers (`stream_buffer.c`)

The memory of a stream buffer and its two indices, as `xStreamBufferSend` and
`xStreamBufferReceive` use them, with zero ticks to wait and no message lengths.

* `StreamBuffer.WF`             the indices lie in the memory;
* `StreamBuffer.contents`       the bytes between them;
* `xStreamBufferSend_contents`, `xStreamBufferReceive_contents`  calls that are not interrupted are
                                `streamSend` and `streamReceive`;
* `streamPort`                  one sender and one receiver, interleaved byte by byte;
* `streamPort_fifo`             what is received, and then what is in the buffer, is what was sent.
-/

namespace Bramble
open Fifo

structure StreamBuffer where
  /-- the memory from `pucBuffer` on -/
  pucBuffer : Nat → UInt8
  xLength : Nat
  xTail : Nat
  xHead : Nat

namespace StreamBuffer

/-- `xStreamBufferGenericCreate`; `mem` is what `pvPortMalloc` returns -/
def xStreamBufferCreate (mem : Nat → UInt8) (xBufferSizeBytes : Nat) : StreamBuffer :=
  ⟨mem, xBufferSizeBytes + 1, 0, 0⟩

def prvBytesInBuffer (sb : StreamBuffer) : Nat := wrap sb.xLength (sb.xLength + sb.xHead - sb.xTail)

def xStreamBufferSpacesAvailable (sb : StreamBuffer) : Nat :=
  wrap sb.xLength (sb.xLength + sb.xTail - sb.xHead - 1)

def setHead (sb : StreamBuffer) (xCount : Nat) : StreamBuffer :=
  { sb with xHead := wrap sb.xLength (sb.xHead + xCount) }

def setTail (sb : StreamBuffer) (xCount : Nat) : StreamBuffer :=
  { sb with xTail := wrap sb.xLength (sb.xTail + xCount) }

def prvWriteBytesToBuffer (sb : StreamBuffer) (pucData : List UInt8) : StreamBuffer :=
  { sb with pucBuffer := copyIn sb.xLength sb.pucBuffer sb.xHead pucData }.setHead pucData.length

/-- `prvWriteMessageToBuffer`: the number of bytes stored -/
def prvWriteMessageToBuffer (sb : StreamBuffer) (pvTxData : List UInt8) (xSpace : Nat) :
    StreamBuffer × Nat :=
  if xSpace = 0 then (sb, 0)
  else (sb.prvWriteBytesToBuffer (pvTxData.take xSpace), min pvTxData.length xSpace)

/-- `xStreamBufferSendFromISR`, and `xStreamBufferSend` with zero ticks -/
def xStreamBufferSend (sb : StreamBuffer) (pvTxData : List UInt8) : StreamBuffer × Nat :=
  sb.prvWriteMessageToBuffer pvTxData sb.xStreamBufferSpacesAvailable

def prvReadBytesFromBuffer (sb : StreamBuffer) (xMaxCount xBytesAvailable : Nat) :
    StreamBuffer × List UInt8 :=
  let xCount := min xBytesAvailable xMaxCount
  if 0 < xCount then
    (sb.setTail xCount,
      (List.range xCount).map fun k => sb.pucBuffer (cell sb.xLength sb.xTail xCount k))
  else (sb, [])

/-- `xStreamBufferReceiveFromISR`, and `xStreamBufferReceive` with zero ticks -/
def xStreamBufferReceive (sb : StreamBuffer) (xBufferLengthBytes : Nat) :
    StreamBuffer × List UInt8 :=
  if 0 < sb.prvBytesInBuffer then
    sb.prvReadBytesFromBuffer xBufferLengthBytes sb.prvBytesInBuffer
  else (sb, [])

/-! ## what is in a buffer -/

structure WF (sb : StreamBuffer) : Prop where
  tail : sb.xTail < sb.xLength
  head : sb.xHead < sb.xLength

def contents (sb : StreamBuffer) : List UInt8 :=
  values sb.xLength sb.pucBuffer sb.xTail sb.prvBytesInBuffer

/-- the bytes `q` are in the buffer -/
structure Has (sb : StreamBuffer) (q : List UInt8) : Prop where
  tail : sb.xTail < sb.xLength
  head : sb.xHead = (sb.xTail + q.length) % sb.xLength
  room : q.length < sb.xLength
  stored : Arc sb.xLength sb.pucBuffer sb.xTail q

section
variable {sb : StreamBuffer} {q : List UInt8}

theorem Has.wf (h : Has sb q) : WF sb := by
  refine ⟨h.tail, ?_⟩
  rw [h.head]
  exact Nat.mod_lt _ (Nat.zero_lt_of_lt h.tail)

theorem Has.bytes (h : Has sb q) : sb.prvBytesInBuffer = q.length := by
  unfold prvBytesInBuffer
  rw [h.head]
  exact wrap_distance h.tail h.room

theorem Has.spaces (h : Has sb q) :
    sb.xStreamBufferSpacesAvailable = sb.xLength - 1 - q.length := by
  have htail := h.tail
  have hroom := h.room
  unfold xStreamBufferSpacesAvailable
  rw [h.head, ← wrap_eq_mod (by omega)]
  unfold wrap
  split <;> split <;> omega

theorem Has.contents (h : Has sb q) : sb.contents = q := by
  unfold StreamBuffer.contents
  rw [h.bytes]
  exact h.stored.eq_values

theorem WF.has (h : WF sb) : Has sb sb.contents := by
  have htail := h.tail
  have hhead := h.head
  have hlen : sb.contents.length = sb.prvBytesInBuffer := length_values _ _ _
  have hbytes : sb.prvBytesInBuffer < sb.xLength := by
    unfold prvBytesInBuffer wrap
    split <;> omega
  refine ⟨htail, ?_, by rw [hlen]; exact hbytes, segment_values _ _ _⟩
  rw [hlen, ← wrap_eq_mod (by omega)]
  unfold prvBytesInBuffer wrap
  split <;> split <;> omega

theorem has_create (mem : Nat → UInt8) (size : Nat) : Has (xStreamBufferCreate mem size) [] :=
  ⟨Nat.succ_pos size, rfl, Nat.succ_pos size, Arc.nil _ _⟩

/-- The head moves over bytes that have been copied behind it. -/
theorem Has.setHead (h : Has sb q) {mem : Nat → UInt8} {bs : List UInt8}
    (hroom : q.length + bs.length < sb.xLength)
    (hmem : Arc sb.xLength mem sb.xTail (q ++ bs)) :
    Has ({ sb with pucBuffer := mem }.setHead bs.length) (q ++ bs) := by
  have hhead := h.wf.head
  refine ⟨h.tail, ?_, by rw [List.length_append]; exact hroom, hmem⟩
  show wrap sb.xLength (sb.xHead + bs.length) = _
  rw [wrap_eq_mod (by omega), h.head, Nat.mod_add_mod, List.length_append, Nat.add_assoc]
  rfl

/-- The tail moves over bytes that have been copied out. -/
theorem Has.setTail (h : Has sb q) {count : Nat} (hc : count ≤ q.length) :
    Has (sb.setTail count) (q.drop count) := by
  have htail := h.tail
  have hroom := h.room
  have hnext : (sb.setTail count).xTail = (sb.xTail + count) % sb.xLength :=
    wrap_eq_mod (by omega)
  refine ⟨?_, ?_, ?_, ?_⟩
  · rw [hnext]
    exact Nat.mod_lt _ (Nat.zero_lt_of_lt htail)
  · rw [hnext]
    show sb.xHead = ((sb.xTail + count) % sb.xLength + (q.drop count).length) % sb.xLength
    rw [Nat.mod_add_mod, List.length_drop, Nat.add_assoc, Nat.add_sub_cancel' hc, h.head]
  · rw [List.length_drop]
    show q.length - count < sb.xLength
    omega
  · rw [hnext]
    exact Arc.mod_start.mpr (h.stored.drop hc)

theorem length_send (sb : StreamBuffer) (bs : List UInt8) :
    (sb.xStreamBufferSend bs).1.xLength = sb.xLength := by
  unfold xStreamBufferSend prvWriteMessageToBuffer
  split <;> rfl

theorem Has.send (h : Has sb q) (bs : List UInt8) :
    Has (sb.xStreamBufferSend bs).1 (q ++ bs.take (sb.xLength - 1 - q.length)) ∧
      (sb.xStreamBufferSend bs).2 = min bs.length (sb.xLength - 1 - q.length) := by
  have hroom := h.room
  unfold xStreamBufferSend prvWriteMessageToBuffer
  rw [h.spaces]
  split
  · rename_i hfull
    rw [hfull, List.take_zero, List.append_nil, Nat.min_zero]
    exact ⟨h, rfl⟩
  · refine ⟨?_, rfl⟩
    have hlen : (bs.take (sb.xLength - 1 - q.length)).length ≤ sb.xLength - 1 - q.length :=
      List.length_take_le _ _
    exact h.setHead (by omega) (h.stored.copyIn h.head (by omega) (Nat.zero_lt_of_lt h.tail))

theorem Has.receive (h : Has sb q) (size : Nat) :
    Has (sb.xStreamBufferReceive size).1 (q.drop size) ∧
      (sb.xStreamBufferReceive size).2 = q.take size := by
  have htail := h.tail
  have hroom := h.room
  unfold xStreamBufferReceive prvReadBytesFromBuffer
  rw [h.bytes]
  by_cases hcount : 0 < min q.length size
  · rw [if_pos (by omega), if_pos hcount]
    have hdrop : q.drop (min q.length size) = q.drop size := by
      rcases Nat.le_total q.length size with hle | hle
      · rw [Nat.min_eq_left hle, List.drop_length, List.drop_of_length_le hle]
      · rw [Nat.min_eq_right hle]
    refine ⟨hdrop ▸ h.setTail (Nat.min_le_left _ _), ?_⟩
    have htake : (q.take size).length = min q.length size := by
      rw [List.length_take, Nat.min_comm]
    rw [← (h.stored.take size).eq_values, htake]
    apply List.map_congr_left
    intro k hk
    rw [cell_eq_mod htail (List.mem_range.mp hk) (by omega)]
  · have hnone : q = [] ∨ size = 0 := by
      rcases Nat.eq_zero_or_pos size with h0 | h0
      · exact .inr h0
      · exact .inl (List.eq_nil_of_length_eq_zero (by omega))
    have hsame : (if 0 < q.length then
        (if 0 < min q.length size then
          (sb.setTail (min q.length size), (List.range (min q.length size)).map fun k =>
            sb.pucBuffer (cell sb.xLength sb.xTail (min q.length size) k))
        else (sb, [])) else (sb, [])) = (sb, []) := by
      rw [if_neg hcount, ite_self]
    rw [hsame]
    rcases hnone with rfl | rfl
    · rw [List.drop_nil, List.take_nil]
      exact ⟨h, rfl⟩
    · exact ⟨h, rfl⟩

end

end StreamBuffer

open StreamBuffer

/-- A send that is not interrupted. -/
theorem xStreamBufferSend_contents {sb : StreamBuffer} (h : sb.WF) (bs : List UInt8) :
    (sb.xStreamBufferSend bs).1.WF ∧
      ((sb.xStreamBufferSend bs).1.contents, (sb.xStreamBufferSend bs).2) =
        streamSend (sb.xLength - 1) sb.contents bs := by
  obtain ⟨hhas, hcount⟩ := h.has.send bs
  refine ⟨hhas.wf, ?_⟩
  rw [hhas.contents, hcount]
  unfold streamSend
  rw [List.length_take, Nat.min_comm]

/-- A receive that is not interrupted. -/
theorem xStreamBufferReceive_contents {sb : StreamBuffer} (h : sb.WF) (size : Nat) :
    (sb.xStreamBufferReceive size).1.WF ∧
      ((sb.xStreamBufferReceive size).2, (sb.xStreamBufferReceive size).1.contents) =
        streamReceive sb.contents size := by
  obtain ⟨hhas, hbytes⟩ := h.has.receive size
  refine ⟨hhas.wf, ?_⟩
  rw [hhas.contents, hbytes]
  rfl

/-! ## one sender and one receiver -/

/-- program points of `xStreamBufferSend` -/
inductive SenderPc where
  | outside
  /-- in `prvWriteBytesToBuffer`, with `k` of the bytes copied -/
  | write (bs : List UInt8) (k : Nat)
  deriving DecidableEq

/-- program points of `xStreamBufferReceive` -/
inductive ReceiverPc where
  | outside
  /-- in `prvReadBytesFromBuffer`, with the bytes copied so far -/
  | read (xCount : Nat) (got : List UInt8)
  deriving DecidableEq

/-- A stream buffer with its two users, and what they have stored and taken so far. -/
structure StreamPort where
  sb : StreamBuffer
  sender : SenderPc
  receiver : ReceiverPc
  stored : List UInt8
  taken : List UInt8

inductive StreamAct where
  /-- the sender calls `xStreamBufferSend`, up to the look at the tail -/
  | send (pvTxData : List UInt8)
  /-- one more byte, or the new head -/
  | sender
  /-- the receiver calls `xStreamBufferReceive`, up to the look at the head -/
  | receive (xBufferLengthBytes : Nat)
  /-- one more byte, or the new tail -/
  | receiver
  deriving DecidableEq

namespace StreamPort

def send (s : StreamPort) (pvTxData : List UInt8) : StreamPort :=
  let xSpace := s.sb.xStreamBufferSpacesAvailable
  if xSpace = 0 then s else { s with sender := .write (pvTxData.take xSpace) 0 }

def senderStep (s : StreamPort) : Option StreamPort :=
  match s.sender with
  | .outside => none
  | .write bs k =>
    match bs[k]? with
    | some x =>
      let a := cell s.sb.xLength s.sb.xHead bs.length k
      some { s with
        sb := { s.sb with pucBuffer := Function.update s.sb.pucBuffer a x }
        sender := .write bs (k + 1) }
    | none =>
      some { s with sb := s.sb.setHead bs.length, sender := .outside, stored := s.stored ++ bs }

def receive (s : StreamPort) (xBufferLengthBytes : Nat) : StreamPort :=
  let xCount := min s.sb.prvBytesInBuffer xBufferLengthBytes
  if 0 < xCount then { s with receiver := .read xCount [] } else s

def receiverStep (s : StreamPort) : Option StreamPort :=
  match s.receiver with
  | .outside => none
  | .read xCount got =>
    if got.length < xCount then
      let a := cell s.sb.xLength s.sb.xTail xCount got.length
      some { s with receiver := .read xCount (got ++ [s.sb.pucBuffer a]) }
    else
      some { s with sb := s.sb.setTail xCount, receiver := .outside, taken := s.taken ++ got }

def step (s : StreamPort) : StreamAct → Option StreamPort
  | .send bs => if s.sender = .outside then some (s.send bs) else none
  | .sender => s.senderStep
  | .receive size => if s.receiver = .outside then some (s.receive size) else none
  | .receiver => s.receiverStep

/-- after `xStreamBufferGenericCreate` -/
def init (mem : Nat → UInt8) (size : Nat) : StreamPort :=
  ⟨xStreamBufferCreate mem size, .outside, .outside, [], []⟩

/-- Of the bytes that are being written, those copied lie behind the contents, and there is room for
all of them. -/
def SenderAt (sb : StreamBuffer) (q : List UInt8) : SenderPc → Prop
  | .outside => True
  | .write bs k => q.length + bs.length < sb.xLength ∧
      Arc sb.xLength sb.pucBuffer sb.xTail (q ++ bs.take k)

/-- The bytes that have been read are the first ones of the contents. -/
def ReceiverAt (q : List UInt8) : ReceiverPc → Prop
  | .outside => True
  | .read xCount got => xCount ≤ q.length ∧ got.length ≤ xCount ∧ got = q.take got.length

/-- the invariant, with the memory `mem` that was there and the contents `q` -/
structure Inv (mem : Nat → UInt8) (size : Nat) (s : StreamPort) (q : List UInt8) : Prop where
  length : s.sb.xLength = size + 1
  has : Has s.sb q
  order : s.taken ++ q = s.stored
  sender : SenderAt s.sb q s.sender
  receiver : ReceiverAt q s.receiver
  outside : ∀ a, size < a → s.sb.pucBuffer a = mem a

end StreamPort

def streamPort : Machine StreamPort StreamAct := ⟨StreamPort.step⟩

namespace StreamPort.Inv
variable {mem : Nat → UInt8} {size : Nat} {s t : StreamPort} {q : List UInt8}

theorem send (h : Inv mem size s q) (bs : List UInt8) : Inv mem size (s.send bs) q := by
  unfold StreamPort.send
  simp only
  split
  · exact h
  · refine ⟨h.length, h.has, h.order, ?_, h.receiver, h.outside⟩
    have hlen : (bs.take s.sb.xStreamBufferSpacesAvailable).length ≤ s.sb.xLength - 1 - q.length := by
      rw [h.has.spaces]
      exact List.length_take_le _ _
    have hroom := h.has.room
    have hspaces := h.has.spaces
    refine ⟨?_, ?_⟩
    · show q.length + (bs.take s.sb.xStreamBufferSpacesAvailable).length < s.sb.xLength
      omega
    · rw [List.take_zero, List.append_nil]
      exact h.has.stored

theorem copy (h : Inv mem size s q) {bs : List UInt8} {k : Nat} {x : UInt8}
    (hpc : s.sender = .write bs k) (hx : bs[k]? = some x) :
    Inv mem size { s with
      sb := { s.sb with
        pucBuffer := Function.update s.sb.pucBuffer (cell s.sb.xLength s.sb.xHead bs.length k) x }
      sender := .write bs (k + 1) } q := by
  have hat := h.sender
  rw [hpc] at hat
  obtain ⟨hroom, hcopied⟩ := hat
  obtain ⟨hk, rfl⟩ := List.getElem?_eq_some_iff.mp hx
  have hlen : (q ++ bs.take k).length = q.length + k := by
    rw [List.length_append, List.length_take, Nat.min_eq_left hk.le]
  have hcell : cell s.sb.xLength s.sb.xHead bs.length k =
      (s.sb.xTail + (q ++ bs.take k).length) % s.sb.xLength := by
    rw [cell_eq_mod h.has.wf.head hk (by omega), h.has.head, Nat.mod_add_mod, hlen, Nat.add_assoc]
  have hnext := hcopied.concat (by omega) bs[k]
  rw [List.append_assoc, ← List.take_succ_eq_append_getElem hk] at hnext
  rw [hcell]
  refine ⟨h.length, ⟨h.has.tail, h.has.head, h.has.room, ?_⟩, h.order, ⟨hroom, hnext⟩, h.receiver,
    fun a ha => ?_⟩
  · exact (Arc.append.mp hnext).1
  · have hlt := Nat.mod_lt (s.sb.xTail + (q ++ bs.take k).length) (Nat.zero_lt_of_lt h.has.tail)
    have hlength := h.length
    show Function.update s.sb.pucBuffer _ _ a = mem a
    rw [Function.update_of_ne (by omega)]
    exact h.outside a ha

theorem publish (h : Inv mem size s q) {bs : List UInt8} {k : Nat} (hpc : s.sender = .write bs k)
    (hk : bs[k]? = none) :
    Inv mem size
      { s with sb := s.sb.setHead bs.length, sender := .outside, stored := s.stored ++ bs }
      (q ++ bs) := by
  have hat := h.sender
  rw [hpc] at hat
  obtain ⟨hroom, hcopied⟩ := hat
  rw [List.take_of_length_le (List.getElem?_eq_none_iff.mp hk)] at hcopied
  refine ⟨h.length, h.has.setHead hroom hcopied, ?_, trivial, ?_, h.outside⟩
  · show s.taken ++ (q ++ bs) = s.stored ++ bs
    rw [← List.append_assoc, h.order]
  · -- the receiver is at the other end
    have hrecv := h.receiver
    show ReceiverAt (q ++ bs) s.receiver
    cases hr : s.receiver with
    | outside => trivial
    | read xCount got =>
      rw [hr] at hrecv
      obtain ⟨hcount, hgot, htake⟩ := hrecv
      refine ⟨by rw [List.length_append]; omega, hgot, ?_⟩
      rw [List.take_append_of_le_length (by omega)]
      exact htake

theorem receive (h : Inv mem size s q) (n : Nat) : Inv mem size (s.receive n) q := by
  unfold StreamPort.receive
  rw [h.has.bytes]
  simp only
  split
  · exact ⟨h.length, h.has, h.order, h.sender, ⟨Nat.min_le_left _ _, Nat.zero_le _, rfl⟩, h.outside⟩
  · exact h

theorem read (h : Inv mem size s q) {xCount : Nat} {got : List UInt8}
    (hpc : s.receiver = .read xCount got) (hlt : got.length < xCount) :
    Inv mem size { s with
      receiver := .read xCount
        (got ++ [s.sb.pucBuffer (cell s.sb.xLength s.sb.xTail xCount got.length)]) } q := by
  have hat := h.receiver
  rw [hpc] at hat
  obtain ⟨hcount, _, htake⟩ := hat
  have hroom := h.has.room
  refine ⟨h.length, h.has, h.order, h.sender, ⟨hcount, ?_, ?_⟩, h.outside⟩
  · rw [List.length_append, List.length_singleton]
    exact hlt
  · rw [cell_eq_mod h.has.tail hlt (by omega), List.length_append, List.length_singleton,
      ← h.has.stored.read (by omega), ← htake]

theorem release (h : Inv mem size s q) {xCount : Nat} {got : List UInt8}
    (hpc : s.receiver = .read xCount got) (hlt : ¬ got.length < xCount) :
    Inv mem size
      { s with sb := s.sb.setTail xCount, receiver := .outside, taken := s.taken ++ got }
      (q.drop xCount) := by
  have hat := h.receiver
  rw [hpc] at hat
  obtain ⟨hcount, hgot, htake⟩ := hat
  have hlen : got.length = xCount := by omega
  rw [hlen] at htake
  have hhas := h.has.setTail hcount
  refine ⟨h.length, hhas, ?_, ?_, trivial, h.outside⟩
  · show s.taken ++ got ++ q.drop xCount = s.stored
    rw [htake, List.append_assoc, List.take_append_drop, h.order]
  · -- the sender finds more room than it looked for
    have hsend := h.sender
    show SenderAt (s.sb.setTail xCount) (q.drop xCount) s.sender
    cases hs : s.sender with
    | outside => trivial
    | write bs k =>
      rw [hs] at hsend
      obtain ⟨hroom, hcopied⟩ := hsend
      have hnext : (s.sb.setTail xCount).xTail = (s.sb.xTail + xCount) % s.sb.xLength :=
        wrap_eq_mod (by have := h.has.tail; have := h.has.room; omega)
      refine ⟨?_, ?_⟩
      · rw [List.length_drop]
        show q.length - xCount + bs.length < s.sb.xLength
        omega
      · rw [hnext]
        refine Arc.mod_start.mpr ?_
        have hdrop := hcopied.drop (k := xCount) (by rw [List.length_append]; omega)
        rw [List.drop_append_of_le_length hcount] at hdrop
        exact hdrop

theorem step {a : StreamAct} (h : Inv mem size s q) (hs : s.step a = some t) :
    ∃ q', Inv mem size t q' := by
  cases a with
  | send bs =>
    obtain ⟨_, hs⟩ := Option.ite_none_right_eq_some.mp hs
    cases hs
    exact ⟨q, h.send bs⟩
  | sender =>
    replace hs : s.senderStep = some t := hs
    unfold StreamPort.senderStep at hs
    split at hs
    · cases hs
    · rename_i bs k hpc
      split at hs
      · rename_i x hx
        cases hs
        exact ⟨q, h.copy hpc hx⟩
      · rename_i hx
        cases hs
        exact ⟨q ++ bs, h.publish hpc hx⟩
  | receive n =>
    obtain ⟨_, hs⟩ := Option.ite_none_right_eq_some.mp hs
    cases hs
    exact ⟨q, h.receive n⟩
  | receiver =>
    replace hs : s.receiverStep = some t := hs
    unfold StreamPort.receiverStep at hs
    split at hs
    · cases hs
    · rename_i xCount got hpc
      split at hs
      · rename_i hlt
        cases hs
        exact ⟨q, h.read hpc hlt⟩
      · rename_i hlt
        cases hs
        exact ⟨q.drop xCount, h.release hpc hlt⟩

theorem init (mem : Nat → UInt8) (size : Nat) : Inv mem size (StreamPort.init mem size) [] :=
  ⟨rfl, has_create mem size, rfl, trivial, trivial, fun _ _ => rfl⟩

end StreamPort.Inv

/-- **A stream buffer is a queue of bytes.**  However its sender and its receiver interleave, what
was taken and then what is in the buffer is what was stored, no more than the buffer was made for;
bytes in the receiver's hand are the first ones of the buffer; and no memory beyond the buffer is
written. -/
theorem streamPort_fifo (mem : Nat → UInt8) (size : Nat) (as : List StreamAct) (s : StreamPort)
    (h : streamPort.run (StreamPort.init mem size) as = some s) :
    s.taken ++ s.sb.contents = s.stored ∧ s.sb.contents.length ≤ size ∧
      (∀ xCount got, s.receiver = .read xCount got → got <+: s.sb.contents) ∧
      ∀ a, size < a → s.sb.pucBuffer a = mem a := by
  obtain ⟨q, hq⟩ : ∃ q, StreamPort.Inv mem size s q :=
    (Machine.run_free h).inv (I := fun s => ∃ q, StreamPort.Inv mem size s q) ⟨[], .init mem size⟩
      fun _ _ _ hx _ hs => hx.elim fun _ hq => hq.step hs
  have hroom := hq.has.room
  rw [hq.has.contents]
  refine ⟨hq.order, by rw [hq.length] at hroom; omega, fun xCount got hpc => ?_, hq.outside⟩
  have hat := hq.receiver
  rw [hpc] at hat
  rw [hat.2.2]
  exact List.take_prefix _ _

/-- three bytes fill the buffer; while one is read, nothing can be stored; two more wrap around,
with a read between the copy and the new head -/
def wrapAround : List StreamAct :=
  [.send [1, 2, 3, 9], .sender, .sender, .sender, .sender, .receive 2, .receiver, .send [7],
    .receiver, .receiver, .send [4, 5], .sender, .sender, .receive 8, .sender, .receiver]

theorem streamPort_fifo_wrapped :
    ∃ s, streamPort.run (.init (fun _ => 0) 3) wrapAround = some s ∧
      s.stored = [1, 2, 3, 4, 5] ∧ s.taken = [1, 2] ∧ s.receiver = .read 1 [3] ∧
      s.taken ++ s.sb.contents = s.stored ∧ s.sb.contents.length ≤ 3 := by
  have hend : (streamPort.run (.init (fun _ => 0) 3) wrapAround).map
      (fun s => (s.stored, s.taken, s.receiver)) = some ([1, 2, 3, 4, 5], [1, 2], .read 1 [3]) := by
    decide
  obtain ⟨s, hs, hend⟩ := Option.map_eq_some_iff.mp hend
  rw [Prod.mk.injEq, Prod.mk.injEq] at hend
  obtain ⟨horder, hroom, _⟩ := streamPort_fifo (fun _ => 0) 3 wrapAround s hs
  exact ⟨s, hs, hend.1, hend.2.1, hend.2.2, horder, hroom⟩

end Bramble
