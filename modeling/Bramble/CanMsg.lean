import Bramble.Lib.Machine
import Bramble.Lib.BitField

/-!
# CAN messages

`struct canmsg` of `libbramble/canmsg.h`: the bit-fields of the 29-bit id are `Fin (2^w)` of their
widths, so a value that does not fit cannot be written down, and `data` holds the first `dlen`
bytes of the frame (no code reads the others).
-/

namespace Bramble

/-- the 3-bit message type; the number 5 is not assigned -/
inductive MsgType where
  | ro | wo | wna | dat | ack | unassigned | nak | sig
  deriving DecidableEq, Repr

abbrev Addr := Fin 64

structure Payload where
  bytes : List UInt8
  len_le : bytes.length ≤ 8
  deriving DecidableEq

def Payload.empty : Payload := ⟨[], Nat.zero_le 8⟩

def Payload.single (b : UInt8) : Payload := ⟨[b], by simp⟩

def Payload.ofList (l : List UInt8) : Payload := ⟨l.take 8, by simp⟩

theorem Payload.ofList_bytes (l : List UInt8) : (Payload.ofList l).bytes = l.take 8 := rfl

structure CanMsg where
  pri : Fin 2
  dst : Addr
  src : Addr
  type : MsgType
  object : UInt8
  eot : Bool
  seq : Fin 16
  data : Payload
  deriving DecidableEq

def CanMsg.dlen (m : CanMsg) : Nat := m.data.bytes.length

/-- `struct canmsg msg = { 0 }` -/
def CanMsg.zero : CanMsg :=
  { pri := 0, dst := 0, src := 0, type := .ro, object := 0, eot := false, seq := 0,
    data := .empty }

/-- the messages carry the sequence numbers 0, 1, 2, .. -/
def NumberedFrom0 (l : List CanMsg) : Prop := l.map (fun m => m.seq.val) = List.range l.length

instance (l : List CanMsg) : Decidable (NumberedFrom0 l) := inferInstanceAs (Decidable (_ = _))

theorem NumberedFrom0.snoc {l : List CanMsg} {m : CanMsg} (h : NumberedFrom0 l)
    (hm : m.seq.val = l.length) : NumberedFrom0 (l ++ [m]) := by
  rw [NumberedFrom0, List.map_append, h, List.length_append, List.length_singleton,
    List.range_succ]
  show _ ++ [m.seq.val] = _
  rw [hm]

/-! ## addresses and objects -/

def canmsgAddrManagement : Nat := 0x02
def canmsgAddrBroadcast : Nat := 0x0f
def canmsgAddrControl : Nat := 0x10
def canmsgAddrCompute : Nat := 0x20

def objEcho : UInt8 := 0
def objPower : UInt8 := 1
def objConsoleconn : UInt8 := 3
def objConsolerecv : UInt8 := 4
def objConsolesend : UInt8 := 5
def objConsoledisc : UInt8 := 6
def objShutdown : UInt8 := 7

end Bramble
