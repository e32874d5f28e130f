import Bramble.CanMsg

/-!
# Serial port of the firmware (`serial.c`)

Two stream buffers between the USART interrupt and the tasks.  A FreeRTOS stream buffer is a list
of bytes with a capacity: a send stores as many bytes as fit, a receive takes as many as there
are, up to the size asked for.
-/

namespace Bramble

/-! ## stream buffers -/

/-- `xStreamBufferSend` with zero ticks: the new content and the number of bytes stored -/
def streamSend (cap : Nat) (q bs : List UInt8) : List UInt8 × Nat :=
  (q ++ bs.take (cap - q.length), (bs.take (cap - q.length)).length)

/-- `xStreamBufferReceive`: the bytes taken and the rest -/
def streamReceive (q : List UInt8) (size : Nat) : List UInt8 × List UInt8 :=
  (q.take size, q.drop size)

/-! ## the port -/

structure Serial where
  rxq : List UInt8
  overrun : Nat
  txq : List UInt8
  /-- `USART_CR1_RXNEIE` -/
  rxEnabled : Bool
  /-- `USART_CR1_TXEIE` -/
  txEnabled : Bool
  deriving DecidableEq

namespace Serial

def rxQueueDepth : Nat := 4096
def txQueueDepth : Nat := 128
def rxOverrunResume : Nat := 256

/-- receive half of `usart1_isr`: the byte `c` is in the data register -/
def usart1IsrRx (s : Serial) (c : UInt8) : Serial :=
  if s.rxEnabled then
    if 0 < s.overrun then { s with overrun := s.overrun + 1 }
    else
      let r := streamSend rxQueueDepth s.rxq [c]
      if r.2 = 1 then { s with rxq := r.1 } else { s with rxq := r.1, overrun := s.overrun + 1 }
  else s

/-- transmit half of `usart1_isr`: the byte handed to the USART, if any -/
def usart1IsrTx (s : Serial) : Serial × Option UInt8 :=
  if s.txEnabled then
    match s.txq with
    | c :: q => ({ s with txq := q }, some c)
    | [] => ({ s with txEnabled := false }, none)
  else (s, none)

def serialRecvAvailable (s : Serial) : Nat := s.rxq.length

def serialRecv (s : Serial) (bufsize : Nat) : Serial × List UInt8 :=
  let r := streamReceive s.rxq bufsize
  let s' := { s with rxq := r.2 }
  if 0 < r.1.length ∧ 0 < s.overrun ∧ rxOverrunResume ≤ rxQueueDepth - s'.rxq.length then
    ({ s' with overrun := 0 }, r.1)
  else (s', r.1)

/-- `serial_send` with a zero timeout: the number of bytes accepted into `serialtxq` -/
def serialSend (s : Serial) (bs : List UInt8) : Serial × Nat :=
  let r := streamSend txQueueDepth s.txq bs
  ({ s with txq := r.1, txEnabled := true }, r.2)

theorem serialRecv_bytes (s : Serial) (n : Nat) : (s.serialRecv n).2 = s.rxq.take n := by
  unfold serialRecv
  simp only
  split <;> rfl

end Serial

end Bramble
