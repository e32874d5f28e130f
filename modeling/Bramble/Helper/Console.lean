import Bramble.Firmware.Services

/-!
# The conman helper (`cmd/console.c`)

The part of the helper that talks to the CAN bus: `can_cb` with its three handlers, and the
receive timer.  `write (2)` writes everything, `can_send` does not fail, and `die` ends the
process with a message (`died`).

A `Frame` is a received message with two history fields that no code reads: its position among the
DAT messages sent to this helper, and the number of its burst.

* `chunkIsComplete`, `writeChunkToStdout`    the two scans of the chunk array;
* `handleRecvDat`, `canCb`, `recvTimeoutCb`  the callbacks.
-/

namespace Bramble

structure Frame where
  msg : CanMsg
  id : Nat
  burst : Nat
  deriving DecidableEq

def Frame.zero : Frame := ⟨.zero, 0, 0⟩

def Frame.payload (f : Frame) : List UInt8 := f.msg.data.bytes

structure Helper where
  srcaddr : Addr
  dstaddr : Addr
  /-- `console_objid` -/
  objid : UInt8
  chunk : Vector Frame 16
  /-- `recv_timeout_watcher` is active -/
  recvTimer : Bool
  /-- `timeout_watcher` is active -/
  ackTimer : Bool
  /-- `stdin_watcher` is active -/
  stdinWatcher : Bool
  /-- what the calls of `write (STDOUT_FILENO, ..)` wrote -/
  stdout : List Frame
  /-- the message of `die` -/
  died : Option String

def Helper.alive (h : Helper) : Bool := h.died.isNone

/-! ## chunks -/

/-- `memset (chunk, 0, sizeof (chunk))` -/
def emptyChunk : Vector Frame 16 := Vector.replicate 16 Frame.zero

/-- loop of `chunk_is_complete` -/
def chunkIsComplete (holesOk : Bool) : List Frame → Bool
  | [] => false
  | c :: cs =>
    if holesOk = false ∧ c.msg.dlen = 0 then false
    else if c.msg.eot then true
    else chunkIsComplete holesOk cs

/-- loop of `write_chunk_to_stdout`: the entries written -/
def writeChunkToStdout : List Frame → List Frame
  | [] => []
  | c :: cs =>
    if 0 < c.msg.dlen then
      if c.msg.eot then [c] else c :: writeChunkToStdout cs
    else writeChunkToStdout cs

/-! ## callbacks -/

namespace Helper

def consoleSendAck (h : Helper) : CanMsg :=
  { CanMsg.zero with pri := 1, src := h.srcaddr, dst := h.dstaddr, type := .ack, object := h.objid }

/-- request of `console_disconnect` -/
def consoleDisconnect (h : Helper) : CanMsg :=
  { CanMsg.zero with
    pri := 1, src := h.srcaddr, dst := h.dstaddr, type := .wo, object := objConsoledisc,
    data := .single h.objid }

def flushChunk (h : Helper) : Helper :=
  { h with stdout := h.stdout ++ writeChunkToStdout h.chunk.toList, chunk := emptyChunk }

/-- start the receive timer unless it is active, store the message -/
def store (h : Helper) (f : Frame) : Helper :=
  { h with recvTimer := true, chunk := h.chunk.set f.msg.seq f }

/-- `handle_recv_dat`: the new state and the messages sent -/
def handleRecvDat (h : Helper) (f : Frame) : Helper × List CanMsg :=
  let h := h.store f
  if chunkIsComplete false h.chunk.toList then
    ({ h.flushChunk with recvTimer := false }, [h.consoleSendAck])
  else (h, [])

/-- `recv_timeout_cb`; the one-shot timer is inactive when its callback runs -/
def recvTimeoutCb (h : Helper) : Helper × List CanMsg :=
  let h := { h with recvTimer := false }
  if chunkIsComplete true h.chunk.toList then (h.flushChunk, [h.consoleSendAck])
  else ({ h with died := some "receive timeout" }, [h.consoleDisconnect])

/-- common body of `handle_send_ack` and `handle_connect_ack`, which die with different texts -/
def handleAck (text : String) (h : Helper) (m : CanMsg) : Helper :=
  if m.type = .nak then { h with died := some text }
  else { h with ackTimer := false, stdinWatcher := true }

def handleSendAck : Helper → CanMsg → Helper := handleAck "received NAK to sent console data"

def handleConnectAck : Helper → CanMsg → Helper :=
  handleAck "received NAK - connection is probably broken"

def canCb (h : Helper) (f : Frame) : Helper × List CanMsg :=
  let m := f.msg
  if m.dst = h.srcaddr ∧ m.src = h.dstaddr then
    if m.object = h.objid ∧ m.type = .dat then h.handleRecvDat f
    else if m.object = objConsolerecv ∧ (m.type = .ack ∨ m.type = .nak) then (handleSendAck h m, [])
    else if m.object = objConsoleconn ∧ (m.type = .ack ∨ m.type = .nak) then
      (handleConnectAck h m, [])
    else (h, [])
  else (h, [])

def stdoutBytes (h : Helper) : List UInt8 := h.stdout.flatMap Frame.payload

end Helper

end Bramble
