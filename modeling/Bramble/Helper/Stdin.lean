import Bramble.Helper.Console

/-!
# The other half of the conman helper: stdin to CAN (`cmd/console.c`)

`stdin_cb` reads up to 8 bytes, sends them as one DAT message and stops the stdin watcher until the
ACK; `console_connect` and `console_send_dat` share one timer. `can_send` may fail, which ends the
process like any other error. The connection starts with no watcher for stdin.

* `Conman`                                    the helper with `timeout_message`;
* `consoleConnect`, `consoleSendDat`          the requests that expect an ACK;
* `stdinCb`, `timeoutCb`, `canCb`, `recvTimeoutCb`  the callbacks;
* `stdinCb_cases`, `canCb_cases`              what a read of stdin and a received message do.
-/

namespace Bramble

structure Conman where
  helper : Helper
  timeoutMessage : Option String

/-- what `read (STDIN_FILENO, ..)` returns -/
inductive ReadResult where
  | eagain
  | error
  /-- no bytes: end of file -/
  | bytes (data : Payload)
  deriving DecidableEq

namespace Conman

/-- the static variables of a helper that has just started -/
def init (srcaddr dstaddr : Addr) : Conman where
  helper :=
    { srcaddr := srcaddr, dstaddr := dstaddr, objid := objConsolesend, chunk := emptyChunk
      recvTimer := false, ackTimer := false, stdinWatcher := false, stdout := [], died := none }
  timeoutMessage := none

def die (c : Conman) (text : String) : Conman :=
  { c with helper := { c.helper with died := some text } }

/-- send a request and start the timer for its ACK -/
def request (c : Conman) (m : CanMsg) (text : String) (sendOk : Bool) : Conman × List CanMsg :=
  if sendOk then
    ({ helper := { c.helper with ackTimer := true }, timeoutMessage := some text }, [m])
  else (c.die "can send error", [])

def connMsg (c : Conman) : CanMsg :=
  { CanMsg.zero with
    pri := 1, src := c.helper.srcaddr, dst := c.helper.dstaddr, type := .wo,
    object := objConsoleconn, data := .single c.helper.objid }

def consoleConnect (c : Conman) (sendOk : Bool) : Conman × List CanMsg :=
  c.request c.connMsg "CAN timeout waiting for connect ACK" sendOk

def datMsg (c : Conman) (data : Payload) : CanMsg :=
  { CanMsg.zero with
    pri := 1, src := c.helper.srcaddr, dst := c.helper.dstaddr, type := .dat,
    object := objConsolerecv, eot := true, data := data }

def consoleSendDat (c : Conman) (data : Payload) (sendOk : Bool) : Conman × List CanMsg :=
  c.request (c.datMsg data) "CAN timeout waiting for data ACK" sendOk

/-- `console_disconnect`, just before the process ends with `text` -/
def disconnect (c : Conman) (text : String) (sendOk : Bool) : Conman × List CanMsg :=
  if sendOk then (c.die text, [c.helper.consoleDisconnect]) else (c.die "write CONSOLEDISC", [])

def stdinCb (c : Conman) (r : ReadResult) (sendOk : Bool) : Conman × List CanMsg :=
  match r with
  | .eagain => (c, [])
  | .error => (c.die "read error on stdin", [])
  | .bytes data =>
    if data.bytes = [] then c.disconnect "EOF on stdin" sendOk
    else if sendOk then
      let (c', ms) := c.consoleSendDat data sendOk
      ({ c' with helper := { c'.helper with stdinWatcher := false } }, ms)
    else c.consoleSendDat data sendOk

def timeoutCb (c : Conman) : Conman := c.die (c.timeoutMessage.getD "CAN timeout")

/-- `can_cb`; an ACK that cannot be sent ends the process -/
def canCb (c : Conman) (m : CanMsg) (sendOk : Bool) : Conman × List CanMsg :=
  let (h, ms) := c.helper.canCb ⟨m, 0, 0⟩
  if ms = [] ∨ sendOk = true then ({ c with helper := h }, ms)
  else ({ c with helper := h }.die "can send error", [])

def recvTimeoutCb (c : Conman) (sendOk : Bool) : Conman × List CanMsg :=
  let (h, ms) := c.helper.recvTimeoutCb
  if sendOk then ({ c with helper := h }, ms)
  else if chunkIsComplete true c.helper.chunk.toList then
    ({ c with helper := h }.die "can send error", [])
  else ({ c with helper := h }.die "write CONSOLEDISC", [])

/-- Data go out only with the watcher stopped. -/
theorem stdinCb_cases (c : Conman) (r : ReadResult) (sendOk : Bool) :
    (r = .eagain ∧ c.stdinCb r sendOk = (c, [])) ∨
    (∃ data : Payload, r = .bytes data ∧ data.bytes ≠ [] ∧
      (c.stdinCb r sendOk).1.helper =
        { c.helper with ackTimer := true, stdinWatcher := false } ∧
      (c.stdinCb r sendOk).2 = [c.datMsg data]) ∨
    (∃ text, (c.stdinCb r sendOk).1.helper = { c.helper with died := some text } ∧
      ∀ m ∈ (c.stdinCb r sendOk).2, r = .bytes .empty ∧ m = c.helper.consoleDisconnect) := by
  unfold stdinCb
  cases r with
  | eagain => exact .inl ⟨rfl, rfl⟩
  | error => exact .inr (.inr ⟨_, rfl, fun m hm => absurd hm List.not_mem_nil⟩)
  | bytes data =>
    by_cases hd : data.bytes = []
    · simp only [hd, if_true]
      have hempty : data = .empty := by
        obtain ⟨bytes, _⟩ := data
        cases hd
        rfl
      unfold disconnect
      cases sendOk with
      | true =>
        exact .inr (.inr ⟨_, rfl, fun m hm => ⟨by rw [hempty], List.mem_singleton.mp hm⟩⟩)
      | false => exact .inr (.inr ⟨_, rfl, fun m hm => absurd hm List.not_mem_nil⟩)
    · simp only [hd, if_false]
      cases sendOk with
      | true => exact .inr (.inl ⟨data, rfl, hd, rfl, rfl⟩)
      | false => exact .inr (.inr ⟨_, rfl, fun m hm => absurd hm List.not_mem_nil⟩)

/-- A callback that has nothing to do with stdin: the watcher stays as it is, and nothing is sent
about the connection or the data. -/
structure Aside (c : Conman) (r : Conman × List CanMsg) : Prop where
  watcher : r.1.helper.stdinWatcher = c.helper.stdinWatcher
  objid : r.1.helper.objid = c.helper.objid
  alive : r.1.helper.alive = true → c.helper.alive = true
  sent : ∀ m ∈ r.2, m.type ≠ .dat ∧ (m.object = c.helper.objid ∨ m.object = objConsoledisc)

section
variable {c : Conman} {h : Helper} {ms : List CanMsg}

theorem aside_die (text : String) (hw : h.stdinWatcher = c.helper.stdinWatcher)
    (ho : h.objid = c.helper.objid) : c.Aside ({ c with helper := h }.die text, []) where
  watcher := hw
  objid := ho
  alive := fun ha => nomatch ha
  sent := fun _ hm => absurd hm List.not_mem_nil

/-- receiving console output and its timer -/
theorem recvTimeoutCb_aside (sendOk : Bool) : c.Aside (c.recvTimeoutCb sendOk) := by
  have hhelper : c.helper.recvTimeoutCb.1.stdinWatcher = c.helper.stdinWatcher ∧
      c.helper.recvTimeoutCb.1.objid = c.helper.objid := by
    unfold Helper.recvTimeoutCb
    dsimp only
    split <;> exact ⟨rfl, rfl⟩
  have hsent : ∀ m ∈ c.helper.recvTimeoutCb.2,
      m.type ≠ .dat ∧ (m.object = c.helper.objid ∨ m.object = objConsoledisc) := by
    unfold Helper.recvTimeoutCb
    dsimp only
    split
    · intro m hm
      rw [List.mem_singleton.mp hm]
      exact ⟨(fun h => nomatch h), .inl rfl⟩
    · intro m hm
      rw [List.mem_singleton.mp hm]
      exact ⟨(fun h => nomatch h), .inr rfl⟩
  have halive : c.helper.recvTimeoutCb.1.alive = true → c.helper.alive = true := by
    unfold Helper.recvTimeoutCb
    dsimp only
    split
    · exact fun ha => ha
    · exact fun ha => nomatch ha
  unfold recvTimeoutCb
  dsimp only
  split
  · exact ⟨hhelper.1, hhelper.2, halive, hsent⟩
  · split
    · exact aside_die _ hhelper.1 hhelper.2
    · exact aside_die _ hhelper.1 hhelper.2

theorem handleRecvDat_aside (h : Helper) (f : Frame) :
    (h.handleRecvDat f).1.stdinWatcher = h.stdinWatcher ∧
      (h.handleRecvDat f).1.objid = h.objid ∧ (h.handleRecvDat f).1.alive = h.alive ∧
      ∀ m ∈ (h.handleRecvDat f).2, m.type ≠ .dat ∧ m.object = h.objid := by
  unfold Helper.handleRecvDat
  dsimp only
  split
  · refine ⟨rfl, rfl, rfl, fun m hm => ?_⟩
    rw [List.mem_singleton.mp hm]
    exact ⟨(fun h => nomatch h), rfl⟩
  · exact ⟨rfl, rfl, rfl, fun m hm => absurd hm List.not_mem_nil⟩

end

/-- an ACK or NAK for what the helper sent -/
def Answer (c : Conman) (m : CanMsg) : Prop :=
  m.dst = c.helper.srcaddr ∧ m.src = c.helper.dstaddr ∧ (m.type = .ack ∨ m.type = .nak) ∧
    (m.object = objConsolerecv ∨ m.object = objConsoleconn)

/-- What a received message does: an ACK starts the stdin watcher, a NAK ends the process, and
anything else has nothing to do with stdin. -/
theorem canCb_cases (c : Conman) (m : CanMsg) (sendOk : Bool) :
    (c.Answer m ∧ m.type = .ack ∧
      c.canCb m sendOk =
        ({ c with helper := { c.helper with ackTimer := false, stdinWatcher := true } }, [])) ∨
    (¬ (c.Answer m ∧ m.type = .ack) ∧ c.Aside (c.canCb m sendOk)) := by
  have hrun : ∀ h ms, c.helper.canCb ⟨m, 0, 0⟩ = (h, ms) → c.canCb m sendOk =
      if ms = [] ∨ sendOk = true then ({ c with helper := h }, ms)
      else ({ c with helper := h }.die "can send error", []) := by
    intro h ms hh
    unfold canCb
    rw [hh]
  have hack : ∀ text, c.Answer m →
      c.helper.canCb ⟨m, 0, 0⟩ = (Helper.handleAck text c.helper m, []) →
      (c.Answer m ∧ m.type = .ack ∧ c.canCb m sendOk =
        ({ c with helper := { c.helper with ackTimer := false, stdinWatcher := true } }, [])) ∨
      (¬ (c.Answer m ∧ m.type = .ack) ∧ c.Aside (c.canCb m sendOk)) := by
    intro text ha hh
    have hc := hrun _ _ hh
    rw [if_pos (.inl rfl)] at hc
    unfold Helper.handleAck at hc
    rcases ha.2.2.1 with ht | ht
    · rw [if_neg (by rw [ht]; decide)] at hc
      exact .inl ⟨ha, ht, hc⟩
    · rw [if_pos ht] at hc
      refine .inr ⟨fun h => absurd (ht.symm.trans h.2) (by decide), ?_⟩
      rw [hc]
      exact aside_die text rfl rfl
  have hignored : ¬ c.Answer m → c.helper.canCb ⟨m, 0, 0⟩ = (c.helper, []) →
      (¬ (c.Answer m ∧ m.type = .ack) ∧ c.Aside (c.canCb m sendOk)) := by
    intro ha hh
    refine ⟨fun h => ha h.1, ?_⟩
    rw [hrun _ _ hh, if_pos (.inl rfl)]
    exact ⟨rfl, rfl, fun h => h, fun _ hm => absurd hm List.not_mem_nil⟩
  by_cases haddr : m.dst = c.helper.srcaddr ∧ m.src = c.helper.dstaddr
  · by_cases hdat : m.object = c.helper.objid ∧ m.type = .dat
    · have hh : c.helper.canCb ⟨m, 0, 0⟩ = c.helper.handleRecvDat ⟨m, 0, 0⟩ := by
        unfold Helper.canCb
        dsimp only
        rw [if_pos haddr, if_pos hdat]
      obtain ⟨h1, h2, h3, h4⟩ := handleRecvDat_aside c.helper ⟨m, 0, 0⟩
      refine .inr ⟨fun h => absurd (hdat.2.symm.trans h.2) (by decide), ?_⟩
      rw [hrun _ _ hh]
      split
      · exact ⟨h1, h2, fun ha => h3 ▸ ha, fun m' hm => ⟨(h4 m' hm).1, .inl (h4 m' hm).2⟩⟩
      · exact aside_die _ h1 h2
    · by_cases hsend : m.object = objConsolerecv ∧ (m.type = .ack ∨ m.type = .nak)
      · refine hack "received NAK to sent console data" ⟨haddr.1, haddr.2, hsend.2, .inl hsend.1⟩ ?_
        unfold Helper.canCb
        dsimp only
        rw [if_pos haddr, if_neg hdat, if_pos hsend]
        rfl
      · by_cases hconn : m.object = objConsoleconn ∧ (m.type = .ack ∨ m.type = .nak)
        · refine hack "received NAK - connection is probably broken"
            ⟨haddr.1, haddr.2, hconn.2, .inr hconn.1⟩ ?_
          unfold Helper.canCb
          dsimp only
          rw [if_pos haddr, if_neg hdat, if_neg hsend, if_pos hconn]
          rfl
        · refine .inr (hignored ?_ ?_)
          · rintro ⟨_, _, ht, ho | ho⟩
            · exact hsend ⟨ho, ht⟩
            · exact hconn ⟨ho, ht⟩
          · unfold Helper.canCb
            dsimp only
            rw [if_pos haddr, if_neg hdat, if_neg hsend, if_neg hconn]
  · refine .inr (hignored (fun h => haddr ⟨h.1, h.2.1⟩) ?_)
    unfold Helper.canCb
    dsimp only
    rw [if_neg haddr]

end Conman

end Bramble
