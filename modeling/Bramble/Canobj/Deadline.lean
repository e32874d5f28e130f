import Bramble.CanId
import Bramble.Canobj.Model
import Bramble.Lib.Loop

/-!
# The deadline of a CAN object operation (`libbramble/canobj.c`)

`canobj_write` and `canobj_read` send a request, and take messages from the socket until one matches
or half a second is over.  What `poll`, `read`, `write` and the clock return is given by the
surroundings, call by call.

* `canRecvTimeout`, `Canobj.turn`   one round of the receive loop;
* `Canobj.operate`                  the operation;
* `EndsAtDeadline`                  it ends with an error, and takes nothing from the socket in a
                                    round whose reading of the clock has reached the timeout;
* `Lull`                            a round finds nothing, at the latest the first such round;
* `ends_at_deadline_iff`            while no message matches, the one says the same as the other.
-/

namespace Bramble

/-- `poll` for the socket, and `read` after it -/
inductive Poll where
  | fails
  | expires
  /-- `read` returns `n` and fills the frame -/
  | readable (n : Int) (fr : CanFrame)

structure Surroundings where
  /-- the readings of the clock, in seconds -/
  monotime : Nat → ℚ
  /-- the polls, which take a timeout in ms -/
  poll : Nat → Int → Poll
  /-- how many bytes of a frame the socket takes -/
  write : CanFrame → Int
  /-- the data bytes of a frame before they are set -/
  stale : Vector UInt8 8

inductive OpError where
  | call (e : Errno)
  | send (e : CanErr)
  | poll
  | timedout
  | recv (e : CanErr)
  deriving DecidableEq

/-- `DEFAULT_TIMEOUT` -/
def defaultTimeout : ℚ := 1 / 2

/-- what is left of the timeout, in a round -/
def timeleft (tmout since : ℚ) : ℚ :=
  let timeleft := tmout - since
  if timeleft < 0 ∧ 0 ≤ tmout then 0 else timeleft

/-- `timeout * 1E3` as an `int` -/
def msec (timeout : ℚ) : Int := (timeout * 1000).num.tdiv (timeout * 1000).den

def canRecvTimeout (poll : Int → Poll) (timeout : ℚ) : Except OpError CanMsg :=
  match poll (msec timeout) with
  | .fails => .error .poll
  | .expires => .error .timedout
  | .readable n fr => (canRecv n fr).mapError .recv

namespace Surroundings

/-- `monotime_since (t_start)` in the round `k` -/
def since (env : Surroundings) (k : Nat) : ℚ := env.monotime (k + 1) - env.monotime 0

/-- `can_recv_timeout` in the round `k` -/
def recv (env : Surroundings) (k : Nat) : Except OpError CanMsg :=
  canRecvTimeout (env.poll k) (timeleft defaultTimeout (env.since k))

/-- in the round `k`, a frame is there in time, and it is well formed -/
def Readable (env : Surroundings) (k : Nat) : Prop :=
  ∃ n fr msg, env.poll k (msec (timeleft defaultTimeout (env.since k))) = .readable n fr ∧
    canRecv n fr = .ok msg

/-- Nothing is there in time in some round, which no reading past the timeout comes before. -/
def Lull (env : Surroundings) : Prop :=
  ∃ n, (∀ j < n, env.since j < defaultTimeout) ∧ ¬ env.Readable n

theorem recv_ok {env : Surroundings} {k : Nat} {msg : CanMsg} : env.recv k = .ok msg ↔
    ∃ n fr, env.poll k (msec (timeleft defaultTimeout (env.since k))) = .readable n fr ∧
      canRecv n fr = .ok msg := by
  unfold recv canRecvTimeout
  cases env.poll k (msec (timeleft defaultTimeout (env.since k))) with
  | fails => simp
  | expires => simp
  | readable n fr =>
    cases hfr : canRecv n fr with
    | error e => simp [Except.mapError, hfr]
    | ok m => simp [Except.mapError, hfr]

theorem readable_iff {env : Surroundings} {k : Nat} :
    env.Readable k ↔ ∃ msg, env.recv k = .ok msg := by
  constructor
  · rintro ⟨n, fr, msg, hpoll, hmsg⟩
    exact ⟨msg, recv_ok.mpr ⟨n, fr, hpoll, hmsg⟩⟩
  · rintro ⟨msg, hmsg⟩
    obtain ⟨n, fr, hpoll, hfr⟩ := recv_ok.mp hmsg
    exact ⟨n, fr, msg, hpoll, hfr⟩

end Surroundings

namespace Canobj

/-- one round of the receive loop; `none` goes on -/
def turn (obj : Canobj) (env : Surroundings) (k : Nat) : Option (Except OpError CanMsg) :=
  match env.recv k with
  | .error e => some (.error e)
  | .ok msg => if obj.matched msg then some (.ok msg) else none

/-- the operation in at most `fuel` rounds: the round in which it ended, and its result -/
def operate (obj : Canobj) (env : Surroundings) (c : Call) (fuel : Nat) :
    Option (Nat × Except OpError (List UInt8)) :=
  match obj.request c with
  | .error e => some (0, .error (.call e))
  | .ok msg =>
    match canSend env.write env.stale msg with
    | .error e => some (0, .error (.send e))
    | .ok () =>
      (loop (obj.turn env) fuel 0).map fun r =>
        (r.1, r.2.bind fun msg => (c.finish msg).mapError .call)

/-- `canobj_write (obj, data, len)` -/
def canobjWrite (obj : Canobj) (env : Surroundings) (data : List UInt8) (fuel : Nat) :
    Option (Nat × Except OpError (List UInt8)) :=
  obj.operate env (.write data) fuel

/-- `canobj_read (obj, data, len)` -/
def canobjRead (obj : Canobj) (env : Surroundings) (len : Int) (fuel : Nat) :
    Option (Nat × Except OpError (List UInt8)) :=
  obj.operate env (.read len) fuel

def Unrelated (obj : Canobj) (env : Surroundings) : Prop :=
  ∀ k msec n fr msg, env.poll k msec = .readable n fr → canRecv n fr = .ok msg →
    obj.matched msg = false

/-- **The operation ends with an error.**  It goes no further round once a reading of the clock has
reached the timeout. -/
def EndsAtDeadline (env : Surroundings)
    (op : Nat → Option (Nat × Except OpError (List UInt8))) : Prop :=
  ∃ fuel n e, op fuel = some (n, .error e) ∧ ∀ j < n, env.since j < defaultTimeout

/-- the operation comes to its receive loop -/
def Sends (obj : Canobj) (env : Surroundings) (c : Call) : Prop :=
  ∃ msg, obj.request c = .ok msg ∧ canSend env.write env.stale msg = .ok ()

section
variable {obj : Canobj} {env : Surroundings} {c : Call}

theorem operate_sends (h : obj.Sends env c) (fuel : Nat) : obj.operate env c fuel =
    (loop (obj.turn env) fuel 0).map fun r =>
      (r.1, r.2.bind fun msg => (c.finish msg).mapError .call) := by
  obtain ⟨msg, hmsg, hsend⟩ := h
  unfold operate
  rw [hmsg]
  simp only [hsend]

theorem operate_not_sends (h : ¬ obj.Sends env c) :
    ∃ e, ∀ fuel, obj.operate env c fuel = some (0, .error e) := by
  unfold operate
  cases hmsg : obj.request c with
  | error e => exact ⟨.call e, fun _ => rfl⟩
  | ok msg =>
    cases hsend : canSend env.write env.stale msg with
    | error e => exact ⟨.send e, fun _ => by simp only [hsend]⟩
    | ok u => exact absurd ⟨msg, hmsg, hsend⟩ h

/-- a round goes on exactly if it finds a frame -/
theorem turn_unrelated (h : obj.Unrelated env) (k : Nat) :
    (env.Readable k ∧ obj.turn env k = none) ∨
      ¬ env.Readable k ∧ ∃ e, obj.turn env k = some (.error e) := by
  rw [Surroundings.readable_iff]
  unfold turn
  cases hr : env.recv k with
  | error e => exact .inr ⟨fun hex => (by obtain ⟨msg, hmsg⟩ := hex; cases hmsg), e, rfl⟩
  | ok msg =>
    obtain ⟨n, fr, hpoll, hfr⟩ := Surroundings.recv_ok.mp hr
    refine .inl ⟨⟨msg, rfl⟩, ?_⟩
    exact if_neg (by rw [h k _ n fr msg hpoll hfr]; exact Bool.false_ne_true)

/-- the first round that finds nothing -/
theorem first_error (h : obj.Unrelated env) {n : Nat} (hn : ¬ env.Readable n) :
    ∃ k ≤ n, (∀ j < k, obj.turn env j = none) ∧ ∃ e, obj.turn env k = some (.error e) := by
  induction n using Nat.strong_induction_on with
  | _ n ih =>
    by_cases hall : ∀ j < n, env.Readable j
    · refine ⟨n, Nat.le_refl n, fun j hj => ?_, ?_⟩
      · rcases turn_unrelated h j with ⟨_, ht⟩ | ⟨hno, _⟩
        · exact ht
        · exact absurd (hall j hj) hno
      · rcases turn_unrelated h n with ⟨hyes, _⟩ | ⟨_, he⟩
        · exact absurd hyes hn
        · exact he
    · obtain ⟨j, hj, hno⟩ : ∃ j < n, ¬ env.Readable j := by
        push Not at hall
        exact hall
      obtain ⟨k, hk, hrest⟩ := ih j hj hno
      exact ⟨k, Nat.le_trans hk (Nat.le_of_lt hj), hrest⟩

theorem endsAtDeadline_iff (h : obj.Unrelated env) (hs : obj.Sends env c) :
    EndsAtDeadline env (obj.operate env c) ↔ env.Lull := by
  constructor
  · rintro ⟨fuel, n, e, hop, hbefore⟩
    rw [operate_sends hs] at hop
    obtain ⟨r, hr, heq⟩ := Option.map_eq_some_iff.mp hop
    obtain ⟨rfl, _⟩ := Prod.mk.inj heq
    have hend := (loop_some.mp ⟨fuel, hr⟩).2
    refine ⟨r.1, hbefore, fun hread => ?_⟩
    rcases turn_unrelated h r.1 with ⟨_, ht⟩ | ⟨hno, _⟩
    · rw [ht] at hend
      cases hend
    · exact hno hread
  · rintro ⟨n, hbefore, hn⟩
    obtain ⟨k, hk, hgo, e, he⟩ := first_error h hn
    obtain ⟨fuel, hfuel⟩ := loop_some.mpr ⟨hgo, he⟩
    refine ⟨fuel, k, e, ?_, fun j hj => hbefore j (Nat.lt_of_lt_of_le hj hk)⟩
    rw [operate_sends hs, hfuel]
    rfl

/-- **While frames keep coming, the operation does not return.** -/
theorem operate_forever (h : obj.Unrelated env) (hs : obj.Sends env c)
    (hall : ∀ k, env.Readable k) (fuel : Nat) : obj.operate env c fuel = none := by
  have hgo : ∀ k, obj.turn env k = none := by
    intro k
    rcases turn_unrelated h k with ⟨_, ht⟩ | ⟨hno, _⟩
    · exact ht
    · exact absurd (hall k) hno
  rw [operate_sends hs, loop_forever.mpr hgo fuel]
  rfl

theorem operate_iff (h : obj.Unrelated env) :
    EndsAtDeadline env (obj.operate env c) ↔ (obj.Sends env c → env.Lull) := by
  by_cases hs : obj.Sends env c
  · rw [imp_iff_right hs]
    exact endsAtDeadline_iff h hs
  · refine iff_of_true ?_ fun h => absurd h hs
    obtain ⟨e, he⟩ := operate_not_sends hs
    exact ⟨0, 0, e, he 0, fun j hj => absurd hj (Nat.not_lt_zero j)⟩

end

end Canobj

open Canobj

/-- **The operations end at their deadline exactly if the traffic leaves a gap until then**, or the
request cannot be sent.  The messages that arrive match neither. -/
theorem ends_at_deadline_iff (obj : Canobj) (env : Surroundings) (h : obj.Unrelated env) :
    (∀ data, EndsAtDeadline env (obj.canobjWrite env data) ↔
        (obj.Sends env (.write data) → env.Lull)) ∧
      ∀ len, EndsAtDeadline env (obj.canobjRead env len) ↔
        (obj.Sends env (.read len) → env.Lull) :=
  ⟨fun _ => operate_iff h, fun _ => operate_iff h⟩

/-- console output of a node -/
def chatter : CanMsg :=
  { CanMsg.zero with type := .dat, src := 0x11, dst := 0x21, object := objConsolesend }

/-- The clock is read ten times a second, and the `k`-th poll finds console output if `busy k`. -/
def chattering (busy : Nat → Bool) : Surroundings where
  monotime k := k / 10
  poll k _ :=
    if busy k then .readable canFrameSize (canSendFrame (Vector.replicate 8 0) chatter) else .expires
  write _ := canFrameSize
  stale := Vector.replicate 8 0

/-- the power of that node -/
def powerObj : Canobj := ⟨0x21, 0x11, objPower⟩

theorem chattering_unrelated (busy : Nat → Bool) : powerObj.Unrelated (chattering busy) := by
  intro k _ n fr msg hpoll hmsg
  replace hpoll : (if busy k then Poll.readable canFrameSize (canSendFrame _ chatter) else .expires) =
      .readable n fr := hpoll
  split at hpoll
  · cases hpoll
    rw [canRecv_canSendFrame] at hmsg
    cases hmsg
    decide
  · cases hpoll

theorem chattering_since (busy : Nat → Bool) (k : Nat) :
    (chattering busy).since k = (k + 1 : ℚ) / 10 := by
  show (((k + 1 : Nat) : ℚ) / 10 - ((0 : Nat) : ℚ) / 10) = _
  push_cast
  ring

theorem chattering_sends (busy : Nat → Bool) (len : Int) (h0 : 0 ≤ len) (h8 : len ≤ 8) :
    powerObj.Sends (chattering busy) (.read len) := by
  refine ⟨_, if_neg (by omega), rfl⟩

/-- console output in the first two polls, then none -/
theorem ends_at_deadline_pause : EndsAtDeadline (chattering (· < 2))
    (powerObj.canobjRead (chattering (· < 2)) 8) := by
  refine ((ends_at_deadline_iff powerObj _ (chattering_unrelated _)).2 8).mpr fun _ => ⟨2, ?_, ?_⟩
  · intro j hj
    rw [chattering_since]
    unfold defaultTimeout
    interval_cases j <;> norm_num
  · rintro ⟨n, fr, msg, hpoll, _⟩
    cases hpoll

/-- The node prints without a pause: the read of its power never returns. -/
theorem ends_at_deadline_fails : ¬ ∀ (obj : Canobj) (env : Surroundings), obj.Unrelated env →
    (∃ k, ∀ j, k ≤ j → defaultTimeout < env.since j) →
    (∀ data, EndsAtDeadline env (obj.canobjWrite env data)) ∧
      ∀ len, EndsAtDeadline env (obj.canobjRead env len) := by
  intro h
  have hclock : ∀ j, 5 ≤ j → defaultTimeout < (chattering fun _ => true).since j := by
    intro j hj
    have hj : (5 : ℚ) ≤ j := by exact_mod_cast hj
    rw [chattering_since]
    unfold defaultTimeout
    linarith
  obtain ⟨fuel, n, e, hop, _⟩ :=
    (h powerObj (chattering fun _ => true) (chattering_unrelated _) ⟨5, hclock⟩).2 8
  have hforever := operate_forever (chattering_unrelated fun _ => true)
    (chattering_sends _ 8 (by decide) (by decide))
    (fun k => ⟨_, _, _, rfl, canRecv_canSendFrame _ chatter⟩) fuel
  cases hforever.symm.trans hop

end Bramble
