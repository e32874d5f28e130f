import Bramble.Firmware.Services
import Bramble.Lib.Ring

/-!
# `bramble canping` (`cmd/canping.c`)

Once a second `timer_cb` sends an echo request with the next number and stores the time in a ring of
256 slots; `can_cb` prints a line for each reply, with the time since the number in it was sent.

* `canping_state`      the next number and the ring, after any events;
* `echo_acked`         a node's reply to a request carries its number;
* `RightlyTimed`       a printed time is the time since that request, and a number that was not sent
                       is reported as such;
* `rightly_timed_iff`  it is unless a reply carries the next number, or one whose slot has been used
                       again.
-/

namespace Bramble

/-! ## the command -/

/-- `htobe32`, and the bytes in memory -/
def htobe32 (v : UInt32) : List UInt8 :=
  [(v >>> 24).toUInt8, (v >>> 16).toUInt8, (v >>> 8).toUInt8, v.toUInt8]

/-- `be32toh` of the first four bytes -/
def be32toh (bytes : List UInt8) : UInt32 :=
  UInt32.ofNat ((bytes.take 4).foldl (fun n c => 256 * n + c.toNat) 0)

structure Canping where
  srcaddr : Addr
  dstaddr : Addr
  /-- number of the next request -/
  sequence : UInt32
  timestamp : Fin 256 → ℚ

/-- after the command line has been read -/
def Canping.init (srcaddr dstaddr : Addr) : Canping := ⟨srcaddr, dstaddr, 0, fun _ => 0⟩

/-- the lines that `can_cb` prints -/
inductive PingLine where
  | nak (dlen : Nat) (src : Addr)
  | runt (dlen : Nat) (src : Addr)
  /-- higher than sent -/
  | higher (dlen : Nat) (src : Addr) (seq : UInt32)
  | time (dlen : Nat) (src : Addr) (seq : UInt32) (t : ℚ)
  deriving DecidableEq

namespace Canping

/-- `can_cb`, with the message from `can_recv` and the clock -/
def canCb (s : Canping) (msg : CanMsg) (now : ℚ) : Option PingLine :=
  if msg.dst ≠ s.srcaddr ∨ msg.src ≠ s.dstaddr then none
  else if msg.object ≠ objEcho then none
  else if msg.type ≠ .nak ∧ msg.type ≠ .ack then none
  else if msg.type = .nak then some (.nak msg.dlen msg.src)
  else if msg.dlen < 4 then some (.runt msg.dlen msg.src)
  else
    let seq := be32toh msg.data.bytes
    if s.sequence < seq then some (.higher msg.dlen msg.src seq)
    else
      let t := now - s.timestamp (Fin.ofNat 256 seq.toNat)
      some (.time msg.dlen msg.src seq t)

/-- the request that `timer_cb` sends -/
def request (s : Canping) : CanMsg :=
  { CanMsg.zero with
    pri := 1
    src := s.srcaddr
    dst := s.dstaddr
    type := .wo
    object := objEcho
    data := .ofList (htobe32 s.sequence ++ [0xff, 0xff, 0xff]) }

/-- `timer_cb` -/
def timerCb (s : Canping) (now : ℚ) : Canping × CanMsg :=
  ({ s with
    timestamp := Function.update s.timestamp (Fin.ofNat 256 s.sequence.toNat) now
    sequence := s.sequence + 1 }, s.request)

end Canping

/-- What the event loop calls, with the clock when it is read.  A callback that dies ends the run. -/
inductive PingEvent where
  | timer (now : ℚ)
  | message (msg : CanMsg) (now : ℚ)

def Canping.step (s : Canping) : PingEvent → Canping
  | .timer now => (s.timerCb now).1
  | .message _ _ => s

/-- the state after some events -/
def Canping.after (srcaddr dstaddr : Addr) (past : List PingEvent) : Canping :=
  past.foldl Canping.step (.init srcaddr dstaddr)

def sendTimes (past : List PingEvent) : List ℚ :=
  past.filterMap fun
    | .timer now => some now
    | .message _ _ => none

/-- the number in an acknowledgement of our peer -/
def Canping.acked (s : Canping) (msg : CanMsg) : Option UInt32 :=
  if msg.dst = s.srcaddr ∧ msg.src = s.dstaddr ∧ msg.object = objEcho ∧ msg.type = .ack ∧
      4 ≤ msg.dlen then
    some (be32toh msg.data.bytes)
  else none

/-! ## numbers -/

theorem be32toh_htobe32 (v : UInt32) (rest : List UInt8) : be32toh (htobe32 v ++ rest) = v := by
  apply UInt32.toNat_inj.mp
  show (UInt32.ofNat (256 * (256 * (256 * (256 * 0 + (v >>> 24).toUInt8.toNat) +
    (v >>> 16).toUInt8.toNat) + (v >>> 8).toUInt8.toNat) + v.toUInt8.toNat)).toNat = v.toNat
  have hv := v.toNat_lt
  rw [UInt32.toNat_toUInt8, UInt32.toNat_toUInt8, UInt32.toNat_toUInt8, UInt32.toNat_toUInt8,
    UInt32.toNat_shiftRight, UInt32.toNat_shiftRight, UInt32.toNat_shiftRight, UInt32.toNat_ofNat']
  show (256 * (256 * (256 * (256 * 0 + v.toNat >>> 24 % 256) + v.toNat >>> 16 % 256) +
    v.toNat >>> 8 % 256) + v.toNat % 256) % 2^32 = v.toNat
  simp only [Nat.shiftRight_eq_div_pow]
  omega

section
variable {s : Canping} {msg : CanMsg} {now : ℚ}

theorem canCb_acked {seq : UInt32} (h : s.acked msg = some seq) : s.canCb msg now =
    if s.sequence < seq then some (.higher msg.dlen msg.src seq)
    else some (.time msg.dlen msg.src seq (now - s.timestamp (Fin.ofNat 256 seq.toNat))) := by
  obtain ⟨⟨hdst, hsrc, hobject, htype, hlen⟩, hseq⟩ := Option.ite_none_right_eq_some.mp h
  cases hseq
  have haddr : ¬ (msg.dst ≠ s.srcaddr ∨ msg.src ≠ s.dstaddr) := by
    rw [hdst, hsrc]
    simp
  have hack : ¬ (msg.type ≠ .nak ∧ msg.type ≠ .ack) := fun h => h.2 htype
  have hnak : ¬ msg.type = .nak := by rw [htype]; decide
  unfold Canping.canCb
  rw [if_neg haddr, if_neg (not_not.mpr hobject), if_neg hack, if_neg hnak,
    if_neg (Nat.not_lt.mpr hlen)]

theorem acked_of_time {dlen : Nat} {src : Addr} {seq : UInt32} {t : ℚ}
    (h : s.canCb msg now = some (.time dlen src seq t)) : s.acked msg = some seq := by
  unfold Canping.canCb at h
  split_ifs at h with haddr hobject hother hnak hlen
  · cases h
  · cases h
  · obtain ⟨hdst, hsrc⟩ := not_or.mp haddr
    have htype : msg.type = .ack := by
      by_contra hack
      exact hother ⟨hnak, hack⟩
    have hseq : be32toh msg.data.bytes = seq := by
      dsimp only at h
      split at h
      · cases h
      · cases h
        rfl
    rw [← hseq]
    exact if_pos ⟨not_not.mp hdst, not_not.mp hsrc, not_not.mp hobject, htype, Nat.not_lt.mp hlen⟩

/-- **A node's reply to a request carries its number.** -/
theorem echo_acked (fw : Fw) (h : fw.srcaddr = s.dstaddr) :
    ∃ reply, (canservicesRxTask fw s.request).2 = [.send reply] ∧ s.acked reply = some s.sequence := by
  refine ⟨{ s.request with type := .ack, dst := s.request.src, src := fw.srcaddr }, rfl, ?_⟩
  have hnumber : be32toh s.request.data.bytes = s.sequence := be32toh_htobe32 s.sequence _
  have hlen : 4 ≤ s.request.dlen := by
    show 4 ≤ ((htobe32 s.sequence ++ [0xff, 0xff, 0xff]).take 8).length
    rw [List.length_take, List.length_append]
    exact Nat.le_min.mpr ⟨by decide, Nat.le_add_right 4 3⟩
  rw [Canping.acked, if_pos ⟨rfl, h, rfl, rfl, hlen⟩]
  exact congrArg some hnumber

end

/-! ## after any events -/

section
variable (srcaddr dstaddr : Addr)

/-- **The next number, and the ring** -/
theorem canping_state {past : List PingEvent} (h : (sendTimes past).length < 2^32) :
    (Canping.after srcaddr dstaddr past).srcaddr = srcaddr ∧
    (Canping.after srcaddr dstaddr past).dstaddr = dstaddr ∧
    (Canping.after srcaddr dstaddr past).sequence.toNat = (sendTimes past).length ∧
    Ring.Holds (Canping.after srcaddr dstaddr past).timestamp (sendTimes past) := by
  induction past using List.reverseRecOn with
  | nil => exact ⟨rfl, rfl, rfl, Ring.Holds.nil _⟩
  | append_singleton past e ih =>
    have hafter : Canping.after srcaddr dstaddr (past ++ [e]) =
        (Canping.after srcaddr dstaddr past).step e := by
      rw [Canping.after, List.foldl_append]
      rfl
    rw [hafter]
    cases e with
    | timer now =>
      have htimes : sendTimes (past ++ [.timer now]) = sendTimes past ++ [now] :=
        List.filterMap_append
      rw [htimes, List.length_append, List.length_singleton] at h ⊢
      obtain ⟨hsrc, hdst, hnumber, hring⟩ := ih (by omega)
      refine ⟨hsrc, hdst, ?_, ?_⟩
      · show ((Canping.after srcaddr dstaddr past).sequence + 1).toNat = _
        rw [UInt32.toNat_add, hnumber]
        exact Nat.mod_eq_of_lt h
      · show Ring.Holds (Function.update _ (Fin.ofNat 256
          (Canping.after srcaddr dstaddr past).sequence.toNat) now) _
        rw [hnumber]
        exact hring.write now
    | message msg now =>
      have htimes : sendTimes (past ++ [.message msg now]) = sendTimes past := by
        rw [sendTimes, List.filterMap_append]
        exact List.append_nil _
      rw [htimes] at h ⊢
      exact ih h

/-- What is printed for a message after `past` is right: a time is the time since the request with
that number, and the number of an acknowledgement that has not been sent is reported as such. -/
structure RightLine (past : List PingEvent) (msg : CanMsg) (now : ℚ) : Prop where
  time : ∀ dlen src seq t,
    (Canping.after srcaddr dstaddr past).canCb msg now = some (.time dlen src seq t) →
      ∃ sent, (sendTimes past)[seq.toNat]? = some sent ∧ t = now - sent
  higher : ∀ seq, (Canping.after srcaddr dstaddr past).acked msg = some seq →
    (sendTimes past).length ≤ seq.toNat →
      (Canping.after srcaddr dstaddr past).canCb msg now = some (.higher msg.dlen msg.src seq)

/-- in every run of the events -/
def RightlyTimed (es : List PingEvent) : Prop :=
  ∀ past msg now rest, es = past ++ .message msg now :: rest → RightLine srcaddr dstaddr past msg now

/-- `n` is not the number of the next request, and if 256 requests or more were sent after the
request `n`, the last one in its slot was sent at the same time. -/
def Timely (sent : List ℚ) (n : Nat) : Prop :=
  n ≠ sent.length ∧
    (n + 256 < sent.length → sent[Ring.newest 256 n sent.length]? = sent[n]?)

/-- all numbers that are acknowledged -/
def TimelyAcked (es : List PingEvent) : Prop :=
  ∀ past msg now rest, es = past ++ .message msg now :: rest →
    ∀ seq, (Canping.after srcaddr dstaddr past).acked msg = some seq → Timely (sendTimes past) seq.toNat

/-- With a clock that goes on between requests, a number is timely as long as its slot is. -/
theorem timely_iff {sent : List ℚ} (hclock : sent.Pairwise (· < ·)) (n : Nat) :
    Timely sent n ↔ n ≠ sent.length ∧ sent.length ≤ n + 256 := by
  refine and_congr_right fun _ => ?_
  constructor
  · intro h
    by_contra hlate
    have hn : n < sent.length := by omega
    have hlt : Ring.newest 256 n sent.length < sent.length := Ring.newest_lt hn
    have hle : sent.length ≤ Ring.newest 256 n sent.length + 256 := Ring.le_newest n sent.length
    have heq := h (by omega)
    rw [List.getElem?_eq_getElem hlt, List.getElem?_eq_getElem hn] at heq
    have hmono := List.pairwise_iff_getElem.mp hclock n _ hn hlt (by omega)
    exact absurd (Option.some.inj heq) (ne_of_gt hmono)
  · intro h hlate
    omega

theorem rightLine_iff {past : List PingEvent} (h : (sendTimes past).length < 2^32) (msg : CanMsg)
    (now : ℚ) : RightLine srcaddr dstaddr past msg now ↔
      ∀ seq, (Canping.after srcaddr dstaddr past).acked msg = some seq →
        Timely (sendTimes past) seq.toNat := by
  obtain ⟨_, _, hnumber, hring⟩ := canping_state srcaddr dstaddr h
  have hlt (seq : UInt32) : (Canping.after srcaddr dstaddr past).sequence < seq ↔
      (sendTimes past).length < seq.toNat := by
    rw [UInt32.lt_iff_toNat_lt, hnumber]
  constructor
  · intro hline seq hseq
    have hcb : (Canping.after srcaddr dstaddr past).canCb msg now = _ := canCb_acked hseq
    constructor
    · intro heq
      have hhigher := hline.higher seq hseq heq.ge
      rw [hcb, if_neg fun hsent => Nat.ne_of_gt ((hlt seq).mp hsent) heq] at hhigher
      cases hhigher
    · intro hlate
      have hn : seq.toNat < (sendTimes past).length := by omega
      rw [if_neg fun hsent => Nat.lt_asymm hn ((hlt seq).mp hsent)] at hcb
      obtain ⟨sent, hsent, ht⟩ := hline.time _ _ _ _ hcb
      rw [hring.slot hn, hsent]
      exact congrArg some (sub_right_injective ht)
  · intro htimely
    constructor
    · intro dlen src seq t htime
      have hseq := acked_of_time htime
      obtain ⟨hne, hlate⟩ := htimely seq hseq
      rw [canCb_acked hseq] at htime
      split at htime
      · cases htime
      · rename_i hle
        cases htime
        rw [hlt] at hle
        have hn : seq.toNat < (sendTimes past).length := by omega
        refine ⟨_, ?_, rfl⟩
        rw [← hring.slot hn]
        by_cases hold : seq.toNat + 256 < (sendTimes past).length
        · exact (hlate hold).symm
        · rw [Ring.newest_of_le hn (Nat.not_lt.mp hold)]
    · intro seq hseq hunsent
      obtain ⟨hne, _⟩ := htimely seq hseq
      rw [canCb_acked hseq, if_pos ((hlt seq).mpr (by omega))]

/-- **When `canping` times each echo against its own request.**  It does in exactly the runs in which
no acknowledgement carries the number of the next request, nor one whose slot holds the time of a
later request that was sent at another time. -/
theorem rightly_timed_iff (es : List PingEvent) (h : (sendTimes es).length < 2^32) :
    RightlyTimed srcaddr dstaddr es ↔ TimelyAcked srcaddr dstaddr es := by
  have hpast {past rest : List PingEvent} {e : PingEvent} (hes : es = past ++ e :: rest) :
      (sendTimes past).length < 2^32 := by
    rw [hes, sendTimes, List.filterMap_append, List.length_append] at h
    exact Nat.lt_of_le_of_lt (Nat.le_add_right _ _) h
  constructor
  · intro hright past msg now rest hes
    exact (rightLine_iff srcaddr dstaddr (hpast hes) msg now).mp (hright past msg now rest hes)
  · intro htimely past msg now rest hes
    exact (rightLine_iff srcaddr dstaddr (hpast hes) msg now).mpr (htimely past msg now rest hes)

end

/-- an acknowledgement of the request `n` -/
def echoReply (n : UInt32) : CanMsg :=
  { CanMsg.zero with
    dst := 0x20
    src := 0x13
    type := .ack
    object := objEcho
    data := .ofList (htobe32 n ++ [0xff, 0xff, 0xff]) }

theorem echoReply_acked (n : UInt32) (past : List PingEvent) (h : (sendTimes past).length < 2^32) :
    (Canping.after 0x20 0x13 past).acked (echoReply n) = some n := by
  obtain ⟨hsrc, hdst, _, _⟩ := canping_state 0x20 0x13 h
  rw [Canping.acked, hsrc, hdst, if_pos ⟨rfl, rfl, rfl, rfl, Nat.le_add_left 4 3⟩]
  exact congrArg some (be32toh_htobe32 n _)

theorem rightly_timed_one :
    RightlyTimed 0x20 0x13 [.timer 1, .message (echoReply 0) (3 / 2)] := by
  refine (rightly_timed_iff 0x20 0x13 _ (by decide)).mpr ?_
  intro past msg now rest hes seq hseq
  rcases past with _ | ⟨e, _ | ⟨e', past⟩⟩
  · cases hes
  · cases hes
    rw [echoReply_acked 0 [.timer 1] (by decide)] at hseq
    cases hseq
    exact ⟨by decide, fun hlate => absurd hlate (by decide)⟩
  · simp at hes

/-- **A reply with the number 1 after one request, which has the number 0, is timed.** -/
theorem rightly_timed_fails : ¬ ∀ (srcaddr dstaddr : Addr) (es : List PingEvent),
    (sendTimes es).length < 2^32 → RightlyTimed srcaddr dstaddr es := by
  intro h
  have hline := h 0x20 0x13 [.timer 1, .message (echoReply 1) (3 / 2)] (by decide) [.timer 1]
    (echoReply 1) (3 / 2) [] rfl
  have htimely := (rightLine_iff 0x20 0x13 (by decide) (echoReply 1) (3 / 2)).mp hline 1
    (echoReply_acked 1 [.timer 1] (by decide))
  exact htimely.1 rfl

end Bramble
