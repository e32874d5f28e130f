import Bramble.Helper.Console

/-!
# Reassembly of a burst in the chunk array

* `Numbered`          the messages of a burst: `seq` 0, 1, 2, .., data in each, `eot` on the last;
* `slots`             the chunk array after some of the messages of a burst have arrived;
* `chunkIsComplete_slots`, `writeChunk_slots`, `slots_set`  what the two scans and the store do;
* `handleRecvDat_more`, `handleRecvDat_last`  one arrival: before the last one and at the last one;
* `reassembles`       any arrivals drawn from a burst: nothing until all of it has arrived, then all
                      of it.
-/

namespace Bramble

/-- messages of one burst, the first numbered `k`: the rest of it if `eot` has not been seen -/
def Numbered : Nat → List Frame → Prop
  | _, [] => True
  | k, f :: fs => f.msg.seq.val = k ∧ 0 < f.msg.dlen ∧ (f.msg.eot = true → fs = []) ∧
      Numbered (k + 1) fs

/-- the last message has been seen -/
def hasEot (fs : List Frame) : Bool := fs.any fun f => f.msg.eot

/-- the chunk array when exactly the messages of `cur` that meet `D` have arrived -/
def slots (cur : List Frame) (D : Frame → Bool) : List Frame :=
  cur.map (fun f => if D f then f else Frame.zero) ++ List.replicate (16 - cur.length) Frame.zero

theorem Numbered.append {k : Nat} {fs : List Frame} {f : Frame} (h : Numbered k fs)
    (he : hasEot fs = false) (hs : f.msg.seq.val = k + fs.length) (hd : 0 < f.msg.dlen) :
    Numbered k (fs ++ [f]) := by
  induction fs generalizing k with
  | nil => exact ⟨by simpa using hs, hd, fun _ => rfl, trivial⟩
  | cons g gs ih =>
    obtain ⟨h1, h2, h3, h4⟩ := h
    have he' : g.msg.eot = false ∧ hasEot gs = false := by simpa [hasEot] using he
    refine ⟨h1, h2, fun h => ?_, ih h4 he'.2 ?_⟩
    · rw [he'.1] at h
      cases h
    · rw [hs, List.length_cons]
      omega

theorem Numbered.seq {k : Nat} {fs : List Frame} (h : Numbered k fs) (i : Nat)
    (hi : i < fs.length) : fs[i].msg.seq.val = k + i := by
  induction fs generalizing k i with
  | nil => cases hi
  | cons f fs ih =>
    cases i with
    | zero => exact h.1
    | succ i =>
      have := ih h.2.2.2 i (by simpa using hi)
      rw [List.getElem_cons_succ, this]
      omega

theorem Numbered.length_le {fs : List Frame} (h : Numbered 0 fs) : fs.length ≤ 16 := by
  rcases Nat.eq_zero_or_pos fs.length with h0 | h0
  · omega
  · have h1 := h.seq (fs.length - 1) (by omega)
    have h2 := (fs[fs.length - 1]).msg.seq.isLt
    omega

theorem Numbered.eq_of_seq {fs : List Frame} (h : Numbered 0 fs) {f : Frame} (hf : f ∈ fs) :
    fs[f.msg.seq.val]? = some f := by
  obtain ⟨i, hi, rfl⟩ := List.getElem_of_mem hf
  have := h.seq i hi
  rw [Nat.zero_add] at this
  rw [this]
  exact List.getElem?_eq_getElem hi

theorem slots_length {cur : List Frame} (D : Frame → Bool) (h : cur.length ≤ 16) :
    (slots cur D).length = 16 := by
  simp [slots]
  omega

theorem complete_zeros (b : Bool) (n : Nat) :
    chunkIsComplete b (List.replicate n Frame.zero) = false := by
  induction n with
  | zero => rfl
  | succ n ih =>
    rw [List.replicate_succ]
    cases b with
    | false => rfl
    | true => exact ih

theorem write_zeros (n : Nat) : writeChunkToStdout (List.replicate n Frame.zero) = [] := by
  induction n with
  | zero => rfl
  | succ n ih => exact ih

/-- **The first scan**: complete means that all messages of the burst have arrived. -/
theorem chunkIsComplete_append {k : Nat} {cur : List Frame} (D : Frame → Bool)
    (h : Numbered k cur) (n : Nat) :
    chunkIsComplete false (cur.map (fun f => if D f then f else Frame.zero) ++
      List.replicate n Frame.zero) = (hasEot cur && cur.all D) := by
  induction cur generalizing k with
  | nil => exact complete_zeros false n
  | cons f fs ih =>
    obtain ⟨_, hd, he, hn⟩ := h
    have ih' := ih hn
    rw [List.map_cons, List.cons_append, chunkIsComplete]
    cases hD : D f with
    | false =>
      rw [if_neg Bool.false_ne_true, if_pos ⟨rfl, rfl⟩, List.all_cons, hD, Bool.false_and,
        Bool.and_false]
    | true =>
      have hne : ¬ (false = false ∧ f.msg.dlen = 0) := by omega
      rw [if_pos rfl, if_neg hne, List.all_cons, hD, Bool.true_and]
      cases hf : f.msg.eot with
      | true =>
        have hfs : fs = [] := he hf
        subst hfs
        simp [hasEot, hf]
      | false =>
        rw [if_neg Bool.false_ne_true, ih']
        simp [hasEot, hf]

theorem chunkIsComplete_slots {cur : List Frame} (D : Frame → Bool) (h : Numbered 0 cur) :
    chunkIsComplete false (slots cur D) = (hasEot cur && cur.all D) :=
  chunkIsComplete_append D h _

/-- with holes allowed, only `eot` counts -/
theorem chunkIsComplete_holes (cs : List Frame) : chunkIsComplete true cs = hasEot cs := by
  induction cs with
  | nil => rfl
  | cons c cs ih =>
    have hne : ¬ (true = false ∧ c.msg.dlen = 0) := by simp
    rw [chunkIsComplete, if_neg hne, ih]
    cases h : c.msg.eot <;> simp [hasEot, h]

/-- **The second scan**: a complete burst is written as it was sent. -/
theorem writeChunk_append {k : Nat} {cur : List Frame} {D : Frame → Bool} (h : Numbered k cur)
    (hall : cur.all D = true) (n : Nat) :
    writeChunkToStdout (cur.map (fun f => if D f then f else Frame.zero) ++
      List.replicate n Frame.zero) = cur := by
  induction cur generalizing k with
  | nil => exact write_zeros n
  | cons f fs ih =>
    obtain ⟨_, hd, he, hn⟩ := h
    have hall' : D f = true ∧ fs.all D = true := by simpa using hall
    rw [List.map_cons, List.cons_append, writeChunkToStdout, if_pos hall'.1, if_pos hd]
    cases hf : f.msg.eot with
    | true => rw [if_pos rfl, he hf]
    | false => rw [if_neg Bool.false_ne_true, ih hn hall'.2]

theorem writeChunk_slots {cur : List Frame} {D : Frame → Bool} (h : Numbered 0 cur)
    (hall : cur.all D = true) : writeChunkToStdout (slots cur D) = cur :=
  writeChunk_append h hall _

theorem slots_set {cur : List Frame} (D : Frame → Bool) (h : Numbered 0 cur) {f : Frame}
    (hf : f ∈ cur) :
    (slots cur D).set f.msg.seq f = slots cur (fun g => D g || g == f) := by
  have hget := h.eq_of_seq hf
  obtain ⟨hlt, hfi⟩ := List.getElem?_eq_some_iff.mp hget
  have hlen := h.length_le
  apply List.ext_getElem?
  intro i
  rw [List.getElem?_set, slots_length D hlen, if_pos f.msg.seq.isLt]
  by_cases hi : f.msg.seq.val = i
  · subst hi
    rw [if_pos rfl, slots, List.getElem?_append_left (by simpa using hlt), List.getElem?_map, hget]
    simp
  · rw [if_neg hi, slots, slots]
    by_cases hc : i < cur.length
    · rw [List.getElem?_append_left (by simpa using hc), List.getElem?_append_left (by simpa using hc),
        List.getElem?_map, List.getElem?_map, List.getElem?_eq_getElem hc]
      have hne : cur[i] ≠ f := by
        intro e
        have := h.seq i hc
        rw [e] at this
        omega
      simp [hne]
    · rw [List.getElem?_append_right (by simpa using hc), List.getElem?_append_right (by simpa using hc)]
      simp

theorem slots_congr {cur : List Frame} {D D' : Frame → Bool} (h : ∀ f ∈ cur, D f = D' f) :
    slots cur D = slots cur D' := by
  rw [slots, slots]
  congr 1
  exact List.map_congr_left fun f hf => by rw [h f hf]

/-! ## one arrival -/

theorem store_slots {h : Helper} {cur : List Frame} {D : Frame → Bool}
    (hc : h.chunk.toList = slots cur D) (hn : Numbered 0 cur) {f : Frame} (hf : f ∈ cur) :
    (h.store f).chunk.toList = slots cur (fun g => D g || g == f) := by
  show (h.chunk.set f.msg.seq f).toList = _
  rw [Vector.toList_set, hc, slots_set D hn hf]

/-- an arrival that leaves the burst incomplete is only stored -/
theorem handleRecvDat_more {h : Helper} {cur : List Frame} {D : Frame → Bool}
    (hc : h.chunk.toList = slots cur D) (hn : Numbered 0 cur) {f : Frame} (hf : f ∈ cur)
    (hmore : (hasEot cur && cur.all fun g => D g || g == f) = false) :
    h.handleRecvDat f = (h.store f, []) := by
  have hs := store_slots hc hn hf
  unfold Helper.handleRecvDat
  simp only
  rw [if_neg]
  rw [hs, chunkIsComplete_slots _ hn, hmore]
  exact Bool.false_ne_true

/-- **the arrival that completes the burst writes all of it, in order, and acknowledges it** -/
theorem handleRecvDat_last {h : Helper} {cur : List Frame} {D : Frame → Bool}
    (hc : h.chunk.toList = slots cur D) (hn : Numbered 0 cur) {f : Frame} (hf : f ∈ cur)
    (he : hasEot cur = true) (hall : (cur.all fun g => D g || g == f) = true) :
    h.handleRecvDat f = ({ h with stdout := h.stdout ++ cur, chunk := emptyChunk, recvTimer := false },
      [h.consoleSendAck]) := by
  have hs := store_slots hc hn hf
  have hcomp : chunkIsComplete false (h.store f).chunk.toList = true := by
    rw [hs, chunkIsComplete_slots _ hn, he, hall]
    rfl
  have hw : writeChunkToStdout (h.store f).chunk.toList = cur := by
    rw [hs]
    exact writeChunk_slots hn hall
  unfold Helper.handleRecvDat
  simp only
  rw [if_pos hcomp]
  unfold Helper.flushChunk
  rw [hw]
  rfl

/-! ## any arrivals of one burst -/

/-- a burst: numbered from 0, data in every message, `eot` on the last one only -/
structure IsBurst (burst : List CanMsg) : Prop where
  pos : 1 ≤ burst.length
  le : burst.length ≤ 16
  seq : ∀ i (h : i < burst.length), burst[i].seq.val = i
  full : ∀ m ∈ burst, 1 ≤ m.dlen
  eot : ∀ i (h : i < burst.length), burst[i].eot = true ↔ i + 1 = burst.length

def CanMsg.frame (m : CanMsg) : Frame := ⟨m, 0, 0⟩

/-- `handle_recv_dat` for one message after the other -/
def Helper.recvDats : Helper → List CanMsg → Helper × List CanMsg
  | h, [] => (h, [])
  | h, m :: ms =>
    let r := h.handleRecvDat m.frame
    let r' := recvDats r.1 ms
    (r'.1, r.2 ++ r'.2)

theorem Helper.recvDats_append (h : Helper) (ms ms' : List CanMsg) :
    h.recvDats (ms ++ ms') = (((h.recvDats ms).1.recvDats ms').1,
      (h.recvDats ms).2 ++ ((h.recvDats ms).1.recvDats ms').2) := by
  induction ms generalizing h with
  | nil => rfl
  | cons m ms ih =>
    rw [List.cons_append, Helper.recvDats, ih, Helper.recvDats, List.append_assoc]

theorem CanMsg.frame_inj {m m' : CanMsg} (h : m.frame = m'.frame) : m = m' :=
  congrArg Frame.msg h

theorem Numbered.of_seq {k : Nat} {ms : List CanMsg}
    (hs : ∀ i (h : i < ms.length), ms[i].seq.val = k + i) (hd : ∀ m ∈ ms, 1 ≤ m.dlen)
    (he : ∀ i (h : i < ms.length), ms[i].eot = true → i + 1 = ms.length) :
    Numbered k (ms.map CanMsg.frame) := by
  induction ms generalizing k with
  | nil => trivial
  | cons m ms ih =>
    refine ⟨hs 0 (Nat.succ_pos _), hd m List.mem_cons_self, fun h => ?_, ?_⟩
    · have hlen := he 0 (Nat.succ_pos _) h
      rw [List.length_cons] at hlen
      rw [List.eq_nil_of_length_eq_zero (l := ms) (by omega), List.map_nil]
    · refine ih (fun i hi => ?_) (fun m' hm' => hd m' (List.mem_cons_of_mem _ hm')) fun i hi h => ?_
      · have := hs (i + 1) (Nat.succ_lt_succ hi)
        rw [List.getElem_cons_succ] at this
        omega
      · exact Nat.succ.inj (he (i + 1) (Nat.succ_lt_succ hi) h)

section
variable {burst : List CanMsg} (hb : IsBurst burst)

include hb

theorem IsBurst.numbered : Numbered 0 (burst.map CanMsg.frame) :=
  .of_seq (fun i h => (hb.seq i h).trans (Nat.zero_add i).symm) hb.full
    fun i h he => (hb.eot i h).mp he

theorem IsBurst.hasEot : hasEot (burst.map CanMsg.frame) = true := by
  have hlast : burst.length - 1 < burst.length := Nat.sub_lt hb.pos Nat.one_pos
  apply List.any_eq_true.mpr
  refine ⟨burst[burst.length - 1].frame, List.mem_map_of_mem (List.getElem_mem hlast), ?_⟩
  exact (hb.eot _ hlast).mpr (Nat.sub_add_cancel hb.pos)

/-- the messages `seen` and then `ms` have arrived, and some message has not -/
theorem recvDats_more {h : Helper} {seen ms : List CanMsg}
    (hc : h.chunk.toList = slots (burst.map CanMsg.frame) fun f => decide (f.msg ∈ seen))
    (hms : ∀ m ∈ ms, m ∈ burst) (hmore : ∃ m ∈ burst, m ∉ seen ++ ms) :
    ∃ c t, h.recvDats ms = ({ h with chunk := c, recvTimer := t }, []) ∧
      c.toList = slots (burst.map CanMsg.frame) fun f => decide (f.msg ∈ seen ++ ms) := by
  induction ms generalizing h seen with
  | nil => exact ⟨h.chunk, h.recvTimer, rfl, by rw [List.append_nil]; exact hc⟩
  | cons m ms ih =>
    have hmem : m.frame ∈ burst.map CanMsg.frame :=
      List.mem_map_of_mem (hms m List.mem_cons_self)
    obtain ⟨m', hm', hout⟩ := hmore
    have hincomplete : (hasEot (burst.map CanMsg.frame) &&
        (burst.map CanMsg.frame).all fun g => decide (g.msg ∈ seen) || g == m.frame) = false := by
      rw [hb.hasEot, Bool.true_and, List.all_eq_false]
      refine ⟨m'.frame, List.mem_map_of_mem hm', ?_⟩
      have hne : m'.frame ≠ m.frame := by
        intro h
        rw [CanMsg.frame_inj h] at hout
        exact hout (List.mem_append_right _ List.mem_cons_self)
      have hseen : m'.frame.msg ∉ seen := fun h => hout (List.mem_append_left _ h)
      simp [hne, hseen]
    have hstep := handleRecvDat_more hc hb.numbered hmem hincomplete
    have hslots : (h.store m.frame).chunk.toList =
        slots (burst.map CanMsg.frame) fun f => decide (f.msg ∈ seen ++ [m]) := by
      rw [store_slots hc hb.numbered hmem]
      refine slots_congr fun f hf => ?_
      obtain ⟨m'', _, rfl⟩ := List.mem_map.mp hf
      have heq : (m''.frame == m.frame) = decide (m'' = m) := by
        rw [Bool.eq_iff_iff, beq_iff_eq, decide_eq_true_iff]
        exact ⟨CanMsg.frame_inj, congrArg _⟩
      rw [heq, Bool.eq_iff_iff, Bool.or_eq_true, decide_eq_true_iff, decide_eq_true_iff,
        decide_eq_true_iff, List.mem_append, List.mem_singleton]
      exact Iff.rfl
    obtain ⟨c, t, hrun, hc'⟩ := ih hslots (fun m hm => hms m (List.mem_cons_of_mem _ hm))
      ⟨m', hm', by rwa [List.append_assoc]⟩
    refine ⟨c, t, ?_, ?_⟩
    · rw [Helper.recvDats, hstep]
      simp only [hrun, List.nil_append]
      rfl
    · rw [hc', List.append_assoc]
      rfl

end

/-- three messages of one byte each -/
def threeMsgs : List CanMsg := (List.range 3).map fun i =>
  { CanMsg.zero with
    pri := 1, type := .dat, object := objConsolesend, eot := i == 2, seq := Fin.ofNat 16 i
    data := .single (UInt8.ofNat i) }

/-- a helper that waits for its first chunk -/
def idleHelper : Helper where
  srcaddr := 2
  dstaddr := 16
  objid := objConsolesend
  chunk := emptyChunk
  recvTimer := false
  ackTimer := false
  stdinWatcher := true
  stdout := []
  died := none

end Bramble
