import Bramble.Firmware.ReadPhase
import Bramble.Firmware.WritePhase

/-!
# The 64 bytes over a whole session

A session is a list of phases and stops, from power on. The regions share `nvram[]`, so a write to a
read-only region changes the image; it is invalid again in the next phase.

* `Segment`        a phase or a stop;
* `leader`         the address where the leader takes the next access to be;
* `unflushed`      what the leader has written since the last stop;
* `Kept`           callbacks only for what was written, reads from a read-only region only from its
                   `get`, and plain memory elsewhere;
* `Tracks`         the invariant, `tracks_step` and `tracks_run`;
* `nvram_kept`     a session keeps the `nvram` as long as its write phases lose nothing where
                   `write_count` wraps;
* `nvram_kept_fails`  and not always.
-/

namespace Bramble

/-! ## sessions -/

inductive Segment where
  | transfer (t : Transfer)
  | stop (i : Interrupt) (ok : i.event = some .stopf ∨ i.event = some .af)

namespace Segment

def irqs : Segment → List Interrupt
  | transfer t => t.irqs
  | stop i _ => [i]

def writes : Segment → List (Access Nat UInt8)
  | transfer t => t.phase.writes
  | stop _ _ => []

/-- nothing is lost where `write_count` wraps -/
def Lands : Segment → Prop
  | transfer t =>
    match t.phase with
    | .write base data => Bramble.Lands base data
    | .read _ => True
  | stop _ _ => True

end Segment

/-- where the next access is meant to be, modulo 64 -/
def Phase.move (q : Nat) : Phase → Nat
  | .write base data => base.toNat + data.length
  | .read n => q + n

def Segment.move (q : Nat) : Segment → Nat
  | transfer t => t.phase.move q
  | stop _ _ => q

def leader (past : List Segment) : Nat := past.foldl Segment.move 0

def Segment.leave (ws : List (Access Nat UInt8)) : Segment → List (Access Nat UInt8)
  | transfer t => ws ++ t.phase.writes
  | stop _ _ => []

/-- what has been written since the last stop -/
def unflushed (past : List Segment) : List (Access Nat UInt8) := past.foldl Segment.leave []

/-- the follower after a session -/
def follower (past : List Segment) : I2c := (runIsr i2cInit (past.flatMap Segment.irqs)).1

/-- what it does in the next segment -/
def response (past : List Segment) (sg : Segment) : List Output :=
  (runIsr (follower past) sg.irqs).2

/-- the reads of a phase from the address `q` on, with what `get` would supply -/
def meantReads : Nat → List Interrupt → List (TimedAccess Nat UInt8)
  | _, [] => []
  | q, i :: is =>
    match i.event with
    | some .txe => (.read (q % 64), supply i.env) :: meantReads (q + 1) is
    | _ => meantReads q is

/-- A byte that a phase reads from the address `a`: supplied in this phase if `a` is in a read-only
region, and the byte last written if it is in none. -/
structure Genuine (past : List Segment) (is : List Interrupt) (a : Nat) (byte : UInt8) : Prop where
  readOnly : ∀ r, findRegionContaining a = some r → r.put = none →
    ∃ back, supplied findRegionContaining r (meantReads (leader past) is) = some back ∧
      byte = back a
  plain : findRegionContaining a = none →
    byte = (lastWrite a (past.flatMap Segment.writes)).getD 0

/-- What the follower does in the segment `sg` after `past`. -/
structure Kept (past : List Segment) (sg : Segment) : Prop where
  /-- a callback is called only at a stop, for a region that was written -/
  puts : ∀ f buf, .put f buf ∈ response past sg → (∃ i ok, sg = .stop i ok) ∧
    ∃ r a val, r.put = some f ∧ findRegionContaining a = some r ∧ .write a val ∈ unflushed past
  reads : ∀ t n, sg = .transfer t → t.phase = .read n → ∀ k < n, ∃ byte,
    (response past sg)[k]? = some (.sendData byte) ∧
      Genuine past t.irqs ((leader past + k) % 64) byte

section
variable (past : List Segment) (sg : Segment)

theorem leader_concat : leader (past ++ [sg]) = sg.move (leader past) := List.foldl_concat ..

theorem unflushed_concat : unflushed (past ++ [sg]) = sg.leave (unflushed past) :=
  List.foldl_concat ..

theorem writes_concat : (past ++ [sg]).flatMap Segment.writes =
    past.flatMap Segment.writes ++ sg.writes := by
  rw [List.flatMap_append, List.flatMap_singleton]

theorem follower_concat :
    follower (past ++ [sg]) = (runIsr (follower past) sg.irqs).1 := by
  unfold follower
  rw [List.flatMap_append, List.flatMap_singleton, runIsr_append]

end

/-! ## where the pointer is after a phase -/

theorem after_reads (p : Pointer) (n : Nat) :
    (p.after (List.replicate n .txe)).base = p.base ∧
      (p.after (List.replicate n .txe)).offset.toNat % 64 = (p.offset.toNat + n) % 64 := by
  induction n generalizing p with
  | zero => exact ⟨rfl, rfl⟩
  | succ n ih =>
    obtain ⟨h1, h2⟩ := ih (p.next .txe)
    have ho := offset_succ p.offset
    refine ⟨h1, h2.trans ?_⟩
    show ((p.offset + 1).toNat + n) % 64 = _
    omega

/-- `offset` and `write_count` go together, also where they wrap -/
theorem after_writes (p : Pointer) (data : List UInt8)
    (hp : (p.offset.toNat + 1) % 64 = p.writeCount.toNat % 64) :
    (p.after (data.map .rxne)).offset.toNat % 64 = (p.offset.toNat + data.length) % 64 := by
  induction data generalizing p with
  | nil => rfl
  | cons val data ih =>
    have ho := offset_succ p.offset
    have hw := offset_succ p.writeCount
    show ((p.next (.rxne val)).after (data.map .rxne)).offset.toNat % 64 = _
    by_cases hc : p.writeCount = 0
    · have hnext : p.next (.rxne val) = ⟨val, 0, p.writeCount + 1⟩ := if_pos hc
      rw [hc] at hp
      have hp : (p.offset.toNat + 1) % 64 = 0 := hp
      rw [hnext, ih ⟨val, 0, p.writeCount + 1⟩ (by
        rw [hc]
        rfl)]
      show (0 + data.length) % 64 = (p.offset.toNat + (data.length + 1)) % 64
      omega
    · have hnext : p.next (.rxne val) = ⟨p.base, p.offset + 1, p.writeCount + 1⟩ := if_neg hc
      have hsame : ((p.offset + 1).toNat + 1) % 64 = (p.writeCount + 1).toNat % 64 := by omega
      rw [hnext, ih ⟨p.base, p.offset + 1, p.writeCount + 1⟩ hsame, List.length_cons]
      show ((p.offset + 1).toNat + data.length) % 64 = _
      omega

/-- **The leader and the follower agree on the next address.** -/
theorem Phase.move_after (p : Pointer) (q : Nat) {ph : Phase}
    (hp : (p.base.toNat + p.offset.toNat) % 64 = q % 64)
    (hl : ∀ base data, ph = .write base data → Bramble.Lands base data) :
    ((p.after ph.events).base.toNat + (p.after ph.events).offset.toNat) % 64 = ph.move q % 64 := by
  cases ph with
  | read n =>
    obtain ⟨h1, h2⟩ := after_reads (p.next .addr) n
    show (((p.next .addr).after (List.replicate n .txe)).base.toNat + _) % 64 = (q + n) % 64
    rw [h1]
    have h2 : ((p.next .addr).after (List.replicate n .txe)).offset.toNat % 64 =
      (p.offset.toNat + n) % 64 := h2
    show (p.base.toNat + ((p.next .addr).after (List.replicate n .txe)).offset.toNat) % 64 = _
    omega
  | write base data =>
    have hbase := (eventAccesses_first base data).2
    rw [(hl base data rfl).rebase_eq] at hbase
    have hoffset := after_writes ⟨base, 0, 1⟩ data rfl
    show ((Pointer.after ⟨base, 0, 1⟩ (data.map .rxne)).base.toNat +
      (Pointer.after ⟨base, 0, 1⟩ (data.map .rxne)).offset.toNat) % 64 = _
    rw [hbase]
    have hoffset : (Pointer.after ⟨base, 0, 1⟩ (data.map .rxne)).offset.toNat % 64 =
      (0 + data.length) % 64 := hoffset
    show _ = (base.toNat + data.length) % 64
    omega

/-- the reads of the handler are those of the leader -/
theorem accesses_meantReads (p : Pointer) (q n : Nat) {is : List Interrupt}
    (h : is.filterMap Interrupt.event = List.replicate n .txe)
    (hq : (p.base.toNat + p.offset.toNat) % 64 = q % 64) : p.accesses is = meantReads q is := by
  induction is generalizing p q n with
  | nil => rfl
  | cons i is ih =>
    unfold meantReads
    cases he : i.event with
    | none =>
      rw [List.filterMap_cons_none he] at h
      rw [accesses_none p he]
      exact ih p q n h hq
    | some e =>
      rw [List.filterMap_cons_some he] at h
      cases n with
      | zero => exact absurd h (by simp)
      | succ n =>
        obtain ⟨rfl, hes⟩ := List.cons.inj (h.trans List.replicate_succ)
        obtain ⟨haccess, hq'⟩ := Pointer.read_step hq.symm
        rw [accesses_some p he, haccess, ih (p.next .txe) (q + 1) n hes hq'.symm]
        rfl

theorem accesses_meantReads_phase (p : Pointer) (q n : Nat) {is : List Interrupt}
    (h : is.filterMap Interrupt.event = (Phase.read n).events)
    (hq : (p.base.toNat + p.offset.toNat) % 64 = q % 64) : p.accesses is = meantReads q is := by
  refine filterMap_cons_induction h (fun i is he ih => ?_) fun i is he hes => ?_
  · rw [accesses_none p he, meantReads, he]
    exact ih
  · rw [accesses_some p he, meantReads, he]
    exact accesses_meantReads (p.next .addr) q n hes hq

/-- the accesses of the handler leave what the leader means to write -/
theorem Transfer.lastWrite_eq (p : Pointer) (t : Transfer) (hl : (Segment.transfer t).Lands)
    (a : Nat) : lastWrite a ((p.accesses t.irqs).map (·.1)) = lastWrite a t.phase.writes := by
  have hok := t.ok
  unfold Segment.Lands at hl
  cases hph : t.phase with
  | read n =>
    rw [hph] at hok
    rw [accesses_events, hok]
    refine Eq.trans ?_ (readsFrom_lastWrite (p.base.toNat + p.offset.toNat) n a)
    exact congrArg _ (eventAccesses_reads (p.next .addr) _ n rfl)
  | write base data =>
    rw [hph] at hok
    simp only [hph] at hl
    rw [(accesses_meant p hok).1]
    exact hl.lastWrite_eq a

/-! ## the invariant -/

structure Tracks (past : List Segment) (s : I2c) : Prop where
  pointer : (s.base.toNat + s.offset.toNat) % 64 = leader past % 64
  plain : ∀ a, findRegionContaining a = none →
    s.nvram a = (lastWrite a (past.flatMap Segment.writes)).getD 0
  dirty : ∀ r, s.dirty r = true →
    ∃ a val, findRegionContaining a = some r ∧ .write a val ∈ unflushed past

theorem tracks_init : Tracks [] i2cInit where
  pointer := rfl
  plain := fun _ _ => rfl
  dirty := fun _ hd => nomatch hd

section
variable {past : List Segment} {s : I2c}

theorem Tracks.transfer (h : Tracks past s) (t : Transfer) (hl : (Segment.transfer t).Lands) :
    Tracks (past ++ [.transfer t]) (runIsr s t.irqs).1 := by
  obtain ⟨hcache, hpointer, _⟩ := runIsr_events s t.ok
  constructor
  · have hphase : ∀ base data, t.phase = .write base data → Bramble.Lands base data := by
      intro base data hph
      unfold Segment.Lands at hl
      simp only [hph] at hl
      exact hl
    have hmove := Phase.move_after s.pointer (leader past) h.pointer hphase
    rw [← hpointer] at hmove
    rw [leader_concat]
    exact hmove
  · intro a ha
    have hmem : (runIsr s t.irqs).1.nvram a =
        (lastWrite a ((s.pointer.accesses t.irqs).map (·.1))).getD (s.nvram a) := by
      show (runIsr s t.irqs).1.cache.mem a = _
      rw [hcache]
      exact Cache.mem_accesses_none ha _
    rw [hmem, t.lastWrite_eq s.pointer hl, h.plain a ha, writes_concat, lastWrite_append, getD_or]
    rfl
  · intro r hr
    have hr : (runIsr s t.irqs).1.cache.dirty r = true := hr
    rw [hcache] at hr
    rw [unflushed_concat]
    rcases (Cache.dirty_accesses_iff _).mp hr with hr | ⟨_, a, val, hmem, ha⟩
    · obtain ⟨a, val, ha, hmem⟩ := h.dirty r hr
      exact ⟨a, val, ha, List.mem_append_left _ hmem⟩
    · obtain ⟨w, hw⟩ := lastWrite_isSome hmem
      rw [t.lastWrite_eq s.pointer hl] at hw
      exact ⟨a, w, ha, List.mem_append_right _ (lastWrite_mem hw)⟩

theorem flush_stop (s : I2c) {i : Interrupt} (ok : i.event = some .stopf ∨ i.event = some .af) :
    runIsr s [i] = cacheFlush s :=
  runIsr_stop s [] ok

theorem Tracks.stop (h : Tracks past s) (i : Interrupt)
    (ok : i.event = some .stopf ∨ i.event = some .af) :
    Tracks (past ++ [.stop i ok]) (runIsr s [i]).1 := by
  rw [flush_stop s ok, cacheFlush_state]
  constructor
  · rw [leader_concat]
    exact h.pointer
  · intro a ha
    rw [writes_concat]
    show s.nvram a = (lastWrite a (past.flatMap Segment.writes ++ [])).getD 0
    rw [List.append_nil]
    exact h.plain a ha
  · exact fun _ hd => nomatch hd

theorem tracks_step (h : Tracks past s) (sg : Segment) (hl : sg.Lands) :
    Tracks (past ++ [sg]) (runIsr s sg.irqs).1 := by
  cases sg with
  | transfer t => exact h.transfer t hl
  | stop i ok => exact h.stop i ok

end

theorem tracks_run (past : List Segment) (hl : ∀ sg ∈ past, sg.Lands) :
    Tracks past (follower past) := by
  induction past using List.reverseRecOn with
  | nil => exact tracks_init
  | append_singleton past sg ih =>
    rw [follower_concat]
    refine tracks_step (ih fun sg' h => hl sg' (List.mem_append_left _ h)) sg ?_
    exact hl sg (List.mem_append_right _ (List.mem_singleton_self sg))

/-! ## what the follower does -/

theorem Tracks.puts {past : List Segment} (h : Tracks past (follower past)) (sg : Segment) {f : Put}
    {buf : List UInt8} (hput : .put f buf ∈ response past sg) : (∃ i ok, sg = .stop i ok) ∧
      ∃ r a val, r.put = some f ∧ findRegionContaining a = some r ∧
        .write a val ∈ unflushed past := by
  cases sg with
  | transfer t =>
    obtain ⟨val, hval⟩ := (runIsr_events (follower past) t.ok).2.2 _ hput
    exact nomatch hval
  | stop i ok =>
    refine ⟨⟨i, ok, rfl⟩, ?_⟩
    have hput : .put f buf ∈ (runIsr (follower past) [i]).2 := hput
    rw [flush_stop _ ok] at hput
    obtain ⟨r, hr, hf, _⟩ := (cacheFlush_puts _ f buf).mp hput
    obtain ⟨a, val, ha, hmem⟩ := h.dirty r hr
    exact ⟨r, a, val, hf, ha, hmem⟩

theorem Tracks.reads {past : List Segment} (h : Tracks past (follower past)) (t : Transfer) {n : Nat}
    (hph : t.phase = .read n) {k : Nat} (hk : k < n) :
    ∃ byte, (response past (.transfer t))[k]? = some (.sendData byte) ∧
      Genuine past t.irqs ((leader past + k) % 64) byte := by
  have hok := t.ok
  rw [hph] at hok
  have haddr : ((follower past).base.toNat + (follower past).offset.toNat + k) % 64 =
      (leader past + k) % 64 := by
    have hp := h.pointer
    omega
  refine ⟨_, read_byte (follower past) hok hk, ?_⟩
  rw [haddr]
  constructor
  · intro r hr _
    rw [← haddr] at hr
    obtain ⟨back, hback⟩ := read_supplied (follower past) hok hk hr
    rw [haddr] at hr
    refine ⟨back, ?_, read_region (follower past) hok hr hback⟩
    rw [← accesses_meantReads_phase (follower past).pointer _ n hok h.pointer]
    exact hback
  · intro hnone
    rw [read_plain (follower past) hok hnone]
    exact h.plain _ hnone

/-- **Writes never disturb the rest of the `nvram`**, in a session where nothing is lost at the wrap
of `write_count`. -/
theorem nvram_kept (past : List Segment) (sg : Segment) (hl : ∀ sg' ∈ past, sg'.Lands) :
    Kept past sg := by
  have htracks := tracks_run past hl
  constructor
  · exact fun f buf hput => htracks.puts sg hput
  · rintro t n rfl hph k hk
    exact htracks.reads t hph hk

/-- the slot and a byte in no region are written, and read in a later transaction -/
def slotSession : List Segment :=
  [.transfer (Phase.transfer quietEnv (.write 14 [7])),
    .transfer (Phase.transfer quietEnv (.write 40 [9])), .stop (Event.irq quietEnv .stopf) (.inl rfl),
    .transfer (Phase.transfer quietEnv (.write 14 []))]

theorem nvram_kept_slot : Kept slotSession (.transfer (Phase.transfer quietEnv (.read 30))) :=
  nvram_kept slotSession _ (by simp [slotSession, Segment.Lands, Phase.transfer, Lands])

/-- the 256th data byte is meant for address 40 -/
def longSession : List Segment :=
  [.transfer (Phase.transfer quietEnv (.write 41 (List.replicate 255 0 ++ [1]))),
    .stop (Event.irq quietEnv .stopf) (.inl rfl), .transfer (Phase.transfer quietEnv (.write 40 []))]

/-- **A byte written to an address in no region is not read back.** -/
theorem nvram_kept_fails : ¬ ∀ (past : List Segment) (sg : Segment), Kept past sg := by
  intro h
  obtain ⟨byte, hbyte, hgenuine⟩ := (h longSession
    (.transfer (Phase.transfer quietEnv (.read 1)))).reads _ 1 rfl rfl 0 (by decide)
  have hout : (response longSession (.transfer (Phase.transfer quietEnv (.read 1))))[0]? =
      some (.sendData 0) := by decide +kernel
  have hlast : (lastWrite 40 (longSession.flatMap Segment.writes)).getD 0 = 1 := by decide +kernel
  rw [hout] at hbyte
  cases hbyte
  have hplain := hgenuine.plain rfl
  rw [show (leader longSession + 0) % 64 = 40 from rfl, hlast] at hplain
  exact absurd hplain (by decide)

end Bramble
