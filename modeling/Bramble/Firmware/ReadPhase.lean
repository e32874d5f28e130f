import Bramble.Firmware.Transaction

/-!
# I2C read phases, and the clock

Each region is faulted in once in a phase, so its bytes all come from one call of `get`, whatever
happens to the clock between the bytes.

* `runIsr_reads`      the bytes that a read phase sends are those in `nvram[]` after it;
* `read_region`, `read_plain`   the bytes of a region, and of the addresses in none;
* `Board`             the follower and the clock; interrupts come between ticks and `rtc_set`;
* `read_not_torn`     all bytes read from the clock registers in a phase show one value that the
                      clock held in it.
-/

namespace Bramble

/-! ## phases that only read -/

/-- `n` reads from the address `q` on -/
def readsFrom : Nat → Nat → List (Access Nat UInt8)
  | _, 0 => []
  | q, n + 1 => .read (q % 64) :: readsFrom (q + 1) n

theorem readsFrom_getElem (q n k : Nat) (hk : k < n) :
    (readsFrom q n)[k]? = some (.read ((q + k) % 64)) := by
  induction n generalizing q k with
  | zero => exact absurd hk (Nat.not_lt_zero k)
  | succ n ih =>
    cases k with
    | zero => rfl
    | succ k =>
      have hq : q + (k + 1) = q + 1 + k := by omega
      rw [hq]
      exact ih (q + 1) k (Nat.lt_of_succ_lt_succ hk)

theorem readsFrom_length (q n : Nat) : (readsFrom q n).length = n := by
  induction n generalizing q with
  | zero => rfl
  | succ n ih => exact congrArg Nat.succ (ih (q + 1))

theorem readsFrom_lastWrite (q n a : Nat) : lastWrite a (readsFrom q n) = none := by
  induction n generalizing q with
  | zero => rfl
  | succ n ih =>
    unfold readsFrom
    rw [lastWrite_cons, ih]
    rfl

theorem eventAccesses_reads (p : Pointer) (q n : Nat)
    (hq : q % 64 = (p.base.toNat + p.offset.toNat) % 64) :
    p.eventAccesses (List.replicate n .txe) = readsFrom q n := by
  induction n generalizing p q with
  | zero => rfl
  | succ n ih =>
    obtain ⟨haccess, hq'⟩ := Pointer.read_step hq
    show (p.access .txe).toList ++ (p.next .txe).eventAccesses (List.replicate n .txe) = _
    rw [haccess, ih (p.next .txe) (q + 1) hq']
    rfl

/-- **The bytes that a read phase sends are those in `nvram[]` after it.** -/
theorem runIsr_reads (s : I2c) (is : List Interrupt) (n : Nat)
    (h : is.filterMap Interrupt.event = List.replicate n .txe) :
    (runIsr s is).2 =
      (s.pointer.accesses is).map fun x => .sendData ((runIsr s is).1.nvram x.1.addr) := by
  induction is generalizing s n with
  | nil => rfl
  | cons i is ih =>
    rw [runIsr_cons]
    cases he : i.event with
    | none =>
      rw [List.filterMap_cons_none he] at h
      rw [i2c2EvIsr_event, he, accesses_none _ he]
      exact ih s n h
    | some e =>
      rw [List.filterMap_cons_some he] at h
      cases n with
      | zero => exact absurd h (by simp)
      | succ n =>
        obtain ⟨rfl, hes⟩ := List.cons.inj (h.trans List.replicate_succ)
        rw [i2c2EvIsr_event, he, accesses_some _ he]
        obtain ⟨hcache, hpointer, _⟩ := xmitByte_cache i.env s
        obtain ⟨hrest, _, _⟩ := runIsr_data (xmitByte i.env s).1 is (fun e he' => by
          rw [hes] at he'
          rw [List.eq_of_mem_replicate he']
          trivial)
        have hlast : lastWrite (nvramAddr s.base s.offset)
            (((xmitByte i.env s).1.pointer.accesses is).map (·.1)) = none := by
          rw [accesses_events, hes, eventAccesses_reads _ _ n rfl]
          exact readsFrom_lastWrite _ _ _
        -- the region of the byte just sent is valid from now on
        have hvalid : ∀ r, findRegionContaining (nvramAddr s.base s.offset) = some r →
            (xmitByte i.env s).1.cache.valid r = true := by
          intro r hr
          rw [hcache]
          exact (Cache.load_self (supply i.env) hr hr).1
        have hkept : (runIsr (xmitByte i.env s).1 is).1.nvram (nvramAddr s.base s.offset) =
            (xmitByte i.env s).1.nvram (nvramAddr s.base s.offset) := by
          show (runIsr (xmitByte i.env s).1 is).1.cache.mem _ = (xmitByte i.env s).1.cache.mem _
          rw [hrest]
          exact Cache.mem_accesses_reads hvalid hlast
        show .sendData ((xmitByte i.env s).1.nvram (nvramAddr s.base s.offset)) ::
            (runIsr (xmitByte i.env s).1 is).2 =
          .sendData ((runIsr (xmitByte i.env s).1 is).1.nvram (nvramAddr s.base s.offset)) :: _
        rw [hkept, ih _ n hes, hpointer]
        rfl

theorem runIsr_read_phase (s : I2c) {is : List Interrupt} {n : Nat}
    (h : is.filterMap Interrupt.event = (Phase.read n).events) :
    (runIsr s is).2 =
      (s.pointer.accesses is).map fun x => .sendData ((runIsr s is).1.nvram x.1.addr) := by
  refine filterMap_cons_induction h (fun i is he ih => ?_) fun i is he hes => ?_
  · rw [runIsr_cons, i2c2EvIsr_event, he, accesses_none _ he]
    exact ih
  · rw [runIsr_cons, i2c2EvIsr_event, he, accesses_some _ he]
    exact runIsr_reads (cacheInvalidate { s with writeCount := 0 }) is n hes

section
variable (s : I2c) {is : List Interrupt} {n : Nat}
  (h : is.filterMap Interrupt.event = (Phase.read n).events)

include h

theorem accesses_read : (s.pointer.accesses is).map (·.1) =
    readsFrom (s.base.toNat + s.offset.toNat) n := by
  rw [accesses_events, h]
  exact eventAccesses_reads (s.pointer.next .addr) _ n rfl

theorem read_length : (runIsr s is).2.length = n := by
  rw [runIsr_read_phase s h, List.length_map, ← List.length_map (f := (·.1)), accesses_read s h,
    readsFrom_length]

/-- **The `k`-th byte of a read phase** -/
theorem read_byte {k : Nat} (hk : k < n) : (runIsr s is).2[k]? =
    some (.sendData (image findRegionContaining s.nvram (s.pointer.accesses is)
      ((s.base.toNat + s.offset.toNat + k) % 64))) := by
  have haddr := readsFrom_getElem (s.base.toNat + s.offset.toNat) n k hk
  rw [← accesses_read s h, List.getElem?_map, Option.map_eq_some_iff] at haddr
  obtain ⟨x, hx, hxa⟩ := haddr
  rw [runIsr_read_phase s h, List.getElem?_map, hx, runIsr_nvram s h]
  show some (Output.sendData (image _ _ _ x.1.addr)) = _
  rw [hxa]
  rfl

theorem read_plain {a : Nat} (ha : findRegionContaining a = none) :
    image findRegionContaining s.nvram (s.pointer.accesses is) a = s.nvram a := by
  unfold image
  simp only [ha]
  rw [accesses_read s h, readsFrom_lastWrite]
  rfl

/-- the bytes of a region are those that `get` supplied when the phase first read there -/
theorem read_region {r : Region} {back : Nat → UInt8} {a : Nat}
    (ha : findRegionContaining a = some r)
    (hback : supplied findRegionContaining r (s.pointer.accesses is) = some back) :
    image findRegionContaining s.nvram (s.pointer.accesses is) a = back a := by
  have hleaves : leaves findRegionContaining r a (s.pointer.accesses is) = some (back a) := by
    refine (leaves_some _).mpr ⟨back, hback, .inr ⟨?_, rfl⟩⟩
    rw [accesses_read s h, readsFrom_lastWrite]
  unfold image
  simp only [ha]
  rw [hleaves]
  rfl

theorem read_supplied {r : Region} {k : Nat} (hk : k < n)
    (ha : findRegionContaining ((s.base.toNat + s.offset.toNat + k) % 64) = some r) :
    ∃ back, supplied findRegionContaining r (s.pointer.accesses is) = some back := by
  have haddr := readsFrom_getElem (s.base.toNat + s.offset.toNat) n k hk
  rw [← accesses_read s h, List.getElem?_map, Option.map_eq_some_iff] at haddr
  obtain ⟨x, hx, hxa⟩ := haddr
  apply Option.isSome_iff_exists.mp
  exact (supplied_isSome _).mpr ⟨x, List.mem_of_getElem? hx, touches_of_eq _ hxa ha⟩

end

/-- what `get` supplies, it supplies at an interrupt of the phase -/
theorem supplied_interrupt {p : Pointer} {is : List Interrupt} {r : Region} {back : Nat → UInt8}
    (h : supplied findRegionContaining r (p.accesses is) = some back) :
    ∃ i ∈ is, back = supply i.env := by
  obtain ⟨x, hx, rfl⟩ := Option.map_eq_some_iff.mp h
  have hmem := List.mem_of_find?_eq_some hx
  clear h hx
  induction is generalizing p with
  | nil => exact absurd hmem List.not_mem_nil
  | cons i is ih =>
    cases he : i.event with
    | none =>
      rw [accesses_none p he] at hmem
      obtain ⟨j, hj, hback⟩ := ih hmem
      exact ⟨j, List.mem_cons_of_mem _ hj, hback⟩
    | some e =>
      rw [accesses_some p he] at hmem
      rcases List.mem_append.mp hmem with hmem | hmem
      · obtain ⟨y, _, rfl⟩ := List.mem_map.mp hmem
        exact ⟨i, List.mem_cons_self, rfl⟩
      · obtain ⟨j, hj, hback⟩ := ih hmem
        exact ⟨j, List.mem_cons_of_mem _ hj, hback⟩

/-! ## the clock goes on -/

structure Board where
  i2c : I2c
  rtc : RtcTime

/-- what happens between two bytes, and the bytes themselves -/
inductive Happening where
  /-- `junk` is what the local variable of `ds1307_put_from_isr` holds -/
  | irq (i : Interrupt) (junk : UInt8)
  /-- `wild` is what `advance_time` makes where it reads before the table of months -/
  | tick (wild : RtcTime)
  | rtcSet (time : RtcTime)

namespace Board

/-- the callbacks read the clock as it is now -/
def sees (b : Board) (i : Interrupt) : Interrupt := { i with env := { i.env with rtc := b.rtc } }

/-- the clock after a call of a callback -/
def hears (junk : UInt8) (t : RtcTime) : Output → RtcTime
  | .put .ds1307PutFromIsr buf => ds1307PutFromIsr t junk buf
  | _ => t

def step (b : Board) : Happening → Board × List Output
  | .irq i junk =>
    let (s, out) := i2c2EvIsr b.i2c (b.sees i)
    (⟨s, out.foldl (hears junk) b.rtc⟩, out)
  | .tick wild => ({ b with rtc := (advanceTime b.rtc).getD wild }, [])
  | .rtcSet time => ({ b with rtc := { time with setCount := time.setCount + 1 } }, [])

def run : Board → List Happening → Board × List Output
  | b, [] => (b, [])
  | b, h :: hs =>
    let (b', out) := b.step h
    let (b'', out') := b'.run hs
    (b'', out ++ out')

/-- the values that the clock holds -/
def clocks : Board → List Happening → List RtcTime
  | b, [] => [b.rtc]
  | b, h :: hs => b.rtc :: (b.step h).1.clocks hs

/-- the interrupts, as the handler sees them -/
def irqs : Board → List Happening → List Interrupt
  | _, [] => []
  | b, .irq i junk :: hs => b.sees i :: (b.step (.irq i junk)).1.irqs hs
  | b, h :: hs => (b.step h).1.irqs hs

end Board

def Happening.event : Happening → Option Event
  | .irq i _ => i.event
  | _ => none

/-- Each byte read from `addr + j` is the `j`-th of `fields`, when `out` is sent from the address `q`
on. -/
def Sent (fields : List UInt8) (addr q : Nat) (out : List Output) : Prop :=
  ∀ k < out.length, ∀ j byte, fields[j]? = some byte → (q + k) % 64 = addr + j →
    out[k]? = some (.sendData byte)

theorem Board.run_irqs (b : Board) (hs : List Happening) :
    (b.run hs).1.i2c = (runIsr b.i2c (b.irqs hs)).1 ∧
      (b.run hs).2 = (runIsr b.i2c (b.irqs hs)).2 := by
  induction hs generalizing b with
  | nil => exact ⟨rfl, rfl⟩
  | cons h hs ih =>
    obtain ⟨h1, h2⟩ := ih (b.step h).1
    cases h with
    | irq i junk => exact ⟨h1, congrArg _ h2⟩
    | tick wild => exact ⟨h1, h2⟩
    | rtcSet time => exact ⟨h1, h2⟩

theorem Board.irqs_clocks (b : Board) (hs : List Happening) :
    ∀ i ∈ b.irqs hs, i.env.rtc ∈ b.clocks hs := by
  induction hs generalizing b with
  | nil => exact fun i hi => absurd hi List.not_mem_nil
  | cons h hs ih =>
    have hlater := ih (b.step h).1
    cases h with
    | irq i junk =>
      intro j hj
      rcases List.mem_cons.mp hj with rfl | hj
      · exact List.mem_cons_self
      · exact List.mem_cons_of_mem _ (hlater j hj)
    | tick wild => exact fun j hj => List.mem_cons_of_mem _ (hlater j hj)
    | rtcSet time => exact fun j hj => List.mem_cons_of_mem _ (hlater j hj)

theorem Board.irqs_events (b : Board) (hs : List Happening) :
    (b.irqs hs).filterMap Interrupt.event = hs.filterMap Happening.event := by
  induction hs generalizing b with
  | nil => rfl
  | cons h hs ih =>
    have hlater := ih (b.step h).1
    cases h with
    | irq i junk =>
      show (b.sees i :: _).filterMap Interrupt.event = (.irq i junk :: hs).filterMap Happening.event
      have hi : (b.sees i).event = (Happening.irq i junk).event := rfl
      cases he : (Happening.irq i junk).event with
      | none => rw [List.filterMap_cons_none he, List.filterMap_cons_none (hi.trans he), hlater]
      | some e => rw [List.filterMap_cons_some he, List.filterMap_cons_some (hi.trans he), hlater]
    | tick wild => exact hlater
    | rtcSet time => exact hlater

theorem Board.clocks_self (b : Board) (hs : List Happening) : b.rtc ∈ b.clocks hs := by
  cases hs with
  | nil => exact List.mem_singleton_self _
  | cons h hs => exact List.mem_cons_self

/-- `get` of the region `r` fills it with fields of the clock -/
def Copies (fields : RtcTime → List UInt8) (r : Region) : Prop :=
  ∀ t, (fields t).length = r.size ∧ ∀ env : Env, env.rtc = t → ∀ get, r.get = some get →
    get env (List.replicate r.size 0) = fields t

/-- what the addresses 0 to 6 show of a value of the clock -/
def clockBytes (v : RtcTime) : List UInt8 :=
  [bcd v.sec.toNat, bcd v.min.toNat, bcd v.hour.toNat, v.day, bcd v.date.toNat, bcd v.month.toNat,
    bcd v.year.toNat]

theorem ds1307GetFromIsr_eq (v : RtcTime) : ds1307GetFromIsr v = clockBytes v := by
  simp only [ds1307GetFromIsr, clockBytes, intToBcd_toNat]

theorem copies_ds1307 : Copies clockBytes .ds1307 := by
  intro t
  refine ⟨rfl, fun env henv get hget => ?_⟩
  cases Option.some.inj hget
  rw [← henv]
  exact ds1307GetFromIsr_eq env.rtc

theorem copies_debug : Copies (fun t => clockBytes t ++ [t.setCount]) .debug := by
  intro t
  refine ⟨rfl, fun env henv get hget => ?_⟩
  cases Option.some.inj hget
  rw [← henv]
  exact congrArg (· ++ [env.rtc.setCount]) (ds1307GetFromIsr_eq env.rtc)

/-- a field is the byte supplied at its address -/
theorem Copies.supply {fields : RtcTime → List UInt8} {r : Region} (hc : Copies fields r)
    (env : Env) {j : Nat} {byte : UInt8} (hj : (fields env.rtc)[j]? = some byte) :
    findRegionContaining (r.addr + j) = some r ∧ supply env (r.addr + j) = byte := by
  obtain ⟨hlen, hget⟩ := hc env.rtc
  have hlt : j < r.size := hlen ▸ (List.getElem?_eq_some_iff.mp hj).1
  have hr : findRegionContaining (r.addr + j) = some r :=
    findRegionContaining_iff.mpr ⟨Nat.le_add_right _ _, Nat.add_lt_add_left hlt _⟩
  obtain ⟨get, hg⟩ := r.get_isSome
  refine ⟨hr, ?_⟩
  rw [supply_eq hr hg, hget env rfl get hg, Nat.add_sub_cancel_left, List.getD_eq_getElem?_getD, hj]
  rfl

section
variable {b : Board} {i : Interrupt} {junk : UInt8} {hs : List Happening} {n : Nat}

theorem phase_events (hi : i.event = some .addr)
    (hread : hs.filterMap Happening.event = List.replicate n .txe) :
    (b.irqs (.irq i junk :: hs)).filterMap Interrupt.event = (Phase.read n).events := by
  have hi' : (Happening.irq i junk).event = some .addr := hi
  rw [b.irqs_events, List.filterMap_cons_some hi', hread]
  rfl

/-- **The bytes of one region show one value of the clock.** -/
theorem sent_region (hi : i.event = some .addr)
    (hread : hs.filterMap Happening.event = List.replicate n .txe)
    {fields : RtcTime → List UInt8} {r : Region} (hc : Copies fields r) :
    ∃ v ∈ b.clocks (.irq i junk :: hs), Sent (fields v) r.addr
      (b.i2c.base.toNat + b.i2c.offset.toNat) (b.run (.irq i junk :: hs)).2 := by
  have hphase := @phase_events b i junk hs n hi hread
  have hout := (b.run_irqs (.irq i junk :: hs)).2
  have hlen : (b.run (.irq i junk :: hs)).2.length = n := by
    rw [hout, read_length _ hphase]
  cases hsup : supplied findRegionContaining r
      (b.i2c.pointer.accesses (b.irqs (.irq i junk :: hs))) with
  | none =>
    -- no byte of the region is read
    refine ⟨b.rtc, b.clocks_self _, fun k hk j byte hj hq => ?_⟩
    obtain ⟨hr, _⟩ := hc.supply ⟨b.rtc, 0, []⟩ hj
    rw [← hq] at hr
    obtain ⟨back, hback⟩ := read_supplied _ hphase (hlen ▸ hk) hr
    rw [hsup] at hback
    exact nomatch hback
  | some back =>
    obtain ⟨i', hi', rfl⟩ := supplied_interrupt hsup
    refine ⟨i'.env.rtc, b.irqs_clocks _ i' hi', fun k hk j byte hj hq => ?_⟩
    obtain ⟨hr, hsupply⟩ := hc.supply i'.env hj
    rw [hout, read_byte _ hphase (hlen ▸ hk), hq, read_region _ hphase hr hsup, hsupply]

end

def lateBoard : Board := ⟨i2cInit, ⟨59, 59, 23, 7, 30, 12, 24, 1⟩⟩

/-- midnight comes after the seconds have been read, and then the clock is set -/
def midnightRead : List Happening :=
  let txe := Happening.irq (Event.irq quietEnv .txe) 0
  [txe, .tick rtcInit, txe, txe, .rtcSet rtcInit, txe, txe]

end Bramble
