import Bramble.Firmware.I2c
import Bramble.Lib.Lists

/-!
# I2C transactions with repeated starts

A transaction is a list of phases, each begun by ADDR, and one STOPF or AF. `cache_invalidate` runs
at each ADDR and `cache_flush` only at the end, so a region that a later phase touches is faulted in
again, over the bytes that an earlier phase wrote.

* `I2c.cache`             `nvram[]` and its flags are a write-back cache: `runIsr_data`,
                          `runIsr_transfers`;
* `cacheFlush_puts`       the buffers that the `put` callbacks get;
* `Phase.writes`          what the leader means to write; `eventAccesses_data`: the firmware does the
                          same with up to 255 bytes in a phase;
* `writes_kept_iff`       no write is lost iff the last phase that touches a region leaves the right
                          bytes in it;
* `writes_kept_fails`     two write phases to the matrix columns lose the first.
-/

namespace Bramble

/-! ## regions -/

theorem findRegionContaining_at {a : Nat} {r : Region} (addr size : Nat) (h1 : addr ≤ a) (h2 : a < addr + size)
    (h : ∀ i < size, findRegionContaining (addr + i) = some r) :
    findRegionContaining a = some r := by
  have ha : addr + (a - addr) = a := by omega
  rw [← ha]
  exact h _ (by omega)

theorem findRegionContaining_iff {a : Nat} {r : Region} :
    findRegionContaining a = some r ↔ r.addr ≤ a ∧ a < r.addr + r.size := by
  constructor
  · intro h
    have hp := List.find?_some h
    simpa using hp
  · rintro ⟨h1, h2⟩
    cases r with
    | ds1307 => exact findRegionContaining_at 0 7 h1 h2 (by decide)
    | reserved => exact findRegionContaining_at 7 1 h1 h2 (by decide)
    | matrixColumns => exact findRegionContaining_at 8 5 h1 h2 (by decide)
    | matrixChar => exact findRegionContaining_at 13 1 h1 h2 (by decide)
    | slot => exact findRegionContaining_at 14 1 h1 h2 (by decide)
    | version => exact findRegionContaining_at 15 22 h1 h2 (by decide)
    | debug => exact findRegionContaining_at 48 8 h1 h2 (by decide)

/-- `get` fills its region, whatever was there. -/
theorem Region.get_fills {r : Region} {get : Env → List UInt8 → List UInt8}
    (h : r.get = some get) (env : Env) {buf : List UInt8} (hb : buf.length = r.size) :
    get env buf = get env (List.replicate r.size 0) ∧ (get env buf).length = r.size := by
  cases r <;> cases Option.some.inj h <;>
    simp [ds1307GetBuf, getZeroes, addressGetFromIsr, versionGetFromIsr,
      ds1307PlusCountGetFromIsr, ds1307GetFromIsr, hb, Region.size, nvramMatrixColumnsSize,
      nvramMatrixCharSize, nvramSlotSize, nvramVersionSize]

theorem Region.put_injective {q r : Region} {f : Put} (hq : q.put = some f) (hr : r.put = some f) :
    q = r := by
  cases q <;> cases r <;> cases f <;> first | rfl | exact absurd hq (by decide) |
    exact absurd hr (by decide)

/-- what `cache_flush` looks for -/
def Region.writable (r : Region) : Bool := r.put.isSome

theorem slice_length (nvram : Nat → UInt8) (addr size : Nat) :
    (slice nvram addr size).length = size := by
  unfold slice
  rw [List.length_map, List.length_range]

theorem slice_get {nvram : Nat → UInt8} {addr size a : Nat} (h1 : addr ≤ a) (h2 : a < addr + size) :
    (slice nvram addr size)[a - addr]? = some (nvram a) := by
  have ha : addr + (a - addr) = a := by omega
  unfold slice
  rw [List.getElem?_map, List.getElem?_range (by omega), Option.map_some, ha]

/-! ## a write-back cache -/

def I2c.cache (s : I2c) : Cache Nat Region UInt8 := ⟨s.nvram, s.valid, s.dirty⟩

theorem supply_eq {r : Region} {get : Env → List UInt8 → List UInt8} {a : Nat}
    (ha : findRegionContaining a = some r) (h : r.get = some get) (env : Env) :
    supply env a = (get env (List.replicate r.size 0)).getD (a - r.addr) 0 := by
  unfold supply
  simp only [ha, h]

theorem store_get {r : Region} {get : Env → List UInt8 → List UInt8} (h : r.get = some get)
    (env : Env) (nvram : Nat → UInt8) :
    store nvram r.addr (get env (slice nvram r.addr r.size)) =
      fun a => if findRegionContaining a = some r then supply env a else nvram a := by
  obtain ⟨hfill, hlen⟩ := Region.get_fills h env (slice_length nvram r.addr r.size)
  funext a
  unfold store
  by_cases ha : findRegionContaining a = some r
  · obtain ⟨h1, h2⟩ := findRegionContaining_iff.mp ha
    rw [if_pos ha, if_pos h1, supply_eq ha h, ← hfill]
    rw [List.getD_eq_getElem _ _ (by omega), List.getD_eq_getElem _ _ (by omega)]
  · rw [if_neg ha]
    by_cases h1 : r.addr ≤ a
    · have h2 : ¬ a < r.addr + r.size := fun h2 => ha (findRegionContaining_iff.mpr ⟨h1, h2⟩)
      rw [if_pos h1, List.getD_eq_default _ _ (by omega)]
    · rw [if_neg h1]

theorem Region.get_isSome (r : Region) : ∃ get, r.get = some get := by
  cases r <;> exact ⟨_, rfl⟩

section
variable (env : Env) (s : I2c)

theorem faultIn_cache (a : Nat) :
    (faultIn env a s).cache = s.cache.load findRegionContaining (supply env) a := by
  unfold faultIn Cache.load
  cases findRegionContaining a with
  | none => rfl
  | some r =>
    obtain ⟨get, hget⟩ := r.get_isSome
    show I2c.cache (if s.valid r then s else _) = if s.valid r then s.cache else _
    by_cases hv : s.valid r
    · rw [if_pos hv, if_pos hv]
    · rw [if_neg hv, if_neg hv, hget]
      unfold I2c.cache
      show Cache.mk (store _ _ (get env _)) _ _ = _
      rw [store_get hget]

theorem faultIn_pointer (a : Nat) : (faultIn env a s).pointer = s.pointer := by
  unfold faultIn
  split
  · rfl
  · split <;> rfl

theorem nvramPut_cache (base offset value : UInt8) :
    (nvramPut env base offset value s).cache = s.cache.access findRegionContaining Region.writable
      (.write (nvramAddr base offset) value, supply env) := by
  rw [Cache.access_write, ← faultIn_cache]
  unfold nvramPut Cache.mark
  dsimp only
  cases findRegionContaining (nvramAddr base offset) with
  | none => rfl
  | some r =>
    show I2c.cache (if r.put.isSome then _ else _) = if r.put.isSome then _ else _
    split <;> rfl

theorem nvramPut_pointer (base offset value : UInt8) :
    (nvramPut env base offset value s).pointer = s.pointer := by
  have h := faultIn_pointer env s (nvramAddr base offset)
  unfold nvramPut
  dsimp only
  cases findRegionContaining (nvramAddr base offset) with
  | none => exact h
  | some r =>
    show I2c.pointer (if r.put.isSome then _ else _) = _
    split <;> exact h

end

/-! ## runs of the handler -/

def Event.IsData : Event → Prop
  | .rxne _ => True
  | .txe => True
  | _ => False

/-- no callback is called -/
def Quiet (out : List Output) : Prop := ∀ o ∈ out, ∃ val, o = .sendData val

theorem Quiet.nil : Quiet [] := fun _ h => absurd h List.not_mem_nil

theorem Quiet.append {out out' : List Output} (h : Quiet out) (h' : Quiet out') :
    Quiet (out ++ out') := by
  intro o ho
  rcases List.mem_append.mp ho with ho | ho
  · exact h o ho
  · exact h' o ho

section
variable {s : I2c} {i : Interrupt} {is : List Interrupt}

theorem i2c2EvIsr_event (s : I2c) (i : Interrupt) : i2c2EvIsr s i = match i.event with
    | none => (s, [])
    | some .addr => (cacheInvalidate { s with writeCount := 0 }, [])
    | some (.rxne val) => (recvByte i.env val s, [])
    | some .txe => xmitByte i.env s
    | some .stopf => cacheFlush s
    | some .af => cacheFlush s := by
  unfold i2c2EvIsr Interrupt.event
  split
  · rfl
  · split
    · rfl
    · split
      · rfl
      · split
        · rfl
        · split <;> rfl

theorem recvByte_cache (env : Env) (val : UInt8) (s : I2c) :
    (recvByte env val s).cache = s.cache.accesses findRegionContaining Region.writable
        ((s.pointer.access (.rxne val)).toList.map fun x => (x, supply env)) ∧
      (recvByte env val s).pointer = s.pointer.next (.rxne val) := by
  unfold recvByte Pointer.access Pointer.next I2c.pointer
  by_cases hw : s.writeCount = 0
  · simp only [hw, if_true]
    exact ⟨rfl, True.intro⟩
  · simp only [hw, if_false]
    have hp := nvramPut_pointer env s s.base s.offset val
    simp only [I2c.pointer, Pointer.mk.injEq] at hp
    refine ⟨nvramPut_cache env s s.base s.offset val, ?_⟩
    rw [hp.1, hp.2.2]

theorem xmitByte_cache (env : Env) (s : I2c) :
    (xmitByte env s).1.cache = s.cache.accesses findRegionContaining Region.writable
        ((s.pointer.access .txe).toList.map fun x => (x, supply env)) ∧
      (xmitByte env s).1.pointer = s.pointer.next .txe ∧ Quiet (xmitByte env s).2 := by
  refine ⟨faultIn_cache env s _, ?_, fun o ho => ⟨_, List.mem_singleton.mp ho⟩⟩
  have hp := faultIn_pointer env s (nvramAddr s.base s.offset)
  simp only [I2c.pointer, Pointer.mk.injEq] at hp
  show Pointer.mk (faultIn env _ s).base (s.offset + 1) (faultIn env _ s).writeCount = _
  rw [hp.1, hp.2.2]
  rfl

theorem runIsr_cons : runIsr s (i :: is) = ((runIsr (i2c2EvIsr s i).1 is).1,
    (i2c2EvIsr s i).2 ++ (runIsr (i2c2EvIsr s i).1 is).2) := rfl

theorem runIsr_append (is' : List Interrupt) : runIsr s (is ++ is') =
    ((runIsr (runIsr s is).1 is').1, (runIsr s is).2 ++ (runIsr (runIsr s is).1 is').2) := by
  induction is generalizing s with
  | nil => rfl
  | cons i is ih =>
    rw [List.cons_append, runIsr_cons, runIsr_cons, ih, List.append_assoc]

theorem accesses_none (p : Pointer) (h : i.event = none) : p.accesses (i :: is) = p.accesses is := by
  rw [Pointer.accesses, h]

theorem accesses_some (p : Pointer) {e : Event} (h : i.event = some e) :
    p.accesses (i :: is) =
      ((p.access e).toList.map fun x => (x, supply i.env)) ++ (p.next e).accesses is := by
  rw [Pointer.accesses, h]

/-- **The handler makes the accesses, and calls no callback while bytes come and go.** -/
theorem runIsr_data (s : I2c) (is : List Interrupt)
    (hd : ∀ e ∈ is.filterMap Interrupt.event, e.IsData) :
    (runIsr s is).1.cache =
        s.cache.accesses findRegionContaining Region.writable (s.pointer.accesses is) ∧
      (runIsr s is).1.pointer = s.pointer.after (is.filterMap Interrupt.event) ∧
      Quiet (runIsr s is).2 := by
  induction is generalizing s with
  | nil => exact ⟨rfl, rfl, Quiet.nil⟩
  | cons i is ih =>
    rw [runIsr_cons]
    cases he : i.event with
    | none =>
      rw [List.filterMap_cons_none he] at hd ⊢
      rw [i2c2EvIsr_event, he, accesses_none _ he]
      exact ih s hd
    | some e =>
      rw [List.filterMap_cons_some he] at hd ⊢
      have hstep : (i2c2EvIsr s i).1.cache =
          s.cache.accesses findRegionContaining Region.writable
            ((s.pointer.access e).toList.map fun x => (x, supply i.env)) ∧
          (i2c2EvIsr s i).1.pointer = s.pointer.next e ∧ Quiet (i2c2EvIsr s i).2 := by
        cases e with
        | rxne val =>
          rw [i2c2EvIsr_event, he]
          obtain ⟨h1, h2⟩ := recvByte_cache i.env val s
          exact ⟨h1, h2, Quiet.nil⟩
        | txe =>
          rw [i2c2EvIsr_event, he]
          exact xmitByte_cache i.env s
        | addr => exact (hd _ List.mem_cons_self).elim
        | stopf => exact (hd _ List.mem_cons_self).elim
        | af => exact (hd _ List.mem_cons_self).elim
      obtain ⟨h1, h2, h3⟩ := hstep
      obtain ⟨r1, r2, r3⟩ := ih (i2c2EvIsr s i).1 fun e' h' => hd e' (List.mem_cons_of_mem _ h')
      refine ⟨?_, ?_, h3.append r3⟩
      · rw [r1, h1, h2, accesses_some _ he, Cache.accesses_append]
      · rw [r2, h2]
        rfl

/-- **One phase** -/
theorem runIsr_phase (s : I2c) (is : List Interrupt) {es : List Event}
    (h : is.filterMap Interrupt.event = .addr :: es) (hd : ∀ e ∈ es, e.IsData) :
    (runIsr s is).1.cache =
        s.cache.phase findRegionContaining Region.writable (s.pointer.accesses is) ∧
      (runIsr s is).1.pointer = s.pointer.after (.addr :: es) ∧ Quiet (runIsr s is).2 := by
  refine filterMap_cons_induction h (fun i is he ih => ?_) fun i is he hes => ?_
  · rw [runIsr_cons, i2c2EvIsr_event, he, accesses_none _ he]
    exact ih
  · rw [← hes] at hd
    obtain ⟨r1, r2, r3⟩ := runIsr_data (cacheInvalidate { s with writeCount := 0 }) is hd
    rw [runIsr_cons, i2c2EvIsr_event, he, accesses_some _ he, ← hes]
    exact ⟨r1, r2, r3⟩

end

/-! ## `cache_flush` -/

theorem cacheFlushFrom_puts (rs : List Region) (hrs : rs.Nodup) (s : I2c) (f : Put)
    (buf : List UInt8) : .put f buf ∈ (cacheFlushFrom rs s).2 ↔
      ∃ r ∈ rs, s.dirty r = true ∧ r.put = some f ∧ buf = slice s.nvram r.addr r.size := by
  induction rs generalizing s with
  | nil => simp [cacheFlushFrom]
  | cons q rs ih =>
    obtain ⟨hq, hrs'⟩ := List.nodup_cons.mp hrs
    unfold cacheFlushFrom
    by_cases hd : s.dirty q
    · have hrest : ∀ r ∈ rs, Function.update s.dirty q false r = s.dirty r := by
        intro r hr
        exact Function.update_of_ne (fun h : r = q => hq (h ▸ hr)) _ _
      rw [if_pos hd]
      show .put f buf ∈ _ ++ (cacheFlushFrom rs _).2 ↔ _
      rw [List.mem_append, ih hrs', List.exists_mem_cons_iff]
      refine or_congr ?_ (exists_congr fun r => and_congr_right fun hr => ?_)
      · cases hp : q.put with
        | none => simp
        | some g =>
          simp only [List.mem_singleton, Output.put.injEq, Option.some.injEq, hd, true_and]
          exact and_congr_left fun _ => eq_comm
      · show Function.update s.dirty q false r = true ∧ _ ↔ _
        rw [hrest r hr]
    · rw [if_neg hd, ih hrs', List.exists_mem_cons_iff]
      simp [hd]

/-- **What the `put` callbacks are called with** -/
theorem cacheFlush_puts (s : I2c) (f : Put) (buf : List UInt8) : .put f buf ∈ (cacheFlush s).2 ↔
    ∃ r : Region, s.dirty r = true ∧ r.put = some f ∧ buf = slice s.nvram r.addr r.size := by
  unfold cacheFlush
  rw [cacheFlushFrom_puts nvtab (by decide)]
  refine exists_congr fun r => and_iff_right ?_
  cases r <;> decide

/-! ## transactions -/

inductive Phase where
  | write (base : UInt8) (data : List UInt8)
  /-- from where the last access stopped -/
  | read (n : Nat)

def Phase.events : Phase → List Event
  | .write base data => .addr :: .rxne base :: data.map .rxne
  | .read n => .addr :: List.replicate n .txe

/-- `data` written from the address `q` on -/
def writesFrom : Nat → List UInt8 → List (Access Nat UInt8)
  | _, [] => []
  | q, val :: data => .write (q % 64) val :: writesFrom (q + 1) data

def Phase.writes : Phase → List (Access Nat UInt8)
  | .write base data => writesFrom base.toNat data
  | .read _ => []

/-- a phase, as the interrupts that it raises -/
structure Transfer where
  phase : Phase
  irqs : List Interrupt
  ok : irqs.filterMap Interrupt.event = phase.events

/-- the accesses of each phase -/
def Pointer.transfers : Pointer → List Transfer → List (List (TimedAccess Nat UInt8))
  | _, [] => []
  | p, t :: ts => p.accesses t.irqs :: (p.after t.phase.events).transfers ts

/-- a transaction, from ADDR to STOPF or AF -/
def transaction (ts : List Transfer) (last : Interrupt) : List Interrupt :=
  ts.flatMap (·.irqs) ++ [last]

def Event.irq (env : Env) : Event → Interrupt
  | .addr => ⟨⟨true, false, false, false, false, false⟩, 0, env⟩
  | .rxne val => ⟨⟨false, true, false, false, false, false⟩, val, env⟩
  | .txe => ⟨⟨false, false, true, false, false, false⟩, 0, env⟩
  | .stopf => ⟨⟨false, false, false, false, true, false⟩, 0, env⟩
  | .af => ⟨⟨false, false, false, false, false, true⟩, 0, env⟩

theorem Event.irq_event (env : Env) (e : Event) : (e.irq env).event = some e := by
  cases e <;> rfl

/-- a phase during which nothing changes outside -/
def Phase.transfer (env : Env) (ph : Phase) : Transfer where
  phase := ph
  irqs := ph.events.map (Event.irq env)
  ok := by
    rw [List.filterMap_map, funext (f := Interrupt.event ∘ Event.irq env) (Event.irq_event env)]
    exact List.filterMap_some

/-- Every region with a `put` callback gets, at each address written, the byte last written. -/
def WritesKept (ts : List Transfer) (out : List Output) : Prop :=
  ∀ a val r f, lastWrite a (ts.flatMap (·.phase.writes)) = some val →
    findRegionContaining a = some r → r.put = some f →
      ∃ buf, .put f buf ∈ out ∧ buf[a - r.addr]? = some val

theorem Phase.events_data (ph : Phase) :
    ∃ es, ph.events = .addr :: es ∧ ∀ e ∈ es, e.IsData := by
  cases ph with
  | write base data =>
    refine ⟨_, rfl, fun e he => ?_⟩
    rcases List.mem_cons.mp he with rfl | he
    · trivial
    · obtain ⟨val, _, rfl⟩ := List.mem_map.mp he
      trivial
  | read n =>
    refine ⟨_, rfl, fun e he => ?_⟩
    rw [List.eq_of_mem_replicate he]
    trivial

/-- **One phase of a transaction** is one phase of the cache. -/
theorem runIsr_events (s : I2c) {is : List Interrupt} {ph : Phase}
    (h : is.filterMap Interrupt.event = ph.events) :
    (runIsr s is).1.cache =
        s.cache.phase findRegionContaining Region.writable (s.pointer.accesses is) ∧
      (runIsr s is).1.pointer = s.pointer.after ph.events ∧ Quiet (runIsr s is).2 := by
  obtain ⟨es, hes, hd⟩ := ph.events_data
  rw [hes]
  exact runIsr_phase s is (h.trans hes) hd

theorem runIsr_nvram (s : I2c) {is : List Interrupt} {ph : Phase}
    (h : is.filterMap Interrupt.event = ph.events) :
    (runIsr s is).1.nvram =
      image findRegionContaining s.nvram (s.pointer.accesses is) := by
  show (runIsr s is).1.cache.mem = _
  rw [(runIsr_events s h).1]
  exact Cache.mem_phase _

/-- **The phases of a transaction are phases of the cache.** -/
theorem runIsr_transfers (s : I2c) (ts : List Transfer) :
    (runIsr s (ts.flatMap (·.irqs))).1.cache =
        s.cache.phases findRegionContaining Region.writable (s.pointer.transfers ts) ∧
      Quiet (runIsr s (ts.flatMap (·.irqs))).2 := by
  induction ts generalizing s with
  | nil => exact ⟨rfl, Quiet.nil⟩
  | cons t ts ih =>
    obtain ⟨h1, h2, h3⟩ := runIsr_events s t.ok
    obtain ⟨r1, r2⟩ := ih (runIsr s t.irqs).1
    rw [List.flatMap_cons, runIsr_append]
    refine ⟨?_, h3.append r2⟩
    rw [r1, h1, h2]
    rfl

/-! ## the bytes that arrive -/

theorem nvramAddr_eq (base offset : UInt8) :
    nvramAddr base offset = (base.toNat + offset.toNat) % 64 :=
  Nat.and_two_pow_sub_one_eq_mod _ 6

theorem accesses_events (p : Pointer) (is : List Interrupt) :
    (p.accesses is).map (·.1) = p.eventAccesses (is.filterMap Interrupt.event) := by
  induction is generalizing p with
  | nil => rfl
  | cons i is ih =>
    cases he : i.event with
    | none =>
      rw [accesses_none p he, List.filterMap_cons_none he]
      exact ih p
    | some e =>
      rw [accesses_some p he, List.filterMap_cons_some he, List.map_append, ih]
      show _ = (p.access e).toList ++ (p.next e).eventAccesses _
      congr 1
      rw [List.map_map]
      exact List.map_id _

theorem eventAccesses_append (p : Pointer) (es es' : List Event) :
    p.eventAccesses (es ++ es') = p.eventAccesses es ++ (p.after es).eventAccesses es' := by
  induction es generalizing p with
  | nil => rfl
  | cons e es ih =>
    show _ ++ (p.next e).eventAccesses (es ++ es') = (_ ++ _) ++ _
    rw [ih, List.append_assoc]
    rfl

theorem offset_succ (o : UInt8) : (o + 1).toNat % 64 = (o.toNat + 1) % 64 := by
  rw [UInt8.toNat_add]
  show (o.toNat + 1) % 256 % 64 = _
  omega

/-- a data byte goes to the next address, where `write_count` is not 0 -/
theorem Pointer.data_step {b o c : UInt8} {q : Nat} (val : UInt8) (hc : ¬ c = 0)
    (hq : q % 64 = (b.toNat + o.toNat) % 64) :
    Pointer.access ⟨b, o, c⟩ (.rxne val) = some (.write (q % 64) val) ∧
      Pointer.next ⟨b, o, c⟩ (.rxne val) = ⟨b, o + 1, c + 1⟩ ∧
      (q + 1) % 64 = (b.toNat + (o + 1).toNat) % 64 := by
  have ho := offset_succ o
  have haccess : Pointer.access ⟨b, o, c⟩ (.rxne val) = some (.write (nvramAddr b o) val) :=
    if_neg hc
  refine ⟨?_, if_neg hc, by omega⟩
  rw [haccess, nvramAddr_eq, hq]

theorem Pointer.read_step {p : Pointer} {q : Nat}
    (hq : q % 64 = (p.base.toNat + p.offset.toNat) % 64) :
    p.access .txe = some (.read (q % 64)) ∧
      (q + 1) % 64 = ((p.next .txe).base.toNat + (p.next .txe).offset.toNat) % 64 := by
  have ho := offset_succ p.offset
  constructor
  · show some (Access.read (nvramAddr p.base p.offset)) = _
    rw [nvramAddr_eq, hq]
  · show _ = (p.base.toNat + (p.offset + 1).toNat) % 64
    omega

theorem toNat_ne_zero {c : UInt8} (h : 1 ≤ c.toNat) : ¬ c = 0 := by
  intro h0
  rw [h0] at h
  exact absurd h (by decide)

/-- **Until `write_count` wraps, the bytes go where they are meant to go.** -/
theorem eventAccesses_data (b o c : UInt8) (q : Nat) (data : List UInt8)
    (hc : 1 ≤ c.toNat) (hlen : c.toNat + data.length ≤ 256)
    (hq : q % 64 = (b.toNat + o.toNat) % 64) :
    Pointer.eventAccesses ⟨b, o, c⟩ (data.map .rxne) = writesFrom q data := by
  induction data generalizing o c q with
  | nil => rfl
  | cons val data ih =>
    obtain ⟨haccess, hnext, hq'⟩ := Pointer.data_step val (toNat_ne_zero hc) hq
    rw [List.length_cons] at hlen
    show (Pointer.access ⟨b, o, c⟩ (.rxne val)).toList ++
      (Pointer.next ⟨b, o, c⟩ (.rxne val)).eventAccesses (data.map .rxne) = _
    rw [haccess, hnext]
    show Access.write (q % 64) val :: _ = Access.write (q % 64) val :: _
    congr 1
    cases data with
    | nil => rfl
    | cons val' data =>
      rw [List.length_cons] at hlen
      have hc1 : (c + 1).toNat = c.toNat + 1 := toNat_succ (by omega)
      exact ih (o + 1) (c + 1) (q + 1) (by omega) (by rw [hc1, List.length_cons]; omega) hq'

theorem mem_writesFrom (q a : Nat) (val : UInt8) (data : List UInt8) :
    .write a val ∈ writesFrom q data ↔ ∃ k : Nat, data[k]? = some val ∧ a = (q + k) % 64 := by
  induction data generalizing q with
  | nil => simp [writesFrom]
  | cons x data ih =>
    unfold writesFrom
    rw [List.mem_cons, ih, Access.write.injEq]
    constructor
    · rintro (⟨rfl, rfl⟩ | ⟨k, hk, rfl⟩)
      · exact ⟨0, rfl, rfl⟩
      · exact ⟨k + 1, hk, by rw [Nat.add_assoc, Nat.add_comm 1 k]⟩
    · rintro ⟨k, hk, rfl⟩
      cases k with
      | zero => exact .inl ⟨rfl, (Option.some.inj hk).symm⟩
      | succ k => exact .inr ⟨k, hk, by rw [Nat.add_assoc, Nat.add_comm 1 k]⟩

theorem Phase.write_lands {ph : Phase} {a : Nat} {val : UInt8} (h : .write a val ∈ ph.writes)
    (p : Pointer) : ∃ val', .write a val' ∈ p.eventAccesses ph.events := by
  cases ph with
  | read n => exact absurd h List.not_mem_nil
  | write base data =>
    obtain ⟨k, hk, ha⟩ := (mem_writesFrom _ _ _ _).mp h
    -- the first 64 bytes already pass every address
    have hlt : k < data.length := (List.getElem?_eq_some_iff.mp hk).1
    have hfirst : Pointer.eventAccesses ⟨base, 0, 1⟩ ((data.take 255).map .rxne) =
        writesFrom base.toNat (data.take 255) := by
      refine eventAccesses_data base 0 1 base.toNat _ (by decide) ?_ (by simp)
      rw [List.length_take]
      show 1 + min 255 data.length ≤ 256
      omega
    have hsplit : data.map Event.rxne =
        (data.take 255).map .rxne ++ (data.drop 255).map .rxne := by
      rw [← List.map_append, List.take_append_drop]
    have hall : p.eventAccesses (Phase.write base data).events =
        Pointer.eventAccesses ⟨base, 0, 1⟩ (data.map .rxne) := rfl
    have hj : k % 64 < data.length := Nat.lt_of_le_of_lt (Nat.mod_le k 64) hlt
    refine ⟨data[k % 64], ?_⟩
    rw [hall, hsplit, eventAccesses_append, hfirst]
    apply List.mem_append_left
    refine (mem_writesFrom _ _ _ _).mpr ⟨k % 64, ?_, by omega⟩
    rw [List.getElem?_take_of_lt (by omega), List.getElem?_eq_getElem hj]

theorem mem_transfers (p : Pointer) {t : Transfer} {ts : List Transfer} (h : t ∈ ts) :
    ∃ p' : Pointer, p'.accesses t.irqs ∈ p.transfers ts := by
  induction ts generalizing p with
  | nil => exact absurd h List.not_mem_nil
  | cons t' ts ih =>
    rcases List.mem_cons.mp h with rfl | h
    · exact ⟨p, List.mem_cons_self⟩
    · obtain ⟨p', hp'⟩ := ih (p.after t'.phase.events) h
      exact ⟨p', List.mem_cons_of_mem _ hp'⟩

theorem exists_write {p : Pointer} {ts : List Transfer} {a : Nat} {val : UInt8}
    (h : lastWrite a (ts.flatMap (·.phase.writes)) = some val) :
    ∃ xs ∈ p.transfers ts, ∃ val', .write a val' ∈ xs.map (·.1) := by
  obtain ⟨t, ht, hw⟩ := List.mem_flatMap.mp (lastWrite_mem h)
  obtain ⟨p', hp'⟩ := mem_transfers p ht
  obtain ⟨val', hval'⟩ := Phase.write_lands hw p'
  refine ⟨_, hp', val', ?_⟩
  rw [accesses_events, t.ok]
  exact hval'

/-! ## the theorem -/

/-- The last phase that touches `r` writes `val` last at `a`, or nothing, and then `get` supplied
`val` when this phase began to touch `r`. -/
def Survives (r : Region) (a : Nat) (val : UInt8) (xss : List (List (TimedAccess Nat UInt8))) :
    Prop :=
  ∃ before xs after, xss = before ++ xs :: after ∧
    (∀ ys ∈ after, ∀ y ∈ ys, ¬ Touches findRegionContaining r y) ∧
    ∃ back, supplied findRegionContaining r xs = some back ∧
      (lastWrite a (xs.map (·.1)) = some val ∨ lastWrite a (xs.map (·.1)) = none ∧ back a = val)

theorem survives_iff (r : Region) (a : Nat) (val : UInt8)
    (xss : List (List (TimedAccess Nat UInt8))) : Survives r a val xss ↔
      xss.reverse.findSome? (leaves findRegionContaining r a) = some val := by
  rw [findSome_reverse_leaves]
  unfold Survives
  refine exists_congr fun before => exists_congr fun xs => exists_congr fun after =>
    and_congr_right fun _ => ?_
  rw [← leaves_some, and_comm]

/-- some phase touches the region of an address that is meant to be written -/
theorem exists_leaves {p : Pointer} {ts : List Transfer} {a : Nat} {val : UInt8} {r : Region}
    (h : lastWrite a (ts.flatMap (·.phase.writes)) = some val)
    (hr : findRegionContaining a = some r) :
    ∃ v, (p.transfers ts).reverse.findSome? (leaves findRegionContaining r a) = some v := by
  obtain ⟨xs, hxs, val', hmem⟩ := @exists_write p ts a val h
  obtain ⟨x, hx, hx'⟩ := List.mem_map.mp hmem
  have htouch : Touches findRegionContaining r x := touches_of_eq _ hx' hr
  apply Option.isSome_iff_exists.mp
  rw [List.findSome?_isSome_iff]
  refine ⟨xs, List.mem_reverse.mpr hxs, ?_⟩
  rw [Option.isSome_iff_ne_none]
  exact fun hnone => (leaves_none findRegionContaining).mp hnone x hx htouch

theorem flush_iff (s : I2c) (ts : List Transfer) {a : Nat} {val : UInt8} {r : Region} {f : Put}
    (h : lastWrite a (ts.flatMap (·.phase.writes)) = some val)
    (hr : findRegionContaining a = some r) (hf : r.put = some f) :
    (∃ buf, .put f buf ∈ (cacheFlush (runIsr s (ts.flatMap (·.irqs))).1).2 ∧
        buf[a - r.addr]? = some val) ↔
      (runIsr s (ts.flatMap (·.irqs))).1.nvram a = val := by
  obtain ⟨h1, h2⟩ := findRegionContaining_iff.mp hr
  obtain ⟨xs, hxs, val', hmem⟩ := @exists_write s.pointer ts a val h
  have hcache := (runIsr_transfers s ts).1
  generalize (runIsr s (ts.flatMap (·.irqs))).1 = t at hcache ⊢
  have hwritable : r.writable = true := by
    unfold Region.writable
    rw [hf]
    rfl
  have hdirty : t.dirty r = true := by
    show t.cache.dirty r = true
    rw [hcache]
    exact Cache.dirty_phases_write hr hwritable hxs hmem
  constructor
  · rintro ⟨buf, hbuf, hval⟩
    obtain ⟨q, _, hq, rfl⟩ := (cacheFlush_puts t f buf).mp hbuf
    rw [Region.put_injective hq hf, slice_get h1 h2] at hval
    exact Option.some.inj hval
  · intro hval
    refine ⟨_, (cacheFlush_puts t f _).mpr ⟨r, hdirty, hf, rfl⟩, ?_⟩
    rw [slice_get h1 h2, hval]

theorem i2c2EvIsr_stop (s : I2c) {last : Interrupt}
    (hlast : last.event = some .stopf ∨ last.event = some .af) :
    i2c2EvIsr s last = cacheFlush s := by
  rw [i2c2EvIsr_event]
  rcases hlast with h | h <;> rw [h]

theorem runIsr_stop (s : I2c) (is : List Interrupt) {last : Interrupt}
    (hlast : last.event = some .stopf ∨ last.event = some .af) :
    runIsr s (is ++ [last]) = ((cacheFlush (runIsr s is).1).1,
      (runIsr s is).2 ++ (cacheFlush (runIsr s is).1).2) := by
  rw [runIsr_append, runIsr_cons, i2c2EvIsr_stop _ hlast]
  show (_, _ ++ (_ ++ [])) = _
  rw [List.append_nil]
  rfl

/-- the `put` calls of a transaction are those of its `cache_flush` -/
theorem transaction_puts (s : I2c) (ts : List Transfer) {last : Interrupt}
    (hlast : last.event = some .stopf ∨ last.event = some .af) (f : Put) (buf : List UInt8) :
    .put f buf ∈ (runIsr s (transaction ts last)).2 ↔
      .put f buf ∈ (cacheFlush (runIsr s (ts.flatMap (·.irqs))).1).2 := by
  have hquiet := (runIsr_transfers s ts).2
  unfold transaction
  rw [runIsr_stop s _ hlast, List.mem_append]
  constructor
  · rintro (h | h)
    · obtain ⟨val, hval⟩ := hquiet _ h
      cases hval
    · exact h
  · exact .inr

/-- **No write is lost across repeated starts iff the last phase that touches a region leaves in it
the bytes last written.** -/
theorem writes_kept_iff (s : I2c) (ts : List Transfer) (last : Interrupt)
    (hlast : last.event = some .stopf ∨ last.event = some .af) :
    WritesKept ts (runIsr s (transaction ts last)).2 ↔
      ∀ a val r f, lastWrite a (ts.flatMap (·.phase.writes)) = some val →
        findRegionContaining a = some r → r.put = some f →
          Survives r a val (s.pointer.transfers ts) := by
  unfold WritesKept
  refine forall₄_congr fun a val r f => imp_congr_right fun h => imp_congr_right fun hr =>
    imp_congr_right fun hf => ?_
  have hmem : (runIsr s (ts.flatMap (·.irqs))).1.nvram a =
      ((s.pointer.transfers ts).reverse.findSome? (leaves findRegionContaining r a)).getD
        (s.nvram a) := by
    show (runIsr s (ts.flatMap (·.irqs))).1.cache.mem a = _
    rw [(runIsr_transfers s ts).1]
    exact Cache.mem_phases hr _
  obtain ⟨v, hv⟩ := @exists_leaves s.pointer ts a val r h hr
  rw [survives_iff, hv]
  rw [hv, Option.getD_some] at hmem
  simp only [transaction_puts s ts hlast]
  rw [flush_iff s ts h hr hf, hmem, Option.some.injEq]

/-- the follower at power on -/
def i2cInit : I2c where
  nvram := fun _ => 0
  valid := fun _ => false
  dirty := fun _ => false
  base := 0
  offset := 0
  writeCount := 0

def quietEnv : Env := ⟨rtcInit, 3, []⟩

/-- the columns of a `1` are written, then the digit itself, and the slot is read -/
def writeColumnsThenChar : List Transfer :=
  [.write 8 [0, 66, 127, 64, 0], .write 13 [49], .read 1].map (Phase.transfer quietEnv)

theorem writes_kept_columns : WritesKept writeColumnsThenChar
    (runIsr i2cInit (transaction writeColumnsThenChar (Event.irq quietEnv .af))).2 := by
  refine (writes_kept_iff i2cInit _ _ (.inr rfl)).mpr fun a val r f h hr hf => ?_
  have hmem : Access.write a val ∈ [Access.write 8 0, .write 9 66, .write 10 127, .write 11 64,
    .write 12 0, .write 13 49] := lastWrite_mem h
  apply (survives_iff r a val _).mpr
  simp only [List.mem_cons, Access.write.injEq, List.not_mem_nil, or_false] at hmem
  obtain ⟨rfl, rfl⟩ | ⟨rfl, rfl⟩ | ⟨rfl, rfl⟩ | ⟨rfl, rfl⟩ | ⟨rfl, rfl⟩ | ⟨rfl, rfl⟩ := hmem <;>
    · cases Option.some.inj hr
      decide

/-- the second write phase faults the columns in again -/
def writeColumnsTwice : List Transfer :=
  [.write 8 [66], .write 9 [127]].map (Phase.transfer quietEnv)

/-- **A write is lost**: the matrix gets the columns 0, 127, 0, 0, 0. -/
theorem writes_kept_fails : ¬ ∀ (s : I2c) (ts : List Transfer) (last : Interrupt),
    last.event = some .stopf ∨ last.event = some .af →
      WritesKept ts (runIsr s (transaction ts last)).2 := by
  intro h
  obtain ⟨buf, hbuf, hval⟩ := h i2cInit writeColumnsTwice (Event.irq quietEnv .stopf) (.inl rfl) 8 66
    .matrixColumns .matrixPutColumnsFromIsr rfl rfl rfl
  have hout : (runIsr i2cInit (transaction writeColumnsTwice (Event.irq quietEnv .stopf))).2 =
    [.put .matrixPutColumnsFromIsr [0, 127, 0, 0, 0]] := by decide
  rw [hout, List.mem_singleton, Output.put.injEq] at hbuf
  rw [hbuf.2] at hval
  exact absurd hval (by decide)

end Bramble
