import Bramble.Firmware.Transaction

/-!
# I2C write transactions of any length

`write_count` has 8 bits: the byte after 255 data bytes finds it at 0 again and is taken as a base
address.

* `meantWrite`            the accesses that the leader means to make, with what `get` supplies;
* `Stores`                what the transaction should do;
* `landed`, `rebase`      where the bytes go, and the base address at the end;
* `Lands`                 nothing is lost where `write_count` wraps;
* `cacheFlush_calls`      the calls of one callback in `cache_flush`;
* `write_stores_iff`      a write transaction does what it should iff nothing is lost there, and no
                          region that it does not write was dirty;
* `write_stores_fails`    a 256th data byte is lost.
-/

namespace Bramble

/-! ## what the leader means -/

/-- the bytes that arrive, written from the address `q` on -/
def meantFrom : Nat → List Interrupt → List (TimedAccess Nat UInt8)
  | _, [] => []
  | q, i :: is =>
    match i.event with
    | some (.rxne val) => (.write (q % 64) val, supply i.env) :: meantFrom (q + 1) is
    | _ => meantFrom q is

/-- the first byte that arrives is the base address -/
def meantWrite : List Interrupt → List (TimedAccess Nat UInt8)
  | [] => []
  | i :: is =>
    match i.event with
    | some (.rxne base) => meantFrom base.toNat is
    | _ => meantWrite is

/-- the buffers that a callback is called with -/
def calls (f : Put) (out : List Output) : List (List UInt8) :=
  out.filterMap fun o => match o with
    | .put g buf => if g = f then some buf else none
    | .sendData _ => none

/-- What a write transaction does to `s`, when `t` is the state after it, `before` the output until
the stop and `out` that of the stop. -/
structure Stores (s : I2c) (base : UInt8) (xs : List (TimedAccess Nat UInt8)) (before : List Output)
    (t : I2c) (out : List Output) : Prop where
  based : t.base = base
  memory : t.nvram = image findRegionContaining s.nvram xs
  /-- no callback is called before the stop -/
  quiet : Quiet before
  /-- the callback of a region that is written is called once -/
  called : ∀ r f, r.put = some f → (∃ x ∈ xs, Touches findRegionContaining r x) →
    calls f out = [slice (image findRegionContaining s.nvram xs) r.addr r.size]
  uncalled : ∀ r f, r.put = some f → (¬ ∃ x ∈ xs, Touches findRegionContaining r x) →
    calls f out = []
  clean : ∀ r, t.dirty r = false

/-! ## where the bytes go -/

/-- from the address `q` on; after `n` bytes one is taken as a base address -/
def landed : Nat → Nat → List UInt8 → List (Access Nat UInt8)
  | _, _, [] => []
  | _, 0, base :: data => landed base.toNat 255 data
  | q, n + 1, val :: data => .write (q % 64) val :: landed (q + 1) n data

def rebase : UInt8 → Nat → List UInt8 → UInt8
  | base, _, [] => base
  | _, 0, base :: data => rebase base 255 data
  | base, n + 1, _ :: data => rebase base n data

/-- Nothing is lost where `write_count` wraps: there is no such byte, or the same bytes come last and
the base address is the same. -/
def Lands (base : UInt8) (data : List UInt8) : Prop :=
  data.length ≤ 255 ∨ rebase base 255 data = base ∧
    ∀ a, lastWrite a (landed base.toNat 255 data) = lastWrite a (writesFrom base.toNat data)

theorem landed_short (q n : Nat) {data : List UInt8} (h : data.length ≤ n) :
    landed q n data = writesFrom q data := by
  induction data generalizing q n with
  | nil =>
    unfold landed
    rfl
  | cons val data ih =>
    cases n with
    | zero => exact absurd h (by simp)
    | succ n =>
      unfold landed writesFrom
      rw [ih (q + 1) n (by simpa using h)]

theorem rebase_short (base : UInt8) (n : Nat) {data : List UInt8} (h : data.length ≤ n) :
    rebase base n data = base := by
  induction data generalizing n with
  | nil =>
    unfold rebase
    rfl
  | cons val data ih =>
    cases n with
    | zero => exact absurd h (by simp)
    | succ n =>
      unfold rebase
      exact ih n (by simpa using h)

theorem Lands.rebase_eq {base : UInt8} {data : List UInt8} (h : Lands base data) :
    rebase base 255 data = base := by
  rcases h with hlen | ⟨hbase, _⟩
  · exact rebase_short base 255 hlen
  · exact hbase

theorem Lands.lastWrite_eq {base : UInt8} {data : List UInt8} (h : Lands base data) (a : Nat) :
    lastWrite a (landed base.toNat 255 data) = lastWrite a (writesFrom base.toNat data) := by
  rcases h with hlen | ⟨_, hlast⟩
  · rw [landed_short _ _ hlen]
  · exact hlast a

theorem mem_landed {q n : Nat} {data : List UInt8} {x : Access Nat UInt8}
    (h : x ∈ landed q n data) : ∃ a val, x = .write a val ∧ a < 64 := by
  induction data generalizing q n with
  | nil =>
    unfold landed at h
    exact absurd h List.not_mem_nil
  | cons val data ih =>
    cases n with
    | zero =>
      unfold landed at h
      exact ih h
    | succ n =>
      unfold landed at h
      rcases List.mem_cons.mp h with rfl | h
      · exact ⟨_, _, rfl, Nat.mod_lt _ (by decide)⟩
      · exact ih h

theorem writesFrom_landed (q : Nat) (data : List UInt8) :
    writesFrom q data = landed q data.length data :=
  (landed_short q _ (Nat.le_refl _)).symm

/-- the accesses that a static `write_count` of `c` lets through -/
theorem eventAccesses_landed (b o c : UInt8) (q n : Nat) (data : List UInt8)
    (hc : (c.toNat + n) % 256 = 0) (hn : n < 256) (hq : q % 64 = (b.toNat + o.toNat) % 64) :
    Pointer.eventAccesses ⟨b, o, c⟩ (data.map .rxne) = landed q n data ∧
      (Pointer.after ⟨b, o, c⟩ (data.map .rxne)).base = rebase b n data := by
  induction data generalizing b o c q n with
  | nil =>
    unfold landed rebase
    exact ⟨rfl, rfl⟩
  | cons val data ih =>
    have hlt := c.toNat_lt
    have hsucc : (c + 1).toNat = (c.toNat + 1) % 256 := UInt8.toNat_add c 1
    cases n with
    | zero =>
      -- the counter has come round
      have hc0 : c = 0 := UInt8.toNat.inj (show c.toNat = 0 by omega)
      subst hc0
      have hrest := ih val 0 1 val.toNat 255 rfl (by decide) rfl
      unfold landed rebase
      exact hrest
    | succ n =>
      have hc0 : ¬ c = 0 := toNat_ne_zero (by omega)
      obtain ⟨haccess, hnext, hq'⟩ := Pointer.data_step val hc0 hq
      obtain ⟨h1, h2⟩ := ih b (o + 1) (c + 1) (q + 1) n (by omega) (by omega) hq'
      unfold landed rebase
      constructor
      · show (Pointer.access ⟨b, o, c⟩ (.rxne val)).toList ++
          (Pointer.next ⟨b, o, c⟩ (.rxne val)).eventAccesses (data.map .rxne) = _
        rw [haccess, hnext, h1]
        rfl
      · show ((Pointer.next ⟨b, o, c⟩ (.rxne val)).after (data.map .rxne)).base = _
        rw [hnext, h2]

theorem eventAccesses_first (base : UInt8) (data : List UInt8) :
    Pointer.eventAccesses ⟨base, 0, 1⟩ (data.map .rxne) = landed base.toNat 255 data ∧
      (Pointer.after ⟨base, 0, 1⟩ (data.map .rxne)).base = rebase base 255 data :=
  eventAccesses_landed base 0 1 base.toNat 255 data rfl (by decide) rfl

/-! ## the accesses of the handler against those meant -/

theorem meantFrom_map (q : Nat) {is : List Interrupt} {data : List UInt8}
    (h : is.filterMap Interrupt.event = data.map .rxne) :
    (meantFrom q is).map (·.1) = writesFrom q data := by
  induction is generalizing q data with
  | nil =>
    cases data with
    | nil => rfl
    | cons val data => exact absurd h (by simp)
  | cons i is ih =>
    unfold meantFrom
    cases he : i.event with
    | none =>
      rw [List.filterMap_cons_none he] at h
      exact ih q h
    | some e =>
      rw [List.filterMap_cons_some he] at h
      cases data with
      | nil => exact absurd h (by simp)
      | cons val data =>
        obtain ⟨rfl, hes⟩ := List.cons.inj h
        exact congrArg _ (ih (q + 1) hes)

/-- the first `n` bytes go where they are meant to go -/
theorem accesses_split (b o c : UInt8) (q n : Nat) {is : List Interrupt} {data : List UInt8}
    (h : is.filterMap Interrupt.event = data.map .rxne)
    (hc : 0 < n → 1 ≤ c.toNat ∧ c.toNat + n ≤ 256) (hq : q % 64 = (b.toNat + o.toNat) % 64) :
    ∃ xs ys zs, Pointer.accesses ⟨b, o, c⟩ is = xs ++ ys ∧ meantFrom q is = xs ++ zs ∧
      xs.map (·.1) = writesFrom q (data.take n) ∧ (data.length ≤ n → ys = [] ∧ zs = []) := by
  induction is generalizing b o c q n data with
  | nil =>
    cases data with
    | nil => exact ⟨[], [], [], rfl, rfl, by rw [List.take_nil]; rfl, fun _ => ⟨rfl, rfl⟩⟩
    | cons val data => exact absurd h (by simp)
  | cons i is ih =>
    cases he : i.event with
    | none =>
      rw [List.filterMap_cons_none he] at h
      rw [accesses_none _ he, meantFrom, he]
      exact ih b o c q n h hc hq
    | some e =>
      cases n with
      | zero =>
        refine ⟨[], _, _, rfl, rfl, rfl, fun hlen => ?_⟩
        obtain rfl := List.eq_nil_of_length_eq_zero (Nat.le_zero.mp hlen)
        rw [List.filterMap_cons_some he] at h
        exact absurd h (by simp)
      | succ n =>
        rw [List.filterMap_cons_some he] at h
        cases data with
        | nil => exact absurd h (by simp)
        | cons val data =>
          obtain ⟨rfl, hes⟩ := List.cons.inj h
          obtain ⟨hc1, hc2⟩ := hc (Nat.succ_pos n)
          obtain ⟨haccess, hnext, hq'⟩ := Pointer.data_step val (toNat_ne_zero hc1) hq
          have hcount : 0 < n → 1 ≤ (c + 1).toNat ∧ (c + 1).toNat + n ≤ 256 := by
            intro hn
            rw [toNat_succ (by omega)]
            omega
          obtain ⟨xs, ys, zs, h1, h2, h3, h4⟩ := ih b (o + 1) (c + 1) (q + 1) n hes hcount hq'
          refine ⟨(.write (q % 64) val, supply i.env) :: xs, ys, zs, ?_, ?_, ?_, ?_⟩
          · rw [accesses_some _ he, haccess, hnext, h1]
            rfl
          · rw [meantFrom, he, List.cons_append, ← h2]
          · rw [List.map_cons, h3]
            rfl
          · intro hlen
            exact h4 (by simpa using hlen)

/-- after the base address only the data bytes are left -/
theorem accesses_base (p : Pointer) (hp : p.writeCount = 0) {is : List Interrupt} {base : UInt8}
    {es : List Event} (h : is.filterMap Interrupt.event = .rxne base :: es) :
    ∃ is', is'.filterMap Interrupt.event = es ∧
      p.accesses is = Pointer.accesses ⟨base, 0, 1⟩ is' ∧
      meantWrite is = meantFrom base.toNat is' := by
  refine filterMap_cons_induction h (fun i is he ih => ?_) fun i is he hes => ?_
  · rw [accesses_none p he, meantWrite, he]
    exact ih
  · have haccess : p.access (.rxne base) = none := if_pos hp
    have hnext : p.next (.rxne base) = ⟨base, 0, 1⟩ := by
      show (if p.writeCount = 0 then _ else _) = _
      rw [if_pos hp, hp]
      rfl
    refine ⟨is, hes, ?_, ?_⟩
    · rw [accesses_some p he, haccess, hnext]
      rfl
    · rw [meantWrite, he]

theorem accesses_write (p : Pointer) {is : List Interrupt} {base : UInt8} {es : List Event}
    (h : is.filterMap Interrupt.event = .addr :: .rxne base :: es) :
    ∃ is', is'.filterMap Interrupt.event = es ∧
      p.accesses is = Pointer.accesses ⟨base, 0, 1⟩ is' ∧
      meantWrite is = meantFrom base.toNat is' := by
  refine filterMap_cons_induction h (fun i is he ih => ?_) fun i is he hes => ?_
  · rw [accesses_none p he, meantWrite, he]
    exact ih
  · rw [accesses_some p he, meantWrite, he]
    exact accesses_base (p.next .addr) rfl hes

/-! ## `cache_flush` and one callback -/

theorem calls_append (f : Put) (out out' : List Output) :
    calls f (out ++ out') = calls f out ++ calls f out' := List.filterMap_append

theorem cacheFlushFrom_state (rs : List Region) (s : I2c) : (cacheFlushFrom rs s).1 =
    { s with dirty := fun r => if r ∈ rs then false else s.dirty r } := by
  induction rs generalizing s with
  | nil => simp [cacheFlushFrom]
  | cons q rs ih =>
    unfold cacheFlushFrom
    by_cases hd : s.dirty q = true
    · rw [if_pos hd]
      show (cacheFlushFrom rs _).1 = _
      rw [ih]
      congr 1
      funext r
      by_cases hr : r = q
      · subst hr
        simp
      · simp [hr]
    · rw [if_neg hd, ih]
      congr 1
      funext r
      by_cases hr : r = q
      · subst hr
        simp [hd]
      · simp [hr]

theorem mem_nvtab (r : Region) : r ∈ nvtab := by
  cases r <;> decide

theorem cacheFlush_state (s : I2c) : (cacheFlush s).1 = { s with dirty := fun _ => false } := by
  unfold cacheFlush
  rw [cacheFlushFrom_state]
  congr 1
  funext r
  exact if_pos (mem_nvtab r)

theorem cacheFlushFrom_calls {rs : List Region} (hrs : rs.Nodup) (s : I2c) {r : Region} {f : Put}
    (hf : r.put = some f) : calls f (cacheFlushFrom rs s).2 =
      if r ∈ rs ∧ s.dirty r = true then [slice s.nvram r.addr r.size] else [] := by
  induction rs generalizing s with
  | nil => simp [cacheFlushFrom, calls]
  | cons q rs ih =>
    obtain ⟨hq, hrs'⟩ := List.nodup_cons.mp hrs
    unfold cacheFlushFrom
    by_cases hd : s.dirty q = true
    · rw [if_pos hd]
      show calls f (_ ++ (cacheFlushFrom rs _).2) = _
      rw [calls_append, ih hrs']
      by_cases hr : r = q
      · subst hr
        rw [hf, if_neg fun h => hq h.1, if_pos ⟨List.mem_cons_self, hd⟩, List.append_nil]
        simp [calls]
      · cases hp : q.put with
        | none => simp [calls, hr]
        | some g =>
          have hg : ¬ g = f := fun h => hr (Region.put_injective hf (h ▸ hp))
          simp [calls, hg, hr]
    · rw [if_neg hd, ih hrs']
      by_cases hr : r = q
      · subst hr
        simp [hq, hd]
      · simp [hr]

theorem cacheFlush_calls (s : I2c) {r : Region} {f : Put} (hf : r.put = some f) :
    calls f (cacheFlush s).2 =
      if s.dirty r = true then [slice s.nvram r.addr r.size] else [] := by
  unfold cacheFlush
  rw [cacheFlushFrom_calls (by decide) s hf]
  simp [mem_nvtab]

/-! ## a write transaction -/

theorem touched_iff {xs : List (TimedAccess Nat UInt8)} {r : Region}
    (h : ∀ x ∈ xs.map (·.1), ∃ a val, x = .write a val ∧ a < 64) :
    (∃ x ∈ xs, Touches findRegionContaining r x) ↔
      ∃ a val, .write a val ∈ xs.map (·.1) ∧ findRegionContaining a = some r := by
  constructor
  · rintro ⟨x, hx, ht⟩
    obtain ⟨a, val, hxa, _⟩ := h x.1 (List.mem_map_of_mem hx)
    refine ⟨a, val, hxa ▸ List.mem_map_of_mem hx, ?_⟩
    have ht : findRegionContaining x.1.addr = some r := ht
    rw [hxa] at ht
    exact ht
  · rintro ⟨a, val, hmem, ha⟩
    obtain ⟨x, hx, hxa⟩ := List.mem_map.mp hmem
    exact ⟨x, hx, touches_of_eq _ hxa ha⟩

/-- the first 64 bytes pass every address -/
theorem lastWrite_writesFrom {q a : Nat} {data : List UInt8} (ha : a < 64)
    (hlen : 64 ≤ data.length) : ∃ val, lastWrite a (writesFrom q data) = some val := by
  have hk : (a + 64 - q % 64) % 64 < data.length := by omega
  refine lastWrite_isSome (v := data[(a + 64 - q % 64) % 64]) ?_
  exact (mem_writesFrom _ _ _ _).mpr ⟨_, List.getElem?_eq_getElem hk, by omega⟩

theorem Region.exists_addr (r : Region) : ∃ a < 64, findRegionContaining a = some r := by
  have hbounds : r.addr < 64 ∧ 0 < r.size := by cases r <;> decide
  refine ⟨r.addr, hbounds.1, ?_⟩
  apply findRegionContaining_iff.mpr
  exact ⟨Nat.le_refl _, Nat.lt_add_of_pos_right hbounds.2⟩

theorem supplied_of_lastWrite {xs : List (TimedAccess Nat UInt8)}
    (h : ∀ a < 64, ∃ val, lastWrite a (xs.map (·.1)) = some val) (r : Region) :
    ∃ back, supplied findRegionContaining r xs = some back := by
  obtain ⟨a, ha, hr⟩ := r.exists_addr
  obtain ⟨val, hval⟩ := h a ha
  obtain ⟨x, hx, hxa⟩ := List.mem_map.mp (lastWrite_mem hval)
  apply Option.isSome_iff_exists.mp
  exact (supplied_isSome findRegionContaining).mpr ⟨x, hx, touches_of_eq _ hxa hr⟩

/-- **What a write phase accesses, against what it means to access** -/
theorem accesses_meant (p : Pointer) {is : List Interrupt} {base : UInt8} {data : List UInt8}
    (h : is.filterMap Interrupt.event = (Phase.write base data).events) :
    (p.accesses is).map (·.1) = landed base.toNat 255 data ∧
      (meantWrite is).map (·.1) = writesFrom base.toNat data ∧
      (∀ r, supplied findRegionContaining r (p.accesses is) =
        supplied findRegionContaining r (meantWrite is)) ∧
      (255 < data.length → ∀ a < 64,
        (∃ val, lastWrite a (landed base.toNat 255 data) = some val) ∧
        ∃ val, lastWrite a (writesFrom base.toNat data) = some val) := by
  obtain ⟨is', hdata, hx, hy⟩ := accesses_write p h
  obtain ⟨xs, ys, zs, h1, h2, h3, h4⟩ := accesses_split base 0 1 base.toNat 255 hdata
    (fun _ => ⟨Nat.le_refl 1, Nat.le_refl 256⟩) rfl
  have hlanded : (p.accesses is).map (·.1) = landed base.toNat 255 data := by
    rw [hx, accesses_events, hdata]
    exact (eventAccesses_first base data).1
  have hmeant : (meantWrite is).map (·.1) = writesFrom base.toNat data := by
    rw [hy]
    exact meantFrom_map _ hdata
  rw [h1] at hx
  rw [h2] at hy
  refine ⟨hlanded, hmeant, fun r => ?_, fun hlen a ha => ?_⟩
  · rw [hx, hy, supplied_append, supplied_append]
    by_cases hlen : data.length ≤ 255
    · obtain ⟨hys, hzs⟩ := h4 hlen
      rw [hys, hzs]
    · -- what comes after the first 255 bytes finds every region valid
      obtain ⟨back, hback⟩ := @supplied_of_lastWrite xs (fun a ha => by
        rw [h3]
        refine lastWrite_writesFrom ha ?_
        rw [List.length_take]
        omega) r
      rw [hback]
      rfl
  · obtain ⟨val, hval⟩ := @lastWrite_writesFrom base.toNat a (data.take 255) ha (by
      rw [List.length_take]
      omega)
    constructor
    · rw [← hlanded, hx, List.map_append, lastWrite_append, h3, hval]
      cases lastWrite a (ys.map (·.1)) with
      | none => exact ⟨val, rfl⟩
      | some w => exact ⟨w, rfl⟩
    · exact lastWrite_writesFrom ha (by omega)

section
variable (p : Pointer) {is : List Interrupt} {base : UInt8} {data : List UInt8}
  (h : is.filterMap Interrupt.event = (Phase.write base data).events)

include h

theorem touched_meant (r : Region) :
    (∃ x ∈ p.accesses is, Touches findRegionContaining r x) ↔
      ∃ x ∈ meantWrite is, Touches findRegionContaining r x := by
  rw [← supplied_isSome, ← supplied_isSome, (accesses_meant p h).2.2.1]

theorem meant_written (r : Region) : (∃ x ∈ meantWrite is, Touches findRegionContaining r x) ↔
    ∃ a val, .write a val ∈ writesFrom base.toNat data ∧ findRegionContaining a = some r := by
  have hmeant := (accesses_meant ⟨0, 0, 0⟩ h).2.1
  rw [← hmeant]
  refine touched_iff fun x hx => ?_
  rw [hmeant, writesFrom_landed] at hx
  exact mem_landed hx

/-- the memory shows whether a byte was lost -/
theorem lands_of_image {mem : Nat → UInt8} (hlen : 255 < data.length)
    (hsame : image findRegionContaining mem (p.accesses is) =
      image findRegionContaining mem (meantWrite is)) (a : Nat) :
    lastWrite a (landed base.toNat 255 data) = lastWrite a (writesFrom base.toNat data) := by
  obtain ⟨hlanded, hmeant, _, hlong⟩ := accesses_meant p h
  by_cases ha : a < 64
  · obtain ⟨⟨v, hv⟩, w, hw⟩ := hlong hlen a ha
    have hv' := hv
    have hw' := hw
    rw [← hlanded] at hv'
    rw [← hmeant] at hw'
    have hbyte := congrFun hsame a
    rw [image_of_lastWrite findRegionContaining hv',
      image_of_lastWrite findRegionContaining hw'] at hbyte
    rw [hv, hw, hbyte]
  · have hnone : ∀ n, lastWrite a (landed base.toNat n data) = none := by
      intro n
      rw [Option.eq_none_iff_forall_ne_some]
      intro v hv
      obtain ⟨b, val, hb, hlt⟩ := mem_landed (lastWrite_mem hv)
      cases hb
      exact ha hlt
    rw [writesFrom_landed, hnone, hnone]

end

/-- **What a write transaction does** -/
theorem write_run (s : I2c) {is : List Interrupt} {last : Interrupt} {base : UInt8}
    {data : List UInt8} (h : is.filterMap Interrupt.event = (Phase.write base data).events)
    (hlast : last.event = some .stopf) :
    (i2c2EvIsr (runIsr s is).1 last).1.base = rebase base 255 data ∧
      (i2c2EvIsr (runIsr s is).1 last).1.nvram =
        image findRegionContaining s.nvram (s.pointer.accesses is) ∧
      (∀ r, (i2c2EvIsr (runIsr s is).1 last).1.dirty r = false) ∧
      Quiet (runIsr s is).2 ∧
      ∀ r f, r.put = some f → calls f (i2c2EvIsr (runIsr s is).1 last).2 =
        if s.dirty r = true ∨ ∃ x ∈ s.pointer.accesses is, Touches findRegionContaining r x
        then [slice (image findRegionContaining s.nvram (s.pointer.accesses is)) r.addr r.size]
        else [] := by
  obtain ⟨hcache, hpointer, hquiet⟩ := runIsr_events s h
  have hmem := runIsr_nvram s h
  have hdirty : ∀ r f, r.put = some f → ((runIsr s is).1.dirty r = true ↔ s.dirty r = true ∨
      ∃ x ∈ s.pointer.accesses is, Touches findRegionContaining r x) := by
    intro r f hf
    have hw : r.writable = true := by
      unfold Region.writable
      rw [hf]
      rfl
    rw [touched_iff fun x hx => mem_landed ((accesses_meant s.pointer h).1 ▸ hx)]
    show (runIsr s is).1.cache.dirty r = true ↔ _
    rw [hcache]
    exact (Cache.dirty_accesses_iff _).trans (or_congr_right (and_iff_right hw))
  rw [i2c2EvIsr_stop _ (.inl hlast), cacheFlush_state]
  refine ⟨?_, hmem, fun _ => rfl, hquiet, fun r f hf => ?_⟩
  · show (runIsr s is).1.pointer.base = _
    rw [hpointer]
    exact (eventAccesses_first base data).2
  · rw [cacheFlush_calls _ hf, hmem]
    simp only [hdirty r f hf]

/-- **A write transaction stores what was sent iff nothing is lost where `write_count` wraps, and no
region that it does not write was dirty.** -/
theorem write_stores_iff (s : I2c) (is : List Interrupt) (last : Interrupt) (base : UInt8)
    (data : List UInt8) (h : is.filterMap Interrupt.event = (Phase.write base data).events)
    (hlast : last.event = some .stopf) :
    Stores s base (meantWrite is) (runIsr s is).2 (i2c2EvIsr (runIsr s is).1 last).1
        (i2c2EvIsr (runIsr s is).1 last).2 ↔
      Lands base data ∧ ∀ r f, s.dirty r = true → r.put = some f →
        ∃ a val, .write a val ∈ writesFrom base.toNat data ∧ findRegionContaining a = some r := by
  obtain ⟨hbase, hmem, hclean, hquiet, hcalls⟩ := write_run s h hlast
  obtain ⟨hlanded, hmeant, hsupplied, _⟩ := accesses_meant s.pointer h
  constructor
  · intro hst
    constructor
    · by_cases hlen : data.length ≤ 255
      · exact .inl hlen
      · refine .inr ⟨hbase.symm.trans hst.based, ?_⟩
        exact lands_of_image s.pointer h (Nat.lt_of_not_le hlen) (hmem.symm.trans hst.memory)
    · intro r f hd hf
      rw [← meant_written h]
      by_contra hx
      have hun := hst.uncalled r f hf hx
      rw [hcalls r f hf, if_pos (.inl hd)] at hun
      exact absurd hun (by simp)
  · rintro ⟨hdata, hdirty⟩
    have hl : ∀ a, lastWrite a ((s.pointer.accesses is).map (·.1)) =
        lastWrite a ((meantWrite is).map (·.1)) := by
      intro a
      rw [hlanded, hmeant, hdata.lastWrite_eq]
    have himage : image findRegionContaining s.nvram (s.pointer.accesses is) =
        image findRegionContaining s.nvram (meantWrite is) :=
      image_congr findRegionContaining hsupplied hl
    exact {
      based := hbase.trans hdata.rebase_eq
      memory := hmem.trans himage
      quiet := hquiet
      called := fun r f hf hx => by
        rw [hcalls r f hf, if_pos (.inr ((touched_meant s.pointer h r).mpr hx)), himage]
      uncalled := fun r f hf hx => by
        rw [hcalls r f hf, if_neg]
        rintro (hd | hd)
        · exact hx ((meant_written h r).mpr (hdirty r f hd hf))
        · exact hx ((touched_meant s.pointer h r).mp hd)
      clean := hclean }

theorem write_stores_columns :
    let is := (Phase.transfer quietEnv (.write 8 [66, 127])).irqs
    let stop := Event.irq quietEnv .stopf
    Stores i2cInit 8 (meantWrite is) (runIsr i2cInit is).2 (i2c2EvIsr (runIsr i2cInit is).1 stop).1
      (i2c2EvIsr (runIsr i2cInit is).1 stop).2 := by
  refine (write_stores_iff i2cInit _ _ 8 [66, 127] (Phase.transfer quietEnv _).ok rfl).mpr
    ⟨.inl (by decide), fun r f hd => ?_⟩
  exact absurd hd (by simp [i2cInit])

/-- from address 9 on, so that the last byte is meant for the first column of the matrix -/
def longWrite : Phase := .write 9 (List.replicate 255 0 ++ [1])

/-- **The 256th data byte of a write transaction is lost**, also right after power on. -/
theorem write_stores_fails : ¬ ∀ (is : List Interrupt) (last : Interrupt) (base : UInt8)
    (data : List UInt8), is.filterMap Interrupt.event = (Phase.write base data).events →
      last.event = some .stopf → Stores i2cInit base (meantWrite is) (runIsr i2cInit is).2
        (i2c2EvIsr (runIsr i2cInit is).1 last).1 (i2c2EvIsr (runIsr i2cInit is).1 last).2 := by
  intro h
  have hst := h (Phase.transfer quietEnv longWrite).irqs (Event.irq quietEnv .stopf) 9
    (List.replicate 255 0 ++ [1]) (Phase.transfer quietEnv longWrite).ok rfl
  have hgot : (i2c2EvIsr (runIsr i2cInit (Phase.transfer quietEnv longWrite).irqs).1
      (Event.irq quietEnv .stopf)).1.nvram 8 = 0 := by decide +kernel
  have hmeant : image findRegionContaining i2cInit.nvram
      (meantWrite (Phase.transfer quietEnv longWrite).irqs) 8 = 1 := by decide +kernel
  have hsame := congrFun hst.memory 8
  rw [hgot, hmeant] at hsame
  exact absurd hsame (by decide)

end Bramble
