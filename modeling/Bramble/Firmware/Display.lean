import Bramble.Firmware.FrameBuffer
import Bramble.Firmware.WritePhase
import Bramble.Lib.Progress

/-!
# From the I2C bus to the LEDs (`i2c.c`, `matrix.c`)

The leader writes columns or a character to `nvram[]`. When it stops, `cache_flush` calls the
`put` callbacks, which draw from the interrupt, in between whatever the tasks draw; the matrix task
sends the rows that have changed.

* `Leader`         what the leader has sent since it addressed the follower;
* `panel`          the machine: the interrupt handler of `i2c.c` over the machine `matrix`;
* `Panel.Tidy`     the guard: a transaction writes at most 255 bytes, and none after another start;
* `wrote`          what a write transaction draws, from its address and its bytes;
* `drawCalls`      what the callbacks and the tasks draw in a run;
* `Heard`          the state of the handler, by what the leader has sent;
* `flush_draws`    the callbacks of the matrix, in the order of `nvtab`;
* `panel_shows`    at rest the display shows what the transactions and the tasks have drawn;
* `panel_settles`  and it comes to rest.
-/

namespace Bramble

/-! ## the machine -/

/-- what the leader has sent since the follower was addressed -/
inductive Leader where
  | idle
  /-- `n` bytes have been read -/
  | addressed (n : Nat)
  | sent (base : UInt8) (data : List UInt8)
  deriving DecidableEq

namespace Leader

/-- A transaction may read after it has set the base address; one that writes bytes ends after at most
255 of them, with no other start. -/
def next : Leader → Event → Option Leader
  | .idle, .addr => some (.addressed 0)
  | .addressed _, .addr => some (.addressed 0)
  | .addressed 0, .rxne base => some (.sent base [])
  | .addressed n, .txe => some (.addressed (n + 1))
  | .sent _ [], .addr => some (.addressed 0)
  | .sent base data, .rxne val => if data.length < 255 then some (.sent base (data ++ [val])) else none
  | _, .stopf => some .idle
  | _, .af => some .idle
  | _, _ => none

/-- interrupts without an event are no move of the leader -/
def after (l : Leader) : Option Event → Option Leader
  | none => some l
  | some e => l.next e

end Leader

/-- the calls of `matrix_put_columns_from_isr` and `matrix_put_char_from_isr` that draw -/
def Output.draw : Output → Option Draw
  | .put .matrixPutColumnsFromIsr buf =>
    if h : buf.length = 5 then some (.set ⟨buf.toArray, h⟩) else none
  | .put .matrixPutCharFromIsr buf => if buf.length = 1 then buf.head?.map .char else none
  | _ => none

/-- `matrix_set_from_isr` and `matrix_set_char_from_isr`; no task runs before the notification -/
def Matrix.drawFromIsr (font5x7 : Fin 96 → Vector UInt8 5) (s : Matrix) (d : Draw) : Matrix :=
  match d.apply font5x7 s.pending with
  | some p => { s with pending := p, notify := s.notify + 1 }
  | none => s

structure Panel where
  i2c : I2c
  /-- as long as the transactions are in order -/
  leader : Leader
  leds : Matrix

def Panel.init (chip : Max7219) : Panel := ⟨i2cInit, .idle, Matrix.init chip⟩

inductive PanelAct where
  /-- `i2c2_ev_isr` -/
  | irq (i : Interrupt)
  | matrix (a : MatrixAct)

section
variable (font5x7 : Fin 96 → Vector UInt8 5)

def Panel.step (s : Panel) : PanelAct → Option Panel
  | .irq i => some
    { i2c := (i2c2EvIsr s.i2c i).1
      leader := (s.leader.after i.event).getD s.leader
      leds := ((i2c2EvIsr s.i2c i).2.filterMap Output.draw).foldl (Matrix.drawFromIsr font5x7) s.leds }
  | .matrix a => ((matrix font5x7).step s.leds a).map fun m => { s with leds := m }

def panel : Machine Panel PanelAct := ⟨Panel.step font5x7⟩

end

/-- The follower is addressed before bytes come, a transaction writes at most 255 data bytes, and it
ends before the follower is addressed again. -/
def Panel.Tidy (s : Panel) : PanelAct → Prop
  | .irq i => (s.leader.after i.event).isSome = true
  | .matrix _ => True

instance (s : Panel) : ∀ a, Decidable (Panel.Tidy s a)
  | .irq _ => inferInstanceAs (Decidable (_ = _))
  | .matrix _ => inferInstanceAs (Decidable True)

/-! ## what is drawn -/

/-- the byte that a write transaction leaves at an address -/
def written (base : UInt8) (data : List UInt8) (a : Nat) : Option UInt8 :=
  lastWrite a (writesFrom base.toNat data)

/-- the columns, if one of them is written; the others are zero -/
def wroteColumns (base : UInt8) (data : List UInt8) : Option (Vector UInt8 5) :=
  if ∃ i : Fin 5, (written base data (8 + i)).isSome then
    some (Vector.ofFn fun i : Fin 5 => (written base data (8 + i)).getD 0)
  else none

/-- a character is drawn over the columns -/
def wrote (base : UInt8) (data : List UInt8) : List Draw :=
  (wroteColumns base data).toList.map .set ++ (written base data 13).toList.map .char

/-- what the end of a transaction draws -/
def Leader.draws : Leader → Option Event → List Draw
  | .sent base data, some .stopf | .sent base data, some .af => wrote base data
  | _, _ => []

/-- what is drawn in a run that starts with the leader at `l` -/
def drawn : Leader → List PanelAct → List Draw
  | _, [] => []
  | l, .irq i :: as => l.draws i.event ++ drawn ((l.after i.event).getD l) as
  | l, .matrix a :: as => a.call.toList ++ drawn l as

/-- what the callbacks and the tasks draw in a run that starts with the follower at `s` -/
def drawCalls : I2c → List PanelAct → List Draw
  | _, [] => []
  | s, .irq i :: as =>
    (i2c2EvIsr s i).2.filterMap Output.draw ++ drawCalls (i2c2EvIsr s i).1 as
  | s, .matrix a :: as => a.call.toList ++ drawCalls s as

/-! ## the callbacks of the matrix -/

theorem cacheFlushFrom_out {rs : List Region} (hrs : rs.Nodup) (s : I2c) :
    (cacheFlushFrom rs s).2 = rs.flatMap fun r =>
      if s.dirty r then (r.put.map fun f => .put f (slice s.nvram r.addr r.size)).toList else [] := by
  induction rs generalizing s with
  | nil => rfl
  | cons q rs ih =>
    obtain ⟨hq, hrs'⟩ := List.nodup_cons.mp hrs
    rw [List.flatMap_cons]
    unfold cacheFlushFrom
    by_cases hd : s.dirty q = true
    · rw [if_pos hd, if_pos hd]
      show _ ++ (cacheFlushFrom rs _).2 = _
      rw [ih hrs']
      congr 1
      · cases q.put <;> rfl
      · apply List.flatMap_congr
        intro r hr
        have hne : r ≠ q := fun h => hq (h ▸ hr)
        show (if Function.update s.dirty q false r = true then _ else _) = _
        rw [Function.update_of_ne hne]
    · rw [if_neg hd, if_neg hd, ih hrs']
      rfl

/-- the columns in `nvram[]` -/
def I2c.columns (s : I2c) : Vector UInt8 5 := Vector.ofFn fun i : Fin 5 => s.nvram (8 + i)

theorem columns_draw (s : I2c) :
    Output.draw (.put .matrixPutColumnsFromIsr (slice s.nvram 8 5)) = some (.set s.columns) := by
  have hlen := slice_length s.nvram 8 5
  show (if h : (slice s.nvram 8 5).length = 5 then some (Draw.set ⟨(slice s.nvram 8 5).toArray, h⟩)
    else none) = _
  rw [dif_pos hlen]
  rfl

/-- **The columns are drawn before the character.** -/
theorem flush_draws (s : I2c) : (cacheFlush s).2.filterMap Output.draw =
    (if s.dirty .matrixColumns then [.set s.columns] else []) ++
      if s.dirty .matrixChar then [.char (s.nvram 13)] else [] := by
  unfold cacheFlush
  rw [cacheFlushFrom_out (by decide) s, List.filterMap_flatMap]
  have hcols : (if s.dirty .matrixColumns then
      ((Region.put .matrixColumns).map fun f => Output.put f (slice s.nvram
        (Region.addr .matrixColumns) (Region.size .matrixColumns))).toList
      else []).filterMap Output.draw = if s.dirty .matrixColumns then [.set s.columns] else [] := by
    split
    · exact List.filterMap_cons_some (columns_draw s)
    · rfl
  have hchar : (if s.dirty .matrixChar then
      ((Region.put .matrixChar).map fun f => Output.put f (slice s.nvram
        (Region.addr .matrixChar) (Region.size .matrixChar))).toList
      else []).filterMap Output.draw = if s.dirty .matrixChar then [.char (s.nvram 13)] else [] := by
    split <;> rfl
  have hrtc : (if s.dirty .ds1307 then
      ((Region.put .ds1307).map fun f => Output.put f (slice s.nvram
        (Region.addr .ds1307) (Region.size .ds1307))).toList
      else []).filterMap Output.draw = [] := by
    split <;> rfl
  have hnone (r : Region) (hr : r.put = none) : (if s.dirty r then
      (r.put.map fun f => Output.put f (slice s.nvram r.addr r.size)).toList
      else []).filterMap Output.draw = [] := by
    rw [hr]
    split <;> rfl
  unfold nvtab
  simp only [List.flatMap_cons, List.flatMap_nil, hcols, hchar, hrtc, hnone .reserved rfl,
    hnone .slot rfl, hnone .version rfl, hnone .debug rfl, List.append_nil, List.nil_append]

/-! ## what the handler has heard -/

section
variable {s : I2c} {is : List Interrupt}

/-- the regions that a phase makes dirty -/
theorem runIsr_dirty {ph : Phase} (h : is.filterMap Interrupt.event = ph.events) {r : Region} :
    (runIsr s is).1.dirty r = true ↔ s.dirty r = true ∨ r.writable = true ∧
      ∃ a v, .write a v ∈ (s.pointer.accesses is).map (·.1) ∧ findRegionContaining a = some r := by
  show (runIsr s is).1.cache.dirty r = true ↔ _
  rw [(runIsr_events s h).1]
  exact Cache.dirty_accesses_iff _

theorem read_accesses (p : Pointer) {n : Nat}
    (h : is.filterMap Interrupt.event = (Phase.read n).events) {a : Nat} {v : UInt8} :
    .write a v ∉ (p.accesses is).map (·.1) := by
  have hreads (q : Pointer) (m : Nat) : .write a v ∉ q.eventAccesses (List.replicate m .txe) := by
    induction m generalizing q with
    | zero => exact List.not_mem_nil
    | succ m ih =>
      intro hmem
      rcases List.mem_append.mp hmem with hmem | hmem
      · cases List.mem_singleton.mp hmem
      · exact ih _ hmem
  rw [accesses_events, h]
  exact hreads (p.next .addr) n

/-- A phase that only reads makes nothing dirty. -/
theorem read_dirty {n : Nat} (h : is.filterMap Interrupt.event = (Phase.read n).events) (r : Region) :
    (runIsr s is).1.dirty r = s.dirty r := by
  rw [Bool.eq_iff_iff, runIsr_dirty h]
  exact or_iff_left fun ⟨_, _, _, hmem, _⟩ => read_accesses s.pointer h hmem

theorem write_accesses (p : Pointer) {base : UInt8} {data : List UInt8}
    (h : is.filterMap Interrupt.event = (Phase.write base data).events) (hlen : data.length ≤ 255) :
    (p.accesses is).map (·.1) = writesFrom base.toNat data := by
  rw [(accesses_meant p h).1, landed_short _ _ hlen]

theorem accesses_supply {p : Pointer} {x : TimedAccess Nat UInt8} (hx : x ∈ p.accesses is) :
    ∃ env, x.2 = supply env := by
  induction is generalizing p with
  | nil => exact absurd hx List.not_mem_nil
  | cons i is ih =>
    cases he : i.event with
    | none =>
      rw [accesses_none p he] at hx
      exact ih hx
    | some e =>
      rw [accesses_some p he] at hx
      rcases List.mem_append.mp hx with hx | hx
      · obtain ⟨y, _, rfl⟩ := List.mem_map.mp hx
        exact ⟨i.env, rfl⟩
      · exact ih hx

/-- the regions of the matrix are filled with zeroes -/
theorem supply_matrix (env : Env) {a : Nat} {r : Region} (ha : findRegionContaining a = some r)
    (hr : r = .matrixColumns ∨ r = .matrixChar) : supply env a = 0 := by
  rcases hr with rfl | rfl
  · rw [supply_eq ha rfl, List.getD_eq_getElem?_getD]
    exact List.getElem?_getD_replicate_default_eq _ _ _
  · rw [supply_eq ha rfl, List.getD_eq_getElem?_getD]
    exact List.getElem?_getD_replicate_default_eq _ _ _

/-- what a write transaction leaves of the matrix in `nvram[]`, and whether it is flushed -/
theorem write_matrix {base : UInt8} {data : List UInt8}
    (h : is.filterMap Interrupt.event = (Phase.write base data).events) (hlen : data.length ≤ 255)
    (hclean : ∀ r, s.dirty r = false) {r : Region} (hr : r = .matrixColumns ∨ r = .matrixChar) :
    ((runIsr s is).1.dirty r = true ↔
      ∃ a, findRegionContaining a = some r ∧ (written base data a).isSome = true) ∧
    ((runIsr s is).1.dirty r = true → ∀ a, findRegionContaining a = some r →
      (runIsr s is).1.nvram a = (written base data a).getD 0) := by
  have hxs := write_accesses s.pointer h hlen
  have hput : r.writable = true := by
    rcases hr with rfl | rfl <;> rfl
  have hwrites (a : Nat) :
      (∃ v, .write a v ∈ writesFrom base.toNat data) ↔ (written base data a).isSome = true := by
    rw [Option.isSome_iff_exists]
    constructor
    · rintro ⟨v, hv⟩
      exact lastWrite_isSome hv
    · rintro ⟨v, hv⟩
      exact ⟨v, lastWrite_mem hv⟩
  have hdirty : (runIsr s is).1.dirty r = true ↔
      ∃ a, findRegionContaining a = some r ∧ (written base data a).isSome = true := by
    rw [runIsr_dirty h, hclean r, hxs, or_iff_right Bool.false_ne_true, and_iff_right hput]
    refine exists_congr fun a => ?_
    rw [exists_and_right, hwrites, and_comm]
  refine ⟨hdirty, fun hd a ha => ?_⟩
  rw [runIsr_nvram s h]
  cases hlast : written base data a with
  | some v =>
    refine image_of_lastWrite findRegionContaining ?_
    rw [hxs]
    exact hlast
  | none =>
    -- the byte that `get` has stored at the first access to the region
    obtain ⟨b, hb, hwritten⟩ := hdirty.mp hd
    obtain ⟨v, hv⟩ := (hwrites b).mpr hwritten
    rw [← hxs] at hv
    obtain ⟨x, hx, hxb⟩ := List.mem_map.mp hv
    have htouch : Touches findRegionContaining r x := touches_of_eq _ hxb hb
    obtain ⟨back, hback⟩ := Option.isSome_iff_exists.mp
      ((supplied_isSome findRegionContaining).mpr ⟨x, hx, htouch⟩)
    obtain ⟨y, hy, rfl⟩ := Option.map_eq_some_iff.mp hback
    obtain ⟨env, henv⟩ := accesses_supply (List.mem_of_find?_eq_some hy)
    unfold image leaves
    simp only [ha, hback, hxs, henv]
    show (lastWrite a (writesFrom base.toNat data)).getD (supply env a) = 0
    rw [show lastWrite a (writesFrom base.toNat data) = none from hlast]
    exact supply_matrix env ha hr

/-- **A write transaction draws what the leader means to draw.** -/
theorem write_draws {base : UInt8} {data : List UInt8}
    (h : is.filterMap Interrupt.event = (Phase.write base data).events) (hlen : data.length ≤ 255)
    (hclean : ∀ r, s.dirty r = false) :
    (cacheFlush (runIsr s is).1).2.filterMap Output.draw = wrote base data := by
  obtain ⟨hcols, hcolsMem⟩ := write_matrix h hlen hclean (.inl rfl)
  obtain ⟨hchar, hcharMem⟩ := write_matrix h hlen hclean (.inr rfl)
  have hcol (a : Nat) : findRegionContaining a = some .matrixColumns ↔ 8 ≤ a ∧ a < 8 + 5 :=
    findRegionContaining_iff
  have hch (a : Nat) : findRegionContaining a = some .matrixChar ↔ a = 13 := by
    rw [findRegionContaining_iff]
    show 13 ≤ a ∧ a < 13 + 1 ↔ a = 13
    omega
  rw [flush_draws, wrote]
  congr 1
  · by_cases hd : (runIsr s is).1.dirty .matrixColumns = true
    · obtain ⟨a, ha, hwritten⟩ := hcols.mp hd
      obtain ⟨h1, h2⟩ := (hcol a).mp ha
      have hsome : ∃ i : Fin 5, (written base data (8 + i)).isSome :=
        ⟨⟨a - 8, by omega⟩, by rwa [show 8 + (a - 8) = a by omega]⟩
      rw [if_pos hd, wroteColumns, if_pos hsome]
      have heq : (runIsr s is).1.columns =
          Vector.ofFn fun i : Fin 5 => (written base data (8 + i)).getD 0 := by
        unfold I2c.columns
        congr 1
        funext i
        exact hcolsMem hd _ ((hcol _).mpr ⟨by omega, by omega⟩)
      rw [heq]
      rfl
    · have hnone : ¬ ∃ i : Fin 5, (written base data (8 + i)).isSome := by
        rintro ⟨i, hi⟩
        exact hd (hcols.mpr ⟨8 + i, (hcol _).mpr ⟨by omega, by omega⟩, hi⟩)
      rw [if_neg hd, wroteColumns, if_neg hnone]
      rfl
  · by_cases hd : (runIsr s is).1.dirty .matrixChar = true
    · obtain ⟨a, ha, hwritten⟩ := hchar.mp hd
      obtain rfl := (hch a).mp ha
      obtain ⟨v, hv⟩ := Option.isSome_iff_exists.mp hwritten
      rw [if_pos hd, hcharMem hd 13 ha, hv]
      rfl
    · have hnone : written base data 13 = none := by
        by_contra hsome
        exact hd (hchar.mpr ⟨13, (hch 13).mpr rfl, Option.isSome_iff_ne_none.mpr hsome⟩)
      rw [if_neg hd, hnone]
      rfl

end

/-- The state of the handler: nothing is dirty at the start of a transaction, and the interrupts since
then are those of one phase. -/
def Heard (s : I2c) : Leader → Prop
  | .idle => ∀ r, s.dirty r = false
  | .addressed n => ∃ (u : I2c) (is : List Interrupt), (∀ r, u.dirty r = false) ∧
      s = (runIsr u is).1 ∧ is.filterMap Interrupt.event = (Phase.read n).events
  | .sent base data => data.length ≤ 255 ∧ ∃ (u : I2c) (is : List Interrupt),
      (∀ r, u.dirty r = false) ∧ s = (runIsr u is).1 ∧
      is.filterMap Interrupt.event = (Phase.write base data).events

section
variable {s : I2c} {i : Interrupt} {l k : Leader}

/-- Outside of a transaction that has sent bytes nothing is dirty. -/
theorem Heard.clean (hs : Heard s l) (hl : ∀ base val data, l ≠ .sent base (val :: data))
    (r : Region) : s.dirty r = false := by
  cases l with
  | idle => exact hs r
  | addressed n =>
    obtain ⟨u, is, hu, rfl, his⟩ := hs
    rw [read_dirty his]
    exact hu r
  | sent base data =>
    obtain ⟨_, u, is, hu, rfl, his⟩ := hs
    cases data with
    | cons val data => exact absurd rfl (hl base val data)
    | nil =>
      have hxs := write_accesses u.pointer his (Nat.zero_le 255)
      rw [Bool.eq_false_iff]
      intro hd
      rcases (runIsr_dirty his).mp hd with hd | ⟨_, a, v, hmem, _⟩
      · rw [hu r] at hd
        cases hd
      · rw [hxs] at hmem
        exact absurd hmem List.not_mem_nil

theorem runIsr_snoc (u : I2c) (is : List Interrupt) (i : Interrupt) :
    (runIsr u (is ++ [i])).1 = (i2c2EvIsr (runIsr u is).1 i).1 := by
  rw [runIsr_append]
  rfl

theorem events_snoc {is : List Interrupt} {es : List Event} {e : Event}
    (his : is.filterMap Interrupt.event = es) (he : i.event = some e) :
    (is ++ [i]).filterMap Interrupt.event = es ++ [e] := by
  rw [List.filterMap_append, his, List.filterMap_cons_some he, List.filterMap_nil]

/-- ADDR begins a phase. -/
theorem Heard.addr (hclean : ∀ r, s.dirty r = false) (he : i.event = some .addr) :
    Heard (i2c2EvIsr s i).1 (.addressed 0) :=
  ⟨s, [i], hclean, rfl, List.filterMap_cons_some he⟩

theorem Heard.stop (s : I2c) (he : i.event = some .stopf ∨ i.event = some .af) :
    Heard (i2c2EvIsr s i).1 .idle := by
  rw [i2c2EvIsr_stop s he, cacheFlush_state]
  exact fun _ => rfl

/-- nothing is drawn where nothing is dirty -/
theorem clean_draws (hclean : ∀ r, s.dirty r = false)
    (he : i.event = some .stopf ∨ i.event = some .af) :
    (i2c2EvIsr s i).2.filterMap Output.draw = [] := by
  rw [i2c2EvIsr_stop s he, flush_draws, hclean, hclean]
  rfl

/-- no byte draws -/
theorem byte_draws (s : I2c) {e : Event} (he : i.event = some e) (h : e ≠ .stopf) (h' : e ≠ .af) :
    (i2c2EvIsr s i).2.filterMap Output.draw = [] := by
  rw [i2c2EvIsr_event, he]
  cases e with
  | addr => rfl
  | rxne val => rfl
  | txe => rfl
  | stopf => exact absurd rfl h
  | af => exact absurd rfl h'

/-- one interrupt, after the follower was addressed -/
theorem Heard.step_addressed {n : Nat} {e : Event} (hs : Heard s (.addressed n))
    (he : i.event = some e) (h : (Leader.addressed n).next e = some k) :
    Heard (i2c2EvIsr s i).1 k ∧ (i2c2EvIsr s i).2.filterMap Output.draw = [] := by
  have hclean : ∀ r, s.dirty r = false := hs.clean fun _ _ _ => Leader.noConfusion
  obtain ⟨u, is, hu, rfl, his⟩ := hs
  cases e with
  | addr =>
    have hk : k = .addressed 0 := by
      cases n <;> exact (Option.some.inj h).symm
    rw [hk]
    exact ⟨.addr hclean he, byte_draws _ he Event.noConfusion Event.noConfusion⟩
  | rxne base =>
    cases n with
    | succ n => cases h
    | zero =>
      cases h
      exact ⟨⟨Nat.zero_le _, u, is ++ [i], hu, (runIsr_snoc u is i).symm, events_snoc his he⟩,
        byte_draws _ he Event.noConfusion Event.noConfusion⟩
  | txe =>
    have hk : k = .addressed (n + 1) := by
      cases n <;> exact (Option.some.inj h).symm
    rw [hk]
    refine ⟨⟨u, is ++ [i], hu, (runIsr_snoc u is i).symm, ?_⟩,
      byte_draws _ he Event.noConfusion Event.noConfusion⟩
    rw [events_snoc his he]
    show Event.addr :: (List.replicate n .txe ++ [.txe]) = .addr :: List.replicate (n + 1) .txe
    rw [List.replicate_succ']
  | stopf =>
    have hk : k = .idle := by
      cases n <;> exact (Option.some.inj h).symm
    rw [hk]
    exact ⟨.stop _ (.inl he), clean_draws hclean (.inl he)⟩
  | af =>
    have hk : k = .idle := by
      cases n <;> exact (Option.some.inj h).symm
    rw [hk]
    exact ⟨.stop _ (.inr he), clean_draws hclean (.inr he)⟩

/-- The end of a transaction that has sent bytes. -/
theorem Heard.ends {base : UInt8} {data : List UInt8} (hs : Heard s (.sent base data))
    (he : i.event = some .stopf ∨ i.event = some .af) :
    (i2c2EvIsr s i).2.filterMap Output.draw = wrote base data := by
  obtain ⟨hlen, u, is, hu, rfl, his⟩ := hs
  rw [i2c2EvIsr_stop _ he, write_draws his hlen hu]

/-- one interrupt, after a base address has been sent -/
theorem Heard.step_sent {base : UInt8} {data : List UInt8} {e : Event}
    (hs : Heard s (.sent base data)) (he : i.event = some e)
    (h : (Leader.sent base data).next e = some k) :
    Heard (i2c2EvIsr s i).1 k ∧
      (i2c2EvIsr s i).2.filterMap Output.draw = (Leader.sent base data).draws (some e) := by
  cases e with
  | addr =>
    cases data with
    | cons val data => cases h
    | nil =>
      cases h
      have hclean : ∀ r, s.dirty r = false := hs.clean fun _ _ _ h => by cases h
      exact ⟨.addr hclean he, byte_draws s he Event.noConfusion Event.noConfusion⟩
  | rxne val =>
    have hnext : (if data.length < 255 then some (Leader.sent base (data ++ [val])) else none) =
        some k := by
      cases data <;> exact h
    obtain ⟨hlen, hk⟩ := Option.ite_none_right_eq_some.mp hnext
    cases hk
    obtain ⟨_, u, is, hu, rfl, his⟩ := hs
    refine ⟨⟨?_, u, is ++ [i], hu, (runIsr_snoc u is i).symm, ?_⟩,
      byte_draws _ he Event.noConfusion Event.noConfusion⟩
    · rw [List.length_append]
      exact hlen
    · rw [events_snoc his he]
      show Event.addr :: .rxne base :: (data.map .rxne ++ [.rxne val]) =
        .addr :: .rxne base :: (data ++ [val]).map .rxne
      rw [List.map_append]
      rfl
  | stopf =>
    have hk : k = .idle := by
      cases data <;> exact (Option.some.inj h).symm
    rw [hk]
    exact ⟨.stop s (.inl he), hs.ends (.inl he)⟩
  | af =>
    have hk : k = .idle := by
      cases data <;> exact (Option.some.inj h).symm
    rw [hk]
    exact ⟨.stop s (.inr he), hs.ends (.inr he)⟩
  | txe => cases data <;> cases h

/-- **One interrupt**: the handler goes with the leader, and draws what the leader means. -/
theorem Heard.step (hs : Heard s l) (h : l.after i.event = some k) :
    Heard (i2c2EvIsr s i).1 k ∧
      (i2c2EvIsr s i).2.filterMap Output.draw = l.draws i.event := by
  cases he : i.event with
  | none =>
    rw [he] at h
    cases h
    rw [i2c2EvIsr_event, he]
    refine ⟨hs, ?_⟩
    cases l <;> rfl
  | some e =>
    rw [he] at h
    cases l with
    | idle =>
      cases e with
      | addr =>
        cases h
        exact ⟨.addr hs he, byte_draws s he Event.noConfusion Event.noConfusion⟩
      | stopf =>
        cases h
        exact ⟨.stop s (.inl he), clean_draws hs (.inl he)⟩
      | af =>
        cases h
        exact ⟨.stop s (.inr he), clean_draws hs (.inr he)⟩
      | rxne val => cases h
      | txe => cases h
    | addressed n => exact hs.step_addressed he h
    | sent base data => exact hs.step_sent he h

end

/-! ## runs -/

section
variable {font5x7 : Fin 96 → Vector UInt8 5}

theorem drawFromIsr_pending (m : Matrix) (d : Draw) :
    (m.drawFromIsr font5x7 d).pending = Draw.draw font5x7 m.pending d := by
  unfold Matrix.drawFromIsr Draw.draw
  cases d.apply font5x7 m.pending <;> rfl

theorem foldl_drawFromIsr (m : Matrix) (ds : List Draw) :
    (ds.foldl (Matrix.drawFromIsr font5x7) m).pending = drawAll font5x7 m.pending ds := by
  induction ds generalizing m with
  | nil => rfl
  | cons d ds ih =>
    rw [List.foldl_cons, ih, drawFromIsr_pending]
    rfl

theorem Shown.drawFromIsr {m : Matrix} (hm : Shown m) (d : Draw) :
    Shown (m.drawFromIsr font5x7 d) := by
  unfold Matrix.drawFromIsr
  cases d.apply font5x7 m.pending with
  | none => exact hm
  | some p => exact hm

theorem Fresh.drawFromIsr {m : Matrix} (hm : Fresh m) (d : Draw) :
    Fresh (m.drawFromIsr font5x7 d) := by
  unfold Matrix.drawFromIsr
  cases d.apply font5x7 m.pending with
  | none => exact hm
  | some p => exact .of_owed (.inl (Nat.succ_pos _))

theorem drawAll_append (p : Rows) (ds es : List Draw) :
    drawAll font5x7 p (ds ++ es) = drawAll font5x7 (drawAll font5x7 p ds) es := List.foldl_append

/-- the invariant of the panel, whatever interrupts come -/
structure Panel.Inv (s : Panel) : Prop where
  shown : Shown s.leds
  fresh : Fresh s.leds

theorem Panel.Inv.init (chip : Max7219) : (Panel.init chip).Inv := ⟨trivial, trivial⟩

variable {s t : Panel} {a : PanelAct}

theorem Panel.Inv.step (hs : s.Inv) (h : (panel font5x7).step s a = some t) : t.Inv := by
  cases a with
  | irq i =>
    cases h
    refine ⟨?_, ?_⟩
    · show Shown (List.foldl _ _ _)
      exact List.foldlRecOn _ _ hs.shown fun m hm d _ => hm.drawFromIsr d
    · show Fresh (List.foldl _ _ _)
      exact List.foldlRecOn _ _ hs.fresh fun m hm d _ => hm.drawFromIsr d
  | matrix a =>
    obtain ⟨m, hm, rfl⟩ := Option.map_eq_some_iff.mp h
    exact ⟨hs.shown.step hm, hs.fresh.step hm⟩

theorem Panel.Inv.run {as : List PanelAct} (hs : s.Inv) (h : (panel font5x7).run s as = some t) :
    t.Inv :=
  (Machine.run_free h).inv hs fun _ _ _ hx _ h => hx.step h

/-- a step of a task or of the matrix draws what it calls -/
theorem matrix_draws {m n : Matrix} {a : MatrixAct} (h : (matrix font5x7).step m a = some n) :
    n.pending = drawAll font5x7 m.pending a.call.toList := by
  have hrun : (matrix font5x7).run m [a] = some n := (Machine.run_cons_some _).mpr ⟨n, h, rfl⟩
  rw [pending_run font5x7 hrun]
  cases a <;> rfl

/-- **A run draws** what the callbacks and the tasks call, in that order. -/
theorem panel_calls {as : List PanelAct} (h : (panel font5x7).run s as = some t) :
    t.leds.pending = drawAll font5x7 s.leds.pending (drawCalls s.i2c as) := by
  induction as generalizing s with
  | nil =>
    cases h
    rfl
  | cons a as ih =>
    obtain ⟨u, hu, ht⟩ := (Machine.run_cons_some _).mp h
    rw [ih ht]
    cases a with
    | irq i =>
      cases hu
      show drawAll font5x7 (List.foldl _ _ _ : Matrix).pending _ = drawAll font5x7 _ (_ ++ _)
      rw [foldl_drawFromIsr, drawAll_append]
    | matrix a =>
      obtain ⟨m, hm, rfl⟩ := Option.map_eq_some_iff.mp hu
      show drawAll font5x7 m.pending _ = drawAll font5x7 s.leds.pending (a.call.toList ++ _)
      rw [drawAll_append, matrix_draws hm]

/-- If the leader keeps the order, the callbacks call what its transactions mean. -/
theorem drawCalls_tidy {as : List PanelAct} (hs : Heard s.i2c s.leader)
    (hguard : (panel font5x7).Along Panel.Tidy s as) (h : (panel font5x7).run s as = some t) :
    drawCalls s.i2c as = drawn s.leader as := by
  induction as generalizing s with
  | nil => rfl
  | cons a as ih =>
    obtain ⟨u, hu, ht⟩ := (Machine.run_cons_some _).mp h
    obtain ⟨htidy, hrest⟩ := hguard
    cases a with
    | irq i =>
      obtain ⟨k, hk⟩ := Option.isSome_iff_exists.mp htidy
      obtain ⟨hheard, hdraws⟩ := hs.step hk
      have hleader : (s.leader.after i.event).getD s.leader = u.leader := by
        cases hu
        rfl
      have hheard' : Heard u.i2c u.leader := by
        rw [← hleader, hk]
        cases hu
        exact hheard
      have htail := ih hheard' (hrest u hu) ht
      show _ ++ drawCalls _ as = _ ++ drawn ((s.leader.after i.event).getD s.leader) as
      rw [hdraws, hleader, ← htail]
      cases hu
      rfl
    | matrix a =>
      have hrest' := hrest u hu
      obtain ⟨m, hm, rfl⟩ := Option.map_eq_some_iff.mp hu
      exact congrArg (a.call.toList ++ ·) (ih (s := ⟨s.i2c, s.leader, m⟩) hs hrest' ht)

theorem panel_drawn {as : List PanelAct} (hs : Heard s.i2c s.leader)
    (hguard : (panel font5x7).Along Panel.Tidy s as) (h : (panel font5x7).run s as = some t) :
    t.leds.pending = drawAll font5x7 s.leds.pending (drawn s.leader as) := by
  rw [panel_calls h, drawCalls_tidy hs hguard h]

/-! ## at rest -/

/-- the matrix task waits, and nobody owes it a notification -/
def Matrix.Rests (m : Matrix) : Prop := m.pc = .wait ∧ m.notify = 0 ∧ m.between = 0

theorem Panel.Inv.shows (hs : s.Inv) (h : s.leds.Rests) : s.leds.chip.digits = s.leds.pending := by
  obtain ⟨hpc, hnotify, hbetween⟩ := h
  have hshown := hs.shown
  have hfresh := hs.fresh
  unfold Shown at hshown
  unfold Fresh at hfresh
  rw [hpc] at hshown hfresh
  rcases hfresh with heq | hlt | hlt
  · exact hshown.trans heq.symm
  · omega
  · omega

variable (font5x7)

/-- **What is written over I2C is what the display shows.**  In every run in which the transactions are
in order, however their interrupts come in between the steps of the tasks, the display at rest shows
what the transactions that have ended and the tasks have drawn, in that order; its upper seven rows are
the last columns or character. -/
theorem panel_shows (chip : Max7219) (as : List PanelAct) (t : Panel)
    (hguard : (panel font5x7).Along Panel.Tidy (Panel.init chip) as)
    (h : (panel font5x7).run (Panel.init chip) as = some t) (hrest : t.leds.Rests) :
    t.leds.chip.digits = drawAll font5x7 blank (drawn .idle as) ∧
    ∀ (r : Fin 8) (c : Nat), r.val < 7 → t.leds.chip.digits.lit r c =
      (lastOf (Draw.columns font5x7) (drawn .idle as)).elim false (colBit · c r) := by
  have hdigits : t.leds.chip.digits = drawAll font5x7 blank (drawn .idle as) :=
    (((Panel.Inv.init chip).run h).shows hrest).trans
      (panel_drawn (s := Panel.init chip) (fun _ => rfl) hguard h)
  refine ⟨hdigits, fun r c hr => ?_⟩
  rw [hdigits]
  exact display_lit font5x7 _ hr c

end

/-- the columns of a `1` are written while the matrix task starts up, which then shows them -/
def columnsOfOne : List PanelAct :=
  (transaction [(Phase.write 8 [0, 66, 127, 64, 0]).transfer quietEnv] (Event.irq quietEnv .stopf)).map
    .irq ++ List.replicate 34 (.matrix .task)

theorem panel_shows_one : ∃ t,
    (panel fun _ => Vector.replicate 5 0).run (Panel.init .reset) columnsOfOne = some t ∧
    t.leds.chip.digits.lit 6 1 = true ∧ t.leds.chip.digits.lit 1 1 = true ∧
    t.leds.chip.digits.lit 0 1 = false := by
  have hrun : ((panel fun _ => Vector.replicate 5 0).run (Panel.init .reset) columnsOfOne).map
      (fun t => (t.leds.pc, t.leds.notify, t.leds.between)) = some (.wait, 0, 0) := by
    decide +kernel
  obtain ⟨t, ht, hval⟩ := Option.map_eq_some_iff.mp hrun
  obtain ⟨hpc, hval⟩ := Prod.mk.inj hval
  obtain ⟨hnotify, hbetween⟩ := Prod.mk.inj hval
  have hguard : (panel fun _ => Vector.replicate 5 0).Along Panel.Tidy (Panel.init .reset)
      columnsOfOne := by
    decide +kernel
  obtain ⟨_, hlit⟩ := panel_shows _ _ _ t hguard ht ⟨hpc, hnotify, hbetween⟩
  have hdrawn : (lastOf (Draw.columns fun _ => Vector.replicate 5 0) (drawn .idle columnsOfOne)) =
      some #v[0, 66, 127, 64, 0] := by
    decide +kernel
  refine ⟨t, ht, ?_, ?_, ?_⟩
  · rw [hlit 6 1 (by decide), hdrawn]
    decide
  · rw [hlit 1 1 (by decide), hdrawn]
    decide
  · rw [hlit 0 1 (by decide), hdrawn]
    decide

/-! ## the display comes to rest -/

/-- the steps of the matrix task until it waits -/
def MatrixPc.left : MatrixPc → Nat
  | .config words => words.length + 19
  | .snapshot force => if force then 18 else 10
  | .rows force _ row => (8 - row) + if force then 9 else 1
  | .selftest words => words.length + 1
  | .wait => 0

/-- each notification may cost a sync -/
def Matrix.work (m : Matrix) : Nat := m.pc.left + 11 * m.notify + 12 * m.between

/-- nobody draws, and the leader is quiet -/
def Panel.Quiet (_ : Panel) : PanelAct → Prop
  | .matrix .give => True
  | .matrix .task => True
  | _ => False

theorem matrix_task_work {m n : Matrix} (h : m.task = some n) : n.work < m.work := by
  unfold Matrix.task at h
  unfold Matrix.work
  split at h
  · rename_i hpc
    cases h
    rw [hpc]
    simp [MatrixPc.left]
  · rename_i w ws hpc
    cases h
    rw [hpc]
    simp [MatrixPc.left]
  · rename_i force hpc
    cases h
    rw [hpc]
    cases force <;> simp [MatrixPc.left]
  · rename_i force update row hpc
    rw [hpc]
    split at h
    · cases h
      simp only [MatrixPc.left]
      omega
    · cases h
      cases force <;> simp [MatrixPc.left, selftestWords]
  · rename_i hpc
    cases h
    rw [hpc]
    simp [MatrixPc.left]
  · rename_i w ws hpc
    cases h
    rw [hpc]
    simp [MatrixPc.left]
  · rename_i hpc
    obtain ⟨hnotify, h⟩ := Option.ite_none_right_eq_some.mp h
    cases h
    rw [hpc]
    show 10 + 11 * 0 + 12 * m.between < 0 + 11 * m.notify + 12 * m.between
    omega

section
variable (font5x7 : Fin 96 → Vector UInt8 5)

theorem quiet_work {s t : Panel} {a : PanelAct} (ha : s.Quiet a)
    (h : (panel font5x7).step s a = some t) : t.leds.work < s.leds.work := by
  cases a with
  | irq i => exact ha.elim
  | matrix a =>
    obtain ⟨m, hm, rfl⟩ := Option.map_eq_some_iff.mp h
    cases a with
    | draw d => exact ha.elim
    | give =>
      obtain ⟨hbetween, hm⟩ := Option.ite_none_right_eq_some.mp hm
      cases hm
      show s.leds.pc.left + 11 * (s.leds.notify + 1) + 12 * (s.leds.between - 1) <
        s.leds.pc.left + 11 * s.leds.notify + 12 * s.leds.between
      omega
    | task => exact matrix_task_work hm

theorem panel_descends : Machine.Descends (panel font5x7) Panel.Inv Panel.Quiet (·.leds.work) where
  keeps _ _ _ hx _ h := hx.step h
  lowers _ _ _ _ ha h := quiet_work font5x7 ha h

/-- Whoever is not at rest can go on. -/
theorem panel_goes (s : Panel) :
    s.leds.Rests ∨ ∃ a t, s.Quiet a ∧ (panel font5x7).step s a = some t := by
  by_cases hbetween : 0 < s.leds.between
  · exact .inr ⟨.matrix .give, _, trivial, congrArg (Option.map _) (if_pos hbetween)⟩
  · cases htask : s.leds.task with
    | some m => exact .inr ⟨.matrix .task, _, trivial, congrArg (Option.map _) htask⟩
    | none =>
      left
      unfold Matrix.task at htask
      split at htask
      any_goals cases htask
      · split at htask <;> cases htask
      · rename_i hpc
        split at htask
        · cases htask
        · exact ⟨hpc, by omega, by omega⟩

theorem quiet_draws {s t : Panel} {a : PanelAct} (ha : s.Quiet a)
    (h : (panel font5x7).step s a = some t) : t.leds.pending = s.leds.pending := by
  cases a with
  | irq i => exact ha.elim
  | matrix a =>
    obtain ⟨m, hm, rfl⟩ := Option.map_eq_some_iff.mp h
    cases a with
    | draw d => exact ha.elim
    | give => exact matrix_draws hm
    | task => exact matrix_draws hm

/-- **The display comes to rest.**  From every state that any interrupts and tasks can reach, while the
leader is quiet and nobody draws, no more steps are possible than there is work, the display can be
brought to rest, and then it shows what the callbacks and the tasks have drawn before: if the
transactions were in order, that is what these have written. -/
theorem panel_settles (chip : Max7219) (as : List PanelAct) (s : Panel)
    (h : (panel font5x7).run (Panel.init chip) as = some s) :
    (∀ bs t, (panel font5x7).Along Panel.Quiet s bs → (panel font5x7).run s bs = some t →
      bs.length + t.leds.work ≤ s.leds.work ∧
      (t.leds.Rests ∨ ∃ a u, t.Quiet a ∧ (panel font5x7).step t a = some u) ∧
      (t.leds.Rests → t.leds.chip.digits = drawAll font5x7 blank (drawCalls i2cInit as))) ∧
    (∃ bs t, (panel font5x7).Along Panel.Quiet s bs ∧ (panel font5x7).run s bs = some t ∧
      t.leds.Rests) ∧
    ((panel font5x7).Along Panel.Tidy (Panel.init chip) as → drawCalls i2cInit as = drawn .idle as) := by
  have hinv := (Panel.Inv.init chip).run h
  refine ⟨fun bs t hquiet hrun => ?_, ?_, fun hguard =>
    drawCalls_tidy (s := Panel.init chip) (fun _ => rfl) hguard h⟩
  · refine ⟨(panel_descends font5x7).length hinv hquiet hrun, panel_goes font5x7 t, fun hrest => ?_⟩
    have hsame : t.leds.pending = s.leds.pending :=
      (Machine.run_reach hquiet hrun).inv (I := fun u => u.leds.pending = s.leds.pending) rfl
        fun x a y hx ha hy => (quiet_draws font5x7 ha hy).trans hx
    rw [(hinv.run hrun).shows hrest, hsame]
    exact panel_calls h
  · exact (panel_descends font5x7).settles (fun x _ => panel_goes font5x7 x) hinv

theorem panel_settles_one : ∃ s bs t,
    (panel fun _ => Vector.replicate 5 0).run (Panel.init .reset) (columnsOfOne.take 8) = some s ∧
    (panel fun _ => Vector.replicate 5 0).run s bs = some t ∧ t.leds.Rests ∧ bs.length ≤ 35 ∧
    t.leds.chip.digits = drawAll (fun _ => Vector.replicate 5 0) blank
      (drawn .idle (columnsOfOne.take 8)) := by
  have hrun : ((panel fun _ => Vector.replicate 5 0).run (Panel.init .reset)
      (columnsOfOne.take 8)).map (fun s => s.leds.work) = some 35 := by
    decide +kernel
  have hguard : (panel fun _ => Vector.replicate 5 0).Along Panel.Tidy (Panel.init .reset)
      (columnsOfOne.take 8) := by
    decide +kernel
  obtain ⟨s, hs, hwork⟩ := Option.map_eq_some_iff.mp hrun
  obtain ⟨hall, ⟨bs, t, hquiet, ht, hrest⟩, hdrawn⟩ := panel_settles _ _ _ s hs
  obtain ⟨hlen, _, hshows⟩ := hall bs t hquiet ht
  refine ⟨s, bs, t, hs, ht, hrest, by omega, ?_⟩
  rw [hshows hrest, hdrawn hguard]

end

end Bramble
