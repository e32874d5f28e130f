import Bramble.Firmware.ReadPhase
import Bramble.Firmware.WritePhase
import Bramble.Lib.Machine

/-!
# The clock over whole runs: its month, and the count of its settings

Transactions set the clock with whatever bytes the leader writes, and the timer ticks between them.

* `monthDaysCall`, `newDay`    the call of `month_days` in a tick, and what comes of that tick;
* `clock`                      interrupts of the follower, and ticks;
* `clock_irq`, `clock_tick`    what one of them does to the clock;
* `midnights_in_table_iff`     midnights read within the tables of months exactly if no setting
                               gives the month 0;
* `settings_counted_iff`       the debug register counts the settings exactly if each finds the
                               count in the member of its local variable that it never assigns.
-/

namespace Bramble

/-! ## one tick -/

/-- what `advance_time` passes to `month_days`, when it comes so far -/
def monthDaysCall (t : RtcTime) : Option (Int × Int) :=
  if t.sec + 1 < 60 then none
  else if t.min + 1 < 60 then none
  else if t.hour + 1 < 24 then none
  else some (t.month.toNat, t.year.toNat)

/-- what `advance_time` makes of the last second of a day, when `month_days` returns `mdays` -/
def newDay (mdays : Int) (t : RtcTime) : RtcTime :=
  advanceDateBy mdays { t with sec := 0, min := 0, hour := 0 }

/-- no register exceeds what two digits, of 15 at most, are worth -/
structure TwoDigits (t : RtcTime) : Prop where
  sec : t.sec.toNat ≤ 165
  min : t.min.toNat ≤ 165
  hour : t.hour.toNat ≤ 165
  month : t.month.toNat ≤ 165

/-- a bound on the ticks until midnight -/
def untilMidnight (t : RtcTime) : Nat :=
  (24 - t.hour.toNat) * 3721 + (60 - t.min.toNat) * 61 + (60 - t.sec.toNat)

theorem monthDays_none {month year : Int} : monthDays month year = none ↔ monthIndex month < 0 := by
  have hlt : monthIndex month < 12 := Int.tmod_lt_of_pos _ (by decide)
  unfold monthDays
  by_cases hi : monthIndex month < 0
  · simp only [hi, if_true]
  · simp only [hi, if_false, iff_false]
    have hn : (monthIndex month).toNat < 12 := by omega
    split
    · exact fun h => absurd (List.getElem?_eq_none_iff.mp h) (Nat.not_le_of_lt hn)
    · exact fun h => absurd (List.getElem?_eq_none_iff.mp h) (Nat.not_le_of_lt hn)

theorem monthIndex_iff {m : UInt8} :
    0 ≤ monthIndex m.toNat ∧ monthIndex m.toNat ≤ 11 ↔ m ≠ 0 := by
  have hz : m ≠ 0 ↔ m.toNat ≠ 0 := not_congr UInt8.toNat_inj.symm
  rw [hz]
  unfold monthIndex
  by_cases hm : m.toNat = 0
  · rw [hm]
    decide
  · have hlt : ((m.toNat : Int) - 1).tmod 12 < 12 := Int.tmod_lt_of_pos _ (by decide)
    have hge : 0 ≤ ((m.toNat : Int) - 1).tmod 12 := Int.tmod_nonneg _ (by omega)
    omega

section
variable {t : RtcTime}

theorem advanceTime_midnight {c : Int × Int} (h : monthDaysCall t = some c) :
    c = ((t.month.toNat : Int), (t.year.toNat : Int)) ∧
      advanceTime t = (monthDays c.1 c.2).map fun mdays : Nat => newDay mdays t := by
  unfold monthDaysCall at h
  unfold advanceTime
  by_cases hs : t.sec + 1 < 60
  · rw [if_pos hs] at h
    cases h
  · by_cases hm : t.min + 1 < 60
    · rw [if_neg hs, if_pos hm] at h
      cases h
    · by_cases hh : t.hour + 1 < 24
      · rw [if_neg hs, if_neg hm, if_pos hh] at h
        cases h
      · rw [if_neg hs, if_neg hm, if_neg hh] at h
        cases h
        refine ⟨rfl, ?_⟩
        simp only [hs, hm, hh, if_false]
        rfl

theorem advanceTime_within (h : monthDaysCall t = none) :
    ∃ u, advanceTime t = some u ∧ u.month = t.month ∧ u.setCount = t.setCount ∧
      (TwoDigits t → TwoDigits u ∧ untilMidnight u < untilMidnight t) := by
  have hlt : ∀ {i : UInt8} {n : Nat}, n < 256 → i.toNat ≤ 165 →
      (i + 1 < UInt8.ofNat n ↔ i.toNat + 1 < n) := fun {i n} hn hi => by
    rw [UInt8.lt_iff_toNat_lt, toNat_succ (by omega), UInt8.toNat_ofNat_of_lt' hn]
  unfold monthDaysCall at h
  unfold advanceTime untilMidnight
  by_cases hs : t.sec + 1 < 60
  · simp only [hs, if_true]
    refine ⟨_, rfl, rfl, rfl, fun ht => ?_⟩
    have hs' := (hlt (n := 60) (by decide) ht.sec).mp hs
    have hsec : (t.sec + 1).toNat = t.sec.toNat + 1 := toNat_succ (by omega)
    simp only [hsec]
    exact ⟨⟨by simp only [hsec]; omega, ht.min, ht.hour, ht.month⟩, by omega⟩
  · by_cases hm : t.min + 1 < 60
    · simp only [hs, hm, if_true, if_false]
      refine ⟨_, rfl, rfl, rfl, fun ht => ?_⟩
      have hm' := (hlt (n := 60) (by decide) ht.min).mp hm
      have hmin : (t.min + 1).toNat = t.min.toNat + 1 := toNat_succ (by omega)
      simp only [hmin, UInt8.toNat_zero]
      exact ⟨⟨by simp, by simp only [hmin]; omega, ht.hour, ht.month⟩, by omega⟩
    · by_cases hh : t.hour + 1 < 24
      · simp only [hs, hm, hh, if_true, if_false]
        refine ⟨_, rfl, rfl, rfl, fun ht => ?_⟩
        have hh' := (hlt (n := 24) (by decide) ht.hour).mp hh
        have hhour : (t.hour + 1).toNat = t.hour.toNat + 1 := toNat_succ (by omega)
        simp only [hhour, UInt8.toNat_zero]
        exact ⟨⟨by simp, by simp, by simp only [hhour]; omega, ht.month⟩, by omega⟩
      · rw [if_neg hs, if_neg hm, if_neg hh] at h
        cases h

end

/-- the day goes on within the month, into the next one, or into the next year -/
theorem newDay_cases (mdays : Int) (t : RtcTime) : ∃ day,
    newDay mdays t = { t with sec := 0, min := 0, hour := 0, day := day, date := t.date + 1 } ∨
      t.month + 1 < 12 ∧ newDay mdays t =
        { t with sec := 0, min := 0, hour := 0, day := day, date := 1, month := t.month + 1 } ∨
      newDay mdays t =
        { t with sec := 0, min := 0, hour := 0, day := day, date := 1, month := 1, year := t.year + 1 } := by
  refine ⟨if 7 < t.day + 1 then 1 else t.day + 1, ?_⟩
  unfold newDay advanceDateBy
  by_cases hday : 7 < t.day + 1
  all_goals
    simp only [hday, if_true, if_false]
    by_cases hdate : ((t.date + 1).toNat : Int) < mdays
    · rw [if_pos hdate]
      exact .inl rfl
    · rw [if_neg hdate]
      by_cases hmonth : t.month + 1 < 12
      · rw [if_pos hmonth]
        exact .inr (.inl ⟨hmonth, rfl⟩)
      · rw [if_neg hmonth]
        exact .inr (.inr rfl)

theorem newDay_setCount (mdays : Int) (t : RtcTime) : (newDay mdays t).setCount = t.setCount := by
  obtain ⟨day, h | ⟨_, h⟩ | h⟩ := newDay_cases mdays t <;> rw [h]

theorem TwoDigits.newDay {t : RtcTime} (h : TwoDigits t) (mdays : Int) :
    TwoDigits (newDay mdays t) := by
  have hzero : (0 : UInt8).toNat ≤ 165 := by decide
  have hone : (1 : UInt8).toNat ≤ 165 := by decide
  obtain ⟨day, heq | ⟨hlt, heq⟩ | heq⟩ := newDay_cases mdays t
  · rw [heq]
    exact ⟨hzero, hzero, hzero, h.month⟩
  · rw [heq]
    have hlt := UInt8.lt_iff_toNat_lt.mp hlt
    exact ⟨hzero, hzero, hzero, Nat.le_of_lt (Nat.lt_trans hlt (by decide))⟩
  · rw [heq]
    exact ⟨hzero, hzero, hzero, hone⟩

theorem newDay_month {mdays : Int} {t : RtcTime} (h : TwoDigits t) (hm : t.month ≠ 0) :
    (newDay mdays t).month ≠ 0 := by
  obtain ⟨day, heq | ⟨_, heq⟩ | heq⟩ := newDay_cases mdays t
  · rw [heq]
    exact hm
  · rw [heq]
    intro hzero
    have hsucc : (t.month + 1).toNat = t.month.toNat + 1 :=
      toNat_succ (Nat.lt_of_le_of_lt (Nat.succ_le_succ h.month) (by decide))
    rw [show t.month + 1 = 0 from hzero] at hsucc
    exact absurd hsucc (Nat.succ_ne_zero _).symm
  · rw [heq]
    exact show (1 : UInt8) ≠ 0 by decide

/-! ## runs -/

/-- the follower and the clock, and how often the clock was set -/
structure ClockRun where
  board : Board
  settings : Nat

inductive ClockAct where
  /-- `junk` is the member `set_count` of the local variable of `ds1307_put_from_isr` -/
  | irq (i : Interrupt) (junk : UInt8)
  /-- `stray` is what stands before the tables of months -/
  | tick (stray : Int)

/-- a tick reads `stray` where `month_days` reads before its table -/
def ClockAct.happening (t : RtcTime) : ClockAct → Happening
  | .irq i junk => .irq i junk
  | .tick stray => .tick (newDay stray t)

def clock : Machine ClockRun ClockAct where
  step s a :=
    let (board, out) := s.board.step (a.happening s.board.rtc)
    some ⟨board, s.settings + (calls .ds1307PutFromIsr out).length⟩

def clockInit : ClockRun := ⟨⟨i2cInit, rtcInit⟩, 0⟩

/-- the interrupt ends a transaction that wrote to the clock -/
def Board.setsClock (b : Board) (i : Interrupt) : Prop :=
  (i.event = some .stopf ∨ i.event = some .af) ∧ b.i2c.dirty .ds1307 = true

instance (b : Board) (i : Interrupt) : Decidable (b.setsClock i) :=
  inferInstanceAs (Decidable (_ ∧ _))

theorem hears_calls (junk : UInt8) (t : RtcTime) (out : List Output) :
    out.foldl (Board.hears junk) t =
      (calls .ds1307PutFromIsr out).foldl (fun t buf => ds1307PutFromIsr t junk buf) t := by
  induction out generalizing t with
  | nil => rfl
  | cons o out ih =>
    rw [List.foldl_cons, ih]
    cases o with
    | sendData val => rfl
    | put f buf => cases f <;> rfl

theorem i2c2EvIsr_calls (b : Board) (i : Interrupt) :
    calls .ds1307PutFromIsr (i2c2EvIsr b.i2c (b.sees i)).2 =
      if b.setsClock i then [slice b.i2c.nvram 0 7] else [] := by
  have hflush := cacheFlush_calls b.i2c (r := .ds1307) rfl
  have hnot : ∀ {e}, i.event = e → e ≠ some .stopf → e ≠ some .af → ¬ b.setsClock i :=
    fun he h1 h2 h => h.1.elim (fun h => h1 (he ▸ h)) fun h => h2 (he ▸ h)
  rw [i2c2EvIsr_event, show (b.sees i).event = i.event from rfl]
  cases he : i.event with
  | none =>
    rw [if_neg (hnot he (by decide) (by decide))]
    rfl
  | some e =>
    cases e with
    | stopf => exact hflush.trans (if_congr ⟨fun hd => ⟨.inl he, hd⟩, And.right⟩ rfl rfl)
    | af => exact hflush.trans (if_congr ⟨fun hd => ⟨.inr he, hd⟩, And.right⟩ rfl rfl)
    | rxne val =>
      rw [if_neg (hnot he (by simp) (by simp))]
      rfl
    | _ =>
      rw [if_neg (hnot he (by decide) (by decide))]
      rfl

/-- **What an interrupt does to the clock** -/
theorem clock_irq {s s' : ClockRun} {i : Interrupt} {junk : UInt8}
    (hs : clock.step s (.irq i junk) = some s') : ∃ i2c,
      s' = if s.board.setsClock i then
          ⟨⟨i2c, ds1307PutFromIsr s.board.rtc junk (slice s.board.i2c.nvram 0 7)⟩, s.settings + 1⟩
        else ⟨⟨i2c, s.board.rtc⟩, s.settings⟩ := by
  cases hs
  refine ⟨(i2c2EvIsr s.board.i2c (s.board.sees i)).1, ?_⟩
  show ClockRun.mk ⟨_, (i2c2EvIsr s.board.i2c (s.board.sees i)).2.foldl (Board.hears junk) _⟩
    (s.settings + (calls .ds1307PutFromIsr (i2c2EvIsr s.board.i2c (s.board.sees i)).2).length) = _
  rw [hears_calls, i2c2EvIsr_calls]
  by_cases hset : s.board.setsClock i
  · rw [if_pos hset, if_pos hset]
    rfl
  · rw [if_neg hset, if_neg hset]
    rfl

/-- **What a tick does to the clock:** it stays within a day, or begins one. -/
theorem clock_tick {s s' : ClockRun} {stray : Int} (hs : clock.step s (.tick stray) = some s') :
    s'.settings = s.settings ∧
      ((s'.board.rtc.month = s.board.rtc.month ∧ s'.board.rtc.setCount = s.board.rtc.setCount ∧
          (TwoDigits s.board.rtc → TwoDigits s'.board.rtc)) ∨
        ∃ mdays, s'.board.rtc = newDay mdays s.board.rtc) := by
  cases hs
  refine ⟨rfl, ?_⟩
  show (((advanceTime s.board.rtc).getD _).month = _ ∧ ((advanceTime s.board.rtc).getD _).setCount = _ ∧
    (_ → TwoDigits ((advanceTime s.board.rtc).getD _))) ∨
      ∃ mdays, (advanceTime s.board.rtc).getD (newDay stray s.board.rtc) = _
  cases hcall : monthDaysCall s.board.rtc with
  | none =>
    obtain ⟨u, hu, hmonth, hcount, hnext⟩ := advanceTime_within hcall
    rw [hu]
    exact .inl ⟨hmonth, hcount, fun h => (hnext h).1⟩
  | some c =>
    right
    rw [(advanceTime_midnight hcall).2]
    cases monthDays c.1 c.2 with
    | none => exact ⟨stray, rfl⟩
    | some mdays => exact ⟨mdays, rfl⟩

theorem bcdToInt_le : ∀ b : UInt8, (bcdToInt b).toNat ≤ 165 := by
  decide +kernel

theorem bcdToInt_zero : ∀ b : UInt8, bcdToInt b = 0 ↔ b = 0 := by
  decide +kernel

/-- a setting, whatever the bytes -/
theorem put_slice (t : RtcTime) (junk : UInt8) (nvram : Nat → UInt8) :
    TwoDigits (ds1307PutFromIsr t junk (slice nvram 0 7)) ∧
      (ds1307PutFromIsr t junk (slice nvram 0 7)).month = bcdToInt (nvram 5) ∧
      (ds1307PutFromIsr t junk (slice nvram 0 7)).setCount = junk + 1 :=
  ⟨⟨bcdToInt_le _, bcdToInt_le _, bcdToInt_le _, bcdToInt_le _⟩, rfl, rfl⟩

/-! ## the month -/

/-- the tick reads within the tables, if it comes to `month_days` -/
def ReadsInTable (s : ClockRun) : ClockAct → Prop
  | .irq _ _ => True
  | .tick _ => ∀ c ∈ monthDaysCall s.board.rtc, 0 ≤ monthIndex c.1 ∧ monthIndex c.1 ≤ 11

instance (s : ClockRun) : ∀ a, Decidable (ReadsInTable s a)
  | .irq _ _ => inferInstanceAs (Decidable True)
  | .tick _ => inferInstanceAs (Decidable (∀ c ∈ _, _))

/-- `advance_time` has a result without the stray memory exactly if it reads within the tables -/
theorem readsInTable_iff (s : ClockRun) (stray : Int) :
    ReadsInTable s (.tick stray) ↔ advanceTime s.board.rtc ≠ none := by
  show (∀ c ∈ monthDaysCall s.board.rtc, _) ↔ _
  cases hcall : monthDaysCall s.board.rtc with
  | none =>
    obtain ⟨u, hu, _⟩ := advanceTime_within hcall
    rw [hu]
    exact iff_of_true (fun c hc => nomatch hc) (Option.some_ne_none u)
  | some c =>
    have hlt : monthIndex c.1 < 12 := Int.tmod_lt_of_pos _ (by decide)
    rw [(advanceTime_midnight hcall).2, Ne, Option.map_eq_none_iff, monthDays_none]
    constructor
    · intro h
      exact Int.not_lt.mpr (h c rfl).1
    · intro h c' hc'
      cases hc'
      exact ⟨Int.not_lt.mp h, Int.le_of_lt_add_one hlt⟩

/-- the month register does not hold `0x00` when the clock is set -/
def GivesMonth (s : ClockRun) : ClockAct → Prop
  | .irq i _ => s.board.setsClock i → s.board.i2c.nvram 5 ≠ 0
  | .tick _ => True

theorem clock_twoDigits {s s' : ClockRun} {a : ClockAct} (h : TwoDigits s.board.rtc)
    (hs : clock.step s a = some s') : TwoDigits s'.board.rtc := by
  cases a with
  | irq i junk =>
    obtain ⟨i2c, rfl⟩ := clock_irq hs
    split
    · exact (put_slice s.board.rtc junk _).1
    · exact h
  | tick stray =>
    obtain ⟨_, ⟨_, _, hnext⟩ | ⟨mdays, heq⟩⟩ := clock_tick hs
    · exact hnext h
    · rw [heq]
      exact h.newDay mdays

theorem clock_month {s s' : ClockRun} {a : ClockAct} (h : TwoDigits s.board.rtc)
    (hm : s.board.rtc.month ≠ 0) (hg : GivesMonth s a) (hs : clock.step s a = some s') :
    s'.board.rtc.month ≠ 0 := by
  cases a with
  | irq i junk =>
    obtain ⟨i2c, rfl⟩ := clock_irq hs
    split
    next hset =>
      rw [(put_slice s.board.rtc junk _).2.1]
      exact fun hzero => hg hset ((bcdToInt_zero _).mp hzero)
    next => exact hm
  | tick stray =>
    obtain ⟨_, ⟨hmonth, _⟩ | ⟨mdays, heq⟩⟩ := clock_tick hs
    · rw [hmonth]
      exact hm
    · rw [heq]
      exact newDay_month h hm

theorem readsInTable_month {s : ClockRun} (hm : s.board.rtc.month ≠ 0) (a : ClockAct) :
    ReadsInTable s a := by
  cases a with
  | irq i junk => trivial
  | tick stray =>
    intro c hc
    obtain ⟨rfl, _⟩ := advanceTime_midnight hc
    exact monthIndex_iff.mpr hm

/-- **Once the month is 0, a midnight comes that reads before the table.** -/
theorem stray_midnight {s : ClockRun} (h : TwoDigits s.board.rtc) (hm : s.board.rtc.month = 0) :
    ∃ strays : List Int, ¬ clock.Along ReadsInTable s (strays.map .tick) := by
  induction hn : untilMidnight s.board.rtc using Nat.strong_induction_on generalizing s with
  | _ n ih =>
    cases hcall : monthDaysCall s.board.rtc with
    | some c =>
      obtain ⟨rfl, _⟩ := advanceTime_midnight hcall
      exact ⟨[0], fun hall => absurd hm (monthIndex_iff.mp (hall.1 _ hcall))⟩
    | none =>
      obtain ⟨u, hu, hmonth, _, hnext⟩ := advanceTime_within hcall
      obtain ⟨hdigits, hless⟩ := hnext h
      have hstep : clock.step s (.tick 0) = some ⟨⟨s.board.i2c, u⟩, s.settings⟩ := by
        show some (ClockRun.mk ⟨_, (advanceTime s.board.rtc).getD _⟩ _) = _
        rw [hu]
        rfl
      obtain ⟨strays, hbad⟩ := ih (untilMidnight u) (hn ▸ hless)
        (s := ⟨⟨s.board.i2c, u⟩, s.settings⟩) hdigits (hmonth.trans hm) rfl
      exact ⟨0 :: strays, fun hall => hbad (hall.2 _ hstep)⟩

/-- every midnight reads within the tables, also when the run stops anywhere and the clock ticks on -/
def AlwaysInTable (s : ClockRun) (as : List ClockAct) : Prop :=
  ∀ done, done <+: as → ∀ strays : List Int, clock.Along ReadsInTable s (done ++ strays.map .tick)

theorem along_readsInTable {s : ClockRun} (h : TwoDigits s.board.rtc) (hm : s.board.rtc.month ≠ 0)
    {as : List ClockAct} (hg : clock.Along GivesMonth s as) : clock.Along ReadsInTable s as := by
  induction as generalizing s with
  | nil => trivial
  | cons a as ih =>
    refine ⟨readsInTable_month hm a, fun t ht => ?_⟩
    exact ih (clock_twoDigits h ht) (clock_month h hm hg.1 ht) (hg.2 t ht)

/-- a setting that gives the month 0 leads there -/
theorem month_zero {s s' : ClockRun} {a : ClockAct} (hg : ¬ GivesMonth s a)
    (hs : clock.step s a = some s') : s'.board.rtc.month = 0 := by
  cases a with
  | tick stray => exact absurd trivial hg
  | irq i junk =>
    obtain ⟨hset, hzero⟩ := Classical.not_imp.mp hg
    obtain ⟨i2c, rfl⟩ := clock_irq hs
    rw [if_pos hset]
    show (ds1307PutFromIsr s.board.rtc junk _).month = 0
    rw [(put_slice s.board.rtc junk _).2.1]
    exact (bcdToInt_zero _).mpr (Classical.not_not.mp hzero)

theorem clock_step (s : ClockRun) (a : ClockAct) : ∃ s', clock.step s a = some s' := ⟨_, rfl⟩

theorem clock_run (s : ClockRun) (as : List ClockAct) : ∃ t, clock.run s as = some t := by
  induction as generalizing s with
  | nil => exact ⟨s, rfl⟩
  | cons a as ih =>
    obtain ⟨u, hu⟩ := clock_step s a
    obtain ⟨t, ht⟩ := ih u
    exact ⟨t, clock.run_cons_some.mpr ⟨u, hu, ht⟩⟩

theorem alwaysInTable_iff {s : ClockRun} (h : TwoDigits s.board.rtc) (hm : s.board.rtc.month ≠ 0)
    (as : List ClockAct) : AlwaysInTable s as ↔ clock.Along GivesMonth s as := by
  constructor
  · intro hall
    induction as generalizing s with
    | nil => trivial
    | cons a as ih =>
      obtain ⟨t, ht⟩ := clock_step s a
      have hlater : ∀ done, done <+: as → ∀ strays : List Int,
          clock.Along ReadsInTable t (done ++ strays.map .tick) := fun done hdone strays =>
        (hall (a :: done) ((List.prefix_cons_inj a).mpr hdone) strays).2 t ht
      have hg : GivesMonth s a := by
        by_contra hg
        obtain ⟨strays, hbad⟩ := stray_midnight (clock_twoDigits h ht) (month_zero hg ht)
        exact hbad (hlater [] List.nil_prefix strays)
      refine ⟨hg, fun t' ht' => ?_⟩
      rw [ht] at ht'
      cases ht'
      exact ih (clock_twoDigits h ht) (clock_month h hm hg ht) hlater
  · intro hg done hdone strays
    obtain ⟨rest, rfl⟩ := hdone
    obtain ⟨t, ht⟩ := clock_run s done
    have hdone := ((Machine.along_append ht).mp hg).1
    have hticks : clock.Along GivesMonth t (strays.map .tick) := by
      refine Machine.Along.of_actions (P := fun a => ∃ stray, a = .tick stray) ?_ t ?_
      · rintro _ _ ⟨stray, rfl⟩
        trivial
      · intro a ha
        obtain ⟨stray, _, rfl⟩ := List.mem_map.mp ha
        exact ⟨stray, rfl⟩
    exact along_readsInTable h hm ((Machine.along_append ht).mpr ⟨hdone, hticks⟩)

/-- **Every midnight reads within the tables of months exactly if no setting gives the month 0.** -/
theorem midnights_in_table_iff (as : List ClockAct) :
    AlwaysInTable clockInit as ↔ clock.Along GivesMonth clockInit as :=
  alwaysInTable_iff ⟨by decide, by decide, by decide, by decide⟩ (by decide) as

/-- the clock is set to `data`, from its first register on -/
def settingOf (data : List UInt8) (junk : UInt8) : List ClockAct :=
  ((Phase.write 0 data).events ++ [Event.stopf]).map fun e => .irq (e.irq quietEnv) junk

/-- a second before midnight, on the 30th of the month 0 -/
theorem midnights_in_table_fail : ¬ ∀ as, clock.Along ReadsInTable clockInit as := by
  intro h
  have hbad := h (settingOf [0x59, 0x59, 0x23, 7, 0x30, 0x00, 0x24] 0 ++ [.tick 0])
  revert hbad
  decide +kernel

/-! ## the count of settings -/

/-- the last byte of the debug region -/
def ShowsCount (s : ClockRun) : Prop :=
  ∀ (env : Env) (buf : List UInt8), env.rtc = s.board.rtc → buf.length = 8 →
    (ds1307PlusCountGetFromIsr env buf)[7]? = some (UInt8.ofNat s.settings)

/-- What the local variable of `ds1307_put_from_isr` holds, where nothing was stored in it, is the
count. -/
def FindsCount (s : ClockRun) : ClockAct → Prop
  | .irq i junk => s.board.setsClock i → junk = s.board.rtc.setCount
  | .tick _ => True

instance (s : ClockRun) : ∀ a, Decidable (FindsCount s a)
  | .irq _ _ => inferInstanceAs (Decidable (_ → _))
  | .tick _ => inferInstanceAs (Decidable True)

theorem showsCount_iff (s : ClockRun) :
    ShowsCount s ↔ s.board.rtc.setCount = UInt8.ofNat s.settings := by
  have hread : ∀ (env : Env) (buf : List UInt8), env.rtc = s.board.rtc → buf.length = 8 →
      (ds1307PlusCountGetFromIsr env buf)[7]? = some s.board.rtc.setCount := by
    intro env buf henv hbuf
    unfold ds1307PlusCountGetFromIsr
    rw [if_pos hbuf, henv]
    rfl
  constructor
  · intro h
    have hseven := h ⟨s.board.rtc, 0, []⟩ (List.replicate 8 0) rfl rfl
    rw [hread _ _ rfl rfl] at hseven
    exact Option.some.inj hseven
  · intro h env buf henv hbuf
    rw [hread env buf henv hbuf, h]

/-- the step keeps the count right exactly if a setting finds it -/
theorem clock_count {s s' : ClockRun} {a : ClockAct} (h : ShowsCount s)
    (hs : clock.step s a = some s') : ShowsCount s' ↔ FindsCount s a := by
  rw [showsCount_iff] at h ⊢
  cases a with
  | irq i junk =>
    obtain ⟨i2c, rfl⟩ := clock_irq hs
    show _ ↔ (s.board.setsClock i → junk = s.board.rtc.setCount)
    by_cases hset : s.board.setsClock i
    · rw [if_pos hset, imp_iff_right hset]
      show junk + 1 = UInt8.ofNat (s.settings + 1) ↔ junk = s.board.rtc.setCount
      rw [UInt8.ofNat_add, ← h]
      exact add_left_inj 1
    · rw [if_neg hset]
      exact iff_of_true h fun h => absurd h hset
  | tick stray =>
    obtain ⟨hsettings, htick⟩ := clock_tick hs
    refine iff_of_true ?_ trivial
    rw [hsettings, ← h]
    obtain ⟨_, hcount, _⟩ | ⟨mdays, heq⟩ := htick
    · exact hcount
    · rw [heq, newDay_setCount]

theorem alwaysShowsCount_iff {s : ClockRun} (h : ShowsCount s) (as : List ClockAct) :
    clock.Always ShowsCount s as ↔ clock.Along FindsCount s as := by
  obtain ⟨u, hu⟩ := clock_run s as
  exact Machine.always_iff_along (I := fun _ => True) (fun _ _ _ _ _ => trivial)
    (fun _ _ _ _ h hs => clock_count h hs) hu trivial h

theorem showsCount_init : ShowsCount clockInit := (showsCount_iff clockInit).mpr rfl

/-- **The debug register counts the settings exactly if each finds the count in the local
variable.** -/
theorem settings_counted_iff (as : List ClockAct) :
    clock.Always ShowsCount clockInit as ↔ clock.Along FindsCount clockInit as :=
  alwaysShowsCount_iff showsCount_init as

/-- the clock is set once, and the local variable holds 7 -/
theorem settings_counted_fail : ¬ ∀ as, clock.Always ShowsCount clockInit as := by
  intro h
  have hall := h (settingOf [0x00, 0x30, 0x12, 7, 0x31, 0x12, 0x24] 7)
  have hfinds := (alwaysShowsCount_iff showsCount_init _).mp hall
  revert hfinds
  decide +kernel

end Bramble
