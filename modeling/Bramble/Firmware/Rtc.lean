import Bramble.CanMsg
import Bramble.Lib.Calendar

/-!
# The clock behind the DS1307 registers (`rtc.c`, `i2c.c`)

`rtc_time` counts seconds, minutes, .., years with carries; the DS1307 registers show it in BCD.

* `advanceTime`, `ds1307GetFromIsr`, `ds1307PutFromIsr`   the functions of the firmware;
* `Shows`                                                 `rtc_time` holds a date and time;
* `GoodDay`                                               the midnight that ends the day comes out
                                                          right;
* `rtc_iff`                                               the registers show the calendar for `n`
                                                          seconds iff every midnight in them ends a
                                                          good day;
* `rtc_fails`                                             the second last day of January is not one.
-/

namespace Bramble

/-! ## the firmware -/

/-- `struct rtc_time` -/
structure RtcTime where
  sec : UInt8
  min : UInt8
  hour : UInt8
  day : UInt8
  date : UInt8
  month : UInt8
  year : UInt8
  setCount : UInt8
  deriving DecidableEq

def normMdays : List Nat := [31, 28, 31, 30, 31, 30, 31, 31, 30, 31, 30, 31]
def leapMdays : List Nat := [31, 29, 31, 30, 31, 30, 31, 31, 30, 31, 30, 31]
def startingLeap : Int := 2000

/-- the index into the tables, in `month_days`; its remainder rounds towards zero -/
def monthIndex (month : Int) : Int := (month - 1).tmod 12

/-- `month_days`; `none` reads before the table -/
def monthDays (month year : Int) : Option Nat :=
  let mdays := if (year + 2000).tmod startingLeap = 0 then leapMdays else normMdays
  if monthIndex month < 0 then none else mdays[(monthIndex month).toNat]?

/-- the last part of `advance_time`, after the midnight, when `month_days` returns `mdays` -/
def advanceDateBy (mdays : Int) (t : RtcTime) : RtcTime :=
  let t := { t with day := t.day + 1 }
  let t := if 7 < t.day then { t with day := 1 } else t
  let t := { t with date := t.date + 1 }
  if t.date.toNat < mdays then t
  else
    let t := { t with date := 1, month := t.month + 1 }
    if t.month < 12 then t else { t with month := 1, year := t.year + 1 }

def advanceDate (t : RtcTime) : Option RtcTime :=
  (monthDays t.month.toNat t.year.toNat).map fun mdays : Nat => advanceDateBy mdays t

def advanceTime (t : RtcTime) : Option RtcTime :=
  let t := { t with sec := t.sec + 1 }
  if t.sec < 60 then some t
  else
    let t := { t with sec := 0, min := t.min + 1 }
    if t.min < 60 then some t
    else
      let t := { t with min := 0, hour := t.hour + 1 }
      if t.hour < 24 then some t else advanceDate { t with hour := 0 }

/-- `rtc_time` after `n` ticks -/
def ticks (t : RtcTime) : Nat → Option RtcTime
  | 0 => some t
  | n + 1 => (ticks t n).bind advanceTime

def intToBcd (i : UInt8) : UInt8 := i % 10 ||| (i / 10) <<< 4

def bcdToInt (bcd : UInt8) : UInt8 := (bcd &&& (15 : UInt8)) + (bcd >>> 4) * 10

/-- the 7 bytes of `ds1307_get_from_isr` -/
def ds1307GetFromIsr (t : RtcTime) : List UInt8 :=
  [intToBcd t.sec, intToBcd t.min, intToBcd t.hour, t.day, intToBcd t.date, intToBcd t.month,
    intToBcd t.year]

/-- `ds1307_put_from_isr`, then `rtc_set_from_isr`; `setCount` is what the local variable `time`
happens to hold -/
def ds1307PutFromIsr (t : RtcTime) (setCount : UInt8) : List UInt8 → RtcTime
  | [sec, min, hour, day, date, month, year] =>
    { sec := bcdToInt sec, min := bcdToInt min, hour := bcdToInt hour, day := day,
      date := bcdToInt date, month := bcdToInt month, year := bcdToInt year,
      setCount := setCount + 1 }
  | _ => t

/-! ## what the registers should show -/

/-- two decimal digits -/
def bcd (n : Nat) : UInt8 := UInt8.ofNat (n / 10 * 16 + n % 10)

/-- a date and time on the day `w` of the week, as register contents -/
def registers (d : DateTime) (w : Nat) : List UInt8 :=
  [bcd d.sec, bcd d.min, bcd d.hour, UInt8.ofNat w, bcd d.date.day, bcd d.date.month,
    bcd (d.date.year % 100)]

/-- the day of the week `n` midnights after the day `w` -/
def dayOfWeek (w n : Nat) : Nat := (w - 1 + n) % 7 + 1

/-- `n` ticks after `d` was set on the day `w` of the week, the registers show the date and time
`n` seconds later. -/
def ReadsRight (t : RtcTime) (d : DateTime) (w n : Nat) : Prop :=
  ∀ e : DateTime, e.seconds = d.seconds + n → ∃ u, ticks t n = some u ∧
    ds1307GetFromIsr u = registers e (dayOfWeek w (e.date.number - d.date.number))

/-- The midnight after `d` comes out right: `month_days` says that the month goes on, or it is the
last day of a month other than November, and not of the century. -/
def GoodDay (d : Date) : Prop :=
  (∃ md, monthDays d.month (d.year - 2000) = some md ∧ d.day + 1 < md) ∨
    d.day = daysInMonth d.year d.month ∧ d.month ≠ 11 ∧ ¬ (d.month = 12 ∧ d.year = 2099)

/-! ## digits -/

theorem intToBcd_lt : ∀ n < 256, intToBcd (UInt8.ofNat n) = bcd n := by decide +kernel

theorem bcdToInt_lt : ∀ n < 100, bcdToInt (bcd n) = UInt8.ofNat n := by decide

theorem intToBcd_toNat (i : UInt8) : intToBcd i = bcd i.toNat := by
  rw [← intToBcd_lt i.toNat i.toNat_lt, UInt8.ofNat_toNat]

theorem intToBcd_eq {i : UInt8} {n : Nat} (h : i.toNat = n) : intToBcd i = bcd n := by
  rw [intToBcd_toNat, h]

theorem bcdToInt_toNat {n : Nat} (hn : n < 100) : (bcdToInt (bcd n)).toNat = n := by
  rw [bcdToInt_lt n hn]
  exact UInt8.toNat_ofNat_of_lt' (by show n < 256; omega)

theorem bcd_inj {m n : Nat} (hm : m < 100) (hn : n < 100) (h : bcd m = bcd n) : m = n := by
  rw [← bcdToInt_toNat hm, h, bcdToInt_toNat hn]

/-! ## `month_days` -/

/-- the year whose month lengths the firmware uses -/
def tableYear (y : Nat) : Nat := if y = 2000 then 2000 else 2001

theorem monthDays_eq {m y : Nat} (h1 : 1 ≤ m) (h2 : m ≤ 12) (h3 : 2000 ≤ y) (h4 : y < 4000) :
    monthDays m ((y : Int) - 2000) = some (daysInMonth (tableYear y) m) := by
  have hleap : ((y : Int) - 2000 + 2000).tmod startingLeap = 0 ↔ y = 2000 := by
    unfold startingLeap
    rw [Int.tmod_eq_emod_of_nonneg (by omega)]
    omega
  have hidx : monthIndex m = ((m - 1 : Nat) : Int) := by
    unfold monthIndex
    rw [Int.tmod_eq_emod_of_nonneg (by omega)]
    omega
  unfold monthDays tableYear
  simp only [hidx, Int.toNat_natCast]
  rw [if_neg (by omega)]
  by_cases hy : y = 2000
  · rw [if_pos (hleap.mpr hy), if_pos hy]
    interval_cases m <;> rfl
  · rw [if_neg (fun h => hy (hleap.mp h)), if_neg hy]
    interval_cases m <;> rfl

/-- the table never makes a month longer than it is -/
theorem tableYear_le {y : Nat} (m : Nat) :
    daysInMonth (tableYear y) m ≤ daysInMonth y m := by
  unfold tableYear
  by_cases hy : y = 2000
  · rw [if_pos hy, hy]
  · have h2001 : ¬ isLeap 2001 := by decide
    rw [if_neg hy]
    unfold daysInMonth
    rw [if_neg h2001]
    split
    · split <;> omega
    · exact Nat.le_refl _

/-! ## one tick -/

/-- `rtc_time` holds `d`, on the day `w` of the week -/
structure Shows (t : RtcTime) (d : DateTime) (w : Nat) : Prop where
  sec : t.sec.toNat = d.sec
  min : t.min.toNat = d.min
  hour : t.hour.toNat = d.hour
  day : t.day.toNat = w
  date : t.date.toNat = d.date.day
  month : t.month.toNat = d.date.month
  year : t.year.toNat + 2000 = d.date.year
  year_le : d.date.year ≤ 2099
  week_pos : 1 ≤ w
  week_le : w ≤ 7

theorem toNat_succ {i : UInt8} (h : i.toNat + 1 < 256) : (i + 1).toNat = i.toNat + 1 := by
  rw [UInt8.toNat_add]
  exact Nat.mod_eq_of_lt h

section
variable {t : RtcTime} {d : DateTime} {w : Nat}

theorem Shows.get (h : Shows t d w) : ds1307GetFromIsr t = registers d w := by
  have h1 := d.sec_lt
  have h2 := d.min_lt
  have h3 := d.hour_lt
  have h4 := d.date.month_le
  have h5 := d.date.day_le
  have h6 := daysInMonth_le d.date.year d.date.month
  have h7 := h.year
  have h8 := h.year_le
  have hday : t.day = UInt8.ofNat w := by rw [← h.day, UInt8.ofNat_toNat]
  unfold ds1307GetFromIsr registers
  rw [intToBcd_eq h.sec, intToBcd_eq h.min, intToBcd_eq h.hour, hday, intToBcd_eq h.date,
    intToBcd_eq h.month, @intToBcd_eq _ (d.date.year % 100) (by omega)]

theorem Shows.put (t : RtcTime) (c : UInt8) (hy : 2000 ≤ d.date.year) (hy' : d.date.year ≤ 2099)
    (hw : 1 ≤ w) (hw' : w ≤ 7) : Shows (ds1307PutFromIsr t c (registers d w)) d w := by
  have h1 := d.sec_lt
  have h2 := d.min_lt
  have h3 := d.hour_lt
  have h4 := d.date.month_le
  have h5 := d.date.day_le
  have h6 := daysInMonth_le d.date.year d.date.month
  refine ⟨bcdToInt_toNat (by omega), bcdToInt_toNat (by omega), bcdToInt_toNat (by omega), ?_,
    bcdToInt_toNat (by omega), bcdToInt_toNat (by omega), ?_, hy', hw, hw'⟩
  · exact UInt8.toNat_ofNat_of_lt' (by show w < 256; omega)
  · show (bcdToInt (bcd (d.date.year % 100))).toNat + 2000 = d.date.year
    rw [bcdToInt_toNat (by omega)]
    omega

theorem Shows.weekday (h : Shows t d w) :
    (if 7 < t.day + 1 then { t with day := 1 } else { t with day := t.day + 1 } : RtcTime)
      = { t with day := UInt8.ofNat (w % 7 + 1) } := by
  have h1 := h.week_pos
  have h2 := h.week_le
  have hday : t.day = UInt8.ofNat w := by rw [← h.day, UInt8.ofNat_toNat]
  rw [hday]
  interval_cases w <;> rfl

theorem Shows.advanceDate (h : Shows t d w) :
    Bramble.advanceDate t = some (
      if d.date.day + 1 < daysInMonth (tableYear d.date.year) d.date.month then
        { t with day := UInt8.ofNat (w % 7 + 1), date := t.date + 1 }
      else if d.date.month + 1 < 12 then
        { t with day := UInt8.ofNat (w % 7 + 1), date := 1, month := t.month + 1 }
      else { t with day := UInt8.ofNat (w % 7 + 1), date := 1, month := 1, year := t.year + 1 }) := by
  have h1 := d.date.month_pos
  have h2 := d.date.month_le
  have h3 := d.date.day_le
  have h4 := daysInMonth_le d.date.year d.date.month
  have h5 := h.year
  have h6 := h.year_le
  have hmd : monthDays t.month.toNat t.year.toNat
      = some (daysInMonth (tableYear d.date.year) d.date.month) := by
    rw [← monthDays_eq h1 h2 (by omega) (by omega), h.month]
    congr 1
    omega
  have hdate : (t.date + 1).toNat = d.date.day + 1 := by
    rw [toNat_succ (by rw [h.date]; omega), h.date]
  have htwelve : t.month + 1 < 12 ↔ d.date.month + 1 < 12 := by
    rw [UInt8.lt_iff_toNat_lt, toNat_succ (by rw [h.month]; omega), h.month]
    exact Iff.rfl
  unfold Bramble.advanceDate advanceDateBy
  simp only [h.weekday, hmd, hdate, htwelve, Option.map_some, Int.ofNat_lt]

/-! ## a midnight -/

theorem tick_lastSecond (h : d.lastSecond) : d.tick = midnight d.date.next := by
  obtain ⟨h1, h2, h3⟩ := h
  unfold DateTime.tick
  rw [dif_neg (by omega), dif_neg (by omega), dif_neg (by omega)]
  rfl

theorem goodDay_iff (d : Date) (h1 : 2000 ≤ d.year) (h2 : d.year ≤ 2099) :
    GoodDay d ↔ d.day + 1 < daysInMonth (tableYear d.year) d.month ∨
      d.day = daysInMonth d.year d.month ∧ d.month ≠ 11 ∧ ¬ (d.month = 12 ∧ d.year = 2099) := by
  unfold GoodDay
  rw [monthDays_eq d.month_pos d.month_le h1 (by omega)]
  simp

/-- **The midnight after a good day comes out right.** -/
theorem Shows.good {d : Date} (h : Shows t (midnight d) w) (hg : GoodDay d) :
    ∃ u, Bramble.advanceDate t = some u ∧ Shows u (midnight d.next) (w % 7 + 1) := by
  have hyear : t.year.toNat + 2000 = d.year := h.year
  have hyear' : d.year ≤ 2099 := h.year_le
  have hdate : t.date.toNat = d.day := h.date
  have hmonth : t.month.toNat = d.month := h.month
  have hle := d.day_le
  have hle' := daysInMonth_le d.year d.month
  have htable := @tableYear_le d.year d.month
  have h12 := d.month_le
  have hweek : (UInt8.ofNat (w % 7 + 1)).toNat = w % 7 + 1 :=
    UInt8.toNat_ofNat_of_lt' (by show w % 7 + 1 < 256; omega)
  rw [goodDay_iff d (by omega) hyear'] at hg
  refine ⟨_, h.advanceDate, ?_⟩
  show Shows (if d.day + 1 < daysInMonth (tableYear d.year) d.month then _ else
    if d.month + 1 < 12 then _ else _) _ _
  by_cases hgo : d.day + 1 < daysInMonth (tableYear d.year) d.month
  · rw [if_pos hgo, Date.next_day (by omega)]
    exact ⟨h.sec, h.min, h.hour, hweek, by rw [toNat_succ (by omega), hdate]; rfl, hmonth, hyear,
      hyear', by omega, by omega⟩
  · obtain ⟨hlast, h11, hcentury⟩ := hg.resolve_left hgo
    rw [if_neg hgo]
    by_cases hm : d.month + 1 < 12
    · rw [if_pos hm, Date.next_month (by omega) (by omega)]
      exact ⟨h.sec, h.min, h.hour, hweek, rfl, by rw [toNat_succ (by omega), hmonth]; rfl, hyear,
        hyear', by omega, by omega⟩
    · rw [if_neg hm, Date.next_year (by omega) (by omega)]
      have hy : (t.year + 1).toNat = t.year.toNat + 1 := toNat_succ (by omega)
      refine ⟨h.sec, h.min, h.hour, hweek, rfl, rfl, ?_, ?_, by omega, by omega⟩
      · show (t.year + 1).toNat + 2000 = d.year + 1
        omega
      · show d.year + 1 ≤ 2099
        omega

theorem registers_inj {u : RtcTime} {e : DateTime} {w : Nat}
    (h : ds1307GetFromIsr u = registers e w) : intToBcd u.date = bcd e.date.day ∧
      intToBcd u.month = bcd e.date.month ∧ intToBcd u.year = bcd (e.date.year % 100) := by
  simp only [ds1307GetFromIsr, registers, List.cons.injEq] at h
  exact ⟨h.2.2.2.2.1, h.2.2.2.2.2.1, h.2.2.2.2.2.2.1⟩

section
variable {d : Date} {u : RtcTime}

theorem Shows.rollover (h : Shows t (midnight d) w)
    (hgo : ¬ d.day + 1 < daysInMonth (tableYear d.year) d.month)
    (hu : Bramble.advanceDate t = some u) : u.date = 1 ∧
      (11 ≤ d.month → u.month = 1 ∧ u.year = t.year + 1) := by
  have hadv := h.advanceDate
  rw [hu] at hadv
  have hu' : u = if d.month + 1 < 12 then
        { t with day := UInt8.ofNat (w % 7 + 1), date := 1, month := t.month + 1 }
      else { t with day := UInt8.ofNat (w % 7 + 1), date := 1, month := 1, year := t.year + 1 } := by
    rw [Option.some.inj hadv]
    exact if_neg hgo
  constructor
  · rw [hu']
    split <;> rfl
  · intro h11
    rw [hu', if_neg (by omega)]
    exact ⟨rfl, rfl⟩

theorem bad_date (hday : d.day < daysInMonth d.year d.month) (hu : u.date = 1) :
    intToBcd u.date ≠ bcd d.next.day := by
  have hle := d.day_le
  have hle' := daysInMonth_le d.year d.month
  have hpos := d.day_pos
  rw [hu, Date.next_day hday, @intToBcd_eq 1 1 rfl]
  intro heq
  have : 1 = d.day + 1 := bcd_inj (by decide) (by omega) heq
  omega

theorem bad_month (hday : ¬ d.day < daysInMonth d.year d.month) (h11 : d.month = 11)
    (hu : u.month = 1) : intToBcd u.month ≠ bcd d.next.month := by
  rw [hu, Date.next_month hday (by omega)]
  show _ ≠ bcd (d.month + 1)
  rw [h11]
  decide

/-- the year 100 shows as 0xa0 -/
theorem bad_year (hday : ¬ d.day < daysInMonth d.year d.month) (h12 : d.month = 12)
    (hy : d.year = 2099) (hu : u.year.toNat = 100) :
    intToBcd u.year ≠ bcd (d.next.year % 100) := by
  have hu' : u.year = UInt8.ofNat 100 := by rw [← hu, UInt8.ofNat_toNat]
  rw [hu', Date.next_year hday (by omega)]
  show _ ≠ bcd ((d.year + 1) % 100)
  rw [hy]
  decide

/-- **The midnight after any other day comes out wrong.** -/
theorem Shows.bad (h : Shows t (midnight d) w) (hg : ¬ GoodDay d)
    (hu : Bramble.advanceDate t = some u) (w' : Nat) :
    ds1307GetFromIsr u ≠ registers (midnight d.next) w' := by
  intro heq
  obtain ⟨hdate, hmonth, hyear⟩ := registers_inj heq
  have hy : t.year.toNat + 2000 = d.year := h.year
  have hy' : d.year ≤ 2099 := h.year_le
  have hle := d.day_le
  have h12 := d.month_le
  rw [goodDay_iff d (by omega) hy', not_or] at hg
  obtain ⟨hgo, hlast⟩ := hg
  obtain ⟨hfirst, hjanuary⟩ := h.rollover hgo hu
  by_cases hday : d.day < daysInMonth d.year d.month
  · exact bad_date hday hfirst hdate
  · by_cases h11 : d.month = 11
    · exact bad_month hday h11 (hjanuary (by omega)).1 hmonth
    · have hcentury : d.month = 12 ∧ d.year = 2099 := by
        by_contra hno
        exact hlast ⟨by omega, h11, hno⟩
      have hu100 : u.year.toNat = 100 := by
        rw [(hjanuary (by omega)).2, toNat_succ (by omega)]
        omega
      exact bad_year hday hcentury.1 hcentury.2 hu100 hyear

end

/-! ## the other ticks -/

theorem Shows.tick (h : Shows t d w) (hl : ¬ d.lastSecond) :
    ∃ u, advanceTime t = some u ∧ Shows u d.tick w := by
  have h1 := d.hour_lt
  have h2 := d.min_lt
  have h3 := d.sec_lt
  have hsec : (t.sec + 1).toNat = d.sec + 1 := by rw [toNat_succ (by rw [h.sec]; omega), h.sec]
  have hmin : (t.min + 1).toNat = d.min + 1 := by rw [toNat_succ (by rw [h.min]; omega), h.min]
  have hhour : (t.hour + 1).toNat = d.hour + 1 := by
    rw [toNat_succ (by rw [h.hour]; omega), h.hour]
  have c1 : t.sec + 1 < 60 ↔ d.sec + 1 < 60 := by
    rw [UInt8.lt_iff_toNat_lt, hsec]
    exact Iff.rfl
  have c2 : t.min + 1 < 60 ↔ d.min + 1 < 60 := by
    rw [UInt8.lt_iff_toNat_lt, hmin]
    exact Iff.rfl
  have c3 : t.hour + 1 < 24 ↔ d.hour + 1 < 24 := by
    rw [UInt8.lt_iff_toNat_lt, hhour]
    exact Iff.rfl
  unfold advanceTime DateTime.tick
  simp only [c1, c2, c3]
  split
  · exact ⟨_, rfl, hsec, h.min, h.hour, h.day, h.date, h.month, h.year, h.year_le, h.week_pos,
      h.week_le⟩
  · split
    · exact ⟨_, rfl, rfl, hmin, h.hour, h.day, h.date, h.month, h.year, h.year_le, h.week_pos,
        h.week_le⟩
    · split
      · exact ⟨_, rfl, rfl, rfl, hhour, h.day, h.date, h.month, h.year, h.year_le, h.week_pos,
          h.week_le⟩
      · exact absurd ⟨by omega, by omega, by omega⟩ hl

theorem Shows.advance (h : Shows t d w) (hl : d.lastSecond) :
    ∃ t0, advanceTime t = Bramble.advanceDate t0 ∧ Shows t0 (midnight d.date) w := by
  obtain ⟨h1, h2, h3⟩ := hl
  have hsec : (t.sec + 1).toNat = 60 := by rw [toNat_succ (by rw [h.sec]; omega), h.sec, h3]
  have hmin : (t.min + 1).toNat = 60 := by rw [toNat_succ (by rw [h.min]; omega), h.min, h2]
  have hhour : (t.hour + 1).toNat = 24 := by rw [toNat_succ (by rw [h.hour]; omega), h.hour, h1]
  have c1 : ¬ t.sec + 1 < 60 := by
    rw [UInt8.lt_iff_toNat_lt, hsec]
    decide
  have c2 : ¬ t.min + 1 < 60 := by
    rw [UInt8.lt_iff_toNat_lt, hmin]
    decide
  have c3 : ¬ t.hour + 1 < 24 := by
    rw [UInt8.lt_iff_toNat_lt, hhour]
    decide
  refine ⟨{ t with sec := 0, min := 0, hour := 0 }, ?_, rfl, rfl, rfl, h.day, h.date, h.month,
    h.year, h.year_le, h.week_pos, h.week_le⟩
  unfold advanceTime
  simp only [c1, c2, c3, if_false]

/-! ## runs -/

theorem ticks_succ (t : RtcTime) (n : Nat) : ticks t (n + 1) = (ticks t n).bind advanceTime := rfl

theorem dayOfWeek_zero (hw : 1 ≤ w) (hw' : w ≤ 7) : dayOfWeek w 0 = w := by
  unfold dayOfWeek
  omega

theorem dayOfWeek_succ (w n : Nat) : dayOfWeek w n % 7 + 1 = dayOfWeek w (n + 1) := by
  unfold dayOfWeek
  omega

/-- the day of the week that the calendar shows `n` seconds after `d` -/
def laterWeekday (d : DateTime) (w n : Nat) : Nat :=
  dayOfWeek w ((d.later n).date.number - d.date.number)

theorem laterWeekday_zero (d : DateTime) (hw : 1 ≤ w) (hw' : w ≤ 7) : laterWeekday d w 0 = w := by
  unfold laterWeekday
  rw [DateTime.later_zero, Nat.sub_self]
  exact dayOfWeek_zero hw hw'

theorem laterWeekday_inside {n : Nat} (h : ¬ (d.later n).lastSecond) :
    laterWeekday d w (n + 1) = laterWeekday d w n := by
  unfold laterWeekday
  rw [DateTime.later_succ, DateTime.tick_date, if_neg h]

theorem laterWeekday_midnight {n : Nat} (h : (d.later n).lastSecond) :
    laterWeekday d w (n + 1) = laterWeekday d w n % 7 + 1 := by
  have hle := d.number_le_later n
  unfold laterWeekday
  rw [DateTime.later_succ, DateTime.tick_date, if_pos h, Date.number_next, dayOfWeek_succ]
  congr 1
  omega

/-- every midnight before the `n`-th tick ends a good day -/
def GoodUntil (d : DateTime) (n : Nat) : Prop :=
  ∀ k < n, (d.later k).lastSecond → GoodDay (d.later k).date

theorem GoodUntil.mono {m n : Nat} (h : GoodUntil d n) (hmn : m ≤ n) : GoodUntil d m :=
  fun k hk => h k (Nat.lt_of_lt_of_le hk hmn)

/-- **While the midnights end good days, the clock holds the date and time.** -/
theorem Shows.ticks (h : Shows t d w) (n : Nat) (hg : GoodUntil d n) :
    ∃ u, Bramble.ticks t n = some u ∧ Shows u (d.later n) (laterWeekday d w n) := by
  induction n with
  | zero =>
    refine ⟨t, rfl, ?_⟩
    rw [laterWeekday_zero d h.week_pos h.week_le]
    exact h
  | succ n ih =>
    obtain ⟨u, hu, hs⟩ := ih (hg.mono (Nat.le_succ n))
    rw [ticks_succ, hu, Option.bind_some, DateTime.later_succ]
    by_cases hl : (d.later n).lastSecond
    · obtain ⟨u0, hadv, hs0⟩ := hs.advance hl
      have hday := hg n (Nat.lt_succ_self n) hl
      rw [hadv, tick_lastSecond hl, laterWeekday_midnight hl]
      exact hs0.good hday
    · rw [laterWeekday_inside hl]
      exact hs.tick hl

/-- **At the first midnight that ends another day the registers come out wrong.** -/
theorem Shows.ticks_bad (h : Shows t d w) {n : Nat} (hg : GoodUntil d n)
    (hl : (d.later n).lastSecond) (hbad : ¬ GoodDay (d.later n).date) {u : RtcTime}
    (hu : Bramble.ticks t (n + 1) = some u) (w' : Nat) :
    ds1307GetFromIsr u ≠ registers (d.later (n + 1)) w' := by
  obtain ⟨v, hv, hs⟩ := h.ticks n hg
  obtain ⟨v0, hadv, hs0⟩ := hs.advance hl
  rw [ticks_succ, hv, Option.bind_some, hadv] at hu
  rw [DateTime.later_succ, tick_lastSecond hl]
  exact hs0.bad hbad hu w'

theorem readsRight_later (t : RtcTime) (d : DateTime) (w n : Nat) :
    ReadsRight t d w n ↔ ∃ u, ticks t n = some u ∧
      ds1307GetFromIsr u = registers (d.later n) (laterWeekday d w n) := by
  constructor
  · intro h
    exact h _ (d.seconds_later n)
  · intro h e he
    rw [DateTime.eq_later he]
    exact h

/-- **Every reading is right until some tick iff every midnight before it ends a good day.** -/
theorem Shows.reads_iff (h : Shows t d w) (N : Nat) :
    (∀ n ≤ N, ReadsRight t d w n) ↔ GoodUntil d N := by
  constructor
  · intro hright k
    -- the first bad midnight would show in the next reading
    induction k using Nat.strong_induction_on with
    | _ k ih =>
      intro hk hl
      by_contra hbad
      have hgood : GoodUntil d k := fun j hj => ih j hj (Nat.lt_trans hj hk)
      obtain ⟨u, hu, hget⟩ := (readsRight_later t d w (k + 1)).mp (hright (k + 1) hk)
      exact h.ticks_bad hgood hl hbad hu _ hget
  · intro hgood n hn
    obtain ⟨u, hu, hs⟩ := h.ticks n (hgood.mono hn)
    exact (readsRight_later t d w n).mpr ⟨u, hu, hs.get⟩

theorem goodUntil_iff (d : DateTime) (N : Nat) :
    GoodUntil d N ↔ ∀ e : DateTime, d.seconds ≤ e.seconds → e.seconds < d.seconds + N →
      e.lastSecond → GoodDay e.date := by
  constructor
  · intro h e hle hlt
    have he : e = d.later (e.seconds - d.seconds) := DateTime.eq_later (by omega)
    rw [he]
    exact h _ (by omega)
  · intro h k hk
    have hsec := d.seconds_later k
    exact h (d.later k) (by omega) (by omega)

end

/-- **The registers show the calendar for `N` seconds iff every midnight passed in them ends a good
day.** -/
theorem rtc_iff (d : DateTime) (w : Nat) (t : RtcTime) (setCount : UInt8) (N : Nat)
    (hy : 2000 ≤ d.date.year) (hy' : d.date.year ≤ 2099) (hw : 1 ≤ w) (hw' : w ≤ 7) :
    (∀ n ≤ N, ReadsRight (ds1307PutFromIsr t setCount (registers d w)) d w n) ↔
      ∀ e : DateTime, d.seconds ≤ e.seconds → e.seconds < d.seconds + N → e.lastSecond →
        GoodDay e.date :=
  ((Shows.put t setCount hy hy' hw hw').reads_iff N).trans (goodUntil_iff d N)

/-- the last second of a day of January -/
def endOfJanuary (year day : Nat) (h : 1 ≤ day) (h' : day ≤ 31) : DateTime :=
  ⟨⟨year, 1, day, Nat.one_pos, by decide, h, h'⟩, 23, 59, 59, by decide, by decide, by decide⟩

/-- the clock that starts with the firmware -/
def rtcInit : RtcTime := ⟨0, 0, 0, 1, 1, 1, 0, 0⟩

/-- two seconds after the last second of January 2024, a Wednesday -/
theorem rtc_january : ReadsRight
    (ds1307PutFromIsr rtcInit 0 (registers (endOfJanuary 2024 31 (by decide) (by decide)) 4))
    (endOfJanuary 2024 31 (by decide) (by decide)) 4 2 := by
  refine (rtc_iff _ 4 rtcInit 0 2 (by decide) (by decide) (by decide) (by decide)).mpr ?_ 2
    (Nat.le_refl 2)
  refine (goodUntil_iff _ 2).mp fun k hk hl => ?_
  interval_cases k
  · exact .inr (by decide)
  · exact absurd hl (by decide)

/-- **The clock skips the last day of January**: one second after 30 January 2001, 23:59:59 it shows
the first of February. -/
theorem rtc_fails : ¬ ∀ (d : DateTime) (w : Nat) (t : RtcTime) (setCount : UInt8) (n : Nat),
    2000 ≤ d.date.year → d.date.year ≤ 2099 → 1 ≤ w → w ≤ 7 →
      ReadsRight (ds1307PutFromIsr t setCount (registers d w)) d w n := by
  intro h
  have hread := h (endOfJanuary 2001 30 (by decide) (by decide)) 3 rtcInit 0 1 (by decide)
    (by decide) (by decide) (by decide)
  obtain ⟨u, hu, hget⟩ := (readsRight_later _ _ _ _).mp hread
  have hfeb : u = ⟨0, 0, 0, 4, 1, 2, 1, 1⟩ := (Option.some.inj hu).symm
  rw [hfeb] at hget
  exact absurd hget (by decide)

end Bramble
