import Mathlib.Logic.Function.Iterate

/-!
# The Gregorian calendar

Dates and times that exist, and their distance.

* `Date.number`         days, counted from the first day of the year 0; `Date.number_next`,
                        `Date.number_injective`;
* `DateTime.seconds`    seconds, counted from the same day; `DateTime.seconds_tick`,
                        `DateTime.seconds_injective`;
* `DateTime.later`      the date and time some seconds later: `DateTime.eq_later`.
-/

namespace Bramble

/-! ## years and months -/

def isLeap (y : Nat) : Prop := y % 4 = 0 ∧ (y % 100 ≠ 0 ∨ y % 400 = 0)

instance (y : Nat) : Decidable (isLeap y) := inferInstanceAs (Decidable (_ ∧ _))

def daysInMonth (y m : Nat) : Nat :=
  if m = 2 then if isLeap y then 29 else 28
  else if m = 4 ∨ m = 6 ∨ m = 9 ∨ m = 11 then 30 else 31

theorem daysInMonth_ge (y m : Nat) : 28 ≤ daysInMonth y m := by
  unfold daysInMonth
  split
  · split <;> omega
  · split <;> omega

theorem daysInMonth_le (y m : Nat) : daysInMonth y m ≤ 31 := by
  unfold daysInMonth
  split
  · split <;> omega
  · split <;> omega

/-- days of the year `y` before its month `m` -/
def daysBeforeMonth (y : Nat) : Nat → Nat
  | 0 => 0
  | 1 => 0
  | m + 2 => daysBeforeMonth y (m + 1) + daysInMonth y (m + 1)

/-- days before the year `y` -/
def daysBeforeYear (y : Nat) : Nat := 365 * y + (y + 3) / 4 - (y + 99) / 100 + (y + 399) / 400

def daysInYear (y : Nat) : Nat := if isLeap y then 366 else 365

theorem daysBeforeMonth_succ (y : Nat) {m : Nat} (h : 1 ≤ m) :
    daysBeforeMonth y (m + 1) = daysBeforeMonth y m + daysInMonth y m := by
  obtain ⟨k, rfl⟩ : ∃ k, m = k + 1 := ⟨m - 1, by omega⟩
  rfl

theorem daysBeforeYear_succ (y : Nat) :
    daysBeforeYear (y + 1) = daysBeforeYear y + daysInYear y := by
  have h4 : (y + 1 + 3) / 4 = (y + 3) / 4 + if y % 4 = 0 then 1 else 0 := by
    split <;> omega
  have h100 : (y + 1 + 99) / 100 = (y + 99) / 100 + if y % 100 = 0 then 1 else 0 := by
    split <;> omega
  have h400 : (y + 1 + 399) / 400 = (y + 399) / 400 + if y % 400 = 0 then 1 else 0 := by
    split <;> omega
  have hle : (y + 99) / 100 ≤ (y + 3) / 4 := by omega
  have h1 : y % 400 = 0 → y % 100 = 0 := by omega
  have h2 : y % 100 = 0 → y % 4 = 0 := by omega
  unfold daysBeforeYear daysInYear isLeap
  rw [h4, h100, h400]
  generalize (y + 3) / 4 = a at hle ⊢
  generalize (y + 99) / 100 = b at hle ⊢
  by_cases c4 : y % 4 = 0
  · by_cases c100 : y % 100 = 0
    · by_cases c400 : y % 400 = 0
      · simp [c4, c100, c400]
        omega
      · simp [c4, c100, c400]
        omega
    · have c400 : ¬ y % 400 = 0 := fun h => c100 (h1 h)
      simp [c4, c100, c400]
      omega
  · have c100 : ¬ y % 100 = 0 := fun h => c4 (h2 h)
    have c400 : ¬ y % 400 = 0 := fun h => c100 (h1 h)
    simp [c4, c100, c400]
    omega

theorem daysBeforeMonth_thirteen (y : Nat) : daysBeforeMonth y 13 = daysInYear y := by
  unfold daysInYear
  by_cases h : isLeap y <;> simp [daysBeforeMonth, daysInMonth, h]

theorem daysBeforeMonth_mono (y : Nat) {m n : Nat} (hm : 1 ≤ m) (h : m ≤ n) :
    daysBeforeMonth y m ≤ daysBeforeMonth y n := by
  induction h with
  | refl => exact Nat.le_refl _
  | @step n hn ih =>
    have hn : m ≤ n := hn
    show daysBeforeMonth y m ≤ daysBeforeMonth y (n + 1)
    have := @daysBeforeMonth_succ y n (by omega)
    omega

theorem daysBeforeYear_mono {y z : Nat} (h : y ≤ z) : daysBeforeYear y ≤ daysBeforeYear z := by
  induction h with
  | refl => exact Nat.le_refl _
  | @step z _ ih =>
    show daysBeforeYear y ≤ daysBeforeYear (z + 1)
    have := daysBeforeYear_succ z
    omega

/-! ## dates -/

/-- a day that exists -/
@[ext] structure Date where
  year : Nat
  month : Nat
  day : Nat
  month_pos : 1 ≤ month
  month_le : month ≤ 12
  day_pos : 1 ≤ day
  day_le : day ≤ daysInMonth year month

namespace Date

def next (d : Date) : Date :=
  if h : d.day < daysInMonth d.year d.month then
    ⟨d.year, d.month, d.day + 1, d.month_pos, d.month_le, by omega, h⟩
  else if h' : d.month < 12 then
    ⟨d.year, d.month + 1, 1, by omega, h', Nat.le_refl 1,
      Nat.le_trans (by decide) (daysInMonth_ge _ _)⟩
  else
    ⟨d.year + 1, 1, 1, Nat.le_refl 1, Nat.le_trans d.month_pos d.month_le,
      Nat.le_refl 1, Nat.le_trans (by decide) (daysInMonth_ge _ _)⟩

theorem next_day {d : Date} (h : d.day < daysInMonth d.year d.month) :
    d.next = ⟨d.year, d.month, d.day + 1, d.month_pos, d.month_le, by omega, h⟩ := dif_pos h

theorem next_month {d : Date} (h : ¬ d.day < daysInMonth d.year d.month) (h' : d.month < 12) :
    d.next = ⟨d.year, d.month + 1, 1, by omega, h', Nat.le_refl 1,
      Nat.le_trans (by decide) (daysInMonth_ge _ _)⟩ := (dif_neg h).trans (dif_pos h')

theorem next_year {d : Date} (h : ¬ d.day < daysInMonth d.year d.month) (h' : ¬ d.month < 12) :
    d.next = ⟨d.year + 1, 1, 1, Nat.le_refl 1, Nat.le_trans d.month_pos d.month_le,
      Nat.le_refl 1, Nat.le_trans (by decide) (daysInMonth_ge _ _)⟩ := (dif_neg h).trans (dif_neg h')

def number (d : Date) : Nat := daysBeforeYear d.year + daysBeforeMonth d.year d.month + d.day

theorem number_next (d : Date) : d.next.number = d.number + 1 := by
  have hle := d.day_le
  by_cases hlast : d.day < daysInMonth d.year d.month
  · rw [next_day hlast]
    rfl
  · by_cases hdec : d.month < 12
    · have := daysBeforeMonth_succ d.year d.month_pos
      rw [next_month hlast hdec]
      show daysBeforeYear d.year + daysBeforeMonth d.year (d.month + 1) + 1 = d.number + 1
      unfold number
      omega
    · have hm : d.month = 12 := by
        have := d.month_le
        omega
      have h12 : daysBeforeMonth d.year 13 = daysBeforeMonth d.year 12 + daysInMonth d.year 12 := rfl
      have h13 := daysBeforeMonth_thirteen d.year
      have hy := daysBeforeYear_succ d.year
      rw [next_year hlast hdec]
      show daysBeforeYear (d.year + 1) + 0 + 1 = d.number + 1
      unfold number
      rw [hm] at hle hlast ⊢
      omega

theorem number_bounds (d : Date) :
    daysBeforeYear d.year < d.number ∧ d.number ≤ daysBeforeYear (d.year + 1) := by
  have h1 := d.day_pos
  have h2 := d.day_le
  have h3 := daysBeforeMonth_succ d.year d.month_pos
  have h4 : daysBeforeMonth d.year (d.month + 1) ≤ daysBeforeMonth d.year 13 :=
    daysBeforeMonth_mono _ (by omega) (Nat.succ_le_succ d.month_le)
  have h5 := daysBeforeMonth_thirteen d.year
  have h6 := daysBeforeYear_succ d.year
  unfold number
  omega

theorem number_injective {d e : Date} (h : d.number = e.number) : d = e := by
  have hyear : ∀ {d e : Date}, d.number = e.number → d.year ≤ e.year := by
    intro d e h
    by_contra hlt
    have h1 := e.number_bounds
    have h2 := d.number_bounds
    have h3 := @daysBeforeYear_mono (e.year + 1) d.year (by omega)
    omega
  have hy : d.year = e.year := Nat.le_antisymm (hyear h) (hyear h.symm)
  have hmonth : ∀ {d e : Date}, d.year = e.year → d.number = e.number → d.month ≤ e.month := by
    intro d e hy h
    by_contra hlt
    have h1 := daysBeforeMonth_succ e.year e.month_pos
    have h2 := @daysBeforeMonth_mono e.year (e.month + 1) d.month (by omega) (by omega)
    have h3 := e.day_le
    have h4 := d.day_pos
    unfold number at h
    rw [hy] at h
    omega
  have hm : d.month = e.month := Nat.le_antisymm (hmonth hy h) (hmonth hy.symm h.symm)
  refine Date.ext hy hm ?_
  unfold number at h
  rw [hy, hm] at h
  omega

end Date

/-! ## dates and times -/

@[ext] structure DateTime where
  date : Date
  hour : Nat
  min : Nat
  sec : Nat
  hour_lt : hour < 24
  min_lt : min < 60
  sec_lt : sec < 60

/-- the midnight that begins the day `d` -/
def midnight (d : Date) : DateTime := ⟨d, 0, 0, 0, by decide, by decide, by decide⟩

namespace DateTime

def lastSecond (d : DateTime) : Prop := d.hour = 23 ∧ d.min = 59 ∧ d.sec = 59

instance (d : DateTime) : Decidable d.lastSecond := inferInstanceAs (Decidable (_ ∧ _))

def tick (d : DateTime) : DateTime :=
  if hs : d.sec + 1 < 60 then ⟨d.date, d.hour, d.min, d.sec + 1, d.hour_lt, d.min_lt, hs⟩
  else if hm : d.min + 1 < 60 then ⟨d.date, d.hour, d.min + 1, 0, d.hour_lt, hm, by decide⟩
  else if hh : d.hour + 1 < 24 then ⟨d.date, d.hour + 1, 0, 0, hh, by decide, by decide⟩
  else ⟨d.date.next, 0, 0, 0, by decide, by decide, by decide⟩

def seconds (d : DateTime) : Nat := d.date.number * 86400 + d.hour * 3600 + d.min * 60 + d.sec

/-- the date and time `n` seconds later -/
def later (d : DateTime) (n : Nat) : DateTime := tick^[n] d

theorem seconds_tick (d : DateTime) : d.tick.seconds = d.seconds + 1 := by
  have h1 := d.hour_lt
  have h2 := d.min_lt
  have h3 := d.sec_lt
  have h4 := d.date.number_next
  unfold tick
  split
  · unfold seconds
    simp only
    omega
  · split
    · unfold seconds
      simp only
      omega
    · split
      · unfold seconds
        simp only
        omega
      · unfold seconds
        simp only
        omega

theorem seconds_injective {d e : DateTime} (h : d.seconds = e.seconds) : d = e := by
  have h1 := d.hour_lt
  have h2 := d.min_lt
  have h3 := d.sec_lt
  have h4 := e.hour_lt
  have h5 := e.min_lt
  have h6 := e.sec_lt
  unfold seconds at h
  have hdate : d.date = e.date := Date.number_injective (by omega)
  rw [hdate] at h
  exact DateTime.ext hdate (by omega) (by omega) (by omega)

theorem later_zero (d : DateTime) : d.later 0 = d := rfl

theorem later_succ (d : DateTime) (n : Nat) : d.later (n + 1) = (d.later n).tick :=
  Function.iterate_succ_apply' tick n d

theorem seconds_later (d : DateTime) (n : Nat) : (d.later n).seconds = d.seconds + n := by
  induction n with
  | zero => rw [later_zero, Nat.add_zero]
  | succ n ih =>
    rw [later_succ, seconds_tick, ih, Nat.add_assoc]

/-- **There is one date and time `n` seconds later.** -/
theorem eq_later {d e : DateTime} {n : Nat} (h : e.seconds = d.seconds + n) : e = d.later n :=
  seconds_injective (h.trans (d.seconds_later n).symm)

theorem tick_date (d : DateTime) :
    d.tick.date = if d.lastSecond then d.date.next else d.date := by
  have h1 := d.hour_lt
  have h2 := d.min_lt
  have h3 := d.sec_lt
  have hno : d.sec ≠ 59 ∨ d.min ≠ 59 ∨ d.hour ≠ 23 → ¬ d.lastSecond := by
    rintro h ⟨h4, h5, h6⟩
    omega
  unfold tick
  split
  · rw [if_neg (hno (by omega))]
  · split
    · rw [if_neg (hno (by omega))]
    · split
      · rw [if_neg (hno (by omega))]
      · have hyes : d.lastSecond := ⟨by omega, by omega, by omega⟩
        rw [if_pos hyes]

theorem number_le_later (d : DateTime) (n : Nat) : d.date.number ≤ (d.later n).date.number := by
  induction n with
  | zero => exact Nat.le_refl _
  | succ n ih =>
    rw [later_succ, tick_date]
    split
    · rw [Date.number_next]
      omega
    · exact ih

end DateTime

end Bramble
