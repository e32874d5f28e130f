import Bramble.Lib.Byte

/-!
# The usage bar graph (`libbramble/proc.c`, `cmd/usage_bargraph.c`)

Each CPU has a column of seven LEDs, lit from the bottom by the fraction of the time between two
samples of `/proc/stat` in which it was not idle.  The fraction is rational here, where the code has
a `double`.

* `barLoop_lit`   what the loop over the rows lights, also for a count below zero;
* `usage_range`   between the guards and the division: when the fraction is one;
* `Steady`        no counter goes back that the fraction depends on;
* `usage_iff`     usage and bar are right exactly for steady samples.
-/

namespace Bramble

/-! ## `proc.c` -/

/-- `struct proc_cpu`, as far as it is used -/
structure ProcCpu where
  user : Int
  nice : Int
  system : Int
  idle : Int
  iowait : Int
  irq : Int
  softirq : Int
  steal : Int
  deriving DecidableEq

def ProcCpu.zero : ProcCpu := ⟨0, 0, 0, 0, 0, 0, 0, 0⟩

/-- `cpu_idle` -/
def cpuIdle (x : ProcCpu) : Int := x.idle + x.iowait

/-- `cpu_total` -/
def cpuTotal (x : ProcCpu) : Int :=
  cpuIdle x + x.user + x.nice + x.system + x.irq + x.softirq + x.steal

/-- `proc_stat_calc_cpu_usage` -/
def procStatCalcCpuUsage (sample1 sample2 : ProcCpu) : ℚ :=
  let total1 : ℚ := cpuTotal sample1
  let total2 : ℚ := cpuTotal sample2
  let idle1 : ℚ := cpuIdle sample1
  let idle2 : ℚ := cpuIdle sample2
  let totalDelta := total2 - total1
  let idleDelta := idle2 - idle1
  if total1 = 0 ∨ total2 = 0 ∨ totalDelta ≤ 0 then 0
  else (totalDelta - idleDelta) / totalDelta

/-! ## `usage_bargraph.c` -/

/-- the rows `j - 1` down to 0 of a column, with `n` LEDs still to light -/
def barLoop : Nat → Int → UInt8 → UInt8
  | 0, _, col => col
  | j + 1, n, col => if n = 0 then col else barLoop j (n - 1) (col ||| 1 <<< UInt8.ofNat j)

/-- one column of `create_bargraphs`; row 6 is at the bottom -/
def bar (val : ℚ) : UInt8 := barLoop 7 ⌊val * 7⌋ 0

/-- `create_bargraphs` -/
def createBargraphs (val : List ℚ) : Vector UInt8 5 :=
  Vector.ofFn fun i => (val[i.val]?).elim 0 bar

/-- `scale` -/
def scale (min max x : ℚ) : ℚ :=
  let val := (x - min) / (max - min)
  let val := if val < 0 then 0 else val
  if val > 1 then 1 else val

/-- the columns that `usage_bargraph_main` displays: four CPUs and the temperature -/
def usageColumns (last cur : Fin 4 → ProcCpu) (tempC : ℚ) : Vector UInt8 5 :=
  createBargraphs ((List.ofFn fun i => procStatCalcCpuUsage (last i) (cur i)) ++ [scale 30 85 tempC])

/-! ## the loop -/

/-- A count below zero lights every row, and so does one above the number of rows. -/
theorem barLoop_lit {j : Nat} (hj : j ≤ 8) (n : Int) (col : UInt8) (b : Nat) :
    (barLoop j n col).toNat.testBit b =
      (col.toNat.testBit b || decide (b < j ∧ (n < 0 ∨ (j : Int) ≤ b + n))) := by
  induction j generalizing n col with
  | zero =>
    rw [decide_eq_false fun h => Nat.not_lt_zero b h.1, Bool.or_false]
    rfl
  | succ j ih =>
    unfold barLoop
    by_cases hn : n = 0
    · have hdark : ¬ (b < j + 1 ∧ (n < 0 ∨ ((j + 1 : Nat) : Int) ≤ b + n)) := by omega
      rw [if_pos hn, decide_eq_false hdark, Bool.or_false]
    · rw [if_neg hn, ih (Nat.le_of_succ_le hj), testBit_or, testBit_shl hj, Bool.or_assoc]
      congr 1
      rw [← Bool.decide_or]
      apply decide_eq_decide.mpr
      omega

/-- **A bar** has the lowest `⌊7 * val⌋` LEDs lit, or all of them if `val` is below 0. -/
theorem bar_lit (val : ℚ) (b : Nat) :
    (bar val).toNat.testBit b = decide (b < 7 ∧ (⌊val * 7⌋ < 0 ∨ (7 : Int) ≤ b + ⌊val * 7⌋)) := by
  rw [bar, barLoop_lit (by decide), UInt8.toNat_zero, Nat.zero_testBit, Bool.false_or]
  rfl

/-- the lowest `n` of seven LEDs -/
def IsBar (n : Int) (col : UInt8) : Prop :=
  ∃ k : Nat, (k : Int) = n ∧ k ≤ 7 ∧ ∀ b, col.toNat.testBit b = decide (7 - k ≤ b ∧ b < 7)

theorem bar_isBar {val : ℚ} (h0 : 0 ≤ val) (h1 : val ≤ 1) : IsBar ⌊7 * val⌋ (bar val) := by
  have hlow : 0 ≤ ⌊7 * val⌋ := Int.floor_nonneg.mpr (by linarith)
  have hhigh : ⌊7 * val⌋ ≤ 7 := by
    have hval : 7 * val ≤ (7 : Int) := by
      push_cast
      linarith
    exact Int.floor_le_iff.mpr (by linarith)
  refine ⟨⌊7 * val⌋.toNat, Int.toNat_of_nonneg hlow, by omega, fun b => ?_⟩
  rw [bar_lit, mul_comm val 7]
  apply decide_eq_decide.mpr
  omega

/-- A larger value lights no LED less. -/
theorem bar_mono {v w : ℚ} (h0 : 0 ≤ v) (h : v ≤ w) (b : Nat)
    (hb : (bar v).toNat.testBit b = true) : (bar w).toNat.testBit b = true := by
  have hlow : 0 ≤ ⌊v * 7⌋ := Int.floor_nonneg.mpr (by linarith)
  have hle : ⌊v * 7⌋ ≤ ⌊w * 7⌋ := Int.floor_le_floor (by linarith)
  rw [bar_lit] at hb ⊢
  have hlit := of_decide_eq_true hb
  exact decide_eq_true (by omega)

theorem createBargraphs_get {val : List ℚ} {i : Fin 5} {v : ℚ} (h : val[i.val]? = some v) :
    (createBargraphs val).get i = bar v := by
  have hget : (createBargraphs val).get i = (val[i.val]?).elim 0 bar :=
    Vector.getElem_ofFn i.isLt
  rw [hget, h]
  rfl

/-! ## the fraction -/

/-- the counters of a CPU that is not idle -/
def cpuBusy (x : ProcCpu) : Int := x.user + x.nice + x.system + x.irq + x.softirq + x.steal

theorem cpuTotal_eq (x : ProcCpu) : cpuTotal x = cpuIdle x + cpuBusy x := by
  unfold cpuTotal cpuBusy
  omega

section
variable {sample1 sample2 : ProcCpu}

/-- the guards of `proc_stat_calc_cpu_usage` -/
def BadSample (sample1 sample2 : ProcCpu) : Prop :=
  cpuTotal sample1 = 0 ∨ cpuTotal sample2 = 0 ∨ cpuTotal sample2 ≤ cpuTotal sample1

theorem usage_bad (h : BadSample sample1 sample2) : procStatCalcCpuUsage sample1 sample2 = 0 := by
  apply if_pos
  rcases h with h | h | h
  · exact .inl (by exact_mod_cast h)
  · exact .inr (.inl (by exact_mod_cast h))
  · have hle : (cpuTotal sample2 : ℚ) ≤ cpuTotal sample1 := by exact_mod_cast h
    exact .inr (.inr (by linarith))

theorem usage_good (h : ¬ BadSample sample1 sample2) :
    procStatCalcCpuUsage sample1 sample2 =
      ((cpuBusy sample2 - cpuBusy sample1 : Int) : ℚ) / (cpuTotal sample2 - cpuTotal sample1 : Int) := by
  obtain ⟨h1, h23⟩ := not_or.mp h
  obtain ⟨h2, h3⟩ := not_or.mp h23
  have hguards : ¬ ((cpuTotal sample1 : ℚ) = 0 ∨ (cpuTotal sample2 : ℚ) = 0 ∨
      (cpuTotal sample2 : ℚ) - cpuTotal sample1 ≤ 0) := by
    rintro (hz | hz | hz)
    · exact h1 (by exact_mod_cast hz)
    · exact h2 (by exact_mod_cast hz)
    · have hle : (cpuTotal sample2 : ℚ) ≤ cpuTotal sample1 := by linarith
      exact h3 (by exact_mod_cast hle)
  unfold procStatCalcCpuUsage
  rw [if_neg hguards, cpuTotal_eq, cpuTotal_eq]
  push_cast
  congr 1
  ring

/-- What counts as idle time, and what counts as busy time, does not go back, or the guards see that
the total does not go up. -/
def Steady (sample1 sample2 : ProcCpu) : Prop :=
  BadSample sample1 sample2 ∨
    cpuIdle sample1 ≤ cpuIdle sample2 ∧ cpuBusy sample1 ≤ cpuBusy sample2

/-- **When the result is a fraction** -/
theorem usage_range : (0 ≤ procStatCalcCpuUsage sample1 sample2 ∧
    procStatCalcCpuUsage sample1 sample2 ≤ 1) ↔ Steady sample1 sample2 := by
  by_cases hbad : BadSample sample1 sample2
  · rw [usage_bad hbad]
    exact iff_of_true ⟨le_refl 0, zero_le_one⟩ (.inl hbad)
  · have hpos : 0 < cpuTotal sample2 - cpuTotal sample1 := by
      have hle : ¬ cpuTotal sample2 ≤ cpuTotal sample1 := fun h => hbad (.inr (.inr h))
      omega
    have hposq : (0 : ℚ) < (cpuTotal sample2 - cpuTotal sample1 : Int) := by exact_mod_cast hpos
    have h1 := cpuTotal_eq sample1
    have h2 := cpuTotal_eq sample2
    rw [usage_good hbad, le_div_iff₀ hposq, div_le_one hposq, zero_mul, Int.cast_nonneg_iff,
      Int.cast_le, Steady, or_iff_right hbad]
    omega

end

/-- the usage is a fraction, 0 for a sample of zeroes, and shown by a bar that only grows with it -/
structure UsageRight (sample1 sample2 : ProcCpu) : Prop where
  nonneg : 0 ≤ procStatCalcCpuUsage sample1 sample2
  le_one : procStatCalcCpuUsage sample1 sample2 ≤ 1
  zero : sample1 = .zero ∨ sample2 = .zero → procStatCalcCpuUsage sample1 sample2 = 0
  shown : ∀ (val : List ℚ) (i : Fin 5), val[i.val]? = some (procStatCalcCpuUsage sample1 sample2) →
    IsBar ⌊7 * procStatCalcCpuUsage sample1 sample2⌋ ((createBargraphs val).get i)
  grows : ∀ v, procStatCalcCpuUsage sample1 sample2 ≤ v → v ≤ 1 → ∀ b,
    (bar (procStatCalcCpuUsage sample1 sample2)).toNat.testBit b = true →
      (bar v).toNat.testBit b = true

/-- **CPU usage and its bar.**  They are right exactly if neither the idle time (`idle` and `iowait`
together) nor the sum of the other counters goes back between the samples, or a guard catches it. -/
theorem usage_iff (sample1 sample2 : ProcCpu) :
    UsageRight sample1 sample2 ↔ Steady sample1 sample2 := by
  constructor
  · intro h
    exact usage_range.mp ⟨h.nonneg, h.le_one⟩
  · intro h
    obtain ⟨h0, h1⟩ := usage_range.mpr h
    refine ⟨h0, h1, ?_, ?_, fun v hv _ => bar_mono h0 hv⟩
    · intro hzero
      apply usage_bad
      rcases hzero with rfl | rfl
      · exact .inl rfl
      · exact .inr (.inl rfl)
    · intro val i hval
      rw [createBargraphs_get hval]
      exact bar_isBar h0 h1

theorem scale_range (min max x : ℚ) : 0 ≤ scale min max x ∧ scale min max x ≤ 1 := by
  unfold scale
  simp only
  split_ifs with h1 h2 h3
  · exact absurd h2 (by norm_num)
  · exact ⟨le_refl 0, zero_le_one⟩
  · exact ⟨zero_le_one, le_refl 1⟩
  · exact ⟨not_lt.mp h1, not_lt.mp h3⟩

/-- Every column on display is a bar: the last one always, the others for steady samples. -/
theorem usageColumns_bars (last cur : Fin 4 → ProcCpu) (tempC : ℚ) :
    (∀ i : Fin 4, Steady (last i) (cur i) →
      IsBar ⌊7 * procStatCalcCpuUsage (last i) (cur i)⌋ ((usageColumns last cur tempC).get i.castSucc)) ∧
    IsBar ⌊7 * scale 30 85 tempC⌋ ((usageColumns last cur tempC).get 4) := by
  constructor
  · intro i hi
    obtain ⟨h0, h1⟩ := usage_range.mpr hi
    rw [usageColumns, createBargraphs_get (v := procStatCalcCpuUsage (last i) (cur i))]
    · exact bar_isBar h0 h1
    · fin_cases i <;> rfl
  · obtain ⟨h0, h1⟩ := scale_range 30 85 tempC
    rw [usageColumns, createBargraphs_get (v := scale 30 85 tempC)]
    · exact bar_isBar h0 h1
    · rfl

/-- no sum of `cpu_total` overflows -/
def ProcCpu.Fits (x : ProcCpu) : Prop :=
  ∀ n ∈ [x.user, x.nice, x.system, x.idle, x.iowait, x.irq, x.softirq, x.steal,
    x.idle + x.iowait, x.idle + x.iowait + x.user, x.idle + x.iowait + x.user + x.nice,
    x.idle + x.iowait + x.user + x.nice + x.system,
    x.idle + x.iowait + x.user + x.nice + x.system + x.irq,
    x.idle + x.iowait + x.user + x.nice + x.system + x.irq + x.softirq, cpuTotal x],
    -2^31 ≤ n ∧ n < 2^31

instance (x : ProcCpu) : Decidable x.Fits := inferInstanceAs (Decidable (∀ n ∈ _, _))

/-- **`iowait` goes back by more than `idle` goes on**, and the usage is 2. -/
theorem usage_fails : ¬ ∀ sample1 sample2 : ProcCpu, sample1.Fits → sample2.Fits →
    UsageRight sample1 sample2 := by
  intro h
  have hle := (h ⟨10, 0, 0, 100, 50, 0, 0, 0⟩ ⟨20, 0, 0, 110, 35, 0, 0, 0⟩ (by decide) (by decide)).le_one
  have hval : procStatCalcCpuUsage ⟨10, 0, 0, 100, 50, 0, 0, 0⟩ ⟨20, 0, 0, 110, 35, 0, 0, 0⟩ = 2 := by
    norm_num [procStatCalcCpuUsage, cpuTotal, cpuIdle]
  rw [hval] at hle
  exact absurd hle (by norm_num)

end Bramble
