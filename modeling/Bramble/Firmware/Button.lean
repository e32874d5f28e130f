import Bramble.Firmware.Power

/-!
# The power button (`power.c`)

`power_task` reads the button every 10 ms.  A press lasts from the first depressed sample to the next
released one; the model keeps a record of the latest press beside the state of `power`, and RUN_PG
may take any level at any time.

* `button`           the machine;
* `Press.OneThing`   what one press may ask for;
* `AsksOnce`         the step asks for nothing, or it does so at the fourth sample of the press, with
                     RUN_PG as it was at the first one;
* `one_press_iff`    every press asks for one thing only exactly if every step is `AsksOnce`.
-/

namespace Bramble

/-- what the power task can ask for -/
inductive Request where
  | shutdown
  | setState (val : Bool)
  deriving DecidableEq

structure Press where
  /-- RUN_PG at its first sample -/
  on : Bool
  /-- the time of that sample -/
  began : Nat
  /-- depressed samples so far -/
  samples : Nat
  /-- what was asked for, and when -/
  requests : List (Request × Nat)
  deriving DecidableEq

/-- the press, with what a step of the power task asks for -/
def Press.record (p : Press) (rs : List Request) (now : Nat) : Press :=
  { p with requests := p.requests ++ rs.map fun r => (r, now) }

structure Button where
  sys : PowerSys
  /-- in ms -/
  now : Nat
  /-- when `vTaskDelay` ends, before the next sample -/
  wake : Nat
  press : Option Press

inductive ButtonAct where
  | power (a : PowerAct)
  /-- RUN_PG changes on its own -/
  | runPg (val : Bool)
  | pass (msec : Nat)
  deriving DecidableEq

def PowerAct.isPoll : PowerAct → Bool
  | .poll _ => true
  | _ => false

/-- a step of the power task; the delay follows the last one of a round -/
def PowerAct.ofTask : PowerAct → Bool
  | .poll _ | .ask | .run .power => true
  | _ => false

/-- what the power task asks for in a step from `s` to `t` -/
def PowerSys.requests (s t : PowerSys) : PowerAct → List Request
  | .poll _ | .ask =>
    (match t.call .power with
      | .test val => [.setState val]
      | _ => []) ++
    if s.power.shutdown < t.power.shutdown then [.shutdown] else []
  | _ => []

namespace Button

/-- the latest press, once a sample has been read -/
def pressed (s : Button) : PowerAct → Option Press
  | .poll true =>
    if s.sys.buttonPress then s.press.map fun p => { p with samples := p.samples + 1 }
    else some ⟨s.sys.power.runPg, s.now, 1, []⟩
  | _ => s.press

/-- the latest press after a step of the power machine to `t` -/
def recorded (s : Button) (t : PowerSys) (a : PowerAct) : Option Press :=
  (s.pressed a).map fun p => p.record (s.sys.requests t a) s.now

def step (s : Button) : ButtonAct → Option Button
  | .power a =>
    if a.isPoll ∧ s.now < s.wake then none
    else (Bramble.power.step s.sys a).map fun t =>
      { s with
        sys := t
        wake := if a.ofTask then s.now + PowerSys.loopMsec else s.wake
        press := s.recorded t a }
  | .runPg val =>
    some { s with sys := { s.sys with power := { s.sys.power with runPg := val } } }
  | .pass msec => some { s with now := s.now + msec }

/-- the power task starts -/
def init (s : PowerSys) : Button := ⟨s, 0, 0, none⟩

end Button

def button : Machine Button ButtonAct := ⟨Button.step⟩

namespace Press

/-- the shutdowns, and the calls that switch the pi on -/
def short (p : Press) : List (Request × Nat) := p.requests.filter fun r => r.1 ≠ .setState false

/-- **One press does one thing.** -/
structure OneThing (p : Press) : Prop where
  /-- a shutdown is asked for only if the power was on when the press began -/
  shutdown : ∀ t, (.shutdown, t) ∈ p.requests → p.on = true
  /-- the power is switched on only if it was off then -/
  setOn : ∀ t, (.setState true, t) ∈ p.requests → p.on = false
  once : p.short.length ≤ 1
  /-- the power is cut after two seconds at the earliest -/
  setOff : ∀ t, (.setState false, t) ∈ p.requests → p.began + PowerSys.buttonLongMsec ≤ t

end Press

def Button.OneThing (s : Button) : Prop := ∀ p ∈ s.press, p.OneThing

/-- `power_get_state` is called with the fourth depressed sample of a press, and tells what RUN_PG was
at the first. -/
def AsksOnce (s : Button) : ButtonAct → Prop
  | .power .ask => ∀ p ∈ s.press, p.samples = 4 ∧ s.sys.power.runPg = p.on
  | _ => True

/-! ## the steps of the power task -/

section
variable {s t : PowerSys}

theorem poll_pressed (h : power.step s (.poll true) = some t) :
    let msec := if s.buttonPress then s.buttonMsec + PowerSys.loopMsec else 0
    s.asking = false ∧ t.buttonPress = true ∧ t.buttonMsec = msec ∧
      t.asking = decide (PowerSys.buttonShortMsec ≤ msec ∧ msec < PowerSys.buttonLongMsec) ∧
      s.requests t (.poll true) =
        if PowerSys.buttonLongMsec ≤ msec then [.setState false] else [] := by
  intro msec
  obtain ⟨⟨hidle, hasking⟩, h⟩ := Option.ite_none_right_eq_some.mp h
  have ht : t = ({ s with red := if s.power.runPg then 1 else 0 } : PowerSys).buttonHeld msec :=
    (Option.some.inj h).symm
  unfold PowerSys.buttonHeld at ht
  by_cases hlong : PowerSys.buttonLongMsec ≤ msec
  · rw [if_pos hlong] at ht
    rw [if_pos hlong, decide_eq_false fun h => absurd h.2 (Nat.not_lt.mpr hlong), ht]
    refine ⟨hasking, rfl, rfl, hasking, ?_⟩
    unfold PowerSys.requests
    rw [goto_call_self]
    simp [PowerSys.goto]
  · rw [if_neg hlong] at ht
    rw [if_neg hlong]
    by_cases hshort : PowerSys.buttonShortMsec ≤ msec
    · rw [if_pos hshort] at ht
      rw [decide_eq_true ⟨hshort, Nat.lt_of_not_le hlong⟩, ht]
      refine ⟨hasking, rfl, rfl, rfl, ?_⟩
      unfold PowerSys.requests
      simp only [hidle, Nat.lt_irrefl, if_false, List.append_nil]
    · rw [if_neg hshort] at ht
      rw [decide_eq_false fun h => absurd h.1 hshort, ht]
      refine ⟨hasking, rfl, rfl, hasking, ?_⟩
      unfold PowerSys.requests
      simp only [hidle, Nat.lt_irrefl, if_false, List.append_nil]

theorem poll_released (h : power.step s (.poll false) = some t) :
    s.asking = false ∧ t.buttonPress = false ∧ t.buttonMsec = s.buttonMsec ∧ t.asking = false ∧
      s.requests t (.poll false) = [] := by
  obtain ⟨⟨hidle, hasking⟩, h⟩ := Option.ite_none_right_eq_some.mp h
  cases h
  refine ⟨hasking, rfl, rfl, hasking, ?_⟩
  unfold PowerSys.requests PowerSys.powerTask
  simp [hidle]

theorem ask_requests (h : power.step s .ask = some t) :
    s.asking = true ∧ t.buttonPress = s.buttonPress ∧ t.buttonMsec = s.buttonMsec ∧
      t.asking = false ∧
      s.requests t .ask = [if s.power.runPg then .shutdown else .setState true] := by
  obtain ⟨⟨hidle, hasking⟩, h⟩ := Option.ite_none_right_eq_some.mp h
  unfold powerGetState at h
  by_cases hpg : s.power.runPg = true
  · rw [if_pos hpg] at h ⊢
    cases h
    refine ⟨hasking, rfl, rfl, rfl, ?_⟩
    unfold PowerSys.requests powerShutdown
    simp [hidle]
  · rw [if_neg hpg] at h ⊢
    cases h
    refine ⟨hasking, rfl, rfl, rfl, ?_⟩
    unfold PowerSys.requests
    rw [goto_call_self]
    simp [PowerSys.goto]

/-- the steps of the others leave the variables of the loop alone -/
theorem power_frame {a : PowerAct} (ha : a.isPoll = false) (ha' : a ≠ .ask)
    (h : power.step s a = some t) :
    t.buttonPress = s.buttonPress ∧ t.buttonMsec = s.buttonMsec ∧ t.asking = s.asking ∧
      s.requests t a = [] := by
  cases a with
  | poll pressed => cases ha
  | ask => exact absurd rfl ha'
  | write val =>
    obtain ⟨_, h⟩ := Option.ite_none_right_eq_some.mp h
    cases h
    exact ⟨rfl, rfl, rfl, rfl⟩
  | rise =>
    obtain ⟨_, h⟩ := Option.ite_none_right_eq_some.mp h
    cases h
    exact ⟨rfl, rfl, rfl, rfl⟩
  | fall =>
    obtain ⟨_, h⟩ := Option.ite_none_right_eq_some.mp h
    cases h
    exact ⟨rfl, rfl, rfl, rfl⟩
  | run k =>
    replace h : s.stepAt k (s.call k) = some t := h
    cases hk : s.call k with
    | idle => rw [hk] at h; cases h
    | _ =>
      rw [hk] at h
      cases h
      exact ⟨rfl, rfl, rfl, rfl⟩

end

/-! ## the record of the press -/

/-- how the variables of the loop and the time go with the record -/
structure Press.Tracks (p : Press) (s : Button) : Prop where
  samples : 1 ≤ p.samples
  msec : s.sys.buttonMsec + PowerSys.loopMsec = p.samples * PowerSys.loopMsec
  wake : p.began + p.samples * PowerSys.loopMsec ≤ s.wake
  now : p.began + p.samples * PowerSys.loopMsec ≤ s.now + PowerSys.loopMsec
  asking : s.sys.asking = true → 4 ≤ p.samples ∧ p.samples ≤ 200 ∧ p.short.length = p.samples - 4
  quiet : s.sys.asking = false → p.short.length = min p.samples 200 - 3

structure Button.Inv (s : Button) : Prop where
  none : s.press = none → s.sys.buttonPress = false ∧ s.sys.asking = false
  tracks : ∀ p ∈ s.press, p.Tracks s

theorem Press.record_nil (p : Press) (now : Nat) : p.record [] now = p := by
  unfold Press.record
  rw [List.map_nil, List.append_nil]

theorem Press.short_record (p : Press) (r : Request) (t : Nat) :
    (p.record [r] t).short = p.short ++ if r = .setState false then [] else [(r, t)] := by
  unfold Press.short Press.record
  rw [List.map_cons, List.map_nil, List.filter_append]
  congr 1
  by_cases hr : r = .setState false
  · rw [if_pos hr, hr]
    rfl
  · rw [if_neg hr]
    exact List.filter_cons_of_pos (decide_eq_true hr)

/-- what may be asked for next, at the time `t` -/
def Press.Allows (p : Press) (t : Nat) : Request → Prop
  | .shutdown => p.on = true ∧ p.short.length = 0
  | .setState true => p.on = false ∧ p.short.length = 0
  | .setState false => p.began + PowerSys.buttonLongMsec ≤ t

theorem Press.OneThing.record_iff {p : Press} (h : p.OneThing) (r : Request) (t : Nat) :
    (p.record [r] t).OneThing ↔ p.Allows t r := by
  have hmem : ∀ {x : Request × Nat}, x ∈ p.requests ++ [(r, t)] ↔ x ∈ p.requests ∨ x = (r, t) := by
    intro x
    rw [List.mem_append, List.mem_singleton]
  have hlast : (r, t) ∈ p.requests ++ [(r, t)] := hmem.mpr (.inr rfl)
  constructor
  · rintro ⟨hdown, hon, honce, hoff⟩
    rw [Press.short_record, List.length_append] at honce
    cases r with
    | shutdown => exact ⟨hdown t hlast, Nat.le_zero.mp (Nat.le_of_succ_le_succ honce)⟩
    | setState val =>
      cases val with
      | true => exact ⟨hon t hlast, Nat.le_zero.mp (Nat.le_of_succ_le_succ honce)⟩
      | false => exact hoff t hlast
  · intro hr
    have hnew : ∀ {r' : Request} {t' : Nat}, (r', t') ∈ p.requests ++ [(r, t)] →
        (r', t') ∈ p.requests ∨ r = r' ∧ t = t' := fun hx =>
      (hmem.mp hx).imp_right fun hx => ⟨(Prod.mk.inj hx).1.symm, (Prod.mk.inj hx).2.symm⟩
    refine ⟨fun t' ht => ?_, fun t' ht => ?_, ?_, fun t' ht => ?_⟩
    · rcases hnew ht with ht | ⟨rfl, rfl⟩
      · exact h.shutdown t' ht
      · exact hr.1
    · rcases hnew ht with ht | ⟨rfl, rfl⟩
      · exact h.setOn t' ht
      · exact hr.1
    · rw [Press.short_record, List.length_append]
      cases r with
      | shutdown => exact Nat.le_of_eq (congrArg (· + 1) hr.2)
      | setState val =>
        cases val with
        | true => exact Nat.le_of_eq (congrArg (· + 1) hr.2)
        | false => exact h.once
    · rcases hnew ht with ht | ⟨rfl, rfl⟩
      · exact h.setOff t' ht
      · exact hr

section
variable {s t : Button}

theorem Button.step_power {a : PowerAct} (h : button.step s (.power a) = some t) :
    ∃ sys, power.step s.sys a = some sys ∧ (a.isPoll = true → s.wake ≤ s.now) ∧
      t = { s with
        sys := sys
        wake := if a.ofTask then s.now + PowerSys.loopMsec else s.wake
        press := s.recorded sys a } := by
  obtain ⟨hwake, h⟩ := Option.ite_none_left_eq_some.mp h
  obtain ⟨sys, hsys, ht⟩ := Option.map_eq_some_iff.mp h
  exact ⟨sys, hsys, fun hp => Nat.not_lt.mp fun hlt => hwake ⟨hp, hlt⟩, ht.symm⟩

/-- the record that a depressed sample finds or begins -/
theorem Button.Inv.pressed (hI : s.Inv) (hask : s.sys.asking = false) (hwake : s.wake ≤ s.now) :
    ∃ p, s.pressed (.poll true) = some p ∧ (s.OneThing → p.OneThing) ∧ 1 ≤ p.samples ∧
      (if s.sys.buttonPress then s.sys.buttonMsec + PowerSys.loopMsec else 0) + PowerSys.loopMsec =
        p.samples * PowerSys.loopMsec ∧
      p.began + p.samples * PowerSys.loopMsec ≤ s.now + PowerSys.loopMsec ∧
      p.short.length = min (p.samples - 1) 200 - 3 := by
  unfold Button.pressed
  by_cases hpress : s.sys.buttonPress = true
  · rw [if_pos hpress, if_pos hpress]
    cases hp : s.press with
    | none =>
      have hno := (hI.none hp).1
      rw [hpress] at hno
      cases hno
    | some p =>
      have htracks := hI.tracks p hp
      refine ⟨_, rfl, fun h => ⟨(h p hp).shutdown, (h p hp).setOn, (h p hp).once, (h p hp).setOff⟩,
        Nat.le_add_left 1 _, ?_, ?_, htracks.quiet hask⟩
      · show _ = (p.samples + 1) * PowerSys.loopMsec
        rw [htracks.msec, Nat.succ_mul]
      · show p.began + (p.samples + 1) * PowerSys.loopMsec ≤ _
        rw [Nat.succ_mul, ← Nat.add_assoc]
        exact Nat.add_le_add_right (Nat.le_trans htracks.wake hwake) _
  · rw [if_neg hpress, if_neg hpress]
    refine ⟨_, rfl, fun _ => ⟨?_, ?_, Nat.zero_le 1, ?_⟩, Nat.le_refl 1, rfl, ?_, rfl⟩
    · exact fun _ h => absurd h List.not_mem_nil
    · exact fun _ h => absurd h List.not_mem_nil
    · exact fun _ h => absurd h List.not_mem_nil
    · show s.now + 1 * PowerSys.loopMsec ≤ _
      rw [Nat.one_mul]

theorem Button.Inv.of_press {p : Press} (h : s.press = some p) (hp : p.Tracks s) : s.Inv := by
  constructor
  · intro hnone
    rw [h] at hnone
    cases hnone
  · intro q hq
    cases h.symm.trans hq
    exact hp

theorem Button.oneThing_iff {p : Press} (h : s.press = some p) : s.OneThing ↔ p.OneThing := by
  unfold Button.OneThing
  rw [h]
  exact ⟨fun hall => hall p rfl, fun hp q hq => Option.some.inj hq ▸ hp⟩

/-- a step that asks for nothing and leaves the loop alone -/
theorem Button.Inv.idle (hI : s.Inv) (hpress : t.press = s.press)
    (hbutton : t.sys.buttonPress = s.sys.buttonPress) (hmsec : t.sys.buttonMsec = s.sys.buttonMsec)
    (hask : t.sys.asking = s.sys.asking) (hnow : s.now ≤ t.now)
    (hwake : s.wake ≤ t.wake ∨ t.wake = t.now + PowerSys.loopMsec) : t.Inv := by
  constructor
  · intro hnone
    rw [hbutton, hask]
    exact hI.none (hpress.symm.trans hnone)
  · intro p hp
    have htracks := hI.tracks p (hpress ▸ hp)
    have hlater := Nat.le_trans htracks.now (Nat.add_le_add_right hnow _)
    refine ⟨htracks.samples, ?_, ?_, hlater, ?_, ?_⟩
    · rw [hmsec]
      exact htracks.msec
    · rcases hwake with hwake | hwake
      · exact Nat.le_trans htracks.wake hwake
      · exact hwake ▸ hlater
    · rw [hask]
      exact htracks.asking
    · rw [hask]
      exact htracks.quiet

/-- without a depressed sample and a request, the record stays -/
theorem Button.pressed_quiet (s : Button) {a : PowerAct} {sys : PowerSys} (ha : a ≠ .poll true)
    (hreq : s.sys.requests sys a = []) :
    s.recorded sys a = s.press := by
  have hsame : s.pressed a = s.press := by
    cases a with
    | poll pressed =>
      cases pressed with
      | true => exact absurd rfl ha
      | false => rfl
    | _ => rfl
  unfold Button.recorded
  simp only [hsame, hreq, Press.record_nil]
  exact Option.map_id'

theorem Button.Inv.released (hI : s.Inv) (h : button.step s (.power (.poll false)) = some t) :
    t.Inv ∧ t.press = s.press := by
  obtain ⟨sys, hsys, hwake, rfl⟩ := Button.step_power h
  obtain ⟨hask, hbutton, hmsec, hask', hreq⟩ := poll_released hsys
  have hpress := s.pressed_quiet (a := .poll false) (by simp) hreq
  refine ⟨⟨fun _ => ⟨hbutton, hask'⟩, fun p hp => ?_⟩, hpress⟩
  have htracks := hI.tracks p (hpress ▸ hp)
  refine ⟨htracks.samples, ?_, htracks.now, htracks.now, ?_, fun _ => htracks.quiet hask⟩
  · show sys.buttonMsec + _ = _
    rw [hmsec]
    exact htracks.msec
  · intro hyes
    exact absurd (hask'.symm.trans hyes) Bool.false_ne_true

theorem Button.Inv.depressed (hI : s.Inv) (h : button.step s (.power (.poll true)) = some t) :
    t.Inv ∧ (s.OneThing → t.OneThing) := by
  obtain ⟨sys, hsys, hwake, rfl⟩ := Button.step_power h
  obtain ⟨hask, hbutton, hmsec, hask', hreq⟩ := poll_pressed hsys
  obtain ⟨p, hp, hone, hsamples, hcount, hnow, hshort⟩ := hI.pressed hask (hwake rfl)
  generalize (if s.sys.buttonPress then s.sys.buttonMsec + PowerSys.loopMsec else 0) = msec
    at hmsec hask' hreq hcount
  have hloop : p.samples * PowerSys.loopMsec = p.samples * 10 := rfl
  have hten : PowerSys.loopMsec = 10 := rfl
  have hthirty : PowerSys.buttonShortMsec = 30 := rfl
  have hlimit : PowerSys.buttonLongMsec = 2000 := rfl
  have hbutton' : sys.buttonMsec + PowerSys.loopMsec = p.samples * PowerSys.loopMsec := by
    rw [hmsec]
    exact hcount
  by_cases hlong : PowerSys.buttonLongMsec ≤ msec
  · -- the power is cut
    have hfalse : sys.asking = false := by
      rw [hask']
      exact decide_eq_false fun h => absurd h.2 (Nat.not_lt.mpr hlong)
    have hpress : s.recorded sys (.poll true) = some (p.record [.setState false] s.now) := by
      unfold Button.recorded
      rw [hp, hreq, if_pos hlong, Option.map_some]
    refine ⟨.of_press hpress ⟨hsamples, hbutton', hnow, hnow, ?_, fun _ => ?_⟩,
      fun hall => (Button.oneThing_iff hpress).mpr ?_⟩
    · intro hyes
      exact absurd (hfalse.symm.trans hyes) Bool.false_ne_true
    · rw [Press.short_record, if_pos rfl, List.append_nil, hshort]
      show _ = min p.samples 200 - 3
      omega
    · apply ((hone hall).record_iff (.setState false) s.now).mpr
      show p.began + PowerSys.buttonLongMsec ≤ s.now
      omega
  · have hpress : s.recorded sys (.poll true) = some p := by
      unfold Button.recorded
      rw [hp, hreq, if_neg hlong, Option.map_some, Press.record_nil]
    refine ⟨.of_press hpress ⟨hsamples, hbutton', hnow, hnow, fun hyes => ?_, fun hno => ?_⟩,
      fun hall => (Button.oneThing_iff hpress).mpr (hone hall)⟩
    · have hshortPress := of_decide_eq_true (hask'.symm.trans hyes)
      omega
    · have hnot := of_decide_eq_false (hask'.symm.trans hno)
      omega

/-- `power_get_state`, and what follows -/
theorem Button.Inv.asked (hI : s.Inv) (h : button.step s (.power .ask) = some t) :
    t.Inv ∧ (s.OneThing → (t.OneThing ↔ AsksOnce s (.power .ask))) := by
  obtain ⟨sys, hsys, hwake, rfl⟩ := Button.step_power h
  obtain ⟨hask, hbutton, hmsec, hask', hreq⟩ := ask_requests hsys
  obtain ⟨p, hp⟩ : ∃ p, s.press = some p := by
    cases hp : s.press with
    | none => exact absurd ((hI.none hp).2.symm.trans hask) Bool.false_ne_true
    | some p => exact ⟨p, rfl⟩
  have htracks := hI.tracks p hp
  obtain ⟨hfour, hmany, hshort⟩ := htracks.asking hask
  have hpress : s.recorded sys .ask =
      some (p.record [if s.sys.power.runPg then .shutdown else .setState true] s.now) := by
    unfold Button.recorded
    rw [hreq]
    show s.press.map _ = _
    rw [hp, Option.map_some]
  refine ⟨.of_press hpress ⟨htracks.samples, ?_, htracks.now, htracks.now, ?_, fun _ => ?_⟩,
    fun hall => ?_⟩
  · show sys.buttonMsec + _ = _
    rw [hmsec]
    exact htracks.msec
  · intro hyes
    exact absurd (hask'.symm.trans hyes) Bool.false_ne_true
  · have hr : (if s.sys.power.runPg then Request.shutdown else .setState true) ≠
        .setState false := by split <;> decide
    rw [Press.short_record, if_neg hr, List.length_append, List.length_singleton, hshort]
    show _ = min p.samples 200 - 3
    omega
  · have hguard : AsksOnce s (.power .ask) ↔ p.samples = 4 ∧ s.sys.power.runPg = p.on := by
      show (∀ q ∈ s.press, q.samples = 4 ∧ s.sys.power.runPg = q.on) ↔ _
      rw [hp]
      exact ⟨fun h => h p rfl, fun h q hq => Option.some.inj hq ▸ h⟩
    rw [Button.oneThing_iff hpress, (hall p hp).record_iff, hguard]
    cases hpg : s.sys.power.runPg with
    | true =>
      show p.on = true ∧ p.short.length = 0 ↔ _
      rw [hshort, eq_comm (a := true), and_comm]
      exact and_congr_left fun _ => by omega
    | false =>
      show p.on = false ∧ p.short.length = 0 ↔ _
      rw [hshort, eq_comm (a := false), and_comm]
      exact and_congr_left fun _ => by omega

/-- **One step.** -/
theorem Button.Inv.step (hI : s.Inv) {a : ButtonAct} (h : button.step s a = some t) :
    t.Inv ∧ (s.OneThing → (t.OneThing ↔ AsksOnce s a)) := by
  have hframe : t.press = s.press → s.OneThing → t.OneThing := fun hp hall p hq => hall p (hp ▸ hq)
  cases a with
  | runPg val =>
    cases h
    exact ⟨hI.idle rfl rfl rfl rfl (Nat.le_refl _) (.inl (Nat.le_refl _)),
      fun hall => iff_of_true (hframe rfl hall) trivial⟩
  | pass msec =>
    cases h
    exact ⟨hI.idle rfl rfl rfl rfl (Nat.le_add_right _ _) (.inl (Nat.le_refl _)),
      fun hall => iff_of_true (hframe rfl hall) trivial⟩
  | power a =>
    by_cases hask : a = .ask
    · subst hask
      exact hI.asked h
    · have hguard : AsksOnce s (.power a) := by
        cases a with
        | ask => exact absurd rfl hask
        | _ => trivial
      cases hpoll : a.isPoll with
      | true =>
        cases a with
        | poll pressed =>
          cases pressed with
          | true =>
            obtain ⟨hinv, hone⟩ := hI.depressed h
            exact ⟨hinv, fun hall => iff_of_true (hone hall) hguard⟩
          | false =>
            obtain ⟨hinv, hpress⟩ := hI.released h
            exact ⟨hinv, fun hall => iff_of_true (hframe hpress hall) hguard⟩
        | _ => cases hpoll
      | false =>
        obtain ⟨sys, hsys, _, rfl⟩ := Button.step_power h
        obtain ⟨hbutton, hmsec, hasking, hreq⟩ := power_frame hpoll hask hsys
        have hpress := s.pressed_quiet (fun h : a = .poll true => by rw [h] at hpoll; cases hpoll) hreq
        refine ⟨hI.idle hpress hbutton hmsec hasking (Nat.le_refl _) ?_,
          fun hall => iff_of_true (hframe hpress hall) hguard⟩
        show s.wake ≤ (if a.ofTask then s.now + PowerSys.loopMsec else s.wake) ∨ _
        cases a.ofTask with
        | true => exact .inr rfl
        | false => exact .inl (Nat.le_refl _)

end

theorem powerInit_loop (porFlag saved runPg running edge : Bool) :
    let s := (PowerSys.reset saved runPg running edge).powerInit porFlag
    s.buttonPress = false ∧ s.asking = false := by
  cases porFlag <;> cases saved <;> exact ⟨rfl, rfl⟩

/-- **When a press does one thing.**  In every run from `power_init`, no press asks for two things or
for the wrong one exactly if the power task looks at RUN_PG once in a press, with the fourth sample,
and finds it as it was when the press began. -/
theorem one_press_iff (porFlag saved runPg running edge : Bool) (as : List ButtonAct) (u : Button)
    (h : button.run (.init ((PowerSys.reset saved runPg running edge).powerInit porFlag)) as =
      some u) :
    button.Always Button.OneThing
        (.init ((PowerSys.reset saved runPg running edge).powerInit porFlag)) as ↔
      button.Along AsksOnce
        (.init ((PowerSys.reset saved runPg running edge).powerInit porFlag)) as := by
  refine Machine.always_iff_along (fun _ _ _ hI hs => (Button.Inv.step hI hs).1)
    (fun _ _ _ hI hP hs => (Button.Inv.step hI hs).2 hP) h ?_ (fun _ hp => nomatch hp)
  exact ⟨fun _ => powerInit_loop porFlag saved runPg running edge, fun _ hp => nomatch hp⟩

instance (s : Button) : ∀ a, Decidable (AsksOnce s a)
  | .power .ask => inferInstanceAs (Decidable (∀ p ∈ s.press, _))
  | .power (.write _) | .power (.run _) | .power (.poll _) | .power .rise | .power .fall
  | .runPg _ | .pass _ => inferInstanceAs (Decidable True)

/-- the samples of a press, every 10 ms -/
def presses (n : Nat) : List ButtonAct :=
  (List.replicate n [ButtonAct.power (.poll true), .pass 10]).flatten

/-- a press that switches the pi on, which follows 40 ms later -/
def pressOn : List ButtonAct :=
  presses 3 ++ [.power (.poll true), .power .ask, .power (.run .power), .power (.run .power),
    .pass 40, .power .rise, .power (.run .power), .power (.run .power), .pass 10]

theorem one_press_on : ∃ u,
    button.run (.init ((PowerSys.reset false false false false).powerInit true))
        (pressOn ++ [.power (.poll false)]) = some u ∧
      (u.press.map (·.requests)) = some [(.setState true, 30)] ∧
      button.Always Button.OneThing (.init ((PowerSys.reset false false false false).powerInit true))
        (pressOn ++ [.power (.poll false)]) :=
  ⟨_, rfl, rfl, (one_press_iff true false false false false _ _ rfl).mpr (by decide)⟩

/-- The button is still down at the next sample: the pi is asked to shut down again. -/
theorem one_press_fails : ¬ ∀ (porFlag saved runPg running edge : Bool) (as : List ButtonAct)
    (u : Button),
    button.run (.init ((PowerSys.reset saved runPg running edge).powerInit porFlag)) as = some u →
      u.OneThing := by
  intro h
  have hone := h true false false false false
    (pressOn ++ [.power (.poll true), .power .ask]) _ rfl _ rfl
  have hdown : (Request.shutdown, 80) ∈ [(Request.setState true, 30), (.shutdown, 80)] := by decide
  exact Bool.false_ne_true (hone.shutdown 80 hdown)

end Bramble
