import Bramble.Firmware.Services

/-!
# Switching the power of the pi (`power.c`)

`power_set_state` runs in the rx task (CAN power writes) and in the power task (button), without a
lock; each access to GLOBAL_EN, to RUN_PG and to the backup register is a step of its own.  RUN_PG
belongs to the pi: it may fall whenever it is high, and it rises only while GLOBAL_EN is high, after
a rising edge of GLOBAL_EN that has not made it rise before.

* `power`                    the machine: two callers, the loop of the power task, the pi;
* `power_step`               everything a step can do;
* `power_set_state_returns`  a call that runs alone ends in `powerSetState`.
-/

namespace Bramble

/-- the tasks that call `power_set_state` -/
inductive Caller where
  | canrx | power
  deriving DecidableEq

def Caller.other : Caller → Caller
  | .canrx => .power
  | .power => .canrx

/-- program points of `power_set_state (val)` -/
inductive CallPc where
  /-- not in the function -/
  | idle
  /-- at `val && pi_global_en_get ()` -/
  | test (val : Bool)
  /-- at `!pi_run_pg_get ()`, with `val` true -/
  | pgTest
  /-- at `pi_global_en_set (false)` -/
  | lower
  /-- in the delay of 100 ms after it -/
  | delay
  /-- at `pi_global_en_set (val)` -/
  | set (val : Bool)
  /-- at `pi_run_pg_get () != val` -/
  | wait (val : Bool)
  /-- at `backup_set_dr1` -/
  | backup (val : Bool)
  deriving DecidableEq

/-- the value a call has driven and not yet saved -/
def CallPc.saving : CallPc → Option Bool
  | .wait val | .backup val => some val
  | _ => none

structure PowerSys where
  power : Power
  /-- GLOBAL_EN has risen, and RUN_PG has not risen since -/
  edge : Bool
  call : Caller → CallPc
  /-- the power task is at `power_get_state`, after a short press -/
  asking : Bool
  buttonPress : Bool
  buttonMsec : Nat
  /-- last argument of `matrix_set_red` -/
  red : UInt8
  /-- history: since the call drove GLOBAL_EN, the other one has driven it, last to the opposite
  value -/
  overtaken : Caller → Bool

inductive PowerAct where
  /-- a CAN power write -/
  | write (val : Bool)
  /-- one step of `power_set_state` -/
  | run (k : Caller)
  /-- one round of the loop of `power_task`, as far as it reads the button -/
  | poll (pressed : Bool)
  /-- its `power_get_state` and what it does then -/
  | ask
  /-- RUN_PG -/
  | rise
  | fall
  deriving DecidableEq

namespace PowerSys

def goto (s : PowerSys) (k : Caller) (pc : CallPc) : PowerSys :=
  { s with call := Function.update s.call k pc }

/-- `pi_global_en_set (val)` -/
def globalEnSet (s : PowerSys) (val : Bool) : PowerSys :=
  { s with
    power := { s.power with globalEn := val }
    edge := val && (s.edge || !s.power.globalEn) }

/-- one step of the call of `k` to `power_set_state`, from a program point -/
def stepAt (s : PowerSys) (k : Caller) : CallPc → Option PowerSys
  | .idle => none
  | .test val => some (s.goto k (if val && s.power.globalEn then .pgTest else .set val))
  | .pgTest => some (s.goto k (if s.power.runPg then .set true else .lower))
  | .lower => some ((s.globalEnSet false).goto k .delay)
  | .delay => some (s.goto k (.set true))
  | .set val =>
    some ({ s.globalEnSet val with
      overtaken := fun k' => decide (k' ≠ k ∧ (s.call k').saving = some (!val)) }.goto k (.wait val))
  | .wait val => some (s.goto k (if s.power.runPg = val then .backup val else .wait val))
  | .backup val => some ({ s with power := { s.power with dr1 := val.toNat } }.goto k .idle)

def loopMsec : Nat := 10
def buttonShortMsec : Nat := 30
def buttonLongMsec : Nat := 2000

/-- the button is depressed, for `msec` by now -/
def buttonHeld (s : PowerSys) (msec : Nat) : PowerSys :=
  let s := { s with buttonPress := true, buttonMsec := msec }
  if buttonLongMsec ≤ msec then s.goto .power (.test false)
  else if buttonShortMsec ≤ msec then { s with asking := true }
  else s

/-- one round of the loop of `power_task` -/
def powerTask (s : PowerSys) (pressed : Bool) : PowerSys :=
  let s := { s with red := if s.power.runPg then 1 else 0 }
  if pressed then s.buttonHeld (if s.buttonPress then s.buttonMsec + loopMsec else 0)
  else { s with buttonPress := false }

def step (s : PowerSys) : PowerAct → Option PowerSys
  | .write val => if s.call .canrx = .idle then some (s.goto .canrx (.test val)) else none
  | .run k => s.stepAt k (s.call k)
  | .poll pressed =>
    if s.call .power = .idle ∧ s.asking = false then some (s.powerTask pressed) else none
  | .ask =>
    if s.call .power = .idle ∧ s.asking = true then
      if powerGetState s.power then
        some { s with asking := false, power := powerShutdown s.power }
      else some ({ s with asking := false }.goto .power (.test true))
    else none
  | .rise =>
    if s.power.runPg = false ∧ s.power.globalEn = true ∧ s.edge = true then
      some { s with power := { s.power with runPg := true }, edge := false }
    else none
  | .fall =>
    if s.power.runPg = true then some { s with power := { s.power with runPg := false } } else none

/-- A reset turns GLOBAL_EN into an input that is pulled high.  The backup register holds 0 or 1; the
pi may be on or off. -/
def reset (saved runPg running edge : Bool) : PowerSys where
  power := ⟨true, runPg, running, saved.toNat, 0⟩
  edge := edge
  call := fun _ => .idle
  asking := false
  buttonPress := false
  buttonMsec := 0
  red := 0
  overtaken := fun _ => false

/-- `power_init (por_flag)` -/
def powerInit (s : PowerSys) (porFlag : Bool) : PowerSys :=
  let s := s.globalEnSet true
  let s := if porFlag = true ∨ s.power.dr1 = 0 then s.globalEnSet false else s
  if porFlag then { s with power := { s.power with dr1 := 0 } } else s

end PowerSys

def power : Machine PowerSys PowerAct := ⟨PowerSys.step⟩

/-! ## steps -/

/-- the levels, the backup register and the history of two states agree -/
structure SameLevels (s t : PowerSys) : Prop where
  globalEn : t.power.globalEn = s.power.globalEn
  runPg : t.power.runPg = s.power.runPg
  dr1 : t.power.dr1 = s.power.dr1
  edge : t.edge = s.edge
  overtaken : t.overtaken = s.overtaken

/-- the steps in which a call may begin -/
def PowerAct.mayCall : PowerAct → Bool
  | .write _ | .poll _ | .ask => true
  | .run _ | .rise | .fall => false

/-- Everything that can happen to the levels and the calls in a step. -/
inductive PowerStep (s : PowerSys) : PowerAct → PowerSys → Prop
  | begin (k : Caller) (val : Bool) (a : PowerAct) (t : PowerSys) (ha : a.mayCall = true)
      (hk : s.call k = .idle) (hs : SameLevels s t)
      (hcall : t.call = Function.update s.call k (.test val)) : PowerStep s a t
  | quiet (a : PowerAct) (t : PowerSys) (ha : a.mayCall = true) (hs : SameLevels s t)
      (hcall : t.call = s.call) : PowerStep s a t
  | run (k : Caller) (t : PowerSys) (h : s.stepAt k (s.call k) = some t) : PowerStep s (.run k) t
  | rise (hpg : s.power.runPg = false) (hen : s.power.globalEn = true) (hedge : s.edge = true) :
      PowerStep s .rise { s with power := { s.power with runPg := true }, edge := false }
  | fall (hpg : s.power.runPg = true) :
      PowerStep s .fall { s with power := { s.power with runPg := false } }

/-- **The machine does nothing else.** -/
theorem power_step {s t : PowerSys} {a : PowerAct} (h : power.step s a = some t) :
    PowerStep s a t := by
  cases a with
  | write val =>
    obtain ⟨hk, h⟩ := Option.ite_none_right_eq_some.mp h
    cases h
    exact .begin .canrx val _ _ rfl hk ⟨rfl, rfl, rfl, rfl, rfl⟩ rfl
  | run k => exact .run k t h
  | poll pressed =>
    obtain ⟨hk, h⟩ := Option.ite_none_right_eq_some.mp h
    cases h
    cases pressed with
    | false => exact .quiet _ _ rfl ⟨rfl, rfl, rfl, rfl, rfl⟩ rfl
    | true =>
      show PowerStep s _ (PowerSys.buttonHeld _ _)
      unfold PowerSys.buttonHeld
      simp only
      generalize (if s.buttonPress then s.buttonMsec + PowerSys.loopMsec else 0) = msec
      by_cases hlong : PowerSys.buttonLongMsec ≤ msec
      · rw [if_pos hlong]
        exact .begin .power false _ _ rfl hk.1 ⟨rfl, rfl, rfl, rfl, rfl⟩ rfl
      · rw [if_neg hlong]
        by_cases hshort : PowerSys.buttonShortMsec ≤ msec
        · rw [if_pos hshort]
          exact .quiet _ _ rfl ⟨rfl, rfl, rfl, rfl, rfl⟩ rfl
        · rw [if_neg hshort]
          exact .quiet _ _ rfl ⟨rfl, rfl, rfl, rfl, rfl⟩ rfl
  | ask =>
    obtain ⟨hk, h⟩ := Option.ite_none_right_eq_some.mp h
    split at h
    · cases h
      exact .quiet _ _ rfl ⟨rfl, rfl, rfl, rfl, rfl⟩ rfl
    · cases h
      exact .begin .power true _ _ rfl hk.1 ⟨rfl, rfl, rfl, rfl, rfl⟩ rfl
  | rise =>
    obtain ⟨hk, h⟩ := Option.ite_none_right_eq_some.mp h
    cases h
    exact .rise hk.1 hk.2.1 hk.2.2
  | fall =>
    obtain ⟨hk, h⟩ := Option.ite_none_right_eq_some.mp h
    cases h
    exact .fall hk

/-! ## a call on its own -/

section
variable {s : PowerSys} {k : Caller}

theorem goto_call_self (s : PowerSys) (k : Caller) (pc : CallPc) : (s.goto k pc).call k = pc := by
  unfold PowerSys.goto
  apply Function.update_self

theorem goto_call_of_ne (s : PowerSys) {k k' : Caller} (pc : CallPc) (h : k' ≠ k) :
    (s.goto k pc).call k' = s.call k' := by
  unfold PowerSys.goto
  apply Function.update_of_ne h

theorem run_call {pc : CallPc} {t u : PowerSys} {as : List PowerAct} (hk : s.call k = pc)
    (ht : s.stepAt k pc = some t) (hu : power.run t as = some u) :
    power.run s (.run k :: as) = some u := by
  rw [← hk] at ht
  exact (Machine.run_cons_some _).mpr ⟨t, ht, hu⟩

theorem powerSetState_eq (p : Power) (val : Bool) :
    Bramble.powerSetState p val = { p with globalEn := val, runPg := val, dr1 := val.toNat } := by
  cases val <;> rfl

/-- The pi follows: from the wait on, the call returns as soon as RUN_PG has the level. -/
theorem wait_returns {val : Bool} (hk : s.call k = .wait val) (hpg : s.power.runPg = val) :
    ∃ t, power.run s [.run k, .run k] = some t ∧ t.call k = .idle ∧
      t.power = { s.power with dr1 := val.toNat } := by
  have hwait : s.stepAt k (.wait val) = some (s.goto k (.backup val)) := by
    unfold PowerSys.stepAt
    simp only [if_pos hpg]
  refine ⟨_, run_call hk hwait (run_call (goto_call_self s k _) rfl rfl), goto_call_self _ k _, rfl⟩

/-- From the GLOBAL_EN write on: the write leaves RUN_PG at the level, or makes an edge that lets it
rise, or lets it fall. -/
theorem set_returns {val : Bool} (hk : s.call k = .set val)
    (h : val = true → s.power.runPg = true ∨ s.power.globalEn = false ∨ s.edge = true) :
    ∃ as t, power.run s as = some t ∧ t.call k = .idle ∧
      t.power = Bramble.powerSetState s.power val := by
  obtain ⟨s1, hs1⟩ : ∃ s1, s.stepAt k (.set val) = some s1 := ⟨_, rfl⟩
  have hcall : s1.call k = .wait val := by
    cases hs1
    exact goto_call_self _ k _
  have hpow : s1.power = { s.power with globalEn := val } := by
    cases hs1
    rfl
  by_cases hpg : s.power.runPg = val
  · obtain ⟨t, ht, hidle, hp⟩ := wait_returns hcall (by rw [hpow]; exact hpg)
    refine ⟨_, t, run_call hk hs1 ht, hidle, ?_⟩
    rw [hp, hpow, powerSetState_eq]
    simp only [hpg]
  · -- the pi takes RUN_PG to the level
    obtain ⟨a, s2, hs2, hcall2, hpow2⟩ : ∃ a s2, power.step s1 a = some s2 ∧ s2.call k = .wait val ∧
        s2.power = { s.power with globalEn := val, runPg := val } := by
      cases val with
      | false =>
        have hhigh : s1.power.runPg = true := by
          rw [hpow]
          exact Bool.eq_true_of_not_eq_false hpg
        refine ⟨.fall, _, if_pos hhigh, hcall, ?_⟩
        rw [hpow]
      | true =>
        have hlow : s.power.runPg = false := Bool.eq_false_of_not_eq_true hpg
        have hedge : s1.edge = true := by
          cases hs1
          show (true && (s.edge || !s.power.globalEn)) = true
          rcases h rfl with h | h | h
          · exact absurd h hpg
          · rw [h]; simp
          · rw [h]; simp
        have hen : s1.power.globalEn = true := by rw [hpow]
        have hpg1 : s1.power.runPg = false := by
          rw [hpow]
          exact hlow
        refine ⟨.rise, _, if_pos ⟨hpg1, hen, hedge⟩, hcall, ?_⟩
        rw [hpow]
    obtain ⟨t, ht, hidle, hp⟩ := wait_returns hcall2 (by rw [hpow2])
    refine ⟨_, t, run_call hk hs1 ((Machine.run_cons_some _).mpr ⟨s2, hs2, ht⟩), hidle, ?_⟩
    rw [hp, hpow2, powerSetState_eq]

/-- **A call on its own returns** in every state, and leaves what `powerSetState` says. -/
theorem power_set_state_returns {val : Bool} (hk : s.call k = .test val) :
    ∃ as t, power.run s as = some t ∧ t.call k = .idle ∧
      t.power = Bramble.powerSetState s.power val := by
  -- the tests lead to the write with RUN_PG high or GLOBAL_EN low, if need be after lowering it
  obtain ⟨as, s1, hrun, hcall, hpow, hset⟩ : ∃ as s1, power.run s as = some s1 ∧
      s1.call k = .set val ∧ Bramble.powerSetState s1.power val = Bramble.powerSetState s.power val ∧
      (val = true → s1.power.runPg = true ∨ s1.power.globalEn = false ∨ s1.edge = true) := by
    by_cases htest : (val && s.power.globalEn) = true
    · have h1 : s.stepAt k (.test val) = some (s.goto k .pgTest) := by
        unfold PowerSys.stepAt
        simp only [if_pos htest]
      obtain ⟨rfl, _⟩ := Bool.and_eq_true_iff.mp htest
      by_cases hpg : s.power.runPg = true
      · have h2 : (s.goto k .pgTest).stepAt k .pgTest = some ((s.goto k .pgTest).goto k (.set true)) := by
          show some (PowerSys.goto _ k (if s.power.runPg = true then _ else _)) = _
          rw [if_pos hpg]
        exact ⟨[.run k, .run k], (s.goto k .pgTest).goto k (.set true),
          run_call hk h1 (run_call (goto_call_self s k _) h2 rfl), goto_call_self _ k _, rfl,
          fun _ => .inl hpg⟩
      · have h2 : (s.goto k .pgTest).stepAt k .pgTest = some ((s.goto k .pgTest).goto k .lower) := by
          show some (PowerSys.goto _ k (if s.power.runPg = true then _ else _)) = _
          rw [if_neg hpg]
        let low := (((s.goto k .pgTest).goto k .lower).globalEnSet false).goto k .delay
        have h3 : power.run ((s.goto k .pgTest).goto k .lower) [.run k, .run k] =
            some (low.goto k (.set true)) :=
          run_call (goto_call_self _ k _) rfl (run_call (goto_call_self _ k _) rfl rfl)
        exact ⟨[.run k, .run k, .run k, .run k], low.goto k (.set true),
          run_call hk h1 (run_call (goto_call_self s k _) h2 h3), goto_call_self _ k _, rfl,
          fun _ => .inr (.inl rfl)⟩
    · have h1 : s.stepAt k (.test val) = some (s.goto k (.set val)) := by
        unfold PowerSys.stepAt
        simp only [if_neg htest]
      refine ⟨[.run k], s.goto k (.set val), run_call hk h1 rfl, goto_call_self s k _, rfl,
        fun hv => .inr (.inl ?_)⟩
      rw [hv, Bool.true_and] at htest
      exact Bool.eq_false_of_not_eq_true htest
  obtain ⟨bs, t, ht, hidle, hp⟩ := set_returns hcall hset
  refine ⟨as ++ bs, t, ?_, hidle, by rw [hp, hpow]⟩
  rw [Machine.run_append, hrun]
  exact ht

end

end Bramble
