import Bramble.Firmware.Power

/-!
# Two callers of `power_set_state`

What two overlapping calls and a pi that switches itself off can do to each other.

* `PowerSys.Stuck`        a call waits for a level of RUN_PG that cannot come;
* `never_stuck_iff`       a run meets no such state exactly if it is `Roused` all along;
* `PowerSys.Saved`        the backup register agrees with GLOBAL_EN;
* `saved_iff`             with no call in progress it agrees, exactly if calls that were overtaken do
                          not finish last.
-/

namespace Bramble

/-! ## waiting for ever -/

/-- With RUN_PG low, the rest of the call changes GLOBAL_EN from `en`. -/
def CallPc.changes (en : Bool) : CallPc → Bool
  | .test val => val || en
  | .pgTest | .lower => true
  | .delay => !en
  | .set val => en != val
  | .idle | .wait _ | .backup _ => false

/-- RUN_PG can become `val` with GLOBAL_EN as it is: it may fall at any time. -/
def PowerSys.canBecome (s : PowerSys) : Bool → Bool
  | true => s.power.globalEn && s.edge
  | false => true

/-- A call waits for a level that cannot come, and the other call will not change GLOBAL_EN. -/
def PowerSys.Stuck (s : PowerSys) : Prop :=
  ∃ k val, s.call k = .wait val ∧ s.power.runPg ≠ val ∧ s.canBecome val = false ∧
    (s.call k.other).changes s.power.globalEn = false

theorem PowerSys.stuck_iff {s : PowerSys} : s.Stuck ↔ ∃ k, s.call k = .wait true ∧
    s.power.runPg = false ∧ (s.power.globalEn && s.edge) = false ∧
    (s.call k.other).changes s.power.globalEn = false := by
  constructor
  · intro h
    obtain ⟨k, val, hk, hpg, hcan, hother⟩ := h
    cases val with
    | false => cases hcan
    | true => exact ⟨k, hk, Bool.eq_false_of_not_eq_true hpg, hcan, hother⟩
  · intro h
    obtain ⟨k, hk, hpg, hcan, hother⟩ := h
    exact ⟨k, true, hk, by rw [hpg]; decide, hcan, hother⟩

section
variable {s t : PowerSys} {k : Caller}

theorem Caller.other_ne (k : Caller) : k.other ≠ k := by cases k <;> decide

theorem Caller.eq_or_other (k k' : Caller) : k' = k ∨ k' = k.other := by
  cases k <;> cases k' <;> first | exact .inl rfl | exact .inr rfl

theorem Caller.other_other (k : Caller) : k.other.other = k := by cases k <;> rfl

/-- A step of a call that will not change GLOBAL_EN does not change it, and the rest will not. -/
theorem stepAt_unchanging (hpg : s.power.runPg = false)
    (hno : (s.call k).changes s.power.globalEn = false) (h : s.stepAt k (s.call k) = some t) :
    t.power.globalEn = s.power.globalEn ∧ t.power.runPg = false ∧
      (t.power.globalEn && t.edge) = (s.power.globalEn && s.edge) ∧
      (t.call k).changes t.power.globalEn = false := by
  have hmove : ∀ pc : CallPc, t = s.goto k pc → pc.changes s.power.globalEn = false →
      t.power.globalEn = s.power.globalEn ∧ t.power.runPg = false ∧
        (t.power.globalEn && t.edge) = (s.power.globalEn && s.edge) ∧
        (t.call k).changes t.power.globalEn = false := by
    intro pc ht hpc
    rw [ht, goto_call_self]
    exact ⟨rfl, hpg, rfl, hpc⟩
  cases hk : s.call k with
  | idle => rw [hk] at h; cases h
  | test val =>
    rw [hk] at hno h
    obtain ⟨rfl, hen⟩ := Bool.or_eq_false_iff.mp hno
    exact hmove (.set false) (Option.some.inj h).symm (by rw [hen]; rfl)
  | pgTest => rw [hk] at hno; cases hno
  | lower => rw [hk] at hno; cases hno
  | delay =>
    rw [hk] at hno h
    have hen : s.power.globalEn = true := Bool.not_eq_eq_eq_not.mp hno
    exact hmove (.set true) (Option.some.inj h).symm (by rw [hen]; rfl)
  | set val =>
    rw [hk] at hno h
    cases h
    have hen : s.power.globalEn = val := bne_eq_false_iff_eq.mp hno
    refine ⟨hen.symm, hpg, ?_, ?_⟩
    · show (val && (val && (s.edge || !s.power.globalEn))) = _
      rw [hen]
      cases val <;> simp
    · rw [goto_call_self]
      rfl
  | wait val =>
    rw [hk] at h
    exact hmove _ (Option.some.inj h).symm (by split <;> rfl)
  | backup val =>
    rw [hk] at h
    cases h
    refine ⟨rfl, hpg, rfl, ?_⟩
    rw [goto_call_self]
    rfl

theorem stepAt_other {pc : CallPc} (h : s.stepAt k pc = some t) :
    t.call k.other = s.call k.other := by
  have hne : k.other ≠ k := k.other_ne
  cases pc with
  | idle => cases h
  | _ =>
    cases h
    exact goto_call_of_ne _ _ hne

/-- A call that waits for RUN_PG to be high goes on waiting while it is low. -/
theorem stepAt_wait (hk : s.call k = .wait true) (hpg : s.power.runPg = false)
    (h : s.stepAt k (s.call k) = some t) : t = s.goto k (.wait true) := by
  rw [hk] at h
  replace h : some (s.goto k (if s.power.runPg = true then .backup true else .wait true)) = some t := h
  rw [hpg, if_neg Bool.false_ne_true] at h
  exact (Option.some.inj h).symm

/-- Being stuck is for ever, unless a new call begins. -/
theorem stuck_step {a : PowerAct} (hs : s.Stuck) (ha : a.mayCall = false)
    (h : power.step s a = some t) : t.Stuck := by
  rw [PowerSys.stuck_iff] at hs ⊢
  obtain ⟨k, hk, hpg, hcan, hother⟩ := hs
  cases power_step h with
  | begin k' val _ _ ha' => rw [ha] at ha'; cases ha'
  | quiet _ _ ha' => rw [ha] at ha'; cases ha'
  | rise _ hen hedge => rw [hen, hedge] at hcan; cases hcan
  | fall hpg' => rw [hpg] at hpg'; cases hpg'
  | run k' t hrun =>
    rcases k.eq_or_other k' with rfl | rfl
    · rw [stepAt_wait hk hpg hrun]
      exact ⟨k', goto_call_self s k' _, hpg, hcan, by rw [goto_call_of_ne s _ k'.other_ne]; exact hother⟩
    · obtain ⟨hen, hpg', hedge, hno⟩ := stepAt_unchanging hpg hother hrun
      have hcall := stepAt_other hrun
      rw [k.other_other] at hcall
      exact ⟨k, by rw [hcall, hk], hpg', hedge.trans hcan, hno⟩

/-- a call that will change GLOBAL_EN gets there alone -/
theorem exists_change (hpg : s.power.runPg = false)
    (h : (s.call k).changes s.power.globalEn = true) :
    ∃ n t, power.run s (List.replicate n (.run k)) = some t ∧
      t.power.globalEn ≠ s.power.globalEn := by
  let Changes (s' : PowerSys) : Prop := ∃ n t,
    power.run s' (List.replicate n (.run k)) = some t ∧ t.power.globalEn ≠ s.power.globalEn
  have hstep : ∀ {s' s'' : PowerSys} {pc : CallPc}, s'.call k = pc → s'.stepAt k pc = some s'' →
      Changes s'' → Changes s' := by
    intro s' s'' pc hk hs hc
    obtain ⟨n, t, hrun, hne⟩ := hc
    exact ⟨n + 1, t, run_call hk hs hrun, hne⟩
  have hset : ∀ (s' : PowerSys) (val : Bool), s'.call k = .set val → s.power.globalEn ≠ val →
      Changes s' := fun s' val hk hne => hstep hk rfl ⟨0, _, rfl, hne.symm⟩
  have hdelay : ∀ s' : PowerSys, s'.call k = .delay → s.power.globalEn = false → Changes s' :=
    fun s' hk hen => hstep hk rfl (hset _ true (goto_call_self s' k _) (by rw [hen]; decide))
  have hlower : ∀ s' : PowerSys, s'.call k = .lower → Changes s' := by
    intro s' hk
    by_cases hen : s.power.globalEn = false
    · exact hstep hk rfl (hdelay _ (goto_call_self _ k _) hen)
    · exact hstep hk rfl ⟨0, _, rfl, Ne.symm hen⟩
  have hpgTest : ∀ s' : PowerSys, s'.call k = .pgTest → s'.power.runPg = false → Changes s' := by
    intro s' hk hpg'
    have hs : s'.stepAt k .pgTest = some (s'.goto k .lower) := by
      show some (s'.goto k (if s'.power.runPg = true then _ else _)) = _
      rw [hpg', if_neg Bool.false_ne_true]
    exact hstep hk hs (hlower _ (goto_call_self s' k _))
  show Changes s
  cases hk : s.call k with
  | idle => rw [hk] at h; cases h
  | test val =>
    rw [hk] at h
    by_cases htest : (val && s.power.globalEn) = true
    · have hs : s.stepAt k (.test val) = some (s.goto k .pgTest) := by
        show some (s.goto k (if (val && s.power.globalEn) = true then _ else _)) = _
        rw [if_pos htest]
      exact hstep hk hs (hpgTest _ (goto_call_self s k _) hpg)
    · have hs : s.stepAt k (.test val) = some (s.goto k (.set val)) := by
        show some (s.goto k (if (val && s.power.globalEn) = true then _ else _)) = _
        rw [if_neg htest]
      refine hstep hk hs (hset _ val (goto_call_self s k _) fun hen => htest ?_)
      replace h : (val || s.power.globalEn) = true := h
      rw [hen, Bool.or_self] at h
      rw [hen, h]
      rfl
  | pgTest => exact hpgTest s hk hpg
  | lower => exact hlower s hk
  | delay =>
    rw [hk] at h
    exact hdelay s hk (Bool.not_eq_eq_eq_not.mp h)
  | set val =>
    rw [hk] at h
    exact hset s val hk (bne_iff_ne.mp h)
  | wait val => rw [hk] at h; cases h
  | backup val => rw [hk] at h; cases h

/-- a call that will not change GLOBAL_EN leaves it as it is -/
theorem unchanging_run (n : Nat) (hpg : s.power.runPg = false)
    (hno : (s.call k).changes s.power.globalEn = false)
    (h : power.run s (List.replicate n (.run k)) = some t) :
    t.power.globalEn = s.power.globalEn := by
  induction n generalizing s with
  | zero =>
    cases h
    rfl
  | succ n ih =>
    obtain ⟨u, hu, ht⟩ := (Machine.run_cons_some _).mp h
    obtain ⟨hen, hpg', _, hno'⟩ := stepAt_unchanging hpg hno hu
    rw [ih hpg' hno' ht, hen]

/-- `changes` is what it says: some run of the call alone changes GLOBAL_EN. -/
theorem changes_iff (hpg : s.power.runPg = false) :
    (s.call k).changes s.power.globalEn = true ↔
      ∃ n t, power.run s (List.replicate n (.run k)) = some t ∧
        t.power.globalEn ≠ s.power.globalEn := by
  refine ⟨exists_change hpg, fun h => ?_⟩
  obtain ⟨n, t, hrun, hne⟩ := h
  by_contra hno
  exact hne (unchanging_run n hpg (Bool.eq_false_of_not_eq_true hno) hrun)

/-- A step other than the GLOBAL_EN write leaves a call as bound to change GLOBAL_EN as it was. -/
theorem stepAt_changing (hpg : s.power.runPg = false) (hset : ∀ val, s.call k ≠ .set val)
    (h : s.stepAt k (s.call k) = some t) (hno : (t.call k).changes t.power.globalEn = false) :
    t.power.runPg = false ∧ (s.power.globalEn && s.edge) = (t.power.globalEn && t.edge) ∧
      (s.call k).changes s.power.globalEn = false := by
  cases hk : s.call k with
  | idle => rw [hk] at h; cases h
  | test val =>
    rw [hk] at h
    cases h
    refine ⟨hpg, rfl, ?_⟩
    rw [goto_call_self] at hno
    by_cases htest : (val && s.power.globalEn) = true
    · rw [if_pos htest] at hno
      cases hno
    · rw [if_neg htest] at hno
      have hen : s.power.globalEn = val := bne_eq_false_iff_eq.mp hno
      rw [hen, Bool.and_self] at htest
      show (val || s.power.globalEn) = false
      rw [hen, Bool.or_self]
      exact Bool.eq_false_of_not_eq_true htest
  | pgTest =>
    rw [hk] at h
    cases h
    rw [goto_call_self, hpg] at hno
    cases hno
  | lower =>
    rw [hk] at h
    cases h
    rw [goto_call_self] at hno
    cases hno
  | delay =>
    rw [hk] at h
    cases h
    refine ⟨hpg, rfl, ?_⟩
    rw [goto_call_self] at hno
    have hen : s.power.globalEn = true := bne_eq_false_iff_eq.mp hno
    show (!s.power.globalEn) = false
    rw [hen]
    rfl
  | set val => exact absurd hk (hset val)
  | wait val =>
    rw [hk] at h
    cases h
    exact ⟨hpg, rfl, rfl⟩
  | backup val =>
    rw [hk] at h
    cases h
    exact ⟨hpg, rfl, rfl⟩

theorem stepAt_runPg {pc : CallPc} (h : s.stepAt k pc = some t) :
    t.power.runPg = s.power.runPg := by
  cases pc with
  | idle => cases h
  | _ => cases h; rfl

/-- A call is at its wait for RUN_PG high because it was there before, or has just driven
GLOBAL_EN. -/
theorem stepAt_to_wait {pc : CallPc} (h : s.stepAt k pc = some t) (hk : t.call k = .wait true) :
    pc = .set true ∨ pc = .wait true := by
  cases pc with
  | idle => cases h
  | set val =>
    cases h
    rw [goto_call_self] at hk
    cases hk
    exact .inl rfl
  | wait val =>
    cases h
    rw [goto_call_self] at hk
    split at hk
    · cases hk
    · cases hk
      exact .inr rfl
  | test val =>
    cases h
    rw [goto_call_self] at hk
    split at hk <;> cases hk
  | pgTest =>
    cases h
    rw [goto_call_self] at hk
    split at hk <;> cases hk
  | lower => cases h; rw [goto_call_self] at hk; cases hk
  | delay => cases h; rw [goto_call_self] at hk; cases hk
  | backup val => cases h; rw [goto_call_self] at hk; cases hk

end

/-- The steps after which no call is stuck, seen from the state before: RUN_PG falls under a waiting
call only if an edge of GLOBAL_EN can raise it again or the other call is about to change GLOBAL_EN;
GLOBAL_EN is set with RUN_PG high, or with such an edge, or with the other call about to change it;
and it is cleared under a call that waits for RUN_PG high only if RUN_PG is high. -/
def Roused (s : PowerSys) : PowerAct → Prop
  | .fall => ∀ k, s.call k = .wait true → (s.power.globalEn && s.edge) = true ∨
      (s.call k.other).changes s.power.globalEn = true
  | .run k =>
    (s.call k = .set true → s.power.runPg = true ∨ s.power.globalEn = false ∨ s.edge = true ∨
      (s.call k.other).changes true = true) ∧
    (s.call k = .set false → s.call k.other = .wait true → s.power.runPg = true)
  | .write _ | .poll _ | .ask | .rise => True

theorem Caller.forall_iff {P : Caller → Prop} : (∀ k, P k) ↔ P .canrx ∧ P .power := by
  constructor
  · intro h
    exact ⟨h .canrx, h .power⟩
  · intro h k
    cases k with
    | canrx => exact h.1
    | power => exact h.2

instance (s : PowerSys) : ∀ a, Decidable (Roused s a)
  | .fall => decidable_of_iff' _ Caller.forall_iff
  | .run _ => inferInstanceAs (Decidable (_ ∧ _))
  | .write _ | .poll _ | .ask | .rise => inferInstanceAs (Decidable True)

theorem Roused.of_mayCall {s : PowerSys} {a : PowerAct} (h : a.mayCall = true) : Roused s a := by
  cases a with
  | write val => trivial
  | poll pressed => trivial
  | ask => trivial
  | run k => cases h
  | rise => trivial
  | fall => cases h

section
variable {s t : PowerSys} {k : Caller}

theorem stuck_set {val : Bool} (hk : s.call k = .set val) (h : s.stepAt k (.set val) = some t) :
    ¬ t.Stuck ↔ Roused s (.run k) := by
  have hself : t.call k = .wait val := by
    cases h
    exact goto_call_self _ k _
  have hother : t.call k.other = s.call k.other := stepAt_other h
  have hpg : t.power.runPg = s.power.runPg := stepAt_runPg h
  have hen : t.power.globalEn = val := by cases h; rfl
  have hedge : t.edge = (val && (s.edge || !s.power.globalEn)) := by cases h; rfl
  rw [PowerSys.stuck_iff]
  unfold Roused
  cases val with
  | false =>
    constructor
    · intro hno
      refine ⟨fun h => (by rw [hk] at h; cases h), fun _ hwait => ?_⟩
      by_contra hlow
      refine hno ⟨k.other, hother.trans hwait, ?_, by rw [hen]; rfl, ?_⟩
      · rw [hpg]
        exact Bool.eq_false_of_not_eq_true hlow
      · rw [k.other_other, hself]
        rfl
    · intro hall hex
      obtain ⟨k', hk', hlow, _, _⟩ := hex
      rcases k.eq_or_other k' with rfl | rfl
      · rw [hself] at hk'
        cases hk'
      · have hhigh := hall.2 hk (hother.symm.trans hk')
        rw [hpg, hhigh] at hlow
        cases hlow
  | true =>
    constructor
    · intro hno
      refine ⟨fun _ => ?_, fun h => (by rw [hk] at h; cases h)⟩
      by_contra hcon
      push Not at hcon
      obtain ⟨hlow, hhigh, hused, hch⟩ := hcon
      refine hno ⟨k, hself, ?_, ?_, ?_⟩
      · rw [hpg]
        exact Bool.eq_false_of_not_eq_true hlow
      · rw [hen, hedge, Bool.eq_true_of_not_eq_false hhigh, Bool.eq_false_of_not_eq_true hused]
        rfl
      · rw [hother, hen]
        exact Bool.eq_false_of_not_eq_true hch
    · intro hall hex
      obtain ⟨k', hk', hlow, hcan, hch⟩ := hex
      rw [hpg] at hlow
      rw [hen, hedge, Bool.true_and, Bool.true_and, Bool.or_eq_false_iff] at hcan
      obtain ⟨hused, hhigh⟩ := hcan
      have hnone : (s.call k.other).changes true = false := by
        rcases k.eq_or_other k' with rfl | rfl
        · rw [hother, hen] at hch
          exact hch
        · rw [hother] at hk'
          rw [hk']
          rfl
      rcases hall.1 hk with h | h | h | h
      · exact absurd (h.symm.trans hlow) (by decide)
      · rw [h] at hhigh
        cases hhigh
      · exact absurd (h.symm.trans hused) (by decide)
      · exact absurd (h.symm.trans hnone) (by decide)

/-- **One step.** -/
theorem stuck_step_iff {a : PowerAct} (hs : ¬ s.Stuck) (h : power.step s a = some t) :
    ¬ t.Stuck ↔ Roused s a := by
  cases power_step h with
  | begin k val _ _ ha hk hsame hcall =>
    refine iff_of_true (fun ht => hs ?_) (.of_mayCall ha)
    rw [PowerSys.stuck_iff] at ht ⊢
    obtain ⟨k', hk', hpg, hcan, hother⟩ := ht
    rw [hsame.globalEn, hsame.edge] at hcan
    rw [hsame.runPg] at hpg
    rw [hcall] at hk'
    rcases k.eq_or_other k' with rfl | rfl
    · rw [Function.update_self] at hk'
      cases hk'
    · rw [Function.update_of_ne k.other_ne] at hk'
      refine ⟨k.other, hk', hpg, hcan, ?_⟩
      rw [k.other_other, hk]
      rfl
  | quiet _ _ ha hsame hcall =>
    refine iff_of_true (fun ht => hs ?_) (.of_mayCall ha)
    rw [PowerSys.stuck_iff] at ht ⊢
    rw [hsame.globalEn, hsame.edge, hsame.runPg, hcall] at ht
    exact ht
  | rise _ _ _ =>
    refine iff_of_true (fun ht => ?_) trivial
    rw [PowerSys.stuck_iff] at ht
    obtain ⟨_, _, hpg, _⟩ := ht
    cases hpg
  | fall hpg =>
    rw [PowerSys.stuck_iff]
    show (¬ ∃ k, s.call k = _ ∧ false = false ∧ _ ∧ (s.call k.other).changes s.power.globalEn = false) ↔ _
    unfold Roused
    constructor
    · intro hno k hk
      by_contra hcon
      obtain ⟨h1, h2⟩ := not_or.mp hcon
      exact hno ⟨k, hk, rfl, Bool.eq_false_of_not_eq_true h1, Bool.eq_false_of_not_eq_true h2⟩
    · intro hall hex
      obtain ⟨k, hk, _, hcan, hother⟩ := hex
      rcases hall k hk with h | h
      · exact absurd (h.symm.trans hcan) (by decide)
      · exact absurd (h.symm.trans hother) (by decide)
  | run k t hrun =>
    by_cases hset : ∃ val, s.call k = .set val
    · obtain ⟨val, hk⟩ := hset
      rw [hk] at hrun
      exact stuck_set hk hrun
    · have hne : ∀ val, s.call k ≠ .set val := fun val hk => hset ⟨val, hk⟩
      refine iff_of_true (fun ht => hs ?_) ⟨fun hk => absurd hk (hne true), fun hk => absurd hk (hne false)⟩
      rw [PowerSys.stuck_iff] at ht ⊢
      obtain ⟨k', hk', hpg, hcan, hother⟩ := ht
      rw [stepAt_runPg hrun] at hpg
      rcases k.eq_or_other k' with rfl | rfl
      · have hwait := (stepAt_to_wait hrun hk').resolve_left (hne true)
        have ht := stepAt_wait hwait hpg hrun
        rw [stepAt_other hrun] at hother
        rw [ht] at hcan hother
        exact ⟨k', hwait, hpg, hcan, hother⟩
      · rw [k.other_other] at hother
        obtain ⟨_, hcan', hother'⟩ := stepAt_changing hpg hne hrun hother
        refine ⟨k.other, (stepAt_other hrun).symm.trans hk', hpg, hcan'.trans hcan, ?_⟩
        rw [k.other_other]
        exact hother'

theorem powerInit_idle (porFlag saved runPg running edge : Bool) (k : Caller) :
    ((PowerSys.reset saved runPg running edge).powerInit porFlag).call k = .idle := by
  cases porFlag <;> cases saved <;> rfl

theorem not_stuck_of_idle (h : ∀ k, s.call k = .idle) : ¬ s.Stuck := by
  intro hs
  obtain ⟨k, val, hk, _⟩ := hs
  rw [h k] at hk
  cases hk

end

/-- **When no call waits for ever.**  In every run from `power_init`, no state has a call waiting for
a level of RUN_PG that cannot come exactly if every step is `Roused`. -/
theorem never_stuck_iff (porFlag saved runPg running edge : Bool) (as : List PowerAct) (u : PowerSys)
    (h : power.run ((PowerSys.reset saved runPg running edge).powerInit porFlag) as = some u) :
    power.Always (fun s => ¬ s.Stuck) ((PowerSys.reset saved runPg running edge).powerInit porFlag)
        as ↔
      power.Along Roused ((PowerSys.reset saved runPg running edge).powerInit porFlag) as :=
  Machine.always_iff_along (I := fun _ => True) (fun _ _ _ _ _ => trivial)
    (fun _ _ _ _ hx hs => stuck_step_iff hx hs) h trivial
    (not_stuck_of_idle (powerInit_idle porFlag saved runPg running edge))

/-- a power write that switches the pi on -/
def switchOn : List PowerAct :=
  [.write true, .run .canrx, .run .canrx, .rise, .run .canrx, .run .canrx]

theorem never_stuck_on : ∃ u,
    power.run ((PowerSys.reset false false false false).powerInit true) switchOn = some u ∧
    u.power.dr1 = 1 ∧
    power.Always (fun s => ¬ s.Stuck) ((PowerSys.reset false false false false).powerInit true)
      switchOn :=
  ⟨_, rfl, rfl, (never_stuck_iff true false false false false switchOn _ rfl).mpr (by decide)⟩

/-- The pi is on; a power write finds RUN_PG high, then the pi switches itself off: GLOBAL_EN stays
high without an edge, and the call waits for ever. -/
theorem never_stuck_fails : ¬ ∀ (porFlag saved runPg running edge : Bool) (as : List PowerAct)
    (u : PowerSys), power.run ((PowerSys.reset saved runPg running edge).powerInit porFlag) as = some u →
      ¬ u.Stuck := by
  intro h
  refine h false true true true false
    [.write true, .run .canrx, .run .canrx, .fall, .run .canrx] _ rfl ?_
  exact ⟨.canrx, true, rfl, by decide, rfl, rfl⟩

/-! ## the saved state -/

/-- With no call in progress, the backup register agrees with GLOBAL_EN. -/
def PowerSys.Saved (s : PowerSys) : Prop :=
  (∀ k, s.call k = .idle) → (s.power.dr1 = 1 ↔ s.power.globalEn = true)

/-- the call is bound for its GLOBAL_EN write, and may have lowered GLOBAL_EN for a while -/
def CallPc.driving : CallPc → Bool
  | .delay | .set _ => true
  | _ => false

/-- GLOBAL_EN has the value a call has driven, unless that call was overtaken. -/
def Driven (s : PowerSys) : Prop :=
  ∀ k val, (s.call k).saving = some val → (s.call k.other).driving = false →
    s.power.globalEn = (val != s.overtaken k)

/-- No call that was overtaken is the last one to save its value. -/
def InOrder (s : PowerSys) : PowerAct → Prop
  | .run k => ∀ val, s.call k = .backup val → s.call k.other = .idle → s.overtaken k = false
  | .write _ | .poll _ | .ask | .rise | .fall => True

section
variable {s t : PowerSys} {k : Caller}

/-- A step that leaves the calls' values and GLOBAL_EN alone keeps track of them. -/
theorem Driven.of_same (hs : Driven s) (hen : t.power.globalEn = s.power.globalEn)
    (hover : t.overtaken = s.overtaken)
    (hsave : ∀ k val, (t.call k).saving = some val → (s.call k).saving = some val)
    (hdrive : ∀ k, (t.call k).driving = false → (s.call k).driving = false) : Driven t := by
  intro k val hk hother
  rw [hen, hover]
  exact hs k val (hsave k val hk) (hdrive k.other hother)

theorem Driven.goto {pc : CallPc} (hs : Driven s)
    (hsave : ∀ val, pc.saving = some val → (s.call k).saving = some val)
    (hdrive : pc.driving = false → (s.call k).driving = false) : Driven (s.goto k pc) := by
  refine hs.of_same rfl rfl (fun k' val h => ?_) (fun k' h => ?_)
  · by_cases hk : k' = k
    · subst hk
      rw [goto_call_self] at h
      exact hsave val h
    · rwa [goto_call_of_ne s pc hk] at h
  · by_cases hk : k' = k
    · subst hk
      rw [goto_call_self] at h
      exact hdrive h
    · rwa [goto_call_of_ne s pc hk] at h

theorem Driven.stepAt (hs : Driven s) (h : s.stepAt k (s.call k) = some t) : Driven t := by
  cases hk : s.call k with
  | idle => rw [hk] at h; cases h
  | test val =>
    rw [hk] at h
    cases h
    refine hs.goto (fun v hv => ?_) (fun _ => by rw [hk]; rfl)
    split at hv <;> cases hv
  | pgTest =>
    rw [hk] at h
    cases h
    refine hs.goto (fun v hv => ?_) (fun _ => by rw [hk]; rfl)
    split at hv <;> cases hv
  | lower =>
    rw [hk] at h
    cases h
    intro k' v hv hother
    rcases k.eq_or_other k' with rfl | rfl
    · rw [goto_call_self] at hv
      cases hv
    · rw [k.other_other, goto_call_self] at hother
      cases hother
  | delay =>
    rw [hk] at h
    cases h
    exact hs.goto (fun v hv => by cases hv) (fun hd => by cases hd)
  | set val =>
    rw [hk] at h
    cases h
    intro k' v hv _
    show val = (v != decide (k' ≠ k ∧ (s.call k').saving = some (!val)))
    rcases k.eq_or_other k' with rfl | rfl
    · rw [goto_call_self] at hv
      cases hv
      rw [decide_eq_false fun h => h.1 rfl, Bool.bne_false]
    · rw [goto_call_of_ne _ _ k.other_ne] at hv
      replace hv : (s.call k.other).saving = some v := hv
      rw [hv]
      cases v <;> cases val <;> simp [k.other_ne]
  | wait val =>
    rw [hk] at h
    cases h
    refine hs.goto (fun v hv => ?_) (fun _ => by rw [hk]; rfl)
    rw [hk]
    split at hv <;> exact hv
  | backup val =>
    rw [hk] at h
    cases h
    have hs' : Driven { s with power := { s.power with dr1 := val.toNat } } :=
      hs.of_same rfl rfl (fun _ _ h => h) (fun _ h => h)
    exact hs'.goto (fun v hv => by cases hv) (fun _ => by show (s.call k).driving = false; rw [hk]; rfl)

theorem Driven.step {a : PowerAct} (hs : Driven s) (h : power.step s a = some t) : Driven t := by
  cases power_step h with
  | begin k val _ _ ha hk hsame hcall =>
    have ht : Driven (s.goto k (.test val)) :=
      hs.goto (fun v hv => by cases hv) (fun _ => by rw [hk]; rfl)
    refine ht.of_same hsame.globalEn hsame.overtaken ?_ ?_
    · intro k' v hv
      rwa [hcall] at hv
    · intro k' hd
      rwa [hcall] at hd
  | quiet _ _ ha hsame hcall =>
    refine hs.of_same hsame.globalEn hsame.overtaken ?_ ?_
    · intro k' v hv
      rwa [hcall] at hv
    · intro k' hd
      rwa [hcall] at hd
  | rise _ _ _ => exact hs.of_same rfl rfl (fun _ _ h => h) (fun _ h => h)
  | fall _ => exact hs.of_same rfl rfl (fun _ _ h => h) (fun _ h => h)
  | run k t hrun => exact hs.stepAt hrun

theorem InOrder.of_mayCall {a : PowerAct} (h : a.mayCall = true) : InOrder s a := by
  cases a with
  | write val => trivial
  | poll pressed => trivial
  | ask => trivial
  | run k => cases h
  | rise => trivial
  | fall => trivial

theorem saved_backup {val : Bool} (hs : Driven s) (hk : s.call k = .backup val)
    (h : s.stepAt k (.backup val) = some t) : t.Saved ↔ InOrder s (.run k) := by
  have hother : t.call k.other = s.call k.other := stepAt_other h
  have hself : t.call k = .idle := by
    cases h
    exact goto_call_self _ k _
  have hen : t.power.globalEn = s.power.globalEn := by cases h; rfl
  have hdr1 : t.power.dr1 = val.toNat := by cases h; rfl
  have hval : val.toNat = 1 ↔ val = true := by cases val <;> decide
  have hquiet : (∀ k', t.call k' = .idle) ↔ s.call k.other = .idle := by
    rw [← hother]
    constructor
    · intro hall
      exact hall k.other
    · intro hidle k'
      rcases k.eq_or_other k' with rfl | rfl
      · exact hself
      · exact hidle
  have htrack : s.call k.other = .idle → s.power.globalEn = (val != s.overtaken k) := by
    intro hidle
    refine hs k val (by rw [hk]; rfl) ?_
    rw [hidle]
    rfl
  unfold PowerSys.Saved InOrder
  rw [hquiet, hen, hdr1, hval]
  constructor
  · intro hsaved v hv hidle
    rw [hk] at hv
    cases hv
    have heq := hsaved hidle
    rw [htrack hidle] at heq
    cases val <;> cases hover : s.overtaken k <;> rw [hover] at heq <;> simp at heq ⊢
  · intro hall hidle
    rw [htrack hidle, hall val hk hidle, Bool.bne_false]

/-- **One step.** -/
theorem saved_step_iff {a : PowerAct} (hI : Driven s) (hs : s.Saved)
    (h : power.step s a = some t) : t.Saved ↔ InOrder s a := by
  -- a step after which a call is in progress has nothing to show
  have hbusy : ∀ k, t.call k ≠ .idle → t.Saved := fun k hk hall => absurd (hall k) hk
  cases power_step h with
  | begin k val _ _ ha hk hsame hcall =>
    refine iff_of_true (hbusy k ?_) (.of_mayCall ha)
    rw [hcall, Function.update_self]
    exact CallPc.noConfusion
  | quiet _ _ ha hsame hcall =>
    refine iff_of_true ?_ (.of_mayCall ha)
    unfold PowerSys.Saved
    rw [hcall, hsame.dr1, hsame.globalEn]
    exact hs
  | rise _ _ _ => exact iff_of_true hs trivial
  | fall _ => exact iff_of_true hs trivial
  | run k t hrun =>
    by_cases hback : ∃ val, s.call k = .backup val
    · obtain ⟨val, hk⟩ := hback
      rw [hk] at hrun
      exact saved_backup hI hk hrun
    · refine iff_of_true (hbusy k ?_) (fun val hk _ => absurd ⟨val, hk⟩ hback)
      cases hk : s.call k with
      | idle => rw [hk] at hrun; cases hrun
      | backup val => exact absurd ⟨val, hk⟩ hback
      | _ =>
        rw [hk] at hrun
        cases hrun
        rw [goto_call_self]
        first | exact CallPc.noConfusion | (split <;> exact CallPc.noConfusion)

theorem powerInit_saved (porFlag saved runPg running edge : Bool) :
    ((PowerSys.reset saved runPg running edge).powerInit porFlag).Saved := by
  intro _
  cases porFlag <;> cases saved <;> simp [PowerSys.powerInit, PowerSys.reset, PowerSys.globalEnSet]

theorem powerInit_driven (porFlag saved runPg running edge : Bool) :
    Driven ((PowerSys.reset saved runPg running edge).powerInit porFlag) := by
  intro k val hk _
  rw [powerInit_idle] at hk
  cases hk

end

/-- **When the saved state agrees with the driven one.**  In every run from `power_init`, all states
with no call in progress have `BKP_DR1 = 1` exactly when GLOBAL_EN is high, exactly if no call that
was overtaken saves its value last. -/
theorem saved_iff (porFlag saved runPg running edge : Bool) (as : List PowerAct) (u : PowerSys)
    (h : power.run ((PowerSys.reset saved runPg running edge).powerInit porFlag) as = some u) :
    power.Always PowerSys.Saved ((PowerSys.reset saved runPg running edge).powerInit porFlag) as ↔
      power.Along InOrder ((PowerSys.reset saved runPg running edge).powerInit porFlag) as :=
  Machine.always_iff_along (fun _ _ _ hx hs => Driven.step hx hs)
    (fun _ _ _ hI hx hs => saved_step_iff hI hx hs) h
    (powerInit_driven porFlag saved runPg running edge)
    (powerInit_saved porFlag saved runPg running edge)

instance (s : PowerSys) : ∀ a, Decidable (InOrder s a)
  | .run k =>
    match hk : s.call k with
    | .backup v => decidable_of_iff (s.call k.other = .idle → s.overtaken k = false)
        ⟨fun h _ _ => h, fun h => h v hk⟩
    | .idle | .test _ | .pgTest | .lower | .delay | .set _ | .wait _ =>
      isTrue fun _ h => absurd (hk.symm.trans h) CallPc.noConfusion
  | .write _ | .poll _ | .ask | .rise | .fall => inferInstanceAs (Decidable True)

theorem saved_iff_on : ∃ u,
    power.run ((PowerSys.reset false false false false).powerInit true) switchOn = some u ∧
    power.Always PowerSys.Saved ((PowerSys.reset false false false false).powerInit true) switchOn :=
  ⟨_, rfl, (saved_iff true false false false false switchOn _ rfl).mpr (by decide)⟩

/-- The button is held for two seconds with the pi on: `power_shutdown` each time the power task
looks, then `power_set_state (false)`, which drives GLOBAL_EN low. -/
def longPress : List PowerAct :=
  List.flatten [List.replicate 3 (.poll true), (List.replicate 197 [.poll true, .ask]).flatten,
    [.poll true, .run .power, .run .power]]

/-- A power write comes before RUN_PG has fallen, finds it high and returns at once. -/
def overtaking : List PowerAct :=
  [.write true, .run .canrx, .run .canrx, .run .canrx, .run .canrx, .fall, .run .power, .run .power]

/-- The power write has driven GLOBAL_EN high and saved 1; the button's call saves 0 after it. -/
theorem saved_fails : ¬ ∀ (porFlag saved runPg running edge : Bool) (as : List PowerAct)
    (u : PowerSys), power.run ((PowerSys.reset saved runPg running edge).powerInit porFlag) as = some u →
      u.Saved := by
  intro h
  have hrun : (power.run ((PowerSys.reset true true true false).powerInit false)
      (longPress ++ overtaking)).map (fun u =>
        (u.call .canrx, u.call .power, u.power.dr1, u.power.globalEn)) =
      some (.idle, .idle, 0, true) := by
    decide +kernel
  obtain ⟨u, hu, hval⟩ := Option.map_eq_some_iff.mp hrun
  obtain ⟨hrx, hval⟩ := Prod.mk.inj hval
  obtain ⟨hpower, hval⟩ := Prod.mk.inj hval
  obtain ⟨hdr1, hen⟩ := Prod.mk.inj hval
  have hsaved := h false true true true false _ u hu (Caller.forall_iff.mpr ⟨hrx, hpower⟩)
  rw [hdr1] at hsaved
  exact absurd (hsaved.mpr hen) (by decide)

end Bramble
