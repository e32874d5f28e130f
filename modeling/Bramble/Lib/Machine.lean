import Mathlib

/-!
# Machines: partial step functions, runs and guarded reachability

A machine is a step function `σ → α → Option σ`; `none` says that the action cannot happen in
that state.

* `Machine.run`        a list of actions, one after the other;
* `Machine.Along`      a guard holds at every step of a run;
* `Machine.Always`     a property holds in every state of a run;
* `Machine.Reach`      reachability by steps that all meet a guard (`fun _ _ => True`: any run);
* `Machine.Reach.inv`  the invariant rule: one step lemma gives a statement about whole runs;
* `Machine.run_reach`    a list of actions reaches its last state;
* `Machine.run_cost`     a potential bounds how often something happens in a run.
-/

namespace Bramble

/-- A machine with a partial step function. -/
structure Machine (σ α : Type*) where
  step : σ → α → Option σ

namespace Machine
variable {σ α : Type*} (M : Machine σ α)

/-- the state after a list of actions -/
def run : σ → List α → Option σ
  | s, [] => some s
  | s, a :: as => (M.step s a).bind fun t => run t as

/-- the guard `G` holds at every step of the run -/
def Along (G : σ → α → Prop) : σ → List α → Prop
  | _, [] => True
  | s, a :: as => G s a ∧ ∀ t, M.step s a = some t → Along G t as

/-- `P` holds in every state that a run visits -/
def Always (P : σ → Prop) : σ → List α → Prop
  | s, [] => P s
  | s, a :: as => P s ∧ ∀ t, M.step s a = some t → Always P t as

/-- `t` is reached from `s` by steps that all meet the guard `G` -/
inductive Reach (G : σ → α → Prop) (s : σ) : σ → Prop
  | refl : Reach G s s
  | tail {t u : σ} {a : α} : Reach G s t → G t a → M.step t a = some u → Reach G s u

def Free : σ → α → Prop := fun _ _ => True

theorem run_nil (s : σ) : M.run s [] = some s := rfl
theorem run_cons (s : σ) (a : α) (as : List α) :
    M.run s (a :: as) = (M.step s a).bind fun t => M.run t as := rfl

theorem run_cons_some {s u : σ} {a : α} {as : List α} :
    M.run s (a :: as) = some u ↔ ∃ t, M.step s a = some t ∧ M.run t as = some u := by
  rw [run_cons, Option.bind_eq_some_iff]

theorem run_append (s : σ) (as bs : List α) :
    M.run s (as ++ bs) = (M.run s as).bind fun t => M.run t bs := by
  induction as generalizing s with
  | nil => rfl
  | cons a as ih =>
    rw [List.cons_append, run_cons, run_cons]
    cases h : M.step s a with
    | none => rfl
    | some t => exact ih t

theorem run_snoc {s u : σ} {a : α} {as : List α} :
    M.run s (as ++ [a]) = some u ↔ ∃ t, M.run s as = some t ∧ M.step t a = some u := by
  rw [run_append, Option.bind_eq_some_iff]
  constructor
  · rintro ⟨t, h1, h2⟩
    obtain ⟨u', h3, h4⟩ := (M.run_cons_some).mp h2
    rw [run_nil] at h4
    exact ⟨t, h1, by rw [h3, h4]⟩
  · rintro ⟨t, h1, h2⟩
    exact ⟨t, h1, (M.run_cons_some).mpr ⟨u, h2, rfl⟩⟩

variable {M}

theorem Along.of_forall {G : σ → α → Prop} (h : ∀ s a, G s a) (s : σ) (as : List α) :
    M.Along G s as := by
  induction as generalizing s with
  | nil => trivial
  | cons a as ih => exact ⟨h s a, fun t _ => ih t⟩

/-- a guard that can be evaluated can be evaluated along a run -/
instance decidableAlong {G : σ → α → Prop} [∀ s a, Decidable (G s a)] :
    ∀ (s : σ) (as : List α), Decidable (M.Along G s as)
  | _, [] => isTrue trivial
  | s, a :: as =>
    match h : M.step s a with
    | none =>
      decidable_of_iff (G s a) ⟨fun hg => ⟨hg, fun t ht => by rw [h] at ht; cases ht⟩, And.left⟩
    | some u =>
      have : Decidable (M.Along G u as) := decidableAlong u as
      decidable_of_iff (G s a ∧ M.Along G u as)
        ⟨fun hg => ⟨hg.1, fun t ht => by rw [h] at ht; cases ht; exact hg.2⟩,
          fun hg => ⟨hg.1, hg.2 u h⟩⟩

theorem along_append {G : σ → α → Prop} {s t : σ} {as bs : List α} (h : M.run s as = some t) :
    M.Along G s (as ++ bs) ↔ M.Along G s as ∧ M.Along G t bs := by
  induction as generalizing s with
  | nil =>
    rw [run_nil] at h
    cases h
    exact (and_iff_right trivial).symm
  | cons a as ih =>
    obtain ⟨u, hu, ht⟩ := (M.run_cons_some).mp h
    have hu' : ∀ {P : σ → Prop}, (∀ v, M.step s a = some v → P v) ↔ P u := fun {P} => by
      rw [hu]
      exact ⟨fun hP => hP u rfl, fun hP v hv => Option.some.inj hv ▸ hP⟩
    show (G s a ∧ ∀ v, M.step s a = some v → M.Along G v (as ++ bs)) ↔
      (G s a ∧ ∀ v, M.step s a = some v → M.Along G v as) ∧ M.Along G t bs
    rw [hu', hu', ih ht, and_assoc]

theorem Along.of_actions {G : σ → α → Prop} {P : α → Prop} (hG : ∀ s a, P a → G s a) (s : σ)
    {as : List α} (h : ∀ a ∈ as, P a) : M.Along G s as := by
  induction as generalizing s with
  | nil => trivial
  | cons a as ih =>
    exact ⟨hG s a (h a List.mem_cons_self), fun t _ => ih t fun b hb => h b (List.mem_cons_of_mem _ hb)⟩

/-- Guards that agree wherever an invariant holds agree along every run. -/
theorem Along.iff_of_inv {G G' : σ → α → Prop} {I : σ → Prop}
    (hstep : ∀ x a y, I x → M.step x a = some y → I y)
    (hG : ∀ x a, I x → (G x a ↔ G' x a)) {s : σ} (h0 : I s) (as : List α) :
    M.Along G s as ↔ M.Along G' s as := by
  induction as generalizing s with
  | nil => exact Iff.rfl
  | cons a as ih =>
    refine and_congr (hG s a h0) ?_
    constructor
    · intro h t ht
      exact (ih (hstep s a t h0 ht)).mp (h t ht)
    · intro h t ht
      exact (ih (hstep s a t h0 ht)).mpr (h t ht)

/-- Where each step keeps `P` exactly if it meets the guard `G`, a run stays within `P` exactly if it
meets the guard all along. -/
theorem always_iff_along {P I : σ → Prop} {G : σ → α → Prop}
    (hI : ∀ x a y, I x → M.step x a = some y → I y)
    (hstep : ∀ x a y, I x → P x → M.step x a = some y → (P y ↔ G x a)) {s u : σ} {as : List α}
    (h : M.run s as = some u) (hs : I s) (h0 : P s) : M.Always P s as ↔ M.Along G s as := by
  induction as generalizing s with
  | nil => exact iff_of_true h0 trivial
  | cons a as ih =>
    obtain ⟨t, ht, hu⟩ := (M.run_cons_some).mp h
    have hPG := hstep s a t hs h0 ht
    have hnext : P t → (M.Always P t as ↔ M.Along G t as) := ih hu (hI s a t hs ht)
    constructor
    · intro hall
      have htail := hall.2 t ht
      have hPt : P t := by
        cases as with
        | nil => exact htail
        | cons b bs => exact htail.1
      refine ⟨hPG.mp hPt, fun t' ht' => ?_⟩
      rw [ht] at ht'
      cases ht'
      exact (hnext hPt).mp htail
    · intro hall
      refine ⟨h0, fun t' ht' => ?_⟩
      rw [ht] at ht'
      cases ht'
      exact (hnext (hPG.mpr hall.1)).mpr (hall.2 t ht)

namespace Reach
variable {G : σ → α → Prop} {s t u : σ}

theorem trans (h : M.Reach G s t) (h' : M.Reach G t u) : M.Reach G s u := by
  induction h' with
  | refl => exact h
  | tail _ hg hs ih => exact ih.tail hg hs

theorem head {a : α} (hg : G s a) (hs : M.step s a = some t) (h : M.Reach G t u) :
    M.Reach G s u :=
  (Reach.refl.tail hg hs).trans h

/-- **Invariant rule.**  What holds at the start and is kept by every step that meets the guard
holds in every state reached. -/
theorem inv {I : σ → Prop} (h : M.Reach G s t) (h0 : I s)
    (hstep : ∀ x a y, I x → G x a → M.step x a = some y → I y) : I t := by
  induction h with
  | refl => exact h0
  | tail _ hg hs ih => exact hstep _ _ _ ih hg hs

end Reach

theorem run_reach {G : σ → α → Prop} {s t : σ} {as : List α} (hG : M.Along G s as)
    (h : M.run s as = some t) : M.Reach G s t := by
  induction as generalizing s with
  | nil =>
    rw [run_nil] at h
    cases h
    exact Reach.refl
  | cons a as ih =>
    obtain ⟨u, hu, ht⟩ := (M.run_cons_some).mp h
    exact Reach.head hG.1 hu (ih (hG.2 u hu) ht)

theorem run_free {s t : σ} {as : List α} (h : M.run s as = some t) : M.Reach Free s t :=
  run_reach (Along.of_forall (fun _ _ => trivial) s as) h

/-- **Potential rule.**  If every step pays for its cost out of the potential and of what it gains,
the costs of a run are bounded by the potential at its start and the gains. -/
theorem run_cost (Φ : σ → Nat) (cost gain : α → Nat)
    (hstep : ∀ x a y, M.step x a = some y → cost a + Φ y ≤ Φ x + gain a) {s t : σ} {as : List α}
    (h : M.run s as = some t) : (as.map cost).sum + Φ t ≤ Φ s + (as.map gain).sum := by
  induction as generalizing s with
  | nil =>
    rw [run_nil] at h
    cases h
    exact Nat.le_of_eq (Nat.add_comm 0 _)
  | cons a as ih =>
    obtain ⟨u, hu, ht⟩ := (M.run_cons_some).mp h
    have h1 := hstep s a u hu
    have h2 := ih ht
    rw [List.map_cons, List.sum_cons, List.map_cons, List.sum_cons]
    omega

end Machine

end Bramble
