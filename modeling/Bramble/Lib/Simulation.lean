import Bramble.Lib.Machine

/-!
# Simulations between machines

`M` is simulated by `N` along a relation of their states if every step of `M` is matched by some
actions of `N`, perhaps none.

* `Simulation.run`   whole runs are matched.
-/

namespace Bramble
namespace Machine
variable {σ α τ β : Type*}

/-- every step of `M` is matched by actions of `N` -/
def Simulation (M : Machine σ α) (N : Machine τ β) (R : σ → τ → Prop) : Prop :=
  ∀ x a y u, R x u → M.step x a = some y → ∃ bs v, N.run u bs = some v ∧ R y v

variable {M : Machine σ α} {N : Machine τ β} {R : σ → τ → Prop}

/-- a step matched by no action -/
theorem match_none {u : τ} {y : σ} (hR : R y u) : ∃ bs v, N.run u bs = some v ∧ R y v :=
  ⟨[], u, rfl, hR⟩

theorem Simulation.run (h : Simulation M N R) {x y : σ} {u : τ} {as : List α} (hR : R x u)
    (hrun : M.run x as = some y) : ∃ bs v, N.run u bs = some v ∧ R y v := by
  induction as generalizing x u with
  | nil =>
    rw [run_nil] at hrun
    cases hrun
    exact match_none hR
  | cons a as ih =>
    obtain ⟨z, hz, hy⟩ := (M.run_cons_some).mp hrun
    obtain ⟨bs, v, hv, hRz⟩ := h x a z u hR hz
    obtain ⟨cs, w, hw, hRy⟩ := ih hRz hy
    refine ⟨bs ++ cs, w, ?_, hRy⟩
    rw [run_append, hv]
    exact hw

end Machine
end Bramble
