import Bramble.Lib.Machine

/-!
# Machines that come to rest

A rank that every guarded step lowers bounds the guarded runs; if in addition some guarded step is
possible in every state but the settled ones, the machine can be brought to rest, and every guarded
run that cannot go on has come to rest.

* `Descends`          the rank, with an invariant that the guarded steps keep;
* `Descends.length`   no guarded run is longer than the rank of its start;
* `Descends.settles`  the machine comes to rest.
-/

namespace Bramble
namespace Machine
variable {σ α : Type*}

/-- the guarded steps keep `I` and lower the rank `Φ` -/
structure Descends (M : Machine σ α) (I : σ → Prop) (G : σ → α → Prop) (Φ : σ → Nat) : Prop where
  keeps : ∀ x a y, I x → G x a → M.step x a = some y → I y
  lowers : ∀ x a y, I x → G x a → M.step x a = some y → Φ y < Φ x

variable {M : Machine σ α} {I : σ → Prop} {G : σ → α → Prop} {Φ : σ → Nat}

/-- **Rank rule.**  A guarded run has at most as many steps as the rank falls. -/
theorem Descends.length (h : Descends M I G Φ) {s t : σ} {as : List α} (hs : I s)
    (hG : M.Along G s as) (hrun : M.run s as = some t) : as.length + Φ t ≤ Φ s := by
  induction as generalizing s with
  | nil =>
    rw [run_nil] at hrun
    cases hrun
    exact Nat.le_of_eq (Nat.zero_add _)
  | cons a as ih =>
    obtain ⟨u, hu, ht⟩ := (M.run_cons_some).mp hrun
    have hfall := h.lowers s a u hs hG.1 hu
    have hrest := ih (h.keeps s a u hs hG.1 hu) (hG.2 u hu) ht
    rw [List.length_cons]
    omega

theorem Descends.inv (h : Descends M I G Φ) {s t : σ} (hs : I s) (hreach : M.Reach G s t) : I t :=
  hreach.inv hs h.keeps

/-- **Settling rule.**  If every state is settled or can go on, a settled one is reached. -/
theorem Descends.settles (h : Descends M I G Φ) {Q : σ → Prop}
    (hgo : ∀ x, I x → Q x ∨ ∃ a y, G x a ∧ M.step x a = some y) {s : σ} (hs : I s) :
    ∃ as t, M.Along G s as ∧ M.run s as = some t ∧ Q t := by
  induction hn : Φ s using Nat.strong_induction_on generalizing s with
  | _ n ih =>
    obtain hQ | ⟨a, u, hG, hu⟩ := hgo s hs
    · exact ⟨[], s, trivial, rfl, hQ⟩
    · have hfall := h.lowers s a u hs hG hu
      obtain ⟨as, t, hAlong, ht, hQ⟩ := ih (Φ u) (hn ▸ hfall) (h.keeps s a u hs hG hu) rfl
      refine ⟨a :: as, t, ⟨hG, fun v hv => ?_⟩, (M.run_cons_some).mpr ⟨u, hu, ht⟩, hQ⟩
      rw [hu] at hv
      cases hv
      exact hAlong

end Machine
end Bramble
