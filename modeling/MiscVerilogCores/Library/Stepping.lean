import Mathlib.Data.Nat.Notation
import Mathlib.Tactic.TypeStar

/-! # Runs of machines that can get stuck

A program that is stepped once per cycle and may fail, along a stream of inputs. What is seen of it
is seen before each step. -/

namespace MiscVerilogCores.Stepping

variable {σ τ ι β : Type*}

/-- The run of some steps, none of which fails. -/
inductive Runs (step : ι → σ → Option σ) (view : σ → β) : (ℕ → ι) → σ → List β → σ → Prop where
  | nil (is s) : Runs step view is s [] s
  | cons {is s next views last} (h : step (is 0) s = some next)
      (rest : Runs step view (fun k => is (k + 1)) next views last) :
      Runs step view is s (view s :: views) last

section Runs

variable {step : ι → σ → Option σ} {view : σ → β} {is : ℕ → ι} {s mid last : σ}
  {views views' : List β}

theorem Runs.one {next : σ} (h : step (is 0) s = some next) : Runs step view is s [view s] next :=
  .cons h (.nil _ _)

theorem Runs.append (h : Runs step view is s views mid)
    (h' : Runs step view (fun k => is (k + views.length)) mid views' last) :
    Runs step view is s (views ++ views') last := by
  induction h with
  | nil => exact h'
  | cons hstep _ ih =>
      refine .cons hstep (ih ?_)
      simpa [Nat.add_right_comm, Nat.add_assoc] using h'

/-- What every step keeps holds at the end. -/
theorem Runs.invariant (Inv : σ → Prop) (hstep : ∀ i s next, Inv s → step i s = some next → Inv next)
    (h : Runs step view is s views last) (hs : Inv s) : Inv last := by
  induction h with
  | nil => exact hs
  | cons hone _ ih => exact ih (hstep _ _ _ hs hone)

/-- A machine that can follow every step of another one can follow its runs, and shows the same. -/
theorem Runs.simulate (step' : ι → τ → Option τ) (view' : τ → β) (ok : ι → Prop) (R : σ → τ → Prop)
    (hview : ∀ s t, R s t → view s = view' t)
    (hstep : ∀ i s t next, ok i → R s t → step i s = some next →
      ∃ next', step' i t = some next' ∧ R next next')
    (h : Runs step view is s views last) (his : ∀ k, ok (is k)) {t : τ} (hst : R s t) :
    ∃ last', Runs step' view' is t views last' ∧ R last last' := by
  induction h generalizing t with
  | nil => exact ⟨t, .nil _ _, hst⟩
  | @cons is s next views last hone _ ih =>
      obtain ⟨next', hone', hnext⟩ := hstep _ _ _ _ (his 0) hst hone
      obtain ⟨last', hrest, hlast⟩ := ih (fun k => his (k + 1)) hnext
      refine ⟨last', ?_, hlast⟩
      rw [hview s t hst]
      exact .cons hone' hrest

end Runs

end MiscVerilogCores.Stepping
