import MiscVerilogCores.Library.Clocked

/-! # Valid and ready

An item is handed over in a cycle in which it is offered and the other side is ready for it. A source
is patient if it goes on offering what has been refused. -/

namespace MiscVerilogCores.Handshake

open Clocked

variable {σ ι β γ : Type*} (step : σ → ι → σ) (offer : σ → ι → Option β) (ready : σ → ι → Bool)

/-- The item that is handed over at an edge. -/
def taken (s : σ) (i : ι) : List β := if ready s i then (offer s i).toList else []

/-- The item that is offered and not handed over. -/
def refused (_ : Option β) (s : σ) (i : ι) : Option β := if ready s i then none else offer s i

/-- What has been refused is offered again. -/
def Holds (q : σ × Option β) (i : ι) : Prop := ∀ b ∈ q.2, offer q.1 i = some b

/-- Along the run, whatever is refused is offered until it is taken. -/
def Patient (s : σ) (is : List ι) : Prop :=
  Along (watched step (refused offer ready)) (Holds offer) (s, none) is

instance [DecidableEq β] (q : σ × Option β) (i : ι) : Decidable (Holds offer q i) :=
  inferInstanceAs (Decidable (∀ b ∈ q.2, _))

instance [DecidableEq β] (s : σ) (is : List ι) : Decidable (Patient step offer ready s is) :=
  inferInstanceAs (Decidable (Along _ _ _ _))

variable {step offer ready}

/-- What a machine emits does not depend on who watches it. -/
theorem emitted_watched {μ : Type*} (watch : μ → σ → ι → μ) (emit : σ → ι → List γ) (q : σ × μ)
    (is : List ι) :
    emitted (watched step watch) (fun q i => emit q.1 i) q is = emitted step emit q.1 is := by
  induction is generalizing q with
  | nil => rfl
  | cons i is ih => rw [emitted_cons, emitted_cons, ih, watched_fst]

/-- Ledgers of what is taken from a patient source and what becomes of it. -/
theorem ledger_of_patient {outs : σ → ι → List γ} {ok : σ → ι → Prop}
    (Inv : σ → Option β → List β → List γ → Prop)
    (hstep : ∀ s waiting i as bs, Inv s waiting as bs → ok s i → Holds offer (s, waiting) i →
      Inv (step s i) (refused offer ready waiting s i) (as ++ taken offer ready s i)
        (bs ++ outs s i))
    {s : σ} {is : List ι} (hs : Inv s none [] []) (hok : Along step ok s is)
    (hpatient : Patient step offer ready s is) :
    ∃ waiting, Inv (run step s is) waiting (emitted step (taken offer ready) s is)
      (emitted step outs s is) := by
  let watch : Option β → σ → ι → Option β := refused offer ready
  have hstart : Along (watched step watch) (fun q i => ok q.1 i) (s, none) is := hok.watched watch
  have hend :
      Inv (run (watched step watch) (s, none) is).1 (run (watched step watch) (s, none) is).2
        ([] ++ emitted (watched step watch) (fun q i => taken offer ready q.1 i) (s, none) is)
        ([] ++ emitted (watched step watch) (fun q i => outs q.1 i) (s, none) is) :=
    run_ledger (fun q as bs => Inv q.1 q.2 as bs)
      (fun q i as bs hq hi => hstep q.1 q.2 i as bs hq hi.1 hi.2) hs (hstart.and hpatient)
  rw [emitted_watched, emitted_watched, run_watched_fst] at hend
  exact ⟨_, hend⟩

/-- A source that offers nothing while the other side is not ready is patient. -/
theorem patient_of_ready {s : σ} {is : List ι}
    (h : Along step (fun s i => offer s i ≠ none → ready s i = true) s is) :
    Patient step offer ready s is := by
  refine (h.watched (refused offer ready)).strengthen (fun q => q.2 = none) (fun q i hnone hready => ?_) rfl
  refine ⟨?_, fun b hb => ?_⟩
  · show refused offer ready q.2 q.1 i = none
    rw [refused]
    split
    · rfl
    next hnot => exact not_not.mp fun hoffer => hnot (hready hoffer)
  · rw [hnone] at hb
    exact absurd hb (Option.not_mem_none b)

end MiscVerilogCores.Handshake
