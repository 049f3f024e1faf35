import MiscVerilogCores.Library.Clocked

/-! # Components

A component of a machine is a machine of its own, whose inputs are what it sees at its ports. It may be
an abstraction of a part of the state, as long as it keeps step with it in the states that occur. -/

namespace MiscVerilogCores.Clocked

variable {σ ι τ κ β γ : Type*}

/-- What is seen at the ports along a run. -/
def seen (step : σ → ι → σ) (port : σ → ι → κ) (s : σ) (is : List ι) : List κ :=
  emitted step (fun s i => [port s i]) s is

@[simp] theorem seen_nil (step : σ → ι → σ) (port : σ → ι → κ) (s : σ) : seen step port s [] = [] := rfl

@[simp] theorem seen_cons (step : σ → ι → σ) (port : σ → ι → κ) (s : σ) (i : ι) (is : List ι) :
    seen step port s (i :: is) = port s i :: seen step port (step s i) is := rfl

/-- In the states of `Inv` and at the edges that are `ok`, the part makes the steps of `partStep`. -/
structure Component (step : σ → ι → σ) (Inv : σ → Prop) (ok : σ → ι → Prop) (partStep : τ → κ → τ)
    (part : σ → τ) (port : σ → ι → κ) : Prop where
  inv : ∀ s i, Inv s → ok s i → Inv (step s i)
  part_step : ∀ s i, Inv s → ok s i → part (step s i) = partStep (part s) (port s i)

namespace Component

variable {step : σ → ι → σ} {Inv : σ → Prop} {ok : σ → ι → Prop} {partStep : τ → κ → τ} {part : σ → τ}
  {port : σ → ι → κ} (h : Component step Inv ok partStep part port) {s : σ} {is : List ι}

include h

/-- The component runs as it does alone, on what it sees. -/
theorem run_eq (hs : Inv s) (hok : Along step ok s is) :
    part (run step s is) = run partStep (part s) (seen step port s is) := by
  induction is generalizing s with
  | nil => rfl
  | cons i is ih =>
      rw [run_cons, ih (h.inv s i hs hok.1) hok.2, h.part_step s i hs hok.1, seen_cons, run_cons]

/-- What is emitted at its ports is what it emits alone. -/
theorem emitted_eq {emit : σ → ι → List β} {partEmit : τ → κ → List β}
    (hemit : ∀ s i, Inv s → ok s i → emit s i = partEmit (part s) (port s i)) (hs : Inv s)
    (hok : Along step ok s is) :
    emitted step emit s is = emitted partStep partEmit (part s) (seen step port s is) := by
  induction is generalizing s with
  | nil => rfl
  | cons i is ih =>
      rw [emitted_cons, ih (h.inv s i hs hok.1) hok.2, h.part_step s i hs hok.1, hemit s i hs hok.1,
        seen_cons, emitted_cons]

/-- What holds at every edge of the machine holds of what the component sees. -/
theorem along_seen {ok' : τ → κ → Prop} (hok' : ∀ s i, Inv s → ok s i → ok' (part s) (port s i))
    (hs : Inv s) (hok : Along step ok s is) : Along partStep ok' (part s) (seen step port s is) := by
  induction is generalizing s with
  | nil => trivial
  | cons i is ih =>
      refine ⟨hok' s i hs hok.1, ?_⟩
      have hrest := ih (h.inv s i hs hok.1) hok.2
      rwa [h.part_step s i hs hok.1] at hrest

end Component

section Seen

variable {step : σ → ι → σ} {port : σ → ι → κ} {s : σ} {is : List ι}

theorem forall_seen {good : ι → Prop} {good' : κ → Prop} (hport : ∀ s i, good i → good' (port s i))
    (hi : ∀ i ∈ is, good i) : ∀ k ∈ seen step port s is, good' k := by
  induction is generalizing s with
  | nil => simp
  | cons i is ih =>
      intro k hk
      rw [seen_cons, List.mem_cons] at hk
      obtain rfl | hk := hk
      · exact hport s i (hi i List.mem_cons_self)
      · exact ih (fun j hj => hi j (List.mem_cons_of_mem i hj)) k hk

theorem map_seen (f : κ → β) : (seen step port s is).map f = emitted step (fun s i => [f (port s i)]) s is := by
  induction is generalizing s with
  | nil => rfl
  | cons i is ih => rw [seen_cons, List.map_cons, ih, emitted_cons, List.singleton_append]

end Seen

end MiscVerilogCores.Clocked
