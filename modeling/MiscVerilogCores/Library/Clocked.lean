import Mathlib.Data.List.Infix

/-! # Runs of clocked machines

A synchronous circuit is a next-state function applied once per clock edge. A
run is the fold of that function over the inputs seen at the edges; what holds
at every time of a run is what holds after every finite list of inputs. -/

namespace MiscVerilogCores.Clocked

variable {σ ι μ β : Type*}

/-- The state after one clock edge per input. -/
def run (step : σ → ι → σ) (s : σ) (is : List ι) : σ :=
  is.foldl step s

/-- Every edge of the run satisfies `ok`, judged on the state before the edge. -/
def Along (step : σ → ι → σ) (ok : σ → ι → Prop) : σ → List ι → Prop
  | _, [] => True
  | s, i :: is => ok s i ∧ Along step ok (step s i) is

/-- Everything the edges of a run emit, oldest first. -/
def emitted (step : σ → ι → σ) (emit : σ → ι → List β) : σ → List ι → List β
  | _, [] => []
  | s, i :: is => emit s i ++ emitted step emit (step s i) is

/-- A machine together with a monitor that watches its edges. -/
def watched (step : σ → ι → σ) (watch : μ → σ → ι → μ) : σ × μ → ι → σ × μ :=
  fun p i => (step p.1 i, watch p.2 p.1 i)

section Equations

variable (step : σ → ι → σ) (ok : σ → ι → Prop) (emit : σ → ι → List β)

@[simp] theorem run_nil (s : σ) : run step s [] = s := rfl

@[simp] theorem run_cons (s : σ) (i : ι) (is : List ι) :
    run step s (i :: is) = run step (step s i) is := rfl

theorem run_append (s : σ) (is js : List ι) :
    run step s (is ++ js) = run step (run step s is) js := by
  simp [run]

@[simp] theorem along_nil (s : σ) : Along step ok s [] := trivial

@[simp] theorem along_cons (s : σ) (i : ι) (is : List ι) :
    Along step ok s (i :: is) ↔ ok s i ∧ Along step ok (step s i) is := Iff.rfl

@[simp] theorem emitted_nil (s : σ) : emitted step emit s [] = [] := rfl

@[simp] theorem emitted_cons (s : σ) (i : ι) (is : List ι) :
    emitted step emit s (i :: is) = emit s i ++ emitted step emit (step s i) is := rfl

theorem along_append (s : σ) (is js : List ι) :
    Along step ok s (is ++ js) ↔ Along step ok s is ∧ Along step ok (run step s is) js := by
  induction is generalizing s with
  | nil => simp
  | cons i is ih => simp [ih, and_assoc]

theorem emitted_append (s : σ) (is js : List ι) :
    emitted step emit s (is ++ js) =
      emitted step emit s is ++ emitted step emit (run step s is) js := by
  induction is generalizing s with
  | nil => rfl
  | cons i is ih => simp [ih]

/-- What is emitted at the edges is what is seen after them, but for the first state. -/
theorem emitted_concat (f : σ → List β) (s : σ) (is : List ι) (i : ι) :
    emitted step (fun s _ => f s) s (is ++ [i]) =
      f s ++ emitted step (fun s i => f (step s i)) s is := by
  induction is generalizing s with
  | nil => simp
  | cons j is ih =>
      rw [List.cons_append, emitted_cons, ih, emitted_cons]

@[simp] theorem watched_fst (watch : μ → σ → ι → μ) (p : σ × μ) (i : ι) :
    (watched step watch p i).1 = step p.1 i := rfl

@[simp] theorem watched_snd (watch : μ → σ → ι → μ) (p : σ × μ) (i : ι) :
    (watched step watch p i).2 = watch p.2 p.1 i := rfl

/-- A monitor only watches: the machine runs as it does alone. -/
theorem run_watched_fst (watch : μ → σ → ι → μ) (p : σ × μ) (is : List ι) :
    (run (watched step watch) p is).1 = run step p.1 is := by
  induction is generalizing p with
  | nil => rfl
  | cons i is ih => exact ih _

end Equations

instance decidableAlong (step : σ → ι → σ) (ok : σ → ι → Prop)
    [∀ s i, Decidable (ok s i)] : ∀ s is, Decidable (Along step ok s is)
  | _, [] => isTrue trivial
  | s, i :: is =>
      haveI := decidableAlong step ok (step s i) is
      inferInstanceAs (Decidable (ok s i ∧ Along step ok (step s i) is))

/-! ## Parts of a machine -/

section Parts

variable {τ κ : Type*} {step : σ → ι → σ} {partStep : τ → κ → τ} {part : σ → τ} {port : ι → κ}

/-- A part that sees the rest of the machine only through its ports runs as it does alone. -/
theorem run_part (h : ∀ s i, part (step s i) = partStep (part s) (port i)) (s : σ) (is : List ι) :
    part (run step s is) = run partStep (part s) (is.map port) := by
  induction is generalizing s with
  | nil => rfl
  | cons i is ih => rw [run_cons, ih, h, List.map_cons, run_cons]

theorem along_part (h : ∀ s i, part (step s i) = partStep (part s) (port i)) {ok : τ → κ → Prop}
    {s : σ} {is : List ι} (hs : Along partStep ok (part s) (is.map port)) :
    Along step (fun s i => ok (part s) (port i)) s is := by
  induction is generalizing s with
  | nil => trivial
  | cons i is ih => exact ⟨hs.1, ih (h s i ▸ hs.2)⟩

end Parts

variable {step : σ → ι → σ} {ok : σ → ι → Prop}

/-- An invariant of every edge that satisfies `ok` is an invariant of the run. -/
theorem run_invariant (Inv : σ → Prop)
    (hstep : ∀ s i, Inv s → ok s i → Inv (step s i)) {s : σ} {is : List ι} (hs : Inv s)
    (h : Along step ok s is) : Inv (run step s is) := by
  induction is generalizing s with
  | nil => exact hs
  | cons i is ih => exact ih (hstep s i hs h.1) h.2

/-- An invariant of every edge is an invariant of every run. -/
theorem run_always (Inv : σ → Prop) (hstep : ∀ s i, Inv s → Inv (step s i)) {s : σ} (hs : Inv s)
    (is : List ι) : Inv (run step s is) := by
  induction is generalizing s with
  | nil => exact hs
  | cons i is ih => exact ih (hstep s i hs)

/-- What is emitted alike at every edge of a run is the same over the run. -/
theorem emitted_congr {emit emit' : σ → ι → List β} (Inv : σ → Prop)
    (hstep : ∀ s i, Inv s → Inv (step s i) ∧ emit s i = emit' s i) {s : σ} (hs : Inv s)
    (is : List ι) : emitted step emit s is = emitted step emit' s is := by
  induction is generalizing s with
  | nil => rfl
  | cons i is ih =>
      obtain ⟨hnext, hemit⟩ := hstep s i hs
      rw [emitted_cons, emitted_cons, hemit, ih hnext]

/-- While a rank goes down, a goal is reached. -/
theorem reaches_of_rank (Inv goal : σ → Prop) (rank : σ → ℕ)
    (hstep : ∀ s i, Inv s → ok s i →
      goal (step s i) ∨ Inv (step s i) ∧ rank (step s i) < rank s)
    {s : σ} {is : List ι} (hs : Inv s) (h : Along step ok s is) (hlen : rank s < is.length) :
    ∃ pre, pre <+: is ∧ goal (run step s pre) := by
  induction is generalizing s with
  | nil => simp at hlen
  | cons i is ih =>
      rcases hstep s i hs h.1 with hgoal | ⟨hs', hrank⟩
      · exact ⟨[i], ⟨is, rfl⟩, hgoal⟩
      · obtain ⟨pre, hpre, hgoal⟩ := ih hs' h.2 (by simp at hlen; omega)
        exact ⟨i :: pre, (List.cons_prefix_cons).mpr ⟨rfl, hpre⟩, hgoal⟩

/-- If every edge emits the front of what is left, and a rank goes down at each tick until nothing is
left, then a prefix of it is emitted, and all of it once there have been ticks enough. -/
theorem emitted_of_rank {emit : σ → ι → List β} (Inv : σ → List β → ℕ → Prop) (tick : ι → Bool)
    (hstep : ∀ s i left rank, Inv s left rank → ok s i → ∃ left' rank', left = emit s i ++ left' ∧
      rank' ≤ rank - (tick i).toNat ∧ Inv (step s i) left' rank')
    (hdone : ∀ s left, Inv s left 0 → left = []) {s : σ} {left : List β} {rank : ℕ}
    {is : List ι} (hs : Inv s left rank) (h : Along step ok s is) :
    emitted step emit s is <+: left ∧ (rank ≤ is.countP tick → emitted step emit s is = left) := by
  induction is generalizing s left rank with
  | nil =>
      refine ⟨List.nil_prefix, fun hrank => ?_⟩
      have hzero : rank = 0 := by simpa using hrank
      exact (hdone s left (hzero ▸ hs)).symm
  | cons i is ih =>
      obtain ⟨left', rank', rfl, hrank, hs'⟩ := hstep s i left rank hs h.1
      obtain ⟨hfront, hall⟩ := ih hs' h.2
      rw [emitted_cons]
      refine ⟨(List.prefix_append_right_inj _).mpr hfront, fun hticks => ?_⟩
      rw [hall]
      rw [List.countP_cons] at hticks
      cases htick : tick i <;> simp [htick] at hticks hrank <;> omega

/-- If every edge emits the front of what is left, and a rank goes down at each tick until nothing is
left, then all of it is emitted in front of anything else once there have been ticks enough. -/
theorem prefix_emitted_of_rank {emit : σ → ι → List β} (Inv : σ → List β → ℕ → Prop)
    (tick : ι → Bool)
    (hstep : ∀ s i left rank, Inv s left rank → left ≠ [] → ok s i → ∃ left' rank',
      left = emit s i ++ left' ∧ rank' ≤ rank - (tick i).toNat ∧ Inv (step s i) left' rank')
    (hdone : ∀ s left, Inv s left 0 → left = []) {s : σ} {left : List β} {rank : ℕ}
    {is : List ι} (hs : Inv s left rank) (h : Along step ok s is) (hrank : rank ≤ is.countP tick) :
    left <+: emitted step emit s is := by
  induction is generalizing s left rank with
  | nil =>
      have hzero : rank = 0 := by simpa using hrank
      rw [hdone s left (hzero ▸ hs)]
      exact List.nil_prefix
  | cons i is ih =>
      by_cases hleft : left = []
      · rw [hleft]
        exact List.nil_prefix
      · obtain ⟨left', rank', rfl, hless, hs'⟩ := hstep s i left rank hs hleft h.1
        rw [emitted_cons]
        refine (List.prefix_append_right_inj _).mpr (ih hs' h.2 ?_)
        rw [List.countP_cons] at hrank
        cases htick : tick i <;> simp [htick] at hrank hless <;> omega

/-- What is emitted, as it is looked at. -/
theorem map_emitted {γ : Type*} (step : σ → ι → σ) (emit : σ → ι → List β) (view : β → γ) (s : σ)
    (is : List ι) : (emitted step emit s is).map view = emitted step (fun s i => (emit s i).map view) s is := by
  induction is generalizing s with
  | nil => rfl
  | cons i is ih => rw [emitted_cons, List.map_append, ih, emitted_cons]

/-- What each edge adds to two ledgers is added over a run. -/
theorem run_ledger {α : Type*} {ins : σ → ι → List α} {outs : σ → ι → List β}
    (Inv : σ → List α → List β → Prop)
    (hstep : ∀ s i as bs, Inv s as bs → ok s i →
      Inv (step s i) (as ++ ins s i) (bs ++ outs s i))
    {s : σ} {as : List α} {bs : List β} {is : List ι} (hs : Inv s as bs)
    (h : Along step ok s is) :
    Inv (run step s is) (as ++ emitted step ins s is) (bs ++ emitted step outs s is) := by
  induction is generalizing s as bs with
  | nil => simpa using hs
  | cons i is ih =>
      have hrest := ih (hstep s i as bs hs h.1) h.2
      rwa [List.append_assoc, List.append_assoc] at hrest

/-- Two runs of a machine that stay related emit the same, as far as it is looked at. -/
theorem emitted_of_related {γ : Type*} {emit : σ → ι → List β} (R : σ → σ → Prop) (view : β → γ)
    (hstep : ∀ s s' i, R s s' →
      R (step s i) (step s' i) ∧ (emit s i).map view = (emit s' i).map view)
    {s s' : σ} (h : R s s') (is : List ι) :
    (emitted step emit s is).map view = (emitted step emit s' is).map view := by
  induction is generalizing s s' with
  | nil => rfl
  | cons i is ih =>
      obtain ⟨hnext, hemit⟩ := hstep s s' i h
      rw [emitted_cons, emitted_cons, List.map_append, List.map_append, hemit, ih hnext]

/-- Edges that satisfy a condition on inputs alone satisfy it along every run. -/
theorem along_of_forall (h : ∀ s i, ok s i) (s : σ) (is : List ι) : Along step ok s is := by
  induction is generalizing s with
  | nil => trivial
  | cons i is ih => exact ⟨h s i, ih _⟩

theorem along_of_inputs (step : σ → ι → σ) {good : ι → Prop} (s : σ) {is : List ι}
    (h : ∀ i ∈ is, good i) :
    Along step (fun _ i => good i) s is := by
  induction is generalizing s with
  | nil => trivial
  | cons i is ih =>
      exact ⟨h i (by simp), ih _ (fun j hj => h j (List.mem_cons_of_mem i hj))⟩

/-- From every state of the one kind, some run goes to a state of the other. -/
def LeadsTo (step : σ → ι → σ) (P Q : σ → Prop) : Prop :=
  ∀ s, P s → ∃ is, Q (run step s is)

theorem LeadsTo.of_edge {P Q : σ → Prop} (i : ι) (h : ∀ s, P s → Q (step s i)) :
    LeadsTo step P Q :=
  fun s hs => ⟨[i], h s hs⟩

theorem LeadsTo.trans {P Q R : σ → Prop} (h : LeadsTo step P Q) (h' : LeadsTo step Q R) :
    LeadsTo step P R := by
  intro s hs
  obtain ⟨is, hq⟩ := h s hs
  obtain ⟨js, hr⟩ := h' _ hq
  exact ⟨is ++ js, by rwa [run_append]⟩

/-- While one input makes a rank go down, it leads to a goal. -/
theorem leadsTo_of_rank {P Q : σ → Prop} (i : ι) (rank : σ → ℕ)
    (h : ∀ s, P s → Q (step s i) ∨ P (step s i) ∧ rank (step s i) < rank s) :
    LeadsTo step P Q := by
  intro s hs
  have hsame : Along step (fun _ j => j = i) s (List.replicate (rank s + 1) i) :=
    along_of_inputs step s fun j hj => List.eq_of_mem_replicate hj
  obtain ⟨pre, -, hq⟩ := reaches_of_rank P Q rank (fun s j hs hj => hj ▸ h s hs) hs hsame (by simp)
  exact ⟨pre, hq⟩

/-- What holds at every edge holds along the run. -/
theorem along_of_edges {s : σ} {is : List ι}
    (h : ∀ pre i post, is = pre ++ i :: post → ok (run step s pre) i) : Along step ok s is := by
  induction is generalizing s with
  | nil => trivial
  | cons i is ih =>
      refine ⟨h [] i is rfl, ih fun pre j post hsplit => ?_⟩
      exact h (i :: pre) j post (by rw [hsplit]; rfl)

/-- A condition that each edge of an invariant run implies holds along it too. -/
theorem Along.strengthen {ok' : σ → ι → Prop} {s : σ} {is : List ι}
    (h : Along step ok s is) (Inv : σ → Prop)
    (hstep : ∀ s i, Inv s → ok s i → Inv (step s i) ∧ ok' s i) (hs : Inv s) : Along step ok' s is := by
  induction is generalizing s with
  | nil => trivial
  | cons i is ih =>
      obtain ⟨hs', hok⟩ := hstep s i hs h.1
      exact ⟨hok, ih h.2 hs'⟩

theorem Along.and {ok' : σ → ι → Prop} {s : σ} {is : List ι} (h : Along step ok s is)
    (h' : Along step ok' s is) : Along step (fun s i => ok s i ∧ ok' s i) s is := by
  induction is generalizing s with
  | nil => trivial
  | cons i is ih => exact ⟨⟨h.1, h'.1⟩, ih h.2 h'.2⟩

theorem Along.mono {ok' : σ → ι → Prop} (hok : ∀ s i, ok s i → ok' s i) {s : σ} {is : List ι}
    (h : Along step ok s is) : Along step ok' s is :=
  h.strengthen (fun _ => True) (fun s i _ h => ⟨trivial, hok s i h⟩) trivial

/-- A condition on the machine alone holds along the watched run too. -/
theorem Along.watched (watch : μ → σ → ι → μ) {p : σ × μ} {is : List ι}
    (h : Along step ok p.1 is) :
    Along (watched step watch) (fun q i => ok q.1 i) p is := by
  induction is generalizing p with
  | nil => trivial
  | cons i is ih => exact ⟨h.1, ih h.2⟩

/-- An invariant of a machine and its monitor. -/
theorem watched_invariant {watch : μ → σ → ι → μ} (Inv : σ → μ → Prop)
    (hstep : ∀ s m i, Inv s m → ok s i → Inv (step s i) (watch m s i)) {p : σ × μ} {is : List ι}
    (hp : Inv p.1 p.2) (h : Along step ok p.1 is) :
    Inv (run (watched step watch) p is).1 (run (watched step watch) p is).2 := by
  let P (q : σ × μ) : Prop := Inv q.1 q.2
  exact run_invariant P (fun q i hq hi => hstep q.1 q.2 i hq hi) hp (h.watched watch)

/-- If every edge moves the items it takes in behind the held ones, and hands out
the oldest of them, then nothing is lost, duplicated or reordered over a run. -/
theorem emitted_conserved {Inv : σ → Prop} (contents : σ → List β) {ins outs : σ → ι → List β}
    (hstep : ∀ s i, Inv s → ok s i →
      Inv (step s i) ∧ contents s ++ ins s i = outs s i ++ contents (step s i))
    {s : σ} {is : List ι} (hs : Inv s) (h : Along step ok s is) :
    contents s ++ emitted step ins s is = emitted step outs s is ++ contents (run step s is) := by
  induction is generalizing s with
  | nil => simp
  | cons i is ih =>
      obtain ⟨hs', hc⟩ := hstep s i hs h.1
      have hrest := ih hs' h.2
      simp only [emitted_cons, run_cons]
      rw [← List.append_assoc, hc, List.append_assoc, hrest, List.append_assoc]

end MiscVerilogCores.Clocked
