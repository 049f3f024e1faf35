import MiscVerilogCores.Model.AxisFifo

/-! # The pipeline behind the memory

A stage that is not valid is a bubble. If the output is taken, every stage moves on; if not, those behind
the first bubble do. -/

namespace MiscVerilogCores.AxisFifo

variable {β : Type} {stages : List (Stage β)} {new : Stage β}

/-- What a stage holds, if it is valid. -/
def Stage.item (x : Stage β) : Option β := if x.valid then some x.data else none

/-- What the pipeline holds, oldest first. -/
def contents (stages : List (Stage β)) : List β := stages.filterMap Stage.item

/-- There is a bubble. -/
def bubbles (stages : List (Stage β)) : Bool := stages.any fun x => !x.valid

@[simp] theorem contents_nil : contents ([] : List (Stage β)) = [] := rfl

@[simp] theorem contents_cons (x : Stage β) :
    contents (x :: stages) = x.item.toList ++ contents stages := by
  cases h : x.item <;> simp [contents, h]

@[simp] theorem contents_append (stages' : List (Stage β)) :
    contents (stages ++ stages') = contents stages ++ contents stages' :=
  List.filterMap_append

@[simp] theorem bubbles_cons (x : Stage β) : bubbles (x :: stages) = (!x.valid || bubbles stages) :=
  rfl

/-- Every stage moves on. -/
theorem advance_true (x : Stage β) : advance true (x :: stages) new = stages ++ [new] := by
  induction stages generalizing x with
  | nil => rfl
  | cons y rest ih =>
      rw [advance, Bool.true_or, if_pos rfl, ih]
      rfl

/-- Without a bubble nothing moves. -/
theorem advance_full (hfull : bubbles stages = false) : advance false stages new = stages := by
  induction stages with
  | nil => rfl
  | cons x rest ih =>
      rw [bubbles_cons, Bool.or_eq_false_iff] at hfull
      rw [advance, hfull.1, Bool.or_false, if_neg Bool.false_ne_true, ih hfull.2]

/-- The first bubble is filled, and what is behind it moves on. -/
theorem advance_bubble (hbubble : bubbles stages = true) :
    ∃ front x back, stages = front ++ x :: back ∧ x.valid = false ∧ bubbles front = false ∧
      advance false stages new = front ++ back ++ [new] := by
  induction stages with
  | nil => exact absurd hbubble Bool.false_ne_true
  | cons x rest ih =>
      cases hx : x.valid with
      | false => exact ⟨[], x, rest, rfl, hx, rfl, by rw [advance, hx, ← advance_true x]; rfl⟩
      | true =>
          rw [bubbles_cons, hx, Bool.not_true, Bool.false_or] at hbubble
          obtain ⟨front, y, back, hsplit, hy, hfront, hadvance⟩ := ih hbubble
          refine ⟨x :: front, y, back, by rw [hsplit]; rfl, hy, by simp [hx, hfront], ?_⟩
          rw [advance, hx, Bool.not_true, Bool.or_false, if_neg Bool.false_ne_true, hadvance]
          rfl

/-- What is loaded goes behind what is held, and what is taken is the oldest of it. -/
theorem contents_advance (ready : Bool) (x : Stage β) :
    contents (x :: stages) ++ (if ready || bubbles (x :: stages) then new.item.toList else []) =
      (if ready then x.item.toList else []) ++ contents (advance ready (x :: stages) new) := by
  cases ready with
  | true => rw [advance_true]; simp
  | false =>
      rw [Bool.false_or, if_neg Bool.false_ne_true, List.nil_append]
      cases hbubble : bubbles (x :: stages) with
      | true =>
          obtain ⟨front, y, back, hsplit, hy, -, hadvance⟩ := advance_bubble hbubble
          rw [hadvance, hsplit, if_pos rfl]
          simp [show y.item = none by rw [Stage.item, hy]; rfl]
      | false => rw [advance_full hbubble, if_neg Bool.false_ne_true, List.append_nil]

theorem length_contents_le (stages : List (Stage β)) : (contents stages).length ≤ stages.length :=
  List.length_filterMap_le _ _

end MiscVerilogCores.AxisFifo
