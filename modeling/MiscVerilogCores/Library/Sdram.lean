import Mathlib.Data.Fintype.Defs
import Mathlib.Logic.Function.Basic

/-! # Banked memories

A device of banks, in each of which at most one row is open. A column command reaches the row that is open in
its bank, and may close it. A command that the device does not allow has no result. To whoever sends only
allowed commands the device is a flat memory. -/

namespace MiscVerilogCores.Sdram

variable {B R C A V : Type*}

/-! ## The device -/

inductive Command (B R C : Type*) where
  | activate (bank : B) (row : R)
  | column (write : Bool) (bank : B) (col : C) (auto : Bool)
  | refresh
  | other

/-- The open rows, what is stored, and how many writes there have been. -/
structure Device (B R C V : Type*) where
  rows : B → Option R
  cells : B × R × C → V
  writes : ℕ

/-- The `k`-th write stores `data k`. -/
def store [DecidableEq A] (data : ℕ → V) (cells : A → V) (writes : ℕ) (write : Bool) (a : A) : (A → V) × ℕ :=
  if write then (Function.update cells a (data writes), writes + 1) else (cells, writes)

/-- What an access returns. -/
def fetch (cells : A → V) (write : Bool) (a : A) : List V := if write then [] else [cells a]

section Device

variable [DecidableEq B] [DecidableEq R] [DecidableEq C] [Fintype B]

/-- A command, with what it returns. -/
def Device.exec (data : ℕ → V) (d : Device B R C V) : Command B R C → Option (Device B R C V × List V)
  | .activate bank row =>
      if d.rows bank = none then some ({ d with rows := Function.update d.rows bank (some row) }, []) else none
  | .column write bank col auto =>
      (d.rows bank).map fun row =>
        let stored := store data d.cells d.writes write (bank, row, col)
        (⟨if auto then Function.update d.rows bank none else d.rows, stored.1, stored.2⟩,
          fetch d.cells write (bank, row, col))
  | .refresh => if ∀ bank, d.rows bank = none then some (d, []) else none
  | .other => none

/-- The commands of a run, with what they return. -/
def Device.execs (data : ℕ → V) (d : Device B R C V) (cmds : List (Command B R C)) :
    Option (Device B R C V × List V) :=
  cmds.foldlM (fun q cmd => (q.1.exec data cmd).map fun next => (next.1, q.2 ++ next.2)) (d, [])

end Device

/-! ## The flat memory -/

structure Flat (A V : Type*) where
  cells : A → V
  writes : ℕ

structure Access (A : Type*) where
  write : Bool
  addr : A

section Flat

variable [DecidableEq A]

def Flat.access (data : ℕ → V) (q : Flat A V × List V) (x : Access A) : Flat A V × List V :=
  let stored := store data q.1.cells q.1.writes x.write x.addr
  (⟨stored.1, stored.2⟩, q.2 ++ fetch q.1.cells x.write x.addr)

/-- The accesses of a run, one at a time, with what they return. -/
def Flat.accesses (data : ℕ → V) (f : Flat A V) (xs : List (Access A)) : Flat A V × List V :=
  xs.foldl (Flat.access data) (f, [])

end Flat

/-! ## Refinement -/

def Device.flat (d : Device B R C V) : Flat (B × R × C) V := ⟨d.cells, d.writes⟩

section Refinement

variable [DecidableEq B] [DecidableEq R] [DecidableEq C] [Fintype B] {data : ℕ → V} {d₀ : Device B R C V}
  {cmds : List (Command B R C)} {order : List (Access (B × R × C))} {rows : B → Option R}

/-- The device has allowed the commands and answers like a flat memory with the accesses of `order`; these rows
are open now. -/
def Serves (data : ℕ → V) (d₀ : Device B R C V) (cmds : List (Command B R C))
    (order : List (Access (B × R × C))) (rows : B → Option R) : Prop :=
  ∃ d out, d₀.execs data cmds = some (d, out) ∧ d₀.flat.accesses data order = (d.flat, out) ∧ d.rows = rows

theorem serves_nil (data : ℕ → V) (d₀ : Device B R C V) : Serves data d₀ [] [] d₀.rows := ⟨d₀, [], rfl, rfl, rfl⟩

/-- One command more. -/
theorem execs_concat {d d' : Device B R C V} {out out' : List V} {cmd : Command B R C}
    (h : d₀.execs data cmds = some (d, out)) (hcmd : d.exec data cmd = some (d', out')) :
    d₀.execs data (cmds ++ [cmd]) = some (d', out ++ out') := by
  rw [Device.execs, List.foldlM_append, ← Device.execs, h]
  simp [hcmd]

theorem Serves.activate (h : Serves data d₀ cmds order rows) {bank : B} (row : R) (hclosed : rows bank = none) :
    Serves data d₀ (cmds ++ [.activate bank row]) order (Function.update rows bank (some row)) := by
  obtain ⟨d, out, hexecs, hflat, rfl⟩ := h
  refine ⟨_, _, execs_concat hexecs (if_pos hclosed), ?_, rfl⟩
  rw [List.append_nil]
  exact hflat

theorem Serves.column (h : Serves data d₀ cmds order rows) {bank : B} {row : R} (write : Bool) (col : C)
    (auto : Bool) (hrow : rows bank = some row) :
    Serves data d₀ (cmds ++ [.column write bank col auto]) (order ++ [⟨write, (bank, row, col)⟩])
      (if auto then Function.update rows bank none else rows) := by
  obtain ⟨d, out, hexecs, hflat, rfl⟩ := h
  refine ⟨_, _, execs_concat hexecs (congrArg (Option.map _) hrow), ?_, rfl⟩
  rw [Flat.accesses, List.foldl_append, ← Flat.accesses, hflat]
  rfl

theorem Serves.refresh (h : Serves data d₀ cmds order rows) (hclosed : ∀ bank, rows bank = none) :
    Serves data d₀ (cmds ++ [.refresh]) order rows := by
  obtain ⟨d, out, hexecs, hflat, rfl⟩ := h
  refine ⟨_, _, execs_concat hexecs (if_pos hclosed), ?_, rfl⟩
  rw [List.append_nil]
  exact hflat

end Refinement

end MiscVerilogCores.Sdram
