import MiscVerilogCores.Verification.Ddr3.Requests

/-! # Column commands of the DDR3 scheduler

Every acknowledged request gets exactly one command of its kind, in order. The command
goes to the row and bank of its request as long as no burst crosses a page: the
follow-on requests of a burst are issued without another ACTIVATE. -/

namespace MiscVerilogCores.Ddr3Fsm

open Clocked

variable {PSB COL : ℕ}

/-- The scheduler out of reset, and an empty log. -/
def runStart (s : State PSB COL) (cmd : Ddr3Cmd) (ba : BitVec 3) (adr : BitVec (PSB + 1 + COL))
    (queue : Kind → List (Request PSB COL)) : System PSB COL × Log PSB COL :=
  (System.start s cmd ba adr queue, Log.start queue)

/-- The scheduler and its log after some cycles. -/
def logged (q : System PSB COL × Log PSB COL) (cs : List (Cycle PSB COL)) :
    System PSB COL × Log PSB COL :=
  run (watched System.step Log.watch) q cs

/-- Ready is low after every acceptance of the run. -/
def SpacedRun (q : System PSB COL × Log PSB COL) (cs : List (Cycle PSB COL)) : Prop :=
  Along (watched System.step Log.watch) (fun q c => Spaced q.2 c) q cs

instance (q : System PSB COL × Log PSB COL) (cs : List (Cycle PSB COL)) :
    Decidable (SpacedRun q cs) :=
  inferInstanceAs (Decidable (Along _ _ _ _))

/-- A cycle with a ready and a refresh signal, and no new requests. -/
def quietCycle (rdy ref : Bool) : Cycle PSB COL := ⟨rdy, ref, fun _ => []⟩

/-- Traffic on the read port only. -/
def readsOnly {α : Type} (xs : List α) : Kind → List α
  | .rd => xs
  | .wr => []

instance decidableForallKind {P : Kind → Prop} [∀ k, Decidable (P k)] : Decidable (∀ k, P k) :=
  decidable_of_iff (P .rd ∧ P .wr) ⟨fun h k => by cases k; exacts [h.1, h.2], fun h => ⟨h _, h _⟩⟩

/-- Cycles with ready high every other time, in which a burst of two requests is read. -/
def readPair : List (Cycle PSB COL) :=
  [quietCycle false false, quietCycle true false, quietCycle false false, quietCycle true false,
    quietCycle false true, quietCycle true true]

/-- The requests that a burst is cut into: `n` of them from an address on, eight words
apart, and the last of them marked. -/
def chunks (adr : BitVec (PSB + 1 + COL + 3 + COL)) : ℕ → List (Request PSB COL)
  | 0 => []
  | n + 1 => ⟨n == 0, adr⟩ :: chunks (adr + 8) n

def pairInPage : Kind → List (Request 2 10) :=
  readsOnly (chunks 8 2)

section Runs

variable (s : State PSB COL) (cmd : Ddr3Cmd) (ba : BitVec 3) (adr : BitVec (PSB + 1 + COL))
  (queue : Kind → List (Request PSB COL)) (cs : List (Cycle PSB COL))

theorem inv_runStart :
    Inv (runStart s cmd ba adr queue).1 (runStart s cmd ba adr queue).2 := by
  refine ⟨fun k => rfl, ⟨rfl, fun k => ⟨?_, rfl, fun _ => rfl⟩⟩⟩
  cases k <;> rfl

theorem inv_logged (h : SpacedRun (runStart s cmd ba adr queue) cs) :
    Inv (logged (runStart s cmd ba adr queue) cs).1
      (logged (runStart s cmd ba adr queue) cs).2 := by
  let P (q : System PSB COL × Log PSB COL) : Prop := Inv q.1 q.2
  exact run_invariant P (fun q c hq hc => Inv.next hq hc) (inv_runStart s cmd ba adr queue) h

theorem arrived_logged (q : System PSB COL × Log PSB COL) (k : Kind) :
    (logged q cs).2.arrived k = q.2.arrived k ++ cs.flatMap fun c => c.arrivals k := by
  induction cs generalizing q with
  | nil => simp [logged]
  | cons c cs ih =>
      have hrest := ih (watched System.step Log.watch q c)
      rw [logged, run_cons, ← logged, hrest]
      simp [Log.watch]

/-! ## One command for each request -/

/-- The commands accepted for a port are those of the acknowledged requests, in order, but for
at most the last; acknowledged and queued requests are what has arrived. -/
structure OneCommandEach (s : System PSB COL) (m : Log PSB COL) (k : Kind) : Prop where
  commands : (m.issued k).map Issue.column <+: (m.acked k).map fun r => (colOf r.adr, r.last)
  behind : (m.acked k).length ≤ (m.issued k).length + 1
  once : m.acked k ++ s.queue k = m.arrived k

theorem oneCommandEach (h : SpacedRun (runStart s cmd ba adr queue) cs) (k : Kind) :
    OneCommandEach (logged (runStart s cmd ba adr queue) cs).1
      (logged (runStart s cmd ba adr queue) cs).2 k := by
  have hinv := inv_logged s cmd ba adr queue cs h
  obtain ⟨done, hdone, hlen, hm⟩ := hinv.issued k
  have hcount := congrArg List.length hm.columns
  simp only [List.length_map] at hcount
  refine ⟨?_, by omega, hinv.once k⟩
  rw [hm.columns]
  exact hdone.map fun r => r.issue.column

end Runs

/-- The hypothesis is met by a burst of two reads. -/
theorem oneCommandEach_pair :
    OneCommandEach (logged (runStart default .noop 0 0 pairInPage) readPair).1
      (logged (runStart default .noop 0 0 pairInPage) readPair).2 .rd :=
  oneCommandEach default .noop 0 0 _ readPair (by decide) .rd

/-! ## The page of a command -/

structure Burst (PSB COL : ℕ) where
  adr : BitVec (PSB + 1 + COL + 3 + COL)
  count : ℕ

def Burst.requests (b : Burst PSB COL) : List (Request PSB COL) := chunks b.adr b.count

/-- All chunks of the burst have the row and bank of the first. -/
def Burst.InPage (b : Burst PSB COL) : Prop :=
  ∀ r ∈ b.requests, rowOf r.adr = rowOf b.adr ∧ bankOf r.adr = bankOf b.adr

instance (b : Burst PSB COL) : Decidable b.InPage :=
  inferInstanceAs (Decidable (∀ r ∈ b.requests, _))

theorem chunks_isChain {row : BitVec (PSB + 1 + COL)} {bank : BitVec 3} (n : ℕ)
    (adr : BitVec (PSB + 1 + COL + 3 + COL))
    (h : ∀ r ∈ chunks adr n, rowOf r.adr = row ∧ bankOf r.adr = bank) :
    (chunks adr n).IsChain SamePage := by
  induction n generalizing adr with
  | zero => exact List.isChain_nil
  | succ n ih =>
      have hhead := h ⟨n == 0, adr⟩ (by simp [chunks])
      have hrest : ∀ r ∈ chunks (adr + 8) n, rowOf r.adr = row ∧ bankOf r.adr = bank :=
        fun r hr => h r (List.mem_cons_of_mem _ hr)
      rw [chunks, List.isChain_cons]
      refine ⟨fun r hr _ => ?_, ih _ hrest⟩
      obtain ⟨hrow, hbank⟩ := hrest r (List.mem_of_mem_head? hr)
      exact ⟨hrow.trans hhead.1.symm, hbank.trans hhead.2.symm⟩

theorem chunks_getLast (n : ℕ) (adr : BitVec (PSB + 1 + COL + 3 + COL)) :
    ∀ r ∈ (chunks adr n).getLast?, r.last = true := by
  induction n generalizing adr with
  | zero => simp [chunks]
  | succ n ih =>
      cases n with
      | zero => simp [chunks]
      | succ n => simpa [chunks, List.getLast?_cons_cons] using ih (adr + 8)

/-- A stream of bursts is linked when none of them crosses a page. -/
theorem requests_isChain {bursts : List (Burst PSB COL)} (h : ∀ b ∈ bursts, b.InPage) :
    (bursts.flatMap Burst.requests).IsChain SamePage := by
  induction bursts with
  | nil => exact List.isChain_nil
  | cons b bursts ih =>
      rw [List.flatMap_cons, List.isChain_append]
      refine ⟨chunks_isChain _ _ (h b (by simp)), ih fun b' hb' => h b' (by simp [hb']), ?_⟩
      intro r hr r' _ hlast
      simp [chunks_getLast _ _ r hr] at hlast

/-- The requests that arrive at a port in a run are cut from bursts. -/
def CutFrom (queue : Kind → List (Request PSB COL)) (cs : List (Cycle PSB COL))
    (bursts : Kind → List (Burst PSB COL)) : Prop :=
  ∀ k, queue k ++ cs.flatMap (fun c => c.arrivals k) <+: (bursts k).flatMap Burst.requests

instance (queue : Kind → List (Request PSB COL)) (cs : List (Cycle PSB COL))
    (bursts : Kind → List (Burst PSB COL)) : Decidable (CutFrom queue cs bursts) :=
  inferInstanceAs (Decidable (∀ _, _))

/-- When no burst crosses a page, every accepted column command finds the page of its request
open, and carries its bank and column. -/
theorem commands_in_page (s : State PSB COL) (cmd : Ddr3Cmd) (ba : BitVec 3)
    (adr : BitVec (PSB + 1 + COL)) (queue : Kind → List (Request PSB COL))
    (bursts : Kind → List (Burst PSB COL)) (cs : List (Cycle PSB COL))
    (hcut : CutFrom queue cs bursts) (hpage : ∀ k, ∀ b ∈ bursts k, b.InPage)
    (hspaced : SpacedRun (runStart s cmd ba adr queue) cs) (k : Kind) :
    (logged (runStart s cmd ba adr queue) cs).2.issued k <+:
      ((logged (runStart s cmd ba adr queue) cs).2.acked k).map Request.issue := by
  have hlinked : Linked (logged (runStart s cmd ba adr queue) cs).2 := by
    intro k
    rw [arrived_logged]
    obtain ⟨later, hlater⟩ := hcut k
    have hchain := requests_isChain (hpage k)
    rw [← hlater, List.isChain_append] at hchain
    exact hchain.1
  obtain ⟨done, hdone, -, hm⟩ := (inv_logged s cmd ba adr queue cs hspaced).issued k
  rw [hm.pages hlinked]
  exact hdone.map Request.issue

/-- The hypotheses are met by a burst of two reads at the start of a page. -/
theorem commands_in_page_pair :
    (logged (runStart default .noop 0 0 pairInPage) readPair).2.issued .rd <+:
      ((logged (runStart default .noop 0 0 pairInPage) readPair).2.acked .rd).map Request.issue :=
  commands_in_page default .noop 0 0 _ (readsOnly [⟨8, 2⟩]) readPair
    (by decide) (by decide) (by decide) .rd

/-- A read burst of two chunks from column 1016 crosses into the next bank; its second command
goes to the page of the first. -/
theorem commands_not_in_page :
    ¬ ∀ (PSB COL : ℕ) (s : State PSB COL) (cmd : Ddr3Cmd) (ba : BitVec 3)
      (adr : BitVec (PSB + 1 + COL)) (queue : Kind → List (Request PSB COL))
      (bursts : Kind → List (Burst PSB COL)) (cs : List (Cycle PSB COL)),
      CutFrom queue cs bursts → (∀ k, ∀ b ∈ bursts k, b.adr.setWidth 3 = 0) →
      SpacedRun (runStart s cmd ba adr queue) cs → ∀ k,
      (logged (runStart s cmd ba adr queue) cs).2.issued k <+:
        ((logged (runStart s cmd ba adr queue) cs).2.acked k).map Request.issue := by
  intro h
  have hrun := h 2 10 default .noop 0 0 (readsOnly (chunks 1016 2))
    (readsOnly [⟨1016, 2⟩]) readPair (by decide) (by decide) (by decide) .rd
  revert hrun
  decide

end MiscVerilogCores.Ddr3Fsm
