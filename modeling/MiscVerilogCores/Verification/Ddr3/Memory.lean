import MiscVerilogCores.Library.Sdram
import MiscVerilogCores.Verification.Ddr3.Ordering
import Mathlib.Data.BitVec

/-! # The memory behind the scheduler

The commands that the data layer accepts go to a device with eight banks. If every burst is supplied with its
requests and stays in its page, then the device allows all of them, and answers the requests like a flat
memory that takes them one at a time. -/

namespace MiscVerilogCores.Ddr3Fsm

open Clocked Sdram

variable {PSB COL : ℕ} {V : Type*}

/-! ## Commands and accesses -/

/-- The banks. -/
instance fintypeBank : Fintype (BitVec 3) :=
  Fintype.ofEquiv (Fin (2 ^ 3)) ⟨BitVec.ofFin, BitVec.toFin, fun _ => rfl, fun _ => rfl⟩

/-- The burst of eight columns that a column belongs to. -/
def burstOf (col : BitVec COL) : BitVec COL := col >>> 3

/-- The command as the device sees it. -/
def deviceCommand (s : State PSB COL) : Command (BitVec 3) (BitVec (PSB + 1 + COL)) (BitVec COL) :=
  match s.cmdQ with
  | .actv => .activate s.baQ s.adrQ
  | .read => .column false s.baQ (burstOf (s.adrQ.setWidth COL)) (autoPrecharge s)
  | .writ => .column true s.baQ (burstOf (s.adrQ.setWidth COL)) (autoPrecharge s)
  | .refr => .refresh
  | _ => .other

/-- The command that the data layer accepts in a cycle. -/
def commandAt (s : System PSB COL) (c : Cycle PSB COL) :
    List (Command (BitVec 3) (BitVec (PSB + 1 + COL)) (BitVec COL)) :=
  if accepts s.fsm (fsmInputs s c) then [deviceCommand s.fsm] else []

/-- What a request asks of the memory. -/
def accessOf (x : Kind × Request PSB COL) : Access (BitVec 3 × BitVec (PSB + 1 + COL) × BitVec COL) where
  write := decide (x.1 = .wr)
  addr := (bankOf x.2.adr, rowOf x.2.adr, burstOf (colOf x.2.adr))

/-- The requests of one port. -/
def ofKind (k : Kind) (order : List (Kind × Request PSB COL)) : List (Request PSB COL) :=
  order.filterMap fun x => if x.1 = k then some x.2 else none

@[simp] theorem ofKind_append (k : Kind) (xs ys : List (Kind × Request PSB COL)) :
    ofKind k (xs ++ ys) = ofKind k xs ++ ofKind k ys := List.filterMap_append

/-- When a column command that leaves its row open is accepted, the next request of its burst is there. -/
def Supplied (s : System PSB COL) (c : Cycle PSB COL) : Prop :=
  c.ddlRdyI = true → s.fsm.preQ = 0 → ∀ k : Kind, s.fsm.state = k.phase → s.queue k ≠ []

instance (s : System PSB COL) (c : Cycle PSB COL) : Decidable (Supplied s c) :=
  inferInstanceAs (Decidable (_ → _ → ∀ _, _))

/-- The request of a port that has its column command now: the first that is sampled and has had none. -/
def servedOf (s : System PSB COL) (m : Log PSB COL) (c : Cycle PSB COL) (k : Kind) : List (Request PSB COL) :=
  if accepts s.fsm (fsmInputs s c) ∧ s.fsm.cmdQ = k.cmd then
    ((sampled s m k).drop (m.issued k).length).take 1
  else []

def servedAt (s : System PSB COL) (m : Log PSB COL) (c : Cycle PSB COL) : List (Kind × Request PSB COL) :=
  (servedOf s m c .rd).map (fun r => (Kind.rd, r)) ++ (servedOf s m c .wr).map fun r => (Kind.wr, r)

/-! ## Invariant -/

/-- The open rows. -/
def rowsOf : Option (BitVec (PSB + 1 + COL) × BitVec 3) → BitVec 3 → Option (BitVec (PSB + 1 + COL))
  | none => fun _ => none
  | some (row, bank) => Function.update (fun _ => none) bank (some row)

theorem rowsOf_self (row : BitVec (PSB + 1 + COL)) (bank : BitVec 3) :
    rowsOf (some (row, bank)) bank = some row := by
  simp only [rowsOf, Function.update_self]

theorem rowsOf_close (row : BitVec (PSB + 1 + COL)) (bank : BitVec 3) :
    Function.update (rowsOf (some (row, bank))) bank none = rowsOf none := by
  simp only [rowsOf, Function.update_idem]
  exact Function.update_eq_self bank _

/-- The requests that have had their commands are those in `order`, and the device has served them. -/
structure Remembers (data : ℕ → V) (d₀ : Device (BitVec 3) (BitVec (PSB + 1 + COL)) (BitVec COL) V)
    (s : System PSB COL) (m : Log PSB COL) (order : List (Kind × Request PSB COL))
    (cmds : List (Command (BitVec 3) (BitVec (PSB + 1 + COL)) (BitVec COL))) : Prop where
  inv : Inv s m
  fifo : ∀ k, ofKind k order = (sampled s m k).take (m.issued k).length
  closed : m.page = none ∨ ∃ k : Kind, s.fsm.state = k.phase
  serves : Sdram.Serves data d₀ cmds (order.map accessOf) (rowsOf m.page)

section Step

variable {data : ℕ → V} {d₀ : Device (BitVec 3) (BitVec (PSB + 1 + COL)) (BitVec COL) V} {s : System PSB COL}
  {m : Log PSB COL} {c : Cycle PSB COL} {order : List (Kind × Request PSB COL)} {k : Kind} {r : Request PSB COL}
  {cmds : List (Command (BitVec 3) (BitVec (PSB + 1 + COL)) (BitVec COL))}

theorem Inv.length_issued_le (h : Inv s m) (k : Kind) : (m.issued k).length ≤ (m.acked k).length := by
  obtain ⟨done, hdone, -, hmatches⟩ := h.issued k
  have hlen := congrArg List.length hmatches.columns
  rw [List.length_map, List.length_map] at hlen
  exact hlen.trans_le hdone.length_le

theorem ofKind_servedAt (k : Kind) : ofKind k (servedAt s m c) = servedOf s m c k := by
  have hone (k' : Kind) (rs : List (Request PSB COL)) :
      ofKind k (rs.map fun r => (k', r)) = if k' = k then rs else [] := by
    by_cases hk : k' = k <;> simp [ofKind, List.filterMap_map, hk]
  rw [servedAt, ofKind_append, hone, hone]
  cases k with
  | rd => exact List.append_nil _
  | wr => rfl

/-- The order goes on with the request that has its command now. -/
theorem order_next (h : ∀ k, ofKind k order = (sampled s m k).take (m.issued k).length)
    (hnext : Inv (s.step c) (m.watch s c)) (k : Kind) :
    ofKind k (order ++ servedAt s m c) =
      (sampled (s.step c) (m.watch s c) k).take ((m.watch s c).issued k).length := by
  have hle : ((m.watch s c).issued k).length ≤ (sampled s m k).length := hnext.length_issued_le k
  have hsampled : sampled (s.step c) (m.watch s c) k = sampled s m k ++ popped (s.step c) k := rfl
  rw [hsampled, List.take_append_of_le_length hle, ofKind_append, h, ofKind_servedAt, servedOf]
  by_cases hissue : accepts s.fsm (fsmInputs s c) ∧ s.fsm.cmdQ = k.cmd
  · have hissued : (m.watch s c).issued k = m.issued k ++ [m.presented s] :=
      congrArg (m.issued k ++ ·) (if_pos hissue)
    rw [if_pos hissue, hissued, List.length_append, List.length_singleton, List.take_add]
  · have hissued : (m.watch s c).issued k = m.issued k ++ [] := congrArg (m.issued k ++ ·) (if_neg hissue)
    rw [if_neg hissue, hissued, List.append_nil, List.append_nil]

/-- Nothing is accepted. -/
theorem quiet_next (hno : accepts s.fsm (fsmInputs s c) = false) :
    commandAt s c = [] ∧ servedAt s m c = [] ∧ (m.watch s c).page = m.page := by
  simp [commandAt, servedAt, servedOf, Log.watch, hno]

/-- The request that is served is the one that has its command now. -/
theorem Bursting.servedAt_eq (h : Bursting s m k r) (haccepts : accepts s.fsm (fsmInputs s c) = true) :
    servedAt s m c = [(k, r)] := by
  obtain ⟨done, hdone, hmatches⟩ := h.sampled
  have hlen := congrArg List.length hmatches.columns
  rw [List.length_map, List.length_map] at hlen
  have hserved (k' : Kind) : servedOf s m c k' = if k = k' then [r] else [] := by
    by_cases hk : k = k'
    · subst hk
      rw [servedOf, if_pos ⟨haccepts, h.cmdQ⟩, if_pos rfl, hdone, hlen, List.drop_left]
      rfl
    · rw [servedOf, if_neg (fun hboth => hk (Kind.cmd_injective (h.cmdQ.symm.trans hboth.2))), if_neg hk]
  rw [servedAt, hserved, hserved]
  cases k <;> rfl

theorem Bursting.serves_next (h : Bursting s m k r) (hlinked : Linked m)
    (haccepts : accepts s.fsm (fsmInputs s c) = true)
    (hserves : Sdram.Serves data d₀ cmds (order.map accessOf) (rowsOf m.page)) :
    Sdram.Serves data d₀ (cmds ++ commandAt s c) ((order ++ servedAt s m c).map accessOf)
      (rowsOf (m.watch s c).page) := by
  have hpresented := h.presented_eq hlinked
  have hbank : s.fsm.baQ = bankOf r.adr := congrArg Issue.bank hpresented
  have hcol : s.fsm.adrQ.setWidth COL = colOf r.adr := congrArg Issue.col hpresented
  have hpage : m.page = some (rowOf r.adr, bankOf r.adr) := h.page hlinked
  have hrow : rowsOf m.page (bankOf r.adr) = some (rowOf r.adr) := by
    rw [hpage, rowsOf_self]
  have hcommand : commandAt s c =
      [.column (decide (k = .wr)) (bankOf r.adr) (burstOf (colOf r.adr)) (autoPrecharge s.fsm)] := by
    rw [commandAt, if_pos haccepts, deviceCommand, h.cmdQ, hbank, hcol]
    cases k <;> rfl
  have hclosed : rowsOf (m.watch s c).page =
      if autoPrecharge s.fsm then Function.update (rowsOf m.page) (bankOf r.adr) none else rowsOf m.page := by
    have hnext : (m.watch s c).page = if autoPrecharge s.fsm then none else m.page := by
      have hcmd := h.cmdQ
      cases k <;> simp [Log.watch, haccepts, hcmd, Kind.cmd]
    rw [hnext]
    split
    · rw [hpage, rowsOf_close]
    · rfl
  rw [hcommand, h.servedAt_eq haccepts, List.map_append, hclosed]
  exact hserves.column _ _ _ hrow

theorem Remembers.page_eq (h : Remembers data d₀ s m order cmds) (hstate : ∀ k : Kind, s.fsm.state ≠ k.phase) :
    m.page = none :=
  h.closed.resolve_right fun ⟨k, hk⟩ => hstate k hk

theorem Remembers.serves_next (h : Remembers data d₀ s m order cmds) (hlinked : Linked m) :
    Sdram.Serves data d₀ (cmds ++ commandAt s c) ((order ++ servedAt s m c).map accessOf)
      (rowsOf (m.watch s c).page) := by
  have hserves := h.serves
  have hphase := h.inv.phase
  rw [PhaseInv] at hphase
  cases haccepts : accepts s.fsm (fsmInputs s c) with
  | false =>
      obtain ⟨hcommand, hserved, hpage⟩ := quiet_next (m := m) haccepts
      rwa [hcommand, hserved, hpage, List.append_nil, List.append_nil]
  | true =>
      cases hstate : s.fsm.state <;> rw [hstate] at hphase
      case idle =>
        rw [accepts, hphase.1] at haccepts
        exact absurd haccepts Bool.false_ne_true
      case actv =>
        obtain ⟨k, r, hactv⟩ := hphase
        have hpage : m.page = none := h.page_eq fun k => by cases k <;> simp [hstate, Kind.phase]
        have hcommand : commandAt s c = [.activate s.fsm.baQ s.fsm.adrQ] := by
          rw [commandAt, if_pos haccepts, deviceCommand, hactv.cmdQ]
        have hserved : servedAt s m c = [] := by
          simp [servedAt, servedOf, hactv.cmdQ, Kind.cmd]
        have hopen : (m.watch s c).page = some (s.fsm.adrQ, s.fsm.baQ) := by
          simp [Log.watch, haccepts, hactv.cmdQ]
        rw [hcommand, hserved, hopen, List.append_nil]
        rw [hpage] at hserves
        exact hserves.activate _ rfl
      case read =>
        obtain ⟨r, hburst⟩ := hphase
        exact hburst.serves_next hlinked haccepts hserves
      case writ =>
        obtain ⟨r, hburst⟩ := hphase
        exact hburst.serves_next hlinked haccepts hserves
      case refr =>
        have hpage : m.page = none := h.page_eq fun k => by cases k <;> simp [hstate, Kind.phase]
        have hcommand : commandAt s c = [.refresh] := by
          rw [commandAt, if_pos haccepts, deviceCommand, hphase.1]
        have hserved : servedAt s m c = [] := by
          simp [servedAt, servedOf, hphase.1, Kind.cmd]
        have hsame : (m.watch s c).page = none := by
          simp [Log.watch, haccepts, hphase.1, hpage]
        rw [hcommand, hserved, hsame, List.append_nil]
        rw [hpage] at hserves
        exact hserves.refresh fun _ => rfl

/-- A row is left open only by a burst that goes on. -/
theorem Bursting.closed_next (h : Bursting s m k r) (hstate : s.fsm.state = k.phase) (hsupplied : Supplied s c) :
    (m.watch s c).page = none ∨ ∃ k : Kind, (s.step c).fsm.state = k.phase := by
  cases hrdy : c.ddlRdyI with
  | false =>
      refine Or.inr ⟨k, ?_⟩
      cases k <;> simp [System.step, Ddr3Fsm.step, hstate, fsmInputs, Kind.phase, readNext, writNext, hrdy]
  | true =>
      cases hlast : r.last with
      | false =>
          have hpre : s.fsm.preQ = 0#(PSB + 1) := by rw [h.preQ, precharge_eq_zero, hlast]
          have hqueue := hsupplied hrdy hpre k hstate
          refine Or.inr ⟨k, ?_⟩
          cases k <;> simp [System.step, Ddr3Fsm.step, hstate, fsmInputs, Kind.phase, readNext, writNext, hrdy,
            hpre, hqueue]
      | true =>
          have hauto : autoPrecharge s.fsm = true := by rw [h.autoPrecharge_eq, hlast]
          have hcmd := h.cmdQ
          refine Or.inl ?_
          cases k <;> simp [Log.watch, accepts, fsmInputs, h.reqQ, hrdy, hcmd, Kind.cmd, hauto]

theorem Remembers.closed_next (h : Remembers data d₀ s m order cmds) (hsupplied : Supplied s c) :
    (m.watch s c).page = none ∨ ∃ k : Kind, (s.step c).fsm.state = k.phase := by
  have hphase := h.inv.phase
  rw [PhaseInv] at hphase
  cases hstate : s.fsm.state <;> rw [hstate] at hphase
  case idle =>
    have hpage : m.page = none := h.page_eq fun k => by cases k <;> simp [hstate, Kind.phase]
    exact Or.inl (by simp [Log.watch, accepts, hphase.1, hpage])
  case refr =>
    have hpage : m.page = none := h.page_eq fun k => by cases k <;> simp [hstate, Kind.phase]
    exact Or.inl (by simp [Log.watch, hphase.1, hpage])
  case actv =>
    obtain ⟨k, r, hactv⟩ := hphase
    have hpage : m.page = none := h.page_eq fun k => by cases k <;> simp [hstate, Kind.phase]
    cases hrdy : c.ddlRdyI with
    | false => exact Or.inl (by simp [Log.watch, accepts, fsmInputs, hrdy, hpage])
    | true =>
        refine Or.inr ⟨if s.fsm.wenQ then .wr else .rd, ?_⟩
        cases hwen : s.fsm.wenQ <;>
          simp [System.step, Ddr3Fsm.step, hstate, fsmInputs, actvNext, hrdy, hwen, Kind.phase]
  case read =>
    obtain ⟨r, hburst⟩ := hphase
    exact hburst.closed_next hstate hsupplied
  case writ =>
    obtain ⟨r, hburst⟩ := hphase
    exact hburst.closed_next hstate hsupplied

theorem Remembers.next (h : Remembers data d₀ s m order cmds) (hlinked : Linked (m.watch s c))
    (hspaced : Spaced m c) (hsupplied : Supplied s c) :
    Remembers data d₀ (s.step c) (m.watch s c) (order ++ servedAt s m c) (cmds ++ commandAt s c) where
  inv := h.inv.next hspaced
  fifo := order_next h.fifo (h.inv.next hspaced)
  closed := h.closed_next hsupplied
  serves := h.serves_next hlinked.of_watch

end Step

/-! ## Runs -/

section Runs

variable (s : State PSB COL) (cmd : Ddr3Cmd) (ba : BitVec 3) (adr : BitVec (PSB + 1 + COL))
  (queue : Kind → List (Request PSB COL)) (cs : List (Cycle PSB COL))

/-- In every cycle of the run, bursts are supplied. -/
def SuppliedRun (q : System PSB COL × Log PSB COL) (cs : List (Cycle PSB COL)) : Prop :=
  Along (watched System.step Log.watch) (fun q c => Supplied q.1 c) q cs

instance (q : System PSB COL × Log PSB COL) (cs : List (Cycle PSB COL)) : Decidable (SuppliedRun q cs) :=
  inferInstanceAs (Decidable (Along _ _ _ _))

/-- The commands of a run. -/
def commands (q : System PSB COL × Log PSB COL) (cs : List (Cycle PSB COL)) :
    List (Command (BitVec 3) (BitVec (PSB + 1 + COL)) (BitVec COL)) :=
  emitted (watched System.step Log.watch) (fun q c => commandAt q.1 c) q cs

/-- The requests in the order of their column commands. -/
def served (q : System PSB COL × Log PSB COL) (cs : List (Cycle PSB COL)) : List (Kind × Request PSB COL) :=
  emitted (watched System.step Log.watch) (fun q c => servedAt q.1 q.2 c) q cs

/-- The device with all its rows closed. -/
def closedDevice (cells : BitVec 3 × BitVec (PSB + 1 + COL) × BitVec COL → V) :
    Device (BitVec 3) (BitVec (PSB + 1 + COL)) (BitVec COL) V := ⟨fun _ => none, cells, 0⟩

/-- The scheduler and the device are a memory that takes the requests of each port in order: the `k`-th write
stores `data k`, and what the device returns is what the memory returns. -/
structure ActsAsMemory (data : ℕ → V) (cells : BitVec 3 × BitVec (PSB + 1 + COL) × BitVec COL → V)
    (q : System PSB COL × Log PSB COL) (cs : List (Cycle PSB COL)) : Prop where
  fifo : ∀ k, ofKind k (served q cs) <+: q.1.queue k ++ cs.flatMap fun c => c.arrivals k
  behind : ∀ k, ((logged q cs).2.acked k).length ≤ (ofKind k (served q cs)).length + 1
  answers : ∃ d out, (closedDevice cells).execs data (commands q cs) = some (d, out) ∧
    Flat.accesses data ⟨cells, 0⟩ ((served q cs).map accessOf) = (d.flat, out)

/-- Bursts that stay in their pages do so all along. -/
theorem along_linked (hpages : ∀ k, (queue k ++ cs.flatMap fun c => c.arrivals k).IsChain SamePage) :
    Along (watched System.step Log.watch) (fun q c => Linked (q.2.watch q.1 c)) (runStart s cmd ba adr queue) cs := by
  refine along_of_edges fun pre c post hsplit k => ?_
  have hlast : logged (runStart s cmd ba adr queue) (pre ++ [c]) =
      watched System.step Log.watch (logged (runStart s cmd ba adr queue) pre) c :=
    run_append _ _ pre [c]
  have harrived := arrived_logged (pre ++ [c]) (runStart s cmd ba adr queue) k
  have hchain := hpages k
  rw [hlast] at harrived
  rw [hsplit, ← List.singleton_append, ← List.append_assoc, List.flatMap_append, ← List.append_assoc] at hchain
  exact harrived ▸ hchain.left_of_append

/-- In every run in which bursts stay in their pages and are supplied, and ready is low behind an acceptance,
the scheduler and the device act as a memory. -/
theorem actsAsMemory (data : ℕ → V) (cells : BitVec 3 × BitVec (PSB + 1 + COL) × BitVec COL → V)
    (hpages : ∀ k, (queue k ++ cs.flatMap fun c => c.arrivals k).IsChain SamePage)
    (hspaced : SpacedRun (runStart s cmd ba adr queue) cs)
    (hsupplied : SuppliedRun (runStart s cmd ba adr queue) cs) :
    ActsAsMemory data cells (runStart s cmd ba adr queue) cs := by
  let q₀ := runStart s cmd ba adr queue
  have hstart : Remembers data (closedDevice cells) q₀.1 q₀.2 [] [] :=
    ⟨inv_runStart s cmd ba adr queue, fun k => by cases k <;> rfl, Or.inl rfl, serves_nil data _⟩
  have hok := (along_linked s cmd ba adr queue cs hpages).and (hspaced.and hsupplied)
  have hend : Remembers data (closedDevice cells) (logged q₀ cs).1 (logged q₀ cs).2
      (served q₀ cs) (commands q₀ cs) :=
    run_ledger (fun q order cmds => Remembers data (closedDevice cells) q.1 q.2 order cmds)
      (fun q c order cmds h hc => h.next hc.1 hc.2.1 hc.2.2) hstart hok
  refine ⟨fun k => ?_, fun k => ?_, ?_⟩
  · have hle := hend.inv.length_issued_le k
    have harrived := hend.inv.once k
    rw [arrived_logged] at harrived
    show ofKind k (served q₀ cs) <+: _
    rw [hend.fifo, sampled, List.take_append_of_le_length hle]
    exact (List.take_prefix _ _).trans ⟨_, harrived⟩
  · obtain ⟨done, -, hlen, hmatches⟩ := hend.inv.issued k
    have hcount := congrArg List.length hmatches.columns
    have hle := hend.inv.length_issued_le k
    rw [List.length_map, List.length_map] at hcount
    show ((logged q₀ cs).2.acked k).length ≤ (ofKind k (served q₀ cs)).length + 1
    rw [hend.fifo, sampled, List.take_append_of_le_length hle, List.length_take, Nat.min_eq_left hle]
    omega
  · obtain ⟨d, out, hexecs, hflat, -⟩ := hend.serves
    exact ⟨d, out, hexecs, hflat⟩

end Runs

instance (r r' : Request PSB COL) : Decidable (SamePage r r') := inferInstanceAs (Decidable (_ → _))

/-- A burst of two writes, and a burst of two reads that arrives when the first write is sampled. -/
def writeThenRead : List (Cycle 2 10) :=
  ⟨false, false, readsOnly (chunks 8 2)⟩ ::
    [true, false, true, false, true, false, false, true, false, true, false, true].map fun rdy => quietCycle rdy false

def writesOnly : Kind → List (Request 2 10)
  | .rd => []
  | .wr => chunks 8 2

/-- What was written is read. -/
theorem actsAsMemory_pair :
    let q : System 2 10 × Log 2 10 := runStart default .noop 0 0 writesOnly
    served q writeThenRead =
        (chunks 8 2).map (fun r => (Kind.wr, r)) ++ (chunks 8 2).map (fun r => (Kind.rd, r)) ∧
      ActsAsMemory (fun k => k + 1) (fun _ => 0) q writeThenRead :=
  ⟨by decide, actsAsMemory default .noop 0 0 writesOnly writeThenRead _ _ (by decide) (by decide) (by decide)⟩

end MiscVerilogCores.Ddr3Fsm
