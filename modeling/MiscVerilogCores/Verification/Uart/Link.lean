import MiscVerilogCores.Verification.Uart.Reception
import MiscVerilogCores.Verification.Uart.Transmission

/-! # Two UARTs

The line from a transmitter to a receiver, and two instances of `uart` that are wired to each other.
The two ends may use different bit times, within the tolerance of the receivers. -/

namespace MiscVerilogCores.Uart

open Clocked Handshake

variable {W : ℕ}

/-! ## One line -/

/-- The transmitter runs with `ts` as its inputs, the receiver with `rs`: the bytes that arrive are
those that were handed over, but for the one that is being sent. -/
structure Delivers (s : UartTx.State W) (ts : List (UartTx.Inputs W)) (s' : UartRx.State W)
    (rs : List (UartRx.Inputs W)) (arrived : List (BitVec W)) : Prop where
  order : arrived <+: UartTx.accepted s ts
  underway : (UartTx.accepted s ts).length ≤ arrived.length + 1
  all : UartTx.vacant (run UartTx.step s ts) = true → arrived = UartTx.accepted s ts
  decodes : UartRx.Decodes s' rs arrived
  taken : (∀ i ∈ rs, i.mAxisTready = true) →
    UartRx.reads s' rs ++ UartRx.offered (run UartRx.step s' rs) = arrived

section Line

variable {p q : BitVec 16} {s : UartTx.State W} {ts : List (UartTx.Inputs W)} {s' : UartRx.State W}
  {rs : List (UartRx.Inputs W)}

/-- What arrives while a byte is being sent. -/
theorem arrivals_of_sending {N : ℕ} {line back : List Bool} {bytes : List (BitVec W)} (hq : q ≠ 0)
    (hW : W + 2 < 16) (htol : UartRx.Tolerates q W N) (hidle : UartRx.Idle s')
    (hrs : ∀ i ∈ rs, UartRx.Driven q i) (hsending : UartTx.Sending N line back bytes)
    (hlevels : UartRx.levels rs = line.dropLast) :
    UartRx.arrivals s' rs <+: bytes ∧ bytes.length ≤ (UartRx.arrivals s' rs).length + 1 ∧
      UartRx.NoFrameError s' rs ∧ (back = [] → UartRx.arrivals s' rs = bytes) ∧
      (back.length = N * (W + 2) → UartRx.arrivals s' rs = bytes.dropLast) := by
  cases hsending with
  | rest hline =>
      rw [List.dropLast_concat] at hlevels
      have hall := UartRx.receive_line hq hW htol hidle hrs (hlevels ▸ hline)
      have hN : 0 < N := by
        have hfirst := (htol 0 (Nat.zero_le _)).2
        omega
      rw [hall.arrivals]
      refine ⟨List.prefix_rfl, Nat.le_succ _, hall.noError, fun _ => rfl, fun hlen => ?_⟩
      exact absurd hlen (Nat.mul_pos hN (Nat.succ_pos _)).ne
  | @byte line bytes b front back hline hsplit hfront hback =>
      obtain ⟨front, level, rfl⟩ := (List.eq_nil_or_concat front).resolve_left hfront
      rw [List.concat_eq_append] at hsplit hlevels
      rw [← List.append_assoc, List.dropLast_concat] at hlevels
      have hlen := congrArg List.length hsplit
      simp only [List.length_append, List.length_singleton, length_frame] at hlen
      have hback' := List.length_pos_of_ne_nil hback
      have hpre : front <+: frame N b := by
        have hwhole : front <+: frame N b ++ [true] :=
          ⟨[level] ++ back, by rw [← List.append_assoc, hsplit]⟩
        exact List.prefix_of_prefix_length_le hwhole (List.prefix_append _ _)
          (by rw [length_frame]; omega)
      -- the bytes in front of this one are through
      obtain ⟨early, late, rfl, hearly, hlate⟩ := List.map_eq_append_iff.mp hlevels
      have hdone : UartRx.Receives UartRx.Idle bytes s' early :=
        UartRx.receive_line hq hW htol hidle (fun i h => hrs i (List.mem_append_left _ h)) <| by
          rw [UartRx.levels, hearly]
          exact hline
      have hmore : UartRx.arrivals s' (early ++ late) =
          bytes ++ UartRx.arrivals (run UartRx.step s' early) late := by
        rw [UartRx.arrivals, emitted_append, ← UartRx.arrivals, hdone.arrivals]
        rfl
      obtain ⟨hfrontier, hnoError⟩ := UartRx.receive_prefix hq hW htol hidle hrs
        (hline.append (Carries.single N b))
        (hlevels ▸ (List.prefix_append_right_inj line).mpr hpre)
      refine ⟨hfrontier, ?_, hnoError, fun hnil => absurd hnil hback, fun hwhole => ?_⟩
      · rw [hmore]
        simp only [List.length_append, List.length_singleton]
        omega
      · have hnil : front = [] := List.eq_nil_of_length_eq_zero (by omega)
        rw [hnil, List.map_eq_nil_iff] at hlate
        rw [hmore, hlate, List.dropLast_concat]
        exact List.append_nil _

/-- The levels that the receiver sees, one cycle after another, are those that the transmitter has
registered. -/
theorem levels_eq (h : UartRx.levels rs = emitted UartTx.step (fun s _ => [s.txd]) s ts) :
    UartRx.levels rs = (UartTx.wire s ts).dropLast := by
  rw [h]
  clear h
  induction ts generalizing s with
  | nil => rfl
  | cons i ts ih =>
      rw [emitted_cons, ih]
      rfl

/-- A line delivers what a patient source hands over. -/
theorem delivers_of_levels (s₀ : UartTx.State W) (s₀' : UartRx.State W) {r : UartTx.Inputs W}
    {r' : UartRx.Inputs W} (hp : p ≠ 0) (hq : q ≠ 0) (hW : W + 2 < 16)
    (htol : UartRx.Tolerates q W (8 * p.toNat)) (hr : r.rst = true) (hr' : r'.rst = true)
    (hts : ∀ i ∈ ts, UartTx.Driven p i) (hrs : ∀ i ∈ rs, UartRx.Driven q i)
    (hpatient : Patient UartTx.step UartTx.offer UartTx.ready (UartTx.step s₀ r) ts)
    (hlevels : UartRx.levels rs = (UartTx.wire (UartTx.step s₀ r) ts).dropLast) :
    ∃ arrived, Delivers (UartTx.step s₀ r) ts (UartRx.step s₀' r') rs arrived := by
  obtain ⟨waiting, hbooks⟩ := UartTx.books_run (UartTx.ready_of_reset s₀ hr) hp hW hts hpatient
  have hinv := UartTx.inv_run (UartTx.inv_of_reset s₀ hr) hp hW hts
  have hidle : UartRx.Idle (UartRx.step s₀' r') := UartRx.idle_of_reset hr'
  obtain ⟨horder, hlen, hnoError, hrest, hwhole⟩ :=
    arrivals_of_sending hq hW htol hidle hrs hinv.sending hlevels
  have hkept := UartRx.kept_of_offered (s := UartRx.step s₀' r') hrs
  rw [UartRx.offered_of_reset hr', List.nil_append] at hkept
  have htaken (hready : ∀ i ∈ rs, i.mAxisTready = true) :=
    hkept.all (UartRx.overruns_of_ready (by simp [UartRx.step, hr']) hrs hready)
  refine ⟨UartRx.arrivals (UartRx.step s₀' r') rs, ?_⟩
  generalize UartTx.loaded (UartTx.step s₀ r) ts = bytes at hbooks horder hlen hrest hwhole
  cases hbooks with
  | settled _ =>
      exact ⟨horder, hlen, fun hvacant => hrest (UartTx.left_eq_nil hvacant), ⟨hkept, hnoError⟩,
        htaken⟩
  | pending b _ _ hvacant _ hlong =>
      have harr := hwhole hlong
      rw [List.dropLast_concat] at harr
      refine ⟨harr ▸ List.prefix_rfl, harr ▸ Nat.le_succ _, fun hcon => ?_, ⟨hkept, hnoError⟩,
        htaken⟩
      simp [hvacant] at hcon

end Line

/-! ## Two instances, wired to each other -/

structure Pair (W : ℕ) where
  a : State W
  b : State W
deriving Inhabited

/-- The inputs of one instance but for the line and the reset. -/
structure Port (W : ℕ) where
  sAxisTdata : BitVec W
  sAxisTvalid : Bool
  mAxisTready : Bool
  prescale : BitVec 16

structure PairInputs (W : ℕ) where
  rst : Bool
  a : Port W
  b : Port W

def Port.inputs (port : Port W) (rst rxd : Bool) : Inputs W :=
  ⟨rst, port.sAxisTdata, port.sAxisTvalid, port.mAxisTready, rxd, port.prescale⟩

def pairStep (l : Pair W) (i : PairInputs W) : Pair W where
  a := step l.a (i.a.inputs i.rst l.b.tx.txd)
  b := step l.b (i.b.inputs i.rst l.a.tx.txd)

/-- What the transmitter at a port sees. -/
def txInputs (port : PairInputs W → Port W) (i : PairInputs W) : UartTx.Inputs W :=
  ⟨i.rst, (port i).sAxisTdata, (port i).sAxisTvalid, (port i).prescale⟩

/-- What the receiver at a port sees of the transmitter on the other side. -/
def rxInputs (port : PairInputs W → Port W) (tx : Pair W → UartTx.State W) (l : Pair W)
    (i : PairInputs W) : UartRx.Inputs W :=
  ⟨i.rst, (port i).mAxisTready, (tx l).txd, (port i).prescale⟩

section Pairs

variable {p q : BitVec 16} {tx : Pair W → UartTx.State W} {rx : Pair W → UartRx.State W}
  {src dst : PairInputs W → Port W} {l : Pair W} {is : List (PairInputs W)}

/-- Neither side is reset, and the bit times stay as they are. -/
structure Running (p q : BitVec 16) (i : PairInputs W) : Prop where
  rst : i.rst = false
  a : i.a.prescale = p
  b : i.b.prescale = q

instance (i : PairInputs W) : Decidable (Running p q i) :=
  decidable_of_iff (i.rst = false ∧ i.a.prescale = p ∧ i.b.prescale = q)
    ⟨fun h => ⟨h.1, h.2.1, h.2.2⟩, fun h => ⟨h.rst, h.a, h.b⟩⟩

theorem run_rx (hrx : ∀ l i, rx (pairStep l i) = UartRx.step (rx l) (rxInputs dst tx l i)) :
    rx (run pairStep l is) =
      run UartRx.step (rx l) (emitted pairStep (fun l i => [rxInputs dst tx l i]) l is) := by
  induction is generalizing l with
  | nil => rfl
  | cons i is ih => rw [run_cons, ih, hrx, emitted_cons, List.singleton_append, run_cons]

theorem levels_pair (htx : ∀ l i, tx (pairStep l i) = UartTx.step (tx l) (txInputs src i)) :
    UartRx.levels (emitted pairStep (fun l i => [rxInputs dst tx l i]) l is) =
      emitted UartTx.step (fun s _ => [s.txd]) (tx l) (is.map (txInputs src)) := by
  induction is generalizing l with
  | nil => rfl
  | cons i is ih =>
      rw [emitted_cons, List.map_cons, emitted_cons, ← htx, ← ih]
      rfl

theorem driven_rx (hdst : ∀ i ∈ is, i.rst = false ∧ (dst i).prescale = q) :
    ∀ i ∈ emitted pairStep (fun l i => [rxInputs dst tx l i]) l is, UartRx.Driven q i := by
  induction is generalizing l with
  | nil => simp
  | cons i is ih =>
      intro j hj
      rw [emitted_cons, List.singleton_append, List.mem_cons] at hj
      rcases hj with rfl | hj
      · exact ⟨(hdst i (by simp)).1, (hdst i (by simp)).2⟩
      · exact ih (fun k hk => hdst k (by simp [hk])) j hj

/-- One of the two lines. -/
theorem delivers_pair (tx : Pair W → UartTx.State W) (rx : Pair W → UartRx.State W)
    (src dst : PairInputs W → Port W) (hp : p ≠ 0) (hq : q ≠ 0) (hW : W + 2 < 16)
    (htol : UartRx.Tolerates q W (8 * p.toNat)) {l₀ : Pair W} {r : PairInputs W}
    (hr : r.rst = true) (htx : ∀ l i, tx (pairStep l i) = UartTx.step (tx l) (txInputs src i))
    (hrx : ∀ l i, rx (pairStep l i) = UartRx.step (rx l) (rxInputs dst tx l i))
    (hsrc : ∀ i ∈ is, i.rst = false ∧ (src i).prescale = p)
    (hdst : ∀ i ∈ is, i.rst = false ∧ (dst i).prescale = q)
    (hpatient : Patient UartTx.step UartTx.offer UartTx.ready (tx (pairStep l₀ r))
      (is.map (txInputs src))) :
    ∃ arrived, Delivers (tx (pairStep l₀ r)) (is.map (txInputs src)) (rx (pairStep l₀ r))
      (emitted pairStep (fun l i => [rxInputs dst tx l i]) (pairStep l₀ r) is) arrived := by
  have hlevels : UartRx.levels (emitted pairStep (fun l i => [rxInputs dst tx l i])
      (pairStep l₀ r) is) = (UartTx.wire (tx (pairStep l₀ r)) (is.map (txInputs src))).dropLast :=
    levels_eq (levels_pair htx)
  have hts : ∀ i ∈ is.map (txInputs src), UartTx.Driven p i := by
    intro i hi
    obtain ⟨k, hk, rfl⟩ := List.mem_map.mp hi
    exact ⟨(hsrc k hk).1, (hsrc k hk).2⟩
  have hrs : ∀ i ∈ emitted pairStep (fun l i => [rxInputs dst tx l i]) (pairStep l₀ r) is,
      UartRx.Driven q i := driven_rx hdst
  rw [htx] at hlevels hpatient ⊢
  rw [hrx]
  exact delivers_of_levels (tx l₀) (rx l₀) hp hq hW htol hr hr hts hrs hpatient hlevels

end Pairs

/-- From reset, each of two instances receives what the source on the other side hands over. -/
theorem exchanges {p q : BitVec 16} (l₀ : Pair W) {r : PairInputs W} {is : List (PairInputs W)}
    (hp : p ≠ 0) (hq : q ≠ 0) (hW : W + 2 < 16) (hpq : UartRx.Tolerates q W (8 * p.toNat))
    (hqp : UartRx.Tolerates p W (8 * q.toNat)) (hr : r.rst = true)
    (hrun : ∀ i ∈ is, Running p q i)
    (ha : Patient UartTx.step UartTx.offer UartTx.ready (pairStep l₀ r).a.tx
      (is.map (txInputs PairInputs.a)))
    (hb : Patient UartTx.step UartTx.offer UartTx.ready (pairStep l₀ r).b.tx
      (is.map (txInputs PairInputs.b))) :
    (∃ arrived, Delivers (pairStep l₀ r).a.tx (is.map (txInputs PairInputs.a)) (pairStep l₀ r).b.rx
      (emitted pairStep (fun l i => [rxInputs PairInputs.b (fun l => l.a.tx) l i]) (pairStep l₀ r)
        is) arrived) ∧
    ∃ arrived, Delivers (pairStep l₀ r).b.tx (is.map (txInputs PairInputs.b)) (pairStep l₀ r).a.rx
      (emitted pairStep (fun l i => [rxInputs PairInputs.a (fun l => l.b.tx) l i]) (pairStep l₀ r)
        is) arrived := by
  have hsideA : ∀ i ∈ is, i.rst = false ∧ i.a.prescale = p := fun i hi =>
    ⟨(hrun i hi).rst, (hrun i hi).a⟩
  have hsideB : ∀ i ∈ is, i.rst = false ∧ i.b.prescale = q := fun i hi =>
    ⟨(hrun i hi).rst, (hrun i hi).b⟩
  constructor
  · exact delivers_pair (fun l => l.a.tx) (fun l => l.b.rx) PairInputs.a PairInputs.b hp hq hW hpq hr
      (fun _ _ => rfl) (fun _ _ => rfl) hsideA hsideB ha
  · exact delivers_pair (fun l => l.b.tx) (fun l => l.a.rx) PairInputs.b PairInputs.a hq hp hW hqp hr
      (fun _ _ => rfl) (fun _ _ => rfl) hsideB hsideA hb

/-- A cycle in which both sides offer a byte, or none. -/
def pairCycle (rst valid : Bool) : PairInputs 8 := ⟨rst, ⟨0x5a, valid, true, 1⟩, ⟨0xc3, valid, true, 1⟩⟩

/-- Both sides send a byte at a time. -/
theorem exchanges_one :
    let is := List.replicate 2 (pairCycle false true) ++ List.replicate 82 (pairCycle false false)
    let l := pairStep default (pairCycle true false)
    (∃ arrived, Delivers l.a.tx (is.map (txInputs PairInputs.a)) l.b.rx
      (emitted pairStep (fun l i => [rxInputs PairInputs.b (fun l => l.a.tx) l i]) l is) arrived) ∧
    ∃ arrived, Delivers l.b.tx (is.map (txInputs PairInputs.b)) l.a.rx
      (emitted pairStep (fun l i => [rxInputs PairInputs.a (fun l => l.b.tx) l i]) l is) arrived :=
  have hone : (1 : BitVec 16) ≠ 0 := by decide
  exchanges default hone hone (by decide) (UartRx.tolerates_self hone) (UartRx.tolerates_self hone)
    rfl (by decide +kernel) (by decide +kernel) (by decide +kernel)

end MiscVerilogCores.Uart
