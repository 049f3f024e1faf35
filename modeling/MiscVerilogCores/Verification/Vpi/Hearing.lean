import MiscVerilogCores.Verification.Usb.HostTokens
import MiscVerilogCores.Verification.Usb.Reports
import MiscVerilogCores.Verification.Vpi.Sending
import Mathlib.Data.List.Forall2

/-! # The decoder on the bus of the host model

What the core hears of the packets that the host model puts onto the bus. -/

namespace MiscVerilogCores.VpiUsb

open Clocked

/-- What the core samples of the bus. A line that nobody drives may have any level. -/
structure Sampled (bus : UlpiBus) (i : UlpiDecoder.Inputs) : Prop where
  reset : i.reset = false
  dir : i.ulpiDir = (bus.dir == .sig1)
  nxt : i.ulpiNxt = (bus.nxt == .sig1)
  data : bus.data.b = 0 → i.ulpiData = bus.data.a

section Sampled

variable {bus : UlpiBus} {i : UlpiDecoder.Inputs} {buses : List UlpiBus}
  {is : List UlpiDecoder.Inputs} {s : UlpiDecoder.State} {bytes : List (BitVec 8)}

theorem forall₂_append_left {α β : Type*} {R : α → β → Prop} {l l' : List α} {m : List β}
    (h : List.Forall₂ R (l ++ l') m) :
    ∃ k k', m = k ++ k' ∧ List.Forall₂ R l k ∧ List.Forall₂ R l' k' := by
  induction l generalizing m with
  | nil => exact ⟨[], m, rfl, .nil, h⟩
  | cons a l ih =>
      obtain ⟨b, m, hab, hrest, rfl⟩ := List.forall₂_cons_left_iff.mp h
      obtain ⟨k, k', rfl, hk, hk'⟩ := ih hrest
      exact ⟨b :: k, k', rfl, .cons hab hk, hk'⟩

theorem Carried.receiving (h : Carried bus) (hi : Sampled bus i) : UlpiDecoder.Receiving i := by
  refine ⟨hi.reset, by simp [hi.dir, h.dir], fun hnxt => ?_⟩
  rcases h.active with hone | ⟨-, hactive⟩
  · simp [hi.nxt, hone] at hnxt
  · rw [hi.data h.known, hactive]
    rfl

theorem bytes_of_carried (hcarried : ∀ bus ∈ buses, Carried bus)
    (hi : List.Forall₂ Sampled buses is) :
    (∀ i ∈ is, UlpiDecoder.Receiving i) ∧ UlpiDecoder.bytes is = busBytes buses := by
  induction hi with
  | nil => exact ⟨by simp, rfl⟩
  | @cons bus i buses is hone _ ih =>
      obtain ⟨hbus, hbuses⟩ := List.forall_mem_cons.mp hcarried
      obtain ⟨hreceiving, hbytes⟩ := ih hbuses
      refine ⟨List.forall_mem_cons.mpr ⟨hbus.receiving hone, hreceiving⟩, ?_⟩
      rw [← List.singleton_append, ← List.singleton_append (l := buses), UlpiDecoder.bytes_append,
        busBytes_append, hbytes]
      have hnxt := hone.nxt
      cases hn : i.ulpiNxt <;>
        simp_all [UlpiDecoder.bytes, busBytes, hone.data hbus.known]

/-- No packet begins while no byte is handed over. -/
theorem along_quiet (hquiet : ∀ bus ∈ buses, bus.nxt = .sig0) (hi : List.Forall₂ Sampled buses is)
    (s : UlpiDecoder.State) :
    Along UlpiDecoder.step (fun s i => UlpiDecoder.pidVldW s i = false) s is := by
  induction hi generalizing s with
  | nil => trivial
  | @cons bus i buses is hone _ ih =>
      obtain ⟨hbus, hbuses⟩ := List.forall_mem_cons.mp hquiet
      refine ⟨?_, ih hbuses _⟩
      simp [UlpiDecoder.pidVldW, hone.nxt, hbus]

/-- In front of a packet the bus is turned around, which the decoder does not take for a byte. -/
theorem along_turn {idle turn : UlpiBus} {gap : List UlpiBus} (hidle : idle.dir = .sig0)
    (hturn : turn.dir = .sig1) (hgap : ∀ bus ∈ gap, bus.dir = .sig1 ∧ bus.nxt = .sig0)
    (hi : List.Forall₂ Sampled (idle :: turn :: gap) is) (s : UlpiDecoder.State) :
    Along UlpiDecoder.step (fun s i => UlpiDecoder.pidVldW s i = false) s is ∧
      (run UlpiDecoder.step s is).dirQ = true := by
  obtain ⟨i, _, hfirst, hrest, rfl⟩ := List.forall₂_cons_left_iff.mp hi
  obtain ⟨j, is, hsecond, hgaps, rfl⟩ := List.forall₂_cons_left_iff.mp hrest
  have hdir : ∀ s : UlpiDecoder.State, s.dirQ = true → (run UlpiDecoder.step s is).dirQ = true := by
    intro s hs
    clear hi hrest
    induction hgaps generalizing s with
    | nil => exact hs
    | @cons bus i buses is hone _ ih =>
        obtain ⟨hbus, hbuses⟩ := List.forall_mem_cons.mp hgap
        exact ih hbuses _ (by simp [UlpiDecoder.step, hone.dir, hbus.1])
  refine ⟨⟨?_, ?_, along_quiet (fun bus hbus => (hgap bus hbus).2) hgaps _⟩, hdir _ ?_⟩
  · simp [UlpiDecoder.pidVldW, hfirst.dir, hidle]
  · simp [UlpiDecoder.pidVldW, UlpiDecoder.step, hfirst.dir, hidle]
  · simp [UlpiDecoder.step, hsecond.dir, hturn]

/-- The cycles of a packet on the bus, for a decoder between packets. -/
theorem PacketBuses.heard (h : PacketBuses bytes buses) (hi : List.Forall₂ Sampled buses is)
    (hs : UlpiDecoder.Hunting s) :
    ∃ s' mid last, UlpiDecoder.Start s' ∧ UlpiDecoder.Clean s' ∧
      (∀ i ∈ mid, UlpiDecoder.Receiving i) ∧ UlpiDecoder.Ending last ∧
      UlpiDecoder.bytes mid = bytes ∧
      UlpiDecoder.reported s is = UlpiDecoder.reported s' (mid ++ [last]) ∧
      UlpiDecoder.Hunting (run UlpiDecoder.step s is) := by
  obtain ⟨idle, turn, gap, mid, command, rest, rfl, hidle, hturn, hgap, hmid, rfl, hcommand, hrest⟩ :=
    h.split
  obtain ⟨_, _, rfl, hfront, htail⟩ := forall₂_append_left hi
  obtain ⟨start, mid, rfl, hstart, hmids⟩ := forall₂_append_left hfront
  obtain ⟨last, rest, hlast, hrests, rfl⟩ := List.forall₂_cons_left_iff.mp htail
  obtain ⟨hquiet, hdir⟩ := along_turn hidle hturn hgap hstart s
  obtain ⟨hnone, hhunting⟩ := hs.reported_gap hquiet
  obtain ⟨hreceiving, hbytes⟩ := bytes_of_carried hmid hmids
  have hending : UlpiDecoder.Ending last := by
    refine ⟨hlast.reset, by simp [hlast.nxt, hcommand.2.1], fun _ => ?_⟩
    rw [hlast.data (by rw [hcommand.2.2]), hcommand.2.2]
    decide
  have hafter : UlpiDecoder.Hunting
      (UlpiDecoder.step (run UlpiDecoder.step s (start ++ mid)) last) := hending.hunting
  obtain ⟨hnone', hhunting'⟩ := hafter.reported_gap (along_quiet hrest hrests _)
  refine ⟨run UlpiDecoder.step s start, mid, last, ⟨hhunting.cyc, hdir⟩, fun _ => hhunting,
    hreceiving, hending, hbytes, ?_, ?_⟩
  · rw [UlpiDecoder.reported_append, UlpiDecoder.reported_append, hnone, List.nil_append,
      UlpiDecoder.reported_append, UlpiDecoder.reported_cons, hnone', UlpiDecoder.reported_cons,
      run_append]
    rfl
  · rw [run_append]
    exact hhunting'

end Sampled

end MiscVerilogCores.VpiUsb
