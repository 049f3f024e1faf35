import MiscVerilogCores.Library.Clocked
import MiscVerilogCores.Model.AxisAdapter

/-! # Collecting the segments of a word

The stream of narrow beats is cut into groups; each group is delivered as one wide word, in which the
segments that the group does not reach have no `tkeep` bits. -/

namespace MiscVerilogCores.AxisAdapter

open Segments

variable {n w k : ℕ} {U : Type}

/-- A wide word that holds a group of narrow beats. -/
structure Packs (word : Beat (n * w) (n * k) U) (group : List (Beat w k U)) : Prop where
  data : ∀ j x, group[j]? = some x → segment w word.tdata j = x.tdata
  keep : ∀ j x, group[j]? = some x → segment k word.tkeep j = x.tkeep
  rest : ∀ j, group.length ≤ j → segment k word.tkeep j = 0
  last : ∀ x ∈ group.getLast?, word.tlast = x.tlast ∧ word.user = x.user

namespace Upsize

open Clocked

/-- The beats that are accepted on the narrow port. -/
def accepted (s : State n w k U) (is : List (Inputs w k U)) : List (Beat w k U) :=
  emitted step (fun s i => if i.sAxisTvalid && sAxisTready s then [i.sAxis] else []) s is

/-- The words that are delivered on the wide port. -/
def delivered (s : State n w k U) (is : List (Inputs w k U)) : List (Beat (n * w) (n * k) U) :=
  emitted step (fun s i => if s.mAxisTvalid && i.mAxisTready then [s.mAxis] else []) s is

/-- The output register holds the front of a group; what is behind the next segment is empty. -/
structure Collects (s : State n w k U) (group : List (Beat w k U)) : Prop where
  seg : s.seg = group.length
  data : ∀ j x, group[j]? = some x → segment w s.mAxis.tdata j = x.tdata
  keep : ∀ j x, group[j]? = some x → segment k s.mAxis.tkeep j = x.tkeep
  rest : group ≠ [] → ∀ j, group.length < j → segment k s.mAxis.tkeep j = 0

section Edges

variable {s : State n w k U} {i : Inputs w k U} {group : List (Beat w k U)} {x : Beat w k U}

/-- The beat that goes into the output register. -/
def source (s : State n w k U) (i : Inputs w k U) : Beat w k U :=
  if s.sAxisTvalid then s.sAxis else i.sAxis

theorem segment_room {j m : ℕ} (hj : j < m) (v : ℕ) : j * v + v ≤ m * v := by
  rw [← Nat.succ_mul]
  exact Nat.mul_le_mul_right v hj

/-- The register with one more segment written. -/
theorem Collects.write (h : Collects s group) (hroom : group.length < n)
    (hskid : s.sAxisTvalid = true → s.seg = 0) :
    (∀ j, segment w (collected s i).tdata j =
      if j = group.length then (source s i).tdata else segment w s.mAxis.tdata j) ∧
    (∀ j, segment k (collected s i).tkeep j =
      if j = group.length then (source s i).tkeep
      else if group = [] then 0 else segment k s.mAxis.tkeep j) ∧
    (collected s i).tlast = (source s i).tlast ∧ (collected s i).user = (source s i).user := by
  have hdata : ∀ y : BitVec w, ∀ j, segment w (setSegment s.mAxis.tdata s.seg y) j =
      if j = group.length then y else segment w s.mAxis.tdata j := by
    intro y j
    rw [h.seg]
    by_cases hj : j = group.length
    · rw [if_pos hj, hj, segment_setSegment _ _ (segment_room hroom w)]
    · rw [if_neg hj, segment_setSegment_of_ne _ _ hj]
  by_cases hzero : s.seg = 0
  · have hnil : group = [] := List.eq_nil_of_length_eq_zero (h.seg ▸ hzero)
    have hcollected : collected s i =
        { tdata := setSegment s.mAxis.tdata s.seg (source s i).tdata
          tkeep := (source s i).tkeep.setWidth (n * k)
          tlast := (source s i).tlast
          user := (source s i).user } := by
      simp only [collected, if_pos hzero]
      rfl
    rw [hcollected]
    refine ⟨hdata _, fun j => ?_, rfl, rfl⟩
    rw [hnil] at hroom ⊢
    cases j with
    | zero =>
        have hwide : k ≤ n * k := by simpa using segment_room hroom k
        rw [segment_setWidth_zero _ hwide]
        rfl
    | succ j =>
        rw [segment_setWidth_succ]
        simp
  · have hne : group ≠ [] := fun hnil => hzero (by rw [h.seg, hnil]; rfl)
    have hvalid : s.sAxisTvalid = false := by
      by_contra hcon
      exact hzero (hskid (by simpa using hcon))
    have hsource : source s i = i.sAxis := by simp [source, hvalid]
    have hcollected : collected s i =
        { tdata := setSegment s.mAxis.tdata s.seg (source s i).tdata
          tkeep := setSegment s.mAxis.tkeep s.seg (source s i).tkeep
          tlast := (source s i).tlast
          user := (source s i).user } := by
      simp [collected, hzero, hsource, hvalid]
    rw [hcollected]
    refine ⟨hdata _, fun j => ?_, rfl, rfl⟩
    rw [if_neg hne, h.seg]
    by_cases hj : j = group.length
    · rw [if_pos hj, hj, segment_setSegment _ _ (segment_room hroom k)]
    · rw [if_neg hj, segment_setSegment_of_ne _ _ hj]

/-- The group with the beat behind it is in the register. -/
theorem Collects.packs (h : Collects s group) (hroom : group.length < n)
    (hskid : s.sAxisTvalid = true → s.seg = 0) :
    Packs (collected s i) (group ++ [source s i]) := by
  obtain ⟨hdata, hkeep, hlast, huser⟩ := h.write hroom hskid (i := i)
  have hitem (j : ℕ) (x : Beat w k U) (hx : (group ++ [source s i])[j]? = some x) :
      group[j]? = some x ∧ j ≠ group.length ∧ group ≠ [] ∨ j = group.length ∧ x = source s i := by
    by_cases hj : j < group.length
    · rw [List.getElem?_append_left hj] at hx
      exact Or.inl ⟨hx, hj.ne, List.ne_nil_of_length_pos (Nat.zero_lt_of_lt hj)⟩
    · rw [List.getElem?_append_right (Nat.le_of_not_lt hj)] at hx
      rw [List.getElem?_singleton] at hx
      split at hx
      · exact Or.inr ⟨by omega, (Option.some.inj hx).symm⟩
      · cases hx
  refine ⟨fun j x hx => ?_, fun j x hx => ?_, fun j hj => ?_, fun x hx => ?_⟩
  · rw [hdata]
    rcases hitem j x hx with ⟨hold, hne, -⟩ | ⟨hj, rfl⟩
    · rw [if_neg hne, h.data j x hold]
    · rw [if_pos hj]
  · rw [hkeep]
    rcases hitem j x hx with ⟨hold, hne, hgroup⟩ | ⟨hj, rfl⟩
    · rw [if_neg hne, if_neg hgroup, h.keep j x hold]
    · rw [if_pos hj]
  · rw [List.length_append, List.length_singleton] at hj
    rw [hkeep, if_neg (by omega)]
    by_cases hgroup : group = []
    · rw [if_pos hgroup]
    · rw [if_neg hgroup, h.rest hgroup j (by omega)]
  · rw [List.getLast?_concat, Option.mem_some_iff] at hx
    rw [← hx]
    exact ⟨hlast, huser⟩

/-- What happens to the register while no beat comes. -/
theorem Collects.junk (h : Collects s group) (hroom : group.length < n)
    (hskid : s.sAxisTvalid = true → s.seg = 0) {s' : State n w k U} (hseg : s'.seg = s.seg)
    (hmAxis : s'.mAxis = collected s i) : Collects s' group := by
  obtain ⟨hdata, hkeep, -, -⟩ := h.write hroom hskid (i := i)
  have hlt (j : ℕ) (x : Beat w k U) (hx : group[j]? = some x) : j < group.length :=
    (List.getElem?_eq_some_iff.mp hx).1
  refine ⟨hseg.trans h.seg, fun j x hx => ?_, fun j x hx => ?_, fun hne j hj => ?_⟩
  · rw [hmAxis, hdata, if_neg (hlt j x hx).ne, h.data j x hx]
  · have hne : group ≠ [] := List.ne_nil_of_length_pos (Nat.zero_lt_of_lt (hlt j x hx))
    rw [hmAxis, hkeep, if_neg (hlt j x hx).ne, if_neg hne, h.keep j x hx]
  · rw [hmAxis, hkeep, if_neg hj.ne', if_neg hne, h.rest hne j hj]

theorem collects_nil {s : State n w k U} (hseg : s.seg = 0) :
    Collects s ([] : List (Beat w k U)) :=
  ⟨hseg, by simp, by simp, fun h => absurd rfl h⟩

theorem collects_of_packs (h : Packs s.mAxis group) (hseg : s.seg = group.length) : Collects s group :=
  ⟨hseg, h.data, h.keep, fun _ j hj => h.rest j hj.le⟩

end Edges

/-! ## Phases -/

section Phases

variable {s : State n w k U} {i : Inputs w k U} {beats : List (Beat w k U)}
  {words : List (Beat (n * w) (n * k) U)}

/-- The groups of a stream of beats. -/
def grouped (n : ℕ) (beats : List (Beat w k U)) : Groups (Beat w k U) := groups n Beat.tlast beats

/-- What has been delivered and what the registers hold make up what has been accepted. -/
inductive Phase (s : State n w k U) (words : List (Beat (n * w) (n * k) U)) :
    List (Beat w k U) → Prop
  | collecting {beats : List (Beat w k U)} (hm : s.mAxisTvalid = false)
      (hs : s.sAxisTvalid = false) (hwords : List.Forall₂ Packs words (grouped n beats).done)
      (hcurrent : Collects s (grouped n beats).current) : Phase s words beats
  | full {beats group : List (Beat w k U)} {front : List (List (Beat w k U))}
      (hm : s.mAxisTvalid = true) (hs : s.sAxisTvalid = false) (hseg : s.seg = 0)
      (hgroups : grouped n beats = ⟨front ++ [group], []⟩)
      (hwords : List.Forall₂ Packs words front) (hpacks : Packs s.mAxis group) :
      Phase s words beats
  | blocked {beats group : List (Beat w k U)} {front : List (List (Beat w k U))}
      (hm : s.mAxisTvalid = true) (hs : s.sAxisTvalid = true) (hseg : s.seg = 0)
      (hgroups : grouped n beats = ⟨front ++ [group], []⟩)
      (hwords : List.Forall₂ Packs words front) (hpacks : Packs s.mAxis group) :
      Phase s words (beats ++ [s.sAxis])

/-- The output register is free for the next beat. -/
structure Free (s : State n w k U) (words : List (Beat (n * w) (n * k) U))
    (beats : List (Beat w k U)) : Prop where
  words : List.Forall₂ Packs words (grouped n beats).done
  current : Collects s (grouped n beats).current
  skid : s.sAxisTvalid = true → s.seg = 0

theorem current_room (hn : 0 < n) (beats : List (Beat w k U)) :
    (grouped n beats).current.length < n :=
  (cuts_groups hn beats).room

/-- The beat that comes fills the word, or goes into the next segment. -/
theorem Free.take (h : Free s words beats) (hn : 0 < n) {s' : State n w k U}
    (hs : s'.sAxisTvalid = false) (hmAxis : s'.mAxis = collected s i)
    (hadvance : (s'.seg, s'.mAxisTvalid) = advance s (source s i).tlast) :
    Phase s' words (beats ++ [source s i]) := by
  have hroom := current_room hn beats
  have hpacks : Packs s'.mAxis ((grouped n beats).current ++ [source s i]) := by
    rw [hmAxis]
    exact h.current.packs hroom h.skid
  have hends : ((source s i).tlast || s.seg == n - 1) =
      ((source s i).tlast || (grouped n beats).current.length + 1 == n) := by
    rw [h.current.seg]
    congr 1
    rw [Bool.eq_iff_iff, beq_iff_eq, beq_iff_eq]
    omega
  have hgroups : grouped n (beats ++ [source s i]) =
      (grouped n beats).push n Beat.tlast (source s i) := groups_concat n Beat.tlast beats _
  by_cases hfull : (source s i).tlast || (grouped n beats).current.length + 1 == n
  · rw [advance, hends, if_pos hfull] at hadvance
    rw [Groups.push, if_pos hfull] at hgroups
    exact .full (congrArg Prod.snd hadvance) hs (congrArg Prod.fst hadvance) hgroups h.words hpacks
  · rw [advance, hends, if_neg hfull] at hadvance
    rw [Groups.push, if_neg hfull] at hgroups
    refine .collecting (congrArg Prod.snd hadvance) hs (by rw [hgroups]; exact h.words) ?_
    rw [hgroups]
    refine collects_of_packs hpacks ?_
    rw [List.length_append, List.length_singleton, ← h.current.seg]
    exact congrArg Prod.fst hadvance

/-- One edge at which the output register is free. -/
theorem Free.next (h : Free s words beats) (hn : 0 < n) (hr : i.rst = false)
    (hfree : (!s.mAxisTvalid || i.mAxisTready) = true) :
    Phase (step s i) words (beats ++ (if s.sAxisTvalid then [s.sAxis] else []) ++
      if i.sAxisTvalid && sAxisTready s then [i.sAxis] else []) := by
  cases hs : s.sAxisTvalid with
  | true =>
      have hsource : source s i = s.sAxis := by simp [source, hs]
      have hstep : step s i = { s with
          sAxisTvalid := false, mAxis := collected s i, seg := (advance s s.sAxis.tlast).1,
          mAxisTvalid := (advance s s.sAxis.tlast).2 } := by
        simp [step, hr, hfree, hs]
      have htake : Phase (step s i) words (beats ++ [source s i]) :=
        h.take hn (by rw [hstep]) (by rw [hstep]) (by rw [hstep, hsource])
      simpa [sAxisTready, hs, hsource] using htake
  | false =>
      cases hi : i.sAxisTvalid with
      | true =>
          have hsource : source s i = i.sAxis := by simp [source, hs]
          have hstep : step s i = { s with
              mAxis := collected s i, seg := (advance s i.sAxis.tlast).1,
              mAxisTvalid := (advance s i.sAxis.tlast).2 } := by
            simp [step, hr, hfree, hs, hi]
          have htake : Phase (step s i) words (beats ++ [source s i]) :=
            h.take hn (by rw [hstep]; exact hs) (by rw [hstep]) (by rw [hstep, hsource])
          simpa [sAxisTready, hs, hsource] using htake
      | false =>
          have hstep : step s i = { s with mAxis := collected s i, mAxisTvalid := false } := by
            simp [step, hr, hfree, hs, hi]
          simp only [Bool.false_and, Bool.false_eq_true, if_false, List.append_nil]
          refine .collecting (by rw [hstep]) (by rw [hstep]; exact hs) h.words ?_
          exact h.current.junk (i := i) (current_room hn beats) h.skid (by rw [hstep])
            (by rw [hstep])

theorem Phase.next (h : Phase s words beats) (hn : 0 < n) (hr : i.rst = false) :
    Phase (step s i) (words ++ if s.mAxisTvalid && i.mAxisTready then [s.mAxis] else [])
      (beats ++ if i.sAxisTvalid && sAxisTready s then [i.sAxis] else []) := by
  cases h with
  | collecting hm hs hwords hcurrent =>
      have hfree : Free s words beats := ⟨hwords, hcurrent, fun h => absurd h (by simp [hs])⟩
      simpa [hm, hs] using hfree.next hn hr (by simp [hm])
  | @full _ group front hm hs hseg hgroups hwords hpacks =>
      cases hready : i.mAxisTready with
      | true =>
          have hfree : Free s (words ++ [s.mAxis]) beats := by
            refine ⟨?_, ?_, fun _ => hseg⟩
            · rw [hgroups]
              exact List.rel_append hwords (.cons hpacks .nil)
            · rw [hgroups]
              exact collects_nil hseg
          simpa [hm, hs] using hfree.next hn hr (by simp [hready])
      | false =>
          cases hi : i.sAxisTvalid with
          | true =>
              have hstep : step s i = { s with sAxis := i.sAxis, sAxisTvalid := true } := by
                simp [step, hr, hm, hready, hi, sAxisTready, hs]
              have hblocked : Phase (step s i) words (beats ++ [(step s i).sAxis]) :=
                .blocked (by rw [hstep]; exact hm) (by rw [hstep]) (by rw [hstep]; exact hseg)
                  hgroups hwords (by rw [hstep]; exact hpacks)
              rw [hstep] at hblocked ⊢
              simpa [sAxisTready, hs] using hblocked
          | false =>
              have hstep : step s i = s := by
                simp [step, hr, hm, hready, hi]
              rw [hstep]
              simpa using Phase.full hm hs hseg hgroups hwords hpacks
  | @blocked beats group front hm hs hseg hgroups hwords hpacks =>
      cases hready : i.mAxisTready with
      | true =>
          have hfree : Free s (words ++ [s.mAxis]) beats := by
            refine ⟨?_, ?_, fun _ => hseg⟩
            · rw [hgroups]
              exact List.rel_append hwords (.cons hpacks .nil)
            · rw [hgroups]
              exact collects_nil hseg
          simpa [hm, hs] using hfree.next hn hr (by simp [hready])
      | false =>
          have hstep : step s i = s := by
            simp [step, hr, hm, hready, sAxisTready, hs]
          rw [hstep]
          simpa [sAxisTready, hs] using Phase.blocked hm hs hseg hgroups hwords hpacks

end Phases

/-! ## Runs -/

/-- A word that is offered and not taken is offered again. -/
def Held (s : State n w k U) (i : Inputs w k U) : Prop :=
  s.mAxisTvalid = true → i.mAxisTready = false →
    (step s i).mAxisTvalid = true ∧ (step s i).mAxis = s.mAxis

/-- The groups are delivered as words, in order; at most two that are complete are under way. -/
structure Upsizes (s : State n w k U) (is : List (Inputs w k U)) : Prop where
  words : List.Forall₂ Packs (delivered s is)
    ((grouped n (accepted s is)).done.take (delivered s is).length)
  underway : (grouped n (accepted s is)).done.length ≤ (delivered s is).length + 2
  held : Along step Held s is

section Runs

variable {s : State n w k U} {is : List (Inputs w k U)} {beats : List (Beat w k U)}
  {words : List (Beat (n * w) (n * k) U)}

theorem held {i : Inputs w k U} (hr : i.rst = false) : Held s i := by
  intro hm hready
  by_cases hi : i.sAxisTvalid && sAxisTready s
  · simp [step, hr, hm, hready, hi]
  · simp [step, hr, hm, hready, hi]

theorem done_push (g : Groups (Beat w k U)) (x : Beat w k U) :
    g.done <+: (g.push n Beat.tlast x).done ∧
      (g.push n Beat.tlast x).done.length ≤ g.done.length + 1 := by
  rw [Groups.push]
  split <;> simp

/-- In each phase the words are those of the first groups. -/
theorem Phase.delivers (h : Phase s words beats) :
    List.Forall₂ Packs words ((grouped n beats).done.take words.length) ∧
      (grouped n beats).done.length ≤ words.length + 2 := by
  have hfront {front : List (List (Beat w k U))} {group : List (Beat w k U)}
      {all : List (List (Beat w k U))} (hwords : List.Forall₂ Packs words front)
      (hall : front ++ [group] <+: all) : List.Forall₂ Packs words (all.take words.length) := by
    obtain ⟨more, rfl⟩ := hall
    rw [hwords.length_eq, List.append_assoc, List.take_left]
    exact hwords
  cases h with
  | collecting _ _ hwords _ =>
      have hlen := hwords.length_eq
      rw [hlen, List.take_length]
      exact ⟨hwords, by omega⟩
  | full _ _ _ hgroups hwords _ =>
      have hlen := hwords.length_eq
      rw [hgroups]
      refine ⟨hfront hwords List.prefix_rfl, ?_⟩
      rw [List.length_append, List.length_singleton]
      omega
  | blocked _ _ _ hgroups hwords _ =>
      have hlen := hwords.length_eq
      obtain ⟨hpre, hmore⟩ := done_push (n := n) (grouped n _) s.sAxis
      rw [hgroups, List.length_append, List.length_singleton] at hmore
      rw [hgroups] at hpre
      rw [grouped, groups_concat]
      rw [grouped] at hgroups
      rw [hgroups]
      exact ⟨hfront hwords hpre, by omega⟩

theorem phase_run (h : Phase s [] []) (hn : 0 < n) (hi : ∀ i ∈ is, i.rst = false) :
    Phase (run step s is) (delivered s is) (accepted s is) :=
  run_ledger (fun s beats words => Phase s words beats)
    (fun _ _ _ _ h hi => h.next hn hi) h (along_of_inputs step s hi)

theorem phase_of_reset (s₀ : State n w k U) {r : Inputs w k U} (hr : r.rst = true) :
    Phase (step s₀ r) [] [] := by
  have hstep : (step s₀ r).mAxisTvalid = false ∧ (step s₀ r).sAxisTvalid = false ∧
      (step s₀ r).seg = 0 := by simp [step, hr]
  exact .collecting hstep.1 hstep.2.1 .nil (collects_nil hstep.2.2)

end Runs

/-- From reset, beats are collected into words, however the ports are stalled. -/
theorem upsizes (s₀ : State n w k U) {r : Inputs w k U} {is : List (Inputs w k U)} (hn : 0 < n)
    (hr : r.rst = true) (hi : ∀ i ∈ is, i.rst = false) : Upsizes (step s₀ r) is := by
  obtain ⟨hwords, hunderway⟩ := (phase_run (phase_of_reset s₀ hr) hn hi).delivers
  exact ⟨hwords, hunderway, (along_of_inputs step _ hi).mono fun _ _ hr => held hr⟩

/-- A cycle in which the other side is ready. -/
def cycleInputs (rst valid last : Bool) (data : BitVec 8) : Inputs 8 1 Unit :=
  ⟨rst, ⟨data, 1, last, ()⟩, valid, true⟩

/-- A frame of three beats, on its way into words of two. -/
def frameOfThree : List (Inputs 8 1 Unit) :=
  [cycleInputs false true false 0x11, cycleInputs false true false 0x22,
    cycleInputs false true true 0x33, cycleInputs false false false 0]

theorem upsizes_three :
    let s : State 2 8 1 Unit := step default (cycleInputs true false false 0)
    delivered s frameOfThree = [⟨0x2211, 3, false, ()⟩, ⟨0x2233, 1, true, ()⟩] ∧
      Upsizes s frameOfThree :=
  ⟨by decide, upsizes default (by decide) rfl (by decide)⟩

end Upsize

end MiscVerilogCores.AxisAdapter
