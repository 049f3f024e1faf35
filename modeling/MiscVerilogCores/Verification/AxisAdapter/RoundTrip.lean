import MiscVerilogCores.Verification.AxisAdapter.Downsizing
import MiscVerilogCores.Verification.AxisAdapter.Upsizing

/-! # There and back

A stream of narrow beats that is collected into wide words, and taken apart again, is the same stream:
its data, its `tkeep` bits and its frames. -/

namespace MiscVerilogCores.AxisAdapter

open Clocked Segments

variable {n w k : ℕ} {U : Type}

/-- A beat without what goes along with it. -/
def lanes {d k : ℕ} (b : Beat d k U) : BitVec d × BitVec k × Bool := (b.tdata, b.tkeep, b.tlast)

section Words

variable {word : Beat (n * w) (n * k) U} {group : List (Beat w k U)}

theorem Packs.shift {x y : Beat w k U} (h : Packs word (x :: y :: group)) :
    Packs (Downsize.shifted word) (y :: group) := by
  refine ⟨fun j z hz => ?_, fun j z hz => ?_, fun j hj => ?_, fun z hz => ?_⟩
  · rw [← h.data (j + 1) z hz]
    exact segment_shiftRight _ _
  · rw [← h.keep (j + 1) z hz]
    exact segment_shiftRight _ _
  · rw [← h.rest (j + 1) (Nat.succ_le_succ hj)]
    exact segment_shiftRight _ _
  · exact h.last z (by rwa [List.getLast?_cons_cons])

/-- A word that holds a group is taken apart into that group, if the last beat of it has `tkeep` bits. -/
theorem Packs.unpackTo (hk : 0 < k) {m : ℕ} (h : Packs word group) (hlen : group.length ≤ m)
    (hne : group ≠ []) (hinner : ∀ x ∈ group.dropLast, x.tlast = false)
    (hkeep : ∀ x ∈ group.getLast?, x.tkeep ≠ 0) :
    (Downsize.unpackTo m word).map lanes = group.map lanes := by
  induction group generalizing m word with
  | nil => exact absurd rfl hne
  | cons x group ih =>
      obtain ⟨m, rfl⟩ : ∃ m', m = m' + 1 := ⟨m - 1, by simp at hlen; omega⟩
      have hdata : word.tdata.setWidth w = x.tdata := by
        rw [setWidth_eq_segment]
        exact h.data 0 x rfl
      have hlow : word.tkeep.setWidth k = x.tkeep := by
        rw [setWidth_eq_segment]
        exact h.keep 0 x rfl
      cases group with
      | nil =>
          have hzero : word.tkeep >>> k = 0 := by
            rw [shiftRight_eq_zero_iff _ hk]
            exact fun j => h.rest (j + 1) (by simp)
          have hlast : word.tlast = x.tlast := (h.last x rfl).1
          simp [Downsize.unpackTo, Downsize.lowest, lanes, hzero, hdata, hlow, hlast]
      | cons y group =>
          have hzero : ¬word.tkeep >>> k = 0 := by
            rw [shiftRight_eq_zero_iff _ hk]
            intro hall
            have hend : (x :: y :: group)[group.length + 1]? = (x :: y :: group).getLast? := by
              rw [List.getLast?_eq_getElem?]
              rfl
            obtain ⟨z, hz⟩ : ∃ z, (x :: y :: group).getLast? = some z :=
              Option.isSome_iff_exists.mp (by simp)
            exact hkeep z hz ((h.keep (group.length + 1) z (hend.trans hz)).symm.trans (hall _))
          have hinside : x.tlast = false := hinner x (by simp)
          have hrest : (Downsize.unpackTo m (Downsize.shifted word)).map lanes =
              (y :: group).map lanes :=
            ih h.shift (by simpa using hlen) (List.cons_ne_nil _ _)
              (fun z hz => hinner z (by
                rw [List.dropLast_cons_of_ne_nil (List.cons_ne_nil y group)]
                exact List.mem_cons_of_mem x hz))
              (fun z hz => hkeep z (by rwa [List.getLast?_cons_cons]))
          simp only [Downsize.unpackTo, beq_iff_eq, if_neg hzero, List.map_cons, hrest]
          simp only [Downsize.lowest, lanes, hdata, hlow, hinside, beq_eq_false_iff_ne.mpr hzero,
            Bool.false_and]

/-- The words of some groups are taken apart into these groups. -/
theorem flatMap_unpack (hk : 0 < k) {words : List (Beat (n * w) (n * k) U)}
    {done : List (List (Beat w k U))} (h : List.Forall₂ Packs words done)
    (hgroups : ∀ group ∈ done, IsGroup n Beat.tlast group)
    (hkeep : ∀ group ∈ done, ∀ x ∈ group, x.tkeep ≠ 0) :
    (words.flatMap Downsize.unpack).map lanes = done.flatten.map lanes := by
  induction h with
  | nil => rfl
  | @cons word group words done hpacks _ ih =>
      have hgroup := hgroups group (by simp)
      have hword : (Downsize.unpack word).map lanes = group.map lanes :=
        hpacks.unpackTo hk hgroup.length hgroup.nonempty hgroup.inner fun x hx =>
          hkeep group (by simp) x (List.mem_of_getLast? hx)
      rw [List.flatMap_cons, List.map_append, List.flatten_cons, List.map_append, hword,
        ih (fun g hg => hgroups g (by simp [hg])) fun g hg => hkeep g (by simp [hg])]

theorem length_flatten_le {done : List (List (Beat w k U))}
    (hgroups : ∀ group ∈ done, IsGroup n Beat.tlast group) :
    done.flatten.length ≤ done.length * n := by
  induction done with
  | nil => simp
  | cons group done ih =>
      have hlen := (hgroups group (by simp)).length
      have hrest := ih fun g hg => hgroups g (by simp [hg])
      rw [List.flatten_cons, List.length_append, List.length_cons, Nat.succ_mul]
      omega

/-- The words that were stored so far hold the front of the stream. -/
theorem unpacked_front (hk : 0 < k) {beats : List (Beat w k U)} {g : Groups (Beat w k U)}
    {words stored : List (Beat (n * w) (n * k) U)} (hcuts : Cuts n Beat.tlast beats g)
    (hkeep : ∀ b ∈ beats, b.tkeep ≠ 0)
    (hpacks : List.Forall₂ Packs words (g.done.take words.length)) (hstored : stored <+: words) :
    ∃ front, (stored.flatMap Downsize.unpack).map lanes = front.map lanes ∧
      front <+: beats ∧
      (stored = words → beats.length < front.length + (g.done.length - words.length) * n + n) := by
  obtain ⟨more, rfl⟩ := hstored
  have hmem {group : List (Beat w k U)} (hgroup : group ∈ g.done) (x : Beat w k U)
      (hx : x ∈ group) : x ∈ beats := by
    rw [← hcuts.flatten]
    exact List.mem_append_left _ (List.mem_flatten.mpr ⟨group, hgroup, hx⟩)
  have hfront : List.Forall₂ Packs stored (g.done.take stored.length) := by
    have htake := List.forall₂_take stored.length hpacks
    rwa [List.take_left, List.take_take, Nat.min_eq_left (by simp)] at htake
  have hsplit : beats = (g.done.take stored.length).flatten ++
      ((g.done.drop stored.length).flatten ++ g.current) := by
    rw [← List.append_assoc, ← List.flatten_append, List.take_append_drop, hcuts.flatten]
  refine ⟨(g.done.take stored.length).flatten, ?_, ⟨_, hsplit.symm⟩, fun hsame => ?_⟩
  · exact flatMap_unpack hk hfront (fun group h => hcuts.done group (List.mem_of_mem_take h))
      fun group h x hx => hkeep x (hmem (List.mem_of_mem_take h) x hx)
  · have hroom := hcuts.room
    have hrest : (g.done.drop stored.length).flatten.length ≤
        (g.done.drop stored.length).length * n :=
      length_flatten_le fun group h => hcuts.done group (List.mem_of_mem_drop h)
    rw [List.length_drop] at hrest
    have hlen := congrArg List.length hsplit
    simp only [List.length_append] at hlen
    rw [← hsame]
    omega

end Words

/-- The stream of narrow beats that comes out is the one that went in, and nothing stays behind but
what the registers and the words in between hold. -/
structure Returns (s : Upsize.State n w k U) (is : List (Upsize.Inputs w k U))
    (s' : Downsize.State n w k U) (js : List (Downsize.Inputs n w k U)) : Prop where
  order : (Downsize.delivered s' js).map lanes <+: (Upsize.accepted s is).map lanes
  behind : Downsize.accepted s' js = Upsize.delivered s is →
    (Upsize.accepted s is).length ≤ (Downsize.delivered s' js).length + 4 * n

end MiscVerilogCores.AxisAdapter
