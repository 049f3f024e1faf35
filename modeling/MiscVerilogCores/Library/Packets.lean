import Mathlib.Data.List.Induction
import Mathlib.Data.List.Infix
import Mathlib.Tactic.Ring

/-! # Frames and packets

A stream of items in which some end a frame is cut into packets of at most `M` items: a
frame is sent as full packets and one shorter packet, which marks its end. A beat of a
packet carries an item; an empty packet is one beat that carries none. -/

namespace MiscVerilogCores.Packets

variable {α : Type*}

/-! ## Frames -/

/-- The frames completed so far, and the items of the next one. -/
structure Frames (α : Type*) where
  done : List (List α)
  frame : List α

/-- The next item, with a flag that says whether it ends the frame. -/
def Frames.push (f : Frames α) (w : Bool × α) : Frames α :=
  if w.1 then ⟨f.done ++ [f.frame ++ [w.2]], []⟩ else ⟨f.done, f.frame ++ [w.2]⟩

def frames (ws : List (Bool × α)) : Frames α := ws.foldl Frames.push ⟨[], []⟩

/-! ## Packets of a frame -/

section Frame

variable (M : ℕ) (frame : List α)

/-- The full chunks at the front of a frame. -/
def fullChunks : List (List α) :=
  (List.range (frame.length / M)).map fun k => (frame.drop (k * M)).take M

/-- The items behind the full chunks. -/
def rest : List α := frame.drop (frame.length / M * M)

/-- The last packet of a frame, with no items when the full chunks are all of it. -/
def lastPacket : List (Option α) :=
  if frame.length % M = 0 then [none] else (rest M frame).map some

/-- The packets that a whole frame is sent as. -/
def framePackets : List (List (Option α)) :=
  (fullChunks M frame).map (List.map some) ++ [lastPacket M frame]

end Frame

/-- The packets that a stream is to be sent as: those of its frames, and the full chunks of the
frame that has not ended yet. -/
def streamPackets (M : ℕ) (ws : List (Bool × α)) : List (List (Option α)) :=
  (frames ws).done.flatMap (framePackets M) ++
    (fullChunks M (frames ws).frame).map (List.map some)

/-! ## Cutting on the fly -/

/-- The packets cut so far, and the items of the next one. -/
structure Cut (α : Type*) where
  done : List (List (Option α))
  chunk : List α

namespace Cut

/-- The next item fills the packet, or ends the frame. -/
def ends (M : ℕ) (c : Cut α) (last : Bool) : Bool := last || c.chunk.length + 1 == M

/-- A frame that ends with a full packet is followed by an empty one. -/
def push (M : ℕ) (c : Cut α) (w : Bool × α) : Cut α :=
  if c.ends M w.1 then
    ⟨c.done ++ [(c.chunk ++ [w.2]).map some] ++
      (if w.1 && c.chunk.length + 1 == M then [[none]] else []), []⟩
  else ⟨c.done, c.chunk ++ [w.2]⟩

end Cut

def cut (M : ℕ) (ws : List (Bool × α)) : Cut α := ws.foldl (Cut.push M) ⟨[], []⟩

section Concat

variable (M : ℕ) (ws : List (Bool × α)) (w : Bool × α)

@[simp] theorem frames_nil : frames ([] : List (Bool × α)) = ⟨[], []⟩ := rfl

@[simp] theorem frames_concat : frames (ws ++ [w]) = (frames ws).push w := by
  simp [frames]

@[simp] theorem cut_nil : cut M ([] : List (Bool × α)) = ⟨[], []⟩ := rfl

@[simp] theorem cut_concat : cut M (ws ++ [w]) = (cut M ws).push M w := by
  simp [cut]

end Concat

/-- Frames that are done stay done. -/
theorem done_prefix_frames (ws vs : List (Bool × α)) :
    (frames ws).done <+: (frames (ws ++ vs)).done := by
  induction vs using List.reverseRecOn with
  | nil => simp
  | append_singleton vs w ih =>
      rw [← List.append_assoc, frames_concat, Frames.push]
      split
      · exact ih.trans (List.prefix_append _ _)
      · exact ih

/-- The item at an index, with a flag that says whether it ends its packet. -/
def marked (M : ℕ) (ws : List (Bool × α)) (k : ℕ) : Option (Bool × α) :=
  ws[k]?.map fun w => ((cut M (ws.take k)).ends M w.1, w.2)

theorem marked_append (M : ℕ) {ws : List (Bool × α)} {k : ℕ} (hk : k < ws.length)
    (vs : List (Bool × α)) : marked M (ws ++ vs) k = marked M ws k := by
  rw [marked, marked, List.getElem?_append_left hk, List.take_append_of_le_length hk.le]

theorem marked_length (M : ℕ) (ws : List (Bool × α)) (w : Bool × α) :
    marked M (ws ++ [w]) ws.length = some ((cut M ws).ends M w.1, w.2) := by
  simp [marked]

/-- Packets that are cut stay cut. -/
theorem done_prefix_push (M : ℕ) (c : Cut α) (w : Bool × α) : c.done <+: (c.push M w).done := by
  rw [Cut.push]
  split
  · rw [List.append_assoc]
    exact List.prefix_append _ _
  · exact List.prefix_rfl

theorem done_prefix_cut (M : ℕ) {ws ws' : List (Bool × α)} (h : ws <+: ws') :
    (cut M ws).done <+: (cut M ws').done := by
  obtain ⟨rest, rfl⟩ := h
  induction rest using List.reverseRecOn with
  | nil => simp
  | append_singleton rest w ih =>
      rw [← List.append_assoc, cut_concat]
      exact ih.trans (done_prefix_push M _ w)

/-- A packet that is not complete is not full. -/
theorem length_chunk_lt {M : ℕ} (hM : 0 < M) (ws : List (Bool × α)) :
    (cut M ws).chunk.length < M := by
  induction ws using List.reverseRecOn with
  | nil => simpa using hM
  | append_singleton ws w ih =>
      rw [cut_concat, Cut.push]
      split
      · simpa using hM
      · rename_i hends
        have hne : (cut M ws).chunk.length + 1 ≠ M := by
          intro heq
          simp [Cut.ends, heq] at hends
        rw [List.length_append, List.length_singleton]
        omega

/-! ## Both are the same -/

section Chunks

variable {M : ℕ} (frame : List α) (a : α)

@[simp] theorem fullChunks_nil : fullChunks M ([] : List α) = [] := by
  simp [fullChunks]

@[simp] theorem rest_nil : rest M ([] : List α) = [] := by
  simp [rest]

theorem length_rest : (rest M frame).length = frame.length % M := by
  have hdiv := Nat.div_add_mod' frame.length M
  rw [rest, List.length_drop]
  omega

/-- The chunks of a longer frame that end before the new item. -/
theorem take_drop_concat {k : ℕ} (hk : k < frame.length / M) :
    ((frame ++ [a]).drop (k * M)).take M = (frame.drop (k * M)).take M := by
  have hle : (k + 1) * M ≤ frame.length := (Nat.mul_le_mul_right M hk).trans (Nat.div_mul_le_self _ _)
  have hsucc : (k + 1) * M = k * M + M := by ring
  rw [List.drop_append_of_le_length (by omega), List.take_append_of_le_length]
  rw [List.length_drop]
  omega

/-- An item that fills the chunk behind the full ones. -/
theorem fullChunks_concat_full (hM : 0 < M) (hfull : (rest M frame).length + 1 = M) :
    fullChunks M (frame ++ [a]) = fullChunks M frame ++ [rest M frame ++ [a]] ∧
      rest M (frame ++ [a]) = [] := by
  have hlen := length_rest (M := M) frame
  have hdiv := Nat.div_add_mod' frame.length M
  have hsucc : (frame.length / M + 1) * M = frame.length / M * M + M := by ring
  have hcount : (frame ++ [a]).length = (frame.length / M + 1) * M := by
    rw [List.length_append, List.length_singleton]
    omega
  have hq : (frame ++ [a]).length / M = frame.length / M + 1 := by
    rw [hcount, Nat.mul_div_cancel _ hM]
  constructor
  · rw [fullChunks, hq, List.range_succ, List.map_append]
    congr 1
    · exact List.map_congr_left fun k hk => take_drop_concat frame a (List.mem_range.mp hk)
    · rw [List.map_singleton, List.drop_append_of_le_length (by omega), List.take_of_length_le]
      · rfl
      · rw [← rest, List.length_append, List.length_singleton]
        omega
  · rw [rest, hq, List.drop_eq_nil_iff, hcount]

/-- An item that does not fill the chunk. -/
theorem fullChunks_concat (hM : 0 < M) (hnot : (rest M frame).length + 1 ≠ M) :
    fullChunks M (frame ++ [a]) = fullChunks M frame ∧
      rest M (frame ++ [a]) = rest M frame ++ [a] := by
  have hlen := length_rest (M := M) frame
  have hlt := Nat.mod_lt frame.length hM
  have hdiv := Nat.div_add_mod' frame.length M
  have hq : (frame ++ [a]).length / M = frame.length / M := by
    have hcount : (frame ++ [a]).length = (frame.length % M + 1) + frame.length / M * M := by
      rw [List.length_append, List.length_singleton]
      omega
    rw [hcount, Nat.add_mul_div_right _ _ hM, Nat.div_eq_of_lt (by omega), Nat.zero_add]
  constructor
  · rw [fullChunks, hq]
    exact List.map_congr_left fun k hk => take_drop_concat frame a (List.mem_range.mp hk)
  · rw [rest, hq, List.drop_append_of_le_length (by omega), rest]

/-- The last packet of a frame that ends with an item. -/
theorem lastPacket_concat (hM : 0 < M) : lastPacket M (frame ++ [a]) =
    if (rest M frame).length + 1 = M then [none] else (rest M frame ++ [a]).map some := by
  have hlen := length_rest (M := M) (frame ++ [a])
  by_cases hfull : (rest M frame).length + 1 = M
  · rw [(fullChunks_concat_full frame a hM hfull).2, List.length_nil] at hlen
    rw [lastPacket, if_pos hlen.symm, if_pos hfull]
  · rw [(fullChunks_concat frame a hM hfull).2, List.length_append, List.length_singleton] at hlen
    rw [lastPacket, if_neg (by omega), if_neg hfull, (fullChunks_concat frame a hM hfull).2]

end Chunks

/-- Cutting on the fly gives the packets of the frames. -/
theorem cut_eq {M : ℕ} (hM : 0 < M) (ws : List (Bool × α)) :
    cut M ws = ⟨streamPackets M ws, rest M (frames ws).frame⟩ := by
  induction ws using List.reverseRecOn with
  | nil => simp [streamPackets]
  | append_singleton ws w ih =>
      obtain ⟨last, a⟩ := w
      rw [cut_concat, ih]
      by_cases hfull : (rest M (frames ws).frame).length + 1 = M
      · obtain ⟨hchunks, hrest⟩ := fullChunks_concat_full (frames ws).frame a hM hfull
        cases last
        · simp [Cut.push, Cut.ends, Frames.push, streamPackets, hfull, hchunks, hrest]
        · simp [Cut.push, Cut.ends, Frames.push, streamPackets, hfull, hchunks, framePackets,
            lastPacket_concat, hM]
      · obtain ⟨hchunks, hrest⟩ := fullChunks_concat (frames ws).frame a hM hfull
        cases last
        · simp [Cut.push, Cut.ends, Frames.push, streamPackets, hfull, hchunks, hrest]
        · simp [Cut.push, Cut.ends, Frames.push, streamPackets, hfull, hchunks, framePackets,
            lastPacket_concat, hM]

/-! ## Segments with a flag on their last item -/

section Segments

variable {last : α → Bool} {segs : List (List α)}

/-- The last item of the segment has the flag, and no other. -/
def Ends (last : α → Bool) (seg : List α) : Prop :=
  ∃ body a, seg = body ++ [a] ∧ last a = true ∧ ∀ b ∈ body, last b = false

theorem Ends.countP_eq {seg : List α} (h : Ends last seg) : seg.countP last = 1 := by
  obtain ⟨body, a, rfl, ha, hbody⟩ := h
  rw [List.countP_append, List.countP_eq_zero.mpr (by simpa using hbody)]
  simp [ha]

theorem countP_flatten (h : ∀ seg ∈ segs, Ends last seg) :
    segs.flatten.countP last = segs.length := by
  induction segs with
  | nil => rfl
  | cons seg segs ih =>
      have hseg := (h seg (by simp)).countP_eq
      have hrest := ih fun seg' hmem => h seg' (List.mem_cons_of_mem _ hmem)
      rw [List.flatten_cons, List.countP_append, hseg, hrest, List.length_cons, Nat.add_comm]

/-- While an item is to come the segment it belongs to has not ended. -/
theorem countP_lt_of_append (h : ∀ seg ∈ segs, Ends last seg) {front rest : List α} {a : α}
    (heq : segs.flatten = front ++ a :: rest) : front.countP last < segs.length := by
  induction segs using List.reverseRecOn with
  | nil => simp at heq
  | append_singleton segs seg _ =>
      obtain ⟨body, z, hseg, hz, -⟩ := h seg (by simp)
      have hlast : (a :: rest).getLast? = some z := by
        have hboth := congrArg List.getLast? heq
        rw [List.flatten_concat, hseg, ← List.append_assoc, List.getLast?_concat,
          List.getLast?_append_of_ne_nil _ (by simp)] at hboth
        exact hboth.symm
      have hpos : 0 < (a :: rest).countP last :=
        List.countP_pos_iff.mpr ⟨z, List.mem_of_getLast? hlast, hz⟩
      have hcount := countP_flatten h
      rw [heq, List.countP_append] at hcount
      omega

end Segments

end MiscVerilogCores.Packets
