import MiscVerilogCores.Library.Clocked
import MiscVerilogCores.Model.PacketFifo
import MiscVerilogCores.Verification.Skid.Contents

/-! # The stream of words through a packet FIFO

The words stored since reset and not dropped form a stream. The registers stand for
four positions of it: the next word to deliver, the next to fetch, the end of the
committed words, and the end. -/

namespace MiscVerilogCores.PacketFifo

open RingMemory

variable {WIDTH ABITS : ℕ} {p : Params}

/-! ## What is held, and what one edge moves -/

/-- The word in the SRAM output register. -/
def xWords (s : State WIDTH ABITS) : List (Word WIDTH) :=
  if s.xvalid then [(s.xlast, s.xdata)] else []

/-- The words in the skid register. -/
def skidWords (p : Params) (s : State WIDTH ABITS) : List (Word WIDTH) :=
  if 1 < p.outreg then AxisSkid.contents s.skid else []

/-- The words in the valid output registers, oldest first. -/
def outputWords (p : Params) (s : State WIDTH ABITS) : List (Word WIDTH) :=
  if p.outreg = 0 then [] else skidWords p s ++ xWords s

theorem outputWords_eq_nil {s : State WIDTH ABITS} (hx : xWords s = [])
    (hc : AxisSkid.contents s.skid = []) : outputWords p s = [] := by
  simp [outputWords, skidWords, hx, hc]

/-- The word read from the memory array. -/
def fetched (p : Params) (s : State WIDTH ABITS) (i : Inputs WIDTH) : List (Word WIDTH) :=
  if fetchW p s i then [s.sram (slot s.raddr)] else []

/-- A word is written over one that has not been fetched. -/
def Overruns (p : Params) (s : State WIDTH ABITS) (i : Inputs WIDTH) : Prop :=
  storeW p s i = true ∧ rejectA i = false ∧ matchW s = true ∧ s.waddr.msb ≠ s.raddr.msb

/-- A packet is committed in a cycle that drops it, or when there is nothing to fetch. -/
def SavesNothing (p : Params) (s : State WIDTH ABITS) (i : Inputs WIDTH) : Prop :=
  acceptA p s i = true ∧ (rejectA i = true ∨ waddrNext p s i = raddrNext p s i)

instance (s : State WIDTH ABITS) (i : Inputs WIDTH) : Decidable (Overruns p s i) :=
  inferInstanceAs (Decidable (_ ∧ _))

instance (s : State WIDTH ABITS) (i : Inputs WIDTH) : Decidable (SavesNothing p s i) :=
  inferInstanceAs (Decidable (_ ∧ _))

section Next

variable (p : Params) (s : State WIDTH ABITS) (i : Inputs WIDTH)

/-- The stream after an edge: a drop cuts it back to its committed words. -/
def wordsNext (words : List (Word WIDTH)) (saved : ℕ) : List (Word WIDTH) :=
  (if rejectA i then words.take saved else words) ++ stored p s i

/-- The number of committed words after an edge. -/
def savedNext (words : List (Word WIDTH)) (saved : ℕ) : ℕ :=
  if acceptA p s i then (wordsNext p s i words saved).length else saved

/-- The number of words whose slot has been used again, after an edge. -/
def lostNext (words : List (Word WIDTH)) (saved lost : ℕ) : ℕ :=
  max lost ((wordsNext p s i words saved).length - 2 ^ ABITS)

end Next

/-! ## Invariants -/

/-- The memory array and its pointers hold the stream. -/
structure Stored (s : State WIDTH ABITS) (words : List (Word WIDTH)) (saved rd lost : ℕ) :
    Prop where
  mem : Holds s.sram words lost
  waddr : s.waddr = ptr ABITS words.length
  paddr : s.paddr = ptr ABITS saved
  raddr : s.raddr = ptr ABITS rd
  lost_le : lost ≤ rd
  rd_le : rd ≤ saved
  saved_le : saved ≤ words.length
  rvalid : s.rvalid = true → rd < saved

/-- The output registers hold the words that are fetched and not delivered. -/
structure Output (p : Params) (s : State WIDTH ABITS) (words : List (Word WIDTH)) (pos rd : ℕ) :
    Prop where
  pos_le : pos ≤ rd
  outputs : outputWords p s = (words.take rd).drop pos
  skid : AxisSkid.Valid s.skid
  starting : s.skid.sready = false → s.skid.tvalid = false → s.xvalid = false

/-! ## The memory array -/

section Array

variable {s : State WIDTH ABITS} {i : Inputs WIDTH} {words : List (Word WIDTH)}
  {saved rd lost : ℕ}

theorem storeW_wready (h : storeW p s i = true) : s.wready = true := by
  simp only [storeW] at h
  split at h <;> simp_all

theorem fetchW_rvalid (h : fetchW p s i = true) : s.rvalid = true := by
  simp only [fetchW] at h
  split at h <;> simp_all

theorem length_fetched : (fetched p s i).length = (fetchW p s i).toNat := by
  rw [fetched]
  cases fetchW p s i <;> rfl

theorem wfullW_eq : wfullW p s i =
    fullNext s.waddr s.raddr (storeW p s i) (fetchW p s i) := by
  cases hs : storeW p s i <;>
    simp [wfullW, wrfullCurr, wrfullNext, matchW, waddrNext, fullNext, hs]

theorem emptyW_eq : emptyW p s i =
    emptyNext s.paddr s.raddr (acceptA p s i) (fetchW p s i) := by
  cases hf : fetchW p s i <;> simp [emptyW, remptyCurr, remptyNext, raddrNext, emptyNext, hf]

namespace Stored

theorem length_le (h : Stored s words saved rd lost) : words.length ≤ rd + 2 ^ ABITS :=
  h.mem.length_le.trans (Nat.add_le_add_right h.lost_le _)

theorem fetched_le (h : Stored s words saved rd lost) (p : Params) (i : Inputs WIDTH) :
    rd + (fetched p s i).length ≤ saved := by
  rw [length_fetched]
  cases hf : fetchW p s i
  · exact h.rd_le
  · exact h.rvalid (fetchW_rvalid hf)

/-- What is fetched is the next word of the stream. -/
theorem take_fetched (h : Stored s words saved rd lost) (p : Params) (i : Inputs WIDTH) :
    words.take (rd + (fetched p s i).length) = words.take rd ++ fetched p s i := by
  cases hf : fetchW p s i
  · simp [fetched, hf]
  · have hlt : rd < words.length := (h.rvalid (fetchW_rvalid hf)).trans_le h.saved_le
    have hread := h.mem.read h.lost_le hlt
    rw [← h.raddr] at hread
    simp only [fetched, hf, if_true, List.length_singleton, hread]
    exact List.take_succ_eq_append_getElem hlt

/-- Where there is room for a store, the store goes behind the last word. -/
theorem room (h : Stored s words saved rd lost) (hroom : ¬ Overruns p s i)
    (hs : storeW p s i = true) (hd : rejectA i = false) : words.length < rd + 2 ^ ABITS := by
  have hle := h.length_le
  have hne : words.length ≠ rd + 2 ^ ABITS := by
    intro heq
    have hfull := (slot_eq_and_msb_ne_iff (h.rd_le.trans h.saved_le) hle).mpr heq
    rw [← h.waddr, ← h.raddr] at hfull
    exact hroom ⟨hs, hd, by simp [matchW, hfull.1], hfull.2⟩
  omega

theorem waddrNext_eq (h : Stored s words saved rd lost) (hd : rejectA i = false) :
    waddrNext p s i = ptr ABITS (wordsNext p s i words saved).length := by
  cases hs : storeW p s i <;> simp [waddrNext, wordsNext, stored, hs, hd, h.waddr]

/-- The write pointer moves on at a store, dropped or not. -/
theorem waddrNext_ptr (h : Stored s words saved rd lost) :
    waddrNext p s i = ptr ABITS (words.length + (storeW p s i).toNat) := by
  rw [waddrNext, h.waddr]
  cases storeW p s i <;> simp

theorem raddrNext_eq (h : Stored s words saved rd lost) :
    raddrNext p s i = ptr ABITS (rd + (fetched p s i).length) := by
  cases hf : fetchW p s i <;> simp [raddrNext, fetched, hf, h.raddr]

/-- The level counts the words behind the read pointer and the one that is held, but for whole
laps. -/
theorem levelW_eq (h : Stored s words saved rd lost) (hold : p.lastOnSave = true) :
    (levelW p s i).toNat =
      (words.length + (storeW p s i).toNat - (rd + (fetched p s i).length) +
        ((captureA s i || s.xvld) && !releaseA p s).toNat) % 2 ^ ABITS := by
  have hfetched := h.fetched_le p i
  have hsaved := h.saved_le
  have hbit : ∀ b : Bool, (BitVec.ofBool b).setWidth ABITS = BitVec.ofNat ABITS b.toNat := by
    intro b
    apply BitVec.eq_of_toNat_eq
    cases b <;> simp
  rw [levelW, h.waddrNext_ptr, h.raddrNext_eq, slot_sub (by omega), if_pos hold, hbit,
    ← BitVec.ofNat_add, BitVec.toNat_ofNat]

theorem saved_le_wordsNext (h : Stored s words saved rd lost) :
    saved ≤ (wordsNext p s i words saved).length := by
  have := h.saved_le
  cases hd : rejectA i <;> simp [wordsNext, hd] <;> omega

theorem saved_le_savedNext (h : Stored s words saved rd lost) :
    saved ≤ savedNext p s i words saved := by
  rw [savedNext]
  split
  · exact h.saved_le_wordsNext
  · exact le_rfl

theorem savedNext_le (h : Stored s words saved rd lost) :
    savedNext p s i words saved ≤ (wordsNext p s i words saved).length := by
  rw [savedNext]
  split
  · exact le_rfl
  · exact h.saved_le_wordsNext

/-- The committed words stay as they are. -/
theorem take_wordsNext (h : Stored s words saved rd lost) {n : ℕ} (hn : n ≤ saved) :
    (wordsNext p s i words saved).take n = words.take n := by
  have := h.saved_le
  cases hd : rejectA i
  · rw [wordsNext, if_neg (by simp [hd]), List.take_append_of_le_length (by omega)]
  · rw [wordsNext, if_pos hd, List.take_append_of_le_length (by simp; omega), List.take_take,
      Nat.min_eq_left hn]

/-- The memory array keeps the words whose slots are not used again. -/
theorem mem_next (h : Stored s words saved rd lost) (hr : i.reset = false) :
    Holds (step p s i).sram (wordsNext p s i words saved) (lostNext p s i words saved lost) := by
  cases hd : rejectA i
  · cases hs : storeW p s i
    · have hmem := h.mem.mono (le_max_left lost (words.length - 2 ^ ABITS))
      simpa [step, hr, hd, hs, lostNext, wordsNext, stored] using hmem
    · have hstore := h.mem.store (wordW p s i) (le_max_left lost (words.length + 1 - 2 ^ ABITS))
        (by omega)
      rw [← h.waddr] at hstore
      simpa [step, hr, hd, hs, lostNext, wordsNext, stored] using hstore
  · have hmem := (h.mem.take saved).mono
      (le_max_left lost ((words.take saved).length - 2 ^ ABITS))
    simpa [step, hr, hd, lostNext, wordsNext, stored] using hmem

theorem lostNext_le (h : Stored s words saved rd lost) (hroom : ¬ Overruns p s i) :
    lostNext p s i words saved lost ≤ rd := by
  have hle := h.length_le
  have hlost := h.lost_le
  have hlen : (wordsNext p s i words saved).length ≤ rd + 2 ^ ABITS := by
    cases hd : rejectA i
    · cases hs : storeW p s i
      · simpa [wordsNext, stored, hd, hs] using hle
      · have := h.room hroom hs hd
        simp only [wordsNext, stored, hd, hs, Bool.not_false, Bool.and_true, if_true,
          Bool.false_eq_true, if_false, List.length_append, List.length_singleton]
        omega
    · simp [wordsNext, stored, hd]
      omega
  rw [lostNext]
  omega

/-- The empty flag is never low by mistake. -/
theorem rvalid_next (h : Stored s words saved rd lost) (hr : i.reset = false)
    (hsave : ¬ SavesNothing p s i) (hv : (step p s i).rvalid = true) :
    rd + (fetched p s i).length < savedNext p s i words saved := by
  have hrd := h.fetched_le p i
  have hempty := emptyNext_ptr (acceptA p s i) (fetchW p s i) h.rd_le
    (h.saved_le.trans h.length_le) (fun hf => h.rvalid (fetchW_rvalid hf))
  rw [← h.paddr, ← h.raddr, ← emptyW_eq, ← length_fetched] at hempty
  have hne : ¬ (acceptA p s i = false ∧ saved = rd + (fetched p s i).length) := by
    rw [← hempty]
    simpa [step, hr] using hv
  rw [savedNext]
  cases ha : acceptA p s i
  · have : saved ≠ rd + (fetched p s i).length := fun heq => hne ⟨ha, heq⟩
    simp only [Bool.false_eq_true, if_false]
    omega
  · have hd : rejectA i = false := by
      cases hd : rejectA i
      · rfl
      · exact absurd ⟨ha, Or.inl hd⟩ hsave
    have hadd : (wordsNext p s i words saved).length ≠ rd + (fetched p s i).length := by
      intro heq
      refine hsave ⟨ha, Or.inr ?_⟩
      rw [h.waddrNext_eq hd, h.raddrNext_eq, heq]
    have := h.saved_le_wordsNext (p := p) (i := i)
    simp only [if_true]
    omega

/-- With a word stored at the same edge there is something to commit. -/
theorem not_savesNothing (h : Stored s words saved rd lost) (hd : rejectA i = false)
    (hs : acceptA p s i = true → storeW p s i = true ∧ words.length < rd + 2 ^ ABITS) :
    ¬ SavesNothing p s i := by
  rintro ⟨ha, hsave⟩
  obtain ⟨hstore, hroom⟩ := hs ha
  rcases hsave with hrej | hptr
  · simp [hd] at hrej
  · have hlen : (wordsNext p s i words saved).length = words.length + 1 := by
      simp [wordsNext, stored, hstore, hd]
    have hf := h.fetched_le p i
    have := h.saved_le
    rw [h.waddrNext_eq hd, h.raddrNext_eq, hlen, ptr_eq_iff (by omega) (by omega)] at hptr
    omega

/-- While the ready flag is right no word is overwritten. -/
theorem not_overruns (h : Stored s words saved rd lost)
    (hready : s.wready = true → words.length < rd + 2 ^ ABITS) : ¬ Overruns p s i := by
  rintro ⟨hs, -, hm, hne⟩
  have hfull := (slot_eq_and_msb_ne_iff (h.rd_le.trans h.saved_le) h.length_le).mp
    (by rw [← h.waddr, ← h.raddr]; exact ⟨by simpa [matchW] using hm, hne⟩)
  have := hready (storeW_wready hs)
  omega

/-- The ready flag stays right as long as the read pointer does not go back. -/
theorem wready_next (h : Stored s words saved rd lost) (hr : i.reset = false)
    (hready : s.wready = true → words.length < rd + 2 ^ ABITS) (hw : (step p s i).wready = true) :
    (wordsNext p s i words saved).length < rd + (fetched p s i).length + 2 ^ ABITS := by
  have hfull := fullNext_ptr (storeW p s i) (fetchW p s i) (h.rd_le.trans h.saved_le) h.length_le
    (fun hs => hready (storeW_wready hs))
    (fun hf => (h.rvalid (fetchW_rvalid hf)).trans_le h.saved_le)
  rw [← h.waddr, ← h.raddr, ← wfullW_eq] at hfull
  have hne : ¬ wfullW p s i = true := by
    simpa [step, hr] using hw
  rw [hfull] at hne
  have hle := h.length_le
  have hsaved := h.saved_le
  have hrd := h.rd_le
  rw [length_fetched]
  cases hs : storeW p s i
  · have : (wordsNext p s i words saved).length ≤ words.length := by
      cases hd : rejectA i <;> simp [wordsNext, stored, hd, hs]
    simp only [hs, Bool.toNat_false] at hne
    omega
  · have hlt := hready (storeW_wready hs)
    have : (wordsNext p s i words saved).length ≤ words.length + 1 := by
      cases hd : rejectA i <;> simp [wordsNext, stored, hd, hs]
    simp only [hs, Bool.toNat_true] at hne
    omega

/-- After the edge the array and its pointers hold the stream as it is then, for any
place the read pointer has moved to whose words are still there. -/
theorem next (h : Stored s words saved rd lost) (hr : i.reset = false) {rd' : ℕ}
    (hraddr : (step p s i).raddr = ptr ABITS rd')
    (hlost : lostNext p s i words saved lost ≤ rd') (hrd : rd' ≤ rd + (fetched p s i).length)
    (hsave : ¬ SavesNothing p s i) :
    Stored (step p s i) (wordsNext p s i words saved) (savedNext p s i words saved) rd'
      (lostNext p s i words saved lost) where
  mem := h.mem_next hr
  waddr := by
    cases hd : rejectA i
    · rw [← h.waddrNext_eq hd]
      simp [step, hr, hd]
    · have := h.saved_le
      simp [step, hr, hd, wordsNext, stored, h.paddr, Nat.min_eq_left this]
  paddr := by
    cases ha : acceptA p s i
    · simp [step, hr, ha, savedNext, h.paddr]
    · have hd : rejectA i = false := by
        cases hd : rejectA i
        · rfl
        · exact absurd ⟨ha, Or.inl hd⟩ hsave
      simp [step, hr, ha, savedNext, h.waddrNext_eq hd]
  raddr := hraddr
  lost_le := hlost
  rd_le := hrd.trans ((h.fetched_le p i).trans h.saved_le_savedNext)
  saved_le := h.savedNext_le
  rvalid := fun hv => hrd.trans_lt (h.rvalid_next hr hsave hv)

end Stored

end Array

/-! ## The output registers -/

section Registers

variable {s : State WIDTH ABITS} {i : Inputs WIDTH} {words : List (Word WIDTH)}
  {saved pos rd lost : ℕ}

/-- The word that leaves the SRAM output register. -/
def released (p : Params) (s : State WIDTH ABITS) (i : Inputs WIDTH) : List (Word WIDTH) :=
  if s.xvalid && xready p s i then [(s.xlast, s.xdata)] else []

theorem xWords_step (hr : i.reset = false) (hredo : i.redoI = false) (ho : p.outreg ≠ 0) :
    xWords s ++ fetched p s i = released p s i ++ xWords (step p s i) := by
  cases hv : s.rvalid <;> cases hx : s.xvalid <;> cases hxr : xready p s i <;>
    simp [xWords, fetched, released, fetchW, step, replayA, hr, hredo, ho, hv, hx, hxr]

namespace Output

theorem skidWords_step (h : Output p s words pos rd) (hr : i.reset = false)
    (hredo : i.redoI = false) (ho : p.outreg ≠ 0) :
    skidWords p s ++ released p s i = delivered p s i ++ skidWords p (step p s i) := by
  by_cases h1 : 1 < p.outreg
  · have hc := AxisSkid.step_contents (i := skidInputs s i) h.skid h.starting
      (by simp [skidInputs, replayA, hr, hredo])
    simpa [skidWords, released, delivered, offered, h1, ho, bypass, xready, mTvalid, mTlast,
      mTdata, AxisSkid.sTready, AxisSkid.mTvalid, AxisSkid.mTlast, AxisSkid.mTdata,
      AxisSkid.taken, AxisSkid.given, skidInputs, step] using hc
  · simp [skidWords, released, delivered, offered, h1, ho, bypass, xready, mTvalid, mTlast,
      mTdata, AxisSkid.sTready, AxisSkid.mTvalid, AxisSkid.mTlast, AxisSkid.mTdata]

theorem outputWords_step (h : Output p s words pos rd) (hr : i.reset = false)
    (hredo : i.redoI = false) (ho : p.outreg ≠ 0) :
    outputWords p s ++ fetched p s i = delivered p s i ++ outputWords p (step p s i) := by
  have hskid := h.skidWords_step hr hredo ho
  have hx := xWords_step (s := s) hr hredo ho
  simp only [outputWords, if_neg ho]
  calc skidWords p s ++ xWords s ++ fetched p s i
      = (skidWords p s ++ released p s i) ++ xWords (step p s i) := by
        rw [List.append_assoc, hx, List.append_assoc]
    _ = delivered p s i ++ (skidWords p (step p s i) ++ xWords (step p s i)) := by
        rw [hskid, List.append_assoc]

/-- An unregistered output has nothing in front of the memory array. -/
theorem pos_eq (h : Output p s words pos rd) (hrd : rd ≤ words.length) (ho : p.outreg = 0) :
    pos = rd := by
  have hpos := h.pos_le
  have hnil : (words.take rd).drop pos = [] := by
    rw [← h.outputs, outputWords, if_pos ho]
  rw [List.drop_eq_nil_iff, List.length_take] at hnil
  omega

theorem head_outputWords (ho : p.outreg ≠ 0) (hv : mTvalid p s = true) :
    ∃ rest, outputWords p s = offered p s :: rest := by
  by_cases h1 : 1 < p.outreg
  · have hm : s.skid.mvalid = true := by
      simpa [mTvalid, ho, bypass, h1, AxisSkid.mTvalid] using hv
    simp [outputWords, ho, skidWords, h1, AxisSkid.contents, SkidLoader.contents,
      AxisSkid.State.toLoader, hm, offered, mTlast, mTdata, bypass, AxisSkid.mTlast,
      AxisSkid.mTdata]
  · have hx : s.xvalid = true := by
      simpa [mTvalid, ho, bypass, h1, AxisSkid.mTvalid] using hv
    simp [outputWords, ho, skidWords, h1, xWords, hx, offered, mTlast, mTdata, bypass,
      AxisSkid.mTlast, AxisSkid.mTdata]

end Output

end Registers

/-! ## The stream -/

/-- A packet FIFO holds a stream: `words` were stored, `saved` of them are committed, and
`pos` is the next to deliver. -/
structure Stream (p : Params) (s : State WIDTH ABITS) (words : List (Word WIDTH))
    (saved pos rd lost : ℕ) : Prop where
  stored : Stored s words saved rd lost
  output : Output p s words pos rd

namespace Stream

variable {s : State WIDTH ABITS} {i : Inputs WIDTH} {words : List (Word WIDTH)}
  {saved pos rd lost : ℕ}

theorem of_reset (p : Params) (s : State WIDTH ABITS) {i : Inputs WIDTH} (hr : i.reset = true) :
    Stream p (step p s i) [] 0 0 0 0 := by
  have hskid := AxisSkid.valid_of_reset s.skid (skidInputs s i) (by simp [skidInputs, hr])
  have hx : (step p s i).xvalid = false := by simp [step, hr]
  refine ⟨⟨holds_nil _ _, ?_, ?_, ?_, le_rfl, le_rfl, le_rfl, ?_⟩,
    ⟨le_rfl, outputWords_eq_nil (by simp [xWords, hx]) hskid.2, hskid.1, fun _ _ => hx⟩⟩ <;>
    simp [step, hr, ptr]

theorem afterReset (p : Params) (s : State WIDTH ABITS) :
    Stream p (afterReset p s) [] 0 0 0 0 :=
  of_reset p s rfl

theorem rd_le_length (h : Stream p s words saved pos rd lost) : rd ≤ words.length :=
  h.stored.rd_le.trans h.stored.saved_le

/-- A word on offer is committed, and it is the next one. -/
theorem offered_eq (h : Stream p s words saved pos rd lost) (hv : mTvalid p s = true) :
    pos < saved ∧ words[pos]? = some (offered p s) := by
  have hrd := h.rd_le_length
  by_cases ho : p.outreg = 0
  · have hpos := h.output.pos_eq hrd ho
    have hlt := h.stored.rvalid (by simpa [mTvalid, ho] using hv)
    have hlt' := hlt.trans_le h.stored.saved_le
    have hread := h.stored.mem.read h.stored.lost_le hlt'
    rw [← h.stored.raddr] at hread
    subst hpos
    refine ⟨hlt, ?_⟩
    simp [offered, mTlast, mTdata, ho, hread, hlt']
  · obtain ⟨rest, hrest⟩ := Output.head_outputWords ho hv
    rw [h.output.outputs] at hrest
    have hlen := congrArg List.length hrest
    simp only [List.length_drop, List.length_take, List.length_cons] at hlen
    have hlt : pos < rd := by omega
    refine ⟨hlt.trans_le h.stored.rd_le, ?_⟩
    have hhead : ((words.take rd).drop pos)[0]? = some (offered p s) := by rw [hrest]; rfl
    simpa [hlt] using hhead

/-- The committed words not yet fetched are in the memory array. -/
theorem window_committed (h : Stream p s words saved pos rd lost) :
    window s.sram s.raddr (s.paddr - s.raddr).toNat = (words.take saved).drop rd := by
  have hlen : (words.take saved).length = saved := by simp [h.stored.saved_le]
  have hw := (h.stored.mem.take saved).window_eq h.stored.lost_le (by rw [hlen]; exact h.stored.rd_le)
  rwa [hlen, ← h.stored.paddr, ← h.stored.raddr] at hw

/-- The words not yet committed are in the memory array. -/
theorem window_uncommitted (h : Stream p s words saved pos rd lost) :
    window s.sram s.paddr (s.waddr - s.paddr).toNat = words.drop saved := by
  have hw := h.stored.mem.window_eq (h.stored.lost_le.trans h.stored.rd_le) h.stored.saved_le
  rwa [← h.stored.waddr, ← h.stored.paddr] at hw

/-- The committed words are delivered, in the output registers or in the memory array. -/
theorem take_saved_eq (h : Stream p s words saved pos rd lost) :
    words.take saved =
      words.take pos ++ outputWords p s ++ window s.sram s.raddr (s.paddr - s.raddr).toNat := by
  have hpos := h.output.pos_le
  have hrd := h.stored.rd_le
  rw [h.window_committed, h.output.outputs]
  calc words.take saved
      = (words.take saved).take rd ++ (words.take saved).drop rd := (List.take_append_drop _ _).symm
    _ = words.take rd ++ (words.take saved).drop rd := by rw [List.take_take, Nat.min_eq_left hrd]
    _ = ((words.take rd).take pos ++ (words.take rd).drop pos) ++ (words.take saved).drop rd := by
        rw [List.take_append_drop]
    _ = _ := by rw [List.take_take, Nat.min_eq_left hpos]

/-- What is delivered is the next word of the stream, and committed. -/
theorem take_delivered (h : Stream p s words saved pos rd lost) (i : Inputs WIDTH) :
    words.take (pos + (delivered p s i).length) = words.take pos ++ delivered p s i ∧
      pos + (delivered p s i).length ≤ saved := by
  have hpos := h.output.pos_le.trans h.stored.rd_le
  by_cases hd : (mTvalid p s && i.mTready) = true
  · rw [Bool.and_eq_true] at hd
    obtain ⟨hlt, hword⟩ := h.offered_eq hd.1
    simp only [delivered, hd.1, hd.2, Bool.and_self, if_true, List.length_singleton]
    refine ⟨?_, hlt⟩
    obtain ⟨hlt', hget⟩ := List.getElem?_eq_some_iff.mp hword
    rw [List.take_succ_eq_append_getElem hlt', hget]
  · simp [delivered, hd, hpos]

theorem outputs_step (h : Stream p s words saved pos rd lost) (hr : i.reset = false)
    (hredo : i.redoI = false) :
    outputWords p (step p s i) =
      (words.take (rd + (fetched p s i).length)).drop (pos + (delivered p s i).length) ∧
        pos + (delivered p s i).length ≤ rd + (fetched p s i).length := by
  have hrd := h.rd_le_length
  have hpos := h.output.pos_le
  have hf := h.stored.take_fetched p i
  have hfle := (h.stored.fetched_le p i).trans h.stored.saved_le
  by_cases ho : p.outreg = 0
  · have hpos := h.output.pos_eq hrd ho
    have hd : (delivered p s i).length = (fetched p s i).length := by
      cases hv : s.rvalid <;> cases hm : i.mTready <;>
        simp [delivered, fetched, fetchW, mTvalid, ho, hv, hm]
    refine ⟨?_, by omega⟩
    rw [outputWords, if_pos ho, hd, hpos, eq_comm, List.drop_eq_nil_iff, List.length_take]
    omega
  · have hout := h.output.outputWords_step hr hredo ho
    have hall : (words.take (rd + (fetched p s i).length)).drop pos =
        delivered p s i ++ outputWords p (step p s i) := by
      rw [hf, List.drop_append_of_le_length (by rw [List.length_take]; omega),
        ← h.output.outputs, hout]
    constructor
    · rw [← List.drop_drop, hall, List.drop_left]
    · have hlen := congrArg List.length hall
      simp only [List.length_drop, List.length_take, List.length_append] at hlen
      omega

/-- An edge without a redo. -/
theorem next (h : Stream p s words saved pos rd lost) (hr : i.reset = false)
    (hredo : i.redoI = false) (hroom : ¬ Overruns p s i) (hsave : ¬ SavesNothing p s i) :
    Stream p (step p s i) (wordsNext p s i words saved) (savedNext p s i words saved)
      (pos + (delivered p s i).length) (rd + (fetched p s i).length)
      (lostNext p s i words saved lost) where
  stored := by
    refine h.stored.next hr ?_ ((h.stored.lostNext_le hroom).trans (Nat.le_add_right _ _)) le_rfl
      hsave
    simp [step, hr, replayA, hredo, h.stored.raddrNext_eq]
  output := by
    obtain ⟨hout, hle⟩ := h.outputs_step hr hredo
    refine ⟨hle, ?_, h.output.skid.step h.output.starting, ?_⟩
    · rw [hout, h.stored.take_wordsNext (h.stored.fetched_le p i)]
    · intro hs ht
      exact absurd ⟨hs, ht⟩
        (AxisSkid.started_step s.skid (skidInputs s i) (by simp [skidInputs, replayA, hr, hredo]))

/-- An edge with a redo goes back to the word that the replay pointer addresses. -/
theorem redo (h : Stream p s words saved pos rd lost) (hr : i.reset = false)
    (hredo : i.redoI = true) (hsave : ¬ SavesNothing p s i) {start : ℕ}
    (hplay : s.rplay = ptr ABITS start) (hstart : start ≤ pos)
    (hlost : lostNext p s i words saved lost ≤ start) :
    Stream p (step p s i) (wordsNext p s i words saved) (savedNext p s i words saved)
      start start (lostNext p s i words saved lost) where
  stored := by
    have := h.output.pos_le
    exact h.stored.next hr (by simp [step, hr, replayA, hredo, hplay]) hlost (by omega) hsave
  output := by
    have hskid := AxisSkid.valid_of_reset s.skid (skidInputs s i)
      (by simp [skidInputs, replayA, hr, hredo])
    have hx : (step p s i).xvalid = false := by simp [step, hr, replayA, hredo]
    refine ⟨le_rfl, ?_, hskid.1, fun _ _ => hx⟩
    rw [outputWords_eq_nil (by simp [xWords, hx]) hskid.2, eq_comm, List.drop_eq_nil_iff,
      List.length_take]
    omega

end Stream

end MiscVerilogCores.PacketFifo
