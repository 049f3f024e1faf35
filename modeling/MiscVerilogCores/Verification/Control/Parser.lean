import MiscVerilogCores.Library.Clocked
import MiscVerilogCores.Model.Stdreq
import Mathlib.Data.List.ReduceOption

/-! # The request parser

What the registers of a request hold after some bytes of the stream, with any gaps between
them, and when the request is started. -/

namespace MiscVerilogCores.Stdreq.Parser

open Clocked

/-- One edge during a control transfer, with a byte of the stream or without. -/
def absorb (q : Parser) : Option (BitVec 8) → Parser
  | some b => q.take b
  | none => q.rest false

/-- The parser after an edge at which a request is started. -/
def startedAt (q : Parser) (o : Option (BitVec 8)) : List Parser :=
  if (q.absorb o).reqStart then [q.absorb o] else []

/-- The requests that are started while some bytes are absorbed, one for each cycle in which
`req_start_o` is high. -/
def started (q : Parser) (os : List (Option (BitVec 8))) : List Parser :=
  emitted absorb startedAt q os

/-! ## The bytes of a request -/

/-- A word, the low byte first. -/
def littleEndian (w : BitVec 16) : List (BitVec 8) := [w.setWidth 8, w.extractLsb' 8 8]

/-- A request, in the eight bytes that the host sends for it. -/
def encoded (q : Parser) : List (BitVec 8) :=
  [q.rtype, q.rargs] ++ littleEndian q.value ++ littleEndian q.index ++ littleEndian q.length

theorem littleEndian_append (hi lo : BitVec 8) : littleEndian (hi ++ lo) = [lo, hi] := by
  have hlo : (hi ++ lo).setWidth 8 = lo := BitVec.setWidth_append_eq_right
  have hhi : (hi ++ lo).extractLsb' 8 8 = hi := BitVec.extractLsb'_append_eq_left
  rw [littleEndian, hlo, hhi]

theorem encoded_eq (q : Parser) :
    q.encoded = [q.rtype, q.rargs, q.vallo, q.valhi, q.idxlo, q.idxhi, q.lenlo, q.lenhi] := by
  simp only [encoded, value, index, length, littleEndian_append]
  rfl

theorem littleEndian_injective : Function.Injective littleEndian := by
  intro v w h
  obtain ⟨hlo, hhi, -⟩ : v.setWidth 8 = w.setWidth 8 ∧ v.extractLsb' 8 8 = w.extractLsb' 8 8 ∧
      True := by simpa [littleEndian] using h
  apply BitVec.eq_of_toNat_eq
  have hlo := congrArg BitVec.toNat hlo
  have hhi := congrArg BitVec.toNat hhi
  simp only [BitVec.toNat_setWidth, BitVec.extractLsb'_toNat, Nat.shiftRight_eq_div_pow] at hlo hhi
  omega

@[simp] theorem length_littleEndian (w : BitVec 16) : (littleEndian w).length = 2 := rfl

@[simp] theorem length_encoded (q : Parser) : q.encoded.length = 8 := rfl

@[simp] theorem encoded_rest (q : Parser) (b : Bool) : (q.rest b).encoded = q.encoded := rfl

theorem encoded_take (q : Parser) (b : BitVec 8) :
    (q.take b).encoded = q.encoded.set q.xcptr.toNat b := by
  obtain ⟨x, rtype, rargs, vallo, valhi, idxlo, idxhi, lenlo, lenhi, start, cycle⟩ := q
  rw [encoded_eq, encoded_eq]
  have hcases : x = 0 ∨ x = 1 ∨ x = 2 ∨ x = 3 ∨ x = 4 ∨ x = 5 ∨ x = 6 ∨ x = 7 := by
    revert x
    decide
  rcases hcases with rfl | rfl | rfl | rfl | rfl | rfl | rfl | rfl <;> rfl

/-! ## One edge -/

section Edge

variable {q : Parser} (b : BitVec 8)

@[simp] theorem absorb_none (q : Parser) : q.absorb none = q.rest false := rfl

@[simp] theorem absorb_some (q : Parser) : q.absorb (some b) = q.take b := rfl

@[simp] theorem xcptr_rest (q : Parser) (done : Bool) : (q.rest done).xcptr = q.xcptr := rfl

@[simp] theorem reqStart_rest (q : Parser) (done : Bool) : (q.rest done).reqStart = false := rfl

@[simp] theorem reqCycle_rest_false (q : Parser) : (q.rest false).reqCycle = q.reqCycle := rfl

/-- A byte that does not fill up the registers. -/
theorem xcptr_take (h : q.xcptr ≠ 7) : (q.take b).xcptr.toNat = q.xcptr.toNat + 1 := by
  have hsucc : ∀ x : BitVec 3, x ≠ 7 → (x + 1).toNat = x.toNat + 1 := by decide
  rw [take, if_neg h]
  exact hsucc q.xcptr h

theorem reqStart_take (h : q.xcptr ≠ 7) : (q.take b).reqStart = q.reqStart := by
  rw [take, decide_eq_false h]
  rfl

theorem reqCycle_take (h : q.xcptr ≠ 7) : (q.take b).reqCycle = q.reqCycle := by
  rw [take, decide_eq_false h]
  rfl

/-- The byte that fills them up. -/
theorem reqStart_take_last (h : q.xcptr = 7) (hcycle : q.reqCycle = false) :
    (q.take b).reqStart = true := by
  simp [take, h, hcycle]

theorem take_of_cycle (h : q.reqCycle = true) :
    (q.take b).reqStart = q.reqStart ∧ (q.take b).reqCycle = true := by
  simp [take, h]

end Edge

/-! ## Whole packets -/

section Packets

variable {q : Parser} {os : List (Option (BitVec 8))}

theorem started_cons (q : Parser) (o : Option (BitVec 8)) (os : List (Option (BitVec 8))) :
    started q (o :: os) = startedAt q o ++ started (q.absorb o) os := rfl

theorem startedAt_eq_nil {o : Option (BitVec 8)} (h : (q.absorb o).reqStart = false) :
    startedAt q o = [] := by
  simp [startedAt, h]

/-- No request is started while one is in its cycle. -/
theorem started_of_cycle (hcycle : q.reqCycle = true) (hstart : q.reqStart = false) :
    started q os = [] := by
  induction os generalizing q with
  | nil => rfl
  | cons o os ih =>
      obtain ⟨hs, hc⟩ : (q.absorb o).reqStart = false ∧ (q.absorb o).reqCycle = true := by
        cases o with
        | none => exact ⟨rfl, hcycle⟩
        | some b => exact ⟨(take_of_cycle b hcycle).1.trans hstart, (take_of_cycle b hcycle).2⟩
      rw [started_cons, startedAt_eq_nil hs, ih hc hs]
      rfl

/-- No request is started by too few bytes. -/
theorem started_of_short (hstart : q.reqStart = false)
    (hlen : q.xcptr.toNat + os.reduceOption.length < 8) : started q os = [] := by
  induction os generalizing q with
  | nil => rfl
  | cons o os ih =>
      cases o with
      | none =>
          rw [started_cons, startedAt_eq_nil rfl, ih rfl (by simpa using hlen)]
          rfl
      | some b =>
          rw [List.reduceOption_cons_of_some, List.length_cons] at hlen
          have hne : q.xcptr ≠ 7 := by
            intro h
            rw [h, show (7 : BitVec 3).toNat = 7 from rfl] at hlen
            omega
          have hs : (q.absorb (some b)).reqStart = false := (reqStart_take b hne).trans hstart
          have hlen' : (q.absorb (some b)).xcptr.toNat + os.reduceOption.length < 8 := by
            rw [absorb_some, xcptr_take b hne]
            omega
          rw [started_cons, startedAt_eq_nil hs, ih hs hlen']
          rfl

/-- The byte that fills up the registers starts the request. -/
theorem started_of_long (hcycle : q.reqCycle = false)
    (hlen : 8 ≤ q.xcptr.toNat + os.reduceOption.length) : started q os ≠ [] := by
  induction os generalizing q with
  | nil =>
      have hlt := q.xcptr.isLt
      simp at hlen
      omega
  | cons o os ih =>
      rw [started_cons]
      cases o with
      | none => exact List.append_ne_nil_of_right_ne_nil _ (ih hcycle (by simpa using hlen))
      | some b =>
          by_cases h : q.xcptr = 7
          · simp [startedAt, reqStart_take_last b h hcycle]
          · apply List.append_ne_nil_of_right_ne_nil
            apply ih ((reqCycle_take b h).trans hcycle)
            rw [List.reduceOption_cons_of_some, List.length_cons] at hlen
            rw [xcptr_take b h]
            omega

/-- A request is started exactly when the registers are filled up outside a request cycle. -/
theorem started_eq_nil_iff (hstart : q.reqStart = false) :
    started q os = [] ↔ q.reqCycle = true ∨ q.xcptr.toNat + os.reduceOption.length < 8 := by
  constructor
  · intro h
    by_contra hno
    rw [not_or] at hno
    exact started_of_long (by simpa using hno.1) (by omega) h
  · rintro (h | h)
    · exact started_of_cycle h hstart
    · exact started_of_short hstart h

theorem started_of_no_bytes (h : os.reduceOption = []) : started q os = [] := by
  induction os generalizing q with
  | nil => rfl
  | cons o os ih =>
      cases o with
      | none =>
          rw [started_cons, startedAt_eq_nil rfl, ih (by simpa using h)]
          rfl
      | some b => simp [List.reduceOption_cons_of_some] at h

/-- Exactly as many bytes as are missing start one request, for one cycle. -/
theorem length_started (hcycle : q.reqCycle = false) (hstart : q.reqStart = false)
    (hlen : q.xcptr.toNat + os.reduceOption.length = 8) : (started q os).length = 1 := by
  induction os generalizing q with
  | nil =>
      have hlt := q.xcptr.isLt
      simp at hlen
      omega
  | cons o os ih =>
      cases o with
      | none =>
          rw [started_cons, startedAt_eq_nil rfl]
          exact ih hcycle rfl (by simpa using hlen)
      | some b =>
          rw [List.reduceOption_cons_of_some, List.length_cons] at hlen
          rw [started_cons]
          by_cases h : q.xcptr = 7
          · have hnone : os.reduceOption = [] := by
              rw [h, show (7 : BitVec 3).toNat = 7 from rfl] at hlen
              exact List.eq_nil_of_length_eq_zero (by omega)
            rw [started_of_no_bytes hnone, startedAt, absorb_some, reqStart_take_last b h hcycle]
            rfl
          · have hs : (q.absorb (some b)).reqStart = false := (reqStart_take b h).trans hstart
            rw [startedAt_eq_nil hs]
            apply ih ((reqCycle_take b h).trans hcycle) hs
            rw [xcptr_take b h]
            omega

theorem encoded_of_no_bytes (h : os.reduceOption = []) : (run absorb q os).encoded = q.encoded := by
  induction os generalizing q with
  | nil => rfl
  | cons o os ih =>
      cases o with
      | none => exact ih (by simpa using h)
      | some b => simp [List.reduceOption_cons_of_some] at h

/-- The bytes are stored one behind the other. -/
theorem encoded_absorbed (hlen : q.xcptr.toNat + os.reduceOption.length ≤ 8) :
    (run absorb q os).encoded.take (q.xcptr.toNat + os.reduceOption.length) =
      q.encoded.take q.xcptr.toNat ++ os.reduceOption := by
  induction os generalizing q with
  | nil => simp
  | cons o os ih =>
      cases o with
      | none => simpa using ih (q := q.absorb none) (by simpa using hlen)
      | some b =>
          rw [List.reduceOption_cons_of_some, List.length_cons] at hlen ⊢
          have hset : (q.take b).encoded.take (q.xcptr.toNat + 1) =
              q.encoded.take q.xcptr.toNat ++ [b] := by
            have hlt : q.xcptr.toNat < (q.encoded.set q.xcptr.toNat b).length := by
              simpa using q.xcptr.isLt
            rw [encoded_take, List.take_succ_eq_append_getElem hlt, List.take_set_of_le le_rfl]
            simp
          rw [run_cons, absorb_some]
          by_cases h : q.xcptr = 7
          · -- The last byte: nothing is stored behind it.
            have hnone : os.reduceOption = [] := by
              rw [h, show (7 : BitVec 3).toNat = 7 from rfl] at hlen
              exact List.eq_nil_of_length_eq_zero (by omega)
            rw [encoded_of_no_bytes hnone, hnone]
            exact hset
          · have hall := ih (q := q.take b) (by rw [xcptr_take b h]; omega)
            rw [xcptr_take b h, hset] at hall
            rw [← Nat.add_assoc, Nat.add_right_comm, hall]
            simp

/-- Eight bytes into a clear parser are the request. -/
theorem encoded_of_clear (hx : q.xcptr = 0) (hlen : os.reduceOption.length = 8) :
    (run absorb q os).encoded = os.reduceOption := by
  have hle : q.xcptr.toNat + os.reduceOption.length ≤ 8 := by rw [hx, hlen]; decide
  have hall := encoded_absorbed hle
  rwa [hx, hlen, show (0 : BitVec 3).toNat + 8 = 8 from rfl,
    List.take_of_length_le (by simp), show (0 : BitVec 3).toNat = 0 from rfl, List.take_zero,
    List.nil_append] at hall

/-- Too few bytes leave the last register alone, and start nothing. -/
theorem absorbed_short (hlen : q.xcptr.toNat + os.reduceOption.length < 8) :
    (run absorb q os).xcptr.toNat = q.xcptr.toNat + os.reduceOption.length ∧
      (run absorb q os).lenhi = q.lenhi ∧ (run absorb q os).reqCycle = q.reqCycle ∧
      (q.reqStart = false → (run absorb q os).reqStart = false) := by
  induction os generalizing q with
  | nil => simp
  | cons o os ih =>
      cases o with
      | none =>
          obtain ⟨hx, hhi, hcycle, hstart⟩ := ih (q := q.absorb none) (by simpa using hlen)
          exact ⟨by simpa using hx, hhi, hcycle, fun _ => hstart rfl⟩
      | some b =>
          rw [List.reduceOption_cons_of_some, List.length_cons] at hlen ⊢
          have hne : q.xcptr ≠ 7 := by
            intro h
            rw [h, show (7 : BitVec 3).toNat = 7 from rfl] at hlen
            omega
          have hsucc := xcptr_take b hne
          obtain ⟨hx, hhi, hcycle, hstart⟩ := ih (q := q.take b) (by omega)
          rw [run_cons, absorb_some]
          refine ⟨by omega, hhi.trans ?_, hcycle.trans (reqCycle_take b hne), fun h => ?_⟩
          · exact if_neg hne
          · exact hstart ((reqStart_take b hne).trans h)

/-- The request type is only written from a clear counter. -/
theorem rtype_of_ne_zero (hx : q.xcptr ≠ 0) : (run absorb q os).rtype = q.rtype := by
  induction os generalizing q with
  | nil => rfl
  | cons o os ih =>
      cases o with
      | none => exact ih hx
      | some b =>
          have hx' : (q.take b).xcptr ≠ 0 := by
            have hsucc : ∀ x : BitVec 3, x ≠ 0 → (if x = 7 then x else x + 1) ≠ 0 := by decide
            exact hsucc q.xcptr hx
          rw [run_cons, absorb_some, ih hx', take, if_neg hx]

end Packets

end MiscVerilogCores.Stdreq.Parser
