import MiscVerilogCores.Library.Packets
import MiscVerilogCores.Model.HexDump

/-! # The text of a frame

Two bytes are a word, the second one in front; a separator follows each word, and the last one of a
frame ends the line. -/

namespace MiscVerilogCores.HexDump

/-! ## Characters -/

def digits : List Char := ['0', '1', '2', '3', '4', '5', '6', '7', '8', '9', 'A', 'B', 'C', 'D', 'E', 'F']

def hexDigit (nibble : BitVec 4) : BitVec 8 := ascii (digits.getD nibble.toNat 'x')

theorem hexW_eq : ∀ nibble : BitVec 4, hexW nibble = hexDigit nibble := by decide

/-- The two digits of a byte, or what stands for a byte that is missing. -/
def byteText : Option (BitVec 8) → List (BitVec 8)
  | some byte => [hexDigit (byte.extractLsb' 4 4), hexDigit (byte.extractLsb' 0 4)]
  | none => [ascii 'x', ascii 'x']

/-- A character as it is sent, with a flag at the end of a line; in Unicode a zero comes first. -/
def character (unicode last : Bool) (c : BitVec 8) : List (Bool × BitVec 8) :=
  (if unicode then [(false, 0)] else []) ++ [(last, c)]

/-! ## Words and frames -/

variable (unicode : Bool)

/-- A word of two bytes and the character behind it. -/
def wordText (lo : BitVec 8) (hi : Option (BitVec 8)) (last : Bool) (separator : BitVec 8) :
    List (Bool × BitVec 8) :=
  (byteText hi ++ byteText (some lo)).flatMap (character unicode false) ++
    character unicode last separator

/-- The character between two words. -/
def separator (dash : Bool) : BitVec 8 := ascii (if dash then '-' else ' ')

/-- The text of a frame: `dash` tells which separator comes next. -/
def frameText : Bool → List (BitVec 8) → List (Bool × BitVec 8)
  | _, [] => []
  | _, [lo] => wordText unicode lo none true (ascii '\n')
  | _, [lo, hi] => wordText unicode lo (some hi) true (ascii '\n')
  | dash, lo :: hi :: bytes =>
      wordText unicode lo (some hi) false (separator dash) ++ frameText (!dash) bytes

/-- The text of a frame that has not ended: that of its whole words. -/
def openText : Bool → List (BitVec 8) → List (Bool × BitVec 8)
  | dash, lo :: hi :: bytes =>
      wordText unicode lo (some hi) false (separator dash) ++ openText (!dash) bytes
  | _, _ => []

/-- The text of a stream of bytes with `tlast` flags. -/
def dumpText (beats : List (Bool × BitVec 8)) : List (Bool × BitVec 8) :=
  (Packets.frames beats).done.flatMap (frameText unicode true) ++
    openText unicode true (Packets.frames beats).frame

/-! ## One byte more -/

section Concat

/-- The separator behind the next word. -/
def dashAfter (dash : Bool) (bytes : List (BitVec 8)) : Bool :=
  dash == decide (bytes.length / 2 % 2 = 0)

variable {unicode} {bytes : List (BitVec 8)}

/-- Two bytes more are a word more. -/
theorem even_words {n n' : ℕ} (heq : n' = n + 2) :
    decide (n' / 2 % 2 = 0) = !decide (n / 2 % 2 = 0) := by
  rw [← decide_not, decide_eq_decide]
  omega

theorem dashAfter_cons (dash : Bool) (lo hi : BitVec 8) :
    dashAfter dash (lo :: hi :: bytes) = dashAfter (!dash) bytes := by
  rw [dashAfter, dashAfter, even_words (n := bytes.length) (by simp)]
  cases dash <;> cases decide (bytes.length / 2 % 2 = 0) <;> rfl

theorem dashAfter_concat (dash : Bool) (lo hi : BitVec 8) :
    dashAfter dash (bytes ++ [lo, hi]) = !dashAfter dash bytes := by
  rw [dashAfter, dashAfter, even_words (n := bytes.length) (by simp)]
  cases dash <;> cases decide (bytes.length / 2 % 2 = 0) <;> rfl

/-- The first byte of a word is not written yet. -/
theorem openText_lo : ∀ (dash : Bool) (bytes : List (BitVec 8)), bytes.length % 2 = 0 →
    ∀ lo, openText unicode dash (bytes ++ [lo]) = openText unicode dash bytes
  | _, [], _, _ => rfl
  | _, [_], heven, _ => by simp at heven
  | dash, lo' :: hi' :: bytes, heven, lo => by
      have heven' : bytes.length % 2 = 0 := by simp at heven; omega
      simp only [List.cons_append, openText, openText_lo (!dash) bytes heven' lo]

theorem openText_hi : ∀ (dash : Bool) (bytes : List (BitVec 8)), bytes.length % 2 = 0 →
    ∀ lo hi, openText unicode dash (bytes ++ [lo, hi]) =
      openText unicode dash bytes ++
        wordText unicode lo (some hi) false (separator (dashAfter dash bytes))
  | dash, [], _, lo, hi => by simp [openText, dashAfter]
  | _, [_], heven, _, _ => by simp at heven
  | dash, lo' :: hi' :: bytes, heven, lo, hi => by
      have heven' : bytes.length % 2 = 0 := by simp at heven; omega
      rw [List.cons_append, List.cons_append, openText, openText_hi (!dash) bytes heven' lo hi,
        openText, dashAfter_cons, List.append_assoc]

theorem frameText_lo : ∀ (dash : Bool) (bytes : List (BitVec 8)), bytes.length % 2 = 0 →
    ∀ lo, frameText unicode dash (bytes ++ [lo]) =
      openText unicode dash bytes ++ wordText unicode lo none true (ascii '\n')
  | _, [], _, _ => rfl
  | _, [_], heven, _ => by simp at heven
  | dash, lo' :: hi' :: bytes, heven, lo => by
      have heven' : bytes.length % 2 = 0 := by simp at heven; omega
      rw [List.cons_append, List.cons_append, frameText, frameText_lo (!dash) bytes heven' lo,
        openText, List.append_assoc]
      simp

theorem frameText_hi : ∀ (dash : Bool) (bytes : List (BitVec 8)), bytes.length % 2 = 0 →
    ∀ lo hi, frameText unicode dash (bytes ++ [lo, hi]) =
      openText unicode dash bytes ++ wordText unicode lo (some hi) true (ascii '\n')
  | _, [], _, _, _ => rfl
  | _, [_], heven, _, _ => by simp at heven
  | dash, lo' :: hi' :: bytes, heven, lo, hi => by
      have heven' : bytes.length % 2 = 0 := by simp at heven; omega
      rw [List.cons_append, List.cons_append, frameText, frameText_hi (!dash) bytes heven' lo hi,
        openText, List.append_assoc]
      simp

end Concat

section Beats

variable {unicode} {beats : List (Bool × BitVec 8)} {front : List (BitVec 8)} {lo : BitVec 8}

/-- A first byte is not written yet. -/
theorem dumpText_first (heven : (Packets.frames beats).frame.length % 2 = 0) (byte : BitVec 8) :
    dumpText unicode (beats ++ [(false, byte)]) = dumpText unicode beats := by
  simp [dumpText, Packets.Frames.push, openText_lo _ _ heven]

/-- A first byte that ends its frame is written with what stands for a second. -/
theorem dumpText_odd (heven : (Packets.frames beats).frame.length % 2 = 0) (byte : BitVec 8) :
    dumpText unicode (beats ++ [(true, byte)]) =
      dumpText unicode beats ++ wordText unicode byte none true (ascii '\n') := by
  simp [dumpText, Packets.Frames.push, frameText_lo _ _ heven, openText]

/-- With the second byte the word is written. -/
theorem dumpText_second (hframe : (Packets.frames beats).frame = front ++ [lo])
    (heven : front.length % 2 = 0) (last : Bool) (byte : BitVec 8) :
    dumpText unicode (beats ++ [(last, byte)]) = dumpText unicode beats ++
      wordText unicode lo (some byte) last
        (if last then ascii '\n' else separator (dashAfter true front)) := by
  have hopen : openText unicode true (front ++ [lo]) = openText unicode true front :=
    openText_lo true front heven lo
  cases last
  · simp [dumpText, Packets.Frames.push, hframe, hopen, openText_hi _ _ heven]
  · simp [dumpText, Packets.Frames.push, hframe, hopen, frameText_hi _ _ heven, openText]

end Beats

end MiscVerilogCores.HexDump
