import Mathlib.Data.BitVec

/-! # Text

A text is cut into lines and words, and numbers are written in hexadecimal digits. -/

namespace MiscVerilogCores.Text

variable {α β : Type*}

/-! ## Lines and words -/

/-- What stands between separators, if it is not empty. -/
def wordsBy (sep : α → Bool) (text : List α) : List (List α) :=
  (text.splitOnP sep).filter fun word => !word.isEmpty

/-- The lines, each with a separator behind it; behind the last separator there may be one more. -/
def linesBy (sep : α → Bool) (text : List α) : List (List α) :=
  let parts := text.splitOnP sep
  if (parts.getLastD []).isEmpty then parts.dropLast else parts

section Words

variable {sep : α → Bool} {word rest text : List α} {x : α}

@[simp] theorem wordsBy_nil : wordsBy sep ([] : List α) = [] := by simp [wordsBy]

theorem wordsBy_of_forall (hword : ∀ y ∈ word, sep y = false) : wordsBy sep word = [word].filter (!·.isEmpty) := by
  rw [wordsBy, List.splitOnP_eq_singleton hword]

theorem wordsBy_cons (hword : ∀ y ∈ word, sep y = false) (hne : word ≠ []) (hx : sep x = true) :
    wordsBy sep (word ++ x :: rest) = word :: wordsBy sep rest := by
  rw [wordsBy, List.splitOnP_append_cons_of_forall_mem hword x hx]
  exact List.filter_cons_of_pos (by simpa using hne)

/-- To cut a line into words, and then the next one, is to cut the text into words. -/
theorem flatMap_splitOnP {brk : α → Bool} (h : ∀ y, brk y = true → sep y = true) (text : List α) :
    (text.splitOnP brk).flatMap (List.splitOnP sep) = text.splitOnP sep := by
  induction text with
  | nil => simp
  | cons y text ih =>
      rw [List.splitOnP_cons_eq_if_modifyHead, List.splitOnP_cons_eq_if_modifyHead, ← ih]
      cases hbrk : brk y with
      | true => simp [h y hbrk]
      | false =>
          obtain ⟨line, lines, hlines⟩ := List.exists_cons_of_ne_nil (List.splitOnP_ne_nil brk text)
          obtain ⟨first, more, hmore⟩ := List.exists_cons_of_ne_nil (List.splitOnP_ne_nil sep line)
          simp only [hlines, List.modifyHead_cons, List.flatMap_cons, List.splitOnP_cons_eq_if_modifyHead,
            hmore, Bool.false_eq_true, if_false]
          split <;> rfl

theorem flatMap_wordsBy_linesBy {brk : α → Bool} (h : ∀ y, brk y = true → sep y = true) (text : List α) :
    (linesBy brk text).flatMap (wordsBy sep) = wordsBy sep text := by
  have hall : (text.splitOnP brk).flatMap (wordsBy sep) = wordsBy sep text := by
    rw [wordsBy, ← flatMap_splitOnP h text, List.filter_flatMap]
    rfl
  rw [linesBy]
  split
  · rename_i hlast
    have hne := List.splitOnP_ne_nil brk text
    rw [List.getLastD_eq_getLast?, List.getLast?_eq_some_getLast hne, Option.getD_some,
      List.isEmpty_iff] at hlast
    rw [← List.dropLast_concat_getLast hne, List.flatMap_append, hlast] at hall
    simpa using hall
  · exact hall

end Words

/-! ## A text that is written word by word -/

section Written

variable {sep : α → Bool} (token : β → List α) (stop : β → α)

/-- Each word with a separator behind it. -/
def written (items : List β) : List α := items.flatMap fun b => token b ++ [stop b]

variable {token stop}

theorem written_cons (b : β) (items : List β) :
    written token stop (b :: items) = token b ++ stop b :: written token stop items := by
  rw [written, List.flatMap_cons, List.append_assoc]
  rfl

theorem written_concat (items : List β) (b : β) :
    written token stop (items ++ [b]) = written token stop items ++ (token b ++ [stop b]) := by
  rw [written, List.flatMap_append, List.flatMap_singleton]
  rfl

/-- The words can be told from the separators. -/
structure Readable (sep : α → Bool) (token : β → List α) (stop : β → α) : Prop where
  token_ne (b : β) : token b ≠ []
  token_sep (b : β) : ∀ x ∈ token b, sep x = false
  stop_sep (b : β) : sep (stop b) = true

theorem Readable.wordsBy_written (h : Readable sep token stop) (items : List β) :
    wordsBy sep (written token stop items) = items.map token := by
  induction items with
  | nil => exact wordsBy_nil
  | cons b items ih =>
      rw [written_cons, wordsBy_cons (h.token_sep b) (h.token_ne b) (h.stop_sep b), ih, List.map_cons]

/-- The front of the text has the first words, and perhaps a part of one more. -/
theorem Readable.wordsBy_of_written (h : Readable sep token stop) {items : List β} {text : List α}
    (htext : text <+: written token stop items) :
    (wordsBy sep text).dropLast <+: items.map token := by
  induction items generalizing text with
  | nil =>
      rw [List.prefix_nil.mp htext]
      simp
  | cons b items ih =>
      rw [written_cons, ← List.singleton_append, ← List.append_assoc] at htext
      obtain hshort | hlong := List.prefix_or_prefix_of_prefix htext (List.prefix_append _ _)
      · obtain heq | hpart := List.prefix_concat_iff.mp hshort
        · rw [heq, wordsBy_cons (h.token_sep b) (h.token_ne b) (h.stop_sep b)]
          simp
        · have hsep : ∀ x ∈ text, sep x = false := fun x hx => h.token_sep b x (hpart.subset hx)
          rw [wordsBy_of_forall hsep, List.filter_cons]
          split <;> exact List.nil_prefix
      · obtain ⟨more, rfl⟩ := hlong
        have hmore := ih ((List.prefix_append_right_inj _).mp htext)
        rw [List.append_assoc, List.singleton_append,
          wordsBy_cons (h.token_sep b) (h.token_ne b) (h.stop_sep b), List.map_cons]
        obtain hnone | hsome := Decidable.em (wordsBy sep more = [])
        · rw [hnone]
          exact List.nil_prefix
        · rw [List.dropLast_cons_of_ne_nil hsome]
          exact List.cons_prefix_cons.mpr ⟨rfl, hmore⟩

end Written

/-! ## Hexadecimal numbers -/

/-- A number in hexadecimal, filled up with zeros. -/
def upperHex (width n : ℕ) : List Char := ((Nat.toDigits 16 n).map Char.toUpper).leftpad width '0'

/-- The lowest digits of a number, the highest of them in front. -/
def hexDigits : ℕ → ℕ → List Char
  | 0, _ => []
  | width + 1, n => hexDigits width (n / 16) ++ [(Nat.digitChar (n % 16)).toUpper]

@[simp] theorem length_hexDigits (width n : ℕ) : (hexDigits width n).length = width := by
  induction width generalizing n with
  | zero => rfl
  | succ width ih => simp [hexDigits, ih]

theorem hexDigits_zero (width : ℕ) : hexDigits width 0 = List.replicate width '0' := by
  induction width with
  | zero => rfl
  | succ width ih =>
      rw [hexDigits, Nat.zero_div, ih, List.replicate_succ']
      rfl

/-- A number that is small enough has its digits, and zeros in front. -/
theorem upperHex_eq {width n : ℕ} (hwidth : width ≠ 0) (hn : n < 16 ^ width) :
    upperHex width n = hexDigits width n := by
  induction width generalizing n with
  | zero => exact absurd rfl hwidth
  | succ width ih =>
      rw [hexDigits]
      by_cases hsmall : n < 16
      · rw [upperHex, Nat.toDigits_of_lt_base hsmall, Nat.div_eq_of_lt hsmall, Nat.mod_eq_of_lt hsmall,
          hexDigits_zero]
        simp [List.leftpad]
      · have hzero : width ≠ 0 := by
          rintro rfl
          exact hsmall (by simpa using hn)
        rw [← ih hzero (Nat.div_lt_of_lt_mul (by rwa [← Nat.pow_succ'])), upperHex, upperHex,
          Nat.toDigits_of_base_le (by decide) (Nat.le_of_not_lt hsmall)]
        simp [List.leftpad, Nat.add_sub_add_right]

end MiscVerilogCores.Text
