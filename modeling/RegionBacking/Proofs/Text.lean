import Mathlib.Data.List.TakeWhile
import RegionBacking.Text.Blank
import RegionBacking.Text.Numeral
import RegionBacking.Text.Split

/-!
# Numerals and parts of texts

What is read off a text, said without the way in which it is read: which texts are numerals of a
word (`Numeral.parse?_eq_some_iff`), of which the decimal digits of a word are one, and which are the
parts of a text between separators (`mem_splitOn_iff`).
-/

namespace RegionBacking

/-! ## Numerals -/

namespace Numeral

/-- A text is a numeral of a word: at least one digit, with a plus sign in front or without. -/
def Denotes (text : List Char) (n : Nat) : Prop :=
  ∃ digits, (text = digits ∨ text = '+' :: digits) ∧ digits ≠ [] ∧
    (∀ c ∈ digits, isDigit c = true) ∧ value 0 digits = n ∧ n < Word.limit

variable {text digits : List Char} {n : Nat}

theorem ofDigits?_eq_some_iff : ofDigits? digits = some n ↔
    digits ≠ [] ∧ (∀ c ∈ digits, isDigit c = true) ∧ value 0 digits = n ∧ n < Word.limit := by
  have hzero : 0 < Word.limit := by decide
  unfold ofDigits?
  split
  · next hnone =>
    simp only [Bool.or_eq_true, List.isEmpty_iff, Bool.not_eq_true', List.all_eq_false,
      Bool.not_eq_true] at hnone
    refine iff_of_false nofun ?_
    rintro ⟨hne, hdigits, -⟩
    rcases hnone with hempty | ⟨c, hc, hno⟩
    · exact hne hempty
    · rw [hdigits c hc] at hno
      cases hno
  · next hsome =>
    simp only [Bool.or_eq_true, List.isEmpty_iff, Bool.not_eq_true', List.all_eq_false, not_or,
      not_exists, not_and, Bool.not_eq_true, Bool.not_eq_false] at hsome
    rw [word?_eq 0 digits hzero]
    split
    · next hlt =>
      constructor
      · intro h
        cases h
        exact ⟨hsome.1, hsome.2, rfl, hlt⟩
      · rintro ⟨-, -, rfl, -⟩
        rfl
    · next hge =>
      refine iff_of_false nofun ?_
      rintro ⟨-, -, rfl, hlt⟩
      exact hge hlt

theorem parse?_eq_some_iff : parse? text = some n ↔ Denotes text n := by
  unfold parse?
  split
  · next digits =>
    rw [ofDigits?_eq_some_iff]
    constructor
    · exact fun h => ⟨digits, .inr rfl, h⟩
    · rintro ⟨other, htext | htext, hne, hdigits, hvalue⟩
      -- A plus sign is no digit.
      · subst htext
        cases hdigits '+' List.mem_cons_self
      · cases htext
        exact ⟨hne, hdigits, hvalue⟩
  · next hplus =>
    rw [ofDigits?_eq_some_iff]
    constructor
    · exact fun h => ⟨text, .inl rfl, h⟩
    · rintro ⟨digits, htext | htext, hrest⟩
      · exact htext ▸ hrest
      · exact (hplus digits htext).elim

/-! ### The digits of a number -/

theorem isDigit_eq (c : Char) : isDigit c = c.isDigit := by
  rw [isDigit, Char.isDigit, Bool.eq_iff_iff]
  simp [Char.le_def]

theorem digitValue_digitChar (h : n < 10) : digitValue n.digitChar = n := by
  have hall : ∀ m < 10, digitValue (Nat.digitChar m) = m := by decide
  exact hall n h

/-- One more digit behind others. -/
theorem value_concat (start : Nat) (digits : List Char) (c : Char) :
    value start (digits ++ [c]) = value start digits * 10 + digitValue c := by
  rw [value, value, List.foldl_append, List.foldl_cons, List.foldl_nil]

theorem value_toDigits (n : Nat) : value 0 (Nat.toDigits 10 n) = n := by
  induction n using Nat.strongRecOn with
  | ind n ih =>
    rw [Nat.toDigits_eq_if (by decide)]
    split
    · next hlt =>
      show 0 * 10 + digitValue n.digitChar = n
      rw [digitValue_digitChar hlt]
      omega
    · next hge =>
      rw [value_concat, ih (n / 10) (by omega), digitValue_digitChar (Nat.mod_lt n (by decide))]
      omega

theorem isDigit_of_mem_toDigits {c : Char} (h : c ∈ Nat.toDigits 10 n) : isDigit c = true := by
  rw [isDigit_eq]
  exact Nat.isDigit_of_mem_toDigits (by decide) (by decide) h

/-- The decimal digits of a number are a numeral of it, as long as it is a word. -/
theorem denotes_toDigits_iff {m : Nat} : Denotes (Nat.toDigits 10 m) n ↔ n = m ∧ m < Word.limit := by
  constructor
  · rintro ⟨digits, rfl | hplus, hne, hdigits, hvalue, hlt⟩
    · rw [value_toDigits] at hvalue
      exact ⟨hvalue.symm, hvalue ▸ hlt⟩
    · have hsign : isDigit '+' = true := isDigit_of_mem_toDigits (hplus ▸ List.mem_cons_self)
      cases hsign
  · rintro ⟨rfl, hlt⟩
    exact ⟨_, .inl rfl, Nat.toDigits_ne_nil, fun c hc => isDigit_of_mem_toDigits hc, value_toDigits n,
      hlt⟩

end Numeral

/-! ## White space -/

/-- A digit is no white space. -/
theorem isBlank_of_isDigit {c : Char} (h : Numeral.isDigit c = true) : isBlank c = false := by
  have hrange : 48 ≤ c.toNat ∧ c.toNat ≤ 57 := of_decide_eq_true h
  simp only [isBlank, Bool.or_eq_false_iff, Bool.and_eq_false_iff, decide_eq_false_iff_not,
    beq_eq_false_iff_ne]
  omega

/-- White space behind a text without any does not count. -/
theorem trim_append {text blank : List Char} (htext : ∀ c ∈ text, isBlank c = false)
    (hblank : ∀ c ∈ blank, isBlank c = true) : trim (text ++ blank) = text := by
  -- A text without white space loses nothing at either of its ends.
  have hkeep : ∀ kept : List Char, (∀ c ∈ kept, isBlank c = false) →
      kept.dropWhile isBlank = kept := fun kept hkept =>
    List.dropWhile_eq_self_iff.mpr fun hpos => by simp [hkept _ (List.getElem_mem hpos)]
  have hfront : ((text ++ blank).dropWhile isBlank).reverse.dropWhile isBlank =
      text.reverse.dropWhile isBlank := by
    rw [List.dropWhile_append, hkeep text htext]
    split
    · next hempty =>
      rw [List.isEmpty_iff.mp hempty, List.dropWhile_eq_nil_iff.mpr hblank]
    · rw [List.reverse_append, List.dropWhile_append_of_pos]
      intro c hc
      exact hblank c (List.mem_reverse.mp hc)
  rw [trim, hfront, hkeep text.reverse fun c hc => htext c (List.mem_reverse.mp hc),
    List.reverse_reverse]

/-! ## Parts between separators -/

/-- A part of a text between separators. -/
def IsPart (separator : Char) (text part : List Char) : Prop :=
  ∃ parts, [separator].intercalate parts = text ∧ (∀ part ∈ parts, separator ∉ part) ∧ part ∈ parts

theorem notMem_of_mem_splitOn {separator : Char} {text part : List Char}
    (h : part ∈ text.splitOn separator) : separator ∉ part := by
  induction text generalizing part with
  | nil =>
    rw [List.splitOn_nil, List.mem_singleton] at h
    simp [h]
  | cons c rest ih =>
    rw [List.splitOn_cons_eq_if_modifyHead] at h
    split at h
    · rcases List.mem_cons.mp h with rfl | h
      · exact List.not_mem_nil
      · exact ih h
    · next hne =>
      -- The character belongs to the first part of the rest.
      obtain ⟨first, later, hsplit⟩ := List.exists_cons_of_ne_nil (List.splitOn_ne_nil separator rest)
      rw [hsplit, List.modifyHead_cons] at h
      rcases List.mem_cons.mp h with rfl | h
      · have hfirst := ih (hsplit ▸ List.mem_cons_self)
        rw [beq_iff_eq] at hne
        simp [hfirst, Ne.symm hne]
      · exact ih (hsplit ▸ List.mem_cons_of_mem first h)

theorem mem_splitOn_iff {separator : Char} {text part : List Char} :
    part ∈ text.splitOn separator ↔ IsPart separator text part := by
  constructor
  · intro h
    exact ⟨text.splitOn separator, List.intercalate_splitOn separator,
      fun _ => notMem_of_mem_splitOn, h⟩
  · rintro ⟨parts, rfl, hparts, hpart⟩
    rwa [List.splitOn_intercalate separator hparts (List.ne_nil_of_mem hpart)]

end RegionBacking
