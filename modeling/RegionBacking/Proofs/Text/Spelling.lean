import RegionBacking.Proofs.Text
import RegionBacking.Proofs.Text.Grammar
import RegionBacking.Text.Json
import RegionBacking.Text.Number

/-!
# Spellings of strings, numbers and values

A string may be spelled in many ways, as each of its characters may be escaped (`Scan.Spells`).
Every spelling is read as the characters that it stands for (`Scan.string?_eq`), and what is written
is a spelling (`Quoted.spells_escape`). A natural number has one spelling, its decimal digits, and
they are read as the number as long as it is a word (`Number.read?_toDigits`). So what is written
for a value is a text of a value (`Json.isJson_chars`).
-/

namespace RegionBacking

/-! ## Strings -/

namespace Scan

/-- What stands between the quotes spells a text: characters stand for themselves or are escaped, by
a letter, by their number, or by the two numbers of a surrogate pair. -/
inductive Spells : List Char → List Char → Prop
  | nil : Spells [] []
  | plain (c : Char) (quote : c ≠ '"') (backslash : c ≠ '\\') (control : 32 ≤ c.toNat)
    {text body : List Char} (h : Spells text body) : Spells (c :: text) (c :: body)
  | letter (c d : Char) (escapes : letterEscape? c = some d) {text body : List Char}
    (h : Spells text body) : Spells (d :: text) ('\\' :: c :: body)
  | unit (a b c d : Char) (n : Nat) (digits : hexUnit? a b c d = some n)
    (high : isHighSurrogate n = false) (low : isLowSurrogate n = false) {text body : List Char}
    (h : Spells text body) : Spells (Char.ofNat n :: text) ('\\' :: 'u' :: a :: b :: c :: d :: body)
  | pair (a b c d a' b' c' d' : Char) (m n : Nat) (digits : hexUnit? a b c d = some m)
    (digits' : hexUnit? a' b' c' d' = some n) (high : isHighSurrogate m = true)
    (low : isLowSurrogate n = true) {text body : List Char} (h : Spells text body) :
    Spells (ofSurrogates m n :: text)
      ('\\' :: 'u' :: a :: b :: c :: d :: '\\' :: 'u' :: a' :: b' :: c' :: d' :: body)

variable {text body : List Char}

/-- A spelling is read as what it spells. -/
theorem string?_eq (h : Spells text body) (rest : List Char) :
    string? (body ++ '"' :: rest) = some (text, rest) := by
  induction h with
  | nil => simp [string?]
  | plain c quote backslash control h ih =>
    have hcontrol : ¬ (c = '\\' ∨ c.toNat < 32) := by
      rintro (hc | hc)
      · exact backslash hc
      · omega
    rw [List.cons_append, string?, if_neg hcontrol, ih]
    · rfl
    all_goals simp_all
  | letter c d escapes h ih =>
    have hu : c ≠ 'u' := by
      rintro rfl
      cases escapes
    rw [List.cons_append, List.cons_append, string?]
    · simp [escapes, ih]
    all_goals simp_all
  | @unit a b c d n digits high low text body h ih =>
    simp only [List.cons_append]
    generalize body ++ '"' :: rest = behind at ih
    unfold string?
    -- Another number may stand behind this one, which is no part of a pair.
    split
    · next heq => cases heq
    · next heq =>
      cases heq
      simp [digits, high, low, ih]
    · next heq =>
      cases heq
      simp [digits, high, low, ih]
    · next hother heq =>
      cases heq
      exact (hother _ _ _ _ _ rfl rfl).elim
    · next hother heq =>
      cases heq
      exact (hother _ _ rfl rfl).elim
    · next heq => cases heq
  | pair a b c d a' b' c' d' m n digits digits' high low h ih =>
    simp only [List.cons_append]
    rw [string?]
    simp [digits, digits', high, low, ih]

/-- A spelling may stand between quotes. -/
theorem Spells.isString (h : Spells text body) : IsString body := by
  induction h with
  | nil => exact .nil
  | plain c quote backslash control h ih => exact .plain c quote backslash control ih
  | letter c d escapes h ih => exact .letter c d escapes ih
  | unit a b c d n digits high low h ih => exact .unit a b c d n digits ih
  | pair a b c d a' b' c' d' m n digits digits' high low h ih =>
    exact .unit a b c d m digits (.unit a' b' c' d' n digits' ih)

end Scan

/-- What is written in quotes is a spelling of the text. -/
theorem Quoted.spells_escape (text : List Char) : Scan.Spells text (text.flatMap escape) := by
  induction text with
  | nil => exact .nil
  | cons c text ih =>
    rw [List.flatMap_cons, escape]
    split
    · next h => exact h ▸ .letter '"' '"' rfl ih
    split
    · next h => exact h ▸ .letter '\\' '\\' rfl ih
    split
    · next h => exact h ▸ .letter 'b' '\x08' rfl ih
    split
    · next h => exact h ▸ .letter 'f' '\x0c' rfl ih
    split
    · next h => exact h ▸ .letter 'n' '\n' rfl ih
    split
    · next h => exact h ▸ .letter 'r' '\r' rfl ih
    split
    · next h => exact h ▸ .letter 't' '\t' rfl ih
    split
    · next hcontrol =>
      -- The two digits are those of the character.
      have hdigits : ∀ n < 32,
          Scan.hexUnit? '0' '0' (hexDigit (n / 16)) (hexDigit (n % 16)) = some n := by decide
      have hunit := Scan.Spells.unit _ _ _ _ _ (hdigits c.toNat hcontrol)
        (decide_eq_false (by omega)) (decide_eq_false (by omega)) ih
      rwa [Char.ofNat_toNat] at hunit
    · next quote backslash _ _ _ _ _ control =>
      exact .plain c quote backslash (by omega) ih

/-! ## Numbers -/

namespace Number

variable {rest digits : List Char} {n : Nat}

/-- What may stand behind a value belongs to no number. -/
theorem afterInteger?_of_ends (ends : Scan.Ends rest) (negative : Bool) (n : Nat) :
    afterInteger? negative n rest = some (exact negative n, rest) := by
  unfold afterInteger?
  split
  · rcases ends '.' rfl with h | h | h | h <;> cases h
  · rcases ends 'e' rfl with h | h | h | h <;> cases h
  · rcases ends 'E' rfl with h | h | h | h <;> cases h
  · rfl

/-- A row of digits is read as its value, as long as that is a word. -/
theorem integerDigits?_append (negative : Bool) (start : Nat)
    (hdigits : ∀ c ∈ digits, Numeral.isDigit c = true)
    (hlt : Numeral.value start digits < Word.limit) (hrest : Scan.Undigited rest) :
    integerDigits? negative start (digits ++ rest) =
      afterInteger? negative (Numeral.value start digits) rest := by
  induction digits generalizing start with
  | nil =>
    cases rest with
    | nil => rfl
    | cons c rest =>
      rw [List.nil_append, integerDigits?, hrest c rfl, if_neg Bool.false_ne_true]
      rfl
  | cons c digits ih =>
    obtain ⟨hc, hlater⟩ := List.forall_mem_cons.mp hdigits
    have hword : start * 10 + digit c < Word.limit :=
      (Numeral.le_value (start * 10 + digit c) digits).trans_lt hlt
    rw [List.cons_append, integerDigits?, if_pos hc, if_pos hword]
    exact ih _ hlater hlt

/-- The decimal digits of a number start with a zero only if they are one. -/
theorem head_toDigits (h : 0 < n) : ∃ c later, Nat.toDigits 10 n = c :: later ∧ c ≠ '0' := by
  induction n using Nat.strongRecOn with
  | ind n ih =>
    rw [Nat.toDigits_eq_if (by decide)]
    split
    · next hlt =>
      have hall : ∀ m < 10, 0 < m → Nat.digitChar m ≠ '0' := by decide
      exact ⟨_, [], rfl, hall n hlt h⟩
    · next hge =>
      obtain ⟨c, later, hhead, hc⟩ := ih (n / 10) (by omega) (by omega)
      rw [hhead]
      exact ⟨c, later ++ [Nat.digitChar (n % 10)], rfl, hc⟩

theorem toDigits_eq_cons (n : Nat) : ∃ c later, Nat.toDigits 10 n = c :: later ∧
    Numeral.isDigit c = true ∧ (∀ d ∈ later, Numeral.isDigit d = true) ∧ (0 < n → c ≠ '0') := by
  obtain ⟨c, later, hdigits⟩ := List.exists_cons_of_ne_nil (Nat.toDigits_ne_nil (n := n) (b := 10))
  have hall : ∀ d ∈ c :: later, Numeral.isDigit d = true := fun d hd =>
    Numeral.isDigit_of_mem_toDigits (hdigits ▸ hd)
  obtain ⟨hc, hlater⟩ := List.forall_mem_cons.mp hall
  refine ⟨c, later, hdigits, hc, hlater, fun hpos => ?_⟩
  obtain ⟨d, _, hhead, hd⟩ := head_toDigits hpos
  exact List.head_eq_of_cons_eq (hhead.symm.trans hdigits) ▸ hd

/-- The decimal digits of a word are read as the word. -/
theorem read?_toDigits (h : n < Word.limit) (ends : Scan.Ends rest) :
    read? (Nat.toDigits 10 n ++ rest) = some (.natural n, rest) := by
  have hend := afterInteger?_of_ends ends false
  rcases Nat.eq_zero_or_pos n with rfl | hpos
  · show unsigned? false ('0' :: rest) = _
    cases rest with
    | nil => exact hend 0
    | cons c rest =>
      show (if Numeral.isDigit c = true then none else afterInteger? false 0 (c :: rest)) = _
      rw [ends.undigited c rfl, if_neg Bool.false_ne_true]
      exact hend 0
  · obtain ⟨c, later, hdigits, hc, hlater, hzero⟩ := toDigits_eq_cons n
    have hvalue : Numeral.value (digit c) later = n := by
      rw [← Numeral.value_toDigits n, hdigits]
      simp [Numeral.value, digit]
    rw [hdigits, List.cons_append, read?, unsigned?, if_pos hc,
      integerDigits?_append false _ hlater (hvalue ▸ h) ends.undigited, hvalue]
    · exact hend n
    · exact hzero hpos
    · exact fun _ heq => Scan.ne_of_isDigit hc rfl (List.head_eq_of_cons_eq heq)

theorem startsWith_of_isDigit {c : Char} (hc : Numeral.isDigit c = true) : startsWith c = true := by
  rw [startsWith, hc, Bool.or_true]

end Number

/-! ## Values -/

namespace Json

open Scan (IsJson fieldText)

/-- The numbers in a value are spelled as numbers. -/
inductive WellFormed : Json → Prop
  | null : WellFormed null
  | bool (b : Bool) : WellFormed (bool b)
  | number {text : List Char} (h : Scan.IsNumber text) : WellFormed (number text)
  | string (text : List Char) : WellFormed (string text)
  | array {items : List Json} (h : ∀ item ∈ items, WellFormed item) : WellFormed (array items)
  | object {fields : List (String × Json)} (h : ∀ field ∈ fields, WellFormed field.2) :
    WellFormed (object fields)

theorem wellFormed_nat (n : Nat) : WellFormed (nat n) := by
  have hinteger : Scan.IsInteger (Nat.toDigits 10 n) := by
    rcases Nat.eq_zero_or_pos n with rfl | hpos
    · exact .zero
    · obtain ⟨c, later, hdigits, hc, hlater, hzero⟩ := Number.toDigits_eq_cons n
      exact hdigits ▸ .digits c (hzero hpos) hc hlater
  have hnumber := Scan.IsNumber.mk (.inl rfl) hinteger .none .none
  rw [List.nil_append, List.append_nil, List.append_nil] at hnumber
  exact .number hnumber

/-- The characters of fields are the texts of the fields with commas between them. -/
theorem fieldChars_eq (fields : List (String × Json)) :
    fieldChars fields = [','].intercalate (fields.map fun field =>
      fieldText [] (field.1.toList.flatMap Quoted.escape) [] [] field.2.chars []) := by
  have hfirst (name : String) (value : Json) :
      Quoted.encode name.toList ++ ':' :: value.chars =
        fieldText [] (name.toList.flatMap Quoted.escape) [] [] value.chars [] := by
    simp [Quoted.encode, fieldText]
  induction fields with
  | nil => rfl
  | cons field fields ih =>
    cases fields with
    | nil => rw [fieldChars, hfirst, List.map_singleton, List.intercalate_singleton]
    | cons next fields =>
      rw [fieldChars, hfirst, ih]
      · simp only [List.map_cons, List.intercalate_cons_cons, List.append_assoc,
          List.singleton_append]
      · exact List.cons_ne_nil _ _

theorem isJson_itemChars {items : List Json} (hne : items ≠ [])
    (h : ∀ item ∈ items, IsJson .value item.chars) : IsJson .items (itemChars items) := by
  induction items with
  | nil => exact (hne rfl).elim
  | cons item items ih =>
    obtain ⟨hitem, hitems⟩ := List.forall_mem_cons.mp h
    cases items with
    | nil =>
      have hlast := IsJson.lastItem Scan.blank_nil Scan.blank_nil hitem
      rwa [List.nil_append, List.append_nil] at hlast
    | cons next items =>
      rw [itemChars]
      · exact .item Scan.blank_nil Scan.blank_nil hitem (ih (List.cons_ne_nil _ _) hitems)
      · exact List.cons_ne_nil _ _

theorem isJson_fieldChars {fields : List (String × Json)} (hne : fields ≠ [])
    (h : ∀ field ∈ fields, IsJson .value field.2.chars) : IsJson .fields (fieldChars fields) := by
  rw [fieldChars_eq]
  induction fields with
  | nil => exact (hne rfl).elim
  | cons field fields ih =>
    obtain ⟨hfield, hfields⟩ := List.forall_mem_cons.mp h
    have hname := (Quoted.spells_escape field.1.toList).isString
    cases fields with
    | nil =>
      rw [List.map_singleton, List.intercalate_singleton]
      exact .lastField Scan.blank_nil hname Scan.blank_nil Scan.blank_nil Scan.blank_nil hfield
    | cons next fields =>
      rw [List.map_cons, List.map_cons, List.intercalate_cons_cons, List.append_assoc]
      exact .field Scan.blank_nil hname Scan.blank_nil Scan.blank_nil Scan.blank_nil hfield
        (ih (List.cons_ne_nil _ _) hfields)

/-- What is written for a value is a text of a value. -/
theorem isJson_chars {value : Json} (h : value.WellFormed) : IsJson .value value.chars := by
  induction h with
  | null => exact .null
  | bool b =>
    cases b with
    | false => exact .off
    | true => exact .on
  | number h => exact .number h
  | string text => exact .string (Quoted.spells_escape text).isString
  | @array items h ih =>
    rcases eq_or_ne items [] with rfl | hne
    · exact .emptyArray Scan.blank_nil
    · exact .array (isJson_itemChars hne ih)
  | @object fields h ih =>
    rcases eq_or_ne fields [] with rfl | hne
    · exact .emptyObject Scan.blank_nil
    · exact .object (isJson_fieldChars hne ih)

end Json

end RegionBacking
