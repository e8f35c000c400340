import Mathlib.Data.List.DropRight
import RegionBacking.Text.Scan

/-!
# Texts of JSON values

The grammar of JSON as a relation on texts (`IsJson`), said without a scanner, and what the scanners
make of it. A value that is skipped is skipped as a whole and no further, whatever stands behind it,
as long as that cannot belong to a number (`Ends`). So the fuel of a text is its length
(`skipValue?_eq`).
-/

namespace RegionBacking.Scan

variable {text rest blank body : List Char} {c : Char}

/-! ## Blanks -/

/-- A text of blanks only. -/
def Blank (text : List Char) : Prop := ∀ c ∈ text, isSpace c = true

theorem blank_nil : Blank [] := List.forall_mem_nil _

theorem skipSpaces_append (h : Blank blank) (rest : List Char) :
    skipSpaces (blank ++ rest) = skipSpaces rest :=
  List.dropWhile_append_of_pos h

theorem skipSpaces_cons (h : isSpace c = false) (rest : List Char) :
    skipSpaces (c :: rest) = c :: rest :=
  List.dropWhile_cons_of_neg (Bool.not_eq_true _ ▸ h)

@[simp] theorem skipSpaces_skipSpaces (text : List Char) :
    skipSpaces (skipSpaces text) = skipSpaces text :=
  List.dropWhile_idempotent _ text

/-- Behind a value nothing may stand that could belong to a number: the text is at its end, or it
goes on with a blank, a comma or a closing bracket or brace. -/
def Ends (rest : List Char) : Prop :=
  ∀ c ∈ rest.head?, isSpace c = true ∨ c = ',' ∨ c = ']' ∨ c = '\x7d'

theorem ends_append (hblank : Blank blank) (hrest : Ends rest) : Ends (blank ++ rest) := by
  cases blank with
  | nil => exact hrest
  | cons c blank =>
    intro d hd
    obtain rfl := Option.mem_some_iff.mp hd
    exact .inl (hblank c List.mem_cons_self)

/-! ## Strings -/

/-- What may stand between the quotes of a string: characters from the blank on, of which quotes and
backslashes are escaped, and escapes by a letter or by four hexadecimal digits. -/
inductive IsString : List Char → Prop
  | nil : IsString []
  | plain (c : Char) (quote : c ≠ '"') (backslash : c ≠ '\\') (control : 32 ≤ c.toNat)
    {body : List Char} (h : IsString body) : IsString (c :: body)
  | letter (c d : Char) (escapes : letterEscape? c = some d) {body : List Char}
    (h : IsString body) : IsString ('\\' :: c :: body)
  | unit (a b c d : Char) (n : Nat) (digits : hexUnit? a b c d = some n) {body : List Char}
    (h : IsString body) : IsString ('\\' :: 'u' :: a :: b :: c :: d :: body)

theorem skipString?_eq (h : IsString body) (rest : List Char) :
    skipString? (body ++ '"' :: rest) = some rest := by
  induction h with
  | nil => simp [skipString?]
  | plain c quote backslash control h ih =>
    have hcontrol : ¬ (c = '\\' ∨ c.toNat < 32) := by
      rintro (hc | hc)
      · exact backslash hc
      · omega
    rw [List.cons_append, skipString?, if_neg hcontrol, ih]
    all_goals simp_all
  | letter c d escapes h ih =>
    have hu : c ≠ 'u' := by
      rintro rfl
      cases escapes
    rw [List.cons_append, List.cons_append, skipString?, escapes]
    · exact ih
    all_goals simp_all
  | unit a b c d n digits h ih =>
    simp only [List.cons_append, skipString?, digits]
    exact ih

/-! ## Numbers -/

/-- A text does not go on with a digit. -/
def Undigited (rest : List Char) : Prop := ∀ c ∈ rest.head?, Numeral.isDigit c = false

/-- A row of at least one digit. -/
def IsDigits (text : List Char) : Prop := text ≠ [] ∧ ∀ c ∈ text, Numeral.isDigit c = true

/-- The integer part of a number. A zero at its start stands alone. -/
inductive IsInteger : List Char → Prop
  | zero : IsInteger ['0']
  | digits (c : Char) (nonzero : c ≠ '0') (digit : Numeral.isDigit c = true) {later : List Char}
    (h : ∀ d ∈ later, Numeral.isDigit d = true) : IsInteger (c :: later)

/-- The places of a number, if it has any. -/
inductive IsFraction : List Char → Prop
  | none : IsFraction []
  | places {digits : List Char} (h : IsDigits digits) : IsFraction ('.' :: digits)

/-- The exponent of a number, if it has one. -/
inductive IsExponent : List Char → Prop
  | none : IsExponent []
  | scale {mark : Char} (hmark : mark = 'e' ∨ mark = 'E') {sign digits : List Char}
    (hsign : sign = [] ∨ sign = ['+'] ∨ sign = ['-']) (h : IsDigits digits) :
    IsExponent (mark :: sign ++ digits)

/-- A number: an integer part, with a minus sign or without, its places and its exponent. -/
inductive IsNumber : List Char → Prop
  | mk {sign integer fraction exponent : List Char} (hsign : sign = [] ∨ sign = ['-'])
    (hinteger : IsInteger integer) (hfraction : IsFraction fraction)
    (hexponent : IsExponent exponent) : IsNumber (sign ++ (integer ++ (fraction ++ exponent)))

theorem IsDigits.exists_cons {digits : List Char} (h : IsDigits digits) :
    ∃ c later, digits = c :: later ∧ Numeral.isDigit c = true := by
  obtain ⟨c, later, rfl⟩ := List.exists_cons_of_ne_nil h.1
  exact ⟨c, later, rfl, h.2 c List.mem_cons_self⟩

theorem ne_of_isDigit {d : Char} (hc : Numeral.isDigit c = true) (hd : Numeral.isDigit d = false) :
    c ≠ d := by
  rintro rfl
  exact Bool.false_ne_true (hd.symm.trans hc)

theorem Ends.undigited (ends : Ends rest) : Undigited rest := by
  intro c hc
  rcases ends c hc with hspace | rfl | rfl | rfl
  · simp only [isSpace, Bool.or_eq_true, beq_iff_eq] at hspace
    rcases hspace with ((rfl | rfl) | rfl) | rfl <;> rfl
  · rfl
  · rfl
  · rfl

theorem skipDigits_append {digits : List Char} (h : ∀ c ∈ digits, Numeral.isDigit c = true)
    (hrest : Undigited rest) : skipDigits (digits ++ rest) = rest := by
  rw [skipDigits, List.dropWhile_append_of_pos h]
  cases rest with
  | nil => rfl
  | cons c rest =>
    have hc : Numeral.isDigit c = false := hrest c rfl
    rw [List.dropWhile_cons_of_neg (by rw [hc]; exact Bool.false_ne_true)]

theorem skipSomeDigits?_eq {digits : List Char} (h : IsDigits digits) (hrest : Undigited rest) :
    skipSomeDigits? (digits ++ rest) = some rest := by
  obtain ⟨c, later, rfl, hc⟩ := h.exists_cons
  rw [List.cons_append, skipSomeDigits?, if_pos hc,
    skipDigits_append (fun d hd => h.2 d (List.mem_cons_of_mem c hd)) hrest]

theorem Ends.skipScale?_eq (ends : Ends rest) : skipScale? rest = some rest := by
  unfold skipScale?
  split
  · rcases ends 'e' rfl with h | h | h | h <;> cases h
  · rcases ends 'E' rfl with h | h | h | h <;> cases h
  · rfl

theorem skipExponent?_eq {sign digits : List Char} (hsign : sign = [] ∨ sign = ['+'] ∨ sign = ['-'])
    (h : IsDigits digits) (hrest : Undigited rest) :
    skipExponent? (sign ++ digits ++ rest) = some rest := by
  rcases hsign with rfl | rfl | rfl
  · obtain ⟨c, later, rfl, hc⟩ := h.exists_cons
    rw [List.nil_append, List.cons_append, skipExponent?, ← List.cons_append, skipSomeDigits?_eq h hrest]
    · exact fun _ heq => ne_of_isDigit hc (by decide) (List.head_eq_of_cons_eq heq)
    · exact fun _ heq => ne_of_isDigit hc (by decide) (List.head_eq_of_cons_eq heq)
  · exact skipSomeDigits?_eq h hrest
  · exact skipSomeDigits?_eq h hrest

theorem skipScale?_eq (h : IsExponent text) (ends : Ends rest) :
    skipScale? (text ++ rest) = some rest := by
  cases h with
  | none => exact ends.skipScale?_eq
  | scale hmark hsign h =>
    rcases hmark with rfl | rfl
    · exact skipExponent?_eq hsign h ends.undigited
    · exact skipExponent?_eq hsign h ends.undigited

/-- What follows the digits of a number does not go on with a digit. -/
theorem undigited_exponent (h : IsExponent text) (ends : Ends rest) : Undigited (text ++ rest) := by
  cases h with
  | none => exact ends.undigited
  | scale hmark hsign h =>
    intro c hc
    obtain rfl := Option.mem_some_iff.mp hc
    rcases hmark with rfl | rfl <;> rfl

theorem skipFraction?_eq {fraction exponent : List Char} (hfraction : IsFraction fraction)
    (hexponent : IsExponent exponent) (ends : Ends rest) :
    skipFraction? (fraction ++ exponent ++ rest) = some rest := by
  cases hfraction with
  | places h =>
    rw [List.append_assoc, List.cons_append, skipFraction?,
      skipSomeDigits?_eq h (undigited_exponent hexponent ends)]
    exact skipScale?_eq hexponent ends
  | none =>
    rw [List.nil_append]
    unfold skipFraction?
    split
    · next heq =>
      -- Neither an exponent nor what may stand behind a value starts with a point.
      cases hexponent with
      | none =>
        obtain rfl : rest = '.' :: _ := heq
        rcases ends '.' rfl with h | h | h | h <;> cases h
      | scale hmark hsign h =>
        obtain rfl : _ = '.' := List.head_eq_of_cons_eq heq
        rcases hmark with h | h <;> cases h
    · exact skipScale?_eq hexponent ends

theorem undigited_fraction {fraction exponent : List Char} (hfraction : IsFraction fraction)
    (hexponent : IsExponent exponent) (ends : Ends rest) :
    Undigited (fraction ++ exponent ++ rest) := by
  cases hfraction with
  | none => exact undigited_exponent hexponent ends
  | places h =>
    intro c hc
    obtain rfl := Option.mem_some_iff.mp hc
    rfl

theorem skipNumber?_eq {integer fraction exponent : List Char} (hinteger : IsInteger integer)
    (hfraction : IsFraction fraction) (hexponent : IsExponent exponent) (ends : Ends rest) :
    skipNumber? (integer ++ (fraction ++ exponent) ++ rest) = some rest := by
  have hbehind := undigited_fraction hfraction hexponent ends
  have hskip := skipFraction?_eq hfraction hexponent ends
  rw [List.append_assoc]
  cases hinteger with
  | zero =>
    rw [List.cons_append, List.nil_append]
    generalize fraction ++ exponent ++ rest = behind at hbehind hskip
    cases behind with
    | nil => exact hskip
    | cons c behind =>
      show (if Numeral.isDigit c = true then none else skipFraction? (c :: behind)) = some rest
      rw [hbehind c rfl, if_neg Bool.false_ne_true]
      exact hskip
  | digits c nonzero digit h =>
    have hdigits : IsDigits (c :: _) := ⟨List.cons_ne_nil _ _, List.forall_mem_cons.mpr ⟨digit, h⟩⟩
    rw [List.cons_append, skipNumber?, ← List.cons_append, skipSomeDigits?_eq hdigits hbehind]
    · exact hskip
    · exact fun _ heq => nonzero (List.head_eq_of_cons_eq heq)

/-! ## Values -/

/-- The text of a field: its name in quotes, a colon and its value, with blanks around these. -/
def fieldText (front name middle between value back : List Char) : List Char :=
  front ++ '"' :: (name ++ '"' :: (middle ++ ':' :: (between ++ (value ++ back))))

/-- What a text is made up as. -/
inductive Kind where
  | value
  /-- The items of an array. -/
  | items
  /-- The fields of an object. -/
  | fields

/-- The texts of JSON values, of the items of an array that is not empty and of the fields of an
object that is not empty. -/
inductive IsJson : Kind → List Char → Prop
  | null : IsJson .value ['n', 'u', 'l', 'l']
  | on : IsJson .value ['t', 'r', 'u', 'e']
  | off : IsJson .value ['f', 'a', 'l', 's', 'e']
  | number {text : List Char} (h : IsNumber text) : IsJson .value text
  | string {body : List Char} (h : IsString body) : IsJson .value ('"' :: (body ++ ['"']))
  | emptyArray {blank : List Char} (h : Blank blank) : IsJson .value ('[' :: (blank ++ [']']))
  | array {items : List Char} (h : IsJson .items items) : IsJson .value ('[' :: (items ++ [']']))
  | emptyObject {blank : List Char} (h : Blank blank) :
    IsJson .value ('\x7b' :: (blank ++ ['\x7d']))
  | object {fields : List Char} (h : IsJson .fields fields) :
    IsJson .value ('\x7b' :: (fields ++ ['\x7d']))
  | lastItem {front value back : List Char} (hfront : Blank front) (hback : Blank back)
    (h : IsJson .value value) : IsJson .items (front ++ (value ++ back))
  | item {front value back later : List Char} (hfront : Blank front) (hback : Blank back)
    (h : IsJson .value value) (hlater : IsJson .items later) :
    IsJson .items (front ++ (value ++ (back ++ ',' :: later)))
  | lastField {front name middle between value back : List Char} (hfront : Blank front)
    (hname : IsString name) (hmiddle : Blank middle) (hbetween : Blank between)
    (hback : Blank back) (h : IsJson .value value) :
    IsJson .fields (fieldText front name middle between value back)
  | field {front name middle between value back later : List Char} (hfront : Blank front)
    (hname : IsString name) (hmiddle : Blank middle) (hbetween : Blank between)
    (hback : Blank back) (h : IsJson .value value) (hlater : IsJson .fields later) :
    IsJson .fields (fieldText front name middle between value back ++ ',' :: later)

theorem after?_append (word rest : List Char) : after? word (word ++ rest) = some rest := by
  induction word with
  | nil => rfl
  | cons c word ih => rw [List.cons_append, after?, if_pos rfl, ih]

/-! ### Blanks in front of a value -/

theorem skipValue?_skipSpaces (fuel : Nat) (text : List Char) :
    skipValue? fuel (skipSpaces text) = skipValue? fuel text := by
  cases fuel with
  | zero => rw [skipValue?, skipValue?]
  | succ fuel => rw [skipValue?, skipValue?, skipSpaces_skipSpaces]

theorem skipItems?_skipSpaces (fuel : Nat) (text : List Char) :
    skipItems? fuel (skipSpaces text) = skipItems? fuel text := by
  cases fuel with
  | zero => rw [skipItems?, skipItems?]
  | succ fuel => rw [skipItems?, skipItems?, skipValue?_skipSpaces]

theorem skipFields?_skipSpaces (fuel : Nat) (text : List Char) :
    skipFields? fuel (skipSpaces text) = skipFields? fuel text := by
  cases fuel with
  | zero => rw [skipFields?, skipFields?]
  | succ fuel => rw [skipFields?, skipFields?, skipSpaces_skipSpaces]

theorem skipValue?_append (fuel : Nat) (h : Blank blank) (text : List Char) :
    skipValue? fuel (blank ++ text) = skipValue? fuel text := by
  rw [← skipValue?_skipSpaces, skipSpaces_append h, skipValue?_skipSpaces]

/-! ### First characters -/

/-- A number starts with a minus sign or a digit. -/
theorem IsNumber.head (h : IsNumber text) :
    ∃ c later, text = c :: later ∧ (c = '-' ∨ Numeral.isDigit c = true) := by
  cases h with
  | mk hsign hinteger hfraction hexponent =>
    rcases hsign with rfl | rfl
    · cases hinteger with
      | zero => exact ⟨_, _, rfl, .inr rfl⟩
      | digits c nonzero digit h => exact ⟨_, _, rfl, .inr digit⟩
    · exact ⟨_, _, rfl, .inl rfl⟩

theorem isSpace_of_isDigit (hc : Numeral.isDigit c = true) : isSpace c = false := by
  simp only [isSpace, Bool.or_eq_false_iff, beq_eq_false_iff_ne]
  exact ⟨⟨⟨ne_of_isDigit hc rfl, ne_of_isDigit hc rfl⟩, ne_of_isDigit hc rfl⟩, ne_of_isDigit hc rfl⟩

/-- A value starts neither with a blank nor with a closing bracket. -/
theorem IsJson.head_value (h : IsJson .value text) :
    ∃ c later, text = c :: later ∧ isSpace c = false ∧ c ≠ ']' := by
  cases h with
  | number h =>
    obtain ⟨c, later, rfl, rfl | hc⟩ := h.head
    · exact ⟨_, _, rfl, by decide, by decide⟩
    · exact ⟨c, later, rfl, isSpace_of_isDigit hc, ne_of_isDigit hc rfl⟩
  | null => exact ⟨_, _, rfl, by decide, by decide⟩
  | on => exact ⟨_, _, rfl, by decide, by decide⟩
  | off => exact ⟨_, _, rfl, by decide, by decide⟩
  | string h => exact ⟨_, _, rfl, by decide, by decide⟩
  | emptyArray h => exact ⟨_, _, rfl, by decide, by decide⟩
  | array h => exact ⟨_, _, rfl, by decide, by decide⟩
  | emptyObject h => exact ⟨_, _, rfl, by decide, by decide⟩
  | object h => exact ⟨_, _, rfl, by decide, by decide⟩

/-- Items start with a value, so not with the bracket that closes their array. -/
theorem IsJson.head_items (h : IsJson .items text) (rest : List Char) :
    ∃ c later, skipSpaces (text ++ rest) = c :: later ∧ c ≠ ']' := by
  have hhead : ∀ {front value : List Char} (behind : List Char), Blank front →
      IsJson .value value →
      ∃ c later, skipSpaces (front ++ (value ++ behind) ++ rest) = c :: later ∧ c ≠ ']' := by
    intro front value behind hfront hvalue
    obtain ⟨c, later, rfl, hspace, hclosing⟩ := hvalue.head_value
    rw [List.append_assoc, skipSpaces_append hfront]
    exact ⟨c, _, skipSpaces_cons hspace _, hclosing⟩
  cases h with
  | lastItem hfront hback h => exact hhead _ hfront h
  | item hfront hback h hlater => exact hhead _ hfront h

theorem skipSpaces_fieldText {front : List Char} (hfront : Blank front)
    (name middle between value back rest : List Char) :
    skipSpaces (fieldText front name middle between value back ++ rest) =
      '"' :: (name ++ '"' :: (middle ++ ':' :: (between ++ (value ++ (back ++ rest))))) := by
  rw [fieldText, List.append_assoc, skipSpaces_append hfront]
  simp only [List.cons_append, List.append_assoc]
  exact skipSpaces_cons (by decide) _

/-- Fields start with a quote, so not with the brace that closes their object. -/
theorem IsJson.head_fields (h : IsJson .fields text) (rest : List Char) :
    ∃ later, skipSpaces (text ++ rest) = '"' :: later := by
  cases h with
  | lastField hfront => exact ⟨_, skipSpaces_fieldText hfront _ _ _ _ _ _⟩
  | field hfront =>
    rw [List.append_assoc]
    exact ⟨_, skipSpaces_fieldText hfront _ _ _ _ _ _⟩

/-! ### Skipping -/

/-- The scanner of a kind of text skips it as a whole, with fuel for each character. -/
def Skips : Kind → List Char → Prop
  | .value, text => ∀ fuel rest, text.length ≤ fuel → Ends rest →
    skipValue? fuel (text ++ rest) = some rest
  | .items, text => ∀ fuel rest, text.length < fuel →
    skipItems? fuel (text ++ ']' :: rest) = some rest
  | .fields, text => ∀ fuel rest, text.length < fuel →
    skipFields? fuel (text ++ '\x7d' :: rest) = some rest

/-- What has characters needs fuel. -/
theorem skips_of_succ (hpos : 0 < text.length)
    (h : ∀ fuel rest, text.length ≤ fuel + 1 → Ends rest →
      skipValue? (fuel + 1) (text ++ rest) = some rest) : Skips .value text := by
  intro fuel rest hfuel ends
  cases fuel with
  | zero => omega
  | succ fuel => exact h fuel rest hfuel ends

/-- A digit starts no value but a number. -/
theorem skipValue?_of_isDigit (hc : Numeral.isDigit c = true) (fuel : Nat) (later : List Char) :
    skipValue? (fuel + 1) (c :: later) = skipNumber? (c :: later) := by
  rw [skipValue?, skipSpaces_cons (isSpace_of_isDigit hc)]
  split
  all_goals first | rfl | cases ‹_ = _›; cases hc

theorem skips_number (h : IsNumber text) : Skips .value text := by
  refine skips_of_succ ?_ fun fuel rest _ ends => ?_
  · obtain ⟨c, later, rfl, -⟩ := h.head
    exact Nat.succ_pos _
  · cases h with
    | mk hsign hinteger hfraction hexponent =>
      have hskip := skipNumber?_eq hinteger hfraction hexponent ends
      rcases hsign with rfl | rfl
      · cases hinteger with
        | zero => exact hskip
        | digits c nonzero digit h => exact (skipValue?_of_isDigit digit fuel _).trans hskip
      · exact hskip

theorem ends_cons (h : c = ',' ∨ c = ']' ∨ c = '\x7d') (rest : List Char) : Ends (c :: rest) := by
  intro d hd
  obtain rfl := Option.mem_some_iff.mp hd
  exact .inr h

/-- The colon behind a name. -/
theorem map_skipString?_eq {name middle : List Char} (hname : IsString name) (hmiddle : Blank middle)
    (later : List Char) :
    (skipString? (name ++ '"' :: (middle ++ ':' :: later))).map skipSpaces = some (':' :: later) := by
  rw [skipString?_eq hname, Option.map_some, skipSpaces_append hmiddle]
  exact congrArg some (skipSpaces_cons (by decide) later)

section
variable {front name middle between value back : List Char} (hfront : Blank front)
  (hname : IsString name) (hmiddle : Blank middle) (hbetween : Blank between) (hback : Blank back)
  (hvalue : Skips .value value) {fuel : Nat} (hfuel : value.length ≤ fuel)
include hfront hback hvalue hfuel

theorem skipItems?_item (later : List Char) :
    skipItems? (fuel + 1) (front ++ (value ++ (back ++ ',' :: later))) = skipItems? fuel later := by
  rw [skipItems?, skipValue?_append fuel hfront,
    hvalue fuel _ hfuel (ends_append hback (ends_cons (.inl rfl) later))]
  simp only [skipSpaces_append hback]
  rfl

theorem skipItems?_lastItem (rest : List Char) :
    skipItems? (fuel + 1) (front ++ (value ++ (back ++ ']' :: rest))) = some rest := by
  rw [skipItems?, skipValue?_append fuel hfront,
    hvalue fuel _ hfuel (ends_append hback (ends_cons (.inr (.inl rfl)) rest))]
  simp only [skipSpaces_append hback]
  rfl

include hname hmiddle hbetween

theorem skipFields?_field (later : List Char) :
    skipFields? (fuel + 1) (fieldText front name middle between value back ++ ',' :: later) =
      skipFields? fuel later := by
  rw [skipFields?, skipSpaces_fieldText hfront]
  simp only [map_skipString?_eq hname hmiddle, skipValue?_append fuel hbetween,
    hvalue fuel _ hfuel (ends_append hback (ends_cons (.inl rfl) later)), skipSpaces_append hback]
  rfl

theorem skipFields?_lastField (rest : List Char) :
    skipFields? (fuel + 1) (fieldText front name middle between value back ++ '\x7d' :: rest) =
      some rest := by
  rw [skipFields?, skipSpaces_fieldText hfront]
  simp only [map_skipString?_eq hname hmiddle, skipValue?_append fuel hbetween,
    hvalue fuel _ hfuel (ends_append hback (ends_cons (.inr (.inr rfl)) rest)),
    skipSpaces_append hback]
  rfl

end

theorem length_fieldText (front name middle between value back : List Char) :
    value.length < (fieldText front name middle between value back).length := by
  simp only [fieldText, List.length_append, List.length_cons]
  omega

/-- A text of each kind is skipped, by induction on how it is made up. -/
theorem IsJson.skips {kind : Kind} (h : IsJson kind text) : Skips kind text := by
  induction h with
  | null => exact skips_of_succ (Nat.succ_pos _) fun _ rest _ _ => after?_append ['u', 'l', 'l'] rest
  | on => exact skips_of_succ (Nat.succ_pos _) fun _ rest _ _ => after?_append ['r', 'u', 'e'] rest
  | off =>
    exact skips_of_succ (Nat.succ_pos _) fun _ rest _ _ => after?_append ['a', 'l', 's', 'e'] rest
  | number h => exact skips_number h
  | string h =>
    refine skips_of_succ (Nat.succ_pos _) fun fuel rest _ _ => ?_
    rw [List.cons_append, List.append_assoc]
    exact skipString?_eq h rest
  | emptyArray h =>
    refine skips_of_succ (Nat.succ_pos _) fun fuel rest _ _ => ?_
    rw [List.cons_append, List.append_assoc, skipValue?, skipSpaces_cons (by decide)]
    simp only [skipSpaces_append h]
    rfl
  | emptyObject h =>
    refine skips_of_succ (Nat.succ_pos _) fun fuel rest _ _ => ?_
    rw [List.cons_append, List.append_assoc, skipValue?, skipSpaces_cons (by decide)]
    simp only [skipSpaces_append h]
    rfl
  | array h ih =>
    refine skips_of_succ (Nat.succ_pos _) fun fuel rest hfuel _ => ?_
    obtain ⟨c, later, hhead, hclosing⟩ := h.head_items (']' :: rest)
    rw [List.length_cons, List.length_append, List.length_singleton] at hfuel
    have hitems := ih fuel rest (by omega)
    rw [← skipItems?_skipSpaces, hhead] at hitems
    rw [List.cons_append, List.append_assoc, skipValue?, skipSpaces_cons (by decide)]
    simp only [List.singleton_append, hhead]
    split
    · next heq => exact (hclosing (List.head_eq_of_cons_eq heq)).elim
    · exact hitems
  | object h ih =>
    refine skips_of_succ (Nat.succ_pos _) fun fuel rest hfuel _ => ?_
    obtain ⟨later, hhead⟩ := h.head_fields ('\x7d' :: rest)
    rw [List.length_cons, List.length_append, List.length_singleton] at hfuel
    have hfields := ih fuel rest (by omega)
    rw [← skipFields?_skipSpaces, hhead] at hfields
    rw [List.cons_append, List.append_assoc, skipValue?, skipSpaces_cons (by decide)]
    simp only [List.singleton_append, hhead]
    exact hfields
  | lastItem hfront hback h ih =>
    intro fuel rest hfuel
    cases fuel with
    | zero => cases hfuel
    | succ fuel =>
      simp only [List.length_append] at hfuel
      rw [List.append_assoc, List.append_assoc]
      exact skipItems?_lastItem hfront hback ih (by omega) rest
  | item hfront hback h hlater ih ihlater =>
    intro fuel rest hfuel
    cases fuel with
    | zero => cases hfuel
    | succ fuel =>
      simp only [List.length_append, List.length_cons] at hfuel
      rw [List.append_assoc, List.append_assoc, List.append_assoc]
      refine (skipItems?_item hfront hback ih (by omega) _).trans ?_
      exact ihlater fuel rest (by omega)
  | lastField hfront hname hmiddle hbetween hback h ih =>
    intro fuel rest hfuel
    cases fuel with
    | zero => cases hfuel
    | succ fuel =>
      have hvalue := (length_fieldText _ _ _ _ _ _).trans hfuel
      exact skipFields?_lastField hfront hname hmiddle hbetween hback ih (by omega) rest
  | @field front name middle between value back later hfront hname hmiddle hbetween hback h hlater ih
      ihlater =>
    intro fuel rest hfuel
    cases fuel with
    | zero => cases hfuel
    | succ fuel =>
      have hvalue := length_fieldText front name middle between value back
      rw [List.length_append, List.length_cons] at hfuel
      rw [List.append_assoc]
      refine (skipFields?_field hfront hname hmiddle hbetween hback ih (by omega) _).trans ?_
      exact ihlater fuel rest (by omega)

/-- Whatever value a text holds, it is skipped, and no more than it. -/
theorem skipValue?_eq (h : IsJson .value text) {fuel : Nat} (hfuel : text.length ≤ fuel)
    (ends : Ends rest) : skipValue? fuel (text ++ rest) = some rest :=
  h.skips fuel rest hfuel ends

end RegionBacking.Scan
