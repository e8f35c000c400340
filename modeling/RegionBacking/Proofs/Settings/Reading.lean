import RegionBacking.Proofs.Text.Spelling
import RegionBacking.Settings.Reader

/-!
# Reading what is written

Settings are read back from what they are written as, and from many other texts: an object may have
the fields of settings in any order, spelled in any way, with blanks anywhere, among any other
fields whatever their values (`Settings.Holds`). Reading goes from field to field. What carries the
proof is that the draft has the values of the settings in all fields that were read so far, and no
others (`Draft.of`).
-/

namespace RegionBacking.Settings

open Scan (Blank Ends Spells IsJson fieldText skipSpaces)

/-- The numbers of settings are words. -/
structure InWords (settings : Settings) : Prop where
  reservedSize : settings.reservedSize < Word.limit
  usedSize : settings.usedSize < Word.limit
  pageSize : settings.pageSize < Word.limit
  regionSize : settings.regionSize < Word.limit
  commitFactor : settings.commitFactor < Word.limit
  pretouchThreads : ∀ threads ∈ settings.pretouchThreads, threads < Word.limit
  pretouchChunkSize : settings.pretouchChunkSize < Word.limit

/-- The value of a field. -/
def fieldValue (settings : Settings) : Field → Json
  | .reservedSize => .nat settings.reservedSize
  | .usedSize => .nat settings.usedSize
  | .pageSize => .nat settings.pageSize
  | .regionSize => .nat settings.regionSize
  | .commitFactor => .nat settings.commitFactor
  | .memoryKind => .text settings.memoryKind.name
  | .alwaysPretouch => .bool settings.alwaysPretouch
  | .pretouchThreads => (settings.pretouchThreads.map Json.nat).getD .null
  | .pretouchChunkSize => .nat settings.pretouchChunkSize
  | .nodeAware => .bool settings.nodeAware
  | .preCommitted => .bool settings.preCommitted

/-! ## Texts that hold settings -/

/-- A text spells a value of a field. A string may be spelled in any way, all else in one. -/
def IsSpelling : Json → List Char → Prop
  | .string text, spelling => ∃ body, Spells text body ∧ spelling = '"' :: (body ++ ['"'])
  | value, spelling => spelling = value.chars

/-- What a name and the text of its value say of settings: the value of a field, or nothing. -/
inductive Says (settings : Settings) : Option Field → List Char → List Char → Prop
  | field (field : Field) {value : List Char} (h : IsSpelling (settings.fieldValue field) value) :
    Says settings (some field) field.name.toList value
  | other {name value : List Char} (hname : ∀ field : Field, name ≠ field.name.toList)
    (h : IsJson .value value) : Says settings none name value

/-- The text of a field of an object that says something of settings, or nothing. -/
inductive Tells (settings : Settings) (which : Option Field) : List Char → Prop
  | mk {front name spelling middle between value back : List Char} (hfront : Blank front)
    (hname : Spells name spelling) (hmiddle : Blank middle) (hbetween : Blank between)
    (hback : Blank back) (h : Says settings which name value) :
    Tells settings which (fieldText front spelling middle between value back)

/-- The texts of fields, with commas between them. -/
def joined (fields : List (Option Field × List Char)) : List Char :=
  [','].intercalate (fields.map Prod.snd)

/-- The fields of settings of which texts tell, in their order. -/
def toldBy (fields : List (Option Field × List Char)) : List Field := fields.filterMap Prod.fst

/-- All fields of settings stand once. The number of workers may be missing where it is left to the
machine. -/
def Complete (settings : Settings) (fields : List Field) : Prop :=
  fields.Perm Field.all ∨
    settings.pretouchThreads = none ∧ fields.Perm (Field.all.erase .pretouchThreads)

/-- A text is an object with the fields of settings in any order, among any others. -/
def Holds (settings : Settings) (text : List Char) : Prop :=
  ∃ (before behind : List Char) (fields : List (Option Field × List Char)),
    Blank before ∧ Blank behind ∧ (∀ field ∈ fields, Tells settings field.1 field.2) ∧
    Complete settings (toldBy fields) ∧
    text = before ++ '\x7b' :: (joined fields ++ '\x7d' :: behind)

theorem joined_singleton (field : Option Field × List Char) : joined [field] = field.2 := by
  rw [joined, List.map_singleton, List.intercalate_singleton]

theorem joined_cons_cons (first second : Option Field × List Char)
    (later : List (Option Field × List Char)) :
    joined (first :: second :: later) = first.2 ++ ',' :: joined (second :: later) := by
  simp only [joined, List.map_cons, List.intercalate_cons_cons, List.append_assoc,
    List.singleton_append]

theorem toldBy_cons (first : Option Field × List Char) (later : List (Option Field × List Char)) :
    toldBy (first :: later) = first.1.toList ++ toldBy later := by
  rw [toldBy, List.filterMap_cons]
  cases first.1 with
  | none => rfl
  | some field => rfl

/-! ## Values -/

@[simp] theorem ok_bind {α β : Type} (a : α) (f : α → Except ReadError β) :
    (Except.ok a >>= f) = f a := rfl

variable {settings : Settings} {front rest body value : List Char} {n : Nat}

theorem skipSpaces_digits (hfront : Blank front) (n : Nat) (rest : List Char) :
    skipSpaces (front ++ (Nat.toDigits 10 n ++ rest)) = Nat.toDigits 10 n ++ rest := by
  obtain ⟨c, later, hdigits, hc, -, -⟩ := Number.toDigits_eq_cons n
  rw [Scan.skipSpaces_append hfront, hdigits]
  exact Scan.skipSpaces_cons (Scan.isSpace_of_isDigit hc) _

theorem readSize_eq (hfront : Blank front) (h : n < Word.limit) (ends : Ends rest) :
    readSize (front ++ (Nat.toDigits 10 n ++ rest)) = .ok (n, rest) := by
  obtain ⟨c, later, hdigits, hc, -, -⟩ := Number.toDigits_eq_cons n
  have hstart : ((Nat.toDigits 10 n ++ rest).head?.map Number.startsWith).getD false = true := by
    rw [hdigits]
    exact Number.startsWith_of_isDigit hc
  rw [readSize, skipSpaces_digits hfront]
  simp only [hstart, if_true, Number.read?_toDigits h ends]

theorem readOptionalSize_eq (hfront : Blank front) {threads : Option Nat}
    (h : ∀ n ∈ threads, n < Word.limit) (ends : Ends rest) :
    readOptionalSize (front ++ (((threads.map Json.nat).getD .null).chars ++ rest)) =
      .ok (threads, rest) := by
  cases threads with
  | none =>
    rw [readOptionalSize, Scan.skipSpaces_append hfront]
    rfl
  | some n =>
    obtain ⟨c, later, hdigits, hc, -, -⟩ := Number.toDigits_eq_cons n
    have hread : readSize (c :: (later ++ rest)) = .ok (n, rest) := by
      have hread := readSize_eq Scan.blank_nil (h n rfl) ends
      rwa [List.nil_append, hdigits, List.cons_append] at hread
    show readOptionalSize (front ++ (Nat.toDigits 10 n ++ rest)) = _
    rw [readOptionalSize, skipSpaces_digits hfront, hdigits, List.cons_append]
    split
    · next heq => exact (Scan.ne_of_isDigit hc rfl (List.head_eq_of_cons_eq heq)).elim
    · rw [hread]
      rfl

theorem readSwitch_eq (hfront : Blank front) (value : Bool) (rest : List Char) :
    readSwitch (front ++ ((Json.bool value).chars ++ rest)) = .ok (value, rest) := by
  rw [readSwitch, Scan.skipSpaces_append hfront]
  cases value with
  | false => rfl
  | true => rfl

theorem readKind_eq (hfront : Blank front) {kind : MemoryKind} (h : Spells kind.name.toList body)
    (rest : List Char) :
    readKind (front ++ ('"' :: (body ++ ['"']) ++ rest)) = .ok (kind, rest) := by
  have hname : readKindName (body ++ '"' :: rest) = .ok (kind, rest) := by
    rw [readKindName, Scan.string?_eq h]
    simp only [orMalformed, ok_bind, String.ofList_toList, MemoryKind.ofName?_name]
    rfl
  rw [readKind, Scan.skipSpaces_append hfront, List.cons_append, List.append_assoc]
  exact hname

/-! ## Drafts -/

/-- The draft that knows some fields of settings. -/
def Draft.of (settings : Settings) (known : List Field) : Draft where
  reservedSize := if .reservedSize ∈ known then some settings.reservedSize else none
  usedSize := if .usedSize ∈ known then some settings.usedSize else none
  pageSize := if .pageSize ∈ known then some settings.pageSize else none
  regionSize := if .regionSize ∈ known then some settings.regionSize else none
  commitFactor := if .commitFactor ∈ known then some settings.commitFactor else none
  memoryKind := if .memoryKind ∈ known then some settings.memoryKind else none
  alwaysPretouch := if .alwaysPretouch ∈ known then some settings.alwaysPretouch else none
  pretouchThreads := if .pretouchThreads ∈ known then some settings.pretouchThreads else none
  pretouchChunkSize := if .pretouchChunkSize ∈ known then some settings.pretouchChunkSize else none
  nodeAware := if .nodeAware ∈ known then some settings.nodeAware else none
  preCommitted := if .preCommitted ∈ known then some settings.preCommitted else none

/-- Every field but the number of workers stands. -/
theorem Complete.mem {known : List Field} (h : Complete settings known) {field : Field}
    (hne : field ≠ .pretouchThreads) : field ∈ known := by
  have hall : field ∈ Field.all := by cases field <;> decide
  rcases h with h | ⟨-, h⟩
  · exact h.mem_iff.mpr hall
  · exact h.mem_iff.mpr ((List.mem_erase_of_ne hne).mpr hall)

theorem Complete.mem_or_none {known : List Field} (h : Complete settings known) :
    .pretouchThreads ∈ known ∨ settings.pretouchThreads = none := by
  rcases h with h | ⟨hnone, -⟩
  · exact .inl (h.mem_iff.mpr (by decide))
  · exact .inr hnone

theorem Complete.nodup {known : List Field} (h : Complete settings known) : known.Nodup := by
  rcases h with h | ⟨-, h⟩
  · exact h.nodup_iff.mpr (by decide)
  · exact h.nodup_iff.mpr (by decide)

theorem Complete.of_perm {known others : List Field} (h : Complete settings known)
    (hperm : others.Perm known) : Complete settings others :=
  h.imp hperm.trans fun ⟨hnone, h⟩ => ⟨hnone, hperm.trans h⟩

namespace Draft

variable {known : List Field}

theorem of_nil (settings : Settings) : of settings [] = blank := by
  simp [of, blank]

theorem has_of (settings : Settings) (known : List Field) (field : Field) :
    (of settings known).has field = decide (field ∈ known) := by
  cases field <;> simp only [has, of, apply_ite Option.isSome, Option.isSome_some,
    Option.isSome_none, Bool.if_false_right, Bool.and_true]

/-- A value that is read becomes known, and nothing else. -/
theorem read_of (words : InWords settings) (hfront : Blank front) {field : Field}
    (h : IsSpelling (settings.fieldValue field) value) (ends : Ends rest) :
    (of settings known).read field (front ++ (value ++ rest)) =
      .ok (of settings (field :: known), rest) := by
  have hsize {n : Nat} (hn : n < Word.limit) (hvalue : value = Nat.toDigits 10 n) :
      readSize (front ++ (value ++ rest)) = .ok (n, rest) := hvalue ▸ readSize_eq hfront hn ends
  have hswitch {b : Bool} (hvalue : value = (Json.bool b).chars) :
      readSwitch (front ++ (value ++ rest)) = .ok (b, rest) := hvalue ▸ readSwitch_eq hfront b rest
  cases field with
  | reservedSize => simp [read, hsize words.reservedSize h, of, pure, Except.pure]
  | usedSize => simp [read, hsize words.usedSize h, of, pure, Except.pure]
  | pageSize => simp [read, hsize words.pageSize h, of, pure, Except.pure]
  | regionSize => simp [read, hsize words.regionSize h, of, pure, Except.pure]
  | commitFactor => simp [read, hsize words.commitFactor h, of, pure, Except.pure]
  | memoryKind =>
    obtain ⟨body, hbody, rfl⟩ := h
    rw [read, readKind_eq hfront hbody]
    simp [of, pure, Except.pure]
  | alwaysPretouch => simp [read, hswitch h, of, pure, Except.pure]
  | pretouchThreads =>
    -- Be it a number or nothing, it is spelled in one way only.
    have hvalue : value = ((settings.pretouchThreads.map Json.nat).getD .null).chars := by
      rw [fieldValue] at h
      cases hthreads : settings.pretouchThreads with
      | none =>
        rw [hthreads] at h
        exact h
      | some n =>
        rw [hthreads] at h
        exact h
    rw [read, hvalue, readOptionalSize_eq hfront words.pretouchThreads ends]
    simp [of, pure, Except.pure]
  | pretouchChunkSize => simp [read, hsize words.pretouchChunkSize h, of, pure, Except.pure]
  | nodeAware => simp [read, hswitch h, of, pure, Except.pure]
  | preCommitted => simp [read, hswitch h, of, pure, Except.pure]

/-- A draft that knows all fields is the settings. -/
theorem finish_of (h : Complete settings known) : (of settings known).finish = .ok settings := by
  have hthreads :
      (if .pretouchThreads ∈ known then some settings.pretouchThreads else none).getD none =
        settings.pretouchThreads := by
    rcases h.mem_or_none with hknown | hnone
    · rw [if_pos hknown, Option.getD_some]
    · rw [hnone]
      split
      · rfl
      · rfl
  have hknown {field : Field} (hne : field ≠ .pretouchThreads) : field ∈ known := h.mem hne
  simp [finish, of, hknown, demand, hthreads, pure, Except.pure]

end Draft

/-! ## Fields -/

theorem Field.ofName?_name (field : Field) : ofName? field.name.toList = some field := by
  cases field <;> decide

theorem Field.ofName?_eq_none {name : List Char} (h : ∀ field : Field, name ≠ field.name.toList) :
    ofName? name = none := by
  simp only [ofName?, List.find?_eq_none, beq_iff_eq]
  exact fun field _ heq => h field heq.symm

variable {known : List Field} {which : Option Field}

/-- What a name and a value say becomes known. -/
theorem readNamed_eq (words : InWords settings) {name middle between : List Char}
    (h : Says settings which name value) (hfresh : ∀ field ∈ which, field ∉ known)
    (hmiddle : Blank middle) (hbetween : Blank between) (ends : Ends rest) {fuel : Nat}
    (hfuel : value.length ≤ fuel) :
    readNamed fuel (Draft.of settings known) name
        (middle ++ ':' :: (between ++ (value ++ rest))) =
      .ok (Draft.of settings (which.toList ++ known), rest) := by
  have hcolon : afterColon (middle ++ ':' :: (between ++ (value ++ rest))) =
      .ok (between ++ (value ++ rest)) := by
    rw [afterColon, Scan.skipSpaces_append hmiddle, Scan.skipSpaces_cons (by decide)]
    rfl
  cases h with
  | field field hspelling =>
    have hhas : (Draft.of settings known).has field = false := by
      rw [Draft.has_of]
      exact decide_eq_false (hfresh field rfl)
    rw [readNamed, Field.ofName?_name]
    simp only [hhas, Bool.false_eq_true, if_false, hcolon]
    exact Draft.read_of words hbetween hspelling ends
  | other hname hjson =>
    rw [readNamed, Field.ofName?_eq_none hname]
    simp only [hcolon, ok_bind]
    rw [Scan.skipValue?_append fuel hbetween, Scan.skipValue?_eq hjson hfuel ends]
    rfl

/-- The text of a field is read as what it says, up to the comma or the brace behind it. -/
theorem readFields_cons (words : InWords settings) {text : List Char}
    (h : Tells settings which text) (hfresh : ∀ field ∈ which, field ∉ known) {fuel : Nat}
    (hfuel : text.length ≤ fuel) {mark : Char} (hmark : mark = ',' ∨ mark = '\x7d')
    (later : List Char) :
    readFields (fuel + 1) (Draft.of settings known) (text ++ mark :: later) =
      if mark = ',' then readFields fuel (Draft.of settings (which.toList ++ known)) later
      else .ok (Draft.of settings (which.toList ++ known), later) := by
  cases h with
  | @mk front name spelling middle between value back hfront hname hmiddle hbetween hback h =>
    have hvalue := Scan.length_fieldText front spelling middle between value back
    have ends : Ends (back ++ mark :: later) :=
      Scan.ends_append hback (Scan.ends_cons (hmark.imp_right .inr) later)
    have hspace : Scan.isSpace mark = false := by rcases hmark with rfl | rfl <;> rfl
    rw [readFields, Scan.skipSpaces_fieldText hfront]
    simp only [Scan.string?_eq hname, orMalformed, ok_bind,
      readNamed_eq words h hfresh hmiddle hbetween ends (by omega : value.length ≤ fuel),
      Scan.skipSpaces_append hback, Scan.skipSpaces_cons hspace]
    rcases hmark with rfl | rfl
    · rfl
    · rfl

/-- Where no field stands twice, the first is not known yet, and none of the others is known once it
was read. -/
theorem fresh_cons {others : List Field} (h : (which.toList ++ others ++ known).Nodup) :
    (∀ field ∈ which, field ∉ known) ∧ (others ++ (which.toList ++ known)).Nodup := by
  have hnext : (others ++ (which.toList ++ known)).Nodup := by
    rw [← List.append_assoc]
    exact (List.perm_append_comm.append_right known).nodup_iff.mp h
  refine ⟨fun field hfield hknown => ?_, hnext⟩
  have hapart := (List.nodup_append.mp (List.nodup_append.mp hnext).2.1).2.2
  exact hapart field (Option.mem_toList.mpr hfield) field hknown rfl

/-- Fields are read one after the other, by induction on them. What was read before them is known,
and none of it stands again. -/
theorem readFields_eq (words : InWords settings) (rest : List Char)
    (fields : List (Option Field × List Char)) (hne : fields ≠ [])
    (htells : ∀ field ∈ fields, Tells settings field.1 field.2)
    (hfresh : (toldBy fields ++ known).Nodup) {fuel : Nat} (hfuel : (joined fields).length < fuel) :
    readFields fuel (Draft.of settings known) (joined fields ++ '\x7d' :: rest) =
      .ok (Draft.of settings ((toldBy fields).reverse ++ known), rest) := by
  induction fields generalizing known fuel with
  | nil => exact (hne rfl).elim
  | cons first later ih =>
    obtain ⟨hfirst, hlater⟩ := List.forall_mem_cons.mp htells
    have hreverse : first.1.toList.reverse = first.1.toList := by cases first.1 <;> rfl
    rw [toldBy_cons] at hfresh ⊢
    rw [List.reverse_append, hreverse, List.append_assoc]
    obtain ⟨hnew, hnext⟩ := fresh_cons hfresh
    obtain _ | fuel := fuel
    · cases hfuel
    cases later with
    | nil =>
      rw [joined_singleton] at hfuel ⊢
      rw [readFields_cons words hfirst hnew (Nat.le_of_lt_succ hfuel) (.inr rfl)]
      rfl
    | cons second later =>
      rw [joined_cons_cons] at hfuel ⊢
      rw [List.length_append, List.length_cons] at hfuel
      rw [List.append_assoc, List.cons_append,
        readFields_cons words hfirst hnew (by omega) (.inl rfl), if_pos rfl]
      exact ih (List.cons_ne_nil _ _) hlater hnext (by omega)

/-! ## Texts -/

theorem readFields_skipSpaces (fuel : Nat) (draft : Draft) (text : List Char) :
    readFields fuel draft (skipSpaces text) = readFields fuel draft text := by
  cases fuel with
  | zero => rw [readFields, readFields]
  | succ fuel => rw [readFields, readFields, Scan.skipSpaces_skipSpaces]

theorem Tells.head {text : List Char} (h : Tells settings which text) (rest : List Char) :
    ∃ later, skipSpaces (text ++ rest) = '"' :: later := by
  cases h with
  | mk hfront => exact ⟨_, Scan.skipSpaces_fieldText hfront _ _ _ _ _ _⟩

/-- Fields start with a quote, so not with the brace that closes their object. -/
theorem head_joined (fields : List (Option Field × List Char)) (hne : fields ≠ [])
    (htells : ∀ field ∈ fields, Tells settings field.1 field.2) (rest : List Char) :
    ∃ later, skipSpaces (joined fields ++ rest) = '"' :: later := by
  cases fields with
  | nil => exact (hne rfl).elim
  | cons first later =>
    have hfirst := (htells first List.mem_cons_self).head
    cases later with
    | nil =>
      rw [joined_singleton]
      exact hfirst rest
    | cons second later =>
      rw [joined_cons_cons, List.append_assoc]
      exact hfirst _

theorem readObject_eq (words : InWords settings) (rest : List Char)
    (fields : List (Option Field × List Char))
    (htells : ∀ field ∈ fields, Tells settings field.1 field.2)
    (hcomplete : Complete settings (toldBy fields)) {fuel : Nat}
    (hfuel : (joined fields).length < fuel) :
    readObject fuel (joined fields ++ '\x7d' :: rest) = .ok (settings, rest) := by
  have hne : fields ≠ [] := by
    rintro rfl
    cases hcomplete.mem (by decide : Field.reservedSize ≠ .pretouchThreads)
  have hfresh : (toldBy fields ++ []).Nodup := by
    rw [List.append_nil]
    exact hcomplete.nodup
  have hread := readFields_eq words rest fields hne htells hfresh hfuel
  obtain ⟨later, hhead⟩ := head_joined fields hne htells ('\x7d' :: rest)
  rw [List.append_nil, Draft.of_nil, ← readFields_skipSpaces, hhead] at hread
  have hfinish : (Draft.of settings (toldBy fields).reverse).finish = .ok settings :=
    Draft.finish_of (hcomplete.of_perm (List.reverse_perm _))
  rw [readObject, hhead]
  show (readFields fuel Draft.blank ('"' :: later) >>= _) = _
  simp only [hread, hfinish, ok_bind]
  rfl

/-- Settings are read from every text that holds them. -/
theorem read_of_holds (words : InWords settings) {text : List Char} (h : Holds settings text) :
    read text = .ok settings := by
  obtain ⟨before, behind, fields, hbefore, hbehind, htells, hcomplete, rfl⟩ := h
  have hvalue {fuel : Nat} (hfuel : (joined fields).length < fuel) :
      readValue fuel (before ++ '\x7b' :: (joined fields ++ '\x7d' :: behind)) =
        .ok (settings, behind) := by
    rw [readValue, Scan.skipSpaces_append hbefore, Scan.skipSpaces_cons (by decide)]
    exact readObject_eq words behind fields htells hcomplete hfuel
  have hblank : skipSpaces behind = [] := by
    rw [← List.append_nil behind, Scan.skipSpaces_append hbehind]
    rfl
  rw [read, hvalue]
  · simp only [ok_bind, hblank]
    rfl
  · simp only [List.length_append, List.length_cons]
    omega

/-! ## Written settings -/

theorem isSpelling_chars (field : Field) :
    IsSpelling (settings.fieldValue field) (settings.fieldValue field).chars := by
  cases field with
  | memoryKind => exact ⟨_, Quoted.spells_escape _, rfl⟩
  | pretouchThreads =>
    rw [fieldValue]
    cases settings.pretouchThreads with
    | none => rfl
    | some n => rfl
  | _ => rfl

/-- A field that is written tells of the settings, also with blanks around its parts. -/
theorem tells_chars (settings : Settings) (field : Field) {front between back : List Char}
    (hfront : Blank front) (hbetween : Blank between) (hback : Blank back) :
    Tells settings (some field) (fieldText front (field.name.toList.flatMap Quoted.escape) []
      between (settings.fieldValue field).chars back) :=
  .mk hfront (Quoted.spells_escape _) Scan.blank_nil hbetween hback
    (.field field (isSpelling_chars field))

/-- Settings are written as a text that holds them. -/
theorem holds_chars (settings : Settings) : Holds settings settings.json.chars := by
  have hfields : fieldNames.zip settings.fieldValues =
      Field.all.map fun field => (field.name, settings.fieldValue field) := by
    have hvalues : settings.fieldValues = Field.all.map settings.fieldValue := rfl
    rw [← Field.map_name_all, hvalues, List.zip_map']
  refine ⟨[], [], Field.all.map fun field => (some field,
    fieldText [] (field.name.toList.flatMap Quoted.escape) [] []
      (settings.fieldValue field).chars []),
    Scan.blank_nil, Scan.blank_nil, ?_, ?_, ?_⟩
  · intro field hfield
    obtain ⟨field, -, rfl⟩ := List.mem_map.mp hfield
    exact settings.tells_chars field Scan.blank_nil Scan.blank_nil Scan.blank_nil
  · exact .inl (List.Perm.refl _)
  · rw [json, Json.chars, hfields, Json.fieldChars_eq, joined, List.map_map, List.map_map]
    rfl

/-- Settings are read back from what is written for them, and they are read from every object with
the same fields: in any order, among any fields that settings do not have, and without the number of
workers where that is left to the machine. -/
theorem settings_read_back (settings : Settings) (words : InWords settings) :
    read settings.json.compact.toList = .ok settings ∧
      ∀ text, Holds settings text → read text = .ok settings := by
  refine ⟨?_, fun text h => read_of_holds words h⟩
  rw [Json.compact, String.toList_ofList]
  exact read_of_holds words settings.holds_chars

/-- The settings that hold where nothing is said, with the number of workers left to the machine. -/
def unhurried : Settings := { standard 1 with pretouchThreads := none }

/-- A text of these settings from the last field to the first, without the number of workers and
with a comment at the front. -/
def unhurriedText : List Char :=
  "\x7b \"comment\": \x7b\"by\":[1,null]\x7d, \"pre_committed\": false,".toList ++
    " \"numa_aware\": true, \"pretouch_chunk_size\": 4194304,".toList ++
    " \"always_pretouch\": false, \"memory_type\": \"Heap\", \"commit_factor\": 1,".toList ++
    " \"region_granularity\": 2097152, \"page_size\": 4096,".toList ++
    " \"used_size\": 67108864, \"reserved_size\": 67108864\x7d\n".toList

theorem unhurried_settings_read_back :
    InWords unhurried ∧ Holds unhurried unhurriedText ∧
      read unhurried.json.compact.toList = .ok unhurried ∧
      read unhurriedText = .ok unhurried := by
  have words : InWords unhurried :=
    ⟨by decide, by decide, by decide, by decide, by decide, by decide, by decide⟩
  have hspace : Blank [' '] := List.forall_mem_singleton.mpr rfl
  let comment : Json := .object [("by", .array [.nat 1, .null])]
  have hcomment : comment.WellFormed :=
    .object (List.forall_mem_singleton.mpr (.array (List.forall_mem_cons.mpr
      ⟨Json.wellFormed_nat 1, List.forall_mem_singleton.mpr .null⟩)))
  have hname : ∀ field : Field, "comment".toList ≠ field.name.toList := by
    intro field
    cases field <;> decide
  have holds : Holds unhurried unhurriedText := by
    refine ⟨[], ['\n'],
      (none, fieldText [' '] ("comment".toList.flatMap Quoted.escape) [] [' '] comment.chars []) ::
        (Field.all.erase .pretouchThreads).reverse.map fun field => (some field,
          fieldText [' '] (field.name.toList.flatMap Quoted.escape) [] [' ']
            (unhurried.fieldValue field).chars []),
      Scan.blank_nil, List.forall_mem_singleton.mpr rfl, ?_, ?_, ?_⟩
    · refine List.forall_mem_cons.mpr ⟨?_, ?_⟩
      · exact .mk hspace (Quoted.spells_escape _) Scan.blank_nil hspace Scan.blank_nil
          (.other hname (Json.isJson_chars hcomment))
      · intro field hfield
        obtain ⟨field, -, rfl⟩ := List.mem_map.mp hfield
        exact unhurried.tells_chars field hspace hspace Scan.blank_nil
    · exact .inr ⟨rfl, by decide⟩
    · decide +kernel
  obtain ⟨hwritten, hread⟩ := settings_read_back unhurried words
  exact ⟨words, holds, hwritten, hread unhurriedText holds⟩

end RegionBacking.Settings
