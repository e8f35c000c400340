import RegionBacking.Settings.Draft
import RegionBacking.Text.Number

/-!
# Reading settings

Settings are read from a JSON object with their fields in any order, or from an array with their
values in the order of the fields. An object may have other fields, which are skipped. A field may
stand only once, and none may be missing but the number of pretouch workers, which is then left to
the machine. The text is read from its start and the first error counts.
-/

namespace RegionBacking.Settings

open Scan (skipSpaces)

/-! ## Values -/

/-- What was read, or the error that the text is malformed. -/
def orMalformed {α : Type} : Option α → Except ReadError α
  | some value => .ok value
  | none => .error .malformed

/-- The error for a text that does not start with what is expected. -/
def mismatch (expected : String) (text : List Char) : ReadError :=
  match text with
  | 'n' :: rest => ofFound .null (Scan.after? ['u', 'l', 'l'] rest).isSome
  | 't' :: rest => ofFound (.switch true) (Scan.after? ['r', 'u', 'e'] rest).isSome
  | 'f' :: rest => ofFound (.switch false) (Scan.after? ['a', 'l', 's', 'e'] rest).isSome
  | '"' :: rest =>
    match Scan.string? rest with
    | some (found, _) => .wrongType (.text found) expected
    | none => .malformed
  | '[' :: _ => .wrongType .sequence expected
  | '\x7b' :: _ => .wrongType .map expected
  | rest =>
    match Number.read? rest with
    | some (.natural value, _) => .wrongType (.integer value) expected
    | some (.negative magnitude, _) => .wrongType (.integer (-magnitude)) expected
    | some (.real value, _) => .wrongType (.real value) expected
    | none => .malformed
where
  /-- The error for a word, if it is complete. -/
  ofFound (found : Found) (complete : Bool) : ReadError :=
    if complete then .wrongType found expected else .malformed

/-- Reads a size. -/
def readSize (text : List Char) : Except ReadError (Nat × List Char) :=
  let text := skipSpaces text
  if (text.head?.map Number.startsWith).getD false then
    match Number.read? text with
    | some (.natural value, rest) => .ok (value, rest)
    | some (.negative magnitude, _) => .error (.wrongValue (.integer (-magnitude)) "usize")
    | some (.real value, _) => .error (.wrongType (.real value) "usize")
    | none => .error .malformed
  else .error (mismatch "usize" text)

/-- Reads a size or nothing. -/
def readOptionalSize (text : List Char) : Except ReadError (Option Nat × List Char) :=
  match skipSpaces text with
  | 'n' :: rest => do
    let rest ← orMalformed (Scan.after? ['u', 'l', 'l'] rest)
    pure (none, rest)
  | text => do
    let (value, rest) ← readSize text
    pure (some value, rest)

/-- Reads a switch. -/
def readSwitch (text : List Char) : Except ReadError (Bool × List Char) :=
  match skipSpaces text with
  | 't' :: rest => do
    let rest ← orMalformed (Scan.after? ['r', 'u', 'e'] rest)
    pure (true, rest)
  | 'f' :: rest => do
    let rest ← orMalformed (Scan.after? ['a', 'l', 's', 'e'] rest)
    pure (false, rest)
  | text => .error (mismatch "a boolean" text)

/-- Reads the rest of a name and gives the kind of that name. -/
def readKindName (text : List Char) : Except ReadError (MemoryKind × List Char) := do
  let (name, rest) ← orMalformed (Scan.string? text)
  match MemoryKind.ofName? (String.ofList name) with
  | some kind => pure (kind, rest)
  | none => throw (.unknownKind name)

/-- Reads a kind of memory: its name, or an object with its name and `null`. Anything else in the
place of the name is malformed, whatever value it is. -/
def readKind (text : List Char) : Except ReadError (MemoryKind × List Char) :=
  match skipSpaces text with
  | '"' :: rest => readKindName rest
  | '\x7b' :: rest =>
    match skipSpaces rest with
    | '"' :: rest => do
      let (kind, rest) ← readKindName rest
      match skipSpaces rest with
      | ':' :: rest =>
        match skipSpaces rest with
        | 'n' :: rest =>
          let rest ← orMalformed (Scan.after? ['u', 'l', 'l'] rest)
          match skipSpaces rest with
          | '\x7d' :: rest => pure (kind, rest)
          | _ => throw .malformed
        | rest => throw (mismatch "unit" rest)
      | _ => throw .malformed
    | _ => .error .malformed
  | _ => .error .malformed

/-- Reads the value of a field. -/
def Draft.read (draft : Draft) (field : Field) (text : List Char) :
    Except ReadError (Draft × List Char) :=
  match field with
  | .reservedSize => do
    let (value, rest) ← readSize text
    pure ({ draft with reservedSize := some value }, rest)
  | .usedSize => do
    let (value, rest) ← readSize text
    pure ({ draft with usedSize := some value }, rest)
  | .pageSize => do
    let (value, rest) ← readSize text
    pure ({ draft with pageSize := some value }, rest)
  | .regionSize => do
    let (value, rest) ← readSize text
    pure ({ draft with regionSize := some value }, rest)
  | .commitFactor => do
    let (value, rest) ← readSize text
    pure ({ draft with commitFactor := some value }, rest)
  | .memoryKind => do
    let (value, rest) ← readKind text
    pure ({ draft with memoryKind := some value }, rest)
  | .alwaysPretouch => do
    let (value, rest) ← readSwitch text
    pure ({ draft with alwaysPretouch := some value }, rest)
  | .pretouchThreads => do
    let (value, rest) ← readOptionalSize text
    pure ({ draft with pretouchThreads := some value }, rest)
  | .pretouchChunkSize => do
    let (value, rest) ← readSize text
    pure ({ draft with pretouchChunkSize := some value }, rest)
  | .nodeAware => do
    let (value, rest) ← readSwitch text
    pure ({ draft with nodeAware := some value }, rest)
  | .preCommitted => do
    let (value, rest) ← readSwitch text
    pure ({ draft with preCommitted := some value }, rest)

/-! ## Objects and arrays -/

/-- The text behind the colon that it starts with. -/
def afterColon (text : List Char) : Except ReadError (List Char) :=
  match skipSpaces text with
  | ':' :: rest => .ok rest
  | _ => .error .malformed

/-- Reads the colon and the value of the field of a name. -/
def readNamed (fuel : Nat) (draft : Draft) (name text : List Char) :
    Except ReadError (Draft × List Char) :=
  match Field.ofName? name with
  | some field =>
    if draft.has field then .error (.duplicateField field.name)
    else do
      let rest ← afterColon text
      draft.read field rest
  | none => do
    let rest ← afterColon text
    let rest ← orMalformed (Scan.skipValue? fuel rest)
    pure (draft, rest)

/-- Reads the fields of an object and its brace. The fuel bounds their number. -/
def readFields : Nat → Draft → List Char → Except ReadError (Draft × List Char)
  | 0, _, _ => .error .malformed
  | fuel + 1, draft, text =>
    match skipSpaces text with
    | '"' :: rest => do
      let (name, rest) ← orMalformed (Scan.string? rest)
      let (draft, rest) ← readNamed fuel draft name rest
      match skipSpaces rest with
      | ',' :: rest => readFields fuel draft rest
      | '\x7d' :: rest => pure (draft, rest)
      | _ => throw .malformed
    | _ => .error .malformed

/-- Reads an object behind its opening brace. -/
def readObject (fuel : Nat) (text : List Char) : Except ReadError (Settings × List Char) := do
  let (draft, rest) ←
    match skipSpaces text with
    | '\x7d' :: rest => pure (Draft.blank, rest)
    | text => readFields fuel Draft.blank text
  let settings ← draft.finish
  pure (settings, rest)

/-- Reads the values of fields from an array, `done` fields after its start. -/
def readItems (done : Nat) (draft : Draft) :
    List Field → List Char → Except ReadError (Draft × List Char)
  | [], text => .ok (draft, text)
  | field :: fields, text => do
    let text ←
      match skipSpaces text with
      | ']' :: _ => throw (.tooShort done)
      | ',' :: rest =>
        if done = 0 then throw .malformed
        else
          match skipSpaces rest with
          | ']' :: _ => throw .malformed
          | rest => pure rest
      | rest => if done = 0 then pure rest else throw .malformed
    let (draft, rest) ← draft.read field text
    readItems (done + 1) draft fields rest

/-- Reads an array behind its opening bracket. -/
def readArray (text : List Char) : Except ReadError (Settings × List Char) := do
  let (draft, rest) ← readItems 0 Draft.blank Field.all text
  match skipSpaces rest with
  | ']' :: rest => do
    let settings ← draft.finish
    pure (settings, rest)
  | _ => throw .malformed

/-- Reads settings at the start of a text. -/
def readValue (fuel : Nat) (text : List Char) : Except ReadError (Settings × List Char) :=
  match skipSpaces text with
  | '\x7b' :: rest => readObject fuel rest
  | '[' :: rest => readArray rest
  | text => .error (mismatch "struct MapperConfig" text)

/-- Reads a text that is settings as a whole. -/
def read (text : List Char) : Except ReadError Settings := do
  let (settings, rest) ← readValue (text.length + 1) text
  if (skipSpaces rest).isEmpty then pure settings else throw .malformed

end RegionBacking.Settings
