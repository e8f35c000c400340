import RegionBacking.Decimal.Shortest
import RegionBacking.MemoryKind
import RegionBacking.Text.Escaped

/-!
# Errors of reading settings

A text that is no JSON is malformed, and no more is said of it. A JSON text that is no settings has
an error of its own, which says what was found and what was expected.
-/

namespace RegionBacking

/-- What stands in a text where something else is expected. -/
inductive Found where
  | null
  | switch (value : Bool)
  | integer (value : Int)
  | real (value : Float)
  | text (text : List Char)
  | sequence
  | map

/-- The text of what was found. -/
def Found.message : Found → String
  | null => "null"
  | switch value => s!"boolean \x60{value}\x60"
  | integer value => s!"integer \x60{value}\x60"
  | real value => s!"floating point \x60{Shortest.text value}\x60"
  | text characters => "string " ++ String.ofList (Escaped.encode characters)
  | sequence => "sequence"
  | map => "map"

/-- Why a text is not read as settings. -/
inductive ReadError where
  /-- The text is no JSON. -/
  | malformed
  /-- A value has another type. -/
  | wrongType (found : Found) (expected : String)
  /-- A value has the right type and is out of range. -/
  | wrongValue (found : Found) (expected : String)
  /-- No kind of memory has this name. -/
  | unknownKind (name : List Char)
  /-- A field stands twice. -/
  | duplicateField (name : String)
  /-- A field is missing. -/
  | missingField (name : String)
  /-- A sequence of values is too short. -/
  | tooShort (length : Nat)

namespace ReadError

/-- The names of all kinds of memory, quoted. -/
def kindNames : String :=
  ", ".intercalate (MemoryKind.all.map fun kind => s!"\x60{kind.name}\x60")

/-- The text of an error, if it is more than malformed. -/
def message? : ReadError → Option String
  | malformed => none
  | wrongType found expected => some s!"invalid type: {found.message}, expected {expected}"
  | wrongValue found expected => some s!"invalid value: {found.message}, expected {expected}"
  | unknownKind name =>
    some s!"unknown variant \x60{String.ofList name}\x60, expected one of {kindNames}"
  | duplicateField name => some s!"duplicate field \x60{name}\x60"
  | missingField name => some s!"missing field \x60{name}\x60"
  | tooShort length =>
    some s!"invalid length {length}, expected struct MapperConfig with 11 elements"

end ReadError

end RegionBacking
