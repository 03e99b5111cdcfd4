import PulseNoise.Json.Parser

/-!
# Reading values from JSON

Readers take a JSON value to a value of another type, or refuse it. Structures are read by
`Json.record?`: from an object, in which unknown fields are skipped and a known field must not
stand twice, or from a list of the fields in their order, which may leave out fields at its end
that allow it.
-/

namespace PulseNoise.Json

/-- A 64-bit natural, written with digits alone. -/
def natural? : Json → Option Nat
  | .number n => n.natural?
  | _ => none

/-- A double, from any number in range. -/
def float? : Json → Option Float
  | .number n => n.toFloat?
  | _ => none

def bool? : Json → Option Bool
  | .bool b => some b
  | _ => none

def list? {α : Type} (read : Json → Option α) : Json → Option (List α)
  | .array items => items.mapM read
  | _ => none

/-- A value, or `null` for none. -/
def optional? {α : Type} (read : Json → Option α) : Json → Option (Option α)
  | .null => some none
  | value => some <$> read value

/-- A word: a string, or an object with the word as the name of its only field, whose value is
`null`. -/
def word? : Json → Option String
  | .string text => text
  | .object [(name, .null)] => name
  | _ => none

/-- A word in a value that has been read whole; there, an empty object may stand for `null`. -/
def wholeWord? : Json → Option String
  | .object [(name, .object [])] => name
  | value => value.word?

/-- A field of a structure: its names, and whether a list of the fields may end before it. -/
structure FieldRule where
  names : List String
  mayTrail : Bool

/-- The value of a field among named values; a field that stands twice is refused. -/
def field? (fields : List (Option String × Json)) (rule : FieldRule) : Option (Option Json) :=
  match fields.filter fun field => field.1.any (rule.names.contains ·) with
  | [] => some none
  | [field] => some (some field.2)
  | _ => none

/-- The values of the fields of a structure, in the order of the rules. -/
def record? (rules : List FieldRule) : Json → Option (List (Option Json))
  | .object fields =>
    if fields.all (·.1.isSome) then rules.mapM (field? fields) else none
  | .array items =>
    if items.length ≤ rules.length && (rules.drop items.length).all (·.mayTrail) then
      some (items.map some ++ List.replicate (rules.length - items.length) none)
    else none
  | _ => none

/-- A field that has to be there. -/
def required? {α : Type} (read : Json → Option α) (value : Option Json) : Option α :=
  value.bind read

/-- A field that may be missing, with what stands in for it. -/
def defaulted? {α : Type} (fallback : α) (read : Json → Option α) : Option Json → Option α
  | none => some fallback
  | some value => read value

end PulseNoise.Json
