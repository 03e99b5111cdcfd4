import PulseNoise.Json.Token

/-!
# Reading JSON texts

The grammar of JSON over tokens: nothing may stand around the value, and no comma may stand
without a value after it. `Json.parse?` reads a text.
-/

namespace PulseNoise.Json

mutual

/-- The value at the start of so many tokens at most, and what follows it. -/
def value? : Nat → List Token → Option (Json × List Token)
  | 0, _ => none
  | _ + 1, .null :: rest => some (.null, rest)
  | _ + 1, .bool b :: rest => some (.bool b, rest)
  | _ + 1, .number n :: rest => some (.number n, rest)
  | _ + 1, .string text :: rest => some (.string text, rest)
  | _ + 1, .arrayStart :: .arrayEnd :: rest => some (.array [], rest)
  | bound + 1, .arrayStart :: rest => do
    let (items, rest) ← items? bound rest
    return (.array items, rest)
  | _ + 1, .objectStart :: .objectEnd :: rest => some (.object [], rest)
  | bound + 1, .objectStart :: rest => do
    let (fields, rest) ← fields? bound rest
    return (.object fields, rest)
  | _ + 1, _ => none

/-- The values up to the end of an array, at least one. -/
def items? : Nat → List Token → Option (List Json × List Token)
  | 0, _ => none
  | bound + 1, tokens => do
    let (item, rest) ← value? bound tokens
    match rest with
    | .arrayEnd :: rest => return ([item], rest)
    | .comma :: rest => do
      let (items, rest) ← items? bound rest
      return (item :: items, rest)
    | _ => none

/-- The fields up to the end of an object, at least one. -/
def fields? : Nat → List Token → Option (List (Option String × Json) × List Token)
  | bound + 1, .string name :: .colon :: tokens => do
    let (value, rest) ← value? bound tokens
    match rest with
    | .objectEnd :: rest => return ([(name, value)], rest)
    | .comma :: rest => do
      let (fields, rest) ← fields? bound rest
      return ((name, value) :: fields, rest)
    | _ => none
  | _, _ => none

end

def ofTokens? (tokens : List Token) : Option Json :=
  match value? tokens.length tokens with
  | some (value, []) => some value
  | _ => none

def parse? (text : String) : Option Json := do
  let tokens ← lex text.toList
  ofTokens? tokens

end PulseNoise.Json
