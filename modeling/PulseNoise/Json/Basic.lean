import PulseNoise.Number.Layout
import PulseNoise.Number.Scaling

/-!
# JSON values

A JSON text as a tree. Two spellings are kept that a reader may have to tell apart: numbers are
numerals, and a string whose escapes name half of a surrogate pair is a string without a text. The
fields of an object stand in the order of the text, repeated names included.

* `Json.ofFloat` writes a double; one that is not finite becomes `null`.
* `Json.isValue` holds of trees that can be read whole: every number is in range, every string has
  a text, and containers are not nested deeper than a bound.
-/

namespace PulseNoise

open Number

inductive Json
  | null
  | bool (b : Bool)
  | number (n : Numeral)
  /-- A string; there is no text when an escape names half of a surrogate pair. -/
  | string (text : Option String)
  | array (items : List Json)
  | object (fields : List (Option String × Json))

namespace Json

instance : Inhabited Json := ⟨null⟩

def ofText (text : String) : Json := string (some text)

def ofNat (n : Nat) : Json := number (.ofNat n)

/-- A double in the layout of data; infinities and NaN have no number. -/
def ofFloat (x : Float) : Json :=
  if x.isFinite then number (Layout.data.numeral x) else null

def ofList {α : Type} (f : α → Json) (xs : List α) : Json := array (xs.map f)

def ofOption {α : Type} (f : α → Json) : Option α → Json
  | none => null
  | some x => f x

def ofFields (fields : List (String × Json)) : Json :=
  object (fields.map fun (name, value) => (some name, value))

/-- Whether a value can be read whole, with so many containers nested at most. -/
def isValue : Nat → Json → Bool
  | _, null | _, bool _ => true
  | _, number n => n.toFloat?.isSome
  | _, string text => text.isSome
  | 0, array _ | 0, object _ => false
  | depth + 1, array items => items.all (isValue depth)
  | depth + 1, object fields => fields.all fun field => field.1.isSome && isValue depth field.2

end Json

end PulseNoise
