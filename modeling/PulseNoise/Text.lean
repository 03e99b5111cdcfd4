import PulseNoise.Text.Unprintable

/-!
# Lists and names in texts

* `bracketed` writes a list between brackets, its items separated by commas.
* `quoted` writes a name between double quotes, so that its ends can be seen.
-/

namespace PulseNoise.Text

/-- A list of written items: `[a, b]`. -/
def bracketed (items : List String) : String := "[" ++ ", ".intercalate items ++ "]"

def naturals (ns : List Nat) : String := bracketed (ns.map toString)

/-- An optional item by name: `None` or `Some(a)`. -/
def optional (item : Option String) : String :=
  match item with
  | none => "None"
  | some text => "Some(" ++ text ++ ")"

/-- One character of a quoted name. Quotes and backslashes are escaped, and so are the characters
that would not show. -/
def quotedChar (c : Char) : String :=
  if c = '"' then "\\\""
  else if c = '\\' then "\\\\"
  else if c = '\n' then "\\n"
  else if c = '\r' then "\\r"
  else if c = '\t' then "\\t"
  else if c.toNat = 0 then "\\0"
  else if isUnprintable c then
    "\\u\x7b" ++ String.ofList (Nat.toDigits 16 c.toNat) ++ "\x7d"
  else c.toString

def quoted (name : String) : String :=
  "\"" ++ String.join (name.toList.map quotedChar) ++ "\""

end PulseNoise.Text
