import PulseNoise.Json.Token

/-!
# Writing JSON texts

A value is written as its tokens, in one of two forms with the same tokens: the compact form has
no blanks, the indented one gives every item and every field a line of its own. Empty containers
are never broken.
-/

namespace PulseNoise.Json

/-- A piece of a written text. -/
inductive Piece
  | token (t : Token)
  | blank
  /-- A new line with so many levels of indentation. -/
  | line (level : Nat)
  deriving DecidableEq, Repr

namespace Piece

/-- The characters of a piece; a level of indentation is two blanks. -/
def text : Piece → String
  | token t => t.text
  | blank => " "
  | line level => "\n" ++ String.ofList (List.replicate (2 * level) ' ')

end Piece

mutual

def tokens : Json → List Token
  | .null => [.null]
  | .bool b => [.bool b]
  | .number n => [.number n]
  | .string text => [.string text]
  | .array items => .arrayStart :: itemTokens items ++ [.arrayEnd]
  | .object fields => .objectStart :: fieldTokens fields ++ [.objectEnd]

def itemTokens : List Json → List Token
  | [] => []
  | [item] => tokens item
  | item :: items => tokens item ++ .comma :: itemTokens items

def fieldTokens : List (Option String × Json) → List Token
  | [] => []
  | [(name, value)] => .string name :: .colon :: tokens value
  | (name, value) :: fields =>
    .string name :: .colon :: tokens value ++ .comma :: fieldTokens fields

end

def compact (value : Json) : String := String.join (value.tokens.map Token.text)

mutual

/-- The pieces of the indented form at a level. -/
def pieces (level : Nat) : Json → List Piece
  | .array (item :: items) =>
    .token .arrayStart :: itemPieces (level + 1) (item :: items)
      ++ [.line level, .token .arrayEnd]
  | .object (field :: fields) =>
    .token .objectStart :: fieldPieces (level + 1) (field :: fields)
      ++ [.line level, .token .objectEnd]
  | .array [] => [.token .arrayStart, .token .arrayEnd]
  | .object [] => [.token .objectStart, .token .objectEnd]
  | .null => [.token .null]
  | .bool b => [.token (.bool b)]
  | .number n => [.token (.number n)]
  | .string text => [.token (.string text)]

def itemPieces (level : Nat) : List Json → List Piece
  | [] => []
  | [item] => .line level :: pieces level item
  | item :: items => .line level :: pieces level item ++ .token .comma :: itemPieces level items

def fieldPieces (level : Nat) : List (Option String × Json) → List Piece
  | [] => []
  | [(name, value)] =>
    .line level :: .token (.string name) :: .token .colon :: .blank :: pieces level value
  | (name, value) :: fields =>
    .line level :: .token (.string name) :: .token .colon :: .blank :: pieces level value
      ++ .token .comma :: fieldPieces level fields

end

def indented (value : Json) : String := String.join ((value.pieces 0).map Piece.text)

end PulseNoise.Json
