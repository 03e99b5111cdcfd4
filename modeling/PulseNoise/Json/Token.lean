import PulseNoise.Json.Basic

/-!
# The tokens of a JSON text

A JSON text is a sequence of tokens with blanks between them. `Token.text` writes one token;
`lex` cuts a text into its tokens, or fails at the first character that begins none.

Strings are read in two steps. `spell` reads up to the closing quote and undoes the escapes, each
of which names a character or a 16-bit unit; `combine` joins the units into characters.
-/

namespace PulseNoise.Json

open Number

inductive Token
  | objectStart
  | objectEnd
  | arrayStart
  | arrayEnd
  | colon
  | comma
  | null
  | bool (b : Bool)
  | number (n : Numeral)
  | string (text : Option String)
  deriving DecidableEq, Repr

/-! ## Writing -/

def hexDigit (n : Nat) : Char :=
  if n < 10 then Char.ofNat ('0'.toNat + n) else Char.ofNat ('a'.toNat + (n - 10))

/-- One character of a string: quotes, backslashes and control characters are escaped. -/
def escapeChar (c : Char) : List Char :=
  if c = '"' then ['\\', '"']
  else if c = '\\' then ['\\', '\\']
  else if c = '\n' then ['\\', 'n']
  else if c = '\r' then ['\\', 'r']
  else if c = '\t' then ['\\', 't']
  else if c = '\x08' then ['\\', 'b']
  else if c = '\x0c' then ['\\', 'f']
  else if c.toNat < 32 then
    ['\\', 'u', '0', '0', hexDigit (c.toNat / 16), hexDigit (c.toNat % 16)]
  else [c]

/-- A string between quotes. -/
def quote (text : String) : String :=
  "\"" ++ String.ofList (text.toList.flatMap escapeChar) ++ "\""

namespace Token

/-- The written form of a token; a string without a text is written as an empty one. -/
def text : Token → String
  | objectStart => "\x7b"
  | objectEnd => "\x7d"
  | arrayStart => "["
  | arrayEnd => "]"
  | colon => ":"
  | comma => ","
  | null => "null"
  | bool true => "true"
  | bool false => "false"
  | number n => n.text Layout.data.plus
  | string text => quote (text.getD "")

end Token

/-! ## Reading strings -/

/-- A part of a string: a character, or a 16-bit unit named by an escape. -/
inductive Part
  | char (c : Char)
  | unit (u : Nat)
  deriving DecidableEq, Repr

def hexValue? (c : Char) : Option Nat :=
  if '0' ≤ c ∧ c ≤ '9' then some (c.toNat - '0'.toNat)
  else if 'a' ≤ c ∧ c ≤ 'f' then some (c.toNat - 'a'.toNat + 10)
  else if 'A' ≤ c ∧ c ≤ 'F' then some (c.toNat - 'A'.toNat + 10)
  else none

def unit? (a b c d : Char) : Option Nat := do
  let a ← hexValue? a
  let b ← hexValue? b
  let c ← hexValue? c
  let d ← hexValue? d
  return ((a * 16 + b) * 16 + c) * 16 + d

/-- The character of an escape with one letter. -/
def escaped? : Char → Option Char
  | '"' => some '"'
  | '\\' => some '\\'
  | '/' => some '/'
  | 'b' => some '\x08'
  | 'f' => some '\x0c'
  | 'n' => some '\n'
  | 'r' => some '\r'
  | 't' => some '\t'
  | _ => none

/-- The parts of a string up to its closing quote, and what follows it. Control characters have
to be escaped. -/
def spell : List Char → Option (List Part × List Char)
  | [] => none
  | '"' :: rest => some ([], rest)
  | '\\' :: 'u' :: a :: b :: c :: d :: rest => do
    let u ← unit? a b c d
    let (parts, rest) ← spell rest
    return (.unit u :: parts, rest)
  | '\\' :: e :: rest => do
    let c ← escaped? e
    let (parts, rest) ← spell rest
    return (.char c :: parts, rest)
  | c :: rest =>
    if c = '\\' || c.toNat < 32 then none
    else do
      let (parts, rest) ← spell rest
      return (.char c :: parts, rest)

def isHighHalf (u : Nat) : Bool := 0xd800 ≤ u && u < 0xdc00

def isLowHalf (u : Nat) : Bool := 0xdc00 ≤ u && u < 0xe000

/-- The characters of the parts of a string, if every half of a pair has its other half. -/
def combine : List Part → Option (List Char)
  | [] => some []
  | .char c :: parts => (c :: ·) <$> combine parts
  | .unit u :: .unit v :: parts =>
    if isHighHalf u then
      if isLowHalf v then
        (Char.ofNat (0x10000 + (u - 0xd800) * 0x400 + (v - 0xdc00)) :: ·) <$> combine parts
      else none
    else if isLowHalf u then none
    else (Char.ofNat u :: ·) <$> combine (.unit v :: parts)
  | .unit u :: parts =>
    if isHighHalf u || isLowHalf u then none else (Char.ofNat u :: ·) <$> combine parts

/-! ## Reading numbers -/

def digitValue? (c : Char) : Option (Fin 10) :=
  if '0' ≤ c ∧ c ≤ '9' then some (Numeral.lastDigit (c.toNat - '0'.toNat)) else none

/-- The digits at the start of a text, and what follows them. -/
def takeDigits : List Char → List (Fin 10) × List Char
  | [] => ([], [])
  | c :: rest =>
    match digitValue? c with
    | none => ([], c :: rest)
    | some d =>
      let (ds, rest) := takeDigits rest
      (d :: ds, rest)

def ofDigits (ds : List (Fin 10)) : Nat := ds.foldl (fun acc d => 10 * acc + d.val) 0

/-- The whole part of a number: some digits, of which the first is zero only by itself. -/
def whole? (cs : List Char) : Option (Nat × List Char) :=
  match takeDigits cs with
  | ([], _) => none
  | (0 :: _ :: _, _) => none
  | (ds, rest) => some (ofDigits ds, rest)

/-- The fraction of a number, which has a digit after its point. -/
def fraction? : List Char → Option (List (Fin 10) × List Char)
  | '.' :: rest =>
    match takeDigits rest with
    | ([], _) => none
    | (ds, rest) => some (ds, rest)
  | cs => some ([], cs)

/-- The digits of a power of ten, with the sign that was read before them. -/
def powerDigits? (negative : Bool) (cs : List Char) : Option (Option Int × List Char) :=
  match takeDigits cs with
  | ([], _) => none
  | (ds, rest) =>
    let n : Int := ofDigits ds
    some (some (if negative then -n else n), rest)

def power? : List Char → Option (Option Int × List Char)
  | [] => some (none, [])
  | c :: rest =>
    if c = 'e' || c = 'E' then
      match rest with
      | '+' :: rest => powerDigits? false rest
      | '-' :: rest => powerDigits? true rest
      | rest => powerDigits? false rest
    else some (none, c :: rest)

/-- A number without its sign, and what follows it. -/
def unsigned? (negative : Bool) (cs : List Char) : Option (Numeral × List Char) := do
  let (whole, cs) ← whole? cs
  let (fraction, cs) ← fraction? cs
  let (power, cs) ← power? cs
  return (⟨negative, whole, fraction, power⟩, cs)

/-- A number, and what follows it. -/
def numeral? : List Char → Option (Numeral × List Char)
  | '-' :: rest => unsigned? true rest
  | cs => unsigned? false cs

/-! ## Reading tokens -/

def isBlank (c : Char) : Bool := c = ' ' || c = '\n' || c = '\r' || c = '\t'

/-- The token at the start of a text that does not begin with a blank, and what follows it. -/
def token? : List Char → Option (Token × List Char)
  | [] => none
  | '\x7b' :: rest => some (.objectStart, rest)
  | '\x7d' :: rest => some (.objectEnd, rest)
  | '[' :: rest => some (.arrayStart, rest)
  | ']' :: rest => some (.arrayEnd, rest)
  | ':' :: rest => some (.colon, rest)
  | ',' :: rest => some (.comma, rest)
  | 'n' :: 'u' :: 'l' :: 'l' :: rest => some (.null, rest)
  | 't' :: 'r' :: 'u' :: 'e' :: rest => some (.bool true, rest)
  | 'f' :: 'a' :: 'l' :: 's' :: 'e' :: rest => some (.bool false, rest)
  | '"' :: rest => do
    let (parts, rest) ← spell rest
    return (.string ((combine parts).map String.ofList), rest)
  | cs => do
    let (n, rest) ← numeral? cs
    return (.number n, rest)

/-- The tokens of a text of at most so many characters. -/
def lexUpTo : Nat → List Char → Option (List Token)
  | _, [] => some []
  | 0, _ :: _ => none
  | bound + 1, c :: rest =>
    if isBlank c then lexUpTo bound rest
    else do
      let (token, rest) ← token? (c :: rest)
      let tokens ← lexUpTo bound rest
      return token :: tokens

def lex (cs : List Char) : Option (List Token) := lexUpTo cs.length cs

end PulseNoise.Json
