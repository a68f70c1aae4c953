import StateSpace.Json.Basic

/-!
# Reading JSON

`Json.read?` accepts exactly the texts of the JSON grammar: one value with blanks around
it, no comma before a closing bracket, no leading zeros, and no control characters
inside strings.
-/

namespace StateSpace
namespace Json

/-- Whether a character may stand between tokens. -/
def isBlank (character : Char) : Bool :=
  character == ' ' || character == '\n' || character == '\t' || character == '\r'

/-- The text from its first token on. -/
def skipBlanks (text : List Char) : List Char :=
  text.dropWhile isBlank

/-- The value of a hexadecimal digit. -/
def hexDigit? (character : Char) : Option Nat :=
  if '0' ≤ character ∧ character ≤ '9' then some (character.toNat - '0'.toNat)
  else if 'a' ≤ character ∧ character ≤ 'f' then some (character.toNat - 'a'.toNat + 10)
  else if 'A' ≤ character ∧ character ≤ 'F' then some (character.toNat - 'A'.toNat + 10)
  else none

/-- A part of a string: a character, or a 16-bit unit written as four hexadecimal
digits. -/
inductive Part where
  | character (character : Char)
  | unit (code : Nat)

/-- The character that an escape of one letter stands for. -/
def shortEscape? : Char → Option Char
  | '"' => some '"'
  | '\\' => some '\\'
  | '/' => some '/'
  | 'b' => some '\x08'
  | 'f' => some '\x0c'
  | 'n' => some '\n'
  | 'r' => some '\r'
  | 't' => some '\t'
  | _ => none

/-- The parts of a string up to its closing quote, and the text behind it. -/
def readParts? : List Char → Option (List Part × List Char)
  | [] => none
  | '"' :: rest => some ([], rest)
  | '\\' :: 'u' :: first :: second :: third :: fourth :: rest => do
    let code := 4096 * (← hexDigit? first) + 256 * (← hexDigit? second) +
      16 * (← hexDigit? third) + (← hexDigit? fourth)
    let (parts, rest) ← readParts? rest
    return (.unit code :: parts, rest)
  | '\\' :: letter :: rest => do
    let character ← shortEscape? letter
    let (parts, rest) ← readParts? rest
    return (.character character :: parts, rest)
  | character :: rest => do
    guard (0x20 ≤ character.toNat)
    let (parts, rest) ← readParts? rest
    return (.character character :: parts, rest)

/-- The characters that parts combine to. A high surrogate needs a low one right behind
it. -/
def combine? : List Part → Option (List Char)
  | [] => some []
  | .character character :: rest => return character :: (← combine? rest)
  | .unit high :: .unit low :: rest =>
    if 0xD800 ≤ high ∧ high < 0xDC00 then
      if 0xDC00 ≤ low ∧ low < 0xE000 then
        return Char.ofNat (0x10000 + 0x400 * (high - 0xD800) + (low - 0xDC00)) ::
          (← combine? rest)
      else none
    else if 0xDC00 ≤ high ∧ high < 0xE000 then none
    else return Char.ofNat high :: (← combine? (.unit low :: rest))
  | .unit code :: rest =>
    if 0xD800 ≤ code ∧ code < 0xE000 then none
    else return Char.ofNat code :: (← combine? rest)

/-- The content of a string whose opening quote is read, and the text behind it. -/
def readString? (text : List Char) : Option (Option String × List Char) := do
  let (parts, rest) ← readParts? text
  return ((combine? parts).map String.ofList, rest)

/-- The digits at the start of a text, at least one, and the text behind them. -/
def readDigits? (text : List Char) : Option (List Char × List Char) :=
  match text.takeWhile Char.isDigit with
  | [] => none
  | digits => some (digits, text.dropWhile Char.isDigit)

/-- The digits before the point of a number. Zero stands alone. -/
def readWhole? (text : List Char) : Option (List Char × List Char) :=
  match readDigits? text with
  | some ('0' :: _ :: _, _) => none
  | other => other

/-- The text behind a fraction, and whether there was one. -/
def readFraction? : List Char → Option (Bool × List Char)
  | '.' :: rest => do
    let (_, rest) ← readDigits? rest
    return (true, rest)
  | text => some (false, text)

/-- The text behind the sign of an exponent. -/
def skipSign : List Char → List Char
  | '+' :: rest => rest
  | '-' :: rest => rest
  | text => text

/-- The text behind an exponent, and whether there was one. -/
def readExponent? : List Char → Option (Bool × List Char)
  | 'e' :: rest | 'E' :: rest => do
    let (_, rest) ← readDigits? (skipSign rest)
    return (true, rest)
  | text => some (false, text)

/-- The number that decimal digits write. -/
def decimalValue (digits : List Char) : Nat :=
  digits.foldl (fun number digit => 10 * number + (digit.toNat - '0'.toNat)) 0

/-- The number at the start of a text, and the text behind it. -/
def readNumber? (text : List Char) : Option (Json × List Char) := do
  let (negative, text) :=
    match text with
    | '-' :: rest => (true, rest)
    | rest => (false, rest)
  let (digits, text) ← readWhole? text
  let (fraction, text) ← readFraction? text
  let (exponent, text) ← readExponent? text
  if negative || fraction || exponent then return (.otherNumber, text)
  else return (.natural (decimalValue digits), text)

mutual

/-- The value at the start of a text, and the text behind it. -/
def readValue? : Nat → List Char → Option (Json × List Char)
  | 0, _ => none
  | fuel + 1, text =>
    match skipBlanks text with
    | 'n' :: 'u' :: 'l' :: 'l' :: rest => some (.null, rest)
    | 't' :: 'r' :: 'u' :: 'e' :: rest => some (.truth true, rest)
    | 'f' :: 'a' :: 'l' :: 's' :: 'e' :: rest => some (.truth false, rest)
    | '"' :: rest => do
      let (content, rest) ← readString? rest
      return (.string content, rest)
    | '[' :: rest =>
      match skipBlanks rest with
      | ']' :: rest => some (.array [], rest)
      | rest => do
        let (items, rest) ← readItems? fuel rest
        return (.array items, rest)
    | '\x7b' :: rest =>
      match skipBlanks rest with
      | '\x7d' :: rest => some (.object [], rest)
      | rest => do
        let (members, rest) ← readMembers? fuel rest
        return (.object members, rest)
    | rest => readNumber? rest

/-- The items of an array up to its closing bracket, at least one, and the text behind
it. -/
def readItems? : Nat → List Char → Option (List Json × List Char)
  | 0, _ => none
  | fuel + 1, text => do
    let (item, rest) ← readValue? fuel text
    match skipBlanks rest with
    | ',' :: rest => do
      let (items, rest) ← readItems? fuel rest
      return (item :: items, rest)
    | ']' :: rest => return ([item], rest)
    | _ => none

/-- The members of an object up to its closing brace, at least one, and the text behind
it. -/
def readMembers? : Nat → List Char → Option (List (Option String × Json) × List Char)
  | 0, _ => none
  | fuel + 1, text => do
    match skipBlanks text with
    | '"' :: rest => do
      let (name, rest) ← readString? rest
      match skipBlanks rest with
      | ':' :: rest => do
        let (value, rest) ← readValue? fuel rest
        match skipBlanks rest with
        | ',' :: rest => do
          let (members, rest) ← readMembers? fuel rest
          return ((name, value) :: members, rest)
        | '\x7d' :: rest => return ([(name, value)], rest)
        | _ => none
      | _ => none
    | _ => none

end

/-- The value that a text writes. Every second step of a reader consumes a character, so
twice the length of the text is fuel enough. -/
def read? (text : String) : Option Json := do
  let characters := text.toList
  let (value, rest) ← readValue? (2 * characters.length + 2) characters
  guard (skipBlanks rest).isEmpty
  return value

end Json
end StateSpace
