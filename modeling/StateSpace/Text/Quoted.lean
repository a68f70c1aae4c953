import StateSpace.Text.GraphemeExtend
import StateSpace.Text.Unprintable

/-!
# Quoted text

Names that appear inside messages are quoted so that every character of them can be
seen. Quotes and backslashes get a backslash, four control characters have short forms,
and every other character without a glyph of its own is written as its code point in
hexadecimal. These are the unprintable characters and the marks that are drawn onto the
character before them.
-/

namespace StateSpace
namespace Text

/-- The code point of a character in lowercase hexadecimal, between braces. -/
def codePointEscape (character : Char) : List Char :=
  ['\\', 'u', '\x7b'] ++ Nat.toDigits 16 character.toNat ++ ['\x7d']

/-- Whether a character is a halfwidth sound mark, which extends a syllable but has its
own cell. -/
def isHalfwidthSoundMark (character : Char) : Bool :=
  character == '\uff9e' || character == '\uff9f'

/-- Whether a character has no glyph that stands by itself. -/
def isHidden (character : Char) : Bool :=
  isUnprintable character ||
    isGraphemeExtend character && !isHalfwidthSoundMark character

/-- One character as it stands between quotes. -/
def quotedChar (character : Char) : List Char :=
  match character with
  | '"' => ['\\', '"']
  | '\\' => ['\\', '\\']
  | '\t' => ['\\', 't']
  | '\r' => ['\\', 'r']
  | '\n' => ['\\', 'n']
  | '\x00' => ['\\', '0']
  | _ =>
    if 0x20 ≤ character.toNat && character.toNat < 0x7F then [character]
    else if isHidden character then codePointEscape character
    else [character]

/-- A text between double quotes, with everything in it made visible. -/
def quoted (text : String) : String :=
  String.ofList ('"' :: text.toList.flatMap quotedChar ++ ['"'])

end Text
end StateSpace
