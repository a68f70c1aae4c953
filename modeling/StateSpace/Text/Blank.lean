/-!
# Blanks, words and lines

Blanks are the characters with the Unicode property White_Space. A word is a longest run
of other characters, and a line ends at a line feed.
-/

namespace StateSpace
namespace Text

/-- Whether a character is white space. -/
def isBlank (character : Char) : Bool :=
  let code := character.toNat
  (0x09 ≤ code && code ≤ 0x0D) || code == 0x20 || code == 0x85 || code == 0xA0
    || code == 0x1680 || (0x2000 ≤ code && code ≤ 0x200A) || code == 0x2028
    || code == 0x2029 || code == 0x202F || code == 0x205F || code == 0x3000

/-- The pieces between the characters that satisfy `separates`, empty ones included. -/
def pieces (separates : Char → Bool) : List Char → List (List Char)
  | [] => [[]]
  | character :: rest =>
    match pieces separates rest with
    | [] => [[character]]
    | piece :: others =>
      if separates character then [] :: piece :: others
        else (character :: piece) :: others

/-- The words of a text in order. -/
def words (text : List Char) : List String :=
  ((pieces isBlank text).filter (!·.isEmpty)).map String.ofList

/-- The lines of a text in order. A final line feed ends a line and starts an empty
one. -/
def lines (text : List Char) : List (List Char) :=
  pieces (· == '\n') text

end Text
end StateSpace
