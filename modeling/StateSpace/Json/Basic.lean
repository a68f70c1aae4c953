/-!
# JSON values

Stored configurations, records and results are JSON documents. A JSON value keeps the
members of an object in the order in which they are written, repeated names included.
Natural numbers are the only numbers that such documents use, so all others are just
known to be numbers.
-/

namespace StateSpace

/-- A JSON value. -/
inductive Json where
  | null
  | truth (value : Bool)
  | natural (value : Nat)
  /-- A number with a sign, a fraction or an exponent. -/
  | otherNumber
  /-- A string. It has no content if its escapes do not combine to characters. -/
  | string (content : Option String)
  | array (items : List Json)
  | object (members : List (Option String × Json))

namespace Json

/-- The string of a text. -/
def text (content : String) : Json :=
  .string (some content)

/-- The object of named values. -/
def record (members : List (String × Json)) : Json :=
  .object (members.map fun (name, value) => (some name, value))

end Json
end StateSpace
