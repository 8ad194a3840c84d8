import BuildPipeline.Number.Decimal

/-!
# JSON documents

Values to be written, with the members of an object in the order given, and their two texts: on one
line without blanks, or indented by two columns.  A number is given by its text.  Reading is not
covered.
-/

namespace BuildPipeline

inductive Json where
  | null
  | bool (value : Bool)
  | number (text : String)
  | string (text : String)
  | array (items : List Json)
  | object (members : List (String × Json))
  deriving Inhabited

namespace Json

def ofInt (i : Int) : Json :=
  .number (toString i)

/-- A double; what is not finite becomes null. -/
def ofBinary64 (x : Binary64) : Json :=
  if x.isFinite then .number (x.write .json) else .null

def ofOption (text : Option String) : Json :=
  match text with
  | some text => .string text
  | none => .null

/-! ## Strings -/

/-- Only quotes, backslashes and the controls below the space are escaped. -/
def escapeChar (c : Char) : List Char :=
  if c = '"' then ['\\', '"']
  else if c = '\\' then ['\\', '\\']
  else if c = '\n' then ['\\', 'n']
  else if c = '\r' then ['\\', 'r']
  else if c = '\t' then ['\\', 't']
  else if c.toNat = 8 then ['\\', 'b']
  else if c.toNat = 12 then ['\\', 'f']
  else if c.toNat < 32 then
    let digits := Nat.toDigits 16 c.toNat
    '\\' :: 'u' :: List.replicate (4 - digits.length) '0' ++ digits
  else [c]

def writeString (text : String) : String :=
  String.ofList ('"' :: text.toList.flatMap escapeChar ++ ['"'])

/-! ## Texts -/

mutual

/-- The text on one line. -/
def compact : Json → String
  | .null => "null"
  | .bool value => if value then "true" else "false"
  | .number text => text
  | .string text => writeString text
  | .array items => "[" ++ ",".intercalate (compactItems items) ++ "]"
  | .object members => "\x7b" ++ ",".intercalate (compactMembers members) ++ "\x7d"

def compactItems : List Json → List String
  | [] => []
  | item :: items => compact item :: compactItems items

def compactMembers : List (String × Json) → List String
  | [] => []
  | (key, value) :: members => (writeString key ++ ":" ++ compact value) :: compactMembers members

end

def indentation (depth : Nat) : String :=
  String.ofList (List.replicate (2 * depth) ' ')

/-- Lines between two brackets, indented one step deeper than the brackets. -/
def bracketed (opening closing : String) (depth : Nat) : List String → String
  | [] => opening ++ closing
  | parts =>
    let gap := "\n" ++ indentation (depth + 1)
    opening ++ gap ++ ("," ++ gap).intercalate parts ++ "\n" ++ indentation depth ++ closing

mutual

/-- The text over several lines, for a value that stands at `depth`. -/
def prettyAt (depth : Nat) : Json → String
  | .array items => bracketed "[" "]" depth (prettyItems (depth + 1) items)
  | .object members => bracketed "\x7b" "\x7d" depth (prettyMembers (depth + 1) members)
  | .null => "null"
  | .bool value => if value then "true" else "false"
  | .number text => text
  | .string text => writeString text

def prettyItems (depth : Nat) : List Json → List String
  | [] => []
  | item :: items => prettyAt depth item :: prettyItems depth items

def prettyMembers (depth : Nat) : List (String × Json) → List String
  | [] => []
  | (key, value) :: members =>
    (writeString key ++ ": " ++ prettyAt depth value) :: prettyMembers depth members

end

def pretty (document : Json) : String :=
  prettyAt 0 document

end Json

end BuildPipeline
