import BuildPipeline.Json
import BuildPipeline.Number.Decimal
import BuildPipeline.Table
import BuildPipeline.Text.Blank
import BuildPipeline.Text.Casing

/-!
# Values of expressions

Conditions compute with nulls, truth values, binary64 numbers, texts, arrays and objects.  This
module says which values count as true, what text and number a value stands for, and when two values
are equal or ordered: equality is loose between a number or truth value and a text, and ignores the
case of ASCII letters; order is numeric when both sides are, and otherwise that of lower-case texts.
-/

namespace BuildPipeline.Expression

inductive Value where
  | null
  | bool (value : Bool)
  | number (value : Binary64)
  | string (text : String)
  | array (items : List Value)
  | object (fields : List (String × Value))
  deriving Inhabited

namespace Value

/-- An object with these fields. -/
def ofTable (fields : Table Value) : Value :=
  .object fields

/-! ## Views -/

/-- Null, false, zero, the empty text and the word `false` do not count as true; NaN does. -/
def isTruthy : Value → Bool
  | .null => false
  | .bool value => value
  | .number value => !value.isZero
  | .string text => text != "" && !Text.equalsIgnoringAsciiCase text "false"
  | .array _ | .object _ => true

/-- The number of a number, a truth value, or a text that reads as one between blanks. -/
def asNumber? : Value → Option Binary64
  | .number value => some value
  | .bool value => some (if value then .one else .zero)
  | .string text => Binary64.read? (Text.trim text)
  | _ => none

mutual

def toJson : Value → Json
  | .null => .null
  | .bool value => .bool value
  | .number value => .ofBinary64 value
  | .string text => .string text
  | .array items => .array (toJsonItems items)
  | .object fields => .object (toJsonFields fields)

def toJsonItems : List Value → List Json
  | [] => []
  | item :: items => toJson item :: toJsonItems items

def toJsonFields : List (String × Value) → List (String × Json)
  | [] => []
  | (key, value) :: fields => (key, toJson value) :: toJsonFields fields

end

/-- The text of a number: of the integer it is while that is below `10 ^ 15` in magnitude. -/
def numberText (x : Binary64) : String :=
  match x.smallInteger? with
  | some i => toString i
  | none => x.write .plain

/-- The text a value stands for: arrays and objects as JSON, null as nothing. -/
def asText : Value → String
  | .null => ""
  | .bool value => if value then "true" else "false"
  | .number value => numberText value
  | .string text => text
  | value => value.toJson.compact

/-! ## Equality -/

/-- Whether a text between blanks reads as a number close to this one. -/
def textIsNumber (x : Binary64) (text : String) : Bool :=
  match Binary64.read? (Text.trim text) with
  | some y => x.isClose y
  | none => false

def textIsBool (value : Bool) (text : String) : Bool :=
  Text.equalsIgnoringAsciiCase text (if value then "true" else "false")

mutual

/-- Loose equality.  Objects equal nothing, and arrays only arrays. -/
def equals : Value → Value → Bool
  | .null, .null => true
  | .null, .string text | .string text, .null => text == ""
  | .bool a, .bool b => a == b
  | .number a, .number b => a.isClose b
  | .string a, .string b => Text.equalsIgnoringAsciiCase a b
  | .number x, .string text | .string text, .number x => textIsNumber x text
  | .bool value, .string text | .string text, .bool value => textIsBool value text
  | .array a, .array b => equalItems a b
  | _, _ => false

def equalItems : List Value → List Value → Bool
  | [], [] => true
  | x :: xs, y :: ys => equals x y && equalItems xs ys
  | _, _ => false

end

/-! ## Order -/

def compareTexts (a b : String) : Ordering :=
  if a < b then .lt else if a = b then .eq else .gt

/-- The order of two values; nothing when a NaN takes part in a numeric comparison. -/
def compare? (a b : Value) : Option Ordering :=
  match a.asNumber?, b.asNumber? with
  | some x, some y => x.compare? y
  | _, _ => some (compareTexts (Text.lower a.asText) (Text.lower b.asText))

end Value

end BuildPipeline.Expression
