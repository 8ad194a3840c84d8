import BuildPipeline.Number.Decimal

/-!
# Plain scalars

What a scalar without quotes is: null, a truth value, an integer in one of four bases, a binary64
number, or a text.  Digits behind a leading zero are a text.  An integer has a sign and at most 64
bits; one with up to 128 bits is recognised so that it can be refused.
-/

namespace BuildPipeline.Yaml

/-- The kinds of plain scalars. -/
inductive Resolved where
  | null
  | bool (value : Bool)
  | int (value : Int)
  /-- An integer of more than 64 bits. -/
  | wide (value : Int)
  | float (value : Binary64)
  | text
  deriving DecidableEq

def isNullWord (text : String) : Bool :=
  text == "null" || text == "Null" || text == "NULL" || text == "~"

def boolWord? (text : String) : Option Bool :=
  if text == "true" || text == "True" || text == "TRUE" then some true
  else if text == "false" || text == "False" || text == "FALSE" then some false
  else none

/-! ## Integers -/

/-- The value of a digit in a base. -/
def digitIn? (base : Nat) (c : Char) : Option Nat :=
  let value :=
    if c.isDigit then c.toNat - '0'.toNat
    else if 'a' ≤ c ∧ c ≤ 'z' then c.toNat - 'a'.toNat + 10
    else if 'A' ≤ c ∧ c ≤ 'Z' then c.toNat - 'A'.toNat + 10
    else base
  if value < base then some value else none

def digitsFrom? (base : Nat) : Nat → List Char → Option Nat
  | value, [] => some value
  | value, c :: rest =>
    (digitIn? base c).bind fun digit => digitsFrom? base (base * value + digit) rest

/-- The value of at least one digit. -/
def natural? (base : Nat) (digits : List Char) : Option Nat :=
  if digits = [] then none else digitsFrom? base 0 digits

/-- Whether digits stand behind a leading zero. -/
def isPaddedNumber (text : List Char) : Bool :=
  let body := match text with
    | '-' :: rest | '+' :: rest => rest
    | _ => text
  match body with
  | '0' :: c :: rest => (c :: rest).all Char.isDigit
  | _ => false

/-- The magnitude behind a base's mark. -/
def based? : List Char → Option Nat
  | '0' :: 'x' :: rest => natural? 16 rest
  | '0' :: 'o' :: rest => natural? 8 rest
  | '0' :: 'b' :: rest => natural? 2 rest
  | _ => none

/-- An integer that is not negative and below a bound. -/
def unsigned? (bound : Nat) (text : List Char) : Option Int :=
  let body := match text with
    | '+' :: rest => rest
    | _ => text
  let read (n : Option Nat) : Option Int := (n.filter (· < bound)).map Int.ofNat
  match read (based? body) with
  | some value => some value
  | none => if isPaddedNumber text then none else read (natural? 10 body)

/-- An integer with a minus sign, of a magnitude up to a bound. -/
def negative? (bound : Nat) (text : List Char) : Option Int :=
  match text with
  | '-' :: body =>
    let read (n : Option Nat) : Option Int := (n.filter (· ≤ bound)).map fun n => -(n : Int)
    match read (based? body) with
    | some value => some value
    | none => if isPaddedNumber text then none else read (natural? 10 body)
  | _ => none

inductive IntegerWord where
  | int (value : Int)
  | wide (value : Int)

/-- The integer that a text is. -/
def integerWord? (text : List Char) : Option IntegerWord :=
  match (unsigned? (Nat.pow 2 64) text).or (negative? (Nat.pow 2 63) text) with
  | some value => some (.int value)
  | none => ((unsigned? (Nat.pow 2 128) text).or (negative? (Nat.pow 2 127) text)).map .wide

/-! ## Binary64 numbers -/

/-- The number that a text is: one of the words, or decimal text of a finite number. -/
def floatWord? (text : List Char) : Option Binary64 :=
  let body := match text with
    | '+' :: rest => rest
    | _ => text
  let doubleSign := match text with
    | '+' :: '+' :: _ | '+' :: '-' :: _ => true
    | _ => false
  let isOneOf (word : List Char) (words : List String) : Bool := words.any (·.toList == word)
  if doubleSign then none
  else if isOneOf body [".inf", ".Inf", ".INF"] then some (.infinite false)
  else if isOneOf text ["-.inf", "-.Inf", "-.INF"] then some (.infinite true)
  else if isOneOf text [".nan", ".NaN", ".NAN"] then some .nan
  else (Binary64.readChars? body).filter Binary64.isFinite

/-! ## Resolution -/

def resolve (text : String) : Resolved :=
  if text == "" || isNullWord text then .null
  else
    match boolWord? text with
    | some value => .bool value
    | none =>
      let chars := text.toList
      match integerWord? chars with
      | some (.int value) => .int value
      | some (.wide value) => .wide value
      | none =>
        if isPaddedNumber chars then .text
        else
          match floatWord? chars with
          | some value => .float value
          | none => .text

end BuildPipeline.Yaml
