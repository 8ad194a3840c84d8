import BuildPipeline.Table
import BuildPipeline.Text.Quoted
import BuildPipeline.Yaml.Node
import BuildPipeline.Yaml.Scalar
import BuildPipeline.Yaml.Value

/-!
# Reading typed data

A reader takes a piece of data and gives a value of some type or says why it cannot.  The data is
either written in a text or held as a value.

What is written is read from front to back: an error in an earlier part wins over a fault of the
text behind it.  An error about written data names the path to the part and the place where the
innermost part that was being read begins; an error about a held value names neither.  Aliases are
followed where data behind them is read, but not in parts that are skipped, and only so many times.

Texts may be written as any scalar, so `name: 1` names something `1`, but a held value has to be a
text.
-/

namespace BuildPipeline.Yaml

/-! ## Errors -/

/-- The way from the root of the data to a part of it. -/
inductive Path where
  | root
  | item (parent : Path) (index : Nat)
  | field (parent : Path) (name : String)
  /-- The value of a key that is not a written scalar. -/
  | unnamed (parent : Path)
  deriving DecidableEq, Repr

namespace Path

def isRoot : Path → Bool
  | root => true
  | _ => false

def text : Path → String
  | root => "."
  | item parent index => parent.text ++ "[" ++ toString index ++ "]"
  | field parent name => (if parent.isRoot then "" else parent.text ++ ".") ++ name
  | unnamed parent => (if parent.isRoot then "" else parent.text ++ ".") ++ "?"

end Path

/-- What stands where something else was expected. -/
inductive Found where
  | bool (value : Bool)
  | int (value : Int)
  | wide (value : Int)
  | float (value : Binary64)
  | text (text : String)
  | null
  | sequence
  | mapping
  | tagged

def backquoted (text : String) : String :=
  "`" ++ text ++ "`"

/-- A number with a point in any case. -/
def pointedNumber (x : Binary64) : String :=
  let text := x.write .plain
  if x.isFinite && !text.toList.contains '.' then text ++ ".0" else text

def Found.description : Found → String
  | .bool value => "boolean " ++ backquoted (if value then "true" else "false")
  | .int value => "integer " ++ backquoted (toString value)
  | .wide value =>
    "integer " ++ backquoted (toString value) ++ (if value < 0 then " as i128" else " as u128")
  | .float value => "floating point " ++ backquoted (pointedNumber value)
  | .text s => "string " ++ Text.quoted s
  | .null => "unit value"
  | .sequence => "sequence"
  | .mapping => "map"
  | .tagged => "enum"

/-- Why data is not of the type that is read. -/
inductive Cause where
  | invalidType (found : Found) (expected : String)
  | invalidValue (found : Found) (expected : String)
  | missingField (name : String)
  | duplicateField (name : String)
  | duplicateKey (key : Value)
  | unknownVariant (name : String) (known : List String)
  | noVariant (type : String)
  | taggedVariant
  | emptyTag
  /-- A rule of the type, in its own words. -/
  | refused (message : String)

def duplicateKeyText : Value → String
  | .null => "with null key"
  | .bool value => "with key " ++ backquoted (if value then "true" else "false")
  | .int value => "with key " ++ toString value
  | .float value => "with key " ++ value.write .yaml
  | .string text => "with key " ++ Text.quoted text
  | _ => "in YAML map"

def alternatives (names : List String) : String :=
  match names.map backquoted with
  | [] => "there are no variants"
  | [one] => "expected " ++ one
  | [one, two] => "expected " ++ one ++ " or " ++ two
  | many => "expected one of " ++ ", ".intercalate many

def Cause.message : Cause → String
  | invalidType found expected => "invalid type: " ++ found.description ++ ", expected " ++ expected
  | invalidValue found expected =>
    "invalid value: " ++ found.description ++ ", expected " ++ expected
  | missingField name => "missing field " ++ backquoted name
  | duplicateField name => "duplicate field " ++ backquoted name
  | duplicateKey key => "duplicate entry " ++ duplicateKeyText key
  | unknownVariant name known => "unknown variant " ++ backquoted name ++ ", " ++ alternatives known
  | noVariant type => "data did not match any variant of untagged enum " ++ type
  | taggedVariant => "untagged and internally tagged enums do not support enum input"
  | emptyTag => "empty YAML tag is not allowed"
  | refused message => message

inductive ReadError where
  /-- The text is not YAML. -/
  | fault (fault : Fault)
  /-- The data is not of the type; the place is that of the innermost part read. -/
  | mismatch (cause : Cause) (place : Option (Path × Mark))
  | tooDeep (mark : Mark)
  /-- More aliases were to be followed than the document admits. -/
  | tooManyAliases
  | noDocument
  | moreDocuments

namespace ReadError

def message : ReadError → String
  | .fault f => f.message
  | .mismatch cause none => cause.message
  | .mismatch cause (some (path, mark)) =>
    (if path.isRoot then "" else path.text ++ ": ") ++ cause.message ++ mark.suffix
  | .tooDeep mark => "recursion limit exceeded" ++ mark.suffix
  | .tooManyAliases => "repetition limit exceeded"
  | .noDocument => "EOF while parsing a value"
  | .moreDocuments => "deserializing from YAML containing more than one document is not supported"

def mark? : ReadError → Option Mark
  | .fault f => some f.mark
  | .mismatch _ place => place.map Prod.snd
  | .tooDeep mark => some mark
  | .tooManyAliases | .noDocument | .moreDocuments => none

/-- Line and column, counted from one. -/
def location? (error : ReadError) : Option (Nat × Nat) :=
  error.mark?.map fun mark => (mark.line + 1, mark.column + 1)

end ReadError

/-! ## Sources -/

/-- A piece of data. -/
inductive Source where
  | written (node : Node)
  | held (value : Value)

/-- Where a reader stands: the path to it and the number of collections it may still enter. -/
structure Place where
  path : Path := .root
  depth : Nat := depthLimit

/-- What comes of reading; the state is the number of aliases that may still be followed. -/
abbrev Result (α : Type) := StateT Nat (Except ReadError) α

abbrev Reader (α : Type) := Place → Source → Result α

def refuse {α : Type} (cause : Cause) : Result α :=
  throw (.mismatch cause none)

/-- Account for an alias that is followed. -/
def follow : Result Unit
  | 0 => .error .tooManyAliases
  | left + 1 => .ok ((), left)

/-- Give an error its place, unless it has one. -/
def located {α : Type} (place : Place) (mark : Mark) (result : Result α) : Result α := fun left =>
  (result left).mapError fun error =>
    match error with
    | .mismatch cause none => .mismatch cause (some (place.path, mark))
    | error => error

/-- Enter a collection. -/
def entering {α : Type} (place : Place) (mark : Mark) (read : Place → Result α) : Result α :=
  match place.depth with
  | 0 => throw (.tooDeep mark)
  | depth + 1 => read { place with depth }

namespace Place

def item (place : Place) (index : Nat) : Place :=
  { place with path := .item place.path index }

/-- The place of an entry's value. -/
def entry (place : Place) (key : Source) : Place :=
  match key with
  | .written (.scalar _ _ _ text) | .written (.tagged _ _ (.scalar _ _ _ text)) =>
    { place with path := .field place.path text }
  | _ => { place with path := .unnamed place.path }

end Place

/-! ## Written scalars -/

/-- What a written scalar is. -/
def resolveWritten (tag : Option ScalarTag) (style : Style) (text : String) : Result Resolved :=
  let orInvalid (resolved : Option Resolved) (expected : String) : Result Resolved :=
    match resolved with
    | some resolved => return resolved
    | none => refuse (.invalidValue (.text text) expected)
  match tag with
  | none => return if style = .plain then resolve text else .text
  | some .bool => orInvalid ((boolWord? text).map .bool) "a boolean"
  | some .int =>
    orInvalid ((integerWord? text.toList).map fun word =>
      match word with
      | .int value => .int value
      | .wide value => .wide value) "an integer"
  | some .float => orInvalid ((floatWord? text.toList).map .float) "a float"
  | some .null => orInvalid (if isNullWord text then some .null else none) "null"
  | some .text => return .text

def Resolved.found (text : String) : Resolved → Found
  | .null => .null
  | .bool value => .bool value
  | .int value => .int value
  | .wide value => .wide value
  | .float value => .float value
  | .text => .text text

def Value.found : Value → Found
  | .null => .null
  | .bool value => .bool value
  | .int value => .int value
  | .float value => .float value
  | .string text => .text text
  | .sequence _ => .sequence
  | .mapping _ => .mapping
  | .tagged _ _ => .tagged

namespace Node

/-- The node behind aliases. -/
def target : Node → Result Node
  | reference target => do
    follow
    target.target
  | broken fault => throw (.fault fault)
  | node => return node

/-- The node behind aliases and local tags. -/
def content : Node → Result Node
  | reference target => do
    follow
    target.content
  | tagged _ _ inner => inner.content
  | broken fault => throw (.fault fault)
  | node => return node

/-- Whether nothing is written there. -/
def isEmpty : Node → Bool
  | scalar _ _ style text => style == .plain && text == ""
  | void _ => true
  | _ => false

/-- The error for a node that is not what was expected. -/
def unexpected {α : Type} (place : Place) (expected : String) : Node → Result α
  | scalar mark tag style text =>
    located place mark do
      refuse (.invalidType ((← resolveWritten tag style text).found text) expected)
  | sequence mark _ => located place mark (refuse (.invalidType .sequence expected))
  | mapping mark _ => located place mark (refuse (.invalidType .mapping expected))
  | _ => throw .noDocument

mutual

/-- The first fault in a part that is skipped.  Aliases are not followed. -/
def fault? : Node → Option Fault
  | broken fault => some fault
  | tagged _ _ content => content.fault?
  | sequence _ items => faultOfItems? items
  | mapping _ entries => faultOfEntries? entries
  | _ => none

def faultOfItems? : List Node → Option Fault
  | [] => none
  | item :: items => item.fault?.or (faultOfItems? items)

def faultOfEntries? : List (Node × Node) → Option Fault
  | [] => none
  | (key, value) :: entries => (key.fault?.or value.fault?).or (faultOfEntries? entries)

end

/-! ## Values -/

/-- How generic data is read. -/
inductive Purpose where
  /-- As a value of its own: tags are kept and no key may occur twice. -/
  | value
  /-- To be matched against alternatives later: there may be no tag, and every entry is kept. -/
  | matching
  deriving DecidableEq

def Purpose.expected : Purpose → String
  | .value => "any YAML value"
  | .matching => "any value"

mutual

def toValue (purpose : Purpose) (place : Place) : Node → Result Value
  | scalar mark tag style text =>
    located place mark do
      match ← resolveWritten tag style text with
      | .null => return .null
      | .bool value => return .bool value
      | .int value => return .int value
      | .wide value => refuse (.invalidType (.wide value) purpose.expected)
      | .float value => return .float value
      | .text => return .string text
  | sequence mark items =>
    located place mark <| entering place mark fun place =>
      return .sequence (← itemsToValues purpose place 0 items)
  | mapping mark entries =>
    located place mark <| entering place mark fun place =>
      return .mapping (← entriesToValues purpose place [] entries)
  | tagged mark tag content =>
    located place mark <|
      match purpose with
      | .matching => refuse .taggedVariant
      | .value =>
        if tag = "" then refuse .emptyTag
        else return .tagged tag (← toValue purpose place content)
  | reference target => do
    follow
    toValue purpose place target
  | void _ => return .null
  | broken fault => throw (.fault fault)

def itemsToValues (purpose : Purpose) (place : Place) (index : Nat) :
    List Node → Result (List Value)
  | [] => return []
  | item :: items => do
    let value ← toValue purpose (place.item index) item
    return value :: (← itemsToValues purpose place (index + 1) items)

/-- The entries of a mapping; `seen` are the ones before. -/
def entriesToValues (purpose : Purpose) (place : Place) (seen : List (Value × Value)) :
    List (Node × Node) → Result (List (Value × Value))
  | [] => return []
  | (key, value) :: entries => do
    let k ← toValue purpose place key
    if purpose = .value && Value.hasKey k seen then refuse (.duplicateKey k)
    let v ← toValue purpose (place.entry (.written key)) value
    return (k, v) :: (← entriesToValues purpose place (seen ++ [(k, v)]) entries)

end

end Node

namespace Value

mutual

def hasTag : Value → Bool
  | .tagged _ _ => true
  | .sequence items => itemsHaveTag items
  | .mapping entries => entriesHaveTag entries
  | _ => false

def itemsHaveTag : List Value → Bool
  | [] => false
  | item :: items => hasTag item || itemsHaveTag items

def entriesHaveTag : List (Value × Value) → Bool
  | [] => false
  | (key, value) :: entries => hasTag key || hasTag value || entriesHaveTag entries

end

end Value

/-! ## Readers -/

namespace Reader

variable {α β δ : Type}

/-- Any data. -/
def value : Reader Value := fun place source =>
  match source with
  | .written node => node.toValue .value place
  | .held value => return value

/-- Data to be matched against alternatives. -/
def matchable : Reader Value := fun place source =>
  match source with
  | .written node => node.toValue .matching place
  | .held value => if value.hasTag then refuse .taggedVariant else return value

/-- A text, named `expected` in errors. -/
def textAs (expected : String) : Reader String := fun place source =>
  match source with
  | .written node => do
    match ← node.content with
    | .scalar _ _ _ text => return text
    | node => node.unexpected place expected
  | .held value =>
    match value.untagged with
    | .string text => return text
    | value => refuse (.invalidType value.found expected)

def text : Reader String :=
  textAs "a string"

/-- Whether a scalar is read for what it says: it has no quotes, or this tag on a literal block. -/
def isBare (wanted : ScalarTag) (tag : Option ScalarTag) (style : Style) : Bool :=
  style == .plain || (style == .literal && tag == some wanted)

def bool : Reader Bool := fun place source =>
  match source with
  | .written node => do
    let node ← node.content
    match node with
    | .scalar _ tag style text =>
      match if isBare .bool tag style then boolWord? text else none with
      | some value => return value
      | none => node.unexpected place "a boolean"
    | node => node.unexpected place "a boolean"
  | .held value =>
    match value.untagged with
    | .bool value => return value
    | value => refuse (.invalidType value.found "a boolean")

def checkRange (value : Int) : Result UInt32 :=
  if 0 ≤ value ∧ value.toNat < Nat.pow 2 32 then return .ofNat value.toNat
  else refuse (.invalidValue (.int value) "u32")

/-- An integer that is not negative and fits 32 bits. -/
def word32 : Reader UInt32 := fun place source =>
  match source with
  | .written node => do
    let node ← node.content
    match node with
    | .scalar mark tag style text =>
      match if isBare .int tag style then unsigned? (Nat.pow 2 64) text.toList else none with
      | some value => located place mark (checkRange value)
      | none => node.unexpected place "u32"
    | node => node.unexpected place "u32"
  | .held value =>
    match value.untagged with
    | .int value => checkRange value
    | value => refuse (.invalidType value.found "u32")

/-- The node behind aliases, if it is something rather than null. -/
def presentNode? (place : Place) (node : Node) : Result (Option Node) := do
  match ← node.target with
  | .scalar mark (some .null) .plain text =>
    if isNullWord text then return none
    else located place mark (refuse (.invalidValue (.text text) "null"))
  | .scalar mark none .plain text =>
    return if text = "" || isNullWord text then none else some (.scalar mark none .plain text)
  | .void _ => return none
  | node => return some node

/-- Null, or something for the reader. -/
def optional (read : Reader α) : Reader (Option α) := fun place source =>
  match source with
  | .written node => do
    match ← presentNode? place node with
    | some node => return some (← read place (.written node))
    | none => return none
  | .held .null => return none
  | .held _ => return some (← read place source)

def readItems (read : Reader α) (place : Place) (index : Nat) : List Source → Result (List α)
  | [] => return []
  | item :: items => do
    let value ← read (place.item index) item
    return value :: (← readItems read place (index + 1) items)

/-- The items of a sequence; nothing written is an empty one. -/
def list (read : Reader α) : Reader (List α) := fun place source =>
  match source with
  | .written node => do
    let node ← node.content
    match node with
    | .sequence mark items =>
      located place mark <| entering place mark fun place =>
        readItems read place 0 (items.map .written)
    | node => if node.isEmpty then return [] else node.unexpected place "a sequence"
  | .held value =>
    match value.untagged with
    | .sequence items => readItems read place 0 (items.map .held)
    | .null => return []
    | value => refuse (.invalidType value.found "a sequence")

/-! ### Mappings -/

/-- The value of an entry, and where it stands. -/
structure Entry where
  place : Place
  source : Source

def Entry.read (entry : Entry) (read : Reader α) : Result α :=
  read entry.place entry.source

/-- Skip a value.  A fault of the text in it still counts. -/
def Entry.skip (entry : Entry) : Result Unit :=
  match entry.source with
  | .written node =>
    match node.fault? with
    | some fault => throw (.fault fault)
    | none => return ()
  | .held _ => return ()

def foldEntries (key : Reader String) (step : δ → String → Entry → Result δ) (place : Place) :
    δ → List (Source × Source) → Result δ
  | state, [] => return state
  | state, (name, value) :: entries => do
    let text ← key place name
    let state ← step state text ⟨place.entry name, value⟩
    foldEntries key step place state entries

/-- Go through the entries of a mapping in order and finish; nothing written is an empty one. -/
def mapping (expected : String) (key : Reader String) (start : δ)
    (step : δ → String → Entry → Result δ) (finish : δ → Result α) : Reader α :=
  fun place source =>
    match source with
    | .written node => do
      let node ← node.content
      match node with
      | .mapping mark entries =>
        located place mark do
          let sources := entries.map fun entry => (Source.written entry.1, Source.written entry.2)
          finish (← entering place mark fun place => foldEntries key step place start sources)
      | .scalar mark .. =>
        if node.isEmpty then located place mark (finish start) else node.unexpected place expected
      | .void mark => located place mark (finish start)
      | node => node.unexpected place expected
    | .held value =>
      match value.untagged with
      | .mapping entries => do
        let sources := entries.map fun entry => (Source.held entry.1, Source.held entry.2)
        finish (← foldEntries key step place start sources)
      | .null => finish start
      | value => refuse (.invalidType value.found expected)

/-- A mapping from texts. -/
def table (read : Reader α) : Reader (Table α) :=
  mapping "a map" text ([] : Table α)
    (fun entries key entry => return Table.insert key (← entry.read read) entries)
    fun entries => return entries

/-- A record: known names in any order, each at most once, others being skipped. -/
def record (expected : String) (start : δ) (step : δ → String → Entry → Result (Option δ))
    (finish : δ → Result α) : Reader α :=
  mapping expected (textAs "field identifier") start
    (fun draft name entry => do
      match ← step draft name entry with
      | some draft => return draft
      | none =>
        entry.skip
        return draft)
    finish

/-- Read a field that has not been read before. -/
def once (seen : Option α) (name : String) (entry : Entry) (read : Reader α) : Result (Option α) :=
  if seen.isSome then refuse (.duplicateField name) else some <$> entry.read read

/-- A field without which a record is not complete. -/
def required (seen : Option α) (name : String) : Result α :=
  match seen with
  | some value => return value
  | none => refuse (.missingField name)

/-! ### Alternatives -/

/-- Nothing, behind a tag that says all. -/
def nothing : Reader Unit := fun place source =>
  match source with
  | .written node => do
    match ← presentNode? place node with
    | some node => node.unexpected place "unit"
    | none => return ()
  | .held .null => return ()
  | .held value => refuse (.invalidType value.found "unit")

/-- One of a few words, written as a scalar or as a local tag. -/
def word (words : List (String × α)) : Reader α := fun place source =>
  let choose (name : String) : Result α :=
    match words.lookup name with
    | some value => return value
    | none => refuse (.unknownVariant name (words.map Prod.fst))
  match source with
  | .written node => do
    match ← node.target with
    | .tagged _ tag inner =>
      let value ← choose tag
      nothing place (.written inner)
      return value
    | .scalar mark _ _ text => located place mark (choose text)
    | node => node.unexpected place "a YAML tag starting with '!'"
  | .held (.tagged tag inner) => do
    let value ← choose tag
    nothing place (.held inner)
    return value
  | .held (.string text) => choose text
  | .held value => refuse (.invalidType value.found "a Value::Tagged enum")

/-- Null, a sequence or a mapping. -/
def nullOr (expected : String) (none : α) (items entries : Reader α) : Reader α :=
  fun place source =>
    match source with
    | .written node => do
      let node ← node.target
      match node with
      | .tagged mark _ _ => located place mark (refuse (.invalidType .tagged expected))
      | .sequence .. => items place (.written node)
      | .mapping .. => entries place (.written node)
      | .scalar mark tag style text =>
        match ← located place mark (resolveWritten tag style text) with
        | .null => return none
        | _ => node.unexpected place expected
      | _ => return none
    | .held .null => return none
    | .held (.sequence values) => items place (.held (.sequence values))
    | .held (.mapping values) => entries place (.held (.mapping values))
    | .held value => refuse (.invalidType value.found expected)

/-- One of several forms, told apart by their shape. -/
def form (type : String) (choose : Value → Option α) : Reader α := fun place source => do
  match choose (← matchable place source) with
  | some value => return value
  | none => refuse (.noVariant type)

end Reader

/-! ## Whole texts -/

/-- Read the only document of a text. -/
def readText {α : Type} (read : Reader α) (text : String) : Except ReadError α := do
  let document := compose text
  let (value, _) ← (read {} (.written document.root)).run document.followLimit
  match document.fault with
  | some fault => throw (.fault fault)
  | none => if document.hasMore then throw .moreDocuments else return value

/-- Read a held value, in which there are no aliases. -/
def readHeld {α : Type} (read : Reader α) (value : Value) : Except ReadError α :=
  (read {} (.held value)).run' 0

def readValue (text : String) : Except ReadError Value :=
  readText .value text

end BuildPipeline.Yaml
