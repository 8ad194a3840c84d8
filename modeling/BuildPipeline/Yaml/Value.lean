import BuildPipeline.Number.Decimal

/-!
# YAML values

The data of a document without places: nulls, truth values, integers, binary64 numbers, texts,
sequences, mappings in the order of their entries, and values with a local tag.

Two values are the same if they have the same kind and content.  The order of the entries of a
mapping does not count, an integer is no binary64 number, the two zeros are the same and so is every
NaN.
-/

namespace BuildPipeline.Yaml

inductive Value where
  | null
  | bool (value : Bool)
  | int (value : Int)
  | float (value : Binary64)
  | string (text : String)
  | sequence (items : List Value)
  | mapping (entries : List (Value × Value))
  /-- The tag is given without its exclamation mark. -/
  | tagged (tag : String) (content : Value)
  deriving Inhabited

/-- The entries of a mapping. -/
abbrev Entries := List (Value × Value)

namespace Value

def sameNumber (x y : Binary64) : Bool :=
  x.equals y || (x.isNaN && y.isNaN)

mutual

def same : Value → Value → Bool
  | .null, .null => true
  | .bool a, .bool b => a == b
  | .int a, .int b => a == b
  | .float a, .float b => sameNumber a b
  | .string a, .string b => a == b
  | .sequence a, .sequence b => sameItems a b
  | .mapping a, .mapping b => a.length == b.length && sameEntries a b
  | .tagged s a, .tagged t b => s == t && same a b
  | _, _ => false
termination_by structural x => x

def sameItems : List Value → List Value → Bool
  | [], [] => true
  | a :: as, b :: bs => same a b && sameItems as bs
  | _, _ => false
termination_by structural x => x

/-- Whether every entry is also one of the others. -/
def sameEntries : List (Value × Value) → List (Value × Value) → Bool
  | [], _ => true
  | (key, value) :: entries, others =>
    (others.find? fun other => same key other.1).any (fun other => same value other.2) &&
      sameEntries entries others
termination_by structural x => x

end

/-! ## Views through tags -/

def untagged : Value → Value
  | .tagged _ content => content.untagged
  | value => value

def entries? (value : Value) : Option (Entries) :=
  match value.untagged with
  | .mapping entries => some entries
  | _ => none

def text? (value : Value) : Option String :=
  match value.untagged with
  | .string text => some text
  | _ => none

/-- The text of a scalar: nothing for null, and no text for collections and tagged values. -/
def scalarText? : Value → Option String
  | .null => some ""
  | .bool value => some (if value then "true" else "false")
  | .int value => some (toString value)
  | .float value => some (value.write .yaml)
  | .string text => some text
  | _ => none

/-! ## Entries -/

/-- Whether a key is this text, without a tag. -/
def isKey (key : String) : Value → Bool
  | .string text => text == key
  | _ => false

def lookUp? (key : String) (entries : Entries) : Option Value :=
  (entries.find? fun entry => entry.1.isKey key).map Prod.snd

/-- The value of a mapping's entry with this text as its key. -/
def get? (value : Value) (key : String) : Option Value :=
  value.entries?.bind (lookUp? key)

def hasKey (key : Value) (entries : Entries) : Bool :=
  entries.any fun entry => key.same entry.1

/-- Set an entry at its place, or behind all others. -/
def insert (key value : Value) : Entries → Entries
  | [] => [(key, value)]
  | (k, v) :: entries =>
    if key.same k then (k, value) :: entries else (k, v) :: insert key value entries

/-- Take an entry out; the last one moves to its place. -/
def takeOut (key : String) (entries : Entries) : Entries :=
  match entries.findIdx? fun entry => entry.1.isKey key with
  | none => entries
  | some place =>
    match entries.getLast? with
    | none => entries
    | some last => (entries.set place last).dropLast

mutual

/-- Whether no mapping in it has a key twice. -/
def hasDistinctKeys : Value → Bool
  | .sequence items => itemsHaveDistinctKeys items
  | .mapping entries => entriesHaveDistinctKeys entries
  | .tagged _ content => content.hasDistinctKeys
  | _ => true

def itemsHaveDistinctKeys : List Value → Bool
  | [] => true
  | item :: items => item.hasDistinctKeys && itemsHaveDistinctKeys items

def entriesHaveDistinctKeys : List (Value × Value) → Bool
  | [] => true
  | (key, value) :: entries =>
    key.hasDistinctKeys && value.hasDistinctKeys && !hasKey key entries &&
      entriesHaveDistinctKeys entries

end

end Value

end BuildPipeline.Yaml
