import BuildPipeline.Yaml.Style
import BuildPipeline.Yaml.Value

/-!
# YAML texts

A value as a text in block style.  A list below a key stands at the column of the key, everything
else two columns deeper; what has no entries is written in brackets.  A key of more than one line or
more than 128 bytes stands behind a question mark.
-/

namespace BuildPipeline.Yaml

/-- Where a value stands. -/
structure BlockPlace where
  /-- The column of the block around it. -/
  indentation : Nat
  /-- Whether that block is a list. -/
  isItem : Bool := false
  /-- Whether a block can begin on the same line. -/
  isOnLine : Bool := false

namespace BlockPlace

/-- The column of a list. -/
def listColumn (place : BlockPlace) : Nat :=
  if place.isItem || place.isOnLine then place.indentation + 2 else place.indentation

def mappingColumn (place : BlockPlace) : Nat :=
  place.indentation + 2

/-- What leads to a block at a column. -/
def lead (place : BlockPlace) (column : Nat) : String :=
  if place.isOnLine then " " else "\n" ++ String.ofList (spaces column)

end BlockPlace

/-- A text with a line ending at its end. -/
def endLine (text : String) : String :=
  if text.endsWith "\n" then text else text ++ "\n"

/-- Lines that each begin at a column; the first one is there already. -/
def atColumn (column : Nat) (lines : List String) : String :=
  (String.ofList (spaces column)).intercalate lines

/-- The longest key before a colon, in bytes. -/
def longestKey : Nat := 128

/-- The text of a tag. -/
def tagText (tag : String) : String :=
  "!" ++ tag

/-- The text of a value on one line, if it is no block. -/
def inlineText? (isKey : Bool) (indentation : Nat) : Value → Option String
  | .null => some "null"
  | .bool value => some (if value then "true" else "false")
  | .int value => some (toString value)
  | .float value => some (value.write .yaml)
  | .string text => some (scalarText isKey indentation text)
  | .sequence [] => some "[]"
  | .mapping [] => some "\x7b\x7d"
  | .tagged tag content =>
    (inlineText? isKey indentation content).map fun text => tagText tag ++ " " ++ text
  | .sequence _ | .mapping _ => none

/-- The text of a key that can stand before a colon. -/
def simpleKey? (key : Value) : Option String :=
  let isMultiline := match key.untagged with
    | .string text => text.toList.any isBreak
    | _ => false
  if isMultiline then none
  else (inlineText? true 0 key).filter fun text => text.utf8ByteSize ≤ longestKey

mutual

/-- The text of a value behind what leads to it, up to the end of its last line. -/
def nodeText (place : BlockPlace) : Value → String
  | .sequence (item :: items) =>
    place.lead place.listColumn ++ atColumn place.listColumn
      (itemTexts place.listColumn (item :: items))
  | .mapping (entry :: entries) =>
    place.lead place.mappingColumn ++ atColumn place.mappingColumn
      (entryTexts place.mappingColumn (entry :: entries))
  | .tagged tag content =>
    " " ++ tagText tag ++ nodeText { place with isOnLine := false } content
  | .sequence [] => " []\n"
  | .mapping [] => " \x7b\x7d\n"
  | value => " " ++ endLine ((inlineText? false (place.indentation + 2) value).getD "")

def itemTexts (column : Nat) : List Value → List String
  | [] => []
  | item :: items =>
    ("-" ++ nodeText { indentation := column, isItem := true, isOnLine := true } item) ::
      itemTexts column items

def entryTexts (column : Nat) : List (Value × Value) → List String
  | [] => []
  | (key, value) :: entries =>
    let text :=
      match simpleKey? key with
      | some key => key ++ ":" ++ nodeText { indentation := column } value
      | none =>
        "?" ++ nodeText { indentation := column, isOnLine := true } key ++
          String.ofList (spaces column) ++ ":" ++
          nodeText { indentation := column, isOnLine := true } value
    text :: entryTexts column entries

end

/-- The text of a document. -/
def Value.text : Value → String
  | .sequence (item :: items) => String.join (itemTexts 0 (item :: items))
  | .mapping (entry :: entries) => String.join (entryTexts 0 (entry :: entries))
  | .tagged tag (.sequence (item :: items)) =>
    tagText tag ++ "\n" ++ String.join (itemTexts 0 (item :: items))
  | .tagged tag (.mapping (entry :: entries)) =>
    tagText tag ++ "\n" ++ String.join (entryTexts 0 (entry :: entries))
  | value => endLine ((inlineText? false 2 value).getD "")

end BuildPipeline.Yaml
