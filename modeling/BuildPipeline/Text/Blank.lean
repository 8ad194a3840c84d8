import BuildPipeline.Text.Runs

/-!
# Blank characters

The characters with the Unicode property `White_Space`, and cutting them off the ends of a text.
`Char.isWhitespace` knows only four of them.
-/

namespace BuildPipeline.Text

def blankRuns : List Nat := [
  9, 14, 32, 33, 133, 134, 160, 161, 5760, 5761, 8192, 8203, 8232, 8234, 8239, 8240, 8287, 8288,
  12288, 12289]

def isBlank (c : Char) : Bool :=
  inRuns blankRuns c.toNat

def trimStartChars (text : List Char) : List Char :=
  text.dropWhile isBlank

def trimEndChars (text : List Char) : List Char :=
  (text.reverse.dropWhile isBlank).reverse

def trimChars (text : List Char) : List Char :=
  trimEndChars (trimStartChars text)

def trim (text : String) : String :=
  String.ofList (trimChars text.toList)

def trimEnd (text : String) : String :=
  String.ofList (trimEndChars text.toList)

end BuildPipeline.Text
