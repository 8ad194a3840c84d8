/-!
# Places and faults in YAML text

A mark is a place in a text.  A fault says why the text is not YAML, where that showed, and what was
being read there; both places are named from line 1 and column 1, and a place that is the start of
the text, or the same one again, is left out.
-/

namespace BuildPipeline.Yaml

/-- A place in a text, counted in characters from zero. -/
structure Mark where
  index : Nat := 0
  line : Nat := 0
  column : Nat := 0
  deriving DecidableEq, Repr, Inhabited

namespace Mark

def start : Mark := {}

/-- The place some characters further on the same line. -/
def forward (mark : Mark) (count : Nat) : Mark :=
  { mark with index := mark.index + count, column := mark.column + count }

/-- The place after a line ending of some characters. -/
def nextLine (mark : Mark) (count : Nat) : Mark :=
  { index := mark.index + count, line := mark.line + 1, column := 0 }

def isStart (mark : Mark) : Bool :=
  mark.line == 0 && mark.column == 0

def text (mark : Mark) : String :=
  "line " ++ toString (mark.line + 1) ++ " column " ++ toString (mark.column + 1)

/-- The place as it follows a message. -/
def suffix (mark : Mark) : String :=
  if mark.isStart then "" else " at " ++ mark.text

end Mark

/-- What is wrong with a text. -/
inductive Problem where
  | controlCharacter (offset : Nat)
  | unknownToken
  | missingColon
  | misplacedEntry
  | misplacedKey
  | misplacedValue
  | unknownDirective
  | noDirectiveName
  | badDirectiveName
  | trailingText
  | noVersion
  | longVersion
  | noVersionPoint
  | noBlank
  | noBlankOrBreak
  | noTagMark
  | noTagEnd
  | noUri
  | noOctet
  | badLeadingOctet
  | badTrailingOctet
  | noAnchorName
  | zeroIndentation
  | tabAsIndentation
  | tabBelowIndentation
  | documentMark
  | endOfStream
  | unknownEscape
  | noHexadecimal
  | badCodePoint
  | unexpectedColon
  | noDocumentStart
  | noContent
  | noDash
  | noKey
  | noCommaOrBracket
  | noCommaOrBrace
  | undefinedHandle
  | repeatedVersion
  | wrongVersion
  | repeatedHandle
  | unknownAnchor
  deriving DecidableEq, Repr

def Problem.message : Problem → String
  | controlCharacter _ => "control characters are not allowed"
  | unknownToken => "found character that cannot start any token"
  | missingColon => "could not find expected ':'"
  | misplacedEntry => "block sequence entries are not allowed in this context"
  | misplacedKey => "mapping keys are not allowed in this context"
  | misplacedValue => "mapping values are not allowed in this context"
  | unknownDirective => "found unknown directive name"
  | noDirectiveName => "could not find expected directive name"
  | badDirectiveName => "found unexpected non-alphabetical character"
  | trailingText => "did not find expected comment or line break"
  | noVersion => "did not find expected version number"
  | longVersion => "found extremely long version number"
  | noVersionPoint => "did not find expected digit or '.' character"
  | noBlank => "did not find expected whitespace"
  | noBlankOrBreak => "did not find expected whitespace or line break"
  | noTagMark => "did not find expected '!'"
  | noTagEnd => "did not find the expected '>'"
  | noUri => "did not find expected tag URI"
  | noOctet => "did not find URI escaped octet"
  | badLeadingOctet => "found an incorrect leading UTF-8 octet"
  | badTrailingOctet => "found an incorrect trailing UTF-8 octet"
  | noAnchorName => "did not find expected alphabetic or numeric character"
  | zeroIndentation => "found an indentation indicator equal to 0"
  | tabAsIndentation => "found a tab character where an indentation space is expected"
  | tabBelowIndentation => "found a tab character that violates indentation"
  | documentMark => "found unexpected document indicator"
  | endOfStream => "found unexpected end of stream"
  | unknownEscape => "found unknown escape character"
  | noHexadecimal => "did not find expected hexdecimal number"
  | badCodePoint => "found invalid Unicode character escape code"
  | unexpectedColon => "found unexpected ':'"
  | noDocumentStart => "did not find expected <document start>"
  | noContent => "did not find expected node content"
  | noDash => "did not find expected '-' indicator"
  | noKey => "did not find expected key"
  | noCommaOrBracket => "did not find expected ',' or ']'"
  | noCommaOrBrace => "did not find expected ',' or '\x7d'"
  | undefinedHandle => "found undefined tag handle"
  | repeatedVersion => "found duplicate %YAML directive"
  | wrongVersion => "found incompatible YAML document"
  | repeatedHandle => "found duplicate %TAG directive"
  | unknownAnchor => "unknown anchor"

/-- What was being read when a problem showed. -/
inductive Activity where
  | scanningToken
  | scanningSimpleKey
  | scanningDirective
  | scanningVersion
  | scanningHandle
  | readingHandle
  | readingHandleUri
  | scanningAnchor
  | scanningAlias
  | scanningTag
  | readingTag
  | scanningBlockScalar
  | scanningQuoted
  | readingQuoted
  | scanningPlain
  | readingNode
  | readingBlockNode
  | readingFlowNode
  | readingBlockCollection
  | readingBlockMapping
  | readingFlowSequence
  | readingFlowMapping
  deriving DecidableEq, Repr

def Activity.text : Activity → String
  | scanningToken => "while scanning for the next token"
  | scanningSimpleKey => "while scanning a simple key"
  | scanningDirective => "while scanning a directive"
  | scanningVersion => "while scanning a %YAML directive"
  | scanningHandle => "while scanning a %TAG directive"
  | readingHandle => "while parsing a tag directive"
  | readingHandleUri => "while parsing a %TAG directive"
  | scanningAnchor => "while scanning an anchor"
  | scanningAlias => "while scanning an alias"
  | scanningTag => "while scanning a tag"
  | readingTag => "while parsing a tag"
  | scanningBlockScalar => "while scanning a block scalar"
  | scanningQuoted => "while scanning a quoted scalar"
  | readingQuoted => "while parsing a quoted scalar"
  | scanningPlain => "while scanning a plain scalar"
  | readingNode => "while parsing a node"
  | readingBlockNode => "while parsing a block node"
  | readingFlowNode => "while parsing a flow node"
  | readingBlockCollection => "while parsing a block collection"
  | readingBlockMapping => "while parsing a block mapping"
  | readingFlowSequence => "while parsing a flow sequence"
  | readingFlowMapping => "while parsing a flow mapping"

structure Fault where
  problem : Problem
  mark : Mark
  /-- What was being read, and where that began. -/
  activity : Option (Activity × Mark) := none
  deriving DecidableEq, Repr

namespace Fault

/-- Where the problem showed: a place, or a byte of a text that was not looked at further. -/
def placeText (fault : Fault) : String :=
  match fault.problem with
  | .controlCharacter offset => if offset = 0 then "" else " at position " ++ toString offset
  | _ => fault.mark.suffix

def activityText (fault : Fault) : String :=
  match fault.activity with
  | none => ""
  | some (activity, start) =>
    let same := start.line == fault.mark.line && start.column == fault.mark.column
    ", " ++ activity.text ++ (if same then "" else start.suffix)

def message (fault : Fault) : String :=
  fault.problem.message ++ fault.placeText ++ fault.activityText

end Fault

end BuildPipeline.Yaml
