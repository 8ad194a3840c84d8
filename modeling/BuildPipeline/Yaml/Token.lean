import BuildPipeline.Yaml.Lexeme

/-!
# Tokens of YAML text

A text becomes a list of tokens with the places where they start and stop.  Indentation shows as
tokens that open and close blocks.  Whether a scalar is a key is known only at the colon behind it:
the place where a key could begin is remembered as long as it may still turn out to be one, and the
token that marks the key is put in there.

A token is handed out once no key can begin before it any more; so a fault hides the tokens from the
first open possibility on.
-/

namespace BuildPipeline.Yaml

inductive TokenKind where
  | streamEnd
  | directive (directive : Directive)
  | documentStart
  | documentEnd
  | blockSequenceStart
  | blockMappingStart
  | blockEnd
  | flowSequenceStart
  | flowSequenceEnd
  | flowMappingStart
  | flowMappingEnd
  | blockEntry
  | flowEntry
  | key
  | value
  | reference (name : String)
  | anchor (name : String)
  | tag (handle suffix : String)
  | scalar (text : String) (style : Style)

structure Token where
  kind : TokenKind
  start : Mark
  stop : Mark

/-- A place where a key could begin. -/
structure PossibleKey where
  /-- Nothing but a key may stand there. -/
  required : Bool
  /-- The number of tokens before it. -/
  number : Nat
  mark : Mark

/-- What has been read, and how the text may go on. -/
structure Tokenizer where
  cursor : Cursor
  /-- The tokens so far, the last one first. -/
  produced : List Token := []
  count : Nat := 0
  /-- The column of the innermost block; -1 outside all blocks. -/
  indent : Int := -1
  outerIndents : List Int := []
  /-- Where a key could begin in the innermost collection. -/
  key : Option PossibleKey := none
  /-- The same for the flow collections around it and the block around those. -/
  outerKeys : List (Option PossibleKey) := []
  /-- Whether a key may begin at the cursor. -/
  keyAllowed : Bool := true

namespace Tokenizer

def inFlow (t : Tokenizer) : Bool :=
  !t.outerKeys.isEmpty

def push (t : Tokenizer) (token : Token) : Tokenizer :=
  { t with produced := token :: t.produced, count := t.count + 1 }

/-- Put a token in behind the first `number` ones. -/
def insertAt (t : Tokenizer) (number : Nat) (token : Token) : Tokenizer :=
  let later := t.count - number
  { t with
    produced := t.produced.take later ++ token :: t.produced.drop later
    count := t.count + 1 }

/-- Go over some characters, which are a token. -/
def pushOver (t : Tokenizer) (width : Nat) (kind : TokenKind) : Tokenizer :=
  let next := t.cursor.skip width
  { t.push ⟨kind, t.cursor.mark, next.mark⟩ with cursor := next }

/-! ## Keys -/

/-- Whether a key that begins at `key` cannot reach the place `mark`: it is confined to one line and
to 1024 characters. -/
def isOutOfReach (mark : Mark) (key : PossibleKey) : Bool :=
  key.mark.line < mark.line || key.mark.index + 1024 < mark.index

def missingColon (t : Tokenizer) (key : PossibleKey) : Fault :=
  t.cursor.fault .scanningSimpleKey key.mark .missingColon

/-- Give up a possible key, which is a fault if it was required. -/
def dropKey (t : Tokenizer) : Except Fault Tokenizer :=
  match t.key with
  | some key => if key.required then .error (t.missingColon key) else .ok { t with key := none }
  | none => .ok t

/-- The keys that are still within reach. -/
def keepReachable (t : Tokenizer) :
    List (Option PossibleKey) → Except Fault (List (Option PossibleKey))
  | [] => .ok []
  | key :: keys => do
    let kept ← match key with
      | some key =>
        if isOutOfReach t.cursor.mark key then
          if key.required then .error (t.missingColon key) else .ok none
        else .ok (some key)
      | none => .ok none
    return kept :: (← t.keepReachable keys)

/-- Give up every possible key that is out of reach, outer ones first. -/
def dropUnreachable (t : Tokenizer) : Except Fault Tokenizer := do
  let outer ← t.keepReachable t.outerKeys.reverse
  let inner ← t.keepReachable [t.key]
  return { t with outerKeys := outer.reverse, key := inner.head?.bind id }

/-- Remember that a key could begin at the cursor. -/
def allowKey (t : Tokenizer) : Except Fault Tokenizer :=
  if t.keyAllowed then do
    let required := !t.inFlow && t.indent == t.cursor.mark.column
    let key : PossibleKey := ⟨required, t.count, t.cursor.mark⟩
    return { ← t.dropKey with key := some key }
  else .ok t

/-! ## Blocks -/

/-- Open a block at a column, unless one is open there; `number` places its token. -/
def openBlock (t : Tokenizer) (column : Nat) (number : Option Nat) (kind : TokenKind)
    (mark : Mark) : Tokenizer :=
  if t.inFlow || (column : Int) ≤ t.indent then t
  else
    let t := { t with indent := column, outerIndents := t.indent :: t.outerIndents }
    let token : Token := ⟨kind, mark, mark⟩
    match number with
    | some number => t.insertAt number token
    | none => t.push token

/-- Close the blocks indented deeper than a column. -/
def closeBlocksFrom (column : Int) : List Int → Tokenizer → Tokenizer
  | [], t => t
  | outer :: outers, t =>
    if column < t.indent then
      let closed := t.push ⟨.blockEnd, t.cursor.mark, t.cursor.mark⟩
      closeBlocksFrom column outers { closed with indent := outer, outerIndents := outers }
    else t

def closeBlocks (t : Tokenizer) (column : Int) : Tokenizer :=
  if t.inFlow then t else closeBlocksFrom column t.outerIndents t

/-! ## Blanks between tokens -/

/-- Go over blanks, comments and line endings.  A tab counts as a blank only where no key can
begin. -/
def skipBlanks : Nat → Tokenizer → Tokenizer
  | 0, t => t
  | fuel + 1, t =>
    let cursor := t.cursor.skipWhile fun c => c == ' ' || (c == '\t' && (t.inFlow || !t.keyAllowed))
    let cursor := if cursor.rest.head? == some '#' then cursor.takeLine.2 else cursor
    match cursor.takeBreak? with
    | some (_, next) =>
      skipBlanks fuel { t with cursor := next, keyAllowed := t.keyAllowed || !t.inFlow }
    | none => { t with cursor }

/-! ## One token -/

def fetchStreamEnd (t : Tokenizer) : Except Fault Tokenizer := do
  let mark := t.cursor.mark
  let mark := if mark.column = 0 then mark else mark.nextLine 0
  let t := { t with cursor := ⟨[], mark⟩ }
  let t ← (t.closeBlocks (-1)).dropKey
  return ({ t with keyAllowed := false }).push ⟨.streamEnd, mark, mark⟩

def fetchDirective (t : Tokenizer) : Except Fault Tokenizer := do
  let t ← (t.closeBlocks (-1)).dropKey
  let (directive, stop, next) ← scanDirective t.cursor
  return { t.push ⟨.directive directive, t.cursor.mark, stop⟩ with
    cursor := next, keyAllowed := false }

def fetchDocumentMark (t : Tokenizer) (kind : TokenKind) : Except Fault Tokenizer := do
  let t ← (t.closeBlocks (-1)).dropKey
  return ({ t with keyAllowed := false }).pushOver 3 kind

def fetchFlowStart (t : Tokenizer) (kind : TokenKind) : Except Fault Tokenizer := do
  let t ← t.allowKey
  return ({ t with keyAllowed := true, key := none, outerKeys := t.key :: t.outerKeys }).pushOver 1
    kind

def fetchFlowEnd (t : Tokenizer) (kind : TokenKind) : Except Fault Tokenizer := do
  let t ← t.dropKey
  let t := match t.outerKeys with
    | key :: keys => { t with key, outerKeys := keys }
    | [] => t
  return ({ t with keyAllowed := false }).pushOver 1 kind

def fetchFlowEntry (t : Tokenizer) : Except Fault Tokenizer := do
  return ({ ← t.dropKey with keyAllowed := true }).pushOver 1 .flowEntry

/-- A fault for an indicator of a block that may not stand at the cursor. -/
def misplaced (t : Tokenizer) (problem : Problem) : Fault :=
  ⟨problem, t.cursor.mark, none⟩

/-- Open a block for an indicator at the cursor. -/
def openIndicated (t : Tokenizer) (problem : Problem) (kind : TokenKind) :
    Except Fault Tokenizer :=
  if t.inFlow then .ok t
  else if t.keyAllowed then .ok (t.openBlock t.cursor.mark.column none kind t.cursor.mark)
  else .error (t.misplaced problem)

def fetchBlockEntry (t : Tokenizer) : Except Fault Tokenizer := do
  let t ← (← t.openIndicated .misplacedEntry .blockSequenceStart).dropKey
  return ({ t with keyAllowed := true }).pushOver 1 .blockEntry

def fetchKey (t : Tokenizer) : Except Fault Tokenizer := do
  let t ← (← t.openIndicated .misplacedKey .blockMappingStart).dropKey
  return ({ t with keyAllowed := !t.inFlow }).pushOver 1 .key

def fetchValue (t : Tokenizer) : Except Fault Tokenizer := do
  match t.key with
  | some key =>
    let t := t.insertAt key.number ⟨.key, key.mark, key.mark⟩
    let t := t.openBlock key.mark.column (some key.number) .blockMappingStart key.mark
    return ({ t with key := none, keyAllowed := false }).pushOver 1 .value
  | none =>
    let t ← t.openIndicated .misplacedValue .blockMappingStart
    return ({ t with keyAllowed := !t.inFlow }).pushOver 1 .value

def fetchAnchor (t : Tokenizer) (activity : Activity) (kind : String → TokenKind) :
    Except Fault Tokenizer := do
  let t ← t.allowKey
  let (name, next) ← scanAnchorName activity t.cursor
  return { t.push ⟨kind (String.ofList name), t.cursor.mark, next.mark⟩ with
    cursor := next, keyAllowed := false }

def fetchTag (t : Tokenizer) : Except Fault Tokenizer := do
  let t ← t.allowKey
  let (handle, suffix, next) ← scanTag t.inFlow t.cursor
  let tag : TokenKind := .tag (String.ofList handle) (String.ofList suffix)
  return { t.push ⟨tag, t.cursor.mark, next.mark⟩ with
    cursor := next, keyAllowed := false }

def pushScalar (t : Tokenizer) (scalar : Scalar) (next : Cursor) : Tokenizer :=
  { t.push ⟨.scalar (String.ofList scalar.text) scalar.style, t.cursor.mark, scalar.stop⟩ with
    cursor := next }

def fetchBlockScalar (t : Tokenizer) (literal : Bool) : Except Fault Tokenizer := do
  let t ← t.dropKey
  let (scalar, next) ← scanBlockScalar literal t.indent t.cursor
  return { t.pushScalar scalar next with keyAllowed := true }

def fetchQuoted (t : Tokenizer) (quote : Char) : Except Fault Tokenizer := do
  let t ← t.allowKey
  let (scalar, next) ← scanQuoted quote t.cursor
  return { t.pushScalar scalar next with keyAllowed := false }

def fetchPlain (t : Tokenizer) : Except Fault Tokenizer := do
  let t ← t.allowKey
  let (scalar, next) ← scanPlain t.inFlow t.indent t.cursor
  return { t.pushScalar scalar next with keyAllowed := scalar.brokeLine }

/-- The characters that mean something at the start of a token. -/
def isIndicator (c : Char) : Bool :=
  "-?:,[]\x7b\x7d#&*!|>'\"%@`".toList.contains c

/-- Whether a plain scalar can begin with this text. -/
def startsPlain (inFlow : Bool) : List Char → Bool
  | '-' :: rest => !rest.head?.any isSpaceOrTab
  | c :: rest =>
    !isIndicator c || (!inFlow && (c == '?' || c == ':') && !startsBlank rest)
  | [] => false

/-- The token at the cursor. -/
def fetchHere (t : Tokenizer) : Except Fault Tokenizer :=
  let cursor := t.cursor
  match cursor.rest with
  | [] => t.fetchStreamEnd
  | c :: rest =>
    let indicates := t.inFlow || startsBlank rest
    if c == '%' && cursor.mark.column == 0 then t.fetchDirective
    else if c == '-' && cursor.atDocumentMark then t.fetchDocumentMark .documentStart
    else if c == '.' && cursor.atDocumentMark then t.fetchDocumentMark .documentEnd
    else if c == '[' then t.fetchFlowStart .flowSequenceStart
    else if c == '\x7b' then t.fetchFlowStart .flowMappingStart
    else if c == ']' then t.fetchFlowEnd .flowSequenceEnd
    else if c == '\x7d' then t.fetchFlowEnd .flowMappingEnd
    else if c == ',' then t.fetchFlowEntry
    else if c == '-' && startsBlank rest then t.fetchBlockEntry
    else if c == '?' && indicates then t.fetchKey
    else if c == ':' && indicates then t.fetchValue
    else if c == '*' then t.fetchAnchor .scanningAlias .reference
    else if c == '&' then t.fetchAnchor .scanningAnchor .anchor
    else if c == '!' then t.fetchTag
    else if c == '|' && !t.inFlow then t.fetchBlockScalar true
    else if c == '>' && !t.inFlow then t.fetchBlockScalar false
    else if c == '\'' || c == '"' then t.fetchQuoted c
    else if !isSpaceOrTab c && startsPlain t.inFlow (c :: rest) then t.fetchPlain
    else .error (cursor.fault .scanningToken cursor.mark .unknownToken)

/-- The next token, with the blanks before it and the blocks that it closes. -/
def fetch (t : Tokenizer) : Except Fault Tokenizer := do
  let t := skipBlanks (t.cursor.rest.length + 1) t
  let t ← t.dropUnreachable
  (← (t.closeBlocks t.cursor.mark.column).fetchHere).dropUnreachable

/-! ## All tokens -/

/-- The number of tokens before which no key can begin any more. -/
def settled (t : Tokenizer) : Nat :=
  ((t.key :: t.outerKeys).filterMap fun key => key.map PossibleKey.number).foldl min t.count

def isFinished (t : Tokenizer) : Bool :=
  match t.produced with
  | ⟨.streamEnd, _, _⟩ :: _ => true
  | _ => false

end Tokenizer

/-- The tokens of a text, and the fault behind the last one if they do not end the stream. -/
structure Tokens where
  tokens : List Token
  fault : Option Fault := none

/-- Fetch until the stream ends. -/
def fetchAll : Nat → Tokenizer → Tokens
  | 0, t => ⟨t.produced.reverse, none⟩
  | fuel + 1, t =>
    if t.isFinished then ⟨t.produced.reverse, none⟩
    else
      match t.fetch with
      | .ok next => fetchAll fuel next
      | .error fault => ⟨t.produced.reverse.take t.settled, some fault⟩

/-- The text behind a byte order mark. -/
def withoutByteOrderMark (text : List Char) : List Char :=
  match text with
  | c :: rest => if c.toNat == 0xfeff then rest else text
  | [] => []

/-- The number of bytes before the first character that no text may hold. -/
def firstForbidden? (offset : Nat) : List Char → Option Nat
  | [] => none
  | c :: rest => if isAllowed c then firstForbidden? (offset + c.utf8Size) rest else some offset

/-- The tokens of a text.  A text with a forbidden character has none. -/
def tokenize (text : String) : Tokens :=
  let body := withoutByteOrderMark text.toList
  let skipped := if body.length = text.length then 0 else 3
  match firstForbidden? skipped body with
  | some offset => ⟨[], some ⟨.controlCharacter offset, .start, none⟩⟩
  | none => fetchAll (body.length + 2) { cursor := ⟨body, .start⟩ }

end BuildPipeline.Yaml
