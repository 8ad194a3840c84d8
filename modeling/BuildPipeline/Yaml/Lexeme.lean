import BuildPipeline.Yaml.Cursor

/-!
# Lexemes

The parts of YAML text that have a content of their own: plain, quoted and block scalars, names of
anchors, tags and directives.  Each is read from the cursor at its first character, and the cursor
behind it is returned.

Line endings inside plain and quoted scalars are folded: a single one becomes a space, and of
several the first is dropped.
-/

namespace BuildPipeline.Yaml

/-- How a scalar is written. -/
inductive Style where
  | plain
  | quoted
  | literal
  | folded
  deriving DecidableEq, Repr

/-! ## Gaps between the words of a scalar -/

/-- Blanks and line endings between two words. -/
structure Gap where
  /-- Blanks before the first line ending. -/
  blanks : List Char := []
  /-- Whether a line has ended. -/
  broken : Bool := false
  leading : Option Char := none
  trailing : List Char := []

/-- What a gap leaves in the scalar. -/
def Gap.fold (gap : Gap) : List Char :=
  if gap.broken then
    match gap.leading with
    | some '\n' => if gap.trailing = [] then [' '] else gap.trailing
    | some c => c :: gap.trailing
    | none => gap.trailing
  else gap.blanks

/-- Go over blanks and line endings.  Behind a line ending a tab before the column `limit` is
refused. -/
def scanGap (limit : Option Int) (start : Mark) : Nat → Gap → Cursor → Except Fault (Gap × Cursor)
  | 0, gap, cursor => .ok (gap, cursor)
  | fuel + 1, gap, cursor =>
    match cursor.takeBreak? with
    | some (c, next) =>
      if gap.broken then scanGap limit start fuel { gap with trailing := gap.trailing ++ [c] } next
      else
        scanGap limit start fuel { gap with blanks := [], broken := true, leading := some c } next
    | none =>
      match cursor.rest with
      | [] => .ok (gap, cursor)
      | c :: _ =>
        if isSpaceOrTab c then
          if gap.broken then
            if c == '\t' && limit.any fun limit => (cursor.mark.column : Int) < limit then
              .error (cursor.fault .scanningPlain start .tabBelowIndentation)
            else scanGap limit start fuel gap (cursor.skip 1)
          else scanGap limit start fuel { gap with blanks := gap.blanks ++ [c] } (cursor.skip 1)
        else .ok (gap, cursor)

/-! ## Plain scalars -/

structure Scalar where
  text : List Char
  style : Style
  /-- The place behind the last character. -/
  stop : Mark
  /-- Whether the lines behind the scalar were gone over with it. -/
  brokeLine : Bool := false

def isFlowIndicator (c : Char) : Bool :=
  c == ',' || c == '[' || c == ']' || c == '\x7b' || c == '\x7d'

/-- Whether a plain scalar cannot go on with this text. -/
def endsPlain (inFlow : Bool) : List Char → Bool
  | ':' :: rest => startsBlank rest
  | c :: _ => inFlow && isFlowIndicator c
  | [] => true

/-- Whether a colon stands where a flow collection cannot have one. -/
def colonBeforeIndicator (inFlow : Bool) : List Char → Bool
  | ':' :: c :: _ => inFlow && (isFlowIndicator c || c == '?')
  | _ => false

/-- The characters of a plain scalar up to the next blank, line ending or ending indicator. -/
def takePlainWord (inFlow : Bool) (start mark : Mark) :
    List Char → Except Fault (List Char × Cursor)
  | [] => .ok ([], ⟨[], mark⟩)
  | c :: rest =>
    if startsBlank (c :: rest) then .ok ([], ⟨c :: rest, mark⟩)
    else if colonBeforeIndicator inFlow (c :: rest) then
      .error ⟨.unexpectedColon, mark, some (.scanningPlain, start)⟩
    else if endsPlain inFlow (c :: rest) then .ok ([], ⟨c :: rest, mark⟩)
    else do
      let (word, next) ← takePlainWord inFlow start (mark.forward 1) rest
      return (c :: word, next)

/-- Read words and gaps; `gap` is what stands before the next word, `read` what precedes it. -/
def scanPlainFrom (inFlow : Bool) (limit : Int) (start : Mark) :
    Nat → Scalar → Gap → Cursor → Except Fault (Scalar × Cursor)
  | 0, read, gap, cursor => .ok ({ read with brokeLine := gap.broken }, cursor)
  | fuel + 1, read, gap, cursor =>
    if cursor.atDocumentMark || cursor.rest.head? == some '#' then
      .ok ({ read with brokeLine := gap.broken }, cursor)
    else do
      let (word, next) ← takePlainWord inFlow start cursor.mark cursor.rest
      let read := if word = [] then read
        else { read with text := read.text ++ gap.fold ++ word, stop := next.mark }
      let gap := if word = [] then gap else {}
      if next.rest = [] || !startsBlank next.rest then
        return ({ read with brokeLine := gap.broken }, next)
      let (gap, after) ← scanGap (some limit) start (next.rest.length + 1) gap next
      if !inFlow && (after.mark.column : Int) < limit then
        return ({ read with brokeLine := gap.broken }, after)
      scanPlainFrom inFlow limit start fuel read gap after

/-- A plain scalar inside a block of the given indentation. -/
def scanPlain (inFlow : Bool) (indent : Int) (cursor : Cursor) : Except Fault (Scalar × Cursor) :=
  scanPlainFrom inFlow (indent + 1) cursor.mark (cursor.rest.length + 1)
    ⟨[], .plain, cursor.mark, false⟩ {} cursor

/-! ## Quoted scalars -/

/-- The character that a letter behind a backslash stands for. -/
def simpleEscape? : Char → Option Char
  | '0' => some '\x00'
  | 'a' => some '\x07'
  | 'b' => some '\x08'
  | 't' | '\t' => some '\t'
  | 'n' => some '\n'
  | 'v' => some '\x0b'
  | 'f' => some '\x0c'
  | 'r' => some '\r'
  | 'e' => some '\x1b'
  | ' ' => some ' '
  | '"' => some '"'
  | '/' => some '/'
  | '\\' => some '\\'
  | 'N' => some '\x85'
  | '_' => some '\xa0'
  | 'L' => some '\u2028'
  | 'P' => some '\u2029'
  | _ => none

/-- The number of hexadecimal digits behind a letter. -/
def escapeWidth? : Char → Option Nat
  | 'x' => some 2
  | 'u' => some 4
  | 'U' => some 8
  | _ => none

def hexDigit? (c : Char) : Option Nat :=
  if c.isDigit then some (c.toNat - '0'.toNat)
  else if 'a' ≤ c ∧ c ≤ 'f' then some (c.toNat - 'a'.toNat + 10)
  else if 'A' ≤ c ∧ c ≤ 'F' then some (c.toNat - 'A'.toNat + 10)
  else none

/-- The value of exactly so many hexadecimal digits. -/
def hexValue? : Nat → Nat → List Char → Option Nat
  | 0, value, _ => some value
  | _ + 1, _, [] => none
  | count + 1, value, c :: rest =>
    (hexDigit? c).bind fun digit => hexValue? count (16 * value + digit) rest

/-- The character that an escape at the cursor stands for. -/
def takeEscape (start : Mark) (cursor : Cursor) : Except Fault (Char × Cursor) :=
  match cursor.rest with
  | _ :: letter :: rest =>
    match simpleEscape? letter, escapeWidth? letter with
    | some c, _ => .ok (c, cursor.skip 2)
    | none, some width =>
      let digits := cursor.skip 2
      match hexValue? width 0 rest with
      | none => .error (digits.fault .readingQuoted start .noHexadecimal)
      | some value =>
        if value.isValidChar then .ok (Char.ofNat value, digits.skip width)
        else .error (digits.fault .readingQuoted start .badCodePoint)
    | none, none => .error (cursor.fault .readingQuoted start .unknownEscape)
  | _ => .error (cursor.fault .readingQuoted start .unknownEscape)

/-- The characters of a quoted scalar up to the next blank, line ending or closing quote.  The gap
returned is open already if a line ending was escaped. -/
def takeQuotedWord (quote : Char) (start : Mark) :
    Nat → Cursor → Except Fault (List Char × Gap × Cursor)
  | 0, cursor => .ok ([], {}, cursor)
  | fuel + 1, cursor =>
    let more (c : Char) (next : Cursor) := do
      let (word, gap, after) ← takeQuotedWord quote start fuel next
      return (c :: word, gap, after)
    if startsBlank cursor.rest then .ok ([], {}, cursor)
    else
      match cursor.rest with
      | [] => .ok ([], {}, cursor)
      | c :: rest =>
        if c == '\'' && quote == '\'' && rest.head? == some '\'' then more '\'' (cursor.skip 2)
        else if c == quote then .ok ([], {}, cursor)
        else if c == '\\' && quote == '"' then
          match (cursor.skip 1).takeBreak? with
          | some (_, next) => .ok ([], { broken := true }, next)
          | none => do
            let (escaped, next) ← takeEscape start cursor
            more escaped next
        else more c (cursor.skip 1)

def scanQuotedFrom (quote : Char) (start : Mark) :
    Nat → List Char → Cursor → Except Fault (Scalar × Cursor)
  | 0, _, cursor => .error (cursor.fault .scanningQuoted start .endOfStream)
  | fuel + 1, text, cursor =>
    if cursor.atDocumentMark then .error (cursor.fault .scanningQuoted start .documentMark)
    else if cursor.rest = [] then .error (cursor.fault .scanningQuoted start .endOfStream)
    else do
      let (word, gap, next) ← takeQuotedWord quote start (cursor.rest.length + 1) cursor
      let text := text ++ word
      if next.rest.head? == some quote then
        let stop := next.skip 1
        return (⟨text, .quoted, stop.mark, false⟩, stop)
      let (gap, after) ← scanGap none start (next.rest.length + 1) gap next
      scanQuotedFrom quote start fuel (text ++ gap.fold) after

/-- A scalar between quotes, which the cursor stands at. -/
def scanQuoted (quote : Char) (cursor : Cursor) : Except Fault (Scalar × Cursor) :=
  scanQuotedFrom quote cursor.mark (cursor.rest.length + 1) [] (cursor.skip 1)

/-! ## Block scalars -/

/-- What becomes of the line endings behind a block scalar. -/
inductive Chomping where
  | strip
  | clip
  | keep
  deriving DecidableEq

/-- The header behind the indicator: chomping and indentation, in any order. -/
def takeHeader (start : Mark) (cursor : Cursor) :
    Except Fault (Chomping × Option Nat × Cursor) := do
  let chomping? (cursor : Cursor) : Option Chomping × Cursor :=
    match cursor.rest with
    | '+' :: _ => (some .keep, cursor.skip 1)
    | '-' :: _ => (some .strip, cursor.skip 1)
    | _ => (none, cursor)
  let increment? (cursor : Cursor) : Except Fault (Option Nat × Cursor) :=
    match cursor.rest with
    | c :: _ =>
      if c == '0' then .error (cursor.fault .scanningBlockScalar start .zeroIndentation)
      else if c.isDigit then .ok (some (c.toNat - '0'.toNat), cursor.skip 1)
      else .ok (none, cursor)
    | [] => .ok (none, cursor)
  let (first, cursor) := chomping? cursor
  let (increment, cursor) ← increment? cursor
  match first with
  | some chomping => return (chomping, increment, cursor)
  | none =>
    if increment.isSome then
      let (second, cursor) := chomping? cursor
      return (second.getD .clip, increment, cursor)
    else return (.clip, none, cursor)

/-- The end of a line on which only blanks and a comment may still stand. -/
def takeLineEnd (activity : Activity) (start : Mark) (cursor : Cursor) : Except Fault Cursor :=
  let blanks := cursor.skipWhile isSpaceOrTab
  let comment := if blanks.rest.head? == some '#' then blanks.takeLine.2 else blanks
  if startsBreak comment.rest then
    .ok (match comment.takeBreak? with
      | some (_, next) => next
      | none => comment)
  else .error (comment.fault activity start .trailingText)

/-- Empty lines before the next line of a block scalar: their endings, the widest indentation, and
the cursor at the next line's text or first surplus blank. -/
def takeEmptyLines (indent : Nat) (start : Mark) :
    Nat → List Char → Nat → Cursor → Except Fault (List Char × Nat × Cursor)
  | 0, breaks, widest, cursor => .ok (breaks, widest, cursor)
  | fuel + 1, breaks, widest, cursor =>
    let run := (cursor.rest.takeWhile (· == ' ')).length
    let skipped := if indent = 0 then run else min run (indent - cursor.mark.column)
    let cursor := cursor.skip skipped
    let widest := max widest cursor.mark.column
    if (indent = 0 || cursor.mark.column < indent) && cursor.rest.head? == some '\t' then
      .error (cursor.fault .scanningBlockScalar start .tabAsIndentation)
    else
      match cursor.takeBreak? with
      | some (c, next) => takeEmptyLines indent start fuel (breaks ++ [c]) widest next
      | none => .ok (breaks, widest, cursor)

/-- The lines of a block scalar.  `leading` is the ending of the line before, `trailing` those of
the empty lines behind it, and `blank` says whether that line began with a blank. -/
def scanBlockLines (literal : Bool) (indent : Nat) (start : Mark) :
    Nat → List Char → Option Char → List Char → Bool → Cursor →
      Except Fault (List Char × Option Char × List Char × Cursor)
  | 0, text, leading, trailing, _, cursor => .ok (text, leading, trailing, cursor)
  | fuel + 1, text, leading, trailing, blank, cursor =>
    if cursor.mark.column ≠ indent || cursor.rest = [] then .ok (text, leading, trailing, cursor)
    else
      let startsWithBlank := cursor.rest.head?.any isSpaceOrTab
      let joint :=
        if !literal && leading == some '\n' && !blank && !startsWithBlank then
          if trailing = [] then [' '] else []
        else leading.toList
      let (line, lineEnd) := cursor.takeLine
      let text := text ++ joint ++ trailing ++ line
      let (leading, next) :=
        match lineEnd.takeBreak? with
        | some (c, next) => (some c, next)
        | none => (none, lineEnd)
      do
        let (trailing, _, after) ←
          takeEmptyLines indent start (next.rest.length + 1) [] 0 next
        scanBlockLines literal indent start fuel text leading trailing startsWithBlank after

/-- A literal or folded scalar inside a block of the given indentation. -/
def scanBlockScalar (literal : Bool) (indent : Int) (cursor : Cursor) :
    Except Fault (Scalar × Cursor) := do
  let start := cursor.mark
  let (chomping, increment, cursor) ← takeHeader start (cursor.skip 1)
  let cursor ← takeLineEnd .scanningBlockScalar start cursor
  let given : Nat := match increment with
    | some increment => (if 0 ≤ indent then indent + increment else increment : Int).toNat
    | none => 0
  let (trailing, widest, cursor) ←
    takeEmptyLines given start (cursor.rest.length + 1) [] 0 cursor
  let width : Nat :=
    if given ≠ 0 then given else max (max widest (indent + 1).toNat) 1
  let (text, leading, trailing, cursor) ←
    scanBlockLines literal width start (cursor.rest.length + 1) [] none trailing false cursor
  let ending := match chomping with
    | .strip => []
    | .clip => leading.toList
    | .keep => leading.toList ++ trailing
  return (⟨text ++ ending, if literal then .literal else .folded, cursor.mark, false⟩, cursor)

/-! ## Anchors and tags -/

/-- The name of an anchor or alias, behind its indicator. -/
def scanAnchorName (activity : Activity) (cursor : Cursor) :
    Except Fault (List Char × Cursor) :=
  let (name, next) := (cursor.skip 1).takeWhile isNameChar
  let closed := startsBlank next.rest ||
    next.rest.head?.any fun c => "?:,]\x7d%@`".toList.contains c
  if name = [] || !closed then .error (next.fault activity cursor.mark .noAnchorName)
  else .ok (name, next)

/-- One octet written as `%` and two hexadecimal digits. -/
def takeOctet? (cursor : Cursor) : Option (Nat × Cursor) :=
  match cursor.rest with
  | '%' :: high :: low :: _ =>
    (hexValue? 2 0 [high, low]).map fun value => (value, cursor.skip 3)
  | _ => none

/-- The remaining octets of one character. -/
def takeOctets (activity : Activity) (start : Mark) :
    Nat → Nat → Cursor → Except Fault (Char × Cursor)
  | 0, value, cursor => .ok (Char.ofNat value, cursor)
  | count + 1, value, cursor =>
    match takeOctet? cursor with
    | none => .error (cursor.fault activity start .noOctet)
    | some (octet, next) =>
      if octet / 64 = 2 then takeOctets activity start count (64 * value + octet % 64) next
      else .error (cursor.fault activity start .badTrailingOctet)

/-- A character written as its UTF-8 octets. -/
def takeEscapedChar (activity : Activity) (start : Mark) (cursor : Cursor) :
    Except Fault (Char × Cursor) :=
  match takeOctet? cursor with
  | none => .error (cursor.fault activity start .noOctet)
  | some (octet, next) =>
    if octet < 0x80 then .ok (Char.ofNat octet, next)
    else if octet / 32 = 6 then takeOctets activity start 1 (octet % 32) next
    else if octet / 16 = 14 then takeOctets activity start 2 (octet % 16) next
    else if octet / 8 = 30 then takeOctets activity start 3 (octet % 8) next
    else .error (cursor.fault activity start .badLeadingOctet)

/-- The characters of tags; `full` admits those that end a tag in a flow collection. -/
def isUriChar (full : Bool) (c : Char) : Bool :=
  isNameChar c || ";/?:@&=+$.%!~*'()".toList.contains c ||
    (full && (c == ',' || c == '[' || c == ']'))

/-- The URI characters at the cursor, escapes decoded. -/
def takeUri (activity : Activity) (full : Bool) (start : Mark) :
    Nat → Cursor → Except Fault (List Char × Cursor)
  | 0, cursor => .ok ([], cursor)
  | fuel + 1, cursor =>
    match cursor.rest with
    | [] => .ok ([], cursor)
    | c :: _ =>
      if isUriChar full c then do
        let (c, next) ←
          if c == '%' then takeEscapedChar activity start cursor else .ok (c, cursor.skip 1)
        let (uri, after) ← takeUri activity full start fuel next
        return (c :: uri, after)
      else .ok ([], cursor)

/-- A handle: `!`, `!!` or `!name!`, or only the start of a local tag. -/
def takeHandle (cursor : Cursor) : List Char × Cursor :=
  let (name, next) := (cursor.skip 1).takeWhile isNameChar
  if next.rest.head? == some '!' then ('!' :: name ++ ['!'], next.skip 1) else ('!' :: name, next)

/-- A tag as a handle and what follows it; a tag without a handle has an empty one. -/
def scanTag (inFlow : Bool) (cursor : Cursor) :
    Except Fault (List Char × List Char × Cursor) := do
  let start := cursor.mark
  let fuel := cursor.rest.length + 1
  let (handle, suffix, next) ←
    if (cursor.rest.drop 1).head? == some '<' then do
      let (uri, next) ← takeUri .readingTag true start fuel (cursor.skip 2)
      if uri = [] then throw (next.fault .readingTag start .noUri)
      if next.rest.head? != some '>' then throw (next.fault .scanningTag start .noTagEnd)
      pure (([] : List Char), uri, next.skip 1)
    else do
      let (handle, next) := takeHandle cursor
      if 1 < handle.length && handle.getLast? == some '!' then do
        let (uri, next) ← takeUri .readingTag false start fuel next
        if uri = [] then throw (next.fault .readingTag start .noUri)
        pure (handle, uri, next)
      else do
        let (uri, next) ← takeUri .readingTag false start fuel next
        let suffix := handle.drop 1 ++ uri
        pure (if suffix = [] then ([], ['!'], next) else (['!'], suffix, next))
  if startsBlank next.rest || (inFlow && next.rest.head? == some ',') then
    return (handle, suffix, next)
  else throw (next.fault .scanningTag start .noBlankOrBreak)

/-! ## Directives -/

inductive Directive where
  | version (major minor : Nat)
  | handle (handle start : List Char)

def takeVersionNumber (start : Mark) (cursor : Cursor) : Except Fault (Nat × Cursor) :=
  let (digits, next) := cursor.takeWhile Char.isDigit
  if 9 < digits.length then .error ((cursor.skip 9).fault .scanningVersion start .longVersion)
  else if digits = [] then .error (next.fault .scanningVersion start .noVersion)
  else .ok (digits.foldl (fun value c => 10 * value + (c.toNat - '0'.toNat)) 0, next)

def takeVersion (start : Mark) (cursor : Cursor) : Except Fault (Directive × Cursor) := do
  let (major, next) ← takeVersionNumber start (cursor.skipWhile isSpaceOrTab)
  if next.rest.head? != some '.' then throw (next.fault .scanningVersion start .noVersionPoint)
  let (minor, next) ← takeVersionNumber start (next.skip 1)
  return (.version major minor, next)

def takeHandleDirective (start : Mark) (cursor : Cursor) :
    Except Fault (Directive × Cursor) := do
  let cursor := cursor.skipWhile isSpaceOrTab
  if cursor.rest.head? != some '!' then throw (cursor.fault .scanningDirective start .noTagMark)
  let (handle, next) := takeHandle cursor
  if 1 < handle.length && handle.getLast? != some '!' then
    throw (next.fault .readingHandle start .noTagMark)
  if !next.rest.head?.any isSpaceOrTab then throw (next.fault .scanningHandle start .noBlank)
  let next := next.skipWhile isSpaceOrTab
  let (uri, after) ← takeUri .readingHandleUri true start (next.rest.length + 1) next
  if uri = [] then throw (after.fault .readingHandleUri start .noUri)
  if !startsBlank after.rest then throw (after.fault .scanningHandle start .noBlankOrBreak)
  return (.handle handle uri, after)

/-- A directive line; the place returned is the one behind the directive's own text. -/
def scanDirective (cursor : Cursor) : Except Fault (Directive × Mark × Cursor) := do
  let start := cursor.mark
  let (name, next) := (cursor.skip 1).takeWhile isNameChar
  if name = [] then throw (next.fault .scanningDirective start .noDirectiveName)
  if !startsBlank next.rest then throw (next.fault .scanningDirective start .badDirectiveName)
  let (directive, after) ←
    if name = "YAML".toList then takeVersion start next
    else if name = "TAG".toList then takeHandleDirective start next
    else throw (next.fault .scanningDirective start .unknownDirective)
  let lineEnd ← takeLineEnd .scanningDirective start after
  return (directive, after.mark, lineEnd)

end BuildPipeline.Yaml
