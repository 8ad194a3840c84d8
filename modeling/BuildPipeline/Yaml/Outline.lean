import BuildPipeline.Yaml.Token

/-!
# Outlines of YAML documents

An outline is what a document writes: scalars, sequences and mappings with the places where they
begin, anchors and aliases.  An alias names an anchor by its number.  A text with a fault still has
the parts before the fault; the fault itself is the part where it cut the document off, so a reader
meets it only after what precedes it.
-/

namespace BuildPipeline.Yaml

/-- The tag of a scalar, as far as it decides what the scalar is. -/
inductive ScalarTag where
  | bool
  | int
  | float
  | null
  /-- Any other tag that is not local. -/
  | text
  deriving DecidableEq, Repr

inductive Outline where
  | scalar (mark : Mark) (tag : Option ScalarTag) (style : Style) (text : String)
  | sequence (mark : Mark) (items : List Outline)
  | mapping (mark : Mark) (entries : List (Outline × Outline))
  /-- A part with a local tag, given without its exclamation mark. -/
  | tagged (mark : Mark) (tag : String) (content : Outline)
  | anchored (number : Nat) (content : Outline)
  | reference (number : Nat)
  /-- The document of a text without content. -/
  | void (mark : Mark)
  | broken (fault : Fault)
  deriving Inhabited

namespace Outline

mutual

/-- The numbers of the anchors and what they stand before, in the order of the text. -/
def anchors : Outline → List (Nat × Outline)
  | anchored number content => (number, content) :: content.anchors
  | tagged _ _ content => content.anchors
  | sequence _ items => anchorsOfItems items
  | mapping _ entries => anchorsOfEntries entries
  | _ => []

def anchorsOfItems : List Outline → List (Nat × Outline)
  | [] => []
  | item :: items => item.anchors ++ anchorsOfItems items

def anchorsOfEntries : List (Outline × Outline) → List (Nat × Outline)
  | [] => []
  | (key, value) :: entries => key.anchors ++ value.anchors ++ anchorsOfEntries entries

end

/-- Events that follow one another, unless a fault cuts the first ones off. -/
def chain (first rest : Nat × Bool) : Nat × Bool :=
  if first.2 then (first.1 + rest.1, rest.2) else first

/-- Events between the two ends of a collection; one that is cut off has no second end. -/
def enclose (inner : Nat × Bool) : Nat × Bool :=
  if inner.2 then (inner.1 + 2, true) else (inner.1 + 1, false)

mutual

/-- The number of events that an outline is: one for a scalar or an alias, and for a collection its
two ends and what is between them.  Also whether it is written to its end. -/
def events : Outline → Nat × Bool
  | scalar .. | reference _ | void _ => (1, true)
  | sequence _ items => enclose (eventsOfItems items)
  | mapping _ entries => enclose (eventsOfEntries entries)
  | tagged _ _ content | anchored _ content => content.events
  | broken _ => (0, false)

def eventsOfItems : List Outline → Nat × Bool
  | [] => (0, true)
  | item :: items => chain item.events (eventsOfItems items)

def eventsOfEntries : List (Outline × Outline) → Nat × Bool
  | [] => (0, true)
  | (key, value) :: entries =>
    chain key.events (chain value.events (eventsOfEntries entries))

end

end Outline

/-! ## Composition -/

/-- The tokens still to be used, the fault behind them, and the names known so far. -/
structure Feed where
  tokens : List Token
  fault : Option Fault
  /-- Tag handles and what they stand for. -/
  handles : List (String × String) := []
  /-- The names of anchors with their numbers, the last one first. -/
  anchors : List (String × Nat) := []

namespace Feed

/-- The fault behind the last token; a stream without one ends with its own token. -/
def endFault (feed : Feed) : Fault :=
  feed.fault.getD ⟨.endOfStream, .start, none⟩

def peek? (feed : Feed) : Option Token :=
  feed.tokens.head?

def next (feed : Feed) : Feed :=
  { feed with tokens := feed.tokens.drop 1 }

def anchorNumber? (feed : Feed) (name : String) : Option Nat :=
  feed.anchors.lookup name

/-- Take an anchor up, and put it before its content.  Its number is the count of the names known,
so a name that is taken again gives its new number to the next new name as well. -/
def takeAnchor (feed : Feed) (name : Option String) : (Outline → Outline) × Feed :=
  match name with
  | some name =>
    let number := feed.anchors.length
    let anchors := (name, number) :: feed.anchors.filter (·.1 != name)
    (.anchored number, { feed with anchors })
  | none => (id, feed)

def handleFor? (feed : Feed) (handle : String) : Option String :=
  ((feed.handles ++ [("!", "!"), ("!!", "tag:yaml.org,2002:")]).find? (·.1 == handle)).map Prod.snd

end Feed

/-- A part and what follows it, which is nothing where a fault cut the document off. -/
abbrev Composed := Outline × Option Feed

def cut (fault : Fault) : Composed :=
  (.broken fault, none)

/-- A null where nothing is written. -/
def emptyNode (mark : Mark) : Outline :=
  .scalar mark none .plain ""

/-- Whether a token ends a list entry that may be empty. -/
def Token.isOneOf (token : Token) (kinds : List TokenKind) : Bool :=
  kinds.any fun kind => kind.ctorIdx == token.kind.ctorIdx

/-- Anchor and tag before a node. -/
structure Properties where
  start : Mark
  stop : Mark
  anchor : Option String := none
  tag : Option (String × String) := none
  tagMark : Mark := .start

/-- Take an anchor and a tag in either order. -/
def takeProperties : Nat → Properties → Feed → Properties × Feed
  | 0, properties, feed => (properties, feed)
  | count + 1, properties, feed =>
    match feed.peek? with
    | some ⟨.anchor name, _, stop⟩ =>
      if properties.anchor.isNone then
        takeProperties count { properties with anchor := some name, stop } feed.next
      else (properties, feed)
    | some ⟨.tag handle suffix, start, stop⟩ =>
      if properties.tag.isNone then
        takeProperties count
          { properties with tag := some (handle, suffix), stop, tagMark := start } feed.next
      else (properties, feed)
    | _ => (properties, feed)

/-- The tag that a handle and suffix stand for. -/
def Feed.resolveTag (feed : Feed) (properties : Properties) : Except Fault (Option String) :=
  match properties.tag with
  | none => .ok none
  | some ("", suffix) => .ok (some suffix)
  | some (handle, suffix) =>
    match feed.handleFor? handle with
    | some start => .ok (some (start ++ suffix))
    | none =>
      .error ⟨.undefinedHandle, properties.tagMark, some (.readingNode, properties.start)⟩

/-- The name of a local tag. -/
def localTag? (tag : String) : Option String :=
  match tag.toList with
  | '!' :: name => some (String.ofList name)
  | _ => none

def withTag (mark : Mark) (tag : Option String) (node : Outline) : Outline :=
  match tag.bind localTag? with
  | some name => .tagged mark name node
  | none => node

def scalarTag (tag : String) : ScalarTag :=
  if tag = "tag:yaml.org,2002:bool" then .bool
  else if tag = "tag:yaml.org,2002:int" then .int
  else if tag = "tag:yaml.org,2002:float" then .float
  else if tag = "tag:yaml.org,2002:null" then .null
  else .text

/-- A scalar with its tag; the tag `!` alone only says that it is a text. -/
def scalarNode (mark : Mark) (tag : Option String) (style : Style) (text : String) :
    Outline :=
  match tag with
  | none | some "!" => .scalar mark none style text
  | some tag =>
    match localTag? tag with
    | some name => .tagged mark name (.scalar mark none style text)
    | none => .scalar mark (some (scalarTag tag)) style text

mutual

/-- The node at the head of the feed.  `block` admits block collections, `indentless` sequences that
are indented no deeper than their key. -/
def composeNode (fuel : Nat) (block indentless : Bool) (feed : Feed) : Composed :=
  match fuel with
  | 0 => cut feed.endFault
  | fuel + 1 =>
    match feed.peek? with
    | none => cut feed.endFault
    | some ⟨.reference name, mark, _⟩ =>
      match feed.anchorNumber? name with
      | some number => (.reference number, some feed.next)
      | none => cut ⟨.unknownAnchor, mark, none⟩
    | some first =>
      let (properties, feed) := takeProperties 2 ⟨first.start, first.start, none, none, .start⟩ feed
      match feed.peek? with
      | none => cut feed.endFault
      | some token =>
        match feed.resolveTag properties with
        | .error fault => cut fault
        | .ok tag =>
          let mark := properties.start
          let anchor := properties.anchor
          let collection (composed : Feed → Composed) : Composed :=
            let (anchored, feed) := feed.takeAnchor anchor
            let (node, rest) := composed feed
            (anchored (withTag mark tag node), rest)
          let leaf (node : Outline) (feed : Feed) : Composed :=
            let (anchored, feed) := feed.takeAnchor anchor
            (anchored node, some feed)
          match token.kind with
          | .blockEntry =>
            if indentless then
              collection fun feed =>
                let (items, rest) := composeIndentless fuel feed
                (.sequence mark items, rest)
            else composeBare block properties tag token feed
          | .scalar text style => leaf (scalarNode mark tag style text) feed.next
          | .flowSequenceStart =>
            collection fun feed =>
              let (items, rest) := composeFlowItems fuel true token.start feed.next
              (.sequence mark items, rest)
          | .flowMappingStart =>
            collection fun feed =>
              let (entries, rest) := composeFlowEntries fuel true token.start feed.next
              (.mapping mark entries, rest)
          | .blockSequenceStart =>
            if block then
              collection fun feed =>
                let (items, rest) := composeBlockItems fuel token.start feed.next
                (.sequence mark items, rest)
            else composeBare block properties tag token feed
          | .blockMappingStart =>
            if block then
              collection fun feed =>
                let (entries, rest) := composeBlockEntries fuel token.start feed.next
                (.mapping mark entries, rest)
            else composeBare block properties tag token feed
          | _ => composeBare block properties tag token feed

/-- The items of a block sequence that began at `start`. -/
def composeBlockItems (fuel : Nat) (start : Mark) (feed : Feed) : List Outline × Option Feed :=
  match fuel with
  | 0 => ([.broken feed.endFault], none)
  | fuel + 1 =>
    match feed.peek? with
    | none => ([.broken feed.endFault], none)
    | some ⟨.blockEnd, _, _⟩ => ([], some feed.next)
    | some ⟨.blockEntry, _, stop⟩ =>
      let (item, rest) := composeOptional fuel [.blockEntry, .blockEnd] true false stop feed.next
      match rest with
      | none => ([item], none)
      | some rest =>
        let (items, rest) := composeBlockItems fuel start rest
        (item :: items, rest)
    | some token =>
      ([.broken ⟨.noDash, token.start, some (.readingBlockCollection, start)⟩], none)

/-- The items of a sequence that is indented no deeper than its key. -/
def composeIndentless (fuel : Nat) (feed : Feed) : List Outline × Option Feed :=
  match fuel with
  | 0 => ([.broken feed.endFault], none)
  | fuel + 1 =>
    match feed.peek? with
    | none => ([.broken feed.endFault], none)
    | some ⟨.blockEntry, _, stop⟩ =>
      let (item, rest) :=
        composeOptional fuel [.blockEntry, .key, .value, .blockEnd] true false stop feed.next
      match rest with
      | none => ([item], none)
      | some rest =>
        let (items, rest) := composeIndentless fuel rest
        (item :: items, rest)
    | some _ => ([], some feed)

/-- A node, or an empty one before a token of the kinds given. -/
def composeOptional (fuel : Nat) (ends : List TokenKind) (block indentless : Bool) (mark : Mark)
    (feed : Feed) : Composed :=
  match fuel with
  | 0 => cut feed.endFault
  | fuel + 1 =>
    match feed.peek? with
    | none => cut feed.endFault
    | some token =>
      if token.isOneOf ends then (emptyNode mark, some feed)
      else composeNode fuel block indentless feed

/-- The entries of a block mapping that began at `start`. -/
def composeBlockEntries (fuel : Nat) (start : Mark) (feed : Feed) :
    List (Outline × Outline) × Option Feed :=
  match fuel with
  | 0 => ([(.broken feed.endFault, .broken feed.endFault)], none)
  | fuel + 1 =>
    let broken (fault : Fault) : List (Outline × Outline) × Option Feed :=
      ([(.broken fault, .broken fault)], none)
    match feed.peek? with
    | none => broken feed.endFault
    | some ⟨.blockEnd, _, _⟩ => ([], some feed.next)
    | some ⟨.key, _, stop⟩ =>
      let (key, rest) := composeOptional fuel [.key, .value, .blockEnd] true true stop feed.next
      match rest with
      | none => ([(key, key)], none)
      | some rest =>
        let (value, rest) := composeBlockValue fuel rest
        match rest with
        | none => ([(key, value)], none)
        | some rest =>
          let (entries, rest) := composeBlockEntries fuel start rest
          ((key, value) :: entries, rest)
    | some token => broken ⟨.noKey, token.start, some (.readingBlockMapping, start)⟩

/-- The value behind a key of a block mapping. -/
def composeBlockValue (fuel : Nat) (feed : Feed) : Composed :=
  match fuel with
  | 0 => cut feed.endFault
  | fuel + 1 =>
    match feed.peek? with
    | none => cut feed.endFault
    | some ⟨.value, _, stop⟩ =>
      composeOptional fuel [.key, .value, .blockEnd] true true stop feed.next
    | some token => (emptyNode token.start, some feed)

/-- The items of a flow sequence that began at `start`, `first` before its first item. -/
def composeFlowItems (fuel : Nat) (first : Bool) (start : Mark) (feed : Feed) :
    List Outline × Option Feed :=
  match fuel with
  | 0 => ([.broken feed.endFault], none)
  | fuel + 1 =>
    let broken (fault : Fault) : List Outline × Option Feed := ([.broken fault], none)
    match feed.peek? with
    | none => broken feed.endFault
    | some ⟨.flowSequenceEnd, _, _⟩ => ([], some feed.next)
    | some token =>
      let separated := token.isOneOf [.flowEntry]
      if !first && !separated then
        broken ⟨.noCommaOrBracket, token.start, some (.readingFlowSequence, start)⟩
      else
        let feed := if first then feed else feed.next
        match feed.peek? with
        | none => broken feed.endFault
        | some ⟨.flowSequenceEnd, _, _⟩ => ([], some feed.next)
        | some token =>
          let (item, rest) :=
            if token.isOneOf [.key] then composePair fuel token.start feed.next
            else composeNode fuel false false feed
          match rest with
          | none => ([item], none)
          | some rest =>
            let (items, rest) := composeFlowItems fuel false start rest
            (item :: items, rest)

/-- A mapping of one entry that is an item of a flow sequence.  An empty key takes the token behind
it along. -/
def composePair (fuel : Nat) (mark : Mark) (feed : Feed) : Composed :=
  match fuel with
  | 0 => cut feed.endFault
  | fuel + 1 =>
    match feed.peek? with
    | none => (.mapping mark [(.broken feed.endFault, .broken feed.endFault)], none)
    | some token =>
      let (key, rest) :=
        if token.isOneOf [.value, .flowEntry, .flowSequenceEnd] then
          (emptyNode token.stop, some feed.next)
        else composeNode fuel false false feed
      match rest with
      | none => (.mapping mark [(key, key)], none)
      | some rest =>
        let (value, rest) := composeFlowValue fuel [.flowEntry, .flowSequenceEnd] rest
        (.mapping mark [(key, value)], rest)

/-- The value behind a key in a flow collection. -/
def composeFlowValue (fuel : Nat) (ends : List TokenKind) (feed : Feed) : Composed :=
  match fuel with
  | 0 => cut feed.endFault
  | fuel + 1 =>
    match feed.peek? with
    | none => cut feed.endFault
    | some ⟨.value, _, _⟩ =>
      match feed.next.peek? with
      | none => cut feed.endFault
      | some token => composeOptional fuel ends false false token.start feed.next
    | some token => (emptyNode token.start, some feed)

/-- The entries of a flow mapping that began at `start`, `first` before its first entry. -/
def composeFlowEntries (fuel : Nat) (first : Bool) (start : Mark) (feed : Feed) :
    List (Outline × Outline) × Option Feed :=
  match fuel with
  | 0 => ([(.broken feed.endFault, .broken feed.endFault)], none)
  | fuel + 1 =>
    let broken (fault : Fault) : List (Outline × Outline) × Option Feed :=
      ([(.broken fault, .broken fault)], none)
    match feed.peek? with
    | none => broken feed.endFault
    | some ⟨.flowMappingEnd, _, _⟩ => ([], some feed.next)
    | some token =>
      let separated := token.isOneOf [.flowEntry]
      if !first && !separated then
        broken ⟨.noCommaOrBrace, token.start, some (.readingFlowMapping, start)⟩
      else
        let feed := if first then feed else feed.next
        match feed.peek? with
        | none => broken feed.endFault
        | some ⟨.flowMappingEnd, _, _⟩ => ([], some feed.next)
        | some token =>
          let (key, value, rest) : Outline × Outline × Option Feed :=
            if token.isOneOf [.key] then
              match feed.next.peek? with
              | none => (.broken feed.endFault, .broken feed.endFault, none)
              | some inner =>
                let (key, rest) :=
                  composeOptional fuel [.value, .flowEntry, .flowMappingEnd] false false
                    inner.start feed.next
                match rest with
                | none => (key, key, none)
                | some rest =>
                  let (value, rest) :=
                    composeFlowValue fuel [.flowEntry, .flowMappingEnd] rest
                  (key, value, rest)
            else
              let (key, rest) := composeNode fuel false false feed
              match rest with
              | none => (key, key, none)
              | some rest =>
                match rest.peek? with
                | none => (key, .broken rest.endFault, none)
                | some token => (key, emptyNode token.start, some rest)
          match rest with
          | none => ([(key, value)], none)
          | some rest =>
            let (entries, rest) := composeFlowEntries fuel false start rest
            ((key, value) :: entries, rest)

/-- A node of which only the properties are written, or a fault where there are none. -/
def composeBare (block : Bool) (properties : Properties) (tag : Option String) (token : Token)
    (feed : Feed) : Composed :=
  if properties.anchor.isSome || tag.isSome then
    let (anchored, feed) := feed.takeAnchor properties.anchor
    (anchored (scalarNode properties.start tag .plain ""), some feed)
  else
    let activity := if block then Activity.readingBlockNode else .readingFlowNode
    cut ⟨.noContent, token.start, some (activity, properties.start)⟩

end

/-! ## Documents -/

/-- The directives before a document. -/
def takeDirectives : Nat → Bool → Feed → Except Fault Feed
  | 0, _, feed => .ok feed
  | fuel + 1, versioned, feed =>
    match feed.peek? with
    | some ⟨.directive (.version major minor), mark, _⟩ =>
      if versioned then .error ⟨.repeatedVersion, mark, none⟩
      else if major ≠ 1 ∨ (minor ≠ 1 ∧ minor ≠ 2) then .error ⟨.wrongVersion, mark, none⟩
      else takeDirectives fuel true feed.next
    | some ⟨.directive (.handle handle start), mark, _⟩ =>
      let handle := String.ofList handle
      if feed.handles.any (·.1 == handle) then .error ⟨.repeatedHandle, mark, none⟩
      else
        takeDirectives fuel versioned
          { feed.next with handles := feed.handles ++ [(handle, String.ofList start)] }
    | _ => .ok feed

/-- The content of the document at the head of the feed. -/
def composeContent (fuel : Nat) (feed : Feed) : Composed :=
  match feed.peek? with
  | none => cut feed.endFault
  | some token =>
    match token.kind with
    | .directive _ | .documentStart | .documentEnd | .streamEnd =>
      (emptyNode token.start, some feed)
    | _ => composeNode fuel true false feed

/-- The root of the first document. -/
def composeRoot (fuel : Nat) (feed : Feed) : Composed :=
  match feed.peek? with
  | none => cut feed.endFault
  | some ⟨.streamEnd, mark, _⟩ => (.void mark, some feed)
  | some token =>
    if token.isOneOf [.directive (.version 1 1), .documentStart] then
      match takeDirectives fuel false feed with
      | .error fault => cut fault
      | .ok feed =>
        match feed.peek? with
        | none => cut feed.endFault
        | some ⟨.documentStart, _, _⟩ => composeContent fuel feed.next
        | some token => cut ⟨.noDocumentStart, token.start, none⟩
    else composeNode fuel true false feed

end BuildPipeline.Yaml
