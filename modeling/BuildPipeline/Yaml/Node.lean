import BuildPipeline.Yaml.Outline

/-!
# Nodes of a YAML document

The tree that a reader walks: the outline of a document in which every alias holds the node it
stands for.  An alias may stand for a collection around it, which has no end as a tree; since no
reader enters more than `depthLimit` collections, that many levels of aliases are given and no more.
-/

namespace BuildPipeline.Yaml

/-- How deep collections may be nested, those behind aliases counted. -/
def depthLimit : Nat := 128

inductive Node where
  | scalar (mark : Mark) (tag : Option ScalarTag) (style : Style) (text : String)
  | sequence (mark : Mark) (items : List Node)
  | mapping (mark : Mark) (entries : List (Node × Node))
  /-- A node with a local tag, given without its exclamation mark. -/
  | tagged (mark : Mark) (tag : String) (content : Node)
  | reference (target : Node)
  /-- The document of a text without content. -/
  | void (mark : Mark)
  | broken (fault : Fault)
  deriving Inhabited

namespace Outline

mutual

/-- The node of an outline, given the nodes of the anchors. -/
def resolve (targets : List (Nat × Node)) : Outline → Node
  | scalar mark tag style text => .scalar mark tag style text
  | sequence mark items => .sequence mark (resolveItems targets items)
  | mapping mark entries => .mapping mark (resolveEntries targets entries)
  | tagged mark tag content => .tagged mark tag (content.resolve targets)
  | anchored _ content => content.resolve targets
  | reference number =>
    match targets.lookup number with
    | some target => .reference target
    | none => .broken ⟨.unknownAnchor, .start, none⟩
  | void mark => .void mark
  | broken fault => .broken fault

def resolveItems (targets : List (Nat × Node)) : List Outline → List Node
  | [] => []
  | item :: items => item.resolve targets :: resolveItems targets items

def resolveEntries (targets : List (Nat × Node)) : List (Outline × Outline) → List (Node × Node)
  | [] => []
  | (key, value) :: entries =>
    (key.resolve targets, value.resolve targets) :: resolveEntries targets entries

end

/-- The nodes of the anchors, with aliases in aliases up to so many levels. -/
def targets (anchors : List (Nat × Outline)) : Nat → List (Nat × Node)
  | 0 => []
  | levels + 1 =>
    let inner := targets anchors levels
    anchors.map fun (number, content) => (number, content.resolve inner)

/-- The node of a whole document.  A number that several anchors have is that of the last one, also
for aliases before it. -/
def toNode (outline : Outline) : Node :=
  outline.resolve (targets outline.anchors.reverse depthLimit)

end Outline

/-- What a text holds: the first document, and what is wrong behind it. -/
structure Document where
  root : Node
  /-- How many aliases may be followed in reading the document. -/
  followLimit : Nat
  /-- A fault that shows only behind the document. -/
  fault : Option Fault := none
  /-- Whether something other than the end of the text follows. -/
  hasMore : Bool := false

/-- The document of a text.  Aliases may be followed a hundred times as often as it has events. -/
def compose (text : String) : Document :=
  let tokens := tokenize text
  let feed : Feed := { tokens := tokens.tokens, fault := tokens.fault }
  let (outline, rest) := composeRoot (4 * tokens.tokens.length + 8) feed
  let document : Document := { root := outline.toNode, followLimit := 100 * outline.events.1 }
  match rest with
  | none => document
  | some rest =>
    match rest.peek? with
    | none => { document with fault := some rest.endFault }
    | some ⟨.streamEnd, _, _⟩ => document
    | some token =>
      let rest := if token.isOneOf [.documentEnd] then rest.next else rest
      let rest := rest.tokens.dropWhile (·.isOneOf [.documentEnd])
      { document with hasMore := !rest.head?.any (·.isOneOf [.streamEnd]) }

end BuildPipeline.Yaml
