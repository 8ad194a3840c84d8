import BuildPipeline.Text.Blank
import BuildPipeline.Text.Search

/-!
# Segments of a template text

A text is a sequence of plain stretches and of spans: `${{ expression }}` for expansion,
`$[ expression ]` for the moment a scope starts, and `$(name)` for the moment a step starts.  A span
ends at the first closing bracket outside single quotes that matches its opening one, braces not
being counted; an opening without a closing is plain text.
-/

namespace BuildPipeline.Expression

/-- A piece of a template text; the body of a span is without blanks around it. -/
inductive Segment where
  | plain (text : String)
  | expansion (body : String)
  | runtime (body : String)
  | variable (name : String)
  deriving DecidableEq, Repr

/-- The text before the first `}}` outside single quotes, and what follows those braces. -/
def closeBraces? (quoted : Bool) : List Char → Option (List Char × List Char)
  | [] => none
  | [_] => none
  | c :: next :: rest =>
    if !quoted && c == '\x7d' && next == '\x7d' then some ([], rest)
    else
      (closeBraces? (if c == '\'' then !quoted else quoted) (next :: rest)).map
        fun (body, after) => (c :: body, after)

/-- The text before the closing bracket that ends `depth + 1` open ones, and what follows it. -/
def closeBracket? (opening closing : Char) (depth : Nat) (quoted : Bool) :
    List Char → Option (List Char × List Char)
  | [] => none
  | c :: rest =>
    if !quoted && c == closing && depth == 0 then some ([], rest)
    else
      let depth :=
        if quoted then depth
        else if c == opening then depth + 1
        else if c == closing then depth - 1
        else depth
      (closeBracket? opening closing depth (if c == '\'' then !quoted else quoted) rest).map
        fun (body, after) => (c :: body, after)

def trimmedBody (body : List Char) : String :=
  String.ofList (Text.trimChars body)

/-- The span at the start of a text, and what follows it. -/
def openSpan? : List Char → Option (Segment × List Char)
  | '$' :: '\x7b' :: '\x7b' :: rest =>
    (closeBraces? false rest).map fun (body, after) => (.expansion (trimmedBody body), after)
  | '$' :: '[' :: rest =>
    (closeBracket? '[' ']' 0 false rest).map fun (body, after) =>
      (.runtime (trimmedBody body), after)
  | '$' :: '(' :: rest =>
    (closeBracket? '(' ')' 0 false rest).map fun (body, after) =>
      (.variable (trimmedBody body), after)
  | _ => none

/-- Put a character in front of the segments of what follows it. -/
def pushPlain (c : Char) : List Segment → List Segment
  | .plain text :: rest => .plain (String.ofList (c :: text.toList)) :: rest
  | segments => .plain (String.singleton c) :: segments

theorem closeBraces?_length {quoted : Bool} {text body after : List Char}
    (hclose : closeBraces? quoted text = some (body, after)) : after.length ≤ text.length := by
  induction text generalizing quoted body with
  | nil => simp [closeBraces?] at hclose
  | cons c rest ih =>
    cases rest with
    | nil => simp [closeBraces?] at hclose
    | cons next rest =>
      rw [closeBraces?] at hclose
      split at hclose
      · cases hclose
        simp only [List.length_cons]
        omega
      · obtain ⟨⟨inner, left⟩, hinner, heq⟩ := Option.map_eq_some_iff.1 hclose
        obtain ⟨-, rfl⟩ := Prod.mk.inj heq
        have := ih hinner
        simp only [List.length_cons] at this ⊢
        omega

theorem closeBracket?_length {opening closing : Char} {depth : Nat} {quoted : Bool}
    {text body after : List Char}
    (hclose : closeBracket? opening closing depth quoted text = some (body, after)) :
    after.length ≤ text.length := by
  induction text generalizing depth quoted body with
  | nil => simp [closeBracket?] at hclose
  | cons c rest ih =>
    rw [closeBracket?] at hclose
    split at hclose
    · cases hclose
      simp
    · obtain ⟨⟨inner, left⟩, hinner, heq⟩ := Option.map_eq_some_iff.1 hclose
      obtain ⟨-, rfl⟩ := Prod.mk.inj heq
      have := ih hinner
      simp only [List.length_cons]
      omega

theorem openSpan?_length {text after : List Char} {segment : Segment}
    (hopen : openSpan? text = some (segment, after)) : after.length < text.length := by
  unfold openSpan? at hopen
  split at hopen
  · obtain ⟨⟨body, left⟩, hclose, heq⟩ := Option.map_eq_some_iff.1 hopen
    obtain ⟨-, rfl⟩ := Prod.mk.inj heq
    have := closeBraces?_length hclose
    simp only [List.length_cons]
    omega
  · obtain ⟨⟨body, left⟩, hclose, heq⟩ := Option.map_eq_some_iff.1 hopen
    obtain ⟨-, rfl⟩ := Prod.mk.inj heq
    have := closeBracket?_length hclose
    simp only [List.length_cons]
    omega
  · obtain ⟨⟨body, left⟩, hclose, heq⟩ := Option.map_eq_some_iff.1 hopen
    obtain ⟨-, rfl⟩ := Prod.mk.inj heq
    have := closeBracket?_length hclose
    simp only [List.length_cons]
    omega
  · cases hopen

def segmentsOf (text : List Char) : List Segment :=
  match text with
  | [] => []
  | c :: rest =>
    match _hopen : openSpan? (c :: rest) with
    | some (segment, after) => segment :: segmentsOf after
    | none => pushPlain c (segmentsOf rest)
termination_by text.length
decreasing_by
  · exact openSpan?_length _hopen
  · simp

/-- The segments of a text, in order; plain ones are not empty and never adjacent. -/
def segments (text : String) : List Segment :=
  segmentsOf text.toList

/-- The expression of a text that is one expansion span between blanks. -/
def soleExpansion? (text : String) : Option String :=
  match segments (Text.trim text) with
  | [.expansion body] => some body
  | _ => none

/-- Whether a text has an expansion span. -/
def hasExpansion (text : String) : Bool :=
  (segments text).any fun segment =>
    match segment with
    | .expansion _ => true
    | _ => false

end BuildPipeline.Expression
