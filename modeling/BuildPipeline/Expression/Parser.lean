import BuildPipeline.Expression.Token
import BuildPipeline.Expression.Tree

/-!
# From tokens to trees

Binary operators bind in four levels, from `||` over `&&` and equality to comparison, and associate
to the left; then come `!`, brackets after a primary expression, and the primaries themselves.  A
comma may follow the last item of an array but not the last argument of a call.

Reading descends through the levels with a bound on the depth of the descent that no list of tokens
reaches.  A fault is located by the number of tokens before it; where a property name is missing
after a dot, the token in its place counts as one of them.
-/

namespace BuildPipeline.Expression

/-! ## Faults -/

inductive SyntaxFault where
  | emptyExpression
  | unexpectedToken (token : Option Token)
  | expectedBracket
  | expectedParen
  | expectedParenAfterArguments
  | expectedProperty
  | descentTooDeep
  deriving DecidableEq

def SyntaxFault.message : SyntaxFault → String
  | emptyExpression => "empty expression"
  | unexpectedToken (some token) => "unexpected token: " ++ token.text
  | unexpectedToken none => "unexpected token: end of expression"
  | expectedBracket => "expected ']'"
  | expectedParen => "expected ')'"
  | expectedParenAfterArguments => "expected ')' after arguments"
  | expectedProperty => "expected property name after '.'"
  | descentTooDeep => "expression is nested too deeply"

/-- A fault and the tokens left when it was met. -/
structure SyntaxStop where
  fault : SyntaxFault
  left : Nat
  deriving DecidableEq

/-- A fault and the number of tokens before it. -/
structure SyntaxError where
  fault : SyntaxFault
  position : Nat
  deriving DecidableEq

/-- The place of a fault in an expression of `count` tokens. -/
def SyntaxStop.locate (count : Nat) (stop : SyntaxStop) : SyntaxError where
  fault := stop.fault
  position := match stop.fault with
    | .expectedProperty => count - stop.left + 1
    | _ => count - stop.left

/-- Why a text is no expression. -/
inductive ReadError where
  | lexical (e : LexicalError)
  | grammatical (e : SyntaxError)
  deriving DecidableEq

def ReadError.message : ReadError → String
  | lexical e => "parse error at token " ++ toString e.offset ++ ": " ++ e.fault.message
  | grammatical e => "parse error at token " ++ toString e.position ++ ": " ++ e.fault.message

/-! ## Levels -/

/-- A level of binary operators. -/
inductive Level where
  | disjunction
  | conjunction
  | equality
  | comparison
  deriving DecidableEq, Repr

/-- From the loosest to the tightest. -/
def Level.all : List Level := [disjunction, conjunction, equality, comparison]

/-- The operator of a level that a token stands for. -/
def Level.operator? : Level → Token → Option BinaryOp
  | disjunction, .or => some .or
  | conjunction, .and => some .and
  | equality, .equal => some .equal
  | equality, .notEqual => some .notEqual
  | comparison, .less => some .less
  | comparison, .lessEqual => some .lessEqual
  | comparison, .greater => some .greater
  | comparison, .greaterEqual => some .greaterEqual
  | _, _ => none

/-! ## Reading -/

def stop {α : Type} (fault : SyntaxFault) (left : List Token) : Except SyntaxStop α :=
  .error ⟨fault, left.length⟩

/-- The tokens after an expected one. -/
def expect (token : Token) (fault : SyntaxFault) (tokens : List Token) :
    Except SyntaxStop (List Token) :=
  match tokens with
  | next :: rest => if next = token then .ok rest else .error ⟨fault, tokens.length⟩
  | [] => .error ⟨fault, 0⟩

mutual

/-- An expression of the first of these levels, the rest being tighter. -/
def readLevels : Nat → List Level → List Token → Except SyntaxStop (Expr × List Token)
  | 0, _, tokens => stop .descentTooDeep tokens
  | depth + 1, [], tokens => readUnary depth tokens
  | depth + 1, level :: tighter, tokens => do
    let (left, rest) ← readLevels depth tighter tokens
    readOperands depth level tighter left rest

/-- Further operands of a level, joined to the left one. -/
def readOperands :
    Nat → Level → List Level → Expr → List Token → Except SyntaxStop (Expr × List Token)
  | 0, _, _, _, tokens => stop .descentTooDeep tokens
  | _ + 1, _, _, left, [] => .ok (left, [])
  | depth + 1, level, tighter, left, token :: rest =>
    match level.operator? token with
    | none => .ok (left, token :: rest)
    | some op => do
      let (right, rest) ← readLevels depth tighter rest
      readOperands depth level tighter (.binary op left right) rest

def readUnary : Nat → List Token → Except SyntaxStop (Expr × List Token)
  | 0, tokens => stop .descentTooDeep tokens
  | depth + 1, .not :: rest => do
    let (operand, rest) ← readUnary depth rest
    .ok (.not operand, rest)
  | depth + 1, tokens => do
    let (object, rest) ← readPrimary depth tokens
    readIndexes depth object rest

/-- Brackets after a primary expression. -/
def readIndexes : Nat → Expr → List Token → Except SyntaxStop (Expr × List Token)
  | 0, _, tokens => stop .descentTooDeep tokens
  | depth + 1, object, .leftBracket :: rest => do
    let (key, rest) ← readLevels depth Level.all rest
    let rest ← expect .rightBracket .expectedBracket rest
    readIndexes depth (.index object key) rest
  | _ + 1, object, tokens => .ok (object, tokens)

def readPrimary : Nat → List Token → Except SyntaxStop (Expr × List Token)
  | 0, tokens => stop .descentTooDeep tokens
  | _ + 1, [] => stop (.unexpectedToken none) []
  | depth + 1, token :: rest =>
    match token with
    | .nullWord => .ok (.null, rest)
    | .trueWord => .ok (.bool true, rest)
    | .falseWord => .ok (.bool false, rest)
    | .number value => .ok (.number value, rest)
    | .string text => .ok (.string text, rest)
    | .identifier name =>
      match rest with
      | .leftParen :: .rightParen :: rest => .ok (.call name [], rest)
      | .leftParen :: rest => do
        let (arguments, rest) ← readArguments depth rest
        .ok (.call name arguments, rest)
      | rest => do
        let (path, rest) ← readPath depth rest
        .ok (.reference name path, rest)
    | .leftParen => do
      let (inner, rest) ← readLevels depth Level.all rest
      let rest ← expect .rightParen .expectedParen rest
      .ok (inner, rest)
    | .leftBracket => do
      let (items, rest) ← readItems depth rest
      .ok (.array items, rest)
    | other => stop (.unexpectedToken (some other)) (token :: rest)

/-- The properties and brackets after a leading name. -/
def readPath : Nat → List Token → Except SyntaxStop (List Accessor × List Token)
  | 0, tokens => stop .descentTooDeep tokens
  | depth + 1, .dot :: rest =>
    match rest with
    | .identifier name :: rest => do
      let (path, rest) ← readPath depth rest
      .ok (.property name :: path, rest)
    | rest => stop .expectedProperty rest
  | depth + 1, .leftBracket :: rest => do
    let (key, rest) ← readLevels depth Level.all rest
    let rest ← expect .rightBracket .expectedBracket rest
    let (path, rest) ← readPath depth rest
    .ok (.element key :: path, rest)
  | _ + 1, tokens => .ok ([], tokens)

/-- At least one argument, and the closing parenthesis. -/
def readArguments : Nat → List Token → Except SyntaxStop (List Expr × List Token)
  | 0, tokens => stop .descentTooDeep tokens
  | depth + 1, tokens => do
    let (argument, rest) ← readLevels depth Level.all tokens
    match rest with
    | .comma :: rest => do
      let (arguments, rest) ← readArguments depth rest
      .ok (argument :: arguments, rest)
    | rest => do
      let rest ← expect .rightParen .expectedParenAfterArguments rest
      .ok ([argument], rest)

/-- Array items up to the closing bracket, which a comma may precede. -/
def readItems : Nat → List Token → Except SyntaxStop (List Expr × List Token)
  | 0, tokens => stop .descentTooDeep tokens
  | _ + 1, .rightBracket :: rest => .ok ([], rest)
  | depth + 1, tokens => do
    let (item, rest) ← readLevels depth Level.all tokens
    match rest with
    | .comma :: rest => do
      let (items, rest) ← readItems depth rest
      .ok (item :: items, rest)
    | rest => do
      let rest ← expect .rightBracket .expectedBracket rest
      .ok ([item], rest)

end

/-- A descent takes at most eight calls per token, and eight more at the end. -/
def descentBound (tokens : List Token) : Nat :=
  8 * tokens.length + 8

/-- The expression that a list of tokens is. -/
def parseTokens (tokens : List Token) : Except SyntaxError Expr :=
  let reading : Except SyntaxStop Expr :=
    match tokens with
    | [] => .error ⟨.emptyExpression, 0⟩
    | tokens =>
      match readLevels (descentBound tokens) Level.all tokens with
      | .error e => .error e
      | .ok (expression, []) => .ok expression
      | .ok (_, token :: rest) => stop (.unexpectedToken (some token)) (token :: rest)
  reading.mapError (·.locate tokens.length)

/-- The expression that a text is. -/
def parse (text : String) : Except ReadError Expr :=
  match tokenize text with
  | .error e => .error (.lexical e)
  | .ok tokens => (parseTokens tokens).mapError .grammatical

end BuildPipeline.Expression
