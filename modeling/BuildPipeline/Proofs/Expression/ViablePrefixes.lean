import BuildPipeline.Proofs.Expression.Embedding
import BuildPipeline.Proofs.Expression.PrintedTokens

/-!
# Where faults are located

A list of tokens that is no expression is refused at the first token that no expression goes on
with.  The reader looks one token ahead, so what it does with a list is settled by the tokens that
it takes and by the one behind them.

* `Foresees` says so of a reader, and that the tokens before a fault can be completed
  (`IsViable`).  It is kept when readers are put one behind the other: `Foresees.bind`.
* `foreseesAt` shows it for all readers of the language, by induction on the depth of the descent.
* `exists_split_of_refused` draws the conclusion for whole lists of tokens.
* `exists_isLexeme_of_readToken`: tokens that were read can be written down again, so the completed
  lists are those of texts.
* `offending_tokens_are_located`: a fault is located at the first token that is wrong, except where
  a property name is missing: there it is located one token later.
-/

namespace BuildPipeline.Expression

open Text

/-! ## Completions -/

/-- The tokens that complete what was read up to a fault. -/
def completions : List Token := [.nullWord, .identifier "x", .rightParen, .rightBracket]

/-- These tokens are the start of something that can be derived. -/
def IsViable {α : Type} (derives : List Token → α → Prop) (taken : List Token) : Prop :=
  ∃ us value, us ⊆ completions ∧ derives (taken ++ us) value

namespace IsViable

variable {α β : Type} {derives : List Token → α → Prop} {other : List Token → β → Prop}
  {taken front : List Token}

theorem of_derives {value : α} (hderives : derives taken value) : IsViable derives taken :=
  ⟨[], value, List.nil_subset _, by rwa [List.append_nil]⟩

/-- What stands around a viable part is viable if the rest of it is among the completions. -/
theorem wrap (hviable : IsViable derives taken) {close : List Token} (hclose : close ⊆ completions)
    (himp : ∀ us value, derives (taken ++ us) value →
      ∃ whole, other (front ++ (us ++ close)) whole) : IsViable other front := by
  obtain ⟨us, value, hsub, hderives⟩ := hviable
  obtain ⟨whole, hother⟩ := himp us value hderives
  exact ⟨us ++ close, whole, List.append_subset.mpr ⟨hsub, hclose⟩, hother⟩

theorem mono (hviable : IsViable derives taken)
    (himp : ∀ us value, derives (taken ++ us) value → ∃ whole, other (front ++ us) whole) :
    IsViable other front :=
  hviable.wrap (List.nil_subset _) fun us value hderives => by
    rw [List.append_nil]
    exact himp us value hderives

end IsViable

/-! ## One token ahead -/

/-- A reader of tokens with a bound on the depth of its descent. -/
abbrev Reader (α : Type) : Type :=
  Nat → List Token → Except SyntaxStop (α × List Token)

/-- At this depth and at every greater one, the reader takes these tokens and ends as the outcome
says, whatever follows the next token. -/
def Repeats {α : Type} (read : Reader α) (depth : Nat) (taken : List Token) (next : Option Token)
    (outcome : List Token → Except SyntaxStop (α × List Token)) : Prop :=
  ∀ deeper, depth ≤ deeper → ∀ rest, rest.head? = next → read deeper (taken ++ rest) = outcome rest

/-- What the reader does with the tokens is settled one token behind those that it takes, and the
tokens that it takes before a fault are viable. -/
inductive Foresees {α : Type} (viable : List Token → Prop) (read : Reader α) (depth : Nat) :
    List Token → Prop
  | value {taken rest : List Token} {value : α}
      (hrepeats : Repeats read depth taken rest.head? fun others => .ok (value, others)) :
      Foresees viable read depth (taken ++ rest)
  | fault {taken rest : List Token} {fault : SyntaxFault} (hviable : viable taken)
      (hrepeats : Repeats read depth taken rest.head? (stop fault)) :
      Foresees viable read depth (taken ++ rest)
  | deep {tokens : List Token} {left : Nat}
      (hdeep : read depth tokens = .error ⟨.descentTooDeep, left⟩) :
      Foresees viable read depth tokens

theorem head?_append_congr (front : List Token) {rest others : List Token}
    (hhead : others.head? = rest.head?) : (front ++ others).head? = (front ++ rest).head? := by
  rw [List.head?_append, List.head?_append, hhead]

namespace Repeats

variable {α : Type} {depth : Nat} {taken rest : List Token}
  {outcome : List Token → Except SyntaxStop (α × List Token)}

theorem behind {outer inner : Reader α} (hrepeats : Repeats inner depth taken rest.head? outcome)
    {front : List Token} (heq : ∀ deeper, depth ≤ deeper → ∀ others,
      others.head? = (taken ++ rest).head? → outer deeper (front ++ others) = inner deeper others) :
    Repeats outer depth (front ++ taken) rest.head? outcome := by
  intro deeper hdeeper others hhead
  rw [List.append_assoc, heq deeper hdeeper _ (head?_append_congr taken hhead),
    hrepeats deeper hdeeper others hhead]

theorem succ {outer inner : Reader α} (hrepeats : Repeats inner depth taken rest.head? outcome)
    (heq : ∀ deeper others, others.head? = (taken ++ rest).head? →
      outer (deeper + 1) others = inner deeper others) :
    Repeats outer (depth + 1) taken rest.head? outcome := by
  intro deeper hdeeper others hhead
  obtain ⟨deeper, rfl⟩ := Nat.exists_eq_add_of_le' (Nat.one_le_of_lt hdeeper)
  rw [heq _ _ (head?_append_congr taken hhead),
    hrepeats deeper (Nat.le_of_succ_le_succ hdeeper) others hhead]

end Repeats

/-- A reader that goes on where another one has read something. -/
def Reader.bind {α β : Type} (first : Reader α) (next : α → Reader β) : Reader β :=
  fun depth tokens => do
    let (value, rest) ← first depth tokens
    next value depth rest

def Reader.map {α β : Type} (f : α → β) (read : Reader α) : Reader β :=
  read.bind fun value _ rest => .ok (f value, rest)

/-- A reader behind a token that must come first. -/
def Reader.expecting {α : Type} (token : Token) (fault : SyntaxFault) (next : Reader α) :
    Reader α :=
  fun depth tokens => do
    let rest ← expect token fault tokens
    next depth rest

/-- A reader of the items behind one that was read: of further ones behind a comma, or of none
before the token that closes them. -/
def Reader.separated (close : Token) (fault : SyntaxFault) (further : Reader (List Expr))
    (item : Expr) : Reader (List Expr) :=
  fun depth tokens =>
    match tokens with
    | .comma :: rest => further.map (item :: ·) depth rest
    | rest => Reader.expecting close fault (fun _ rest => .ok ([item], rest)) depth rest

namespace Foresees

variable {α β : Type} {viable before : List Token → Prop} {depth : Nat} {tokens : List Token}

theorem mono {other : List Token → Prop} {read : Reader α}
    (hforesees : Foresees viable read depth tokens) (himp : ∀ taken, viable taken → other taken) :
    Foresees other read depth tokens := by
  cases hforesees with
  | value hrepeats => exact .value hrepeats
  | fault hviable hrepeats => exact .fault (himp _ hviable) hrepeats
  | deep hdeep => exact .deep hdeep

/-- A reader that takes some tokens first and goes on as another one. -/
theorem behind {outer inner : Reader α} (front : List Token)
    (hforesees : Foresees (fun taken => viable (front ++ taken)) inner depth tokens)
    (heq : ∀ deeper, depth ≤ deeper → ∀ others, others.head? = tokens.head? →
      outer deeper (front ++ others) = inner deeper others) :
    Foresees viable outer depth (front ++ tokens) := by
  cases hforesees with
  | value hrepeats => exact List.append_assoc .. ▸ .value (hrepeats.behind heq)
  | fault hviable hrepeats => exact List.append_assoc .. ▸ .fault hviable (hrepeats.behind heq)
  | deep hdeep => exact .deep ((heq depth (Nat.le_refl depth) tokens rfl).trans hdeep)

/-- A reader that goes on as another one, one step down. -/
theorem succ {outer inner : Reader α} (hforesees : Foresees viable inner depth tokens)
    (heq : ∀ deeper others, others.head? = tokens.head? →
      outer (deeper + 1) others = inner deeper others) :
    Foresees viable outer (depth + 1) tokens := by
  cases hforesees with
  | value hrepeats => exact .value (hrepeats.succ heq)
  | fault hviable hrepeats => exact .fault hviable (hrepeats.succ heq)
  | deep hdeep => exact .deep ((heq depth tokens rfl).trans hdeep)

theorem succ_behind {outer inner : Reader α} (front : List Token)
    (hforesees : Foresees (fun taken => viable (front ++ taken)) inner depth tokens)
    (heq : ∀ deeper others, others.head? = tokens.head? →
      outer (deeper + 1) (front ++ others) = inner deeper others) :
    Foresees viable outer (depth + 1) (front ++ tokens) :=
  have hbehind : Foresees viable (fun deeper => outer (deeper + 1)) depth (front ++ tokens) :=
    hforesees.behind front fun deeper _ others hhead => heq deeper others hhead
  hbehind.succ fun _ _ _ => rfl

theorem ok (value : α) : Foresees viable (fun _ rest => .ok (value, rest)) depth tokens :=
  have hrepeats : Repeats (fun _ rest => .ok (value, rest)) depth [] tokens.head?
      fun rest => .ok (value, rest) := fun _ _ _ _ => rfl
  .value hrepeats

theorem stop (fault : SyntaxFault) (hviable : viable []) :
    Foresees viable (fun _ => Expression.stop fault : Reader α) depth tokens :=
  have hrepeats : Repeats (fun _ => Expression.stop fault : Reader α) depth [] tokens.head?
      (Expression.stop fault) := fun _ _ _ _ => rfl
  .fault hviable hrepeats

theorem bind {first : Reader α} {next : α → Reader β} (hfirst : Foresees before first depth tokens)
    (hbefore : ∀ taken, before taken → viable taken)
    (hnext : ∀ value taken rest, tokens = taken ++ rest → first depth tokens = .ok (value, rest) →
      Foresees (fun further => viable (taken ++ further)) (next value) depth rest) :
    Foresees viable (first.bind next) depth tokens := by
  cases hfirst with
  | @value taken rest value hrepeats =>
      have hread := hrepeats depth (Nat.le_refl depth) rest rfl
      -- All tokens that go on as these do come to the second reader.
      refine (hnext value taken rest rfl hread).behind taken fun deeper hdeeper others hhead => ?_
      rw [Reader.bind, hrepeats deeper hdeeper others hhead]
      rfl
  | @fault taken rest fault hviable hrepeats =>
      have hstops : Repeats (first.bind next) depth taken rest.head? (Expression.stop fault) := by
        intro deeper hdeeper others hhead
        rw [Reader.bind, hrepeats deeper hdeeper others hhead]
        rfl
      exact .fault (hbefore taken hviable) hstops
  | @deep _ left hdeep =>
      have hstops : first.bind next depth tokens = .error ⟨.descentTooDeep, left⟩ := by
        rw [Reader.bind, hdeep]
        rfl
      exact .deep hstops

theorem map {f : α → β} {read : Reader α} (hread : Foresees before read depth tokens)
    (hbefore : ∀ taken, before taken → viable taken) :
    Foresees viable (read.map f) depth tokens :=
  hread.bind hbefore fun value _ _ _ _ => .ok (f value)

theorem expecting {next : Reader α} {token : Token} {fault : SyntaxFault} (hviable : viable [])
    (hnext : ∀ rest, Foresees (fun taken => viable (token :: taken)) next depth rest) :
    Foresees viable (Reader.expecting token fault next) depth tokens := by
  by_cases hhead : tokens.head? = some token
  · obtain ⟨rest, rfl⟩ := List.head?_eq_some_iff.mp hhead
    refine (hnext rest).behind [token] fun deeper _ others _ => ?_
    rw [Reader.expecting, List.singleton_append, expect_self]
    rfl
  · refine (Foresees.stop fault hviable).behind [] fun deeper _ others heq => ?_
    rw [Reader.expecting, List.nil_append]
    cases others with
    | nil => rfl
    | cons other rest =>
        rw [← heq, List.head?_cons, Option.some.injEq] at hhead
        rw [expect, if_neg hhead]
        rfl

end Foresees

/-! ## The readers of the language -/

/-- What all readers foresee at a depth. -/
structure ForeseesAt (depth : Nat) : Prop where
  levels : ∀ (levels : List Level) (tokens : List Token),
    Foresees (IsViable (Derives levels)) (readLevels · levels ·) depth tokens
  operands : ∀ {level : Level} {tighter : List Level} {front : List Token} {left : Expr},
    Derives (level :: tighter) front left → ∀ tokens,
      Foresees (fun taken => IsViable (Derives (level :: tighter)) (front ++ taken))
        (readOperands · level tighter left ·) depth tokens
  unary : ∀ tokens, Foresees (IsViable DerivesUnary) readUnary depth tokens
  indexes : ∀ {front : List Token} {object : Expr}, DerivesIndexed front object → ∀ tokens,
    Foresees (fun taken => IsViable DerivesIndexed (front ++ taken)) (readIndexes · object ·) depth
      tokens
  /-- A reference is no primary expression of the grammar, but the reader takes it for one. -/
  primary : ∀ tokens, Foresees (IsViable DerivesUnary) readPrimary depth tokens
  path : ∀ tokens, Foresees (IsViable DerivesPath) readPath depth tokens
  arguments : ∀ tokens, Foresees (IsViable DerivesList) readArguments depth tokens
  items : ∀ tokens, Foresees (IsViable DerivesList) readItems depth tokens

theorem derives_of_readLevels {depth : Nat} {levels : List Level} {tokens taken rest : List Token}
    {e : Expr} (htokens : tokens = taken ++ rest)
    (hread : readLevels depth levels tokens = .ok (e, rest)) : Derives levels taken e := by
  obtain ⟨ts, hts, hderives⟩ := (soundTo depth).levels hread
  rwa [List.append_cancel_right (htokens.symm.trans hts)]

theorem derivesUnary_null : DerivesUnary [.nullWord] .null :=
  .indexed (.primary .null)

theorem derives_null (levels : List Level) : Derives levels [.nullWord] .null := by
  induction levels with
  | nil => exact .unary derivesUnary_null
  | cons level tighter ih => exact .tighter ih

theorem rightBracket_subset : [Token.rightBracket] ⊆ completions := by simp [completions]

theorem rightParen_subset : [Token.rightParen] ⊆ completions := by simp [completions]

/-- Where no operator of the level follows, the operand is all there is. -/
theorem readOperands_of_head?_eq_none {depth : Nat} {level : Level} {tighter : List Level}
    {left : Expr} {tokens : List Token}
    (hnone : ∀ token ∈ tokens.head?, level.operator? token = none) :
    readOperands (depth + 1) level tighter left tokens = .ok (left, tokens) := by
  cases tokens with
  | nil => rw [readOperands]
  | cons token rest => simp only [readOperands, hnone token rfl]

theorem isViable_nil : IsViable DerivesUnary [] :=
  ⟨[.nullWord], .null, by simp [completions], derivesUnary_null⟩

/-- A token that starts no primary expression is wrong whatever follows it. -/
theorem foresees_unexpected {depth : Nat} {token : Token} {rest : List Token}
    (hstop : ∀ deeper others, readPrimary (deeper + 1) (token :: others) =
      stop (.unexpectedToken (some token)) (token :: others)) :
    Foresees (IsViable DerivesUnary) readPrimary (depth + 1) (token :: rest) := by
  refine Foresees.succ (.stop (.unexpectedToken (some token)) isViable_nil)
    fun deeper others hhead => ?_
  obtain ⟨further, rfl⟩ := List.head?_eq_some_iff.mp hhead
  exact hstop deeper further

namespace ForeseesAt

variable {depth : Nat} (hforesees : ForeseesAt depth)

include hforesees

theorem succ_levels (levels : List Level) (tokens : List Token) :
    Foresees (IsViable (Derives levels)) (readLevels · levels ·) (depth + 1) tokens := by
  cases levels with
  | nil =>
      have hunary : Foresees (IsViable (Derives [])) readUnary depth tokens :=
        (hforesees.unary tokens).mono fun _ hviable => hviable.mono fun _ e h => ⟨e, .unary h⟩
      exact hunary.succ fun _ _ _ => readLevels.eq_2 ..
  | cons level tighter =>
      have hboth : Foresees (IsViable (Derives (level :: tighter)))
          (Reader.bind (readLevels · tighter ·) fun left => (readOperands · level tighter left ·))
          depth tokens := by
        refine (hforesees.levels tighter tokens).bind ?_ ?_
        · exact fun taken hviable => hviable.mono fun _ e h => ⟨e, .tighter h⟩
        · intro left taken rest htokens hread
          exact hforesees.operands (.tighter (derives_of_readLevels htokens hread)) rest
      exact hboth.succ fun _ _ _ => readLevels.eq_3 ..

theorem succ_operands {level : Level} {tighter : List Level} {front : List Token} {left : Expr}
    (hleft : Derives (level :: tighter) front left) (tokens : List Token) :
    Foresees (fun taken => IsViable (Derives (level :: tighter)) (front ++ taken))
      (readOperands · level tighter left ·) (depth + 1) tokens := by
  by_cases hnone : ∀ token ∈ tokens.head?, level.operator? token = none
  · refine (Foresees.ok left).succ fun deeper others hhead => ?_
    exact readOperands_of_head?_eq_none (hhead ▸ hnone)
  · push Not at hnone
    obtain ⟨token, hhead, hsome⟩ := hnone
    obtain ⟨rest, rfl⟩ := List.head?_eq_some_iff.mp hhead
    obtain ⟨op, hop⟩ := Option.ne_none_iff_exists'.mp hsome
    have hjoins := Level.operator?_eq_some_iff.mp hop
    have hboth : Foresees
        (fun taken => IsViable (Derives (level :: tighter)) (front ++ ([token] ++ taken)))
        (Reader.bind (readLevels · tighter ·)
          fun right => (readOperands · level tighter (.binary op left right) ·)) depth rest := by
      refine (hforesees.levels tighter rest).bind ?_ ?_
      · exact fun taken hviable => hviable.mono fun us right hright =>
          ⟨_, by simpa using Derives.binary hleft hjoins hright⟩
      · intro right taken further htokens hread
        -- All that was taken so far is the left operand of what may follow.
        have hjoined := Derives.binary hleft hjoins (derives_of_readLevels htokens hread)
        exact (hforesees.operands hjoined further).mono fun _ hviable => by simpa using hviable
    refine hboth.succ_behind [token] fun deeper others _ => ?_
    rw [List.singleton_append, readOperands, hop]
    rfl

theorem succ_unary (tokens : List Token) :
    Foresees (IsViable DerivesUnary) readUnary (depth + 1) tokens := by
  by_cases hnot : tokens.head? = some .not
  · obtain ⟨rest, rfl⟩ := List.head?_eq_some_iff.mp hnot
    have hoperand : Foresees (fun taken => IsViable DerivesUnary ([.not] ++ taken))
        (Reader.map Expr.not readUnary) depth rest :=
      (hforesees.unary rest).map fun _ hviable => hviable.mono fun _ e h => ⟨.not e, .not h⟩
    exact hoperand.succ_behind [.not] fun _ _ _ => readUnary.eq_2 ..
  · have hboth : Foresees (IsViable DerivesUnary)
        (Reader.bind readPrimary fun object => (readIndexes · object ·)) depth tokens := by
      refine (hforesees.primary tokens).bind (fun _ hviable => hviable) ?_
      intro object taken rest htokens hread
      obtain ⟨ts, hts, hobject⟩ := (soundTo depth).primary hread
      obtain rfl := List.append_cancel_right (htokens.symm.trans hts)
      rcases hobject with hprimary | ⟨-, hbracket⟩
      · refine (hforesees.indexes (.primary hprimary) rest).mono fun _ hviable => ?_
        exact hviable.mono fun _ e h => ⟨e, .indexed h⟩
      · -- A reference has taken all brackets itself.
        cases depth with
        | zero => cases hread
        | succ depth =>
            refine (Foresees.ok object).succ fun deeper others heq => ?_
            exact readIndexes_of_head?_ne (heq ▸ hbracket)
    refine hboth.succ fun deeper others hhead => readUnary.eq_3 _ _ ?_
    rintro rest rfl
    exact hnot hhead.symm

/-- An expression and the token that closes it, with what is read behind them. -/
theorem closed {β : Type} {viable : List Token → Prop} {close : Token} {fault : SyntaxFault}
    {next : Expr → Reader β}
    (hinside : ∀ taken, IsViable (Derives Level.all) taken → viable taken)
    (hbehind : ∀ e taken, Derives Level.all taken e → ∀ rest,
      Foresees (fun further => viable (taken ++ close :: further)) (next e) depth rest)
    (tokens : List Token) :
    Foresees viable (Reader.bind (readLevels · Level.all ·)
      fun e => Reader.expecting close fault (next e)) depth tokens := by
  refine (hforesees.levels Level.all tokens).bind hinside fun e taken rest htokens hread => ?_
  have hderives := derives_of_readLevels htokens hread
  refine .expecting (hinside _ ?_) (hbehind e taken hderives)
  exact .of_derives (by rwa [List.append_nil])

theorem succ_indexes {front : List Token} {object : Expr} (hobject : DerivesIndexed front object)
    (tokens : List Token) :
    Foresees (fun taken => IsViable DerivesIndexed (front ++ taken)) (readIndexes · object ·)
      (depth + 1) tokens := by
  by_cases hbracket : tokens.head? = some .leftBracket
  · obtain ⟨rest, rfl⟩ := List.head?_eq_some_iff.mp hbracket
    have hkeyed : Foresees
        (fun taken => IsViable DerivesIndexed (front ++ ([.leftBracket] ++ taken)))
        (Reader.bind (readLevels · Level.all ·) fun key =>
          Reader.expecting .rightBracket .expectedBracket (readIndexes · (.index object key) ·))
        depth rest := by
      refine hforesees.closed (fun taken hviable => ?_) (fun key taken hkey rest => ?_) rest
      · exact hviable.wrap rightBracket_subset fun us key hkey =>
          ⟨_, by simpa using DerivesIndexed.index hobject hkey⟩
      · refine (hforesees.indexes (.index hobject hkey) rest).mono fun _ hviable => ?_
        simpa using hviable
    exact hkeyed.succ_behind [.leftBracket] fun _ _ _ => readIndexes.eq_2 ..
  · exact (Foresees.ok object).succ fun _ _ hhead => readIndexes_of_head?_ne (hhead ▸ hbracket)

theorem succ_path (tokens : List Token) :
    Foresees (IsViable DerivesPath) readPath (depth + 1) tokens := by
  by_cases hdot : tokens.head? = some .dot
  · obtain ⟨rest, rfl⟩ := List.head?_eq_some_iff.mp hdot
    by_cases hname : ∃ name others, rest = .identifier name :: others
    · obtain ⟨name, others, rfl⟩ := hname
      have hproperty : Foresees
          (fun taken => IsViable DerivesPath ([.dot, .identifier name] ++ taken))
          (Reader.map (Accessor.property name :: ·) readPath) depth others :=
        (hforesees.path others).map fun _ hviable =>
          hviable.mono fun _ path hpath => ⟨_, .property hpath⟩
      exact hproperty.succ_behind [.dot, .identifier name] fun _ _ _ => readPath.eq_2 ..
    · -- Any name would do, so the dot is viable and what is behind it is not.
      have hviable : IsViable DerivesPath ([.dot] ++ []) :=
        ⟨[.identifier "x"], _, by simp [completions], .property .nil⟩
      have hstop : Foresees (fun taken => IsViable DerivesPath ([.dot] ++ taken))
          (fun _ => stop .expectedProperty : Reader (List Accessor)) depth rest :=
        .stop .expectedProperty hviable
      refine hstop.succ_behind [.dot] fun deeper others hhead => ?_
      refine readPath.eq_3 _ _ ?_
      rintro name further rfl
      exact hname ⟨name, List.head?_eq_some_iff.mp hhead.symm⟩
  · by_cases hbracket : tokens.head? = some .leftBracket
    · obtain ⟨rest, rfl⟩ := List.head?_eq_some_iff.mp hbracket
      have hkeyed : Foresees (fun taken => IsViable DerivesPath ([.leftBracket] ++ taken))
          (Reader.bind (readLevels · Level.all ·) fun key =>
            Reader.expecting .rightBracket .expectedBracket
              (Reader.map (Accessor.element key :: ·) readPath)) depth rest := by
        refine hforesees.closed (fun taken hviable => ?_) (fun key taken hkey rest => ?_) rest
        · exact hviable.wrap rightBracket_subset fun us key hkey =>
            ⟨_, by simpa using DerivesPath.element hkey .nil⟩
        · refine (hforesees.path rest).map fun _ hviable => hviable.mono fun us path hpath => ?_
          exact ⟨_, by simpa using DerivesPath.element hkey hpath⟩
      exact hkeyed.succ_behind [.leftBracket] fun _ _ _ => readPath.eq_4 ..
    · refine (Foresees.ok []).succ fun deeper others hhead => readPath.eq_5 _ _ ?_ ?_
      · rintro rest rfl
        exact hdot hhead.symm
      · rintro rest rfl
        exact hbracket hhead.symm

theorem separated (close : Token) (fault : SyntaxFault) {further : Reader (List Expr)}
    (hfurther : ∀ tokens, Foresees (IsViable DerivesList) further depth tokens)
    (tokens : List Token) :
    Foresees (IsViable DerivesList)
      (Reader.bind (readLevels · Level.all ·) (Reader.separated close fault further)) depth
      tokens := by
  refine (hforesees.levels Level.all tokens).bind ?_ fun item taken rest htokens hread => ?_
  · exact fun _ hviable => hviable.mono fun _ e hitem => ⟨[e], .last hitem⟩
  · have hitem := derives_of_readLevels htokens hread
    by_cases hcomma : rest.head? = some .comma
    · obtain ⟨others, rfl⟩ := List.head?_eq_some_iff.mp hcomma
      have hitems : Foresees (fun more => IsViable DerivesList (taken ++ ([.comma] ++ more)))
          (Reader.map (item :: ·) further) depth others :=
        (hfurther others).map fun _ hviable => hviable.mono fun us items hitems =>
          ⟨_, by simpa using DerivesList.cons hitem hitems⟩
      exact hitems.behind [.comma] fun _ _ _ _ => rfl
    · -- The items that were read need no completion but the token that closes them.
      have hlast : IsViable DerivesList (taken ++ []) :=
        .of_derives (by rw [List.append_nil]; exact .last hitem)
      have hclose : Foresees (fun more => IsViable DerivesList (taken ++ more))
          (Reader.expecting close fault fun _ rest => .ok ([item], rest)) depth rest :=
        .expecting hlast fun _ => .ok [item]
      refine hclose.behind [] fun deeper _ others hhead => Reader.separated.eq_2 _ _ _ _ _ _ ?_
      rintro further rfl
      exact hcomma hhead.symm

theorem succ_arguments (tokens : List Token) :
    Foresees (IsViable DerivesList) readArguments (depth + 1) tokens := by
  have hitems :=
    hforesees.separated .rightParen .expectedParenAfterArguments hforesees.arguments tokens
  refine hitems.succ fun deeper others _ => ?_
  rw [readArguments]
  rfl

theorem succ_items (tokens : List Token) :
    Foresees (IsViable DerivesList) readItems (depth + 1) tokens := by
  by_cases hbracket : tokens.head? = some .rightBracket
  · obtain ⟨rest, rfl⟩ := List.head?_eq_some_iff.mp hbracket
    exact (Foresees.ok []).succ_behind [.rightBracket] fun _ _ _ => readItems.eq_2 ..
  · have hitems := hforesees.separated .rightBracket .expectedBracket hforesees.items tokens
    refine hitems.succ fun deeper others hhead => ?_
    rw [readItems.eq_3]
    · rfl
    · rintro rest rfl
      exact hbracket hhead.symm

/-- A name is the start of a call or of a reference. -/
theorem succ_name (name : String) (tokens : List Token) :
    Foresees (IsViable DerivesUnary) readPrimary (depth + 1) (.identifier name :: tokens) := by
  by_cases hparen : tokens.head? = some .leftParen
  · obtain ⟨rest, rfl⟩ := List.head?_eq_some_iff.mp hparen
    by_cases hempty : rest.head? = some .rightParen
    · obtain ⟨others, rfl⟩ := List.head?_eq_some_iff.mp hempty
      exact (Foresees.ok (.call name [])).succ_behind
        [.identifier name, .leftParen, .rightParen] fun _ _ _ => rfl
    · have hcall : Foresees
          (fun taken => IsViable DerivesUnary ([.identifier name, .leftParen] ++ taken))
          (Reader.map (Expr.call name) readArguments) depth rest :=
        (hforesees.arguments rest).map fun _ hviable =>
          hviable.wrap rightParen_subset fun us arguments harguments =>
            ⟨_, .indexed (.primary (by simpa using DerivesPrimary.call harguments))⟩
      refine hcall.succ_behind [.identifier name, .leftParen] fun deeper others hhead =>
        readPrimary.eq_9 _ _ _ ?_
      rintro further rfl
      exact hempty hhead.symm
  · have hreference : Foresees (fun taken => IsViable DerivesUnary ([.identifier name] ++ taken))
        (Reader.map (Expr.reference name) readPath) depth tokens :=
      (hforesees.path tokens).map fun _ hviable =>
        hviable.mono fun _ path hpath => ⟨_, .reference hpath⟩
    refine hreference.succ_behind [.identifier name] fun deeper others hhead =>
      readPrimary.eq_10 _ _ _ ?_ ?_
    · rintro further rfl
      exact hparen hhead.symm
    · rintro further rfl
      exact hparen hhead.symm

theorem succ_primary (tokens : List Token) :
    Foresees (IsViable DerivesUnary) readPrimary (depth + 1) tokens := by
  cases tokens with
  | nil =>
      refine (Foresees.stop (.unexpectedToken none) isViable_nil).succ fun deeper others hhead => ?_
      rw [List.head?_eq_none_iff.mp hhead]
      rfl
  | cons token rest =>
      cases token with
      | nullWord => exact (Foresees.ok .null).succ_behind [.nullWord] fun _ _ _ => rfl
      | trueWord => exact (Foresees.ok (.bool true)).succ_behind [.trueWord] fun _ _ _ => rfl
      | falseWord => exact (Foresees.ok (.bool false)).succ_behind [.falseWord] fun _ _ _ => rfl
      | number value =>
          exact (Foresees.ok (.number value)).succ_behind [.number value] fun _ _ _ => rfl
      | string text =>
          exact (Foresees.ok (.string text)).succ_behind [.string text] fun _ _ _ => rfl
      | identifier name => exact hforesees.succ_name name rest
      | leftParen =>
          have hinner : Foresees (fun taken => IsViable DerivesUnary ([.leftParen] ++ taken))
              (Reader.bind (readLevels · Level.all ·) fun inner =>
                Reader.expecting .rightParen .expectedParen fun _ rest => .ok (inner, rest))
              depth rest := by
            refine hforesees.closed (fun taken hviable => ?_) (fun e _ _ _ => .ok e) rest
            exact hviable.wrap rightParen_subset fun us e hinner =>
              ⟨e, .indexed (.primary (by simpa using DerivesPrimary.parens hinner))⟩
          exact hinner.succ_behind [.leftParen] fun _ _ _ => readPrimary.eq_11 ..
      | leftBracket =>
          have hitems : Foresees (fun taken => IsViable DerivesUnary ([.leftBracket] ++ taken))
              (Reader.map Expr.array readItems) depth rest :=
            (hforesees.items rest).map fun _ hviable =>
              hviable.wrap rightBracket_subset fun us items hitems =>
                ⟨_, .indexed (.primary (by simpa using DerivesPrimary.array hitems))⟩
          exact hitems.succ_behind [.leftBracket] fun _ _ _ => readPrimary.eq_12 ..
      | _ => exact foresees_unexpected fun _ _ => rfl

end ForeseesAt

theorem foreseesAt (depth : Nat) : ForeseesAt depth := by
  induction depth with
  | zero => constructor <;> intros <;> exact .deep rfl
  | succ depth ih =>
      exact ⟨ih.succ_levels, ih.succ_operands, ih.succ_unary, ih.succ_indexes, ih.succ_primary,
        ih.succ_path, ih.succ_arguments, ih.succ_items⟩

/-! ## Whole lists -/

theorem Derives.readLevels_eq {ts : List Token} {e : Expr} (hderives : Derives Level.all ts e)
    {depth : Nat} (hdepth : 8 * ts.length ≤ depth) :
    readLevels depth Level.all ts = .ok (e, []) := by
  have hread := (hderives.readsOn Level.nodup_all).reads hderives.isStart
    (show _ ≤ depth + 4 from Nat.add_le_add_right hdepth 4) (ends_nil Level.all)
  rwa [List.append_nil] at hread

/-- If a reader repeats an outcome that is no expression of the whole list, no list that goes on in
this way is an expression. -/
theorem not_derives_of_repeats {depth : Nat} {taken : List Token} {next : Option Token}
    {outcome : List Token → Except SyntaxStop (Expr × List Token)}
    (hrepeats : Repeats (readLevels · Level.all ·) depth taken next outcome)
    (houtcome : ∀ others e, others.head? = next → outcome others ≠ .ok (e, []))
    {others : List Token} (hhead : others.head? = next) (e : Expr) :
    ¬ Derives Level.all (taken ++ others) e := by
  intro hderives
  let deeper := max depth (8 * (taken ++ others).length)
  have hagain : readLevels deeper Level.all (taken ++ others) = outcome others :=
    hrepeats deeper (le_max_left ..) others hhead
  rw [hderives.readLevels_eq (le_max_right ..)] at hagain
  exact houtcome others e hhead hagain.symm

theorem exists_split_of_refused {tokens : List Token} {error : SyntaxStop}
    (herror : readWhole tokens = .error error) :
    ∃ taken rest, tokens = taken ++ rest ∧ error.left = rest.length ∧
      IsViable (Derives Level.all) taken ∧
      ∀ others, others.head? = rest.head? → ∀ e, ¬ Derives Level.all (taken ++ others) e := by
  have hforesees := (foreseesAt (descentBound tokens)).levels Level.all tokens
  have hsettled := isSettled_readWhole tokens error herror
  rw [readWhole] at herror
  generalize descentBound tokens = depth at hforesees herror
  cases hforesees with
  | @value taken rest e hrepeats =>
      have hread : readLevels depth Level.all (taken ++ rest) = .ok (e, rest) :=
        hrepeats depth (Nat.le_refl depth) rest rfl
      have hderives := derives_of_readLevels rfl hread
      rw [hread] at herror
      cases rest with
      | nil => cases herror
      | cons token further =>
          cases herror
          refine ⟨taken, token :: further, rfl, rfl, ?_, fun others hhead =>
            not_derives_of_repeats hrepeats ?_ hhead⟩
          · exact .of_derives hderives
          · rintro others e hhead heq
            cases heq
            cases hhead
  | @fault taken rest fault hviable hrepeats =>
      have hread : readLevels depth Level.all (taken ++ rest) = stop fault rest :=
        hrepeats depth (Nat.le_refl depth) rest rfl
      rw [hread] at herror
      cases herror
      refine ⟨taken, rest, rfl, rfl, hviable, fun others hhead =>
        not_derives_of_repeats hrepeats ?_ hhead⟩
      intro others e hhead heq
      cases heq
  | deep hdeep =>
      rw [hdeep] at herror
      cases herror
      exact absurd rfl hsettled

theorem SyntaxStop.locate_position (count : Nat) (stop : SyntaxStop) :
    (stop.locate count).position =
      if (stop.locate count).fault = .expectedProperty then count - stop.left + 1
      else count - stop.left := by
  obtain ⟨fault, left⟩ := stop
  cases fault <;> rfl

/-- A fault is located behind tokens that can be completed and before one that cannot follow them,
except for a property that is missing. -/
theorem exists_split_of_parseTokens {tokens : List Token} {error : SyntaxError}
    (herror : parseTokens tokens = .error error) :
    ∃ taken rest, tokens = taken ++ rest ∧ IsViable (Derives Level.all) taken ∧
      (∀ others, others.head? = rest.head? → ∀ e, ¬ Derives Level.all (taken ++ others) e) ∧
      error.position =
        if error.fault = .expectedProperty then taken.length + 1 else taken.length := by
  by_cases hne : tokens = []
  · subst hne
    cases herror
    refine ⟨[], [], rfl, ⟨[.nullWord], .null, by simp [completions], derives_null _⟩, ?_, rfl⟩
    intro others hhead e hderives
    rw [List.head?_eq_none_iff.mp hhead] at hderives
    exact absurd hderives.isStart.length_pos (Nat.lt_irrefl 0)
  · rw [parseTokens_eq_readWhole hne] at herror
    cases hread : readWhole tokens with
    | ok e => rw [hread] at herror; cases herror
    | error stop =>
        rw [hread] at herror
        cases herror
        obtain ⟨taken, rest, rfl, hleft, hviable, hrefused⟩ := exists_split_of_refused hread
        refine ⟨taken, rest, rfl, hviable, hrefused, ?_⟩
        rw [SyntaxStop.locate_position, hleft, List.length_append, Nat.add_sub_cancel]

/-! ## What was read can be written -/

theorem exists_isLexeme_of_readOperator {second : Char} {joined : Token}
    {alone : Except LexicalFault Token} {token : Token} {rest after : List Char}
    (hjoined : joined.isFixed = true)
    (halone : ∀ single, alone = .ok single → single.isFixed = true)
    (hread : readOperator second joined alone rest = .ok (token, after)) :
    ∃ lexeme, IsLexeme token lexeme := by
  rcases exists_of_readOperator hread with ⟨rfl, -⟩ | ⟨hsingle, -⟩
  · exact ⟨_, isLexeme_text hjoined⟩
  · exact ⟨_, isLexeme_text (halone token hsingle)⟩

theorem exists_isLexeme_of_readToken {c : Char} {rest after : List Char} {token : Token}
    (hread : readToken c rest = .ok (token, after)) : ∃ lexeme, IsLexeme token lexeme := by
  unfold readToken at hread
  split at hread
  case h_1 | h_2 | h_3 | h_4 | h_5 | h_6 => cases hread; exact ⟨_, isLexeme_text rfl⟩
  case h_7 | h_8 | h_9 | h_10 | h_11 | h_12 =>
      exact exists_isLexeme_of_readOperator rfl (by simp [Token.isFixed]) hread
  case h_13 =>
      split at hread
      case h_1 => cases hread; exact ⟨_, isLexeme_quoted _⟩
      case h_2 => cases hread
  case h_14 =>
      split at hread
      case isTrue hnumber =>
          unfold readNumber at hread
          dsimp only at hread
          split at hread
          case h_1 value hvalue =>
              cases hread
              exact ⟨_, isLexeme_number hnumber (fun d => List.mem_takeWhile_imp) hvalue⟩
          case h_2 => cases hread
      case isFalse =>
        split at hread
        case isTrue hstart =>
            cases hread
            exact ⟨_, isLexeme_word hstart fun d => List.mem_takeWhile_imp⟩
        case isFalse => cases hread

theorem Lexes.exists_isLexeme {text : List Char} {tokens : List Token}
    (hlexes : Lexes text tokens) : ∀ token ∈ tokens, ∃ lexeme, IsLexeme token lexeme := by
  induction hlexes with
  | blanks => exact fun _ hmem => nomatch hmem
  | token _ _ hread _ ih => exact List.forall_mem_cons.mpr ⟨exists_isLexeme_of_readToken hread, ih⟩

/-- Tokens that have a lexeme each are the tokens of a text. -/
theorem exists_tokenize_eq {tokens : List Token}
    (hlexemes : ∀ token ∈ tokens, ∃ lexeme, IsLexeme token lexeme) :
    ∃ text, tokenize text = .ok tokens := by
  have hspaced : ∃ text, Spaced IsLexeme tokens text := by
    induction tokens with
    | nil => exact ⟨[], .nil⟩
    | cons token others ih =>
        obtain ⟨⟨lexeme, hlexeme⟩, hothers⟩ := List.forall_mem_cons.mp hlexemes
        obtain ⟨text, hrest⟩ := ih hothers
        exact ⟨_, .cons hlexeme (List.cons_ne_nil ' ' []) (by simp [AllBlank]; decide) hrest⟩
  obtain ⟨text, hspaced⟩ := hspaced
  exact ⟨String.ofList text, by rw [tokenize_eq_ok_iff, String.toList_ofList]; exact hspaced.lexes⟩

/-! ## Accepted lists -/

/-- The tokens with the mark of their end. -/
def marked (tokens : List Token) : List (Option Token) :=
  tokens.map some ++ [none]

/-- The tokens of a text that reads as an expression. -/
def Accepted (tokens : List Token) : Prop :=
  ∃ text e, tokenize text = .ok tokens ∧ parse text = .ok e

/-- The place of the first token, or of the end, that no accepted list has behind those before. -/
structure PointsAt (tokens : List Token) (place : Nat) : Prop where
  lt_length : place < (marked tokens).length
  viable : ∃ us, Accepted us ∧ (marked tokens).take place <+: marked us
  offending : ∀ us, Accepted us → ¬ (marked tokens).take (place + 1) <+: marked us

theorem PointsAt.le {tokens : List Token} {place other : Nat} (hplace : PointsAt tokens place)
    (hother : PointsAt tokens other) : other ≤ place := by
  by_contra hlt
  obtain ⟨us, haccepted, hfront⟩ := hother.viable
  refine hplace.offending us haccepted (List.IsPrefix.trans ?_ hfront)
  exact List.take_prefix_take_left (by omega)

theorem PointsAt.unique {tokens : List Token} {place other : Nat} (hplace : PointsAt tokens place)
    (hother : PointsAt tokens other) : place = other :=
  Nat.le_antisymm (hother.le hplace) (hplace.le hother)

theorem parse_eq_ok_iff {text : String} {tokens : List Token} {e : Expr}
    (htokens : tokenize text = .ok tokens) : parse text = .ok e ↔ Derives Level.all tokens e := by
  have hparse : parse text = (parseTokens tokens).mapError .grammatical := by rw [parse, htokens]
  rw [← parseTokens_eq_ok_iff, hparse]
  cases parseTokens tokens <;> simp [Except.mapError]

theorem Accepted.exists_derives {tokens : List Token} (haccepted : Accepted tokens) :
    ∃ e, Derives Level.all tokens e := by
  obtain ⟨text, e, htokens, hparse⟩ := haccepted
  exact ⟨e, (parse_eq_ok_iff htokens).mp hparse⟩

theorem exists_isLexeme_of_mem_completions :
    ∀ token ∈ completions, ∃ lexeme, IsLexeme token lexeme := by
  have hname : wordToken (String.ofList ['x']) = .identifier "x" := by decide
  simp only [completions, List.forall_mem_cons]
  refine ⟨⟨_, isLexeme_text rfl⟩, ⟨['x'], ?_⟩, ⟨_, isLexeme_text rfl⟩, ⟨_, isLexeme_text rfl⟩, ?_⟩
  · rw [← hname]
    exact isLexeme_word (by decide) (fun _ hmem => nomatch hmem)
  · exact fun _ hmem => nomatch hmem

/-- What is completed is the list of a text again. -/
theorem IsViable.exists_accepted {taken rest : List Token} {text : String}
    (hviable : IsViable (Derives Level.all) taken) (htokens : tokenize text = .ok (taken ++ rest)) :
    ∃ us, Accepted (taken ++ us) := by
  obtain ⟨us, e, hsub, hderives⟩ := hviable
  have hlexemes := (tokenize_eq_ok_iff.mp htokens).exists_isLexeme
  obtain ⟨whole, hwhole⟩ := exists_tokenize_eq fun token hmem =>
    (List.mem_append.mp hmem).elim (fun htaken => hlexemes token (List.mem_append_left rest htaken))
      fun hadded => exists_isLexeme_of_mem_completions token (hsub hadded)
  exact ⟨us, whole, e, hwhole, (parse_eq_ok_iff hwhole).mpr hderives⟩

theorem exists_of_prefix_marked {taken us : List Token} {next : Option Token}
    (hfront : taken.map some ++ [next] <+: marked us) :
    ∃ others, us = taken ++ others ∧ others.head? = next := by
  induction taken generalizing us with
  | nil =>
      refine ⟨us, rfl, ?_⟩
      cases us with
      | nil => exact (List.cons_prefix_cons.mp hfront).1.symm
      | cons token rest => exact (List.cons_prefix_cons.mp hfront).1.symm
  | cons token taken ih =>
      cases us with
      | nil => cases (List.cons_prefix_cons.mp hfront).1
      | cons other rest =>
          obtain ⟨hsame, hrest⟩ := List.cons_prefix_cons.mp hfront
          obtain ⟨others, rfl, hhead⟩ := ih hrest
          exact ⟨others, by rw [Option.some.inj hsame, List.cons_append], hhead⟩

theorem take_marked_append (taken rest : List Token) :
    (marked (taken ++ rest)).take taken.length = taken.map some := by
  rw [marked, List.map_append, List.append_assoc, List.take_left' (List.length_map ..)]

theorem take_succ_marked_append (taken rest : List Token) :
    (marked (taken ++ rest)).take (taken.length + 1) = taken.map some ++ [rest.head?] := by
  rw [marked, List.map_append, List.append_assoc, List.take_append, List.length_map,
    List.take_of_length_le (by simp), Nat.add_sub_cancel_left]
  cases rest <;> rfl

/-- The place behind tokens that can be completed is pointed at if nothing goes on as the list does
there. -/
theorem pointsAt_of_split {taken rest : List Token} {text : String}
    (htokens : tokenize text = .ok (taken ++ rest)) (hviable : IsViable (Derives Level.all) taken)
    (hrefused : ∀ others, others.head? = rest.head? →
      ∀ e, ¬ Derives Level.all (taken ++ others) e) : PointsAt (taken ++ rest) taken.length where
  lt_length := by
    simp only [marked, List.length_append, List.length_map, List.length_singleton]
    omega
  viable := by
    obtain ⟨us, haccepted⟩ := hviable.exists_accepted htokens
    refine ⟨taken ++ us, haccepted, ?_⟩
    rw [take_marked_append, ← take_marked_append taken us]
    exact List.take_prefix _ _
  offending := by
    intro us haccepted hfront
    rw [take_succ_marked_append] at hfront
    obtain ⟨others, rfl, hhead⟩ := exists_of_prefix_marked hfront
    obtain ⟨e, hderives⟩ := haccepted.exists_derives
    exact hrefused others hhead e hderives

/-- A text of tokens that is no expression has a fault at the first token that no accepted list goes
on with, or at the end if they can all be completed.  Only a missing property is located one token
later, at a place that is never the wrong one. -/
theorem offending_tokens_are_located {text : String} {tokens : List Token}
    (htokens : tokenize text = .ok tokens) (hrefused : ∀ e, parse text ≠ .ok e) :
    ∃ error place, parse text = .error (.grammatical error) ∧ PointsAt tokens place ∧
      error.position = (if error.fault = .expectedProperty then place + 1 else place) ∧
      (PointsAt tokens error.position ↔ error.fault ≠ .expectedProperty) := by
  cases hread : parseTokens tokens with
  | ok e =>
      exact absurd ((parse_eq_ok_iff htokens).mpr (parseTokens_eq_ok_iff.mp hread)) (hrefused e)
  | error error =>
      obtain ⟨taken, rest, rfl, hviable, hothers, hposition⟩ := exists_split_of_parseTokens hread
      have hplace := pointsAt_of_split htokens hviable hothers
      refine ⟨error, taken.length, ?_, hplace, hposition, ?_⟩
      · rw [parse, htokens]
        dsimp only
        rw [hread]
        rfl
      · rw [hposition]
        split
        case isTrue hproperty =>
            refine ⟨fun hlater => ?_, fun hother => absurd hproperty hother⟩
            exact absurd (hplace.unique hlater) (Nat.ne_of_lt (Nat.lt_succ_self _))
        case isFalse hother => exact ⟨fun _ => hother, fun _ => hplace⟩

/-- Behind `==` anything that starts an expression may stand, but no closing parenthesis. -/
theorem offending_parenthesis_is_located :
    tokenize "a == )" = .ok [.identifier "a", .equal, .rightParen] ∧
      (∀ e, parse "a == )" ≠ .ok e) ∧
      parse "a == )" = .error (.grammatical ⟨.unexpectedToken (some .rightParen), 2⟩) ∧
      PointsAt [.identifier "a", .equal, .rightParen] 2 := by
  have htokens : tokenize "a == )" = .ok [.identifier "a", .equal, .rightParen] := by
    have hname : readToken 'a' [' ', '=', '=', ' ', ')'] =
        .ok (.identifier "a", [' ', '=', '=', ' ', ')']) := by
      decide
    have hblank : AllBlank [' '] := List.all_eq_true.mp (by decide)
    have hparen : Lexes [')'] [.rightParen] :=
      .lexeme (by decide) rfl (.blanks fun _ hmem => nomatch hmem)
    have hequal : Lexes ['=', '=', ' ', ')'] [.equal, .rightParen] :=
      .lexeme (by decide) rfl ((lexes_blanks_append_iff hblank).mpr hparen)
    rw [tokenize_eq_ok_iff]
    exact .lexeme (by decide) hname ((lexes_blanks_append_iff hblank).mpr hequal)
  have hparse :
      parse "a == )" = .error (.grammatical ⟨.unexpectedToken (some .rightParen), 2⟩) := by
    rw [parse, htokens]
    rfl
  have hrefused (e : Expr) : parse "a == )" ≠ .ok e := by
    intro hok
    rw [hparse] at hok
    cases hok
  refine ⟨htokens, hrefused, hparse, ?_⟩
  obtain ⟨error, place, herror, -, -, hiff⟩ := offending_tokens_are_located htokens hrefused
  rw [hparse] at herror
  cases herror
  exact hiff.mpr (by decide)

/-- Behind the dot nothing follows; the fault is located behind the end. -/
theorem missing_property_is_located_behind_the_end :
    tokenize "variables." = .ok [.identifier "variables", .dot] ∧
      parse "variables." = .error (.grammatical ⟨.expectedProperty, 3⟩) ∧
      ¬ PointsAt [.identifier "variables", .dot] 3 := by
  have htokens : tokenize "variables." = .ok [.identifier "variables", .dot] := by
    have hname : readToken 'v' ['a', 'r', 'i', 'a', 'b', 'l', 'e', 's', '.'] =
        .ok (.identifier "variables", ['.']) := by
      decide
    rw [tokenize_eq_ok_iff]
    refine .lexeme (by decide) hname ?_
    exact .lexeme (by decide) rfl (.blanks fun _ hmem => nomatch hmem)
  refine ⟨htokens, ?_, fun hplace => ?_⟩
  · rw [parse, htokens]
    rfl
  · exact absurd hplace.lt_length (by decide)

end BuildPipeline.Expression
