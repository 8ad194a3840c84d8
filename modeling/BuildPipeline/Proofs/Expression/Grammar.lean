import BuildPipeline.Expression.Parser
import BuildPipeline.Proofs.Outcomes

/-!
# The grammar of the condition language

The grammar is given by derivations: `Derives levels ts e` says that the tokens `ts` are the
expression `e` at the first of these levels.  The parser, which descends with one token of
look-ahead, accepts exactly what the grammar derives.

* `soundTo`: what is read is derived from the tokens taken.
* `Derives.readsOn` and its companions: what is derived is read, wherever the tokens after it do not
  go on with it (`Ends`).
* `settledAt`: the bound on the depth of the descent never stops a reading.
* `parser_accepts_exactly_the_grammar`: the three together, for whole lists.
-/

namespace BuildPipeline.Expression

/-! ## Derivations -/

/-- The operators of each level, with their tokens. -/
inductive Joins : Level → Token → BinaryOp → Prop
  | or : Joins .disjunction .or .or
  | and : Joins .conjunction .and .and
  | equal : Joins .equality .equal .equal
  | notEqual : Joins .equality .notEqual .notEqual
  | less : Joins .comparison .less .less
  | lessEqual : Joins .comparison .lessEqual .lessEqual
  | greater : Joins .comparison .greater .greater
  | greaterEqual : Joins .comparison .greaterEqual .greaterEqual

mutual

/-- The tokens are an expression of the first of these levels, the rest being tighter. -/
inductive Derives : List Level → List Token → Expr → Prop
  | unary {ts : List Token} {e : Expr} (hunary : DerivesUnary ts e) : Derives [] ts e
  | tighter {level : Level} {levels : List Level} {ts : List Token} {e : Expr}
      (hoperand : Derives levels ts e) : Derives (level :: levels) ts e
  /-- Further operands join on the right, so operators of one level associate to the left. -/
  | binary {level : Level} {levels : List Level} {ts us : List Token} {token : Token}
      {op : BinaryOp} {left right : Expr} (hleft : Derives (level :: levels) ts left)
      (hop : Joins level token op) (hright : Derives levels us right) :
      Derives (level :: levels) (ts ++ token :: us) (.binary op left right)

inductive DerivesUnary : List Token → Expr → Prop
  | not {ts : List Token} {e : Expr} (hoperand : DerivesUnary ts e) :
      DerivesUnary (.not :: ts) (.not e)
  /-- The properties and brackets after a name belong to the reference. -/
  | reference {name : String} {ts : List Token} {path : List Accessor}
      (hpath : DerivesPath ts path) : DerivesUnary (.identifier name :: ts) (.reference name path)
  | indexed {ts : List Token} {e : Expr} (hindexed : DerivesIndexed ts e) : DerivesUnary ts e

/-- A primary expression that is no reference, with the brackets after it. -/
inductive DerivesIndexed : List Token → Expr → Prop
  | primary {ts : List Token} {e : Expr} (hprimary : DerivesPrimary ts e) : DerivesIndexed ts e
  | index {ts us : List Token} {object key : Expr} (hobject : DerivesIndexed ts object)
      (hkey : Derives Level.all us key) :
      DerivesIndexed (ts ++ .leftBracket :: (us ++ [.rightBracket])) (.index object key)

inductive DerivesPrimary : List Token → Expr → Prop
  | null : DerivesPrimary [.nullWord] .null
  | true : DerivesPrimary [.trueWord] (.bool true)
  | false : DerivesPrimary [.falseWord] (.bool false)
  | number (value : Binary64) : DerivesPrimary [.number value] (.number value)
  | string (text : String) : DerivesPrimary [.string text] (.string text)
  /-- Parentheses leave no trace. -/
  | parens {ts : List Token} {e : Expr} (hinner : Derives Level.all ts e) :
      DerivesPrimary (.leftParen :: (ts ++ [.rightParen])) e
  | emptyCall (name : String) :
      DerivesPrimary [.identifier name, .leftParen, .rightParen] (.call name [])
  | call {name : String} {ts : List Token} {arguments : List Expr}
      (harguments : DerivesList ts arguments) :
      DerivesPrimary (.identifier name :: .leftParen :: (ts ++ [.rightParen]))
        (.call name arguments)
  | emptyArray : DerivesPrimary [.leftBracket, .rightBracket] (.array [])
  | array {ts : List Token} {items : List Expr} (hitems : DerivesList ts items) :
      DerivesPrimary (.leftBracket :: (ts ++ [.rightBracket])) (.array items)
  | arrayWithComma {ts : List Token} {items : List Expr} (hitems : DerivesList ts items) :
      DerivesPrimary (.leftBracket :: (ts ++ [.comma, .rightBracket])) (.array items)

/-- The properties and brackets after a leading name. -/
inductive DerivesPath : List Token → List Accessor → Prop
  | nil : DerivesPath [] []
  | property {name : String} {ts : List Token} {path : List Accessor}
      (hpath : DerivesPath ts path) :
      DerivesPath (.dot :: .identifier name :: ts) (.property name :: path)
  | element {ts us : List Token} {key : Expr} {path : List Accessor}
      (hkey : Derives Level.all us key) (hpath : DerivesPath ts path) :
      DerivesPath (.leftBracket :: (us ++ .rightBracket :: ts)) (.element key :: path)

/-- One expression or more, with commas between them. -/
inductive DerivesList : List Token → List Expr → Prop
  | last {ts : List Token} {e : Expr} (hitem : Derives Level.all ts e) : DerivesList ts [e]
  | cons {ts us : List Token} {e : Expr} {es : List Expr} (hitem : Derives Level.all ts e)
      (hrest : DerivesList us es) : DerivesList (ts ++ .comma :: us) (e :: es)

end

theorem Level.operator?_eq_some_iff {level : Level} {token : Token} {op : BinaryOp} :
    level.operator? token = some op ↔ Joins level token op := by
  constructor
  · intro hop
    unfold Level.operator? at hop
    split at hop <;> cases hop <;> constructor
  · rintro ⟨⟩ <;> rfl

/-! ## Soundness -/

theorem expect_eq_ok_iff {token : Token} {fault : SyntaxFault} {tokens rest : List Token} :
    expect token fault tokens = .ok rest ↔ tokens = token :: rest := by
  cases tokens with
  | nil => simp [expect]
  | cons next others =>
      rw [expect, List.cons.injEq]
      split
      case isTrue heq => simp [heq]
      case isFalse hne => simp [hne]

theorem readIndexes_of_head?_ne {depth : Nat} {object : Expr} {tokens : List Token}
    (hbracket : tokens.head? ≠ some .leftBracket) :
    readIndexes (depth + 1) object tokens = .ok (object, tokens) := by
  refine readIndexes.eq_3 _ _ _ fun rest heq => hbracket ?_
  rw [heq, List.head?_cons]

/-- What is read within a depth is derived from the tokens that it takes. -/
structure SoundTo (depth : Nat) : Prop where
  levels : ∀ {levels : List Level} {tokens rest : List Token} {e : Expr},
    readLevels depth levels tokens = .ok (e, rest) →
      ∃ ts, tokens = ts ++ rest ∧ Derives levels ts e
  operands : ∀ {level : Level} {tighter : List Level} {front tokens rest : List Token}
    {left e : Expr}, Derives (level :: tighter) front left →
    readOperands depth level tighter left tokens = .ok (e, rest) →
      ∃ ts, tokens = ts ++ rest ∧ Derives (level :: tighter) (front ++ ts) e
  unary : ∀ {tokens rest : List Token} {e : Expr}, readUnary depth tokens = .ok (e, rest) →
    ∃ ts, tokens = ts ++ rest ∧ DerivesUnary ts e
  indexes : ∀ {front tokens rest : List Token} {object e : Expr}, DerivesIndexed front object →
    readIndexes depth object tokens = .ok (e, rest) →
      ∃ ts, tokens = ts ++ rest ∧ DerivesIndexed (front ++ ts) e
  /-- No bracket follows a reference. -/
  primary : ∀ {tokens rest : List Token} {e : Expr}, readPrimary depth tokens = .ok (e, rest) →
    ∃ ts, tokens = ts ++ rest ∧
      (DerivesPrimary ts e ∨ DerivesUnary ts e ∧ rest.head? ≠ some .leftBracket)
  path : ∀ {tokens rest : List Token} {path : List Accessor},
    readPath depth tokens = .ok (path, rest) →
      ∃ ts, tokens = ts ++ rest ∧ DerivesPath ts path ∧ rest.head? ≠ some .leftBracket
  arguments : ∀ {tokens rest : List Token} {es : List Expr},
    readArguments depth tokens = .ok (es, rest) →
      ∃ ts, tokens = ts ++ .rightParen :: rest ∧ DerivesList ts es
  items : ∀ {tokens rest : List Token} {es : List Expr},
    readItems depth tokens = .ok (es, rest) →
      ∃ ts, tokens = ts ++ .rightBracket :: rest ∧
        (ts = [] ∧ es = [] ∨ DerivesList ts es ∨ ∃ us, ts = us ++ [.comma] ∧ DerivesList us es)

namespace SoundTo

variable {depth : Nat} {tokens rest : List Token} {e : Expr}

theorem succ_levels (hsound : SoundTo depth) {levels : List Level}
    (hread : readLevels (depth + 1) levels tokens = .ok (e, rest)) :
    ∃ ts, tokens = ts ++ rest ∧ Derives levels ts e := by
  cases levels with
  | nil =>
      rw [readLevels] at hread
      obtain ⟨ts, htokens, hunary⟩ := hsound.unary hread
      exact ⟨ts, htokens, .unary hunary⟩
  | cons level tighter =>
      rw [readLevels] at hread
      obtain ⟨⟨left, middle⟩, hfirst, hnext⟩ := bind_eq_ok_iff.mp hread
      obtain ⟨ts, htokens, hleft⟩ := hsound.levels hfirst
      obtain ⟨us, hmiddle, hwhole⟩ := hsound.operands (.tighter hleft) hnext
      exact ⟨ts ++ us, by rw [htokens, hmiddle, List.append_assoc], hwhole⟩

theorem succ_operands (hsound : SoundTo depth) {level : Level} {tighter : List Level}
    {front : List Token} {left : Expr} (hleft : Derives (level :: tighter) front left)
    (hread : readOperands (depth + 1) level tighter left tokens = .ok (e, rest)) :
    ∃ ts, tokens = ts ++ rest ∧ Derives (level :: tighter) (front ++ ts) e := by
  cases tokens with
  | nil =>
      rw [readOperands] at hread
      cases hread
      exact ⟨[], rfl, by rwa [List.append_nil]⟩
  | cons token others =>
      rw [readOperands] at hread
      split at hread
      case h_1 =>
          cases hread
          exact ⟨[], rfl, by rwa [List.append_nil]⟩
      case h_2 op hop =>
          obtain ⟨⟨right, middle⟩, hfirst, hnext⟩ := bind_eq_ok_iff.mp hread
          obtain ⟨ts, htokens, hright⟩ := hsound.levels hfirst
          -- All that was read so far is the left operand of this operator.
          have hjoined := Derives.binary hleft (Level.operator?_eq_some_iff.mp hop) hright
          obtain ⟨us, hmiddle, hwhole⟩ := hsound.operands hjoined hnext
          exact ⟨token :: ts ++ us, by simp [htokens, hmiddle], by simpa using hwhole⟩

theorem succ_indexes (hsound : SoundTo depth) {front : List Token} {object : Expr}
    (hobject : DerivesIndexed front object)
    (hread : readIndexes (depth + 1) object tokens = .ok (e, rest)) :
    ∃ ts, tokens = ts ++ rest ∧ DerivesIndexed (front ++ ts) e := by
  by_cases hbracket : tokens.head? = some .leftBracket
  · obtain ⟨others, rfl⟩ := List.head?_eq_some_iff.mp hbracket
    rw [readIndexes] at hread
    obtain ⟨⟨key, middle⟩, hkey, hnext⟩ := bind_eq_ok_iff.mp hread
    obtain ⟨after, hclose, hnext⟩ := bind_eq_ok_iff.mp hnext
    obtain ⟨ts, htokens, hkey⟩ := hsound.levels hkey
    obtain ⟨us, hafter, hwhole⟩ := hsound.indexes (.index hobject hkey) hnext
    rw [expect_eq_ok_iff.mp hclose, hafter] at htokens
    exact ⟨.leftBracket :: (ts ++ .rightBracket :: us), by simp [htokens], by simpa using hwhole⟩
  · rw [readIndexes_of_head?_ne hbracket] at hread
    cases hread
    exact ⟨[], rfl, by rwa [List.append_nil]⟩

theorem succ_path (hsound : SoundTo depth) {path : List Accessor}
    (hread : readPath (depth + 1) tokens = .ok (path, rest)) :
    ∃ ts, tokens = ts ++ rest ∧ DerivesPath ts path ∧ rest.head? ≠ some .leftBracket := by
  unfold readPath at hread
  split at hread
  case h_1 => cases hread
  case h_2 heq =>
      cases heq
      split at hread
      case h_1 name others =>
          obtain ⟨⟨further, middle⟩, hpath, hnext⟩ := bind_eq_ok_iff.mp hread
          cases hnext
          obtain ⟨ts, htokens, hpath, hrest⟩ := hsound.path hpath
          exact ⟨.dot :: .identifier name :: ts, by simp [htokens], .property hpath, hrest⟩
      case h_2 => cases hread
  case h_3 heq =>
      cases heq
      obtain ⟨⟨key, middle⟩, hkey, hnext⟩ := bind_eq_ok_iff.mp hread
      obtain ⟨after, hclose, hnext⟩ := bind_eq_ok_iff.mp hnext
      obtain ⟨⟨further, last⟩, hpath, hnext⟩ := bind_eq_ok_iff.mp hnext
      cases hnext
      obtain ⟨us, htokens, hkey⟩ := hsound.levels hkey
      obtain ⟨ts, hafter, hpath, hrest⟩ := hsound.path hpath
      rw [expect_eq_ok_iff.mp hclose, hafter] at htokens
      exact ⟨.leftBracket :: (us ++ .rightBracket :: ts), by simp [htokens], .element hkey hpath,
        hrest⟩
  case h_4 hbracket =>
      cases hread
      refine ⟨[], rfl, .nil, fun hhead => ?_⟩
      obtain ⟨others, heq⟩ := List.head?_eq_some_iff.mp hhead
      exact hbracket others heq

theorem succ_arguments (hsound : SoundTo depth) {es : List Expr}
    (hread : readArguments (depth + 1) tokens = .ok (es, rest)) :
    ∃ ts, tokens = ts ++ .rightParen :: rest ∧ DerivesList ts es := by
  rw [readArguments] at hread
  obtain ⟨⟨argument, middle⟩, hfirst, hnext⟩ := bind_eq_ok_iff.mp hread
  obtain ⟨ts, htokens, hargument⟩ := hsound.levels hfirst
  dsimp only at hnext
  split at hnext
  case h_1 others =>
      obtain ⟨⟨further, last⟩, hfurther, hnext⟩ := bind_eq_ok_iff.mp hnext
      cases hnext
      obtain ⟨us, hothers, hfurther⟩ := hsound.arguments hfurther
      exact ⟨ts ++ .comma :: us, by simp [htokens, hothers], .cons hargument hfurther⟩
  case h_2 =>
      obtain ⟨after, hclose, hnext⟩ := bind_eq_ok_iff.mp hnext
      cases hnext
      exact ⟨ts, by rw [htokens, expect_eq_ok_iff.mp hclose], .last hargument⟩

theorem succ_items (hsound : SoundTo depth) {es : List Expr}
    (hread : readItems (depth + 1) tokens = .ok (es, rest)) :
    ∃ ts, tokens = ts ++ .rightBracket :: rest ∧
      (ts = [] ∧ es = [] ∨ DerivesList ts es ∨ ∃ us, ts = us ++ [.comma] ∧ DerivesList us es) := by
  unfold readItems at hread
  split at hread
  case h_1 => cases hread
  case h_2 =>
      cases hread
      exact ⟨[], rfl, .inl ⟨rfl, rfl⟩⟩
  case h_3 heq _ =>
      cases heq
      obtain ⟨⟨item, middle⟩, hfirst, hnext⟩ := bind_eq_ok_iff.mp hread
      obtain ⟨ts, htokens, hitem⟩ := hsound.levels hfirst
      dsimp only at hnext
      split at hnext
      case h_1 others =>
          obtain ⟨⟨further, last⟩, hfurther, hnext⟩ := bind_eq_ok_iff.mp hnext
          cases hnext
          obtain ⟨us, hothers, hfurther⟩ := hsound.items hfurther
          refine ⟨ts ++ .comma :: us, by simp [htokens, hothers], .inr ?_⟩
          -- A comma may end the items only where nothing follows it.
          rcases hfurther with ⟨rfl, rfl⟩ | hfurther | ⟨us, rfl, hfurther⟩
          · exact .inr ⟨ts, rfl, .last hitem⟩
          · exact .inl (.cons hitem hfurther)
          · exact .inr ⟨ts ++ .comma :: us, by simp, .cons hitem hfurther⟩
      case h_2 =>
          obtain ⟨after, hclose, hnext⟩ := bind_eq_ok_iff.mp hnext
          cases hnext
          exact ⟨ts, by rw [htokens, expect_eq_ok_iff.mp hclose], .inr (.inl (.last hitem))⟩

/-- A name is the start of a call or of a reference. -/
theorem succ_name (hsound : SoundTo depth) {name : String}
    (hread : readPrimary (depth + 1) (.identifier name :: tokens) = .ok (e, rest)) :
    ∃ ts, .identifier name :: tokens = ts ++ rest ∧
      (DerivesPrimary ts e ∨ DerivesUnary ts e ∧ rest.head? ≠ some .leftBracket) := by
  unfold readPrimary at hread
  dsimp only at hread
  split at hread
  case h_1 others =>
      cases hread
      exact ⟨[.identifier name, .leftParen, .rightParen], rfl, .inl (.emptyCall name)⟩
  case h_2 others _ =>
      obtain ⟨⟨arguments, last⟩, harguments, hnext⟩ := bind_eq_ok_iff.mp hread
      cases hnext
      obtain ⟨ts, htokens, harguments⟩ := hsound.arguments harguments
      exact ⟨.identifier name :: .leftParen :: (ts ++ [.rightParen]), by simp [htokens],
        .inl (.call harguments)⟩
  case h_3 =>
      obtain ⟨⟨path, last⟩, hpath, hnext⟩ := bind_eq_ok_iff.mp hread
      cases hnext
      obtain ⟨ts, htokens, hpath, hrest⟩ := hsound.path hpath
      exact ⟨.identifier name :: ts, by simp [htokens], .inr ⟨.reference hpath, hrest⟩⟩

theorem succ_primary (hsound : SoundTo depth)
    (hread : readPrimary (depth + 1) tokens = .ok (e, rest)) :
    ∃ ts, tokens = ts ++ rest ∧
      (DerivesPrimary ts e ∨ DerivesUnary ts e ∧ rest.head? ≠ some .leftBracket) := by
  cases tokens with
  | nil => cases hread
  | cons token others =>
      cases token with
      | nullWord => cases hread; exact ⟨[.nullWord], rfl, .inl .null⟩
      | trueWord => cases hread; exact ⟨[.trueWord], rfl, .inl .true⟩
      | falseWord => cases hread; exact ⟨[.falseWord], rfl, .inl .false⟩
      | number value => cases hread; exact ⟨[.number value], rfl, .inl (.number value)⟩
      | string text => cases hread; exact ⟨[.string text], rfl, .inl (.string text)⟩
      | identifier name => exact hsound.succ_name hread
      | leftParen =>
          obtain ⟨⟨inner, middle⟩, hinner, hnext⟩ := bind_eq_ok_iff.mp hread
          obtain ⟨after, hclose, hnext⟩ := bind_eq_ok_iff.mp hnext
          cases hnext
          obtain ⟨ts, htokens, hinner⟩ := hsound.levels hinner
          rw [expect_eq_ok_iff.mp hclose] at htokens
          exact ⟨.leftParen :: (ts ++ [.rightParen]), by simp [htokens], .inl (.parens hinner)⟩
      | leftBracket =>
          obtain ⟨⟨items, last⟩, hitems, hnext⟩ := bind_eq_ok_iff.mp hread
          cases hnext
          obtain ⟨ts, htokens, hitems⟩ := hsound.items hitems
          refine ⟨.leftBracket :: (ts ++ [.rightBracket]), by simp [htokens], .inl ?_⟩
          rcases hitems with ⟨rfl, rfl⟩ | hitems | ⟨us, rfl, hitems⟩
          · exact .emptyArray
          · exact .array hitems
          · simpa using DerivesPrimary.arrayWithComma hitems
      | _ => cases hread

theorem succ_unary (hsound : SoundTo depth)
    (hread : readUnary (depth + 1) tokens = .ok (e, rest)) :
    ∃ ts, tokens = ts ++ rest ∧ DerivesUnary ts e := by
  by_cases hnot : ∃ others, tokens = .not :: others
  · obtain ⟨others, rfl⟩ := hnot
    rw [readUnary] at hread
    obtain ⟨⟨operand, last⟩, hoperand, hnext⟩ := bind_eq_ok_iff.mp hread
    cases hnext
    obtain ⟨ts, htokens, hoperand⟩ := hsound.unary hoperand
    exact ⟨.not :: ts, by simp [htokens], .not hoperand⟩
  · rw [readUnary.eq_3 _ _ fun others heq => hnot ⟨others, heq⟩] at hread
    obtain ⟨⟨object, middle⟩, hobject, hnext⟩ := bind_eq_ok_iff.mp hread
    obtain ⟨ts, htokens, hobject⟩ := hsound.primary hobject
    rcases hobject with hprimary | ⟨hreference, hbracket⟩
    · obtain ⟨us, hmiddle, hwhole⟩ := hsound.indexes (.primary hprimary) hnext
      exact ⟨ts ++ us, by rw [htokens, hmiddle, List.append_assoc], .indexed hwhole⟩
    · -- A reference has taken all brackets itself, so the search for further ones finds none.
      cases depth with
      | zero => cases hnext
      | succ depth =>
          dsimp only at hnext
          rw [readIndexes_of_head?_ne hbracket] at hnext
          cases hnext
          exact ⟨ts, htokens, hreference⟩

end SoundTo

theorem soundTo (depth : Nat) : SoundTo depth := by
  induction depth with
  | zero => constructor <;> intros <;> contradiction
  | succ depth ih =>
      exact ⟨ih.succ_levels, ih.succ_operands, ih.succ_unary, ih.succ_indexes, ih.succ_primary,
        ih.succ_path, ih.succ_arguments, ih.succ_items⟩

/-! ## Completeness -/

/-- Nothing at the front of the tokens goes on with an expression of these levels. -/
def Ends (levels : List Level) (tokens : List Token) : Prop :=
  ∀ token ∈ tokens.head?, token ∉ [.dot, .leftParen, .leftBracket] ∧
    ∀ level ∈ levels, level.operator? token = none

theorem Ends.of_subset {levels others : List Level} {tokens : List Token}
    (hends : Ends levels tokens) (hsub : others ⊆ levels) : Ends others tokens :=
  fun token hhead =>
    ⟨(hends token hhead).1, fun level hmem => (hends token hhead).2 level (hsub hmem)⟩

theorem ends_nil (levels : List Level) : Ends levels [] :=
  fun _ hhead => nomatch hhead

theorem ends_cons_of_mem {levels : List Level} {token : Token} {rest : List Token}
    (hmem : token ∈ [.comma, .rightParen, .rightBracket]) : Ends levels (token :: rest) := by
  intro next hhead
  cases hhead
  simp only [List.mem_cons, List.not_mem_nil, or_false] at hmem
  rcases hmem with rfl | rfl | rfl
  all_goals exact ⟨by decide, fun level _ => by cases level <;> rfl⟩

/-- An operator of one level ends the operands of the others. -/
theorem Joins.ends {level : Level} {levels : List Level} {token : Token} {op : BinaryOp}
    {rest : List Token} (hop : Joins level token op) (hlevel : level ∉ levels) :
    Ends levels (token :: rest) := by
  intro next hhead
  cases hhead
  refine ⟨by cases hop <;> decide, fun other hmem => ?_⟩
  have hne : other ≠ level := fun heq => hlevel (heq ▸ hmem)
  cases hop <;> cases other <;> first | rfl | exact absurd rfl hne

theorem Ends.head?_ne {levels : List Level} {tokens : List Token} (hends : Ends levels tokens)
    {token : Token} (hmem : token ∈ [.dot, .leftParen, .leftBracket]) :
    tokens.head? ≠ some token :=
  fun hhead => (hends token hhead).1 hmem

theorem Ends.ne_cons {levels : List Level} {tokens : List Token} (hends : Ends levels tokens)
    {token : Token} (hmem : token ∈ [.dot, .leftParen, .leftBracket]) (rest : List Token) :
    tokens ≠ token :: rest :=
  fun heq => hends.head?_ne hmem (heq ▸ rfl)

/-- What is left to do once an expression of these levels stands at the front. -/
def readFurther (depth : Nat) (levels : List Level) (e : Expr) (tokens : List Token) :
    Except SyntaxStop (Expr × List Token) :=
  match levels with
  | [] => .ok (e, tokens)
  | level :: tighter => readOperands depth level tighter e tokens

theorem readFurther_of_ends {depth : Nat} {levels : List Level} {e : Expr} {tokens : List Token}
    (hdepth : 0 < depth) (hends : Ends levels tokens) :
    readFurther depth levels e tokens = .ok (e, tokens) := by
  obtain ⟨depth, rfl⟩ := Nat.exists_eq_add_of_lt hdepth
  rw [Nat.zero_add]
  cases levels with
  | nil => rfl
  | cons level tighter =>
      cases tokens with
      | nil => rw [readFurther, readOperands]
      | cons token rest =>
          have hnone := (hends token rfl).2 level List.mem_cons_self
          simp only [readFurther, readOperands, hnone]

theorem readUnary_of_readPrimary {depth : Nat} {tokens rest : List Token} {object : Expr}
    (hread : readPrimary depth tokens = .ok (object, rest)) :
    readUnary (depth + 1) tokens = readIndexes depth object rest := by
  rw [readUnary.eq_3, hread]
  · rfl
  · rintro others rfl
    cases depth <;> cases hread

theorem readPrimary_of_readPath {depth : Nat} (name : String) {tokens rest : List Token}
    {path : List Accessor} (hparen : tokens.head? ≠ some .leftParen)
    (hread : readPath depth tokens = .ok (path, rest)) :
    readPrimary (depth + 1) (.identifier name :: tokens) = .ok (.reference name path, rest) := by
  unfold readPrimary
  dsimp only
  split
  case h_1 => exact absurd rfl hparen
  case h_2 => exact absurd rfl hparen
  case h_3 => rw [hread]; rfl

/-- No derivation starts with a token that closes something. -/
def IsStart (tokens : List Token) : Prop :=
  ∃ token rest, tokens = token :: rest ∧ token ∉ [.rightParen, .rightBracket]

theorem IsStart.append {tokens : List Token} (hstart : IsStart tokens) (rest : List Token) :
    IsStart (tokens ++ rest) := by
  obtain ⟨token, others, rfl, htoken⟩ := hstart
  exact ⟨token, others ++ rest, rfl, htoken⟩

theorem IsStart.length_pos {tokens : List Token} (hstart : IsStart tokens) : 0 < tokens.length := by
  obtain ⟨token, others, rfl, -⟩ := hstart
  exact Nat.succ_pos _

theorem DerivesPrimary.isStart {ts : List Token} {e : Expr} (hprimary : DerivesPrimary ts e) :
    IsStart ts := by
  cases hprimary <;> exact ⟨_, _, rfl, by simp⟩

theorem DerivesIndexed.isStart {ts : List Token} {e : Expr} :
    DerivesIndexed ts e → IsStart ts
  | .primary hprimary => hprimary.isStart
  | .index hobject _ => hobject.isStart.append _

theorem DerivesUnary.isStart {ts : List Token} {e : Expr} (hunary : DerivesUnary ts e) :
    IsStart ts := by
  cases hunary with
  | not _ => exact ⟨_, _, rfl, by simp⟩
  | reference _ => exact ⟨_, _, rfl, by simp⟩
  | indexed hindexed => exact hindexed.isStart

theorem Derives.isStart {levels : List Level} {ts : List Token} {e : Expr} :
    Derives levels ts e → IsStart ts
  | .unary hunary => hunary.isStart
  | .tighter hoperand => hoperand.isStart
  | .binary hleft _ _ => hleft.isStart.append _

theorem DerivesList.isStart {ts : List Token} {es : List Expr} (hlist : DerivesList ts es) :
    IsStart ts := by
  cases hlist with
  | last hitem => exact hitem.isStart
  | cons hitem _ => exact hitem.isStart.append _

/-- Neither a path nor what ends an expression starts with a parenthesis. -/
theorem DerivesPath.ne_leftParen {ts rest : List Token} {path : List Accessor}
    (hpath : DerivesPath ts path) (hends : Ends [] rest) :
    (ts ++ rest).head? ≠ some .leftParen := by
  cases hpath with
  | nil => exact hends.head?_ne (by simp)
  | property _ => simp
  | element _ _ => simp

/-- Within a depth that suffices, reading comes past these tokens to the operators that may
follow. -/
def ReadsOn (levels : List Level) (ts : List Token) (e : Expr) : Prop :=
  ∀ depth rest, 8 * ts.length + levels.length ≤ depth + 4 → Ends levels.tail rest →
    ∃ left, depth ≤ left + ts.length + 1 ∧
      readLevels depth levels (ts ++ rest) = readFurther left levels e rest

-- A token costs eight steps of the descent at most: five down the levels, one for each of the unary
-- and the primary expression, and one for the list or the path around it.

theorem ReadsOn.reads {levels : List Level} {ts rest : List Token} {e : Expr} {depth : Nat}
    (hreads : ReadsOn levels ts e) (hstart : IsStart ts)
    (hdepth : 8 * ts.length + levels.length ≤ depth + 4) (hends : Ends levels rest) :
    readLevels depth levels (ts ++ rest) = .ok (e, rest) := by
  obtain ⟨left, hleft, hread⟩ :=
    hreads depth rest hdepth (hends.of_subset (List.tail_sublist levels).subset)
  have hpos := hstart.length_pos
  rw [hread, readFurther_of_ends (by omega) hends]

theorem ReadsOn.reads_all {ts : List Token} {e : Expr} {depth : Nat}
    (hreads : ReadsOn Level.all ts e) (hstart : IsStart ts) (hdepth : 8 * ts.length ≤ depth)
    (token : Token) (hmem : token ∈ [.comma, .rightParen, .rightBracket]) (rest : List Token) :
    readLevels depth Level.all (ts ++ token :: rest) = .ok (e, token :: rest) :=
  hreads.reads hstart (Nat.add_le_add_right hdepth 4) (ends_cons_of_mem hmem)

theorem expect_self (token : Token) (fault : SyntaxFault) (rest : List Token) :
    expect token fault (token :: rest) = .ok rest :=
  expect_eq_ok_iff.mpr rfl

theorem readItems_eq_of_isStart {depth : Nat} {tokens : List Token} (hstart : IsStart tokens) :
    readItems (depth + 1) tokens = (do
      let (item, rest) ← readLevels depth Level.all tokens
      match rest with
      | .comma :: rest => do
        let (items, rest) ← readItems depth rest
        .ok (item :: items, rest)
      | rest => do
        let rest ← expect .rightBracket .expectedBracket rest
        .ok ([item], rest)) := by
  obtain ⟨token, others, rfl, htoken⟩ := hstart
  refine readItems.eq_3 _ _ fun rest heq => htoken ?_
  cases heq
  simp

theorem readItems_of_comma {depth : Nat} {tokens rest last : List Token} {item : Expr}
    {items : List Expr} (hstart : IsStart tokens)
    (hread : readLevels depth Level.all tokens = .ok (item, .comma :: rest))
    (hrest : readItems depth rest = .ok (items, last)) :
    readItems (depth + 1) tokens = .ok (item :: items, last) := by
  rw [readItems_eq_of_isStart hstart, hread]
  dsimp only [bind, Except.bind]
  rw [hrest]

theorem readItems_of_rightBracket {depth : Nat} {tokens rest : List Token} {item : Expr}
    (hstart : IsStart tokens)
    (hread : readLevels depth Level.all tokens = .ok (item, .rightBracket :: rest)) :
    readItems (depth + 1) tokens = .ok ([item], rest) := by
  rw [readItems_eq_of_isStart hstart, hread]
  rfl

theorem Level.nodup_all : Level.all.Nodup := by decide

mutual

theorem Derives.readsOn {levels : List Level} {ts : List Token} {e : Expr} :
    Derives levels ts e → levels.Nodup → ReadsOn levels ts e
  | .unary hunary, _, depth, rest, hdepth, hends => by
      have hpos := hunary.isStart.length_pos
      rw [List.length_nil] at hdepth
      obtain ⟨depth, rfl⟩ := Nat.exists_eq_add_of_le' (show 1 ≤ depth by omega)
      exact ⟨depth, by omega, by rw [readLevels, hunary.reads (by omega) hends, readFurther]⟩
  | .tighter hoperand, hnodup, depth, rest, hdepth, hends => by
      have hpos := hoperand.isStart.length_pos
      rw [List.length_cons] at hdepth
      obtain ⟨depth, rfl⟩ := Nat.exists_eq_add_of_le' (show 1 ≤ depth by omega)
      have hread := (hoperand.readsOn hnodup.of_cons).reads hoperand.isStart
        (show _ ≤ depth + 4 by omega) hends
      exact ⟨depth, by omega, by rw [readLevels, hread]; rfl⟩
  | @Derives.binary _ _ ts us token _ _ _ hleft hop hright, hnodup, depth, rest, hdepth, hends => by
      simp only [List.length_append, List.length_cons] at hdepth ⊢
      -- The operator ends the left operand, so that reading it stops right before.
      obtain ⟨left, hleft, hread⟩ := hleft.readsOn hnodup depth (token :: (us ++ rest))
        (by rw [List.length_cons]; omega) (hop.ends (List.nodup_cons.mp hnodup).1)
      obtain ⟨left, rfl⟩ := Nat.exists_eq_add_of_le' (show 1 ≤ left by omega)
      have hoperand := (hright.readsOn hnodup.of_cons).reads hright.isStart
        (show _ ≤ left + 4 by omega) hends
      refine ⟨left, by omega, ?_⟩
      rw [List.append_assoc, List.cons_append, hread, readFurther, readOperands,
        Level.operator?_eq_some_iff.mpr hop]
      dsimp only
      rw [hoperand]
      rfl

theorem DerivesUnary.reads {ts rest : List Token} {e : Expr} {depth : Nat} :
    DerivesUnary ts e → 8 * ts.length ≤ depth + 5 → Ends [] rest →
      readUnary depth (ts ++ rest) = .ok (e, rest)
  | .not hoperand, hdepth, hends => by
      rw [List.length_cons] at hdepth
      obtain ⟨depth, rfl⟩ := Nat.exists_eq_add_of_le' (show 1 ≤ depth by omega)
      rw [List.cons_append, readUnary, hoperand.reads (by omega) hends]
      rfl
  | @DerivesUnary.reference name _ _ hpath, hdepth, hends => by
      rw [List.length_cons] at hdepth
      obtain ⟨depth, rfl⟩ := Nat.exists_eq_add_of_le' (show 3 ≤ depth by omega)
      have hread := hpath.reads (show _ ≤ depth by omega) hends
      rw [List.cons_append,
        readUnary_of_readPrimary (readPrimary_of_readPath name (hpath.ne_leftParen hends) hread)]
      exact readIndexes_of_head?_ne (hends.head?_ne (by simp))
  | .indexed hindexed, hdepth, hends => by
      have hpos := hindexed.isStart.length_pos
      obtain ⟨depth, rfl⟩ := Nat.exists_eq_add_of_le' (show 2 ≤ depth by omega)
      obtain ⟨left, hleft, hread⟩ := hindexed.readsOn rest (show _ ≤ depth + 7 by omega)
      obtain ⟨left, rfl⟩ := Nat.exists_eq_add_of_le' (show 1 ≤ left by omega)
      rw [hread, readIndexes_of_head?_ne (hends.head?_ne (by simp))]

/-- Only the brackets that may follow are left to read. -/
theorem DerivesIndexed.readsOn {ts : List Token} {e : Expr} {depth : Nat} :
    DerivesIndexed ts e → ∀ rest, 8 * ts.length ≤ depth + 7 →
      ∃ left, depth + 1 ≤ left + ts.length ∧
        readUnary (depth + 2) (ts ++ rest) = readIndexes left e rest
  | .primary hprimary, rest, hdepth =>
      ⟨depth + 1, Nat.le_add_right .., readUnary_of_readPrimary (hprimary.reads hdepth)⟩
  | @DerivesIndexed.index _ us _ _ hobject hkey, rest, hdepth => by
      simp only [List.length_append, List.length_cons, List.length_nil] at hdepth ⊢
      obtain ⟨left, hleft, hread⟩ := hobject.readsOn (.leftBracket :: (us ++ .rightBracket :: rest))
        (show _ ≤ depth + 7 by omega)
      obtain ⟨left, rfl⟩ := Nat.exists_eq_add_of_le' (show 1 ≤ left by omega)
      have hinner := (hkey.readsOn Level.nodup_all).reads_all hkey.isStart
        (show _ ≤ left by omega) .rightBracket (by simp) rest
      refine ⟨left, by omega, ?_⟩
      simp only [List.append_assoc, List.cons_append, List.nil_append]
      rw [hread, readIndexes, hinner]
      rfl

theorem DerivesPrimary.reads {ts rest : List Token} {e : Expr} {depth : Nat} :
    DerivesPrimary ts e → 8 * ts.length ≤ depth + 7 →
      readPrimary (depth + 1) (ts ++ rest) = .ok (e, rest)
  | .null, _ => rfl
  | .true, _ => rfl
  | .false, _ => rfl
  | .number _, _ => rfl
  | .string _, _ => rfl
  | .parens hinner, hdepth => by
      simp only [List.length_append, List.length_cons, List.length_nil] at hdepth
      have hread := (hinner.readsOn Level.nodup_all).reads_all hinner.isStart
        (show _ ≤ depth by omega) .rightParen (by simp) rest
      simp only [List.append_assoc, List.cons_append, List.nil_append]
      rw [readPrimary]
      dsimp only
      rw [hread]
      rfl
  | .emptyCall name, _ => rfl
  | .call harguments, hdepth => by
      simp only [List.length_append, List.length_cons, List.length_nil] at hdepth
      have hread := harguments.readsArguments rest (show _ ≤ depth by omega)
      obtain ⟨token, others, rfl, htoken⟩ := harguments.isStart
      simp only [List.append_assoc, List.cons_append, List.nil_append] at hread ⊢
      unfold readPrimary
      dsimp only
      split
      -- Arguments do not start with the parenthesis that would make this an empty call.
      case h_1 heq => cases heq; exact absurd List.mem_cons_self htoken
      case h_2 heq => cases heq; rw [hread]; rfl
      case h_3 hne => exact absurd rfl (hne _)
  | .emptyArray, hdepth => by
      simp only [List.length_cons, List.length_nil] at hdepth
      obtain ⟨depth, rfl⟩ := Nat.exists_eq_add_of_le' (show 1 ≤ depth by omega)
      rfl
  | .array hitems, hdepth => by
      simp only [List.length_append, List.length_cons, List.length_nil] at hdepth
      have hread := hitems.readsItems (show _ ≤ depth by omega) [] (by simp) rest
      simp only [List.append_assoc, List.cons_append, List.nil_append] at hread ⊢
      rw [readPrimary]
      dsimp only
      rw [hread]
      rfl
  | .arrayWithComma hitems, hdepth => by
      simp only [List.length_append, List.length_cons, List.length_nil] at hdepth
      have hread := hitems.readsItems (show _ ≤ depth by omega) [.comma] (by simp) rest
      simp only [List.append_assoc, List.cons_append, List.nil_append] at hread ⊢
      rw [readPrimary]
      dsimp only
      rw [hread]
      rfl

theorem DerivesPath.reads {ts rest : List Token} {path : List Accessor} {depth : Nat} :
    DerivesPath ts path → 8 * ts.length ≤ depth → Ends [] rest →
      readPath (depth + 1) (ts ++ rest) = .ok (path, rest)
  | .nil, _, hends => by
      rw [List.nil_append, readPath.eq_5]
      · exact fun others => hends.ne_cons (by simp) others
      · exact fun others => hends.ne_cons (by simp) others
  | .property hpath, hdepth, hends => by
      simp only [List.length_cons] at hdepth
      obtain ⟨depth, rfl⟩ := Nat.exists_eq_add_of_le' (show 1 ≤ depth by omega)
      have hread := hpath.reads (show _ ≤ depth by omega) hends
      rw [List.cons_append, List.cons_append, readPath]
      dsimp only
      rw [hread]
      rfl
  | @DerivesPath.element ts _ _ _ hkey hpath, hdepth, hends => by
      simp only [List.length_append, List.length_cons] at hdepth
      obtain ⟨depth, rfl⟩ := Nat.exists_eq_add_of_le' (show 1 ≤ depth by omega)
      have hinner := (hkey.readsOn Level.nodup_all).reads_all hkey.isStart
        (show _ ≤ depth + 1 by omega) .rightBracket (by simp) (ts ++ rest)
      have hread := hpath.reads (show _ ≤ depth by omega) hends
      simp only [List.append_assoc, List.cons_append]
      rw [readPath, hinner]
      dsimp only [bind, Except.bind]
      rw [expect_self]
      dsimp only
      rw [hread]

theorem DerivesList.readsArguments {ts : List Token} {es : List Expr} {depth : Nat} :
    DerivesList ts es → ∀ rest, 8 * ts.length + 1 ≤ depth →
      readArguments depth (ts ++ .rightParen :: rest) = .ok (es, rest)
  | .last hitem, rest, hdepth => by
      obtain ⟨depth, rfl⟩ := Nat.exists_eq_add_of_le' (show 1 ≤ depth by omega)
      have hread := (hitem.readsOn Level.nodup_all).reads_all hitem.isStart
        (show _ ≤ depth by omega) .rightParen (by simp) rest
      rw [readArguments, hread]
      rfl
  | @DerivesList.cons _ us _ _ hitem hrest, rest, hdepth => by
      obtain ⟨depth, rfl⟩ := Nat.exists_eq_add_of_le' (show 1 ≤ depth by omega)
      simp only [List.length_append, List.length_cons] at hdepth
      have hread := (hitem.readsOn Level.nodup_all).reads_all hitem.isStart
        (show _ ≤ depth by omega) .comma (by simp) (us ++ .rightParen :: rest)
      have hfurther := hrest.readsArguments rest (show _ ≤ depth by omega)
      rw [List.append_assoc, List.cons_append, readArguments, hread]
      dsimp only [bind, Except.bind]
      rw [hfurther]

/-- A comma may stand before the closing bracket. -/
theorem DerivesList.readsItems {ts : List Token} {es : List Expr} {depth : Nat} :
    DerivesList ts es → 8 * ts.length + 2 ≤ depth → ∀ ending ∈ [[], [.comma]], ∀ rest,
      readItems depth (ts ++ (ending ++ .rightBracket :: rest)) = .ok (es, rest)
  | .last hitem, hdepth, ending, hending, rest => by
      obtain ⟨depth, rfl⟩ := Nat.exists_eq_add_of_le' (show 2 ≤ depth by omega)
      have hread := (hitem.readsOn Level.nodup_all).reads_all hitem.isStart
        (show _ ≤ depth + 1 by omega)
      simp only [List.mem_cons, List.not_mem_nil, or_false] at hending
      -- After a comma that ends the items, the bracket is found where an item could start.
      rcases hending with rfl | rfl
      · exact readItems_of_rightBracket (hitem.isStart.append _) (hread _ (by simp) _)
      · exact readItems_of_comma (hitem.isStart.append _) (hread _ (by simp) _) rfl
  | @DerivesList.cons _ us _ _ hitem hrest, hdepth, ending, hending, rest => by
      simp only [List.length_append, List.length_cons] at hdepth
      obtain ⟨depth, rfl⟩ := Nat.exists_eq_add_of_le' (show 1 ≤ depth by omega)
      have hread := (hitem.readsOn Level.nodup_all).reads_all hitem.isStart
        (show _ ≤ depth by omega) .comma (by simp) (us ++ (ending ++ .rightBracket :: rest))
      have hfurther := hrest.readsItems (show _ ≤ depth by omega) ending hending rest
      rw [List.append_assoc, List.cons_append]
      exact readItems_of_comma (hitem.isStart.append _) hread hfurther

end

/-! ## The bound on the descent -/

/-- The bound on the depth is not what stops the reading. -/
def IsSettled {α : Type} (outcome : Except SyntaxStop α) : Prop :=
  ∀ stop, outcome = .error stop → stop.fault ≠ .descentTooDeep

theorem isSettled_ok {α : Type} (value : α) : IsSettled (.ok value : Except SyntaxStop α) :=
  fun _ heq => nomatch heq

theorem isSettled_stop {α : Type} {fault : SyntaxFault} (hfault : fault ≠ .descentTooDeep)
    (left : List Token) : IsSettled (stop fault left : Except SyntaxStop α) := by
  intro stop heq
  cases heq
  exact hfault

theorem isSettled_expect {token : Token} {fault : SyntaxFault} (hfault : fault ≠ .descentTooDeep)
    (tokens : List Token) : IsSettled (expect token fault tokens) := by
  intro stop heq
  cases tokens with
  | nil => cases heq; exact hfault
  | cons next rest =>
      rw [expect] at heq
      split at heq
      case isTrue => cases heq
      case isFalse => cases heq; exact hfault

theorem IsSettled.bind {α β : Type} {outcome : Except SyntaxStop α}
    {next : α → Except SyntaxStop β} (houtcome : IsSettled outcome)
    (hnext : ∀ value, outcome = .ok value → IsSettled (next value)) :
    IsSettled (outcome >>= next) := by
  cases outcome with
  | error error => exact fun stop heq => houtcome stop (by cases heq; rfl)
  | ok value => exact hnext value rfl

theorem length_le_of_readLevels {depth : Nat} {levels : List Level} {tokens rest : List Token}
    {e : Expr} (hread : readLevels depth levels tokens = .ok (e, rest)) :
    rest.length ≤ tokens.length := by
  obtain ⟨ts, rfl, -⟩ := (soundTo depth).levels hread
  exact List.length_append ▸ Nat.le_add_left ..

theorem length_le_of_expect {depth : Nat} {levels : List Level} {tokens rest after : List Token}
    {e : Expr} {token : Token} {fault : SyntaxFault}
    (hread : readLevels depth levels tokens = .ok (e, rest))
    (hclose : expect token fault rest = .ok after) : after.length ≤ tokens.length := by
  have hrest := length_le_of_readLevels hread
  rw [expect_eq_ok_iff.mp hclose, List.length_cons] at hrest
  exact Nat.le_of_succ_le hrest

theorem length_le_of_readPrimary {depth : Nat} {tokens rest : List Token} {e : Expr}
    (hread : readPrimary depth tokens = .ok (e, rest)) : rest.length ≤ tokens.length := by
  obtain ⟨ts, rfl, -⟩ := (soundTo depth).primary hread
  exact List.length_append ▸ Nat.le_add_left ..

/-- A depth that suffices for the tokens to be read or refused. -/
structure SettledAt (depth : Nat) : Prop where
  levels : ∀ {levels : List Level} {tokens : List Token},
    8 * tokens.length + levels.length + 3 ≤ depth → IsSettled (readLevels depth levels tokens)
  operands : ∀ {level : Level} {tighter : List Level} {left : Expr} {tokens : List Token},
    8 * tokens.length + tighter.length + 1 ≤ depth →
      IsSettled (readOperands depth level tighter left tokens)
  unary : ∀ {tokens : List Token}, 8 * tokens.length + 2 ≤ depth →
    IsSettled (readUnary depth tokens)
  indexes : ∀ {object : Expr} {tokens : List Token}, 8 * tokens.length + 1 ≤ depth →
    IsSettled (readIndexes depth object tokens)
  primary : ∀ {tokens : List Token}, 8 * tokens.length + 1 ≤ depth →
    IsSettled (readPrimary depth tokens)
  path : ∀ {tokens : List Token}, 8 * tokens.length + 1 ≤ depth → IsSettled (readPath depth tokens)
  arguments : ∀ {tokens : List Token}, 8 * tokens.length + 8 ≤ depth →
    IsSettled (readArguments depth tokens)
  items : ∀ {tokens : List Token}, 8 * tokens.length + 8 ≤ depth →
    IsSettled (readItems depth tokens)

namespace SettledAt

variable {depth : Nat} {tokens : List Token}

theorem succ_levels (hsettled : SettledAt depth) {levels : List Level}
    (hdepth : 8 * tokens.length + levels.length + 3 ≤ depth + 1) :
    IsSettled (readLevels (depth + 1) levels tokens) := by
  cases levels with
  | nil =>
      rw [List.length_nil] at hdepth
      exact readLevels.eq_2 tokens depth ▸ hsettled.unary (by omega)
  | cons level tighter =>
      rw [List.length_cons] at hdepth
      rw [readLevels]
      refine (hsettled.levels (by omega)).bind fun ⟨left, rest⟩ hleft => ?_
      -- Soundness says that the first operand has not made the tokens longer.
      have hrest := length_le_of_readLevels hleft
      exact hsettled.operands (by omega)

theorem succ_operands (hsettled : SettledAt depth) {level : Level} {tighter : List Level}
    {left : Expr} (hdepth : 8 * tokens.length + tighter.length + 1 ≤ depth + 1) :
    IsSettled (readOperands (depth + 1) level tighter left tokens) := by
  cases tokens with
  | nil => exact isSettled_ok _
  | cons token others =>
      rw [List.length_cons] at hdepth
      rw [readOperands]
      split
      case h_1 => exact isSettled_ok _
      case h_2 op _ =>
          refine (hsettled.levels (by omega)).bind fun ⟨right, rest⟩ hright => ?_
          have hrest := length_le_of_readLevels hright
          exact hsettled.operands (by omega)

theorem succ_unary (hsettled : SettledAt depth) (hdepth : 8 * tokens.length + 2 ≤ depth + 1) :
    IsSettled (readUnary (depth + 1) tokens) := by
  unfold readUnary
  split
  case h_1 => omega
  case h_2 heq =>
      rw [List.length_cons] at hdepth
      cases heq
      exact (hsettled.unary (by omega)).bind fun _ _ => isSettled_ok _
  case h_3 heq _ =>
      cases heq
      refine (hsettled.primary (by omega)).bind fun ⟨object, rest⟩ hobject => ?_
      have hrest := length_le_of_readPrimary hobject
      exact hsettled.indexes (by omega)

theorem all (hsettled : SettledAt depth) (hdepth : 8 * tokens.length + 7 ≤ depth) :
    IsSettled (readLevels depth Level.all tokens) :=
  hsettled.levels hdepth

theorem succ_indexes (hsettled : SettledAt depth) {object : Expr}
    (hdepth : 8 * tokens.length + 1 ≤ depth + 1) :
    IsSettled (readIndexes (depth + 1) object tokens) := by
  by_cases hbracket : tokens.head? = some .leftBracket
  · obtain ⟨others, rfl⟩ := List.head?_eq_some_iff.mp hbracket
    rw [List.length_cons] at hdepth
    rw [readIndexes]
    refine (hsettled.all (by omega)).bind fun ⟨key, rest⟩ hkey => ?_
    refine (isSettled_expect (by decide) rest).bind fun after hclose => ?_
    have hafter := length_le_of_expect hkey hclose
    exact hsettled.indexes (by omega)
  · rw [readIndexes_of_head?_ne hbracket]
    exact isSettled_ok _

theorem succ_path (hsettled : SettledAt depth) (hdepth : 8 * tokens.length + 1 ≤ depth + 1) :
    IsSettled (readPath (depth + 1) tokens) := by
  unfold readPath
  split
  case h_1 => contradiction
  case h_2 heq =>
      cases heq
      rw [List.length_cons] at hdepth
      split
      case h_1 =>
          rw [List.length_cons] at hdepth
          exact (hsettled.path (by omega)).bind fun _ _ => isSettled_ok _
      case h_2 => exact isSettled_stop (by decide) _
  case h_3 heq =>
      cases heq
      rw [List.length_cons] at hdepth
      refine (hsettled.all (by omega)).bind fun ⟨key, rest⟩ hkey => ?_
      refine (isSettled_expect (by decide) rest).bind fun after hclose => ?_
      have hafter := length_le_of_expect hkey hclose
      exact (hsettled.path (by omega)).bind fun _ _ => isSettled_ok _
  case h_4 => exact isSettled_ok _

theorem succ_arguments (hsettled : SettledAt depth) (hdepth : 8 * tokens.length + 8 ≤ depth + 1) :
    IsSettled (readArguments (depth + 1) tokens) := by
  rw [readArguments]
  refine (hsettled.all (by omega)).bind fun ⟨argument, rest⟩ hread => ?_
  have hrest := length_le_of_readLevels hread
  dsimp only
  split
  case h_1 others =>
      rw [List.length_cons] at hrest
      exact (hsettled.arguments (by omega)).bind fun _ _ => isSettled_ok _
  case h_2 => exact (isSettled_expect (by decide) _).bind fun _ _ => isSettled_ok _

theorem succ_items (hsettled : SettledAt depth) (hdepth : 8 * tokens.length + 8 ≤ depth + 1) :
    IsSettled (readItems (depth + 1) tokens) := by
  unfold readItems
  split
  case h_1 => contradiction
  case h_2 => exact isSettled_ok _
  case h_3 heq _ =>
      cases heq
      refine (hsettled.all (by omega)).bind fun ⟨item, rest⟩ hread => ?_
      have hrest := length_le_of_readLevels hread
      dsimp only
      split
      case h_1 others =>
          rw [List.length_cons] at hrest
          exact (hsettled.items (by omega)).bind fun _ _ => isSettled_ok _
      case h_2 => exact (isSettled_expect (by decide) _).bind fun _ _ => isSettled_ok _

theorem succ_primary (hsettled : SettledAt depth) (hdepth : 8 * tokens.length + 1 ≤ depth + 1) :
    IsSettled (readPrimary (depth + 1) tokens) := by
  cases tokens with
  | nil => exact isSettled_stop (by decide) _
  | cons token others =>
      rw [List.length_cons] at hdepth
      -- The token that is taken here pays for starting over with all levels.
      cases token with
      | nullWord | trueWord | falseWord | number | string => exact isSettled_ok _
      | identifier name =>
          unfold readPrimary
          dsimp only
          split
          case h_1 => exact isSettled_ok _
          case h_2 =>
              rw [List.length_cons] at hdepth
              exact (hsettled.arguments (by omega)).bind fun _ _ => isSettled_ok _
          case h_3 => exact (hsettled.path (by omega)).bind fun _ _ => isSettled_ok _
      | leftParen =>
          refine (hsettled.all (by omega)).bind fun ⟨inner, rest⟩ _ => ?_
          exact (isSettled_expect (by decide) rest).bind fun _ _ => isSettled_ok _
      | leftBracket => exact (hsettled.items (by omega)).bind fun _ _ => isSettled_ok _
      | _ => exact isSettled_stop (by simp) _

end SettledAt

theorem settledAt (depth : Nat) : SettledAt depth := by
  induction depth with
  | zero => constructor <;> intros <;> omega
  | succ depth ih =>
      exact ⟨ih.succ_levels, ih.succ_operands, ih.succ_unary, ih.succ_indexes, ih.succ_primary,
        ih.succ_path, ih.succ_arguments, ih.succ_items⟩

/-! ## The parser -/

/-- The whole list, before a fault is located in it. -/
def readWhole (tokens : List Token) : Except SyntaxStop Expr := do
  let (e, rest) ← readLevels (descentBound tokens) Level.all tokens
  match rest with
  | [] => .ok e
  | token :: others => stop (.unexpectedToken (some token)) (token :: others)

theorem parseTokens_eq_readWhole {tokens : List Token} (hne : tokens ≠ []) :
    parseTokens tokens = (readWhole tokens).mapError (·.locate tokens.length) := by
  obtain ⟨token, rest, rfl⟩ := List.exists_cons_of_ne_nil hne
  rw [parseTokens, readWhole]
  · dsimp only
    rcases readLevels (descentBound (token :: rest)) Level.all (token :: rest) with
      stop | ⟨e, _ | ⟨next, others⟩⟩ <;> rfl
  · exact hne

theorem readWhole_eq_ok_iff {tokens : List Token} {e : Expr} :
    readWhole tokens = .ok e ↔ Derives Level.all tokens e := by
  constructor
  · intro hread
    obtain ⟨⟨e, rest⟩, hlevels, hnext⟩ := bind_eq_ok_iff.mp hread
    obtain ⟨ts, htokens, hderives⟩ := (soundTo _).levels hlevels
    cases rest with
    | nil => cases hnext; rwa [htokens, List.append_nil]
    | cons token others => cases hnext
  · intro hderives
    have hread := (hderives.readsOn Level.nodup_all).reads hderives.isStart
      (show _ ≤ descentBound tokens + 4 from Nat.add_le_add_right (Nat.le_add_right _ 8) 4)
      (ends_nil Level.all)
    rw [List.append_nil] at hread
    rw [readWhole, hread]
    rfl

theorem isSettled_readWhole (tokens : List Token) : IsSettled (readWhole tokens) := by
  refine ((settledAt _).all (Nat.add_le_add_left (by decide) _)).bind fun ⟨e, rest⟩ _ => ?_
  cases rest with
  | nil => exact isSettled_ok e
  | cons token others => exact isSettled_stop (by simp) _

theorem parseTokens_eq_ok_iff {tokens : List Token} {e : Expr} :
    parseTokens tokens = .ok e ↔ Derives Level.all tokens e := by
  by_cases hne : tokens = []
  · subst hne
    refine ⟨fun hread => ?_, fun hderives => ?_⟩
    · cases hread
    · exact absurd hderives.isStart.length_pos (Nat.lt_irrefl 0)
  · rw [parseTokens_eq_readWhole hne, ← readWhole_eq_ok_iff]
    cases readWhole tokens <;> simp [Except.mapError]

theorem fault_ne_descentTooDeep {tokens : List Token} {error : SyntaxError}
    (herror : parseTokens tokens = .error error) : error.fault ≠ .descentTooDeep := by
  by_cases hne : tokens = []
  · subst hne
    cases herror
    decide
  · rw [parseTokens_eq_readWhole hne] at herror
    cases hread : readWhole tokens with
    | ok e => rw [hread] at herror; cases herror
    | error stop =>
        rw [hread] at herror
        cases herror
        exact isSettled_readWhole tokens stop hread

/-- The parser reads a list of tokens as an expression exactly when the grammar derives it.  Every
other list has a fault of its own, never that of a descent too deep. -/
theorem parser_accepts_exactly_the_grammar (tokens : List Token) :
    (∀ e, parseTokens tokens = .ok e ↔ Derives Level.all tokens e) ∧
    ((∀ e, ¬ Derives Level.all tokens e) →
      ∃ error, parseTokens tokens = .error error ∧ error.fault ≠ .descentTooDeep) := by
  refine ⟨fun e => parseTokens_eq_ok_iff, fun hnone => ?_⟩
  cases hread : parseTokens tokens with
  | ok e => exact absurd (parseTokens_eq_ok_iff.mp hread) (hnone e)
  | error error => exact ⟨error, rfl, fault_ne_descentTooDeep hread⟩

end BuildPipeline.Expression
