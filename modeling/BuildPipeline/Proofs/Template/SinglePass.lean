import BuildPipeline.Proofs.Expression.Embedding

/-!
# One pass over a text

Filling in a text reads each character once.  What an expression comes to is written down and not
looked at again, so its text may hold openings, quotes and braces of its own: filling in goes on
behind the span.

* `interpolateChars_append_expansionMark` copies a text up to the first opening.
* `closeBraces?_of_isNeutral` finds the end of the span: the braces behind a neutral text, whatever
  follows them.
* `interpolate_insertion` is one step, over an expression and the text in front of it.
* `filled_in_text_is_not_filled_in_again` is the step with its two outcomes written out.
-/

namespace BuildPipeline.Template

open Expression Text

/-! ## Up to an opening, and from it to its end -/

/-- An opening does not reach into the opening behind it: none of its later characters is a dollar.
-/
theorem not_expansionMark_prefix_append_expansionMark {c : Char} {front : List Char}
    (rest : List Char) (hfront : ¬ expansionMark <:+: c :: front) :
    ¬ expansionMark <+: c :: front ++ (expansionMark ++ rest) := by
  intro hmark
  have hdollar : c :: (front ++ ['$']) <+: c :: front ++ (expansionMark ++ rest) :=
    ⟨'\x7b' :: '\x7b' :: rest, by simp [expansionMark]⟩
  rcases List.prefix_or_prefix_of_prefix hmark hdollar with hinside | hover
  · rw [← List.cons_append] at hinside
    rcases List.prefix_concat_iff.mp hinside with heq | hbefore
    · have hlast := congrArg List.getLast? heq
      rw [List.getLast?_concat] at hlast
      exact absurd hlast (by decide)
    · exact hfront hbefore.isInfix
  · have hlater : '$' ∈ ['\x7b', '\x7b'] := by
      have htail := (List.cons_prefix_cons.mp hover).2
      exact htail.subset (by simp)
    exact absurd hlater (by decide)

theorem Scope.interpolateChars_append_expansionMark (scope : Scope) {front : List Char}
    (rest : List Char) (hfront : ¬ expansionMark <:+: front) :
    scope.interpolateChars (front ++ (expansionMark ++ rest)) =
      (scope.interpolateChars (expansionMark ++ rest)).map (front ++ ·) := by
  induction front with
  | nil =>
      rw [List.nil_append]
      cases scope.interpolateChars (expansionMark ++ rest) <;> rfl
  | cons c front ih =>
      have hmark := not_expansionMark_prefix_append_expansionMark rest hfront
      have hlater : ¬ expansionMark <:+: front := fun hfound => hfront (List.infix_cons hfound)
      rw [List.cons_append] at hmark ⊢
      rw [interpolateChars_of_not_mark hmark, ih hlater]
      cases scope.interpolateChars (expansionMark ++ rest) <;> rfl

theorem closeBraces?_of_isNeutral {body : List Char} (hneutral : IsNeutral body)
    (after : List Char) :
    closeBraces? false (body ++ '\x7d' :: '\x7d' :: after) = some (body, after) := by
  have hend : closeBraces? false ('\x7d' :: '\x7d' :: after) = some ([], after) := rfl
  have hclose := (hneutral 0).closeBraces?_append hend
  rwa [List.append_nil] at hclose

/-! ## Insertions -/

/-- An expression to fill in, and the text in front of it, which opens no span. -/
structure Insertion where
  before : String
  expression : String
  tree : Expr
  unopened : ¬ expansionMark <:+: before.toList
  parses : parse expression = .ok tree

namespace Insertion

def text (insertion : Insertion) : String :=
  insertion.before ++ "$\x7b\x7b " ++ insertion.expression ++ " \x7d\x7d"

/-- What stands between the braces. -/
def body (insertion : Insertion) : List Char :=
  ' ' :: (insertion.expression.toList ++ [' '])

theorem toList_text (insertion : Insertion) :
    insertion.text.toList =
      insertion.before.toList ++ (expansionMark ++ (insertion.body ++ ['\x7d', '\x7d'])) := by
  simp [text, body, expansionMark]

theorem trimmedBody_body (insertion : Insertion) :
    trimmedBody insertion.body = Text.trim insertion.expression := by
  have hblank : AllBlank [' '] := List.forall_mem_singleton.mpr (by decide)
  have htrim : trimChars ([' '] ++ insertion.expression.toList ++ [' ']) =
      trimChars insertion.expression.toList := trimChars_between_blanks hblank hblank
  rw [trimmedBody, Text.trim, ← htrim]
  rfl

theorem isNeutral_body (insertion : Insertion) : IsNeutral insertion.body := by
  have hblank : IsNeutral [' '] := Skips.of_forall (List.forall_mem_singleton.mpr (by decide))
  exact fun depth => (hblank depth).append
    ((isNeutral_of_parse insertion.parses depth).append (hblank depth))

/-- The text in front, and the value or the error of the expression. -/
def fill (scope : Scope) (insertion : Insertion) : Except Error String :=
  match Expression.evaluate scope.context insertion.tree with
  | .ok value => .ok (insertion.before ++ value.asText)
  | .error error => scope.fail (.evaluation (Text.trim insertion.expression) error.detail)

theorem eval_expression (scope : Scope) (insertion : Insertion) :
    (scope.eval (Text.trim insertion.expression)).map (insertion.before ++ ·.asText) =
      insertion.fill scope := by
  rw [Scope.eval, evaluateText_trim insertion.parses, fill]
  cases Expression.evaluate scope.context insertion.tree <;> rfl

end Insertion

theorem Scope.interpolate_insertion (scope : Scope) (insertion : Insertion) (post : String) :
    scope.interpolate (insertion.text ++ post) = do
      let filled ← insertion.fill scope
      return filled ++ (← scope.interpolate post) := by
  have hchars : scope.interpolateChars (insertion.text ++ post).toList =
      (scope.eval (Text.trim insertion.expression) >>= fun value =>
        (scope.interpolateChars post.toList).map (value.asText.toList ++ ·)).map
          (insertion.before.toList ++ ·) := by
    rw [String.toList_append, insertion.toList_text, List.append_assoc, List.append_assoc,
      List.append_assoc, scope.interpolateChars_append_expansionMark _ insertion.unopened,
      interpolateChars_expansionMark, List.cons_append, List.cons_append, List.nil_append,
      closeBraces?_of_isNeutral insertion.isNeutral_body, ← insertion.trimmedBody_body]
  rw [interpolate, hchars, ← insertion.eval_expression, interpolate]
  cases scope.eval (Text.trim insertion.expression) with
  | error error => rfl
  | ok value =>
      cases scope.interpolateChars post.toList with
      | error error => rfl
      | ok rest =>
          simp [bind, Except.bind, pure, Except.pure, Except.map, String.append_assoc]

/-- Around an expression, a text is filled in as follows: what stands before the opening is copied,
the text of the value is put in as it is, whatever it holds, and the text behind the span is filled
in by itself.  The error of the expression comes before those behind it. -/
theorem filled_in_text_is_not_filled_in_again (scope : Scope) {pre text : String} {e : Expr}
    (post : String) (hpre : ¬ expansionMark <:+: pre.toList) (hparse : parse text = .ok e) :
    scope.interpolate (pre ++ "$\x7b\x7b " ++ text ++ " \x7d\x7d" ++ post) =
      match Expression.evaluate scope.context e with
      | .error error => scope.fail (.evaluation (Text.trim text) error.detail)
      | .ok value => (scope.interpolate post).map fun rest => pre ++ value.asText ++ rest := by
  have hinsertion := scope.interpolate_insertion ⟨pre, text, e, hpre, hparse⟩ post
  rw [Insertion.text, Insertion.fill] at hinsertion
  rw [hinsertion]
  cases Expression.evaluate scope.context e with
  | error error => rfl
  | ok value => cases scope.interpolate post <;> rfl

namespace Literal

/-- The value of the parameter is a text with a span, a quote and a directive in it. -/
def value : String := "it's $\x7b\x7b parameters.text \x7d\x7d $\x7b\x7b if true \x7d\x7d"

def scope : Scope :=
  ⟨{ parameters := [("text", .string value)] }, "pipeline.yml"⟩

/-- Closing braces in a quoted text. -/
def expression : String := "coalesce(parameters.text, '\x7d\x7d')"

def tree : Expr :=
  .call "coalesce" [.reference "parameters" [.property "text"], .string "\x7d\x7d"]

theorem parse_expression : parse expression = .ok tree := by
  have htokens : tokenize expression = .ok [.identifier "coalesce", .leftParen,
      .identifier "parameters", .dot, .identifier "text", .comma, .string "\x7d\x7d",
      .rightParen] := by
    decide +kernel
  rw [parse, htokens]
  rfl

theorem evaluate_tree : Expression.evaluate scope.context tree = .ok (.string value) := by
  rfl

theorem interpolate_later :
    scope.interpolate " and $\x7b\x7b parameters.text \x7d\x7d" = .ok (" and " ++ value) :=
  eq_ok_of_toOption (by decide +kernel)

end Literal

/-- The spans in the values stay, here and in the rest of the text. -/
theorem filled_in_text_is_not_filled_in_again_literal :
    (¬ expansionMark <:+: "echo $".toList) ∧ parse Literal.expression = .ok Literal.tree ∧
      Literal.scope.interpolate ("echo $" ++ "$\x7b\x7b " ++ Literal.expression ++ " \x7d\x7d" ++
          " and $\x7b\x7b parameters.text \x7d\x7d") =
        .ok ("echo $" ++ Literal.value ++ (" and " ++ Literal.value)) := by
  have hpre : ¬ expansionMark <:+: "echo $".toList := by decide
  refine ⟨hpre, Literal.parse_expression, ?_⟩
  rw [filled_in_text_is_not_filled_in_again Literal.scope _ hpre Literal.parse_expression,
    Literal.evaluate_tree]
  dsimp only
  rw [Literal.interpolate_later]
  rfl

end BuildPipeline.Template
