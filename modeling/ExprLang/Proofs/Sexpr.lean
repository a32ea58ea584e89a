import ExprLang.Proofs.Returned
import ExprLang.Proofs.Sexp

/-! # The S-expression of a tree identifies it

The text of a tree is that of an S-expression (`Expr.chars_toSexp`), which the text identifies.
From the S-expression the tree can be read back (`Expr.toExpr_toSexp`): the first word of a list
tells what kind of tree it is, and any other word says by itself whether it is a number, a truth
value or a name.  This needs a tree that comes from a source, because only the lexer makes a name
begin with a small letter and be no keyword. -/

namespace ExprLang

/-! ### The S-expression of a tree -/

namespace Expr

mutual

/-- The S-expression of a tree. -/
def toSexp : Expr → Sexp
  | .number x => .word x.display
  | .string s => .quoted s
  | .boolean b => .word (toString b)
  | .variable name => .word name
  | .lambda parameters body =>
    .list [.word "lambda", .list (parameters.map .word), body.toSexp]
  | .call function arguments => .list (.word "call" :: function.toSexp :: toSexps arguments)
  | .condition test consequent none => .list [.word "if", test.toSexp, consequent.toSexp]
  | .condition test consequent (some alternative) =>
    .list [.word "if", test.toSexp, consequent.toSexp, alternative.toSexp]
  | .assignment target value => .list [.word "=", target.toSexp, value.toSexp]
  | .binary op left right => .list [.word op.text, left.toSexp, right.toSexp]
  | .program body => .list (.word "program" :: toSexps body)

/-- The S-expressions of trees. -/
def toSexps : List Expr → List Sexp
  | [] => []
  | e :: es => e.toSexp :: toSexps es

end

theorem inside_words (parameters : List String) :
    Sexp.inside (parameters.map .word) = (" ".intercalate parameters).toList ++ [')'] := by
  cases parameters with
  | nil => rfl
  | cons p ps =>
      rw [String.toList_intercalate]
      induction ps generalizing p with
      | nil => simp [Sexp.inside, Sexp.behind, Sexp.chars]
      | cons q ps ih =>
          specialize ih q
          simp only [List.map_cons, Sexp.inside, Sexp.behind, Sexp.chars] at ih ⊢
          rw [List.intercalate_cons_cons, ih]
          simp

mutual

theorem chars_toSexp : (e : Expr) → e.toSexp.chars = e.sexpr.toList
  | .number x => by simp [toSexp, sexpr, Sexp.chars]
  | .string s => by simp [toSexp, sexpr, Sexp.chars, quoteString]
  | .boolean b => by simp [toSexp, sexpr, Sexp.chars]
  | .variable name => by simp [toSexp, sexpr, Sexp.chars]
  | .lambda parameters body => by
      simp [toSexp, sexpr, Sexp.chars, Sexp.inside, Sexp.behind, inside_words, chars_toSexp body]
  | .call function arguments => by
      simp [toSexp, sexpr, Sexp.chars, Sexp.inside, Sexp.behind, chars_toSexp function,
        behind_toSexps arguments]
  | .condition test consequent none => by
      simp [toSexp, sexpr, Sexp.chars, Sexp.inside, Sexp.behind, chars_toSexp test,
        chars_toSexp consequent]
  | .condition test consequent (some alternative) => by
      simp [toSexp, sexpr, Sexp.chars, Sexp.inside, Sexp.behind, chars_toSexp test,
        chars_toSexp consequent, chars_toSexp alternative]
  | .assignment target value => by
      simp [toSexp, sexpr, Sexp.chars, Sexp.inside, Sexp.behind, chars_toSexp target,
        chars_toSexp value]
  | .binary op left right => by
      simp [toSexp, sexpr, Sexp.chars, Sexp.inside, Sexp.behind, chars_toSexp left,
        chars_toSexp right]
  | .program body => by
      simp [toSexp, sexpr, Sexp.chars, Sexp.inside, behind_toSexps body]

theorem behind_toSexps : (es : List Expr) →
    Sexp.behind (toSexps es) = (sexprs es).toList ++ [')']
  | [] => by simp [toSexps, sexprs, Sexp.behind]
  | e :: es => by
      simp [toSexps, sexprs, Sexp.behind, chars_toSexp e, behind_toSexps es]

end

/-! ### Reading the tree back -/

/-- The tree that a word stands for. -/
def ofWord (text : String) : Expr :=
  if text = "true" then .boolean true
  else if text = "false" then .boolean false
  else if text.toList.head?.any Char.isDigit then (Number.ofText? text).elim default .number
  else .variable text

/-- The tree of which a list begins with the word `head`. -/
def assemble (head : String) (parameters : List String) (operands : List Expr) : Expr :=
  match head, operands with
  | "lambda", [_, body] => .lambda parameters body
  | "call", function :: arguments => .call function arguments
  | "if", [test, consequent] => .condition test consequent none
  | "if", [test, consequent, alternative] => .condition test consequent (some alternative)
  | "=", [target, value] => .assignment target value
  | "program", body => .program body
  | text, [left, right] => (BinaryOperator.ofText? text).elim default (.binary · left right)
  | _, _ => default

end Expr

namespace Sexp

/-- The text of a word. -/
def text : Sexp → String
  | .word text => text
  | _ => ""

/-- The words in a list. -/
def words : Sexp → List String
  | .list items => items.map text
  | _ => []

mutual

/-- The tree that an S-expression is of. -/
def toExpr : Sexp → Expr
  | .word text => .ofWord text
  | .quoted text => .string text
  | .list [] => default
  | .list (head :: operands) =>
    .assemble head.text (operands.head?.elim [] words) (toExprs operands)

/-- The trees that S-expressions are of. -/
def toExprs : List Sexp → List Expr
  | [] => []
  | s :: ss => s.toExpr :: toExprs ss

end

end Sexp

/-! ### Reading back what is readable -/

/-- Every number in the tree is finite. -/
def Expr.FiniteNumbers (e : Expr) : Prop :=
  ∀ x, (Expr.number x).Occurs e → ∃ negative m, x = .finite negative m

/-- Every node of the tree can be printed: its numbers are finite and have no minus sign, and its
names are those of variables. -/
abbrev Expr.Readable : Expr → Prop := LegalNodes fun x => ∃ m, x = .finite false m

namespace Expr

variable {e e' t t' : Expr}

theorem head_display (m : Magnitude) :
    ∃ c cs, (Number.finite false m).display.toList = c :: cs ∧ c.isDigit := by
  obtain ⟨d, hnumeral, -⟩ := Number.numeral_display m
  obtain ⟨c, cs, hchars⟩ := List.exists_cons_of_ne_nil hnumeral.ne_nil
  rw [hchars] at hnumeral
  exact ⟨c, cs, hchars, hnumeral.head_isDigit⟩

theorem ofWord_display (m : Magnitude) :
    ofWord (Number.finite false m).display = .number (.finite false m) := by
  obtain ⟨c, cs, hchars, hdigit⟩ := head_display m
  have hword : ∀ {text : String} {d ds}, text.toList = d :: ds → d.isDigit = false →
      (Number.finite false m).display ≠ text := by
    rintro _ d ds htext hd rfl
    rw [hchars] at htext
    rw [← (List.cons.inj htext).1, hdigit] at hd
    cases hd
  have htrue : (Number.finite false m).display ≠ "true" := hword rfl rfl
  have hfalse : (Number.finite false m).display ≠ "false" := hword rfl rfl
  unfold ofWord
  rw [if_neg htrue, if_neg hfalse, hchars, if_pos (by simpa using hdigit), Number.ofText?_display]
  rfl

theorem ofWord_name {x : String} (hx : IsName x) : ofWord x = .variable x := by
  obtain ⟨c, run, hchars, hc, -, hkeyword⟩ := hx
  have htrue : x ≠ "true" := (hkeyword .trueWord).symm
  have hfalse : x ≠ "false" := (hkeyword .falseWord).symm
  unfold ofWord
  rw [if_neg htrue, if_neg hfalse, hchars, if_neg]
  simpa using hc.isDigit_eq_false

theorem toExpr_lambda (parameters : List String) (body : Sexp) :
    (Sexp.list [.word "lambda", .list (parameters.map .word), body]).toExpr =
      .lambda parameters body.toExpr := by
  have hwords : (Sexp.list (parameters.map .word)).words = parameters := by
    show (parameters.map Sexp.word).map Sexp.text = parameters
    rw [List.map_map]
    exact List.map_id'' (fun _ => rfl) parameters
  simp only [Sexp.toExpr, Sexp.toExprs]
  show Expr.lambda (Sexp.list (parameters.map .word)).words body.toExpr = _
  rw [hwords]

theorem assemble_binary (op : BinaryOperator) (left right : Expr) (parameters : List String) :
    assemble op.text parameters [left, right] = .binary op left right := by
  cases op <;> rfl

mutual

/-- The tree can be read back from its S-expression. -/
theorem toExpr_toSexp : (e : Expr) → e.Readable → e.toSexp.toExpr = e
  | .number x, he => by
      obtain ⟨m, rfl⟩ := he _ .whole
      exact ofWord_display m
  | .string s, he => rfl
  | .boolean true, he => rfl
  | .boolean false, he => rfl
  | .variable name, he => ofWord_name (he _ .whole)
  | .lambda parameters body, he => by
      have hbody := toExpr_toSexp body (he.of_occurs (.body .whole))
      rw [toSexp, toExpr_lambda, hbody]
  | .call function arguments, he => by
      have hf := toExpr_toSexp function (he.of_occurs (.function .whole))
      have has := toExprs_toSexps arguments fun a ha => he.of_occurs (.argument ha .whole)
      simp only [toSexp, Sexp.toExpr, Sexp.toExprs, hf, has]
      rfl
  | .condition test consequent none, he => by
      have ht := toExpr_toSexp test (he.of_occurs (.test .whole))
      have hc := toExpr_toSexp consequent (he.of_occurs (.consequent .whole))
      simp only [toSexp, Sexp.toExpr, Sexp.toExprs, ht, hc]
      rfl
  | .condition test consequent (some alternative), he => by
      have ht := toExpr_toSexp test (he.of_occurs (.test .whole))
      have hc := toExpr_toSexp consequent (he.of_occurs (.consequent .whole))
      have ha := toExpr_toSexp alternative (he.of_occurs (.alternative .whole))
      simp only [toSexp, Sexp.toExpr, Sexp.toExprs, ht, hc, ha]
      rfl
  | .assignment target value, he => by
      have ht := toExpr_toSexp target (he.of_occurs (.target .whole))
      have hv := toExpr_toSexp value (he.of_occurs (.value .whole))
      simp only [toSexp, Sexp.toExpr, Sexp.toExprs, ht, hv]
      rfl
  | .binary op left right, he => by
      have hl := toExpr_toSexp left (he.of_occurs (.left .whole))
      have hr := toExpr_toSexp right (he.of_occurs (.right .whole))
      simp only [toSexp, Sexp.toExpr, Sexp.toExprs, hl, hr]
      exact assemble_binary op left right _
  | .program body, he => by
      have hbody := toExprs_toSexps body fun a ha => he.of_occurs (.item ha .whole)
      simp only [toSexp, Sexp.toExpr, hbody]
      rfl

theorem toExprs_toSexps : (es : List Expr) → (∀ e ∈ es, e.Readable) →
    Sexp.toExprs (toSexps es) = es
  | [], _ => rfl
  | e :: es, hes => by
      obtain ⟨he, hes⟩ := List.forall_mem_cons.mp hes
      rw [toSexps, Sexp.toExprs, toExpr_toSexp e he, toExprs_toSexps es hes]

end

/-! ### The text of what is readable -/

theorem plain_of_numeral {text : List Char} {d : Decimal} (h : Numeral text d) :
    ∀ c ∈ text, Sexp.Plain c := by
  have hdigit : ∀ c : Char, c.isDigit → Sexp.Plain c := by
    intro c hc
    exact Sexp.plain_of (by decide) hc
  cases h with
  | whole _ hdigits =>
      intro c hc
      exact hdigit c (hdigits c hc)
  | point _ hwhole hfraction =>
      intro c hc
      rcases List.mem_append.mp hc with hc | hc
      · exact hdigit c (hwhole c hc)
      · rcases List.mem_cons.mp hc with rfl | hc
        · decide
        · exact hdigit c (hfraction c hc)

theorem legible_display (m : Magnitude) : (Sexp.word (Number.finite false m).display).Legible := by
  obtain ⟨d, hnumeral, -⟩ := Number.numeral_display m
  exact .word hnumeral.ne_nil (plain_of_numeral hnumeral)

theorem legible_name {x : String} (hx : IsName x) : (Sexp.word x).Legible := by
  obtain ⟨c, run, hchars, hc, hrun, -⟩ := hx
  have hword : ∀ c, InWord c → Sexp.Plain c := by
    intro c hc
    exact Sexp.plain_of (q := isWordChar) (by decide) (isWordChar_iff.mpr hc)
  refine .word (by simp [hchars]) ?_
  rw [hchars]
  refine List.forall_mem_cons.mpr ⟨hword c (.inr (.inl hc)), ?_⟩
  intro x hx
  exact hword x (hrun x hx)

theorem legible_operator (op : BinaryOperator) : (Sexp.word op.text).Legible := by
  cases op <;> exact Sexp.legible_word (by decide) rfl

mutual

theorem legible_toSexp : (e : Expr) → e.Readable → e.toSexp.Legible
  | .number x, he => by
      obtain ⟨m, rfl⟩ := he _ .whole
      exact legible_display m
  | .string s, he => .quoted
  | .boolean true, he => Sexp.legible_word (by decide) rfl
  | .boolean false, he => Sexp.legible_word (by decide) rfl
  | .variable name, he => legible_name (he _ .whole)
  | .lambda parameters body, he => by
      have hbody := legible_toSexp body (he.of_occurs (.body .whole))
      have hparameters : ∀ s ∈ parameters.map Sexp.word, s.Legible := by
        intro s hs
        obtain ⟨p, hp, rfl⟩ := List.mem_map.mp hs
        exact legible_name (he _ .whole p hp)
      refine .list (List.forall_mem_cons.mpr ⟨Sexp.legible_word (by decide) rfl, ?_⟩)
      exact List.forall_mem_cons.mpr ⟨.list hparameters, List.forall_mem_singleton.mpr hbody⟩
  | .call function arguments, he => by
      have hf := legible_toSexp function (he.of_occurs (.function .whole))
      have has := legible_toSexps arguments fun a ha => he.of_occurs (.argument ha .whole)
      refine .list (List.forall_mem_cons.mpr ⟨Sexp.legible_word (by decide) rfl, ?_⟩)
      exact List.forall_mem_cons.mpr ⟨hf, has⟩
  | .condition test consequent none, he => by
      have ht := legible_toSexp test (he.of_occurs (.test .whole))
      have hc := legible_toSexp consequent (he.of_occurs (.consequent .whole))
      refine .list (List.forall_mem_cons.mpr ⟨Sexp.legible_word (by decide) rfl, ?_⟩)
      exact List.forall_mem_cons.mpr ⟨ht, List.forall_mem_singleton.mpr hc⟩
  | .condition test consequent (some alternative), he => by
      have ht := legible_toSexp test (he.of_occurs (.test .whole))
      have hc := legible_toSexp consequent (he.of_occurs (.consequent .whole))
      have ha := legible_toSexp alternative (he.of_occurs (.alternative .whole))
      refine .list (List.forall_mem_cons.mpr ⟨Sexp.legible_word (by decide) rfl, ?_⟩)
      refine List.forall_mem_cons.mpr ⟨ht, ?_⟩
      exact List.forall_mem_cons.mpr ⟨hc, List.forall_mem_singleton.mpr ha⟩
  | .assignment target value, he => by
      have ht := legible_toSexp target (he.of_occurs (.target .whole))
      have hv := legible_toSexp value (he.of_occurs (.value .whole))
      refine .list (List.forall_mem_cons.mpr ⟨Sexp.legible_word (by decide) rfl, ?_⟩)
      exact List.forall_mem_cons.mpr ⟨ht, List.forall_mem_singleton.mpr hv⟩
  | .binary op left right, he => by
      have hl := legible_toSexp left (he.of_occurs (.left .whole))
      have hr := legible_toSexp right (he.of_occurs (.right .whole))
      refine .list (List.forall_mem_cons.mpr ⟨legible_operator op, ?_⟩)
      exact List.forall_mem_cons.mpr ⟨hl, List.forall_mem_singleton.mpr hr⟩
  | .program body, he => by
      have hbody := legible_toSexps body fun a ha => he.of_occurs (.item ha .whole)
      exact .list (List.forall_mem_cons.mpr ⟨Sexp.legible_word (by decide) rfl, hbody⟩)

theorem legible_toSexps : (es : List Expr) → (∀ e ∈ es, e.Readable) →
    ∀ s ∈ toSexps es, s.Legible
  | [], _ => List.forall_mem_nil _
  | e :: es, hes => by
      obtain ⟨he, hes⟩ := List.forall_mem_cons.mp hes
      exact List.forall_mem_cons.mpr ⟨legible_toSexp e he, legible_toSexps es hes⟩

end

/-- The text of a readable tree is that of no other. -/
theorem Readable.sexpr_inj (he : e.Readable) (he' : e'.Readable) (h : e.sexpr = e'.sexpr) :
    e = e' := by
  have hchars : e.toSexp.chars = e'.toSexp.chars := by rw [chars_toSexp, chars_toSexp, h]
  have hsexp : e.toSexp = e'.toSexp :=
    Sexp.chars_inj (legible_toSexp e he) (legible_toSexp e' he') hchars
  calc e
    _ = e.toSexp.toExpr := (toExpr_toSexp e he).symm
    _ = e'.toSexp.toExpr := by rw [hsexp]
    _ = e' := toExpr_toSexp e' he'

/-! ### Trees from a source -/

/-- A part of such a tree is readable if its numbers are finite. -/
theorem Returned.readable (ht : t.Returned) (he : e.Occurs t) (hfinite : e.FiniteNumbers) :
    e.Readable := by
  intro n hn
  have hlegal := ht.legalNodes n (hn.trans he)
  cases n with
  | number x =>
      obtain ⟨negative, m, rfl⟩ := hfinite x hn
      rcases hlegal with hliteral | hinfinite
      · exact hliteral
      · cases hinfinite
  | _ => exact hlegal

/-- **The S-expression of a tree identifies it.**  Two expressions that occur in trees which parsers
have returned, and in which all numbers are finite, are equal if their S-expressions are the same
text. -/
theorem eq_of_sexpr_eq (ht : t.Returned) (ht' : t'.Returned) (he : e.Occurs t)
    (he' : e'.Occurs t') (hfinite : e.FiniteNumbers) (hfinite' : e'.FiniteNumbers)
    (h : e.sexpr = e'.sexpr) : e = e' := by
  have hreadable : e.Readable := ht.readable he hfinite
  have hreadable' : e'.Readable := ht'.readable he' hfinite'
  exact hreadable.sexpr_inj hreadable' h

/-- The same call in two programs. -/
theorem eq_of_sexpr_eq_call :
    let e : Expr := .call (.variable "f") [.string "\n", .number .zero]
    let e' : Expr := .call (.variable "f") [.string "\n", .number .zero]
    let t : Expr := .program [e]
    let t' : Expr := .program [.variable "x", .condition e' (.string "(call f)") none]
    t.Returned ∧ t'.Returned ∧ e.Occurs t ∧ e'.Occurs t' ∧ e.FiniteNumbers ∧ e'.FiniteNumbers ∧
      e.sexpr = "(call f \"\\n\" 0)" ∧ e'.sexpr = "(call f \"\\n\" 0)" ∧ e = e' := by
  intro e e' t t'
  have hf : IsName "f" := by
    refine ⟨'f', [], rfl, by decide, List.forall_mem_nil _, fun k => ?_⟩
    cases k <;> decide
  have hx : IsName "x" := by
    refine ⟨'x', [], rfl, by decide, List.forall_mem_nil _, fun k => ?_⟩
    cases k <;> decide
  have hlegal : e.WellFormed := by
    refine .call (.name hf) (List.forall_mem_cons.mpr ⟨.string, ?_⟩)
    exact List.forall_mem_singleton.mpr (.number ⟨.zero, rfl⟩)
  have hlegal' : e'.WellFormed := hlegal
  have hprogram : ∀ a ∈ [e], a.WellFormed := List.forall_mem_singleton.mpr hlegal
  have hprogram' : ∀ a ∈ [Expr.variable "x", .condition e' (.string "(call f)") none],
      a.WellFormed := by
    refine List.forall_mem_cons.mpr ⟨.name hx, List.forall_mem_singleton.mpr ?_⟩
    exact .condition hlegal' .string fun _ h => absurd h (Option.not_mem_none _)
  have ht : t.Returned :=
    .program (Parser.Calls.inSource .start) (Expr.ofSource_print.1 _ hprogram)
  have ht' : t'.Returned :=
    .program (Parser.Calls.inSource .start) (Expr.ofSource_print.1 _ hprogram')
  have hoccurs : e.Occurs t := .item List.mem_cons_self .whole
  have hoccurs' : e'.Occurs t' :=
    .item (List.mem_cons_of_mem _ List.mem_cons_self) (.test .whole)
  have hfinite : ∀ e : Expr, e.WellFormed → e.FiniteNumbers := by
    intro e he x hx
    obtain ⟨m, rfl⟩ := (he.of_occurs hx).legalNode
    exact ⟨false, m, rfl⟩
  have htext : e.sexpr = "(call f \"\\n\" 0)" := by decide +kernel
  have htext' : e'.sexpr = "(call f \"\\n\" 0)" := by decide +kernel
  have heq : e = e' := eq_of_sexpr_eq ht ht' hoccurs hoccurs' (hfinite e hlegal)
    (hfinite e' hlegal') (htext.trans htext'.symm)
  exact ⟨ht, ht', hoccurs, hoccurs', hfinite e hlegal, hfinite e' hlegal', htext, htext', heq⟩

end Expr

end ExprLang
