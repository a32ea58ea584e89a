import ExprLang.Proofs.Progress
import ExprLang.Proofs.RoundTrip

/-! # What a parser returns

A parser that stands anywhere in a source returns trees of which each node could stand in a source:
its names are those of variables, and its number is the value of a numeral
(`Expr.Returned.legalNodes`).  This holds of the answers to all calls of a parser, also behind
errors, and not only of whole programs.  Sequences may have any length here, because a program of no
or of one expression is a tree as well. -/

namespace ExprLang

/-! ### The nodes of a tree -/

/-- The expression is a part of the tree, or all of it. -/
inductive Expr.Occurs (e : Expr) : Expr → Prop
  | whole : Occurs e e
  | body {parameters body} : Occurs e body → Occurs e (.lambda parameters body)
  | function {function arguments} : Occurs e function → Occurs e (.call function arguments)
  | argument {function arguments a} :
      a ∈ arguments → Occurs e a → Occurs e (.call function arguments)
  | test {test consequent alternative} :
      Occurs e test → Occurs e (.condition test consequent alternative)
  | consequent {test consequent alternative} :
      Occurs e consequent → Occurs e (.condition test consequent alternative)
  | alternative {test consequent alternative} :
      Occurs e alternative → Occurs e (.condition test consequent (some alternative))
  | target {target value} : Occurs e target → Occurs e (.assignment target value)
  | value {target value} : Occurs e value → Occurs e (.assignment target value)
  | left {op left right} : Occurs e left → Occurs e (.binary op left right)
  | right {op left right} : Occurs e right → Occurs e (.binary op left right)
  | item {body a} : a ∈ body → Occurs e a → Occurs e (.program body)

/-- What a node says by itself could stand in a source: its number is in the given class, and its
names are those of variables. -/
def Expr.LegalNode (literal : Number → Prop) : Expr → Prop
  | .number x => literal x
  | .variable name => IsName name
  | .lambda parameters _ => ∀ p ∈ parameters, IsName p
  | _ => True

/-- Every node of the tree is legal. -/
def Expr.LegalNodes (literal : Number → Prop) (e : Expr) : Prop :=
  ∀ n : Expr, n.Occurs e → n.LegalNode literal

namespace Expr

variable {e e' t : Expr} {literal : Number → Prop}

theorem Occurs.trans (h : e.Occurs e') (ht : e'.Occurs t) : e.Occurs t := by
  induction ht with
  | whole => exact h
  | body _ ih => exact .body ih
  | function _ ih => exact .function ih
  | argument ha _ ih => exact .argument ha ih
  | test _ ih => exact .test ih
  | consequent _ ih => exact .consequent ih
  | alternative _ ih => exact .alternative ih
  | target _ ih => exact .target ih
  | value _ ih => exact .value ih
  | left _ ih => exact .left ih
  | right _ ih => exact .right ih
  | item ha _ ih => exact .item ha ih

theorem LegalNodes.of_occurs (ht : t.LegalNodes literal) (h : e.Occurs t) :
    e.LegalNodes literal := by
  intro n hn
  exact ht n (hn.trans h)

theorem Legal.of_occurs (ht : t.Legal literal) (h : e.Occurs t) : e.Legal literal := by
  induction h with
  | whole => exact ht
  | body _ ih =>
      cases ht with
      | lambda _ hbody => exact ih hbody
  | function _ ih =>
      cases ht with
      | call hf _ => exact ih hf
  | argument ha _ ih =>
      cases ht with
      | call _ has => exact ih (has _ ha)
  | test _ ih =>
      cases ht with
      | condition ht _ _ => exact ih ht
  | consequent _ ih =>
      cases ht with
      | condition _ hc _ => exact ih hc
  | alternative _ ih =>
      cases ht with
      | condition _ _ ha => exact ih (ha _ rfl)
  | target _ ih =>
      cases ht with
      | assignment ht _ => exact ih ht
  | value _ ih =>
      cases ht with
      | assignment _ hv => exact ih hv
  | left _ ih =>
      cases ht with
      | binary hl _ => exact ih hl
  | right _ ih =>
      cases ht with
      | binary _ hr => exact ih hr
  | item ha _ ih =>
      cases ht with
      | program _ hbody => exact ih (hbody _ ha)

theorem Legal.legalNode (h : e.Legal literal) : e.LegalNode literal := by
  cases h with
  | number h => exact h
  | name h => exact h
  | lambda h => exact h
  | _ => trivial

theorem Legal.legalNodes (h : e.Legal literal) : e.LegalNodes literal := by
  intro n hn
  exact (h.of_occurs hn).legalNode

end Expr

/-! ### What a parser returns -/

/-- The parser stands somewhere in a source. -/
def Parser.InSource (p : Parser) : Prop :=
  ∃ source, p.unread <:+ (Parser.ofSource source).unread ∧
    p.lexed = (Parser.ofSource source).lexed

/-- The tree is the answer of a parser that stands somewhere in a source.  The function of a call is
such a tree as well. -/
inductive Expr.Returned : Expr → Prop
  | program {p : Parser} {e} : p.InSource → p.program.1 = .ok e → Returned e
  | expression {p : Parser} {e} : p.InSource → p.expression.1 = .ok e → Returned e
  | atom {p : Parser} {e} : p.InSource → p.atom.1 = .ok e → Returned e
  | block {p : Parser} {e} : p.InSource → p.block.1 = .ok e → Returned e
  | condition {p : Parser} {e} : p.InSource → p.condition.1 = .ok e → Returned e
  | boolean {p : Parser} {e} : p.InSource → p.boolean.1 = .ok e → Returned e
  | lambda {p : Parser} {e} : p.InSource → p.lambda.1 = .ok e → Returned e
  | call {p : Parser} {f e} : p.InSource → Returned f → (p.call f).1 = .ok e → Returned e

/-- Wherever calls have left a parser, it stands in the source. -/
theorem Parser.Calls.inSource {source : String} {errors : List SyntaxError} {p : Parser}
    (h : Calls (.ofSource source) errors p) : p.InSource := ⟨source, h.forward⟩

theorem Parser.InSource.legal {p : Parser} (hp : p.InSource) :
    ∀ t ∈ p.tokens, t.Legal Number.IsLiteral := by
  obtain ⟨source, hunread, -⟩ := hp
  intro t ht
  have hmem : t ∈ (Lexed.ofSource source).tokens := (hunread.map _).subset ht
  exact Lexed.legal source t hmem

namespace Phrase

variable {ending : Option LexicalFault} {ts r : List Token} {e f : Expr}

/-- The items of a list between marks. -/
theorem items_of_delimited {start stop separator : Char} {es : List Expr}
    (h : (Grammar.delimited ending start stop separator ts
      fun r _ => Grammar.expression ending r).toExcept = .ok (es, r)) :
    ∃ us, ts = .punctuation start :: us ∧
      Items true separator us es (.punctuation stop :: r) := by
  rw [delimited_eq_listed, bind_eq_ok_iff] at h
  obtain ⟨_, us, hmark, hlisted⟩ := h
  exact ⟨us, mark_eq_ok_iff.mp hmark,
    items_of_listed (fun us _ => parsed us) (Nat.lt_succ_self _) hlisted⟩

theorem bare_of_block (h : (Grammar.block ending ts).toExcept = .ok (e, r)) : Bare true ts e r := by
  rw [Grammar.toExcept_block] at h
  obtain ⟨es, r, hes, heq⟩ := map_eq_ok_iff.mp h
  obtain ⟨rfl, rfl⟩ := Prod.mk.inj heq
  obtain ⟨us, rfl, hitems⟩ := items_of_delimited hes
  exact .block hitems

theorem bare_of_condition (h : (Grammar.condition ending ts).toExcept = .ok (e, r)) :
    Bare true ts e r := by
  have hcondition := h
  rw [Grammar.toExcept_condition] at h
  obtain ⟨_, us, hword, -⟩ := bind_eq_ok_iff.mp h
  obtain rfl := word_eq_ok_iff.mp hword
  exact (condition_parsed (fun us _ => parsed us) (Nat.lt_succ_self _) hcondition).1

theorem bare_of_lambda (h : (Grammar.lambda ending ts).toExcept = .ok (e, r)) :
    Bare true (.keyword .defWord :: ts) e r :=
  (lambda_parsed (fun us _ => parsed us) (Nat.lt_succ_self _) h).1

theorem exists_boolean (h : (Grammar.boolean ending ts).toExcept = .ok (e, r)) :
    ∃ b, e = .boolean b := by
  unfold Grammar.boolean at h
  split at h
  · simp at h
  · exact ⟨true, (Prod.mk.inj (Except.ok.inj h)).1.symm⟩
  · exact ⟨false, (Prod.mk.inj (Except.ok.inj h)).1.symm⟩
  · simp at h

theorem exists_call (h : (Grammar.call ending f ts).toExcept = .ok (e, r)) :
    ∃ es us, e = .call f es ∧ ts = .punctuation '(' :: us ∧
      Items true ',' us es (.punctuation ')' :: r) := by
  rw [Grammar.toExcept_call] at h
  obtain ⟨es, r, hes, heq⟩ := map_eq_ok_iff.mp h
  obtain ⟨rfl, rfl⟩ := Prod.mk.inj heq
  obtain ⟨us, hts, hitems⟩ := items_of_delimited hes
  exact ⟨es, us, rfl, hts, hitems⟩

end Phrase

/-- The numbers and names in a tree that a parser has returned are those of tokens. -/
theorem Expr.Returned.legalNodes {t : Expr} (ht : t.Returned) : t.LegalNodes Number.IsLiteral := by
  induction ht with
  | program hp h =>
      obtain ⟨r, hread⟩ := Parser.settle_eq_ok_iff.mp h
      rw [Step.toExcept_map] at hread
      obtain ⟨es, r, hes, heq⟩ := map_eq_ok_iff.mp hread
      obtain ⟨rfl, rfl⟩ := Prod.mk.inj heq
      obtain ⟨hitems, -, -⟩ := Phrase.program_parsed hes
      intro n hn
      cases hn with
      | whole => trivial
      | item ha hn => exact ((hitems.legal hp.legal).1 _ ha).legalNodes n hn
  | expression hp h =>
      obtain ⟨r, hread⟩ := Parser.settle_eq_ok_iff.mp h
      exact ((Phrase.expression_eq_ok_iff.mp hread).1.legal hp.legal).1.legalNodes
  | atom hp h =>
      obtain ⟨r, hread⟩ := Parser.settle_eq_ok_iff.mp h
      exact ((Phrase.atom_eq_ok_iff.mp hread).1.legal hp.legal).1.legalNodes
  | block hp h =>
      obtain ⟨r, hread⟩ := Parser.settle_eq_ok_iff.mp h
      exact ((Phrase.bare_of_block hread).legal hp.legal).1.legalNodes
  | condition hp h =>
      obtain ⟨r, hread⟩ := Parser.settle_eq_ok_iff.mp h
      exact ((Phrase.bare_of_condition hread).legal hp.legal).1.legalNodes
  | boolean hp h =>
      obtain ⟨r, hread⟩ := Parser.settle_eq_ok_iff.mp h
      obtain ⟨b, rfl⟩ := Phrase.exists_boolean hread
      exact Expr.Legal.boolean.legalNodes
  | @lambda p _ hp h =>
      obtain ⟨r, hread⟩ := Parser.settle_eq_ok_iff.mp h
      have hlegal : ∀ t ∈ .keyword .defWord :: p.tokens, t.Legal Number.IsLiteral :=
        List.forall_mem_cons.mpr ⟨trivial, hp.legal⟩
      exact ((Phrase.bare_of_lambda hread).legal hlegal).1.legalNodes
  | call hp _ h ih =>
      obtain ⟨r, hread⟩ := Parser.settle_eq_ok_iff.mp h
      obtain ⟨es, us, rfl, hts, hitems⟩ := Phrase.exists_call hread
      obtain ⟨-, hlegal⟩ := List.forall_mem_cons.mp (hts ▸ hp.legal)
      intro n hn
      cases hn with
      | whole => trivial
      | function hn => exact ih n hn
      | argument ha hn => exact ((hitems.legal hlegal).1 _ ha).legalNodes n hn

end ExprLang
