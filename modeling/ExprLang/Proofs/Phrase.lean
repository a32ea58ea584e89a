import ExprLang.Parser.Grammar
import ExprLang.Proofs.OperatorTree

/-! # Phrases of the grammar

The grammar of the language, as relations between a list of tokens, the tree that a phrase at
its front stands for and the tokens behind that phrase:

* a program is `[Expression {';' Expression} [';']]`, which is `Phrase.Items` with the
  semicolon and nothing behind it;
* an expression is `Operand {infix Operand}`, its tree being the ordered tree of that chain;
* an operand is `Bare {'(' [Expression {',' Expression} [',']] ')'}`;
* a bare operand is a name, a literal, an expression in parentheses, a block, a condition or a
  function.

The grammar is ambiguous: an operator, an opening parenthesis or `else` can go on with any of
the constructs that end before it.  With `innermost` set a phrase ends only where the next token
cannot go on with it, so such a token belongs to the innermost construct that can take it.
Forgetting that, every phrase is one of the ambiguous grammar (`Phrase.Items.plain`). -/

namespace ExprLang

/-- An operator as it stands in a source. -/
def Operator.text : Operator → String
  | .assign => "="
  | .binary op => op.text

theorem BinaryOperator.ofText?_eq_some_iff {text : String} {op : BinaryOperator} :
    BinaryOperator.ofText? text = some op ↔ op.text = text := by
  constructor
  · intro h
    simpa using List.find?_some h
  · rintro rfl
    cases op <;> rfl

theorem Operator.ofText?_eq_some_iff {text : String} {op : Operator} :
    Operator.ofText? text = some op ↔ op.text = text := by
  unfold Operator.ofText?
  split
  · next htext =>
    subst htext
    cases op with
    | assign => simp [Operator.text]
    | binary op => cases op <;> simp [Operator.text, BinaryOperator.text]
  · next htext =>
    cases op with
    | assign => simpa [Operator.text] using Ne.symm htext
    | binary op => simp [Operator.text, BinaryOperator.ofText?_eq_some_iff]

@[simp] theorem Operator.ofText?_text (op : Operator) : Operator.ofText? op.text = some op :=
  Operator.ofText?_eq_some_iff.mpr rfl

namespace Phrase

/-! ### What the next token goes on with -/

/-- The next token opens the arguments of a call. -/
def CallAhead (ts : List Token) : Prop := ts.head? = some (.punctuation '(')

/-- The next token is an infix operator. -/
def OperatorAhead (ts : List Token) : Prop := ∃ op : Operator, ts.head? = some (.operator op.text)

/-- The next token goes on with a condition. -/
def ElseAhead (ts : List Token) : Prop := ts.head? = some (.keyword .elseWord)

/-- The next token goes on with no construct. -/
def Closed (ts : List Token) : Prop := ¬ CallAhead ts ∧ ¬ OperatorAhead ts ∧ ¬ ElseAhead ts

/-- A condition or a function begins here; it has no end of its own. -/
def OpenEnded (ts : List Token) : Prop :=
  ts.head? = some (.keyword .ifWord) ∨ ts.head? = some (.keyword .defWord)

/-! ### The grammar -/

/-- `[variable {',' variable} [',']]` -/
inductive Parameters : List Token → List String → List Token → Prop
  | empty {ts} : Parameters ts [] ts
  | last {x ts} : Parameters (.variable x :: ts) [x] ts
  | more {x ts xs r} :
      Parameters ts xs r → Parameters (.variable x :: .punctuation ',' :: ts) (x :: xs) r

mutual

/-- `Operand {infix Operand}` -/
inductive Expression (innermost : Bool) : List Token → Expr → List Token → Prop
  | chain {ts a r s} {tree : OperatorTree} :
      Operand innermost ts a r → Links innermost r tree.links s → tree.first = a →
      tree.Ordered → (innermost → ¬ CallAhead s ∧ ¬ OperatorAhead s) →
      Expression innermost ts tree.toExpr s

/-- `{infix Operand}` -/
inductive Links (innermost : Bool) : List Token → List (Operator × Expr) → List Token → Prop
  | stop {ts} : Links innermost ts [] ts
  | link {op : Operator} {ts a r links s} :
      Operand innermost ts a r → Links innermost r links s →
      Links innermost (.operator op.text :: ts) ((op, a) :: links) s

/-- `Bare {'(' [Expression {',' Expression} [',']] ')'}` -/
inductive Operand (innermost : Bool) : List Token → Expr → List Token → Prop
  | called {ts a r e s} :
      Bare innermost ts a r → Calls innermost a r e s → Operand innermost ts e s

/-- `{'(' [Expression {',' Expression} [',']] ')'}`, behind the function that is called first. -/
inductive Calls (innermost : Bool) : Expr → List Token → Expr → List Token → Prop
  | stop {f ts} : Calls innermost f ts f ts
  | call {f ts arguments r e s} :
      Items innermost ',' ts arguments (.punctuation ')' :: r) →
      Calls innermost (.call f arguments) r e s →
      Calls innermost f (.punctuation '(' :: ts) e s

/-- An operand without the calls behind it. -/
inductive Bare (innermost : Bool) : List Token → Expr → List Token → Prop
  | variable {x ts} : Bare innermost (.variable x :: ts) (.variable x) ts
  | number {x ts} : Bare innermost (.number x :: ts) (.number x) ts
  | string {s ts} : Bare innermost (.string s :: ts) (.string s) ts
  | trueWord {ts} : Bare innermost (.keyword .trueWord :: ts) (.boolean true) ts
  | falseWord {ts} : Bare innermost (.keyword .falseWord :: ts) (.boolean false) ts
  | parenthesized {ts e r} :
      Expression innermost ts e (.punctuation ')' :: r) →
      Bare innermost (.punctuation '(' :: ts) e r
  | block {ts es r} :
      Items innermost ';' ts es (.punctuation '\x7d' :: r) →
      Bare innermost (.punctuation '\x7b' :: ts) (Grammar.blockOf es) r
  | condition {ts test r consequent s alternative u} :
      Expression innermost ts test r → Branch innermost r consequent s →
      Alternative innermost s alternative u →
      Bare innermost (.keyword .ifWord :: ts) (.condition test consequent alternative) u
  | lambda {ts parameters r body s} :
      Parameters ts parameters (.punctuation ')' :: r) → Expression innermost r body s →
      Bare innermost (.keyword .defWord :: .punctuation '(' :: ts) (.lambda parameters body) s

/-- `['then'] Expression`, the word being left out only before a brace. -/
inductive Branch (innermost : Bool) : List Token → Expr → List Token → Prop
  | worded {ts e r} :
      Expression innermost ts e r → Branch innermost (.keyword .thenWord :: ts) e r
  | braced {ts e r} :
      Expression innermost (.punctuation '\x7b' :: ts) e r →
      Branch innermost (.punctuation '\x7b' :: ts) e r

/-- `['else' Expression]` -/
inductive Alternative (innermost : Bool) : List Token → Option Expr → List Token → Prop
  | absent {ts} : (innermost → ¬ ElseAhead ts) → Alternative innermost ts none ts
  | present {ts e r} :
      Expression innermost ts e r → Alternative innermost (.keyword .elseWord :: ts) (some e) r

/-- `[Expression {separator Expression} [separator]]` -/
inductive Items (innermost : Bool) : Char → List Token → List Expr → List Token → Prop
  | empty {separator ts} : Items innermost separator ts [] ts
  | last {separator ts e r} : Expression innermost ts e r → Items innermost separator ts [e] r
  | more {separator ts e r es s} :
      Expression innermost ts e (.punctuation separator :: r) →
      Items innermost separator r es s → Items innermost separator ts (e :: es) s

end

variable {innermost : Bool}

/-! ### Forgetting where phrases have to end -/

mutual

theorem Expression.plain {ts e r} : Expression innermost ts e r → Expression false ts e r
  | .chain a l hfirst htree _ => .chain a.plain l.plain hfirst htree (by simp)

theorem Links.plain {ts l r} : Links innermost ts l r → Links false ts l r
  | .stop => .stop
  | .link a l => .link a.plain l.plain

theorem Operand.plain {ts e r} : Operand innermost ts e r → Operand false ts e r
  | .called a c => .called a.plain c.plain

theorem Calls.plain {f ts e r} : Calls innermost f ts e r → Calls false f ts e r
  | .stop => .stop
  | .call a c => .call a.plain c.plain

theorem Bare.plain {ts e r} : Bare innermost ts e r → Bare false ts e r
  | .variable => .variable
  | .number => .number
  | .string => .string
  | .trueWord => .trueWord
  | .falseWord => .falseWord
  | .parenthesized e => .parenthesized e.plain
  | .block es => .block es.plain
  | .condition e b a => .condition e.plain b.plain a.plain
  | .lambda ps e => .lambda ps e.plain

theorem Branch.plain {ts e r} : Branch innermost ts e r → Branch false ts e r
  | .worded e => .worded e.plain
  | .braced e => .braced e.plain

theorem Alternative.plain {ts e r} : Alternative innermost ts e r → Alternative false ts e r
  | .absent _ => .absent (by simp)
  | .present e => .present e.plain

theorem Items.plain {separator ts es r} :
    Items innermost separator ts es r → Items false separator ts es r
  | .empty => .empty
  | .last e => .last e.plain
  | .more e es => .more e.plain es.plain

end

/-! ### Phrases use up tokens -/

theorem Parameters.length_le {ts ps r} (h : Parameters ts ps r) : r.length ≤ ts.length := by
  induction h with
  | empty => exact Nat.le_refl _
  | last => simp
  | more _ ih => simp only [List.length_cons]; omega

mutual

theorem Expression.length_lt {ts e r} : Expression innermost ts e r → r.length < ts.length
  | .chain a l _ _ _ => l.length_le.trans_lt a.length_lt

theorem Links.length_le {ts l r} : Links innermost ts l r → r.length ≤ ts.length
  | .stop => Nat.le_refl _
  | .link a l => by
      have := a.length_lt
      have := l.length_le
      simp only [List.length_cons]
      omega

theorem Operand.length_lt {ts e r} : Operand innermost ts e r → r.length < ts.length
  | .called a c => c.length_le.trans_lt a.length_lt

theorem Calls.length_le {f ts e r} : Calls innermost f ts e r → r.length ≤ ts.length
  | .stop => Nat.le_refl _
  | .call a c => by
      have := a.length_le
      have := c.length_le
      simp only [List.length_cons] at *
      omega

theorem Bare.length_lt {ts e r} : Bare innermost ts e r → r.length < ts.length
  | .variable => by simp
  | .number => by simp
  | .string => by simp
  | .trueWord => by simp
  | .falseWord => by simp
  | .parenthesized e => by
      have := e.length_lt
      simp only [List.length_cons] at *
      omega
  | .block es => by
      have := es.length_le
      simp only [List.length_cons] at *
      omega
  | .condition e b a => by
      have := e.length_lt
      have := b.length_lt
      have := a.length_le
      simp only [List.length_cons]
      omega
  | .lambda ps e => by
      have := ps.length_le
      have := e.length_lt
      simp only [List.length_cons] at *
      omega

theorem Branch.length_lt {ts e r} : Branch innermost ts e r → r.length < ts.length
  | .worded e => e.length_lt.trans (by simp)
  | .braced e => e.length_lt

theorem Alternative.length_le {ts e r} : Alternative innermost ts e r → r.length ≤ ts.length
  | .absent _ => Nat.le_refl _
  | .present e => e.length_lt.le.trans (by simp)

theorem Items.length_le {separator ts es r} :
    Items innermost separator ts es r → r.length ≤ ts.length
  | .empty => Nat.le_refl _
  | .last e => e.length_lt.le
  | .more e es => by
      have := e.length_lt
      have := es.length_le
      simp only [List.length_cons] at *
      omega

end

/-! ### More tokens behind a phrase -/

theorem Parameters.frame {ts ps r} (h : Parameters ts ps r) (x : List Token) :
    Parameters (ts ++ x) ps (r ++ x) := by
  induction h with
  | empty => exact .empty
  | last => exact .last
  | more _ ih => exact .more ih

theorem head?_append_of_ne_nil {r : List Token} (h : r ≠ []) (x : List Token) :
    (r ++ x).head? = r.head? := by
  cases r with
  | nil => exact absurd rfl h
  | cons t r => rfl

/-- What does not go on before a token does not go on before more tokens. -/
theorem not_ahead_append {r x : List Token} (hr : ¬ CallAhead r ∧ ¬ OperatorAhead r)
    (hx : r = [] → Closed x) : ¬ CallAhead (r ++ x) ∧ ¬ OperatorAhead (r ++ x) := by
  by_cases h : r = []
  · obtain ⟨hcall, hoperator, -⟩ := hx h
    exact h ▸ ⟨hcall, hoperator⟩
  · simpa only [CallAhead, OperatorAhead, head?_append_of_ne_nil h] using hr

theorem not_elseAhead_append {r x : List Token} (hr : ¬ ElseAhead r) (hx : r = [] → Closed x) :
    ¬ ElseAhead (r ++ x) := by
  by_cases h : r = []
  · exact h ▸ (hx h).2.2
  · simpa only [ElseAhead, head?_append_of_ne_nil h] using hr

mutual

/-- A phrase stays one before other tokens.  If it is innermost and has ended because there were no
more, they must not go on with it. -/
theorem Expression.frame {ts e r} (x : List Token) :
    Expression innermost ts e r → (r = [] → innermost → Closed x) →
      Expression innermost (ts ++ x) e (r ++ x)
  | .chain a l hfirst htree hstop, hr => by
      refine .chain (a.frame x fun hq => ?_) (l.frame x hr) hfirst htree fun hk => ?_
      · exact .inr (hr (List.length_eq_zero_iff.mp (by simpa [hq] using l.length_le)))
      · exact not_ahead_append (hstop hk) fun hnil => hr hnil hk

theorem Links.frame {ts l r} (x : List Token) :
    Links innermost ts l r → (r = [] → innermost → Closed x) → Links innermost (ts ++ x) l (r ++ x)
  | .stop, _ => .stop
  | .link a l, hr => .link
      (a.frame x fun hq => .inr (hr (List.length_eq_zero_iff.mp (by simpa [hq] using l.length_le))))
      (l.frame x hr)

theorem Operand.frame {ts e r} (x : List Token) :
    Operand innermost ts e r → (r = [] → ¬ OpenEnded ts ∨ (innermost → Closed x)) →
      Operand innermost (ts ++ x) e (r ++ x)
  | .called a c, hr => .called
      (a.frame x fun hq => hr (List.length_eq_zero_iff.mp (by simpa [hq] using c.length_le)))
      (c.frame x)

theorem Calls.frame {f ts e r} (x : List Token) :
    Calls innermost f ts e r → Calls innermost f (ts ++ x) e (r ++ x)
  | .stop => .stop
  | .call a c => .call (a.frame x (by simp)) (c.frame x)

theorem Bare.frame {ts e r} (x : List Token) :
    Bare innermost ts e r → (r = [] → ¬ OpenEnded ts ∨ (innermost → Closed x)) →
      Bare innermost (ts ++ x) e (r ++ x)
  | .variable, _ => .variable
  | .number, _ => .number
  | .string, _ => .string
  | .trueWord, _ => .trueWord
  | .falseWord, _ => .falseWord
  | .parenthesized e, _ => .parenthesized (e.frame x (by simp))
  | .block es, _ => .block (es.frame x (by simp))
  | .condition e b a, hr => by
      have hr' : r = [] → innermost → Closed x := fun h => by simpa [OpenEnded] using hr h
      refine .condition (e.frame x fun hq => ?_) (b.frame x fun hq => ?_) (a.frame x hr')
      · exact absurd b.length_lt (by simp [hq])
      · exact hr' (List.length_eq_zero_iff.mp (by simpa [hq] using a.length_le))
  | .lambda ps e, hr =>
      .lambda (ps.frame x) (e.frame x fun h => by simpa [OpenEnded] using hr h)

theorem Branch.frame {ts e r} (x : List Token) :
    Branch innermost ts e r → (r = [] → innermost → Closed x) →
      Branch innermost (ts ++ x) e (r ++ x)
  | .worded e, hr => .worded (e.frame x hr)
  | .braced e, hr => .braced (e.frame x hr)

theorem Alternative.frame {ts e r} (x : List Token) :
    Alternative innermost ts e r → (r = [] → innermost → Closed x) →
      Alternative innermost (ts ++ x) e (r ++ x)
  | .absent helse, hr =>
      .absent fun hk => not_elseAhead_append (helse hk) fun hnil => hr hnil hk
  | .present e, hr => .present (e.frame x hr)

theorem Items.frame {separator ts es r} (x : List Token) :
    Items innermost separator ts es r → (r = [] → innermost → Closed x) →
      Items innermost separator (ts ++ x) es (r ++ x)
  | .empty, _ => .empty
  | .last e, hr => .last (e.frame x hr)
  | .more e es, hr => .more (e.frame x (by simp)) (es.frame x hr)

end

/-! ### Chains -/

theorem Links.append {ts r s : List Token} {l l' : List (Operator × Expr)} :
    Links innermost ts l r → Links innermost r l' s → Links innermost ts (l ++ l') s
  | .stop, h' => h'
  | .link a h, h' => .link a (h.append h')

/-- An operand with links behind it is an expression, whatever the operators. -/
theorem Operand.expression {ts a r links s} (ha : Operand innermost ts a r)
    (hl : Links innermost r links s) (hs : innermost → ¬ CallAhead s ∧ ¬ OperatorAhead s) :
    ∃ e, Expression innermost ts e s := by
  obtain ⟨tree, htree, hfirst, rfl⟩ := OperatorTree.exists_ordered a links
  exact ⟨tree.toExpr, .chain ha hl hfirst htree hs⟩

end Phrase

end ExprLang
