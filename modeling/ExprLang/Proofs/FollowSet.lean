import ExprLang.Proofs.Acceptance
import ExprLang.Proofs.Descent
import ExprLang.Proofs.Promptness

/-! # What can follow an expression

Behind an operand no parenthesis opens, because all calls have been taken, and behind an expression
there is no operator either.  So a descent that looks for calls once more behind the operators of an
expression finds none (`calls_of_pastCalls`), and whether it does so makes no difference to anything
(`Descent.expression_again`).

This holds of a descent from any lexer whatsoever.  The parser answers what the descents answer, so
it never makes a call of an expression with operators in it unless that stands in parentheses. -/

namespace ExprLang

namespace Lexer

/-- The next token has been looked at, and it opens no parenthesis. -/
def PastCalls (l : Lexer) : Prop :=
  ∃ t, l.peek = (.ok t, l) ∧ t ≠ some (.punctuation '(')

/-- The next token has been looked at, and it is no operator that binds more tightly than
`bound`. -/
def PastOperators (l : Lexer) (bound : ℕ) : Prop :=
  ∃ t, l.peek = (.ok t, l) ∧
    ∀ op, t.bind Descent.operatorOf? = some op → op.precedence ≤ bound

/-- No precedence is 0, so no operator is left at all. -/
theorem PastOperators.ne_operator {l : Lexer} (h : l.PastOperators 0) {t : Option Token}
    (ht : l.peek = (.ok t, l)) (op : Operator) : t ≠ some (.operator op.text) := by
  obtain ⟨t', ht', hop⟩ := h
  rw [ht] at ht'
  obtain rfl : t = t' := by simpa using ht'
  rintro rfl
  have hle := hop op (Operator.ofText?_text op)
  exact absurd op.precedence_pos (Nat.not_lt.mpr hle)

end Lexer

namespace Descent

variable {again : Bool} {depth : ℕ} {l l' : Lexer}

/-! ### Answers without an error -/

section answers

variable {α β : Type} {d : Descent α} {next next' : α → Descent β}

theorem bind_eq_ok {b : β} (h : (d >>= next) l = some (.ok b, l')) :
    ∃ a l₁, d l = some (.ok a, l₁) ∧ next a l₁ = some (.ok b, l') := by
  rcases hd : d l with _ | ⟨e | a, l₁⟩
  · rw [bind_of_none hd] at h
    cases h
  · rw [bind_of_error hd] at h
    cases h
  · rw [bind_of_ok hd] at h
    exact ⟨a, l₁, rfl, h⟩

/-- What is done next matters only where it is done. -/
theorem bind_congr_ok (h : ∀ a l', d l = some (.ok a, l') → next a l' = next' a l') :
    (d >>= next) l = (d >>= next') l := by
  rcases hd : d l with _ | ⟨e | a, l₁⟩
  · rw [bind_of_none hd, bind_of_none hd]
  · rw [bind_of_error hd, bind_of_error hd]
  · rw [bind_of_ok hd, bind_of_ok hd]
    exact h a l₁ hd

theorem exists_ok_of_isOk {ε : Type} {x : Except ε α} (h : x.isOk = true) : ∃ a, x = .ok a := by
  cases x with
  | error e => cases h
  | ok a => exact ⟨a, rfl⟩

theorem exists_of_isOk (h : (d l).any (·.1.isOk) = true) : ∃ a l', d l = some (.ok a, l') := by
  rcases hd : d l with _ | ⟨e | a, l₁⟩
  · rw [hd] at h
    cases h
  · rw [hd] at h
    cases h
  · exact ⟨a, l₁, rfl⟩

theorem peek_eq_ok {t : Option Token} (h : peek l = some (.ok t, l')) : l'.peek = (.ok t, l') := by
  have hagain := l.peek_peek
  rcases hl : l.peek with ⟨e | t', l₁⟩
  · rw [show peek l = _ from ask_of_error hl] at h
    cases h
  · rw [show peek l = _ from ask_of_ok hl] at h
    cases h
    rw [hl] at hagain
    exact hagain

end answers

/-! ### Behind an operand -/

theorem calls_pastCalls {f e : Expr} (h : calls again depth f l = some (.ok e, l')) :
    l'.PastCalls := by
  induction depth generalizing f l with
  | zero => cases h
  | succ depth ih =>
      rw [calls, isMark_bind] at h
      obtain ⟨t, l₁, hpeek, h⟩ := bind_eq_ok h
      split at h
      · obtain ⟨g, l₂, -, h⟩ := bind_eq_ok h
        exact ih h
      · next hopen =>
          cases h
          refine ⟨t, peek_eq_ok hpeek, ?_⟩
          rintro rfl
          exact hopen rfl

theorem atom_pastCalls {e : Expr} (h : atom again depth l = some (.ok e, l')) : l'.PastCalls := by
  cases depth with
  | zero => cases h
  | succ depth =>
      rw [atom] at h
      obtain ⟨a, l₁, -, h⟩ := bind_eq_ok h
      exact calls_pastCalls h

/-- Where no parenthesis opens there are no calls, and the lexer stays as it is. -/
theorem calls_of_pastCalls (h : l.PastCalls) (e : Expr) :
    calls again (depth + 1) e l = some (.ok e, l) := by
  obtain ⟨t, ht, hopen⟩ := h
  rw [calls, isMark_bind, peek_bind_of_peek ht]
  have hmark : ¬t.any (·.isPunctuation '(') = true := by
    cases t with
    | none => exact Bool.false_ne_true
    | some t =>
        intro hmark
        exact hopen (congrArg some (Token.isPunctuation_iff.mp hmark))
  rw [if_neg hmark]
  rfl

/-! ### Behind the operators -/

/-- Each operator is followed by an operand, so no parenthesis opens behind the last one. -/
theorem operators_past {left e : Expr} {bound : ℕ} (hl : l.PastCalls)
    (h : operators again depth left bound l = some (.ok e, l')) :
    l'.PastCalls ∧ l'.PastOperators bound := by
  induction depth generalizing left e bound l l' with
  | zero => cases h
  | succ depth ih =>
      obtain ⟨t, ht, hopen⟩ := hl
      rw [operators, operatorAhead_bind, peek_bind_of_peek ht] at h
      cases hop : t.bind operatorOf? with
      | none =>
          rw [hop] at h
          cases h
          exact ⟨⟨t, ht, hopen⟩, t, ht, by simp [hop]⟩
      | some op =>
          simp only [hop] at h
          split at h
          · next hle =>
              cases h
              refine ⟨⟨t, ht, hopen⟩, t, ht, ?_⟩
              intro op' hop'
              rw [hop] at hop'
              cases hop'
              exact hle
          · obtain ⟨_, l₁, -, h⟩ := bind_eq_ok h
            obtain ⟨a, l₂, ha, h⟩ := bind_eq_ok h
            obtain ⟨right, l₃, hright, h⟩ := bind_eq_ok h
            obtain ⟨hpast, -⟩ := ih (atom_pastCalls ha) hright
            exact ih hpast h

/-- The operators are not read at all unless some depth is left for the calls behind them. -/
theorem calls_of_operators {a e : Expr} {l₁ : Lexer} (ha : atom again depth l = some (.ok a, l₁))
    (he : operators again depth a 0 l₁ = some (.ok e, l')) :
    calls again depth e l' = some (.ok e, l') := by
  cases depth with
  | zero => cases ha
  | succ depth =>
      obtain ⟨hpast, -⟩ := operators_past (atom_pastCalls ha) he
      exact calls_of_pastCalls hpast e

theorem expression_past {e : Expr} (h : expression again depth l = some (.ok e, l')) :
    l'.PastCalls ∧ l'.PastOperators 0 := by
  cases depth with
  | zero => cases h
  | succ depth =>
      rw [expression] at h
      obtain ⟨a, l₁, ha, h⟩ := bind_eq_ok h
      obtain ⟨e', l₂, he, h⟩ := bind_eq_ok h
      have hpast := operators_past (atom_pastCalls ha) he
      cases again with
      | false =>
          cases h
          exact hpast
      | true =>
          have hcalls : calls true depth e' l₂ = some (.ok e, l') := h
          rw [calls_of_operators ha he] at hcalls
          cases hcalls
          exact hpast

/-! ### The second look for calls -/

/-- At the given depth every construct is the same, whether an expression looks for calls again or
not. -/
structure Indifferent (depth : ℕ) : Prop where
  expression : expression false depth = expression true depth
  atom : atom false depth = atom true depth
  bareAtom : bareAtom false depth = bareAtom true depth
  block : block false depth = block true depth
  condition : condition false depth = condition true depth
  lambda : lambda false depth = lambda true depth
  call : call false depth = call true depth
  calls : calls false depth = calls true depth
  operators : operators false depth = operators true depth

theorem indifferent (depth : ℕ) : Indifferent depth := by
  induction depth with
  | zero => exact ⟨rfl, rfl, rfl, rfl, rfl, rfl, rfl, rfl, rfl⟩
  | succ depth ih =>
      constructor
      · rw [Descent.expression, Descent.expression, ih.atom, ih.operators]
        funext l
        refine bind_congr_ok fun a l₁ ha => bind_congr_ok fun e l₂ he => ?_
        exact (calls_of_operators ha he).symm
      · rw [Descent.atom, Descent.atom, ih.bareAtom, ih.calls]
      · rw [Descent.bareAtom, Descent.bareAtom, ih.expression, ih.block, ih.condition, ih.lambda]
      · rw [Descent.block, Descent.block, ih.expression]
      · rw [Descent.condition, Descent.condition, ih.expression]
      · rw [Descent.lambda, Descent.lambda, ih.expression]
      · funext f
        rw [Descent.call, Descent.call, ih.expression]
      · funext f
        rw [Descent.calls, Descent.calls, ih.call, ih.calls]
      · funext left bound
        rw [Descent.operators, Descent.operators, ih.atom, ih.operators]

theorem expression_again (again : Bool) (depth : ℕ) :
    expression again depth = expression true depth := by
  cases again with
  | false => exact (indifferent depth).expression
  | true => rfl

end Descent

/-! ### The parser -/

namespace Parser

/-- What is left behind a construct are its last tokens. -/
theorem tokens_settle {p : Parser} {α : Type} {n : ℕ} {s : Step α n} {a : α} {r : List Token}
    (h : s.toExcept = .ok (a, r)) (hr : r <:+ p.tokens) : (p.settle s).2.tokens = r := by
  cases s with
  | fail f => cases h
  | ok a' r' _ =>
      cases h
      show (p.lexemesOf r).map (·.token) = r
      have hlength : p.tokens.length = p.unread.length := List.length_map _
      unfold lexemesOf
      rw [List.map_drop, ← hlength]
      exact (List.suffix_iff_eq_drop.mp hr).symm

/-- If a prompt reader answers, the tokens that it leaves are those that the parser goes on with. -/
theorem tokens_of_ok {p : Parser} {α : Type} {L : Language Token}
    {read : Option LexicalFault → (ts : List Token) → Step α ts.length} {a : α}
    (hprompt : Prompt L (.of read) p.lexed.fault p.tokens)
    (h : (p.settle (read p.lexed.fault p.tokens)).1 = .ok a) :
    (read p.lexed.fault p.tokens).toExcept =
      .ok (a, (p.settle (read p.lexed.fault p.tokens)).2.tokens) := by
  obtain ⟨r, hread⟩ := settle_eq_ok_iff.mp h
  obtain ⟨front, -, hsplit, -⟩ := hprompt.ok hread
  rw [tokens_settle hread ⟨front, hsplit.symm⟩]
  exact hread

end Parser

/-- **Calls never attach to an operator expression.**  Wherever a lexer stands: behind an operand
the next token opens no parenthesis, and behind an expression it is no operator either.  So the look
for calls behind the operators of an expression finds none and changes nothing, and a descent
without it is the same function.  The parser answers what this descent answers, so the same can be
said of the tokens that it leaves. -/
theorem Descent.calls_belong_to_operands :
    (∀ again depth l e l', atom again depth l = some (.ok e, l') →
      ∃ t, l'.peek = (.ok t, l') ∧ t ≠ some (.punctuation '(')) ∧
    (∀ again depth l e l', expression again depth l = some (.ok e, l') →
      ∃ t, l'.peek = (.ok t, l') ∧ t ≠ some (.punctuation '(') ∧
        ∀ op : Operator, t ≠ some (.operator op.text)) ∧
    (∀ depth l a l₁ e l₂, atom true depth l = some (.ok a, l₁) →
      operators true depth a 0 l₁ = some (.ok e, l₂) →
      calls true depth e l₂ = some (.ok e, l₂)) ∧
    (∀ depth, expression false depth = expression true depth) ∧
    ∀ p : Parser,
      (∀ e, p.atom.1 = .ok e → ¬Phrase.CallAhead p.atom.2.tokens) ∧
      (∀ e, p.expression.1 = .ok e →
        ¬Phrase.CallAhead p.expression.2.tokens ∧ ¬Phrase.OperatorAhead p.expression.2.tokens) ∧
      ∀ l, p.Follows l → ∀ again depth, 4 * p.unread.length + 5 ≤ depth →
        ∃ l', expression again depth l = some (p.expression.1, l') ∧ p.expression.2.Follows l' := by
  refine ⟨?_, ?_, ?_, ?_, fun p => ⟨?_, ?_, ?_⟩⟩
  · intro again depth l e l' h
    exact atom_pastCalls h
  · intro again depth l e l' h
    obtain ⟨⟨t, ht, hopen⟩, hoperators⟩ := expression_past h
    exact ⟨t, ht, hopen, hoperators.ne_operator ht⟩
  · intro depth l a l₁ e l₂ ha he
    exact calls_of_operators ha he
  · intro depth
    exact expression_again false depth
  · intro e he
    have hprompt := (Phrase.promptly p.lexed.fault p.tokens).operand
    have hread := Parser.tokens_of_ok hprompt he
    exact (Phrase.atom_eq_ok_iff.mp hread).2.1
  · intro e he
    have hprompt := (Phrase.promptly p.lexed.fault p.tokens).expression
    have hread := Parser.tokens_of_ok hprompt he
    cases (Phrase.expression_eq_ok_iff.mp hread).1 with
    | chain _ _ _ _ hstop => exact hstop rfl
  · intro l hl again depth hdepth
    rw [expression_again]
    have hanswers := answers_expression hl hdepth
    exact hanswers.settle

/-- The calls of a sum are calls of its operands. -/
theorem Descent.calls_belong_to_operands_sum :
    let l := Lexer.ofSource "f () + g (); x"
    let p := Parser.ofSource "f () + g (); x"
    (∃ e l', atom true 50 l = some (.ok e, l') ∧
      ∃ t, l'.peek = (.ok t, l') ∧ t ≠ some (.punctuation '(')) ∧
    (∃ e l', expression false 50 l = some (.ok e, l') ∧
      ∃ t, l'.peek = (.ok t, l') ∧ t ≠ some (.punctuation '(') ∧
        ∀ op : Operator, t ≠ some (.operator op.text)) ∧
    (∃ a l₁ e l₂, atom true 50 l = some (.ok a, l₁) ∧
      operators true 50 a 0 l₁ = some (.ok e, l₂) ∧ calls true 50 e l₂ = some (.ok e, l₂)) ∧
    (∃ e, p.atom.1 = .ok e ∧ ¬Phrase.CallAhead p.atom.2.tokens) ∧
    (∃ e, p.expression.1 = .ok e ∧ ¬Phrase.CallAhead p.expression.2.tokens ∧
      ¬Phrase.OperatorAhead p.expression.2.tokens) ∧
    p.Follows l ∧ 4 * p.unread.length + 5 ≤ 50 ∧
    ∃ l', expression false 50 l = some (p.expression.1, l') ∧ p.expression.2.Follows l' := by
  intro l p
  have hfollows : p.Follows l := Parser.follows_ofSource _
  have hdepth : 4 * p.unread.length + 5 ≤ 50 := by decide +kernel
  have hsum : ((atom true 50 >>= fun a => operators true 50 a 0) l).any (·.1.isOk) = true := by
    decide +kernel
  have hread : (expression false 50 l).any (·.1.isOk) = true := by decide +kernel
  have hoperand : p.atom.1.isOk = true := by decide +kernel
  clear_value l p
  obtain ⟨hatom, hexpression, hcalls, -, hparser⟩ := calls_belong_to_operands
  obtain ⟨hparserAtom, hparserExpression, hanswers⟩ := hparser p
  obtain ⟨e, l₂, hsum⟩ := exists_of_isOk hsum
  obtain ⟨a, l₁, ha, he⟩ := bind_eq_ok hsum
  obtain ⟨e', l', he'⟩ := exists_of_isOk hread
  obtain ⟨l'', hl'', hfollows'⟩ := hanswers l hfollows false 50 hdepth
  have hok : p.expression.1 = .ok e' := by
    rw [hl''] at he'
    exact congrArg Prod.fst (Option.some.inj he')
  obtain ⟨b, hb⟩ := exists_ok_of_isOk hoperand
  exact ⟨⟨a, l₁, ha, hatom _ _ _ _ _ ha⟩, ⟨e', l', he', hexpression _ _ _ _ _ he'⟩,
    ⟨a, l₁, e, l₂, ha, he, hcalls _ _ _ _ _ _ ha he⟩, ⟨b, hb, hparserAtom b hb⟩,
    ⟨e', hok, hparserExpression e' hok⟩, hfollows, hdepth, l'', hl'', hfollows'⟩

end ExprLang
