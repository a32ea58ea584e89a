import ExprLang.Proofs.Acceptance
import Mathlib.Data.List.Forall2

/-! # Precedence

A chain of operands with operators between them, each operand having an end of its own, is read as
the one tree that the precedences prescribe (`Parser.expression_chain`): the operands and the
operators stand in it in their order, and at every node of the chain the two sides fit the
operator. -/

namespace ExprLang

namespace Phrase

/-- The tokens of one operand that has an end of its own: a literal, a name, a block, a
parenthesized expression or calls of one of them. -/
def IsOperand (ts : List Token) : Prop := ¬ OpenEnded ts ∧ ∃ e, Operand false ts e []

/-- The operand that the tokens are by themselves. -/
def ReadsOperand (ts : List Token) (e : Expr) : Prop :=
  (Grammar.atom none ts).toExcept = .ok (e, [])

/-- The tokens of a chain. -/
def chainTokens (operand : List Token) (links : List (Operator × List Token)) : List Token :=
  operand ++ links.flatMap fun l => .operator l.1.text :: l.2

/-- `tree` is an ordered tree of the operands and operators of a chain. -/
structure Arranges (operand : List Token) (links : List (Operator × List Token))
    (tree : OperatorTree) : Prop where
  first : ReadsOperand operand tree.first
  links : List.Forall₂ (fun l m => l.1 = m.1 ∧ ReadsOperand l.2 m.2) links tree.links
  ordered : tree.Ordered

theorem ReadsOperand.unique {ts : List Token} {e e' : Expr} (h : ReadsOperand ts e)
    (h' : ReadsOperand ts e') : e = e' := by
  unfold ReadsOperand at h h'
  rw [h] at h'
  exact (Prod.mk.inj (Except.ok.inj h')).1

theorem Arranges.unique {operand : List Token} {links : List (Operator × List Token)}
    {tree tree' : OperatorTree} (h : Arranges operand links tree)
    (h' : Arranges operand links tree') : tree' = tree := by
  have hunique : Relator.RightUnique fun (l : Operator × List Token) (m : Operator × Expr) =>
      l.1 = m.1 ∧ ReadsOperand l.2 m.2 :=
    fun _ _ _ hm hm' => Prod.ext (hm.1.symm.trans hm'.1) (hm.2.unique hm'.2)
  exact h'.ordered.eq_of_links_eq h.ordered (h'.first.unique h.first)
    (hunique.forall₂ h'.links h.links)

/-- An operand is read the same wherever it stands. -/
theorem IsOperand.read {ts : List Token} (h : IsOperand ts) :
    ∃ e, ReadsOperand ts e ∧ ∀ x, Operand true (ts ++ x) e x := by
  obtain ⟨hclosed, e, he⟩ := h
  obtain ⟨e', he'⟩ := he.exists_innermost hclosed
  exact ⟨e', he'.read (by simp [CallAhead]) (fun _ => rfl),
    fun x => he'.frame x fun _ => .inl hclosed⟩

/-- The links of a chain are read in their order. -/
theorem exists_links {links : List (Operator × List Token)} (h : ∀ l ∈ links, IsOperand l.2)
    (x : List Token) :
    ∃ ms : List (Operator × Expr),
      List.Forall₂ (fun l m => l.1 = m.1 ∧ ReadsOperand l.2 m.2) links ms ∧
      Links true ((links.flatMap fun l => .operator l.1.text :: l.2) ++ x) ms x := by
  induction links with
  | nil => exact ⟨[], .nil, .stop⟩
  | cons l links ih =>
      obtain ⟨e, he, hframe⟩ := (h l (by simp)).read
      obtain ⟨ms, hms, hlinks⟩ := ih fun m hm => h m (by simp [hm])
      refine ⟨(l.1, e) :: ms, .cons ⟨rfl, he⟩ hms, ?_⟩
      simp only [List.flatMap_cons, List.cons_append, List.append_assoc]
      exact .link (hframe _) hlinks

end Phrase

namespace Parser

/-- What a parser that answers has left is what the grammar leaves. -/
theorem settle_of_ok {α : Type} {n : ℕ} {p : Parser} {s : Step α n} {a : α} {ts r : List Token}
    (hp : p.tokens = ts ++ r) (hs : s.toExcept = .ok (a, r)) :
    (p.settle s).1 = .ok a ∧ (p.settle s).2.tokens = r := by
  cases s with
  | fail f => simp [Step.toExcept] at hs
  | ok b r' h =>
      obtain ⟨rfl, rfl⟩ : b = a ∧ r' = r := by simpa [Step.toExcept] using hs
      refine ⟨rfl, ?_⟩
      have hlen : p.unread.length - r'.length = ts.length := by
        have := congrArg List.length hp
        simp only [tokens, List.length_map, List.length_append] at this
        omega
      simp only [settle, tokens, lexemesOf, hlen, List.map_drop]
      simp only [tokens] at hp
      rw [hp, List.drop_left]

/-- **Precedence.**  A chain of operands before a token that cannot go on with it, or at the end of
the source, is read as the only tree of its operands and operators in which every node of the chain
fits the precedences. -/
theorem expression_chain (p : Parser) (operand : List Token)
    (links : List (Operator × List Token)) (rest : List Token)
    (hoperand : Phrase.IsOperand operand) (hlinks : ∀ l ∈ links, Phrase.IsOperand l.2)
    (hrest : ¬ Phrase.CallAhead rest ∧ ¬ Phrase.OperatorAhead rest)
    (hend : rest = [] → p.lexed.error? = none)
    (hp : p.tokens = Phrase.chainTokens operand links ++ rest) :
    ∃ tree : OperatorTree, Phrase.Arranges operand links tree ∧
      (∀ tree', Phrase.Arranges operand links tree' → tree' = tree) ∧
      p.expression.1 = .ok tree.toExpr ∧ p.expression.2.tokens = rest := by
  obtain ⟨a, ha, hframe⟩ := hoperand.read
  obtain ⟨ms, hms, hl⟩ := Phrase.exists_links hlinks rest
  obtain ⟨tree, htree, rfl, rfl⟩ := OperatorTree.exists_ordered a ms
  have harranges : Phrase.Arranges operand links tree := ⟨ha, hms, htree⟩
  have hexpression : Phrase.Expression true p.tokens tree.toExpr rest := by
    rw [hp, Phrase.chainTokens, List.append_assoc]
    exact .chain (hframe _) hl rfl htree fun _ => hrest
  have hfault : rest = [] → p.lexed.fault = none := fun h => by
    simpa [Lexed.error?] using hend h
  exact ⟨tree, harranges, fun tree' h => harranges.unique h,
    settle_of_ok hp (hexpression.read hfault)⟩

/-- Two assignments, three levels of operators and a call, before a separator. -/
theorem expression_chain_assignments :
    ∃ tree : OperatorTree,
      Phrase.Arranges [.variable "a"] [(.assign, [.variable "b"]),
        (.binary .or, [.variable "f", .punctuation '(', .punctuation ')']),
        (.binary .subtract, [.string "s"]), (.binary .multiply, [.keyword .trueWord]),
        (.assign, [.punctuation '\x7b', .punctuation '\x7d'])] tree ∧
      (Parser.ofSource "a = b || f() - \"s\" * true = \x7b\x7d; y").expression.1 =
        .ok tree.toExpr := by
  have hlinks : ∀ l ∈ [(Operator.assign, [Token.variable "b"]),
      (.binary .or, [.variable "f", .punctuation '(', .punctuation ')']),
      (.binary .subtract, [.string "s"]), (.binary .multiply, [.keyword .trueWord]),
      (.assign, [.punctuation '\x7b', .punctuation '\x7d'])], Phrase.IsOperand l.2 := by
    intro l hl
    simp only [List.mem_cons, List.not_mem_nil, or_false] at hl
    rcases hl with rfl | rfl | rfl | rfl | rfl
    · exact ⟨by simp [Phrase.OpenEnded], _, .called .variable .stop⟩
    · exact ⟨by simp [Phrase.OpenEnded], _, .called .variable (.call .empty .stop)⟩
    · exact ⟨by simp [Phrase.OpenEnded], _, .called .string .stop⟩
    · exact ⟨by simp [Phrase.OpenEnded], _, .called .trueWord .stop⟩
    · exact ⟨by simp [Phrase.OpenEnded], _, .called (.block .empty) .stop⟩
  obtain ⟨tree, htree, -, hread, -⟩ :=
    expression_chain (.ofSource "a = b || f() - \"s\" * true = \x7b\x7d; y") [.variable "a"] _
      [.punctuation ';', .variable "y"]
      ⟨by simp [Phrase.OpenEnded], _, .called .variable .stop⟩ hlinks
      (by simp [Phrase.CallAhead, Phrase.OperatorAhead]) (by simp) (by decide +kernel)
  exact ⟨tree, htree, hread⟩

end Parser

end ExprLang
