import ExprLang.Expr.Basic
import Mathlib.Data.List.Induction
import Mathlib.Data.Nat.Basic
import Mathlib.Order.Basic

/-! # Trees of operators

A chain is an operand followed by links, each an operator and the operand behind it.
`OperatorTree` is a way to bracket a chain; `OperatorTree.first` and `OperatorTree.links`
read the chain off the tree again.

`OperatorTree.Ordered` is what the precedences say about the tree, one node at a time: the
left operand of a binary operator binds at least as tightly as the operator and its right
operand more tightly, while an assignment has none to its left.  Every chain has exactly
one ordered tree: `exists_ordered` finds it by hanging on one link at a time
(`OperatorTree.snoc`), and `Ordered.eq_of_links_eq` compares two trees at their roots, which
`Ordered.precedence_le` shows to bind least. -/

namespace ExprLang

/-- Every operator binds more tightly than the bound under which a whole chain is read. -/
theorem Operator.precedence_pos (op : Operator) : 0 < op.precedence := by
  cases op with
  | assign => decide
  | binary op => cases op <;> decide

/-- Binary operators bind more tightly than assignments. -/
theorem BinaryOperator.one_lt_precedence (op : BinaryOperator) : 1 < op.precedence := by
  cases op <;> decide

/-- Operands with operators between them, and the order in which the operators apply. -/
inductive OperatorTree where
  | operand (e : Expr)
  | node (op : Operator) (left right : OperatorTree)

namespace OperatorTree

/-- The expression that the tree stands for. -/
def toExpr : OperatorTree → Expr
  | operand e => e
  | node op left right => op.apply left.toExpr right.toExpr

/-- The leftmost operand. -/
def first : OperatorTree → Expr
  | operand e => e
  | node _ left _ => left.first

/-- The operators from left to right, each with the operand behind it. -/
def links : OperatorTree → List (Operator × Expr)
  | operand _ => []
  | node op left right => left.links ++ (op, right.first) :: right.links

/-- The operator that applies last; an operand has none. -/
def root? : OperatorTree → Option Operator
  | operand _ => none
  | node op _ _ => some op

/-- What the precedences say about the two sides of a node. -/
def Fits : Operator → OperatorTree → OperatorTree → Prop
  | .binary op, left, right =>
    (∀ o ∈ left.root?, op.precedence ≤ o.precedence) ∧
      ∀ o ∈ right.root?, op.precedence < o.precedence
  | .assign, left, _ => ∀ o ∈ left.root?, o ≠ .assign

/-- The precedences are respected at every node. -/
def Ordered : OperatorTree → Prop
  | operand _ => True
  | node op left right => left.Ordered ∧ right.Ordered ∧ Fits op left right

/-! ### What may stand to the left and to the right of an operator -/

/-- The right operand of a node binds more tightly than the bound that the operator sets. -/
theorem Fits.rightBound_lt {op : Operator} {left right : OperatorTree} (h : Fits op left right) :
    ∀ o ∈ right.root?, op.rightBound < o.precedence := by
  cases op with
  | assign => exact fun o _ => o.precedence_pos
  | binary op => exact h.2

/-- The left operand of a node binds at least as tightly as the operator. -/
theorem Fits.precedence_le {op : Operator} {left right : OperatorTree} (h : Fits op left right) :
    ∀ o ∈ left.root?, op.precedence ≤ o.precedence := by
  cases op with
  | assign => exact fun o _ => o.precedence_pos
  | binary op => exact h.1

/-- A tree whose root leaves the operator to the left of it, and one above the bound of the
operator to the right of it, fit together. -/
theorem fits_of_rightBound {op : Operator} {left right : OperatorTree}
    (hl : ∀ o ∈ left.root?, op.precedence ≤ o.rightBound)
    (hr : ∀ o ∈ right.root?, op.rightBound < o.precedence) : Fits op left right := by
  have hpos := op.precedence_pos
  cases op with
  | assign =>
      rintro o ho rfl
      have hzero : Operator.assign.precedence ≤ 0 := hl _ ho
      omega
  | binary op =>
      refine ⟨fun o ho => ?_, hr⟩
      have hle := hl o ho
      cases o with
      | assign => exact absurd hpos (Nat.not_lt.mpr hle)
      | binary o => exact hle

/-! ### The root binds least -/

theorem Ordered.precedence_le {t : OperatorTree} (h : t.Ordered) {op : Operator}
    (hop : op ∈ t.root?) : ∀ p ∈ t.links, op.precedence ≤ p.1.precedence := by
  induction t generalizing op with
  | operand e => simp [root?] at hop
  | node o left right ihl ihr =>
      obtain ⟨hl, hr, hfits⟩ := h
      obtain rfl : o = op := by simpa [root?] using hop
      intro p hp
      simp only [links, List.mem_append, List.mem_cons] at hp
      rcases hp with hp | rfl | hp
      · cases left with
        | operand e => simp [links] at hp
        | node o' _ _ => exact (hfits.precedence_le o' rfl).trans (ihl hl rfl p hp)
      · exact Nat.le_refl _
      · cases right with
        | operand e => simp [links] at hp
        | node o' a b =>
            have hle : o'.precedence ≤ p.1.precedence := ihr hr rfl p hp
            cases o with
            | assign => exact p.1.precedence_pos
            | binary o => exact (Nat.le_of_lt (hfits.2 o' rfl)).trans hle

/-- To the left of a node no operator binds less tightly, and none is an assignment if the node
is one. -/
theorem Ordered.of_mem_left {op : Operator} {left right : OperatorTree}
    (h : (node op left right).Ordered) :
    ∀ p ∈ left.links, op.precedence ≤ p.1.precedence ∧ (op = .assign → 1 < p.1.precedence) := by
  obtain ⟨hl, -, hfits⟩ := h
  intro p hp
  cases left with
  | operand e => simp [links] at hp
  | node o a b =>
      have hle := hl.precedence_le rfl p hp
      refine ⟨(hfits.precedence_le o rfl).trans hle, ?_⟩
      rintro rfl
      cases o with
      | assign => exact absurd rfl (hfits .assign rfl)
      | binary o => exact o.one_lt_precedence.trans_le hle

/-- To the right of a node every operator binds more tightly than the bound that it sets. -/
theorem Ordered.of_mem_right {op : Operator} {left right : OperatorTree}
    (h : (node op left right).Ordered) : ∀ p ∈ right.links, op.rightBound < p.1.precedence := by
  obtain ⟨-, hr, hfits⟩ := h
  intro p hp
  cases right with
  | operand e => simp [links] at hp
  | node o a b => exact (hfits.rightBound_lt o rfl).trans_le (hr.precedence_le rfl p hp)

/-! ### One ordered tree for every chain -/

/-- Two roots cannot both have the other one on the far side. -/
theorem Ordered.not_crossing {op op' : Operator} {left right left' right' : OperatorTree}
    (h : (node op left right).Ordered) (h' : (node op' left' right').Ordered)
    (p p' : Operator × Expr) (hp : p ∈ left'.links) (hp1 : p.1 = op) (hp' : p' ∈ right.links)
    (hp1' : p'.1 = op') : False := by
  have hright := h.of_mem_right p' hp'
  obtain ⟨hleft, hassign⟩ := h'.of_mem_left p hp
  rw [hp1'] at hright
  rw [hp1] at hleft hassign
  cases op with
  | assign =>
      cases op' with
      | assign => exact absurd (hassign rfl) (by decide)
      | binary op' => exact absurd op'.one_lt_precedence (Nat.not_lt.mpr hleft)
  | binary op => exact absurd hright (Nat.not_lt.mpr hleft)

/-- Of two ordered trees over one chain the second does not split it later than the first. -/
theorem Ordered.length_left_le {op op' : Operator} {left right left' right' : OperatorTree}
    (h : (node op left right).Ordered) (h' : (node op' left' right').Ordered)
    (hlinks : (node op left right).links = (node op' left' right').links) :
    left'.links.length ≤ left.links.length := by
  by_contra hlt
  rcases List.append_eq_append_iff.mp hlinks with ⟨m, hm, hm'⟩ | ⟨m, hm, -⟩
  · cases m with
    | nil => simp [hm] at hlt
    | cons p m =>
        simp only [List.cons_append, List.cons.injEq] at hm'
        exact h.not_crossing h' p (op', right'.first) (by simp [hm]) (by simp [← hm'.1])
          (by simp [hm'.2]) rfl
  · simp [hm] at hlt

/-- An ordered tree is known by its chain. -/
theorem Ordered.eq_of_links_eq {s t : OperatorTree} (hs : s.Ordered) (ht : t.Ordered)
    (hfirst : s.first = t.first) (hlinks : s.links = t.links) : s = t := by
  induction s generalizing t with
  | operand e =>
      cases t with
      | operand e' => exact congrArg operand hfirst
      | node op left right => simp [links] at hlinks
  | node op left right ihl ihr =>
      cases t with
      | operand e => simp [links] at hlinks
      | node op' left' right' =>
          have hlen : left.links.length = left'.links.length :=
            Nat.le_antisymm (ht.length_left_le hs hlinks.symm) (hs.length_left_le ht hlinks)
          obtain ⟨hleft, hright⟩ := List.append_inj hlinks hlen
          simp only [List.cons.injEq, Prod.mk.injEq] at hright
          obtain ⟨⟨rfl, hf⟩, hright⟩ := hright
          rw [ihl hs.1 ht.1 hfirst hleft, ihr hs.2.1 ht.2.1 hf hright]

/-- The tree with one more link behind it: the operator takes as much of the right edge as it
may. -/
def snoc (op : Operator) (e : Expr) : OperatorTree → OperatorTree
  | operand a => node op (operand a) (operand e)
  | node o left right =>
    if op.precedence ≤ o.rightBound then node op (node o left right) (operand e)
    else node o left (right.snoc op e)

theorem first_snoc (op : Operator) (e : Expr) (t : OperatorTree) :
    (t.snoc op e).first = t.first := by
  cases t with
  | operand a => rfl
  | node o left right =>
      unfold snoc
      split <;> rfl

theorem links_snoc (op : Operator) (e : Expr) (t : OperatorTree) :
    (t.snoc op e).links = t.links ++ [(op, e)] := by
  induction t with
  | operand a => rfl
  | node o left right _ ihr =>
      unfold snoc
      split
      · rfl
      · simp [links, ihr, first_snoc]

/-- The root of the longer tree is the old root or the new operator. -/
theorem lt_root_snoc {op : Operator} {e : Expr} {t : OperatorTree} {n : ℕ}
    (h : ∀ o ∈ t.root?, n < o.precedence) (hop : n < op.precedence) :
    ∀ o ∈ (t.snoc op e).root?, n < o.precedence := by
  cases t with
  | operand a => simpa [snoc, root?] using hop
  | node o left right =>
      unfold snoc
      split
      · simpa [root?] using hop
      · simpa [root?] using h

theorem Ordered.snoc {t : OperatorTree} (h : t.Ordered) (op : Operator) (e : Expr) :
    (t.snoc op e).Ordered := by
  induction t with
  | operand a => exact ⟨trivial, trivial, fits_of_rightBound (by simp [root?]) (by simp [root?])⟩
  | node o left right _ ihr =>
      obtain ⟨hl, hr, hfits⟩ := h
      unfold OperatorTree.snoc
      split
      · next hle =>
        exact ⟨⟨hl, hr, hfits⟩, trivial,
          fits_of_rightBound (by simpa [root?] using hle) (by simp [root?])⟩
      · next hlt =>
        refine ⟨hl, ihr hr, ?_⟩
        cases o with
        | assign => exact hfits
        | binary o => exact ⟨hfits.1, lt_root_snoc hfits.2 (Nat.lt_of_not_le hlt)⟩

/-- Every chain has an ordered tree. -/
theorem exists_ordered (a : Expr) (l : List (Operator × Expr)) :
    ∃ t : OperatorTree, t.Ordered ∧ t.first = a ∧ t.links = l := by
  induction l using List.reverseRecOn with
  | nil => exact ⟨operand a, trivial, rfl, rfl⟩
  | append_singleton l p ih =>
      obtain ⟨t, ht, hfirst, hlinks⟩ := ih
      exact ⟨t.snoc p.1 p.2, ht.snoc p.1 p.2, (first_snoc _ _ _).trans hfirst,
        (links_snoc _ _ _).trans (by rw [hlinks])⟩

end OperatorTree

end ExprLang
