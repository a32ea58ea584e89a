import ExprLang.Parser.Lemmas
import ExprLang.Proofs.Phrase

/-! # Climbing over a chain

`Grammar.operators` walks along a chain of operands with a tree for what it has passed and a
bound that later operators must exceed.  `Chained` is such a chain as the parser meets it, and
`Chained.operators` is what comes of walking along it: an ordered tree for a part of the chain,
and behind that part an operator that does not exceed the bound, or no operator at all.  Under the
bound zero the part is the whole chain (`Chained.operators_zero`). -/

namespace ExprLang.Phrase

variable {ending : Option LexicalFault}

/-! ### Where the loops of the parser stop -/

theorem calls_stop {ts : List Token} (hcall : ¬ CallAhead ts) (hend : ts = [] → ending = none)
    (f : Expr) : (Grammar.calls ending f ts).toExcept = .ok (f, ts) := by
  rw [Grammar.toExcept_calls]
  split
  · rw [hend rfl]
    rfl
  · exact absurd rfl hcall
  · rfl

theorem operators_stop {ts : List Token} (hop : ¬ OperatorAhead ts)
    (hend : ts = [] → ending = none) (e : Expr) (bound : ℕ) :
    (Grammar.operators ending e bound ts).toExcept = .ok (e, ts) := by
  rw [Grammar.toExcept_operators]
  split
  · rw [hend rfl]
    rfl
  · next text rest =>
    cases h : Operator.ofText? text with
    | none => rfl
    | some op => exact absurd ⟨op, by rw [Operator.ofText?_eq_some_iff.mp h]; rfl⟩ hop
  · rfl

theorem alternative_stop {ts : List Token} (helse : ¬ ElseAhead ts)
    (hend : ts = [] → ending = none) :
    (Grammar.alternative ending ts).toExcept = .ok (none, ts) := by
  rw [Grammar.toExcept_alternative]
  split
  · rw [hend rfl]
    rfl
  · exact absurd rfl helse
  · rfl

/-! ### Chains -/

/-- The links of a chain that the parser can read one after another. -/
inductive Chained (ending : Option LexicalFault) :
    List Token → List (Operator × Expr) → List Token → Prop
  | stop {ts} : Chained ending ts [] ts
  | link {op : Operator} {ts a r links s} :
      (Grammar.atom ending ts).toExcept = .ok (a, r) → Chained ending r links s →
      Chained ending (.operator op.text :: ts) ((op, a) :: links) s

theorem Chained.append {ts r s : List Token} {l l' : List (Operator × Expr)}
    (h : Chained ending ts l r) (h' : Chained ending r l' s) : Chained ending ts (l ++ l') s := by
  induction h with
  | stop => exact h'
  | link ha _ ih => exact .link ha (ih h')

/-- What the parser makes of the links in front of it, having made `tree` of those behind: it
goes on to `tree'` and leaves `links'`, which begin at `r`. -/
structure Walk (ending : Option LexicalFault) (tree : OperatorTree) (bound : ℕ)
    (links : List (Operator × Expr)) (ts s : List Token) (tree' : OperatorTree)
    (links' : List (Operator × Expr)) (r : List Token) : Prop where
  read : (Grammar.operators ending tree.toExpr bound ts).toExcept = .ok (tree'.toExpr, r)
  left : Chained ending r links' s
  ordered : tree'.Ordered
  first_eq : tree'.first = tree.first
  links_eq : tree.links ++ links = tree'.links ++ links'
  lt_root : ∀ o ∈ tree'.root?, bound < o.precedence
  next_le : ∀ p ∈ links'.head?, p.1.precedence ≤ bound

/-- The invariant of the walk is that the root of the tree exceeds the bound and leaves the next
operator to the loop. -/
theorem Chained.walk {ts s : List Token} {links : List (Operator × Expr)}
    (h : Chained ending ts links s) (hop : ¬ OperatorAhead s) (hend : s = [] → ending = none)
    (tree : OperatorTree) (bound : ℕ) (htree : tree.Ordered)
    (hbound : ∀ o ∈ tree.root?, bound < o.precedence)
    (hnext : ∀ p ∈ links.head?, ∀ o ∈ tree.root?, p.1.precedence ≤ o.rightBound) :
    ∃ tree' links' r, Walk ending tree bound links ts s tree' links' r := by
  induction hn : links.length using Nat.strong_induction_on
    generalizing ts links tree bound with
  | _ n ih =>
    cases h with
    | stop =>
        exact ⟨tree, [], s, operators_stop hop hend _ _, .stop, htree, rfl, rfl, hbound, by simp⟩
    | @link op ts a r links _ ha hl =>
        have hstep := Grammar.toExcept_operators ending tree.toExpr bound (.operator op.text :: ts)
        simp only [Operator.ofText?_text] at hstep
        by_cases hle : op.precedence ≤ bound
        · rw [if_pos hle] at hstep
          exact ⟨tree, (op, a) :: links, _, hstep, .link ha hl, htree, rfl, rfl, hbound,
            by simpa using hle⟩
        · -- The right operand takes what exceeds the bound that the operator sets, and the loop
          -- goes on with the node.
          obtain ⟨right, links₁, r₁, hright⟩ := ih links.length (by simp [← hn]) hl (.operand a)
            op.rightBound trivial (by simp [OperatorTree.root?]) (by simp [OperatorTree.root?]) rfl
          have happ : links = right.links ++ links₁ := hright.links_eq
          obtain ⟨tree', links', r', hrest⟩ := ih links₁.length
            (by rw [← hn, happ]; simp only [List.length_cons, List.length_append]; omega)
            hright.left (.node op tree right) bound
            ⟨htree, hright.ordered, OperatorTree.fits_of_rightBound (hnext _ rfl) hright.lt_root⟩
            (by simpa [OperatorTree.root?] using hle)
            (by simpa [OperatorTree.root?] using hright.next_le) rfl
          refine ⟨tree', links', r', ?_, hrest.left, hrest.ordered, hrest.first_eq, ?_,
            hrest.lt_root, hrest.next_le⟩
          · rw [hstep, if_neg hle, ha]
            simp only [Except.bind]
            rw [show (Grammar.operators ending a op.rightBound r).toExcept = _ from hright.read]
            exact hrest.read
          · have hfirst : right.first = a := hright.first_eq
            rw [← hrest.links_eq, happ]
            simp [OperatorTree.links, hfirst]

/-- Under the bound zero the parser makes an ordered tree of the whole chain. -/
theorem Chained.operators_zero {ts s : List Token} {links : List (Operator × Expr)}
    (h : Chained ending ts links s) (hop : ¬ OperatorAhead s) (hend : s = [] → ending = none)
    (a : Expr) :
    ∃ tree : OperatorTree, tree.Ordered ∧ tree.first = a ∧ tree.links = links ∧
      (Grammar.operators ending a 0 ts).toExcept = .ok (tree.toExpr, s) := by
  obtain ⟨tree, links', r, hwalk⟩ := h.walk hop hend (.operand a) 0 trivial
    (by simp [OperatorTree.root?]) (by simp [OperatorTree.root?])
  obtain ⟨hread, hl, htree, hfirst, happ, -, hnext⟩ := hwalk
  cases hl with
  | stop => exact ⟨tree, htree, hfirst, by simpa [OperatorTree.links] using happ.symm, hread⟩
  | @link op _ a _ _ _ ha _ =>
      exact absurd op.precedence_pos (Nat.not_lt.mpr (hnext (op, a) rfl))

end ExprLang.Phrase
