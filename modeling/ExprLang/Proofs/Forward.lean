import ExprLang.Proofs.Parsed

/-! # The grammar does not go back

Where a construct cannot be read, some tokens may have been used up, the offending one perhaps
among them, and the others are left.  None of the tokens before the offending one is among those
(`Orderly`), so a parser that goes on behind a failure finds no error before the last one.

There is one lemma for each construct, and they call each other as the constructs do. -/

namespace ExprLang

/-- If this is a failure, then what is left begins at the offending token or behind it. -/
def Orderly {α : Type} (read : Except ParseFailure (α × List Token)) : Prop :=
  ∀ f, read = .error f → f.rest <:+ f.offending

section

variable {α β : Type}

namespace Orderly

theorem ok (p : α × List Token) : Orderly (.ok p) := nofun

/-- The offending token is left. -/
theorem reject (fault : SyntaxFault) (ts : List Token) :
    Orderly (.error ⟨fault, ts, ts⟩ : Except ParseFailure (α × List Token)) := by
  rintro f ⟨⟩
  exact List.suffix_rfl

/-- The offending token is used up. -/
theorem consume (fault : SyntaxFault) (t : Token) (ts : List Token) :
    Orderly (.error ⟨fault, t :: ts, ts⟩ : Except ParseFailure (α × List Token)) := by
  rintro f ⟨⟩
  exact List.suffix_cons t ts

theorem done (ending : Option LexicalFault) (a : α) : Orderly (Step.done ending a).toExcept := by
  cases ending with
  | none => exact .ok _
  | some fault => exact .reject _ _

theorem map {read : Except ParseFailure (α × List Token)} (h : Orderly read)
    (g : α × List Token → β × List Token) : Orderly (read.map g) := by
  intro f hf
  cases read with
  | ok p => cases hf
  | error failure =>
      cases hf
      exact h _ rfl

theorem bind {read : Except ParseFailure (α × List Token)}
    {next : α × List Token → Except ParseFailure (β × List Token)} (h : Orderly read)
    (hnext : ∀ p, read = .ok p → Orderly (next p)) : Orderly (read.bind next) := by
  cases read with
  | ok p => exact hnext p rfl
  | error failure =>
      intro f hf
      cases hf
      exact h _ rfl

end Orderly

end

namespace Grammar

variable {ending : Option LexicalFault}

theorem orderly_mark (c : Char) (ts : List Token) : Orderly (mark ending c ts).toExcept := by
  cases ts with
  | nil => exact .reject _ _
  | cons t ts =>
      simp only [mark]
      split
      · exact .ok _
      · exact .reject _ _

theorem orderly_word (k : Keyword) (ts : List Token) : Orderly (word ending k ts).toExcept := by
  cases ts with
  | nil => exact .reject _ _
  | cons t ts =>
      simp only [word]
      split
      · exact .ok _
      · exact .reject _ _

theorem orderly_name (ts : List Token) : Orderly (name ending ts).toExcept := by
  unfold name
  split
  · exact .reject _ _
  · exact .ok _
  · exact .consume _ _ _

theorem orderly_boolean (ts : List Token) : Orderly (boolean ending ts).toExcept := by
  unfold boolean
  split
  · exact .reject _ _
  · exact .ok _
  · exact .ok _
  · exact .consume _ _ _

/-! ### Lists -/

section lists

variable {α : Type} {item : (r : List Token) → Step α r.length}

theorem orderly_items {stop separator : Char} (ts : List Token)
    (h : ∀ us : List Token, us.length ≤ ts.length → Orderly (item us).toExcept) :
    Orderly (items ending stop separator ts fun r _ => item r).toExcept := by
  rw [toExcept_items]
  refine .bind (h ts le_rfl) fun p hp => ?_
  have hlt := Step.length_lt hp
  rw [toExcept_followItem]
  split
  · exact .reject _ _
  · next t r hr =>
      have hr : r.length < ts.length := by
        rw [hr, List.length_cons] at hlt
        omega
      split
      · exact .ok _
      · split
        · split
          · exact .ok _
          · exact .map (orderly_items r fun us hus => h us (hus.trans hr.le)) _
        · exact .reject _ _
termination_by ts.length

theorem orderly_delimited (start stop separator : Char) (ts : List Token)
    (h : ∀ us : List Token, us.length < ts.length → Orderly (item us).toExcept) :
    Orderly (delimited ending start stop separator ts fun r _ => item r).toExcept := by
  rw [toExcept_delimited]
  refine .bind (orderly_mark start ts) fun p hp => ?_
  have hlt := Step.length_lt hp
  split
  · exact .reject _ _
  · next t r hr =>
      rw [hr] at hlt
      split
      · exact .ok _
      · exact orderly_items _ fun us hus => h us (hus.trans_lt hlt)

end lists

/-! ### Expressions -/

mutual

theorem orderly_expression (ts : List Token) : Orderly (expression ending ts).toExcept := by
  rw [toExcept_expression]
  refine .bind (orderly_atom ts) fun p hp => .bind ?_ fun q hq => ?_
  · have hlt := Step.length_lt hp
    exact orderly_operators p.1 0 p.2
  · have hlt := Step.length_lt hp
    have hle := Step.length_lt hq
    exact orderly_calls q.1 q.2
termination_by 4 * ts.length + 3

theorem orderly_atom (ts : List Token) : Orderly (atom ending ts).toExcept := by
  rw [toExcept_atom]
  refine .bind (orderly_bareAtom ts) fun p hp => ?_
  have hlt := Step.length_lt hp
  exact orderly_calls p.1 p.2
termination_by 4 * ts.length + 2

theorem orderly_bareAtom (ts : List Token) : Orderly (bareAtom ending ts).toExcept := by
  rw [toExcept_bareAtom]
  generalize hts : ts = us
  split
  · exact .reject _ _
  · exact .ok _
  · exact .ok _
  · exact .ok _
  · exact .bind (orderly_expression _) fun p _ => .map (orderly_mark _ _) _
  · exact orderly_block _
  · exact orderly_condition _
  · exact .ok _
  · exact .ok _
  · exact orderly_lambda _
  · exact .consume _ _ _
termination_by 4 * ts.length + 1
decreasing_by all_goals subst hts; simp only [List.length_cons] at *; omega

theorem orderly_block (ts : List Token) : Orderly (block ending ts).toExcept := by
  rw [toExcept_block]
  exact .map (orderly_delimited _ _ _ ts fun us hus => orderly_expression us) _
termination_by 4 * ts.length

theorem orderly_condition (ts : List Token) : Orderly (condition ending ts).toExcept := by
  rw [toExcept_condition]
  refine .bind (orderly_word _ ts) fun p hp => ?_
  have hlt := Step.length_lt hp
  refine .bind (orderly_expression p.2) fun q hq => ?_
  have hlt' := Step.length_lt hq
  refine .bind (orderly_branch q.2) fun r hr => ?_
  have hlt'' := Step.length_lt hr
  exact .map (orderly_alternative r.2) _
termination_by 4 * ts.length

theorem orderly_branch (ts : List Token) : Orderly (branch ending ts).toExcept := by
  rw [toExcept_branch]
  split
  · exact orderly_expression _
  · refine .bind (orderly_word _ ts) fun p hp => ?_
    have hlt := Step.length_lt hp
    exact orderly_expression p.2
termination_by 4 * ts.length + 4

theorem orderly_alternative (ts : List Token) : Orderly (alternative ending ts).toExcept := by
  rw [toExcept_alternative]
  generalize hts : ts = us
  split
  · exact .done _ _
  · exact .map (orderly_expression _) _
  · exact .ok _
termination_by 4 * ts.length
decreasing_by subst hts; simp only [List.length_cons] at *; omega

theorem orderly_lambda (ts : List Token) : Orderly (lambda ending ts).toExcept := by
  rw [toExcept_lambda]
  refine .bind (orderly_delimited _ _ _ ts fun us _ => orderly_name us) fun p hp => ?_
  have hlt := Step.length_lt hp
  exact .map (orderly_expression p.2) _
termination_by 4 * ts.length

theorem orderly_call (f : Expr) (ts : List Token) : Orderly (call ending f ts).toExcept := by
  rw [toExcept_call]
  exact .map (orderly_delimited _ _ _ ts fun us hus => orderly_expression us) _
termination_by 4 * ts.length

theorem orderly_calls (f : Expr) (ts : List Token) : Orderly (calls ending f ts).toExcept := by
  rw [toExcept_calls]
  split
  · exact .done _ _
  · refine .bind (orderly_call f _) fun p hp => ?_
    have hlt := Step.length_lt hp
    exact orderly_calls p.1 p.2
  · exact .ok _
termination_by 4 * ts.length + 1

theorem orderly_operators (left : Expr) (bound : ℕ) (ts : List Token) :
    Orderly (operators ending left bound ts).toExcept := by
  rw [toExcept_operators]
  generalize hts : ts = us
  split
  · exact .done _ _
  · split
    · exact .ok _
    · split
      · exact .ok _
      · refine .bind (orderly_atom _) fun p hp => ?_
        have hlt := Step.length_lt hp
        refine .bind (orderly_operators p.1 _ p.2) fun q hq => ?_
        have hlt' := Step.length_lt hq
        exact orderly_operators _ bound q.2
  · exact .ok _
termination_by 4 * ts.length
decreasing_by all_goals subst hts; simp only [List.length_cons] at *; omega

end

theorem orderly_program (ts : List Token) : Orderly (program ending ts).toExcept := by
  rw [toExcept_program]
  split
  · exact .done _ _
  · refine .bind (orderly_expression _) fun p hp => ?_
    have hlt := Step.length_lt hp
    rw [toExcept_followExpression]
    split
    · exact .done _ _
    · next r hr =>
        split
        · exact .map (orderly_program _) _
        · exact .reject _ _
termination_by ts.length
decreasing_by simp_all only [List.length_cons]; omega

end Grammar

end ExprLang
