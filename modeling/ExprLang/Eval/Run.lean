import ExprLang.Eval.Basic
import ExprLang.Parser.Basic

/-! # Running programs

A program runs in a scope of a store.  What it did before an error stays done,
so programs that run one after another in the same scope build on each other. -/

namespace ExprLang

/-- Why a program gave no value. -/
inductive RunError where
  /-- The source is no program. -/
  | source (error : SyntaxError)
  | evaluation (error : EvalError)
  /-- The evaluation went too deep. -/
  | unfinished

/-- How many levels deep a program is evaluated. -/
def depthLimit : Nat := 1000000000

/-- The value or the error of an outcome, and the store afterwards; an evaluation that was not
finished leaves none. -/
def Outcome.settle : Outcome Value → Except RunError Value × Store
  | .done v σ => (.ok v, σ)
  | .failed e σ => (.error (.evaluation e), σ)
  | .unfinished => (.error .unfinished, .empty)

/-- Runs the program that a source holds. -/
def Store.run (σ : Store) (s : ScopeId) (source : String) : Except RunError Value × Store :=
  match Expr.ofSource source with
  | .error e => (.error (.source e), σ)
  | .ok program => (evaluate depthLimit s program σ).settle

end ExprLang
