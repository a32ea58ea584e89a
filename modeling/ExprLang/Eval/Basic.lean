import ExprLang.Store.Basic
import ExprLang.Value.Operation

/-! # Evaluation

`evaluate fuel s e σ` evaluates `e` in the scope `s` of the store `σ`.  It
answers with an `Outcome`: a value or an error, each with the store as the
evaluation left it, or that `fuel` levels of nested evaluations were not enough.

Operands are evaluated from left to right and all of them always, for `&&` and
`||` as well.  A call evaluates the function, then all arguments, and only then
finds out whether there is a function to invoke. -/

namespace ExprLang

/-- What comes of an evaluation. -/
inductive Outcome (α : Type) where
  | done (value : α) (store : Store)
  | failed (error : EvalError) (store : Store)
  /-- The evaluation goes deeper than it was allowed to. -/
  | unfinished

namespace Outcome

variable {α β : Type}

/-- Goes on with the value, if there is one. -/
def bind : Outcome α → (α → Store → Outcome β) → Outcome β
  | .done a σ, next => next a σ
  | .failed e σ, _ => .failed e σ
  | .unfinished, _ => .unfinished

/-- The outcome of a computation that leaves the store alone. -/
def ofExcept (σ : Store) : Except EvalError α → Outcome α
  | .ok a => .done a σ
  | .error e => .failed e σ

end Outcome

/-- Parameters with their arguments, by position.  A parameter without argument is undefined, and
arguments without parameter are dropped. -/
def bindArguments : List String → List Value → Bindings
  | [], _ => []
  | p :: ps, [] => (p, .undefined) :: bindArguments ps []
  | p :: ps, v :: vs => (p, v) :: bindArguments ps vs

/-- A new scope for the body of a function, inside the one the function was made in, that binds the
parameters. -/
def Store.enter (σ : Store) (f : Closure) (arguments : List Value) : ScopeId × Store :=
  let (s, σ) := σ.nested f.scope
  (s, σ.defineAll s (bindArguments f.parameters arguments))

/-- Evaluates expressions in order and collects their values. -/
def evaluateAll (evaluate : Expr → Store → Outcome Value) :
    List Expr → Store → Outcome (List Value)
  | [], σ => .done [] σ
  | e :: es, σ =>
    (evaluate e σ).bind fun v σ =>
      (evaluateAll evaluate es σ).bind fun vs σ => .done (v :: vs) σ

/-- Evaluates expressions in order and keeps the last value; `last` if there are none. -/
def evaluateLast (evaluate : Expr → Store → Outcome Value) (last : Value) :
    List Expr → Store → Outcome Value
  | [], σ => .done last σ
  | e :: es, σ => (evaluate e σ).bind fun v σ => evaluateLast evaluate v es σ

/-- Evaluates an expression in a scope, at most `fuel` levels deep. -/
def evaluate : (fuel : Nat) → ScopeId → Expr → Store → Outcome Value
  | 0, _, _, _ => .unfinished
  | fuel + 1, s, e, σ =>
    match e with
    | .number x => .done (.number x) σ
    | .string t => .done (.string t) σ
    | .boolean b => .done (.boolean b) σ
    | .variable x => .ofExcept σ (σ.get s x)
    | .lambda parameters body =>
      let (f, σ) := σ.close s parameters body
      .done f σ
    | .call function arguments =>
      (evaluate fuel s function σ).bind fun callee σ =>
        (evaluateAll (evaluate fuel s) arguments σ).bind fun values σ =>
          match callee with
          | .function f =>
            let (t, σ) := σ.enter f values
            evaluate fuel t f.body σ
          | v => .failed (.invalidCallee v) σ
    | .condition test consequent alternative =>
      (evaluate fuel s test σ).bind fun v σ =>
        if !v.isFalse then
          evaluate fuel s consequent σ
        else
          match alternative with
          | some e => evaluate fuel s e σ
          | none => .done (.boolean false) σ
    | .assignment target value =>
      match target.name? with
      | none => .failed (.invalidAssignment target.sexpr) σ
      | some x =>
        (evaluate fuel s value σ).bind fun v σ =>
          match σ.target? s x with
          | some t => .done v (σ.define t x v)
          | none => .failed (.undefinedVariable x) σ
    | .binary op left right =>
      (evaluate fuel s left σ).bind fun a σ =>
        (evaluate fuel s right σ).bind fun b σ => .ofExcept σ (op.compute a b)
    | .program body => evaluateLast (evaluate fuel s) .undefined body σ

/-- Invokes a function: its body is evaluated in a scope of its own. -/
def invoke (fuel : Nat) (f : Closure) (arguments : List Value) (σ : Store) : Outcome Value :=
  let (t, σ) := σ.enter f arguments
  evaluate fuel t f.body σ

end ExprLang
