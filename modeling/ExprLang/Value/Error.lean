import ExprLang.Value.Basic

/-! # Evaluation errors

The ways in which an evaluation can fail.  They carry the operands that were in
the way but no location. -/

namespace ExprLang

/-- A cause of a failed evaluation. -/
inductive EvalError where
  | undefinedVariable (name : String)
  | divideByZero
  /-- The expression, given as an S-expression, is no variable. -/
  | invalidAssignment (target : String)
  | nonNumerics (left right : Value)
  | nonAddable (left right : Value)
  | nonComparable (left right : Value)
  | invalidCallee (callee : Value)

namespace EvalError

/-- The code under which the error is documented. -/
def code : EvalError → String
  | .undefinedVariable _ => "RT001"
  | .divideByZero => "RT002"
  | .invalidAssignment _ => "RT003"
  | .nonNumerics _ _ => "RT004"
  | .nonAddable _ _ => "RT005"
  | .nonComparable _ _ => "RT006"
  | .invalidCallee _ => "RT007"

/-- The error in words, the operands written by `write`. -/
def text (write : Value → String) : EvalError → String
  | .undefinedVariable name => s!"Undefined variable '{name}'"
  | .divideByZero => "Divide by zero"
  | .invalidAssignment target => s!"Can't assign to {target}"
  | .nonNumerics a b => s!"Expected two numbers but got {write a} and {write b}"
  | .nonAddable a b => s!"Expected two numbers or two strings but got {write a} and {write b}"
  | .nonComparable a b => s!"Can't compare {write a} with {write b}"
  | .invalidCallee f => s!"{write f} is not a function"

/-- The error in words, with the operands as they are displayed. -/
def message (e : EvalError) : String := e.text Value.display

/-- The error in words, with the kinds of the operands. -/
def verbose (e : EvalError) : String := e.text Value.verbose

/-- The error as a term. -/
def debug : EvalError → String
  | .undefinedVariable name => s!"UndefinedVariable({quoteString name})"
  | .divideByZero => "DivideByZero"
  | .invalidAssignment target => s!"InvalidAssignment({quoteString target})"
  | .nonNumerics a b => s!"NonNumerics({a.debug}, {b.debug})"
  | .nonAddable a b => s!"NonAddable({a.debug}, {b.debug})"
  | .nonComparable a b => s!"NonComparable({a.debug}, {b.debug})"
  | .invalidCallee f => s!"InvalidCallee({f.debug})"

end EvalError

end ExprLang
