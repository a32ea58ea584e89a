/-! # Operators

Two operands can stand around a binary operator or around the sign of an
assignment.  Their precedences order them: of two operators the one of higher
precedence takes its operands first. -/

namespace ExprLang

/-- An operator that computes a value from two. -/
inductive BinaryOperator where
  | or
  | and
  | greater
  | less
  | lessEqual
  | greaterEqual
  | equal
  | notEqual
  | add
  | subtract
  | multiply
  | divide
  | remainder
deriving DecidableEq

namespace BinaryOperator

/-- All binary operators. -/
def all : List BinaryOperator :=
  [.or, .and, .greater, .less, .lessEqual, .greaterEqual, .equal, .notEqual, .add, .subtract,
    .multiply, .divide, .remainder]

/-- The operator as it stands in a source. -/
def text : BinaryOperator → String
  | .or => "||"
  | .and => "&&"
  | .greater => ">"
  | .less => "<"
  | .lessEqual => "<="
  | .greaterEqual => ">="
  | .equal => "=="
  | .notEqual => "!="
  | .add => "+"
  | .subtract => "-"
  | .multiply => "*"
  | .divide => "/"
  | .remainder => "%"

/-- The operator as a term. -/
def debug : BinaryOperator → String
  | .or => "Or"
  | .and => "And"
  | .greater => "GreaterThan"
  | .less => "LessThan"
  | .lessEqual => "LessThanEqual"
  | .greaterEqual => "GreaterThanEqual"
  | .equal => "EqualEqual"
  | .notEqual => "BangEqual"
  | .add => "Add"
  | .subtract => "Subtract"
  | .multiply => "Multiply"
  | .divide => "Divide"
  | .remainder => "Modulo"

/-- The binary operator with the given text. -/
def ofText? (text : String) : Option BinaryOperator := all.find? (·.text = text)

/-- How tightly the operator binds. -/
def precedence : BinaryOperator → Nat
  | .or => 2
  | .and => 3
  | .greater | .less | .lessEqual | .greaterEqual | .equal | .notEqual => 7
  | .add | .subtract => 10
  | .multiply | .divide | .remainder => 20

end BinaryOperator

/-- Whatever may stand between two operands. -/
inductive Operator where
  | assign
  | binary (operator : BinaryOperator)
deriving DecidableEq

namespace Operator

/-- The operator with the given text. -/
def ofText? (text : String) : Option Operator :=
  if text = "=" then some .assign else (BinaryOperator.ofText? text).map .binary

/-- The operator as a term. -/
def debug : Operator → String
  | .assign => "Assign"
  | .binary op => s!"Binary({op.debug})"

/-- How tightly the operator binds; an assignment binds the least. -/
def precedence : Operator → Nat
  | .assign => 1
  | .binary op => op.precedence

/-- The precedence that an operator to the right must exceed to belong to the right operand.
Assignments chain to the right, so one of them belongs to the right operand of another. -/
def rightBound : Operator → Nat
  | .assign => 0
  | .binary op => op.precedence

end Operator

end ExprLang
