import ExprLang.Expr.Operator
import ExprLang.Number.Text
import ExprLang.Text.Quoted

/-! # Expressions

An `Expr` is the tree of an expression.  A whole program is one too: the
sequence of its expressions.  `Expr.sexpr` writes a tree on one line, with an
operator in front of its operands and brackets around both. -/

namespace ExprLang

/-- The tree of an expression. -/
inductive Expr where
  | number (value : Number)
  | string (value : String)
  | boolean (value : Bool)
  | variable (name : String)
  /-- A function of the parameters. -/
  | lambda (parameters : List String) (body : Expr)
  | call (function : Expr) (arguments : List Expr)
  | condition (test : Expr) (consequent : Expr) (alternative : Option Expr)
  | assignment (target : Expr) (value : Expr)
  | binary (operator : BinaryOperator) (left right : Expr)
  /-- Expressions one after another; the last one gives the value. -/
  | program (body : List Expr)

instance : Inhabited Expr := ⟨.boolean false⟩

/-- The tree of two operands with an operator between them. -/
def Operator.apply : Operator → Expr → Expr → Expr
  | .assign, left, right => .assignment left right
  | .binary op, left, right => .binary op left right

namespace Expr

/-- The name that an assignment to the expression would bind. -/
def name? : Expr → Option String
  | .variable name => some name
  | _ => none

theorem eq_variable_of_name? {e : Expr} {x : String} (h : e.name? = some x) : e = .variable x := by
  cases e <;> cases h
  rfl

mutual

/-- The tree as an S-expression. -/
def sexpr : Expr → String
  | .number x => x.display
  | .string s => quoteString s
  | .boolean b => toString b
  | .variable name => name
  | .lambda parameters body =>
    "(lambda (" ++ " ".intercalate parameters ++ ") " ++ body.sexpr ++ ")"
  | .call function arguments => "(call " ++ function.sexpr ++ sexprs arguments ++ ")"
  | .condition test consequent none => "(if " ++ test.sexpr ++ " " ++ consequent.sexpr ++ ")"
  | .condition test consequent (some alternative) =>
    "(if " ++ test.sexpr ++ " " ++ consequent.sexpr ++ " " ++ alternative.sexpr ++ ")"
  | .assignment target value => "(= " ++ target.sexpr ++ " " ++ value.sexpr ++ ")"
  | .binary op left right => "(" ++ op.text ++ " " ++ left.sexpr ++ " " ++ right.sexpr ++ ")"
  | .program body => "(program" ++ sexprs body ++ ")"

/-- The trees as S-expressions with a blank before each. -/
def sexprs : List Expr → String
  | [] => ""
  | e :: es => " " ++ e.sexpr ++ sexprs es

end

end Expr

end ExprLang
