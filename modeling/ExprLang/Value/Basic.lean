import ExprLang.Expr.Basic

/-! # Values

A `Value` is what an expression evaluates to.  A function is a `Closure`: its
parameters and body with the scope it was made in, and a number of its own, so
that two functions are the same only if they were made at the same moment.

`Value.display`, `Value.debug` and `Value.verbose` are the three written forms
of values. -/

namespace ExprLang

/-- Names a scope. -/
abbrev ScopeId := Nat

/-- A function that has been made. -/
structure Closure where
  /-- Counts the functions made before it. -/
  id : Nat
  parameters : List String
  body : Expr
  /-- The scope in which the function was made. -/
  scope : ScopeId

/-- What an expression evaluates to. -/
inductive Value where
  | number (x : Number)
  | string (s : String)
  | boolean (b : Bool)
  | function (f : Closure)
  /-- The value of a parameter without argument, and of an empty program. -/
  | undefined

instance : Inhabited Value := ⟨.undefined⟩

namespace Value

/-- The value for a reader; a string is written as it is. -/
def display : Value → String
  | .number x => x.display
  | .string s => s
  | .boolean b => toString b
  | .function f => "<lambda(" ++ ", ".intercalate f.parameters ++ ")>"
  | .undefined => "undefined"

/-- The value as a term. -/
def debug : Value → String
  | .number x => s!"Number({x.debug})"
  | .string s => s!"String({quoteString s})"
  | .boolean b => s!"Boolean({b})"
  | .function f =>
    "Function(Closure \x7b parameters: [" ++ ", ".intercalate (f.parameters.map quoteString) ++
      "], .. \x7d)"
  | .undefined => "Undefined"

/-- The value with its kind, as it is shown in reports. -/
def verbose : Value → String
  | .number x => s!"Number({x.display})"
  | .string s => s!"String({quoteString s})"
  | .boolean b => s!"Boolean({b})"
  | .function f => "Function(" ++ ", ".intercalate f.parameters ++ ")"
  | .undefined => "Undefined"

end Value

end ExprLang
