import ExprLang.Value.Basic

/-! # Scopes

A `Scope` binds names to values, each name at most once, and may lie in another
scope. -/

namespace ExprLang

/-- Names bound to values, in the order in which they were first bound. -/
abbrev Bindings := List (String × Value)

namespace Bindings

/-- The value bound to a name. -/
def get? (name : String) : Bindings → Option Value
  | [] => none
  | (x, v) :: rest => if x = name then some v else get? name rest

/-- Binds a name, which may be bound already. -/
def put (name : String) (value : Value) : Bindings → Bindings
  | [] => [(name, value)]
  | (x, v) :: rest => if x = name then (x, value) :: rest else (x, v) :: put name value rest

theorem get?_put (name x : String) (value : Value) (bs : Bindings) :
    (bs.put name value).get? x = if name = x then some value else bs.get? x := by
  induction bs with
  | nil => simp only [put, get?]
  | cons b bs ih => grind [put, get?]

end Bindings

/-- Bindings with the scope around them. -/
structure Scope where
  /-- The scope around this one; a root scope has none. -/
  parent : Option ScopeId
  bindings : Bindings

end ExprLang
