import ExprLang.Store.Scope
import ExprLang.Value.Error

/-! # Stores

A `Store` holds all scopes there are, by number; a new scope gets the next one.
A scope lies in an older one, so the walk outwards ends: `chain` lists the
scopes it passes.  A name belongs to the first scope of the chain that binds it,
and reading and assignment go to that one.  A name that no scope of the chain
binds is introduced by an assignment in a root scope only. -/

namespace ExprLang

/-- All scopes, and how many functions have been made. -/
structure Store where
  scopes : Array Scope
  functions : Nat

namespace Store

/-- Nothing yet. -/
def empty : Store := ⟨#[], 0⟩

/-! ### Reading -/

/-- How many scopes there are; they are those below this number. -/
def size (σ : Store) : Nat := σ.scopes.size

/-- The scope around a scope. -/
def parent? (σ : Store) (s : ScopeId) : Option ScopeId := σ.scopes[s]?.bind (·.parent)

/-- There is a scope around this one. -/
def hasParent (σ : Store) (s : ScopeId) : Bool := (σ.parent? s).isSome

/-- The value that a scope itself binds to a name. -/
def binding? (σ : Store) (s : ScopeId) (name : String) : Option Value :=
  σ.scopes[s]?.bind (·.bindings.get? name)

/-- The scope and all those around it, from the inside out.  The scope around another one is
older. -/
def chain (σ : Store) (s : ScopeId) : List ScopeId :=
  s :: match σ.parent? s with
    | some p => if _h : p < s then σ.chain p else []
    | none => []
termination_by s
decreasing_by exact _h

/-- The scope to which a name belongs, seen from `s`. -/
def owner? (σ : Store) (s : ScopeId) (name : String) : Option ScopeId :=
  (σ.chain s).find? fun t => (σ.binding? t name).isSome

/-- The value of a name, seen from `s`. -/
def value? (σ : Store) (s : ScopeId) (name : String) : Option Value :=
  (σ.owner? s name).bind fun t => σ.binding? t name

/-- The value of a name that must have one. -/
def get (σ : Store) (s : ScopeId) (name : String) : Except EvalError Value :=
  match σ.value? s name with
  | some v => .ok v
  | none => .error (.undefinedVariable name)

/-! ### Writing -/

/-- Binds a name in the scope itself. -/
def define (σ : Store) (s : ScopeId) (name : String) (value : Value) : Store :=
  { σ with scopes := σ.scopes.modify s fun scope =>
      { scope with bindings := scope.bindings.put name value } }

/-- The scope in which an assignment from `s` binds a name. -/
def target? (σ : Store) (s : ScopeId) (name : String) : Option ScopeId :=
  match σ.owner? s name with
  | some t => some t
  | none => if σ.hasParent s then none else some s

/-- Assigns a value to a name, seen from `s`. -/
def assign (σ : Store) (s : ScopeId) (name : String) (value : Value) : Except EvalError Store :=
  match σ.target? s name with
  | some t => .ok (σ.define t name value)
  | none => .error (.undefinedVariable name)

/-! ### Growing -/

/-- Adds an empty scope. -/
def addScope (σ : Store) (parent : Option ScopeId) : ScopeId × Store :=
  (σ.scopes.size, { σ with scopes := σ.scopes.push ⟨parent, []⟩ })

/-- Adds an empty scope with none around it. -/
def root (σ : Store) : ScopeId × Store := σ.addScope none

/-- Adds an empty scope inside another one. -/
def nested (σ : Store) (s : ScopeId) : ScopeId × Store := σ.addScope (some s)

/-- Makes a function in a scope. -/
def close (σ : Store) (s : ScopeId) (parameters : List String) (body : Expr) : Value × Store :=
  (.function ⟨σ.functions, parameters, body, s⟩, { σ with functions := σ.functions + 1 })

/-- Binds names one after the other in the scope itself. -/
def defineAll (σ : Store) (s : ScopeId) (bs : Bindings) : Store :=
  bs.foldl (fun σ (x, v) => σ.define s x v) σ

end Store

end ExprLang
