import ExprLang.Proofs.Growth

/-! # Resolved expressions

A `Resolved` tree is an expression in which every variable carries its `Place`: how many steps
outwards the scope lies that binds it, if a lambda around it does, and otherwise how many lambdas
are around it.  `Expr.resolve` finds the places from the text alone.

`Resolved.evaluate` evaluates such a tree.  It goes to the place of a variable where `evaluate`
walks along the chain of scopes.  Functions are those of `Store`, so it keeps a `Record` of the
trees of their bodies.  There it also notes the function for which each scope was made, and the
moments in which variables are read or assigned.

Code from elsewhere, such as the bodies of functions that exist already, is not resolved.  In it
names are looked up as ever, but functions of the resolved tree may be invoked. -/

namespace ExprLang

/-! ### Places -/

/-- A lambda, as it is written. -/
structure Lambda where
  parameters : List String
  body : Expr

/-- The lambda of which a function was made. -/
def Closure.source (f : Closure) : Lambda := ⟨f.parameters, f.body⟩

/-- An occurrence of a variable, with the lambdas around it from the inside out. -/
structure Occurrence where
  name : String
  enclosing : List Lambda

/-- Where a variable is bound. -/
inductive Place where
  /-- In the scope that many steps outwards. -/
  | bound (depth : ℕ)
  /-- By none of the lambdas around it, which are that many. -/
  | free (depth : ℕ)

/-- The place that the innermost lambda gives which has the name as a parameter. -/
def Occurrence.place (o : Occurrence) : Place :=
  match o.enclosing.findIdx? fun l => o.name ∈ l.parameters with
  | some i => .bound i
  | none => .free o.enclosing.length

/-- A variable in a tree. -/
inductive Site where
  | resolved (place : Place) (occurrence : Occurrence)
  /-- In code from elsewhere. -/
  | unresolved (name : String)

/-- The name of the variable. -/
def Site.name : Site → String
  | .resolved _ o => o.name
  | .unresolved x => x

/-- The variable below the lambdas, or in code from elsewhere. -/
def Site.of (enclosing : Option (List Lambda)) (x : String) : Site :=
  match enclosing with
  | some ls => .resolved (Occurrence.place ⟨x, ls⟩) ⟨x, ls⟩
  | none => .unresolved x

@[simp] theorem Site.name_of (enclosing : Option (List Lambda)) (x : String) :
    (Site.of enclosing x).name = x := by
  cases enclosing <;> rfl

/-! ### Trees -/

/-- An expression with the places of its variables. -/
inductive Resolved where
  | number (value : Number)
  | string (value : String)
  | boolean (value : Bool)
  | variable (site : Site)
  | lambda (source : Lambda) (body : Resolved)
  | call (function : Resolved) (arguments : List Resolved)
  | condition (test : Resolved) (consequent : Resolved) (alternative : Option Resolved)
  | assignment (site : Site) (value : Resolved)
  /-- An assignment to something that is no variable. -/
  | invalid (target : String)
  | binary (operator : BinaryOperator) (left right : Resolved)
  | program (body : List Resolved)

namespace Expr

mutual

/-- The tree of an expression below the given lambdas, or of code from elsewhere. -/
def resolve (enclosing : Option (List Lambda)) : Expr → Resolved
  | .number x => .number x
  | .string s => .string s
  | .boolean b => .boolean b
  | .variable x => .variable (.of enclosing x)
  | .lambda parameters body =>
    .lambda ⟨parameters, body⟩ (body.resolve (enclosing.map (⟨parameters, body⟩ :: ·)))
  | .call function arguments =>
    .call (function.resolve enclosing) (resolveAll enclosing arguments)
  | .condition test consequent none =>
    .condition (test.resolve enclosing) (consequent.resolve enclosing) none
  | .condition test consequent (some alternative) =>
    .condition (test.resolve enclosing) (consequent.resolve enclosing)
      (some (alternative.resolve enclosing))
  | .assignment target value =>
    match target.name? with
    | none => .invalid target.sexpr
    | some x => .assignment (.of enclosing x) (value.resolve enclosing)
  | .binary op left right => .binary op (left.resolve enclosing) (right.resolve enclosing)
  | .program body => .program (resolveAll enclosing body)

/-- The trees of expressions. -/
def resolveAll (enclosing : Option (List Lambda)) : List Expr → List Resolved
  | [] => []
  | e :: es => e.resolve enclosing :: resolveAll enclosing es

end

end Expr

namespace Store

/-! ### Going to a place -/

/-- The scope that many steps outwards. -/
def outward (σ : Store) : ℕ → ScopeId → Option ScopeId
  | 0, t => some t
  | n + 1, t => (σ.parent? t).bind (σ.outward n)

/-- The scope to which a variable belongs that is read in the scope `t`. -/
def ownerAt (σ : Store) (t : ScopeId) : Site → Option ScopeId
  | .resolved (.bound i) _ => σ.outward i t
  | .resolved (.free n) o => (σ.outward n t).bind fun s => σ.owner? s o.name
  | .unresolved x => σ.owner? t x

/-- The scope in which an assignment in the scope `t` binds a variable.  Below lambdas nothing is
introduced. -/
def targetAt (σ : Store) (t : ScopeId) : Site → Option ScopeId
  | .resolved (.bound i) _ => σ.outward i t
  | .resolved (.free 0) o => σ.target? t o.name
  | .resolved (.free (n + 1)) o => (σ.outward (n + 1) t).bind fun s => σ.owner? s o.name
  | .unresolved x => σ.target? t x

end Store

/-! ### Records -/

/-- A variable of the resolved tree is read or assigned. -/
structure Moment where
  /-- The scope in which the code runs. -/
  scope : ScopeId
  occurrence : Occurrence
  store : Store

/-- What is known about an evaluation so far. -/
structure Record where
  /-- The functions that were made, by number, with the trees of their bodies. -/
  code : ℕ → Option (Closure × Resolved)
  /-- The functions for whose bodies scopes were made. -/
  frame : ScopeId → Option Closure
  /-- The latest moment comes first. -/
  moments : List Moment

namespace Record

/-- Nothing has happened yet. -/
def empty : Record := ⟨fun _ => none, fun _ => none, []⟩

/-- A variable is read or assigned. -/
def access (k : Record) (t : ScopeId) (site : Site) (σ : Store) : Record :=
  match site with
  | .resolved _ o => { k with moments := ⟨t, o, σ⟩ :: k.moments }
  | .unresolved _ => k

/-- A function is made. -/
def make (k : Record) (f : Closure) (body : Resolved) : Record :=
  { k with code := fun i => if i = f.id then some (f, body) else k.code i }

/-- A scope is made for the body of a function. -/
def enter (k : Record) (t : ScopeId) (f : Closure) : Record :=
  { k with frame := fun u => if u = t then some f else k.frame u }

/-- The tree of the body of a function. -/
def body (k : Record) (f : Closure) : Resolved :=
  match k.code f.id with
  | some (_, r) => r
  | none => f.body.resolve none

end Record

/-! ### Evaluation -/

/-- What comes of an evaluation, with the record of it. -/
inductive Run (α : Type) where
  | done (value : α) (record : Record) (store : Store)
  | failed (error : EvalError) (record : Record) (store : Store)
  | unfinished (record : Record)

namespace Run

variable {α β : Type}

/-- Goes on with the value, if there is one. -/
def bind : Run α → (α → Record → Store → Run β) → Run β
  | .done a k σ, next => next a k σ
  | .failed e k σ, _ => .failed e k σ
  | .unfinished k, _ => .unfinished k

/-- The run of a computation that leaves everything alone. -/
def ofExcept (k : Record) (σ : Store) : Except EvalError α → Run α
  | .ok a => .done a k σ
  | .error e => .failed e k σ

/-- What comes of it without the record. -/
def outcome : Run α → Outcome α
  | .done a _ σ => .done a σ
  | .failed e _ σ => .failed e σ
  | .unfinished _ => .unfinished

/-- The record at the end, or where the evaluation was given up. -/
def record : Run α → Record
  | .done _ k _ => k
  | .failed _ k _ => k
  | .unfinished k => k

/-- The record and the store at the end, if there is one. -/
def final? : Run α → Option (Record × Store)
  | .done _ k σ => some (k, σ)
  | .failed _ k σ => some (k, σ)
  | .unfinished _ => none

end Run

namespace Resolved

/-- Evaluates trees in order and collects their values. -/
def evaluateAll (evaluate : Resolved → Record → Store → Run Value) :
    List Resolved → Record → Store → Run (List Value)
  | [], k, σ => .done [] k σ
  | r :: rs, k, σ =>
    (evaluate r k σ).bind fun v k σ =>
      (evaluateAll evaluate rs k σ).bind fun vs k σ => .done (v :: vs) k σ

/-- Evaluates trees in order and keeps the last value. -/
def evaluateLast (evaluate : Resolved → Record → Store → Run Value) (last : Value) :
    List Resolved → Record → Store → Run Value
  | [], k, σ => .done last k σ
  | r :: rs, k, σ => (evaluate r k σ).bind fun v k σ => evaluateLast evaluate v rs k σ

/-- Evaluates a tree in a scope, at most `fuel` levels deep. -/
def evaluate : (fuel : ℕ) → ScopeId → Resolved → Record → Store → Run Value
  | 0, _, _, k, _ => .unfinished k
  | fuel + 1, t, r, k, σ =>
    match r with
    | .number x => .done (.number x) k σ
    | .string s => .done (.string s) k σ
    | .boolean b => .done (.boolean b) k σ
    | .variable site =>
      let k := k.access t site σ
      match (σ.ownerAt t site).bind fun u => σ.binding? u site.name with
      | some v => .done v k σ
      | none => .failed (.undefinedVariable site.name) k σ
    | .lambda source body =>
      let f : Closure := ⟨σ.functions, source.parameters, source.body, t⟩
      .done (.function f) (k.make f body) (σ.close t source.parameters source.body).2
    | .call function arguments =>
      (evaluate fuel t function k σ).bind fun callee k σ =>
        (evaluateAll (evaluate fuel t) arguments k σ).bind fun values k σ =>
          match callee with
          | .function f =>
            let (u, σ) := σ.enter f values
            evaluate fuel u (k.body f) (k.enter u f) σ
          | v => .failed (.invalidCallee v) k σ
    | .condition test consequent alternative =>
      (evaluate fuel t test k σ).bind fun v k σ =>
        if !v.isFalse then
          evaluate fuel t consequent k σ
        else
          match alternative with
          | some r => evaluate fuel t r k σ
          | none => .done (.boolean false) k σ
    | .assignment site value =>
      (evaluate fuel t value k σ).bind fun v k σ =>
        let k := k.access t site σ
        match σ.targetAt t site with
        | some u => .done v k (σ.define u site.name v)
        | none => .failed (.undefinedVariable site.name) k σ
    | .invalid target => .failed (.invalidAssignment target) k σ
    | .binary op left right =>
      (evaluate fuel t left k σ).bind fun a k σ =>
        (evaluate fuel t right k σ).bind fun b k σ => .ofExcept k σ (op.compute a b)
    | .program body => evaluateLast (evaluate fuel t) .undefined body k σ

/-- A variable has the value that is bound at its place. -/
theorem evaluate_variable (fuel : ℕ) {t u : ScopeId} {site : Site} {k : Record} {σ : Store}
    {v : Value} (hu : σ.ownerAt t site = some u) (hv : σ.binding? u site.name = some v) :
    evaluate (fuel + 1) t (.variable site) k σ = .done v (k.access t site σ) σ := by
  rw [evaluate, hu, Option.bind_some, hv]

/-- Invokes a function, the body of which may have been resolved. -/
def invoke (fuel : ℕ) (f : Closure) (arguments : List Value) (k : Record) (σ : Store) :
    Run Value :=
  let (t, σ) := σ.enter f arguments
  evaluate fuel t (k.body f) (k.enter t f) σ

end Resolved

end ExprLang
