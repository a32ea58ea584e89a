import ExprLang.Proofs.Invocations

/-! # Calls

What a call does is described in two steps, and the evaluation does just that
(`Store.call_binds_by_position`).

First the function and the arguments are evaluated one behind the other, in the scope of the call
(`InTurn`).  The first of them that has no value decides the outcome, and nothing behind it begins;
only if all have one, there is a function to be invoked or another value to be rejected (`Called`).

Then the invocation makes one scope for the body of the function and changes nothing else
(`Store.MadeFor`).  Parameters are bound in order in it, so that of several with one name the last
counts (`LastAt`). -/

namespace ExprLang

/-! ### The scope of an invocation -/

/-- The place is the last one where the name stands among the parameters. -/
def LastAt (parameters : List String) (x : String) (j : ℕ) : Prop :=
  parameters[j]? = some x ∧ ∀ k, j < k → parameters[k]? ≠ some x

theorem exists_last {x : String} {parameters : List String} (h : x ∈ parameters) :
    ∃ before after, parameters = before ++ x :: after ∧ x ∉ after := by
  obtain ⟨after, before, hreverse, hnot⟩ := List.eq_append_cons_of_mem (List.mem_reverse.mpr h)
  refine ⟨before.reverse, after.reverse, ?_, mt List.mem_reverse.mp hnot⟩
  rw [← List.reverse_reverse parameters, hreverse]
  simp

theorem lastAt_append {x : String} {before after : List String} (h : x ∉ after) :
    LastAt (before ++ x :: after) x before.length := by
  constructor
  · simp
  · intro k hk hget
    obtain ⟨i, rfl⟩ := Nat.exists_eq_add_of_lt hk
    have hi : before.length + i + 1 - before.length = i + 1 := by omega
    rw [List.getElem?_append_right (by omega), hi, List.getElem?_cons_succ] at hget
    exact h (List.mem_of_getElem? hget)

/-- Arguments without parameter are not looked at. -/
theorem bindArguments_take (parameters : List String) (arguments : List Value) :
    bindArguments parameters (arguments.take parameters.length) =
      bindArguments parameters arguments := by
  induction parameters generalizing arguments with
  | nil => rfl
  | cons p ps ih =>
      cases arguments with
      | nil => rfl
      | cons v vs => exact congrArg ((p, v) :: ·) (ih vs)

namespace Store

variable {σ τ : Store} {s u : ScopeId} {x : String}

/-- The scope is made for the body of a function, and nothing else has changed. -/
structure MadeFor (σ τ : Store) (t : ScopeId) (f : Closure) (arguments : List Value) : Prop where
  /-- The scope did not exist before, and no other one is new. -/
  new : t = σ.size ∧ τ.size = σ.size + 1
  parent? : τ.parent? t = some f.scope
  /-- A parameter is bound to the argument in the last of its places, and undefined if there are not
  so many arguments. -/
  bound {x : String} : x ∈ f.parameters →
    ∃ j, LastAt f.parameters x j ∧ τ.binding? t x = some (arguments.getD j .undefined)
  unbound {x : String} : x ∉ f.parameters → τ.binding? t x = none
  others {u : ScopeId} : u ≠ t → τ.scopes[u]? = σ.scopes[u]?
  functions : τ.functions = σ.functions

theorem scopes_define_of_ne {v : Value} (h : u ≠ s) :
    (σ.define s x v).scopes[u]? = σ.scopes[u]? := by
  rw [define, Array.getElem?_modify, if_neg h.symm]

theorem scopes_defineAll_of_ne {bs : Bindings} (h : u ≠ s) :
    (σ.defineAll s bs).scopes[u]? = σ.scopes[u]? := by
  induction bs generalizing σ with
  | nil => rfl
  | cons b bs ih => exact ih.trans (scopes_define_of_ne h)

theorem madeFor_enter (σ : Store) (f : Closure) (arguments : List Value) :
    MadeFor σ (σ.enter f arguments).2 (σ.enter f arguments).1 f arguments where
  new := ⟨rfl, size_enter ..⟩
  parent? := by rw [parent?_enter, fst_enter, if_pos rfl]
  bound hx := by
    obtain ⟨before, after, hsplit, hlast⟩ := exists_last hx
    rw [hsplit, snd_enter, hsplit]
    exact ⟨_, lastAt_append hlast, binding?_bindArguments_getD hlast (lt_size_addScope _)⟩
  unbound hx := by
    rw [← map_fst_bindArguments f.parameters arguments] at hx
    rw [snd_enter, binding?_defineAll_of_notMem hx, binding?_addScope]
    exact binding?_eq_none le_rfl
  others hu := by
    rw [fst_enter] at hu
    rw [snd_enter, scopes_defineAll_of_ne hu]
    exact (Array.getElem?_push ..).trans (if_neg hu)
  functions := functions_enter ..

theorem invoke_take (fuel : ℕ) (f : Closure) (arguments : List Value) (σ : Store) :
    invoke fuel f (arguments.take f.parameters.length) σ = invoke fuel f arguments σ := by
  have henter : σ.enter f (arguments.take f.parameters.length) = σ.enter f arguments := by
    rw [enter, bindArguments_take, enter]
  rw [invoke, henter, invoke]

end Store

/-! ### Evaluation in turn -/

/-- The expressions are evaluated one behind the other in the scope, each in the store that the one
before it has left, and all of them have values. -/
inductive InTurn (fuel : ℕ) (s : ScopeId) :
    Store → List Expr → List Value → Store → List Event → Prop
  | none {σ} : InTurn fuel s σ [] [] σ []
  | next {σ τ υ e es v vs events} :
      evaluate fuel s e σ = .done v τ → InTurn fuel s τ es vs υ events →
      InTurn fuel s σ (e :: es) (v :: vs) υ (log fuel s e σ ++ events)

/-- The computation gives no value. -/
def Outcome.IsStopped {α : Type} (o : Outcome α) : Prop := ∀ v τ, o ≠ .done v τ

/-- What comes of a call, and what begins in its course. -/
inductive Called (fuel : ℕ) (s : ScopeId) (function : Expr) (arguments : List Expr) (σ : Store) :
    Outcome Value → List Event → Prop
  /-- The function or an argument has no value, and neither has the call. -/
  | stopped {before e after vs τ events} :
      function :: arguments = before ++ e :: after → InTurn fuel s σ before vs τ events →
      (evaluate fuel s e τ).IsStopped →
      Called fuel s function arguments σ (evaluate fuel s e τ) (events ++ log fuel s e τ)
  /-- All have values, but there is nothing to invoke. -/
  | rejected {v vs τ events} :
      InTurn fuel s σ (function :: arguments) (v :: vs) τ events → (∀ f, v ≠ .function f) →
      Called fuel s function arguments σ (.failed (.invalidCallee v) τ) events
  | invoked {f vs τ events} :
      InTurn fuel s σ (function :: arguments) (.function f :: vs) τ events →
      Called fuel s function arguments σ (invoke fuel f vs τ) (events ++ logInvoke fuel f vs τ)

namespace Outcome

variable {α β γ : Type}

theorem bind_done_bind (o : Outcome α) (g : α → β) (next : β → Store → Outcome γ) :
    (o.bind fun a σ => .done (g a) σ).bind next = o.bind fun a σ => next (g a) σ := by
  cases o <;> rfl

theorem events_bind_done (o : Outcome α) (g : α → β) (more : β → Store → List Event) :
    (o.bind fun a σ => .done (g a) σ).events more = o.events fun a σ => more (g a) σ := by
  cases o <;> rfl

theorem IsStopped.bind {o : Outcome α} (h : o.IsStopped) (next : α → Store → Outcome α) :
    o.bind next = o := by
  cases o with
  | done a σ => exact absurd rfl (h a σ)
  | failed err σ => rfl
  | unfinished => rfl

theorem IsStopped.events {o : Outcome α} (h : o.IsStopped) (more : α → Store → List Event) :
    o.events more = [] := by
  cases o with
  | done a σ => exact absurd rfl (h a σ)
  | failed err σ => rfl
  | unfinished => rfl

end Outcome

section sequences

variable {evaluate : Expr → Store → Outcome Value}

theorem evaluateAll_cons_bind (e : Expr) (es : List Expr) (σ : Store)
    (next : List Value → Store → Outcome Value) :
    (evaluateAll evaluate (e :: es) σ).bind next =
      (evaluate e σ).bind fun v τ =>
        (evaluateAll evaluate es τ).bind fun vs υ => next (v :: vs) υ := by
  rw [evaluateAll]
  cases evaluate e σ with
  | done v τ => exact Outcome.bind_done_bind ..
  | failed err τ => rfl
  | unfinished => rfl

theorem evaluateAll_cons_events (e : Expr) (es : List Expr) (σ : Store)
    (more : List Value → Store → List Event) :
    (evaluateAll evaluate (e :: es) σ).events more =
      (evaluate e σ).events fun v τ =>
        (evaluateAll evaluate es τ).events fun vs υ => more (v :: vs) υ := by
  rw [evaluateAll]
  cases evaluate e σ with
  | done v τ => exact Outcome.events_bind_done ..
  | failed err τ => rfl
  | unfinished => rfl

end sequences

section turns

variable {fuel : ℕ} {s : ScopeId} {σ τ : Store} {es : List Expr} {vs : List Value}
  {events : List Event}

/-- Either all expressions have values in turn, or there is a first one that has none. -/
theorem inTurn_cases (fuel : ℕ) (s : ScopeId) (es : List Expr) (σ : Store) :
    (∃ vs τ events, InTurn fuel s σ es vs τ events) ∨
      ∃ before e after vs τ events, es = before ++ e :: after ∧
        InTurn fuel s σ before vs τ events ∧ (evaluate fuel s e τ).IsStopped := by
  induction es generalizing σ with
  | nil => exact .inl ⟨[], σ, [], .none⟩
  | cons e es ih =>
      by_cases hstop : (evaluate fuel s e σ).IsStopped
      · exact .inr ⟨[], e, es, [], σ, [], rfl, .none, hstop⟩
      · obtain ⟨v, τ, he⟩ : ∃ v τ, evaluate fuel s e σ = .done v τ := by
          simpa [Outcome.IsStopped] using hstop
        rcases ih τ with
          ⟨vs, υ, events, hturn⟩ | ⟨before, e', after, vs, υ, events, rfl, hturn, hstop'⟩
        · exact .inl ⟨v :: vs, υ, _, .next he hturn⟩
        · exact .inr ⟨e :: before, e', after, v :: vs, υ, _, rfl, .next he hturn, hstop'⟩

theorem InTurn.values (h : InTurn fuel s σ es vs τ events) :
    evaluateAll (evaluate fuel s) es σ = .done vs τ ∧
      logAll (evaluate fuel s) (log fuel s) es σ = events := by
  induction h with
  | none => exact ⟨rfl, rfl⟩
  | next he _ ih =>
      obtain ⟨hvalues, hevents⟩ := ih
      rw [evaluateAll, logAll, he]
      exact ⟨by rw [Outcome.bind, hvalues]; rfl, by rw [Outcome.events, hevents]⟩

/-- What is evaluated in turn up to an expression without value comes to what that one comes to,
whatever would be done with the values. -/
theorem InTurn.values_stopped {before after : List Expr} {e : Expr}
    (h : InTurn fuel s σ before vs τ events) (hstop : (evaluate fuel s e τ).IsStopped)
    (next : List Value → Store → Outcome Value) (more : List Value → Store → List Event) :
    (evaluateAll (evaluate fuel s) (before ++ e :: after) σ).bind next = evaluate fuel s e τ ∧
      logAll (evaluate fuel s) (log fuel s) (before ++ e :: after) σ ++
        (evaluateAll (evaluate fuel s) (before ++ e :: after) σ).events more =
          events ++ log fuel s e τ := by
  induction h generalizing next more with
  | none =>
      rw [List.nil_append, evaluateAll_cons_bind, evaluateAll_cons_events, logAll, hstop.bind,
        hstop.events, hstop.events]
      exact ⟨rfl, by simp⟩
  | @next _ _ _ _ _ v _ _ he _ ih =>
      obtain ⟨hvalues, hevents⟩ :=
        ih hstop (fun vs υ => next (v :: vs) υ) fun vs υ => more (v :: vs) υ
      rw [List.cons_append, evaluateAll_cons_bind, evaluateAll_cons_events, logAll, he]
      exact ⟨hvalues, by rw [Outcome.events, Outcome.events, List.append_assoc, hevents,
        List.append_assoc]⟩

end turns

/-! ### Calls -/

section calls

variable {fuel : ℕ} {s : ScopeId} {function : Expr} {arguments : List Expr} {σ : Store}
  {o : Outcome Value} {events : List Event}

theorem Called.eq (h : Called fuel s function arguments σ o events) :
    evaluate (fuel + 1) s (.call function arguments) σ = o ∧
      log (fuel + 1) s (.call function arguments) σ =
        .begun s (.call function arguments) σ :: events := by
  cases h with
  | stopped heq hturn hstop =>
      cases hturn with
      | none =>
          cases heq
          rw [evaluate, log, hstop.bind, hstop.events, List.append_nil]
          exact ⟨rfl, rfl⟩
      | next he hrest =>
          cases heq
          rw [evaluate, log, he]
          obtain ⟨hvalue, hevents⟩ := hrest.values_stopped hstop _ _
          exact ⟨hvalue, by rw [List.append_assoc, ← hevents]; rfl⟩
  | @rejected v _ _ _ hturn hnot =>
      cases hturn with
      | next he hrest =>
          obtain ⟨hvalues, hevents⟩ := hrest.values
          rw [evaluate, log, he, Outcome.bind, Outcome.events, hvalues, hevents]
          cases v with
          | function f => exact absurd rfl (hnot f)
          | _ => exact ⟨rfl, by rw [Outcome.events, List.append_nil]⟩
  | invoked hturn =>
      cases hturn with
      | next he hrest =>
          obtain ⟨hvalues, hevents⟩ := hrest.values
          rw [evaluate, log, he, Outcome.bind, Outcome.events, hvalues, hevents]
          exact ⟨rfl, by rw [List.append_assoc]; rfl⟩

/-- Every call comes to something. -/
theorem exists_called (fuel : ℕ) (s : ScopeId) (function : Expr) (arguments : List Expr)
    (σ : Store) : ∃ o events, Called fuel s function arguments σ o events := by
  rcases inTurn_cases fuel s (function :: arguments) σ with
    ⟨values, τ, events, hturn⟩ | ⟨before, e, after, vs, τ, events, heq, hturn, hstop⟩
  · cases hturn with
    | @next _ _ _ _ _ v vs _ he hrest =>
        have hturn := InTurn.next he hrest
        cases v with
        | function f => exact ⟨_, _, .invoked hturn⟩
        | _ => exact ⟨_, _, .rejected hturn fun _ => Value.noConfusion⟩
  · exact ⟨_, _, .stopped heq hturn hstop⟩

theorem called_iff :
    Called fuel s function arguments σ o events ↔
      evaluate (fuel + 1) s (.call function arguments) σ = o ∧
        log (fuel + 1) s (.call function arguments) σ =
          .begun s (.call function arguments) σ :: events := by
  constructor
  · exact Called.eq
  · rintro ⟨rfl, hevents⟩
    obtain ⟨o', events', hcalled⟩ := exists_called fuel s function arguments σ
    obtain ⟨ho, hlog⟩ := hcalled.eq
    rw [hlog] at hevents
    cases hevents
    rwa [ho]

end calls

/-- **Calls bind by position.**  Every invocation evaluates the body in a scope made for it, where
each parameter is bound to the argument in the last of its places; more arguments than parameters
make no difference.  A call evaluates the function and then all arguments in its own scope, one
behind the other.  The first of them without value decides what comes of the call; if all have one,
the function is invoked, or what is no function rejected. -/
theorem Store.call_binds_by_position :
    (∀ (σ : Store) (f : Closure) (arguments : List Value),
      (∃ t τ, σ.MadeFor τ t f arguments ∧
        ∀ fuel, invoke fuel f arguments σ = evaluate fuel t f.body τ ∧
          logInvoke fuel f arguments σ = .entered t f τ :: log fuel t f.body τ) ∧
      ∀ fuel, invoke fuel f (arguments.take f.parameters.length) σ = invoke fuel f arguments σ) ∧
    ∀ fuel s function arguments σ o events,
      Called fuel s function arguments σ o events ↔
        evaluate (fuel + 1) s (.call function arguments) σ = o ∧
          log (fuel + 1) s (.call function arguments) σ =
            .begun s (.call function arguments) σ :: events := by
  constructor
  · intro σ f arguments
    constructor
    · exact ⟨_, _, madeFor_enter σ f arguments, fun fuel => ⟨rfl, rfl⟩⟩
    · intro fuel
      exact invoke_take fuel f arguments σ
  · intro fuel s function arguments σ o events
    exact called_iff

/-- A parameter that occurs twice; and an argument without parameter that has no value, so that only
the function and the arguments are evaluated. -/
theorem Store.call_binds_by_position_twice :
    let σ := empty.root.2
    let function : Expr := .lambda ["x", "x", "z"] (.variable "x")
    let surplus : List Expr := [.boolean true, .boolean true, .boolean true,
      .assignment (.boolean true) (.boolean false)]
    (∃ τ events, Called 2 0 function [.boolean false, .boolean true] σ
      (.done (.boolean true) τ) events) ∧
    ∃ τ events, Called 2 0 function surplus σ
      (.failed (.invalidAssignment (Expr.boolean true).sexpr) τ) events ∧
        events.length = 5 := by
  have hcall := call_binds_by_position.2
  constructor
  · have hlast : (evaluate 3 0 (.call (.lambda ["x", "x", "z"] (.variable "x"))
        [.boolean false, .boolean true]) empty.root.2) = .done (.boolean true) _ :=
      congrArg (Outcome.ofExcept _) (get_of_binding? rfl)
    exact ⟨_, _, (hcall ..).mpr ⟨hlast, rfl⟩⟩
  · exact ⟨_, _, (hcall ..).mpr ⟨rfl, rfl⟩, rfl⟩

end ExprLang
