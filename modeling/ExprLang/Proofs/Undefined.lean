import ExprLang.Proofs.Invariant
import ExprLang.Proofs.RoundTrip

/-! # Where undefined comes from

Nothing is undefined but a parameter without argument.  As long as nothing in the store is undefined
and no sequence in the code is empty, an evaluation has to invoke some function with fewer arguments
than it has parameters before anything can be undefined (`Store.undefined_of_missing_argument`): a
condition without second branch is `false`, an empty block is `false`, and an operator hands on one
of its operands or makes something new.

`Invoked` tells from the log of an evaluation which functions it invoked with which arguments.  The
proof goes the other way round: if none of them misses an argument, then everything stays definite
(`Store.Definite.evaluate`).  That is no `Invariant.Kept`, since whether one more invocation keeps a
store definite depends on its arguments. -/

namespace ExprLang

/-! ### Code without empty sequences -/

namespace Expr

mutual

/-- No sequence in the expression is empty, in the bodies of its lambdas neither. -/
def filled : Expr → Bool
  | .number _ | .string _ | .boolean _ | .variable _ => true
  | .lambda _ body => body.filled
  | .call function arguments => function.filled && allFilled arguments
  | .condition test consequent none => test.filled && consequent.filled
  | .condition test consequent (some alternative) =>
    test.filled && consequent.filled && alternative.filled
  | .assignment target value => target.filled && value.filled
  | .binary _ left right => left.filled && right.filled
  | .program [] => false
  | .program (e :: es) => e.filled && allFilled es

/-- No sequence in any of the expressions is empty. -/
def allFilled : List Expr → Bool
  | [] => true
  | e :: es => e.filled && allFilled es

end

theorem allFilled_iff {es : List Expr} : allFilled es ↔ ∀ e ∈ es, e.filled := by
  induction es with
  | nil => exact iff_of_true rfl (List.forall_mem_nil _)
  | cons e es ih => rw [allFilled, Bool.and_eq_true, ih, List.forall_mem_cons]

theorem filled_program {es : List Expr} :
    (Expr.program es).filled ↔ es ≠ [] ∧ ∀ e ∈ es, e.filled := by
  cases es with
  | nil => simp [filled]
  | cons e es =>
      rw [filled, Bool.and_eq_true, allFilled_iff, List.forall_mem_cons]
      simp

/-- The parts of an expression that are evaluated in the same scope. -/
theorem filled_of_inner {e a : Expr} (h : e.filled) (ha : e.Inner a) : a.filled := by
  cases ha with
  | argument hmem =>
      rw [filled, Bool.and_eq_true, allFilled_iff] at h
      exact h.2 a hmem
  | item hmem => exact (filled_program.mp h).2 a hmem
  | @test _ _ alternative | @consequent _ _ alternative =>
      cases alternative <;> simp_all [filled]
  | _ => simp_all [filled]

/-- The block of expressions without empty sequences has none either, even if there are none. -/
theorem filled_blockOf {es : List Expr} (h : ∀ e ∈ es, e.filled) :
    (Grammar.blockOf es).filled := by
  match es with
  | [] => rfl
  | [e] => exact h e List.mem_cons_self
  | e :: e' :: es => exact filled_program.mpr ⟨List.cons_ne_nil _ _, h⟩

/-- There is no empty sequence inside a tree that has a source. -/
theorem Legal.filled {literal : Number → Prop} {e : Expr} (h : e.Legal literal) : e.filled := by
  induction h with
  | number | string | boolean | name => rfl
  | lambda _ _ ih => exact ih
  | call _ _ ihf ihes =>
      rw [Expr.filled, Bool.and_eq_true, allFilled_iff]
      exact ⟨ihf, ihes⟩
  | @condition _ _ alternative _ _ _ iht ihc iha =>
      cases alternative with
      | none => rw [Expr.filled, iht, ihc, Bool.and_self]
      | some e => rw [Expr.filled, iht, ihc, iha e rfl, Bool.and_self, Bool.and_self]
  | assignment _ _ iht ihv => rw [Expr.filled, iht, ihv, Bool.and_self]
  | binary _ _ ihl ihr => rw [Expr.filled, ihl, ihr, Bool.and_self]
  | program hlength _ ih =>
      refine filled_program.mpr ⟨?_, ih⟩
      rintro rfl
      cases hlength

end Expr

/-! ### Definite values and stores -/

/-- The value is not undefined, and if it is a function, then no sequence in its body is empty. -/
structure Value.Definite (v : Value) : Prop where
  defined : v ≠ .undefined
  filled {f : Closure} : v = .function f → f.body.filled

theorem Value.Plain.definite {v : Value} (h : v.Plain) : v.Definite := by
  cases h <;> exact ⟨nofun, nofun⟩

/-- Nothing that is bound is undefined, and no sequence in the body of a function is empty. -/
def Store.Definite (σ : Store) : Prop := ∀ {t x v}, σ.binding? t x = some v → v.Definite

theorem mem_of_mem_bindArguments {parameters : List String} {arguments : List Value}
    (h : parameters.length ≤ arguments.length) :
    ∀ b ∈ bindArguments parameters arguments, b.2 ∈ arguments := by
  induction parameters generalizing arguments with
  | nil => exact List.forall_mem_nil _
  | cons p ps ih =>
      cases arguments with
      | nil => cases h
      | cons v vs =>
          refine List.forall_mem_cons.mpr ⟨List.mem_cons_self, fun b hb => ?_⟩
          exact List.mem_cons_of_mem _ (ih (Nat.le_of_succ_le_succ h) b hb)

namespace Store.Definite

variable {σ : Store}

theorem define (h : σ.Definite) (t : ScopeId) (x : String) {v : Value} (hv : v.Definite) :
    (σ.define t x v).Definite := by
  intro u y w hw
  rw [binding?_define] at hw
  split at hw
  · cases hw
    exact hv
  · exact h hw

/-- No parameter is undefined if there are enough arguments. -/
theorem enter (h : σ.Definite) {f : Closure} {arguments : List Value}
    (henough : f.parameters.length ≤ arguments.length) (harguments : ∀ v ∈ arguments, v.Definite) :
    (σ.enter f arguments).2.Definite := by
  intro t x v hv
  rw [snd_enter] at hv
  rcases binding?_defineAll_cases hv with hold | ⟨b, hb, rfl⟩
  · rw [binding?_addScope] at hold
    exact h hold
  · exact harguments _ (mem_of_mem_bindArguments henough b hb)

end Store.Definite

/-! ### Invocations -/

/-- A call is among the things that began; it invoked the function with these arguments. -/
inductive Invoked (events : List Event) (f : Closure) (values : List Value) : Prop
  | call {fuel s function arguments σ τ υ} :
      .begun s (.call function arguments) σ ∈ events →
      evaluate fuel s function σ = .done (.function f) τ →
      evaluateAll (evaluate fuel s) arguments τ = .done values υ →
      .entered υ.size f (υ.enter f values).2 ∈ events → Invoked events f values

/-- The log of a call tells which function was invoked. -/
theorem invoked_of_call {fuel : ℕ} {s : ScopeId} {function : Expr} {arguments : List Expr}
    {f : Closure} {values : List Value} {σ τ υ : Store}
    (hfunction : evaluate fuel s function σ = .done (.function f) τ)
    (harguments : evaluateAll (evaluate fuel s) arguments τ = .done values υ) :
    Invoked (log (fuel + 1) s (.call function arguments) σ) f values := by
  refine .call List.mem_cons_self hfunction harguments ?_
  rw [log, hfunction, Outcome.events, harguments, Outcome.events]
  simp [Store.fst_enter]

/-- Whatever function was invoked, it had an argument for each parameter. -/
def Saturated (events : List Event) : Prop :=
  ∀ f values, Invoked events f values → f.parameters.length ≤ values.length

theorem Saturated.subset {events more : List Event} (h : Saturated more) (hsub : events ⊆ more) :
    Saturated events := by
  intro f values hinvoked
  obtain ⟨hcall, hf, hvalues, hentered⟩ := hinvoked
  exact h f values (.call (hsub hcall) hf hvalues (hsub hentered))

theorem Saturated.tail {event : Event} {events : List Event} (h : Saturated (event :: events)) :
    Saturated events :=
  h.subset (List.subset_cons_self ..)

/-! ### Definite outcomes -/

namespace Outcome

/-- Something is undefined at the end: the value, an operand of the error, or what a scope binds. -/
inductive ShowsUndefined : Outcome Value → Prop
  | value {σ} : ShowsUndefined (.done .undefined σ)
  | operand {e σ} : .undefined ∈ e.operands → ShowsUndefined (.failed e σ)
  | binding {o σ t x} :
      o.store? = some σ → σ.binding? t x = some .undefined → ShowsUndefined o

/-- Everything is definite at the end, if there is an end: the store, the operands of an error, and
the value as far as `good` says. -/
inductive Definite {α : Type} (good : α → Prop) : Outcome α → Prop
  | done {a σ} : good a → σ.Definite → Definite good (.done a σ)
  | failed {e σ} : (∀ v ∈ e.operands, v.Definite) → σ.Definite → Definite good (.failed e σ)
  | unfinished : Definite good .unfinished

variable {α β : Type} {good : α → Prop} {good' : β → Prop} {o : Outcome α}

theorem Definite.not_showsUndefined {o : Outcome Value} (h : o.Definite Value.Definite) :
    ¬o.ShowsUndefined := by
  intro hshows
  cases hshows with
  | value =>
      cases h with
      | done hv _ => exact hv.defined rfl
  | operand hmem =>
      cases h with
      | failed he _ => exact (he _ hmem).defined rfl
  | binding hstore hbinding =>
      cases h with
      | done _ hσ | failed _ hσ =>
          cases hstore
          exact (hσ hbinding).defined rfl
      | unfinished => cases hstore

/-- Computations that follow each other, and the things that begin meanwhile. -/
theorem Definite.bind {next : α → Store → Outcome β} {later : α → Store → List Event}
    {events : List Event} (hcalls : Saturated (events ++ o.events later))
    (h : Saturated events → o.Definite good)
    (hnext : ∀ {a σ}, o = .done a σ → good a → σ.Definite → Saturated (later a σ) →
      (next a σ).Definite good') :
    (o.bind next).Definite good' := by
  cases h (hcalls.subset (List.subset_append_left ..)) with
  | done ha hσ => exact hnext rfl ha hσ (hcalls.subset (List.subset_append_right ..))
  | failed he hσ => exact .failed he hσ
  | unfinished => exact .unfinished

/-- Nothing more begins once the computation has its value. -/
theorem Definite.finish {next : α → Store → Outcome β} (h : o.Definite good)
    (hnext : ∀ {a σ}, good a → σ.Definite → (next a σ).Definite good') :
    (o.bind next).Definite good' := by
  cases h with
  | done ha hσ => exact hnext ha hσ
  | failed he hσ => exact .failed he hσ
  | unfinished => exact .unfinished

theorem Definite.compute {σ : Store} (hσ : σ.Definite) (op : BinaryOperator) {a b : Value}
    (ha : a.Definite) (hb : b.Definite) :
    (ofExcept σ (op.compute a b)).Definite Value.Definite := by
  cases hop : op.compute a b with
  | ok v => exact .done (op.of_compute_eq_ok hop ha hb Value.Plain.definite) hσ
  | error e => exact .failed (op.of_compute_eq_error hop ha hb) hσ

end Outcome

namespace Store.Definite

open Outcome

section sequences

variable {evaluate : Expr → Store → Outcome Value} {log : Expr → Store → List Event}
  (h : ∀ {e σ}, σ.Definite → e.filled → Saturated (log e σ) →
    (evaluate e σ).Definite Value.Definite)
include h

theorem evaluateAll {es : List Expr} {σ : Store} (hσ : σ.Definite) (hes : ∀ e ∈ es, e.filled)
    (hcalls : Saturated (logAll evaluate log es σ)) :
    (evaluateAll evaluate es σ).Definite fun vs => ∀ v ∈ vs, v.Definite := by
  induction es generalizing σ with
  | nil => exact .done (List.forall_mem_nil _) hσ
  | cons e es ih =>
      obtain ⟨he, hes⟩ := List.forall_mem_cons.mp hes
      refine .bind hcalls (h hσ he) fun {v τ} _ hv hτ hcalls => ?_
      refine (ih hτ hes hcalls).finish fun {vs υ} hvs hυ => ?_
      exact .done (List.forall_mem_cons.mpr ⟨hv, hvs⟩) hυ

theorem evaluateLast {es : List Expr} {σ : Store} {last : Value} (hσ : σ.Definite)
    (hes : ∀ e ∈ es, e.filled) (hlast : es = [] → last.Definite)
    (hcalls : Saturated (logAll evaluate log es σ)) :
    (evaluateLast evaluate last es σ).Definite Value.Definite := by
  induction es generalizing σ last with
  | nil => exact .done (hlast rfl) hσ
  | cons e es ih =>
      obtain ⟨he, hes⟩ := List.forall_mem_cons.mp hes
      refine .bind hcalls (h hσ he) fun _ hv hτ hcalls => ?_
      exact ih hτ hes (fun _ => hv) hcalls

end sequences

/-- If no argument is ever missing, then everything stays definite. -/
theorem evaluate {fuel : ℕ} {s : ScopeId} {e : Expr} {σ : Store} (hσ : σ.Definite) (he : e.filled)
    (hcalls : Saturated (log fuel s e σ)) :
    (evaluate fuel s e σ).Definite Value.Definite := by
  -- The body of a function is no part of the expression, so the induction is on the levels.
  induction fuel generalizing s e σ with
  | zero => exact .unfinished
  | succ fuel ih =>
      have hinner {a : Expr} (ha : e.Inner a) : a.filled := Expr.filled_of_inner he ha
      match e with
      | .number x => exact .done Value.Plain.number.definite hσ
      | .string t => exact .done Value.Plain.string.definite hσ
      | .boolean b => exact .done Value.Plain.boolean.definite hσ
      | .variable x =>
          rw [ExprLang.evaluate]
          cases hget : σ.get s x with
          | ok v =>
              obtain ⟨o, -, hbinding⟩ := exists_of_get hget
              exact .done (hσ hbinding) hσ
          | error err =>
              rw [eq_of_get_eq_error hget]
              exact .failed (List.forall_mem_nil _) hσ
      | .lambda parameters body =>
          refine .done ⟨Value.noConfusion, fun hf => ?_⟩ hσ
          cases hf
          exact he
      | .call function arguments =>
          have hbelow := hcalls
          rw [log] at hbelow
          refine .bind hbelow.tail (ih hσ (hinner .function)) ?_
          intro callee τ hfunction hcallee hτ hbelow
          refine .bind hbelow (evaluateAll ih hτ fun a ha => hinner (.argument ha)) ?_
          intro values υ harguments hvalues hυ hbelow
          cases callee with
          | function f =>
              have henough := hcalls f values (invoked_of_call hfunction harguments)
              exact ih (hυ.enter henough hvalues) (hcallee.filled rfl) hbelow.tail
          | _ => exact .failed (List.forall_mem_singleton.mpr hcallee) hυ
      | .condition test consequent alternative =>
          rw [log] at hcalls
          refine .bind hcalls.tail (ih hσ (hinner .test)) fun {v τ} _ _ hτ hcalls => ?_
          cases hv : v.isFalse with
          | false =>
              simp only [hv] at hcalls ⊢
              exact ih hτ (hinner .consequent) hcalls
          | true =>
              simp only [hv] at hcalls ⊢
              cases alternative with
              | none => exact .done Value.Plain.boolean.definite hτ
              | some a => exact ih hτ (hinner .alternative) hcalls
      | .assignment target value =>
          rw [log] at hcalls
          rw [ExprLang.evaluate]
          cases hx : target.name? with
          | none => exact .failed (List.forall_mem_nil _) hσ
          | some x =>
              rw [hx] at hcalls
              refine (ih hσ (hinner .value) hcalls.tail).finish fun {v τ} hv hτ => ?_
              cases τ.target? s x with
              | none => exact .failed (List.forall_mem_nil _) hτ
              | some t => exact .done hv (hτ.define t x hv)
      | .binary op left right =>
          rw [log] at hcalls
          refine .bind hcalls.tail (ih hσ (hinner .left)) fun _ ha hτ hcalls => ?_
          refine (ih hτ (hinner .right) hcalls).finish fun hb hυ => ?_
          exact .compute hυ op ha hb
      | .program body =>
          rw [log] at hcalls
          obtain ⟨hne, hbody⟩ := Expr.filled_program.mp he
          exact evaluateLast ih hσ hbody (fun hnil => absurd hnil hne) hcalls.tail

end Store.Definite

/-! ### The source of undefined -/

/-- An operator hands on an operand that is undefined, and makes nothing undefined itself. -/
theorem BinaryOperator.undefined_of_compute {op : BinaryOperator} {a b : Value}
    (h : op.compute a b = .ok .undefined) : a = .undefined ∨ b = .undefined := by
  rcases op.compute_eq_ok h with ha | hb | hplain
  · exact .inl ha.symm
  · exact .inr hb.symm
  · cases hplain

/-- The value of a condition without second branch is that of the first branch, or `false`. -/
theorem evaluate_condition_undefined {fuel : ℕ} {s : ScopeId} {test consequent : Expr}
    {σ υ : Store} (h : evaluate (fuel + 1) s (.condition test consequent none) σ =
      .done .undefined υ) :
    ∃ v τ, evaluate fuel s test σ = .done v τ ∧ evaluate fuel s consequent τ =
      .done .undefined υ := by
  rw [evaluate] at h
  cases htest : evaluate fuel s test σ with
  | done v τ =>
      rw [htest, Outcome.bind] at h
      split at h
      · exact ⟨v, τ, rfl, h⟩
      · cases h
  | failed err τ =>
      rw [htest] at h
      cases h
  | unfinished =>
      rw [htest] at h
      cases h

/-- **Undefined comes from missing arguments alone.**  If nothing that is bound is undefined and no
sequence in the code is empty, then an evaluation after which the value, an operand of the error or
what a scope binds is undefined has invoked a function with fewer arguments than it has parameters.
The parser makes no empty sequence below the top of a program, not even of an empty block.  A
condition without second branch is undefined only if its first branch is, and the result of an
operator only if an operand is. -/
theorem Store.undefined_of_missing_argument :
    (∀ {σ : Store} {e : Expr} (fuel : ℕ) (s : ScopeId), σ.Definite → e.filled →
      (evaluate fuel s e σ).ShowsUndefined →
      ∃ f values, Invoked (log fuel s e σ) f values ∧ values.length < f.parameters.length) ∧
    (∀ source e, Expr.ofSource source = .ok e →
      ∃ es, e = .program es ∧ ∀ e ∈ es, e.filled) ∧
    (∀ es : List Expr, (∀ e ∈ es, e.filled) → (Grammar.blockOf es).filled) ∧
    (∀ {fuel s test consequent σ υ},
      evaluate (fuel + 1) s (.condition test consequent none) σ = .done .undefined υ →
      ∃ v τ, evaluate fuel s test σ = .done v τ ∧
        evaluate fuel s consequent τ = .done .undefined υ) ∧
    ∀ (op : BinaryOperator) {a b : Value}, op.compute a b = .ok .undefined →
      a = .undefined ∨ b = .undefined := by
  refine ⟨?_, ?_, fun es => Expr.filled_blockOf, evaluate_condition_undefined,
    fun op => BinaryOperator.undefined_of_compute⟩
  · intro σ e fuel s hσ he hshows
    by_contra hnone
    have hcalls : Saturated (log fuel s e σ) := fun f values hinvoked =>
      not_lt.mp fun hlt => hnone ⟨f, values, hinvoked, hlt⟩
    exact (hσ.evaluate he hcalls).not_showsUndefined hshows
  · intro source e he
    obtain ⟨-, es, hitems, rfl⟩ := Expr.ofSource_eq_ok.mp he
    have hlegal := (hitems.legal (Lexed.legal source)).1
    exact ⟨es, rfl, fun e he => (hlegal e he).filled⟩

/-- The identity is invoked without argument. -/
theorem Store.undefined_of_missing_argument_identity :
    let call : Expr := .call (.lambda ["x"] (.variable "x")) []
    let σ := empty.root.2
    Expr.ofSource "((def (x) x))()" = .ok (.program [call]) ∧ σ.Definite ∧
      (∃ es, Expr.program [call] = .program es ∧ ∀ e ∈ es, e.filled) ∧
      (Grammar.blockOf [call]).filled ∧
      (evaluate 4 0 call σ).ShowsUndefined ∧
      (∃ f values, Invoked (log 4 0 call σ) f values ∧ values.length < f.parameters.length) ∧
      (∃ v τ υ, evaluate 4 0 (.boolean true) σ = .done v τ ∧
        evaluate 4 0 call τ = .done .undefined υ) ∧
      BinaryOperator.or.compute (.boolean false) .undefined = .ok .undefined ∧
      (Value.boolean false = .undefined ∨ Value.undefined = .undefined) := by
  intro call σ
  have hσ : σ.Definite := by
    intro t x v hv
    have hnone : σ.binding? t x = none :=
      (binding?_addScope ..).trans (binding?_eq_none (Nat.zero_le t))
    rw [hnone] at hv
    cases hv
  have hname : IsName "x" := by
    refine ⟨'x', [], rfl, isWordStart_iff.mp rfl, nofun, fun k => ?_⟩
    cases k <;> decide
  have hcall : call.WellFormed :=
    .call (.lambda (List.forall_mem_singleton.mpr hname) (.name hname)) (List.forall_mem_nil _)
  have hprint : String.ofList (Expr.printProgram [call]) = "((def (x) x))()" := by decide +kernel
  have hsource : Expr.ofSource "((def (x) x))()" = .ok (.program [call]) := by
    rw [← hprint]
    exact Expr.ofSource_printProgram (List.forall_mem_singleton.mpr hcall)
  obtain ⟨hmissing, hparser, hblock, hcondition, hoperator⟩ := undefined_of_missing_argument
  -- The scope of the call binds its parameter, and the body reads it from there.
  let υ := (((σ.close 0 ["x"] (.variable "x")).2).nested 0).2.define 1 "x" .undefined
  have hread : υ.get 1 "x" = .ok .undefined := get_of_binding? (binding?_define_self (by decide))
  have hvalue : evaluate 4 0 call σ = .done .undefined υ := by
    show Outcome.ofExcept υ (υ.get 1 "x") = _
    rw [hread]
    rfl
  have hshows : (evaluate 4 0 call σ).ShowsUndefined := by
    rw [hvalue]
    exact .value
  have hcase : evaluate 5 0 (.condition (.boolean true) call none) σ = .done .undefined υ := hvalue
  obtain ⟨v, τ, htest, hconsequent⟩ := hcondition hcase
  exact ⟨hsource, hσ, hparser _ _ hsource, hblock _ (List.forall_mem_singleton.mpr rfl), hshows,
    hmissing 4 0 hσ rfl hshows, ⟨v, τ, υ, htest, hconsequent⟩, rfl, hoperator .or rfl⟩

end ExprLang
