import ExprLang.Proofs.Growth

/-! # What an evaluation does to the scopes

An evaluation never disturbs the scopes that are there: none of them moves or loses a name, and only
the scope of the evaluation can gain names, if it has no parent.  The scope of an invocation binds
the parameters of its function when the body begins, and ever after nothing else but what is defined
there from the outside (`Store.evaluate_undisturbed`).

To speak of what is true while an evaluation goes on, `log` lists what begins in its course, in the
order in which it does and with the store of that moment.  `Course` is what each part of an
evaluation contributes: the stores of the list grow from the first to the last (`Course.bind` puts
two parts together), and every new scope was entered by an invocation. -/

namespace ExprLang

/-! ### The log of an evaluation -/

/-- Something begins in the course of an evaluation. -/
inductive Event where
  /-- An expression is going to be evaluated in a scope. -/
  | begun (scope : ScopeId) (e : Expr) (store : Store)
  /-- The body of a function is going to be evaluated, in a scope made for that. -/
  | entered (scope : ScopeId) (f : Closure) (store : Store)

/-- The store of that moment. -/
def Event.store : Event → Store
  | .begun _ _ σ => σ
  | .entered _ _ σ => σ

namespace Outcome

variable {α β : Type}

/-- The store at the end, if there is an end. -/
def store? : Outcome α → Option Store
  | .done _ σ => some σ
  | .failed _ σ => some σ
  | .unfinished => none

/-- What begins after the computation, if it has a value. -/
def events : Outcome α → (α → Store → List Event) → List Event
  | .done a σ, next => next a σ
  | .failed _ _, _ => []
  | .unfinished, _ => []

theorem store?_ofExcept (σ : Store) (r : Except EvalError α) : (ofExcept σ r).store? = some σ := by
  cases r <;> rfl

theorem events_nil (o : Outcome α) : (o.events fun _ _ => []) = [] := by
  cases o <;> rfl

theorem store?_bind_done (o : Outcome α) (g : α → β) :
    (o.bind fun a σ => .done (g a) σ).store? = o.store? := by
  cases o <;> rfl

end Outcome

/-- What begins while expressions are evaluated in order. -/
def logAll (evaluate : Expr → Store → Outcome Value) (log : Expr → Store → List Event) :
    List Expr → Store → List Event
  | [], _ => []
  | e :: es, σ => log e σ ++ (evaluate e σ).events fun _ σ => logAll evaluate log es σ

/-- What begins while `evaluate fuel s e σ` is computed, in the order in which it does. -/
def log : (fuel : Nat) → ScopeId → Expr → Store → List Event
  | 0, _, _, _ => []
  | fuel + 1, s, e, σ => .begun s e σ ::
    match e with
    | .call function arguments =>
      log fuel s function σ ++ (evaluate fuel s function σ).events fun callee σ =>
        logAll (evaluate fuel s) (log fuel s) arguments σ ++
          (evaluateAll (evaluate fuel s) arguments σ).events fun values σ =>
            match callee with
            | .function f =>
              let (t, σ) := σ.enter f values
              .entered t f σ :: log fuel t f.body σ
            | _ => []
    | .condition test consequent alternative =>
      log fuel s test σ ++ (evaluate fuel s test σ).events fun v σ =>
        if !v.isFalse then
          log fuel s consequent σ
        else
          match alternative with
          | some e => log fuel s e σ
          | none => []
    | .assignment target value =>
      match target.name? with
      | none => []
      | some _ => log fuel s value σ
    | .binary _ left right =>
      log fuel s left σ ++ (evaluate fuel s left σ).events fun _ σ => log fuel s right σ
    | .program body => logAll (evaluate fuel s) (log fuel s) body σ
    | _ => []

/-- What begins while `invoke fuel f arguments σ` is computed. -/
def logInvoke (fuel : Nat) (f : Closure) (arguments : List Value) (σ : Store) : List Event :=
  let (t, σ) := σ.enter f arguments
  .entered t f σ :: log fuel t f.body σ

/-! ### Courses -/

/-- The later store has all that the earlier one has, and only scopes without parents may bind more
names. -/
abbrev Store.Precedes (σ τ : Store) : Prop := σ.Grows (fun _ => True) τ

theorem Store.Grows.precedes {may : ScopeId → Prop} {σ τ : Store} (h : σ.Grows may τ) :
    σ.Precedes τ := h.mono fun _ _ => trivial

/-- Something begins in the course of a computation from the store `σ` to the store at its end, if
there is one: the stores grow on the way, and the scopes that are made are those of invocations. -/
structure Course (may : ScopeId → Prop) (σ : Store) (events : List Event) (final : Option Store) :
    Prop where
  grows : ∀ σ' ∈ final, σ.Grows may σ'
  since : ∀ event ∈ events, σ.Precedes event.store
  ordered : events.Pairwise fun earlier later => earlier.store.Precedes later.store
  till : ∀ σ' ∈ final, ∀ event ∈ events, event.store.Precedes σ'
  entered : ∀ {u f τ}, .entered u f τ ∈ events → σ.size ≤ u ∧ τ.Frames u f
  made : ∀ σ' ∈ final, ∀ {u}, σ.size ≤ u → u < σ'.size → ∃ f τ, .entered u f τ ∈ events

namespace Course

variable {may : ScopeId → Prop} {σ τ : Store} {events : List Event} {final : Option Store}

/-- Nothing begins, and no scope is made. -/
theorem leaf (hgrows : σ.Grows may τ) (hsize : τ.size = σ.size) : Course may σ [] (some τ) where
  grows := by
    rintro _ ⟨⟩
    exact hgrows
  since := nofun
  ordered := .nil
  till := nofun
  entered := nofun
  made := by
    rintro _ ⟨⟩ u hle hlt
    rw [hsize] at hlt
    exact absurd hle (Nat.not_le_of_lt hlt)

theorem refl (may : ScopeId → Prop) (σ : Store) : Course may σ [] (some σ) :=
  leaf (.refl may σ) rfl

theorem unfinished : Course may σ [] none where
  grows := nofun
  since := nofun
  ordered := .nil
  till := nofun
  entered := nofun
  made := nofun

theorem begun (h : Course may σ events final) (s : ScopeId) (e : Expr) :
    Course may σ (.begun s e σ :: events) final where
  grows := h.grows
  since := List.forall_mem_cons.mpr ⟨.refl _ σ, h.since⟩
  ordered := List.pairwise_cons.mpr ⟨h.since, h.ordered⟩
  till := by
    intro σ' hfinal
    have hgrows := (h.grows σ' hfinal).precedes
    exact List.forall_mem_cons.mpr ⟨hgrows, h.till σ' hfinal⟩
  entered := by
    intro u f τ hmem
    rcases List.mem_cons.mp hmem with heq | hmem
    · cases heq
    · exact h.entered hmem
  made := by
    intro σ' hfinal u hle hlt
    obtain ⟨f, τ, hmem⟩ := h.made σ' hfinal hle hlt
    exact ⟨f, τ, List.mem_cons_of_mem _ hmem⟩

/-- One part of a course behind another. -/
theorem append {more : List Event} (h : Course may σ events (some τ))
    (hmore : Course may τ more final) : Course may σ (events ++ more) final where
  grows := by
    intro σ' hfinal
    have hlast := hmore.grows σ' hfinal
    exact (h.grows τ rfl).trans hlast
  since := by
    rw [List.forall_mem_append]
    constructor
    · exact h.since
    · intro event hevent
      have hτ := (h.grows τ rfl).precedes
      exact hτ.trans (hmore.since event hevent)
  ordered := by
    rw [List.pairwise_append]
    refine ⟨h.ordered, hmore.ordered, ?_⟩
    intro earlier hearlier later hlater
    have hτ := h.till τ rfl earlier hearlier
    exact hτ.trans (hmore.since later hlater)
  till := by
    intro σ' hfinal
    rw [List.forall_mem_append]
    constructor
    · intro event hevent
      have hτ := h.till τ rfl event hevent
      exact hτ.trans (hmore.grows σ' hfinal).precedes
    · exact hmore.till σ' hfinal
  entered := by
    intro u f υ hmem
    rcases List.mem_append.mp hmem with hmem | hmem
    · exact h.entered hmem
    · obtain ⟨hle, hframes⟩ := hmore.entered hmem
      have hsize := (h.grows τ rfl).size_le
      exact ⟨hsize.trans hle, hframes⟩
  made := by
    intro σ' hfinal u hle hlt
    by_cases hu : u < τ.size
    · obtain ⟨f, υ, hmem⟩ := h.made τ rfl hle hu
      exact ⟨f, υ, List.mem_append_left _ hmem⟩
    · obtain ⟨f, υ, hmem⟩ := hmore.made σ' hfinal (Nat.le_of_not_lt hu) hlt
      exact ⟨f, υ, List.mem_append_right _ hmem⟩

/-- A computation that goes on with the value of another one. -/
theorem bind {α β : Type} {o : Outcome α} {next : α → Store → Outcome β}
    {more : α → Store → List Event} (h : Course may σ events o.store?)
    (hnext : ∀ a τ, σ.size ≤ τ.size → Course may τ (more a τ) (next a τ).store?) :
    Course may σ (events ++ o.events more) (o.bind next).store? := by
  cases o with
  | done a τ => exact h.append (hnext a τ (h.grows τ rfl).size_le)
  | failed error τ => rwa [Outcome.events, List.append_nil]
  | unfinished => rwa [Outcome.events, List.append_nil]

/-- A computation that begins nothing more once it has the value of another one. -/
theorem finish {α β : Type} {o : Outcome α} {next : α → Store → Outcome β}
    (h : Course may σ events o.store?)
    (hnext : ∀ a τ, Course may τ [] (next a τ).store?) :
    Course may σ events (o.bind next).store? := by
  have hbind := @bind _ _ _ _ _ _ _ (fun _ _ => []) h fun a τ _ => hnext a τ
  rwa [Outcome.events_nil, List.append_nil] at hbind

/-- An invocation: only its own scope could gain names, and that one is new. -/
theorem enter {f : Closure} {arguments : List Value}
    (h : Course (· = (σ.enter f arguments).1) (σ.enter f arguments).2 events final) :
    Course may σ (.entered (σ.enter f arguments).1 f (σ.enter f arguments).2 :: events) final where
  grows := by
    intro σ' hfinal
    have hall := (Store.grows_enter f arguments).trans (h.grows σ' hfinal)
    refine hall.mono fun ht heq => ?_
    rw [heq, Store.fst_enter] at ht
    exact absurd ht (lt_irrefl _)
  since := by
    have henter : σ.Precedes (σ.enter f arguments).2 := Store.grows_enter f arguments
    rw [List.forall_mem_cons]
    constructor
    · exact henter
    · intro event hevent
      exact henter.trans (h.since event hevent)
  ordered := List.pairwise_cons.mpr ⟨h.since, h.ordered⟩
  till := by
    intro σ' hfinal
    have hgrows := (h.grows σ' hfinal).precedes
    exact List.forall_mem_cons.mpr ⟨hgrows, h.till σ' hfinal⟩
  entered := by
    intro u g υ hmem
    rcases List.mem_cons.mp hmem with heq | hmem
    · cases heq
      exact ⟨le_rfl, Store.frames_enter f arguments⟩
    · obtain ⟨hle, hframes⟩ := h.entered hmem
      rw [Store.size_enter] at hle
      exact ⟨Nat.le_of_succ_le hle, hframes⟩
  made := by
    intro σ' hfinal u hle hlt
    rcases Nat.eq_or_lt_of_le hle with rfl | hgt
    · exact ⟨f, _, List.mem_cons_self⟩
    · have hle' : (σ.enter f arguments).2.size ≤ u := by rwa [Store.size_enter]
      obtain ⟨g, υ, hmem⟩ := h.made σ' hfinal hle' hlt
      exact ⟨g, υ, List.mem_cons_of_mem _ hmem⟩

section sequences

variable {s : ScopeId} {evaluate : Expr → Store → Outcome Value} {log : Expr → Store → List Event}
  (h : ∀ e {σ}, s < σ.size → Course (· = s) σ (log e σ) (evaluate e σ).store?)
include h

theorem evaluateAll (es : List Expr) {σ : Store} (hs : s < σ.size) :
    Course (· = s) σ (logAll evaluate log es σ) (evaluateAll evaluate es σ).store? := by
  induction es generalizing σ with
  | nil => exact .refl _ σ
  | cons e es ih =>
      refine (h e hs).bind fun v τ hle => ?_
      rw [Outcome.store?_bind_done]
      exact ih (hs.trans_le hle)

theorem evaluateLast (last : Value) (es : List Expr) {σ : Store} (hs : s < σ.size) :
    Course (· = s) σ (logAll evaluate log es σ) (evaluateLast evaluate last es σ).store? := by
  induction es generalizing σ last with
  | nil => exact .refl _ σ
  | cons e es ih => exact (h e hs).bind fun v τ hle => ih v (hs.trans_le hle)

end sequences

end Course

/-- What an evaluation in a scope goes through. -/
theorem course_evaluate (fuel : Nat) {s : ScopeId} (e : Expr) {σ : Store} (hs : s < σ.size) :
    Course (· = s) σ (log fuel s e σ) (evaluate fuel s e σ).store? := by
  -- The body of a function is no part of the expression, so the induction is on the levels.
  induction fuel generalizing s e σ with
  | zero => exact .unfinished
  | succ fuel ih =>
      match e with
      | .number x => exact .begun (.refl _ σ) s _
      | .string t => exact .begun (.refl _ σ) s _
      | .boolean b => exact .begun (.refl _ σ) s _
      | .variable x =>
          refine .begun ?_ s _
          rw [evaluate, Outcome.store?_ofExcept]
          exact .refl _ σ
      | .lambda parameters body =>
          refine .begun ?_ s _
          rw [evaluate]
          exact .leaf (Store.grows_close s parameters body) rfl
      | .call function arguments =>
          refine .begun ((ih function hs).bind fun callee τ hle => ?_) s _
          have hs := hs.trans_le hle
          refine (Course.evaluateAll (fun e _ => ih e) arguments hs).bind fun values υ hle => ?_
          cases callee with
          | function f => exact .enter (ih f.body (by simp [Store.fst_enter]))
          | number x => exact .refl _ υ
          | string t => exact .refl _ υ
          | boolean b => exact .refl _ υ
          | undefined => exact .refl _ υ
      | .condition test consequent alternative =>
          refine .begun ((ih test hs).bind fun v τ hle => ?_) s _
          have hs := hs.trans_le hle
          split
          · exact ih consequent hs
          · cases alternative with
            | none => exact .refl _ τ
            | some e => exact ih e hs
      | .assignment target value =>
          rw [log, evaluate]
          refine .begun ?_ s _
          cases target.name? with
          | none => exact .refl _ σ
          | some x =>
              refine (ih value hs).finish fun v τ => ?_
              cases htarget : τ.target? s x with
              | none => exact .refl _ τ
              | some t => exact .leaf (Store.grows_target? htarget) (Store.size_define ..)
      | .binary op left right =>
          refine .begun ((ih left hs).bind fun a τ hle => ?_) s _
          refine (ih right (hs.trans_le hle)).finish fun b υ => ?_
          rw [Outcome.store?_ofExcept]
          exact .refl _ υ
      | .program body =>
          exact .begun (Course.evaluateLast (fun e _ => ih e) _ body hs) s _

theorem course_invoke (fuel : Nat) (f : Closure) (arguments : List Value) (σ : Store) :
    Course (fun _ => False) σ (logInvoke fuel f arguments σ) (invoke fuel f arguments σ).store? :=
  .enter (course_evaluate fuel f.body (by simp [Store.fst_enter]))

/-! ### Scopes are not disturbed -/

/-- What may become of a store later, behind an evaluation or an invocation or in the middle of one:
more of these, more scopes, assignments, and names that are defined from the outside.  The names
defined in the scope `u` itself are listed. -/
inductive Store.Later (u : ScopeId) (σ : Store) : List String → Store → Prop
  | now : Later u σ [] σ
  | evaluate {names τ υ fuel s e} :
      Later u σ names τ → s < τ.size → υ ∈ (evaluate fuel s e τ).store? → Later u σ names υ
  | evaluating {names τ event fuel s e} :
      Later u σ names τ → s < τ.size → event ∈ log fuel s e τ → Later u σ names event.store
  | invoke {names τ υ fuel f arguments} :
      Later u σ names τ → υ ∈ (invoke fuel f arguments τ).store? → Later u σ names υ
  | invoking {names τ event fuel f arguments} :
      Later u σ names τ → event ∈ logInvoke fuel f arguments τ → Later u σ names event.store
  | addScope {names τ parent} : Later u σ names τ → Later u σ names (τ.addScope parent).2
  | assign {names τ υ s x v} : Later u σ names τ → τ.assign s x v = .ok υ → Later u σ names υ
  | define {names τ t x v} : Later u σ names τ → t ≠ u → Later u σ names (τ.define t x v)
  | defineHere {names τ x v} : Later u σ names τ → Later u σ (x :: names) (τ.define u x v)

/-- The scope of an invocation binds the same names ever after, and those that are defined in it
from the outside. -/
theorem Store.Frames.later {σ τ : Store} {u : ScopeId} {f : Closure} {names : List String}
    (h : σ.Frames u f) (hlater : σ.Later u names τ) :
    τ.Inside f.scope u (names ++ f.parameters) := by
  induction hlater with
  | now => exact h
  | evaluate _ hs hstore ih =>
      have hgrows := (course_evaluate _ _ hs).grows _ hstore
      exact ih.grows hgrows
  | evaluating _ hs hevent ih =>
      have hgrows := (course_evaluate _ _ hs).since _ hevent
      exact ih.grows hgrows
  | invoke _ hstore ih =>
      have hgrows := (course_invoke ..).grows _ hstore
      exact ih.grows hgrows
  | invoking _ hevent ih =>
      have hgrows := (course_invoke ..).since _ hevent
      exact ih.grows hgrows
  | @addScope names τ parent _ ih =>
      have hgrows : τ.Precedes (τ.addScope parent).2 := grows_addScope parent
      exact ih.grows hgrows
  | assign _ hassign ih => exact ih.grows (grows_assign hassign)
  | define _ hne ih => exact ih.define_of_ne hne
  | defineHere _ ih => exact ih.define

/-- What an evaluation or an invocation does to the scopes of the store that it begins with. -/
structure Undisturbed (may : ScopeId → Prop) (σ : Store) (events : List Event)
    (final : Option Store) : Prop where
  /-- The scopes stay where they are and keep their names; which ones may gain some is given. -/
  grows : ∀ σ' ∈ final, σ.Grows may σ'
  /-- Names stay with their owners. -/
  owner? : ∀ σ' ∈ final, ∀ {t x o}, t < σ.size → σ.owner? t x = some o → σ'.owner? t x = some o
  /-- Every scope that is new was made for the body of a function. -/
  made : ∀ σ' ∈ final, ∀ {u}, σ.size ≤ u → u < σ'.size → ∃ f τ, .entered u f τ ∈ events
  /-- Such a scope binds the parameters from when the body begins until the end.  Ever after it
  binds these and the names that are defined in it from the outside. -/
  entered {before u f τ after} : events = before ++ .entered u f τ :: after →
    σ.size ≤ u ∧ τ.Frames u f ∧ (∀ event ∈ after, event.store.Frames u f) ∧
      ∀ σ' ∈ final, σ'.Frames u f ∧
        ∀ names υ, σ'.Later u names υ → υ.Inside f.scope u (names ++ f.parameters)

theorem Course.undisturbed {may : ScopeId → Prop} {σ : Store} {events : List Event}
    {final : Option Store} (h : Course may σ events final) : Undisturbed may σ events final where
  grows := h.grows
  owner? σ' hfinal := (h.grows σ' hfinal).owner?
  made := h.made
  entered := by
    rintro before u f τ after rfl
    have hmem : Event.entered u f τ ∈ before ++ .entered u f τ :: after :=
      List.mem_append_right _ List.mem_cons_self
    obtain ⟨hnew, hframes⟩ := h.entered hmem
    refine ⟨hnew, hframes, ?_, ?_⟩
    · intro event hevent
      have hordered := (List.pairwise_append.mp h.ordered).2.1
      have hlater := (List.pairwise_cons.mp hordered).1 event hevent
      exact hframes.grows hlater
    · intro σ' hfinal
      have hend : σ'.Frames u f := hframes.grows (h.till σ' hfinal _ hmem)
      exact ⟨hend, fun names υ hlater => hend.later hlater⟩

/-- **Evaluation disturbs no scope.**  An evaluation, whether it succeeds or fails, lets every scope
stay in its place and keep its names and their owners; only the scope of the evaluation may gain
names, if it has no parent.  An invocation lets no scope gain any.  The scopes that are new are
those of invocations, and each of them binds the parameters of its function from the moment when the
body begins.  Whatever happens to the store later, it gains no name but those that are defined in
that very scope from the outside. -/
theorem Store.evaluate_undisturbed (σ : Store) :
    (∀ fuel s e, s < σ.size →
      Undisturbed (· = s) σ (log fuel s e σ) (evaluate fuel s e σ).store?) ∧
    ∀ fuel f arguments, Undisturbed (fun _ => False) σ (logInvoke fuel f arguments σ)
      (invoke fuel f arguments σ).store? :=
  ⟨fun fuel _ e hs => (course_evaluate fuel e hs).undisturbed,
    fun fuel f arguments => (course_invoke fuel f arguments σ).undisturbed⟩

/-- A call that binds its parameter anew and fails at a name that nothing binds; its scope is left
behind in the store. -/
theorem Store.evaluate_undisturbed_failing :
    let body : Expr := .program [.assignment (.variable "x") (.boolean true),
      .assignment (.variable "y") (.variable "x")]
    let e : Expr := .call (.lambda ["x"] body) [.boolean false]
    0 < empty.root.2.size ∧
      (evaluate 4 0 e empty.root.2).store?.map size = some 2 ∧
      Undisturbed (· = 0) empty.root.2 (log 4 0 e empty.root.2)
        (evaluate 4 0 e empty.root.2).store? := by
  refine ⟨by decide, by decide +kernel, ?_⟩
  exact (evaluate_undisturbed empty.root.2).1 4 0 _ (by decide)

/-- A function that is made in the scope of an invocation leads to that scope.  Another name can be
defined there from the outside, and is bound when the function is invoked. -/
theorem Store.later_binds_other_name :
    let e : Expr := .call (.lambda ["a"] (.lambda [] (.variable "b"))) [.boolean true]
    ∃ g σ' f τ υ, evaluate 3 0 e empty.root.2 = .done (.function g) σ' ∧
      .entered g.scope f τ ∈ log 3 0 e empty.root.2 ∧ f.parameters = ["a"] ∧
      υ ∈ (invoke 1 g [] (σ'.define g.scope "b" (.boolean true))).store? ∧
      υ.Binds g.scope "b" ∧ ¬υ.Frames g.scope f := by
  intro e
  have hstore {t : ScopeId} {σ : Store} :
      σ ∈ (Outcome.ofExcept σ (σ.get t "b")).store? := Outcome.store?_ofExcept ..
  refine ⟨_, _, _, _, _, rfl, .tail _ (.tail _ (.tail _ (.head _))), rfl, hstore, ?_, ?_⟩
  · decide
  · rintro ⟨-, hbinds⟩
    have hnot : "b" ∉ ["a"] := by decide
    exact hnot ((hbinds "b").mp (by decide))

end ExprLang
