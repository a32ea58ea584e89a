import ExprLang.Proofs.Invocations
import ExprLang.Proofs.Region

/-! # What evaluations keep

An `Invariant` says what is to hold of the moments of an evaluation, of the values that are around
and of the code that runs, and in which way moments may follow each other.  It is `Kept` if each
step of an evaluation keeps it: beginning with an expression, making a function, binding a name that
is assigned, and entering a function.  Then evaluations keep it from the first moment to the last,
whether they succeed, fail or never end (`Invariant.Kept.evaluate`, `Invariant.Kept.invoke`).

A moment is a `Stage`: what has begun so far (see `log`), and the store. -/

namespace ExprLang

/-! ### Stages -/

/-- What has begun so far, in its order, and the store of the moment. -/
structure Stage where
  past : List Event
  store : Store

namespace Stage

variable (w : Stage)

/-- The evaluation of an expression begins in a scope. -/
def begin (s : ScopeId) (e : Expr) : Stage := { w with past := w.past ++ [.begun s e w.store] }

/-- A lambda is evaluated, which makes a function. -/
def close (s : ScopeId) (parameters : List String) (body : Expr) : Stage :=
  ⟨w.past ++ [.begun s (.lambda parameters body) w.store], (w.store.close s parameters body).2⟩

/-- A name is bound in a scope. -/
def define (t : ScopeId) (x : String) (v : Value) : Stage :=
  { w with store := w.store.define t x v }

/-- A function is entered. -/
def enter (f : Closure) (arguments : List Value) : Stage :=
  let (u, σ) := w.store.enter f arguments
  ⟨w.past ++ [.entered u f σ], σ⟩

/-- These things have begun since then, and the store has become another one. -/
def since (events : List Event) (σ : Store) : Stage := ⟨w.past ++ events, σ⟩

theorem since_empty (σ : Store) : w.since [] σ = { w with store := σ } := by
  unfold since
  rw [List.append_nil]

theorem since_since (events more : List Event) (σ τ : Store) :
    (w.since events σ).since more τ = w.since (events ++ more) τ := by
  unfold since
  rw [List.append_assoc]

end Stage

/-! ### Code -/

/-- The second expression is a part of the first one that is evaluated in the same scope. -/
inductive Expr.Inner : Expr → Expr → Prop
  | function {function arguments} : Inner (.call function arguments) function
  | argument {function arguments a} : a ∈ arguments → Inner (.call function arguments) a
  | test {test consequent alternative} : Inner (.condition test consequent alternative) test
  | consequent {test consequent alternative} :
      Inner (.condition test consequent alternative) consequent
  | alternative {test consequent alternative} :
      Inner (.condition test consequent (some alternative)) alternative
  | value {target value} : Inner (.assignment target value) value
  | left {op left right} : Inner (.binary op left right) left
  | right {op left right} : Inner (.binary op left right) right
  | item {body a} : a ∈ body → Inner (.program body) a

/-- The expression is a lambda. -/
def Expr.isLambda : Expr → Bool
  | .lambda _ _ => true
  | _ => false

/-! ### Invariants -/

/-- What is to hold while code runs. -/
structure Invariant where
  /-- What holds at a moment. -/
  holds : Stage → Prop
  /-- What holds of the values that are around. -/
  value : Stage → Value → Prop
  /-- What holds of the code that runs in a scope. -/
  code : Stage → ScopeId → Expr → Prop
  /-- How later moments are related to earlier ones. -/
  le : Stage → Stage → Prop

namespace Invariant

/-- One gets from the first stage to the second one, and the invariant holds there. -/
structure Reaches (I : Invariant) (w w' : Stage) : Prop where
  holds : I.holds w'
  le : I.le w w'

/-- Every step of an evaluation keeps the invariant. -/
structure Kept (I : Invariant) : Prop where
  refl {w} : I.holds w → I.le w w
  trans {w w' w''} : I.le w w' → I.le w' w'' → I.le w w''
  value_mono {w w' v} : I.value w v → I.le w w' → I.value w' v
  code_mono {w w' s e} : I.code w s e → I.le w w' → I.code w' s e
  inner {w s e a} : I.code w s e → e.Inner a → I.code w s a
  plain {w v} : v.Plain → I.value w v
  empty {w s} : I.code w s (.program []) → I.value w .undefined
  get {w s x v} :
    I.holds w → I.code w s (.variable x) → w.store.get s x = .ok v → I.value w v
  begin {w s e} :
    I.holds w → I.code w s e → e.isLambda = false → I.Reaches w (w.begin s e)
  close {w s parameters body} :
    I.holds w → I.code w s (.lambda parameters body) →
      I.Reaches w (w.close s parameters body) ∧
        I.value (w.close s parameters body) (w.store.close s parameters body).1
  define {w s t x e v} :
    I.holds w → I.code w s (.assignment (.variable x) e) → I.value w v →
      w.store.target? s x = some t → I.Reaches w (w.define t x v)
  enter {w f arguments} :
    I.holds w → I.value w (.function f) → (∀ v ∈ arguments, I.value w v) →
      I.Reaches w (w.enter f arguments) ∧ I.code (w.enter f arguments) w.store.size f.body

/-- The invariant holds whenever something begins, from `w` on and after the things in `past`. -/
inductive Along (I : Invariant) (w : Stage) : (past events : List Event) → Prop
  | nil {past} : Along I w past []
  | begun {past s e σ events} :
      I.Reaches w ⟨past, σ⟩ → I.code ⟨past, σ⟩ s e → Along I w (past ++ [.begun s e σ]) events →
      Along I w past (.begun s e σ :: events)
  | entered {past u f σ events} :
      I.Reaches w ⟨past ++ [.entered u f σ], σ⟩ → Along I w (past ++ [.entered u f σ]) events →
      Along I w past (.entered u f σ :: events)

/-- The invariant holds at the end of a computation, if there is an end, and of what it hands out:
of the operands of an error, and of a value as far as `good` says. -/
inductive Ends (I : Invariant) {α : Type} (good : Stage → α → Prop) (w : Stage)
    (events : List Event) : Outcome α → Prop
  | done {a σ} : I.Reaches w (w.since events σ) → good (w.since events σ) a →
      Ends I good w events (.done a σ)
  | failed {e σ} : I.Reaches w (w.since events σ) →
      (∀ v ∈ e.operands, I.value (w.since events σ) v) → Ends I good w events (.failed e σ)
  | unfinished : Ends I good w events .unfinished

theorem Ends.reaches {I : Invariant} {α : Type} {good : Stage → α → Prop} {w : Stage}
    {events : List Event} {o : Outcome α} (h : I.Ends good w events o) {σ : Store}
    (hend : o.store? = some σ) : I.Reaches w (w.since events σ) := by
  cases h with
  | done hreaches _ | failed hreaches _ =>
      cases hend
      exact hreaches
  | unfinished => cases hend

/-- The invariant holds all along a computation. -/
structure Guards (I : Invariant) {α : Type} (good : Stage → α → Prop) (w : Stage)
    (events : List Event) (o : Outcome α) : Prop where
  along : I.Along w w.past events
  ends : I.Ends good w events o

variable {I : Invariant} {w : Stage} {α β : Type} {good : Stage → α → Prop}
  {good' : Stage → β → Prop} {events more : List Event} {o : Outcome α}

/-! ### Computations that follow each other -/

theorem Along.append {past : List Event} (h : I.Along w past events)
    (hmore : I.Along w (past ++ events) more) : I.Along w past (events ++ more) := by
  induction h with
  | nil => rwa [List.append_nil] at hmore
  | begun hreaches hcode _ ih =>
      rw [List.append_cons] at hmore
      exact .begun hreaches hcode (ih hmore)
  | entered hreaches _ ih =>
      rw [List.append_cons] at hmore
      exact .entered hreaches (ih hmore)

theorem Along.at_begun {past before after : List Event} {s : ScopeId} {e : Expr} {σ : Store}
    (h : I.Along w past (before ++ .begun s e σ :: after)) :
    I.Reaches w ⟨past ++ before, σ⟩ ∧ I.code ⟨past ++ before, σ⟩ s e := by
  induction before generalizing past with
  | nil =>
      rw [List.append_nil]
      cases h with
      | begun hreaches hcode _ => exact ⟨hreaches, hcode⟩
  | cons event before ih =>
      rw [List.append_cons]
      cases h with
      | begun _ _ hrest => exact ih hrest
      | entered _ hrest => exact ih hrest

theorem Along.at_entered {past before after : List Event} {u : ScopeId} {f : Closure} {σ : Store}
    (h : I.Along w past (before ++ .entered u f σ :: after)) :
    I.Reaches w ⟨past ++ (before ++ [.entered u f σ]), σ⟩ := by
  induction before generalizing past with
  | nil =>
      cases h with
      | entered hreaches _ => exact hreaches
  | cons event before ih =>
      rw [List.cons_append, List.append_cons]
      cases h with
      | begun _ _ hrest => exact ih hrest
      | entered _ hrest => exact ih hrest

/-- The store becomes another one, and nothing begins. -/
theorem Guards.silent {a : α} {σ : Store} (h : I.Reaches w { w with store := σ })
    (ha : good { w with store := σ } a) : I.Guards good w [] (.done a σ) := by
  rw [← w.since_empty] at h ha
  exact ⟨.nil, .done h ha⟩

namespace Kept

variable (hI : I.Kept)
include hI

theorem reaches_trans {w' w'' : Stage} (h : I.Reaches w w') (h' : I.Reaches w' w'') :
    I.Reaches w w'' :=
  ⟨h'.holds, hI.trans h.le h'.le⟩

/-- Nothing begins, and nothing happens. -/
theorem rest {a : α} (h : I.holds w) (ha : good w a) : I.Guards good w [] (.done a w.store) :=
  .silent ⟨h, hI.refl h⟩ ha

theorem fail {e : EvalError} (h : I.holds w) (he : ∀ v ∈ e.operands, I.value w v) :
    I.Guards good w [] (.failed e w.store) where
  along := .nil
  ends := by
    refine .failed ?_ ?_ <;> rw [w.since_empty]
    · exact ⟨h, hI.refl h⟩
    · exact he

/-- What holds along a later computation holds from an earlier stage on. -/
theorem along_of_reaches {w' : Stage} {past : List Event} (h : I.Reaches w w')
    (hmore : I.Along w' past more) : I.Along w past more := by
  induction hmore with
  | nil => exact .nil
  | begun hreaches hcode _ ih => exact .begun (hI.reaches_trans h hreaches) hcode ih
  | entered hreaches _ ih => exact .entered (hI.reaches_trans h hreaches) ih

/-- The computation goes on from a later stage. -/
theorem after {σ : Store} (halong : I.Along w w.past events) (h : I.Reaches w (w.since events σ))
    (hmore : I.Guards good (w.since events σ) more o) : I.Guards good w (events ++ more) o where
  along := halong.append (hI.along_of_reaches h hmore.along)
  ends := by
    cases hmore.ends with
    | done hreaches ha =>
        rw [w.since_since] at hreaches ha
        exact .done (hI.reaches_trans h hreaches) ha
    | failed hreaches he =>
        rw [w.since_since] at hreaches he
        exact .failed (hI.reaches_trans h hreaches) he
    | unfinished => exact .unfinished

theorem bind {next : α → Store → Outcome β} {later : α → Store → List Event}
    (h : I.Guards good w events o)
    (hnext : ∀ {a σ}, I.Reaches w (w.since events σ) → good (w.since events σ) a →
      I.Guards good' (w.since events σ) (later a σ) (next a σ)) :
    I.Guards good' w (events ++ o.events later) (o.bind next) := by
  obtain ⟨halong, hends⟩ := h
  cases hends with
  | done hreaches ha => exact hI.after halong hreaches (hnext hreaches ha)
  | failed hreaches he =>
      rw [Outcome.events, List.append_nil]
      exact ⟨halong, .failed hreaches he⟩
  | unfinished =>
      rw [Outcome.events, List.append_nil]
      exact ⟨halong, .unfinished⟩

/-- Nothing more begins once the computation has its value. -/
theorem finish {next : α → Store → Outcome β} (h : I.Guards good w events o)
    (hnext : ∀ {a σ}, I.Reaches w (w.since events σ) → good (w.since events σ) a →
      I.Guards good' (w.since events σ) [] (next a σ)) :
    I.Guards good' w events (o.bind next) := by
  have hbind : I.Guards good' w (events ++ o.events fun _ _ => []) (o.bind next) :=
    hI.bind h hnext
  rwa [Outcome.events_nil, List.append_nil] at hbind

/-- The evaluation of an expression that is no lambda begins. -/
theorem begun {s : ScopeId} {e : Expr} (h : I.holds w) (hcode : I.code w s e)
    (he : e.isLambda = false)
    (hmore : I.holds (w.begin s e) → I.code (w.begin s e) s e →
      I.Guards good (w.begin s e) more o) :
    I.Guards good w (.begun s e w.store :: more) o := by
  have hbegin := hI.begin h hcode he
  have hmore := hmore hbegin.holds (hI.code_mono hcode hbegin.le)
  exact hI.after (σ := w.store) (.begun ⟨h, hI.refl h⟩ hcode .nil) hbegin hmore

/-- A function is entered. -/
theorem entered {f : Closure} {arguments : List Value} (h : I.holds w)
    (hf : I.value w (.function f)) (harguments : ∀ v ∈ arguments, I.value w v)
    (hbody : I.holds (w.enter f arguments) →
      I.code (w.enter f arguments) w.store.size f.body →
        I.Guards good (w.enter f arguments) more o) :
    I.Guards good w
      (.entered w.store.size f (w.store.enter f arguments).2 :: more) o := by
  obtain ⟨hreaches, hcode⟩ := hI.enter h hf harguments
  exact hI.after (.entered hreaches .nil) hreaches (hbody hreaches.holds hcode)

theorem compute (h : I.holds w) (op : BinaryOperator) {a b : Value} (ha : I.value w a)
    (hb : I.value w b) : I.Guards I.value w [] (.ofExcept w.store (op.compute a b)) := by
  cases hop : op.compute a b with
  | ok v => exact hI.rest h (op.of_compute_eq_ok hop ha hb hI.plain)
  | error e => exact hI.fail h (op.of_compute_eq_error hop ha hb)

/-! ### Sequences -/

section sequences

variable {s : ScopeId} {evaluate : Expr → Store → Outcome Value} {log : Expr → Store → List Event}
  (h : ∀ {w e}, I.holds w → I.code w s e →
    I.Guards I.value w (log e w.store) (evaluate e w.store))
include h

theorem sequence_all {es : List Expr} (hholds : I.holds w) (hcode : ∀ e ∈ es, I.code w s e) :
    I.Guards (fun w vs => ∀ v ∈ vs, I.value w v) w (logAll evaluate log es w.store)
      (evaluateAll evaluate es w.store) := by
  induction es generalizing w with
  | nil => exact hI.rest hholds (List.forall_mem_nil _)
  | cons e es ih =>
      obtain ⟨he, hes⟩ := List.forall_mem_cons.mp hcode
      refine hI.bind (h hholds he) fun {v σ} hτ hv => ?_
      refine hI.finish (ih hτ.holds fun e' he' => hI.code_mono (hes e' he') hτ.le) ?_
      intro vs υ hυ hvs
      exact hI.rest hυ.holds (List.forall_mem_cons.mpr ⟨hI.value_mono hv hυ.le, hvs⟩)

theorem sequence_last {es : List Expr} {last : Value} (hholds : I.holds w)
    (hcode : ∀ e ∈ es, I.code w s e) (hlast : es = [] → I.value w last) :
    I.Guards I.value w (logAll evaluate log es w.store)
      (evaluateLast evaluate last es w.store) := by
  induction es generalizing w last with
  | nil => exact hI.rest hholds (hlast rfl)
  | cons e es ih =>
      obtain ⟨he, hes⟩ := List.forall_mem_cons.mp hcode
      refine hI.bind (h hholds he) fun hτ hv => ?_
      exact ih hτ.holds (fun e' he' => hI.code_mono (hes e' he') hτ.le) fun _ => hv

end sequences

/-! ### Evaluation -/

/-- **Evaluations keep what their steps keep.** -/
theorem evaluate (fuel : ℕ) {s : ScopeId} {e : Expr} (h : I.holds w) (hcode : I.code w s e) :
    I.Guards I.value w (log fuel s e w.store) (evaluate fuel s e w.store) := by
  -- The body of a function is no part of the expression, so the induction is on the levels.
  induction fuel generalizing s e w with
  | zero => exact ⟨.nil, .unfinished⟩
  | succ fuel ih =>
      have hall : ∀ {w e}, I.holds w → I.code w s e →
          I.Guards I.value w (log fuel s e w.store) (ExprLang.evaluate fuel s e w.store) :=
        fun h hcode => ih h hcode
      match e with
      | .lambda parameters body =>
          obtain ⟨hreaches, hvalue⟩ := hI.close h hcode
          exact ⟨.begun ⟨h, hI.refl h⟩ hcode .nil, .done hreaches hvalue⟩
      | .number x =>
          exact hI.begun h hcode rfl fun hholds _ => hI.rest hholds (hI.plain .number)
      | .string t =>
          exact hI.begun h hcode rfl fun hholds _ => hI.rest hholds (hI.plain .string)
      | .boolean b =>
          exact hI.begun h hcode rfl fun hholds _ => hI.rest hholds (hI.plain .boolean)
      | .variable x =>
          refine hI.begun h hcode rfl fun hholds hcode => ?_
          rw [ExprLang.evaluate]
          cases hget : w.store.get s x with
          | ok v => exact hI.rest hholds (hI.get hholds hcode hget)
          | error err =>
              rw [Store.eq_of_get_eq_error hget]
              exact hI.fail hholds (List.forall_mem_nil _)
      | .call function arguments =>
          refine hI.begun h hcode rfl fun hholds hcode => ?_
          refine hI.bind (hall hholds (hI.inner hcode .function)) fun {callee σ} hτ hcallee => ?_
          have harguments : ∀ a ∈ arguments, I.code _ s a := fun a ha =>
            hI.code_mono (hI.inner hcode (.argument ha)) hτ.le
          refine hI.bind (hI.sequence_all hall hτ.holds harguments) fun hυ hvalues => ?_
          -- The function was around before the arguments were evaluated.
          have hcallee := hI.value_mono hcallee hυ.le
          cases callee with
          | function f => exact hI.entered hυ.holds hcallee hvalues ih
          | _ => exact hI.fail hυ.holds (List.forall_mem_singleton.mpr hcallee)
      | .condition test consequent alternative =>
          refine hI.begun h hcode rfl fun hholds hcode => ?_
          refine hI.bind (hall hholds (hI.inner hcode .test)) fun hτ hv => ?_
          have hcode := hI.code_mono hcode hτ.le
          split
          · exact hall hτ.holds (hI.inner hcode .consequent)
          · cases alternative with
            | none => exact hI.rest hτ.holds (hI.plain .boolean)
            | some e => exact hall hτ.holds (hI.inner hcode .alternative)
      | .assignment target value =>
          rw [log, ExprLang.evaluate]
          refine hI.begun h hcode rfl fun hholds hcode => ?_
          cases hx : target.name? with
          | none => exact hI.fail hholds (List.forall_mem_nil _)
          | some x =>
              obtain rfl := Expr.eq_variable_of_name? hx
              refine hI.finish (hall hholds (hI.inner hcode .value)) fun {v σ} hτ hv => ?_
              cases htarget : σ.target? s x with
              | none => exact hI.fail hτ.holds (List.forall_mem_nil _)
              | some t =>
                  have hdefine := hI.define hτ.holds (hI.code_mono hcode hτ.le) hv htarget
                  exact .silent hdefine (hI.value_mono hv hdefine.le)
      | .binary op left right =>
          refine hI.begun h hcode rfl fun hholds hcode => ?_
          refine hI.bind (hall hholds (hI.inner hcode .left)) fun hτ ha => ?_
          refine hI.finish (hall hτ.holds (hI.code_mono (hI.inner hcode .right) hτ.le)) ?_
          intro b υ hυ hb
          exact hI.compute hυ.holds op (hI.value_mono ha hυ.le) hb
      | .program body =>
          refine hI.begun h hcode rfl fun hholds hcode => ?_
          refine hI.sequence_last hall hholds (fun a ha => hI.inner hcode (.item ha)) ?_
          rintro rfl
          exact hI.empty hcode

/-- Invocations keep it as well. -/
theorem invoke (fuel : ℕ) {f : Closure} {arguments : List Value} (h : I.holds w)
    (hf : I.value w (.function f)) (harguments : ∀ v ∈ arguments, I.value w v) :
    I.Guards I.value w (logInvoke fuel f arguments w.store) (invoke fuel f arguments w.store) :=
  hI.entered h hf harguments fun hholds hcode => hI.evaluate fuel hholds hcode

end Kept

end Invariant

end ExprLang
