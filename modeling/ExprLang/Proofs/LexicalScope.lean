import ExprLang.Proofs.Nesting

/-! # Scoping is lexical

Which scope a variable belongs to can be told from the text: evaluating the resolved tree of an
expression is the same as evaluating the expression, and at each moment in which a variable is read
or assigned its place is the scope in which it is found (`Store.WellFormed.scoping_lexical`).

This goes for the evaluation itself and for all that comes later, since functions that it has made
may be invoked from elsewhere and long after (`Session`).  Only the scopes that were made for its
functions have to be left alone: a name defined there from the outside, other than a parameter,
comes between a variable and its scope (`Store.invoke_finds_inner`).  The invariant is that the
record fits the store (`Record.Fits`): functions are those that the record has, their code is that
of the tree, and the scopes of their invocations still bind what they bound in the beginning.  Every
step of an evaluation preserves it (`Record.Fits.evaluate`). -/

namespace ExprLang

/-- The function that a value is. -/
def Value.function? : Value → Option Closure
  | .function f => some f
  | _ => none

/-! ### Records that fit a store -/

namespace Record

variable {e : Expr} {σ τ υ : Store} {k k' k'' : Record} {s t u : ScopeId} {x : String} {v : Value}

/-- The value is no function, or one that exists, and if it was made by the tree, then the record
has it under its number. -/
def Holds (k : Record) (σ : Store) (v : Value) : Prop :=
  ∀ f, v = .function f →
    f.scope < σ.size ∧ f.id < σ.functions ∧ ∀ {g r}, k.code f.id = some (g, r) → g = f

theorem Holds.store (h : k.Holds σ v) : σ.Holds (fun _ => True) v := by
  intro f hf
  obtain ⟨hscope, hid, -⟩ := h f hf
  exact ⟨trivial, hscope, hid⟩

/-- Any other value. -/
theorem holds_of_function? (h : v.function? = none) : k.Holds σ v := by
  rintro f rfl
  cases h

theorem holds_make (ht : t < σ.size) (source : Lambda) (r : Resolved) :
    (k.make ⟨σ.functions, source.parameters, source.body, t⟩ r).Holds
      (σ.close t source.parameters source.body).2
      (.function ⟨σ.functions, source.parameters, source.body, t⟩) := by
  rintro f ⟨⟩
  refine ⟨ht, Nat.lt_succ_self _, fun {g r'} hc => ?_⟩
  exact (Prod.mk.inj (Option.some.inj ((if_pos rfl).symm.trans hc))).1.symm

/-- All that the record says is so. -/
structure Fits (e : Expr) (s : ScopeId) (k : Record) (σ : Store) : Prop where
  wellFormed : σ.WellFormed
  start : s < σ.size
  bound : ∀ {t x v}, σ.binding? t x = some v → k.Holds σ v
  /-- Functions were made of code that belongs to the expression, in the scope for it, or of code
  from elsewhere. -/
  code : ∀ {i f r},
    k.code i = some (f, r) →
      f.id = i ∧ i < σ.functions ∧
        ∃ enclosing, e.Part enclosing (.lambda f.parameters f.body) ∧
          σ.Hosts k s enclosing f.scope ∧ r = f.body.resolve (enclosing.map (f.source :: ·))
  frame : ∀ {u f}, k.frame u = some f → u < σ.size
  moments : ∀ m ∈ k.moments, m.Lexical e s k

/-- Defining the name in the scope leaves the places of variables as they are: if the scope was made
for a function of the tree, then the name is one of its parameters. -/
def Leaves (k : Record) (t : ScopeId) (x : String) : Prop :=
  ∀ {f ls}, k.frame t = some f → k.code f.id = some (f, f.body.resolve (some ls)) →
    x ∈ f.parameters

/-- What was recorded before is still so, and what is new has new numbers. -/
structure Before (k : Record) (σ : Store) (k' : Record) (τ : Store) : Prop where
  size_le : σ.size ≤ τ.size
  functions_le : σ.functions ≤ τ.functions
  code : ∀ {i c}, k.code i = some c → k'.code i = some c
  fresh : ∀ {i c}, k'.code i = some c → k.code i = some c ∨ σ.functions ≤ i
  frame : ∀ {u f}, k.frame u = some f → k'.frame u = some f
  frames : ∀ {u f ls},
    k.frame u = some f → k.code f.id = some (f, f.body.resolve (some ls)) →
      σ.Frames u f → τ.Frames u f

namespace Before

theorem refl (k : Record) (σ : Store) : Before k σ k σ where
  size_le := le_rfl
  functions_le := le_rfl
  code h := h
  fresh h := .inl h
  frame h := h
  frames _ _ h := h

theorem trans (h : Before k σ k' τ) (h' : Before k' τ k'' υ) : Before k σ k'' υ where
  size_le := h.size_le.trans h'.size_le
  functions_le := h.functions_le.trans h'.functions_le
  code hc := h'.code (h.code hc)
  fresh hc := by
    rcases h'.fresh hc with hold | hnew
    · exact h.fresh hold
    · exact .inr (h.functions_le.trans hnew)
  frame hf := h'.frame (h.frame hf)
  frames hf hc hframes := h'.frames (h.frame hf) (h.code hc) (h.frames hf hc hframes)

theorem nest {ls : List Lambda} (h : Before k σ k' τ) (hnest : σ.Nest k s ls t) :
    τ.Nest k' s ls t :=
  hnest.mono h.code h.frame h.frames

theorem hosts {enclosing : Option (List Lambda)} (h : Before k σ k' τ)
    (hhosts : σ.Hosts k s enclosing t) : τ.Hosts k' s enclosing t where
  lt := hhosts.lt.trans_le h.size_le
  nest ls hls := h.nest (hhosts.nest ls hls)

theorem holds (h : Before k σ k' τ) (hv : k.Holds σ v) : k'.Holds τ v := by
  intro f hf
  obtain ⟨hscope, hid, hsame⟩ := hv f hf
  refine ⟨hscope.trans_le h.size_le, hid.trans_le h.functions_le, fun hc => ?_⟩
  rcases h.fresh hc with hold | hnew
  · exact hsame hold
  · exact absurd hid (not_lt.mpr hnew)

/-- The store grows and no function is made. -/
theorem grows {may : ScopeId → Prop} (k : Record) (h : σ.Grows may τ)
    (hfunctions : τ.functions = σ.functions) : Before k σ k τ where
  size_le := h.size_le
  functions_le := hfunctions.ge
  code hc := hc
  fresh hc := .inl hc
  frame hf := hf
  frames _ _ hframes := hframes.grows h

theorem define (hx : k.Leaves t x) : Before k σ k (σ.define t x v) where
  size_le := (Store.size_define ..).ge
  functions_le := le_rfl
  code hc := hc
  fresh hc := .inl hc
  frame hf := hf
  frames {u f ls} hf hc hframes := by
    by_cases htu : t = u
    · subst htu
      exact hframes.define_of_mem (hx hf hc)
    · exact hframes.define_of_ne htu

theorem access (k : Record) (σ : Store) (t : ScopeId) (site : Site) :
    Before k σ (k.access t site σ) σ := by
  cases site with
  | resolved => exact { refl k σ with }
  | unresolved => exact refl k σ

end Before

/-! ### Recording -/

namespace Fits

variable (h : Fits e s k σ)
include h

/-- What holds of the functions made so far holds of them later. -/
theorem code_before (hbefore : Before k σ k' τ) {i : ℕ} {f : Closure} {r : Resolved}
    (hc : k.code i = some (f, r)) :
    f.id = i ∧ i < τ.functions ∧
      ∃ enclosing, e.Part enclosing (.lambda f.parameters f.body) ∧
        τ.Hosts k' s enclosing f.scope ∧ r = f.body.resolve (enclosing.map (f.source :: ·)) := by
  obtain ⟨hid, hi, enclosing, hpart, hhosts, hr⟩ := h.code hc
  exact ⟨hid, hi.trans_le hbefore.functions_le, enclosing, hpart, hbefore.hosts hhosts, hr⟩

theorem moments_before (hbefore : Before k σ k' τ) : ∀ m ∈ k.moments, m.Lexical e s k' :=
  fun m hm => (h.moments m hm).mono hbefore.code hbefore.frame

/-- The store changes and the record does not. -/
theorem store (hbefore : Before k σ k τ) (hτ : τ.WellFormed)
    (hbound : ∀ {t x v}, τ.binding? t x = some v → k.Holds τ v) : Fits e s k τ where
  wellFormed := hτ
  start := h.start.trans_le hbefore.size_le
  bound := hbound
  code hc := h.code_before hbefore hc
  frame hf := (h.frame hf).trans_le hbefore.size_le
  moments := h.moments

theorem define (hv : k.Holds σ v) (hbefore : Before k σ k (σ.define t x v)) :
    Fits e s k (σ.define t x v) := by
  have hkeeps := h.wellFormed.keeps_define (t := t) (x := x) trivial hv.store
  refine h.store hbefore hkeeps.sealed fun {u y w} hw => ?_
  rw [Store.binding?_define] at hw
  split at hw
  · cases hw
    exact hbefore.holds hv
  · exact hbefore.holds (h.bound hw)

/-! A variable is read or assigned. -/

theorem access {enclosing : Option (List Lambda)} (hpart : e.Part enclosing (.variable x))
    (hhosts : σ.Hosts k s enclosing t) : Fits e s (k.access t (.of enclosing x) σ) σ := by
  have hbefore := Before.access k σ t (.of enclosing x)
  cases enclosing with
  | none => exact h
  | some ls =>
      refine {
        wellFormed := h.wellFormed
        start := h.start
        bound := fun hv => hbefore.holds (h.bound hv)
        code := fun hc => h.code_before hbefore hc
        frame := h.frame
        moments := List.forall_mem_cons.mpr ⟨?_, h.moments_before hbefore⟩ }
      exact (hbefore.nest (hhosts.nest ls rfl)).lexical h.wellFormed hpart

/-! A function is made. -/

theorem before_make (source : Lambda) (r : Resolved) :
    Before k σ (k.make ⟨σ.functions, source.parameters, source.body, t⟩ r)
      (σ.close t source.parameters source.body).2 where
  size_le := le_rfl
  functions_le := Nat.le_succ _
  code {i c} hc := by
    have hi : i < σ.functions := (h.code (f := c.1) (r := c.2) hc).2.1
    exact (if_neg hi.ne).trans hc
  fresh {i c} hc := by
    by_cases hi : i = σ.functions
    · exact .inr hi.ge
    · exact .inl ((if_neg hi).symm.trans hc)
  frame hf := hf
  frames _ _ hframes := hframes

theorem make {enclosing : Option (List Lambda)} {source : Lambda}
    (hpart : e.Part enclosing (.lambda source.parameters source.body))
    (hhosts : σ.Hosts k s enclosing t) :
    Fits e s
      (k.make ⟨σ.functions, source.parameters, source.body, t⟩
        (source.body.resolve (enclosing.map (source :: ·))))
      (σ.close t source.parameters source.body).2 := by
  have hbefore := h.before_make (t := t) source (source.body.resolve (enclosing.map (source :: ·)))
  exact {
    wellFormed := (h.wellFormed.keeps_close t source.parameters source.body).sealed
    start := h.start
    bound := fun hv => hbefore.holds (h.bound hv)
    code := fun {i f r} hc => by
      by_cases hi : i = σ.functions
      · obtain ⟨rfl, rfl⟩ := Prod.mk.inj (Option.some.inj ((if_pos hi).symm.trans hc))
        exact ⟨hi.symm, hi ▸ Nat.lt_succ_self _, enclosing, hpart, hbefore.hosts hhosts, rfl⟩
      · exact h.code_before hbefore ((if_neg hi).symm.trans hc)
    frame := h.frame
    moments := h.moments_before hbefore }

/-! A function is invoked. -/

theorem before_enter (f : Closure) (arguments : List Value) :
    Before k σ (k.enter σ.size f) (σ.enter f arguments).2 where
  size_le := by
    rw [Store.size_enter]
    exact Nat.le_succ _
  functions_le := (Store.functions_enter ..).ge
  code hc := hc
  fresh hc := .inl hc
  frame hf := (if_neg (h.frame hf).ne).trans hf
  frames _ _ hframes := by
    have hgrows : σ.Grows (fun _ => True) (σ.enter f arguments).2 := Store.grows_enter f arguments
    exact hframes.grows hgrows

theorem enter {f : Closure} {arguments : List Value} (hf : k.Holds σ (.function f))
    (harguments : ∀ v ∈ arguments, k.Holds σ v) :
    Fits e s (k.enter σ.size f) (σ.enter f arguments).2 := by
  have hbefore := h.before_enter f arguments
  have hkeeps := h.wellFormed.keeps_enter hf.store fun v hv => (harguments v hv).store
  exact {
    wellFormed := hkeeps.sealed
    start := h.start.trans_le hbefore.size_le
    bound := fun hv => by
      refine hbefore.holds ?_
      rcases Store.binding?_enter_cases hv with hold | hv | rfl
      · exact h.bound hold
      · exact harguments _ hv
      · exact holds_of_function? rfl
    code := fun hc => h.code_before hbefore hc
    frame := fun {u g} hg => by
      rw [Store.size_enter]
      by_cases hu : u = σ.size
      · exact hu ▸ Nat.lt_succ_self _
      · exact (h.frame ((if_neg hu).symm.trans hg)).trans (Nat.lt_succ_self _)
    moments := h.moments_before hbefore }

/-- The body runs in a scope that is made for it. -/
theorem body {f : Closure} (hf : k.Holds σ (.function f)) (arguments : List Value) :
    ∃ enclosing, k.body f = f.body.resolve enclosing ∧ e.Part enclosing f.body ∧
      (σ.enter f arguments).2.Hosts (k.enter σ.size f) s enclosing σ.size := by
  have hlt := Store.lt_size_enter σ f arguments
  unfold Record.body
  cases hc : k.code f.id with
  | none => exact ⟨none, rfl, .elsewhere, hlt, nofun⟩
  | some c =>
      obtain ⟨g, r⟩ := c
      obtain rfl : g = f := (hf f rfl).2.2 hc
      obtain ⟨-, -, enclosing, hpart, hhosts, rfl⟩ := h.code hc
      refine ⟨enclosing.map (g.source :: ·), rfl, .body hpart, hlt, fun ls hls => ?_⟩
      obtain ⟨around, haround, rfl⟩ := Option.map_eq_some_iff.mp hls
      have hbefore := h.before_enter g arguments
      refine .inside (if_pos rfl) ?_ (Store.frames_enter g arguments) ?_
      · cases haround
        exact hc
      · exact hbefore.nest (hhosts.nest around haround)

end Fits

end Record

/-! ### Runs -/

namespace Run

variable {α β : Type} {e : Expr} {σ τ : Store} {k k' : Record} {s t : ScopeId}

/-- The run has the outcome, and what it recorded is so. -/
inductive Agrees (e : Expr) (s : ScopeId) (good : Record → Store → α → Prop) (k : Record)
    (σ : Store) : Run α → Outcome α → Prop
  | done {a : α} {k' : Record} {τ : Store} :
      k.Before σ k' τ → k'.Fits e s τ → good k' τ a → Agrees e s good k σ (.done a k' τ) (.done a τ)
  | failed {err : EvalError} {k' : Record} {τ : Store} :
      k.Before σ k' τ → k'.Fits e s τ → (∀ v ∈ err.operands, k'.Holds τ v) →
      Agrees e s good k σ (.failed err k' τ) (.failed err τ)
  | unfinished {k' : Record} :
      (∀ m ∈ k'.moments, m.Lexical e s k') → Agrees e s good k σ (.unfinished k') .unfinished

namespace Agrees

variable {good : Record → Store → α → Prop} {good' : Record → Store → β → Prop} {r : Run α}
  {o : Outcome α}

theorem after (hbefore : k.Before σ k' τ) (h : Agrees e s good k' τ r o) :
    Agrees e s good k σ r o := by
  cases h with
  | done h hfits ha => exact .done (hbefore.trans h) hfits ha
  | failed h hfits herr => exact .failed (hbefore.trans h) hfits herr
  | unfinished hmoments => exact .unfinished hmoments

theorem bind {next : α → Record → Store → Run β} {next' : α → Store → Outcome β}
    (h : Agrees e s good k σ r o)
    (hnext : ∀ {a : α} {k' : Record} {τ : Store}, k.Before σ k' τ → k'.Fits e s τ → good k' τ a →
      Agrees e s good' k' τ (next a k' τ) (next' a τ)) :
    Agrees e s good' k σ (r.bind next) (o.bind next') := by
  cases h with
  | done hbefore hfits ha => exact .after hbefore (hnext hbefore hfits ha)
  | failed hbefore hfits herr => exact .failed hbefore hfits herr
  | unfinished hmoments => exact .unfinished hmoments

end Agrees

section sequences

variable {evaluate : Resolved → Record → Store → Run Value}
  {evaluate' : Expr → Store → Outcome Value} {enclosing : Option (List Lambda)}
  (h : ∀ {a : Expr} {k : Record} {σ : Store}, e.Part enclosing a → k.Fits e s σ →
    σ.Hosts k s enclosing t →
    Agrees e s Record.Holds k σ (evaluate (a.resolve enclosing) k σ) (evaluate' a σ))
include h

theorem agrees_evaluateAll {es : List Expr} (hes : ∀ a ∈ es, e.Part enclosing a)
    (hfits : k.Fits e s σ) (hhosts : σ.Hosts k s enclosing t) :
    Agrees e s (fun k τ vs => ∀ v ∈ vs, k.Holds τ v) k σ
      (Resolved.evaluateAll evaluate (Expr.resolveAll enclosing es) k σ)
      (evaluateAll evaluate' es σ) := by
  induction es generalizing k σ with
  | nil => exact .done (.refl k σ) hfits nofun
  | cons a es ih =>
      obtain ⟨ha, hes⟩ := List.forall_mem_cons.mp hes
      refine (h ha hfits hhosts).bind fun hbefore hfits hv => ?_
      refine (ih hes hfits (hbefore.hosts hhosts)).bind fun hbefore hfits hvs => ?_
      exact .done (.refl _ _) hfits (List.forall_mem_cons.mpr ⟨hbefore.holds hv, hvs⟩)

theorem agrees_evaluateLast {es : List Expr} {last : Value} (hes : ∀ a ∈ es, e.Part enclosing a)
    (hfits : k.Fits e s σ) (hhosts : σ.Hosts k s enclosing t)
    (hlast : k.Holds σ last) :
    Agrees e s Record.Holds k σ
      (Resolved.evaluateLast evaluate last (Expr.resolveAll enclosing es) k σ)
      (evaluateLast evaluate' last es σ) := by
  induction es generalizing k σ last with
  | nil => exact .done (.refl k σ) hfits hlast
  | cons a es ih =>
      obtain ⟨ha, hes⟩ := List.forall_mem_cons.mp hes
      refine (h ha hfits hhosts).bind fun hbefore hfits hv => ?_
      exact ih hes hfits (hbefore.hosts hhosts) hv

end sequences

theorem agrees_compute (hfits : k.Fits e s σ) (op : BinaryOperator) {a b : Value}
    (ha : k.Holds σ a) (hb : k.Holds σ b) :
    Agrees e s Record.Holds k σ (.ofExcept k σ (op.compute a b))
      (.ofExcept σ (op.compute a b)) := by
  cases h : op.compute a b with
  | ok v =>
      have hv : k.Holds σ v := by
        refine op.of_compute_eq_ok h ha hb ?_
        rintro (_ | _ | _) <;> exact Record.holds_of_function? rfl
      exact .done (.refl k σ) hfits hv
  | error err => exact .failed (.refl k σ) hfits (op.of_compute_eq_error h ha hb)

end Run

open Run Record in
/-- **Resolved trees do what the expressions do.** -/
theorem Record.Fits.evaluate {e a : Expr} {s t : ScopeId} {k : Record} {σ : Store}
    {enclosing : Option (List Lambda)} (h : k.Fits e s σ) (hpart : e.Part enclosing a)
    (hhosts : σ.Hosts k s enclosing t) (fuel : ℕ) :
    Agrees e s Record.Holds k σ (Resolved.evaluate fuel t (a.resolve enclosing) k σ)
      (evaluate fuel t a σ) := by
  -- The bodies of functions come from the record, so the induction is on the levels.
  induction fuel generalizing a t enclosing k σ with
  | zero => exact .unfinished h.moments
  | succ fuel ih =>
      have hall : ∀ {a : Expr} {k : Record} {σ : Store}, e.Part enclosing a → k.Fits e s σ →
          σ.Hosts k s enclosing t → Agrees e s Record.Holds k σ _ _ :=
        fun hpart hfits hhosts => ih hfits hpart hhosts
      match a with
      | .number x => exact .done (.refl k σ) h (holds_of_function? rfl)
      | .string t => exact .done (.refl k σ) h (holds_of_function? rfl)
      | .boolean b => exact .done (.refl k σ) h (holds_of_function? rfl)
      | .variable x =>
          have hbefore := Before.access k σ t (.of enclosing x)
          have hfits := h.access hpart hhosts
          rw [Expr.resolve, Resolved.evaluate, ExprLang.evaluate, hhosts.ownerAt_of h.wellFormed,
            Site.name_of, Store.get, Store.value?]
          cases hv : (σ.owner? t x).bind fun u => σ.binding? u x with
          | none => exact .failed hbefore hfits (List.forall_mem_nil _)
          | some v =>
              obtain ⟨u, -, hv⟩ := Option.bind_eq_some_iff.mp hv
              exact .done hbefore hfits (hbefore.holds (h.bound hv))
      | .lambda parameters body =>
          have hbefore := h.before_make (t := t) ⟨parameters, body⟩
            (body.resolve (enclosing.map (⟨parameters, body⟩ :: ·)))
          refine .done hbefore (h.make hpart hhosts) ?_
          exact holds_make hhosts.lt ⟨parameters, body⟩ _
      | .call function arguments =>
          refine (hall (.function hpart) h hhosts).bind
            fun {callee k' τ} hbefore hfits hcallee => ?_
          have hhosts := hbefore.hosts hhosts
          refine (agrees_evaluateAll hall (fun _ => .argument hpart) hfits hhosts).bind
            fun {values k'' υ} hbefore hfits hvalues => ?_
          have hcallee := hbefore.holds hcallee
          cases callee with
          | function f =>
              obtain ⟨around, hbody, hpart, hhosts⟩ := hfits.body hcallee values
              dsimp only
              rw [hbody]
              have henter := hfits.enter hcallee hvalues
              exact .after (hfits.before_enter f values) (ih henter hpart hhosts)
          | _ => exact .failed (.refl k'' υ) hfits (List.forall_mem_singleton.mpr hcallee)
      | .condition test consequent none =>
          refine (hall (.test hpart) h hhosts).bind fun hbefore hfits _ => ?_
          have hhosts := hbefore.hosts hhosts
          split
          · exact hall (.consequent hpart) hfits hhosts
          · exact .done (.refl _ _) hfits (holds_of_function? rfl)
      | .condition test consequent (some alternative) =>
          refine (hall (.test hpart) h hhosts).bind fun hbefore hfits _ => ?_
          have hhosts := hbefore.hosts hhosts
          split
          · exact hall (.consequent hpart) hfits hhosts
          · exact hall (.alternative hpart) hfits hhosts
      | .assignment target value =>
          rw [Expr.resolve, ExprLang.evaluate]
          cases hx : target.name? with
          | none => exact .failed (.refl k σ) h (List.forall_mem_nil _)
          | some x =>
              obtain rfl := Expr.eq_variable_of_name? hx
              refine (hall (.value hpart) h hhosts).bind fun {v k' τ} hbefore hfits hv => ?_
              have hhosts := hbefore.hosts hhosts
              have haccess := Before.access k' τ t (.of enclosing x)
              have hfits' := hfits.access (.target hpart) hhosts
              dsimp only
              rw [hhosts.targetAt_of hfits.wellFormed, Site.name_of]
              cases htarget : τ.target? t x with
              | none => exact .failed haccess hfits' (List.forall_mem_nil _)
              | some u =>
                  have hdefine := Before.grows (k'.access t (.of enclosing x) τ)
                    (Store.grows_target? (v := v) htarget) rfl
                  have hv := haccess.holds hv
                  exact .done (haccess.trans hdefine) (hfits'.define hv hdefine) (hdefine.holds hv)
      | .binary op left right =>
          refine (hall (.left hpart) h hhosts).bind fun hbefore hfits ha => ?_
          have hhosts := hbefore.hosts hhosts
          refine (hall (.right hpart) hfits hhosts).bind fun hbefore hfits hb => ?_
          exact agrees_compute hfits op (hbefore.holds ha) hb
      | .program body =>
          exact agrees_evaluateLast hall (fun _ => .item hpart) h hhosts
            (holds_of_function? rfl)

/-- Invocations run the trees of the bodies. -/
theorem Record.Fits.invoke {e : Expr} {s : ScopeId} {k : Record} {σ : Store} (h : k.Fits e s σ)
    {f : Closure} (hf : k.Holds σ (.function f)) {arguments : List Value}
    (harguments : ∀ v ∈ arguments, k.Holds σ v) (fuel : ℕ) :
    Run.Agrees e s Record.Holds k σ (Resolved.invoke fuel f arguments k σ)
      (invoke fuel f arguments σ) := by
  obtain ⟨enclosing, hbody, hpart, hhosts⟩ := h.body hf arguments
  rw [Resolved.invoke, ExprLang.invoke]
  dsimp only
  rw [hbody]
  exact .after (h.before_enter f arguments) ((h.enter hf harguments).evaluate hpart hhosts fuel)

/-! ### Sessions -/

/-- What may come after the store `σ₀`: the expression `e` is evaluated in the scope `s`, code from
elsewhere is evaluated in any scope, functions are invoked, and scopes are made and names are
assigned and defined from the outside.  In a scope that was made for a function of the tree no names
are defined but its parameters. -/
inductive Session (e : Expr) (s : ScopeId) (σ₀ : Store) : Record → Store → Prop
  | start : Session e s σ₀ .empty σ₀
  | evaluate {k σ k' σ' fuel} :
      Session e s σ₀ k σ →
      (Resolved.evaluate fuel s (e.resolve (some [])) k σ).final? = some (k', σ') →
      Session e s σ₀ k' σ'
  | elsewhere {k σ k' σ' fuel t} {code : Expr} :
      Session e s σ₀ k σ → t < σ.size →
      (Resolved.evaluate fuel t (code.resolve none) k σ).final? = some (k', σ') →
      Session e s σ₀ k' σ'
  | invoke {k σ k' σ' fuel f arguments} :
      Session e s σ₀ k σ → k.Holds σ (.function f) → (∀ v ∈ arguments, k.Holds σ v) →
      (Resolved.invoke fuel f arguments k σ).final? = some (k', σ') → Session e s σ₀ k' σ'
  | addScope {k σ parent} :
      Session e s σ₀ k σ → (∀ p, parent = some p → p < σ.size) →
      Session e s σ₀ k (σ.addScope parent).2
  | define {k σ t x v} :
      Session e s σ₀ k σ → k.Leaves t x → k.Holds σ v → Session e s σ₀ k (σ.define t x v)
  | assign {k σ t x v τ} :
      Session e s σ₀ k σ → k.Holds σ v → σ.assign t x v = .ok τ → Session e s σ₀ k τ

section sessions

variable {e : Expr} {s : ScopeId} {σ₀ σ τ : Store} {k k' : Record}

theorem Store.WellFormed.fits (h : σ₀.WellFormed) (hs : s < σ₀.size) :
    Record.Fits e s .empty σ₀ where
  wellFormed := h
  start := hs
  bound hv f hf := by
    obtain ⟨-, hscope, hid⟩ := h.bound trivial hv f hf
    exact ⟨hscope, hid, nofun⟩
  code := nofun
  frame := nofun
  moments := nofun

theorem Record.Fits.hosts (h : k.Fits e s σ) : σ.Hosts k s (some []) s where
  lt := h.start
  nest := by
    rintro _ ⟨⟩
    exact .outermost

theorem Run.Agrees.fits {α : Type} {good : Record → Store → α → Prop} {r : Run α} {o : Outcome α}
    (h : Agrees e s good k σ r o) (hfinal : r.final? = some (k', τ)) : k'.Fits e s τ := by
  cases h with
  | done _ hfits _ =>
      cases hfinal
      exact hfits
  | failed _ hfits _ =>
      cases hfinal
      exact hfits
  | unfinished => cases hfinal

theorem Record.Fits.addScope (h : k.Fits e s σ) {parent : Option ScopeId}
    (hparent : ∀ p, parent = some p → p < σ.size) : k.Fits e s (σ.addScope parent).2 := by
  have hgrows : σ.Grows (fun _ => True) (σ.addScope parent).2 := Store.grows_addScope parent
  have hbefore := Before.grows k hgrows rfl
  have hkeeps := h.wellFormed.keeps_addScope fun p hp => ⟨trivial, hparent p hp⟩
  refine h.store hbefore hkeeps.sealed fun hv => ?_
  rw [Store.binding?_addScope] at hv
  exact hbefore.holds (h.bound hv)

theorem Session.fits (h : Session e s σ₀ k σ) (hσ : σ₀.WellFormed) (hs : s < σ₀.size) :
    k.Fits e s σ := by
  induction h with
  | start => exact hσ.fits hs
  | evaluate _ hfinal ih => exact (ih.evaluate .whole ih.hosts _).fits hfinal
  | elsewhere _ ht hfinal ih => exact (ih.evaluate .elsewhere ⟨ht, nofun⟩ _).fits hfinal
  | invoke _ hf harguments hfinal ih => exact (ih.invoke hf harguments _).fits hfinal
  | addScope _ hparent ih => exact ih.addScope hparent
  | define _ hx hv ih => exact ih.define hv (.define hx)
  | @assign k σ t x v τ _ hv hassign ih =>
      unfold Store.assign at hassign
      split at hassign
      · next u htarget =>
          cases hassign
          exact ih.define hv (.grows k (Store.grows_target? htarget) rfl)
      · cases hassign

/-- The run has the outcome, what it hands out can be invoked later, and whenever a variable is read
or assigned it is the one that the text says. -/
structure Run.Lexical (e : Expr) (s : ScopeId) (r : Run Value) (o : Outcome Value) : Prop where
  outcome : r.outcome = o
  done : ∀ {v k σ}, r = .done v k σ → k.Holds σ v
  failed : ∀ {err k σ}, r = .failed err k σ → ∀ v ∈ err.operands, k.Holds σ v
  moments : ∀ m ∈ r.record.moments, m.Lexical e s r.record

theorem Run.Agrees.lexical {r : Run Value} {o : Outcome Value}
    (h : Agrees e s Record.Holds k σ r o) : r.Lexical e s o := by
  cases h with
  | done _ hfits hv =>
      exact ⟨rfl, by rintro _ _ _ ⟨⟩; exact hv, nofun, hfits.moments⟩
  | failed _ hfits herr =>
      exact ⟨rfl, nofun, by rintro _ _ _ ⟨⟩; exact herr, hfits.moments⟩
  | unfinished hmoments => exact ⟨rfl, nofun, nofun, hmoments⟩

/-- **Scoping is lexical.**  After whatever has happened since (`Session`), evaluating the resolved
tree of the expression `e` in the scope `s` has the outcome that evaluating `e` has.  The same goes
for code from elsewhere that invokes functions of the tree, and for invoking one of them from the
outside.  In all of them, a variable of `e` that is read or assigned is the one that the text says
(`Moment.Lexical`).  Functions that a scope binds are such that this goes for them. -/
theorem Store.WellFormed.scoping_lexical (hσ : σ₀.WellFormed) (hs : s < σ₀.size)
    (h : Session e s σ₀ k σ) (fuel : ℕ) :
    (Resolved.evaluate fuel s (e.resolve (some [])) k σ).Lexical e s (evaluate fuel s e σ) ∧
      (∀ (t : ScopeId) (code : Expr), t < σ.size →
        (Resolved.evaluate fuel t (code.resolve none) k σ).Lexical e s (evaluate fuel t code σ)) ∧
      (∀ f arguments, k.Holds σ (.function f) → (∀ v ∈ arguments, k.Holds σ v) →
        (Resolved.invoke fuel f arguments k σ).Lexical e s (invoke fuel f arguments σ)) ∧
      ∀ t x v, σ.binding? t x = some v → k.Holds σ v := by
  have hfits := h.fits hσ hs
  refine ⟨?_, ?_, ?_, fun _ _ _ hv => hfits.bound hv⟩
  · exact (hfits.evaluate .whole hfits.hosts fuel).lexical
  · exact fun t code ht => (hfits.evaluate .elsewhere ⟨ht, nofun⟩ fuel).lexical
  · exact fun f arguments hf harguments => (hfits.invoke hf harguments fuel).lexical

end sessions

/-- A function that makes counters is bound in the scope of the evaluation.  Whatever comes later, a
counter that it makes assigns to the variable of its own. -/
theorem Store.WellFormed.scoping_lexical_counter :
    let counter : Expr := .lambda [] (.assignment (.variable "n") (.variable "n"))
    let e : Expr := .assignment (.variable "f") (.lambda ["n"] counter)
    ∃ k σ, Session e 0 empty.root.2 k σ ∧
      (Resolved.evaluate 5 0 (e.resolve (some [])) k σ).Lexical e 0 (evaluate 5 0 e σ) ∧
      ∀ code : Expr, 0 < σ.size →
        (Resolved.evaluate 5 0 (code.resolve none) k σ).Lexical e 0 (evaluate 5 0 code σ) := by
  intro counter e
  have hσ : empty.root.2.WellFormed := wellFormed_empty.keeps_root.sealed
  have hs : 0 < empty.root.2.size := by decide
  have hends : (Resolved.evaluate 5 0 (Expr.resolve (some []) (.assignment (.variable "f")
      (.lambda ["n"] (.lambda [] (.assignment (.variable "n") (.variable "n"))))))
      .empty empty.root.2).final?.isSome := by decide +kernel
  obtain ⟨⟨k, σ⟩, hfinal⟩ := Option.isSome_iff_exists.mp hends
  have h : Session e 0 empty.root.2 k σ := .evaluate .start hfinal
  obtain ⟨hself, helse, -⟩ := scoping_lexical hσ hs h 5
  exact ⟨k, σ, h, hself, fun code ht => helse 0 code ht⟩

/-- A function that is made in the scope of an invocation leads to that scope.  If another name is
defined there from the outside, then invoking the function finds that one, and not the one that the
text says. -/
theorem Store.invoke_finds_inner :
    let e : Expr := .call (.lambda ["a"] (.lambda [] (.variable "b"))) [.boolean true]
    let σ₀ := empty.root.2.define 0 "b" (.string "outer")
    ∃ g k σ, Resolved.evaluate 3 0 (e.resolve (some [])) .empty σ₀ = .done (.function g) k σ ∧
      let τ := σ.define g.scope "b" (.string "inner")
      let r := Resolved.invoke 1 g [] k τ
      let o := invoke 1 g [] τ
      τ.get 0 "b" = .ok (.string "outer") ∧ (∃ k' υ, r = .done (.string "outer") k' υ) ∧
        (∃ υ, o = .done (.string "inner") υ) ∧ ¬r.Lexical e 0 o := by
  intro e σ₀
  refine ⟨_, _, _, rfl, ?_⟩
  intro τ r o
  have hr : ∃ k' υ, r = .done (.string "outer") k' υ :=
    ⟨_, _, Resolved.evaluate_variable 0 (u := 0) (by decide +kernel) rfl⟩
  have ho : ∃ υ, o = .done (.string "inner") υ :=
    ⟨_, congrArg (Outcome.ofExcept _) (get_of_owner? (o := 1) (by decide +kernel) rfl)⟩
  refine ⟨get_of_binding? rfl, hr, ho, ?_⟩
  obtain ⟨k', υ, hr⟩ := hr
  obtain ⟨υ', ho⟩ := ho
  intro hlexical
  have hsame : (Run.done (Value.string "outer") k' υ).outcome = .done (.string "inner") υ' := by
    rw [← hr, ← ho]
    exact hlexical.outcome
  simp [Run.outcome] at hsame

end ExprLang
