import ExprLang.Proofs.Growth

/-! # Regions of a store

A region is a set of scopes that nothing in it leads out of: the scope around one of its scopes
belongs to it, and so does every scope in which a function that one of them binds was made
(`Store.Sealed`).  New scopes belong to every region.

What is done in a region stays inside: it leaves the region sealed and binds nothing in any other
scope (`Store.Keeps`).

The region of all scopes says that a store is well formed: nothing in it refers to a scope or a
function that does not exist, and every scope lies in an older one (`Store.WellFormed`). -/

namespace ExprLang

/-! ### What operations hand out -/

/-- The values that an error carries. -/
def EvalError.operands : EvalError → List Value
  | .nonNumerics a b | .nonAddable a b | .nonComparable a b => [a, b]
  | .invalidCallee f => [f]
  | .undefinedVariable _ | .divideByZero | .invalidAssignment _ => []

/-- The value is a number, a string or a truth value. -/
inductive Value.Plain : Value → Prop
  | number {x} : Plain (.number x)
  | string {s} : Plain (.string s)
  | boolean {b} : Plain (.boolean b)

section operations

variable {op : BinaryOperator} {a b v : Value} {e : EvalError}

/-- What an operation computes is one of its operands or plain; no operation makes a function. -/
theorem BinaryOperator.compute_eq_ok (h : op.compute a b = .ok v) : v = a ∨ v = b ∨ v.Plain := by
  cases op <;>
    simp only [compute, Value.logicalOr, Value.logicalAnd, Value.add, Value.subtract,
      Value.multiply, Value.divide, Value.remainder, Value.onNumbers, Value.less, Value.lessEqual,
      Value.greater, Value.greaterEqual, Value.compareIs, Value.compare] at h <;>
    grind [Except.map, Value.Plain]

/-- An operation that fails carries its operands. -/
theorem BinaryOperator.compute_eq_error (h : op.compute a b = .error e) :
    ∀ u ∈ e.operands, u = a ∨ u = b := by
  cases op <;>
    simp only [compute, Value.logicalOr, Value.logicalAnd, Value.add, Value.subtract,
      Value.multiply, Value.divide, Value.remainder, Value.onNumbers, Value.less, Value.lessEqual,
      Value.greater, Value.greaterEqual, Value.compareIs, Value.compare] at h <;>
    grind [Except.map, EvalError.operands]

/-- What holds of both operands and of all plain values holds of the result. -/
theorem BinaryOperator.of_compute_eq_ok {P : Value → Prop} (h : op.compute a b = .ok v) (ha : P a)
    (hb : P b) (hplain : v.Plain → P v) : P v := by
  rcases compute_eq_ok h with rfl | rfl | hv
  · exact ha
  · exact hb
  · exact hplain hv

theorem BinaryOperator.of_compute_eq_error {P : Value → Prop} (h : op.compute a b = .error e)
    (ha : P a) (hb : P b) : ∀ u ∈ e.operands, P u := by
  intro u hu
  rcases compute_eq_error h u hu with rfl | rfl
  · exact ha
  · exact hb

end operations

namespace Store

variable {σ τ υ : Store} {s t : ScopeId} {x y : String} {v : Value} {R : ScopeId → Prop}

/-! ### Sealed regions -/

/-- The value is no function, or one that exists and was made in the region. -/
def Holds (R : ScopeId → Prop) (σ : Store) (v : Value) : Prop :=
  ∀ f, v = .function f → R f.scope ∧ f.scope < σ.size ∧ f.id < σ.functions

theorem Holds.mono (h : σ.Holds R v) (hsize : σ.size ≤ τ.size)
    (hfunctions : σ.functions ≤ τ.functions) : τ.Holds R v := by
  intro f hf
  obtain ⟨hR, hscope, hid⟩ := h f hf
  exact ⟨hR, hscope.trans_le hsize, hid.trans_le hfunctions⟩

/-- Nothing in the region leads out of it, and every new scope belongs to it. -/
structure Sealed (R : ScopeId → Prop) (σ : Store) : Prop where
  parent {t p : ScopeId} : R t → σ.parent? t = some p → R p ∧ p < t
  bound {t : ScopeId} {x : String} {v : Value} : R t → σ.binding? t x = some v → σ.Holds R v
  fresh {t : ScopeId} : σ.size ≤ t → R t

/-- Every scope lies in an older one, and every function that is bound exists, as does the scope in
which it was made. -/
abbrev WellFormed (σ : Store) : Prop := σ.Sealed fun _ => True

theorem wellFormed_empty : empty.WellFormed where
  parent _ hp := absurd (lt_of_parent? hp) (Nat.not_lt_zero _)
  bound _ hv := by
    rw [binding?_eq_none (Nat.zero_le _)] at hv
    cases hv
  fresh _ := trivial

/-- The later store has all that the earlier one has, the region is sealed, and outside of it
nothing has been bound. -/
structure Keeps (R : ScopeId → Prop) (σ τ : Store) : Prop where
  sealed : τ.Sealed R
  size_le : σ.size ≤ τ.size
  functions_le : σ.functions ≤ τ.functions
  outside {t : ScopeId} (x : String) : ¬R t → τ.binding? t x = σ.binding? t x

theorem Keeps.refl (h : σ.Sealed R) : Keeps R σ σ where
  sealed := h
  size_le := le_rfl
  functions_le := le_rfl
  outside _ _ := rfl

theorem Keeps.trans (h : Keeps R σ τ) (h' : Keeps R τ υ) : Keeps R σ υ where
  sealed := h'.sealed
  size_le := h.size_le.trans h'.size_le
  functions_le := h.functions_le.trans h'.functions_le
  outside x ht := (h'.outside x ht).trans (h.outside x ht)

theorem Holds.keeps (h : σ.Holds R v) (hkeeps : Keeps R σ τ) : τ.Holds R v :=
  h.mono hkeeps.size_le hkeeps.functions_le

/-! ### Looking names up -/

namespace Sealed

theorem owner? (h : σ.Sealed R) {o : ScopeId} (hs : R s) (ho : σ.owner? s x = some o) : R o := by
  induction s using Nat.strongRecOn with
  | _ s ih =>
    rw [owner?_eq] at ho
    by_cases hbinds : σ.Binds s x
    · rw [if_pos hbinds] at ho
      cases ho
      exact hs
    · rw [if_neg hbinds] at ho
      cases hp : σ.parent? s with
      | none =>
          rw [hp] at ho
          cases ho
      | some p =>
          obtain ⟨hp', hlt⟩ := h.parent hs hp
          rw [hp] at ho
          dsimp only at ho
          rw [if_pos hlt] at ho
          exact ih p hlt hp' ho

theorem get (h : σ.Sealed R) (hs : R s) (hget : σ.get s x = .ok v) : σ.Holds R v := by
  obtain ⟨o, ho, hv⟩ := exists_of_get hget
  exact h.bound (h.owner? hs ho) hv

theorem target? (h : σ.Sealed R) (hs : R s) (ht : σ.target? s x = some t) : R t := by
  rcases target?_cases ht with ho | ⟨-, rfl, -⟩
  · exact h.owner? hs ho
  · exact hs

/-! ### Changing a store -/

theorem keeps_define (h : σ.Sealed R) (ht : R t) (hv : σ.Holds R v) :
    Keeps R σ (σ.define t x v) where
  sealed := {
    parent := by
      intro u p hu hp
      rw [parent?_define] at hp
      exact h.parent hu hp
    bound := by
      intro u y w hu hw
      have hsize : σ.size ≤ (σ.define t x v).size := (size_define ..).ge
      rw [binding?_define] at hw
      split at hw
      · cases hw
        exact hv.mono hsize le_rfl
      · exact (h.bound hu hw).mono hsize le_rfl
    fresh := by
      intro u hu
      rw [size_define] at hu
      exact h.fresh hu }
  size_le := (size_define ..).ge
  functions_le := le_rfl
  outside {u} y hu := by
    rw [binding?_define, if_neg]
    rintro ⟨rfl, -, -⟩
    exact hu ht

theorem keeps_defineAll (h : σ.Sealed R) (ht : R t) {bs : Bindings}
    (hbs : ∀ b ∈ bs, σ.Holds R b.2) : Keeps R σ (σ.defineAll t bs) := by
  induction bs generalizing σ with
  | nil => exact .refl h
  | cons b bs ih =>
      obtain ⟨hb, hbs⟩ := List.forall_mem_cons.mp hbs
      have hdefine := h.keeps_define (x := b.1) ht hb
      exact hdefine.trans (ih hdefine.sealed fun b' hb' => (hbs b' hb').keeps hdefine)

theorem keeps_addScope (h : σ.Sealed R) {parent : Option ScopeId}
    (hparent : ∀ p, parent = some p → R p ∧ p < σ.size) : Keeps R σ (σ.addScope parent).2 where
  sealed := {
    parent := by
      intro u q hu hq
      rw [parent?_addScope] at hq
      split at hq
      · next heq => exact heq ▸ hparent q hq
      · exact h.parent hu hq
    bound := by
      intro u y w hu hw
      rw [binding?_addScope] at hw
      refine (h.bound hu hw).mono ?_ le_rfl
      rw [size_addScope]
      exact Nat.le_succ _
    fresh := by
      intro u hu
      rw [size_addScope] at hu
      exact h.fresh (Nat.le_of_succ_le hu) }
  size_le := by
    rw [size_addScope]
    exact Nat.le_succ _
  functions_le := le_rfl
  outside y _ := binding?_addScope ..

theorem keeps_root (h : σ.Sealed R) : Keeps R σ σ.root.2 := h.keeps_addScope nofun

theorem keeps_close (h : σ.Sealed R) (s : ScopeId) (parameters : List String) (body : Expr) :
    Keeps R σ (σ.close s parameters body).2 where
  sealed := {
    parent := h.parent
    bound := fun hu hw => (h.bound hu hw).mono le_rfl (Nat.le_succ _)
    fresh := h.fresh }
  size_le := le_rfl
  functions_le := Nat.le_succ _
  outside _ _ := rfl

theorem holds_close (hs : R s) (hlt : s < σ.size) (parameters : List String) (body : Expr) :
    (σ.close s parameters body).2.Holds R (σ.close s parameters body).1 := by
  rintro f ⟨⟩
  exact ⟨hs, hlt, Nat.lt_succ_self _⟩

theorem keeps_enter (h : σ.Sealed R) {f : Closure} (hf : σ.Holds R (.function f))
    {arguments : List Value} (harguments : ∀ v ∈ arguments, σ.Holds R v) :
    Keeps R σ (σ.enter f arguments).2 := by
  obtain ⟨hR, hlt, -⟩ := hf f rfl
  have hparent : ∀ p, some f.scope = some p → R p ∧ p < σ.size := by
    rintro _ ⟨⟩
    exact ⟨hR, hlt⟩
  have hadd := h.keeps_addScope hparent
  refine hadd.trans (hadd.sealed.keeps_defineAll (h.fresh le_rfl) ?_)
  exact forall_bindArguments nofun f.parameters fun v hv => (harguments v hv).keeps hadd

end Sealed

end Store

end ExprLang
