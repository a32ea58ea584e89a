import ExprLang.Proofs.Invariant
import ExprLang.Proofs.Matching

/-! # The code in a region

A region of a store may hold code of one kind only: all functions bound in it are made of lambdas of
that kind (`Store.SealedFor`).  If the kind is handed down to the parts of an expression, then an
evaluation of such code in such a region leaves the region so, and hands out such functions only
(`Store.kept_region`).  For code of any kind this says that evaluations stay in their region
(`Store.Sealed.evaluate`).

What an evaluation writes is told apart from where it stays.  If code of the kind assigns in certain
scopes only, then the other ones keep their bindings (`Store.Writes`). -/

namespace ExprLang

/-- What holds of an expression holds of its parts, and of the body of a lambda. -/
structure Expr.Hereditary (K : Expr → Prop) : Prop where
  inner {e a : Expr} : K e → e.Inner a → K a
  body {parameters : List String} {body : Expr} : K (.lambda parameters body) → K body

namespace Store

variable {σ τ υ : Store} {s t : ScopeId} {x : String} {v : Value} {K : Expr → Prop}
  {R may : ScopeId → Prop}

/-! ### Old scopes -/

/-- The later store has all that the earlier one has.  The scopes that were there lie where they
did, and if they are not among the given ones, then they bind what they did. -/
structure Writes (may : ScopeId → Prop) (σ τ : Store) : Prop where
  size_le : σ.size ≤ τ.size
  functions_le : σ.functions ≤ τ.functions
  parent? {t : ScopeId} : t < σ.size → τ.parent? t = σ.parent? t
  binding? {t : ScopeId} (x : String) : t < σ.size → ¬may t → τ.binding? t x = σ.binding? t x

theorem Writes.refl (may : ScopeId → Prop) (σ : Store) : Writes may σ σ where
  size_le := le_rfl
  functions_le := le_rfl
  parent? _ := rfl
  binding? _ _ _ := rfl

theorem Writes.trans (h : Writes may σ τ) (h' : Writes may τ υ) : Writes may σ υ where
  size_le := h.size_le.trans h'.size_le
  functions_le := h.functions_le.trans h'.functions_le
  parent? ht := (h'.parent? (ht.trans_le h.size_le)).trans (h.parent? ht)
  binding? x ht hnot := (h'.binding? x (ht.trans_le h.size_le) hnot).trans (h.binding? x ht hnot)

theorem writes_define (ht : may t) : Writes may σ (σ.define t x v) where
  size_le := (size_define ..).ge
  functions_le := le_rfl
  parent? _ := parent?_define ..
  binding? {u} y _ hnot := by
    rw [binding?_define, if_neg]
    rintro ⟨rfl, -, -⟩
    exact hnot ht

theorem writes_addScope (parent : Option ScopeId) : Writes may σ (σ.addScope parent).2 where
  size_le := by
    rw [size_addScope]
    exact Nat.le_succ _
  functions_le := le_rfl
  parent? ht := by rw [parent?_addScope, if_neg ht.ne]
  binding? _ _ _ := binding?_addScope ..

theorem writes_close (s : ScopeId) (parameters : List String) (body : Expr) :
    Writes may σ (σ.close s parameters body).2 where
  size_le := le_rfl
  functions_le := Nat.le_succ _
  parent? _ := rfl
  binding? _ _ _ := rfl

theorem writes_enter (f : Closure) (arguments : List Value) :
    Writes may σ (σ.enter f arguments).2 where
  size_le := by
    rw [size_enter]
    exact Nat.le_succ _
  functions_le := (functions_enter ..).ge
  parent? ht := by rw [parent?_enter, if_neg ht.ne]
  binding? _ ht _ := binding?_enter_of_lt _ _ _ ht

/-! ### Functions made of code of one kind -/

/-- The value is no function, or one of the region that was made of code of the kind. -/
structure Carries (K : Expr → Prop) (R : ScopeId → Prop) (σ : Store) (v : Value) : Prop where
  holds : σ.Holds R v
  code {f : Closure} : v = .function f → K f.lambda

theorem Carries.writes (h : σ.Carries K R v) (hwrites : Writes may σ τ) : τ.Carries K R v :=
  ⟨h.holds.mono hwrites.size_le hwrites.functions_le, h.code⟩

theorem carries_of_ne_function (h : ∀ f, v ≠ .function f) : σ.Carries K R v :=
  ⟨fun f hf => absurd hf (h f), fun {f} hf => absurd hf (h f)⟩

/-- The region is sealed, and the functions that are bound in it were made of code of the kind. -/
structure SealedFor (K : Expr → Prop) (R : ScopeId → Prop) (σ : Store) : Prop
    extends σ.Sealed R where
  code {t : ScopeId} {x : String} {f : Closure} :
    R t → σ.binding? t x = some (.function f) → K f.lambda

namespace SealedFor

variable (h : σ.SealedFor K R)
include h

theorem get (hs : R s) (hget : σ.get s x = .ok v) : σ.Carries K R v where
  holds := h.toSealed.get hs hget
  code := by
    rintro f rfl
    obtain ⟨o, ho, hv⟩ := exists_of_get hget
    exact h.code (h.owner? hs ho) hv

theorem define (ht : R t) (hv : σ.Carries K R v) : (σ.define t x v).SealedFor K R where
  toSealed := (h.keeps_define ht hv.holds).sealed
  code {u y f} hu hf := by
    rw [binding?_define] at hf
    split at hf
    · exact hv.code (Option.some.inj hf)
    · exact h.code hu hf

theorem close (s : ScopeId) (parameters : List String) (body : Expr) :
    (σ.close s parameters body).2.SealedFor K R where
  toSealed := (h.keeps_close s parameters body).sealed
  code hu hf := h.code hu hf

theorem enter {f : Closure} (hf : σ.Holds R (.function f)) {arguments : List Value}
    (harguments : ∀ v ∈ arguments, σ.Carries K R v) :
    (σ.enter f arguments).2.SealedFor K R where
  toSealed := (h.keeps_enter hf fun v hv => (harguments v hv).holds).sealed
  code hu hg := by
    rcases binding?_enter_cases hg with hold | hmem | heq
    · exact h.code hu hold
    · exact (harguments _ hmem).code rfl
    · cases heq

end SealedFor

/-! ### Evaluation -/

/-- Code of the kind runs in the region, and writes nothing to old scopes but the given ones. -/
def region (K : Expr → Prop) (R may : ScopeId → Prop) : Invariant where
  holds w := w.store.SealedFor K R
  value w v := w.store.Carries K R v
  code w s e := R s ∧ s < w.store.size ∧ K e
  le w w' := Writes may w.store w'.store

/-- **Code of one kind stays in its region.** -/
theorem kept_region (hK : Expr.Hereditary K)
    (hmay : ∀ {target value t}, K (.assignment target value) → R t → may t) :
    (region K R may).Kept where
  refl _ := .refl _ _
  trans h h' := h.trans h'
  value_mono h hle := h.writes hle
  code_mono := by
    rintro w w' s e ⟨hs, hlt, he⟩ hle
    exact ⟨hs, hlt.trans_le hle.size_le, he⟩
  inner := by
    rintro w s e a ⟨hs, hlt, he⟩ ha
    exact ⟨hs, hlt, hK.inner he ha⟩
  plain := by
    rintro w v (_ | _ | _) <;> exact carries_of_ne_function nofun
  empty _ := carries_of_ne_function nofun
  get h hcode hget := h.get hcode.1 hget
  begin h _ _ := ⟨h, .refl _ _⟩
  close {w s parameters body} h hcode := by
    obtain ⟨hs, hlt, he⟩ := hcode
    refine ⟨⟨h.close s parameters body, writes_close s parameters body⟩, ?_, ?_⟩
    · exact Sealed.holds_close hs hlt parameters body
    · rintro f ⟨⟩
      exact he
  define h hcode hv htarget := by
    obtain ⟨hs, -, he⟩ := hcode
    have ht := h.target? hs htarget
    exact ⟨h.define ht hv, writes_define (hmay he ht)⟩
  enter {w f arguments} h hf harguments := by
    have hlt := lt_size_enter w.store f arguments
    refine ⟨⟨h.enter hf.holds harguments, writes_enter f arguments⟩, h.fresh le_rfl, hlt, ?_⟩
    exact hK.body (hf.code rfl)

end Store

/-! ### Evaluations stay inside -/

/-- The computation stays in the region, and what it hands out is of the region too: the values of
an error, and the value of a computation as far as `good` says. -/
inductive Outcome.Inside {α : Type} (R : ScopeId → Prop) (good : Store → α → Prop) (σ : Store) :
    Outcome α → Prop
  | done {a τ} : σ.Keeps R τ → good τ a → Inside R good σ (.done a τ)
  | failed {e τ} :
      σ.Keeps R τ → (∀ v ∈ e.operands, τ.Holds R v) → Inside R good σ (.failed e τ)
  | unfinished : Inside R good σ .unfinished

namespace Store

theorem SealedFor.keeps (h : τ.SealedFor K R) (hσ : σ.Sealed R) (hwrites : Writes R σ τ) :
    Keeps R σ τ where
  sealed := h.toSealed
  size_le := hwrites.size_le
  functions_le := hwrites.functions_le
  outside {t} x ht := by
    -- All that is new belongs to the region.
    have hold : t < σ.size := not_le.mp fun hnew => ht (hσ.fresh hnew)
    exact hwrites.binding? x hold ht

/-- **Evaluations stay in their region.** -/
theorem Sealed.evaluate (h : σ.Sealed R) (fuel : ℕ) (hs : R s) (hlt : s < σ.size) (e : Expr) :
    Outcome.Inside R (·.Holds R) σ (ExprLang.evaluate fuel s e σ) := by
  let K : Expr → Prop := fun _ => True
  have hkept : (region K R R).Kept :=
    kept_region ⟨fun _ _ => trivial, fun _ => trivial⟩ fun _ ht => ht
  have hholds : (region K R R).holds ⟨[], σ⟩ := ⟨h, fun _ _ => trivial⟩
  have hcode : (region K R R).code ⟨[], σ⟩ s e := ⟨hs, hlt, trivial⟩
  have hends := (hkept.evaluate fuel hholds hcode).ends
  generalize ExprLang.evaluate fuel s e σ = o at hends ⊢
  cases hends with
  | done hreaches hv => exact .done (hreaches.holds.keeps h hreaches.le) hv.holds
  | failed hreaches he =>
      exact .failed (hreaches.holds.keeps h hreaches.le) fun v hv => (he v hv).holds
  | unfinished => exact .unfinished

/-! ### The region of all scopes -/

/-- Whatever there is exists, and stays. -/
abbrev existing : Invariant := region (fun _ => True) (fun _ => True) fun _ => True

theorem kept_existing : existing.Kept :=
  kept_region ⟨fun _ _ => trivial, fun _ => trivial⟩ fun _ _ => trivial

theorem WellFormed.existing (h : σ.WellFormed) (past : List Event) : existing.holds ⟨past, σ⟩ :=
  ⟨h, fun _ _ => trivial⟩

/-- Evaluations leave well-formed stores behind. -/
theorem WellFormed.of_evaluate (h : σ.WellFormed) {fuel : ℕ} {e : Expr} (hs : s < σ.size)
    (hend : (ExprLang.evaluate fuel s e σ).store? = some τ) : τ.WellFormed := by
  have hguards := kept_existing.evaluate (e := e) fuel (h.existing []) ⟨trivial, hs, trivial⟩
  exact (hguards.ends.reaches hend).holds.toSealed

end Store

end ExprLang
