import ExprLang.Proofs.RegionCode
import ExprLang.Proofs.Simulation

/-! # Evaluation is local

From a scope one reaches those around it and those in which functions were made that are bound on
the way (`Store.Reaches`).  An evaluation depends on nothing else and changes nothing else
(`Store.evaluate_local`):

* It binds nothing in a scope that it does not reach, and all functions that it hands out or leaves
  bound were made in scopes that it reached, or in new ones.
* In another store in which the same is reached, up to the numbers of scopes and functions
  (`Store.Isomorphic`), it does the same, and the same is reached afterwards.

The first is an instance of `Store.Sealed.evaluate`, the second one of `Store.Matched.evaluate`. -/

namespace ExprLang

namespace Store

variable {σ σ' τ τ' : Store} {s s' t : ScopeId}

/-! ### What is reached -/

/-- One scope is reached from another through the scopes around and the functions bound. -/
inductive Reaches (σ : Store) (s : ScopeId) : ScopeId → Prop
  | self : Reaches σ s s
  | parent {t p} : Reaches σ s t → σ.parent? t = some p → Reaches σ s p
  | captured {t x f} : Reaches σ s t → σ.binding? t x = some (.function f) → Reaches σ s f.scope

/-- What is reached from a scope, together with all that does not exist yet, is sealed. -/
theorem WellFormed.sealed (h : σ.WellFormed) (s : ScopeId) :
    σ.Sealed fun t => σ.Reaches s t ∨ σ.size ≤ t where
  parent := by
    intro t p ht hp
    obtain ⟨-, hlt⟩ := h.parent trivial hp
    rcases ht with ht | hle
    · exact ⟨.inl (ht.parent hp), hlt⟩
    · exact absurd (lt_of_parent? hp) (not_lt.mpr hle)
  bound := by
    rintro t x v ht hv f rfl
    obtain ⟨-, hscope, hid⟩ := h.bound trivial hv f rfl
    rcases ht with ht | hle
    · exact ⟨.inl (ht.captured hv), hscope, hid⟩
    · rw [binding?_eq_none hle] at hv
      cases hv
  fresh := .inr

/-- Nothing outside of a sealed region is reached from inside. -/
theorem Sealed.reaches {R : ScopeId → Prop} (h : σ.Sealed R) (hs : R s) (ht : σ.Reaches s t) :
    R t := by
  induction ht with
  | self => exact hs
  | parent _ hp ih => exact (h.parent ih hp).1
  | captured _ hv ih => exact (h.bound ih hv _ rfl).1

/-- All functions that are bound in scopes reached were made of code of one kind. -/
def ReachesOnly (K : Expr → Prop) (σ : Store) (s : ScopeId) : Prop :=
  ∀ {t x f}, σ.Reaches s t → σ.binding? t x = some (.function f) → K f.lambda

theorem WellFormed.sealedFor {K : Expr → Prop} (h : σ.WellFormed) (hK : σ.ReachesOnly K s) :
    σ.SealedFor K fun t => σ.Reaches s t ∨ σ.size ≤ t where
  toSealed := h.sealed s
  code {t x f} ht hf := by
    rcases ht with ht | hnew
    · exact hK ht hf
    · rw [binding?_eq_none hnew] at hf
      cases hf

/-! ### What is changed and handed out -/

/-- What came of an evaluation in the scope is confined to what it reached, and to what is new. -/
structure Confined (σ : Store) (s : ScopeId) (values : List Value) (τ : Store) : Prop where
  /-- Nothing is bound in scopes that were not reached. -/
  outside {t : ScopeId} {x : String} : t < σ.size → ¬σ.Reaches s t → τ.binding? t x = σ.binding? t x
  /-- The functions handed out were made in scopes that were reached, or are new. -/
  held {f : Closure} :
    .function f ∈ values → σ.Reaches s f.scope ∨ (σ.size ≤ f.scope ∧ f.scope < τ.size)
  /-- So were the functions bound afterwards, in what was reached before or is now. -/
  bound {t : ScopeId} {x : String} {f : Closure} :
    σ.Reaches s t ∨ τ.Reaches s t → τ.binding? t x = some (.function f) →
      σ.Reaches s f.scope ∨ (σ.size ≤ f.scope ∧ f.scope < τ.size)

theorem Keeps.confined {values : List Value}
    (h : Keeps (fun t => σ.Reaches s t ∨ σ.size ≤ t) σ τ)
    (hvalues : ∀ v ∈ values, τ.Holds (fun t => σ.Reaches s t ∨ σ.size ≤ t) v) :
    σ.Confined s values τ := by
  have hmade : ∀ {v f}, τ.Holds (fun t => σ.Reaches s t ∨ σ.size ≤ t) v → v = .function f →
      σ.Reaches s f.scope ∨ (σ.size ≤ f.scope ∧ f.scope < τ.size) := by
    intro v f hv hf
    obtain ⟨hreach | hnew, hlt, -⟩ := hv f hf
    · exact .inl hreach
    · exact .inr ⟨hnew, hlt⟩
  refine ⟨?_, ?_, ?_⟩
  · intro t x ht hnot
    refine h.outside x ?_
    rintro (hreach | hnew)
    · exact hnot hreach
    · exact absurd ht (not_lt.mpr hnew)
  · exact fun hf => hmade (hvalues _ hf) rfl
  · rintro t x f (ht | ht) hf
    · exact hmade (h.sealed.bound (.inl ht) hf) rfl
    · exact hmade (h.sealed.bound (h.sealed.reaches (.inl .self) ht) hf) rfl

/-! ### The same up to numbers -/

end Store

/-- The functions and their scopes stand for each other, and the code is the same. -/
structure Closure.Renamed (ρ : Renaming) (f g : Closure) : Prop where
  functions : ρ.functions f.id g.id
  scopes : ρ.scopes f.scope g.scope
  parameters : f.parameters = g.parameters
  body : f.body = g.body

/-- The renaming the other way. -/
def Renaming.inverse (ρ : Renaming) : Renaming where
  scopes t t' := ρ.scopes t' t
  functions i j := ρ.functions j i

theorem Closure.Renamed.symm {ρ : Renaming} {f g : Closure} (h : f.Renamed ρ g) :
    g.Renamed ρ.inverse f :=
  ⟨h.functions, h.scopes, h.parameters.symm, h.body.symm⟩

/-- The values are the same but for the numbers of functions and their scopes. -/
abbrev Value.Renamed (ρ : Renaming) : Value → Value → Prop := Rel (Closure.Renamed ρ)

/-- The errors are the same but for the numbers in their operands. -/
abbrev EvalError.Renamed (ρ : Renaming) : EvalError → EvalError → Prop := Rel (Value.Renamed ρ) Eq

namespace Store

/-- The stores are the same but for the numbers of scopes and functions, as far as the renaming
goes. That is at least as far as one gets from the scopes `s` and `s'`. -/
structure Isomorphic (ρ : Renaming) (σ : Store) (s : ScopeId) (σ' : Store) (s' : ScopeId) :
    Prop where
  start : ρ.scopes s s'
  scopes_exist {t t'} : ρ.scopes t t' → t < σ.size ∧ t' < σ'.size
  functions_exist {i j} : ρ.functions i j → i < σ.functions ∧ j < σ'.functions
  scopes_one {t t' u u'} : ρ.scopes t t' → ρ.scopes u u' → (t = u ↔ t' = u')
  functions_one {i i' j j'} : ρ.functions i i' → ρ.functions j j' → (i = j ↔ i' = j')
  parent? {t t'} : ρ.scopes t t' → Option.Rel ρ.scopes (σ.parent? t) (σ'.parent? t')
  binding? {t t'} (x : String) :
    ρ.scopes t t' → Option.Rel (Value.Renamed ρ) (σ.binding? t x) (σ'.binding? t' x)

section isomorphic

variable {ρ : Renaming}

/-- What is reached in the one store stands for something that is reached in the other. -/
theorem Isomorphic.reaches (h : Isomorphic ρ σ s σ' s') (ht : σ.Reaches s t) :
    ∃ t', ρ.scopes t t' ∧ σ'.Reaches s' t' := by
  induction ht with
  | self => exact ⟨s', h.start, .self⟩
  | parent _ hp ih =>
      obtain ⟨t', hmatch, ht'⟩ := ih
      have hparent := h.parent? hmatch
      rw [hp] at hparent
      obtain ⟨p', hp', hmatch'⟩ := exists_of_rel_some hparent
      exact ⟨p', hmatch', ht'.parent hp'⟩
  | @captured t x f _ hf ih =>
      obtain ⟨t', hmatch, ht'⟩ := ih
      have hvalue := h.binding? x hmatch
      rw [hf] at hvalue
      obtain ⟨v', hv', hfunction⟩ := exists_of_rel_some hvalue
      cases hfunction with
      | function hfg => exact ⟨_, hfg.scopes, ht'.captured hv'⟩

/-- Stores that are the same one way are so the other way. -/
theorem Isomorphic.symm (h : Isomorphic ρ σ s σ' s') : Isomorphic ρ.inverse σ' s' σ s where
  start := h.start
  scopes_exist ht := (h.scopes_exist ht).symm
  functions_exist hi := (h.functions_exist hi).symm
  scopes_one ht hu := (h.scopes_one ht hu).symm
  functions_one hi hj := (h.functions_one hi hj).symm
  parent? ht := rel_symm id (h.parent? ht)
  binding? x ht := rel_symm (fun hv => hv.symm Closure.Renamed.symm) (h.binding? x ht)

theorem Isomorphic.reachesOnly {K : Expr → Prop} (h : Isomorphic ρ σ s σ' s')
    (hK : σ.ReachesOnly K s) : σ'.ReachesOnly K s' := by
  intro t' x g ht' hg
  obtain ⟨t, hmatch, ht⟩ := h.symm.reaches ht'
  have hvalue := h.symm.binding? x hmatch
  rw [hg] at hvalue
  obtain ⟨v, hv, hrenamed⟩ := exists_of_rel_some hvalue
  cases hrenamed with
  | function hgf =>
      have hcode := hK ht hv
      unfold Closure.lambda at hcode ⊢
      rwa [hgf.parameters, hgf.body]

/-- In well-formed stores the renaming is a matching in which names stand for themselves. -/
theorem Isomorphic.matched {R : Names} (hR : ∀ z, R z z) (h : Isomorphic ρ σ s σ' s')
    (hσ : σ.WellFormed) (hσ' : σ'.WellFormed) :
    Matched R { ρ with names := fun _ => Eq } σ σ' where
  scopes_exist := h.scopes_exist
  functions_exist := h.functions_exist
  scopes_one := h.scopes_one
  functions_one := h.functions_one
  scope {t t'} ht := {
    oneToOne := by
      rintro x _ x' _ rfl rfl
      rfl
    within := by
      rintro x _ rfl
      exact hR x
    parent? := h.parent? ht
    older := fun hp => (hσ.parent trivial hp).2
    older' := fun hp => (hσ'.parent trivial hp).2
    covers := fun _ => ⟨_, rfl⟩
    covers' := fun _ => ⟨_, rfl⟩
    binding? := by
      rintro x _ rfl
      refine rel_mono (fun hv => hv.imp fun {f g} hfg => ?_) (h.binding? x ht)
      refine ⟨hfg.functions, hfg.scopes, ?_⟩
      have hcode : f.lambda = g.lambda := congrArg₂ Expr.lambda hfg.parameters hfg.body
      rw [← hcode]
      exact .refl hR f.lambda fun _ _ => rfl
    outward := fun hxy _ _ => hxy
    root := fun hxy _ => hxy }

end isomorphic

section matched

variable {w : Matching}

/-- Where names stand for themselves only, functions that match have the same code. -/
theorem Matched.renamed (h : Matched Eq w σ σ') {v v' : Value} (hv : Value.Matches Eq w v v') :
    Value.Renamed w.toRenaming v v' := by
  refine hv.imp fun {f g} hfg => ?_
  have hcode : f.lambda = g.lambda := hfg.code.eq (h.scope hfg.scopes).within
  obtain ⟨hparameters, hbody⟩ := Expr.lambda.inj hcode
  exact ⟨hfg.functions, hfg.scopes, hparameters, hbody⟩

theorem Matched.renamedError (h : Matched Eq w σ σ') {e e' : EvalError}
    (he : EvalError.Matches Eq w e e') : EvalError.Renamed w.toRenaming e e' := by
  refine he.imp h.renamed ?_
  rintro _ _ ⟨ht, hmatch⟩
  rw [hmatch.eq (h.scope ht).within]

theorem Matched.isomorphic (h : Matched Eq w σ σ') (hs : w.scopes s s') :
    Isomorphic w.toRenaming σ s σ' s' where
  start := hs
  scopes_exist := h.scopes_exist
  functions_exist := h.functions_exist
  scopes_one := h.scopes_one
  functions_one := h.functions_one
  parent? ht := (h.scope ht).parent?
  binding? := by
    intro t t' x ht
    have hscope := h.scope ht
    -- A name that is bound on either side stands for itself.
    by_cases hbinds : σ.Binds t x
    · obtain ⟨y, hxy⟩ := hscope.covers hbinds
      obtain rfl := hscope.within hxy
      exact rel_mono h.renamed (hscope.binding? hxy)
    · by_cases hbinds' : σ'.Binds t' x
      · obtain ⟨y, hyx⟩ := hscope.covers' hbinds'
        obtain rfl := hscope.within hyx
        exact rel_mono h.renamed (hscope.binding? hyx)
      · rw [Option.not_isSome_iff_eq_none.mp hbinds, Option.not_isSome_iff_eq_none.mp hbinds']
        exact .none

end matched

end Store

/-! ### Locality -/

/-- The values that an evaluation hands out, and the store at its end, if there is one. -/
def Outcome.final? : Outcome Value → Option (List Value × Store)
  | .done v τ => some ([v], τ)
  | .failed e τ => some (e.operands, τ)
  | .unfinished => none

/-- Both evaluations end or none does.  If they do, it is with the same value or the same error, and
with the same reached from the scopes, up to a renaming that extends the given one. -/
inductive Outcome.Renamed (ρ : Renaming) (s s' : ScopeId) : Outcome Value → Outcome Value → Prop
  | done {ρ' v v' τ τ'} :
      ρ.Le ρ' → Store.Isomorphic ρ' τ s τ' s' → Value.Renamed ρ' v v' →
      Renamed ρ s s' (.done v τ) (.done v' τ')
  | failed {ρ' e e' τ τ'} :
      ρ.Le ρ' → Store.Isomorphic ρ' τ s τ' s' → EvalError.Renamed ρ' e e' →
      Renamed ρ s s' (.failed e τ) (.failed e' τ')
  | unfinished : Renamed ρ s s' .unfinished .unfinished

namespace Store

variable {σ σ' : Store} {s s' : ScopeId}

theorem WellFormed.confined (h : σ.WellFormed) (hs : s < σ.size) (e : Expr) {fuel : ℕ}
    {values : List Value} {τ : Store}
    (hend : (evaluate fuel s e σ).final? = some (values, τ)) : σ.Confined s values τ := by
  have hinside := (h.sealed s).evaluate fuel (.inl .self) hs e
  generalize ExprLang.evaluate fuel s e σ = o at hend hinside
  cases hinside with
  | done hkeeps hv =>
      cases hend
      exact hkeeps.confined (List.forall_mem_singleton.mpr hv)
  | failed hkeeps he =>
      cases hend
      exact hkeeps.confined he
  | unfinished => cases hend

theorem Isomorphic.evaluate {ρ : Renaming} (h : Isomorphic ρ σ s σ' s') (hσ : σ.WellFormed)
    (hσ' : σ'.WellFormed) (e : Expr) (fuel : ℕ) :
    Outcome.Renamed ρ s s' (evaluate fuel s e σ) (evaluate fuel s' e σ') := by
  have he : Expr.Matches Eq Eq e e := .refl (fun _ => rfl) e fun _ _ => rfl
  have houtcome := (h.matched (fun _ => rfl) hσ hσ').evaluate h.start he fuel
  generalize ExprLang.evaluate fuel s e σ = o, ExprLang.evaluate fuel s' e σ' = o' at houtcome ⊢
  cases houtcome with
  | done hle hτ hv =>
      exact .done hle.toLe (hτ.isomorphic (hle.scopes h.start)) (hτ.renamed hv)
  | failed hle hτ he =>
      exact .failed hle.toLe (hτ.isomorphic (hle.scopes h.start)) (hτ.renamedError he)
  | unfinished => exact .unfinished

/-- **Evaluation is local to what it can reach.**  What comes of it is confined to the scopes that
are reached from its own, and an evaluation from which the same is reached does the same. -/
theorem evaluate_local (hσ : σ.WellFormed) (hs : s < σ.size) (e : Expr) (fuel : ℕ) :
    (∀ values τ, (evaluate fuel s e σ).final? = some (values, τ) → σ.Confined s values τ) ∧
      ∀ (ρ : Renaming) (σ' : Store) (s' : ScopeId),
        σ'.WellFormed → Isomorphic ρ σ s σ' s' →
          Outcome.Renamed ρ s s' (evaluate fuel s e σ) (evaluate fuel s' e σ') :=
  ⟨fun _ _ hend => hσ.confined hs e hend, fun _ _ _ hσ' h => h.evaluate hσ hσ' e fuel⟩

/-- Binds `f` to a function that returns its argument. -/
def bindIdentity (σ : Store) (s : ScopeId) : Store :=
  let (f, σ) := σ.close s ["a"] (.variable "a")
  σ.define s "f" f

theorem WellFormed.bindIdentity (h : σ.WellFormed) (hs : s < σ.size) :
    (σ.bindIdentity s).WellFormed :=
  have hclose := h.keeps_close s ["a"] (.variable "a")
  (hclose.sealed.keeps_define trivial (Sealed.holds_close trivial hs _ _)).sealed

/-- Nothing else is bound. -/
theorem eq_of_binding?_bindIdentity {v : Value}
    (h : (empty.root.2.bindIdentity 0).binding? t x = some v) :
    v = .function ⟨0, ["a"], .variable "a", 0⟩ := by
  unfold Store.bindIdentity at h
  rw [binding?_define] at h
  split at h
  · exact (Option.some.inj h).symm
  · rw [binding?_close, root, binding?_addScope, binding?_eq_none (Nat.zero_le _)] at h
    cases h

theorem isomorphic_bindIdentity :
    Isomorphic ⟨fun t t' => t = 0 ∧ t' = 1, fun i j => i = 0 ∧ j = 0⟩
      (empty.root.2.bindIdentity 0) 0 (empty.root.2.root.2.bindIdentity 1) 1 where
  start := ⟨rfl, rfl⟩
  scopes_exist := by
    rintro _ _ ⟨rfl, rfl⟩
    decide
  functions_exist := by
    rintro _ _ ⟨rfl, rfl⟩
    decide
  scopes_one := by
    rintro _ _ _ _ ⟨rfl, rfl⟩ ⟨rfl, rfl⟩
    decide
  functions_one := by
    rintro _ _ _ _ ⟨rfl, rfl⟩ ⟨rfl, rfl⟩
    decide
  parent? := by
    rintro _ _ ⟨rfl, rfl⟩
    exact .none
  binding? := by
    rintro _ _ x ⟨rfl, rfl⟩
    refine rel_define .none (by decide) Iff.rfl (by decide) ?_
    exact .function ⟨⟨rfl, rfl⟩, ⟨rfl, rfl⟩, rfl, rfl⟩

/-- Scope 0 of one store and scope 1 of another, both with a function in it, that is invoked. -/
theorem evaluate_local_renumbered :
    let σ := empty.root.2.bindIdentity 0
    let σ' := empty.root.2.root.2.bindIdentity 1
    let ρ : Renaming := ⟨fun t t' => t = 0 ∧ t' = 1, fun i j => i = 0 ∧ j = 0⟩
    let e : Expr := .call (.variable "f") [.variable "f"]
    σ.WellFormed ∧ 0 < σ.size ∧ σ'.WellFormed ∧ Isomorphic ρ σ 0 σ' 1 ∧
      (∃ values τ, (evaluate 3 0 e σ).final? = some (values, τ) ∧ σ.Confined 0 values τ) ∧
      Outcome.Renamed ρ 0 1 (evaluate 3 0 e σ) (evaluate 3 1 e σ') := by
  intro σ σ' ρ e
  have hroot : empty.root.2.WellFormed := wellFormed_empty.keeps_root.sealed
  have hroots : empty.root.2.root.2.WellFormed := hroot.keeps_root.sealed
  have hσ : σ.WellFormed := hroot.bindIdentity (by decide)
  have hσ' : σ'.WellFormed := hroots.bindIdentity (by decide)
  have hlt : 0 < σ.size := by decide
  have hiso : Isomorphic ρ σ 0 σ' 1 := isomorphic_bindIdentity
  obtain ⟨hconfined, hrenamed⟩ := evaluate_local hσ hlt e 3
  refine ⟨hσ, hlt, hσ', hiso, ?_, hrenamed ρ σ' 1 hσ' hiso⟩
  have hends : (evaluate 3 0 (.call (.variable "f") [.variable "f"])
      (empty.root.2.bindIdentity 0)).final?.isSome := by decide +kernel
  obtain ⟨⟨values, τ⟩, hend⟩ := Option.isSome_iff_exists.mp hends
  exact ⟨values, τ, hend, hconfined values τ hend⟩

end Store

end ExprLang
