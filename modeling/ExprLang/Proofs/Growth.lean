import ExprLang.Eval.Basic
import ExprLang.Store.Lemmas
import Mathlib.Data.Nat.Basic
import Mathlib.Order.Basic
import Mathlib.Tactic.Tauto

/-! # How stores grow

What happens to a store only adds to it: there may be more scopes afterwards, and scopes that have
no parent may bind more names, but no scope goes away, moves or loses a name (`Store.Grows`).  In
such a store every name still belongs to the scope that it belonged to (`Store.Grows.owner?`).

Each operation has a lemma that says which scopes can gain a name by it. -/

namespace ExprLang.Store

variable {σ τ υ : Store} {s t : ScopeId} {x y : String} {v : Value}

/-! ### The names that a scope binds -/

/-- The scope itself binds the name. -/
def Binds (σ : Store) (t : ScopeId) (x : String) : Prop := (σ.binding? t x).isSome

instance : Decidable (σ.Binds t x) := inferInstanceAs (Decidable ((σ.binding? t x).isSome = true))

theorem Binds.lt (h : σ.Binds t x) : t < σ.size := by
  by_contra hnot
  have hnone : σ.scopes[t]? = none := Array.getElem?_eq_none (Nat.le_of_not_lt hnot)
  unfold Binds binding? at h
  rw [hnone] at h
  cases h

theorem lt_of_parent? {p : ScopeId} (h : σ.parent? t = some p) : t < σ.size := by
  by_contra hnot
  have hnone : σ.scopes[t]? = none := Array.getElem?_eq_none (Nat.le_of_not_lt hnot)
  unfold parent? at h
  rw [hnone] at h
  cases h

theorem binds_define :
    (σ.define s x v).Binds t y ↔ σ.Binds t y ∨ (t = s ∧ y = x ∧ t < σ.size) := by
  unfold Binds
  rw [binding?_define]
  split
  · next h => simp [h]
  · next h =>
      constructor
      · exact .inl
      · rintro (hbinds | ⟨rfl, rfl, hlt⟩)
        · exact hbinds
        · exact absurd ⟨rfl, rfl, hlt⟩ h

theorem lt_size_addScope (parent : Option ScopeId) : σ.size < (σ.addScope parent).2.size := by
  rw [size_addScope]
  exact Nat.lt_succ_self _

theorem binds_addScope {parent : Option ScopeId} :
    (σ.addScope parent).2.Binds t x ↔ σ.Binds t x := by
  unfold Binds
  rw [binding?_addScope]

@[simp] theorem size_defineAll (σ : Store) (s : ScopeId) (bs : Bindings) :
    (σ.defineAll s bs).size = σ.size := by
  induction bs generalizing σ with
  | nil => rfl
  | cons b bs ih => exact (ih _).trans (size_define ..)

@[simp] theorem parent?_defineAll (σ : Store) (s t : ScopeId) (bs : Bindings) :
    (σ.defineAll s bs).parent? t = σ.parent? t := by
  induction bs generalizing σ with
  | nil => rfl
  | cons b bs ih => exact (ih _).trans (parent?_define ..)

theorem binds_defineAll {bs : Bindings} :
    (σ.defineAll s bs).Binds t x ↔ σ.Binds t x ∨ (t = s ∧ x ∈ bs.map Prod.fst ∧ t < σ.size) := by
  induction bs generalizing σ with
  | nil => simp [defineAll]
  | cons b bs ih =>
      refine ih.trans ?_
      rw [binds_define, size_define, List.map_cons, List.mem_cons]
      tauto

theorem binding?_defineAll_of_ne {bs : Bindings} (hne : s ≠ t) :
    (σ.defineAll s bs).binding? t x = σ.binding? t x := by
  induction bs generalizing σ with
  | nil => rfl
  | cons b bs ih =>
      refine ih.trans ?_
      rw [binding?_define, if_neg fun hand => hne hand.1]

@[simp] theorem functions_defineAll (σ : Store) (s : ScopeId) (bs : Bindings) :
    (σ.defineAll s bs).functions = σ.functions := by
  induction bs generalizing σ with
  | nil => rfl
  | cons b bs ih => exact ih _

/-- A scope that does not exist binds nothing. -/
theorem binding?_eq_none (h : σ.size ≤ t) : σ.binding? t x = none := by
  by_contra hsome
  have hbinds : σ.Binds t x := Option.ne_none_iff_isSome.mp hsome
  exact absurd hbinds.lt (not_lt.mpr h)

theorem binding?_defineAll_cases {bs : Bindings} (h : (σ.defineAll s bs).binding? t x = some v) :
    σ.binding? t x = some v ∨ ∃ b ∈ bs, b.2 = v := by
  induction bs generalizing σ with
  | nil => exact .inl h
  | cons b bs ih =>
      rcases ih h with hdefine | ⟨b', hb', hv⟩
      · rw [binding?_define] at hdefine
        split at hdefine
        · cases hdefine
          exact .inr ⟨b, List.mem_cons_self, rfl⟩
        · exact .inl hdefine
      · exact .inr ⟨b', List.mem_cons_of_mem _ hb', hv⟩

/-- Parameters are bound to arguments, or undefined. -/
theorem forall_bindArguments {P : Value → Prop} (hundefined : P .undefined)
    (parameters : List String) {arguments : List Value} (harguments : ∀ v ∈ arguments, P v) :
    ∀ b ∈ bindArguments parameters arguments, P b.2 := by
  induction parameters generalizing arguments with
  | nil => nofun
  | cons p ps ih =>
      cases arguments with
      | nil => exact List.forall_mem_cons.mpr ⟨hundefined, ih nofun⟩
      | cons v vs =>
          obtain ⟨hv, hvs⟩ := List.forall_mem_cons.mp harguments
          exact List.forall_mem_cons.mpr ⟨hv, ih hvs⟩

theorem map_fst_bindArguments (parameters : List String) (arguments : List Value) :
    (bindArguments parameters arguments).map Prod.fst = parameters := by
  induction parameters generalizing arguments with
  | nil => rfl
  | cons p ps ih =>
      cases arguments with
      | nil => exact congrArg (p :: ·) (ih [])
      | cons v vs => exact congrArg (p :: ·) (ih vs)

theorem binding?_define_self (ht : t < σ.size) : (σ.define t x v).binding? t x = some v := by
  rw [binding?_define, if_pos ⟨rfl, rfl, ht⟩]

theorem binding?_defineAll_of_notMem {bs : Bindings} (hx : x ∉ bs.map Prod.fst) :
    (σ.defineAll s bs).binding? t x = σ.binding? t x := by
  induction bs generalizing σ with
  | nil => rfl
  | cons b bs ih =>
      obtain ⟨hne, hrest⟩ := not_or.mp (mt List.mem_cons.mpr hx)
      refine (ih hrest).trans ?_
      rw [binding?_define, if_neg fun hand => hne hand.2.1.symm]

/-- What is bound first stays if the name does not occur again. -/
theorem binding?_define_bindArguments {after : List String} (hx : x ∉ after) (ht : t < σ.size)
    (arguments : List Value) :
    ((σ.define t x v).defineAll t (bindArguments after arguments)).binding? t x = some v := by
  have hrest : x ∉ (bindArguments after arguments).map Prod.fst := by rwa [map_fst_bindArguments]
  rw [binding?_defineAll_of_notMem hrest, binding?_define_self ht]

/-- A parameter that does not occur again behind is bound to the argument in its place, and
undefined if there is none. -/
theorem binding?_bindArguments_getD {before after : List String} {arguments : List Value}
    (hx : x ∉ after) (ht : t < σ.size) :
    (σ.defineAll t (bindArguments (before ++ x :: after) arguments)).binding? t x =
      some (arguments.getD before.length .undefined) := by
  induction before generalizing σ arguments with
  | nil =>
      cases arguments with
      | nil => exact binding?_define_bindArguments hx ht []
      | cons w ws => exact binding?_define_bindArguments hx ht ws
  | cons p ps ih =>
      cases arguments with
      | nil => exact @ih _ [] (ht.trans_eq (size_define ..).symm)
      | cons w ws => exact ih (ht.trans_eq (size_define ..).symm)

/-- A parameter is bound to the argument in its place, unless the parameter occurs again behind. -/
theorem binding?_bindArguments {before after : List String} {arguments : List Value}
    (hx : x ∉ after) (hv : arguments[before.length]? = some v) (ht : t < σ.size) :
    (σ.defineAll t (bindArguments (before ++ x :: after) arguments)).binding? t x = some v := by
  rw [binding?_bindArguments_getD hx ht, List.getD_eq_getElem?_getD, hv, Option.getD_some]

/-! ### The scope of an invocation -/

section enter

variable (σ : Store) (f : Closure) (arguments : List Value)

theorem fst_enter : (σ.enter f arguments).1 = σ.size := rfl

theorem snd_enter :
    (σ.enter f arguments).2 =
      (σ.addScope (some f.scope)).2.defineAll σ.size (bindArguments f.parameters arguments) := rfl

@[simp] theorem size_enter : (σ.enter f arguments).2.size = σ.size + 1 := by
  simp [enter, nested]

theorem lt_size_enter : σ.size < (σ.enter f arguments).2.size := by
  rw [size_enter]
  exact Nat.lt_succ_self _

theorem parent?_enter :
    (σ.enter f arguments).2.parent? t = if t = σ.size then some f.scope else σ.parent? t := by
  simp [enter, nested, parent?_addScope]

theorem binds_enter :
    (σ.enter f arguments).2.Binds t x ↔ σ.Binds t x ∨ (t = σ.size ∧ x ∈ f.parameters) := by
  simp only [enter, nested, binds_defineAll, binds_addScope, map_fst_bindArguments, fst_addScope,
    size_addScope]
  constructor
  · rintro (hbinds | ⟨rfl, hx, -⟩)
    · exact .inl hbinds
    · exact .inr ⟨rfl, hx⟩
  · rintro (hbinds | ⟨rfl, hx⟩)
    · exact .inl hbinds
    · exact .inr ⟨rfl, hx, Nat.lt_succ_self _⟩

@[simp] theorem functions_enter : (σ.enter f arguments).2.functions = σ.functions :=
  functions_defineAll ..

theorem binding?_enter_of_lt (ht : t < σ.size) :
    (σ.enter f arguments).2.binding? t x = σ.binding? t x :=
  (binding?_defineAll_of_ne ht.ne').trans (binding?_addScope ..)

variable {σ f arguments} in
/-- Whatever an invocation finds bound was bound before, or is an argument or a missing one. -/
theorem binding?_enter_cases (h : (σ.enter f arguments).2.binding? t x = some v) :
    σ.binding? t x = some v ∨ v ∈ arguments ∨ v = .undefined := by
  rw [snd_enter] at h
  rcases binding?_defineAll_cases h with hold | ⟨b, hb, rfl⟩
  · rw [binding?_addScope] at hold
    exact .inl hold
  · have hall := forall_bindArguments (P := fun v => v ∈ arguments ∨ v = .undefined) (.inr rfl)
      f.parameters fun _ hv => .inl hv
    exact .inr (hall b hb)

end enter

/-! ### Owners -/

/-- A name belongs to the scope itself or else to whom it belongs in the scope around it. -/
theorem owner?_eq (σ : Store) (t : ScopeId) (x : String) :
    σ.owner? t x =
      if σ.Binds t x then some t
      else match σ.parent? t with
        | some p => if p < t then σ.owner? p x else none
        | none => none := by
  rw [owner?, chain, List.find?_cons]
  by_cases h : σ.Binds t x
  · rw [if_pos h, show (σ.binding? t x).isSome = true from h]
  · rw [if_neg h, Bool.eq_false_iff.mpr h]
    cases σ.parent? t with
    | none => rfl
    | some p =>
        dsimp only
        split <;> rfl

theorem binds_of_owner? {o : ScopeId} (h : σ.owner? t x = some o) : σ.Binds o x :=
  List.find?_some (p := fun t => (σ.binding? t x).isSome) h

theorem exists_of_get (h : σ.get t x = .ok v) :
    ∃ o, σ.owner? t x = some o ∧ σ.binding? o x = some v := by
  unfold get at h
  cases hv : σ.value? t x with
  | none =>
      rw [hv] at h
      cases h
  | some w =>
      rw [hv] at h
      cases h
      exact Option.bind_eq_some_iff.mp hv

theorem get_of_owner? {o : ScopeId} (ho : σ.owner? t x = some o) (hv : σ.binding? o x = some v) :
    σ.get t x = .ok v := by
  unfold get value?
  rw [ho, Option.bind_some, hv]

/-- What a scope binds itself is its own. -/
theorem get_of_binding? (hv : σ.binding? t x = some v) : σ.get t x = .ok v := by
  have hbinds : σ.Binds t x := Option.isSome_iff_exists.mpr ⟨v, hv⟩
  have ho : σ.owner? t x = some t := by rw [owner?_eq, if_pos hbinds]
  exact get_of_owner? ho hv

theorem eq_of_get_eq_error {e : EvalError} (h : σ.get t x = .error e) :
    e = .undefinedVariable x := by
  unfold get at h
  split at h <;> cases h
  rfl

/-- An assignment goes to the owner of the name, or else it stays where it is, which has no parent
then. -/
theorem target?_cases {t' : ScopeId} (h : σ.target? t x = some t') :
    σ.owner? t x = some t' ∨ (σ.owner? t x = none ∧ t' = t ∧ σ.parent? t = none) := by
  unfold target? at h
  cases ho : σ.owner? t x with
  | some o =>
      rw [ho] at h
      exact .inl h
  | none =>
      rw [ho] at h
      dsimp only at h
      split at h
      · cases h
      · next hparent =>
          cases h
          exact .inr ⟨rfl, rfl, by simpa [hasParent] using hparent⟩

theorem exists_of_assign (h : σ.assign s x v = .ok τ) :
    ∃ t, σ.target? s x = some t ∧ τ = σ.define t x v := by
  unfold assign at h
  split at h
  · next t htarget =>
      cases h
      exact ⟨t, htarget, rfl⟩
  · cases h

/-! ### Growth -/

/-- Every scope stays where it is and keeps its names.  Only scopes that are among the given ones
and have no parent may gain some. -/
structure Grows (may : ScopeId → Prop) (σ τ : Store) : Prop where
  size_le : σ.size ≤ τ.size
  parent? {t : ScopeId} : t < σ.size → τ.parent? t = σ.parent? t
  keeps {t : ScopeId} {x : String} : σ.Binds t x → τ.Binds t x
  gains {t : ScopeId} {x : String} :
    t < σ.size → τ.Binds t x → σ.Binds t x ∨ (may t ∧ σ.parent? t = none)

namespace Grows

variable {may may' : ScopeId → Prop}

theorem refl (may : ScopeId → Prop) (σ : Store) : Grows may σ σ where
  size_le := le_rfl
  parent? _ := rfl
  keeps h := h
  gains _ h := .inl h

theorem trans (h : Grows may σ τ) (h' : Grows may τ υ) : Grows may σ υ where
  size_le := h.size_le.trans h'.size_le
  parent? ht := by
    have hτ := ht.trans_le h.size_le
    rw [h'.parent? hτ, h.parent? ht]
  keeps hbinds := h'.keeps (h.keeps hbinds)
  gains ht hbinds := by
    have hτ := ht.trans_le h.size_le
    rcases h'.gains hτ hbinds with hbefore | ⟨hmay, hparent⟩
    · exact h.gains ht hbefore
    · rw [h.parent? ht] at hparent
      exact .inr ⟨hmay, hparent⟩

/-- Only scopes that are there already matter. -/
theorem mono (h : Grows may σ τ) (himp : ∀ {t}, t < σ.size → may t → may' t) : Grows may' σ τ where
  size_le := h.size_le
  parent? := h.parent?
  keeps := h.keeps
  gains ht hbinds := by
    rcases h.gains ht hbinds with hbefore | ⟨hmay, hparent⟩
    · exact .inl hbefore
    · exact .inr ⟨himp ht hmay, hparent⟩

/-- A scope inside another one binds what it did. -/
theorem binds_iff (h : Grows may σ τ) {p : ScopeId} (hp : σ.parent? t = some p) :
    τ.Binds t x ↔ σ.Binds t x := by
  constructor
  · intro hbinds
    rcases h.gains (lt_of_parent? hp) hbinds with hbefore | ⟨-, hroot⟩
    · exact hbefore
    · rw [hp] at hroot
      cases hroot
  · exact h.keeps

/-- **Names stay with their owners.**  No scope on the way to the owner of a name comes to bind it,
because all of them have parents. -/
theorem owner? (h : Grows may σ τ) {o : ScopeId} (ht : t < σ.size)
    (ho : σ.owner? t x = some o) : τ.owner? t x = some o := by
  induction t using Nat.strongRecOn with
  | _ t ih =>
    rw [owner?_eq] at ho ⊢
    by_cases hbinds : σ.Binds t x
    · rw [if_pos hbinds] at ho
      rwa [if_pos (h.keeps hbinds)]
    · rw [if_neg hbinds] at ho
      cases hp : σ.parent? t with
      | none =>
          rw [hp] at ho
          cases ho
      | some p =>
          -- It has a parent, so it does not bind the name now either.
          have hnot : ¬τ.Binds t x := fun hafter => hbinds ((h.binds_iff hp).mp hafter)
          rw [if_neg hnot, h.parent? ht, hp]
          rw [hp] at ho
          dsimp only at ho ⊢
          split at ho
          · next hlt =>
              rw [if_pos hlt]
              exact ih p hlt (hlt.trans ht) ho
          · cases ho

end Grows

/-! ### The operations -/

/-- A scope that binds the name already gains none. -/
theorem grows_define {may : ScopeId → Prop} (h : σ.Binds t x ∨ (may t ∧ σ.parent? t = none)) :
    Grows may σ (σ.define t x v) where
  size_le := (size_define ..).ge
  parent? _ := parent?_define ..
  keeps hbinds := binds_define.mpr (.inl hbinds)
  gains _ hbinds := by
    rcases binds_define.mp hbinds with hbefore | ⟨rfl, rfl, -⟩
    · exact .inl hbefore
    · exact h

/-- An assignment binds a name in its owner, or else in the scope that it comes from, which has no
parent then. -/
theorem grows_target? (h : σ.target? s x = some t) : Grows (· = s) σ (σ.define t x v) := by
  refine grows_define ?_
  rcases target?_cases h with ho | ⟨-, rfl, hparent⟩
  · exact .inl (binds_of_owner? ho)
  · exact .inr ⟨rfl, hparent⟩

theorem grows_assign (h : σ.assign s x v = .ok τ) : Grows (· = s) σ τ := by
  obtain ⟨t, htarget, rfl⟩ := exists_of_assign h
  exact grows_target? htarget

theorem grows_addScope {may : ScopeId → Prop} (parent : Option ScopeId) :
    Grows may σ (σ.addScope parent).2 where
  size_le := by
    rw [size_addScope]
    exact Nat.le_succ _
  parent? ht := by
    rw [parent?_addScope, if_neg ht.ne]
  keeps hbinds := binds_addScope.mpr hbinds
  gains _ hbinds := .inl (binds_addScope.mp hbinds)

theorem grows_close {may : ScopeId → Prop} (s : ScopeId) (parameters : List String) (body : Expr) :
    Grows may σ (σ.close s parameters body).2 where
  size_le := le_rfl
  parent? _ := rfl
  keeps hbinds := hbinds
  gains _ hbinds := .inl hbinds

theorem grows_enter {may : ScopeId → Prop} (f : Closure) (arguments : List Value) :
    Grows may σ (σ.enter f arguments).2 where
  size_le := by
    rw [size_enter]
    exact Nat.le_succ _
  parent? ht := by
    rw [parent?_enter, if_neg ht.ne]
  keeps hbinds := (binds_enter ..).mpr (.inl hbinds)
  gains ht hbinds := by
    rcases (binds_enter ..).mp hbinds with hbefore | ⟨rfl, -⟩
    · exact .inl hbefore
    · exact absurd ht (lt_irrefl _)

/-! ### Scopes for bodies -/

/-- The scope `u` lies in the scope `p` and binds exactly these names. -/
def Inside (σ : Store) (p u : ScopeId) (names : List String) : Prop :=
  σ.parent? u = some p ∧ ∀ x, σ.Binds u x ↔ x ∈ names

/-- The scope is one for the body of the function: it lies in the scope in which the function was
made, and binds exactly the parameters. -/
def Frames (σ : Store) (u : ScopeId) (f : Closure) : Prop := σ.Inside f.scope u f.parameters

theorem frames_enter (f : Closure) (arguments : List Value) :
    (σ.enter f arguments).2.Frames (σ.enter f arguments).1 f := by
  constructor
  · rw [parent?_enter, fst_enter, if_pos rfl]
  · intro x
    rw [binds_enter, fst_enter]
    constructor
    · rintro (hbinds | ⟨-, hx⟩)
      · exact absurd hbinds.lt (lt_irrefl _)
      · exact hx
    · exact fun hx => .inr ⟨rfl, hx⟩

namespace Inside

variable {p u : ScopeId} {names : List String}

theorem grows {may : ScopeId → Prop} (h : σ.Inside p u names) (hgrows : Grows may σ τ) :
    τ.Inside p u names := by
  obtain ⟨hparent, hbinds⟩ := h
  constructor
  · rw [hgrows.parent? (lt_of_parent? hparent), hparent]
  · intro x
    rw [hgrows.binds_iff hparent]
    exact hbinds x

/-- Names bound in other scopes do not matter. -/
theorem define_of_ne (h : σ.Inside p u names) (hne : t ≠ u) :
    (σ.define t x v).Inside p u names := by
  obtain ⟨hparent, hbinds⟩ := h
  constructor
  · rw [parent?_define, hparent]
  · intro y
    rw [← hbinds, binds_define]
    constructor
    · rintro (hbefore | ⟨heq, -⟩)
      · exact hbefore
      · exact absurd heq.symm hne
    · exact .inl

/-- A name bound in the scope itself comes to the others. -/
theorem define (h : σ.Inside p u names) : (σ.define u x v).Inside p u (x :: names) := by
  obtain ⟨hparent, hbinds⟩ := h
  constructor
  · rw [parent?_define, hparent]
  · intro y
    rw [List.mem_cons, ← hbinds, binds_define]
    constructor
    · rintro (hbefore | ⟨-, hy, -⟩)
      · exact .inr hbefore
      · exact .inl hy
    · rintro (hy | hbefore)
      · exact .inr ⟨rfl, hy, lt_of_parent? hparent⟩
      · exact .inl hbefore

/-- A name that is bound already may be bound anew. -/
theorem define_of_mem (h : σ.Inside p u names) (hx : x ∈ names) :
    (σ.define u x v).Inside p u names := by
  have hdefine : (σ.define u x v).Inside p u (x :: names) := h.define
  refine ⟨hdefine.1, fun y => ?_⟩
  rw [hdefine.2, List.mem_cons]
  exact or_iff_right_of_imp fun hy => hy ▸ hx

end Inside

end ExprLang.Store
