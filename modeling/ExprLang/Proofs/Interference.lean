import ExprLang.Proofs.Locality

/-! # Names that a program does not mention

Bindings of a name have no influence on programs that do not have the name in their code, nor reach
functions that do (`Store.evaluate_unmentioned`).  What is reached by way of a binding of the name
itself does not count, for it is not reached by such a program.

Two stores are the same except for bindings of `z` if they are the same when these are left out
(`Store.without`).  An evaluation that does not mention `z` does what it would do if they were
(`Store.evaluate_without`). -/

namespace ExprLang

variable {x z : String}

/-! ### Leaving a name out -/

/-- The bindings of other names. -/
def Bindings.without (z : String) (bs : Bindings) : Bindings := bs.filter fun b => b.1 ≠ z

theorem Bindings.get?_without (bs : Bindings) :
    (bs.without z).get? x = if x = z then none else bs.get? x := by
  unfold without
  induction bs with
  | nil => simp [get?]
  | cons b bs ih => grind [get?]

theorem Bindings.without_put (h : x ≠ z) (v : Value) (bs : Bindings) :
    (bs.put x v).without z = (bs.without z).put x v := by
  unfold without
  induction bs with
  | nil => simp [put, h]
  | cons b bs ih => grind [put]

theorem Bindings.without_put_self (v : Value) (bs : Bindings) :
    (bs.put z v).without z = bs.without z := by
  unfold without
  induction bs with
  | nil => simp [put]
  | cons b bs ih => grind [put]

/-- The scope with no bindings of the name. -/
def Scope.without (scope : Scope) (z : String) : Scope :=
  { scope with bindings := scope.bindings.without z }

/-- Changing one scope and leaving the name out go together if they do for the scope. -/
theorem map_without_modify {g g' : Scope → Scope}
    (h : ∀ scope, (g scope).without z = g' (scope.without z)) (scopes : Array Scope) (i : ℕ) :
    (scopes.modify i g).map (·.without z) = (scopes.map (·.without z)).modify i g' := by
  refine Array.ext_getElem? fun j => ?_
  simp only [Array.getElem?_map, Array.getElem?_modify]
  split
  · cases scopes[j]? with
    | none => rfl
    | some scope => exact congrArg some (h scope)
  · rfl

theorem modify_id (scopes : Array Scope) (i : ℕ) : scopes.modify i id = scopes := by
  refine Array.ext_getElem? fun j => ?_
  simp [Array.getElem?_modify]

namespace Store

/-- The store with no bindings of the name. -/
def without (σ : Store) (z : String) : Store :=
  { σ with scopes := σ.scopes.map fun scope => scope.without z }

variable {σ σ' : Store} {s t : ScopeId} {v : Value}

@[simp] theorem size_without : (σ.without z).size = σ.size := by
  simp only [size, without, Array.size_map]

@[simp] theorem parent?_without : (σ.without z).parent? t = σ.parent? t := by
  simp only [parent?, without, Array.getElem?_map]
  cases σ.scopes[t]? <;> rfl

theorem binding?_without :
    (σ.without z).binding? t x = if x = z then none else σ.binding? t x := by
  simp only [binding?, without, Array.getElem?_map]
  cases σ.scopes[t]? with
  | none => simp
  | some scope => exact Bindings.get?_without scope.bindings

theorem WellFormed.without (h : σ.WellFormed) (z : String) : (σ.without z).WellFormed where
  parent _ hp := by
    rw [parent?_without] at hp
    exact h.parent trivial hp
  bound _ hv := by
    rw [binding?_without] at hv
    split at hv
    · cases hv
    · exact (h.bound trivial hv).mono size_without.ge le_rfl
  fresh _ := trivial

/-! Other names are looked up and bound as before. -/

section others

variable (hx : x ≠ z)
include hx

theorem owner?_without : (σ.without z).owner? s x = σ.owner? s x := by
  have hchain : (σ.without z).chain s = σ.chain s := chain_congr s fun _ => parent?_without
  simp only [owner?, hchain, binding?_without, if_neg hx]

theorem get_without : (σ.without z).get s x = σ.get s x := by
  simp only [get, value?, owner?_without hx, binding?_without, if_neg hx]

theorem target?_without : (σ.without z).target? s x = σ.target? s x := by
  unfold target? hasParent
  rw [owner?_without hx, parent?_without]

theorem without_define : (σ.define t x v).without z = (σ.without z).define t x v := by
  let put (scope : Scope) : Scope := { scope with bindings := scope.bindings.put x v }
  have hput : ∀ scope, (put scope).without z = put (scope.without z) := by
    intro scope
    show Scope.mk scope.parent ((scope.bindings.put x v).without z) = _
    rw [Bindings.without_put hx]
    rfl
  unfold define without
  congr 1
  exact map_without_modify hput σ.scopes t

end others

/-- It does not matter how the name itself is bound. -/
theorem without_define_self : (σ.define t z v).without z = σ.without z := by
  let put (scope : Scope) : Scope := { scope with bindings := scope.bindings.put z v }
  have hput : ∀ scope, (put scope).without z = id (scope.without z) := by
    intro scope
    show Scope.mk scope.parent ((scope.bindings.put z v).without z) = _
    rw [Bindings.without_put_self]
    rfl
  unfold define without
  congr 1
  exact (map_without_modify hput σ.scopes t).trans (modify_id _ t)

theorem without_defineAll {bs : Bindings} (h : z ∉ bs.map Prod.fst) :
    (σ.defineAll t bs).without z = (σ.without z).defineAll t bs := by
  induction bs generalizing σ with
  | nil => rfl
  | cons b bs ih =>
      obtain ⟨hne, hrest⟩ := not_or.mp (mt List.mem_cons.mpr h)
      refine (ih hrest).trans ?_
      rw [without_define (Ne.symm hne)]
      rfl

theorem without_addScope (parent : Option ScopeId) :
    (σ.addScope parent).2.without z = ((σ.without z).addScope parent).2 := by
  simp only [addScope, without, Array.map_push]
  rfl

@[simp] theorem without_root : σ.root.2.without z = (σ.without z).root.2 := without_addScope none

@[simp] theorem without_empty : empty.without z = empty := by
  simp only [empty, without, List.map_toArray, List.map_nil]

theorem without_enter {f : Closure} (h : z ∉ f.parameters) (arguments : List Value) :
    (σ.enter f arguments).2.without z = ((σ.without z).enter f arguments).2 := by
  have hfst : z ∉ (bindArguments f.parameters arguments).map Prod.fst := by
    rwa [map_fst_bindArguments]
  rw [snd_enter, snd_enter, without_defineAll hfst, without_addScope, size_without]

end Store

/-- The outcome with no bindings of the name in the store. -/
def Outcome.without {α : Type} (o : Outcome α) (z : String) : Outcome α :=
  match o with
  | .done a σ => .done a (σ.without z)
  | .failed e σ => .failed e (σ.without z)
  | .unfinished => .unfinished

theorem Outcome.without_ofExcept {α : Type} (σ : Store) (r : Except EvalError α) :
    (ofExcept σ r).without z = ofExcept (σ.without z) r := by
  cases r <;> rfl

theorem Outcome.without_map {α β : Type} (g : α → β) (o : Outcome α) :
    (o.bind fun a σ => .done (g a) σ).without z = (o.without z).bind fun a σ => .done (g a) σ := by
  cases o <;> rfl

/-- Computations that go on alike from a value do so from an outcome. -/
theorem Outcome.without_bind {I : Invariant} {w : Stage} {α β : Type} {good : Stage → α → Prop}
    {events : List Event} {o o' : Outcome α} (heq : o.without z = o')
    (h : I.Ends good w events o') {next next' : α → Store → Outcome β}
    (hnext : ∀ {a τ}, I.Reaches w (w.since events (τ.without z)) →
      good (w.since events (τ.without z)) a → (next a τ).without z = next' a (τ.without z)) :
    (o.bind next).without z = o'.bind next' := by
  subst heq
  cases o with
  | done a τ =>
      cases h with
      | done hreaches ha => exact hnext hreaches ha
  | failed e τ => rfl
  | unfinished => rfl

/-! ### Code that does not mention the name -/

namespace Expr

/-- The name is not written in the expression. -/
def Unmentioned (z : String) (e : Expr) : Prop := z ∉ e.names

theorem mem_allNames {es : List Expr} {e : Expr} (he : e ∈ es) :
    ∀ y ∈ e.names, y ∈ allNames es := by
  intro y hy
  induction es with
  | nil => cases he
  | cons d es ih =>
      rw [allNames, List.mem_append]
      rcases List.mem_cons.mp he with rfl | he
      · exact .inl hy
      · exact .inr (ih he)

theorem hereditary_unmentioned (z : String) : Hereditary (Unmentioned z) where
  body h hz := h (List.mem_append_right _ hz)
  inner {e a} h ha hz := by
    refine h ?_
    cases ha with
    | argument hmem => exact List.mem_append_right _ (mem_allNames hmem z hz)
    | item hmem => exact mem_allNames hmem z hz
    | @test _ _ alternative | @consequent _ _ alternative =>
        cases alternative <;> simp [names, hz]
    | _ => simp [names, hz]

end Expr

section without

variable {R : ScopeId → Prop} {σ : Store} {s : ScopeId}

/-- Code that does not mention the name runs in the region. -/
abbrev Store.unmentioned (z : String) (R : ScopeId → Prop) : Invariant :=
  region (Expr.Unmentioned z) R fun _ => True

theorem Store.kept_unmentioned (z : String) (R : ScopeId → Prop) : (unmentioned z R).Kept :=
  kept_region (Expr.hereditary_unmentioned z) fun _ _ => trivial

section sequences

variable {fuel : ℕ} {past : List Event}
  (h : ∀ {past e σ}, (Store.unmentioned z R).holds ⟨past, σ.without z⟩ →
    (Store.unmentioned z R).code ⟨past, σ.without z⟩ s e →
      (evaluate fuel s e σ).without z = evaluate fuel s e (σ.without z))
include h

theorem without_evaluateAll {es : List Expr}
    (hholds : (Store.unmentioned z R).holds ⟨past, σ.without z⟩)
    (hcode : ∀ e ∈ es, (Store.unmentioned z R).code ⟨past, σ.without z⟩ s e) :
    (evaluateAll (evaluate fuel s) es σ).without z =
      evaluateAll (evaluate fuel s) es (σ.without z) := by
  have hkept := Store.kept_unmentioned z R
  induction es generalizing past σ with
  | nil => rfl
  | cons e es ih =>
      obtain ⟨he, hes⟩ := List.forall_mem_cons.mp hcode
      refine Outcome.without_bind (h hholds he) (hkept.evaluate fuel hholds he).ends ?_
      intro v τ hτ _
      rw [Outcome.without_map, ih hτ.holds fun e' he' => hkept.code_mono (hes e' he') hτ.le]

theorem without_evaluateLast {es : List Expr} {last : Value}
    (hholds : (Store.unmentioned z R).holds ⟨past, σ.without z⟩)
    (hcode : ∀ e ∈ es, (Store.unmentioned z R).code ⟨past, σ.without z⟩ s e) :
    (evaluateLast (evaluate fuel s) last es σ).without z =
      evaluateLast (evaluate fuel s) last es (σ.without z) := by
  have hkept := Store.kept_unmentioned z R
  induction es generalizing past σ last with
  | nil => rfl
  | cons e es ih =>
      obtain ⟨he, hes⟩ := List.forall_mem_cons.mp hcode
      refine Outcome.without_bind (h hholds he) (hkept.evaluate fuel hholds he).ends ?_
      intro v τ hτ _
      exact ih hτ.holds fun e' he' => hkept.code_mono (hes e' he') hτ.le

end sequences

/-- Code that does not mention a name does what it does where the name is not bound. -/
theorem Store.evaluate_without (fuel : ℕ) {past : List Event} {e : Expr}
    (h : (unmentioned z R).holds ⟨past, σ.without z⟩)
    (hcode : (unmentioned z R).code ⟨past, σ.without z⟩ s e) :
    (evaluate fuel s e σ).without z = evaluate fuel s e (σ.without z) := by
  have hkept := kept_unmentioned z R
  -- The body of a function is no part of the expression, so the induction is on the levels.
  induction fuel generalizing past s e σ with
  | zero => rfl
  | succ fuel ih =>
      have hall : ∀ {past e σ}, (unmentioned z R).holds ⟨past, σ.without z⟩ →
          (unmentioned z R).code ⟨past, σ.without z⟩ s e →
            (ExprLang.evaluate fuel s e σ).without z = ExprLang.evaluate fuel s e (σ.without z) :=
        fun h hcode => ih h hcode
      have hz : e.Unmentioned z := hcode.2.2
      match e with
      | .number x => rfl
      | .string t => rfl
      | .boolean b => rfl
      | .lambda parameters body => rfl
      | .variable x =>
          have hx : x ≠ z := fun heq => hz (heq ▸ List.mem_singleton_self x)
          rw [ExprLang.evaluate, ExprLang.evaluate, Outcome.without_ofExcept, get_without hx]
      | .call function arguments =>
          have hfunction := hkept.inner hcode .function
          refine Outcome.without_bind (hall h hfunction) (hkept.evaluate fuel h hfunction).ends ?_
          intro callee τ hτ hcallee
          have harguments : ∀ a ∈ arguments, (unmentioned z R).code _ s a := fun a ha =>
            hkept.code_mono (hkept.inner hcode (.argument ha)) hτ.le
          have hends := (hkept.sequence_all (hkept.evaluate fuel) hτ.holds harguments).ends
          refine Outcome.without_bind (without_evaluateAll hall hτ.holds harguments) hends ?_
          intro values υ hυ hvalues
          have hcallee := hkept.value_mono hcallee hυ.le
          cases callee with
          | function f =>
              have hf : z ∉ f.parameters := fun hmem =>
                hcallee.code rfl (List.mem_append_left _ hmem)
              -- The body is none that mentions the name, and no parameter of it is the name.
              obtain ⟨henter, hbody⟩ := hkept.enter hυ.holds hcallee hvalues
              show (ExprLang.evaluate fuel υ.size f.body (υ.enter f values).2).without z =
                ExprLang.evaluate fuel (υ.without z).size f.body ((υ.without z).enter f values).2
              have hholds := henter.holds
              unfold Stage.enter at hholds hbody
              dsimp only [Stage.since] at hholds hbody ⊢
              rw [← without_enter hf] at hholds hbody ⊢
              rw [size_without] at hbody ⊢
              exact ih hholds hbody
          | _ => rfl
      | .condition test consequent alternative =>
          have htest := hkept.inner hcode .test
          refine Outcome.without_bind (hall h htest) (hkept.evaluate fuel h htest).ends ?_
          intro v τ hτ _
          have hcode := hkept.code_mono hcode hτ.le
          split
          · exact hall hτ.holds (hkept.inner hcode .consequent)
          · cases alternative with
            | none => rfl
            | some e => exact hall hτ.holds (hkept.inner hcode .alternative)
      | .assignment target value =>
          rw [ExprLang.evaluate, ExprLang.evaluate]
          cases hx : target.name? with
          | none => rfl
          | some x =>
              obtain rfl := Expr.eq_variable_of_name? hx
              have hx : x ≠ z := fun heq =>
                hz (heq ▸ List.mem_append_left _ (List.mem_singleton_self x))
              have hvalue := hkept.inner hcode .value
              refine Outcome.without_bind (hall h hvalue) (hkept.evaluate fuel h hvalue).ends ?_
              intro v τ _ _
              rw [target?_without hx]
              cases τ.target? s x with
              | none => rfl
              | some t => rw [Outcome.without, without_define hx]
      | .binary op left right =>
          have hleft := hkept.inner hcode .left
          refine Outcome.without_bind (hall h hleft) (hkept.evaluate fuel h hleft).ends ?_
          intro a τ hτ _
          have hright := hkept.code_mono (hkept.inner hcode .right) hτ.le
          have hends := (hkept.evaluate fuel hτ.holds hright).ends
          refine Outcome.without_bind (hall hτ.holds hright) hends ?_
          intro b υ _ _
          exact Outcome.without_ofExcept ..
      | .program body =>
          exact without_evaluateLast hall h fun a ha => hkept.inner hcode (.item ha)

end without

namespace Store

variable {σ : Store} {s : ScopeId} {e : Expr}

theorem WellFormed.evaluate_without (hσ : σ.WellFormed) (hs : s < σ.size) (he : e.Unmentioned z)
    (hreach : (σ.without z).ReachesOnly (Expr.Unmentioned z) s) (fuel : ℕ) :
    (evaluate fuel s e σ).without z = evaluate fuel s e (σ.without z) := by
  let R := fun t => (σ.without z).Reaches s t ∨ (σ.without z).size ≤ t
  have hholds : (unmentioned z R).holds ⟨[], σ.without z⟩ := (hσ.without z).sealedFor hreach
  have hlt : s < (σ.without z).size := by rwa [size_without]
  exact Store.evaluate_without fuel hholds ⟨.inl .self, hlt, he⟩

/-- **Bindings that a program does not mention cannot influence it.**  In stores that are the same
except for bindings of the name, either both evaluations end or none does, and if they do, it is
with the same value or the same error, and in stores that are again the same except for these.  This
goes as well for stores that are the same, except for these, up to numbers. -/
theorem evaluate_unmentioned (hσ : σ.WellFormed) (hs : s < σ.size) (he : e.Unmentioned z)
    (hreach : (σ.without z).ReachesOnly (Expr.Unmentioned z) s) (fuel : ℕ) :
    (∀ σ', σ'.WellFormed → σ.without z = σ'.without z →
      (evaluate fuel s e σ).without z = (evaluate fuel s e σ').without z) ∧
    ∀ ρ σ' s', σ'.WellFormed → Isomorphic ρ (σ.without z) s (σ'.without z) s' →
      Outcome.Renamed ρ s s' ((evaluate fuel s e σ).without z)
        ((evaluate fuel s' e σ').without z) := by
  -- Each of the evaluations does what it does where the name is not bound.
  have hwithout := hσ.evaluate_without hs he hreach fuel
  constructor
  · intro σ' hσ' hsame
    have hs' : s < σ'.size := by rwa [← size_without (z := z), ← hsame, size_without]
    rw [hsame] at hreach
    rw [hwithout, hσ'.evaluate_without hs' he hreach, hsame]
  · intro ρ σ' s' hσ' h
    have hs' : s' < σ'.size := by
      have hlt := (h.scopes_exist h.start).2
      rwa [size_without] at hlt
    rw [hwithout, hσ'.evaluate_without hs' he (h.reachesOnly hreach)]
    exact h.evaluate (hσ.without z) (hσ'.without z) e fuel

theorem without_bindIdentity : (σ.bindIdentity s).without "z" = (σ.without "z").bindIdentity s := by
  unfold bindIdentity
  exact without_define (by decide)

/-- The function is invoked in a store in which the name is bound, and in two in which it is not,
one of them with a scope more. -/
theorem evaluate_unmentioned_call :
    let τ := empty.root.2.bindIdentity 0
    let σ := τ.define 0 "z" (.string "a")
    let σ' := empty.root.2.root.2.bindIdentity 1
    let ρ : Renaming := ⟨fun t t' => t = 0 ∧ t' = 1, fun i j => i = 0 ∧ j = 0⟩
    let e : Expr := .call (.variable "f") [.variable "f"]
    σ.WellFormed ∧ 0 < σ.size ∧ e.Unmentioned "z" ∧
      (σ.without "z").ReachesOnly (Expr.Unmentioned "z") 0 ∧
      τ.WellFormed ∧ σ.without "z" = τ.without "z" ∧
      (evaluate 3 0 e σ).without "z" = (evaluate 3 0 e τ).without "z" ∧
      σ'.WellFormed ∧ Isomorphic ρ (σ.without "z") 0 (σ'.without "z") 1 ∧
      Outcome.Renamed ρ 0 1 ((evaluate 3 0 e σ).without "z")
        ((evaluate 3 1 e σ').without "z") := by
  intro τ σ σ' ρ e
  have hroot : empty.root.2.WellFormed := wellFormed_empty.keeps_root.sealed
  have hroots : empty.root.2.root.2.WellFormed := hroot.keeps_root.sealed
  have hτ : τ.WellFormed := hroot.bindIdentity (by decide)
  have hstring : τ.Holds (fun _ => True) (.string "a") := nofun
  have hσ : σ.WellFormed := (hτ.keeps_define trivial hstring).sealed
  have hσ' : σ'.WellFormed := hroots.bindIdentity (by decide)
  have hs : 0 < σ.size := by decide
  have he : e.Unmentioned "z" := by
    unfold Expr.Unmentioned
    decide
  have hsame : σ.without "z" = τ.without "z" := without_define_self
  have hτz : τ.without "z" = τ := by simp [τ, without_bindIdentity]
  have hσz : σ'.without "z" = σ' := by simp [σ', without_bindIdentity]
  have hreach : (σ.without "z").ReachesOnly (Expr.Unmentioned "z") 0 := by
    rw [hsame, hτz]
    intro t x f _ hf
    cases eq_of_binding?_bindIdentity hf
    unfold Expr.Unmentioned
    decide
  have hiso : Isomorphic ρ (σ.without "z") 0 (σ'.without "z") 1 := by
    rw [hsame, hτz, hσz]
    exact isomorphic_bindIdentity
  obtain ⟨hequal, hrenamed⟩ := evaluate_unmentioned hσ hs he hreach 3
  exact ⟨hσ, hs, he, hreach, hτ, hsame, hequal τ hτ hsame, hσ', hiso,
    hrenamed ρ σ' 1 hσ' hiso⟩

end Store

end ExprLang
