import ExprLang.Store.Basic

/-! # What the operations on stores do

A store is looked at through `size`, `parent?` and `binding?`; the chain, the
owner and the value of a name follow from them.  Each operation has one lemma
for each of the three. -/

namespace ExprLang.Store

variable (σ τ : Store) (s t : ScopeId) (x y : String) (v : Value)

/-! ### Binding a name -/

@[simp] theorem size_define : (σ.define s x v).size = σ.size := by
  simp only [size, define, Array.size_modify]

@[simp] theorem parent?_define : (σ.define s x v).parent? t = σ.parent? t := by
  simp only [parent?, define, Array.getElem?_modify]
  split
  · cases σ.scopes[t]? <;> rfl
  · rfl

theorem binding?_define :
    (σ.define s x v).binding? t y =
      if s = t ∧ x = y ∧ t < σ.size then some v else σ.binding? t y := by
  simp only [binding?, define, Array.getElem?_modify, size]
  by_cases hs : s = t
  · by_cases ht : t < σ.scopes.size
    · simp only [hs, if_true, Array.getElem?_eq_getElem ht, Option.map_some, Option.bind_some,
        Bindings.get?_put, ht, and_true, true_and]
    · simp only [hs, if_true, Array.getElem?_eq_none (Nat.le_of_not_lt ht), ht, and_false,
        if_false, Option.map_none]
  · simp only [hs, if_false, false_and]

/-! ### Adding a scope -/

@[simp] theorem size_addScope (parent : Option ScopeId) :
    (σ.addScope parent).2.size = σ.size + 1 := by
  simp only [size, addScope, Array.size_push]

theorem fst_addScope (parent : Option ScopeId) : (σ.addScope parent).1 = σ.size := rfl

theorem parent?_addScope (parent : Option ScopeId) :
    (σ.addScope parent).2.parent? t = if t = σ.size then parent else σ.parent? t := by
  simp only [parent?, addScope, Array.getElem?_push, size]
  by_cases h : t = σ.scopes.size
  · simp only [h, if_true, Option.bind_some]
  · simp only [h, if_false]

theorem binding?_addScope (parent : Option ScopeId) :
    (σ.addScope parent).2.binding? t y = σ.binding? t y := by
  simp only [binding?, addScope, Array.getElem?_push]
  split
  · next h => simp only [h, Array.getElem?_size, Option.bind_some, Option.bind_none, Bindings.get?]
  · rfl

/-! ### Making a function -/

@[simp] theorem size_close (parameters : List String) (body : Expr) :
    (σ.close s parameters body).2.size = σ.size := rfl

@[simp] theorem parent?_close (parameters : List String) (body : Expr) :
    (σ.close s parameters body).2.parent? t = σ.parent? t := rfl

@[simp] theorem binding?_close (parameters : List String) (body : Expr) :
    (σ.close s parameters body).2.binding? t y = σ.binding? t y := rfl

/-! ### The walk outwards -/

variable {σ τ}

/-- The chain depends on the parents alone. -/
theorem chain_congr (h : ∀ t, σ.parent? t = τ.parent? t) : σ.chain s = τ.chain s := by
  induction s using Nat.strongRecOn with
  | _ s ih =>
    rw [chain, chain, h]
    cases τ.parent? s with
    | none => rfl
    | some p =>
      simp only
      split
      · next hp => rw [ih p hp]
      · rfl

end ExprLang.Store
