import ExprLang.Proofs.Locality

/-! # Names of parameters do not matter

A parameter of a lambda can be given another name, one that is written nowhere in the program
(`Expr.RenamesParameter`), and the program does what it did (`Store.evaluate_respelled`): it ends if
and only if it did, with the same value or error and the same bindings, except that the code of
functions and the texts of expressions have the new name where they had the old one.

It is an instance of `Store.Matched.evaluate`.  In the beginning everything stands for itself.  As
seen from the body of the lambda the new name stands for the old one, and everywhere else each name
stands for itself. -/

namespace ExprLang

variable {x y z : String}

/-! ### Renaming a parameter -/

/-- The name, or `y` in place of `x`. -/
def respell (x y z : String) : String := if z = x then y else z

theorem respell_of_ne (h : z ≠ x) : respell x y z = z := if_neg h

namespace Expr

mutual

/-- The expression with `y` in place of `x` where no lambda inside of it has `x` as a parameter. -/
def rename (x y : String) : Expr → Expr
  | .number n => .number n
  | .string s => .string s
  | .boolean b => .boolean b
  | .variable z => .variable (respell x y z)
  | .lambda parameters body =>
    if x ∈ parameters then .lambda parameters body else .lambda parameters (body.rename x y)
  | .call function arguments => .call (function.rename x y) (renameAll x y arguments)
  | .condition test consequent none => .condition (test.rename x y) (consequent.rename x y) none
  | .condition test consequent (some alternative) =>
    .condition (test.rename x y) (consequent.rename x y) (some (alternative.rename x y))
  | .assignment target value => .assignment (target.rename x y) (value.rename x y)
  | .binary op left right => .binary op (left.rename x y) (right.rename x y)
  | .program body => .program (renameAll x y body)

/-- The expressions with `y` in place of `x`. -/
def renameAll (x y : String) : List Expr → List Expr
  | [] => []
  | e :: es => e.rename x y :: renameAll x y es

end

/-- The second expression is the first one with `y` in place of `x` in the parameters of one of its
lambdas, and where the body of the lambda refers to it. -/
inductive RenamesParameter (x y : String) : Expr → Expr → Prop
  | here {parameters body} :
      x ∈ parameters →
      RenamesParameter x y (.lambda parameters body)
        (.lambda (parameters.map (respell x y)) (body.rename x y))
  | body {parameters e e'} :
      RenamesParameter x y e e' →
      RenamesParameter x y (.lambda parameters e) (.lambda parameters e')
  | function {e e' arguments} :
      RenamesParameter x y e e' → RenamesParameter x y (.call e arguments) (.call e' arguments)
  | argument {function before e e' after} :
      RenamesParameter x y e e' →
      RenamesParameter x y (.call function (before ++ e :: after))
        (.call function (before ++ e' :: after))
  | test {e e' consequent alternative} :
      RenamesParameter x y e e' →
      RenamesParameter x y (.condition e consequent alternative)
        (.condition e' consequent alternative)
  | consequent {test e e' alternative} :
      RenamesParameter x y e e' →
      RenamesParameter x y (.condition test e alternative) (.condition test e' alternative)
  | alternative {test consequent e e'} :
      RenamesParameter x y e e' →
      RenamesParameter x y (.condition test consequent (some e))
        (.condition test consequent (some e'))
  | target {e e' value} :
      RenamesParameter x y e e' → RenamesParameter x y (.assignment e value) (.assignment e' value)
  | value {target e e'} :
      RenamesParameter x y e e' →
      RenamesParameter x y (.assignment target e) (.assignment target e')
  | left {op e e' right} :
      RenamesParameter x y e e' → RenamesParameter x y (.binary op e right) (.binary op e' right)
  | right {op left e e'} :
      RenamesParameter x y e e' → RenamesParameter x y (.binary op left e) (.binary op left e')
  | item {before e e' after} :
      RenamesParameter x y e e' →
      RenamesParameter x y (.program (before ++ e :: after)) (.program (before ++ e' :: after))

end Expr

/-! ### Renamed expressions match -/

/-- The name is the same, or `y` in place of `x`. -/
def Names.Respelled (x y : String) : Names := fun a b => b = a ∨ (a = x ∧ b = y)

theorem Names.Respelled.refl (z : String) : Respelled x y z z := .inl rfl

theorem Names.respelled (x y z : String) : Respelled x y z (respell x y z) := by
  unfold respell
  split
  · next h => exact .inr ⟨h, rfl⟩
  · exact .refl z

section names

variable {N : Names} {ps : List String}

theorem mem_zip_respell {a b : String} (h : (a, b) ∈ ps.zip (ps.map (respell x y))) :
    a ∈ ps ∧ b = respell x y a := by
  have hall : List.Forall₂ (fun a b => b = respell x y a) ps (ps.map (respell x y)) :=
    List.forall₂_map_right_iff.mpr (List.forall₂_same.mpr fun _ _ => rfl)
  exact ⟨(List.of_mem_zip h).1, List.forall₂_zip hall h⟩

/-- No two parameters become one, because the new name is none of them. -/
theorem Names.parameters_respell (hy : y ∉ ps) :
    (Respelled x y).Parameters ps (ps.map (respell x y)) where
  allowed := List.forall₂_map_right_iff.mpr (List.forall₂_same.mpr fun z _ => respelled x y z)
  oneToOne := by
    intro a b a' b' h h'
    obtain ⟨ha, rfl⟩ := mem_zip_respell h
    obtain ⟨ha', rfl⟩ := mem_zip_respell h'
    have hay := ne_of_mem_of_not_mem ha hy
    have hay' := ne_of_mem_of_not_mem ha' hy
    unfold respell
    grind

/-- A parameter stands for itself with its new name. -/
theorem Names.under_respell (hz : z ∈ ps) :
    N.Under ps (ps.map (respell x y)) z (respell x y z) := by
  have hall : List.Forall₂ (fun a b => b = respell x y a) ps (ps.map (respell x y)) :=
    List.forall₂_map_right_iff.mpr (List.forall₂_same.mpr fun _ _ => rfl)
  obtain ⟨b, hmem⟩ := exists_mem_zip hall hz
  obtain ⟨-, rfl⟩ := mem_zip_respell hmem
  exact .place hmem

/-- Names that are no parameters are not bound by the lambda afterwards either. -/
theorem Names.under_respell_of_notMem (hz : z ∉ ps) (hzy : z ≠ y) (hN : N z z) :
    N.Under ps (ps.map (respell x y)) z z := by
  refine .outside hz (fun hmem => ?_) hN
  obtain ⟨a, ha, heq⟩ := List.mem_map.mp hmem
  unfold respell at heq
  split at heq
  · exact hzy heq.symm
  · exact hz (heq ▸ ha)

/-- Where `x` is no parameter, it gets its new name below a lambda as well. -/
theorem Names.under_respell_of_free (hx : x ∉ ps) (hy : y ∉ ps) (hN : N z (respell x y z)) :
    N.Under ps ps z (respell x y z) := by
  by_cases hz : z ∈ ps
  · rw [respell_of_ne (ne_of_mem_of_not_mem hz hx)]
    exact .refl (absurd hz)
  · refine .outside hz ?_ hN
    unfold respell
    split
    · exact hy
    · exact hz

end names

namespace Expr

mutual

theorem Matches.rename {N : Names} (e : Expr)
    (hN : ∀ z ∈ e.names, z ≠ y ∧ N z (respell x y z)) :
    Matches (Names.Respelled x y) N e (e.rename x y) := by
  match e with
  | .number _ => exact .number
  | .string _ => exact .string
  | .boolean _ => exact .boolean
  | .variable z => exact .name (hN z (List.mem_singleton_self z)).2
  | .lambda ps body =>
      rw [names, List.forall_mem_append] at hN
      rw [Expr.rename]
      split
      · next hx =>
          refine .lambda (.refl .refl ps) (.refl .refl body fun z hz => .refl fun hfree => ?_)
          have hself := (hN.2 z hz).2
          rwa [respell_of_ne (ne_of_mem_of_not_mem hx hfree).symm] at hself
      · next hx =>
          have hy : y ∉ ps := fun hy => (hN.1 y hy).1 rfl
          refine .lambda (.refl .refl ps) (Matches.rename body fun z hz => ?_)
          obtain ⟨hzy, hz⟩ := hN.2 z hz
          exact ⟨hzy, Names.under_respell_of_free hx hy hz⟩
  | .call function arguments =>
      rw [names, List.forall_mem_append] at hN
      exact .call (Matches.rename function hN.1) (MatchAll.rename arguments hN.2)
  | .condition test consequent none =>
      rw [names, List.forall_mem_append] at hN
      exact .condition (Matches.rename test hN.1) (Matches.rename consequent hN.2)
  | .condition test consequent (some alternative) =>
      rw [names, List.forall_mem_append, List.forall_mem_append] at hN
      exact .alternative (Matches.rename test hN.1.1) (Matches.rename consequent hN.1.2)
        (Matches.rename alternative hN.2)
  | .assignment target value =>
      rw [names, List.forall_mem_append] at hN
      exact .assignment (Matches.rename target hN.1) (Matches.rename value hN.2)
  | .binary op left right =>
      rw [names, List.forall_mem_append] at hN
      exact .binary (Matches.rename left hN.1) (Matches.rename right hN.2)
  | .program body => exact .program (MatchAll.rename body hN)

theorem MatchAll.rename {N : Names} (es : List Expr)
    (hN : ∀ z ∈ allNames es, z ≠ y ∧ N z (respell x y z)) :
    MatchAll (Names.Respelled x y) N es (renameAll x y es) := by
  match es with
  | [] => exact .nil
  | e :: es =>
      rw [allNames, List.forall_mem_append] at hN
      exact .cons (Matches.rename e hN.1) (MatchAll.rename es hN.2)

end

theorem mem_allNames_append {before after : List Expr} {e : Expr} :
    ∀ z ∈ e.names, z ∈ allNames (before ++ e :: after) := by
  induction before with
  | nil => exact fun z hz => List.mem_append_left _ hz
  | cons b before ih => exact fun z hz => List.mem_append_right _ (ih z hz)

/-- Expressions in a row match if one of them does and the others stay as they are. -/
theorem MatchAll.replace {R N : Names} (hR : ∀ z, R z z) {before after : List Expr} {e e' : Expr}
    (h : Matches R N e e') (hN : ∀ z ∈ allNames (before ++ e :: after), N z z) :
    MatchAll R N (before ++ e :: after) (before ++ e' :: after) := by
  induction before with
  | nil =>
      have hafter := (List.forall_mem_append.mp hN).2
      exact .cons h (.refl hR after hafter)
  | cons b before ih =>
      obtain ⟨hb, hrest⟩ := List.forall_mem_append.mp hN
      exact .cons (.refl hR b hb) (ih hrest)

/-- Renaming a parameter gives an expression that matches, if the new name is new. -/
theorem RenamesParameter.matches {N : Names} {e e' : Expr} (h : e.RenamesParameter x y e')
    (hN : ∀ z ∈ e.names, z ≠ y ∧ N z z) : Matches (Names.Respelled x y) N e e' := by
  -- Whatever is not renamed matches itself.
  have hself : ∀ {N : Names} {e : Expr}, (∀ z ∈ e.names, z ≠ y ∧ N z z) →
      Matches (Names.Respelled x y) N e e :=
    fun {_ e} hN => .refl .refl e fun z hz => (hN z hz).2
  induction h generalizing N with
  | @here ps body hx =>
      rw [names, List.forall_mem_append] at hN
      have hy : y ∉ ps := fun hy => (hN.1 y hy).1 rfl
      refine .lambda (Names.parameters_respell hy) (Matches.rename body fun z hz => ?_)
      obtain ⟨hzy, hz⟩ := hN.2 z hz
      refine ⟨hzy, ?_⟩
      by_cases hmem : z ∈ ps
      · exact Names.under_respell hmem
      · rw [respell_of_ne (ne_of_mem_of_not_mem hx hmem).symm]
        exact Names.under_respell_of_notMem hmem hzy hz
  | body _ ih =>
      rw [names, List.forall_mem_append] at hN
      refine .lambda (.refl .refl _) (ih fun z hz => ?_)
      obtain ⟨hzy, hz⟩ := hN.2 z hz
      exact ⟨hzy, .refl fun _ => hz⟩
  | function _ ih =>
      rw [names, List.forall_mem_append] at hN
      exact .call (ih hN.1) (.refl .refl _ fun z hz => (hN.2 z hz).2)
  | argument _ ih =>
      rw [names, List.forall_mem_append] at hN
      have he := ih fun z hz => hN.2 z (mem_allNames_append z hz)
      exact .call (hself hN.1) (.replace .refl he fun z hz => (hN.2 z hz).2)
  | @test _ _ _ alternative _ ih =>
      cases alternative with
      | none =>
          rw [names, List.forall_mem_append] at hN
          exact .condition (ih hN.1) (hself hN.2)
      | some alternative =>
          rw [names, List.forall_mem_append, List.forall_mem_append] at hN
          exact .alternative (ih hN.1.1) (hself hN.1.2) (hself hN.2)
  | @consequent _ _ _ alternative _ ih =>
      cases alternative with
      | none =>
          rw [names, List.forall_mem_append] at hN
          exact .condition (hself hN.1) (ih hN.2)
      | some alternative =>
          rw [names, List.forall_mem_append, List.forall_mem_append] at hN
          exact .alternative (hself hN.1.1) (ih hN.1.2) (hself hN.2)
  | alternative _ ih =>
      rw [names, List.forall_mem_append, List.forall_mem_append] at hN
      exact .alternative (hself hN.1.1) (hself hN.1.2) (ih hN.2)
  | target _ ih =>
      rw [names, List.forall_mem_append] at hN
      exact .assignment (ih hN.1) (hself hN.2)
  | value _ ih =>
      rw [names, List.forall_mem_append] at hN
      exact .assignment (hself hN.1) (ih hN.2)
  | left _ ih =>
      rw [names, List.forall_mem_append] at hN
      exact .binary (ih hN.1) (hself hN.2)
  | right _ ih =>
      rw [names, List.forall_mem_append] at hN
      exact .binary (hself hN.1) (ih hN.2)
  | item _ ih =>
      rw [names] at hN
      have he := ih fun z hz => hN z (mem_allNames_append z hz)
      exact .program (.replace .refl he fun z hz => (hN z hz).2)

end Expr

/-! ### Running the renamed program -/

namespace Store

variable {σ : Store} {s : ScopeId}

/-- The scopes and functions that there are stand for themselves. -/
def unchanged (σ : Store) : Renaming where
  scopes t t' := t < σ.size ∧ t = t'
  functions i j := i < σ.functions ∧ i = j

theorem WellFormed.rel_unchanged (h : σ.WellFormed) {t : ScopeId} :
    Option.Rel (Value.Renamed σ.unchanged) (σ.binding? t x) (σ.binding? t x) := by
  cases hv : σ.binding? t x with
  | none => exact .none
  | some v =>
      refine .some ?_
      cases v with
      | number => exact .number
      | string => exact .string
      | boolean => exact .boolean
      | function f =>
          obtain ⟨-, hscope, hid⟩ := h.bound trivial hv f rfl
          exact .function ⟨⟨hid, rfl⟩, ⟨hscope, rfl⟩, rfl, rfl⟩
      | undefined => exact .undefined

/-- As long as nothing is written to old scopes, one finds in them what was there. -/
theorem Writes.isomorphic {τ : Store} (h : Writes (fun _ => False) σ τ) (hσ : σ.WellFormed)
    (hs : s < σ.size) : Isomorphic σ.unchanged σ s τ s where
  start := ⟨hs, rfl⟩
  scopes_exist := by
    rintro t _ ⟨ht, rfl⟩
    exact ⟨ht, ht.trans_le h.size_le⟩
  functions_exist := by
    rintro i _ ⟨hi, rfl⟩
    exact ⟨hi, hi.trans_le h.functions_le⟩
  scopes_one := by
    rintro _ _ _ _ ⟨-, rfl⟩ ⟨-, rfl⟩
    rfl
  functions_one := by
    rintro _ _ _ _ ⟨-, rfl⟩ ⟨-, rfl⟩
    rfl
  parent? := by
    rintro t _ ⟨ht, rfl⟩
    rw [h.parent? ht]
    cases hp : σ.parent? t with
    | none => exact .none
    | some p => exact .some ⟨(hσ.parent trivial hp).2.trans ht, rfl⟩
  binding? := by
    rintro t _ x ⟨ht, rfl⟩
    rw [h.binding? x ht id]
    exact hσ.rel_unchanged

theorem WellFormed.isomorphic (h : σ.WellFormed) (hs : s < σ.size) :
    Isomorphic σ.unchanged σ s σ s :=
  (Writes.refl _ σ).isomorphic h hs

/-- The stores match, and the earlier store is a part of both in which everything stands for itself:
its scopes have the same bindings, but for `y` in place of `x` in the code. -/
structure Respelled (x y : String) (σ : Store) (w : Matching) (τ τ' : Store) : Prop where
  matched : Matched (Names.Respelled x y) w τ τ'
  scopes {t : ScopeId} : t < σ.size → w.scopes t t
  functions {i : ℕ} : i < σ.functions → w.functions i i
  names {t : ScopeId} : t < σ.size → w.names t = Eq
  binding? {t : ScopeId} (z : String) :
    t < σ.size →
      Option.Rel (Value.Matches (Names.Respelled x y) w) (τ.binding? t z) (τ'.binding? t z)

theorem Matched.respelled {w : Matching} {τ τ' : Store} (h : Matched (Names.Respelled x y) w τ τ')
    (hle : Matching.Le { σ.unchanged with names := fun _ => Eq } w) :
    σ.Respelled x y w τ τ' where
  matched := h
  scopes ht := hle.scopes ⟨ht, rfl⟩
  functions hi := hle.functions ⟨hi, rfl⟩
  names ht := hle.names ⟨ht, rfl⟩
  binding? {t} z ht := by
    have hz : w.names t z z := by rw [hle.names ⟨ht, rfl⟩]
    exact (h.scope (hle.scopes ⟨ht, rfl⟩)).binding? hz

end Store

/-- Both evaluations end or none does.  If they do, it is with values or errors that are the same,
and in stores that are, up to fresh scopes and functions and but for `y` in place of `x`. -/
inductive Outcome.Respelled (x y : String) (σ : Store) : Outcome Value → Outcome Value → Prop
  | done {w v v' τ τ'} :
      σ.Respelled x y w τ τ' → Value.Matches (Names.Respelled x y) w v v' →
      Respelled x y σ (.done v τ) (.done v' τ')
  | failed {w e e' τ τ'} :
      σ.Respelled x y w τ τ' → EvalError.Matches (Names.Respelled x y) w e e' →
      Respelled x y σ (.failed e τ) (.failed e' τ')
  | unfinished : Respelled x y σ .unfinished .unfinished

/-- **Renaming a parameter does not change what a program does.**  The new name must not occur in
the program; the store may hold it. -/
theorem Store.evaluate_respelled {σ : Store} {s : ScopeId} {e e' : Expr} (hσ : σ.WellFormed)
    (hs : s < σ.size) (hy : y ∉ e.names) (h : e.RenamesParameter x y e') (fuel : ℕ) :
    Outcome.Respelled x y σ (evaluate fuel s e σ) (evaluate fuel s e' σ) := by
  have hmatched := (hσ.isomorphic hs).matched (R := Names.Respelled x y) .refl hσ hσ
  have he : Expr.Matches (Names.Respelled x y) Eq e e' :=
    h.matches fun z hz => ⟨ne_of_mem_of_not_mem hz hy, rfl⟩
  have houtcome := hmatched.evaluate ⟨hs, rfl⟩ he fuel
  generalize ExprLang.evaluate fuel s e σ = o, ExprLang.evaluate fuel s e' σ = o' at houtcome ⊢
  cases houtcome with
  | done hle hτ hv => exact .done (hτ.respelled hle) hv
  | failed hle hτ he => exact .failed (hτ.respelled hle) he
  | unfinished => exact .unfinished

/-- An invoked lambda that assigns to its parameter and returns another lambda that refers to it. -/
theorem Store.evaluate_respelled_call :
    let call (z : String) : Expr :=
      .call (.lambda [z] (.program [.assignment (.variable z) (.string "new"),
        .lambda ["a"] (.variable z)])) [.string "old"]
    empty.root.2.WellFormed ∧ 0 < empty.root.2.size ∧ "y" ∉ (call "x").names ∧
      (call "x").RenamesParameter "x" "y" (call "y") ∧
      Outcome.Respelled "x" "y" empty.root.2 (evaluate 4 0 (call "x") empty.root.2)
        (evaluate 4 0 (call "y") empty.root.2) := by
  intro call
  have hσ : empty.root.2.WellFormed := wellFormed_empty.keeps_root.sealed
  have hs : 0 < empty.root.2.size := by decide
  have hy : "y" ∉ (call "x").names := by decide
  have h : (call "x").RenamesParameter "x" "y" (call "y") := .function (.here (by decide))
  exact ⟨hσ, hs, hy, h, evaluate_respelled hσ hs hy h 4⟩

end ExprLang
