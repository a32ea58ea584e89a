import ExprLang.Proofs.Growth
import Mathlib.Data.List.Forall2
import Mathlib.Data.List.Zip

/-! # Code and values that match

Expressions match if they differ in names only, within the limits of a relation `R` that says which
parameters may stand for which (`Expr.Matches`).  A name of the one side and a name of the other
stand for each other as seen from a scope; where parameters are bound anew, these stand for each
other by their places (`Names.Under`).

A `Matching` says which scopes and functions of one store stand for which of another, and which
names do as seen from these scopes.  With respect to it values match that are the same or functions
with matching code (`Value.Matches`), and errors with operands and texts that match
(`EvalError.Matches`). -/

namespace ExprLang

/-! ### Names -/

/-- Which names of the one side stand for which of the other. -/
abbrev Names : Type := String → String → Prop

/-- Each name stands for at most one, and no other does. -/
def Names.OneToOne (N : Names) : Prop := ∀ {x y x' y'}, N x y → N x' y' → (x = x' ↔ y = y')

/-- The parameters are as many, repeat in the same places, and may stand for each other. -/
structure Names.Parameters (R : Names) (ps qs : List String) : Prop where
  allowed : List.Forall₂ R ps qs
  oneToOne : OneToOne fun x y => (x, y) ∈ ps.zip qs

/-- The names where parameters are bound around them: a parameter stands for the one in its place,
and any other name for what it stood for. -/
inductive Names.Under (N : Names) (ps qs : List String) : Names
  | place {x y} : (x, y) ∈ ps.zip qs → Under N ps qs x y
  | outside {x y} : x ∉ ps → y ∉ qs → N x y → Under N ps qs x y

section names

variable {N R : Names} {ps qs : List String} {x y : String}

theorem exists_mem_zip (h : List.Forall₂ R ps qs) (hx : x ∈ ps) : ∃ y, (x, y) ∈ ps.zip qs := by
  induction h with
  | nil => cases hx
  | @cons p q ps qs _ _ ih =>
      rcases List.mem_cons.mp hx with rfl | hx
      · exact ⟨q, List.mem_cons_self⟩
      · obtain ⟨y, hy⟩ := ih hx
        exact ⟨y, List.mem_cons_of_mem _ hy⟩

theorem exists_mem_zip' (h : List.Forall₂ R ps qs) (hy : y ∈ qs) : ∃ x, (x, y) ∈ ps.zip qs := by
  obtain ⟨x, hx⟩ := exists_mem_zip h.flip hy
  rw [← List.zip_swap qs ps]
  exact ⟨x, List.mem_map.mpr ⟨(y, x), hx, rfl⟩⟩

theorem eq_of_mem_zip (h : (x, y) ∈ ps.zip ps) : x = y :=
  List.forall₂_zip (List.forall₂_refl ps) h

theorem Names.Parameters.refl (hR : ∀ z, R z z) (ps : List String) : R.Parameters ps ps where
  allowed := List.forall₂_same.mpr fun z _ => hR z
  oneToOne h h' := by rw [eq_of_mem_zip h, eq_of_mem_zip h']

theorem Names.Parameters.eq (h : Parameters Eq ps qs) : ps = qs := by
  have hforall : List.Forall₂ Eq ps qs := h.allowed
  rwa [List.forall₂_eq_eq_eq] at hforall

namespace Names.Under

theorem refl (h : x ∉ ps → N x x) : N.Under ps ps x x := by
  by_cases hx : x ∈ ps
  · obtain ⟨y, hmem⟩ := exists_mem_zip (R := Eq) (List.forall₂_refl ps) hx
    obtain rfl := eq_of_mem_zip hmem
    exact .place hmem
  · exact .outside hx hx (h hx)

/-- The names are bound in the same places, if they are at all. -/
theorem places (h : N.Under ps qs x y) (hps : R.Parameters ps qs) :
    ∀ b ∈ ps.zip qs, (b.1 = x ↔ b.2 = y) := by
  intro b hb
  cases h with
  | place hmem => exact hps.oneToOne hb hmem
  | outside hx hy _ =>
      obtain ⟨hbx, hby⟩ := List.of_mem_zip hb
      exact iff_of_false (ne_of_mem_of_not_mem hbx hx) (ne_of_mem_of_not_mem hby hy)

theorem within (h : N.Under ps qs x y) (hps : R.Parameters ps qs)
    (hN : ∀ {x y}, N x y → R x y) : R x y := by
  cases h with
  | place hmem => exact List.forall₂_zip hps.allowed hmem
  | outside _ _ hxy => exact hN hxy

theorem oneToOne (hN : N.OneToOne) (hps : R.Parameters ps qs) : OneToOne (N.Under ps qs) := by
  intro x y x' y' h h'
  cases h with
  | place hmem => exact h'.places hps _ hmem
  | outside hx hy hxy =>
      cases h' with
      | place hmem =>
          obtain ⟨hx', hy'⟩ := List.of_mem_zip hmem
          exact iff_of_false (ne_of_mem_of_not_mem hx' hx).symm (ne_of_mem_of_not_mem hy' hy).symm
      | outside _ _ hxy' => exact hN hxy hxy'

end Names.Under

end names

/-! ### Expressions -/

mutual

/-- The expressions differ in names that stand for each other, and in nothing else. -/
inductive Expr.Matches (R : Names) : Names → Expr → Expr → Prop
  | number {N x} : Matches R N (.number x) (.number x)
  | string {N s} : Matches R N (.string s) (.string s)
  | boolean {N b} : Matches R N (.boolean b) (.boolean b)
  | name {N x y} : N x y → Matches R N (.variable x) (.variable y)
  | lambda {N ps qs body body'} :
      R.Parameters ps qs → Matches R (N.Under ps qs) body body' →
      Matches R N (.lambda ps body) (.lambda qs body')
  | call {N function function' arguments arguments'} :
      Matches R N function function' → Expr.MatchAll R N arguments arguments' →
      Matches R N (.call function arguments) (.call function' arguments')
  | condition {N test test' consequent consequent'} :
      Matches R N test test' → Matches R N consequent consequent' →
      Matches R N (.condition test consequent none) (.condition test' consequent' none)
  | alternative {N test test' consequent consequent' alternative alternative'} :
      Matches R N test test' → Matches R N consequent consequent' →
      Matches R N alternative alternative' →
      Matches R N (.condition test consequent (some alternative))
        (.condition test' consequent' (some alternative'))
  | assignment {N target target' value value'} :
      Matches R N target target' → Matches R N value value' →
      Matches R N (.assignment target value) (.assignment target' value')
  | binary {N op left left' right right'} :
      Matches R N left left' → Matches R N right right' →
      Matches R N (.binary op left right) (.binary op left' right')
  | program {N body body'} :
      Expr.MatchAll R N body body' → Matches R N (.program body) (.program body')

/-- The expressions match one by one. -/
inductive Expr.MatchAll (R : Names) : Names → List Expr → List Expr → Prop
  | nil {N} : MatchAll R N [] []
  | cons {N e e' es es'} :
      Expr.Matches R N e e' → MatchAll R N es es' → MatchAll R N (e :: es) (e' :: es')

end

mutual

/-- All names that are written in an expression. -/
def Expr.names : Expr → List String
  | .number _ | .string _ | .boolean _ => []
  | .variable x => [x]
  | .lambda parameters body => parameters ++ body.names
  | .call function arguments => function.names ++ allNames arguments
  | .condition test consequent none => test.names ++ consequent.names
  | .condition test consequent (some alternative) =>
    test.names ++ consequent.names ++ alternative.names
  | .assignment target value => target.names ++ value.names
  | .binary _ left right => left.names ++ right.names
  | .program body => allNames body

/-- All names that are written in the expressions. -/
def Expr.allNames : List Expr → List String
  | [] => []
  | e :: es => e.names ++ allNames es

end

mutual

/-- An expression matches itself if its names stand for themselves. -/
theorem Expr.Matches.refl {R N : Names} (hR : ∀ z, R z z) (e : Expr) (hN : ∀ z ∈ e.names, N z z) :
    Matches R N e e := by
  match e with
  | .number _ => exact .number
  | .string _ => exact .string
  | .boolean _ => exact .boolean
  | .variable x => exact .name (hN x (List.mem_singleton_self x))
  | .lambda ps body =>
      rw [Expr.names, List.forall_mem_append] at hN
      exact .lambda (.refl hR ps) (Expr.Matches.refl hR body fun z hz => .refl fun _ => hN.2 z hz)
  | .call function arguments =>
      rw [Expr.names, List.forall_mem_append] at hN
      exact .call (Expr.Matches.refl hR function hN.1) (Expr.MatchAll.refl hR arguments hN.2)
  | .condition test consequent none =>
      rw [Expr.names, List.forall_mem_append] at hN
      exact .condition (Expr.Matches.refl hR test hN.1) (Expr.Matches.refl hR consequent hN.2)
  | .condition test consequent (some alternative) =>
      rw [Expr.names, List.forall_mem_append, List.forall_mem_append] at hN
      exact .alternative (Expr.Matches.refl hR test hN.1.1)
        (Expr.Matches.refl hR consequent hN.1.2) (Expr.Matches.refl hR alternative hN.2)
  | .assignment target value =>
      rw [Expr.names, List.forall_mem_append] at hN
      exact .assignment (Expr.Matches.refl hR target hN.1) (Expr.Matches.refl hR value hN.2)
  | .binary op left right =>
      rw [Expr.names, List.forall_mem_append] at hN
      exact .binary (Expr.Matches.refl hR left hN.1) (Expr.Matches.refl hR right hN.2)
  | .program body => exact .program (Expr.MatchAll.refl hR body hN)

theorem Expr.MatchAll.refl {R N : Names} (hR : ∀ z, R z z) (es : List Expr)
    (hN : ∀ z ∈ allNames es, N z z) : MatchAll R N es es := by
  match es with
  | [] => exact .nil
  | e :: es =>
      rw [Expr.allNames, List.forall_mem_append] at hN
      exact .cons (Expr.Matches.refl hR e hN.1) (Expr.MatchAll.refl hR es hN.2)

end

mutual

/-- Expressions that match are equal if names stand for themselves only. -/
theorem Expr.Matches.eq {N : Names} {e e' : Expr} (h : Matches Eq N e e')
    (hN : ∀ {x y}, N x y → x = y) : e = e' := by
  match h with
  | .number => rfl
  | .string => rfl
  | .boolean => rfl
  | .name hx => rw [hN hx]
  | .lambda hps hbody =>
      rw [hps.eq, hbody.eq fun hx => hx.within hps hN]
  | .call hfunction harguments => rw [hfunction.eq hN, harguments.eq hN]
  | .condition htest hconsequent => rw [htest.eq hN, hconsequent.eq hN]
  | .alternative htest hconsequent halternative =>
      rw [htest.eq hN, hconsequent.eq hN, halternative.eq hN]
  | .assignment htarget hvalue => rw [htarget.eq hN, hvalue.eq hN]
  | .binary hleft hright => rw [hleft.eq hN, hright.eq hN]
  | .program hbody => rw [hbody.eq hN]

theorem Expr.MatchAll.eq {N : Names} {es es' : List Expr} (h : MatchAll Eq N es es')
    (hN : ∀ {x y}, N x y → x = y) : es = es' := by
  match h with
  | .nil => rfl
  | .cons he hes => rw [he.eq hN, hes.eq hN]

end

/-- Variables stand for variables. -/
theorem Expr.Matches.name? {R N : Names} {e e' : Expr} (h : Matches R N e e') :
    Option.Rel N e.name? e'.name? := by
  cases h with
  | name hN => exact .some hN
  | _ => exact .none

/-! ### Values and errors -/

/-- The values are the same, or functions that stand for each other. -/
inductive Value.Rel (P : Closure → Closure → Prop) : Value → Value → Prop
  | number {x} : Rel P (.number x) (.number x)
  | string {s} : Rel P (.string s) (.string s)
  | boolean {b} : Rel P (.boolean b) (.boolean b)
  | function {f g} : P f g → Rel P (.function f) (.function g)
  | undefined : Rel P .undefined .undefined

theorem Value.Rel.imp {P Q : Closure → Closure → Prop} (hPQ : ∀ {f g}, P f g → Q f g) {a b : Value}
    (h : Rel P a b) : Rel Q a b := by
  cases h with
  | number => exact .number
  | string => exact .string
  | boolean => exact .boolean
  | function hP => exact .function (hPQ hP)
  | undefined => exact .undefined

theorem Value.Rel.symm {P Q : Closure → Closure → Prop} {a b : Value} (h : Rel P a b)
    (hPQ : ∀ {f g}, P f g → Q g f) : Rel Q b a := by
  cases h with
  | number => exact .number
  | string => exact .string
  | boolean => exact .boolean
  | function hP => exact .function (hPQ hP)
  | undefined => exact .undefined

/-- The errors are the same, with operands as `V` says and targets as `T` says. -/
inductive EvalError.Rel (V : Value → Value → Prop) (T : String → String → Prop) :
    EvalError → EvalError → Prop
  | undefinedVariable {x} : Rel V T (.undefinedVariable x) (.undefinedVariable x)
  | divideByZero : Rel V T .divideByZero .divideByZero
  | invalidAssignment {e e'} : T e e' → Rel V T (.invalidAssignment e) (.invalidAssignment e')
  | nonNumerics {a a' b b'} : V a a' → V b b' → Rel V T (.nonNumerics a b) (.nonNumerics a' b')
  | nonAddable {a a' b b'} : V a a' → V b b' → Rel V T (.nonAddable a b) (.nonAddable a' b')
  | nonComparable {a a' b b'} :
      V a a' → V b b' → Rel V T (.nonComparable a b) (.nonComparable a' b')
  | invalidCallee {a a'} : V a a' → Rel V T (.invalidCallee a) (.invalidCallee a')

theorem EvalError.Rel.imp {V V' : Value → Value → Prop} {T T' : String → String → Prop}
    (hV : ∀ {a b}, V a b → V' a b) (hT : ∀ {a b}, T a b → T' a b) {e e' : EvalError}
    (h : Rel V T e e') : Rel V' T' e e' := by
  cases h with
  | undefinedVariable => exact .undefinedVariable
  | divideByZero => exact .divideByZero
  | invalidAssignment ht => exact .invalidAssignment (hT ht)
  | nonNumerics ha hb => exact .nonNumerics (hV ha) (hV hb)
  | nonAddable ha hb => exact .nonAddable (hV ha) (hV hb)
  | nonComparable ha hb => exact .nonComparable (hV ha) (hV hb)
  | invalidCallee ha => exact .invalidCallee (hV ha)

/-! ### Matchings -/

/-- Which scopes and functions of one store stand for which of another. -/
structure Renaming where
  scopes : ScopeId → ScopeId → Prop
  functions : ℕ → ℕ → Prop

/-- What of one store stands for what of another. -/
structure Matching extends Renaming where
  /-- The names that stand for each other as seen from a scope of the one store and the scope of the
  other for which it stands. -/
  names : ScopeId → Names

/-- The later renaming covers what the earlier one does. -/
structure Renaming.Le (ρ ρ' : Renaming) : Prop where
  scopes {t t'} : ρ.scopes t t' → ρ'.scopes t t'
  functions {i j} : ρ.functions i j → ρ'.functions i j

/-- The later matching covers what the earlier one does, in the same way. -/
structure Matching.Le (w w' : Matching) : Prop extends w.toRenaming.Le w'.toRenaming where
  names {t t'} : w.scopes t t' → w'.names t = w.names t

theorem Matching.Le.refl (w : Matching) : w.Le w where
  scopes := id
  functions := id
  names _ := rfl

theorem Matching.Le.trans {w w' w'' : Matching} (h : w.Le w') (h' : w'.Le w'') : w.Le w'' where
  scopes ht := h'.scopes (h.scopes ht)
  functions hi := h'.functions (h.functions hi)
  names ht := (h'.names (h.scopes ht)).trans (h.names ht)

/-- The functions that are made next stand for each other. -/
def Matching.close (w : Matching) (σ σ' : Store) : Matching :=
  { w with functions := fun i j => w.functions i j ∨ (i = σ.functions ∧ j = σ'.functions) }

theorem Matching.le_close (w : Matching) (σ σ' : Store) : w.Le (w.close σ σ') where
  scopes := id
  functions := .inl
  names _ := rfl

/-- The scopes that are made next, for invocations of the functions, stand for each other. -/
def Matching.enter (w : Matching) (σ σ' : Store) (f g : Closure) : Matching where
  scopes t t' := w.scopes t t' ∨ (t = σ.size ∧ t' = σ'.size)
  functions := w.functions
  names t := if t = σ.size then (w.names f.scope).Under f.parameters g.parameters else w.names t

theorem Matching.names_enter (w : Matching) (σ σ' : Store) (f g : Closure) :
    (w.enter σ σ' f g).names σ.size = (w.names f.scope).Under f.parameters g.parameters :=
  if_pos rfl

/-- The lambda of which a function was made. -/
def Closure.lambda (f : Closure) : Expr := .lambda f.parameters f.body

/-- The functions and their scopes stand for each other, and the code matches. -/
structure Closure.Matches (R : Names) (w : Matching) (f g : Closure) : Prop where
  functions : w.functions f.id g.id
  scopes : w.scopes f.scope g.scope
  code : Expr.Matches R (w.names f.scope) f.lambda g.lambda

section matching

variable {R : Names} {w w' : Matching} {f g : Closure}

theorem Closure.Matches.mono (h : f.Matches R w g) (hle : w.Le w') : f.Matches R w' g where
  functions := hle.functions h.functions
  scopes := hle.scopes h.scopes
  code := by
    rw [hle.names h.scopes]
    exact h.code

theorem Closure.Matches.parameters (h : f.Matches R w g) :
    R.Parameters f.parameters g.parameters := by
  cases h.code with
  | lambda hps _ => exact hps

/-- The bodies match as seen from the scopes of invocations. -/
theorem Closure.Matches.body (h : f.Matches R w g) (σ σ' : Store) :
    Expr.Matches R ((w.enter σ σ' f g).names σ.size) f.body g.body := by
  rw [w.names_enter]
  cases h.code with
  | lambda _ hbody => exact hbody

/-- The values are the same, or functions that match. -/
abbrev Value.Matches (R : Names) (w : Matching) : Value → Value → Prop := Rel (Closure.Matches R w)

theorem Value.Matches.mono {a b : Value} (h : Matches R w a b) (hle : w.Le w') : Matches R w' a b :=
  h.imp fun hfg => hfg.mono hle

/-- The texts are those of expressions that match, as seen from scopes that stand for each other. -/
inductive Matching.Texts (R : Names) (w : Matching) : String → String → Prop
  | sexpr {t t' e e'} :
      w.scopes t t' → Expr.Matches R (w.names t) e e' → Texts R w e.sexpr e'.sexpr

/-- The errors are the same, with operands and targets that match. -/
abbrev EvalError.Matches (R : Names) (w : Matching) : EvalError → EvalError → Prop :=
  Rel (Value.Matches R w) (w.Texts R)

end matching

end ExprLang
