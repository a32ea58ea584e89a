import ExprLang.Proofs.Matched

/-! # Evaluations in stores that match

Expressions that match, evaluated in scopes that stand for each other, do the same: either both
evaluations end or none does, with values or errors that match, in stores that match again
(`Store.Matched.evaluate`).  Scopes and functions made on the way stand for each other too, so the
matching at the end covers more than the one at the beginning.

Both evaluations do the same at every level, and it takes them the same fuel. -/

namespace ExprLang

/-- Both computations end or none does.  If they do, it is in stores that match, with errors that
match or with results as `P` says. -/
inductive Outcome.Matches {α β : Type} (R : Names) (P : Matching → α → β → Prop) (w : Matching) :
    Outcome α → Outcome β → Prop
  | done {w' a b τ τ'} :
      w.Le w' → Store.Matched R w' τ τ' → P w' a b → Matches R P w (.done a τ) (.done b τ')
  | failed {w' e e' τ τ'} :
      w.Le w' → Store.Matched R w' τ τ' → EvalError.Matches R w' e e' →
      Matches R P w (.failed e τ) (.failed e' τ')
  | unfinished : Matches R P w .unfinished .unfinished

variable {R : Names} {w w' : Matching} {σ σ' : Store} {s s' : ScopeId}

namespace Outcome.Matches

variable {α β γ δ : Type} {P : Matching → α → β → Prop} {Q : Matching → γ → δ → Prop}
  {o : Outcome α} {o' : Outcome β}

theorem after (hle : w.Le w') (h : Matches R P w' o o') : Matches R P w o o' := by
  cases h with
  | done hle' hτ hab => exact .done (hle.trans hle') hτ hab
  | failed hle' hτ he => exact .failed (hle.trans hle') hτ he
  | unfinished => exact .unfinished

theorem bind {next : α → Store → Outcome γ} {next' : β → Store → Outcome δ}
    (h : Matches R P w o o')
    (hnext : ∀ {w' a b τ τ'}, w.Le w' → Store.Matched R w' τ τ' → P w' a b →
      Matches R Q w' (next a τ) (next' b τ')) :
    Matches R Q w (o.bind next) (o'.bind next') := by
  cases h with
  | done hle hτ hab => exact .after hle (hnext hle hτ hab)
  | failed hle hτ he => exact .failed hle hτ he
  | unfinished => exact .unfinished

end Outcome.Matches

/-- The evaluations of the expressions of the one side, in its scope, match those of the other. -/
def Alike (R : Names) (s s' : ScopeId) (evaluate evaluate' : Expr → Store → Outcome Value) : Prop :=
  ∀ {w σ σ' e e'}, Store.Matched R w σ σ' → w.scopes s s' → Expr.Matches R (w.names s) e e' →
    Outcome.Matches R (Value.Matches R) w (evaluate e σ) (evaluate' e' σ')

/-! ### Sequences -/

section sequences

variable {evaluate evaluate' : Expr → Store → Outcome Value}
  (halike : Alike R s s' evaluate evaluate')
include halike

theorem matches_evaluateAll (h : Store.Matched R w σ σ') (hs : w.scopes s s') {es es' : List Expr}
    (hes : Expr.MatchAll R (w.names s) es es') :
    Outcome.Matches R (fun w => List.Forall₂ (Value.Matches R w)) w (evaluateAll evaluate es σ)
      (evaluateAll evaluate' es' σ') := by
  induction es generalizing es' w σ σ' with
  | nil =>
      cases hes with
      | nil => exact .done (.refl w) h .nil
  | cons e es ih =>
      cases hes with
      | cons he hes =>
          refine (halike h hs he).bind fun hle hτ hv => ?_
          rw [← hle.names hs] at hes
          refine (ih hτ (hle.scopes hs) hes).bind fun hle' hυ hvs => ?_
          exact .done (.refl _) hυ (.cons (hv.mono hle') hvs)

theorem matches_evaluateLast (h : Store.Matched R w σ σ') (hs : w.scopes s s') {es es' : List Expr}
    (hes : Expr.MatchAll R (w.names s) es es') {last last' : Value}
    (hlast : Value.Matches R w last last') :
    Outcome.Matches R (Value.Matches R) w (evaluateLast evaluate last es σ)
      (evaluateLast evaluate' last' es' σ') := by
  induction es generalizing es' w σ σ' last last' with
  | nil =>
      cases hes with
      | nil => exact .done (.refl w) h hlast
  | cons e es ih =>
      cases hes with
      | cons he hes =>
          refine (halike h hs he).bind fun hle hτ hv => ?_
          rw [← hle.names hs] at hes
          exact ih hτ (hle.scopes hs) hes hv

end sequences

/-! ### Operations -/

section operations

variable {a a' b b' : Value}

theorem Value.Matches.isFalse_eq (h : Matches R w a a') : a.isFalse = a'.isFalse := by
  cases h <;> rfl

/-- Functions that stand for each other are equal to functions that do. -/
theorem Value.Matches.isEqual_eq (h : Store.Matched R w σ σ') (ha : Matches R w a a')
    (hb : Matches R w b b') : a.isEqual b = a'.isEqual b' := by
  cases ha with
  | function hf =>
      cases hb with
      | function hg => exact decide_eq_decide.mpr (h.functions_one hf.functions hg.functions)
      | _ => rfl
  | _ => cases hb <;> rfl

theorem matches_divisor (h : Store.Matched R w σ σ') {f : Number → Number → Number} (x y : Number) :
    Outcome.Matches R (Value.Matches R) w
      (.ofExcept σ (if y.isZero then .error .divideByZero else .ok (.number (f x y))))
      (.ofExcept σ' (if y.isZero then .error .divideByZero else .ok (.number (f x y)))) := by
  split
  · exact .failed (.refl w) h .divideByZero
  · exact .done (.refl w) h .number

variable (h : Store.Matched R w σ σ') (ha : Value.Matches R w a a') (hb : Value.Matches R w b b')
include h ha hb

theorem matches_onNumbers {f : Number → Number → Except EvalError Value}
    (hf : ∀ x y, Outcome.Matches R (Value.Matches R) w (.ofExcept σ (f x y))
      (.ofExcept σ' (f x y))) :
    Outcome.Matches R (Value.Matches R) w (.ofExcept σ (Value.onNumbers f a b))
      (.ofExcept σ' (Value.onNumbers f a' b')) := by
  have herror := Outcome.Matches.failed (P := Value.Matches R) (.refl w) h (.nonNumerics ha hb)
  cases ha with
  | number =>
      cases hb with
      | number => exact hf _ _
      | _ => exact herror
  | _ => exact herror

theorem matches_add :
    Outcome.Matches R (Value.Matches R) w (.ofExcept σ (a.add b)) (.ofExcept σ' (a'.add b')) := by
  have herror := Outcome.Matches.failed (P := Value.Matches R) (.refl w) h (.nonAddable ha hb)
  cases ha with
  | number =>
      cases hb with
      | number => exact .done (.refl w) h .number
      | _ => exact herror
  | string =>
      cases hb with
      | string => exact .done (.refl w) h .string
      | _ => exact herror
  | _ => exact herror

theorem matches_compareIs (orders : List Ordering) :
    Outcome.Matches R (Value.Matches R) w (.ofExcept σ (a.compareIs orders b))
      (.ofExcept σ' (a'.compareIs orders b')) := by
  have herror := Outcome.Matches.failed (P := Value.Matches R) (.refl w) h (.nonComparable ha hb)
  cases ha with
  | number =>
      cases hb with
      | number => exact .done (.refl w) h .boolean
      | _ => exact herror
  | string =>
      cases hb with
      | string => exact .done (.refl w) h .boolean
      | _ => exact herror
  | boolean =>
      cases hb with
      | boolean => exact .done (.refl w) h .boolean
      | _ => exact herror
  | _ => exact herror

theorem matches_compute (op : BinaryOperator) :
    Outcome.Matches R (Value.Matches R) w (.ofExcept σ (op.compute a b))
      (.ofExcept σ' (op.compute a' b')) := by
  cases op with
  | or =>
      refine .done (.refl w) h ?_
      unfold Value.logicalOr
      rw [← ha.isFalse_eq]
      split
      · exact hb
      · exact ha
  | and =>
      refine .done (.refl w) h ?_
      unfold Value.logicalAnd
      rw [← ha.isFalse_eq]
      split
      · exact .boolean
      · exact hb
  | greater | less | lessEqual | greaterEqual => exact matches_compareIs h ha hb _
  | equal =>
      refine .done (.refl w) h ?_
      rw [ha.isEqual_eq h hb]
      exact .boolean
  | notEqual =>
      refine .done (.refl w) h ?_
      unfold Value.isNotEqual
      rw [ha.isEqual_eq h hb]
      exact .boolean
  | add => exact matches_add h ha hb
  | subtract | multiply => exact matches_onNumbers h ha hb fun _ _ => .done (.refl w) h .number
  | divide | remainder => exact matches_onNumbers h ha hb (matches_divisor h)

end operations

/-! ### Evaluation -/

/-- **Expressions that match do the same.** -/
theorem Store.Matched.evaluate (h : Matched R w σ σ') (hs : w.scopes s s') {e e' : Expr}
    (he : Expr.Matches R (w.names s) e e') (fuel : ℕ) :
    Outcome.Matches R (Value.Matches R) w (evaluate fuel s e σ) (evaluate fuel s' e' σ') := by
  -- The bodies of functions come from the stores, so the induction is on the levels.
  induction fuel generalizing s s' e e' w σ σ' with
  | zero => exact .unfinished
  | succ fuel ih =>
      have halike : Alike R s s' (ExprLang.evaluate fuel s) (ExprLang.evaluate fuel s') :=
        fun h hs he => ih h hs he
      cases he with
      | number => exact .done (.refl w) h .number
      | string => exact .done (.refl w) h .string
      | boolean => exact .done (.refl w) h .boolean
      | name hx =>
          rw [ExprLang.evaluate, ExprLang.evaluate, Store.get, Store.get]
          rcases h.value? hs hx with ⟨v, v', hv, hv', hmatch⟩ | ⟨hv, hv', rfl⟩
          · rw [hv, hv']
            exact .done (.refl w) h hmatch
          · rw [hv, hv']
            exact .failed (.refl w) h .undefinedVariable
      | lambda hps hbody =>
          obtain ⟨hmatched, hvalue⟩ := h.close hs (.lambda hps hbody)
          exact .done (w.le_close σ σ') hmatched hvalue
      | call hfunction harguments =>
          refine (halike h hs hfunction).bind fun {w' callee callee' _ _} hle hτ hcallee => ?_
          rw [← hle.names hs] at harguments
          refine (matches_evaluateAll halike hτ (hle.scopes hs) harguments).bind
            fun {w'' _ _ υ υ'} hle' hυ hvalues => ?_
          have hcallee' := hcallee.mono hle'
          cases hcallee with
          | function hfg =>
              have hfg := hfg.mono hle'
              have henter := hυ.enter hfg hvalues
              exact .after hυ.le_enter (ih henter (.inr ⟨rfl, rfl⟩) (hfg.body υ υ'))
          | _ => exact .failed (.refl w'') hυ (.invalidCallee hcallee')
      | condition htest hconsequent =>
          refine (halike h hs htest).bind fun hle hτ hv => ?_
          rw [← hle.names hs] at hconsequent
          rw [hv.isFalse_eq]
          split
          · exact halike hτ (hle.scopes hs) hconsequent
          · exact .done (.refl _) hτ .boolean
      | alternative htest hconsequent halternative =>
          refine (halike h hs htest).bind fun hle hτ hv => ?_
          rw [← hle.names hs] at hconsequent halternative
          rw [hv.isFalse_eq]
          split
          · exact halike hτ (hle.scopes hs) hconsequent
          · exact halike hτ (hle.scopes hs) halternative
      | @assignment _ target target' value value' htarget hvalue =>
          rw [ExprLang.evaluate, ExprLang.evaluate]
          have hname := htarget.name?
          cases hx : target.name? with
          | none =>
              rw [hx] at hname
              rw [eq_none_of_rel hname]
              exact .failed (.refl w) h (.invalidAssignment (.sexpr hs htarget))
          | some x =>
              rw [hx] at hname
              obtain ⟨y, hy, hxy⟩ := exists_of_rel_some hname
              rw [hy]
              refine (halike h hs hvalue).bind fun hle hτ hv => ?_
              rw [← hle.names hs] at hxy
              have hs := hle.scopes hs
              rcases hτ.target? hs hxy with ⟨t, t', ht, ht', hmatch, hname⟩ | ⟨ht, ht', rfl⟩
              · rw [ht, ht']
                exact .done (.refl _) (hτ.define hmatch hname hv) hv
              · rw [ht, ht']
                exact .failed (.refl _) hτ .undefinedVariable
      | @binary _ op _ _ _ _ hleft hright =>
          refine (halike h hs hleft).bind fun hle hτ ha => ?_
          rw [← hle.names hs] at hright
          refine (halike hτ (hle.scopes hs) hright).bind fun hle' hυ hb => ?_
          exact matches_compute hυ (ha.mono hle') hb op
      | program hbody => exact matches_evaluateLast halike h hs hbody .undefined

end ExprLang
