import ExprLang.Proofs.Parameters

/-! # Code without assignments is pure

If there is no assignment in an expression, nor in the functions that it can reach, then it leaves
all scopes as they were: it binds names only in scopes that it makes itself.  So it finds everything
as before when it is evaluated again, and comes to the same value or the same error, but for the
functions and scopes that each of the two evaluations makes for itself (`Store.evaluate_pure`). -/

namespace ExprLang

namespace Expr

mutual

/-- There is no assignment in the expression, not in the bodies of its lambdas either. -/
def assignmentFree : Expr → Bool
  | .number _ | .string _ | .boolean _ | .variable _ => true
  | .lambda _ body => body.assignmentFree
  | .call function arguments => function.assignmentFree && allAssignmentFree arguments
  | .condition test consequent none => test.assignmentFree && consequent.assignmentFree
  | .condition test consequent (some alternative) =>
    test.assignmentFree && consequent.assignmentFree && alternative.assignmentFree
  | .assignment _ _ => false
  | .binary _ left right => left.assignmentFree && right.assignmentFree
  | .program body => allAssignmentFree body

/-- There is no assignment in any of the expressions. -/
def allAssignmentFree : List Expr → Bool
  | [] => true
  | e :: es => e.assignmentFree && allAssignmentFree es

end

theorem assignmentFree_of_mem {es : List Expr} (h : allAssignmentFree es) :
    ∀ e ∈ es, e.assignmentFree := by
  induction es with
  | nil => exact List.forall_mem_nil _
  | cons e es ih =>
      rw [allAssignmentFree, Bool.and_eq_true] at h
      exact List.forall_mem_cons.mpr ⟨h.1, ih h.2⟩

theorem hereditary_assignmentFree : Hereditary (·.assignmentFree) where
  body h := h
  inner {e a} h ha := by
    cases ha with
    | argument hmem =>
        rw [assignmentFree, Bool.and_eq_true] at h
        exact assignmentFree_of_mem h.2 a hmem
    | item hmem => exact assignmentFree_of_mem h a hmem
    | value => cases h
    | @test _ _ alternative | @consequent _ _ alternative =>
        cases alternative <;> simp_all [assignmentFree]
    | _ => simp_all [assignmentFree]

end Expr

namespace Store

variable {σ τ : Store} {s : ScopeId} {e : Expr}

/-- Code without assignments writes nothing to scopes that are there. -/
theorem WellFormed.writes_pure (hσ : σ.WellFormed) (hs : s < σ.size) (he : e.assignmentFree)
    (hpure : σ.ReachesOnly (·.assignmentFree) s) {fuel : ℕ}
    (hend : (evaluate fuel s e σ).store? = some τ) :
    Writes (fun _ => False) σ τ := by
  -- There is no assignment to allow for, so that no old scope may be written to.
  let R := fun t => σ.Reaches s t ∨ σ.size ≤ t
  have hkept : (region (·.assignmentFree) R fun _ => False).Kept :=
    kept_region Expr.hereditary_assignmentFree nofun
  have hholds : σ.SealedFor (·.assignmentFree) R := hσ.sealedFor hpure
  have hcode : R s ∧ s < σ.size ∧ e.assignmentFree := ⟨.inl .self, hs, he⟩
  exact ((hkept.evaluate fuel (w := ⟨[], σ⟩) hholds hcode).ends.reaches hend).le

/-- **Code without assignments is pure.**  Whether its evaluation succeeds or fails, every scope
that was there lies where it did and binds what it did, and the same evaluation in the store that is
left behind ends as well, with the same value or the same error.  What was there before stands for
itself. -/
theorem evaluate_pure (hσ : σ.WellFormed) (hs : s < σ.size) (he : e.assignmentFree)
    (hpure : σ.ReachesOnly (·.assignmentFree) s) {fuel : ℕ}
    (hend : (evaluate fuel s e σ).store? = some τ) :
    (∀ t < σ.size, τ.parent? t = σ.parent? t ∧ ∀ x, τ.binding? t x = σ.binding? t x) ∧
      Outcome.Renamed σ.unchanged s s (evaluate fuel s e σ) (evaluate fuel s e τ) := by
  have hwrites := hσ.writes_pure hs he hpure hend
  have hτ : τ.WellFormed := hσ.of_evaluate hs hend
  constructor
  · intro t ht
    exact ⟨hwrites.parent? ht, fun x => hwrites.binding? x ht id⟩
  · exact (hwrites.isomorphic hσ hs).evaluate hσ hτ e fuel

/-- A function that is bound is invoked, and hands back one that was made for that. -/
theorem evaluate_pure_call :
    let σ := empty.root.2.bindIdentity 0
    let e : Expr := .call (.variable "f") [.lambda ["x"] (.variable "x")]
    σ.WellFormed ∧ 0 < σ.size ∧ e.assignmentFree ∧ σ.ReachesOnly (·.assignmentFree) 0 ∧
      ∃ τ, (evaluate 3 0 e σ).store? = some τ ∧
        (∀ t < σ.size, τ.parent? t = σ.parent? t ∧ ∀ x, τ.binding? t x = σ.binding? t x) ∧
          Outcome.Renamed σ.unchanged 0 0 (evaluate 3 0 e σ) (evaluate 3 0 e τ) := by
  intro σ e
  have hroot : empty.root.2.WellFormed := wellFormed_empty.keeps_root.sealed
  have hσ : σ.WellFormed := hroot.bindIdentity (by decide)
  have hs : 0 < σ.size := by decide
  have he : e.assignmentFree := by decide
  have hpure : σ.ReachesOnly (·.assignmentFree) 0 := by
    intro t x f _ hf
    cases eq_of_binding?_bindIdentity hf
    rfl
  have hends : (evaluate 3 0 (.call (.variable "f") [.lambda ["x"] (.variable "x")])
      (empty.root.2.bindIdentity 0)).store?.isSome := by decide +kernel
  obtain ⟨τ, hend⟩ := Option.isSome_iff_exists.mp hends
  exact ⟨hσ, hs, he, hpure, τ, hend, evaluate_pure hσ hs he hpure hend⟩

end Store

end ExprLang
