import ExprLang.Eval.Run
import ExprLang.Proofs.Locality
import Mathlib.Logic.Relation

/-! # Hosts

A `Host` is whoever uses the language: it makes scopes, looks names up and binds them, has
expressions evaluated, functions invoked and programs run, as often as it wants and in any order,
whether they succeed or fail (`Host.Step`).  It gets scopes and values only from what it does.

An invariant that evaluations keep and that the other steps of hosts keep as well
(`Invariant.KeptByHosts`) holds whatever hosts do (`Host.Reachable.obeys`), and at every moment
while they wait for an evaluation, also for one that never ends (`Host.Obeys.passes`). -/

namespace ExprLang

/-! ### What is handed out -/

/-- The values that a run hands out. -/
def handed : Except RunError Value → List Value
  | .ok v => [v]
  | .error (.evaluation e) => e.operands
  | .error (.source _) => []
  | .error .unfinished => []

theorem Outcome.final?_of_settle {o : Outcome Value} {r : Except RunError Value} {τ : Store}
    (h : o.settle = (r, τ)) (hne : r ≠ .error .unfinished) : o.final? = some (handed r, τ) := by
  cases o <;> cases h
  · rfl
  · rfl
  · exact absurd rfl hne

/-! ### Jobs -/

/-- What a host can have done with code. -/
inductive Job where
  | evaluate (s : ScopeId) (e : Expr)
  | invoke (f : Closure) (arguments : List Value)

namespace Job

def outcome (fuel : ℕ) (σ : Store) : Job → Outcome Value
  | .evaluate s e => ExprLang.evaluate fuel s e σ
  | .invoke f arguments => ExprLang.invoke fuel f arguments σ

/-- What begins while the job is done. -/
def events (fuel : ℕ) (σ : Store) : Job → List Event
  | .evaluate s e => log fuel s e σ
  | .invoke f arguments => logInvoke fuel f arguments σ

end Job

/-- What begins while a source is run. -/
def Store.logRun (σ : Store) (s : ScopeId) (source : String) : List Event :=
  match Expr.ofSource source with
  | .ok program => log depthLimit s program σ
  | .error _ => []

/-! ### Hosts -/

/-- A host, between two things that it does. -/
structure Host extends Stage where
  /-- The scopes that it has been given. -/
  handles : List ScopeId
  /-- The values that it has been given: results and operands of errors. -/
  values : List Value

namespace Host

/-- Nothing has happened yet. -/
def start : Host := ⟨⟨[], .empty⟩, [], []⟩

/-- The value is at hand: it is no function, or the host has been given it. -/
def Has (H : Host) (v : Value) : Prop := (∀ f, v ≠ .function f) ∨ v ∈ H.values

/-- The host has what the job takes. -/
def Allows (H : Host) : Job → Prop
  | .evaluate s _ => s ∈ H.handles
  | .invoke f arguments => .function f ∈ H.values ∧ ∀ v ∈ arguments, H.Has v

/-- One thing that a host does. -/
inductive Step : Host → Host → Prop
  | root {H} :
      Step H { H with store := H.store.root.2, handles := H.store.root.1 :: H.handles }
  | nested {H s} :
      s ∈ H.handles →
      Step H { H with store := (H.store.nested s).2, handles := (H.store.nested s).1 :: H.handles }
  | clone {H s} : s ∈ H.handles → Step H { H with handles := s :: H.handles }
  /-- The scope of a function can be had from the function. -/
  | captured {H f} : .function f ∈ H.values → Step H { H with handles := f.scope :: H.handles }
  | lookup {H s x} :
      s ∈ H.handles → Step H { H with handles := (H.store.owner? s x).toList ++ H.handles }
  | get {H s x} :
      s ∈ H.handles → Step H { H with values := (H.store.get s x).toOption.toList ++ H.values }
  | define {H s x v} : s ∈ H.handles → H.Has v → Step H { H with store := H.store.define s x v }
  | assign {H s x v} :
      s ∈ H.handles → H.Has v →
      Step H { H with store := (H.store.assign s x v).toOption.getD H.store }
  | job {H j fuel vs τ} :
      H.Allows j → (j.outcome fuel H.store).final? = some (vs, τ) →
      Step H { H with
        past := H.past ++ j.events fuel H.store, store := τ, values := vs ++ H.values }
  | run {H s source r τ} :
      s ∈ H.handles → H.store.run s source = (r, τ) → r ≠ .error .unfinished →
      Step H { H with
        past := H.past ++ H.store.logRun s source, store := τ, values := handed r ++ H.values }

/-- The second host is what has become of the first one. -/
abbrev Later : Host → Host → Prop := Relation.ReflTransGen Step

/-- One gets there from nothing. -/
abbrev Reachable (H : Host) : Prop := start.Later H

/-- A moment that the host passes through: it rests, or something begins or has come to an end in
the course of a job that it has done or waits for.  The values are those that have been handed out
till then. -/
inductive Passes (H : Host) : Stage → List Value → Prop
  | rest : Passes H H.toStage H.values
  | begun {j fuel before s e σ after} :
      H.Allows j → j.events fuel H.store = before ++ .begun s e σ :: after →
      Passes H ⟨H.past ++ before, σ⟩ H.values
  | entered {j fuel before u f σ after} :
      H.Allows j → j.events fuel H.store = before ++ .entered u f σ :: after →
      Passes H ⟨H.past ++ (before ++ [.entered u f σ]), σ⟩ H.values
  | ended {j fuel before s e σ after fuel' vs τ} :
      H.Allows j → j.events fuel H.store = before ++ .begun s e σ :: after →
      (evaluate fuel' s e σ).final? = some (vs, τ) →
      Passes H ⟨H.past ++ before ++ log fuel' s e σ, τ⟩ (vs ++ H.values)

end Host

/-! ### Invariants -/

namespace Invariant

/-- Any code may run in the scope. -/
def Admits (I : Invariant) (w : Stage) (s : ScopeId) : Prop := ∀ e, I.code w s e

/-- Every step of a host keeps the invariant. -/
structure KeptByHosts (I : Invariant) : Prop extends I.Kept where
  start : I.holds ⟨[], .empty⟩
  /-- A scope is made, with none around it or inside another one. -/
  addScope {w parent} :
    I.holds w → (∀ s, parent = some s → I.Admits w s) →
      I.Reaches w { w with store := (w.store.addScope parent).2 } ∧
        I.Admits { w with store := (w.store.addScope parent).2 } w.store.size
  owner {w s x o} : I.holds w → I.Admits w s → w.store.owner? s x = some o → I.Admits w o
  captured {w f} : I.holds w → I.value w (.function f) → I.Admits w f.scope
  write {w t x v} : I.holds w → I.Admits w t → I.value w v → I.Reaches w (w.define t x v)

theorem Admits.mono {I : Invariant} (hI : I.Kept) {w w' : Stage} {s : ScopeId} (h : I.Admits w s)
    (hle : I.le w w') : I.Admits w' s :=
  fun e => hI.code_mono (h e) hle

/-- The invariant holds of what an evaluation hands out. -/
theorem Ends.final {I : Invariant} {w : Stage} {events : List Event} {o : Outcome Value}
    (h : I.Ends I.value w events o) {vs : List Value} {τ : Store}
    (hend : o.final? = some (vs, τ)) :
    I.Reaches w (w.since events τ) ∧ ∀ v ∈ vs, I.value (w.since events τ) v := by
  cases h with
  | done hreaches hv =>
      cases hend
      exact ⟨hreaches, List.forall_mem_singleton.mpr hv⟩
  | failed hreaches he =>
      cases hend
      exact ⟨hreaches, he⟩
  | unfinished => cases hend

end Invariant

namespace Host

/-- The invariant holds of the host, and of all that it has. -/
structure Obeys (H : Host) (I : Invariant) : Prop where
  holds : I.holds H.toStage
  handles : ∀ s ∈ H.handles, I.Admits H.toStage s
  values : ∀ v ∈ H.values, I.value H.toStage v

variable {I : Invariant} {H H' : Host} {w : Stage} {vs : List Value}

namespace Obeys

/-- The host is at a later stage, and has been given more. -/
theorem extend (hI : I.Kept) (h : H.Obeys I) (hreaches : I.Reaches H.toStage w)
    (handles : List ScopeId) (values : List Value) (hhandles : ∀ s ∈ handles, I.Admits w s)
    (hvalues : ∀ v ∈ values, I.value w v) :
    Obeys ⟨w, handles ++ H.handles, values ++ H.values⟩ I where
  holds := hreaches.holds
  handles := by
    rw [List.forall_mem_append]
    exact ⟨hhandles, fun s hs => (h.handles s hs).mono hI hreaches.le⟩
  values := by
    rw [List.forall_mem_append]
    exact ⟨hvalues, fun v hv => hI.value_mono (h.values v hv) hreaches.le⟩

/-- The stage is still the same. -/
theorem rest (hI : I.Kept) (h : H.Obeys I) : I.Reaches H.toStage H.toStage :=
  ⟨h.holds, hI.refl h.holds⟩

theorem value (hI : I.Kept) (h : H.Obeys I) {s : ScopeId} (hs : I.Admits H.toStage s) {v : Value}
    (hv : H.Has v) : I.value H.toStage v := by
  rcases hv with hno | hmem
  · cases v with
    | number x => exact hI.plain .number
    | string s => exact hI.plain .string
    | boolean b => exact hI.plain .boolean
    | function f => exact absurd rfl (hno f)
    | undefined => exact hI.empty (hs _)
  · exact h.values v hmem

variable (hI : I.KeptByHosts) (h : H.Obeys I)
include hI h

/-- The invariant holds all along a job. -/
theorem guards {j : Job} (hj : H.Allows j) (fuel : ℕ) :
    I.Guards I.value H.toStage (j.events fuel H.store) (j.outcome fuel H.store) := by
  cases j with
  | evaluate s e => exact hI.evaluate fuel h.holds (h.handles s hj e)
  | invoke f arguments =>
      obtain ⟨hf, harguments⟩ := hj
      have hvalue := h.values _ hf
      have hscope := hI.captured h.holds hvalue
      exact hI.invoke fuel h.holds hvalue fun v hv => h.value hI.toKept hscope (harguments v hv)

/-- The invariant holds of what a job hands out. -/
theorem job {j : Job} (hj : H.Allows j) {fuel : ℕ} {τ : Store}
    (hend : (j.outcome fuel H.store).final? = some (vs, τ)) :
    Obeys { H with
      past := H.past ++ j.events fuel H.store, store := τ, values := vs ++ H.values } I ∧
      I.le H.toStage ⟨H.past ++ j.events fuel H.store, τ⟩ := by
  obtain ⟨hreaches, hvs⟩ := (h.guards hI hj fuel).ends.final hend
  exact ⟨h.extend hI.toKept hreaches [] vs nofun hvs, hreaches.le⟩

theorem step (hstep : H.Step H') : H'.Obeys I ∧ I.le H.toStage H'.toStage := by
  have hkept := hI.toKept
  have hrest := h.rest hkept
  cases hstep with
  | root =>
      have hnone : ∀ p, none = some p → I.Admits H.toStage p := nofun
      obtain ⟨hreaches, hnew⟩ := hI.addScope h.holds hnone
      have hnews := List.forall_mem_singleton.mpr hnew
      exact ⟨h.extend hkept hreaches [_] [] hnews nofun, hreaches.le⟩
  | @nested s hs =>
      have hparent : ∀ p, some s = some p → I.Admits H.toStage p := by
        rintro _ ⟨⟩
        exact h.handles s hs
      obtain ⟨hreaches, hnew⟩ := hI.addScope h.holds hparent
      have hnews := List.forall_mem_singleton.mpr hnew
      exact ⟨h.extend hkept hreaches [_] [] hnews nofun, hreaches.le⟩
  | clone hs =>
      have hnews := List.forall_mem_singleton.mpr (h.handles _ hs)
      exact ⟨h.extend hkept hrest [_] [] hnews nofun, hrest.le⟩
  | captured hf =>
      have hnews := List.forall_mem_singleton.mpr (hI.captured h.holds (h.values _ hf))
      exact ⟨h.extend hkept hrest [_] [] hnews nofun, hrest.le⟩
  | lookup hs =>
      refine ⟨h.extend hkept hrest (Option.toList _) [] ?_ nofun, hrest.le⟩
      intro o ho
      exact hI.owner h.holds (h.handles _ hs) (Option.mem_toList.mp ho)
  | @get s x hs =>
      refine ⟨h.extend hkept hrest [] (Option.toList _) nofun ?_, hrest.le⟩
      cases hget : H.store.get s x with
      | ok v => exact List.forall_mem_singleton.mpr (hI.get h.holds (h.handles s hs _) hget)
      | error e => exact nofun
  | @define s x v hs hv =>
      have hadmits := h.handles s hs
      have hreaches := hI.write (x := x) h.holds hadmits (h.value hkept hadmits hv)
      exact ⟨h.extend hkept hreaches [] [] nofun nofun, hreaches.le⟩
  | @assign s x v hs hv =>
      cases hassign : H.store.assign s x v with
      | error e => exact ⟨h, hrest.le⟩
      | ok τ =>
          obtain ⟨t, htarget, rfl⟩ := Store.exists_of_assign hassign
          have hadmits := h.handles s hs
          have ht : I.Admits H.toStage t := by
            rcases Store.target?_cases htarget with ho | ⟨-, rfl, -⟩
            · exact hI.owner h.holds hadmits ho
            · exact hadmits
          have hreaches := hI.write (x := x) h.holds ht (h.value hkept hadmits hv)
          exact ⟨h.extend hkept hreaches [] [] nofun nofun, hreaches.le⟩
  | job hj hend => exact h.job hI hj hend
  | @run s source r τ hs hrun hne =>
      unfold Store.run at hrun
      unfold Store.logRun
      cases hsource : Expr.ofSource source with
      | error e =>
          rw [hsource] at hrun
          cases hrun
          rw [List.append_nil]
          exact ⟨h, hrest.le⟩
      | ok program =>
          rw [hsource] at hrun
          dsimp only at hrun
          have hend : (Job.outcome depthLimit H.store (.evaluate s program)).final? =
              some (handed r, τ) := Outcome.final?_of_settle hrun hne
          exact h.job hI (j := .evaluate s program) hs hend

theorem later (hlater : H.Later H') : H'.Obeys I ∧ I.le H.toStage H'.toStage := by
  induction hlater with
  | refl => exact ⟨h, hI.refl h.holds⟩
  | tail _ hstep ih =>
      obtain ⟨hobeys, hle⟩ := ih
      obtain ⟨hobeys', hle'⟩ := hobeys.step hI hstep
      exact ⟨hobeys', hI.trans hle hle'⟩

/-- **The invariant holds at all moments.** -/
theorem passes (hpasses : H.Passes w vs) :
    I.Reaches H.toStage w ∧ ∀ v ∈ vs, I.value w v := by
  have hkept := hI.toKept
  -- The host keeps what it has been given before.
  have hvalues : ∀ {w}, I.Reaches H.toStage w → ∀ v ∈ H.values, I.value w v :=
    fun hreaches v hv => hkept.value_mono (h.values v hv) hreaches.le
  cases hpasses with
  | rest => exact ⟨h.rest hkept, h.values⟩
  | @begun j fuel before s e σ after hj hevents =>
      have halong := (h.guards hI hj fuel).along
      rw [hevents] at halong
      obtain ⟨hreaches, -⟩ := halong.at_begun
      exact ⟨hreaches, hvalues hreaches⟩
  | @entered j fuel before u f σ after hj hevents =>
      have halong := (h.guards hI hj fuel).along
      rw [hevents] at halong
      exact ⟨halong.at_entered, hvalues halong.at_entered⟩
  | @ended j fuel before s e σ after fuel' vs τ hj hevents hend =>
      have halong := (h.guards hI hj fuel).along
      rw [hevents] at halong
      -- The invariant held when it began, and the code was such as may run.
      obtain ⟨hreaches, hcode⟩ := halong.at_begun
      obtain ⟨hreaches', hvs⟩ := (hkept.evaluate fuel' hreaches.holds hcode).ends.final hend
      have hall := hkept.reaches_trans hreaches hreaches'
      exact ⟨hall, List.forall_mem_append.mpr ⟨hvs, hvalues hall⟩⟩

end Obeys

/-- **The invariant holds whatever hosts do.** -/
theorem Reachable.obeys (hI : I.KeptByHosts) (h : H.Reachable) : H.Obeys I :=
  have hstart : start.Obeys I := ⟨hI.start, nofun, nofun⟩
  (hstart.later hI h).1

end Host

end ExprLang
