import ExprLang.Proofs.Forest

/-! # Scopes under aliasing

Scopes are shared: many handles can stand for one scope, and scopes that lie in the same one read
its names as their own.  `Store.Laws` says what a write through one handle does to what is read
through all the others: a name that is bound in `o` is changed exactly for those from whom no other
scope that binds it hides `o` (`Store.Sees`).

In a forest the walk from a scope outwards is the chain that a name is looked up in, so that the
laws come down to what happens to `Store.owner?` if one more scope binds the name
(`Forest.puts_define`).  The scopes of hosts are a forest, so the laws hold of them at every moment
(`Host.Reachable.scopes_laws`). -/

namespace ExprLang

namespace Store

variable {σ τ : Store} {s t o : ScopeId} {x y : String} {v : Value}

/-! ### Whose a name is -/

/-- Whoever walks outwards from `t` comes to `o`, and to no scope before it that binds the name.  So
the name is that of `o`, seen from `t`, if `o` binds it. -/
def Sees (σ : Store) (t : ScopeId) (x : String) (o : ScopeId) : Prop :=
  ∃ before after, σ.Walk t (before ++ o :: after) ∧ ∀ u ∈ before, ¬σ.Binds u x

/-- The first scope on the walk that binds the name. -/
structure First (σ : Store) (t : ScopeId) (x : String) (o : ScopeId) : Prop where
  sees : σ.Sees t x o
  binds : σ.Binds o x

/-- No scope on the walk binds the name. -/
def Unbound (σ : Store) (t : ScopeId) (x : String) : Prop :=
  ∃ ts, σ.Walk t ts ∧ ∀ u ∈ ts, ¬σ.Binds u x

/-- An assignment from `s` goes to `o`: to the first scope that binds the name or, if there is none,
to `s` itself, which has to be a root then. -/
inductive Takes (σ : Store) (s : ScopeId) (x : String) : ScopeId → Prop
  | first {o : ScopeId} : σ.First s x o → Takes σ s x o
  | root : σ.Unbound s x → σ.hasParent s = false → Takes σ s x s

/-- In the later store the name has the value for all who see that it is that of `o`, and everything
else is read as before. -/
structure Puts (σ : Store) (o : ScopeId) (x : String) (v : Value) (τ : Store) : Prop where
  seen {t : ScopeId} : σ.Sees t x o → τ.get t x = .ok v
  other {t : ScopeId} {y : String} : ¬(y = x ∧ σ.Sees t x o) → τ.get t y = σ.get t y

/-- Behind any of its scopes a walk is a walk of that scope. -/
theorem Walk.of_append {before after : List ScopeId} (h : σ.Walk t (before ++ o :: after)) :
    σ.Walk o (o :: after) := by
  induction before generalizing t with
  | nil =>
      rw [List.nil_append] at h
      cases h with
      | root ht => exact .root ht
      | outwards hp hwalk => exact .outwards hp hwalk
  | cons u before ih =>
      rw [List.cons_append] at h
      generalize hrest : before ++ o :: after = rest at h
      cases h with
      | root => simp at hrest
      | outwards _ hwalk =>
          rw [← hrest] at hwalk
          exact ih hwalk

/-- Who sees a scope sees what that one sees. -/
theorem Sees.trans (hs : σ.Sees t x s) (ho : σ.Sees s x o) : σ.Sees t x o := by
  obtain ⟨before, after, hwalk, hbefore⟩ := hs
  obtain ⟨before', after', hwalk', hbefore'⟩ := ho
  have hsame := hwalk.of_append.unique hwalk'
  rw [hsame, ← List.append_assoc] at hwalk
  exact ⟨before ++ before', after', hwalk, List.forall_mem_append.mpr ⟨hbefore, hbefore'⟩⟩

/-- A scope sees where its own assignments go. -/
theorem Takes.sees (h : σ.Takes s x o) : σ.Sees s x o := by
  cases h with
  | first hfirst => exact hfirst.sees
  | root _ hroot => exact ⟨[], [], .root hroot, List.forall_mem_nil _⟩

/-! ### Requests -/

/-- What a scope can be asked. -/
inductive Request where
  | root
  | nested (s : ScopeId)
  | clone (s : ScopeId)
  | hasParent (s : ScopeId)
  | lookup (s : ScopeId) (x : String)
  | get (s : ScopeId) (x : String)
  | define (s : ScopeId) (x : String) (v : Value)
  | assign (s : ScopeId) (x : String) (v : Value)

/-- The request is to bind a name. -/
def Request.writes : Request → Bool
  | .define _ _ _ | .assign _ _ _ => true
  | _ => false

/-- The scopes afterwards.  A clone is the same scope again, and an assignment that fails does
nothing to them. -/
def serve (σ : Store) : Request → Store
  | .root => σ.root.2
  | .nested s => (σ.nested s).2
  | .clone _ | .hasParent _ | .lookup _ _ | .get _ _ => σ
  | .define s x v => σ.define s x v
  | .assign s x v => (σ.assign s x v).toOption.getD σ

/-! ### The laws -/

/-- What is read through any scope before and after something is written through any other. -/
structure Laws (σ : Store) : Prop where
  get_ok {t : ScopeId} {y : String} {v : Value} :
    σ.get t y = .ok v ↔ ∃ o, σ.First t y o ∧ σ.binding? o y = some v
  get_error {t : ScopeId} {y : String} {e : EvalError} :
    σ.get t y = .error e ↔ e = .undefinedVariable y ∧ σ.Unbound t y
  lookup {t o : ScopeId} {y : String} : σ.owner? t y = some o ↔ σ.First t y o
  /-- An assignment fails if it goes nowhere. -/
  assign_error {s : ScopeId} {x : String} {v : Value} {e : EvalError} :
    σ.assign s x v = .error e ↔
      e = .undefinedVariable x ∧ σ.Unbound s x ∧ σ.hasParent s = true
  /-- Then no scope is changed. -/
  assign_unchanged {s : ScopeId} {x : String} {v : Value} :
    σ.Unbound s x → σ.hasParent s = true → σ.serve (.assign s x v) = σ
  /-- Otherwise it changes what it is to change, and nothing else. -/
  assign_ok {s : ScopeId} {x : String} {v : Value} :
    s < σ.size → ¬(σ.Unbound s x ∧ σ.hasParent s = true) →
      ∃ o, σ.Takes s x o ∧ σ.Puts o x v (σ.serve (.assign s x v))
  define {s : ScopeId} {x : String} {v : Value} :
    s < σ.size → σ.Puts s x v (σ.serve (.define s x v))
  /-- All other requests leave everything to be read as it was. -/
  quiet {request : Request} {t : ScopeId} {y : String} :
    request.writes = false → t < σ.size → (σ.serve request).get t y = σ.get t y
  /-- The new value is found where it was put from, and by all from there inwards who do not hide it
  by a name of their own. -/
  assign_seen {s t : ScopeId} {x : String} {v : Value} {τ : Store} :
    s < σ.size → σ.assign s x v = .ok τ → σ.Sees t x s → τ.get t x = .ok v

/-! ### One more binding -/

/-- If a search stops at one more place, then it stops there or where it did. -/
theorem find?_eq_of_not_hit {p q : ScopeId → Bool} {ts : List ScopeId}
    (hpq : ∀ u, u ≠ o → q u = p u)
    (hnot : ¬∃ before after, ts = before ++ o :: after ∧ ∀ u ∈ before, p u = false) :
    ts.find? q = ts.find? p ∧ ts.find? p ≠ some o := by
  induction ts with
  | nil => exact ⟨rfl, nofun⟩
  | cons u ts ih =>
      have hne : u ≠ o := by
        rintro rfl
        exact hnot ⟨[], ts, rfl, List.forall_mem_nil _⟩
      rw [List.find?_cons, List.find?_cons, hpq u hne]
      cases hu : p u with
      | true => exact ⟨rfl, fun heq => hne (Option.some.inj heq)⟩
      | false =>
          refine ih ?_
          rintro ⟨before, after, rfl, hbefore⟩
          exact hnot ⟨u :: before, after, rfl, List.forall_mem_cons.mpr ⟨hu, hbefore⟩⟩

/-- A read is the same if the name is that of the same scope and has the same value there. -/
theorem get_congr (howner : τ.owner? t y = σ.owner? t y)
    (hbinding : ∀ u, σ.owner? t y = some u → τ.binding? u y = σ.binding? u y) :
    τ.get t y = σ.get t y := by
  have hvalue : τ.value? t y = σ.value? t y := by
    unfold value?
    rw [howner]
    cases hu : σ.owner? t y with
    | none => rfl
    | some u => exact hbinding u hu
  unfold get
  rw [hvalue]

theorem chain_define : (σ.define o x v).chain t = σ.chain t :=
  chain_congr t fun _ => parent?_define ..

/-- Other names are read as before. -/
theorem get_define_of_ne (hne : y ≠ x) : (σ.define o x v).get t y = σ.get t y := by
  have hbinding : ∀ u, (σ.define o x v).binding? u y = σ.binding? u y := by
    intro u
    rw [binding?_define, if_neg fun hand => hne hand.2.1.symm]
  refine get_congr ?_ fun u _ => hbinding u
  unfold owner?
  simp only [chain_define, hbinding]

theorem owner?_addScope {parent : Option ScopeId} (ht : t < σ.size) :
    (σ.addScope parent).2.owner? t y = σ.owner? t y := by
  induction t using Nat.strongRecOn with
  | _ t ih =>
    rw [owner?_eq, owner?_eq σ, parent?_addScope, if_neg ht.ne]
    simp only [binds_addScope]
    split
    · rfl
    · cases hp : σ.parent? t with
      | none => rfl
      | some p =>
          dsimp only
          split
          · next hlt => exact ih p hlt (hlt.trans ht)
          · rfl

theorem get_addScope {parent : Option ScopeId} (ht : t < σ.size) :
    (σ.addScope parent).2.get t y = σ.get t y :=
  get_congr (owner?_addScope ht) fun _ _ => binding?_addScope ..

/-! ### Forests -/

namespace Forest

variable (h : σ.Forest)
include h

theorem sees_iff : σ.Sees t x o ↔
    ∃ before after, σ.chain t = before ++ o :: after ∧ ∀ u ∈ before, ¬σ.Binds u x := by
  constructor
  · rintro ⟨before, after, hwalk, hbefore⟩
    exact ⟨before, after, ((h.walk t).mp hwalk).symm, hbefore⟩
  · rintro ⟨before, after, hchain, hbefore⟩
    exact ⟨before, after, (h.walk t).mpr hchain.symm, hbefore⟩

theorem owner?_eq_some_iff : σ.owner? t x = some o ↔ σ.First t x o := by
  constructor
  · intro ho
    obtain ⟨before, after, hchain, hbinds, hbefore⟩ := h.found ho
    exact ⟨h.sees_iff.mpr ⟨before, after, hchain, hbefore⟩, hbinds⟩
  · rintro ⟨hsees, hbinds⟩
    obtain ⟨before, after, hchain, hbefore⟩ := h.sees_iff.mp hsees
    refine List.find?_eq_some_iff_append.mpr ⟨hbinds, before, after, hchain, fun u hu => ?_⟩
    simpa [Binds] using hbefore u hu

theorem owner?_eq_none_iff : σ.owner? t x = none ↔ σ.Unbound t x := by
  constructor
  · intro ho
    exact ⟨σ.chain t, (h.walk t).mpr rfl, h.missed ho⟩
  · rintro ⟨ts, hwalk, hts⟩
    obtain rfl := (h.walk t).mp hwalk
    exact List.find?_eq_none.mpr hts

/-- Those who see the scope find the new value. -/
theorem get_define_of_sees (ho : o < σ.size) (hsees : σ.Sees t x o) :
    (σ.define o x v).get t x = .ok v := by
  obtain ⟨before, after, hchain, hbefore⟩ := h.sees_iff.mp hsees
  have hself : (σ.define o x v).binding? o x = some v := binding?_define_self ho
  have hfound : ((σ.define o x v).binding? o x).isSome := by
    rw [hself]
    rfl
  refine get_of_owner? (o := o) ?_ hself
  refine List.find?_eq_some_iff_append.mpr
    ⟨hfound, before, after, chain_define.trans hchain, fun u hu => ?_⟩
  have hne : o ≠ u := by
    -- The walk passes `o` only once.
    have hnodup := h.nodup t
    rw [hchain, List.nodup_append] at hnodup
    exact (hnodup.2.2 u hu o List.mem_cons_self).symm
  rw [binding?_define, if_neg fun hand => hne hand.1]
  simpa [Binds] using hbefore u hu

/-- Those who do not see it find what they found. -/
theorem get_define_of_not_sees (hnot : ¬σ.Sees t x o) :
    (σ.define o x v).get t x = σ.get t x := by
  have hbinding : ∀ u, u ≠ o → (σ.define o x v).binding? u x = σ.binding? u x := by
    intro u hu
    rw [binding?_define, if_neg fun hand => hu hand.1.symm]
  have hchain : ¬∃ before after, σ.chain t = before ++ o :: after ∧
      ∀ u ∈ before, (σ.binding? u x).isSome = false := by
    rintro ⟨before, after, hchain, hbefore⟩
    refine hnot (h.sees_iff.mpr ⟨before, after, hchain, fun u hu => ?_⟩)
    exact Bool.eq_false_iff.mp (hbefore u hu)
  obtain ⟨hsame, hother⟩ := find?_eq_of_not_hit
    (q := fun u => ((σ.define o x v).binding? u x).isSome)
    (fun u hu => congrArg Option.isSome (hbinding u hu)) hchain
  have howner : (σ.define o x v).owner? t x = σ.owner? t x := by
    unfold owner?
    rw [chain_define]
    exact hsame
  refine get_congr howner fun u hu => hbinding u ?_
  rintro rfl
  exact hother hu

/-- **One binding.**  If a scope binds a name, then the name has the value for those who see the
scope, and nothing else is read in another way. -/
theorem puts_define (ho : o < σ.size) : σ.Puts o x v (σ.define o x v) where
  seen hsees := h.get_define_of_sees ho hsees
  other {t y} hnot := by
    by_cases hy : y = x
    · rw [hy] at hnot ⊢
      exact h.get_define_of_not_sees fun hsees => hnot ⟨rfl, hsees⟩
    · exact get_define_of_ne hy

theorem get_eq_ok_iff : σ.get t y = .ok v ↔ ∃ o, σ.First t y o ∧ σ.binding? o y = some v := by
  constructor
  · intro hget
    obtain ⟨o, ho, hv⟩ := exists_of_get hget
    exact ⟨o, h.owner?_eq_some_iff.mp ho, hv⟩
  · rintro ⟨o, hfirst, hv⟩
    exact get_of_owner? (h.owner?_eq_some_iff.mpr hfirst) hv

theorem get_eq_error_iff {e : EvalError} :
    σ.get t y = .error e ↔ e = .undefinedVariable y ∧ σ.Unbound t y := by
  rw [← h.owner?_eq_none_iff]
  unfold get value?
  cases ho : σ.owner? t y with
  | none => simp [eq_comm]
  | some o =>
      obtain ⟨w, hw⟩ := Option.isSome_iff_exists.mp (binds_of_owner? ho)
      simp [hw]

theorem assign_eq_error_iff {e : EvalError} :
    σ.assign s x v = .error e ↔
      e = .undefinedVariable x ∧ σ.Unbound s x ∧ σ.hasParent s = true := by
  rw [← h.owner?_eq_none_iff]
  unfold assign target?
  cases ho : σ.owner? s x with
  | none => cases σ.hasParent s <;> simp [eq_comm]
  | some o => simp

/-- An assignment that succeeds binds the name where it is to go. -/
theorem takes_of_assign (hs : s < σ.size) (hassign : σ.assign s x v = .ok τ) :
    ∃ o, σ.Takes s x o ∧ σ.Puts o x v τ := by
  obtain ⟨o, htarget, rfl⟩ := exists_of_assign hassign
  rcases target?_cases htarget with ho | ⟨hnone, rfl, hparent⟩
  · exact ⟨o, .first (h.owner?_eq_some_iff.mp ho), h.puts_define (binds_of_owner? ho).lt⟩
  · have hroot : σ.hasParent o = false := by
      unfold hasParent
      rw [hparent]
      rfl
    exact ⟨o, .root (h.owner?_eq_none_iff.mp hnone) hroot, h.puts_define hs⟩

theorem laws : σ.Laws where
  get_ok := h.get_eq_ok_iff
  get_error := h.get_eq_error_iff
  lookup := h.owner?_eq_some_iff
  assign_error := h.assign_eq_error_iff
  assign_unchanged {s x v} hunbound hparent := by
    have herror : σ.assign s x v = .error (.undefinedVariable x) :=
      h.assign_eq_error_iff.mpr ⟨rfl, hunbound, hparent⟩
    show (σ.assign s x v).toOption.getD σ = σ
    rw [herror]
    rfl
  assign_ok {s x v} hs hnot := by
    cases hassign : σ.assign s x v with
    | error e => exact absurd (h.assign_eq_error_iff.mp hassign).2 hnot
    | ok τ =>
        show ∃ o, σ.Takes s x o ∧ σ.Puts o x v ((σ.assign s x v).toOption.getD σ)
        rw [hassign]
        exact h.takes_of_assign hs hassign
  define hs := h.puts_define hs
  quiet {request t y} hquiet ht := by
    cases request with
    | root => exact get_addScope ht
    | nested s => exact get_addScope ht
    | clone s => rfl
    | hasParent s => rfl
    | lookup s x => rfl
    | get s x => rfl
    | define s x v => cases hquiet
    | assign s x v => cases hquiet
  assign_seen {s t x v τ} hs hassign hsees := by
    obtain ⟨o, htakes, hputs⟩ := h.takes_of_assign hs hassign
    exact hputs.seen (hsees.trans htakes.sees)

end Forest

end Store

open Store

/-- **Scopes under aliasing obey the store laws**, whatever hosts and evaluations have done to them
and at every moment.  A name is read from the first scope on the walk outwards that binds it.  An
assignment fails exactly if there is none and the walk does not begin at a root, and then nothing
changes.  Otherwise it changes what is read by those who see the scope that it goes to, and nothing
else, as a definition does with the scope itself.  No other request changes what is read. -/
theorem Host.Reachable.scopes_laws {H : Host} (h : H.Reachable) {w : Stage} {vs : List Value}
    (hpasses : H.Passes w vs) : w.store.Laws := by
  have hreaches := ((h.obeys existing_keptByHosts).passes existing_keptByHosts hpasses).1
  exact (WellFormed.forest hreaches.holds.toSealed).laws

/-- A name that is bound in a root is assigned from a scope inside, and read from the root. -/
theorem Host.Reachable.scopes_laws_nested :
    let σ := (((empty.root.2).nested 0).2).define 0 "x" (.boolean true)
    let H : Host := ⟨⟨[], σ⟩, [1, 0], []⟩
    H.Reachable ∧ H.Passes H.toStage H.values ∧ σ.Laws ∧
      (σ.serve (.assign 1 "x" (.boolean false))).get 0 "x" = .ok (.boolean false) := by
  intro σ H
  have hroot : Host.start.Step ⟨⟨[], empty.root.2⟩, [0], []⟩ := .root
  have hnested : Host.Step ⟨⟨[], empty.root.2⟩, [0], []⟩
      ⟨⟨[], ((empty.root.2).nested 0).2⟩, [1, 0], []⟩ := .nested List.mem_cons_self
  have hdefine : Host.Step ⟨⟨[], ((empty.root.2).nested 0).2⟩, [1, 0], []⟩ H :=
    .define (List.mem_cons_of_mem _ List.mem_cons_self) (.inl nofun)
  have hreachable : H.Reachable := ((Relation.ReflTransGen.single hroot).tail hnested).tail hdefine
  have hpasses : H.Passes H.toStage H.values := .rest
  have hlaws : σ.Laws := Host.Reachable.scopes_laws hreachable hpasses
  have hchain : σ.Walk 1 [1, 0] := .outwards rfl (.root rfl)
  have hfirst : σ.First 1 "x" 0 := by
    refine ⟨⟨[1], [], hchain, List.forall_mem_singleton.mpr ?_⟩, ?_⟩
    · show ¬(σ.binding? 1 "x").isSome
      decide
    · show (σ.binding? 0 "x").isSome
      decide
  have hself : σ.Sees 0 "x" 0 := ⟨[], [], .root rfl, List.forall_mem_nil _⟩
  have hbound : ¬(σ.Unbound 1 "x" ∧ σ.hasParent 1 = true) := by
    rintro ⟨⟨ts, hwalk, hts⟩, -⟩
    obtain rfl := hwalk.unique hchain
    exact hts 0 (by decide) hfirst.binds
  obtain ⟨o, htakes, hputs⟩ := hlaws.assign_ok (v := .boolean false) (by decide) hbound
  refine ⟨hreachable, hpasses, hlaws, hputs.seen ?_⟩
  cases htakes with
  | first hother =>
      have hsame := (hlaws.lookup.mpr hother).symm.trans (hlaws.lookup.mpr hfirst)
      cases hsame
      exact hself
  | root hunbound hparent => cases hparent

end ExprLang
