import ExprLang.Proofs.Host
import ExprLang.Proofs.LexicalScope

/-! # The forest of scopes

The scopes of a store form a forest: whoever walks from a scope to the one around it, and so on,
comes to an end, at a scope with none around it (`Store.Forest`).  The reason is that a scope lies
in an older one, and stays there.  It holds although functions are bound in scopes that they were
made in or inside of, so that there are circles of scopes and functions.

`Store.chain` stops by itself where a scope does not lie in an older one, and so it cannot go round
in a circle.  A walk that has no such guard is `Store.Walk`, and the loop that looks a name up on
the way is `Store.search`.  In a forest they come to the same.

The scopes of hosts are a forest at every moment (`Host.Reachable.scopes_forest`). -/

namespace ExprLang

namespace Store

variable {σ τ : Store} {s t : ScopeId} {x : String}

/-! ### Walks -/

/-- The scopes that are passed on the way outwards from a scope, up to one with none around it. -/
inductive Walk (σ : Store) : ScopeId → List ScopeId → Prop
  | root {t : ScopeId} : σ.hasParent t = false → Walk σ t [t]
  | outwards {t p : ScopeId} {ts : List ScopeId} :
      σ.parent? t = some p → Walk σ p ts → Walk σ t (t :: ts)

/-- The loop that looks for a scope that binds the name, from the given one outwards.  It gives
nothing if it is not over after so many rounds. -/
def search (σ : Store) (x : String) : (rounds : ℕ) → Option ScopeId → Option (Option ScopeId)
  | _, none => some none
  | 0, some _ => none
  | rounds + 1, some t =>
    if (σ.binding? t x).isSome then some (some t) else σ.search x rounds (σ.parent? t)

/-- Where the walks end. -/
theorem Walk.exists_root {ts : List ScopeId} (h : σ.Walk t ts) :
    ∃ before r, ts = before ++ [r] ∧ σ.hasParent r = false := by
  induction h with
  | @root t ht => exact ⟨[], t, rfl, ht⟩
  | @outwards t p ts _ _ ih =>
      obtain ⟨before, r, rfl, hr⟩ := ih
      exact ⟨t :: before, r, rfl, hr⟩

theorem Walk.unique {ts us : List ScopeId} (h : σ.Walk t ts) (h' : σ.Walk t us) : ts = us := by
  induction h generalizing us with
  | @root t ht =>
      cases h' with
      | root => rfl
      | outwards hp _ =>
          rw [hasParent, hp] at ht
          cases ht
  | @outwards t p ts hp _ ih =>
      cases h' with
      | root ht =>
          rw [hasParent, hp] at ht
          cases ht
      | @outwards _ q us hq hrest =>
          rw [hp] at hq
          cases hq
          rw [ih hrest]

/-! ### Forests -/

/-- The scopes are a forest, and names can be looked up in it. -/
structure Forest (σ : Store) : Prop where
  older {t p : ScopeId} : σ.parent? t = some p → p < t
  /-- There is an end to each walk, and one way to go only. -/
  walk (t : ScopeId) {ts : List ScopeId} : σ.Walk t ts ↔ ts = σ.chain t
  root (t : ScopeId) : ∃ before r, σ.chain t = before ++ [r] ∧ σ.hasParent r = false
  nodup (t : ScopeId) : (σ.chain t).Nodup
  exist {t u : ScopeId} : t < σ.size → u ∈ σ.chain t → u < σ.size
  /-- There is an end to each search. -/
  search (t : ScopeId) (x : String) {rounds : ℕ} :
    t < rounds → σ.search x rounds (some t) = some (σ.owner? t x)
  found {t o : ScopeId} {x : String} :
    σ.owner? t x = some o →
      ∃ before after, σ.chain t = before ++ o :: after ∧ σ.Binds o x ∧ ∀ u ∈ before, ¬σ.Binds u x
  missed {t : ScopeId} {x : String} : σ.owner? t x = none → ∀ u ∈ σ.chain t, ¬σ.Binds u x
  captured {t : ScopeId} {x : String} {f : Closure} :
    σ.binding? t x = some (.function f) → f.scope < σ.size

section older

variable (h : ∀ {t p}, σ.parent? t = some p → p < t)
include h

theorem chain_of_parent? {p : ScopeId} (hp : σ.parent? t = some p) :
    σ.chain t = t :: σ.chain p := by
  rw [chain, hp]
  exact congrArg (t :: ·) (dif_pos (h hp))

theorem walk_chain (t : ScopeId) : σ.Walk t (σ.chain t) := by
  induction t using Nat.strongRecOn with
  | _ t ih =>
    cases hp : σ.parent? t with
    | none =>
        rw [chain, hp]
        exact .root (by rw [hasParent, hp]; rfl)
    | some p =>
        rw [chain_of_parent? h hp]
        exact .outwards hp (ih p (h hp))

/-- On the way outwards the scopes get older. -/
theorem pairwise_chain (t : ScopeId) : (σ.chain t).Pairwise (· > ·) ∧ ∀ u ∈ σ.chain t, u ≤ t := by
  induction t using Nat.strongRecOn with
  | _ t ih =>
    cases hp : σ.parent? t with
    | none =>
        rw [chain, hp]
        exact ⟨List.pairwise_singleton .., List.forall_mem_singleton.mpr le_rfl⟩
    | some p =>
        have hlt := h hp
        obtain ⟨hpairwise, hle⟩ := ih p hlt
        rw [chain_of_parent? h hp, List.pairwise_cons, List.forall_mem_cons]
        refine ⟨⟨fun u hu => (hle u hu).trans_lt hlt, hpairwise⟩, le_rfl, fun u hu => ?_⟩
        exact (hle u hu).trans hlt.le

theorem search_eq_owner? {rounds : ℕ} (ht : t < rounds) :
    σ.search x rounds (some t) = some (σ.owner? t x) := by
  induction rounds generalizing t with
  | zero => exact absurd ht (Nat.not_lt_zero t)
  | succ rounds ih =>
      rw [search, owner?_eq]
      by_cases hbinds : σ.Binds t x
      · rw [if_pos hbinds, if_pos (show (σ.binding? t x).isSome from hbinds)]
      · rw [if_neg hbinds, if_neg (show ¬(σ.binding? t x).isSome from hbinds)]
        -- The scope around is older, so that one round less is enough for it.
        cases hp : σ.parent? t with
        | none =>
            cases rounds <;> rfl
        | some p =>
            have hlt : p < t := h hp
            dsimp only
            rw [if_pos hlt]
            exact ih (hlt.trans_le (Nat.le_of_lt_succ ht))

end older

theorem WellFormed.forest (h : σ.WellFormed) : σ.Forest := by
  have older : ∀ {t p}, σ.parent? t = some p → p < t := fun hp => (h.parent trivial hp).2
  exact {
    older := older
    walk := fun t {ts} => by
      constructor
      · intro hwalk
        exact hwalk.unique (walk_chain older t)
      · rintro rfl
        exact walk_chain older t
    root := fun t => (walk_chain older t).exists_root
    nodup := fun t => (pairwise_chain older t).1.imp fun hgt => hgt.ne'
    exist := fun {t u} ht hu => ((pairwise_chain older t).2 u hu).trans_lt ht
    search := fun t x {rounds} ht => search_eq_owner? older ht
    found := fun {t o x} ho => by
      obtain ⟨hbinds, before, after, heq, hbefore⟩ := List.find?_eq_some_iff_append.mp ho
      refine ⟨before, after, heq, hbinds, fun u hu => ?_⟩
      unfold Binds
      simpa using hbefore u hu
    missed := fun {t x} ho u hu => List.find?_eq_none.mp ho u hu
    captured := fun hf => (h.bound trivial hf _ rfl).2.1 }

/-! ### Forests of hosts -/

/-- The scopes of the earlier store lie where they did. -/
def Stays (σ τ : Store) : Prop := ∀ t < σ.size, τ.parent? t = σ.parent? t

theorem Grows.stays {may : ScopeId → Prop} (h : σ.Grows may τ) : σ.Stays τ :=
  fun _ ht => h.parent? ht

theorem existing_keptByHosts : existing.KeptByHosts where
  toKept := kept_existing
  start := wellFormed_empty.existing []
  addScope {w parent} h hparent := by
    have hexists : ∀ p, parent = some p → True ∧ p < w.store.size := fun p hp =>
      ⟨trivial, (hparent p hp (.program [])).2.1⟩
    have hsealed := (h.toSealed.keeps_addScope hexists).sealed
    exact ⟨⟨WellFormed.existing hsealed w.past, writes_addScope parent⟩,
      fun e => ⟨trivial, lt_size_addScope parent, trivial⟩⟩
  owner h hs ho := fun e => ⟨trivial, (binds_of_owner? ho).lt, trivial⟩
  captured h hf := fun e => ⟨trivial, (hf.holds _ rfl).2.1, trivial⟩
  write h ht hv := ⟨h.define trivial hv, writes_define trivial⟩

end Store

open Store

/-- What begins in the course of a job, and what there is at its end, finds the scopes that there
were where they were. -/
theorem Job.stays {H : Host} (hexist : ∀ s ∈ H.handles, s < H.store.size) {j : Job}
    (hj : H.Allows j) (fuel : ℕ) :
    (j.events fuel H.store).Pairwise (fun a b => a.store.Stays b.store) ∧
      ∀ a ∈ j.events fuel H.store, ∀ τ ∈ (j.outcome fuel H.store).store?, a.store.Stays τ := by
  have hcourse : ∃ may, Course may H.store (j.events fuel H.store)
      (j.outcome fuel H.store).store? := by
    cases j with
    | evaluate s e => exact ⟨_, course_evaluate fuel e (hexist s hj)⟩
    | invoke f arguments => exact ⟨_, course_invoke fuel f arguments H.store⟩
  obtain ⟨may, hcourse⟩ := hcourse
  constructor
  · exact hcourse.ordered.imp Grows.stays
  · intro a ha τ hτ
    exact (hcourse.till τ hτ a ha).stays

/-- **The scopes of hosts are a forest**, at every moment and whatever has happened till then.  All
scopes that the host has, or that a function at hand has been made in, are in it, and each of them
stays in its place. -/
theorem Host.Reachable.scopes_forest {H H' : Host} (h : H.Reachable) (hlater : H.Later H') :
    (∀ w vs, H'.Passes w vs →
      w.store.Forest ∧ H.store.Stays w.store ∧ (∀ s ∈ H'.handles, s < w.store.size) ∧
        ∀ f, .function f ∈ vs → f.scope < w.store.size) ∧
    ∀ j fuel, H'.Allows j →
      (j.events fuel H'.store).Pairwise (fun a b => a.store.Stays b.store) ∧
        ∀ a ∈ j.events fuel H'.store, ∀ τ ∈ (j.outcome fuel H'.store).store?, a.store.Stays τ := by
  have hI := existing_keptByHosts
  obtain ⟨hobeys, hle⟩ := (h.obeys hI).later hI hlater
  have hexist : ∀ s ∈ H'.handles, s < H'.store.size := fun s hs =>
    (hobeys.handles s hs (.program [])).2.1
  constructor
  · intro w vs hpasses
    obtain ⟨hreaches, hvs⟩ := hobeys.passes hI hpasses
    refine ⟨WellFormed.forest hreaches.holds.toSealed, ?_, ?_, ?_⟩
    · exact fun t ht => (hle.trans hreaches.le).parent? ht
    · exact fun s hs => (hexist s hs).trans_le hreaches.le.size_le
    · exact fun f hf => ((hvs _ hf).holds f rfl).2.1
  · exact fun j fuel hj => Job.stays hexist hj fuel

/-- A function is bound in the scope in which it was made, so that each of the two leads to the
other. -/
theorem Host.Reachable.scopes_forest_circle :
    let e : Expr := .assignment (.variable "f") (.lambda [] (.variable "f"))
    ∃ H H' : Host, H.Reachable ∧ H.Later H' ∧ H'.Allows (.evaluate 0 e) ∧
      (∃ f, H'.store.binding? 0 "f" = some (.function f) ∧ f.scope = 0) ∧
      H'.store.Forest ∧ H.store.Stays H'.store ∧ (∀ s ∈ H'.handles, s < H'.store.size) ∧
      (log 2 0 e H'.store).Pairwise fun a b => a.store.Stays b.store := by
  intro e
  let H : Host := ⟨⟨[], empty.root.2⟩, [0], []⟩
  have hstep : Host.start.Step H := .root
  have hscope : ((evaluate 2 0 (.assignment (.variable "f") (.lambda [] (.variable "f")))
      empty.root.2).final?.bind fun p => (p.2.binding? 0 "f").bind fun v =>
        v.function?.map Closure.scope) = some 0 := by decide +kernel
  obtain ⟨⟨vs, τ⟩, hend, hbound⟩ := Option.bind_eq_some_iff.mp hscope
  obtain ⟨v, hv, hfunction⟩ := Option.bind_eq_some_iff.mp hbound
  obtain ⟨f, hf, hzero⟩ := Option.map_eq_some_iff.mp hfunction
  obtain rfl : v = .function f := by
    cases v <;> cases hf
    rfl
  let H' : Host := ⟨⟨log 2 0 e empty.root.2, τ⟩, [0], vs ++ []⟩
  have hdone : (Job.outcome 2 H.store (.evaluate 0 e)).final? = some (vs, τ) := hend
  have hjob : H.Step H' := .job (List.mem_singleton_self 0) hdone
  have hreachable : H.Reachable := .single hstep
  have hlater : H.Later H' := .single hjob
  have hallows : H'.Allows (.evaluate 0 e) := List.mem_singleton_self 0
  obtain ⟨hmoments, hjobs⟩ := Host.Reachable.scopes_forest hreachable hlater
  obtain ⟨hforest, hstays, hexist, -⟩ := hmoments _ _ .rest
  exact ⟨H, H', hreachable, hlater, hallows, ⟨f, hv, hzero⟩, hforest, hstays, hexist,
    (hjobs (.evaluate 0 e) 2 hallows).1⟩

end ExprLang
