import ExprLang.Proofs.Region
import ExprLang.Proofs.Resolved

/-! # Where code runs

Code below lambdas runs in scopes that lie inside each other as the lambdas do: each of them was
made when a function of one of the lambdas was invoked, in the scope for what is around that lambda
(`Store.Nest`).

In such a scope the place of a variable, which `Expr.resolve` finds from the text alone, leads to
the scope to which the variable belongs (`Store.Hosts.ownerAt_of`, `Store.Hosts.targetAt_of`).  The
reason is that the scopes of invocations bind the parameters and nothing else.  `Moment.Lexical`
says what follows for a moment in which a variable is read or assigned. -/

namespace ExprLang

/-- The code belongs to the expression, below the given lambdas, or else it comes from elsewhere. -/
inductive Expr.Part (e : Expr) : Option (List Lambda) → Expr → Prop
  | whole : Part e (some []) e
  | elsewhere {code} : Part e none code
  | body {ls parameters body} :
      Part e ls (.lambda parameters body) → Part e (ls.map (⟨parameters, body⟩ :: ·)) body
  | function {ls function arguments} : Part e ls (.call function arguments) → Part e ls function
  | argument {ls function arguments a} :
      Part e ls (.call function arguments) → a ∈ arguments → Part e ls a
  | test {ls test consequent alternative} :
      Part e ls (.condition test consequent alternative) → Part e ls test
  | consequent {ls test consequent alternative} :
      Part e ls (.condition test consequent alternative) → Part e ls consequent
  | alternative {ls test consequent alternative} :
      Part e ls (.condition test consequent (some alternative)) → Part e ls alternative
  | target {ls target value} : Part e ls (.assignment target value) → Part e ls target
  | value {ls target value} : Part e ls (.assignment target value) → Part e ls value
  | left {ls op left right} : Part e ls (.binary op left right) → Part e ls left
  | right {ls op left right} : Part e ls (.binary op left right) → Part e ls right
  | item {ls body a} : Part e ls (.program body) → a ∈ body → Part e ls a

/-! ### Scopes and the lambdas around the code -/

/-- The scope is the one for code below the lambdas: it was made when a function of the innermost
one was invoked, the scope around it, in which that function was made, is the one for the code
around that lambda, and so on up to the scope `s`. -/
inductive Store.Nest (σ : Store) (k : Record) (s : ScopeId) : List Lambda → ScopeId → Prop
  | outermost : Nest σ k s [] s
  | inside {ls t f} :
      k.frame t = some f → k.code f.id = some (f, f.body.resolve (some (f.source :: ls))) →
      σ.Frames t f → Nest σ k s ls f.scope → Nest σ k s (f.source :: ls) t

/-- The scope is one for code below the lambdas, or any scope if the code comes from elsewhere. -/
structure Store.Hosts (σ : Store) (k : Record) (s : ScopeId) (enclosing : Option (List Lambda))
    (t : ScopeId) : Prop where
  lt : t < σ.size
  nest : ∀ ls ∈ enclosing, σ.Nest k s ls t

namespace Store.Nest

variable {σ τ : Store} {k k' : Record} {s t : ScopeId} {ls : List Lambda} {x : String}

theorem mono (h : σ.Nest k s ls t)
    (hcode : ∀ {i c}, k.code i = some c → k'.code i = some c)
    (hframe : ∀ {u f}, k.frame u = some f → k'.frame u = some f)
    (hframes : ∀ {u f ls}, k.frame u = some f →
      k.code f.id = some (f, f.body.resolve (some ls)) → σ.Frames u f → τ.Frames u f) :
    τ.Nest k' s ls t := by
  induction h with
  | outermost => exact .outermost
  | inside hf hc hfr _ ih => exact .inside (hframe hf) (hcode hc) (hframes hf hc hfr) ih

/-- A parameter of a lambda belongs to the scope that was made for its function. -/
theorem bound (h : σ.Nest k s ls t) (hσ : σ.WellFormed) {i : ℕ}
    (hi : (ls.findIdx? fun l => x ∈ l.parameters) = some i) :
    ∃ u f, σ.outward i t = some u ∧ σ.owner? t x = some u ∧ k.frame u = some f ∧
      ls[i]? = some f.source := by
  induction h generalizing i with
  | outermost => cases hi
  | @inside ls t f hf _ hframes _ ih =>
      obtain ⟨hparent, hbinds⟩ := hframes
      rw [List.findIdx?_cons] at hi
      rw [owner?_eq]
      by_cases hx : x ∈ f.source.parameters
      · rw [if_pos (decide_eq_true hx)] at hi
        cases hi
        rw [if_pos ((hbinds x).mpr hx)]
        exact ⟨t, f, rfl, rfl, hf, rfl⟩
      · rw [if_neg (by simpa using hx)] at hi
        obtain ⟨j, hj, rfl⟩ := Option.map_eq_some_iff.mp hi
        obtain ⟨u, g, hout, howner, hg, hsource⟩ := ih hj
        refine ⟨u, g, ?_, ?_, hg, hsource⟩
        · rw [outward, hparent]
          exact hout
        · rw [if_neg (mt (hbinds x).mp hx), hparent]
          dsimp only
          rwa [if_pos (hσ.parent trivial hparent).2]

/-- A name that is no parameter belongs to whom it belongs outside of the lambdas. -/
theorem free (h : σ.Nest k s ls t) (hσ : σ.WellFormed) (hx : ∀ l ∈ ls, x ∉ l.parameters) :
    σ.outward ls.length t = some s ∧ σ.owner? t x = σ.owner? s x := by
  induction h with
  | outermost => exact ⟨rfl, rfl⟩
  | @inside ls t f _ _ hframes _ ih =>
      obtain ⟨hparent, hbinds⟩ := hframes
      obtain ⟨hf, hls⟩ := List.forall_mem_cons.mp hx
      obtain ⟨hout, howner⟩ := ih hls
      constructor
      · rw [List.length_cons, outward, hparent]
        exact hout
      · rw [owner?_eq σ t, if_neg (mt (hbinds x).mp hf), hparent]
        dsimp only
        rwa [if_pos (hσ.parent trivial hparent).2]

theorem hasParent (h : σ.Nest k s ls t) (hls : ls ≠ []) : σ.hasParent t = true := by
  cases h with
  | outermost => exact absurd rfl hls
  | inside _ _ hframes _ =>
      unfold Store.hasParent
      rw [hframes.1]
      rfl

end Store.Nest

/-! ### Places -/

section places

variable {σ : Store} {k : Record} {s t u : ScopeId} {ls : List Lambda} {x : String} {i n : ℕ}

theorem Occurrence.place_eq_bound {o : Occurrence} :
    o.place = .bound i ↔ (o.enclosing.findIdx? fun l => o.name ∈ l.parameters) = some i := by
  unfold Occurrence.place
  split
  · next heq => simp [heq]
  · next heq => simp [heq]

theorem Occurrence.place_eq_free {o : Occurrence} :
    o.place = .free n ↔ n = o.enclosing.length ∧ ∀ l ∈ o.enclosing, o.name ∉ l.parameters := by
  have hnone : (o.enclosing.findIdx? fun l => o.name ∈ l.parameters) = none ↔
      ∀ l ∈ o.enclosing, o.name ∉ l.parameters := by
    simp [List.findIdx?_eq_none_iff]
  unfold Occurrence.place
  split
  · next heq =>
      rw [← hnone, heq]
      simp
  · next heq =>
      rw [← hnone, heq]
      simp [eq_comm]

theorem Store.target?_of_owner? (h : σ.owner? t x = some u) : σ.target? t x = some u := by
  unfold Store.target?
  rw [h]

/-- Where a name is free below lambdas, it is assigned to if it belongs to a scope already. -/
theorem Store.target?_of_hasParent (h : σ.hasParent t = true) :
    σ.target? t x = σ.owner? t x := by
  unfold Store.target?
  rw [h]
  cases σ.owner? t x <;> rfl

section hosts

variable {enclosing : Option (List Lambda)} (h : σ.Hosts k s enclosing t) (hσ : σ.WellFormed)
include h hσ

/-- The place of a variable is the scope to which it belongs. -/
theorem Store.Hosts.ownerAt_of (x : String) :
    σ.ownerAt t (.of enclosing x) = σ.owner? t x := by
  cases enclosing with
  | none => rfl
  | some ls =>
      have h := h.nest ls rfl
      unfold Site.of
      dsimp only
      cases hplace : Occurrence.place ⟨x, ls⟩ with
      | bound i =>
          obtain ⟨u, -, hout, howner, -⟩ := h.bound hσ (Occurrence.place_eq_bound.mp hplace)
          rw [howner]
          exact hout
      | free n =>
          obtain ⟨rfl, hx⟩ := Occurrence.place_eq_free.mp hplace
          obtain ⟨hout, howner⟩ := h.free hσ hx
          rw [howner, Store.ownerAt, hout]
          rfl

/-- Assignments to a variable at its place go where they would go. -/
theorem Store.Hosts.targetAt_of (x : String) :
    σ.targetAt t (.of enclosing x) = σ.target? t x := by
  cases enclosing with
  | none => rfl
  | some ls =>
      have howner := h.ownerAt_of hσ x
      have h := h.nest ls rfl
      unfold Site.of at howner ⊢
      dsimp only at howner ⊢
      cases hplace : Occurrence.place ⟨x, ls⟩ with
      | bound i =>
          obtain ⟨u, -, hout, howner, -⟩ := h.bound hσ (Occurrence.place_eq_bound.mp hplace)
          rw [Store.target?_of_owner? howner]
          exact hout
      | free n =>
          rw [hplace] at howner
          cases n with
          | zero => rfl
          | succ n =>
              obtain ⟨hlength, -⟩ := Occurrence.place_eq_free.mp hplace
              have hls : ls ≠ [] := List.ne_nil_of_length_eq_add_one hlength.symm
              rw [Store.target?_of_hasParent (h.hasParent hls), ← howner]
              rfl

end hosts

end places

/-! ### Moments -/

/-- What happens when a variable is read or assigned, in an evaluation of the expression `e` in the
scope `s` or later. -/
structure Moment.Lexical (e : Expr) (s : ScopeId) (k : Record) (m : Moment) : Prop where
  /-- The variable occurs there in the expression. -/
  occurs : e.Part (some m.occurrence.enclosing) (.variable m.occurrence.name)
  /-- The code runs in a scope for what is below those lambdas. -/
  nest : m.store.Nest k s m.occurrence.enclosing m.scope
  /-- A parameter of a lambda belongs to the scope as many steps outwards.  It was made for the body
  of a function of that lambda. -/
  bound {i : ℕ} :
    m.occurrence.place = .bound i →
      ∃ u f, m.store.outward i m.scope = some u ∧
        m.store.owner? m.scope m.occurrence.name = some u ∧
        m.store.target? m.scope m.occurrence.name = some u ∧
        k.frame u = some f ∧ m.occurrence.enclosing[i]? = some f.source
  /-- Any other name belongs to whom it belongs as seen from the scope of the evaluation.  If it
  belongs to none, an assignment introduces it only there, and only outside of all lambdas. -/
  free {n : ℕ} :
    m.occurrence.place = .free n →
      m.store.outward n m.scope = some s ∧
        m.store.owner? m.scope m.occurrence.name = m.store.owner? s m.occurrence.name ∧
        m.store.target? m.scope m.occurrence.name =
          match m.store.owner? s m.occurrence.name with
          | some u => some u
          | none => if n = 0 ∧ m.store.hasParent s = false then some s else none

section moments

variable {e : Expr} {σ : Store} {k k' : Record} {s t : ScopeId} {ls : List Lambda} {x : String}

theorem Store.Nest.lexical (h : σ.Nest k s ls t) (hσ : σ.WellFormed)
    (hpart : e.Part (some ls) (.variable x)) : Moment.Lexical e s k ⟨t, ⟨x, ls⟩, σ⟩ where
  occurs := hpart
  nest := h
  bound hplace := by
    obtain ⟨u, f, hout, howner, hframe, hsource⟩ :=
      h.bound hσ (Occurrence.place_eq_bound.mp hplace)
    exact ⟨u, f, hout, howner, target?_of_owner? howner, hframe, hsource⟩
  free {n} hplace := by
    obtain ⟨hlength, hx⟩ := Occurrence.place_eq_free.mp hplace
    obtain ⟨hout, howner⟩ := h.free hσ hx
    refine ⟨hlength ▸ hout, howner, ?_⟩
    cases h with
    | outermost =>
        cases hlength
        dsimp only
        unfold Store.target?
        cases σ.owner? s x with
        | some u => rfl
        | none => cases σ.hasParent s <;> rfl
    | inside hf hc hframes hnest =>
        have hparent := (Nest.inside hf hc hframes hnest).hasParent (List.cons_ne_nil _ _)
        have hn : n ≠ 0 := hlength ▸ Nat.succ_ne_zero _
        rw [target?_of_hasParent hparent, howner]
        dsimp only
        cases σ.owner? s x <;> simp [hn]

theorem Moment.Lexical.mono {m : Moment} (h : m.Lexical e s k)
    (hcode : ∀ {i c}, k.code i = some c → k'.code i = some c)
    (hframe : ∀ {u f}, k.frame u = some f → k'.frame u = some f) : m.Lexical e s k' where
  occurs := h.occurs
  nest := h.nest.mono hcode hframe fun _ _ hframes => hframes
  bound hplace := by
    obtain ⟨u, f, hout, howner, htarget, hf, hsource⟩ := h.bound hplace
    exact ⟨u, f, hout, howner, htarget, hframe hf, hsource⟩
  free := h.free

end moments

end ExprLang
