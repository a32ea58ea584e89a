import ExprLang.Proofs.Matching

/-! # Stores that match

Two stores match if the scopes and functions of the one that a matching covers exist, and so do
those of the other for which they stand, and what is bound in these scopes and what lies around them
matches too (`Store.Matched`).  The matching need not cover all of a store: what it covers leads
nowhere else.

Names that stand for each other belong to scopes that do (`Store.Matched.owner?`), and the
operations on stores, done on both sides, keep them matched. -/

namespace ExprLang

/-! ### Values that may be missing -/

section options

variable {α β : Type} {r : α → β → Prop}

theorem exists_of_rel_some {a : α} {o : Option β} (h : Option.Rel r (some a) o) :
    ∃ b, o = some b ∧ r a b := by
  cases h with
  | some hr => exact ⟨_, rfl, hr⟩

theorem eq_none_of_rel {o : Option β} (h : Option.Rel r none o) : o = none := by
  cases h
  rfl

theorem rel_mono {r' : α → β → Prop} (h : ∀ {a b}, r a b → r' a b) {a : Option α} {b : Option β}
    (hr : Option.Rel r a b) : Option.Rel r' a b := by
  cases hr with
  | some hr => exact .some (h hr)
  | none => exact .none

theorem rel_symm {r' : β → α → Prop} (h : ∀ {a b}, r a b → r' b a) {a : Option α} {b : Option β}
    (hr : Option.Rel r a b) : Option.Rel r' b a := by
  cases hr with
  | some hr => exact .some (h hr)
  | none => exact .none

theorem isSome_eq_of_rel {a : Option α} {b : Option β} (h : Option.Rel r a b) :
    a.isSome = b.isSome := by
  cases h <;> rfl

end options

/-! ### The next numbers -/

section next

variable {r : ℕ → ℕ → Prop} {n n' i i' j j' : ℕ} (hlt : ∀ {i j}, r i j → i < n ∧ j < n')
include hlt

/-- With the next two numbers the numbers are below those that follow. -/
theorem lt_succ_of_rel_or_next (h : r i j ∨ (i = n ∧ j = n')) : i < n + 1 ∧ j < n' + 1 := by
  rcases h with hij | ⟨rfl, rfl⟩
  · obtain ⟨hi, hj⟩ := hlt hij
    exact ⟨hi.trans (Nat.lt_succ_self _), hj.trans (Nat.lt_succ_self _)⟩
  · exact ⟨Nat.lt_succ_self _, Nat.lt_succ_self _⟩

/-- The next two numbers stand for each other only, since they are new. -/
theorem eq_iff_of_rel_or_next (hone : ∀ {i i' j j'}, r i i' → r j j' → (i = j ↔ i' = j'))
    (hi : r i i' ∨ (i = n ∧ i' = n')) (hj : r j j' ∨ (j = n ∧ j' = n')) : i = j ↔ i' = j' := by
  rcases hi with hi | ⟨rfl, rfl⟩ <;> rcases hj with hj | ⟨rfl, rfl⟩
  · exact hone hi hj
  · obtain ⟨hi, hi'⟩ := hlt hi
    exact iff_of_false hi.ne hi'.ne
  · obtain ⟨hj, hj'⟩ := hlt hj
    exact iff_of_false hj.ne' hj'.ne'
  · exact iff_of_true rfl rfl

end next

namespace Store

/-! ### Matched stores -/

/-- The scopes match: what they bind does, and what lies around them stands for each other. -/
structure ScopesMatch (R : Names) (w : Matching) (σ σ' : Store) (t t' : ScopeId) : Prop where
  oneToOne : (w.names t).OneToOne
  within {x y} : w.names t x y → R x y
  parent? : Option.Rel w.scopes (σ.parent? t) (σ'.parent? t')
  older {p} : σ.parent? t = some p → p < t
  older' {p'} : σ'.parent? t' = some p' → p' < t'
  /-- Whatever is bound stands for something. -/
  covers {x} : σ.Binds t x → ∃ y, w.names t x y
  covers' {y} : σ'.Binds t' y → ∃ x, w.names t x y
  /-- Names that stand for each other are bound to values that match, if they are bound. -/
  binding? {x y} :
    w.names t x y → Option.Rel (Value.Matches R w) (σ.binding? t x) (σ'.binding? t' y)
  /-- Names that are not bound stand for each other in the scope around as well. -/
  outward {p x y} : w.names t x y → σ.parent? t = some p → ¬σ.Binds t x → w.names p x y
  /-- In a scope that has none around it only equal names stand for each other. -/
  root {x y} : w.names t x y → σ.parent? t = none → x = y

/-- What the matching covers exists on both sides, and matches. -/
structure Matched (R : Names) (w : Matching) (σ σ' : Store) : Prop where
  scopes_exist {t t'} : w.scopes t t' → t < σ.size ∧ t' < σ'.size
  functions_exist {i j} : w.functions i j → i < σ.functions ∧ j < σ'.functions
  scopes_one {t t' u u'} : w.scopes t t' → w.scopes u u' → (t = u ↔ t' = u')
  functions_one {i i' j j'} : w.functions i i' → w.functions j j' → (i = j ↔ i' = j')
  scope {t t'} : w.scopes t t' → ScopesMatch R w σ σ' t t'

variable {R : Names} {w w' : Matching} {σ σ' τ τ' : Store} {s s' t t' : ScopeId} {x y : String}
  {v v' : Value}

/-! ### Looking names up -/

theorem ScopesMatch.binds_iff (h : ScopesMatch R w σ σ' t t') (hx : w.names t x y) :
    σ.Binds t x ↔ σ'.Binds t' y := by
  unfold Binds
  rw [isSome_eq_of_rel (h.binding? hx)]

namespace Matched

section lookups

variable (h : Matched R w σ σ')
include h

/-- Names that stand for each other belong to scopes that do, or they are equal and belong to
none. -/
theorem owner? (hs : w.scopes s s') (hx : w.names s x y) :
    (∃ o o', σ.owner? s x = some o ∧ σ'.owner? s' y = some o' ∧ w.scopes o o' ∧ w.names o x y) ∨
      (σ.owner? s x = none ∧ σ'.owner? s' y = none ∧ x = y) := by
  induction s using Nat.strongRecOn generalizing s' with
  | _ s ih =>
    have hscope := h.scope hs
    rw [owner?_eq, owner?_eq σ']
    by_cases hbinds : σ.Binds s x
    · rw [if_pos hbinds, if_pos ((hscope.binds_iff hx).mp hbinds)]
      exact .inl ⟨s, s', rfl, rfl, hs, hx⟩
    · rw [if_neg hbinds, if_neg (mt (hscope.binds_iff hx).mpr hbinds)]
      have hparent := hscope.parent?
      cases hp : σ.parent? s with
      | none =>
          rw [hp] at hparent
          rw [eq_none_of_rel hparent]
          exact .inr ⟨rfl, rfl, hscope.root hx hp⟩
      | some p =>
          rw [hp] at hparent
          obtain ⟨p', hp', hmatch⟩ := exists_of_rel_some hparent
          have hlt := hscope.older hp
          rw [hp']
          dsimp only
          rw [if_pos hlt, if_pos (hscope.older' hp')]
          exact ih p hlt hmatch (hscope.outward hx hp hbinds)

/-- Names that stand for each other have values that match, or they are equal and have none. -/
theorem value? (hs : w.scopes s s') (hx : w.names s x y) :
    (∃ v v', σ.value? s x = some v ∧ σ'.value? s' y = some v' ∧ Value.Matches R w v v') ∨
      (σ.value? s x = none ∧ σ'.value? s' y = none ∧ x = y) := by
  unfold Store.value?
  rcases h.owner? hs hx with ⟨o, o', ho, ho', hmatch, hname⟩ | ⟨ho, ho', heq⟩
  · obtain ⟨v, hv⟩ := Option.isSome_iff_exists.mp (binds_of_owner? ho)
    have hvalue := (h.scope hmatch).binding? hname
    rw [hv] at hvalue
    obtain ⟨v', hv', hvalue⟩ := exists_of_rel_some hvalue
    rw [ho, ho', Option.bind_some, Option.bind_some]
    exact .inl ⟨v, v', hv, hv', hvalue⟩
  · rw [ho, ho']
    exact .inr ⟨rfl, rfl, heq⟩

/-- Assignments to names that stand for each other go to scopes that do, or the names are equal and
cannot be assigned to. -/
theorem target? (hs : w.scopes s s') (hx : w.names s x y) :
    (∃ t t', σ.target? s x = some t ∧ σ'.target? s' y = some t' ∧ w.scopes t t' ∧
      w.names t x y) ∨
      (σ.target? s x = none ∧ σ'.target? s' y = none ∧ x = y) := by
  unfold Store.target?
  rcases h.owner? hs hx with ⟨o, o', ho, ho', hmatch, hname⟩ | ⟨ho, ho', heq⟩
  · rw [ho, ho']
    exact .inl ⟨o, o', rfl, rfl, hmatch, hname⟩
  · have hparent : σ.hasParent s = σ'.hasParent s' := isSome_eq_of_rel (h.scope hs).parent?
    rw [ho, ho', hparent]
    dsimp only
    split
    · exact .inr ⟨rfl, rfl, heq⟩
    · exact .inl ⟨s, s', rfl, rfl, hs, hx⟩

end lookups

end Matched

/-! ### Changing both stores -/

/-- Scopes in which nothing changes go on to match. -/
theorem ScopesMatch.later (h : ScopesMatch R w σ σ' t t') (hle : w.Le w') (ht : w.scopes t t')
    (hparent : τ.parent? t = σ.parent? t) (hparent' : τ'.parent? t' = σ'.parent? t')
    (hbinding : ∀ x, τ.binding? t x = σ.binding? t x)
    (hbinding' : ∀ x, τ'.binding? t' x = σ'.binding? t' x) : ScopesMatch R w' τ τ' t t' := by
  have hbinds : ∀ {x}, τ.Binds t x ↔ σ.Binds t x := fun {x} => by rw [Binds, hbinding, Binds]
  have hbinds' : ∀ {x}, τ'.Binds t' x ↔ σ'.Binds t' x := fun {x} => by
    rw [Binds, hbinding', Binds]
  have hnames := hle.names ht
  exact {
    oneToOne := by
      rw [hnames]
      exact h.oneToOne
    within := fun hx => h.within (hnames ▸ hx)
    parent? := by
      rw [hparent, hparent']
      exact rel_mono hle.scopes h.parent?
    older := fun hp => h.older (hparent ▸ hp)
    older' := fun hp => h.older' (hparent' ▸ hp)
    covers := fun hx => by
      rw [hnames]
      exact h.covers (hbinds.mp hx)
    covers' := fun hy => by
      rw [hnames]
      exact h.covers' (hbinds'.mp hy)
    binding? := fun {x y} hx => by
      rw [hbinding, hbinding']
      exact rel_mono (fun hv => hv.mono hle) (h.binding? (hnames ▸ hx))
    outward := fun {p x y} hx hp hnot => by
      rw [hparent] at hp
      have hmatch := h.parent?
      rw [hp] at hmatch
      obtain ⟨p', -, hmatch⟩ := exists_of_rel_some hmatch
      rw [hle.names hmatch]
      exact h.outward (hnames ▸ hx) hp (mt hbinds.mpr hnot)
    root := fun hx hp => h.root (hnames ▸ hx) (hparent ▸ hp) }

/-- Binding names in both stores keeps the values of two other names matched, if these are the names
bound on both sides or on none. -/
theorem rel_define {P : Value → Value → Prop} {p q : String} {u u' : ScopeId}
    (hold : Option.Rel P (σ.binding? u x) (σ'.binding? u' y))
    (hscope : t = u ↔ t' = u') (hname : p = x ↔ q = y) (hexist : u < σ.size ↔ u' < σ'.size)
    (hv : P v v') :
    Option.Rel P ((σ.define t p v).binding? u x) ((σ'.define t' q v').binding? u' y) := by
  have hiff : (t = u ∧ p = x ∧ u < σ.size) ↔ (t' = u' ∧ q = y ∧ u' < σ'.size) :=
    and_congr hscope (and_congr hname hexist)
  rw [binding?_define, binding?_define]
  by_cases hbound : t = u ∧ p = x ∧ u < σ.size
  · rw [if_pos hbound, if_pos (hiff.mp hbound)]
    exact .some hv
  · rw [if_neg hbound, if_neg (mt hiff.mpr hbound)]
    exact hold

theorem ScopesMatch.define (h : ScopesMatch R w σ σ' t t') {p q : String} (hpq : w.names t p q)
    (hv : Value.Matches R w v v') (hlt : t < σ.size) (hlt' : t' < σ'.size) :
    ScopesMatch R w (σ.define t p v) (σ'.define t' q v') t t' where
  oneToOne := h.oneToOne
  within := h.within
  parent? := by
    rw [parent?_define, parent?_define]
    exact h.parent?
  older hp := h.older (by rwa [parent?_define] at hp)
  older' hp := h.older' (by rwa [parent?_define] at hp)
  covers hbinds := by
    rcases binds_define.mp hbinds with hbefore | ⟨-, rfl, -⟩
    · exact h.covers hbefore
    · exact ⟨q, hpq⟩
  covers' hbinds := by
    rcases binds_define.mp hbinds with hbefore | ⟨-, rfl, -⟩
    · exact h.covers' hbefore
    · exact ⟨p, hpq⟩
  binding? hx := rel_define (h.binding? hx) (by simp) (h.oneToOne hpq hx) (by simp [hlt, hlt']) hv
  outward hx hp hnot := by
    rw [parent?_define] at hp
    exact h.outward hx hp fun hbefore => hnot (binds_define.mpr (.inl hbefore))
  root hx hp := h.root hx (by rwa [parent?_define] at hp)

/-- The scopes of invocations bind matching values to names that stand in the same places. -/
theorem rel_defineAll {P : Value → Value → Prop} {ps qs : List String} {vs vs' : List Value}
    (hps : List.Forall₂ R ps qs) (hvs : List.Forall₂ P vs vs')
    (hundefined : P .undefined .undefined) (hplaces : ∀ b ∈ ps.zip qs, (b.1 = x ↔ b.2 = y))
    (ht : t < σ.size) (ht' : t' < σ'.size)
    (hold : Option.Rel P (σ.binding? t x) (σ'.binding? t' y)) :
    Option.Rel P ((σ.defineAll t (bindArguments ps vs)).binding? t x)
      ((σ'.defineAll t' (bindArguments qs vs')).binding? t' y) := by
  induction hps generalizing σ σ' vs vs' with
  | nil => exact hold
  | @cons p q ps qs _ _ ih =>
      obtain ⟨hpq, hplaces⟩ := List.forall_mem_cons.mp hplaces
      have hdefine : ∀ {v v'}, P v v' →
          Option.Rel P ((σ.define t p v).binding? t x) ((σ'.define t' q v').binding? t' y) :=
        rel_define hold (by simp) hpq (by simp [ht, ht'])
      have hlt : ∀ v, t < (σ.define t p v).size := fun v => by rwa [size_define]
      have hlt' : ∀ v, t' < (σ'.define t' q v).size := fun v => by rwa [size_define]
      cases hvs with
      | nil => exact ih .nil hplaces (hlt _) (hlt' _) (hdefine hundefined)
      | cons hv hvs => exact ih hvs hplaces (hlt _) (hlt' _) (hdefine hv)

/-- The scopes of invocations match if the functions and the arguments do. -/
theorem ScopesMatch.enter {f g : Closure} (hle : w.Le (w.enter σ σ' f g)) (hfg : f.Matches R w g)
    (h : ScopesMatch R w σ σ' f.scope g.scope) (hlt : f.scope < σ.size) (hlt' : g.scope < σ'.size)
    {vs vs' : List Value} (hvs : List.Forall₂ (Value.Matches R w) vs vs') :
    ScopesMatch R (w.enter σ σ' f g) (σ.enter f vs).2 (σ'.enter g vs').2 σ.size σ'.size := by
  have hps := hfg.parameters
  have hnames := w.names_enter σ σ' f g
  have hparent : (σ.enter f vs).2.parent? σ.size = some f.scope := by
    rw [parent?_enter, if_pos rfl]
  have hparent' : (σ'.enter g vs').2.parent? σ'.size = some g.scope := by
    rw [parent?_enter, if_pos rfl]
  have hbinds {x} : (σ.enter f vs).2.Binds σ.size x ↔ x ∈ f.parameters := (frames_enter f vs).2 x
  have hbinds' {y} : (σ'.enter g vs').2.Binds σ'.size y ↔ y ∈ g.parameters :=
    (frames_enter g vs').2 y
  exact {
    oneToOne := by
      rw [hnames]
      exact Names.Under.oneToOne h.oneToOne hps
    within := fun hx => Names.Under.within (hnames ▸ hx) hps h.within
    parent? := by
      rw [hparent, hparent']
      exact .some (hle.scopes hfg.scopes)
    older := fun hp => by
      rw [hparent] at hp
      cases hp
      exact hlt
    older' := fun hp => by
      rw [hparent'] at hp
      cases hp
      exact hlt'
    covers := fun hx => by
      rw [hnames]
      obtain ⟨y, hmem⟩ := exists_mem_zip hps.allowed (hbinds.mp hx)
      exact ⟨y, .place hmem⟩
    covers' := fun hy => by
      rw [hnames]
      obtain ⟨x, hmem⟩ := exists_mem_zip' hps.allowed (hbinds'.mp hy)
      exact ⟨x, .place hmem⟩
    binding? := fun {x y} hx => by
      rw [hnames] at hx
      have hvs := hvs.imp fun _ _ hv => hv.mono hle
      rw [snd_enter, snd_enter]
      refine rel_defineAll hps.allowed hvs .undefined (hx.places hps) ?_ ?_ ?_
      · simp
      · simp
      · rw [binding?_addScope, binding?_addScope, binding?_eq_none le_rfl, binding?_eq_none le_rfl]
        exact .none
    outward := fun {p x y} hx hp hnot => by
      rw [hparent] at hp
      cases hp
      rw [hnames] at hx
      rw [hle.names hfg.scopes]
      cases hx with
      | place hmem => exact absurd (hbinds.mpr (List.of_mem_zip hmem).1) hnot
      | outside _ _ hxy => exact hxy
    root := fun _ hp => by
      rw [hparent] at hp
      cases hp }

namespace Matched

variable (h : Matched R w σ σ')
include h

theorem define {p q : String} (ht : w.scopes t t') (hpq : w.names t p q)
    (hv : Value.Matches R w v v') : Matched R w (σ.define t p v) (σ'.define t' q v') where
  scopes_exist hu := by
    rw [size_define, size_define]
    exact h.scopes_exist hu
  functions_exist := h.functions_exist
  scopes_one := h.scopes_one
  functions_one := h.functions_one
  scope {u u'} hu := by
    by_cases htu : t = u
    · subst htu
      obtain rfl := (h.scopes_one ht hu).mp rfl
      obtain ⟨hlt, hlt'⟩ := h.scopes_exist ht
      exact (h.scope ht).define hpq hv hlt hlt'
    · have htu' := mt (h.scopes_one ht hu).mpr htu
      refine (h.scope hu).later (.refl w) hu (parent?_define ..) (parent?_define ..) ?_ ?_
      · exact fun x => (binding?_define ..).trans (if_neg fun hand => htu hand.1)
      · exact fun y => (binding?_define ..).trans (if_neg fun hand => htu' hand.1)

theorem close {ps qs : List String} {body body' : Expr} (hs : w.scopes s s')
    (hcode : Expr.Matches R (w.names s) (.lambda ps body) (.lambda qs body')) :
    Matched R (w.close σ σ') (σ.close s ps body).2 (σ'.close s' qs body').2 ∧
      Value.Matches R (w.close σ σ') (σ.close s ps body).1 (σ'.close s' qs body').1 := by
  constructor
  · exact {
      scopes_exist := h.scopes_exist
      functions_exist := lt_succ_of_rel_or_next h.functions_exist
      scopes_one := h.scopes_one
      functions_one := eq_iff_of_rel_or_next h.functions_exist h.functions_one
      scope := fun ht =>
        (h.scope ht).later (w.le_close σ σ') ht rfl rfl (fun _ => rfl) fun _ => rfl }
  · exact .function ⟨.inr ⟨rfl, rfl⟩, hs, hcode⟩

section enter

variable {f g : Closure}

theorem le_enter : w.Le (w.enter σ σ' f g) where
  scopes := .inl
  functions := id
  names ht := if_neg (h.scopes_exist ht).1.ne

theorem enter (hfg : f.Matches R w g) {vs vs' : List Value}
    (hvs : List.Forall₂ (Value.Matches R w) vs vs') :
    Matched R (w.enter σ σ' f g) (σ.enter f vs).2 (σ'.enter g vs').2 where
  scopes_exist := by
    rw [size_enter, size_enter]
    exact lt_succ_of_rel_or_next h.scopes_exist
  functions_exist hi := by
    rw [functions_enter, functions_enter]
    exact h.functions_exist hi
  scopes_one := eq_iff_of_rel_or_next h.scopes_exist h.scopes_one
  functions_one := h.functions_one
  scope := by
    rintro t t' (ht | ⟨rfl, rfl⟩)
    · obtain ⟨hlt, hlt'⟩ := h.scopes_exist ht
      refine (h.scope ht).later h.le_enter ht ?_ ?_ ?_ ?_
      · rw [parent?_enter, if_neg hlt.ne]
      · rw [parent?_enter, if_neg hlt'.ne]
      · exact fun x => binding?_enter_of_lt _ _ _ hlt
      · exact fun y => binding?_enter_of_lt _ _ _ hlt'
    · obtain ⟨hlt, hlt'⟩ := h.scopes_exist hfg.scopes
      exact .enter h.le_enter hfg (h.scope hfg.scopes) hlt hlt' hvs

end enter

end Matched

end Store

end ExprLang
