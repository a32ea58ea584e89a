import ExprLang.Proofs.Host

/-! # The identity of functions

Two functions are equal exactly if they come from the same evaluation of a lambda
(`Host.Reachable.identity`).  Lambdas with the same text make different functions, and so does one
lambda each time it is evaluated.  All else that an evaluation does to functions is to copy them
(`Store.Copies`).

The history of an evaluation tells where functions come from: each time the evaluation of a lambda
begins, one is made (`Event.made?`), with a number that counts those before it. -/

namespace ExprLang

/-! ### Where functions come from -/

/-- The function that is made when the evaluation of an expression begins, if it is a lambda. -/
def Event.made? : Event → Option Closure
  | .begun s (.lambda parameters body) σ => some ⟨σ.functions, parameters, body, s⟩
  | _ => none

/-- The functions that were made, in their order. -/
def made (past : List Event) : List Closure := past.filterMap Event.made?

/-- The function was made by the event at that place. -/
def Closure.MadeBy (past : List Event) (i : ℕ) (f : Closure) : Prop :=
  past[i]?.bind Event.made? = some f

section made

variable {past past' : List Event} {f g : Closure} {i j : ℕ}

theorem Closure.MadeBy.later (h : f.MadeBy past i) (hle : past <+: past') : f.MadeBy past' i := by
  obtain ⟨event, hevent, hf⟩ := Option.bind_eq_some_iff.mp h
  obtain ⟨hi, rfl⟩ := List.getElem?_eq_some_iff.mp hevent
  exact Option.bind_eq_some_iff.mpr ⟨_, List.prefix_iff_getElem?.mp hle i hi, hf⟩

theorem Closure.MadeBy.lt (h : f.MadeBy past i) : i < past.length := by
  obtain ⟨event, hevent, -⟩ := Option.bind_eq_some_iff.mp h
  exact (List.getElem?_eq_some_iff.mp hevent).1

/-- The evaluation of a lambda makes a function. -/
theorem madeBy_lambda (past : List Event) (s : ScopeId) (parameters : List String) (body : Expr)
    (σ : Store) :
    Closure.MadeBy (past ++ [.begun s (.lambda parameters body) σ]) past.length
      ⟨σ.functions, parameters, body, s⟩ := by
  unfold Closure.MadeBy
  rw [List.getElem?_concat_length]
  rfl

theorem exists_madeBy (h : f ∈ made past) : ∃ i, f.MadeBy past i := by
  obtain ⟨event, hevent, hf⟩ := List.mem_filterMap.mp h
  obtain ⟨i, hi⟩ := List.mem_iff_getElem?.mp hevent
  exact ⟨i, Option.bind_eq_some_iff.mpr ⟨event, hi, hf⟩⟩

theorem Closure.MadeBy.unique (hf : f.MadeBy past i) (hg : g.MadeBy past i) : f = g :=
  Option.some.inj (hf.symm.trans hg)

/-- The functions are numbered in the order in which they were made. -/
def Numbered (past : List Event) (n : ℕ) : Prop := (made past).map Closure.id = List.range n

theorem Numbered.id_ne {n : ℕ} (h : Numbered past n) (hf : f.MadeBy past i)
    (hg : g.MadeBy past j) (hlt : i < j) : f.id ≠ g.id := by
  obtain ⟨a, ha, hf⟩ := Option.bind_eq_some_iff.mp hf
  obtain ⟨b, hb, hg⟩ := Option.bind_eq_some_iff.mp hg
  obtain ⟨hi, rfl⟩ := List.getElem?_eq_some_iff.mp ha
  obtain ⟨hj, rfl⟩ := List.getElem?_eq_some_iff.mp hb
  -- The numbers are 0, 1, 2 and so on, none of them twice.
  have hnodup : ((made past).map Closure.id).Nodup := by
    rw [h]
    exact List.nodup_range
  unfold List.Nodup made at hnodup
  rw [List.pairwise_map, List.pairwise_filterMap] at hnodup
  exact List.pairwise_iff_getElem.mp hnodup i j hi hj hlt f hf g hg

/-- Functions that have the same number were made by the same event. -/
theorem Numbered.id_eq_iff {n : ℕ} (h : Numbered past n) (hf : f.MadeBy past i)
    (hg : g.MadeBy past j) : f.id = g.id ↔ i = j := by
  constructor
  · intro hid
    by_contra hne
    rcases lt_or_gt_of_ne hne with hlt | hgt
    · exact h.id_ne hf hg hlt hid
    · exact h.id_ne hg hf hgt hid.symm
  · rintro rfl
    rw [hf.unique hg]

end made

/-! ### The invariant -/

namespace Store

/-- Functions are numbered, and those that are bound have been made. -/
structure Recorded (past : List Event) (σ : Store) : Prop where
  numbered : Numbered past σ.functions
  bound {t : ScopeId} {x : String} {f : Closure} :
    σ.binding? t x = some (.function f) → f ∈ made past

/-- The value is no function, or one that has been made. -/
def Known (past : List Event) (v : Value) : Prop := ∀ f, v = .function f → f ∈ made past

/-- All functions that there are have been made by the evaluations of lambdas. -/
def recorded : Invariant where
  holds w := w.store.Recorded w.past
  value w v := Known w.past v
  code _ _ _ := True
  le w w' := w.past <+: w'.past

section recorded

variable {past : List Event} {σ τ : Store} {t : ScopeId} {x : String} {v : Value}

theorem Recorded.define (h : σ.Recorded past) (hv : Known past v) :
    (σ.define t x v).Recorded past where
  numbered := h.numbered
  bound {u y f} hf := by
    rw [binding?_define] at hf
    split at hf
    · exact hv f (Option.some.inj hf)
    · exact h.bound hf

theorem Recorded.addScope (h : σ.Recorded past) (parent : Option ScopeId) :
    (σ.addScope parent).2.Recorded past where
  numbered := h.numbered
  bound hf := by
    rw [binding?_addScope] at hf
    exact h.bound hf

theorem made_append_silent {event : Event} (h : event.made? = none) :
    made (past ++ [event]) = made past := by
  unfold made
  rw [List.filterMap_append, List.filterMap_cons_none h, List.filterMap_nil, List.append_nil]

/-- No function is made when the evaluation of anything else begins, or a function is entered. -/
theorem Recorded.silent (h : σ.Recorded past) {event : Event} (hevent : event.made? = none) :
    σ.Recorded (past ++ [event]) where
  numbered := by
    unfold Numbered
    rw [made_append_silent hevent]
    exact h.numbered
  bound hf := by
    rw [made_append_silent hevent]
    exact h.bound hf

theorem made_append_lambda (s : ScopeId) (parameters : List String) (body : Expr) :
    made (past ++ [.begun s (.lambda parameters body) σ]) =
      made past ++ [⟨σ.functions, parameters, body, s⟩] := by
  unfold made
  rw [List.filterMap_append]
  rfl

theorem Recorded.close (h : σ.Recorded past) (s : ScopeId) (parameters : List String)
    (body : Expr) :
    (σ.close s parameters body).2.Recorded (past ++ [.begun s (.lambda parameters body) σ]) where
  numbered := by
    show (made _).map Closure.id = List.range (σ.functions + 1)
    rw [made_append_lambda, List.map_append, h.numbered, List.range_succ]
    rfl
  bound hf := by
    rw [made_append_lambda]
    exact List.mem_append_left _ (h.bound hf)

theorem Recorded.enter (h : σ.Recorded past) (f : Closure) {arguments : List Value}
    (harguments : ∀ v ∈ arguments, Known past v) : (σ.enter f arguments).2.Recorded past where
  numbered := by
    rw [functions_enter]
    exact h.numbered
  bound hg := by
    rcases binding?_enter_cases hg with hold | hmem | heq
    · exact h.bound hold
    · exact harguments _ hmem _ rfl
    · cases heq

theorem kept_recorded : recorded.KeptByHosts where
  refl _ := List.prefix_rfl
  trans h h' := h.trans h'
  value_mono h hle f hf := (hle.filterMap _).subset (h f hf)
  code_mono _ _ := trivial
  inner _ _ := trivial
  plain := by
    rintro w v (_ | _ | _) <;> exact nofun
  empty _ := nofun
  get h _ hget := by
    rintro f rfl
    obtain ⟨o, -, hf⟩ := exists_of_get hget
    exact h.bound hf
  begin {w s e} h _ he := by
    have hmade : (Event.begun s e w.store).made? = none := by
      cases e <;> first | rfl | cases he
    exact ⟨h.silent hmade, List.prefix_append ..⟩
  close {w s parameters body} h _ := by
    refine ⟨⟨h.close s parameters body, List.prefix_append ..⟩, ?_⟩
    rintro f ⟨⟩
    have hmem : (⟨w.store.functions, parameters, body, s⟩ : Closure) ∈
        made (w.past ++ [.begun s (.lambda parameters body) w.store]) := by
      rw [made_append_lambda]
      exact List.mem_append_right _ List.mem_cons_self
    exact hmem
  define h _ hv _ := ⟨h.define hv, List.prefix_rfl⟩
  enter {w f arguments} h _ harguments :=
    ⟨⟨(h.enter f harguments).silent rfl, List.prefix_append ..⟩, trivial⟩
  start := by
    refine ⟨rfl, fun {t x f} hf => ?_⟩
    rw [binding?_eq_none (Nat.zero_le t)] at hf
    cases hf
  addScope {w parent} h _ := ⟨⟨h.addScope parent, List.prefix_rfl⟩, fun _ => trivial⟩
  owner _ _ _ := fun _ => trivial
  captured _ _ := fun _ => trivial
  write h _ hv := ⟨h.define hv, List.prefix_rfl⟩

end recorded

end Store

/-! ### Copies -/

theorem Outcome.exists_of_bind {α β : Type} {o : Outcome α} {next : α → Store → Outcome β} {b : β}
    {τ : Store} (h : o.bind next = .done b τ) : ∃ a σ, o = .done a σ ∧ next a σ = .done b τ := by
  cases o with
  | done a σ => exact ⟨a, σ, rfl, h⟩
  | failed e σ => cases h
  | unfinished => cases h

/-- The last of the expressions gives the value. -/
theorem exists_of_evaluateLast {evaluate : Expr → Store → Outcome Value} {last v : Value}
    {es : List Expr} {e : Expr} {σ τ : Store}
    (h : evaluateLast evaluate last (es ++ [e]) σ = .done v τ) :
    ∃ υ, evaluate e υ = .done v τ := by
  induction es generalizing last σ with
  | nil =>
      obtain ⟨w, υ, he, hw⟩ := Outcome.exists_of_bind h
      cases hw
      exact ⟨σ, he⟩
  | cons d es ih =>
      obtain ⟨w, υ, -, hrest⟩ := Outcome.exists_of_bind h
      exact ih hrest

namespace Store

/-- Values are handed on as they are. -/
structure Copies (σ : Store) : Prop where
  define {s : ScopeId} {x : String} {v : Value} :
    s < σ.size → (σ.define s x v).get s x = .ok v
  assign {s : ScopeId} {x : String} {v : Value} {τ : Store} :
    s < σ.size → σ.assign s x v = .ok τ → τ.get s x = .ok v
  get {s : ScopeId} {x : String} {v : Value} :
    σ.get s x = .ok v → ∃ o, σ.owner? s x = some o ∧ σ.binding? o x = some v
  assignment {fuel : ℕ} {s : ScopeId} {x : String} {e : Expr} {v : Value} {τ : Store} :
    evaluate (fuel + 1) s (.assignment (.variable x) e) σ = .done v τ →
      ∃ υ, evaluate fuel s e σ = .done v υ ∧ υ.assign s x v = .ok τ
  /-- The argument is passed in the scope for the body. -/
  argument {f : Closure} {arguments : List Value} {before after : List String} {x : String}
    {v : Value} :
    f.parameters = before ++ x :: after → x ∉ after → arguments[before.length]? = some v →
      (σ.enter f arguments).2.get σ.size x = .ok v
  /-- The value of the body is the one of the call. -/
  call {fuel : ℕ} {s : ScopeId} {function : Expr} {arguments : List Expr} {v : Value} {τ : Store} :
    evaluate (fuel + 1) s (.call function arguments) σ = .done v τ →
      ∃ f values υ φ, evaluate fuel s function σ = .done (.function f) υ ∧
        evaluateAll (evaluate fuel s) arguments υ = .done values φ ∧
          evaluate fuel φ.size f.body (φ.enter f values).2 = .done v τ
  block {fuel : ℕ} {s : ScopeId} {es : List Expr} {e : Expr} {v : Value} {τ : Store} :
    evaluate (fuel + 1) s (.program (es ++ [e])) σ = .done v τ →
      ∃ υ, evaluate fuel s e υ = .done v τ
  conjunction {a b : Value} : a.isFalse = false → BinaryOperator.and.compute a b = .ok b
  disjunction {a b : Value} :
    BinaryOperator.or.compute a b = .ok (if a.isFalse then b else a)
  /-- No operator gives a function that is not one of its operands. -/
  operator {fuel : ℕ} {s : ScopeId} {op : BinaryOperator} {left right : Expr} {f : Closure}
    {τ : Store} :
    evaluate (fuel + 1) s (.binary op left right) σ = .done (.function f) τ →
      ∃ a b υ, evaluate fuel s left σ = .done a υ ∧ evaluate fuel s right υ = .done b τ ∧
        (a = .function f ∨ b = .function f)

theorem get_assign {σ τ : Store} {s : ScopeId} {x : String} {v : Value} (hs : s < σ.size)
    (h : σ.assign s x v = .ok τ) : τ.get s x = .ok v := by
  obtain ⟨t, htarget, rfl⟩ := exists_of_assign h
  rcases target?_cases htarget with ho | ⟨-, rfl, -⟩
  · -- The name still belongs to the scope in which it has been bound anew.
    have ho' : (σ.define t x v).owner? s x = some t := (grows_target? htarget).owner? hs ho
    exact get_of_owner? ho' (binding?_define_self (binds_of_owner? ho).lt)
  · exact get_of_binding? (binding?_define_self hs)

theorem copies (σ : Store) : σ.Copies where
  define hs := get_of_binding? (binding?_define_self hs)
  assign := get_assign
  get := exists_of_get
  assignment {fuel s x e v τ} h := by
    obtain ⟨w, υ, he, hw⟩ := Outcome.exists_of_bind h
    unfold Store.assign
    cases ht : υ.target? s x with
    | none =>
        rw [ht] at hw
        cases hw
    | some t =>
        rw [ht] at hw
        cases hw
        exact ⟨υ, he, by rw [ht]⟩
  argument {f arguments before after x v} hf hx hv := by
    refine get_of_binding? ?_
    rw [snd_enter, hf]
    exact binding?_bindArguments hx hv (lt_size_addScope _)
  call {fuel s function arguments v τ} h := by
    obtain ⟨callee, υ, hfunction, h⟩ := Outcome.exists_of_bind h
    obtain ⟨values, φ, harguments, h⟩ := Outcome.exists_of_bind h
    cases callee with
    | function f => exact ⟨f, values, υ, φ, hfunction, harguments, h⟩
    | _ => cases h
  block h := exists_of_evaluateLast h
  conjunction {a b} ha := by
    show Except.ok (if a.isFalse then Value.boolean false else b) = .ok b
    rw [ha]
    rfl
  disjunction := rfl
  operator {fuel s op left right f τ} h := by
    obtain ⟨a, υ, hleft, h⟩ := Outcome.exists_of_bind h
    obtain ⟨b, φ, hright, h⟩ := Outcome.exists_of_bind h
    cases hop : op.compute a b with
    | error e =>
        rw [hop] at h
        cases h
    | ok v =>
        rw [hop] at h
        cases h
        refine ⟨a, b, υ, hleft, hright, ?_⟩
        rcases op.compute_eq_ok hop with ha | hb | hplain
        · exact .inl ha.symm
        · exact .inr hb.symm
        · cases hplain

end Store

/-! ### Identity -/

/-- **Functions are equal exactly if they come from the same evaluation of a lambda.**  At every
moment that a host passes through, whatever functions are bound or have been handed out were made by
something that has begun before.  Two of them, or one of them and one from an earlier moment, are
equal exactly if that is the same, and then they have the same parameters, body and scope.  A lambda
that is evaluated makes a function that is equal to none of them, and whatever else is done with
functions hands them on as they are. -/
theorem Host.Reachable.identity {H : Host} (h : H.Reachable) {w : Stage} {vs : List Value}
    (hpasses : H.Passes w vs) :
    (∀ past i j f g, past <+: w.past → f.MadeBy past i → g.MadeBy w.past j →
      ((Value.function f).isEqual (.function g) ↔ i = j) ∧ (i = j → f = g)) ∧
    (∀ t x f, w.store.binding? t x = some (.function f) → ∃ i, f.MadeBy w.past i) ∧
    (∀ f, .function f ∈ vs → ∃ i, f.MadeBy w.past i) ∧
    (∀ fuel s parameters body, ∃ f τ,
      evaluate (fuel + 1) s (.lambda parameters body) w.store = .done (.function f) τ ∧
        f.MadeBy (w.past ++ log (fuel + 1) s (.lambda parameters body) w.store) w.past.length ∧
          ∀ i g, g.MadeBy w.past i → (Value.function f).isEqual (.function g) = false) ∧
    w.store.Copies := by
  have hI := Store.kept_recorded
  obtain ⟨hreaches, hvs⟩ := (h.obeys hI).passes hI hpasses
  have hrecorded : w.store.Recorded w.past := hreaches.holds
  refine ⟨?_, ?_, ?_, ?_, w.store.copies⟩
  · intro past i j f g hle hf hg
    have hf := hf.later hle
    constructor
    · rw [Value.isEqual, decide_eq_true_iff]
      exact hrecorded.numbered.id_eq_iff hf hg
    · rintro rfl
      exact hf.unique hg
  · exact fun t x f hf => exists_madeBy (hrecorded.bound hf)
  · exact fun f hf => exists_madeBy (hvs _ hf f rfl)
  · intro fuel s parameters body
    let f : Closure := ⟨w.store.functions, parameters, body, s⟩
    have hf := madeBy_lambda w.past s parameters body w.store
    have hnumbered := (hrecorded.close s parameters body).numbered
    refine ⟨f, (w.store.close s parameters body).2, rfl, hf, fun i g hg => ?_⟩
    have hne := hnumbered.id_ne (hg.later (List.prefix_append ..)) hf hg.lt
    rw [Value.isEqual, decide_eq_false_iff_not]
    exact hne.symm

/-- The same lambda is evaluated twice. -/
theorem Host.Reachable.identity_twice :
    ∃ (H : Host) (f g : Closure), H.Reachable ∧ H.Passes H.toStage H.values ∧
      .function f ∈ H.values ∧ .function g ∈ H.values ∧
      f.lambda = g.lambda ∧ f.scope = g.scope ∧ f.MadeBy H.past 0 ∧ g.MadeBy H.past 1 ∧
      (Value.function f).isEqual (.function g) = false := by
  let e : Expr := .lambda ["x"] (.variable "x")
  let made (H : Host) : Value × Store := H.store.close 0 ["x"] (.variable "x")
  let next (H : Host) : Host := { H with
    past := H.past ++ log 1 0 e H.store, store := (made H).2, values := [(made H).1] ++ H.values }
  have hnext : ∀ H : Host, 0 ∈ H.handles → H.Step (next H) := by
    intro H hs
    have hend : (Job.outcome 1 H.store (.evaluate 0 e)).final? =
      some ([(made H).1], (made H).2) := rfl
    have hallows : H.Allows (.evaluate 0 e) := hs
    exact .job hallows hend
  let H : Host := { Host.start with store := Store.empty.root.2, handles := [0] }
  have hzero : 0 ∈ H.handles := List.mem_singleton_self 0
  have hreachable : (next (next H)).Reachable :=
    ((Relation.ReflTransGen.single Host.Step.root).tail (hnext H hzero)).tail (hnext _ hzero)
  let f (i : ℕ) : Closure := ⟨i, ["x"], .variable "x", 0⟩
  have hf : (f 0).MadeBy (next (next H)).past 0 := rfl
  have hg : (f 1).MadeBy (next (next H)).past 1 := rfl
  obtain ⟨hequal, -⟩ := Host.Reachable.identity hreachable .rest
  have hne : ¬(Value.function (f 0)).isEqual (.function (f 1)) :=
    mt (hequal _ 0 1 _ _ List.prefix_rfl hf hg).1.mp (by decide)
  exact ⟨next (next H), f 0, f 1, hreachable, .rest, List.mem_cons_of_mem _ List.mem_cons_self,
    List.mem_cons_self, rfl, rfl, hf, hg, Bool.eq_false_iff.mpr hne⟩

end ExprLang
