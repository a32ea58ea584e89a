import ExprLang.Proofs.Phrase

/-! # Innermost phrases suffice

Whatever the ambiguous grammar derives has an innermost derivation too, so a parser that gives
every token to the innermost construct loses nothing.

A phrase may have to grow for that: if a condition without a second branch stands right before an
`else` that an outer condition was to have, it takes the `else`.  So the innermost expression at
some tokens need not end where the given one does; it ends at one of the places where the
expression may stop.  `Stops` says what such places must have in common, and that an `else` there
is followed by an expression that leads to another of them (`Expression.exists_innermost`).
Where the next token goes on with no construct there is a single such place. -/

namespace ExprLang.Phrase

/-! ### What stands behind an expression can be made part of it -/

/-- The calls may be those of another function. -/
theorem Calls.regraft {a r f s} (h : Calls false a r f s) (g : Expr) :
    ∃ f', Calls false g r f' s := by
  match h with
  | .stop => exact ⟨g, .stop⟩
  | .call hargs hc =>
      obtain ⟨f', hf'⟩ := hc.regraft (.call g _)
      exact ⟨f', .call hargs hf'⟩

theorem Calls.append {f ts g r e s} :
    Calls false f ts g r → Calls false g r e s → Calls false f ts e s
  | .stop, h' => h'
  | .call hargs hc, h' => .call hargs (hc.append h')

/-- Calls behind a chain are calls of its last operand. -/
theorem Links.extend {ts a r l s b f u} (hl : Links false r l s) (ha : Operand false ts a r)
    (hc : Calls false b s f u) :
    ∃ a' r' l', Operand false ts a' r' ∧ Links false r' l' u := by
  match hl with
  | .stop =>
      obtain ⟨hbare, hcalls⟩ := ha
      obtain ⟨f', hf'⟩ := hc.regraft a
      exact ⟨f', u, [], .called hbare (hcalls.append hf'), .stop⟩
  | .link hb hl =>
      obtain ⟨b', r', l', hb', hl'⟩ := hl.extend hb hc
      exact ⟨a, _, _, ha, .link hb' hl'⟩

/-- Calls and links behind an expression make a longer expression with it. -/
theorem Expression.extend {ts e r a f s l u} (h : Expression false ts e r)
    (hc : Calls false a r f s) (hl : Links false s l u) : ∃ e', Expression false ts e' u := by
  obtain ⟨ha, hlinks, -, -, -⟩ := h
  obtain ⟨a', r', l', ha', hl'⟩ := hlinks.extend ha hc
  exact ha'.expression (hl'.append hl) (by simp)

theorem Branch.extend {ts e r a f s l u} (h : Branch false ts e r) (hc : Calls false a r f s)
    (hl : Links false s l u) : ∃ e', Branch false ts e' u := by
  match h with
  | .worded he =>
      obtain ⟨e', he'⟩ := he.extend hc hl
      exact ⟨e', .worded he'⟩
  | .braced he =>
      obtain ⟨e', he'⟩ := he.extend hc hl
      exact ⟨e', .braced he'⟩

/-! ### Places to stop -/

/-- Places at which an innermost expression may stop. -/
structure Stops (R : List Token → Prop) : Prop where
  not_call {r} : R r → ¬ CallAhead r
  not_operator {r} : R r → ¬ OperatorAhead r
  otherwise {q} : R (.keyword .elseWord :: q) → ∃ e s, Expression false q e s ∧ R s

/-- One more place: before an `else` with an expression behind it that leads to another place. -/
theorem Stops.insert {R : List Token → Prop} (hR : Stops R) {q e s} (he : Expression false q e s)
    (hs : R s) : Stops fun u => R u ∨ u = .keyword .elseWord :: q where
  not_call := by
    rintro u (hu | rfl)
    · exact hR.not_call hu
    · simp [CallAhead]
  not_operator := by
    rintro u (hu | rfl)
    · exact hR.not_operator hu
    · simp [OperatorAhead]
  otherwise := by
    rintro u (hu | hu)
    · obtain ⟨e', s', he', hs'⟩ := hR.otherwise hu
      exact ⟨e', s', he', .inl hs'⟩
    · obtain ⟨-, rfl⟩ := List.cons.inj hu
      exact ⟨e, s, he, .inl hs⟩

theorem Closed.stops {r : List Token} (h : Closed r) : Stops (· = r) where
  not_call hr := hr ▸ h.1
  not_operator hr := hr ▸ h.2.1
  otherwise hr := (h.2.2 (hr ▸ rfl)).elim

theorem closed_punctuation {c : Char} (h : c ≠ '(') (ts : List Token) :
    Closed (.punctuation c :: ts) := by
  simp [Closed, CallAhead, OperatorAhead, ElseAhead, h]

theorem Branch.closed {k : Bool} {ts e r} (h : Branch k ts e r) : Closed ts := by
  cases h <;> simp [Closed, CallAhead, OperatorAhead, ElseAhead]

/-- Every expression that starts at these tokens and may stop somewhere has an innermost one. -/
def Rearranges (ts : List Token) : Prop :=
  ∀ (R : List Token → Prop) e r, Stops R → Expression false ts e r → R r →
    ∃ e' r', Expression true ts e' r' ∧ R r'

/-- If the expression is closed on the right, the innermost one ends in the same place. -/
theorem Rearranges.closed {ts e r} (h : Rearranges ts) (he : Expression false ts e r)
    (hr : Closed r) : ∃ e', Expression true ts e' r := by
  obtain ⟨e', _, he', rfl⟩ := h _ e r hr.stops he rfl
  exact ⟨e', he'⟩

/-- A bare operand that nothing goes on with is an expression. -/
theorem Bare.expression {ts b r} (hb : Bare true ts b r) (hr : ¬ CallAhead r ∧ ¬ OperatorAhead r) :
    ∃ e, Expression true ts e r :=
  (Operand.called hb .stop).expression .stop fun _ => hr

section Step

variable {n : ℕ} (ih : ∀ us : List Token, us.length < n → Rearranges us)
include ih

theorem Items.exists_innermost_of {separator ts es r} (hn : ts.length < n) (hsep : separator ≠ '(')
    (hr : Closed r) (h : Items false separator ts es r) : ∃ es', Items true separator ts es' r := by
  match h with
  | .empty => exact ⟨[], .empty⟩
  | .last he =>
      obtain ⟨e', he'⟩ := (ih ts hn).closed he hr
      exact ⟨[e'], .last he'⟩
  | .more he hes =>
      have hlt := he.length_lt
      simp only [List.length_cons] at hlt
      obtain ⟨e', he'⟩ := (ih ts hn).closed he (closed_punctuation hsep _)
      obtain ⟨es', hes'⟩ := Items.exists_innermost_of (by omega) hsep hr hes
      exact ⟨e' :: es', .more he' hes'⟩

theorem Calls.exists_innermost_of {a ts f r} (hn : ts.length ≤ n) (h : Calls false a ts f r)
    (g : Expr) : ∃ f', Calls true g ts f' r := by
  match h with
  | .stop => exact ⟨g, .stop⟩
  | .call hargs hc =>
      have hle := hargs.length_le
      simp only [List.length_cons] at hn hle
      obtain ⟨args', hargs'⟩ :=
        hargs.exists_innermost_of ih (by omega) (by decide) (closed_punctuation (by decide) _)
      obtain ⟨f', hf'⟩ := Calls.exists_innermost_of (by omega) hc (.call g args')
      exact ⟨f', .call hargs' hf'⟩

/-- An operand that is closed by itself, with what follows it in the chain. -/
theorem Bare.expression_of {R : List Token → Prop} (hR : Stops R) {ts b a q f s l r}
    (hn : ts.length ≤ n) (hb : Bare true ts b q) (hc : Calls false a q f s)
    (hl : Links false s l r) (hr : R r) : ∃ e' r', Expression true ts e' r' ∧ R r' := by
  have hlt := hb.length_lt
  have hle := hc.length_le
  obtain ⟨f', hf'⟩ := hc.exists_innermost_of ih (by omega) b
  match hl with
  | .stop =>
      obtain ⟨e', he'⟩ := (Operand.called hb hf').expression .stop
        fun _ => ⟨hR.not_call hr, hR.not_operator hr⟩
      exact ⟨e', _, he', hr⟩
  | .link ha hl =>
      obtain ⟨e, he⟩ := ha.expression hl (by simp)
      simp only [List.length_cons] at hle
      obtain ⟨_, r', ⟨ha', hl', -, -, hstop⟩, hr'⟩ := ih _ (by omega) R e _ hR he hr
      obtain ⟨e', he'⟩ := (Operand.called hb hf').expression (.link ha' hl') hstop
      exact ⟨e', r', he', hr'⟩

/-- A condition whose first branch may stop in more places, namely also before an `else` that leads
on to one of the others, takes that `else` if it stops there. -/
theorem Branch.condition_of {R R' : List Token → Prop} (hR : Stops R) (hR' : Stops R')
    (hsub : ∀ u, R' u → ¬ ElseAhead u → R u)
    (helse : ∀ q, R' (.keyword .elseWord :: q) → ∃ e s, Expression false q e s ∧ R s)
    {us ts test consequent q} (hn : us.length < n) (htest : Expression true us test ts)
    (h : Branch false ts consequent q) (hq : R' q) :
    ∃ e r, Expression true (.keyword .ifWord :: us) e r ∧ R r := by
  have hlt := htest.length_lt
  obtain ⟨consequent', q', hbranch, hq'⟩ : ∃ c q', Branch true ts c q' ∧ R' q' := by
    match h with
    | .worded he =>
        simp only [List.length_cons] at hlt
        obtain ⟨c, q', hc, hq'⟩ := ih _ (by omega) R' _ _ hR' he hq
        exact ⟨c, q', .worded hc, hq'⟩
    | .braced he =>
        obtain ⟨c, q', hc, hq'⟩ := ih _ (by omega) R' _ _ hR' he hq
        exact ⟨c, q', .braced hc, hq'⟩
  by_cases hahead : ElseAhead q'
  · obtain ⟨u, rfl⟩ := List.head?_eq_some_iff.mp hahead
    have hlt' := hbranch.length_lt
    simp only [List.length_cons] at hlt'
    obtain ⟨e, s, he, hs⟩ := helse u hq'
    obtain ⟨e', r, he', hr⟩ := ih u (by omega) R e s hR he hs
    obtain ⟨e'', hcondition⟩ := (Bare.condition htest hbranch (.present he')).expression
      ⟨hR.not_call hr, hR.not_operator hr⟩
    exact ⟨e'', r, hcondition, hr⟩
  · have hr := hsub q' hq' hahead
    obtain ⟨e', hcondition⟩ := (Bare.condition htest hbranch (.absent fun _ => hahead)).expression
      ⟨hR.not_call hr, hR.not_operator hr⟩
    exact ⟨e', q', hcondition, hr⟩

/-- An operand with an end of its own is innermost in the same place. -/
theorem Bare.exists_innermost_of {ts b r} (hn : ts.length ≤ n) (h : Bare false ts b r)
    (hclosed : ¬ OpenEnded ts) : ∃ b', Bare true ts b' r := by
  match h with
  | .variable => exact ⟨_, .variable⟩
  | .number => exact ⟨_, .number⟩
  | .string => exact ⟨_, .string⟩
  | .trueWord => exact ⟨_, .trueWord⟩
  | .falseWord => exact ⟨_, .falseWord⟩
  | .parenthesized he =>
      obtain ⟨e', he'⟩ := (ih _ hn).closed he (closed_punctuation (by decide) _)
      exact ⟨e', .parenthesized he'⟩
  | .block hes =>
      obtain ⟨es', hes'⟩ :=
        hes.exists_innermost_of ih hn (by decide) (closed_punctuation (by decide) _)
      exact ⟨_, .block hes'⟩
  | .condition .. => exact (hclosed (.inl rfl)).elim
  | .lambda .. => exact (hclosed (.inr rfl)).elim

theorem rearranges_of {ts : List Token} (hn : ts.length ≤ n) : Rearranges ts := by
  intro R e r hR ⟨ha, hl, _, _, _⟩ hr
  obtain ⟨hb, hc⟩ := ha
  by_cases hopen : OpenEnded ts
  · cases hb with
    | lambda hps he =>
        have hle := hps.length_le
        simp only [List.length_cons] at hn hle
        obtain ⟨body, hbody⟩ := he.extend hc hl
        obtain ⟨body', r', hbody', hr'⟩ := ih _ (by omega) R body r hR hbody hr
        obtain ⟨e', he'⟩ := (Bare.lambda hps hbody').expression
          ⟨hR.not_call hr', hR.not_operator hr'⟩
        exact ⟨e', r', he', hr'⟩
    | condition htest hbranch hother =>
        obtain ⟨test', htest'⟩ := (ih _ hn).closed htest hbranch.closed
        cases hother with
        | absent _ =>
            obtain ⟨consequent', hbranch'⟩ := hbranch.extend hc hl
            exact hbranch'.condition_of ih hR hR (fun _ hu _ => hu) (fun _ hq => hR.otherwise hq) hn
              htest' hr
        | present he =>
            obtain ⟨other, hother'⟩ := he.extend hc hl
            refine hbranch.condition_of ih hR (hR.insert hother' hr) ?_ ?_ hn htest' (.inr rfl)
            · rintro u (hu | rfl) hahead
              · exact hu
              · exact absurd rfl hahead
            · rintro q (hq | hq)
              · exact hR.otherwise hq
              · obtain ⟨-, rfl⟩ := List.cons.inj hq
                exact ⟨other, r, hother', hr⟩
    | _ => simp [OpenEnded] at hopen
  · obtain ⟨b', hb'⟩ := hb.exists_innermost_of ih hn hopen
    exact hb'.expression_of ih hR hn hc hl hr

end Step

theorem rearranges (ts : List Token) : Rearranges ts := by
  induction hn : ts.length using Nat.strong_induction_on generalizing ts with
  | _ n ih => exact rearranges_of (fun us hus => ih us.length hus us rfl) hn.le

/-- **Every list of expressions has innermost ones in its place.** -/
theorem Items.exists_innermost {separator ts es r} (hsep : separator ≠ '(') (hr : Closed r)
    (h : Items false separator ts es r) : ∃ es', Items true separator ts es' r :=
  h.exists_innermost_of (fun us _ => rearranges us) (Nat.lt_succ_self _) hsep hr

/-- Operands with an end of their own have innermost ones in their place, whatever follows. -/
theorem Operand.exists_innermost {ts e r} (h : Operand false ts e r) (hclosed : ¬ OpenEnded ts) :
    ∃ e', Operand true ts e' r := by
  obtain ⟨hb, hc⟩ := h
  obtain ⟨b', hb'⟩ := hb.exists_innermost_of (fun us _ => rearranges us) (Nat.le_refl _) hclosed
  obtain ⟨e', he'⟩ := hc.exists_innermost_of (fun us _ => rearranges us) (Nat.le_refl _) b'
  exact ⟨e', .called hb' he'⟩

end ExprLang.Phrase
