import ExprLang.Proofs.Reading

/-! # What is read is a phrase

The converse of `Reading`: what the parser takes off the front of a list of tokens is an innermost
phrase, and the tree it answers with is the tree of that phrase.  `Parsed` says so of the
expressions and operands at the front of one list; the other constructs follow from it on shorter
lists, and it holds of every list by induction on the length (`parsed`).  Together with `Reading`
this describes the parser completely (`expression_eq_ok_iff`, `program_eq_ok_iff`). -/

namespace ExprLang

theorem bind_eq_ok_iff {ε α β γ : Type} {x : Except ε (α × β)} {f : α × β → Except ε γ} {c : γ} :
    x.bind f = .ok c ↔ ∃ a b, x = .ok (a, b) ∧ f (a, b) = .ok c := by
  rcases x with _ | ⟨a, b⟩ <;> simp [Except.bind]

theorem map_eq_ok_iff {ε α β γ : Type} {x : Except ε (α × β)} {f : α × β → γ} {c : γ} :
    x.map f = .ok c ↔ ∃ a b, x = .ok (a, b) ∧ f (a, b) = c := by
  rcases x with _ | ⟨a, b⟩ <;> simp [Except.map]

/-- A step that answers stays below its bound. -/
theorem Step.length_lt {α : Type} {n : ℕ} {s : Step α n} {a : α} {r : List Token}
    (h : s.toExcept = .ok (a, r)) : r.length < n := by
  cases s with
  | ok a' r' shorter =>
      obtain ⟨rfl, rfl⟩ : a' = a ∧ r' = r := by simpa [Step.toExcept] using h
      exact shorter
  | fail f => simp [Step.toExcept] at h

/-- Behind the last token a loop ends only if the source does. -/
theorem Step.done_eq_ok_iff {α : Type} {ending : Option LexicalFault} {a b : α} {r : List Token} :
    (Step.done ending a).toExcept = .ok (b, r) ↔ ending = none ∧ a = b ∧ r = [] := by
  cases ending <;> simp [eq_comm]

theorem Token.isPunctuation_iff {t : Token} {c : Char} :
    t.isPunctuation c = true ↔ t = .punctuation c := by
  simp [Token.isPunctuation]

namespace Phrase

variable {ending : Option LexicalFault}

theorem mark_eq_ok_iff {c : Char} {ts r : List Token} {u : Unit} :
    (Grammar.mark ending c ts).toExcept = .ok (u, r) ↔ ts = .punctuation c :: r := by
  cases ts with
  | nil => simp [Grammar.mark]
  | cons t ts =>
      simp only [Grammar.mark]
      by_cases ht : t.isPunctuation c
      · rw [if_pos ht]
        simp [Token.isPunctuation_iff.mp ht]
      · rw [if_neg ht]
        simp only [Step.toExcept_reject, reduceCtorEq, List.cons.injEq, false_iff]
        exact fun h => ht (Token.isPunctuation_iff.mpr h.1)

theorem word_eq_ok_iff {k : Keyword} {ts r : List Token} {u : Unit} :
    (Grammar.word ending k ts).toExcept = .ok (u, r) ↔ ts = .keyword k :: r := by
  cases ts with
  | nil => simp [Grammar.word]
  | cons t ts =>
      by_cases ht : t = .keyword k
      · simp [Grammar.word, Token.isKeyword, ht]
      · simp [Grammar.word, Token.isKeyword, ht]

theorem name_eq_ok_iff {x : String} {ts r : List Token} :
    (Grammar.name ending ts).toExcept = .ok (x, r) ↔ ts = .variable x :: r := by
  cases ts with
  | nil => simp [Grammar.name]
  | cons t ts => cases t <;> simp [Grammar.name]

/-! ### Lists -/

section Lists

variable {α : Type} {stop separator : Char} {item : (ts : List Token) → Step α ts.length}

/-- How a list that is read goes on behind its first item. -/
theorem items_cases {ts r : List Token} {as : List α}
    (h : (Grammar.items ending stop separator ts fun r _ => item r).toExcept = .ok (as, r)) :
    ∃ a q, (item ts).toExcept = .ok (a, q) ∧
      (q = .punctuation stop :: r ∧ as = [a] ∨
        ∃ q' as', q = .punctuation separator :: q' ∧ as = a :: as' ∧
          listed ending stop separator item q' = .ok (as', r)) := by
  simp only [Grammar.toExcept_items, bind_eq_ok_iff] at h
  obtain ⟨a, q, hitem, h⟩ := h
  refine ⟨a, q, hitem, ?_⟩
  rw [Grammar.toExcept_followItem] at h
  cases q with
  | nil => simp at h
  | cons t q =>
    simp only at h
    split at h
    · next ht =>
      obtain ⟨rfl, rfl⟩ : [a] = as ∧ q = r := by simpa using h
      exact .inl ⟨by rw [Token.isPunctuation_iff.mp ht], rfl⟩
    · split at h
      · next ht =>
        refine .inr ?_
        rw [Token.isPunctuation_iff.mp ht]
        split at h
        · next hhead =>
          obtain ⟨rfl, rfl⟩ : [a] = as ∧ q.tail = r := by simpa using h
          obtain ⟨t', q', rfl⟩ : ∃ t' q', q = t' :: q' := by
            cases q with
            | nil => simp at hhead
            | cons t' q' => exact ⟨t', q', rfl⟩
          exact ⟨_, [], rfl, rfl, if_pos (by simpa using hhead)⟩
        · next hhead =>
          simp only [map_eq_ok_iff, Prod.mk.injEq] at h
          obtain ⟨as', r', hmore, rfl, rfl⟩ := h
          refine ⟨q, as', rfl, rfl, ?_⟩
          cases q with
          | nil =>
              simp only [Grammar.toExcept_items, bind_eq_ok_iff] at hmore
              obtain ⟨_, _, hnil, -⟩ := hmore
              exact absurd (Step.length_lt hnil) (Nat.not_lt_zero _)
          | cons t' q' => exact (if_neg (by simpa using hhead)).trans hmore
      · simp at h

theorem listed_cases {ts r : List Token} {as : List α}
    (h : listed ending stop separator item ts = .ok (as, r)) :
    ts = .punctuation stop :: r ∧ as = [] ∨
      (Grammar.items ending stop separator ts fun r _ => item r).toExcept = .ok (as, r) := by
  cases ts with
  | nil => simp [listed] at h
  | cons t ts =>
      simp only [listed] at h
      split at h
      · next ht =>
        obtain ⟨rfl, rfl⟩ : [] = as ∧ ts = r := by simpa using h
        exact .inl ⟨by rw [Token.isPunctuation_iff.mp ht], rfl⟩
      · exact .inr h

end Lists

theorem parameters_of_listed {ts r : List Token} {ps : List String}
    (h : listed ending ')' ',' (Grammar.name ending) ts = .ok (ps, r)) :
    Parameters ts ps (.punctuation ')' :: r) := by
  induction hn : ts.length using Nat.strong_induction_on generalizing ts ps with
  | _ n ih =>
    obtain ⟨rfl, rfl⟩ | h := listed_cases h
    · exact .empty
    · obtain ⟨x, q, hx, ⟨rfl, rfl⟩ | ⟨q', ps', rfl, rfl, hmore⟩⟩ := items_cases h
      · rw [name_eq_ok_iff.mp hx]
        exact .last
      · have hlt := Step.length_lt hx
        rw [name_eq_ok_iff.mp hx]
        exact .more (ih q'.length (by simp only [List.length_cons] at hlt; omega) hmore rfl)

/-! ### Expressions -/

/-- The expression and the operand that are read at the front of the tokens are phrases. -/
structure Parsed (ending : Option LexicalFault) (ts : List Token) : Prop where
  expression {e r} : (Grammar.expression ending ts).toExcept = .ok (e, r) →
    Expression true ts e r ∧ (r = [] → ending = none)
  operand {e r} : (Grammar.atom ending ts).toExcept = .ok (e, r) →
    Operand true ts e r ∧ ¬ CallAhead r ∧ (r = [] → ending = none)

section Step

variable {n : ℕ} (ih : ∀ us : List Token, us.length < n → Parsed ending us)
include ih

theorem items_of_listed {stop separator : Char} {ts es r} (hn : ts.length < n)
    (h : listed ending stop separator (Grammar.expression ending) ts = .ok (es, r)) :
    Items true separator ts es (.punctuation stop :: r) := by
  induction hm : ts.length using Nat.strong_induction_on generalizing ts es with
  | _ m ihm =>
    obtain ⟨rfl, rfl⟩ | h := listed_cases h
    · exact .empty
    · obtain ⟨e, q, he, ⟨rfl, rfl⟩ | ⟨q', es', rfl, rfl, hmore⟩⟩ := items_cases h
      · exact .last ((ih ts hn).expression he).1
      · have hlt := Step.length_lt he
        simp only [List.length_cons] at hlt
        exact .more ((ih ts hn).expression he).1
          (ihm q'.length (by omega) (by omega) hmore rfl)

theorem calls_parsed {f : Expr} {ts : List Token} {e r} (hn : ts.length ≤ n)
    (h : (Grammar.calls ending f ts).toExcept = .ok (e, r)) :
    Calls true f ts e r ∧ ¬ CallAhead r ∧ (r = [] → ending = none) := by
  induction hm : ts.length using Nat.strong_induction_on generalizing f ts with
  | _ m ihm =>
    rw [Grammar.toExcept_calls] at h
    split at h
    · obtain ⟨hend, rfl, rfl⟩ := Step.done_eq_ok_iff.mp h
      exact ⟨.stop, by simp [CallAhead], fun _ => hend⟩
    · next us =>
      simp only [bind_eq_ok_iff] at h
      obtain ⟨g, q, hcall, h⟩ := h
      have hlt := Step.length_lt hcall
      simp only [Grammar.toExcept_call, map_eq_ok_iff, Prod.mk.injEq] at hcall
      obtain ⟨args, q, hargs, rfl, rfl⟩ := hcall
      rw [delimited_eq_listed, mark_self] at hargs
      simp only [List.length_cons] at hn hm hlt
      obtain ⟨hc, hr⟩ := ihm q.length (by omega) (by omega) h rfl
      exact ⟨.call (items_of_listed ih (by omega) hargs) hc, hr⟩
    · next hnil hcall =>
      obtain ⟨rfl, rfl⟩ := Prod.mk.inj (Except.ok.inj h)
      refine ⟨.stop, fun hhead => ?_, fun hts => absurd hts hnil⟩
      obtain ⟨us, rfl⟩ := List.head?_eq_some_iff.mp hhead
      exact hcall us rfl

theorem branch_parsed {ts : List Token} {e r} (hn : ts.length < n)
    (h : (Grammar.branch ending ts).toExcept = .ok (e, r)) :
    Branch true ts e r ∧ (r = [] → ending = none) := by
  rw [Grammar.toExcept_branch] at h
  split at h
  · obtain ⟨he, hr⟩ := (ih _ hn).expression h
    exact ⟨.braced he, hr⟩
  · simp only [bind_eq_ok_iff] at h
    obtain ⟨_, q, hword, h⟩ := h
    have hlt := Step.length_lt hword
    obtain ⟨he, hr⟩ := (ih q (by omega)).expression h
    exact ⟨word_eq_ok_iff.mp hword ▸ .worded he, hr⟩

theorem alternative_parsed {ts : List Token} {e r} (hn : ts.length < n)
    (h : (Grammar.alternative ending ts).toExcept = .ok (e, r)) :
    Alternative true ts e r ∧ (r = [] → ending = none) := by
  rw [Grammar.toExcept_alternative] at h
  split at h
  · obtain ⟨hend, rfl, rfl⟩ := Step.done_eq_ok_iff.mp h
    exact ⟨.absent (by simp [ElseAhead]), fun _ => hend⟩
  · next us =>
    simp only [map_eq_ok_iff, Prod.mk.injEq] at h
    obtain ⟨e', q, he, rfl, rfl⟩ := h
    simp only [List.length_cons] at hn
    obtain ⟨he, hr⟩ := (ih us (by omega)).expression he
    exact ⟨.present he, hr⟩
  · next hnil helse =>
    obtain ⟨rfl, rfl⟩ := Prod.mk.inj (Except.ok.inj h)
    refine ⟨.absent fun _ hhead => ?_, fun hts => absurd hts hnil⟩
    obtain ⟨us, rfl⟩ := List.head?_eq_some_iff.mp hhead
    exact helse us rfl

theorem condition_parsed {ts : List Token} {e r} (hn : ts.length < n)
    (h : (Grammar.condition ending (.keyword .ifWord :: ts)).toExcept = .ok (e, r)) :
    Bare true (.keyword .ifWord :: ts) e r ∧ (r = [] → ending = none) := by
  simp only [Grammar.toExcept_condition, bind_eq_ok_iff, map_eq_ok_iff, Prod.mk.injEq] at h
  obtain ⟨_, _, hword, test, q, htest, consequent, q', hbranch, other, _, hother, rfl, rfl⟩ := h
  obtain ⟨-, rfl⟩ := List.cons.inj (word_eq_ok_iff.mp hword)
  have hlt := Step.length_lt htest
  have hlt' := Step.length_lt hbranch
  obtain ⟨hother, hr⟩ := alternative_parsed ih (by omega) hother
  have htest := ((ih ts hn).expression htest).1
  exact ⟨.condition htest (branch_parsed ih (by omega) hbranch).1 hother, hr⟩

theorem lambda_parsed {ts : List Token} {e r} (hn : ts.length < n)
    (h : (Grammar.lambda ending ts).toExcept = .ok (e, r)) :
    Bare true (.keyword .defWord :: ts) e r ∧ (r = [] → ending = none) := by
  simp only [Grammar.toExcept_lambda, bind_eq_ok_iff, map_eq_ok_iff, Prod.mk.injEq] at h
  obtain ⟨parameters, q, hparameters, body, _, hbody, rfl, rfl⟩ := h
  have hlt := Step.length_lt hparameters
  simp only [delimited_eq_listed, bind_eq_ok_iff] at hparameters
  obtain ⟨_, us, hmark, hlisted⟩ := hparameters
  obtain ⟨hbody, hr⟩ := (ih q (by omega)).expression hbody
  exact ⟨mark_eq_ok_iff.mp hmark ▸ .lambda (parameters_of_listed hlisted) hbody, hr⟩

theorem bare_parsed {ts : List Token} {e r} (hn : ts.length ≤ n)
    (h : (Grammar.bareAtom ending ts).toExcept = .ok (e, r)) : Bare true ts e r := by
  rw [Grammar.toExcept_bareAtom] at h
  split at h
  · simp at h
  · obtain ⟨rfl, rfl⟩ := Prod.mk.inj (Except.ok.inj h)
    exact .number
  · obtain ⟨rfl, rfl⟩ := Prod.mk.inj (Except.ok.inj h)
    exact .string
  · obtain ⟨rfl, rfl⟩ := Prod.mk.inj (Except.ok.inj h)
    exact .variable
  · next us =>
    simp only [bind_eq_ok_iff, map_eq_ok_iff, Prod.mk.injEq] at h
    obtain ⟨e', q, he, _, q', hmark, rfl, rfl⟩ := h
    rw [mark_eq_ok_iff.mp hmark] at he
    exact .parenthesized ((ih us hn).expression he).1
  · next us =>
    simp only [Grammar.toExcept_block, map_eq_ok_iff, Prod.mk.injEq] at h
    obtain ⟨es, q, hes, rfl, rfl⟩ := h
    rw [delimited_eq_listed, mark_self] at hes
    exact .block (items_of_listed ih hn hes)
  · exact (condition_parsed ih hn h).1
  · obtain ⟨rfl, rfl⟩ := Prod.mk.inj (Except.ok.inj h)
    exact .trueWord
  · obtain ⟨rfl, rfl⟩ := Prod.mk.inj (Except.ok.inj h)
    exact .falseWord
  · exact (lambda_parsed ih hn h).1
  · simp at h

theorem operand_parsed {ts : List Token} {e r} (hn : ts.length ≤ n)
    (h : (Grammar.atom ending ts).toExcept = .ok (e, r)) :
    Operand true ts e r ∧ ¬ CallAhead r ∧ (r = [] → ending = none) := by
  simp only [Grammar.toExcept_atom, bind_eq_ok_iff] at h
  obtain ⟨a, q, hbare, hcalls⟩ := h
  have hlt := Step.length_lt hbare
  obtain ⟨hc, hr⟩ := calls_parsed ih (by omega) hcalls
  exact ⟨.called (bare_parsed ih hn hbare) hc, hr⟩

/-- The loop over the operators stops at an operator that does not exceed the bound, or behind the
whole chain. -/
theorem operators_parsed {left : Expr} {bound : ℕ} {ts : List Token} {e r} (hn : ts.length ≤ n)
    (hcall : ¬ CallAhead ts) (h : (Grammar.operators ending left bound ts).toExcept = .ok (e, r)) :
    ∃ links, Links true ts links r ∧ Chained ending ts links r ∧ ¬ CallAhead r ∧
      (r = [] → ending = none) ∧
      ∀ op : Operator, r.head? = some (.operator op.text) → op.precedence ≤ bound := by
  induction hm : ts.length using Nat.strong_induction_on generalizing left bound ts e r with
  | _ m ihm =>
    rw [Grammar.toExcept_operators] at h
    split at h
    · obtain ⟨hend, rfl, rfl⟩ := Step.done_eq_ok_iff.mp h
      exact ⟨[], .stop, .stop, hcall, fun _ => hend, by simp⟩
    · next text us =>
      cases hop : Operator.ofText? text with
      | none =>
          simp only [hop] at h
          obtain ⟨rfl, rfl⟩ := Prod.mk.inj (Except.ok.inj h)
          refine ⟨[], .stop, .stop, hcall, by simp, fun op htext => ?_⟩
          obtain rfl : text = op.text := by simpa using htext
          simp at hop
      | some op =>
          obtain rfl := Operator.ofText?_eq_some_iff.mp hop
          simp only [hop] at h
          split at h
          · next hle =>
            obtain ⟨rfl, rfl⟩ := Prod.mk.inj (Except.ok.inj h)
            refine ⟨[], .stop, .stop, hcall, by simp, fun op' htext => ?_⟩
            have htext' : op.text = op'.text := by simpa using htext
            rw [htext', Operator.ofText?_text] at hop
            rwa [← Option.some.inj hop] at hle
          · simp only [bind_eq_ok_iff] at h
            obtain ⟨a, q, hatom, right, q', hright, h⟩ := h
            simp only [List.length_cons] at hn hm
            have hlt := Step.length_lt hatom
            have hlt' := Step.length_lt hright
            obtain ⟨ha, hq, -⟩ := (ih us (by omega)).operand hatom
            obtain ⟨links, hl, hc, hq', -⟩ := ihm q.length (by omega) (by omega) hq hright rfl
            obtain ⟨links', hl', hc', hr⟩ := ihm q'.length (by omega) (by omega) hq' h rfl
            exact ⟨(op, a) :: (links ++ links'), .link ha (hl.append hl'),
              .link hatom (hc.append hc'), hr⟩
    · next hnil hop =>
      obtain ⟨rfl, rfl⟩ := Prod.mk.inj (Except.ok.inj h)
      refine ⟨[], .stop, .stop, hcall, fun hts => absurd hts hnil, fun op htext => ?_⟩
      obtain ⟨us, rfl⟩ := List.head?_eq_some_iff.mp htext
      exact (hop op.text us rfl).elim

theorem expression_parsed {ts : List Token} {e r} (hn : ts.length ≤ n)
    (h : (Grammar.expression ending ts).toExcept = .ok (e, r)) :
    Expression true ts e r ∧ (r = [] → ending = none) := by
  simp only [Grammar.toExcept_expression, bind_eq_ok_iff] at h
  obtain ⟨a, q, hatom, e', q', hoperators, hcalls⟩ := h
  have hlt := Step.length_lt hatom
  obtain ⟨ha, hq, -⟩ := operand_parsed ih hn hatom
  obtain ⟨links, hl, hc, hq', hend, hop⟩ := operators_parsed ih (by omega) hq hoperators
  have hstop : ¬ OperatorAhead q' := fun ⟨op, hhead⟩ =>
    absurd op.precedence_pos (Nat.not_lt.mpr (hop op hhead))
  -- No call can follow the chain, so the second check for one finds nothing.
  rw [calls_stop hq' hend] at hcalls
  obtain ⟨tree, htree, hfirst, rfl, hread⟩ := hc.operators_zero hstop hend a
  rw [hoperators] at hread
  obtain ⟨rfl, -⟩ := Prod.mk.inj (Except.ok.inj hread)
  obtain ⟨rfl, rfl⟩ := Prod.mk.inj (Except.ok.inj hcalls)
  exact ⟨.chain ha hl hfirst htree fun _ => ⟨hq', hstop⟩, hend⟩

end Step

theorem parsed (ts : List Token) : Parsed ending ts := by
  induction hn : ts.length using Nat.strong_induction_on generalizing ts with
  | _ n ih =>
    have ih' : ∀ us : List Token, us.length < n → Parsed ending us :=
      fun us hus => ih us.length hus us rfl
    exact ⟨expression_parsed ih' hn.le, operand_parsed ih' hn.le⟩

/-- **The parser reads the innermost expressions.** -/
theorem expression_eq_ok_iff {ts r : List Token} {e : Expr} :
    (Grammar.expression ending ts).toExcept = .ok (e, r) ↔
      Expression true ts e r ∧ (r = [] → ending = none) :=
  ⟨(parsed ts).expression, fun h => h.1.read h.2⟩

/-- **The parser reads the innermost operands**, with all the calls behind them. -/
theorem atom_eq_ok_iff {ts r : List Token} {e : Expr} :
    (Grammar.atom ending ts).toExcept = .ok (e, r) ↔
      Operand true ts e r ∧ ¬ CallAhead r ∧ (r = [] → ending = none) :=
  ⟨(parsed ts).operand, fun h => h.1.read h.2.1 h.2.2⟩

end Phrase

end ExprLang
