import ExprLang.Proofs.Climbing

/-! # Phrases are read

The parser reads every innermost phrase: given its tokens, it answers with the tree of the phrase
and leaves the tokens behind it (`Phrase.Expression.read` and its companions, one for each
construct).  At the end of the tokens it also asks whether the source ends there, so the fault
that may stand behind the last token matters only for phrases that reach that far. -/

namespace ExprLang.Phrase

variable {ending : Option LexicalFault}

/-! ### Single tokens -/

theorem mark_self (c : Char) (ts : List Token) :
    (Grammar.mark ending c (.punctuation c :: ts)).toExcept = .ok ((), ts) := by
  simp [Grammar.mark, Token.isPunctuation]

theorem word_self (k : Keyword) (ts : List Token) :
    (Grammar.word ending k (.keyword k :: ts)).toExcept = .ok ((), ts) := by
  simp [Grammar.word, Token.isKeyword]

/-! ### Lists between marks -/

section Lists

variable {α : Type} (ending)

/-- What is read of a list behind the mark that starts it. -/
def listed (stop separator : Char) (item : (ts : List Token) → Step α ts.length) :
    List Token → Except ParseFailure (List α × List Token)
  | [] => (Step.atEnd ending (.expecting .punctuation stop.toString) : Step _ 0).toExcept
  | t :: ts =>
    if t.isPunctuation stop then .ok ([], ts)
    else (Grammar.items ending stop separator (t :: ts) fun r _ => item r).toExcept

theorem delimited_eq_listed (start stop separator : Char) (ts : List Token)
    (item : (ts : List Token) → Step α ts.length) :
    (Grammar.delimited ending start stop separator ts fun r _ => item r).toExcept =
      (Grammar.mark ending start ts).toExcept.bind fun p =>
        listed ending stop separator item p.2 := by
  rw [Grammar.toExcept_delimited]
  rfl

variable {ending} {stop separator : Char} {item : (ts : List Token) → Step α ts.length}

theorem listed_stop (ts : List Token) :
    listed ending stop separator item (.punctuation stop :: ts) = .ok ([], ts) := by
  simp [listed, Token.isPunctuation]

/-- An item that the stop mark follows is the last one. -/
theorem items_last {ts r : List Token} {a : α}
    (hitem : (item ts).toExcept = .ok (a, .punctuation stop :: r)) :
    (Grammar.items ending stop separator ts fun r _ => item r).toExcept = .ok ([a], r) := by
  rw [Grammar.toExcept_items, hitem]
  simp only [Except.bind]
  rw [Grammar.toExcept_followItem]
  simp [Token.isPunctuation]

/-- Behind an item and a separator the list goes on as if it began there. -/
theorem items_more {ts r s : List Token} {a : α} {as : List α} (hne : separator ≠ stop)
    (hitem : (item ts).toExcept = .ok (a, .punctuation separator :: r))
    (hlist : listed ending stop separator item r = .ok (as, s)) :
    (Grammar.items ending stop separator ts fun r _ => item r).toExcept = .ok (a :: as, s) := by
  have hstop : (Token.punctuation separator).isPunctuation stop = false := by
    simp [Token.isPunctuation, hne]
  have hself : (Token.punctuation separator).isPunctuation separator = true := by
    simp [Token.isPunctuation]
  rw [Grammar.toExcept_items, hitem]
  simp only [Except.bind]
  rw [Grammar.toExcept_followItem]
  simp only [hstop, hself, Bool.false_eq_true, if_false, if_true]
  cases r with
  | nil => simp [listed] at hlist
  | cons t r =>
      simp only [listed] at hlist
      by_cases ht : t.isPunctuation stop
      · rw [if_pos ht] at hlist
        obtain ⟨rfl, rfl⟩ : [] = as ∧ r = s := by simpa using hlist
        simp [ht]
      · rw [if_neg ht] at hlist
        rw [hlist]
        simp [ht, Except.map]

end Lists

/-- The names of parameters are read up to the closing parenthesis. -/
theorem Parameters.read {ts ps r} (h : Parameters ts ps (.punctuation ')' :: r)) :
    listed ending ')' ',' (Grammar.name ending) ts = .ok (ps, r) := by
  generalize hr : Token.punctuation ')' :: r = r' at h
  induction h with
  | empty =>
      subst hr
      exact listed_stop r
  | @last x ts =>
      subst hr
      exact items_last rfl
  | @more x ts xs _ _ ih => exact items_more (by decide) rfl (ih hr)

/-! ### How phrases begin -/

/-- No expression begins with a mark that closes something. -/
theorem Expression.mark_eq {k : Bool} {c : Char} {ts e r}
    (h : Expression k (.punctuation c :: ts) e r) : c = '(' ∨ c = '\x7b' := by
  cases h with
  | chain ha =>
      cases ha with
      | called hb => cases hb <;> simp

theorem Expression.ne_nil {k : Bool} {e r} (h : Expression k [] e r) : False := by
  cases h with
  | chain ha =>
      cases ha with
      | called hb => cases hb

theorem Links.not_callAhead {k : Bool} {ts l r} (h : Links k ts l r) (hr : ¬ CallAhead r) :
    ¬ CallAhead ts := by
  cases h with
  | stop => exact hr
  | link => simp [CallAhead]

theorem Links.ends {k : Bool} {ts l r} {P : Prop} (h : Links k ts l r) (hr : r = [] → P) :
    ts = [] → P := by
  cases h with
  | stop => exact hr
  | link => simp

theorem Calls.ends {k : Bool} {f ts e r} {P : Prop} (h : Calls k f ts e r) (hr : r = [] → P) :
    ts = [] → P := by
  cases h with
  | stop => exact hr
  | call => simp

theorem Branch.ends {k : Bool} {ts e r} {P : Prop} (h : Branch k ts e r) : ts = [] → P := by
  cases h <;> simp

theorem Alternative.ends {k : Bool} {ts e r} {P : Prop} (h : Alternative k ts e r)
    (hr : r = [] → P) : ts = [] → P := by
  cases h with
  | absent => exact hr
  | present => simp

/-- A list that begins with an expression is not empty. -/
theorem Expression.listed {k : Bool} {stop separator : Char} {ts e r} (h : Expression k ts e r)
    (hstop : stop ≠ '(' ∧ stop ≠ '\x7b') :
    listed ending stop separator (Grammar.expression ending) ts =
      (Grammar.items ending stop separator ts fun r _ => Grammar.expression ending r).toExcept := by
  cases ts with
  | nil => exact h.ne_nil.elim
  | cons t ts =>
      refine if_neg fun ht => ?_
      obtain rfl : t = .punctuation stop := by simpa [Token.isPunctuation] using ht
      exact h.mark_eq.elim hstop.1 hstop.2

/-! ### Every construct -/

mutual

theorem Expression.read {ts e r} : Expression true ts e r → (r = [] → ending = none) →
    (Grammar.expression ending ts).toExcept = .ok (e, r)
  | .chain ha hl hfirst htree hstop, hr => by
      obtain ⟨hcall, hop⟩ := hstop rfl
      obtain ⟨tree, htree', hfirst', hlinks, hread⟩ :=
        (hl.read hcall hr).operators_zero hop hr _
      obtain rfl := htree.eq_of_links_eq htree' (hfirst.trans hfirst'.symm) hlinks.symm
      rw [Grammar.toExcept_expression, ha.read (hl.not_callAhead hcall) (hl.ends hr)]
      simp only [Except.bind]
      rw [hread]
      exact calls_stop hcall hr _

theorem Links.read {ts l r} : Links true ts l r → ¬ CallAhead r → (r = [] → ending = none) →
    Chained ending ts l r
  | .stop, _, _ => .stop
  | .link ha hl, hcall, hr =>
      .link (ha.read (hl.not_callAhead hcall) (hl.ends hr)) (hl.read hcall hr)

theorem Operand.read {ts e r} : Operand true ts e r → ¬ CallAhead r → (r = [] → ending = none) →
    (Grammar.atom ending ts).toExcept = .ok (e, r)
  | .called hb hc, hcall, hr => by
      rw [Grammar.toExcept_atom, hb.read (hc.ends hr)]
      exact hc.read hcall hr

theorem Calls.read {f ts e r} : Calls true f ts e r → ¬ CallAhead r → (r = [] → ending = none) →
    (Grammar.calls ending f ts).toExcept = .ok (e, r)
  | .stop, hcall, hr => calls_stop hcall hr _
  | .call has hc, hcall, hr => by
      rw [Grammar.toExcept_calls]
      simp only [Grammar.toExcept_call, delimited_eq_listed, mark_self, Except.bind]
      rw [has.read rfl (by decide) (by decide)]
      exact hc.read hcall hr

theorem Bare.read {ts e r} : Bare true ts e r → (r = [] → ending = none) →
    (Grammar.bareAtom ending ts).toExcept = .ok (e, r)
  | .variable, _ => by rw [Grammar.toExcept_bareAtom]
  | .number, _ => by rw [Grammar.toExcept_bareAtom]
  | .string, _ => by rw [Grammar.toExcept_bareAtom]
  | .trueWord, _ => by rw [Grammar.toExcept_bareAtom]
  | .falseWord, _ => by rw [Grammar.toExcept_bareAtom]
  | .parenthesized he, _ => by
      rw [Grammar.toExcept_bareAtom]
      simp only [he.read (by simp), mark_self, Except.bind, Except.map]
  | .block hes, _ => by
      rw [Grammar.toExcept_bareAtom]
      simp only [Grammar.toExcept_block, delimited_eq_listed, mark_self, Except.bind]
      rw [hes.read rfl (by decide) (by decide)]
      rfl
  | .condition he hb ha, hr => by
      rw [Grammar.toExcept_bareAtom]
      simp only [Grammar.toExcept_condition, word_self, Except.bind]
      simp only [he.read hb.ends, hb.read (ha.ends hr), ha.read hr, Except.map]
  | .lambda hps he, hr => by
      rw [Grammar.toExcept_bareAtom]
      simp only [Grammar.toExcept_lambda, delimited_eq_listed, mark_self, Except.bind]
      simp only [hps.read, he.read hr, Except.map]

theorem Branch.read {ts e r} : Branch true ts e r → (r = [] → ending = none) →
    (Grammar.branch ending ts).toExcept = .ok (e, r)
  | .worded he, hr => by
      rw [Grammar.toExcept_branch]
      simp only [word_self, Except.bind]
      exact he.read hr
  | .braced he, hr => by
      rw [Grammar.toExcept_branch]
      exact he.read hr

theorem Alternative.read {ts e r} : Alternative true ts e r → (r = [] → ending = none) →
    (Grammar.alternative ending ts).toExcept = .ok (e, r)
  | .absent helse, hr => alternative_stop (helse rfl) hr
  | .present he, hr => by
      rw [Grammar.toExcept_alternative]
      simp only [he.read hr, Except.map]

theorem Items.read {separator stop ts es s r} : Items true separator ts es s →
    s = .punctuation stop :: r → separator ≠ stop → (stop ≠ '(' ∧ stop ≠ '\x7b') →
    listed ending stop separator (Grammar.expression ending) ts = .ok (es, r)
  | .empty, hs, _, _ => by
      rw [hs]
      exact listed_stop r
  | .last he, hs, _, hstop => by
      rw [he.listed hstop]
      exact items_last (he.read (by simp [hs]) |>.trans (by rw [hs]))
  | .more he hes, hs, hne, hstop => by
      rw [he.listed hstop]
      exact items_more hne (he.read (by simp)) (hes.read hs hne hstop)

end

end ExprLang.Phrase
