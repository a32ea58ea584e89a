import ExprLang.Proofs.Acceptance
import ExprLang.Proofs.Prompt

/-! # The grammar is read promptly

Every construct of the grammar is read by a prompt reader, for the language of the phrases that it
derives (`Phrase.prompt_program`).  So a program with a wrong token fails at the first one: what
stands before it can be completed to a program, and no program begins with it.

The languages are those of the ambiguous grammar, closed under what the grammar puts together. -/

namespace ExprLang

namespace Phrase

/-! ### The languages of the constructs -/

/-- The words that are expressions. -/
def expressions : Language Token := {ts | ∃ e, Expression false ts e []}

/-- Operators, each with an operand behind it. -/
def chains : Language Token := {ts | ∃ l, Links false ts l []}

def operands : Language Token := {ts | ∃ e, Operand false ts e []}

/-- Arguments of calls, whatever function is called first. -/
def callLists : Language Token := {ts | ∀ f, ∃ e, Calls false f ts e []}

def bareOperands : Language Token := {ts | ∃ e, Bare false ts e []}

def branches : Language Token := {ts | ∃ e, Branch false ts e []}

def alternatives : Language Token := {ts | ∃ e, Alternative false ts e []}

/-- Lists of expressions with the mark that stops them. -/
def lists (stop separator : Char) : Language Token :=
  {ts | ∃ es, Items false separator ts es [.punctuation stop]}

/-- Lists of names with the parenthesis that stops them. -/
def nameLists : Language Token := {ts | ∃ ps, Parameters ts ps [.punctuation ')']}

def programs : Language Token := {ts | ∃ es, Items false ';' ts es []}

theorem nil_notMem_expressions : [] ∉ expressions := by
  rintro ⟨e, he⟩
  exact he.ne_nil

theorem nil_mem_chains : [] ∈ chains := ⟨[], .stop⟩

theorem nil_mem_callLists : [] ∈ callLists := fun f => ⟨f, .stop⟩

theorem nil_mem_alternatives : [] ∈ alternatives := ⟨none, .absent (by simp)⟩

theorem nil_mem_programs : [] ∈ programs := ⟨[], .empty⟩

/-- What follows an operand may be taken as links and calls in any order. -/
theorem operands_mul_le : operands * (chains * callLists) ≤ expressions := by
  rintro _ ⟨ts, ⟨a, ha⟩, _, ⟨us, ⟨l, hl⟩, vs, hcalls, rfl⟩, rfl⟩
  obtain ⟨f, hc⟩ := hcalls a
  have ha' := ha.frame (us ++ vs) (by simp)
  have hl' := hl.frame vs (by simp)
  obtain ⟨e, he⟩ := ha'.expression hl' (by simp)
  exact he.extend hc .stop

theorem bareOperands_mul_le : bareOperands * callLists ≤ operands := by
  rintro _ ⟨ts, ⟨a, ha⟩, us, hcalls, rfl⟩
  obtain ⟨f, hc⟩ := hcalls a
  exact ⟨f, .called (ha.frame us (by simp)) hc⟩

theorem link_mul_le (op : Operator) :
    {[.operator op.text]} * (operands * (chains * chains)) ≤ chains := by
  rintro _ ⟨_, rfl, _, ⟨ts, ⟨a, ha⟩, _, ⟨us, ⟨l, hl⟩, vs, ⟨l', hl'⟩, rfl⟩, rfl⟩, rfl⟩
  have hlinks := (hl.frame vs (by simp)).append hl'
  exact ⟨_, .link (ha.frame (us ++ vs) (by simp)) hlinks⟩

theorem call_mul_le : {[.punctuation '(']} * lists ')' ',' * callLists ≤ callLists := by
  rintro _ ⟨_, ⟨_, rfl, ts, ⟨args, hargs⟩, rfl⟩, us, hcalls, rfl⟩ f
  obtain ⟨e, hc⟩ := hcalls (.call f args)
  exact ⟨e, .call (hargs.frame us (by simp)) hc⟩

theorem parenthesized_mul_le :
    {[.punctuation '(']} * (expressions * {[.punctuation ')']}) ≤ bareOperands := by
  rintro _ ⟨_, rfl, _, ⟨ts, ⟨e, he⟩, _, rfl, rfl⟩, rfl⟩
  exact ⟨e, .parenthesized (he.frame _ (by simp))⟩

theorem block_mul_le : {[.punctuation '\x7b']} * lists '\x7d' ';' ≤ bareOperands := by
  rintro _ ⟨_, rfl, ts, ⟨es, hes⟩, rfl⟩
  exact ⟨_, .block hes⟩

theorem condition_mul_le :
    {[.keyword .ifWord]} * (expressions * (branches * alternatives)) ≤ bareOperands := by
  rintro _ ⟨_, rfl, _, ⟨ts, ⟨e, he⟩, _, ⟨us, ⟨c, hc⟩, vs, ⟨a, ha⟩, rfl⟩, rfl⟩, rfl⟩
  exact ⟨_, .condition (he.frame (us ++ vs) (by simp)) (hc.frame vs (by simp)) ha⟩

theorem lambda_mul_le :
    {[.keyword .defWord]} * (({[.punctuation '(']} * nameLists) * expressions) ≤
      bareOperands := by
  rintro _ ⟨_, rfl, _, ⟨_, ⟨_, rfl, ts, ⟨ps, hps⟩, rfl⟩, us, ⟨e, he⟩, rfl⟩, rfl⟩
  exact ⟨_, .lambda (hps.frame us) he⟩

theorem worded_mul_le : {[.keyword .thenWord]} * expressions ≤ branches := by
  rintro _ ⟨_, rfl, ts, ⟨e, he⟩, rfl⟩
  exact ⟨e, .worded he⟩

theorem otherwise_mul_le : {[.keyword .elseWord]} * expressions ≤ alternatives := by
  rintro _ ⟨_, rfl, ts, ⟨e, he⟩, rfl⟩
  exact ⟨_, .present he⟩

theorem programs_mul_le :
    expressions * (1 + {[.punctuation ';']} * programs) ≤ programs := by
  rintro _ ⟨ts, ⟨e, he⟩, _, rfl | ⟨_, rfl, us, ⟨es, hes⟩, rfl⟩, rfl⟩
  · exact ⟨_, .last (he.frame [] (by simp))⟩
  · exact ⟨_, .more (he.frame _ (by simp)) hes⟩

/-! ### Completions -/

theorem hasText_keyword (k : Keyword) : (Token.keyword k).HasText :=
  ⟨_, fun more => .keyword k (ends_cons (by decide) more)⟩

theorem hasText_punctuation {c : Char} (h : IsMark c) : (Token.punctuation c).HasText :=
  ⟨_, fun _ => .punctuation h⟩

/-- A keyword stands for an operand that is missing. -/
theorem viable_bareOperands : Viable bareOperands [] :=
  ⟨_, List.forall_mem_singleton.mpr (hasText_keyword .trueWord), _, .trueWord⟩

theorem viable_operands : Viable operands [] :=
  (viable_bareOperands.mul (viable_of_mem nil_mem_callLists)).mono bareOperands_mul_le

theorem viable_expressions : Viable expressions [] :=
  have hchains := Language.append_mem_mul nil_mem_chains nil_mem_callLists
  (viable_operands.mul (viable_of_mem hchains)).mono operands_mul_le

theorem viable_branches : Viable branches [] :=
  (viable_expressions.cons (hasText_keyword .thenWord)).mono worded_mul_le

/-! ### Single tokens -/

theorem prompt_mark {c : Char} (hc : IsMark c) {ending : Option LexicalFault} (ts : List Token) :
    Prompt {[.punctuation c]} (.of fun e => Grammar.mark e c) ending ts := by
  have hviable : Viable {[.punctuation c]} [] :=
    ⟨_, List.forall_mem_singleton.mpr (hasText_punctuation hc), rfl⟩
  cases ts with
  | nil => exact .atEnd (.expecting ..) hviable trivial rfl
  | cons t ts =>
      by_cases ht : t.isPunctuation c
      · obtain rfl := Token.isPunctuation_iff.mp ht
        exact .single fun e q => mark_self ..
      · refine .wrong (.expecting .punctuation c.toString) (t :: ·) hviable trivial fun e q => ?_
        simp [Reader.of, Grammar.mark, ht]

end Phrase

/-! ### Lists -/

section Lists

variable {α : Type} {M T : Language Token} {stop separator : Char}
  {item : Option LexicalFault → (ts : List Token) → Step α ts.length}
  {ending : Option LexicalFault}

/-- The language is closed under putting words of another one into lists with a mark behind them. -/
structure ListsOf (M : Language Token) (stop separator : Char) (T : Language Token) : Prop where
  stop_mem : [.punctuation stop] ∈ T
  last : M * {[.punctuation stop]} ≤ T
  more : M * ({[.punctuation separator]} * T) ≤ T

theorem ListsOf.viable (hT : ListsOf M stop separator T) (hstop : IsMark stop) : Viable T [] :=
  ⟨_, List.forall_mem_singleton.mpr (Phrase.hasText_punctuation hstop), hT.stop_mem⟩

/-- One item or more and the mark that stops them. -/
def Reader.items (stop separator : Char)
    (item : Option LexicalFault → (ts : List Token) → Step α ts.length) : Reader (List α) :=
  fun ending ts => (Grammar.items ending stop separator ts fun r _ => item ending r).toExcept

/-- What follows an item. -/
def Reader.followItem (stop separator : Char)
    (item : Option LexicalFault → (ts : List Token) → Step α ts.length) (a : α) :
    Reader (List α) := fun ending ts =>
  (Grammar.followItem ending stop separator a ts fun r _ =>
    Grammar.items ending stop separator r fun r _ => item ending r).toExcept

/-- What follows a separator: the mark that stops the list, or more items. -/
def Reader.followSeparator (stop separator : Char)
    (item : Option LexicalFault → (ts : List Token) → Step α ts.length) : Reader (List α) :=
  fun ending ts =>
    if ts.head?.any (·.isPunctuation stop) then .ok ([], ts.tail)
    else items stop separator item ending ts

theorem Reader.items_eq :
    items stop separator item = (of item).bind (followItem stop separator item) := by
  funext ending ts
  exact Grammar.toExcept_items ending stop separator ts (item ending)

theorem prompt_followSeparator (hT : ListsOf M stop separator T) {ts : List Token}
    (h : Prompt T (.items stop separator item) ending ts) :
    Prompt T (.followSeparator stop separator item) ending ts := by
  cases ts with
  | nil => exact h.congr_nil rfl
  | cons t ts =>
      by_cases ht : t.isPunctuation stop
      · obtain rfl := Token.isPunctuation_iff.mp ht
        refine (Prompt.single (a := []) fun e q => ?_).mono
          (Set.singleton_subset_iff.mpr hT.stop_mem)
        simp [Reader.followSeparator, ht]
      · refine h.congr fun e q => ?_
        simp [Reader.followSeparator, ht]

theorem prompt_followItem (hT : ListsOf M stop separator T) (hstop : IsMark stop)
    (a : α) {ts : List Token}
    (h : ∀ {t q}, ts = t :: q → Prompt T (.items stop separator item) ending q) :
    Prompt ({[.punctuation stop]} + {[.punctuation separator]} * T)
      (.followItem stop separator item a) ending ts := by
  have hviable : Viable ({[.punctuation stop]} + {[.punctuation separator]} * T) [] :=
    ⟨[.punctuation stop], List.forall_mem_singleton.mpr (Phrase.hasText_punctuation hstop),
      .inl rfl⟩
  cases ts with
  | nil => exact .atEnd (.expecting ..) hviable trivial (Grammar.toExcept_followItem ..)
  | cons t ts =>
      by_cases ht : t.isPunctuation stop
      · obtain rfl := Token.isPunctuation_iff.mp ht
        refine (Prompt.single (a := [a]) fun e q => ?_).mono le_sup_left
        exact (Grammar.toExcept_followItem ..).trans (if_pos ht)
      · by_cases hsep : t.isPunctuation separator
        · obtain rfl := Token.isPunctuation_iff.mp hsep
          have hrest := (prompt_followSeparator hT (h rfl)).map (a :: ·)
          refine (hrest.cons fun e q => ?_).mono le_sup_right
          refine (Grammar.toExcept_followItem ..).trans ?_
          simp only [ht, hsep, Bool.false_eq_true, if_false, if_true]
          unfold Reader.map Reader.followSeparator
          split <;> rfl
        · refine .wrong (.expecting .punctuation separator.toString) (t :: ·) hviable trivial
            fun e q => ?_
          refine (Grammar.toExcept_followItem ..).trans ?_
          simp only [ht, hsep, Bool.false_eq_true, if_false]

/-- Lists of items that are read promptly are read promptly. -/
theorem prompt_items (hT : ListsOf M stop separator T) (hstop : IsMark stop) {ts : List Token}
    (h : ∀ us : List Token, us.length ≤ ts.length → Prompt M (.of item) ending us) :
    Prompt T (.items stop separator item) ending ts := by
  induction hn : ts.length using Nat.strong_induction_on generalizing ts with
  | _ n ih =>
    have hle : M * ({[.punctuation stop]} + {[.punctuation separator]} * T) ≤ T := by
      rw [mul_add]
      exact sup_le hT.last hT.more
    rw [Reader.items_eq]
    refine ((h ts le_rfl).bind ?_ fun {a s} hok => ?_).mono hle
    · exact ⟨[.punctuation stop],
        List.forall_mem_singleton.mpr (Phrase.hasText_punctuation hstop), .inl rfl⟩
    · have hlt := Step.length_lt hok
      refine prompt_followItem hT hstop a fun {t q} hs => ?_
      subst hs
      simp only [List.length_cons] at hlt
      refine ih q.length (by omega) (fun us hus => h us (by omega)) rfl

theorem prompt_listed (hT : ListsOf M stop separator T) (hstop : IsMark stop) {ts : List Token}
    (h : ∀ us : List Token, us.length ≤ ts.length → Prompt M (.of item) ending us) :
    Prompt T (fun e us => Phrase.listed e stop separator (item e) us) ending ts := by
  cases ts with
  | nil =>
      exact .atEnd (.expecting ..) (hT.viable hstop) trivial rfl
  | cons t ts =>
      refine (prompt_followSeparator hT (prompt_items hT hstop h)).congr fun e q => ?_
      rfl

/-- Behind the mark that starts it a list is read promptly if its items are. -/
theorem prompt_delimited (start : Char) (hT : ListsOf M stop separator T) (hstart : IsMark start)
    (hstop : IsMark stop) {ts : List Token}
    (h : ∀ us : List Token, us.length < ts.length → Prompt M (.of item) ending us) :
    Prompt ({[.punctuation start]} * T)
      (fun e us => (Grammar.delimited e start stop separator us fun r _ => item e r).toExcept)
      ending ts := by
  have hbind := (Phrase.prompt_mark hstart ts).bind (hT.viable hstop)
    (N := fun _ e us => Phrase.listed e stop separator (item e) us) fun {_ s} hok => by
      have hlt : s.length < ts.length := Step.length_lt hok
      exact prompt_listed hT hstop fun us hus => h us (Nat.lt_of_le_of_lt hus hlt)
  exact hbind.of_eq fun e us => Phrase.delimited_eq_listed ..

end Lists

namespace Phrase

/-! ### Lists of names and of expressions -/

theorem listsOf_expressions (stop separator : Char) :
    ListsOf expressions stop separator (lists stop separator) where
  stop_mem := ⟨[], .empty⟩
  last := by
    rintro _ ⟨ts, ⟨e, he⟩, _, rfl, rfl⟩
    exact ⟨_, .last (he.frame _ (by simp))⟩
  more := by
    rintro _ ⟨ts, ⟨e, he⟩, _, ⟨_, rfl, us, ⟨es, hes⟩, rfl⟩, rfl⟩
    exact ⟨_, .more (he.frame _ (by simp)) hes⟩

/-- The words that are names. -/
def names : Language Token := {ts | ∃ x, ts = [.variable x]}

theorem listsOf_names : ListsOf names ')' ',' nameLists where
  stop_mem := ⟨[], .empty⟩
  last := by
    rintro _ ⟨_, ⟨x, rfl⟩, _, rfl, rfl⟩
    exact ⟨_, .last⟩
  more := by
    rintro _ ⟨_, ⟨x, rfl⟩, _, ⟨_, rfl, us, ⟨ps, hps⟩, rfl⟩, rfl⟩
    exact ⟨_, .more hps⟩

theorem viable_names : Viable names [] := by
  refine ⟨[.variable "x"], List.forall_mem_singleton.mpr ⟨['x'], fun more => ?_⟩, "x", rfl⟩
  exact .name (by decide) nofun (by intro k; cases k <;> decide) (ends_cons (by decide) _)

theorem prompt_name {ending : Option LexicalFault} (ts : List Token) :
    Prompt names (.of Grammar.name) ending ts := by
  match ts with
  | [] => exact .atEnd .nonVariable viable_names trivial rfl
  | .variable x :: ts =>
      exact (Prompt.single (a := x) fun _ _ => rfl).mono (Set.singleton_subset_iff.mpr ⟨x, rfl⟩)
  | .keyword _ :: ts => exact .wrong .nonVariable id viable_names trivial fun _ _ => rfl
  | .number _ :: ts => exact .wrong .nonVariable id viable_names trivial fun _ _ => rfl
  | .string _ :: ts => exact .wrong .nonVariable id viable_names trivial fun _ _ => rfl
  | .operator _ :: ts => exact .wrong .nonVariable id viable_names trivial fun _ _ => rfl
  | .punctuation _ :: ts => exact .wrong .nonVariable id viable_names trivial fun _ _ => rfl

theorem prompt_parameters {ending : Option LexicalFault} (ts : List Token) :
    Prompt ({[.punctuation '(']} * nameLists)
      (fun e us => (Grammar.delimited e '(' ')' ',' us fun r _ => Grammar.name e r).toExcept)
      ending ts :=
  prompt_delimited '(' listsOf_names (by decide) (by decide) fun us _ => prompt_name us

/-- A token that is an operand by itself. -/
theorem prompt_bare {t : Token} {x : Expr} (hbare : Bare false [t] x []) {R : Reader Expr}
    (heq : ∀ e q, R e (t :: q) = .ok (x, q)) {ending : Option LexicalFault} {ts : List Token} :
    Prompt bareOperands R ending (t :: ts) :=
  (Prompt.single heq).mono (Set.singleton_subset_iff.mpr ⟨x, hbare⟩)

/-! ### Every construct -/

/-- The expression and the operand in front of the tokens are read promptly. -/
structure Promptly (ending : Option LexicalFault) (ts : List Token) : Prop where
  expression : Prompt expressions (.of Grammar.expression) ending ts
  operand : Prompt operands (.of Grammar.atom) ending ts

section Step

variable {ending : Option LexicalFault} {n : ℕ}
  (ih : ∀ us : List Token, us.length < n → Promptly ending us)
include ih

theorem prompt_call (f : Expr) {ts : List Token} (hn : ts.length ≤ n) :
    Prompt ({[.punctuation '(']} * lists ')' ',') (.of fun e => Grammar.call e f) ending ts := by
  have hlist := prompt_delimited '(' (listsOf_expressions ')' ',') (by decide) (by decide)
    fun us hus => (ih us (Nat.lt_of_lt_of_le hus hn)).expression
  have hcall := hlist.map fun arguments => Expr.call f arguments
  exact hcall.of_eq fun e us => Grammar.toExcept_call e f us

theorem prompt_calls (f : Expr) {ts : List Token} (hn : ts.length ≤ n) :
    Prompt callLists (.of fun e => Grammar.calls e f) ending ts := by
  -- The function changes with every call, so the words are those before which any one stands.
  induction hm : ts.length using Nat.strong_induction_on generalizing f ts with
  | _ m ihm =>
    cases ts with
    | nil => exact .done nil_mem_callLists (Grammar.toExcept_calls ..)
    | cons t ts =>
        by_cases ht : t = .punctuation '('
        · subst ht
          have hbind := (prompt_call ih f hn).bind (viable_of_mem nil_mem_callLists)
            (N := fun g => .of fun e => Grammar.calls e g) fun {g s} hok => by
              have hlt := Step.length_lt hok
              exact ihm s.length (by omega) g (by omega) rfl
          refine (hbind.mono call_mul_le).congr fun e q => ?_
          exact Grammar.toExcept_calls e f (.punctuation '(' :: q)
        · refine .stop (a := f) nil_mem_callLists fun e q => ?_
          have hcall : ¬CallAhead (t :: q) := by simpa [CallAhead] using ht
          exact calls_stop hcall (by simp) f

theorem prompt_operators (left : Expr) (bound : ℕ) {ts : List Token} (hn : ts.length ≤ n) :
    Prompt chains (.of fun e => Grammar.operators e left bound) ending ts := by
  induction hm : ts.length using Nat.strong_induction_on generalizing left bound ts with
  | _ m ihm =>
    cases ts with
    | nil => exact .done nil_mem_chains (Grammar.toExcept_operators ..)
    | cons t ts =>
        simp only [List.length_cons] at hn hm
        by_cases ht : ∃ op : Operator, t = .operator op.text ∧ bound < op.precedence
        · obtain ⟨op, rfl, hbound⟩ := ht
          -- An operand, what binds to it on the right, and the rest of the chain.
          have hrest := (ih ts (by omega)).operand.bind
            (N := fun a => (Reader.of fun e => Grammar.operators e a op.rightBound).bind
              fun right => .of fun e => Grammar.operators e (op.apply left right) bound)
            (viable_of_mem (Language.append_mem_mul nil_mem_chains nil_mem_chains))
            fun {a r} hatom => by
              have hlt := Step.length_lt hatom
              refine (ihm r.length (by omega) a op.rightBound (by omega) rfl).bind
                (viable_of_mem nil_mem_chains) fun {right s} hright => ?_
              have hlt' : s.length < r.length + 1 := Step.length_lt hright
              exact ihm s.length (by omega) (op.apply left right) bound (by omega) rfl
          refine (hrest.cons fun e q => ?_).mono (link_mul_le op)
          refine (Grammar.toExcept_operators ..).trans ?_
          simp only [Operator.ofText?_text, Nat.not_le.mpr hbound, if_false]
          rfl
        · refine .stop (a := left) nil_mem_chains fun e q => ?_
          refine (Grammar.toExcept_operators ..).trans ?_
          split
          · next hnil => cases hnil
          · next text us heq =>
            cases heq
            cases hop : Operator.ofText? text with
            | none => rfl
            | some op =>
                have hle : op.precedence ≤ bound := by
                  by_contra hlt
                  exact ht ⟨op, by rw [Operator.ofText?_eq_some_iff.mp hop], Nat.lt_of_not_le hlt⟩
                simp only [hle, if_true]
          · rfl

theorem prompt_expression {ts : List Token} (hn : ts.length ≤ n)
    (ha : Prompt operands (.of Grammar.atom) ending ts) :
    Prompt expressions (.of Grammar.expression) ending ts := by
  have hbind := ha.bind
    (N := fun a => (Reader.of fun e => Grammar.operators e a 0).bind
      fun x => .of fun e => Grammar.calls e x)
    (viable_of_mem (Language.append_mem_mul nil_mem_chains nil_mem_callLists))
    fun {a r} hatom => by
      have hlt := Step.length_lt hatom
      refine (prompt_operators ih a 0 (by omega)).bind (viable_of_mem nil_mem_callLists)
        fun {x s} hoperators => ?_
      have hlt' : s.length < r.length + 1 := Step.length_lt hoperators
      exact prompt_calls ih x (by omega)
  exact (hbind.mono operands_mul_le).of_eq fun e us => Grammar.toExcept_expression e us

theorem prompt_branch {ts : List Token} (hn : ts.length < n) :
    Prompt branches (.of Grammar.branch) ending ts := by
  cases ts with
  | nil => exact .atEnd (.expecting ..) viable_branches trivial (Grammar.toExcept_branch ..)
  | cons t ts =>
      by_cases hbrace : t = .punctuation '\x7b'
      · subst hbrace
        -- The brace is not used up, and only the expressions that begin with it are branches.
        have hexpression := (ih _ hn).expression.mono_cons nil_notMem_expressions viable_branches
          fun {w} ⟨e, he⟩ => ⟨e, .braced he⟩
        exact hexpression.congr fun e q => Grammar.toExcept_branch ..
      · by_cases hthen : t = .keyword .thenWord
        · subst hthen
          simp only [List.length_cons] at hn
          refine ((ih ts (by omega)).expression.cons fun e q => ?_).mono worded_mul_le
          refine (Grammar.toExcept_branch ..).trans ?_
          simp only [word_self, Except.bind]
          rfl
        · refine .wrong (.expecting .keyword Keyword.thenWord.text) (t :: ·) viable_branches
            trivial fun e q => ?_
          refine (Grammar.toExcept_branch ..).trans ?_
          split
          · next heq => cases heq; exact absurd rfl hbrace
          · simp [Grammar.word, Token.isKeyword, hthen, Except.bind]

theorem prompt_alternative {ts : List Token} (hn : ts.length < n) :
    Prompt alternatives (.of Grammar.alternative) ending ts := by
  cases ts with
  | nil => exact .done nil_mem_alternatives (Grammar.toExcept_alternative ..)
  | cons t ts =>
      by_cases ht : t = .keyword .elseWord
      · subst ht
        simp only [List.length_cons] at hn
        have hsome := (ih ts (by omega)).expression.map some
        refine (hsome.cons fun e q => ?_).mono otherwise_mul_le
        exact Grammar.toExcept_alternative ..
      · refine .stop (a := none) nil_mem_alternatives fun e q => ?_
        have helse : ¬ElseAhead (t :: q) := by simpa [ElseAhead] using ht
        exact alternative_stop helse (by simp)

theorem prompt_condition {ts : List Token} (hn : ts.length < n) :
    Prompt bareOperands (.of Grammar.condition) ending (.keyword .ifWord :: ts) := by
  have hbranches : Viable (branches * alternatives) [] :=
    viable_branches.mul (viable_of_mem nil_mem_alternatives)
  have hrest := (ih ts hn).expression.bind
    (N := fun test => (Reader.of Grammar.branch).bind fun consequent =>
      (Reader.of Grammar.alternative).map fun other => Expr.condition test consequent other)
    hbranches fun {test r} htest => by
      have hlt : r.length < ts.length := Step.length_lt htest
      refine (prompt_branch ih (by omega)).bind (viable_of_mem nil_mem_alternatives)
        fun {consequent s} hbranch => ?_
      have hlt' : s.length < r.length := Step.length_lt hbranch
      exact (prompt_alternative ih (by omega)).map _
  refine (hrest.cons fun e q => ?_).mono condition_mul_le
  refine (Grammar.toExcept_condition ..).trans ?_
  simp only [word_self, Except.bind]
  rfl

theorem prompt_lambda {ts : List Token} (hn : ts.length < n) :
    Prompt (({[.punctuation '(']} * nameLists) * expressions) (.of Grammar.lambda) ending ts := by
  have hrest := (prompt_parameters ts).bind
    (N := fun parameters => (Reader.of Grammar.expression).map fun body =>
      Expr.lambda parameters body)
    viable_expressions fun {parameters r} hparameters => by
      have hlt : r.length < ts.length := Step.length_lt hparameters
      exact (ih r (by omega)).expression.map _
  exact hrest.of_eq fun e us => Grammar.toExcept_lambda e us

theorem prompt_block {ts : List Token} (hn : ts.length ≤ n) :
    Prompt ({[.punctuation '\x7b']} * lists '\x7d' ';') (.of Grammar.block) ending ts := by
  have hlist := prompt_delimited '\x7b' (listsOf_expressions '\x7d' ';') (by decide) (by decide)
    fun us hus => (ih us (Nat.lt_of_lt_of_le hus hn)).expression
  exact (hlist.map Grammar.blockOf).of_eq fun e us => Grammar.toExcept_block e us

theorem prompt_parenthesized {ts : List Token} (hn : ts.length < n) :
    Prompt (expressions * {[.punctuation ')']})
      ((Reader.of Grammar.expression).bind fun x =>
        (Reader.of fun e => Grammar.mark e ')').map fun _ => x) ending ts := by
  have hmark := Phrase.hasText_punctuation (c := ')') (by decide)
  refine (ih ts hn).expression.bind ?_ fun {x s} _ => (prompt_mark (by decide) s).map _
  exact ⟨_, List.forall_mem_singleton.mpr hmark, rfl⟩

theorem prompt_bareAtom {ts : List Token} (hn : ts.length ≤ n) :
    Prompt bareOperands (.of Grammar.bareAtom) ending ts := by
  have heq := fun e us => Grammar.toExcept_bareAtom e us
  match ts with
  | [] => exact .atEnd (.unexpectedToken "null") viable_bareOperands rfl (heq _ _)
  | .number x :: ts => exact prompt_bare .number fun e q => heq e _
  | .string s :: ts => exact prompt_bare .string fun e q => heq e _
  | .variable x :: ts => exact prompt_bare .variable fun e q => heq e _
  | .operator text :: ts =>
      exact .wrong (.unexpectedToken _) id viable_bareOperands rfl fun e q => heq e _
  | .keyword k :: ts =>
      cases k with
      | trueWord => exact prompt_bare .trueWord fun e q => heq e _
      | falseWord => exact prompt_bare .falseWord fun e q => heq e _
      | ifWord => exact (prompt_condition ih hn).congr fun e q => heq e _
      | defWord => exact ((prompt_lambda ih hn).cons fun e q => heq e _).mono lambda_mul_le
      | thenWord =>
          exact .wrong (.unexpectedToken _) id viable_bareOperands rfl fun e q => heq e _
      | elseWord =>
          exact .wrong (.unexpectedToken _) id viable_bareOperands rfl fun e q => heq e _
  | .punctuation c :: ts =>
      by_cases hopen : c = '('
      · subst hopen
        exact ((prompt_parenthesized ih hn).cons fun e q => heq e _).mono parenthesized_mul_le
      · by_cases hbrace : c = '\x7b'
        · subst hbrace
          exact ((prompt_block ih hn).mono block_mul_le).congr fun e q => heq e _
        · refine .wrong (.unexpectedToken _) id viable_bareOperands rfl fun e q => ?_
          refine (heq e _).trans ?_
          split <;> simp_all

theorem prompt_atom {ts : List Token} (hn : ts.length ≤ n) :
    Prompt operands (.of Grammar.atom) ending ts := by
  have hbind := (prompt_bareAtom ih hn).bind (viable_of_mem nil_mem_callLists)
    (N := fun a => .of fun e => Grammar.calls e a) fun {a r} hatom => by
      have hlt := Step.length_lt hatom
      exact prompt_calls ih a (by omega)
  exact (hbind.mono bareOperands_mul_le).of_eq fun e us => Grammar.toExcept_atom e us

end Step

/-- Expressions are read promptly. -/
theorem promptly (ending : Option LexicalFault) (ts : List Token) : Promptly ending ts := by
  -- On the number of tokens: an expression inside another one has at least one token before it.
  induction hn : ts.length using Nat.strong_induction_on generalizing ts with
  | _ n ih =>
    have hshorter : ∀ us : List Token, us.length < n → Promptly ending us :=
      fun us hus => ih us.length hus us rfl
    have hatom := prompt_atom hshorter hn.le
    exact ⟨prompt_expression hshorter hn.le hatom, hatom⟩

/-! ### Programs -/

/-- What follows an expression of a program. -/
def followProgram (x : Expr) : Reader (List Expr) := fun ending ts =>
  (Grammar.followExpression ending x ts fun r _ => Grammar.program ending r).toExcept

variable {ending : Option LexicalFault} {ts : List Token}

theorem nil_mem_followProgram : [] ∈ 1 + {[.punctuation ';']} * programs := .inl rfl

theorem prompt_followProgram (x : Expr)
    (h : ∀ {t q}, ts = t :: q → Prompt programs (.of Grammar.program) ending q) :
    Prompt (1 + {[.punctuation ';']} * programs) (followProgram x) ending ts := by
  have heq := fun e us => Grammar.toExcept_followExpression e x us (Grammar.program e)
  have hnil := nil_mem_followProgram
  cases ts with
  | nil => exact .done hnil (heq _ _)
  | cons t ts =>
      by_cases ht : t.isPunctuation ';'
      · obtain rfl := Token.isPunctuation_iff.mp ht
        refine (((h rfl).map (x :: ·)).cons fun e q => ?_).mono le_sup_right
        exact (heq e _).trans (if_pos ht)
      · refine .wrong (.expecting .punctuation ";") (t :: ·) (viable_of_mem hnil) trivial
          fun e q => ?_
        exact (heq e _).trans (if_neg ht)

/-- **Programs are read promptly.**  The parser goes on exactly as long as the tokens begin a
program. -/
theorem prompt_program (ending : Option LexicalFault) (ts : List Token) :
    Prompt programs (.of Grammar.program) ending ts := by
  induction hn : ts.length using Nat.strong_induction_on generalizing ts with
  | _ n ih =>
    cases ts with
    | nil => exact .done nil_mem_programs (Grammar.toExcept_program ..)
    | cons t ts =>
        have hbind := (promptly ending (t :: ts)).expression.bind
          (viable_of_mem nil_mem_followProgram) (N := followProgram) fun {x s} hexpression => by
            have hlt := Step.length_lt hexpression
            refine prompt_followProgram x fun {t q} hs => ?_
            subst hs
            simp only [List.length_cons] at hlt hn
            exact ih q.length (by omega) q rfl
        refine (hbind.mono programs_mul_le).congr fun e q => ?_
        exact Grammar.toExcept_program e (t :: q)

end Phrase

end ExprLang
