import ExprLang.Proofs.Acceptance
import ExprLang.Proofs.Munch

/-! # Printed programs

`Expr.print` writes a tree as a source and `Expr.tokens` as the tokens of that source.  Everything
that has parts is put into brackets, so neither a precedence nor a dangling `else` matters.

What is printed is read back in two steps.  The text is cut into the tokens, before any text that
does not go on with its last word (`Expr.WellFormed.cutInto`), and the tokens are an operand, before
any other tokens (`Expr.Legal.operand`).  Both are inductions on `Expr.Legal`, which says which
trees can be printed. -/

namespace ExprLang

/-! ### The text of a tree -/

namespace Expr

/-- A character inside a string, behind a backslash if it would mean something else without. -/
def printChar (c : Char) : List Char := if c = '"' ∨ c = '\\' then ['\\', c] else [c]

mutual

/-- The tree as a source, with brackets around everything that has parts. -/
def print : Expr → List Char
  | .number x => x.display.toList
  | .string s => '"' :: s.toList.flatMap printChar ++ ['"']
  | .boolean true => Keyword.trueWord.text.toList
  | .boolean false => Keyword.falseWord.text.toList
  | .variable name => name.toList
  | .lambda parameters body =>
    '(' :: Keyword.defWord.text.toList ++ [' ', '('] ++
      [',', ' '].intercalate (parameters.map String.toList) ++ [')', ' '] ++ body.print ++ [')']
  | .call function arguments =>
    '(' :: function.print ++ [')', '('] ++ [',', ' '].intercalate (prints arguments) ++ [')']
  | .condition test consequent none =>
    '(' :: Keyword.ifWord.text.toList ++ [' '] ++ test.print ++ [' '] ++
      Keyword.thenWord.text.toList ++ [' '] ++ consequent.print ++ [')']
  | .condition test consequent (some alternative) =>
    '(' :: Keyword.ifWord.text.toList ++ [' '] ++ test.print ++ [' '] ++
      Keyword.thenWord.text.toList ++ [' '] ++ consequent.print ++ [' '] ++
      Keyword.elseWord.text.toList ++ [' '] ++ alternative.print ++ [')']
  | .assignment target value =>
    '(' :: target.print ++ [' '] ++ Operator.assign.text.toList ++ [' '] ++ value.print ++ [')']
  | .binary op left right =>
    '(' :: left.print ++ [' '] ++ (Operator.binary op).text.toList ++ [' '] ++ right.print ++ [')']
  | .program body => '\x7b' :: [';', ' '].intercalate (prints body) ++ ['\x7d']

/-- The trees as sources. -/
def prints : List Expr → List (List Char)
  | [] => []
  | e :: es => e.print :: prints es

end

mutual

/-- The tokens of the printed tree. -/
def tokens : Expr → List Token
  | .number x => [.number x]
  | .string s => [.string s]
  | .boolean true => [.keyword .trueWord]
  | .boolean false => [.keyword .falseWord]
  | .variable name => [.variable name]
  | .lambda parameters body =>
    .punctuation '(' :: .keyword .defWord :: .punctuation '(' ::
      [.punctuation ','].intercalate (parameters.map ([.variable ·])) ++ [.punctuation ')'] ++
      body.tokens ++ [.punctuation ')']
  | .call function arguments =>
    .punctuation '(' :: function.tokens ++ [.punctuation ')', .punctuation '('] ++
      [.punctuation ','].intercalate (tokensEach arguments) ++ [.punctuation ')']
  | .condition test consequent none =>
    .punctuation '(' :: .keyword .ifWord :: test.tokens ++ [.keyword .thenWord] ++
      consequent.tokens ++ [.punctuation ')']
  | .condition test consequent (some alternative) =>
    .punctuation '(' :: .keyword .ifWord :: test.tokens ++ [.keyword .thenWord] ++
      consequent.tokens ++ [.keyword .elseWord] ++ alternative.tokens ++ [.punctuation ')']
  | .assignment target value =>
    .punctuation '(' :: target.tokens ++ [.operator Operator.assign.text] ++ value.tokens ++
      [.punctuation ')']
  | .binary op left right =>
    .punctuation '(' :: left.tokens ++ [.operator (Operator.binary op).text] ++ right.tokens ++
      [.punctuation ')']
  | .program body =>
    .punctuation '\x7b' :: [.punctuation ';'].intercalate (tokensEach body) ++
      [.punctuation '\x7d']

/-- The tokens of each of the printed trees. -/
def tokensEach : List Expr → List (List Token)
  | [] => []
  | e :: es => e.tokens :: tokensEach es

end

theorem prints_eq_map (es : List Expr) : prints es = es.map print := by
  induction es with
  | nil => rfl
  | cons e es ih => rw [prints, ih, List.map_cons]

theorem tokensEach_eq_map (es : List Expr) : tokensEach es = es.map tokens := by
  induction es with
  | nil => rfl
  | cons e es ih => rw [tokensEach, ih, List.map_cons]

end Expr

/-- A name that is no keyword: `[a-z][A-Za-z0-9-?!]*`. -/
def IsName (name : String) : Prop :=
  ∃ c run, name.toList = c :: run ∧ IsSmall c ∧ (∀ x ∈ run, InWord x) ∧
    ∀ k : Keyword, k.text ≠ name

/-- The tree has a source: its numbers are in the given class, its names are those of variables, and
no sequence inside it is shorter than two. -/
inductive Expr.Legal (literal : Number → Prop) : Expr → Prop
  | number {x} : literal x → Legal literal (.number x)
  | string {s} : Legal literal (.string s)
  | boolean {b} : Legal literal (.boolean b)
  | name {x} : IsName x → Legal literal (.variable x)
  | lambda {parameters body} :
      (∀ p ∈ parameters, IsName p) → Legal literal body → Legal literal (.lambda parameters body)
  | call {function arguments} :
      Legal literal function → (∀ e ∈ arguments, Legal literal e) →
      Legal literal (.call function arguments)
  | condition {test consequent alternative} :
      Legal literal test → Legal literal consequent → (∀ e ∈ alternative, Legal literal e) →
      Legal literal (.condition test consequent alternative)
  | assignment {target value} :
      Legal literal target → Legal literal value → Legal literal (.assignment target value)
  | binary {op left right} :
      Legal literal left → Legal literal right → Legal literal (.binary op left right)
  | program {body} :
      2 ≤ body.length → (∀ e ∈ body, Legal literal e) → Legal literal (.program body)

/-- The tree is one that can be printed: its numbers are finite and have no minus sign. -/
abbrev Expr.WellFormed : Expr → Prop := Legal fun x => ∃ m, x = .finite false m

/-! ### The printed text is cut into the tokens -/

/-- The text is cut into the tokens and nothing is left. -/
def CutInto (cs : List Char) (ts : List Token) : Prop :=
  ∃ pieces w, Cut cs pieces w [] ∧ pieces.map (·.token) = ts

/-- Behind a word or a number this character would be a part of it. -/
def Joins (c : Char) : Prop := InWord c ∨ c = '.'

theorem ends_joins {c : Char} (h : (isWordChar c || c == '.') = false) (cs : List Char) :
    Ends Joins (c :: cs) := by
  refine ends_cons ?_ cs
  intro hjoins
  rw [Joins, ← isWordChar_iff] at hjoins
  simp_all

/-- Every string is written before anything else. -/
theorem quoted_printChar (value rest : List Char) :
    Quoted value (value.flatMap Expr.printChar ++ ['"']) rest := by
  induction value with
  | nil => exact .closed
  | cons c value ih =>
      rw [List.flatMap_cons, Expr.printChar]
      split
      · exact .escaped ih
      · next hc =>
          obtain ⟨hquote, hbackslash⟩ := not_or.mp hc
          exact .plain hquote hbackslash ih

/-! Tokens as they are written. -/

section spelled

variable {cs : List Char}

theorem IsName.spelled {x : String} (hx : IsName x) (hcs : Ends InWord cs) :
    Spelled (.variable x) x.toList cs := by
  obtain ⟨c, run, hchars, hc, hrun, hkeyword⟩ := hx
  have hspelled : Spelled (.variable (String.ofList (c :: run))) (c :: run) cs :=
    .name hc hrun (fun k hk => hkeyword k (String.toList_inj.mp (hk.trans hchars.symm))) hcs
  rwa [← hchars, String.ofList_toList] at hspelled

theorem spelled_display (m : Magnitude) (hcs : Ends Joins cs) :
    Spelled (.number (.finite false m)) (Number.finite false m).display.toList cs := by
  obtain ⟨d, hnumeral, -⟩ := Number.numeral_display m
  refine .number hnumeral ?_ (hcs.mono ?_)
  · rw [String.ofList_toList, Number.ofText?_display]
  · rintro c (hdigit | ⟨hpoint, -⟩)
    · exact .inl (.inr (.inr (.inl hdigit)))
    · exact .inr hpoint

theorem spelled_string (s : String) (cs : List Char) :
    Spelled (.string s) ('"' :: (s.toList.flatMap Expr.printChar ++ ['"'])) cs := by
  have hspelled := Spelled.string (quoted_printChar s.toList cs)
  rwa [String.ofList_toList] at hspelled

theorem spelled_operator {text : String} (hne : text.toList ≠ [])
    (hrun : ∀ c ∈ text.toList, InOperator c) (hcs : Ends InOperator cs) :
    Spelled (.operator text) text.toList cs := by
  have hspelled := Spelled.operator hne hrun hcs
  rwa [String.ofList_toList] at hspelled

end spelled

namespace CutInto

variable {cs : List Char} {ts : List Token}

theorem nil : CutInto [] [] := ⟨[], [], .ending .empty ends_nil, rfl⟩

theorem layout {u : List Char} (hu : Layout u cs) (h : CutInto cs ts) : CutInto (u ++ cs) ts := by
  obtain ⟨pieces, w, hcut, rfl⟩ := h
  cases hcut with
  | ending hw hends =>
      refine ⟨[], u ++ w, ?_, rfl⟩
      rw [← List.append_assoc]
      exact .ending (hu.append hw) hends
  | @piece p more _ _ _ hw ht hmore =>
      rw [Piece.chars, List.append_assoc] at hu ⊢
      have hcut := ht.cut (hu.append hw) hmore
      rw [List.append_assoc] at hcut
      exact ⟨_, w, hcut, rfl⟩

theorem blank (h : CutInto cs ts) : CutInto (' ' :: cs) ts :=
  layout (.blank (.inl rfl) .empty) h

theorem token {t : Token} {text : List Char} (ht : Spelled t text cs) (h : CutInto cs ts) :
    CutInto (text ++ cs) (t :: ts) := by
  obtain ⟨pieces, w, hcut, rfl⟩ := h
  exact ⟨_, w, ht.cut .empty hcut, rfl⟩

theorem mark {c : Char} (hc : isPunctuation c = true) (h : CutInto cs ts) :
    CutInto (c :: cs) (.punctuation c :: ts) :=
  token (.punctuation (isPunctuation_iff.mp hc)) h

theorem keyword (k : Keyword) (hcs : Ends Joins cs) (h : CutInto cs ts) :
    CutInto (k.text.toList ++ cs) (.keyword k :: ts) :=
  token (.keyword k (hcs.mono .inl)) h

theorem name {x : String} (hx : IsName x) (hcs : Ends Joins cs) (h : CutInto cs ts) :
    CutInto (x.toList ++ cs) (.variable x :: ts) :=
  token (hx.spelled (hcs.mono .inl)) h

theorem number (m : Magnitude) (hcs : Ends Joins cs) (h : CutInto cs ts) :
    CutInto ((Number.finite false m).display.toList ++ cs) (.number (.finite false m) :: ts) :=
  token (spelled_display m hcs) h

theorem string (s : String) (h : CutInto cs ts) :
    CutInto ('"' :: s.toList.flatMap Expr.printChar ++ '"' :: cs) (.string s :: ts) := by
  simpa using token (spelled_string s cs) h

theorem operator (op : Operator) (h : CutInto cs ts) :
    CutInto (op.text.toList ++ ' ' :: cs) (.operator op.text :: ts) := by
  have hrun : op.text.toList ≠ [] ∧ op.text.toList.all isOperatorChar := by
    cases op with
    | assign => exact ⟨nofun, rfl⟩
    | binary op => cases op <;> exact ⟨nofun, rfl⟩
  have hends : Ends InOperator (' ' :: cs) := by
    refine ends_cons ?_ cs
    rw [← isOperatorChar_iff]
    decide
  refine token (spelled_operator hrun.1 (fun c hc => ?_) hends) h.blank
  exact isOperatorChar_iff.mp (List.all_eq_true.mp hrun.2 c hc)

/-- The separator ends what stands before it and is cut into one punctuation mark. -/
def Separates (separator : List Char) (c : Char) : Prop :=
  ∀ {more rs}, CutInto more rs →
    Ends Joins (separator ++ more) ∧ CutInto (separator ++ more) (.punctuation c :: rs)

theorem separates_comma : Separates [',', ' '] ',' := fun h =>
  ⟨ends_joins rfl _, mark rfl h.blank⟩

theorem separates_semicolon : Separates [';', ' '] ';' := fun h =>
  ⟨ends_joins rfl _, mark rfl h.blank⟩

/-- Texts with a separator between them are cut into their tokens with a mark between them. -/
theorem intercalate {α : Type} (text : α → List Char) (tokens : α → List Token)
    {separator : List Char} {c : Char} {xs : List α}
    (hseparator : Separates separator c)
    (hxs : ∀ x ∈ xs, ∀ {more rs}, Ends Joins more → CutInto more rs →
      CutInto (text x ++ more) (tokens x ++ rs))
    (hcs : Ends Joins cs) (h : CutInto cs ts) :
    CutInto (separator.intercalate (xs.map text) ++ cs)
      ([.punctuation c].intercalate (xs.map tokens) ++ ts) := by
  induction xs with
  | nil => exact h
  | cons x xs ih =>
      have hrest := ih fun y hy => hxs y (List.mem_cons_of_mem x hy)
      have hx := @hxs x List.mem_cons_self
      cases xs with
      | nil => simpa using hx hcs h
      | cons y ys =>
          obtain ⟨hends, hmore⟩ := hseparator hrest
          simpa using hx hends hmore

end CutInto

namespace Expr

theorem WellFormed.cutInto {e : Expr} (h : e.WellFormed) {more : List Char} {ts : List Token}
    (hmore : Ends Joins more) (hcut : CutInto more ts) :
    CutInto (e.print ++ more) (e.tokens ++ ts) := by
  induction h generalizing more ts with
  | number hx =>
      obtain ⟨m, rfl⟩ := hx
      exact .number m hmore hcut
  | string => simpa [print, tokens] using hcut.string _
  | @boolean b =>
      cases b with
      | true => exact .keyword .trueWord hmore hcut
      | false => exact .keyword .falseWord hmore hcut
  | name hname => exact .name hname hmore hcut
  | lambda hparameters _ hbody =>
      have hclose := hbody (ends_joins rfl _) (.mark (c := ')') rfl hcut)
      have hopen := CutInto.intercalate String.toList ([.variable ·])
        CutInto.separates_comma (fun p hp _ _ => .name (hparameters p hp)) (ends_joins rfl _)
        (.mark (c := ')') rfl hclose.blank)
      have hword := CutInto.keyword .defWord (ends_joins rfl _)
        (.blank (.mark (c := '(') rfl hopen))
      simpa [print, tokens] using hword.mark (c := '(') rfl
  | call _ _ hfunction harguments =>
      have hopen := CutInto.intercalate print tokens CutInto.separates_comma
        (fun e he _ _ => harguments e he) (ends_joins rfl _) (.mark (c := ')') rfl hcut)
      have hclose := hfunction (ends_joins rfl _)
        (.mark (c := ')') rfl (.mark (c := '(') rfl hopen))
      simpa [print, tokens, prints_eq_map, tokensEach_eq_map] using hclose.mark (c := '(') rfl
  | @condition test consequent alternative _ _ _ htest hconsequent halternative =>
      -- Both forms are the same up to the second branch.
      have hif : ∀ {more rs}, Ends Joins more → CutInto more rs →
          CutInto ('(' :: Keyword.ifWord.text.toList ++ [' '] ++ test.print ++ [' '] ++
              Keyword.thenWord.text.toList ++ [' '] ++ consequent.print ++ more)
            (.punctuation '(' :: .keyword .ifWord :: test.tokens ++ [.keyword .thenWord] ++
              consequent.tokens ++ rs) := by
        intro more rs hmore hcut
        have hthen := CutInto.keyword .thenWord (ends_joins rfl _) (hconsequent hmore hcut).blank
        have hword := CutInto.keyword .ifWord (ends_joins rfl _)
          (htest (ends_joins rfl _) hthen.blank).blank
        simpa using hword.mark (c := '(') rfl
      cases alternative with
      | none => simpa [print, tokens] using hif (ends_joins rfl _) (.mark (c := ')') rfl hcut)
      | some alternative =>
          have helse := CutInto.keyword .elseWord (ends_joins rfl _)
            (halternative alternative rfl (ends_joins rfl _) (.mark (c := ')') rfl hcut)).blank
          simpa [print, tokens] using hif (ends_joins rfl _) helse.blank
  | assignment _ _ htarget hvalue =>
      have hright := hvalue (ends_joins rfl _) (.mark (c := ')') rfl hcut)
      have hleft := htarget (ends_joins rfl _) (.blank (.operator .assign hright))
      simpa [print, tokens] using hleft.mark (c := '(') rfl
  | @binary op _ _ _ _ hl hr =>
      have hright := hr (ends_joins rfl _) (.mark (c := ')') rfl hcut)
      have hleft := hl (ends_joins rfl _) (.blank (.operator (.binary op) hright))
      simpa [print, tokens] using hleft.mark (c := '(') rfl
  | program _ _ hbody =>
      have hopen := CutInto.intercalate print tokens CutInto.separates_semicolon
        (fun e he _ _ => hbody e he) (ends_joins rfl _) (.mark (c := '\x7d') rfl hcut)
      simpa [print, tokens, prints_eq_map, tokensEach_eq_map] using hopen.mark (c := '\x7b') rfl

end Expr

/-! ### The tokens are an operand -/

namespace Phrase

variable {ts r : List Token}

theorem Operand.alone {a : Expr} (ha : Operand true ts a r) (hr : ¬CallAhead r ∧ ¬OperatorAhead r) :
    Expression true ts a r :=
  @Expression.chain true _ _ _ _ (.operand a) ha .stop rfl trivial fun _ => hr

theorem Operand.joined {a b : Expr} (op : Operator) {s : List Token}
    (ha : Operand true ts a (.operator op.text :: s)) (hb : Operand true s b r)
    (hr : ¬CallAhead r ∧ ¬OperatorAhead r) : Expression true ts (op.apply a b) r :=
  @Expression.chain true _ _ _ _ (.node op (.operand a) (.operand b)) ha (.link hb .stop) rfl
    ⟨trivial, trivial, by cases op <;> simp [OperatorTree.Fits, OperatorTree.root?]⟩ fun _ => hr

theorem mark_not_ahead {c : Char} (hc : c ≠ '(') (r : List Token) :
    ¬CallAhead (.punctuation c :: r) ∧ ¬OperatorAhead (.punctuation c :: r) :=
  ⟨(closed_punctuation hc r).1, (closed_punctuation hc r).2.1⟩

theorem Expression.before_mark {e : Expr} (h : ∀ r, Operand true (ts ++ r) e r) {c : Char}
    (hc : c ≠ '(') (r : List Token) :
    Expression true (ts ++ .punctuation c :: r) e (.punctuation c :: r) :=
  (h _).alone (mark_not_ahead hc r)

theorem Expression.before_keyword {e : Expr} (h : ∀ r, Operand true (ts ++ r) e r) (k : Keyword)
    (r : List Token) : Expression true (ts ++ .keyword k :: r) e (.keyword k :: r) :=
  (h _).alone (by simp [CallAhead, OperatorAhead])

/-- An expression in parentheses. -/
theorem Expression.operand {e : Expr} (h : Expression true ts e (.punctuation ')' :: r)) :
    Operand true (.punctuation '(' :: ts) e r :=
  .called (.parenthesized h) .stop

theorem Parameters.intercalate (ps : List String) :
    Parameters ([Token.punctuation ','].intercalate (ps.map ([.variable ·])) ++ ts) ps ts := by
  induction ps with
  | nil => exact .empty
  | cons p ps ih =>
      cases ps with
      | nil => simpa using .last
      | cons q qs =>
          rw [List.map_cons, List.map_cons, List.intercalate_cons_cons, List.append_assoc,
            List.append_assoc]
          exact .more ih

theorem Items.intercalate (separator : Char) {tokens : Expr → List Token} {es : List Expr}
    (hseparator : separator ≠ '(') (hes : ∀ e ∈ es, ∀ r, Operand true (tokens e ++ r) e r)
    (hr : ¬CallAhead r ∧ ¬OperatorAhead r) :
    Items true separator ([.punctuation separator].intercalate (es.map tokens) ++ r) es r := by
  induction es with
  | nil => exact .empty
  | cons e es ih =>
      have hrest := ih fun e' he' => hes e' (List.mem_cons_of_mem e he')
      have he := hes e List.mem_cons_self
      cases es with
      | nil => simpa using .last ((he r).alone hr)
      | cons e' es' => simpa using .more (.before_mark he hseparator _) hrest

end Phrase

namespace Expr

open Phrase

theorem Legal.operand {literal : Number → Prop} {e : Expr} (h : e.Legal literal)
    (r : List Token) : Operand true (e.tokens ++ r) e r := by
  induction h generalizing r with
  | number => exact .called .number .stop
  | string => exact .called .string .stop
  | @boolean b =>
      cases b with
      | true => exact .called .trueWord .stop
      | false => exact .called .falseWord .stop
  | name => exact .called .variable .stop
  | @lambda parameters _ _ _ hbody =>
      have hbody' := Expression.before_mark hbody (c := ')') (by decide) r
      have hlambda := Operand.called (.lambda (.intercalate parameters) hbody') .stop
      simpa [tokens] using (hlambda.alone (mark_not_ahead (by decide) r)).operand
  | @call function arguments _ _ hfunction harguments =>
      have hitems := Items.intercalate ',' (by decide) harguments
        (mark_not_ahead (c := ')') (by decide) r)
      have hcall := Operand.called (.parenthesized (.before_mark hfunction (by decide) _))
        (.call hitems .stop)
      simpa [tokens, tokensEach_eq_map] using hcall
  | @condition test consequent alternative _ _ _ htest hconsequent halternative =>
      cases alternative with
      | none =>
          have hthen := Expression.before_mark hconsequent (c := ')') (by decide) r
          have hif := Operand.called (.condition (.before_keyword htest .thenWord _)
            (.worded hthen) (.absent fun _ => nofun)) .stop
          simpa [tokens] using (hif.alone (mark_not_ahead (by decide) r)).operand
      | some alternative =>
          have helse := Expression.before_mark (halternative alternative rfl) (c := ')')
            (by decide) r
          have hif := Operand.called (.condition (.before_keyword htest .thenWord _)
            (.worded (.before_keyword hconsequent .elseWord _)) (.present helse)) .stop
          simpa [tokens] using (hif.alone (mark_not_ahead (by decide) r)).operand
  | assignment _ _ htarget hvalue =>
      have hboth := (htarget _).joined .assign (hvalue (.punctuation ')' :: r))
        (mark_not_ahead (by decide) r)
      simpa [tokens, Operator.apply] using hboth.operand
  | @binary op _ _ _ _ hleft hright =>
      have hboth := (hleft _).joined (.binary op) (hright (.punctuation ')' :: r))
        (mark_not_ahead (by decide) r)
      simpa [tokens, Operator.apply] using hboth.operand
  | @program body hlength _ hbody =>
      have hitems := Items.intercalate ';' (by decide) hbody
        (mark_not_ahead (c := '\x7d') (by decide) r)
      have hblock : Grammar.blockOf body = .program body := by
        match body, hlength with
        | _ :: _ :: _, _ => rfl
      have hoperand := Operand.called (.block hitems) .stop
      rw [hblock] at hoperand
      simpa [tokens, tokensEach_eq_map] using hoperand

end Expr

/-! ### Programs -/

/-- The expressions as the source of a program. -/
def Expr.printProgram (es : List Expr) : List Char := [';'].intercalate (es.map print)

theorem CutInto.printProgram {es : List Expr} (hes : ∀ e ∈ es, e.WellFormed) :
    CutInto (Expr.printProgram es) ([.punctuation ';'].intercalate (es.map Expr.tokens)) := by
  have hseparates : Separates [';'] ';' := fun h => ⟨ends_joins rfl _, mark rfl h⟩
  have hcut := intercalate Expr.print Expr.tokens hseparates (fun e he _ _ => (hes e he).cutInto)
    ends_nil nil
  rwa [List.append_nil, List.append_nil] at hcut

theorem Expr.ofSource_printProgram {es : List Expr} (hes : ∀ e ∈ es, e.WellFormed) :
    Expr.ofSource (String.ofList (printProgram es)) = .ok (.program es) := by
  obtain ⟨pieces, w, hcut, htokens⟩ := CutInto.printProgram hes
  rw [← String.toList_ofList (l := printProgram es)] at hcut
  obtain ⟨hlexed, herror⟩ := Lexed.of_cut hcut
  have hitems := Phrase.Items.intercalate ';' (by decide) (fun e he => (hes e he).operand)
    ⟨Phrase.closed_nil.1, Phrase.closed_nil.2.1⟩
  rw [List.append_nil, ← htokens, ← hlexed] at hitems
  exact ofSource_eq_ok.mpr ⟨herror.mpr rfl, es, hitems, rfl⟩

end ExprLang
