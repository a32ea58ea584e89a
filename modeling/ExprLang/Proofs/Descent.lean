import ExprLang.Parser.Basic
import ExprLang.Proofs.Answers
import ExprLang.Proofs.Parsed

/-! # Descents read the grammar

A descent asks a lexer, and the parser reads a list of tokens.  They come to the same: each
construct is answered by a descent as the grammar reads it off the tokens ahead of the lexer
(`Descent.answers_expression` and its companions), provided that the descent may go deep enough.
How deep that is depends on the number of tokens alone: every round of a loop and every way from an
expression to an expression inside it uses a token, and there are four calls on the longest such
way.

A parser and a lexer that stand at the same place therefore stand at the same place again after each
call (`Parser.Follows`, `Answers.settle`). -/

namespace ExprLang

namespace Descent

variable {l : Lexer} {ls : List Lexeme} {ending : Location × Option LexicalFault}

/-! ### Single tokens -/

theorem answers_expect {test : Token → Bool} {missing : SyntaxFault}
    (read : List Token → Except ParseFailure (Unit × List Token)) (h : l.lexemes = (ls, ending))
    (hnil : read [] = (Step.atEnd ending.2 missing : Step Unit 0).toExcept)
    (hcons : ∀ t ts, read (t :: ts) =
      if test t then .ok ((), ts) else .error ⟨missing, t :: ts, t :: ts⟩) :
    Answers ending ls (read (ls.map (·.token)))
      (expect (do return (← peek).any test) missing l) := by
  unfold expect
  simp only [bind_assoc, pure_bind]
  refine .peek h (fun fault hls hfault => ?_) fun {l'} hl hlocation hend => ?_
  · rw [hls, List.map_nil, hnil]
    exact Step.atEnd_of_fault hfault missing
  · cases ls with
    | nil =>
        rw [List.map_nil, hnil]
        exact .atEnd hl hlocation rfl (hend rfl)
    | cons x ls =>
        rw [List.map_cons, hcons]
        show Answers _ _ _ ((if test x.token then _ else _ : Descent Unit) l')
        split
        · refine .use hl fun {l₁} h₁ => ?_
          exact .pure () h₁
        · exact .fail hl hlocation List.suffix_rfl List.suffix_rfl

theorem answers_mark (c : Char) (h : l.lexemes = (ls, ending)) :
    Answers ending ls (Grammar.mark ending.2 c (ls.map (·.token))).toExcept (mark c l) := by
  refine answers_expect (fun ts => (Grammar.mark ending.2 c ts).toExcept) h rfl ?_
  intro t ts
  simp only [Grammar.mark]
  split <;> rfl

theorem answers_word (k : Keyword) (h : l.lexemes = (ls, ending)) :
    Answers ending ls (Grammar.word ending.2 k (ls.map (·.token))).toExcept (word k l) := by
  refine answers_expect (fun ts => (Grammar.word ending.2 k ts).toExcept) h rfl ?_
  intro t ts
  simp only [Grammar.word]
  split <;> rfl

theorem answers_name (h : l.lexemes = (ls, ending)) :
    Answers ending ls (Grammar.name ending.2 (ls.map (·.token))).toExcept (name l) := by
  unfold name
  refine .nextToken h (fun fault hls hfault => ?_) fun {l'} hl hlocation hend => ?_
  · subst hls
    exact Step.atEnd_of_fault hfault _
  · cases ls with
    | nil => exact .atEnd hl hlocation rfl (hend rfl)
    | cons x ls =>
        obtain ⟨t, stop⟩ := x
        cases t with
        | «variable» x => exact (Answers.pure x hl).mono (List.suffix_cons _ ls)
        | _ => exact .fail hl hlocation List.suffix_rfl (List.suffix_cons _ ls)

theorem answers_boolean (h : l.lexemes = (ls, ending)) :
    Answers ending ls (Grammar.boolean ending.2 (ls.map (·.token))).toExcept (boolean l) := by
  unfold boolean
  refine .nextToken h (fun fault hls hfault => ?_) fun {l'} hl hlocation hend => ?_
  · subst hls
    exact Step.atEnd_of_fault hfault _
  · cases ls with
    | nil => exact .atEnd hl hlocation rfl (hend rfl)
    | cons x ls =>
        obtain ⟨t, stop⟩ := x
        cases t with
        | keyword k =>
            cases k with
            | trueWord => exact (Answers.pure _ hl).mono (List.suffix_cons _ ls)
            | falseWord => exact (Answers.pure _ hl).mono (List.suffix_cons _ ls)
            | _ => exact .fail hl hlocation List.suffix_rfl (List.suffix_cons _ ls)
        | _ => exact .fail hl hlocation List.suffix_rfl (List.suffix_cons _ ls)

/-! ### Lists -/

section lists

variable {α : Type} {stop separator : Char} {item : (ts : List Token) → Step α ts.length}
  {d : Descent α}

/-- The items of a list and the mark that stops it. -/
def closed (stop separator : Char) (item : Descent α) (depth : ℕ) (first : Bool) :
    Descent (List α) := do
  let as ← items stop separator item depth first
  mark stop
  return as

/-- What is done where an item or the mark that stops the list is next. -/
def further (stop separator : Char) (item : Descent α) (depth : ℕ) : Descent (List α) := do
  if ← isMark stop then
    mark stop
    return []
  else
    let a ← item
    let as ← closed stop separator item depth false
    return a :: as

theorem closed_succ (depth : ℕ) (first : Bool) :
    closed stop separator d (depth + 1) first =
      (do
        if (← peek).all (·.isPunctuation stop) then
          mark stop
          return []
        else
          between separator first
          further stop separator d depth) := by
  unfold closed
  rw [items]
  simp only [isAtEnd_bind, isMark_bind, bind_assoc]
  refine peek_bind_congr fun {t l} ht => ?_
  cases t with
  | none => rfl
  | some t =>
      show ((peek >>= _) >>= _) l = (if t.isPunctuation stop then _ else _ : Descent _) l
      rw [bind_assoc, peek_bind_of_peek ht]
      show ((if t.isPunctuation stop then _ else _ : Descent _) >>= _) l = _
      split
      · rfl
      · simp only [bind_assoc]
        refine congrFun (bind_congr fun _ => ?_) l
        unfold further closed
        rw [isMark_bind]
        congr 1
        funext t
        split
        · rfl
        · simp only [bind_assoc, pure_bind]


/-- What is read where an item or the mark that stops the list is next. -/
def resumed (ending : Option LexicalFault) (stop separator : Char)
    (item : (ts : List Token) → Step α ts.length) (ts : List Token) :
    Except ParseFailure (List α × List Token) :=
  if ts.head?.any (·.isPunctuation stop) then .ok ([], ts.tail)
  else (Grammar.items ending stop separator ts fun r _ => item r).toExcept

/-- What is read behind an item of a list. -/
def followed (ending : Option LexicalFault) (stop separator : Char)
    (item : (ts : List Token) → Step α ts.length) :
    List Token → Except ParseFailure (List α × List Token)
  | [] => (Step.atEnd ending (.expecting .punctuation stop.toString) : Step _ 0).toExcept
  | t :: ts =>
    if t.isPunctuation stop then .ok ([], ts)
    else if t.isPunctuation separator then resumed ending stop separator item ts
    else .error ⟨.expecting .punctuation separator.toString, t :: ts, t :: ts⟩

theorem toExcept_items_followed (ending : Option LexicalFault) (ts : List Token) :
    (Grammar.items ending stop separator ts fun r _ => item r).toExcept =
      (item ts).toExcept.bind fun p =>
        (followed ending stop separator item p.2).map fun q => (p.1 :: q.1, q.2) := by
  rw [Grammar.toExcept_items]
  congr 1
  funext p
  rw [Grammar.toExcept_followItem]
  obtain ⟨a, ts⟩ := p
  cases ts with
  | nil => rfl
  | cons t ts =>
      simp only [followed, resumed]
      split
      · rfl
      · split
        · split <;> rfl
        · rfl

/-- The descent reads what the items of a list are read as. -/
structure ReadsItems (ending : Location × Option LexicalFault) (ls : List Lexeme)
    (item : (ts : List Token) → Step α ts.length) (d : Descent α) : Prop where
  answers : ∀ {l rest}, rest <:+ ls → l.lexemes = (rest, ending) →
    Answers ending rest (item (rest.map (·.token))).toExcept (d l)
  fault : ∀ {fault}, ending.2 = some fault → (item []).toExcept = .error ⟨.lexical fault, [], []⟩

theorem ReadsItems.mono {ls'} (h : ReadsItems ending ls item d) (hle : ls' <:+ ls) :
    ReadsItems ending ls' item d :=
  ⟨fun hrest => h.answers (hrest.trans hle), h.fault⟩

/-- A mark that is there is used up. -/
theorem answers_stop {β : Type} (b : β) {x : Lexeme} (hx : x.token.isPunctuation stop = true)
    (h : l.lexemes = (x :: ls, ending)) :
    Answers ending (x :: ls) (.ok (b, ls.map (·.token)))
      ((mark stop >>= fun _ => pure b : Descent β) l) := by
  have hmark := (answers_mark stop h).map fun _ => b
  rw [List.map_cons, Token.isPunctuation_iff.mp hx, Phrase.mark_self] at hmark
  exact hmark

/-- A mark that is due is used up, or it is missing. -/
theorem mark_bind_cons {β : Type} (ending : Option LexicalFault) (c : Char) (t : Token)
    (ts : List Token) (next : List Token → Except ParseFailure (β × List Token)) :
    ((Grammar.mark ending c (t :: ts)).toExcept.bind fun p => next p.2) =
      if t.isPunctuation c then next ts
      else .error ⟨.expecting .punctuation c.toString, t :: ts, t :: ts⟩ := by
  simp only [Grammar.mark]
  split <;> rfl

theorem answers_further {depth : ℕ} (hd : ReadsItems ending ls item d)
    (hclosed : ∀ {l rest}, rest <:+ ls → l.lexemes = (rest, ending) →
      Answers ending rest (followed ending.2 stop separator item (rest.map (·.token)))
        (closed stop separator d depth false l)) (h : l.lexemes = (ls, ending)) :
    Answers ending ls (resumed ending.2 stop separator item (ls.map (·.token)))
      (further stop separator d depth l) := by
  unfold further
  rw [isMark_bind]
  refine .peek h (fun fault hls hfault => ?_) fun {l'} hl hlocation hend => ?_
  · subst hls
    show (Grammar.items ending.2 stop separator [] fun r _ => item r).toExcept = _
    rw [toExcept_items_followed, hd.fault hfault]
    rfl
  · unfold resumed
    rw [List.head?_map]
    split
    · next hstop =>
        cases ls with
        | nil => cases hstop
        | cons x ls => exact answers_stop [] hstop hl
    · rw [toExcept_items_followed]
      refine .bind (hd.answers List.suffix_rfl hl) fun hitem hrest hl' => ?_
      exact .map (hclosed hrest hl') _

/-- Behind an item a list goes on with the mark that stops it or with a separator. -/
theorem answers_closed {depth : ℕ} (hd : ReadsItems ending ls item d) (hdepth : ls.length < depth)
    (h : l.lexemes = (ls, ending)) :
    Answers ending ls (followed ending.2 stop separator item (ls.map (·.token)))
      (closed stop separator d depth false l) := by
  induction depth generalizing l ls with
  | zero => exact absurd hdepth (Nat.not_lt_zero _)
  | succ depth ih =>
      rw [closed_succ]
      refine .peek h (fun fault hls hfault => ?_) fun {l'} hl hlocation hend => ?_
      · subst hls
        show (Step.atEnd ending.2 _ : Step (List α) 0).toExcept = _
        exact Step.atEnd_of_fault hfault _
      · cases ls with
        | nil =>
            have hmark := (answers_mark stop hl).map fun _ => ([] : List α)
            exact hmark
        | cons x ls =>
            show Answers ending (x :: ls) _
              ((if x.token.isPunctuation stop then _ else _ : Descent _) l')
            rw [List.map_cons]
            simp only [followed]
            split
            · next hstop => exact answers_stop [] hstop hl
            · rw [← mark_bind_cons]
              show Answers ending (x :: ls) _ ((mark separator >>= fun _ => _) l')
              refine .bind (answers_mark separator hl) fun {_ rest l''} hmark hrest hl' => ?_
              have hlength := congrArg List.length (Phrase.mark_eq_ok_iff.mp hmark)
              simp only [List.length_map, List.length_cons] at hlength hdepth
              refine answers_further (hd.mono hrest) ?_ hl'
              intro l rest' hrest' hl
              have hle := hrest'.length_le
              exact ih (hd.mono (hrest'.trans hrest)) (by omega) hl

/-- A list is read from the mark that starts it to the one that stops it. -/
theorem answers_delimited {depth : ℕ} (start : Char)
    (hd : ∀ {rest : List Lexeme}, rest.length < ls.length → ReadsItems ending rest item d)
    (hdepth : ls.length < depth) (h : l.lexemes = (ls, ending)) :
    Answers ending ls
      (Grammar.delimited ending.2 start stop separator (ls.map (·.token))
        fun r _ => item r).toExcept
      (delimited depth start stop separator d l) := by
  show Answers ending ls _ ((mark start >>= fun _ => closed stop separator d depth true) l)
  rw [Grammar.toExcept_delimited]
  refine .bind (answers_mark start h) fun {_ rest l'} hmark hrest hl => ?_
  have hlength := congrArg List.length (Phrase.mark_eq_ok_iff.mp hmark)
  simp only [List.length_map, List.length_cons] at hlength
  have hitem := @hd rest (by omega)
  obtain ⟨depth, rfl⟩ : ∃ n, depth = n + 1 := ⟨depth - 1, by omega⟩
  rw [closed_succ]
  refine .peek hl (fun fault hnil hfault => ?_) fun {l''} hl' hlocation hend => ?_
  · subst hnil
    exact Step.atEnd_of_fault hfault _
  · cases rest with
    | nil =>
        have hmark := (answers_mark stop hl').map fun _ => ([] : List α)
        exact hmark
    | cons x rest =>
        show Answers ending (x :: rest) _
          ((if x.token.isPunctuation stop then _ else _ : Descent _) l'')
        simp only [List.map_cons]
        split
        · next hstop => exact answers_stop [] hstop hl'
        · next hstop =>
            show Answers ending (x :: rest) _ (further stop separator d depth l'')
            have hread : resumed ending.2 stop separator item ((x :: rest).map (·.token)) = _ :=
              if_neg hstop
            rw [List.map_cons] at hread
            rw [← hread]
            refine answers_further hitem ?_ hl'
            intro l rest' hrest' hl
            have hle := hrest'.length_le
            exact answers_closed (hitem.mono hrest') (by omega) hl

end lists

/-! ### Expressions -/

/-- Where there is no token and no end of the source either, no expression is read. -/
theorem expression_fault {fault : LexicalFault} (h : ending.2 = some fault) :
    (Grammar.expression ending.2 []).toExcept = .error ⟨.lexical fault, [], []⟩ := by
  rw [h, Grammar.toExcept_expression, Grammar.toExcept_atom, Grammar.toExcept_bareAtom]
  rfl

theorem readsItems_name : ReadsItems ending ls (Grammar.name ending.2) name where
  answers _ h := answers_name h
  fault hfault := Step.atEnd_of_fault hfault _

theorem length_lt_of_ok {α : Type} (ls : List Lexeme) {rest : List Lexeme}
    {s : Step α (ls.map (·.token)).length} {a : α}
    (h : s.toExcept = .ok (a, rest.map (·.token))) : rest.length < ls.length := by
  simpa using Step.length_lt h

mutual

theorem answers_expression {l : Lexer} {ls : List Lexeme} {depth : ℕ}
    (h : l.lexemes = (ls, ending)) (hdepth : 4 * ls.length + 5 ≤ depth) :
    Answers ending ls (Grammar.expression ending.2 (ls.map (·.token))).toExcept
      (expression true depth l) := by
  obtain ⟨depth, rfl⟩ : ∃ n, depth = n + 1 := ⟨depth - 1, by omega⟩
  rw [Grammar.toExcept_expression, expression]
  refine .bind (answers_atom h (by omega)) fun {a rest l₁} _ hrest h₁ => ?_
  have hle := hrest.length_le
  refine .bind (answers_operators _ _ h₁ (by omega)) fun {e rest' l₂} _ hrest' h₂ => ?_
  have hle' := hrest'.length_le
  exact answers_calls _ h₂ (by omega)
termination_by (depth, 0)

theorem answers_atom {l : Lexer} {ls : List Lexeme} {depth : ℕ}
    (h : l.lexemes = (ls, ending)) (hdepth : 4 * ls.length + 4 ≤ depth) :
    Answers ending ls (Grammar.atom ending.2 (ls.map (·.token))).toExcept (atom true depth l) := by
  obtain ⟨depth, rfl⟩ : ∃ n, depth = n + 1 := ⟨depth - 1, by omega⟩
  rw [Grammar.toExcept_atom, atom]
  refine .bind (answers_bareAtom h (by omega)) fun {a rest l₁} _ hrest h₁ => ?_
  have hle := hrest.length_le
  exact answers_calls _ h₁ (by omega)
termination_by (depth, 0)

theorem answers_bareAtom {l : Lexer} {ls : List Lexeme} {depth : ℕ}
    (h : l.lexemes = (ls, ending)) (hdepth : 4 * ls.length + 3 ≤ depth) :
    Answers ending ls (Grammar.bareAtom ending.2 (ls.map (·.token))).toExcept
      (bareAtom true depth l) := by
  obtain ⟨depth, rfl⟩ : ∃ n, depth = n + 1 := ⟨depth - 1, by omega⟩
  rw [Grammar.toExcept_bareAtom, bareAtom]
  refine .peek h (fun fault hls hfault => ?_) fun {l'} hl hlocation hend => ?_
  · subst hls
    exact Step.atEnd_of_fault hfault _
  · cases ls with
    | nil => exact .atEnd hl hlocation rfl (hend rfl)
    | cons x ls =>
        rw [List.length_cons] at hdepth
        obtain ⟨t, stop⟩ := x
        rw [List.map_cons]
        split
        · next hts => cases hts
        · next x rest hts =>
            obtain ⟨rfl, rfl⟩ := List.cons.inj hts
            refine .use hl fun {l₁} h₁ => ?_
            exact .pure _ h₁
        · next x rest hts =>
            obtain ⟨rfl, rfl⟩ := List.cons.inj hts
            refine .use hl fun {l₁} h₁ => ?_
            exact .pure _ h₁
        · next x rest hts =>
            obtain ⟨rfl, rfl⟩ := List.cons.inj hts
            refine .use hl fun {l₁} h₁ => ?_
            exact .pure _ h₁
        · next rest hts =>
            obtain ⟨rfl, rfl⟩ := List.cons.inj hts
            refine .use hl fun {l₁} h₁ => ?_
            have hinner : Answers ending ls _ (expression true depth l₁) :=
              answers_expression h₁ (by omega)
            exact hinner.bind fun {e rest l₂} _ _ h₂ => (answers_mark ')' h₂).map fun _ => e
        · next rest hts =>
            obtain ⟨rfl, rfl⟩ := List.cons.inj hts
            exact answers_block hl (by rw [List.length_cons]; omega)
        · next rest hts =>
            obtain ⟨rfl, rfl⟩ := List.cons.inj hts
            exact answers_condition hl (by rw [List.length_cons]; omega)
        · next rest hts =>
            obtain ⟨rfl, rfl⟩ := List.cons.inj hts
            exact answers_boolean hl
        · next rest hts =>
            obtain ⟨rfl, rfl⟩ := List.cons.inj hts
            exact answers_boolean hl
        · next rest hts =>
            obtain ⟨rfl, rfl⟩ := List.cons.inj hts
            refine .use hl fun {l₁} h₁ => ?_
            have hlambda : Answers ending ls _ (lambda true depth l₁) :=
              answers_lambda h₁ (by omega)
            exact hlambda
        · next t' rest hnumber hstring hvariable hopen hbrace hif htrue hfalse hdef hts =>
            obtain ⟨rfl, rfl⟩ := List.cons.inj hts
            simp only [List.head?_cons, Option.map_some]
            refine .nextToken hl nofun fun h₁ hlocation _ => ?_
            exact .fail h₁ hlocation List.suffix_rfl (List.suffix_cons _ ls)
termination_by (depth, 0)

theorem answers_block {l : Lexer} {ls : List Lexeme} {depth : ℕ}
    (h : l.lexemes = (ls, ending)) (hdepth : 4 * ls.length + 2 ≤ depth) :
    Answers ending ls (Grammar.block ending.2 (ls.map (·.token))).toExcept
      (block true depth l) := by
  obtain ⟨depth, rfl⟩ : ∃ n, depth = n + 1 := ⟨depth - 1, by omega⟩
  rw [Grammar.toExcept_block, block]
  refine .map (answers_delimited _ (fun {rest} hlt => ⟨fun {l' rest'} hrest hl => ?_,
    expression_fault⟩) (by omega) h) _
  have hle := hrest.length_le
  exact answers_expression hl (by omega)
termination_by (depth, 0)

theorem answers_condition {l : Lexer} {ls : List Lexeme} {depth : ℕ}
    (h : l.lexemes = (ls, ending)) (hdepth : 4 * ls.length + 2 ≤ depth) :
    Answers ending ls (Grammar.condition ending.2 (ls.map (·.token))).toExcept
      (condition true depth l) := by
  obtain ⟨depth, rfl⟩ : ∃ n, depth = n + 1 := ⟨depth - 1, by omega⟩
  rw [Grammar.toExcept_condition, condition]
  refine .bind (answers_word _ h) fun {_ rest l₁} hword hrest h₁ => ?_
  have hlt := length_lt_of_ok _ hword
  refine .bind (answers_expression h₁ (by omega)) fun {test rest' l₂} _ hrest' h₂ => ?_
  have hle := hrest'.length_le
  rw [← bind_assoc]
  refine .bind (answers_branch h₂ (by omega)) fun {consequent rest'' l₃} _ hrest'' h₃ => ?_
  have hle' := hrest''.length_le
  exact answers_alternative (.condition test consequent) h₃ (by omega)
termination_by (depth, 0)

theorem answers_branch {l : Lexer} {ls : List Lexeme} {depth : ℕ}
    (h : l.lexemes = (ls, ending)) (hdepth : 4 * ls.length + 5 ≤ depth) :
    Answers ending ls (Grammar.branch ending.2 (ls.map (·.token))).toExcept
      ((thenWord >>= fun _ => expression true depth) l) := by
  unfold thenWord
  rw [Grammar.toExcept_branch, bind_assoc, isMark_bind]
  refine .peek h (fun fault hls hfault => ?_) fun {l'} hl hlocation hend => ?_
  · subst hls
    show ((Step.atEnd ending.2 _ : Step Unit 0).toExcept.bind fun _ => _) = _
    rw [Step.atEnd_of_fault hfault]
    rfl
  · split
    · next rest hts =>
        cases ls with
        | nil => cases hts
        | cons x ls =>
            obtain ⟨hx, rfl⟩ := List.cons.inj hts
            have hmark : x.token.isPunctuation '\x7b' = true := Token.isPunctuation_iff.mpr hx
            show Answers _ _ _
              (((if x.token.isPunctuation '\x7b' then _ else _ : Descent Unit) >>= _) l')
            rw [if_pos hmark, ← hx]
            exact answers_expression hl hdepth
    · next hne =>
        have hmark : ¬(ls.head?.map (·.token)).any (·.isPunctuation '\x7b') = true := by
          cases ls with
          | nil => exact Bool.false_ne_true
          | cons x ls =>
              intro hmark
              exact hne _ (congrArg (· :: _) (Token.isPunctuation_iff.mp hmark))
        show Answers _ _ _ (((if _ then _ else _ : Descent Unit) >>= _) l')
        rw [if_neg hmark]
        refine .bind (answers_word _ hl) fun {_ rest l₁} hword hrest h₁ => ?_
        have hlt := length_lt_of_ok _ hword
        exact answers_expression h₁ (by omega)
termination_by (depth, 1)

theorem answers_alternative {l : Lexer} {ls : List Lexeme} {depth : ℕ} (g : Option Expr → Expr)
    (h : l.lexemes = (ls, ending)) (hdepth : 4 * ls.length + 5 ≤ depth) :
    Answers ending ls
      ((Grammar.alternative ending.2 (ls.map (·.token))).toExcept.map fun p => (g p.1, p.2))
      ((do
        if ← isWord .elseWord then
          let _ ← nextToken
          let other ← expression true depth
          return g (some other)
        else
          return g none) l) := by
  rw [Grammar.toExcept_alternative, isWord_bind]
  refine .peek h (fun fault hls hfault => ?_) fun {l'} hl hlocation hend => ?_
  · subst hls
    show ((Step.done ending.2 none).toExcept.map _) = _
    rw [hfault]
    rfl
  · cases ls with
    | nil =>
        show Answers ending [] ((Step.done ending.2 none).toExcept.map _) _
        rw [hend rfl]
        exact .pure _ hl
    | cons x ls =>
        rw [List.length_cons] at hdepth
        obtain ⟨t, stop⟩ := x
        simp only [List.map_cons]
        split
        · next hts => cases hts
        · next rest hts =>
            obtain ⟨rfl, rfl⟩ := List.cons.inj hts
            refine .use hl fun {l₁} h₁ => ?_
            have hother : Answers ending ls _ (expression true depth l₁) :=
              answers_expression h₁ (by omega)
            have hread := hother.map fun other => g (some other)
            cases hexpression : (Grammar.expression ending.2 (ls.map (·.token))).toExcept with
            | ok p =>
                rw [hexpression] at hread
                exact hread
            | error f =>
                rw [hexpression] at hread
                exact hread
        · next hne =>
            have ht : ¬t.isKeyword .elseWord = true := fun ht =>
              hne (ls.map (·.token)) (by rw [Token.isKeyword_iff.mp ht])
            show Answers _ _ _ ((if t.isKeyword .elseWord then _ else _ : Descent Expr) l')
            rw [if_neg ht]
            exact .pure _ hl
termination_by (depth, 1)

theorem answers_lambda {l : Lexer} {ls : List Lexeme} {depth : ℕ}
    (h : l.lexemes = (ls, ending)) (hdepth : 4 * ls.length + 2 ≤ depth) :
    Answers ending ls (Grammar.lambda ending.2 (ls.map (·.token))).toExcept
      (lambda true depth l) := by
  obtain ⟨depth, rfl⟩ : ∃ n, depth = n + 1 := ⟨depth - 1, by omega⟩
  rw [Grammar.toExcept_lambda, lambda]
  have hn : ls.length < depth := by omega
  have hparameters : Answers ending ls _ (delimited depth '(' ')' ',' name l) :=
    answers_delimited '(' (fun _ => readsItems_name) hn h
  refine .bind hparameters fun {ps rest l₁} hps hrest h₁ => ?_
  have hlt := length_lt_of_ok _ hps
  exact .map (answers_expression h₁ (by omega)) _
termination_by (depth, 0)

theorem answers_call {l : Lexer} {ls : List Lexeme} {depth : ℕ} (f : Expr)
    (h : l.lexemes = (ls, ending)) (hdepth : 4 * ls.length + 2 ≤ depth) :
    Answers ending ls (Grammar.call ending.2 f (ls.map (·.token))).toExcept
      (call true depth f l) := by
  obtain ⟨depth, rfl⟩ : ∃ n, depth = n + 1 := ⟨depth - 1, by omega⟩
  rw [Grammar.toExcept_call, call]
  refine .map (answers_delimited _ (fun {rest} hlt => ⟨fun {l' rest'} hrest hl => ?_,
    expression_fault⟩) (by omega) h) _
  have hle := hrest.length_le
  exact answers_expression hl (by omega)
termination_by (depth, 0)

theorem answers_calls {l : Lexer} {ls : List Lexeme} {depth : ℕ} (f : Expr)
    (h : l.lexemes = (ls, ending)) (hdepth : 4 * ls.length + 3 ≤ depth) :
    Answers ending ls (Grammar.calls ending.2 f (ls.map (·.token))).toExcept
      (calls true depth f l) := by
  obtain ⟨depth, rfl⟩ : ∃ n, depth = n + 1 := ⟨depth - 1, by omega⟩
  rw [Grammar.toExcept_calls, calls, isMark_bind]
  refine .peek h (fun fault hls hfault => ?_) fun {l'} hl hlocation hend => ?_
  · subst hls
    show (Step.done ending.2 f).toExcept = _
    rw [hfault]
    rfl
  · cases ls with
    | nil =>
        show Answers ending [] (Step.done ending.2 f).toExcept _
        rw [hend rfl]
        exact .pure _ hl
    | cons x ls =>
        obtain ⟨t, stop⟩ := x
        simp only [List.map_cons]
        split
        · next hts => cases hts
        · next rest hts =>
            obtain ⟨rfl, rfl⟩ := List.cons.inj hts
            show Answers _ _ _ ((call true depth f >>= fun g => calls true depth g) l')
            refine .bind (answers_call f hl (by omega)) fun {g rest l₁} hcall hrest h₁ => ?_
            have hlt : rest.length < _ := length_lt_of_ok (⟨_, stop⟩ :: ls) hcall
            exact answers_calls g h₁ (by omega)
        · next hne =>
            have ht : ¬t.isPunctuation '(' = true := fun ht =>
              hne (ls.map (·.token)) (by rw [Token.isPunctuation_iff.mp ht])
            show Answers _ _ _ ((if t.isPunctuation '(' then _ else _ : Descent Expr) l')
            rw [if_neg ht]
            exact .pure f hl
termination_by (depth, 0)

theorem answers_operators {l : Lexer} {ls : List Lexeme} {depth : ℕ} (left : Expr) (bound : ℕ)
    (h : l.lexemes = (ls, ending)) (hdepth : 4 * ls.length + 1 ≤ depth) :
    Answers ending ls (Grammar.operators ending.2 left bound (ls.map (·.token))).toExcept
      (operators true depth left bound l) := by
  obtain ⟨depth, rfl⟩ : ∃ n, depth = n + 1 := ⟨depth - 1, by omega⟩
  rw [Grammar.toExcept_operators, operators, operatorAhead_bind]
  refine .peek h (fun fault hls hfault => ?_) fun {l'} hl hlocation hend => ?_
  · subst hls
    show (Step.done ending.2 left).toExcept = _
    rw [hfault]
    rfl
  · cases ls with
    | nil =>
        show Answers ending [] (Step.done ending.2 left).toExcept _
        rw [hend rfl]
        exact .pure _ hl
    | cons x ls =>
        obtain ⟨t, stop⟩ := x
        simp only [List.map_cons, List.head?_cons, Option.map_some, Option.bind_some]
        split
        · next hts => cases hts
        · next text rest hts =>
            obtain ⟨rfl, rfl⟩ := List.cons.inj hts
            show Answers _ _ _
              ((match Operator.ofText? text with | none => _ | some op => _ : Descent Expr) l')
            cases Operator.ofText? text with
            | none => exact .pure left hl
            | some op =>
                show Answers _ _ (if _ then _ else _) ((if _ then _ else _ : Descent Expr) l')
                split
                · exact .pure left hl
                · rw [List.length_cons] at hdepth
                  refine .use hl fun {l₁} h₁ => ?_
                  refine .bind (answers_atom h₁ (by omega)) fun {a rest l₂} _ hrest h₂ => ?_
                  have hle := hrest.length_le
                  have hright : Answers ending _ _ (operators true depth a op.rightBound l₂) :=
                    answers_operators a op.rightBound h₂ (by omega)
                  refine .bind hright fun {right rest' l₃} _ hrest' h₃ => ?_
                  have hle' := hrest'.length_le
                  exact answers_operators _ bound h₃ (by omega)
        · next hne =>
            have ht : operatorOf? t = none := by
              cases t with
              | operator text => exact absurd rfl (hne text _)
              | _ => rfl
            rw [ht]
            exact .pure left hl
termination_by (depth, 0)

end

/-! ### Programs -/

/-- What is read behind an expression of a program, apart from that expression. -/
def continued (ending : Option LexicalFault) :
    List Token → Except ParseFailure (List Expr × List Token)
  | [] => (Step.done ending []).toExcept
  | t :: ts =>
    if t.isPunctuation ';' then (Grammar.program ending ts).toExcept
    else .error ⟨.expecting .punctuation ';'.toString, t :: ts, t :: ts⟩

theorem toExcept_followExpression_continued (ending : Option LexicalFault) (e : Expr)
    (ts : List Token) :
    (Grammar.followExpression ending e ts fun r _ => Grammar.program ending r).toExcept =
      (continued ending ts).map fun p => (e :: p.1, p.2) := by
  rw [Grammar.toExcept_followExpression]
  cases ts with
  | nil => cases ending <;> rfl
  | cons t ts =>
      simp only [continued]
      split <;> rfl

theorem answers_expressions {depth : ℕ} (h : l.lexemes = (ls, ending))
    (hdepth : 4 * ls.length + 6 ≤ depth) :
    Answers ending ls (Grammar.program ending.2 (ls.map (·.token))).toExcept
      (expressions true depth l) := by
  induction depth generalizing l ls with
  | zero => exact absurd hdepth (by omega)
  | succ depth ih =>
      rw [expressions, isAtEnd_bind]
      refine .peek h (fun fault hls hfault => ?_) fun {l'} hl hlocation hend => ?_
      · subst hls
        rw [List.map_nil, Grammar.toExcept_program, hfault]
        rfl
      · cases ls with
        | nil =>
            rw [List.map_nil, Grammar.toExcept_program, hend rfl]
            exact .pure _ hl
        | cons x ls =>
            rw [List.map_cons, Grammar.toExcept_program]
            refine .bind (answers_expression hl (by omega)) fun {e rest l₁} he hrest h₁ => ?_
            have hlt := length_lt_of_ok (x :: ls) he
            rw [toExcept_followExpression_continued, ← bind_assoc]
            refine .map ?_ fun es => e :: es
            -- An end without a fault is an end of the program, and otherwise a separator is due.
            unfold separator
            rw [bind_assoc, isAtEnd_bind]
            refine .peek h₁ (fun fault hrest hfault => ?_) fun {l₂} h₂ hlocation hend => ?_
            · subst hrest
              rw [hfault]
              rfl
            · cases rest with
              | nil =>
                  have hprogram := @ih l₂ [] h₂ (by rw [List.length_nil]; omega)
                  rw [List.map_nil, Grammar.toExcept_program] at hprogram
                  exact hprogram
              | cons y rest =>
                  simp only [List.map_cons, continued]
                  rw [← mark_bind_cons _ _ _ _ fun ts => (Grammar.program ending.2 ts).toExcept]
                  show Answers _ _ _ ((mark ';' >>= fun _ => expressions true depth) l₂)
                  refine .bind (answers_mark ';' h₂) fun {_ rest' l₃} hmark hrest' h₃ => ?_
                  have hlt' := length_lt_of_ok (y :: rest) hmark
                  exact ih h₃ (by omega)

/-- A whole program is read up to the end. -/
theorem answers_program {depth : ℕ} (h : l.lexemes = (ls, ending))
    (hdepth : 4 * ls.length + 6 ≤ depth) :
    Answers ending ls ((Grammar.program ending.2 (ls.map (·.token))).map .program).toExcept
      (program true depth l) := by
  rw [Step.toExcept_map]
  exact (answers_expressions h hdepth).map Expr.program

end Descent

/-! ### Parsers -/

/-- The lexer stands where the parser does. -/
def Parser.Follows (p : Parser) (l : Lexer) : Prop :=
  l.lexemes = (p.unread, p.lexed.ending, p.lexed.fault)

theorem Parser.follows_ofSource (source : String) :
    (Parser.ofSource source).Follows (Lexer.ofSource source) := rfl

theorem Parser.lexemesOf_map {p : Parser} {ls : List Lexeme} (h : ls <:+ p.unread) :
    p.lexemesOf (ls.map (·.token)) = ls := by
  unfold lexemesOf
  rw [List.length_map]
  exact (List.suffix_iff_eq_drop.mp h).symm

theorem Parser.stopOf_map {p : Parser} {ls : List Lexeme} (h : ls <:+ p.unread) :
    p.stopOf (ls.map (·.token)) = firstStop (p.lexed.ending, p.lexed.fault) ls := by
  unfold stopOf
  rw [lexemesOf_map h]
  cases ls <;> rfl

/-- **The parser and the lexer come to the same place**, with the same value or error. -/
theorem Answers.settle {α : Type} {n : ℕ} {p : Parser} {s : Step α n}
    {came : Option (Except SyntaxError α × Lexer)}
    (h : Answers (p.lexed.ending, p.lexed.fault) p.unread s.toExcept came) :
    ∃ l', came = some ((p.settle s).1, l') ∧ (p.settle s).2.Follows l' := by
  cases s with
  | ok a rest _ =>
      cases h with
      | @ok _ rest l hrest hl =>
          refine ⟨l, rfl, ?_⟩
          show l.lexemes = (p.lexemesOf _, _, _)
          rw [Parser.lexemesOf_map hrest]
          exact hl
  | fail f =>
      cases h with
      | @error fault offending rest l hoffending hrest hl =>
          refine ⟨l, ?_, ?_⟩
          · show _ = some (Except.error (SyntaxError.mk fault (p.stopOf _)), l)
            rw [Parser.stopOf_map hoffending]
          · show l.lexemes = (p.lexemesOf _, _, _)
            rw [Parser.lexemesOf_map hrest]
            exact hl

end ExprLang
