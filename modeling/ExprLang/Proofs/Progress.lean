import ExprLang.Proofs.FollowSet
import ExprLang.Proofs.Locations

/-! # The parser ends and makes progress

What gets less on every way through the parser is the number of tokens that have not been used, one
of which the lexer may have looked at already (`Lexer.unread`).  A descent that is allowed to go as
deep as this number demands comes to an end with the answer of the parser (`Parser.Returns`), and no
token that has been used is left again.  So loops and calls end on every source and from every state
of a parser, also behind errors (`Parser.ends_and_progresses`).

The items of a list may be anything: the list ends if each of its items does and gives no tokens
back, because a separator is used up between any two of them (`Descent.came_delimited`). -/

namespace ExprLang

/-- The number of tokens that have not been handed out. -/
def Lexer.unread (l : Lexer) : ℕ := l.lexemes.1.length

/-- The descent has come to an end, and at most `n` tokens are left. -/
def Came {α : Type} (n : ℕ) (came : Option (Except SyntaxError α × Lexer)) : Prop :=
  ∃ answer l, came = some (answer, l) ∧ l.unread ≤ n

namespace Came

variable {α β : Type} {m n : ℕ} {l : Lexer}

theorem mono {came : Option (Except SyntaxError α × Lexer)} (h : Came m came) (hle : m ≤ n) :
    Came n came := by
  obtain ⟨answer, l, hcame, hl⟩ := h
  exact ⟨answer, l, hcame, hl.trans hle⟩

theorem pure (a : α) (h : l.unread ≤ n) : Came n ((pure a : Descent α) l) := ⟨_, l, rfl, h⟩

theorem bind {d : Descent α} {next : α → Descent β} (h : Came n (d l))
    (hnext : ∀ a l', d l = some (.ok a, l') → l'.unread ≤ n → Came n (next a l')) :
    Came n ((d >>= next) l) := by
  obtain ⟨e | a, l', hd, hl⟩ := h
  · rw [Descent.bind_of_error hd]
    exact ⟨_, l', rfl, hl⟩
  · rw [Descent.bind_of_ok hd]
    exact hnext a l' hd hl

end Came

section answers

variable {α : Type} {ending : Location × Option LexicalFault} {ls : List Lexeme}

/-- What is answered as it is read has come to an end. -/
theorem Answers.came {read : Except ParseFailure (α × List Token)}
    {came : Option (Except SyntaxError α × Lexer)} (h : Answers ending ls read came) :
    Came ls.length came := by
  cases h with
  | @ok a rest l hrest hl =>
      refine ⟨.ok a, l, rfl, ?_⟩
      unfold Lexer.unread
      rw [hl]
      exact hrest.length_le
  | @error fault offending rest l hoffending hrest hl =>
      refine ⟨.error _, l, rfl, ?_⟩
      unfold Lexer.unread
      rw [hl]
      exact hrest.length_le

/-- A construct that is read uses a token. -/
theorem Answers.unread_lt {s : Step α (ls.map (·.token)).length} {a : α} {l : Lexer}
    (h : Answers ending ls s.toExcept (some (.ok a, l))) : l.unread < ls.length := by
  generalize hs : s.toExcept = read at h
  cases h with
  | @ok a rest l hrest hl =>
      unfold Lexer.unread
      rw [hl]
      exact Descent.length_lt_of_ok ls hs

end answers

namespace Descent

variable {α : Type} {l l' : Lexer}

/-! ### Lists of items -/

theorem came_peek (l : Lexer) : Came l.unread (peek l) := by
  obtain ⟨-, hlexemes, -⟩ := Lexer.peek_of_lexemes (l := l) rfl
  have hunread : l.peek.2.unread = l.unread := congrArg (·.1.length) hlexemes
  rcases h : l.peek with ⟨e | t, l'⟩
  · rw [h] at hunread
    exact ⟨_, l', ask_of_error h, hunread.le⟩
  · rw [h] at hunread
    exact ⟨_, l', ask_of_ok h, hunread.le⟩

theorem came_mark (c : Char) (l : Lexer) : Came l.unread (mark c l) :=
  (answers_mark c (l := l) rfl).came

theorem unread_lt_of_mark {c : Char} (h : mark c l = some (.ok (), l')) : l'.unread < l.unread := by
  have hmark := answers_mark c (l := l) rfl
  rw [h] at hmark
  exact hmark.unread_lt

section items

variable {stop separator : Char} {item : Descent α}

/-- Where an item may be next, the rest of the list comes to an end if the list behind the item
does. -/
theorem came_item {n depth : ℕ} (hitem : ∀ l, l.unread ≤ n → Came l.unread (item l))
    (hitems : ∀ l, l.unread ≤ n → Came n (items stop separator item depth false l))
    (hl : l.unread ≤ n) :
    Came n ((do
      if ← isMark stop then return []
      let a ← item
      let as ← items stop separator item depth false
      return a :: as) l) := by
  rw [isMark_bind]
  refine .bind ((came_peek l).mono hl) fun t l₁ _ h₁ => ?_
  split
  · exact .pure [] h₁
  · refine .bind ((hitem l₁ h₁).mono h₁) fun a l₂ _ h₂ => ?_
    exact .bind (hitems l₂ h₂) fun as l₃ _ h₃ => .pure _ h₃

/-- A round of the loop uses a separator. -/
theorem came_items {n depth : ℕ} (hitem : ∀ l, l.unread ≤ n → Came l.unread (item l))
    (hl : l.unread ≤ n) (hdepth : l.unread < depth) :
    Came l.unread (items stop separator item depth false l) := by
  induction depth generalizing l with
  | zero => exact absurd hdepth (Nat.not_lt_zero _)
  | succ depth ih =>
      rw [items, isAtEnd_bind]
      refine .bind (came_peek l) fun t l₁ _ h₁ => ?_
      split
      · exact .pure [] h₁
      · rw [isMark_bind]
        refine .bind ((came_peek l₁).mono h₁) fun t l₂ _ h₂ => ?_
        split
        · exact .pure [] h₂
        · refine .bind ((came_mark separator l₂).mono h₂) fun _ l₃ hmark h₃ => ?_
          have hlt : l₃.unread < l₂.unread := unread_lt_of_mark hmark
          refine Came.mono (m := l₃.unread) ?_ h₃
          refine came_item (fun l hl' => hitem l (by omega)) (fun l hl' => ?_) le_rfl
          exact (ih (by omega) (by omega)).mono hl'

/-- **A list ends if its items do.** -/
theorem came_delimited {depth : ℕ} (start : Char)
    (hitem : ∀ l', l'.unread ≤ l.unread → Came l'.unread (item l')) (hdepth : l.unread < depth) :
    Came l.unread (delimited depth start stop separator item l) := by
  unfold delimited
  refine .bind (came_mark start l) fun _ l₁ hmark h₁ => ?_
  have hlt : l₁.unread < l.unread := unread_lt_of_mark hmark
  obtain ⟨depth, rfl⟩ : ∃ n, depth = n + 1 := ⟨depth - 1, by omega⟩
  refine .bind ?_ fun as l₂ _ h₂ => ?_
  · refine Came.mono (m := l₁.unread) ?_ h₁
    rw [items, isAtEnd_bind]
    refine .bind (came_peek l₁) fun t l₂ _ h₂ => ?_
    split
    · exact .pure [] h₂
    · rw [isMark_bind]
      refine .bind ((came_peek l₂).mono h₂) fun t l₃ _ h₃ => ?_
      split
      · exact .pure [] h₃
      · -- No separator stands before the first item, and the mark before the list has been used.
        refine came_item (fun l' hl' => hitem l' (by omega)) (fun l' hl' => ?_) h₃
        exact (came_items (fun l'' hl'' => hitem l'' (by omega)) hl' (by omega)).mono hl'
  · refine .bind ((came_mark stop l₂).mono h₂) fun _ l₃ _ h₃ => ?_
    exact .pure as h₃

end items

end Descent

/-! ### States of a parser -/

/-- Behind any of its tokens a cursor can go on. -/
theorem Cursor.exists_of_suffix {c : Cursor} {ls : List Lexeme} (h : ls <:+ c.lexemes.1) :
    ∃ c' : Cursor, c'.lexemes = (ls, c.lexemes.2) := by
  obtain ⟨n, hn⟩ : ∃ n, c.rest.length = n := ⟨_, rfl⟩
  induction n using Nat.strong_induction_on generalizing c with
  | _ n ih =>
      obtain ⟨t, c', hread⟩ | ⟨c', hread, -⟩ | ⟨e, c', hread, -⟩ := c.readToken_again
      · rw [lexemes_of_token hread] at h ⊢
        rcases List.suffix_cons_iff.mp h with rfl | h
        · exact ⟨c, lexemes_of_token hread⟩
        · have hlt := readToken_length_lt hread
          exact ih c'.rest.length (hn ▸ hlt) h rfl
      · rw [lexemes_of_ending hread] at h ⊢
        obtain rfl := List.suffix_nil.mp h
        exact ⟨c, lexemes_of_ending hread⟩
      · rw [lexemes_of_error hread] at h ⊢
        obtain rfl := List.suffix_nil.mp h
        exact ⟨c, lexemes_of_error hread⟩

namespace Parser

variable {p p' : Parser}

theorem settle_forward {α : Type} {n : ℕ} (p : Parser) (s : Step α n) :
    (p.settle s).2.unread <:+ p.unread ∧ (p.settle s).2.lexed = p.lexed := by
  cases s with
  | ok a rest _ => exact ⟨List.drop_suffix _ _, rfl⟩
  | fail f => exact ⟨List.drop_suffix _ _, rfl⟩

/-- No call makes a token unread. -/
theorem Call.forward {e : Option SyntaxError} (h : Call p e p') :
    p'.unread <:+ p.unread ∧ p'.lexed = p.lexed := by
  cases h <;> exact p.settle_forward _

theorem Calls.forward {errors : List SyntaxError} (h : Calls p errors p') :
    p'.unread <:+ p.unread ∧ p'.lexed = p.lexed := by
  induction h with
  | start => exact ⟨List.suffix_rfl, rfl⟩
  | call _ hcall ih =>
      obtain ⟨hunread, hlexed⟩ := hcall.forward
      exact ⟨hunread.trans ih.1, hlexed.trans ih.2⟩

/-- Wherever calls have left the parser, a lexer can stand. -/
theorem Calls.exists_follows {source : String} {errors : List SyntaxError}
    (h : Calls (.ofSource source) errors p) : ∃ l, p.Follows l := by
  obtain ⟨hunread, hlexed⟩ := h.forward
  obtain ⟨c, hc⟩ := Cursor.exists_of_suffix (c := .ofSource source) hunread
  refine ⟨⟨c, none, false⟩, ?_⟩
  show c.lexemes = (p.unread, p.lexed.ending, p.lexed.fault)
  rw [hlexed]
  exact hc

/-! ### Calls -/

/-- The call ends: from a lexer that stands where the parser does the descent comes to the answer of
the parser if it may go deep enough, and no token that has been used is left again. -/
structure Returns {α : Type} (p : Parser) (answer : Except SyntaxError α × Parser)
    (d : ℕ → Descent α) : Prop where
  came : ∀ l, p.Follows l → ∀ depth, 4 * p.unread.length + 6 ≤ depth →
    ∃ l', d depth l = some (answer.1, l') ∧ answer.2.Follows l'
  forward : answer.2.unread <:+ p.unread

/-- An answer without an error has used a token. -/
def Uses {α : Type} (p : Parser) (answer : Except SyntaxError α × Parser) : Prop :=
  ∀ a, answer.1 = .ok a → answer.2.unread.length < p.unread.length

theorem returns_of_answers {α : Type} {n : ℕ} {s : Step α n} {d : ℕ → Descent α}
    (h : ∀ l, p.Follows l → ∀ depth, 4 * p.unread.length + 6 ≤ depth →
      Answers (p.lexed.ending, p.lexed.fault) p.unread s.toExcept (d depth l)) :
    p.Returns (p.settle s) d where
  came l hl depth hdepth := (h l hl depth hdepth).settle
  forward := (p.settle_forward s).1

theorem uses_settle (p : Parser) {α : Type} (s : Step α p.tokens.length) : p.Uses (p.settle s) := by
  intro a ha
  cases s with
  | fail f => cases ha
  | ok a' rest hlt =>
      have hlength : p.tokens.length = p.unread.length := List.length_map _
      show (p.lexemesOf rest).length < p.unread.length
      unfold lexemesOf
      rw [List.length_drop]
      omega

/-- A program is read up to the end of the source. -/
theorem unread_of_program {e : Expr} (h : p.program.1 = .ok e) :
    p.program.2.unread = [] ∧ p.lexed.fault = none := by
  obtain ⟨r, hread⟩ := settle_eq_ok_iff.mp h
  have hprogram := hread
  rw [Step.toExcept_map] at hprogram
  obtain ⟨es, r', hes, heq⟩ := map_eq_ok_iff.mp hprogram
  obtain ⟨-, hend, rfl⟩ := Phrase.program_eq_ok_iff.mp hes
  obtain ⟨rfl, rfl⟩ := Prod.mk.inj heq
  have htokens : p.program.2.tokens = [] := tokens_settle hread (List.nil_suffix (l := p.tokens))
  exact ⟨List.map_eq_nil_iff.mp htokens, hend⟩

/-- **The parser always ends and makes progress.**  A lexer can stand where any calls have left a
parser, and from there the descents come to the answers of the parser.  Every construct but a whole
program uses a token if it is read, a program is read up to the end, a list ends if its items end
and give no tokens back, and no call makes a token unread. -/
theorem ends_and_progresses :
    (∀ source, (Parser.ofSource source).Follows (Lexer.ofSource source) ∧
      ∀ errors p, Calls (.ofSource source) errors p → ∃ l, p.Follows l) ∧
    (∀ p : Parser,
      p.Returns p.program (Descent.program true) ∧
      p.Returns p.expression (Descent.expression true) ∧
      p.Returns p.atom (Descent.atom true) ∧
      p.Returns p.block (Descent.block true) ∧
      p.Returns p.condition (Descent.condition true) ∧
      p.Returns p.boolean (fun _ => Descent.boolean) ∧
      p.Returns p.lambda (Descent.lambda true) ∧
      p.Returns p.name (fun _ => Descent.name) ∧
      (∀ f, p.Returns (p.call f) (Descent.call true · f)) ∧
      ∀ {α : Type} (start stop separator : Char)
        (item : Option LexicalFault → (ts : List Token) → Step α ts.length) (d : Descent α),
        (∀ ls, Descent.ReadsItems (p.lexed.ending, p.lexed.fault) ls (item p.lexed.fault) d) →
        p.Returns (p.delimited start stop separator item)
          (Descent.delimited · start stop separator d)) ∧
    (∀ p : Parser, p.Uses p.expression ∧ p.Uses p.atom ∧ p.Uses p.block ∧ p.Uses p.condition ∧
      p.Uses p.boolean ∧ p.Uses p.lambda ∧ p.Uses p.name ∧ ∀ f, p.Uses (p.call f)) ∧
    (∀ (p : Parser) e, p.program.1 = .ok e → p.program.2.unread = [] ∧ p.lexed.fault = none) ∧
    (∀ {α : Type} (item : Descent α) (start stop separator : Char) (l : Lexer),
      (∀ l', l'.unread ≤ l.unread → Came l'.unread (item l')) →
      ∀ depth, l.unread < depth →
        Came l.unread (Descent.delimited depth start stop separator item l)) ∧
    ∀ p e p', Call p e p' → p'.unread <:+ p.unread := by
  refine ⟨fun source => ⟨follows_ofSource source, fun errors p h => h.exists_follows⟩,
    fun p => ⟨?_, ?_, ?_, ?_, ?_, ?_, ?_, ?_, ?_, ?_⟩, fun p => ?_, ?_, ?_, ?_⟩
  · exact returns_of_answers fun l hl depth hdepth => Descent.answers_program hl hdepth
  · exact returns_of_answers fun l hl depth hdepth => Descent.answers_expression hl (by omega)
  · exact returns_of_answers fun l hl depth hdepth => Descent.answers_atom hl (by omega)
  · exact returns_of_answers fun l hl depth hdepth => Descent.answers_block hl (by omega)
  · exact returns_of_answers fun l hl depth hdepth => Descent.answers_condition hl (by omega)
  · exact returns_of_answers fun l hl depth hdepth => Descent.answers_boolean hl
  · exact returns_of_answers fun l hl depth hdepth => Descent.answers_lambda hl (by omega)
  · exact returns_of_answers fun l hl depth hdepth => Descent.answers_name hl
  · intro f
    exact returns_of_answers fun l hl depth hdepth => Descent.answers_call f hl (by omega)
  · intro α start stop separator item d hitem
    refine returns_of_answers fun l hl depth hdepth => ?_
    exact Descent.answers_delimited start (fun {rest} _ => hitem rest) (by omega) hl
  · exact ⟨p.uses_settle _, p.uses_settle _, p.uses_settle _, p.uses_settle _, p.uses_settle _,
      p.uses_settle _, p.uses_settle _, fun _ => p.uses_settle _⟩
  · intro p e he
    exact unread_of_program he
  · intro α item start stop separator l hitem depth hdepth
    exact Descent.came_delimited start hitem hdepth
  · intro p e p' hcall
    exact hcall.forward.1

/-- Behind an error the parser goes on with the tokens that are left. -/
theorem ends_and_progresses_error :
    let p := (Parser.ofSource "f(1 2)").program.2
    let q := Parser.ofSource "(a, b)"
    let l := Lexer.ofSource "(a, b)"
    let r := Parser.ofSource "f(1)"
    Calls (.ofSource "f(1 2)") [⟨.expecting .punctuation ",", ⟨5, 1, 5⟩⟩] p ∧
      (∃ l, p.Follows l ∧ 4 * p.unread.length + 6 ≤ 20 ∧
        ∃ l', Descent.atom true 20 l = some (p.atom.1, l') ∧ p.atom.2.Follows l') ∧
      (∃ e, p.atom.1 = .ok e ∧ p.atom.2.unread.length < p.unread.length) ∧
      p.unread <:+ (Parser.ofSource "f(1 2)").unread ∧
      (∀ ls, Descent.ReadsItems (q.lexed.ending, q.lexed.fault) ls (Grammar.name q.lexed.fault)
        Descent.name) ∧
      q.Returns (q.delimited '(' ')' ',' Grammar.name)
        (Descent.delimited · '(' ')' ',' Descent.name) ∧
      (∀ l', l'.unread ≤ l.unread → Came l'.unread (Descent.name l')) ∧ l.unread < 20 ∧
      Came l.unread (Descent.delimited 20 '(' ')' ',' Descent.name l) ∧
      ∃ e, r.program.1 = .ok e ∧ r.program.2.unread = [] ∧ r.lexed.fault = none := by
  intro p q l r
  have herror : errorOf (Parser.ofSource "f(1 2)").program.1 =
      some ⟨.expecting .punctuation ",", ⟨5, 1, 5⟩⟩ := by
    decide +kernel
  have hcall : Call (.ofSource "f(1 2)") (some ⟨.expecting .punctuation ",", ⟨5, 1, 5⟩⟩) p := by
    rw [← herror]
    exact .program
  have hdepth : 4 * p.unread.length + 6 ≤ 20 := by decide +kernel
  have hatom : p.atom.1.isOk = true := by decide +kernel
  have hl : l.unread < 20 := by decide +kernel
  have hprogram : r.program.1.isOk = true := by decide +kernel
  clear_value p q l r
  have hcalls := Calls.call .start hcall
  obtain ⟨hstates, hreturns, huses, hends, hlists, hforward⟩ := ends_and_progresses
  obtain ⟨l₁, hfollows⟩ := (hstates _).2 _ _ hcalls
  obtain ⟨-, -, hreturnsAtom, -⟩ := hreturns p
  obtain ⟨-, -, -, -, -, -, -, -, -, hreturnsLists⟩ := hreturns q
  obtain ⟨-, husesAtom, -⟩ := huses p
  obtain ⟨e, he⟩ := Descent.exists_ok_of_isOk hatom
  obtain ⟨e', he'⟩ := Descent.exists_ok_of_isOk hprogram
  have hitems : ∀ ls, Descent.ReadsItems (q.lexed.ending, q.lexed.fault) ls
      (Grammar.name q.lexed.fault) Descent.name := fun _ => Descent.readsItems_name
  have hnames : ∀ l', l'.unread ≤ l.unread → Came l'.unread (Descent.name l') :=
    fun l' _ => (Descent.answers_name (l := l') rfl).came
  exact ⟨hcalls, ⟨l₁, hfollows, hdepth, hreturnsAtom.came l₁ hfollows 20 hdepth⟩,
    ⟨e, he, husesAtom e he⟩, hforward _ _ _ hcall, hitems,
    hreturnsLists '(' ')' ',' Grammar.name Descent.name hitems, hnames, hl,
    hlists Descent.name '(' ')' ',' l hnames 20 hl, e', he', hends r e' he'⟩

end Parser

end ExprLang
