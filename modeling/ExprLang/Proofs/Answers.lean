import ExprLang.Parser.Descent
import ExprLang.Proofs.Lookahead

/-! # What a descent answers

A lexer has some tokens ahead of it, each with the place where it stops, and behind the last one
something it stops at for good (`Lexer.lexemes`).  A request is answered from these and leaves the
lexer where the first of them stops, or where the reading ends.

So a descent can be compared with a function that reads the tokens alone: `Answers` says that it
comes to the same value, or to the same fault at the place of the offending token, and that it
leaves the same tokens.  One behind another answers what the two functions read one behind the other
(`Answers.bind`), and what a descent decides by the next token is decided by the first token that is
ahead (`Answers.peek`). -/

namespace ExprLang

/-! ### Cursors -/

/-- Where there is no token, reading again comes to the same and leaves the cursor where it is. -/
theorem Cursor.readToken_again (c : Cursor) :
    (∃ t c', c.readToken = (.ok (some t), c')) ∨
    (∃ c', c.readToken = (.ok none, c') ∧ c'.readToken = (.ok none, c')) ∨
    ∃ e c', c.readToken = (.error e, c') ∧ c'.readToken = (.error e, c') ∧
      c'.location = e.location := by
  obtain ⟨pieces, w, rest, hcut⟩ := exists_cut c.rest
  generalize hcs : c.rest = cs at hcut
  cases hcut with
  | piece hw ht _ => exact .inl ⟨_, _, c.readToken_piece hcs hw ht⟩
  | ending hw hends =>
      cases rest with
      | nil =>
          rw [List.append_nil] at hcs
          have hagain := (c.pass w []).readToken_ending rfl .empty
          exact .inr (.inl ⟨_, c.readToken_ending hcs hw, hagain⟩)
      | cons x cs =>
          obtain ⟨hlayout, htoken⟩ := not_or.mp (hends x rfl)
          have hagain :=
            (c.pass w (x :: cs)).readToken_unexpected (w := []) rfl .empty hlayout htoken
          exact .inr (.inr ⟨_, _, c.readToken_unexpected hcs hw hlayout htoken, hagain, rfl⟩)

/-! ### Lexers -/

namespace Lexer

/-- The tokens ahead with the places where they stop, where the reading ends and the fault that ends
it. -/
def lexemes (l : Lexer) : List Lexeme × Location × Option LexicalFault :=
  match l.lookahead with
  | some t => (⟨t, l.location⟩ :: l.cursor.lexemes.1, l.cursor.lexemes.2)
  | none => l.cursor.lexemes

/-- Looking ahead again shows the same and changes nothing. -/
theorem peek_peek (l : Lexer) : l.peek.2.peek = l.peek := by
  obtain ⟨c, lookahead, halted⟩ := l
  cases lookahead with
  | some t => rfl
  | none =>
      obtain ⟨t, c', hread⟩ | ⟨c', hread, hagain⟩ | ⟨e, c', hread, hagain, -⟩ := c.readToken_again
      · simp [peek, hread]
      · simp [peek, hread, hagain]
      · simp [peek, hread, hagain]

end Lexer

/-- Where the first of the tokens stops, or where the reading ends. -/
def firstStop (ending : Location × Option LexicalFault) : List Lexeme → Location
  | [] => ending.1
  | x :: _ => x.stop

/-- What comes of looking for a token where these are ahead. -/
def front (ending : Location × Option LexicalFault) :
    List Lexeme → Except LexicalError (Option Token)
  | x :: _ => .ok (some x.token)
  | [] =>
    match ending.2 with
    | none => .ok none
    | some fault => .error ⟨fault, ending.1⟩

namespace Lexer

variable {l : Lexer} {ls : List Lexeme} {ending : Location × Option LexicalFault}

/-- Looking ahead leaves all tokens ahead. -/
theorem peek_of_lexemes (h : l.lexemes = (ls, ending)) :
    l.peek.1 = front ending ls ∧ l.peek.2.lexemes = (ls, ending) ∧
      l.peek.2.location = firstStop ending ls := by
  obtain ⟨c, lookahead, halted⟩ := l
  cases lookahead with
  | some t =>
      cases h
      exact ⟨rfl, rfl, rfl⟩
  | none =>
      have hc : c.lexemes = (ls, ending) := h
      obtain ⟨t, c', hread⟩ | ⟨c', hread, hagain⟩ | ⟨e, c', hread, hagain, hlocation⟩ :=
        c.readToken_again
      · rw [Cursor.lexemes_of_token hread] at hc
        cases hc
        simp [peek, lexemes, location, front, firstStop, hread]
      · rw [Cursor.lexemes_of_ending hread] at hc
        cases hc
        simp [peek, lexemes, location, front, firstStop, hread, Cursor.lexemes_of_ending hagain]
      · rw [Cursor.lexemes_of_error hread] at hc
        cases hc
        simp [peek, lexemes, location, front, firstStop, hread, Cursor.lexemes_of_error hagain,
          hlocation]

/-- The next token is used up, and the lexer stands behind it. -/
theorem nextToken_of_lexemes (h : l.lexemes = (ls, ending)) :
    l.nextToken.1 = front ending ls ∧ l.nextToken.2.lexemes = (ls.tail, ending) ∧
      l.nextToken.2.location = firstStop ending ls := by
  obtain ⟨c, lookahead, halted⟩ := l
  cases lookahead with
  | some t =>
      cases h
      exact ⟨rfl, rfl, rfl⟩
  | none =>
      have hc : c.lexemes = (ls, ending) := h
      obtain ⟨t, c', hread⟩ | ⟨c', hread, hagain⟩ | ⟨e, c', hread, hagain, hlocation⟩ :=
        c.readToken_again
      · rw [Cursor.lexemes_of_token hread] at hc
        cases hc
        simp [nextToken, lexemes, location, front, firstStop, hread]
      · rw [Cursor.lexemes_of_ending hread] at hc
        cases hc
        simp [nextToken, lexemes, location, front, firstStop, hread,
          Cursor.lexemes_of_ending hagain]
      · rw [Cursor.lexemes_of_error hread] at hc
        cases hc
        simp [nextToken, lexemes, location, front, firstStop, hread, Cursor.lexemes_of_error hagain,
          hlocation]

end Lexer

namespace Descent

/-! ### Descents one behind the other -/

section bind

variable {α β : Type} {d : Descent α} {next : α → Descent β} {l l' : Lexer}

theorem bind_of_ok {a : α} (h : d l = some (.ok a, l')) : (d >>= next) l = next a l' := by
  show Descent.bind d next l = _
  unfold Descent.bind
  rw [h]

theorem bind_of_error {e : SyntaxError} (h : d l = some (.error e, l')) :
    (d >>= next) l = some (.error e, l') := by
  show Descent.bind d next l = _
  unfold Descent.bind
  rw [h]

theorem bind_of_none (h : d l = none) : (d >>= next) l = none := by
  show Descent.bind d next l = _
  unfold Descent.bind
  rw [h]

theorem bind_pure_eq (d : Descent α) : (d >>= fun a => pure a) = d := by
  funext l
  rcases h : d l with _ | ⟨e | a, l'⟩
  · exact bind_of_none h
  · exact bind_of_error h
  · exact bind_of_ok h

theorem bind_bind_eq {γ : Type} (d : Descent α) (next : α → Descent β) (last : β → Descent γ) :
    (d >>= next) >>= last = d >>= fun a => next a >>= last := by
  funext l
  rcases h : d l with _ | ⟨e | a, l'⟩
  · rw [bind_of_none (bind_of_none h), bind_of_none h]
  · rw [bind_of_error (bind_of_error h), bind_of_error h]
  · rw [bind_of_ok h]
    show Descent.bind (Descent.bind d next) last l = Descent.bind (next a) last l'
    unfold Descent.bind
    rw [h]

instance : LawfulMonad Descent :=
  .mk' Descent bind_pure_eq (fun _ _ => rfl) bind_bind_eq

end bind

/-! ### Requests -/

section requests

variable {α β : Type} {request : Lexer → Except LexicalError β × Lexer} {l l' : Lexer}

theorem ask_of_ok {b : β} (h : request l = (.ok b, l')) : ask request l = some (.ok b, l') := by
  unfold ask
  rw [h]

theorem ask_of_error {e : LexicalError} (h : request l = (.error e, l')) :
    ask request l = some (.error ⟨.lexical e.fault, e.location⟩, l') := by
  unfold ask
  rw [h]

theorem isMark_bind (c : Char) (next : Bool → Descent α) :
    isMark c >>= next = peek >>= fun t => next (t.any (·.isPunctuation c)) := by
  unfold isMark
  simp only [bind_assoc, pure_bind]

theorem isWord_bind (k : Keyword) (next : Bool → Descent α) :
    isWord k >>= next = peek >>= fun t => next (t.any (·.isKeyword k)) := by
  unfold isWord
  simp only [bind_assoc, pure_bind]

theorem operatorAhead_bind (next : Option Operator → Descent α) :
    operatorAhead >>= next = peek >>= fun t => next (t.bind operatorOf?) := by
  unfold operatorAhead
  simp only [bind_assoc, pure_bind]

theorem isAtEnd_bind (next : Bool → Descent α) :
    isAtEnd >>= next = peek >>= fun t => next t.isNone := by
  have hisAtEnd : isAtEnd = peek >>= fun t => pure t.isNone := by
    funext l
    rcases h : l.peek with ⟨e | t, l'⟩
    · have herror : l.isAtEnd = (.error e, l') := by
        unfold Lexer.isAtEnd
        rw [h]
      have hpeek : peek l = some (.error ⟨.lexical e.fault, e.location⟩, l') := ask_of_error h
      rw [bind_of_error hpeek]
      exact ask_of_error herror
    · have hok : l.isAtEnd = (.ok t.isNone, l') := by
        unfold Lexer.isAtEnd
        rw [h]
      have hpeek : peek l = some (.ok t, l') := ask_of_ok h
      rw [bind_of_ok hpeek]
      exact ask_of_ok hok
  rw [hisAtEnd]
  simp only [bind_assoc, pure_bind]

theorem peek_bind_of_peek {t : Option Token} (h : l.peek = (.ok t, l))
    (next : Option Token → Descent α) :
    (peek >>= next) l = next t l :=
  bind_of_ok (ask_of_ok h)

/-- What is done behind looking ahead is done where that shows the same again. -/
theorem peek_bind_congr {next next' : Option Token → Descent α}
    (h : ∀ {t l}, l.peek = (.ok t, l) → next t l = next' t l) : peek >>= next = peek >>= next' := by
  funext l
  have hagain := l.peek_peek
  rcases hl : l.peek with ⟨e | t, l'⟩
  · have hpeek : peek l = some (.error ⟨.lexical e.fault, e.location⟩, l') := ask_of_error hl
    rw [bind_of_error hpeek, bind_of_error hpeek]
  · rw [hl] at hagain
    have hpeek : peek l = some (.ok t, l') := ask_of_ok hl
    rw [bind_of_ok hpeek, bind_of_ok hpeek]
    exact h hagain

end requests

end Descent

theorem Token.isKeyword_iff {t : Token} {k : Keyword} : t.isKeyword k = true ↔ t = .keyword k := by
  simp [Token.isKeyword]

theorem Step.atEnd_of_fault {α : Type} {n : ℕ} {ending : Option LexicalFault} {fault : LexicalFault}
    (h : ending = some fault) (missing : SyntaxFault) :
    (Step.atEnd ending missing : Step α n).toExcept = .error ⟨.lexical fault, [], []⟩ := by
  rw [h]
  rfl

/-! ### Answers -/

/-- A descent from where `ls` is ahead comes to `came`, and that is what is read off the tokens of
`ls`: the same value, or the same fault where the offending token stops, and the same tokens are
left. -/
inductive Answers {α : Type} (ending : Location × Option LexicalFault) (ls : List Lexeme) :
    (read : Except ParseFailure (α × List Token)) →
    (came : Option (Except SyntaxError α × Lexer)) → Prop
  | ok {a : α} {rest l} : rest <:+ ls → l.lexemes = (rest, ending) →
      Answers ending ls (.ok (a, rest.map (·.token))) (some (.ok a, l))
  | error {fault offending rest l} : offending <:+ ls → rest <:+ ls → l.lexemes = (rest, ending) →
      Answers ending ls (.error ⟨fault, offending.map (·.token), rest.map (·.token)⟩)
        (some (.error ⟨fault, firstStop ending offending⟩, l))

namespace Answers

variable {α β : Type} {ending : Location × Option LexicalFault} {ls ls' : List Lexeme} {l : Lexer}
  {read : Except ParseFailure (α × List Token)} {came : Option (Except SyntaxError α × Lexer)}

/-- More tokens might have been ahead. -/
theorem mono (h : Answers ending ls read came) (hle : ls <:+ ls') :
    Answers ending ls' read came := by
  cases h with
  | ok hrest hl => exact .ok (hrest.trans hle) hl
  | error hoffending hrest hl => exact .error (hoffending.trans hle) (hrest.trans hle) hl

theorem bind {d : Descent α} {next : α → Descent β}
    {readNext : α × List Token → Except ParseFailure (β × List Token)}
    (h : Answers ending ls read (d l))
    (hnext : ∀ {a rest l'}, read = .ok (a, rest.map (·.token)) → rest <:+ ls →
      l'.lexemes = (rest, ending) →
      Answers ending rest (readNext (a, rest.map (·.token))) (next a l')) :
    Answers ending ls (read.bind readNext) ((d >>= next) l) := by
  generalize hd : d l = came at h
  cases h with
  | ok hrest hl =>
      rw [Descent.bind_of_ok hd]
      exact (hnext rfl hrest hl).mono hrest
  | error hoffending hrest hl =>
      rw [Descent.bind_of_error hd]
      exact .error hoffending hrest hl

theorem pure (a : α) (h : l.lexemes = (ls, ending)) :
    Answers ending ls (.ok (a, ls.map (·.token))) ((pure a : Descent α) l) :=
  .ok List.suffix_rfl h

theorem map {d : Descent α} (h : Answers ending ls read (d l)) (f : α → β) :
    Answers ending ls (read.map fun p => (f p.1, p.2)) ((d >>= fun a => Pure.pure (f a)) l) := by
  have hbind : (read.map fun p => (f p.1, p.2)) = read.bind fun p => .ok (f p.1, p.2) := by
    cases read <;> rfl
  rw [hbind]
  exact h.bind fun _ _ hl => .pure _ hl

theorem fail {fault : SyntaxFault} {offending : List Lexeme} (h : l.lexemes = (ls', ending))
    (hlocation : l.location = firstStop ending offending) (hoffending : offending <:+ ls)
    (hrest : ls' <:+ ls) :
    Answers ending ls
      (.error ⟨fault, offending.map (·.token), ls'.map (·.token)⟩ :
        Except ParseFailure (α × List Token))
      (Descent.fail fault l) := by
  unfold Descent.fail
  rw [hlocation]
  exact .error hoffending hrest h

/-- What is done depends on the first of the tokens, or there is none and the source does not end
there. -/
theorem ask {request : Lexer → Except LexicalError (Option Token) × Lexer}
    {next : Option Token → Descent α} (hanswer : (request l).1 = front ending ls)
    (hlexemes : (request l).2.lexemes = (ls', ending)) (hle : ls' <:+ ls)
    (hfault : ∀ fault, ls = [] → ending.2 = some fault → read = .error ⟨.lexical fault, [], []⟩)
    (hnext : (ls = [] → ending.2 = none) →
      Answers ending ls read (next (ls.head?.map (·.token)) (request l).2)) :
    Answers ending ls read ((Descent.ask request >>= next) l) := by
  have hrequest : request l = (front ending ls, (request l).2) := Prod.ext hanswer rfl
  cases ls with
  | cons x ls =>
      rw [Descent.bind_of_ok (Descent.ask_of_ok hrequest)]
      exact hnext nofun
  | nil =>
      obtain ⟨location, _ | fault⟩ := ending
      · rw [Descent.bind_of_ok (Descent.ask_of_ok hrequest)]
        exact hnext fun _ => rfl
      · obtain rfl := List.suffix_nil.mp hle
        rw [Descent.bind_of_error (Descent.ask_of_error hrequest), hfault fault rfl rfl]
        exact error (List.nil_suffix (l := [])) hle hlexemes

/-- A token is missing, because there is none. -/
theorem atEnd {n : ℕ} {fault : SyntaxFault} (h : l.lexemes = (ls, ending))
    (hlocation : l.location = firstStop ending ls) (hls : ls = []) (hend : ending.2 = none) :
    Answers ending ls (Step.atEnd ending.2 fault : Step α n).toExcept (Descent.fail fault l) := by
  subst hls
  rw [hend]
  exact fail h hlocation List.suffix_rfl List.suffix_rfl

theorem peek {next : Option Token → Descent α} (h : l.lexemes = (ls, ending))
    (hfault : ∀ fault, ls = [] → ending.2 = some fault → read = .error ⟨.lexical fault, [], []⟩)
    (hnext : ∀ {l'}, l'.lexemes = (ls, ending) → l'.location = firstStop ending ls →
      (ls = [] → ending.2 = none) → Answers ending ls read (next (ls.head?.map (·.token)) l')) :
    Answers ending ls read ((Descent.peek >>= next) l) := by
  obtain ⟨hanswer, hlexemes, hlocation⟩ := Lexer.peek_of_lexemes h
  exact ask hanswer hlexemes List.suffix_rfl hfault (hnext hlexemes hlocation)

theorem nextToken {next : Option Token → Descent α} (h : l.lexemes = (ls, ending))
    (hfault : ∀ fault, ls = [] → ending.2 = some fault → read = .error ⟨.lexical fault, [], []⟩)
    (hnext : ∀ {l'}, l'.lexemes = (ls.tail, ending) → l'.location = firstStop ending ls →
      (ls = [] → ending.2 = none) → Answers ending ls read (next (ls.head?.map (·.token)) l')) :
    Answers ending ls read ((Descent.nextToken >>= next) l) := by
  obtain ⟨hanswer, hlexemes, hlocation⟩ := Lexer.nextToken_of_lexemes h
  exact ask hanswer hlexemes (List.tail_suffix ls) hfault (hnext hlexemes hlocation)

/-- The token in front is used, and the rest is read. -/
theorem use {next : Option Token → Descent α} {x : Lexeme} (h : l.lexemes = (x :: ls, ending))
    (hnext : ∀ {l'}, l'.lexemes = (ls, ending) → Answers ending ls read (next (some x.token) l')) :
    Answers ending (x :: ls) read ((Descent.nextToken >>= next) l) := by
  refine nextToken h nofun fun {l'} hl' _ _ => ?_
  exact (hnext hl').mono (List.suffix_cons x ls)

end Answers

end ExprLang
