import ExprLang.Proofs.Munch

/-! # Asking a lexer

A lexer can be asked for the token ahead (`peek`), for the next token (`nextToken`), whether there
is none (`isAtEnd`) and for the next item of the sequence of tokens (`next`).  In whatever order
this is done, the answers are taken from one list of tokens with one error or none behind it: how
many tokens have been handed out says what is ahead (`Lexer.asks_due`).

A lexer is looked at through `Lexer.tokens`, the tokens it has yet to hand out, and `Lexer.error?`,
the error behind them.  `Lexer.At` says that these are what is left behind a position in the list,
and each request moves the position as its answer says (`Lexer.At.ask`). -/

namespace ExprLang

/-- What is ahead behind the first `i` tokens of a list that an error may end. -/
def ahead (tokens : List Token) (error : Option LexicalError) (i : ℕ) :
    Except LexicalError (Option Token) :=
  match tokens[i]?, error with
  | some t, _ => .ok (some t)
  | none, some e => .error e
  | none, none => .ok none

theorem ahead_drop (tokens : List Token) (error : Option LexicalError) (i : ℕ) :
    ahead (tokens.drop i) error 0 = ahead tokens error i := by
  unfold ahead
  rw [List.getElem?_drop, Nat.add_zero]

/-! ### Cursors -/

namespace Cursor

/-- The tokens ahead of the cursor. -/
def tokens (c : Cursor) : List Token := c.lexemes.1.map (·.token)

/-- The error behind them. -/
def error? (c : Cursor) : Option LexicalError := c.lexemes.2.2.map (⟨·, c.lexemes.2.1⟩)

/-- Nothing but layout and the end of the source is ahead. -/
theorem ahead_of_ending {c c' : Cursor} (h : c.readToken = (.ok none, c')) :
    c.tokens = [] ∧ c.error? = none := by
  unfold tokens error?
  rw [lexemes_of_ending h]
  exact ⟨rfl, rfl⟩

theorem ahead_of_error {c c' : Cursor} {e : LexicalError} (h : c.readToken = (.error e, c')) :
    c.tokens = [] ∧ c.error? = some e := by
  unfold tokens error?
  rw [lexemes_of_error h]
  exact ⟨rfl, rfl⟩

theorem ahead_of_token {c c' : Cursor} {t : Token} (h : c.readToken = (.ok (some t), c')) :
    c.tokens = t :: c'.tokens ∧ c.error? = c'.error? := by
  unfold tokens error?
  rw [lexemes_of_token h]
  exact ⟨rfl, rfl⟩

/-- Reading takes the first token.  Where there is none it only passes layout, so the end and the
error are ahead of the cursor as before. -/
theorem readToken_cases (c : Cursor) :
    (∃ t c', c.readToken = (.ok (some t), c') ∧ c.tokens = t :: c'.tokens ∧
      c.error? = c'.error?) ∨
    (∃ c', c.readToken = (.ok none, c') ∧ c.tokens = [] ∧ c.error? = none ∧ c'.tokens = [] ∧
      c'.error? = none) ∨
    ∃ e c', c.readToken = (.error e, c') ∧ c.tokens = [] ∧ c.error? = some e ∧ c'.tokens = [] ∧
      c'.error? = some e := by
  obtain ⟨pieces, w, rest, hcut⟩ := exists_cut c.rest
  generalize hcs : c.rest = cs at hcut
  cases hcut with
  | piece hw ht _ =>
      have hread := c.readToken_piece hcs hw ht
      exact .inl ⟨_, _, hread, ahead_of_token hread⟩
  | ending hw hends =>
      cases rest with
      | nil =>
          rw [List.append_nil] at hcs
          have hread := c.readToken_ending hcs hw
          obtain ⟨htokens, herror⟩ := ahead_of_ending hread
          have hagain := (c.pass w []).readToken_ending rfl .empty
          exact .inr (.inl ⟨_, hread, htokens, herror, ahead_of_ending hagain⟩)
      | cons x cs =>
          obtain ⟨hlayout, htoken⟩ := not_or.mp (hends x rfl)
          have hread := c.readToken_unexpected hcs hw hlayout htoken
          obtain ⟨htokens, herror⟩ := ahead_of_error hread
          have hagain :=
            (c.pass w (x :: cs)).readToken_unexpected (w := []) rfl .empty hlayout htoken
          exact .inr (.inr ⟨_, _, hread, htokens, herror, ahead_of_error hagain⟩)

end Cursor

namespace Lexer

/-! ### Lexers -/

/-- The tokens that have not been handed out. -/
def tokens (l : Lexer) : List Token := l.lookahead.toList ++ l.cursor.tokens

/-- The error behind them. -/
def error? (l : Lexer) : Option LexicalError := l.cursor.error?

/-- Looking ahead leaves everything ahead. -/
theorem peek_eq (l : Lexer) :
    l.peek.1 = ahead l.tokens l.error? 0 ∧ l.peek.2.tokens = l.tokens ∧
      l.peek.2.error? = l.error? ∧ l.peek.2.halted = l.halted := by
  obtain ⟨c, lookahead, halted⟩ := l
  cases lookahead with
  | some t => exact ⟨rfl, rfl, rfl, rfl⟩
  | none =>
      obtain ⟨t, c', hread, htokens, herror⟩ | ⟨c', hread, htokens, herror, htokens', herror'⟩ |
        ⟨e, c', hread, htokens, herror, htokens', herror'⟩ := c.readToken_cases
      all_goals simp [peek, tokens, error?, ahead, *]

/-- The next token is the one ahead, and the others stay ahead. -/
theorem nextToken_eq (l : Lexer) :
    l.nextToken.1 = ahead l.tokens l.error? 0 ∧ l.nextToken.2.tokens = l.tokens.tail ∧
      l.nextToken.2.error? = l.error? ∧ l.nextToken.2.halted = l.halted := by
  obtain ⟨c, lookahead, halted⟩ := l
  cases lookahead with
  | some t => exact ⟨rfl, rfl, rfl, rfl⟩
  | none =>
      obtain ⟨t, c', hread, htokens, herror⟩ | ⟨c', hread, htokens, herror, htokens', herror'⟩ |
        ⟨e, c', hread, htokens, herror, htokens', herror'⟩ := c.readToken_cases
      all_goals simp [nextToken, tokens, error?, ahead, *]

theorem isAtEnd_eq (l : Lexer) :
    l.isAtEnd.1 = l.peek.1.map (·.isNone) ∧ l.isAtEnd.2 = l.peek.2 := by
  unfold isAtEnd
  generalize l.peek = r
  obtain ⟨answer, l'⟩ := r
  cases answer <;> exact ⟨rfl, rfl⟩

/-- The item that a token makes, or the error; the end makes none. -/
def itemOf : Except LexicalError (Option Token) → Option (Except LexicalError Token)
  | .ok t => t.map .ok
  | .error e => some (.error e)

/-- The next item is the next token, and an error halts the lexer. -/
theorem next_eq {l : Lexer} (h : l.halted = false) :
    l.next = (itemOf l.nextToken.1,
      { l.nextToken.2 with halted := l.nextToken.2.halted || !l.nextToken.1.isOk }) := by
  unfold next
  rw [if_neg (by simp [h])]
  generalize l.nextToken = r
  obtain ⟨answer, l'⟩ := r
  match answer with
  | .ok none => simp [itemOf, Except.isOk, Except.toBool]
  | .ok (some t) => simp [itemOf, Except.isOk, Except.toBool]
  | .error e => simp [itemOf, Except.isOk, Except.toBool]

/-! ### Requests -/

/-- The ways to ask a lexer. -/
inductive Request where
  | peek
  | nextToken
  | isAtEnd
  | next

/-- What a lexer answers to each of them. -/
inductive Answer where
  | peek (answer : Except LexicalError (Option Token))
  | nextToken (answer : Except LexicalError (Option Token))
  | isAtEnd (answer : Except LexicalError Bool)
  | next (item : Option (Except LexicalError Token))
deriving DecidableEq

/-- Asks once. -/
def ask (l : Lexer) : Request → Answer × Lexer
  | .peek => l.peek.map .peek id
  | .nextToken => l.nextToken.map .nextToken id
  | .isAtEnd => l.isAtEnd.map .isAtEnd id
  | .next => l.next.map .next id

/-- Asks in order, each time the lexer that the last request has left. -/
def asks (l : Lexer) : List Request → List Answer × Lexer
  | [] => ([], l)
  | r :: rs =>
    let (answer, l) := l.ask r
    let (answers, l) := l.asks rs
    (answer :: answers, l)

namespace Answer

/-- The answer hands a token out. -/
def handsOut : Answer → Bool
  | .nextToken (.ok (some _)) => true
  | .next (some (.ok _)) => true
  | _ => false

/-- The answer is an item that is an error, and no item will follow it. -/
def halts : Answer → Bool
  | .next (some (.error _)) => true
  | _ => false

theorem handsOut_next (front : Except LexicalError (Option Token)) :
    (next (itemOf front)).handsOut = (nextToken front).handsOut := by
  match front with
  | .ok none => rfl
  | .ok (some t) => rfl
  | .error e => rfl

theorem halts_next (front : Except LexicalError (Option Token)) :
    (next (itemOf front)).halts = !front.isOk := by
  match front with
  | .ok none => rfl
  | .ok (some t) => rfl
  | .error e => rfl

end Answer

/-- The answer that is due where `front` is ahead; `halted` says whether an error has been handed
out as an item. -/
def due (front : Except LexicalError (Option Token)) (halted : Bool) : Request → Answer
  | .peek => .peek front
  | .nextToken => .nextToken front
  | .isAtEnd => .isAtEnd (front.map (·.isNone))
  | .next => .next (if halted then none else itemOf front)

/-- The lexer stands behind the first `i` tokens of the list that `error` ends. -/
structure At (tokens : List Token) (error : Option LexicalError) (l : Lexer) (i : ℕ)
    (halted : Bool) : Prop where
  tokens_eq : l.tokens = tokens.drop i
  error?_eq : l.error? = error
  halted_eq : l.halted = halted

section at_position

variable {ts : List Token} {error : Option LexicalError} {l : Lexer} {i : ℕ} {halted : Bool}

theorem At.peek (h : At ts error l i halted) :
    l.peek.1 = ahead ts error i ∧ At ts error l.peek.2 i halted := by
  obtain ⟨hanswer, htokens, herror, hhalted⟩ := l.peek_eq
  rw [h.tokens_eq, h.error?_eq, ahead_drop] at hanswer
  exact ⟨hanswer, htokens.trans h.tokens_eq, herror.trans h.error?_eq,
    hhalted.trans h.halted_eq⟩

/-- The position moves exactly if there is a token. -/
theorem At.nextToken (h : At ts error l i halted) :
    l.nextToken.1 = ahead ts error i ∧
      At ts error l.nextToken.2 (i + (Answer.nextToken (ahead ts error i)).handsOut.toNat)
        halted := by
  obtain ⟨hanswer, htokens, herror, hhalted⟩ := l.nextToken_eq
  rw [h.tokens_eq, h.error?_eq, ahead_drop] at hanswer
  rw [h.tokens_eq, List.tail_drop] at htokens
  refine ⟨hanswer, ?_, herror.trans h.error?_eq, hhalted.trans h.halted_eq⟩
  rw [htokens]
  unfold ahead
  by_cases hi : i < ts.length
  · rw [List.getElem?_eq_getElem hi]
    rfl
  · have hle : ts.length ≤ i := Nat.le_of_not_lt hi
    rw [List.drop_of_length_le (by omega), List.drop_of_length_le (by omega)]

/-- **One request.**  The answer is the one that is due at the position, and the position moves if
it hands a token out. -/
theorem At.ask (h : At ts error l i halted) (r : Request) :
    (l.ask r).1 = due (ahead ts error i) halted r ∧
      At ts error (l.ask r).2 (i + (l.ask r).1.handsOut.toNat)
        (halted || (l.ask r).1.halts) := by
  cases r with
  | peek =>
      obtain ⟨hanswer, hat⟩ := h.peek
      refine ⟨congrArg Answer.peek hanswer, ?_⟩
      simpa [Lexer.ask, Answer.handsOut, Answer.halts] using hat
  | nextToken =>
      obtain ⟨hanswer, hat⟩ := h.nextToken
      refine ⟨congrArg Answer.nextToken hanswer, ?_⟩
      simpa [Lexer.ask, Answer.halts, hanswer] using hat
  | isAtEnd =>
      obtain ⟨hanswer, hat⟩ := h.peek
      obtain ⟨hisAtEnd, hlexer⟩ := l.isAtEnd_eq
      rw [hanswer] at hisAtEnd
      rw [← hlexer] at hat
      refine ⟨congrArg Answer.isAtEnd hisAtEnd, ?_⟩
      simpa [Lexer.ask, Answer.handsOut, Answer.halts] using hat
  | next =>
      cases halted with
      | true =>
          have hnext := next_of_halted h.halted_eq
          have hanswer : l.ask .next = (.next none, l) := by
            unfold Lexer.ask
            rw [hnext]
            rfl
          rw [hanswer]
          exact ⟨rfl, h⟩
      | false =>
          obtain ⟨hanswer, hat⟩ := h.nextToken
          have hnext := next_eq h.halted_eq
          rw [hanswer] at hnext
          have hask : l.ask .next = (.next (itemOf (ahead ts error i)),
              { l.nextToken.2 with
                halted := l.nextToken.2.halted || !(ahead ts error i).isOk }) := by
            unfold Lexer.ask
            rw [hnext]
            rfl
          rw [hask, Answer.handsOut_next, Answer.halts_next]
          refine ⟨rfl, hat.tokens_eq, hat.error?_eq, ?_⟩
          rw [hat.halted_eq]

/-- **A run of requests.**  The position is the number of tokens handed out. -/
theorem At.asks (h : At ts error l i halted) (rs : List Request) :
    At ts error (l.asks rs).2 (i + (l.asks rs).1.countP (·.handsOut))
      (halted || (l.asks rs).1.any (·.halts)) := by
  induction rs generalizing l i halted with
  | nil => simpa [Lexer.asks] using h
  | cons r rs ih =>
      obtain ⟨-, hask⟩ := h.ask r
      have hrest := ih hask
      unfold Lexer.asks
      rw [List.countP_cons, List.any_cons, ← Bool.or_assoc]
      have hcount : i + (l.ask r).1.handsOut.toNat + ((l.ask r).2.asks rs).1.countP (·.handsOut) =
          i + (((l.ask r).2.asks rs).1.countP (·.handsOut) +
            if (l.ask r).1.handsOut then 1 else 0) := by
        cases (l.ask r).1.handsOut with
        | false => rfl
        | true => simp only [Bool.toNat_true, if_true]; omega
      rw [← hcount]
      exact hrest

end at_position

/-! ### One list of tokens -/

/-- Asking for the next token until there is none hands out the tokens, and an error unless the
source ends there. -/
inductive Drains : Lexer → List Token → Option LexicalError → Prop
  | ended {l l'} : l.nextToken = (.ok none, l') → Drains l [] none
  | failed {l l' e} : l.nextToken = (.error e, l') → Drains l [] (some e)
  | token {l l' t ts error} :
      l.nextToken = (.ok (some t), l') → Drains l' ts error → Drains l (t :: ts) error

theorem Drains.unique {l : Lexer} {ts ts' : List Token} {error error' : Option LexicalError}
    (h : l.Drains ts error) (h' : l.Drains ts' error') : ts = ts' ∧ error = error' := by
  induction h generalizing ts' with
  | ended hnext =>
      cases h' with
      | ended => exact ⟨rfl, rfl⟩
      | failed hnext' => rw [hnext] at hnext'; cases hnext'
      | token hnext' => rw [hnext] at hnext'; cases hnext'
  | failed hnext =>
      cases h' with
      | ended hnext' => rw [hnext] at hnext'; cases hnext'
      | failed hnext' => rw [hnext] at hnext'; cases hnext'; exact ⟨rfl, rfl⟩
      | token hnext' => rw [hnext] at hnext'; cases hnext'
  | token hnext _ ih =>
      cases h' with
      | ended hnext' => rw [hnext] at hnext'; cases hnext'
      | failed hnext' => rw [hnext] at hnext'; cases hnext'
      | token hnext' h' =>
          rw [hnext] at hnext'
          cases hnext'
          obtain ⟨rfl, rfl⟩ := ih h'
          exact ⟨rfl, rfl⟩

theorem drains (l : Lexer) : l.Drains l.tokens l.error? := by
  generalize hts : l.tokens = ts
  induction ts generalizing l with
  | nil =>
      obtain ⟨hanswer, -⟩ := l.nextToken_eq
      rw [hts] at hanswer
      cases herror : l.error? with
      | none =>
          rw [herror] at hanswer
          exact .ended (Prod.ext hanswer rfl)
      | some e =>
          rw [herror] at hanswer
          exact .failed (Prod.ext hanswer rfl)
  | cons t ts ih =>
      obtain ⟨hanswer, htokens, herror, -⟩ := l.nextToken_eq
      rw [hts] at hanswer htokens
      have hrest := ih l.nextToken.2 htokens
      rw [herror] at hrest
      exact .token (Prod.ext hanswer rfl) hrest

theorem drains_ofSource (source : String) :
    (ofSource source).Drains (Lexed.ofSource source).tokens (Lexed.ofSource source).error? :=
  drains (ofSource source)

theorem ofSource_at (source : String) :
    At (Lexed.ofSource source).tokens (Lexed.ofSource source).error? (ofSource source) 0 false :=
  ⟨rfl, rfl, rfl⟩

/-- **A lexer reads one list of tokens, however it is asked.**  A fresh lexer that is asked for the
next token again and again hands out the tokens of the source and then, if there is one, the error
behind them.  After any requests, every request is answered with the token at the position that the
answers so far have moved to, or with that error or the end if there is no such token.  Only the
items of the sequence end for ever once an error was one of them. -/
theorem asks_due (source : String) :
    (∀ ts error, (ofSource source).Drains ts error ↔
      ts = (Lexed.ofSource source).tokens ∧ error = (Lexed.ofSource source).error?) ∧
    ∀ (rs : List Request) (r : Request),
      (((ofSource source).asks rs).2.ask r).1 =
        due (ahead (Lexed.ofSource source).tokens (Lexed.ofSource source).error?
            (((ofSource source).asks rs).1.countP (·.handsOut)))
          (((ofSource source).asks rs).1.any (·.halts)) r := by
  constructor
  · intro ts error
    constructor
    · intro h
      exact h.unique (drains_ofSource source)
    · rintro ⟨rfl, rfl⟩
      exact drains_ofSource source
  · intro rs r
    have hat := (ofSource_at source).asks rs
    rw [Nat.zero_add, Bool.false_or] at hat
    exact (hat.ask r).1

example : ((ofSource "a @").asks [.next, .isAtEnd, .next, .next, .peek]).1 =
    [.next (some (.ok (.variable "a"))), .isAtEnd (.error ⟨.unexpected '@', ⟨2, 1, 2⟩⟩),
      .next (some (.error ⟨.unexpected '@', ⟨2, 1, 2⟩⟩)), .next none,
      .peek (.error ⟨.unexpected '@', ⟨2, 1, 2⟩⟩)] := by
  decide +kernel

end Lexer

end ExprLang
