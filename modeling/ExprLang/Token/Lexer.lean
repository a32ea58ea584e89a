import ExprLang.Token.Read

/-! # Lexers

A `Lexer` hands out the tokens of a source one at a time and can look one ahead.
An error stays ahead of it: every later call meets it again, save that the
sequence of items (`Lexer.next`) ends with it. -/

namespace ExprLang

/-- A source that is being read token by token. -/
structure Lexer where
  cursor : Cursor
  /-- The token that has been looked at and not been handed out. -/
  lookahead : Option Token
  /-- An error has been handed out as an item. -/
  halted : Bool

namespace Lexer

/-- A lexer at the beginning of a source. -/
def ofSource (source : String) : Lexer := ⟨.ofSource source, none, false⟩

/-- The whole text. -/
def source (l : Lexer) : String := l.cursor.source

/-- The location of the cursor, which stands behind the token looked at last. -/
def location (l : Lexer) : Location := l.cursor.location

/-- The next token, which stays where it is; there is none at the end. -/
def peek (l : Lexer) : Except LexicalError (Option Token) × Lexer :=
  match l.lookahead with
  | some t => (.ok (some t), l)
  | none =>
    match l.cursor.readToken with
    | (.ok t, c) => (.ok t, { l with cursor := c, lookahead := t })
    | (.error e, c) => (.error e, { l with cursor := c })

/-- Hands the next token out; there is none at the end. -/
def nextToken (l : Lexer) : Except LexicalError (Option Token) × Lexer :=
  match l.lookahead with
  | some t => (.ok (some t), { l with lookahead := none })
  | none =>
    match l.cursor.readToken with
    | (answer, c) => (answer, { l with cursor := c })

/-- There is no next token. -/
def isAtEnd (l : Lexer) : Except LexicalError Bool × Lexer :=
  match l.peek with
  | (.ok t, l) => (.ok t.isNone, l)
  | (.error e, l) => (.error e, l)

/-- The next item of the sequence of tokens, which ends at the end of the source or after an
error. -/
def next (l : Lexer) : Option (Except LexicalError Token) × Lexer :=
  if l.halted then
    (none, l)
  else
    match l.nextToken with
    | (.ok none, l) => (none, l)
    | (.ok (some t), l) => (some (.ok t), l)
    | (.error e, l) => (some (.error e), { l with halted := true })

end Lexer

end ExprLang
