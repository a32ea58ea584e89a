import ExprLang.Source.Cursor
import ExprLang.Token.Scan

/-! # Reading one token

`Cursor.readToken` moves a cursor over blanks and comments and over the token
behind them.  There is less ahead of the cursor afterwards
(`Cursor.readToken_length_lt`). -/

namespace ExprLang

/-- Passes blanks and comments and the token behind them.  There is no token at the end of the
source.  A character with which none begins is an error and stays ahead of the cursor. -/
def Cursor.readToken (c : Cursor) : Except LexicalError (Option Token) × Cursor :=
  let front := splitLayout false c.rest
  let c := c.pass front.1 front.2
  match scan front.2 with
  | .ending => (.ok none, c)
  | .token t text rest => (.ok (some t), c.pass text rest)
  | .invalid fault text rest => (.error ((c.pass text rest).fail fault), c.pass text rest)

theorem Cursor.readToken_length_lt {c c' : Cursor} {t : Token}
    (h : c.readToken = (.ok (some t), c')) : c'.rest.length < c.rest.length := by
  have hsplit := congrArg List.length (splitLayout_append false c.rest)
  rw [List.length_append] at hsplit
  simp only [readToken] at h
  split at h
  · simp at h
  · next hscan =>
    have := Scan.token_length_lt hscan
    rw [Prod.mk.injEq] at h
    obtain ⟨-, rfl⟩ := h
    simp only [pass]
    omega
  · simp at h

end ExprLang
