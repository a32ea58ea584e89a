import ExprLang.Token.Read

/-! # Sources cut into tokens

`Lexed.ofSource` reads all tokens of a source: each with the location it stops
at, and at the end how and where the text ended. -/

namespace ExprLang

/-- A token and the location right behind it. -/
structure Lexeme where
  token : Token
  stop : Location
deriving DecidableEq

/-- A source cut into tokens. -/
structure Lexed where
  /-- The whole text. -/
  source : String
  lexemes : List Lexeme
  /-- Where the reading ended. -/
  ending : Location
  /-- The fault that ended it, unless that was the end of the source. -/
  fault : Option LexicalFault

/-- The tokens ahead of a cursor, where the reading ended and the fault that ended it. -/
def Cursor.lexemes (c : Cursor) : List Lexeme × Location × Option LexicalFault :=
  match _h : c.readToken with
  | (.ok none, c') => ([], c'.location, none)
  | (.ok (some t), c') =>
    let (ls, ending, fault) := c'.lexemes
    (⟨t, c'.location⟩ :: ls, ending, fault)
  | (.error e, _) => ([], e.location, some e.fault)
termination_by c.rest.length
decreasing_by exact Cursor.readToken_length_lt _h

namespace Lexed

/-- All tokens of a source. -/
def ofSource (source : String) : Lexed :=
  let (lexemes, ending, fault) := (Cursor.ofSource source).lexemes
  ⟨source, lexemes, ending, fault⟩

/-- The tokens without their locations. -/
def tokens (l : Lexed) : List Token := l.lexemes.map (·.token)

/-- The lexical error that ended the reading. -/
def error? (l : Lexed) : Option LexicalError := l.fault.map (⟨·, l.ending⟩)

end Lexed

end ExprLang
