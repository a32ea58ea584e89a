import ExprLang.Source.LexicalError

/-! # Cursors

A `Cursor` stands at a point of a source and moves on one character at a time.
It keeps the characters that are still ahead and the location that belongs to
those behind it. -/

namespace ExprLang

/-- A point of a source that is being read. -/
structure Cursor where
  /-- The whole text. -/
  source : String
  /-- The characters ahead. -/
  rest : List Char
  /-- Where the cursor stands. -/
  location : Location

namespace Cursor

/-- A cursor at the beginning of a source. -/
def ofSource (source : String) : Cursor := ⟨source, source.toList, .start⟩

/-- The next character; there is none at the end. -/
def peek (c : Cursor) : Option Char := c.rest.head?

/-- Nothing is ahead. -/
def isAtEnd (c : Cursor) : Bool := c.rest.isEmpty

/-- The cursor behind `text`, with `rest` ahead of it. -/
def pass (c : Cursor) (text rest : List Char) : Cursor :=
  { c with rest := rest, location := c.location.after text }

/-- Reads the next character. -/
def advance (c : Cursor) : Option Char × Cursor :=
  match c.rest with
  | [] => (none, c)
  | x :: xs => (some x, c.pass [x] xs)

/-- The error that a fault noticed here makes. -/
def fail (c : Cursor) (fault : LexicalFault) : LexicalError := ⟨fault, c.location⟩

end Cursor

end ExprLang
