/-! # Locations in a source text

A location counts bytes, lines and columns.  `Location.after` moves it over a
stretch of text one character at a time, so the location of any point of a
source is `Location.start.after` of the characters before it.

Lines and columns are counted in 32 bits, and the count goes round after the
last of these numbers. -/

namespace ExprLang

/-- The number that has been counted. -/
instance numberOfCount : Coe UInt32 Nat := ⟨UInt32.toNat⟩

/-- What a number is counted as. -/
instance countOfNumber : Coe Nat UInt32 := ⟨UInt32.ofNat⟩

/-- A point in a source text. -/
structure Location where
  /-- Bytes before the point, the text being encoded in UTF-8. -/
  offset : Nat
  /-- Lines are counted from one and end at a line feed. -/
  line : UInt32
  /-- Characters since the line began. -/
  column : UInt32
deriving DecidableEq, Repr

namespace Location

/-- The beginning of every source. -/
def start : Location := ⟨0, 1, 0⟩

/-- The point behind one more character. -/
def next (l : Location) (c : Char) : Location :=
  if c = '\n' then
    ⟨l.offset + c.utf8Size, l.line + 1, 0⟩
  else
    ⟨l.offset + c.utf8Size, l.line, l.column + 1⟩

/-- The point behind a stretch of text. -/
def after (l : Location) (cs : List Char) : Location := cs.foldl next l

theorem after_append (l : Location) (cs ds : List Char) :
    l.after (cs ++ ds) = (l.after cs).after ds := by
  simp [after, List.foldl_append]

/-- Line and column, for a reader. -/
def display (l : Location) : String := s!"{l.line}:{l.column}"

/-- All three counts, for a closer look. -/
def debug (l : Location) : String :=
  s!"Location \x7b offset: {l.offset}, line: {l.line}, column: {l.column} \x7d"

end Location

end ExprLang
