import ExprLang.Text.WhiteSpace
import ExprLang.Text.Width

/-! # Spots in a source

A report shows one line of a source and points at one of its characters.
`Span.find` gives the bytes of the character at a byte offset; an offset beyond
the source counts as its end.  `Spot.find` looks up the line and the column of
such a span.  The end of the source belongs to the last line. -/

namespace ExprLang

/-- A range of bytes of a source, the text being encoded in UTF-8. -/
structure Span where
  start : Nat
  stop : Nat
deriving DecidableEq, Repr

/-- Bytes of the character that begins at a byte offset of a text; none where no character
begins. -/
def widthAt : (offset : Nat) → List Char → Nat
  | _, [] => 0
  | offset, c :: cs =>
    if offset = 0 then c.utf8Size
    else if offset < c.utf8Size then 0
    else widthAt (offset - c.utf8Size) cs

/-- The bytes of the character at a byte offset of a source, none at its end. -/
def Span.find (source : String) (offset : Nat) : Span :=
  let start := min offset source.utf8ByteSize
  ⟨start, start + widthAt start source.toList⟩

/-- A character of a source, or its end, in its line. -/
structure Spot where
  /-- The number of the line, counted from one. -/
  number : Nat
  /-- Characters of the line before the spot. -/
  column : Nat
  /-- The line, without white space at its end. -/
  text : List Char
  /-- There is a character; otherwise the spot is the end of the source. -/
  isCharacter : Bool

/-- Bytes of a text in UTF-8. -/
def byteLength (cs : List Char) : Nat := cs.foldr (fun c n => c.utf8Size + n) 0

/-- Characters in the first `offset` bytes of a text. -/
def columnOf (offset : Nat) : List Char → Nat
  | [] => 0
  | c :: cs => if offset = 0 then 0 else columnOf (offset - c.utf8Size) cs + 1

namespace Spot

/-- The spot at a byte offset of the given lines, the first of which has the given number. -/
def inLines (isCharacter : Bool) (number offset : Nat) : List (List Char) → Spot
  | [] => ⟨number, 0, [], isCharacter⟩
  | line :: lines =>
    let size := byteLength line
    if offset < size ∨ lines = [] then
      ⟨number, columnOf offset line, trimRight line, isCharacter⟩
    else
      inLines isCharacter (number + 1) (offset - size) lines

/-- The spot that a span of a source covers. -/
def find (source : String) (span : Span) : Spot :=
  inLines (decide (span.start < span.stop)) 1 span.start (splitLines source.toList)

/-- Columns that the character at an index of a line takes.  A tab reaches to the next multiple of
four, and behind the line every index takes one column. -/
def width (s : Spot) (i : Nat) : Nat :=
  match s.text[i]? with
  | none => 1
  | some '\t' => (i / 4 + 1) * 4 - i
  | some c => if isWhiteSpace c then 1 else columns c

end Spot

end ExprLang
