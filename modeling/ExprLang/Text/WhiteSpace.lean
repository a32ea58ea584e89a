import ExprLang.Text.CodePoints

/-! # White space and lines

`isWhiteSpace` is the Unicode property White_Space.  `splitLines` cuts a text
into lines, each with the terminator that ends it: a line feed, a carriage
return with or without one, or one of the other line and page separators of
Unicode. -/

namespace ExprLang

/-- The Unicode property White_Space. -/
def CodePoints.whiteSpace : CodePoints :=
  ⟨#[(0x9, 0xd), (0x20, 0x20), (0x85, 0x85), (0xa0, 0xa0), (0x1680, 0x1680), (0x2000, 0x200a),
    (0x2028, 0x2029), (0x202f, 0x202f), (0x205f, 0x205f), (0x3000, 0x3000)]⟩

/-- The character has the property White_Space. -/
def isWhiteSpace (c : Char) : Bool := CodePoints.whiteSpace.contains c

/-- The character ends a line by itself. -/
def isLineTerminator (c : Char) : Bool :=
  c = '\n' || c = '\r' || c = '\x0b' || c = '\x0c' || c = '\u0085' || c = '\u2028' || c = '\u2029'

/-- The text without the white space at its end. -/
def trimRight (cs : List Char) : List Char := (cs.reverse.dropWhile isWhiteSpace).reverse

/-- The character goes in front of the first line. -/
def consFirst (c : Char) : List (List Char) → List (List Char)
  | [] => [[c]]
  | line :: lines => (c :: line) :: lines

/-- The lines of a text with their terminators.  A terminator at the very end starts no further
line. -/
def splitLines : List Char → List (List Char)
  | [] => []
  | '\r' :: '\n' :: cs => ['\r', '\n'] :: splitLines cs
  | c :: cs => if isLineTerminator c then [c] :: splitLines cs else consFirst c (splitLines cs)

end ExprLang
