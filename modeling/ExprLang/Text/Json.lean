/-! # JSON strings

`jsonString` writes a text as a JSON string: quote and backslash get a
backslash in front, three controls have an escape of their own, the remaining
controls are written with four digits in base sixteen, and all other characters
stand for themselves. -/

namespace ExprLang

/-- The digits of `n` in base sixteen, at least four of them. -/
def hexFour (n : Nat) : List Char :=
  let ds := Nat.toDigits 16 n
  List.replicate (4 - ds.length) '0' ++ ds

/-- How one character is written in a JSON string. -/
def jsonEscape : Char → List Char
  | '"' => ['\\', '"']
  | '\\' => ['\\', '\\']
  | '\n' => ['\\', 'n']
  | '\r' => ['\\', 'r']
  | '\t' => ['\\', 't']
  | c => if c.toNat < 0x20 then ['\\', 'u'] ++ hexFour c.toNat else [c]

/-- A text as a JSON string. -/
def jsonString (s : String) : String :=
  String.ofList ('"' :: s.toList.flatMap jsonEscape ++ ['"'])

end ExprLang
