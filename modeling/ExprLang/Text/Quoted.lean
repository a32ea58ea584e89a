import ExprLang.Text.Printable

/-! # Quoted text

A quoted text stands between two delimiters, and only printable characters
stand for themselves in it.  The delimiter and the backslash get a backslash in
front, four controls have an escape of their own, and everything else is
written as its code point in base sixteen.  The main definitions are
`quoteString` for strings and `quoteChar` for single
characters. -/

namespace ExprLang

/-- How one character is written between two delimiters. -/
def escape (delimiter : Char) : Char → List Char
  | '\\' => ['\\', '\\']
  | '\n' => ['\\', 'n']
  | '\r' => ['\\', 'r']
  | '\t' => ['\\', 't']
  | '\x00' => ['\\', '0']
  | c =>
    if c = delimiter then ['\\', c]
    else if isPrintable c then [c]
    else ['\\', 'u', '\x7b'] ++ Nat.toDigits 16 c.toNat ++ ['\x7d']

/-- The characters between two delimiters. -/
def quote (delimiter : Char) (cs : List Char) : List Char :=
  delimiter :: cs.flatMap (escape delimiter) ++ [delimiter]

/-- A string in double quotes. -/
def quoteString (s : String) : String := String.ofList (quote '"' s.toList)

/-- A character in single quotes. -/
def quoteChar (c : Char) : String := String.ofList (quote '\'' [c])

end ExprLang
