import ExprLang.Number.Basic
import ExprLang.Number.Decimal

/-! # Numbers as text

`Number.ofText?` reads a number: an optional sign, then a word for an infinity
or for `nan`, or digits with at most one point among them and an optional
exponent.  What it reads is rounded to the nearest number.

`Number.layOut` writes one with the fewest digits that read back.  A `Layout`
decides how the digits are set out; the two in use are `Layout.plain`, which
writes every digit position out, and `Layout.precise`, which always shows that
a number may have a fraction and writes very large and very small ones with an
exponent. -/

namespace ExprLang

namespace Number

/-! ### Reading -/

/-- The number nearest to a signed decimal. -/
def ofDecimal (negative : Bool) (d : Decimal) : Number :=
  match Magnitude.ofDecimal? d with
  | some m => .finite negative m
  | none => .infinite negative

/-- A leading sign, and what follows it. -/
def splitSign : List Char → Bool × List Char
  | '-' :: cs => (true, cs)
  | '+' :: cs => (false, cs)
  | cs => (false, cs)

/-- The digits after a leading point, and what follows them. -/
def splitFraction : List Char → List Char × List Char
  | '.' :: cs => (cs.takeWhile Char.isDigit, cs.dropWhile Char.isDigit)
  | cs => ([], cs)

/-- An exponent up to the end of the text; none at all counts as zero. -/
def exponent? : List Char → Option Int
  | [] => some 0
  | c :: cs =>
    let (negative, digits) := splitSign cs
    if (c = 'e' ∨ c = 'E') ∧ digits ≠ [] ∧ digits.all Char.isDigit then
      let n : Nat := Nat.ofDigitChars 10 digits 0
      some (if negative then -(n : Int) else n)
    else
      none

/-- A decimal without sign that takes up the whole text. -/
def decimal? (cs : List Char) : Option Decimal :=
  let whole := cs.takeWhile Char.isDigit
  let (fraction, rest) := splitFraction (cs.dropWhile Char.isDigit)
  if whole ++ fraction = [] then
    none
  else
    (exponent? rest).map fun e =>
      ⟨Nat.ofDigitChars 10 (whole ++ fraction) 0, e - fraction.length⟩

/-- The number that a text denotes, if it denotes one.  Words are read in either case. -/
def ofText? (text : String) : Option Number :=
  let (negative, body) := splitSign text.toList
  match String.ofList (body.map Char.toLower) with
  | "inf" | "infinity" => some (.infinite negative)
  | "nan" => some .nan
  | _ => (decimal? body).map (ofDecimal negative)

/-! ### Writing -/

/-- How the digits of a number are set out. -/
structure Layout where
  /-- A number without fraction digits ends in `.0`. -/
  keepsPoint : Bool
  /-- The least and the greatest place of the point at which a number is written without an
  exponent; `none` if no number has one. -/
  positional : Option (Int × Int)

namespace Layout

/-- Every position is written out, and a point only before fraction digits. -/
def plain : Layout := ⟨false, none⟩

/-- There always is a point or an exponent, the latter below `0.0001` and from `10 ^ 16` on. -/
def precise : Layout := ⟨true, some (-3, 16)⟩

/-- Digits with the point after the first `point` of them, zeros filling the gap. -/
def positionalDigits (layout : Layout) (digits : List Char) (point : Int) : List Char :=
  if point ≤ 0 then
    '0' :: '.' :: (List.replicate (-point).toNat '0' ++ digits)
  else if digits.length ≤ point.toNat then
    digits ++ List.replicate (point.toNat - digits.length) '0' ++
      if layout.keepsPoint then ['.', '0'] else []
  else
    digits.take point.toNat ++ '.' :: digits.drop point.toNat

/-- One digit before the point, the others behind it, and the exponent that goes with that. -/
def scientificDigits (digits : List Char) (point : Int) : List Char :=
  let mantissa :=
    match digits with
    | first :: second :: rest => first :: '.' :: second :: rest
    | ds => ds
  mantissa ++ 'e' :: (toString (point - 1)).toList

/-- A decimal set out. -/
def digits (layout : Layout) (d : Decimal) : List Char :=
  match layout.positional with
  | none => layout.positionalDigits d.digits d.point
  | some (least, greatest) =>
    if least ≤ d.point ∧ d.point ≤ greatest then
      layout.positionalDigits d.digits d.point
    else
      scientificDigits d.digits d.point

end Layout

/-- The number as text, in the fewest digits that read back. -/
def layOut (layout : Layout) : Number → List Char
  | .nan => "NaN".toList
  | .infinite s => (if s then ['-'] else []) ++ "inf".toList
  | .finite s m => (if s then ['-'] else []) ++ layout.digits m.shortest

/-- The number for a reader: `1`, `-0`, `0.00001`. -/
def display (x : Number) : String := String.ofList (x.layOut .plain)

/-- The number for a closer look: `1.0`, `-0.0`, `1e-5`. -/
def debug (x : Number) : String := String.ofList (x.layOut .precise)

end Number

end ExprLang
