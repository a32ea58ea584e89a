import ExprLang.Number.Magnitude

/-! # Numbers and their arithmetic

`Number` is the one numeric type of the language: a signed magnitude, an
infinity, or the value `nan` that is no number.  There are two zeros.

Every operation computes the exact result on units first and rounds it once,
with `Number.ofQuotient`.  `Number.position?` places a number on the line of
integers, infinities just beyond the last magnitude; comparison and equality
are those of the positions, so the two zeros are equal and `nan` is comparable
with nothing. -/

namespace ExprLang

/-- A binary64 number. -/
inductive Number where
  /-- The result of an operation that has none. -/
  | nan
  /-- Beyond every magnitude. -/
  | infinite (negative : Bool)
  /-- A magnitude with a sign, which zero has too. -/
  | finite (negative : Bool) (magnitude : Magnitude)
deriving DecidableEq

namespace Number

/-- Zero with the plus sign. -/
def zero : Number := .finite false .zero

instance : Inhabited Number := ⟨zero⟩

/-- The number nearest to `n / d` units with the given sign; above the greatest magnitude it is
infinite. -/
def ofQuotient (negative : Bool) (n d : Nat) : Number :=
  match Magnitude.round? n d with
  | some m => .finite negative m
  | none => .infinite negative

/-- The units of a signed magnitude. -/
def signedUnits (negative : Bool) (m : Magnitude) : Int :=
  if negative then -(m.units : Int) else m.units

/-! ### Arithmetic -/

/-- The number with the other sign. -/
def neg : Number → Number
  | .nan => .nan
  | .infinite s => .infinite (!s)
  | .finite s m => .finite (!s) m

/-- The sum.  Where it is zero it is negative only if both numbers are. -/
def add : Number → Number → Number
  | .nan, _ => .nan
  | _, .nan => .nan
  | .infinite s, .infinite t => if s = t then .infinite s else .nan
  | .infinite s, .finite _ _ => .infinite s
  | .finite _ _, .infinite t => .infinite t
  | .finite s a, .finite t b =>
    let sum := signedUnits s a + signedUnits t b
    if sum = 0 then .finite (s && t) .zero else ofQuotient (decide (sum < 0)) sum.natAbs 1

/-- The difference. -/
def sub (x y : Number) : Number := add x y.neg

/-- The product; zero times infinity is `nan`. -/
def mul : Number → Number → Number
  | .nan, _ => .nan
  | _, .nan => .nan
  | .infinite s, .infinite t => .infinite (s != t)
  | .infinite s, .finite t b => if b.units = 0 then .nan else .infinite (s != t)
  | .finite s a, .infinite t => if a.units = 0 then .nan else .infinite (s != t)
  | .finite s a, .finite t b => ofQuotient (s != t) (a.units * b.units) Magnitude.one

/-- The quotient; of two zeros and of two infinities it is `nan`. -/
def div : Number → Number → Number
  | .nan, _ => .nan
  | _, .nan => .nan
  | .infinite _, .infinite _ => .nan
  | .infinite s, .finite t _ => .infinite (s != t)
  | .finite s _, .infinite t => .finite (s != t) .zero
  | .finite s a, .finite t b =>
    if b.units = 0 then
      if a.units = 0 then .nan else .infinite (s != t)
    else
      ofQuotient (s != t) (a.units * Magnitude.one) b.units

/-- The remainder of the division that rounds the quotient toward zero; it has the sign of the
dividend. -/
def rem : Number → Number → Number
  | .nan, _ => .nan
  | _, .nan => .nan
  | .infinite _, _ => .nan
  | .finite s a, .infinite _ => .finite s a
  | .finite s a, .finite _ b =>
    if b.units = 0 then .nan else ofQuotient s (a.units % b.units) 1

instance : Neg Number := ⟨neg⟩
instance : Add Number := ⟨add⟩
instance : Sub Number := ⟨sub⟩
instance : Mul Number := ⟨mul⟩
instance : Div Number := ⟨div⟩
instance : Mod Number := ⟨rem⟩

/-! ### Order -/

/-- The place just beyond the last magnitude. -/
def beyond : Nat := 1 <<< 2098

/-- The place of a number on the line of units, infinities just beyond the last magnitude;
`nan` has none. -/
def position? : Number → Option Int
  | .nan => none
  | .infinite s => some (if s then -(beyond : Int) else beyond)
  | .finite s m => some (signedUnits s m)

/-- How `x` lies to `y`; `none` if one of them is `nan`. -/
def compare? (x y : Number) : Option Ordering :=
  match x.position?, y.position? with
  | some a, some b => some (compare a b)
  | _, _ => none

/-- Equality of positions: the two zeros are equal and `nan` equals nothing. -/
def eqv (x y : Number) : Bool := x.compare? y == some .eq

/-- Either zero. -/
def isZero (x : Number) : Bool := x.position? == some 0

end Number

end ExprLang
