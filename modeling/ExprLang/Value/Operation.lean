import ExprLang.Value.Error

/-! # Operations on values

The binary operators, on values that have been computed.  Numbers are added and
compared with numbers, strings with strings, truth values are compared with
truth values, and everything can be tested for equality.  Only `false` itself
counts as false. -/

namespace ExprLang

namespace Value

/-! ### Logic -/

/-- The value is `false`. -/
def isFalse : Value → Bool
  | .boolean false => true
  | _ => false

/-- `false` if `a` is, else `b`. -/
def logicalAnd (a b : Value) : Value := if a.isFalse then .boolean false else b

/-- `b` if `a` is `false`, else `a`. -/
def logicalOr (a b : Value) : Value := if a.isFalse then b else a

/-! ### Arithmetic -/

/-- The result of an operation on two numbers. -/
def onNumbers (f : Number → Number → Except EvalError Value) (a b : Value) :
    Except EvalError Value :=
  match a, b with
  | .number x, .number y => f x y
  | _, _ => .error (.nonNumerics a b)

/-- The sum of numbers; one string behind the other. -/
def add (a b : Value) : Except EvalError Value :=
  match a, b with
  | .number x, .number y => .ok (.number (x + y))
  | .string s, .string t => .ok (.string (s ++ t))
  | _, _ => .error (.nonAddable a b)

/-- The difference of two numbers. -/
def subtract : Value → Value → Except EvalError Value :=
  onNumbers fun x y => .ok (.number (x - y))

/-- The product of two numbers. -/
def multiply : Value → Value → Except EvalError Value :=
  onNumbers fun x y => .ok (.number (x * y))

/-- The quotient of two numbers; zero is no divisor. -/
def divide : Value → Value → Except EvalError Value :=
  onNumbers fun x y => if y.isZero then .error .divideByZero else .ok (.number (x / y))

/-- The remainder of two numbers; zero is no divisor. -/
def remainder : Value → Value → Except EvalError Value :=
  onNumbers fun x y => if y.isZero then .error .divideByZero else .ok (.number (x % y))

/-! ### Order -/

/-- How `a` lies to `b`, which is nothing where a number is `nan`.  Strings are ordered by their
code points, and `false` comes before `true`. -/
def compare (a b : Value) : Except EvalError (Option Ordering) :=
  match a, b with
  | .number x, .number y => .ok (x.compare? y)
  | .string s, .string t => .ok (some (Ord.compare s t))
  | .boolean p, .boolean q => .ok (some (Ord.compare p q))
  | _, _ => .error (.nonComparable a b)

/-- Whether the order of two values is among the given ones. -/
def compareIs (orders : List Ordering) (a b : Value) : Except EvalError Value :=
  (a.compare b).map fun order => .boolean (order.any orders.contains)

/-- `a` lies before `b`. -/
def less : Value → Value → Except EvalError Value := compareIs [.lt]

/-- `a` lies before `b` or is equal to it. -/
def lessEqual : Value → Value → Except EvalError Value := compareIs [.lt, .eq]

/-- `a` lies behind `b`. -/
def greater : Value → Value → Except EvalError Value := compareIs [.gt]

/-- `a` lies behind `b` or is equal to it. -/
def greaterEqual : Value → Value → Except EvalError Value := compareIs [.gt, .eq]

/-! ### Equality -/

/-- Values of different kinds differ, and a function is equal to itself only. -/
def isEqual : Value → Value → Bool
  | .number x, .number y => x.eqv y
  | .string s, .string t => s = t
  | .boolean p, .boolean q => p = q
  | .function f, .function g => f.id = g.id
  | .undefined, .undefined => true
  | _, _ => false

/-- The values are not equal. -/
def isNotEqual (a b : Value) : Bool := !a.isEqual b

end Value

/-- The value that an operator computes from two. -/
def BinaryOperator.compute : BinaryOperator → Value → Value → Except EvalError Value
  | .or, a, b => .ok (a.logicalOr b)
  | .and, a, b => .ok (a.logicalAnd b)
  | .greater, a, b => a.greater b
  | .less, a, b => a.less b
  | .lessEqual, a, b => a.lessEqual b
  | .greaterEqual, a, b => a.greaterEqual b
  | .equal, a, b => .ok (.boolean (a.isEqual b))
  | .notEqual, a, b => .ok (.boolean (a.isNotEqual b))
  | .add, a, b => a.add b
  | .subtract, a, b => a.subtract b
  | .multiply, a, b => a.multiply b
  | .divide, a, b => a.divide b
  | .remainder, a, b => a.remainder b

end ExprLang
