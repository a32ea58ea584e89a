import ExprLang.Parser.Error

/-! # Steps of a parser

A construct is read off the front of a list of tokens.  A `Step` is what comes
of it: a value and the tokens behind it, of which there are fewer than a bound,
or a failure.  With the number of tokens as its bound a step has used at least
one of them, so a parser that goes on behind its steps ends. -/

namespace ExprLang

/-- A construct that could not be read. -/
structure ParseFailure where
  fault : SyntaxFault
  /-- The tokens from the offending one on; none if the fault is at the end. -/
  offending : List Token
  /-- The tokens that are left: those from the offending one on, or those behind it. -/
  rest : List Token

/-- What comes of reading a construct. -/
inductive Step (α : Type) (bound : Nat) where
  | ok (value : α) (rest : List Token) (shorter : rest.length < bound)
  | fail (failure : ParseFailure)

theorem length_lt_cons (t : Token) (rest : List Token) : rest.length < (t :: rest).length :=
  Nat.lt_succ_self _

namespace Step

variable {α β : Type} {m n : Nat}

/-- The step under a greater bound. -/
def weaken (h : m ≤ n) : Step α m → Step α n
  | .ok a rest shorter => .ok a rest (Nat.lt_of_lt_of_le shorter h)
  | .fail failure => .fail failure

/-- The step under a bound that is greater by one. -/
def loose (s : Step α n) : Step α (n + 1) := s.weaken (Nat.le_succ n)

/-- Goes on behind the construct, perhaps without using more tokens. -/
def bind (s : Step α n)
    (next : (a : α) → (rest : List Token) → rest.length < n → Step β (rest.length + 1)) :
    Step β n :=
  match s with
  | .ok a rest shorter => (next a rest shorter).weaken shorter
  | .fail failure => .fail failure

/-- The step with another value. -/
def map (f : α → β) : Step α n → Step β n
  | .ok a rest shorter => .ok (f a) rest shorter
  | .fail failure => .fail failure

/-- A value with the given tokens behind it. -/
def leaving (a : α) (rest : List Token) : Step α (rest.length + 1) :=
  .ok a rest (Nat.lt_succ_self _)

/-- A token is in the way and stays where it is. -/
def reject (fault : SyntaxFault) (ts : List Token) : Step α n := .fail ⟨fault, ts, ts⟩

/-- A token is in the way and is used up. -/
def consume (fault : SyntaxFault) (t : Token) (rest : List Token) : Step α n :=
  .fail ⟨fault, t :: rest, rest⟩

/-- A fault at the end of the tokens.  If the source does not end there, that is the fault. -/
def atEnd (ending : Option LexicalFault) (fault : SyntaxFault) : Step α n :=
  .fail ⟨(ending.map .lexical).getD fault, [], []⟩

/-- A value at the end of the tokens, provided that the source ends there too. -/
def done (ending : Option LexicalFault) (a : α) : Step α 1 :=
  match ending with
  | none => .leaving a []
  | some fault => .reject (.lexical fault) []

/-! ### Steps without their bounds -/

/-- What comes of the construct, and nothing about how many tokens that took. -/
def toExcept : Step α n → Except ParseFailure (α × List Token)
  | .ok a rest _ => .ok (a, rest)
  | .fail failure => .error failure

@[simp] theorem toExcept_weaken (h : m ≤ n) (s : Step α m) :
    (s.weaken h).toExcept = s.toExcept := by
  cases s <;> rfl

@[simp] theorem toExcept_loose (s : Step α n) : s.loose.toExcept = s.toExcept :=
  toExcept_weaken _ s

@[simp] theorem toExcept_map (f : α → β) (s : Step α n) :
    (s.map f).toExcept = s.toExcept.map fun p => (f p.1, p.2) := by
  cases s <;> rfl

@[simp] theorem toExcept_leaving (a : α) (rest : List Token) :
    (leaving a rest).toExcept = .ok (a, rest) := rfl

@[simp] theorem toExcept_reject (fault : SyntaxFault) (ts : List Token) :
    (reject fault ts : Step α n).toExcept = .error ⟨fault, ts, ts⟩ := rfl

@[simp] theorem toExcept_consume (fault : SyntaxFault) (t : Token) (rest : List Token) :
    (consume fault t rest : Step α n).toExcept = .error ⟨fault, t :: rest, rest⟩ := rfl

@[simp] theorem toExcept_atEnd (ending : Option LexicalFault) (fault : SyntaxFault) :
    (atEnd ending fault : Step α n).toExcept =
      .error ⟨(ending.map .lexical).getD fault, [], []⟩ := rfl

@[simp] theorem toExcept_done (ending : Option LexicalFault) (a : α) :
    (done ending a).toExcept =
      match ending with
      | none => .ok (a, [])
      | some fault => .error ⟨.lexical fault, [], []⟩ := by
  cases ending <;> rfl

theorem toExcept_bind (s : Step α n)
    (next : (a : α) → (rest : List Token) → Step β (rest.length + 1)) :
    (s.bind fun a rest _ => next a rest).toExcept =
      s.toExcept.bind fun p => (next p.1 p.2).toExcept := by
  cases s with
  | ok a rest shorter => exact toExcept_weaken shorter _
  | fail failure => rfl

end Step

end ExprLang
