import ExprLang.Source.LexicalError
import ExprLang.Token.Basic

/-! # Cutting tokens off a text

`splitLayout` cuts off the blanks and comments at the front of a text and
`scan` the token behind them.  Both say which characters they took and which
are left.  A token takes as many characters as it can, and what it takes
together with what it leaves is the text (`Scan.token_append`), so a text gets
shorter with every token (`Scan.token_length_lt`). -/

namespace ExprLang

/-! ### Classes of characters -/

/-- Blanks stand between tokens. -/
def isBlank (c : Char) : Bool := c = ' ' || c = '\t' || c = '\n'

/-- Punctuation marks are tokens by themselves. -/
def isPunctuation (c : Char) : Bool := [',', ';', '(', ')', '\x7b', '\x7d', '[', ']'].contains c

/-- Operators are made of these. -/
def isOperatorChar (c : Char) : Bool :=
  ['+', '-', '*', '/', '=', '%', '|', '&', '<', '>', '!'].contains c

/-- Words begin with a small letter. -/
def isWordStart (c : Char) : Bool := c.isLower

/-- Words go on with letters, digits and three marks. -/
def isWordChar (c : Char) : Bool := c.isAlphanum || c = '-' || c = '?' || c = '!'

/-! ### Pieces of a text -/

/-- Cuts off blanks and comments.  A comment runs from `#` through the end of its line; `inComment`
says whether the text begins inside one. -/
def splitLayout (inComment : Bool) : List Char → List Char × List Char
  | [] => ([], [])
  | c :: cs =>
    if inComment then
      let (layout, rest) := splitLayout (c != '\n') cs
      (c :: layout, rest)
    else if isBlank c || c = '#' then
      let (layout, rest) := splitLayout (c = '#') cs
      (c :: layout, rest)
    else
      ([], c :: cs)

/-- Cuts off digits with at most one point among them. -/
def splitNumber (cs : List Char) : List Char × List Char :=
  let whole := cs.takeWhile Char.isDigit
  match cs.dropWhile Char.isDigit with
  | '.' :: rest => (whole ++ '.' :: rest.takeWhile Char.isDigit, rest.dropWhile Char.isDigit)
  | rest => (whole, rest)

/-- The inside of a string literal: the characters it means, those it is written with, and what
follows. -/
structure StringBody where
  value : List Char
  text : List Char
  rest : List Char

/-- Cuts off the inside of a string literal with its closing quote.  A backslash makes the next
character stand for itself, and a literal that is not closed runs to the end; `escaped` says whether
a backslash came just before. -/
def splitString (escaped : Bool) : List Char → StringBody
  | [] => ⟨[], [], []⟩
  | c :: cs =>
    if !escaped && c = '"' then
      ⟨[], [c], cs⟩
    else if !escaped && c = '\\' then
      let body := splitString true cs
      { body with text := c :: body.text }
    else
      let body := splitString false cs
      { body with value := c :: body.value, text := c :: body.text }

/-! ### Tokens -/

/-- What stands at the front of a text. -/
inductive Scan where
  /-- Nothing: the text has ended. -/
  | ending
  /-- A token, written with `text`. -/
  | token (token : Token) (text rest : List Char)
  /-- No token.  The fault shows behind `text`. -/
  | invalid (fault : LexicalFault) (text rest : List Char)

/-- Cuts off one token; the text is taken to begin with no blank and no comment. -/
def scan : List Char → Scan
  | [] => .ending
  | c :: cs =>
    if c = '"' then
      let body := splitString false cs
      .token (.string (String.ofList body.value)) (c :: body.text) body.rest
    else if c.isDigit then
      let (text, rest) := splitNumber (c :: cs)
      match Number.ofText? (String.ofList text) with
      | some x => .token (.number x) text rest
      | none => .invalid (.invalidNumber (String.ofList text)) text rest
    else if isWordStart c then
      let word := c :: cs.takeWhile isWordChar
      .token (.ofWord (String.ofList word)) word (cs.dropWhile isWordChar)
    else if isPunctuation c then
      .token (.punctuation c) [c] cs
    else if isOperatorChar c then
      let text := c :: cs.takeWhile isOperatorChar
      .token (.operator (String.ofList text)) text (cs.dropWhile isOperatorChar)
    else
      .invalid (.unexpected c) [] (c :: cs)

/-! ### Nothing is lost -/

theorem splitLayout_append (inComment : Bool) (cs : List Char) :
    (splitLayout inComment cs).1 ++ (splitLayout inComment cs).2 = cs := by
  fun_induction splitLayout inComment cs <;> simp_all

theorem splitNumber_append (cs : List Char) :
    (splitNumber cs).1 ++ (splitNumber cs).2 = cs := by
  have h := List.takeWhile_append_dropWhile (p := Char.isDigit) (l := cs)
  unfold splitNumber
  split
  · next rest hrest =>
    rw [hrest] at h
    simp [List.takeWhile_append_dropWhile, h]
  · exact h

theorem splitString_append (escaped : Bool) (cs : List Char) :
    (splitString escaped cs).text ++ (splitString escaped cs).rest = cs := by
  fun_induction splitString escaped cs <;> simp_all +zetaDelta

/-- The text of a number begins with its first digit. -/
theorem splitNumber_ne_nil {c : Char} {cs : List Char} (h : c.isDigit) :
    (splitNumber (c :: cs)).1 ≠ [] := by
  unfold splitNumber
  split <;> simp [h]

theorem Scan.token_append {cs text rest : List Char} {t : Token}
    (h : scan cs = .token t text rest) : text ++ rest = cs ∧ text ≠ [] := by
  revert h
  fun_cases scan cs with
  | case1 => simp
  | case2 cs body =>
    rw [Scan.token.injEq]
    rintro ⟨-, rfl, rfl⟩
    simp [body, splitString_append]
  | case3 c cs _ hd text' rest' hsplit x hx =>
    rw [Scan.token.injEq]
    rintro ⟨-, rfl, rfl⟩
    have happ := splitNumber_append (c :: cs)
    have hne := @splitNumber_ne_nil c cs hd
    rw [hsplit] at happ hne
    exact ⟨happ, hne⟩
  | case4 => simp
  | case5 c cs _ _ _ word =>
    rw [Scan.token.injEq]
    rintro ⟨-, rfl, rfl⟩
    simp [word, List.takeWhile_append_dropWhile]
  | case6 =>
    rw [Scan.token.injEq]
    rintro ⟨-, rfl, rfl⟩
    simp
  | case7 c cs _ _ _ _ _ text' =>
    rw [Scan.token.injEq]
    rintro ⟨-, rfl, rfl⟩
    simp [text', List.takeWhile_append_dropWhile]
  | case8 => simp

theorem Scan.token_length_lt {cs text rest : List Char} {t : Token}
    (h : scan cs = .token t text rest) : rest.length < cs.length := by
  obtain ⟨happ, hne⟩ := Scan.token_append h
  have := List.length_pos_iff.2 hne
  rw [← happ, List.length_append]
  omega

end ExprLang
