import ExprLang.Parser.Grammar

/-! # The grammar, construct by construct

One equation for each construct of `Grammar`: what comes of reading it, in terms
of what comes of reading its parts.  The bounds that make the recursion end have
no place in them, so a statement about the grammar can be proved from these
equations alone. -/

namespace ExprLang.Grammar

variable (ending : Option LexicalFault)

theorem toExcept_followItem {α : Type} (stop separator : Char) (a : α) (ts : List Token)
    (more : (r : List Token) → Step (List α) r.length) :
    (followItem ending stop separator a ts fun r _ => more r).toExcept =
      match ts with
      | [] => (Step.atEnd ending (.expecting .punctuation stop.toString) : Step _ 0).toExcept
      | t :: r =>
        if t.isPunctuation stop then .ok ([a], r)
        else if t.isPunctuation separator then
          if r.head?.any (·.isPunctuation stop) then .ok ([a], r.tail)
          else (more r).toExcept.map fun q => (a :: q.1, q.2)
        else .error ⟨.expecting .punctuation separator.toString, t :: r, t :: r⟩ := by
  cases ts with
  | nil => rfl
  | cons t r =>
    simp only [followItem]
    split
    · rfl
    · split
      · split
        · rfl
        · simp only [Step.toExcept_loose, Step.toExcept_map]
      · rfl

theorem toExcept_items {α : Type} (stop separator : Char) (ts : List Token)
    (item : (r : List Token) → Step α r.length) :
    (items ending stop separator ts fun r _ => item r).toExcept =
      (item ts).toExcept.bind fun p =>
        (followItem ending stop separator p.1 p.2 fun r _ =>
          items ending stop separator r fun r _ => item r).toExcept := by
  rw [items]
  exact Step.toExcept_bind _ _

theorem toExcept_delimited {α : Type} (start stop separator : Char) (ts : List Token)
    (item : (r : List Token) → Step α r.length) :
    (delimited ending start stop separator ts fun r _ => item r).toExcept =
      (mark ending start ts).toExcept.bind fun p =>
        match p.2 with
        | [] => (Step.atEnd ending (.expecting .punctuation stop.toString) : Step _ 0).toExcept
        | t :: r =>
          if t.isPunctuation stop then .ok ([], r)
          else (items ending stop separator (t :: r) fun r _ => item r).toExcept := by
  rw [delimited]
  cases mark ending start ts with
  | fail f => rfl
  | ok a r h =>
    cases r with
    | nil => rfl
    | cons t r =>
      rw [Step.bind, Step.toExcept_weaken]
      simp only [Step.toExcept, Except.bind]
      by_cases hstop : t.isPunctuation stop
      · simp only [hstop, if_true]
        rfl
      · simp only [hstop, if_false, Bool.false_eq_true]
        exact Step.toExcept_loose _

theorem toExcept_expression (ts : List Token) :
    (expression ending ts).toExcept =
      (atom ending ts).toExcept.bind fun p =>
        (operators ending p.1 0 p.2).toExcept.bind fun q =>
          (calls ending q.1 q.2).toExcept := by
  rw [expression]
  simp only [Step.toExcept_bind]

theorem toExcept_atom (ts : List Token) :
    (atom ending ts).toExcept =
      (bareAtom ending ts).toExcept.bind fun p => (calls ending p.1 p.2).toExcept := by
  rw [atom]
  simp only [Step.toExcept_bind]

theorem toExcept_bareAtom (ts : List Token) :
    (bareAtom ending ts).toExcept =
      match ts with
      | [] => (Step.atEnd ending (.unexpectedToken "null") : Step _ 0).toExcept
      | .number x :: rest => .ok (.number x, rest)
      | .string s :: rest => .ok (.string s, rest)
      | .variable x :: rest => .ok (.variable x, rest)
      | .punctuation '(' :: rest =>
        (expression ending rest).toExcept.bind fun p =>
          (mark ending ')' p.2).toExcept.map fun q => (p.1, q.2)
      | .punctuation '\x7b' :: rest => (block ending (.punctuation '\x7b' :: rest)).toExcept
      | .keyword .ifWord :: rest => (condition ending (.keyword .ifWord :: rest)).toExcept
      | .keyword .trueWord :: rest => .ok (.boolean true, rest)
      | .keyword .falseWord :: rest => .ok (.boolean false, rest)
      | .keyword .defWord :: rest => (lambda ending rest).toExcept
      | t :: rest => .error ⟨.unexpectedToken t.json, t :: rest, rest⟩ := by
  rw [bareAtom.eq_def]
  split
  case h_5 => simp only [Step.toExcept_loose, Step.toExcept_bind, Step.toExcept_map]
  case h_10 => exact Step.toExcept_loose _
  case h_11 => simp_all only [Step.toExcept_consume]
  all_goals rfl

theorem toExcept_block (ts : List Token) :
    (block ending ts).toExcept =
      (delimited ending '\x7b' '\x7d' ';' ts fun r _ => expression ending r).toExcept.map
        fun p => (blockOf p.1, p.2) := by
  rw [block, Step.toExcept_map]

theorem toExcept_condition (ts : List Token) :
    (condition ending ts).toExcept =
      (word ending .ifWord ts).toExcept.bind fun p =>
        (expression ending p.2).toExcept.bind fun q =>
          (branch ending q.2).toExcept.bind fun r =>
            (alternative ending r.2).toExcept.map fun s => (.condition q.1 r.1 s.1, s.2) := by
  rw [condition]
  simp only [Step.toExcept_bind, Step.toExcept_loose, Step.toExcept_map]

theorem toExcept_branch (ts : List Token) :
    (branch ending ts).toExcept =
      match ts with
      | .punctuation '\x7b' :: rest => (expression ending (.punctuation '\x7b' :: rest)).toExcept
      | ts =>
        (word ending .thenWord ts).toExcept.bind fun p => (expression ending p.2).toExcept := by
  rw [branch.eq_def]
  split
  · rfl
  · simp only [Step.toExcept_bind, Step.toExcept_loose]

theorem toExcept_alternative (ts : List Token) :
    (alternative ending ts).toExcept =
      match ts with
      | [] => (Step.done ending none).toExcept
      | .keyword .elseWord :: rest =>
        (expression ending rest).toExcept.map fun p => (some p.1, p.2)
      | ts => .ok (none, ts) := by
  rw [alternative.eq_def]
  split
  · rfl
  · simp only [Step.toExcept_loose, Step.toExcept_map]
  · simp_all only [Step.toExcept_leaving]

theorem toExcept_lambda (ts : List Token) :
    (lambda ending ts).toExcept =
      (delimited ending '(' ')' ',' ts fun r _ => name ending r).toExcept.bind fun p =>
        (expression ending p.2).toExcept.map fun q => (.lambda p.1 q.1, q.2) := by
  rw [lambda]
  simp only [Step.toExcept_bind, Step.toExcept_loose, Step.toExcept_map]

theorem toExcept_call (function : Expr) (ts : List Token) :
    (call ending function ts).toExcept =
      (delimited ending '(' ')' ',' ts fun r _ => expression ending r).toExcept.map
        fun p => (.call function p.1, p.2) := by
  rw [call, Step.toExcept_map]

theorem toExcept_calls (function : Expr) (ts : List Token) :
    (calls ending function ts).toExcept =
      match ts with
      | [] => (Step.done ending function).toExcept
      | .punctuation '(' :: rest =>
        (call ending function (.punctuation '(' :: rest)).toExcept.bind fun p =>
          (calls ending p.1 p.2).toExcept
      | ts => .ok (function, ts) := by
  rw [calls.eq_def]
  split
  · rfl
  · simp only [Step.toExcept_bind, Step.toExcept_loose]
  · simp_all only [Step.toExcept_leaving]

theorem toExcept_operators (left : Expr) (bound : Nat) (ts : List Token) :
    (operators ending left bound ts).toExcept =
      match ts with
      | [] => (Step.done ending left).toExcept
      | .operator text :: rest =>
        match Operator.ofText? text with
        | none => .ok (left, .operator text :: rest)
        | some op =>
          if op.precedence ≤ bound then .ok (left, .operator text :: rest)
          else
            (atom ending rest).toExcept.bind fun p =>
              (operators ending p.1 op.rightBound p.2).toExcept.bind fun q =>
                (operators ending (op.apply left q.1) bound q.2).toExcept
      | ts => .ok (left, ts) := by
  rw [operators.eq_def]
  split
  · rfl
  · next text rest =>
    obtain hop | ⟨op, hop⟩ := Option.eq_none_or_eq_some (Operator.ofText? text)
    · simp only [hop, Step.toExcept_leaving]
    · by_cases h : op.precedence ≤ bound
      · simp only [hop, h, if_true, Step.toExcept_leaving]
      · simp only [hop, h, if_false, Step.toExcept_bind, Step.toExcept_loose]
  · simp_all only [Step.toExcept_leaving]

theorem toExcept_followExpression (e : Expr) (ts : List Token)
    (more : (r : List Token) → Step (List Expr) (r.length + 1)) :
    (followExpression ending e ts fun r _ => more r).toExcept =
      match ts with
      | [] => (Step.done ending [e]).toExcept
      | t :: r =>
        if t.isPunctuation ';' then (more r).toExcept.map fun q => (e :: q.1, q.2)
        else .error ⟨.expecting .punctuation ";", t :: r, t :: r⟩ := by
  cases ts with
  | nil => rfl
  | cons t r =>
    simp only [followExpression]
    split
    · simp only [Step.toExcept_loose, Step.toExcept_map]
    · rfl

theorem toExcept_program (ts : List Token) :
    (program ending ts).toExcept =
      match ts with
      | [] => (Step.done ending []).toExcept
      | t :: ts =>
        (expression ending (t :: ts)).toExcept.bind fun p =>
          (followExpression ending p.1 p.2 fun r _ => program ending r).toExcept := by
  rw [program.eq_def]
  split
  · rfl
  · exact (Step.toExcept_loose _).trans (Step.toExcept_bind _ _)

end ExprLang.Grammar
