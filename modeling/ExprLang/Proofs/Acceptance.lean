import ExprLang.Parser.Basic
import ExprLang.Proofs.Innermost
import ExprLang.Proofs.Parsed

/-! # The accepted programs

A source is accepted exactly if it ends without a lexical fault and its tokens derive from the
grammar, and the tree is that of the innermost derivation (`Expr.ofSource_iff_derives`).  The parser
never backtracks, so the point is that its greedy choices lose no program:
`Items.exists_innermost` turns any derivation into the one that `program_eq_ok_iff` reads. -/

namespace ExprLang

/-- The answer of a parser is that of the grammar. -/
theorem Parser.settle_eq_ok_iff {α : Type} {n : ℕ} {p : Parser} {s : Step α n} {a : α} :
    (p.settle s).1 = .ok a ↔ ∃ r, s.toExcept = .ok (a, r) := by
  cases s with
  | ok b r h => simp [Parser.settle, Step.toExcept]
  | fail f => simp [Parser.settle, Step.toExcept]

namespace Phrase

variable {ending : Option LexicalFault}

theorem closed_nil : Closed [] := by
  simp [Closed, CallAhead, OperatorAhead, ElseAhead]

theorem program_parsed {ts es r} (h : (Grammar.program ending ts).toExcept = .ok (es, r)) :
    Items true ';' ts es [] ∧ ending = none ∧ r = [] := by
  induction hn : ts.length using Nat.strong_induction_on generalizing ts es with
  | _ n ih =>
    rw [Grammar.toExcept_program] at h
    cases ts with
    | nil =>
        obtain ⟨hend, rfl, rfl⟩ := Step.done_eq_ok_iff.mp h
        exact ⟨.empty, hend, rfl⟩
    | cons t ts =>
        simp only [bind_eq_ok_iff, Grammar.toExcept_followExpression] at h
        obtain ⟨e, q, he, h⟩ := h
        have hlt := Step.length_lt he
        obtain ⟨hexpr, -⟩ := expression_eq_ok_iff.mp he
        cases q with
        | nil =>
            obtain ⟨hend, rfl, rfl⟩ := Step.done_eq_ok_iff.mp h
            exact ⟨.last hexpr, hend, rfl⟩
        | cons t' q =>
            simp only at h
            split at h
            · next ht =>
              simp only [map_eq_ok_iff, Prod.mk.injEq] at h
              obtain ⟨es', r', hmore, rfl, rfl⟩ := h
              obtain rfl := Token.isPunctuation_iff.mp ht
              simp only [List.length_cons] at hlt hn
              obtain ⟨hes, hend⟩ := ih q.length (by omega) hmore rfl
              exact ⟨.more hexpr hes, hend⟩
            · simp at h

theorem Items.read_program {ts es} (h : Items true ';' ts es []) :
    (Grammar.program none ts).toExcept = .ok (es, []) := by
  obtain ⟨n, hn⟩ : ∃ n, ts.length = n := ⟨_, rfl⟩
  induction n using Nat.strong_induction_on generalizing ts es with
  | _ n ih =>
    rw [Grammar.toExcept_program]
    cases h with
    | empty => rfl
    | last he =>
        cases ts with
        | nil => exact he.ne_nil.elim
        | cons t ts =>
            simp only [he.read (fun _ => rfl), Except.bind]
            rw [Grammar.toExcept_followExpression]
            rfl
    | @more _ _ e r es _ he hes =>
        cases ts with
        | nil => exact he.ne_nil.elim
        | cons t ts =>
            have hlt := he.length_lt
            simp only [List.length_cons] at hlt hn
            have hmore := ih r.length (by omega) hes rfl
            simp only [he.read (fun _ => rfl), Except.bind]
            rw [Grammar.toExcept_followExpression]
            simp [Token.isPunctuation, hmore, Except.map]

/-- **The parser reads the innermost programs**, and only up to the end of the source. -/
theorem program_eq_ok_iff {ts es r} :
    (Grammar.program ending ts).toExcept = .ok (es, r) ↔
      Items true ';' ts es [] ∧ ending = none ∧ r = [] := by
  refine ⟨program_parsed, ?_⟩
  rintro ⟨hes, rfl, rfl⟩
  exact hes.read_program

end Phrase

/-- A source holds a program if it ends well and its tokens are an innermost phrase. -/
theorem Expr.ofSource_eq_ok {source : String} {e : Expr} :
    Expr.ofSource source = .ok e ↔ (Lexed.ofSource source).error? = none ∧
      ∃ es, Phrase.Items true ';' (Lexed.ofSource source).tokens es [] ∧ e = .program es := by
  unfold Expr.ofSource Parser.program
  simp only [Parser.settle_eq_ok_iff, Step.toExcept_map, map_eq_ok_iff, Prod.mk.injEq,
    Phrase.program_eq_ok_iff, Lexed.error?, Option.map_eq_none_iff]
  constructor
  · rintro ⟨_, es, _, ⟨hes, hend, -⟩, rfl, -⟩
    exact ⟨hend, es, hes, rfl⟩
  · rintro ⟨hend, es, hes, rfl⟩
    exact ⟨[], es, [], ⟨hes, hend, rfl⟩, rfl, rfl⟩

/-- **The grammar of programs.**  A source holds a program exactly if it is cut into tokens without
an error and the tokens derive from the ambiguous grammar.  The program is then the list of
expressions that the innermost derivation of these tokens stands for. -/
theorem Expr.ofSource_iff_derives (source : String) :
    ((∃ e, Expr.ofSource source = .ok e) ↔ (Lexed.ofSource source).error? = none ∧
      ∃ es, Phrase.Items false ';' (Lexed.ofSource source).tokens es []) ∧
    ∀ e, Expr.ofSource source = .ok e ↔ (Lexed.ofSource source).error? = none ∧
      ∃ es, Phrase.Items true ';' (Lexed.ofSource source).tokens es [] ∧ e = .program es := by
  refine ⟨⟨?_, ?_⟩, fun e => Expr.ofSource_eq_ok⟩
  · rintro ⟨e, he⟩
    obtain ⟨herror, es, hes, -⟩ := Expr.ofSource_eq_ok.mp he
    exact ⟨herror, es, hes.plain⟩
  · rintro ⟨herror, es, hes⟩
    obtain ⟨es', hes'⟩ := hes.exists_innermost (by decide) Phrase.closed_nil
    exact ⟨_, Expr.ofSource_eq_ok.mpr ⟨herror, es', hes', rfl⟩⟩

end ExprLang
