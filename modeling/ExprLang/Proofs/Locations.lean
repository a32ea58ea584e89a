import ExprLang.Parser.Basic
import ExprLang.Proofs.Forward
import ExprLang.Proofs.Lookahead
import ExprLang.Proofs.Points

/-! # Every location is true

However a cursor, a lexer or a parser is used, it is at a point of its source and never goes back,
and all errors that it makes are at points of the source too (`Location.pointsInto_source`).  What
the counts of a location are at a point, and what a report there is about, is said by
`Location.Divides`.  The counters have to be wide enough for the source, and are for all shorter
ones than that of `Location.line_behind_feeds`.

A lexer moves its cursor by reading, so that is known of cursors (`Lexer.passes_ask`).  A parser
looks locations up in a list of places (`Parser.stops`), which a cursor has come through in order
(`Cursor.passes_stops`).  Each call leaves the parser with the last of these places, and an error is
at one that is not behind them (`Parser.settle_stops`). -/

namespace ExprLang

/-! ### Lexers -/

namespace Lexer

/-- The error that the answer is. -/
def Answer.error? : Answer → Option LexicalError
  | .peek (.error e) => some e
  | .nextToken (.error e) => some e
  | .isAtEnd (.error e) => some e
  | .next (some (.error e)) => some e
  | _ => none

namespace Answer

variable {e : LexicalError}

theorem mem_error?_peek {answer : Except LexicalError (Option Token)} :
    e ∈ (peek answer).error? ↔ answer = .error e := by
  cases answer <;> simp [error?]

theorem mem_error?_nextToken {answer : Except LexicalError (Option Token)} :
    e ∈ (nextToken answer).error? ↔ answer = .error e := by
  cases answer <;> simp [error?]

theorem mem_error?_isAtEnd {answer : Except LexicalError Bool} :
    e ∈ (isAtEnd answer).error? ↔ answer = .error e := by
  cases answer <;> simp [error?]

theorem mem_error?_next {item : Option (Except LexicalError Token)} :
    e ∈ (next item).error? ↔ item = some (.error e) := by
  obtain _ | _ | _ := item <;> simp [error?]

end Answer

theorem passes_peek (l : Lexer) :
    l.cursor.Passes l.peek.2.cursor ∧
      ∀ e, l.peek.1 = .error e → e.location = l.peek.2.location := by
  obtain ⟨c, _ | t, halted⟩ := l
  · have hread := c.passes_readToken
    unfold peek location
    generalize c.readToken = r at hread
    obtain ⟨_ | t, c'⟩ := r
    · exact ⟨hread.1, fun e he => by cases he; exact hread.2 _ rfl⟩
    · exact ⟨hread.1, nofun⟩
  · exact ⟨.refl c, nofun⟩

theorem passes_nextToken (l : Lexer) :
    l.cursor.Passes l.nextToken.2.cursor ∧
      ∀ e, l.nextToken.1 = .error e → e.location = l.nextToken.2.location := by
  obtain ⟨c, _ | t, halted⟩ := l
  · exact c.passes_readToken
  · exact ⟨.refl c, nofun⟩

theorem passes_isAtEnd (l : Lexer) :
    l.cursor.Passes l.isAtEnd.2.cursor ∧
      ∀ e, l.isAtEnd.1 = .error e → e.location = l.isAtEnd.2.location := by
  have hpeek := l.passes_peek
  unfold isAtEnd
  generalize l.peek = answer at hpeek
  obtain ⟨e | t, l'⟩ := answer
  · exact ⟨hpeek.1, fun _ he => by cases he; exact hpeek.2 e rfl⟩
  · exact ⟨hpeek.1, nofun⟩

theorem passes_next (l : Lexer) :
    l.cursor.Passes l.next.2.cursor ∧
      ∀ e, l.next.1 = some (.error e) → e.location = l.next.2.location := by
  have hnext := l.passes_nextToken
  unfold next
  split
  · exact ⟨.refl _, nofun⟩
  · generalize l.nextToken = answer at hnext
    obtain ⟨e | _ | t, l'⟩ := answer
    · exact ⟨hnext.1, fun _ he => by cases he; exact hnext.2 e rfl⟩
    · exact ⟨hnext.1, nofun⟩
    · exact ⟨hnext.1, nofun⟩

/-- A request lets the cursor read on, and an error is where the cursor is then. -/
theorem passes_ask (l : Lexer) (r : Request) :
    l.cursor.Passes (l.ask r).2.cursor ∧
      ∀ e ∈ (l.ask r).1.error?, e.location = (l.ask r).2.location := by
  cases r with
  | peek =>
      obtain ⟨hpasses, herror⟩ := l.passes_peek
      exact ⟨hpasses, fun e he => herror e (Answer.mem_error?_peek.mp he)⟩
  | nextToken =>
      obtain ⟨hpasses, herror⟩ := l.passes_nextToken
      exact ⟨hpasses, fun e he => herror e (Answer.mem_error?_nextToken.mp he)⟩
  | isAtEnd =>
      obtain ⟨hpasses, herror⟩ := l.passes_isAtEnd
      exact ⟨hpasses, fun e he => herror e (Answer.mem_error?_isAtEnd.mp he)⟩
  | next =>
      obtain ⟨hpasses, herror⟩ := l.passes_next
      exact ⟨hpasses, fun e he => herror e (Answer.mem_error?_next.mp he)⟩

/-- Requests let the cursor read on, and an error is somewhere on its way. -/
theorem passes_asks (l : Lexer) (rs : List Request) :
    l.cursor.Passes (l.asks rs).2.cursor ∧
      ∀ answer ∈ (l.asks rs).1, ∀ e ∈ answer.error?,
        ∃ c, l.cursor.Passes c ∧ e.location = c.location := by
  induction rs generalizing l with
  | nil => exact ⟨.refl _, List.forall_mem_nil _⟩
  | cons r rs ih =>
      obtain ⟨hpasses, herror⟩ := l.passes_ask r
      obtain ⟨hmore, herrors⟩ := ih (l.ask r).2
      refine ⟨hpasses.trans hmore, List.forall_mem_cons.mpr ⟨?_, ?_⟩⟩
      · intro e he
        exact ⟨_, hpasses, herror e he⟩
      · intro answer hanswer e he
        obtain ⟨c, hc, hlocation⟩ := herrors answer hanswer e he
        exact ⟨c, hpasses.trans hc, hlocation⟩

theorem asks_append (l : Lexer) (rs more : List Request) :
    (l.asks (rs ++ more)).2 = ((l.asks rs).2.asks more).2 := by
  induction rs generalizing l with
  | nil => rfl
  | cons r rs ih => exact ih (l.ask r).2

end Lexer

/-! ### The places where tokens stop -/

/-- The first location is not behind the second. -/
def Location.NotBehind (l l' : Location) : Prop := l.offset ≤ l'.offset

/-- Where the tokens ahead of the cursor stop, and where the reading ends. -/
def Cursor.stops (c : Cursor) : List Location := c.lexemes.1.map (·.stop) ++ [c.lexemes.2.1]

/-- A cursor comes through all of these places, one after the other. -/
theorem Cursor.passes_stops (c : Cursor) :
    (∀ l ∈ c.stops, ∃ c', c.Passes c' ∧ c'.location = l) ∧
      c.stops.Pairwise Location.NotBehind := by
  -- Every token uses characters up, so the induction is on how many there are.
  obtain ⟨n, hn⟩ : ∃ n, c.rest.length = n := ⟨_, rfl⟩
  induction n using Nat.strong_induction_on generalizing c with
  | _ n ih =>
      obtain ⟨hpasses, herror⟩ := c.passes_readToken
      unfold stops
      cases hread : c.readToken with
      | mk answer c' =>
          rw [hread] at hpasses herror
          match answer with
          | .ok none =>
              rw [lexemes_of_ending hread]
              exact ⟨List.forall_mem_singleton.mpr ⟨c', hpasses, rfl⟩, List.pairwise_singleton ..⟩
          | .error e =>
              rw [lexemes_of_error hread]
              refine ⟨List.forall_mem_singleton.mpr ⟨c', hpasses, ?_⟩, List.pairwise_singleton ..⟩
              exact (herror e rfl).symm
          | .ok (some t) =>
              rw [lexemes_of_token hread]
              have hlt := readToken_length_lt hread
              obtain ⟨hmore, hordered⟩ := ih c'.rest.length (hn ▸ hlt) c' rfl
              refine ⟨List.forall_mem_cons.mpr ⟨⟨c', hpasses, rfl⟩, ?_⟩,
                List.pairwise_cons.mpr ⟨?_, hordered⟩⟩
              · intro l hl
                obtain ⟨c'', hpasses', rfl⟩ := hmore l hl
                exact ⟨c'', hpasses.trans hpasses', rfl⟩
              · intro l hl
                obtain ⟨c'', hpasses', rfl⟩ := hmore l hl
                exact hpasses'.offset_le

/-! ### Parsers -/

namespace Parser

/-- Where the unread tokens stop, and where the reading ends. -/
def stops (p : Parser) : List Location := p.unread.map (·.stop) ++ [p.lexed.ending]

/-- Where the last unread tokens stop, as many as there are in the list, and where the reading
ends. -/
def stopsOf (p : Parser) (ts : List Token) : List Location :=
  (p.lexemesOf ts).map (·.stop) ++ [p.lexed.ending]

variable {p : Parser} {ts us : List Token}

/-- The location for an error is the first of them. -/
theorem stopsOf_eq_cons (p : Parser) (ts : List Token) :
    ∃ more, p.stopsOf ts = p.stopOf ts :: more := by
  unfold stopsOf stopOf
  cases p.lexemesOf ts with
  | nil => exact ⟨_, rfl⟩
  | cons l ls => exact ⟨_, rfl⟩

theorem stopsOf_suffix (p : Parser) (ts : List Token) : p.stopsOf ts <:+ p.stops :=
  List.suffix_append_self_iff.mpr ((List.drop_suffix _ _).map _)

theorem stopsOf_suffix_stopsOf (h : us <:+ ts) : p.stopsOf us <:+ p.stopsOf ts := by
  have hle := h.length_le
  refine List.suffix_append_self_iff.mpr (List.IsSuffix.map _ ?_)
  exact List.drop_suffix_drop_left _ (by omega)

/-- The error, if there is one instead of an answer. -/
def errorOf {α : Type} : Except SyntaxError α → Option SyntaxError
  | .ok _ => none
  | .error e => some e

/-- **One call.**  The places that are left are the last of those that there were, and an error is
at one of these, with those that are left not before it. -/
theorem settle_stops {α : Type} {n : ℕ} (p : Parser) {s : Step α n} (hs : Orderly s.toExcept) :
    (p.settle s).2.stops <:+ p.stops ∧ ∀ e ∈ errorOf (p.settle s).1,
      ∃ more, (e.location :: more) <:+ p.stops ∧
        (p.settle s).2.stops <:+ e.location :: more := by
  cases s with
  | ok a rest _ => exact ⟨p.stopsOf_suffix rest, nofun⟩
  | fail f =>
      refine ⟨p.stopsOf_suffix f.rest, ?_⟩
      rintro e ⟨⟩
      obtain ⟨more, hmore⟩ := p.stopsOf_eq_cons f.offending
      refine ⟨more, ?_, ?_⟩
      · rw [← hmore]
        exact p.stopsOf_suffix f.offending
      · rw [← hmore]
        exact stopsOf_suffix_stopsOf (hs f rfl)

/-- A call of a parser: the error, if it fails, and the parser behind it.  The items of a list may
be anything that does not go back. -/
inductive Call (p : Parser) : Option SyntaxError → Parser → Prop
  | program : Call p (errorOf p.program.1) p.program.2
  | expression : Call p (errorOf p.expression.1) p.expression.2
  | atom : Call p (errorOf p.atom.1) p.atom.2
  | block : Call p (errorOf p.block.1) p.block.2
  | condition : Call p (errorOf p.condition.1) p.condition.2
  | boolean : Call p (errorOf p.boolean.1) p.boolean.2
  | lambda : Call p (errorOf p.lambda.1) p.lambda.2
  | name : Call p (errorOf p.name.1) p.name.2
  | call {function} : Call p (errorOf (p.call function).1) (p.call function).2
  | delimited {α : Type} {start stop separator : Char}
      {item : Option LexicalFault → (ts : List Token) → Step α ts.length} :
      (∀ ending ts, Orderly (item ending ts).toExcept) →
      Call p (errorOf (p.delimited start stop separator item).1)
        (p.delimited start stop separator item).2

/-- Any number of calls, each of the parser that the last one has left, and the errors of those that
fail. -/
inductive Calls (p : Parser) : List SyntaxError → Parser → Prop
  | start : Calls p [] p
  | call {errors e p' p''} : Calls p errors p' → Call p' e p'' → Calls p (errors ++ e.toList) p''

/-- Every call is settled by a step that does not go back. -/
theorem Call.stops {e : Option SyntaxError} {p' : Parser} (h : Call p e p') :
    p'.stops <:+ p.stops ∧ ∀ err ∈ e, ∃ more, (err.location :: more) <:+ p.stops ∧
      p'.stops <:+ err.location :: more := by
  cases h with
  | program =>
      refine p.settle_stops ?_
      rw [Step.toExcept_map]
      exact .map (Grammar.orderly_program _) _
  | expression => exact p.settle_stops (Grammar.orderly_expression _)
  | atom => exact p.settle_stops (Grammar.orderly_atom _)
  | block => exact p.settle_stops (Grammar.orderly_block _)
  | condition => exact p.settle_stops (Grammar.orderly_condition _)
  | boolean => exact p.settle_stops (Grammar.orderly_boolean _)
  | lambda => exact p.settle_stops (Grammar.orderly_lambda _)
  | name => exact p.settle_stops (Grammar.orderly_name _)
  | call => exact p.settle_stops (Grammar.orderly_call _ _)
  | delimited hitem =>
      exact p.settle_stops (Grammar.orderly_delimited _ _ _ _ fun us _ => hitem _ us)

/-- The errors of calls are at places of the list, each not before the last one, and none of the
places that are left is before them. -/
structure Kept (p : Parser) (errors : List SyntaxError) (p' : Parser) : Prop where
  suffix : p'.stops <:+ p.stops
  mem : ∀ e ∈ errors, e.location ∈ p.stops
  ahead : ∀ e ∈ errors, ∀ l ∈ p'.stops, e.location.NotBehind l
  ordered : errors.Pairwise fun e e' => e.location.NotBehind e'.location

theorem Calls.kept {errors : List SyntaxError} {p' : Parser} (h : Calls p errors p')
    (hordered : p.stops.Pairwise Location.NotBehind) : Kept p errors p' := by
  induction h with
  | start => exact ⟨List.suffix_rfl, List.forall_mem_nil _, List.forall_mem_nil _, .nil⟩
  | @call errors e p' p'' _ hcall ih =>
      obtain ⟨hrest, herror⟩ := hcall.stops
      have hahead : ∀ e ∈ errors, ∀ l ∈ p''.stops, e.location.NotBehind l := fun e he l hl =>
        ih.ahead e he l (hrest.subset hl)
      cases e with
      | none =>
          rw [Option.toList_none, List.append_nil]
          exact ⟨hrest.trans ih.suffix, ih.mem, hahead, ih.ordered⟩
      | some err =>
          obtain ⟨more, hmore, hleft⟩ := herror err rfl
          have hmem : err.location ∈ p'.stops := hmore.subset List.mem_cons_self
          have hbehind : ∀ l ∈ p''.stops, err.location.NotBehind l := by
            intro l hl
            rcases List.mem_cons.mp (hleft.subset hl) with rfl | hl
            · exact le_rfl
            · have hpairs := hordered.sublist (hmore.trans ih.suffix).sublist
              exact (List.pairwise_cons.mp hpairs).1 l hl
          rw [Option.toList_some]
          refine ⟨hrest.trans ih.suffix, ?_, ?_, ?_⟩
          · exact List.forall_mem_append.mpr
              ⟨ih.mem, List.forall_mem_singleton.mpr (ih.suffix.subset hmem)⟩
          · exact List.forall_mem_append.mpr ⟨hahead, List.forall_mem_singleton.mpr hbehind⟩
          · refine List.pairwise_append.mpr ⟨ih.ordered, List.pairwise_singleton .., ?_⟩
            intro e he e' he'
            obtain rfl := List.mem_singleton.mp he'
            exact ih.ahead e he _ hmem

end Parser

/-! ### Every location -/

/-- **Every location is true,** if the lines and the characters of the source can be counted.  A
cursor that is told to read `n` characters stands behind the first `n` characters of its source, and
the ones that it reads are those of the source in their order.  After any requests to a lexer the
cursor is at a point of the source, and so are all errors among the answers.  The errors of any
calls of a parser are at points of the source.  None of the three ever goes back. -/
theorem Location.pointsInto_source {source : String} (hcounts : Counts source) :
    (∀ n, Cursor.Stands source n ((Cursor.ofSource source).advances n) ∧ ∀ m, n ≤ m →
      ((Cursor.ofSource source).advances n).location.NotBehind
        ((Cursor.ofSource source).advances m).location) ∧
    (∀ rs, ((Lexer.ofSource source).asks rs).2.location.PointsInto source ∧
      (∀ answer ∈ ((Lexer.ofSource source).asks rs).1, ∀ e ∈ answer.error?,
        e.location.PointsInto source) ∧
      ∀ more, ((Lexer.ofSource source).asks rs).2.location.NotBehind
        ((Lexer.ofSource source).asks (rs ++ more)).2.location) ∧
    ∀ errors p, Parser.Calls (.ofSource source) errors p →
      (∀ e ∈ errors, e.location.PointsInto source) ∧
        errors.Pairwise fun e e' => e.location.NotBehind e'.location := by
  refine ⟨fun n => ⟨Cursor.stands_advances hcounts n, ?_⟩, fun rs => ⟨?_, ?_, ?_⟩, ?_⟩
  · intro m hle
    exact (Cursor.passes_advances _ hle).offset_le
  · exact ((Lexer.ofSource source).passes_asks rs).1.pointsInto hcounts
  · intro answer hanswer e he
    obtain ⟨c, hpasses, hlocation⟩ := ((Lexer.ofSource source).passes_asks rs).2 answer hanswer e he
    rw [hlocation]
    exact Cursor.Passes.pointsInto hpasses hcounts
  · intro more
    rw [Lexer.asks_append]
    exact (Lexer.passes_asks _ more).1.offset_le
  · intro errors p hcalls
    obtain ⟨hpasses, hordered⟩ := (Cursor.ofSource source).passes_stops
    have hkept := hcalls.kept hordered
    refine ⟨fun e he => ?_, hkept.ordered⟩
    obtain ⟨c, hc, hlocation⟩ := hpasses _ (hkept.mem e he)
    rw [← hlocation]
    exact hc.pointsInto hcounts

/-- A line ends in a string and another one in a comment.  Behind them stands a token that is wrong
twice. -/
theorem Location.pointsInto_source_separator :
    let source := "\"é\n\" # ü\n1"
    let p := Parser.ofSource source
    let q := p.program.2
    let errors := ([] ++ (Parser.errorOf p.program.1).toList) ++ (Parser.errorOf q.name.1).toList
    Location.Counts source ∧
      errors = [⟨.expecting .punctuation ";", ⟨12, 3, 1⟩⟩, ⟨.nonVariable, ⟨12, 3, 1⟩⟩] ∧
      Parser.Calls p errors q.name.2 ∧
      (∀ e ∈ errors, e.location.PointsInto source) ∧
      errors.Pairwise fun e e' => e.location.NotBehind e'.location := by
  intro source p q errors
  have hcounts : Location.Counts source := counts_of_length_lt (by decide)
  have herrors : errors =
      [⟨.expecting .punctuation ";", ⟨12, 3, 1⟩⟩, ⟨.nonVariable, ⟨12, 3, 1⟩⟩] := by
    decide +kernel
  have hcalls : Parser.Calls p errors q.name.2 := .call (.call .start .program) .name
  obtain ⟨hpoints, hordered⟩ := (pointsInto_source hcounts).2.2 errors _ hcalls
  exact ⟨hcounts, herrors, hcalls, hpoints, hordered⟩

/-- A source can have fewer characters than the counters count and yet too many lines: behind as
many line feeds as there can be in it, the count of the lines has gone round. -/
theorem Location.line_behind_feeds :
    let source := String.ofList (List.replicate (UInt32.size - 1) '\n')
    let l := ((Cursor.ofSource source).advances (UInt32.size - 1)).location
    source.length < UInt32.size ∧ l.line = 0 ∧ ¬ l.PointsInto source := by
  -- Nothing is to be computed from so many characters, so the number is hidden.
  obtain ⟨n, hn⟩ : ∃ n, n = UInt32.size - 1 := ⟨_, rfl⟩
  rw [← hn]
  intro source l
  have hline : l.line = 0 := by
    have hround : UInt32.ofNat (1 + n) = 0 := by rw [hn]; decide
    exact (Cursor.line_advances_replicate n).trans hround
  refine ⟨?_, hline, ?_⟩
  · rw [String.length_ofList, List.length_replicate, hn]
    decide
  · rintro ⟨before, rest, hdivides⟩
    have htrue : (l.line : ℕ) = 1 + before.count '\n' := hdivides.line
    rw [hline, UInt32.toNat_zero] at htrue
    omega

end ExprLang
