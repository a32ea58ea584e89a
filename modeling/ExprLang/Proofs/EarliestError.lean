import ExprLang.Proofs.Lookahead
import ExprLang.Proofs.Printing
import ExprLang.Proofs.Promptness

/-! # Errors at the earliest wrong token

A syntax error is reported at the first token that is wrong (`Expr.ofSource_error`): the tokens
before it begin a program that is accepted, and none that is accepted begins with that token too.
Only where all tokens begin a program is the error at the end of the source, and it is the lexical
error there if there is one.

That the grammar is read promptly says so of the tokens.  A completion of them is turned into a
source by writing its tokens with blanks between them, since every token of a source has a text that
can stand before a blank (`Spelled.hasText`). -/

namespace ExprLang

/-! ### Tokens that are accepted -/

/-- The tokens are those of a source that is accepted. -/
def IsProgram (ts : List Token) : Prop :=
  ∃ source e, (Lexed.ofSource source).tokens = ts ∧ Expr.ofSource source = .ok e

/-- The tokens can be completed to those of a source that is accepted. -/
def BeginsProgram (ts : List Token) : Prop := ∃ more, IsProgram (ts ++ more)

/-- A blank ends every token; only a string that is not closed has to be closed before it. -/
theorem Spelled.hasText {t : Token} {text rest : List Char} (h : Spelled t text rest) :
    t.HasText := by
  cases h with
  | keyword k => exact Phrase.hasText_keyword k
  | name hc hrun hname =>
      exact ⟨_, fun more => .name hc hrun hname (ends_cons (by decide) more)⟩
  | number hnumeral hx =>
      refine ⟨_, fun more => .number hnumeral hx (ends_cons ?_ more)⟩
      rintro (hdigit | ⟨hpoint, -⟩)
      · exact absurd hdigit (by decide)
      · exact absurd hpoint (by decide)
  | string => exact ⟨_, fun more => .string (quoted_printChar _ _)⟩
  | operator hne hrun =>
      exact ⟨_, fun more => .operator hne hrun (ends_cons (by decide) more)⟩
  | punctuation hmark => exact Phrase.hasText_punctuation hmark

theorem Cut.hasText {cs w rest : List Char} {pieces : List Piece} (h : Cut cs pieces w rest) :
    ∀ p ∈ pieces, p.token.HasText := by
  induction h with
  | ending => nofun
  | piece _ ht _ ih => exact List.forall_mem_cons.mpr ⟨ht.hasText, ih⟩

theorem Lexed.hasText (source : String) : ∀ t ∈ (ofSource source).tokens, t.HasText := by
  obtain ⟨pieces, w, rest, hcut⟩ := exists_cut source.toList
  rw [(of_cut hcut).1]
  exact List.forall_mem_map.mpr hcut.hasText

/-- Tokens are written with blanks between them. -/
theorem exists_cutInto {ts : List Token} (h : ∀ t ∈ ts, t.HasText) : ∃ cs, CutInto cs ts := by
  induction ts with
  | nil => exact ⟨[], .nil⟩
  | cons t ts ih =>
      obtain ⟨⟨text, htext⟩, hmore⟩ := List.forall_mem_cons.mp h
      obtain ⟨cs, hcs⟩ := ih hmore
      exact ⟨_, .token (htext cs) hcs.blank⟩

theorem Phrase.exists_program {source : String} (herror : (Lexed.ofSource source).error? = none)
    (hts : (Lexed.ofSource source).tokens ∈ programs) : ∃ e, Expr.ofSource source = .ok e := by
  obtain ⟨es, hes⟩ := hts
  obtain ⟨es', hes'⟩ := hes.exists_innermost (by decide) closed_nil
  exact ⟨_, Expr.ofSource_eq_ok.mpr ⟨herror, es', hes', rfl⟩⟩

/-- The accepted tokens are the words of the grammar that can be written. -/
theorem isProgram_iff {ts : List Token} :
    IsProgram ts ↔ (∀ t ∈ ts, t.HasText) ∧ ts ∈ Phrase.programs := by
  constructor
  · rintro ⟨source, e, rfl, he⟩
    obtain ⟨-, es, hes, -⟩ := Expr.ofSource_eq_ok.mp he
    exact ⟨Lexed.hasText source, es, hes.plain⟩
  · rintro ⟨htext, hword⟩
    obtain ⟨cs, pieces, w, hcut, rfl⟩ := exists_cutInto htext
    rw [← @String.toList_ofList cs] at hcut
    obtain ⟨htokens, herror⟩ := Lexed.of_cut hcut
    rw [← htokens] at hword
    obtain ⟨e, he⟩ := Phrase.exists_program (herror.mpr rfl) hword
    exact ⟨_, e, htokens, he⟩

theorem Viable.beginsProgram {ts : List Token} (h : Viable Phrase.programs ts)
    (htext : ∀ t ∈ ts, t.HasText) : BeginsProgram ts := by
  obtain ⟨more, hmore, hword⟩ := h
  exact ⟨more, isProgram_iff.mpr ⟨List.forall_mem_append.mpr ⟨htext, hmore⟩, hword⟩⟩

/-- An accepted program is read to its end. -/
theorem IsProgram.read {ts : List Token} (h : IsProgram ts) :
    ∃ es, Reader.of Grammar.program none ts = .ok (es, []) := by
  obtain ⟨-, es, hes⟩ := isProgram_iff.mp h
  obtain ⟨es', hes'⟩ := hes.exists_innermost (by decide) Phrase.closed_nil
  exact ⟨es', hes'.read_program⟩

/-! ### Where a parser fails -/

theorem map_eq_error_iff {ε α β : Type} {x : Except ε α} {g : α → β} {e : ε} :
    x.map g = .error e ↔ x = .error e := by
  cases x <;> simp [Except.map]

namespace Parser

theorem settle_eq_error_iff {α : Type} {n : ℕ} {p : Parser} {s : Step α n} {err : SyntaxError} :
    (p.settle s).1 = .error err ↔
      ∃ f, s.toExcept = .error f ∧ err = ⟨f.fault, p.stopOf f.offending⟩ := by
  cases s with
  | ok a r h => simp [settle, Step.toExcept]
  | fail f => simp [settle, Step.toExcept, eq_comm]

theorem stopOf_nil (p : Parser) : p.stopOf [] = p.lexed.ending := by
  simp [stopOf, lexemesOf]

/-- The end of a token is found by what is left from it on. -/
theorem stopOf_of_append {p : Parser} {us vs : List Token} (h : p.tokens = us ++ vs) :
    p.stopOf vs = (p.unread[us.length]?.map (·.stop)).getD p.lexed.ending := by
  have hlength : p.unread.length - vs.length = us.length := by
    have hunread := congrArg List.length h
    rw [tokens, List.length_map, List.length_append] at hunread
    omega
  unfold stopOf lexemesOf
  rw [hlength, ← List.head?_drop]
  cases p.unread.drop us.length <;> rfl

end Parser

/-- A source holds no program where the grammar fails on its tokens. -/
theorem Expr.ofSource_eq_error {source : String} {err : SyntaxError}
    (h : Expr.ofSource source = .error err) :
    ∃ f, Reader.of Grammar.program (Lexed.ofSource source).fault (Lexed.ofSource source).tokens =
        .error f ∧
      err = ⟨f.fault, (Parser.ofSource source).stopOf f.offending⟩ := by
  obtain ⟨f, hf, rfl⟩ := Parser.settle_eq_error_iff.mp h
  rw [Step.toExcept_map, map_eq_error_iff] at hf
  exact ⟨f, hf, rfl⟩

/-! ### Earliest errors -/

/-- The error of a source with the given pieces, behind which the lexer gives an error or none, is
at the first thing that is wrong. -/
inductive SyntaxError.Earliest (source : String) (pieces : List Piece)
    (error? : Option LexicalError) : SyntaxError → Prop
  /-- Nothing but the lexical error is wrong. -/
  | lexical {g location} :
      error? = some ⟨g, location⟩ → BeginsProgram (pieces.map (·.token)) →
      Earliest source pieces error? ⟨.lexical g, location⟩
  /-- A token is wrong, and the error is behind it. -/
  | token {front p back fault} :
      pieces = front ++ p :: back → BeginsProgram (front.map (·.token)) →
      ¬BeginsProgram ((front ++ [p]).map (·.token)) → fault.Blames (some p.token) →
      Earliest source pieces error?
        ⟨fault, Location.start.after ((front ++ [p]).flatMap Piece.chars)⟩
  /-- A token is missing at the end of the source. -/
  | ending {fault} :
      error? = none → BeginsProgram (pieces.map (·.token)) → ¬IsProgram (pieces.map (·.token)) →
      fault.Blames none →
      Earliest source pieces error? ⟨fault, Location.start.after source.toList⟩

/-- The parser stops behind the token that is offending. -/
theorem Parser.stopOf_ofSource {source : String} {w rest : List Char} {front back : List Piece}
    {p : Piece} (h : Cut source.toList (front ++ p :: back) w rest) :
    (Parser.ofSource source).stopOf ((p :: back).map (·.token)) =
      Location.start.after ((front ++ [p]).flatMap Piece.chars) := by
  have htokens : (Parser.ofSource source).tokens =
      front.map (·.token) ++ (p :: back).map (·.token) := by
    rw [← List.map_append]
    exact (Lexed.of_cut h).1
  have hunread : (Parser.ofSource source).unread = lexemesFrom .start (front ++ p :: back) := by
    unfold ofSource
    rw [Lexed.ofSource_of_cut h]
  rw [stopOf_of_append htokens, hunread, List.length_map, getElem?_lexemesFrom]
  rw [List.getElem?_append_right le_rfl, List.take_length_add_append]
  simp

/-- The reading ends at the end of a source that has no lexical fault. -/
theorem Parser.ending_of_cut {source : String} {w rest : List Char} {pieces : List Piece}
    (h : Cut source.toList pieces w rest) (hfault : (Lexed.ofSource source).fault = none) :
    (Parser.ofSource source).lexed.ending = Location.start.after source.toList := by
  have hlexed : (Parser.ofSource source).lexed = Lexed.ofSource source := rfl
  rw [Lexed.ofSource_of_cut h] at hlexed hfault
  obtain rfl : rest = [] := by simpa using hfault
  rw [hlexed, ← h.append_eq, List.append_nil]

/-- Tokens that make every reader of programs fail begin no program. -/
theorem not_beginsProgram {ts : List Token}
    (h : ∀ more, ∃ f, Reader.of Grammar.program none (ts ++ more) = .error f) :
    ¬BeginsProgram ts := by
  rintro ⟨more, hprogram⟩
  obtain ⟨es, hes⟩ := hprogram.read
  obtain ⟨f, hf⟩ := h more
  rw [hf] at hes
  cases hes

/-- **Syntax errors are at the earliest wrong token.**  A source without a program is cut into
pieces whose tokens the lexer gives, and the error is at the first one with which no program goes
on, right behind its last character.  If there is no such piece the error is the lexical one that
ends the tokens, or, where the source ends well, one at the end of the source. -/
theorem Expr.ofSource_error {source : String} {err : SyntaxError}
    (h : Expr.ofSource source = .error err) :
    ∃ pieces layout rest error?, Cut source.toList pieces layout rest ∧
      (Lexer.ofSource source).Drains (pieces.map (·.token)) error? ∧
      SyntaxError.Earliest source pieces error? err := by
  obtain ⟨pieces, w, rest, hcut⟩ := exists_cut source.toList
  have htokens := (Lexed.of_cut hcut).1
  have hdrains := Lexer.drains_ofSource source
  have htext := Lexed.hasText source
  obtain ⟨⟨fault, offending, left⟩, hread, rfl⟩ := ofSource_eq_error h
  obtain ⟨hblames, p, hviable, hsplit, hagain⟩ := (Phrase.prompt_program _ _).error hread
  rw [htokens] at hsplit hdrains htext
  refine ⟨pieces, w, rest, _, hcut, hdrains, ?_⟩
  obtain ⟨front, behind, rfl, rfl, rfl⟩ := List.map_eq_append_iff.mp hsplit
  have hfront : BeginsProgram (front.map (·.token)) := by
    refine hviable.beginsProgram fun t ht => htext t ?_
    rw [List.map_append]
    exact List.mem_append_left _ ht
  cases behind with
  | nil =>
      have herror : (Lexed.ofSource source).error? =
          (Lexed.ofSource source).fault.map (⟨·, (Lexed.ofSource source).ending⟩) := rfl
      rw [List.map_nil, Parser.stopOf_nil]
      cases hfault : (Lexed.ofSource source).fault with
      | some g =>
          rw [hfault] at hblames herror
          obtain rfl : fault = .lexical g := hblames
          exact .lexical herror (by simpa using hfront)
      | none =>
          rw [hfault] at hblames hread herror
          rw [Parser.ending_of_cut hcut hfault]
          refine .ending herror (by simpa using hfront) (fun hprogram => ?_) hblames
          obtain ⟨es, hes⟩ := hprogram.read
          rw [← htokens, hread] at hes
          cases hes
  | cons q back =>
      dsimp only
      rw [Parser.stopOf_ofSource hcut]
      refine .token rfl hfront (not_beginsProgram fun more => ?_) hblames
      have hnext : SameNext ((q :: back).map (·.token)) (q.token :: more) := ⟨_, _, _, rfl, rfl⟩
      simpa using hagain none hnext

/-- A separator is missing before the fourth token. -/
theorem Expr.ofSource_error_separator :
    Expr.ofSource "f(1 2" = .error ⟨.expecting .punctuation ",", ⟨5, 1, 5⟩⟩ ∧
      ∃ pieces layout rest error?, Cut "f(1 2".toList pieces layout rest ∧
        (Lexer.ofSource "f(1 2").Drains (pieces.map (·.token)) error? ∧
        SyntaxError.Earliest "f(1 2" pieces error? ⟨.expecting .punctuation ",", ⟨5, 1, 5⟩⟩ := by
  have hfails : (match Expr.ofSource "f(1 2" with | .ok _ => none | .error err => some err) =
      some ⟨.expecting .punctuation ",", ⟨5, 1, 5⟩⟩ := by
    decide +kernel
  have herror : Expr.ofSource "f(1 2" = .error ⟨.expecting .punctuation ",", ⟨5, 1, 5⟩⟩ := by
    cases hsource : Expr.ofSource "f(1 2" with
    | ok e => rw [hsource] at hfails; cases hfails
    | error err => rw [hsource] at hfails; cases hfails; rfl
  exact ⟨herror, ofSource_error herror⟩

end ExprLang
