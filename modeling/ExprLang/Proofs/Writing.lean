import ExprLang.Proofs.Insertion
import ExprLang.Proofs.Printing

/-! # Tokens written down

A list of tokens can be written down with layout between neighbours, and what is written is read as
the list again (`Lexer.drains_writeTokens`).  `Token.write` is the text of a token, and
`Token.Writable` says which tokens can be written.

Every one of them is spelled by its text before layout and at the end of a source
(`Token.Writable.spelled`), so the cut of what was written is built up from its end
(`CutInto.writeTokens`). -/

namespace ExprLang

/-! ### Writing -/

/-- The token can stand in a source: a name is a word and none of the keywords, a number is finite
and has no minus sign, and operators and punctuation marks are made of their characters. -/
def Token.Writable : Token → Prop
  | .keyword _ => True
  | .variable name => IsName name
  | .number x => ∃ m, x = .finite false m
  | .string _ => True
  | .operator text => text ≠ "" ∧ ∀ c ∈ text.toList, InOperator c
  | .punctuation c => IsMark c

/-- The token as it is written in a source: a number as it is displayed, and a string in quotes,
with a backslash before every quote and backslash in it. -/
def Token.write : Token → List Char
  | .keyword k => k.text.toList
  | .variable name => name.toList
  | .number x => x.display.toList
  | .string s => '"' :: (s.toList.flatMap Expr.printChar ++ ['"'])
  | .operator text => text.toList
  | .punctuation c => [c]

/-- The text can stand between two tokens: blanks and comments that end with their lines, at least
one of them. -/
structure Separator (u : List Char) : Prop where
  filler : Filler u
  ne_nil : u ≠ []

/-- The tokens with texts between neighbours, `separator i` behind the token at the place `i`. -/
def writeTokens (separator : ℕ → List Char) : List Token → List Char
  | [] => []
  | [t] => t.write
  | t :: t' :: ts =>
    t.write ++ (separator 0 ++ writeTokens (fun i => separator (i + 1)) (t' :: ts))

/-! ### Reading what was written -/

/-- What begins layout goes on with no word, number or operator. -/
theorem BeginsLayout.ends {c : Char} (h : BeginsLayout c) : ¬Joins c ∧ ¬InOperator c := by
  rw [Joins, ← isWordChar_iff, ← isOperatorChar_iff]
  rcases h with (rfl | rfl | rfl) | rfl <;> decide

theorem Token.Writable.spelled {t : Token} (h : t.Writable) {cs : List Char}
    (hcs : ∀ c ∈ cs.head?, BeginsLayout c) : Spelled t t.write cs := by
  have hjoins : Ends Joins cs := fun c hc => (hcs c hc).ends.1
  have hoperator : Ends InOperator cs := fun c hc => (hcs c hc).ends.2
  match t, h with
  | .keyword k, _ => exact .keyword k (hjoins.mono .inl)
  | .variable name, h => exact IsName.spelled h (hjoins.mono .inl)
  | .number x, ⟨m, hm⟩ =>
      rw [hm]
      exact spelled_display m hjoins
  | .string s, _ => exact spelled_string s cs
  | .operator text, ⟨hne, hrun⟩ =>
      exact spelled_operator (mt String.toList_eq_nil_iff.mp hne) hrun hoperator
  | .punctuation c, h => exact .punctuation h

/-- What is written is cut into the tokens. -/
theorem CutInto.writeTokens {separator : ℕ → List Char} {ts : List Token}
    (hts : ∀ t ∈ ts, t.Writable) (hseparator : ∀ i, i + 1 < ts.length → Separator (separator i)) :
    CutInto (writeTokens separator ts) ts := by
  induction ts generalizing separator with
  | nil => exact .nil
  | cons t ts ih =>
      obtain ⟨ht, hmore⟩ := List.forall_mem_cons.mp hts
      cases ts with
      | nil =>
          have htoken : CutInto (t.write ++ []) [t] := .token (ht.spelled nofun) .nil
          rwa [List.append_nil] at htoken
      | cons t' ts =>
          have hlater : ∀ i, i + 1 < (t' :: ts).length → Separator (separator (i + 1)) :=
            fun i hi => hseparator (i + 1) (Nat.succ_lt_succ hi)
          have hcut := ih hmore hlater
          have hfirst : Separator (separator 0) := hseparator 0 (by simp)
          refine .token (ht.spelled ?_) (.layout (hfirst.filler.layout _) hcut)
          -- The separator is not empty, so its beginning comes right behind the token.
          have hbegins := hfirst.filler.beginsLayout
          obtain ⟨c, u, hcons⟩ := List.exists_cons_of_ne_nil hfirst.ne_nil
          rw [hcons] at hbegins ⊢
          exact hbegins

/-- **Lexing undoes writing tokens down.**  Tokens that are written one behind the other, with any
blanks and comments between neighbours, make a source from which exactly these tokens are read, and
there is no error: whether a lexer is asked for them or iterated over, or the source is cut for a
parser. -/
theorem Lexer.drains_writeTokens {separator : ℕ → List Char} {ts : List Token}
    (hts : ∀ t ∈ ts, t.Writable) (hseparator : ∀ i, i + 1 < ts.length → Separator (separator i)) :
    let source := String.ofList (writeTokens separator ts)
    (Lexer.ofSource source).Drains ts none ∧
      (∀ items, (Lexer.ofSource source).Yields items ↔ items = ts.map .ok) ∧
      (Lexed.ofSource source).tokens = ts ∧ (Lexed.ofSource source).error? = none := by
  intro source
  obtain ⟨pieces, w, hcut, hpieces⟩ := CutInto.writeTokens hts hseparator
  rw [← @String.toList_ofList (writeTokens separator ts)] at hcut
  have htokens : (Lexed.ofSource source).tokens = ts := (Lexed.of_cut hcut).1.trans hpieces
  have herror : (Lexed.ofSource source).error? = none := (Lexed.of_cut hcut).2.mpr rfl
  have hdrains := drains_ofSource source
  rw [htokens, herror] at hdrains
  have hyields := yields_of_cut hcut (.ofSource source) rfl
  have hitems : pieces.map (fun p => (.ok p.token : Except LexicalError Token)) = ts.map .ok := by
    rw [← hpieces, List.map_map]
    rfl
  rw [errorAt, List.append_nil, hitems] at hyields
  refine ⟨hdrains, fun items => ⟨fun h => h.unique hyields, ?_⟩, htokens, herror⟩
  rintro rfl
  exact hyields

/-- A token of each kind, the string with all that means something else outside of one, and a
comment behind the name. -/
theorem Lexer.drains_writeTokens_each :
    let ts : List Token := [.keyword .ifWord, .variable "a1?", .number .zero,
      .string "\"\\#\n", .operator "=<", .punctuation ';']
    let separator (i : ℕ) : List Char := if i = 1 then ['\t', '#', '1', '\n'] else [' ']
    let source := "if a1?\t#1\n0 \"\\\"\\\\#\n\" =< ;"
    String.ofList (writeTokens separator ts) = source ∧
      (Lexer.ofSource source).Drains ts none ∧
      (∀ items, (Lexer.ofSource source).Yields items ↔ items = ts.map .ok) ∧
      (Lexed.ofSource source).tokens = ts ∧ (Lexed.ofSource source).error? = none := by
  intro ts separator source
  have hsource : String.ofList (writeTokens separator ts) = source := by decide +kernel
  have hname : IsName "a1?" := by
    refine ⟨'a', ['1', '?'], rfl, isWordStart_iff.mp rfl, fun c hc => ?_, fun k => ?_⟩
    · have hword : ['1', '?'].all isWordChar := rfl
      exact isWordChar_iff.mp (List.all_eq_true.mp hword c hc)
    · cases k <;> decide
  have hoperator : (Token.operator "=<").Writable := by
    refine ⟨by decide, fun c hc => ?_⟩
    have hrun : "=<".toList.all isOperatorChar := rfl
    exact isOperatorChar_iff.mp (List.all_eq_true.mp hrun c hc)
  have hts : ∀ t ∈ ts, t.Writable := by
    simp only [ts, List.forall_mem_cons]
    refine ⟨trivial, hname, ⟨.zero, rfl⟩, trivial, hoperator, ?_, List.forall_mem_nil _⟩
    exact isPunctuation_iff.mp rfl
  have hseparator : ∀ i, i + 1 < ts.length → Separator (separator i) := by
    intro i _
    unfold separator
    split
    · have hcomment : Filler ('#' :: (['1'] ++ ['\n'])) := .comment (by decide) .empty
      exact ⟨.blank (isBlank_iff.mp rfl) hcomment, List.cons_ne_nil _ _⟩
    · exact ⟨.blank (isBlank_iff.mp rfl) .empty, List.cons_ne_nil _ _⟩
  have hread := drains_writeTokens hts hseparator
  rw [hsource] at hread
  exact ⟨hsource, hread⟩

end ExprLang
