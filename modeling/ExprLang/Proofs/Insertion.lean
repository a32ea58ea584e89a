import ExprLang.Proofs.Acceptance
import ExprLang.Proofs.Lookahead

/-! # Layout between tokens

Layout may be inserted wherever a token begins and at the end of a source: the tokens stay the same,
and so does what the parser makes of them (`Expr.insert_filler`).  `Gap` says where that is, and
`Filler` which texts can be inserted; a comment in them has to end with its line.

What stands before the gap is cut as it was, because a token is ended by layout as well as by the
token behind it.  Only a string that is not closed goes on, and it can only stand at the very end
(`Unterminated`).  So the cut of the changed source is made of the pieces before the gap and the
pieces behind it, the first of which has more layout before it (`Cut.graft`). -/

namespace ExprLang

/-! ### What can be inserted -/

/-- The text consists of blanks and of comments that end with their lines. -/
inductive Filler : List Char → Prop
  | empty : Filler []
  | blank {c u} : IsBlank c → Filler u → Filler (c :: u)
  | comment {body u} : '\n' ∉ body → Filler u → Filler ('#' :: (body ++ '\n' :: u))

theorem Filler.layout {u : List Char} (h : Filler u) (rest : List Char) : Layout u rest := by
  induction h with
  | empty => exact .empty
  | blank hc _ ih => exact .blank hc ih
  | comment hbody _ ih => exact .comment hbody ih

theorem Filler.beginsLayout {u : List Char} (h : Filler u) : ∀ c ∈ u.head?, BeginsLayout c := by
  rintro c hc
  cases h with
  | empty => cases hc
  | blank hblank =>
      cases hc
      exact .inl hblank
  | comment =>
      cases hc
      exact .inr rfl

/-- A comment that the end of the source would end goes on to the end of the line. -/
theorem Filler.lastComment {u body : List Char} (h : Filler u) (hbody : '\n' ∉ body) :
    Layout ('#' :: (body ++ u)) [] := by
  induction h generalizing body with
  | empty =>
      rw [List.append_nil]
      exact .lastComment hbody
  | @blank c u _ hu ih =>
      by_cases hc : c = '\n'
      · rw [hc]
        exact .comment hbody (hu.layout [])
      · have hmore := @ih (body ++ [c]) (by simp [hbody, Ne.symm hc])
        rwa [List.append_assoc] at hmore
  | @comment body' u hbody' hu _ =>
      have hnot : '\n' ∉ body ++ '#' :: body' := by simp [hbody, hbody']
      have hlayout := Layout.comment hnot (hu.layout [])
      rwa [List.append_assoc] at hlayout

theorem Layout.append_filler {w rest u : List Char} (h : Layout w rest) (hu : Filler u) :
    Layout (w ++ u) rest := by
  induction h with
  | empty => exact hu.layout _
  | blank hc _ ih => exact .blank hc ih
  | comment hbody _ ih =>
      rw [List.cons_append, List.append_assoc]
      exact .comment hbody ih
  | lastComment hbody => exact hu.lastComment hbody

/-- Layout with something behind it is layout before anything. -/
theorem Layout.of_ne_nil {w rest : List Char} (h : Layout w rest) (hne : rest ≠ [])
    (rest' : List Char) : Layout w rest' := by
  induction h with
  | empty => exact .empty
  | blank hc _ ih => exact .blank hc (ih hne)
  | comment hbody _ ih => exact .comment hbody (ih hne)
  | lastComment => exact absurd rfl hne

/-! ### Tokens that go on -/

/-- The inside of a string as far as it goes, with no closing quote. -/
inductive Unclosed : List Char → Prop
  | empty : Unclosed []
  | backslash : Unclosed ['\\']
  | escaped {c text} : Unclosed text → Unclosed ('\\' :: c :: text)
  | plain {c text} : c ≠ '"' → c ≠ '\\' → Unclosed text → Unclosed (c :: text)

/-- The text is that of a string without its closing quote. -/
def Unterminated (text : List Char) : Prop := ∃ inside, text = '"' :: inside ∧ Unclosed inside

theorem Quoted.not_unclosed {value text rest : List Char} (h : Quoted value text rest)
    (hne : rest ≠ []) : ¬Unclosed text := by
  induction h with
  | closed =>
      rintro (_ | _ | _ | ⟨hquote, _, _⟩)
      exact hquote rfl
  | unclosed => exact absurd rfl hne
  | unfinished => exact absurd rfl hne
  | escaped _ ih =>
      rintro (_ | _ | htext | ⟨_, hbackslash, _⟩)
      · exact ih hne htext
      · exact hbackslash rfl
  | plain hquote hbackslash _ ih =>
      rintro (_ | _ | _ | ⟨_, _, htext⟩)
      · exact hbackslash rfl
      · exact hbackslash rfl
      · exact ih hne htext

theorem Quoted.before {value text rest : List Char} (h : Quoted value text rest)
    (hclosed : ¬Unclosed text) (rest' : List Char) : Quoted value text rest' := by
  induction h with
  | closed => exact .closed
  | unclosed => exact absurd .empty hclosed
  | unfinished => exact absurd .backslash hclosed
  | escaped _ ih => exact .escaped (ih fun htext => hclosed (.escaped htext))
  | plain hquote hbackslash _ ih =>
      exact .plain hquote hbackslash (ih fun htext => hclosed (.plain hquote hbackslash htext))

/-- A text that begins with a quote is that of a string. -/
theorem Spelled.quoted {t : Token} {inside rest : List Char} (h : Spelled t ('"' :: inside) rest) :
    ∃ value, Quoted value inside rest := by
  have hscan := h.scan
  rw [List.cons_append, ExprLang.scan, if_pos rfl, Scan.token.injEq, List.cons.injEq] at hscan
  obtain ⟨-, ⟨-, htext⟩, hrest⟩ := hscan
  have hquoted := quoted_splitString (inside ++ rest)
  rw [htext, hrest] at hquoted
  exact ⟨_, hquoted⟩

theorem Spelled.terminated {t : Token} {text rest : List Char} (h : Spelled t text rest)
    (hne : rest ≠ []) : ¬Unterminated text := by
  rintro ⟨inside, rfl, hinside⟩
  obtain ⟨value, hquoted⟩ := h.quoted
  exact hquoted.not_unclosed hne hinside

theorem BeginsLayout.not_inWord {c : Char} (h : BeginsLayout c) : ¬InWord c := by
  rw [← isWordChar_iff]
  obtain (rfl | rfl | rfl) | rfl := h <;> decide

theorem BeginsLayout.not_point {c : Char} (h : BeginsLayout c) : c ≠ '.' := by
  obtain (rfl | rfl | rfl) | rfl := h <;> decide

/-- A class that ends before one text ends before another one that begins in the same way or with
layout. -/
theorem Ends.before {q : Char → Prop} {rest rest' : List Char} (h : Ends q rest)
    (hq : ∀ {c}, BeginsLayout c → ¬q c)
    (hhead : ∀ c ∈ rest'.head?, c ∈ rest.head? ∨ BeginsLayout c) : Ends q rest' := by
  intro c hc
  rcases hhead c hc with hmem | hlayout
  · exact h c hmem
  · exact hq hlayout

/-- Layout ends a token as well as what stands behind it. -/
theorem Spelled.before {t : Token} {text rest rest' : List Char} (h : Spelled t text rest)
    (hterminated : ¬Unterminated text)
    (hhead : ∀ c ∈ rest'.head?, c ∈ rest.head? ∨ BeginsLayout c) : Spelled t text rest' := by
  have hbegins : ∀ {c}, BeginsLayout c → ¬BeginsToken c := BeginsLayout.not_beginsToken
  cases h with
  | keyword k hends => exact .keyword k (hends.before BeginsLayout.not_inWord hhead)
  | name hc hrun hname hends =>
      exact .name hc hrun hname (hends.before BeginsLayout.not_inWord hhead)
  | number hnumeral hx hends =>
      refine .number hnumeral hx (hends.before ?_ hhead)
      rintro c hlayout (hdigit | ⟨hpoint, -⟩)
      · exact hbegins hlayout (.inr (.inl hdigit))
      · exact hlayout.not_point hpoint
  | string hquoted =>
      exact .string (hquoted.before (fun hinside => hterminated ⟨_, rfl, hinside⟩) rest')
  | operator hne hrun hends =>
      refine .operator hne hrun (hends.before ?_ hhead)
      intro c hlayout hoperator
      exact hbegins hlayout (.inr (.inr (.inr (.inr hoperator))))
  | punctuation hmark => exact .punctuation hmark

/-! ### The gaps of a text -/

theorem Cut.uncons {p : Piece} {pieces : List Piece} {cs w rest : List Char}
    (h : Cut cs (p :: pieces) w rest) :
    ∃ more, cs = p.chars ++ more ∧ Layout p.layout (p.text ++ more) ∧
      Spelled p.token p.text more ∧ Cut more pieces w rest := by
  cases h with
  | piece hw ht hmore => exact ⟨_, rfl, hw, ht, hmore⟩

/-- The first pieces of a cut may have another cut behind them, if it begins in the same way or with
layout.  With nothing behind them the last one must not be a string that would go on. -/
theorem Cut.graft {cs w rest : List Char} {front back : List Piece}
    (h : Cut cs (front ++ back) w rest) :
    ∃ tail, cs = front.flatMap Piece.chars ++ tail ∧ Cut tail back w rest ∧
      ∀ {tail' w' rest' : List Char} {back' : List Piece}, Cut tail' back' w' rest' →
        (∀ c ∈ tail'.head?, c ∈ tail.head? ∨ BeginsLayout c) →
        (tail = [] → ∀ p ∈ front.getLast?, ¬Unterminated p.text) →
        Cut (front.flatMap Piece.chars ++ tail') (front ++ back') w' rest' := by
  induction front generalizing cs with
  | nil => exact ⟨cs, rfl, h, fun h' _ _ => h'⟩
  | cons p front ih =>
      obtain ⟨more, rfl, hw, ht, hmore⟩ := h.uncons
      obtain ⟨tail, rfl, htail, hgraft⟩ := ih hmore
      have hlayout := hw.of_ne_nil (List.append_ne_nil_of_left_ne_nil ht.ne_nil _)
      refine ⟨tail, ?_, htail, ?_⟩
      · rw [List.flatMap_cons, List.append_assoc]
      · intro tail' w' rest' back' hcut hhead hlast
        rw [List.flatMap_cons, List.append_assoc]
        cases front with
        | nil =>
            have hterminated : ¬Unterminated p.text := by
              by_cases htail : tail = []
              · exact hlast htail p rfl
              · exact ht.terminated htail
            exact .piece (hlayout _) (ht.before hterminated hhead) hcut
        | cons q front =>
            have hrest := hgraft hcut hhead fun htail p' hp' =>
              hlast htail p' (by rwa [List.getLast?_cons_cons])
            obtain ⟨_, -, -, hq, -⟩ := hmore.uncons
            have hne : q.chars ≠ [] := List.append_ne_nil_of_right_ne_nil _ hq.ne_nil
            obtain ⟨c, cs, hchars⟩ := List.exists_cons_of_ne_nil hne
            refine .piece (hlayout _) (ht.before (ht.terminated ?_) ?_) hrest
            · simp [hchars]
            · simp [hchars]

/-- The places in a text where layout may be inserted, as the text before them and the text behind
them. -/
inductive Gap : List Char → List Char → Prop
  /-- A token begins there. -/
  | token {front p back w rest after} :
      Cut (front.flatMap Piece.chars ++ p.layout ++ after) (front ++ p :: back) w rest →
      Gap (front.flatMap Piece.chars ++ p.layout) after
  /-- The text ends there without an error, and not inside a string. -/
  | ending {cs pieces w} :
      Cut cs pieces w [] → (∀ p ∈ pieces.getLast?, ¬Unterminated p.text) → Gap cs []

theorem Filler.head?_append {u : List Char} (h : Filler u) (cs ds : List Char) :
    ∀ c ∈ (cs ++ u ++ ds).head?, c ∈ (cs ++ ds).head? ∨ BeginsLayout c := by
  intro c hc
  cases cs with
  | cons => exact .inl hc
  | nil =>
      cases u with
      | nil => exact .inl hc
      | cons => exact .inr (h.beginsLayout c hc)

/-- Inserting layout changes the layout in the cut of a text and nothing else. -/
theorem Gap.cut {before after u : List Char} (h : Gap before after) (hu : Filler u) :
    ∃ pieces w pieces' w' rest, Cut (before ++ after) pieces w rest ∧
      Cut (before ++ u ++ after) pieces' w' rest ∧
      pieces'.map (·.token) = pieces.map (·.token) := by
  cases h with
  | @token front p back w rest after hcut =>
      obtain ⟨tail, htail, hback, hgraft⟩ := hcut.graft
      obtain ⟨more, rfl, hw, ht, hmore⟩ := hback.uncons
      obtain rfl : after = p.text ++ more := by simpa [Piece.chars] using htail
      have hcut' := hgraft (ht.cut (hw.append_filler hu) hmore)
        (by simpa [Piece.chars] using hu.head?_append p.layout (p.text ++ more))
        (by simp [Piece.chars, ht.ne_nil])
      refine ⟨_, w, front ++ ⟨p.layout ++ u, p.text, p.token⟩ :: back, w, rest, hcut, ?_, ?_⟩
      · simpa using hcut'
      · simp
  | @ending cs pieces w hcut hlast =>
      rw [← List.append_nil pieces] at hcut
      obtain ⟨tail, htail, hback, hgraft⟩ := hcut.graft
      rw [List.append_nil] at hcut
      obtain ⟨rfl, hw⟩ : tail = w ∧ Layout w [] := by
        cases hback with
        | ending hw _ => exact ⟨List.append_nil _, hw⟩
      have hcut' := hgraft (.ending (hw.append_filler hu) ends_nil)
        (by simpa using hu.head?_append tail [])
        fun _ => hlast
      refine ⟨pieces, tail, pieces, tail ++ u, [], ?_, ?_, rfl⟩
      · simpa using hcut
      · simpa [htail] using hcut'

/-! ### What the parser makes of it -/

theorem Parser.mapError_settle {α : Type} {n : ℕ} (p : Parser) (s : Step α n) :
    (p.settle s).1.mapError (·.fault) = (s.toExcept.map (·.1)).mapError (·.fault) := by
  cases s <;> rfl

/-- The program that a source holds, and the fault if it holds none, depend on its tokens and on how
they end. -/
theorem Expr.mapError_ofSource (source : String) :
    (ofSource source).mapError (·.fault) =
      ((Grammar.program (Lexed.ofSource source).fault (Lexed.ofSource source).tokens).toExcept.map
        fun p => Expr.program p.1).mapError (·.fault) := by
  unfold ofSource Parser.program
  rw [Parser.mapError_settle, Step.toExcept_map]
  have htokens : (Parser.ofSource source).tokens = (Lexed.ofSource source).tokens := rfl
  have hlexed : (Parser.ofSource source).lexed = Lexed.ofSource source := rfl
  rw [htokens, hlexed]
  cases (Grammar.program (Lexed.ofSource source).fault (Lexed.ofSource source).tokens).toExcept <;>
    rfl

theorem Lexed.map_fault_error? (l : Lexed) : l.error?.map (·.fault) = l.fault := by
  unfold error?
  cases l.fault <;> rfl

/-- **Layout between tokens means nothing.**  Layout is inserted where a token begins, or at the end
of a source that ends without an error and not inside a string.  Then the lexer gives the same
tokens and, behind them, an error of the same kind or none; and the parser gives the same program,
or an error of the same kind. -/
theorem Expr.insert_filler {source : String} {before after u : List Char}
    (hsource : source.toList = before ++ after) (hgap : Gap before after) (hu : Filler u) :
    (∃ ts error error', (Lexer.ofSource source).Drains ts error ∧
      (Lexer.ofSource (String.ofList (before ++ u ++ after))).Drains ts error' ∧
      error'.map (·.fault) = error.map (·.fault)) ∧
    (ofSource (String.ofList (before ++ u ++ after))).mapError (·.fault) =
      (ofSource source).mapError (·.fault) := by
  obtain ⟨pieces, w, pieces', w', rest, hcut, hcut', hpieces⟩ := hgap.cut hu
  rw [← hsource] at hcut
  rw [← @String.toList_ofList (before ++ u ++ after)] at hcut'
  generalize String.ofList (before ++ u ++ after) = changed at *
  have htokens : (Lexed.ofSource changed).tokens = (Lexed.ofSource source).tokens := by
    rw [(Lexed.of_cut hcut').1, (Lexed.of_cut hcut).1, hpieces]
  have hfault : (Lexed.ofSource changed).fault = (Lexed.ofSource source).fault := by
    rw [Lexed.ofSource_of_cut hcut', Lexed.ofSource_of_cut hcut]
  constructor
  · refine ⟨_, _, (Lexed.ofSource changed).error?, Lexer.drains_ofSource source, ?_, ?_⟩
    · rw [← htokens]
      exact Lexer.drains_ofSource changed
    · rw [Lexed.map_fault_error?, Lexed.map_fault_error?, hfault]
  · rw [mapError_ofSource, mapError_ofSource, htokens, hfault]

/-- A comment is inserted between a name and the parenthesis behind it, in a source that goes on
with a character with which no token begins. -/
theorem Expr.insert_filler_comment :
    "f)@".toList = ['f'] ++ [')', '@'] ∧ Gap ['f'] [')', '@'] ∧ Filler ['#', ')', '\n'] ∧
      (∃ ts error error', (Lexer.ofSource "f)@").Drains ts error ∧
        (Lexer.ofSource (String.ofList (['f'] ++ ['#', ')', '\n'] ++ [')', '@']))).Drains
          ts error' ∧
        error'.map (·.fault) = error.map (·.fault)) ∧
      (ofSource (String.ofList (['f'] ++ ['#', ')', '\n'] ++ [')', '@']))).mapError (·.fault) =
        (ofSource "f)@").mapError (·.fault) := by
  have hname : Spelled (.variable "f") ['f'] [')', '@'] :=
    .name (by decide) nofun (by intro k; cases k <;> decide) (ends_cons (by decide) _)
  have hrest : Cut ['@'] [] [] ['@'] := .ending .empty (ends_cons (by decide) _)
  have hcut : Cut ['f', ')', '@'] _ [] ['@'] :=
    hname.cut .empty (Spelled.cut (.punctuation (by decide)) .empty hrest)
  have hgap : Gap ['f'] [')', '@'] :=
    @Gap.token [⟨[], ['f'], .variable "f"⟩] ⟨[], [')'], .punctuation ')'⟩ [] _ _ [')', '@'] hcut
  have hfiller : Filler ['#', ')', '\n'] := @Filler.comment [')'] [] (by decide) .empty
  exact ⟨rfl, hgap, hfiller, insert_filler rfl hgap hfiller⟩

end ExprLang
