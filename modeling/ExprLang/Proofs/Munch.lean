import ExprLang.Proofs.Spelling
import ExprLang.Token.Lexed
import ExprLang.Token.Lexer

/-! # How a source is cut

A source is a sequence of pieces, each a stretch of layout and the text of a token, and a last
stretch of layout.  `Cut` says that a source is cut into pieces in this way; what is left is empty
or begins with a character with which no token begins.

Every source has exactly one cut (`exists_cut`, `Cut.unique`), and iterating over the source hands
out the tokens of the cut and then, if something is left, one error (`Lexer.yields_cut`). -/

namespace ExprLang

/-! ### Cuts -/

/-- A token and how it stands in a source: its text, and the layout before it. -/
@[ext]
structure Piece where
  layout : List Char
  text : List Char
  token : Token

/-- The part of the source that the piece is. -/
def Piece.chars (p : Piece) : List Char := p.layout ++ p.text

theorem after_chars_cons (l : Location) (p : Piece) (pieces : List Piece) (w : List Char) :
    (l.after p.chars).after (pieces.flatMap Piece.chars ++ w) =
      l.after ((p :: pieces).flatMap Piece.chars ++ w) := by
  rw [List.flatMap_cons, List.append_assoc]
  exact (Location.after_append _ _ _).symm

/-- `Cut cs pieces layout rest`: the text `cs` is the pieces, some layout and a rest with which
neither layout nor a token begins. -/
inductive Cut : List Char → List Piece → List Char → List Char → Prop
  | ending {layout rest} :
      Layout layout rest → Ends (fun c => BeginsLayout c ∨ BeginsToken c) rest →
      Cut (layout ++ rest) [] layout rest
  | piece {p more pieces layout rest} :
      Layout p.layout (p.text ++ more) → Spelled p.token p.text more →
      Cut more pieces layout rest → Cut (p.chars ++ more) (p :: pieces) layout rest

section cuts

variable {cs layout rest : List Char} {pieces : List Piece}

/-- Nothing is lost. -/
theorem Cut.append_eq (h : Cut cs pieces layout rest) :
    pieces.flatMap Piece.chars ++ layout ++ rest = cs := by
  induction h with
  | ending => rfl
  | piece _ _ _ ih => rw [← ih, List.flatMap_cons, List.append_assoc, List.append_assoc,
      List.append_assoc]

theorem Cut.ends (h : Cut cs pieces layout rest) :
    Ends (fun c => BeginsLayout c ∨ BeginsToken c) rest := by
  induction h with
  | ending _ hends => exact hends
  | piece _ _ _ ih => exact ih

theorem Spelled.cut {t : Token} {text w more : List Char} (ht : Spelled t text more)
    (hw : Layout w (text ++ more)) (h : Cut more pieces layout rest) :
    Cut (w ++ (text ++ more)) (⟨w, text, t⟩ :: pieces) layout rest := by
  rw [← List.append_assoc]
  exact @Cut.piece ⟨w, text, t⟩ _ _ _ _ hw ht h

theorem exists_cut (cs : List Char) : ∃ pieces layout rest, Cut cs pieces layout rest := by
  obtain ⟨n, hn⟩ : ∃ n, cs.length = n := ⟨_, rfl⟩
  induction n using Nat.strong_induction_on generalizing cs with
  | _ n ih =>
      obtain ⟨w, behind, rfl, hlayout, hends⟩ : ∃ w behind, w ++ behind = cs ∧
          Layout w behind ∧ Ends BeginsLayout behind :=
        ⟨_, _, splitLayout_append false cs, (layout_splitLayout cs).1, ends_splitLayout false cs⟩
      by_cases hnone : Ends BeginsToken behind
      · refine ⟨[], w, behind, .ending hlayout ?_⟩
        intro c hc hbegins
        exact hbegins.elim (hends c hc) (hnone c hc)
      · simp only [Ends, not_forall, not_not] at hnone
        obtain ⟨c, hc, hbegins⟩ := hnone
        obtain ⟨tail, rfl⟩ := List.head?_eq_some_iff.mp hc
        obtain ⟨t, text, more, hscan⟩ := exists_scan_of_begins hbegins tail
        obtain ⟨happend, hspelled⟩ := scan_eq_token_iff.mp hscan
        have hlt := Scan.token_length_lt hscan
        obtain ⟨pieces, layout, rest, hcut⟩ :=
          ih more.length (by rw [List.length_append] at hn; omega) more rfl
        rw [happend] at hlayout ⊢
        exact ⟨_, _, _, hspelled.cut hlayout hcut⟩

/-- A text has one cut: the first stretch of layout is the one that is cut off, and so is the text
of the first token. -/
theorem Cut.unique {pieces' : List Piece} {layout' rest' : List Char}
    (h : Cut cs pieces layout rest) (h' : Cut cs pieces' layout' rest') :
    pieces = pieces' ∧ layout = layout' ∧ rest = rest' := by
  induction h generalizing pieces' with
  | @ending w rest hw hends =>
      have hsplit := hw.splitLayout (hends.mono .inl)
      generalize w ++ rest = cs at h' hsplit
      cases h' with
      | ending hw' hends' =>
          rw [hw'.splitLayout (hends'.mono .inl)] at hsplit
          cases hsplit
          exact ⟨rfl, rfl, rfl⟩
      | piece hw' ht' _ =>
          obtain ⟨c, tail, hcs, hbegins⟩ := ht'.exists_begins
          rw [Piece.chars, List.append_assoc, hw'.splitLayout ht'.ends_layout] at hsplit
          cases hsplit
          exact absurd (.inr hbegins) (hends c (by rw [hcs]; rfl))
  | @piece p more _ _ _ hw ht _ ih =>
      have hsplit := hw.splitLayout ht.ends_layout
      rw [← List.append_assoc, ← Piece.chars] at hsplit
      generalize p.chars ++ more = cs at h' hsplit
      cases h' with
      | ending hw' hends' =>
          obtain ⟨c, tail, hcs, hbegins⟩ := ht.exists_begins
          rw [hw'.splitLayout (hends'.mono .inl)] at hsplit
          cases hsplit
          exact absurd (.inr hbegins) (hends' c (by rw [hcs]; rfl))
      | @piece p' more' _ _ _ hw' ht' h' =>
          rw [Piece.chars, List.append_assoc, hw'.splitLayout ht'.ends_layout,
            Prod.mk.injEq] at hsplit
          obtain ⟨hlayout, htext⟩ := hsplit
          have hscan := ht.scan
          rw [← htext, ht'.scan, Scan.token.injEq] at hscan
          obtain ⟨htoken, hsame, rfl⟩ := hscan
          obtain ⟨rfl, hlast⟩ := ih h'
          exact ⟨by rw [Piece.ext hlayout.symm hsame.symm htoken.symm], hlast⟩

end cuts

/-! ### Reading along a cut -/

theorem Cursor.readToken_piece {c : Cursor} {p : Piece} {more : List Char}
    (hc : c.rest = p.chars ++ more) (hw : Layout p.layout (p.text ++ more))
    (ht : Spelled p.token p.text more) :
    c.readToken = (.ok (some p.token), c.pass p.chars more) := by
  rw [Piece.chars, List.append_assoc] at hc
  unfold readToken
  rw [hc, hw.splitLayout ht.ends_layout]
  simp [ht.scan, pass, Piece.chars, Location.after_append]

theorem Cursor.readToken_ending {c : Cursor} {w : List Char} (hc : c.rest = w)
    (hw : Layout w []) : c.readToken = (.ok none, c.pass w []) := by
  have hsplit := hw.splitLayout ends_nil
  rw [List.append_nil] at hsplit
  unfold readToken
  rw [hc, hsplit]
  rfl

theorem Cursor.readToken_unexpected {c : Cursor} {w cs : List Char} {x : Char}
    (hc : c.rest = w ++ x :: cs) (hw : Layout w (x :: cs)) (hlayout : ¬BeginsLayout x)
    (htoken : ¬BeginsToken x) :
    c.readToken = (.error ⟨.unexpected x, c.location.after w⟩, c.pass w (x :: cs)) := by
  unfold readToken
  rw [hc, hw.splitLayout (ends_cons hlayout cs)]
  dsimp only
  rw [scan_of_not_begins htoken]
  rfl

namespace Lexer

/-- The items that iterating over the lexer hands out before it ends. -/
inductive Yields : Lexer → List (Except LexicalError Token) → Prop
  | ended {l l'} : l.next = (none, l') → Yields l []
  | item {l l' x xs} : l.next = (some x, l') → Yields l' xs → Yields l (x :: xs)

theorem Yields.unique {l : Lexer} {xs ys : List (Except LexicalError Token)} (h : l.Yields xs)
    (h' : l.Yields ys) : xs = ys := by
  induction h generalizing ys with
  | ended hnext =>
      cases h' with
      | ended => rfl
      | item hnext' => rw [hnext] at hnext'; cases hnext'
  | item hnext _ ih =>
      cases h' with
      | ended hnext' => rw [hnext] at hnext'; cases hnext'
      | item hnext' h' =>
          rw [hnext] at hnext'
          cases hnext'
          rw [ih h']

theorem next_of_token {c c' : Cursor} {t : Token} (h : c.readToken = (.ok (some t), c')) :
    next ⟨c, none, false⟩ = (some (.ok t), ⟨c', none, false⟩) := by
  simp [next, nextToken, h]

theorem next_of_ending {c c' : Cursor} (h : c.readToken = (.ok none, c')) :
    next ⟨c, none, false⟩ = (none, ⟨c', none, false⟩) := by
  simp [next, nextToken, h]

theorem next_of_error {c c' : Cursor} {e : LexicalError} (h : c.readToken = (.error e, c')) :
    next ⟨c, none, false⟩ = (some (.error e), ⟨c', none, true⟩) := by
  simp [next, nextToken, h]

theorem next_of_halted {l : Lexer} (h : l.halted = true) : l.next = (none, l) := by
  simp [next, h]

/-- The error that is handed out where something is left uncut. -/
def errorAt (location : Location) : List Char → List (Except LexicalError Token)
  | [] => []
  | c :: _ => [.error ⟨.unexpected c, location⟩]

theorem yields_of_cut {cs w rest : List Char} {pieces : List Piece}
    (h : Cut cs pieces w rest) (c : Cursor) (hc : c.rest = cs) :
    Yields ⟨c, none, false⟩ (pieces.map (.ok ·.token) ++
      errorAt (c.location.after (pieces.flatMap Piece.chars ++ w)) rest) := by
  induction h generalizing c with
  | @ending w rest hw hends =>
      cases rest with
      | nil =>
          rw [List.append_nil] at hc
          exact .ended (next_of_ending (c.readToken_ending hc hw))
      | cons x cs =>
          obtain ⟨hlayout, htoken⟩ := not_or.mp (hends x rfl)
          exact .item (next_of_error (c.readToken_unexpected hc hw hlayout htoken))
            (.ended (next_of_halted rfl))
  | @piece p more pieces w rest hw ht _ ih =>
      have hrest := ih (c.pass p.chars more) rfl
      rw [Cursor.pass, after_chars_cons] at hrest
      exact .item (next_of_token (c.readToken_piece hc hw ht)) hrest

/-- **Every source has one cut, and iterating over the source hands out its tokens.**  The items are
the tokens of the cut; if a rest is left that begins with neither layout nor a token, its first
character makes one more item, an error at the place where it stands. -/
theorem yields_cut (source : String) :
    ∃ pieces layout rest,
      (∀ ps w r, Cut source.toList ps w r ↔ ps = pieces ∧ w = layout ∧ r = rest) ∧
      source.toList = pieces.flatMap Piece.chars ++ layout ++ rest ∧
      ((rest = [] ∧
          ∀ items, (ofSource source).Yields items ↔ items = pieces.map (.ok ·.token)) ∨
        ∃ c cs, rest = c :: cs ∧ ¬BeginsLayout c ∧ ¬BeginsToken c ∧
          ∀ items, (ofSource source).Yields items ↔
            items = pieces.map (.ok ·.token) ++
              [.error ⟨.unexpected c,
                Location.start.after (pieces.flatMap Piece.chars ++ layout)⟩]) := by
  obtain ⟨pieces, layout, rest, hcut⟩ := exists_cut source.toList
  have hyields := yields_of_cut hcut (.ofSource source) rfl
  refine ⟨pieces, layout, rest, fun ps w r => ⟨fun h => h.unique hcut, ?_⟩,
    hcut.append_eq.symm, ?_⟩
  · rintro ⟨rfl, rfl, rfl⟩
    exact hcut
  · cases rest with
    | nil =>
        rw [errorAt, List.append_nil] at hyields
        refine .inl ⟨rfl, fun items => ⟨fun h => h.unique hyields, ?_⟩⟩
        rintro rfl
        exact hyields
    | cons c cs =>
        obtain ⟨hlayout, htoken⟩ := not_or.mp (hcut.ends c rfl)
        refine .inr ⟨c, cs, rfl, hlayout, htoken, fun items => ⟨fun h => h.unique hyields, ?_⟩⟩
        rintro rfl
        exact hyields

end Lexer

/-! ### Sources cut into tokens -/

theorem Cursor.lexemes_of_token {c c' : Cursor} {t : Token}
    (h : c.readToken = (.ok (some t), c')) :
    c.lexemes = (⟨t, c'.location⟩ :: c'.lexemes.1, c'.lexemes.2) := by
  rw [lexemes]
  split
  · next h' => rw [h] at h'; cases h'
  · next h' => rw [h] at h'; cases h'; rfl
  · next h' => rw [h] at h'; cases h'

theorem Cursor.lexemes_of_ending {c c' : Cursor} (h : c.readToken = (.ok none, c')) :
    c.lexemes = ([], c'.location, none) := by
  rw [lexemes]
  split
  · next h' => rw [h] at h'; cases h'; rfl
  · next h' => rw [h] at h'; cases h'
  · next h' => rw [h] at h'; cases h'

theorem Cursor.lexemes_of_error {c c' : Cursor} {e : LexicalError}
    (h : c.readToken = (.error e, c')) : c.lexemes = ([], e.location, some e.fault) := by
  rw [lexemes]
  split
  · next h' => rw [h] at h'; cases h'
  · next h' => rw [h] at h'; cases h'
  · next h' => rw [h] at h'; cases h'; rfl

/-- The tokens of pieces that follow one another from a location on, with the locations behind
them. -/
def lexemesFrom (l : Location) : List Piece → List Lexeme
  | [] => []
  | p :: ps => ⟨p.token, l.after p.chars⟩ :: lexemesFrom (l.after p.chars) ps

theorem map_token_lexemesFrom (l : Location) (pieces : List Piece) :
    (lexemesFrom l pieces).map (·.token) = pieces.map (·.token) := by
  induction pieces generalizing l with
  | nil => rfl
  | cons p ps ih => exact congrArg (p.token :: ·) (ih _)

/-- A token stops behind its piece. -/
theorem getElem?_lexemesFrom (l : Location) (pieces : List Piece) (k : ℕ) :
    (lexemesFrom l pieces)[k]? = pieces[k]?.map fun p =>
      ⟨p.token, l.after ((pieces.take (k + 1)).flatMap Piece.chars)⟩ := by
  induction pieces generalizing l k with
  | nil => rfl
  | cons p ps ih =>
      cases k with
      | zero => simp [lexemesFrom]
      | succ k =>
          rw [lexemesFrom, List.getElem?_cons_succ, ih, List.getElem?_cons_succ,
            List.take_succ_cons, List.flatMap_cons, Location.after_append]

theorem Cursor.lexemes_of_cut {cs w rest : List Char} {pieces : List Piece}
    (h : Cut cs pieces w rest) (c : Cursor) (hc : c.rest = cs) :
    c.lexemes = (lexemesFrom c.location pieces,
      c.location.after (pieces.flatMap Piece.chars ++ w), rest.head?.map .unexpected) := by
  induction h generalizing c with
  | @ending w rest hw hends =>
      cases rest with
      | nil =>
          rw [List.append_nil] at hc
          rw [lexemes_of_ending (c.readToken_ending hc hw)]
          rfl
      | cons x cs =>
          obtain ⟨hlayout, htoken⟩ := not_or.mp (hends x rfl)
          rw [lexemes_of_error (c.readToken_unexpected hc hw hlayout htoken)]
          rfl
  | @piece p more pieces w _ hw ht _ ih =>
      rw [lexemes_of_token (c.readToken_piece hc hw ht), ih (c.pass p.chars more) rfl, pass,
        after_chars_cons]
      rfl

/-- A source along its cut: the tokens with the places where they stop, the place where the reading
ends, and the character that begins what is left. -/
theorem Lexed.ofSource_of_cut {source : String} {w rest : List Char} {pieces : List Piece}
    (h : Cut source.toList pieces w rest) :
    ofSource source = ⟨source, lexemesFrom .start pieces,
      Location.start.after (pieces.flatMap Piece.chars ++ w), rest.head?.map .unexpected⟩ := by
  unfold ofSource
  rw [Cursor.lexemes_of_cut h (.ofSource source) rfl]
  rfl

/-- The tokens of a source are those of its cut, and there is no lexical error if nothing is left
uncut. -/
theorem Lexed.of_cut {source : String} {w rest : List Char} {pieces : List Piece}
    (h : Cut source.toList pieces w rest) :
    (ofSource source).tokens = pieces.map (·.token) ∧
      ((ofSource source).error? = none ↔ rest = []) := by
  rw [ofSource_of_cut h]
  exact ⟨map_token_lexemesFrom _ _, by simp [error?]⟩

end ExprLang
