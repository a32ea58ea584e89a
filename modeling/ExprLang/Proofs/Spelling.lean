import ExprLang.Proofs.Numeral
import ExprLang.Token.Scan

/-! # How layout and tokens are spelled

`Layout` says which texts are layout, `Quoted` which are the inside of a string and `Spelled` which
are those of a token.  All of them speak about the text together with what follows it, because a
text of a token is as long as it can be: `Spelled` says what may not follow.

The functions that cut off layout and tokens are described by these relations:
`Layout.splitLayout` and `layout_splitLayout`, `Quoted.splitString` and `quoted_splitString`, and
for a whole token `scan_eq_token_iff`.  Every text that begins like a token has one in front
(`exists_scan_of_begins`). -/

namespace ExprLang

/-! ### Classes of characters -/

/-- Space, tab and line feed -/
def IsBlank (c : Char) : Prop := c = ' ' ∨ c = '\t' ∨ c = '\n'

/-- `[a-z]` -/
def IsSmall (c : Char) : Prop := 'a' ≤ c ∧ c ≤ 'z'

/-- `[0-9]` -/
def IsDigit (c : Char) : Prop := '0' ≤ c ∧ c ≤ '9'

/-- `[A-Za-z0-9-?!]` -/
def InWord (c : Char) : Prop :=
  ('A' ≤ c ∧ c ≤ 'Z') ∨ IsSmall c ∨ IsDigit c ∨ c = '-' ∨ c = '?' ∨ c = '!'

/-- The punctuation marks -/
def IsMark (c : Char) : Prop := c ∈ [',', ';', '(', ')', '\x7b', '\x7d', '[', ']']

/-- The characters of operators -/
def InOperator (c : Char) : Prop := c ∈ ['+', '-', '*', '/', '=', '%', '|', '&', '<', '>', '!']

/-- Layout goes on with this character. -/
def BeginsLayout (c : Char) : Prop := IsBlank c ∨ c = '#'

/-- A token begins with this character. -/
def BeginsToken (c : Char) : Prop :=
  c = '"' ∨ IsDigit c ∨ IsSmall c ∨ IsMark c ∨ InOperator c

instance : DecidablePred IsSmall := fun c => inferInstanceAs (Decidable ('a' ≤ c ∧ c ≤ 'z'))

instance : DecidablePred IsDigit := fun c => inferInstanceAs (Decidable ('0' ≤ c ∧ c ≤ '9'))

instance : DecidablePred InWord := fun c => inferInstanceAs
  (Decidable (('A' ≤ c ∧ c ≤ 'Z') ∨ IsSmall c ∨ IsDigit c ∨ c = '-' ∨ c = '?' ∨ c = '!'))

instance : DecidablePred IsMark := fun c => inferInstanceAs
  (Decidable (c ∈ [',', ';', '(', ')', '\x7b', '\x7d', '[', ']']))

instance : DecidablePred InOperator := fun c => inferInstanceAs
  (Decidable (c ∈ ['+', '-', '*', '/', '=', '%', '|', '&', '<', '>', '!']))

instance : DecidablePred BeginsLayout := fun c => inferInstanceAs
  (Decidable ((c = ' ' ∨ c = '\t' ∨ c = '\n') ∨ c = '#'))

instance : DecidablePred BeginsToken := fun c => inferInstanceAs
  (Decidable (c = '"' ∨ IsDigit c ∨ IsSmall c ∨ IsMark c ∨ InOperator c))

/-- The text is empty or begins with a character outside the class. -/
def Ends (p : Char → Prop) (rest : List Char) : Prop := ∀ c ∈ rest.head?, ¬p c

theorem ends_nil {p : Char → Prop} : Ends p [] := fun _ h => nomatch h

theorem ends_cons {p : Char → Prop} {c : Char} (h : ¬p c) (cs : List Char) : Ends p (c :: cs) := by
  rintro _ ⟨⟩
  exact h

/-- A smaller class ends with a greater one. -/
theorem Ends.mono {p q : Char → Prop} {rest : List Char} (h : Ends q rest)
    (himp : ∀ {c}, p c → q c) : Ends p rest := by
  intro c hc hp
  exact h c hc (himp hp)

theorem isBlank_iff {c : Char} : isBlank c = true ↔ IsBlank c := by
  simp [isBlank, IsBlank, or_assoc]

theorem isDigit_iff {c : Char} : c.isDigit = true ↔ IsDigit c := by
  simp [Char.isDigit, IsDigit, Char.le_def]

theorem isWordStart_iff {c : Char} : isWordStart c = true ↔ IsSmall c := by
  have hsmall : isWordStart c = (decide ('a' ≤ c) && decide (c ≤ 'z')) := rfl
  rw [hsmall, Bool.and_eq_true, decide_eq_true_eq, decide_eq_true_eq, IsSmall]

theorem isWordChar_iff {c : Char} : isWordChar c = true ↔ InWord c := by
  have hword : isWordChar c = (decide ('A' ≤ c ∧ c ≤ 'Z') || isWordStart c || c.isDigit ||
      decide (c = '-') || decide (c = '?') || decide (c = '!')) := rfl
  simp only [hword, InWord, ← isWordStart_iff, ← isDigit_iff, Bool.or_eq_true, decide_eq_true_eq,
    or_assoc]

theorem isPunctuation_iff {c : Char} : isPunctuation c = true ↔ IsMark c :=
  List.contains_iff_mem

theorem isOperatorChar_iff {c : Char} : isOperatorChar c = true ↔ InOperator c :=
  List.contains_iff_mem

/-! ### Runs of characters -/

section runs

variable {p : Char → Prop} {q : Char → Bool} (hq : ∀ {c}, q c = true ↔ p c)
include hq

theorem takeWhile_run {run rest : List Char} (hrun : ∀ c ∈ run, p c) (hrest : Ends p rest) :
    (run ++ rest).takeWhile q = run := by
  rw [List.takeWhile_append_of_pos fun c hc => hq.mpr (hrun c hc)]
  cases rest with
  | nil => simp
  | cons c cs =>
      have hc : ¬q c = true := fun h => hrest c rfl (hq.mp h)
      simp [hc]

theorem dropWhile_run {run rest : List Char} (hrun : ∀ c ∈ run, p c) (hrest : Ends p rest) :
    (run ++ rest).dropWhile q = rest := by
  rw [List.dropWhile_append_of_pos fun c hc => hq.mpr (hrun c hc)]
  cases rest with
  | nil => rfl
  | cons c cs =>
      have hc : ¬q c = true := fun h => hrest c rfl (hq.mp h)
      simp [hc]

theorem of_mem_takeWhile (cs : List Char) : ∀ c ∈ cs.takeWhile q, p c := by
  intro c hc
  exact hq.mp (List.mem_takeWhile_imp hc)

theorem ends_dropWhile (cs : List Char) : Ends p (cs.dropWhile q) := by
  intro c hc hp
  have hnot := List.head?_dropWhile_not q cs
  rw [Option.mem_def.mp hc] at hnot
  simp [hq.mpr hp] at hnot

end runs

/-! ### Layout -/

/-- The text consists of blanks and comments.  A comment runs through the end of its line or, if
nothing follows the text, through the end of the source. -/
inductive Layout : List Char → List Char → Prop
  | empty {rest} : Layout [] rest
  | blank {c w rest} : IsBlank c → Layout w rest → Layout (c :: w) rest
  | comment {body w rest} :
      '\n' ∉ body → Layout w rest → Layout ('#' :: (body ++ '\n' :: w)) rest
  | lastComment {body} : '\n' ∉ body → Layout ('#' :: body) []

theorem Layout.append {u w rest : List Char} (hu : Layout u (w ++ rest)) (hw : Layout w rest) :
    Layout (u ++ w) rest := by
  generalize hbehind : w ++ rest = behind at hu
  induction hu with
  | empty => exact hw
  | blank hc _ ih => exact .blank hc (ih hbehind)
  | comment hbody _ ih =>
      rw [List.cons_append, List.append_assoc]
      exact .comment hbody (ih hbehind)
  | lastComment hbody =>
      obtain ⟨rfl, rfl⟩ := List.append_eq_nil_iff.mp hbehind
      rw [List.append_nil]
      exact .lastComment hbody

theorem IsBlank.ne_hash {c : Char} (h : IsBlank c) : c ≠ '#' := by
  rintro rfl
  simp [IsBlank] at h

theorem splitLayout_comment {body : List Char} (h : '\n' ∉ body) (cs : List Char) :
    splitLayout true (body ++ '\n' :: cs) =
      (body ++ '\n' :: (splitLayout false cs).1, (splitLayout false cs).2) := by
  induction body with
  | nil => simp [splitLayout]
  | cons c body ih =>
      simp only [List.mem_cons, not_or] at h
      have hc : (c != '\n') = true := by simpa using Ne.symm h.1
      simp [splitLayout, hc, ih h.2]

theorem splitLayout_lastComment {body : List Char} (h : '\n' ∉ body) :
    splitLayout true body = (body, []) := by
  induction body with
  | nil => rfl
  | cons c body ih =>
      simp only [List.mem_cons, not_or] at h
      have hc : (c != '\n') = true := by simpa using Ne.symm h.1
      simp [splitLayout, hc, ih h.2]

theorem splitLayout_of_ends {rest : List Char} (h : Ends BeginsLayout rest) :
    splitLayout false rest = ([], rest) := by
  cases rest with
  | nil => rfl
  | cons c cs =>
      have hc := not_or.mp (h c rfl)
      have hblank : isBlank c = false := by
        rw [Bool.eq_false_iff]
        intro hb
        exact hc.1 (isBlank_iff.mp hb)
      simp [splitLayout, hblank, hc.2]

theorem Layout.splitLayout {w rest : List Char} (h : Layout w rest)
    (hrest : Ends BeginsLayout rest) : splitLayout false (w ++ rest) = (w, rest) := by
  induction h with
  | empty => exact splitLayout_of_ends hrest
  | blank hc _ ih =>
      simp [ExprLang.splitLayout, isBlank_iff.mpr hc, hc.ne_hash, ih hrest]
  | comment hbody _ ih =>
      simp [ExprLang.splitLayout, splitLayout_comment hbody, ih hrest]
  | lastComment hbody =>
      simp [ExprLang.splitLayout, splitLayout_lastComment hbody]

/-- A comment may begin with any other character of its line. -/
theorem Layout.comment_cons {c : Char} {w rest : List Char} (hc : c ≠ '\n')
    (h : Layout ('#' :: w) rest) : Layout ('#' :: c :: w) rest := by
  have hbody : ∀ {body : List Char}, '\n' ∉ body → '\n' ∉ c :: body := by
    intro body hnot hmem
    rcases List.mem_cons.mp hmem with hn | hmem
    · exact hc hn.symm
    · exact hnot hmem
  cases h with
  | blank hblank => exact absurd rfl hblank.ne_hash
  | @comment body w _ hnot hw => exact @Layout.comment (c :: body) w rest (hbody hnot) hw
  | lastComment hnot => exact .lastComment (hbody hnot)

/-- What is cut off is layout, the rest of a comment together with its hash. -/
theorem layout_splitLayout (cs : List Char) :
    Layout (splitLayout false cs).1 (splitLayout false cs).2 ∧
      Layout ('#' :: (splitLayout true cs).1) (splitLayout true cs).2 := by
  induction cs with
  | nil => exact ⟨.empty, .lastComment List.not_mem_nil⟩
  | cons c cs ih =>
      constructor
      · by_cases hblank : IsBlank c
        · simpa [splitLayout, isBlank_iff.mpr hblank, hblank.ne_hash] using .blank hblank ih.1
        · by_cases hhash : c = '#'
          · simpa [splitLayout, hhash] using ih.2
          · rw [splitLayout_of_ends]
            · exact .empty
            · exact ends_cons (not_or.mpr ⟨hblank, hhash⟩) cs
      · by_cases hc : c = '\n'
        · simpa [splitLayout, hc] using @Layout.comment [] _ _ List.not_mem_nil ih.1
        · have hne : (c != '\n') = true := by simpa using hc
          simpa [splitLayout, hne] using ih.2.comment_cons hc

theorem ends_splitLayout (inComment : Bool) (cs : List Char) :
    Ends BeginsLayout (splitLayout inComment cs).2 := by
  fun_induction splitLayout inComment cs with
  | case1 => exact ends_nil
  | case2 => simp_all
  | case3 => simp_all
  | case4 _ c cs hin hnot =>
      simp only [Bool.or_eq_true, isBlank_iff, decide_eq_true_eq] at hnot
      exact ends_cons hnot cs

/-! ### The inside of strings -/

/-- `Quoted value text rest`: the text means the characters `value` and ends with the first quote
that no backslash escapes.  A string that is not closed runs to the end of the source. -/
inductive Quoted : List Char → List Char → List Char → Prop
  | closed {rest} : Quoted [] ['"'] rest
  | unclosed : Quoted [] [] []
  /-- A backslash with nothing behind it means nothing. -/
  | unfinished : Quoted [] ['\\'] []
  | escaped {c value text rest} :
      Quoted value text rest → Quoted (c :: value) ('\\' :: c :: text) rest
  | plain {c value text rest} :
      c ≠ '"' → c ≠ '\\' → Quoted value text rest → Quoted (c :: value) (c :: text) rest

theorem Quoted.splitString {value text rest : List Char} (h : Quoted value text rest) :
    splitString false (text ++ rest) = ⟨value, text, rest⟩ := by
  induction h with
  | closed => simp [ExprLang.splitString]
  | unclosed => rfl
  | unfinished => rfl
  | escaped _ ih => simp [ExprLang.splitString, ih]
  | plain hquote hbackslash _ ih => simp [ExprLang.splitString, hquote, hbackslash, ih]

theorem quoted_splitString : ∀ cs : List Char,
    Quoted (splitString false cs).value (splitString false cs).text (splitString false cs).rest
  | [] => .unclosed
  | c :: cs => by
      by_cases hquote : c = '"'
      · simpa [splitString, hquote] using .closed
      by_cases hbackslash : c = '\\'
      · subst hbackslash
        match cs with
        | [] => exact .unfinished
        | c :: cs => simpa [splitString] using (quoted_splitString cs).escaped
      · simpa [splitString, hquote, hbackslash] using
          (quoted_splitString cs).plain hquote hbackslash

/-! ### Tokens -/

/-- `Spelled t text rest`: the text is that of the token, and what follows cannot make the token
longer. -/
inductive Spelled : Token → List Char → List Char → Prop
  | keyword (k : Keyword) {rest} : Ends InWord rest → Spelled (.keyword k) k.text.toList rest
  | name {c run rest} :
      IsSmall c → (∀ x ∈ run, InWord x) → (∀ k : Keyword, k.text.toList ≠ c :: run) →
      Ends InWord rest → Spelled (.variable (String.ofList (c :: run))) (c :: run) rest
  /-- A digit would make any number longer and a point one that has none. -/
  | number {text d x rest} :
      Numeral text d → Number.ofText? (String.ofList text) = some x →
      Ends (fun c => IsDigit c ∨ (c = '.' ∧ '.' ∉ text)) rest → Spelled (.number x) text rest
  | string {value text rest} :
      Quoted value text rest → Spelled (.string (String.ofList value)) ('"' :: text) rest
  | operator {run rest} :
      run ≠ [] → (∀ c ∈ run, InOperator c) → Ends InOperator rest →
      Spelled (.operator (String.ofList run)) run rest
  | punctuation {c rest} : IsMark c → Spelled (.punctuation c) [c] rest

/-! ### Words -/

theorem Keyword.ofText?_text (k : Keyword) : ofText? k.text = some k := by
  cases k <;> decide

theorem Token.ofWord_text (k : Keyword) : ofWord k.text = .keyword k := by
  unfold ofWord
  rw [Keyword.ofText?_text]

theorem Token.ofWord_of_ne {word : String} (h : ∀ k : Keyword, k.text ≠ word) :
    ofWord word = .variable word := by
  have hnone : Keyword.ofText? word = none := by
    unfold Keyword.ofText?
    rw [List.find?_eq_none]
    intro k _
    simp [h k]
  unfold ofWord
  rw [hnone]

/-- Keywords are words. -/
theorem Keyword.text_eq_cons (k : Keyword) :
    ∃ c run, k.text.toList = c :: run ∧ IsSmall c ∧ ∀ x ∈ run, InWord x := by
  have hword : ∃ c run, k.text.toList = c :: run ∧ isWordStart c ∧ run.all isWordChar := by
    cases k <;> exact ⟨_, _, rfl, rfl, rfl⟩
  obtain ⟨c, run, htext, hc, hrun⟩ := hword
  refine ⟨c, run, htext, isWordStart_iff.mp hc, ?_⟩
  intro x hx
  exact isWordChar_iff.mp (List.all_eq_true.mp hrun x hx)

theorem IsSmall.isDigit_eq_false {c : Char} (h : IsSmall c) : c.isDigit = false := by
  rw [Bool.eq_false_iff, Ne, isDigit_iff]
  exact fun hdigit => absurd (Char.le_trans h.1 hdigit.2) (by decide)

theorem scan_word {c : Char} {run rest : List Char} (hc : IsSmall c) (hrun : ∀ x ∈ run, InWord x)
    (hrest : Ends InWord rest) :
    scan (c :: run ++ rest) = .token (.ofWord (String.ofList (c :: run))) (c :: run) rest := by
  have hquote : c ≠ '"' := by
    rintro rfl
    exact absurd hc.1 (by decide)
  rw [List.cons_append]
  rw [scan, if_neg hquote, if_neg (Bool.eq_false_iff.mp hc.isDigit_eq_false),
    if_pos (isWordStart_iff.mpr hc), takeWhile_run isWordChar_iff hrun hrest,
    dropWhile_run isWordChar_iff hrun hrest]

/-! ### Numbers -/

theorem not_isDigit_point : ¬IsDigit '.' := by
  rw [← isDigit_iff]
  decide

theorem splitNumber_whole {whole rest : List Char} (h : ∀ c ∈ whole, IsDigit c)
    (hrest : Ends (fun c => IsDigit c ∨ c = '.') rest) :
    splitNumber (whole ++ rest) = (whole, rest) := by
  have hends : Ends IsDigit rest := hrest.mono .inl
  unfold splitNumber
  rw [takeWhile_run isDigit_iff h hends, dropWhile_run isDigit_iff h hends]
  split
  · exact absurd (.inr rfl) (hrest '.' rfl)
  · rfl

theorem splitNumber_point {whole fraction rest : List Char} (h : ∀ c ∈ whole, IsDigit c)
    (hfraction : ∀ c ∈ fraction, IsDigit c) (hrest : Ends IsDigit rest) :
    splitNumber (whole ++ '.' :: fraction ++ rest) = (whole ++ '.' :: fraction, rest) := by
  have hends : Ends IsDigit ('.' :: (fraction ++ rest)) := ends_cons not_isDigit_point _
  rw [List.append_assoc, List.cons_append]
  unfold splitNumber
  rw [takeWhile_run isDigit_iff h hends, dropWhile_run isDigit_iff h hends]
  simp only [takeWhile_run isDigit_iff hfraction hrest, dropWhile_run isDigit_iff hfraction hrest]

theorem splitNumber_numeral {text rest : List Char} {d : Decimal} (h : Numeral text d)
    (hrest : Ends (fun c => IsDigit c ∨ (c = '.' ∧ '.' ∉ text)) rest) :
    splitNumber (text ++ rest) = (text, rest) := by
  cases h with
  | whole _ hdigits =>
      have hdigits : ∀ c ∈ text, IsDigit c := by
        intro c hc
        exact isDigit_iff.mp (hdigits c hc)
      have hpoint : '.' ∉ text := by
        intro hmem
        exact not_isDigit_point (hdigits '.' hmem)
      have hends : Ends (fun c => IsDigit c ∨ c = '.') rest :=
        hrest.mono fun h => h.imp_right fun heq => ⟨heq, hpoint⟩
      exact splitNumber_whole hdigits hends
  | @point whole fraction _ hwhole hfraction =>
      have hwhole : ∀ c ∈ whole, IsDigit c := by
        intro c hc
        exact isDigit_iff.mp (hwhole c hc)
      have hfraction : ∀ c ∈ fraction, IsDigit c := by
        intro c hc
        exact isDigit_iff.mp (hfraction c hc)
      exact splitNumber_point hwhole hfraction (hrest.mono .inl)

/-- What is cut off behind a first digit is a numeral. -/
theorem numeral_splitNumber {c : Char} (cs : List Char) (hc : IsDigit c) :
    (∃ d, Numeral (splitNumber (c :: cs)).1 d) ∧
      Ends (fun x => IsDigit x ∨ (x = '.' ∧ '.' ∉ (splitNumber (c :: cs)).1))
        (splitNumber (c :: cs)).2 := by
  have hne : (c :: cs).takeWhile Char.isDigit ≠ [] := by
    rw [List.takeWhile_cons_of_pos (isDigit_iff.mpr hc)]
    exact List.cons_ne_nil _ _
  have hwhole : ∀ x ∈ (c :: cs).takeWhile Char.isDigit, x.isDigit := by
    intro x hx
    exact List.mem_takeWhile_imp hx
  have hends : Ends IsDigit ((c :: cs).dropWhile Char.isDigit) := ends_dropWhile isDigit_iff _
  unfold splitNumber
  split
  · next rest hdrop =>
      have hfraction : ∀ x ∈ rest.takeWhile Char.isDigit, x.isDigit := by
        intro x hx
        exact List.mem_takeWhile_imp hx
      refine ⟨⟨_, .point hne hwhole hfraction⟩, ?_⟩
      rintro x hx (hdigit | ⟨-, hpoint⟩)
      · exact ends_dropWhile isDigit_iff rest x hx hdigit
      · exact hpoint (by simp)
  · next hdrop =>
      refine ⟨⟨_, .whole hne hwhole⟩, ?_⟩
      rintro x hx (hdigit | ⟨rfl, -⟩)
      · exact hends x hx hdigit
      · obtain ⟨rest, hrest⟩ := List.head?_eq_some_iff.mp hx
        exact hdrop rest hrest

/-! ### Cutting off tokens -/

theorem InOperator.no_other {c : Char} (h : InOperator c) :
    c ≠ '"' ∧ c.isDigit = false ∧ isWordStart c = false ∧ isPunctuation c = false := by
  unfold InOperator at h
  simp only [List.mem_cons, List.not_mem_nil, or_false] at h
  obtain rfl | rfl | rfl | rfl | rfl | rfl | rfl | rfl | rfl | rfl | rfl := h <;> decide

theorem IsMark.no_other {c : Char} (h : IsMark c) :
    c ≠ '"' ∧ c.isDigit = false ∧ isWordStart c = false := by
  unfold IsMark at h
  simp only [List.mem_cons, List.not_mem_nil, or_false] at h
  obtain rfl | rfl | rfl | rfl | rfl | rfl | rfl | rfl := h <;> decide

theorem scan_number {text rest : List Char} {d : Decimal} {x : Number} (h : Numeral text d)
    (hx : Number.ofText? (String.ofList text) = some x)
    (hrest : Ends (fun c => IsDigit c ∨ (c = '.' ∧ '.' ∉ text)) rest) :
    scan (text ++ rest) = .token (.number x) text rest := by
  have hsplit := splitNumber_numeral h hrest
  cases text with
  | nil => exact absurd rfl h.ne_nil
  | cons c cs =>
      have hdigit : c.isDigit = true := h.head_isDigit
      have hquote : c ≠ '"' := by
        rintro rfl
        cases hdigit
      rw [List.cons_append] at hsplit ⊢
      simp only [scan, if_neg hquote, if_pos hdigit, hsplit, hx]

theorem scan_operator {run rest : List Char} (hne : run ≠ []) (hrun : ∀ c ∈ run, InOperator c)
    (hrest : Ends InOperator rest) :
    scan (run ++ rest) = .token (.operator (String.ofList run)) run rest := by
  cases run with
  | nil => exact absurd rfl hne
  | cons c cs =>
      obtain ⟨hc, hcs⟩ := List.forall_mem_cons.mp hrun
      obtain ⟨hquote, hdigit, hword, hmark⟩ := hc.no_other
      simp [scan, hquote, hdigit, hword, hmark, isOperatorChar_iff.mpr hc,
        takeWhile_run isOperatorChar_iff hcs hrest, dropWhile_run isOperatorChar_iff hcs hrest]

theorem Spelled.scan {t : Token} {text rest : List Char} (h : Spelled t text rest) :
    scan (text ++ rest) = .token t text rest := by
  cases h with
  | keyword k hrest =>
      obtain ⟨c, run, htext, hc, hrun⟩ := k.text_eq_cons
      have hscan := scan_word hc hrun hrest
      rwa [← htext, String.ofList_toList, Token.ofWord_text] at hscan
  | @name c run _ hc hrun hname hrest =>
      have hne : ∀ k : Keyword, k.text ≠ String.ofList (c :: run) := by
        intro k hk
        apply hname k
        rw [hk, String.toList_ofList]
      rw [scan_word hc hrun hrest, Token.ofWord_of_ne hne]
  | number hnumeral hx hrest => exact scan_number hnumeral hx hrest
  | string hquoted => simp [ExprLang.scan, hquoted.splitString]
  | operator hne hrun hrest => exact scan_operator hne hrun hrest
  | punctuation hmark =>
      obtain ⟨hquote, hdigit, hword⟩ := hmark.no_other
      simp [ExprLang.scan, hquote, hdigit, hword, isPunctuation_iff.mpr hmark]

/-- A word is a keyword or a name. -/
theorem spelled_ofWord {c : Char} {run rest : List Char} (hc : IsSmall c)
    (hrun : ∀ x ∈ run, InWord x) (hrest : Ends InWord rest) :
    Spelled (.ofWord (String.ofList (c :: run))) (c :: run) rest := by
  by_cases hkeyword : ∃ k : Keyword, k.text.toList = c :: run
  · obtain ⟨k, hk⟩ := hkeyword
    rw [← hk, String.ofList_toList, Token.ofWord_text]
    exact .keyword k hrest
  · have hname : ∀ k : Keyword, k.text.toList ≠ c :: run := by
      intro k hk
      exact hkeyword ⟨k, hk⟩
    have hne : ∀ k : Keyword, k.text ≠ String.ofList (c :: run) := by
      intro k hk
      apply hname k
      rw [hk, String.toList_ofList]
    rw [Token.ofWord_of_ne hne]
    exact .name hc hrun hname hrest

theorem spelled_of_scan {cs text rest : List Char} {t : Token}
    (h : scan cs = .token t text rest) : Spelled t text rest := by
  revert h
  fun_cases scan cs with
  | case1 => simp
  | case2 cs body =>
      rw [Scan.token.injEq]
      rintro ⟨rfl, rfl, rfl⟩
      exact .string (quoted_splitString cs)
  | case3 c cs _ hdigit text' rest' hsplit x hx =>
      rw [Scan.token.injEq]
      rintro ⟨rfl, rfl, rfl⟩
      obtain ⟨⟨d, hnumeral⟩, hends⟩ := numeral_splitNumber cs (isDigit_iff.mp hdigit)
      rw [hsplit] at hnumeral hends
      exact .number hnumeral hx hends
  | case4 => simp
  | case5 c cs _ _ hword word =>
      rw [Scan.token.injEq]
      rintro ⟨rfl, rfl, rfl⟩
      exact spelled_ofWord (isWordStart_iff.mp hword) (of_mem_takeWhile isWordChar_iff cs)
        (ends_dropWhile isWordChar_iff cs)
  | case6 c cs _ _ _ hmark =>
      rw [Scan.token.injEq]
      rintro ⟨rfl, rfl, rfl⟩
      exact .punctuation (isPunctuation_iff.mp hmark)
  | case7 c cs _ _ _ _ hoperator text' =>
      rw [Scan.token.injEq]
      rintro ⟨rfl, rfl, rfl⟩
      exact .operator (List.cons_ne_nil _ _)
        (List.forall_mem_cons.mpr
          ⟨isOperatorChar_iff.mp hoperator, of_mem_takeWhile isOperatorChar_iff cs⟩)
        (ends_dropWhile isOperatorChar_iff cs)
  | case8 => simp

/-- Exactly the texts of tokens are cut off. -/
theorem scan_eq_token_iff {cs text rest : List Char} {t : Token} :
    scan cs = .token t text rest ↔ cs = text ++ rest ∧ Spelled t text rest := by
  constructor
  · exact fun h => ⟨(Scan.token_append h).1.symm, spelled_of_scan h⟩
  · rintro ⟨rfl, h⟩
    exact h.scan

theorem scan_of_not_begins {c : Char} (h : ¬BeginsToken c) (cs : List Char) :
    scan (c :: cs) = .invalid (.unexpected c) [] (c :: cs) := by
  simp only [BeginsToken, not_or, ← isDigit_iff, ← isWordStart_iff, ← isPunctuation_iff,
    ← isOperatorChar_iff] at h
  obtain ⟨hquote, hdigit, hword, hmark, hoperator⟩ := h
  rw [scan, if_neg hquote, if_neg hdigit, if_neg hword, if_neg hmark, if_neg hoperator]

/-- Every numeral denotes a number, so one can always be cut off where a digit stands. -/
theorem exists_scan_of_begins {c : Char} (h : BeginsToken c) (cs : List Char) :
    ∃ t text rest, scan (c :: cs) = .token t text rest := by
  obtain hquote | hdigit | hsmall | hmark | hoperator := h
  · exact ⟨_, _, _, by rw [scan, if_pos hquote]⟩
  · obtain ⟨⟨d, hnumeral⟩, hends⟩ := numeral_splitNumber cs hdigit
    have hscan := scan_number hnumeral hnumeral.ofText? hends
    rw [splitNumber_append] at hscan
    exact ⟨_, _, _, hscan⟩
  · have hscan := scan_word hsmall (of_mem_takeWhile isWordChar_iff cs)
      (ends_dropWhile isWordChar_iff cs)
    rw [List.cons_append, List.takeWhile_append_dropWhile] at hscan
    exact ⟨_, _, _, hscan⟩
  · exact ⟨_, _, _, (@Spelled.punctuation c cs hmark).scan⟩
  · have hscan := scan_operator (List.cons_ne_nil c (cs.takeWhile isOperatorChar))
      (List.forall_mem_cons.mpr ⟨hoperator, of_mem_takeWhile isOperatorChar_iff cs⟩)
      (ends_dropWhile isOperatorChar_iff cs)
    rw [List.cons_append, List.takeWhile_append_dropWhile] at hscan
    exact ⟨_, _, _, hscan⟩

theorem BeginsLayout.not_beginsToken {c : Char} (h : BeginsLayout c) : ¬BeginsToken c := by
  simp only [BeginsToken, ← isDigit_iff, ← isWordStart_iff, ← isPunctuation_iff,
    ← isOperatorChar_iff]
  obtain (rfl | rfl | rfl) | rfl := h <;> decide

theorem Spelled.ne_nil {t : Token} {text rest : List Char} (h : Spelled t text rest) :
    text ≠ [] :=
  (Scan.token_append h.scan).2

theorem Spelled.exists_begins {t : Token} {text rest : List Char} (h : Spelled t text rest) :
    ∃ c cs, text ++ rest = c :: cs ∧ BeginsToken c := by
  cases hcs : text ++ rest with
  | nil => exact absurd (List.append_eq_nil_iff.mp hcs).1 h.ne_nil
  | cons c cs =>
      refine ⟨c, cs, rfl, Classical.byContradiction fun hnot => ?_⟩
      have hscan := h.scan
      rw [hcs, scan_of_not_begins hnot] at hscan
      cases hscan

/-- No layout goes on where a token is cut off. -/
theorem Spelled.ends_layout {t : Token} {text rest : List Char} (h : Spelled t text rest) :
    Ends BeginsLayout (text ++ rest) := by
  obtain ⟨c, cs, hcs, hbegins⟩ := h.exists_begins
  rw [hcs]
  refine ends_cons ?_ cs
  intro hlayout
  exact hlayout.not_beginsToken hbegins

end ExprLang
