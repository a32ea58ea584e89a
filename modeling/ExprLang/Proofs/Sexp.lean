import ExprLang.Proofs.Quoting

/-! # S-expressions

An S-expression is a word, a quoted text or a list of S-expressions.  It is written with blanks
between the items of a list and brackets around them, and the text is read in one way only
(`Sexp.chars_append_inj`): a word stops at the first character that cannot stand in a word, a quoted
text at its quote and a list at its bracket. -/

namespace ExprLang

/-- An S-expression.  Words stand for themselves. -/
inductive Sexp where
  | word (text : String)
  | quoted (text : String)
  | list (items : List Sexp)

namespace Sexp

mutual

/-- The characters of an S-expression. -/
def chars : Sexp → List Char
  | .word text => text.toList
  | .quoted text => quote '"' text.toList
  | .list items => '(' :: inside items

/-- The items of a list with blanks between them, and the bracket behind them. -/
def inside : List Sexp → List Char
  | [] => [')']
  | s :: ss => s.chars ++ behind ss

/-- Further items of a list with a blank before each, and the bracket behind them. -/
def behind : List Sexp → List Char
  | [] => [')']
  | s :: ss => ' ' :: (s.chars ++ behind ss)

end

/-- The character can stand in a word. -/
def Plain (c : Char) : Prop := c ∉ [' ', '(', ')', '"']

/-- Each of the words can be told from what stands around it. -/
inductive Legible : Sexp → Prop
  | word {text} : text.toList ≠ [] → (∀ c ∈ text.toList, Plain c) → Legible (.word text)
  | quoted {text} : Legible (.quoted text)
  | list {items} : (∀ s ∈ items, Legible s) → Legible (.list items)

instance : DecidablePred Plain := fun c =>
  inferInstanceAs (Decidable (c ∉ [' ', '(', ')', '"']))

variable {s s' : Sexp} {ss : List Sexp} {u v : List Char}

/-! ### Words -/

theorem plain_of {q : Char → Bool} (hq : [' ', '(', ')', '"'].any q = false) {c : Char}
    (h : q c = true) : Plain c := by
  intro hmem
  exact List.any_eq_false.mp hq c hmem h

theorem not_plain {c : Char} (hc : c ∈ [' ', '(', ')', '"']) : ¬Plain c := by
  intro h
  exact h hc

/-- A word of plain characters. -/
theorem legible_word {text : String} (hne : text.toList ≠ [])
    (hplain : text.toList.all (decide <| Plain ·) = true) : (word text).Legible := by
  refine .word hne fun c hc => ?_
  exact of_decide_eq_true (List.all_eq_true.mp hplain c hc)

theorem ends_behind (ss : List Sexp) (u : List Char) : Ends Plain (behind ss ++ u) := by
  cases ss with
  | nil => exact ends_cons (not_plain (by decide)) _
  | cons s ss => exact ends_cons (not_plain (by decide)) _

theorem word_append_ne {text : String} {c : Char} (hne : text.toList ≠ [])
    (hplain : ∀ c ∈ text.toList, Plain c) (hc : c ∈ [' ', '(', ')', '"']) :
    text.toList ++ u ≠ c :: v := by
  intro h
  obtain ⟨d, ds, htext⟩ := List.exists_cons_of_ne_nil hne
  rw [htext] at h hplain
  obtain ⟨rfl, -⟩ := List.cons.inj h
  exact not_plain hc (hplain d List.mem_cons_self)

/-! ### The one way to read the text -/

theorem chars_append_ne (hs : s.Legible) : s.chars ++ u ≠ ')' :: v := by
  intro h
  cases hs with
  | word hne hplain => exact word_append_ne hne hplain (by decide) h
  | quoted => exact absurd (List.cons.inj h).1 (by decide)
  | list => exact absurd (List.cons.inj h).1 (by decide)

mutual

/-- **The text of an S-expression is read in one way.** -/
theorem chars_append_inj : (s : Sexp) → {s' : Sexp} → {u v : List Char} → s.Legible → s'.Legible →
    Ends Plain u → Ends Plain v → s.chars ++ u = s'.chars ++ v → s = s' ∧ u = v
  | .word text, s', u, v, .word hne hplain, hs', hu, hv, h => by
      cases hs' with
      | word hne' hplain' =>
          obtain ⟨htext, hrest⟩ := run_append_inj hplain hplain' hu hv h
          exact ⟨congrArg Sexp.word (String.toList_inj.mp htext), hrest⟩
      | quoted => exact absurd h (word_append_ne hne hplain (by decide))
      | list => exact absurd h (word_append_ne hne hplain (by decide))
  | .quoted text, s', u, v, hs, hs', hu, hv, h => by
      cases hs' with
      | word hne hplain => exact absurd h.symm (word_append_ne hne hplain (by decide))
      | quoted =>
          obtain ⟨htext, hrest⟩ := quote_append_inj h
          exact ⟨congrArg Sexp.quoted (String.toList_inj.mp htext), hrest⟩
      | list => exact absurd (List.cons.inj h).1 (by decide)
  | .list items, s', u, v, .list hitems, hs', hu, hv, h => by
      cases hs' with
      | word hne hplain => exact absurd h.symm (word_append_ne hne hplain (by decide))
      | quoted => exact absurd (List.cons.inj h).1 (by decide)
      | list hitems' =>
          obtain ⟨rfl, hrest⟩ := inside_append_inj items hitems hitems' (List.cons.inj h).2
          exact ⟨rfl, hrest⟩

theorem inside_append_inj : (ss : List Sexp) → {ss' : List Sexp} → {u v : List Char} →
    (∀ s ∈ ss, s.Legible) → (∀ s ∈ ss', s.Legible) → inside ss ++ u = inside ss' ++ v →
    ss = ss' ∧ u = v
  | [], ss', u, v, hall, hall', h => by
      cases ss' with
      | nil => exact ⟨rfl, (List.cons.inj h).2⟩
      | cons s' ss' =>
          rw [inside, inside, List.append_assoc] at h
          exact absurd h.symm (chars_append_ne (hall' s' List.mem_cons_self))
  | s :: ss, ss', u, v, hall, hall', h => by
      cases ss' with
      | nil =>
          rw [inside, inside, List.append_assoc] at h
          exact absurd h (chars_append_ne (hall s List.mem_cons_self))
      | cons s' ss' =>
          obtain ⟨hs, hss⟩ := List.forall_mem_cons.mp hall
          obtain ⟨hs', hss'⟩ := List.forall_mem_cons.mp hall'
          rw [inside, inside, List.append_assoc, List.append_assoc] at h
          obtain ⟨rfl, htail⟩ :=
            chars_append_inj s hs hs' (ends_behind _ _) (ends_behind _ _) h
          obtain ⟨rfl, hrest⟩ := behind_append_inj ss hss hss' htail
          exact ⟨rfl, hrest⟩

theorem behind_append_inj : (ss : List Sexp) → {ss' : List Sexp} → {u v : List Char} →
    (∀ s ∈ ss, s.Legible) → (∀ s ∈ ss', s.Legible) → behind ss ++ u = behind ss' ++ v →
    ss = ss' ∧ u = v
  | [], ss', u, v, hall, hall', h => by
      cases ss' with
      | nil => exact ⟨rfl, (List.cons.inj h).2⟩
      | cons s' ss' => exact absurd (List.cons.inj h).1 (by decide)
  | s :: ss, ss', u, v, hall, hall', h => by
      cases ss' with
      | nil => exact absurd (List.cons.inj h).1 (by decide)
      | cons s' ss' =>
          obtain ⟨hs, hss⟩ := List.forall_mem_cons.mp hall
          obtain ⟨hs', hss'⟩ := List.forall_mem_cons.mp hall'
          rw [behind, behind, List.cons_append, List.cons_append, List.append_assoc,
            List.append_assoc] at h
          obtain ⟨rfl, htail⟩ :=
            chars_append_inj s hs hs' (ends_behind _ _) (ends_behind _ _) (List.cons.inj h).2
          obtain ⟨rfl, hrest⟩ := behind_append_inj ss hss hss' htail
          exact ⟨rfl, hrest⟩

end

theorem chars_inj (hs : s.Legible) (hs' : s'.Legible) (h : s.chars = s'.chars) : s = s' := by
  have happend : s.chars ++ [] = s'.chars ++ [] := congrArg (· ++ []) h
  exact (chars_append_inj s hs hs' ends_nil ends_nil happend).1

end Sexp

end ExprLang
