import ExprLang.Proofs.Munch
import ExprLang.Report.Spot
import Mathlib.Data.List.DropRight

/-! # Points of a source

A location counts on as characters are read, and it is to be that of a point of the source:
`Location.Divides` says what the three counts and the span of a report have to be there, in terms of
the text before the point and of the text behind it.  The location that `Location.after` counts up
to is that of the point behind the text that was read (`divides_after`), as long as the counters are
wide enough for the source (`Location.Counts`).

`Cursor.Passes` says that one cursor comes from another by reading a stretch of text, in whatever
steps.  So wherever a cursor gets to from the beginning of a source, it is at a point of the source
(`Cursor.Passes.pointsInto`), and it does not go back (`Cursor.Passes.offset_le`). -/

namespace ExprLang

/-! ### The counts -/

/-- The counters are wide enough for the lines and the characters of the source. -/
structure Location.Counts (source : String) : Prop where
  lines : 1 + source.toList.count '\n' < UInt32.size
  characters : source.length < UInt32.size

/-- A line ends in a character, so few characters make few lines. -/
theorem Location.counts_of_length_lt {source : String} (h : 1 + source.length < UInt32.size) :
    Counts source where
  lines := by
    have hle : source.toList.count '\n' ≤ source.toList.length := List.count_le_length
    rw [String.length_toList] at hle
    omega
  characters := Nat.lt_of_add_left_lt h

/-- The location is that of the point of the source between the two texts. -/
structure Location.Divides (l : Location) (source : String) (before rest : List Char) : Prop where
  split : before ++ rest = source.toList
  /-- The offset counts the bytes before the point. -/
  offset : l.offset = (String.ofList before).utf8ByteSize
  within : l.offset ≤ source.utf8ByteSize
  /-- The offset is between two characters. -/
  boundary : String.Pos.Raw.IsValid source ⟨l.offset⟩
  /-- The line counts the line feeds before the point. -/
  line : (l.line : ℕ) = 1 + before.count '\n'
  /-- The column counts the characters behind the last of them. -/
  column : (l.column : ℕ) = (before.rtakeWhile (· ≠ '\n')).length
  line_le : (l.line : ℕ) ≤ source.length + 1
  column_le : (l.column : ℕ) ≤ source.length
  /-- A report at the offset is about the next character, or about nothing at the end. -/
  span : Span.find source l.offset = ⟨l.offset, l.offset + (rest.head?.elim 0 Char.utf8Size)⟩

/-- The location is that of some point of the source. -/
def Location.PointsInto (l : Location) (source : String) : Prop :=
  ∃ before rest, l.Divides source before rest

theorem utf8ByteSize_ofList_append (cs ds : List Char) :
    (String.ofList (cs ++ ds)).utf8ByteSize =
      (String.ofList cs).utf8ByteSize + (String.ofList ds).utf8ByteSize := by
  rw [String.ofList_append, String.utf8ByteSize_append]

theorem utf8ByteSize_ofList_singleton (c : Char) :
    (String.ofList [c]).utf8ByteSize = c.utf8Size := by
  rw [← String.singleton_eq_ofList, String.utf8ByteSize_singleton]

/-- What is counted from the beginning of a source. -/
theorem after_start_eq (before : List Char) :
    Location.start.after before = ⟨(String.ofList before).utf8ByteSize,
      (1 + before.count '\n' : ℕ), ((before.rtakeWhile (· ≠ '\n')).length : ℕ)⟩ := by
  -- The column counts back from the end of the text, so the text is taken apart from there.
  induction before using List.reverseRecOn with
  | nil => rfl
  | append_singleton before c ih =>
      rw [Location.after_append, ih, utf8ByteSize_ofList_append, utf8ByteSize_ofList_singleton,
        List.count_append]
      show Location.next _ c = _
      unfold Location.next
      by_cases hc : c = '\n'
      · rw [if_pos hc, List.rtakeWhile_concat_neg _ _ _ (by simp [hc]), hc,
          List.count_singleton_self, ← Nat.add_assoc, UInt32.ofNat_add _ 1]
        rfl
      · rw [if_neg hc, List.rtakeWhile_concat_pos _ _ _ (by simp [hc]), List.length_append,
          List.count_singleton, if_neg (by simpa using hc), UInt32.ofNat_add _ [c].length]
        rfl

theorem length_rtakeWhile_le {α : Type} (p : α → Bool) (l : List α) :
    (l.rtakeWhile p).length ≤ l.length :=
  (l.rtakeWhile_suffix p).length_le

/-- The character behind a text begins at the byte offset that the text has passed. -/
theorem widthAt_append (before rest : List Char) :
    widthAt (String.ofList before).utf8ByteSize (before ++ rest) =
      rest.head?.elim 0 Char.utf8Size := by
  induction before with
  | nil => cases rest <;> simp [widthAt]
  | cons c before ih =>
      have hsize : (String.ofList (c :: before)).utf8ByteSize =
          c.utf8Size + (String.ofList before).utf8ByteSize := by
        rw [← List.singleton_append, utf8ByteSize_ofList_append, utf8ByteSize_ofList_singleton]
      have hpos := c.utf8Size_pos
      rw [hsize, List.cons_append, widthAt, if_neg (by omega), if_neg (by omega),
        Nat.add_sub_cancel_left, ih]

/-- The location behind the first characters of a source is that of the point behind them. -/
theorem divides_after {source : String} (hcounts : Location.Counts source)
    {before rest : List Char} (h : before ++ rest = source.toList) :
    (Location.start.after before).Divides source before rest := by
  have hsource : source = String.ofList before ++ String.ofList rest := by
    rw [← String.ofList_append, h, String.ofList_toList]
  have hwithin : (String.ofList before).utf8ByteSize ≤ source.utf8ByteSize := by
    rw [hsource, String.utf8ByteSize_append]
    exact Nat.le_add_right ..
  have hlength : before.length ≤ source.length := by
    rw [← String.length_toList, ← h, List.length_append]
    exact Nat.le_add_right ..
  have hline : (UInt32.ofNat (1 + before.count '\n') : ℕ) = 1 + before.count '\n' := by
    have hlines := hcounts.lines
    rw [← h, List.count_append, ← Nat.add_assoc] at hlines
    exact UInt32.toNat_ofNat_of_lt' ((Nat.le_add_right ..).trans_lt hlines)
  have hcolumn : (UInt32.ofNat (before.rtakeWhile (· ≠ '\n')).length : ℕ) =
      (before.rtakeWhile (· ≠ '\n')).length := by
    have hle := (length_rtakeWhile_le (· ≠ '\n') before).trans hlength
    exact UInt32.toNat_ofNat_of_lt' (hle.trans_lt hcounts.characters)
  rw [after_start_eq]
  refine ⟨h, rfl, hwithin, ?_, hline, hcolumn, ?_, ?_, ?_⟩
  · exact String.Pos.Raw.isValid_iff_exists_append.mpr ⟨_, _, hsource, rfl⟩
  · have hcount : before.count '\n' ≤ before.length := List.count_le_length
    dsimp only
    omega
  · exact hcolumn.trans_le ((length_rtakeWhile_le _ before).trans hlength)
  · unfold Span.find
    rw [Nat.min_eq_left hwithin, ← h]
    dsimp only
    rw [widthAt_append]

theorem offset_le_after (l : Location) (cs : List Char) : l.offset ≤ (l.after cs).offset := by
  induction cs generalizing l with
  | nil => exact le_rfl
  | cons c cs ih =>
      refine le_trans ?_ (ih (l.next c))
      unfold Location.next
      split <;> exact Nat.le_add_right ..

/-! ### Cursors -/

namespace Cursor

/-- The second cursor is the first one after it has read some text. -/
inductive Passes (c : Cursor) : Cursor → Prop
  | pass {text rest} : c.rest = text ++ rest → Passes c (c.pass text rest)

variable {c c' c'' : Cursor}

theorem Passes.refl (c : Cursor) : c.Passes c :=
  have hrest : c.rest = [] ++ c.rest := rfl
  .pass hrest

theorem Passes.trans (h : c.Passes c') (h' : c'.Passes c'') : c.Passes c'' := by
  obtain @⟨text, rest, hc⟩ := h
  obtain @⟨text', rest', hc'⟩ := h'
  have hrest : rest = text' ++ rest' := hc'
  rw [hrest, ← List.append_assoc] at hc
  have hpass : (c.pass text rest).pass text' rest' = c.pass (text ++ text') rest' := by
    unfold Cursor.pass
    rw [Location.after_append]
  rw [hpass]
  exact .pass hc

theorem Passes.offset_le (h : c.Passes c') : c.location.offset ≤ c'.location.offset := by
  obtain ⟨-⟩ := h
  exact offset_le_after ..

/-- A cursor that has read its way from the beginning of a source is at a point of the source. -/
theorem Passes.pointsInto {source : String} (h : (ofSource source).Passes c)
    (hcounts : Location.Counts source) : c.location.PointsInto source := by
  obtain ⟨hsource⟩ := h
  exact ⟨_, _, divides_after hcounts hsource.symm⟩

theorem passes_advance (c : Cursor) : c.Passes c.advance.2 := by
  obtain ⟨source, rest, location⟩ := c
  cases rest with
  | nil => exact .refl _
  | cons x xs =>
      have hrest : x :: xs = [x] ++ xs := rfl
      exact .pass hrest

/-- The cursor after it has been told to read a character so many times. -/
def advances (c : Cursor) : ℕ → Cursor
  | 0 => c
  | n + 1 => (c.advances n).advance.2

theorem passes_advances (c : Cursor) {m n : ℕ} (h : m ≤ n) :
    (c.advances m).Passes (c.advances n) := by
  induction n, h using Nat.le_induction with
  | base => exact .refl _
  | succ n _ ih => exact ih.trans (passes_advance _)

theorem rest_advances (c : Cursor) (n : ℕ) : (c.advances n).rest = c.rest.drop n := by
  induction n with
  | zero => rfl
  | succ n ih =>
      have hadvance : ∀ d : Cursor, d.advance.2.rest = d.rest.tail := by
        rintro ⟨source, _ | ⟨x, xs⟩, location⟩ <;> rfl
      rw [← List.tail_drop, ← ih]
      exact hadvance _

/-- The location counts the characters that have been read. -/
theorem location_advances (source : String) (n : ℕ) :
    ((ofSource source).advances n).location = Location.start.after (source.toList.take n) := by
  have hpasses : (ofSource source).Passes ((ofSource source).advances n) :=
    passes_advances (ofSource source) (Nat.zero_le n)
  have hrest : ((ofSource source).advances n).rest = source.toList.drop n :=
    rest_advances (ofSource source) n
  generalize (ofSource source).advances n = c at hpasses hrest
  obtain @⟨text, rest, hsource⟩ := hpasses
  have htext : text = source.toList.take n := by
    have hsplit := hsource.symm.trans (List.take_append_drop n source.toList).symm
    rw [← hrest] at hsplit
    exact List.append_cancel_right hsplit
  rw [← htext]
  rfl

/-- The line behind so many line feeds, in the bits that there are for it. -/
theorem line_advances_replicate (n : ℕ) :
    ((ofSource (String.ofList (List.replicate n '\n'))).advances n).location.line =
      (1 + n : ℕ) := by
  rw [location_advances, String.toList_ofList, List.take_replicate, Nat.min_self, after_start_eq,
    List.count_replicate_self]

/-- A cursor that stands behind the first `n` characters of a source, or at its end if there are
fewer. -/
structure Stands (source : String) (n : ℕ) (c : Cursor) : Prop where
  location : c.location.Divides source (source.toList.take n) (source.toList.drop n)
  peek : c.peek = source.toList[n]?
  /-- Reading gives the next character, so all of them in order. -/
  advance : c.advance.1 = source.toList[n]?
  isAtEnd : c.isAtEnd ↔ source.length ≤ n
  fail : ∀ fault, (c.fail fault).location = c.location

theorem stands_advances {source : String} (hcounts : Location.Counts source) (n : ℕ) :
    Stands source n ((ofSource source).advances n) := by
  have hrest : ((ofSource source).advances n).rest = source.toList.drop n :=
    rest_advances (ofSource source) n
  have hlocation := location_advances source n
  generalize (ofSource source).advances n = c at hrest hlocation
  have hpeek : c.peek = source.toList[n]? := by
    unfold peek
    rw [hrest, List.head?_drop]
  refine ⟨?_, hpeek, ?_, ?_, fun _ => rfl⟩
  · rw [hlocation]
    exact divides_after hcounts (List.take_append_drop n source.toList)
  · rw [← hpeek]
    unfold advance peek
    cases c.rest <;> rfl
  · unfold isAtEnd
    rw [hrest, List.isEmpty_iff, List.drop_eq_nil_iff, String.length_toList]

/-- Reading a token reads text, and an error is where the cursor is left. -/
theorem passes_readToken (c : Cursor) :
    c.Passes c.readToken.2 ∧
      ∀ e, c.readToken.1 = .error e → e.location = c.readToken.2.location := by
  obtain ⟨pieces, w, rest, hcut⟩ := exists_cut c.rest
  generalize hcs : c.rest = cs at hcut
  cases hcut with
  | piece hw ht _ =>
      rw [c.readToken_piece hcs hw ht]
      exact ⟨.pass hcs, nofun⟩
  | ending hw hends =>
      cases rest with
      | nil =>
          have hread := c.readToken_ending (hcs.trans (List.append_nil w)) hw
          rw [hread]
          exact ⟨.pass hcs, nofun⟩
      | cons x xs =>
          obtain ⟨hlayout, htoken⟩ := not_or.mp (hends x rfl)
          rw [c.readToken_unexpected hcs hw hlayout htoken]
          refine ⟨.pass hcs, ?_⟩
          rintro e ⟨⟩
          rfl

end Cursor

end ExprLang
