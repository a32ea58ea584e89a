import ExprLang.Proofs.RoundTrip
import ExprLang.Proofs.TokenJson

/-! # Number tokens in JSON

A finite number without a minus sign is displayed as a JSON number (`Number.numeric_display`): the
digits of the shortest decimal begin with no zero unless there is a point behind it, and a point has
digits on both sides.  The token is then a JSON object (`Lexer.json_number`).

A literal too large for any number is infinity, which JSON has no number for.  What is written
instead makes the whole object no JSON at all. -/

namespace ExprLang

open Json

/-! ### Leading digits -/

theorem toDigits_eq_cons {n : ℕ} (hn : n ≠ 0) :
    ∃ c cs, Nat.toDigits 10 n = c :: cs ∧ c ≠ '0' := by
  induction n using Nat.strong_induction_on with
  | _ n ih =>
    rw [Nat.toDigits_eq_if (by omega)]
    split
    · next hsmall =>
        have hdigit : ∀ k < 10, k ≠ 0 → k.digitChar ≠ '0' := by decide
        exact ⟨n.digitChar, [], rfl, hdigit n hsmall hn⟩
    · next hlarge =>
        obtain ⟨c, cs, hdigits, hc⟩ := ih (n / 10) (by omega) (by omega)
        rw [hdigits]
        exact ⟨c, _, rfl, hc⟩

theorem Magnitude.coefficient_shortest_ne_zero {m : Magnitude} (h : m.units ≠ 0) :
    m.shortest.coefficient ≠ 0 := by
  intro hzero
  have hread := m.ofDecimal?_shortest
  have htiny : m.shortest.isTiny = true := by simp [Decimal.isTiny, hzero]
  unfold ofDecimal? at hread
  rw [htiny, if_pos rfl] at hread
  cases hread
  exact h rfl

/-! ### Numerals as JSON numbers -/

/-- No zero stands before other digits, and the text ends in a digit. -/
structure Tidy (text : List Char) : Prop where
  first {c : Char} {cs : List Char} : text = '0' :: c :: cs → ¬c.isDigit
  last : ∃ init c, text = init ++ [c] ∧ c.isDigit

theorem exists_last_digit {ds : List Char} (before : List Char) (hne : ds ≠ [])
    (hds : ∀ c ∈ ds, c.isDigit) : ∃ init c, before ++ ds = init ++ [c] ∧ c.isDigit := by
  refine ⟨before ++ ds.dropLast, ds.getLast hne, ?_, hds _ (List.getLast_mem hne)⟩
  rw [List.append_assoc, List.dropLast_concat_getLast]

theorem numeric_of_digits {whole fraction ds : List Char} (hwhole : Digits whole)
    (hfirst : whole.head? = some '0' → whole = ['0']) (hfraction : Fraction fraction ds) :
    Numeric (whole ++ fraction) false ⟨Nat.ofDigitChars 10 (whole ++ ds) 0, -ds.length⟩ := by
  have hsign : ([], false) ∈ signs := by decide
  have h := Numeric.mk hsign hwhole hfirst hfraction .absent
  rwa [List.append_nil, List.nil_append, Int.zero_sub] at h

/-- A whole part of a tidy text has no needless zero. -/
theorem Tidy.eq_zero {whole rest : List Char} (h : Tidy (whole ++ rest))
    (hwhole : ∀ c ∈ whole, c.isDigit) (hzero : whole.head? = some '0') : whole = ['0'] := by
  cases whole with
  | nil => cases hzero
  | cons z ds =>
      cases hzero
      cases ds with
      | nil => rfl
      | cons c ds => exact absurd (hwhole c (by simp)) (h.first rfl)

theorem Numeral.numeric {text : List Char} {d : Decimal} (h : Numeral text d) (htidy : Tidy text) :
    Numeric text false d := by
  cases h with
  | whole hne hdigits =>
      have hnumeric := numeric_of_digits ⟨hne, hdigits⟩ (fun hzero => ?_) .absent
      · rwa [List.append_nil] at hnumeric
      · rw [← List.append_nil text] at htidy
        exact htidy.eq_zero hdigits hzero
  | @point whole fraction hne hwhole hfraction =>
      refine numeric_of_digits ⟨hne, hwhole⟩ (htidy.eq_zero hwhole) (.digits ⟨?_, hfraction⟩)
      rintro rfl
      obtain ⟨init, c, heq, hc⟩ := htidy.last
      obtain ⟨-, hlast⟩ := List.append_inj' heq rfl
      rw [← (List.cons.inj hlast).1] at hc
      cases hc

/-! ### Displayed numbers -/

namespace Number

theorem Layout.isDigit_setOut {d : Decimal} {k : ℕ} :
    ∀ c ∈ d.digits ++ List.replicate k '0', c.isDigit := by
  rw [List.forall_mem_append]
  exact ⟨isDigit_digits, isDigit_zeros⟩

/-- A decimal set out without an exponent is tidy. -/
theorem Layout.tidy_digits {d : Decimal} (hd : d.coefficient ≠ 0) : Tidy (plain.digits d) := by
  obtain ⟨z, zs, hdigits, hz⟩ := toDigits_eq_cons hd
  have hdigits : d.digits = z :: zs := hdigits
  change Tidy (plain.positionalDigits d.digits d.point)
  unfold positionalDigits
  -- The point stands before, behind or among the digits.
  split
  · next hpoint =>
    constructor
    · intro c cs heq
      rw [← (List.cons.inj (List.cons.inj heq).2).1]
      decide
    · exact exists_last_digit ('0' :: '.' :: List.replicate (-d.point).toNat '0')
        (digits_ne_nil (d := d)) isDigit_digits
  · next hpoint =>
    split
    · next hle =>
      rw [show plain.keepsPoint = false from rfl, if_neg Bool.false_ne_true, List.append_nil]
      constructor
      · intro c cs heq
        rw [hdigits] at heq
        exact absurd (List.cons.inj heq).1 hz
      · have hne : d.digits ++ List.replicate (d.point.toNat - d.digits.length) '0' ≠ [] :=
          List.append_ne_nil_of_left_ne_nil digits_ne_nil _
        exact exists_last_digit [] hne isDigit_setOut
    · next hlt =>
      have hdrop : d.digits.drop d.point.toNat ≠ [] := by
        rw [Ne, List.drop_eq_nil_iff]
        exact hlt
      constructor
      · intro c cs heq
        obtain ⟨k, hk⟩ : ∃ k, d.point.toNat = k + 1 := ⟨d.point.toNat - 1, by omega⟩
        rw [hdigits, hk, List.take_succ_cons] at heq
        exact absurd (List.cons.inj heq).1 hz
      · have hlast := exists_last_digit (d.digits.take d.point.toNat ++ ['.']) hdrop fun c hc =>
          isDigit_digits c (List.mem_of_mem_drop hc)
        rwa [List.append_assoc, List.singleton_append] at hlast

theorem tidy_display (m : Magnitude) : Tidy (finite false m).display.toList := by
  unfold display
  rw [String.toList_ofList]
  change Tidy (Layout.plain.digits m.shortest)
  by_cases hm : m.units = 0
  · have hshortest : m.shortest = ⟨0, 0⟩ := if_pos hm
    rw [hshortest]
    constructor
    · intro c cs heq
      cases heq
    · exact ⟨[], '0', rfl, rfl⟩
  · exact Layout.tidy_digits (Magnitude.coefficient_shortest_ne_zero hm)

/-- A number is displayed as a JSON number that is nearest to it. -/
theorem numeric_display (m : Magnitude) :
    ∃ d, Numeric (finite false m).display.toList false d ∧ ofDecimal false d = finite false m := by
  obtain ⟨d, hnumeral, hd⟩ := numeral_display m
  exact ⟨d, hnumeral.numeric (tidy_display m), hd⟩

end Number

/-! ### What is no JSON -/

section broken

variable {c : Char} (hspace : ¬IsSpace c) (hopens : ∀ v, ¬Opens c v)
include hspace hopens

theorem Json.Spaced.append_ne_of_not_opens {text u w : List Char} {v : Json} (h : Spaced text v) :
    text ++ u ≠ c :: w := by
  intro heq
  cases h with
  | mk hbefore hwritten _ =>
      rw [List.append_assoc, List.append_assoc] at heq
      obtain ⟨-, hvalue⟩ := run_append_inj hbefore (List.forall_mem_nil _) (hwritten.ends _)
        (ends_cons hspace w) heq
      exact hopens _ (hwritten.opens_of_append hvalue.symm)

theorem Json.Member.append_ne_of_not_opens {text name u w : List Char} {m : String × Json}
    {x : String} (h : Member text m) (hname : Quoting name x) :
    text ++ u ≠ name ++ ':' :: c :: w := by
  intro heq
  cases h with
  | mk hbefore hname' hafter hvalue =>
      simp only [List.append_assoc, List.cons_append] at heq
      obtain ⟨-, hpair⟩ := run_append_inj hbefore (List.forall_mem_nil _) (hname'.ends _)
        (hname.ends _) heq
      obtain ⟨-, hbehind⟩ := hname'.append_inj hname hpair
      obtain ⟨-, htail⟩ := run_append_inj hafter (List.forall_mem_nil _) (ends_colon _)
        (ends_colon _) hbehind
      exact hvalue.append_ne_of_not_opens hspace hopens (List.cons.inj htail).2

theorem Json.Members.append_ne_of_not_opens {text first name u w : List Char}
    {ms : List (String × Json)} {m : String × Json} {x : String} (h : Members text ms)
    (hfirst : Member first m) (hname : Quoting name x) :
    text ++ u ≠ first ++ ',' :: (name ++ ':' :: c :: w) := by
  intro heq
  cases h with
  | empty hblank =>
      rw [List.append_assoc] at heq
      exact hfirst.append_ne hblank heq.symm
  | first hm hmore =>
      rw [List.append_assoc] at heq
      obtain ⟨-, hbehind⟩ := hm.append_inj hfirst (hmore.ends _)
        (ends_inner_of_mem (by decide) _) heq
      cases hmore with
      | close => exact absurd (List.cons.inj hbehind).1 (by decide)
      | next hnext _ =>
          simp only [List.cons_append, List.append_assoc, List.cons.injEq, true_and] at hbehind
          exact hnext.append_ne_of_not_opens hspace hopens hname hbehind

/-- A token is no JSON if its value is written in a way in which no value begins. -/
theorem Token.not_denotes_json {t : Token} {cs : List Char} (ht : t.jsonValue.toList = c :: cs)
    (v : Json) : ¬Denotes t.json v := by
  intro h
  rw [Denotes, toList_json, ht] at h
  generalize htext : '\x7b' :: _ = text at h
  cases h with
  | mk hbefore hwritten _ =>
      obtain ⟨-, hbrace⟩ := run_append_inj (List.forall_mem_nil _) hbefore
        (ends_cons (by decide) _) (hwritten.ends _) htext
      obtain ⟨ms, rfl⟩ := opens_object (hwritten.opens_of_append hbrace)
      cases hwritten with
      | object hmembers =>
          obtain ⟨-, hinside⟩ := List.cons.inj hbrace
          exact hmembers.append_ne_of_not_opens hspace hopens (member_kind t.kind)
            (quoting_jsonString "value") hinside.symm

end broken

/-! ### Number tokens -/

namespace Lexer

theorem isLiteral_of_yields {source : String} {items : List (Except LexicalError Token)}
    {x : Number} (h : (ofSource source).Yields items) (hx : .ok (.number x) ∈ items) :
    x.IsLiteral := by
  obtain ⟨pieces, w, rest, hcut⟩ := exists_cut source.toList
  have hyields := yields_of_cut hcut (.ofSource source) rfl
  rw [h.unique hyields] at hx
  rcases List.mem_append.mp hx with hpiece | herror
  · obtain ⟨p, hp, heq⟩ := List.mem_map.mp hpiece
    have hlegal := hcut.legal p hp
    rw [Except.ok.inj heq] at hlegal
    exact hlegal
  · cases rest with
    | nil => cases herror
    | cons c cs => cases List.mem_singleton.mp herror

/-- A numeral alone is a source of one token. -/
theorem yields_numeral {text : List Char} {d : Decimal} (h : Numeral text d) :
    (ofSource (String.ofList text)).Yields [.ok (.number (.ofDecimal false d))] := by
  have hspelled : Spelled (.number (.ofDecimal false d)) text [] := .number h h.ofText? ends_nil
  have hcut := hspelled.cut .empty (.ending .empty ends_nil)
  have hsource : (Cursor.ofSource (String.ofList text)).rest = [] ++ (text ++ []) := by
    simp [Cursor.ofSource]
  exact yields_of_cut hcut _ hsource

end Lexer

namespace Token

theorem not_numeric_infinite (negative : Bool) (d : Decimal) :
    ¬Numeric (number (.infinite false)).jsonValue.toList negative d := by
  intro h
  obtain ⟨c, cs, htext, hc⟩ := h.opens
  have hinf : (number (.infinite false)).jsonValue.toList = ['i', 'n', 'f'] := by decide
  rw [hinf] at htext
  rw [← (List.cons.inj htext).1] at hc
  exact absurd hc (by decide)

theorem not_denotes_infinite (v : Json) : ¬Denotes (number (.infinite false)).json v := by
  have hinf : (number (.infinite false)).jsonValue.toList = ['i', 'n', 'f'] := by decide
  exact not_denotes_json (by decide) (fun v => mt opens_cases (by decide)) hinf v

end Token

/-- **A number token is JSON unless the number is infinite.**  A finite number that a source yields
is written as a JSON number nearest to which it is, and the token denotes the object with this
number and nothing else.  Infinity is written as no JSON number, and the token as no JSON text. -/
theorem Lexer.json_number {source : String} {items : List (Except LexicalError Token)} {x : Number}
    (h : (ofSource source).Yields items) (hx : .ok (.number x) ∈ items) :
    (x ≠ .infinite false →
      ∃ d, Numeric (Token.number x).jsonValue.toList false d ∧ Number.ofDecimal false d = x ∧
        ∀ v, Denotes (Token.number x).json v ↔
          v = .object [("type", .string "Number"), ("value", .number false d)]) ∧
    (x = .infinite false →
      (∀ negative d, ¬Numeric (Token.number x).jsonValue.toList negative d) ∧
        ∀ v, ¬Denotes (Token.number x).json v) := by
  constructor
  · intro hfinite
    obtain ⟨m, rfl⟩ : ∃ m, x = .finite false m := (isLiteral_of_yields h hx).resolve_right hfinite
    obtain ⟨d, hnumeric, hd⟩ := Number.numeric_display m
    have hobject := Token.denotes_json (t := .number (.finite false m)) (.number hnumeric)
    refine ⟨d, hnumeric, hd, fun v => ⟨fun hv => hv.unique hobject, ?_⟩⟩
    rintro rfl
    exact hobject
  · rintro rfl
    exact ⟨Token.not_numeric_infinite, Token.not_denotes_infinite⟩

/-- Digits behind the point that do not count are not written. -/
theorem Lexer.json_number_fraction :
    let x := Number.ofDecimal false ⟨250, -2⟩
    (ofSource "2.50").Yields [.ok (.number x)] ∧
      (Token.number x).json = "\x7b\"type\":\"Number\",\"value\":2.5\x7d" ∧
      ∃ d, Numeric (Token.number x).jsonValue.toList false d ∧ Number.ofDecimal false d = x := by
  intro x
  have hnumeral : Numeral (['2'] ++ '.' :: ['5', '0']) ⟨250, -2⟩ :=
    .point (List.cons_ne_nil _ _) (List.forall_mem_singleton.mpr rfl)
      (List.forall_mem_cons.mpr ⟨rfl, List.forall_mem_singleton.mpr rfl⟩)
  have hyields : (ofSource "2.50").Yields [.ok (.number x)] := yields_numeral hnumeral
  have hfinite : x ≠ .infinite false := by decide +kernel
  obtain ⟨d, hnumeric, hd, -⟩ := (json_number hyields List.mem_cons_self).1 hfinite
  exact ⟨hyields, by decide +kernel, d, hnumeric, hd⟩

/-- A two and more than three hundred zeros. -/
theorem Lexer.json_number_huge :
    let source := String.ofList ('2' :: List.replicate 308 '0')
    let t : Token := .number (.infinite false)
    (ofSource source).Yields [.ok t] ∧ t.json = "\x7b\"type\":\"Number\",\"value\":inf\x7d" ∧
      ¬∃ negative d, Numeric t.jsonValue.toList negative d := by
  intro source t
  have hdigits : ∀ c ∈ '2' :: List.replicate 308 '0', c.isDigit :=
    List.forall_mem_cons.mpr ⟨rfl, Number.Layout.isDigit_zeros⟩
  have hyields := yields_numeral (.whole (List.cons_ne_nil _ _) hdigits)
  have hinfinite : Number.ofDecimal false
      ⟨Nat.ofDigitChars 10 ('2' :: List.replicate 308 '0') 0, 0⟩ = .infinite false := by
    decide +kernel
  rw [hinfinite] at hyields
  refine ⟨hyields, by decide, ?_⟩
  rintro ⟨negative, d, hnumeric⟩
  exact Token.not_numeric_infinite negative d hnumeric

end ExprLang
