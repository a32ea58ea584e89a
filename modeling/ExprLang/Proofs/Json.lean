import ExprLang.Proofs.Quoting

/-! # JSON

`Json` is what a JSON text stands for, and `Json.Denotes` says for which one, by the grammar of
RFC 8259.  A number is taken as it is written, since how exact numbers are is up to the reader.  An
escape of half a surrogate pair stands for no character, so a text with one denotes nothing.

A text denotes at most one value (`Json.Denotes.unique`), and so there are readers that conform to
the grammar (`Json.exists_conforms`): each piece of a text tells by its first character what it is,
and by the characters that follow where it stops. -/

namespace ExprLang

/-- What a JSON text stands for. -/
inductive Json where
  | null
  | boolean (b : Bool)
  /-- The number as it is written. -/
  | number (negative : Bool) (d : Decimal)
  | string (text : String)
  | array (items : List Json)
  /-- The members in order, whether or not their names are different. -/
  | object (members : List (String × Json))

namespace Json

/-! ### Numbers -/

/-- One digit or more -/
def Digits (text : List Char) : Prop := text ≠ [] ∧ ∀ c ∈ text, c.isDigit

/-- The sign of a number, and whether it is a minus -/
def signs : List (List Char × Bool) := [([], false), (['-'], true)]

/-- The sign of an exponent, and whether it is a minus -/
def exponentSigns : List (List Char × Bool) := (['+'], false) :: signs

/-- A point with digits behind it, or nothing. -/
inductive Fraction : List Char → List Char → Prop
  | absent : Fraction [] []
  | digits {ds} : Digits ds → Fraction ('.' :: ds) ds

/-- A power of ten, or nothing. -/
inductive Exponent : List Char → ℤ → Prop
  | absent : Exponent [] 0
  | digits {mark sign negative ds} :
      mark = 'e' ∨ mark = 'E' → (sign, negative) ∈ exponentSigns → Digits ds →
      Exponent (mark :: (sign ++ ds))
        (if negative then -(Nat.ofDigitChars 10 ds 0 : ℤ) else Nat.ofDigitChars 10 ds 0)

/-- A number: a sign, digits without a needless zero before them, a fraction and an exponent. -/
inductive Numeric : List Char → Bool → Decimal → Prop
  | mk {sign negative whole fraction ds exponent e} :
      (sign, negative) ∈ signs → Digits whole → (whole.head? = some '0' → whole = ['0']) →
      Fraction fraction ds → Exponent exponent e →
      Numeric (sign ++ (whole ++ (fraction ++ exponent))) negative
        ⟨Nat.ofDigitChars 10 (whole ++ ds) 0, e - ds.length⟩

/-! ### Strings -/

/-- A digit in base sixteen, in either case. -/
def HexDigit (c : Char) (n : ℕ) : Prop := n < 16 ∧ (c = n.digitChar ∨ c = n.digitChar.toUpper)

/-- Four digits in base sixteen. -/
inductive FourDigits : List Char → ℕ → Prop
  | mk {a b c d i j k l} : HexDigit a i → HexDigit b j → HexDigit c k → HexDigit d l →
      FourDigits [a, b, c, d] (((i * 16 + j) * 16 + k) * 16 + l)

/-- The characters with an escape of their own, and what stands behind its backslash. -/
def namedEscapes : List (Char × Char) :=
  [('"', '"'), ('\\', '\\'), ('/', '/'), ('\x08', 'b'), ('\x0c', 'f'), ('\n', 'n'), ('\r', 'r'),
    ('\t', 't')]

/-- The ways to write a character in a string. -/
inductive Escaped : Char → List Char → Prop
  | itself {c} : 0x20 ≤ c.toNat → c ≠ '"' → c ≠ '\\' → Escaped c [c]
  | named {c l} : (c, l) ∈ namedEscapes → Escaped c ['\\', l]
  | point {c ds} : FourDigits ds c.toNat → Escaped c ('\\' :: 'u' :: ds)
  /-- A surrogate pair. -/
  | pair {c high low h l} : FourDigits high h → FourDigits low l →
      0xD800 ≤ h ∧ h < 0xDC00 → 0xDC00 ≤ l ∧ l < 0xE000 →
      c.toNat = 0x10000 + (h - 0xD800) * 0x400 + (l - 0xDC00) →
      Escaped c ('\\' :: 'u' :: (high ++ '\\' :: 'u' :: low))

/-- Characters one behind the other. -/
inductive Spells : List Char → List Char → Prop
  | nil : Spells [] []
  | cons {c text cs rest} : Escaped c text → Spells rest cs → Spells (text ++ rest) (c :: cs)

/-- A text between quotes. -/
inductive Quoting : List Char → String → Prop
  | mk {text cs} : Spells text cs → Quoting ('"' :: (text ++ ['"'])) (String.ofList cs)

/-! ### Values -/

/-- Space, tab, line feed and carriage return -/
def IsSpace (c : Char) : Prop := c ∈ [' ', '\t', '\n', '\r']

mutual

/-- A value. -/
inductive Written : List Char → Json → Prop
  | null : Written ['n', 'u', 'l', 'l'] .null
  | yes : Written ['t', 'r', 'u', 'e'] (.boolean true)
  | no : Written ['f', 'a', 'l', 's', 'e'] (.boolean false)
  | number {text negative d} : Numeric text negative d → Written text (.number negative d)
  | string {text s} : Quoting text s → Written text (.string s)
  | array {text vs} : Items text vs → Written ('[' :: text) (.array vs)
  | object {text ms} : Members text ms → Written ('\x7b' :: text) (.object ms)

/-- A value with space around it. -/
inductive Spaced : List Char → Json → Prop
  | mk {before text after v} : (∀ c ∈ before, IsSpace c) → Written text v →
      (∀ c ∈ after, IsSpace c) → Spaced (before ++ (text ++ after)) v

/-- What stands behind the opening bracket of an array. -/
inductive Items : List Char → List Json → Prop
  | empty {space} : (∀ c ∈ space, IsSpace c) → Items (space ++ [']']) []
  | first {text v rest vs} : Spaced text v → MoreItems rest vs → Items (text ++ rest) (v :: vs)

/-- What stands behind an item of an array. -/
inductive MoreItems : List Char → List Json → Prop
  | close : MoreItems [']'] []
  | next {text v rest vs} : Spaced text v → MoreItems rest vs →
      MoreItems (',' :: (text ++ rest)) (v :: vs)

/-- A member of an object, with space around it. -/
inductive Member : List Char → String × Json → Prop
  | mk {before name x after text v} : (∀ c ∈ before, IsSpace c) → Quoting name x →
      (∀ c ∈ after, IsSpace c) → Spaced text v →
      Member (before ++ (name ++ (after ++ ':' :: text))) (x, v)

/-- What stands behind the opening brace of an object. -/
inductive Members : List Char → List (String × Json) → Prop
  | empty {space} : (∀ c ∈ space, IsSpace c) → Members (space ++ ['\x7d']) []
  | first {text m rest ms} : Member text m → MoreMembers rest ms → Members (text ++ rest) (m :: ms)

/-- What stands behind a member of an object. -/
inductive MoreMembers : List Char → List (String × Json) → Prop
  | close : MoreMembers ['\x7d'] []
  | next {text m rest ms} : Member text m → MoreMembers rest ms →
      MoreMembers (',' :: (text ++ rest)) (m :: ms)

end

/-- The text stands for the value. -/
def Denotes (text : String) (v : Json) : Prop := Spaced text.toList v

/-- The reader understands every JSON text.  What it makes of other ones is left to it. -/
def Conforms (read : String → Option Json) : Prop :=
  ∀ text v, Denotes text v → read text = some v

/-- The character can stand in a number. -/
def InNumber (c : Char) : Prop := c.isDigit ∨ c ∈ ['-', '+', '.', 'e', 'E']

/-- The character is space, or it can stand in a number. -/
def Inner (c : Char) : Prop := IsSpace c ∨ InNumber c

instance : DecidablePred IsSpace := fun c =>
  inferInstanceAs (Decidable (c ∈ [' ', '\t', '\n', '\r']))

instance : DecidablePred InNumber := fun c =>
  inferInstanceAs (Decidable (c.isDigit ∨ c ∈ ['-', '+', '.', 'e', 'E']))

instance : DecidablePred Inner := fun c => inferInstanceAs (Decidable (IsSpace c ∨ InNumber c))

/-! ### Numbers are read in one way -/

theorem Digits.exists_cons {ds : List Char} (h : Digits ds) : ∃ c cs, ds = c :: cs ∧ c.isDigit := by
  obtain ⟨c, cs, rfl⟩ := List.exists_cons_of_ne_nil h.1
  exact ⟨c, cs, rfl, h.2 c List.mem_cons_self⟩

theorem exponentSigns_cases {sign : List Char} {negative : Bool}
    (h : (sign, negative) ∈ exponentSigns) :
    (sign = ['+'] ∧ negative = false) ∨ (sign = [] ∧ negative = false) ∨
      (sign = ['-'] ∧ negative = true) := by
  simpa [exponentSigns, signs] using h

theorem splitSign_append {sign cs : List Char} {negative : Bool} {c : Char}
    (hsign : (sign, negative) ∈ exponentSigns) (hc : c.isDigit) :
    Number.splitSign (sign ++ c :: cs) = (negative, c :: cs) := by
  rcases exponentSigns_cases hsign with ⟨rfl, rfl⟩ | ⟨rfl, rfl⟩ | ⟨rfl, rfl⟩
  · rfl
  · rw [List.nil_append]
    unfold Number.splitSign
    split
    · next h =>
        rw [(List.cons.inj h).1] at hc
        cases hc
    · next h =>
        rw [(List.cons.inj h).1] at hc
        cases hc
    · rfl
  · rfl

section numbers

variable {text text' fraction exponent ds u u' : List Char} {n n' : Bool} {d d' : Decimal} {e : ℤ}

theorem Fraction.isDigit (h : Fraction fraction ds) : ∀ c ∈ ds, c.isDigit := by
  cases h with
  | absent => exact List.forall_mem_nil _
  | digits hds => exact hds.2

theorem Exponent.ends (h : Exponent exponent e) :
    Ends (fun c => c.isDigit ∨ c = '.') exponent := by
  cases h with
  | absent => exact ends_nil
  | digits hmark =>
      rcases hmark with rfl | rfl
      · exact ends_cons (by decide) _
      · exact ends_cons (by decide) _

theorem Exponent.exponent? (h : Exponent exponent e) : Number.exponent? exponent = some e := by
  cases h with
  | absent => rfl
  | @digits mark _ _ _ hmark hsign hds =>
      obtain ⟨c, cs, rfl, hc⟩ := hds.exists_cons
      have hall : (c :: cs).all Char.isDigit = true := List.all_eq_true.mpr hds.2
      rw [Number.exponent?, splitSign_append hsign hc]
      exact if_pos ⟨hmark, hds.1, hall⟩

theorem Fraction.splitFraction (h : Fraction fraction ds)
    (hends : Ends (fun c => c.isDigit ∨ c = '.') u) :
    Number.splitFraction (fraction ++ u) = (ds, u) := by
  cases h with
  | absent =>
      rw [List.nil_append]
      unfold Number.splitFraction
      split
      · exact absurd (.inr rfl) (hends '.' rfl)
      · rfl
  | digits hds =>
      have hends : Ends (·.isDigit) u := hends.mono .inl
      rw [List.cons_append, Number.splitFraction, takeWhile_run Iff.rfl hds.2 hends,
        dropWhile_run Iff.rfl hds.2 hends]

/-- The reader of numbers understands the numbers of JSON. -/
theorem Numeric.read (h : Numeric text n d) :
    ∃ body, Number.splitSign text = (n, body) ∧ Number.decimal? body = some d := by
  cases h with
  | @mk sign _ whole fraction ds exponent e hsign hwhole _ hfraction hexponent =>
      refine ⟨whole ++ (fraction ++ exponent), ?_, ?_⟩
      · obtain ⟨c, cs, rfl, hc⟩ := hwhole.exists_cons
        exact splitSign_append (List.mem_cons_of_mem _ hsign) hc
      · have hrest : Ends (·.isDigit) (fraction ++ exponent) := by
          cases hfraction with
          | absent => exact hexponent.ends.mono .inl
          | digits => exact ends_cons (by decide) _
        have hne : ¬whole ++ ds = [] := List.append_ne_nil_of_left_ne_nil hwhole.1 _
        unfold Number.decimal?
        rw [takeWhile_run Iff.rfl hwhole.2 hrest, dropWhile_run Iff.rfl hwhole.2 hrest,
          hfraction.splitFraction hexponent.ends]
        dsimp only
        rw [if_neg hne, hexponent.exponent?, Option.map_some]

theorem Numeric.unique (h : Numeric text n d) (h' : Numeric text n' d') : n = n' ∧ d = d' := by
  obtain ⟨body, hsign, hdecimal⟩ := h.read
  obtain ⟨body', hsign', hdecimal'⟩ := h'.read
  rw [hsign] at hsign'
  cases hsign'
  rw [hdecimal] at hdecimal'
  cases hdecimal'
  exact ⟨rfl, rfl⟩

theorem Numeric.opens (h : Numeric text n d) : ∃ c cs, text = c :: cs ∧ (c = '-' ∨ c.isDigit) := by
  cases h with
  | mk hsign hwhole =>
      simp only [signs, List.mem_cons, Prod.mk.injEq, List.not_mem_nil, or_false] at hsign
      rcases hsign with ⟨rfl, rfl⟩ | ⟨rfl, rfl⟩
      · obtain ⟨c, cs, rfl, hc⟩ := hwhole.exists_cons
        exact ⟨c, _, rfl, .inr hc⟩
      · exact ⟨'-', _, rfl, .inl rfl⟩

theorem inNumber_of_sign {sign : List Char} (h : (sign, n) ∈ exponentSigns) :
    ∀ c ∈ sign, InNumber c := by
  rcases exponentSigns_cases h with ⟨rfl, -⟩ | ⟨rfl, -⟩ | ⟨rfl, -⟩
  · exact List.forall_mem_singleton.mpr (.inr (by decide))
  · exact List.forall_mem_nil _
  · exact List.forall_mem_singleton.mpr (.inr (by decide))

theorem Numeric.inNumber (h : Numeric text n d) : ∀ c ∈ text, InNumber c := by
  cases h with
  | mk hsign hwhole _ hfraction hexponent =>
      simp only [List.forall_mem_append]
      refine ⟨inNumber_of_sign (List.mem_cons_of_mem _ hsign), fun c hc => .inl (hwhole.2 c hc),
        ?_, ?_⟩
      · cases hfraction with
        | absent => exact List.forall_mem_nil _
        | digits hds =>
            exact List.forall_mem_cons.mpr ⟨.inr (by decide), fun c hc => .inl (hds.2 c hc)⟩
      · cases hexponent with
        | absent => exact List.forall_mem_nil _
        | digits hmark hsign hds =>
            rw [List.forall_mem_cons, List.forall_mem_append]
            refine ⟨.inr ?_, inNumber_of_sign hsign, fun c hc => .inl (hds.2 c hc)⟩
            rcases hmark with rfl | rfl
            · decide
            · decide

theorem Numeric.append_inj (h : Numeric text n d) (h' : Numeric text' n' d')
    (hu : Ends InNumber u) (hu' : Ends InNumber u') (heq : text ++ u = text' ++ u') :
    (n = n' ∧ d = d') ∧ u = u' := by
  obtain ⟨rfl, rfl⟩ := run_append_inj h.inNumber h'.inNumber hu hu' heq
  exact ⟨h.unique h', rfl⟩

end numbers

/-! ### Strings are read in one way -/

section strings

variable {c c' : Char} {text text' cs cs' u u' : List Char} {m n : ℕ}

theorem HexDigit.unique (h : HexDigit c m) (h' : HexDigit c n) : m = n := by
  have htable : ∀ m < 16, ∀ n < 16, [m.digitChar, m.digitChar.toUpper].any
      (· ∈ [n.digitChar, n.digitChar.toUpper]) = true → m = n := by decide +kernel
  refine htable m h.1 n h'.1 (List.any_eq_true.mpr ⟨c, ?_, decide_eq_true ?_⟩)
  · simpa using h.2
  · simpa using h'.2

theorem FourDigits.append_inj (h : FourDigits text m) (h' : FourDigits text' n)
    (heq : text ++ u = text' ++ u') : m = n ∧ u = u' := by
  cases h with
  | mk ha hb hc hd =>
      cases h' with
      | mk ha' hb' hc' hd' =>
          simp only [List.cons_append, List.nil_append, List.cons.injEq] at heq
          obtain ⟨rfl, rfl, rfl, rfl, rfl⟩ := heq
          rw [ha.unique ha', hb.unique hb', hc.unique hc', hd.unique hd']
          exact ⟨rfl, rfl⟩

theorem named_inj {l : Char} (h : (c, l) ∈ namedEscapes) (h' : (c', l) ∈ namedEscapes) :
    c = c' := by
  have htable : ∀ p ∈ namedEscapes, ∀ q ∈ namedEscapes, p.2 = q.2 → p.1 = q.1 := by decide
  exact htable _ h _ h' rfl

theorem not_named_u (h : (c, 'u') ∈ namedEscapes) : False := by
  have htable : ∀ p ∈ namedEscapes, p.2 ≠ 'u' := by decide
  exact htable _ h rfl

/-- A character is no half of a surrogate pair. -/
theorem not_surrogate (c : Char) : ¬(0xD800 ≤ c.toNat ∧ c.toNat < 0xDC00) := by
  have hvalid : c.toNat < 0xD800 ∨ (0xDFFF < c.toNat ∧ c.toNat < 0x110000) := c.valid
  omega

/-- How a character is written says which one it is and where it stops. -/
theorem Escaped.append_inj (h : Escaped c text) (h' : Escaped c' text')
    (heq : text ++ u = text' ++ u') : c = c' ∧ u = u' := by
  -- The first two characters tell the ways apart, except for a code point and a surrogate pair:
  -- these differ because no character is half of a pair.
  cases h with
  | itself _ _ hbackslash =>
      cases h' with
      | itself => exact List.cons.inj heq
      | named => exact absurd (List.cons.inj heq).1 hbackslash
      | point => exact absurd (List.cons.inj heq).1 hbackslash
      | pair => exact absurd (List.cons.inj heq).1 hbackslash
  | named hnamed =>
      cases h' with
      | itself _ _ hbackslash => exact absurd (List.cons.inj heq).1.symm hbackslash
      | named hnamed' =>
          obtain ⟨-, htail⟩ := List.cons.inj heq
          obtain ⟨rfl, hrest⟩ := List.cons.inj htail
          exact ⟨named_inj hnamed hnamed', hrest⟩
      | point =>
          obtain ⟨-, htail⟩ := List.cons.inj heq
          obtain ⟨rfl, -⟩ := List.cons.inj htail
          exact (not_named_u hnamed).elim
      | pair =>
          obtain ⟨-, htail⟩ := List.cons.inj heq
          obtain ⟨rfl, -⟩ := List.cons.inj htail
          exact (not_named_u hnamed).elim
  | point hds =>
      cases h' with
      | itself _ _ hbackslash => exact absurd (List.cons.inj heq).1.symm hbackslash
      | named hnamed' =>
          obtain ⟨-, htail⟩ := List.cons.inj heq
          obtain ⟨rfl, -⟩ := List.cons.inj htail
          exact (not_named_u hnamed').elim
      | point hds' =>
          simp only [List.cons_append, List.cons.injEq, true_and] at heq
          obtain ⟨hpoint, hrest⟩ := hds.append_inj hds' heq
          exact ⟨Char.toNat_inj.mp hpoint, hrest⟩
      | pair hhigh hlow hh =>
          simp only [List.cons_append, List.append_assoc, List.cons.injEq, true_and] at heq
          obtain ⟨hpoint, -⟩ := hds.append_inj hhigh heq
          rw [← hpoint] at hh
          exact absurd hh (not_surrogate c)
  | pair hhigh hlow hh _ hc =>
      cases h' with
      | itself _ _ hbackslash => exact absurd (List.cons.inj heq).1.symm hbackslash
      | named hnamed' =>
          obtain ⟨-, htail⟩ := List.cons.inj heq
          obtain ⟨rfl, -⟩ := List.cons.inj htail
          exact (not_named_u hnamed').elim
      | point hds' =>
          simp only [List.cons_append, List.append_assoc, List.cons.injEq, true_and] at heq
          obtain ⟨hpoint, -⟩ := hhigh.append_inj hds' heq
          rw [hpoint] at hh
          exact absurd hh (not_surrogate c')
      | pair hhigh' hlow' _ _ hc' =>
          simp only [List.cons_append, List.append_assoc, List.cons.injEq, true_and] at heq
          obtain ⟨rfl, htail⟩ := hhigh.append_inj hhigh' heq
          simp only [List.cons.injEq, true_and] at htail
          obtain ⟨rfl, hrest⟩ := hlow.append_inj hlow' htail
          exact ⟨Char.toNat_inj.mp (hc.trans hc'.symm), hrest⟩

theorem Escaped.head_ne_quote (h : Escaped c text) : ∃ d ds, text = d :: ds ∧ d ≠ '"' := by
  cases h with
  | itself _ hquote => exact ⟨c, [], rfl, hquote⟩
  | named => exact ⟨'\\', _, rfl, by decide⟩
  | point => exact ⟨'\\', _, rfl, by decide⟩
  | pair => exact ⟨'\\', _, rfl, by decide⟩

theorem Spells.append_inj (h : Spells text cs) (h' : Spells text' cs')
    (heq : text ++ '"' :: u = text' ++ '"' :: u') : cs = cs' ∧ u = u' := by
  induction h generalizing text' cs' with
  | nil =>
      cases h' with
      | nil => exact ⟨rfl, (List.cons.inj heq).2⟩
      | cons hc' =>
          obtain ⟨d, ds, rfl, hne⟩ := hc'.head_ne_quote
          exact absurd (List.cons.inj heq).1.symm hne
  | cons hc _ ih =>
      cases h' with
      | nil =>
          obtain ⟨d, ds, rfl, hne⟩ := hc.head_ne_quote
          exact absurd (List.cons.inj heq).1 hne
      | cons hc' hcs' =>
          rw [List.append_assoc, List.append_assoc] at heq
          obtain ⟨rfl, htail⟩ := hc.append_inj hc' heq
          obtain ⟨rfl, hrest⟩ := ih hcs' htail
          exact ⟨rfl, hrest⟩

theorem Quoting.append_inj {s s' : String} (h : Quoting text s) (h' : Quoting text' s')
    (heq : text ++ u = text' ++ u') : s = s' ∧ u = u' := by
  cases h with
  | mk hcs =>
      cases h' with
      | mk hcs' =>
          simp only [List.cons_append, List.append_assoc, List.nil_append, List.cons.injEq,
            true_and] at heq
          obtain ⟨rfl, hrest⟩ := hcs.append_inj hcs' heq
          exact ⟨rfl, hrest⟩

end strings

/-! ### Values are read in one way -/

/-- A value begins with the character. -/
def Opens (c : Char) : Json → Prop
  | .null => c = 'n'
  | .boolean b => (c = 't' ∧ b = true) ∨ (c = 'f' ∧ b = false)
  | .number _ _ => c = '-' ∨ c.isDigit
  | .string _ => c = '"'
  | .array _ => c = '['
  | .object _ => c = '\x7b'

section opens

variable {c : Char} {v : Json}

theorem opens_null (h : Opens 'n' v) : v = .null := by
  cases v <;> simp [Opens] at h ⊢

theorem opens_yes (h : Opens 't' v) : v = .boolean true := by
  cases v <;> simp [Opens] at h ⊢
  exact h

theorem opens_no (h : Opens 'f' v) : v = .boolean false := by
  cases v <;> simp [Opens] at h ⊢
  exact h

theorem opens_string (h : Opens '"' v) : ∃ s, v = .string s := by
  cases v <;> simp [Opens] at h ⊢

theorem opens_array (h : Opens '[' v) : ∃ vs, v = .array vs := by
  cases v <;> simp [Opens] at h ⊢

theorem opens_object (h : Opens '\x7b' v) : ∃ ms, v = .object ms := by
  cases v <;> simp [Opens] at h ⊢

theorem opens_number (hc : c = '-' ∨ c.isDigit) (h : Opens c v) : ∃ n d, v = .number n d := by
  cases v with
  | number n d => exact ⟨n, d, rfl⟩
  | boolean b => rcases h with ⟨rfl, -⟩ | ⟨rfl, -⟩ <;> exact absurd hc (by decide)
  | _ => cases h; exact absurd hc (by decide)

end opens

theorem opens_cases {c : Char} {v : Json} (h : Opens c v) :
    c.isDigit ∨ c ∈ ['n', 't', 'f', '-', '"', '[', '\x7b'] := by
  cases v with
  | number n d => exact h.symm.imp_right fun hminus => by rw [hminus]; decide
  | boolean b => rcases h with ⟨rfl, -⟩ | ⟨rfl, -⟩ <;> decide
  | _ => cases h; decide

theorem not_opens {c : Char} {v : Json} (hc : c ∈ [' ', '\t', '\n', '\r', ']']) :
    ¬Opens c v := by
  simp only [List.mem_cons, List.not_mem_nil, or_false] at hc
  rcases hc with rfl | rfl | rfl | rfl | rfl <;> exact mt opens_cases (by decide)

section values

variable {c : Char} {v v' : Json} {vs vs' : List Json} {m m' : String × Json}
  {ms ms' : List (String × Json)} {text text' u u' : List Char}

theorem Quoting.opens {s : String} (h : Quoting text s) : ∃ cs, text = '"' :: cs := by
  cases h with
  | mk => exact ⟨_, rfl⟩

theorem Written.opens (h : Written text v) : ∃ c cs, text = c :: cs ∧ Opens c v := by
  cases h with
  | null => exact ⟨'n', _, rfl, rfl⟩
  | yes => exact ⟨'t', _, rfl, .inl ⟨rfl, rfl⟩⟩
  | no => exact ⟨'f', _, rfl, .inr ⟨rfl, rfl⟩⟩
  | number hnumeric => exact hnumeric.opens
  | string hquoting =>
      obtain ⟨cs, rfl⟩ := hquoting.opens
      exact ⟨'"', cs, rfl, rfl⟩
  | array => exact ⟨'[', _, rfl, rfl⟩
  | object => exact ⟨'\x7b', _, rfl, rfl⟩

theorem Written.opens_of_append (h : Written text v) (heq : c :: u' = text ++ u) : Opens c v := by
  obtain ⟨d, ds, rfl, hopens⟩ := h.opens
  rw [(List.cons.inj heq).1]
  exact hopens

theorem Written.ends (h : Written text v) (u : List Char) : Ends IsSpace (text ++ u) := by
  obtain ⟨c, cs, rfl, hopens⟩ := h.opens
  refine ends_cons (fun hspace => ?_) _
  exact not_opens (List.mem_append_left [']'] hspace) hopens

theorem Quoting.ends {s : String} (h : Quoting text s) (u : List Char) :
    Ends IsSpace (text ++ u) := by
  obtain ⟨cs, rfl⟩ := h.opens
  exact ends_cons (by decide) _

/-- A value is not taken for the end of an array. -/
theorem Spaced.append_ne {space : List Char} (h : Spaced text v) (hspace : ∀ c ∈ space, IsSpace c) :
    text ++ u ≠ space ++ ']' :: u' := by
  intro heq
  cases h with
  | mk hbefore hwritten _ =>
      rw [List.append_assoc, List.append_assoc] at heq
      obtain ⟨rfl, htail⟩ := run_append_inj hbefore hspace (hwritten.ends _)
        (ends_cons (by decide) _) heq
      exact not_opens (by decide) (hwritten.opens_of_append htail.symm)

/-- A member is not taken for the end of an object. -/
theorem Member.append_ne {space : List Char} (h : Member text m) (hspace : ∀ c ∈ space, IsSpace c) :
    text ++ u ≠ space ++ '\x7d' :: u' := by
  intro heq
  cases h with
  | mk hbefore hquoting _ _ =>
      rw [List.append_assoc, List.append_assoc] at heq
      obtain ⟨rfl, htail⟩ := run_append_inj hbefore hspace (hquoting.ends _)
        (ends_cons (by decide) _) heq
      obtain ⟨cs, rfl⟩ := hquoting.opens
      exact absurd (List.cons.inj htail).1 (by decide)

theorem ends_inner_of_mem (hc : c ∈ [',', ']', '\x7d']) (u : List Char) : Ends Inner (c :: u) := by
  simp only [List.mem_cons, List.not_mem_nil, or_false] at hc
  rcases hc with rfl | rfl | rfl <;> exact ends_cons (by decide) u

theorem MoreItems.ends (h : MoreItems text vs) (u : List Char) : Ends Inner (text ++ u) := by
  cases h with
  | close => exact ends_inner_of_mem (by decide) _
  | next => exact ends_inner_of_mem (by decide) _

theorem MoreMembers.ends (h : MoreMembers text ms) (u : List Char) : Ends Inner (text ++ u) := by
  cases h with
  | close => exact ends_inner_of_mem (by decide) _
  | next => exact ends_inner_of_mem (by decide) _

theorem IsSpace.not_inNumber (h : IsSpace c) : ¬InNumber c := by
  simp only [IsSpace, List.mem_cons, List.not_mem_nil, or_false] at h
  rcases h with rfl | rfl | rfl | rfl <;> decide

theorem ends_space_append {space : List Char} (hspace : ∀ c ∈ space, IsSpace c)
    (hu : Ends Inner u) : Ends InNumber (space ++ u) := by
  cases space with
  | nil => exact hu.mono .inr
  | cons c cs => exact ends_cons (hspace c List.mem_cons_self).not_inNumber _

theorem ends_colon (u : List Char) : Ends IsSpace (':' :: u) := ends_cons (by decide) u

-- The induction is on the first derivation.  What the second one is follows from its first
-- character, or from how a list goes on.
mutual

/-- **A value says what it is and where it stops.** -/
theorem Written.append_inj {text text' u u' : List Char} {v v' : Json} :
    Written text v → Written text' v' → Ends InNumber u → Ends InNumber u' →
      text ++ u = text' ++ u' → v = v' ∧ u = u'
  | .null, h', _, _, heq => by
      obtain rfl := opens_null (h'.opens_of_append heq)
      cases h'
      exact ⟨rfl, List.append_cancel_left heq⟩
  | .yes, h', _, _, heq => by
      obtain rfl := opens_yes (h'.opens_of_append heq)
      cases h'
      exact ⟨rfl, List.append_cancel_left heq⟩
  | .no, h', _, _, heq => by
      obtain rfl := opens_no (h'.opens_of_append heq)
      cases h'
      exact ⟨rfl, List.append_cancel_left heq⟩
  | .number hnumeric, h', hu, hu', heq => by
      obtain ⟨c, cs, rfl, hc⟩ := hnumeric.opens
      obtain ⟨n, d, rfl⟩ := opens_number hc (h'.opens_of_append heq)
      cases h' with
      | number hnumeric' =>
          obtain ⟨⟨rfl, rfl⟩, hrest⟩ := hnumeric.append_inj hnumeric' hu hu' heq
          exact ⟨rfl, hrest⟩
  | .string hquoting, h', _, _, heq => by
      obtain ⟨cs, rfl⟩ := hquoting.opens
      obtain ⟨s, rfl⟩ := opens_string (h'.opens_of_append heq)
      cases h' with
      | string hquoting' =>
          obtain ⟨rfl, hrest⟩ := hquoting.append_inj hquoting' heq
          exact ⟨rfl, hrest⟩
  | .array hitems, h', _, _, heq => by
      obtain ⟨vs, rfl⟩ := opens_array (h'.opens_of_append heq)
      cases h' with
      | array hitems' =>
          obtain ⟨rfl, hrest⟩ := hitems.append_inj hitems' (List.cons.inj heq).2
          exact ⟨rfl, hrest⟩
  | .object hmembers, h', _, _, heq => by
      obtain ⟨ms, rfl⟩ := opens_object (h'.opens_of_append heq)
      cases h' with
      | object hmembers' =>
          obtain ⟨rfl, hrest⟩ := hmembers.append_inj hmembers' (List.cons.inj heq).2
          exact ⟨rfl, hrest⟩
termination_by structural h => h

theorem Spaced.append_inj {text text' u u' : List Char} {v v' : Json} :
    Spaced text v → Spaced text' v' → Ends Inner u → Ends Inner u' →
      text ++ u = text' ++ u' → v = v' ∧ u = u'
  | .mk hbefore hwritten hafter, .mk hbefore' hwritten' hafter', hu, hu', heq => by
      simp only [List.append_assoc] at heq
      obtain ⟨-, hvalue⟩ :=
        run_append_inj hbefore hbefore' (hwritten.ends _) (hwritten'.ends _) heq
      obtain ⟨rfl, htail⟩ := hwritten.append_inj hwritten' (ends_space_append hafter hu)
        (ends_space_append hafter' hu') hvalue
      obtain ⟨-, hrest⟩ := run_append_inj hafter hafter' (hu.mono .inl) (hu'.mono .inl) htail
      exact ⟨rfl, hrest⟩
termination_by structural h => h

theorem Items.append_inj {text text' u u' : List Char} {vs vs' : List Json} :
    Items text vs → Items text' vs' → text ++ u = text' ++ u' → vs = vs' ∧ u = u'
  | .empty hspace, .empty hspace', heq => by
      rw [List.append_assoc, List.append_assoc] at heq
      obtain ⟨-, hrest⟩ := run_append_inj hspace hspace' (ends_cons (by decide) _)
        (ends_cons (by decide) _) heq
      exact ⟨rfl, (List.cons.inj hrest).2⟩
  | .empty hspace, .first hitem _, heq => by
      rw [List.append_assoc, List.append_assoc] at heq
      exact absurd heq.symm (hitem.append_ne hspace)
  | .first hitem _, .empty hspace, heq => by
      rw [List.append_assoc, List.append_assoc] at heq
      exact absurd heq (hitem.append_ne hspace)
  | .first hitem hmore, .first hitem' hmore', heq => by
      rw [List.append_assoc, List.append_assoc] at heq
      obtain ⟨rfl, htail⟩ := hitem.append_inj hitem' (hmore.ends _) (hmore'.ends _) heq
      obtain ⟨rfl, hrest⟩ := hmore.append_inj hmore' htail
      exact ⟨rfl, hrest⟩
termination_by structural h => h

theorem MoreItems.append_inj {text text' u u' : List Char} {vs vs' : List Json} :
    MoreItems text vs → MoreItems text' vs' → text ++ u = text' ++ u' → vs = vs' ∧ u = u'
  | .close, .close, heq => ⟨rfl, (List.cons.inj heq).2⟩
  | .close, .next _ _, heq => absurd (List.cons.inj heq).1 (by decide)
  | .next _ _, .close, heq => absurd (List.cons.inj heq).1 (by decide)
  | .next hitem hmore, .next hitem' hmore', heq => by
      simp only [List.cons_append, List.append_assoc, List.cons.injEq, true_and] at heq
      obtain ⟨rfl, htail⟩ := hitem.append_inj hitem' (hmore.ends _) (hmore'.ends _) heq
      obtain ⟨rfl, hrest⟩ := hmore.append_inj hmore' htail
      exact ⟨rfl, hrest⟩
termination_by structural h => h

theorem Member.append_inj {text text' u u' : List Char} {m m' : String × Json} :
    Member text m → Member text' m' → Ends Inner u → Ends Inner u' →
      text ++ u = text' ++ u' → m = m' ∧ u = u'
  | .mk hbefore hname hafter hvalue, .mk hbefore' hname' hafter' hvalue', hu, hu', heq => by
      simp only [List.append_assoc, List.cons_append] at heq
      obtain ⟨-, hpair⟩ := run_append_inj hbefore hbefore' (hname.ends _) (hname'.ends _) heq
      obtain ⟨hx, hbehind⟩ := hname.append_inj hname' hpair
      obtain ⟨-, htail⟩ := run_append_inj hafter hafter' (ends_colon _) (ends_colon _) hbehind
      obtain ⟨hv, hrest⟩ := hvalue.append_inj hvalue' hu hu' (List.cons.inj htail).2
      exact ⟨Prod.ext hx hv, hrest⟩
termination_by structural h => h

theorem Members.append_inj {text text' u u' : List Char} {ms ms' : List (String × Json)} :
    Members text ms → Members text' ms' → text ++ u = text' ++ u' → ms = ms' ∧ u = u'
  | .empty hspace, .empty hspace', heq => by
      rw [List.append_assoc, List.append_assoc] at heq
      obtain ⟨-, hrest⟩ := run_append_inj hspace hspace' (ends_cons (by decide) _)
        (ends_cons (by decide) _) heq
      exact ⟨rfl, (List.cons.inj hrest).2⟩
  | .empty hspace, .first hmember _, heq => by
      rw [List.append_assoc, List.append_assoc] at heq
      exact absurd heq.symm (hmember.append_ne hspace)
  | .first hmember _, .empty hspace, heq => by
      rw [List.append_assoc, List.append_assoc] at heq
      exact absurd heq (hmember.append_ne hspace)
  | .first hmember hmore, .first hmember' hmore', heq => by
      rw [List.append_assoc, List.append_assoc] at heq
      obtain ⟨rfl, htail⟩ := hmember.append_inj hmember' (hmore.ends _) (hmore'.ends _) heq
      obtain ⟨rfl, hrest⟩ := hmore.append_inj hmore' htail
      exact ⟨rfl, hrest⟩
termination_by structural h => h

theorem MoreMembers.append_inj {text text' u u' : List Char} {ms ms' : List (String × Json)} :
    MoreMembers text ms → MoreMembers text' ms' → text ++ u = text' ++ u' → ms = ms' ∧ u = u'
  | .close, .close, heq => ⟨rfl, (List.cons.inj heq).2⟩
  | .close, .next _ _, heq => absurd (List.cons.inj heq).1 (by decide)
  | .next _ _, .close, heq => absurd (List.cons.inj heq).1 (by decide)
  | .next hmember hmore, .next hmember' hmore', heq => by
      simp only [List.cons_append, List.append_assoc, List.cons.injEq, true_and] at heq
      obtain ⟨rfl, htail⟩ := hmember.append_inj hmember' (hmore.ends _) (hmore'.ends _) heq
      obtain ⟨rfl, hrest⟩ := hmore.append_inj hmore' htail
      exact ⟨rfl, hrest⟩
termination_by structural h => h

end

/-- **A JSON text denotes one value.** -/
theorem Denotes.unique {text : String} (h : Denotes text v) (h' : Denotes text v') : v = v' :=
  (Spaced.append_inj h h' ends_nil ends_nil rfl).1

/-- There are readers that understand every JSON text. -/
theorem exists_conforms : ∃ read, Conforms read := by
  classical
  refine ⟨fun text => if h : ∃ v, Denotes text v then some h.choose else none, ?_⟩
  intro text v h
  have hexists : ∃ v, Denotes text v := ⟨v, h⟩
  dsimp only
  rw [dif_pos hexists, hexists.choose_spec.unique h]

end values

end Json

end ExprLang
