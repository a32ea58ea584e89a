import ExprLang.Proofs.Json
import ExprLang.Token.Basic

/-! # Tokens in JSON

A token is written as a JSON object of its kind and its value (`Token.denotes_json`).  Except for
numbers, the value is the text of the token as a string, and every escape in it is read back as the
character that it is for (`Json.quoting_jsonString`).  So whoever reads JSON has the text as it was
(`Token.json_decodes`). -/

namespace ExprLang

namespace Json

/-! ### Strings as they are written -/

theorem fourDigits_hexFour {n : ℕ} (hn : n < 0x20) : FourDigits (hexFour n) n := by
  have hdigits : ∀ n < 0x20, hexFour n =
      [Nat.digitChar 0, Nat.digitChar 0, Nat.digitChar (n / 16), Nat.digitChar (n % 16)] := by
    decide
  have hdigit : ∀ {k}, k < 16 → HexDigit k.digitChar k := fun hk => ⟨hk, .inl rfl⟩
  have hfour : FourDigits (hexFour n) (((0 * 16 + 0) * 16 + n / 16) * 16 + n % 16) := by
    rw [hdigits n hn]
    exact .mk (hdigit (by decide)) (hdigit (by decide)) (hdigit (by omega)) (hdigit (by omega))
  have hn : ((0 * 16 + 0) * 16 + n / 16) * 16 + n % 16 = n := by omega
  rwa [hn] at hfour

theorem escaped_jsonEscape (c : Char) : Escaped c (jsonEscape c) := by
  unfold jsonEscape
  split
  · exact .named (by decide)
  · exact .named (by decide)
  · exact .named (by decide)
  · exact .named (by decide)
  · exact .named (by decide)
  · next hquote hbackslash _ _ _ =>
    split
    · next hcontrol => exact .point (fourDigits_hexFour hcontrol)
    · next hcontrol => exact .itself (Nat.le_of_not_lt hcontrol) hquote hbackslash

theorem spells_flatMap (cs : List Char) : Spells (cs.flatMap jsonEscape) cs := by
  induction cs with
  | nil => exact .nil
  | cons c cs ih => exact .cons (escaped_jsonEscape c) ih

/-- A text that is written as a string is that string. -/
theorem quoting_jsonString (s : String) : Quoting (jsonString s).toList s := by
  have h := Quoting.mk (spells_flatMap s.toList)
  rwa [String.ofList_toList, ← String.toList_ofList (l := '"' :: _)] at h

theorem Written.spaced {text : List Char} {v : Json} (h : Written text v) : Spaced text v := by
  have hspaced := Spaced.mk (List.forall_mem_nil _) h (List.forall_mem_nil _)
  rwa [List.append_nil, List.nil_append] at hspaced

/-- A member without space. -/
theorem Written.member {text name : List Char} {x : String} {v : Json} (h : Written text v)
    (hname : Quoting name x) : Member (name ++ ':' :: text) (x, v) :=
  .mk (List.forall_mem_nil _) hname (List.forall_mem_nil _) h.spaced

end Json

open Json

/-! ### Tokens -/

theorem TokenKind.jsonString_name (k : TokenKind) : jsonString k.name = "\"" ++ k.name ++ "\"" := by
  cases k <;> decide

theorem TokenKind.name_inj {k k' : TokenKind} (h : k.name = k'.name) : k = k' := by
  cases k <;> cases k' <;> first | rfl | exact absurd h (by decide)

namespace Token

theorem toList_json (t : Token) :
    t.json.toList = '\x7b' ::
      (((jsonString "type").toList ++ ':' :: (jsonString t.kind.name).toList) ++
        ',' :: ((jsonString "value").toList ++ ':' :: (t.jsonValue.toList ++ ['\x7d']))) := by
  have htype : jsonString "type" = "\"type\"" := by decide
  have hvalue : jsonString "value" = "\"value\"" := by decide
  rw [htype, hvalue, t.kind.jsonString_name]
  simp [json]

/-- The first member of the object, without the brace before it. -/
theorem member_kind (k : TokenKind) :
    Member ((jsonString "type").toList ++ ':' :: (jsonString k.name).toList)
      ("type", .string k.name) :=
  (Written.string (quoting_jsonString k.name)).member (quoting_jsonString "type")

/-- A token is an object of its kind and its value. -/
theorem denotes_json {t : Token} {v : Json} (h : Written t.jsonValue.toList v) :
    Denotes t.json (.object [("type", .string t.kind.name), ("value", v)]) := by
  have hvalue := h.member (quoting_jsonString "value")
  have hobject := (Written.object (.first (member_kind t.kind) (.next hvalue .close))).spaced
  rw [Denotes, toList_json]
  simpa only [List.append_assoc, List.cons_append] using hobject

/-- The text of a token that is no number. -/
def text? : Token → Option String
  | .keyword k => some k.text
  | .variable name => some name
  | .number _ => none
  | .string s => some s
  | .operator text => some text
  | .punctuation c => some c.toString

theorem jsonValue_of_text? {t : Token} {s : String} (h : t.text? = some s) :
    t.jsonValue = jsonString s := by
  cases t with
  | number => cases h
  | _ => cases h; rfl

/-- The object for a token of a kind with a text. -/
def textObject (k : TokenKind) (s : String) : Json :=
  .object [("type", .string k.name), ("value", .string s)]

theorem textObject_inj {k k' : TokenKind} {s s' : String} (h : textObject k s = textObject k' s') :
    k = k' ∧ s = s' := by
  simp only [textObject, Json.object.injEq, List.cons.injEq, Prod.mk.injEq, Json.string.injEq,
    true_and, and_true] at h
  exact ⟨TokenKind.name_inj h.1, h.2⟩

theorem denotes_textObject {t : Token} {s : String} (h : t.text? = some s) :
    Denotes t.json (textObject t.kind s) := by
  refine denotes_json (.string ?_)
  rw [jsonValue_of_text? h]
  exact quoting_jsonString s

/-- **The JSON of a token is read back as its text.**  A token that is no number is written as a
JSON text for the object of its kind and its text and for nothing else, every reader of JSON finds
this object, and no token of another kind or with another text is written like it. -/
theorem json_decodes {t : Token} {s : String} (h : t.text? = some s) :
    (∀ v, Denotes t.json v ↔ v = textObject t.kind s) ∧
      (∀ read, Conforms read → read t.json = some (textObject t.kind s)) ∧
      ∀ t' s', text? t' = some s' → t'.json = t.json → t'.kind = t.kind ∧ s' = s := by
  have hobject := denotes_textObject h
  refine ⟨fun v => ⟨fun hv => hv.unique hobject, ?_⟩, ?_, ?_⟩
  · rintro rfl
    exact hobject
  · intro read hread
    exact hread _ _ hobject
  · intro t' s' h' hjson
    have hobject' := denotes_textObject h'
    rw [hjson] at hobject'
    exact textObject_inj (hobject'.unique hobject)

/-- A string of a quote, a backslash, a control character and a character that needs two surrogates
elsewhere. -/
theorem json_decodes_string :
    let t : Token := .string "\"\\\x1b😀"
    t.json = "\x7b\"type\":\"String\",\"value\":\"\\\"\\\\\\u001b😀\"\x7d" ∧
      ∃ read, Conforms read ∧ read t.json = some (textObject .string "\"\\\x1b😀") := by
  intro t
  obtain ⟨read, hread⟩ := exists_conforms
  obtain ⟨-, hdecodes, -⟩ := json_decodes (t := t) rfl
  exact ⟨by decide +kernel, read, hread, hdecodes read hread⟩

end Token

end ExprLang
