import ExprLang.Proofs.Printing

/-! # Printing and parsing

A program that is printed is read back as it was, and nothing is ever read that could not have been
printed, save that a numeral too large for any number denotes infinity (`Expr.ofSource_print`).

For the second part `Token.Legal` says what the tokens of a source are like (`Spelled.legal`), and
every phrase of legal tokens stands for a legal tree (`Phrase.Items.legal`). -/

namespace ExprLang

/-- The token is one that a source can hold, its number being in the given class. -/
def Token.Legal (literal : Number → Prop) : Token → Prop
  | .number x => literal x
  | .variable x => IsName x
  | _ => True

/-- A number without a minus sign, or infinity. -/
def Number.IsLiteral (x : Number) : Prop := (∃ m, x = .finite false m) ∨ x = .infinite false

/-! ### The tokens of a source -/

theorem Number.isLiteral_ofDecimal (d : Decimal) : (ofDecimal false d).IsLiteral := by
  unfold ofDecimal
  split
  · exact .inl ⟨_, rfl⟩
  · exact .inr rfl

theorem Spelled.legal {t : Token} {text rest : List Char} (h : Spelled t text rest) :
    t.Legal Number.IsLiteral := by
  cases h with
  | @name c run _ hc hrun hkeyword =>
      refine ⟨c, run, String.toList_ofList, hc, hrun, fun k hk => hkeyword k ?_⟩
      rw [hk, String.toList_ofList]
  | @number _ d x _ hnumeral hx =>
      rw [hnumeral.ofText?] at hx
      cases hx
      exact Number.isLiteral_ofDecimal d
  | _ => trivial

theorem Cut.legal {cs w rest : List Char} {pieces : List Piece} (h : Cut cs pieces w rest) :
    ∀ p ∈ pieces, p.token.Legal Number.IsLiteral := by
  induction h with
  | ending => nofun
  | piece _ ht _ ih => exact List.forall_mem_cons.mpr ⟨ht.legal, ih⟩

theorem Lexed.legal (source : String) :
    ∀ t ∈ (ofSource source).tokens, t.Legal Number.IsLiteral := by
  obtain ⟨pieces, w, rest, hcut⟩ := exists_cut source.toList
  rw [(of_cut hcut).1]
  intro t ht
  obtain ⟨p, hp, rfl⟩ := List.mem_map.mp ht
  exact hcut.legal p hp

/-! ### The trees of phrases -/

section legal

variable {literal : Number → Prop}

theorem OperatorTree.legal_toExpr {t : OperatorTree} (hfirst : t.first.Legal literal)
    (hlinks : ∀ l ∈ t.links, l.2.Legal literal) : t.toExpr.Legal literal := by
  induction t with
  | operand e => exact hfirst
  | node op left right ihl ihr =>
      rw [links, List.forall_mem_append, List.forall_mem_cons] at hlinks
      obtain ⟨hleft, hright, hrest⟩ := hlinks
      have hl := ihl hfirst hleft
      have hr := ihr hright hrest
      cases op with
      | assign => exact .assignment hl hr
      | binary op => exact .binary hl hr

theorem Expr.legal_blockOf {es : List Expr} (h : ∀ e ∈ es, e.Legal literal) :
    (Grammar.blockOf es).Legal literal := by
  match es with
  | [] => exact .boolean
  | [e] => exact h e List.mem_cons_self
  | _ :: _ :: _ => exact .program (by simp) h

namespace Phrase

variable {k : Bool}

theorem Parameters.legal {ts ps r} (h : Parameters ts ps r)
    (hts : ∀ t ∈ ts, t.Legal literal) : (∀ p ∈ ps, IsName p) ∧ ∀ t ∈ r, t.Legal literal := by
  induction h with
  | empty => exact ⟨nofun, hts⟩
  | last =>
      obtain ⟨hx, hr⟩ := List.forall_mem_cons.mp hts
      exact ⟨List.forall_mem_singleton.mpr hx, hr⟩
  | more _ ih =>
      obtain ⟨hx, hr⟩ := List.forall_mem_cons.mp hts
      obtain ⟨hxs, hr⟩ := ih (List.forall_mem_cons.mp hr).2
      exact ⟨List.forall_mem_cons.mpr ⟨hx, hxs⟩, hr⟩

mutual

/-- The tree of a phrase is legal if the tokens are, and so are the tokens behind it. -/
theorem Expression.legal {ts e r} (hts : ∀ t ∈ ts, t.Legal literal) :
    Expression k ts e r → e.Legal literal ∧ ∀ t ∈ r, t.Legal literal
  | .chain a l hfirst _ _ => by
      obtain ⟨ha, hr⟩ := a.legal hts
      obtain ⟨hl, hs⟩ := l.legal hr
      exact ⟨OperatorTree.legal_toExpr (hfirst ▸ ha) hl, hs⟩

theorem Links.legal {ts l r} (hts : ∀ t ∈ ts, t.Legal literal) :
    Links k ts l r → (∀ x ∈ l, x.2.Legal literal) ∧ ∀ t ∈ r, t.Legal literal
  | .stop => ⟨nofun, hts⟩
  | .link a l => by
      obtain ⟨ha, hr⟩ := a.legal (List.forall_mem_cons.mp hts).2
      obtain ⟨hl, hs⟩ := l.legal hr
      exact ⟨List.forall_mem_cons.mpr ⟨ha, hl⟩, hs⟩

theorem Operand.legal {ts e r} (hts : ∀ t ∈ ts, t.Legal literal) :
    Operand k ts e r → e.Legal literal ∧ ∀ t ∈ r, t.Legal literal
  | .called a c => by
      obtain ⟨ha, hr⟩ := a.legal hts
      exact c.legal ha hr

theorem Calls.legal {f ts e r} (hf : f.Legal literal) (hts : ∀ t ∈ ts, t.Legal literal) :
    Calls k f ts e r → e.Legal literal ∧ ∀ t ∈ r, t.Legal literal
  | .stop => ⟨hf, hts⟩
  | .call es c => by
      obtain ⟨hes, hr⟩ := es.legal (List.forall_mem_cons.mp hts).2
      exact c.legal (.call hf hes) (List.forall_mem_cons.mp hr).2

theorem Bare.legal {ts e r} (hts : ∀ t ∈ ts, t.Legal literal) :
    Bare k ts e r → e.Legal literal ∧ ∀ t ∈ r, t.Legal literal
  | .variable => (List.forall_mem_cons.mp hts).imp_left .name
  | .number => (List.forall_mem_cons.mp hts).imp_left .number
  | .string => ⟨.string, (List.forall_mem_cons.mp hts).2⟩
  | .trueWord => ⟨.boolean, (List.forall_mem_cons.mp hts).2⟩
  | .falseWord => ⟨.boolean, (List.forall_mem_cons.mp hts).2⟩
  | .parenthesized e => by
      obtain ⟨he, hr⟩ := e.legal (List.forall_mem_cons.mp hts).2
      exact ⟨he, (List.forall_mem_cons.mp hr).2⟩
  | .block es => by
      obtain ⟨hes, hr⟩ := es.legal (List.forall_mem_cons.mp hts).2
      exact ⟨Expr.legal_blockOf hes, (List.forall_mem_cons.mp hr).2⟩
  | .condition e b a => by
      obtain ⟨htest, hr⟩ := e.legal (List.forall_mem_cons.mp hts).2
      obtain ⟨hconsequent, hs⟩ := b.legal hr
      obtain ⟨halternative, hu⟩ := a.legal hs
      exact ⟨.condition htest hconsequent halternative, hu⟩
  | .lambda ps e => by
      have hts := (List.forall_mem_cons.mp (List.forall_mem_cons.mp hts).2).2
      obtain ⟨hps, hr⟩ := ps.legal hts
      obtain ⟨hbody, hs⟩ := e.legal (List.forall_mem_cons.mp hr).2
      exact ⟨.lambda hps hbody, hs⟩

theorem Branch.legal {ts e r} (hts : ∀ t ∈ ts, t.Legal literal) :
    Branch k ts e r → e.Legal literal ∧ ∀ t ∈ r, t.Legal literal
  | .worded e => e.legal (List.forall_mem_cons.mp hts).2
  | .braced e => e.legal hts

theorem Alternative.legal {ts a r} (hts : ∀ t ∈ ts, t.Legal literal) :
    Alternative k ts a r → (∀ e ∈ a, e.Legal literal) ∧ ∀ t ∈ r, t.Legal literal
  | .absent _ => ⟨nofun, hts⟩
  | .present e => by
      obtain ⟨he, hr⟩ := e.legal (List.forall_mem_cons.mp hts).2
      exact ⟨by rintro _ ⟨⟩; exact he, hr⟩

theorem Items.legal {separator ts es r} (hts : ∀ t ∈ ts, t.Legal literal) :
    Items k separator ts es r → (∀ e ∈ es, e.Legal literal) ∧ ∀ t ∈ r, t.Legal literal
  | .empty => ⟨nofun, hts⟩
  | .last e => by
      obtain ⟨he, hr⟩ := e.legal hts
      exact ⟨List.forall_mem_singleton.mpr he, hr⟩
  | .more e es => by
      obtain ⟨he, hr⟩ := e.legal hts
      obtain ⟨hes, hs⟩ := es.legal (List.forall_mem_cons.mp hr).2
      exact ⟨List.forall_mem_cons.mpr ⟨he, hes⟩, hs⟩

end

end Phrase

end legal

/-! ### The round trip -/

/-- **Parsing undoes printing, and reads nothing else.**  The source that well-formed expressions
are printed as, with semicolons between them, holds the program of these expressions.  Conversely
every source that holds a program holds one of well-formed expressions, except that a numeral
beyond all magnitudes is infinity. -/
theorem Expr.ofSource_print :
    (∀ es : List Expr, (∀ e ∈ es, e.WellFormed) →
      Expr.ofSource (String.ofList (printProgram es)) = .ok (.program es)) ∧
    ∀ source e, Expr.ofSource source = .ok e →
      ∃ es, e = .program es ∧ ∀ e ∈ es, e.Legal Number.IsLiteral := by
  constructor
  · intro es hes
    exact ofSource_printProgram hes
  · intro source e he
    obtain ⟨-, es, hitems, rfl⟩ := ofSource_eq_ok.mp he
    have hlegal := hitems.legal (Lexed.legal source)
    exact ⟨es, rfl, hlegal.1⟩

/-- A string that is a quote, and a block. -/
theorem Expr.ofSource_print_quote :
    let es : List Expr := [.assignment (.variable "q") (.string "\""),
      .program [.variable "q", .number .zero]]
    Expr.ofSource "(q = \"\\\"\");\x7bq; 0\x7d" = .ok (.program es) ∧
      ∃ es', Expr.program es = .program es' ∧ ∀ e ∈ es', e.Legal Number.IsLiteral := by
  intro es
  have hname : IsName "q" := by
    refine ⟨'q', [], rfl, isWordStart_iff.mp rfl, nofun, fun k => ?_⟩
    cases k <;> decide
  have hes : ∀ e ∈ es, e.WellFormed := by
    refine List.forall_mem_cons.mpr ⟨.assignment (.name hname) .string, ?_⟩
    refine List.forall_mem_singleton.mpr (.program (by decide) ?_)
    exact List.forall_mem_cons.mpr
      ⟨.name hname, List.forall_mem_singleton.mpr (.number ⟨.zero, rfl⟩)⟩
  have hsource := Expr.ofSource_print.1 es hes
  exact ⟨hsource, Expr.ofSource_print.2 _ _ hsource⟩

end ExprLang
