import ExprLang.Eval.Run
import ExprLang.Proofs.EarliestError
import ExprLang.Proofs.Insertion

/-! # Programs one after another

Two programs that run one after another in the same scope do what the program does that has both of
them in it, with a semicolon between the two on a line of its own (`Store.run_append`).

This goes through all stages.  The text is cut into the tokens of both sources and the semicolon
(`Joinable.cutInto`), the tokens are the phrases of both programs one behind the other, because no
construct goes on with a semicolon (`Phrase.Items.append`), and the values and the store of the
first expressions are handed on to the rest (`evaluateLast_append`). -/

namespace ExprLang

/-! ### The text -/

/-- The source ends without an error, its last token is no semicolon, and it is no string that
would go on with what is put behind it. -/
def Joinable (source : String) : Prop :=
  ∃ pieces w, Cut source.toList pieces w [] ∧
    ∀ p ∈ pieces.getLast?, p.token ≠ .punctuation ';' ∧ ¬Unterminated p.text

/-- The end of the line ends layout, also a comment that would go on. -/
theorem Layout.append_newline {w rest : List Char} (h : Layout w rest) (rest' : List Char) :
    Layout (w ++ ['\n']) rest' := by
  induction h with
  | empty => exact .blank (.inr (.inr rfl)) .empty
  | blank hc _ ih => exact .blank hc ih
  | comment hbody _ ih =>
      rw [List.cons_append, List.append_assoc]
      exact .comment hbody ih
  | lastComment hbody => exact .comment hbody .empty

/-- Another text may be put behind a text without an error on a new line, unless it would go on with
a string. -/
theorem Cut.behind {us cs w : List Char} {front : List Piece} {ts : List Token}
    (h : Cut us front w []) (hlast : ∀ p ∈ front.getLast?, ¬Unterminated p.text)
    (hcs : CutInto cs ts) : CutInto (us ++ '\n' :: cs) (front.map (·.token) ++ ts) := by
  rw [← List.append_nil front] at h
  obtain ⟨tail, htext, htail, hgraft⟩ := h.graft
  obtain ⟨rfl, hw⟩ : tail = w ∧ Layout w [] := by
    cases htail with
    | ending hw _ => exact ⟨List.append_nil _, hw⟩
  obtain ⟨back, w', hback, rfl⟩ := CutInto.layout (hw.append_newline cs) hcs
  have hjoined := hgraft hback (by cases tail <;> simp [BeginsLayout, IsBlank])
    fun _ p hp => hlast p hp
  refine ⟨front ++ back, w', ?_, List.map_append⟩
  simpa [htext] using hjoined

/-- Another text may be put behind the source on a new line. -/
theorem Joinable.cutInto {source : String} {cs : List Char} {ts : List Token}
    (h : Joinable source) (hcs : CutInto cs ts) :
    CutInto (source.toList ++ '\n' :: cs) ((Lexed.ofSource source).tokens ++ ts) := by
  obtain ⟨front, w, hcut, hlast⟩ := h
  rw [(Lexed.of_cut hcut).1]
  exact hcut.behind (fun p hp => (hlast p hp).2) hcs

theorem Joinable.getLast?_tokens {source : String} (h : Joinable source) :
    (Lexed.ofSource source).tokens.getLast? ≠ some (.punctuation ';') := by
  obtain ⟨pieces, w, hcut, hlast⟩ := h
  rw [(Lexed.of_cut hcut).1, List.getLast?_map]
  intro hsemicolon
  obtain ⟨p, hp, htoken⟩ := Option.map_eq_some_iff.mp hsemicolon
  exact (hlast p hp).1 htoken

/-- A source without an error is cut into its tokens up to its end. -/
theorem Lexed.cutInto {source : String} (h : (ofSource source).error? = none) :
    CutInto source.toList (ofSource source).tokens := by
  obtain ⟨pieces, w, rest, hcut⟩ := exists_cut source.toList
  obtain ⟨htokens, herror⟩ := of_cut hcut
  obtain rfl := herror.mp h
  exact ⟨pieces, w, hcut, htokens.symm⟩

/-! ### The tokens -/

namespace Phrase

/-- What an expression leaves behind stands at the end of the tokens. -/
theorem Expression.exists_eq_append {ts : List Token} {e : Expr} {r : List Token}
    (h : Expression true ts e r) : ∃ p, ts = p ++ r := by
  have hread : Reader.of Grammar.expression none ts = .ok (e, r) := h.read fun _ => rfl
  obtain ⟨p, -, hts, -⟩ := (promptly none ts).expression.ok hread
  exact ⟨p, hts⟩

/-- Programs one behind the other, with a semicolon between them. -/
theorem Items.append {us : List Token} {fs : List Expr} :
    ∀ {ts es}, Items true ';' ts es [] → Items true ';' us fs [] → es ≠ [] →
      ts.getLast? ≠ some (.punctuation ';') →
      Items true ';' (ts ++ .punctuation ';' :: us) (es ++ fs) []
  | _, _, .empty, _, hne, _ => absurd rfl hne
  | _, _, .last he, h', _, _ =>
      .more (he.frame _ fun _ _ => closed_punctuation (by decide) us) h'
  | _, _, .more (r := r) he hes, h', _, hlast => by
      obtain ⟨p, rfl⟩ := he.exists_eq_append
      have hframe := he.frame (.punctuation ';' :: us) (by simp)
      cases r with
      | nil => exact absurd List.getLast?_concat hlast
      | cons t r =>
          rw [List.getLast?_append_cons, List.getLast?_cons_cons] at hlast
          refine .more hframe (hes.append h' ?_ hlast)
          rintro rfl
          cases hes

end Phrase

/-- The source with a semicolon and the other source behind it holds the expressions of both. -/
theorem Expr.ofSource_append {p q : String} {es fs : List Expr}
    (hp : ofSource p = .ok (.program es)) (hq : ofSource q = .ok (.program fs)) (hne : es ≠ [])
    (hjoin : Joinable p) : ofSource (p ++ "\n;\n" ++ q) = .ok (.program (es ++ fs)) := by
  obtain ⟨-, _, hes, hprogram⟩ := ofSource_eq_ok.mp hp
  cases hprogram
  obtain ⟨herror, _, hfs, hprogram⟩ := ofSource_eq_ok.mp hq
  cases hprogram
  have hline : CutInto ('\n' :: q.toList) (Lexed.ofSource q).tokens :=
    (Lexed.cutInto herror).layout (.blank (.inr (.inr rfl)) .empty)
  have hcut := hjoin.cutInto (hline.mark (c := ';') rfl)
  have htext : (p ++ "\n;\n" ++ q).toList = p.toList ++ '\n' :: ';' :: '\n' :: q.toList := by
    simp
  rw [← htext] at hcut
  obtain ⟨pieces, w, hcut, htokens⟩ := hcut
  obtain ⟨htokens', herror'⟩ := Lexed.of_cut hcut
  refine ofSource_eq_ok.mpr ⟨herror'.mpr rfl, _, ?_, rfl⟩
  rw [htokens', htokens]
  exact hes.append hfs hne hjoin.getLast?_tokens

/-! ### The values -/

theorem evaluateLast_append (evaluate : Expr → Store → Outcome Value) (last : Value)
    (es fs : List Expr) (σ : Store) :
    evaluateLast evaluate last (es ++ fs) σ =
      (evaluateLast evaluate last es σ).bind fun v τ => evaluateLast evaluate v fs τ := by
  induction es generalizing last σ with
  | nil => rfl
  | cons e es ih =>
      rw [List.cons_append, evaluateLast, evaluateLast]
      cases evaluate e σ with
      | done v τ => exact ih v τ
      | failed error τ => rfl
      | unfinished => rfl

/-- The value before the first expression does not matter if there is one. -/
theorem evaluateLast_of_ne_nil {evaluate : Expr → Store → Outcome Value} {es : List Expr}
    (h : es ≠ []) (last last' : Value) (σ : Store) :
    evaluateLast evaluate last es σ = evaluateLast evaluate last' es σ := by
  cases es with
  | nil => exact absurd rfl h
  | cons e es => rfl

theorem evaluate_program_append {es fs : List Expr} (hne : fs ≠ []) (fuel : ℕ) (s : ScopeId)
    (σ : Store) :
    evaluate fuel s (.program (es ++ fs)) σ =
      (evaluate fuel s (.program es) σ).bind fun _ τ => evaluate fuel s (.program fs) τ := by
  cases fuel with
  | zero => rfl
  | succ fuel =>
      simp only [evaluate]
      rw [evaluateLast_append]
      congr 1
      funext v τ
      exact evaluateLast_of_ne_nil hne v .undefined τ

/-! ### Runs -/

/-- **Programs that run one after another are one program.**  Two sources hold at least one
expression each, and the first one can be gone on with.  With a semicolon on a line of its own
between them they hold one program, and running it in a scope has the result and leaves the store
that running the first one and then, in the store that it has left, the second one has and leaves.
If the first one fails, that is all: the error and the store are those of the first one.  The same
holds of the evaluation of the programs at any depth. -/
theorem Store.run_append {p q : String} {es fs : List Expr}
    (hp : Expr.ofSource p = .ok (.program es)) (hes : es ≠ [])
    (hq : Expr.ofSource q = .ok (.program fs)) (hfs : fs ≠ []) (hjoin : Joinable p)
    (σ : Store) (s : ScopeId) :
    (σ.run s (p ++ "\n;\n" ++ q) =
      match σ.run s p with
      | (.ok _, τ) => τ.run s q
      | (.error e, τ) => (.error e, τ)) ∧
    ∃ program, Expr.ofSource (p ++ "\n;\n" ++ q) = .ok program ∧ ∀ fuel,
      evaluate fuel s program σ =
        match evaluate fuel s (.program es) σ with
        | .done _ τ => evaluate fuel s (.program fs) τ
        | .failed e τ => .failed e τ
        | .unfinished => .unfinished := by
  have hprogram := Expr.ofSource_append hp hq hes hjoin
  constructor
  · unfold run
    simp only [hp, hq, hprogram]
    rw [evaluate_program_append hfs]
    cases evaluate depthLimit s (.program es) σ <;> rfl
  · refine ⟨_, hprogram, fun fuel => ?_⟩
    rw [evaluate_program_append hfs]
    cases evaluate fuel s (.program es) σ <;> rfl

/-- The first source ends with a comment that holds a semicolon, and the second one fails at a name
that neither of them binds. -/
theorem Store.run_append_comment :
    let p := "x=true#;"
    let q := "x;y"
    let es : List Expr := [.assignment (.variable "x") (.boolean true)]
    let fs : List Expr := [.variable "x", .variable "y"]
    Expr.ofSource p = .ok (.program es) ∧ es ≠ [] ∧ Expr.ofSource q = .ok (.program fs) ∧ fs ≠ [] ∧
      Joinable p ∧
      (empty.root.2.run 0 (p ++ "\n;\n" ++ q) =
        match empty.root.2.run 0 p with
        | (.ok _, τ) => τ.run 0 q
        | (.error e, τ) => (.error e, τ)) := by
  intro p q es fs
  have hclosed : ¬Phrase.CallAhead [] ∧ ¬Phrase.OperatorAhead [] :=
    ⟨Phrase.closed_nil.1, Phrase.closed_nil.2.1⟩
  have hnamed (x : String) (ts : List Token) :
      Phrase.Operand true (.variable x :: ts) (.variable x) ts := .called .variable .stop
  have hp : Expr.ofSource p = .ok (.program es) := by
    have htokens : (Lexed.ofSource p).tokens =
        [.variable "x", .operator "=", .keyword .trueWord] := by decide +kernel
    refine Expr.ofSource_eq_ok.mpr ⟨by decide +kernel, es, ?_, rfl⟩
    rw [htokens]
    exact .last ((hnamed "x" _).joined .assign (.called .trueWord .stop) hclosed)
  have hq : Expr.ofSource q = .ok (.program fs) := by
    have htokens : (Lexed.ofSource q).tokens =
        [.variable "x", .punctuation ';', .variable "y"] := by decide +kernel
    refine Expr.ofSource_eq_ok.mpr ⟨by decide +kernel, fs, ?_, rfl⟩
    rw [htokens]
    exact .more ((hnamed "x" _).alone (Phrase.mark_not_ahead (c := ';') (by decide) _))
      (.last ((hnamed "y" _).alone hclosed))
  have hlayout : Layout ['#', ';'] [] := .lastComment (by decide : '\n' ∉ [';'])
  have hend : Cut ['#', ';'] [] ['#', ';'] [] := .ending hlayout ends_nil
  have htrue : Spelled (.keyword .trueWord) ['t', 'r', 'u', 'e'] ['#', ';'] :=
    .keyword .trueWord (ends_cons (by decide) _)
  have hassign : Spelled (.operator "=") ['='] ['t', 'r', 'u', 'e', '#', ';'] :=
    .operator (by decide) (List.forall_mem_singleton.mpr (by decide)) (ends_cons (by decide) _)
  have hname : Spelled (.variable "x") ['x'] ['=', 't', 'r', 'u', 'e', '#', ';'] :=
    .name (by decide) nofun (by intro k; cases k <;> decide) (ends_cons (by decide) _)
  have hchars : p.toList = ['x', '=', 't', 'r', 'u', 'e', '#', ';'] := by decide
  have hcut := hname.cut .empty (hassign.cut .empty (htrue.cut .empty hend))
  have hjoin : Joinable p := by
    unfold Joinable
    rw [hchars]
    refine ⟨_, _, hcut, ?_⟩
    rintro _ ⟨⟩
    refine ⟨nofun, ?_⟩
    rintro ⟨_, ⟨⟩, _⟩
  have hes : es ≠ [] := List.cons_ne_nil _ _
  have hfs : fs ≠ [] := List.cons_ne_nil _ _
  exact ⟨hp, hes, hq, hfs, hjoin, (run_append hp hes hq hfs hjoin _ _).1⟩

end ExprLang
