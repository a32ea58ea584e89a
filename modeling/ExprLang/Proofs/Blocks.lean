import ExprLang.Proofs.Concatenation
import ExprLang.Proofs.Progress

/-! # Blocks and programs

What stands between the braces of a block is what a program may be, and the block is the program, up
to what becomes of no expression and of a single one (`Expr.block_iff_program`).

The two are read by different loops.  Both read the items of one list, which end with the source or
with the brace; the brace goes on with no construct, so the items before it are the same. -/

namespace ExprLang

/-! ### The text -/

/-- The source ends inside a string that is not closed. -/
def EndsInString (source : String) : Prop :=
  ∃ pieces p w, Cut source.toList (pieces ++ [p]) w [] ∧ Unterminated p.text

/-- A string needs a quote. -/
theorem not_endsInString {source : String} (h : '"' ∉ source.toList) : ¬EndsInString source := by
  rintro ⟨pieces, p, w, hcut, inside, htext, -⟩
  have hmem : '"' ∈ p.chars := by
    unfold Piece.chars
    rw [htext]
    simp
  apply h
  rw [← hcut.append_eq]
  simp [hmem]

/-- The text of a block with the given body. -/
def braced (body : String) : String := "\x7b" ++ body ++ "\n\x7d"

theorem toList_braced (body : String) :
    (braced body).toList = '\x7b' :: (body.toList ++ ['\n', '\x7d']) := by
  simp [braced]

theorem cutInto_brace : CutInto ['\x7d'] [.punctuation '\x7d'] := CutInto.nil.mark rfl

theorem spelled_brace (rest : List Char) : Spelled (.punctuation '\x7b') ['\x7b'] rest :=
  .punctuation (by decide)

theorem Lexed.fault_of_cut {source : String} {w rest : List Char} {pieces : List Piece}
    (h : Cut source.toList pieces w rest) :
    (ofSource source).fault = rest.head?.map .unexpected := by
  rw [ofSource_of_cut h]

/-- Behind a fault the text can go on in any way, and nothing before the fault changes. -/
theorem Cut.append_fault {text w cs : List Char} {pieces : List Piece} {x : Char}
    (h : Cut text pieces w (x :: cs)) (more : List Char) :
    Cut (text ++ more) pieces w (x :: (cs ++ more)) := by
  rw [← List.append_nil pieces] at h
  obtain ⟨tail, htext, htail, hgraft⟩ := h.graft
  cases htail with
  | ending hw hends =>
      have hlayout : Layout w (x :: (cs ++ more)) := hw.of_ne_nil (List.cons_ne_nil _ _) _
      have hfault : Cut (w ++ x :: (cs ++ more)) [] w (x :: (cs ++ more)) :=
        .ending hlayout (ends_cons (hends x rfl) _)
      have hjoined := hgraft hfault (fun c hc => .inl ?_) (by simp)
      · rw [List.append_nil] at hjoined
        rw [htext]
        simpa using hjoined
      · cases w with
        | nil => exact hc
        | cons => exact hc

/-- The braces are tokens of their own, and a fault of the body is one of the block. -/
theorem Lexed.ofSource_braced {body : String} (h : ¬EndsInString body) :
    (ofSource (braced body)).fault = (ofSource body).fault ∧
      ((ofSource body).fault = none → (ofSource (braced body)).tokens =
        .punctuation '\x7b' :: ((ofSource body).tokens ++ [.punctuation '\x7d'])) := by
  obtain ⟨pieces, w, rest, hcut⟩ := exists_cut body.toList
  have hbody := fault_of_cut hcut
  cases rest with
  | nil =>
      have hlast : ∀ p ∈ pieces.getLast?, ¬Unterminated p.text := by
        intro p hp hp'
        obtain ⟨front, rfl⟩ := List.getLast?_eq_some_iff.mp hp
        exact h ⟨front, p, w, hcut, hp'⟩
      obtain ⟨pieces', w', hcut', htokens⟩ := hcut.behind hlast cutInto_brace
      have hbraced := (spelled_brace _).cut .empty hcut'
      rw [List.singleton_append, List.nil_append, ← toList_braced] at hbraced
      rw [hbody, (of_cut hcut).1, (of_cut hbraced).1, fault_of_cut hbraced]
      refine ⟨rfl, fun _ => ?_⟩
      rw [List.map_cons, htokens]
  | cons x cs =>
      have hbraced := (spelled_brace _).cut .empty (hcut.append_fault ['\n', '\x7d'])
      rw [List.singleton_append, List.nil_append, ← toList_braced] at hbraced
      rw [hbody, fault_of_cut hbraced]
      exact ⟨rfl, nofun⟩

/-! ### The tokens -/

namespace Phrase

/-- What stands before the mark that stops the items of a program is a program. -/
theorem Items.exists_program {c : Char} :
    ∀ {ts es}, Items true ';' ts es [.punctuation c] → ∃ us, ts = us ++ [.punctuation c] ∧
      ∃ fs, Items false ';' us fs []
  | _, _, .empty => ⟨[], rfl, [], .empty⟩
  | ts, _, .last he => by
      have hread : Reader.of Grammar.expression none ts = _ := he.read (by simp)
      obtain ⟨us, ⟨f, hf⟩, hts, -⟩ := (promptly none ts).expression.ok hread
      exact ⟨us, hts, [f], .last hf⟩
  | ts, _, .more he hes => by
      have hread : Reader.of Grammar.expression none ts = _ := he.read (by simp)
      obtain ⟨us, ⟨f, hf⟩, hts, -⟩ := (promptly none ts).expression.ok hread
      obtain ⟨vs, rfl, fs, hfs⟩ := hes.exists_program
      refine ⟨us ++ .punctuation ';' :: vs, ?_, f :: fs, ?_⟩
      · rw [hts, List.append_assoc, List.cons_append]
      · exact .more (hf.frame (.punctuation ';' :: vs) (by simp)) hfs

/-- A block is read exactly if its body is a program. -/
theorem block_eq_ok_iff {ts : List Token} {e : Expr} :
    (Grammar.block none (.punctuation '\x7b' :: (ts ++ [.punctuation '\x7d']))).toExcept =
      .ok (e, []) ↔ ∃ es, Items true ';' ts es [] ∧ e = Grammar.blockOf es := by
  have hread : ∀ {es}, Items true ';' ts es [] →
      (Grammar.block none (.punctuation '\x7b' :: (ts ++ [.punctuation '\x7d']))).toExcept =
        .ok (Grammar.blockOf es, []) := by
    intro es hes
    have hframe := hes.frame [.punctuation '\x7d'] fun _ _ => closed_punctuation (by decide) []
    rw [Grammar.toExcept_block, delimited_eq_listed, mark_self]
    simp only [Except.bind]
    rw [hframe.read rfl (by decide) (by decide)]
    rfl
  constructor
  · intro h
    have hblock := h
    rw [Grammar.toExcept_block, delimited_eq_listed, mark_self] at h
    obtain ⟨es, r, hlisted, heq⟩ := map_eq_ok_iff.mp h
    obtain ⟨rfl, rfl⟩ := Prod.mk.inj heq
    have hitems := items_of_listed (fun us _ => parsed us) (Nat.lt_succ_self _) hlisted
    obtain ⟨us, hts, fs, hfs⟩ := hitems.exists_program
    obtain rfl := List.append_cancel_right hts
    obtain ⟨es', hes'⟩ := hfs.exists_innermost (by decide) closed_nil
    refine ⟨es', hes', ?_⟩
    rw [hread hes'] at hblock
    exact (Prod.mk.inj (Except.ok.inj hblock)).1.symm
  · rintro ⟨es, hes, rfl⟩
    exact hread hes

end Phrase

/-! ### The parser -/

/-- A lexer that stands where the parser does is at the end exactly if no tokens and no fault are
left. -/
theorem Parser.Follows.isAtEnd_iff {p : Parser} {l : Lexer} (h : p.Follows l) :
    l.isAtEnd.1 = .ok true ↔ p.unread = [] ∧ p.lexed.fault = none := by
  rw [(Lexer.isAtEnd_eq l).1, (Lexer.peek_of_lexemes h).1]
  cases p.unread with
  | cons x ls => simp [front, Except.map]
  | nil => cases p.lexed.fault <;> simp [front, Except.map]

/-- A call has read everything if nothing is left of the tokens and no fault stands behind them. -/
theorem Parser.settle_everything {p : Parser} {α : Type} {L : Language Token}
    {read : Option LexicalFault → (ts : List Token) → Step α ts.length} {a : α}
    (hprompt : Prompt L (.of read) p.lexed.fault p.tokens) :
    ((p.settle (read p.lexed.fault p.tokens)).1 = .ok a ∧
      (p.settle (read p.lexed.fault p.tokens)).2.unread = [] ∧ p.lexed.fault = none) ↔
      p.lexed.fault = none ∧ (read none p.tokens).toExcept = .ok (a, []) := by
  constructor
  · rintro ⟨hok, hunread, hfault⟩
    have hread := tokens_of_ok hprompt hok
    have htokens : (p.settle (read p.lexed.fault p.tokens)).2.tokens = [] :=
      List.map_eq_nil_iff.mpr hunread
    rw [htokens, hfault] at hread
    exact ⟨hfault, hread⟩
  · rintro ⟨hfault, hread⟩
    rw [← hfault] at hread
    have htokens := tokens_settle (p := p) hread List.nil_suffix
    exact ⟨settle_eq_ok_iff.mpr ⟨[], hread⟩, List.map_eq_nil_iff.mp htokens, hfault⟩

/-- The source is a single block: reading one leaves a lexer at the end. -/
def Expr.IsBlock (source : String) (e : Expr) : Prop :=
  ∃ p l, (Parser.ofSource source).block = (.ok e, p) ∧ p.Follows l ∧ l.isAtEnd.1 = .ok true

theorem Expr.isBlock_iff {source : String} {e : Expr} :
    IsBlock source e ↔ (Lexed.ofSource source).fault = none ∧
      (Grammar.block none (Lexed.ofSource source).tokens).toExcept = .ok (e, []) := by
  let lexed := Lexed.ofSource source
  have hprompt := Phrase.prompt_block (fun us _ => Phrase.promptly lexed.fault us)
    (le_refl lexed.tokens.length)
  have hcall : Parser.Call (.ofSource source) _ (Parser.ofSource source).block.2 := .block
  refine Iff.trans ?_ (Parser.settle_everything (p := .ofSource source) hprompt)
  constructor
  · rintro ⟨p, l, hblock, hfollows, hend⟩
    obtain ⟨hunread, hfault⟩ := hfollows.isAtEnd_iff.mp hend
    rw [hblock] at hcall
    rw [hcall.forward.2] at hfault
    refine ⟨congrArg Prod.fst hblock, ?_, hfault⟩
    show (Parser.ofSource source).block.2.unread = []
    rw [hblock]
    exact hunread
  · rintro ⟨hok, hunread, hfault⟩
    obtain ⟨l, hl⟩ := (Parser.Calls.call .start hcall).exists_follows
    refine ⟨_, l, Prod.ext hok rfl, hl, hl.isAtEnd_iff.mpr ⟨hunread, ?_⟩⟩
    rw [hcall.forward.2]
    exact hfault

/-- A source is a block exactly if it is one around a program. -/
theorem Expr.isBlock_braced {body : String} {e : Expr} (h : ¬EndsInString body) :
    IsBlock (braced body) e ↔
      ∃ es, Expr.ofSource body = .ok (.program es) ∧ e = Grammar.blockOf es := by
  obtain ⟨hfault, htokens⟩ := Lexed.ofSource_braced h
  rw [isBlock_iff, hfault]
  constructor
  · rintro ⟨hnone, hblock⟩
    rw [htokens hnone] at hblock
    obtain ⟨es, hes, rfl⟩ := Phrase.block_eq_ok_iff.mp hblock
    refine ⟨es, Expr.ofSource_eq_ok.mpr ⟨?_, es, hes, rfl⟩, rfl⟩
    unfold Lexed.error?
    rw [hnone]
    rfl
  · rintro ⟨es, hprogram, rfl⟩
    obtain ⟨herror, es', hes, heq⟩ := Expr.ofSource_eq_ok.mp hprogram
    cases heq
    have hnone : (Lexed.ofSource body).fault = none := Option.map_eq_none_iff.mp herror
    rw [htokens hnone]
    exact ⟨hnone, Phrase.block_eq_ok_iff.mpr ⟨es, hes, rfl⟩⟩

/-! ### The values -/

/-- The evaluation ends in this way if it may go deep enough. -/
def Expr.EndsAs (s : ScopeId) (e : Expr) (σ : Store) (o : Outcome Value) : Prop :=
  o ≠ .unfinished ∧ ∃ fuel, evaluate fuel s e σ = o

namespace Expr

variable {s : ScopeId} {σ : Store} {o : Outcome Value}

/-- A program of a single expression goes one level deeper. -/
theorem evaluate_program_singleton (fuel : ℕ) (s : ScopeId) (e : Expr) (σ : Store) :
    evaluate (fuel + 1) s (.program [e]) σ = evaluate fuel s e σ := by
  show (evaluate fuel s e σ).bind (fun v τ => .done v τ) = _
  cases evaluate fuel s e σ <;> rfl

theorem endsAs_program_singleton {e : Expr} : EndsAs s (.program [e]) σ o ↔ EndsAs s e σ o := by
  constructor
  · rintro ⟨hne, fuel, hfuel⟩
    cases fuel with
    | zero => exact absurd hfuel.symm hne
    | succ fuel => exact ⟨hne, fuel, by rw [← evaluate_program_singleton, hfuel]⟩
  · rintro ⟨hne, fuel, hfuel⟩
    exact ⟨hne, fuel + 1, by rw [evaluate_program_singleton, hfuel]⟩

/-- An expression whose evaluation ends at once. -/
theorem endsAs_iff_of_succ {e : Expr} {v : Value}
    (h : ∀ fuel, evaluate (fuel + 1) s e σ = .done v σ) : EndsAs s e σ o ↔ o = .done v σ := by
  constructor
  · rintro ⟨hne, fuel, hfuel⟩
    cases fuel with
    | zero => exact absurd hfuel.symm hne
    | succ fuel => rw [← hfuel, h]
  · rintro rfl
    exact ⟨nofun, 1, h 0⟩

theorem endsAs_blockOf {es : List Expr} (hes : es ≠ []) :
    EndsAs s (Grammar.blockOf es) σ o ↔ EndsAs s (.program es) σ o := by
  cases es with
  | nil => exact absurd rfl hes
  | cons e es =>
      cases es with
      | nil => exact endsAs_program_singleton.symm
      | cons e' es => exact Iff.rfl

end Expr

/-- **Blocks and programs agree on their bodies.**  Unless the body ends inside a string, it is a
program exactly if it is a block when there are braces around it.  Of no expression the block is
false, a single expression it is itself, and otherwise it is the program.  Evaluating it in any
scope ends as evaluating the program there does, with the same store, but no expression is false in
a block and undefined in a program. -/
theorem Expr.block_iff_program {body : String} (h : ¬EndsInString body) :
    ((∃ e, ofSource body = .ok e) ↔ ∃ e, IsBlock (braced body) e) ∧
    ∀ es, ofSource body = .ok (.program es) → ∃ block,
      (∀ e, IsBlock (braced body) e ↔ e = block) ∧
      (es = [] → block = .boolean false) ∧ (∀ e, es = [e] → block = e) ∧
      (2 ≤ es.length → block = .program es) ∧
      ∀ s σ o, (es ≠ [] → (block.EndsAs s σ o ↔ (program es).EndsAs s σ o)) ∧
        (es = [] → (block.EndsAs s σ o ↔ o = .done (.boolean false) σ) ∧
          ((program es).EndsAs s σ o ↔ o = .done .undefined σ)) := by
  constructor
  · constructor
    · rintro ⟨e, he⟩
      obtain ⟨-, es, -, rfl⟩ := ofSource_eq_ok.mp he
      exact ⟨_, (isBlock_braced h).mpr ⟨es, he, rfl⟩⟩
    · rintro ⟨e, he⟩
      obtain ⟨es, hes, -⟩ := (isBlock_braced h).mp he
      exact ⟨_, hes⟩
  · intro es hes
    refine ⟨Grammar.blockOf es, fun e => ?_, ?_, ?_, ?_, fun s σ o => ⟨endsAs_blockOf, ?_⟩⟩
    · rw [isBlock_braced h]
      constructor
      · rintro ⟨es', hes', rfl⟩
        rw [hes] at hes'
        cases hes'
        rfl
      · rintro rfl
        exact ⟨es, hes, rfl⟩
    · rintro rfl
      rfl
    · rintro e rfl
      rfl
    · intro hlength
      cases es with
      | nil => simp at hlength
      | cons e es =>
          cases es with
          | nil => simp at hlength
          | cons e' es => rfl
    · rintro rfl
      exact ⟨endsAs_iff_of_succ fun _ => rfl, endsAs_iff_of_succ fun _ => rfl⟩

/-- The body ends in a comment, which would go on without the end of the line. -/
theorem Expr.block_iff_program_comment :
    let body := "x;y#"
    let es : List Expr := [.variable "x", .variable "y"]
    ¬EndsInString body ∧ ofSource body = .ok (.program es) ∧
      (∀ e, IsBlock (braced body) e ↔ e = .program es) ∧
      ∃ block, (∀ e, IsBlock (braced body) e ↔ e = block) ∧
        ∀ s σ o, block.EndsAs s σ o ↔ (program es).EndsAs s σ o := by
  intro body es
  have hbody : ¬EndsInString body := not_endsInString (by decide)
  have hclosed : ¬Phrase.CallAhead [] ∧ ¬Phrase.OperatorAhead [] :=
    ⟨Phrase.closed_nil.1, Phrase.closed_nil.2.1⟩
  have hnamed (x : String) (ts : List Token) :
      Phrase.Operand true (.variable x :: ts) (.variable x) ts := .called .variable .stop
  have hes : ofSource body = .ok (.program es) := by
    have htokens : (Lexed.ofSource body).tokens =
        [.variable "x", .punctuation ';', .variable "y"] := by decide +kernel
    refine ofSource_eq_ok.mpr ⟨by decide +kernel, es, ?_, rfl⟩
    rw [htokens]
    exact .more ((hnamed "x" _).alone (Phrase.mark_not_ahead (c := ';') (by decide) _))
      (.last ((hnamed "y" _).alone hclosed))
  obtain ⟨block, hblock, -, -, hprogram, hends⟩ := (block_iff_program hbody).2 es hes
  obtain rfl := hprogram le_rfl
  exact ⟨hbody, hes, hblock, _, hblock, fun s σ o => (hends s σ o).1 (List.cons_ne_nil _ _)⟩

end ExprLang
