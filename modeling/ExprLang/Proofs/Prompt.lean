import ExprLang.Parser.Lemmas
import ExprLang.Proofs.Spelling
import Mathlib.Computability.Language
import Mathlib.Order.CompletePartialOrder

/-! # Prompt readers

A function that reads a construct off the front of tokens is prompt for a language if it stops at
the first token that is wrong (`Prompt`).  What it takes is then a word of the language, and it
would take it before any other tokens that begin with the same one.  Where it fails, what stands
before the offending token can be completed to a word of the language, and it would fail again
whatever stood behind that token.

Prompt readers put together are prompt for the languages put together (`Prompt.bind`), so a whole
grammar is prompt if its single tokens are. -/

namespace ExprLang

/-! ### Completing what stands before an error -/

/-- The token has a spelling that can stand before a blank. -/
def Token.HasText (t : Token) : Prop :=
  ∃ text, ∀ more, Spelled t text (' ' :: more)

/-- The tokens can be completed to a word of the language, by tokens that can be written. -/
def Viable (L : Language Token) (p : List Token) : Prop :=
  ∃ x, (∀ t ∈ x, t.HasText) ∧ p ++ x ∈ L

section viable

variable {L M : Language Token} {p q : List Token}

theorem viable_of_mem (h : p ∈ L) : Viable L p := ⟨[], nofun, by rwa [List.append_nil]⟩

theorem Viable.mono (h : Viable L p) (hle : L ≤ M) : Viable M p := by
  obtain ⟨x, hx, hword⟩ := h
  exact ⟨x, hx, hle hword⟩

theorem Viable.mul (h : Viable L p) (hM : Viable M []) : Viable (L * M) p := by
  obtain ⟨x, hx, hL⟩ := h
  obtain ⟨y, hy, hM⟩ := hM
  refine ⟨x ++ y, List.forall_mem_append.mpr ⟨hx, hy⟩, ?_⟩
  rw [← List.append_assoc]
  exact Language.append_mem_mul hL hM

theorem Viable.cons {t : Token} (ht : t.HasText) (h : Viable L []) : Viable ({[t]} * L) [] := by
  obtain ⟨x, hx, hL⟩ := h
  exact ⟨t :: x, List.forall_mem_cons.mpr ⟨ht, hx⟩, [t], rfl, x, hL, rfl⟩

theorem Viable.append (hL : p ∈ L) (h : Viable M q) : Viable (L * M) (p ++ q) := by
  obtain ⟨x, hx, hM⟩ := h
  refine ⟨x, hx, ?_⟩
  rw [List.append_assoc]
  exact Language.append_mem_mul hL hM

end viable

/-! ### The next token -/

/-- There is a next token, and both lists begin with it. -/
def SameNext (s s' : List Token) : Prop := ∃ t q q', s = t :: q ∧ s' = t :: q'

theorem not_sameNext_nil {s : List Token} : ¬SameNext [] s := by
  rintro ⟨_, _, _, hnil, -⟩
  cases hnil

theorem SameNext.append {s s' : List Token} (h : SameNext s s') (p : List Token) :
    SameNext (p ++ s) (p ++ s') := by
  obtain ⟨t, q, q', rfl, rfl⟩ := h
  cases p with
  | nil => exact ⟨t, q, q', rfl, rfl⟩
  | cons t' p => exact ⟨t', _, _, rfl, rfl⟩

/-- The first token stays the same when something with the same next token is put behind what was
taken. -/
theorem SameNext.exists_cons {t : Token} {ts p s s' : List Token} (h : SameNext s s')
    (hsplit : t :: ts = p ++ s) : ∃ q, p ++ s' = t :: q := by
  have happend := h.append p
  rw [← hsplit] at happend
  obtain ⟨t', q, q', hts, hts'⟩ := happend
  cases hts
  exact ⟨q', hts'⟩

/-! ### Faults -/

/-- The fault is one of the given token, or of the end of the source. -/
def SyntaxFault.Blames : SyntaxFault → Option Token → Prop
  | .expecting _ _, _ => True
  | .nonVariable, _ => True
  | .unexpectedToken json, t => json = (t.map Token.json).getD "null"
  | .lexical _, _ => False

/-- The fault is one of the offending token; at the end of the tokens it is the fault that has ended
the source, or one of the end. -/
def ParseFailure.Blames (f : ParseFailure) (ending : Option LexicalFault) : Prop :=
  match f.offending, ending with
  | [], some g => f.fault = .lexical g
  | s, _ => f.fault.Blames s.head?

/-! ### Readers -/

/-- A function that reads a construct, given the fault behind the last token. -/
abbrev Reader (α : Type) : Type :=
  Option LexicalFault → List Token → Except ParseFailure (α × List Token)

namespace Reader

variable {α β : Type}

/-- The reader that takes steps. -/
def of {n : List Token → ℕ}
    (read : Option LexicalFault → (ts : List Token) → Step α (n ts)) : Reader α :=
  fun ending ts => (read ending ts).toExcept

/-- Goes on behind the construct. -/
def bind (R : Reader α) (N : α → Reader β) : Reader β := fun ending ts =>
  (R ending ts).bind fun p => N p.1 ending p.2

/-- The reader with another value. -/
def map (f : α → β) (R : Reader α) : Reader β := fun ending ts =>
  (R ending ts).map fun p => (f p.1, p.2)

end Reader

/-- The reader stops at the first token that no word of the language goes on with. -/
structure Prompt {α : Type} (L : Language Token) (R : Reader α) (ending : Option LexicalFault)
    (ts : List Token) : Prop where
  ok {a s} : R ending ts = .ok (a, s) → ∃ p ∈ L, ts = p ++ s ∧
    ∀ ending' {s'}, SameNext s s' → R ending' (p ++ s') = .ok (a, s')
  error {f} : R ending ts = .error f → f.Blames ending ∧ ∃ p, Viable L p ∧
    ts = p ++ f.offending ∧
    ∀ ending' {s'}, SameNext f.offending s' → ∃ f', R ending' (p ++ s') = .error f'

namespace Prompt

variable {α β : Type} {L M : Language Token} {R R' : Reader α} {N : α → Reader β}
  {ending : Option LexicalFault} {ts : List Token} {t : Token}

theorem of_eq (h : Prompt L R' ending ts) (heq : ∀ e us, R e us = R' e us) :
    Prompt L R ending ts := by
  obtain rfl : R = R' := funext₂ heq
  exact h

theorem mono (h : Prompt L R ending ts) (hle : L ≤ M) : Prompt M R ending ts where
  ok hok := by
    obtain ⟨p, hp, hsplit⟩ := h.ok hok
    exact ⟨p, hle hp, hsplit⟩
  error herror := by
    obtain ⟨hblames, p, hp, hsplit⟩ := h.error herror
    exact ⟨hblames, p, hp.mono hle, hsplit⟩

/-- One reader behind another is prompt for words of one language behind words of the other. -/
theorem bind (hR : Prompt L R ending ts) (hM : Viable M [])
    (hN : ∀ {a s}, R ending ts = .ok (a, s) → Prompt M (N a) ending s) :
    Prompt (L * M) (R.bind N) ending ts where
  ok {b s} hok := by
    unfold Reader.bind at hok
    cases hread : R ending ts with
    | error f => rw [hread] at hok; cases hok
    | ok as =>
        obtain ⟨a, r⟩ := as
        rw [hread] at hok
        obtain ⟨p, hp, rfl, hagain⟩ := hR.ok hread
        obtain ⟨q, hq, rfl, hagain'⟩ := (hN hread).ok hok
        refine ⟨p ++ q, Language.append_mem_mul hp hq, (List.append_assoc _ _ _).symm, ?_⟩
        intro ending' s' hnext
        unfold Reader.bind
        rw [List.append_assoc, hagain ending' (hnext.append q)]
        exact hagain' ending' hnext
  error {f} herror := by
    unfold Reader.bind at herror
    cases hread : R ending ts with
    | error g =>
        rw [hread] at herror
        cases herror
        obtain ⟨hblames, p, hp, hsplit, hagain⟩ := hR.error hread
        refine ⟨hblames, p, hp.mul hM, hsplit, ?_⟩
        intro ending' s' hnext
        obtain ⟨f', hf'⟩ := hagain ending' hnext
        refine ⟨f', ?_⟩
        unfold Reader.bind
        rw [hf']
        rfl
    | ok as =>
        obtain ⟨a, r⟩ := as
        rw [hread] at herror
        obtain ⟨p, hp, rfl, hagain⟩ := hR.ok hread
        obtain ⟨hblames, q, hq, rfl, hagain'⟩ := (hN hread).error herror
        refine ⟨hblames, p ++ q, .append hp hq, (List.append_assoc _ _ _).symm, ?_⟩
        intro ending' s' hnext
        obtain ⟨f', hf'⟩ := hagain' ending' hnext
        refine ⟨f', ?_⟩
        unfold Reader.bind
        rw [List.append_assoc, hagain ending' (hnext.append q)]
        exact hf'

/-- A value that is there already. -/
theorem pure (a : α) : Prompt 1 (fun _ ts => .ok (a, ts)) ending ts where
  ok hok := by
    cases hok
    exact ⟨[], Language.nil_mem_one, rfl, fun _ {_} _ => rfl⟩
  error herror := by cases herror

theorem map (h : Prompt L R ending ts) (g : α → β) : Prompt L (R.map g) ending ts := by
  have hbind : R.map g = R.bind fun a _ ts => .ok (g a, ts) := by
    funext e us
    unfold Reader.map Reader.bind
    cases R e us <;> rfl
  rw [hbind, ← mul_one L]
  exact h.bind (viable_of_mem Language.nil_mem_one) fun _ => .pure _

/-! ### The next token decides -/

/-- Before the next token the reader does what another one does. -/
theorem congr (h : Prompt L R' ending (t :: ts)) (heq : ∀ e q, R e (t :: q) = R' e (t :: q)) :
    Prompt L R ending (t :: ts) where
  ok {a s} hok := by
    rw [heq] at hok
    obtain ⟨p, hp, hsplit, hagain⟩ := h.ok hok
    refine ⟨p, hp, hsplit, ?_⟩
    intro ending' s' hnext
    obtain ⟨q, hq⟩ := hnext.exists_cons hsplit
    rw [hq, heq, ← hq]
    exact hagain ending' hnext
  error {f} herror := by
    rw [heq] at herror
    obtain ⟨hblames, p, hp, hsplit, hagain⟩ := h.error herror
    refine ⟨hblames, p, hp, hsplit, ?_⟩
    intro ending' s' hnext
    obtain ⟨q, hq⟩ := hnext.exists_cons hsplit
    rw [hq, heq, ← hq]
    exact hagain ending' hnext

/-- A greater language needs to have the words that begin with the next token. -/
theorem mono_cons (h : Prompt L R ending (t :: ts)) (hnil : [] ∉ L) (hM : Viable M [])
    (hle : ∀ {w}, t :: w ∈ L → t :: w ∈ M) : Prompt M R ending (t :: ts) where
  ok hok := by
    obtain ⟨p, hp, hsplit, hagain⟩ := h.ok hok
    cases p with
    | nil => exact absurd hp hnil
    | cons t' p =>
        cases hsplit
        exact ⟨t :: p, hle hp, rfl, hagain⟩
  error herror := by
    obtain ⟨hblames, p, ⟨x, hx, hp⟩, hsplit, hagain⟩ := h.error herror
    cases p with
    | nil => exact ⟨hblames, [], hM, hsplit, hagain⟩
    | cons t' p =>
        obtain ⟨rfl, -⟩ := List.cons.inj hsplit
        exact ⟨hblames, t :: p, ⟨x, hx, hle hp⟩, hsplit, hagain⟩

/-- The next token is used up, and another reader goes on. -/
theorem cons (h : Prompt M R' ending ts) (heq : ∀ e q, R e (t :: q) = R' e q) :
    Prompt ({[t]} * M) R ending (t :: ts) where
  ok {a s} hok := by
    rw [heq] at hok
    obtain ⟨p, hp, rfl, hagain⟩ := h.ok hok
    refine ⟨t :: p, Language.append_mem_mul (Set.mem_singleton [t]) hp, rfl, ?_⟩
    intro ending' s' hnext
    rw [List.cons_append, heq]
    exact hagain ending' hnext
  error {f} herror := by
    rw [heq] at herror
    obtain ⟨hblames, p, hp, rfl, hagain⟩ := h.error herror
    refine ⟨hblames, t :: p, .append (Set.mem_singleton [t]) hp, rfl, ?_⟩
    intro ending' s' hnext
    rw [List.cons_append, heq]
    exact hagain ending' hnext

/-- The next token is all that is taken. -/
theorem single {a : α} (heq : ∀ e q, R e (t :: q) = .ok (a, q)) :
    Prompt {[t]} R ending (t :: ts) := by
  rw [← mul_one {[t]}]
  exact (pure a).cons heq

/-- The next token stands behind the construct. -/
theorem stop {a : α} (hL : [] ∈ L) (heq : ∀ e q, R e (t :: q) = .ok (a, t :: q)) :
    Prompt L R ending (t :: ts) where
  ok {b s} hok := by
    rw [heq] at hok
    cases hok
    refine ⟨[], hL, rfl, ?_⟩
    rintro ending' s' ⟨_, q, q', hts, rfl⟩
    cases hts
    exact heq ending' q'
  error herror := by
    rw [heq] at herror
    cases herror

/-- The next token is wrong. -/
theorem wrong (fault : SyntaxFault) (rest : List Token → List Token) (hL : Viable L [])
    (hfault : fault.Blames (some t))
    (heq : ∀ e q, R e (t :: q) = .error ⟨fault, t :: q, rest q⟩) :
    Prompt L R ending (t :: ts) where
  ok hok := by
    rw [heq] at hok
    cases hok
  error {f} herror := by
    rw [heq] at herror
    cases herror
    refine ⟨hfault, [], hL, rfl, ?_⟩
    rintro ending' s' ⟨_, q, q', hts, rfl⟩
    cases hts
    exact ⟨_, heq ending' q'⟩

/-! ### The end of the tokens -/

/-- At the end the reader does what another one does. -/
theorem congr_nil (h : Prompt L R' ending []) (heq : R ending [] = R' ending []) :
    Prompt L R ending [] where
  ok {a s} hok := by
    rw [heq] at hok
    obtain ⟨p, hp, hsplit, -⟩ := h.ok hok
    obtain ⟨rfl, rfl⟩ := List.append_eq_nil_iff.mp hsplit.symm
    exact ⟨[], hp, rfl, fun _ _ hnext => absurd hnext not_sameNext_nil⟩
  error {f} herror := by
    rw [heq] at herror
    obtain ⟨hblames, p, hp, hsplit, -⟩ := h.error herror
    obtain ⟨rfl, hnil⟩ := List.append_eq_nil_iff.mp hsplit.symm
    refine ⟨hblames, [], hp, hsplit, fun _ _ hnext => ?_⟩
    rw [hnil] at hnext
    exact absurd hnext not_sameNext_nil

/-- A token is missing. -/
theorem atEnd (fault : SyntaxFault) (hL : Viable L []) (hfault : fault.Blames none)
    (heq : R ending [] = (Step.atEnd ending fault : Step α 0).toExcept) :
    Prompt L R ending [] where
  ok hok := by
    rw [heq] at hok
    cases hok
  error {f} herror := by
    rw [heq] at herror
    cases herror
    refine ⟨?_, [], hL, rfl, fun _ _ hnext => absurd hnext not_sameNext_nil⟩
    cases ending with
    | none => exact hfault
    | some g => rfl

/-- The construct may end with the source. -/
theorem done {a : α} (hL : [] ∈ L) (heq : R ending [] = (Step.done ending a).toExcept) :
    Prompt L R ending [] where
  ok {b s} hok := by
    rw [heq] at hok
    cases ending with
    | some g => cases hok
    | none =>
        cases hok
        exact ⟨[], hL, rfl, fun _ _ hnext => absurd hnext not_sameNext_nil⟩
  error {f} herror := by
    rw [heq] at herror
    cases ending with
    | none => cases herror
    | some g =>
        cases herror
        exact ⟨rfl, [], viable_of_mem hL, rfl, fun _ _ hnext => absurd hnext not_sameNext_nil⟩

end Prompt

end ExprLang
