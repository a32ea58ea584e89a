import ExprLang.Proofs.Spelling
import ExprLang.Text.Quoted

/-! # Quoted text is read in one way

A quoted text says which characters it stands for and where it stops, whatever is behind it
(`quote_append_inj`).  The reason is that a character that stands for itself is neither a delimiter
nor a backslash, so that the first two characters of an escape tell what kind of escape it is
(`Escape`). -/

namespace ExprLang

/-- A run of a class of characters stops where the class does. -/
theorem run_append_inj {p : Char → Prop} {run run' u v : List Char} (hrun : ∀ c ∈ run, p c)
    (hrun' : ∀ c ∈ run', p c) (hu : Ends p u) (hv : Ends p v) (h : run ++ u = run' ++ v) :
    run = run' ∧ u = v := by
  induction run generalizing run' with
  | nil =>
      cases run' with
      | nil => exact ⟨rfl, h⟩
      | cons c run' =>
          have hc : c ∈ u.head? := by
            rw [List.nil_append] at h
            rw [h]
            exact rfl
          exact absurd (hrun' c List.mem_cons_self) (hu c hc)
  | cons c run ih =>
      cases run' with
      | nil =>
          have hc : c ∈ v.head? := by
            rw [List.nil_append] at h
            rw [← h]
            exact rfl
          exact absurd (hrun c List.mem_cons_self) (hv c hc)
      | cons c' run' =>
          obtain ⟨rfl, htail⟩ := List.cons.inj h
          obtain ⟨-, hrun⟩ := List.forall_mem_cons.mp hrun
          obtain ⟨-, hrun'⟩ := List.forall_mem_cons.mp hrun'
          obtain ⟨rfl, rfl⟩ := ih hrun hrun' htail
          exact ⟨rfl, rfl⟩

/-! ### Digits in base sixteen -/

theorem digitChar_inj {k l : ℕ} (hk : k < 16) (hl : l < 16) (h : k.digitChar = l.digitChar) :
    k = l := by
  have hdigits : ∀ k < 16, ∀ l < 16, Nat.digitChar k = Nat.digitChar l → k = l := by decide
  exact hdigits k hk l hl h

theorem toDigits_inj {m n : ℕ} (h : Nat.toDigits 16 m = Nat.toDigits 16 n) : m = n := by
  induction m using Nat.strong_induction_on generalizing n with
  | _ m ih =>
    rw [Nat.toDigits_eq_if (n := m) (by omega), Nat.toDigits_eq_if (n := n) (by omega)] at h
    have hm : m % 16 < 16 := Nat.mod_lt m (by omega)
    have hn : n % 16 < 16 := Nat.mod_lt n (by omega)
    by_cases hsmall : m < 16 <;> by_cases hsmall' : n < 16
    · rw [if_pos hsmall, if_pos hsmall'] at h
      exact digitChar_inj hsmall hsmall' (List.cons.inj h).1
    · rw [if_pos hsmall, if_neg hsmall'] at h
      obtain ⟨hinit, -⟩ : [] = Nat.toDigits 16 (n / 16) ∧ _ := List.append_inj' h rfl
      exact absurd hinit.symm Nat.toDigits_ne_nil
    · rw [if_neg hsmall, if_pos hsmall'] at h
      obtain ⟨hinit, -⟩ : Nat.toDigits 16 (m / 16) = [] ∧ _ := List.append_inj' h rfl
      exact absurd hinit Nat.toDigits_ne_nil
    · rw [if_neg hsmall, if_neg hsmall'] at h
      obtain ⟨hinit, hlast⟩ := List.append_inj' h rfl
      have hdiv : m / 16 = n / 16 := ih (m / 16) (by omega) hinit
      have hmod : m % 16 = n % 16 := digitChar_inj hm hn (List.cons.inj hlast).1
      omega

theorem ne_brace_of_mem_toDigits {n : ℕ} {c : Char} (h : c ∈ Nat.toDigits 16 n) : c ≠ '\x7d' := by
  induction n using Nat.strong_induction_on with
  | _ n ih =>
    rw [Nat.toDigits_eq_if (by omega)] at h
    split at h
    · rw [List.mem_singleton.mp h]
      exact Nat.digitChar_ne _ rfl
    · rcases List.mem_append.mp h with h | h
      · exact ih (n / 16) (by omega) h
      · rw [List.mem_singleton.mp h]
        exact Nat.digitChar_ne _ rfl

/-! ### Escapes -/

/-- The characters with an escape of their own, and what stands behind its backslash. -/
def shortEscapes : List (Char × Char) :=
  [('\\', '\\'), ('\n', 'n'), ('\r', 'r'), ('\t', 't'), ('\x00', '0'), ('"', '"')]

/-- The ways to write a character between double quotes. -/
inductive Escape : Char → List Char → Prop
  | itself {c} : c ≠ '\\' → c ≠ '"' → Escape c [c]
  | short {c l} : (c, l) ∈ shortEscapes → Escape c ['\\', l]
  | point {c} : Escape c ('\\' :: 'u' :: '\x7b' :: (Nat.toDigits 16 c.toNat ++ ['\x7d']))

theorem escape_escape (c : Char) : Escape c (escape '"' c) := by
  unfold escape
  split
  · exact .short (by decide)
  · exact .short (by decide)
  · exact .short (by decide)
  · exact .short (by decide)
  · exact .short (by decide)
  · next hbackslash _ _ _ _ =>
    split
    · next hquote =>
      subst hquote
      exact .short (by decide)
    · next hquote =>
      split
      · exact .itself hbackslash hquote
      · exact .point

namespace Escape

variable {c c' : Char} {text text' u v : List Char}

theorem head_ne_quote (h : Escape c text) : ∃ d ds, text = d :: ds ∧ d ≠ '"' := by
  cases h with
  | itself _ hquote => exact ⟨c, [], rfl, hquote⟩
  | short => exact ⟨'\\', _, rfl, by decide⟩
  | point => exact ⟨'\\', _, rfl, by decide⟩

theorem short_inj {l : Char} (h : (c, l) ∈ shortEscapes) (h' : (c', l) ∈ shortEscapes) :
    c = c' := by
  have htable : ∀ p ∈ shortEscapes, ∀ q ∈ shortEscapes, p.2 = q.2 → p.1 = q.1 := by decide
  exact htable _ h _ h' rfl

theorem not_short_u (h : (c, 'u') ∈ shortEscapes) : False := by
  have htable : ∀ p ∈ shortEscapes, p.2 ≠ 'u' := by decide
  exact htable _ h rfl

/-- An escape says which character it is of and where it stops. -/
theorem append_inj (h : Escape c text) (h' : Escape c' text') (heq : text ++ u = text' ++ v) :
    c = c' ∧ u = v := by
  cases h with
  | itself hbackslash =>
      cases h' with
      | itself => exact List.cons.inj heq
      | short => exact absurd (List.cons.inj heq).1 hbackslash
      | point => exact absurd (List.cons.inj heq).1 hbackslash
  | short hshort =>
      cases h' with
      | itself hbackslash => exact absurd (List.cons.inj heq).1.symm hbackslash
      | short hshort' =>
          obtain ⟨-, htail⟩ := List.cons.inj heq
          obtain ⟨rfl, hrest⟩ := List.cons.inj htail
          exact ⟨short_inj hshort hshort', hrest⟩
      | point =>
          obtain ⟨-, htail⟩ := List.cons.inj heq
          obtain ⟨rfl, -⟩ := List.cons.inj htail
          exact (not_short_u hshort).elim
  | point =>
      cases h' with
      | itself hbackslash => exact absurd (List.cons.inj heq).1.symm hbackslash
      | short hshort' =>
          obtain ⟨-, htail⟩ := List.cons.inj heq
          obtain ⟨rfl, -⟩ := List.cons.inj htail
          exact (not_short_u hshort').elim
      | point =>
          simp only [List.cons_append, List.append_assoc, List.nil_append, List.cons.injEq,
            true_and] at heq
          have hends : ∀ rest, Ends (· ≠ '\x7d') ('\x7d' :: rest) := fun rest =>
            ends_cons (by simp) rest
          obtain ⟨hdigits, hrest⟩ := run_append_inj (fun _ => ne_brace_of_mem_toDigits)
            (fun _ => ne_brace_of_mem_toDigits) (hends _) (hends _) heq
          exact ⟨Char.ext (UInt32.toNat_inj.mp (toDigits_inj hdigits)), (List.cons.inj hrest).2⟩

end Escape

/-- **A quoted text says what it stands for and where it stops.** -/
theorem quote_append_inj {cs cs' u v : List Char} (h : quote '"' cs ++ u = quote '"' cs' ++ v) :
    cs = cs' ∧ u = v := by
  unfold quote at h
  simp only [List.cons_append, List.append_assoc, List.nil_append, List.cons.injEq,
    true_and] at h
  induction cs generalizing cs' with
  | nil =>
      cases cs' with
      | nil => exact ⟨rfl, (List.cons.inj h).2⟩
      | cons c' cs' =>
          obtain ⟨d, ds, hd, hne⟩ := (escape_escape c').head_ne_quote
          rw [List.flatMap_cons, hd] at h
          exact absurd (List.cons.inj h).1.symm hne
  | cons c cs ih =>
      cases cs' with
      | nil =>
          obtain ⟨d, ds, hd, hne⟩ := (escape_escape c).head_ne_quote
          rw [List.flatMap_cons, hd] at h
          exact absurd (List.cons.inj h).1 hne
      | cons c' cs' =>
          rw [List.flatMap_cons, List.flatMap_cons, List.append_assoc, List.append_assoc] at h
          obtain ⟨rfl, htail⟩ := (escape_escape c).append_inj (escape_escape c') h
          obtain ⟨rfl, rfl⟩ := ih htail
          exact ⟨rfl, rfl⟩

end ExprLang
