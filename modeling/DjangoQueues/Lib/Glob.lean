import Mathlib.Tactic

/-! Glob patterns in which a question mark stands for one character and a star for any run of them. -/

namespace Glob

def isMatch : List Char → List Char → Bool
  | [], text => text.isEmpty
  | p :: pattern, text =>
    if p = '*' then text.tails.any fun rest => isMatch pattern rest
    else
      match text with
      | [] => false
      | c :: rest => (p = '?' || p = c) && isMatch pattern rest

theorem isMatch_cons {p : Char} (hp : p ≠ '*') (pattern : List Char) (c : Char) (rest : List Char) :
    isMatch (p :: pattern) (c :: rest) = ((p = '?' || p = c) && isMatch pattern rest) := by
  rw [isMatch.eq_def]
  exact if_neg hp

theorem isMatch_nil {p : Char} (hp : p ≠ '*') (pattern : List Char) : isMatch (p :: pattern) [] = false := by
  rw [isMatch.eq_def]
  exact if_neg hp

/-- Text without a star or a question mark stands for itself. -/
theorem isMatch_literal_append {literal : List Char} (h : ∀ c ∈ literal, c ≠ '*' ∧ c ≠ '?')
    (pattern text : List Char) :
    isMatch (literal ++ pattern) text = true ↔ ∃ rest, text = literal ++ rest ∧ isMatch pattern rest = true := by
  induction literal generalizing text with
  | nil => simp
  | cons p literal ih =>
    rw [List.forall_mem_cons] at h
    cases text with
    | nil => simp [isMatch_nil h.1.1]
    | cons c text =>
      rw [List.cons_append, isMatch_cons h.1.1, Bool.and_eq_true, ih h.2, decide_eq_false h.1.2, Bool.false_or,
        decide_eq_true_iff]
      constructor
      · rintro ⟨rfl, rest, rfl, hrest⟩
        exact ⟨rest, rfl, hrest⟩
      · rintro ⟨rest, htext, hrest⟩
        obtain ⟨rfl, rfl⟩ := List.cons.inj htext
        exact ⟨rfl, rest, rfl, hrest⟩

/-- Question marks stand for any text of their number. -/
theorem isMatch_wild_append {n : ℕ} {wild : List Char} (hn : wild.length = n) (pattern text : List Char) :
    isMatch (List.replicate n '?' ++ pattern) (wild ++ text) = isMatch pattern text := by
  induction wild generalizing n with
  | nil =>
    rw [← hn]
    rfl
  | cons c wild ih =>
    rw [← hn, List.length_cons, List.replicate_succ, List.cons_append, List.cons_append, isMatch_cons (by decide)]
    exact (Bool.true_and _).trans (ih rfl)

theorem isMatch_same {c : Char} (hc : c ≠ '*') (pattern text : List Char) :
    isMatch (c :: pattern) (c :: text) = isMatch pattern text := by
  rw [isMatch_cons hc, decide_eq_true (rfl : c = c), Bool.or_true, Bool.true_and]

theorem isMatch_star (text : List Char) : isMatch ['*'] text = true := by
  rw [isMatch.eq_def]
  show (text.tails.any fun rest => isMatch [] rest) = true
  rw [List.any_eq_true]
  exact ⟨[], (List.mem_tails [] text).mpr text.nil_suffix, rfl⟩

/-- Without a star a pattern fixes the length. -/
theorem length_eq_of_isMatch {pattern text : List Char} (hstar : '*' ∉ pattern) (h : isMatch pattern text = true) :
    text.length = pattern.length := by
  induction pattern generalizing text with
  | nil => rw [List.isEmpty_iff.mp h]
  | cons p pattern ih =>
    rw [List.mem_cons, not_or] at hstar
    cases text with
    | nil =>
      rw [isMatch_nil (Ne.symm hstar.1)] at h
      cases h
    | cons c text =>
      rw [isMatch_cons (Ne.symm hstar.1), Bool.and_eq_true] at h
      rw [List.length_cons, List.length_cons, ih hstar.2 h.2]

end Glob
