import Mathlib
import DjangoQueues.Lib.FormEncoding

/-! URLs split into their five parts and joined again, as `urlsplit` and `urlunsplit` of Python do. What was split is
joined to a URL that is split into the same parts, whatever query it has been given in between. -/

/-- The five parts of a URL. -/
structure SplitUrl where
  scheme : List Char
  netloc : List Char
  path : List Char
  query : List Char
  fragment : List Char
deriving DecidableEq

namespace SplitUrl

open FormEncoding

def isSchemeChar (c : Char) : Bool := c.isAlphanum || c = '+' || c = '-' || c = '.'

def isRemoved (c : Char) : Bool := c = '\t' || c = '\r' || c = '\n'

/-- Leading blanks and control characters go, and tabulators and line ends everywhere. -/
def cleaned (url : List Char) : List Char := (url.dropWhile fun c => c.toNat ≤ 32).filter fun c => !isRemoved c

/-- Whether the text begins with a scheme and its colon. -/
def hasScheme (text : List Char) : Bool :=
  ':' ∈ text && (text.head?.any Char.isAlpha && (text.takeWhile (· ≠ ':')).all isSchemeChar)

def splitScheme (text : List Char) : List Char × List Char :=
  if hasScheme text then ((cutAt ':' text).1.map Char.toLower, (cutAt ':' text).2) else ([], text)

def endsNetloc (c : Char) : Bool := c = '/' || c = '?' || c = '#'

def splitNetloc : List Char → List Char × List Char
  | '/' :: '/' :: rest => (rest.takeWhile fun c => !endsNetloc c, rest.dropWhile fun c => !endsNetloc c)
  | text => ([], text)

/-- The parts, before the authority is checked. -/
def parts (url : List Char) : SplitUrl where
  scheme := (splitScheme (cleaned url)).1
  netloc := (splitNetloc (splitScheme (cleaned url)).2).1
  path := (cutAt '?' (cutAt '#' (splitNetloc (splitScheme (cleaned url)).2).2).1).1
  query := (cutAt '?' (cutAt '#' (splitNetloc (splitScheme (cleaned url)).2).2).1).2
  fragment := (cutAt '#' (splitNetloc (splitScheme (cleaned url)).2).2).2

/-- `urlsplit`; `none` where it raises `ValueError` for an authority. -/
def urlsplit (validNetloc : List Char → Bool) (url : List Char) : Option SplitUrl :=
  if (parts url).netloc = [] ∨ validNetloc (parts url).netloc then some (parts url) else none

theorem parts_of_urlsplit {validNetloc : List Char → Bool} {url : List Char} {p : SplitUrl}
    (h : urlsplit validNetloc url = some p) : p = parts url := by
  unfold urlsplit at h
  split_ifs at h
  exact (Option.some.inj h).symm

theorem netloc_of_urlsplit {validNetloc : List Char → Bool} {url : List Char} {p : SplitUrl}
    (h : urlsplit validNetloc url = some p) : p.netloc = [] ∨ validNetloc p.netloc := by
  have hparts := parts_of_urlsplit h
  unfold urlsplit at h
  split_ifs at h with hvalid
  rwa [hparts]

/-- The query and the fragment, with their marks. -/
def tail (p : SplitUrl) : List Char :=
  (if p.query = [] then [] else '?' :: p.query) ++ (if p.fragment = [] then [] else '#' :: p.fragment)

/-- The authority and the path; `usesNetloc` holds the schemes that are written with an empty authority. -/
def body (usesNetloc : List Char → Bool) (p : SplitUrl) : List Char :=
  if p.netloc ≠ [] then
    '/' :: '/' :: (p.netloc ++ if p.path = [] ∨ p.path.head? = some '/' then p.path else '/' :: p.path)
  else if ['/', '/'] <+: p.path then '/' :: '/' :: p.path
  else if p.scheme ≠ [] ∧ usesNetloc p.scheme ∧ (p.path = [] ∨ p.path.head? = some '/') then '/' :: '/' :: p.path
  else p.path

/-- `urlunsplit`. -/
def urlunsplit (usesNetloc : List Char → Bool) (p : SplitUrl) : List Char :=
  (if p.scheme = [] then [] else p.scheme ++ [':']) ++ (body usesNetloc p ++ tail p)

/-! ## Well-formed parts -/

/-- What the parts of a URL are like. -/
structure WellFormed (p : SplitUrl) : Prop where
  scheme : p.scheme = [] ∨ p.scheme.head?.any Char.isAlpha ∧ ∀ c ∈ p.scheme, isSchemeChar c ∧ c.toLower = c
  netloc : ∀ c ∈ p.netloc, endsNetloc c = false
  path : ∀ c ∈ p.path, c ≠ '?' ∧ c ≠ '#'
  rooted : p.netloc ≠ [] → p.path = [] ∨ p.path.head? = some '/'
  query : '#' ∉ p.query
  kept : ∀ c ∈ p.netloc ++ p.path ++ p.query ++ p.fragment, isRemoved c = false
  first : p.scheme = [] → p.netloc = [] → ∀ c ∈ p.path.head?, 32 < c.toNat
  noScheme : p.scheme = [] → p.netloc = [] → hasScheme p.path = false

/-- Nothing, or text that begins with a mark. -/
def Marked (text : List Char) : Prop := ∀ c ∈ text.head?, c = '?' ∨ c = '#'

theorem head_dropWhile {p : Char → Bool} {text : List Char} : ∀ c ∈ (text.dropWhile p).head?, p c = false := by
  induction text with
  | nil => simp
  | cons c text ih =>
    rw [List.dropWhile_cons]
    split_ifs with hp
    · exact ih
    · simpa using hp

theorem mem_cutAt {sep c : Char} {text : List Char} :
    (c ∈ (cutAt sep text).1 → c ∈ text) ∧ (c ∈ (cutAt sep text).2 → c ∈ text) := by
  constructor
  · intro h
    exact (List.takeWhile_sublist _).subset h
  · intro h
    exact (List.dropWhile_suffix _).subset (List.mem_of_mem_drop h)

theorem not_mem_cutAt (sep : Char) (text : List Char) : sep ∉ (cutAt sep text).1 := by
  intro h
  have := List.mem_takeWhile_imp h
  simp at this

theorem mem_splitNetloc {c : Char} {text : List Char} :
    (c ∈ (splitNetloc text).1 → c ∈ text) ∧ (c ∈ (splitNetloc text).2 → c ∈ text) := by
  unfold splitNetloc
  split
  · constructor
    · intro h
      exact List.mem_cons_of_mem _ (List.mem_cons_of_mem _ ((List.takeWhile_sublist _).subset h))
    · intro h
      exact List.mem_cons_of_mem _ (List.mem_cons_of_mem _ ((List.dropWhile_suffix _).subset h))
  · exact ⟨fun h => absurd h List.not_mem_nil, id⟩

theorem mem_splitScheme {c : Char} {text : List Char} (h : c ∈ (splitScheme text).2) : c ∈ text := by
  unfold splitScheme at h
  split_ifs at h
  · exact mem_cutAt.2 h
  · exact h

/-- The path is what comes before the first mark. -/
theorem path_append (text : List Char) : ∃ tl, text = (cutAt '?' (cutAt '#' text).1).1 ++ tl ∧ Marked tl := by
  refine ⟨(cutAt '#' text).1.dropWhile (· ≠ '?') ++ text.dropWhile (· ≠ '#'), ?_, ?_⟩
  · rw [← List.append_assoc]
    unfold cutAt
    rw [List.takeWhile_append_dropWhile, List.takeWhile_append_dropWhile]
  · intro c hc
    rw [List.head?_append, Option.mem_def, Option.or_eq_some_iff] at hc
    rcases hc with hc | ⟨-, hc⟩
    · exact .inl (by simpa using head_dropWhile c hc)
    · exact .inr (by simpa using head_dropWhile c hc)

/-- A mark is part of no scheme. -/
theorem hasScheme_append {tl : List Char} (h : Marked tl) (text : List Char) :
    hasScheme (text ++ tl) = hasScheme text := by
  cases tl with
  | nil => rw [List.append_nil]
  | cons c tl =>
    have hmark : c ≠ ':' ∧ isSchemeChar c = false ∧ c.isAlpha = false := by
      rcases h c rfl with rfl | rfl <;> decide
    by_cases hcolon : ':' ∈ text
    · obtain ⟨a, b, rfl⟩ := List.append_of_mem hcolon
      have hcut : ∀ rest : List Char, (a ++ ':' :: rest).takeWhile (· ≠ ':') = a.takeWhile (· ≠ ':') := by
        intro rest
        rw [List.takeWhile_append]
        split_ifs with hlen
        · rw [List.takeWhile_cons_of_neg (by simp), List.append_nil]
          exact (List.takeWhile_sublist _).eq_of_length hlen |>.symm
        · rfl
      unfold hasScheme
      rw [List.append_assoc, List.cons_append, hcut, hcut]
      congr 1
      · simp
      · congr 1
        cases a <;> rfl
    · have hall : ((text ++ c :: tl).takeWhile (· ≠ ':')).all isSchemeChar = false := by
        rw [List.takeWhile_append_of_pos (by
          intro x hx
          exact decide_eq_true fun heq => hcolon (heq ▸ hx)), List.takeWhile_cons_of_pos (by simp [hmark.1])]
        simp [hmark.2.1]
      unfold hasScheme
      rw [hall, Bool.and_false, Bool.and_false, decide_eq_false hcolon, Bool.false_and]

theorem hasScheme_of_head {text : List Char} (h : ∀ c ∈ text.head?, c.isAlpha = false) : hasScheme text = false := by
  cases text with
  | nil => rfl
  | cons c text =>
    have hc := h c rfl
    simp [hasScheme, hc]

/-! ### What `urlsplit` gives -/

theorem isAlphanum_lt {c : Char} (h : c.isAlphanum) : c.toNat < 128 := by
  simp only [Char.isAlphanum, Char.isAlpha, Char.isUpper, Char.isLower, Char.isDigit, Bool.or_eq_true,
    Bool.and_eq_true, decide_eq_true_eq, ge_iff_le, UInt32.le_iff_toNat_le] at h
  have htoNat : c.toNat = c.val.toNat := rfl
  rcases h with (⟨-, h⟩ | ⟨-, h⟩) | ⟨-, h⟩ <;> simp at h <;> omega

theorem isSchemeChar_lt {c : Char} (h : isSchemeChar c) : c.toNat < 128 := by
  simp only [isSchemeChar, Bool.or_eq_true, decide_eq_true_eq] at h
  rcases h with ((h | rfl) | rfl) | rfl
  · exact isAlphanum_lt h
  all_goals decide

/-- A scheme is written in lower case. -/
theorem toLower_schemeChar {c : Char} (h : isSchemeChar c) :
    isSchemeChar c.toLower ∧ c.toLower.toLower = c.toLower ∧ c.toLower.isAlpha = c.isAlpha := by
  have hall : ∀ x < 8, ∀ y < 16, isSchemeChar (Char.ofNat (16 * x + y)) →
      isSchemeChar (Char.ofNat (16 * x + y)).toLower ∧
      (Char.ofNat (16 * x + y)).toLower.toLower = (Char.ofNat (16 * x + y)).toLower ∧
      (Char.ofNat (16 * x + y)).toLower.isAlpha = (Char.ofNat (16 * x + y)).isAlpha := by decide +kernel
  have hlt := isSchemeChar_lt h
  have hc := hall (c.toNat / 16) (by omega) (c.toNat % 16) (by omega)
  rw [Nat.div_add_mod, Char.ofNat_toNat] at hc
  exact hc h

theorem cleaned_head (url : List Char) : ∀ c ∈ (cleaned url).head?, 32 < c.toNat := by
  intro c hc
  unfold cleaned at hc
  have hdrop : ∀ d ∈ (url.dropWhile fun c => c.toNat ≤ 32).head?, 32 < d.toNat := by
    intro d hd
    simpa using head_dropWhile d hd
  cases htext : url.dropWhile fun c => c.toNat ≤ 32 with
  | nil =>
    rw [htext] at hc
    cases hc
  | cons d rest =>
    rw [htext] at hc hdrop
    have hd := hdrop d rfl
    have hkeep : isRemoved d = false := by
      by_contra hne
      simp only [isRemoved, Bool.not_eq_false, Bool.or_eq_true, decide_eq_true_eq] at hne
      rcases hne with (rfl | rfl) | rfl <;> revert hd <;> decide
    rw [List.filter_cons_of_pos (by simp [hkeep])] at hc
    rwa [← Option.some.inj hc]

theorem mem_cleaned {url : List Char} {c : Char} (h : c ∈ cleaned url) : isRemoved c = false := by
  simpa using (List.mem_filter.mp h).2

theorem head_takeWhile {p : Char → Bool} {c : Char} {text : List Char} (h : p c) :
    ((c :: text).takeWhile p).head? = some c := by
  rw [List.takeWhile_cons_of_pos h]
  rfl

theorem splitScheme_scheme (text : List Char) :
    (splitScheme text).1 = [] ∨ ((splitScheme text).1.head?.any Char.isAlpha) ∧
      ∀ c ∈ (splitScheme text).1, isSchemeChar c ∧ c.toLower = c := by
  unfold splitScheme
  split_ifs with h
  · right
    simp only [hasScheme, Bool.and_eq_true, List.all_eq_true] at h
    obtain ⟨-, hhead, hall⟩ := h
    constructor
    · cases text with
      | nil => cases hhead
      | cons c text =>
        have halpha : c.isAlpha := by simpa using hhead
        have hne : c ≠ ':' := by
          rintro rfl
          revert halpha
          decide
        have hc : c ∈ (c :: text).takeWhile (· ≠ ':') := by
          rw [List.takeWhile_cons_of_pos (by simp [hne])]
          exact List.mem_cons_self
        rw [cutAt, List.head?_map, head_takeWhile (by simp [hne])]
        simp [(toLower_schemeChar (hall c hc)).2.2, halpha]
    · intro c hc
      obtain ⟨d, hd, rfl⟩ := List.mem_map.mp hc
      have hlower := toLower_schemeChar (hall d hd)
      exact ⟨hlower.1, hlower.2.1⟩
  · exact .inl rfl

theorem splitScheme_none {text : List Char} (h : (splitScheme text).1 = []) :
    hasScheme text = false ∧ (splitScheme text).2 = text := by
  by_cases hscheme : hasScheme text = true
  · exfalso
    rw [splitScheme, if_pos hscheme] at h
    simp only [hasScheme, Bool.and_eq_true] at hscheme
    obtain ⟨-, hhead, -⟩ := hscheme
    cases text with
    | nil => cases hhead
    | cons c text =>
      have hne : c ≠ ':' := by
        rintro rfl
        change Char.isAlpha ':' = true at hhead
        revert hhead
        decide
      rw [cutAt, List.takeWhile_cons_of_pos (by simp [hne])] at h
      cases h
  · rw [splitScheme, if_neg hscheme]
    exact ⟨Bool.eq_false_iff.mpr hscheme, rfl⟩

theorem splitNetloc_netloc (text : List Char) : ∀ c ∈ (splitNetloc text).1, endsNetloc c = false := by
  intro c hc
  unfold splitNetloc at hc
  split at hc
  · simpa using List.mem_takeWhile_imp hc
  · cases hc

/-- An authority goes on to a mark or to the root of the path; without one the text is as it was, or had its empty
authority taken off. -/
theorem splitNetloc_rest (text : List Char) :
    (∀ c ∈ (splitNetloc text).2.head?, endsNetloc c) ∨ splitNetloc text = ([], text) := by
  unfold splitNetloc
  split
  · left
    intro c hc
    simpa using head_dropWhile c hc
  · exact .inr rfl

/-- The path of a text that begins with a mark or a slash does so with the slash. -/
theorem path_head {text : List Char} (h : ∀ c ∈ text.head?, endsNetloc c) :
    (cutAt '?' (cutAt '#' text).1).1 = [] ∨ (cutAt '?' (cutAt '#' text).1).1.head? = some '/' := by
  cases text with
  | nil => exact .inl rfl
  | cons c text =>
    have hc := h c rfl
    simp only [endsNetloc, Bool.or_eq_true, decide_eq_true_eq] at hc
    rcases hc with (rfl | rfl) | rfl
    · right
      simp [cutAt]
    · left
      simp [cutAt]
    · left
      simp [cutAt]

theorem wellFormed_parts (url : List Char) : WellFormed (parts url) := by
  have hkept : ∀ c ∈ (splitScheme (cleaned url)).2, isRemoved c = false := fun c hc => mem_cleaned (mem_splitScheme hc)
  have hrest : ∀ c ∈ (splitNetloc (splitScheme (cleaned url)).2).2, isRemoved c = false :=
    fun c hc => hkept c (mem_splitNetloc.2 hc)
  constructor
  · exact splitScheme_scheme _
  · exact splitNetloc_netloc _
  · intro c hc
    constructor
    · rintro rfl
      exact not_mem_cutAt _ _ hc
    · rintro rfl
      exact not_mem_cutAt _ _ (mem_cutAt.1 hc)
  · intro hnetloc
    rcases splitNetloc_rest (splitScheme (cleaned url)).2 with h | h
    · exact path_head h
    · exact absurd (congrArg Prod.fst h) hnetloc
  · intro hc
    exact not_mem_cutAt _ _ (mem_cutAt.2 hc)
  · intro c hc
    rw [List.mem_append, List.mem_append, List.mem_append] at hc
    rcases hc with ((hc | hc) | hc) | hc
    · exact hkept c (mem_splitNetloc.1 hc)
    · exact hrest c (mem_cutAt.1 (mem_cutAt.1 hc))
    · exact hrest c (mem_cutAt.1 (mem_cutAt.2 hc))
    · exact hrest c (mem_cutAt.2 hc)
  · intro hscheme hnetloc c hc
    rcases splitNetloc_rest (splitScheme (cleaned url)).2 with h | h
    · rcases path_head h with hpath | hpath
      · change c ∈ (cutAt '?' (cutAt '#' (splitNetloc (splitScheme (cleaned url)).2).2).1).1.head? at hc
        rw [hpath] at hc
        cases hc
      · change c ∈ (cutAt '?' (cutAt '#' (splitNetloc (splitScheme (cleaned url)).2).2).1).1.head? at hc
        rw [hpath] at hc
        obtain rfl := Option.some.inj hc
        decide
    · apply cleaned_head url
      change c ∈ (cutAt '?' (cutAt '#' (splitNetloc (splitScheme (cleaned url)).2).2).1).1.head? at hc
      rw [h, (splitScheme_none hscheme).2] at hc
      obtain ⟨tl, htext, -⟩ := path_append (cleaned url)
      rw [htext, List.head?_append, Option.mem_def, Option.or_eq_some_iff]
      exact .inl hc
  · intro hscheme hnetloc
    change hasScheme (cutAt '?' (cutAt '#' (splitNetloc (splitScheme (cleaned url)).2).2).1).1 = false
    rcases splitNetloc_rest (splitScheme (cleaned url)).2 with h | h
    · apply hasScheme_of_head
      intro c hc
      rcases path_head h with hpath | hpath
      · rw [hpath] at hc
        cases hc
      · rw [hpath] at hc
        obtain rfl := Option.some.inj hc
        decide
    · rw [h, (splitScheme_none hscheme).2]
      obtain ⟨tl, htext, hmarked⟩ := path_append (cleaned url)
      rw [← hasScheme_append hmarked, ← htext]
      exact (splitScheme_none hscheme).1

/-! ### What `urlunsplit` writes -/

variable {p : SplitUrl} {usesNetloc : List Char → Bool}

theorem marked_tail (p : SplitUrl) : Marked (tail p) := by
  intro c hc
  unfold tail at hc
  split_ifs at hc
  · cases hc
  · exact .inr (Option.some.inj hc).symm
  · exact .inl (Option.some.inj hc).symm
  · exact .inl (Option.some.inj hc).symm

/-- Before the query there is the authority with its slashes, if it is written, and the path. -/
theorem body_cases (usesNetloc : List Char → Bool) (h : WellFormed p) :
    body usesNetloc p = '/' :: '/' :: (p.netloc ++ p.path) ∧ (p.path = [] ∨ p.path.head? = some '/') ∨
      body usesNetloc p = p.path ∧ p.netloc = [] ∧ ¬['/', '/'] <+: p.path := by
  unfold body
  split_ifs with hnetloc hpath hslashes huses
  · exact .inl ⟨rfl, hpath⟩
  · exact absurd (h.rooted hnetloc) hpath
  · obtain ⟨rest, hrest⟩ := hslashes
    rw [not_not.mp hnetloc, ← hrest]
    exact .inl ⟨rfl, .inr rfl⟩
  · rw [not_not.mp hnetloc]
    exact .inl ⟨rfl, huses.2.2⟩
  · exact .inr ⟨rfl, not_not.mp hnetloc, hslashes⟩

theorem tail_kept (h : WellFormed p) : ∀ c ∈ tail p, isRemoved c = false := by
  intro c hc
  unfold tail at hc
  rw [List.mem_append] at hc
  rcases hc with hc | hc
  · split_ifs at hc
    · cases hc
    · rcases List.mem_cons.mp hc with rfl | hc
      · decide
      · exact h.kept c (by simp [hc])
  · split_ifs at hc
    · cases hc
    · rcases List.mem_cons.mp hc with rfl | hc
      · decide
      · exact h.kept c (by simp [hc])

theorem body_kept (h : WellFormed p) : ∀ c ∈ body usesNetloc p, isRemoved c = false := by
  intro c hc
  rcases body_cases usesNetloc h with ⟨hbody, -⟩ | ⟨hbody, -⟩
  · rw [hbody, List.mem_cons, List.mem_cons, List.mem_append] at hc
    rcases hc with rfl | rfl | hc | hc
    · decide
    · decide
    · exact h.kept c (by simp [hc])
    · exact h.kept c (by simp [hc])
  · rw [hbody] at hc
    exact h.kept c (by simp [hc])

theorem isRemoved_of_isSchemeChar {c : Char} (h : isSchemeChar c) : isRemoved c = false := by
  by_contra hne
  simp only [isRemoved, Bool.not_eq_false, Bool.or_eq_true, decide_eq_true_eq] at hne
  rcases hne with (rfl | rfl) | rfl <;> revert h <;> decide

theorem lt_of_isAlpha {c : Char} (h : c.isAlpha) : 32 < c.toNat := by
  simp only [Char.isAlpha, Char.isUpper, Char.isLower, Bool.or_eq_true, Bool.and_eq_true, decide_eq_true_eq,
    ge_iff_le, UInt32.le_iff_toNat_le] at h
  have htoNat : c.toNat = c.val.toNat := rfl
  rcases h with ⟨h, -⟩ | ⟨h, -⟩ <;> simp at h <;> omega

theorem cleaned_eq_self {text : List Char} (hfirst : ∀ c ∈ text.head?, 32 < c.toNat)
    (hkept : ∀ c ∈ text, isRemoved c = false) : cleaned text = text := by
  have hdrop : (text.dropWhile fun c => c.toNat ≤ 32) = text := by
    cases text with
    | nil => rfl
    | cons c text =>
      have hc := hfirst c rfl
      rw [List.dropWhile_cons_of_neg (by simpa using hc)]
  rw [cleaned, hdrop, List.filter_eq_self]
  intro c hc
  simp [hkept c hc]

theorem head_rest (h : WellFormed p) (hscheme : p.scheme = []) :
    ∀ c ∈ (body usesNetloc p ++ tail p).head?, 32 < c.toNat := by
  intro c hc
  rcases body_cases usesNetloc h with ⟨hbody, -⟩ | ⟨hbody, hnetloc, -⟩
  · rw [hbody] at hc
    obtain rfl := Option.some.inj hc
    decide
  · rw [hbody, List.head?_append, Option.mem_def, Option.or_eq_some_iff] at hc
    rcases hc with hc | ⟨-, hc⟩
    · exact h.first hscheme hnetloc c hc
    · rcases marked_tail p c hc with rfl | rfl <;> decide

theorem cleaned_urlunsplit (h : WellFormed p) : cleaned (urlunsplit usesNetloc p) = urlunsplit usesNetloc p := by
  apply cleaned_eq_self
  · intro c hc
    unfold urlunsplit at hc
    split_ifs at hc with hscheme
    · exact head_rest h hscheme c hc
    · obtain ⟨hhead, -⟩ := h.scheme.resolve_left hscheme
      obtain ⟨d, scheme, hcons⟩ := List.exists_cons_of_ne_nil hscheme
      rw [hcons] at hhead hc
      obtain rfl := Option.some.inj hc
      exact lt_of_isAlpha (by simpa using hhead)
  · intro c hc
    unfold urlunsplit at hc
    rw [List.mem_append, List.mem_append] at hc
    rcases hc with hc | hc | hc
    · split_ifs at hc with hscheme
      · cases hc
      · obtain ⟨-, hall⟩ := h.scheme.resolve_left hscheme
        rcases List.mem_append.mp hc with hc | hc
        · exact isRemoved_of_isSchemeChar (hall c hc).1
        · rw [List.mem_singleton.mp hc]
          decide
    · exact body_kept h c hc
    · exact tail_kept h c hc

theorem splitScheme_urlunsplit (h : WellFormed p) :
    splitScheme (urlunsplit usesNetloc p) = (p.scheme, body usesNetloc p ++ tail p) := by
  by_cases hscheme : p.scheme = []
  · have hnone : hasScheme (body usesNetloc p ++ tail p) = false := by
      rcases body_cases usesNetloc h with ⟨hbody, -⟩ | ⟨hbody, hnetloc, -⟩
      · apply hasScheme_of_head
        intro c hc
        rw [hbody] at hc
        obtain rfl := Option.some.inj hc
        decide
      · rw [hbody, hasScheme_append (marked_tail p)]
        exact h.noScheme hscheme hnetloc
    rw [urlunsplit, if_pos hscheme, List.nil_append, splitScheme, if_neg (by simp [hnone]), hscheme]
  · obtain ⟨hhead, hall⟩ := h.scheme.resolve_left hscheme
    have hcolon : ':' ∉ p.scheme := fun hmem => absurd (hall ':' hmem).1 (by decide)
    have hcut := cutAt_append hcolon (body usesNetloc p ++ tail p)
    have htake : (p.scheme ++ ':' :: (body usesNetloc p ++ tail p)).takeWhile (· ≠ ':') = p.scheme :=
      congrArg Prod.fst hcut
    have hhas : hasScheme (p.scheme ++ ':' :: (body usesNetloc p ++ tail p)) = true := by
      unfold hasScheme
      rw [htake, List.head?_append_of_ne_nil _ hscheme, hhead]
      simpa using fun c hc => (hall c hc).1
    rw [urlunsplit, if_neg hscheme, List.append_assoc, List.singleton_append, splitScheme, if_pos hhas, hcut]
    have hlower : p.scheme.map Char.toLower = p.scheme :=
      (List.map_congr_left fun c hc => (hall c hc).2).trans (List.map_id _)
    rw [hlower]

theorem endsNetloc_of_marked {text : List Char} (h : Marked text) : ∀ c ∈ text.head?, endsNetloc c := by
  intro c hc
  rcases h c hc with rfl | rfl <;> decide

/-- An authority ends where something begins that is not part of it. -/
theorem cut_netloc {netloc rest : List Char} (h : ∀ c ∈ netloc, endsNetloc c = false)
    (hrest : ∀ c ∈ rest.head?, endsNetloc c) :
    ((netloc ++ rest).takeWhile fun c => !endsNetloc c) = netloc ∧
      ((netloc ++ rest).dropWhile fun c => !endsNetloc c) = rest := by
  have hall : ∀ c ∈ netloc, (!endsNetloc c) = true := fun c hc => by simp [h c hc]
  rw [List.takeWhile_append_of_pos hall, List.dropWhile_append_of_pos hall]
  cases rest with
  | nil => simp
  | cons c rest =>
    have hc := hrest c rfl
    rw [List.takeWhile_cons_of_neg (by simp [hc]), List.dropWhile_cons_of_neg (by simp [hc])]
    simp

theorem splitNetloc_of_no_slashes {text : List Char} (h : ¬['/', '/'] <+: text) : splitNetloc text = ([], text) := by
  unfold splitNetloc
  split
  · exact absurd ⟨_, rfl⟩ h
  · rfl

theorem splitNetloc_body (h : WellFormed p) :
    splitNetloc (body usesNetloc p ++ tail p) = (p.netloc, p.path ++ tail p) := by
  rcases body_cases usesNetloc h with ⟨hbody, hpath⟩ | ⟨hbody, hnetloc, hslashes⟩
  · have hrest : ∀ c ∈ (p.path ++ tail p).head?, endsNetloc c := by
      intro c hc
      rcases hpath with hpath | hpath
      · rw [hpath, List.nil_append] at hc
        exact endsNetloc_of_marked (marked_tail p) c hc
      · rw [List.head?_append, hpath] at hc
        obtain rfl := Option.some.inj hc
        decide
    obtain ⟨htake, hdrop⟩ := cut_netloc h.netloc hrest
    rw [hbody, List.cons_append, List.cons_append, List.append_assoc, splitNetloc, htake, hdrop]
  · rw [hbody, hnetloc]
    apply splitNetloc_of_no_slashes
    rintro ⟨rest, hrest⟩
    have hmarked := marked_tail p
    cases hpath : p.path with
    | nil =>
      rw [hpath, List.nil_append] at hrest
      rw [← hrest] at hmarked
      rcases hmarked '/' rfl with hc | hc <;> exact absurd hc (by decide)
    | cons a path =>
      cases path with
      | nil =>
        rw [hpath] at hrest
        have htail : tail p = '/' :: rest := (List.cons.inj hrest).2.symm
        rw [htail] at hmarked
        rcases hmarked '/' rfl with hc | hc <;> exact absurd hc (by decide)
      | cons b path =>
        rw [hpath] at hrest
        obtain ⟨ha, hrest⟩ := List.cons.inj hrest
        obtain ⟨hb, -⟩ := List.cons.inj hrest
        rw [hpath, ← ha, ← hb] at hslashes
        exact hslashes ⟨path, rfl⟩

/-- What follows the authority is cut at its marks. -/
theorem cut_path (h : WellFormed p) :
    cutAt '#' (p.path ++ tail p) = (p.path ++ (if p.query = [] then [] else '?' :: p.query), p.fragment) ∧
      cutAt '?' (p.path ++ if p.query = [] then [] else '?' :: p.query) = (p.path, p.query) := by
  have hmark : '?' ∉ p.path := fun hc => (h.path _ hc).1 rfl
  have hhash : '#' ∉ p.path ++ if p.query = [] then [] else '?' :: p.query := by
    intro hc
    rcases List.mem_append.mp hc with hc | hc
    · exact (h.path _ hc).2 rfl
    · split_ifs at hc
      · cases hc
      · rcases List.mem_cons.mp hc with hc | hc
        · exact absurd hc (by decide)
        · exact h.query hc
  constructor
  · unfold tail
    rw [← List.append_assoc]
    by_cases hfragment : p.fragment = []
    · rw [if_pos hfragment, List.append_nil, cutAt_of_not_mem hhash, hfragment]
    · rw [if_neg hfragment, cutAt_append hhash]
  · by_cases hquery : p.query = []
    · rw [if_pos hquery, List.append_nil, cutAt_of_not_mem hmark, hquery]
    · rw [if_neg hquery, cutAt_append hmark]

/-- Well-formed parts are found again in the URL they are joined to. -/
theorem parts_urlunsplit (usesNetloc : List Char → Bool) (h : WellFormed p) : parts (urlunsplit usesNetloc p) = p := by
  obtain ⟨hhash, hmark⟩ := cut_path h
  unfold parts
  rw [cleaned_urlunsplit h, splitScheme_urlunsplit h, splitNetloc_body h, hhash, hmark]

theorem WellFormed.withQuery {query : List Char} (h : WellFormed p)
    (hquery : ∀ c ∈ query, c ≠ '#' ∧ isRemoved c = false) :
    WellFormed { p with query := query } where
  scheme := h.scheme
  netloc := h.netloc
  path := h.path
  rooted := h.rooted
  query := fun hc => (hquery _ hc).1 rfl
  kept := by
    intro c hc
    simp only [List.mem_append] at hc
    rcases hc with ((hc | hc) | hc) | hc
    · exact h.kept c (by simp [hc])
    · exact h.kept c (by simp [hc])
    · exact (hquery c hc).2
    · exact h.kept c (by simp [hc])
  first := h.first
  noScheme := h.noScheme

/-- Another authority, if there was one, and no query. -/
theorem WellFormed.withNetloc {netloc : List Char} (h : WellFormed p)
    (hnetloc : ∀ c ∈ netloc, endsNetloc c = false ∧ isRemoved c = false) (hempty : p.netloc = [] → netloc = []) :
    WellFormed { p with netloc := netloc, query := [] } where
  scheme := h.scheme
  netloc := fun c hc => (hnetloc c hc).1
  path := h.path
  rooted := fun hne => h.rooted fun hnil => hne (hempty hnil)
  query := List.not_mem_nil
  kept := by
    intro c hc
    simp only [List.mem_append, List.not_mem_nil, or_false] at hc
    rcases hc with (hc | hc) | hc
    · exact (hnetloc c hc).2
    · exact h.kept c (by simp [hc])
    · exact h.kept c (by simp [hc])
  first := by
    intro hscheme _ c hc
    by_cases hnil : p.netloc = []
    · exact h.first hscheme hnil c hc
    · change c ∈ p.path.head? at hc
      rcases h.rooted hnil with hpath | hpath
      · rw [hpath] at hc
        cases hc
      · rw [hpath] at hc
        obtain rfl := Option.some.inj hc
        decide
  noScheme := by
    intro hscheme _
    by_cases hnil : p.netloc = []
    · exact h.noScheme hscheme hnil
    · apply hasScheme_of_head
      intro c hc
      change c ∈ p.path.head? at hc
      rcases h.rooted hnil with hpath | hpath
      · rw [hpath] at hc
        cases hc
      · rw [hpath] at hc
        obtain rfl := Option.some.inj hc
        decide

/-- The parts of a URL with another query are the parts of the URL they are joined to. -/
theorem urlsplit_urlunsplit {validNetloc : List Char → Bool} {url query : List Char}
    (hsplit : urlsplit validNetloc url = some p) (hquery : ∀ c ∈ query, c ≠ '#' ∧ isRemoved c = false) :
    urlsplit validNetloc (urlunsplit usesNetloc { p with query := query }) = some { p with query := query } := by
  unfold urlsplit at hsplit
  split_ifs at hsplit with hvalid
  obtain rfl := Option.some.inj hsplit
  have hparts := parts_urlunsplit usesNetloc ((wellFormed_parts url).withQuery hquery)
  rw [urlsplit, hparts, if_pos hvalid]

end SplitUrl
