import Mathlib.Data.List.Basic
import Mathlib.Tactic

/-! Texts of Python and of JSON. A Python `str` is a list of code points, surrogates among them; `json.dumps` escapes
each of these by itself, and a reader of the JSON text joins the escapes of a high surrogate and of a low one behind it
to the character of this pair. -/

namespace DjangoQueues

/-- A code point of a Python `str`; the surrogates are numbered from U+D800 and from U+DC00. -/
inductive CodePoint where
  | char (c : Char)
  | high (n : Fin 1024)
  | low (n : Fin 1024)
deriving DecidableEq

abbrev PyStr := List CodePoint

namespace PyStr

/-- The `str` of a text without surrogates. -/
def ofString (s : String) : PyStr := s.toList.map .char

/-- The character that a pair of surrogates stands for in UTF-16. -/
def pair (high low : Fin 1024) : Char := .ofNat (0x10000 + high * 1024 + low)

/-- Reading the escapes of a `str`: each surrogate pair becomes its character. -/
def joinPairs : PyStr → PyStr
  | .high h :: .low l :: cs => .char (pair h l) :: joinPairs cs
  | c :: cs => c :: joinPairs cs
  | [] => []

/-- The characters of a `str`, if it has no surrogate. -/
def chars? : PyStr → Option (List Char)
  | [] => some []
  | .char c :: cs => (chars? cs).map fun l => c :: l
  | _ :: _ => none

theorem chars?_map_char (l : List Char) : chars? (l.map .char) = some l := by
  induction l with
  | nil => rfl
  | cons c l ih => rw [List.map_cons, chars?, ih, Option.map_some]

theorem eq_map_of_chars? {cs : PyStr} {l : List Char} (h : chars? cs = some l) : cs = l.map .char := by
  induction cs generalizing l with
  | nil =>
    obtain rfl := Option.some.inj h
    rfl
  | cons c cs ih =>
    cases c with
    | char c =>
      obtain ⟨l', hl', rfl⟩ := Option.map_eq_some_iff.mp h
      rw [List.map_cons, ← ih hl']
    | _ => cases h

theorem joinPairs_cons {c : CodePoint} {cs : PyStr}
    (h : ∀ n l, c = .high n → cs.head? ≠ some (.low l)) : joinPairs (c :: cs) = c :: joinPairs cs := by
  rw [joinPairs]
  rintro n l cs' rfl rfl
  exact h n l rfl rfl

theorem joinPairs_map_char (l : List Char) : joinPairs (l.map .char) = l.map .char := by
  induction l with
  | nil => rfl
  | cons c l ih => rw [List.map_cons, joinPairs_cons (fun _ _ hc => by cases hc), ih]

/-- Joining puts no low surrogate in front. -/
theorem low_of_head?_joinPairs {cs : PyStr} {l : Fin 1024} (h : (joinPairs cs).head? = some (.low l)) :
    cs.head? = some (.low l) := by
  unfold joinPairs at h
  split at h
  · cases h
  · exact h
  · cases h

theorem joinPairs_joinPairs (cs : PyStr) : joinPairs (joinPairs cs) = joinPairs cs := by
  induction cs using joinPairs.induct with
  | case1 h l cs ih => rw [joinPairs, joinPairs_cons (fun _ _ hc => by cases hc), ih]
  | case2 c cs hc ih =>
    have hnot : ∀ n l, c = .high n → cs.head? ≠ some (.low l) := by
      rintro n l rfl hl
      cases cs with
      | nil => cases hl
      | cons c' cs' => exact hc n l cs' rfl (by rw [Option.some.inj hl])
    rw [joinPairs_cons hnot, joinPairs_cons, ih]
    exact fun n l hn hl => hnot n l hn (low_of_head?_joinPairs hl)
  | case3 => rfl

end PyStr

/-- What a reader has joined, with a surrogate left that belongs to no pair. -/
structure LoneText where
  codePoints : PyStr
  joined : codePoints.joinPairs = codePoints
  lone : codePoints.chars? = none
deriving DecidableEq

/-- The text of a JSON string. -/
inductive Text where
  | plain (s : String)
  | lone (t : LoneText)
deriving DecidableEq

instance : Coe String Text := ⟨.plain⟩

namespace Text

def isPlain : Text → Bool
  | .plain _ => true
  | .lone _ => false

/-- U+D800 alone. -/
def highSurrogate : Text := .lone ⟨[.high 0], rfl, rfl⟩

/-- The `str` that `json.loads` makes of the text. -/
def codePoints : Text → PyStr
  | .plain s => .ofString s
  | .lone t => t.codePoints

theorem joinPairs_codePoints (t : Text) : t.codePoints.joinPairs = t.codePoints := by
  cases t with
  | plain s => exact PyStr.joinPairs_map_char _
  | lone t => exact t.joined

/-- The text that `json.dumps` writes for a `str`. -/
def ofStr (cs : PyStr) : Text :=
  match h : cs.joinPairs.chars? with
  | some l => .plain (String.ofList l)
  | none => .lone ⟨cs.joinPairs, cs.joinPairs_joinPairs, h⟩

/-- A `str` comes back with its surrogate pairs joined. -/
@[simp]
theorem codePoints_ofStr (cs : PyStr) : (ofStr cs).codePoints = cs.joinPairs := by
  unfold ofStr
  split
  · rename_i l h
    rw [codePoints, PyStr.ofString, String.toList_ofList, PyStr.eq_map_of_chars? h]
  · rfl

theorem ofStr_codePoints (t : Text) : ofStr t.codePoints = t := by
  unfold ofStr
  split
  · rename_i l h
    rw [t.joinPairs_codePoints] at h
    cases t with
    | plain s =>
      obtain rfl : s.toList = l := Option.some.inj ((PyStr.chars?_map_char _).symm.trans h)
      rw [String.ofList_toList]
    | lone t => cases t.lone.symm.trans h
  · rename_i h
    cases t with
    | plain s =>
      rw [codePoints, PyStr.ofString, PyStr.joinPairs_map_char, PyStr.chars?_map_char] at h
      cases h
    | lone t =>
      congr 1
      have heq : t.codePoints.joinPairs = t.codePoints := t.joined
      cases t
      simp only [LoneText.mk.injEq]
      exact heq

theorem eq_nil_of_ofStr {cs : PyStr} (h : ofStr cs = "") : cs = [] := by
  have hjoined : cs.joinPairs = [] := by
    rw [← codePoints_ofStr, h]
    rfl
  unfold PyStr.joinPairs at hjoined
  split at hjoined
  · cases hjoined
  · cases hjoined
  · rfl

end Text

end DjangoQueues
