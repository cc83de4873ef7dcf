import Mathlib.Data.List.DropRight
import Mathlib.Data.List.Lex
import Mathlib.Order.Fin.Basic

/-! UUIDv7 identities, their canonical text and how `uuid.UUID` reads a text. -/

namespace DjangoQueues

def hexChar (d : Fin 16) : Char := Char.ofNat (if d.val < 10 then 48 + d.val else 87 + d.val)

def hexDigit? (c : Char) : Option (Fin 16) :=
  if h : 48 ≤ c.toNat ∧ c.toNat < 58 then some ⟨c.toNat - 48, by omega⟩
  else if h : 97 ≤ c.toNat ∧ c.toNat < 103 then some ⟨c.toNat - 87, by omega⟩
  else if h : 65 ≤ c.toNat ∧ c.toNat < 71 then some ⟨c.toNat - 55, by omega⟩
  else none

theorem hexDigit?_hexChar : ∀ d, hexDigit? (hexChar d) = some d := by decide

theorem hexChar_ne_dash : ∀ d, hexChar d ≠ '-' := by decide

/-- The version and variant nibbles of a UUIDv7. -/
def IsVersion7 (digits : List (Fin 16)) : Prop :=
  digits.length = 32 ∧ digits.getD 12 0 = 7 ∧ digits.getD 16 0 ∈ [8, 9, 10, 11]

instance : DecidablePred IsVersion7 := fun digits =>
  inferInstanceAs (Decidable (digits.length = 32 ∧ digits.getD 12 0 = 7 ∧ digits.getD 16 0 ∈ [8, 9, 10, 11]))

/-- Behind the numerals of a digit. -/
instance neZero_sixteen : @NeZero ℕ Zero.ofOfNat0 16 := Nat.instNeZeroSucc

/-- A UUIDv7, most significant hexadecimal digit first. -/
structure EntryId where
  digits : List (Fin 16)
  version7 : IsVersion7 digits
deriving DecidableEq

namespace EntryId

/-- UUIDs compare as 128-bit numbers, which is the order of their canonical text. -/
instance : LinearOrder EntryId :=
  LinearOrder.lift' digits fun a b h => by
    cases a
    cases b
    cases h
    rfl

/-- The UUIDv7 of the epoch whose random bits are zero up to its last digit. -/
def ofLast (d : Fin 16) : EntryId where
  digits := List.replicate 12 0 ++ [7, 0, 0, 0, 8] ++ List.replicate 14 0 ++ [d]
  version7 := by
    refine ⟨?_, ?_, ?_⟩ <;> simp [List.getD]

def hex (l : List (Fin 16)) : List Char := l.map hexChar

/-- The canonical 8-4-4-4-12 text. -/
def toText (e : EntryId) : String :=
  String.ofList (hex (e.digits.take 8) ++ '-' :: hex ((e.digits.drop 8).take 4) ++
    '-' :: hex ((e.digits.drop 12).take 4) ++ '-' :: hex ((e.digits.drop 16).take 4) ++
    '-' :: hex (e.digits.drop 20))

/-! ## Parsing -/

/-- `text.replace(old, "")`: occurrences go from left to right. The number counts what is still to
drop of the last one. -/
def eraseText (old : List Char) : ℕ → List Char → List Char
  | _, [] => []
  | k + 1, _ :: cs => eraseText old k cs
  | 0, c :: cs => if old.isPrefixOf (c :: cs) then eraseText old (old.length - 1) cs else c :: eraseText old 0 cs

def isBrace (c : Char) : Bool := c.toNat = 0x7b || c.toNat = 0x7d

/-- `strip` of the two braces. -/
def stripBraces (cs : List Char) : List Char := (cs.dropWhile isBrace).rdropWhile isBrace

/-- The spaces beyond ASCII. -/
def unicodeSpaces : List ℕ :=
  [0x85, 0xa0, 0x1680, 0x2000, 0x2001, 0x2002, 0x2003, 0x2004, 0x2005, 0x2006, 0x2007, 0x2008, 0x2009, 0x200a,
    0x2028, 0x2029, 0x202f, 0x205f, 0x3000]

/-- The zeros of the decimal digits beyond ASCII, each followed by its nine others. -/
def unicodeZeros : List ℕ :=
  [0x660, 0x6f0, 0x7c0, 0x966, 0x9e6, 0xa66, 0xae6, 0xb66, 0xbe6, 0xc66, 0xce6, 0xd66, 0xde6, 0xe50, 0xed0, 0xf20,
    0x1040, 0x1090, 0x17e0, 0x1810, 0x1946, 0x19d0, 0x1a80, 0x1a90, 0x1b50, 0x1bb0, 0x1c40, 0x1c50, 0xa620, 0xa8d0,
    0xa900, 0xa9d0, 0xa9f0, 0xaa50, 0xabf0, 0xff10, 0x104a0, 0x10d30, 0x10d40, 0x11066, 0x110f0, 0x11136, 0x111d0,
    0x112f0, 0x11450, 0x114d0, 0x11650, 0x116c0, 0x116d0, 0x116da, 0x11730, 0x118e0, 0x11950, 0x11bf0, 0x11c50,
    0x11d50, 0x11da0, 0x11f50, 0x16130, 0x16a60, 0x16ac0, 0x16b50, 0x16d70, 0x1ccf0, 0x1d7ce, 0x1d7d8, 0x1d7e2,
    0x1d7ec, 0x1d7f6, 0x1e140, 0x1e2f0, 0x1e4f0, 0x1e5f1, 0x1e950, 0x1fbf0]

/-- The character that `int` reads for this one; no digit is read for a question mark. -/
def asciiOf (c : Char) : Char :=
  if c.toNat < 127 then c
  else if c.toNat ∈ unicodeSpaces then ' '
  else
    match unicodeZeros.find? fun z => z ≤ c.toNat ∧ c.toNat < z + 10 with
    | some z => Char.ofNat (48 + (c.toNat - z))
    | none => '?'

def isSpace (c : Char) : Bool := c.toNat = 32 || (9 ≤ c.toNat && c.toNat ≤ 13)

/-- Digits with single underscores between them, and the text after them. -/
def hexRun : Bool → List Char → Option (List (Fin 16) × List Char)
  | underscore, [] => if underscore then none else some ([], [])
  | underscore, c :: cs =>
    if c = '_' then if underscore then none else hexRun true cs
    else
      match hexDigit? c with
      | some d => (hexRun false cs).map fun p => (d :: p.1, p.2)
      | none => if underscore then none else some ([], c :: cs)

def dropSign : List Char → List Char
  | '+' :: cs => cs
  | cs => cs

/-- The base, with one underscore after it. -/
def dropBase : List Char → List Char
  | '0' :: 'x' :: '_' :: cs => cs
  | '0' :: 'X' :: '_' :: cs => cs
  | '0' :: 'x' :: cs => cs
  | '0' :: 'X' :: cs => cs
  | cs => cs

/-- The digits of `int(text, 16)`, of a text without a dash. -/
def intDigits? (cs : List Char) : Option (List (Fin 16)) :=
  let cs := dropBase (dropSign ((cs.map asciiOf).dropWhile isSpace))
  if cs.head? = some '_' then none
  else
    match hexRun false cs with
    | some (d :: ds, rest) => if rest.all isSpace then some (d :: ds) else none
    | _ => none

/-- `uuid.UUID` of a text. Thirty-two characters must remain for `int`, which need not all be digits. -/
def parseUuid? (s : String) : Option (List (Fin 16)) :=
  let cs := (stripBraces (eraseText "uuid:".toList 0 (eraseText "urn:".toList 0 s.toList))).filter (· ≠ '-')
  if cs.length = 32 then (intDigits? cs).map fun ds => List.replicate (32 - ds.length) 0 ++ ds else none

/-! ## The canonical text is read back -/

theorem eraseText_eq_self {u : Char} {old cs : List Char} (h : u ∉ cs) : eraseText (u :: old) 0 cs = cs := by
  induction cs with
  | nil => rfl
  | cons c cs ih =>
    rw [List.mem_cons, not_or] at h
    have hprefix : (u :: old).isPrefixOf (c :: cs) = false := by simp [List.isPrefixOf, h.1]
    rw [eraseText, hprefix, ih h.2]
    rfl

theorem stripBraces_eq_self {cs : List Char} (h : ∀ c ∈ cs, isBrace c = false) : stripBraces cs = cs := by
  have hdrop : cs.dropWhile isBrace = cs := by
    cases cs with
    | nil => rfl
    | cons c cs => exact List.dropWhile_cons_of_neg (by simp [h c (List.mem_cons_self ..)])
  rw [stripBraces, hdrop, List.rdropWhile_eq_self_iff]
  intro hne
  simp [h _ (List.getLast_mem hne)]

theorem filter_hex (l : List (Fin 16)) : (hex l).filter (· ≠ '-') = hex l := by
  rw [List.filter_eq_self]
  intro c hc
  obtain ⟨d, -, rfl⟩ := List.mem_map.mp hc
  simpa using hexChar_ne_dash d

theorem mem_hex {c : Char} {l : List (Fin 16)} (h : c ∈ hex l) : ∃ d, c = hexChar d := by
  obtain ⟨d, -, rfl⟩ := List.mem_map.mp h
  exact ⟨d, rfl⟩

theorem hexRun_hex (l : List (Fin 16)) : hexRun false (hex l) = some (l, []) := by
  have hchar : ∀ d, hexChar d ≠ '_' := by decide
  induction l with
  | nil => rfl
  | cons d l ih =>
    show hexRun false (hexChar d :: hex l) = _
    rw [hexRun, if_neg (hchar d), hexDigit?_hexChar, ih]
    rfl

/-- The second character of a base is not a digit. -/
theorem dropBase_hex (l : List (Fin 16)) : dropBase (hex l) = hex l := by
  have hx : ∀ d, hexChar d ≠ 'x' ∧ hexChar d ≠ 'X' := by decide
  match l with
  | [] => rfl
  | [d] =>
    unfold hex
    rw [List.map_cons, List.map_nil, dropBase.eq_def]
    split <;> simp_all
  | d :: d' :: l =>
    unfold hex
    rw [List.map_cons, List.map_cons, dropBase.eq_def]
    have h' := hx d'
    split <;> simp_all

theorem intDigits?_hex {l : List (Fin 16)} (h : l ≠ []) : intDigits? (hex l) = some l := by
  have hascii : ∀ d, asciiOf (hexChar d) = hexChar d := by decide
  have hspace : ∀ d, isSpace (hexChar d) = false := by decide
  have hsign : ∀ d, hexChar d ≠ '+' := by decide
  have hscore : ∀ d, hexChar d ≠ '_' := by decide
  obtain ⟨d, l, rfl⟩ := List.exists_cons_of_ne_nil h
  have hmap : (hex (d :: l)).map asciiOf = hex (d :: l) := by
    rw [hex, List.map_map]
    exact List.map_congr_left fun e _ => hascii e
  have hdrop : (hex (d :: l)).dropWhile isSpace = hex (d :: l) :=
    List.dropWhile_cons_of_neg (by simp [hspace d])
  have hdropSign : dropSign (hex (d :: l)) = hex (d :: l) := by
    have hd := hsign d
    show dropSign (hexChar d :: hex l) = _
    rw [dropSign.eq_def]
    split
    · simp_all
    · rfl
  have hhead : (hex (d :: l)).head? ≠ some '_' := by
    show some (hexChar d) ≠ some '_'
    simpa using hscore d
  unfold intDigits?
  rw [hmap, hdrop, hdropSign, dropBase_hex, if_neg hhead, hexRun_hex]
  rfl

theorem drop_split (l : List (Fin 16)) (n k : ℕ) : l.drop n = (l.drop n).take k ++ l.drop (n + k) := by
  rw [← List.drop_drop, List.take_append_drop]

/-- The canonical text of any thirty-two digits. -/
def canonicalText (digits : List (Fin 16)) : List Char :=
  hex (digits.take 8) ++ '-' :: hex ((digits.drop 8).take 4) ++ '-' :: hex ((digits.drop 12).take 4) ++
    '-' :: hex ((digits.drop 16).take 4) ++ '-' :: hex (digits.drop 20)

theorem toList_toText (e : EntryId) : e.toText.toList = canonicalText e.digits := by
  rw [toText, String.toList_ofList, canonicalText]

theorem filter_canonicalText (digits : List (Fin 16)) : (canonicalText digits).filter (· ≠ '-') = hex digits := by
  have hsplit : digits = digits.take 8 ++ ((digits.drop 8).take 4 ++
      ((digits.drop 12).take 4 ++ ((digits.drop 16).take 4 ++ digits.drop 20))) := by
    rw [← drop_split, ← drop_split, ← drop_split, List.take_append_drop]
  conv_rhs => rw [hsplit]
  have hd : ∀ l : List Char, ('-' :: l).filter (· ≠ '-') = l.filter (· ≠ '-') := fun l => by simp
  rw [canonicalText]
  simp only [List.filter_append, List.cons_append, hd, filter_hex, List.append_assoc]
  simp only [hex, List.map_append]

theorem mem_toText {e : EntryId} {c : Char} (h : c ∈ e.toText.toList) : c = '-' ∨ ∃ d, c = hexChar d := by
  rw [toText, String.toList_ofList] at h
  simp only [List.mem_append, List.mem_cons] at h
  rcases h with (((h | rfl | h) | rfl | h) | rfl | h) | rfl | h
  all_goals
    first
    | exact .inl rfl
    | exact .inr (mem_hex h)

theorem parseUuid?_toText (e : EntryId) : parseUuid? e.toText = some e.digits := by
  have hu : ∀ d, hexChar d ≠ 'u' ∧ isBrace (hexChar d) = false := by decide
  have hnot : 'u' ∉ e.toText.toList := by
    intro hmem
    rcases mem_toText hmem with h | ⟨d, h⟩
    · cases h
    · exact (hu d).1 h.symm
  have hbrace : ∀ c ∈ e.toText.toList, isBrace c = false := by
    intro c hc
    rcases mem_toText hc with rfl | ⟨d, rfl⟩
    · rfl
    · exact (hu d).2
  have hurn : eraseText "urn:".toList 0 e.toText.toList = e.toText.toList := eraseText_eq_self hnot
  have huuid : eraseText "uuid:".toList 0 e.toText.toList = e.toText.toList := eraseText_eq_self hnot
  have hlen : (hex e.digits).length = 32 := by
    rw [hex, List.length_map]
    exact e.version7.1
  have hne : e.digits ≠ [] := by
    intro hnil
    have hzero := e.version7.1
    rw [hnil] at hzero
    cases hzero
  unfold parseUuid?
  rw [hurn, huuid, stripBraces_eq_self hbrace, toList_toText,
    filter_canonicalText]
  dsimp only
  rw [if_pos hlen, intDigits?_hex hne, Option.map_some, e.version7.1]
  rfl

end EntryId

end DjangoQueues
