import Mathlib.Data.List.TakeWhile
import Mathlib.Tactic

/-! Percent-encoded text and form-encoded pairs, as `urllib.parse` of Python writes and reads
them. Bytes that are no UTF-8 are read as replacement characters; what was written is read
back. -/

namespace FormEncoding

/-! ## UTF-8 -/

def utf8 (text : List Char) : List UInt8 := text.flatMap String.utf8EncodeChar

/-- A second byte that some character goes on with after the first. -/
def maySecond (first second : UInt8) : Bool :=
  if first = 0xE0 then 0xA0 ≤ second ∧ second ≤ 0xBF
  else if first = 0xED then 0x80 ≤ second ∧ second ≤ 0x9F
  else if 0xE1 ≤ first ∧ first ≤ 0xEF then 0x80 ≤ second ∧ second ≤ 0xBF
  else if first = 0xF0 then 0x90 ≤ second ∧ second ≤ 0xBF
  else if 0xF1 ≤ first ∧ first ≤ 0xF3 then 0x80 ≤ second ∧ second ≤ 0xBF
  else first = 0xF4 ∧ 0x80 ≤ second ∧ second ≤ 0x8F

/-- How many bytes of ill-formed input one replacement character stands for: the longest
beginning of a character, but at least one. -/
def illFormed : List UInt8 → ℕ
  | first :: second :: rest =>
    if maySecond first second then
      if 0xF0 ≤ first ∧ (rest.head?.any fun third => 0x80 ≤ third ∧ third ≤ 0xBF) then 3 else 2
    else 1
  | _ => 1

/-- At most `n` characters. -/
def decodeUpTo : ℕ → List UInt8 → List Char
  | 0, _ => []
  | _, [] => []
  | n + 1, b :: bs =>
    match (b :: bs).toByteArray.utf8DecodeChar? 0 with
    | some c => c :: decodeUpTo n ((b :: bs).drop c.utf8Size)
    | none => '\uFFFD' :: decodeUpTo n ((b :: bs).drop (illFormed (b :: bs)))

/-- `bytes.decode("utf-8", "replace")`. -/
def decode (bytes : List UInt8) : List Char := decodeUpTo bytes.length bytes

theorem utf8_cons (c : Char) (text : List Char) : utf8 (c :: text) = String.utf8EncodeChar c ++ utf8 text := rfl

theorem decodeUpTo_utf8 {text : List Char} {n : ℕ} (hn : (utf8 text).length ≤ n) :
    decodeUpTo n (utf8 text) = text := by
  induction text generalizing n with
  | nil => cases n <;> rfl
  | cons c text ih =>
    have hlen : (String.utf8EncodeChar c).length = c.utf8Size := String.length_utf8EncodeChar c
    have hpos := c.utf8Size_pos
    rw [utf8_cons, List.length_append, hlen] at hn
    obtain ⟨n, rfl⟩ : ∃ m, n = m + 1 := ⟨n - 1, by omega⟩
    obtain ⟨b, bs, hbs⟩ : ∃ b bs, utf8 (c :: text) = b :: bs := by
      apply List.exists_cons_of_ne_nil
      simp [utf8_cons, String.utf8EncodeChar_ne_nil]
    have hdecode : (b :: bs).toByteArray.utf8DecodeChar? 0 = some c := by
      rw [← hbs, utf8_cons, List.toByteArray_append]
      exact ByteArray.utf8DecodeChar?_utf8EncodeChar_append
    have hdrop : (b :: bs).drop c.utf8Size = utf8 text := by
      rw [← hbs, utf8_cons, ← hlen, List.drop_left]
    rw [hbs, decodeUpTo, hdecode]
    dsimp only
    rw [hdrop, ih (by omega)]

theorem decode_utf8 (text : List Char) : decode (utf8 text) = text := decodeUpTo_utf8 le_rfl

theorem decode_eq_nil {bytes : List UInt8} : decode bytes = [] ↔ bytes = [] := by
  constructor
  · intro h
    cases bytes with
    | nil => rfl
    | cons b bs =>
      unfold decode at h
      rw [List.length_cons, decodeUpTo] at h
      split at h <;> cases h
  · rintro rfl
    rfl

/-! ## Quoting -/

def hexDigit (n : ℕ) : Char := Char.ofNat (if n < 10 then 48 + n else 55 + n)

/-- Either case of a hexadecimal digit. -/
def hexValue? (c : Char) : Option ℕ :=
  if '0' ≤ c ∧ c ≤ '9' then some (c.toNat - 48)
  else if 'A' ≤ c ∧ c ≤ 'F' then some (c.toNat - 55)
  else if 'a' ≤ c ∧ c ≤ 'f' then some (c.toNat - 87)
  else none

/-- ASCII letters, digits and `_.-~`. -/
def isUnreserved (b : UInt8) : Bool :=
  b < 128 ∧ ((Char.ofNat b.toNat).isAlphanum ∨ Char.ofNat b.toNat ∈ ['_', '.', '-', '~'])

/-- A byte as `quote` writes it where a blank is safe. -/
def quoteByte (b : UInt8) : List Char :=
  if isUnreserved b ∨ b = 32 then [Char.ofNat b.toNat]
  else ['%', hexDigit (b.toNat / 16), hexDigit (b.toNat % 16)]

/-- `quote_plus`. -/
def quotePlus (text : List Char) : List Char :=
  ((utf8 text).flatMap quoteByte).map fun c => if c = ' ' then '+' else c

/-- The byte that two hexadecimal digits at the beginning stand for. -/
def escaped? : List Char → Option UInt8
  | a :: b :: _ =>
    match hexValue? a, hexValue? b with
    | some x, some y => some (UInt8.ofNat (16 * x + y))
    | _, _ => none
  | _ => none

/-- `unquote_to_bytes` of ASCII text, after the next `skip` characters. -/
def unquoteFrom : ℕ → List Char → List UInt8
  | _, [] => []
  | skip + 1, _ :: text => unquoteFrom skip text
  | 0, c :: text =>
    match if c = '%' then escaped? text else none with
    | some b => b :: unquoteFrom 2 text
    | none => UInt8.ofNat c.toNat :: unquoteFrom 0 text

/-- `unquote`: what is between characters beyond ASCII is decoded on its own. -/
def unquoteRuns : List Char → List Char → List Char
  | run, [] => decode (unquoteFrom 0 run)
  | run, c :: text =>
    if c.toNat < 128 then unquoteRuns (run ++ [c]) text
    else decode (unquoteFrom 0 run) ++ c :: unquoteRuns [] text

/-- `unquote_plus`. -/
def unquotePlus (text : List Char) : List Char := unquoteRuns [] (text.map fun c => if c = '+' then ' ' else c)

/-! ## What was quoted is unquoted -/

/-- A byte by its two digits. -/
theorem forall_byte {P : UInt8 → Prop} (h : ∀ x < 16, ∀ y < 16, P (UInt8.ofNat (16 * x + y))) (b : UInt8) : P b := by
  have hlt := b.toNat_lt
  have hb := h (b.toNat / 16) (by omega) (b.toNat % 16) (by omega)
  rwa [Nat.div_add_mod, UInt8.ofNat_toNat] at hb

/-- What quoted text is made of. -/
def IsQuoted (c : Char) : Prop := 32 < c.toNat ∧ c.toNat < 128 ∧ c ≠ '&' ∧ c ≠ '=' ∧ c ≠ '#'

instance (c : Char) : Decidable (IsQuoted c) := inferInstanceAs (Decidable (_ ∧ _))

theorem quoteByte_chars (b : UInt8) : ∀ c ∈ quoteByte b, (c = ' ' ∨ IsQuoted c) ∧ c ≠ '+' := by
  have hall := forall_byte (P := fun b => (quoteByte b).all fun c => (c = ' ' ∨ IsQuoted c) ∧ c ≠ '+')
    (by decide +kernel) b
  intro c hc
  exact of_decide_eq_true (List.all_eq_true.mp hall c hc)

theorem hexValue?_hexDigit : ∀ n < 16, hexValue? (hexDigit n) = some n := by decide

/-- A byte that stands for itself. -/
theorem ofNat_toNat_quoteByte (b : UInt8) :
    b < 128 → UInt8.ofNat (Char.ofNat b.toNat).toNat = b ∧ (Char.ofNat b.toNat = '%' → b = 37) :=
  forall_byte (P := fun b => b < 128 → UInt8.ofNat (Char.ofNat b.toNat).toNat = b ∧
    (Char.ofNat b.toNat = '%' → b = 37)) (by decide +kernel) b

theorem escaped?_hexDigit (b : UInt8) (text : List Char) :
    escaped? (hexDigit (b.toNat / 16) :: hexDigit (b.toNat % 16) :: text) = some b := by
  have hb := b.toNat_lt
  rw [escaped?, hexValue?_hexDigit _ (by omega), hexValue?_hexDigit _ (by omega)]
  dsimp only
  rw [Nat.div_add_mod, UInt8.ofNat_toNat]

theorem unquoteFrom_quoteByte (b : UInt8) (text : List Char) :
    unquoteFrom 0 (quoteByte b ++ text) = b :: unquoteFrom 0 text := by
  unfold quoteByte
  split_ifs with h
  · have hlt : b < 128 := by
      rcases h with h | rfl
      · simp only [isUnreserved, decide_eq_true_eq] at h
        exact h.1
      · decide
    obtain ⟨hbyte, hpercent⟩ := ofNat_toNat_quoteByte b hlt
    have hne : Char.ofNat b.toNat ≠ '%' := by
      intro hc
      obtain rfl := hpercent hc
      revert h
      decide
    rw [List.cons_append, List.nil_append, unquoteFrom, if_neg hne]
    dsimp only
    rw [hbyte]
  · simp only [List.cons_append, List.nil_append, unquoteFrom, if_true, escaped?_hexDigit]

theorem unquoteFrom_flatMap (bytes : List UInt8) : unquoteFrom 0 (bytes.flatMap quoteByte) = bytes := by
  induction bytes with
  | nil => rfl
  | cons b bytes ih => rw [List.flatMap_cons, unquoteFrom_quoteByte, ih]

/-- ASCII text is one run. -/
theorem unquoteRuns_ascii {text : List Char} (h : ∀ c ∈ text, c.toNat < 128) (run : List Char) :
    unquoteRuns run text = decode (unquoteFrom 0 (run ++ text)) := by
  induction text generalizing run with
  | nil => rw [unquoteRuns, List.append_nil]
  | cons c text ih =>
    rw [List.forall_mem_cons] at h
    rw [unquoteRuns, if_pos h.1, ih h.2, List.append_assoc, List.singleton_append]

theorem mem_quoted {text : List Char} {c : Char} (h : c ∈ (utf8 text).flatMap quoteByte) :
    (c = ' ' ∨ IsQuoted c) ∧ c ≠ '+' := by
  obtain ⟨b, -, hb⟩ := List.mem_flatMap.mp h
  exact quoteByte_chars b c hb

theorem isQuoted_of_mem_quotePlus {text : List Char} {c : Char} (h : c ∈ quotePlus text) : IsQuoted c := by
  obtain ⟨c', hc', rfl⟩ := List.mem_map.mp h
  split_ifs with hblank
  · decide
  · exact (mem_quoted hc').1.resolve_left hblank

theorem unquotePlus_quotePlus (text : List Char) : unquotePlus (quotePlus text) = text := by
  have hblanks : (quotePlus text).map (fun c => if c = '+' then ' ' else c) = (utf8 text).flatMap quoteByte := by
    rw [quotePlus, List.map_map]
    apply (List.map_congr_left _).trans (List.map_id _)
    intro c hc
    have hplus := (mem_quoted hc).2
    rw [Function.comp_apply, id_eq]
    by_cases hblank : c = ' '
    · rw [hblank]
      rfl
    · rw [if_neg hblank, if_neg hplus]
  have hascii : ∀ c ∈ (utf8 text).flatMap quoteByte, c.toNat < 128 := by
    intro c hc
    rcases (mem_quoted hc).1 with rfl | h
    · decide
    · exact h.2.1
  rw [unquotePlus, hblanks, unquoteRuns_ascii hascii, List.nil_append, unquoteFrom_flatMap, decode_utf8]

theorem unquoteFrom_eq_nil {text : List Char} : unquoteFrom 0 text = [] ↔ text = [] := by
  constructor
  · intro h
    cases text with
    | nil => rfl
    | cons c text =>
      rw [unquoteFrom] at h
      split at h <;> cases h
  · rintro rfl
    rfl

theorem unquoteRuns_eq_nil {run text : List Char} : unquoteRuns run text = [] ↔ run = [] ∧ text = [] := by
  induction text generalizing run with
  | nil => rw [unquoteRuns, decode_eq_nil, unquoteFrom_eq_nil, and_iff_left rfl]
  | cons c text ih =>
    rw [unquoteRuns]
    split_ifs
    · simp [ih]
    · simp

theorem unquotePlus_eq_nil {text : List Char} : unquotePlus text = [] ↔ text = [] := by
  rw [unquotePlus, unquoteRuns_eq_nil, List.map_eq_nil_iff, and_iff_right rfl]

/-! ## Pairs -/

/-- What is before the first `sep` and what is after it. -/
def cutAt (sep : Char) (text : List Char) : List Char × List Char :=
  (text.takeWhile (· ≠ sep), (text.dropWhile (· ≠ sep)).drop 1)

def encodePair (pair : List Char × List Char) : List Char := quotePlus pair.1 ++ '=' :: quotePlus pair.2

/-- `urlencode` of pairs. -/
def urlencode (pairs : List (List Char × List Char)) : List Char := ['&'].intercalate (pairs.map encodePair)

/-- One of the items between ampersands; a blank value is kept where `keepBlank` says so. -/
def parseItem (keepBlank : Bool) (item : List Char) : Option (List Char × List Char) :=
  if item ≠ [] ∧ ((cutAt '=' item).2 ≠ [] ∨ keepBlank) then
    some (unquotePlus (cutAt '=' item).1, unquotePlus (cutAt '=' item).2)
  else none

/-- `parse_qsl`. -/
def parseQsl (keepBlank : Bool) (query : List Char) : List (List Char × List Char) :=
  (query.splitOn '&').filterMap (parseItem keepBlank)

theorem cutAt_append {sep : Char} {text : List Char} (h : sep ∉ text) (rest : List Char) :
    cutAt sep (text ++ sep :: rest) = (text, rest) := by
  have hne : ∀ c ∈ text, (decide (c ≠ sep)) = true := by
    intro c hc
    exact decide_eq_true fun heq => h (heq ▸ hc)
  rw [cutAt, List.takeWhile_append_of_pos hne, List.dropWhile_append_of_pos hne]
  simp

theorem cutAt_of_not_mem {sep : Char} {text : List Char} (h : sep ∉ text) : cutAt sep text = (text, []) := by
  have hne : ∀ c ∈ text, (decide (c ≠ sep)) = true := by
    intro c hc
    exact decide_eq_true fun heq => h (heq ▸ hc)
  rw [cutAt, List.takeWhile_eq_self_iff.2 hne, List.dropWhile_eq_nil_iff.mpr hne]
  rfl

theorem encodePair_chars {pair : List Char × List Char} {c : Char} (h : c ∈ encodePair pair) :
    c = '=' ∨ IsQuoted c := by
  rw [encodePair, List.mem_append, List.mem_cons] at h
  rcases h with h | h | h
  · exact .inr (isQuoted_of_mem_quotePlus h)
  · exact .inl h
  · exact .inr (isQuoted_of_mem_quotePlus h)

theorem parseItem_encodePair (pair : List Char × List Char) : parseItem true (encodePair pair) = some pair := by
  have hname : '=' ∉ quotePlus pair.1 := fun h => (isQuoted_of_mem_quotePlus h).2.2.2.1 rfl
  rw [parseItem, encodePair, cutAt_append hname, if_pos (by simp), unquotePlus_quotePlus, unquotePlus_quotePlus]

/-- What was encoded is parsed, blank values included. -/
theorem parseQsl_urlencode (pairs : List (List Char × List Char)) : parseQsl true (urlencode pairs) = pairs := by
  cases pairs with
  | nil => rfl
  | cons pair pairs =>
    have hitems : ∀ item ∈ (pair :: pairs).map encodePair, '&' ∉ item := by
      intro item hitem hmem
      obtain ⟨p, -, rfl⟩ := List.mem_map.mp hitem
      rcases encodePair_chars hmem with h | h
      · exact absurd h (by decide)
      · exact h.2.2.1 rfl
    rw [parseQsl, urlencode, List.splitOn_intercalate '&' hitems (by simp), List.filterMap_map]
    have hcomp : parseItem true ∘ encodePair = some := funext parseItem_encodePair
    rw [hcomp, List.filterMap_some]

theorem urlencode_chars {pairs : List (List Char × List Char)} {c : Char} (h : c ∈ urlencode pairs) :
    c = '&' ∨ c = '=' ∨ IsQuoted c := by
  induction pairs with
  | nil => cases h
  | cons pair pairs ih =>
    cases pairs with
    | nil =>
      rw [urlencode, List.map_singleton, List.intercalate_singleton] at h
      exact .inr (encodePair_chars h)
    | cons next pairs =>
      have heq : urlencode (pair :: next :: pairs) = encodePair pair ++ '&' :: urlencode (next :: pairs) := by
        simp [urlencode, List.intercalate]
      rw [heq, List.mem_append, List.mem_cons] at h
      rcases h with h | h | h
      · exact .inr (encodePair_chars h)
      · exact .inl h
      · exact ih h

/-- Pairs with a blank value are left out, and nothing else. -/
theorem parseQsl_false (query : List Char) :
    parseQsl false query = (parseQsl true query).filter fun pair => pair.2 ≠ [] := by
  rw [parseQsl, parseQsl, List.filter_filterMap]
  congr 1
  funext item
  unfold parseItem
  by_cases hitem : item = []
  · simp [hitem]
  · by_cases hvalue : (cutAt '=' item).2 = []
    · simp [hitem, hvalue, unquotePlus_eq_nil.mpr, Option.filter]
    · simp [hitem, hvalue, unquotePlus_eq_nil, Option.filter]

end FormEncoding
