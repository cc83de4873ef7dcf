import DjangoQueues.Double
import DjangoQueues.Lib.Dict
import DjangoQueues.Text

/-! JSON values as Python writes and reads them, the Lua values `cjson` makes of them,
and the conversion there and back. Python writes an integer exactly and a float so
that it reads back unchanged; Lua has only binary64 numbers, and `cjson` prints one
with 14 significant digits. Text is represented by its syntax tree: white space and
the order of object members, which no reader here observes, are not modelled. -/

namespace DjangoQueues

open Rounding

/-- A number in JSON text, read by Python as an `int` or as a `float`. The tokens
`NaN`, `Infinity` and `-Infinity` are floats. -/
inductive PyNum where
  | int (n : ℤ)
  | float (x : Double)
deriving DecidableEq

inductive JValue (ν : Type) where
  | null
  | bool (b : Bool)
  | num (x : ν)
  | str (s : Text)
  | arr (xs : List (JValue ν))
  | obj (kvs : List (Text × JValue ν))

abbrev Json := JValue PyNum

/-- A value decoded by `cjson`: both arrays and objects are tables, `null` is `cjson.null`. -/
abbrev Lua := JValue Double

namespace JValue

variable {ν μ : Type}

mutual

def map (f : ν → μ) : JValue ν → JValue μ
  | .null => .null
  | .bool b => .bool b
  | .num x => .num (f x)
  | .str s => .str s
  | .arr xs => .arr (mapList f xs)
  | .obj kvs => .obj (mapFields f kvs)

def mapList (f : ν → μ) : List (JValue ν) → List (JValue μ)
  | [] => []
  | x :: xs => x.map f :: mapList f xs

def mapFields (f : ν → μ) : List (Text × JValue ν) → List (Text × JValue μ)
  | [] => []
  | (k, v) :: kvs => (k, v.map f) :: mapFields f kvs

end

mutual

/-- Every number in the value satisfies `p`. -/
def AllNum (p : ν → Prop) : JValue ν → Prop
  | .num x => p x
  | .arr xs => AllNumList p xs
  | .obj kvs => AllNumFields p kvs
  | _ => True

def AllNumList (p : ν → Prop) : List (JValue ν) → Prop
  | [] => True
  | x :: xs => x.AllNum p ∧ AllNumList p xs

def AllNumFields (p : ν → Prop) : List (Text × JValue ν) → Prop
  | [] => True
  | (_, v) :: kvs => v.AllNum p ∧ AllNumFields p kvs

end

mutual

/-- No empty array occurs anywhere in the value. -/
def NoEmptyArray : JValue ν → Prop
  | .arr [] => False
  | .arr (x :: xs) => x.NoEmptyArray ∧ NoEmptyArrayList xs
  | .obj kvs => NoEmptyArrayFields kvs
  | _ => True

def NoEmptyArrayList : List (JValue ν) → Prop
  | [] => True
  | x :: xs => x.NoEmptyArray ∧ NoEmptyArrayList xs

def NoEmptyArrayFields : List (Text × JValue ν) → Prop
  | [] => True
  | (_, v) :: kvs => v.NoEmptyArray ∧ NoEmptyArrayFields kvs

end

mutual

/-- How deeply arrays and objects stand in each other. -/
def nesting : JValue ν → ℕ
  | .arr xs => nestingList xs + 1
  | .obj kvs => nestingFields kvs + 1
  | _ => 0

def nestingList : List (JValue ν) → ℕ
  | [] => 0
  | x :: xs => max x.nesting (nestingList xs)

def nestingFields : List (Text × JValue ν) → ℕ
  | [] => 0
  | (_, v) :: kvs => max v.nesting (nestingFields kvs)

end

mutual

/-- No text in the value, keys included, has a lone surrogate. -/
def allPlain : JValue ν → Bool
  | .str s => s.isPlain
  | .arr xs => allPlainList xs
  | .obj kvs => allPlainFields kvs
  | _ => true

def allPlainList : List (JValue ν) → Bool
  | [] => true
  | x :: xs => x.allPlain && allPlainList xs

def allPlainFields : List (Text × JValue ν) → Bool
  | [] => true
  | (k, v) :: kvs => k.isPlain && v.allPlain && allPlainFields kvs

end

/-- Indexing a table (or a Python dict) by a string key. -/
def field? : JValue ν → Text → Option (JValue ν)
  | .obj kvs, k => kvs.lookup k
  | _, _ => none

/-- Assigning a field of a table. -/
def setField (t : JValue ν) (k : Text) (v : JValue ν) : JValue ν :=
  match t with
  | .obj kvs => .obj (Dict.setList k v kvs)
  | t => t

theorem lookup_mapFields (f : ν → μ) (kvs : List (Text × JValue ν)) (k : Text) :
    (mapFields f kvs).lookup k = (kvs.lookup k).map (map f) := by
  induction kvs with
  | nil => rfl
  | cons p kvs ih =>
    obtain ⟨k', v⟩ := p
    by_cases h : k = k'
    · simp [mapFields, h]
    · simp only [mapFields, List.lookup_cons_of_ne h, ih]

@[simp]
theorem field?_map (f : ν → μ) (t : JValue ν) (k : Text) :
    (t.map f).field? k = (t.field? k).map (map f) := by
  cases t with
  | obj kvs => exact lookup_mapFields f kvs k
  | _ => rfl

end JValue

/-! ## Numbers -/

/-- What Python compares two numbers by. -/
inductive NumValue where
  | rat (q : ℚ)
  | infinite (negative : Bool)
  | nan
deriving DecidableEq

def Double.value : Double → NumValue
  | .finite q _ => .rat q
  | .infinite b => .infinite b
  | .nan => .nan

def PyNum.value : PyNum → NumValue
  | .int n => .rat n
  | .float x => x.value

/-- Python's `==` on JSON values: numbers compare by value, and `NaN` equals nothing. -/
def PyEq (a b : Json) : Prop :=
  a.map PyNum.value = b.map PyNum.value ∧ b.AllNum fun x => x.value ≠ .nan

/-- Reading a number token into a Lua number. -/
def PyNum.toDouble : PyNum → Double
  | .int n => .ofRat n
  | .float x => x

/-- The token `%.14g` prints; it has neither point nor exponent exactly for integers below 10^14. -/
def print14 (q : ℚ) : PyNum :=
  let d := decimal14.round q
  if d.den = 1 ∧ |d| < 10 ^ 14 then .int d.num else .float (.ofRat d)

/-- Number serialisation of `cjson.encode`; an infinity or a NaN raises. -/
def Double.encode : Double → Option PyNum
  | .finite q _ => some (print14 q)
  | .infinite _ => none
  | .nan => none

theorem Double.encode_ofRat {q : ℚ} (h : |fl q| < 2 ^ 1024) :
    (Double.ofRat q).encode = some (print14 (fl q)) := by
  rw [Double.ofRat, dif_pos h]
  rfl

theorem Double.encode_ofRat_natCast {n : ℕ} (h : n < 2 ^ 53) :
    (Double.ofRat n).encode = some (print14 n) := by
  obtain ⟨hn, he⟩ := Double.ofRat_natCast h
  rw [he]
  rfl

namespace Cjson

/-- What `cjson.decode` takes: no escape of a surrogate outside a pair, and at most 1000 levels of nesting. -/
def Accepts {ν : Type} (v : JValue ν) : Prop := v.nesting ≤ 1000 ∧ v.allPlain = true

instance {ν : Type} (v : JValue ν) : Decidable (Accepts v) := inferInstanceAs (Decidable (_ ∧ _))

/-- The value that `cjson.decode` builds. -/
def table (j : Json) : Lua := j.map PyNum.toDouble

/-- `cjson.decode`, `none` where it raises. -/
def decode (j : Json) : Option Lua := if Accepts j then some (table j) else none

mutual

/-- `cjson.encode`, `none` where it raises. An empty table is written as an empty object. -/
def encode : Lua → Option Json
  | .null => some .null
  | .bool b => some (.bool b)
  | .num x => x.encode.map .num
  | .str s => some (.str s)
  | .arr [] => some (.obj [])
  | .arr (x :: xs) => (encode x).bind fun y => (encodeList xs).map fun ys => .arr (y :: ys)
  | .obj kvs => (encodeFields kvs).map .obj

def encodeList : List Lua → Option (List Json)
  | [] => some []
  | x :: xs => (encode x).bind fun y => (encodeList xs).map fun ys => y :: ys

def encodeFields : List (Text × Lua) → Option (List (Text × Json))
  | [] => some []
  | (k, v) :: kvs => (encode v).bind fun w => (encodeFields kvs).map fun ws => (k, w) :: ws

end

/-- The text of a decoded value after `cjson.encode`. -/
def recode (j : Json) : Option Json := encode (table j)

theorem lookup_encodeFields {kvs : List (Text × Lua)} {ws : List (Text × Json)}
    (h : encodeFields kvs = some ws) (k : Text) :
    ws.lookup k = (kvs.lookup k).bind encode := by
  induction kvs generalizing ws with
  | nil =>
    obtain rfl : ws = [] := by simpa [encodeFields] using h.symm
    rfl
  | cons p kvs ih =>
    obtain ⟨k', v⟩ := p
    simp only [encodeFields, Option.bind_eq_some_iff, Option.map_eq_some_iff] at h
    obtain ⟨w, hw, ws', hws, rfl⟩ := h
    by_cases hk : k = k'
    · simp [hk, hw]
    · rw [List.lookup_cons_of_ne hk, List.lookup_cons_of_ne hk, ih hws]

/-- A field read back from an encoded table is the encoded field. -/
theorem field?_table_encode {kvs : List (Text × Lua)} {raw : Json}
    (h : encode (.obj kvs) = some raw) (k : Text) :
    (table raw).field? k = ((kvs.lookup k).bind encode).map table := by
  rw [encode, Option.map_eq_some_iff] at h
  obtain ⟨ws, hws, rfl⟩ := h
  rw [table, JValue.field?_map, JValue.field?, lookup_encodeFields hws k]
  rfl

/-! ## What `cjson.decode` refuses -/

theorem decode_eq_some {j : Json} {t : Lua} : decode j = some t ↔ Accepts j ∧ table j = t := by
  unfold decode
  split_ifs with h <;> simp [h]

theorem decode_of_accepts {j : Json} (h : Accepts j) : decode j = some (table j) := if_pos h

theorem decode_eq_none {j : Json} : decode j = none ↔ ¬Accepts j := by simp [decode]

section Same

open JValue

mutual

theorem nesting_map {ν μ : Type} (f : ν → μ) : ∀ v : JValue ν, (v.map f).nesting = v.nesting
  | .null | .bool _ | .num _ | .str _ => rfl
  | .arr xs => congrArg (· + 1) (nesting_mapList f xs)
  | .obj kvs => congrArg (· + 1) (nesting_mapFields f kvs)

theorem nesting_mapList {ν μ : Type} (f : ν → μ) : ∀ xs : List (JValue ν), nestingList (mapList f xs) = nestingList xs
  | [] => rfl
  | x :: xs => congrArg₂ max (nesting_map f x) (nesting_mapList f xs)

theorem nesting_mapFields {ν μ : Type} (f : ν → μ) :
    ∀ kvs : List (Text × JValue ν), nestingFields (mapFields f kvs) = nestingFields kvs
  | [] => rfl
  | (_, v) :: kvs => congrArg₂ max (nesting_map f v) (nesting_mapFields f kvs)

end

mutual

theorem allPlain_map {ν μ : Type} (f : ν → μ) : ∀ v : JValue ν, (v.map f).allPlain = v.allPlain
  | .null | .bool _ | .num _ | .str _ => rfl
  | .arr xs => allPlain_mapList f xs
  | .obj kvs => allPlain_mapFields f kvs

theorem allPlain_mapList {ν μ : Type} (f : ν → μ) :
    ∀ xs : List (JValue ν), allPlainList (mapList f xs) = allPlainList xs
  | [] => rfl
  | x :: xs => congrArg₂ (· && ·) (allPlain_map f x) (allPlain_mapList f xs)

theorem allPlain_mapFields {ν μ : Type} (f : ν → μ) :
    ∀ kvs : List (Text × JValue ν), allPlainFields (mapFields f kvs) = allPlainFields kvs
  | [] => rfl
  | (k, v) :: kvs =>
    congrArg₂ (· && ·) (congrArg (k.isPlain && ·) (allPlain_map f v)) (allPlain_mapFields f kvs)

end

mutual

/-- `cjson.encode` keeps the texts and the nesting. -/
theorem shape_encode : ∀ (t : Lua) {j : Json}, encode t = some j → j.nesting = t.nesting ∧ j.allPlain = t.allPlain
  | .null, _, h | .bool _, _, h | .str _, _, h | .arr [], _, h => by
    obtain rfl := Option.some.inj h
    exact ⟨rfl, rfl⟩
  | .num _, _, h => by
    obtain ⟨_, -, rfl⟩ := Option.map_eq_some_iff.mp h
    exact ⟨rfl, rfl⟩
  | .arr (x :: xs), _, h => by
    rw [encode, Option.bind_eq_some_iff] at h
    obtain ⟨y, hy, h⟩ := h
    obtain ⟨ys, hys, rfl⟩ := Option.map_eq_some_iff.mp h
    have h₁ := shape_encode x hy
    have h₂ := shape_encodeList xs hys
    simp only [nesting, nestingList, allPlain, allPlainList, h₁, h₂, and_self]
  | .obj kvs, _, h => by
    obtain ⟨ws, hws, rfl⟩ := Option.map_eq_some_iff.mp h
    have h₁ := shape_encodeFields kvs hws
    simp only [nesting, allPlain, h₁, and_self]

theorem shape_encodeList : ∀ (ts : List Lua) {js : List Json}, encodeList ts = some js →
    nestingList js = nestingList ts ∧ allPlainList js = allPlainList ts
  | [], _, h => by
    obtain rfl := Option.some.inj h
    exact ⟨rfl, rfl⟩
  | x :: xs, _, h => by
    rw [encodeList, Option.bind_eq_some_iff] at h
    obtain ⟨y, hy, h⟩ := h
    obtain ⟨ys, hys, rfl⟩ := Option.map_eq_some_iff.mp h
    have h₁ := shape_encode x hy
    have h₂ := shape_encodeList xs hys
    simp only [nestingList, allPlainList, h₁, h₂, and_self]

theorem shape_encodeFields : ∀ (kvs : List (Text × Lua)) {ws : List (Text × Json)}, encodeFields kvs = some ws →
    nestingFields ws = nestingFields kvs ∧ allPlainFields ws = allPlainFields kvs
  | [], _, h => by
    obtain rfl := Option.some.inj h
    exact ⟨rfl, rfl⟩
  | (k, v) :: kvs, _, h => by
    rw [encodeFields, Option.bind_eq_some_iff] at h
    obtain ⟨y, hy, h⟩ := h
    obtain ⟨ws, hws, rfl⟩ := Option.map_eq_some_iff.mp h
    have h₁ := shape_encode v hy
    have h₂ := shape_encodeFields kvs hws
    simp only [nestingFields, allPlainFields, h₁, h₂, and_self]

end

theorem nesting_recode {j w : Json} (h : recode j = some w) : w.nesting = j.nesting :=
  (shape_encode (table j) h).1.trans (nesting_map _ j)

theorem accepts_table {j : Json} : Accepts (table j) ↔ Accepts j := by
  rw [Accepts, Accepts, table, nesting_map, allPlain_map]

theorem accepts_of_decode {j : Json} {t : Lua} (h : decode j = some t) : Accepts t := by
  obtain ⟨hj, rfl⟩ := decode_eq_some.mp h
  exact accepts_table.mpr hj

/-- What `cjson` writes of a decoded value it decodes again. -/
theorem accepts_encode {t : Lua} {j : Json} (h : encode t = some j) : Accepts j ↔ Accepts t := by
  rw [Accepts, Accepts, (shape_encode t h).1, (shape_encode t h).2]

theorem decode_encode {t : Lua} {j : Json} (ht : Accepts t) (h : encode t = some j) : decode j = some (table j) :=
  decode_of_accepts ((accepts_encode h).mpr ht)

theorem nestingFields_le {ν : Type} {n : ℕ} {kvs : List (Text × JValue ν)} :
    nestingFields kvs ≤ n ↔ ∀ p ∈ kvs, p.2.nesting ≤ n := by
  induction kvs with
  | nil => simp [nestingFields]
  | cons p kvs ih => rw [nestingFields, max_le_iff, ih, List.forall_mem_cons]

theorem allPlainFields_iff {ν : Type} {kvs : List (Text × JValue ν)} :
    allPlainFields kvs = true ↔ ∀ p ∈ kvs, p.1.isPlain = true ∧ p.2.allPlain = true := by
  induction kvs with
  | nil => simp [allPlainFields]
  | cons p kvs ih => rw [allPlainFields, Bool.and_eq_true, Bool.and_eq_true, ih, List.forall_mem_cons]

theorem accepts_obj {ν : Type} {kvs : List (Text × JValue ν)} :
    Accepts (.obj kvs) ↔ ∀ p ∈ kvs, p.2.nesting < 1000 ∧ p.1.isPlain = true ∧ p.2.allPlain = true := by
  have hnest : (JValue.obj kvs).nesting ≤ 1000 ↔ ∀ p ∈ kvs, p.2.nesting < 1000 := by
    have hle : nestingFields kvs ≤ 999 ↔ _ := nestingFields_le
    rw [nesting, Nat.succ_le_succ_iff, hle]
    exact forall₂_congr fun p _ => Nat.lt_succ_iff.symm
  rw [Accepts, hnest, allPlain, allPlainFields_iff]
  exact ⟨fun h p hp => ⟨h.1 p hp, h.2 p hp⟩, fun h => ⟨fun p hp => (h p hp).1, fun p hp => (h p hp).2⟩⟩

/-- Assigning a field with a value of no nesting keeps a table acceptable. -/
theorem accepts_setField {t : Lua} (h : Accepts t) {k : String} {v : Lua} (hn : v.nesting = 0)
    (hp : v.allPlain = true) : Accepts (t.setField k v) := by
  cases t with
  | obj kvs =>
    apply accepts_obj.mpr
    intro p hmem
    rcases Dict.mem_of_mem_setList hmem with rfl | hold
    · exact ⟨by simp only [hn]; norm_num, rfl, hp⟩
    · exact accepts_obj.mp h p hold
  | _ => exact h

end Same

end Cjson

end DjangoQueues
