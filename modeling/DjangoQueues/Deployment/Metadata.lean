import Mathlib.Tactic
import Mathlib.Data.List.DropRight

/-! The version metadata in the source of the bundled function library, and its two readers: the pattern that the
package searches its own resource with, and the lines that the management command reads from `FUNCTION LIST`. -/

namespace DjangoQueues

abbrev Bytes := List UInt8

/-- The bytes of an ASCII literal. -/
def asciiBytes (s : String) : Bytes := s.toList.map fun c => UInt8.ofNat c.toNat

namespace Bytes

def isDigit (b : UInt8) : Bool := 48 ≤ b && b ≤ 57

def isSpace (b : UInt8) : Bool := b = 32 || (9 ≤ b && b ≤ 13)

/-- `splitlines` of bytes. `line` is what the current line has so far, and `cr` says that a carriage return ended the
one before it, so that a line feed would still belong to that end. -/
def splitlinesFrom (cr : Bool) (line : Bytes) : Bytes → List Bytes
  | [] => if line = [] then [] else [line]
  | b :: rest =>
    if b = 10 then if cr then splitlinesFrom false [] rest else line :: splitlinesFrom false [] rest
    else if b = 13 then line :: splitlinesFrom true [] rest
    else splitlinesFrom false (line ++ [b]) rest

def splitlines (source : Bytes) : List Bytes := splitlinesFrom false [] source

/-- `decode("ascii")`. -/
def decodeAscii? (b : Bytes) : Option String :=
  if b.all fun x => x < 128 then some (String.ofList (b.map fun x => Char.ofNat x.toNat)) else none

/-- Whether `decode("utf-8")` succeeds. -/
def decodesUtf8 (b : Bytes) : Bool := (ByteArray.mk b.toArray).validateUTF8

/-- The decimal digits that `int` reads, with single underscores between them, and the bytes after them. -/
def digitRun : Bool → Bytes → Option (List ℕ × Bytes)
  | underscore, [] => if underscore then none else some ([], [])
  | underscore, b :: bs =>
    if b = 95 then if underscore then none else digitRun true bs
    else if isDigit b then (digitRun false bs).map fun p => ((b.toNat - 48) :: p.1, p.2)
    else if underscore then none
    else some ([], b :: bs)

/-- The default of `sys.set_int_max_str_digits`. -/
def maxStrDigits : ℕ := 4300

def natOfDigits (ds : List ℕ) : ℕ := ds.foldl (fun n d => 10 * n + d) 0

/-- `int` of bytes without their sign; `none` where it raises `ValueError`. -/
def unsigned? (b : Bytes) : Option ℕ :=
  if b.head? = some 95 then none
  else
    match digitRun false b with
    | some (d :: ds, rest) =>
      if rest.all isSpace && (d :: ds).length ≤ maxStrDigits then some (natOfDigits (d :: ds)) else none
    | _ => none

/-- `int` of bytes. -/
def int? (b : Bytes) : Option ℤ :=
  match b.dropWhile isSpace with
  | [] => none
  | c :: rest =>
    if c = 45 then (unsigned? rest).map fun n => -(n : ℤ)
    else if c = 43 then (unsigned? rest).map fun n => (n : ℤ)
    else (unsigned? (c :: rest)).map fun n => (n : ℤ)

end Bytes

open Bytes

def versionMark : Bytes := asciiBytes "-- django-queues-library-version: "

def apiMark : Bytes := asciiBytes "-- django-queues-api-version: "

/-- The source and compatibility metadata of the bundled library. -/
structure FunctionLibrary where
  name : String
  source : Bytes
  libraryVersion : String
  apiVersion : ℤ
deriving DecidableEq

/-- What a failed command or a failed import raises. -/
inductive MetadataError where
  | commandError (message : String)
  | runtimeError (message : String)
  | valueError
  | typeError
  | unicodeDecodeError
deriving DecidableEq

/-! ## The bundled resource -/

/-- `\d{6}_\d{6}`. -/
def isLibraryVersion (v : Bytes) : Bool :=
  v.length = 13 && (v.take 6).all isDigit && v[6]? = some 95 && (v.drop 7).all isDigit

/-- What follows a mark. -/
def afterMark? (mark source : Bytes) : Option Bytes :=
  if mark.isPrefixOf source then some (source.drop mark.length) else none

/-- `_METADATA_PATTERN` at the start of a line: the two groups. The digits of the second one end at a line feed, so
the greedy run of them is the only one to try. -/
def matchMetadata (source : Bytes) : Option (Bytes × Bytes) :=
  match afterMark? versionMark source with
  | none => none
  | some rest =>
    match afterMark? (10 :: apiMark) (rest.drop 13) with
    | none => none
    | some api =>
      if isLibraryVersion (rest.take 13) ∧ api.takeWhile isDigit ≠ [] ∧ api[(api.takeWhile isDigit).length]? = some 10
      then some (rest.take 13, api.takeWhile isDigit)
      else none

/-- `search`: the first line start at which the pattern matches. -/
def searchMetadata : Bool → Bytes → Option (Bytes × Bytes)
  | _, [] => none
  | lineStart, b :: rest =>
    if lineStart then (matchMetadata (b :: rest)).or (searchMetadata (b = 10) rest)
    else searchMetadata (b = 10) rest

/-- `load_function_library`, of the bytes of `library.lua`. -/
def loadFunctionLibrary (source : Bytes) : Except MetadataError FunctionLibrary :=
  match searchMetadata true source with
  | none => .error (.runtimeError "Bundled Redis Function library has invalid metadata")
  | some (version, digits) =>
    match int? digits with
    | none => .error .valueError
    | some api => .ok ⟨"django_queues", source, (decodeAscii? version).getD "", api⟩

/-! ## The installed library -/

/-- What a client may return for a reply of `FUNCTION LIST`. -/
inductive RedisValue where
  | str (s : String)
  | bytes (b : Bytes)
  | int (n : ℤ)
  | null
  | list (vs : List RedisValue)
  | map (ps : List (RedisValue × RedisValue))

namespace RedisValue

def isHashable : RedisValue → Bool
  | list _ => false
  | map _ => false
  | _ => true

def isStr (s : String) : RedisValue → Bool
  | str s' => s' = s
  | _ => false

def isBytes (b : Bytes) : RedisValue → Bool
  | bytes b' => b' = b
  | _ => false

/-- The pairs of a flattened list. -/
def pairs : List RedisValue → List (RedisValue × RedisValue)
  | k :: v :: rest => (k, v) :: pairs rest
  | _ => []

/-- The value under a key: the pair written last is the one a `dict` keeps. -/
def get? (isKey : RedisValue → Bool) (ps : List (RedisValue × RedisValue)) : Option RedisValue :=
  (ps.reverse.find? fun p => isKey p.1).map Prod.snd

end RedisValue

def invalidMetadata : MetadataError := .commandError "Redis Function library returned invalid library metadata."

/-- `_mapping_from_redis`. A key that cannot be hashed raises where the list is read into a `dict`. -/
def mappingFromRedis : RedisValue → Except MetadataError (Option (List (RedisValue × RedisValue)))
  | .map ps => .ok (some ps)
  | .list vs =>
    if 2 ≤ vs.length ∧ vs.length % 2 = 0 then
      if (RedisValue.pairs vs).all fun p => p.1.isHashable then .ok (some (RedisValue.pairs vs)) else .error .typeError
    else .ok none
  | _ => .ok none

/-- The versions that the first line with each mark carries. -/
def readMarkedLines (lines : List Bytes) : Except MetadataError (String × ℤ) :=
  match lines.find? versionMark.isPrefixOf, lines.find? apiMark.isPrefixOf with
  | some versionLine, some apiLine =>
    match decodeAscii? (versionLine.drop versionMark.length), int? (apiLine.drop apiMark.length) with
    | some version, some api => if version = "" then .error invalidMetadata else .ok (version, api)
    | _, _ => .error invalidMetadata
  | _, _ => .error invalidMetadata

/-- The source among the values of a library's mapping, as bytes. -/
def libraryCode (ps : List (RedisValue × RedisValue)) : Option Bytes :=
  let code := match RedisValue.get? (RedisValue.isStr "library_code") ps with
    | some v => some v
    | none => RedisValue.get? (RedisValue.isBytes (asciiBytes "library_code")) ps
  match code with
  | some (.str s) => some s.toUTF8.toList
  | some (.bytes b) => some b
  | _ => none

/-- `read_installed_library_info`. -/
def readInstalledLibraryInfo : RedisValue → Except MetadataError (String × ℤ)
  | .list [library] => do
    match ← mappingFromRedis library with
    | none => .error invalidMetadata
    | some ps =>
      match libraryCode ps with
      | none => .error invalidMetadata
      | some source => readMarkedLines source.splitlines
  | _ => .error invalidMetadata

/-- A reply of `FUNCTION LIST LIBRARYNAME django_queues WITHCODE`: a map or a flattened list, by the protocol version of
the connection. -/
def functionListReply (resp3 : Bool) (functions : RedisValue) (source : Bytes) : RedisValue :=
  let name (s : String) : RedisValue := .bytes (asciiBytes s)
  let fields := [(name "library_name", name "django_queues"), (name "engine", name "LUA"),
    (name "functions", functions), (name "library_code", .bytes source)]
  .list [if resp3 then .map fields else .list (fields.flatMap fun p => [p.1, p.2])]

/-! ## Lines -/

namespace Bytes

theorem splitlinesFrom_append {before rest : Bytes} (h : before.getLast? = some 10) (cr : Bool) (line : Bytes) :
    splitlinesFrom cr line (before ++ rest) = splitlinesFrom cr line before ++ splitlines rest := by
  induction before generalizing cr line with
  | nil => cases h
  | cons b before ih =>
    cases before with
    | nil =>
      -- the line feed that ends the text before
      obtain rfl : b = 10 := by simpa using h
      cases cr <;> rfl
    | cons c before =>
      rw [List.getLast?_cons_cons] at h
      rw [List.cons_append, splitlinesFrom, splitlinesFrom]
      split_ifs
      · exact ih h _ _
      · rw [ih h, List.cons_append]
      · rw [ih h, List.cons_append]
      · exact ih h _ _

/-- Text that ends with a line feed, or is empty, has no part in the lines after it. -/
theorem splitlines_append {before : Bytes} (rest : Bytes) (h : before = [] ∨ before.getLast? = some 10) :
    splitlines (before ++ rest) = splitlines before ++ splitlines rest := by
  rcases h with rfl | h
  · rfl
  · exact splitlinesFrom_append h false []

theorem splitlinesFrom_line {line : Bytes} (h : ∀ b ∈ line, b ≠ 10 ∧ b ≠ 13) (start rest : Bytes) :
    splitlinesFrom false start (line ++ 10 :: rest) = (start ++ line) :: splitlines rest := by
  induction line generalizing start with
  | nil =>
    rw [List.append_nil]
    rfl
  | cons b line ih =>
    rw [List.forall_mem_cons] at h
    rw [List.cons_append, splitlinesFrom, if_neg h.1.1, if_neg h.1.2, ih h.2, List.append_assoc]
    rfl

theorem splitlines_line {line : Bytes} (h : ∀ b ∈ line, b ≠ 10 ∧ b ≠ 13) (rest : Bytes) :
    splitlines (line ++ 10 :: rest) = line :: splitlines rest :=
  splitlinesFrom_line h [] rest

theorem ne_of_isDigit {b : UInt8} (h : isDigit b = true) : b ≠ 10 ∧ b ≠ 13 := by
  constructor
  · rintro rfl
    cases h
  · rintro rfl
    cases h

theorem lt_of_isDigit {b : UInt8} (h : isDigit b = true) : b < 128 := by
  rw [isDigit, Bool.and_eq_true, decide_eq_true_eq, decide_eq_true_eq] at h
  exact UInt8.lt_of_le_of_lt h.2 (Nat.le_of_ble_eq_true rfl)

end Bytes

/-! ## The pattern -/

/-- The thirteen bytes of a library version. -/
theorem isLibraryVersion_mem {v : Bytes} (h : isLibraryVersion v = true) :
    v.length = 13 ∧ ∀ b ∈ v, isDigit b = true ∨ b = 95 := by
  simp only [isLibraryVersion, Bool.and_eq_true, decide_eq_true_eq, List.all_eq_true] at h
  obtain ⟨⟨⟨hlength, hfirst⟩, hmid⟩, hlast⟩ := h
  refine ⟨hlength, fun b hb => ?_⟩
  have hsplit : v = v.take 6 ++ 95 :: v.drop 7 := by
    obtain ⟨hlt, hv⟩ := List.getElem?_eq_some_iff.mp hmid
    rw [← hv, List.getElem_cons_drop, List.take_append_drop]
  rw [hsplit, List.mem_append, List.mem_cons] at hb
  rcases hb with hb | hb | hb
  · exact .inl (hfirst b hb)
  · exact .inr hb
  · exact .inl (hlast b hb)

/-- The two lines that the pattern matches. -/
def metadataLines (version digits : Bytes) : Bytes := versionMark ++ version ++ 10 :: (apiMark ++ digits ++ [10])

theorem afterMark?_eq_some {mark source rest : Bytes} (h : afterMark? mark source = some rest) :
    source = mark ++ rest := by
  unfold afterMark? at h
  split_ifs at h with hmark
  cases h
  exact (List.prefix_iff_eq_append.mp (List.isPrefixOf_iff_prefix.mp hmark)).symm

theorem append_of_getElem? {first second : Bytes} {b : UInt8} (h : (first ++ second)[first.length]? = some b) :
    ∃ rest, second = b :: rest := by
  rw [List.getElem?_append_right le_rfl, Nat.sub_self] at h
  cases second with
  | nil => cases h
  | cons c rest =>
    cases h
    exact ⟨rest, rfl⟩

theorem takeWhile_append_of_getElem? {p : UInt8 → Bool} {bs : Bytes} {b : UInt8}
    (h : bs[(bs.takeWhile p).length]? = some b) : ∃ rest, bs = bs.takeWhile p ++ b :: rest := by
  obtain ⟨rest, hrest⟩ := append_of_getElem? (
    show (bs.takeWhile p ++ bs.dropWhile p)[(bs.takeWhile p).length]? = some b by rw [List.takeWhile_append_dropWhile, h])
  exact ⟨rest, by rw [← hrest, List.takeWhile_append_dropWhile]⟩

theorem matchMetadata_eq_some {source version digits : Bytes} (h : matchMetadata source = some (version, digits)) :
    isLibraryVersion version = true ∧ (∀ b ∈ digits, isDigit b = true) ∧
      ∃ rest, source = metadataLines version digits ++ rest := by
  unfold matchMetadata at h
  split at h
  · cases h
  · next after hafter =>
    split at h
    · cases h
    · next api hapi =>
      split_ifs at h with hif
      cases h
      obtain ⟨rest, hrest⟩ := takeWhile_append_of_getElem? hif.2.2
      refine ⟨hif.1, fun b hb => List.mem_takeWhile_imp hb, rest, ?_⟩
      calc source = versionMark ++ (after.take 13 ++ after.drop 13) := by
            rw [List.take_append_drop]
            exact afterMark?_eq_some hafter
        _ = versionMark ++ (after.take 13 ++ (10 :: apiMark ++ (api.takeWhile isDigit ++ 10 :: rest))) := by
            rw [afterMark?_eq_some hapi, ← hrest]
        _ = metadataLines (after.take 13) (api.takeWhile isDigit) ++ rest := by
            simp only [metadataLines, List.append_assoc, List.cons_append, List.nil_append]

/-- The pattern matches at the start of the text or after a line feed. -/
theorem searchMetadata_eq_some {lineStart : Bool} {source version digits : Bytes}
    (h : searchMetadata lineStart source = some (version, digits)) :
    isLibraryVersion version = true ∧ (∀ b ∈ digits, isDigit b = true) ∧
      ∃ before rest, source = before ++ (metadataLines version digits ++ rest) ∧
        (before = [] ∧ lineStart = true ∨ before.getLast? = some 10) := by
  induction source generalizing lineStart with
  | nil => cases h
  | cons b source ih =>
    -- the search goes on behind this byte
    have hnext (h : searchMetadata (b = 10) source = some (version, digits)) :
        isLibraryVersion version = true ∧ (∀ b ∈ digits, isDigit b = true) ∧
          ∃ before rest, b :: source = before ++ (metadataLines version digits ++ rest) ∧
            (before = [] ∧ lineStart = true ∨ before.getLast? = some 10) := by
      obtain ⟨hversion, hdigits, before, rest, rfl, hbefore⟩ := ih h
      refine ⟨hversion, hdigits, b :: before, rest, rfl, .inr ?_⟩
      rcases hbefore with ⟨rfl, hb⟩ | hlast
      · rw [of_decide_eq_true hb]
        rfl
      · rw [List.getLast?_cons, hlast]
        rfl
    rw [searchMetadata] at h
    split_ifs at h with hstart
    · rcases Option.or_eq_some_iff.mp h with h | ⟨-, h⟩
      · obtain ⟨hversion, hdigits, rest, hsource⟩ := matchMetadata_eq_some h
        exact ⟨hversion, hdigits, [], rest, hsource, .inl ⟨rfl, hstart⟩⟩
      · exact hnext h
    · exact hnext h

/-! ## What the command reads of a bundled source -/

theorem versionMark_mem : ∀ b ∈ versionMark, b ≠ 10 ∧ b ≠ 13 := by
  have h : versionMark.all (fun b => b ≠ 10 ∧ b ≠ 13) = true := by decide +kernel
  exact fun b hb => of_decide_eq_true (List.all_eq_true.mp h b hb)

theorem apiMark_mem : ∀ b ∈ apiMark, b ≠ 10 ∧ b ≠ 13 := by
  have h : apiMark.all (fun b => b ≠ 10 ∧ b ≠ 13) = true := by decide +kernel
  exact fun b hb => of_decide_eq_true (List.all_eq_true.mp h b hb)

theorem splitlines_metadataLines {version digits : Bytes} (hversion : isLibraryVersion version = true)
    (hdigits : ∀ b ∈ digits, isDigit b = true) (rest : Bytes) :
    splitlines (metadataLines version digits ++ rest) =
      (versionMark ++ version) :: (apiMark ++ digits) :: splitlines rest := by
  have hfirst : ∀ b ∈ versionMark ++ version, b ≠ 10 ∧ b ≠ 13 := by
    intro b hb
    rcases List.mem_append.mp hb with hb | hb
    · exact versionMark_mem b hb
    · rcases (isLibraryVersion_mem hversion).2 b hb with hb | rfl
      · exact ne_of_isDigit hb
      · decide
  have hsecond : ∀ b ∈ apiMark ++ digits, b ≠ 10 ∧ b ≠ 13 := by
    intro b hb
    rcases List.mem_append.mp hb with hb | hb
    · exact apiMark_mem b hb
    · exact ne_of_isDigit (hdigits b hb)
  calc splitlines (metadataLines version digits ++ rest)
      = splitlines (versionMark ++ version ++ 10 :: (apiMark ++ digits ++ 10 :: rest)) := by
        simp only [metadataLines, List.append_assoc, List.cons_append, List.nil_append]
    _ = (versionMark ++ version) :: (apiMark ++ digits) :: splitlines rest := by
        rw [splitlines_line hfirst, splitlines_line hsecond]

theorem isPrefixOf_apiMark_versionMark (version : Bytes) : apiMark.isPrefixOf (versionMark ++ version) = false := rfl

theorem isPrefixOf_append_self (a b : Bytes) : a.isPrefixOf (a ++ b) = true :=
  List.isPrefixOf_iff_prefix.mpr (List.prefix_append a b)

theorem decodeAscii?_libraryVersion {version : Bytes} (h : isLibraryVersion version = true) :
    ∃ text, decodeAscii? version = some text ∧ text ≠ "" := by
  obtain ⟨hlength, hmem⟩ := isLibraryVersion_mem h
  have hascii : (version.all fun x => x < 128) = true := by
    rw [List.all_eq_true]
    intro b hb
    rcases hmem b hb with hb | rfl
    · exact decide_eq_true (lt_of_isDigit hb)
    · rfl
  refine ⟨_, if_pos hascii, fun hempty => ?_⟩
  have hnil : version.map (fun x => Char.ofNat x.toNat) = [] := by
    rw [← String.toList_ofList (l := version.map _), hempty]
    rfl
  rw [List.map_eq_nil_iff.mp hnil] at hlength
  cases hlength

theorem readInstalledLibraryInfo_functionListReply (resp3 : Bool) (functions : RedisValue) (source : Bytes) :
    readInstalledLibraryInfo (functionListReply resp3 functions source) = readMarkedLines source.splitlines := by
  cases resp3 with
  | true => rfl
  | false =>
    simp only [readInstalledLibraryInfo, functionListReply, mappingFromRedis, Bool.false_eq_true, if_false,
      List.flatMap_cons, List.flatMap_nil, List.append_nil, List.cons_append, List.nil_append, List.length_cons,
      List.length_nil, RedisValue.pairs, Nat.reduceAdd, Nat.reduceMod, Nat.reduceLeDiff, true_and, if_true]
    rfl

/-- The versions in the first lines with the marks, if there are any, are these. -/
def AgreesWith (lines : List Bytes) (version : String) (api : ℤ) : Prop :=
  (∀ line, lines.find? versionMark.isPrefixOf = some line →
    decodeAscii? (line.drop versionMark.length) = some version) ∧
  ∀ line, lines.find? apiMark.isPrefixOf = some line → int? (line.drop apiMark.length) = some api

theorem readMarkedLines_eq_ok_iff {lines : List Bytes} {version : String} {api : ℤ} :
    readMarkedLines lines = .ok (version, api) ↔
      version ≠ "" ∧ AgreesWith lines version api ∧ (lines.find? versionMark.isPrefixOf).isSome ∧
        (lines.find? apiMark.isPrefixOf).isSome := by
  unfold readMarkedLines AgreesWith
  cases hversion : lines.find? versionMark.isPrefixOf with
  | none => simp
  | some versionLine =>
    cases hapi : lines.find? apiMark.isPrefixOf with
    | none => simp
    | some apiLine =>
      cases hdecode : decodeAscii? (versionLine.drop versionMark.length) with
      | none => simp [hdecode]
      | some text =>
        cases hint : int? (apiLine.drop apiMark.length) with
        | none => simp [hdecode, hint]
        | some n =>
          by_cases hempty : text = ""
          · simp [hdecode, hint, hempty]
            grind
          · simp [hdecode, hint, hempty]
            grind

theorem find?_versionMark (lines rest : List Bytes) (version : Bytes) :
    (lines ++ (versionMark ++ version) :: rest).find? versionMark.isPrefixOf =
      (lines.find? versionMark.isPrefixOf).or (some (versionMark ++ version)) := by
  rw [List.find?_append, List.find?_cons_of_pos (isPrefixOf_append_self versionMark version)]

theorem find?_apiMark (lines rest : List Bytes) (version digits : Bytes) :
    (lines ++ (versionMark ++ version) :: (apiMark ++ digits) :: rest).find? apiMark.isPrefixOf =
      (lines.find? apiMark.isPrefixOf).or (some (apiMark ++ digits)) := by
  rw [List.find?_append, List.find?_cons_of_neg, List.find?_cons_of_pos (isPrefixOf_append_self apiMark digits)]
  rw [isPrefixOf_apiMark_versionMark]
  exact Bool.false_ne_true

/-- The marked pair decides only where no line before it has a mark. -/
theorem agreesWith_append_iff {lines rest : List Bytes} {version digits : Bytes} {text : String} {api : ℤ}
    (hversion : decodeAscii? version = some text) (hdigits : int? digits = some api) :
    AgreesWith (lines ++ (versionMark ++ version) :: (apiMark ++ digits) :: rest) text api ↔
      AgreesWith lines text api := by
  unfold AgreesWith
  rw [find?_versionMark, find?_apiMark]
  apply and_congr
  · cases lines.find? versionMark.isPrefixOf with
    | some line => rfl
    | none => simp [hversion]
  · cases lines.find? apiMark.isPrefixOf with
    | some line => rfl
    | none => simp [hdigits]

/-- The package's own reading of its resource, and what the command reads of the same bytes once they are installed:
the lines before the pair that the pattern found decide whether the two agree. -/
theorem bundled_metadata_read_back {source : Bytes} {library : FunctionLibrary}
    (h : loadFunctionLibrary source = .ok library) :
    ∃ before version digits rest, source = before ++ (metadataLines version digits ++ rest) ∧
      (before = [] ∨ before.getLast? = some 10) ∧ library.source = source ∧
      decodeAscii? version = some library.libraryVersion ∧ int? digits = some library.apiVersion ∧
      ∀ resp3 functions, (readInstalledLibraryInfo (functionListReply resp3 functions source) =
          .ok (library.libraryVersion, library.apiVersion) ↔
        AgreesWith before.splitlines library.libraryVersion library.apiVersion) := by
  unfold loadFunctionLibrary at h
  split at h
  · cases h
  · next version digits hsearch =>
    split at h
    · cases h
    · next api hint =>
      cases h
      obtain ⟨hversion, hdigits, before, rest, rfl, hbefore⟩ := searchMetadata_eq_some hsearch
      obtain ⟨text, htext, hne⟩ := decodeAscii?_libraryVersion hversion
      have hstart : before = [] ∨ before.getLast? = some 10 := hbefore.imp_left And.left
      refine ⟨before, version, digits, rest, rfl, hstart, rfl, ?_, hint, fun resp3 functions => ?_⟩
      · rw [htext]
        rfl
      · rw [readInstalledLibraryInfo_functionListReply, readMarkedLines_eq_ok_iff, splitlines_append _ hstart,
          splitlines_metadataLines hversion hdigits, find?_versionMark, find?_apiMark]
        simp only [htext, Option.getD_some, agreesWith_append_iff htext hint]
        simp [hne]

/-- A source with a shebang line before its metadata. -/
def headerSource : Bytes :=
  asciiBytes "#!lua name=django_queues\n" ++ metadataLines (asciiBytes "260827_204500") (asciiBytes "1")

theorem loadFunctionLibrary_headerSource :
    loadFunctionLibrary headerSource = .ok ⟨"django_queues", headerSource, "260827_204500", 1⟩ := by
  decide +kernel

theorem bundled_metadata_read_back_headerSource :
    ∃ before version digits rest, headerSource = before ++ (metadataLines version digits ++ rest) ∧
      decodeAscii? version = some "260827_204500" ∧ int? digits = some 1 ∧
      (readInstalledLibraryInfo (functionListReply false .null headerSource) = .ok ("260827_204500", 1) ↔
        AgreesWith before.splitlines "260827_204500" 1) := by
  obtain ⟨before, version, digits, rest, hsource, -, -, hversion, hdigits, hread⟩ :=
    bundled_metadata_read_back loadFunctionLibrary_headerSource
  exact ⟨before, version, digits, rest, hsource, hversion, hdigits, hread false .null⟩

end DjangoQueues
