import DjangoQueues.Identities
import DjangoQueues.Lib.Glob

/-! The Redis keys of the queues, as the provider and the Function library build them, and the patterns with which
they are scanned. -/

namespace DjangoQueues.Redis.Keys

/-! ## Aliases and ids -/

def queueAliasCharacters : List Char :=
  "abcdefghijklmnopqrstuvwxyzABCDEFGHIJKLMNOPQRSTUVWXYZ0123456789_-".toList

def validateQueueAlias (name : String) : Except String String :=
  if name = "" then .error ("Queue alias '" ++ name ++ "' must be a non-empty string")
  else if name.toList.any fun c => c ∉ queueAliasCharacters then
    .error ("Queue alias '" ++ name ++ "' must contain only ASCII letters, digits, _, or -")
  else .ok name

/-- An alias that is accepted. -/
structure QueueAlias where
  name : String
  valid : validateQueueAlias name = .ok name

/-- A UUID of any version. -/
structure Uuid where
  digits : List (Fin 16)
  length_digits : digits.length = 32

/-- `str` of it. -/
def Uuid.text (id : Uuid) : List Char := EntryId.canonicalText id.digits

/-! ## Keys -/

/-- What a key is used for. -/
inductive Role where
  | rawStore
  | record (id : Uuid)
  | claim (id : Uuid)
  | pending
  | priority
  | sequence
  | delayed
  | scheduled
  | claimLeases
  | unclaimedLeases
  | notification (id : Uuid)
  | notificationLease (id : Uuid)
  | notificationDeadlines

/-- `_queue_name`: the alias in braces. -/
def queueName (a : QueueAlias) : List Char := '\x7b' :: (a.name.toList ++ ['\x7d'])

/-- What stands after the queue's name. -/
def Role.suffix : Role → List Char
  | rawStore => []
  | record id => ":entries:".toList ++ id.text
  | claim id => ":entries:claims:".toList ++ id.text
  | pending => ":entries:pending".toList
  | priority => ":entries:pending:priority".toList
  | sequence => ":entries:pending:priority:sequence".toList
  | delayed => ":entries:delayed".toList
  | scheduled => ":entries:scheduled".toList
  | claimLeases => ":entries:claim-leases".toList
  | unclaimedLeases => ":entries:unclaimed-leases".toList
  | notification id => ":notifications:".toList ++ id.text
  | notificationLease id => ":notifications:leases:".toList ++ id.text
  | notificationDeadlines => ":notifications:deadlines".toList

theorem Role.suffix_claim (id : Uuid) : (Role.claim id).suffix = ":entries:claims:".toList ++ id.text := rfl

theorem Role.suffix_notification (id : Uuid) : (Role.notification id).suffix = ":notifications:".toList ++ id.text := rfl

theorem Role.suffix_notificationLease (id : Uuid) :
    (Role.notificationLease id).suffix = ":notifications:leases:".toList ++ id.text := rfl

def key (a : QueueAlias) (r : Role) : List Char := queueName a ++ r.suffix

/-- The keys that a Function is given only the beginning of. -/
inductive Indexed where
  | record
  | claim
  | notification
  | notificationLease

def Indexed.role (id : Uuid) : Indexed → Role
  | record => .record id
  | claim => .claim id
  | notification => .notification id
  | notificationLease => .notificationLease id

/-- The beginning that is passed. -/
def Indexed.passed (a : QueueAlias) : Indexed → List Char
  | record => queueName a ++ ":entries:".toList
  | claim => queueName a ++ ":entries:claims:".toList
  | notification => queueName a ++ ":notifications:".toList
  | notificationLease => queueName a ++ ":notifications:leases:".toList

/-- `..` of the library, on the text of an id. -/
def luaKey (passed : List Char) (id : Uuid) : List Char := passed ++ id.text

/-- The text between the first opening brace and the next closing one. -/
def hashTag (key : List Char) : List Char := ((key.dropWhile (· ≠ '\x7b')).drop 1).takeWhile (· ≠ '\x7d')

/-- The pattern of `alist`. -/
def alistPattern (a : QueueAlias) : List Char :=
  queueName a ++ ":entries:".toList ++ "????????-????-????-????-????????????".toList

/-- The pattern of `aclear_records`. -/
def clearRecordsPattern (a : QueueAlias) : List Char := queueName a ++ ":entries:".toList ++ ['*']

/-! ## Reading a key -/

theorem QueueAlias.mem_characters (a : QueueAlias) {c : Char} (hc : c ∈ a.name.toList) : c ∈ queueAliasCharacters := by
  have hvalid := a.valid
  unfold validateQueueAlias at hvalid
  split_ifs at hvalid with hempty hany
  by_contra hnot
  exact hany (List.any_eq_true.mpr ⟨c, hc, decide_eq_true hnot⟩)

theorem plain_of_mem_characters : ∀ c ∈ queueAliasCharacters, c ≠ '\x7d' ∧ c ≠ '*' ∧ c ≠ '?' := by
  have hall : queueAliasCharacters.all (fun c => c ≠ '\x7d' ∧ c ≠ '*' ∧ c ≠ '?') = true := by decide +kernel
  intro c hc
  exact of_decide_eq_true (List.all_eq_true.mp hall c hc)

theorem hashTag_queueName (a : QueueAlias) (rest : List Char) : hashTag (queueName a ++ rest) = a.name.toList := by
  have hplain : ∀ c ∈ a.name.toList, decide (c ≠ '\x7d') = true := fun c hc =>
    decide_eq_true (plain_of_mem_characters c (a.mem_characters hc)).1
  unfold hashTag queueName
  rw [List.cons_append, List.dropWhile_cons_of_neg (by decide), List.drop_succ_cons, List.drop_zero,
    List.append_assoc, List.takeWhile_append_of_pos hplain]
  simp

theorem QueueAlias.ext {a b : QueueAlias} (h : a.name.toList = b.name.toList) : a = b := by
  obtain ⟨name, valid⟩ := a
  obtain ⟨name', valid'⟩ := b
  obtain rfl : name = name' := String.toList_injective h
  rfl

/-- A text that begins with a queue's name names the queue. -/
theorem queueName_append_inj {a b : QueueAlias} {s t : List Char} (h : queueName a ++ s = queueName b ++ t) :
    a = b ∧ s = t := by
  have htag := congrArg hashTag h
  rw [hashTag_queueName, hashTag_queueName] at htag
  obtain rfl := QueueAlias.ext htag
  exact ⟨rfl, List.append_cancel_left h⟩

theorem Uuid.length_text (id : Uuid) : id.text.length = 36 := by
  have h := id.length_digits
  simp only [Uuid.text, EntryId.canonicalText, EntryId.hex, List.length_append, List.length_cons, List.length_map,
    List.length_take, List.length_drop]
  omega

theorem hexChar_injective : Function.Injective hexChar := by
  intro d d' h
  have hdigit := congrArg hexDigit? h
  rw [hexDigit?_hexChar, hexDigit?_hexChar] at hdigit
  exact Option.some.inj hdigit

theorem Uuid.text_injective : Function.Injective Uuid.text := by
  rintro ⟨digits, hlength⟩ ⟨digits', hlength'⟩ h
  have hhex := congrArg (List.filter (· ≠ '-')) h
  rw [Uuid.text, Uuid.text, EntryId.filter_canonicalText, EntryId.filter_canonicalText] at hhex
  obtain rfl : digits = digits' := List.map_injective_iff.mpr hexChar_injective hhex
  rfl

/-- How long the suffix of a key is: it tells all roles but two pairs apart. -/
def Role.length : Role → ℕ
  | rawStore => 0
  | record _ => 45
  | claim _ => 52
  | pending | delayed => 16
  | priority | unclaimedLeases => 25
  | sequence => 34
  | scheduled => 18
  | claimLeases => 21
  | notification _ => 51
  | notificationLease _ => 58
  | notificationDeadlines => 24

theorem length_append_text {before : List Char} {n : ℕ} (id : Uuid) (h : before.length = n) :
    (before ++ id.text).length = n + 36 := by
  rw [List.length_append, id.length_text, h]

theorem Role.length_suffix (r : Role) : r.suffix.length = r.length := by
  cases r with
  | record id => exact length_append_text id (by decide +kernel)
  | claim id => exact length_append_text id (by decide +kernel)
  | notification id => exact length_append_text id (by decide +kernel)
  | notificationLease id => exact length_append_text id (by decide +kernel)
  | _ => decide +kernel

theorem pending_suffix_ne : Role.pending.suffix ≠ Role.delayed.suffix := by decide +kernel

theorem priority_suffix_ne : Role.priority.suffix ≠ Role.unclaimedLeases.suffix := by decide +kernel

theorem Role.suffix_injective : Function.Injective Role.suffix := by
  intro r r' h
  have hlength := congrArg List.length h
  rw [Role.length_suffix, Role.length_suffix] at hlength
  -- the length tells the roles apart, but for two pairs and for the ids of one role
  cases r with
  | record id =>
    cases r' with
    | record id' => rw [Uuid.text_injective (List.append_cancel_left h)]
    | _ => simp only [Role.length, reduceCtorEq, Nat.reduceEqDiff] at hlength
  | claim id =>
    cases r' with
    | claim id' => rw [Uuid.text_injective (List.append_cancel_left h)]
    | _ => simp only [Role.length, reduceCtorEq, Nat.reduceEqDiff] at hlength
  | notification id =>
    cases r' with
    | notification id' => rw [Uuid.text_injective (List.append_cancel_left h)]
    | _ => simp only [Role.length, reduceCtorEq, Nat.reduceEqDiff] at hlength
  | notificationLease id =>
    cases r' with
    | notificationLease id' => rw [Uuid.text_injective (List.append_cancel_left h)]
    | _ => simp only [Role.length, reduceCtorEq, Nat.reduceEqDiff] at hlength
  | pending =>
    cases r' with
    | pending => rfl
    | delayed => exact absurd h pending_suffix_ne
    | _ => simp only [Role.length, reduceCtorEq, Nat.reduceEqDiff] at hlength
  | delayed =>
    cases r' with
    | delayed => rfl
    | pending => exact absurd h.symm pending_suffix_ne
    | _ => simp only [Role.length, reduceCtorEq, Nat.reduceEqDiff] at hlength
  | priority =>
    cases r' with
    | priority => rfl
    | unclaimedLeases => exact absurd h priority_suffix_ne
    | _ => simp only [Role.length, reduceCtorEq, Nat.reduceEqDiff] at hlength
  | unclaimedLeases =>
    cases r' with
    | unclaimedLeases => rfl
    | priority => exact absurd h.symm priority_suffix_ne
    | _ => simp only [Role.length, reduceCtorEq, Nat.reduceEqDiff] at hlength
  | _ =>
    cases r' with
    | _ => first | rfl | simp only [Role.length, reduceCtorEq, Nat.reduceEqDiff] at hlength

/-- The keys that begin with `:entries:`. -/
def Role.isEntries : Role → Bool
  | rawStore | notification _ | notificationLease _ | notificationDeadlines => false
  | _ => true

theorem Role.entries_of_isEntries {r : Role} (h : r.isEntries = true) :
    ∃ rest, r.suffix = ":entries:".toList ++ rest := by
  cases r with
  | record id => exact ⟨id.text, rfl⟩
  | claim id =>
    have hclaims : ":entries:claims:".toList = ":entries:".toList ++ "claims:".toList := by decide +kernel
    refine ⟨"claims:".toList ++ id.text, ?_⟩
    rw [Role.suffix_claim, hclaims, List.append_assoc]
  | pending => exact ⟨"pending".toList, by decide +kernel⟩
  | priority => exact ⟨"pending:priority".toList, by decide +kernel⟩
  | sequence => exact ⟨"pending:priority:sequence".toList, by decide +kernel⟩
  | delayed => exact ⟨"delayed".toList, by decide +kernel⟩
  | scheduled => exact ⟨"scheduled".toList, by decide +kernel⟩
  | claimLeases => exact ⟨"claim-leases".toList, by decide +kernel⟩
  | unclaimedLeases => exact ⟨"unclaimed-leases".toList, by decide +kernel⟩
  | rawStore | notification | notificationLease | notificationDeadlines => cases h

/-- The second character of the others is not the `e` of `:entries:`. -/
theorem Role.second_of_not_isEntries {r : Role} (h : r.isEntries = false) : r.suffix[1]? ≠ some 'e' := by
  cases r with
  | rawStore => decide
  | notification id =>
    rw [Role.suffix_notification, List.getElem?_append_left (by decide +kernel)]
    decide +kernel
  | notificationLease id =>
    rw [Role.suffix_notificationLease, List.getElem?_append_left (by decide +kernel)]
    decide +kernel
  | notificationDeadlines => decide +kernel
  | _ => cases h

theorem Role.isEntries_iff (r : Role) : r.isEntries = true ↔ ∃ rest, r.suffix = ":entries:".toList ++ rest := by
  refine ⟨Role.entries_of_isEntries, ?_⟩
  rintro ⟨rest, hrest⟩
  by_contra hnot
  apply Role.second_of_not_isEntries (Bool.eq_false_iff.mpr hnot)
  rw [hrest, List.getElem?_append_left (by decide +kernel)]
  decide +kernel

/-! ## Scans -/

theorem plain_entries_text : ∀ c ∈ ":entries:".toList, c ≠ '*' ∧ c ≠ '?' := by
  have hall : ":entries:".toList.all (fun c => c ≠ '*' ∧ c ≠ '?') = true := by decide +kernel
  intro c hc
  exact of_decide_eq_true (List.all_eq_true.mp hall c hc)

theorem plain_entries (a : QueueAlias) : ∀ c ∈ queueName a ++ ":entries:".toList, c ≠ '*' ∧ c ≠ '?' := by
  intro c hc
  rcases List.mem_append.mp hc with hc | hc
  · rcases List.mem_cons.mp hc with rfl | hc
    · decide
    · rcases List.mem_append.mp hc with hc | hc
      · exact (plain_of_mem_characters c (a.mem_characters hc)).2
      · rw [List.mem_singleton.mp hc]
        decide
  · exact plain_entries_text c hc

/-- A pattern of a queue matches keys of this queue only. -/
theorem isMatch_key_iff (a b : QueueAlias) (r : Role) (pattern : List Char) :
    Glob.isMatch (queueName a ++ ":entries:".toList ++ pattern) (key b r) = true ↔
      b = a ∧ ∃ rest, r.suffix = ":entries:".toList ++ rest ∧ Glob.isMatch pattern rest = true := by
  rw [Glob.isMatch_literal_append (plain_entries a)]
  constructor
  · rintro ⟨rest, hkey, hrest⟩
    rw [key, List.append_assoc] at hkey
    obtain ⟨hab, hsuffix⟩ := queueName_append_inj hkey
    exact ⟨hab, rest, hsuffix, hrest⟩
  · rintro ⟨rfl, rest, hsuffix, hrest⟩
    refine ⟨rest, ?_, hrest⟩
    rw [key, hsuffix, List.append_assoc]

theorem Uuid.isMatch_text (id : Uuid) :
    Glob.isMatch "????????-????-????-????-????????????".toList id.text = true := by
  have hlength := id.length_digits
  have hpattern : "????????-????-????-????-????????????".toList = List.replicate 8 '?' ++ '-' :: (List.replicate 4 '?' ++
      '-' :: (List.replicate 4 '?' ++ '-' :: (List.replicate 4 '?' ++ '-' :: (List.replicate 12 '?' ++ [])))) := by
    decide +kernel
  have htext : id.text = EntryId.hex (id.digits.take 8) ++ '-' :: (EntryId.hex ((id.digits.drop 8).take 4) ++
      '-' :: (EntryId.hex ((id.digits.drop 12).take 4) ++ '-' :: (EntryId.hex ((id.digits.drop 16).take 4) ++
        '-' :: (EntryId.hex (id.digits.drop 20) ++ [])))) := by
    simp only [Uuid.text, EntryId.canonicalText, List.append_assoc, List.cons_append, List.append_nil]
  have hhex (l : List (Fin 16)) : (EntryId.hex l).length = l.length := List.length_map _
  have hdash : '-' ≠ '*' := by decide
  -- five runs of wildcards against five groups of digits
  rw [hpattern, htext, Glob.isMatch_wild_append (by rw [hhex, List.length_take]; omega), Glob.isMatch_same hdash,
    Glob.isMatch_wild_append (by rw [hhex, List.length_take, List.length_drop]; omega), Glob.isMatch_same hdash,
    Glob.isMatch_wild_append (by rw [hhex, List.length_take, List.length_drop]; omega), Glob.isMatch_same hdash,
    Glob.isMatch_wild_append (by rw [hhex, List.length_take, List.length_drop]; omega), Glob.isMatch_same hdash,
    Glob.isMatch_wild_append (by rw [hhex, List.length_drop]; omega)]
  rfl

theorem isMatch_alistPattern_iff (a b : QueueAlias) (r : Role) :
    Glob.isMatch (alistPattern a) (key b r) = true ↔ b = a ∧ ∃ id, r = .record id := by
  rw [alistPattern, isMatch_key_iff]
  refine and_congr_right fun _ => ?_
  constructor
  · rintro ⟨rest, hsuffix, hrest⟩
    have hlength := congrArg List.length hsuffix
    rw [Role.length_suffix, List.length_append, Glob.length_eq_of_isMatch (by decide +kernel) hrest] at hlength
    have hrecord : r.length = 45 := hlength.trans (by decide +kernel)
    cases r with
    | record id => exact ⟨id, rfl⟩
    | _ => simp only [Role.length, reduceCtorEq, Nat.reduceEqDiff] at hrecord
  · rintro ⟨id, rfl⟩
    exact ⟨id.text, rfl, id.isMatch_text⟩

theorem isMatch_clearRecordsPattern_iff (a b : QueueAlias) (r : Role) :
    Glob.isMatch (clearRecordsPattern a) (key b r) = true ↔ b = a ∧ r.isEntries = true := by
  rw [clearRecordsPattern, isMatch_key_iff, Role.isEntries_iff]
  refine and_congr_right fun _ => exists_congr fun rest => ?_
  exact and_iff_left (Glob.isMatch_star rest)

/-- A key determines its alias, role and id; the library builds the same keys; an alias is the hash tag of its keys;
and each scan finds the keys of its own queue that it is meant for. -/
theorem key_space :
    (Function.Injective fun p : QueueAlias × Role => key p.1 p.2) ∧
    (∀ (a : QueueAlias) (id : Uuid) (k : Indexed), luaKey (k.passed a) id = key a (k.role id)) ∧
    (∀ (a : QueueAlias) (r : Role), hashTag (key a r) = a.name.toList) ∧
    (∀ (a b : QueueAlias) (r : Role),
      Glob.isMatch (alistPattern a) (key b r) = true ↔ b = a ∧ ∃ id, r = .record id) ∧
    ∀ (a b : QueueAlias) (r : Role),
      Glob.isMatch (clearRecordsPattern a) (key b r) = true ↔ b = a ∧ r.isEntries = true := by
  refine ⟨?_, ?_, fun a r => hashTag_queueName a _, isMatch_alistPattern_iff, isMatch_clearRecordsPattern_iff⟩
  · intro p q h
    obtain ⟨halias, hsuffix⟩ := queueName_append_inj h
    exact Prod.ext halias (Role.suffix_injective hsuffix)
  · intro a id k
    cases k <;> exact List.append_assoc ..

end DjangoQueues.Redis.Keys
