import DjangoQueues.Deployment.Metadata
import DjangoQueues.Lib.LeaseLock
import DjangoQueues.Lib.Run

/-! `redis_lua_lib --deploy` against one server: commands that run at the same time, each a `SET NX EX`, a
`FUNCTION LIST`, a `FUNCTION LOAD` and a compare-and-delete, with time passing and replies lost between them. The
library belongs to the server, the key of a lock to one of its databases. -/

namespace DjangoQueues.Deployment

open Bytes

/-! ## One command -/

/-- The truth value of a reply. -/
def truthy : RedisValue → Bool
  | .str s => s ≠ ""
  | .bytes b => b ≠ []
  | .int n => n ≠ 0
  | .null => false
  | .list vs => !vs.isEmpty
  | .map ps => !ps.isEmpty

inductive Verdict where
  | current
  | load
deriving DecidableEq

def newerThanBundled (api bundled : ℤ) : MetadataError :=
  .commandError (s!"Installed Redis Function library api_version {api} is newer than bundled api_version {bundled}; "
    ++ "use --rollback to deploy it explicitly.")

/-- What becomes of an installed library with these versions. -/
def judge (library : FunctionLibrary) (rollback : Bool) (version : String) (api : ℤ) : Except MetadataError Verdict :=
  if library.apiVersion < api ∧ rollback = false then .error (newerThanBundled api library.apiVersion)
  else if version = library.libraryVersion ∧ api = library.apiVersion then .ok .current
  else .ok .load

/-- What `_process_client` decides of the reply of `FUNCTION LIST` inside the lease. -/
def deployVerdict (library : FunctionLibrary) (rollback : Bool) (installed : RedisValue) :
    Except MetadataError Verdict :=
  if truthy installed then (readInstalledLibraryInfo installed).bind fun v => judge library rollback v.1 v.2
  else .ok .load

def statusMessage (library : FunctionLibrary) (version : String) (api : ℤ) : String :=
  let status := if library.apiVersion ≤ api then "compatible" else "incompatible"
  s!"Redis Function library is installed:\n\n- django_queues version {version}\n- api_version {api} ({status})\n\n"
    ++ s!"Bundled library_version: {library.libraryVersion}"

/-- `_process_client` without `--deploy`: the text it writes. -/
def checkInstalled (library : FunctionLibrary) (installed : RedisValue) : Except MetadataError String :=
  if truthy installed then
    (readInstalledLibraryInfo installed).bind fun v =>
      if v.1 ≠ library.libraryVersion ∨ v.2 < library.apiVersion then
        .error (.commandError (statusMessage library v.1 v.2 ++ "\nDeployment required."))
      else .ok (statusMessage library v.1 v.2)
  else .error (.commandError "Redis Function library django_queues is not installed. Deployment required.")

/-! ## The lock key -/

/-- A key in a database of the server. -/
structure LockKey where
  database : ℕ
  name : String
deriving DecidableEq

/-- `DEPLOYMENT_LOCK_KEY`. -/
def deploymentLockName : String := "django_queues:function-deploy-lock"

/-- `binascii.crc_hqx` from zero. -/
def crcHqx (b : Bytes) : BitVec 16 :=
  b.foldl (fun (crc : BitVec 16) (x : UInt8) =>
    (List.range 8).foldl (fun (c : BitVec 16) _ => if c.msb then (c <<< 1) ^^^ 0x1021#16 else c <<< 1)
      (crc ^^^ (x.toBitVec.setWidth 16 <<< 8))) 0#16

/-- `key_slot` of a key with this hash tag. -/
def keySlot (tag : Bytes) : ℕ := (crcHqx tag).toNat % 16384

def lockTag (slot : ℕ) : ℕ → ℕ → Option String
  | 0, _ => none
  | fuel + 1, index =>
    if keySlot (asciiBytes (toString index)) = slot then some (toString index) else lockTag slot fuel (index + 1)

/-- `_lock_key_for_slot`; `none` where it raises `CommandError`. -/
def lockKeyForSlot? (slot : ℕ) : Option String :=
  (lockTag slot 1000000 0).map fun tag => "\x7b" ++ tag ++ "\x7d:function-deploy-lock"

/-- What a client is connected to. -/
inductive Target where
  | standalone (database : ℕ)
  /-- A primary of a cluster by its advertised address, with the first slot it has in the client's slot cache. -/
  | primary (advertised : String) (slot : Option ℕ)
deriving DecidableEq

def Target.node : Target → Option String
  | .standalone _ => none
  | .primary advertised _ => some advertised

/-- `deployment_lock_key`, or its default; a cluster has the one database. -/
def Target.lockKey? : Target → Option LockKey
  | .standalone database => some ⟨database, deploymentLockName⟩
  | .primary _ none => some ⟨0, deploymentLockName⟩
  | .primary _ (some slot) => (lockKeyForSlot? slot).map fun name => ⟨0, name⟩

example : Target.lockKey? (.primary "h:6379" (some 13907)) = some ⟨0, "\x7b0\x7d:function-deploy-lock"⟩ := by
  decide +kernel

/-! ## Commands at the same time -/

/-- `_DEPLOYMENT_LOCK_SECONDS`, in the milliseconds of the server's expiry. -/
def deploymentLockMs : ℕ := 30 * 1000

/-- One run of the command against the server. The protocol version of the client shapes the replies it sees. -/
structure Command where
  library : FunctionLibrary
  rollback : Bool
  target : Target
  resp3 : Bool

inductive Result where
  | current
  | loaded
  | raised (e : MetadataError)
  | redisError
deriving DecidableEq

def deploymentInProgress (node : Option String) : MetadataError :=
  let location := match node with
    | none | some "" => ""
    | some node => s!" on {node}"
  .commandError s!"Another Redis Function-library deployment is in progress{location}."

/-- The token of a lease and its key, with the server's instant of the `SET`. -/
structure Lease (τ : Type) where
  token : τ
  key : LockKey
  since : ℕ
deriving DecidableEq

/-- Where a command stands. `loading` keeps the library code that it decided on. -/
inductive Phase (τ : Type) where
  | idle
  | leased (l : Lease τ)
  | loading (l : Lease τ) (installed : Option Bytes)
  | leaving (l : Lease τ) (result : Result)
  | done (result : Result)
  | killed

/-- The lease of a command that is inside its `with` block. -/
def Phase.lease? {τ : Type} : Phase τ → Option (Lease τ)
  | leased l | loading l _ | leaving l _ => some l
  | _ => none

/-- A request is carried out and answered, carried out with its reply lost, or not carried out. -/
inductive Delivery where
  | answered
  | lost
  | rejected
deriving DecidableEq

structure State (ι τ : Type) where
  now : ℕ
  lock : LockKey → LeaseLock τ
  installed : Option Bytes
  drawn : Set τ
  phase : ι → Phase τ

inductive Event (ι τ : Type) where
  | tick (elapsed : ℕ)
  | acquire (c : ι) (token : τ) (delivery : Delivery)
  | list (c : ι) (functions : RedisValue) (delivery : Delivery)
  | load (c : ι) (delivery : Delivery)
  | release (c : ι) (delivery : Delivery)
  | kill (c : ι)

/-- The command that takes the step. -/
def Event.command? {ι τ : Type} : Event ι τ → Option ι
  | tick _ => none
  | acquire c _ _ | list c _ _ | load c _ | release c _ | kill c => some c

section Steps

variable {ι τ : Type} {s t : State ι τ} {e : Event ι τ} {command : ι → Command}

/-! ## A lease lasts -/

/-- The command is inside its block and its thirty seconds are not over. -/
def State.Holds (s : State ι τ) (c : ι) (l : Lease τ) : Prop :=
  (s.phase c).lease? = some l ∧ s.now < l.since + deploymentLockMs

/-- Tokens in use were drawn and differ, and a lease is at the key of its command. As long as it lasts the key has its
token. -/
structure Leased (command : ι → Command) (s : State ι τ) : Prop where
  drawn : ∀ c l, (s.phase c).lease? = some l → l.token ∈ s.drawn
  distinct : ∀ c c' l l', (s.phase c).lease? = some l → (s.phase c').lease? = some l' → l.token = l'.token → c = c'
  keyed : ∀ c l, (s.phase c).lease? = some l → (command c).target.lockKey? = some l.key
  held : ∀ c l, s.Holds c l → (s.lock l.key).stored = some (l.token, l.since + deploymentLockMs)

theorem Leased.holds_unique (hs : Leased command s) {c c' : ι} {l l' : Lease τ} (h : s.Holds c l) (h' : s.Holds c' l')
    (hkey : (command c').target.lockKey? = (command c).target.lockKey?) : c = c' := by
  rw [hs.keyed c l h.1, hs.keyed c' l' h'.1, Option.some.injEq] at hkey
  have hstored := hs.held c l h
  rw [← hkey, hs.held c' l' h'] at hstored
  have htoken : l'.token = l.token := congrArg Prod.fst (Option.some.inj hstored)
  exact (hs.distinct c' c l' l h'.1 h.1 htoken).symm

theorem Leased.of_idle (h : ∀ c, s.phase c = .idle) : Leased command s where
  drawn c l hl := by
    rw [h c] at hl
    cases hl
  distinct c c' l l' hl _ _ := by
    rw [h c] at hl
    cases hl
  keyed c l hl := by
    rw [h c] at hl
    cases hl
  held c l hl := by
    rw [State.Holds, h c] at hl
    cases hl.1

theorem Leased.setInstalled (hs : Leased command s) (installed : Option Bytes) :
    Leased command { s with installed := installed } :=
  ⟨hs.drawn, hs.distinct, hs.keyed, hs.held⟩

theorem Leased.tick (hs : Leased command s) (elapsed : ℕ) : Leased command { s with now := s.now + elapsed } where
  drawn := hs.drawn
  distinct := hs.distinct
  keyed := hs.keyed
  held c l h := hs.held c l ⟨h.1, (Nat.le_add_right _ _).trans_lt h.2⟩

theorem Leased.draw (hs : Leased command s) (token : τ) : Leased command { s with drawn := insert token s.drawn } where
  drawn c l h := Set.mem_insert_of_mem token (hs.drawn c l h)
  distinct := hs.distinct
  keyed := hs.keyed
  held := hs.held

/-- Setting a key leaves the tokens of the leases that last where they are: at the key itself there is none. -/
theorem Leased.held_of_acquire (hs : Leased command s) {key : LockKey} {token : τ} {lock : LeaseLock τ}
    (h : (s.lock key).acquire s.now deploymentLockMs token = some lock) {c : ι} {l : Lease τ} (hl : s.Holds c l) :
    (Function.update s.lock key lock l.key).stored = some (l.token, l.since + deploymentLockMs) := by
  have hstored := hs.held c l hl
  by_cases hkey : l.key = key
  · rw [hkey] at hstored
    exact absurd hl.2 ((LeaseLock.acquire_eq_some h).2 _ _ hstored)
  · rw [Function.update_of_ne hkey]
    exact hstored

/-- A key that no one will delete. -/
theorem Leased.strand (hs : Leased command s) {key : LockKey} {token : τ} {lock : LeaseLock τ}
    (h : (s.lock key).acquire s.now deploymentLockMs token = some lock) :
    Leased command { s with drawn := insert token s.drawn, lock := Function.update s.lock key lock } where
  drawn c' l hl := Set.mem_insert_of_mem token (hs.drawn c' l hl)
  distinct := hs.distinct
  keyed := hs.keyed
  held _ _ hl := hs.held_of_acquire h hl

variable [DecidableEq ι]

def State.setPhase (s : State ι τ) (c : ι) (p : Phase τ) : State ι τ := { s with phase := Function.update s.phase c p }

@[simp] theorem State.setPhase_phase (c c' : ι) (p : Phase τ) :
    (s.setPhase c p).phase c' = if c' = c then p else s.phase c' := Function.update_apply ..

/-- A command that goes on with the lease it has, or leaves its block. -/
theorem Leased.setPhase (hs : Leased command s) {c : ι} {p : Phase τ}
    (h : ∀ l, p.lease? = some l → (s.phase c).lease? = some l) : Leased command (s.setPhase c p) := by
  have hlease {c' : ι} {l : Lease τ} (hl : ((s.setPhase c p).phase c').lease? = some l) :
      (s.phase c').lease? = some l := by
    rw [State.setPhase_phase] at hl
    split_ifs at hl with hc
    · rw [hc]
      exact h l hl
    · exact hl
  refine ⟨fun c' l hl => hs.drawn c' l (hlease hl), fun c' c'' l l' hl hl' => ?_,
    fun c' l hl => hs.keyed c' l (hlease hl), fun c' l hl => ?_⟩
  · exact hs.distinct c' c'' l l' (hlease hl) (hlease hl')
  · exact hs.held c' l ⟨hlease hl.1, hl.2⟩

/-- A new lease, where no other lasts at its key. -/
theorem Leased.enter (hs : Leased command s) {c : ι} {key : LockKey} {token : τ} {lock : LeaseLock τ}
    (hkey : (command c).target.lockKey? = some key) (hfresh : token ∉ s.drawn)
    (h : (s.lock key).acquire s.now deploymentLockMs token = some lock) :
    Leased command ({ s with drawn := insert token s.drawn, lock := Function.update s.lock key lock }.setPhase c
      (.leased ⟨token, key, s.now⟩)) := by
  have hold {c' : ι} {l : Lease τ} (hl : (s.phase c').lease? = some l) : l.token ≠ token :=
    fun heq => hfresh (heq ▸ hs.drawn c' l hl)
  refine ⟨?_, ?_, ?_, ?_⟩
  · intro c' l hl
    rw [State.setPhase_phase] at hl
    split_ifs at hl with hc
    · cases hl
      exact Set.mem_insert token s.drawn
    · exact Set.mem_insert_of_mem token (hs.drawn c' l hl)
  · intro c' c'' l l' hl hl' htoken
    rw [State.setPhase_phase] at hl hl'
    split_ifs at hl hl' with hc hc' hc'
    · rw [hc, hc']
    · cases hl
      exact absurd htoken.symm (hold hl')
    · cases hl'
      exact absurd htoken (hold hl)
    · exact hs.distinct c' c'' l l' hl hl' htoken
  · intro c' l hl
    rw [State.setPhase_phase] at hl
    split_ifs at hl with hc
    · cases hl
      rw [hc]
      exact hkey
    · exact hs.keyed c' l hl
  · rintro c' l ⟨hl, hnow⟩
    rw [State.setPhase_phase] at hl
    split_ifs at hl with hc
    · cases hl
      show (Function.update s.lock key lock key).stored = _
      rw [Function.update_self]
      exact (LeaseLock.acquire_eq_some h).1
    · exact hs.held_of_acquire h ⟨hl, hnow⟩

/-! ## Steps -/

namespace State

/-- The `SET` with a fresh token. -/
def acquire (command : ι → Command) (s : State ι τ) (c : ι) (key : LockKey) (token : τ) (delivery : Delivery) :
    State ι τ :=
  let s := { s with drawn := insert token s.drawn }
  match delivery, (s.lock key).acquire s.now deploymentLockMs token with
  | .rejected, _ => s.setPhase c (.done .redisError)
  | .answered, none => s.setPhase c (.done (.raised (deploymentInProgress (command c).target.node)))
  | .lost, none => s.setPhase c (.done .redisError)
  | .answered, some lock =>
    { s with lock := Function.update s.lock key lock }.setPhase c (.leased ⟨token, key, s.now⟩)
  -- the key is set, and no one is left who would delete it
  | .lost, some lock => { s with lock := Function.update s.lock key lock }.setPhase c (.done .redisError)

/-- The reply of `FUNCTION LIST`. -/
def reply (s : State ι τ) (resp3 : Bool) (functions : RedisValue) : RedisValue :=
  match s.installed with
  | none => .list []
  | some code => functionListReply resp3 functions code

def list (command : ι → Command) (s : State ι τ) (c : ι) (l : Lease τ) (functions : RedisValue)
    (delivery : Delivery) : State ι τ :=
  if delivery = .answered then
    match deployVerdict (command c).library (command c).rollback (s.reply (command c).resp3 functions) with
    | .error e => s.setPhase c (.leaving l (.raised e))
    | .ok .current => s.setPhase c (.leaving l .current)
    | .ok .load => s.setPhase c (.loading l s.installed)
  else s.setPhase c (.leaving l .redisError)

/-- `FUNCTION LOAD REPLACE` of the bundled source, which is sent as text. -/
def load (command : ι → Command) (s : State ι τ) (c : ι) (l : Lease τ) (delivery : Delivery) : State ι τ :=
  if decodesUtf8 (command c).library.source then
    match delivery with
    | .answered => { s with installed := some (command c).library.source }.setPhase c (.leaving l .loaded)
    | .lost => { s with installed := some (command c).library.source }.setPhase c (.leaving l .redisError)
    | .rejected => s.setPhase c (.leaving l .redisError)
  else s.setPhase c (.leaving l (.raised .unicodeDecodeError))

end State

theorem Leased.acquire (hs : Leased command s) {c : ι} {key : LockKey} {token : τ} {delivery : Delivery}
    (hkey : (command c).target.lockKey? = some key) (hfresh : token ∉ s.drawn) :
    Leased command (s.acquire command c key token delivery) := by
  have hleft (s' : State ι τ) (hs' : Leased command s') (r : Result) : Leased command (s'.setPhase c (.done r)) :=
    hs'.setPhase fun l hl => by cases hl
  unfold State.acquire
  dsimp only
  split
  · exact hleft _ (hs.draw token) _
  · exact hleft _ (hs.draw token) _
  · exact hleft _ (hs.draw token) _
  · next lock h => exact hs.enter hkey hfresh h
  · next lock h => exact hleft _ (hs.strand h) _

variable [DecidableEq τ]

/-- The script compares the token and deletes the key. -/
def State.deleteKey (s : State ι τ) (l : Lease τ) : State ι τ :=
  { s with lock := Function.update s.lock l.key ((s.lock l.key).release s.now l.token) }

/-- The script of the `finally`; an error of it takes the place of the command's result. -/
def State.release (s : State ι τ) (c : ι) (l : Lease τ) (result : Result) (delivery : Delivery) : State ι τ :=
  match delivery with
  | .answered => (s.deleteKey l).setPhase c (.done result)
  | .lost => (s.deleteKey l).setPhase c (.done .redisError)
  | .rejected => s.setPhase c (.done .redisError)

/-- One step of the server and its commands. A token is a new `uuid4`. -/
inductive Step (command : ι → Command) : State ι τ → Event ι τ → State ι τ → Prop
  | tick {s : State ι τ} {elapsed : ℕ} : Step command s (.tick elapsed) { s with now := s.now + elapsed }
  | acquire {s : State ι τ} {c : ι} {key : LockKey} {token : τ} {delivery : Delivery} : s.phase c = .idle →
      (command c).target.lockKey? = some key → token ∉ s.drawn →
      Step command s (.acquire c token delivery) (s.acquire command c key token delivery)
  | list {s : State ι τ} {c : ι} {l : Lease τ} {functions : RedisValue} {delivery : Delivery} :
      s.phase c = .leased l → Step command s (.list c functions delivery) (s.list command c l functions delivery)
  | load {s : State ι τ} {c : ι} {l : Lease τ} {installed : Option Bytes} {delivery : Delivery} :
      s.phase c = .loading l installed → Step command s (.load c delivery) (s.load command c l delivery)
  | release {s : State ι τ} {c : ι} {l : Lease τ} {result : Result} {delivery : Delivery} :
      s.phase c = .leaving l result → Step command s (.release c delivery) (s.release c l result delivery)
  | kill {s : State ι τ} {c : ι} : Step command s (.kill c) (s.setPhase c .killed)

/-- The script deletes no key but the one with the token of its own command. -/
theorem Leased.release (hs : Leased command s) {c : ι} {l : Lease τ} {result : Result}
    (h : s.phase c = .leaving l result) (r : Result) : Leased command ((s.deleteKey l).setPhase c (.done r)) := by
  have hlease {c' : ι} {l' : Lease τ} (hl : (((s.deleteKey l).setPhase c (.done r)).phase c').lease? = some l') :
      c' ≠ c ∧ (s.phase c').lease? = some l' := by
    rw [State.setPhase_phase] at hl
    split_ifs at hl with hc
    · cases hl
    · exact ⟨hc, hl⟩
  refine ⟨fun c' l' hl => hs.drawn c' l' (hlease hl).2, fun c' c'' l' l'' hl hl' => ?_,
    fun c' l' hl => hs.keyed c' l' (hlease hl).2, fun c' l' hl => ?_⟩
  · exact hs.distinct c' c'' l' l'' (hlease hl).2 (hlease hl').2
  · obtain ⟨hne, hl'⟩ := hlease hl.1
    have hstored := hs.held c' l' ⟨hl', hl.2⟩
    show (Function.update s.lock l.key ((s.lock l.key).release s.now l.token) l'.key).stored = _
    by_cases hkey : l'.key = l.key
    · rw [hkey] at hstored ⊢
      rw [Function.update_self]
      refine LeaseLock.release_stored_of_ne hstored fun htoken => hne ?_
      exact hs.distinct c' c l' l hl' (by rw [h]; rfl) htoken
    · rw [Function.update_of_ne hkey]
      exact hstored

theorem Leased.step (hs : Leased command s) (h : Step command s e t) : Leased command t := by
  cases h with
  | tick => exact hs.tick _
  | acquire _ hkey hfresh => exact hs.acquire hkey hfresh
  | @list c l functions delivery hc =>
    have hgo (p : Phase τ) (hp : p.lease? = some l) : Leased command (s.setPhase c p) :=
      hs.setPhase fun l' hl => by
        rw [hc, ← hl, hp]
        rfl
    unfold State.list
    split_ifs
    · split
      · exact hgo _ rfl
      · exact hgo _ rfl
      · exact hgo _ rfl
    · exact hgo _ rfl
  | @load c l installed delivery hc =>
    have hgo (i : Option Bytes) (r : Result) : Leased command ({ s with installed := i }.setPhase c (.leaving l r)) :=
      (hs.setInstalled i).setPhase fun l' hl => (congrArg Phase.lease? hc).trans hl
    unfold State.load
    split_ifs
    · cases delivery with
      | answered => exact hgo _ _
      | lost => exact hgo _ _
      | rejected => exact hgo s.installed _
    · exact hgo s.installed _
  | @release c l result delivery hc =>
    cases delivery with
    | answered => exact hs.release hc _
    | lost => exact hs.release hc _
    | rejected => exact hs.setPhase fun l' hl => by cases hl
  | kill => exact hs.setPhase fun l hl => by cases hl

/-- A command's own phase and the time are left alone by the others. -/
theorem Step.phase_of_ne (h : Step command s e t) {c c' : ι} (he : e.command? = some c') (hc : c ≠ c') :
    t.phase c = s.phase c ∧ t.now = s.now := by
  have hset (s' : State ι τ) (p : Phase τ) : (s'.setPhase c' p).phase c = s'.phase c := by
    rw [State.setPhase_phase, if_neg hc]
  cases h with
  | tick => cases he
  | acquire =>
    cases he
    unfold State.acquire
    dsimp only
    split <;> exact ⟨hset _ _, rfl⟩
  | list =>
    cases he
    unfold State.list
    split_ifs
    · split <;> exact ⟨hset _ _, rfl⟩
    · exact ⟨hset _ _, rfl⟩
  | @load _ _ _ delivery =>
    cases he
    unfold State.load
    split_ifs
    · cases delivery <;> exact ⟨hset _ _, rfl⟩
    · exact ⟨hset _ _, rfl⟩
  | @release _ _ _ delivery =>
    cases he
    cases delivery <;> exact ⟨hset _ _, rfl⟩
  | kill =>
    cases he
    exact ⟨hset _ _, rfl⟩

/-- For thirty seconds from its `SET` the key has the token of the command that is in its block: no other command with
this key is in its own thirty seconds, nothing the others do takes the key away, and a command with this key that tries
to deploy is told so. -/
theorem deployment_leases_exclusive (hidle : ∀ c, s.phase c = .idle) {es : List (Event ι τ)}
    (hrun : Run (Step command) s es t) {c : ι} {l : Lease τ} (hl : t.Holds c l) :
    (command c).target.lockKey? = some l.key ∧
    (t.lock l.key).stored = some (l.token, l.since + deploymentLockMs) ∧
    (∀ c' l', t.Holds c' l' → (command c').target.lockKey? = (command c).target.lockKey? → c' = c) ∧
    (∀ e u c', e.command? = some c' → c' ≠ c → Step command t e u →
      u.Holds c l ∧ (u.lock l.key).stored = some (l.token, l.since + deploymentLockMs)) ∧
    ∀ c' token u, (command c').target.lockKey? = (command c).target.lockKey? →
      Step command t (.acquire c' token .answered) u →
      u.phase c' = .done (.raised (deploymentInProgress (command c').target.node)) := by
  have ht : Leased command t := hrun.invariant (fun _ _ _ hs hstep => hs.step hstep) (.of_idle hidle)
  have hkeyed := ht.keyed c l hl.1
  refine ⟨hkeyed, ht.held c l hl, fun c' l' hl' hkey => ht.holds_unique hl' hl hkey.symm, ?_, ?_⟩
  · intro e u c' he hne hstep
    obtain ⟨hphase, hnow⟩ := hstep.phase_of_ne he hne.symm
    have hu : u.Holds c l := by
      rw [State.Holds, hphase, hnow]
      exact hl
    exact ⟨hu, (ht.step hstep).held c l hu⟩
  · intro c' token u hsame hstep
    cases hstep with
    | @acquire _ key _ _ _ hkey _ =>
      obtain rfl : l.key = key := Option.some.inj ((hkeyed.symm.trans hsame.symm).trans hkey)
      unfold State.acquire
      dsimp only
      rw [LeaseLock.acquire_eq_none_of_stored (ht.held c l hl) hl.2, State.setPhase_phase, if_pos rfl]

end Steps

/-- A server on which nothing has happened. -/
def untouched : State Bool ℕ := ⟨0, fun _ => ⟨none⟩, none, ∅, fun _ => .idle⟩

/-- A command on a database of the server, whose library does not matter. -/
def onDatabase (database : ℕ) : Command :=
  ⟨⟨"django_queues", [], "260827_204500", 1⟩, false, .standalone database, false⟩

def lockOf (database : ℕ) : LockKey := ⟨database, deploymentLockName⟩

/-- One command has its lease, and another one is told so. -/
def underLease (command : Bool → Command) (key : LockKey) : State Bool ℕ :=
  State.acquire command { untouched.acquire command false key 7 .answered with now := 5 } true key 8 .answered

theorem run_underLease {command : Bool → Command} {key : LockKey}
    (hkey : ∀ c, (command c).target.lockKey? = some key) :
    Run (Step command) untouched [.acquire false 7 .answered, .tick 5, .acquire true 8 .answered]
      (underLease command key) := by
  refine .cons (.acquire rfl (hkey false) (Set.notMem_empty 7)) (.cons .tick (.cons (.acquire ?_ (hkey true) ?_) (.nil _)))
  · simp [State.acquire, untouched, LeaseLock.acquire, LeaseLock.live?]
  · simp [State.acquire, untouched, LeaseLock.acquire, LeaseLock.live?, State.setPhase]

theorem underLease_holds : (underLease (fun _ => onDatabase 0) (lockOf 0)).Holds false ⟨7, lockOf 0, 0⟩ := by
  have hnow : 5 < 0 + 30 * 1000 := by decide
  simp [underLease, State.acquire, untouched, LeaseLock.acquire, LeaseLock.live?, State.Holds, State.setPhase,
    Phase.lease?, deploymentLockMs]

theorem deployment_leases_exclusive_underLease :
    ((underLease (fun _ => onDatabase 0) (lockOf 0)).lock (lockOf 0)).stored = some (7, 0 + deploymentLockMs) :=
  (deployment_leases_exclusive (fun _ => rfl) (run_underLease fun _ => rfl) underLease_holds).2.1

/-- On two databases of the server both commands are in their leases, over the one library. -/
theorem leases_overlap : ∃ s, Run (Step fun c => onDatabase (if c then 1 else 0)) untouched
    [.acquire false 7 .answered, .acquire true 8 .answered] s ∧
      s.Holds false ⟨7, lockOf 0, 0⟩ ∧ s.Holds true ⟨8, lockOf 1, 0⟩ := by
  refine ⟨_, .cons (.acquire rfl rfl (Set.notMem_empty 7))
    (.cons (.acquire ?_ rfl ?_) (.nil _)), ?_, ?_⟩
  · simp [State.acquire, untouched, LeaseLock.acquire, LeaseLock.live?]
  · simp [State.acquire, untouched, LeaseLock.acquire, LeaseLock.live?, State.setPhase]
  · simp [State.acquire, untouched, LeaseLock.acquire, LeaseLock.live?, State.Holds, State.setPhase, lockOf,
      Phase.lease?, deploymentLockMs]
  · simp [State.acquire, untouched, LeaseLock.acquire, LeaseLock.live?, State.Holds, State.setPhase, lockOf,
      Phase.lease?, deploymentLockMs]

end DjangoQueues.Deployment
