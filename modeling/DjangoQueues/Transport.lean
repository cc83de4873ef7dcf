import DjangoQueues.Lib.Dict
import Mathlib.Data.Rat.Defs
import Mathlib.Tactic

/-! TLS options of Redis locations, and the targets that the aliases of a settings mapping share. -/

namespace DjangoQueues.Transport

inductive TlsKey where
  | ssl
  | sslCaCerts
  | sslCaData
  | sslCaPath
  | sslCertfile
  | sslKeyfile
  | sslCertReqs
  | sslCheckHostname
  | sslPassword
  | sslMinVersion
  | sslCiphers
  | sslIncludeVerifyFlags
  | sslExcludeVerifyFlags
  | sslValidateOcsp
  | sslValidateOcspStapled
  deriving DecidableEq

namespace TlsKey

def name : TlsKey → String
  | ssl => "ssl"
  | sslCaCerts => "ssl_ca_certs"
  | sslCaData => "ssl_ca_data"
  | sslCaPath => "ssl_ca_path"
  | sslCertfile => "ssl_certfile"
  | sslKeyfile => "ssl_keyfile"
  | sslCertReqs => "ssl_cert_reqs"
  | sslCheckHostname => "ssl_check_hostname"
  | sslPassword => "ssl_password"
  | sslMinVersion => "ssl_min_version"
  | sslCiphers => "ssl_ciphers"
  | sslIncludeVerifyFlags => "ssl_include_verify_flags"
  | sslExcludeVerifyFlags => "ssl_exclude_verify_flags"
  | sslValidateOcsp => "ssl_validate_ocsp"
  | sslValidateOcspStapled => "ssl_validate_ocsp_stapled"

/-- The keys whose set values must agree, in one of the orders in which the set is visited: only
the key that a disagreement names depends on it. -/
def agreeing : List TlsKey :=
  [sslCaCerts, sslCaData, sslCaPath, sslCertfile, sslKeyfile, sslPassword, sslMinVersion, sslCiphers,
    sslIncludeVerifyFlags, sslExcludeVerifyFlags, sslValidateOcsp, sslValidateOcspStapled]

def all : List TlsKey := [ssl, sslCertReqs, sslCheckHostname] ++ agreeing

end TlsKey

/-- The Python values of settings. Objects of other types are kept by the class of objects that they are equal to. -/
inductive OptionValue where
  | none
  | bool (b : Bool)
  | int (n : ℤ)
  | float (x : ℚ)
  | nan
  | str (s : String)
  | object (like : ℕ)
  deriving DecidableEq

namespace OptionValue

def number? : OptionValue → Option ℚ
  | bool b => some (if b then 1 else 0)
  | int n => some n
  | float x => some x
  | _ => Option.none

/-- `==`: numbers of different types are compared by value, and a NaN is not equal to itself. -/
def equal (v w : OptionValue) : Bool :=
  match v.number?, w.number? with
  | some x, some y => x = y
  | _, _ => v = w ∧ v ≠ nan

end OptionValue

/-- The TLS keys of a mapping. -/
abbrev TlsOptions := TlsKey → Option OptionValue

def TlsOptions.isEmpty (options : TlsOptions) : Bool := TlsKey.all.all fun key => (options key).isNone

/-- `_ssl_explicitly_disabled`. -/
def sslExplicitlyDisabled : Option OptionValue → Bool
  | some (.str s) => s.toLower ∈ ["false", "0", "no", "none"]
  | some v => v.number? = some 0
  | none => false

/-- `_cert_reqs_rank`; the constants of the `ssl` module are the integers 0, 1 and 2. -/
def certReqsRank : OptionValue → Option ℕ
  | .str s =>
    if s.toLower = "none" then some 0
    else if s.toLower = "optional" then some 1
    else if s.toLower = "required" then some 2
    else none
  | v =>
    if v.number? = some 0 then some 0
    else if v.number? = some 1 then some 1
    else if v.number? = some 2 then some 2
    else none

/-- `_stricter_cert_reqs`. -/
def stricterCertReqs (current incoming : Option OptionValue) : Option OptionValue :=
  match current.bind certReqsRank, incoming.bind certReqsRank with
  | _, none => current
  | none, some _ => incoming
  | some currentRank, some incomingRank => if currentRank < incomingRank then incoming else current

/-- `_tls_option_set`. -/
def tlsOptionSet (v : OptionValue) : Bool := v ≠ .none ∧ v ≠ .str ""

def mergeHostname (current incoming : TlsOptions) : TlsOptions :=
  if incoming .sslCheckHostname = some (.bool true) then Function.update current .sslCheckHostname (some (.bool true))
  else if (current .sslCheckHostname).isNone then
    Function.update current .sslCheckHostname (incoming .sslCheckHostname)
  else current

def mergeCertReqs (merged incoming : TlsOptions) : TlsOptions :=
  match stricterCertReqs (merged .sslCertReqs) (incoming .sslCertReqs) with
  | none | some .none => merged
  | some v => Function.update merged .sslCertReqs (some v)

def mergeAgreeing (incoming merged : TlsOptions) (key : TlsKey) : Except String TlsOptions :=
  match (incoming key).filter tlsOptionSet with
  | none => .ok merged
  | some incomingValue =>
    match (merged key).filter tlsOptionSet with
    | none => .ok (Function.update merged key (some incomingValue))
    | some currentValue =>
      if currentValue.equal incomingValue then .ok merged
      else .error ("Redis aliases that share a LOCATION disagree on " ++ key.name ++
        "; a single Function-library client cannot represent both.")

def stricterTlsClientKwargs (current incoming : TlsOptions) : Except String TlsOptions :=
  TlsKey.agreeing.foldlM (mergeAgreeing incoming) (mergeCertReqs (mergeHostname current incoming) incoming)

/-- The scheme that `urlsplit` finds, in lower case. -/
def urlScheme (url : String) : String :=
  let chars := (url.toList.dropWhile fun c => c.toNat ≤ 32).filter fun c => c ≠ '\t' ∧ c ≠ '\r' ∧ c ≠ '\n'
  let scheme := chars.takeWhile (· ≠ ':')
  if scheme.length < chars.length ∧ (scheme.head?.any Char.isAlpha) = true ∧
      scheme.all (fun c => c.isAlphanum ∨ c = '+' ∨ c = '-' ∨ c = '.') = true then
    (String.ofList scheme).toLower
  else ""

/-- What a backend class says of itself. -/
structure Backend where
  workerProviderKind : Option String
  redisTopology : Option String

/-- What the settings are resolved with: `import_string`, and the TLS keys that
`redis.connection.parse_url` reads from a location (none where it raises). -/
structure Libraries where
  importString : String → Option Backend
  urlTlsKeys : String → TlsOptions

def redisClientKwargs (lib : Libraries) (url : String) (options : TlsOptions) : Except String TlsOptions :=
  let scheme := urlScheme url
  let urlKeys := lib.urlTlsKeys url
  if scheme ≠ "rediss" then
    if options.isEmpty ∧ urlKeys.isEmpty then .ok fun _ => none
    else .error ("TLS options require a rediss:// LOCATION; the configured URL uses " ++
      (if scheme = "" then "an empty scheme" else scheme) ++ "://")
  else if sslExplicitlyDisabled (options .ssl) ∨ (urlKeys .ssl).isSome then
    .error "rediss:// selects TLS; do not set ssl=False in OPTIONS or ssl in the URL query"
  else .ok fun key => if key = .ssl then none else (options key).or (urlKeys key)

inductive RedisTopology where
  | standalone
  | cluster
  deriving DecidableEq

/-- One alias of the settings; `ρ` is the type of address remappings. A missing key reads as `None`. -/
structure AliasSettings (ρ : Type) where
  backend : OptionValue
  location : OptionValue
  addressRemap : Option ρ
  tls : TlsOptions

structure RedisFunctionTarget (ρ : Type) where
  url : String
  topology : RedisTopology
  aliases : List String
  addressRemap : Option ρ
  clientKwargs : TlsOptions

/-- What `grouped`, `remaps` and `kwargs_by_key` hold for one topology and location. -/
structure Group (ρ : Type) where
  aliases : List String
  addressRemap : Option ρ
  clientKwargs : TlsOptions

/-- The groups in the order in which they were begun. -/
abbrev Groups (ρ : Type) := Dict (RedisTopology × String) (Group ρ)

section Targets

variable {ρ : Type} (lib : Libraries)

/-- The topology and location of an alias; `none` for one that is not a Redis queue. -/
def redisKey (queue : String) (settings : AliasSettings ρ) : Except String (Option (RedisTopology × String)) :=
  match settings.backend with
  | .str path =>
    match lib.importString path with
    | none => .error ("Queue '" ++ queue ++ "' BACKEND could not be imported: " ++ path)
    | some backend =>
      if backend.workerProviderKind ≠ some "redis" then .ok none
      else match settings.location with
        | .str location =>
          if location = "" then .error ("Redis queue '" ++ queue ++ "' must define a Redis LOCATION.")
          else .ok (some (if backend.redisTopology = some "cluster" then .cluster else .standalone, location))
        | _ => .error ("Redis queue '" ++ queue ++ "' must define a Redis LOCATION.")
  | _ => .error ("Queue '" ++ queue ++ "' BACKEND must be a non-empty dotted path.")

/-- The aliases of one location are merged in the order of the settings. -/
def joinGroup (groups : Groups ρ) (key : RedisTopology × String) (queue : String) (remap : Option ρ)
    (kwargs : TlsOptions) : Except String (Groups ρ) :=
  match groups.get? key with
  | none => .ok (groups.set key ⟨[queue], remap, kwargs⟩)
  | some group => (stricterTlsClientKwargs group.clientKwargs kwargs).map fun merged =>
      groups.set key ⟨group.aliases ++ [queue], group.addressRemap.or remap, merged⟩

def resolveAlias (groups : Groups ρ) (item : String × AliasSettings ρ) : Except String (Groups ρ) :=
  redisKey lib item.1 item.2 >>= fun key =>
    match key with
    | none => .ok groups
    | some key => redisClientKwargs lib key.2 item.2.tls >>= joinGroup groups key item.1 item.2.addressRemap

def overrideTarget (url : String) (topology : RedisTopology) : Except String (List (RedisFunctionTarget ρ)) :=
  (redisClientKwargs lib url fun _ => none).map fun kwargs => [⟨url, topology, [], none, kwargs⟩]

def resolveRedisTargets (settings : Dict String (AliasSettings ρ)) (redisUrl redisClusterUrl : Option String) :
    Except String (List (RedisFunctionTarget ρ)) :=
  match redisUrl, redisClusterUrl with
  | some _, some _ => .error "--redis-url and --redis-cluster-url are mutually exclusive."
  | some url, none => overrideTarget lib url .standalone
  | none, some url => overrideTarget lib url .cluster
  | none, none => (settings.items.foldlM (resolveAlias lib) .empty).map fun groups =>
      groups.items.map fun item => ⟨item.1.2, item.1.1, item.2.aliases, item.2.addressRemap, item.2.clientKwargs⟩

end Targets

/-! ### Strictness -/

def certRank (v : OptionValue) : ℕ := (certReqsRank v).getD 0

def hostnameRank (v : OptionValue) : ℕ := if v = .bool true then 1 else 0

/-- Hostname checking stays on unless it is set otherwise. -/
def HostnameChecked (kwargs : TlsOptions) : Prop := (kwargs .sslCheckHostname).getD (.bool true) = .bool true

/-- An unset certificate requirement is `required`. -/
def verifyRank (kwargs : TlsOptions) : ℕ := certRank ((kwargs .sslCertReqs).getD (.str "required"))

structure AtLeastAsStrict (kwargs own : TlsOptions) : Prop where
  rank : verifyRank own ≤ verifyRank kwargs
  hostname : HostnameChecked own → HostnameChecked kwargs

/-- The values are ones that the options are documented to take. -/
structure Recognised (kwargs : TlsOptions) : Prop where
  certReqs : ∀ v, kwargs .sslCertReqs = some v → certReqsRank v ≠ none
  checkHostname : ∀ v, kwargs .sslCheckHostname = some v → ∃ b, v = .bool b

/-- What the aliases of this topology and location are configured with, each on its own. -/
def ownKwargs {ρ : Type} (lib : Libraries) (items : List (String × AliasSettings ρ))
    (key : RedisTopology × String) : List TlsOptions :=
  items.filterMap fun item =>
    match redisKey lib item.1 item.2 with
    | .ok (some key') => if key' = key then (redisClientKwargs lib key.2 item.2.tls).toOption else none
    | _ => none

/-- One alias leaves the option unset and another sets it. -/
def Mixed (owns : List TlsOptions) (key : TlsKey) : Prop :=
  (∃ own ∈ owns, own key = none) ∧ ∃ own ∈ owns, own key ≠ none

section Strictest

variable {rank : OptionValue → ℕ} {v u : Option OptionValue} {vs : List (Option OptionValue)}

/-- `v` is one of the values, and no value that is set ranks above it. -/
def Strictest (rank : OptionValue → ℕ) (v : Option OptionValue) (vs : List (Option OptionValue)) : Prop :=
  v ∈ vs ∧ ∀ u, some u ∈ vs → ∃ w, v = some w ∧ rank u ≤ rank w

/-- The stricter of two values, where an unset one has no say. -/
def stricter (rank : OptionValue → ℕ) (v u : Option OptionValue) : Option OptionValue :=
  match v, u with
  | _, none => v
  | none, some _ => u
  | some a, some b => if rank a < rank b then u else v

theorem Strictest.singleton (v : Option OptionValue) : Strictest rank v [v] := by
  refine ⟨List.mem_singleton_self v, fun u hu => ?_⟩
  exact ⟨u, (List.mem_singleton.mp hu).symm, le_rfl⟩

theorem Strictest.stricter (h : Strictest rank v vs) (u : Option OptionValue) :
    Strictest rank (stricter rank v u) (vs ++ [u]) := by
  obtain ⟨hmem, hmax⟩ := h
  cases u with
  | none =>
    refine ⟨List.mem_append_left _ hmem, fun a ha => ?_⟩
    exact hmax a ((List.mem_append.mp ha).resolve_right (by simp))
  | some b =>
    cases v with
    | none =>
      refine ⟨List.mem_append_right _ (List.mem_singleton_self _), fun a ha => ?_⟩
      rcases List.mem_append.mp ha with ha | ha
      · obtain ⟨w, hw, -⟩ := hmax a ha
        cases hw
      · exact ⟨a, (List.mem_singleton.mp ha).symm, le_rfl⟩
    | some c =>
      rw [Transport.stricter]
      split_ifs with hlt
      · refine ⟨List.mem_append_right _ (List.mem_singleton_self _), fun a ha => ⟨b, rfl, ?_⟩⟩
        rcases List.mem_append.mp ha with ha | ha
        · obtain ⟨w, hw, hle⟩ := hmax a ha
          obtain rfl := Option.some.inj hw
          exact hle.trans hlt.le
        · rw [Option.some.inj (List.mem_singleton.mp ha)]
      · refine ⟨List.mem_append_left _ hmem, fun a ha => ⟨c, rfl, ?_⟩⟩
        rcases List.mem_append.mp ha with ha | ha
        · obtain ⟨w, hw, hle⟩ := hmax a ha
          obtain rfl := Option.some.inj hw
          exact hle
        · rw [Option.some.inj (List.mem_singleton.mp ha)]
          exact not_lt.mp hlt

/-- An unset value ranks at the top, so the strictest of the set ones may rank below it. -/
theorem Strictest.forall_le_iff (h : Strictest rank v vs) (top : ℕ) (htop : ∀ u, some u ∈ vs → rank u ≤ top) :
    (∀ u ∈ vs, (u.map rank).getD top ≤ (v.map rank).getD top) ↔
      (none ∈ vs ∧ (∃ u, some u ∈ vs) → ∃ u, some u ∈ vs ∧ rank u = top) := by
  obtain ⟨hmem, hmax⟩ := h
  constructor
  · rintro hall ⟨hnone, u, hu⟩
    obtain ⟨w, rfl, -⟩ := hmax u hu
    exact ⟨w, hmem, le_antisymm (htop w hmem) (hall none hnone)⟩
  · intro hset u hu
    cases v with
    | none =>
      cases u with
      | none => exact le_rfl
      | some a => exact htop a hu
    | some w =>
      cases u with
      | none =>
        obtain ⟨a, ha, hrank⟩ := hset ⟨hu, w, hmem⟩
        obtain ⟨w', hw, hle⟩ := hmax a ha
        obtain rfl := Option.some.inj hw
        exact hrank ▸ hle
      | some a =>
        obtain ⟨w', hw, hle⟩ := hmax a hu
        obtain rfl := Option.some.inj hw
        exact hle

end Strictest

/-! ### Merging two aliases -/

section Merge

variable {current incoming merged merged' : TlsOptions}

theorem mergeAgreeing_other {key k : TlsKey} (h : mergeAgreeing incoming merged key = .ok merged') (hk : k ≠ key) :
    merged' k = merged k := by
  unfold mergeAgreeing at h
  split at h
  · rw [Except.ok.inj h]
  · split at h
    · rw [← Except.ok.inj h, Function.update_of_ne hk]
    · split_ifs at h
      rw [Except.ok.inj h]

theorem foldlM_mergeAgreeing_other {k : TlsKey} {keys : List TlsKey} (hk : k ∉ keys)
    (h : keys.foldlM (mergeAgreeing incoming) merged = .ok merged') : merged' k = merged k := by
  induction keys generalizing merged with
  | nil => rw [Except.ok.inj h]
  | cons key keys ih =>
    rw [List.mem_cons, not_or] at hk
    rw [List.foldlM_cons] at h
    cases hfirst : mergeAgreeing incoming merged key with
    | error e =>
      rw [hfirst] at h
      cases h
    | ok next =>
      rw [hfirst] at h
      exact (ih hk.2 h).trans (mergeAgreeing_other hfirst hk.1)

theorem mergeHostname_other {key : TlsKey} (h : key ≠ .sslCheckHostname) (current incoming : TlsOptions) :
    mergeHostname current incoming key = current key := by
  unfold mergeHostname
  split_ifs
  · exact Function.update_of_ne h _ _
  · exact Function.update_of_ne h _ _
  · rfl

theorem mergeCertReqs_other {key : TlsKey} (h : key ≠ .sslCertReqs) (merged incoming : TlsOptions) :
    mergeCertReqs merged incoming key = merged key := by
  unfold mergeCertReqs
  cases stricterCertReqs (merged .sslCertReqs) (incoming .sslCertReqs) with
  | none => rfl
  | some v =>
    cases v with
    | none => rfl
    | _ => exact Function.update_of_ne h _ _

theorem stricterCertReqs_eq (hc : Recognised current) (hi : Recognised incoming) :
    stricterCertReqs (current .sslCertReqs) (incoming .sslCertReqs) =
      stricter certRank (current .sslCertReqs) (incoming .sslCertReqs) := by
  cases hcur : current .sslCertReqs with
  | none =>
    cases hinc : incoming .sslCertReqs with
    | none => rfl
    | some b =>
      obtain ⟨r, hr⟩ := Option.ne_none_iff_exists'.mp (hi.certReqs b hinc)
      simp only [stricterCertReqs, stricter, Option.bind_none, Option.bind_some, hr]
  | some a =>
    obtain ⟨q, hq⟩ := Option.ne_none_iff_exists'.mp (hc.certReqs a hcur)
    cases hinc : incoming .sslCertReqs with
    | none => simp only [stricterCertReqs, stricter, Option.bind_none, Option.bind_some, hq]
    | some b =>
      obtain ⟨r, hr⟩ := Option.ne_none_iff_exists'.mp (hi.certReqs b hinc)
      simp only [stricterCertReqs, stricter, Option.bind_some, hq, hr, certRank, Option.getD_some]

theorem stricter_eq_or (rank : OptionValue → ℕ) (v u : Option OptionValue) :
    stricter rank v u = v ∨ stricter rank v u = u := by
  unfold stricter
  split
  · exact .inl rfl
  · exact .inr rfl
  · split_ifs
    · exact .inr rfl
    · exact .inl rfl

theorem eq_none_of_stricter {rank : OptionValue → ℕ} {v u : Option OptionValue} (h : stricter rank v u = none) :
    v = none := by
  cases v with
  | none => rfl
  | some a =>
    cases u with
    | none => exact h
    | some b =>
      rw [stricter] at h
      split_ifs at h

theorem mergeCertReqs_certReqs (hc : Recognised merged) (hi : Recognised incoming) :
    mergeCertReqs merged incoming .sslCertReqs = stricter certRank (merged .sslCertReqs) (incoming .sslCertReqs) := by
  unfold mergeCertReqs
  rw [stricterCertReqs_eq hc hi]
  cases hs : stricter certRank (merged .sslCertReqs) (incoming .sslCertReqs) with
  | none => exact eq_none_of_stricter hs
  | some v =>
    have hrank : certReqsRank v ≠ none := by
      rcases stricter_eq_or certRank (merged .sslCertReqs) (incoming .sslCertReqs) with h | h
      · exact hc.certReqs v (h ▸ hs)
      · exact hi.certReqs v (h ▸ hs)
    cases v with
    | none => exact absurd rfl hrank
    | _ => exact Function.update_self ..

theorem mergeHostname_checkHostname (hc : Recognised current) (hi : Recognised incoming) :
    mergeHostname current incoming .sslCheckHostname =
      stricter hostnameRank (current .sslCheckHostname) (incoming .sslCheckHostname) := by
  unfold mergeHostname
  cases hcur : current .sslCheckHostname with
  | none =>
    cases hinc : incoming .sslCheckHostname with
    | none => simp [stricter]
    | some b =>
      obtain ⟨c, rfl⟩ := hi.checkHostname b hinc
      cases c <;> simp [stricter]
  | some a =>
    obtain ⟨d, rfl⟩ := hc.checkHostname a hcur
    cases hinc : incoming .sslCheckHostname with
    | none => simp [stricter, hcur]
    | some b =>
      obtain ⟨c, rfl⟩ := hi.checkHostname b hinc
      cases c <;> cases d <;> simp [stricter, hcur, hostnameRank]

/-- What a merge makes of the two options that it compares by strictness. -/
theorem stricterTlsClientKwargs_eq (hc : Recognised current) (hi : Recognised incoming)
    (h : stricterTlsClientKwargs current incoming = .ok merged) :
    merged .sslCertReqs = stricter certRank (current .sslCertReqs) (incoming .sslCertReqs) ∧
    merged .sslCheckHostname = stricter hostnameRank (current .sslCheckHostname) (incoming .sslCheckHostname) := by
  have hhost : Recognised (mergeHostname current incoming) := by
    constructor
    · intro v hv
      exact hc.certReqs v ((mergeHostname_other (by decide) current incoming).symm.trans hv)
    · intro v hv
      rw [mergeHostname_checkHostname hc hi] at hv
      rcases stricter_eq_or hostnameRank (current .sslCheckHostname) (incoming .sslCheckHostname) with h | h
      · exact hc.checkHostname v (h ▸ hv)
      · exact hi.checkHostname v (h ▸ hv)
  constructor
  · rw [foldlM_mergeAgreeing_other (by decide) h, mergeCertReqs_certReqs hhost hi,
      mergeHostname_other (by decide)]
  · rw [foldlM_mergeAgreeing_other (by decide) h, mergeCertReqs_other (by decide),
      mergeHostname_checkHostname hc hi]

end Merge

/-! ### The aliases of a settings mapping -/

section Settings

variable {ρ : Type} {lib : Libraries}

/-- A group carries, for both options, the strictest of what its aliases set. -/
structure Merged (kwargs : TlsOptions) (owns : List TlsOptions) : Prop where
  certReqs : Strictest certRank (kwargs .sslCertReqs) (owns.map (· .sslCertReqs))
  checkHostname : Strictest hostnameRank (kwargs .sslCheckHostname) (owns.map (· .sslCheckHostname))

theorem Merged.recognised {kwargs : TlsOptions} {owns : List TlsOptions} (h : Merged kwargs owns)
    (hrec : ∀ own ∈ owns, Recognised own) : Recognised kwargs := by
  obtain ⟨o, ho, hoc⟩ := List.mem_map.mp h.certReqs.1
  obtain ⟨p, hp, hpc⟩ := List.mem_map.mp h.checkHostname.1
  constructor
  · intro v hv
    exact (hrec o ho).certReqs v (hoc.trans hv)
  · intro v hv
    exact (hrec p hp).checkHostname v (hpc.trans hv)

theorem Merged.singleton (kwargs : TlsOptions) : Merged kwargs [kwargs] :=
  ⟨Strictest.singleton _, Strictest.singleton _⟩

theorem Merged.join {kwargs incoming merged : TlsOptions} {owns : List TlsOptions} (h : Merged kwargs owns)
    (hrec : ∀ own ∈ owns ++ [incoming], Recognised own) (hm : stricterTlsClientKwargs kwargs incoming = .ok merged) :
    Merged merged (owns ++ [incoming]) := by
  have hc := h.recognised fun own hown => hrec own (List.mem_append_left _ hown)
  have hi := hrec incoming (List.mem_append_right _ (List.mem_singleton_self _))
  obtain ⟨hcert, hhost⟩ := stricterTlsClientKwargs_eq hc hi hm
  constructor
  · rw [hcert, List.map_append]
    exact h.certReqs.stricter _
  · rw [hhost, List.map_append]
    exact h.checkHostname.stricter _

/-- After the aliases `items` every group holds the merge of its own aliases, and a location without
a group has none. -/
def GroupsMerged (lib : Libraries) (items : List (String × AliasSettings ρ)) (groups : Groups ρ) : Prop :=
  ∀ key, (∀ own ∈ ownKwargs lib items key, Recognised own) →
    match groups.get? key with
    | none => ownKwargs lib items key = []
    | some group => Merged group.clientKwargs (ownKwargs lib items key)

theorem resolveAlias_of_key {groups : Groups ρ} {item : String × AliasSettings ρ} {key : RedisTopology × String}
    {kwargs : TlsOptions} (hkey : redisKey lib item.1 item.2 = .ok (some key))
    (hkwargs : redisClientKwargs lib key.2 item.2.tls = .ok kwargs) :
    resolveAlias lib groups item = joinGroup groups key item.1 item.2.addressRemap kwargs := by
  rw [resolveAlias, hkey]
  change redisClientKwargs lib key.2 item.2.tls >>= _ = _
  rw [hkwargs]
  rfl

theorem ownKwargs_snoc (items : List (String × AliasSettings ρ)) (item : String × AliasSettings ρ)
    (key : RedisTopology × String) :
    ownKwargs lib (items ++ [item]) key = ownKwargs lib items key ++ ownKwargs lib [item] key :=
  List.filterMap_append

theorem ownKwargs_of_none {item : String × AliasSettings ρ} (h : redisKey lib item.1 item.2 = .ok none)
    (key : RedisTopology × String) : ownKwargs lib [item] key = [] := by
  simp [ownKwargs, h]

theorem ownKwargs_of_some {item : String × AliasSettings ρ} {key : RedisTopology × String} {kwargs : TlsOptions}
    (h : redisKey lib item.1 item.2 = .ok (some key)) (hkwargs : redisClientKwargs lib key.2 item.2.tls = .ok kwargs)
    (key' : RedisTopology × String) : ownKwargs lib [item] key' = if key' = key then [kwargs] else [] := by
  by_cases hk : key' = key
  · subst hk
    simp [ownKwargs, h, hkwargs, Except.toOption]
  · simp [ownKwargs, h, hk, Ne.symm hk]

theorem GroupsMerged.joinGroup {items : List (String × AliasSettings ρ)} {item : String × AliasSettings ρ}
    {groups groups' : Groups ρ} {key : RedisTopology × String} {kwargs : TlsOptions} (h : GroupsMerged lib items groups)
    (hkey : redisKey lib item.1 item.2 = .ok (some key)) (hkwargs : redisClientKwargs lib key.2 item.2.tls = .ok kwargs)
    (hjoin : joinGroup groups key item.1 item.2.addressRemap kwargs = .ok groups') :
    GroupsMerged lib (items ++ [item]) groups' := by
  intro key' hrec
  rw [ownKwargs_snoc, ownKwargs_of_some hkey hkwargs] at hrec ⊢
  have hbefore := h key' fun own hown => hrec own (List.mem_append_left _ hown)
  unfold Transport.joinGroup at hjoin
  split at hjoin
  · rename_i hnone
    rw [← Except.ok.inj hjoin, Dict.get?_set]
    split_ifs with hk
    · rw [hk, hnone] at hbefore
      rw [hk, hbefore]
      exact Merged.singleton kwargs
    · rwa [List.append_nil]
  · rename_i group hsome
    cases hmerge : stricterTlsClientKwargs group.clientKwargs kwargs with
    | error e =>
      rw [hmerge] at hjoin
      cases hjoin
    | ok merged =>
      rw [hmerge] at hjoin
      rw [← Except.ok.inj hjoin, Dict.get?_set]
      split_ifs with hk
      · rw [if_pos hk] at hrec
        rw [hk, hsome] at hbefore
        rw [hk] at hrec ⊢
        exact hbefore.join hrec hmerge
      · rwa [List.append_nil]

theorem GroupsMerged.resolveAlias {items : List (String × AliasSettings ρ)} {item : String × AliasSettings ρ}
    {groups groups' : Groups ρ} (h : GroupsMerged lib items groups) (hok : resolveAlias lib groups item = .ok groups') :
    GroupsMerged lib (items ++ [item]) groups' := by
  cases hkey : redisKey lib item.1 item.2 with
  | error e =>
    rw [Transport.resolveAlias, hkey] at hok
    cases hok
  | ok key? =>
    cases key? with
    | none =>
      rw [Transport.resolveAlias, hkey] at hok
      obtain rfl := Except.ok.inj hok
      intro key hrec
      rw [ownKwargs_snoc, ownKwargs_of_none hkey, List.append_nil] at hrec ⊢
      exact h key hrec
    | some key =>
      cases hkwargs : redisClientKwargs lib key.2 item.2.tls with
      | error e =>
        rw [Transport.resolveAlias, hkey] at hok
        change redisClientKwargs lib key.2 item.2.tls >>= _ = _ at hok
        rw [hkwargs] at hok
        cases hok
      | ok kwargs =>
        rw [resolveAlias_of_key hkey hkwargs] at hok
        exact h.joinGroup hkey hkwargs hok

theorem GroupsMerged.foldlM {rest items : List (String × AliasSettings ρ)} {groups groups' : Groups ρ}
    (h : GroupsMerged lib items groups) (hok : rest.foldlM (Transport.resolveAlias lib) groups = .ok groups') :
    GroupsMerged lib (items ++ rest) groups' := by
  induction rest generalizing items groups with
  | nil =>
    obtain rfl := Except.ok.inj hok
    rwa [List.append_nil]
  | cons item rest ih =>
    rw [List.foldlM_cons] at hok
    cases hfirst : Transport.resolveAlias lib groups item with
    | error e =>
      rw [hfirst] at hok
      cases hok
    | ok next =>
      rw [hfirst] at hok
      rw [List.append_cons]
      exact ih (h.resolveAlias hfirst) hok

theorem groupsMerged_empty : GroupsMerged (ρ := ρ) lib [] .empty := fun _ _ => rfl

/-- The target of a location carries the merge of the aliases configured there. -/
theorem merged_of_resolved {settings : Dict String (AliasSettings ρ)} {targets : List (RedisFunctionTarget ρ)}
    {target : RedisFunctionTarget ρ} (hok : resolveRedisTargets lib settings none none = .ok targets)
    (hmem : target ∈ targets)
    (hrec : ∀ own ∈ ownKwargs lib settings.items (target.topology, target.url), Recognised own) :
    Merged target.clientKwargs (ownKwargs lib settings.items (target.topology, target.url)) := by
  cases hfold : settings.items.foldlM (resolveAlias lib) (.empty : Groups ρ) with
  | error e =>
    rw [resolveRedisTargets, hfold] at hok
    cases hok
  | ok groups =>
    rw [resolveRedisTargets, hfold] at hok
    rw [← Except.ok.inj hok] at hmem
    obtain ⟨⟨key, group⟩, hitem, rfl⟩ := List.mem_map.mp hmem
    have hmerged := groupsMerged_empty.foldlM hfold key hrec
    rw [Dict.get?_eq_some.mpr hitem] at hmerged
    exact hmerged

theorem certRank_le (v : OptionValue) : certRank v ≤ 2 := by
  unfold certRank certReqsRank
  split
  · split_ifs <;> decide
  · split_ifs <;> decide

theorem hostnameRank_le (v : OptionValue) : hostnameRank v ≤ 1 := by
  unfold hostnameRank
  split_ifs <;> decide

theorem verifyRank_eq (kwargs : TlsOptions) : verifyRank kwargs = ((kwargs .sslCertReqs).map certRank).getD 2 := by
  unfold verifyRank
  cases kwargs .sslCertReqs with
  | none => decide +kernel
  | some v => rfl

theorem hostnameChecked_iff (kwargs : TlsOptions) :
    HostnameChecked kwargs ↔ 1 ≤ ((kwargs .sslCheckHostname).map hostnameRank).getD 1 := by
  unfold HostnameChecked
  cases kwargs .sslCheckHostname with
  | none => exact ⟨fun _ => le_rfl, fun _ => rfl⟩
  | some v =>
    rw [Option.getD_some, Option.map_some, Option.getD_some, hostnameRank]
    split_ifs with h
    · exact ⟨fun _ => le_rfl, fun _ => h⟩
    · exact ⟨fun hv => absurd hv h, fun hle => absurd hle (by decide)⟩

theorem atLeastAsStrict_iff (kwargs own : TlsOptions) :
    AtLeastAsStrict kwargs own ↔
      ((own .sslCertReqs).map certRank).getD 2 ≤ ((kwargs .sslCertReqs).map certRank).getD 2 ∧
      ((own .sslCheckHostname).map hostnameRank).getD 1 ≤ ((kwargs .sslCheckHostname).map hostnameRank).getD 1 := by
  have hone : ∀ o : Option OptionValue, (o.map hostnameRank).getD 1 ≤ 1 := by
    intro o
    cases o with
    | none => exact le_rfl
    | some v => exact hostnameRank_le v
  have hown := hone (own .sslCheckHostname)
  rw [← verifyRank_eq, ← verifyRank_eq]
  constructor
  · rintro ⟨hrank, hhost⟩
    rw [hostnameChecked_iff, hostnameChecked_iff] at hhost
    exact ⟨hrank, by omega⟩
  · rintro ⟨hrank, hhost⟩
    refine ⟨hrank, fun hchecked => ?_⟩
    rw [hostnameChecked_iff] at hchecked ⊢
    exact hchecked.trans hhost

theorem mixed_iff (owns : List TlsOptions) (key : TlsKey) :
    Mixed owns key ↔ none ∈ owns.map (· key) ∧ ∃ v, some v ∈ owns.map (· key) := by
  simp only [Mixed, List.mem_map, Option.ne_none_iff_exists']
  constructor
  · rintro ⟨hnone, own, hown, v, hv⟩
    exact ⟨hnone, v, own, hown, hv⟩
  · rintro ⟨hnone, v, own, hown, hv⟩
    exact ⟨hnone, own, hown, v, hv⟩

theorem exists_strictest_iff {rank : OptionValue → ℕ} {top : ℕ} (owns : List TlsOptions) (key : TlsKey) :
    (∃ v, some v ∈ owns.map (· key) ∧ rank v = top) ↔ ∃ own ∈ owns, ∃ v, own key = some v ∧ rank v = top := by
  simp only [List.mem_map]
  constructor
  · rintro ⟨v, ⟨own, hown, hv⟩, hrank⟩
    exact ⟨own, hown, v, hv, hrank⟩
  · rintro ⟨own, hown, v, hv, hrank⟩
    exact ⟨v, ⟨own, hown, hv⟩, hrank⟩

/-- The shared client is at least as strict as every alias on its own exactly when an option that one
alias leaves unset and another sets is set to its strictest value by some alias. -/
theorem target_strict_iff {settings : Dict String (AliasSettings ρ)} {targets : List (RedisFunctionTarget ρ)}
    {target : RedisFunctionTarget ρ} (hok : resolveRedisTargets lib settings none none = .ok targets)
    (hmem : target ∈ targets)
    (hrec : ∀ own ∈ ownKwargs lib settings.items (target.topology, target.url), Recognised own) :
    (∀ own ∈ ownKwargs lib settings.items (target.topology, target.url), AtLeastAsStrict target.clientKwargs own) ↔
      (Mixed (ownKwargs lib settings.items (target.topology, target.url)) .sslCertReqs →
        ∃ own ∈ ownKwargs lib settings.items (target.topology, target.url), ∃ v, own .sslCertReqs = some v ∧
          certRank v = 2) ∧
      (Mixed (ownKwargs lib settings.items (target.topology, target.url)) .sslCheckHostname →
        ∃ own ∈ ownKwargs lib settings.items (target.topology, target.url), ∃ v, own .sslCheckHostname = some v ∧
          hostnameRank v = 1) := by
  have hmerged := merged_of_resolved hok hmem hrec
  have hcert := hmerged.certReqs.forall_le_iff 2 fun v _ => certRank_le v
  have hhost := hmerged.checkHostname.forall_le_iff 1 fun v _ => hostnameRank_le v
  rw [mixed_iff, mixed_iff, ← exists_strictest_iff, ← exists_strictest_iff, ← hcert, ← hhost]
  simp only [atLeastAsStrict_iff, List.forall_mem_map]
  exact forall₂_and

end Settings

section Instances

/-- One standalone Redis backend, and locations without a query. -/
def oneBackend : Libraries := ⟨fun _ => some ⟨some "redis", some "standalone"⟩, fun _ _ => none⟩

def aliasWith (tls : TlsOptions) : AliasSettings Unit := ⟨.str "RedisAsyncQueue", .str "rediss://seed/0", none, tls⟩

def certReqsOnly (v : OptionValue) : TlsOptions := fun key => if key = .sslCertReqs then some v else none

/-- The first alias sets no TLS option; the second asks for the certificate requirement `v`. -/
def unsetAnd (v : OptionValue) : Dict String (AliasSettings Unit) :=
  (Dict.empty.set "first" (aliasWith fun _ => none)).set "second" (aliasWith (certReqsOnly v))

theorem seed_scheme : urlScheme "rediss://seed/0" = "rediss" := by decide +kernel

theorem unsetAnd_items (v : OptionValue) :
    (unsetAnd v).items = [("first", aliasWith fun _ => none), ("second", aliasWith (certReqsOnly v))] := rfl

theorem redisKey_aliasWith (queue : String) (tls : TlsOptions) :
    redisKey oneBackend queue (aliasWith tls) = .ok (some (.standalone, "rediss://seed/0")) := by
  simp [redisKey, oneBackend, aliasWith]

theorem redisClientKwargs_seed {tls : TlsOptions} (h : tls .ssl = none) :
    redisClientKwargs oneBackend "rediss://seed/0" tls = .ok tls := by
  have heq : (fun key => if key = .ssl then none else (tls key).or none) = tls := by
    funext key
    split_ifs with hk
    · rw [hk, h]
    · exact Option.or_none
  unfold redisClientKwargs
  dsimp only
  rw [if_neg (not_not.mpr seed_scheme), if_neg (by rw [h]; decide)]
  exact congrArg Except.ok heq

theorem resolveAlias_aliasWith (groups : Groups Unit) (queue : String) {tls : TlsOptions} (h : tls .ssl = none) :
    resolveAlias oneBackend groups (queue, aliasWith tls) =
      joinGroup groups (.standalone, "rediss://seed/0") queue none tls := by
  have hkey : redisKey oneBackend (queue, aliasWith tls).1 (queue, aliasWith tls).2 =
      .ok (some (.standalone, "rediss://seed/0")) := redisKey_aliasWith queue tls
  rw [resolveAlias, hkey]
  change redisClientKwargs oneBackend "rediss://seed/0" tls >>= _ = _
  rw [redisClientKwargs_seed h]
  rfl

theorem ownKwargs_aliasWith (queue : String) {tls : TlsOptions} (h : tls .ssl = none) :
    ownKwargs oneBackend [(queue, aliasWith tls)] (.standalone, "rediss://seed/0") = [tls] := by
  have hkey : redisKey oneBackend (queue, aliasWith tls).1 (queue, aliasWith tls).2 =
      .ok (some (.standalone, "rediss://seed/0")) := redisKey_aliasWith queue tls
  rw [ownKwargs_of_some hkey (redisClientKwargs_seed h), if_pos rfl]
  rfl

theorem foldlM_mergeAgreeing_unset {incoming : TlsOptions} (keys : List TlsKey) (merged : TlsOptions)
    (h : ∀ key ∈ keys, incoming key = none) : keys.foldlM (mergeAgreeing incoming) merged = .ok merged := by
  induction keys with
  | nil => rfl
  | cons key keys ih =>
    rw [List.forall_mem_cons] at h
    rw [List.foldlM_cons, mergeAgreeing, h.1]
    exact ih h.2

/-- The target of the two aliases. -/
def unsetAndTarget (v : OptionValue) : RedisFunctionTarget Unit :=
  ⟨"rediss://seed/0", .standalone, ["first", "second"], none,
    mergeCertReqs (mergeHostname (fun _ => none) (certReqsOnly v)) (certReqsOnly v)⟩

/-- The group that the first alias begins. -/
def firstGroup : Groups Unit := Dict.empty.set (.standalone, "rediss://seed/0") ⟨["first"], none, fun _ => none⟩

theorem resolveRedisTargets_unsetAnd (v : OptionValue) :
    resolveRedisTargets oneBackend (unsetAnd v) none none = .ok [unsetAndTarget v] := by
  have hmerge : stricterTlsClientKwargs (fun _ => none) (certReqsOnly v) =
      .ok (mergeCertReqs (mergeHostname (fun _ => none) (certReqsOnly v)) (certReqsOnly v)) := by
    apply foldlM_mergeAgreeing_unset
    intro key hkey
    have hne : key ≠ .sslCertReqs := fun h => absurd (h ▸ hkey) (by decide)
    exact if_neg hne
  have hssl : certReqsOnly v .ssl = none := if_neg (by decide)
  have hfirst : resolveAlias oneBackend .empty ("first", aliasWith fun _ => none) = .ok firstGroup :=
    resolveAlias_aliasWith .empty "first" rfl
  have hsecond : resolveAlias oneBackend firstGroup ("second", aliasWith (certReqsOnly v)) =
      .ok (firstGroup.set (.standalone, "rediss://seed/0") ⟨["first", "second"], none,
        mergeCertReqs (mergeHostname (fun _ => none) (certReqsOnly v)) (certReqsOnly v)⟩) := by
    have hget : firstGroup.get? (.standalone, "rediss://seed/0") = some ⟨["first"], none, fun _ => none⟩ := by
      rw [firstGroup, Dict.get?_set, if_pos rfl]
    rw [resolveAlias_aliasWith firstGroup "second" hssl, joinGroup, hget]
    dsimp only
    rw [hmerge]
    rfl
  rw [resolveRedisTargets, unsetAnd_items]
  rw [List.foldlM_cons, hfirst]
  change ((resolveAlias oneBackend firstGroup _ >>= fun groups => List.foldlM (resolveAlias oneBackend) groups []).map _) = _
  rw [hsecond]
  rfl

theorem ownKwargs_unsetAnd (v : OptionValue) :
    ownKwargs oneBackend (unsetAnd v).items (.standalone, "rediss://seed/0") = [fun _ => none, certReqsOnly v] := by
  have hssl : certReqsOnly v .ssl = none := if_neg (by decide)
  rw [unsetAnd_items, ← List.singleton_append, ownKwargs_snoc, ownKwargs_aliasWith "first" rfl,
    ownKwargs_aliasWith "second" hssl, List.singleton_append]

theorem recognised_certReqsOnly {v : OptionValue} (h : certReqsRank v ≠ none) : Recognised (certReqsOnly v) := by
  constructor
  · intro w hw
    rwa [← Option.some.inj hw]
  · intro w hw
    cases hw

theorem recognised_unsetAnd {v : OptionValue} (hv : certReqsRank v ≠ none) :
    ∀ own ∈ ownKwargs oneBackend (unsetAnd v).items (.standalone, "rediss://seed/0"), Recognised own := by
  rw [ownKwargs_unsetAnd]
  intro own hown
  rcases List.mem_pair.mp hown with rfl | rfl
  · exact ⟨(fun u hu => by cases hu), (fun u hu => by cases hu)⟩
  · exact recognised_certReqsOnly hv

theorem target_strict_required :
    resolveRedisTargets oneBackend (unsetAnd (.str "required")) none none = .ok [unsetAndTarget (.str "required")] ∧
    ∀ own ∈ ownKwargs oneBackend (unsetAnd (.str "required")).items (.standalone, "rediss://seed/0"),
      AtLeastAsStrict (unsetAndTarget (.str "required")).clientKwargs own := by
  have hresolved := resolveRedisTargets_unsetAnd (.str "required")
  have hrec := recognised_unsetAnd (v := .str "required") (by decide +kernel)
  refine ⟨hresolved, (target_strict_iff hresolved (List.mem_singleton_self _) hrec).mpr ⟨fun _ => ?_, fun hmixed => ?_⟩⟩
  · refine ⟨certReqsOnly (.str "required"), ?_, .str "required", rfl, by decide +kernel⟩
    change _ ∈ ownKwargs oneBackend (unsetAnd (.str "required")).items (.standalone, "rediss://seed/0")
    rw [ownKwargs_unsetAnd]
    exact List.mem_cons_of_mem _ (List.mem_singleton_self _)
  · obtain ⟨-, own, hown, hset⟩ := hmixed
    change own ∈ ownKwargs oneBackend (unsetAnd (.str "required")).items (.standalone, "rediss://seed/0") at hown
    rw [ownKwargs_unsetAnd] at hown
    rcases List.mem_pair.mp hown with rfl | rfl
    · exact absurd rfl hset
    · exact absurd rfl hset

/-- An alias without TLS options shares its location with one that turns verification off: the
client of both verifies nothing. -/
theorem target_weaker :
    resolveRedisTargets oneBackend (unsetAnd (.str "none")) none none = .ok [unsetAndTarget (.str "none")] ∧
    (∀ own ∈ ownKwargs oneBackend (unsetAnd (.str "none")).items (.standalone, "rediss://seed/0"), Recognised own) ∧
    ¬∀ own ∈ ownKwargs oneBackend (unsetAnd (.str "none")).items (.standalone, "rediss://seed/0"),
      AtLeastAsStrict (unsetAndTarget (.str "none")).clientKwargs own := by
  refine ⟨resolveRedisTargets_unsetAnd _, recognised_unsetAnd (by decide +kernel), fun hall => ?_⟩
  rw [ownKwargs_unsetAnd] at hall
  have hrank := (hall (fun _ => none) (List.mem_cons_self ..)).rank
  revert hrank
  decide +kernel

end Instances

end DjangoQueues.Transport
