import DjangoQueues.Lib.SplitUrl
import DjangoQueues.Transport

/-! The location that a Redis client is made from: the TLS keys of its query are taken out, so that the TLS options of
the settings are not overridden by them, and nothing else of it changes. -/

namespace DjangoQueues.Transport

open FormEncoding SplitUrl

/-- What splitting a URL leaves to tables of the standard library: which authorities are refused, which schemes are
written with an empty authority, and `str.lower`. -/
structure UrlLibrary where
  validNetloc : List Char → Bool
  usesNetloc : List Char → Bool
  lower : List Char → List Char

/-- `_TLS_OPTION_KEYS`. -/
def tlsOptionKeys : List (List Char) := TlsKey.all.map fun key => key.name.toList

section Location

variable (lib : UrlLibrary)

/-- The name of a pair is a TLS key in some case of its letters. -/
def isTlsName (name : List Char) : Bool := lib.lower name ∈ tlsOptionKeys

def keptPairs (query : List Char) : List (List Char × List Char) :=
  (parseQsl true query).filter fun pair => !isTlsName lib pair.1

/-- `redis_from_url_location`; `none` where `urlsplit` raises. -/
def redisFromUrlLocation (url : List Char) : Option (List Char) :=
  (urlsplit lib.validNetloc url).map fun parsed =>
    if parsed.query = [] then url
    else if (keptPairs lib parsed.query).length = (parseQsl true parsed.query).length then url
    else urlunsplit lib.usesNetloc { parsed with query := urlencode (keptPairs lib parsed.query) }

variable {lib} {url query : List Char} {parsed : SplitUrl}

theorem parseQsl_nil : parseQsl true [] = [] := rfl

theorem keptPairs_length :
    (keptPairs lib query).length = (parseQsl true query).length ↔
      ∀ pair ∈ parseQsl true query, isTlsName lib pair.1 = false := by
  rw [keptPairs, List.length_filter_eq_length_iff]
  simp

theorem redisFromUrlLocation_of_kept (hsplit : urlsplit lib.validNetloc url = some parsed)
    (hkept : ∀ pair ∈ parseQsl true parsed.query, isTlsName lib pair.1 = false) :
    redisFromUrlLocation lib url = some url := by
  rw [redisFromUrlLocation, hsplit, Option.map_some, if_pos (keptPairs_length.mpr hkept), ite_self]

theorem urlencode_safe {pairs : List (List Char × List Char)} {c : Char} (h : c ∈ urlencode pairs) :
    c ≠ '#' ∧ isRemoved c = false := by
  rcases urlencode_chars h with rfl | rfl | hquoted
  · decide
  · decide
  · obtain ⟨hlt, -, -, -, hhash⟩ := hquoted
    refine ⟨hhash, ?_⟩
    by_contra hne
    simp only [isRemoved, Bool.not_eq_false, Bool.or_eq_true, decide_eq_true_eq] at hne
    rcases hne with (rfl | rfl) | rfl <;> revert hlt <;> decide

/-- The location has the parts of the URL, but for the pairs that are kept of its query. -/
theorem redisFromUrlLocation_parts (hsplit : urlsplit lib.validNetloc url = some parsed) :
    ∃ location query, redisFromUrlLocation lib url = some location ∧
      urlsplit lib.validNetloc location = some { parsed with query := query } ∧
      parseQsl true query = keptPairs lib parsed.query := by
  by_cases hkept : ∀ pair ∈ parseQsl true parsed.query, isTlsName lib pair.1 = false
  · refine ⟨url, parsed.query, redisFromUrlLocation_of_kept hsplit hkept, hsplit, ?_⟩
    symm
    apply List.filter_eq_self.mpr
    intro pair hpair
    simp [hkept pair hpair]
  · have hquery : parsed.query ≠ [] := by
      intro hnil
      rw [hnil, parseQsl_nil] at hkept
      exact hkept fun pair hpair => absurd hpair List.not_mem_nil
    refine ⟨urlunsplit lib.usesNetloc { parsed with query := urlencode (keptPairs lib parsed.query) },
      urlencode (keptPairs lib parsed.query), ?_, ?_, parseQsl_urlencode _⟩
    · rw [redisFromUrlLocation, hsplit, Option.map_some, if_neg hquery, if_neg fun h => hkept (keptPairs_length.mp h)]
    · exact urlsplit_urlunsplit hsplit fun c hc => urlencode_safe hc

/-- The scheme that the TLS options are checked against is the one of the parts. -/
theorem urlScheme_eq (url : String) : (urlScheme url).toList = (parts url.toList).scheme := by
  have hclean : ((url.toList.dropWhile fun c => c.toNat ≤ 32).filter fun c => c ≠ '\t' ∧ c ≠ '\r' ∧ c ≠ '\n') =
      cleaned url.toList := by
    unfold cleaned
    congr 1
    funext c
    simp [isRemoved, Bool.and_assoc]
  have hcolon (text : List Char) : (text.takeWhile (· ≠ ':')).length < text.length ↔ ':' ∈ text := by
    constructor
    · intro hlt
      by_contra hnot
      have hne : ∀ c ∈ text, decide (c ≠ ':') = true := by
        intro c hc
        exact decide_eq_true fun heq => hnot (heq ▸ hc)
      rw [List.takeWhile_eq_self_iff.2 hne] at hlt
      exact lt_irrefl _ hlt
    · intro hmem
      apply lt_of_le_of_ne (List.takeWhile_sublist _).length_le
      intro hlen
      rw [← (List.takeWhile_sublist _).eq_of_length hlen] at hmem
      simpa using List.mem_takeWhile_imp hmem
  change _ = (splitScheme (cleaned url.toList)).1
  unfold urlScheme
  dsimp only
  rw [hclean]
  generalize cleaned url.toList = text
  have hiff : ((text.takeWhile (· ≠ ':')).length < text.length ∧
      ((text.takeWhile (· ≠ ':')).head?.any Char.isAlpha) = true ∧
      (text.takeWhile (· ≠ ':')).all (fun c => c.isAlphanum ∨ c = '+' ∨ c = '-' ∨ c = '.') = true) ↔
      hasScheme text = true := by
    have hhead : (text.takeWhile (· ≠ ':')).head?.any Char.isAlpha = text.head?.any Char.isAlpha := by
      cases text with
      | nil => rfl
      | cons c text =>
        by_cases hc : c = ':'
        · rw [hc, List.takeWhile_cons_of_neg (by simp)]
          rfl
        · rw [head_takeWhile (by simp [hc])]
          rfl
    have hall : (fun c : Char => decide (c.isAlphanum ∨ c = '+' ∨ c = '-' ∨ c = '.')) = isSchemeChar := by
      funext c
      simp [isSchemeChar, Bool.or_assoc]
    rw [hcolon, hhead, hall, hasScheme, Bool.and_eq_true, Bool.and_eq_true, decide_eq_true_eq]
  unfold splitScheme
  by_cases h : hasScheme text = true
  · rw [if_pos (hiff.mpr h), if_pos h]
    simp [String.toLower, cutAt]
  · rw [if_neg (mt hiff.mp h), if_neg h]
    rfl

/-- The location is checked as the URL is. -/
theorem urlScheme_location {url location : String} (hsplit : urlsplit lib.validNetloc url.toList = some parsed)
    (hlocation : redisFromUrlLocation lib url.toList = some location.toList) : urlScheme location = urlScheme url := by
  obtain ⟨location', query, hlocation', hsplit', -⟩ := redisFromUrlLocation_parts hsplit
  obtain rfl := Option.some.inj (hlocation'.symm.trans hlocation)
  apply String.toList_injective
  rw [urlScheme_eq, urlScheme_eq, ← parts_of_urlsplit hsplit, ← parts_of_urlsplit hsplit']

/-- For every URL that is split at all, the location is split into the same parts, its query has the same pairs in the
same order without those of the TLS keys, blank values included, and a second pass changes nothing. -/
theorem tls_keys_stripped (hsplit : urlsplit lib.validNetloc url = some parsed) :
    ∃ location query, redisFromUrlLocation lib url = some location ∧
      urlsplit lib.validNetloc location = some { parsed with query := query } ∧
      parseQsl true query = (parseQsl true parsed.query).filter (fun pair => lib.lower pair.1 ∉ tlsOptionKeys) ∧
      redisFromUrlLocation lib location = some location := by
  obtain ⟨location, query, hlocation, hsplit', hpairs⟩ := redisFromUrlLocation_parts hsplit
  refine ⟨location, query, hlocation, hsplit', ?_, ?_⟩
  · rw [hpairs, keptPairs]
    apply List.filter_congr
    intro pair _
    simp [isTlsName]
  · apply redisFromUrlLocation_of_kept hsplit'
    intro pair hpair
    rw [hpairs] at hpair
    simpa using (List.mem_filter.mp hpair).2

end Location

/-! ### The options of the client -/

/-- The options that redis-py reads from a URL, by name; none at all where it raises. -/
abbrev ParseUrl := List Char → Option (List Char → Option OptionValue)

/-- The values of a name in `parse_qs` of the query. -/
def valuesOf (name query : List Char) : List (List Char) :=
  ((parseQsl false query).filter fun pair => pair.1 = name).map Prod.snd

/-- Of the query, `parse_url` reads for each option the values of its name, and no TLS option comes from elsewhere. -/
structure ReadsByName (lib : UrlLibrary) (parseUrl : ParseUrl) : Prop where
  option : ∀ {url url' parsed query own own'} (name), urlsplit lib.validNetloc url = some parsed →
    urlsplit lib.validNetloc url' = some { parsed with query := query } →
    parseUrl url = some own → parseUrl url' = some own' →
    valuesOf name query = valuesOf name parsed.query → own' name = own name
  tls : ∀ {url parsed own} (name), urlsplit lib.validNetloc url = some parsed → parseUrl url = some own →
    isTlsName lib name → valuesOf name parsed.query = [] → own name = none

/-- `_url_tls_keys` through `redis.connection.parse_url`. -/
def urlTlsKeys (parseUrl : ParseUrl) (url : String) : TlsOptions := fun key =>
  (parseUrl url.toList).bind fun own => own key.name.toList

/-- TLS options as keyword arguments. -/
def keyword (kwargs : TlsOptions) (name : List Char) : Option OptionValue :=
  (TlsKey.all.find? fun key => key.name.toList = name).bind kwargs

/-- `from_url`, where an option of the URL overrides the keyword argument of its name. -/
def fromUrl (parseUrl : ParseUrl) (url : List Char) (kwargs : TlsOptions) : Option (List Char → Option OptionValue) :=
  (parseUrl url).map fun own name => (own name).or (keyword kwargs name)

/-- `_create_async_client`. -/
def createAsyncClient (lib : UrlLibrary) (parseUrl : ParseUrl) (url : String) (kwargs : TlsOptions) :
    Option (List Char → Option OptionValue) :=
  (redisFromUrlLocation lib url.toList).bind fun location => fromUrl parseUrl location kwargs

section Client

variable {lib : UrlLibrary} {query name : List Char} {pairs : List (List Char × List Char)}

theorem keyword_name (kwargs : TlsOptions) (key : TlsKey) : keyword kwargs key.name.toList = kwargs key := by
  have hfind : TlsKey.all.find? (fun k => k.name.toList = key.name.toList) = some key := by
    cases key <;> decide +kernel
  rw [keyword, hfind, Option.bind_some]

theorem keyword_of_not_mem (kwargs : TlsOptions) (h : name ∉ tlsOptionKeys) : keyword kwargs name = none := by
  have hfind : TlsKey.all.find? (fun key => key.name.toList = name) = none := by
    rw [List.find?_eq_none]
    intro key hkey hname
    exact h (List.mem_map.mpr ⟨key, hkey, of_decide_eq_true hname⟩)
  rw [keyword, hfind, Option.bind_none]

/-- The name has the values that it has among the pairs that are kept. -/
theorem valuesOf_of_kept {query' : List Char} (hpairs : parseQsl true query' = keptPairs lib query) :
    valuesOf name query' = if isTlsName lib name then [] else valuesOf name query := by
  unfold valuesOf
  rw [parseQsl_false, hpairs, parseQsl_false, keptPairs]
  simp only [List.filter_filter]
  split_ifs with htls
  · rw [List.map_eq_nil_iff, List.filter_eq_nil_iff]
    intro pair _ hpair
    simp only [Bool.and_eq_true, decide_eq_true_eq, Bool.not_eq_true'] at hpair
    rw [hpair.1] at hpair
    exact absurd htls (by simp [hpair.2.2])
  · congr 1
    apply List.filter_congr
    intro pair _
    by_cases hname : pair.1 = name
    · simp [hname, Bool.eq_false_iff.mpr htls]
    · simp [hname]

theorem tlsOptionKeys_name (key : TlsKey) : key.name.toList ∈ tlsOptionKeys := by
  apply List.mem_map_of_mem
  cases key <;> decide

/-- The keyword arguments are the options of the settings, and where these are unset those of the URL. -/
theorem redisClientKwargs_eq {libraries : Libraries} {url : String} {options kwargs : TlsOptions}
    (h : redisClientKwargs libraries url options = .ok kwargs) (key : TlsKey) :
    kwargs key = if key = .ssl then none else (options key).or (libraries.urlTlsKeys url key) := by
  unfold redisClientKwargs at h
  dsimp only at h
  split_ifs at h with hscheme hempty hssl
  · obtain ⟨hoptions, hurl⟩ := hempty
    have hkey : key ∈ TlsKey.all := by cases key <;> decide
    have hnone : options key = none := by simpa using List.all_eq_true.mp hoptions key hkey
    have hurlNone : libraries.urlTlsKeys url key = none := by simpa using List.all_eq_true.mp hurl key hkey
    rw [← Except.ok.inj h, hnone, hurlNone, Option.or_none, ite_self]
  · rw [← Except.ok.inj h]

/-- A client that is made at all has the TLS options of the settings, and where these are unset those of its URL;
every other option is the one of the URL, and a TLS key in another case of its letters is dropped. -/
theorem tls_options_win {parseUrl asyncParseUrl : ParseUrl} {importString : String → Option Backend} {url : String}
    {options kwargs : TlsOptions} {client : List Char → Option OptionValue} (hreads : ReadsByName lib asyncParseUrl)
    (hlower : ∀ key : TlsKey, lib.lower key.name.toList = key.name.toList)
    (hkwargs : redisClientKwargs ⟨importString, urlTlsKeys parseUrl⟩ url options = .ok kwargs)
    (hclient : createAsyncClient lib asyncParseUrl url kwargs = some client) :
    (∀ key : TlsKey, client key.name.toList =
      if key = .ssl then none else (options key).or (urlTlsKeys parseUrl url key)) ∧
    (∀ name own, lib.lower name ∉ tlsOptionKeys → asyncParseUrl url.toList = some own → client name = own name) ∧
    ∀ name, lib.lower name ∈ tlsOptionKeys → name ∉ tlsOptionKeys → client name = none := by
  have htlsName : ∀ key : TlsKey, isTlsName lib key.name.toList := by
    intro key
    rw [isTlsName, hlower]
    exact decide_eq_true (tlsOptionKeys_name key)
  obtain ⟨location, hlocation, hfrom⟩ := Option.bind_eq_some_iff.mp hclient
  obtain ⟨own', hown', rfl⟩ := Option.map_eq_some_iff.mp hfrom
  obtain ⟨parsed, hsplit, -⟩ := Option.map_eq_some_iff.mp hlocation
  obtain ⟨location', query, hlocation', hsplit', hpairs⟩ := redisFromUrlLocation_parts hsplit
  obtain rfl := Option.some.inj (hlocation.symm.trans hlocation')
  have hnone : ∀ name, isTlsName lib name → own' name = none := by
    intro name htls
    apply hreads.tls name hsplit' hown' htls
    rw [valuesOf_of_kept hpairs, if_pos htls]
  refine ⟨fun key => ?_, fun name own hname hown => ?_, fun name hname hkey => ?_⟩
  · dsimp only
    rw [hnone _ (htlsName key), Option.none_or, keyword_name]
    exact redisClientKwargs_eq hkwargs key
  · have htls : isTlsName lib name = false := decide_eq_false hname
    have hkey : name ∉ tlsOptionKeys := by
      intro hmem
      obtain ⟨key, -, rfl⟩ := List.mem_map.mp hmem
      exact absurd (htlsName key) (by simp [htls])
    dsimp only
    rw [keyword_of_not_mem kwargs hkey, Option.or_none]
    apply hreads.option name hsplit hsplit' hown hown'
    rw [valuesOf_of_kept hpairs, if_neg (by simp [htls])]
  · dsimp only
    rw [hnone name (decide_eq_true hname), keyword_of_not_mem kwargs hkey]
    rfl

end Client

section Instances

/-- ASCII locations without brackets. -/
def asciiLibrary : UrlLibrary where
  validNetloc := fun netloc => netloc.all fun c => c.toNat < 128 ∧ c ≠ '[' ∧ c ≠ ']'
  usesNetloc := fun _ => false
  lower := List.map Char.toLower

/-- The host, the connection class of `rediss` and the texts of the query, for URLs without user, port and path. -/
def seedOptions (parsed : SplitUrl) (name : List Char) : Option OptionValue :=
  if name = "host".toList then some (.str (String.ofList parsed.netloc))
  else if name = "connection_class".toList then some (.object 0)
  else (valuesOf name parsed.query).head?.map fun v => .str (String.ofList v)

def seedParseUrl : ParseUrl := fun url =>
  ((urlsplit asciiLibrary.validNetloc url).filter fun parsed => parsed.scheme = "rediss".toList).map seedOptions

def seedUrl : String := "rediss://seed?ssl_cert_reqs=none&client_name=worker"

def seedParts : SplitUrl :=
  ⟨"rediss".toList, "seed".toList, [], "ssl_cert_reqs=none&client_name=worker".toList, []⟩

theorem urlsplit_seedUrl : urlsplit asciiLibrary.validNetloc seedUrl.toList = some seedParts := by decide +kernel

theorem tls_keys_stripped_seed :
    ∃ location query, redisFromUrlLocation asciiLibrary seedUrl.toList = some location ∧
      urlsplit asciiLibrary.validNetloc location = some { seedParts with query := query } ∧
      parseQsl true query = (parseQsl true seedParts.query).filter
        (fun pair => asciiLibrary.lower pair.1 ∉ tlsOptionKeys) ∧
      redisFromUrlLocation asciiLibrary location = some location :=
  tls_keys_stripped urlsplit_seedUrl

theorem seedParseUrl_eq {url : List Char} {parsed : SplitUrl} {own : List Char → Option OptionValue}
    (hsplit : urlsplit asciiLibrary.validNetloc url = some parsed) (hown : seedParseUrl url = some own) :
    own = seedOptions parsed := by
  obtain ⟨parsed', hparsed, rfl⟩ := Option.map_eq_some_iff.mp hown
  rw [hsplit, Option.filter_some] at hparsed
  split_ifs at hparsed
  rw [Option.some.inj hparsed]

theorem readsByName_seedParseUrl : ReadsByName asciiLibrary seedParseUrl where
  option := by
    intro url url' parsed query own own' name hsplit hsplit' hown hown' hvalues
    rw [seedParseUrl_eq hsplit hown, seedParseUrl_eq hsplit' hown', seedOptions, seedOptions, hvalues]
  tls := by
    intro url parsed own name hsplit hown htls hvalues
    have hhost : name ≠ "host".toList := by
      rintro rfl
      revert htls
      decide +kernel
    have hclass : name ≠ "connection_class".toList := by
      rintro rfl
      revert htls
      decide +kernel
    rw [seedParseUrl_eq hsplit hown, seedOptions, if_neg hhost, if_neg hclass, hvalues]
    rfl

def requiredOptions : TlsOptions := certReqsOnly (.str "required")

/-- The settings ask for a certificate that the URL would not ask for. -/
theorem tls_options_win_seed :
    ∃ kwargs client, redisClientKwargs ⟨fun _ => none, urlTlsKeys seedParseUrl⟩ seedUrl requiredOptions = .ok kwargs ∧
      createAsyncClient asciiLibrary seedParseUrl seedUrl kwargs = some client ∧
      client TlsKey.sslCertReqs.name.toList = some (.str "required") ∧
      client "client_name".toList = some (.str "worker") := by
  have hok : (redisClientKwargs ⟨fun _ => none, urlTlsKeys seedParseUrl⟩ seedUrl requiredOptions).isOk = true := by
    decide +kernel
  obtain ⟨kwargs, hkwargs⟩ : ∃ kwargs,
      redisClientKwargs ⟨fun _ => none, urlTlsKeys seedParseUrl⟩ seedUrl requiredOptions = .ok kwargs := by
    cases h : redisClientKwargs ⟨fun _ => none, urlTlsKeys seedParseUrl⟩ seedUrl requiredOptions with
    | error e =>
      rw [h] at hok
      cases hok
    | ok kwargs => exact ⟨kwargs, rfl⟩
  have hmade : ((redisFromUrlLocation asciiLibrary seedUrl.toList).bind seedParseUrl).isSome = true := by
    decide +kernel
  obtain ⟨own, hown⟩ := Option.isSome_iff_exists.mp hmade
  obtain ⟨location, hlocation, hparse⟩ := Option.bind_eq_some_iff.mp hown
  have hclient : createAsyncClient asciiLibrary seedParseUrl seedUrl kwargs =
      some fun name => (own name).or (keyword kwargs name) := by
    rw [createAsyncClient, hlocation, Option.bind_some, fromUrl, hparse]
    rfl
  have hlower : ∀ key : TlsKey, asciiLibrary.lower key.name.toList = key.name.toList := by
    intro key
    cases key <;> decide +kernel
  have hwin := tls_options_win readsByName_seedParseUrl hlower hkwargs hclient
  refine ⟨kwargs, _, hkwargs, hclient, ?_, ?_⟩
  · rw [hwin.1 .sslCertReqs]
    rfl
  · have hseed : seedParseUrl seedUrl.toList = some (seedOptions seedParts) := by
      rw [seedParseUrl, urlsplit_seedUrl, Option.filter_some, if_pos (by decide)]
      rfl
    rw [hwin.2.1 "client_name".toList _ (by decide +kernel) hseed]
    decide +kernel

end Instances

end DjangoQueues.Transport
