import DjangoQueues.Transport

/-! The merge of the TLS options of any number of aliases. It depends on the options and not on their order: the
strictest certificate requirement, a hostname check where one alias asks for it, and for every other key the one set
value that all aliases agree on. -/

namespace DjangoQueues.Transport

/-! ### Equality of option values -/

theorem OptionValue.equal_iff (v w : OptionValue) :
    v.equal w = true ↔ (∃ x, v.number? = some x ∧ w.number? = some x) ∨
      v.number? = Option.none ∧ v = w ∧ v ≠ nan := by
  unfold OptionValue.equal
  cases hv : v.number? with
  | none =>
    simp only [decide_eq_true_eq, reduceCtorEq, false_and, exists_false, false_or, true_and]
  | some x =>
    cases hw : w.number? with
    | none =>
      have hne : v ≠ w := by
        rintro rfl
        rw [hv] at hw
        cases hw
      simp [hne]
    | some y =>
      simp only [decide_eq_true_eq, Option.some.injEq, exists_eq_left', reduceCtorEq, false_and, or_false]
      exact eq_comm

theorem OptionValue.equal_symm {v w : OptionValue} (h : v.equal w = true) : w.equal v = true := by
  rw [OptionValue.equal_iff] at h ⊢
  rcases h with ⟨x, hv, hw⟩ | ⟨hv, rfl, hnan⟩
  · exact .inl ⟨x, hw, hv⟩
  · exact .inr ⟨hv, rfl, hnan⟩

theorem OptionValue.equal_trans {u v w : OptionValue} (h : u.equal v = true) (h' : v.equal w = true) :
    u.equal w = true := by
  rw [OptionValue.equal_iff] at h h' ⊢
  rcases h with ⟨x, hu, hv⟩ | ⟨hu, rfl, hnan⟩
  · rcases h' with ⟨y, hv', hw⟩ | ⟨hv', rfl, -⟩
    · rw [hv] at hv'
      rw [← Option.some.inj hv'] at hw
      exact .inl ⟨x, hu, hw⟩
    · rw [hv] at hv'
      cases hv'
  · exact h'

/-! ### One key -/

/-- The value of a key, where it is set. -/
def setValue (key : TlsKey) (kwargs : TlsOptions) : Option OptionValue := (kwargs key).filter tlsOptionSet

/-- Both do not set different values. -/
def Agree (a b : Option OptionValue) : Prop := ∀ v w, a = some v → b = some w → v.equal w = true

theorem Agree.symm {a b : Option OptionValue} (h : Agree a b) : Agree b a :=
  fun v w hv hw => OptionValue.equal_symm (h w v hw hv)

theorem setValue_update_self {key : TlsKey} {incoming : TlsOptions} {v : OptionValue}
    (h : setValue key incoming = some v) (merged : TlsOptions) :
    setValue key (Function.update merged key (some v)) = some v := by
  rw [setValue, Function.update_self]
  exact Option.filter_eq_some_iff.mpr ⟨rfl, (Option.filter_eq_some_iff.mp h).2⟩

/-- A key is merged where both agree, and then the value that was there first stays. -/
theorem mergeAgreeing_cases (incoming merged : TlsOptions) (key : TlsKey) :
    (∃ merged', mergeAgreeing incoming merged key = .ok merged' ∧ Agree (setValue key merged) (setValue key incoming) ∧
      setValue key merged' = (setValue key merged).or (setValue key incoming)) ∨
    (∃ err, mergeAgreeing incoming merged key = .error err) ∧ ¬Agree (setValue key merged) (setValue key incoming) := by
  unfold mergeAgreeing
  cases hi : (incoming key).filter tlsOptionSet with
  | none =>
    refine .inl ⟨merged, rfl, ?_, ?_⟩
    · intro v w hv hw
      rw [setValue, hi] at hw
      cases hw
    · rw [setValue, setValue, hi, Option.or_none]
  | some w =>
    cases hm : (merged key).filter tlsOptionSet with
    | none =>
      refine .inl ⟨_, rfl, ?_, ?_⟩
      · intro v w hv hw
        rw [setValue, hm] at hv
        cases hv
      · rw [setValue_update_self hi, setValue, setValue, hi, hm]
        rfl
    | some v =>
      dsimp only
      split_ifs with heq
      · refine .inl ⟨merged, rfl, ?_, ?_⟩
        · intro v' w' hv' hw'
          rw [setValue, hm] at hv'
          rw [setValue, hi] at hw'
          rw [← Option.some.inj hv', ← Option.some.inj hw']
          exact heq
        · rw [setValue, setValue, hm]
          rfl
      · refine .inr ⟨⟨_, rfl⟩, fun h => heq ?_⟩
        exact h v w hm hi

/-! ### One mapping -/

/-- The keys are merged one after the other, and none is affected by the others. -/
theorem foldlM_mergeAgreeing_cases (incoming : TlsOptions) (keys : List TlsKey) (hnodup : keys.Nodup)
    (merged : TlsOptions) :
    (∃ merged', keys.foldlM (mergeAgreeing incoming) merged = .ok merged' ∧
      ∀ key ∈ keys, Agree (setValue key merged) (setValue key incoming) ∧
        setValue key merged' = (setValue key merged).or (setValue key incoming)) ∨
    (∃ err, keys.foldlM (mergeAgreeing incoming) merged = .error err) ∧
      ∃ key ∈ keys, ¬Agree (setValue key merged) (setValue key incoming) := by
  induction keys generalizing merged with
  | nil => exact .inl ⟨merged, rfl, fun key hkey => by cases hkey⟩
  | cons key keys ih =>
    rw [List.nodup_cons] at hnodup
    rw [List.foldlM_cons]
    rcases mergeAgreeing_cases incoming merged key with ⟨next, hnext, hagree, hset⟩ | ⟨⟨err, herr⟩, hnot⟩
    · rw [hnext]
      have hother : ∀ k ∈ keys, setValue k next = setValue k merged := by
        intro k hk
        have hne : k ≠ key := fun heq => hnodup.1 (heq ▸ hk)
        rw [setValue, mergeAgreeing_other hnext hne, setValue]
      rcases ih hnodup.2 next with ⟨merged', hmerged, hall⟩ | ⟨herr, k, hk, hnot⟩
      · refine .inl ⟨merged', hmerged, fun k hk => ?_⟩
        rcases List.mem_cons.mp hk with rfl | hk
        · refine ⟨hagree, ?_⟩
          rw [setValue, foldlM_mergeAgreeing_other hnodup.1 hmerged]
          exact hset
        · rw [← hother k hk]
          exact hall k hk
      · rw [hother k hk] at hnot
        exact .inr ⟨herr, k, List.mem_cons_of_mem _ hk, hnot⟩
    · rw [herr]
      exact .inr ⟨⟨err, rfl⟩, key, List.mem_cons_self, hnot⟩

theorem TlsKey.agreeing_ne {key : TlsKey} (h : key ∈ agreeing) : key ≠ sslCertReqs ∧ key ≠ sslCheckHostname := by
  revert h
  cases key <;> decide

theorem stricterTlsClientKwargs_cases (current incoming : TlsOptions) :
    (∃ merged, stricterTlsClientKwargs current incoming = .ok merged ∧
      ∀ key ∈ TlsKey.agreeing, Agree (setValue key current) (setValue key incoming) ∧
        setValue key merged = (setValue key current).or (setValue key incoming)) ∨
    (∃ err, stricterTlsClientKwargs current incoming = .error err) ∧
      ∃ key ∈ TlsKey.agreeing, ¬Agree (setValue key current) (setValue key incoming) := by
  have hbase : ∀ key ∈ TlsKey.agreeing,
      setValue key (mergeCertReqs (mergeHostname current incoming) incoming) = setValue key current := by
    intro key hkey
    obtain ⟨hcert, hhost⟩ := TlsKey.agreeing_ne hkey
    rw [setValue, mergeCertReqs_other hcert, mergeHostname_other hhost, setValue]
  rcases foldlM_mergeAgreeing_cases incoming TlsKey.agreeing (by decide)
    (mergeCertReqs (mergeHostname current incoming) incoming) with ⟨merged, hmerged, hall⟩ | ⟨herr, key, hkey, hnot⟩
  · refine .inl ⟨merged, hmerged, fun key hkey => ?_⟩
    rw [← hbase key hkey]
    exact hall key hkey
  · rw [hbase key hkey] at hnot
    exact .inr ⟨herr, key, hkey, hnot⟩

/-! ### A list of mappings -/

/-- `stricter_tls_client_kwargs` folded over the mappings after the first. -/
def mergeTlsClientKwargs (first : TlsOptions) (rest : List TlsOptions) : Except String TlsOptions :=
  rest.foldlM stricterTlsClientKwargs first

/-- No two of the mappings set a key to different values. -/
def AllAgree (owns : List TlsOptions) : Prop :=
  ∀ key ∈ TlsKey.agreeing, owns.Pairwise fun a b => Agree (setValue key a) (setValue key b)

theorem AllAgree.perm {owns owns' : List TlsOptions} (h : AllAgree owns) (hp : owns.Perm owns') : AllAgree owns' :=
  fun key hkey => (hp.pairwise_iff fun hab => hab.symm).mp (h key hkey)

/-- The merge of mappings that agree: for each key the first value that is set. -/
structure MergedAll (kwargs : TlsOptions) (owns : List TlsOptions) : Prop where
  strictest : Merged kwargs owns
  agree : AllAgree owns
  first : ∀ key ∈ TlsKey.agreeing, setValue key kwargs = owns.findSome? (setValue key)

theorem MergedAll.singleton (kwargs : TlsOptions) : MergedAll kwargs [kwargs] where
  strictest := .singleton kwargs
  agree _ _ := List.pairwise_singleton _ _
  first key _ := by
    rw [List.findSome?_cons]
    cases setValue key kwargs <;> rfl

/-- Where the mappings agree, the first value that is set is equal to all of them. -/
theorem eq_or_equal_of_findSome? {key : TlsKey} {owns : List TlsOptions}
    (h : owns.Pairwise fun a b => Agree (setValue key a) (setValue key b)) {v w : OptionValue}
    (hv : owns.findSome? (setValue key) = some v) {own : TlsOptions} (hown : own ∈ owns)
    (hw : setValue key own = some w) : v = w ∨ v.equal w = true := by
  induction owns with
  | nil => cases hown
  | cons a owns ih =>
    rw [List.pairwise_cons] at h
    rw [List.findSome?_cons] at hv
    cases ha : setValue key a with
    | none =>
      rw [ha] at hv
      rcases List.mem_cons.mp hown with rfl | hown
      · rw [ha] at hw
        cases hw
      · exact ih h.2 hv hown
    | some x =>
      rw [ha] at hv
      obtain rfl := Option.some.inj hv
      rcases List.mem_cons.mp hown with rfl | hown
      · exact .inl (Option.some.inj (ha.symm.trans hw))
      · exact .inr (h.1 own hown x w ha hw)

/-- A further mapping agrees with the merge where it agrees with everything that is merged. -/
theorem MergedAll.agree_iff {kwargs : TlsOptions} {owns : List TlsOptions} (h : MergedAll kwargs owns) {key : TlsKey}
    (hkey : key ∈ TlsKey.agreeing) (incoming : Option OptionValue) :
    Agree (setValue key kwargs) incoming ↔ ∀ own ∈ owns, Agree (setValue key own) incoming := by
  rw [h.first key hkey]
  constructor
  · intro hagree own hown v w hv hw
    cases hfirst : owns.findSome? (setValue key) with
    | none =>
      rw [List.findSome?_eq_none_iff.mp hfirst own hown] at hv
      cases hv
    | some x =>
      have hxw : x.equal w = true := hagree x w hfirst hw
      rcases eq_or_equal_of_findSome? (h.agree key hkey) hfirst hown hv with rfl | hxv
      · exact hxw
      · exact OptionValue.equal_trans (OptionValue.equal_symm hxv) hxw
  · intro hall v w hv hw
    obtain ⟨own, hown, hset⟩ := List.exists_of_findSome?_eq_some hv
    exact hall own hown v w hset hw

theorem pairwise_snoc {α : Type*} {R : α → α → Prop} {l : List α} {a : α} :
    (l ++ [a]).Pairwise R ↔ l.Pairwise R ∧ ∀ b ∈ l, R b a := by
  rw [List.pairwise_append]
  simp

/-- One more mapping is merged where it agrees with the others. -/
theorem MergedAll.join {kwargs incoming : TlsOptions} {owns : List TlsOptions} (h : MergedAll kwargs owns)
    (hrec : ∀ own ∈ owns ++ [incoming], Recognised own) :
    (∃ merged, stricterTlsClientKwargs kwargs incoming = .ok merged ∧ MergedAll merged (owns ++ [incoming])) ∨
    (∃ err, stricterTlsClientKwargs kwargs incoming = .error err) ∧ ¬AllAgree (owns ++ [incoming]) := by
  rcases stricterTlsClientKwargs_cases kwargs incoming with ⟨merged, hmerged, hall⟩ | ⟨herr, key, hkey, hnot⟩
  · refine .inl ⟨merged, hmerged, h.strictest.join hrec hmerged, fun key hkey => ?_, fun key hkey => ?_⟩
    · exact pairwise_snoc.mpr ⟨h.agree key hkey, (h.agree_iff hkey _).mp (hall key hkey).1⟩
    · rw [(hall key hkey).2, h.first key hkey, List.findSome?_append]
      congr 1
      rw [List.findSome?_cons]
      cases setValue key incoming <;> rfl
  · refine .inr ⟨herr, fun hagree => hnot ?_⟩
    exact (h.agree_iff hkey _).mpr (pairwise_snoc.mp (hagree key hkey)).2

/-- Folding over mappings succeeds exactly where all agree. -/
theorem foldlM_stricter_cases {rest owns : List TlsOptions} {kwargs : TlsOptions} (h : MergedAll kwargs owns)
    (hrec : ∀ own ∈ owns ++ rest, Recognised own) :
    (∃ merged, rest.foldlM stricterTlsClientKwargs kwargs = .ok merged ∧ MergedAll merged (owns ++ rest)) ∨
    (∃ err, rest.foldlM stricterTlsClientKwargs kwargs = .error err) ∧ ¬AllAgree (owns ++ rest) := by
  induction rest generalizing owns kwargs with
  | nil =>
    rw [List.append_nil]
    exact .inl ⟨kwargs, rfl, h⟩
  | cons incoming rest ih =>
    have hsplit : owns ++ incoming :: rest = (owns ++ [incoming]) ++ rest := by rw [List.append_assoc]; rfl
    rw [hsplit] at hrec ⊢
    rw [List.foldlM_cons]
    rcases h.join fun own hown => hrec own (List.mem_append_left _ hown) with ⟨merged, hmerged, hnext⟩ | ⟨⟨err, herr⟩, hnot⟩
    · rw [hmerged]
      exact ih hnext hrec
    · rw [herr]
      refine .inr ⟨⟨err, rfl⟩, fun hagree => hnot fun key hkey => ?_⟩
      exact (List.pairwise_append.mp (hagree key hkey)).1

theorem mergeTlsClientKwargs_cases {first : TlsOptions} {rest : List TlsOptions}
    (hrec : ∀ own ∈ first :: rest, Recognised own) :
    (∃ merged, mergeTlsClientKwargs first rest = .ok merged ∧ MergedAll merged (first :: rest)) ∨
    (∃ err, mergeTlsClientKwargs first rest = .error err) ∧ ¬AllAgree (first :: rest) :=
  foldlM_stricter_cases (MergedAll.singleton first) hrec

/-! ### Order -/

theorem Strictest.perm {rank : OptionValue → ℕ} {v : Option OptionValue} {vs vs' : List (Option OptionValue)}
    (h : Strictest rank v vs) (hp : vs.Perm vs') : Strictest rank v vs' :=
  ⟨hp.mem_iff.mp h.1, fun u hu => h.2 u (hp.mem_iff.mpr hu)⟩

theorem Strictest.map_eq {rank : OptionValue → ℕ} {v u : Option OptionValue} {vs : List (Option OptionValue)}
    (hv : Strictest rank v vs) (hu : Strictest rank u vs) : v.map rank = u.map rank := by
  cases v with
  | none =>
    cases u with
    | none => rfl
    | some b =>
      obtain ⟨w, hw, -⟩ := hv.2 b hu.1
      cases hw
  | some a =>
    obtain ⟨b, rfl, hab⟩ := hu.2 a hv.1
    obtain ⟨c, hc, hba⟩ := hv.2 b hu.1
    rw [← Option.some.inj hc] at hba
    exact congrArg some (le_antisymm hab hba)

/-- The same value, where an absent key counts as one that is not set. -/
def SameSetValue (a b : Option OptionValue) : Prop :=
  match a, b with
  | none, none => True
  | some v, some w => v = w ∨ v.equal w = true
  | _, _ => False

/-- Both have the same effect on a client. -/
structure SameOptions (a b : TlsOptions) : Prop where
  certReqs : (a .sslCertReqs).map certReqsRank = (b .sslCertReqs).map certReqsRank
  checkHostname : a .sslCheckHostname = b .sslCheckHostname
  others : ∀ key ∈ TlsKey.agreeing, SameSetValue (setValue key a) (setValue key b)

/-- Both raise, or both succeed with the same effect. -/
def SameOutcome : Except String TlsOptions → Except String TlsOptions → Prop
  | .error _, .error _ => True
  | .ok a, .ok b => SameOptions a b
  | _, _ => False

theorem map_certReqsRank_eq {a b : TlsOptions} (ha : Recognised a) (hb : Recognised b)
    (h : (a .sslCertReqs).map certRank = (b .sslCertReqs).map certRank) :
    (a .sslCertReqs).map certReqsRank = (b .sslCertReqs).map certReqsRank := by
  cases hva : a .sslCertReqs with
  | none =>
    cases hvb : b .sslCertReqs with
    | none => rfl
    | some w =>
      rw [hva, hvb] at h
      cases h
  | some v =>
    cases hvb : b .sslCertReqs with
    | none =>
      rw [hva, hvb] at h
      cases h
    | some w =>
      obtain ⟨r, hr⟩ := Option.ne_none_iff_exists'.mp (ha.certReqs v hva)
      obtain ⟨q, hq⟩ := Option.ne_none_iff_exists'.mp (hb.certReqs w hvb)
      rw [hva, hvb] at h
      have hrank : certRank v = certRank w := Option.some.inj h
      rw [certRank, certRank, hr, hq] at hrank
      rw [Option.map_some, Option.map_some, hr, hq]
      exact congrArg (fun n => some (some n)) hrank

theorem checkHostname_eq {a b : TlsOptions} (ha : Recognised a) (hb : Recognised b)
    (h : (a .sslCheckHostname).map hostnameRank = (b .sslCheckHostname).map hostnameRank) :
    a .sslCheckHostname = b .sslCheckHostname := by
  cases hva : a .sslCheckHostname with
  | none =>
    cases hvb : b .sslCheckHostname with
    | none => rfl
    | some w =>
      rw [hva, hvb] at h
      cases h
  | some v =>
    cases hvb : b .sslCheckHostname with
    | none =>
      rw [hva, hvb] at h
      cases h
    | some w =>
      obtain ⟨c, rfl⟩ := ha.checkHostname v hva
      obtain ⟨d, rfl⟩ := hb.checkHostname w hvb
      rw [hva, hvb] at h
      have hrank : hostnameRank (.bool c) = hostnameRank (.bool d) := Option.some.inj h
      cases c <;> cases d <;> simp [hostnameRank] at hrank ⊢

theorem MergedAll.sameOptions {a b : TlsOptions} {owns owns' : List TlsOptions} (ha : MergedAll a owns)
    (hb : MergedAll b owns') (hp : owns.Perm owns') (hrec : ∀ own ∈ owns, Recognised own) : SameOptions a b := by
  have hrec' : ∀ own ∈ owns', Recognised own := fun own hown => hrec own (hp.mem_iff.mpr hown)
  have hrank (key : TlsKey) {rank : OptionValue → ℕ} {v u : Option OptionValue}
      (hv : Strictest rank v (owns.map (· key))) (hu : Strictest rank u (owns'.map (· key))) :
      v.map rank = u.map rank := (hv.perm (hp.map _)).map_eq hu
  refine ⟨?_, ?_, fun key hkey => ?_⟩
  · exact map_certReqsRank_eq (ha.strictest.recognised hrec) (hb.strictest.recognised hrec')
      (hrank _ ha.strictest.certReqs hb.strictest.certReqs)
  · exact checkHostname_eq (ha.strictest.recognised hrec) (hb.strictest.recognised hrec')
      (hrank _ ha.strictest.checkHostname hb.strictest.checkHostname)
  · rw [ha.first key hkey, hb.first key hkey]
    cases hfirst : owns.findSome? (setValue key) with
    | none =>
      have hnone : owns'.findSome? (setValue key) = none :=
        List.findSome?_eq_none_iff.mpr fun own hown =>
          List.findSome?_eq_none_iff.mp hfirst own (hp.mem_iff.mpr hown)
      rw [hnone]
      trivial
    | some v =>
      obtain ⟨own, hown, hset⟩ := List.exists_of_findSome?_eq_some hfirst
      cases hfirst' : owns'.findSome? (setValue key) with
      | none =>
        rw [List.findSome?_eq_none_iff.mp hfirst' own (hp.mem_iff.mp hown)] at hset
        cases hset
      | some w =>
        obtain ⟨own', hown', hset'⟩ := List.exists_of_findSome?_eq_some hfirst'
        exact eq_or_equal_of_findSome? (ha.agree key hkey) hfirst (hp.mem_iff.mpr hown') hset'

/-- Merging the mappings in another order raises as well or has the same effect, and it raises exactly where two of
them set the same key to different values. -/
theorem merge_order_independent {first first' : TlsOptions} {rest rest' : List TlsOptions}
    (hp : (first :: rest).Perm (first' :: rest')) (hrec : ∀ own ∈ first :: rest, Recognised own) :
    SameOutcome (mergeTlsClientKwargs first rest) (mergeTlsClientKwargs first' rest') ∧
    ((∃ err, mergeTlsClientKwargs first rest = .error err) ↔ ¬AllAgree (first :: rest)) := by
  have hrec' : ∀ own ∈ first' :: rest', Recognised own := fun own hown => hrec own (hp.mem_iff.mpr hown)
  rcases mergeTlsClientKwargs_cases hrec with ⟨a, hok, ha⟩ | ⟨⟨err, herr⟩, hnot⟩
  · rcases mergeTlsClientKwargs_cases hrec' with ⟨b, hok', hb⟩ | ⟨-, hnot'⟩
    · rw [hok, hok']
      refine ⟨ha.sameOptions hb hp hrec, ?_⟩
      constructor
      · rintro ⟨err, herr⟩
        cases herr
      · exact fun hnot => absurd ha.agree hnot
    · exact absurd (ha.agree.perm hp) hnot'
  · rcases mergeTlsClientKwargs_cases hrec' with ⟨b, -, hb⟩ | ⟨⟨err', herr'⟩, -⟩
    · exact absurd (hb.agree.perm hp.symm) hnot
    · rw [herr, herr']
      exact ⟨trivial, fun _ => hnot, fun _ => ⟨err, rfl⟩⟩

theorem merge_order_two :
    [certReqsOnly (.str "optional"), certReqsOnly (.str "required")].Perm
      [certReqsOnly (.str "required"), certReqsOnly (.str "optional")] ∧
    SameOutcome (mergeTlsClientKwargs (certReqsOnly (.str "optional")) [certReqsOnly (.str "required")])
      (mergeTlsClientKwargs (certReqsOnly (.str "required")) [certReqsOnly (.str "optional")]) := by
  have hp : [certReqsOnly (.str "optional"), certReqsOnly (.str "required")].Perm
      [certReqsOnly (.str "required"), certReqsOnly (.str "optional")] := List.Perm.swap ..
  have hrec : ∀ own ∈ [certReqsOnly (.str "optional"), certReqsOnly (.str "required")], Recognised own := by
    intro own hown
    rcases List.mem_pair.mp hown with rfl | rfl
    · exact recognised_certReqsOnly (by decide +kernel)
    · exact recognised_certReqsOnly (by decide +kernel)
  exact ⟨hp, (merge_order_independent hp hrec).1⟩

end DjangoQueues.Transport
