import DjangoQueues.Deployment.Lease

/-! Deployments with one lock key whose `FUNCTION LOAD` reaches the server within the thirty seconds of their lease:
what is replaced is what was looked at, and the installed API version goes down only where `--rollback` says so. -/

namespace DjangoQueues.Deployment

open Bytes

/-- The command reads its own bundled metadata in the installed source. -/
def ReadsBack (library : FunctionLibrary) : Prop :=
  readMarkedLines library.source.splitlines = .ok (library.libraryVersion, library.apiVersion)

/-- The commands exclude each other, and each one reads its own bundled metadata. -/
structure Compatible {ι : Type} (command : ι → Command) : Prop where
  sameKey : ∀ c c', (command c).target.lockKey? = (command c').target.lockKey?
  readsBack : ∀ c, ReadsBack (command c).library

/-- The installed source has these versions. -/
def ReadsAs (installed : Option Bytes) (version : String) (api : ℤ) : Prop :=
  ∃ code, installed = some code ∧ readMarkedLines code.splitlines = .ok (version, api)

/-- Nothing is installed, or readable metadata that the command may replace. -/
def MayReplace (command : Command) (installed : Option Bytes) : Prop :=
  ∀ code, installed = some code →
    ∃ version api, readMarkedLines code.splitlines = .ok (version, api) ∧
      (api ≤ command.library.apiVersion ∨ command.rollback = true)

theorem truthy_functionListReply (resp3 : Bool) (functions : RedisValue) (code : Bytes) :
    truthy (functionListReply resp3 functions code) = true := rfl

theorem deployVerdict_functionListReply (library : FunctionLibrary) (rollback resp3 : Bool) (functions : RedisValue)
    (code : Bytes) :
    deployVerdict library rollback (functionListReply resp3 functions code) =
      (readMarkedLines code.splitlines).bind fun v => judge library rollback v.1 v.2 := by
  rw [deployVerdict, if_pos (truthy_functionListReply resp3 functions code),
    readInstalledLibraryInfo_functionListReply]

theorem judge_eq_load {library : FunctionLibrary} {rollback : Bool} {version : String} {api : ℤ}
    (h : judge library rollback version api = .ok .load) : api ≤ library.apiVersion ∨ rollback = true := by
  unfold judge at h
  split_ifs at h with hnewer hsame
  · cases h
  · rwa [not_and_or, not_lt, Bool.not_eq_false] at hnewer

theorem judge_eq_current {library : FunctionLibrary} {rollback : Bool} {version : String} {api : ℤ}
    (h : judge library rollback version api = .ok .current) :
    version = library.libraryVersion ∧ api = library.apiVersion := by
  unfold judge at h
  split_ifs at h with hnewer hsame
  · exact hsame
  · cases h

section Verdicts

variable {ι τ : Type} {s : State ι τ} {command : Command} {functions : RedisValue}

theorem mayReplace_of_load
    (h : deployVerdict command.library command.rollback (s.reply command.resp3 functions) = .ok .load) :
    MayReplace command s.installed := by
  intro code hcode
  rw [State.reply, hcode, deployVerdict_functionListReply] at h
  cases hread : readMarkedLines code.splitlines with
  | error e =>
    rw [hread] at h
    cases h
  | ok v =>
    rw [hread] at h
    exact ⟨v.1, v.2, rfl, judge_eq_load h⟩

theorem readsAs_of_current
    (h : deployVerdict command.library command.rollback (s.reply command.resp3 functions) = .ok .current) :
    ReadsAs s.installed command.library.libraryVersion command.library.apiVersion := by
  unfold State.reply at h
  split at h
  · cases h
  · next code hcode =>
    refine ⟨code, hcode, ?_⟩
    rw [deployVerdict_functionListReply] at h
    cases hread : readMarkedLines code.splitlines with
    | error e =>
      rw [hread] at h
      cases h
    | ok v =>
      rw [hread] at h
      obtain ⟨hversion, hapi⟩ := judge_eq_current h
      rw [← hversion, ← hapi]

/-- A command with the installed versions finds them current, and the check without `--deploy` passes. -/
theorem current_of_readsAs
    (h : ReadsAs s.installed command.library.libraryVersion command.library.apiVersion) :
    deployVerdict command.library command.rollback (s.reply command.resp3 functions) = .ok .current ∧
      checkInstalled command.library (s.reply command.resp3 functions) =
        .ok (statusMessage command.library command.library.libraryVersion command.library.apiVersion) := by
  obtain ⟨code, hcode, hread⟩ := h
  rw [State.reply, hcode]
  dsimp only
  constructor
  · rw [deployVerdict_functionListReply, hread]
    simp [Except.bind, judge]
  · rw [checkInstalled, if_pos (truthy_functionListReply _ functions code),
      readInstalledLibraryInfo_functionListReply, hread]
    simp [Except.bind]

end Verdicts

section Runs

variable {ι τ : Type} {command : ι → Command} {s t : State ι τ} {e : Event ι τ}

/-- A `FUNCTION LOAD` is carried out before the lease of its command is over. -/
def Timely (s : State ι τ) : Event ι τ → Prop
  | .load c delivery => delivery ≠ .rejected → ∀ l seen, s.phase c = .loading l seen → s.Holds c l
  | _ => True

/-- What a command knows of the installed library while its lease lasts. -/
def Knows (command : Command) (installed : Option Bytes) : Phase τ → Prop
  | .loading _ seen => installed = seen ∧ MayReplace command seen
  | .leaving _ .current | .leaving _ .loaded =>
    ReadsAs installed command.library.libraryVersion command.library.apiVersion
  | _ => True

structure Serialised (command : ι → Command) (s : State ι τ) : Prop extends Leased command s where
  knows : ∀ c l, s.Holds c l → Knows (command c) s.installed (s.phase c)

theorem Serialised.of_idle (h : ∀ c, s.phase c = .idle) : Serialised command s :=
  ⟨.of_idle h, fun c l hl => by
    rw [h c]
    trivial⟩

/-- What a run leaves of the versions in `s`: unreadable ones stay, and readable ones go up unless a command with
`--rollback` loads. -/
structure KeepsVersions (command : ι → Command) (es : List (Event ι τ)) (before after : Option Bytes) : Prop where
  unreadable : ∀ code err, before = some code → readMarkedLines code.splitlines = .error err → after = some code
  api_le : (∀ c delivery, .load c delivery ∈ es → (command c).rollback = false) →
    ∀ version api, ReadsAs before version api → ∃ version' api', ReadsAs after version' api' ∧ api ≤ api'

theorem KeepsVersions.refl (es : List (Event ι τ)) (installed : Option Bytes) :
    KeepsVersions command es installed installed :=
  ⟨fun _ _ h _ => h, fun _ version api h => ⟨version, api, h, le_rfl⟩⟩

variable [DecidableEq ι]

/-- A command moves on without a change of the library. -/
theorem knows_setPhase (hs : ∀ c l, s.Holds c l → Knows (command c) s.installed (s.phase c)) {c : ι} {p : Phase τ}
    (hp : ∀ l, (s.setPhase c p).Holds c l → Knows (command c) s.installed p) (c' : ι) (l : Lease τ)
    (h : (s.setPhase c p).Holds c' l) : Knows (command c') s.installed ((s.setPhase c p).phase c') := by
  by_cases hc : c' = c
  · subst hc
    rw [State.setPhase_phase, if_pos rfl]
    exact hp l h
  · have hphase : (s.setPhase c p).phase c' = s.phase c' := by rw [State.setPhase_phase, if_neg hc]
    rw [hphase]
    refine hs c' l ⟨?_, h.2⟩
    rw [← hphase]
    exact h.1

/-- The library is replaced under a lease that lasts, so no other command knows anything. -/
theorem Serialised.knows_load (hcommand : Compatible command) (hs : Serialised command s) {c : ι} {l : Lease τ}
    (hl : s.Holds c l) {code : Bytes} {r : Result} (hr : Knows (τ := τ) (command c) (some code) (.leaving l r)) (c' : ι)
    (l' : Lease τ)
    (h : ({ s with installed := some code }.setPhase c (.leaving l r)).Holds c' l') :
    Knows (command c') (some code) (({ s with installed := some code }.setPhase c (.leaving l r)).phase c') := by
  by_cases hc : c' = c
  · subst hc
    rw [State.setPhase_phase, if_pos rfl]
    exact hr
  · refine absurd (hs.holds_unique (l := l') ?_ hl (hcommand.sameKey c c')) hc
    obtain ⟨hlease, hnow⟩ := h
    rw [State.setPhase_phase, if_neg hc] at hlease
    exact ⟨hlease, hnow⟩

variable [DecidableEq τ]

def TimelyStep (command : ι → Command) (s : State ι τ) (e : Event ι τ) (t : State ι τ) : Prop :=
  Step command s e t ∧ Timely s e

theorem Serialised.step (hcommand : Compatible command) (hs : Serialised command s)
    (h : TimelyStep command s e t) : Serialised command t := by
  obtain ⟨hstep, htimely⟩ := h
  refine ⟨hs.toLeased.step hstep, ?_⟩
  cases hstep with
  | tick => exact fun c l hl => hs.knows c l ⟨hl.1, (Nat.le_add_right _ _).trans_lt hl.2⟩
  | @acquire c key token delivery hidle hkey hfresh =>
    unfold State.acquire
    dsimp only
    split <;> exact knows_setPhase hs.knows fun l hl => trivial
  | @list c l functions delivery hc =>
    unfold State.list
    split_ifs
    · split
      · exact knows_setPhase hs.knows fun l hl => trivial
      · next hverdict => exact knows_setPhase hs.knows fun l hl => readsAs_of_current hverdict
      · next hverdict => exact knows_setPhase hs.knows fun l hl => ⟨rfl, mayReplace_of_load hverdict⟩
    · exact knows_setPhase hs.knows fun l hl => trivial
  | @load c l seen delivery hc =>
    unfold State.load
    split_ifs
    · cases delivery with
      | answered => exact hs.knows_load hcommand (htimely (fun h => by cases h) l seen hc) ⟨_, rfl, hcommand.readsBack c⟩
      | lost => exact hs.knows_load hcommand (htimely (fun h => by cases h) l seen hc) trivial
      | rejected => exact knows_setPhase hs.knows fun l hl => trivial
    · exact knows_setPhase hs.knows fun l hl => trivial
  | @release c l result delivery hc =>
    cases delivery <;> exact knows_setPhase hs.knows fun l hl => trivial
  | kill => exact knows_setPhase hs.knows fun l hl => trivial

/-- The library changes only by a load that may replace it. -/
theorem Serialised.installed_step (hs : Serialised command s) (h : TimelyStep command s e t) :
    t.installed = s.installed ∨
      ∃ c delivery, e = .load c delivery ∧ t.installed = some (command c).library.source ∧
        MayReplace (command c) s.installed := by
  obtain ⟨hstep, htimely⟩ := h
  cases hstep with
  | tick => exact .inl rfl
  | acquire =>
    left
    unfold State.acquire
    dsimp only
    split <;> rfl
  | list =>
    left
    unfold State.list
    split_ifs
    · split <;> rfl
    · rfl
  | @load c l seen delivery hc =>
    -- the load is carried out under the lease, so the library is still the one that was looked at
    have hload (hl : s.Holds c l) : MayReplace (command c) s.installed := by
      have hknows := hs.knows c l hl
      rw [hc] at hknows
      rw [hknows.1]
      exact hknows.2
    unfold State.load
    split_ifs
    · cases delivery with
      | answered => exact .inr ⟨c, _, rfl, rfl, hload (htimely (fun h => by cases h) l seen hc)⟩
      | lost => exact .inr ⟨c, _, rfl, rfl, hload (htimely (fun h => by cases h) l seen hc)⟩
      | rejected => exact .inl rfl
    · exact .inl rfl
  | release =>
    left
    rename_i delivery _
    cases delivery <;> rfl
  | kill => exact .inl rfl

theorem KeepsVersions.cons (hcommand : Compatible command) (hs : Serialised command s)
    (h : TimelyStep command s e t) {es : List (Event ι τ)} {after : Option Bytes}
    (htail : KeepsVersions command es t.installed after) : KeepsVersions command (e :: es) s.installed after := by
  rcases hs.installed_step h with hsame | ⟨c, delivery, rfl, hinstalled, hmay⟩
  · rw [hsame] at htail
    exact ⟨htail.unreadable, fun hroll => htail.api_le fun c d hmem => hroll c d (List.mem_cons_of_mem _ hmem)⟩
  · refine ⟨fun code err hcode hbad => ?_, fun hroll version api hreads => ?_⟩
    · obtain ⟨version, api, hgood, -⟩ := hmay code hcode
      rw [hbad] at hgood
      cases hgood
    · obtain ⟨code, hcode, hgood⟩ := hreads
      obtain ⟨version', api', hgood', hle⟩ := hmay code hcode
      rw [hgood] at hgood'
      cases hgood'
      rw [hroll c delivery List.mem_cons_self, or_iff_left Bool.false_ne_true] at hle
      obtain ⟨version', api', hafter, hle'⟩ :=
        htail.api_le (fun c d hmem => hroll c d (List.mem_cons_of_mem _ hmem)) (command c).library.libraryVersion
          (command c).library.apiVersion ⟨_, hinstalled, hcommand.readsBack c⟩
      exact ⟨version', api', hafter, hle.trans hle'⟩

theorem Serialised.run (hcommand : Compatible command) (hs : Serialised command s)
    {es : List (Event ι τ)} (h : Run (TimelyStep command) s es t) : Serialised command t :=
  h.invariant (fun _ _ _ hs hstep => hs.step hcommand hstep) hs

theorem KeepsVersions.run (hcommand : Compatible command) (hs : Serialised command s)
    {es : List (Event ι τ)} (h : Run (TimelyStep command) s es t) :
    KeepsVersions command es s.installed t.installed := by
  induction h with
  | nil _ => exact .refl _ _
  | cons hstep _ ih => exact .cons hcommand hs hstep (ih (hs.step hcommand hstep))

/-- From every state of timely deployments: metadata that cannot be read is never replaced, and the installed API
version does not go down unless a command with `--rollback` loads its library. -/
theorem timely_deployments_keep_versions (hcommand : Compatible command) {s₀ : State ι τ}
    (hidle : ∀ c, s₀.phase c = .idle) {es₀ es : List (Event ι τ)} (hrun₀ : Run (TimelyStep command) s₀ es₀ s)
    (hrun : Run (TimelyStep command) s es t) :
    (∀ code err, s.installed = some code → readMarkedLines code.splitlines = .error err → t.installed = some code) ∧
    ((∀ c delivery, .load c delivery ∈ es → (command c).rollback = false) →
      ∀ version api, ReadsAs s.installed version api →
        ∃ version' api', ReadsAs t.installed version' api' ∧ api ≤ api') := by
  have hkeeps := KeepsVersions.run hcommand ((Serialised.of_idle hidle).run hcommand hrun₀) hrun
  exact ⟨hkeeps.unreadable, hkeeps.api_le⟩

/-- A command that succeeded has its library installed as long as its lease lasts. Every command with the same versions
then finds it current, with or without `--rollback`, and the check passes. -/
theorem timely_deployment_installed (hcommand : Compatible command) (hidle : ∀ c, s.phase c = .idle)
    {es : List (Event ι τ)} (hrun : Run (TimelyStep command) s es t) {c : ι} {l : Lease τ} {result : Result}
    (hphase : t.phase c = .leaving l result) (hresult : result = .current ∨ result = .loaded)
    (hnow : t.now < l.since + deploymentLockMs) :
    ReadsAs t.installed (command c).library.libraryVersion (command c).library.apiVersion ∧
    ∀ (other : Command) (functions : RedisValue), other.library.libraryVersion = (command c).library.libraryVersion →
      other.library.apiVersion = (command c).library.apiVersion →
      deployVerdict other.library other.rollback (t.reply other.resp3 functions) = .ok .current ∧
      ∃ text, checkInstalled other.library (t.reply other.resp3 functions) = .ok text := by
  have hl : t.Holds c l := ⟨by rw [hphase]; rfl, hnow⟩
  have hknows := ((Serialised.of_idle hidle).run hcommand hrun).knows c l hl
  have hreads : ReadsAs t.installed (command c).library.libraryVersion (command c).library.apiVersion := by
    rw [hphase] at hknows
    rcases hresult with rfl | rfl
    · exact hknows
    · exact hknows
  refine ⟨hreads, fun other functions hversion hapi => ?_⟩
  rw [← hversion, ← hapi] at hreads
  exact ⟨(current_of_readsAs hreads).1, _, (current_of_readsAs hreads).2⟩

end Runs

/-- A library of two lines. -/
def headerLibrary (api : String) (number : ℤ) : FunctionLibrary where
  name := "django_queues"
  source := metadataLines (asciiBytes "260827_204500") (asciiBytes api)
  libraryVersion := "260827_204500"
  apiVersion := number

theorem readsBack_headerLibrary : ReadsBack (headerLibrary "1" 1) ∧ ReadsBack (headerLibrary "2" 2) := by
  unfold ReadsBack
  decide +kernel

theorem decodesUtf8_headerLibrary :
    decodesUtf8 (headerLibrary "1" 1).source = true ∧ decodesUtf8 (headerLibrary "2" 2).source = true := by
  decide +kernel

/-- Two revisions of the library, to be deployed on one database. -/
def headerCommand (c : Bool) : Command :=
  ⟨if c then headerLibrary "2" 2 else headerLibrary "1" 1, false, .standalone 0, false⟩

theorem compatible_headerCommand : Compatible headerCommand := by
  refine ⟨fun c c' => rfl, fun c => ?_⟩
  cases c with
  | false => exact readsBack_headerLibrary.1
  | true => exact readsBack_headerLibrary.2

section Header

variable {s : State Bool ℕ} {c : Bool}

/-- A command acquires its lease and finds what it may replace. -/
def deciding (c : Bool) (token : ℕ) (s : State Bool ℕ) : State Bool ℕ :=
  (s.acquire headerCommand c (lockOf 0) token .answered).list headerCommand c ⟨token, lockOf 0, s.now⟩ .null .answered

/-- It loads its library. -/
def deploying (c : Bool) (token : ℕ) (s : State Bool ℕ) : State Bool ℕ :=
  (deciding c token s).load headerCommand c ⟨token, lockOf 0, s.now⟩ .answered

def deployActs (c : Bool) (token : ℕ) : List (Event Bool ℕ) :=
  [.acquire c token .answered, .list c .null .answered, .load c .answered]

theorem acquire_eq {token : ℕ} (hlock : (s.lock (lockOf 0)).stored = none) :
    s.acquire headerCommand c (lockOf 0) token .answered =
      State.setPhase { s with
        drawn := insert token s.drawn
        lock := Function.update s.lock (lockOf 0) ⟨some (token, s.now + deploymentLockMs)⟩ } c
        (.leased ⟨token, lockOf 0, s.now⟩) := by
  have hacquire : (s.lock (lockOf 0)).acquire s.now deploymentLockMs token =
      some ⟨some (token, s.now + deploymentLockMs)⟩ := by
    rw [LeaseLock.acquire, LeaseLock.live?, hlock]
  unfold State.acquire
  dsimp only
  rw [hacquire]

theorem deciding_eq {token : ℕ} (hlock : (s.lock (lockOf 0)).stored = none)
    (hverdict : deployVerdict (headerCommand c).library false (s.reply false .null) = .ok .load) :
    deciding c token s =
      ((s.acquire headerCommand c (lockOf 0) token .answered).setPhase c
        (.loading ⟨token, lockOf 0, s.now⟩ s.installed)) := by
  unfold deciding
  rw [acquire_eq hlock]
  unfold State.list
  rw [if_pos rfl]
  split
  · next h => cases hverdict.symm.trans h
  · next h => cases hverdict.symm.trans h
  · rfl

theorem deciding_now {token : ℕ} (hlock : (s.lock (lockOf 0)).stored = none)
    (hverdict : deployVerdict (headerCommand c).library false (s.reply false .null) = .ok .load) :
    (deciding c token s).now = s.now := by
  rw [deciding_eq hlock hverdict, acquire_eq hlock]
  rfl

theorem decodesUtf8_headerCommand (c : Bool) : decodesUtf8 (headerCommand c).library.source = true := by
  cases c with
  | false => exact decodesUtf8_headerLibrary.1
  | true => exact decodesUtf8_headerLibrary.2

theorem deploying_eq {token : ℕ} : deploying c token s =
    State.setPhase { deciding c token s with installed := some (headerCommand c).library.source } c
      (.leaving ⟨token, lockOf 0, s.now⟩ .loaded) :=
  if_pos (decodesUtf8_headerCommand c)

theorem run_deploying {token : ℕ} (hidle : s.phase c = .idle) (hfresh : token ∉ s.drawn)
    (hlock : (s.lock (lockOf 0)).stored = none)
    (hverdict : deployVerdict (headerCommand c).library false (s.reply false .null) = .ok .load) :
    Run (TimelyStep headerCommand) s (deployActs c token) (deploying c token s) := by
  have hleased : (s.acquire headerCommand c (lockOf 0) token .answered).phase c =
      .leased ⟨token, lockOf 0, s.now⟩ := by
    rw [acquire_eq hlock, State.setPhase_phase, if_pos rfl]
  have hloading : (deciding c token s).phase c = .loading ⟨token, lockOf 0, s.now⟩ s.installed := by
    rw [deciding_eq hlock hverdict, State.setPhase_phase, if_pos rfl]
  refine .cons ⟨.acquire hidle rfl hfresh, trivial⟩ (.cons ⟨.list hleased, trivial⟩
    (.cons ⟨.load hloading, fun _ l seen h => ?_⟩ (.nil _)))
  change (deciding c token s).phase c = .loading l seen at h
  rw [hloading] at h
  cases h
  refine ⟨congrArg Phase.lease? hloading, ?_⟩
  show (deciding c token s).now < s.now + deploymentLockMs
  rw [deciding_now hlock hverdict]
  exact Nat.lt_add_of_pos_right (by decide)

end Header

/-- The first revision is deployed and its lease given back. -/
def firstDeployed : State Bool ℕ :=
  (deploying false 7 untouched).release false ⟨7, lockOf 0, 0⟩ .loaded .answered

/-- The steps of the first deployment. -/
def firstActs : List (Event Bool ℕ) := deployActs false 7 ++ [.release false .answered]

theorem deciding_untouched : deciding false 7 untouched =
    (untouched.acquire headerCommand false (lockOf 0) 7 .answered).setPhase false (.loading ⟨7, lockOf 0, 0⟩ none) :=
  deciding_eq rfl rfl

theorem run_firstDeployed : Run (TimelyStep headerCommand) untouched firstActs firstDeployed := by
  refine (run_deploying rfl (Set.notMem_empty 7) rfl rfl).append (.cons ⟨.release ?_, trivial⟩ (.nil _))
  rw [deploying_eq, State.setPhase_phase, if_pos rfl]
  rfl

theorem firstDeployed_facts : firstDeployed.installed = some (headerLibrary "1" 1).source ∧
    firstDeployed.phase true = .idle ∧ firstDeployed.drawn = insert 7 ∅ ∧
    (firstDeployed.lock (lockOf 0)).stored = none := by
  have hfirst : firstDeployed = State.setPhase
      ({ (deciding false 7 untouched) with installed := some (headerLibrary "1" 1).source }.setPhase false
        (.leaving ⟨7, lockOf 0, 0⟩ .loaded) |>.deleteKey ⟨7, lockOf 0, 0⟩) false (.done .loaded) := by
    unfold firstDeployed
    rw [deploying_eq]
    rfl
  rw [hfirst, deciding_untouched, acquire_eq rfl]
  refine ⟨rfl, ?_, rfl, ?_⟩
  · simp [State.setPhase, State.deleteKey, untouched]
  · simp [State.setPhase, State.deleteKey, untouched, LeaseLock.release, LeaseLock.live?, deploymentLockMs]

theorem second_loads :
    deployVerdict (headerCommand true).library false (firstDeployed.reply false .null) = .ok .load := by
  have hinstalled := firstDeployed_facts.1
  have hread : readMarkedLines (headerLibrary "1" 1).source.splitlines = .ok ("260827_204500", 1) :=
    readsBack_headerLibrary.1
  rw [State.reply, hinstalled]
  dsimp only
  rw [deployVerdict_functionListReply, hread]
  rfl

theorem run_secondDeployed :
    Run (TimelyStep headerCommand) firstDeployed (deployActs true 8) (deploying true 8 firstDeployed) := by
  obtain ⟨-, hidle, hdrawn, hlock⟩ := firstDeployed_facts
  exact run_deploying hidle (by simp [hdrawn]) hlock second_loads

/-- The second revision is installed while its lease lasts. -/
theorem timely_deployment_installed_header :
    ReadsAs (deploying true 8 firstDeployed).installed "260827_204500" 2 := by
  refine (timely_deployment_installed compatible_headerCommand (fun _ => rfl)
    (run_firstDeployed.append run_secondDeployed) (c := true) (l := ⟨8, lockOf 0, firstDeployed.now⟩)
    (by rw [deploying_eq, State.setPhase_phase, if_pos rfl]) (.inr rfl) ?_).1
  have hnow : (deploying true 8 firstDeployed).now = (deciding true 8 firstDeployed).now := by
    rw [deploying_eq]
    rfl
  exact (hnow.trans (deciding_now firstDeployed_facts.2.2.2 second_loads)).trans_lt
    (Nat.lt_add_of_pos_right (by decide))

/-- From the first revision to the second the API version goes up. -/
theorem timely_deployments_keep_versions_header :
    ∃ version api, ReadsAs (deploying true 8 firstDeployed).installed version api ∧ 1 ≤ api := by
  refine (timely_deployments_keep_versions compatible_headerCommand (fun _ => rfl) run_firstDeployed
    run_secondDeployed).2 (fun c _ _ => ?_) "260827_204500" 1 ⟨_, firstDeployed_facts.1, readsBack_headerLibrary.1⟩
  cases c <;> rfl

end DjangoQueues.Deployment
