import Mathlib.Algebra.Group.Int.Defs
import Mathlib.Algebra.Group.Nat.Defs
import MemoryArchive.Configuration.Loading

namespace MemoryArchive.Configuration

open Json (Fields Number)
open Python Core
open App (Options setText setInt)
open Reasoning (occurrences asString asBool)

variable {F : Type} (py : Runtime F)

/-- The fields that are set, in a configuration of ma-core. -/
def setConfig (o : Options) (c : Config) : Config := { c with
  redisUrl := o.redisUrl.getD c.redisUrl
  storagePath := o.storagePath.getD c.storagePath
  controlCenterAddr := o.controlCenterAddr.getD c.controlCenterAddr
  controlCenterTlsCa := o.controlCenterTlsCa.getD c.controlCenterTlsCa
  controlCenterToken := o.controlCenterToken.getD c.controlCenterToken
  controlCenterSecurity := (o.controlCenterSecurity.bind CcSecurity.ofName).getD c.controlCenterSecurity
  controlCenterMaxVersion := o.controlCenterMaxVersion.getD c.controlCenterMaxVersion
  controlCenterAllowUnsupported := o.controlCenterAllowUnsupported.getD c.controlCenterAllowUnsupported
  theEyesAddr := o.theEyesAddr.getD c.theEyesAddr
  theEyesPollIntervalSeconds := o.theEyesPollInterval.elim c.theEyesPollIntervalSeconds Int.toNat
  silenceTimeoutSeconds := o.silenceTimeout.elim c.silenceTimeoutSeconds Int.toNat
  kafkaBroker := o.kafkaBroker.getD c.kafkaBroker
  metadataFlushInterval := o.metadataFlushInterval.elim c.metadataFlushInterval Int.toNat
  ipcPort := o.ipcPort.elim c.ipcPort fun i => some i.toNat
  ipcBindAddr := o.ipcBindAddr.getD c.ipcBindAddr
  storageMode := o.storageMode.getD c.storageMode
  cloud := { c.cloud with
    provider := o.cloud.getD c.cloud.provider
    aws := ⟨o.awsBucket.getD c.cloud.aws.bucket, o.awsRegion.getD c.cloud.aws.region⟩
    azure := ⟨o.azureContainer.getD c.cloud.azure.container, o.azureAccount.getD c.cloud.azure.account⟩
    gcp := ⟨o.gcpBucket.getD c.cloud.gcp.bucket, o.gcpProject.getD c.cloud.gcp.project⟩ } }

/-- The two agree in every field but those that are set. -/
def SameExcept (o : Options) (before after : Config) : Prop := setConfig o before = setConfig o after

/-- The command does not raise, and what it saves is read by ma-core as before but for
the fields that are set. -/
def Preserves (sys : App.System) (homes : App.Homes) (coreHomes : Core.Homes) (o : Options) (fs : Fields)
    (before : Config) : Prop :=
  match App.config py sys homes o (.obj fs) with
  | .raised | .saved none => False
  | .exited | .shown => True
  | .saved (some file) =>
      ∃ after, Config.read coreHomes file = some after ∧ ∀ e, o.check sys = some e → SameExcept e before after

section Conditions

/-- What the app alone reads of a member has no float that is not finite. -/
def FiniteAt (d : Dict F) (key : String) : Prop := finite py (getD d key .null) = true

structure ProviderFinite (d : Dict F) : Prop where
  texts : ∀ key ∈ ["name", "endpoint", "api_key_ref"], FiniteAt py d key
  inputRate :
    ∀ x, (getD d "cost_per_million_input_tokens" (.float (py.ofLiteral App.zero))).toFloat py = some x →
      py.isFinite x = true
  outputRate :
    ∀ x, (getD d "cost_per_million_output_tokens" (.float (py.ofLiteral App.zero))).toFloat py = some x →
      py.isFinite x = true

structure ModelFinite (d : Dict F) : Prop where
  texts : ∀ key ∈ ["provider", "endpoint", "api_key_ref", "routing_policy"], FiniteAt py d key
  inputRate :
    ∀ x, App.rate py d "cost_per_million_input_tokens" "cost_per_1k_input_tokens" App.three = some x →
      py.isFinite x = true
  outputRate :
    ∀ x, App.rate py d "cost_per_million_output_tokens" "cost_per_1k_output_tokens" App.fifteen = some x →
      py.isFinite x = true
  providers : ∀ items, (getD d "providers" (.list [])).iterate = some items →
    ∀ p ∈ items, ∀ m, p.members = some m → ProviderFinite py m

/-- The members that the app alone reads, with the options that set them. -/
def appTexts (o : Options) : List (String × Option String) :=
  [("ma_core_addr", o.maCoreAddr), ("ipc_server_fingerprint", o.ipcServerFingerprint),
    ("annotator_id", o.annotatorId), ("annotator_key", o.annotatorKey), ("temp_session_dir", o.tempSessionDir),
    ("tenant_id", o.tenantId)]

/-- An integer that is set is in the range of the field. -/
def Within (bits : Nat) (option : Option Int) : Prop := ∀ i, option = some i → 0 ≤ i ∧ i < 2 ^ bits

structure InRange (o : Options) : Prop where
  theEyesPollInterval : Within 64 o.theEyesPollInterval
  silenceTimeout : Within 64 o.silenceTimeout
  metadataFlushInterval : Within 32 o.metadataFlushInterval
  ipcPort : Within 16 o.ipcPort

/-- What is kept of the values that the app alone reads is finite. -/
structure RestFinite (fs : Fields) (o : Options) : Prop where
  texts : ∀ f ∈ appTexts o, f.2 = none → FiniteAt py (parsedFields py fs) f.1
  storageType : o.azureStorageType = none → ∀ cloud azure,
    (getD (parsedFields py fs) "cloud" (.dict [])).members = some cloud →
      (getD cloud "azure" (.dict [])).members = some azure → FiniteAt py azure "storage_type"
  model : ∀ d, (getD (parsedFields py fs) "model" (.dict [])).members = some d → ModelFinite py d

/-- What is set fits its field, and what the file says beyond the settings is the default. -/
structure Savable (homes : App.Homes) (coreHomes : Core.Homes) (fs : Fields) (before : Config) (o : Options) :
    Prop where
  inRange : InRange o
  finite : RestFinite py fs o
  delays : before.pressFetchDelayMs = 1000 ∧ before.typeFetchDelayMs = 1000 ∧ before.beforeFetchOffsetMs = 1000 ∧
    before.afterFetchDelayMs = 1000
  kafkaChannelCapacity : before.kafkaChannelCapacity = 1000
  annotatorMgmtPort : before.annotatorMgmtPort = none
  observability : before.observability = .default
  ipcSocketPath : occurrences "ipc_socket_path" fs ≠ [] ∨ homes.ipcSocketPath = coreHomes.ipcSocketPath
  storagePath : o.storagePath ≠ none ∨ occurrences "storage_path" fs ≠ [] ∨
    homes.storagePath = coreHomes.storagePath

end Conditions

section Editing

variable {py}

theorem shows_setText {v : Value F} {a : String} (o : Option String) (h : Shows py asString v a) :
    Shows py asString (setText o v) (o.getD a) := by
  cases o with
  | none => exact h
  | some s => exact shows_str s

theorem shows_setInt {bits : Nat} {v : Value F} {a : Nat} {o : Option Int} (ho : Within bits o)
    (h : Shows py (asUnsigned bits) v a) : Shows py (asUnsigned bits) (setInt o v) (o.elim a Int.toNat) := by
  cases o with
  | none => exact h
  | some i =>
    obtain ⟨hpos, hlt⟩ := ho i rfl
    obtain ⟨n, rfl⟩ := Int.eq_ofNat_of_zero_le hpos
    exact shows_int py (by exact_mod_cast hlt)

theorem int_getD (o : Option Int) (i : Int) : (Value.int (o.getD i) : Value F) = setInt o (.int i) := by
  cases o <;> rfl

theorem shows_setPort {v : Value F} {a : Option Nat} {o : Option Int} (ho : Within 16 o)
    (h : Shows py asPort v a) : Shows py asPort (setInt o v) (o.elim a fun i => some i.toNat) := by
  cases o with
  | none => exact h
  | some i =>
    have hint : Shows py (asUnsigned 16) (.int i) i.toNat :=
      shows_setInt (v := .int 0) (a := 0) ho (shows_int py (by decide))
    refine ⟨?_, rfl⟩
    rw [setInt, Option.elim, asPort_of_num]
    · rw [hint.reads]
      rfl
    · intro h
      cases h

theorem shows_setSecurity {v : Value F} {a : CcSecurity} {o : Option String}
    (ho : ∀ t, o = some t → ∃ s, CcSecurity.ofName t = some s) (h : Shows py asCcSecurity v a) :
    Shows py asCcSecurity (setText o v) ((o.bind CcSecurity.ofName).getD a) := by
  cases o with
  | none => exact h
  | some t =>
    obtain ⟨s, hs⟩ := ho t rfl
    refine ⟨?_, rfl⟩
    change CcSecurity.ofName t = _
    rw [hs, Option.bind_some, hs]
    rfl

/-- The settings that are edited show the configuration that is edited. -/
theorem mirrors_edit {o : Options} {s : App.Settings F} {c : Config} (h : Mirrors py s c) (ho : InRange o)
    (hsecurity : ∀ t, o.controlCenterSecurity = some t → ∃ v, CcSecurity.ofName t = some v) :
    Mirrors py (o.edit s) (setConfig o c) where
  redisUrl := shows_setText o.redisUrl h.redisUrl
  ipcSocketPath := h.ipcSocketPath
  storagePath := shows_setText o.storagePath h.storagePath
  controlCenterAddr := shows_setText o.controlCenterAddr h.controlCenterAddr
  controlCenterTlsCa := shows_setText o.controlCenterTlsCa h.controlCenterTlsCa
  controlCenterToken := shows_setText o.controlCenterToken h.controlCenterToken
  controlCenterSecurity := shows_setSecurity hsecurity h.controlCenterSecurity
  controlCenterMaxVersion := shows_setText o.controlCenterMaxVersion h.controlCenterMaxVersion
  controlCenterAllowUnsupported := congrArg o.controlCenterAllowUnsupported.getD h.controlCenterAllowUnsupported
  theEyesAddr := shows_setText o.theEyesAddr h.theEyesAddr
  theEyesPollIntervalSeconds := by
    change Shows py (asUnsigned 64) (.int (o.theEyesPollInterval.getD s.theEyesPollIntervalSeconds)) _
    rw [int_getD]
    exact shows_setInt ho.theEyesPollInterval h.theEyesPollIntervalSeconds
  silenceTimeoutSeconds := shows_setInt ho.silenceTimeout h.silenceTimeoutSeconds
  kafkaBroker := shows_setText o.kafkaBroker h.kafkaBroker
  metadataFlushInterval := by
    change Shows py (asUnsigned 32) (.int (o.metadataFlushInterval.getD s.metadataFlushInterval)) _
    rw [int_getD]
    exact shows_setInt ho.metadataFlushInterval h.metadataFlushInterval
  ipcPort := shows_setPort ho.ipcPort h.ipcPort
  ipcBindAddr := shows_setText o.ipcBindAddr h.ipcBindAddr
  storageMode := shows_setText o.storageMode h.storageMode
  cloud := {
    provider := shows_setText o.cloud h.cloud.provider
    awsBucket := shows_setText o.awsBucket h.cloud.awsBucket
    awsRegion := shows_setText o.awsRegion h.cloud.awsRegion
    azureContainer := shows_setText o.azureContainer h.cloud.azureContainer
    azureAccount := shows_setText o.azureAccount h.cloud.azureAccount
    gcpBucket := shows_setText o.gcpBucket h.cloud.gcpBucket
    gcpProject := shows_setText o.gcpProject h.cloud.gcpProject
    backends := h.cloud.backends
    routingRules := h.cloud.routingRules }

theorem within_of_asUnsigned {bits n : Nat} {o : Option Int} {v : Value F}
    (h : asUnsigned bits (toJson py (setInt o v)) = some n) : Within bits o := by
  rintro i rfl
  obtain ⟨rfl, hlt⟩ := (asUnsigned_ofInt bits i n).mp h
  exact ⟨Int.natCast_nonneg n, by exact_mod_cast hlt⟩

theorem within_of_asPort {n : Option Nat} {o : Option Int} {v : Value F}
    (h : asPort (toJson py (setInt o v)) = some n) : Within 16 o := by
  rintro i rfl
  rw [setInt, Option.elim, asPort_of_num] at h
  · obtain ⟨n, hn, -⟩ := Option.map_eq_some_iff.mp h
    exact within_of_asUnsigned (o := some i) (v := v) hn i rfl
  · intro h
    cases h

/-- A file that ma-core reads has only integers that fit. -/
theorem inRange_of_reads {o : Options} {s : App.Settings F} {homes : Core.Homes} {after : Config}
    (h : Config.read homes (toJson py (.dict (o.edit s).asdict)) = some after) : InRange o := by
  rw [toJson, read_iff] at h
  have poll : asUnsigned 64 (toJson py (setInt o.theEyesPollInterval (.int s.theEyesPollIntervalSeconds))) =
      some after.theEyesPollIntervalSeconds := by
    simpa [App.Settings.asdict, App.Options.edit, toFields, defaulted, int_getD]
      using h.theEyesPollIntervalSeconds
  have silence : asUnsigned 64 (toJson py (setInt o.silenceTimeout s.silenceTimeoutSeconds)) =
      some after.silenceTimeoutSeconds := by
    simpa [App.Settings.asdict, App.Options.edit, toFields, defaulted] using h.silenceTimeoutSeconds
  have flush : asUnsigned 32 (toJson py (setInt o.metadataFlushInterval (.int s.metadataFlushInterval))) =
      some after.metadataFlushInterval := by
    simpa [App.Settings.asdict, App.Options.edit, toFields, defaulted, int_getD] using h.metadataFlushInterval
  have port : asPort (toJson py (setInt o.ipcPort s.ipcPort)) = some after.ipcPort := by
    simpa [App.Settings.asdict, App.Options.edit, toFields, defaulted] using h.ipcPort
  exact ⟨within_of_asUnsigned poll, within_of_asUnsigned silence, within_of_asUnsigned flush,
    within_of_asPort port⟩

end Editing

section Finiteness

variable {py}

theorem forall_mapM {α β : Type} {f : α → Option β} {P : β → Prop} {as : List α} {bs : List β}
    (h : as.mapM f = some bs) : (∀ b ∈ bs, P b) ↔ ∀ a ∈ as, ∀ b, f a = some b → P b := by
  induction as generalizing bs with
  | nil =>
    cases h
    exact iff_of_true (fun _ h => nomatch h) fun _ h => nomatch h
  | cons a as ih =>
    simp only [List.mapM_cons, Option.bind_eq_bind, Option.bind_eq_some_iff, Option.pure_def,
      Option.some.injEq] at h
    obtain ⟨b, hb, bs, hbs, rfl⟩ := h
    rw [List.forall_mem_cons, List.forall_mem_cons, ih hbs]
    refine and_congr_left' ⟨fun h b' hb' => ?_, fun h => h b hb⟩
    rw [hb] at hb'
    cases hb'
    exact h

/-- A number that was found is finite exactly if every one that may be found is. -/
theorem isFinite_iff (py : Runtime F) {r : Option F} {x : F} (h : r = some x) :
    py.isFinite x = true ↔ ∀ y, r = some y → py.isFinite y = true := by
  rw [h]
  refine ⟨fun hx y hy => ?_, fun hall => hall x rfl⟩
  cases hy
  exact hx

theorem finite_text (d : Dict F) (key text : String) :
    finite py (getD d key (.str text)) = true ↔ FiniteAt py d key := finite_get rfl

theorem finite_setText (o : Option String) (v : Value F) :
    finite py (setText o v) = true ↔ (o = none → finite py v = true) := by
  cases o with
  | none => exact ⟨fun h _ => h, fun h => h rfl⟩
  | some s => exact iff_of_true rfl fun h => nomatch h

/-- There is one dictionary in a value. -/
theorem forall_members {v : Value F} {d : Dict F} (h : v.members = some d) (P : Dict F → Prop) :
    (∀ d, v.members = some d → P d) ↔ P d := by
  rw [h]
  exact ⟨fun hall => hall d rfl, fun hd d' hd' => Option.some.inj hd' ▸ hd⟩

theorem finite_provider {v : Value F} {s : App.ProviderConfig F} (h : App.ProviderConfig.fromDict py v = some s) :
    finite py s.asdict = true ↔ ∀ d, v.members = some d → ProviderFinite py d := by
  simp only [App.ProviderConfig.fromDict, Option.bind_eq_bind, Option.bind_eq_some_iff, Option.pure_def,
    Option.some.injEq] at h
  obtain ⟨d, hd, priority, -, input, hinput, output, houtput, rfl⟩ := h
  rw [forall_members hd]
  have hinput := isFinite_iff py hinput
  have houtput := isFinite_iff py houtput
  simp only [App.ProviderConfig.asdict, finite, finiteMembers, Bool.and_eq_true, and_true, true_and, finite_text]
  constructor
  · rintro ⟨hname, hendpoint, hkey, hin, hout⟩
    refine ⟨?_, hinput.mp hin, houtput.mp hout⟩
    simp only [List.forall_mem_cons, List.not_mem_nil, false_imp_iff, implies_true, and_true]
    exact ⟨hname, hendpoint, hkey⟩
  · rintro ⟨htexts, hin, hout⟩
    simp only [List.forall_mem_cons, List.not_mem_nil, false_imp_iff, implies_true, and_true] at htexts
    exact ⟨htexts.1, htexts.2.1, htexts.2.2, hinput.mpr hin, houtput.mpr hout⟩

theorem finite_model {v : Value F} {s : App.ModelConfig F} (h : App.ModelConfig.fromDict py v = some s) :
    finite py s.asdict = true ↔ ∀ d, v.members = some d → ModelFinite py d := by
  simp only [App.ModelConfig.fromDict, Option.bind_eq_bind, Option.bind_eq_some_iff, Option.pure_def,
    Option.some.injEq] at h
  obtain ⟨d, hd, _, -, _, -, _, -, _, -, _, -, _, -, input, hinput, output, houtput, _, -, items, hitems,
    providers, hproviders, rfl⟩ := h
  rw [forall_members hd]
  have hinput := isFinite_iff py hinput
  have houtput := isFinite_iff py houtput
  have hall : finite py (.list (providers.map (·.asdict))) = true ↔
      ∀ p ∈ items, ∀ m, p.members = some m → ProviderFinite py m := by
    rw [finite_list, List.forall_mem_map, forall_mapM hproviders]
    refine forall₂_congr fun p hp => ?_
    obtain ⟨s, hs⟩ := exists_mapM.mp ⟨providers, hproviders⟩ p hp
    rw [← finite_provider hs, hs]
    exact ⟨fun h => h s rfl, fun h s' hs' => Option.some.inj hs' ▸ h⟩
  rw [finite] at hall
  simp only [App.ModelConfig.asdict, finite, finiteMembers, Bool.and_eq_true, and_true, true_and,
    finite_text, hall]
  constructor
  · rintro ⟨hprovider, hendpoint, hkey, hin, hout, hpolicy, hlist⟩
    refine ⟨?_, hinput.mp hin, houtput.mp hout, fun items' hitems' => ?_⟩
    · simp only [List.forall_mem_cons, List.not_mem_nil, false_imp_iff, implies_true, and_true]
      exact ⟨hprovider, hendpoint, hkey, hpolicy⟩
    · rw [hitems] at hitems'
      cases hitems'
      exact hlist
  · rintro ⟨htexts, hin, hout, hlist⟩
    simp only [List.forall_mem_cons, List.not_mem_nil, false_imp_iff, implies_true, and_true] at htexts
    exact ⟨htexts.1, htexts.2.1, htexts.2.2.1, hinput.mpr hin, houtput.mpr hout, htexts.2.2.2,
      hlist items hitems⟩

theorem finite_storageType {v : Value F} {s : App.CloudConfig F} (h : App.CloudConfig.fromDict py v = some s) :
    finite py s.azure.storageType = true ↔ ∀ cloud azure, v.members = some cloud →
      (getD cloud "azure" (.dict [])).members = some azure → FiniteAt py azure "storage_type" := by
  simp only [App.CloudConfig.fromDict, App.AzureConfig.fromDict, Option.bind_eq_bind, Option.bind_eq_some_iff,
    Option.pure_def, Option.some.injEq] at h
  obtain ⟨cloud, hcloud, _, -, _, ⟨azure, hazure, rfl⟩, _, -, _, -, _, -, _, -, _, -, rfl⟩ := h
  rw [finite_text]
  constructor
  · intro hfinite cloud' azure' hcloud' hazure'
    rw [hcloud] at hcloud'
    cases hcloud'
    rw [hazure] at hazure'
    cases hazure'
    exact hfinite
  · exact fun hall => hall cloud azure hcloud hazure

/-- What ma-core does not read of the settings is all that may not be finite. -/
theorem Mirrors.finite_iff {s : App.Settings F} {c : Config} (h : Mirrors py s c) :
    finite py (.dict s.asdict) = true ↔
      finite py s.maCoreAddr = true ∧ finite py s.ipcServerFingerprint = true ∧ finite py s.annotatorId = true ∧
        finite py s.annotatorKey = true ∧ finite py s.tempSessionDir = true ∧ finite py s.tenantId = true ∧
        finite py s.cloud.azure.storageType = true ∧ finite py s.model.asdict = true := by
  have hcloud := h.cloud.finite_iff
  simp only [App.Settings.asdict, finite, finiteMembers, Bool.and_eq_true, and_true, true_and, hcloud,
    h.redisUrl.finite, h.ipcSocketPath.finite, h.storagePath.finite, h.storageMode.finite,
    h.controlCenterAddr.finite, h.controlCenterToken.finite, h.controlCenterTlsCa.finite,
    h.controlCenterSecurity.finite, h.controlCenterMaxVersion.finite, h.theEyesAddr.finite,
    h.silenceTimeoutSeconds.finite, h.kafkaBroker.finite, h.ipcPort.finite, h.ipcBindAddr.finite]

theorem restFinite_iff {homes : App.Homes} {fs : Fields} {o : Options} {s : App.Settings F} {c : Config}
    (hs : App.Settings.fromDict py homes (parsed py (.obj fs)) = some s) (h : Mirrors py (o.edit s) c) :
    finite py (.dict (o.edit s).asdict) = true ↔ RestFinite py fs o := by
  rw [h.finite_iff]
  rw [parsed_obj, App.Settings.fromDict] at hs
  simp only [Value.members, Option.bind_eq_bind, Option.bind_some, Option.bind_eq_some_iff, Option.pure_def,
    Option.some.injEq] at hs
  obtain ⟨_, -, _, -, _, -, cloud, hcloud, model, hmodel, rfl⟩ := hs
  simp only [App.Options.edit, finite_setText, finite_text, finite_storageType hcloud, finite_model hmodel]
  constructor
  · rintro ⟨haddr, hfingerprint, hid, hkey, hdir, htenant, hstorage, hmodel⟩
    refine ⟨?_, hstorage, hmodel⟩
    simp only [appTexts, List.forall_mem_cons, List.not_mem_nil, false_imp_iff, implies_true, and_true]
    exact ⟨haddr, hfingerprint, hid, hkey, hdir, htenant⟩
  · rintro ⟨htexts, hstorage, hmodel⟩
    simp only [appTexts, List.forall_mem_cons, List.not_mem_nil, false_imp_iff, implies_true, and_true] at htexts
    obtain ⟨haddr, hfingerprint, hid, hkey, hdir, htenant⟩ := htexts
    exact ⟨haddr, hfingerprint, hid, hkey, hdir, htenant, hstorage, hmodel⟩

end Finiteness

section Agreement

variable {homes : App.Homes} {coreHomes : Core.Homes} {fs : Fields} {before : Config}

/-- A path that is not in the file is the default of ma-core. -/
theorem rehomed_iff {d d' a : String} {js : List Json} (h : defaulted asString d js = some a) :
    (if js.isEmpty then d' else a) = a ↔ js ≠ [] ∨ d' = d := by
  cases js with
  | nil =>
    cases h
    exact ⟨fun h => .inr h, fun h => h.resolve_left fun h => h rfl⟩
  | cons j js => exact iff_of_true rfl (.inl (List.cons_ne_nil j js))

theorem getD_iff {α : Type} (o : Option α) (a b : α) : o.getD b = o.getD a ↔ o ≠ none ∨ b = a := by
  cases o with
  | none => exact ⟨.inr, fun h => h.resolve_left fun h => h rfl⟩
  | some _ => exact iff_of_true rfl (.inl fun h => nomatch h)

theorem getD_getD {α : Type} (o : Option α) (a : α) : o.getD (o.getD a) = o.getD a := by
  cases o <;> rfl

theorem elim_elim {α β : Type} (o : Option α) (b : β) (f : α → β) : o.elim (o.elim b f) f = o.elim b f := by
  cases o <;> rfl

/-- What has been set stays when it is set again. -/
theorem set_forgotten (o : Options) (c : Config) :
    setConfig o (forgotten (setConfig o c)) = forgotten (setConfig o c) := by
  simp only [setConfig, forgotten, getD_getD, elim_elim]

/-- The saved file agrees with the first one exactly if this has the defaults of what the
settings lack, and the paths that it does not name are the same on both sides. -/
theorem sameExcept_iff (h : before.Reads coreHomes fun name => occurrences name fs) (o : Options) :
    SameExcept o before (forgotten (setConfig o (rehomed homes fs before))) ↔
      (before.pressFetchDelayMs = 1000 ∧ before.typeFetchDelayMs = 1000 ∧ before.beforeFetchOffsetMs = 1000 ∧
        before.afterFetchDelayMs = 1000) ∧ before.kafkaChannelCapacity = 1000 ∧
      before.annotatorMgmtPort = none ∧ before.observability = .default ∧
      (occurrences "ipc_socket_path" fs ≠ [] ∨ homes.ipcSocketPath = coreHomes.ipcSocketPath) ∧
      (o.storagePath ≠ none ∨ occurrences "storage_path" fs ≠ [] ∨
        homes.storagePath = coreHomes.storagePath) := by
  rw [SameExcept, set_forgotten, ← rehomed_iff h.ipcSocketPath, ← rehomed_iff h.storagePath, ← getD_iff]
  simp only [setConfig, forgotten, rehomed, Config.mk.injEq, true_and]
  constructor
  · rintro ⟨hsocket, hstorage, hpress, htype, hbefore, hafter, hcapacity, hport, hobservability⟩
    exact ⟨⟨hpress, htype, hbefore, hafter⟩, hcapacity, hport, hobservability, hsocket.symm, hstorage.symm⟩
  · rintro ⟨⟨hpress, htype, hbefore, hafter⟩, hcapacity, hport, hobservability, hsocket, hstorage⟩
    exact ⟨hsocket.symm, hstorage.symm, hpress, htype, hbefore, hafter, hcapacity, hport, hobservability⟩

end Agreement

section Property

variable {py} {sys : App.System} {homes : App.Homes} {coreHomes : Core.Homes} {fs : Fields} {before : Config}

theorem mem_of_oneOf {choices : List String} {text t : String} (h : App.oneOf choices text = some t) :
    t ∈ choices := by
  rw [App.oneOf] at h
  split at h
  · rename_i hmem
    cases h
    exact List.contains_iff_mem.mp hmem
  · cases h

/-- A transport policy that passes its check is one that ma-core knows. -/
theorem check_security {o e : Options} (h : o.check sys = some e) :
    ∀ t, e.controlCenterSecurity = some t → ∃ v, CcSecurity.ofName t = some v := by
  simp only [App.Options.check, Option.bind_eq_bind, Option.bind_eq_some_iff, Option.pure_def,
    Option.some.injEq] at h
  obtain ⟨_, -, _, -, _, -, security, hsecurity, _, -, _, -, _, -, rfl⟩ := h
  rintro t rfl
  unfold App.checked at hsecurity
  split at hsecurity
  · cases hsecurity
  · obtain ⟨t', ht', hsome⟩ := Option.map_eq_some_iff.mp hsecurity
    cases hsome
    have hchoice := mem_of_oneOf ht'
    simp only [List.mem_cons, List.not_mem_nil, or_false] at hchoice
    obtain h | h | h := hchoice <;> rw [h] <;> exact ⟨_, rfl⟩

theorem fromDict_of_load {j : Json} {s : App.Settings F} (h : App.Settings.load py homes j = some s) :
    App.Settings.fromDict py homes (parsed py j) = some s := by
  obtain ⟨v, hv, hs⟩ := Option.bind_eq_some_iff.mp h
  rw [loads] at hv
  split at hv
  · cases hv
    exact hs
  · cases hv

/-- What is saved of the edited settings is JSON, and read as before but for what is set,
exactly if it is savable. -/
theorem saved_iff {s : App.Settings F} {e : Options}
    (hreads : before.Reads coreHomes fun name => occurrences name fs)
    (hs : App.Settings.fromDict py homes (parsed py (.obj fs)) = some s)
    (hsecurity : ∀ t, e.controlCenterSecurity = some t → ∃ v, CcSecurity.ofName t = some v) :
    (∃ file after, (e.edit s).save py = some file ∧ Config.read coreHomes file = some after ∧
      SameExcept e before after) ↔ Savable py homes coreHomes fs before e := by
  have hmirrors := mirrors_load hreads hs
  constructor
  · rintro ⟨file, after, hfile, hafter, hsame⟩
    rw [App.Settings.save, dumps] at hfile
    split at hfile
    · rename_i hfinite
      cases hfile
      have hrange := inRange_of_reads hafter
      have hedited := mirrors_edit hmirrors hrange hsecurity
      rw [hedited.reads] at hafter
      cases hafter
      obtain ⟨hdelays, hcapacity, hport, hobservability, hsocket, hstorage⟩ := (sameExcept_iff hreads e).mp hsame
      exact ⟨hrange, (restFinite_iff hs hedited).mp hfinite, hdelays, hcapacity, hport, hobservability, hsocket,
        hstorage⟩
    · cases hfile
  · rintro ⟨hrange, hfinite, hdelays, hcapacity, hport, hobservability, hsocket, hstorage⟩
    have hedited := mirrors_edit hmirrors hrange hsecurity
    refine ⟨_, _, if_pos ((restFinite_iff hs hedited).mpr hfinite), hedited.reads coreHomes, ?_⟩
    exact (sameExcept_iff hreads e).mpr ⟨hdelays, hcapacity, hport, hobservability, hsocket, hstorage⟩

/-- For a file that ma-core accepts, the command keeps what ma-core reads of it exactly if
nothing in the file makes it raise and the file with the changes is savable. -/
theorem preserves_iff (py : Runtime F) (sys : App.System) (homes : App.Homes) (coreHomes : Core.Homes)
    (o : Options) (fs : Fields) (before : Config) (h : Config.read coreHomes (.obj fs) = some before) :
    Preserves py sys homes coreHomes o fs before ↔
      Loadable py fs ∧ ∀ e, o.check sys = some e → e.changes = true →
        Savable py homes coreHomes fs before e := by
  have hreads := (read_iff coreHomes fs before).mp h
  rw [← load_iff py homes hreads, Preserves, App.config]
  cases hload : App.Settings.load py homes (.obj fs) with
  | none => exact iff_of_false id fun h => by cases h.1.choose_spec
  | some s =>
    rw [and_iff_right ⟨s, rfl⟩]
    cases hcheck : o.check sys with
    | none => exact iff_of_true trivial fun _ he => nomatch he
    | some e =>
      have hedit (P : Options → Prop) : (∀ e', some e = some e' → P e') ↔ P e :=
        ⟨fun hall => hall e rfl, fun he e' he' => Option.some.inj he' ▸ he⟩
      rw [hedit]
      dsimp only
      cases hchanges : e.changes with
      | false => exact iff_of_true trivial fun h => nomatch h
      | true =>
        rw [if_pos rfl]
        have hsaved := saved_iff hreads (fromDict_of_load hload) (check_security hcheck)
        refine Iff.trans ?_ (forall_prop_of_true rfl).symm
        rw [← hsaved]
        cases (e.edit s).save py with
        | none => exact iff_of_false id fun ⟨_, _, h, _⟩ => nomatch h
        | some file =>
          constructor
          · rintro ⟨after, hafter, hsame⟩
            exact ⟨file, after, rfl, hafter, hsame e rfl⟩
          · rintro ⟨file', after, hfile, hafter, hsame⟩
            cases hfile
            exact ⟨after, hafter, fun e' he' => Option.some.inj he' ▸ hsame⟩

end Property

section Samples

/-- Floats that are no more than their literals, which is all that the samples need. -/
def literals : Runtime Number where
  ofLiteral := id
  ofInt i := some (Number.ofInt i)
  ofText _ := none
  thousandfold := id
  truncate := Number.toInt?
  isZero _ := false
  isFinite _ := true
  repr := id
  intOfText _ := none

def sampleSystem : App.System := ⟨some, some, Char.isDigit⟩

def sampleHomes : App.Homes :=
  ⟨"/home/a/.memory-archive/ma.sock", "/home/a/.memory-archive/memories", "/tmp/ma-sessions"⟩

def sampleCoreHomes : Core.Homes := ⟨"/home/a/.memory-archive/ma.sock", "/home/a/.memory-archive/memories"⟩

/-- `--ipc-port 9000`. -/
def portOption : Options where
  storagePath := none
  storageMode := none
  controlCenterAddr := none
  controlCenterToken := none
  controlCenterTlsCa := none
  controlCenterSecurity := none
  controlCenterMaxVersion := none
  controlCenterAllowUnsupported := none
  theEyesAddr := none
  theEyesPollInterval := none
  cloud := none
  awsBucket := none
  awsRegion := none
  azureContainer := none
  azureAccount := none
  azureStorageType := none
  gcpBucket := none
  gcpProject := none
  maCoreAddr := none
  ipcPort := some 9000
  ipcBindAddr := none
  ipcServerFingerprint := none
  annotatorId := none
  annotatorKey := none
  tenantId := none
  kafkaBroker := none
  redisUrl := none
  silenceTimeout := none
  metadataFlushInterval := none
  tempSessionDir := none

def sampleConfig (broker : String) (capacity : Nat) : Config where
  redisUrl := "redis://127.0.0.1:6379"
  ipcSocketPath := "/home/a/.memory-archive/ma.sock"
  storagePath := "/home/a/.memory-archive/memories"
  controlCenterAddr := ""
  controlCenterTlsCa := ""
  controlCenterToken := ""
  controlCenterSecurity := .auto
  controlCenterMaxVersion := ""
  controlCenterAllowUnsupported := false
  theEyesAddr := ""
  theEyesPollIntervalSeconds := 10
  silenceTimeoutSeconds := 30
  pressFetchDelayMs := 1000
  typeFetchDelayMs := 1000
  beforeFetchOffsetMs := 1000
  afterFetchDelayMs := 1000
  kafkaBroker := broker
  kafkaChannelCapacity := capacity
  metadataFlushInterval := 10
  ipcPort := none
  ipcBindAddr := "0.0.0.0"
  annotatorMgmtPort := none
  storageMode := "local"
  cloud := .default
  observability := .default

def brokerFile : Fields := [("kafka_broker", .str "broker:9092")]

theorem brokerFile_other {key : String} (h : "kafka_broker" ≠ key) (default : Value Number) :
    getD (parsedFields literals brokerFile) key default = default := by
  rw [getD, lookup_parsedFields, brokerFile, Reasoning.occurrences_cons, if_neg h]
  rfl

theorem loadable_broker : Loadable literals brokerFile where
  digits := rfl
  cloud := by
    rw [brokerFile_other (by decide)]
    exact ⟨[], rfl, ⟨[], rfl⟩, ⟨[], rfl⟩, ⟨[], rfl⟩, ⟨[], rfl, fun _ h => nomatch h⟩,
      ⟨[], rfl, fun _ h => nomatch h⟩⟩
  model := by
    rw [brokerFile_other (by decide)]
    exact ⟨[], rfl, fun f _ => ⟨f.2, rfl⟩, ⟨App.three, rfl⟩, ⟨App.fifteen, rfl⟩, ⟨[], rfl, fun _ h => nomatch h⟩⟩
  syncRetryMax := by
    rw [brokerFile_other (by decide)]
    exact ⟨5, rfl⟩

theorem restFinite_broker : RestFinite literals brokerFile portOption where
  texts := by
    simp only [appTexts, List.forall_mem_cons, List.not_mem_nil, false_imp_iff, implies_true, and_true]
    refine ⟨?_, ?_, ?_, ?_, ?_, ?_⟩ <;>
    · intro _
      rw [FiniteAt, brokerFile_other (by decide)]
      rfl
  storageType := by
    intro _ cloud azure hcloud hazure
    rw [brokerFile_other (by decide)] at hcloud
    cases hcloud
    cases hazure
    rfl
  model := by
    intro d hd
    rw [brokerFile_other (by decide)] at hd
    cases hd
    exact ⟨fun _ _ => rfl, fun _ _ => rfl, fun _ _ => rfl, fun items hitems p hp => by cases hitems; cases hp⟩

/-- A broker that is configured stays when a port is set. -/
theorem preserves_broker :
    Preserves literals sampleSystem sampleHomes sampleCoreHomes portOption brokerFile
      (sampleConfig "broker:9092" 1000) := by
  have hread : Config.read sampleCoreHomes (.obj brokerFile) = some (sampleConfig "broker:9092" 1000) := by
    decide +kernel
  refine (preserves_iff literals sampleSystem sampleHomes sampleCoreHomes portOption brokerFile _ hread).mpr
    ⟨loadable_broker, fun e he _ => ?_⟩
  obtain rfl : portOption = e := Option.some.inj he
  exact {
    inRange := ⟨fun _ h => (nomatch h), fun _ h => (nomatch h), fun _ h => (nomatch h),
      fun i h => (by cases h; decide)⟩
    finite := restFinite_broker
    delays := ⟨rfl, rfl, rfl, rfl⟩
    kafkaChannelCapacity := rfl
    annotatorMgmtPort := rfl
    observability := rfl
    ipcSocketPath := .inr rfl
    storagePath := .inr (.inr rfl) }

def capacityFile : Fields := [("kafka_channel_capacity", .num (Number.ofNat 5000))]

/-- The capacity that is read from what is saved. -/
def storedCapacity : App.Outcome → Option Nat
  | .saved (some file) => (Config.read sampleCoreHomes file).map (·.kafkaChannelCapacity)
  | _ => none

/-- A capacity that is configured is lost when a port is set. -/
theorem capacity_lost :
    Config.read sampleCoreHomes (.obj capacityFile) = some (sampleConfig "" 5000) ∧
      ¬ Preserves literals sampleSystem sampleHomes sampleCoreHomes portOption capacityFile
        (sampleConfig "" 5000) := by
  refine ⟨by decide +kernel, fun h => ?_⟩
  have hlost : storedCapacity (App.config literals sampleSystem sampleHomes portOption (.obj capacityFile)) =
      some 1000 := by decide +kernel
  rw [Preserves] at h
  split at h
  · exact h
  · exact h
  · rename_i hc
    rw [hc] at hlost
    cases hlost
  · rename_i hc
    rw [hc] at hlost
    cases hlost
  · rename_i file hc
    rw [hc] at hlost
    obtain ⟨after, hafter, hsame⟩ := h
    rw [storedCapacity, hafter] at hlost
    have hafterCapacity : after.kafkaChannelCapacity = 1000 := Option.some.inj hlost
    have hcapacity : 5000 = after.kafkaChannelCapacity :=
      congrArg Config.kafkaChannelCapacity (hsame portOption rfl)
    rw [hafterCapacity] at hcapacity
    cases hcapacity

end Samples

end MemoryArchive.Configuration
