import MemoryArchive.Configuration.App
import MemoryArchive.Configuration.Core

namespace MemoryArchive.Configuration

open Json (Fields Number)
open Python Core
open Reasoning (occurrences required asString asBool)

variable {F α : Type} (py : Runtime F)

/-- What is written for the value is read as `a`. -/
structure Shows (read : Json → Option α) (v : Value F) (a : α) : Prop where
  reads : read (toJson py v) = some a
  finite : finite py v = true

/-- A value that is read as something is read so again after Python has parsed and
written it. -/
def Keeps (read : Json → Option α) : Prop := ∀ j a, read j = some a → Shows py read (parsed py j) a

section Scalars

theorem keeps_asString : Keeps py asString := by
  intro j a h
  cases j with
  | str s => exact ⟨h, rfl⟩
  | null | bool _ | num _ | arr _ | obj _ => cases h

theorem keeps_asBool : Keeps py asBool := by
  intro j a h
  cases j with
  | bool b => exact ⟨h, rfl⟩
  | null | num _ | str _ | arr _ | obj _ => cases h

theorem toInt?_of_toNat? {n : Number} {v : Nat} (h : n.toNat? = some v) : n.toInt? = some (v : Int) := by
  rw [Number.toNat?] at h
  split at h
  · rename_i hall
    cases h
    rw [Number.toInt?]
    split
    · rename_i ds heq
      rw [heq] at hall
      cases hall
    · exact if_pos hall
  · cases h

theorem asUnsigned_ofNat (bits v : Nat) :
    asUnsigned bits (.num (Number.ofInt v)) = if v < 2 ^ bits then some v else none := by
  change (Number.ofNat v).toNat?.bind _ = _
  rw [Json.toNat?_ofNat]
  rfl

/-- An integer is read as an unsigned one exactly if it is in its range. -/
theorem asUnsigned_ofInt (bits : Nat) (i : Int) (v : Nat) :
    asUnsigned bits (.num (Number.ofInt i)) = some v ↔ i = v ∧ v < 2 ^ bits := by
  cases i with
  | ofNat n =>
    rw [Int.ofNat_eq_natCast, asUnsigned_ofNat, Int.natCast_inj]
    split
    · rename_i hlt
      rw [Option.some.injEq]
      exact ⟨fun h => ⟨h, h ▸ hlt⟩, fun h => h.1⟩
    · rename_i hge
      exact iff_of_false (fun h => by cases h) fun h => hge (h.1 ▸ h.2)
  | negSucc n =>
    refine iff_of_false (fun h => ?_) fun h => ?_
    · rw [asUnsigned, Option.bind_eq_some_iff] at h
      obtain ⟨_, hnone, -⟩ := h
      cases hnone
    · cases h.1

theorem parsed_of_asUnsigned {bits : Nat} {j : Json} {v : Nat} (h : asUnsigned bits j = some v) :
    parsed py j = .int v := by
  cases j with
  | num n =>
    obtain ⟨w, hw, hrange⟩ := Option.bind_eq_some_iff.mp h
    split at hrange
    · cases hrange
      rw [parsed, Json.rebuild, ofJson, toInt?_of_toNat? hw]
    · cases hrange
  | null | bool _ | str _ | arr _ | obj _ => cases h

theorem lt_of_asUnsigned {bits : Nat} {j : Json} {v : Nat} (h : asUnsigned bits j = some v) : v < 2 ^ bits := by
  cases j with
  | num n =>
    obtain ⟨w, -, hrange⟩ := Option.bind_eq_some_iff.mp h
    split at hrange
    · cases hrange
      assumption
    · cases hrange
  | null | bool _ | str _ | arr _ | obj _ => cases h

theorem lt_of_defaulted {bits d v : Nat} (hd : d < 2 ^ bits) {js : List Json}
    (h : defaulted (asUnsigned bits) d js = some v) : v < 2 ^ bits := by
  unfold defaulted at h
  split at h
  · cases h
    exact hd
  · exact lt_of_asUnsigned h
  · cases h

theorem shows_int {bits v : Nat} (h : v < 2 ^ bits) : Shows py (asUnsigned bits) (.int v) v := by
  refine ⟨?_, rfl⟩
  rw [toJson, asUnsigned_ofNat, if_pos h]

theorem keeps_asUnsigned (bits : Nat) : Keeps py (asUnsigned bits) := by
  intro j a h
  rw [parsed_of_asUnsigned py h]
  exact shows_int py (lt_of_asUnsigned h)

theorem asPort_of_num {j : Json} (hj : j ≠ .null) : asPort j = (asUnsigned 16 j).map some := by
  cases j with
  | null => exact absurd rfl hj
  | bool _ | num _ | str _ | arr _ | obj _ => rfl

theorem keeps_asPort : Keeps py asPort := by
  intro j a h
  cases j with
  | null => exact ⟨h, rfl⟩
  | num n =>
    obtain ⟨v, hv, rfl⟩ := Option.map_eq_some_iff.mp h
    obtain ⟨hreads, hfinite⟩ := keeps_asUnsigned py 16 (.num n) v hv
    refine ⟨?_, hfinite⟩
    rw [asPort_of_num, hreads]
    · rfl
    · intro hnull
      rw [hnull] at hreads
      cases hreads
  | bool _ | str _ | arr _ | obj _ => cases h

theorem keeps_asCcSecurity : Keeps py asCcSecurity := by
  intro j a h
  unfold asCcSecurity at h
  split at h
  · exact ⟨h, rfl⟩
  · exact ⟨h, rfl⟩
  · cases h

end Scalars

section Members

theorem lookup_rebuildFields_putDict (key : String) (fields acc : Fields) :
    (Json.rebuildFields Json.putDict acc fields).lookup key =
      ((occurrences key fields).getLast?.map (Json.rebuild Json.putDict)).or (acc.lookup key) := by
  induction fields generalizing acc with
  | nil => rw [Json.rebuildFields, Reasoning.occurrences_nil, List.getLast?_nil, Option.map_none, Option.none_or]
  | cons f fields ih =>
    obtain ⟨k, v⟩ := f
    rw [Json.rebuildFields, ih, Json.lookup_putDict, Reasoning.occurrences_cons]
    by_cases hkey : k = key
    · rw [if_pos hkey.symm, if_pos hkey, List.getLast?_cons]
      cases (occurrences key fields).getLast? <;> rfl
    · rw [if_neg (Ne.symm hkey), if_neg hkey]

/-- A dictionary has the last value that the members name for a key. -/
theorem lookup_parsedFields (key : String) (fs : Fields) :
    (parsedFields py fs).lookup key = (occurrences key fs).getLast?.map (parsed py) := by
  rw [parsedFields, lookup_ofFields, lookup_rebuildFields_putDict, List.lookup_nil, Option.or_none,
    Option.map_map]
  rfl

variable {py}

/-- A field that ma-core reads from the file is kept, and its default with it. -/
theorem shows_get {read : Json → Option α} (hread : Keeps py read) {d a : α} {key : String} {fs : Fields}
    (h : defaulted read d (occurrences key fs) = some a) {default : Value F}
    (hdefault : Shows py read default d) : Shows py read (getD (parsedFields py fs) key default) a := by
  rw [getD, lookup_parsedFields]
  unfold defaulted at h
  split at h
  · rename_i hnone
    cases h
    rw [hnone]
    exact hdefault
  · rename_i j hone
    rw [hone]
    exact hread j a h
  · cases h

theorem shows_get_required {read : Json → Option α} (hread : Keeps py read) {a : α} {key : String} {fs : Fields}
    (h : required read (occurrences key fs) = some a) (default : Value F) :
    Shows py read (getD (parsedFields py fs) key default) a := by
  rw [getD, lookup_parsedFields]
  unfold required at h
  split at h
  · rename_i j hone
    rw [hone]
    exact hread j a h
  · cases h

/-- A value that is not read has to be finite for the file to be JSON. -/
theorem finite_get {d : Dict F} {key : String} {default : Value F} (h : finite py default = true) :
    finite py (getD d key default) = true ↔ finite py (getD d key .null) = true := by
  rw [getD, getD]
  cases d.lookup key with
  | none => exact iff_of_true h rfl
  | some v => exact Iff.rfl

end Members

section Records

variable {py}

theorem members_parsed {j : Json} {d : Dict F} (h : (parsed py j).members = some d) :
    ∃ fs, j = .obj fs ∧ d = parsedFields py fs := by
  cases j with
  | obj fs =>
    rw [parsed_obj] at h
    cases h
    exact ⟨fs, rfl, rfl⟩
  | num n =>
    rw [parsed, Json.rebuild, ofJson] at h
    split at h <;> cases h
  | null | bool _ | str _ | arr _ => cases h

theorem members_of_kwargs {names : List String} {v : Value F} {d : Dict F} (h : App.kwargs names v = some d) :
    v.members = some d := by
  unfold App.kwargs at h
  split at h
  · split at h
    · exact h
    · cases h
  · cases h

theorem iterate_parsed {j : Json} {items : List Json} {vs : List (Value F)} (hj : j = .arr items)
    (h : (parsed py j).iterate = some vs) : vs = items.map (parsed py) := by
  rw [hj, parsed_arr] at h
  cases h
  rfl

/-- A member that both sides take apart, or leave at its default, which both have. -/
theorem member_getD {σ : Type} {read : Json → Option α} {fromDict : Value F → Option σ} {Q : σ → α → Prop}
    (hread : ∀ j a s, read j = some a → fromDict (parsed py j) = some s → Q s a) (j₀ : Json) {d : α}
    (hd : read j₀ = some d) {key : String} {fs : Fields} {a : α} {s : σ}
    (h : defaulted read d (occurrences key fs) = some a)
    (hs : fromDict (getD (parsedFields py fs) key (parsed py j₀)) = some s) : Q s a := by
  rw [getD, lookup_parsedFields] at hs
  unfold defaulted at h
  split at h
  · rename_i hnone
    cases h
    rw [hnone] at hs
    exact hread j₀ _ s hd hs
  · rename_i j hone
    rw [hone] at hs
    exact hread j a s h hs
  · cases h

theorem shows_str (s : String) : Shows py asString (.str s) s := ⟨rfl, rfl⟩

theorem shows_namedBackend {j : Json} {b : Core.NamedBackendConfig} {s : App.NamedBackendConfig F}
    (h : Core.NamedBackendConfig.read j = some b) (hs : App.NamedBackendConfig.fromDict (parsed py j) = some s) :
    Shows py Core.NamedBackendConfig.read s.asdict b := by
  rw [App.NamedBackendConfig.fromDict, Option.bind_eq_bind, Option.bind_eq_some_iff] at hs
  obtain ⟨d, hd, hs⟩ := hs
  obtain ⟨fs, rfl, rfl⟩ := members_parsed hd
  cases hs
  rw [Core.NamedBackendConfig.read, fieldsOf] at h
  simp only [Option.bind_eq_bind, Option.bind_some, Option.bind_eq_some_iff, Option.pure_def,
    Option.some.injEq] at h
  obtain ⟨_, hname, _, hprovider, _, hbucket, _, hregion, _, haccount, _, hcontainer, _, hproject, rfl⟩ := h
  have name := shows_get_required (keeps_asString py) hname (.str "")
  have provider := shows_get_required (keeps_asString py) hprovider (.str "")
  have bucket := shows_get (keeps_asString py) hbucket (shows_str "")
  have region := shows_get (keeps_asString py) hregion (shows_str "")
  have account := shows_get (keeps_asString py) haccount (shows_str "")
  have container := shows_get (keeps_asString py) hcontainer (shows_str "")
  have project := shows_get (keeps_asString py) hproject (shows_str "")
  refine ⟨?_, ?_⟩
  · simp [App.NamedBackendConfig.asdict, toJson, toFields, Core.NamedBackendConfig.read, fieldsOf, required,
      defaulted, name.reads, provider.reads, bucket.reads, region.reads, account.reads, container.reads,
      project.reads]
  · simp [App.NamedBackendConfig.asdict, finite, finiteMembers, name.finite, provider.finite, bucket.finite,
      region.finite, account.finite, container.finite, project.finite]

theorem shows_bool (b : Bool) : Shows py asBool (.bool b) b := ⟨rfl, rfl⟩

/-- A boolean is taken as it is. -/
theorem toBool_of_shows {v : Value F} {b : Bool} (h : Shows py asBool v b) : v.toBool py = b := by
  have hreads := h.reads
  cases v with
  | bool b' =>
    cases hreads
    rfl
  | null | int _ | float _ | str _ | list _ | dict _ => cases hreads

theorem shows_routingRule {j : Json} {r : Core.RoutingRuleConfig} {s : App.RoutingRuleConfig F}
    (h : Core.RoutingRuleConfig.read j = some r) (hs : App.RoutingRuleConfig.fromDict py (parsed py j) = some s) :
    Shows py Core.RoutingRuleConfig.read s.asdict r := by
  rw [App.RoutingRuleConfig.fromDict, Option.bind_eq_bind, Option.bind_eq_some_iff] at hs
  obtain ⟨d, hd, hs⟩ := hs
  obtain ⟨fs, rfl, rfl⟩ := members_parsed hd
  cases hs
  rw [Core.RoutingRuleConfig.read, fieldsOf] at h
  simp only [Option.bind_eq_bind, Option.bind_some, Option.bind_eq_some_iff, Option.pure_def,
    Option.some.injEq] at h
  obtain ⟨_, hprefix, _, hdefault, _, hbackend, rfl⟩ := h
  have tenantPrefix := shows_get (keeps_asString py) hprefix (shows_str "")
  obtain rfl := toBool_of_shows (shows_get (keeps_asBool py) hdefault (shows_bool false))
  have isDefault : Shows py asBool (.bool _) _ :=
    shows_bool ((getD (parsedFields py fs) "match_default" (.bool false)).toBool py)
  have backend := shows_get_required (keeps_asString py) hbackend (.str "")
  refine ⟨?_, ?_⟩
  · refine bind_some (defaulted_one (by simp [toFields]) tenantPrefix.reads) ?_
    refine bind_some (defaulted_one (by simp [toFields]) isDefault.reads) ?_
    exact bind_some (required_one (by simp [toFields]) backend.reads) rfl
  · simp [App.RoutingRuleConfig.asdict, finite, finiteMembers, tenantPrefix.finite, backend.finite]

theorem finite_list (py : Runtime F) (vs : List (Value F)) :
    finite py (.list vs) = true ↔ ∀ v ∈ vs, finite py v = true := by
  rw [finite]
  induction vs with
  | nil => exact iff_of_true rfl fun _ h => nomatch h
  | cons v vs ih => rw [finiteItems, Bool.and_eq_true, ih, List.forall_mem_cons]

/-- What is shown of each item is shown of the list. -/
theorem shows_list {σ : Type} {read : Json → Option α} {fromDict : Value F → Option σ} {asdict : σ → Value F}
    (hitem : ∀ j a s, read j = some a → fromDict (parsed py j) = some s → Shows py read (asdict s) a)
    {items : List Json} {as : List α} {ss : List σ} (h : items.mapM read = some as)
    (hs : (items.map (parsed py)).mapM fromDict = some ss) :
    Shows py (asList read) (.list (ss.map asdict)) as := by
  have hall : (ss.map fun s => toJson py (asdict s)).mapM read = some as ∧
      ∀ s ∈ ss, finite py (asdict s) = true := by
    induction items generalizing as ss with
    | nil =>
      cases h
      cases hs
      exact ⟨rfl, fun _ h => nomatch h⟩
    | cons j items ih =>
      simp only [List.map_cons, List.mapM_cons, Option.bind_eq_bind, Option.bind_eq_some_iff, Option.pure_def,
        Option.some.injEq] at h hs
      obtain ⟨a, ha, as, has, rfl⟩ := h
      obtain ⟨s, hsome, ss, hss, rfl⟩ := hs
      obtain ⟨hreads, hfinite⟩ := hitem j a s ha hsome
      obtain ⟨hrest, hrestFinite⟩ := ih has hss
      refine ⟨?_, List.forall_mem_cons.mpr ⟨hfinite, hrestFinite⟩⟩
      rw [List.map_cons, List.mapM_cons, hreads, hrest]
      rfl
  refine ⟨?_, ?_⟩
  · rw [toJson, toItems_eq_map, List.map_map]
    exact hall.1
  · rw [finite_list, List.forall_mem_map]
    exact hall.2

/-- The records of a list that both sides go through. -/
theorem shows_records {σ : Type} {read : Json → Option α} {fromDict : Value F → Option σ} {asdict : σ → Value F}
    (hitem : ∀ j a s, read j = some a → fromDict (parsed py j) = some s → Shows py read (asdict s) a)
    {key : String} {fs : Fields} {as : List α} (h : defaulted (asList read) [] (occurrences key fs) = some as)
    {vs : List (Value F)} (hvs : (getD (parsedFields py fs) key (.list [])).iterate = some vs) {ss : List σ}
    (hs : vs.mapM fromDict = some ss) : Shows py (asList read) (.list (ss.map asdict)) as := by
  have hboth (j : Json) (as : List α) (vs : List (Value F)) (hj : asList read j = some as)
      (hvs : (parsed py j).iterate = some vs) :
      ∀ ss, vs.mapM fromDict = some ss → Shows py (asList read) (.list (ss.map asdict)) as := by
    intro ss hss
    cases j with
    | arr items =>
      rw [iterate_parsed rfl hvs] at hss
      exact shows_list hitem hj hss
    | null | bool _ | num _ | str _ | obj _ => cases hj
  exact member_getD hboth (.arr []) rfl h hvs ss hs

theorem aws_mirrored {j : Json} {c : Core.AwsConfig} {s : App.AwsConfig F} (h : Core.AwsConfig.read j = some c)
    (hs : App.AwsConfig.fromDict (parsed py j) = some s) :
    Shows py asString s.bucket c.bucket ∧ Shows py asString s.region c.region := by
  rw [App.AwsConfig.fromDict, Option.bind_eq_bind, Option.bind_eq_some_iff] at hs
  obtain ⟨d, hd, hs⟩ := hs
  obtain ⟨fs, rfl, rfl⟩ := members_parsed (members_of_kwargs hd)
  cases hs
  rw [Core.AwsConfig.read, fieldsOf] at h
  simp only [Option.bind_eq_bind, Option.bind_some, Option.bind_eq_some_iff, Option.pure_def,
    Option.some.injEq] at h
  obtain ⟨_, hbucket, _, hregion, rfl⟩ := h
  exact ⟨shows_get (keeps_asString py) hbucket (shows_str ""),
    shows_get (keeps_asString py) hregion (shows_str "")⟩

theorem azure_mirrored {j : Json} {c : Core.AzureConfig} {s : App.AzureConfig F}
    (h : Core.AzureConfig.read j = some c) (hs : App.AzureConfig.fromDict (parsed py j) = some s) :
    Shows py asString s.container c.container ∧ Shows py asString s.account c.account := by
  rw [App.AzureConfig.fromDict, Option.bind_eq_bind, Option.bind_eq_some_iff] at hs
  obtain ⟨d, hd, hs⟩ := hs
  obtain ⟨fs, rfl, rfl⟩ := members_parsed hd
  cases hs
  rw [Core.AzureConfig.read, fieldsOf] at h
  simp only [Option.bind_eq_bind, Option.bind_some, Option.bind_eq_some_iff, Option.pure_def,
    Option.some.injEq] at h
  obtain ⟨_, hcontainer, _, haccount, rfl⟩ := h
  exact ⟨shows_get (keeps_asString py) hcontainer (shows_str ""),
    shows_get (keeps_asString py) haccount (shows_str "")⟩

theorem gcp_mirrored {j : Json} {c : Core.GcpConfig} {s : App.GcpConfig F} (h : Core.GcpConfig.read j = some c)
    (hs : App.GcpConfig.fromDict (parsed py j) = some s) :
    Shows py asString s.bucket c.bucket ∧ Shows py asString s.project c.project := by
  rw [App.GcpConfig.fromDict, Option.bind_eq_bind, Option.bind_eq_some_iff] at hs
  obtain ⟨d, hd, hs⟩ := hs
  obtain ⟨fs, rfl, rfl⟩ := members_parsed (members_of_kwargs hd)
  cases hs
  rw [Core.GcpConfig.read, fieldsOf] at h
  simp only [Option.bind_eq_bind, Option.bind_some, Option.bind_eq_some_iff, Option.pure_def,
    Option.some.injEq] at h
  obtain ⟨_, hbucket, _, hproject, rfl⟩ := h
  exact ⟨shows_get (keeps_asString py) hbucket (shows_str ""),
    shows_get (keeps_asString py) hproject (shows_str "")⟩

end Records

section Cloud

/-- What ma-core reads of the cloud section of the settings. -/
structure MirrorsCloud (s : App.CloudConfig F) (c : Core.CloudConfig) : Prop where
  provider : Shows py asString s.provider c.provider
  awsBucket : Shows py asString s.aws.bucket c.aws.bucket
  awsRegion : Shows py asString s.aws.region c.aws.region
  azureContainer : Shows py asString s.azure.container c.azure.container
  azureAccount : Shows py asString s.azure.account c.azure.account
  gcpBucket : Shows py asString s.gcp.bucket c.gcp.bucket
  gcpProject : Shows py asString s.gcp.project c.gcp.project
  backends : Shows py (asList NamedBackendConfig.read) (.list (s.backends.map (·.asdict))) c.backends
  routingRules : Shows py (asList RoutingRuleConfig.read) (.list (s.routingRules.map (·.asdict))) c.routingRules

variable {py}

theorem cloud_mirrored {j : Json} {c : Core.CloudConfig} {s : App.CloudConfig F}
    (h : Core.CloudConfig.read j = some c) (hs : App.CloudConfig.fromDict py (parsed py j) = some s) :
    MirrorsCloud py s c := by
  rw [App.CloudConfig.fromDict, Option.bind_eq_bind, Option.bind_eq_some_iff] at hs
  obtain ⟨d, hd, hs⟩ := hs
  obtain ⟨fs, rfl, rfl⟩ := members_parsed hd
  simp only [Option.bind_eq_bind, Option.bind_eq_some_iff, Option.pure_def, Option.some.injEq] at hs
  obtain ⟨aws, haws, azure, hazure, gcp, hgcp, items, hitems, backends, hbackends, entries, hentries, rules,
    hrules, rfl⟩ := hs
  rw [Core.CloudConfig.read, fieldsOf] at h
  simp only [Option.bind_eq_bind, Option.bind_some, Option.bind_eq_some_iff, Option.pure_def,
    Option.some.injEq] at h
  obtain ⟨_, hprovider, _, haws', _, hazure', _, hgcp', _, hbackends', _, hrules', rfl⟩ := h
  obtain ⟨hawsBucket, hawsRegion⟩ := member_getD (fun _ _ _ => aws_mirrored) (.obj []) rfl haws' haws
  obtain ⟨hcontainer, haccount⟩ := member_getD (fun _ _ _ => azure_mirrored) (.obj []) rfl hazure' hazure
  obtain ⟨hgcpBucket, hgcpProject⟩ := member_getD (fun _ _ _ => gcp_mirrored) (.obj []) rfl hgcp' hgcp
  exact {
    provider := shows_get (keeps_asString py) hprovider (shows_str "")
    awsBucket := hawsBucket
    awsRegion := hawsRegion
    azureContainer := hcontainer
    azureAccount := haccount
    gcpBucket := hgcpBucket
    gcpProject := hgcpProject
    backends := shows_records (fun _ _ _ => shows_namedBackend) hbackends' hitems hbackends
    routingRules := shows_records (fun _ _ _ => shows_routingRule) hrules' hentries hrules }

theorem MirrorsCloud.reads {s : App.CloudConfig F} {c : Core.CloudConfig} (h : MirrorsCloud py s c) :
    Core.CloudConfig.read (toJson py s.asdict) = some c := by
  have haws : Core.AwsConfig.read (toJson py s.aws.asdict) = some c.aws := by
    refine bind_some (defaulted_one (by simp [toFields]) h.awsBucket.reads) ?_
    exact bind_some (defaulted_one (by simp [toFields]) h.awsRegion.reads) rfl
  have hazure : Core.AzureConfig.read (toJson py s.azure.asdict) = some c.azure := by
    refine bind_some (defaulted_one (by simp [toFields]) h.azureContainer.reads) ?_
    exact bind_some (defaulted_one (by simp [toFields]) h.azureAccount.reads) rfl
  have hgcp : Core.GcpConfig.read (toJson py s.gcp.asdict) = some c.gcp := by
    refine bind_some (defaulted_one (by simp [toFields]) h.gcpBucket.reads) ?_
    exact bind_some (defaulted_one (by simp [toFields]) h.gcpProject.reads) rfl
  refine bind_some (defaulted_one (by simp [toFields]) h.provider.reads) ?_
  refine bind_some (defaulted_one (by simp [toFields]) haws) ?_
  refine bind_some (defaulted_one (by simp [toFields]) hazure) ?_
  refine bind_some (defaulted_one (by simp [toFields]) hgcp) ?_
  refine bind_some (defaulted_one (by simp [toFields]) h.backends.reads) ?_
  exact bind_some (defaulted_one (by simp [toFields]) h.routingRules.reads) rfl

/-- The storage type is all that ma-core does not read of it. -/
theorem MirrorsCloud.finite_iff {s : App.CloudConfig F} {c : Core.CloudConfig} (h : MirrorsCloud py s c) :
    finite py s.asdict = true ↔ finite py s.azure.storageType = true := by
  have hbackends := h.backends.finite
  have hrules := h.routingRules.finite
  rw [finite] at hbackends hrules
  simp [App.CloudConfig.asdict, App.AwsConfig.asdict, App.AzureConfig.asdict, App.GcpConfig.asdict, finite,
    finiteMembers, h.provider.finite, h.awsBucket.finite, h.awsRegion.finite, h.azureContainer.finite,
    h.azureAccount.finite, h.gcpBucket.finite, h.gcpProject.finite, hbackends, hrules]

end Cloud

section Whole

/-- What ma-core reads of the settings, but for the fields that they lack. -/
structure Mirrors (s : App.Settings F) (c : Config) : Prop where
  redisUrl : Shows py asString s.redisUrl c.redisUrl
  ipcSocketPath : Shows py asString s.ipcSocketPath c.ipcSocketPath
  storagePath : Shows py asString s.storagePath c.storagePath
  controlCenterAddr : Shows py asString s.controlCenterAddr c.controlCenterAddr
  controlCenterTlsCa : Shows py asString s.controlCenterTlsCa c.controlCenterTlsCa
  controlCenterToken : Shows py asString s.controlCenterToken c.controlCenterToken
  controlCenterSecurity : Shows py asCcSecurity s.controlCenterSecurity c.controlCenterSecurity
  controlCenterMaxVersion : Shows py asString s.controlCenterMaxVersion c.controlCenterMaxVersion
  controlCenterAllowUnsupported : s.controlCenterAllowUnsupported = c.controlCenterAllowUnsupported
  theEyesAddr : Shows py asString s.theEyesAddr c.theEyesAddr
  theEyesPollIntervalSeconds :
    Shows py (asUnsigned 64) (.int s.theEyesPollIntervalSeconds) c.theEyesPollIntervalSeconds
  silenceTimeoutSeconds : Shows py (asUnsigned 64) s.silenceTimeoutSeconds c.silenceTimeoutSeconds
  kafkaBroker : Shows py asString s.kafkaBroker c.kafkaBroker
  metadataFlushInterval : Shows py (asUnsigned 32) (.int s.metadataFlushInterval) c.metadataFlushInterval
  ipcPort : Shows py asPort s.ipcPort c.ipcPort
  ipcBindAddr : Shows py asString s.ipcBindAddr c.ipcBindAddr
  storageMode : Shows py asString s.storageMode c.storageMode
  cloud : MirrorsCloud py s.cloud c.cloud

/-- The configuration with the defaults of what the settings lack. -/
def forgotten (c : Config) : Config := { c with
  pressFetchDelayMs := 1000
  typeFetchDelayMs := 1000
  beforeFetchOffsetMs := 1000
  afterFetchDelayMs := 1000
  kafkaChannelCapacity := 1000
  annotatorMgmtPort := none
  observability := .default }

/-- The configuration with the app's own defaults for the paths. -/
def rehomed (homes : App.Homes) (fs : Fields) (c : Config) : Config := { c with
  ipcSocketPath := if (occurrences "ipc_socket_path" fs).isEmpty then homes.ipcSocketPath else c.ipcSocketPath
  storagePath := if (occurrences "storage_path" fs).isEmpty then homes.storagePath else c.storagePath }

variable {py}

/-- A field whose default is another one on each side. -/
theorem shows_get_rehomed {d d' a : String} {key : String} {fs : Fields}
    (h : defaulted asString d (occurrences key fs) = some a) :
    Shows py asString (getD (parsedFields py fs) key (.str d'))
      (if (occurrences key fs).isEmpty then d' else a) := by
  cases hnamed : occurrences key fs with
  | nil =>
    rw [getD, lookup_parsedFields, hnamed]
    exact ⟨rfl, rfl⟩
  | cons j rest =>
    have hsame : defaulted asString d' (occurrences key fs) = some a := by
      rw [hnamed] at h ⊢
      cases rest <;> exact h
    exact shows_get (keeps_asString py) hsame (shows_str d')

/-- An integer that is read is one for `int`, too. -/
theorem getD_int {bits d n : Nat} {key : String} {fs : Fields}
    (h : defaulted (asUnsigned bits) d (occurrences key fs) = some n) :
    getD (parsedFields py fs) key (.int d) = .int n := by
  rw [getD, lookup_parsedFields]
  unfold defaulted at h
  split at h
  · rename_i hnone
    cases h
    rw [hnone]
    rfl
  · rename_i j hone
    rw [hone]
    exact parsed_of_asUnsigned py h
  · cases h

/-- Settings that are loaded from a file show what ma-core reads of it. -/
theorem mirrors_load {homes : App.Homes} {coreHomes : Core.Homes} {fs : Fields} {c : Config} {s : App.Settings F}
    (h : c.Reads coreHomes fun name => occurrences name fs)
    (hs : App.Settings.fromDict py homes (parsed py (.obj fs)) = some s) :
    Mirrors py s (rehomed homes fs c) := by
  rw [parsed_obj, App.Settings.fromDict] at hs
  simp only [Value.members, Option.bind_eq_bind, Option.bind_some, Option.bind_eq_some_iff, Option.pure_def,
    Option.some.injEq] at hs
  obtain ⟨poll, hpoll, sync, hsync, flush, hflush, cloud, hcloud, model, hmodel, rfl⟩ := hs
  have text {d a : String} {key : String} (hread : defaulted asString d (occurrences key fs) = some a) :
      Shows py asString (getD (parsedFields py fs) key (.str d)) a :=
    shows_get (keeps_asString py) hread (shows_str d)
  have hpollInt : getD (parsedFields py fs) "the_eyes_poll_interval_seconds" (.int 10) =
      .int c.theEyesPollIntervalSeconds := getD_int h.theEyesPollIntervalSeconds
  rw [hpollInt] at hpoll
  cases hpoll
  have hflushInt : getD (parsedFields py fs) "metadata_flush_interval" (.int 10) =
      .int c.metadataFlushInterval := getD_int h.metadataFlushInterval
  rw [hflushInt] at hflush
  cases hflush
  exact {
    redisUrl := text h.redisUrl
    ipcSocketPath := shows_get_rehomed h.ipcSocketPath
    storagePath := shows_get_rehomed h.storagePath
    controlCenterAddr := text h.controlCenterAddr
    controlCenterTlsCa := text h.controlCenterTlsCa
    controlCenterToken := text h.controlCenterToken
    controlCenterSecurity := shows_get (keeps_asCcSecurity py) h.controlCenterSecurity ⟨rfl, rfl⟩
    controlCenterMaxVersion := text h.controlCenterMaxVersion
    controlCenterAllowUnsupported :=
      toBool_of_shows (shows_get (keeps_asBool py) h.controlCenterAllowUnsupported (shows_bool false))
    theEyesAddr := text h.theEyesAddr
    theEyesPollIntervalSeconds :=
      shows_int py (lt_of_defaulted (by decide) h.theEyesPollIntervalSeconds)
    silenceTimeoutSeconds :=
      shows_get (keeps_asUnsigned py 64) h.silenceTimeoutSeconds (shows_int py (by decide))
    kafkaBroker := text h.kafkaBroker
    metadataFlushInterval := shows_int py (lt_of_defaulted (by decide) h.metadataFlushInterval)
    ipcPort := shows_get (keeps_asPort py) h.ipcPort ⟨rfl, rfl⟩
    ipcBindAddr := text h.ipcBindAddr
    storageMode := text h.storageMode
    cloud := member_getD (fun _ _ _ => cloud_mirrored) (.obj []) rfl h.cloud hcloud }

/-- What is saved is read as it is mirrored, with the defaults of what the settings lack. -/
theorem Mirrors.reads {s : App.Settings F} {c : Config} (h : Mirrors py s c) (homes : Core.Homes) :
    Config.read homes (toJson py (.dict s.asdict)) = some (forgotten c) := by
  have poll := h.theEyesPollIntervalSeconds.reads
  have flush := h.metadataFlushInterval.reads
  simp only [toJson] at poll flush ⊢
  rw [read_iff]
  constructor <;>
    simp [App.Settings.asdict, toFields, forgotten, defaulted, asBool, toJson, h.redisUrl.reads,
      h.ipcSocketPath.reads, h.storagePath.reads, h.controlCenterAddr.reads, h.controlCenterTlsCa.reads,
      h.controlCenterToken.reads, h.controlCenterSecurity.reads, h.controlCenterMaxVersion.reads,
      h.controlCenterAllowUnsupported, h.theEyesAddr.reads, poll, h.silenceTimeoutSeconds.reads,
      h.kafkaBroker.reads, flush, h.ipcPort.reads, h.ipcBindAddr.reads, h.storageMode.reads, h.cloud.reads]

end Whole

end MemoryArchive.Configuration
