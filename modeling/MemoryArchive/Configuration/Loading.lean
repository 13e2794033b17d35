import MemoryArchive.Configuration.Mirror

namespace MemoryArchive.Configuration

open Json (Fields)
open Python Core
open Reasoning (occurrences)

variable {F : Type} (py : Runtime F)

section Conditions

/-- The two sections that are passed on as keyword arguments have no other keys, and
all the sections are objects. -/
structure CloudLoads (d : Dict F) : Prop where
  aws : ∃ m, App.kwargs ["bucket", "region"] (getD d "aws" (.dict [])) = some m
  azure : ∃ m, (getD d "azure" (.dict [])).members = some m
  gcp : ∃ m, App.kwargs ["bucket", "project"] (getD d "gcp" (.dict [])) = some m
  backends : ∃ items, (getD d "backends" (.list [])).iterate = some items ∧ ∀ b ∈ items, ∃ m, b.members = some m
  routingRules :
    ∃ items, (getD d "routing_rules" (.list [])).iterate = some items ∧ ∀ r ∈ items, ∃ m, r.members = some m

structure ProviderLoads (d : Dict F) : Prop where
  priority : ∃ i, (getD d "priority" (.int 1)).toInt py = some i
  inputRate :
    ∃ x, (getD d "cost_per_million_input_tokens" (.float (py.ofLiteral App.zero))).toFloat py = some x
  outputRate :
    ∃ x, (getD d "cost_per_million_output_tokens" (.float (py.ofLiteral App.zero))).toFloat py = some x

/-- The numbers of the model section that `int` has to take, with their defaults. -/
def modelIntegers : List (String × Int) :=
  [("context_window_steps", 5), ("requests_per_minute", 60), ("token_budget_per_hour", 1000000),
    ("circuit_breaker_threshold", 5), ("circuit_breaker_reset_seconds", 60), ("max_retries", 3),
    ("request_timeout_seconds", 30)]

/-- The model section, of which ma-core reads nothing, has numbers where `int` and
`float` want them and providers that are objects. -/
structure ModelLoads (d : Dict F) : Prop where
  integers : ∀ f ∈ modelIntegers, ∃ i, (getD d f.1 (.int f.2)).toInt py = some i
  inputRate :
    ∃ x, App.rate py d "cost_per_million_input_tokens" "cost_per_1k_input_tokens" App.three = some x
  outputRate :
    ∃ x, App.rate py d "cost_per_million_output_tokens" "cost_per_1k_output_tokens" App.fifteen = some x
  providers : ∃ items, (getD d "providers" (.list [])).iterate = some items ∧
    ∀ p ∈ items, ∃ m, p.members = some m ∧ ProviderLoads py m

/-- Nothing in the file makes `Settings.load` raise. -/
structure Loadable (fs : Fields) : Prop where
  digits : allNumbers convertible (.obj fs) = true
  cloud : ∃ d, (getD (parsedFields py fs) "cloud" (.dict [])).members = some d ∧ CloudLoads d
  model : ∃ d, (getD (parsedFields py fs) "model" (.dict [])).members = some d ∧ ModelLoads py d
  syncRetryMax : ∃ i, (getD (parsedFields py fs) "sync_retry_max" (.int 5)).toInt py = some i

end Conditions

section Loading

theorem exists_mapM {α β : Type} {f : α → Option β} {as : List α} :
    (∃ bs, as.mapM f = some bs) ↔ ∀ a ∈ as, ∃ b, f a = some b := by
  induction as with
  | nil => exact iff_of_true ⟨[], rfl⟩ fun _ h => nomatch h
  | cons a as ih =>
    rw [List.forall_mem_cons, ← ih]
    simp only [List.mapM_cons, Option.bind_eq_bind, Option.bind_eq_some_iff, Option.pure_def, Option.some.injEq]
    constructor
    · rintro ⟨_, b, hb, bs, hbs, -⟩
      exact ⟨⟨b, hb⟩, bs, hbs⟩
    · rintro ⟨⟨b, hb⟩, bs, hbs⟩
      exact ⟨b :: bs, b, hb, bs, hbs, rfl⟩

/-- A record is taken from every dictionary, so from a list of them. -/
theorem exists_records {σ : Type} {fromDict : Value F → Option σ} {Q : Dict F → Prop}
    (hrecord : ∀ v, (∃ s, fromDict v = some s) ↔ ∃ d, v.members = some d ∧ Q d) {v : Value F} :
    (∃ items ss, v.iterate = some items ∧ items.mapM fromDict = some ss) ↔
      ∃ items, v.iterate = some items ∧ ∀ w ∈ items, ∃ d, w.members = some d ∧ Q d := by
  refine exists_congr fun items => ?_
  rw [exists_and_left]
  refine and_congr_right fun _ => ?_
  rw [exists_mapM]
  exact forall₂_congr fun w _ => hrecord w

theorem namedBackend_loads (v : Value F) :
    (∃ s, App.NamedBackendConfig.fromDict v = some s) ↔ ∃ d, v.members = some d ∧ True := by
  simp [App.NamedBackendConfig.fromDict, Option.bind_eq_some_iff]

theorem routingRule_loads (v : Value F) :
    (∃ s, App.RoutingRuleConfig.fromDict py v = some s) ↔ ∃ d, v.members = some d ∧ True := by
  simp [App.RoutingRuleConfig.fromDict, Option.bind_eq_some_iff]

theorem provider_loads (v : Value F) :
    (∃ s, App.ProviderConfig.fromDict py v = some s) ↔ ∃ d, v.members = some d ∧ ProviderLoads py d := by
  simp only [App.ProviderConfig.fromDict, Option.bind_eq_bind, Option.bind_eq_some_iff, Option.pure_def,
    Option.some.injEq]
  constructor
  · rintro ⟨_, d, hd, priority, hpriority, input, hinput, output, houtput, -⟩
    exact ⟨d, hd, ⟨priority, hpriority⟩, ⟨input, hinput⟩, ⟨output, houtput⟩⟩
  · rintro ⟨d, hd, ⟨priority, hpriority⟩, ⟨input, hinput⟩, ⟨output, houtput⟩⟩
    exact ⟨_, d, hd, priority, hpriority, input, hinput, output, houtput, rfl⟩

theorem cloud_loads (v : Value F) :
    (∃ s, App.CloudConfig.fromDict py v = some s) ↔ ∃ d, v.members = some d ∧ CloudLoads d := by
  simp only [App.CloudConfig.fromDict, App.AwsConfig.fromDict, App.AzureConfig.fromDict, App.GcpConfig.fromDict,
    Option.bind_eq_bind, Option.bind_eq_some_iff, Option.pure_def, Option.some.injEq]
  constructor
  · rintro ⟨_, d, hd, _, ⟨aws, haws, -⟩, _, ⟨azure, hazure, -⟩, _, ⟨gcp, hgcp, -⟩, items, hitems, backends,
      hbackends, entries, hentries, rules, hrules, -⟩
    obtain ⟨_, hitems', hall⟩ := (exists_records namedBackend_loads).mp ⟨items, backends, hitems, hbackends⟩
    obtain ⟨_, hentries', hall'⟩ := (exists_records (routingRule_loads py)).mp ⟨entries, rules, hentries, hrules⟩
    refine ⟨d, hd, ⟨aws, haws⟩, ⟨azure, hazure⟩, ⟨gcp, hgcp⟩, ⟨_, hitems', fun b hb => ?_⟩,
      ⟨_, hentries', fun r hr => ?_⟩⟩
    · exact (hall b hb).imp fun _ h => h.1
    · exact (hall' r hr).imp fun _ h => h.1
  · rintro ⟨d, hd, ⟨aws, haws⟩, ⟨azure, hazure⟩, ⟨gcp, hgcp⟩, ⟨items, hitems, hall⟩, ⟨entries, hentries, hall'⟩⟩
    obtain ⟨_, backends, hitems', hbackends⟩ := (exists_records namedBackend_loads).mpr
      ⟨items, hitems, fun b hb => (hall b hb).imp fun _ h => ⟨h, trivial⟩⟩
    obtain ⟨_, rules, hentries', hrules⟩ := (exists_records (routingRule_loads py)).mpr
      ⟨entries, hentries, fun r hr => (hall' r hr).imp fun _ h => ⟨h, trivial⟩⟩
    exact ⟨_, d, hd, _, ⟨aws, haws, rfl⟩, _, ⟨azure, hazure, rfl⟩, _, ⟨gcp, hgcp, rfl⟩, _, hitems', backends,
      hbackends, _, hentries', rules, hrules, rfl⟩

theorem model_loads (v : Value F) :
    (∃ s, App.ModelConfig.fromDict py v = some s) ↔ ∃ d, v.members = some d ∧ ModelLoads py d := by
  simp only [App.ModelConfig.fromDict, Option.bind_eq_bind, Option.bind_eq_some_iff, Option.pure_def,
    Option.some.injEq]
  constructor
  · rintro ⟨_, d, hd, steps, hsteps, requests, hrequests, budget, hbudget, threshold, hthreshold, reset, hreset,
      retries, hretries, input, hinput, output, houtput, timeout, htimeout, items, hitems, providers,
      hproviders, -⟩
    refine ⟨d, hd, ?_, ⟨input, hinput⟩, ⟨output, houtput⟩,
      (exists_records (provider_loads py)).mp ⟨items, providers, hitems, hproviders⟩⟩
    simp only [modelIntegers, List.forall_mem_cons, List.not_mem_nil, false_imp_iff, implies_true, and_true]
    exact ⟨⟨steps, hsteps⟩, ⟨requests, hrequests⟩, ⟨budget, hbudget⟩, ⟨threshold, hthreshold⟩, ⟨reset, hreset⟩,
      ⟨retries, hretries⟩, ⟨timeout, htimeout⟩⟩
  · rintro ⟨d, hd, hintegers, ⟨input, hinput⟩, ⟨output, houtput⟩, hproviders⟩
    simp only [modelIntegers, List.forall_mem_cons, List.not_mem_nil, false_imp_iff, implies_true,
      and_true] at hintegers
    obtain ⟨⟨steps, hsteps⟩, ⟨requests, hrequests⟩, ⟨budget, hbudget⟩, ⟨threshold, hthreshold⟩, ⟨reset, hreset⟩,
      ⟨retries, hretries⟩, ⟨timeout, htimeout⟩⟩ := hintegers
    obtain ⟨items, providers, hitems, hproviders⟩ := (exists_records (provider_loads py)).mpr hproviders
    exact ⟨_, d, hd, steps, hsteps, requests, hrequests, budget, hbudget, threshold, hthreshold, reset, hreset,
      retries, hretries, input, hinput, output, houtput, timeout, htimeout, items, hitems, providers, hproviders,
      rfl⟩

/-- `load` raises exactly where something in the file makes it. -/
theorem load_iff (homes : App.Homes) {coreHomes : Core.Homes} {fs : Fields} {c : Config}
    (h : c.Reads coreHomes fun name => occurrences name fs) :
    (∃ s, App.Settings.load py homes (.obj fs) = some s) ↔ Loadable py fs := by
  have hpoll : (getD (parsedFields py fs) "the_eyes_poll_interval_seconds" (.int 10)).toInt py =
      some (c.theEyesPollIntervalSeconds : Int) :=
    congrArg (Value.toInt py) (getD_int h.theEyesPollIntervalSeconds)
  have hflush : (getD (parsedFields py fs) "metadata_flush_interval" (.int 10)).toInt py =
      some (c.metadataFlushInterval : Int) :=
    congrArg (Value.toInt py) (getD_int h.metadataFlushInterval)
  simp only [App.Settings.load, Option.bind_eq_some_iff]
  constructor
  · rintro ⟨s, v, hv, hs⟩
    rw [loads] at hv
    split at hv
    · rename_i hdigits
      cases hv
      rw [parsed_obj] at hs
      simp only [App.Settings.fromDict, Value.members, Option.bind_eq_bind, Option.bind_some,
        Option.bind_eq_some_iff, Option.pure_def] at hs
      obtain ⟨_, -, sync, hsync, _, -, cloud, hcloud, model, hmodel, -⟩ := hs
      exact ⟨hdigits, (cloud_loads py _).mp ⟨cloud, hcloud⟩, (model_loads py _).mp ⟨model, hmodel⟩, sync, hsync⟩
    · cases hv
  · rintro ⟨hdigits, hcloud, hmodel, sync, hsync⟩
    obtain ⟨cloud, hcloud⟩ := (cloud_loads py _).mpr hcloud
    obtain ⟨model, hmodel⟩ := (model_loads py _).mpr hmodel
    have hs : ∃ s, App.Settings.fromDict py homes (parsed py (.obj fs)) = some s := by
      rw [parsed_obj, App.Settings.fromDict]
      simp only [Value.members, Option.bind_eq_bind, Option.bind_some, hpoll, hflush, hsync, hcloud, hmodel,
        Option.pure_def]
      exact ⟨_, rfl⟩
    obtain ⟨s, hs⟩ := hs
    exact ⟨s, parsed py (.obj fs), if_pos hdigits, hs⟩

end Loading

end MemoryArchive.Configuration
