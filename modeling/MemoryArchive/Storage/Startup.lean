import MemoryArchive.Data.Table
import MemoryArchive.Storage.Router

namespace MemoryArchive.Storage.Startup

open Registry

/-- What a backend is opened with. -/
inductive Client
  | localDir (storagePath : String)
  | s3 (bucket region : String)
  | azure (account container : String)
  | gcp (bucket : String)
  deriving DecidableEq

/-- What holds the objects of a backend. The name of an S3 bucket stands for it in
every region. -/
inductive Store
  | localDir (storagePath : String)
  | s3 (bucket : String)
  | azure (account container : String)
  | gcp (bucket : String)
  deriving DecidableEq

def Client.store : Client → Store
  | .localDir storagePath => .localDir storagePath
  | .s3 bucket _ => .s3 bucket
  | .azure account container => .azure account container
  | .gcp bucket => .gcp bucket

structure NamedBackendConfig where
  name : String
  provider : String
  bucket : String
  region : String
  account : String
  container : String

structure RoutingRuleConfig where
  matchTenantPrefix : String
  matchDefault : Bool
  backend : String

structure CloudConfig where
  provider : String
  awsBucket : String
  awsRegion : String
  azureAccount : String
  azureContainer : String
  gcpBucket : String
  backends : List NamedBackendConfig
  routingRules : List RoutingRuleConfig

structure Config where
  storageMode : String
  storagePath : String
  cloud : CloudConfig

/-- What a start of the program finds: the backends that can be initialised, and
the entry that its hash map of backends lists first. -/
structure Boot where
  opens : Client → Bool
  first : Nat

def provided (provider : String) (aws azure gcp : Client) : Option Client :=
  if provider = "aws" then some aws
  else if provider = "azure" then some azure
  else if provider = "gcp" then some gcp
  else none

def NamedBackendConfig.client (bc : NamedBackendConfig) : Option Client :=
  provided bc.provider (.s3 bc.bucket bc.region) (.azure bc.account bc.container) (.gcp bc.bucket)

def CloudConfig.client (c : CloudConfig) : Option Client :=
  provided c.provider (.s3 c.awsBucket c.awsRegion) (.azure c.azureAccount c.azureContainer)
    (.gcp c.gcpBucket)

def RoutingRuleConfig.rule (rc : RoutingRuleConfig) : Option RoutingRule :=
  if rc.matchDefault then some ⟨.default, rc.backend⟩
  else if rc.matchTenantPrefix ≠ "" then some ⟨.tenantPrefix rc.matchTenantPrefix, rc.backend⟩
  else none

/-- Without a default rule the first backend is the implicit default. -/
def CloudConfig.rules (c : CloudConfig) : List RoutingRule :=
  let rules := c.routingRules.filterMap RoutingRuleConfig.rule
  if c.routingRules.any (·.matchDefault) then rules
  else rules ++ (c.backends.head?.map fun bc => ⟨.default, bc.name⟩).toList

namespace Config

variable (c : Config)

def isCloudPrimary : Bool := c.storageMode = "cloud_primary"

/-- `build_single_backend_from_flat`: what cannot be opened is replaced by the
local directory. -/
def buildSingleBackendFromFlat (b : Boot) : String × Client :=
  let fallback := ("local", Client.localDir c.storagePath)
  if c.isCloudPrimary then
    match c.cloud.client with
    | some client => if b.opens client then (c.cloud.provider, client) else fallback
    | none => fallback
  else fallback

/-- The named backends. One that cannot be initialised ends the program. -/
def openNamed (b : Boot) : Option (List (String × Client)) :=
  if c.isCloudPrimary then
    c.cloud.backends.mapM fun bc => (bc.client.filter b.opens).map fun client => (bc.name, client)
  else some (c.cloud.backends.map fun bc => (bc.name, .localDir c.storagePath))

def backends (b : Boot) : Option (List (String × Client)) :=
  if c.cloud.backends = [] then some [c.buildSingleBackendFromFlat b] else c.openNamed b

def rules (b : Boot) : List RoutingRule :=
  if c.cloud.backends = [] then [⟨.default, (c.buildSingleBackendFromFlat b).1⟩] else c.cloud.rules

end Config

/-- `StorageRouter` with its backends. -/
structure Router where
  pool : Table String Client
  rules : List RoutingRule
  nonempty : pool.rows ≠ []
  first : Nat

/-- `build_router`. A later backend takes the place of one with the same name. -/
def Config.buildRouter (c : Config) (b : Boot) : Option Router :=
  match c.backends b with
  | none => none
  | some rows =>
      if h : (Table.ofRows rows).rows ≠ [] then some ⟨Table.ofRows rows, c.rules b, h, b.first⟩ else none

namespace Router

variable (r : Router)

/-- The loop of `StorageRouter::resolve`. -/
def pick (tenantId : String) : List RoutingRule → Option (String × Client)
  | [] => none
  | rule :: rules =>
      if rule.matcher.matches tenantId then
        match r.pool.get? rule.backendName with
        | some client => some (rule.backendName, client)
        | none => pick tenantId rules
      else pick tenantId rules

/-- The entry that the hash map lists first. -/
def fallback : String × Client :=
  r.pool.rows.get ⟨r.first % r.pool.rows.length, Nat.mod_lt _ (List.length_pos_of_ne_nil r.nonempty)⟩

def resolve (tenantId : String) : String × Client := (r.pick tenantId r.rules).getD r.fallback

def resolveForSession (record : SessionRecord) : Client :=
  if record.storageBackend ≠ "" then
    match r.pool.get? record.storageBackend with
    | some client => client
    | none => (r.resolve record.tenantId).2
  else (r.resolve record.tenantId).2

/-- The router as names. -/
def names : StorageRouter where
  pool := r.fallback.1 :: (r.pool.rows.map Prod.fst).erase r.fallback.1
  rules := r.rules
  nonempty := List.cons_ne_nil _ _

/-- A rule that decides where a tenant goes: the first one that matches and names
a backend of the pool. -/
def decides (tenantId : String) (rule : RoutingRule) : Bool :=
  rule.matcher.matches tenantId && (r.pool.get? rule.backendName).isSome

theorem pick_eq (tenantId : String) (rules : List RoutingRule) :
    r.pick tenantId rules = (rules.find? (r.decides tenantId)).bind fun rule =>
      (r.pool.get? rule.backendName).map fun client => (rule.backendName, client) := by
  induction rules with
  | nil => rfl
  | cons rule rules ih =>
    rw [pick, List.find?_cons]
    by_cases hmatch : rule.matcher.matches tenantId
    · rw [if_pos hmatch]
      cases hget : r.pool.get? rule.backendName with
      | some client =>
        have hdecides : r.decides tenantId rule = true := by rw [decides, hmatch, hget]; rfl
        rw [hdecides]
        dsimp only
        rw [Option.bind_some, hget]
        rfl
      | none =>
        have hskips : r.decides tenantId rule = false := by
          rw [decides, hget, Option.isSome_none, Bool.and_false]
        rw [hskips]
        exact ih
    · have hskips : r.decides tenantId rule = false := by
        rw [decides, Bool.eq_false_iff.mpr hmatch, Bool.false_and]
      rw [if_neg hmatch, hskips]
      exact ih

theorem get?_fallback : r.pool.get? r.fallback.1 = some r.fallback.2 :=
  (Table.mem_rows_iff r.pool _ _).mp (List.get_mem _ _)

/-- What is resolved is a backend of the pool, under its name. -/
theorem get?_resolve (tenantId : String) :
    r.pool.get? (r.resolve tenantId).1 = some (r.resolve tenantId).2 := by
  rw [resolve, pick_eq]
  cases r.rules.find? (r.decides tenantId) with
  | none => exact r.get?_fallback
  | some rule =>
    rw [Option.bind_some]
    cases hget : r.pool.get? rule.backendName with
    | none => exact r.get?_fallback
    | some client => exact hget

theorem mem_names (name : String) : name ∈ r.names.pool ↔ (r.pool.get? name).isSome := by
  have hrow : name ∈ r.pool.rows.map Prod.fst ↔ (r.pool.get? name).isSome := by
    rw [List.mem_map, Option.isSome_iff_exists]
    constructor
    · rintro ⟨row, hrow, rfl⟩
      exact ⟨row.2, (Table.mem_rows_iff r.pool row.1 row.2).mp hrow⟩
    · rintro ⟨client, hget⟩
      exact ⟨(name, client), (Table.mem_rows_iff r.pool name client).mpr hget, rfl⟩
  rw [names, List.mem_cons, ← hrow]
  by_cases hname : name = r.fallback.1
  · have hmem : r.fallback.1 ∈ r.pool.rows.map Prod.fst := List.mem_map_of_mem (List.get_mem _ _)
    exact iff_of_true (.inl hname) (hname ▸ hmem)
  · rw [List.mem_erase_of_ne hname]
    exact or_iff_right hname

/-- The names that are resolved are those of the router of names. -/
theorem resolve_names (tenantId : String) : (r.resolve tenantId).1 = r.names.resolve tenantId := by
  have hdecides : r.decides tenantId = fun rule =>
      rule.matcher.matches tenantId && r.names.pool.contains rule.backendName := by
    funext rule
    rw [decides]
    congr 1
    rw [Bool.eq_iff_iff, List.contains_iff_mem, mem_names]
  rw [resolve, pick_eq, StorageRouter.resolve, hdecides]
  have hrules : r.names.rules = r.rules := rfl
  rw [hrules]
  cases hfind : r.rules.find? fun rule =>
      rule.matcher.matches tenantId && r.names.pool.contains rule.backendName with
  | none => rfl
  | some rule =>
    have hmem : rule.backendName ∈ r.names.pool := by
      have hp := List.find?_some hfind
      rw [Bool.and_eq_true, List.contains_iff_mem] at hp
      exact hp.2
    obtain ⟨client, hget⟩ := Option.isSome_iff_exists.mp ((r.mem_names rule.backendName).mp hmem)
    rw [Option.bind_some, hget]
    rfl

/-- The backend of a session is the one that the router of names gives it. -/
theorem resolveForSession_names (record : SessionRecord) :
    r.pool.get? (r.names.resolveForSession record) = some (r.resolveForSession record) := by
  have hresolved : r.pool.get? (r.names.resolve record.tenantId) = some (r.resolve record.tenantId).2 := by
    rw [← resolve_names]
    exact r.get?_resolve record.tenantId
  have hmem := r.mem_names record.storageBackend
  rw [StorageRouter.resolveForSession, resolveForSession]
  by_cases hpin : record.storageBackend ≠ ""
  · rw [if_pos hpin]
    cases hget : r.pool.get? record.storageBackend with
    | none =>
      rw [hget] at hmem
      rwa [if_neg fun h => by cases hmem.mp h.2]
    | some client =>
      rw [hget] at hmem
      rw [if_pos ⟨hpin, hmem.mpr rfl⟩, hget]
  · rw [if_neg hpin, if_neg fun h => hpin h.1]
    exact hresolved

variable {r}

theorem resolveForSession_pinned {record : SessionRecord} {client : Client} (hpin : record.storageBackend ≠ "")
    (hget : r.pool.get? record.storageBackend = some client) : r.resolveForSession record = client := by
  rw [resolveForSession, if_pos hpin, hget]

end Router

section Build

variable {c : Config} {b : Boot} {r : Router}

/-- What a start builds is what its configuration lists. -/
theorem buildRouter_eq (h : c.buildRouter b = some r) :
    ∃ rows, c.backends b = some rows ∧ r.pool = Table.ofRows rows ∧ r.rules = c.rules b ∧
      r.first = b.first := by
  rw [Config.buildRouter] at h
  split at h
  · cases h
  · rename_i rows hrows
    split at h
    · cases h
      exact ⟨rows, hrows, rfl, rfl, rfl⟩
    · cases h

/-- A name leads to the last backend that the configuration lists under it. -/
theorem get?_buildRouter (h : c.buildRouter b = some r) (name : String) :
    r.pool.get? name = (c.backends b).bind fun rows => lastFor rows name := by
  obtain ⟨rows, hrows, hpool, -, -⟩ := buildRouter_eq h
  rw [hpool, hrows, Table.get?_ofRows_lastFor]
  rfl

theorem buildRouter_of_rows {rows : List (String × Client)} (hrows : c.backends b = some rows) (hne : rows ≠ []) :
    ∃ r, c.buildRouter b = some r := by
  have hpool : (Table.ofRows rows).rows ≠ [] := by
    intro hnil
    obtain ⟨row, hrow⟩ := List.exists_mem_of_ne_nil rows hne
    have hnone : lastFor rows row.1 = none := by
      rw [← Table.get?_ofRows_lastFor, Table.get?, hnil]
      rfl
    exact lastFor_eq_none.mp hnone (List.mem_map_of_mem hrow)
  rw [Config.buildRouter, hrows]
  dsimp only
  rw [dif_pos hpool]
  exact ⟨_, rfl⟩

/-- The named backends as a start opens them that initialises them all. -/
def Config.named (c : Config) : List (String × Client) :=
  if c.isCloudPrimary then
    c.cloud.backends.filterMap fun bc => bc.client.map fun client => (bc.name, client)
  else c.cloud.backends.map fun bc => (bc.name, .localDir c.storagePath)

theorem mapM_client {opens : Client → Bool} {bcs : List NamedBackendConfig} {rows : List (String × Client)}
    (h : bcs.mapM (fun bc => (bc.client.filter opens).map fun client => (bc.name, client)) = some rows) :
    rows = bcs.filterMap (fun bc => bc.client.map fun client => (bc.name, client)) ∧
      rows.map Prod.fst = bcs.map (·.name) ∧ ∀ bc ∈ bcs, bc.client ≠ none := by
  induction bcs generalizing rows with
  | nil =>
    rw [List.mapM_nil] at h
    cases h
    exact ⟨rfl, rfl, fun _ h => absurd h List.not_mem_nil⟩
  | cons bc bcs ih =>
    rw [List.mapM_cons] at h
    obtain ⟨row, hrow, h⟩ := Option.bind_eq_some_iff.mp h
    obtain ⟨rest, hrest, h⟩ := Option.bind_eq_some_iff.mp h
    obtain ⟨client, hclient, rfl⟩ := Option.map_eq_some_iff.mp hrow
    have hgiven : bc.client = some client := (Option.filter_eq_some_iff.mp hclient).1
    obtain ⟨hrows, hnames, hall⟩ := ih hrest
    cases h
    rw [List.filterMap_cons, hgiven, ← hrows, List.map_cons, List.map_cons, hnames]
    refine ⟨rfl, rfl, List.forall_mem_cons.mpr ⟨?_, hall⟩⟩
    rw [hgiven]
    exact Option.some_ne_none client

theorem openNamed_eq {rows : List (String × Client)} (h : c.openNamed b = some rows) :
    rows = c.named ∧ rows.map Prod.fst = c.cloud.backends.map (·.name) := by
  rw [Config.openNamed] at h
  rw [Config.named]
  split at h
  · rename_i hprimary
    obtain ⟨hrows, hnames, -⟩ := mapM_client h
    rw [if_pos hprimary]
    exact ⟨hrows, hnames⟩
  · rename_i hlocal
    cases h
    rw [if_neg hlocal, List.map_map]
    exact ⟨rfl, rfl⟩

/-- The named backends of a configuration that is not refused for a provider can
all be opened. -/
theorem openNamed_all (first : Nat)
    (h : c.isCloudPrimary = true → ∀ bc ∈ c.cloud.backends, bc.client ≠ none) :
    ∃ rows, c.openNamed ⟨fun _ => true, first⟩ = some rows := by
  rw [Config.openNamed]
  split
  · rename_i hprimary
    have hall := h hprimary
    generalize c.cloud.backends = bcs at hall ⊢
    induction bcs with
    | nil => exact ⟨[], rfl⟩
    | cons bc bcs ih =>
      obtain ⟨client, hclient⟩ := Option.ne_none_iff_exists'.mp (hall bc List.mem_cons_self)
      obtain ⟨rows, hrows⟩ := ih fun bc' hbc' => hall bc' (List.mem_cons_of_mem bc hbc')
      exact ⟨(bc.name, client) :: rows, by rw [List.mapM_cons, hclient, hrows]; rfl⟩
  · exact ⟨_, rfl⟩

end Build

namespace Config

variable (c : Config) (tenantId : String)

/-- The first rule that matches and names a backend of the pool decides; where
there is none, every process falls back to the same backend. -/
def Selects : Prop :=
  ∀ b r, c.buildRouter b = some r →
    match r.rules.find? (r.decides tenantId) with
    | some rule => (r.resolve tenantId).1 = rule.backendName
    | none => ∀ b' r', c.buildRouter b' = some r' → r'.resolve tenantId = r.resolve tenantId

/-- The configuration leaves no choice to the hash map. -/
def Settles : Prop :=
  c.cloud.backends = [] ∨
    (∃ rule ∈ c.cloud.rules, rule.matcher.matches tenantId = true ∧
      rule.backendName ∈ c.cloud.backends.map (·.name)) ∨
    (∀ bc ∈ c.cloud.backends, ∀ bc' ∈ c.cloud.backends, bc.name = bc'.name) ∨
    (c.isCloudPrimary = true ∧ ∃ bc ∈ c.cloud.backends, bc.client = none)

end Config

section Resolve

variable {c : Config} {b : Boot} {r : Router} {tenantId : String}

theorem resolve_decided {rule : RoutingRule} (h : r.rules.find? (r.decides tenantId) = some rule) :
    (r.resolve tenantId).1 = rule.backendName := by
  have hp := List.find?_some h
  rw [Router.decides, Bool.and_eq_true] at hp
  obtain ⟨client, hget⟩ := Option.isSome_iff_exists.mp hp.2
  rw [Router.resolve, Router.pick_eq, h, Option.bind_some, hget]
  rfl

theorem resolve_undecided (h : r.rules.find? (r.decides tenantId) = none) :
    r.resolve tenantId = r.fallback := by
  rw [Router.resolve, Router.pick_eq, h]
  rfl

/-- The one backend of a flat configuration is its default. -/
theorem decided_flat (hflat : c.cloud.backends = []) (h : c.buildRouter b = some r) :
    r.rules.find? (r.decides tenantId) = some ⟨.default, (c.buildSingleBackendFromFlat b).1⟩ := by
  obtain ⟨rows, hrows, hpool, hrules, -⟩ := buildRouter_eq h
  rw [Config.backends, if_pos hflat] at hrows
  cases hrows
  have hget : r.pool.get? (c.buildSingleBackendFromFlat b).1 = some (c.buildSingleBackendFromFlat b).2 := by
    rw [hpool, Table.get?_ofRows_lastFor]
    simp [lastFor]
  rw [hrules, Config.rules, if_pos hflat, List.find?_cons, Router.decides, hget]
  rfl

theorem isSome_get?_named (hnamed : c.cloud.backends ≠ []) (h : c.buildRouter b = some r) (name : String) :
    (r.pool.get? name).isSome = true ↔ name ∈ c.cloud.backends.map (·.name) := by
  obtain ⟨rows, hrows, hpool, -, -⟩ := buildRouter_eq h
  rw [Config.backends, if_neg hnamed] at hrows
  rw [hpool, Table.get?_ofRows_lastFor, ← (openNamed_eq hrows).2, Option.isSome_iff_ne_none, Ne,
    lastFor_eq_none, not_not]

theorem undecided_iff (hnamed : c.cloud.backends ≠ []) (h : c.buildRouter b = some r) :
    r.rules.find? (r.decides tenantId) = none ↔
      ¬ ∃ rule ∈ c.cloud.rules, rule.matcher.matches tenantId = true ∧
        rule.backendName ∈ c.cloud.backends.map (·.name) := by
  obtain ⟨-, -, -, hrules, -⟩ := buildRouter_eq h
  rw [Config.rules, if_neg hnamed] at hrules
  rw [hrules, List.find?_eq_none, not_exists]
  refine forall_congr' fun rule => ?_
  rw [Router.decides, Bool.and_eq_true, isSome_get?_named hnamed h, not_and, not_and, not_and]

theorem pool_named (hnamed : c.cloud.backends ≠ []) (h : c.buildRouter b = some r) :
    r.pool = Table.ofRows c.named := by
  obtain ⟨rows, hrows, hpool, -, -⟩ := buildRouter_eq h
  rw [Config.backends, if_neg hnamed] at hrows
  rw [hpool, (openNamed_eq hrows).1]

theorem names_pool (hnamed : c.cloud.backends ≠ []) (h : c.buildRouter b = some r) (row : String × Client)
    (hrow : row ∈ r.pool.rows) : row.1 ∈ c.cloud.backends.map (·.name) := by
  rw [← isSome_get?_named hnamed h, (Table.mem_rows_iff r.pool row.1 row.2).mp hrow]
  rfl

/-- Two names make two entries, and a hash map may list either first. -/
theorem fallbacks_differ (hnamed : c.cloud.backends ≠ []) {opens : Client → Bool}
    (hbuilt : ∀ first, ∃ r, c.buildRouter ⟨opens, first⟩ = some r) {x y : String}
    (hx : x ∈ c.cloud.backends.map (·.name)) (hy : y ∈ c.cloud.backends.map (·.name)) (hne : x ≠ y) :
    ∃ first r first' r', c.buildRouter ⟨opens, first⟩ = some r ∧
      c.buildRouter ⟨opens, first'⟩ = some r' ∧ r.fallback ≠ r'.fallback := by
  have hlisted : ∀ name ∈ c.cloud.backends.map (·.name),
      ∃ first r, c.buildRouter ⟨opens, first⟩ = some r ∧ r.fallback.1 = name := by
    intro name hname
    obtain ⟨r, hr⟩ := hbuilt 0
    obtain ⟨client, hget⟩ := Option.isSome_iff_exists.mp ((isSome_get?_named hnamed hr name).mpr hname)
    obtain ⟨k, hk⟩ := List.get_of_mem ((Table.mem_rows_iff r.pool name client).mpr hget)
    obtain ⟨r', hr'⟩ := hbuilt k
    obtain ⟨-, -, -, -, hfirst⟩ := buildRouter_eq hr'
    have hpool : r'.pool.rows = r.pool.rows := by rw [pool_named hnamed hr', pool_named hnamed hr]
    refine ⟨k, r', hr', ?_⟩
    have hmod : r'.first % r.pool.rows.length = k := by
      rw [hfirst]
      exact Nat.mod_eq_of_lt k.2
    have hrow : r'.fallback = (name, client) := by
      rw [Router.fallback, ← hk]
      simp only [List.get_eq_getElem, hpool, hmod]
    rw [hrow]
  obtain ⟨first, r, hr, rfl⟩ := hlisted x hx
  obtain ⟨first', r', hr', rfl⟩ := hlisted y hy
  exact ⟨first, r, first', r', hr, hr', fun h => hne (congrArg Prod.fst h)⟩

/-- The backend of a tenant does not depend on the process exactly where a rule
decides or there is only one name to fall back to. -/
theorem selects_iff_settles (c : Config) (tenantId : String) : c.Selects tenantId ↔ c.Settles tenantId := by
  constructor
  · intro h
    by_contra hnot
    rw [Config.Settles, not_or, not_or, not_or] at hnot
    obtain ⟨hnamed, hundecided, hnames, hproviders⟩ := hnot
    push Not at hnames
    obtain ⟨bc, hbc, bc', hbc', hne⟩ := hnames
    have hbuilt : ∀ first, ∃ r, c.buildRouter ⟨fun _ => true, first⟩ = some r := by
      intro first
      obtain ⟨rows, hrows⟩ :=
        openNamed_all first fun hprimary bc hbc hnone => hproviders ⟨hprimary, bc, hbc, hnone⟩
      have hbackends : c.backends ⟨fun _ => true, first⟩ = some rows := by
        rwa [Config.backends, if_neg hnamed]
      refine buildRouter_of_rows hbackends ?_
      rintro rfl
      have hmapped := (openNamed_eq hrows).2
      exact hnamed (List.map_eq_nil_iff.mp hmapped.symm)
    obtain ⟨first, r, first', r', hr, hr', hdiffer⟩ := fallbacks_differ hnamed hbuilt
      (List.mem_map_of_mem hbc) (List.mem_map_of_mem hbc') hne
    have hnone := (undecided_iff hnamed hr).mpr hundecided
    have hnone' := (undecided_iff hnamed hr').mpr hundecided
    have hsame := h _ r hr
    rw [hnone] at hsame
    have heq := hsame _ r' hr'
    rw [resolve_undecided hnone, resolve_undecided hnone'] at heq
    exact hdiffer heq.symm
  · intro h b r hr
    cases hfind : r.rules.find? (r.decides tenantId) with
    | some rule => exact resolve_decided hfind
    | none =>
      intro b' r' hr'
      by_cases hnamed : c.cloud.backends = []
      · rw [decided_flat hnamed hr] at hfind
        cases hfind
      have hundecided := (undecided_iff hnamed hr).mp hfind
      obtain hflat | hdecided | hone | ⟨hprimary, bc, hbc, hnone⟩ := h
      · exact absurd hflat hnamed
      · exact absurd hdecided hundecided
      · rw [resolve_undecided hfind, resolve_undecided ((undecided_iff hnamed hr').mpr hundecided)]
        obtain ⟨bc, hbc, hname⟩ := List.mem_map.mp (names_pool hnamed hr r.fallback (List.get_mem _ _))
        obtain ⟨bc', hbc', hname'⟩ := List.mem_map.mp (names_pool hnamed hr' r'.fallback (List.get_mem _ _))
        have hsame : r'.fallback.1 = r.fallback.1 := by rw [← hname, ← hname', hone bc' hbc' bc hbc]
        have hget := r'.get?_fallback
        rw [hsame, pool_named hnamed hr', ← pool_named hnamed hr, r.get?_fallback] at hget
        exact Prod.ext hsame (Option.some.inj hget).symm
      · obtain ⟨rows, hrows, -⟩ := buildRouter_eq hr
        rw [Config.backends, if_neg hnamed, Config.openNamed, if_pos hprimary] at hrows
        obtain ⟨-, -, hall⟩ := mapM_client hrows
        exact absurd hnone (hall bc hbc)

end Resolve

end MemoryArchive.Storage.Startup
