import MemoryArchive.Python.Values
import MemoryArchive.Text.Lines

namespace MemoryArchive.Configuration.App

open Json (Number)
open Python

variable {F : Type}

/-- What the defaults take from the home and the temporary directory. -/
structure Homes where
  ipcSocketPath : String
  storagePath : String
  tempSessionDir : String

structure AwsConfig (F : Type) where
  bucket : Value F
  region : Value F

structure AzureConfig (F : Type) where
  container : Value F
  account : Value F
  storageType : Value F

structure GcpConfig (F : Type) where
  bucket : Value F
  project : Value F

structure NamedBackendConfig (F : Type) where
  name : Value F
  provider : Value F
  bucket : Value F
  region : Value F
  account : Value F
  container : Value F
  project : Value F

structure RoutingRuleConfig (F : Type) where
  matchTenantPrefix : Value F
  matchDefault : Bool
  backend : Value F

structure CloudConfig (F : Type) where
  provider : Value F
  aws : AwsConfig F
  azure : AzureConfig F
  gcp : GcpConfig F
  backends : List (NamedBackendConfig F)
  routingRules : List (RoutingRuleConfig F)

structure ProviderConfig (F : Type) where
  name : Value F
  endpoint : Value F
  apiKeyRef : Value F
  priority : Int
  costPerMillionInputTokens : F
  costPerMillionOutputTokens : F

structure ModelConfig (F : Type) where
  provider : Value F
  endpoint : Value F
  apiKeyRef : Value F
  contextWindowSteps : Int
  requestsPerMinute : Int
  tokenBudgetPerHour : Int
  circuitBreakerThreshold : Int
  circuitBreakerResetSeconds : Int
  maxRetries : Int
  costPerMillionInputTokens : F
  costPerMillionOutputTokens : F
  requestTimeoutSeconds : Int
  routingPolicy : Value F
  providers : List (ProviderConfig F)

/-- A field that is taken over as it is may hold any value. -/
structure Settings (F : Type) where
  redisUrl : Value F
  ipcSocketPath : Value F
  storagePath : Value F
  storageMode : Value F
  controlCenterAddr : Value F
  controlCenterToken : Value F
  controlCenterTlsCa : Value F
  controlCenterSecurity : Value F
  controlCenterMaxVersion : Value F
  controlCenterAllowUnsupported : Bool
  theEyesAddr : Value F
  theEyesPollIntervalSeconds : Int
  silenceTimeoutSeconds : Value F
  kafkaBroker : Value F
  syncRetryMax : Int
  maCoreAddr : Value F
  ipcPort : Value F
  ipcBindAddr : Value F
  ipcServerFingerprint : Value F
  annotatorId : Value F
  annotatorKey : Value F
  tempSessionDir : Value F
  metadataFlushInterval : Int
  tenantId : Value F
  cloud : CloudConfig F
  model : ModelConfig F

section Load

/-- The call with the members as keyword arguments, which knows no others. -/
def kwargs (names : List String) : Value F → Option (Dict F)
  | .dict d => if d.all (fun m => names.contains m.1) then some d else none
  | _ => none

def AwsConfig.fromDict (v : Value F) : Option (AwsConfig F) := do
  let d ← kwargs ["bucket", "region"] v
  return { bucket := getD d "bucket" (.str ""), region := getD d "region" (.str "") }

def AzureConfig.fromDict (v : Value F) : Option (AzureConfig F) := do
  let d ← v.members
  return {
    container := getD d "container" (.str "")
    account := getD d "account" (.str "")
    storageType := getD d "storage_type" (.str "auto") }

def GcpConfig.fromDict (v : Value F) : Option (GcpConfig F) := do
  let d ← kwargs ["bucket", "project"] v
  return { bucket := getD d "bucket" (.str ""), project := getD d "project" (.str "") }

def NamedBackendConfig.fromDict (v : Value F) : Option (NamedBackendConfig F) := do
  let b ← v.members
  return {
    name := getD b "name" (.str "")
    provider := getD b "provider" (.str "")
    bucket := getD b "bucket" (.str "")
    region := getD b "region" (.str "")
    account := getD b "account" (.str "")
    container := getD b "container" (.str "")
    project := getD b "project" (.str "") }

variable (py : Runtime F)

def RoutingRuleConfig.fromDict (v : Value F) : Option (RoutingRuleConfig F) := do
  let r ← v.members
  return {
    matchTenantPrefix := getD r "match_tenant_prefix" (.str "")
    matchDefault := (getD r "match_default" (.bool false)).toBool py
    backend := getD r "backend" (.str "") }

def CloudConfig.fromDict (v : Value F) : Option (CloudConfig F) := do
  let cloudData ← v.members
  return {
    provider := getD cloudData "provider" (.str "")
    aws := ← AwsConfig.fromDict (getD cloudData "aws" (.dict []))
    azure := ← AzureConfig.fromDict (getD cloudData "azure" (.dict []))
    gcp := ← GcpConfig.fromDict (getD cloudData "gcp" (.dict []))
    backends := ← (← (getD cloudData "backends" (.list [])).iterate).mapM NamedBackendConfig.fromDict
    routingRules :=
      ← (← (getD cloudData "routing_rules" (.list [])).iterate).mapM (RoutingRuleConfig.fromDict py) }

/-- The defaults of the rates. -/
def three : Number := ⟨['3', '.', '0'], by decide⟩

def fifteen : Number := ⟨['1', '5', '.', '0'], by decide⟩

def zero : Number := ⟨['0', '.', '0'], by decide⟩

/-- A rate that may be given per thousand tokens under its old name. -/
def rate (modelData : Dict F) (million thousand : String) (default : Number) : Option F :=
  match modelData.lookup million, modelData.lookup thousand with
  | some v, _ => v.toFloat py
  | none, some v => (v.toFloat py).map py.thousandfold
  | none, none => some (py.ofLiteral default)

def ProviderConfig.fromDict (v : Value F) : Option (ProviderConfig F) := do
  let p ← v.members
  return {
    name := getD p "name" (.str "")
    endpoint := getD p "endpoint" (.str "")
    apiKeyRef := getD p "api_key_ref" (.str "")
    priority := ← (getD p "priority" (.int 1)).toInt py
    costPerMillionInputTokens :=
      ← (getD p "cost_per_million_input_tokens" (.float (py.ofLiteral zero))).toFloat py
    costPerMillionOutputTokens :=
      ← (getD p "cost_per_million_output_tokens" (.float (py.ofLiteral zero))).toFloat py }

def ModelConfig.fromDict (v : Value F) : Option (ModelConfig F) := do
  let modelData ← v.members
  return {
    provider := getD modelData "provider" (.str "")
    endpoint := getD modelData "endpoint" (.str "")
    apiKeyRef := getD modelData "api_key_ref" (.str "")
    contextWindowSteps := ← (getD modelData "context_window_steps" (.int 5)).toInt py
    requestsPerMinute := ← (getD modelData "requests_per_minute" (.int 60)).toInt py
    tokenBudgetPerHour := ← (getD modelData "token_budget_per_hour" (.int 1000000)).toInt py
    circuitBreakerThreshold := ← (getD modelData "circuit_breaker_threshold" (.int 5)).toInt py
    circuitBreakerResetSeconds := ← (getD modelData "circuit_breaker_reset_seconds" (.int 60)).toInt py
    maxRetries := ← (getD modelData "max_retries" (.int 3)).toInt py
    costPerMillionInputTokens :=
      ← rate py modelData "cost_per_million_input_tokens" "cost_per_1k_input_tokens" three
    costPerMillionOutputTokens :=
      ← rate py modelData "cost_per_million_output_tokens" "cost_per_1k_output_tokens" fifteen
    requestTimeoutSeconds := ← (getD modelData "request_timeout_seconds" (.int 30)).toInt py
    routingPolicy := getD modelData "routing_policy" (.str "pinned")
    providers := ← (← (getD modelData "providers" (.list [])).iterate).mapM (ProviderConfig.fromDict py) }

/-- `_from_dict`. -/
def Settings.fromDict (homes : Homes) (v : Value F) : Option (Settings F) := do
  let data ← v.members
  return {
    redisUrl := getD data "redis_url" (.str "redis://127.0.0.1:6379")
    ipcSocketPath := getD data "ipc_socket_path" (.str homes.ipcSocketPath)
    storagePath := getD data "storage_path" (.str homes.storagePath)
    storageMode := getD data "storage_mode" (.str "local")
    controlCenterAddr := getD data "control_center_addr" (.str "")
    controlCenterToken := getD data "control_center_token" (.str "")
    controlCenterTlsCa := getD data "control_center_tls_ca" (.str "")
    controlCenterSecurity := getD data "control_center_security" (.str "auto")
    controlCenterMaxVersion := getD data "control_center_max_version" (.str "")
    controlCenterAllowUnsupported := (getD data "control_center_allow_unsupported" (.bool false)).toBool py
    theEyesAddr := getD data "the_eyes_addr" (.str "")
    theEyesPollIntervalSeconds := ← (getD data "the_eyes_poll_interval_seconds" (.int 10)).toInt py
    silenceTimeoutSeconds := getD data "silence_timeout_seconds" (.int 30)
    kafkaBroker := getD data "kafka_broker" (.str "")
    syncRetryMax := ← (getD data "sync_retry_max" (.int 5)).toInt py
    maCoreAddr := getD data "ma_core_addr" (.str "")
    ipcPort := getD data "ipc_port" .null
    ipcBindAddr := getD data "ipc_bind_addr" (.str "0.0.0.0")
    ipcServerFingerprint := getD data "ipc_server_fingerprint" (.str "")
    annotatorId := getD data "annotator_id" (.str "")
    annotatorKey := getD data "annotator_key" (.str "")
    tempSessionDir := getD data "temp_session_dir" (.str homes.tempSessionDir)
    metadataFlushInterval := ← (getD data "metadata_flush_interval" (.int 10)).toInt py
    tenantId := getD data "tenant_id" (.str "")
    cloud := ← CloudConfig.fromDict py (getD data "cloud" (.dict []))
    model := ← ModelConfig.fromDict py (getD data "model" (.dict [])) }

/-- `Settings.load` of a file that holds a JSON value; nothing where it raises. -/
def Settings.load (homes : Homes) (j : Json) : Option (Settings F) :=
  (loads py j).bind (Settings.fromDict py homes)

end Load

section Save

def AwsConfig.asdict (c : AwsConfig F) : Value F := .dict [("bucket", c.bucket), ("region", c.region)]

def AzureConfig.asdict (c : AzureConfig F) : Value F :=
  .dict [("container", c.container), ("account", c.account), ("storage_type", c.storageType)]

def GcpConfig.asdict (c : GcpConfig F) : Value F := .dict [("bucket", c.bucket), ("project", c.project)]

def NamedBackendConfig.asdict (c : NamedBackendConfig F) : Value F :=
  .dict [("name", c.name), ("provider", c.provider), ("bucket", c.bucket), ("region", c.region),
    ("account", c.account), ("container", c.container), ("project", c.project)]

def RoutingRuleConfig.asdict (c : RoutingRuleConfig F) : Value F :=
  .dict [("match_tenant_prefix", c.matchTenantPrefix), ("match_default", .bool c.matchDefault),
    ("backend", c.backend)]

def CloudConfig.asdict (c : CloudConfig F) : Value F :=
  .dict [("provider", c.provider), ("aws", c.aws.asdict), ("azure", c.azure.asdict), ("gcp", c.gcp.asdict),
    ("backends", .list (c.backends.map (·.asdict))),
    ("routing_rules", .list (c.routingRules.map (·.asdict)))]

def ProviderConfig.asdict (c : ProviderConfig F) : Value F :=
  .dict [("name", c.name), ("endpoint", c.endpoint), ("api_key_ref", c.apiKeyRef), ("priority", .int c.priority),
    ("cost_per_million_input_tokens", .float c.costPerMillionInputTokens),
    ("cost_per_million_output_tokens", .float c.costPerMillionOutputTokens)]

def ModelConfig.asdict (c : ModelConfig F) : Value F :=
  .dict [("provider", c.provider), ("endpoint", c.endpoint), ("api_key_ref", c.apiKeyRef),
    ("context_window_steps", .int c.contextWindowSteps), ("requests_per_minute", .int c.requestsPerMinute),
    ("token_budget_per_hour", .int c.tokenBudgetPerHour),
    ("circuit_breaker_threshold", .int c.circuitBreakerThreshold),
    ("circuit_breaker_reset_seconds", .int c.circuitBreakerResetSeconds), ("max_retries", .int c.maxRetries),
    ("cost_per_million_input_tokens", .float c.costPerMillionInputTokens),
    ("cost_per_million_output_tokens", .float c.costPerMillionOutputTokens),
    ("request_timeout_seconds", .int c.requestTimeoutSeconds), ("routing_policy", c.routingPolicy),
    ("providers", .list (c.providers.map (·.asdict)))]

def Settings.asdict (s : Settings F) : Dict F :=
  [("redis_url", s.redisUrl), ("ipc_socket_path", s.ipcSocketPath), ("storage_path", s.storagePath),
    ("storage_mode", s.storageMode), ("control_center_addr", s.controlCenterAddr),
    ("control_center_token", s.controlCenterToken), ("control_center_tls_ca", s.controlCenterTlsCa),
    ("control_center_security", s.controlCenterSecurity),
    ("control_center_max_version", s.controlCenterMaxVersion),
    ("control_center_allow_unsupported", .bool s.controlCenterAllowUnsupported),
    ("the_eyes_addr", s.theEyesAddr), ("the_eyes_poll_interval_seconds", .int s.theEyesPollIntervalSeconds),
    ("silence_timeout_seconds", s.silenceTimeoutSeconds), ("kafka_broker", s.kafkaBroker),
    ("sync_retry_max", .int s.syncRetryMax), ("ma_core_addr", s.maCoreAddr), ("ipc_port", s.ipcPort),
    ("ipc_bind_addr", s.ipcBindAddr), ("ipc_server_fingerprint", s.ipcServerFingerprint),
    ("annotator_id", s.annotatorId), ("annotator_key", s.annotatorKey), ("temp_session_dir", s.tempSessionDir),
    ("metadata_flush_interval", .int s.metadataFlushInterval), ("tenant_id", s.tenantId),
    ("cloud", s.cloud.asdict), ("model", s.model.asdict)]

/-- `save`: the JSON in the file, if what is written there is JSON. -/
def Settings.save (py : Runtime F) (s : Settings F) : Option Json := dumps py (.dict s.asdict)

end Save

/-- The options of the command, none for one that is not given. -/
structure Options where
  storagePath : Option String
  storageMode : Option String
  controlCenterAddr : Option String
  controlCenterToken : Option String
  controlCenterTlsCa : Option String
  controlCenterSecurity : Option String
  controlCenterMaxVersion : Option String
  controlCenterAllowUnsupported : Option Bool
  theEyesAddr : Option String
  theEyesPollInterval : Option Int
  cloud : Option String
  awsBucket : Option String
  awsRegion : Option String
  azureContainer : Option String
  azureAccount : Option String
  azureStorageType : Option String
  gcpBucket : Option String
  gcpProject : Option String
  maCoreAddr : Option String
  ipcPort : Option Int
  ipcBindAddr : Option String
  ipcServerFingerprint : Option String
  annotatorId : Option String
  annotatorKey : Option String
  tenantId : Option String
  kafkaBroker : Option String
  redisUrl : Option String
  silenceTimeout : Option Int
  metadataFlushInterval : Option Int
  tempSessionDir : Option String

/-- What the command asks of the file system: the directory a storage path resolves to,
if it is there or can be made and is writable, and the path of a file. The decimal
digits are those of a regular expression. -/
structure System where
  storageDirectory : String → Option String
  file : String → Option String
  isDecimal : Char → Bool

/-- An option that is taken as absent when it is empty. -/
def given (option : Option String) : Option String := option.filter (· ≠ "")

/-- A check that a given option has to pass; it yields the value that is set. -/
def checked (check : String → Option String) (option : Option String) : Option (Option String) :=
  match given option with
  | none => some none
  | some text => (check text).map some

def oneOf (choices : List String) (text : String) : Option String :=
  if choices.contains text then some text else none

def stripped (text : String) : String := String.ofList (Lines.pyStrip text.toList)

def lowered (text : String) : String := String.ofList (text.toList.map Char.toLower)

/-- Three numbers with a point between them. -/
def isVersion (isDecimal : Char → Bool) (text : List Char) : Bool :=
  let parts := text.splitOn '.'
  parts.length = 3 && parts.all fun part => !part.isEmpty && part.all isDecimal

def versionOf (isDecimal : Char → Bool) (text : String) : Option String :=
  let candidate := (stripped text).toList.dropWhile (· = 'v')
  if isVersion isDecimal candidate then some (String.ofList candidate) else none

/-- The command sets what has been given, and saves if that is anything; where a check
fails it ends before. -/
def Options.check (sys : System) (o : Options) : Option Options := do
  return { o with
    storageMode := ← checked (oneOf ["local", "cloud_primary"]) o.storageMode
    storagePath := ← checked sys.storageDirectory o.storagePath
    controlCenterAddr := given o.controlCenterAddr
    controlCenterToken := given o.controlCenterToken
    controlCenterTlsCa := ← checked sys.file o.controlCenterTlsCa
    controlCenterSecurity :=
      ← checked (fun text => oneOf ["auto", "strict", "legacy"] (lowered (stripped text)))
        o.controlCenterSecurity
    controlCenterMaxVersion := ← checked (versionOf sys.isDecimal) o.controlCenterMaxVersion
    theEyesAddr := given o.theEyesAddr
    theEyesPollInterval := o.theEyesPollInterval.filter (· ≠ 0)
    cloud := ← checked (oneOf ["aws", "azure", "gcp"]) o.cloud
    awsBucket := given o.awsBucket
    awsRegion := given o.awsRegion
    azureContainer := given o.azureContainer
    azureAccount := given o.azureAccount
    azureStorageType := ← checked (oneOf ["auto", "blob", "adls", "files"]) o.azureStorageType
    gcpBucket := given o.gcpBucket
    gcpProject := given o.gcpProject
    kafkaBroker := given o.kafkaBroker
    redisUrl := given o.redisUrl }

/-- Whether anything is set. -/
def Options.changes (o : Options) : Bool :=
  [o.storagePath, o.storageMode, o.controlCenterAddr, o.controlCenterToken, o.controlCenterTlsCa,
    o.controlCenterSecurity, o.controlCenterMaxVersion, o.theEyesAddr, o.cloud, o.awsBucket, o.awsRegion,
    o.azureContainer, o.azureAccount, o.azureStorageType, o.gcpBucket, o.gcpProject, o.maCoreAddr,
    o.ipcBindAddr, o.ipcServerFingerprint, o.annotatorId, o.annotatorKey, o.tenantId, o.kafkaBroker,
    o.redisUrl, o.tempSessionDir].any Option.isSome ||
  [o.theEyesPollInterval, o.ipcPort, o.silenceTimeout, o.metadataFlushInterval].any Option.isSome ||
  o.controlCenterAllowUnsupported.isSome

/-- A text that is set in place of a value. -/
def setText (option : Option String) (v : Value F) : Value F := option.elim v .str

def setInt (option : Option Int) (v : Value F) : Value F := option.elim v .int

/-- The assignments of the command. -/
def Options.edit (o : Options) (s : Settings F) : Settings F where
  redisUrl := setText o.redisUrl s.redisUrl
  ipcSocketPath := s.ipcSocketPath
  storagePath := setText o.storagePath s.storagePath
  storageMode := setText o.storageMode s.storageMode
  controlCenterAddr := setText o.controlCenterAddr s.controlCenterAddr
  controlCenterToken := setText o.controlCenterToken s.controlCenterToken
  controlCenterTlsCa := setText o.controlCenterTlsCa s.controlCenterTlsCa
  controlCenterSecurity := setText o.controlCenterSecurity s.controlCenterSecurity
  controlCenterMaxVersion := setText o.controlCenterMaxVersion s.controlCenterMaxVersion
  controlCenterAllowUnsupported := o.controlCenterAllowUnsupported.getD s.controlCenterAllowUnsupported
  theEyesAddr := setText o.theEyesAddr s.theEyesAddr
  theEyesPollIntervalSeconds := o.theEyesPollInterval.getD s.theEyesPollIntervalSeconds
  silenceTimeoutSeconds := setInt o.silenceTimeout s.silenceTimeoutSeconds
  kafkaBroker := setText o.kafkaBroker s.kafkaBroker
  syncRetryMax := s.syncRetryMax
  maCoreAddr := setText o.maCoreAddr s.maCoreAddr
  ipcPort := setInt o.ipcPort s.ipcPort
  ipcBindAddr := setText o.ipcBindAddr s.ipcBindAddr
  ipcServerFingerprint := setText o.ipcServerFingerprint s.ipcServerFingerprint
  annotatorId := setText o.annotatorId s.annotatorId
  annotatorKey := setText o.annotatorKey s.annotatorKey
  tempSessionDir := setText o.tempSessionDir s.tempSessionDir
  metadataFlushInterval := o.metadataFlushInterval.getD s.metadataFlushInterval
  tenantId := setText o.tenantId s.tenantId
  cloud := { s.cloud with
    provider := setText o.cloud s.cloud.provider
    aws := ⟨setText o.awsBucket s.cloud.aws.bucket, setText o.awsRegion s.cloud.aws.region⟩
    azure := ⟨setText o.azureContainer s.cloud.azure.container, setText o.azureAccount s.cloud.azure.account,
      setText o.azureStorageType s.cloud.azure.storageType⟩
    gcp := ⟨setText o.gcpBucket s.cloud.gcp.bucket, setText o.gcpProject s.cloud.gcp.project⟩ }
  model := s.model

/-- How the command ends: `load` raises, an option does not pass its check, nothing is
to be set, or the settings are saved. -/
inductive Outcome
  | raised
  | exited
  | shown
  | saved (file : Option Json)

def config (py : Runtime F) (sys : System) (homes : Homes) (o : Options) (file : Json) : Outcome :=
  match Settings.load py homes file with
  | none => .raised
  | some settings =>
      match o.check sys with
      | none => .exited
      | some o => if o.changes then .saved ((o.edit settings).save py) else .shown

end MemoryArchive.Configuration.App
