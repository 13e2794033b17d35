import Mathlib.Algebra.Group.Int.Defs
import Mathlib.Algebra.Group.Nat.Defs
import MemoryArchive.Reasoning.Entry

namespace MemoryArchive.Configuration.Core

open Json (Fields)
open Reasoning (occurrences required asString asBool)

/-- The home directory's part of the defaults. -/
structure Homes where
  ipcSocketPath : String
  storagePath : String

inductive CcSecurity
  | auto | strict | legacy
  deriving DecidableEq

structure ObservabilityConfig where
  metricsPort : Nat
  metricsBindAddr : String
  metricsToken : String
  logLevel : String
  logOutput : String
  logFilePath : String
  logForwardUrl : String
  alertWebhookUrl : String
  memoryWarnMb : Nat
  kafkaLagWarn : Int
  uploadQueueWarn : Nat
  ipcPushQueueWarn : Nat
  deriving DecidableEq

structure AwsConfig where
  bucket : String
  region : String
  deriving DecidableEq

structure AzureConfig where
  container : String
  account : String
  deriving DecidableEq

structure GcpConfig where
  bucket : String
  project : String
  deriving DecidableEq

structure NamedBackendConfig where
  name : String
  provider : String
  bucket : String
  region : String
  account : String
  container : String
  project : String
  deriving DecidableEq

structure RoutingRuleConfig where
  matchTenantPrefix : String
  matchDefault : Bool
  backend : String
  deriving DecidableEq

structure CloudConfig where
  provider : String
  aws : AwsConfig
  azure : AzureConfig
  gcp : GcpConfig
  backends : List NamedBackendConfig
  routingRules : List RoutingRuleConfig
  deriving DecidableEq

structure Config where
  redisUrl : String
  ipcSocketPath : String
  storagePath : String
  controlCenterAddr : String
  controlCenterTlsCa : String
  controlCenterToken : String
  controlCenterSecurity : CcSecurity
  controlCenterMaxVersion : String
  controlCenterAllowUnsupported : Bool
  theEyesAddr : String
  theEyesPollIntervalSeconds : Nat
  silenceTimeoutSeconds : Nat
  pressFetchDelayMs : Nat
  typeFetchDelayMs : Nat
  beforeFetchOffsetMs : Nat
  afterFetchDelayMs : Nat
  kafkaBroker : String
  kafkaChannelCapacity : Nat
  metadataFlushInterval : Nat
  ipcPort : Option Nat
  ipcBindAddr : String
  annotatorMgmtPort : Option Nat
  storageMode : String
  cloud : CloudConfig
  observability : ObservabilityConfig
  deriving DecidableEq

def AwsConfig.default : AwsConfig := ⟨"", ""⟩

def AzureConfig.default : AzureConfig := ⟨"", ""⟩

def GcpConfig.default : GcpConfig := ⟨"", ""⟩

def CloudConfig.default : CloudConfig := ⟨"", .default, .default, .default, [], []⟩

def ObservabilityConfig.default : ObservabilityConfig where
  metricsPort := 9091
  metricsBindAddr := "127.0.0.1"
  metricsToken := ""
  logLevel := "info"
  logOutput := "stdout"
  logFilePath := ""
  logForwardUrl := ""
  alertWebhookUrl := ""
  memoryWarnMb := 4096
  kafkaLagWarn := 10000
  uploadQueueWarn := 1000
  ipcPushQueueWarn := 500

/-- An unsigned integer of so many bits. -/
def asUnsigned (bits : Nat) : Json → Option Nat
  | .num n => n.toNat?.bind fun v => if v < 2 ^ bits then some v else none
  | _ => none

/-- A signed one. Minus zero is read as a float. -/
def asI64 : Json → Option Int
  | .num n =>
      if n.literal = ['-', '0'] then none
      else n.toInt?.bind fun v => if -2 ^ 63 ≤ v ∧ v < 2 ^ 63 then some v else none
  | _ => none

def asPort : Json → Option (Option Nat)
  | .null => some none
  | j => (asUnsigned 16 j).map some

def CcSecurity.ofName (name : String) : Option CcSecurity :=
  if name = "auto" then some .auto
  else if name = "strict" then some .strict
  else if name = "legacy" then some .legacy
  else none

/-- A variant without fields is its name, or an object with that as its one key. -/
def asCcSecurity : Json → Option CcSecurity
  | .str name => CcSecurity.ofName name
  | .obj [(name, .null)] => CcSecurity.ofName name
  | _ => none

def asList {α : Type} (read : Json → Option α) : Json → Option (List α)
  | .arr items => items.mapM read
  | _ => none

/-- A field with `#[serde(default)]`. -/
def defaulted {α : Type} (read : Json → Option α) (default : α) : List Json → Option α
  | [] => some default
  | [j] => read j
  | _ => none

/-- The values that a derived deserialiser has for each field: of an object, by name, or
of an array that is not too long, by position. -/
def fieldsOf (names : List String) : Json → Option (String → List Json)
  | .obj fs => some fun name => occurrences name fs
  | .arr items =>
      if items.length ≤ names.length then some fun name => ((names.zip items).lookup name).toList else none
  | _ => none

def AwsConfig.read (j : Json) : Option AwsConfig := do
  let field ← fieldsOf ["bucket", "region"] j
  return {
    bucket := ← defaulted asString "" (field "bucket")
    region := ← defaulted asString "" (field "region") }

def AzureConfig.read (j : Json) : Option AzureConfig := do
  let field ← fieldsOf ["container", "account"] j
  return {
    container := ← defaulted asString "" (field "container")
    account := ← defaulted asString "" (field "account") }

def GcpConfig.read (j : Json) : Option GcpConfig := do
  let field ← fieldsOf ["bucket", "project"] j
  return {
    bucket := ← defaulted asString "" (field "bucket")
    project := ← defaulted asString "" (field "project") }

def NamedBackendConfig.read (j : Json) : Option NamedBackendConfig := do
  let field ← fieldsOf ["name", "provider", "bucket", "region", "account", "container", "project"] j
  return {
    name := ← required asString (field "name")
    provider := ← required asString (field "provider")
    bucket := ← defaulted asString "" (field "bucket")
    region := ← defaulted asString "" (field "region")
    account := ← defaulted asString "" (field "account")
    container := ← defaulted asString "" (field "container")
    project := ← defaulted asString "" (field "project") }

def RoutingRuleConfig.read (j : Json) : Option RoutingRuleConfig := do
  let field ← fieldsOf ["match_tenant_prefix", "match_default", "backend"] j
  return {
    matchTenantPrefix := ← defaulted asString "" (field "match_tenant_prefix")
    matchDefault := ← defaulted asBool false (field "match_default")
    backend := ← required asString (field "backend") }

def CloudConfig.read (j : Json) : Option CloudConfig := do
  let field ← fieldsOf ["provider", "aws", "azure", "gcp", "backends", "routing_rules"] j
  return {
    provider := ← defaulted asString "" (field "provider")
    aws := ← defaulted AwsConfig.read .default (field "aws")
    azure := ← defaulted AzureConfig.read .default (field "azure")
    gcp := ← defaulted GcpConfig.read .default (field "gcp")
    backends := ← defaulted (asList NamedBackendConfig.read) [] (field "backends")
    routingRules := ← defaulted (asList RoutingRuleConfig.read) [] (field "routing_rules") }

def ObservabilityConfig.read (j : Json) : Option ObservabilityConfig := do
  let field ← fieldsOf ["metrics_port", "metrics_bind_addr", "metrics_token", "log_level", "log_output",
    "log_file_path", "log_forward_url", "alert_webhook_url", "memory_warn_mb", "kafka_lag_warn",
    "upload_queue_warn", "ipc_push_queue_warn"] j
  return {
    metricsPort := ← defaulted (asUnsigned 16) 9091 (field "metrics_port")
    metricsBindAddr := ← defaulted asString "127.0.0.1" (field "metrics_bind_addr")
    metricsToken := ← defaulted asString "" (field "metrics_token")
    logLevel := ← defaulted asString "info" (field "log_level")
    logOutput := ← defaulted asString "stdout" (field "log_output")
    logFilePath := ← defaulted asString "" (field "log_file_path")
    logForwardUrl := ← defaulted asString "" (field "log_forward_url")
    alertWebhookUrl := ← defaulted asString "" (field "alert_webhook_url")
    memoryWarnMb := ← defaulted (asUnsigned 64) 4096 (field "memory_warn_mb")
    kafkaLagWarn := ← defaulted asI64 10000 (field "kafka_lag_warn")
    uploadQueueWarn := ← defaulted (asUnsigned 64) 1000 (field "upload_queue_warn")
    ipcPushQueueWarn := ← defaulted (asUnsigned 64) 500 (field "ipc_push_queue_warn") }

def Config.read (homes : Homes) (j : Json) : Option Config := do
  let field ← fieldsOf ["redis_url", "ipc_socket_path", "storage_path", "control_center_addr",
    "control_center_tls_ca", "control_center_token", "control_center_security", "control_center_max_version",
    "control_center_allow_unsupported", "the_eyes_addr", "the_eyes_poll_interval_seconds",
    "silence_timeout_seconds", "press_fetch_delay_ms", "type_fetch_delay_ms", "before_fetch_offset_ms",
    "after_fetch_delay_ms", "kafka_broker", "kafka_channel_capacity", "metadata_flush_interval", "ipc_port",
    "ipc_bind_addr", "annotator_mgmt_port", "storage_mode", "cloud", "observability"] j
  return {
    redisUrl := ← defaulted asString "redis://127.0.0.1:6379" (field "redis_url")
    ipcSocketPath := ← defaulted asString homes.ipcSocketPath (field "ipc_socket_path")
    storagePath := ← defaulted asString homes.storagePath (field "storage_path")
    controlCenterAddr := ← defaulted asString "" (field "control_center_addr")
    controlCenterTlsCa := ← defaulted asString "" (field "control_center_tls_ca")
    controlCenterToken := ← defaulted asString "" (field "control_center_token")
    controlCenterSecurity := ← defaulted asCcSecurity .auto (field "control_center_security")
    controlCenterMaxVersion := ← defaulted asString "" (field "control_center_max_version")
    controlCenterAllowUnsupported := ← defaulted asBool false (field "control_center_allow_unsupported")
    theEyesAddr := ← defaulted asString "" (field "the_eyes_addr")
    theEyesPollIntervalSeconds := ← defaulted (asUnsigned 64) 10 (field "the_eyes_poll_interval_seconds")
    silenceTimeoutSeconds := ← defaulted (asUnsigned 64) 30 (field "silence_timeout_seconds")
    pressFetchDelayMs := ← defaulted (asUnsigned 64) 1000 (field "press_fetch_delay_ms")
    typeFetchDelayMs := ← defaulted (asUnsigned 64) 1000 (field "type_fetch_delay_ms")
    beforeFetchOffsetMs := ← defaulted (asUnsigned 64) 1000 (field "before_fetch_offset_ms")
    afterFetchDelayMs := ← defaulted (asUnsigned 64) 1000 (field "after_fetch_delay_ms")
    kafkaBroker := ← defaulted asString "" (field "kafka_broker")
    kafkaChannelCapacity := ← defaulted (asUnsigned 64) 1000 (field "kafka_channel_capacity")
    metadataFlushInterval := ← defaulted (asUnsigned 32) 10 (field "metadata_flush_interval")
    ipcPort := ← defaulted asPort none (field "ipc_port")
    ipcBindAddr := ← defaulted asString "0.0.0.0" (field "ipc_bind_addr")
    annotatorMgmtPort := ← defaulted asPort none (field "annotator_mgmt_port")
    storageMode := ← defaulted asString "local" (field "storage_mode")
    cloud := ← defaulted CloudConfig.read .default (field "cloud")
    observability := ← defaulted ObservabilityConfig.read .default (field "observability") }

section Reads

/-- The reading of each field of a configuration. -/
structure Config.Reads (homes : Homes) (field : String → List Json) (c : Config) : Prop where
  redisUrl : defaulted asString "redis://127.0.0.1:6379" (field "redis_url") = some c.redisUrl
  ipcSocketPath : defaulted asString homes.ipcSocketPath (field "ipc_socket_path") = some c.ipcSocketPath
  storagePath : defaulted asString homes.storagePath (field "storage_path") = some c.storagePath
  controlCenterAddr : defaulted asString "" (field "control_center_addr") = some c.controlCenterAddr
  controlCenterTlsCa : defaulted asString "" (field "control_center_tls_ca") = some c.controlCenterTlsCa
  controlCenterToken : defaulted asString "" (field "control_center_token") = some c.controlCenterToken
  controlCenterSecurity :
    defaulted asCcSecurity .auto (field "control_center_security") = some c.controlCenterSecurity
  controlCenterMaxVersion :
    defaulted asString "" (field "control_center_max_version") = some c.controlCenterMaxVersion
  controlCenterAllowUnsupported :
    defaulted asBool false (field "control_center_allow_unsupported") = some c.controlCenterAllowUnsupported
  theEyesAddr : defaulted asString "" (field "the_eyes_addr") = some c.theEyesAddr
  theEyesPollIntervalSeconds :
    defaulted (asUnsigned 64) 10 (field "the_eyes_poll_interval_seconds") = some c.theEyesPollIntervalSeconds
  silenceTimeoutSeconds :
    defaulted (asUnsigned 64) 30 (field "silence_timeout_seconds") = some c.silenceTimeoutSeconds
  pressFetchDelayMs : defaulted (asUnsigned 64) 1000 (field "press_fetch_delay_ms") = some c.pressFetchDelayMs
  typeFetchDelayMs : defaulted (asUnsigned 64) 1000 (field "type_fetch_delay_ms") = some c.typeFetchDelayMs
  beforeFetchOffsetMs :
    defaulted (asUnsigned 64) 1000 (field "before_fetch_offset_ms") = some c.beforeFetchOffsetMs
  afterFetchDelayMs : defaulted (asUnsigned 64) 1000 (field "after_fetch_delay_ms") = some c.afterFetchDelayMs
  kafkaBroker : defaulted asString "" (field "kafka_broker") = some c.kafkaBroker
  kafkaChannelCapacity :
    defaulted (asUnsigned 64) 1000 (field "kafka_channel_capacity") = some c.kafkaChannelCapacity
  metadataFlushInterval :
    defaulted (asUnsigned 32) 10 (field "metadata_flush_interval") = some c.metadataFlushInterval
  ipcPort : defaulted asPort none (field "ipc_port") = some c.ipcPort
  ipcBindAddr : defaulted asString "0.0.0.0" (field "ipc_bind_addr") = some c.ipcBindAddr
  annotatorMgmtPort : defaulted asPort none (field "annotator_mgmt_port") = some c.annotatorMgmtPort
  storageMode : defaulted asString "local" (field "storage_mode") = some c.storageMode
  cloud : defaulted CloudConfig.read .default (field "cloud") = some c.cloud
  observability : defaulted ObservabilityConfig.read .default (field "observability") = some c.observability

/-- A field that is read is bound, and the rest is read after it. -/
theorem bind_some {α β : Type} {o : Option α} {a : α} {f : α → Option β} {b : β} (h : o = some a)
    (hrest : f a = some b) : o.bind f = some b :=
  Option.bind_eq_some_iff.mpr ⟨a, h, hrest⟩

theorem defaulted_one {α : Type} {read : Json → Option α} {d a : α} {j : Json} {js : List Json} (hone : js = [j])
    (h : read j = some a) : defaulted read d js = some a := by
  rw [hone]
  exact h

theorem required_one {α : Type} {read : Json → Option α} {a : α} {j : Json} {js : List Json} (hone : js = [j])
    (h : read j = some a) : required read js = some a := by
  rw [hone]
  exact h

theorem read_iff (homes : Homes) (fs : Fields) (c : Config) :
    Config.read homes (.obj fs) = some c ↔ c.Reads homes fun name => occurrences name fs := by
  constructor
  · intro h
    rw [Config.read, fieldsOf] at h
    obtain ⟨_, hfields, h⟩ := Option.bind_eq_some_iff.mp h
    cases hfields
    obtain ⟨_, h₁, h⟩ := Option.bind_eq_some_iff.mp h
    obtain ⟨_, h₂, h⟩ := Option.bind_eq_some_iff.mp h
    obtain ⟨_, h₃, h⟩ := Option.bind_eq_some_iff.mp h
    obtain ⟨_, h₄, h⟩ := Option.bind_eq_some_iff.mp h
    obtain ⟨_, h₅, h⟩ := Option.bind_eq_some_iff.mp h
    obtain ⟨_, h₆, h⟩ := Option.bind_eq_some_iff.mp h
    obtain ⟨_, h₇, h⟩ := Option.bind_eq_some_iff.mp h
    obtain ⟨_, h₈, h⟩ := Option.bind_eq_some_iff.mp h
    obtain ⟨_, h₉, h⟩ := Option.bind_eq_some_iff.mp h
    obtain ⟨_, h₁₀, h⟩ := Option.bind_eq_some_iff.mp h
    obtain ⟨_, h₁₁, h⟩ := Option.bind_eq_some_iff.mp h
    obtain ⟨_, h₁₂, h⟩ := Option.bind_eq_some_iff.mp h
    obtain ⟨_, h₁₃, h⟩ := Option.bind_eq_some_iff.mp h
    obtain ⟨_, h₁₄, h⟩ := Option.bind_eq_some_iff.mp h
    obtain ⟨_, h₁₅, h⟩ := Option.bind_eq_some_iff.mp h
    obtain ⟨_, h₁₆, h⟩ := Option.bind_eq_some_iff.mp h
    obtain ⟨_, h₁₇, h⟩ := Option.bind_eq_some_iff.mp h
    obtain ⟨_, h₁₈, h⟩ := Option.bind_eq_some_iff.mp h
    obtain ⟨_, h₁₉, h⟩ := Option.bind_eq_some_iff.mp h
    obtain ⟨_, h₂₀, h⟩ := Option.bind_eq_some_iff.mp h
    obtain ⟨_, h₂₁, h⟩ := Option.bind_eq_some_iff.mp h
    obtain ⟨_, h₂₂, h⟩ := Option.bind_eq_some_iff.mp h
    obtain ⟨_, h₂₃, h⟩ := Option.bind_eq_some_iff.mp h
    obtain ⟨_, h₂₄, h⟩ := Option.bind_eq_some_iff.mp h
    obtain ⟨_, h₂₅, h⟩ := Option.bind_eq_some_iff.mp h
    obtain rfl := Option.some.inj h
    exact ⟨h₁, h₂, h₃, h₄, h₅, h₆, h₇, h₈, h₉, h₁₀, h₁₁, h₁₂, h₁₃,
      h₁₄, h₁₅, h₁₆, h₁₇, h₁₈, h₁₉, h₂₀, h₂₁, h₂₂, h₂₃, h₂₄, h₂₅⟩
  · intro h
    rw [Config.read, fieldsOf]
    refine bind_some rfl ?_
    refine bind_some h.redisUrl ?_
    refine bind_some h.ipcSocketPath ?_
    refine bind_some h.storagePath ?_
    refine bind_some h.controlCenterAddr ?_
    refine bind_some h.controlCenterTlsCa ?_
    refine bind_some h.controlCenterToken ?_
    refine bind_some h.controlCenterSecurity ?_
    refine bind_some h.controlCenterMaxVersion ?_
    refine bind_some h.controlCenterAllowUnsupported ?_
    refine bind_some h.theEyesAddr ?_
    refine bind_some h.theEyesPollIntervalSeconds ?_
    refine bind_some h.silenceTimeoutSeconds ?_
    refine bind_some h.pressFetchDelayMs ?_
    refine bind_some h.typeFetchDelayMs ?_
    refine bind_some h.beforeFetchOffsetMs ?_
    refine bind_some h.afterFetchDelayMs ?_
    refine bind_some h.kafkaBroker ?_
    refine bind_some h.kafkaChannelCapacity ?_
    refine bind_some h.metadataFlushInterval ?_
    refine bind_some h.ipcPort ?_
    refine bind_some h.ipcBindAddr ?_
    refine bind_some h.annotatorMgmtPort ?_
    refine bind_some h.storageMode ?_
    refine bind_some h.cloud ?_
    refine bind_some h.observability ?_
    rfl

end Reads

end MemoryArchive.Configuration.Core
