import Mathlib.Data.List.Infix
import MemoryArchive.Ipc.Messages
import MemoryArchive.Text.Lines

namespace MemoryArchive.Ipc

open Registry

def invalidConfig (message : String) : Except OutboundMessage Unit :=
  .error (.error "INVALID_SESSION_CONFIG" message)

/-- The first message whose condition holds is the error. -/
def firstError : List (Bool × String) → Except OutboundMessage Unit
  | [] => .ok ()
  | (bad, message) :: rest => if bad then invalidConfig message else firstError rest

/-- A text that is empty or has more bytes than its field may hold. -/
def outside (text : String) (bytes : Nat) : Bool := text = "" || bytes < text.utf8ByteSize

def isHttps (url : String) : Bool := "https://".toList.isPrefixOf url.toList

def isValidHttpUrl (url : String) : Bool := "http://".toList.isPrefixOf url.toList || isHttps url

/-- The fallback fields are all set or all absent. -/
def SessionConfig.fallbackMixed (cfg : SessionConfig) : Bool :=
  let fields := [cfg.fallbackModelProvider, cfg.fallbackModelEndpoint, cfg.fallbackApiKeyRef]
  let count := (fields.filter (· ≠ "")).length
  0 < count && count < 3

def SessionConfig.check (cfg : SessionConfig) : Except OutboundMessage Unit := do
  firstError
    [(outside cfg.modelProvider 64, "model_provider must be 1–64 characters."),
      (outside cfg.modelApiKeyRef 512, "model_api_key_ref must be 1–512 characters."),
      (outside cfg.modelEndpoint 2048, "model_endpoint must be 1–2048 characters."),
      (!isHttps cfg.modelEndpoint, "model_endpoint must use HTTPS. Plaintext HTTP is not " ++
        "permitted for VLM API calls."),
      (cfg.fallbackMixed, "fallback_model_provider, fallback_model_endpoint, and " ++
        "fallback_api_key_ref must all be set together or all absent.")]
  if cfg.fallbackModelProvider = "" then .ok ()
  else
    firstError
      [(64 < cfg.fallbackModelProvider.utf8ByteSize,
          "fallback_model_provider must not exceed 64 characters."),
        (2048 < cfg.fallbackModelEndpoint.utf8ByteSize,
          "fallback_model_endpoint must not exceed 2048 characters."),
        (!isHttps cfg.fallbackModelEndpoint, "fallback_model_endpoint must use HTTPS."),
        (512 < cfg.fallbackApiKeyRef.utf8ByteSize,
          "fallback_api_key_ref must not exceed 512 characters.")]

def isAsciiAlphanumeric (c : Char) : Bool :=
  ('0' ≤ c && c ≤ '9') || ('A' ≤ c && c ≤ 'Z') || ('a' ≤ c && c ≤ 'z')

/-- A tenant id without the blanks around it. It becomes part of storage paths. -/
def cleanTenantId : Option String → Except OutboundMessage String
  | none => .ok ""
  | some tenantId =>
      let t := Lines.trim tenantId.toList
      if t = [] then
        .error (.error "INVALID_TENANT_ID" "tenant_id must not be empty if provided.")
      else if 128 < (String.ofList t).utf8ByteSize then
        .error (.error "INVALID_TENANT_ID" "tenant_id must not exceed 128 characters.")
      else if t.all fun c => isAsciiAlphanumeric c || c = '-' || c = '_' then .ok (String.ofList t)
      else
        .error (.error "INVALID_TENANT_ID" ("tenant_id must contain only alphanumeric characters, " ++
          "hyphens, and underscores."))

def badMemoryName (name : String) : Bool :=
  let cs := name.toList
  cs = [] || cs.contains '/' || cs.contains '\\' || decide (['.', '.'] <:+: cs) || cs.head? = some '.'

def checkServerAddr (debugText : String → String) (field addr : String) :
    Except OutboundMessage Unit :=
  if addr = "" ∨ isValidHttpUrl addr then .ok ()
  else
    .error (.error "INVALID_SERVER_ADDR"
      s!"{field} must be a valid HTTP/HTTPS URL, got: {debugText addr}")

def parseMode (mode : String) : Except OutboundMessage SessionMode :=
  if mode = "manual" then .ok .manual
  else if mode = "automated" then .ok .automated
  else
    .error (.error "INVALID_MODE"
      s!"Unknown session mode '{mode}' — expected 'manual' or 'automated'")

/-- The checks of RegisterSession in their order. `debugText` is how Rust shows a
text for debugging. -/
def Registration.check (debugText : String → String) (r : Registration) :
    Except OutboundMessage (String × SessionMode) := do
  if badMemoryName r.memoryName then
    .error (.error "INVALID_MEMORY_NAME"
      "memory_name must not be empty, contain path separators, or start with '.'")
  let tenantId ← cleanTenantId r.tenantId
  checkServerAddr debugText "capture_server_addr" r.captureServerAddr
  checkServerAddr debugText "the_eyes_addr" r.theEyesAddr
  r.sessionConfig.elim (.ok ()) SessionConfig.check
  let mode ← parseMode r.mode
  .ok (tenantId, mode)

end MemoryArchive.Ipc
