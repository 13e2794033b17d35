import MemoryArchive.Ipc.Management
import MemoryArchive.Text.Trim

namespace MemoryArchive.Ipc.Routes

open Lines
open Registry
open Management (jsonError)

/-- What the hash of an annotator holds besides the fields that are listed. -/
structure Credential where
  keyHash : String
  deactivatedAt : String
  deriving DecidableEq

structure Accounts where
  redis : Redis
  credentials : String → Credential

/-- All that is known of an annotator. -/
def Accounts.account (s : Accounts) (annotatorId : String) : Option (Annotator × Credential) :=
  (s.redis.annotators annotatorId).map fun a => (a, s.credentials annotatorId)

/-- The texts of the JSON library, the key that is drawn and the digest of keys, the time,
and the answers of two scans. -/
structure Env where
  serdeError : ByteArray → String
  plaintextKey : String
  digest : String → String
  now : String
  keys : List String
  claimScan : List String

def Accounts.deactivateAnnotator (s : Accounts) (now annotatorId : String) : Except String Accounts :=
  match s.redis.annotators annotatorId with
  | none => .error "ANNOTATOR_NOT_FOUND"
  | some a =>
      let annotators := Function.update s.redis.annotators annotatorId (some { a with status := "deactivated" })
      let credential := { s.credentials annotatorId with deactivatedAt := now }
      .ok ⟨{ s.redis with annotators }, Function.update s.credentials annotatorId credential⟩

def Accounts.rotateAnnotatorKey (s : Accounts) (env : Env) (annotatorId : String) :
    Except String (Accounts × String) :=
  match s.redis.annotators annotatorId with
  | none => .error "ANNOTATOR_NOT_FOUND"
  | some _ =>
      let credential := { s.credentials annotatorId with keyHash := env.digest env.plaintextKey }
      .ok (⟨s.redis, Function.update s.credentials annotatorId credential⟩, env.plaintextKey)

/-- The branch for a new annotator, whose hash gets the digest of its key. -/
def register (env : Env) (s : Accounts) (body : ByteArray) : Accounts × Management.Response :=
  let (redis, response) := Management.dispatch env.serdeError env.plaintextKey s.redis body
  let credentials annotatorId :=
    if (s.redis.annotators annotatorId).isNone && (redis.annotators annotatorId).isSome then
      ⟨env.digest env.plaintextKey, ""⟩
    else s.credentials annotatorId
  (⟨redis, credentials⟩, response)

def deactivate (env : Env) (s : Accounts) (annotatorId : String) : Accounts × Management.Response :=
  match s.deactivateAnnotator env.now annotatorId with
  | .error _ => (s, jsonError 404 "ANNOTATOR_NOT_FOUND" s!"Annotator '{annotatorId}' not found")
  | .ok s => (s, ⟨200, .obj [("annotator_id", .str annotatorId), ("status", .str "deactivated")]⟩)

def rotate (env : Env) (s : Accounts) (annotatorId : String) : Accounts × Management.Response :=
  match s.rotateAnnotatorKey env annotatorId with
  | .error _ => (s, jsonError 404 "ANNOTATOR_NOT_FOUND" s!"Annotator '{annotatorId}' not found")
  | .ok (s, newKey) =>
      (s, ⟨200, .obj [("annotator_id", .str annotatorId),
        ("message", .str "Store this key securely — it will not be shown again."),
        ("new_plaintext_key", .str newKey)]⟩)

def item (a : AnnotatorInfo) : Json :=
  .obj [("allowed_tenant_ids", .arr (a.allowedTenantIds.map .str)), ("annotator_id", .str a.annotatorId),
    ("current_claims", .num (.ofNat a.currentClaims)), ("last_auth_at", .str a.lastAuthAt),
    ("max_concurrent_claims", .num (.ofNat a.maxConcurrentClaims)), ("status", .str a.status)]

def annotatorsRoute : List Char := "/v1/annotators/".toList

def rotateRoute : List Char := "/rotate".toList

def dispatch (env : Env) (s : Accounts) (method path : String) (body : ByteArray) :
    Accounts × Management.Response :=
  if method = "POST" ∧ path = "/v1/annotators" then register env s body
  else if method = "DELETE" ∧ annotatorsRoute <+: path.toList then
    let annotatorId := trimStartMatches annotatorsRoute path.toList
    if annotatorId = [] ∨ '/' ∈ annotatorId then
      (s, jsonError 400 "INVALID_PATH" "annotator_id must not be empty or contain '/'")
    else deactivate env s (.ofList annotatorId)
  else if method = "POST" ∧ annotatorsRoute <+: path.toList ∧ rotateRoute <:+ path.toList then
    let inner := trimEndMatches rotateRoute (trimStartMatches annotatorsRoute path.toList)
    if inner = [] ∨ '/' ∈ inner then (s, jsonError 400 "INVALID_PATH" "annotator_id must not be empty")
    else rotate env s (.ofList inner)
  else if method = "GET" ∧ path = "/v1/annotators" then
    (s, ⟨200, .obj [("annotators", .arr ((s.redis.listAnnotators env.keys env.claimScan).map item))]⟩)
  else (s, jsonError 404 "NOT_FOUND" s!"No route for {method} {path}")

/-- The requests about one annotator. -/
inductive Operation
  | deactivate
  | rotate
  deriving DecidableEq

def Operation.run : Operation → Env → Accounts → String → Accounts × Management.Response
  | .deactivate => Routes.deactivate
  | .rotate => Routes.rotate

/-- The method and the path of a request. -/
def Operation.request : Operation → String → String × List Char
  | .deactivate, annotatorId => ("DELETE", annotatorsRoute ++ annotatorId.toList)
  | .rotate, annotatorId => ("POST", annotatorsRoute ++ annotatorId.toList ++ rotateRoute)

/-- An id that is one segment of a path. -/
def Segment (annotatorId : String) : Prop := annotatorId ≠ "" ∧ '/' ∉ annotatorId.toList

instance (annotatorId : String) : Decidable (Segment annotatorId) :=
  inferInstanceAs (Decidable (annotatorId ≠ "" ∧ '/' ∉ annotatorId.toList))

/-- A request is answered by an operation on an annotator. -/
def Performs (op : Operation) (method path annotatorId : String) : Prop :=
  ∀ env s body, dispatch env s method path body = op.run env s annotatorId

/-- The requests of the grammar perform their operations, and all others change no
annotator. -/
structure Exact (method path : String) : Prop where
  performs : ∀ (op : Operation) annotatorId, Performs op method path annotatorId ↔
    Segment annotatorId ∧ (method, path.toList) = op.request annotatorId
  unchanged : (∀ (op : Operation) annotatorId, Segment annotatorId →
      (method, path.toList) ≠ op.request annotatorId) →
    ∀ env s body annotatorId account, s.account annotatorId = some account →
      (dispatch env s method path body).1.account annotatorId = some account

/-- The path has a route or an ending more than once, or an annotator by the name of the
ending stands without it. -/
def Aliased (method path : String) : Prop :=
  ∃ annotatorId k, Segment annotatorId ∧
    (method = "DELETE" ∧ path.toList = copies (k + 2) annotatorsRoute ++ annotatorId.toList ∨
      method = "POST" ∧ (∃ j, (k ≠ 0 ∨ j ≠ 0) ∧
        path.toList = copies (k + 1) annotatorsRoute ++ annotatorId.toList ++ copies (j + 1) rotateRoute) ∨
      method = "POST" ∧ annotatorId = "rotate" ∧
        path.toList = copies (k + 1) annotatorsRoute ++ annotatorId.toList)

/-- The requests that come to an operation on an annotator. -/
def Reaches (method path annotatorId : String) : Operation → Prop
  | .deactivate => method = "DELETE" ∧ ∃ k, path.toList = copies (k + 1) annotatorsRoute ++ annotatorId.toList
  | .rotate => method = "POST" ∧ ∃ k,
      (∃ j, path.toList = copies (k + 1) annotatorsRoute ++ annotatorId.toList ++ copies (j + 1) rotateRoute) ∨
        annotatorId = "rotate" ∧ path.toList = copies (k + 1) annotatorsRoute ++ annotatorId.toList

section Paths

variable {annotatorId : String} {path : List Char}

theorem annotatorsRoute_eq : annotatorsRoute = "/v1/annotators".toList ++ ['/'] := by decide

theorem annotatorsRoute_ne : annotatorsRoute ≠ [] := by decide

theorem rotateRoute_ne : rotateRoute ≠ [] := by decide

theorem segment_iff : Segment annotatorId ↔ ¬ (annotatorId.toList = [] ∨ '/' ∈ annotatorId.toList) := by
  rw [Segment, not_or, Ne, ← String.toList_inj]
  rfl

theorem segment_ofList {id : List Char} (h : ¬ (id = [] ∨ '/' ∈ id)) : Segment (.ofList id) := by
  rw [segment_iff, String.toList_ofList]
  exact h

/-- A segment and what follows it do not begin with a slash. -/
theorem not_route_front (ha : Segment annotatorId) (rest : List Char) :
    ¬ annotatorsRoute <+: annotatorId.toList ++ rest := by
  rintro ⟨tail, htail⟩
  cases hid : annotatorId.toList with
  | nil => exact segment_iff.mp ha (.inl hid)
  | cons c id =>
    rw [hid] at htail
    have hc : '/' = c := (List.cons.inj htail).1
    refine ha.2 ?_
    rw [hid, hc]
    exact List.mem_cons_self

theorem not_rotate_suffix (ha : Segment annotatorId) : ¬ rotateRoute <:+ annotatorId.toList :=
  fun hsuf => ha.2 (hsuf.subset (by decide))

theorem length_copies (k : Nat) (text : List Char) : (copies k text).length = k * text.length := by
  rw [copies, List.length_flatten, List.map_replicate, List.sum_replicate_nat]

/-- A path ends in a slash and the name of the ending only when the ending or that name is
what stands behind the routes. -/
theorem rotate_behind {k : Nat} {inner : List Char} (hinner : '/' ∉ inner)
    (hsuf : rotateRoute <:+ copies (k + 1) annotatorsRoute ++ inner) : inner = "rotate".toList := by
  obtain ⟨front, hfront⟩ := hsuf
  have hcut : front ++ '/' :: "rotate".toList =
      (copies k annotatorsRoute ++ "/v1/annotators".toList) ++ '/' :: inner := by
    have hslash : annotatorsRoute ++ inner = "/v1/annotators".toList ++ '/' :: inner := by
      rw [annotatorsRoute_eq, List.append_assoc]
      rfl
    rw [copies_succ', List.append_assoc, hslash, ← List.append_assoc] at hfront
    exact hfront
  exact (back_unique (by decide) hinner hcut).symm

end Paths

section Dispatch

variable {method path annotatorId : String} {s : Accounts}

/-- An operation is reached by the requests for it. -/
theorem reaches_request {op : Operation} (h : (method, path.toList) = op.request annotatorId) :
    Reaches method path annotatorId op := by
  cases op with
  | deactivate =>
    obtain ⟨hmethod, hpath⟩ := Prod.mk.inj h
    refine ⟨hmethod, 0, ?_⟩
    rw [hpath, copies_one]
  | rotate =>
    obtain ⟨hmethod, hpath⟩ := Prod.mk.inj h
    refine ⟨hmethod, 0, .inl ⟨0, ?_⟩⟩
    rw [hpath, copies_one, copies_one]

theorem dispatch_delete (env : Env) (s : Accounts) (body : ByteArray) (h : annotatorsRoute <+: path.toList) :
    dispatch env s "DELETE" path body =
      if trimStartMatches annotatorsRoute path.toList = [] ∨
          '/' ∈ trimStartMatches annotatorsRoute path.toList then
        (s, jsonError 400 "INVALID_PATH" "annotator_id must not be empty or contain '/'")
      else deactivate env s (.ofList (trimStartMatches annotatorsRoute path.toList)) := by
  rw [dispatch, if_neg fun hpost => absurd hpost.1 (by decide), if_pos ⟨rfl, h⟩]

theorem dispatch_rotate (env : Env) (s : Accounts) (body : ByteArray) (hpre : annotatorsRoute <+: path.toList)
    (hsuf : rotateRoute <:+ path.toList) :
    dispatch env s "POST" path body =
      if trimEndMatches rotateRoute (trimStartMatches annotatorsRoute path.toList) = [] ∨
          '/' ∈ trimEndMatches rotateRoute (trimStartMatches annotatorsRoute path.toList) then
        (s, jsonError 400 "INVALID_PATH" "annotator_id must not be empty")
      else
        rotate env s (.ofList (trimEndMatches rotateRoute (trimStartMatches annotatorsRoute path.toList))) := by
  have hne : ¬ ("POST" = "POST" ∧ path = "/v1/annotators") := by
    rintro ⟨-, rfl⟩
    exact absurd hpre (by decide)
  rw [dispatch, if_neg hne, if_neg fun hdelete => absurd hdelete.1 (by decide), if_pos ⟨rfl, hpre, hsuf⟩]

/-- What a rotation is about is left when the routes and the endings are taken away. -/
theorem inner_of_reaches (ha : Segment annotatorId) (h : Reaches method path annotatorId .rotate) :
    annotatorsRoute <+: path.toList ∧ rotateRoute <:+ path.toList ∧
      trimEndMatches rotateRoute (trimStartMatches annotatorsRoute path.toList) = annotatorId.toList := by
  obtain ⟨-, k, ⟨j, hpath⟩ | ⟨rfl, hpath⟩⟩ := h
  · have hstart : trimStartMatches annotatorsRoute path.toList =
        annotatorId.toList ++ copies (j + 1) rotateRoute := by
      rw [hpath, List.append_assoc, trimStartMatches_copies annotatorsRoute_ne (not_route_front ha _)]
    refine ⟨?_, ?_, ?_⟩
    · rw [hpath, copies_succ, List.append_assoc, List.append_assoc]
      exact List.prefix_append _ _
    · rw [hpath, copies_succ' j, ← List.append_assoc]
      exact List.suffix_append _ _
    · rw [hstart, trimEndMatches_copies rotateRoute_ne (not_rotate_suffix ha)]
  · have hstart : trimStartMatches annotatorsRoute path.toList = "rotate".toList := by
      rw [hpath, trimStartMatches_copies annotatorsRoute_ne (by decide)]
    refine ⟨?_, ?_, ?_⟩
    · rw [hpath, copies_succ, List.append_assoc]
      exact List.prefix_append _ _
    · have hend : copies (k + 1) annotatorsRoute ++ "rotate".toList =
          copies k annotatorsRoute ++ "/v1/annotators".toList ++ rotateRoute := by
        rw [copies_succ', annotatorsRoute_eq, List.append_assoc, List.append_assoc, List.append_assoc]
        rfl
      rw [hpath, hend]
      exact List.suffix_append _ _
    · rw [hstart]
      decide

theorem dispatch_reaches {op : Operation} (ha : Segment annotatorId) (h : Reaches method path annotatorId op) :
    Performs op method path annotatorId := by
  intro env s body
  cases op with
  | deactivate =>
    obtain ⟨rfl, k, hpath⟩ := h
    have hstart : trimStartMatches annotatorsRoute path.toList = annotatorId.toList := by
      have hnot := not_route_front ha []
      rw [List.append_nil] at hnot
      rw [hpath, trimStartMatches_copies annotatorsRoute_ne hnot]
    have hpre : annotatorsRoute <+: path.toList := by
      rw [hpath, copies_succ, List.append_assoc]
      exact List.prefix_append _ _
    rw [dispatch_delete env s body hpre, hstart, if_neg (segment_iff.mp ha), String.ofList_toList]
    rfl
  | rotate =>
    obtain ⟨hpre, hsuf, hinner⟩ := inner_of_reaches ha h
    obtain ⟨rfl, -⟩ := h
    rw [dispatch_rotate env s body hpre hsuf, hinner, if_neg (segment_iff.mp ha), String.ofList_toList]
    rfl

theorem routes_in_front {text : List Char} (hpre : annotatorsRoute <+: text) :
    ∃ k, text = copies (k + 1) annotatorsRoute ++ trimStartMatches annotatorsRoute text := by
  obtain ⟨k, hk, hnot⟩ := trimStartMatches_spec annotatorsRoute_ne text
  cases k with
  | zero => exact absurd ((congrArg (annotatorsRoute <+: ·) hk).mp hpre) hnot
  | succ k => exact ⟨k, hk⟩

theorem reaches_delete (hpre : annotatorsRoute <+: path.toList) :
    Reaches "DELETE" path (.ofList (trimStartMatches annotatorsRoute path.toList)) .deactivate := by
  obtain ⟨k, hk⟩ := routes_in_front hpre
  refine ⟨rfl, k, ?_⟩
  rw [String.toList_ofList]
  exact hk

theorem reaches_rotate (hpre : annotatorsRoute <+: path.toList) (hsuf : rotateRoute <:+ path.toList)
    (hsegment : ¬ (trimEndMatches rotateRoute (trimStartMatches annotatorsRoute path.toList) = [] ∨
      '/' ∈ trimEndMatches rotateRoute (trimStartMatches annotatorsRoute path.toList))) :
    Reaches "POST" path (.ofList (trimEndMatches rotateRoute (trimStartMatches annotatorsRoute path.toList)))
      .rotate := by
  obtain ⟨k, hk⟩ := routes_in_front hpre
  obtain ⟨j, hj, -⟩ := trimEndMatches_spec rotateRoute_ne (trimStartMatches annotatorsRoute path.toList)
  refine ⟨rfl, k, ?_⟩
  rw [String.toList_ofList, ← String.toList_inj, String.toList_ofList]
  cases j with
  | succ j =>
    refine .inl ⟨j, ?_⟩
    rw [List.append_assoc, ← hj]
    exact hk
  | zero =>
    have hrest := hj.trans (List.append_nil _)
    have hpath := hk
    rw [hrest] at hpath
    rw [hpath] at hsuf
    exact .inr ⟨rotate_behind (not_or.mp hsegment).2 hsuf, hpath⟩

theorem registerAnnotator_kept {redis redis' : Redis} {a : Annotator} {registered : String}
    {allowed : List String} {maxClaims : Nat} (h : redis.annotators annotatorId = some a)
    (hregister : redis.registerAnnotator registered allowed maxClaims = .ok redis') :
    redis'.annotators annotatorId = some a := by
  rw [Redis.registerAnnotator] at hregister
  cases hentry : redis.annotators registered with
  | some b =>
    rw [hentry] at hregister
    cases hregister
  | none =>
    rw [hentry] at hregister
    cases hregister
    have hne : annotatorId ≠ registered := by
      rintro rfl
      rw [h] at hentry
      cases hentry
    exact (Function.update_of_ne hne _ _).trans h

/-- A registration keeps the annotators that are there, and its answer is not that of an
operation on one of them. -/
theorem registration_kept (serdeError : ByteArray → String) (plaintextKey : String) {redis : Redis}
    {a : Annotator} (body : ByteArray) (h : redis.annotators annotatorId = some a) :
    (Management.dispatch serdeError plaintextKey redis body).1.annotators annotatorId = some a ∧
      (Management.dispatch serdeError plaintextKey redis body).2.status ≠ 200 := by
  rw [Management.dispatch]
  cases (decodeUtf8 body).bind Json.parse with
  | none => exact ⟨h, (by decide : (400 : Nat) ≠ 200)⟩
  | some v =>
    dsimp only
    split
    · exact ⟨h, (by decide : (400 : Nat) ≠ 200)⟩
    · split
      · exact ⟨h, (by decide : (409 : Nat) ≠ 200)⟩
      · rename_i redis' hregister
        exact ⟨registerAnnotator_kept h hregister, (by decide : (201 : Nat) ≠ 200)⟩

theorem account_eq_some {account : Annotator × Credential} : s.account annotatorId = some account ↔
    s.redis.annotators annotatorId = some account.1 ∧ s.credentials annotatorId = account.2 := by
  rw [Accounts.account, Option.map_eq_some_iff]
  constructor
  · rintro ⟨a, ha, rfl⟩
    exact ⟨ha, rfl⟩
  · rintro ⟨ha, hc⟩
    exact ⟨account.1, ha, Prod.ext rfl hc⟩

theorem register_kept (env : Env) (body : ByteArray) {account : Annotator × Credential}
    (h : s.account annotatorId = some account) :
    (register env s body).1.account annotatorId = some account ∧ (register env s body).2.status ≠ 200 := by
  obtain ⟨ha, hc⟩ := account_eq_some.mp h
  obtain ⟨hkept, hstatus⟩ := registration_kept env.serdeError env.plaintextKey body ha
  refine ⟨account_eq_some.mpr ⟨hkept, ?_⟩, hstatus⟩
  change (if (s.redis.annotators annotatorId).isNone && _ then _ else s.credentials annotatorId) = account.2
  rw [ha]
  exact hc

/-- The id in the body of a success. -/
def about (response : Management.Response) : Option Json :=
  if response.status = 200 then response.body.get? "annotator_id" else none

/-- A request that comes to no operation keeps every annotator, and its answer is about
none. -/
theorem dispatch_idle (hidle : ∀ op annotatorId, Segment annotatorId → ¬ Reaches method path annotatorId op)
    (env : Env) (body : ByteArray) {account : Annotator × Credential}
    (h : s.account annotatorId = some account) :
    (dispatch env s method path body).1.account annotatorId = some account ∧
      about (dispatch env s method path body).2 = none := by
  by_cases hregister : method = "POST" ∧ path = "/v1/annotators"
  · obtain ⟨hkept, hstatus⟩ := register_kept env body h
    rw [dispatch, if_pos hregister]
    exact ⟨hkept, if_neg hstatus⟩
  · by_cases hdelete : method = "DELETE" ∧ annotatorsRoute <+: path.toList
    · obtain ⟨rfl, hpre⟩ := hdelete
      rw [dispatch_delete env s body hpre, if_pos]
      · exact ⟨h, rfl⟩
      · by_contra hsegment
        exact hidle .deactivate (.ofList _) (segment_ofList hsegment) (reaches_delete hpre)
    · by_cases hrotate : method = "POST" ∧ annotatorsRoute <+: path.toList ∧ rotateRoute <:+ path.toList
      · obtain ⟨rfl, hpre, hsuf⟩ := hrotate
        rw [dispatch_rotate env s body hpre hsuf, if_pos]
        · exact ⟨h, rfl⟩
        · by_contra hsegment
          exact hidle .rotate (.ofList _) (segment_ofList hsegment) (reaches_rotate hpre hsuf hsegment)
      · rw [dispatch, if_neg hregister, if_neg hdelete, if_neg hrotate]
        split
        · exact ⟨h, rfl⟩
        · exact ⟨h, rfl⟩

/-- Every annotator is there. -/
def everyone : Accounts :=
  ⟨⟨fun _ => .absent, fun _ => [], fun _ => none, fun _ => some ⟨"active", [], 0, ""⟩⟩, fun _ => ⟨"", ""⟩⟩

def sampleEnv : Env := ⟨fun _ => "expected value", "new", fun key => key, "2026-01-01T00:00:00Z", [], []⟩

theorem about_run (op : Operation) (annotatorId : String) :
    about (op.run sampleEnv everyone annotatorId).2 = some (.str annotatorId) := by
  cases op with
  | deactivate => rfl
  | rotate => rfl

theorem status_run (op : Operation) (annotatorId : String) :
    (op.run sampleEnv everyone annotatorId).2.body.get? "status" =
      if op = .deactivate then some (.str "deactivated") else none := by
  cases op with
  | deactivate => rfl
  | rotate => rfl

/-- A request performs what it comes to and nothing else. -/
theorem performs_iff {op : Operation} : Performs op method path annotatorId ↔
    Segment annotatorId ∧ Reaches method path annotatorId op := by
  refine ⟨fun h => ?_, fun h => dispatch_reaches h.1 h.2⟩
  have hrun := h sampleEnv everyone ByteArray.empty
  by_cases hsome : ∃ op annotatorId, Segment annotatorId ∧ Reaches method path annotatorId op
  · obtain ⟨op', annotatorId', ha, hreaches⟩ := hsome
    rw [dispatch_reaches ha hreaches sampleEnv everyone ByteArray.empty] at hrun
    have habout := congrArg (fun r => about r.2) hrun
    have hstatus := congrArg (fun r => r.2.body.get? "status") hrun
    rw [about_run, about_run] at habout
    rw [status_run, status_run] at hstatus
    cases habout
    cases op with
    | deactivate =>
      cases op' with
      | deactivate => exact ⟨ha, hreaches⟩
      | rotate => cases hstatus
    | rotate =>
      cases op' with
      | deactivate => cases hstatus
      | rotate => exact ⟨ha, hreaches⟩
  · have hidle : ∀ op annotatorId, Segment annotatorId → ¬ Reaches method path annotatorId op :=
      fun op annotatorId ha hreaches => hsome ⟨op, annotatorId, ha, hreaches⟩
    have haccount : everyone.account "" = some (⟨"active", [], 0, ""⟩, ⟨"", ""⟩) := rfl
    have hnone := (dispatch_idle hidle sampleEnv ByteArray.empty haccount).2
    rw [hrun, about_run] at hnone
    cases hnone

/-- A request comes to an operation in the words of the grammar or by an alias. -/
theorem aliased_of_reaches {op : Operation} (ha : Segment annotatorId)
    (hreaches : Reaches method path annotatorId op) (hne : (method, path.toList) ≠ op.request annotatorId) :
    Aliased method path := by
  cases op with
  | deactivate =>
    obtain ⟨rfl, k, hpath⟩ := hreaches
    cases k with
    | zero =>
      rw [copies_one] at hpath
      exact (hne (Prod.ext rfl hpath)).elim
    | succ k => exact ⟨annotatorId, k, ha, .inl ⟨rfl, hpath⟩⟩
  | rotate =>
    obtain ⟨rfl, k, ⟨j, hpath⟩ | ⟨hrotate, hpath⟩⟩ := hreaches
    · refine ⟨annotatorId, k, ha, .inr (.inl ⟨rfl, j, ?_, hpath⟩)⟩
      by_contra hzero
      obtain ⟨rfl, rfl⟩ : k = 0 ∧ j = 0 := by omega
      rw [copies_one, copies_one] at hpath
      exact hne (Prod.ext rfl hpath)
    · exact ⟨annotatorId, k, ha, .inr (.inr ⟨rfl, hrotate, hpath⟩)⟩

/-- An alias comes to an operation, in no words of the grammar. -/
theorem reaches_of_aliased (h : Aliased method path) :
    ∃ op annotatorId, Segment annotatorId ∧ Reaches method path annotatorId op ∧
      (method, path.toList) ≠ op.request annotatorId := by
  have hroute : annotatorsRoute.length = 15 := by decide
  have hrotate : rotateRoute.length = 7 := by decide
  obtain ⟨annotatorId, k, ha, ⟨rfl, hpath⟩ | ⟨rfl, j, hkj, hpath⟩ | ⟨rfl, hid, hpath⟩⟩ := h
  · refine ⟨.deactivate, annotatorId, ha, ⟨rfl, k + 1, hpath⟩, fun heq => ?_⟩
    have hlen := congrArg List.length (hpath.symm.trans (Prod.mk.inj heq).2)
    rw [List.length_append, List.length_append, length_copies, hroute] at hlen
    omega
  · refine ⟨.rotate, annotatorId, ha, ⟨rfl, k, .inl ⟨j, hpath⟩⟩, fun heq => ?_⟩
    have hlen := congrArg List.length (hpath.symm.trans (Prod.mk.inj heq).2)
    simp only [List.length_append, length_copies, hroute, hrotate] at hlen
    omega
  · refine ⟨.rotate, annotatorId, ha, ⟨rfl, k, .inr ⟨hid, hpath⟩⟩, fun heq => ?_⟩
    have hlen := congrArg List.length (hpath.symm.trans (Prod.mk.inj heq).2)
    simp only [List.length_append, length_copies, hroute, hrotate] at hlen
    omega

theorem inexact_of_aliased (haliased : Aliased method path) : ¬ Exact method path := by
  intro h
  obtain ⟨op, annotatorId, ha, hreaches, hne⟩ := reaches_of_aliased haliased
  exact hne ((h.performs op annotatorId).mp (performs_iff.mpr ⟨ha, hreaches⟩)).2

end Dispatch

/-- A request is handled exactly just when it is no alias; and the requests that name a
segment come to its annotator. -/
theorem routes_exact_iff (method path annotatorId : String) :
    (Exact method path ↔ ¬ Aliased method path) ∧
      ((∀ op : Operation,
        Performs op (op.request annotatorId).1 (.ofList (op.request annotatorId).2) annotatorId) ↔
          Segment annotatorId) := by
  refine ⟨⟨fun h haliased => inexact_of_aliased haliased h, fun hnot =>
    ⟨fun op annotatorId => ?_, ?_⟩⟩, ⟨fun h => ?_, fun ha op => ?_⟩⟩
  · rw [performs_iff]
    refine and_congr_right fun ha => ⟨fun hreaches => ?_, reaches_request⟩
    by_contra hne
    exact hnot (aliased_of_reaches ha hreaches hne)
  · intro hother env s body annotatorId account haccount
    refine (dispatch_idle ?_ env body haccount).1
    exact fun op id ha hreaches => hnot (aliased_of_reaches ha hreaches (hother op id ha))
  · exact (performs_iff.mp (h .deactivate)).1
  · refine dispatch_reaches ha (reaches_request ?_)
    rw [String.toList_ofList]

/-- A rotation without an id rotates the key of an annotator called rotate, and a repeated
route deactivates an annotator. -/
theorem routes_inexact :
    ¬ Exact "POST" "/v1/annotators/rotate" ∧ ¬ Exact "DELETE" "/v1/annotators//v1/annotators/a" :=
  ⟨inexact_of_aliased ⟨"rotate", 0, by decide, .inr (.inr ⟨rfl, rfl, by decide⟩)⟩,
    inexact_of_aliased ⟨"a", 0, by decide, .inl ⟨rfl, by decide⟩⟩⟩

end MemoryArchive.Ipc.Routes
