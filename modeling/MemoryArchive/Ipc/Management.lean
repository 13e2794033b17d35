import MemoryArchive.Ipc.Lifecycle
import MemoryArchive.Reasoning.Upserts

namespace MemoryArchive.Ipc.Management

open Json (Fields)
open Reasoning (occurrences required asString asU32 asU64)
open Registry

/-- An answer of the management API, with the JSON in its body. -/
structure Response where
  status : Nat
  body : Json

def jsonError (status : Nat) (code message : String) : Response :=
  ⟨status, .obj [("error", .str code), ("message", .str message)]⟩

/-- A value in place of a member that is not there is null. -/
def index (input : Json) (key : String) : Json := (input.get? key).getD .null

def trimmed (s : String) : String := String.ofList (Lines.trim s.toList)

/-- The strings among the items of an array. -/
def strings : Json → List String
  | .arr items => items.filterMap asString
  | _ => []

/-- `dispatch` of a `POST /v1/annotators`. -/
def dispatch (serdeError : ByteArray → String) (plaintextKey : String) (redis : Redis) (body : ByteArray) :
    Redis × Response :=
  match (decodeUtf8 body).bind Json.parse with
  | none => (redis, jsonError 400 "INVALID_JSON" (serdeError body))
  | some v =>
      let input := v.rebuild Json.putSorted
      let annotatorId := trimmed ((asString (index input "annotator_id")).getD "")
      if annotatorId = "" then (redis, jsonError 400 "MISSING_FIELD" "annotator_id is required")
      else
        let allowed := strings (index input "allowed_tenant_ids")
        let maxClaims := UInt32.ofNat ((asU64 (index input "max_concurrent_claims")).getD 0)
        match redis.registerAnnotator annotatorId allowed maxClaims.toNat with
        | .error _ =>
            (redis, jsonError 409 "ANNOTATOR_EXISTS" s!"Annotator '{annotatorId}' already exists")
        | .ok redis =>
            (redis, ⟨201, .obj [("annotator_id", .str annotatorId),
              ("message", .str "Store this key securely — it will not be shown again."),
              ("plaintext_key", .str plaintextKey)]⟩)

/-- A field with a default, for when it is not there. -/
def defaulted {α : Type} (read : Json → Option α) (default : α) : List Json → Option α
  | [] => some default
  | [j] => read j
  | _ => none

def asStrings : Json → Option (List String)
  | .arr items => items.mapM asString
  | _ => none

/-- The deserialiser of a RegisterAnnotator message. -/
def message? : Json → Option OperatorMessage
  | .obj fs =>
      if required asString (occurrences "type" fs) = some "register_annotator" then do
        return .registerAnnotator (← required asString (occurrences "annotator_id" fs))
          (← defaulted asStrings [] (occurrences "allowed_tenant_ids" fs))
          (← defaulted asU32 0 (occurrences "max_concurrent_claims" fs))
      else none
  | _ => none

/-- The message with the values of a request body. -/
def tagged : Json → Json
  | .obj fs => .obj (("type", .str "register_annotator") :: fs.filter fun f => f.1 ≠ "type")
  | j => j

/-- A request is refused and changes nothing, or it registers what the message with the
same values registers. -/
def Agrees (serdeError : ByteArray → String) (s : System) (env : OperatorEnv) (body : ByteArray) : Prop :=
  let (redis, response) := dispatch serdeError env.plaintextKey s.server.redis body
  (400 ≤ response.status ∧ response.status < 500 ∧ redis = s.server.redis) ∨
    ∃ v msg annotatorId, (decodeUtf8 body).bind Json.parse = some v ∧ message? (tagged v) = some msg ∧
      (handleMessage s env msg).2 = some (.annotatorRegistered annotatorId env.plaintextKey) ∧
      redis = (handleMessage s env msg).1.server.redis

/-- The last id that a body names. -/
def named : Json → Option String
  | .obj fs => (occurrences "annotator_id" fs).getLast?.bind asString
  | _ => none

/-- Every field has its type and is there at most once, the id without blanks around it. -/
structure Typed (fs : Fields) : Prop where
  annotatorId : ∃ id, occurrences "annotator_id" fs = [.str id] ∧ trimmed id = id
  allowedTenantIds : occurrences "allowed_tenant_ids" fs = [] ∨
    ∃ ids : List String, occurrences "allowed_tenant_ids" fs = [.arr (ids.map .str)]
  maxConcurrentClaims : occurrences "max_concurrent_claims" fs = [] ∨
    ∃ (n : Json.Number) (v : Nat), occurrences "max_concurrent_claims" fs = [.num n] ∧ n.toNat? = some v ∧
      v < 2 ^ 32

/-- A body that is not JSON, names no id or one that is in use, or is well typed. -/
def Answered (redis : Redis) (body : ByteArray) : Prop :=
  ∀ v, (decodeUtf8 body).bind Json.parse = some v →
    (∀ id, named v = some id → trimmed id = "" ∨ (redis.annotators (trimmed id)).isSome = true) ∨
      ∃ fs, v = .obj fs ∧ Typed fs

section Members

/-- A sorted map gives each key the last value that the members name for it. -/
theorem lookup_rebuildFields_last {key : String} {fields acc : Fields}
    (hacc : (acc.map Prod.fst).Pairwise (· < ·)) :
    (Json.rebuildFields Json.putSorted acc fields).lookup key =
      ((occurrences key fields).getLast?.map (Json.rebuild Json.putSorted)).or (acc.lookup key) := by
  induction fields generalizing acc with
  | nil => rw [Json.rebuildFields, Reasoning.occurrences_nil, List.getLast?_nil, Option.map_none, Option.none_or]
  | cons f fields ih =>
    obtain ⟨k, v⟩ := f
    have hsorted := pairwise_insertRow k (Json.rebuild Json.putSorted v) acc hacc
    rw [Json.rebuildFields, Json.putSorted, ih hsorted, Table.lookup_insertRow k _ acc key hacc,
      Reasoning.occurrences_cons]
    by_cases hkey : k = key
    · rw [if_pos hkey.symm, if_pos hkey, List.getLast?_cons]
      cases (occurrences key fields).getLast? <;> rfl
    · rw [if_neg (Ne.symm hkey), if_neg hkey]

theorem index_rebuild (fs : Fields) (key : String) :
    index (Json.rebuild Json.putSorted (.obj fs)) key =
      ((occurrences key fs).getLast?.map (Json.rebuild Json.putSorted)).getD .null := by
  change ((Json.rebuildFields Json.putSorted [] fs).lookup key).getD .null = _
  rw [lookup_rebuildFields_last List.Pairwise.nil, List.lookup_nil, Option.or_none]

theorem asString_rebuild (j : Json) : asString (Json.rebuild Json.putSorted j) = asString j := by
  cases j <;> rfl

/-- The id that the handler reads. -/
theorem asString_index (v : Json) :
    asString (index (Json.rebuild Json.putSorted v) "annotator_id") = named v := by
  cases v with
  | obj fs =>
    rw [index_rebuild, named]
    cases (occurrences "annotator_id" fs).getLast? with
    | none => rfl
    | some j => exact asString_rebuild j
  | null | bool _ | num _ | str _ | arr _ => rfl

theorem asString_eq_some {j : Json} {id : String} : asString j = some id ↔ j = .str id := by
  cases j <;> simp [asString]

theorem mapM_asString {items : List Json} {ids : List String} :
    items.mapM asString = some ids ↔ items = ids.map .str := by
  induction items generalizing ids with
  | nil => simp [eq_comm]
  | cons j items ih =>
    cases ids with
    | nil => simp [Option.bind_eq_some_iff]
    | cons id ids => simp [Option.bind_eq_some_iff, asString_eq_some, ih]

theorem strings_map (ids : List String) : strings (.arr (ids.map .str)) = ids := by
  rw [strings, List.filterMap_map]
  exact List.filterMap_some

end Members

section Messages

variable {fs : Fields} {annotatorId : String} {allowed : List String} {maxClaims : UInt32}

theorem occurrences_tagged (fs : Fields) {key : String} (hkey : key ≠ "type") :
    occurrences key (("type", .str "register_annotator") :: fs.filter fun f => f.1 ≠ "type") =
      occurrences key fs := by
  rw [Reasoning.occurrences_cons, if_neg (Ne.symm hkey), Reasoning.occurrences, Reasoning.occurrences,
    List.filter_filter]
  congr 1
  refine List.filter_congr fun f _ => ?_
  by_cases hf : f.1 = key
  · simp [hf, hkey]
  · simp [hf]

theorem type_tagged (fs : Fields) :
    occurrences "type" (("type", .str "register_annotator") :: fs.filter fun f => f.1 ≠ "type") =
      [.str "register_annotator"] := by
  rw [Reasoning.occurrences_cons, if_pos rfl, Reasoning.occurrences, List.filter_filter]
  have hnone : fs.filter (fun f => decide (f.1 = "type") && decide (f.1 ≠ "type")) = [] := by
    refine List.filter_eq_nil_iff.mpr fun f _ => ?_
    simp
  rw [hnone]
  rfl

/-- A message is read from a body just when its three fields are. -/
theorem message_tagged {msg : OperatorMessage} :
    message? (tagged (.obj fs)) = some msg ↔ ∃ annotatorId allowed maxClaims,
      required asString (occurrences "annotator_id" fs) = some annotatorId ∧
        defaulted asStrings [] (occurrences "allowed_tenant_ids" fs) = some allowed ∧
        defaulted asU32 0 (occurrences "max_concurrent_claims" fs) = some maxClaims ∧
        msg = .registerAnnotator annotatorId allowed maxClaims := by
  have htype : required asString [.str "register_annotator"] = some "register_annotator" := rfl
  rw [tagged, message?, type_tagged, if_pos htype, occurrences_tagged fs (by decide),
    occurrences_tagged fs (by decide), occurrences_tagged fs (by decide)]
  cases required asString (occurrences "annotator_id" fs) with
  | none => simp
  | some id =>
    cases defaulted asStrings [] (occurrences "allowed_tenant_ids" fs) with
    | none => simp
    | some ids =>
      cases defaulted asU32 0 (occurrences "max_concurrent_claims" fs) with
      | none => simp
      | some n => simp [eq_comm]

theorem required_asString {js : List Json} : required asString js = some annotatorId ↔ js = [.str annotatorId] := by
  match js with
  | [] => simp [required]
  | [j] => simp [required, asString_eq_some]
  | _ :: _ :: _ => simp [required]

theorem defaulted_asStrings {js : List Json} : defaulted asStrings [] js = some allowed ↔
    js = [] ∧ allowed = [] ∨ js = [.arr (allowed.map .str)] := by
  match js with
  | [] => simp [defaulted, eq_comm]
  | [.arr items] => simp [defaulted, asStrings, mapM_asString]
  | [.null] | [.bool _] | [.num _] | [.str _] | [.obj _] => simp [defaulted, asStrings]
  | _ :: _ :: _ => simp [defaulted]

theorem defaulted_asU32 {js : List Json} : defaulted asU32 0 js = some maxClaims ↔
    js = [] ∧ maxClaims = 0 ∨ ∃ (n : Json.Number) (v : Nat), js = [.num n] ∧ n.toNat? = some v ∧ v < 2 ^ 32 ∧
      maxClaims = .ofNat v := by
  match js with
  | [] => simp [defaulted, eq_comm]
  | [.num n] =>
    cases hn : n.toNat? with
    | none => simp [defaulted, asU32, hn]
    | some v =>
      by_cases hv : v < 4294967296
      · simp [defaulted, asU32, hn, hv, eq_comm]
      · simp [defaulted, asU32, hn, hv]
  | [.null] | [.bool _] | [.arr _] | [.str _] | [.obj _] => simp [defaulted, asU32]
  | _ :: _ :: _ => simp [defaulted]

theorem typed_iff : Typed fs ↔ ∃ annotatorId allowed maxClaims,
    required asString (occurrences "annotator_id" fs) = some annotatorId ∧
      defaulted asStrings [] (occurrences "allowed_tenant_ids" fs) = some allowed ∧
      defaulted asU32 0 (occurrences "max_concurrent_claims" fs) = some maxClaims ∧
      trimmed annotatorId = annotatorId := by
  simp only [required_asString, defaulted_asStrings, defaulted_asU32]
  constructor
  · rintro ⟨⟨id, hid, htrim⟩, hallowed, hclaims⟩
    obtain ⟨ids, hids⟩ : ∃ ids, occurrences "allowed_tenant_ids" fs = [] ∧ ids = [] ∨
        occurrences "allowed_tenant_ids" fs = [.arr (ids.map .str)] := by
      obtain hnone | ⟨ids, hids⟩ := hallowed
      · exact ⟨[], .inl ⟨hnone, rfl⟩⟩
      · exact ⟨ids, .inr hids⟩
    obtain hnone | ⟨n, v, hn, hv, hlt⟩ := hclaims
    · exact ⟨id, ids, 0, hid, hids, .inl ⟨hnone, rfl⟩, htrim⟩
    · exact ⟨id, ids, .ofNat v, hid, hids, .inr ⟨n, v, hn, hv, hlt, rfl⟩, htrim⟩
  · rintro ⟨id, ids, n, hid, hids, hclaims, htrim⟩
    refine ⟨⟨id, hid, htrim⟩, ?_, ?_⟩
    · exact hids.imp And.left fun hids => ⟨ids, hids⟩
    · refine hclaims.imp And.left ?_
      rintro ⟨m, v, hm, hv, hlt, -⟩
      exact ⟨m, v, hm, hv, hlt⟩

theorem rebuildItems_str (ids : List String) :
    Json.rebuildItems Json.putSorted (ids.map .str) = ids.map .str := by
  induction ids with
  | nil => rfl
  | cons id ids ih => rw [List.map_cons, Json.rebuildItems, ih, Json.rebuild]

/-- A list of tenants that the message takes is read as it is. -/
theorem strings_index (h : defaulted asStrings [] (occurrences "allowed_tenant_ids" fs) = some allowed) :
    strings (index (Json.rebuild Json.putSorted (.obj fs)) "allowed_tenant_ids") = allowed := by
  rw [index_rebuild]
  obtain ⟨hnone, rfl⟩ | hids := defaulted_asStrings.mp h
  · rw [hnone]
    rfl
  · rw [hids, List.getLast?_singleton, Option.map_some, Option.getD_some, Json.rebuild, rebuildItems_str, strings_map]

theorem asU64_index (h : defaulted asU32 0 (occurrences "max_concurrent_claims" fs) = some maxClaims) :
    UInt32.ofNat ((asU64 (index (Json.rebuild Json.putSorted (.obj fs)) "max_concurrent_claims")).getD 0) =
      maxClaims := by
  rw [index_rebuild]
  obtain ⟨hnone, rfl⟩ | ⟨n, v, hn, hv, hlt, rfl⟩ := defaulted_asU32.mp h
  · rw [hnone]
    rfl
  · have hread : asU64 (Json.rebuild Json.putSorted (.num n)) = some v := by
      rw [Json.rebuild, asU64, hv]
      exact if_pos (lt_trans hlt (by decide))
    rw [hn, List.getLast?_singleton, Option.map_some, Option.getD_some, hread, Option.getD_some]

end Messages

section Answers

variable {serdeError : ByteArray → String} {s : System} {env : OperatorEnv} {body : ByteArray} {v : Json}

theorem dispatch_invalid (redis : Redis) (hbody : (decodeUtf8 body).bind Json.parse = none) :
    dispatch serdeError env.plaintextKey redis body =
      (redis, jsonError 400 "INVALID_JSON" (serdeError body)) := by
  rw [dispatch, hbody]

theorem dispatch_blank (redis : Redis) (hbody : (decodeUtf8 body).bind Json.parse = some v)
    (hblank : trimmed ((named v).getD "") = "") :
    dispatch serdeError env.plaintextKey redis body =
      (redis, jsonError 400 "MISSING_FIELD" "annotator_id is required") := by
  rw [dispatch, hbody]
  dsimp only
  rw [asString_index, if_pos hblank]

variable (serdeError env) in
theorem dispatch_known {redis : Redis} {a : Annotator} (hbody : (decodeUtf8 body).bind Json.parse = some v)
    (hnamed : trimmed ((named v).getD "") ≠ "")
    (hknown : redis.annotators (trimmed ((named v).getD "")) = some a) :
    ∃ message, dispatch serdeError env.plaintextKey redis body =
      (redis, jsonError 409 "ANNOTATOR_EXISTS" message) := by
  rw [dispatch, hbody]
  dsimp only
  rw [asString_index, if_neg hnamed, Redis.registerAnnotator, hknown]
  exact ⟨_, rfl⟩

/-- The registry with a new annotator. -/
def withAnnotator (redis : Redis) (annotatorId : String) (allowed : List String) (maxClaims : UInt32) : Redis :=
  { redis with
    annotators := Function.update redis.annotators annotatorId
      (some ⟨"active", allowed, maxClaims.toNat, ""⟩) }

variable (serdeError env) in
theorem dispatch_new {redis : Redis} (hbody : (decodeUtf8 body).bind Json.parse = some v)
    (hnamed : trimmed ((named v).getD "") ≠ "") (hnew : redis.annotators (trimmed ((named v).getD "")) = none) :
    ∃ answer, dispatch serdeError env.plaintextKey redis body =
      (withAnnotator redis (trimmed ((named v).getD ""))
        (strings (index (Json.rebuild Json.putSorted v) "allowed_tenant_ids"))
        (.ofNat ((asU64 (index (Json.rebuild Json.putSorted v) "max_concurrent_claims")).getD 0)),
        ⟨201, answer⟩) := by
  rw [dispatch, hbody]
  dsimp only
  rw [asString_index, if_neg hnamed, Redis.registerAnnotator, hnew]
  exact ⟨_, rfl⟩

/-- The answer to the message, and the registry after it. -/
theorem handle_registered {annotatorId answered : String} {allowed : List String} {maxClaims : UInt32} :
    (handleMessage s env (.registerAnnotator annotatorId allowed maxClaims)).2 =
        some (.annotatorRegistered answered env.plaintextKey) ↔
      s.server.redis.annotators annotatorId = none ∧ answered = annotatorId := by
  rw [handleMessage, registerAnnotator, Redis.registerAnnotator]
  cases s.server.redis.annotators annotatorId with
  | none => simp [eq_comm]
  | some a => simp

theorem redis_registered {annotatorId : String} {allowed : List String} {maxClaims : UInt32}
    (hnew : s.server.redis.annotators annotatorId = none) :
    (handleMessage s env (.registerAnnotator annotatorId allowed maxClaims)).1.server.redis =
      withAnnotator s.server.redis annotatorId allowed maxClaims := by
  rw [handleMessage, registerAnnotator, Redis.registerAnnotator, hnew]
  rfl

/-- A new annotator is registered as the message would just when all fields have their
types. -/
theorem agrees_new {fs : Fields} {id : String} (hbody : (decodeUtf8 body).bind Json.parse = some (.obj fs))
    (hid : named (.obj fs) = some id) (hnamed : trimmed id ≠ "")
    (hnew : s.server.redis.annotators (trimmed id) = none) : Agrees serdeError s env body ↔ Typed fs := by
  have hgetD : (named (.obj fs)).getD "" = id := by rw [hid]; rfl
  obtain ⟨answer, hdispatch⟩ := dispatch_new serdeError env hbody
    (by rw [hgetD]; exact hnamed) (by rw [hgetD]; exact hnew)
  rw [hgetD] at hdispatch
  have hsame : ∀ annotatorId, required asString (occurrences "annotator_id" fs) = some annotatorId →
      id = annotatorId := by
    intro annotatorId hread
    rw [named, required_asString.mp hread] at hid
    exact (Option.some.inj hid).symm
  rw [Agrees, hdispatch, typed_iff]
  dsimp only
  constructor
  · rintro (⟨hge, -⟩ | ⟨v, msg, answered, hv, hmsg, hanswer, hredis⟩)
    · exact absurd hge (by decide)
    · rw [hbody] at hv
      cases hv
      obtain ⟨annotatorId, allowed, maxClaims, hread, hallowed, hclaims, rfl⟩ := message_tagged.mp hmsg
      obtain ⟨hfresh, -⟩ := handle_registered.mp hanswer
      rw [redis_registered hfresh] at hredis
      obtain rfl := hsame annotatorId hread
      refine ⟨id, allowed, maxClaims, hread, hallowed, hclaims, ?_⟩
      by_contra htrim
      have hentry := congrFun (congrArg Redis.annotators hredis) (trimmed id)
      simp only [withAnnotator] at hentry
      rw [Function.update_self, Function.update_of_ne htrim, hnew] at hentry
      cases hentry
  · rintro ⟨annotatorId, allowed, maxClaims, hread, hallowed, hclaims, htrim⟩
    obtain rfl := hsame annotatorId hread
    rw [htrim] at hnew ⊢
    refine .inr ⟨.obj fs, .registerAnnotator id allowed maxClaims, id, hbody,
      message_tagged.mpr ⟨id, allowed, maxClaims, hread, hallowed, hclaims, rfl⟩,
      handle_registered.mpr ⟨hnew, rfl⟩, ?_⟩
    rw [redis_registered hnew, strings_index hallowed, asU64_index hclaims]

/-- An error of the client that leaves the registry alone. -/
theorem refused {status : Nat} {P : Prop} (redis : Redis) (code message : String)
    (h : 400 ≤ status ∧ status < 500) :
    (400 ≤ (jsonError status code message).status ∧ (jsonError status code message).status < 500 ∧
      redis = redis) ∨ P :=
  .inl ⟨h.1, h.2, rfl⟩

theorem agrees_iff : Agrees serdeError s env body ↔ Answered s.server.redis body := by
  cases hbody : (decodeUtf8 body).bind Json.parse with
  | none =>
    refine iff_of_true ?_ fun v hv => ?_
    · rw [Agrees, dispatch_invalid s.server.redis hbody]
      exact refused s.server.redis _ _ (by decide)
    · rw [hbody] at hv
      cases hv
  | some v =>
    by_cases hblank : trimmed ((named v).getD "") = ""
    · refine iff_of_true ?_ fun v' hv' => .inl fun id hid => .inl ?_
      · rw [Agrees, dispatch_blank s.server.redis hbody hblank]
        exact refused s.server.redis _ _ (by decide)
      · rw [hbody] at hv'
        cases hv'
        rwa [hid] at hblank
    · cases hentry : s.server.redis.annotators (trimmed ((named v).getD "")) with
      | some a =>
        refine iff_of_true ?_ fun v' hv' => .inl fun id hid => .inr ?_
        · obtain ⟨message, hdispatch⟩ := dispatch_known serdeError env hbody hblank hentry
          rw [Agrees, hdispatch]
          exact refused s.server.redis _ _ (by decide)
        · rw [hbody] at hv'
          cases hv'
          rw [hid] at hentry
          change s.server.redis.annotators (trimmed id) = some a at hentry
          rw [hentry]
          rfl
      | none =>
        obtain ⟨id, hid⟩ : ∃ id, named v = some id := by
          cases hid : named v with
          | none =>
            rw [hid] at hblank
            exact absurd rfl hblank
          | some id => exact ⟨id, rfl⟩
        rw [hid] at hblank hentry
        change trimmed id ≠ "" at hblank
        change s.server.redis.annotators (trimmed id) = none at hentry
        cases v with
        | obj fs =>
          rw [agrees_new hbody hid hblank hentry]
          constructor
          · intro htyped v' hv'
            rw [hbody] at hv'
            cases hv'
            exact .inr ⟨fs, rfl, htyped⟩
          · intro h
            obtain hrefused | ⟨fs', hfs, htyped⟩ := h (.obj fs) hbody
            · obtain hempty | hknown := hrefused id hid
              · exact absurd hempty hblank
              · rw [hentry] at hknown
                cases hknown
            · cases hfs
              exact htyped
        | null | bool _ | num _ | str _ | arr _ => cases hid

end Answers

/-- A request for a new annotator registers what the message would just when every field
has its type, and the id no blanks around it. -/
theorem registration_agrees (serdeError : ByteArray → String) (s : System) (env : OperatorEnv)
    (body : ByteArray) : Agrees serdeError s env body ↔ Answered s.server.redis body :=
  agrees_iff

def request (fs : Fields) : ByteArray := encodeUtf8 (Json.print .compact 0 (.obj fs))

theorem parse_request (fs : Fields) : (decodeUtf8 (request fs)).bind Json.parse = some (.obj fs) := by
  rw [request, decodeUtf8_encode, Option.bind_some, Json.parse_print]

/-- A tenant in place of a list of them, a limit of more than 32 bits and an id with a
blank before it. -/
def misread : List Fields :=
  [[("annotator_id", .str "a"), ("allowed_tenant_ids", .str "t1")],
    [("annotator_id", .str "a"), ("max_concurrent_claims", .num (.ofNat (2 ^ 32)))],
    [("annotator_id", .str " a")]]

theorem registration_disagrees :
    ¬ ∃ fs ∈ misread, Agrees (fun _ => "expected value") (.start (sampleServer [])) lifecycleEnv (request fs) := by
  have hnew : ∀ id, trimmed id = "a" →
      (System.start (sampleServer [])).server.redis.annotators (trimmed id) = none := fun _ _ => rfl
  have ha : trimmed "a" = "a" ∧ trimmed " a" = "a" := by decide +kernel
  have hne : ∀ id, trimmed id = "a" → trimmed id ≠ "" := fun id h => by rw [h]; decide
  rintro ⟨fs, hfs, hagrees⟩
  obtain rfl | rfl | rfl : fs = _ ∨ fs = _ ∨ fs = _ := by simpa [misread] using hfs
  · rw [agrees_new (parse_request _) rfl (hne "a" ha.1) (hnew "a" ha.1)] at hagrees
    obtain ⟨-, hnone | ⟨ids, hids⟩, -⟩ := hagrees
    · cases hnone
    · cases hids
  · rw [agrees_new (parse_request _) rfl (hne "a" ha.1) (hnew "a" ha.1)] at hagrees
    obtain ⟨-, -, hnone | ⟨n, v, hn, hv, hlt⟩⟩ := hagrees
    · cases hnone
    · cases hn
      rw [Json.toNat?_ofNat] at hv
      cases hv
      exact absurd hlt (Nat.lt_irrefl _)
  · rw [agrees_new (parse_request _) rfl (hne " a" ha.2) (hnew " a" ha.2)] at hagrees
    obtain ⟨⟨id, hid, htrim⟩, -⟩ := hagrees
    cases hid
    rw [ha.2] at htrim
    exact absurd htrim (by decide)

end MemoryArchive.Ipc.Management
