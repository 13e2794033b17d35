import Mathlib.Data.List.Perm.Subperm
import MemoryArchive.Data.Table
import MemoryArchive.Ipc.AnnotatorSteps

namespace MemoryArchive.Ipc

open Registry

/-- A claim as it was made. The claim id is a random UUID. -/
structure Claim where
  annotatorId : String
  claimId : String
  colonFree : ColonFree claimId
  nonempty : claimId ≠ ""

def Claim.value (c : Claim) : String := claimValue c.annotatorId c.claimId

/-- The registry holds the values of claims that registered annotators have
made, and a scan returns every key that there is. -/
structure ClaimState (s : Redis) (scan keys : List String) (claims : Table String Claim) : Prop where
  value : ∀ sid, s.claims sid = (claims.get? sid).map Claim.value
  made : ∀ sid c, claims.get? sid = some c → (s.annotators c.annotatorId).isSome
  scan : ∀ sid, sid ∈ scan ↔ (s.claims sid).isSome
  keys : ∀ id, (s.annotators id).isSome → id ∈ keys

def OutboundMessage.code : OutboundMessage → String
  | .error code _ => code
  | _ => ""

/-- Claims go by the identity of the annotator: who may operate on a session,
keep its claim alive or release it, whose claims are counted, and who is listed. -/
structure ByIdentity (s : Server) (scan keys : List String) (claims : Table String Claim) : Prop where
  operation : ∀ a sid env msg, (s.redis.annotators a).isSome → opSession msg = some sid →
    ((handleAnnotatorMessage s env a msg).2.code ≠ "NOT_OWNER" ↔
      ∃ c, claims.get? sid = some c ∧ c.annotatorId = a)
  heartbeat : ∀ a sid id, (s.redis.annotators a).isSome →
    (heartbeatClaim s a sid id = .claimRefreshed sid ↔
      ∃ c, claims.get? sid = some c ∧ c.annotatorId = a ∧ c.claimId = id)
  release : ∀ a sid id, (s.redis.annotators a).isSome →
    ((releaseSession s a sid id).2 = .sessionReleased sid ↔
      ∃ c, claims.get? sid = some c ∧ c.annotatorId = a ∧ c.claimId = id)
  count : ∀ a, (s.redis.annotators a).isSome →
    s.redis.countAnnotatorClaims scan a = (claims.values.filter fun c => c.annotatorId = a).length
  listed : ∀ a, (s.redis.annotators a).isSome →
    a ∈ (s.redis.listAnnotators keys scan).map AnnotatorInfo.annotatorId

theorem code_handleSessionOp (s : Server) (env : Env) (msg : InboundMessage) :
    (handleSessionOp s env msg).2.code ≠ "NOT_OWNER" := by
  cases msg with
  | loadSession sid =>
    simp only [handleSessionOp, loadSession]
    split
    · simp [OutboundMessage.code]
    · split <;> simp [OutboundMessage.code]
  | getSessionStatus sid =>
    simp only [handleSessionOp, getSessionStatus]
    split <;> simp [OutboundMessage.code]
  | fetchFile sid path =>
    simp only [handleSessionOp, fetchFile]
    split
    · simp [OutboundMessage.code]
    split
    · simp [OutboundMessage.code]
    split
    · simp [OutboundMessage.code]
    · split <;> simp [OutboundMessage.code]
  | listSessionFiles sid lead =>
    simp only [handleSessionOp, listSessionFiles]
    split
    · simp [OutboundMessage.code]
    split
    · split <;> simp [OutboundMessage.code]
    · split
      · simp [OutboundMessage.code]
      · split <;> simp [OutboundMessage.code]
  | uploadFile u =>
    simp only [handleSessionOp, uploadFile]
    split
    · simp [OutboundMessage.code]
    split
    · simp [OutboundMessage.code]
    split
    · simp [OutboundMessage.code]
    split
    · simp [OutboundMessage.code]
    split
    · simp [OutboundMessage.code]
    · split <;> simp [OutboundMessage.code]
  | _ => simp [handleSessionOp, OutboundMessage.code]

section Identity

variable {s : Server} {scan keys : List String} {claims : Table String Claim}

theorem handleClaimedOp_code (s : Server) (env : Env) (a sid : String) (msg : InboundMessage)
    (hsid : opSession msg = some sid) :
    (handleAnnotatorMessage s env a msg).2.code ≠ "NOT_OWNER" ↔
      s.redis.getClaimOwner sid = some a := by
  have hmsg : handleAnnotatorMessage s env a msg = handleClaimedOp s env a msg := by
    cases msg with
    | ping | listAnnotationQueue | claimSession _ | heartbeatClaim _ _ | releaseSession _ _ => cases hsid
    | _ => rfl
  rw [hmsg]
  unfold handleClaimedOp
  simp only [hsid]
  by_cases ho : s.redis.getClaimOwner sid = some a
  · simp [ho, code_handleSessionOp]
  · simp [ho, notOwner, OutboundMessage.code]

/-- With ids that have no separator the owner of a claim value is its annotator. -/
theorem owner_iff (h : ClaimState s.redis scan keys claims)
    (hfree : ∀ id, (s.redis.annotators id).isSome → ColonFree id) (a sid : String) :
    s.redis.getClaimOwner sid = some a ↔ ∃ c, claims.get? sid = some c ∧ c.annotatorId = a := by
  rw [Redis.getClaimOwner, h.value]
  cases hc : claims.get? sid with
  | none => simp
  | some c =>
    have hid := (firstSegment_eq_self_iff c.annotatorId).mpr (hfree _ (h.made sid c hc))
    simp [Claim.value, firstSegment_claimValue, hid]

theorem verify_iff (h : ClaimState s.redis scan keys claims)
    (hfree : ∀ id, (s.redis.annotators id).isSome → ColonFree id) (sid id : String) :
    s.redis.verifyClaimId sid id = true ↔ ∃ c, claims.get? sid = some c ∧ c.claimId = id := by
  rw [Redis.verifyClaimId, h.value]
  cases hc : claims.get? sid with
  | none => simp
  | some c =>
    have hann := hfree _ (h.made sid c hc)
    simp [Claim.value, claimValueMatches_claimValue hann c.colonFree c.nonempty, eq_comm]

theorem heartbeatClaim_iff (s : Server) (a sid id : String) :
    heartbeatClaim s a sid id = .claimRefreshed sid ↔
      s.redis.getClaimOwner sid = some a ∧ s.redis.verifyClaimId sid id = true := by
  unfold heartbeatClaim
  by_cases ho : s.redis.getClaimOwner sid = some a
  · by_cases hv : s.redis.verifyClaimId sid id = true <;> simp [ho, hv]
  · simp [ho]

theorem releaseSession_iff (s : Server) (a sid id : String) :
    (releaseSession s a sid id).2 = .sessionReleased sid ↔
      s.redis.getClaimOwner sid = some a ∧ s.redis.verifyClaimId sid id = true := by
  obtain ⟨hnot, code, message, heq⟩ | ⟨hclaim, ⟨r, -, -, heq⟩ | ⟨-, heq⟩⟩ := releaseSession_cases s a sid id
  · rw [heq]
    exact iff_of_false (fun h => by cases h) hnot
  · rw [heq]
    exact iff_of_true rfl hclaim
  · rw [heq]
    exact iff_of_true rfl hclaim

/-- The sessions whose claim an annotator has made. -/
def claimedBy (claims : Table String Claim) (a : String) : List String :=
  (claims.rows.filter fun r => r.2.annotatorId = a).map Prod.fst

theorem length_claimedBy (claims : Table String Claim) (a : String) :
    (claimedBy claims a).length = (claims.values.filter fun c => c.annotatorId = a).length := by
  simp [claimedBy, Table.values, List.filter_map, Function.comp_def]

theorem nodup_claimedBy (claims : Table String Claim) (a : String) : (claimedBy claims a).Nodup := by
  have hsub : (claimedBy claims a).Sublist (claims.rows.map Prod.fst) :=
    (List.filter_sublist).map Prod.fst
  exact (claims.sorted.imp ne_of_lt).sublist hsub

theorem mem_claimedBy (claims : Table String Claim) (a sid : String) :
    sid ∈ claimedBy claims a ↔ ∃ c, claims.get? sid = some c ∧ c.annotatorId = a := by
  simp only [claimedBy, List.mem_map, List.mem_filter, decide_eq_true_eq]
  constructor
  · rintro ⟨⟨_, c⟩, ⟨hm, ha⟩, rfl⟩
    exact ⟨c, (claims.mem_rows_iff _ c).mp hm, ha⟩
  · rintro ⟨c, hc, ha⟩
    exact ⟨(sid, c), ⟨(claims.mem_rows_iff sid c).mpr hc, ha⟩, rfl⟩

/-- What a count goes through: the scanned sessions with a claim of the annotator. -/
def counted (s : Redis) (scan : List String) (a : String) : List String :=
  scan.filter fun sid => (s.claims sid).elim false (countsFor a)

theorem mem_counted (h : ClaimState s.redis scan keys claims)
    (hfree : ∀ id, (s.redis.annotators id).isSome → ColonFree id) {a : String}
    (ha : (s.redis.annotators a).isSome) (sid : String) :
    sid ∈ counted s.redis scan a ↔ sid ∈ claimedBy claims a := by
  rw [mem_claimedBy, counted, List.mem_filter, h.scan, h.value]
  cases hc : claims.get? sid with
  | none => simp
  | some c =>
    simp [Claim.value, countsFor_claimValue (hfree a ha) (hfree _ (h.made sid c hc))]

/-- A scan counts each annotator's claims right if and only if it returns no
key twice. -/
theorem count_iff (h : ClaimState s.redis scan keys claims)
    (hfree : ∀ id, (s.redis.annotators id).isSome → ColonFree id) :
    (∀ a, (s.redis.annotators a).isSome → s.redis.countAnnotatorClaims scan a =
      (claims.values.filter fun c => c.annotatorId = a).length) ↔ scan.Nodup := by
  constructor
  · intro hcount
    refine List.nodup_iff_count_le_one.mpr fun sid => ?_
    by_cases hm : sid ∈ scan
    · obtain ⟨v, hv⟩ := Option.isSome_iff_exists.mp ((h.scan sid).mp hm)
      rw [h.value] at hv
      obtain ⟨c, hc, rfl⟩ := Option.map_eq_some_iff.mp hv
      have hann := h.made sid c hc
      have hmem : sid ∈ counted s.redis scan c.annotatorId :=
        (mem_counted h hfree hann sid).mpr ((mem_claimedBy claims _ sid).mpr ⟨c, hc, rfl⟩)
      have hlen : (counted s.redis scan c.annotatorId).length ≤
          (claimedBy claims c.annotatorId).length := by
        rw [length_claimedBy]
        exact (hcount c.annotatorId hann).le
      have hsub : claimedBy claims c.annotatorId ⊆ counted s.redis scan c.annotatorId :=
        fun id hid => (mem_counted h hfree hann id).mpr hid
      have hperm := ((nodup_claimedBy claims c.annotatorId).subperm hsub).perm_of_length_le hlen
      have hnodup := hperm.nodup (nodup_claimedBy claims c.annotatorId)
      have hsame : (counted s.redis scan c.annotatorId).count sid = scan.count sid :=
        List.count_filter (List.mem_filter.mp hmem).2
      rw [← hsame]
      exact List.nodup_iff_count_le_one.mp hnodup sid
    · rw [List.count_eq_zero_of_not_mem hm]
      omega
  · intro hnodup a ha
    have hperm : (counted s.redis scan a).Perm (claimedBy claims a) :=
      (List.perm_ext_iff_of_nodup (hnodup.filter _) (nodup_claimedBy claims a)).mpr
        (mem_counted h hfree ha)
    rw [← length_claimedBy, ← hperm.length_eq]
    rfl

theorem count_lead : "annotator:".toList.count ':' = 1 := by decide +kernel

theorem count_annotatorKey (id : String) : (annotatorKey id).count ':' = 1 ↔ ColonFree id := by
  have h : (annotatorKey id).count ':' = 1 + id.toList.count ':' := by
    rw [← count_lead]
    exact List.count_append
  rw [h]
  exact Nat.add_eq_left.trans List.count_eq_zero

/-- An annotator is listed just when its id is not empty and has no separator. -/
theorem listed_iff (h : ClaimState s.redis scan keys claims) {a : String}
    (ha : (s.redis.annotators a).isSome) :
    a ∈ (s.redis.listAnnotators keys scan).map AnnotatorInfo.annotatorId ↔ a ≠ "" ∧ ColonFree a := by
  have hkey := count_annotatorKey
  obtain ⟨fields, hf⟩ := Option.isSome_iff_exists.mp ha
  simp only [Redis.listAnnotators, List.mem_map, List.mem_insertionSort, List.mem_filterMap]
  constructor
  · rintro ⟨info, ⟨id, -, hinfo⟩, rfl⟩
    split at hinfo
    · rename_i hcount
      cases hid : s.redis.annotators id with
      | none => rw [hid] at hinfo; cases hinfo
      | some f =>
        by_cases hne : id = ""
        · simp only [hid, if_pos hne] at hinfo
          cases hinfo
        · simp only [hid, if_neg hne, Option.some.injEq] at hinfo
          subst hinfo
          exact ⟨hne, (hkey id).mp hcount⟩
    · cases hinfo
  · rintro ⟨hne, hfree⟩
    refine ⟨⟨a, fields.status, s.redis.countAnnotatorClaims scan a, fields.lastAuthAt,
      fields.allowedTenantIds, fields.maxConcurrentClaims⟩, ⟨a, h.keys a ha, ?_⟩, rfl⟩
    rw [if_pos ((hkey a).mpr hfree)]
    simp [hf, hne]

end Identity

/-- In every state of the claims the program goes by the identity of the
annotators if and only if no registered id is empty or holds the separator, and
the scan of the claim keys returned none of them twice. -/
theorem claims_byIdentity_iff (s : Server) (scan keys : List String) (claims : Table String Claim)
    (h : ClaimState s.redis scan keys claims) :
    ByIdentity s scan keys claims ↔
      (∀ a, (s.redis.annotators a).isSome → a ≠ "" ∧ ColonFree a) ∧ scan.Nodup := by
  constructor
  · intro hid
    have hfree : ∀ a, (s.redis.annotators a).isSome → a ≠ "" ∧ ColonFree a :=
      fun a ha => (listed_iff h ha).mp (hid.listed a ha)
    exact ⟨hfree, (count_iff h fun a ha => (hfree a ha).2).mp hid.count⟩
  · rintro ⟨hfree, hnodup⟩
    have hcolon : ∀ a, (s.redis.annotators a).isSome → ColonFree a := fun a ha => (hfree a ha).2
    have hboth : ∀ a sid id, s.redis.getClaimOwner sid = some a ∧ s.redis.verifyClaimId sid id = true ↔
        ∃ c, claims.get? sid = some c ∧ c.annotatorId = a ∧ c.claimId = id := by
      intro a sid id
      rw [owner_iff h hcolon, verify_iff h hcolon]
      constructor
      · rintro ⟨⟨c, hc, ha⟩, c', hc', hi⟩
        rw [hc] at hc'
        cases hc'
        exact ⟨c, hc, ha, hi⟩
      · rintro ⟨c, hc, ha, hi⟩
        exact ⟨⟨c, hc, ha⟩, c, hc, hi⟩
    exact {
      operation := fun a sid env msg _ hsid => by
        rw [handleClaimedOp_code s env a sid msg hsid, owner_iff h hcolon]
      heartbeat := fun a sid id _ => by rw [heartbeatClaim_iff, hboth]
      release := fun a sid id _ => by rw [releaseSession_iff, hboth]
      count := (count_iff h hcolon).mpr hnodup
      listed := fun a ha => (listed_iff h ha).mpr (hfree a ha) }

/-- A registry of annotators of which one has claimed the session s1. -/
def claimedRedis (ids : List String) (claims : Table String Claim) : Redis where
  sessions _ := .absent
  index _ := []
  claims sid := (claims.get? sid).map Claim.value
  annotators id := if id ∈ ids then some ⟨"active", [], 0, ""⟩ else none

def claimOf (annotatorId : String) : Table String Claim :=
  Table.empty.insert "s1" ⟨annotatorId, "5c1b", by decide +kernel, by decide⟩

theorem claimState_claimedRedis (annotatorId other : String) :
    ClaimState (claimedRedis [annotatorId, other] (claimOf annotatorId)) ["s1"] [annotatorId, other]
      (claimOf annotatorId) := by
  refine ⟨fun _ => rfl, fun sid c hc => ?_, fun sid => ?_, fun id hid => ?_⟩
  · rw [claimOf, Table.get?_insert] at hc
    split at hc
    · cases hc
      simp [claimedRedis]
    · cases hc
  · by_cases hs : sid = "s1" <;>
      simp [claimedRedis, claimOf, Table.get?_insert, Table.get?_empty, hs]
  · by_cases hm : id ∈ [annotatorId, other]
    · exact hm
    · change (if id ∈ [annotatorId, other] then some _ else none).isSome at hid
      rw [if_neg hm] at hid
      cases hid

def claimedServer (ids : List String) (claims : Table String Claim) : Server where
  storageMode := "local"
  router := ⟨["local"], [], Storage.local_ne_nil⟩
  redis := claimedRedis ids claims
  files _ := none

theorem claims_byIdentity_sample :
    ByIdentity (claimedServer ["ann", "bob"] (claimOf "ann")) ["s1"] ["ann", "bob"] (claimOf "ann") := by
  refine (claims_byIdentity_iff (claimedServer ["ann", "bob"] (claimOf "ann")) _ _ _
    (claimState_claimedRedis "ann" "bob")).mpr ⟨fun a ha => ?_, by simp⟩
  have hm : a ∈ ["ann", "bob"] := (claimState_claimedRedis "ann" "bob").keys a ha
  have hall : ∀ id ∈ ["ann", "bob"], id ≠ "" ∧ ColonFree id := by decide +kernel
  exact hall a hm

/-- An annotator whose id holds the separator is refused on the session that it
has claimed. -/
theorem separator_in_id_loses_claim :
    ClaimState (claimedServer ["team:ann", "bob"] (claimOf "team:ann")).redis ["s1"]
        ["team:ann", "bob"] (claimOf "team:ann") ∧
      ¬ ByIdentity (claimedServer ["team:ann", "bob"] (claimOf "team:ann")) ["s1"]
        ["team:ann", "bob"] (claimOf "team:ann") := by
  refine ⟨claimState_claimedRedis "team:ann" "bob", fun h => ?_⟩
  have hrefresh := (h.heartbeat "team:ann" "s1" "5c1b" (by decide)).mpr ⟨_, rfl, rfl, rfl⟩
  revert hrefresh
  decide +kernel

end MemoryArchive.Ipc
