import MemoryArchive.Ipc.Annotator
import MemoryArchive.Registry.Commands

namespace MemoryArchive.Ipc.ClaimSteps

open Interleaving Registry Runs

/-- The registry as the handlers of claims see it between their commands. `live` is an
account of the claims that were granted and have not ended, of which session and to whom,
`loaded` of who has loaded a session since its claim, `answers` of what was answered to
whom. -/
structure Shared where
  redis : Redis
  live : List (String × String)
  loaded : String → Option String
  answers : List (String × OutboundMessage)

/-- The messages about the claim of one session, and the end of its time to live. What a
ClaimSession finds as the oldest session, and the order in which its script meets the
claim keys, may be anything. -/
inductive Call
  | releaseSession (annotatorId sid claimId : String)
  | heartbeatClaim (annotatorId sid claimId : String)
  | claimSession (annotatorId sid claimId : String) (scan : List String)
  | loadSession (annotatorId sid : String)
  | expire (sid : String)

/-- A call before its next command, named after it. -/
inductive Task
  | releaseOwner (annotatorId sid claimId : String)
  | releaseVerify (annotatorId sid claimId : String)
  | releaseDel (annotatorId sid : String)
  | releaseHgetall (annotatorId sid : String)
  | releaseUpdate (annotatorId sid : String) (command : Registry.Task)
  | heartbeatOwner (annotatorId sid claimId : String)
  | heartbeatGet (annotatorId sid claimId : String)
  | heartbeatExpire (annotatorId sid : String)
  | claimFields (annotatorId sid claimId : String) (scan : List String)
  | claimEval (annotatorId sid claimId : String) (scan : List String) (maxClaims : Nat)
  | loadOwner (annotatorId sid : String)
  | loadHgetall (annotatorId sid : String)
  | loadUpdate (annotatorId sid : String) (record : SessionRecord) (command : Registry.Task)
  | expired (sid : String)

def Call.start : Call → Task
  | .releaseSession annotatorId sid claimId => .releaseOwner annotatorId sid claimId
  | .heartbeatClaim annotatorId sid claimId => .heartbeatOwner annotatorId sid claimId
  | .claimSession annotatorId sid claimId scan => .claimFields annotatorId sid claimId scan
  | .loadSession annotatorId sid => .loadOwner annotatorId sid
  | .expire sid => .expired sid

def Task.fresh : Task → Bool
  | .releaseOwner _ _ _ | .heartbeatOwner _ _ _ | .claimFields _ _ _ _ | .loadOwner _ _
  | .expired _ => true
  | _ => false

namespace Shared

variable (s : Shared)

def answer (annotatorId : String) (msg : OutboundMessage) : Shared × Option Task :=
  ({ s with answers := s.answers ++ [(annotatorId, msg)] }, none)

/-- The claim key of a session is gone, by DEL or by its time to live. -/
def drop (sid : String) : Shared :=
  { s with redis := s.redis.releaseClaim sid, live := s.live.filter (·.1 ≠ sid) }

/-- Who was granted the live claim of a session. -/
def maker (sid : String) : Option String := s.live.lookup sid

/-- One command of `update_status`. -/
def update (command : Registry.Task) : Shared := { s with redis := (command.step s.redis).1 }

def step : Task → Shared × Option Task
  | .releaseOwner annotatorId sid claimId =>
      if s.redis.getClaimOwner sid = some annotatorId then (s, some (.releaseVerify annotatorId sid claimId))
      else s.answer annotatorId (.error "NOT_OWNER" "You do not hold the claim for this session.")
  | .releaseVerify annotatorId sid claimId =>
      if s.redis.verifyClaimId sid claimId then (s, some (.releaseDel annotatorId sid))
      else s.answer annotatorId (.error "CLAIM_MISMATCH" "Claim ID does not match.")
  | .releaseDel annotatorId sid => (s.drop sid, some (.releaseHgetall annotatorId sid))
  | .releaseHgetall annotatorId sid =>
      if (s.redis.get sid).toOption.map SessionRecord.status = some .annotating then
        (s, some (.releaseUpdate annotatorId sid (.updateHget sid SessionStatus.pendingHumanAnnotation)))
      else s.answer annotatorId (.sessionReleased sid)
  | .releaseUpdate annotatorId sid command =>
      match (command.step s.redis).2 with
      | some next => (s.update command, some (.releaseUpdate annotatorId sid next))
      | none => (s.update command).answer annotatorId (.sessionReleased sid)
  | .heartbeatOwner annotatorId sid claimId =>
      if s.redis.getClaimOwner sid = some annotatorId then (s, some (.heartbeatGet annotatorId sid claimId))
      else s.answer annotatorId (.error "NOT_OWNER" "You do not hold the claim for this session.")
  | .heartbeatGet annotatorId sid claimId =>
      if s.redis.verifyClaimId sid claimId then (s, some (.heartbeatExpire annotatorId sid))
      else s.answer annotatorId (.error "CLAIM_LOST" (s!"Claim on session '{sid}' has expired or was " ++
        "released. Return to queue: memory-archive annotator queue"))
  -- EXPIRE sets the time to live of whatever claim there is now; of none it sets nothing.
  | .heartbeatExpire annotatorId sid => s.answer annotatorId (.claimRefreshed sid)
  | .claimFields annotatorId sid claimId scan =>
      (s, some (.claimEval annotatorId sid claimId scan (maxClaims s.redis annotatorId)))
  | .claimEval annotatorId sid claimId scan maxClaims =>
      match s.redis.claimScript scan sid annotatorId claimId maxClaims with
      | (redis, .ok) =>
          { s with
            redis := redis
            live := s.live ++ [(sid, annotatorId)]
            loaded := Function.update s.loaded sid none }.answer annotatorId (.sessionClaimed sid claimId)
      | (_, .taken) => s.answer annotatorId (.claimConflict sid)
      | (_, .limit count) => s.answer annotatorId (.claimLimitReached annotatorId count maxClaims)
  | .loadOwner annotatorId sid =>
      if s.redis.getClaimOwner sid = some annotatorId then (s, some (.loadHgetall annotatorId sid))
      else s.answer annotatorId (notOwner sid)
  | .loadHgetall annotatorId sid =>
      match s.redis.get sid with
      | .error e => s.answer annotatorId (.error "SESSION_NOT_FOUND" e)
      | .ok r =>
          if r.status = SessionStatus.pendingHumanAnnotation ∨ r.status = .annotating then
            (s, some (.loadUpdate annotatorId sid r (.updateHget sid .annotating)))
          else
            s.answer annotatorId (.error "INVALID_STATUS"
              s!"Session '{sid}' has status '{r.status.text}' — cannot load for annotation.")
  | .loadUpdate annotatorId sid r command =>
      let s' :=
        match command with
        | .updateHset _ _ =>
            { s.update command with loaded := Function.update s.loaded sid (some annotatorId) }
        | _ => s.update command
      match (command.step s.redis).2 with
      | some next => (s', some (.loadUpdate annotatorId sid r next))
      | none => s'.answer annotatorId (.sessionLoaded sid r.memoryPath (r.status = .annotating))
  | .expired sid => (s.drop sid, none)

end Shared

/-- The handlers of claims, whose commands may be interleaved. -/
def machine : Machine Call Shared Task Unit where
  start := Call.start
  step := Shared.step
  key _ := ()
  fresh := Task.fresh
  fresh_start c := by cases c <;> rfl

abbrev State := Interleaving.State Shared Task

/-- Another annotator holds the claim and has loaded the session under it. -/
def Shared.LoadedByOther (s : Shared) (annotatorId sid : String) : Prop :=
  ∃ other, other ≠ annotatorId ∧ s.maker sid = some other ∧ s.loaded sid = some other

/-- A release deletes no claim of another annotator, and does not move to the queue what
another has claimed and loaded since. A heartbeat extends, and answers for, a live claim
of its own annotator. -/
def Lawful (s : Shared) : Task → Prop
  | .releaseDel annotatorId sid => ∀ other, s.maker sid = some other → other = annotatorId
  | .releaseUpdate annotatorId sid (.updateHset _ _) | .releaseUpdate annotatorId sid (.updateSadd _ _) =>
      ¬ s.LoadedByOther annotatorId sid
  | .heartbeatExpire annotatorId sid => s.maker sid = some annotatorId
  | _ => True

/-- A release that may still move its session to the queue. -/
def Task.moves : Task → Option (String × String)
  | .releaseHgetall annotatorId sid => some (annotatorId, sid)
  | .releaseUpdate _ _ (.updatePersist _) => none
  | .releaseUpdate annotatorId sid _ => some (annotatorId, sid)
  | _ => none

/-- The claim id that a message whose owner has been checked is about to compare. -/
def Task.names : Task → Option (String × String × String)
  | .releaseVerify annotatorId sid claimId | .heartbeatGet annotatorId sid claimId =>
      some (annotatorId, sid, claimId)
  | _ => none

/-- What a call may assume where it sends its next command, beside tasks `others`. The
claim key goes away only while no heartbeat is about to extend it. A claim is granted to
an id without the separator, while no other annotator's release is about to delete the
key and no other's message is about to compare the new claim id. A session is loaded while
no other annotator's release may still move it to the queue. -/
def Safe (s : Shared) (others : List Task) : Task → Prop
  | .releaseDel _ sid | .expired sid => ∀ t ∈ others, ∀ a, t ≠ .heartbeatExpire a sid
  | .claimEval annotatorId sid claimId scan maxClaims =>
      (s.redis.claimScript scan sid annotatorId claimId maxClaims).2 = .ok →
        ColonFree annotatorId ∧ ∀ t ∈ others,
          (∀ a, t = .releaseDel a sid → a = annotatorId) ∧
            ∀ a id, t.names = some (a, sid, id) → a = annotatorId ∨
              claimValueMatches (claimValue annotatorId claimId) id = false
  | .loadUpdate annotatorId sid _ (.updateHset _ _) =>
      ∀ t ∈ others, ∀ a, t.moves = some (a, sid) → a = annotatorId
  | _ => True

/-- What a call knows where it sends its next command. -/
def Shared.At (s : Shared) : Task → Prop
  | .releaseVerify annotatorId sid claimId | .heartbeatGet annotatorId sid claimId =>
      ∀ v, s.redis.claims sid = some v → claimValueMatches v claimId = true → s.maker sid = some annotatorId
  | .releaseDel annotatorId sid => ∀ other, s.maker sid = some other → other = annotatorId
  | .releaseHgetall annotatorId sid => ¬ s.LoadedByOther annotatorId sid
  | .releaseUpdate annotatorId sid command =>
      command.isUpdate = true ∧
        ((Task.releaseUpdate annotatorId sid command).moves.isSome = true → ¬ s.LoadedByOther annotatorId sid)
  | .heartbeatExpire annotatorId sid => s.maker sid = some annotatorId
  | .loadUpdate _ _ _ command => command.isUpdate = true
  | _ => True

/-- The account tells the claims there are and who made each. -/
structure Accounted (s : Shared) : Prop where
  claims : ∀ sid v, s.redis.claims sid = some v →
    ∃ b id, v = claimValue b id ∧ s.maker sid = some b ∧ ColonFree b
  makers : ∀ sid, s.redis.claims sid = none → s.maker sid = none
  once : (s.live.map Prod.fst).Nodup

/-- The invariant of runs: the account is right, and each call is at its place. -/
structure InOrder (s : Shared) (ts : List Task) : Prop where
  accounted : Accounted s
  place : ∀ t ∈ ts, s.At t

/-- A step that leaves claims and account as they are. -/
structure SameClaims (s s' : Shared) : Prop where
  claims : s'.redis.claims = s.redis.claims
  live : s'.live = s.live
  loaded : s'.loaded = s.loaded

section Steps

variable {s s' : Shared} {t : Task} {others : List Task} {annotatorId sid claimId : String}

theorem SameClaims.refl (s : Shared) : SameClaims s s := ⟨rfl, rfl, rfl⟩

theorem maker_of_live (h : s'.live = s.live) : s'.maker = s.maker := by
  funext sid
  rw [Shared.maker, Shared.maker, h]

theorem Accounted.same (h : Accounted s) (hclaims : s'.redis.claims = s.redis.claims)
    (hlive : s'.live = s.live) : Accounted s' := by
  refine ⟨fun sid v hv => ?_, fun sid hnone => ?_, by rw [hlive]; exact h.once⟩
  · rw [maker_of_live hlive]
    exact h.claims sid v (hclaims ▸ hv)
  · rw [maker_of_live hlive]
    exact h.makers sid (hclaims ▸ hnone)

theorem SameClaims.maker (h : SameClaims s s') : s'.maker = s.maker := maker_of_live h.live

theorem at_of_same (h : SameClaims s s') (ht : s.At t) : s'.At t := by
  have hother : ∀ a sid, s'.LoadedByOther a sid ↔ s.LoadedByOther a sid := by
    intro a sid
    rw [Shared.LoadedByOther, Shared.LoadedByOther, h.maker, h.loaded]
  cases t with
  | releaseVerify a sid id | heartbeatGet a sid id =>
    intro v hv hm
    rw [h.maker]
    exact ht v (h.claims ▸ hv) hm
  | releaseDel a sid =>
    intro other ho
    exact ht other (h.maker ▸ ho)
  | releaseHgetall a sid => exact fun ho => ht ((hother a sid).mp ho)
  | releaseUpdate a sid command => exact ⟨ht.1, fun hm ho => ht.2 hm ((hother a sid).mp ho)⟩
  | heartbeatExpire a sid =>
    change s'.maker sid = some a
    rw [h.maker]
    exact ht
  | loadUpdate _ _ _ command => exact ht
  | releaseOwner _ _ _ | heartbeatOwner _ _ _ | claimFields _ _ _ _ | claimEval _ _ _ _ _ | loadOwner _ _
  | loadHgetall _ _ | expired _ => trivial

/-- A call goes on, or has ended, while claims and account stay. -/
theorem InOrder.same (h : InOrder s (t :: others)) (hsame : SameClaims s s') (next : Option Task)
    (hnext : ∀ t' ∈ next, s.At t') : InOrder s' (next.toList ++ others) := by
  refine ⟨h.accounted.same hsame.claims hsame.live, fun t' ht' => ?_⟩
  obtain ht' | ht' := List.mem_append.mp ht'
  · exact at_of_same hsame (hnext t' (Option.mem_toList.mp ht'))
  · exact at_of_same hsame (h.place t' (List.mem_cons_of_mem t ht'))

theorem InOrder.goes (h : InOrder s (t :: others)) (t' : Task) (ht' : s.At t') :
    InOrder s (t' :: others) := by
  refine h.same (SameClaims.refl s) (some t') fun u hu => ?_
  cases hu
  exact ht'

theorem InOrder.answer (h : InOrder s (t :: others)) (a : String) (msg : OutboundMessage) :
    InOrder (s.answer a msg).1 ((s.answer a msg).2.toList ++ others) := by
  have hsame : SameClaims s (s.answer a msg).1 := ⟨rfl, rfl, rfl⟩
  exact h.same hsame none fun _ hu => (by cases hu)

/-- Whoever holds a claim is the owner that is read from it. -/
theorem Accounted.owner (h : Accounted s) (ho : s.redis.getClaimOwner sid = some annotatorId) :
    s.maker sid = some annotatorId := by
  obtain ⟨v, hv, hseg⟩ := Option.map_eq_some_iff.mp ho
  obtain ⟨b, id, rfl, hmaker, hfree⟩ := h.claims sid v hv
  rw [firstSegment_claimValue, (firstSegment_eq_self_iff b).mpr hfree] at hseg
  rw [hmaker, hseg]

theorem verified {id : String} (h : s.At (.releaseVerify annotatorId sid id))
    (hv : s.redis.verifyClaimId sid id = true) : s.maker sid = some annotatorId := by
  rw [Redis.verifyClaimId] at hv
  cases hc : s.redis.claims sid with
  | none =>
    rw [hc] at hv
    cases hv
  | some v =>
    rw [hc] at hv
    exact h v hc hv

theorem drop_maker_self (s : Shared) (sid : String) : (s.drop sid).maker sid = none := by
  refine List.lookup_eq_none_iff.mpr fun entry hentry => ?_
  obtain ⟨-, hne⟩ := List.mem_filter.mp hentry
  exact bne_iff_ne.mpr (Ne.symm (of_decide_eq_true hne))

theorem drop_maker_of_ne {sid' : String} (h : sid' ≠ sid) : (s.drop sid).maker sid' = s.maker sid' :=
  lookup_filter (fun key => decide (key ≠ sid)) (decide_eq_true h) s.live

theorem drop_maker {sid' b : String} (h : (s.drop sid).maker sid' = some b) : s.maker sid' = some b := by
  by_cases hsid : sid' = sid
  · rw [hsid, drop_maker_self] at h
    cases h
  · rwa [drop_maker_of_ne hsid] at h

theorem drop_claims {sid' v : String} (h : (s.drop sid).redis.claims sid' = some v) :
    sid' ≠ sid ∧ s.redis.claims sid' = some v := by
  change Function.update s.redis.claims sid none sid' = some v at h
  rw [Function.update_apply] at h
  split at h
  · cases h
  · rename_i hne
    exact ⟨hne, h⟩

/-- The account goes with the claim key. -/
theorem Accounted.drop (h : Accounted s) (sid : String) : Accounted (s.drop sid) := by
  refine ⟨fun sid' v hv => ?_, fun sid' hnone => ?_, ?_⟩
  · obtain ⟨hsid, hv⟩ := drop_claims hv
    rw [drop_maker_of_ne hsid]
    exact h.claims sid' v hv
  · by_cases hsid : sid' = sid
    · rw [hsid, drop_maker_self]
    · rw [drop_maker_of_ne hsid]
      refine h.makers sid' ?_
      rw [← hnone]
      exact (Function.update_of_ne hsid _ _).symm
  · exact h.once.sublist (List.filter_sublist.map Prod.fst)

theorem drop_loadedByOther {sid' : String} (h : (s.drop sid).LoadedByOther annotatorId sid') :
    s.LoadedByOther annotatorId sid' := by
  obtain ⟨other, hne, hmaker, hloaded⟩ := h
  exact ⟨other, hne, drop_maker hmaker, hloaded⟩

theorem at_of_dropped (hne : ∀ a, t ≠ .heartbeatExpire a sid) (ht : s.At t) : (s.drop sid).At t := by
  cases t with
  | releaseVerify a sid' id | heartbeatGet a sid' id =>
    intro v hv hm
    obtain ⟨hsid, hv⟩ := drop_claims hv
    rw [drop_maker_of_ne hsid]
    exact ht v hv hm
  | releaseDel a sid' => exact fun other ho => ht other (drop_maker ho)
  | releaseHgetall a sid' => exact fun ho => ht (drop_loadedByOther ho)
  | releaseUpdate a sid' command => exact ⟨ht.1, fun hm ho => ht.2 hm (drop_loadedByOther ho)⟩
  | heartbeatExpire a sid' =>
    have hsid : sid' ≠ sid := fun he => hne a (by rw [he])
    exact (drop_maker_of_ne hsid).trans ht
  | loadUpdate _ _ _ command => exact ht
  | releaseOwner _ _ _ | heartbeatOwner _ _ _ | claimFields _ _ _ _ | claimEval _ _ _ _ _ | loadOwner _ _
  | loadHgetall _ _ | expired _ => trivial

/-- The claim key of a session goes away while no heartbeat is about to extend it. -/
theorem InOrder.drop (h : InOrder s (t :: others)) (hsafe : ∀ t ∈ others, ∀ a, t ≠ .heartbeatExpire a sid)
    (next : Option Task) (hnext : ∀ t' ∈ next, (s.drop sid).At t') :
    InOrder (s.drop sid) (next.toList ++ others) := by
  refine ⟨h.accounted.drop sid, fun t' ht' => ?_⟩
  obtain ht' | ht' := List.mem_append.mp ht'
  · exact hnext t' (Option.mem_toList.mp ht')
  · exact at_of_dropped (hsafe t' ht') (h.place t' (List.mem_cons_of_mem t ht'))

theorem claimScript_ok {redis : Redis} {scan : List String} {maxClaims : Nat}
    (h : (redis.claimScript scan sid annotatorId claimId maxClaims).2 = .ok) :
    redis.claims sid = none ∧
      (redis.claimScript scan sid annotatorId claimId maxClaims).1.claims =
        Function.update redis.claims sid (some (claimValue annotatorId claimId)) := by
  rw [Redis.claimScript] at h ⊢
  split at h
  · cases h
  · rename_i hlimit
    rw [if_neg hlimit]
    cases hclaim : redis.claims sid with
    | some v =>
      rw [hclaim] at h
      cases h
    | none => exact ⟨rfl, rfl⟩

/-- The new claim of a session that had none. -/
structure Granted (s s' : Shared) (annotatorId sid claimId : String) : Prop where
  free : s.redis.claims sid = none
  claims : s'.redis.claims = Function.update s.redis.claims sid (some (claimValue annotatorId claimId))
  live : s'.live = s.live ++ [(sid, annotatorId)]
  loaded : s'.loaded = Function.update s.loaded sid none

theorem Granted.maker (h : Granted s s' annotatorId sid claimId) (hnone : s.maker sid = none) :
    s'.maker = Function.update s.maker sid (some annotatorId) := by
  funext sid'
  rw [Function.update_apply, Shared.maker, h.live, List.lookup_append, List.lookup_singleton]
  change (s.maker sid').or (if (sid' == sid) = true then some annotatorId else none) = _
  by_cases hsid : sid' = sid
  · rw [hsid, hnone, if_pos (beq_self_eq_true sid), if_pos rfl, Option.none_or]
  · rw [if_neg (by simpa using hsid), if_neg hsid, Option.or_none]

theorem Granted.not_loadedByOther {a sid' : String} (h : Granted s s' annotatorId sid claimId)
    (hnone : s.maker sid = none) (hno : ¬ s.LoadedByOther a sid') : ¬ s'.LoadedByOther a sid' := by
  rintro ⟨other, hne, hmaker, hloaded⟩
  rw [h.loaded, Function.update_apply] at hloaded
  split at hloaded
  · cases hloaded
  · rename_i hsid
    rw [h.maker hnone, Function.update_of_ne hsid] at hmaker
    exact hno ⟨other, hne, hmaker, hloaded⟩

/-- A call whose place allows the grant keeps it. -/
theorem Granted.at (h : Granted s s' annotatorId sid claimId) (hnone : s.maker sid = none)
    (hdel : ∀ a, t = .releaseDel a sid → a = annotatorId)
    (hnames : ∀ a id, t.names = some (a, sid, id) → a = annotatorId ∨
      claimValueMatches (claimValue annotatorId claimId) id = false) (ht : s.At t) : s'.At t := by
  have hverify : ∀ a sid' id, t.names = some (a, sid', id) →
      (∀ v, s.redis.claims sid' = some v → claimValueMatches v id = true → s.maker sid' = some a) →
      ∀ v, s'.redis.claims sid' = some v → claimValueMatches v id = true → s'.maker sid' = some a := by
    intro a sid' id hn hold v hv hm
    rw [h.claims, Function.update_apply] at hv
    rw [h.maker hnone, Function.update_apply]
    split at hv
    · rename_i hsid
      subst hsid
      cases hv
      rw [if_pos rfl]
      obtain ha | hfalse := hnames a id hn
      · rw [ha]
      · rw [hfalse] at hm
        cases hm
    · rename_i hsid
      rw [if_neg hsid]
      exact hold v hv hm
  cases t with
  | releaseVerify a sid' id | heartbeatGet a sid' id => exact hverify a sid' id rfl ht
  | releaseDel a sid' =>
    intro other ho
    rw [h.maker hnone, Function.update_apply] at ho
    split at ho
    · rename_i hsid
      subst hsid
      cases ho
      exact (hdel a rfl).symm
    · exact ht other ho
  | releaseHgetall a sid' => exact h.not_loadedByOther hnone ht
  | releaseUpdate a sid' command => exact ⟨ht.1, fun hm => h.not_loadedByOther hnone (ht.2 hm)⟩
  | heartbeatExpire a sid' =>
    have hsid : sid' ≠ sid := by
      rintro rfl
      rw [Shared.At, hnone] at ht
      cases ht
    change s'.maker sid' = some a
    rw [h.maker hnone, Function.update_of_ne hsid]
    exact ht
  | loadUpdate _ _ _ command => exact ht
  | releaseOwner _ _ _ | heartbeatOwner _ _ _ | claimFields _ _ _ _ | claimEval _ _ _ _ _ | loadOwner _ _
  | loadHgetall _ _ | expired _ => trivial

theorem Accounted.granted (h : Accounted s) (hg : Granted s s' annotatorId sid claimId)
    (hcolon : ColonFree annotatorId) : Accounted s' := by
  have hmaker := hg.maker (h.makers sid hg.free)
  refine ⟨fun sid' v hv => ?_, fun sid' hnone => ?_, ?_⟩
  · rw [hg.claims, Function.update_apply] at hv
    rw [hmaker, Function.update_apply]
    split at hv
    · rename_i hsid
      cases hv
      exact ⟨annotatorId, claimId, rfl, if_pos hsid, hcolon⟩
    · rename_i hsid
      rw [if_neg hsid]
      exact h.claims sid' v hv
  · rw [hg.claims, Function.update_apply] at hnone
    rw [hmaker, Function.update_apply]
    split at hnone
    · cases hnone
    · rename_i hsid
      rw [if_neg hsid]
      exact h.makers sid' hnone
  · rw [hg.live, List.map_append, List.nodup_append]
    refine ⟨h.once, List.nodup_singleton sid, fun sid' hmem other hother => ?_⟩
    obtain ⟨entry, hentry, rfl⟩ := List.mem_map.mp hmem
    have hne := List.lookup_eq_none_iff.mp (h.makers sid hg.free) entry hentry
    rw [List.mem_singleton.mp hother]
    rintro rfl
    simp at hne

theorem InOrder.granted (h : InOrder s (t :: others)) (hg : Granted s s' annotatorId sid claimId)
    (hcolon : ColonFree annotatorId)
    (hothers : ∀ t ∈ others, (∀ a, t = .releaseDel a sid → a = annotatorId) ∧
      ∀ a id, t.names = some (a, sid, id) → a = annotatorId ∨
        claimValueMatches (claimValue annotatorId claimId) id = false) : InOrder s' others := by
  refine ⟨h.accounted.granted hg hcolon, fun t' ht' => ?_⟩
  obtain ⟨hdel, hnames⟩ := hothers t' ht'
  exact hg.at (h.accounted.makers sid hg.free) hdel hnames (h.place t' (List.mem_cons_of_mem t ht'))

/-- A release that goes on after a command could move its session before it. -/
theorem moves_before {redis : Redis} {command next : Registry.Task} (hu : command.isUpdate = true)
    (hnext : (command.step redis).2 = some next) :
    (Task.releaseUpdate annotatorId sid command).moves.isSome = true := by
  cases command with
  | updatePersist _ => cases hnext
  | updateHget _ _ | updateSrem _ _ _ | updateHset _ _ | updateSadd _ _ => rfl
  | registerExists _ | registerHset _ | registerSadd _ | deleteDel _ | deleteSrem _ _ => cases hu

/-- The session is loaded while no other annotator's release may still move it. -/
theorem at_of_loaded (hclaims : s'.redis.claims = s.redis.claims) (hmaker : s'.maker = s.maker)
    (hloaded : s'.loaded = Function.update s.loaded sid (some annotatorId))
    (hmoves : ∀ a, t.moves = some (a, sid) → a = annotatorId) (ht : s.At t) : s'.At t := by
  have hother : ∀ a sid', t.moves = some (a, sid') → ¬ s.LoadedByOther a sid' →
      ¬ s'.LoadedByOther a sid' := by
    rintro a sid' hm hno ⟨other, hne, hmade, hload⟩
    rw [hmaker] at hmade
    rw [hloaded, Function.update_apply] at hload
    split at hload
    · rename_i hsid
      subst hsid
      cases hload
      exact hne (hmoves a hm).symm
    · exact hno ⟨other, hne, hmade, hload⟩
  cases t with
  | releaseVerify a sid' id | heartbeatGet a sid' id =>
    intro v hv hm
    rw [hmaker]
    exact ht v (hclaims ▸ hv) hm
  | releaseDel a sid' => exact fun other ho => ht other (hmaker ▸ ho)
  | releaseHgetall a sid' => exact hother a sid' rfl ht
  | releaseUpdate a sid' command =>
    refine ⟨ht.1, fun hm => hother a sid' ?_ (ht.2 hm)⟩
    cases command with
    | updatePersist _ => cases hm
    | _ => rfl
  | heartbeatExpire a sid' =>
    change s'.maker sid' = some a
    rw [hmaker]
    exact ht
  | loadUpdate _ _ _ command => exact ht
  | releaseOwner _ _ _ | heartbeatOwner _ _ _ | claimFields _ _ _ _ | claimEval _ _ _ _ _ | loadOwner _ _
  | loadHgetall _ _ | expired _ => trivial

theorem step_loadUpdate {r : SessionRecord} {command : Registry.Task}
    (hne : ∀ sid' new, command ≠ .updateHset sid' new) :
    s.step (.loadUpdate annotatorId sid r command) =
      match (command.step s.redis).2 with
      | some next => (s.update command, some (.loadUpdate annotatorId sid r next))
      | none =>
          (s.update command).answer annotatorId
            (.sessionLoaded sid r.memoryPath (r.status = .annotating)) := by
  cases command with
  | updateHset sid' new => exact absurd rfl (hne sid' new)
  | _ => rfl

/-- One command of the update that a LoadSession makes: claims and account stay, and another
command of the update may follow. -/
structure LoadStep (s : Shared) (annotatorId sid : String) (r : SessionRecord) (out : Shared × Option Task) :
    Prop where
  claims : out.1.redis.claims = s.redis.claims
  annotators : out.1.redis.annotators = s.redis.annotators
  live : out.1.live = s.live
  next : ∀ t ∈ out.2, ∃ command, t = .loadUpdate annotatorId sid r command ∧ command.isUpdate = true

theorem loadStep {r : SessionRecord} {command : Registry.Task} (hu : command.isUpdate = true) :
    LoadStep s annotatorId sid r (s.step (.loadUpdate annotatorId sid r command)) := by
  have hclaims : (s.update command).redis.claims = s.redis.claims := update_claims hu
  have hann : (s.update command).redis.annotators = s.redis.annotators := step_annotators s.redis command
  have hgoes : ∀ next, (command.step s.redis).2 = some next →
      ∀ t ∈ some (Task.loadUpdate annotatorId sid r next),
        ∃ command, t = .loadUpdate annotatorId sid r command ∧ command.isUpdate = true := by
    rintro next hnext t ⟨⟩
    exact ⟨next, rfl, (update_next hu hnext).2⟩
  by_cases hset : ∃ sid' new, command = .updateHset sid' new
  · obtain ⟨sid', new, rfl⟩ := hset
    exact ⟨hclaims, hann, rfl, hgoes _ rfl⟩
  · rw [step_loadUpdate fun sid' new he => hset ⟨sid', new, he⟩]
    split
    · rename_i next hnext
      exact ⟨hclaims, hann, rfl, hgoes next hnext⟩
    · exact ⟨hclaims, hann, rfl, fun _ ht => (by cases ht)⟩

/-- Only the HSET of the update loads the session. -/
theorem loaded_loadUpdate {r : SessionRecord} {command : Registry.Task}
    (hne : ∀ sid' new, command ≠ .updateHset sid' new) :
    (s.step (.loadUpdate annotatorId sid r command)).1.loaded = s.loaded := by
  rw [step_loadUpdate hne]
  split <;> rfl

theorem InOrder.load {r : SessionRecord} {command : Registry.Task}
    (h : InOrder s (.loadUpdate annotatorId sid r command :: others))
    (hs : Safe s others (.loadUpdate annotatorId sid r command)) :
    InOrder (s.step (.loadUpdate annotatorId sid r command)).1
      ((s.step (.loadUpdate annotatorId sid r command)).2.toList ++ others) := by
  have hload : LoadStep s annotatorId sid r (s.step (.loadUpdate annotatorId sid r command)) :=
    loadStep (h.place _ List.mem_cons_self)
  by_cases hset : ∃ sid' new, command = .updateHset sid' new
  · obtain ⟨sid', new, rfl⟩ := hset
    refine ⟨h.accounted.same hload.claims hload.live, fun t' ht' => ?_⟩
    obtain ht' | ht' := List.mem_append.mp ht'
    · obtain ⟨next, rfl, hu⟩ := hload.next t' (Option.mem_toList.mp ht')
      exact hu
    · exact at_of_loaded hload.claims (maker_of_live hload.live) rfl (hs t' ht')
        (h.place t' (List.mem_cons_of_mem _ ht'))
  · have hloaded : (s.step (.loadUpdate annotatorId sid r command)).1.loaded = s.loaded :=
      loaded_loadUpdate fun sid' new he => hset ⟨sid', new, he⟩
    refine h.same ⟨hload.claims, hload.live, hloaded⟩ _ fun t' ht' => ?_
    obtain ⟨next, rfl, hu⟩ := hload.next t' ht'
    exact hu

theorem InOrder.step (h : InOrder s (t :: others)) (hs : Safe s others t) :
    InOrder (s.step t).1 ((s.step t).2.toList ++ others) := by
  have hat := h.place t List.mem_cons_self
  cases t with
  | releaseOwner a sid id =>
    rw [Shared.step]
    split
    · rename_i ho
      exact h.goes (.releaseVerify a sid id) fun _ _ _ => h.accounted.owner ho
    · exact h.answer a _
  | releaseVerify a sid id =>
    rw [Shared.step]
    split
    · rename_i hv
      refine h.goes (.releaseDel a sid) fun other ho => ?_
      rw [verified hat hv] at ho
      exact (Option.some.inj ho).symm
    · exact h.answer a _
  | releaseDel a sid =>
    refine h.drop hs (some (.releaseHgetall a sid)) fun t' ht' => ?_
    cases ht'
    rintro ⟨other, hne, hmaker, -⟩
    exact hne (hat other (drop_maker hmaker))
  | releaseHgetall a sid =>
    rw [Shared.step]
    split
    · exact h.goes (.releaseUpdate a sid _) ⟨rfl, fun _ => hat⟩
    · exact h.answer a _
  | releaseUpdate a sid command =>
    have hsame : SameClaims s (s.update command) := ⟨update_claims hat.1, rfl, rfl⟩
    rw [Shared.step]
    cases hnext : (command.step s.redis).2 with
    | none =>
      have hanswer : SameClaims s ((s.update command).answer a (.sessionReleased sid)).1 :=
        ⟨hsame.claims, rfl, rfl⟩
      exact h.same hanswer none fun _ hu => (by cases hu)
    | some next =>
      refine h.same hsame (some (.releaseUpdate a sid next)) fun t' ht' => ?_
      cases ht'
      exact ⟨(update_next hat.1 hnext).2, fun _ => hat.2 (moves_before hat.1 hnext)⟩
  | heartbeatOwner a sid id =>
    rw [Shared.step]
    split
    · rename_i ho
      exact h.goes (.heartbeatGet a sid id) fun _ _ _ => h.accounted.owner ho
    · exact h.answer a _
  | heartbeatGet a sid id =>
    rw [Shared.step]
    split
    · rename_i hv
      exact h.goes (.heartbeatExpire a sid) (verified hat hv)
    · exact h.answer a _
  | heartbeatExpire a sid => exact h.answer a _
  | claimFields a sid id scan => exact h.goes (.claimEval a sid id scan _) trivial
  | claimEval a sid id scan maxClaims =>
    rw [Shared.step]
    cases hscript : s.redis.claimScript scan sid a id maxClaims with
    | mk redis result =>
      cases result with
      | taken | limit _ => exact h.answer a _
      | ok =>
        have hok : (s.redis.claimScript scan sid a id maxClaims).2 = .ok := by rw [hscript]
        obtain ⟨hfree, hclaims⟩ := claimScript_ok hok
        rw [hscript] at hclaims
        obtain ⟨hcolon, hothers⟩ := hs hok
        have hgranted : Granted s
            { s with
              redis := redis
              live := s.live ++ [(sid, a)]
              loaded := Function.update s.loaded sid none
              answers := s.answers ++ [(a, .sessionClaimed sid id)] } a sid id := ⟨hfree, hclaims, rfl, rfl⟩
        exact h.granted hgranted hcolon hothers
  | loadOwner a sid =>
    rw [Shared.step]
    split
    · exact h.goes (.loadHgetall a sid) trivial
    · exact h.answer a _
  | loadHgetall a sid =>
    rw [Shared.step]
    split
    · exact h.answer a _
    · split
      · exact h.goes (.loadUpdate a sid _ _) rfl
      · exact h.answer a _
  | loadUpdate a sid r command => exact h.load hs
  | expired sid => exact h.drop hs none fun _ hu => (by cases hu)

end Steps

theorem keeps : machine.Keeps InOrder Safe where
  perm s ts ts' hp h := ⟨h.accounted, fun t ht => h.place t (hp.mem_iff.mpr ht)⟩
  call s ts c h := by
    refine ⟨h.accounted, fun t ht => ?_⟩
    obtain rfl | ht := List.mem_cons.mp ht
    · cases c <;> trivial
    · exact h.place t ht
  step s t others h hs := h.step hs

theorem InOrder.lawful {s : Shared} {ts : List Task} (h : InOrder s ts) : ∀ t ∈ ts, Lawful s t := by
  intro t ht
  have hat := h.place t ht
  cases t with
  | releaseDel a sid | heartbeatExpire a sid => exact hat
  | releaseUpdate a sid command =>
    cases command with
    | updateHset _ _ | updateSadd _ _ => exact hat.2 rfl
    | _ => trivial
  | _ => trivial

/-- No call is under way, and the account is right. -/
structure Begins (s : State) : Prop where
  tasks : s.tasks = []
  accounted : Accounted s.shared

/-- In a run whose steps are all safe a claim is only ended or extended by its holder. -/
theorem claims_by_holder (s : State) (is : List (Move Call)) (hs : Begins s)
    (hg : Guarded machine.move (Machine.Meets Safe) s is) :
    Along machine.move (fun s i _ => Machine.Meets (fun shared _ t => Lawful shared t) s i) s is := by
  have hstart : InOrder s.shared s.tasks := by
    refine ⟨hs.accounted, fun t ht => ?_⟩
    rw [hs.tasks] at ht
    cases ht
  refine keeps.along_steps (P := fun s i _ => Machine.Meets (fun shared _ t => Lawful shared t) s i)
    (fun s i h _ _ => ?_) s is hstart hg
  cases i with
  | call c => trivial
  | run k => exact fun t ht => h.lawful t (List.mem_of_getElem? ht)

/-- One session in the queue, without a claim. -/
def sampleStart : State where
  shared :=
    { redis :=
        { sessions := fun sid => if sid = "s1" then .record queued else .absent
          index := fun status => if status = SessionStatus.pendingHumanAnnotation then ["s1"] else []
          claims := fun _ => none
          annotators := fun _ => none }
      live := []
      loaded := fun _ => none
      answers := [] }
  tasks := []
where
  queued : SessionRecord :=
    { sessionId := "s1", mode := .manual, status := SessionStatus.pendingHumanAnnotation,
      memoryName := "demo", memoryPath := "/memories/demo", createdAt := "2026-01-01T00:00:00Z",
      totalSteps := 4, annotatedSteps := 0, skippedSteps := 0, tenantId := "", storageBackend := "local" }

theorem begins_sampleStart : Begins sampleStart :=
  ⟨rfl, fun _ _ h => (by cases h), fun _ _ => rfl, List.nodup_nil⟩

/-- The claim of "ann" expires between the comparison of its release and DEL, when "bob"
has claimed the session. -/
def overtaken : List (Move Call) :=
  [.call (.claimSession "ann" "s1" "5c1b" []), .run 0, .run 0, .call (.releaseSession "ann" "s1" "5c1b"),
    .run 0, .run 0, .call (.expire "s1"), .run 1, .call (.claimSession "bob" "s1" "77f0" []), .run 1, .run 1,
    .run 0]

theorem release_deletes_other_claim :
    Begins sampleStart ∧ ¬ Along machine.move
      (fun s i _ => Machine.Meets (fun shared _ t => Lawful shared t) s i) sampleStart overtaken := by
  refine ⟨begins_sampleStart, fun h => ?_⟩
  obtain ⟨-, -, -, -, -, -, -, -, -, -, -, hdel, -⟩ := h
  have hsame := hdel (.releaseDel "ann" "s1") rfl "bob" rfl
  revert hsame
  decide

theorem claims_by_holder_sample :
    Along machine.move (fun s i _ => Machine.Meets (fun shared _ t => Lawful shared t) s i) sampleStart
      [.call (.claimSession "ann" "s1" "5c1b" []), .run 0, .run 0, .call (.heartbeatClaim "ann" "s1" "5c1b"),
        .call (.releaseSession "ann" "s1" "5c1b"), .run 0, .run 0, .run 0, .run 0, .run 0, .run 0] := by
  apply claims_by_holder sampleStart _ begins_sampleStart
  refine ⟨trivial, ?_, ?_, trivial, trivial, ?_, ?_, ?_, ?_, ?_, ?_, trivial⟩
  · rintro t ⟨⟩
    trivial
  · rintro t ⟨⟩
    exact fun _ => ⟨by decide, fun t ht => (List.not_mem_nil ht).elim⟩
  · rintro t ⟨⟩
    trivial
  · rintro t ⟨⟩
    trivial
  · rintro t ⟨⟩
    trivial
  · rintro t ⟨⟩
    trivial
  · rintro t ⟨⟩
    trivial
  · rintro t ⟨⟩
    exact fun t ht => (List.not_mem_nil ht).elim

end MemoryArchive.Ipc.ClaimSteps
