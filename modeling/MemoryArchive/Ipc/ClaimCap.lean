import Mathlib.Data.List.Dedup
import MemoryArchive.Ipc.ClaimSteps

namespace MemoryArchive.Ipc.ClaimCap

open ClaimSteps Interleaving Runs
open Registry hiding Call Task

variable {s s' : Shared} {t : Task} {others : List Task} {annotatorId sid claimId : String}
  {scan : List String}

/-- How many live claims an annotator has. -/
def held (s : Shared) (annotatorId : String) : Nat := (s.live.filter (·.2 = annotatorId)).length

/-- Each session has at most one live claim. -/
def Exclusive (s : Shared) : Prop := ∀ sid, (s.live.map Prod.fst).count sid ≤ 1

/-- No annotator has more claims than its maximum, where 0 stands for no maximum. -/
def Capped (s : Shared) : Prop :=
  ∀ annotatorId, 0 < maxClaims s.redis annotatorId → held s annotatorId ≤ maxClaims s.redis annotatorId

/-- An annotator below its maximum is not told of a limit when it claims a free session. -/
def Fair (s : Shared) : Task → Prop
  | .claimEval annotatorId sid claimId scan limit =>
      s.maker sid = none →
        (maxClaims s.redis annotatorId = 0 ∨ held s annotatorId < maxClaims s.redis annotatorId) →
          ∀ count, (s.step (.claimEval annotatorId sid claimId scan limit)).1.answers ≠
            s.answers ++ [(annotatorId, .claimLimitReached annotatorId count limit)]
  | _ => True

/-- The claim keys of an annotator as SCAN returns them. -/
def returned (s : Shared) (scan : List String) (annotatorId : String) : List String :=
  scan.filter fun sid => s.maker sid = some annotatorId

/-- How often SCAN returns a key of the annotator once more. -/
def repeats (s : Shared) (scan : List String) (annotatorId : String) : Nat :=
  (returned s scan annotatorId).length - (returned s scan annotatorId).dedup.length

/-- The id of an annotator has no separator, and SCAN returns every claim key. -/
def Assumed (s : Shared) (_ : List Task) : Task → Prop
  | .claimEval annotatorId _ _ scan _ =>
      ColonFree annotatorId ∧ ∀ sid, s.redis.claims sid ≠ none → sid ∈ scan
  | _ => True

/-- What SCAN returns twice does not bring an annotator to its maximum. -/
def RoomForRepeats (s : Shared) : Task → Prop
  | .claimEval annotatorId sid _ scan _ =>
      s.maker sid = none → 0 < maxClaims s.redis annotatorId →
        held s annotatorId < maxClaims s.redis annotatorId →
          held s annotatorId + repeats s scan annotatorId < maxClaims s.redis annotatorId
  | _ => True

/-- What a task has read. -/
def Knows (s : Shared) : Task → Prop
  | .releaseUpdate _ _ command | .loadUpdate _ _ _ command => command.isUpdate = true
  | .claimEval annotatorId _ _ _ limit => limit = maxClaims s.redis annotatorId
  | _ => True

structure Counted (s : Shared) (ts : List Task) : Prop where
  accounted : Accounted s
  capped : Capped s
  knows : ∀ t ∈ ts, Knows s t

theorem Counted.exclusive {ts : List Task} (h : Counted s ts) : Exclusive s :=
  List.nodup_iff_count_le_one.mp h.accounted.once

theorem mem_live (h : Accounted s) : (sid, annotatorId) ∈ s.live ↔ s.maker sid = some annotatorId := by
  rw [Shared.maker, List.lookup_eq_some_iff]
  constructor
  · intro hmem
    obtain ⟨before, after, hlive⟩ := List.append_of_mem hmem
    refine ⟨before, after, hlive, fun entry hentry => ?_⟩
    have honce := h.once
    rw [hlive, List.map_append, List.nodup_append] at honce
    have hne := honce.2.2 entry.1 (List.mem_map_of_mem hentry) sid (by simp)
    exact bne_iff_ne.mpr hne.symm
  · rintro ⟨before, after, hlive, -⟩
    rw [hlive]
    simp

/-- The claims of an annotator are the keys that SCAN returns, each once. -/
theorem held_eq (h : Accounted s) (hscan : ∀ sid, s.redis.claims sid ≠ none → sid ∈ scan) :
    held s annotatorId = (returned s scan annotatorId).dedup.length := by
  have hnodup : ((s.live.filter (·.2 = annotatorId)).map Prod.fst).Nodup :=
    h.once.sublist (List.filter_sublist.map Prod.fst)
  have hsame : ((s.live.filter (·.2 = annotatorId)).map Prod.fst).Perm (returned s scan annotatorId).dedup := by
    refine (List.perm_ext_iff_of_nodup hnodup (List.nodup_dedup _)).mpr fun sid => ?_
    rw [List.mem_dedup, returned, List.mem_filter, decide_eq_true_eq, ← mem_live h]
    constructor
    · intro hmem
      obtain ⟨⟨sid, a⟩, hentry, rfl⟩ := List.mem_map.mp hmem
      obtain ⟨hlive, ha⟩ := List.mem_filter.mp hentry
      obtain rfl : a = annotatorId := of_decide_eq_true ha
      refine ⟨hscan sid fun hnone => ?_, hlive⟩
      have hmaker := (mem_live h).mp hlive
      rw [h.makers sid hnone] at hmaker
      cases hmaker
    · rintro ⟨-, hlive⟩
      exact List.mem_map.mpr ⟨(sid, annotatorId), List.mem_filter.mpr ⟨hlive, decide_eq_true rfl⟩, rfl⟩
  rw [held, ← hsame.length_eq, List.length_map]

/-- The script counts a claim of the annotator as often as SCAN returns its key. -/
theorem countAnnotatorClaims_eq (h : Accounted s) (hcolon : ColonFree annotatorId) (scan : List String) :
    s.redis.countAnnotatorClaims scan annotatorId = (returned s scan annotatorId).length := by
  rw [Redis.countAnnotatorClaims, returned]
  congr 1
  refine List.filter_congr fun sid _ => ?_
  cases hclaim : s.redis.claims sid with
  | none => rw [h.makers sid hclaim]; rfl
  | some v =>
    obtain ⟨b, id, rfl, hmaker, hfree⟩ := h.claims sid v hclaim
    rw [Bool.eq_iff_iff, hmaker, decide_eq_true_eq, Option.some_inj]
    exact countsFor_claimValue hcolon hfree id

theorem count_eq (h : Accounted s) (hcolon : ColonFree annotatorId)
    (hscan : ∀ sid, s.redis.claims sid ≠ none → sid ∈ scan) :
    s.redis.countAnnotatorClaims scan annotatorId = held s annotatorId + repeats s scan annotatorId := by
  have hle := (List.dedup_sublist (returned s scan annotatorId)).length_le
  rw [countAnnotatorClaims_eq h hcolon, held_eq h hscan, repeats]
  omega

/-- The answer tells of a limit where the script does. -/
theorem limit_iff (s : Shared) (annotatorId sid claimId : String) (scan : List String) (limit : Nat) :
    (∃ count, (s.step (.claimEval annotatorId sid claimId scan limit)).1.answers =
      s.answers ++ [(annotatorId, .claimLimitReached annotatorId count limit)]) ↔
      0 < limit ∧ limit ≤ s.redis.countAnnotatorClaims scan annotatorId := by
  rw [Shared.step, Redis.claimScript]
  by_cases hlimit : 0 < limit ∧ limit ≤ s.redis.countAnnotatorClaims scan annotatorId
  · rw [if_pos hlimit]
    exact ⟨fun _ => hlimit, fun _ => ⟨_, rfl⟩⟩
  · rw [if_neg hlimit]
    refine ⟨?_, fun h => absurd h hlimit⟩
    rintro ⟨count, hcount⟩
    cases hclaim : s.redis.claims sid with
    | some _ | none =>
      rw [hclaim] at hcount
      have hlast := List.append_cancel_left hcount
      cases hlast

/-- A claim is judged fairly exactly where SCAN leaves room for what it returns twice. -/
theorem fair_iff {ts : List Task} (h : Counted s ts) (ht : t ∈ ts) (ha : Assumed s others t) :
    Fair s t ↔ RoomForRepeats s t := by
  have hknows := h.knows t ht
  cases t with
  | claimEval a sid id scan limit =>
    obtain ⟨hcolon, hscan⟩ := ha
    have hcount := count_eq h.accounted hcolon hscan
    have hlimit : limit = maxClaims s.redis a := hknows
    have htold := limit_iff s a sid id scan limit
    rw [Fair, RoomForRepeats]
    refine forall_congr' fun _ => ?_
    rw [← not_exists, htold, hcount, ← hlimit]
    omega
  | _ => exact Iff.rfl

/-- A step that leaves claims and annotators as they are. -/
structure SameCount (s s' : Shared) : Prop where
  claims : s'.redis.claims = s.redis.claims
  annotators : s'.redis.annotators = s.redis.annotators
  live : s'.live = s.live

theorem maxClaims_eq (h : s'.redis.annotators = s.redis.annotators) (a : String) :
    maxClaims s'.redis a = maxClaims s.redis a := by rw [maxClaims, maxClaims, h]

theorem knows_of_annotators (h : s'.redis.annotators = s.redis.annotators) (ht : Knows s t) : Knows s' t := by
  cases t with
  | claimEval a sid id scan limit => exact Eq.trans ht (maxClaims_eq h a).symm
  | _ => exact ht

theorem Counted.next (h : Counted s (t :: others)) (haccounted : Accounted s') (hcapped : Capped s')
    (hann : s'.redis.annotators = s.redis.annotators) (next : Option Task)
    (hnext : ∀ t' ∈ next, Knows s t') : Counted s' (next.toList ++ others) := by
  refine ⟨haccounted, hcapped, fun t' ht' => knows_of_annotators hann ?_⟩
  obtain ht' | ht' := List.mem_append.mp ht'
  · exact hnext t' (Option.mem_toList.mp ht')
  · exact h.knows t' (List.mem_cons_of_mem t ht')

theorem Counted.same (h : Counted s (t :: others)) (hsame : SameCount s s') (next : Option Task)
    (hnext : ∀ t' ∈ next, Knows s t') : Counted s' (next.toList ++ others) := by
  refine h.next (h.accounted.same hsame.claims hsame.live) (fun a ha => ?_) hsame.annotators next hnext
  rw [maxClaims_eq hsame.annotators] at ha ⊢
  rw [held, hsame.live]
  exact h.capped a ha

theorem Counted.goes (h : Counted s (t :: others)) (t' : Task) (ht' : Knows s t') :
    Counted s (t' :: others) := by
  refine h.same ⟨rfl, rfl, rfl⟩ (some t') fun u hu => ?_
  cases hu
  exact ht'

theorem Counted.answer (h : Counted s (t :: others)) (a : String) (msg : OutboundMessage) :
    Counted (s.answer a msg).1 ((s.answer a msg).2.toList ++ others) := by
  have hsame : SameCount s (s.answer a msg).1 := ⟨rfl, rfl, rfl⟩
  exact h.same hsame none fun _ hu => (by cases hu)

/-- A claim that is gone counts for nobody. -/
theorem Counted.drop (h : Counted s (t :: others)) (next : Option Task) (hnext : ∀ t' ∈ next, Knows s t') :
    Counted (s.drop sid) (next.toList ++ others) := by
  refine h.next (h.accounted.drop sid) (fun a ha => ?_) rfl next hnext
  have hfewer : held (s.drop sid) a ≤ held s a := (List.filter_sublist.filter _).length_le
  exact hfewer.trans (h.capped a ha)

theorem held_granted (h : Granted s s' annotatorId sid claimId) (a : String) :
    held s' a = held s a + if a = annotatorId then 1 else 0 := by
  rw [held, held, h.live, List.filter_append, List.length_append, List.filter_singleton]
  by_cases ha : a = annotatorId
  · simp [ha]
  · simp [ha, Ne.symm ha]

/-- The script leaves room for one more claim before it sets it. -/
theorem Counted.granted (h : Counted s (t :: others)) (hg : Granted s s' annotatorId sid claimId)
    (hann : s'.redis.annotators = s.redis.annotators) (hcolon : ColonFree annotatorId)
    (hroom : 0 < maxClaims s.redis annotatorId → held s annotatorId < maxClaims s.redis annotatorId) :
    Counted s' others := by
  refine h.next (h.accounted.granted hg hcolon) (fun a ha => ?_) hann none fun _ hu => (by cases hu)
  rw [maxClaims_eq hann] at ha ⊢
  rw [held_granted hg]
  by_cases hsame : a = annotatorId
  · subst hsame
    rw [if_pos rfl]
    exact hroom ha
  · rw [if_neg hsame]
    exact h.capped a ha

theorem Counted.claim {limit : Nat} (h : Counted s (.claimEval annotatorId sid claimId scan limit :: others))
    (ha : Assumed s others (.claimEval annotatorId sid claimId scan limit)) :
    Counted (s.step (.claimEval annotatorId sid claimId scan limit)).1
      ((s.step (.claimEval annotatorId sid claimId scan limit)).2.toList ++ others) := by
  obtain ⟨hcolon, hscan⟩ := ha
  have hlimit : limit = maxClaims s.redis annotatorId := h.knows _ List.mem_cons_self
  have hcount := count_eq h.accounted hcolon hscan
  rw [Shared.step, Redis.claimScript]
  by_cases hfull : 0 < limit ∧ limit ≤ s.redis.countAnnotatorClaims scan annotatorId
  · rw [if_pos hfull]
    exact h.answer annotatorId _
  · rw [if_neg hfull]
    cases hclaim : s.redis.claims sid with
    | some _ => exact h.answer annotatorId _
    | none =>
      have hgranted : Granted s
          { s with
            redis :=
              { s.redis with
                claims := Function.update s.redis.claims sid (some (claimValue annotatorId claimId)) }
            live := s.live ++ [(sid, annotatorId)]
            loaded := Function.update s.loaded sid none
            answers := s.answers ++ [(annotatorId, .sessionClaimed sid claimId)] } annotatorId sid claimId :=
        ⟨hclaim, rfl, rfl, rfl⟩
      refine h.granted hgranted rfl hcolon fun hpos => ?_
      omega

theorem Counted.step (h : Counted s (t :: others)) (ha : Assumed s others t) :
    Counted (s.step t).1 ((s.step t).2.toList ++ others) := by
  have hknows := h.knows t List.mem_cons_self
  cases t with
  | releaseOwner a sid id | releaseVerify a sid id | heartbeatOwner a sid id | heartbeatGet a sid id
  | loadOwner a sid =>
    rw [Shared.step]
    split
    · exact h.goes _ trivial
    · exact h.answer a _
  | releaseDel a sid =>
    refine h.drop (some (.releaseHgetall a sid)) fun t' ht' => ?_
    cases ht'
    trivial
  | releaseHgetall a sid =>
    rw [Shared.step]
    split
    · exact h.goes (.releaseUpdate a sid _) rfl
    · exact h.answer a _
  | releaseUpdate a sid command =>
    have hsame : SameCount s (s.update command) :=
      ⟨update_claims hknows, step_annotators s.redis command, rfl⟩
    rw [Shared.step]
    cases hnext : (command.step s.redis).2 with
    | none =>
      have hanswer : SameCount s ((s.update command).answer a (.sessionReleased sid)).1 :=
        ⟨hsame.claims, hsame.annotators, rfl⟩
      exact h.same hanswer none fun _ hu => (by cases hu)
    | some next =>
      refine h.same hsame (some (.releaseUpdate a sid next)) fun t' ht' => ?_
      cases ht'
      exact (update_next hknows hnext).2
  | heartbeatExpire a sid => exact h.answer a _
  | claimFields a sid id scan => exact h.goes (.claimEval a sid id scan _) rfl
  | claimEval a sid id scan limit => exact h.claim ha
  | loadHgetall a sid =>
    rw [Shared.step]
    split
    · exact h.answer a _
    · split
      · exact h.goes (.loadUpdate a sid _ _) rfl
      · exact h.answer a _
  | loadUpdate a sid r command =>
    have hload : LoadStep s a sid r (s.step (.loadUpdate a sid r command)) := loadStep hknows
    refine h.same ⟨hload.claims, hload.annotators, hload.live⟩ _ fun t' ht' => ?_
    obtain ⟨next, rfl, hu⟩ := hload.next t' ht'
    exact hu
  | expired sid => exact h.drop none fun _ hu => (by cases hu)

theorem keeps : machine.Keeps Counted Assumed where
  perm s ts ts' hp h := ⟨h.accounted, h.capped, fun t ht => h.knows t (hp.mem_iff.mpr ht)⟩
  call s ts c h := by
    refine ⟨h.accounted, h.capped, fun t ht => ?_⟩
    obtain rfl | ht := List.mem_cons.mp ht
    · cases c <;> trivial
    · exact h.knows t ht
  step s t others h ha := h.step ha

/-- With scans that return every claim key, no session has two claims and no annotator more
than its maximum, and a claim is judged fairly exactly where what a scan returns twice does
not bring the annotator to its maximum. -/
theorem claims_capped_iff (s : State) (is : List (Move Call)) (hs : Begins s) (hcap : Capped s.shared)
    (ha : Guarded machine.move (Machine.Meets Assumed) s is) :
    Along machine.move (fun s i s' => Exclusive s'.shared ∧ Capped s'.shared ∧
      Machine.Meets (fun shared _ t => Fair shared t) s i) s is ↔
        Guarded machine.move (Machine.Meets fun shared _ t => RoomForRepeats shared t) s is := by
  have hstart : Counted s.shared s.tasks := by
    refine ⟨hs.accounted, hcap, fun t ht => ?_⟩
    rw [hs.tasks] at ht
    cases ht
  have hkeep : ∀ (s : State) i, Counted s.shared s.tasks → Machine.Meets Assumed s i →
      Counted (machine.move s i).shared (machine.move s i).tasks := fun s i hs hi => keeps.move hs i hi
  have hstep : ∀ (s : State) i, Counted s.shared s.tasks → Machine.Meets Assumed s i →
      ((Exclusive (machine.move s i).shared ∧ Capped (machine.move s i).shared ∧
        Machine.Meets (fun shared _ t => Fair shared t) s i) ↔
          Machine.Meets (fun shared _ t => RoomForRepeats shared t) s i) := by
    intro s i hs hi
    have hnext := hkeep s i hs hi
    rw [and_iff_right hnext.exclusive, and_iff_right hnext.capped]
    cases i with
    | call c => exact Iff.rfl
    | run k =>
      refine forall_congr' fun t => forall_congr' fun ht => ?_
      exact fair_iff hs (List.mem_of_getElem? ht) (hi t ht)
  exact along_iff_guarded_given hstep hkeep s is hstart ha

/-- "ann" may have two claims and has one; s2 is free. -/
def sampleStart : State where
  shared :=
    { redis :=
        { sessions := fun _ => .absent
          index := fun status =>
            if status = SessionStatus.pendingHumanAnnotation then ["s1", "s2"] else []
          claims := fun sid => if sid = "s1" then some (claimValue "ann" "5c1b") else none
          annotators := fun a => if a = "ann" then some ⟨"active", [], 2, ""⟩ else none }
      live := [("s1", "ann")]
      loaded := fun _ => none
      answers := [] }
  tasks := []

theorem begins_sampleStart : Begins sampleStart := by
  refine ⟨rfl, fun sid v hv => ?_, fun sid hnone => ?_, by decide⟩
  · obtain ⟨rfl, rfl⟩ : sid = "s1" ∧ claimValue "ann" "5c1b" = v := by simpa [sampleStart] using hv
    exact ⟨"ann", "5c1b", rfl, rfl, by decide⟩
  · have hne : sid ≠ "s1" := by simpa [sampleStart] using hnone
    simpa [sampleStart, Shared.maker] using hne

theorem capped_sampleStart : Capped sampleStart.shared := by
  intro a ha
  by_cases hann : a = "ann"
  · rw [hann]
    decide
  · simp [maxClaims, sampleStart, hann] at ha

/-- "ann" claims the free session in a run in which SCAN returns the keys. -/
def claimFree (scan : List String) : List (Move Call) :=
  [.call (.claimSession "ann" "s2" "77f0" scan), .run 0, .run 0]

theorem assumed_claimFree (scan : List String) (hscan : "s1" ∈ scan) :
    Guarded machine.move (Machine.Meets Assumed) sampleStart (claimFree scan) := by
  refine ⟨trivial, ?_, ?_, trivial⟩
  · rintro t ⟨⟩
    trivial
  · rintro t ⟨⟩
    refine ⟨by decide, fun sid hne => ?_⟩
    have hsid : sid = "s1" := by
      by_contra hother
      exact hne (if_neg hother)
    rwa [hsid]

/-- SCAN returns the key of the one claim twice. -/
theorem repeated_key_refused :
    Begins sampleStart ∧ Capped sampleStart.shared ∧
      Guarded machine.move (Machine.Meets Assumed) sampleStart (claimFree ["s1", "s1"]) ∧
      ¬ Along machine.move (fun s i s' => Exclusive s'.shared ∧ Capped s'.shared ∧
        Machine.Meets (fun shared _ t => Fair shared t) s i) sampleStart (claimFree ["s1", "s1"]) := by
  refine ⟨begins_sampleStart, capped_sampleStart, assumed_claimFree _ (by decide), fun h => ?_⟩
  obtain ⟨-, -, ⟨-, -, hfair⟩, -⟩ := h
  have hroom : held sampleStart.shared "ann" < maxClaims sampleStart.shared.redis "ann" := by decide
  exact hfair (.claimEval "ann" "s2" "77f0" ["s1", "s1"] 2) rfl rfl (.inr hroom) 2 rfl

theorem claims_capped_iff_sample :
    Along machine.move (fun s i s' => Exclusive s'.shared ∧ Capped s'.shared ∧
      Machine.Meets (fun shared _ t => Fair shared t) s i) sampleStart (claimFree ["s1"]) := by
  refine (claims_capped_iff sampleStart _ begins_sampleStart capped_sampleStart
    (assumed_claimFree _ (by decide))).mpr ?_
  refine ⟨trivial, ?_, ?_, trivial⟩
  · rintro t ⟨⟩
    trivial
  · rintro t ⟨⟩
    exact fun _ _ _ => by decide

end MemoryArchive.Ipc.ClaimCap
