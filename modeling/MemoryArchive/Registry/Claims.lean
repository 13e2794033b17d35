import Mathlib.Data.List.Sort
import Mathlib.Data.List.TakeWhile
import MemoryArchive.Registry.Redis

namespace MemoryArchive.Registry

/-- The text that stands for a claim of an annotator. -/
def claimValue (annotatorId claimId : String) : String := annotatorId ++ ":" ++ claimId

def firstSegment (value : String) : String := String.ofList (value.toList.takeWhile (· ≠ ':'))

def Redis.getClaimOwner (s : Redis) (sessionId : String) : Option String :=
  (s.claims sessionId).map firstSegment

def stripSuffix (value tail : List Char) : Option (List Char) :=
  if tail.isSuffixOf value then some (value.take (value.length - tail.length)) else none

def claimValueMatches (stored claimId : String) : Bool :=
  claimId ≠ "" &&
    match stripSuffix stored.toList claimId.toList with
    | some lead => lead.getLast? = some ':'
    | none => false

/-- `verify_claim_id`, and `refresh_claim`, whose new expiry is not modelled. -/
def Redis.verifyClaimId (s : Redis) (sessionId claimId : String) : Bool :=
  match s.claims sessionId with
  | some value => claimValueMatches value claimId
  | none => false

def Redis.releaseClaim (s : Redis) (sessionId : String) : Redis :=
  { s with claims := Function.update s.claims sessionId none }

/-- Whether a claim value is counted for an annotator. -/
def countsFor (annotatorId value : String) : Bool :=
  (annotatorId.toList ++ [':']).isPrefixOf value.toList

/-- Count the claims of an annotator among the sessions whose claim keys a scan
has returned. -/
def Redis.countAnnotatorClaims (s : Redis) (scan : List String) (annotatorId : String) : Nat :=
  (scan.filter fun sessionId => (s.claims sessionId).elim false (countsFor annotatorId)).length

inductive ScriptResult
  | ok
  | taken
  | limit (count : Nat)
  deriving DecidableEq

/-- The script that counts an annotator's claims and sets a new one, unless the
count has reached its limit or the session is claimed. -/
def Redis.claimScript (s : Redis) (scan : List String) (sessionId annotatorId claimId : String)
    (maxClaims : Nat) : Redis × ScriptResult :=
  let count := s.countAnnotatorClaims scan annotatorId
  if 0 < maxClaims ∧ maxClaims ≤ count then (s, .limit count)
  else
    match s.claims sessionId with
    | some _ => (s, .taken)
    | none =>
        ({ s with claims := Function.update s.claims sessionId (some (claimValue annotatorId claimId)) },
          .ok)

/-- A new annotator under any id that is not in use. -/
def Redis.registerAnnotator (s : Redis) (annotatorId : String) (allowedTenantIds : List String)
    (maxConcurrentClaims : Nat) : Except String Redis :=
  match s.annotators annotatorId with
  | some _ => .error "ANNOTATOR_EXISTS"
  | none =>
      let fields : Annotator := ⟨"active", allowedTenantIds, maxConcurrentClaims, ""⟩
      .ok { s with annotators := Function.update s.annotators annotatorId (some fields) }

structure AnnotatorInfo where
  annotatorId : String
  status : String
  currentClaims : Nat
  lastAuthAt : String
  allowedTenantIds : List String
  maxConcurrentClaims : Nat

def annotatorKey (annotatorId : String) : List Char := "annotator:".toList ++ annotatorId.toList

/-- List the annotators among the ids whose keys a scan has returned. A key with
more than one colon is taken for the failure counter of an annotator. -/
def Redis.listAnnotators (s : Redis) (keys claimScan : List String) : List AnnotatorInfo :=
  let info (id : String) : Option AnnotatorInfo :=
    if (annotatorKey id).count ':' = 1 then
      match s.annotators id with
      | none => none
      | some a =>
          if id = "" then none
          else some ⟨id, a.status, s.countAnnotatorClaims claimScan id, a.lastAuthAt,
            a.allowedTenantIds, a.maxConcurrentClaims⟩
    else none
  (keys.filterMap info).insertionSort fun a b => a.annotatorId ≤ b.annotatorId

/-- What the flat text of a claim is parsed by: an id without the separator. -/
def ColonFree (id : String) : Prop := ':' ∉ id.toList

instance (id : String) : Decidable (ColonFree id) := inferInstanceAs (Decidable (':' ∉ id.toList))

theorem toList_claimValue (annotatorId claimId : String) :
    (claimValue annotatorId claimId).toList = annotatorId.toList ++ ':' :: claimId.toList := by
  simp [claimValue]

theorem takeWhile_colon (a c : List Char) :
    (a ++ ':' :: c).takeWhile (· ≠ ':') = a.takeWhile (· ≠ ':') := by
  induction a with
  | nil => rfl
  | cons d a ih => by_cases hd : d = ':' <;> simp [hd] at ih ⊢; exact ih

theorem firstSegment_claimValue (annotatorId claimId : String) :
    firstSegment (claimValue annotatorId claimId) = firstSegment annotatorId := by
  rw [firstSegment, toList_claimValue, takeWhile_colon, firstSegment]

/-- The owner that is read back from a claim is its annotator, unless the id
holds the separator. -/
theorem firstSegment_eq_self_iff (id : String) : firstSegment id = id ↔ ColonFree id := by
  have hlist : firstSegment id = id ↔ id.toList.takeWhile (· ≠ ':') = id.toList := by
    rw [firstSegment, ← String.toList_inj, String.toList_ofList]
  rw [hlist, List.takeWhile_eq_self_iff]
  constructor
  · intro h hmem
    simpa using h ':' hmem
  · intro h c hc
    simp only [decide_eq_true_eq]
    rintro rfl
    exact h hc

/-- A text has only one cut at a separator when its parts have none. -/
theorem cut_unique {a c lead tail : List Char} (ha : ':' ∉ a) (hc : ':' ∉ c)
    (h : a ++ ':' :: c = lead ++ ':' :: tail) : lead = a ∧ tail = c := by
  obtain ⟨t, hlead, ht⟩ | ⟨t, hla, ht⟩ := List.append_eq_append_iff.mp h
  · cases t with
    | nil => simp_all
    | cons d t =>
      simp only [List.cons_append, List.cons.injEq] at ht
      exact absurd (by rw [ht.2]; simp) hc
  · cases t with
    | nil => simp_all
    | cons d t =>
      simp only [List.cons_append, List.cons.injEq] at ht
      exact absurd (by rw [hla, ← ht.1]; simp) ha

theorem stripSuffix_eq_some (value lead tail : List Char) :
    stripSuffix value tail = some lead ↔ value = lead ++ tail := by
  unfold stripSuffix
  constructor
  · intro h
    split at h
    · rename_i hs
      obtain ⟨t, rfl⟩ := List.isSuffixOf_iff_suffix.mp hs
      simp only [List.length_append, Nat.add_sub_cancel, List.take_left', Option.some.injEq] at h
      rw [h]
    · cases h
  · rintro rfl
    rw [if_pos (List.isSuffixOf_iff_suffix.mpr (List.suffix_append lead tail))]
    simp

theorem claimValueMatches_iff (stored claimId : String) :
    claimValueMatches stored claimId = true ↔
      claimId ≠ "" ∧ ∃ lead, stored.toList = lead ++ ':' :: claimId.toList := by
  unfold claimValueMatches
  rw [Bool.and_eq_true, decide_eq_true_eq]
  refine and_congr_right fun _ => ?_
  constructor
  · intro h
    split at h
    · rename_i lead hs
      obtain ⟨t, ht⟩ := List.getLast?_eq_some_iff.mp (of_decide_eq_true h)
      refine ⟨t, ?_⟩
      rw [(stripSuffix_eq_some _ _ _).mp hs, ht]
      simp
    · cases h
  · rintro ⟨lead, h⟩
    have hs : stripSuffix stored.toList claimId.toList = some (lead ++ [':']) := by
      rw [stripSuffix_eq_some, h]
      simp
    simp [hs]

/-- A claim value matches its own claim id and no other. -/
theorem claimValueMatches_claimValue {annotatorId claimId : String} (ha : ColonFree annotatorId)
    (hc : ColonFree claimId) (hne : claimId ≠ "") (id : String) :
    claimValueMatches (claimValue annotatorId claimId) id = true ↔ id = claimId := by
  rw [claimValueMatches_iff, toList_claimValue]
  constructor
  · rintro ⟨-, lead, h⟩
    exact String.toList_inj.mp (cut_unique ha hc h).2
  · rintro rfl
    exact ⟨hne, annotatorId.toList, rfl⟩

/-- A claim value counts for its own annotator and no other. -/
theorem countsFor_claimValue {id annotatorId : String} (hi : ColonFree id)
    (ha : ColonFree annotatorId) (claimId : String) :
    countsFor id (claimValue annotatorId claimId) = true ↔ annotatorId = id := by
  rw [countsFor, List.isPrefixOf_iff_prefix, toList_claimValue]
  constructor
  · rintro ⟨t, ht⟩
    have h := congrArg (List.takeWhile (· ≠ ':')) ht
    rw [List.append_assoc, List.singleton_append, takeWhile_colon, takeWhile_colon] at h
    have hid := (firstSegment_eq_self_iff id).mpr hi
    have hann := (firstSegment_eq_self_iff annotatorId).mpr ha
    rw [firstSegment, h] at hid
    rw [firstSegment] at hann
    exact hann.symm.trans hid
  · rintro rfl
    exact ⟨claimId.toList, by simp⟩

end MemoryArchive.Registry
