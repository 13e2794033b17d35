import MemoryArchive.Data.Interleaving
import MemoryArchive.Ipc.Management
import MemoryArchive.Text.Strip

namespace MemoryArchive.Ipc.Authentication

open Interleaving Runs
open Management (trimmed)
open Reasoning (occurrences required asString)

/-- The fields of an annotator's hash that decide on its connections. -/
structure Account where
  status : Option String
  keyHash : Option String
  lastAuthAt : Option String
  deriving DecidableEq

/-- A hash or a number, and whether it goes away with time. -/
inductive Slot
  | hash (account : Account) (expires : Bool)
  | counter (count : Nat) (expires : Bool)
  deriving DecidableEq

def accountKey (annotatorId : String) : String := "annotator:" ++ annotatorId

def failuresKey (annotatorId : String) : String := "annotator:" ++ annotatorId ++ ":auth_failures"

inductive Reply
  | error (code message : String)
  | annotatorAuthenticated (annotatorId : String)
  | annotatorRegistered (annotatorId plaintextKey : String)
  | annotatorDeactivated (annotatorId : String)
  | annotatorKeyRotated (annotatorId newPlaintextKey : String)
  deriving DecidableEq

/-- The calls that read or write the accounts. A key with an expiry may lapse at any time. -/
inductive Call
  | authenticate (annotatorId key now : String)
  | registerAnnotator (annotatorId plaintext : String)
  | deactivateAnnotator (annotatorId : String)
  | rotateAnnotatorKey (annotatorId plaintext : String)
  | lapse (key : String)
  deriving DecidableEq

/-- Redis, and the calls that have been answered. -/
structure Server where
  store : String → Option Slot
  log : List (Call × Reply)

def Server.put (s : Server) (key : String) (slot : Option Slot) : Server :=
  { s with store := Function.update s.store key slot }

def Server.answer (s : Server) (call : Call) (reply : Reply) : Server :=
  { s with log := s.log ++ [(call, reply)] }

/-- HSET, which fails on a number. -/
def Server.hset (s : Server) (key : String) (f : Account → Account) : Option Server :=
  match s.store key with
  | none => some (s.put key (some (.hash (f ⟨none, none, none⟩) false)))
  | some (.hash a expires) => some (s.put key (some (.hash (f a) expires)))
  | some (.counter _ _) => none

/-- INCR, which fails on a hash and past the largest number. -/
def Server.incr (s : Server) (key : String) : Option Server :=
  match s.store key with
  | none => some (s.put key (some (.counter 1 false)))
  | some (.counter n expires) =>
      if n + 1 < 2 ^ 63 then some (s.put key (some (.counter (n + 1) expires))) else none
  | some (.hash _ _) => none

def Server.expire (s : Server) (key : String) : Server :=
  match s.store key with
  | none => s
  | some (.counter n _) => s.put key (some (.counter n true))
  | some (.hash a _) => s.put key (some (.hash a true))

/-- The end of a key that expires. -/
def Server.lapse (s : Server) (key : String) : Server :=
  match s.store key with
  | some (.counter _ true) | some (.hash _ true) => s.put key none
  | _ => s

/-- The accumulated differences of two texts of one length. -/
def constantTimeEq (a b : String) : Bool :=
  let a := a.toByteArray.data.toList
  let b := b.toByteArray.data.toList
  if a.length ≠ b.length then false
  else (a.zip b).foldl (fun acc p => acc ||| (p.1 ^^^ p.2)) 0 == 0

/-- What the key of an annotator comes to: it is refused or accepted, or no hash is read. -/
def Server.check (digest : String → String) (s : Server) (annotatorId key : String) : Option Bool :=
  match s.store (accountKey annotatorId) with
  | some (.counter _ _) => none
  | none => some false
  | some (.hash a _) =>
      if a.status.getD "" ≠ "active" then some false
      else some (constantTimeEq (digest key) (a.keyHash.getD ""))

def internalError : Reply := .error "INTERNAL_ERROR" "Internal error during authentication."

def authFailed : Reply := .error "AUTH_FAILED" "Authentication failed."

/-- A call before its next command, named after the command. -/
inductive Task
  | authHgetall (annotatorId key now : String)
  | authIncr (annotatorId key now : String)
  | authExpire (annotatorId key now : String)
  | authHset (annotatorId key now : String)
  | authDel (annotatorId key now : String)
  | registerExists (annotatorId plaintext : String)
  | registerHset (annotatorId plaintext : String)
  | deactivateExists (annotatorId : String)
  | deactivateHset (annotatorId : String)
  | rotateExists (annotatorId plaintext : String)
  | rotateHset (annotatorId plaintext : String)
  | lapse (key : String)
  deriving DecidableEq

def Call.start : Call → Task
  | authenticate annotatorId key now => .authHgetall annotatorId key now
  | registerAnnotator annotatorId plaintext => .registerExists annotatorId plaintext
  | deactivateAnnotator annotatorId => .deactivateExists annotatorId
  | rotateAnnotatorKey annotatorId plaintext => .rotateExists annotatorId plaintext
  | lapse key => .lapse key

namespace Task

/-- The annotator a task is about. -/
def about : Task → String
  | authHgetall annotatorId _ _ | authIncr annotatorId _ _ | authExpire annotatorId _ _
  | authHset annotatorId _ _ | authDel annotatorId _ _ | registerExists annotatorId _
  | registerHset annotatorId _ | deactivateExists annotatorId | deactivateHset annotatorId
  | rotateExists annotatorId _ | rotateHset annotatorId _ | lapse annotatorId => annotatorId

def isFresh : Task → Bool
  | authHgetall _ _ _ | registerExists _ _ | deactivateExists _ | rotateExists _ _ | lapse _ => true
  | _ => false

/-- What a task does to the hash of its annotator. -/
def write (digest : String → String) : Task → Option (Account → Account)
  | authHset _ _ now => some fun a => { a with lastAuthAt := some now }
  | registerHset _ plaintext => some fun _ => ⟨some "active", some (digest plaintext), some ""⟩
  | deactivateHset _ => some fun a => { a with status := some "deactivated" }
  | rotateHset _ plaintext => some fun a => { a with keyHash := some (digest plaintext) }
  | _ => none

/-- One command. -/
def step (digest : String → String) (s : Server) : Task → Server × Option Task
  | authHgetall annotatorId key now =>
      match s.check digest annotatorId key with
      | none => (s.answer (.authenticate annotatorId key now) internalError, none)
      | some false => (s, some (authIncr annotatorId key now))
      | some true => (s, some (authHset annotatorId key now))
  | authIncr annotatorId key now =>
      match s.incr (failuresKey annotatorId) with
      | none => (s.answer (.authenticate annotatorId key now) authFailed, none)
      | some s => (s, some (authExpire annotatorId key now))
  | authExpire annotatorId key now =>
      ((s.expire (failuresKey annotatorId)).answer (.authenticate annotatorId key now) authFailed, none)
  | authHset annotatorId key now =>
      let after := s.hset (accountKey annotatorId) fun a => { a with lastAuthAt := some now }
      (after.getD s, some (authDel annotatorId key now))
  | authDel annotatorId key now =>
      let reply := .annotatorAuthenticated annotatorId
      ((s.put (failuresKey annotatorId) none).answer (.authenticate annotatorId key now) reply, none)
  | registerExists annotatorId plaintext =>
      if (s.store (accountKey annotatorId)).isSome then
        let reply := .error "ANNOTATOR_EXISTS" s!"Annotator '{annotatorId}' already exists."
        (s.answer (.registerAnnotator annotatorId plaintext) reply, none)
      else (s, some (registerHset annotatorId plaintext))
  | registerHset annotatorId plaintext =>
      let call := .registerAnnotator annotatorId plaintext
      match s.hset (accountKey annotatorId) fun _ => ⟨some "active", some (digest plaintext), some ""⟩ with
      | none => (s.answer call (.error "REGISTER_FAILED" "HSET register_annotator failed"), none)
      | some s => (s.answer call (.annotatorRegistered annotatorId plaintext), none)
  | deactivateExists annotatorId =>
      if (s.store (accountKey annotatorId)).isSome then (s, some (deactivateHset annotatorId))
      else
        let reply := .error "ANNOTATOR_NOT_FOUND" s!"Annotator '{annotatorId}' not found."
        (s.answer (.deactivateAnnotator annotatorId) reply, none)
  | deactivateHset annotatorId =>
      let call := .deactivateAnnotator annotatorId
      match s.hset (accountKey annotatorId) fun a => { a with status := some "deactivated" } with
      | none => (s.answer call (.error "DEACTIVATE_FAILED" "HSET deactivate_annotator failed"), none)
      | some s => (s.answer call (.annotatorDeactivated annotatorId), none)
  | rotateExists annotatorId plaintext =>
      if (s.store (accountKey annotatorId)).isSome then (s, some (rotateHset annotatorId plaintext))
      else
        let reply := .error "ANNOTATOR_NOT_FOUND" s!"Annotator '{annotatorId}' not found."
        (s.answer (.rotateAnnotatorKey annotatorId plaintext) reply, none)
  | rotateHset annotatorId plaintext =>
      let call := .rotateAnnotatorKey annotatorId plaintext
      match s.hset (accountKey annotatorId) fun a => { a with keyHash := some (digest plaintext) } with
      | none => (s.answer call (.error "ROTATE_FAILED" "HSET rotate_annotator_key failed"), none)
      | some s => (s.answer call (.annotatorKeyRotated annotatorId plaintext), none)
  | lapse key => (s.lapse key, none)

end Task

/-- Calls on the accounts whose commands may be interleaved. -/
def accounts (digest : String → String) : Machine Call Server Task String where
  start := Call.start
  step := Task.step digest
  key := Task.about
  fresh := Task.isFresh
  fresh_start c := by cases c <;> rfl

def Server.account (s : Server) (annotatorId : String) : Option Account :=
  match s.store (accountKey annotatorId) with
  | some (.hash a _) => some a
  | _ => none

/-- The id is not that of a failure counter. -/
def Plain (annotatorId : String) : Prop := ∀ id, accountKey annotatorId ≠ failuresKey id

/-- There is no more under the key of an annotator than a hash that stays. -/
def Regular (s : Server) (annotatorId : String) : Prop :=
  ∀ slot, s.store (accountKey annotatorId) = some slot → ∃ a, slot = .hash a false

section Keys

variable {annotatorId id : String}

theorem accountKey_inj : accountKey annotatorId = accountKey id ↔ annotatorId = id := by
  refine ⟨fun h => ?_, fun h => h ▸ rfl⟩
  have hchars := congrArg String.toList h
  rw [accountKey, accountKey, String.toList_append, String.toList_append] at hchars
  exact String.toList_inj.mp (List.append_cancel_left hchars)

end Keys

section Equal

theorem foldl_or (pairs : List (UInt8 × UInt8)) (acc : UInt8) :
    pairs.foldl (fun acc p => acc ||| (p.1 ^^^ p.2)) acc = 0 ↔ acc = 0 ∧ ∀ p ∈ pairs, p.1 = p.2 := by
  induction pairs generalizing acc with
  | nil => simp
  | cons p pairs ih =>
    rw [List.foldl_cons, ih, UInt8.or_eq_zero_iff, UInt8.xor_eq_zero_iff, List.forall_mem_cons, and_assoc]

theorem zip_eq {a b : List UInt8} (hlen : a.length = b.length) : (∀ p ∈ a.zip b, p.1 = p.2) ↔ a = b := by
  induction a generalizing b with
  | nil => simp [(List.length_eq_zero_iff.mp hlen.symm)]
  | cons x a ih =>
    cases b with
    | nil => cases hlen
    | cons y b =>
      rw [List.zip_cons_cons, List.forall_mem_cons, ih (Nat.succ.inj hlen), List.cons.injEq]

/-- The comparison is that of the texts. -/
theorem constantTimeEq_iff (a b : String) : constantTimeEq a b = true ↔ a = b := by
  have htext : a = b ↔ a.toByteArray.data.toList = b.toByteArray.data.toList := by
    rw [← String.toByteArray_inj, ByteArray.ext_iff, ← Array.toList_inj]
  rw [htext, constantTimeEq]
  split
  · rename_i hlen
    exact iff_of_false (by decide) fun h => hlen (congrArg List.length h)
  · rename_i hlen
    rw [beq_iff_eq, foldl_or, ← zip_eq (not_not.mp hlen)]
    exact and_iff_right rfl

end Equal

section Commands

variable {s s' : Server} {key annotatorId : String} {f : Account → Account}

theorem hset_spec (h : s.hset key f = some s') : s'.log = s.log ∧ ∃ a expires,
    s'.store = Function.update s.store key (some (.hash (f a) expires)) ∧
      (s.store key = some (.hash a expires) ∨
        s.store key = none ∧ a = ⟨none, none, none⟩ ∧ expires = false) := by
  rw [Server.hset] at h
  split at h
  · rename_i hnone
    cases h
    exact ⟨rfl, _, _, rfl, .inr ⟨hnone, rfl, rfl⟩⟩
  · rename_i a expires hslot
    cases h
    exact ⟨rfl, a, expires, rfl, .inl hslot⟩
  · cases h

theorem incr_spec (h : s.incr key = some s') : s'.log = s.log ∧ ∃ n expires,
    s'.store = Function.update s.store key (some (.counter n expires)) ∧
      ∀ a expires, s.store key ≠ some (.hash a expires) := by
  rw [Server.incr] at h
  split at h
  · rename_i hnone
    cases h
    exact ⟨rfl, _, _, rfl, fun _ _ hslot => by rw [hnone] at hslot; cases hslot⟩
  · rename_i n expires hslot
    split at h
    · cases h
      exact ⟨rfl, _, _, rfl, fun _ _ hslot' => by rw [hslot] at hslot'; cases hslot'⟩
    · cases h
  · cases h

theorem account_eq_some {a : Account} : s.account annotatorId = some a ↔
    ∃ expires, s.store (accountKey annotatorId) = some (.hash a expires) := by
  rw [Server.account]
  split
  · rename_i b expires hslot
    rw [hslot]
    constructor
    · rintro h
      cases h
      exact ⟨expires, rfl⟩
    · rintro ⟨expires, h⟩
      cases h
      rfl
  · rename_i hslot
    refine iff_of_false (fun h => by cases h) ?_
    rintro ⟨expires, h⟩
    exact hslot a expires h

/-- A key is accepted for an active account with its digest. -/
theorem check_iff {digest : String → String} {candidate : String} :
    s.check digest annotatorId candidate = some true ↔ ∃ a, s.account annotatorId = some a ∧
      a.status = some "active" ∧ digest candidate = a.keyHash.getD "" := by
  have hactive : ∀ a : Account, a.status.getD "" = "active" ↔ a.status = some "active" := by
    intro a
    cases a.status with
    | none => simp
    | some status => simp
  rw [Server.check, Server.account]
  cases s.store (accountKey annotatorId) with
  | none => simp
  | some slot =>
    cases slot with
    | counter n expires => simp
    | hash a expires =>
      dsimp only
      by_cases h : a.status.getD "" = "active"
      · rw [if_neg (not_not.mpr h), Option.some_inj, constantTimeEq_iff]
        simp [(hactive a).mp h]
      · rw [if_pos h]
        simp [mt (hactive a).mpr h]

end Commands

section Steps

variable {digest : String → String} {s : Server} {t : Task} {annotatorId k : String}

/-- What a step of a task makes of the value under a key: it stays, or it is that of a
failure counter and no new hash, or it lapses, or it is the hash that the task writes. -/
def Turns (digest : String → String) (t : Task) (k : String) (old new : Option Slot) : Prop :=
  new = old ∨
    ((∃ id, k = failuresKey id) ∧
      ∀ a expires, new = some (.hash a expires) → ∃ expires', old = some (.hash a expires')) ∨
    ((∀ a, old ≠ some (.hash a false)) ∧ new = none) ∨
    (k = accountKey t.about ∧ ∃ f a expires, t.write digest = some f ∧ new = some (.hash (f a) expires) ∧
      (old = some (.hash a expires) ∨ old = none ∧ a = ⟨none, none, none⟩ ∧ expires = false))

theorem turns_hset {s' : Server} {f : Account → Account} (hwrite : t.write digest = some f)
    (h : s.hset (accountKey t.about) f = some s') : Turns digest t k (s.store k) (s'.store k) := by
  obtain ⟨-, a, expires, hstore, hslot⟩ := hset_spec h
  rw [hstore, Function.update_apply]
  split
  · rename_i hk
    subst hk
    exact .inr (.inr (.inr ⟨rfl, f, a, expires, hwrite, rfl, hslot⟩))
  · exact .inl rfl

theorem turns_incr {id : String} {s' : Server} (h : s.incr (failuresKey id) = some s') :
    Turns digest t k (s.store k) (s'.store k) := by
  obtain ⟨-, n, expires, hstore, -⟩ := incr_spec h
  rw [hstore, Function.update_apply]
  split
  · rename_i hk
    exact .inr (.inl ⟨⟨id, hk⟩, by rintro _ _ ⟨⟩⟩)
  · exact .inl rfl

theorem turns_expire (id : String) : Turns digest t k (s.store k) ((s.expire (failuresKey id)).store k) := by
  rw [Server.expire]
  cases hslot : s.store (failuresKey id) with
  | none => exact .inl rfl
  | some slot =>
    cases slot with
    | counter n expires =>
      dsimp only [Server.put]
      rw [Function.update_apply]
      split
      · rename_i hk
        exact .inr (.inl ⟨⟨id, hk⟩, by rintro _ _ ⟨⟩⟩)
      · exact .inl rfl
    | hash a expires =>
      dsimp only [Server.put]
      rw [Function.update_apply]
      split
      · rename_i hk
        subst hk
        refine .inr (.inl ⟨⟨id, rfl⟩, ?_⟩)
        rintro b _ ⟨⟩
        exact ⟨expires, hslot⟩
      · exact .inl rfl

theorem turns_lapse (key : String) : Turns digest t k (s.store k) ((s.lapse key).store k) := by
  have hgone : (∀ a, s.store key ≠ some (.hash a false)) →
      Turns digest t k (s.store k) ((s.put key none).store k) := by
    intro hexpires
    dsimp only [Server.put]
    rw [Function.update_apply]
    split
    · rename_i hk
      subst hk
      exact .inr (.inr (.inl ⟨hexpires, rfl⟩))
    · exact .inl rfl
  rw [Server.lapse]
  split
  · rename_i n hslot
    exact hgone fun a h => by rw [hslot] at h; cases h
  · rename_i b hslot
    exact hgone fun a h => by rw [hslot] at h; cases h
  · exact .inl rfl

theorem store_step : Turns digest t k (s.store k) ((t.step digest s).1.store k) := by
  cases t with
  | authHgetall id key now | registerExists id plaintext | deactivateExists id | rotateExists id plaintext =>
    rw [Task.step]
    split <;> exact .inl rfl
  | authIncr id key now =>
    rw [Task.step]
    split
    · exact .inl rfl
    · rename_i s' h
      exact turns_incr h
  | authExpire id key now => exact turns_expire id
  | authHset id key now =>
    rw [Task.step]
    cases h : s.hset (accountKey id) fun a => { a with lastAuthAt := some now } with
    | none => exact .inl rfl
    | some s' => exact turns_hset rfl h
  | authDel id key now =>
    change Turns digest _ k (s.store k) (Function.update s.store (failuresKey id) none k)
    rw [Function.update_apply]
    split
    · rename_i hk
      exact .inr (.inl ⟨⟨id, hk⟩, by rintro _ _ ⟨⟩⟩)
    · exact .inl rfl
  | registerHset id plaintext =>
    rw [Task.step]
    split
    · exact .inl rfl
    · rename_i s' h
      have hturns : Turns digest (.registerHset id plaintext) k (s.store k) (s'.store k) := turns_hset rfl h
      exact hturns
  | deactivateHset id =>
    rw [Task.step]
    split
    · exact .inl rfl
    · rename_i s' h
      have hturns : Turns digest (.deactivateHset id) k (s.store k) (s'.store k) := turns_hset rfl h
      exact hturns
  | rotateHset id plaintext =>
    rw [Task.step]
    split
    · exact .inl rfl
    · rename_i s' h
      have hturns : Turns digest (.rotateHset id plaintext) k (s.store k) (s'.store k) := turns_hset rfl h
      exact hturns
  | lapse key => exact turns_lapse key

/-- A step keeps an account or removes it, or it is the write of a task about it. -/
theorem account_step : (t.step digest s).1.account annotatorId = s.account annotatorId ∨
    (t.step digest s).1.account annotatorId = none ∨
    t.about = annotatorId ∧ (∀ n expires, s.store (accountKey annotatorId) ≠ some (.counter n expires)) ∧
      ∃ f, t.write digest = some f ∧ (t.step digest s).1.account annotatorId =
        some (f ((s.account annotatorId).getD ⟨none, none, none⟩)) := by
  obtain hsame | ⟨-, hfades⟩ | ⟨-, hnew⟩ | ⟨hk, f, a, expires, hwrite, hnew, hold⟩ :=
    @store_step digest s t (accountKey annotatorId)
  · exact .inl (by rw [Server.account, Server.account, hsame])
  · cases hafter : (t.step digest s).1.account annotatorId with
    | none => exact .inr (.inl rfl)
    | some a =>
      obtain ⟨expires, hslot⟩ := account_eq_some.mp hafter
      obtain ⟨expires', hslot'⟩ := hfades a expires hslot
      exact .inl (account_eq_some.mpr ⟨expires', hslot'⟩).symm
  · exact .inr (.inl (by rw [Server.account, hnew]))
  · refine .inr (.inr ⟨(accountKey_inj.mp hk).symm, fun n _ hslot => ?_, f, hwrite, ?_⟩)
    · obtain hold | ⟨hold, -, -⟩ := hold
      · rw [hold] at hslot
        cases hslot
      · rw [hold] at hslot
        cases hslot
    · rw [account_eq_some.mpr ⟨expires, hnew⟩]
      obtain hold | ⟨hold, rfl, -⟩ := hold
      · rw [account_eq_some.mpr ⟨expires, hold⟩, Option.getD_some]
      · rw [Server.account, hold, Option.getD_none]

/-- What a step answers: a connection opens at the end of an authentication, and one that
does not open is refused, unless there is no account but a counter. -/
structure Answers (s : Server) (t : Task) (e : Call × Reply) : Prop where
  opens : ∀ id, e.2 = .annotatorAuthenticated id → ∃ key now,
    t = .authDel id key now ∧ e.1 = .authenticate id key now
  refuses : ∀ id key now, e.1 = .authenticate id key now → e.2 = authFailed ∨
    e.2 = .annotatorAuthenticated id ∨
      e.2 = internalError ∧ ∃ n expires, s.store (accountKey id) = some (.counter n expires)

theorem log_expire (key : String) : (s.expire key).log = s.log := by
  rw [Server.expire]
  split <;> rfl

theorem log_lapse (key : String) : (s.lapse key).log = s.log := by
  rw [Server.lapse]
  split <;> rfl

theorem log_step : (t.step digest s).1.log = s.log ∨
    ∃ e, (t.step digest s).1.log = s.log ++ [e] ∧ Answers s t e := by
  cases t with
  | authHgetall id key now =>
    rw [Task.step]
    split
    · rename_i hcheck
      refine .inr ⟨(.authenticate id key now, internalError), rfl, ?_, ?_⟩
      · rintro _ ⟨⟩
      · rintro _ _ _ ⟨⟩
        refine .inr (.inr ⟨rfl, ?_⟩)
        rw [Server.check] at hcheck
        split at hcheck
        · rename_i n expires hslot
          exact ⟨n, expires, hslot⟩
        · cases hcheck
        · split at hcheck <;> cases hcheck
    · exact .inl rfl
    · exact .inl rfl
  | authIncr id key now =>
    rw [Task.step]
    split
    · refine .inr ⟨(.authenticate id key now, authFailed), rfl, ?_, ?_⟩
      · rintro _ ⟨⟩
      · rintro _ _ _ ⟨⟩
        exact .inl rfl
    · rename_i s' h
      exact .inl (incr_spec h).1
  | authExpire id key now =>
    refine .inr ⟨(.authenticate id key now, authFailed), ?_, ?_, ?_⟩
    · rw [Task.step, Server.answer, log_expire]
    · rintro _ ⟨⟩
    · rintro _ _ _ ⟨⟩
      exact .inl rfl
  | authHset id key now =>
    rw [Task.step]
    cases h : s.hset (accountKey id) fun a => { a with lastAuthAt := some now } with
    | none => exact .inl rfl
    | some s' => exact .inl (hset_spec h).1
  | authDel id key now =>
    refine .inr ⟨(.authenticate id key now, .annotatorAuthenticated id), rfl, ?_, ?_⟩
    · rintro _ ⟨⟩
      exact ⟨key, now, rfl, rfl⟩
    · rintro _ _ _ ⟨⟩
      exact .inr (.inl rfl)
  | registerExists id plaintext =>
    rw [Task.step]
    split
    · exact .inr ⟨_, rfl, by rintro _ ⟨⟩, by rintro _ _ _ ⟨⟩⟩
    · exact .inl rfl
  | deactivateExists id | rotateExists id plaintext =>
    rw [Task.step]
    split
    · exact .inl rfl
    · exact .inr ⟨_, rfl, by rintro _ ⟨⟩, by rintro _ _ _ ⟨⟩⟩
  | registerHset id plaintext | deactivateHset id | rotateHset id plaintext =>
    rw [Task.step]
    split
    · exact .inr ⟨_, rfl, by rintro _ ⟨⟩, by rintro _ _ _ ⟨⟩⟩
    · rename_i s' h
      refine .inr ⟨_, congrArg (· ++ [_]) (hset_spec h).1, by rintro _ ⟨⟩, by rintro _ _ _ ⟨⟩⟩
  | lapse key => exact .inl (log_lapse key)

/-- A task that gives out a key answers with it when it has written the account. -/
def Task.grant : Task → Option (Call × Reply)
  | .registerHset id plaintext => some (.registerAnnotator id plaintext, .annotatorRegistered id plaintext)
  | .rotateHset id plaintext => some (.rotateAnnotatorKey id plaintext, .annotatorKeyRotated id plaintext)
  | _ => none

theorem log_grant {e : Call × Reply} (hgrant : t.grant = some e)
    (hslot : ∀ n expires, s.store (accountKey t.about) ≠ some (.counter n expires)) :
    (t.step digest s).1.log = s.log ++ [e] := by
  have hset : ∀ f, ∃ s', s.hset (accountKey t.about) f = some s' := by
    intro f
    rw [Server.hset]
    split
    · exact ⟨_, rfl⟩
    · exact ⟨_, rfl⟩
    · rename_i n expires h
      exact absurd h (hslot n expires)
  cases t with
  | registerHset id plaintext =>
    cases hgrant
    obtain ⟨s', h⟩ := hset fun _ => ⟨some "active", some (digest plaintext), some ""⟩
    change s.hset (accountKey id) _ = some s' at h
    rw [Task.step, h, ← (hset_spec h).1]
    rfl
  | rotateHset id plaintext =>
    cases hgrant
    obtain ⟨s', h⟩ := hset fun a => { a with keyHash := some (digest plaintext) }
    change s.hset (accountKey id) _ = some s' at h
    rw [Task.step, h, ← (hset_spec h).1]
    rfl
  | authHgetall | authIncr | authExpire | authHset | authDel | registerExists | deactivateExists
  | deactivateHset | rotateExists | lapse => cases hgrant

/-- What comes after a task that has not ended. -/
inductive Follows (digest : String → String) (s : Server) : Task → Task → Prop
  | refused {id key now : String} : Follows digest s (.authHgetall id key now) (.authIncr id key now)
  | counted {id key now : String} : Follows digest s (.authIncr id key now) (.authExpire id key now)
  | accepted {id key now : String} (hcheck : s.check digest id key = some true) :
      Follows digest s (.authHgetall id key now) (.authHset id key now)
  | stamped {id key now : String} : Follows digest s (.authHset id key now) (.authDel id key now)
  | vacant {id k : String} (hnone : s.store (accountKey id) = none) :
      Follows digest s (.registerExists id k) (.registerHset id k)
  | deactivated {id : String} : Follows digest s (.deactivateExists id) (.deactivateHset id)
  | rotated {id k : String} : Follows digest s (.rotateExists id k) (.rotateHset id k)

theorem step_next {t' : Task} (h : (t.step digest s).2 = some t') : Follows digest s t t' := by
  cases t with
  | authHgetall id key now =>
    rw [Task.step] at h
    split at h
    · cases h
    · cases h
      exact .refused
    · rename_i hcheck
      cases h
      exact .accepted hcheck
  | authIncr id key now =>
    rw [Task.step] at h
    split at h
    · cases h
    · cases h
      exact .counted
  | authHset id key now =>
    cases h
    exact .stamped
  | registerExists id plaintext =>
    rw [Task.step] at h
    split at h
    · cases h
    · rename_i hexists
      cases h
      exact .vacant (Option.not_isSome_iff_eq_none.mp hexists)
  | deactivateExists id =>
    rw [Task.step] at h
    split at h
    · cases h
      exact .deactivated
    · cases h
  | rotateExists id plaintext =>
    rw [Task.step] at h
    split at h
    · cases h
      exact .rotated
    · cases h
  | registerHset id plaintext | deactivateHset id | rotateHset id plaintext =>
    rw [Task.step] at h
    split at h <;> cases h
  | authExpire | authDel | lapse => cases h

end Steps

section Runs

variable (digest : String → String)

/-- Redis before the first annotator. -/
def vacant : State Server Task := ⟨⟨fun _ => none, []⟩, []⟩

/-- What the calls lead to, in whatever order their commands come. -/
def reached (is : List (Move Call)) : State Server Task := run (accounts digest).move vacant is

/-- A key with the digest has been given out for the annotator. -/
def Issued (log : List (Call × Reply)) (annotatorId hash : String) : Prop :=
  ∃ call k, digest k = hash ∧
    ((call, .annotatorRegistered annotatorId k) ∈ log ∨ (call, .annotatorKeyRotated annotatorId k) ∈ log)

/-- The connection is opened for a key that was given out before. -/
def Earned (log : List (Call × Reply)) : Prop :=
  ∀ before call annotatorId after, log = before ++ (call, .annotatorAuthenticated annotatorId) :: after →
    ∃ key now, call = .authenticate annotatorId key now ∧ Issued digest before annotatorId (digest key)

variable {digest} {log log' : List (Call × Reply)} {annotatorId hash : String}

theorem Issued.append (h : Issued digest log annotatorId hash) (log' : List (Call × Reply)) :
    Issued digest (log ++ log') annotatorId hash := by
  obtain ⟨call, k, hk, hmem | hmem⟩ := h
  · exact ⟨call, k, hk, .inl (List.mem_append_left log' hmem)⟩
  · exact ⟨call, k, hk, .inr (List.mem_append_left log' hmem)⟩

theorem earned_append {e : Call × Reply} (h : Earned digest log)
    (he : ∀ annotatorId, e.2 = .annotatorAuthenticated annotatorId → ∃ key now,
      e.1 = .authenticate annotatorId key now ∧ Issued digest log annotatorId (digest key)) :
    Earned digest (log ++ [e]) := by
  intro before call annotatorId after heq
  obtain rfl | ⟨rest, last, rfl⟩ := List.eq_nil_or_concat after
  · obtain ⟨rfl, hlast⟩ := List.append_inj' heq rfl
    rw [(List.cons.inj hlast).1] at he
    exact he annotatorId rfl
  · rw [List.concat_eq_append, ← List.cons_append, ← List.append_assoc] at heq
    exact h before call annotatorId rest (List.append_inj' heq rfl).1

/-- The digest of an account is of a key that was given out, and an active account has one. -/
def Good (digest : String → String) (log : List (Call × Reply)) (annotatorId : String) (a : Account) : Prop :=
  (∀ hash, a.keyHash = some hash → Issued digest log annotatorId hash) ∧
    (a.status = some "active" → a.keyHash ≠ none)

structure Sound (digest : String → String) (s : Server) : Prop where
  accounts : ∀ annotatorId a, s.account annotatorId = some a → Good digest s.log annotatorId a
  earned : Earned digest s.log

/-- The key of an authentication that was accepted has been given out. -/
def Accepted (digest : String → String) (t : Task) (s : Server) : Prop :=
  ∀ id key now, t = .authHset id key now ∨ t = .authDel id key now → Issued digest s.log id (digest key)

variable {s : Server} {t : Task}

theorem issued_step (h : Issued digest s.log annotatorId hash) :
    Issued digest (t.step digest s).1.log annotatorId hash := by
  obtain hlog | ⟨e, hlog, -⟩ := @log_step digest s t
  · rw [hlog]
    exact h
  · rw [hlog]
    exact h.append [e]

/-- What a task writes is good if what was there is. -/
theorem good_write {f : Account → Account} {a : Account} (hwrite : t.write digest = some f)
    (hslot : ∀ n expires, s.store (accountKey t.about) ≠ some (.counter n expires))
    (ha : Good digest s.log t.about a) : Good digest (t.step digest s).1.log t.about (f a) := by
  cases t with
  | authHset id key now =>
    cases hwrite
    exact ⟨fun hash hkey => issued_step (ha.1 hash hkey), ha.2⟩
  | registerHset id plaintext =>
    cases hwrite
    refine ⟨?_, fun _ => Option.some_ne_none _⟩
    rintro _ ⟨⟩
    rw [log_grant rfl hslot]
    exact ⟨_, plaintext, rfl, .inl (List.mem_append_right _ List.mem_cons_self)⟩
  | deactivateHset id =>
    cases hwrite
    refine ⟨fun hash hkey => issued_step (ha.1 hash hkey), fun hactive => ?_⟩
    exact absurd (Option.some.inj hactive) (by simp)
  | rotateHset id plaintext =>
    cases hwrite
    refine ⟨?_, fun _ => Option.some_ne_none _⟩
    rintro _ ⟨⟩
    rw [log_grant rfl hslot]
    exact ⟨_, plaintext, rfl, .inr (List.mem_append_right _ List.mem_cons_self)⟩
  | authHgetall | authIncr | authExpire | authDel | registerExists | deactivateExists | rotateExists
  | lapse => cases hwrite

theorem sound_step (h : Sound digest s) (hat : Accepted digest t s) : Sound digest (t.step digest s).1 where
  accounts id a ha := by
    obtain hsame | hnone | ⟨rfl, hslot, f, hwrite, hnew⟩ := @account_step digest s t id
    · rw [hsame] at ha
      have hgood := h.accounts id a ha
      exact ⟨fun hash hkey => issued_step (hgood.1 hash hkey), hgood.2⟩
    · rw [hnone] at ha
      cases ha
    · rw [hnew] at ha
      cases ha
      refine good_write hwrite hslot ?_
      cases hold : s.account t.about with
      | none => exact ⟨by rintro _ ⟨⟩, by rintro ⟨⟩⟩
      | some a => exact h.accounts _ a hold
  earned := by
    obtain hlog | ⟨e, hlog, hanswers⟩ := @log_step digest s t
    · rw [hlog]
      exact h.earned
    · rw [hlog]
      refine earned_append h.earned fun id he => ?_
      obtain ⟨key, now, ht, hcall⟩ := hanswers.opens id he
      exact ⟨key, now, hcall, hat id key now (.inr ht)⟩

/-- What is accepted has the digest of the account. -/
theorem issued_check (h : Sound digest s) {id key : String} (hcheck : s.check digest id key = some true) :
    Issued digest s.log id (digest key) := by
  obtain ⟨a, ha, hactive, hdigest⟩ := check_iff.mp hcheck
  obtain ⟨hissued, hsome⟩ := h.accounts id a ha
  obtain ⟨hash, hhash⟩ := Option.ne_none_iff_exists'.mp (hsome hactive)
  rw [hhash, Option.getD_some] at hdigest
  rw [hdigest]
  exact hissued hash hhash

theorem undisturbed_sound :
    (accounts digest).Undisturbed (fun _ => True) (Sound digest) (Accepted digest) where
  call s c _ _ := by
    rintro id key now (h | h)
    · cases c <;> cases h
    · cases c <;> cases h
  step s t h hat := sound_step h hat
  next s t t' h hat hnext := by
    have hfollows : Follows digest s t t' := step_next hnext
    rintro id key now (rfl | rfl)
    · cases hfollows with
      | accepted hcheck => exact issued_step (issued_check h hcheck)
    · cases hfollows with
      | stamped => exact issued_step (hat id key now (.inl rfl))
  frame s t t' _ _ hat id key now ht := issued_step (hat id key now ht)

theorem sound_vacant : Sound digest vacant.shared where
  accounts := by rintro _ _ ⟨⟩
  earned before call annotatorId after heq :=
    absurd heq.symm (List.append_ne_nil_of_right_ne_nil before (List.cons_ne_nil _ after))

/-- Whatever the order of the commands, a connection is opened for a key whose digest is that
of a key given out for its annotator before. -/
theorem earned_run (digest : String → String) (is : List (Move Call)) :
    Earned digest (reached digest is).shared.log := by
  refine (undisturbed_sound.run vacant is sound_vacant ?_ fun _ _ => trivial).1.earned
  exact fun t ht => absurd ht List.not_mem_nil

/-- An authentication is answered in the same words whatever it fails for, unless the id is
that of a failure counter. -/
def RefusesAlike (log : List (Call × Reply)) : Prop :=
  ∀ annotatorId key now reply, (.authenticate annotatorId key now, reply) ∈ log →
    reply = authFailed ∨ reply = .annotatorAuthenticated annotatorId ∨
      reply = internalError ∧ ¬ Plain annotatorId

structure Tidy (s : Server) : Prop where
  regular : ∀ annotatorId, Plain annotatorId → Regular s annotatorId
  alike : RefusesAlike s.log

/-- The openings of connections of an annotator. -/
def openings (annotatorId : String) (log : List (Call × Reply)) : List (Call × Reply) :=
  log.filter fun e => e.2 = .annotatorAuthenticated annotatorId

/-- A key was accepted, and the connection is about to open. -/
def Task.opens (annotatorId : String) : Task → Bool
  | .authHset id _ _ | .authDel id _ _ => id = annotatorId
  | _ => false

def Task.registers (annotatorId : String) : Task → Bool
  | .registerHset id _ => id = annotatorId
  | _ => false

def Task.rotates (annotatorId : String) : Task → Bool
  | .rotateExists id _ | .rotateHset id _ => id = annotatorId
  | _ => false

/-- A registration that is past its check makes an account active again. -/
theorem reopened (digest : String → String) {server : Server} (k : String) (hr : Regular server annotatorId) :
    ∃ e, ((Task.registerHset annotatorId k).step digest server).1.check digest annotatorId k = some true ∧
      ((Task.registerHset annotatorId k).step digest server).1.log = server.log ++ [e] ∧
      e.2 ≠ .annotatorAuthenticated annotatorId := by
  have hslot : ∀ n expires, server.store (accountKey annotatorId) ≠ some (.counter n expires) := by
    intro n expires hslot
    obtain ⟨a, ha⟩ := hr _ hslot
    cases ha
  refine ⟨_, ?_, log_grant rfl hslot, by rintro ⟨⟩⟩
  cases h : server.hset (accountKey annotatorId) fun _ => ⟨some "active", some (digest k), some ""⟩ with
  | none =>
    rw [Server.hset] at h
    split at h
    · cases h
    · cases h
    · rename_i n expires hcounter
      exact absurd hcounter (hslot n expires)
  | some server' =>
    obtain ⟨-, a, expires, hstore, -⟩ := hset_spec h
    have hslot' : server'.store (accountKey annotatorId) =
        some (.hash ⟨some "active", some (digest k), some ""⟩ expires) := by
      rw [hstore, Function.update_self]
    have hactive : (⟨some "active", some (digest k), some ""⟩ : Account).status = some "active" := rfl
    refine check_iff.mpr ⟨_, account_eq_some.mpr ⟨expires, ?_⟩, hactive, rfl⟩
    rw [Task.step, h]
    exact hslot'

/-- The openings since then were all for keys with the digest. -/
def OpenedBy (digest : String → String) (hash annotatorId : String) (opened log : List (Call × Reply)) : Prop :=
  ∃ new, openings annotatorId log = opened ++ new ∧
    ∀ e ∈ new, ∃ key now, e.1 = .authenticate annotatorId key now ∧ digest key = hash

/-- An account with a key, and what was opened for it so far. -/
structure Keyed (digest : String → String) (hash annotatorId : String) (opened : List (Call × Reply))
    (s : Server) : Prop where
  regular : Regular s annotatorId
  account : ∃ a, s.account annotatorId = some a ∧ a.keyHash = some hash
  openings : OpenedBy digest hash annotatorId opened s.log

/-- The task gives out no other key, and accepted no other. -/
def Agrees (digest : String → String) (hash annotatorId : String) (t : Task) (_ : Server) : Prop :=
  (t.registers annotatorId = false ∧ t.rotates annotatorId = false) ∧
    ∀ key now, t = .authHset annotatorId key now ∨ t = .authDel annotatorId key now → digest key = hash

end Runs

section Opening

/-- What the first line of a connection comes to. -/
inductive Opening
  | annotator (annotatorId key : String)
  | admin
  | refused (code message : String)
  deriving DecidableEq

/-- The deserialiser of an AnnotatorAuth message. -/
def annotatorAuth? : Json → Option (String × String)
  | .obj fs =>
      if required asString (occurrences "type" fs) = some "annotator_auth" then do
        return (← required asString (occurrences "annotator_id" fs), ← required asString (occurrences "key" fs))
      else none
  | _ => none

/-- `handle_tcp_connection`, after the handshake and the first line. -/
def handleTcpConnection (token line : String) : Opening :=
  let firstLine := trimmed line
  if firstLine.toList.head? = some '\x7b' then
    match (Json.parse firstLine.toList).bind annotatorAuth? with
    | some (annotatorId, key) => .annotator annotatorId key
    | none =>
        .refused "PARSE_ERROR" "First message must be a plaintext admin token or a JSON annotator_auth."
  else if token ≠ "" ∧ constantTimeEq firstLine token = false then .refused "AUTH_FAILED" "Invalid token."
  else .admin

variable {token line : String}

theorem trimmed_trimmed (line : String) : trimmed (trimmed line) = trimmed line := by
  rw [trimmed, trimmed, String.toList_ofList, Lines.trim, Lines.trim, Lines.strip, Lines.strip,
    Lines.rdropWhile_dropWhile, List.dropWhile_idempotent, List.rdropWhile_idempotent]

theorem admin_iff : handleTcpConnection token line = .admin ↔
    (trimmed line).toList.head? ≠ some '\x7b' ∧ (token = "" ∨ trimmed line = token) := by
  rw [handleTcpConnection]
  by_cases hbrace : (trimmed line).toList.head? = some '\x7b'
  · rw [if_pos hbrace]
    refine iff_of_false ?_ fun h => h.1 hbrace
    split <;> rintro ⟨⟩
  · rw [if_neg hbrace, and_iff_right hbrace]
    by_cases hrefused : token ≠ "" ∧ constantTimeEq (trimmed line) token = false
    · rw [if_pos hrefused]
      refine iff_of_false (by rintro ⟨⟩) ?_
      rintro (htoken | heq)
      · exact hrefused.1 htoken
      · rw [(constantTimeEq_iff _ _).mpr heq] at hrefused
        exact absurd hrefused.2 (by decide)
    · rw [if_neg hrefused]
      refine iff_of_true rfl ?_
      by_contra hother
      rw [not_or] at hother
      refine hrefused ⟨hother.1, Bool.eq_false_iff.mpr fun heq => hother.2 ((constantTimeEq_iff _ _).mp heq)⟩

theorem trimmed_subset (line : String) : ∀ c ∈ (trimmed line).toList, c ∈ line.toList := by
  intro c hc
  rw [trimmed, String.toList_ofList, Lines.trim, Lines.strip] at hc
  exact (List.dropWhile_sublist _).subset (List.IsPrefix.subset (List.rdropWhile_prefix _ _) hc)

/-- A token admits nobody if and only if it is one that no first line is left as: it has
blanks at an end, begins like a message or is longer than a line. -/
theorem locked_out_iff (token : String) :
    (∀ line, '\n' ∉ line.toList → handleTcpConnection token line ≠ .admin) ↔
      token ≠ "" ∧ (trimmed token ≠ token ∨ token.toList.head? = some '\x7b' ∨ '\n' ∈ token.toList) := by
  constructor
  · intro h
    refine ⟨?_, ?_⟩
    · rintro rfl
      exact h "" List.not_mem_nil (admin_iff.mpr ⟨by decide, .inl rfl⟩)
    · by_contra hgood
      obtain ⟨htrim, hgood⟩ := not_or.mp hgood
      obtain ⟨hbrace, hline⟩ := not_or.mp hgood
      have htrim := not_not.mp htrim
      exact h token hline (admin_iff.mpr ⟨by rw [htrim]; exact hbrace, .inr htrim⟩)
  · rintro ⟨hne, hbad⟩ line hline hadmin
    obtain ⟨hbrace, htoken⟩ := admin_iff.mp hadmin
    obtain rfl := htoken.resolve_left hne
    obtain hbad | hbad | hbad := hbad
    · exact hbad (trimmed_trimmed line)
    · exact hbrace hbad
    · exact hline (trimmed_subset line _ hbad)

end Opening

end MemoryArchive.Ipc.Authentication
