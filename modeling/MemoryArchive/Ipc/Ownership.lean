import MemoryArchive.Ipc.Directories

namespace MemoryArchive.Ipc

open Capture (Control LoopControl)
open Registry Runs Storage

section Modes

variable (s : System)

theorem mode_registerSession (env : OperatorEnv) (r : Registration) :
    (registerSession s env r).1.server.storageMode = s.server.storageMode := by
  obtain heq | ⟨record, redis, -, -, -, -, heq | heq⟩ := registerSession_eq s env r
  · rw [heq]
  · rw [heq]
    rfl
  · rw [heq]
    rfl

theorem mode_startWatch (env : OperatorEnv) (sid : String) :
    (startWatch s env sid).1.server.storageMode = s.server.storageMode := by
  obtain heq | ⟨r, -, -, heq | heq⟩ := startWatch_eq s env sid
  · rw [heq]
  · rw [heq]
    rfl
  · rw [heq]
    rfl

theorem mode_done (env : OperatorEnv) (sid : String) :
    (done s env sid).1.server.storageMode = s.server.storageMode := by
  obtain heq | heq | ⟨r, -, heq⟩ := done_eq s env sid
  · rw [heq]
  · rw [heq]
    rfl
  · rw [heq]
    rfl

theorem mode_deleteSession (env : OperatorEnv) (sid : String) (force : Bool) :
    (deleteSession s env sid force).1.server.storageMode = s.server.storageMode := by
  obtain ⟨_, -, -, ⟨-, _, _, _, _, _, -, heq⟩ | ⟨-, _, _, heq⟩⟩ := deleteSession_eq s env sid force
  · rw [heq]
    rfl
  · rw [heq]

theorem mode_connectLoop (sid : String) (id : Nat) (connected : Bool) :
    (connectLoop s sid id connected).server.storageMode = s.server.storageMode := by
  obtain heq | ⟨_, -, -, ⟨-, heq⟩ | ⟨-, heq⟩⟩ := connectLoop_eq s sid id connected
  · rw [heq]
  · rw [heq]
    rfl
  · rw [heq]
    rfl

theorem mode_finishLoop (sid : String) (id : Nat) (renamed : Option String) :
    (finishLoop s sid id renamed).server.storageMode = s.server.storageMode := by
  obtain heq | ⟨l, doneCleanly, -, -, heq⟩ := finishLoop_eq s sid id renamed
  · rw [heq]
  rw [heq]
  obtain hset | ⟨path, -, -, hset⟩ :=
    endLoop_eq (s.watch sid (.finish id)) sid doneCleanly l.wasDegraded renamed
  · rw [hset]
    rfl
  · rw [hset]
    rfl

/-- In local mode a loop that ends interrupted moves the path of its session to
where its directory was renamed to. -/
theorem recordPath_renamed {sid path : String} {id : Nat} {l : LoopControl} (t : String)
    (hmode : s.server.storageMode ≠ "cloud_primary") (hl : (s.control sid).loop? id = some l)
    (hphase : l.phase = .leaving false) :
    recordPath (finishLoop s sid id (some path)).server.redis t =
      if t = sid then (recordPath s.server.redis sid).map fun _ => path
      else recordPath s.server.redis t := by
  rw [finishLoop, hl]
  dsimp only
  rw [hphase]
  dsimp only
  rw [endLoop, if_neg Bool.false_ne_true]
  dsimp only
  rw [if_neg (show ((s.watch sid (.finish id)).setStatus sid .incomplete).server.storageMode ≠
    "cloud_primary" from hmode)]
  refine (recordPath_updateMemoryPath sid path t).trans ?_
  have hset : recordPath (((s.watch sid (.finish id)).setStatus sid .incomplete).server.redis) =
      recordPath s.server.redis := recordPath_updateStatus sid .incomplete
  rw [hset]

theorem recordPath_finish_none (sid : String) (id : Nat) :
    recordPath (finishLoop s sid id none).server.redis = recordPath s.server.redis := by
  funext t
  obtain h | ⟨-, path, hpath, -⟩ := recordPath_finishLoop s sid id none t
  · exact h
  · cases hpath

/-- A deleted session has no path, and the path of no other session changes. -/
theorem recordPath_deleteSession (env : OperatorEnv) (sid : String) (force : Bool) :
    (∀ t, recordPath (deleteSession s env sid force).1.server.redis t =
        if t = sid then none else recordPath s.server.redis t) ∧
        (∃ name removed objects dir, (deleteSession s env sid force).2 =
          .sessionDeleted sid name removed objects dir) ∨
      recordPath (deleteSession s env sid force).1.server.redis = recordPath s.server.redis ∧
        (deleteSession s env sid force).2.IsError := by
  obtain ⟨_, -, -, ⟨-, redis, _, _, _, _, hdelete, heq⟩ | ⟨-, _, _, heq⟩⟩ :=
    deleteSession_eq s env sid force
  · rw [heq]
    exact .inl ⟨recordPath_update (Redis.deleteSession_ok hdelete), _, _, _, _, rfl⟩
  · rw [heq]
    exact .inr ⟨rfl, _, _, rfl⟩

theorem deleteSession_isUuid (env : OperatorEnv) (sid : String) (force : Bool)
    (h : ¬ (deleteSession s env sid force).2.IsError) : env.isUuid sid = true := by
  by_contra huuid
  rw [deleteSession, if_pos (by simpa using huuid)] at h
  exact h ⟨_, _, rfl⟩

end Modes

namespace LocalWorld

variable {w : LocalWorld}

theorem place_root {name : String} (h : Plain name) :
    place (w.root ++ "/" ++ name) = w.base ++ [.normal name.toList] :=
  place_join w.root h

theorem Owned.length (h : w.Owned) {d : List Component} {owner : String}
    (hd : w.dirs.owner d = some owner) : d.length = w.base.length + 1 := by
  obtain ⟨name, -, -, rfl⟩ := h.flat d owner hd
  rw [List.length_append, List.length_singleton]

/-- A touch beside the directories that have an owner, or of one of its own
session. -/
def Fits (w : LocalWorld) (t : Touch) : Prop :=
  t.path.length = w.base.length + 1 ∧ ∀ owner, w.dirs.owner t.path = some owner → owner = t.sid

theorem Owned.fits_own (h : w.Owned) {sid : String} {p : List Component} (removes : Bool)
    (hp : w.dirs.owner p = some sid) : w.Fits ⟨sid, p, removes⟩ :=
  ⟨h.length hp, fun _ howner => Option.some_inj.mp (howner.symm.trans hp)⟩

/-- A touch that fits reaches no directory of another session. -/
theorem Owned.apart (h : w.Owned) {t : Touch} (ht : w.Fits t) {d : List Component} {owner : String}
    (hd : w.dirs.owner d = some owner) (hne : owner ≠ t.sid) : ¬ t.Reaches d := by
  obtain ⟨hlen, hown⟩ := ht
  have hlen' := h.length hd
  rintro (hp | ⟨-, hp⟩)
  · have he := hp.eq_of_length (hlen'.trans hlen.symm)
    exact hne (hown owner (he ▸ hd))
  · have he := hp.eq_of_length (hlen.trans hlen'.symm)
    exact hne (hown owner (he ▸ hd))

theorem Owned.respects (h : w.Owned) {i : LocalInput} (w' : LocalWorld)
    (hfit : ∀ t ∈ w.touches i, w.Fits t) : w.Respects i w' :=
  fun t ht _ _ hd hne => h.apart (hfit t ht) hd hne

/-- The directory named like a session id has no owner. -/
theorem Owned.unnamed (h : w.Owned) {sid : String} (hsid : w.uuid.test sid = true) :
    w.dirs.owner (place (w.root ++ "/" ++ sid)) = none := by
  have hplain := (w.uuid.plain sid hsid).1
  rw [place_root hplain]
  cases ho : w.dirs.owner (w.base ++ [.normal sid.toList]) with
  | none => rfl
  | some owner =>
    obtain ⟨name, -, hname, he⟩ := h.flat _ _ ho
    have hsame : sid = name := String.toList_inj.mp (by simpa using he)
    rw [← hsame, hsid] at hname
    cases hname

theorem Owned.holds (h : w.Owned) {sid path : String} (hh : w.holds sid path = true) :
    w.dirs.owner (place path) = some sid := by
  simp only [LocalWorld.holds, Bool.and_eq_true, decide_eq_true_eq] at hh
  exact h.created sid path hh.1 hh.2

/-- A world whose disk and paths are as before keeps the invariant. -/
theorem Owned.of_same {w' : LocalWorld} (h : w.Owned)
    (hroot : w'.root = w.root) (huuid : w'.uuid = w.uuid)
    (howner : ∀ d, w'.dirs.owner d = w.dirs.owner d)
    (hcreated : ∀ sid, w'.created sid = true → w.created sid = true)
    (hpath : ∀ sid, w'.created sid = true → w'.memoryPath? sid = w.memoryPath? sid)
    (hloops : ∀ sid id dir, w'.loopDirs sid id = some dir →
      w.loopDirs sid id = some dir ∨ dir.owner = sid)
    (hmode : w'.system.server.storageMode = w.system.server.storageMode) : w'.Owned where
  flat d owner hd := by
    rw [howner] at hd
    rw [huuid, base, hroot]
    exact h.flat d owner hd
  created sid path hsid hp := by
    rw [howner]
    exact h.created sid path (hcreated sid hsid) ((hpath sid hsid).symm.trans hp)
  loops sid id dir hdir := (hloops sid id dir hdir).elim (h.loops sid id dir) fun ho => ho
  inLocal := by
    rw [hmode]
    exact h.inLocal

/-- Where the system keeps the paths and the rest of the world stands. -/
theorem Owned.of_system (h : w.Owned) (system : System)
    (hpath : ∀ sid, recordPath system.server.redis sid = w.memoryPath? sid)
    (hmode : system.server.storageMode = w.system.server.storageMode) :
    Owned { w with system := system } :=
  h.of_same rfl rfl (fun _ => rfl) (fun _ hc => hc) (fun sid _ => hpath sid)
    (fun _ _ _ hd => .inl hd) hmode

theorem owner_memoryDirs (dirs : Dirs) (p q : List Component) :
    (memoryDirs dirs p).owner q = dirs.owner q := by
  simp only [memoryDirs, Dirs.owner_make]

theorem isSome_memoryDirs (dirs : Dirs) (p : List Component) : (memoryDirs dirs p p).isSome = true := by
  have hmake : ∀ (dirs : Dirs) (q : List Component), (dirs p).isSome = true →
      (dirs.make q p).isSome = true := by
    intro dirs q hp
    rw [Dirs.make]
    split
    · rw [Option.isSome_or, hp, Bool.true_or]
    · exact hp
  have hfirst : (dirs.make (p ++ [.normal "commands".toList]) p).isSome = true := by
    rw [Dirs.make, if_pos (List.prefix_append _ _), Option.isSome_or, Option.isSome_some,
      Bool.or_true]
  exact hmake _ _ (hmake _ _ hfirst)

/-- RegisterSession on the disk: the new session gets its path, and it is answered
with its id only if nothing was there. -/
theorem register_cases (w : LocalWorld) (env : OperatorEnv) (r : Registration) :
    (registerSession w.system (w.envFor env (w.root ++ "/" ++ r.memoryName)) r).1 = w.system ∧
        (∀ sid, (registerSession w.system (w.envFor env (w.root ++ "/" ++ r.memoryName)) r).2 ≠
          .sessionRegistered sid) ∨
      Plain r.memoryName ∧
        (∀ sid, recordPath (registerSession w.system
            (w.envFor env (w.root ++ "/" ++ r.memoryName)) r).1.server.redis sid =
          if sid = env.sessionId then some (w.root ++ "/" ++ r.memoryName) else w.memoryPath? sid) ∧
        ∀ sid, (registerSession w.system (w.envFor env (w.root ++ "/" ++ r.memoryName)) r).2 =
            .sessionRegistered sid →
          sid = env.sessionId ∧ w.dirs (place (w.root ++ "/" ++ r.memoryName)) = none := by
  obtain ⟨hsame, hno⟩ | ⟨hplain, -, hpath, hreply⟩ :=
    registerSession_cases w.system (w.envFor env (w.root ++ "/" ++ r.memoryName)) r
  · exact .inl ⟨hsame, hno⟩
  refine .inr ⟨hplain, hpath, fun sid hsid => ?_⟩
  rw [hsid] at hreply
  cases he : (w.envFor env (w.root ++ "/" ++ r.memoryName)).dirError with
  | some e =>
    rw [he] at hreply
    cases hreply
  | none =>
    rw [he] at hreply
    refine ⟨OutboundMessage.sessionRegistered.inj hreply, ?_⟩
    by_contra hdir
    dsimp only [envFor] at he
    rw [if_pos (Option.isSome_iff_ne_none.mpr hdir)] at he
    cases he

theorem owned_register (h : w.Owned) (env : OperatorEnv) (r : Registration) (leavesDir : Bool)
    (hname : w.uuid.test r.memoryName = false) : (w.register env r leavesDir).Owned := by
  have hcases := register_cases w env r
  have hmode := mode_registerSession w.system (w.envFor env (w.root ++ "/" ++ r.memoryName)) r
  rw [register]
  split
  · rename_i system sid hreg
    rw [hreg] at hcases hmode
    obtain ⟨-, hno⟩ | ⟨hplain, hpath, hreply⟩ := hcases
    · exact absurd rfl (hno sid)
    obtain ⟨rfl, hdir⟩ := hreply sid rfl
    have howner : ∀ q, ((memoryDirs w.dirs (place (w.root ++ "/" ++ r.memoryName))).setOwner
        (place (w.root ++ "/" ++ r.memoryName)) env.sessionId).owner q =
        if q = place (w.root ++ "/" ++ r.memoryName) then some env.sessionId else w.dirs.owner q := by
      intro q
      rw [Dirs.owner_setOwner (isSome_memoryDirs _ _), owner_memoryDirs]
    refine ⟨fun d owner hd => ?_, fun sid path hsid hp => ?_, h.loops, ?_⟩
    · dsimp only at hd
      rw [howner] at hd
      by_cases hq : d = place (w.root ++ "/" ++ r.memoryName)
      · exact ⟨r.memoryName, hplain, hname, hq.trans (place_root hplain)⟩
      · rw [if_neg hq] at hd
        exact h.flat d owner hd
    · dsimp only at hsid ⊢
      rw [howner]
      have hp' := (hpath sid).symm.trans hp
      by_cases hs : sid = env.sessionId
      · rw [if_pos hs] at hp'
        rw [← Option.some_inj.mp hp', if_pos rfl, hs]
      · rw [if_neg hs] at hp'
        rw [Function.update_of_ne hs] at hsid
        have hold := h.created sid path hsid hp'
        rw [if_neg, hold]
        intro he
        rw [he, Dirs.owner, hdir] at hold
        cases hold
    · rw [hmode]
      exact h.inLocal
  · rename_i system reply hne hreg
    rw [hreg] at hcases hmode
    obtain ⟨hsame, -⟩ | ⟨-, hpath, -⟩ := hcases
    · dsimp only at hsame
      subst hsame
      rw [if_pos (show recordPath w.system.server.redis env.sessionId = w.memoryPath? env.sessionId
        from rfl)]
      exact h
    have hother : ∀ sid, sid ≠ env.sessionId →
        recordPath system.server.redis sid = w.memoryPath? sid :=
      fun sid hs => (hpath sid).trans (if_neg hs)
    split
    · rename_i hkept
      refine h.of_system system (fun sid => ?_) hmode
      by_cases hs : sid = env.sessionId
      · rw [hs, hkept]
      · exact hother sid hs
    · have hcreated : ∀ sid, Function.update w.created env.sessionId false sid = true →
          sid ≠ env.sessionId ∧ w.created sid = true := by
        intro sid hsid
        by_cases hs : sid = env.sessionId
        · rw [hs, Function.update_self] at hsid
          cases hsid
        · rw [Function.update_of_ne hs] at hsid
          exact ⟨hs, hsid⟩
      refine h.of_same rfl rfl (fun d => ?_) (fun sid hsid => (hcreated sid hsid).2)
        (fun sid hsid => hother sid (hcreated sid hsid).1) (fun _ _ _ hd => .inl hd) hmode
      dsimp only
      split
      · exact owner_memoryDirs _ _ d
      · rfl

theorem owned_startWatch (h : w.Owned) (env : OperatorEnv) (sid : String)
    (hsid : ((w.memoryPath? sid).isNone || w.created sid) = true) : (w.startWatch env sid).Owned := by
  rw [startWatch]
  split
  · exact h
  · rename_i path hpath
    rw [hpath] at hsid
    have howner := h.created sid path hsid hpath
    refine h.of_same rfl rfl (fun _ => rfl) (fun _ hc => hc)
      (fun t _ => congrFun (recordPath_startWatch w.system _ sid) t) (fun t id dir hdir => ?_)
      (mode_startWatch w.system _ sid)
    dsimp only at hdir
    by_cases ht : t = sid
    · rw [ht, Function.update_self] at hdir
      by_cases hid : id = (w.system.control sid).nextLoop
      · rw [hid, Function.update_self, howner] at hdir
        cases hdir
        exact .inr ht.symm
      · rw [Function.update_of_ne hid] at hdir
        exact .inl (ht ▸ hdir)
    · rw [Function.update_of_ne ht] at hdir
      exact .inl hdir

theorem owned_done (h : w.Owned) (env : OperatorEnv) (sid : String) : (w.done env sid).Owned := by
  have hpath := fun t => congrFun (recordPath_done w.system env sid) t
  rw [done]
  split
  · exact h.of_system _ hpath (mode_done w.system env sid)
  · exact h.of_same rfl rfl (fun _ => rfl) (fun _ hc => hc) (fun t _ => hpath t)
      (fun _ _ _ hd => .inl hd) (mode_done w.system env sid)

/-- A loop writes the metadata of its session where that session has its directory. -/
theorem owned_flush (h : w.Owned) {dir : LoopDir} (howner : w.dirs.owner (place dir.path) = some dir.owner) :
    (w.flush dir).Owned := by
  have hdir : (w.dirs (place dir.path)).isSome = true := by
    rw [Dirs.owner_some.mp howner]
    rfl
  refine h.of_same rfl rfl (fun d => ?_) (fun _ hc => hc) (fun _ _ => rfl) (fun _ _ _ hd => .inl hd) rfl
  rw [flush, Dirs.owner_setOwner hdir]
  split
  · rename_i hd
    rw [hd, howner]
  · rfl

theorem loopDir_spec {sid : String} {id : Nat} {inPhase : LoopControl → Bool} {dir : LoopDir}
    (hdir : w.loopDir? sid id inPhase = some dir) :
    w.loopDirs sid id = some dir ∧ ∃ l, (w.system.control sid).loop? id = some l ∧ inPhase l = true := by
  rw [loopDir?] at hdir
  split at hdir
  · rename_i l hl
    split at hdir
    · rename_i hphase
      exact ⟨hdir, l, hl, hphase⟩
    · cases hdir
  · cases hdir

/-- A loop that still has the directory of its session writes that session's metadata. -/
theorem Owned.loop_owner (h : w.Owned) {sid : String} {id : Nat} {inPhase : LoopControl → Bool}
    {dir : LoopDir} (hdir : w.loopDir? sid id inPhase = some dir)
    (hh : (w.loopDir? sid id inPhase).all (fun dir => w.holds sid dir.path) = true) :
    dir.owner = sid ∧ w.dirs.owner (place dir.path) = some sid ∧ w.holds sid dir.path = true := by
  rw [hdir] at hh
  exact ⟨h.loops sid id dir (loopDir_spec hdir).1, h.holds hh, hh⟩

theorem owned_connect (h : w.Owned) (sid : String) (id : Nat) (connected : Bool)
    (hh : (!connected || (w.loopDir? sid id isConnecting).all fun dir => w.holds sid dir.path) = true) :
    (w.connect sid id connected).Owned := by
  have hsystem := h.of_system (connectLoop w.system sid id connected)
    (fun t => congrFun (recordPath_connectLoop w.system sid id connected) t)
    (mode_connectLoop w.system sid id connected)
  rw [connect]
  split
  · rename_i dir hdir
    split
    · rename_i hconnected
      rw [hconnected, Bool.not_true, Bool.false_or] at hh
      obtain ⟨howner, hown, -⟩ := h.loop_owner hdir hh
      exact owned_flush hsystem (hown.trans (congrArg some howner.symm))
    · exact hsystem
  · exact hsystem

theorem owned_event (h : w.Owned) (sid : String) (id : Nat)
    (hh : ((w.loopDir? sid id isRunning).all fun dir => w.holds sid dir.path) = true) :
    (w.event sid id).Owned := by
  rw [event]
  split
  · rename_i dir hdir
    obtain ⟨howner, hown, -⟩ := h.loop_owner hdir hh
    exact owned_flush h (hown.trans (congrArg some howner.symm))
  · exact h

/-- Taking a directory away that no session but its own has. -/
theorem owner_purge (h : w.Owned) (sid : String) (p : List Component) {dirs : Dirs} {d : List Component}
    {owner : String} (hdirs : ∀ d o, dirs.owner d = some o → w.dirs.owner d = some o)
    (hd : dirs.owner d = some owner) (hne : owner ≠ sid) : (purge dirs sid p).owner d = some owner := by
  rw [purge]
  split
  · rename_i hp
    rw [Dirs.owner_removeTree, if_neg, hd]
    intro hprefix
    have hlen := h.length (hdirs p sid hp)
    have hlen' := h.length (hdirs d owner hd)
    have he := hprefix.eq_of_length (hlen.trans hlen'.symm)
    rw [he, hd] at hp
    exact hne (Option.some_inj.mp hp)
  · exact hd

theorem owner_of_removeTree {dirs : Dirs} {p d : List Component} {o : String}
    (hd : (dirs.removeTree p).owner d = some o) : dirs.owner d = some o := by
  rw [Dirs.owner_removeTree] at hd
  split at hd
  · cases hd
  · exact hd

theorem owner_of_purge {dirs : Dirs} {sid : String} {p d : List Component} {o : String}
    (hd : (purge dirs sid p).owner d = some o) : dirs.owner d = some o := by
  rw [purge] at hd
  split at hd
  · exact owner_of_removeTree hd
  · exact hd

theorem owned_delete (h : w.Owned) (env : OperatorEnv) (sid : String) (force : Bool) :
    (w.delete env sid force).Owned := by
  have hpath := recordPath_deleteSession w.system (w.envFor env "") sid force
  have hmode := mode_deleteSession w.system (w.envFor env "") sid force
  have huuid := deleteSession_isUuid w.system (w.envFor env "") sid force
  rw [delete]
  split
  · rename_i system _ _ _ _ _ hdelete
    rw [hdelete] at hpath hmode huuid
    have htest : w.uuid.test sid = true := huuid fun ⟨code, message, he⟩ => by cases he
    have hrecord : ∀ t, recordPath system.server.redis t = if t = sid then none else w.memoryPath? t := by
      obtain ⟨hrecord, -⟩ | ⟨-, code, message, he⟩ := hpath
      · exact hrecord
      · cases he
    have hroot : ∀ d o, w.dirs.owner d = some o →
        (w.dirs.removeTree (place (w.root ++ "/" ++ sid))).owner d = some o := by
      intro d o hd
      rw [Dirs.owner_removeTree, if_neg, hd]
      intro hprefix
      have hplain := (w.uuid.plain sid htest).1
      have hlen : (place (w.root ++ "/" ++ sid)).length = w.base.length + 1 := by
        rw [place_root hplain, List.length_append, List.length_singleton]
      have he := hprefix.eq_of_length (hlen.trans (h.length hd).symm)
      have hnone := h.unnamed htest
      rw [he, hd] at hnone
      cases hnone
    refine ⟨fun d owner hd => ?_, fun t path ht hp => ?_, h.loops, ?_⟩
    · refine h.flat d owner ?_
      dsimp only at hd
      split at hd
      · exact owner_of_removeTree hd
      · exact owner_of_removeTree (owner_of_purge (owner_of_purge hd))
    · have hp' := (hrecord t).symm.trans hp
      by_cases hts : t = sid
      · rw [if_pos hts] at hp'
        cases hp'
      rw [if_neg hts] at hp'
      have hold := hroot _ _ (h.created t path ht hp')
      have hremoved : ∀ d o, (w.dirs.removeTree (place (w.root ++ "/" ++ sid))).owner d = some o →
          w.dirs.owner d = some o := fun d o hd => owner_of_removeTree hd
      dsimp only
      split
      · exact hold
      · rename_i own _
        have hfirst := owner_purge h sid (place own) hremoved hold hts
        exact owner_purge h sid _ (fun d o hd => hremoved d o (owner_of_purge hd)) hfirst hts
    · rw [hmode]
      exact h.inLocal
  · rename_i system reply hne hdelete
    rw [hdelete] at hpath hmode
    obtain ⟨-, name, removed, objects, dir, he⟩ | ⟨hsame, -⟩ := hpath
    · exact absurd he (hne sid name removed objects dir)
    · exact h.of_system system (fun t => congrFun hsame t) hmode

/-- The mark keeps a name plain, and no session id ends in it. -/
theorem plain_marked {name : String} (h : Plain name) : Plain (name ++ incompleteMark) := by
  obtain ⟨-, -, -, hslash⟩ := h
  have hlist : (name ++ incompleteMark).toList = name.toList ++ incompleteMark.toList := by simp
  have hlen : (name ++ incompleteMark).toList.length = name.toList.length + 13 := by
    rw [hlist, List.length_append]
    rfl
  refine ⟨?_, ?_, ?_, ?_⟩
  · intro he
    rw [he] at hlen
    simp at hlen
  · intro he
    rw [he] at hlen
    simp at hlen
  · intro he
    rw [he] at hlen
    simp at hlen
  · rw [hlist, List.mem_append]
    rintro (hc | hc)
    · exact hslash hc
    · revert hc
      decide

/-- Where the directory of an interrupted session is moved from and to. -/
inductive Renames (w : LocalWorld) (p : List Component) (path : String) (dirs : Dirs) : Prop
  | stays (hsame : place path = p) (hdirs : dirs = w.dirs)
  | moves (name : String) (hname : Plain name) (hp : p = w.base ++ [.normal name.toList])
      (hp' : place path = w.base ++ [.normal (name ++ incompleteMark).toList])
      (hfree : w.dirs (place path) = none) (hdirs : dirs = w.dirs.moveTree p (place path))

theorem Owned.renames (h : w.Owned) {sid path : String} {p : List Component} {renamed : Option String}
    {dirs : Dirs} (hp : w.dirs.owner p = some sid) (hr : w.rename p renamed = some (path, dirs)) :
    renamed = some path ∧ w.Renames p path dirs := by
  obtain ⟨name, hplain, -, rfl⟩ := h.flat p sid hp
  cases renamed with
  | none => cases hr
  | some target =>
  rw [rename] at hr
  split at hr
  · rename_i hplace
    split at hr
    · rename_i hsame
      cases hr
      exact ⟨rfl, .stays hsame rfl⟩
    · rename_i hmoved
      split at hr
      · rename_i hfree
        cases hr
        refine ⟨rfl, .moves name hplain rfl ?_ ?_ rfl⟩
        · rw [incompletePlace, List.getLast?_concat, List.dropLast_concat] at hplace
          dsimp only at hplace
          split at hplace
          · exact absurd (Option.some_inj.mp hplace).symm hmoved
          · rw [← Option.some_inj.mp hplace]
            simp
        · simp only [Bool.and_eq_true, Option.isNone_iff_eq_none] at hfree
          exact hfree.2
      · cases hr
  · cases hr

/-- A moved directory keeps its session, and no other session loses its own. -/
theorem Renames.owner (h : w.Owned) {sid path : String} {p : List Component} {dirs : Dirs}
    (hp : w.dirs.owner p = some sid) (hr : w.Renames p path dirs) :
    dirs.owner (place path) = some sid ∧
      (∀ d o, dirs.owner d = some o → d = place path ∨ w.dirs.owner d = some o) ∧
      ∀ d o, w.dirs.owner d = some o → o ≠ sid → dirs.owner d = some o := by
  cases hr with
  | stays hsame hdirs =>
    subst hdirs
    exact ⟨by rw [hsame, hp], fun d o hd => .inr hd, fun d o hd _ => hd⟩
  | moves name hname hpath hplace hfree hdirs =>
    subst hdirs
    refine ⟨?_, fun d o hd => ?_, fun d o hd hne => ?_⟩
    · rw [Dirs.owner_moveTree, if_pos (List.prefix_refl _), List.drop_length, List.append_nil, hp]
    · rw [Dirs.owner_moveTree] at hd
      split at hd
      · rename_i hprefix
        obtain ⟨rest, rfl⟩ := hprefix
        rw [List.drop_left] at hd
        have hlen := h.length hd
        rw [hpath, List.append_assoc, List.length_append, List.length_append,
          List.length_singleton] at hlen
        have hrest : rest = [] := List.length_eq_zero_iff.mp (by omega)
        exact .inl (by rw [hrest, List.append_nil])
      split at hd
      · cases hd
      · exact .inr hd
    · have hlen := h.length hd
      rw [Dirs.owner_moveTree, if_neg, if_neg]
      · exact hd
      · intro hprefix
        have he := hprefix.eq_of_length ((h.length hp).trans hlen.symm)
        rw [he, hd] at hp
        exact hne (Option.some_inj.mp hp)
      · intro hprefix
        have hlen' : (place path).length = w.base.length + 1 := by
          rw [hplace, List.length_append, List.length_singleton]
        have he := hprefix.eq_of_length (hlen'.trans hlen.symm)
        rw [← he, Dirs.owner, hfree] at hd
        cases hd

theorem isLeaving_phase {doneCleanly : Bool} {l : LoopControl} (h : isLeaving doneCleanly l = true) :
    l.phase = .leaving doneCleanly := by
  simpa [isLeaving] using h

theorem owned_finish (h : w.Owned) (sid : String) (id : Nat) (placeholders : Bool)
    (renamed : Option String)
    (hclean : ((w.loopDir? sid id (isLeaving true)).all fun dir => w.holds sid dir.path) = true)
    (hinterrupted : ((w.loopDir? sid id (isLeaving false)).all fun dir => w.holds sid dir.path) = true) :
    (w.finish sid id placeholders renamed).Owned := by
  have hnone := h.of_system (finishLoop w.system sid id none)
    (fun t => congrFun (recordPath_finish_none w.system sid id) t)
    (mode_finishLoop w.system sid id none)
  rw [finish]
  split
  · rename_i dir hdir
    obtain ⟨howner, hown, -⟩ := h.loop_owner hdir hclean
    have hflush := owned_flush hnone (hown.trans (congrArg some howner.symm))
    dsimp only
    split
    · exact hflush.of_same rfl rfl (fun d => Dirs.owner_make _ d) (fun _ hc => hc) (fun _ _ => rfl)
        (fun _ _ _ hd => .inl hd) rfl
    · exact hflush
  · rename_i dir _ hdir
    obtain ⟨-, hown, hholds⟩ := h.loop_owner hdir hinterrupted
    split
    · rename_i path dirs hrename
      obtain ⟨rfl, hrenames⟩ := h.renames hown hrename
      obtain ⟨-, l, hl, hphase⟩ := loopDir_spec hdir
      obtain ⟨hplace, hafter, hbefore⟩ := Renames.owner h hown hrenames
      have hpath : ∀ t, recordPath (finishLoop w.system sid id (some path)).server.redis t =
          if t = sid then (w.memoryPath? sid).map fun _ => path else w.memoryPath? t :=
        fun t => recordPath_renamed w.system t h.inLocal hl (isLeaving_phase hphase)
      refine ⟨fun d owner hd => ?_, fun t path' ht hp => ?_, h.loops, ?_⟩
      · obtain rfl | hold := hafter d owner hd
        · cases hrenames with
          | stays hsame hdirs =>
            obtain ⟨name, hname⟩ := h.flat _ _ hown
            exact ⟨name, by rw [hsame]; exact hname⟩
          | moves name hname _ hplace' _ _ =>
            refine ⟨name ++ incompleteMark, plain_marked hname, ?_, hplace'⟩
            by_contra huuid
            exact (w.uuid.plain _ (by simpa using huuid)).2 name rfl
        · exact h.flat d owner hold
      · have hp' := (hpath t).symm.trans hp
        by_cases hts : t = sid
        · rw [if_pos hts] at hp'
          obtain ⟨_, -, rfl⟩ := Option.map_eq_some_iff.mp hp'
          rw [hts]
          exact hplace
        · rw [if_neg hts] at hp'
          exact hbefore _ _ (h.created t path' ht hp') hts
      · dsimp only
        rw [mode_finishLoop]
        exact h.inLocal
    · exact hnone
  · exact hnone

theorem owned_step (h : w.Owned) (i : LocalInput) (hi : w.Careful i = true) : (w.step i).Owned := by
  cases i with
  | register env r leavesDir => exact owned_register h env r leavesDir (by simpa [Careful] using hi)
  | startWatch env sid => exact owned_startWatch h env sid hi
  | done env sid => exact owned_done h env sid
  | delete env sid force => exact owned_delete h env sid force
  | connect sid id connected => exact owned_connect h sid id connected hi
  | event sid id => exact owned_event h sid id hi
  | leave sid id doneCleanly => exact h.of_system _ (fun _ => rfl) rfl
  | finish sid id placeholders renamed =>
    obtain ⟨hclean, hinterrupted⟩ := Bool.and_eq_true_iff.mp hi
    exact owned_finish h sid id placeholders renamed hclean hinterrupted
  | closingImage k =>
    exact h.of_same rfl rfl (fun _ => rfl) (fun _ hc => hc) (fun _ _ => rfl) (fun _ _ _ hd => .inl hd) rfl

theorem fits_register (env : OperatorEnv) (r : Registration) (leavesDir : Bool) :
    ∀ t ∈ w.touches (.register env r leavesDir), w.Fits t := by
  intro t ht
  rw [touches] at ht
  split at ht
  · cases ht
  rename_i hchanged
  rw [not_or] at hchanged
  obtain ⟨hdir, hrecord⟩ := hchanged
  obtain rfl := List.mem_singleton.mp ht
  obtain ⟨hsame, -⟩ | ⟨hplain, -, -⟩ := register_cases w env r
  · rw [hsame] at hrecord
    exact absurd rfl hrecord
  refine ⟨?_, fun owner howner => ?_⟩
  · dsimp only
    rw [place_root hplain, List.length_append, List.length_singleton]
  · rw [Dirs.owner_some] at howner
    dsimp only at howner
    rw [howner] at hdir
    exact absurd rfl hdir

theorem fits_delete (h : w.Owned) (env : OperatorEnv) (sid : String) (force : Bool) :
    ∀ t ∈ w.touches (.delete env sid force), w.Fits t := by
  intro t ht
  have huuid := deleteSession_isUuid w.system (w.envFor env "") sid force
  rw [touches] at ht
  split at ht
  · rename_i hdelete
    rw [hdelete] at huuid
    have htest : w.uuid.test sid = true := huuid fun ⟨code, message, he⟩ => by cases he
    obtain rfl | ht := List.mem_cons.mp ht
    · refine ⟨?_, fun owner howner => ?_⟩
      · dsimp only
        rw [place_root (w.uuid.plain sid htest).1, List.length_append, List.length_singleton]
      · dsimp only at howner
        rw [h.unnamed htest] at howner
        cases howner
    · obtain ⟨p, hp, rfl⟩ := List.mem_map.mp ht
      split at hp
      · cases hp
      · exact h.fits_own true (by simpa using (List.mem_filter.mp hp).2)
  · cases ht

theorem fits_finish (h : w.Owned) (sid : String) (id : Nat) (placeholders : Bool)
    (renamed : Option String)
    (hclean : ((w.loopDir? sid id (isLeaving true)).all fun dir => w.holds sid dir.path) = true)
    (hinterrupted : ((w.loopDir? sid id (isLeaving false)).all fun dir => w.holds sid dir.path) = true) :
    ∀ t ∈ w.touches (.finish sid id placeholders renamed), w.Fits t := by
  intro t ht
  rw [touches] at ht
  split at ht
  · rename_i dir hdir
    obtain rfl := List.mem_singleton.mp ht
    exact h.fits_own false (h.loop_owner hdir hclean).2.1
  · rename_i dir _ hdir
    have hown := (h.loop_owner hdir hinterrupted).2.1
    split at ht
    · rename_i path dirs hrename
      obtain rfl | ht := List.mem_cons.mp ht
      · exact h.fits_own true hown
      obtain rfl := List.mem_singleton.mp ht
      cases (h.renames hown hrename).2 with
      | stays hsame _ => exact h.fits_own false (hsame ▸ hown)
      | moves name _ _ hplace hfree _ =>
        refine ⟨?_, fun owner howner => ?_⟩
        · dsimp only
          rw [hplace, List.length_append, List.length_singleton]
        · rw [Dirs.owner_some] at howner
          exact absurd (howner.symm.trans hfree) (by simp)
    · obtain rfl := List.mem_singleton.mp ht
      exact h.fits_own false hown
  · cases ht

theorem fits_touches (h : w.Owned) (i : LocalInput) (hi : w.Careful i = true) :
    ∀ t ∈ w.touches i, w.Fits t := by
  cases i with
  | register env r leavesDir => exact fits_register env r leavesDir
  | startWatch env sid => simp [touches]
  | done env sid =>
    intro t ht
    rw [touches] at ht
    split at ht
    · rename_i path _ hpath
      obtain rfl := List.mem_singleton.mp ht
      rw [Careful, hpath] at hi
      exact h.fits_own false (h.created sid path hi hpath)
    · cases ht
  | delete env sid force => exact fits_delete h env sid force
  | connect sid id connected =>
    intro t ht
    rw [touches] at ht
    split at ht
    · rename_i dir hdir
      split at ht
      · rename_i hconnected
        obtain rfl := List.mem_singleton.mp ht
        rw [Careful, hconnected, Bool.not_true, Bool.false_or] at hi
        exact h.fits_own false (h.loop_owner hdir hi).2.1
      · cases ht
    · cases ht
  | event sid id =>
    intro t ht
    rw [touches] at ht
    split at ht
    · rename_i dir hdir
      obtain rfl := List.mem_singleton.mp ht
      exact h.fits_own false (h.loop_owner hdir hi).2.1
    · cases ht
  | leave sid id doneCleanly => simp [touches]
  | finish sid id placeholders renamed =>
    obtain ⟨hclean, hinterrupted⟩ := Bool.and_eq_true_iff.mp hi
    exact fits_finish h sid id placeholders renamed hclean hinterrupted
  | closingImage k =>
    intro t ht
    rw [touches] at ht
    split at ht
    · rename_i sid path hc
      obtain rfl := List.mem_singleton.mp ht
      rw [Careful, hc] at hi
      exact h.fits_own false (h.holds hi)
    · cases ht

/-- The program when its registry holds no session and its root no directory
with an owner. -/
def start (server : Server) (root : String) (uuid : UuidTest) : LocalWorld where
  system := .start server
  root := root
  uuid := uuid
  dirs := Dirs.make (fun _ => none) (place (root ++ "/"))
  loopDirs _ _ := none
  closing := []
  created _ := false

theorem owned_start (server : Server) (root : String) (uuid : UuidTest)
    (hmode : server.storageMode ≠ "cloud_primary") : (start server root uuid).Owned where
  flat d owner hd := by
    rw [start, Dirs.owner_make] at hd
    cases hd
  created _ _ hsid _ := by cases hsid
  loops _ _ _ hdir := by cases hdir
  inLocal := hmode

/-- In a run of careful inputs nothing that is done for a session changes anything
in a directory of another one. -/
theorem directories_respected (server : Server) (root : String) (uuid : UuidTest)
    (is : List LocalInput) (hmode : server.storageMode ≠ "cloud_primary")
    (hg : Guarded step (fun w i => w.Careful i = true) (start server root uuid) is) :
    Along step Respects (start server root uuid) is := by
  have hstep : ∀ (w : LocalWorld) i, w.Owned → w.Careful i = true → (w.step i).Owned :=
    fun _ i h hi => owned_step h i hi
  have hrespects : ∀ (w : LocalWorld) i, w.Owned → w.Careful i = true → w.Respects i (w.step i) :=
    fun w i h hi => h.respects (w.step i) (fits_touches h i hi)
  exact along_run hstep hrespects (start server root uuid) is (owned_start server root uuid hmode) hg

def isHexDigit (c : Char) : Bool :=
  ('0' ≤ c && c ≤ '9') || ('A' ≤ c && c ≤ 'F') || ('a' ≤ c && c ≤ 'f')

/-- The hyphenated form of a session id. -/
def hyphenated (text : String) : Bool :=
  text.toList.all (fun c => isHexDigit c || c = '-') &&
    (Lines.split (· = '-') text.toList).map List.length = [8, 4, 4, 4, 12]

def hyphenatedTest : UuidTest where
  test := hyphenated
  plain text h := by
    have hall : ∀ c ∈ text.toList, (isHexDigit c || c = '-') = true :=
      List.all_eq_true.mp (Bool.and_eq_true_iff.mp h).1
    refine ⟨⟨?_, ?_, ?_, fun hslash => ?_⟩, fun name he => ?_⟩
    · rintro rfl
      revert h
      decide
    · rintro rfl
      revert h
      decide
    · rintro rfl
      revert h
      decide
    · exact absurd (hall '/' hslash) (by decide)
    · have hblank : ' ' ∈ text.toList := by
        rw [he, String.toList_append, List.mem_append]
        exact .inr (by decide)
      exact absurd (hall ' ' hblank) (by decide)

def first : String := "00000000-0000-4000-8000-000000000001"

def second : String := "00000000-0000-4000-8000-000000000002"

def registerNamed (sid name : String) : LocalInput :=
  .register { lifecycleEnv with sessionId := sid } ⟨"automated", name, none, none, "", ""⟩ false

/-- Two sessions, one of which is interrupted, so that its directory is renamed
and its name can be taken again. -/
def careful : List LocalInput :=
  [registerNamed first "demo", .startWatch lifecycleEnv first, .connect first 0 true,
    .event first 0, .leave first 0 false, .finish first 0 false (some "/memories/demo (incomplete)"),
    registerNamed second "demo", .startWatch lifecycleEnv second, .connect second 0 true,
    .done lifecycleEnv second, .leave second 0 true, .finish second 0 false none, .closingImage 0,
    .delete lifecycleEnv first false]

theorem directories_respected_sample :
    Along step Respects (start (sampleServer []) "/memories" hyphenatedTest) careful :=
  directories_respected (sampleServer []) "/memories" hyphenatedTest careful (by decide)
    (by decide +kernel)

/-- The last input of a run reaches the directory of another session. -/
theorem not_respected {is : List LocalInput} {i : LocalInput} (t : Touch) (d : List Component)
    (owner : String) (ht : t ∈ (run step w is).touches i)
    (hd : (run step w is).dirs.owner d = some owner) (hne : owner ≠ t.sid) (hr : t.Reaches d) :
    ¬ Along step Respects w (is ++ [i]) := by
  intro h
  obtain ⟨-, hlast, -⟩ := (along_append w is [i]).mp h
  exact hlast t ht d owner hd hne hr

/-- Done writes to the directory that the RegisterSession of its session could not
make, as its name was taken; the loop of a deleted session writes to the directory
that now has its name; and DeleteSession removes a directory that was named like
its session id. -/
theorem foreign_directory_touched :
    ¬ Along step Respects (start (sampleServer []) "/memories" hyphenatedTest)
        ([registerNamed first "demo", registerNamed second "demo"] ++ [.done lifecycleEnv second]) ∧
      ¬ Along step Respects (start (sampleServer []) "/memories" hyphenatedTest)
        ([registerNamed first "demo", .startWatch lifecycleEnv first, .connect first 0 true,
          .delete lifecycleEnv first true, registerNamed second "demo"] ++ [.event first 0]) ∧
      ¬ Along step Respects (start (sampleServer []) "/memories" hyphenatedTest)
        ([registerNamed first second] ++ [.delete lifecycleEnv second false]) := by
  refine ⟨?_, ?_, ?_⟩
  · exact not_respected ⟨second, place "/memories/demo", false⟩ (place "/memories/demo") first
      (by decide +kernel) (by decide +kernel) (by decide) (.inl (List.prefix_refl _))
  · exact not_respected ⟨first, place "/memories/demo", false⟩ (place "/memories/demo") second
      (by decide +kernel) (by decide +kernel) (by decide) (.inl (List.prefix_refl _))
  · exact not_respected ⟨second, place ("/memories/" ++ second), true⟩ (place ("/memories/" ++ second))
      first (by decide +kernel) (by decide +kernel) (by decide) (.inl (List.prefix_refl _))

end LocalWorld

end MemoryArchive.Ipc
