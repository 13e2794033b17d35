import MemoryArchive.Storage.CloudCopy

namespace MemoryArchive.Storage.CloudCopy

open Function (update)
open Runs Sync

variable {β : Type}

section Steps

open State

variable {c : Session} {s : State β}

theorem sound_write (hs : s.Sound c) (path : String) (content : β) (script : List (Action β))
    (wrote : List String) (hrenamed : s.renamed = false)
    (hscript : ∀ disconnected, s.loop = .ended disconnected → script = [])
    (hwrote : ∀ p ∈ wrote, p ≠ path → p ∈ s.wrote) (hclient : path ∈ wrote → s.client = .receiving) :
    ({ s.writeFile c path content with script := script, wrote := wrote } : State β).Sound c := by
  have hnot : ¬ s.renamed = true := by rw [hrenamed]; nofun
  refine ⟨?_, hs.atHome, hs.saved, hs.logged, fun h => absurd h hnot, hs.receiving, ?_, hs.finished, hscript,
    fun h => absurd h hnot, hs.returned⟩
  · intro _ p hp hannounced
    change update s.announced path false p = true at hannounced
    by_cases hpath : p = path
    · subst hpath
      rw [Function.update_self] at hannounced
      cases hannounced
    · rw [Function.update_of_ne hpath] at hannounced
      exact (hs.covered hrenamed p (hwrote p hp hpath) hannounced).mono rfl id rfl (fun _ h => h) rfl rfl rfl
        (Function.update_of_ne hpath _ _)
  · intro hstopped _ p hp
    change update s.announced path false p = true
    by_cases hpath : p = path
    · subst hpath
      exact absurd (hclient hp) hstopped
    · rw [Function.update_of_ne hpath]
      exact hs.told hstopped hrenamed p (hwrote p hp hpath)

theorem mem_trySend {p q : Push} (h : q ∈ (s.trySend p).queue) : q ∈ s.queue ∨ q = p := by
  rw [State.trySend] at h
  split at h
  · exact (List.mem_append.mp h).imp_right List.mem_singleton.mp
  · exact .inl h

theorem mem_trySend_of_mem (p : Push) {q : Push} (h : q ∈ s.queue) : q ∈ (s.trySend p).queue := by
  rw [State.trySend]
  split
  · exact List.mem_append_left _ h
  · exact h

theorem trySend_eq (p : Push) : s.trySend p = { s with queue := (s.trySend p).queue } := by
  rw [State.trySend]
  split
  · rfl
  · rfl

theorem sound_trySend (hs : s.Sound c) (p : Push)
    (hover : p = .sessionComplete ∨ p = .sessionDisconnected → ∃ disconnected, s.loop = .ended disconnected) :
    (s.trySend p).Sound c := by
  rw [trySend_eq]
  refine { hs with covered := ?_, finished := ?_ }
  · intro hrenamed path hpath hannounced
    exact (hs.covered hrenamed path hpath hannounced).mono rfl (mem_trySend_of_mem p) rfl (fun _ h => h)
      rfl rfl rfl rfl
  · rintro (h | h | h)
    · obtain h | h := mem_trySend h
      · exact hs.finished (.inl h)
      · exact hover (.inl h.symm)
    · obtain h | h := mem_trySend h
      · exact hs.finished (.inr (.inl h))
      · exact hover (.inr h.symm)
    · exact hs.finished (.inr (.inr h))

/-- An announcement that is not dropped, or not the only one, covers its file. -/
theorem covered_announce (hs : s.Sound c) {path : String} (hrenamed : s.renamed = false)
    (hpath : path ∈ s.wrote) (hkept : s.announced path = false → s.Room ∨ s.Unread c path) :
    (s.trySend (.fileWritten path)).Covered c path := by
  have hmono : s.Covered c path → (s.trySend (.fileWritten path)).Covered c path := by
    intro h
    rw [trySend_eq]
    exact h.mono rfl (mem_trySend_of_mem _) rfl (fun _ h => h) rfl rfl rfl rfl
  cases hannounced : s.announced path with
  | true => exact hmono (hs.covered hrenamed path hpath hannounced)
  | false =>
    have hclient : s.client = .receiving := by
      by_contra hstopped
      rw [hs.told hstopped hrenamed path hpath] at hannounced
      cases hannounced
    obtain ⟨hnone, hphase⟩ := hs.receiving hclient
    obtain hroom | hqueue | henqueued | htaken := hkept hannounced
    · refine .queued ?_ ?_
      · rw [trySend_eq]
        exact hclient
      · rw [State.trySend, if_pos hroom]
        exact List.mem_append_right _ List.mem_cons_self
    · exact hmono (.queued hclient hqueue)
    · exact hmono (.enqueued hphase _ (mem_pending hnone henqueued) rfl)
    · refine hmono (.handled ?_)
      rw [htaken]
      rfl

theorem sound_announce (hs : s.Sound c) (path : String) (script : List (Action β))
    (hkept : path ∈ s.wrote → s.announced path = false → s.Room ∨ s.Unread c path)
    (hscript : ∀ disconnected, s.loop = .ended disconnected → script = [])
    (hleft : s.renamed = true → script = [] ∧ s.loop ≠ .capturing) :
    ({ s.announce path with script := script } : State β).Sound c := by
  have hpush := sound_trySend hs (.fileWritten path) nofun
  have hcovered := @covered_announce β c s hs path
  rw [trySend_eq] at hpush hcovered
  rw [State.announce, trySend_eq]
  refine { hpush with covered := ?_, told := ?_, ended := hscript, left := hleft }
  · intro hrenamed p hp hannounced
    change update s.announced path true p = true at hannounced
    by_cases hpath : p = path
    · subst hpath
      exact (hcovered hrenamed hp (hkept hp)).mono rfl id rfl (fun _ h => h) rfl rfl rfl rfl
    · rw [Function.update_of_ne hpath] at hannounced
      exact (hpush.covered hrenamed p hp hannounced).mono rfl id rfl (fun _ h => h) rfl rfl rfl rfl
  · intro hstopped hrenamed p hp
    change update s.announced path true p = true
    by_cases hpath : p = path
    · rw [hpath, Function.update_self]
    · rw [Function.update_of_ne hpath]
      exact hs.told hstopped hrenamed p hp

/-- The loop is over once it has nothing left to do. -/
theorem sound_end (hs : s.Sound c) (hscript : s.script = []) (disconnected : Bool) :
    ({ s with loop := .ended disconnected } : State β).Sound c :=
  { hs with
    covered := fun hrenamed path hpath hannounced =>
      (hs.covered hrenamed path hpath hannounced).mono rfl id rfl (fun _ h => h) rfl rfl rfl rfl
    finished := fun _ => ⟨disconnected, rfl⟩
    ended := fun _ _ => hscript
    left := fun _ => ⟨hscript, nofun⟩ }

theorem sound_rename (hs : s.Sound c) (hscript : s.script = []) (disconnected : Bool)
    (hloop : ∀ d, s.loop ≠ .ended d)
    (hkept : ∀ path ∈ s.wrote, (s.store path = s.files path ∨ (s.worker.disk c.sid).Listed path) ∧
      ∀ e attempt version, s.worker.phase = .uploading e attempt version →
        e.relativePath = path → s.reading = s.files path) :
    ({ s with renamed := true, loop := .leaving disconnected false } : State β).Sound c :=
  { hs with
    covered := nofun
    saved := nofun
    logged := nofun
    moved := fun _ path hpath => ⟨(hkept path hpath).1, fun e attempt version h hp =>
      .inr ((hkept path hpath).2 e attempt version h hp)⟩
    told := fun _ => nofun
    finished := fun h => by
      obtain ⟨d, h⟩ := hs.finished h
      exact absurd h (hloop d)
    ended := nofun
    left := fun _ => ⟨hscript, nofun⟩ }

theorem sound_act (hs : s.Sound c) (hkept : s.Kept c .act) : (s.act c).Sound c := by
  have hunended : ∀ a rest, s.script = a :: rest → ∀ disconnected, s.loop ≠ .ended disconnected := by
    intro a rest hscript disconnected h
    rw [hs.ended disconnected h] at hscript
    cases hscript
  have hhere : ∀ a rest, s.script = a :: rest → s.renamed = false := by
    intro a rest hscript
    by_contra h
    rw [(hs.left (Bool.not_eq_false _ ▸ h)).1] at hscript
    cases hscript
  rw [State.Kept] at hkept
  rw [State.act]
  split
  · rename_i path content rest hscript
    have hloop := hunended _ rest hscript
    refine sound_write hs path content rest (s.wrote ++ [path]) (hhere _ rest hscript)
      (fun disconnected h => absurd h (hloop disconnected)) ?_ fun _ => hs.client hloop
    intro p hp hne
    exact (List.mem_append.mp hp).resolve_right fun h => hne (List.mem_singleton.mp h)
  · rename_i path rest hscript
    have hrenamed := hhere _ rest hscript
    rw [hscript] at hkept
    refine sound_announce hs path rest hkept (fun disconnected h => ?_) fun h => ?_
    · exact absurd h (hunended _ rest hscript disconnected)
    · rw [hrenamed] at h
      cases h
  · rename_i hscript
    rw [hscript] at hkept
    split
    · exact hs
    · exact hs
    · rename_i disconnected hloop
      dsimp only at hkept
      rw [hloop] at hkept
      refine sound_rename hs hscript disconnected (fun d h => ?_) hkept
      rw [hloop] at h
      cases h
    · split
      · rename_i hroom
        have hpush := sound_trySend (sound_end hs hscript true) .sessionDisconnected fun _ => ⟨true, rfl⟩
        rw [State.trySend, if_pos (show State.Room { s with loop := .ended true } from hroom)] at hpush
        rw [State.trySend, if_pos hroom]
        exact hpush
      · exact hs
    · exact sound_end hs hscript false

theorem pending_enqueue (w : Worker) (settings : Settings) (e : FileWrittenEvent) :
    ∀ e' ∈ pending w.queue, e' ∈ pending (w.step settings (.enqueue e)).queue :=
  fun _ h => pending_append [some e] h

theorem sound_enqueue (hs : s.Sound c) (path : String) :
    ({ s with worker := s.worker.step c.settings (.enqueue (c.event path)) } : State β).Sound c where
  covered hrenamed p hp hannounced :=
    (hs.covered hrenamed p hp hannounced).mono rfl id rfl (pending_enqueue s.worker c.settings (c.event path)) rfl rfl
      rfl rfl
  atHome := by
    refine ⟨hs.atHome.1, fun e he => ?_⟩
    obtain he | he := List.mem_append.mp he
    · exact hs.atHome.2 e he
    · cases Option.some.inj (List.mem_singleton.mp he)
      rfl
  saved := hs.saved
  logged := hs.logged
  moved := hs.moved
  receiving h := by
    refine ⟨fun hmem => ?_, (hs.receiving h).2⟩
    obtain hmem | hmem := List.mem_append.mp hmem
    · exact (hs.receiving h).1 hmem
    · cases List.mem_singleton.mp hmem
  told := hs.told
  finished := hs.finished
  ended := hs.ended
  left := hs.left
  returned := hs.returned

/-- A push that leaves the queue is no loss if it covers nothing, or goes to the
worker. -/
theorem sound_dequeue (hs : s.Sound c) {p : Push} {rest : List Push} (hqueue : s.queue = p :: rest)
    (hpush : ∀ path, p = .fileWritten path → s.announced path = true → path ∈ s.wrote →
      s.renamed = false → ({ s with queue := rest } : State β).Covered c path) :
    ({ s with queue := rest } : State β).Sound c := by
  have hmem : ∀ q ∈ rest, q ∈ s.queue := fun q hq => by
    rw [hqueue]
    exact List.mem_cons_of_mem p hq
  refine { hs with covered := ?_, finished := fun h => hs.finished (h.imp (hmem _) (.imp_left (hmem _))) }
  intro hrenamed path hpath hannounced
  cases hs.covered hrenamed path hpath hannounced with
  | queued hclient h =>
    rw [hqueue] at h
    obtain h | h := List.mem_cons.mp h
    · exact hpush path h.symm hannounced hpath hrenamed
    · exact .queued hclient h
  | enqueued hphase e h hp => exact .enqueued hphase e h hp
  | handled h => exact .handled h
  | settled h hidle => exact .settled h hidle

/-- The client stops receiving once each file has been announced since it was
written, and the announcements have been received. -/
theorem sound_stop (hs : s.Sound c) {p : Push} {rest : List Push} (hqueue : s.queue = p :: rest)
    (hp : p = .sessionComplete ∨ p = .sessionDisconnected)
    (hkept : s.renamed = false → ∀ path ∈ s.wrote, s.announced path = true ∧ .fileWritten path ∉ rest) :
    ({ s with queue := rest, client := .stopping, worker := s.worker.step c.settings .stop } : State β).Sound c where
  covered hrenamed path hpath hannounced := by
    cases hs.covered hrenamed path hpath hannounced with
    | queued _ h =>
      rw [hqueue] at h
      obtain h | h := List.mem_cons.mp h
      · obtain rfl | rfl := hp
        · cases h
        · cases h
      · exact absurd h (hkept hrenamed path hpath).2
    | enqueued hphase e h hpath => exact .enqueued hphase e (pending_append [none] h) hpath
    | handled h => exact .handled h
    | settled h hidle => exact .settled h hidle
  atHome := by
    refine ⟨hs.atHome.1, fun e he => ?_⟩
    obtain he | he := List.mem_append.mp he
    · exact hs.atHome.2 e he
    · cases List.mem_singleton.mp he
  saved := hs.saved
  logged := hs.logged
  moved := hs.moved
  receiving := nofun
  told _ hrenamed path hpath := (hkept hrenamed path hpath).1
  finished _ := by
    refine hs.finished ?_
    rw [hqueue]
    obtain rfl | rfl := hp
    · exact .inl List.mem_cons_self
    · exact .inr (.inl List.mem_cons_self)
  ended := hs.ended
  left := hs.left
  returned := nofun

theorem sound_receive (hs : s.Sound c) (hkept : s.Kept c .receive) : (s.receive c).Sound c := by
  rw [State.Kept] at hkept
  rw [State.receive]
  split
  · rename_i path rest hclient hqueue
    obtain ⟨hnone, hphase⟩ := hs.receiving hclient
    have hboth := sound_enqueue hs path
    refine sound_dequeue hboth hqueue fun q hq _ _ _ => ?_
    cases hq
    have hlast : some (c.event path) ∈ s.worker.queue ++ [some (c.event path)] :=
      List.mem_append_right _ List.mem_cons_self
    exact .enqueued hphase (c.event path) (mem_pending (hboth.receiving hclient).1 hlast) rfl
  · rename_i rest hclient hqueue
    exact sound_dequeue hs hqueue (by rintro _ ⟨⟩)
  · rename_i rest hclient hqueue
    rw [hqueue] at hkept
    exact sound_stop hs hqueue (.inl rfl) hkept
  · rename_i rest hclient hqueue
    rw [hqueue] at hkept
    exact sound_stop hs hqueue (.inr rfl) hkept
  · exact hs

/-- What the loop has to do next, while it captures. -/
theorem sound_script (hs : s.Sound c) (hloop : s.loop = .capturing) (script : List (Action β)) (loop : Loop)
    (hunended : ∀ disconnected, loop ≠ .ended disconnected) :
    ({ s with script := script, loop := loop } : State β).Sound c :=
  { hs with
    covered := fun hrenamed path hpath hannounced =>
      (hs.covered hrenamed path hpath hannounced).mono rfl id rfl (fun _ h => h) rfl rfl rfl rfl
    finished := fun h => by
      obtain ⟨d, h⟩ := hs.finished h
      rw [hloop] at h
      cases h
    ended := fun d h => absurd h (hunended d)
    left := fun h => absurd hloop (hs.left h).2 }

theorem sound_step (hs : s.Sound c) (i : Input β) (hkept : s.Kept c i) : (s.step c i).Sound c := by
  cases i with
  | event e =>
    rw [State.step]
    split
    · rename_i h
      exact sound_script hs h.1 _ s.loop fun d hd => by rw [h.1] at hd; cases hd
    · exact hs
  | leave x =>
    unfold State.step
    dsimp only
    split
    · rename_i h
      refine sound_script hs h.1 _ _ fun d hd => ?_
      cases x with
      | done actuation cc finalised metadata placeholders => cases hd
      | disconnect metadata renames => cases hd
    · exact hs
  | act => exact sound_act hs hkept
  | closing path content =>
    rw [State.step]
    split
    · exact hs
    · rename_i hrenamed
      rw [Bool.not_eq_true] at hrenamed
      exact sound_write hs path content s.script s.wrote hrenamed hs.ended (fun p hp _ => hp) (hkept hrenamed)
  | closingAnnounce path =>
    have hannounce := sound_announce hs path s.script hkept hs.ended hs.left
    change (s.announce path).Sound c
    rw [State.announce, trySend_eq] at hannounce ⊢
    exact hannounce
  | other => exact sound_trySend hs .other nofun
  | complete =>
    rw [State.step]
    split
    · rename_i h
      exact sound_trySend hs .sessionComplete fun _ => ⟨false, h⟩
    · exact hs
  | receive => exact sound_receive hs hkept
  | resume path => exact sound_enqueue hs path
  | work m => exact sound_work hs hkept
  | join =>
    rw [State.step]
    split
    · rename_i h
      refine { hs with
        covered := fun hrenamed path hpath hannounced => ?_
        receiving := nofun
        told := fun _ => hs.told (by rw [h.1]; nofun)
        finished := fun _ => hs.finished (.inr (.inr (by rw [h.1]; nofun)))
        returned := fun _ => h.2 }
      cases hs.covered hrenamed path hpath hannounced with
      | queued hclient _ =>
        rw [h.1] at hclient
        cases hclient
      | enqueued hphase e he hp => exact .enqueued hphase e he hp
      | handled hh => exact .handled hh
      | settled hset hidle => exact .settled hset hidle
    · exact hs

/-- Once everything is over, what is covered is stored or listed. -/
theorem complete_of_sound (hs : s.Sound c) : s.Complete c := by
  intro _ hclient path hpath
  have hphase := hs.returned hclient
  cases hrenamed : s.renamed with
  | true => exact (hs.moved hrenamed path hpath).1
  | false =>
    have hannounced := hs.told (by rw [hclient]; nofun) hrenamed path hpath
    cases hs.covered hrenamed path hpath hannounced with
    | queued hc _ =>
      rw [hclient] at hc
      cases hc
    | enqueued hp _ _ _ => exact absurd hphase hp
    | handled h =>
      rw [hphase] at h
      cases h
    | settled h _ =>
      refine h.imp_right fun hlisted => ?_
      rw [logOf] at hlisted
      cases hlog : s.worker.logs c.sid with
      | none =>
        rw [hlog] at hlisted
        exact hlisted
      | some log =>
        rw [hlog] at hlisted
        rw [hs.saved hrenamed (by rw [hphase]; rfl) log hlog]
        exact hlisted

theorem sound_start (c : Session) (files : String → Option β) (log : SyncLog) (metadata : Option β) :
    (State.start files log metadata).Sound c where
  covered _ _ h := absurd h List.not_mem_nil
  atHome := ⟨trivial, fun _ h => absurd h List.not_mem_nil⟩
  saved _ _ _ h := by cases h
  logged _ := nofun
  moved := nofun
  receiving _ := ⟨List.not_mem_nil, nofun⟩
  told _ _ _ h := absurd h List.not_mem_nil
  finished h := by
    obtain h | h | h := h
    · cases h
    · cases h
    · exact absurd rfl h
  ended := nofun
  left := nofun
  returned := nofun

/-- Where every step meets the condition, the cloud copy of the session is complete,
or the log says what is missing. -/
theorem copy_complete (c : Session) (files : String → Option β) (log : SyncLog) (metadata : Option β)
    (is : List (Input β))
    (h : Guarded (State.step c) (fun s => s.Kept c) (.start files log metadata) is) :
    Along (State.step c) (fun _ _ s' => s'.Complete c) (.start files log metadata) is := by
  have hstep : ∀ (s : State β) (i : Input β), s.Sound c → s.Kept c i → (s.step c i).Sound c :=
    fun s i hs hk => sound_step hs i hk
  have hholds : ∀ (s : State β) (i : Input β), s.Sound c → s.Kept c i → (s.step c i).Complete c :=
    fun s i hs hk => complete_of_sound (sound_step hs i hk)
  exact along_run (P := fun _ _ s' => s'.Complete c) hstep hholds (.start files log metadata) is
    (sound_start c files log metadata) h

end Steps

def sampleSession : Session := ⟨"s1", "/memories/demo", 3⟩

def uploads (cloudPath : String) : Input String := .work ⟨true, true, .ok cloudPath⟩

/-- A session without events is finished, and its metadata are uploaded. -/
def finishedRun : List (Input String) :=
  [.leave (.done "[]" "[]" 0 (.ok "complete") none), .act, .act, .act, .complete, .receive, .receive] ++
    List.replicate 8 (uploads "s3://captures/sessions/s1/demo/metadata.json") ++ [.join]

theorem copy_complete_sample :
    Along (State.step sampleSession) (fun _ _ s' => s'.Complete sampleSession)
      (.start (fun _ => none) .empty none) finishedRun := by
  refine copy_complete sampleSession (fun _ => none) .empty none finishedRun ?_
  refine ⟨trivial, trivial, fun _ _ => .inl (by decide), trivial, trivial, trivial, fun _ path hpath => ?_,
    trivial, trivial, fun _ => rfl, trivial, trivial, trivial, fun _ => rfl, trivial, trivial, trivial⟩
  obtain rfl := List.mem_singleton.mp hpath
  exact ⟨by decide +kernel, List.not_mem_nil⟩

/-- The agent disconnects before the first event. The metadata that the loop has
written and the status of the interrupted session are never announced. -/
def disconnectedRun : List (Input String) :=
  [.act, .leave (.disconnect (some "incomplete") true), .act, .act, .act, .receive,
    .work ⟨true, true, .error ""⟩, .join]

theorem copy_incomplete :
    ¬ Along (State.step sampleSession) (fun _ _ s' => s'.Complete sampleSession)
      (.start (fun _ => some "registered") .empty (some "capturing")) disconnectedRun := by
  rintro ⟨-, -, -, -, -, -, -, hlast, -⟩
  obtain hstored | hlisted := hlast ⟨true, rfl⟩ rfl metadataFile (List.mem_cons_self)
  · revert hstored
    decide +kernel
  · obtain ⟨r, hr, -⟩ := listed_iff.mp hlisted
    cases hr

end MemoryArchive.Storage.CloudCopy
