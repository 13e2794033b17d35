import MemoryArchive.Capture.StepIds

namespace MemoryArchive.Capture

open Runs

/-- What tokens are counted for: the session, or one of its providers. -/
inductive Account
  | total
  | provider (name : String)

namespace Account

/-- The counts that metadata shows. -/
def booked : Account → SessionMetadata → TokenCounts
  | total, m => ⟨m.totalInputTokens, m.totalOutputTokens⟩
  | provider name, m => m.tokenCostsByProvider.count name

/-- The counts that wait for a flush. -/
def pending : Account → ReasoningMaps → TokenCounts
  | total, maps => maps.tokens.getD 0
  | provider name, maps => (maps.providerTokens.getD .empty).count name

/-- What one result adds. Results without a provider count for none. -/
def credit : Account → ReasoningResult → TokenCounts
  | total, r => r.counts
  | provider name, r => if name ≠ "" ∧ r.provider = name then r.counts else 0

def credits (a : Account) (rs : List ReasoningResult) : TokenCounts := (rs.map a.credit).sum

theorem booked_addTokens (a : Account) (m : SessionMetadata) (c : TokenCounts)
    (providers : ProviderTokens) :
    a.booked (m.addTokens c providers) = a.booked m +
      match a with
      | total => c
      | provider name => providers.count name := by
  cases a with
  | total => rfl
  | provider name => exact ProviderTokens.count_addAll _ _ name

theorem booked_drain (a : Account) (m : SessionMetadata) (maps : ReasoningMaps) :
    a.booked (m.drain maps).1 = a.booked m + a.pending maps := by
  refine (booked_addTokens a m _ _).trans ?_
  cases a <;> rfl

theorem pending_drain (a : Account) (m : SessionMetadata) (maps : ReasoningMaps) :
    a.pending (m.drain maps).2 = 0 := by
  cases a <;> rfl

theorem pending_removeSession (a : Account) (maps : ReasoningMaps) :
    a.pending maps.removeSession = 0 := by
  cases a <;> rfl

theorem pending_result (a : Account) (maps : ReasoningMaps) (r : ReasoningResult) :
    a.pending ((maps.addTokens r.counts).addProviderTokens r.provider r.counts) =
      a.pending maps + a.credit r := by
  unfold ReasoningMaps.addProviderTokens
  cases a with
  | total =>
    split <;> rfl
  | provider name =>
    by_cases hr : r.provider = ""
    · rw [if_pos hr]
      have hnone : ¬ (name ≠ "" ∧ r.provider = name) := by
        rintro ⟨hne, he⟩
        exact hne (he.symm.trans hr)
      rw [credit, if_neg hnone, add_zero]
      rfl
    · rw [if_neg hr]
      refine (ProviderTokens.count_add _ _ _ name).trans ?_
      by_cases he : r.provider = name
      · rw [credit, if_pos he, if_pos ⟨fun hne => hr (he.trans hne), he⟩]
        rfl
      · rw [credit, if_neg he, if_neg fun h => he h.2]
        rfl

end Account

/-- A session, with an account of the results that have been accepted. -/
structure World where
  session : Session
  accepted : List ReasoningResult

def World.step (ctx : Context) (w : World) (i : Input) : World where
  session := w.session.step ctx i
  accepted :=
    match i with
    | .reasoningResult r written =>
        if w.session.registered ∧ written then w.accepted ++ [r] else w.accepted
    | _ => w.accepted

/-- Once no loop is left, every total in the stored metadata is the sum over the
accepted results. -/
def TotalsMatch (w : World) : Prop :=
  w.session.loops = [] → ∀ m, w.session.stored = some m → ∀ a : Account,
    a.booked m = a.credits w.accepted

def NothingPending (maps : ReasoningMaps) : Prop := ∀ a : Account, a.pending maps = 0

/-- Whether a loop still flushes its metadata: in local mode an interrupted one
does not. -/
def WatchLoop.flushes (ctx : Context) (l : WatchLoop) : Bool :=
  ctx.isCloudPrimary || l.phase ≠ .leaving false

/-- One loop at a time; a result is accepted while a loop is there that still
flushes; nothing is pending when a loop leaves or cannot connect or when Done
finds no handle; and the last flush of a loop is written, or what it would write
has been stored before. -/
def KeepsTokens (ctx : Context) (w : World) : Input → Prop
  | .startWatch => w.session.stored = none ∨ w.session.loops = []
  | .connect id connected _ => connected = false → ∀ l, w.session.loop? id = some l →
      l.phase = .connecting → NothingPending w.session.maps
  | .event _ _ => True
  | .leave id doneCleanly => ∀ l, w.session.loop? id = some l → l.phase = .running →
      doneCleanly = true ∧ w.session.handle = some id ∨ NothingPending w.session.maps
  | .finish id _ flushed => ∀ l, w.session.loop? id = some l →
      l.flushes ctx = true ∧ flushed = true ∨ NothingPending w.session.maps ∧
        ∀ m, w.session.stored = some m → ∀ a : Account, a.booked m = a.booked l.metadata
  | .done _ => w.session.handle = none → NothingPending w.session.maps
  | .reasoningResult _ written => written = true → ∃ l ∈ w.session.loops, l.flushes ctx = true

/-- Every accepted count is booked or pending, where the session is in capture in
the metadata of its loop and otherwise in the stored metadata. -/
inductive Conserved (ctx : Context) (w : World) : Prop
  | idle (loops : w.session.loops = []) (pending : NothingPending w.session.maps)
      (stored : ∀ m, w.session.stored = some m → ∀ a : Account, a.booked m = a.credits w.accepted)
  | live (l : WatchLoop) (loops : w.session.loops = [l])
      (due : ∀ a : Account, a.booked l.metadata + a.pending w.session.maps = a.credits w.accepted)
      (loaded : l.phase = .connecting → ∀ m, w.session.stored = some m →
        ∀ a : Account, a.booked m = a.booked l.metadata)
      (quiet : l.flushes ctx = false → NothingPending w.session.maps)

theorem Conserved.totalsMatch {ctx : Context} {w : World} (h : Conserved ctx w) : TotalsMatch w := by
  intro hloops
  cases h with
  | idle _ _ stored => exact stored
  | live l hl _ _ _ =>
    rw [hl] at hloops
    cases hloops

/-- The loop that an input names is the only one. -/
theorem conserved_at_loop {ctx : Context} {w : World} {s : Session} (id : Nat)
    (h : Conserved ctx w) (hnone : w.session.loop? id = none → s = w.session)
    (hsome : ∀ l, w.session.loop? id = some l → w.session.loops = [l] →
      (∀ a : Account, a.booked l.metadata + a.pending w.session.maps = a.credits w.accepted) →
      (l.phase = .connecting → ∀ m, w.session.stored = some m →
        ∀ a : Account, a.booked m = a.booked l.metadata) →
      (l.flushes ctx = false → NothingPending w.session.maps) →
      Conserved ctx ⟨s, w.accepted⟩) : Conserved ctx ⟨s, w.accepted⟩ := by
  cases hl : w.session.loop? id with
  | none =>
    rw [hnone hl]
    exact h
  | some l =>
    cases h with
    | idle hloops _ _ =>
      have hmem := (Session.loop?_mem hl).1
      rw [hloops] at hmem
      cases hmem
    | live k hloops due loaded quiet =>
      obtain rfl := loop?_single hloops hl
      exact hsome l hl hloops due loaded quiet

variable {ctx : Context}

theorem booked_congr (a : Account) {m m' : SessionMetadata}
    (hinput : m'.totalInputTokens = m.totalInputTokens)
    (houtput : m'.totalOutputTokens = m.totalOutputTokens)
    (hproviders : m'.tokenCostsByProvider = m.tokenCostsByProvider) : a.booked m' = a.booked m := by
  cases a with
  | total => rw [Account.booked, Account.booked, hinput, houtput]
  | provider name => rw [Account.booked, Account.booked, hproviders]

/-- A flush moves what is pending into the metadata of the loop. -/
theorem due_drain {a : Account} {m m' : SessionMetadata} {maps : ReasoningMaps}
    {rs : List ReasoningResult} (hdue : a.booked m + a.pending maps = a.credits rs)
    (hm : a.booked m' = a.booked m) : a.booked (m'.drain maps).1 = a.credits rs :=
  (a.booked_drain m' maps).trans ((congrArg (· + a.pending maps) hm).trans hdue)

theorem booked_recordAgentVersion (a : Account) (m : SessionMetadata) (version : String) :
    a.booked (m.recordAgentVersion version) = a.booked m := by
  unfold SessionMetadata.recordAgentVersion
  split
  · exact booked_congr a rfl rfl rfl
  · rfl

theorem booked_updateKafkaPosition (a : Account) (m : SessionMetadata)
    (position : Option (Int32 × Int64)) :
    a.booked (m.updateKafkaPosition position) = a.booked m := by
  cases position with
  | none => rfl
  | some p => exact booked_congr a rfl rfl rfl

theorem booked_addImage (a : Account) (m : SessionMetadata) (step : UInt32) (vision : Vision) :
    a.booked (m.addImage step vision) = a.booked m := by
  cases vision <;> exact booked_congr a rfl rfl rfl

theorem booked_appendStep (a : Account) (m : SessionMetadata) (step : StepEntry) :
    a.booked (m.appendStep step) = a.booked m :=
  booked_congr a rfl rfl rfl

theorem flushIfDue_due (ctx : Context) (s : Session) (l : WatchLoop) (flushed : Bool) (a : Account) :
    a.booked (s.flushIfDue ctx l flushed).1.metadata +
        a.pending (s.flushIfDue ctx l flushed).2.1.maps =
      a.booked l.metadata + a.pending s.maps := by
  unfold Session.flushIfDue
  dsimp only
  split
  · refine (congrArg₂ (· + ·) (a.booked_drain l.metadata s.maps)
      (a.pending_drain l.metadata s.maps)).trans (add_zero _)
  · rfl

/-- An event changes its loop and may flush it, but books nothing else. -/
theorem event_due (ctx : Context) (s : Session) (l : WatchLoop) (input : EventInput) :
    ∃ (s' : Session) (l' : WatchLoop), s.event ctx l input = s'.setLoop l' ∧ s'.loops = s.loops ∧ l'.id = l.id ∧
      l'.phase = l.phase ∧ ∀ a : Account, a.booked l'.metadata + a.pending s'.maps =
        a.booked l.metadata + a.pending s.maps := by
  unfold Session.event
  dsimp only
  split
  · refine ⟨s, _, rfl, rfl, rfl, rfl, fun a => ?_⟩
    rw [booked_recordAgentVersion]
  split
  · refine ⟨_, _, rfl, rfl, rfl, rfl, fun a => ?_⟩
    rw [booked_updateKafkaPosition, booked_recordAgentVersion]
  · rename_i writer files step _
    obtain ⟨hid, hphase, -, -, hloops, -⟩ := flushIfDue_kept ctx { s with files := files }
      { l with
        metadata := (((l.metadata.recordAgentVersion input.event.agentVersion).updateKafkaPosition
          input.kafka).appendStep (stepEntry ctx step input.event)).addImage step input.image
        writer := writer } input.flushed
    refine ⟨_, _, rfl, hloops, hid, hphase, fun a => ?_⟩
    refine (flushIfDue_due ctx _ _ input.flushed a).trans ?_
    rw [booked_addImage, booked_appendStep, booked_updateKafkaPosition, booked_recordAgentVersion]

theorem booked_map {f : SessionMetadata → SessionMetadata} {stored : Option SessionMetadata}
    {p : Prop} [Decidable p] (a : Account) (hf : ∀ m, a.booked (f m) = a.booked m)
    {m' : SessionMetadata} (hm' : (if p then stored.map f else stored) = some m') :
    ∃ m, stored = some m ∧ a.booked m' = a.booked m := by
  split at hm'
  · obtain ⟨m, hm, rfl⟩ := Option.map_eq_some_iff.mp hm'
    exact ⟨m, hm, hf m⟩
  · exact ⟨m', hm', rfl⟩

theorem flushes_of_ne {l : WatchLoop} (h : l.phase ≠ .leaving false) : l.flushes ctx = true := by
  simp [WatchLoop.flushes, h]

theorem conserved_startWatch {w : World} (h : Conserved ctx w)
    (hg : w.session.stored = none ∨ w.session.loops = []) :
    Conserved ctx ⟨w.session.startWatch ctx, w.accepted⟩ := by
  unfold Session.startWatch
  split
  · split
    · exact h
    · rename_i m hm
      cases h with
      | live l hloops _ _ _ =>
        obtain hnone | hidle := hg
        · rw [hm] at hnone
          cases hnone
        · rw [hloops] at hidle
          cases hidle
      | idle hloops pending stored =>
        refine .live ⟨w.session.nextLoop, .connecting, m, 0, .new ctx.isCloudPrimary⟩ ?_ ?_ ?_ ?_
        · simp [hloops]
        · intro a
          rw [stored m hm a, pending a, add_zero]
        · intro _ m' hm' a
          rw [hm] at hm'
          cases hm'
          rfl
        · intro hflushes
          rw [flushes_of_ne (by simp)] at hflushes
          cases hflushes
  · exact h

theorem conserved_connect {w : World} (h : Conserved ctx w) (id : Nat) (connected flushed : Bool)
    (hg : KeepsTokens ctx w (.connect id connected flushed)) :
    Conserved ctx ⟨w.session.step ctx (.connect id connected flushed), w.accepted⟩ := by
  refine conserved_at_loop id h (fun hnone => by simp [Session.step, hnone]) ?_
  intro l hl hloops due loaded quiet
  simp only [Session.step, hl]
  split
  · rename_i hphase
    unfold Session.connect
    split
    · refine .live _ (setLoop_single hloops rfl) (fun a => ?_) (fun hc => by cases hc) fun hf => ?_
      · have hsame : a.booked (l.metadata.setInProgress "capturing") = a.booked l.metadata :=
          booked_congr a rfl rfl rfl
        have hbooked := due_drain (due a) hsame
        have hpending := a.pending_drain (l.metadata.setInProgress "capturing") w.session.maps
        exact (congrArg₂ (· + ·) hbooked hpending).trans (add_zero _)
      · rw [flushes_of_ne (by simp)] at hf
        cases hf
    · rename_i hfailed
      have pending := hg (eq_false_of_ne_true hfailed) l hl hphase
      refine .idle (dropLoop_single hloops) pending fun m hm a => ?_
      rw [loaded hphase m hm a, ← due a, pending a, add_zero]
  · exact h

theorem conserved_event {w : World} (h : Conserved ctx w) (id : Nat) (input : EventInput) :
    Conserved ctx ⟨w.session.step ctx (.event id input), w.accepted⟩ := by
  refine conserved_at_loop id h (fun hnone => by simp [Session.step, hnone]) ?_
  intro l hl hloops due loaded quiet
  simp only [Session.step, hl]
  split
  · rename_i hphase
    obtain ⟨s', l', he, hloops', hid, hphase', hdue⟩ := event_due ctx w.session l input
    have hne : l'.phase ≠ .leaving false := by
      rw [hphase', hphase]
      simp
    rw [he]
    refine .live l' (setLoop_single (hloops'.trans hloops) hid.symm)
      (fun a => (hdue a).trans (due a)) (fun hc => ?_) fun hf => ?_
    · rw [hphase', hphase] at hc
      cases hc
    · rw [flushes_of_ne hne] at hf
      cases hf
  · exact h

theorem conserved_leave {w : World} (h : Conserved ctx w) (id : Nat) (doneCleanly : Bool)
    (hg : KeepsTokens ctx w (.leave id doneCleanly)) :
    Conserved ctx ⟨w.session.step ctx (.leave id doneCleanly), w.accepted⟩ := by
  refine conserved_at_loop id h (fun hnone => by simp [Session.step, hnone]) ?_
  intro l hl hloops due loaded quiet
  simp only [Session.step, hl]
  split
  · rename_i hphase
    unfold Session.leave
    split
    · exact h
    · rename_i hleaves
      rw [(Session.loop?_mem hl).2] at hleaves
      have pending := (hg l hl hphase).resolve_left hleaves
      refine .live _ (setLoop_single hloops rfl) (fun a => ?_) (fun hc => by cases hc) fun _ a => ?_
      · have hnone := a.pending_removeSession w.session.maps
        exact (congrArg (a.booked l.metadata + ·) (hnone.trans (pending a).symm)).trans (due a)
      · exact a.pending_removeSession w.session.maps
  · exact h

theorem conserved_finish {w : World} (h : Conserved ctx w) (id : Nat) (fault : Option Nat)
    (flushed : Bool) (hg : KeepsTokens ctx w (.finish id fault flushed)) :
    Conserved ctx ⟨w.session.step ctx (.finish id fault flushed), w.accepted⟩ := by
  refine conserved_at_loop id h (fun hnone => by simp [Session.step, hnone]) ?_
  intro l hl hloops due loaded quiet
  have hkept : l.flushes ctx = false ∨ flushed = false →
      NothingPending w.session.maps ∧ ∀ m, w.session.stored = some m →
        ∀ a : Account, a.booked m = a.credits w.accepted := by
    intro hnot
    obtain ⟨hf, hw⟩ | ⟨pending, hsame⟩ := hg l hl
    · simp [hf, hw] at hnot
    · refine ⟨pending, fun m hm a => ?_⟩
      rw [hsame m hm a, ← due a, pending a, add_zero]
  simp only [Session.step, hl]
  split
  · rename_i doneCleanly hphase
    -- the last flush takes what is pending, written or not
    have hstop : ∀ m, (∀ a : Account, a.booked m = a.booked l.metadata) →
        Conserved ctx ⟨{ ({ w.session with files := (l.writer.finalise fault w.session.files).1 }.flush m
          flushed).2 with handle := none }.dropLoop l.id, w.accepted⟩ := by
      intro m hm
      refine .idle (dropLoop_single hloops) (fun a => a.pending_drain m _) fun m' hm' a => ?_
      cases flushed with
      | true =>
        cases hm'
        exact due_drain (due a) (hm a)
      | false => exact (hkept (.inr rfl)).2 m' hm' a
    unfold Session.finish
    dsimp only
    split
    · exact hstop _ fun a => booked_congr a rfl rfl rfl
    split
    · exact hstop _ fun a => booked_congr a rfl rfl rfl
    · rename_i hclean hcloud
      obtain ⟨pending, hbooked⟩ := hkept (.inl (by simp [WatchLoop.flushes, hphase, hclean, hcloud]))
      refine .idle (dropLoop_single hloops) pending fun m' hm' a => ?_
      have hsame : ∀ m : SessionMetadata, a.booked m.markIncomplete = a.booked m :=
        fun m => booked_congr a rfl rfl rfl
      obtain ⟨m, hm, he⟩ := booked_map a hsame hm'
      exact he.trans (hbooked m hm a)
  · exact h
  · exact h

/-- With nothing pending a Done without a handle books nothing. -/
theorem doneDirect_booked {s : Session} {input : DoneInput} {m' : SessionMetadata} {a : Account}
    (hpending : NothingPending s.maps) (hm' : (s.doneDirect ctx input).stored = some m') :
    ∃ m, s.stored = some m ∧ a.booked m' = a.booked m := by
  unfold Session.doneDirect at hm'
  dsimp only at hm'
  obtain ⟨m₂, hm₂, h₂⟩ := booked_map a (f := SessionMetadata.clearInProgress)
    (fun m => booked_congr a rfl rfl rfl) hm'
  obtain ⟨m₁, hm₁, h₁⟩ := booked_map a (f := SessionMetadata.markComplete)
    (fun m => booked_congr a rfl rfl rfl) hm₂
  obtain ⟨m, hm, h₀⟩ := booked_map a
    (f := fun m => m.addTokens s.maps.drainTokens.1 s.maps.drainTokens.2.drainProviderTokens.1)
    (fun m => (a.booked_drain m s.maps).trans (by rw [hpending a, add_zero])) hm₁
  exact ⟨m, hm, h₂.trans (h₁.trans h₀)⟩

theorem conserved_done {w : World} (h : Conserved ctx w) (input : DoneInput)
    (hg : w.session.handle = none → NothingPending w.session.maps) :
    Conserved ctx ⟨w.session.step ctx (.done input), w.accepted⟩ := by
  simp only [Session.step, Session.done]
  split
  · cases h with
    | idle hloops pending stored => exact .idle hloops pending stored
    | live l hloops due loaded quiet => exact .live l hloops due loaded quiet
  · rename_i hhandle
    split
    · have pending := hg hhandle
      have hremoved : NothingPending (w.session.doneDirect ctx input).maps :=
        fun a => a.pending_removeSession w.session.maps
      cases h with
      | idle hloops _ stored =>
        refine .idle hloops hremoved fun m' hm' a => ?_
        obtain ⟨m, hm, he⟩ := doneDirect_booked (a := a) pending hm'
        exact he.trans (stored m hm a)
      | live l hloops due loaded quiet =>
        refine .live l hloops (fun a => ?_) (fun hphase m' hm' a => ?_) fun _ => hremoved
        · exact (congrArg (a.booked l.metadata + ·) ((hremoved a).trans (pending a).symm)).trans (due a)
        · obtain ⟨m, hm, he⟩ := doneDirect_booked (a := a) pending hm'
          exact he.trans (loaded hphase m hm a)
    · exact h

theorem credits_append (a : Account) (rs : List ReasoningResult) (r : ReasoningResult) :
    a.credits (rs ++ [r]) = a.credits rs + a.credit r := by
  simp [Account.credits]

theorem conserved_result {w : World} (h : Conserved ctx w) (r : ReasoningResult) (written : Bool)
    (hg : written = true → ∃ l ∈ w.session.loops, l.flushes ctx = true) :
    Conserved ctx (w.step ctx (.reasoningResult r written)) := by
  simp only [World.step, Session.step, Session.reasoningResult]
  split
  · rename_i haccept
    obtain ⟨k, hk, hflushes⟩ := hg haccept.2
    cases h with
    | idle hloops _ _ =>
      rw [hloops] at hk
      cases hk
    | live l hloops due loaded _ =>
      rw [hloops] at hk
      obtain rfl := List.mem_singleton.mp hk
      refine .live k hloops (fun a => ?_) loaded fun hf => ?_
      · refine (congrArg (a.booked k.metadata + ·) (a.pending_result w.session.maps r)).trans ?_
        rw [credits_append, ← due a, add_assoc]
      · rw [hflushes] at hf
        cases hf
  · exact h

theorem conserved_step (w : World) (i : Input) (h : Conserved ctx w) (hg : KeepsTokens ctx w i) :
    Conserved ctx (w.step ctx i) := by
  cases i with
  | startWatch => exact conserved_startWatch h hg
  | connect id connected flushed => exact conserved_connect h id connected flushed hg
  | event id input => exact conserved_event h id input
  | leave id doneCleanly => exact conserved_leave h id doneCleanly hg
  | finish id fault flushed => exact conserved_finish h id fault flushed hg
  | done input => exact conserved_done h input hg
  | reasoningResult r written => exact conserved_result h r written hg

theorem conserved_start (uploaded : Bool) : Conserved ctx ⟨.start uploaded, []⟩ := by
  refine .idle rfl (fun a => by cases a <;> rfl) fun m hm a => ?_
  cases uploaded with
  | true =>
    cases hm
    cases a <;> rfl
  | false => cases hm

/-- In every run that meets the guard the stored totals of a session without a
loop are the sums over all results accepted so far. -/
theorem token_totals_match (ctx : Context) (uploaded : Bool) (is : List Input)
    (hg : Guarded (World.step ctx) (KeepsTokens ctx) ⟨.start uploaded, []⟩ is) :
    Along (World.step ctx) (fun _ _ w => TotalsMatch w) ⟨.start uploaded, []⟩ is :=
  along_run conserved_step (fun w i h hi => (conserved_step w i h hi).totalsMatch)
    ⟨.start uploaded, []⟩ is (conserved_start uploaded) hg

def sampleResult : ReasoningResult := ⟨"openai", 120, 30⟩

theorem nothingPending_of_none (maps : ReasoningMaps) (htokens : maps.tokens = none)
    (hproviders : maps.providerTokens.isNone = true) : NothingPending maps := by
  intro a
  cases a with
  | total => rw [Account.pending, htokens]; rfl
  | provider name => rw [Account.pending, Option.isNone_iff_eq_none.mp hproviders]; rfl

/-- A result arrives while its loop runs; the loop flushes it with its next event
and leaves on Done. -/
def resultInTime : List Input :=
  [.startWatch, .connect 0 true true, .reasoningResult sampleResult true, .event 0 sampleInput,
    .done ⟨none, true, true, true⟩, .leave 0 true, .finish 0 none true]

theorem token_totals_match_sample :
    Along (World.step cloudContext) (fun _ _ w => TotalsMatch w) ⟨.start true, []⟩ resultInTime := by
  apply token_totals_match cloudContext true resultInTime
  refine ⟨.inr rfl, fun hc => (by cases hc), fun _ => ⟨_, List.mem_cons_self, rfl⟩, trivial,
    fun hnone => ?_, fun l _ _ => .inr ?_, fun l _ => .inl ⟨?_, rfl⟩, trivial⟩
  · have hsome : (run (World.step cloudContext) ⟨.start true, []⟩
        (resultInTime.take 4)).session.handle.isSome = true := by
      decide +kernel
    exact absurd (congrArg Option.isSome hnone) (ne_of_eq_of_ne hsome (by decide))
  · exact nothingPending_of_none
      (run (World.step cloudContext) ⟨.start true, []⟩ (resultInTime.take 5)).session.maps
      (by decide +kernel) (by decide +kernel)
  · simp [WatchLoop.flushes, cloudContext]

/-- A result that no flush has taken when its loop leaves is in no total. -/
theorem leave_drops_tokens :
    ¬ Along (World.step cloudContext) (fun _ _ w => TotalsMatch w) ⟨.start true, []⟩
      [.startWatch, .connect 0 true true, .reasoningResult sampleResult true,
        .done ⟨none, true, true, true⟩, .leave 0 true, .finish 0 none true] := by
  intro h
  have htotal := h.2.2.2.2.2.1 rfl _ rfl .total
  revert htotal
  decide +kernel

end MemoryArchive.Capture
