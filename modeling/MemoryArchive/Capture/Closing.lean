import MemoryArchive.Capture.Alignment

namespace MemoryArchive.Capture.Closing

open Runs

/-- What metadata.json holds: the fields of a capture, and the image of the final screen. -/
structure MetadataFile where
  metadata : SessionMetadata
  closingImagePath : Option String

/-- What a Done without a live loop changes in metadata.json, one read and one write each. -/
inductive Update
  | tokens (c : TokenCounts) (providers : ProviderTokens)
  | markComplete
  | clearInProgress

def Update.apply (f : MetadataFile) : Update → MetadataFile
  | tokens c providers => { f with metadata := f.metadata.addTokens c providers }
  | markComplete => { f with metadata := f.metadata.markComplete }
  | clearInProgress => { f with metadata := f.metadata.clearInProgress }

/-- What follows a write: the loop goes on or has ended, or there are more updates. -/
inductive After
  | taking
  | ended
  | updates (ops : List Update)

/-- Who writes metadata.json besides the closing image: the loop, which takes events until it sees
the done signal, or the Done that found none. A write fills metadata.json.tmp and renames it. -/
inductive Main
  | taking
  | updates (ops : List Update)
  | writing (after : After)
  | moving (after : After)
  | ended

/-- `fetch_closing_image`, from its start on Done. -/
inductive Task
  | waiting
  | fetching
  | saving (ext : String)
  | reading (ext : String)
  | writing (copy : MetadataFile)
  | moving
  | ended

/-- metadata.json and its temporary file, the metadata in the memory of its writer, the steps of the
session, and whether the closing image has been saved. -/
structure State where
  json : MetadataFile
  tmp : Option MetadataFile
  memory : MetadataFile
  steps : List StepEntry
  writer : CommandWriter
  files : Files
  main : Main
  task : Task
  saved : Bool

/-- How Done finds a session: there is a loop with its metadata, or only metadata.json and counts
that have not been written. -/
inductive Found
  | loop (m : SessionMetadata) (closingImagePath : Option String)
  | file (f : MetadataFile) (counts : Option (TokenCounts × ProviderTokens))

/-- An event comes, with what has been counted until its flush. Done is received. The loop sees its
signal. The loop or the direct Done takes its next step on a file; so does the task. The image
server answers with an image of some type or not at all, and the image is saved or not. -/
inductive Act
  | event (input : EventInput) (c : TokenCounts) (providers : ProviderTokens)
  | done
  | leaveDone (c : TokenCounts) (providers : ProviderTokens)
  | main
  | fetch (ext : Option String)
  | save (ok : Bool)
  | task

/-- What an event changes in memory and in the command files, and whether the metadata is flushed
after it: the local-mode part of a step of the loop. -/
def takeEvent (ctx : Context) (m : SessionMetadata) (writer : CommandWriter) (files : Files)
    (input : EventInput) :
    SessionMetadata × CommandWriter × Files × Bool :=
  let e := input.event
  let m := m.recordAgentVersion e.agentVersion
  if e.actionType = "position" then (m, writer, files, false)
  else
    let m := m.updateKafkaPosition input.kafka
    match writer.writeEvent ctx.toCcCommand input.now input.failure e
        (ctx.toHumanReadable e).toList files with
    | (writer, files, none) => (m, writer, files, false)
    | (writer, files, some step) =>
        ((m.appendStep (stepEntry ctx step e)).addImage step input.image, writer, files, true)

namespace State

/-- The loop has just set `in_progress` to capturing, or the direct Done is about to read. It
writes counts when there are any. -/
def start (files : Files) : Found → State
  | .loop m closingImagePath =>
      let f : MetadataFile := ⟨m.setInProgress "capturing", closingImagePath⟩
      ⟨f, none, f, m.steps, .new false, files, .taking, .waiting, false⟩
  | .file f counts =>
      let tokens := counts.toList.map fun (c, providers) => Update.tokens c providers
      let ops := tokens ++ [.markComplete, .clearInProgress]
      ⟨f, none, f, f.metadata.steps, .new false, files, .updates ops, .waiting, false⟩

/-- `std::fs::rename`, which fails when the other writer has already renamed the file. -/
def rename (s : State) : State :=
  match s.tmp with
  | some f => { s with json := f, tmp := none }
  | none => s

def stepMain (s : State) : State :=
  match s.main with
  | .writing after => { s with tmp := some s.memory, main := .moving after }
  | .moving .taking => { s.rename with main := .taking }
  | .moving .ended => { s.rename with main := .ended }
  | .moving (.updates ops) => { s.rename with main := .updates ops }
  | .updates (op :: ops) => { s with memory := op.apply s.json, main := .writing (.updates ops) }
  | .updates [] => { s with main := .ended, task := .fetching }
  | .taking | .ended => s

/-- `set_closing_image`, once the image has been saved. -/
def stepTask (s : State) : State :=
  match s.task with
  | .reading ext =>
      { s with task := .writing { s.json with closingImagePath := some ("vision/frames/closing_state." ++ ext) } }
  | .writing copy => { s with tmp := some copy, task := .moving }
  | .moving => { s.rename with task := .ended }
  | .waiting | .fetching | .saving _ | .ended => s

def step (ctx : Context) (s : State) : Act → State
  | .event input c providers =>
      match s.main with
      | .taking =>
          let (m, writer, files, due) := takeEvent ctx s.memory.metadata s.writer s.files input
          let s := { s with steps := m.steps, writer := writer, files := files }
          if due then
            { s with
              memory := { s.memory with metadata := m.addTokens c providers }
              main := .writing .taking }
          else { s with memory := { s.memory with metadata := m } }
      | _ => s
  | .done =>
      match s.main, s.task with
      | .taking, .waiting | .writing .taking, .waiting | .moving .taking, .waiting =>
          { s with task := .fetching }
      | _, _ => s
  | .leaveDone c providers =>
      match s.main, s.task with
      | .taking, .waiting => s
      | .taking, _ =>
          let m := s.memory.metadata.markComplete.clearInProgress.addTokens c providers
          { s with memory := { s.memory with metadata := m }, main := .writing .ended }
      | _, _ => s
  | .main => s.stepMain
  | .fetch ext =>
      match s.task, ext with
      | .fetching, some ext => { s with task := .saving ext }
      | .fetching, none => { s with task := .ended }
      | _, _ => s
  | .save ok =>
      match s.task with
      | .saving ext =>
          if ok then { s with saved := true, task := .reading ext } else { s with task := .ended }
      | _ => s
  | .task => s.stepTask

end State

/-- The end of a session whose metadata.json was this at first. -/
structure Merged (before : MetadataFile) (s : State) : Prop where
  status : s.json.metadata.status = "complete"
  inProgress : s.json.metadata.inProgress = none
  steps : s.json.metadata.steps = s.steps
  closing : s.json.closingImagePath.isSome ↔ s.saved = true ∨ before.closingImagePath.isSome

namespace State

/-- The loop has written for the last time. -/
def Written (s : State) : Prop :=
  match s.main with
  | .moving .ended | .ended => True
  | _ => False

/-- What metadata.json comes to hold if nothing more is written. -/
def settled (s : State) : MetadataFile := s.tmp.getD s.json

/-- The closing image has been written to the temporary file. -/
def Posted (s : State) : Prop := s.task = .moving ∨ s.task = .ended ∧ s.saved = true

/-- The copy that the closing image goes into has been read after the loop had ended, or the loop
writes after it and knows of an earlier closing image. -/
def Fresh (s : State) : Act → Prop
  | .task => ∀ copy, s.task = .writing copy →
      copy.metadata.inProgress = none ∨ s.memory.closingImagePath.isSome ∧ ¬ s.Written
  | _ => True

section Steps

variable {s : State} {before : MetadataFile}

theorem rename_eq (s : State) : s.rename = { s with json := s.settled, tmp := none } := by
  rw [rename]
  cases h : s.tmp with
  | none =>
    rw [settled, h]
    cases s
    cases h
    rfl
  | some f =>
    rw [settled, h]
    rfl

/-- A flush of an event keeps `in_progress`. -/
theorem takeEvent_inProgress (ctx : Context) (m : SessionMetadata) (writer : CommandWriter) (files : Files)
    (input : EventInput) : (takeEvent ctx m writer files input).1.inProgress = m.inProgress := by
  have hversion : (m.recordAgentVersion input.event.agentVersion).inProgress = m.inProgress := by
    rw [SessionMetadata.recordAgentVersion]
    split <;> rfl
  have hkafka : ∀ m : SessionMetadata, (m.updateKafkaPosition input.kafka).inProgress = m.inProgress := by
    intro m
    cases input.kafka <;> rfl
  have himage : ∀ (m : SessionMetadata) step, (m.addImage step input.image).inProgress = m.inProgress := by
    intro m step
    cases input.image <;> rfl
  rw [takeEvent]
  dsimp only
  split
  · exact hversion
  · split
    · exact (hkafka _).trans hversion
    · exact (himage _ _).trans ((hkafka _).trans hversion)

/-- Where the writer of the session stands: the loop is capturing until it sees the done signal. -/
def Stage (s : State) : Prop :=
  match s.main with
  | .taking | .writing .taking | .moving .taking => s.memory.metadata.inProgress.isSome
  | .writing .ended | .moving .ended | .ended =>
      s.memory.metadata.status = "complete" ∧ s.memory.metadata.inProgress = none
  | .updates _ | .writing (.updates _) | .moving (.updates _) => False

/-- The image is saved before its path is read into a copy. -/
def Saved (s : State) : Prop :=
  match s.task with
  | .waiting | .fetching | .saving _ => s.saved = false
  | .reading _ | .writing _ | .moving => s.saved = true
  | .ended => True

/-- A copy of metadata.json that is in a file or in the memory of the task. -/
def Holds (s : State) (f : MetadataFile) : Prop := f = s.json ∨ s.tmp = some f ∨ s.task = .writing f

/-- A copy is from before the end of the loop, or is what the loop has written last. -/
structure Sound (before : MetadataFile) (s : State) : Prop where
  closing : s.memory.closingImagePath = before.closingImagePath
  steps : s.memory.metadata.steps = s.steps
  stage : s.Stage
  saved : s.Saved
  copies : ∀ f, s.Holds f → f.metadata.inProgress.isSome ∨ s.Written ∧ f.metadata = s.memory.metadata
  copy : ∀ f, s.task = .writing f → f.closingImagePath.isSome
  pending : s.tmp.isSome → (∃ after, s.main = .moving after) ∨ s.task = .moving
  alone : ¬ s.Posted → s.json.closingImagePath = before.closingImagePath ∧
    s.settled.closingImagePath = before.closingImagePath ∧
      (s.Written → s.settled.metadata = s.memory.metadata)

/-- The closing image is not lost, and does not bring back metadata from before the end. -/
def Kept (s : State) : Prop :=
  s.Posted →
    (s.Written → s.settled.metadata = s.memory.metadata ∧ s.settled.closingImagePath.isSome) ∧
      (¬ s.Written → s.memory.closingImagePath.isSome)

variable {ctx : Context}

theorem kept_congr {s' : State} (hposted : s'.Posted ↔ s.Posted) (hwritten : s'.Written ↔ s.Written)
    (hsettled : s'.settled = s.settled) (hmetadata : s.Written → s'.memory.metadata = s.memory.metadata)
    (hclosing : s'.memory.closingImagePath = s.memory.closingImagePath) : s'.Kept ↔ s.Kept := by
  refine imp_congr hposted (and_congr ?_ ?_)
  · rw [hwritten, hsettled]
    exact forall_congr' fun h => by rw [hmetadata h]
  · rw [hwritten, hclosing]

/-- A write of the loop. After its last one the file has what the loop knows. -/
theorem sound_writing (h : Sound before s) {after : After} (hmain : s.main = .writing after) :
    Sound before s.stepMain ∧ (s.stepMain.Kept ↔ s.Kept) := by
  have hstep : s.stepMain = { s with tmp := some s.memory, main := .moving after } := by
    rw [stepMain, hmain]
  have hstage := h.stage
  have hbefore : ¬ s.Written := by
    rw [Written, hmain]
    exact id
  rw [Stage, hmain] at hstage
  rw [hstep]
  refine ⟨⟨h.closing, h.steps, ?_, h.saved, ?_, h.copy, fun _ => .inl ⟨after, rfl⟩, fun hposted =>
    ⟨(h.alone hposted).1, h.closing, fun _ => rfl⟩⟩, ?_⟩
  · cases after with
    | taking | ended | updates ops => exact hstage
  · rintro f (hf | hf | hf)
    · exact (h.copies f (.inl hf)).imp_right fun hw => absurd hw.1 hbefore
    · cases hf
      cases after with
      | taking => exact .inl hstage
      | ended => exact .inr ⟨trivial, rfl⟩
      | updates ops => exact hstage.elim
    · exact (h.copies f (.inr (.inr hf))).imp_right fun hw => absurd hw.1 hbefore
  · refine imp_congr Iff.rfl ?_
    cases after with
    | taking =>
      exact and_congr ⟨fun _ hw => absurd hw hbefore, fun _ hw => hw.elim⟩
        ⟨fun hn _ => hn id, fun hn _ => hn hbefore⟩
    | ended =>
      constructor
      · intro hkept
        exact ⟨fun hw => absurd hw hbefore, fun _ => (hkept.1 trivial).2⟩
      · intro hkept
        exact ⟨fun _ => ⟨rfl, hkept.2 hbefore⟩, fun hn => absurd trivial hn⟩
    | updates ops => exact hstage.elim

/-- A file that has been renamed holds what one of the files held. -/
theorem holds_settled : s.Holds s.settled := by
  rw [Holds, settled]
  cases s.tmp with
  | none => exact .inl rfl
  | some f => exact .inr (.inl rfl)

/-- A rename of the loop, whether there is still something to rename or not. -/
theorem sound_moving (h : Sound before s) {after : After} (hmain : s.main = .moving after) :
    Sound before s.stepMain ∧ (s.stepMain.Kept ↔ s.Kept) := by
  have hstage := h.stage
  have hwritten : s.Written ↔ after = .ended := by
    rw [Written, hmain]
    cases after with
    | taking | updates ops => exact ⟨False.elim, nofun⟩
    | ended => exact ⟨fun _ => rfl, fun _ => trivial⟩
  rw [Stage, hmain] at hstage
  obtain ⟨next, hstep, hstage', hwritten'⟩ : ∃ next,
      s.stepMain = { s with json := s.settled, tmp := none, main := next } ∧
      State.Stage { s with json := s.settled, tmp := none, main := next } ∧
      (State.Written { s with json := s.settled, tmp := none, main := next } ↔ after = .ended) := by
    rw [stepMain, hmain]
    cases after with
    | taking => exact ⟨.taking, by dsimp only; rw [rename_eq], hstage, False.elim, nofun⟩
    | ended => exact ⟨.ended, by dsimp only; rw [rename_eq], hstage, fun _ => rfl, fun _ => trivial⟩
    | updates ops => exact hstage.elim
  rw [hstep]
  have hsame := hwritten'.trans hwritten.symm
  refine ⟨⟨h.closing, h.steps, hstage', h.saved, ?_, h.copy, nofun, fun hposted => ?_⟩, ?_⟩
  · rintro f (hf | hf | hf)
    · rw [hf, hsame]
      exact h.copies _ holds_settled
    · cases hf
    · rw [hsame]
      exact h.copies f (.inr (.inr hf))
  · obtain ⟨-, hclosing, hmetadata⟩ := h.alone hposted
    exact ⟨hclosing, hclosing, fun hw => hmetadata (hsame.mp hw)⟩
  · exact kept_congr Iff.rfl hsame rfl (fun _ => rfl) rfl

/-- The loop changes its memory, or Done starts the task: no file changes. -/
theorem sound_memory {s' : State} (h : Sound before s) (hjson : s'.json = s.json) (htmp : s'.tmp = s.tmp)
    (hclosing : s'.memory.closingImagePath = s.memory.closingImagePath)
    (hsteps : s'.memory.metadata.steps = s'.steps)
    (hstage : s'.Stage) (hmain : s'.main = s.main ∧ s'.memory = s.memory ∨ ¬ s.Written ∧ ¬ s'.Written)
    (hpending : ∀ after, s.main ≠ .moving after ∨ s'.main = s.main)
    (hsaved : s'.Saved) (hposted : s'.Posted ↔ s.Posted)
    (htask : s'.task = s.task ∨ (∀ f, s'.task ≠ .writing f) ∧ s.task ≠ .moving) :
    Sound before s' ∧ (s'.Kept ↔ s.Kept) := by
  have hsettled : s'.settled = s.settled := by rw [settled, settled, hjson, htmp]
  have hwritten : s'.Written ↔ s.Written := by
    obtain ⟨hmain, -⟩ | ⟨hn, hn'⟩ := hmain
    · rw [Written, Written, hmain]
    · exact iff_of_false hn' hn
  have hmetadata : s.Written → s'.memory.metadata = s.memory.metadata := by
    obtain ⟨-, hmemory⟩ | ⟨hn, -⟩ := hmain
    · exact fun _ => by rw [hmemory]
    · exact fun hw => absurd hw hn
  have hcopy : ∀ f, s'.task = .writing f → s.task = .writing f := by
    intro f hf
    obtain htask | ⟨hnone, -⟩ := htask
    · rw [← htask, hf]
    · exact absurd hf (hnone f)
  refine ⟨⟨hclosing.trans h.closing, hsteps, hstage, hsaved, fun f hf => ?_,
    fun f hf => h.copy f (hcopy f hf),
    fun htmp' => ?_, fun hnot => ?_⟩, kept_congr hposted hwritten hsettled hmetadata hclosing⟩
  · have hf' : s.Holds f := by
      rw [Holds, hjson, htmp] at hf
      exact hf.imp_right (Or.imp_right (hcopy f))
    refine (h.copies f hf').imp_right fun ⟨hw, hsame⟩ => ⟨hwritten.mpr hw, hsame.trans (hmetadata hw).symm⟩
  · rw [htmp] at htmp'
    obtain ⟨after, hafter⟩ | hmoving := h.pending htmp'
    · refine .inl ⟨after, ?_⟩
      exact ((hpending after).resolve_left fun hne => hne hafter).trans hafter
    · exact .inr ((htask.resolve_right fun hne => hne.2 hmoving).trans hmoving)
  · obtain ⟨hj, hs, hm⟩ := h.alone (mt hposted.mpr hnot)
    rw [hjson, hsettled]
    exact ⟨hj, hs, fun hw => (hm (hwritten.mp hw)).trans (hmetadata (hwritten.mp hw)).symm⟩

/-- The task has not come to its write, or has given up before it. -/
theorem not_posted (hmoving : s.task ≠ .moving) (hended : s.task = .ended → s.saved = false) :
    ¬ s.Posted := by
  rintro (hposted | ⟨hposted, hsaved⟩)
  · exact hmoving hposted
  · rw [hended hposted] at hsaved
    cases hsaved

/-- A step of the task on the files. -/
theorem sound_task (h : Sound before s) :
    Sound before s.stepTask ∧ (s.stepTask.Kept ↔ s.Kept ∧ s.Fresh .task) := by
  have hsaved := h.saved
  rw [Saved] at hsaved
  rw [stepTask, Fresh]
  cases htask : s.task with
  | waiting | fetching | saving ext | ended =>
    exact ⟨h, (and_iff_left nofun).symm⟩
  | reading ext =>
    have hunposted : ¬ s.Posted := not_posted (by rw [htask]; exact nofun) (by rw [htask]; exact nofun)
    rw [htask] at hsaved
    refine ⟨⟨h.closing, h.steps, h.stage, hsaved, ?_, ?_, fun htmp => ?_, fun _ => h.alone hunposted⟩, ?_⟩
    · rintro f (hf | hf | hf)
      · exact h.copies f (.inl hf)
      · exact h.copies f (.inr (.inl hf))
      · cases hf
        exact h.copies s.json (.inl rfl)
    · rintro f hf
      cases hf
      rfl
    · refine (h.pending htmp).imp_right fun hmoving => ?_
      rw [htask] at hmoving
      cases hmoving
    · exact iff_of_true (fun hposted => absurd hposted (not_posted nofun nofun))
        ⟨fun hposted => absurd hposted hunposted, nofun⟩
  | writing copy =>
    rw [htask] at hsaved
    have hcopy := h.copy copy htask
    have hstage := h.stage
    have hholds := h.copies copy (.inr (.inr htask))
    refine ⟨⟨h.closing, h.steps, hstage, hsaved, ?_, nofun, fun _ => .inr rfl,
      fun hposted => absurd (.inl rfl) hposted⟩,
      ?_⟩
    · rintro f (hf | hf | hf)
      · exact h.copies f (.inl hf)
      · cases hf
        exact hholds
      · cases hf
    · have hunposted : ¬ s.Posted := not_posted (by rw [htask]; exact nofun) (by rw [htask]; exact nofun)
      have hkept : s.Kept := fun hposted => absurd hposted hunposted
      rw [and_iff_right hkept]
      constructor
      · rintro hnext f hf
        cases hf
        obtain ⟨hend, hgoes⟩ := hnext (.inl rfl)
        by_cases hw : s.Written
        · obtain ⟨hsame, -⟩ := hend hw
          refine .inl ?_
          change copy.metadata = s.memory.metadata at hsame
          rw [hsame]
          rw [Written] at hw
          rw [Stage] at hstage
          split at hw
          · rename_i hmain
            rw [hmain] at hstage
            exact hstage.2
          · rename_i hmain
            rw [hmain] at hstage
            exact hstage.2
          · exact hw.elim
        · exact .inr ⟨hgoes hw, hw⟩
      · intro hfresh _
        obtain hnone | ⟨hclosing, hw⟩ := hfresh copy rfl
        · obtain hsome | ⟨hw, hsame⟩ := hholds
          · rw [hnone] at hsome
            cases hsome
          · exact ⟨fun _ => ⟨hsame, hcopy⟩, fun hn => absurd hw hn⟩
        · exact ⟨fun hw' => absurd hw' hw, fun _ => hclosing⟩
  | moving =>
    rw [htask] at hsaved
    have hposted : s.Posted := .inl htask
    dsimp only
    rw [rename_eq]
    refine ⟨⟨h.closing, h.steps, h.stage, trivial, ?_, nofun, nofun,
      fun hn => absurd (.inr ⟨rfl, hsaved⟩) hn⟩, ?_⟩
    · rintro f (hf | hf | hf)
      · rw [hf]
        exact h.copies _ holds_settled
      · cases hf
      · cases hf
    · rw [and_iff_left nofun]
      exact kept_congr (iff_of_true (.inr ⟨rfl, hsaved⟩) hposted) Iff.rfl rfl (fun _ => rfl) rfl

/-- An event changes what the loop knows, not what it has written. -/
theorem sound_event (h : Sound before s) (input : EventInput) (c : TokenCounts)
    (providers : ProviderTokens) :
    Sound before (s.step ctx (.event input c providers)) ∧
      ((s.step ctx (.event input c providers)).Kept ↔ s.Kept) := by
  rw [step]
  cases hmain : s.main with
  | updates | writing | moving | ended => exact ⟨h, Iff.rfl⟩
  | taking =>
    have hstage := h.stage
    rw [Stage, hmain] at hstage
    have hkept := takeEvent_inProgress ctx s.memory.metadata s.writer s.files input
    have hbefore : ¬ s.Written := by
      rw [Written, hmain]
      exact id
    generalize takeEvent ctx s.memory.metadata s.writer s.files input = taken at hkept
    obtain ⟨m, writer, files, due⟩ := taken
    dsimp only at hkept hstage ⊢
    rw [← hkept] at hstage
    cases due with
    | false =>
      rw [if_neg Bool.false_ne_true]
      exact sound_memory h rfl rfl rfl rfl hstage (.inr ⟨hbefore, id⟩) (fun _ => .inr hmain.symm)
        h.saved Iff.rfl
        (.inl rfl)
    | true =>
      rw [if_pos rfl]
      exact sound_memory h rfl rfl rfl rfl hstage (.inr ⟨hbefore, id⟩)
        (fun _ => .inl (by rw [hmain]; exact nofun)) h.saved Iff.rfl (.inl rfl)

/-- The loop sees the done signal. -/
theorem sound_leaveDone (h : Sound before s) (c : TokenCounts) (providers : ProviderTokens) :
    Sound before (s.step ctx (.leaveDone c providers)) ∧
      ((s.step ctx (.leaveDone c providers)).Kept ↔ s.Kept) := by
  have hleave : s.main = .taking →
      let m := s.memory.metadata.markComplete.clearInProgress.addTokens c providers
      let s' : State := { s with memory := { s.memory with metadata := m }, main := .writing .ended }
      Sound before s' ∧ (s'.Kept ↔ s.Kept) := by
    intro hmain
    have hbefore : ¬ s.Written := by
      rw [Written, hmain]
      exact id
    exact sound_memory h rfl rfl rfl h.steps ⟨rfl, rfl⟩ (.inr ⟨hbefore, id⟩)
      (fun _ => .inl (by rw [hmain]; exact nofun)) h.saved Iff.rfl (.inl rfl)
  rw [step]
  split
  · exact ⟨h, Iff.rfl⟩
  · rename_i hmain _
    exact hleave hmain
  · exact ⟨h, Iff.rfl⟩

/-- Only the task has gone on, which holds no copy. -/
theorem sound_next (h : Sound before s) {task : Task} {saved : Bool} (hbefore : s.task ≠ .moving)
    (hended : s.task = .ended → s.saved = false)
    (hsaved : State.Saved { s with task := task, saved := saved }) (hmoving : task ≠ .moving)
    (hend : task = .ended → saved = false) (hcopy : ∀ f, task ≠ .writing f) :
    Sound before { s with task := task, saved := saved } ∧
      (State.Kept { s with task := task, saved := saved } ↔ s.Kept) :=
  sound_memory h rfl rfl rfl h.steps h.stage (.inl ⟨rfl, rfl⟩) (fun _ => .inr rfl) hsaved
    (iff_of_false (not_posted hmoving hend) (not_posted hbefore hended)) (.inr ⟨hcopy, hbefore⟩)

theorem sound_main (h : Sound before s) : Sound before s.stepMain ∧ (s.stepMain.Kept ↔ s.Kept) := by
  cases hmain : s.main with
  | writing after => exact sound_writing h hmain
  | moving after => exact sound_moving h hmain
  | taking | ended =>
    rw [stepMain, hmain]
    exact ⟨h, Iff.rfl⟩
  | updates ops =>
    have hstage := h.stage
    rw [Stage, hmain] at hstage
    exact hstage.elim

/-- What every step keeps, and what keeps the closing image. -/
theorem sound_step (ctx : Context) (h : Sound before s) (act : Act) :
    Sound before (s.step ctx act) ∧ ((s.step ctx act).Kept ↔ s.Kept ∧ s.Fresh act) := by
  have hsaved := h.saved
  rw [Saved] at hsaved
  have hother : ∀ {s' : State}, Sound before s' ∧ (s'.Kept ↔ s.Kept) →
      Sound before s' ∧ (s'.Kept ↔ s.Kept ∧ True) :=
    fun hnext => ⟨hnext.1, hnext.2.trans (and_iff_left trivial).symm⟩
  cases act with
  | task => exact sound_task h
  | event input c providers => exact hother (sound_event h input c providers)
  | leaveDone c providers => exact hother (sound_leaveDone h c providers)
  | main => exact hother (sound_main h)
  | done =>
    refine hother ?_
    have hstart : s.task = .waiting →
        Sound before { s with task := .fetching } ∧ (State.Kept { s with task := .fetching } ↔ s.Kept) := by
      intro htask
      rw [htask] at hsaved
      exact sound_next h (by rw [htask]; exact nofun) (by rw [htask]; exact nofun) hsaved nofun nofun nofun
    rw [step]
    split
    · rename_i htask
      exact hstart htask
    · rename_i htask
      exact hstart htask
    · rename_i htask
      exact hstart htask
    · exact ⟨h, Iff.rfl⟩
  | fetch ext =>
    refine hother ?_
    unfold step
    dsimp only
    split
    · rename_i htask
      rw [htask] at hsaved
      exact sound_next h (by rw [htask]; exact nofun) (by rw [htask]; exact nofun) hsaved nofun nofun nofun
    · rename_i htask
      rw [htask] at hsaved
      exact sound_next h (by rw [htask]; exact nofun) (by rw [htask]; exact nofun) trivial nofun
        (fun _ => hsaved) nofun
    · exact ⟨h, Iff.rfl⟩
  | save ok =>
    refine hother ?_
    rw [step]
    split
    · rename_i ext htask
      rw [htask] at hsaved
      cases ok with
      | true =>
        exact sound_next h (by rw [htask]; exact nofun) (by rw [htask]; exact nofun) rfl nofun nofun nofun
      | false =>
        exact sound_next h (by rw [htask]; exact nofun) (by rw [htask]; exact nofun) trivial nofun
          (fun _ => hsaved) nofun
    · exact ⟨h, Iff.rfl⟩

/-- The updates that are left make a finished session of what has been read. -/
structure Direct (before : MetadataFile) (s : State) (ops : List Update) : Prop where
  task : s.task = .waiting
  saved : s.saved = false
  closing : s.memory.closingImagePath = before.closingImagePath
  steps : s.memory.metadata.steps = s.steps
  complete : (ops.foldl Update.apply s.memory).metadata.status = "complete"
  cleared : (ops.foldl Update.apply s.memory).metadata.inProgress = none
  stage : s.main = .updates ops ∧ s.tmp = none ∧ s.json = s.memory ∨
    s.main = .writing (.updates ops) ∧ s.tmp = none ∨
    s.main = .moving (.updates ops) ∧ s.tmp = some s.memory

theorem apply_kept (f : MetadataFile) (op : Update) :
    (op.apply f).closingImagePath = f.closingImagePath ∧
      (op.apply f).metadata.steps = f.metadata.steps := by
  cases op with
  | tokens c providers | markComplete | clearInProgress => exact ⟨rfl, rfl⟩

theorem direct_main {ops : List Update} (h : Direct before s ops) :
    (∃ ops', Direct before s.stepMain ops') ∨ Sound before s.stepMain ∧ ¬ s.stepMain.Posted := by
  obtain ⟨hmain, htmp, hjson⟩ | ⟨hmain, htmp⟩ | ⟨hmain, htmp⟩ := h.stage
  · cases ops with
    | cons op ops =>
      left
      have hstep : s.stepMain = { s with memory := op.apply s.json, main := .writing (.updates ops) } := by
        rw [stepMain, hmain]
      rw [hstep, hjson]
      obtain ⟨hclosing, hsteps⟩ := apply_kept s.memory op
      exact ⟨ops, h.task, h.saved, hclosing.trans h.closing, hsteps.trans h.steps, h.complete, h.cleared,
        .inr (.inl ⟨rfl, htmp⟩)⟩
    | nil =>
      right
      have hstep : s.stepMain = { s with main := .ended, task := .fetching } := by
        rw [stepMain, hmain]
      have hsettled : s.settled = s.memory := by
        rw [settled, htmp, ← hjson]
        rfl
      rw [hstep]
      refine ⟨⟨h.closing, h.steps, ⟨h.complete, h.cleared⟩, h.saved, ?_, nofun, fun hsome => ?_,
        fun _ => ?_⟩,
        not_posted nofun nofun⟩
      · rintro f (hf | hf | hf)
        · cases hf.trans hjson
          exact .inr ⟨trivial, rfl⟩
        · cases htmp.symm.trans hf
        · cases hf
      · rw [htmp] at hsome
        cases hsome
      · refine ⟨?_, ?_, fun _ => congrArg MetadataFile.metadata hsettled⟩
        · exact (congrArg MetadataFile.closingImagePath hjson).trans h.closing
        · exact (congrArg MetadataFile.closingImagePath hsettled).trans h.closing
  · left
    have hstep : s.stepMain = { s with tmp := some s.memory, main := .moving (.updates ops) } := by
      rw [stepMain, hmain]
    rw [hstep]
    exact ⟨ops, h.task, h.saved, h.closing, h.steps, h.complete, h.cleared, .inr (.inr ⟨rfl, rfl⟩)⟩
  · left
    have hstep : s.stepMain = { s with json := s.settled, tmp := none, main := .updates ops } := by
      rw [stepMain, hmain]
      dsimp only
      rw [rename_eq]
    have hsettled : s.settled = s.memory := by
      rw [settled, htmp]
      rfl
    rw [hstep, hsettled]
    exact ⟨ops, h.task, h.saved, h.closing, h.steps, h.complete, h.cleared, .inl ⟨rfl, rfl, rfl⟩⟩

/-- The closing image is not fetched before the direct Done has written. -/
theorem direct_step (ctx : Context) {ops : List Update} (h : Direct before s ops) (act : Act) :
    ((∃ ops', Direct before (s.step ctx act) ops') ∨ Sound before (s.step ctx act)) ∧
      ¬ (s.step ctx act).Posted ∧ s.Fresh act := by
  have hidle : ((∃ ops', Direct before s ops') ∨ Sound before s) ∧ ¬ s.Posted :=
    ⟨.inl ⟨ops, h⟩, not_posted (by rw [h.task]; exact nofun) (by rw [h.task]; exact nofun)⟩
  have hother : s.main ≠ .taking ∧ s.main ≠ .writing .taking ∧ s.main ≠ .moving .taking := by
    obtain ⟨hmain, -⟩ | ⟨hmain, -⟩ | ⟨hmain, -⟩ := h.stage <;> simp [hmain]
  cases act with
  | main =>
    obtain ⟨ops', hnext⟩ | ⟨hnext, hposted⟩ := direct_main h
    · refine ⟨.inl ⟨ops', hnext⟩, ?_, trivial⟩
      exact not_posted (fun hmoving => by cases hnext.task.symm.trans hmoving) fun _ => hnext.saved
    · exact ⟨.inr hnext, hposted, trivial⟩
  | task =>
    have hstep : s.stepTask = s := by rw [stepTask, h.task]
    rw [step, hstep]
    exact ⟨hidle.1, hidle.2, fun copy hcopy => by cases h.task.symm.trans hcopy⟩
  | event input c providers =>
    refine and_assoc.mp ⟨?_, trivial⟩
    rw [step]
    split
    · exact absurd ‹_› hother.1
    · exact hidle
  | done =>
    refine and_assoc.mp ⟨?_, trivial⟩
    rw [step]
    split
    · exact absurd ‹_› hother.1
    · exact absurd ‹_› hother.2.1
    · exact absurd ‹_› hother.2.2
    · exact hidle
  | leaveDone c providers =>
    refine and_assoc.mp ⟨?_, trivial⟩
    rw [step]
    split
    · exact hidle
    · exact absurd ‹_› hother.1
    · exact hidle
  | fetch ext =>
    refine and_assoc.mp ⟨?_, trivial⟩
    unfold step
    dsimp only
    rw [h.task]
    exact hidle
  | save ok =>
    refine and_assoc.mp ⟨?_, trivial⟩
    rw [step, h.task]
    exact hidle

theorem start_spec (files : Files) (found : Found) :
    (∃ ops, Direct (start files found).json (start files found) ops) ∨
      Sound (start files found).json (start files found) := by
  cases found with
  | loop m closingImagePath =>
    refine .inr ⟨rfl, rfl, rfl, rfl, ?_, nofun, nofun, fun _ => ⟨rfl, rfl, False.elim⟩⟩
    rintro f (hf | hf | hf)
    · cases hf
      exact .inl rfl
    · cases hf
    · cases hf
  | file f counts =>
    refine .inl ⟨_, rfl, rfl, rfl, rfl, ?_, ?_, .inl ⟨rfl, rfl, rfl⟩⟩
    · rw [List.foldl_append]
      rfl
    · rw [List.foldl_append]
      rfl

/-- When both have ended, metadata.json has everything exactly if the image was not lost. -/
theorem merged_iff_kept (h : Sound before s) (hmain : s.main = .ended) (htask : s.task = .ended) :
    Merged before s ↔ s.Kept := by
  have hwritten : s.Written := by
    rw [Written, hmain]
    exact trivial
  have hstage := h.stage
  rw [Stage, hmain] at hstage
  have hsettled : s.settled = s.json := by
    rw [settled]
    cases htmp : s.tmp with
    | none => rfl
    | some f =>
      obtain ⟨after, hmoving⟩ | hmoving := h.pending (by rw [htmp]; rfl)
      · cases hmain.symm.trans hmoving
      · cases htask.symm.trans hmoving
  have hposted : s.Posted ↔ s.saved = true :=
    ⟨fun hposted => hposted.elim (fun hmoving => by cases htask.symm.trans hmoving) And.right,
      fun hsaved => .inr ⟨htask, hsaved⟩⟩
  constructor
  · intro hmerged hp
    refine ⟨fun _ => ?_, fun hn => absurd hwritten hn⟩
    rw [hsettled]
    refine ⟨?_, hmerged.closing.mpr (.inl (hposted.mp hp))⟩
    obtain hsome | ⟨-, hsame⟩ := h.copies s.json (.inl rfl)
    · rw [hmerged.inProgress] at hsome
      cases hsome
    · exact hsame
  · intro hkept
    have hjson : s.json.metadata = s.memory.metadata := by
      rw [← hsettled]
      by_cases hp : s.Posted
      · exact ((hkept hp).1 hwritten).1
      · exact (h.alone hp).2.2 hwritten
    refine ⟨by rw [hjson, hstage.1], by rw [hjson, hstage.2], by rw [hjson, h.steps], ?_⟩
    by_cases hp : s.Posted
    · refine iff_of_true ?_ (.inl (hposted.mp hp))
      rw [← hsettled]
      exact ((hkept hp).1 hwritten).2
    · rw [(h.alone hp).1]
      exact ⟨.inr, fun hor => hor.resolve_left fun hsaved => hp (hposted.mpr hsaved)⟩

/-- What holds in every state of a run, whichever way Done is handled. -/
def Holding (before : MetadataFile) (s : State) : Prop := (∃ ops, Direct before s ops) ∨ Sound before s

theorem holding_step (h : Holding before s) (act : Act) :
    Holding before (s.step ctx act) ∧ ((s.step ctx act).Kept ↔ s.Kept ∧ s.Fresh act) := by
  obtain ⟨ops, hdirect⟩ | hsound := h
  · obtain ⟨hnext, hposted, hfresh⟩ := direct_step ctx hdirect act
    have hunposted : ¬ s.Posted := not_posted (by rw [hdirect.task]; exact nofun)
      (by rw [hdirect.task]; exact nofun)
    exact ⟨hnext, iff_of_true (fun hp => absurd hp hposted) ⟨fun hp => absurd hp hunposted, hfresh⟩⟩
  · obtain ⟨hnext, hkept⟩ := sound_step ctx hsound act
    exact ⟨.inr hnext, hkept⟩

end Steps

/-- A run loses nothing exactly when the task never writes a copy that is out of date. -/
theorem kept_run (ctx : Context) (files : Files) (found : Found) (acts : List Act) :
    Holding (start files found).json (run (step ctx) (start files found) acts) ∧
      ((run (step ctx) (start files found) acts).Kept ↔
        Guarded (step ctx) Fresh (start files found) acts) := by
  have hkeep : ∀ s act, Holding (start files found).json s →
      Holding (start files found).json (s.step ctx act) :=
    fun _ act h => (holding_step h act).1
  have hstep : ∀ s act, Holding (start files found).json s → s.Kept →
      ((s.step ctx act).Kept ↔ s.Fresh act) :=
    fun _ act h hkept => (holding_step h act).2.trans (and_iff_right hkept)
  have hlost : ∀ s act, Holding (start files found).json s → ¬ s.Kept → ¬ (s.step ctx act).Kept :=
    fun _ act h hlost hkept => hlost ((holding_step h act).2.mp hkept).1
  have hstart := start_spec files found
  have hfirst : (start files found).Kept := by
    refine fun hposted => absurd hposted (not_posted ?_ fun _ => ?_)
    · cases found <;> exact nofun
    · cases found <;> rfl
  exact ⟨invariant_run (fun s act h _ => hkeep s act h) _ acts hstart (guarded_true _ acts),
    run_iff_guarded hstep hlost hkeep _ acts hstart hfirst⟩

end State

/-- When the closing image and the loop or the direct Done have both ended, metadata.json has what
either of them wrote exactly if the image did not go into a copy from before the end, unless
the loop writes again and knows an earlier image. -/
theorem merged_iff (ctx : Context) (files : Files) (found : Found) (acts : List Act)
    (hmain : (run (State.step ctx) (.start files found) acts).main = .ended)
    (htask : (run (State.step ctx) (.start files found) acts).task = .ended) :
    Merged (State.start files found).json (run (State.step ctx) (.start files found) acts) ↔
      Guarded (State.step ctx) State.Fresh (.start files found) acts := by
  obtain ⟨hholding, hkept⟩ := State.kept_run ctx files found acts
  refine Iff.trans ?_ hkept
  obtain ⟨ops, hdirect⟩ | hsound := hholding
  · cases hdirect.task.symm.trans htask
  · exact State.merged_iff_kept hsound hmain htask

/-- The loop ends before the task reads. -/
def inTurn : List Act :=
  [.done, .leaveDone ⟨0, 0⟩ .empty, .main, .main, .fetch (some "png"), .save true, .task, .task, .task]

theorem merged_iff_sample :
    Merged (State.start (fun _ => none) (.loop .initial none)).json
      (run (State.step diskContext) (.start (fun _ => none) (.loop .initial none)) inTurn) := by
  have hguarded : Guarded (State.step diskContext) State.Fresh
      (.start (fun _ => none) (.loop .initial none)) inTurn := by
    refine ⟨trivial, trivial, trivial, trivial, trivial, trivial, nofun, ?_, nofun, trivial⟩
    rintro copy ⟨⟩
    exact .inl rfl
  exact (merged_iff diskContext (fun _ => none) (.loop .initial none) inTurn rfl rfl).mpr hguarded

/-- The task reads before the loop has written for the last time, and writes after it. -/
def readEarly : List Act :=
  [.done, .fetch (some "png"), .save true, .task, .leaveDone ⟨0, 0⟩ .empty, .main, .main, .task, .task]

theorem status_lost :
    let s := run (State.step diskContext) (.start (fun _ => none) (.loop .initial none)) readEarly
    s.main = .ended ∧ s.task = .ended ∧ s.saved = true ∧
      ¬ Merged (State.start (fun _ => none) (.loop .initial none)).json s := by
  refine ⟨rfl, rfl, rfl, fun h => ?_⟩
  cases h.inProgress

end MemoryArchive.Capture.Closing
