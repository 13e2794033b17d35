import MemoryArchive.Reasoning.Updates

namespace MemoryArchive.Reasoning.Updates

open Capture (StepEntry)
open Interleaving Runs

/-- The annotation screen puts its entry beside all entries that it found. -/
theorem entriesOf_atomicUpsert {file : File} (h : ReadsAll file) (step : StepState) (now : String)
    {text : Text} (htext : atomicUpsert file step now = some text) (k : Int) :
    entriesOf (some text) k = if k = step.stepId then [buildEntry step now] else entriesOf file k := by
  obtain ⟨entries, hread, hall⟩ := h
  rw [atomicUpsert, hread, Option.map_some] at htext
  cases htext
  have hfiled := (existingEntries_filed hread).insert (stepId_buildEntry step now)
  rw [entriesOf_render Json.oneLine_spaced hfiled rfl k, Table.get?_insert, hall]
  split <;> rfl

/-- A pass with the entries it has yet to write. -/
structure Shared.Filling (s : Shared) (steps : List StepEntry) (todo : List ReasoningEntry) : Prop where
  readable : todo ≠ [] → s.disk.read.isSome = true
  free : s.NoHuman → ∀ e ∈ todo, best s.log e.key = none
  settled : ∀ step ∈ steps, stepKey step ∈ todo.map ReasoningEntry.key ∨ s.Settled step

def Shared.Waits (s : Shared) : Writer → Prop
  | .placeholder entry rest steps => s.Filling steps (entry :: rest)
  | .result _ _ | .human _ _ => True

/-- The text is still what the writer would make of the file. -/
def Shared.Begun (s : Shared) (w : Writer) (text : Text) : Prop :=
  w.text s.disk = some text ∧
    match w with
    | .human _ _ => ReadsAll s.disk.file
    | .result _ _ | .placeholder _ _ _ => s.NoHuman

/-- What holds where a task is. -/
def Shared.At (s : Shared) : Task → Prop
  | .read w => s.Waits w
  | .save w text => s.Waits w ∧ s.Begun w text
  | .rename w => s.Waits w ∧ ∃ text, s.tmp = some text ∧ s.Begun w text
  | .sessionWriteLock _ | .acquire _ _ | .removeSession _ | .snapshot _ _ => True

/-- The file has what the account says. -/
structure Account (s : Shared) : Prop where
  stands : ∀ k j, best s.log k = some j → entriesOf s.disk.file k = [j]
  kept : s.NoHuman → ∀ k j, best s.log k = some j → (keptEntries s.disk.file).get? k = some j
  complete : ∀ step ∈ s.ended, s.Settled step

section Files

variable {s s' : Shared} {e : ReasoningEntry}

theorem read_eq_file {disk : Disk} {file : File} (h : disk.read = some file) : disk.file = file := by
  cases disk with
  | missing | text t =>
    cases h
    rfl
  | broken => cases h

theorem best_result {log : List Write} (hnone : log.all (fun i => !isHuman i) = true) (k : Int) :
    best (log ++ [.upsertEntry e]) k = if k = e.key then some e.toJson else best log k := by
  have hhuman : log.filter isHuman = [] := by
    refine List.filter_eq_nil_iff.mpr fun i hi => ?_
    simpa using List.all_eq_true.mp hnone i hi
  have hnew : ([Write.upsertEntry e].filter fun i => !isHuman i) = [.upsertEntry e] := rfl
  have hold : [Write.upsertEntry e].filter isHuman = [] := rfl
  rw [best, best, List.filter_append, List.filter_append, hhuman, hnew, hold, List.map_append,
    lastFor_append]
  by_cases hk : k = e.key
  · subst hk
    simp [lastFor, writeRow, Write.key, Write.entry]
  · simp [lastFor, writeRow, Write.key, hk, Ne.symm hk]

theorem best_human {log : List Write} (step : StepState) (now : String) (k : Int) :
    best (log ++ [.atomicUpsert step now]) k =
      if k = step.stepId then some (buildEntry step now) else best log k := by
  have hnew : ([Write.atomicUpsert step now].filter fun i => !isHuman i) = [] := rfl
  have hold : [Write.atomicUpsert step now].filter isHuman = [.atomicUpsert step now] := rfl
  rw [best, best, List.filter_append, List.filter_append, hnew, hold, List.append_nil, List.map_append,
    lastFor_append]
  by_cases hk : k = step.stepId
  · subst hk
    simp [lastFor, writeRow, Write.key, Write.entry]
  · simp [lastFor, writeRow, Write.key, hk, Ne.symm hk]

theorem best_rust {log : List Write} (hnone : log.all (fun i => !isHuman i) = true) {k : Int} {j : Json}
    (h : best log k = some j) : ∃ e : ReasoningEntry, k = e.key ∧ j = e.toJson := by
  have hhuman : log.filter isHuman = [] := by
    refine List.filter_eq_nil_iff.mpr fun i hi => ?_
    simpa using List.all_eq_true.mp hnone i hi
  rw [best, hhuman] at h
  obtain ⟨i, hi, hrow⟩ := List.mem_map.mp (mem_of_lastFor h)
  cases i with
  | upsertEntry e =>
    cases hrow
    exact ⟨e, rfl, rfl⟩
  | atomicUpsert step now => simp [isHuman] at hi

/-- A write of the Rust side, accounted for or not. -/
structure Upserted (s s' : Shared) (e : ReasoningEntry) : Prop where
  disk : s'.disk = .text (upsertEntry s.disk.file e)
  ended : s'.ended = s.ended
  before : s.NoHuman
  log : s'.log = s.log ∧ best s.log e.key = none ∨ s'.log = s.log ++ [.upsertEntry e]

theorem Upserted.entries (h : Upserted s s' e) (k : Int) :
    entriesOf s'.disk.file k =
      (if k = e.key then some e.toJson else (keptEntries s.disk.file).get? k).toList := by
  rw [h.disk, Disk.file, entriesOf_upsertEntry, Table.get?_insert]

theorem Upserted.kept (h : Upserted s s' e) (k : Int) :
    (keptEntries s'.disk.file).get? k =
      if k = e.key then some e.toJson else (keptEntries s.disk.file).get? k := by
  rw [h.disk, Disk.file, keptEntries_upsertEntry, Table.get?_insert]

theorem Upserted.best_cases (h : Upserted s s' e) {k : Int} {j : Json} (hj : best s'.log k = some j) :
    k = e.key ∧ j = e.toJson ∨ k ≠ e.key ∧ best s.log k = some j := by
  obtain ⟨hlog, hnone⟩ | hlog := h.log
  · rw [hlog] at hj
    refine .inr ⟨fun hk => ?_, hj⟩
    rw [hk, hnone] at hj
    cases hj
  · rw [hlog, best_result h.before] at hj
    split at hj
    · rename_i hk
      cases hj
      exact .inl ⟨hk, rfl⟩
    · rename_i hk
      exact .inr ⟨hk, hj⟩

theorem Upserted.settled_own (h : Upserted s s' e) {step : StepEntry} (hk : stepKey step = e.key) :
    s'.Settled step := by
  constructor
  · rw [h.entries, if_pos hk]
    rfl
  · intro _
    rw [h.kept, if_pos hk]
    rfl

theorem Upserted.settled (h : Upserted s s' e) {step : StepEntry} (hs : s.Settled step) :
    s'.Settled step := by
  by_cases hk : stepKey step = e.key
  · exact h.settled_own hk
  · obtain ⟨j, hj⟩ := Option.isSome_iff_exists.mp (hs.2 h.before)
    constructor
    · rw [h.entries, if_neg hk, hj]
      rfl
    · intro _
      rw [h.kept, if_neg hk, hj]
      rfl

theorem Upserted.account (h : Upserted s s' e) (ha : Account s) : Account s' := by
  refine ⟨fun k j hj => ?_, fun _ k j hj => ?_, fun step hstep => ?_⟩
  · rw [h.entries]
    obtain ⟨hk, rfl⟩ | ⟨hk, hj⟩ := h.best_cases hj
    · rw [if_pos hk]
      rfl
    · rw [if_neg hk, ha.kept h.before k j hj]
      rfl
  · rw [h.kept]
    obtain ⟨hk, rfl⟩ | ⟨hk, hj⟩ := h.best_cases hj
    · rw [if_pos hk]
    · rw [if_neg hk, ha.kept h.before k j hj]
  · rw [h.ended] at hstep
    exact h.settled (ha.complete step hstep)

/-- A pass may go on after a write for a step that it does not write itself. -/
theorem Upserted.filling (h : Upserted s s' e) {steps : List StepEntry} {todo : List ReasoningEntry}
    (hf : s.Filling steps todo) (hapart : s'.log = s.log ∨ e.key ∉ todo.map ReasoningEntry.key) :
    s'.Filling steps todo := by
  refine ⟨fun _ => by rw [h.disk]; rfl, fun _ e' he' => ?_, fun step hstep => ?_⟩
  · have hnone := hf.free h.before e' he'
    rw [Option.eq_none_iff_forall_ne_some]
    intro j hj
    obtain hlog | hnot := hapart
    · rw [hlog, hnone] at hj
      cases hj
    · obtain ⟨hk, -⟩ | ⟨-, hj⟩ := h.best_cases hj
      · exact hnot (hk ▸ List.mem_map_of_mem he')
      · rw [hnone] at hj
        cases hj
  · exact (hf.settled step hstep).imp_right h.settled

/-- The pass that has written an entry has one less to write. -/
theorem Upserted.filled (h : Upserted s s' e) {steps : List StepEntry} {rest : List ReasoningEntry}
    (hf : s.Filling steps (e :: rest)) (hlog : s'.log = s.log) : s'.Filling steps rest := by
  have hnext := h.filling hf (.inl hlog)
  refine ⟨fun _ => by rw [h.disk]; rfl, fun hn e' he' => ?_, fun step hstep => ?_⟩
  · exact hnext.free hn e' (List.mem_cons_of_mem e he')
  · obtain hkey | hsettled := hnext.settled step hstep
    · obtain hown | hrest := List.mem_cons.mp hkey
      · exact .inr (h.settled_own hown)
      · exact .inl hrest
    · exact .inr hsettled

/-- A write of the annotation screen. -/
structure Annotated (s s' : Shared) (step : StepState) (now : String) : Prop where
  before : ReadsAll s.disk.file
  disk : ∃ text, atomicUpsert s.disk.file step now = some text ∧ s'.disk = .text text
  ended : s'.ended = s.ended
  log : s'.log = s.log ++ [.atomicUpsert step now]

section Annotated

variable {step : StepState} {now : String}

theorem Annotated.entries (h : Annotated s s' step now) (k : Int) :
    entriesOf s'.disk.file k = if k = step.stepId then [buildEntry step now] else entriesOf s.disk.file k := by
  obtain ⟨text, htext, hdisk⟩ := h.disk
  rw [hdisk, Disk.file, entriesOf_atomicUpsert h.before step now htext]

theorem Annotated.not_noHuman (h : Annotated s s' step now) : ¬ s'.NoHuman := by
  rw [Shared.NoHuman, h.log, List.all_append]
  simp [isHuman]

theorem Annotated.settled (h : Annotated s s' step now) {step' : StepEntry} (hs : s.Settled step') :
    s'.Settled step' := by
  refine ⟨?_, fun hn => absurd hn h.not_noHuman⟩
  rw [h.entries]
  split
  · rfl
  · exact hs.1

theorem Annotated.account (h : Annotated s s' step now) (ha : Account s) : Account s' := by
  refine ⟨fun k j hj => ?_, fun hn => absurd hn h.not_noHuman, fun step' hstep => ?_⟩
  · rw [h.log, best_human] at hj
    rw [h.entries]
    split at hj
    · rename_i hk
      cases hj
      rw [if_pos hk]
    · rename_i hk
      rw [if_neg hk]
      exact ha.stands k j hj
  · rw [h.ended] at hstep
    exact h.settled (ha.complete step' hstep)

theorem Annotated.filling (h : Annotated s s' step now) {steps : List StepEntry}
    {todo : List ReasoningEntry} (hf : s.Filling steps todo) : s'.Filling steps todo := by
  refine ⟨fun _ => ?_, fun hn => absurd hn h.not_noHuman, fun step' hstep => ?_⟩
  · obtain ⟨text, -, hdisk⟩ := h.disk
    rw [hdisk]
    rfl
  · exact (hf.settled step' hstep).imp_right h.settled

end Annotated

end Files

/-- What the tasks keep of the file: no two of them update it, it has what the account
says, and each is at its place. -/
structure Sound (s : Shared) (ts : List Task) : Prop where
  alone : ts.countP Task.updating ≤ 1
  account : Account s
  place : ∀ t ∈ ts, s.At t

/-- A step that leaves the file and the account as they are. -/
structure SameFile (s s' : Shared) : Prop where
  disk : s'.disk = s.disk
  tmp : s'.tmp = s.tmp
  log : s'.log = s.log

section Sound

variable {s s' : Shared} {t : Task} {others : List Task}

theorem settled_of_same (hdisk : s'.disk = s.disk) (hlog : s'.log = s.log) {step : StepEntry}
    (h : s.Settled step) : s'.Settled step := by
  rwa [Shared.Settled, Shared.NoHuman, hdisk, hlog]

theorem filling_of_same (hdisk : s'.disk = s.disk) (hlog : s'.log = s.log) {steps : List StepEntry}
    {todo : List ReasoningEntry} (h : s.Filling steps todo) : s'.Filling steps todo where
  readable := by rw [hdisk]; exact h.readable
  free := by rw [Shared.NoHuman, hlog]; exact h.free
  settled step hstep := (h.settled step hstep).imp_right (settled_of_same hdisk hlog)

theorem waits_of_same (hdisk : s'.disk = s.disk) (hlog : s'.log = s.log) {w : Writer} (h : s.Waits w) :
    s'.Waits w := by
  cases w with
  | placeholder entry rest steps => exact filling_of_same hdisk hlog h
  | result _ _ | human _ _ => trivial

theorem begun_of_same (hdisk : s'.disk = s.disk) (hlog : s'.log = s.log) {w : Writer} {text : Text}
    (h : s.Begun w text) : s'.Begun w text := by
  obtain ⟨htext, hbefore⟩ := h
  refine ⟨by rw [hdisk]; exact htext, ?_⟩
  cases w with
  | human _ _ =>
    dsimp only at hbefore ⊢
    rwa [hdisk]
  | result _ _ | placeholder _ _ _ =>
    dsimp only at hbefore ⊢
    rwa [Shared.NoHuman, hlog]

theorem at_of_same (hdisk : s'.disk = s.disk) (hlog : s'.log = s.log)
    (htmp : t.updating = true → s'.tmp = s.tmp) (h : s.At t) : s'.At t := by
  cases t with
  | read w => exact waits_of_same hdisk hlog h
  | save w text => exact ⟨waits_of_same hdisk hlog h.1, begun_of_same hdisk hlog h.2⟩
  | rename w =>
    obtain ⟨hwaits, text, hsome, hbegun⟩ := h
    exact ⟨waits_of_same hdisk hlog hwaits, text, (htmp rfl).trans hsome, begun_of_same hdisk hlog hbegun⟩
  | sessionWriteLock _ | acquire _ _ | removeSession _ | snapshot _ _ => trivial

theorem account_of_same (h : SameFile s s') (hended : ∀ step ∈ s'.ended, s'.Settled step)
    (ha : Account s) : Account s' where
  stands := by rw [h.disk, h.log]; exact ha.stands
  kept := by rw [Shared.NoHuman, h.disk, h.log]; exact ha.kept
  complete := hended

theorem SameFile.account (h : SameFile s s') (hended : s'.ended = s.ended) (ha : Account s) : Account s' := by
  refine account_of_same h (fun step hstep => ?_) ha
  rw [hended] at hstep
  exact settled_of_same h.disk h.log (ha.complete step hstep)

theorem Sound.idle (h : Sound s (t :: others)) (ht : t.updating = true) :
    ∀ t' ∈ others, t'.updating = false := by
  have halone := h.alone
  rw [List.countP_cons_of_pos ht] at halone
  have hnone : others.countP Task.updating = 0 := by omega
  intro t' ht'
  simpa using List.countP_eq_zero.mp hnone t' ht'

/-- A task that goes on with an update is the only one to do so. -/
theorem Sound.goes (h : Sound s (t :: others)) (next : Option Task) (ha : Account s')
    (hothers : ∀ t' ∈ others, s.At t' → s'.At t') (hnext : ∀ t' ∈ next, s'.At t')
    (halone : ∀ t' ∈ next, t'.updating = true → ∀ u ∈ others, u.updating = false) :
    Sound s' (next.toList ++ others) := by
  refine ⟨?_, ha, fun t' ht' => ?_⟩
  · have hone := h.alone
    rw [List.countP_cons] at hone
    rw [List.countP_append]
    cases next with
    | none => simp only [Option.toList_none, List.countP_nil]; omega
    | some t' =>
      rw [Option.toList_some, List.countP_singleton]
      cases ht' : t'.updating with
      | false => simp only [Bool.false_eq_true, if_false]; omega
      | true =>
        have hzero : others.countP Task.updating = 0 := by
          refine List.countP_eq_zero.mpr fun u hu => ?_
          rw [halone t' rfl ht' u hu]
          exact Bool.false_ne_true
        rw [hzero]
        exact le_rfl
  · obtain ht' | ht' := List.mem_append.mp ht'
    · exact hnext t' (Option.mem_toList.mp ht')
    · exact hothers t' ht' (h.place t' (List.mem_cons_of_mem t ht'))

theorem Sound.same (h : Sound s (t :: others)) (next : Option Task) (hsame : SameFile s s') (hended : s'.ended = s.ended)
    (hnext : ∀ t' ∈ next, s'.At t')
    (halone : ∀ t' ∈ next, t'.updating = true → ∀ u ∈ others, u.updating = false) :
    Sound s' (next.toList ++ others) :=
  h.goes next (hsame.account hended h.account)
    (fun _ _ => at_of_same hsame.disk hsame.log fun _ => hsame.tmp) hnext halone

theorem fill_same (s : Shared) (steps : List StepEntry) (todo : List ReasoningEntry) :
    SameFile s (s.fill steps todo).1 := by
  cases todo <;> exact ⟨rfl, rfl, rfl⟩

theorem account_fill {steps : List StepEntry} {todo : List ReasoningEntry} (ha : Account s)
    (hf : s.Filling steps todo) : Account (s.fill steps todo).1 := by
  cases todo with
  | nil =>
    have hsame : SameFile s (s.fill steps []).1 := fill_same s steps []
    refine account_of_same hsame (fun step hstep => ?_) ha
    refine settled_of_same hsame.disk hsame.log ?_
    obtain hstep | hstep := List.mem_append.mp hstep
    · exact ha.complete step hstep
    · exact (hf.settled step hstep).resolve_left (by simp)
  | cons entry rest => exact ha

theorem at_fill {steps : List StepEntry} {todo : List ReasoningEntry} (hf : s.Filling steps todo) :
    ∀ t ∈ (s.fill steps todo).2, (s.fill steps todo).1.At t ∧ t.updating = false := by
  intro t ht
  cases todo with
  | nil => cases ht
  | cons entry rest =>
    cases ht
    exact ⟨hf, rfl⟩

/-- What the pass has yet to write after the writer's update. -/
def Shared.Leaves (s : Shared) : Writer → Prop
  | .placeholder _ rest steps => s.Filling steps rest
  | .result _ _ | .human _ _ => True

theorem leave_same (s : Shared) (w : Writer) : SameFile s (s.leave w).1 := by
  cases w with
  | placeholder _ rest steps => exact fill_same s steps rest
  | result _ _ | human _ _ => exact ⟨rfl, rfl, rfl⟩

theorem account_leave {w : Writer} (ha : Account s) (hl : s.Leaves w) : Account (s.leave w).1 := by
  cases w with
  | placeholder _ rest steps => exact account_fill ha hl
  | result entry l => exact (leave_same s (.result entry l)).account rfl ha
  | human _ _ => exact ha

theorem at_leave {w : Writer} (hl : s.Leaves w) :
    ∀ t ∈ (s.leave w).2, (s.leave w).1.At t ∧ t.updating = false := by
  cases w with
  | placeholder _ rest steps => exact at_fill hl
  | result _ _ | human _ _ =>
    intro t ht
    cases ht

/-- A writer is done, with the file as it left it. -/
theorem Sound.leave {w : Writer} (h : Sound s (t :: others)) (ha : Account s')
    (hothers : ∀ t' ∈ others, s.At t' → s'.At t') (hl : s'.Leaves w) :
    Sound (s'.leave w).1 ((s'.leave w).2.toList ++ others) := by
  have hsame := leave_same s' w
  refine h.goes _ (account_leave ha hl) (fun t' ht' hat => ?_) (fun t' ht' => (at_leave hl t' ht').1)
    fun t' ht' hup => ?_
  · exact at_of_same hsame.disk hsame.log (fun _ => hsame.tmp) (hothers t' ht' hat)
  · rw [(at_leave hl t' ht').2] at hup
    cases hup

/-- A pass starts with a placeholder for each recorded step that has no entry. -/
theorem filling_snapshot {steps : List StepEntry} {now : UInt32 → String} (ha : Account s)
    (hs : Safe s others (.snapshot steps now)) :
    s.Filling steps (missingEntries s.disk.file steps now) := by
  obtain ⟨hread, hsettled⟩ := hs
  refine ⟨fun hne => hread fun hnil => hne (by rw [hnil]; rfl), fun hn e he => ?_, fun step hstep => ?_⟩
  · rw [Option.eq_none_iff_forall_ne_some]
    intro j hj
    obtain ⟨step, hstep, rfl⟩ := List.mem_map.mp he
    have hmissing : step.stepId ∉ existingIds s.disk.file := by
      simpa using (List.mem_filter.mp hstep).2
    obtain ⟨e', hkey, rfl⟩ := best_rust hn hj
    have hid : step.stepId = e'.stepId := UInt32.toNat_inj.mp (Int.ofNat_inj.mp hkey)
    have hmem : e'.toJson ∈ entriesOf s.disk.file (placeholder step (now step.stepId)).key := by
      rw [ha.stands _ _ hj]
      exact List.mem_singleton_self _
    exact hmissing (hid ▸ mem_existingIds hmem)
  · by_cases hid : step.stepId ∈ existingIds s.disk.file
    · exact .inr (hsettled step hstep hid)
    · refine .inl (List.mem_map.mpr ⟨placeholder step (now step.stepId), ?_, rfl⟩)
      exact List.mem_map.mpr ⟨step, List.mem_filter.mpr ⟨hstep, by simpa using hid⟩, rfl⟩

/-- A task that does not update the file is at its place if its pass can go on. -/
theorem at_of_filling (hup : t.updating = false)
    (hfill : ∀ entry rest steps, t = .read (.placeholder entry rest steps) →
      s.Filling steps (entry :: rest) → s'.Filling steps (entry :: rest))
    (h : s.At t) : s'.At t := by
  cases t with
  | read w =>
    cases w with
    | placeholder entry rest steps => exact hfill entry rest steps rfl h
    | result _ _ | human _ _ => trivial
  | save _ _ | rename _ => cases hup
  | sessionWriteLock _ | acquire _ _ | removeSession _ | snapshot _ _ => trivial

theorem text_of_rust {disk : Disk} {e : ReasoningEntry} {text : Text}
    (h : (disk.read.map fun file => upsertEntry file e) = some text) : text = upsertEntry disk.file e := by
  obtain ⟨file, hread, rfl⟩ := Option.map_eq_some_iff.mp h
  rw [read_eq_file hread]

/-- Who has read the file puts the new one in its place. -/
theorem Sound.rename {w : Writer} (h : Sound s (.rename w :: others)) (hs : Safe s others (.rename w)) :
    Sound (s.step (.rename w)).1 ((s.step (.rename w)).2.toList ++ others) := by
  obtain ⟨hwaits, text, htmp, htext, hbefore⟩ := h.place _ List.mem_cons_self
  have hidle := h.idle (t := .rename w) rfl
  rw [Shared.step, htmp]
  dsimp only
  cases w with
  | result entry l =>
    have hup : Upserted s { s with disk := .text text, tmp := none, log := s.log ++ [.upsertEntry entry] } entry :=
      ⟨congrArg Disk.text (text_of_rust htext), rfl, hbefore, .inr rfl⟩
    refine h.leave (hup.account h.account) (fun t' ht' => ?_) trivial
    refine at_of_filling (hidle t' ht') fun entry' rest steps htask hf => ?_
    have hapart := hs t' ht'
    rw [htask] at hapart
    exact hup.filling hf (.inr hapart)
  | placeholder entry rest steps =>
    have hfree : best s.log entry.key = none := hwaits.free hbefore entry List.mem_cons_self
    have hup : Upserted s { s with disk := .text text, tmp := none, log := s.log ++ [] } entry :=
      ⟨congrArg Disk.text (text_of_rust htext), rfl, hbefore, .inl ⟨List.append_nil _, hfree⟩⟩
    refine h.leave (hup.account h.account) (fun t' ht' => ?_) (hup.filled hwaits (List.append_nil _))
    exact at_of_filling (hidle t' ht') fun _ _ _ _ hf => hup.filling hf (.inl (List.append_nil _))
  | human step now =>
    obtain ⟨file, hread, hnew⟩ := Option.bind_eq_some_iff.mp htext
    rw [← read_eq_file hread] at hnew
    have hann : Annotated s
        { s with disk := .text text, tmp := none, log := s.log ++ [.atomicUpsert step now] } step now :=
      ⟨hbefore, ⟨text, hnew, rfl⟩, rfl, rfl⟩
    refine h.leave (hann.account h.account) (fun t' ht' => ?_) trivial
    exact at_of_filling (hidle t' ht') fun _ _ _ _ hf => hann.filling hf

/-- A writer reads while nobody else updates the file: a handler because it holds
the lock. -/
theorem Sound.read {w : Writer} (h : Sound s (.read w :: others)) (hl : Locks s (.read w :: others))
    (hs : Safe s others (.read w)) :
    Sound (s.step (.read w)).1 ((s.step (.read w)).2.toList ++ others) := by
  have hwaits : s.Waits w := h.place _ List.mem_cons_self
  have hidle : ∀ t' ∈ others, t'.updating = false := by
    intro t' ht'
    cases w with
    | result entry l =>
      have hholds := hl.alone rfl t' ht'
      rw [Bool.eq_false_iff]
      intro hup
      rw [hs.2 t' ht' hup] at hholds
      cases hholds
    | placeholder _ _ _ | human _ _ => exact hs.2 t' ht'
  rw [Shared.step]
  cases htext : w.text s.disk with
  | some text =>
    refine h.same (some (.save w text)) ⟨rfl, rfl, rfl⟩ rfl (fun t' ht' => ?_) fun _ _ _ => hidle
    cases ht'
    refine ⟨hwaits, htext, ?_⟩
    cases w <;> exact hs.1
  | none =>
    refine h.leave h.account (fun _ _ hat => hat) ?_
    cases w with
    | placeholder entry rest steps =>
      obtain ⟨file, hread⟩ := Option.isSome_iff_exists.mp (hwaits.readable (List.cons_ne_nil _ _))
      rw [Writer.text, hread] at htext
      cases htext
    | result _ _ | human _ _ => trivial

theorem Sound.save {w : Writer} {text : Text} (h : Sound s (.save w text :: others)) :
    Sound { s with tmp := some text } (.rename w :: others) := by
  obtain ⟨hwaits, hbegun⟩ := h.place _ List.mem_cons_self
  have hidle := h.idle (t := .save w text) rfl
  obtain ⟨s', hs'⟩ : ∃ s', s' = { s with tmp := some text } := ⟨_, rfl⟩
  have hdisk : s'.disk = s.disk := by rw [hs']
  have hlog : s'.log = s.log := by rw [hs']
  have htmp : s'.tmp = some text := by rw [hs']
  have haccount : Account s' := by
    rw [hs']
    exact ⟨h.account.stands, h.account.kept, h.account.complete⟩
  rw [← hs']
  refine h.goes (some (.rename w)) haccount (fun t' ht' => ?_) (fun t' ht' => ?_)
    fun _ _ _ => hidle
  · refine at_of_same hdisk hlog fun hup => ?_
    rw [hidle t' ht'] at hup
    cases hup
  · cases ht'
    exact ⟨waits_of_same hdisk hlog hwaits, text, htmp, begun_of_same hdisk hlog hbegun⟩

theorem Sound.step (h : Sound s (t :: others)) (hl : Locks s (t :: others)) (hs : Safe s others t) :
    Sound (s.step t).1 ((s.step t).2.toList ++ others) := by
  have hrest : ∀ (s' : Shared) (t' : Task), SameFile s s' → s'.ended = s.ended → s'.At t' →
      t'.updating = false → Sound s' (t' :: others) := by
    intro s' t' hsame hended hat hup
    refine h.same (some t') hsame hended (fun u hu => ?_) fun u hu hbusy => ?_
    · cases hu
      exact hat
    · cases hu
      rw [hup] at hbusy
      cases hbusy
  cases t with
  | sessionWriteLock entry =>
    rw [Shared.step]
    cases s.lock with
    | some l => exact hrest _ _ ⟨rfl, rfl, rfl⟩ rfl trivial rfl
    | none => exact hrest _ _ ⟨rfl, rfl, rfl⟩ rfl trivial rfl
  | acquire entry l =>
    rw [Shared.step]
    split
    · exact h
    · exact hrest _ _ ⟨rfl, rfl, rfl⟩ rfl trivial rfl
  | removeSession pass =>
    cases pass with
    | none => exact h.same none ⟨rfl, rfl, rfl⟩ rfl (fun _ hu => (by cases hu)) fun _ hu => (by cases hu)
    | some pass => exact hrest _ _ ⟨rfl, rfl, rfl⟩ rfl trivial rfl
  | snapshot steps now =>
    have hf := filling_snapshot h.account hs
    have hsame := fill_same s steps (missingEntries s.disk.file steps now)
    refine h.goes _ (account_fill h.account hf) (fun t' _ => ?_) (fun t' ht' => (at_fill hf t' ht').1)
      fun t' ht' hup => ?_
    · exact at_of_same hsame.disk hsame.log fun _ => hsame.tmp
    · rw [(at_fill hf t' ht').2] at hup
      cases hup
  | read w => exact h.read hl hs
  | save w text => exact h.save
  | rename w => exact h.rename hs

end Sound


/-- The invariant of runs. -/
structure InOrder (s : Shared) (ts : List Task) : Prop where
  locks : Locks s ts
  sound : Sound s ts

theorem Locks.perm {s : Shared} {ts ts' : List Task} (hp : ts.Perm ts') (h : Locks s ts) : Locks s ts' where
  current t ht := h.current t (hp.mem_iff.mpr ht)
  same t ht t' ht' := h.same t (hp.mem_iff.mpr ht) t' (hp.mem_iff.mpr ht')
  held t ht := h.held t (hp.mem_iff.mpr ht)
  one := by rw [← hp.countP_eq]; exact h.one

theorem Sound.perm {s : Shared} {ts ts' : List Task} (hp : ts.Perm ts') (h : Sound s ts) : Sound s ts' where
  alone := by rw [← hp.countP_eq]; exact h.alone
  account := h.account
  place t ht := h.place t (hp.mem_iff.mpr ht)

/-- A task that has just come in has no lock and has read nothing. -/
theorem InOrder.call {s : Shared} {ts : List Task} (c : Call) (h : InOrder s ts) :
    InOrder s (c.task :: ts) := by
  have hnew : c.task.lock? = none ∧ c.task.holds = false ∧ c.task.updating = false ∧ s.At c.task := by
    cases c <;> exact ⟨rfl, rfl, rfl, trivial⟩
  obtain ⟨hlock, hholds, hup, hat⟩ := hnew
  have hlocks : ∀ t ∈ c.task :: ts, ∀ l, t.lock? = some l → t ∈ ts := by
    intro t ht l hl
    obtain rfl | ht := List.mem_cons.mp ht
    · rw [hlock] at hl
      cases hl
    · exact ht
  refine ⟨⟨fun t ht l hl => ?_, fun t ht t' ht' l l' hl hl' => ?_, fun t ht hh l hl => ?_, ?_⟩, ?_, ?_, ?_⟩
  · exact h.locks.current t (hlocks t ht l hl) l hl
  · exact h.locks.same t (hlocks t ht l hl) t' (hlocks t' ht' l' hl') l l' hl hl'
  · exact h.locks.held t (hlocks t ht l hl) hh l hl
  · rw [List.countP_cons, hholds]
    exact h.locks.one
  · rw [List.countP_cons, hup]
    exact h.sound.alone
  · exact h.sound.account
  · intro t ht
    obtain rfl | ht := List.mem_cons.mp ht
    · exact hat
    · exact h.sound.place t ht

theorem keeps : machine.Keeps InOrder Safe where
  perm s ts ts' hp h := ⟨h.locks.perm hp, h.sound.perm hp⟩
  call s ts c h := h.call c
  step s t others h hs := ⟨h.locks.step hs, h.sound.step h.locks hs⟩

/-- Before the first message of a session: the file may hold anything. -/
def Begins (s : State) : Prop := s.tasks = [] ∧ s.shared.log = [] ∧ s.shared.ended = []

theorem Begins.inOrder {s : State} (h : Begins s) : InOrder s.shared s.tasks := by
  obtain ⟨htasks, hlog, hended⟩ := h
  have hbest : ∀ k, best s.shared.log k = none := fun k => by rw [hlog]; rfl
  rw [htasks]
  refine ⟨⟨?_, ?_, ?_, Nat.zero_le 1⟩, Nat.zero_le 1, ⟨fun k j hj => ?_, fun _ k j hj => ?_, ?_⟩, ?_⟩
  · exact fun t ht => (List.not_mem_nil ht).elim
  · exact fun t ht => (List.not_mem_nil ht).elim
  · exact fun t ht => (List.not_mem_nil ht).elim
  · rw [hbest] at hj
    cases hj
  · rw [hbest] at hj
    cases hj
  · rw [hended]
    exact fun step hstep => (List.not_mem_nil hstep).elim
  · exact fun t ht => (List.not_mem_nil ht).elim

theorem InOrder.preserved {s : State} (h : InOrder s.shared s.tasks) : Preserved s :=
  ⟨h.sound.alone, h.sound.account.stands, fun step hstep => (h.sound.account.complete step hstep).1⟩

def sampleModel : AutomatedReasoning where
  reasoning := "Opens the menu."
  source := "vlm"
  provider := none
  modelId := none
  apiVersion := none
  inputTokens := none
  outputTokens := none
  latencyMs := none
  actionIntent := none
  confidence := none
  keyboardVisualAnnotation := none

def sampleStart : State := ⟨⟨.missing, none, none, 0, [], [], []⟩, []⟩

/-- In a run whose steps are all safe no entry that was accepted is lost to a placeholder
or to an overlap, none of the annotation screen to the model, and each step of a session
that is done has one entry. -/
theorem updates_preserve_entries (s : State) (is : List (Move Call)) (hs : Begins s)
    (hg : Guarded machine.move (Machine.Meets Safe) s is) :
    Along machine.move (fun _ _ s' => Preserved s') s is :=
  keeps.along (fun _ => InOrder.preserved) s is hs.inOrder hg

theorem updates_preserve_entries_sample :
    Along machine.move (fun _ _ s' => Preserved s') sampleStart
      [.call (.reasoningResult (bareStep 1) sampleModel ""), .run 0, .run 0, .run 0, .run 0, .run 0,
        .call (.done [bareStep 1] fun _ => ""), .run 0, .run 0] := by
  apply updates_preserve_entries sampleStart _ ⟨rfl, rfl, rfl⟩
  refine ⟨trivial, ?_, ?_, ?_, ?_, ?_, trivial, ?_, ?_, trivial⟩
  · rintro t ⟨⟩
    exact fun _ t ht => (List.not_mem_nil ht).elim
  · rintro t ⟨⟩
    trivial
  · rintro t ⟨⟩
    exact ⟨rfl, fun t ht => (List.not_mem_nil ht).elim⟩
  · rintro t ⟨⟩
    trivial
  · rintro t ⟨⟩
    exact fun t ht => (List.not_mem_nil ht).elim
  · rintro t ⟨⟩
    trivial
  · rintro t ⟨⟩
    refine ⟨fun _ => rfl, List.forall_mem_singleton.mpr ?_⟩
    decide +kernel

/-- The session is done while a result for its one step is on its way: the pass has seen
that the step has no entry, and writes its placeholder after the result. -/
def lateResult : List (Move Call) :=
  [.call (.done [bareStep 1] fun _ => ""), .run 0, .run 0,
    .call (.reasoningResult (bareStep 1) sampleModel ""), .run 1, .run 1, .run 1, .run 1, .run 1,
    .run 0, .run 0, .run 0]

theorem placeholder_over_result :
    Begins sampleStart ∧ ¬ Along machine.move (fun _ _ s' => Preserved s') sampleStart lateResult := by
  refine ⟨⟨rfl, rfl, rfl⟩, fun h => ?_⟩
  obtain ⟨-, -, -, -, -, -, -, -, -, -, -, hlast, -⟩ := h
  have hresult := hlast.stands 1 (buildAutomatedEntry (bareStep 1) sampleModel "").toJson rfl
  have hsource := congrArg (List.map fun j => (j.get? "source").bind asString) hresult
  revert hsource
  decide +kernel

end MemoryArchive.Reasoning.Updates
