import Mathlib.Data.List.Sort
import MemoryArchive.Text.Lines

namespace MemoryArchive.Reasoning.Scaffold

abbrev Text := List Char

/-- What the scaffold takes of a step of the metadata. -/
structure StepEntry where
  stepId : Nat
  actionType : Text
  actionSubtype : Text
  convertedCommand : Text
  imagePath : Option Text

/-- What the scaffold takes of an entry of reasoning.jsonl. -/
structure Entry where
  stepId : Nat
  convertedCommand : Text
  skipped : Bool
  reasoning : Option Text
  source : Option Text
  imagePath : Option Text

structure Metadata where
  memoryName : Text
  steps : List StepEntry

def noReasoning : Text := "<!-- No reasoning provided -->".toList

def unavailable : Text :=
  ("<!-- VLM reasoning unavailable — circuit breaker was open during capture. " ++
    "Please annotate manually. -->").toList

/-- A path that is there and not empty. -/
def given (path : Option Text) : Option Text := path.filter fun p => p ≠ []

/-- One section of the scaffold, before it is written down. -/
structure Section where
  stepId : Nat
  command : Text
  content : Text
  imagePath : Option Text

def heading (stepId : Nat) (command : Text) : Text :=
  "### Step ".toList ++ (Nat.repr stepId).toList ++ " — ".toList ++ command

def imageLink (stepId : Nat) (path : Text) : Text :=
  "![Step ".toList ++ (Nat.repr stepId).toList ++ "](".toList ++ path ++ [')']

/-- The texts that are appended for a section. -/
def Section.lines (s : Section) : List Text :=
  [heading s.stepId s.command, [], s.content] ++
    (match s.imagePath with
      | some path => [[], imageLink s.stepId path]
      | none => []) ++ [[]]

/-- `entry_by_step`: a later entry takes the place of an earlier one. -/
def entryByStep (entries : List Entry) (stepId : Nat) : Option Entry :=
  entries.reverse.find? fun e => e.stepId = stepId

/-- `(entry.get("reasoning") or "").strip()`. -/
def Entry.text (e : Entry) : Text := Lines.pyStrip (e.reasoning.getD [])

def content : Option Entry → Text
  | none => noReasoning
  | some e =>
      if e.skipped then noReasoning
      else if e.text ≠ [] then e.text
      else if e.source = some "model_degraded".toList then unavailable
      else noReasoning

/-- The command of an entry stands in the heading, also when it is empty. -/
def command (step : StepEntry) : Option Entry → Text
  | some e => e.convertedCommand
  | none => step.actionType ++ ['/'] ++ step.actionSubtype

def sectionOf (entries : List Entry) (step : StepEntry) : Section :=
  let entry := entryByStep entries step.stepId
  { stepId := step.stepId
    command := command step entry
    content := content entry
    imagePath := (given (entry.bind Entry.imagePath)).or (given step.imagePath) }

/-- The steps of the metadata or, where it has none, one for each entry. -/
def stepsOf (m : Metadata) (entries : List Entry) : List StepEntry :=
  if m.steps = [] then entries.map fun e => ⟨e.stepId, [], [], [], none⟩ else m.steps

def sections (m : Metadata) (entries : List Entry) : List Section :=
  ((stepsOf m entries).insertionSort fun a b => a.stepId ≤ b.stepId).map (sectionOf entries)

def header (m : Metadata) : List Text :=
  ["# Memory: ".toList ++ m.memoryName, [], "## Overview".toList,
    "<!-- Describe what this memory does and when to use it -->".toList, [], "## Prerequisites".toList,
    "<!-- List any requirements before running this task -->".toList, [], "## Steps".toList, []]

def footer : List Text :=
  ["## Notes & Edge Cases".toList,
    "<!-- Known failure modes, alternative paths, environment-specific behavior -->".toList, []]

def generateScaffold (m : Metadata) (entries : List Entry) : Text :=
  ['\n'].intercalate (header m ++ (sections m entries).flatMap Section.lines ++ footer)

/-- The lines of a text. -/
def linesOf (text : Text) : List Text := text.splitOn '\n'

def isStepHeading (line : Text) : Bool := "### Step ".toList.isPrefixOf line

/-- The lines that end a section: the next heading of a step or of a part. -/
def isStructure (line : Text) : Bool := isStepHeading line || "## ".toList.isPrefixOf line

/-- The step sections that a reader of the document finds: a heading with the lines below
it. -/
def stepSections : List Text → List (Text × List Text)
  | [] => []
  | line :: rest =>
      if isStepHeading line then
        (line, rest.takeWhile fun l => !isStructure l) :: stepSections rest
      else stepSections rest

/-- The lines of a section, as a heading with what is below it. -/
def Section.read (s : Section) : Text × List Text :=
  let lines := s.lines.flatMap linesOf
  (lines.headD [], lines.tail)

/-- The sections that are read in the document are the ones that are written; their steps
are those of the metadata and of the entries, each once and in ascending order; a command
of the metadata heads its section; and the reasoning of the latest entry stands in it or,
where that is skipped or blank, a placeholder. -/
structure Complete (m : Metadata) (entries : List Entry) : Prop where
  read : stepSections (linesOf (generateScaffold m entries)) = (sections m entries).map Section.read
  ascending : ((sections m entries).map Section.stepId).Pairwise (· < ·)
  steps : ∀ id, id ∈ (sections m entries).map Section.stepId ↔
    id ∈ m.steps.map StepEntry.stepId ∨ id ∈ entries.map Entry.stepId
  headed : ∀ s ∈ sections m entries, ∀ step ∈ m.steps, step.stepId = s.stepId →
    step.convertedCommand ≠ [] → heading s.stepId s.command = heading step.stepId step.convertedCommand
  shown : ∀ s ∈ sections m entries, ∀ e, entryByStep entries s.stepId = some e →
    if e.skipped = false ∧ e.text ≠ [] then s.content = e.text
    else s.content = noReasoning ∨ s.content = unavailable

/-- A text whose lines are no structure, but for the first, which does not begin a line. -/
def PlainRest (text : Text) : Prop := ∀ l ∈ (linesOf text).tail, isStructure l = false

def Plain (text : Text) : Prop := ∀ l ∈ linesOf text, isStructure l = false

instance (text : Text) : Decidable (Plain text) :=
  inferInstanceAs (Decidable (∀ l ∈ linesOf text, isStructure l = false))

/-- What a section takes over has no line that imitates the headings of the document: the
reasoning that is shown, and the command and the image path after their first lines. -/
structure PlainTexts (entries : List Entry) (step : StepEntry) : Prop where
  command : ∀ e, entryByStep entries step.stepId = some e → PlainRest e.convertedCommand
  action : entryByStep entries step.stepId = none →
    PlainRest (step.actionType ++ ['/'] ++ step.actionSubtype)
  reasoning : ∀ e, entryByStep entries step.stepId = some e → e.skipped = false → Plain e.text
  imagePath : ∀ path, (given ((entryByStep entries step.stepId).bind Entry.imagePath)).or
    (given step.imagePath) = some path → PlainRest (path ++ [')'])

/-- No step is there twice, in the metadata or, without steps there, in the entries, and
the metadata, where it has steps, has those of all entries; the latest entry of a step
has the metadata's command, if that is not empty (without an entry, its action is the
command); and no text has a line that imitates the headings of the document. -/
structure Regular (m : Metadata) (entries : List Entry) : Prop where
  nodup : ((stepsOf m entries).map StepEntry.stepId).Nodup
  known : ∀ e ∈ entries, e.stepId ∈ (stepsOf m entries).map StepEntry.stepId
  commands : ∀ step ∈ m.steps, step.convertedCommand ≠ [] →
    match entryByStep entries step.stepId with
    | some e => e.convertedCommand = step.convertedCommand
    | none => step.actionType ++ ['/'] ++ step.actionSubtype = step.convertedCommand
  name : ∀ l ∈ (linesOf m.memoryName).tail, isStepHeading l = false
  texts : ∀ step ∈ stepsOf m entries, PlainTexts entries step

section Lines

theorem linesOf_append_cons (a b : Text) : linesOf (a ++ '\n' :: b) = linesOf a ++ linesOf b := by
  unfold linesOf
  rw [List.splitOn_eq_splitOnP, List.splitOn_eq_splitOnP, List.splitOn_eq_splitOnP]
  exact List.splitOnP_append_cons a b rfl

/-- Joined texts are read line by line. -/
theorem linesOf_intercalate {texts : List Text} (h : texts ≠ []) :
    linesOf (['\n'].intercalate texts) = texts.flatMap linesOf := by
  induction texts with
  | nil => exact absurd rfl h
  | cons a texts ih =>
    cases texts with
    | nil => simp [List.intercalate]
    | cons b texts =>
      have hjoin : ['\n'].intercalate (a :: b :: texts) = a ++ '\n' :: ['\n'].intercalate (b :: texts) := by
        simp [List.intercalate, List.intersperse]
      rw [hjoin, linesOf_append_cons, ih (List.cons_ne_nil _ _)]
      rfl

theorem linesOf_ne_nil (text : Text) : linesOf text ≠ [] := List.splitOnP_ne_nil _ text

/-- A text without line ends before another one is part of its first line. -/
theorem linesOf_append (front : Text) (h : '\n' ∉ front) (text : Text) :
    ∃ first rest, linesOf text = first :: rest ∧ linesOf (front ++ text) = (front ++ first) :: rest := by
  induction front with
  | nil =>
    obtain ⟨first, rest, htext⟩ := List.exists_cons_of_ne_nil (linesOf_ne_nil text)
    exact ⟨first, rest, htext, htext⟩
  | cons c front ih =>
    obtain ⟨first, rest, htext, hfront⟩ := ih fun hin => h (List.mem_cons_of_mem c hin)
    have hc : ¬ (c == '\n') = true := by
      intro heq
      exact h (by simp [eq_of_beq heq])
    refine ⟨first, rest, htext, ?_⟩
    unfold linesOf at hfront ⊢
    rw [List.splitOn_eq_splitOnP] at hfront ⊢
    rw [List.cons_append, List.splitOnP_cons_eq_if_modifyHead, if_neg hc, hfront]
    rfl

end Lines

section Reading

variable {line : Text} {lines rest : List Text}

theorem stepSections_skip (h : ∀ l ∈ lines, isStepHeading l = false) :
    stepSections (lines ++ rest) = stepSections rest := by
  induction lines with
  | nil => rfl
  | cons l lines ih =>
    obtain ⟨hl, hlines⟩ := List.forall_mem_cons.mp h
    rw [List.cons_append, stepSections, hl]
    exact ih hlines

theorem step_of_structure (h : isStructure line = false) : isStepHeading line = false := by
  simp only [isStructure, Bool.or_eq_false_iff] at h
  exact h.1

/-- A section ends where the next heading stands. -/
theorem takeWhile_section (h : ∀ l ∈ lines, isStructure l = false)
    (hrest : ∀ l ∈ rest.head?, isStructure l = true) :
    (lines ++ rest).takeWhile (fun l => !isStructure l) = lines := by
  induction lines with
  | nil =>
    cases rest with
    | nil => rfl
    | cons l rest => simp [hrest l rfl]
  | cons l lines ih =>
    obtain ⟨hl, hlines⟩ := List.forall_mem_cons.mp h
    rw [List.cons_append, List.takeWhile_cons_of_pos (by simp [hl]), ih hlines]

/-- Sections without structure of their own are read as they are. -/
theorem stepSections_blocks {blocks : List (Text × List Text)}
    (hhead : ∀ b ∈ blocks, isStepHeading b.1 = true)
    (hbody : ∀ b ∈ blocks, ∀ l ∈ b.2, isStructure l = false)
    (hend : ∀ l ∈ rest.head?, isStructure l = true) (hrest : ∀ l ∈ rest, isStepHeading l = false) :
    stepSections (blocks.flatMap (fun b => b.1 :: b.2) ++ rest) = blocks := by
  induction blocks with
  | nil =>
    have hskip : stepSections (rest ++ []) = stepSections [] := stepSections_skip hrest
    rw [List.append_nil] at hskip
    exact hskip
  | cons b blocks ih =>
    obtain ⟨hb, hheads⟩ := List.forall_mem_cons.mp hhead
    obtain ⟨hplain, hbodies⟩ := List.forall_mem_cons.mp hbody
    have hnext : ∀ l ∈ (blocks.flatMap (fun b => b.1 :: b.2) ++ rest).head?, isStructure l = true := by
      cases blocks with
      | nil => exact hend
      | cons b' blocks =>
        intro l hl
        obtain rfl : b'.1 = l := by simpa using hl
        simp [isStructure, hheads b' List.mem_cons_self]
    have hsteps : ∀ l ∈ b.2, isStepHeading l = false := fun l hl => step_of_structure (hplain l hl)
    rw [List.flatMap_cons, List.cons_append, List.cons_append, stepSections, hb, List.append_assoc,
      if_pos rfl, takeWhile_section hplain hnext, stepSections_skip hsteps, ih hheads hbodies]

theorem stepSections_body (b : Text × List Text) (hb : b ∈ stepSections lines) :
    ∀ l ∈ b.2, isStructure l = false := by
  induction lines with
  | nil => exact absurd hb List.not_mem_nil
  | cons line lines ih =>
    rw [stepSections] at hb
    cases hline : isStepHeading line with
    | false =>
      rw [hline] at hb
      exact ih hb
    | true =>
      rw [hline, if_pos rfl] at hb
      obtain rfl | hb := List.mem_cons.mp hb
      · intro l hl
        simpa using List.mem_takeWhile_imp hl
      · exact ih hb

theorem length_stepSections (lines : List Text) :
    (stepSections lines).length = lines.countP isStepHeading := by
  induction lines with
  | nil => rfl
  | cons line lines ih =>
    rw [stepSections]
    cases hline : isStepHeading line with
    | false =>
      rw [List.countP_cons_of_neg (by simp [hline]), ← ih]
      rfl
    | true =>
      rw [List.countP_cons_of_pos hline, ← ih]
      rfl

theorem length_le_count (blocks : List (Text × List Text)) (h : ∀ b ∈ blocks, isStepHeading b.1 = true) :
    blocks.length ≤ (blocks.flatMap fun b => b.1 :: b.2).countP isStepHeading := by
  induction blocks with
  | nil => exact Nat.le_refl _
  | cons b blocks ih =>
    obtain ⟨hb, hblocks⟩ := List.forall_mem_cons.mp h
    have hrest := ih hblocks
    rw [List.flatMap_cons, List.countP_append, List.countP_cons_of_pos hb, List.length_cons]
    omega

end Reading

section Sections

variable {m : Metadata} {entries : List Entry} {step : StepEntry}

theorem digits_no_break (n : Nat) : '\n' ∉ (Nat.repr n).toList := by
  intro h
  rw [Nat.toList_repr] at h
  have hdigit := Nat.isDigit_of_mem_toDigits (by decide) (by decide) h
  exact absurd hdigit (by decide)

/-- The part of a heading before its command. -/
def headingStart (stepId : Nat) : Text := "### Step ".toList ++ (Nat.repr stepId).toList ++ " — ".toList

theorem headingStart_no_break (stepId : Nat) : '\n' ∉ headingStart stepId := by
  unfold headingStart
  rw [List.mem_append, List.mem_append]
  rintro ((h | h) | h)
  · exact absurd h (by decide)
  · exact digits_no_break stepId h
  · exact absurd h (by decide)

theorem step_headingStart (stepId : Nat) (rest : Text) :
    isStepHeading (headingStart stepId ++ rest) = true := by
  unfold isStepHeading headingStart
  rw [List.isPrefixOf_iff_prefix, List.append_assoc, List.append_assoc]
  exact List.prefix_append _ _

/-- The part of an image link before its path. -/
def linkStart (stepId : Nat) : Text := "![Step ".toList ++ (Nat.repr stepId).toList ++ "](".toList

theorem linkStart_no_break (stepId : Nat) : '\n' ∉ linkStart stepId := by
  unfold linkStart
  rw [List.mem_append, List.mem_append]
  rintro ((h | h) | h)
  · exact absurd h (by decide)
  · exact digits_no_break stepId h
  · exact absurd h (by decide)

theorem plain_linkStart (stepId : Nat) (rest : Text) : isStructure (linkStart stepId ++ rest) = false := by
  unfold linkStart
  rw [List.append_assoc, List.append_assoc]
  rfl

theorem linesOf_nil : linesOf [] = [[]] := rfl

theorem plain_nil : isStructure [] = false := rfl

/-- The lines below the heading of a section. -/
def Section.below (s : Section) : List Text :=
  (linesOf s.command).tail ++ ([[]] ++ linesOf s.content) ++
    (match s.imagePath with
      | some path => [[]] ++ linesOf (imageLink s.stepId path)
      | none => []) ++ [[]]

theorem lines_section (s : Section) : ∃ rest,
    s.lines.flatMap linesOf = (headingStart s.stepId ++ rest) :: s.below := by
  obtain ⟨first, rest, hcommand, hheading⟩ :=
    linesOf_append _ (headingStart_no_break s.stepId) s.command
  have hheading' : linesOf (heading s.stepId s.command) = (headingStart s.stepId ++ first) :: rest := hheading
  refine ⟨first, ?_⟩
  unfold Section.lines Section.below
  rw [hcommand]
  cases s.imagePath with
  | none => simp [List.flatMap_cons, hheading', linesOf_nil]
  | some path => simp [List.flatMap_cons, hheading', linesOf_nil]

theorem read_section (s : Section) : ∃ rest, s.read = (headingStart s.stepId ++ rest, s.below) := by
  obtain ⟨rest, hlines⟩ := lines_section s
  refine ⟨rest, ?_⟩
  unfold Section.read
  rw [hlines]
  rfl

theorem step_read (s : Section) : isStepHeading s.read.1 = true := by
  obtain ⟨rest, hread⟩ := read_section s
  rw [hread]
  exact step_headingStart s.stepId rest

theorem below_read (s : Section) : s.read.2 = s.below := by
  obtain ⟨rest, hread⟩ := read_section s
  rw [hread]

theorem lines_read (s : Section) : s.lines.flatMap linesOf = s.read.1 :: s.read.2 := by
  obtain ⟨rest, hlines⟩ := lines_section s
  unfold Section.read
  rw [hlines]
  rfl

theorem plain_link {stepId : Nat} {path : Text} :
    Plain (imageLink stepId path) ↔ PlainRest (path ++ [')']) := by
  obtain ⟨first, rest, hpath, hlink⟩ := linesOf_append _ (linkStart_no_break stepId) (path ++ [')'])
  have hlines : linesOf (imageLink stepId path) = (linkStart stepId ++ first) :: rest := by
    rw [← hlink, ← List.append_assoc]
    rfl
  unfold Plain PlainRest
  rw [hlines, hpath, List.forall_mem_cons, List.tail_cons]
  exact ⟨fun h => h.2, fun h => ⟨plain_linkStart stepId first, h⟩⟩

theorem plain_content {entry : Option Entry} :
    Plain (content entry) ↔ ∀ e, entry = some e → e.skipped = false → Plain e.text := by
  have hnone : Plain noReasoning := by
    have htext : noReasoning = _ := String.toList_ofList
    rw [htext]
    decide +kernel
  have hdegraded : Plain unavailable := by
    have htext : unavailable = _ := String.toList_append
    rw [htext, String.toList_ofList, String.toList_ofList]
    decide +kernel
  have hblank : Plain [] := by decide +kernel
  cases entry with
  | none => exact ⟨fun _ e he => (nomatch he), fun _ => hnone⟩
  | some e =>
    have hgoal : (∀ e', some e = some e' → e'.skipped = false → Plain e'.text) ↔
        (e.skipped = false → Plain e.text) :=
      ⟨fun h => h e rfl, fun h e' he' => Option.some.inj he' ▸ h⟩
    rw [hgoal]
    unfold content
    dsimp only
    by_cases hs : e.skipped = true
    · rw [if_pos hs]
      exact ⟨fun _ hf => absurd hs (by simp [hf]), fun _ => hnone⟩
    · have hf : e.skipped = false := by simpa using hs
      rw [if_neg hs]
      by_cases ht : e.text = []
      · rw [if_neg (not_not.mpr ht), ht]
        refine ⟨fun _ _ => hblank, fun _ => ?_⟩
        split
        · exact hdegraded
        · exact hnone
      · rw [if_pos ht]
        exact ⟨fun h _ => h, fun h => h hf⟩

theorem plain_command : PlainRest (command step (entryByStep entries step.stepId)) ↔
    (∀ e, entryByStep entries step.stepId = some e → PlainRest e.convertedCommand) ∧
      (entryByStep entries step.stepId = none →
        PlainRest (step.actionType ++ ['/'] ++ step.actionSubtype)) := by
  cases entryByStep entries step.stepId with
  | none => simp [command]
  | some e => simp [command]

/-- Below the heading nothing is structure just when the texts are plain. -/
theorem plain_below : (∀ l ∈ (sectionOf entries step).below, isStructure l = false) ↔
    PlainTexts entries step := by
  have himage : (∀ l ∈ (match (sectionOf entries step).imagePath with
      | some path => [[]] ++ linesOf (imageLink (sectionOf entries step).stepId path)
      | none => []), isStructure l = false) ↔
      ∀ path, (sectionOf entries step).imagePath = some path → PlainRest (path ++ [')']) := by
    cases (sectionOf entries step).imagePath with
    | none => simp
    | some path =>
      have hlink : Plain (imageLink (sectionOf entries step).stepId path) ↔ PlainRest (path ++ [')']) :=
        plain_link
      unfold Plain at hlink
      simp only [List.singleton_append, List.forall_mem_cons, plain_nil, true_and, hlink,
        Option.some.injEq, forall_eq']
  have hcontent : Plain (content (entryByStep entries step.stepId)) ↔
      ∀ e, entryByStep entries step.stepId = some e → e.skipped = false → Plain e.text := plain_content
  unfold Section.below
  simp only [List.forall_mem_append, List.forall_mem_singleton, plain_nil, and_true, true_and]
  constructor
  · rintro ⟨⟨hcommand, htext⟩, hpath⟩
    obtain ⟨hentry, haction⟩ := plain_command.mp hcommand
    exact ⟨hentry, haction, hcontent.mp htext, himage.mp hpath⟩
  · rintro ⟨hentry, haction, hreasoning, hpath⟩
    exact ⟨⟨plain_command.mpr ⟨hentry, haction⟩, hcontent.mpr hreasoning⟩, himage.mpr hpath⟩

end Sections

section Documents

variable {m : Metadata} {entries : List Entry}

theorem perm_sections : (sections m entries).Perm ((stepsOf m entries).map (sectionOf entries)) :=
  (List.perm_insertionSort _ (stepsOf m entries)).map (sectionOf entries)

theorem mem_sections {s : Section} :
    s ∈ sections m entries ↔ ∃ step ∈ stepsOf m entries, sectionOf entries step = s := by
  rw [perm_sections.mem_iff, List.mem_map]

theorem ids_sections : ((sections m entries).map Section.stepId).Perm
    ((stepsOf m entries).map StepEntry.stepId) := by
  have hsections : (sections m entries).Perm ((stepsOf m entries).map (sectionOf entries)) := perm_sections
  have hperm := hsections.map Section.stepId
  rw [List.map_map] at hperm
  exact hperm

theorem sorted_sections : ((sections m entries).map Section.stepId).Pairwise (· ≤ ·) := by
  have hsorted := List.pairwise_insertionSort (fun a b : StepEntry => a.stepId ≤ b.stepId) (stepsOf m entries)
  rw [sections, List.map_map, List.pairwise_map]
  exact hsorted

theorem ascending_iff : ((sections m entries).map Section.stepId).Pairwise (· < ·) ↔
    ((stepsOf m entries).map StepEntry.stepId).Nodup := by
  rw [← ids_sections.nodup_iff]
  constructor
  · exact fun h => h.imp fun hlt => Nat.ne_of_lt hlt
  · intro hnodup
    exact (sorted_sections.and hnodup).imp fun h => Nat.lt_of_le_of_ne h.1 h.2

theorem stepsOf_of_mem {step : StepEntry} (h : step ∈ m.steps) : stepsOf m entries = m.steps :=
  if_neg (List.ne_nil_of_mem h)

theorem steps_iff : (∀ id, id ∈ (sections m entries).map Section.stepId ↔
      id ∈ m.steps.map StepEntry.stepId ∨ id ∈ entries.map Entry.stepId) ↔
    ∀ e ∈ entries, e.stepId ∈ (stepsOf m entries).map StepEntry.stepId := by
  constructor
  · intro h e he
    exact ids_sections.mem_iff.mp ((h e.stepId).mpr (.inr (List.mem_map_of_mem he)))
  · intro h id
    rw [ids_sections.mem_iff]
    constructor
    · intro hid
      by_cases hsteps : m.steps = []
      · rw [stepsOf, if_pos hsteps, List.map_map] at hid
        exact .inr hid
      · rw [stepsOf, if_neg hsteps] at hid
        exact .inl hid
    · rintro (hid | hid)
      · obtain ⟨step, hstep, rfl⟩ := List.mem_map.mp hid
        rw [stepsOf_of_mem hstep]
        exact hid
      · obtain ⟨e, he, rfl⟩ := List.mem_map.mp hid
        exact h e he

theorem heading_inj {stepId : Nat} {a b : Text} (h : heading stepId a = heading stepId b) : a = b :=
  List.append_cancel_left h

theorem headed_iff (hnodup : ((stepsOf m entries).map StepEntry.stepId).Nodup) :
    (∀ s ∈ sections m entries, ∀ step ∈ m.steps, step.stepId = s.stepId → step.convertedCommand ≠ [] →
      heading s.stepId s.command = heading step.stepId step.convertedCommand) ↔
    ∀ step ∈ m.steps, step.convertedCommand ≠ [] →
      match entryByStep entries step.stepId with
      | some e => e.convertedCommand = step.convertedCommand
      | none => step.actionType ++ ['/'] ++ step.actionSubtype = step.convertedCommand := by
  have hhead : ∀ step : StepEntry, (match entryByStep entries step.stepId with
      | some e => e.convertedCommand = step.convertedCommand
      | none => step.actionType ++ ['/'] ++ step.actionSubtype = step.convertedCommand) ↔
      command step (entryByStep entries step.stepId) = step.convertedCommand := by
    intro step
    cases entryByStep entries step.stepId with
    | none => exact Iff.rfl
    | some e => exact Iff.rfl
  constructor
  · intro h step hstep hcommand
    refine (hhead step).mpr ?_
    have hmem : step ∈ stepsOf m entries := by
      rw [stepsOf_of_mem hstep]
      exact hstep
    exact heading_inj (h (sectionOf entries step) (mem_sections.mpr ⟨step, hmem, rfl⟩) step hstep rfl hcommand)
  · intro h s hs step hstep hid hcommand
    obtain ⟨other, hother, rfl⟩ := mem_sections.mp hs
    have hmem : step ∈ stepsOf m entries := by
      rw [stepsOf_of_mem hstep]
      exact hstep
    obtain rfl : step = other := List.inj_on_of_nodup_map hnodup hmem hother hid
    exact congrArg (heading step.stepId) ((hhead step).mp (h step hstep hcommand))

/-- The latest entry's reasoning is shown where there is any to show. -/
theorem shown_sections (s : Section) (hs : s ∈ sections m entries) (e : Entry)
    (he : entryByStep entries s.stepId = some e) :
    if e.skipped = false ∧ e.text ≠ [] then s.content = e.text
    else s.content = noReasoning ∨ s.content = unavailable := by
  obtain ⟨step, -, rfl⟩ := mem_sections.mp hs
  have hentry : entryByStep entries step.stepId = some e := he
  have hcontent : (sectionOf entries step).content = content (some e) := congrArg content hentry
  rw [hcontent]
  unfold content
  dsimp only
  split
  · rename_i hshown
    rw [if_neg (by simp [hshown.1]), if_pos hshown.2]
  · rename_i hhidden
    split
    · exact .inl rfl
    · rename_i hs'
      have htext : ¬ e.text ≠ [] := fun ht => hhidden ⟨by simpa using hs', ht⟩
      rw [if_neg htext]
      split
      · exact .inr rfl
      · exact .inl rfl

theorem linesOf_scaffold : linesOf (generateScaffold m entries) =
    (header m).flatMap linesOf ++ (((sections m entries).map Section.read).flatMap (fun b => b.1 :: b.2) ++
      footer.flatMap linesOf) := by
  have hheader : header m ≠ [] := List.cons_ne_nil _ _
  have hne : header m ++ (sections m entries).flatMap Section.lines ++ footer ≠ [] :=
    List.append_ne_nil_of_left_ne_nil (List.append_ne_nil_of_left_ne_nil hheader _) _
  have hblocks : ((sections m entries).flatMap Section.lines).flatMap linesOf =
      ((sections m entries).map Section.read).flatMap fun b => b.1 :: b.2 := by
    rw [List.flatMap_assoc, List.flatMap_map]
    exact List.flatMap_congr fun s _ => lines_read s
  rw [generateScaffold, linesOf_intercalate hne, List.flatMap_append, List.flatMap_append, hblocks,
    List.append_assoc]

theorem step_header : (∀ l ∈ (header m).flatMap linesOf, isStepHeading l = false) ↔
    ∀ l ∈ (linesOf m.memoryName).tail, isStepHeading l = false := by
  obtain ⟨first, rest, hname, htitle⟩ := linesOf_append "# Memory: ".toList (by decide) m.memoryName
  have hfixed : ∀ l ∈ ([[], "## Overview".toList,
      "<!-- Describe what this memory does and when to use it -->".toList, [], "## Prerequisites".toList,
      "<!-- List any requirements before running this task -->".toList, [], "## Steps".toList,
      []] : List Text).flatMap linesOf, isStepHeading l = false := by
    repeat rw [String.toList_ofList]
    decide +kernel
  have hfirst : isStepHeading ("# Memory: ".toList ++ first) = false := rfl
  rw [header, List.flatMap_cons, htitle, hname, List.tail_cons, List.forall_mem_append,
    List.forall_mem_cons]
  exact ⟨fun h => h.1.2, fun h => ⟨⟨hfirst, h⟩, hfixed⟩⟩

theorem step_reads (b : Text × List Text) (hb : b ∈ (sections m entries).map Section.read) :
    isStepHeading b.1 = true := by
  obtain ⟨s, -, rfl⟩ := List.mem_map.mp hb
  exact step_read s

theorem texts_iff : (∀ b ∈ (sections m entries).map Section.read, ∀ l ∈ b.2, isStructure l = false) ↔
    ∀ step ∈ stepsOf m entries, PlainTexts entries step := by
  constructor
  · intro h step hstep
    refine plain_below.mp ?_
    rw [← below_read]
    exact h _ (List.mem_map_of_mem (mem_sections.mpr ⟨step, hstep, rfl⟩))
  · intro h b hb
    obtain ⟨s, hs, rfl⟩ := List.mem_map.mp hb
    obtain ⟨step, hstep, rfl⟩ := mem_sections.mp hs
    rw [below_read]
    exact plain_below.mpr (h step hstep)

/-- The sections are read as they are written just when no text imitates the document. -/
theorem read_iff : stepSections (linesOf (generateScaffold m entries)) = (sections m entries).map Section.read ↔
    (∀ l ∈ (linesOf m.memoryName).tail, isStepHeading l = false) ∧
      ∀ step ∈ stepsOf m entries, PlainTexts entries step := by
  rw [linesOf_scaffold, ← step_header, ← texts_iff]
  constructor
  · intro hread
    refine ⟨fun l hl => ?_, fun b hb => stepSections_body b (hread ▸ hb)⟩
    have hlength := congrArg List.length hread
    have hblocks := length_le_count ((sections m entries).map Section.read) step_reads
    rw [length_stepSections, List.countP_append, List.countP_append] at hlength
    have hzero : ((header m).flatMap linesOf).countP isStepHeading = 0 := by omega
    simpa using List.countP_eq_zero.mp hzero l hl
  · rintro ⟨hheader, hbody⟩
    have hfooter : footer = [_, _, []] :=
      congrArg₂ (fun a b => [a, b, []]) String.toList_ofList String.toList_ofList
    rw [stepSections_skip hheader, hfooter]
    exact stepSections_blocks step_reads hbody (by decide +kernel) (by decide +kernel)

/-- The scaffold is complete for what the writers produce just when that is regular. -/
theorem complete_iff (m : Metadata) (entries : List Entry) : Complete m entries ↔ Regular m entries := by
  constructor
  · rintro ⟨hread, hascending, hsteps, hheaded, -⟩
    have hnodup := ascending_iff.mp hascending
    obtain ⟨hname, htexts⟩ := read_iff.mp hread
    exact ⟨hnodup, steps_iff.mp hsteps, (headed_iff hnodup).mp hheaded, hname, htexts⟩
  · rintro ⟨hnodup, hknown, hcommands, hname, htexts⟩
    exact ⟨read_iff.mpr ⟨hname, htexts⟩, ascending_iff.mpr hnodup, steps_iff.mpr hknown,
      (headed_iff hnodup).mpr hcommands, shown_sections⟩

/-- An answer that came while the metadata could not be read takes the command out of the
heading of its step. -/
theorem late_entry_unheaded : ¬ ∀ (m : Metadata) (entries : List Entry), Complete m entries := by
  intro h
  have hheaded := (h ⟨"demo".toList, [⟨1, "mouse".toList, "left".toList, "click OK".toList, none⟩]⟩
    [⟨1, [], false, some "because".toList, some "vlm".toList, none⟩]).headed
  have hheading := hheaded _ (mem_sections.mpr ⟨_, List.mem_singleton_self _, rfl⟩)
    _ (List.mem_singleton_self _) rfl (by decide)
  exact absurd (heading_inj hheading) (by decide)

end Documents

end MemoryArchive.Reasoning.Scaffold
