import MemoryArchive.Data.Actions
import MemoryArchive.Text.Cut

namespace MemoryArchive.Updater.Install

open Actions

abbrev Bytes := List UInt8

abbrev Text := List Char

inductive Binary
  | maCore
  | maKafkaProducer
  deriving DecidableEq

def rustBinaries : List Binary := [.maCore, .maKafkaProducer]

inductive Fault
  | osError
  | exception
  | interrupt
  deriving DecidableEq

/-- What is done with the temporary file of a binary. -/
inductive TempOp
  | copy
  | copystat
  | chmod
  | xattr
  | codesign
  | replace

/-- The operations of the installation that may fail. -/
inductive Op
  | makeBinDir
  | mkstemp (b : Binary)
  | temp (b : Binary) (o : TempOp)
  | unlink (b : Binary)
  | runPip
  | openEntry
  | writeEntry
  | statEntry
  | chmodEntry
  | readScript
  | openScript
  | writeScript
  | makeDataDir
  | copyDocs
  | rmtree

/-- How pip ends. A failure may leave the package broken. -/
inductive Pip
  | installed
  | failed (broken : Bool)

structure Env where
  isMacos : Bool
  executable : Text
  fault : Op → Option Fault
  pip : Pip
  /-- the entry point in pip's directory of scripts, if there is one -/
  script : Option Text

/-- An archive that has been extracted, with the binary that is checked for. -/
structure Archive where
  maCore : Bytes
  maKafkaProducer : Option Bytes
  wheel : Option Bytes

def Archive.binary (a : Archive) : Binary → Option Bytes
  | .maCore => some a.maCore
  | .maKafkaProducer => a.maKafkaProducer

/-- What is at a path: what was there before, if anything, a whole file of the release, or a
part of one. -/
inductive Slot (α : Type)
  | kept (before : Option α)
  | fresh (new : α)
  | torn

inductive Temp
  | workDir
  | new (b : Binary)
  deriving DecidableEq

structure Disk where
  binary : Binary → Slot Bytes
  package : Slot Bytes
  entry : Slot Text
  temps : List Temp

section Command

variable (env : Env)

abbrev op (o : Op) (f : Disk → Disk) : Action Disk Fault := change (env.fault o) f

/-- Operations that leave the disk as the command sees it. -/
def idle (ops : List Op) : Action Disk Fault := ops.foldr (fun o a => andThen (op env o id) a) pass

/-- What is done before the rename, on macOS with `_macos_finalize`. -/
def tempOps : List TempOp :=
  [.copy, .copystat, .chmod] ++ if env.isMacos then [.xattr, .codesign] else []

def Disk.addTemp (d : Disk) (t : Temp) : Disk := { d with temps := t :: d.temps }

def Disk.dropTemp (d : Disk) (t : Temp) : Disk := { d with temps := d.temps.erase t }

def Disk.put (d : Disk) (b : Binary) (data : Bytes) : Disk :=
  { d with binary := Function.update d.binary b (.fresh data) }

/-- `os.replace`: the temporary file becomes the binary. -/
def Disk.replace (d : Disk) (b : Binary) (data : Bytes) : Disk := (d.dropTemp (.new b)).put b data

def writeTemp (b : Binary) (data : Bytes) : Action Disk Fault :=
  andThen (idle env ((tempOps env).map (.temp b))) (op env (.temp b .replace) fun d => d.replace b data)

def removeTemp (b : Binary) : Action Disk Fault :=
  rescue (op env (.unlink b) fun d => d.dropTemp (.new b)) fun e => if e = .osError then pass else raise e

/-- `_replace_binary_posix` -/
def replaceBinary (b : Binary) (data : Bytes) : Action Disk Fault :=
  andThen (op env (.mkstemp b) fun d => d.addTemp (.new b))
    (rescue (writeTemp env b data) fun e =>
      if e = .osError then andThen (removeTemp env b) (raise e) else raise e)

def installBinary (a : Archive) (b : Binary) : Action Disk Fault :=
  match a.binary b with
  | none => raise .exception
  | some data => replaceBinary env b data

def installBinaries (a : Archive) : Action Disk Fault :=
  rustBinaries.foldr (fun b rest => andThen (installBinary env a b) rest) pass

/-- The script with the interpreter in its first line, if that names one. -/
def patched (executable script : Text) : Option Text :=
  match Lines.cut Lines.isPyBreak (Lines.readText script) with
  | first :: rest =>
      if "#!".toList <+: first then some ("#!".toList ++ executable ++ ['\n'] ++ rest.flatten) else none
  | [] => none

def patchShebang (script : Text) : Action Disk Fault :=
  rescue
    (andThen (op env .readScript id)
      (match patched env.executable script with
        | none => pass
        | some text =>
            andThen (op env .openScript fun d => { d with entry := .torn })
              (op env .writeScript fun d => { d with entry := .fresh text })))
    fun e => if e = .interrupt then raise e else pass

/-- `shutil.copy2` onto the entry point, and what follows. -/
def copyEntry (script : Text) : Action Disk Fault :=
  andThen (op env .openEntry fun d => { d with entry := .torn })
    (andThen (op env .writeEntry fun d => { d with entry := .fresh script })
      (andThen (op env .statEntry id) (andThen (op env .chmodEntry id) (patchShebang env script))))

/-- What pip leaves of the package. -/
def Disk.afterPip (d : Disk) (whl : Bytes) : Pip → Disk
  | .installed => { d with package := .fresh whl }
  | .failed true => { d with package := .torn }
  | .failed false => d

/-- `_pip_install_wheel`. That pip fails is only a warning. -/
def pipInstallWheel (whl : Bytes) : Action Disk Fault :=
  andThen (op env .runPip fun d => d.afterPip whl env.pip)
    (match env.pip with
      | .failed _ => pass
      | .installed =>
          match env.script with
          | none => pass
          | some script => copyEntry env script)

def installWheel (a : Archive) : Action Disk Fault :=
  match a.wheel with
  | none => pass
  | some whl => pipInstallWheel env whl

def installPhase (a : Archive) : Action Disk Fault :=
  andThen (op env .makeBinDir id)
    (andThen (installBinaries env a) (andThen (installWheel env a) (idle env [.makeDataDir, .copyDocs])))

/-- `shutil.rmtree(tmp_dir, ignore_errors=True)` -/
def removeWorkDir : Action Disk Fault :=
  rescue (op env .rmtree fun d => d.dropTemp .workDir) fun e => if e = .osError then pass else raise e

def updateCommand (a : Archive) : Action Disk Fault := ensuring (installPhase env a) (removeWorkDir env)

end Command

/-- What was installed before. -/
structure Before where
  binary : Binary → Option Bytes
  package : Option Bytes
  entry : Option Text

def start (s : Before) : Disk where
  binary b := .kept (s.binary b)
  package := .kept s.package
  entry := .kept s.entry
  temps := [.workDir]

/-- All is of the new release. -/
structure New (a : Archive) (d : Disk) : Prop where
  binary : ∀ b, ∃ data, a.binary b = some data ∧ d.binary b = .fresh data
  package : ∃ whl, a.wheel = some whl ∧ d.package = .fresh whl
  entry : ∃ text, d.entry = .fresh text

/-- All is still as before. -/
structure Old (s : Before) (d : Disk) : Prop where
  binary : ∀ b, d.binary b = .kept (s.binary b)
  package : d.package = .kept s.package
  entry : d.entry = .kept s.entry

/-- Each binary is what it was or a whole one of the release. -/
def Whole (a : Archive) (s : Before) (d : Disk) : Prop :=
  ∀ b, d.binary b = .kept (s.binary b) ∨ ∃ data, a.binary b = some data ∧ d.binary b = .fresh data

structure AllOrNothing (env : Env) (a : Archive) (s : Before) : Prop where
  ended : New a (updateCommand env a (start s)).state ∨ Old s (updateCommand env a (start s)).state
  whole : ∀ d ∈ (updateCommand env a (start s)).seen, Whole a s d
  temps : (updateCommand env a (start s)).state.temps = []

section Condition

variable (env : Env)

/-- The first failure while a binary is written and put in place. -/
def firstFault (b : Binary) : Option Fault :=
  (tempOps env ++ [TempOp.replace]).findSome? fun o => env.fault (.temp b o)

def Replaced (b : Binary) : Prop := env.fault (.mkstemp b) = none ∧ firstFault env b = none

/-- A binary is not replaced, and its temporary file is not there or goes. -/
def Withdrawn (b : Binary) : Prop :=
  env.fault (.mkstemp b) ≠ none ∨ (firstFault env b = some .osError ∧ env.fault (.unlink b) = none)

/-- The entry point is copied, and if its first line is to be replaced the script is written
again or not even opened. -/
structure EntryWritten (script : Text) : Prop where
  opened : env.fault .openEntry = none
  written : env.fault .writeEntry = none
  again : env.fault .writeScript = none ∨ env.fault .openScript ≠ none ∨
    patched env.executable script = none ∨ env.fault .readScript ≠ none ∨
    env.fault .chmodEntry ≠ none ∨ env.fault .statEntry ≠ none

/-- Nothing fails, and nothing is missing in the archive. -/
structure Complete (a : Archive) : Prop where
  dir : env.fault .makeBinDir = none
  binaries : ∀ b, a.binary b ≠ none ∧ Replaced env b
  wheel : a.wheel ≠ none
  pip : env.fault .runPip = none ∧ env.pip = .installed
  entry : ∃ script, env.script = some script ∧ EntryWritten env script

/-- The first failure comes before ma-core is replaced, and leaves nothing behind. -/
def Stopped : Prop :=
  env.fault .makeBinDir ≠ none ∨ Withdrawn env .maCore

end Condition

section Binaries

variable {env : Env} {b : Binary}

theorem idle_run (env : Env) (ops : List Op) (d : Disk) :
    (idle env ops d).state = d ∧ (idle env ops d).fault = ops.findSome? env.fault := by
  induction ops with
  | nil => exact ⟨rfl, rfl⟩
  | cons o ops ih =>
    have hcons : idle env (o :: ops) = andThen (op env o id) (idle env ops) := rfl
    cases hfault : env.fault o with
    | none =>
      have hop : op env o id d = ⟨[d], d, none⟩ := change_ok hfault id d
      rw [hcons, state_andThen (by rw [hop]), fault_andThen (by rw [hop]), hop, List.findSome?_cons, hfault]
      exact ih
    | some e =>
      have hop : op env o id d = ⟨[], d, some e⟩ := change_fault hfault id d
      have hrun : andThen (op env o id) (idle env ops) d = ⟨[], d, some e⟩ :=
        (andThen_fault (by rw [hop])).trans hop
      rw [hcons, hrun, List.findSome?_cons, hfault]
      exact ⟨rfl, rfl⟩

theorem firstFault_or (env : Env) (b : Binary) : firstFault env b =
    (((tempOps env).map (Op.temp b)).findSome? env.fault).or (env.fault (.temp b .replace)) := by
  rw [firstFault, List.findSome?_append, List.findSome?_map, List.findSome?_singleton]
  rfl

theorem writeTemp_ok (data : Bytes) (h : firstFault env b = none) (d : Disk) :
    (writeTemp env b data d).fault = none ∧ (writeTemp env b data d).state = d.replace b data := by
  obtain ⟨hstate, hfault⟩ := idle_run env ((tempOps env).map (Op.temp b)) d
  rw [firstFault_or, Option.or_eq_none_iff] at h
  rw [h.1] at hfault
  have hop : op env (.temp b .replace) (fun d => d.replace b data) d = ⟨_, _, none⟩ := change_ok h.2 _ d
  rw [writeTemp, state_andThen hfault, fault_andThen hfault, hstate, hop]
  exact ⟨rfl, rfl⟩

theorem writeTemp_fault {e : Fault} (data : Bytes) (h : firstFault env b = some e) (d : Disk) :
    (writeTemp env b data d).fault = some e ∧ (writeTemp env b data d).state = d := by
  obtain ⟨hstate, hfault⟩ := idle_run env ((tempOps env).map (Op.temp b)) d
  rw [firstFault_or] at h
  cases hidle : ((tempOps env).map (Op.temp b)).findSome? env.fault with
  | some e' =>
    rw [hidle] at hfault h
    rw [writeTemp, andThen_fault hfault, hfault, hstate]
    exact ⟨h, rfl⟩
  | none =>
    rw [hidle] at hfault h
    have hop : op env (.temp b .replace) (fun d => d.replace b data) d = ⟨[], d, some e⟩ := change_fault h _ d
    rw [writeTemp, state_andThen hfault, fault_andThen hfault, hstate, hop]
    exact ⟨rfl, rfl⟩

theorem removeTemp_ok (h : env.fault (.unlink b) = none) (d : Disk) :
    (removeTemp env b d).fault = none ∧ (removeTemp env b d).state = d.dropTemp (.new b) := by
  have hop : op env (.unlink b) (fun d => d.dropTemp (.new b)) d = ⟨_, _, none⟩ := change_ok h _ d
  rw [removeTemp, rescue_ok (by rw [hop]), hop]
  exact ⟨rfl, rfl⟩

theorem swallow_quiet (e : Fault) (d : Disk) :
    ((if e = .osError then pass else raise e : Action Disk Fault) d).state = d := by
  split
  · rfl
  · rfl

theorem removeTemp_fault (h : env.fault (.unlink b) ≠ none) (d : Disk) : (removeTemp env b d).state = d := by
  obtain ⟨e, he⟩ := Option.ne_none_iff_exists'.mp h
  rw [removeTemp, rescue_quiet swallow_quiet, op, change_fault he]

theorem put_same (d : Disk) (b : Binary) (data : Bytes) : (d.put b data).binary b = .fresh data :=
  Function.update_self ..

theorem put_other (d : Disk) {b b' : Binary} (h : b' ≠ b) (data : Bytes) :
    (d.put b data).binary b' = d.binary b' := Function.update_of_ne h ..

theorem drop_add (d : Disk) (t : Temp) : (d.addTemp t).dropTemp t = d := by
  simp [Disk.addTemp, Disk.dropTemp]

theorem replace_ok (data : Bytes) (h : Replaced env b) (d : Disk) : (replaceBinary env b data d).fault = none ∧
    (replaceBinary env b data d).state = d.put b data := by
  have hop : op env (.mkstemp b) (fun d => d.addTemp (.new b)) d = ⟨_, d.addTemp (.new b), none⟩ :=
    change_ok h.1 _ d
  obtain ⟨hfault, hstate⟩ := writeTemp_ok data h.2 (d.addTemp (.new b))
  rw [replaceBinary, fault_andThen (by rw [hop]), state_andThen (by rw [hop]), hop, rescue_ok hfault]
  refine ⟨hfault, ?_⟩
  rw [hstate, Disk.replace, drop_add]

/-- A binary that is not replaced is as before; its temporary file stays if it is not withdrawn. -/
theorem replace_fault (data : Bytes) (h : ¬ Replaced env b) (d : Disk) :
    (replaceBinary env b data d).fault ≠ none ∧
      ((Withdrawn env b ∧ (replaceBinary env b data d).state = d) ∨
        (¬ Withdrawn env b ∧ (replaceBinary env b data d).state = d.addTemp (.new b))) := by
  cases hcreate : env.fault (.mkstemp b) with
  | some e =>
    have hop : op env (.mkstemp b) (fun d => d.addTemp (.new b)) d = ⟨[], d, some e⟩ := change_fault hcreate _ d
    have hrun : replaceBinary env b data d = ⟨[], d, some e⟩ := (andThen_fault (by rw [hop])).trans hop
    rw [hrun]
    exact ⟨Option.some_ne_none e, .inl ⟨.inl (by simp [hcreate]), rfl⟩⟩
  | none =>
    have hop : op env (.mkstemp b) (fun d => d.addTemp (.new b)) d = ⟨_, d.addTemp (.new b), none⟩ :=
      change_ok hcreate _ d
    obtain ⟨e, he⟩ := Option.ne_none_iff_exists'.mp fun hnone => h ⟨hcreate, hnone⟩
    obtain ⟨hfault, hstate⟩ := writeTemp_fault data he (d.addTemp (.new b))
    rw [replaceBinary, fault_andThen (by rw [hop]), state_andThen (by rw [hop]), hop, fault_rescue hfault,
      state_rescue hfault, hstate]
    by_cases hos : e = .osError
    · subst hos
      rw [if_pos rfl]
      by_cases hunlink : env.fault (.unlink b) = none
      · obtain ⟨hremoved, hclean⟩ := removeTemp_ok hunlink (d.addTemp (.new b))
        rw [fault_andThen hremoved, state_andThen hremoved, hclean, drop_add]
        exact ⟨Option.some_ne_none _, .inl ⟨.inr ⟨he, hunlink⟩, rfl⟩⟩
      · have hleft := removeTemp_fault hunlink (d.addTemp (.new b))
        have hnot : ¬ Withdrawn env b := by
          rintro (hcreated | hclean)
          · exact hcreated hcreate
          · exact hunlink hclean.2
        cases hraised : (removeTemp env b (d.addTemp (.new b))).fault with
        | none =>
          rw [fault_andThen hraised, state_andThen hraised, hleft]
          exact ⟨Option.some_ne_none _, .inr ⟨hnot, rfl⟩⟩
        | some e =>
          rw [andThen_fault hraised, hraised, hleft]
          exact ⟨Option.some_ne_none _, .inr ⟨hnot, rfl⟩⟩
    · rw [if_neg hos]
      refine ⟨Option.some_ne_none e, .inr ⟨?_, rfl⟩⟩
      rintro (hcreated | hclean)
      · exact hcreated hcreate
      · exact hos (Option.some.inj (he.symm.trans hclean.1))

end Binaries

section Keeping

variable {env : Env} {a : Archive} {Q : Disk → Prop}

theorem keeps_op {o : Op} {f : Disk → Disk} (h : ∀ d, Q d → Q (f d)) : Keeps Q (op env o f) := keeps_change h

theorem keeps_idle (ops : List Op) : Keeps Q (idle env ops) := by
  induction ops with
  | nil => exact keeps_pass
  | cons o ops ih => exact (keeps_op fun _ h => h).andThen ih

theorem keeps_copyEntry (h : ∀ d t, Q d → Q { d with entry := t }) (script : Text) :
    Keeps Q (copyEntry env script) := by
  have hpatch : Keeps Q (patchShebang env script) := by
    refine Keeps.rescue (Keeps.andThen (keeps_op fun _ hq => hq) ?_) fun e => ?_
    · cases patched env.executable script with
      | none => exact keeps_pass
      | some text => exact (keeps_op fun d => h d _).andThen (keeps_op fun d => h d _)
    · split
      · exact keeps_raise e
      · exact keeps_pass
  exact (keeps_op fun d => h d _).andThen ((keeps_op fun d => h d _).andThen
    ((keeps_op fun _ hq => hq).andThen ((keeps_op fun _ hq => hq).andThen hpatch)))

theorem keeps_installWheel (hentry : ∀ d t, Q d → Q { d with entry := t })
    (hpackage : ∀ d t, Q d → Q { d with package := t }) : Keeps Q (installWheel env a) := by
  unfold installWheel
  cases a.wheel with
  | none => exact keeps_pass
  | some whl =>
    refine Keeps.andThen (keeps_op fun d hq => ?_) ?_
    · cases env.pip with
      | installed => exact hpackage d _ hq
      | failed broken =>
        cases broken with
        | true => exact hpackage d _ hq
        | false => exact hq
    · cases env.pip with
      | failed broken => exact keeps_pass
      | installed =>
        cases env.script with
        | none => exact keeps_pass
        | some script => exact keeps_copyEntry hentry script

theorem keeps_installBinary {b : Binary} (htemps : ∀ d ts, Q d → Q { d with temps := ts })
    (hbinary : ∀ d data, a.binary b = some data → Q d → Q (d.put b data)) :
    Keeps Q (installBinary env a b) := by
  unfold installBinary
  cases hdata : a.binary b with
  | none => exact keeps_raise _
  | some data =>
    have hremove : Keeps Q (removeTemp env b) := by
      refine (keeps_op fun d => htemps d _).rescue fun e => ?_
      split
      · exact keeps_pass
      · exact keeps_raise e
    refine (keeps_op fun d => htemps d _).andThen (Keeps.rescue ?_ fun e => ?_)
    · refine (keeps_idle _).andThen (keeps_op fun d hq => ?_)
      exact hbinary (d.dropTemp (.new b)) data hdata (htemps d _ hq)
    · split
      · exact hremove.andThen (keeps_raise e)
      · exact keeps_raise e

theorem keeps_installPhase (htemps : ∀ d ts, Q d → Q { d with temps := ts })
    (hbinary : ∀ b d data, a.binary b = some data → Q d → Q (d.put b data))
    (hentry : ∀ d t, Q d → Q { d with entry := t }) (hpackage : ∀ d t, Q d → Q { d with package := t }) :
    Keeps Q (installPhase env a) :=
  (keeps_op fun _ hq => hq).andThen
    (((keeps_installBinary htemps (hbinary .maCore)).andThen
      ((keeps_installBinary htemps (hbinary .maKafkaProducer)).andThen keeps_pass)).andThen
      ((keeps_installWheel hentry hpackage).andThen (keeps_idle _)))

theorem removeWorkDir_state (d : Disk) :
    (removeWorkDir env d).state = if env.fault .rmtree = none then d.dropTemp .workDir else d := by
  rw [removeWorkDir, rescue_quiet swallow_quiet, op]
  cases hfault : env.fault .rmtree with
  | none => rw [change_ok rfl, if_pos rfl]
  | some e => rw [change_fault rfl, if_neg (Option.some_ne_none e)]

/-- A binary is never absent for a moment, nor half-written. -/
theorem whole_always (env : Env) (a : Archive) (s : Before) :
    ∀ d ∈ (updateCommand env a (start s)).seen, Whole a s d := by
  have htemps : ∀ (d : Disk) ts, Whole a s d → Whole a s { d with temps := ts } := fun _ _ h => h
  have hphase : Keeps (Whole a s) (installPhase env a) := by
    refine keeps_installPhase htemps (fun b d data hdata hd b' => ?_) (fun _ _ h => h) fun _ _ h => h
    by_cases hb : b' = b
    · subst hb
      exact .inr ⟨data, hdata, put_same d b' data⟩
    · rw [put_other d hb data]
      exact hd b'
  have hremove : Keeps (Whole a s) (removeWorkDir env) := by
    refine (keeps_op fun d => htemps d _).rescue fun e => ?_
    split
    · exact keeps_pass
    · exact keeps_raise e
  exact ((hphase.ensuring hremove) (start s) fun b => .inl rfl).1

end Keeping

section Wheel

variable {env : Env} {a : Archive}

theorem patchShebang_iff (script : Text) (d : Disk) (hd : d.entry = .fresh script) :
    (∃ text, (patchShebang env script d).state.entry = .fresh text) ↔ env.fault .writeScript = none ∨
      env.fault .openScript ≠ none ∨ patched env.executable script = none ∨ env.fault .readScript ≠ none := by
  have hquiet : ∀ (e : Fault) (d : Disk),
      ((if e = .interrupt then raise e else pass : Action Disk Fault) d).state = d := by
    intro e d
    split
    · rfl
    · rfl
  rw [patchShebang, rescue_quiet hquiet]
  by_cases hread : env.fault .readScript = none
  · rw [(change_andThen hread id d).1]
    cases hpatched : patched env.executable script with
    | none => exact iff_of_true ⟨script, hd⟩ (.inr (.inr (.inl rfl)))
    | some text =>
      dsimp only [id]
      by_cases hopen : env.fault .openScript = none
      · rw [(change_andThen hopen _ d).1]
        cases hwrite : env.fault .writeScript with
        | none =>
          rw [op, change_ok hwrite]
          exact iff_of_true ⟨text, rfl⟩ (.inl rfl)
        | some e =>
          rw [op, change_fault hwrite]
          exact iff_of_false (by simp) (by simp [hopen, hread])
      · rw [change_stops hopen]
        exact iff_of_true ⟨script, hd⟩ (.inr (.inl hopen))
  · rw [change_stops hread]
    exact iff_of_true ⟨script, hd⟩ (.inr (.inr (.inr hread)))

/-- The entry point is a whole one of the release exactly when it is written, and not torn
when its first line is replaced. -/
theorem copyEntry_iff {before : Option Text} (env : Env) (script : Text) (d : Disk)
    (hd : d.entry = .kept before) :
    (∃ text, (copyEntry env script d).state.entry = .fresh text) ↔ EntryWritten env script := by
  rw [copyEntry]
  by_cases hopen : env.fault .openEntry = none
  · rw [(change_andThen hopen _ d).1]
    by_cases hwrite : env.fault .writeEntry = none
    · rw [(change_andThen hwrite _ _).1]
      by_cases hstat : env.fault .statEntry = none
      · rw [(change_andThen hstat _ _).1]
        by_cases hchmod : env.fault .chmodEntry = none
        · rw [(change_andThen hchmod _ _).1, patchShebang_iff script _ rfl]
          constructor
          · intro h
            exact ⟨hopen, hwrite, by tauto⟩
          · rintro ⟨-, -, hagain⟩
            tauto
        · rw [change_stops hchmod]
          exact iff_of_true ⟨script, rfl⟩ ⟨hopen, hwrite, by tauto⟩
      · rw [change_stops hstat]
        exact iff_of_true ⟨script, rfl⟩ ⟨hopen, hwrite, by tauto⟩
    · rw [change_stops hwrite]
      exact iff_of_false (by simp) fun h => hwrite h.written
  · rw [change_stops hopen, hd]
    exact iff_of_false (by simp) fun h => hopen h.opened

/-- The package and the entry point are of the release when there is a wheel, pip installs it,
and the entry point is copied. -/
theorem installWheel_iff {before : Option Text} (d : Disk) (hentry : d.entry = .kept before) :
    ((∃ whl, a.wheel = some whl ∧ (installWheel env a d).state.package = .fresh whl) ∧
      ∃ text, (installWheel env a d).state.entry = .fresh text) ↔
    a.wheel ≠ none ∧ (env.fault .runPip = none ∧ env.pip = .installed) ∧
      ∃ script, env.script = some script ∧ EntryWritten env script := by
  rw [installWheel]
  cases hwheel : a.wheel with
  | none => simp
  | some whl =>
    dsimp only
    rw [pipInstallWheel]
    by_cases hrun : env.fault .runPip = none
    · rw [(change_andThen hrun _ d).1]
      cases hpip : env.pip with
      | failed broken =>
        dsimp only
        refine iff_of_false ?_ (by simp)
        rintro ⟨-, text, htext⟩
        have hkept : (d.afterPip whl (.failed broken)).entry = d.entry := by
          cases broken with
          | true => rfl
          | false => rfl
        have hnew : d.entry = .fresh text := hkept.symm.trans htext
        rw [hentry] at hnew
        exact nomatch hnew
      | installed =>
        dsimp only
        cases hscript : env.script with
        | none =>
          refine iff_of_false ?_ (by simp)
          rintro ⟨-, text, htext⟩
          have hnew : d.entry = .fresh text := htext
          rw [hentry] at hnew
          exact nomatch hnew
        | some script =>
          dsimp only
          have hkeeps : Keeps (fun d => d.package = .fresh whl) (copyEntry env script) :=
            keeps_copyEntry (fun _ _ h => h) script
          have hfresh := (hkeeps (d.afterPip whl .installed) rfl).2
          have hcopied := copyEntry_iff env script (d.afterPip whl .installed) hentry
          rw [hcopied]
          constructor
          · rintro ⟨-, hwritten⟩
            exact ⟨Option.some_ne_none _, ⟨hrun, rfl⟩, script, rfl, hwritten⟩
          · rintro ⟨-, -, _, hsame, hwritten⟩
            cases hsame
            exact ⟨⟨whl, rfl, hfresh⟩, hwritten⟩
    · rw [change_stops hrun, hentry]
      exact iff_of_false (by simp) fun h => hrun h.2.1.1

end Wheel

section Phase

variable {env : Env} {a : Archive} {s : Before} {d : Disk}

theorem andThen_idle (x : Action Disk Fault) (ops : List Op) (d : Disk) :
    (andThen x (idle env ops) d).state = (x d).state := by
  cases hfault : (x d).fault with
  | none => rw [state_andThen hfault, (idle_run env ops _).1]
  | some e => rw [andThen_fault hfault]

theorem installPhase_state (hdir : env.fault .makeBinDir = none) (d : Disk) :
    (installPhase env a d).state = (andThen (installBinaries env a) (installWheel env a) d).state := by
  rw [installPhase, (change_andThen hdir id d).1]
  dsimp only [id]
  cases hfault : (installBinaries env a d).fault with
  | none => rw [state_andThen hfault, state_andThen hfault, andThen_idle]
  | some e => rw [andThen_fault hfault, andThen_fault hfault]

theorem core_fails (h : (replaceBinary env .maCore a.maCore d).fault ≠ none) :
    (andThen (installBinaries env a) (installWheel env a) d).state =
      (replaceBinary env .maCore a.maCore d).state := by
  obtain ⟨e, he⟩ := Option.ne_none_iff_exists'.mp h
  have hrun : installBinaries env a d = replaceBinary env .maCore a.maCore d := andThen_fault he
  rw [andThen_fault (by rw [hrun, he]), hrun]

theorem installBinaries_core (hcore : Replaced env .maCore) (d : Disk) :
    (installBinaries env a d).state =
        (installBinary env a .maKafkaProducer (d.put .maCore a.maCore)).state ∧
      (installBinaries env a d).fault =
        (installBinary env a .maKafkaProducer (d.put .maCore a.maCore)).fault := by
  have hbinaries : installBinaries env a = andThen (replaceBinary env .maCore a.maCore)
      (andThen (installBinary env a .maKafkaProducer) (idle env [])) := rfl
  obtain ⟨hfault, hstate⟩ := replace_ok a.maCore hcore d
  rw [hbinaries, state_andThen hfault, fault_andThen hfault, hstate, andThen_idle]
  refine ⟨rfl, ?_⟩
  cases hkafka : (installBinary env a .maKafkaProducer (d.put .maCore a.maCore)).fault with
  | none => exact fault_andThen hkafka
  | some e => rw [andThen_fault hkafka, hkafka]

/-- Once the binaries are new, the wheel decides. -/
theorem wheel_ends {before : Option Text} (env : Env)
    (hbinary : ∀ b, ∃ data, a.binary b = some data ∧ d.binary b = .fresh data)
    (hentry : d.entry = .kept before) :
    (installWheel env a d).state.binary = d.binary ∧ (installWheel env a d).state.temps = d.temps ∧
      (New a (installWheel env a d).state ↔ a.wheel ≠ none ∧ (env.fault .runPip = none ∧ env.pip = .installed) ∧
        ∃ script, env.script = some script ∧ EntryWritten env script) := by
  have hsame : (installWheel env a d).state.binary = d.binary :=
    ((keeps_installWheel (Q := fun x => x.binary = d.binary) (fun _ _ h => h) fun _ _ h => h) d rfl).2
  have hleft : (installWheel env a d).state.temps = d.temps :=
    ((keeps_installWheel (Q := fun x => x.temps = d.temps) (fun _ _ h => h) fun _ _ h => h) d rfl).2
  refine ⟨hsame, hleft, ?_⟩
  rw [← installWheel_iff d hentry]
  constructor
  · exact fun h => ⟨h.package, h.entry⟩
  · rintro ⟨hpackage, hfresh⟩
    exact ⟨by rwa [hsame], hpackage, hfresh⟩

/-- Once ma-core is new, the phase ends with all of the release exactly when nothing fails and
nothing is missing. -/
theorem core_replaced (hdir : env.fault .makeBinDir = none) (hcore : Replaced env .maCore) :
    (installPhase env a (start s)).state.binary .maCore = .fresh a.maCore ∧
      .workDir ∈ (installPhase env a (start s)).state.temps ∧
      (New a (installPhase env a (start s)).state ↔ Complete env a) ∧
      (Complete env a → (installPhase env a (start s)).state.temps = [.workDir]) := by
  obtain ⟨hstate, hfault⟩ := installBinaries_core (a := a) hcore (start s)
  rw [installPhase_state hdir]
  obtain ⟨d, hd⟩ : ∃ d, d = (start s).put .maCore a.maCore := ⟨_, rfl⟩
  rw [← hd] at hstate hfault
  have hnew : d.binary .maCore = .fresh a.maCore := by
    rw [hd]
    exact put_same ..
  have hkept : d.binary .maKafkaProducer = .kept (s.binary .maKafkaProducer) := by
    rw [hd]
    exact put_other _ (by decide) _
  have htemps : d.temps = [.workDir] := congrArg Disk.temps hd
  cases hkafka : a.binary .maKafkaProducer with
  | none =>
    have hrun : installBinary env a .maKafkaProducer d = ⟨[], d, some .exception⟩ := by
      rw [installBinary, hkafka]
      rfl
    rw [hrun] at hstate hfault
    rw [andThen_fault hfault, hstate]
    refine ⟨hnew, by simp [htemps], iff_of_false (fun h => ?_) fun h => ?_, fun _ => htemps⟩
    · obtain ⟨data, hdata, -⟩ := h.binary .maKafkaProducer
      rw [hkafka] at hdata
      exact nomatch hdata
    · exact (h.binaries .maKafkaProducer).1 hkafka
  | some data =>
    have hrun : installBinary env a .maKafkaProducer d = replaceBinary env .maKafkaProducer data d := by
      rw [installBinary, hkafka]
    rw [hrun] at hstate hfault
    by_cases hreplaced : Replaced env .maKafkaProducer
    · obtain ⟨hfine, hput⟩ := replace_ok data hreplaced d
      rw [hput] at hstate
      rw [hfine] at hfault
      rw [state_andThen hfault, hstate]
      have hbinary : ∀ b, ∃ data', a.binary b = some data' ∧
          (d.put .maKafkaProducer data).binary b = .fresh data' := by
        intro b
        cases b with
        | maCore => exact ⟨a.maCore, rfl, (put_other d (by decide) data).trans hnew⟩
        | maKafkaProducer => exact ⟨data, hkafka, put_same ..⟩
      have hentry : (d.put .maKafkaProducer data).entry = .kept s.entry := congrArg Disk.entry hd
      obtain ⟨hsame, hleft, hends⟩ := wheel_ends env hbinary hentry
      refine ⟨(congrFun hsame .maCore).trans (put_other d (by decide) data |>.trans hnew), ?_, ?_, ?_⟩
      · rw [hleft]
        exact htemps ▸ List.mem_singleton_self _
      · rw [hends]
        constructor
        · rintro ⟨hwhl, hpip, hscript⟩
          refine ⟨hdir, fun b => ?_, hwhl, hpip, hscript⟩
          cases b with
          | maCore => exact ⟨Option.some_ne_none _, hcore⟩
          | maKafkaProducer => exact ⟨by simp [hkafka], hreplaced⟩
        · exact fun h => ⟨h.wheel, h.pip, h.entry⟩
      · exact fun _ => hleft.trans htemps
    · obtain ⟨hfails, hleft⟩ := replace_fault data hreplaced d
      obtain ⟨e, he⟩ := Option.ne_none_iff_exists'.mp hfails
      rw [he] at hfault
      rw [andThen_fault hfault, hstate]
      have hbinary : (replaceBinary env .maKafkaProducer data d).state.binary = d.binary := by
        obtain ⟨-, hend⟩ | ⟨-, hend⟩ := hleft
        · rw [hend]
        · rw [hend]
          rfl
      have hmem : Temp.workDir ∈ (replaceBinary env .maKafkaProducer data d).state.temps := by
        obtain ⟨-, hend⟩ | ⟨-, hend⟩ := hleft
        · simp [hend, htemps]
        · simp [hend, Disk.addTemp, htemps]
      have hnot : ¬ Complete env a := fun h => hreplaced (h.binaries .maKafkaProducer).2
      refine ⟨by rw [hbinary, hnew], hmem, iff_of_false (fun h => ?_) hnot, fun h => absurd h hnot⟩
      obtain ⟨data', -, hfresh⟩ := h.binary .maKafkaProducer
      rw [hbinary, hkept] at hfresh
      exact nomatch hfresh

theorem stopped_state (h : Stopped env) : (installPhase env a (start s)).state = start s := by
  by_cases hdir : env.fault .makeBinDir = none
  · obtain hfails | hwithdrawn := h
    · exact absurd hdir hfails
    · have hnot : ¬ Replaced env .maCore := by
        rintro ⟨hcreate, hfine⟩
        obtain hfails | ⟨hfirst, -⟩ := hwithdrawn
        · exact hfails hcreate
        · rw [hfine] at hfirst
          exact nomatch hfirst
      obtain ⟨hfails, hleft⟩ := replace_fault a.maCore hnot (start s)
      rw [installPhase_state hdir, core_fails hfails]
      obtain ⟨-, hstate⟩ | ⟨hstays, -⟩ := hleft
      · exact hstate
      · exact absurd hwithdrawn hstays
  · exact change_stops hdir _ _ _

theorem core_left (hdir : env.fault .makeBinDir = none) (hcore : ¬ Replaced env .maCore)
    (hstays : ¬ Withdrawn env .maCore) :
    (installPhase env a (start s)).state = (start s).addTemp (.new .maCore) := by
  obtain ⟨hfails, hleft⟩ := replace_fault a.maCore hcore (start s)
  rw [installPhase_state hdir, core_fails hfails]
  obtain ⟨hwithdrawn, -⟩ | ⟨-, hstate⟩ := hleft
  · exact absurd hwithdrawn hstays
  · exact hstate

end Phase

section End

variable {env : Env} {a : Archive} {s : Before}

/-- Removing the working directory touches nothing that is installed. -/
theorem removed_same (env : Env) (d : Disk) : (removeWorkDir env d).state.binary = d.binary ∧
    (removeWorkDir env d).state.package = d.package ∧ (removeWorkDir env d).state.entry = d.entry := by
  rw [removeWorkDir_state]
  split
  · exact ⟨rfl, rfl, rfl⟩
  · exact ⟨rfl, rfl, rfl⟩

theorem removed_new (d : Disk) : New a (removeWorkDir env d).state ↔ New a d := by
  obtain ⟨hbinary, hpackage, hentry⟩ := removed_same env d
  constructor
  · intro h
    exact ⟨hbinary ▸ h.binary, hpackage ▸ h.package, hentry ▸ h.entry⟩
  · intro h
    exact ⟨hbinary.symm ▸ h.binary, hpackage.symm ▸ h.package, hentry.symm ▸ h.entry⟩

theorem removed_old (d : Disk) : Old s (removeWorkDir env d).state ↔ Old s d := by
  obtain ⟨hbinary, hpackage, hentry⟩ := removed_same env d
  constructor
  · intro h
    exact ⟨hbinary ▸ h.binary, hpackage ▸ h.package, hentry ▸ h.entry⟩
  · intro h
    exact ⟨hbinary.symm ▸ h.binary, hpackage.symm ▸ h.package, hentry.symm ▸ h.entry⟩

theorem removed_temps (d : Disk) (hd : .workDir ∈ d.temps) :
    (removeWorkDir env d).state.temps = [] ↔ env.fault .rmtree = none ∧ d.temps = [.workDir] := by
  rw [removeWorkDir_state]
  by_cases hfault : env.fault .rmtree = none
  · rw [if_pos hfault, Disk.dropTemp]
    dsimp only
    rw [List.erase_eq_nil_iff]
    constructor
    · rintro (hnil | hone)
      · exact absurd hd (hnil ▸ List.not_mem_nil)
      · exact ⟨hfault, hone⟩
    · exact fun h => .inr h.2
  · rw [if_neg hfault]
    exact iff_of_false (fun hnil => absurd hd (hnil ▸ List.not_mem_nil)) fun h => hfault h.1

/-- An update ends with all of the release or all as before, and with nothing left behind,
exactly when the working directory can be removed and either it stops before ma-core is
replaced or nothing fails and nothing is missing in the archive. -/
theorem all_or_nothing_iff (env : Env) (a : Archive) (s : Before) :
    AllOrNothing env a s ↔ env.fault .rmtree = none ∧ (Stopped env ∨ Complete env a) := by
  have hparts : AllOrNothing env a s ↔
      (New a (installPhase env a (start s)).state ∨ Old s (installPhase env a (start s)).state) ∧
        (removeWorkDir env (installPhase env a (start s)).state).state.temps = [] := by
    constructor
    · intro h
      exact ⟨h.ended.imp (removed_new _).mp (removed_old _).mp, h.temps⟩
    · rintro ⟨hended, htemps⟩
      exact ⟨hended.imp (removed_new _).mpr (removed_old _).mpr, whole_always env a s, htemps⟩
  rw [hparts]
  by_cases hstopped : Stopped env
  · have hold : Old s (start s) := ⟨fun _ => rfl, rfl, rfl⟩
    rw [stopped_state hstopped, removed_temps _ (List.mem_singleton_self _)]
    constructor
    · rintro ⟨-, hremoved, -⟩
      exact ⟨hremoved, .inl hstopped⟩
    · rintro ⟨hremoved, -⟩
      exact ⟨.inr hold, hremoved, rfl⟩
  · obtain ⟨hdir, hstays⟩ := not_or.mp hstopped
    rw [ne_eq, not_not] at hdir
    by_cases hcore : Replaced env .maCore
    · obtain ⟨hfresh, hmem, hnew, hleft⟩ := core_replaced (a := a) (s := s) hdir hcore
      rw [removed_temps _ hmem]
      constructor
      · rintro ⟨hend | hend, hremoved, -⟩
        · exact ⟨hremoved, .inr (hnew.mp hend)⟩
        · have hkept := hend.binary .maCore
          rw [hfresh] at hkept
          exact nomatch hkept
      · rintro ⟨hremoved, hend | hend⟩
        · exact absurd hend hstopped
        · exact ⟨.inl (hnew.mpr hend), hremoved, hleft hend⟩
    · rw [core_left hdir hcore hstays, removed_temps _ (by simp [Disk.addTemp, start])]
      refine iff_of_false ?_ ?_
      · rintro ⟨-, -, htemps⟩
        exact nomatch htemps
      · rintro ⟨-, hend | hend⟩
        · exact hstopped hend
        · exact hcore (hend.binaries .maCore).2

/-- An archive without ma-kafka-producer: ma-core is replaced before that is found out. -/
theorem half_updated : ¬ ∀ env a s, AllOrNothing env a s := by
  intro h
  obtain hnew | hold := (h ⟨false, [], fun _ => none, .installed, none⟩ ⟨[2], none, some [2]⟩
    ⟨fun _ => some [1], some [1], none⟩).ended
  · obtain ⟨data, hdata, -⟩ := hnew.binary .maKafkaProducer
    exact nomatch hdata
  · exact nomatch hold.binary .maCore

end End

end MemoryArchive.Updater.Install
