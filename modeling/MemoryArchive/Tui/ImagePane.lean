import MemoryArchive.Data.Runs

namespace MemoryArchive.Tui.ImagePane

open Runs

/-- The image paths of a step. -/
structure StepState where
  beforeImagePath : Option String
  imagePath : Option String
  afterImagePath : Option String

/-- A path that is there and not empty. -/
def given (rel : Option String) : Option String := rel.filter fun r => r ≠ ""

/-- The paths that are loaded and fetched, in order. -/
def StepState.rels (step : StepState) : List String :=
  [step.beforeImagePath, step.imagePath, step.afterImagePath].filterMap given

/-- Where a path resolves to: the image cache or the memory's directory. -/
inductive Place
  | cached (rel : String)
  | inMemory (rel : String)
  deriving DecidableEq

/-- What the background thread does next: fetch a path, look whether its step is still
selected, or wait for the reload. -/
inductive Phase
  | fetching (rels : List String)
  | cleared
  | reloading

/-- A background thread, with the step it was started for. -/
structure Fetch where
  step : Nat
  phase : Phase

def Fetch.Runs (t : Fetch) : Prop := ∃ rels, t.phase = .fetching rels

/-- How `fetch_and_cache_image` ends. -/
inductive Outcome
  | path
  | none
  | raised
  deriving DecidableEq

/-- The pane of a remote session. Steps go by their objects. `failed` keeps whether a
fetch for the selected step has failed since it was selected. -/
structure ImageReview where
  step : Option Nat
  path : Option Place
  framePaths : List Place
  fetching : Bool
  cache : String → Bool
  memoryDir : String → Bool
  threads : List Fetch
  failed : Bool

/-- A selection, a step of a thread, or an image that a prefetch puts into the cache. -/
inductive Act
  | select (step : Nat)
  | fetched (k : Nat) (outcome : Outcome)
  | clear (k : Nat)
  | check (k : Nat)
  | reload (k : Nat)
  | prefetched (rel : String)

namespace ImageReview

variable (steps : Nat → StepState) (canCall : Bool) (s : ImageReview)

def resolvePath (rel : String) : Place := if s.cache rel then .cached rel else .inMemory rel

def present : Place → Bool
  | .cached rel => s.cache rel
  | .inMemory rel => s.memoryDir rel

def addFrame (step : StepState) (s : ImageReview) (rel : String) : ImageReview :=
  let p := s.resolvePath rel
  if s.present p then
    { s with
      framePaths := s.framePaths ++ [p]
      path := if some rel = step.imagePath then some p else s.path }
  else s

def startBackgroundFetch (i : Nat) : ImageReview :=
  if s.fetching then s
  else { s with fetching := true, threads := s.threads ++ [⟨i, .fetching (steps i).rels⟩] }

def loadStep (i : Nat) : ImageReview :=
  let s := (steps i).rels.foldl (addFrame (steps i))
    { s with step := some i, path := none, framePaths := [] }
  if s.path = none ∧ given (steps i).imagePath ≠ none then s.startBackgroundFetch steps i else s

def select (i : Nat) : ImageReview := { s with failed := false }.loadStep steps i

def addCached (rel : String) : ImageReview := { s with cache := Function.update s.cache rel true }

/-- A fetch of the selected step that fails is kept. -/
def fail (i : Nat) : ImageReview := { s with failed := s.failed || s.step = some i }

/-- The next path of a thread. -/
def fetched (k : Nat) (outcome : Outcome) : ImageReview :=
  match s.threads[k]? with
  | some ⟨i, .fetching (rel :: rels)⟩ =>
      let after := s.threads.set k ⟨i, .fetching rels⟩
      match outcome with
      | .path => { s.addCached rel with threads := after }
      | .none => { s.fail i with threads := after }
      | .raised => { s.fail i with threads := s.threads.eraseIdx k }
  | _ => s

def clear (k : Nat) : ImageReview :=
  match s.threads[k]? with
  | some ⟨i, .fetching []⟩ => { s with fetching := false, threads := s.threads.set k ⟨i, .cleared⟩ }
  | _ => s

/-- A thread whose step is still selected hands the reload over, if the widget has a
method for that; without one it raises. -/
def check (k : Nat) : ImageReview :=
  match s.threads[k]? with
  | some ⟨i, .cleared⟩ =>
      if s.step = some i ∧ canCall = true then { s with threads := s.threads.set k ⟨i, .reloading⟩ }
      else { s with threads := s.threads.eraseIdx k }
  | _ => s

def reload (k : Nat) : ImageReview :=
  match s.threads[k]? with
  | some ⟨i, .reloading⟩ =>
      let s := { s with threads := s.threads.eraseIdx k }
      if s.step = some i then s.loadStep steps i else s
  | _ => s

def next : ImageReview → Act → ImageReview
  | s, .select i => s.select steps i
  | s, .fetched k outcome => s.fetched k outcome
  | s, .clear k => s.clear k
  | s, .check k => s.check canCall k
  | s, .reload k => s.reload steps k
  | s, .prefetched rel => s.addCached rel

def new (cache memoryDir : String → Bool) : ImageReview :=
  ⟨none, none, [], false, cache, memoryDir, [], false⟩

/-- The image of a step is the one shown. -/
def Shows (i : Nat) : Prop :=
  ∃ rel p, given (steps i).imagePath = some rel ∧ s.path = some p ∧
    (p = .cached rel ∨ p = .inMemory rel) ∧ s.present p = true

/-- With no thread left, the selected step shows its image, if it has one, or a fetch
for it has failed since it was selected. -/
def Served : Prop :=
  s.threads = [] → ∀ i, s.step = some i → given (steps i).imagePath ≠ none →
    s.Shows steps i ∨ s.failed = true

/-- The image of a step is in the cache or in the memory's directory. -/
def Available (i : Nat) : Prop :=
  ∃ rel, given (steps i).imagePath = some rel ∧ (s.cache rel = true ∨ s.memoryDir rel = true)

end ImageReview

/-- A step whose image is missing is selected while no fetch holds the flag, or one of
its own; and a thread that finds its step selected can hand the reload over. -/
def Prompt (steps : Nat → StepState) (canCall : Bool) (s : ImageReview) : Act → Prop
  | .select i => given (steps i).imagePath ≠ none → ¬ s.Available steps i →
      s.fetching = false ∨ ∃ t ∈ s.threads, t.step = i ∧ t.Runs
  | .check k => ∀ i, s.threads[k]? = some ⟨i, .cleared⟩ → s.step = some i → canCall = true
  | _ => True

section Loading

variable {steps : Nat → StepState}

theorem given_eq {rel : Option String} {r : String} (h : given rel = some r) : rel = some r ∧ r ≠ "" := by
  obtain ⟨hrel, hne⟩ := Option.filter_eq_some_iff.mp h
  exact ⟨hrel, by simpa using hne⟩

theorem mem_rels {step : StepState} {r : String} :
    r ∈ step.rels ↔ given step.beforeImagePath = some r ∨ given step.imagePath = some r ∨
      given step.afterImagePath = some r := by
  simp [StepState.rels, List.mem_filterMap]

/-- Loading a list of paths changes the frames and the image, nothing else. -/
theorem frames_fold (step : StepState) (rels : List String) (s : ImageReview) :
    ∃ frames, rels.foldl (ImageReview.addFrame step) s =
      { s with
        framePaths := frames
        path := if ∃ r ∈ rels, some r = step.imagePath ∧ s.present (s.resolvePath r) = true then
          step.imagePath.map s.resolvePath else s.path } := by
  induction rels generalizing s with
  | nil => exact ⟨s.framePaths, by simp⟩
  | cons r rels ih =>
    rw [List.foldl_cons]
    by_cases hr : s.present (s.resolvePath r) = true
    · have hadd : ImageReview.addFrame step s r =
          { s with
            framePaths := s.framePaths ++ [s.resolvePath r]
            path := if some r = step.imagePath then some (s.resolvePath r) else s.path } := if_pos hr
      rw [hadd]
      obtain ⟨frames, hframes⟩ := ih
        { s with
          framePaths := s.framePaths ++ [s.resolvePath r]
          path := if some r = step.imagePath then some (s.resolvePath r) else s.path }
      refine ⟨frames, hframes.trans ?_⟩
      congr 1
      change (if ∃ q ∈ rels, some q = step.imagePath ∧ s.present (s.resolvePath q) = true then
        step.imagePath.map s.resolvePath else if some r = step.imagePath then some (s.resolvePath r)
          else s.path) = _
      by_cases himage : some r = step.imagePath
      · have hmap : step.imagePath.map s.resolvePath = some (s.resolvePath r) := by
          rw [← himage]
          rfl
        rw [if_pos himage, hmap, ite_self, if_pos ⟨r, List.mem_cons_self, himage, hr⟩]
      · rw [if_neg himage]
        simp [himage]
    · have hadd : ImageReview.addFrame step s r = s := if_neg hr
      rw [hadd]
      obtain ⟨frames, hframes⟩ := ih s
      refine ⟨frames, hframes.trans ?_⟩
      simp [hr]

variable (steps) (s : ImageReview) (i : Nat)

/-- The pane after the paths of a step have been looked up. -/
def loaded (path : Option Place) (frames : List Place) : ImageReview :=
  { s with step := some i, path := path, framePaths := frames }

variable {steps} {s} {i}

theorem present_iff {r : String} (hgiven : given (steps i).imagePath = some r) :
    s.present (s.resolvePath r) = true ↔ s.Available steps i := by
  have hav : s.Available steps i ↔ s.cache r = true ∨ s.memoryDir r = true := by
    constructor
    · rintro ⟨q, hq, hplace⟩
      obtain rfl : q = r := Option.some.inj (hq.symm.trans hgiven)
      exact hplace
    · exact fun hplace => ⟨r, hgiven, hplace⟩
  rw [hav]
  unfold ImageReview.resolvePath
  by_cases hc : s.cache r = true
  · simp [hc, ImageReview.present]
  · simp [hc, ImageReview.present]

/-- An image that is there is shown. -/
theorem loadStep_available (h : s.Available steps i) : ∃ r frames,
    given (steps i).imagePath = some r ∧ s.present (s.resolvePath r) = true ∧
      s.loadStep steps i = loaded s i (some (s.resolvePath r)) frames := by
  obtain ⟨r, hgiven, hplace⟩ := h
  have hpresent := (present_iff hgiven).mpr ⟨r, hgiven, hplace⟩
  have himage := (given_eq hgiven).1
  obtain ⟨frames, hframes⟩ := frames_fold (steps i) (steps i).rels (loaded s i none [])
  have hfound : ∃ q ∈ (steps i).rels, some q = (steps i).imagePath ∧
      (loaded s i none []).present ((loaded s i none []).resolvePath q) = true :=
    ⟨r, mem_rels.mpr (.inr (.inl hgiven)), himage.symm, hpresent⟩
  rw [if_pos hfound, himage] at hframes
  refine ⟨r, frames, hgiven, hpresent, ?_⟩
  have hload : s.loadStep steps i = if _ ∧ _ then _ else _ := rfl
  refine hload.trans ?_
  refine (if_neg ?_).trans hframes
  intro hnone
  have hpath := congrArg ImageReview.path hframes
  exact absurd (hpath.symm.trans hnone.1) (by simp)

theorem loadStep_missing (hgiven : given (steps i).imagePath ≠ none) (h : ¬ s.Available steps i) :
    ∃ frames, s.loadStep steps i = (loaded s i none frames).startBackgroundFetch steps i := by
  obtain ⟨r, hr⟩ := Option.ne_none_iff_exists'.mp hgiven
  obtain ⟨frames, hframes⟩ := frames_fold (steps i) (steps i).rels (loaded s i none [])
  have hlost : ¬ ∃ q ∈ (steps i).rels, some q = (steps i).imagePath ∧
      (loaded s i none []).present ((loaded s i none []).resolvePath q) = true := by
    rintro ⟨q, -, hq, hpresent⟩
    obtain rfl : q = r := Option.some.inj (hq.trans (given_eq hr).1)
    exact h ((present_iff hr).mp hpresent)
  rw [if_neg hlost] at hframes
  refine ⟨frames, ?_⟩
  have hload : s.loadStep steps i = if _ ∧ _ then _ else _ := rfl
  refine hload.trans ((if_pos ⟨congrArg ImageReview.path hframes, hgiven⟩).trans ?_)
  exact congrArg (ImageReview.startBackgroundFetch steps · i) hframes

theorem loadStep_step (s : ImageReview) (i : Nat) : (s.loadStep steps i).step = some i := by
  obtain ⟨frames, hframes⟩ := frames_fold (steps i) (steps i).rels (loaded s i none [])
  have hstep := congrArg ImageReview.step hframes
  have hload : s.loadStep steps i = if _ ∧ _ then _ else _ := rfl
  rw [hload]
  split
  · unfold ImageReview.startBackgroundFetch
    split <;> exact hstep
  · exact hstep

end Loading

section Serving

variable {steps : Nat → StepState} {canCall : Bool} {s : ImageReview} {i : Nat}

theorem mem_set_of_ne {α : Type} {l : List α} {k : Nat} {t x : α} (y : α) (hk : l[k]? = some t)
    (hx : x ∈ l) (hne : x ≠ t) : x ∈ l.set k y := by
  obtain ⟨n, hn⟩ := List.mem_iff_getElem?.mp hx
  have hkn : k ≠ n := fun h => hne (Option.some.inj (hn.symm.trans (h ▸ hk)))
  exact List.mem_iff_getElem?.mpr ⟨n, by rw [List.getElem?_set_ne hkn, hn]⟩

theorem mem_erase_of_ne {α : Type} {l : List α} {k : Nat} {t x : α} (hk : l[k]? = some t) (hx : x ∈ l)
    (hne : x ≠ t) : x ∈ l.eraseIdx k := by
  obtain ⟨n, hn⟩ := List.mem_iff_getElem?.mp hx
  have hnk : n ≠ k := fun h => hne (Option.some.inj (hn.symm.trans (h ▸ hk)))
  exact List.mem_eraseIdx_iff_getElem?.mpr ⟨n, hnk, hn⟩

theorem set_self {α : Type} {l : List α} {k : Nat} {t : α} (y : α) (hk : l[k]? = some t) :
    y ∈ l.set k y :=
  List.mem_set (List.getElem?_eq_some_iff.mp hk).1 y

/-- A thread of the step fetches, or has just given the flag back. -/
def Attended (s : ImageReview) (i : Nat) : Prop :=
  (∃ t ∈ s.threads, t.step = i ∧ t.Runs) ∨ s.fetching = false ∧ ∃ t ∈ s.threads, t.step = i

def Held (steps : Nat → StepState) (s : ImageReview) : Prop :=
  ∀ i, s.step = some i → given (steps i).imagePath ≠ none →
    s.Shows steps i ∨ s.failed = true ∨ Attended s i

theorem held_new (cache memoryDir : String → Bool) : Held steps (.new cache memoryDir) := nofun

theorem Held.served (h : Held steps s) : s.Served steps := by
  intro hnone i hi hgiven
  obtain hshown | hfailed | ⟨t, ht, -⟩ | ⟨-, t, ht, -⟩ := h i hi hgiven
  · exact .inl hshown
  · exact .inr hfailed
  · simp [hnone] at ht
  · simp [hnone] at ht

theorem shows_loaded {r : String} (frames : List Place) (hgiven : given (steps i).imagePath = some r)
    (hpresent : s.present (s.resolvePath r) = true) :
    (loaded s i (some (s.resolvePath r)) frames).Shows steps i := by
  refine ⟨r, s.resolvePath r, hgiven, rfl, ?_, hpresent⟩
  unfold ImageReview.resolvePath
  split
  · exact .inl rfl
  · exact .inr rfl

theorem Shows.available (h : s.Shows steps i) : s.Available steps i := by
  obtain ⟨r, p, hgiven, -, rfl | rfl, hpresent⟩ := h
  · exact ⟨r, hgiven, .inl hpresent⟩
  · exact ⟨r, hgiven, .inr hpresent⟩

/-- A step that is loaded while the flag is free, or while one of its own threads
fetches, is shown or attended. -/
theorem held_loadStep (h : given (steps i).imagePath ≠ none → ¬ s.Available steps i →
    s.fetching = false ∨ s.failed = true ∨ ∃ t ∈ s.threads, t.step = i ∧ t.Runs) :
    Held steps (s.loadStep steps i) := by
  intro j hj hgiven
  obtain rfl : i = j := Option.some.inj ((loadStep_step s i).symm.trans hj)
  by_cases hav : s.Available steps i
  · obtain ⟨r, frames, hr, hpresent, hload⟩ := loadStep_available hav
    rw [hload]
    exact .inl (shows_loaded frames hr hpresent)
  · obtain ⟨frames, hload⟩ := loadStep_missing hgiven hav
    rw [hload]
    unfold ImageReview.startBackgroundFetch
    by_cases hflag : s.fetching = true
    · rw [if_pos (show (loaded s i none frames).fetching = true from hflag)]
      obtain hfree | hfailed | hrunning := h hgiven hav
      · simp [hflag] at hfree
      · exact .inr (.inl hfailed)
      · exact .inr (.inr (.inl hrunning))
    · rw [if_neg (show ¬ (loaded s i none frames).fetching = true from hflag)]
      refine .inr (.inr (.inl ⟨⟨i, .fetching (steps i).rels⟩, ?_, rfl, _, rfl⟩))
      simp

theorem held_select (hg : Prompt steps canCall s (.select i)) : Held steps (s.select steps i) := by
  refine held_loadStep fun hgiven hmissing => ?_
  obtain hfree | hrunning := hg hgiven hmissing
  · exact .inl hfree
  · exact .inr (.inr hrunning)

/-- What is shown stays shown while the cache grows. -/
theorem shows_addCached (rel : String) (h : s.Shows steps i) : (s.addCached rel).Shows steps i := by
  obtain ⟨r, p, hgiven, hpath, hplace, hpresent⟩ := h
  refine ⟨r, p, hgiven, hpath, hplace, ?_⟩
  cases p with
  | inMemory q => exact hpresent
  | cached q =>
    change Function.update s.cache rel true q = true
    by_cases hq : q = rel
    · rw [hq, Function.update_self]
    · rw [Function.update_of_ne hq]
      exact hpresent

theorem held_prefetched (rel : String) (h : Held steps s) : Held steps (s.addCached rel) := by
  intro i hi hgiven
  obtain hshown | hrest := h i hi hgiven
  · exact .inl (shows_addCached rel hshown)
  · exact .inr hrest

/-- A fetching thread that goes on to its next path, or another step's thread that ends,
leaves the selected step attended. -/
theorem Attended.of_threads {s' : ImageReview} (hflag : s'.fetching = s.fetching)
    (hkeep : ∀ t ∈ s.threads, t.step = i → ∃ t' ∈ s'.threads, t'.step = i ∧ (t.Runs → t'.Runs))
    (h : Attended s i) : Attended s' i := by
  obtain ⟨t, ht, hti, hruns⟩ | ⟨hfree, t, ht, hti⟩ := h
  · obtain ⟨t', ht', hti', hruns'⟩ := hkeep t ht hti
    exact .inl ⟨t', ht', hti', hruns' hruns⟩
  · obtain ⟨t', ht', hti', -⟩ := hkeep t ht hti
    exact .inr ⟨hflag.trans hfree, t', ht', hti'⟩

theorem held_fetched (k : Nat) (outcome : Outcome) (h : Held steps s) :
    Held steps (s.fetched k outcome) := by
  unfold ImageReview.fetched
  split
  · rename_i j rel rels hk
    have hset (i : Nat) (t : Fetch) (ht : t ∈ s.threads) (hti : t.step = i) :
        ∃ t' ∈ s.threads.set k ⟨j, .fetching rels⟩, t'.step = i ∧ (t.Runs → t'.Runs) := by
      by_cases htk : t = ⟨j, .fetching (rel :: rels)⟩
      · refine ⟨⟨j, .fetching rels⟩, set_self _ hk, ?_, fun _ => ⟨rels, rfl⟩⟩
        rw [← hti, htk]
      · exact ⟨t, mem_set_of_ne _ hk ht htk, hti, fun hruns => hruns⟩
    cases outcome with
    | path =>
      intro i hi hgiven
      obtain hshown | hfailed | hattended := h i hi hgiven
      · exact .inl (shows_addCached rel hshown)
      · exact .inr (.inl hfailed)
      · exact .inr (.inr (hattended.of_threads (s := s) rfl fun t ht hti => hset i t ht hti))
    | none =>
      intro i hi hgiven
      obtain hshown | hfailed | hattended := h i hi hgiven
      · exact .inl hshown
      · exact .inr (.inl (by simp [ImageReview.fail, hfailed]))
      · exact .inr (.inr (hattended.of_threads (s := s) rfl fun t ht hti => hset i t ht hti))
    | raised =>
      intro i hi hgiven
      by_cases hij : i = j
      · subst hij
        have hsel : s.step = some i := hi
        exact .inr (.inl (by simp [ImageReview.fail, hsel]))
      · obtain hshown | hfailed | hattended := h i hi hgiven
        · exact .inl hshown
        · exact .inr (.inl (by simp [ImageReview.fail, hfailed]))
        · refine .inr (.inr (hattended.of_threads (s := s) rfl fun t ht hti => ?_))
          refine ⟨t, mem_erase_of_ne hk ht ?_, hti, fun hruns => hruns⟩
          rintro rfl
          exact hij hti.symm
  · exact h

theorem held_clear (k : Nat) (h : Held steps s) : Held steps (s.clear k) := by
  unfold ImageReview.clear
  split
  · rename_i j hk
    intro i hi hgiven
    obtain hshown | hfailed | hattended := h i hi hgiven
    · exact .inl hshown
    · exact .inr (.inl hfailed)
    · have hstays : ∀ t ∈ s.threads, t.step = i →
          ∃ t' ∈ s.threads.set k ⟨j, .cleared⟩, t'.step = i := by
        intro t ht hti
        by_cases htk : t = ⟨j, .fetching []⟩
        · refine ⟨⟨j, .cleared⟩, set_self _ hk, ?_⟩
          rw [← hti, htk]
        · exact ⟨t, mem_set_of_ne _ hk ht htk, hti⟩
      obtain ⟨t, ht, hti, -⟩ | ⟨-, t, ht, hti⟩ := hattended
      · exact .inr (.inr (.inr ⟨rfl, hstays t ht hti⟩))
      · exact .inr (.inr (.inr ⟨rfl, hstays t ht hti⟩))
  · exact h

theorem held_check (k : Nat) (h : Held steps s) (hg : Prompt steps canCall s (.check k)) :
    Held steps (s.check canCall k) := by
  unfold ImageReview.check
  split
  · rename_i j hk
    by_cases hj : s.step = some j
    · rw [if_pos ⟨hj, hg j hk hj⟩]
      intro i hi hgiven
      obtain hshown | hfailed | hattended := h i hi hgiven
      · exact .inl hshown
      · exact .inr (.inl hfailed)
      · refine .inr (.inr (hattended.of_threads (s := s) rfl fun t ht hti => ?_))
        by_cases htk : t = ⟨j, .cleared⟩
        · refine ⟨⟨j, .reloading⟩, set_self _ hk, ?_, ?_⟩
          · rw [← hti, htk]
          · rintro ⟨rels, hrels⟩
            rw [htk] at hrels
            cases hrels
        · exact ⟨t, mem_set_of_ne _ hk ht htk, hti, fun hruns => hruns⟩
    · rw [if_neg fun hp => hj hp.1]
      intro i hi hgiven
      obtain hshown | hfailed | hattended := h i hi hgiven
      · exact .inl hshown
      · exact .inr (.inl hfailed)
      · refine .inr (.inr (hattended.of_threads (s := s) rfl fun t ht hti => ?_))
        refine ⟨t, mem_erase_of_ne hk ht ?_, hti, fun hruns => hruns⟩
        rintro rfl
        exact hj (hi.trans (congrArg some hti.symm))
  · exact h

/-- A reload shows the image, or starts a fetch where none holds the flag. -/
theorem held_reload (k : Nat) (h : Held steps s) : Held steps (s.reload steps k) := by
  unfold ImageReview.reload
  split
  · rename_i j hk
    dsimp only
    by_cases hj : s.step = some j
    · rw [if_pos hj]
      refine held_loadStep fun hgiven hmissing => ?_
      have hcases := h j hj hgiven
      obtain hshown | hfailed | ⟨t, ht, htj, hruns⟩ | ⟨hfree, -⟩ := hcases
      · exact absurd (Shows.available hshown) hmissing
      · exact .inr (.inl hfailed)
      · refine .inr (.inr ⟨t, mem_erase_of_ne hk ht ?_, htj, hruns⟩)
        rintro rfl
        obtain ⟨rels, hrels⟩ := hruns
        cases hrels
      · exact .inl hfree
    · rw [if_neg hj]
      intro i hi hgiven
      obtain hshown | hfailed | hattended := h i hi hgiven
      · exact .inl hshown
      · exact .inr (.inl hfailed)
      · refine .inr (.inr (hattended.of_threads (s := s) rfl fun t ht hti => ?_))
        refine ⟨t, mem_erase_of_ne hk ht ?_, hti, fun hruns => hruns⟩
        rintro rfl
        exact hj (hi.trans (congrArg some hti.symm))
  · exact h

theorem held_next (s : ImageReview) (a : Act) (h : Held steps s) (hg : Prompt steps canCall s a) :
    Held steps (s.next steps canCall a) := by
  cases a with
  | select i => exact held_select hg
  | fetched k outcome => exact held_fetched k outcome h
  | clear k => exact held_clear k h
  | check k => exact held_check k h hg
  | reload k => exact held_reload k h
  | prefetched rel => exact held_prefetched rel h

end Serving

/-- Where steps whose image is missing are selected only while no other fetch holds the
flag, every state with no fetch left shows the image or has seen a fetch for it fail. -/
theorem served_run (steps : Nat → StepState) (canCall : Bool) (cache memoryDir : String → Bool)
    (acts : List Act)
    (hg : Guarded (ImageReview.next steps canCall) (Prompt steps canCall) (.new cache memoryDir) acts) :
    Along (ImageReview.next steps canCall) (fun _ _ s => s.Served steps) (.new cache memoryDir) acts :=
  along_run held_next (fun s a h hp => (held_next s a h hp).served) _ acts (held_new cache memoryDir) hg

section Samples

def twoSteps (i : Nat) : StepState := ⟨none, some (if i = 0 then "a.png" else "b.png"), none⟩

theorem served_sample : Along (ImageReview.next twoSteps true) (fun _ _ s => s.Served twoSteps)
    (.new (fun _ => false) fun _ => false)
    [.select 0, .fetched 0 .path, .clear 0, .check 0, .reload 0, .select 1, .fetched 0 .raised] :=
  served_run twoSteps true (fun _ => false) (fun _ => false) _
    ⟨fun _ _ => .inl rfl, trivial, trivial, fun _ _ _ => rfl, trivial, fun _ _ => .inl rfl, trivial, trivial⟩

/-- A step selected during another step's fetch is left without one. -/
theorem selected_during_fetch : ¬ ∀ (steps : Nat → StepState) (cache memoryDir : String → Bool)
    (acts : List Act), Along (ImageReview.next steps true) (fun _ _ s => s.Served steps)
      (.new cache memoryDir) acts := by
  intro h
  have hend := (h twoSteps (fun _ => false) (fun _ => false)
    [.select 0, .select 1, .fetched 0 .path, .clear 0, .check 0]).2.2.2.2.1
  have hidle : (run (ImageReview.next twoSteps true) (.new (fun _ => false) fun _ => false)
      [.select 0, .select 1, .fetched 0 .path, .clear 0, .check 0]).threads = [] := rfl
  obtain ⟨r, p, -, hpath, -⟩ | hfailed := hend hidle 1 rfl (by decide +kernel)
  · cases hpath
  · cases hfailed

end Samples

end MemoryArchive.Tui.ImagePane
