import MemoryArchive.Storage.Router

namespace MemoryArchive.Storage.Lexical

/-- One more component of a lexical normal form. A parent directory cancels the
name before it; above the root there is only the root. -/
def lexicalStep (done : List Component) : Component → List Component
  | .curDir => done
  | .parentDir =>
      match done.getLast? with
      | some (.normal _) => done.dropLast
      | some .rootDir => done
      | _ => done ++ [.parentDir]
  | c => done ++ [c]

def lexical (path : List Component) : List Component := path.foldl lexicalStep []

/-- What comes after the directory are names only. -/
def Inside (dir path : List Component) : Prop :=
  ∃ names : List (List Char), path = dir ++ names.map .normal

def joined (memoryPath relativePath : String) : List Component :=
  components (join memoryPath.toList relativePath.toList)

/-- The path is not empty and leads into the directory. -/
def LeadsInside (memoryPath relativePath : String) : Prop :=
  relativePath ≠ "" ∧ Inside (lexical (components memoryPath.toList)) (lexical (joined memoryPath relativePath))

/-- Just the paths that lead into the directory are accepted, each as its normal form. -/
def ValidatesExactly (memoryPath relativePath : String) : Prop :=
  ∀ path, validateRelativePath memoryPath relativePath = .ok path ↔
    LeadsInside memoryPath relativePath ∧ path = lexical (joined memoryPath relativePath)

/-- A path with no dot components. -/
def Plain (path : List Component) : Prop := .curDir ∉ path ∧ .parentDir ∉ path

/-- Below so many names, a parent directory comes that has no name to cancel. -/
def Climbs : Nat → List Component → Prop
  | _, [] => False
  | 0, .parentDir :: _ => True
  | n + 1, .parentDir :: rest => Climbs n rest
  | n, .normal _ :: rest => Climbs (n + 1) rest
  | n, .curDir :: rest | n, .rootDir :: rest => Climbs n rest

/-- A path into the directory never climbs above its start and the directory has
no dots, and an absolute path is not taken for one into the empty directory. -/
def Undotted (memoryPath relativePath : String) : Prop :=
  (LeadsInside memoryPath relativePath →
      Plain (components memoryPath.toList) ∧ ¬ Climbs 0 (joined memoryPath relativePath)) ∧
    (memoryPath = "" → relativePath.toList.head? = some '/' → Climbs 0 (joined memoryPath relativePath))

/-- At most the root, and names. -/
def named (root : Bool) (names : List (List Char)) : List Component :=
  (if root then [.rootDir] else []) ++ names.map .normal

theorem named_concat (root : Bool) (names : List (List Char)) (name : List Char) :
    named root (names ++ [name]) = named root names ++ [.normal name] := by
  simp [named]

theorem normalise_named (root : Bool) (names : List (List Char)) {path : List Component}
    (hpath : .rootDir ∉ path) :
    (Climbs names.length path ∧ normalise (named root names) path = .error traverses) ∨
      ¬ Climbs names.length path ∧ ∃ names', path.foldl lexicalStep (named root names) = named root names' ∧
        normalise (named root names) path = .ok (named root names') := by
  induction path generalizing names with
  | nil => exact .inr ⟨id, names, rfl, rfl⟩
  | cons c path ih =>
    have hrest : .rootDir ∉ path := fun h => hpath (List.mem_cons_of_mem c h)
    cases c with
    | rootDir => exact absurd List.mem_cons_self hpath
    | curDir =>
      cases names with
      | nil => exact ih [] hrest
      | cons name names => exact ih (name :: names) hrest
    | normal name =>
      have hnext := ih (names ++ [name]) hrest
      rw [named_concat, List.length_append] at hnext
      cases names with
      | nil => exact hnext
      | cons name' names => exact hnext
    | parentDir =>
      obtain rfl | ⟨front, name, rfl⟩ := List.eq_nil_or_concat' names
      · refine .inl ⟨trivial, ?_⟩
        cases root <;> rfl
      · have hnext := ih front hrest
        have hpop : popComponent (named root (front ++ [name])) = some (named root front) := by
          simp [named_concat, popComponent]
        have hstep : lexicalStep (named root (front ++ [name])) .parentDir = named root front := by
          simp [named_concat, lexicalStep]
        rw [List.length_append, List.foldl_cons, hstep, normalise, hpop]
        exact hnext

theorem components_pieces (path : List Char) : ∃ pieces, Component.rootDir ∉ pieces ∧
    components path = (if path.head? = some '/' then [.rootDir]
      else if (Lines.split (· = '/') path).head? = some ['.'] then [.curDir] else []) ++ pieces := by
  refine ⟨_, ?_, rfl⟩
  intro h
  obtain ⟨piece, -, hpiece⟩ := List.mem_filterMap.mp h
  split at hpiece
  · cases hpiece
  · split at hpiece <;> cases hpiece

/-- Only an absolute path has a root, and only in front. -/
theorem components_cases (path : List Char) :
    ∃ rest, Component.rootDir ∉ rest ∧
      (path.head? = some '/' ∧ components path = .rootDir :: rest ∨
        path.head? ≠ some '/' ∧ components path = rest) := by
  obtain ⟨pieces, hpieces, heq⟩ := components_pieces path
  rw [heq]
  split
  · rename_i habs
    exact ⟨pieces, hpieces, .inl ⟨habs, rfl⟩⟩
  · rename_i habs
    split
    · exact ⟨.curDir :: pieces, List.not_mem_cons_of_ne_of_not_mem (by simp) hpieces, .inr ⟨habs, rfl⟩⟩
    · exact ⟨pieces, hpieces, .inr ⟨habs, rfl⟩⟩

theorem splitFrom_head (isBreak : Char → Bool) (text acc : List Char) (hacc : acc ≠ []) :
    ∃ piece rest, Lines.splitFrom isBreak acc text = (acc.reverse ++ piece) :: rest := by
  induction text generalizing acc with
  | nil => exact ⟨[], [], by simp [Lines.splitFrom, hacc]⟩
  | cons c text ih =>
    cases hc : isBreak c with
    | true => exact ⟨[], Lines.splitFrom isBreak [] text, by simp [Lines.splitFrom, hc]⟩
    | false =>
      obtain ⟨piece, rest, hsplit⟩ := ih (c :: acc) (List.cons_ne_nil c acc)
      refine ⟨c :: piece, rest, ?_⟩
      rw [Lines.splitFrom, hc, if_neg Bool.false_ne_true, hsplit, List.reverse_cons, List.append_assoc]
      rfl

/-- Only the empty path has no components. -/
theorem eq_nil_of_components {path : List Char} (h : components path = []) : path = [] := by
  cases path with
  | nil => rfl
  | cons c path =>
    exfalso
    by_cases hc : c = '/'
    · obtain ⟨rest, -, ⟨-, hroot⟩ | ⟨hne, -⟩⟩ := components_cases (c :: path)
      · cases h.symm.trans hroot
      · exact hne (congrArg some hc)
    · obtain ⟨piece, rest, hsplit⟩ := splitFrom_head (· = '/') path [c] (List.cons_ne_nil c [])
      have hpieces : Lines.split (· = '/') (c :: path) = (c :: piece) :: rest := by
        rw [Lines.split, Lines.splitFrom, decide_eq_false hc, if_neg Bool.false_ne_true]
        exact hsplit
      by_cases hdot : c :: piece = ['.']
      · obtain ⟨rfl, rfl⟩ := List.cons.inj hdot
        simp [components, hpieces] at h
      · by_cases hparent : c :: piece = ['.', '.']
        · obtain ⟨rfl, rfl⟩ := List.cons.inj hparent
          simp [components, hpieces] at h
        · have hname : c = '.' → piece ≠ [] := by simpa using hdot
          have hnormal : ¬ (c = '.' ∧ piece = ['.']) := by simpa using hparent
          simp only [components, hpieces, List.append_eq_nil_iff, List.filterMap_eq_nil_iff] at h
          have hpiece := h.2 (c :: piece) List.mem_cons_self
          rw [if_neg (by simpa using hname), if_neg (by simpa using hnormal)] at hpiece
          cases hpiece

/-- The walk over a path: it climbs, or it ends at the normal form. -/
theorem normalise_components (path : List Char) :
    (Climbs 0 (components path) ∧ normalise [] (components path) = .error traverses) ∨
      ¬ Climbs 0 (components path) ∧ ∃ root names,
        (root = true ↔ path.head? = some '/') ∧ lexical (components path) = named root names ∧
          normalise [] (components path) = .ok (named root names) := by
  obtain ⟨rest, hrest, ⟨habs, hc⟩ | ⟨habs, hc⟩⟩ := components_cases path
  · rw [hc]
    obtain ⟨hclimbs, herror⟩ | ⟨hclimbs, names, hlexical, hok⟩ := normalise_named true [] hrest
    · exact .inl ⟨hclimbs, herror⟩
    · exact .inr ⟨hclimbs, true, names, iff_of_true rfl habs, hlexical, hok⟩
  · rw [hc]
    obtain ⟨hclimbs, herror⟩ | ⟨hclimbs, names, hlexical, hok⟩ := normalise_named false [] hrest
    · exact .inl ⟨hclimbs, herror⟩
    · exact .inr ⟨hclimbs, false, names, iff_of_false Bool.false_ne_true habs, hlexical, hok⟩

theorem named_plain (root : Bool) (names : List (List Char)) : Plain (named root names) := by
  cases root <;> simp [named, Plain]

theorem plain_of_isPrefix {dir path : List Component} (hpath : Plain path) (h : dir <+: path) : Plain dir :=
  ⟨fun hc => hpath.1 (h.subset hc), fun hc => hpath.2 (h.subset hc)⟩

/-- A path without dots is its own normal form. -/
theorem lexical_plain {path : List Component} (h : Plain path) : lexical path = path := by
  have hfold : ∀ done, path.foldl lexicalStep done = done ++ path := by
    induction path with
    | nil => intro done; exact (List.append_nil done).symm
    | cons c path ih =>
      intro done
      have hrest : Plain path := ⟨fun hc => h.1 (List.mem_cons_of_mem c hc),
        fun hc => h.2 (List.mem_cons_of_mem c hc)⟩
      have hstep : lexicalStep done c = done ++ [c] := by
        cases c with
        | rootDir => rfl
        | normal name => rfl
        | curDir => exact absurd List.mem_cons_self h.1
        | parentDir => exact absurd List.mem_cons_self h.2
      rw [List.foldl_cons, hstep, ih hrest, List.append_assoc]
      rfl
  exact hfold []

/-- What the source accepts. -/
theorem validate_eq_ok (memoryPath relativePath : String) (path : List Component) :
    validateRelativePath memoryPath relativePath = .ok path ↔
      relativePath ≠ "" ∧ ¬ Climbs 0 (joined memoryPath relativePath) ∧
        components memoryPath.toList <+: lexical (joined memoryPath relativePath) ∧
        path = lexical (joined memoryPath relativePath) := by
  by_cases hempty : relativePath = ""
  · refine iff_of_false ?_ fun h => h.1 hempty
    simp [validateRelativePath, hempty]
  · rw [validateRelativePath, if_neg hempty]
    obtain ⟨hclimbs, herror⟩ | ⟨hclimbs, root, names, -, hlexical, hok⟩ :=
      normalise_components (join memoryPath.toList relativePath.toList)
    · rw [herror]
      refine iff_of_false ?_ fun h => h.2.1 hclimbs
      simp
    · rw [hok, joined, hlexical]
      dsimp only
      split
      · rename_i hprefix
        rw [List.isPrefixOf_iff_prefix] at hprefix
        constructor
        · intro h
          exact ⟨hempty, hclimbs, hprefix, (Except.ok.inj h).symm⟩
        · rintro ⟨-, -, -, rfl⟩
          rfl
      · rename_i hprefix
        rw [List.isPrefixOf_iff_prefix] at hprefix
        refine iff_of_false (by simp) fun h => hprefix h.2.2.1

/-- A directory of a normal form, unless it is empty and the path has a root. -/
theorem inside_of_isPrefix {dir : List Component} {root : Bool} {names : List (List Char)}
    (h : dir <+: named root names) (hroot : dir = [] → root = false) : Inside dir (named root names) := by
  obtain ⟨rest, hrest⟩ := h
  have hmap : ∀ dir' : List Component, dir' ++ rest = names.map .normal →
      ∃ names' : List (List Char), rest = names'.map .normal := by
    intro dir' h
    obtain ⟨-, names', -, -, hnames'⟩ := List.map_eq_append_iff.mp h.symm
    exact ⟨names', hnames'.symm⟩
  have hnames : ∃ names' : List (List Char), rest = names'.map .normal := by
    cases root with
    | false => exact hmap dir hrest
    | true =>
      cases dir with
      | nil => cases hroot rfl
      | cons c dir =>
        rw [named, if_pos rfl, List.cons_append, List.cons_append] at hrest
        exact hmap dir (List.cons.inj hrest).2
  obtain ⟨names', rfl⟩ := hnames
  exact ⟨names', hrest.symm⟩

theorem join_nil (relative : List Char) : join [] relative = relative := by
  rw [join]
  split
  · rfl
  · rfl

/-- The check of relative paths is exact just for the paths that do not run into
dots of the directory or above the root. -/
theorem validates_iff (memoryPath relativePath : String) :
    ValidatesExactly memoryPath relativePath ↔ Undotted memoryPath relativePath := by
  constructor
  · intro hexact
    constructor
    · intro hleads
      obtain ⟨-, hclimbs, hprefix, -⟩ := (validate_eq_ok _ _ _).mp ((hexact _).mpr ⟨hleads, rfl⟩)
      obtain ⟨h, -⟩ | ⟨-, root, names, -, hlexical, -⟩ := normalise_components _
      · exact absurd h hclimbs
      · rw [joined, hlexical] at hprefix
        exact ⟨plain_of_isPrefix (named_plain root names) hprefix, hclimbs⟩
    · rintro rfl habs
      by_contra hclimbs
      have hne : relativePath ≠ "" := by
        rintro rfl
        cases habs
      have hprefix : components "".toList <+: lexical (joined "" relativePath) := List.nil_prefix
      obtain ⟨⟨-, names, hnames⟩, -⟩ :=
        (hexact _).mp ((validate_eq_ok _ _ _).mpr ⟨hne, hclimbs, hprefix, rfl⟩)
      rw [joined, String.toList_empty, join_nil] at hnames hclimbs
      obtain ⟨h, -⟩ | ⟨-, root, names', hroot, hlexical, -⟩ := normalise_components relativePath.toList
      · exact hclimbs h
      · rw [hlexical, hroot.mpr habs] at hnames
        cases names <;> cases hnames
  · rintro ⟨hdots, habs⟩ path
    rw [validate_eq_ok]
    constructor
    · rintro ⟨hne, hclimbs, hprefix, hpath⟩
      refine ⟨⟨hne, ?_⟩, hpath⟩
      obtain ⟨h, -⟩ | ⟨-, root, names, hroot, hlexical, -⟩ :=
        normalise_components (join memoryPath.toList relativePath.toList)
      · exact absurd h hclimbs
      · rw [joined, hlexical] at hprefix ⊢
        rw [lexical_plain (plain_of_isPrefix (named_plain root names) hprefix)]
        refine inside_of_isPrefix hprefix fun hnil => ?_
        have hempty : memoryPath = "" := String.toList_eq_nil_iff.mp (eq_nil_of_components hnil)
        subst hempty
        rw [String.toList_empty, join_nil] at hroot
        cases root with
        | false => rfl
        | true => exact absurd (habs rfl (hroot.mp rfl)) hclimbs
    · rintro ⟨⟨hne, hinside⟩, hpath⟩
      obtain ⟨hplain, hclimbs⟩ := hdots ⟨hne, hinside⟩
      obtain ⟨names, hnames⟩ := hinside
      rw [lexical_plain hplain] at hnames
      exact ⟨hne, hclimbs, hnames ▸ List.prefix_append _ _, hpath⟩

def lexicalSample (names : List String) : List Component := names.map fun name => .normal name.toList

/-- A dot in front of the directory shuts out its own files, an empty directory
lets absolute paths in, and a path that returns from above the root is refused. -/
theorem validate_not_exact :
    ¬ ValidatesExactly "./memory" "a.png" ∧ ¬ ValidatesExactly "/data/../memory" "a.png" ∧
      ¬ ValidatesExactly "" "/etc/passwd" ∧ ¬ ValidatesExactly "/memory" "../../memory/a.png" := by
  refine ⟨fun h => ?_, fun h => ?_, fun h => ?_, fun h => ?_⟩
  · have hok := (h (lexicalSample ["memory", "a.png"])).mpr
      ⟨⟨by decide, ["a.png".toList], by decide +kernel⟩, by decide +kernel⟩
    revert hok
    decide +kernel
  · have hok := (h (.rootDir :: lexicalSample ["memory", "a.png"])).mpr
      ⟨⟨by decide, ["a.png".toList], by decide +kernel⟩, by decide +kernel⟩
    revert hok
    decide +kernel
  · obtain ⟨⟨-, names, hnames⟩, -⟩ := (h (.rootDir :: lexicalSample ["etc", "passwd"])).mp (by decide +kernel)
    have hroot : lexical (joined "" "/etc/passwd") = .rootDir :: lexicalSample ["etc", "passwd"] := by
      decide +kernel
    rw [hroot] at hnames
    cases names <;> cases hnames
  · have hok := (h (.rootDir :: lexicalSample ["memory", "a.png"])).mpr
      ⟨⟨by decide, ["a.png".toList], by decide +kernel⟩, by decide +kernel⟩
    revert hok
    decide +kernel

end MemoryArchive.Storage.Lexical
