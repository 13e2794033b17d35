import Mathlib.Data.Finset.Card
import MemoryArchive.Model.Circuit

namespace MemoryArchive.Model

open ReasoningPipeline Runs

variable {β : Type}

theorem fullyOpen_mono {router : ModelRouter β} {hint : String} {circuits circuits' : Finset String}
    (hsub : circuits ⊆ circuits') (h : fullyOpen router hint circuits = true) :
    fullyOpen router hint circuits' = true := by
  by_cases hpolicy : router.policy = .pinned
  · rw [fullyOpen_pinned hpolicy] at h ⊢
    split
    · rename_i hhint
      rw [if_pos hhint] at h
      exact ⟨h.1, hsub h.2⟩
    · rename_i hhint
      rw [if_neg hhint] at h
      exact hsub h
  · rw [fullyOpen_names hpolicy] at h ⊢
    exact fun name hname => hsub (h name hname)

/-- The backend that the fallback policy takes is that of the first closed
circuit. -/
theorem resolveFallback_eq_some {router : ModelRouter β} {hint : String} {circuits : Finset String}
    {backend : β} (h : router.resolveFallback hint circuits = some backend) :
    ∃ name e, name ∈ router.names ∧ name ∉ circuits ∧ router.byName name = some e ∧
      e.backend = backend := by
  obtain ⟨name, hmem, hname⟩ := List.exists_of_findSome?_eq_some h
  obtain ⟨horder, hclosed⟩ := List.mem_filter.mp hmem
  obtain ⟨e, he, hbackend⟩ := Option.map_eq_some_iff.mp hname
  exact ⟨name, e, (ModelRouter.mem_fallbackOrder.mp horder).1, of_decide_eq_true hclosed, he, hbackend⟩

section Chain

variable [DecidableEq β] {router : ModelRouter β} {hint : String} {call : β → Except CallError Unit × Nat}

/-- Backends of different names are different objects. -/
def DistinctBackends (router : ModelRouter β) : Bool :=
  router.entries.all fun e => router.entries.all fun e' => e.backend ≠ e'.backend || e.name = e'.name

theorem entryNameFor_eq (h : DistinctBackends router = true) {e : BackendEntry β}
    (he : e ∈ router.entries) : router.entryNameFor e.backend = e.name := by
  rw [ModelRouter.entryNameFor]
  cases hfind : router.entries.find? (·.backend = e.backend) with
  | none => exact absurd (decide_eq_true rfl) (List.find?_eq_none.mp hfind e he)
  | some e' =>
    have hfound := List.find?_some hfind
    have hbackend : e'.backend = e.backend := of_decide_eq_true hfound
    have hnames := List.all_eq_true.mp (List.all_eq_true.mp h e' (List.mem_of_find?_eq_some hfind)) e he
    simpa [hbackend] using hnames

/-- The loop opens circuits and closes none. -/
theorem fallbackLoop_mono (n : Nat) (tried circuits : Finset String) (last : CallError) (calls : Nat) :
    circuits ⊆ (fallbackLoop router hint call n tried circuits last calls).circuits := by
  induction n generalizing tried circuits last calls with
  | zero => exact Finset.Subset.refl circuits
  | succ n ih =>
    rw [fallbackLoop]
    split
    · exact Finset.Subset.refl circuits
    dsimp only
    split
    · exact Finset.Subset.refl circuits
    split
    · exact Finset.Subset.refl circuits
    · exact (Finset.subset_insert _ circuits).trans (ih _ _ _ _)
    · exact Finset.Subset.refl circuits

/-- The names that are left shrink with each one that is taken. -/
theorem card_sdiff_insert_lt {name : String} {names taken : Finset String} (hname : name ∈ names)
    (hnew : name ∉ taken) : (names \ insert name taken).card < (names \ taken).card := by
  refine Finset.card_lt_card (Finset.ssubset_iff_subset_ne.mpr ⟨?_, fun he => ?_⟩)
  · exact Finset.sdiff_subset_sdiff (Finset.Subset.refl _) (Finset.subset_insert name taken)
  · have hmem : name ∈ names \ taken := Finset.mem_sdiff.mpr ⟨hname, hnew⟩
    rw [← he] at hmem
    exact (Finset.mem_sdiff.mp hmem).2 (Finset.mem_insert_self name taken)

/-- Whether the call of a backend fails for good. -/
def FailsForGood (call : β → Except CallError Unit × Nat) (backend : β) : Bool :=
  match (call backend).1 with
  | .error .nonRetryable => true
  | _ => false

theorem fallbackLoop_opens (hdistinct : DistinctBackends router = true)
    (hhint : hint ≠ "" ∨ "" ∉ router.names) (n : Nat) (tried circuits : Finset String)
    (last : CallError) (calls : Nat) (htried : tried ⊆ circuits)
    (hcalls : ∀ name ∈ router.names, name ∉ circuits → ∀ e, router.byName name = some e →
      FailsForGood call e.backend = true)
    (hrounds : (router.names.toFinset \ circuits).card < n) :
    ∀ name ∈ router.names,
      name ∈ (fallbackLoop router hint call n tried circuits last calls).circuits := by
  induction n generalizing tried circuits last calls with
  | zero => exact absurd hrounds (Nat.not_lt_zero _)
  | succ n ih =>
    rw [fallbackLoop]
    cases hresolve : router.resolveFallback hint circuits with
    | none =>
      intro name hname
      refine (ModelRouter.resolveFallback_eq_none hint circuits).mp hresolve name ?_
      refine ModelRouter.mem_fallbackOrder.mpr ⟨hname, fun he hempty => ?_⟩
      obtain hne | hno := hhint
      · exact hne hempty
      · rw [he, hempty] at hname
        exact hno hname
    | some backend =>
      obtain ⟨name, e, hname, hclosed, he, rfl⟩ := resolveFallback_eq_some hresolve
      obtain ⟨hentry, hename⟩ := ModelRouter.byName_eq_some he
      have hentryName : router.entryNameFor e.backend = name :=
        (entryNameFor_eq hdistinct hentry).trans hename
      have hnew : name ∉ tried := fun hmem => hclosed (htried hmem)
      have hfails := hcalls name hname hclosed e he
      simp only [hentryName, if_neg hnew]
      rw [FailsForGood] at hfails
      split at hfails
      · rename_i hcall
        have hpair : call e.backend = (.error .nonRetryable, (call e.backend).2) := Prod.ext hcall rfl
        rw [hpair]
        dsimp only
        refine ih (insert name tried) (insert name circuits) _ _ (Finset.insert_subset_insert name htried)
          (fun other hother hopen => hcalls other hother fun hmem => hopen (Finset.mem_insert_of_mem hmem))
          ?_
        have hlt := card_sdiff_insert_lt (List.mem_toFinset.mpr hname) hclosed
        omega
      · cases hfails

end Chain

section Session

variable (sid : String)

/-- The hint of a session counts under the pinned policy, and it names one of
its backends. -/
def Hinted (p : ReasoningPipeline β) : Prop :=
  0 < p.threshold ∧
    ((p.routerFor sid).policy = .pinned →
      p.providerHint sid ≠ "" ∧ p.providerHint sid ∈ (p.routerFor sid).names)

/-- A degraded session has every circuit open and has reported it; any other has
failed fewer times than the threshold. -/
structure Sane (p : ReasoningPipeline β) : Prop where
  isOpen : (p.state sid).degraded = true →
    fullyOpen (p.routerFor sid) (p.providerHint sid) (p.state sid).openCircuits = true
  reported : (p.state sid).degraded = true →
    ∃ stepId, (p.sent sid).getLast? = some (.reasoningDegraded sid stepId)
  counting : (p.state sid).degraded = false → (p.state sid).consecutiveFailures < p.threshold

/-- A half-open trial that concerns the session and finds its backend alive. -/
def Recovers (p : ReasoningPipeline β) : PipelineInput β → Bool
  | .trial _ alive => alive && (p.sessionRouters sid).isNone
  | .sessionTrial t _ alive => t = sid && alive
  | .submit _ _ | .work _ _ => false

/-- The number of backends that the policy can select for the session. -/
def selectable (p : ReasoningPipeline β) : Nat :=
  match (p.routerFor sid).policy with
  | .pinned => 1
  | .fallback | .loadBalance => (p.routerFor sid).entries.length

theorem sane_of {p p' : ReasoningPipeline β} {state : SessionState} {sent : List PipelineMessage}
    (hconfig : Configured p p') (hstate : p'.state sid = state) (hsent : p'.sent sid = sent)
    (hopen : state.degraded = true →
      fullyOpen (p.routerFor sid) (p.providerHint sid) state.openCircuits = true)
    (hreported : state.degraded = true →
      ∃ stepId, sent.getLast? = some (.reasoningDegraded sid stepId))
    (hcounting : state.degraded = false → state.consecutiveFailures < p.threshold) : Sane sid p' := by
  refine ⟨?_, ?_, ?_⟩
  · rwa [hstate, hconfig.routerFor, hconfig.providerHint]
  · rwa [hstate, hsent]
  · rwa [hstate, hconfig.threshold]

theorem selectable_pos (p : ReasoningPipeline β) : 0 < selectable sid p := by
  have hlength := List.length_pos_of_ne_nil (p.routerFor sid).nonempty
  rw [selectable]
  split
  · exact Nat.one_pos
  · exact hlength
  · exact hlength

variable [DecidableEq β] (hash : String → Int)

theorem callVlm_mono (p : ReasoningPipeline β) (env : CallEnv β) :
    (p.state sid).openCircuits ⊆ (p.callVlm hash env sid).circuits := by
  rw [callVlm]
  dsimp only
  split
  · exact Finset.Subset.refl _
  split
  · exact fallbackLoop_mono _ _ _ _ _
  split
  · exact Finset.Subset.refl _
  · exact Finset.Subset.refl _

/-- With every circuit open a step makes no call, and it opens no circuit. -/
theorem callVlm_idle {p : ReasoningPipeline β} (hhint : Hinted sid p)
    (hopen : fullyOpen (p.routerFor sid) (p.providerHint sid) (p.state sid).openCircuits = true)
    (env : CallEnv β) :
    p.callVlm hash env sid = ⟨(p.state sid).openCircuits, 0, .error .nonRetryable⟩ := by
  have hall : (p.routerFor sid).policy ≠ .pinned →
      ∀ name ∈ (p.routerFor sid).names, name ∈ (p.state sid).openCircuits :=
    fun hpolicy => (fullyOpen_names hpolicy _ _).mp hopen
  rw [callVlm]
  dsimp only
  split
  · rfl
  split
  · rename_i hpolicy
    have hnames := hall (by rw [hpolicy]; decide)
    have hnone : (p.routerFor sid).resolveFallback (p.providerHint sid) (p.state sid).openCircuits = none :=
      (ModelRouter.resolveFallback_eq_none _ _).mpr fun name hname =>
        hnames name (ModelRouter.mem_fallbackOrder.mp hname).1
    rw [fallbackLoop, hnone]
  · rename_i hpolicy
    have hnone : (p.routerFor sid).resolve hash sid (p.providerHint sid) (p.state sid).openCircuits =
        none := by
      rw [ModelRouter.resolve]
      cases hp : (p.routerFor sid).policy with
      | fallback => exact absurd hp hpolicy
      | pinned =>
        obtain ⟨hne, hmem⟩ := hhint.2 hp
        have hpinned := (fullyOpen_pinned hp _ _).mp hopen
        rw [if_neg hne] at hpinned
        refine (ModelRouter.resolvePinned_eq_none _ _).mpr ?_
        rw [if_pos hmem]
        exact hpinned
      | loadBalance => exact (ModelRouter.resolveLb_eq_none _ _ _).mpr (hall (by rw [hp]; decide))
    rw [hnone]

theorem sane_step (p : ReasoningPipeline β) (i : PipelineInput β) (hpos : 0 < p.threshold)
    (h : Sane sid p) : Sane sid (p.step hash i) := by
  have hconfig := p.configured_step hash i
  have hmono : ∀ circuits, (p.state sid).openCircuits ⊆ circuits → (p.state sid).degraded = true →
      fullyOpen (p.routerFor sid) (p.providerHint sid) circuits = true :=
    fun circuits hsub hdegraded => fullyOpen_mono hsub (h.isOpen hdegraded)
  cases p.effect_step hash sid i with
  | kept hstate hsent hcalls hended =>
    exact sane_of sid hconfig hstate hsent h.isOpen h.reported h.counting
  | ended n stepId env new hi hqueue hends hsent hcalls hended =>
    generalize hstate : (p.step hash i).state sid = state at hends
    generalize hresult : (p.callVlm hash env sid).result = result at hends
    have hcircuits := callVlm_mono sid hash p env
    cases hends with
    | answered name =>
      rw [List.append_nil] at hsent
      exact sane_of sid hconfig hstate hsent (hmono _ hcircuits) h.reported fun _ => hpos
    | counted e hcount =>
      rw [List.append_nil] at hsent
      refine sane_of sid hconfig hstate hsent (hmono _ hcircuits) h.reported fun hnot => ?_
      obtain hlt | hdegraded := hcount
      · exact hlt
      · rw [hdegraded] at hnot
        cases hnot
    | spared e hreached hnot hclosed =>
      exact sane_of sid hconfig hstate hsent (fun hd => by cases hd) (fun hd => by cases hd) fun _ => hpos
    | gaveUp e hnot hopen =>
      refine sane_of sid hconfig hstate hsent (fun _ => hopen) (fun _ => ⟨stepId, ?_⟩) fun hd => by cases hd
      exact List.getLast?_concat
  | closed name hi hcalls hended hcases =>
    obtain ⟨-, hstate⟩ | ⟨hstate, hopen, hsent⟩ := hcases
    · exact sane_of sid hconfig hstate rfl (fun hd => by cases hd) (fun hd => by cases hd) fun _ => hpos
    · exact sane_of sid hconfig hstate hsent hopen h.reported h.counting

theorem Hinted.step {p : ReasoningPipeline β} (h : Hinted sid p) (i : PipelineInput β) :
    Hinted sid (p.step hash i) := by
  have hconfig := p.configured_step hash i
  rw [Hinted, hconfig.threshold, hconfig.routerFor, hconfig.providerHint]
  exact h

/-- The reasoning of the session has ended: ReasoningDegraded is its last
report, and no more calls are made for it until a trial succeeds. -/
structure GivenUp (p : ReasoningPipeline β) : Prop where
  degraded : (p.state sid).degraded = true
  reported : ∃ stepId, (p.sent sid).getLast? = some (.reasoningDegraded sid stepId)
  silent : ∀ is, Guarded (step hash) (fun p i => Recovers sid p i = false) p is →
    (run (step hash) p is).calls sid = p.calls sid

/-- A degraded session without a trial stays so, and it makes no call. -/
theorem degraded_step (p : ReasoningPipeline β) (i : PipelineInput β) (hhint : Hinted sid p)
    (h : Sane sid p) (hdegraded : (p.state sid).degraded = true) (hi : Recovers sid p i = false) :
    ((p.step hash i).state sid).degraded = true ∧ (p.step hash i).calls sid = p.calls sid := by
  cases p.effect_step hash sid i with
  | kept hstate hsent hcalls hended =>
    rw [hstate]
    exact ⟨hdegraded, hcalls⟩
  | ended n stepId env new hi hqueue hends hsent hcalls hended =>
    have hidle := callVlm_idle sid hash hhint (h.isOpen hdegraded) env
    rw [hidle] at hends hcalls
    generalize hstate : (p.step hash i).state sid = state at hends
    cases hends with
    | counted e hcount => exact ⟨hdegraded, hcalls⟩
    | spared e hreached hnot hclosed =>
      rw [hdegraded] at hnot
      cases hnot
    | gaveUp e hnot hopen =>
      rw [hdegraded] at hnot
      cases hnot
  | closed name hclosed hcalls hended hcases =>
    obtain ⟨rfl, hrouter⟩ | rfl := hclosed
    · simp [Recovers, hrouter] at hi
    · simp [Recovers] at hi

theorem givenUp_of_degraded {p : ReasoningPipeline β} (hhint : Hinted sid p) (h : Sane sid p)
    (hdegraded : (p.state sid).degraded = true) : GivenUp sid hash p := by
  refine ⟨hdegraded, h.reported hdegraded, fun is his => ?_⟩
  have hkeep : ∀ (q : ReasoningPipeline β) (i : PipelineInput β), (Hinted sid q ∧ Sane sid q ∧ (q.state sid).degraded = true ∧
      q.calls sid = p.calls sid) → Recovers sid q i = false → Hinted sid (q.step hash i) ∧
      Sane sid (q.step hash i) ∧ ((q.step hash i).state sid).degraded = true ∧
      (q.step hash i).calls sid = p.calls sid := by
    rintro q i ⟨hhint, hsane, hd, hcalls⟩ hi
    obtain ⟨hd', hcalls'⟩ := degraded_step sid hash q i hhint hsane hd hi
    exact ⟨hhint.step sid hash i, sane_step sid hash q i hhint.1 hsane, hd', hcalls'.trans hcalls⟩
  exact (invariant_run hkeep p is ⟨hhint, h, hdegraded, rfl⟩ his).2.2.2

/-- The call for a step of the session fails, in whatever way. -/
def StepFails (p : ReasoningPipeline β) : PipelineInput β → Bool
  | .work n env =>
      match p.queue[n]? with
      | some (t, _) =>
          t ≠ sid ||
            match (p.callVlm hash env sid).result with
            | .ok _ => false
            | .error _ => true
      | none => true
  | _ => true

/-- A failed step leaves no circuit closed that the policy could still use: under
fallback every backend with a closed circuit has failed for good in it. -/
def LeavesNone (p : ReasoningPipeline β) (env : CallEnv β) : Bool :=
  let router := p.routerFor sid
  let hint := p.providerHint sid
  let circuits := (p.state sid).openCircuits
  match router.policy with
  | .pinned => true
  | .loadBalance => router.names.all fun name => name = hint || name ∈ circuits
  | .fallback =>
      !env.budgetExceeded && (hint ≠ "" || "" ∉ router.names) && DistinctBackends router &&
        router.names.all fun name =>
          name ∈ circuits || (router.byName name).all fun e => FailsForGood (p.callBackend env) e.backend

/-- The failure that reaches the threshold leaves no circuit closed. -/
def Exhausts (p : ReasoningPipeline β) : PipelineInput β → Bool
  | .work n env =>
      match p.queue[n]? with
      | some (t, _) =>
          t ≠ sid || (p.state sid).degraded ||
            (p.state sid).consecutiveFailures + 1 < p.threshold || LeavesNone sid p env
      | none => true
  | _ => true

theorem fullyOpen_of_leavesNone {p : ReasoningPipeline β} (hhint : Hinted sid p) {env : CallEnv β}
    (h : LeavesNone sid p env = true) :
    fullyOpen (p.routerFor sid) (p.providerHint sid)
      (p.checkedCircuits sid (p.callVlm hash env sid).circuits) = true := by
  rw [LeavesNone] at h
  have hmono := callVlm_mono sid hash p env
  cases hpolicy : (p.routerFor sid).policy with
  | pinned =>
    rw [fullyOpen_pinned hpolicy, if_neg (hhint.2 hpolicy).1, checkedCircuits, hpolicy]
    exact Finset.mem_insert_self _ _
  | loadBalance =>
    rw [fullyOpen_names (by rw [hpolicy]; decide), checkedCircuits, hpolicy, if_neg (by decide)]
    rw [hpolicy] at h
    intro name hname
    have hone := List.all_eq_true.mp h name hname
    rw [Bool.or_eq_true, decide_eq_true_eq, decide_eq_true_eq] at hone
    obtain rfl | hmem := hone
    · exact Finset.mem_insert_self _ _
    · exact Finset.mem_insert_of_mem (hmono hmem)
  | fallback =>
    rw [fullyOpen_names (by rw [hpolicy]; decide), checkedCircuits, hpolicy, if_pos rfl]
    rw [hpolicy] at h
    simp only [Bool.and_eq_true, Bool.not_eq_true', Bool.or_eq_true, decide_eq_true_eq] at h
    obtain ⟨⟨⟨hbudget, hname⟩, hdistinct⟩, hcalls⟩ := h
    rw [callVlm]
    simp only [hbudget, Bool.false_eq_true, if_false, hpolicy, if_true]
    refine fallbackLoop_opens hdistinct hname _ ∅ _ _ _ (Finset.empty_subset _) ?_ ?_
    · intro name hmem hclosed e he
      have hone := List.all_eq_true.mp hcalls name hmem
      simpa [hclosed, he] using hone
    · have hcard := Finset.card_le_card
        (Finset.sdiff_subset (s := (p.routerFor sid).names.toFinset) (t := (p.state sid).openCircuits))
      have hlength := List.toFinset_card_le (p.routerFor sid).names
      have hnames : (p.routerFor sid).names.length = (p.routerFor sid).entries.length := List.length_map _
      omega

/-- With a threshold of failures for each backend, a run has a point at which
the session is given up. -/
def GivesUpInTime (p : ReasoningPipeline β) (is : List (PipelineInput β)) : Prop :=
  p.threshold * selectable sid p ≤ (run (step hash) p is).ended sid - p.ended sid →
    ∃ is₁ is₂, is = is₁ ++ is₂ ∧
      (run (step hash) p is₁).ended sid - p.ended sid ≤ p.threshold * selectable sid p ∧
      GivenUp sid hash (run (step hash) p is₁)

/-- A failed step of a session that is not degraded is counted, or it ends the
reasoning of the session. -/
theorem failed_step (p : ReasoningPipeline β) (i : PipelineInput β) (hhint : Hinted sid p)
    (hnot : (p.state sid).degraded = false) (hfails : StepFails sid hash p i = true)
    (hg : Exhausts sid p i = true) :
    ((p.step hash i).state sid).degraded = true ∧ (p.step hash i).ended sid = p.ended sid + 1 ∨
      ((p.step hash i).state sid).degraded = false ∧
        (p.step hash i).ended sid + (p.state sid).consecutiveFailures =
          p.ended sid + ((p.step hash i).state sid).consecutiveFailures := by
  cases p.effect_step hash sid i with
  | kept hstate hsent hcalls hended =>
    rw [hstate, hended]
    exact .inr ⟨hnot, rfl⟩
  | ended n stepId env new hi hqueue hends hsent hcalls hended =>
    subst hi
    rw [StepFails, hqueue] at hfails
    rw [Exhausts, hqueue] at hg
    simp only [ne_eq, not_true_eq_false, decide_false, Bool.false_or] at hfails hg
    have hopens : LeavesNone sid p env = true → _ := fullyOpen_of_leavesNone sid hash hhint
    generalize hstate : (p.step hash (.work n env)).state sid = state at hends
    generalize hresult : (p.callVlm hash env sid).result = result at hends hfails
    cases hends with
    | answered name => cases hfails
    | counted e hcount =>
      rw [hended]
      exact .inr ⟨hnot, by dsimp only; omega⟩
    | spared e hreached _ hclosed =>
      rw [hnot, Bool.false_or, Bool.or_eq_true, decide_eq_true_eq] at hg
      obtain hlt | hl := hg
      · omega
      · rw [hopens hl] at hclosed
        cases hclosed
    | gaveUp e _ hopen => exact .inl ⟨rfl, hended⟩
  | closed name hi hcalls hended hcases =>
    obtain ⟨hd, -⟩ | ⟨hstate, -, -⟩ := hcases
    · rw [hnot] at hd
      cases hd
    · rw [hstate, hended]
      exact .inr ⟨hnot, rfl⟩

/-- The failures that are still missing to the threshold. -/
theorem gives_up_run (is : List (PipelineInput β)) (p : ReasoningPipeline β) (hhint : Hinted sid p)
    (h : Sane sid p) (hnot : (p.state sid).degraded = false)
    (hg : Guarded (step hash) (fun p i => StepFails sid hash p i = true ∧ Exhausts sid p i = true) p is)
    (hlong : p.threshold + p.ended sid ≤
      (run (step hash) p is).ended sid + (p.state sid).consecutiveFailures) :
    ∃ is₁ is₂, is = is₁ ++ is₂ ∧
      (run (step hash) p is₁).ended sid + (p.state sid).consecutiveFailures ≤
        p.threshold + p.ended sid ∧
      GivenUp sid hash (run (step hash) p is₁) := by
  induction is generalizing p with
  | nil =>
    have hlt := h.counting hnot
    have hend : (run (step hash) p []).ended sid = p.ended sid := rfl
    omega
  | cons i is ih =>
    obtain ⟨⟨hfails, hexhausts⟩, hrest⟩ := hg
    have hsane := sane_step sid hash p i hhint.1 h
    have hnext := hhint.step sid hash i
    have hlt := h.counting hnot
    have hthreshold := (p.configured_step hash i).threshold
    obtain ⟨hdegraded, hended⟩ | ⟨hagain, hcount⟩ :=
      failed_step sid hash p i hhint hnot hfails hexhausts
    · refine ⟨[i], is, rfl, ?_, givenUp_of_degraded sid hash hnext hsane hdegraded⟩
      have hend : (run (step hash) p [i]).ended sid = (p.step hash i).ended sid := rfl
      omega
    · have hend : (run (step hash) p (i :: is)).ended sid =
          (run (step hash) (p.step hash i) is).ended sid := rfl
      obtain ⟨is₁, is₂, rfl, hbound, hgiven⟩ := ih (p.step hash i) hnext hsane hagain hrest (by omega)
      refine ⟨i :: is₁, is₂, rfl, ?_, hgiven⟩
      have hprefix : (run (step hash) p (i :: is₁)).ended sid =
          (run (step hash) (p.step hash i) is₁).ended sid := rfl
      omega

end Session

/-- Whatever a pipeline has done before, when every call for a session fails and
the failures that reach the threshold leave no circuit closed, the session is
given up in time. -/
theorem persistent_failure_degrades [DecidableEq β] (hash : String → Int) (router : ModelRouter β)
    (sessionRouters : String → Option (ModelRouter β)) (sessionProviders : String → Option String)
    (threshold maxRetries : Nat) (sid : String) (is₀ is : List (PipelineInput β))
    (hhint : Hinted sid (start router sessionRouters sessionProviders threshold maxRetries))
    (hg : Guarded (step hash) (fun p i => StepFails sid hash p i = true ∧ Exhausts sid p i = true)
      (run (step hash) (start router sessionRouters sessionProviders threshold maxRetries) is₀) is) :
    GivesUpInTime sid hash
      (run (step hash) (start router sessionRouters sessionProviders threshold maxRetries) is₀) is := by
  have hstart : Hinted sid (start router sessionRouters sessionProviders threshold maxRetries) ∧
      Sane sid (start router sessionRouters sessionProviders threshold maxRetries) :=
    ⟨hhint, fun hd => (by cases hd), fun hd => (by cases hd), fun _ => hhint.1⟩
  have hkeep : ∀ (q : ReasoningPipeline β) (i : PipelineInput β), (Hinted sid q ∧ Sane sid q) → True →
      Hinted sid (q.step hash i) ∧ Sane sid (q.step hash i) :=
    fun q i hq _ => ⟨hq.1.step sid hash i, sane_step sid hash q i hq.1.1 hq.2⟩
  obtain ⟨hhint', hsane⟩ := invariant_run hkeep _ is₀ hstart (guarded_true _ is₀)
  generalize run (step hash) (start router sessionRouters sessionProviders threshold maxRetries) is₀ = p
    at hg hhint' hsane
  intro hlong
  have hbound : p.threshold ≤ p.threshold * selectable sid p :=
    Nat.le_mul_of_pos_right _ (selectable_pos sid p)
  cases hd : (p.state sid).degraded with
  | true =>
    refine ⟨[], is, rfl, ?_, givenUp_of_degraded sid hash hhint' hsane hd⟩
    have hend : (run (step hash) p []).ended sid = p.ended sid := rfl
    omega
  | false =>
    have hpos := hhint'.1
    obtain ⟨is₁, is₂, he, hshort, hgiven⟩ :=
      gives_up_run sid hash is p hhint' hsane hd hg (by omega)
    exact ⟨is₁, is₂, he, by omega, hgiven⟩

/-- Two backends in a chain, for sessions without a hint. -/
def chainPool : ModelRouter Nat := ⟨[⟨"openai", 0, 1⟩, ⟨"xai", 1, 2⟩], .fallback, by decide⟩

/-- A session that is answered first, and then meets failures only. -/
theorem persistent_failure_degrades_sample :
    GivesUpInTime "s1" (fun _ => 0)
      (run (step fun _ => 0) (start chainPool (fun _ => none) (fun _ => none) 2 1)
        [.submit "s1" 1, .work 0 ⟨false, fun _ _ => .success⟩])
      [.submit "s1" 2, .work 0 ⟨false, fun b _ => if b = 0 then .failed .retryable else .success⟩,
        .submit "s1" 3, .submit "s1" 4, .submit "s1" 5,
        .work 0 ⟨false, fun _ _ => .failed .nonRetryable⟩,
        .work 0 ⟨false, fun _ _ => .failed .nonRetryable⟩,
        .work 0 ⟨false, fun _ _ => .failed .nonRetryable⟩] :=
  persistent_failure_degrades (fun _ => 0) chainPool (fun _ => none) (fun _ => none) 2 1 "s1" _ _
    ⟨by decide, fun h => by cases h⟩ (by decide +kernel)

/-- The default configuration, a single backend and no hint. -/
def singlePool : ModelRouter Nat := ⟨[⟨"openai", 0, 1⟩], .pinned, openai_ne_nil⟩

def failingSteps : List (PipelineInput Nat) :=
  [.submit "s1" 1, .work 0 ⟨false, fun _ _ => .failed .nonRetryable⟩,
    .submit "s1" 2, .work 0 ⟨false, fun _ _ => .failed .nonRetryable⟩]

/-- The circuit that is opened is that of the empty hint, so that the failures
never end the reasoning of the session. -/
theorem unhinted_session_not_given_up :
    Guarded (step fun _ => 0) (fun p i => StepFails "s1" (fun _ => 0) p i = true)
        (start singlePool (fun _ => none) (fun _ => none) 2 1) failingSteps ∧
      ¬ GivesUpInTime "s1" (fun _ => 0) (start singlePool (fun _ => none) (fun _ => none) 2 1)
        failingSteps := by
  refine ⟨by decide +kernel, fun h => ?_⟩
  obtain ⟨is₁, is₂, he, -, hgiven⟩ := h (by decide +kernel)
  have hactive : ∀ is ∈ failingSteps.inits, ((run (step fun _ => 0)
      (start singlePool (fun _ => none) (fun _ => none) 2 1) is).state "s1").degraded = false := by
    decide +kernel
  have hprefix : is₁ ∈ failingSteps.inits := (List.mem_inits is₁ failingSteps).mpr ⟨is₂, he.symm⟩
  have hdegraded := hgiven.degraded
  rw [hactive is₁ hprefix] at hdegraded
  cases hdegraded

end MemoryArchive.Model
