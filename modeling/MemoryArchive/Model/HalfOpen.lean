import MemoryArchive.Model.Breaker

namespace MemoryArchive.Model.Breaker

open Function (update)
open Runs

variable {β : Type}

/-- The trial has not closed its circuit and has not given up. -/
def Trial.pending (t : Trial β) : Bool :=
  match t.place with
  | .sleeping | .pinging _ | .closing _ => true
  | _ => false

def Trial.isFor (owner : Option String) (name : String) (t : Trial β) : Bool :=
  t.owner = owner && t.name = name && t.pending

/-- The trial has closed a circuit and has still to see whether the session can
resume. A copy of its circuits that is empty lets it resume. -/
def Trial.reviews (sid : String) (t : Trial β) : Bool :=
  match t.place with
  | .reviewing sids => sid ∈ sids
  | .judging s circuits rest => s = sid && circuits.getD ∅ = ∅ || sid ∈ rest
  | .resuming s rest => s = sid || sid ∈ rest
  | .resetting _ rest => sid ∈ rest
  | _ => false

/-- The worker has opened the circuit and has still to schedule its trial. -/
def Worker.owes (sid name : String) (w : Worker β) : Bool :=
  match w.place with
  | .scheduling _ other | .marked other => w.sid = sid && other = name
  | _ => false

namespace Pipeline

variable (hash : String → Int) (p : Pipeline β)

/-- The number of half-open trials that are pending for a circuit. -/
def pendings (owner : Option String) (name : String) : Nat := p.trials.countP (Trial.isFor owner name)

def owed (sid name : String) : Bool := p.workers.any (Worker.owes sid name)

def reviewed (sid : String) : Bool := p.trials.any (Trial.reviews sid)

/-- Each open circuit is that of a backend of the session's router and has one
pending trial, but while a worker that has opened it is about to schedule one.
No circuit has two. A degraded session has an open circuit, but while a trial
that has closed one is about to let it resume. -/
structure Recoverable : Prop where
  named : ∀ sid, ∀ name ∈ p.circuits sid, name ∈ (p.routerFor sid).names
  once : ∀ owner name, p.pendings owner name ≤ 1
  tried : ∀ sid, ∀ name ∈ p.circuits sid, p.owed sid name = true ∨ p.pendings (p.owner sid) name = 1
  isOpen : ∀ sid, p.degraded sid = true → p.circuits sid ≠ ∅ ∨ p.reviewed sid = true

/-- A circuit is opened under the name of a backend, a trial is scheduled if none is
pending for its circuit, and a session is degraded with an open circuit. -/
def timelyEffect : Effect → Bool
  | .openCircuit sid name => name ∈ (p.routerFor sid).names
  | .schedule sid name => p.pendings (p.owner sid) name = 0
  | .degrade sid | .mark sid => p.circuits sid ≠ ∅ || p.reviewed sid
  | _ => true

/-- A session gets a router of its own that has the backends and the trials of its
open circuits. -/
def timelyConfig : Act β → Bool
  | .setSessionConfig sid primary primaryBackend fallback fallbackBackend =>
      primary = "" ||
        decide (∀ name ∈ p.circuits sid,
          name ∈ (sessionRouter primary primaryBackend fallback fallbackBackend).names ∧
            (p.owed sid name = true ∨ p.pendings (some sid) name = 1))
  | _ => true

variable {hash p}

theorem owes_of_raised {w : Worker β} {call : Call β} {other : String} {e : CallError}
    (hplace : w.place = raised call other e) (sid name : String) : w.owes sid name = false := by
  rw [raised] at hplace
  split at hplace <;> rw [Worker.owes, hplace]

/-- A worker comes to owe the trial of a circuit when it opens it. -/
theorem owes_works_iff [DecidableEq β] {w w' : Worker β} {budgetExceeded : Bool} {answer : Attempt}
    {e : Effect} (h : Works hash p w budgetExceeded answer e w') (sid name : String) :
    w'.owes sid name = true ↔ e = .openCircuit sid name := by
  cases h with
  | opened | marked => simp [Worker.owes]
  | exhausted | raised =>
    rw [owes_of_raised rfl]
    exact iff_of_false nofun nofun
  | _ => simp [Worker.owes]

/-- What it owes, it schedules. -/
theorem schedules_works [DecidableEq β] {w w' : Worker β} {budgetExceeded : Bool} {answer : Attempt}
    {e : Effect} (h : Works hash p w budgetExceeded answer e w') {sid name : String}
    (howes : w.owes sid name = true) : e = .schedule sid name := by
  rw [Worker.owes] at howes
  cases h with
  | scheduled hplace | timed hplace =>
    rw [hplace] at howes
    obtain ⟨hsid, hname⟩ := Bool.and_eq_true_iff.mp howes
    rw [of_decide_eq_true hsid, of_decide_eq_true hname]
  | reset hplace | finished hplace => obtain hplace | hplace := hplace <;> (rw [hplace] at howes; cases howes)
  | refused hplace | admitted hplace | none hplace | repeated hplace | picked hplace | exhausted hplace
  | answered hplace | noSlot hplace | retried hplace | raised hplace | opened hplace | hinted hplace
  | counted hplace | left hplace | unmarked hplace | exempted hplace | chosen hplace | marked hplace
  | tested hplace | condemned hplace | spared hplace | degraded hplace | reported hplace
  | rescheduled hplace =>
    rw [hplace] at howes
    cases howes

/-- A trial is pending until it closes its circuit, or finds it closed. -/
theorem pending_tries {t t' : Trial β} {alive : Bool} {e : Effect} (h : Tries p t alive e t') :
    (t'.owner = t.owner ∧ t'.name = t.name) ∧ (t'.pending = true → t.pending = true) ∧
      (t.pending = true → t'.pending = true ∨ p.pinged t = none ∨ e = .close t.owner t.name) := by
  rw [Trial.pending.eq_def t]
  cases h with
  | idle _ hnone => exact ⟨⟨rfl, rfl⟩, nofun, fun _ => .inr (.inl hnone)⟩
  | woken hplace | failed hplace | answered hplace =>
    rw [hplace]
    exact ⟨⟨rfl, rfl⟩, fun _ => rfl, fun _ => .inl rfl⟩
  | closed => exact ⟨⟨rfl, rfl⟩, nofun, fun _ => .inr (.inr rfl)⟩
  | finished hplace =>
    obtain hplace | hplace := hplace <;> rw [hplace] <;> exact ⟨⟨rfl, rfl⟩, nofun, nofun⟩
  | reviewed hplace | left hplace | freed hplace | resumed hplace | passed hplace | told hplace =>
    rw [hplace]
    exact ⟨⟨rfl, rfl⟩, nofun, nofun⟩

theorem circuits_eq (sid : String) :
    ((p.state? sid).map SessionState.openCircuits).getD ∅ = p.circuits sid := by
  rw [circuits, Pipeline.state]
  cases p.state? sid <;> rfl

theorem isFullyDegraded_empty {sid : String} {circuits : Option (Finset String)}
    (h : circuits.getD ∅ = ∅) : p.isFullyDegraded sid circuits = false := by
  cases circuits with
  | none => rfl
  | some circuits =>
    rw [Option.getD_some] at h
    rw [h]
    exact fullyOpen_empty _ _

/-- A trial looks at each session that it has to, as long as no circuit of it is
open. -/
theorem reviews_tries {t t' : Trial β} {alive : Bool} {e : Effect} (h : Tries p t alive e t')
    {sid : String} (hreviews : t.reviews sid = true) :
    t'.reviews sid = true ∨ p.circuits sid ≠ ∅ ∨ p.degraded sid = false ∨ e = .resume sid := by
  rw [Trial.reviews] at hreviews
  cases h with
  | idle hplace | woken hplace | failed hplace | answered hplace | closed hplace =>
    rw [hplace] at hreviews
    cases hreviews
  | finished hplace => obtain hplace | hplace := hplace <;> (rw [hplace] at hreviews; cases hreviews)
  | reviewed hplace =>
    rw [hplace] at hreviews
    obtain rfl | hrest := List.mem_cons.mp (of_decide_eq_true hreviews)
    · by_cases hopen : p.circuits sid = ∅
      · simp [Trial.reviews, circuits_eq, hopen]
      · exact .inr (.inl hopen)
    · exact .inl (by simp [Trial.reviews, hrest])
  | left hplace hfull =>
    rw [hplace] at hreviews
    obtain hhere | hrest := Bool.or_eq_true_iff.mp hreviews
    · have hempty := of_decide_eq_true (Bool.and_eq_true_iff.mp hhere).2
      rw [isFullyDegraded_empty hempty] at hfull
      cases hfull
    · exact .inl hrest
  | freed hplace =>
    rw [hplace] at hreviews
    obtain hhere | hrest := Bool.or_eq_true_iff.mp hreviews
    · exact .inl (Bool.or_eq_true_iff.mpr (.inl (Bool.and_eq_true_iff.mp hhere).1))
    · exact .inl (Bool.or_eq_true_iff.mpr (.inr hrest))
  | resumed hplace =>
    rw [hplace] at hreviews
    obtain hhere | hrest := Bool.or_eq_true_iff.mp hreviews
    · exact .inr (.inr (.inr (by rw [of_decide_eq_true hhere])))
    · exact .inl hrest
  | passed hplace hdegraded =>
    rw [hplace] at hreviews
    obtain hhere | hrest := Bool.or_eq_true_iff.mp hreviews
    · exact .inr (.inr (.inl (by rw [← of_decide_eq_true hhere, hdegraded])))
    · exact .inl hrest
  | told hplace =>
    rw [hplace] at hreviews
    exact .inl hreviews

theorem pendings_apply (e : Effect) (owner : Option String) (name : String) :
    (p.apply e).pendings owner name =
      match e with
      | .schedule sid other =>
          p.pendings owner name + if p.owner sid = owner ∧ other = name then 1 else 0
      | _ => p.pendings owner name := by
  rw [pendings, trials_apply]
  cases e with
  | schedule sid other =>
    change (p.trials ++ [_]).countP _ = _
    rw [List.countP_append, List.countP_singleton, pendings]
    simp [Trial.isFor, Trial.pending]
  | _ => rfl

theorem reviewed_apply (e : Effect) (sid : String) : (p.apply e).reviewed sid = p.reviewed sid := by
  rw [reviewed, trials_apply]
  cases e with
  | schedule t name =>
    change (p.trials ++ [_]).any _ = _
    rw [List.any_append]
    exact Bool.or_false _
  | _ => rfl

theorem owner_apply (e : Effect) (sid : String) : (p.apply e).owner sid = p.owner sid := by
  rw [owner, owner, (p.configured_apply e).sessionRouters]

theorem routerFor_apply (e : Effect) (sid : String) : (p.apply e).routerFor sid = p.routerFor sid := by
  rw [routerFor, routerFor, (p.configured_apply e).sessionRouters, (p.configured_apply e).router]

/-- A timely block keeps what is recoverable. The thread that makes it may have closed
a circuit, it owes the trial of a circuit that it opens until it schedules it, and it
reviews the sessions that it has to. -/
theorem recoverable_of_timely {p' : Pipeline β} {e : Effect} (hp : p.Recoverable)
    (hcircuits : p'.circuits = (p.apply e).circuits) (hdegraded : p'.degraded = (p.apply e).degraded)
    (howner : p'.owner = p.owner) (hrouter : p'.routerFor = p.routerFor)
    (hpendings : ∀ owner name, p'.pendings owner name ≤ (p.apply e).pendings owner name)
    (hkept : ∀ sid, ∀ name ∈ p'.circuits sid,
      p'.pendings (p.owner sid) name = (p.apply e).pendings (p.owner sid) name)
    (howed : ∀ sid name, p.owed sid name = true → p'.owed sid name = true ∨ e = .schedule sid name)
    (howes : ∀ sid name, e = .openCircuit sid name → p'.owed sid name = true)
    (hreviewed : ∀ sid, p'.degraded sid = true → p'.circuits sid = ∅ →
      p.circuits sid ≠ ∅ ∨ p.reviewed sid = true → p'.reviewed sid = true)
    (htimely : p.timelyEffect e = true) : p'.Recoverable := by
  refine ⟨fun sid name hname => ?_, fun owner name => ?_, fun sid name hname => ?_, fun sid hset => ?_⟩
  · rw [hcircuits] at hname
    rw [hrouter]
    obtain hold | rfl := opened_apply hname
    · exact hp.named sid name hold
    · exact of_decide_eq_true htimely
  · refine (hpendings owner name).trans ?_
    rw [pendings_apply]
    have hold := hp.once owner name
    split
    case h_1 sid other =>
      split
      case isTrue hkey =>
        obtain ⟨rfl, rfl⟩ := hkey
        have hnone : p.pendings (p.owner sid) other = 0 := of_decide_eq_true htimely
        rw [hnone]
      case isFalse => exact hold
    case h_2 => exact hold
  · have hsame := hkept sid name hname
    rw [hcircuits] at hname
    rw [howner]
    obtain hold | hopens := opened_apply hname
    · rw [pendings_apply] at hsame
      obtain howes | hone := hp.tried sid name hold
      · obtain howes | rfl := howed sid name howes
        · exact .inl howes
        · have hnone : p.pendings (p.owner sid) name = 0 := of_decide_eq_true htimely
          rw [hnone] at hsame
          exact .inr (hsame.trans (by simp))
      · refine .inr (hsame.trans ?_)
        split
        case h_1 t other =>
          split
          case isTrue hkey =>
            have hnone : p.pendings (p.owner t) other = 0 := of_decide_eq_true htimely
            rw [hkey.1, hkey.2, hone] at hnone
            cases hnone
          case isFalse => exact hone
        case h_2 => exact hone
    · exact .inl (howes sid name hopens)
  · by_cases hempty : p'.circuits sid = ∅
    · refine .inr (hreviewed sid hset hempty ?_)
      cases hold : p.degraded sid with
      | true => exact hp.isOpen sid hold
      | false =>
        rw [hdegraded] at hset
        obtain rfl | rfl := degrades_apply hold hset
        · simpa [timelyEffect] using htimely
        · simpa [timelyEffect] using htimely
    · exact .inl hempty

/-- A block that is not timely does not. -/
theorem timely_of_recoverable {p' : Pipeline β} {e : Effect} (h : p'.Recoverable)
    (hcircuits : p'.circuits = (p.apply e).circuits) (hdegraded : p'.degraded = (p.apply e).degraded)
    (hrouter : p'.routerFor = p.routerFor) (htrials : p'.trials = (p.apply e).trials) :
    p.timelyEffect e = true := by
  have hreviewed : ∀ sid, p'.reviewed sid = p.reviewed sid := fun sid => by
    rw [← p.reviewed_apply e, reviewed, reviewed, htrials]
  have hdegrades : ∀ sid, (p.apply e).degraded sid = true → (p.apply e).circuits sid = p.circuits sid →
      (p.circuits sid ≠ ∅ || p.reviewed sid) = true := fun sid hset hsame => by
    rw [← hdegraded] at hset
    rw [← hcircuits] at hsame
    have hopen := h.isOpen sid hset
    rw [hsame, hreviewed] at hopen
    simpa using hopen
  cases e with
  | openCircuit sid name =>
    have hopen : name ∈ p'.circuits sid := by
      rw [hcircuits, circuits_apply]
      simp
    have hnamed := h.named sid name hopen
    rw [hrouter] at hnamed
    exact decide_eq_true hnamed
  | schedule sid name =>
    have hone := h.once (p.owner sid) name
    rw [pendings, htrials, ← pendings, pendings_apply] at hone
    simp only [and_self, if_true] at hone
    exact decide_eq_true (by omega)
  | degrade sid => exact hdegrades sid (by simp [degraded_apply]) (by rw [circuits_apply])
  | mark sid => exact hdegrades sid (by simp [degraded_apply]) (by rw [circuits_apply])
  | _ => rfl

theorem recoverable_work [DecidableEq β] (hp : p.Recoverable) {k : Nat} {w w' : Worker β}
    (hw : p.workers[k]? = some w) {budgetExceeded : Bool} {answer : Attempt} {e : Effect}
    (h : Works hash p w budgetExceeded answer e w') :
    ((p.apply e).setWorker k w').Recoverable ↔ p.timelyEffect e = true := by
  obtain ⟨hk, -⟩ := List.getElem?_eq_some_iff.mp hw
  have hworkers : ((p.apply e).setWorker k w').workers = p.workers.set k w' := by
    rw [setWorker, (p.configured_apply e).workers]
  have howner := funext (p.owner_apply e)
  have hrouter := funext (p.routerFor_apply e)
  constructor
  · exact fun hnext => timely_of_recoverable hnext rfl rfl hrouter rfl
  · refine fun htimely => recoverable_of_timely hp rfl rfl howner hrouter (fun _ _ => le_rfl)
      (fun _ _ _ => rfl) (fun sid name howed => ?_) (fun sid name hopens => ?_)
      (fun sid hset hempty hbefore => ?_)
      htimely
    · obtain ⟨v, hv, howes⟩ := List.any_eq_true.mp howed
      obtain ⟨n, hn⟩ := List.mem_iff_getElem?.mp hv
      by_cases hsame : n = k
      · subst hsame
        obtain rfl : w = v := Option.some.inj (hw.symm.trans hn)
        exact .inr (schedules_works h howes)
      · refine .inl (List.any_eq_true.mpr ⟨v, ?_, howes⟩)
        rw [hworkers]
        exact List.mem_of_getElem? ((List.getElem?_set_ne (Ne.symm hsame)).trans hn)
    · refine List.any_eq_true.mpr ⟨w', ?_, (owes_works_iff h sid name).mpr hopens⟩
      rw [hworkers]
      exact List.mem_set hk w'
    · refine (p.reviewed_apply e sid).trans (hbefore.resolve_left fun hopen => ?_)
      obtain rfl | ⟨_, _, -, rfl, -⟩ := emptied_apply hopen hempty
      · cases h
      · cases h

theorem known_of_open {sid name : String} (hopen : name ∈ p.circuits sid) :
    sid ∈ p.known ∧ name ∈ (p.states sid).openCircuits := by
  rw [circuits, Pipeline.state, state?] at hopen
  split at hopen
  case isTrue hknown => exact ⟨hknown, hopen⟩
  case isFalse => exact absurd hopen (Finset.notMem_empty name)

theorem owner_eq_none {sid : String} (h : p.owner sid = none) : p.sessionRouters sid = none := by
  rw [owner] at h
  split at h
  · cases h
  case isFalse hnone => exact Option.not_isSome_iff_eq_none.mp hnone

theorem owner_eq_some {sid t : String} (h : p.owner sid = some t) :
    sid = t ∧ p.sessionRouters sid ≠ none := by
  rw [owner] at h
  split at h
  case isTrue hsome => exact ⟨Option.some.inj h, Option.ne_none_iff_isSome.mpr hsome⟩
  case isFalse => cases h

theorem concerns_owner (sid : String) : p.Concerns (p.owner sid) sid := by
  cases h : p.owner sid with
  | none => exact owner_eq_none h
  | some t => exact (owner_eq_some h).1

/-- The router of an open circuit is there to be pinged. -/
theorem pinged_of_open {t : Trial β} {sid : String} (hopen : t.name ∈ p.circuits sid)
    (howner : p.owner sid = t.owner) : p.pinged t ≠ none := by
  rw [pinged]
  split
  case h_1 hglobal =>
    obtain ⟨hknown, hcircuit⟩ := known_of_open hopen
    have hnone := owner_eq_none (howner.trans hglobal)
    have hany : p.anyOpen t.name = true :=
      List.any_eq_true.mpr ⟨sid, hknown, by simp [hnone, hcircuit]⟩
    rw [if_pos hany]
    exact Option.some_ne_none _
  case h_2 s hown =>
    obtain ⟨rfl, hrouter⟩ := owner_eq_some (howner.trans hown)
    rwa [if_pos hopen]

/-- A trial that closes a circuit of a degraded session reviews the session. -/
theorem mem_toReview {t : Trial β} {sid : String} (hopen : t.name ∈ p.circuits sid)
    (hdegraded : p.degraded sid = true) (hconcerns : p.Concerns t.owner sid) : sid ∈ p.toReview t := by
  obtain ⟨hknown, hcircuit⟩ := known_of_open hopen
  rw [toReview]
  split
  case h_1 hglobal =>
    rw [hglobal] at hconcerns
    have hnone : p.sessionRouters sid = none := hconcerns
    have hset : (p.states sid).degraded = true := by
      rw [degraded, Pipeline.state, state?, if_pos hknown] at hdegraded
      exact hdegraded
    exact List.mem_filter.mpr ⟨hknown, by simp [hnone, hcircuit, hset]⟩
  case h_2 s hown =>
    rw [hown] at hconcerns
    exact List.mem_singleton.mpr hconcerns

theorem isFor_iff {t : Trial β} {owner : Option String} {name : String} :
    t.isFor owner name = true ↔ t.owner = owner ∧ t.name = name ∧ t.pending = true := by
  simp [Trial.isFor, and_assoc]

theorem recoverable_try (hp : p.Recoverable) {k : Nat} {t t' : Trial β} (ht : p.trials[k]? = some t)
    {alive : Bool} {e : Effect} (h : Tries p t alive e t') : ((p.apply e).setTrial k t').Recoverable := by
  obtain ⟨hk, -⟩ := List.getElem?_eq_some_iff.mp ht
  obtain ⟨⟨howner, hname⟩, hstays, hends⟩ := pending_tries h
  have happly := trials_tries h
  have htrials : ((p.apply e).setTrial k t').trials = p.trials.set k t' := by
    rw [setTrial, happly]
  have hcount : ∀ owner name, ((p.apply e).setTrial k t').pendings owner name +
      (t.isFor owner name).toNat = p.pendings owner name + (t'.isFor owner name).toNat := fun owner name => by
    rw [pendings, htrials]
    exact countP_set ht t' _
  have hsame : ∀ owner name, (p.apply e).pendings owner name = p.pendings owner name := fun owner name => by
    rw [pendings, happly, pendings]
  refine recoverable_of_timely hp rfl rfl (funext (p.owner_apply e)) (funext (p.routerFor_apply e))
    (fun owner name => ?_) (fun sid name hopen => ?_) (fun sid name howed => ?_) (fun sid name hopens => ?_)
    (fun sid hset hempty hbefore => ?_) (by cases h <;> rfl)
  · have hfor : (t'.isFor owner name).toNat ≤ (t.isFor owner name).toNat := by
      refine Bool.toNat_le_toNat fun hnew => ?_
      obtain ⟨ho, hn, hpending⟩ := isFor_iff.mp hnew
      exact isFor_iff.mpr ⟨howner ▸ ho, hname ▸ hn, hstays hpending⟩
    have := hcount owner name
    rw [hsame]
    omega
  · have hold : name ∈ p.circuits sid := (opened_apply hopen).resolve_right fun hopens => by
      rw [hopens] at h
      cases h
    have hfor : t'.isFor (p.owner sid) name = t.isFor (p.owner sid) name := by
      refine Bool.eq_iff_iff.mpr (isFor_iff.trans (Iff.trans ?_ isFor_iff.symm))
      rw [howner, hname]
      refine and_congr_right fun ho => and_congr_right fun hn => ⟨hstays, fun hpending => ?_⟩
      obtain hpending | hnone | hcloses := hends hpending
      · exact hpending
      · exact absurd hnone (pinged_of_open (hn ▸ hold) ho.symm)
      · have hclosed : name ∉ (p.apply e).circuits sid := by
          rw [hcloses, circuits_apply, hn, ho]
          dsimp only
          rw [if_pos (concerns_owner sid)]
          exact Finset.notMem_erase name _
        exact absurd hopen hclosed
    have := hcount (p.owner sid) name
    rw [hsame]
    rw [hfor] at this
    omega
  · refine .inl ?_
    rw [owed] at howed ⊢
    change (p.apply e).workers.any _ = true
    rw [(p.configured_apply e).workers]
    exact howed
  · rw [hopens] at h
    cases h
  · have hbefore' : p.degraded sid = true := by
      by_contra hunset
      obtain rfl | rfl := degrades_apply (Bool.eq_false_iff.mpr hunset) hset
      · cases h
      · cases h
    have hmem : t' ∈ ((p.apply e).setTrial k t').trials := by
      rw [htrials]
      exact List.mem_set hk t'
    have hcloses : p.circuits sid ≠ ∅ → ((p.apply e).setTrial k t').reviewed sid = true := fun hne => by
      refine List.any_eq_true.mpr ⟨t', hmem, ?_⟩
      obtain rfl | ⟨owner, name, hold, hcloses, hconcerns⟩ := emptied_apply hne hempty
      · cases h
      · cases h with
        | closed =>
          obtain ⟨rfl, rfl⟩ := Effect.close.inj hcloses
          exact decide_eq_true (mem_toReview hold hbefore' hconcerns)
        | _ => cases hcloses
    obtain hne | hreviewed := hbefore
    · exact hcloses hne
    · obtain ⟨u, hu, hreviews⟩ := List.any_eq_true.mp hreviewed
      obtain ⟨n, hn⟩ := List.mem_iff_getElem?.mp hu
      by_cases hindex : n = k
      · subst hindex
        obtain rfl : t = u := Option.some.inj (ht.symm.trans hn)
        obtain hreviews | hne | hunset | rfl := reviews_tries h hreviews
        · exact List.any_eq_true.mpr ⟨t', hmem, hreviews⟩
        · exact hcloses hne
        · rw [hunset] at hbefore'
          cases hbefore'
        · have hcleared : (p.apply (.resume sid)).degraded sid = false := by simp [degraded_apply]
          exact absurd (hcleared.symm.trans hset) Bool.false_ne_true
      · refine List.any_eq_true.mpr ⟨u, ?_, hreviews⟩
        rw [htrials]
        exact List.mem_of_getElem? ((List.getElem?_set_ne (Ne.symm hindex)).trans hn)

theorem recoverable_config (hp : p.Recoverable) (sid primary : String) (primaryBackend : β)
    (fallback : String) (fallbackBackend : β) :
    (p.setSessionConfig sid primary primaryBackend fallback fallbackBackend).Recoverable ↔
      p.timelyConfig (.setSessionConfig sid primary primaryBackend fallback fallbackBackend) = true := by
  rw [setSessionConfig, timelyConfig]
  split
  case isTrue hempty => simp [hempty, hp]
  case isFalse hprimary =>
    generalize sessionRouter primary primaryBackend fallback fallbackBackend = router
    have hrouters : ∀ t, update p.sessionRouters sid (some router) t =
        if t = sid then some router else p.sessionRouters t := Function.update_apply _ _ _
    rw [decide_eq_false hprimary, Bool.false_or, decide_eq_true_eq]
    constructor
    · intro h name hname
      have hnamed := h.named sid name hname
      have htried := h.tried sid name hname
      simp only [routerFor, owner, hrouters, if_true, Option.getD_some, Option.isSome_some] at hnamed htried
      exact ⟨hnamed, htried⟩
    · intro h
      refine ⟨fun t name hname => ?_, hp.once, fun t name hname => ?_, hp.isOpen⟩
      · by_cases hsid : t = sid
        · subst hsid
          simp only [routerFor, hrouters, if_true, Option.getD_some]
          exact (h name hname).1
        · simp only [routerFor, hrouters, if_neg hsid]
          exact hp.named t name hname
      · by_cases hsid : t = sid
        · subst hsid
          simp only [owner, hrouters, if_true, Option.isSome_some]
          exact (h name hname).2
        · simp only [owner, hrouters, if_neg hsid]
          exact hp.tried t name hname

/-- The blocks that are no thread's. -/
theorem recoverable_apply (hp : p.Recoverable) {e : Effect}
    (he : ∃ sid, e = .make sid ∨ e = .mark sid ∨ e = .pop sid) :
    (p.apply e).Recoverable ↔ p.timelyEffect e = true := by
  have howner := funext (p.owner_apply e)
  have hrouter := funext (p.routerFor_apply e)
  constructor
  · exact fun hnext => timely_of_recoverable hnext rfl rfl hrouter rfl
  · refine recoverable_of_timely hp rfl rfl howner hrouter (fun _ _ => le_rfl) (fun _ _ _ => rfl)
      (fun sid name howed => .inl ?_) (fun sid name hopens => ?_) (fun sid hset hempty hbefore => ?_)
    · rw [owed, (p.configured_apply e).workers]
      exact howed
    · obtain ⟨t, rfl | rfl | rfl⟩ := he <;> cases hopens
    · rw [reviewed_apply]
      refine hbefore.resolve_left fun hopen => ?_
      obtain rfl | ⟨_, _, -, rfl, -⟩ := emptied_apply hopen hempty
      · exact absurd hset (by simp [degraded_apply])
      · obtain ⟨t, h | h | h⟩ := he <;> cases h

/-- A step is timely. -/
def Timely [DecidableEq β] (hash : String → Int) (p : Pipeline β) (i : Act β) : Prop :=
  p.timelyEffect (p.effect hash i) = true ∧ p.timelyConfig i = true

instance [DecidableEq β] (p : Pipeline β) (i : Act β) : Decidable (Timely hash p i) :=
  inferInstanceAs (Decidable (_ ∧ _))

theorem recoverable_submit (hp : p.Recoverable) (sid : String) (stepId : Nat) :
    (p.submit sid stepId).Recoverable := by
  have hmake : (p.apply (.make sid)).Recoverable := (recoverable_apply hp ⟨sid, .inl rfl⟩).mpr rfl
  rw [submit]
  split
  · exact hp
  dsimp only
  split
  · exact hmake
  · refine ⟨hmake.named, hmake.once, fun t name hname => ?_, hmake.isOpen⟩
    refine (hmake.tried t name hname).imp_left fun howed => ?_
    obtain ⟨w, hw, howes⟩ := List.any_eq_true.mp howed
    exact List.any_eq_true.mpr ⟨w, List.mem_append_left _ hw, howes⟩

theorem recoverable_step [DecidableEq β] (p : Pipeline β) (i : Act β) (hp : p.Recoverable) :
    (p.step hash i).Recoverable ↔ Timely hash p i := by
  cases i with
  | setSessionProvider sid name =>
    refine iff_of_true ?_ ⟨rfl, rfl⟩
    rw [step, setSessionProvider]
    split
    · exact hp
    · exact ⟨hp.named, hp.once, hp.tried, hp.isOpen⟩
  | setSessionConfig sid primary primaryBackend fallback fallbackBackend =>
    exact (recoverable_config hp sid primary primaryBackend fallback fallbackBackend).trans
      (and_iff_right rfl).symm
  | submit sid stepId =>
    refine iff_of_true (recoverable_submit hp sid stepId) ⟨?_, rfl⟩
    rw [effect]
    split <;> rfl
  | work k budgetExceeded answer =>
    refine Iff.trans ?_ (and_iff_left rfl).symm
    rw [step, effect]
    split
    case h_1 w hw =>
      rw [hw]
      exact recoverable_work hp hw (works_workerStep hash p w budgetExceeded answer)
    case h_2 hw =>
      rw [hw]
      exact iff_of_true hp rfl
  | trial k alive =>
    refine Iff.trans ?_ (and_iff_left rfl).symm
    rw [step, effect]
    split
    case h_1 t ht =>
      have htries := tries_trialStep p t alive
      rw [ht]
      refine iff_of_true (recoverable_try hp ht htries) ?_
      rw [Option.elim_some]
      generalize (p.trialStep t alive).1 = e at htries
      generalize (p.trialStep t alive).2 = t' at htries
      cases htries <;> rfl
    case h_2 ht =>
      rw [ht]
      exact iff_of_true hp rfl
  | markSessionDegraded sid =>
    exact (recoverable_apply hp ⟨sid, .inr (.inl rfl)⟩).trans (and_iff_left rfl).symm
  | resetSession sid =>
    exact (recoverable_apply hp ⟨sid, .inr (.inr rfl)⟩).trans (and_iff_left rfl).symm

theorem recoverable_start (router : ModelRouter β) (sessionRouters : String → Option (ModelRouter β))
    (sessionProviders : String → Option String) (threshold maxRetries : Nat) :
    (start router sessionRouters sessionProviders threshold maxRetries).Recoverable where
  named _ name hname := absurd hname (Finset.notMem_empty name)
  once _ _ := Nat.zero_le 1
  tried _ name hname := absurd hname (Finset.notMem_empty name)
  isOpen _ hset := by cases hset

/-- In every run, the open circuits can recover in every state reached exactly if
every step is timely. -/
theorem recoverable_iff_timely [DecidableEq β] (hash : String → Int) (router : ModelRouter β)
    (sessionRouters : String → Option (ModelRouter β)) (sessionProviders : String → Option String)
    (threshold maxRetries : Nat) (acts : List (Act β)) :
    Along (Pipeline.step hash) (fun _ _ p' => p'.Recoverable)
        (start router sessionRouters sessionProviders threshold maxRetries) acts ↔
      Guarded (Pipeline.step hash) (Timely hash)
        (start router sessionRouters sessionProviders threshold maxRetries) acts :=
  along_iff_guarded recoverable_step _ acts
    (recoverable_start router sessionRouters sessionProviders threshold maxRetries)

/-- What a trial pings has a backend under its name. -/
theorem byName_pinged (hp : p.Recoverable) {t : Trial β} {router : ModelRouter β}
    (h : p.pinged t = some router) : ∃ e, router.byName t.name = some e := by
  refine ModelRouter.byName_of_mem ?_
  rw [pinged] at h
  split at h
  case h_1 =>
    split at h
    case isTrue hany =>
      obtain ⟨sid, hknown, hopen⟩ := List.any_eq_true.mp hany
      obtain ⟨hnone, hcircuit⟩ := Bool.and_eq_true_iff.mp hopen
      have hmem : t.name ∈ p.circuits sid := by
        rw [circuits, Pipeline.state, state?, if_pos hknown]
        exact of_decide_eq_true hcircuit
      have hnamed := hp.named sid t.name hmem
      rw [routerFor, Option.isNone_iff_eq_none.mp hnone] at hnamed
      exact Option.some.inj h ▸ hnamed
    case isFalse => cases h
  case h_2 sid _ =>
    split at h
    case isTrue hmem =>
      have hnamed := hp.named sid t.name hmem
      rw [routerFor, h] at hnamed
      exact hnamed
    case isFalse => cases h

section Return

variable [DecidableEq β] (hash : String → Int)

/-- The trial comes to an end if its pings are answered. -/
def Ends (p : Pipeline β) (k : Nat) : Prop :=
  ∃ n, ∃ t ∈ (run (Pipeline.step hash) p (List.replicate n (.trial k true))).trials[k]?, t.place = .ended

variable {k : Nat}

theorem step_trial {t : Trial β} (ht : p.trials[k]? = some t) (alive : Bool) :
    p.step hash (.trial k alive) =
      (p.apply (p.trialStep t alive).1).setTrial k (p.trialStep t alive).2 := by
  rw [step, ht]

/-- After its next block the trial is at its next place. -/
theorem trials_step {t : Trial β} (ht : p.trials[k]? = some t) :
    (p.step hash (.trial k true)).trials[k]? = some (p.trialStep t true).2 := by
  obtain ⟨hk, -⟩ := List.getElem?_eq_some_iff.mp ht
  rw [step_trial hash ht, setTrial, trials_tries (tries_trialStep p t true)]
  exact List.getElem?_set_self hk

variable {hash}

theorem ends_of_step {t : Trial β} (ht : p.trials[k]? = some t)
    (h : ∀ p' : Pipeline β, p'.trials[k]? = some (p.trialStep t true).2 → Ends hash p' k) :
    Ends hash p k := by
  obtain ⟨n, hends⟩ := h (p.step hash (.trial k true)) (trials_step hash ht)
  exact ⟨n + 1, hends⟩

/-- The rest of the sessions, after one that the trial looks at. -/
def EndsAfter (hash : String → Int) (β : Type) [DecidableEq β] (k : Nat) (rest : List String) : Prop :=
  ∀ (p : Pipeline β) t, p.trials[k]? = some t → t.place = .reviewing rest → Ends hash p k

theorem ends_resetting {t : Trial β} (ht : p.trials[k]? = some t) {sid : String} {rest : List String}
    (hplace : t.place = .resetting sid rest) (hrest : EndsAfter hash β k rest) : Ends hash p k := by
  refine ends_of_step ht fun p₁ h₁ => ?_
  rw [trialStep, hplace] at h₁
  exact hrest p₁ _ h₁ rfl

theorem ends_resuming {t : Trial β} (ht : p.trials[k]? = some t) {sid : String} {rest : List String}
    (hplace : t.place = .resuming sid rest) (hrest : EndsAfter hash β k rest) : Ends hash p k := by
  refine ends_of_step ht fun p₁ h₁ => ?_
  rw [trialStep, hplace] at h₁
  dsimp only at h₁
  split at h₁
  · exact ends_resetting h₁ rfl hrest
  · exact hrest p₁ _ h₁ rfl

theorem ends_judging {t : Trial β} (ht : p.trials[k]? = some t) {sid : String}
    {circuits : Option (Finset String)} {rest : List String} (hplace : t.place = .judging sid circuits rest)
    (hrest : EndsAfter hash β k rest) : Ends hash p k := by
  refine ends_of_step ht fun p₁ h₁ => ?_
  rw [trialStep, hplace] at h₁
  dsimp only at h₁
  split at h₁
  · exact hrest p₁ _ h₁ rfl
  · exact ends_resuming h₁ rfl hrest

theorem ends_reviewing (sids : List String) : EndsAfter hash β k sids := by
  induction sids with
  | nil =>
    refine fun p t ht hplace => ends_of_step ht fun p₁ h₁ => ?_
    rw [trialStep, hplace] at h₁
    exact ⟨0, _, h₁, rfl⟩
  | cons sid rest ih =>
    refine fun p t ht hplace => ends_of_step ht fun p₁ h₁ => ?_
    rw [trialStep, hplace] at h₁
    exact ends_judging h₁ rfl ih

theorem ends_closing {t : Trial β} (ht : p.trials[k]? = some t) {backend : β}
    (hplace : t.place = .closing backend) : Ends hash p k := by
  refine ends_of_step ht fun p₁ h₁ => ?_
  rw [trialStep, hplace] at h₁
  exact ends_reviewing _ p₁ _ h₁ rfl

theorem ends_sleeping (hp : p.Recoverable) {t : Trial β} (ht : p.trials[k]? = some t)
    (hplace : t.place = .sleeping) : Ends hash p k := by
  refine ends_of_step ht fun p₁ h₁ => ?_
  rw [trialStep, hplace] at h₁
  dsimp only at h₁
  cases hrouter : p.pinged t with
  | none =>
    rw [hrouter] at h₁
    exact ⟨0, _, h₁, rfl⟩
  | some router =>
    obtain ⟨e, hentry⟩ := byName_pinged hp hrouter
    rw [hrouter, Option.elim_some] at h₁
    refine ends_of_step h₁ fun p₂ h₂ => ?_
    rw [trialStep] at h₂
    dsimp only at h₂
    rw [hentry] at h₂
    exact ends_closing h₂ rfl

theorem recoverable_trial (hp : p.Recoverable) (k : Nat) : (p.step hash (.trial k true)).Recoverable := by
  rw [step]
  split
  case h_1 t ht => exact recoverable_try hp ht (tries_trialStep p t true)
  case h_2 => exact hp

/-- A trial whose router has lost the backend sleeps once more. -/
theorem ends_pinging (hp : p.Recoverable) {t : Trial β} (ht : p.trials[k]? = some t)
    {router : ModelRouter β} (hplace : t.place = .pinging router) : Ends hash p k := by
  have h₁ := trials_step hash ht
  rw [trialStep, hplace] at h₁
  dsimp only at h₁
  have hnext : Ends hash (p.step hash (.trial k true)) k := by
    cases hentry : router.byName t.name with
    | none =>
      rw [hentry] at h₁
      exact ends_sleeping (recoverable_trial hp k) h₁ rfl
    | some e =>
      rw [hentry] at h₁
      exact ends_closing h₁ rfl
  obtain ⟨n, hends⟩ := hnext
  exact ⟨n + 1, hends⟩

theorem ends_trial (hp : p.Recoverable) {t : Trial β} (ht : p.trials[k]? = some t) : Ends hash p k := by
  cases hplace : t.place with
  | sleeping => exact ends_sleeping hp ht hplace
  | pinging router => exact ends_pinging hp ht hplace
  | closing => exact ends_closing ht hplace
  | reviewing sids => exact ends_reviewing sids p t ht hplace
  | judging sid circuits rest => exact ends_judging ht hplace (ends_reviewing rest)
  | resuming sid rest => exact ends_resuming ht hplace (ends_reviewing rest)
  | resetting sid rest => exact ends_resetting ht hplace (ends_reviewing rest)
  | ended => exact ⟨0, t, ht, hplace⟩

/-- What the blocks of one trial leave as it was. -/
structure TrialFrame (k : Nat) (p p' : Pipeline β) : Prop where
  workers : p'.workers = p.workers
  length : p'.trials.length = p.trials.length
  recoverable : p.Recoverable → p'.Recoverable
  others : ∀ j ≠ k, p'.trials[j]? = p.trials[j]?

variable (hash) in
theorem trialFrame_step (p : Pipeline β) (k : Nat) : TrialFrame k p (p.step hash (.trial k true)) := by
  have hthreads : (p.step hash (.trial k true)).workers = p.workers ∧
      ((p.step hash (.trial k true)).trials = p.trials ∨
        ∃ t', (p.step hash (.trial k true)).trials = p.trials.set k t') := by
    cases ht : p.trials[k]? with
    | none =>
      rw [step, ht]
      exact ⟨rfl, .inl rfl⟩
    | some t =>
      rw [step_trial hash ht]
      refine ⟨(p.configured_apply _).workers, .inr ⟨(p.trialStep t true).2, ?_⟩⟩
      rw [setTrial, trials_tries (tries_trialStep p t true)]
  obtain ⟨hworkers, htrials⟩ := hthreads
  refine ⟨hworkers, ?_, fun hp => recoverable_trial hp k, fun j hj => ?_⟩
  · obtain htrials | ⟨t', htrials⟩ := htrials
    · rw [htrials]
    · rw [htrials, List.length_set]
  · obtain htrials | ⟨t', htrials⟩ := htrials
    · rw [htrials]
    · rw [htrials, List.getElem?_set_ne (Ne.symm hj)]

variable (hash) in
theorem trialFrame_run (n : Nat) (p : Pipeline β) (k : Nat) :
    TrialFrame k p (run (Pipeline.step hash) p (List.replicate n (.trial k true))) := by
  induction n generalizing p with
  | zero => exact ⟨rfl, rfl, id, fun _ _ => rfl⟩
  | succ n ih =>
    obtain ⟨hworkers, hlength, hrecoverable, hothers⟩ := trialFrame_step hash p k
    have hrest := ih (p.step hash (.trial k true))
    exact ⟨hrest.workers.trans hworkers, hrest.length.trans hlength,
      fun hp => hrest.recoverable (hrecoverable hp), fun j hj => (hrest.others j hj).trans (hothers j hj)⟩

variable (hash) in
/-- One trial after the other comes to an end. -/
theorem ends_first (hp : p.Recoverable) (m : Nat) (hm : m ≤ p.trials.length) :
    ∃ acts : List (Act β), (∀ i ∈ acts, ∃ k, i = .trial k true) ∧
      let p' := run (Pipeline.step hash) p acts
      p'.Recoverable ∧ p'.workers = p.workers ∧ p'.trials.length = p.trials.length ∧
        ∀ j < m, ∃ t ∈ p'.trials[j]?, t.place = .ended := by
  induction m with
  | zero =>
    exact ⟨[], fun _ hi => absurd hi List.not_mem_nil, hp, rfl, rfl,
      fun j hj => absurd hj (Nat.not_lt_zero j)⟩
  | succ m ih =>
    obtain ⟨acts, hacts, hrecoverable, hworkers, hlength, hended⟩ := ih (Nat.le_of_succ_le hm)
    generalize hq : run (Pipeline.step hash) p acts = q at hrecoverable hworkers hlength hended
    have hlt : m < q.trials.length := by omega
    obtain ⟨n, t, ht, hplace⟩ : Ends hash q m := ends_trial hrecoverable (List.getElem?_eq_getElem hlt)
    have hframe := trialFrame_run hash n q m
    refine ⟨acts ++ List.replicate n (.trial m true), fun i hi => ?_, ?_⟩
    · obtain hi | hi := List.mem_append.mp hi
      · exact hacts i hi
      · exact ⟨m, List.eq_of_mem_replicate hi⟩
    · rw [run_append, hq]
      refine ⟨hframe.recoverable hrecoverable, hframe.workers.trans hworkers, hframe.length.trans hlength,
        fun j hj => ?_⟩
      obtain rfl | hne := eq_or_ne j m
      · exact ⟨t, ht, hplace⟩
      · rw [hframe.others j hne]
        exact hended j (by omega)

/-- Where the open circuits can recover and no worker is about to schedule a trial, all
circuits are closed and no session is degraded once the trials have found their
backends alive. -/
theorem all_return (hp : p.Recoverable) (howed : ∀ sid name, p.owed sid name = false) :
    ∃ acts : List (Act β), (∀ i ∈ acts, ∃ k, i = .trial k true) ∧
      ∀ sid, (run (Pipeline.step hash) p acts).circuits sid = ∅ ∧
        (run (Pipeline.step hash) p acts).degraded sid = false := by
  obtain ⟨acts, hacts, hrecoverable, hworkers, hlength, hended⟩ :=
    ends_first hash hp p.trials.length le_rfl
  refine ⟨acts, hacts, fun sid => ?_⟩
  generalize run (Pipeline.step hash) p acts = q at hrecoverable hworkers hlength hended ⊢
  have hplace : ∀ t ∈ q.trials, t.place = .ended := fun t ht => by
    obtain ⟨j, hj⟩ := List.mem_iff_getElem?.mp ht
    obtain ⟨hlt, -⟩ := List.getElem?_eq_some_iff.mp hj
    obtain ⟨t', ht', hplace⟩ := hended j (by omega)
    obtain rfl : t = t' := Option.some.inj (hj.symm.trans ht')
    exact hplace
  have hnone : ∀ name, name ∉ q.circuits sid := fun name hname => by
    obtain howes | hone := hrecoverable.tried sid name hname
    · rw [owed, hworkers, ← owed, howed] at howes
      cases howes
    · have hzero : q.pendings (q.owner sid) name = 0 := by
        refine List.countP_eq_zero.mpr fun t ht hfor => ?_
        have hpending := (isFor_iff.mp hfor).2.2
        rw [Trial.pending, hplace t ht] at hpending
        cases hpending
      rw [hzero] at hone
      cases hone
  have hempty := Finset.eq_empty_iff_forall_notMem.mpr hnone
  refine ⟨hempty, Bool.eq_false_iff.mpr fun hset => ?_⟩
  obtain hopen | hreviewed := hrecoverable.isOpen sid hset
  · exact hopen hempty
  · obtain ⟨t, ht, hreviews⟩ := List.any_eq_true.mp hreviewed
    rw [Trial.reviews, hplace t ht] at hreviews
    cases hreviews

end Return

/-- One step of a session fails, up to the last block of its callback. -/
def oneFailure : List (Act Nat) :=
  .submit "s" 1 :: List.replicate 13 (.work 0 false (.failed .nonRetryable))

/-- The callback schedules the trial of the circuit that it has opened for the second
time. -/
theorem scheduled_twice :
    ¬ Along (Pipeline.step fun _ => 0) (fun _ _ p' => p'.Recoverable)
      (start openaiPool (fun _ => none) (fun _ => some "openai") 1 1)
      (oneFailure ++ [.work 0 false .success]) := by
  rw [along_append]
  rintro ⟨-, hlast, -⟩
  have htwo : ((run (Pipeline.step fun _ => 0)
      (start openaiPool (fun _ => none) (fun _ => some "openai") 1 1) oneFailure).step (fun _ => 0)
        (.work 0 false .success)).pendings none "openai" = 2 := by
    decide +kernel
  have hone := hlast.once none "openai"
  rw [htwo] at hone
  exact absurd hone (by decide)

end Pipeline

end MemoryArchive.Model.Breaker
