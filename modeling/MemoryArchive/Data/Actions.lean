import Mathlib.Logic.Function.Basic

namespace MemoryArchive.Actions

/-- What came of an action: the states on the way, the last one, and what was raised. -/
structure Outcome (σ ε : Type) where
  seen : List σ
  state : σ
  fault : Option ε

abbrev Action (σ ε : Type) := σ → Outcome σ ε

variable {σ ε : Type}

def pass : Action σ ε := fun s => ⟨[], s, none⟩

def raise (e : ε) : Action σ ε := fun s => ⟨[], s, some e⟩

/-- One change of the state, which is not made where the operation fails. -/
def change (fault : Option ε) (f : σ → σ) : Action σ ε := fun s =>
  match fault with
  | none => ⟨[f s], f s, none⟩
  | some e => ⟨[], s, some e⟩

def andThen (a b : Action σ ε) : Action σ ε := fun s =>
  let r := a s
  match r.fault with
  | none =>
      let t := b r.state
      ⟨r.seen ++ t.seen, t.state, t.fault⟩
  | some _ => r

/-- What is raised goes to a handler. -/
def rescue (a : Action σ ε) (handler : ε → Action σ ε) : Action σ ε := fun s =>
  let r := a s
  match r.fault with
  | none => r
  | some e =>
      let t := handler e r.state
      ⟨r.seen ++ t.seen, t.state, t.fault⟩

/-- The second action follows in any case. -/
def ensuring (a b : Action σ ε) : Action σ ε := fun s =>
  let r := a s
  let t := b r.state
  ⟨r.seen ++ t.seen, t.state, t.fault.or r.fault⟩

/-- A property of states that an action keeps, also on its way. -/
def Keeps (Q : σ → Prop) (a : Action σ ε) : Prop := ∀ s, Q s → (∀ t ∈ (a s).seen, Q t) ∧ Q (a s).state

section Runs

variable {a b : Action σ ε} {s t : σ} {e : ε}

theorem change_ok {fault : Option ε} (h : fault = none) (f : σ → σ) (s : σ) :
    change fault f s = ⟨[f s], f s, none⟩ := by
  rw [h]
  rfl

theorem change_fault {fault : Option ε} (h : fault = some e) (f : σ → σ) (s : σ) :
    change fault f s = ⟨[], s, some e⟩ := by
  rw [h]
  rfl

theorem andThen_fault (h : (a s).fault = some e) : andThen a b s = a s := by
  simp only [andThen, h]

theorem state_andThen (h : (a s).fault = none) : (andThen a b s).state = (b (a s).state).state := by
  simp only [andThen, h]

theorem fault_andThen (h : (a s).fault = none) : (andThen a b s).fault = (b (a s).state).fault := by
  simp only [andThen, h]

theorem change_andThen {fault : Option ε} (h : fault = none) (f : σ → σ) (s : σ) :
    (andThen (change fault f) b s).state = (b (f s)).state ∧
      (andThen (change fault f) b s).fault = (b (f s)).fault := by
  rw [h]
  exact ⟨rfl, rfl⟩

theorem fault_stops {fault : Option ε} (h : fault = some e) (f : σ → σ) (s : σ) :
    andThen (change fault f) b s = ⟨[], s, some e⟩ := by
  rw [h]
  rfl

theorem rescue_ok {handler : ε → Action σ ε} (h : (a s).fault = none) : rescue a handler s = a s := by
  simp only [rescue, h]

theorem state_rescue {handler : ε → Action σ ε} (h : (a s).fault = some e) :
    (rescue a handler s).state = (handler e (a s).state).state := by
  simp only [rescue, h]

/-- A handler that changes nothing can be left out. -/
theorem rescue_quiet {handler : ε → Action σ ε} (h : ∀ e s, (handler e s).state = s) (a : Action σ ε) (s : σ) :
    (rescue a handler s).state = (a s).state := by
  cases hfault : (a s).fault with
  | none => rw [rescue_ok hfault]
  | some e => exact (state_rescue hfault).trans (h e _)

theorem change_stops {fault : Option ε} (h : fault ≠ none) (f : σ → σ) (b : Action σ ε) (s : σ) :
    (andThen (change fault f) b s).state = s := by
  obtain ⟨e, he⟩ := Option.ne_none_iff_exists'.mp h
  rw [fault_stops he]

theorem fault_rescue {handler : ε → Action σ ε} (h : (a s).fault = some e) :
    (rescue a handler s).fault = (handler e (a s).state).fault := by
  simp only [rescue, h]

end Runs

section Keeping

variable {Q : σ → Prop} {a b : Action σ ε}

theorem keeps_pass : Keeps Q (pass : Action σ ε) := fun _ h => ⟨fun _ ht => absurd ht List.not_mem_nil, h⟩

theorem keeps_raise (e : ε) : Keeps Q (raise e : Action σ ε) :=
  fun _ h => ⟨fun _ ht => absurd ht List.not_mem_nil, h⟩

theorem keeps_change {fault : Option ε} {f : σ → σ} (hf : ∀ s, Q s → Q (f s)) : Keeps Q (change fault f) := by
  intro s hs
  cases fault with
  | none => exact ⟨fun t ht => List.mem_singleton.mp ht ▸ hf s hs, hf s hs⟩
  | some e => exact ⟨fun t ht => absurd ht List.not_mem_nil, hs⟩

theorem Keeps.andThen (ha : Keeps Q a) (hb : Keeps Q b) : Keeps Q (andThen a b) := by
  intro s hs
  obtain ⟨hseen, hstate⟩ := ha s hs
  cases hfault : (a s).fault with
  | none =>
    simp only [Actions.andThen, hfault]
    obtain ⟨hseen', hstate'⟩ := hb _ hstate
    exact ⟨fun t ht => (List.mem_append.mp ht).elim (hseen t) (hseen' t), hstate'⟩
  | some e =>
    rw [andThen_fault hfault]
    exact ⟨hseen, hstate⟩

theorem Keeps.rescue {handler : ε → Action σ ε} (ha : Keeps Q a) (hh : ∀ e, Keeps Q (handler e)) :
    Keeps Q (rescue a handler) := by
  intro s hs
  obtain ⟨hseen, hstate⟩ := ha s hs
  cases hfault : (a s).fault with
  | none =>
    rw [rescue_ok hfault]
    exact ⟨hseen, hstate⟩
  | some e =>
    simp only [Actions.rescue, hfault]
    obtain ⟨hseen', hstate'⟩ := hh e _ hstate
    exact ⟨fun t ht => (List.mem_append.mp ht).elim (hseen t) (hseen' t), hstate'⟩

theorem Keeps.ensuring (ha : Keeps Q a) (hb : Keeps Q b) : Keeps Q (ensuring a b) := by
  intro s hs
  obtain ⟨hseen, hstate⟩ := ha s hs
  obtain ⟨hseen', hstate'⟩ := hb _ hstate
  exact ⟨fun t ht => (List.mem_append.mp ht).elim (hseen t) (hseen' t), hstate'⟩

end Keeping

end MemoryArchive.Actions
