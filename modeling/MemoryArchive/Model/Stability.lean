import Mathlib.Data.Nat.ModEq
import MemoryArchive.Model.Router

namespace MemoryArchive.Model.ModelRouter

variable {β : Type} (r : ModelRouter β) (hash : String → Int) (sid : String)

/-- The entries without an open circuit, in the order of the pool. -/
def available (circuits : Finset String) : List (BackendEntry β) := r.entries.filter (·.name ∉ circuits)

/-- The entry that load balancing takes for a session. -/
def assigned (circuits : Finset String) : Option (BackendEntry β) :=
  (r.available circuits)[(hash sid).natAbs % (r.available circuits).length]?

theorem resolveLb_eq (circuits : Finset String) :
    r.resolveLb hash sid circuits = (r.assigned hash sid circuits).map BackendEntry.backend := rfl

/-- The session keeps its backend when other circuits are open, if the circuit of its own
is still closed. -/
def Stable (circuits circuits' : Finset String) : Prop :=
  ∀ e, r.assigned hash sid circuits = some e → e.name ∉ circuits' →
    r.resolveLb hash sid circuits' = some e.backend

/-- Of the entries that are available now, as many stand in front of the assigned backend
as the hash leaves over. -/
def InStep (circuits circuits' : Finset String) : Prop :=
  ∀ e, r.assigned hash sid circuits = some e → e.name ∉ circuits' →
    ∃ front e' back, r.available circuits' = front ++ e' :: back ∧ e'.backend = e.backend ∧
      (hash sid).natAbs ≡ front.length [MOD (r.available circuits').length]

variable {r hash sid}

theorem mem_available {circuits : Finset String} {e : BackendEntry β} :
    e ∈ r.available circuits ↔ e ∈ r.entries ∧ e.name ∉ circuits := by
  rw [available, List.mem_filter, decide_eq_true_eq]

theorem mem_of_assigned {circuits : Finset String} {e : BackendEntry β}
    (h : r.assigned hash sid circuits = some e) : e ∈ r.entries ∧ e.name ∉ circuits :=
  mem_available.mp (List.mem_of_getElem? h)

/-- An entry stands at an index just if it stands behind so many others. -/
theorem getElem?_iff_front {α : Type} {l : List α} {i : Nat} {a : α} :
    l[i]? = some a ↔ ∃ front back, l = front ++ a :: back ∧ front.length = i := by
  constructor
  · intro h
    obtain ⟨hi, rfl⟩ := List.getElem?_eq_some_iff.mp h
    refine ⟨l.take i, l.drop (i + 1), ?_, List.length_take_of_le (Nat.le_of_lt hi)⟩
    rw [← List.drop_eq_getElem_cons hi, List.take_append_drop]
  · rintro ⟨front, back, rfl, rfl⟩
    rw [List.getElem?_append_right (Nat.le_refl _), Nat.sub_self, List.getElem?_cons_zero]

/-- The entry at the place that the hash leaves over is taken. -/
theorem assigned_eq_some {circuits : Finset String} {e : BackendEntry β} :
    r.assigned hash sid circuits = some e ↔ ∃ front back, r.available circuits = front ++ e :: back ∧
      (hash sid).natAbs ≡ front.length [MOD (r.available circuits).length] := by
  rw [assigned, getElem?_iff_front]
  constructor
  · rintro ⟨front, back, hsplit, hlength⟩
    refine ⟨front, back, hsplit, ?_⟩
    rw [hlength]
    exact (Nat.mod_modEq _ _).symm
  · rintro ⟨front, back, hsplit, hmod⟩
    refine ⟨front, back, hsplit, ?_⟩
    have hlt : front.length < (r.available circuits).length := by
      rw [hsplit, List.length_append, List.length_cons]
      omega
    rw [hmod, Nat.mod_eq_of_lt hlt]

/-- While the circuits of all others are open, an entry is the one that is taken. -/
theorem assigned_only (hnames : r.names.Nodup) {e : BackendEntry β} (he : e ∈ r.entries) :
    ∃ circuits, r.assigned hash sid circuits = some e := by
  obtain ⟨front, back, hsplit⟩ := List.append_of_mem he
  rw [names, hsplit, List.map_append, List.map_cons, List.nodup_middle, List.nodup_cons] at hnames
  let others := (front.map BackendEntry.name ++ back.map BackendEntry.name).toFinset
  have hothers : ∀ e' ∈ front ++ back, e'.name ∈ others := by
    intro e' he'
    rw [List.mem_toFinset, ← List.map_append]
    exact List.mem_map_of_mem he'
  have hfront : front.filter (·.name ∉ others) = [] := List.filter_eq_nil_iff.mpr fun e' he' =>
    fun hopen => of_decide_eq_true hopen (hothers e' (List.mem_append_left back he'))
  have hback : back.filter (·.name ∉ others) = [] := List.filter_eq_nil_iff.mpr fun e' he' =>
    fun hopen => of_decide_eq_true hopen (hothers e' (List.mem_append_right front he'))
  have hself : e.name ∉ others := fun h => hnames.1 (List.mem_toFinset.mp h)
  have honly : r.available others = [e] := by
    rw [available, hsplit, List.filter_append, hfront, List.filter_cons,
      if_pos (decide_eq_true hself), hback]
    rfl
  refine ⟨others, ?_⟩
  rw [assigned, honly, List.length_singleton, Nat.mod_one]
  rfl

/-- No session keeps its backend through all that can happen to the circuits, except in a
pool of one backend. -/
theorem stable_always_iff (hnames : r.names.Nodup) :
    (∀ circuits circuits', r.Stable hash sid circuits circuits') ↔
      ∀ e ∈ r.entries, ∀ e' ∈ r.entries, e.backend = e'.backend := by
  constructor
  · intro h e he e' he'
    obtain ⟨circuits, hassigned⟩ := assigned_only hnames he
    obtain ⟨circuits', hassigned'⟩ := assigned_only hnames he'
    have hclosed := h circuits ∅ e hassigned (Finset.notMem_empty _)
    have hclosed' := h circuits' ∅ e' hassigned' (Finset.notMem_empty _)
    rw [hclosed] at hclosed'
    exact Option.some.inj hclosed'
  · intro h circuits circuits' e hassigned hopen
    have he := (mem_of_assigned hassigned).1
    cases hresolve : r.resolveLb hash sid circuits' with
    | none => exact absurd ((resolveLb_eq_none hash sid circuits').mp hresolve _ (List.mem_map_of_mem he)) hopen
    | some backend =>
      rw [resolveLb_eq, Option.map_eq_some_iff] at hresolve
      obtain ⟨e', hassigned', rfl⟩ := hresolve
      rw [h e he e' (mem_of_assigned hassigned').1]

/-- A session keeps its backend just if the hash still points to its place among the
backends that are available. -/
theorem lb_stable_iff (r : ModelRouter β) (hash : String → Int) (sid : String)
    (circuits circuits' : Finset String) :
    r.Stable hash sid circuits circuits' ↔ r.InStep hash sid circuits circuits' := by
  have hplace : ∀ e : BackendEntry β, r.resolveLb hash sid circuits' = some e.backend ↔
      ∃ front e' back, r.available circuits' = front ++ e' :: back ∧ e'.backend = e.backend ∧
        (hash sid).natAbs ≡ front.length [MOD (r.available circuits').length] := by
    intro e
    rw [resolveLb_eq, Option.map_eq_some_iff]
    constructor
    · rintro ⟨e', hassigned, hbackend⟩
      obtain ⟨front, back, hsplit, hmod⟩ := assigned_eq_some.mp hassigned
      exact ⟨front, e', back, hsplit, hbackend, hmod⟩
    · rintro ⟨front, e', back, hsplit, hbackend, hmod⟩
      exact ⟨e', assigned_eq_some.mpr ⟨front, back, hsplit, hmod⟩, hbackend⟩
  exact forall_congr' fun e => imp_congr_right fun _ => imp_congr_right fun _ => hplace e

def samplePool : ModelRouter String :=
  ⟨[⟨"a", "backend a", 0⟩, ⟨"b", "backend b", 0⟩, ⟨"c", "backend c", 0⟩], .loadBalance, by simp⟩

theorem stable_always_iff_pool :
    (∀ circuits circuits', samplePool.Stable (fun _ => 4) "s1" circuits circuits') ↔
      ∀ e ∈ samplePool.entries, ∀ e' ∈ samplePool.entries, e.backend = e'.backend :=
  stable_always_iff (by decide)

/-- The session is moved from b to a when the circuit of c opens. -/
theorem lb_moves : ¬ samplePool.Stable (fun _ => 4) "s1" ∅ {"c"} := by
  intro h
  have hmoved := h ⟨"b", "backend b", 0⟩ rfl (by decide)
  revert hmoved
  decide +kernel

end MemoryArchive.Model.ModelRouter
