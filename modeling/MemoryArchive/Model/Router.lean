import Mathlib.Data.Finset.Insert
import Mathlib.Data.List.Sort

namespace MemoryArchive.Model

inductive RoutingPolicy
  | pinned
  | fallback
  | loadBalance
  deriving DecidableEq

/-- A backend of the pool. The backends themselves are compared by identity. -/
structure BackendEntry (β : Type) where
  name : String
  backend : β
  priority : Int

structure ModelRouter (β : Type) where
  entries : List (BackendEntry β)
  policy : RoutingPolicy
  nonempty : entries ≠ []

theorem openai_ne_nil : [(⟨"openai", 0, 1⟩ : BackendEntry Nat)] ≠ [] := List.cons_ne_nil _ _

def RoutingPolicy.parse : String → Option RoutingPolicy
  | "pinned" => some .pinned
  | "fallback" => some .fallback
  | "load_balance" => some .loadBalance
  | _ => none

variable {β : Type}

namespace ModelRouter

/-- The constructor. `repr` is how Python quotes a text. -/
def create (repr : String → String) (entries : List (BackendEntry β)) (policy : String) :
    Except String (ModelRouter β) :=
  if h : entries = [] then .error "ModelRouter requires at least one backend entry"
  else
    match RoutingPolicy.parse policy with
    | none =>
        .error (s!"Unknown routing_policy {repr policy}. " ++
          "Expected: 'pinned', 'fallback', or 'load_balance'.")
    | some policy => .ok ⟨entries, policy, h⟩

variable (r : ModelRouter β)

/-- The dictionary of the entries. Of two with one name it keeps the last. -/
def byName (name : String) : Option (BackendEntry β) :=
  r.entries.reverse.find? (·.name = name)

/-- The names by ascending priority and then by name. -/
def priorityOrder : List String :=
  (r.entries.insertionSort fun a b =>
    a.priority < b.priority ∨ a.priority = b.priority ∧ a.name ≤ b.name).map BackendEntry.name

def resolvePinned (hint : String) (circuits : Finset String) : Option β :=
  match (r.byName hint).or (r.priorityOrder.head?.bind r.byName) with
  | none => none
  | some e => if e.name ∈ circuits then none else some e.backend

def fallbackOrder (hint : String) : List String :=
  (if hint ≠ "" ∧ (r.byName hint).isSome then [hint] else []) ++ r.priorityOrder.filter (· ≠ hint)

def resolveFallback (hint : String) (circuits : Finset String) : Option β :=
  ((r.fallbackOrder hint).filter (· ∉ circuits)).findSome? fun name =>
    (r.byName name).map BackendEntry.backend

/-- `hash` is Python's hash of a text. -/
def resolveLb (hash : String → Int) (sid : String) (circuits : Finset String) : Option β :=
  let available := r.entries.filter (·.name ∉ circuits)
  available[(hash sid).natAbs % available.length]?.map BackendEntry.backend

/-- The backend for the next step of a session, given the open circuits. -/
def resolve (hash : String → Int) (sid hint : String) (circuits : Finset String) : Option β :=
  match r.policy with
  | .pinned => r.resolvePinned hint circuits
  | .fallback => r.resolveFallback hint circuits
  | .loadBalance => r.resolveLb hash sid circuits

def entryNameFor [DecidableEq β] (backend : β) : String :=
  (r.entries.find? (·.backend = backend)).elim "" BackendEntry.name

/-- The names of the pool. -/
def names : List String := r.entries.map BackendEntry.name

/-- The name that comes first in the order of priorities. -/
def firstName : String := r.priorityOrder.headD ""

theorem mem_priorityOrder {name : String} : name ∈ r.priorityOrder ↔ name ∈ r.names := by
  simp only [priorityOrder, names, List.mem_map, List.mem_insertionSort]

theorem priorityOrder_eq_cons : ∃ rest, r.priorityOrder = r.firstName :: rest := by
  cases horder : r.priorityOrder with
  | nil =>
    obtain ⟨e, es, he⟩ := List.exists_cons_of_ne_nil r.nonempty
    have hmem : e.name ∈ r.priorityOrder := by
      rw [mem_priorityOrder, names, he]
      exact List.mem_cons_self
    rw [horder] at hmem
    cases hmem
  | cons name rest =>
    refine ⟨rest, ?_⟩
    rw [firstName, horder]
    rfl

theorem firstName_mem : r.firstName ∈ r.names := by
  obtain ⟨rest, h⟩ := r.priorityOrder_eq_cons
  rw [← mem_priorityOrder, h]
  exact List.mem_cons_self

variable {r}

theorem byName_eq_some {name : String} {e : BackendEntry β} (h : r.byName name = some e) :
    e ∈ r.entries ∧ e.name = name := by
  have hmem := List.mem_of_find?_eq_some h
  have hname := List.find?_some h
  exact ⟨List.mem_reverse.mp hmem, of_decide_eq_true hname⟩

theorem byName_of_mem {name : String} (h : name ∈ r.names) : ∃ e, r.byName name = some e := by
  obtain ⟨e, he, hname⟩ := List.mem_map.mp h
  cases hfind : r.byName name with
  | some e' => exact ⟨e', rfl⟩
  | none =>
    have hno := List.find?_eq_none.mp hfind e (List.mem_reverse.mpr he)
    exact absurd (decide_eq_true hname) hno

theorem byName_isSome {name : String} : (r.byName name).isSome = true ↔ name ∈ r.names := by
  constructor
  · intro h
    obtain ⟨e, he⟩ := Option.isSome_iff_exists.mp h
    obtain ⟨hmem, hname⟩ := byName_eq_some he
    exact List.mem_map.mpr ⟨e, hmem, hname⟩
  · intro h
    obtain ⟨e, he⟩ := byName_of_mem h
    rw [he]
    rfl

/-- The pool has an entry for the hint, or the first entry is taken. -/
theorem resolvePinned_eq_none (hint : String) (circuits : Finset String) :
    r.resolvePinned hint circuits = none ↔
      (if hint ∈ r.names then hint else r.firstName) ∈ circuits := by
  have hpick : ∀ name e, r.byName name = some e →
      ((if e.name ∈ circuits then none else some e.backend) = none ↔ name ∈ circuits) := by
    intro name e he
    rw [(byName_eq_some he).2]
    split
    · rename_i h
      exact iff_of_true rfl h
    · rename_i h
      exact iff_of_false (by simp) h
  rw [resolvePinned]
  split
  · rename_i hnone
    obtain ⟨hhint, hfirst⟩ := Option.or_eq_none_iff.mp hnone
    obtain ⟨rest, horder⟩ := r.priorityOrder_eq_cons
    obtain ⟨e, he⟩ := byName_of_mem r.firstName_mem
    rw [horder] at hfirst
    rw [List.head?_cons, Option.bind_some, he] at hfirst
    cases hfirst
  · rename_i e he
    by_cases hmem : hint ∈ r.names
    · obtain ⟨e', he'⟩ := byName_of_mem hmem
      rw [he', Option.some_or] at he
      cases he
      rw [if_pos hmem]
      exact hpick hint e he'
    · have hhint : r.byName hint = none := by
        cases hb : r.byName hint with
        | none => rfl
        | some e' => exact absurd (byName_isSome.mp (by rw [hb]; rfl)) hmem
      obtain ⟨rest, horder⟩ := r.priorityOrder_eq_cons
      rw [hhint, Option.none_or, horder, List.head?_cons, Option.bind_some] at he
      rw [if_neg hmem]
      exact hpick r.firstName e he

theorem mem_fallbackOrder {hint name : String} :
    name ∈ r.fallbackOrder hint ↔ name ∈ r.names ∧ (name = hint → hint ≠ "") := by
  rw [fallbackOrder, List.mem_append, List.mem_filter, decide_eq_true_eq, mem_priorityOrder]
  constructor
  · rintro (h | ⟨hmem, hne⟩)
    · split at h
      · rename_i hhint
        obtain rfl := List.mem_singleton.mp h
        exact ⟨byName_isSome.mp hhint.2, fun _ => hhint.1⟩
      · cases h
    · exact ⟨hmem, fun he => absurd he hne⟩
  · rintro ⟨hmem, hhint⟩
    by_cases he : name = hint
    · subst he
      rw [if_pos ⟨hhint rfl, byName_isSome.mpr hmem⟩]
      exact .inl (List.mem_singleton_self name)
    · exact .inr ⟨hmem, he⟩

theorem resolveFallback_eq_none (hint : String) (circuits : Finset String) :
    r.resolveFallback hint circuits = none ↔ ∀ name ∈ r.fallbackOrder hint, name ∈ circuits := by
  rw [resolveFallback, List.findSome?_eq_none_iff]
  constructor
  · intro h name hmem
    by_contra hclosed
    obtain ⟨e, he⟩ := byName_of_mem (mem_fallbackOrder.mp hmem).1
    have hnone := h name (List.mem_filter.mpr ⟨hmem, decide_eq_true hclosed⟩)
    rw [he] at hnone
    cases hnone
  · intro h name hmem
    obtain ⟨horder, hclosed⟩ := List.mem_filter.mp hmem
    exact absurd (h name horder) (of_decide_eq_true hclosed)

theorem resolveLb_eq_none (hash : String → Int) (sid : String) (circuits : Finset String) :
    r.resolveLb hash sid circuits = none ↔ ∀ name ∈ r.names, name ∈ circuits := by
  rw [resolveLb, Option.map_eq_none_iff, List.getElem?_eq_none_iff]
  constructor
  · intro h name hmem
    obtain ⟨e, he, rfl⟩ := List.mem_map.mp hmem
    by_contra hclosed
    have havailable : e ∈ r.entries.filter (·.name ∉ circuits) :=
      List.mem_filter.mpr ⟨he, decide_eq_true hclosed⟩
    have hlt := Nat.mod_lt (hash sid).natAbs (List.length_pos_of_mem havailable)
    omega
  · intro h
    have hnil : r.entries.filter (·.name ∉ circuits) = [] := by
      rw [List.filter_eq_nil_iff]
      intro e he hclosed
      exact of_decide_eq_true hclosed (h e.name (List.mem_map_of_mem he))
    rw [hnil]
    exact Nat.zero_le _

end ModelRouter

end MemoryArchive.Model
