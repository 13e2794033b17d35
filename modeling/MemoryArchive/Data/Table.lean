import Mathlib.Data.List.Basic
import Mathlib.Data.List.Induction
import Mathlib.Data.List.Nodup
import Mathlib.Order.Basic
import Mathlib.Order.Defs.LinearOrder
import Mathlib.Order.Lattice

namespace MemoryArchive

variable {κ α β : Type*} [LinearOrder κ]

/-- Insert a row at its place in key order; a row that is there already gets
the new value. -/
def insertRow (k : κ) (v : α) : List (κ × α) → List (κ × α)
  | [] => [(k, v)]
  | (k', v') :: rows =>
      if k = k' then (k, v) :: rows
      else if k < k' then (k, v) :: (k', v') :: rows
      else (k', v') :: insertRow k v rows

theorem insertRow_of_lt (k : κ) (v : α) (rows : List (κ × α))
    (hk : ∀ k' ∈ rows.map Prod.fst, k' < k) : insertRow k v rows = rows ++ [(k, v)] := by
  induction rows with
  | nil => rfl
  | cons r rows ih =>
    obtain ⟨k', v'⟩ := r
    have hlt : k' < k := hk k' (by simp)
    have hrest : ∀ k'' ∈ rows.map Prod.fst, k'' < k :=
      fun k'' h => hk k'' (List.mem_cons_of_mem k' h)
    rw [insertRow, if_neg hlt.ne', if_neg hlt.not_gt, ih hrest]
    rfl

theorem mem_insertRow (k : κ) (v : α) (rows : List (κ × α)) (k' : κ)
    (h : k' ∈ (insertRow k v rows).map Prod.fst) : k' = k ∨ k' ∈ rows.map Prod.fst := by
  induction rows with
  | nil => simpa [insertRow] using h
  | cons r rows ih =>
    obtain ⟨k₁, v₁⟩ := r
    simp only [insertRow] at h
    split at h
    · simp only [List.map_cons, List.mem_cons] at h ⊢
      tauto
    · split at h
      · simp only [List.map_cons, List.mem_cons] at h ⊢
        tauto
      · simp only [List.map_cons, List.mem_cons] at h ⊢
        obtain h | h := h
        · exact .inr (.inl h)
        · exact (ih h).imp_right .inr

theorem pairwise_insertRow (k : κ) (v : α) (rows : List (κ × α))
    (h : (rows.map Prod.fst).Pairwise (· < ·)) :
    ((insertRow k v rows).map Prod.fst).Pairwise (· < ·) := by
  induction rows with
  | nil => simp [insertRow]
  | cons r rows ih =>
    obtain ⟨k', v'⟩ := r
    simp only [List.map_cons, List.pairwise_cons] at h
    simp only [insertRow]
    split
    · rename_i heq
      subst heq
      exact List.pairwise_cons.mpr h
    · split
      · rename_i hlt
        refine List.pairwise_cons.mpr ⟨fun k'' hk'' => ?_, List.pairwise_cons.mpr h⟩
        obtain rfl | hmem := List.mem_cons.mp hk''
        · exact hlt
        · exact hlt.trans (h.1 k'' hmem)
      · rename_i hne hnlt
        have hgt : k' < k := lt_of_le_of_ne (not_lt.mp hnlt) (Ne.symm hne)
        refine List.pairwise_cons.mpr ⟨fun k'' hk'' => ?_, ih h.2⟩
        obtain rfl | hmem := mem_insertRow k v rows k'' hk''
        · exact hgt
        · exact h.1 k'' hmem

/-- The value that the rows last give a key. -/
def lastFor (rows : List (κ × α)) (k : κ) : Option α := ((rows.filter (·.1 = k)).map Prod.snd).getLast?

theorem lastFor_append (rows rows' : List (κ × α)) (k : κ) :
    lastFor (rows ++ rows') k = (lastFor rows' k).or (lastFor rows k) := by
  rw [lastFor, List.filter_append, List.map_append, List.getLast?_append]
  rfl

theorem mem_of_lastFor {rows : List (κ × α)} {k : κ} {v : α} (h : lastFor rows k = some v) :
    (k, v) ∈ rows := by
  obtain ⟨r, hr, rfl⟩ := List.mem_map.mp (List.mem_of_getLast? h)
  obtain ⟨hmem, hk⟩ := List.mem_filter.mp hr
  rw [← of_decide_eq_true hk]
  exact hmem

theorem lastFor_eq_none {rows : List (κ × α)} {k : κ} :
    lastFor rows k = none ↔ k ∉ rows.map Prod.fst := by
  rw [lastFor, List.getLast?_eq_none_iff, List.map_eq_nil_iff, List.filter_eq_nil_iff, List.mem_map]
  constructor
  · rintro h ⟨r, hr, hk⟩
    exact h r hr (decide_eq_true hk)
  · intro h r hr hk
    exact h ⟨r, hr, of_decide_eq_true hk⟩

/-- A key is looked up among the rows that are kept when it is kept itself. -/
theorem lookup_filter {γ : Type*} [BEq γ] [LawfulBEq γ] (keep : γ → Bool) {k : γ} (h : keep k = true)
    (rows : List (γ × α)) : (rows.filter fun r => keep r.1).lookup k = rows.lookup k := by
  induction rows with
  | nil => rfl
  | cons r rows ih =>
    cases hr : keep r.1 with
    | true => rw [List.filter_cons_of_pos (p := fun r : γ × α => keep r.1) hr, List.lookup_cons, List.lookup_cons, ih]
    | false =>
      have hne : (k == r.1) = false := by
        refine beq_eq_false_iff_ne.mpr ?_
        rintro rfl
        rw [h] at hr
        cases hr
      rw [List.filter_cons_of_neg (p := fun r : γ × α => keep r.1) (ne_true_of_eq_false hr), ih, List.lookup_cons, hne]

/-- A finite map as the list of its rows in key order. -/
structure Table (κ α : Type*) [LinearOrder κ] where
  rows : List (κ × α)
  sorted : (rows.map Prod.fst).Pairwise (· < ·)

namespace Table

def empty : Table κ α := ⟨[], .nil⟩

def insert (t : Table κ α) (k : κ) (v : α) : Table κ α :=
  ⟨insertRow k v t.rows, pairwise_insertRow k v t.rows t.sorted⟩

def get? (t : Table κ α) (k : κ) : Option α := t.rows.lookup k

def ofRows (rows : List (κ × α)) : Table κ α := rows.foldl (fun t r => t.insert r.1 r.2) empty

def values (t : Table κ α) : List α := t.rows.map Prod.snd

def mapValues (f : α → β) (t : Table κ α) : Table κ β :=
  ⟨t.rows.map fun r => (r.1, f r.2), by simpa [Function.comp_def] using t.sorted⟩

@[ext] theorem ext {t u : Table κ α} (h : t.rows = u.rows) : t = u := by
  cases t; cases u; cases h; rfl

theorem lookup_cons_ite (k k' : κ) (v : α) (rows : List (κ × α)) :
    List.lookup k' ((k, v) :: rows) = if k' = k then some v else rows.lookup k' := by
  by_cases h : k' = k
  · simp [h]
  · simp [List.lookup_cons, beq_eq_false_iff_ne.mpr h, h]

theorem lookup_insertRow (k : κ) (v : α) (rows : List (κ × α)) (k' : κ)
    (h : (rows.map Prod.fst).Pairwise (· < ·)) :
    (insertRow k v rows).lookup k' = if k' = k then some v else rows.lookup k' := by
  induction rows with
  | nil => by_cases hk : k' = k <;> simp [insertRow, lookup_cons_ite, hk]
  | cons r rows ih =>
    obtain ⟨k₁, v₁⟩ := r
    simp only [List.map_cons, List.pairwise_cons] at h
    simp only [insertRow]
    split
    · rename_i heq
      subst heq
      by_cases hk : k' = k <;> simp [lookup_cons_ite, hk]
    · split
      · by_cases hk : k' = k <;> simp [lookup_cons_ite, hk]
      · rename_i hne _
        by_cases hk₁ : k' = k₁
        · subst hk₁
          simp [Ne.symm hne]
        · simp [lookup_cons_ite, hk₁, ih h.2]

theorem get?_insert (t : Table κ α) (k : κ) (v : α) (k' : κ) :
    (t.insert k v).get? k' = if k' = k then some v else t.get? k' :=
  lookup_insertRow k v t.rows k' t.sorted

/-- What holds of every row and of a new one holds of every row with the new one. -/
theorem forall_get?_insert {P : κ → α → Prop} {t : Table κ α} (h : ∀ k v, t.get? k = some v → P k v)
    {k : κ} {v : α} (hnew : P k v) : ∀ k' v', (t.insert k v).get? k' = some v' → P k' v' := by
  intro k' v' hget
  rw [get?_insert] at hget
  split at hget
  · rename_i hk
    subst hk
    cases hget
    exact hnew
  · exact h k' v' hget

theorem get?_empty (k : κ) : (empty : Table κ α).get? k = none := rfl

theorem mem_rows_iff (t : Table κ α) (k : κ) (v : α) : (k, v) ∈ t.rows ↔ t.get? k = some v := by
  obtain ⟨rows, hs⟩ := t
  simp only [get?]
  induction rows with
  | nil => simp
  | cons r rows ih =>
    obtain ⟨k₁, v₁⟩ := r
    simp only [List.map_cons, List.pairwise_cons] at hs
    by_cases hk : k = k₁
    · subst hk
      have hn : (k, v) ∉ rows := fun hm => lt_irrefl k (hs.1 k (List.mem_map.mpr ⟨_, hm, rfl⟩))
      simp [hn, eq_comm]
    · simp [lookup_cons_ite, hk, ih hs.2]

/-- The rows of a key are its value, if it has one. -/
theorem filter_rows (t : Table κ α) (k : κ) :
    (t.rows.filter (·.1 = k)).map Prod.snd = (t.get? k).toList := by
  obtain ⟨rows, hs⟩ := t
  simp only [get?]
  induction rows with
  | nil => rfl
  | cons r rows ih =>
    obtain ⟨k₁, v₁⟩ := r
    simp only [List.map_cons, List.pairwise_cons] at hs
    by_cases hk : k = k₁
    · subst hk
      have hrest : rows.filter (·.1 = k) = [] := by
        refine List.filter_eq_nil_iff.mpr fun r hr => ?_
        have hlt : k < r.1 := hs.1 r.1 (List.mem_map.mpr ⟨r, hr, rfl⟩)
        simp [hlt.ne']
      simp [hrest]
    · simp [lookup_cons_ite, hk, Ne.symm hk, ih hs.2]

theorem lastFor_rows (t : Table κ α) (k : κ) : lastFor t.rows k = t.get? k := by
  rw [lastFor, filter_rows]
  cases t.get? k <;> rfl

/-- A table is determined by its lookups. -/
theorem ext_get? {t u : Table κ α} (h : ∀ k, t.get? k = u.get? k) : t = u := by
  have hmem : ∀ r, r ∈ t.rows ↔ r ∈ u.rows := fun ⟨k, v⟩ => by rw [mem_rows_iff, mem_rows_iff, h]
  have hsort : ∀ w : Table κ α, w.rows.Pairwise (fun a b => a.1 < b.1) := fun w =>
    List.pairwise_map.mp w.sorted
  have hperm : t.rows.Perm u.rows := by
    refine (List.perm_ext_iff_of_nodup ?_ ?_).mpr hmem
    · exact (hsort t).imp fun hlt he => absurd (congrArg Prod.fst he) hlt.ne
    · exact (hsort u).imp fun hlt he => absurd (congrArg Prod.fst he) hlt.ne
  refine ext (hperm.eq_of_pairwise ?_ (hsort t) (hsort u))
  intro a b _ _ hab hba
  exact absurd (hab.trans hba) (lt_irrefl _)

theorem ofRows_rows (t : Table κ α) : ofRows t.rows = t := by
  have hfold : ∀ (rows : List (κ × α)) (u : Table κ α),
      ((u.rows ++ rows).map Prod.fst).Pairwise (· < ·) →
      (rows.foldl (fun t r => t.insert r.1 r.2) u).rows = u.rows ++ rows := by
    intro rows
    induction rows with
    | nil => intro u _; simp
    | cons r rows ih =>
      intro u hu
      have hlt : ∀ k' ∈ u.rows.map Prod.fst, k' < r.1 := by
        intro k' hk'
        rw [List.map_append] at hu
        exact (List.pairwise_append.mp hu).2.2 k' hk' r.1 (by simp)
      have hins : (u.insert r.1 r.2).rows = u.rows ++ [r] := insertRow_of_lt r.1 r.2 u.rows hlt
      rw [List.foldl_cons, ih _ (by rw [hins]; simpa using hu), hins]
      simp
  exact ext (by simpa [ofRows, empty] using hfold t.rows empty (by simpa [empty] using t.sorted))

theorem ofRows_append (rows : List (κ × α)) (r : κ × α) :
    ofRows (rows ++ [r]) = (ofRows rows).insert r.1 r.2 := by
  simp [ofRows]

theorem get?_ofRows_lastFor (rows : List (κ × α)) (k : κ) : (ofRows rows).get? k = lastFor rows k := by
  induction rows using List.reverseRecOn with
  | nil => rfl
  | append_singleton rows r ih =>
    rw [ofRows_append, get?_insert, lastFor_append, ih]
    by_cases hk : k = r.1
    · simp [lastFor, hk]
    · simp [lastFor, hk, Ne.symm hk]

/-- Rows that are put into a table one after the other. -/
theorem get?_foldl_insert (t : Table κ α) (rows : List (κ × α)) (k : κ) :
    (rows.foldl (fun t r => t.insert r.1 r.2) t).get? k = (lastFor rows k).or (t.get? k) := by
  have hrows : rows.foldl (fun t r => t.insert r.1 r.2) t = ofRows (t.rows ++ rows) := by
    rw [ofRows, List.foldl_append]
    exact congrArg (rows.foldl _) (ofRows_rows t).symm
  rw [hrows, get?_ofRows_lastFor, lastFor_append, lastFor_rows]

/-- Rows with no key twice are looked up as they stand. -/
theorem get?_ofRows (rows : List (κ × α)) (h : (rows.map Prod.fst).Nodup) (k : κ) (v : α) :
    (ofRows rows).get? k = some v ↔ (k, v) ∈ rows := by
  rw [get?_ofRows_lastFor]
  refine ⟨mem_of_lastFor, fun hmem => ?_⟩
  cases hlast : lastFor rows k with
  | none => exact absurd (List.mem_map_of_mem hmem) (lastFor_eq_none.mp hlast)
  | some w =>
    have hsame := List.inj_on_of_nodup_map h hmem (mem_of_lastFor hlast) rfl
    rw [(Prod.mk.inj hsame).2]

/-- Keep the rows that `f` reads, with what it reads them as. -/
def filterMap (f : κ → α → Option β) (t : Table κ α) : Table κ β where
  rows := t.rows.filterMap fun r => (f r.1 r.2).map fun v => (r.1, v)
  sorted := by
    have h := List.pairwise_map.mp t.sorted
    refine List.pairwise_map.mpr ((List.pairwise_filterMap).mpr (h.imp ?_))
    intro a b hab a' ha b' hb
    obtain ⟨_, _, rfl⟩ := Option.map_eq_some_iff.mp ha
    obtain ⟨_, _, rfl⟩ := Option.map_eq_some_iff.mp hb
    exact hab

theorem get?_filterMap (f : κ → α → Option β) (t : Table κ α) (k : κ) :
    (t.filterMap f).get? k = (t.get? k).bind (f k) := by
  obtain ⟨rows, hs⟩ := t
  simp only [get?, filterMap]
  induction rows with
  | nil => rfl
  | cons r rows ih =>
    obtain ⟨k₁, v₁⟩ := r
    simp only [List.map_cons, List.pairwise_cons] at hs
    have hn : k = k₁ → List.lookup k rows = none := by
      rintro rfl
      refine List.lookup_eq_none_iff.mpr fun r hr => ?_
      have hlt : k < r.1 := hs.1 r.1 (List.mem_map.mpr ⟨r, hr, rfl⟩)
      exact bne_iff_ne.mpr hlt.ne
    have ih' := ih hs.2
    by_cases hk : k = k₁
    · subst hk
      rw [hn rfl] at ih'
      cases hf : f k v₁ with
      | none => simp [hf, ih']
      | some w => simp [hf]
    · cases hf : f k₁ v₁ with
      | none => simp [hf, lookup_cons_ite, hk, ih']
      | some w => simp [hf, lookup_cons_ite, hk, ih']

theorem get?_mapValues (f : α → β) (t : Table κ α) (k : κ) :
    (t.mapValues f).get? k = (t.get? k).map f := by
  obtain ⟨rows, hs⟩ := t
  simp only [get?, mapValues]
  clear hs
  induction rows with
  | nil => rfl
  | cons r rows ih =>
    obtain ⟨k₁, v₁⟩ := r
    by_cases hk : k = k₁ <;> simp [lookup_cons_ite, hk, ih]

end Table
end MemoryArchive
