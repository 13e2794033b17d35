import Mathlib.Data.List.Basic
import Mathlib.Data.String.Basic
import MemoryArchive.Data.Table
import MemoryArchive.Json.Number

namespace MemoryArchive

/-- JSON values. An object keeps its members in text order, duplicates
included, so that each reader can apply its own rule for them. -/
inductive Json
  | null
  | bool (b : Bool)
  | num (n : Json.Number)
  | str (s : String)
  | arr (items : List Json)
  | obj (fields : List (String × Json))

namespace Json

abbrev Fields := List (String × Json)

def get? (key : String) : Json → Option Json
  | .obj fields => fields.lookup key
  | _ => none

mutual

/-- Put every object of a value together again member by member, as a parser
does that inserts each member into its map. -/
def rebuild (put : String → Json → Fields → Fields) : Json → Json
  | .arr items => .arr (rebuildItems put items)
  | .obj fields => .obj (rebuildFields put [] fields)
  | .null => .null
  | .bool b => .bool b
  | .num n => .num n
  | .str s => .str s

def rebuildItems (put : String → Json → Fields → Fields) : List Json → List Json
  | [] => []
  | j :: items => rebuild put j :: rebuildItems put items

def rebuildFields (put : String → Json → Fields → Fields) (acc : Fields) : Fields → Fields
  | [] => acc
  | (k, v) :: fields => rebuildFields put (put k (rebuild put v) acc) fields

end

/-- A map in insertion order: a repeated key keeps its first place and its
last value. -/
def putDict (k : String) (v : Json) : Fields → Fields
  | [] => [(k, v)]
  | (k', v') :: fields => if k = k' then (k, v) :: fields else (k', v') :: putDict k v fields

/-- A map in key order: a repeated key keeps its last value. -/
def putSorted (k : String) (v : Json) (fields : Fields) : Fields := insertRow k v fields

mutual

def Keyed (ok : List String → Prop) : Json → Prop
  | .arr items => KeyedItems ok items
  | .obj fields => ok (fields.map Prod.fst) ∧ KeyedFields ok fields
  | _ => True

def KeyedItems (ok : List String → Prop) : List Json → Prop
  | [] => True
  | j :: items => Keyed ok j ∧ KeyedItems ok items

def KeyedFields (ok : List String → Prop) : Fields → Prop
  | [] => True
  | (_, v) :: fields => Keyed ok v ∧ KeyedFields ok fields

end

/-- No object in the value names a member twice. -/
abbrev Distinct (j : Json) : Prop := Keyed List.Nodup j

/-- Every object in the value lists its members in strictly ascending order. -/
abbrev Sorted (j : Json) : Prop := Keyed (List.Pairwise (· < ·)) j

theorem putDict_of_not_mem (k : String) (v : Json) (fields : Fields)
    (hk : k ∉ fields.map Prod.fst) : putDict k v fields = fields ++ [(k, v)] := by
  induction fields with
  | nil => rfl
  | cons f fields ih =>
    obtain ⟨k', v'⟩ := f
    simp only [List.map_cons, List.mem_cons, not_or] at hk
    simp [putDict, hk.1, ih hk.2]

section Rebuild

variable (put : String → Json → Fields → Fields) (ok : List String → Prop)

/-- A put that appends each member of an acceptable key list leaves every
value with acceptable key lists as it is. -/
def Appends : Prop :=
  ∀ k v (fields : Fields) (rest : List String),
    ok (fields.map Prod.fst ++ k :: rest) → put k v fields = fields ++ [(k, v)]

mutual

theorem rebuild_eq_self (hput : Appends put ok) : ∀ j : Json, Keyed ok j → rebuild put j = j
  | .arr items, h => by
      simp only [Keyed] at h
      simp [rebuild, rebuildItems_eq_self hput items h]
  | .obj fields, h => by
      simp only [Keyed] at h
      simp [rebuild, rebuildFields_eq_append hput fields [] h.1 h.2]
  | .null, _ | .bool _, _ | .num _, _ | .str _, _ => by simp [rebuild]

theorem rebuildItems_eq_self (hput : Appends put ok) :
    ∀ items : List Json, KeyedItems ok items → rebuildItems put items = items
  | [], _ => by simp [rebuildItems]
  | j :: items, h => by
      simp only [KeyedItems] at h
      simp [rebuildItems, rebuild_eq_self hput j h.1, rebuildItems_eq_self hput items h.2]

theorem rebuildFields_eq_append (hput : Appends put ok) :
    ∀ (fields acc : Fields), ok (acc.map Prod.fst ++ fields.map Prod.fst) →
      KeyedFields ok fields → rebuildFields put acc fields = acc ++ fields
  | [], acc, _, _ => by simp [rebuildFields]
  | (k, v) :: fields, acc, hok, h => by
      simp only [KeyedFields] at h
      have hp : put k v acc = acc ++ [(k, v)] := hput k v acc (fields.map Prod.fst) hok
      have hok' : ok ((acc ++ [(k, v)]).map Prod.fst ++ fields.map Prod.fst) := by simpa using hok
      rw [rebuildFields, rebuild_eq_self hput v h.1, hp,
        rebuildFields_eq_append hput fields _ hok' h.2]
      simp

end

/-- A put that keeps the key list acceptable makes every value acceptable. -/
def Keeps : Prop :=
  ∀ k v (fields : Fields), ok (fields.map Prod.fst) → KeyedFields ok fields → Keyed ok v →
    ok ((put k v fields).map Prod.fst) ∧ KeyedFields ok (put k v fields)

mutual

theorem keyed_rebuild (hnil : ok []) (hput : Keeps put ok) : ∀ j : Json, Keyed ok (rebuild put j)
  | .arr items => by simpa [rebuild, Keyed] using keyed_rebuildItems hnil hput items
  | .obj fields => by
      simpa [rebuild, Keyed] using keyed_rebuildFields hnil hput fields [] hnil trivial
  | .null | .bool _ | .num _ | .str _ => by simp [rebuild, Keyed]

theorem keyed_rebuildItems (hnil : ok []) (hput : Keeps put ok) :
    ∀ items : List Json, KeyedItems ok (rebuildItems put items)
  | [] => by simp [rebuildItems, KeyedItems]
  | j :: items => by
      simpa [rebuildItems, KeyedItems] using
        ⟨keyed_rebuild hnil hput j, keyed_rebuildItems hnil hput items⟩

theorem keyed_rebuildFields (hnil : ok []) (hput : Keeps put ok) :
    ∀ fields acc : Fields, ok (acc.map Prod.fst) → KeyedFields ok acc →
      ok ((rebuildFields put acc fields).map Prod.fst) ∧
        KeyedFields ok (rebuildFields put acc fields)
  | [], acc, hok, h => by simpa [rebuildFields] using ⟨hok, h⟩
  | (k, v) :: fields, acc, hok, h => by
      obtain ⟨hok', h'⟩ := hput k (rebuild put v) acc hok h (keyed_rebuild hnil hput v)
      simpa [rebuildFields] using keyed_rebuildFields hnil hput fields _ hok' h'

end

end Rebuild

theorem keeps_putSorted : Keeps putSorted (List.Pairwise (· < ·)) := by
  intro k v fields hok h hv
  refine ⟨pairwise_insertRow k v fields hok, ?_⟩
  clear hok
  induction fields with
  | nil => exact ⟨hv, trivial⟩
  | cons f fields ih =>
    obtain ⟨k', v'⟩ := f
    simp only [KeyedFields] at h
    simp only [putSorted, insertRow]
    split
    · exact ⟨hv, h.2⟩
    · split
      · exact ⟨hv, h⟩
      · exact ⟨h.1, ih h.2⟩

theorem sorted_rebuild (j : Json) : Sorted (rebuild putSorted j) :=
  keyed_rebuild putSorted (List.Pairwise (· < ·)) .nil keeps_putSorted j

mutual

theorem Keyed.mono {ok ok' : List String → Prop} (h : ∀ ks, ok ks → ok' ks) :
    ∀ j : Json, Keyed ok j → Keyed ok' j
  | .arr items, hj => by
      simp only [Keyed] at hj ⊢
      exact KeyedItems.mono h items hj
  | .obj fields, hj => by
      simp only [Keyed] at hj ⊢
      exact ⟨h _ hj.1, KeyedFields.mono h fields hj.2⟩
  | .null, _ | .bool _, _ | .num _, _ | .str _, _ => by simp [Keyed]

theorem KeyedItems.mono {ok ok' : List String → Prop} (h : ∀ ks, ok ks → ok' ks) :
    ∀ items : List Json, KeyedItems ok items → KeyedItems ok' items
  | [], _ => trivial
  | j :: items, hj => ⟨Keyed.mono h j hj.1, KeyedItems.mono h items hj.2⟩

theorem KeyedFields.mono {ok ok' : List String → Prop} (h : ∀ ks, ok ks → ok' ks) :
    ∀ fields : Fields, KeyedFields ok fields → KeyedFields ok' fields
  | [], _ => trivial
  | (_, v) :: fields, hj => ⟨Keyed.mono h v hj.1, KeyedFields.mono h fields hj.2⟩

end

theorem Sorted.distinct {j : Json} (h : Sorted j) : Distinct j :=
  Keyed.mono (fun _ hks => hks.imp ne_of_lt) j h

theorem appends_putDict : Appends putDict List.Nodup := by
  intro k v fields rest h
  refine putDict_of_not_mem k v fields fun hk => ?_
  exact (List.nodup_append.mp h).2.2 k hk k (by simp) rfl

theorem keys_putDict (k : String) (v : Json) (fields : Fields) :
    ((putDict k v fields).map Prod.fst).Nodup ↔ (fields.map Prod.fst).Nodup := by
  by_cases hk : k ∈ fields.map Prod.fst
  · have hsame : (putDict k v fields).map Prod.fst = fields.map Prod.fst := by
      induction fields with
      | nil => cases hk
      | cons f fields ih =>
        obtain ⟨k', v'⟩ := f
        rw [putDict]
        split
        · rename_i heq
          rw [List.map_cons, List.map_cons, heq]
        · rename_i hne
          rw [List.map_cons, List.map_cons, ih ((List.mem_cons.mp hk).resolve_left hne)]
    rw [hsame]
  · rw [putDict_of_not_mem k v fields hk, List.map_append, List.nodup_append]
    refine ⟨fun h => h.1, fun h => ⟨h, by simp, fun a ha b hb => ?_⟩⟩
    obtain rfl : b = k := by simpa using hb
    exact fun heq => hk (heq ▸ ha)

theorem keyedFields_putDict {ok : List String → Prop} (k : String) {v : Json} {fields : Fields}
    (hv : Keyed ok v) (h : KeyedFields ok fields) : KeyedFields ok (putDict k v fields) := by
  induction fields with
  | nil => exact ⟨hv, trivial⟩
  | cons f fields ih =>
    rw [putDict]
    split
    · exact ⟨hv, h.2⟩
    · exact ⟨h.1, ih h.2⟩

theorem distinct_putDict (k : String) {v : Json} {fields : Fields} (hv : Distinct v)
    (h : Distinct (.obj fields)) : Distinct (.obj (putDict k v fields)) :=
  ⟨(keys_putDict k v fields).mpr h.1, keyedFields_putDict k hv h.2⟩

theorem lookup_putDict (k : String) (v : Json) (fields : Fields) (key : String) :
    (putDict k v fields).lookup key = if key = k then some v else fields.lookup key := by
  induction fields with
  | nil => exact Table.lookup_cons_ite k key v []
  | cons f fields ih =>
    obtain ⟨k', v'⟩ := f
    rw [putDict]
    split
    · rename_i heq
      rw [Table.lookup_cons_ite, Table.lookup_cons_ite, heq]
      split <;> rfl
    · rename_i hne
      rw [Table.lookup_cons_ite, Table.lookup_cons_ite, ih]
      by_cases hkey : key = k'
      · rw [if_pos hkey, if_pos hkey, if_neg (hkey ▸ Ne.symm hne)]
      · rw [if_neg hkey, if_neg hkey]

theorem appends_putSorted : Appends putSorted (List.Pairwise (· < ·)) := by
  intro k v fields rest h
  refine insertRow_of_lt k v fields fun k' hk' => ?_
  exact (List.pairwise_append.mp h).2.2 k' hk' k (by simp)

theorem lookup_rebuildFields {acc : Fields} (hacc : (acc.map Prod.fst).Pairwise (· < ·)) {key : String}
    {fields : Fields} (hkey : key ∉ fields.map Prod.fst) :
    (rebuildFields putSorted acc fields).lookup key = acc.lookup key := by
  induction fields generalizing acc with
  | nil => rw [rebuildFields]
  | cons f fields ih =>
    obtain ⟨k, v⟩ := f
    rw [List.map_cons, List.mem_cons, not_or] at hkey
    have hsorted := pairwise_insertRow k (rebuild putSorted v) acc hacc
    rw [rebuildFields, putSorted, ih hsorted hkey.2, Table.lookup_insertRow k _ acc key hacc, if_neg hkey.1]

/-- A sorted map that is put together from members with distinct keys gives
each key the member's value. -/
theorem lookup_rebuildFields_distinct {fields acc : Fields} (hacc : (acc.map Prod.fst).Pairwise (· < ·))
    (h : (fields.map Prod.fst).Nodup) (key : String) :
    (rebuildFields putSorted acc fields).lookup key =
      ((fields.lookup key).map (rebuild putSorted)).or (acc.lookup key) := by
  induction fields generalizing acc with
  | nil => rw [rebuildFields, List.lookup_nil, Option.map_none, Option.none_or]
  | cons f fields ih =>
    obtain ⟨k, v⟩ := f
    obtain ⟨hk, hrest⟩ := List.nodup_cons.mp h
    have hsorted := pairwise_insertRow k (rebuild putSorted v) acc hacc
    rw [rebuildFields, putSorted, ih hsorted hrest, Table.lookup_cons_ite,
      Table.lookup_insertRow k _ acc key hacc]
    by_cases hkey : key = k
    · have hnone : fields.lookup key = none :=
        List.lookup_eq_none_iff.mpr fun r hr => bne_iff_ne.mpr fun heq =>
          hk (hkey ▸ heq ▸ List.mem_map.mpr ⟨r, hr, rfl⟩)
      rw [if_pos hkey, if_pos hkey, hnone]
      rfl
    · rw [if_neg hkey, if_neg hkey]

theorem rebuild_putDict (j : Json) (h : Distinct j) : rebuild putDict j = j :=
  rebuild_eq_self putDict List.Nodup appends_putDict j h

theorem rebuild_putSorted (j : Json) (h : Sorted j) : rebuild putSorted j = j :=
  rebuild_eq_self putSorted (List.Pairwise (· < ·)) appends_putSorted j h

end Json
end MemoryArchive
