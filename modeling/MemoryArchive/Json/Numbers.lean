import Mathlib.Algebra.Order.Field.Rat
import MemoryArchive.Json.Value

namespace MemoryArchive.Json

/-- The number that a literal stands for. -/
def Number.value (n : Number) : Rat :=
  let isMark (c : Char) : Bool := c = 'e' || c = 'E'
  let unsigned := n.literal.dropWhile (· = '-')
  let mantissa := unsigned.takeWhile fun c => !isMark c
  let whole := mantissa.takeWhile (· ≠ '.')
  let fraction := (mantissa.dropWhile (· ≠ '.')).drop 1
  let exponent := (unsigned.dropWhile fun c => !isMark c).drop 1
  let power : Int := digitsValue (exponent.filter Char.isDigit)
  let shift := (if exponent.head? = some '-' then -power else power) - fraction.length
  let magnitude : Rat := digitsValue (whole ++ fraction) * (10 : Rat) ^ shift
  if n.literal.head? = some '-' then -magnitude else magnitude

mutual

/-- The numbers in a value, in text order. -/
def numbers : Json → List Number
  | .num n => [n]
  | .arr items => numbersItems items
  | .obj fields => numbersFields fields
  | .null | .bool _ | .str _ => []

def numbersItems : List Json → List Number
  | [] => []
  | j :: items => numbers j ++ numbersItems items

def numbersFields : Fields → List Number
  | [] => []
  | (_, v) :: fields => numbers v ++ numbersFields fields

end

mutual

def mapNumbers (f : Number → Number) : Json → Json
  | .num n => .num (f n)
  | .arr items => .arr (mapItems f items)
  | .obj fields => .obj (mapFields f fields)
  | .null => .null
  | .bool b => .bool b
  | .str s => .str s

def mapItems (f : Number → Number) : List Json → List Json
  | [] => []
  | j :: items => mapNumbers f j :: mapItems f items

def mapFields (f : Number → Number) : Fields → Fields
  | [] => []
  | (k, v) :: fields => (k, mapNumbers f v) :: mapFields f fields

end

mutual

/-- How deep arrays and objects are nested. -/
def depth : Json → Nat
  | .arr items => depthItems items + 1
  | .obj fields => depthFields fields + 1
  | .null | .bool _ | .num _ | .str _ => 0

def depthItems : List Json → Nat
  | [] => 0
  | j :: items => max (depth j) (depthItems items)

def depthFields : Fields → Nat
  | [] => 0
  | (_, v) :: fields => max (depth v) (depthFields fields)

end

/-- The same value but for how its numbers are written. -/
def SameValues (j j' : Json) : Prop :=
  ∃ f, j' = mapNumbers f j ∧ ∀ n ∈ numbers j, (f n).value = n.value

section Map

variable (f : Number → Number)

mutual

theorem mapNumbers_eq_self : ∀ j : Json, mapNumbers f j = j ↔ ∀ n ∈ numbers j, f n = n
  | .null | .bool _ | .str _ => by simp [mapNumbers, numbers]
  | .num n => by simp [mapNumbers, numbers]
  | .arr items => by simpa [mapNumbers, numbers] using mapItems_eq_self items
  | .obj fields => by simpa [mapNumbers, numbers] using mapFields_eq_self fields

theorem mapItems_eq_self : ∀ items : List Json,
    mapItems f items = items ↔ ∀ n ∈ numbersItems items, f n = n
  | [] => by simp [mapItems, numbersItems]
  | j :: items => by
      rw [mapItems, numbersItems, List.cons.injEq, mapNumbers_eq_self j, mapItems_eq_self items,
        List.forall_mem_append]

theorem mapFields_eq_self : ∀ fields : Fields,
    mapFields f fields = fields ↔ ∀ n ∈ numbersFields fields, f n = n
  | [] => by simp [mapFields, numbersFields]
  | (k, v) :: fields => by
      rw [mapFields, numbersFields, List.cons.injEq, Prod.mk.injEq, mapNumbers_eq_self v,
        mapFields_eq_self fields, List.forall_mem_append]
      simp

end

mutual

theorem numbers_mapNumbers : ∀ j : Json, numbers (mapNumbers f j) = (numbers j).map f
  | .null | .bool _ | .str _ | .num _ => by simp [mapNumbers, numbers]
  | .arr items => by simpa [mapNumbers, numbers] using numbers_mapItems items
  | .obj fields => by simpa [mapNumbers, numbers] using numbers_mapFields fields

theorem numbers_mapItems : ∀ items : List Json,
    numbersItems (mapItems f items) = (numbersItems items).map f
  | [] => by simp [mapItems, numbersItems]
  | j :: items => by
      rw [mapItems, numbersItems, numbersItems, numbers_mapNumbers j, numbers_mapItems items, List.map_append]

theorem numbers_mapFields : ∀ fields : Fields,
    numbersFields (mapFields f fields) = (numbersFields fields).map f
  | [] => by simp [mapFields, numbersFields]
  | (k, v) :: fields => by
      rw [mapFields, numbersFields, numbersFields, numbers_mapNumbers v, numbers_mapFields fields,
        List.map_append]

end

theorem sameValues_mapNumbers (j : Json) :
    SameValues j (mapNumbers f j) ↔ ∀ n ∈ numbers j, (f n).value = n.value := by
  constructor
  · rintro ⟨g, hg, hvalue⟩ n hn
    have hnumbers := congrArg numbers hg
    rw [numbers_mapNumbers, numbers_mapNumbers] at hnumbers
    rw [List.map_inj_left.mp hnumbers n hn]
    exact hvalue n hn
  · intro h
    exact ⟨f, rfl, h⟩

mutual

theorem depth_mapNumbers : ∀ j : Json, depth (mapNumbers f j) = depth j
  | .null | .bool _ | .str _ | .num _ => by simp [mapNumbers, depth]
  | .arr items => by simpa [mapNumbers, depth] using depth_mapItems items
  | .obj fields => by simpa [mapNumbers, depth] using depth_mapFields fields

theorem depth_mapItems : ∀ items : List Json, depthItems (mapItems f items) = depthItems items
  | [] => by simp [mapItems]
  | j :: items => by rw [mapItems, depthItems, depthItems, depth_mapNumbers j, depth_mapItems items]

theorem depth_mapFields : ∀ fields : Fields, depthFields (mapFields f fields) = depthFields fields
  | [] => by simp [mapFields]
  | (k, v) :: fields => by rw [mapFields, depthFields, depthFields, depth_mapNumbers v, depth_mapFields fields]

end

theorem mapFields_putSorted (k : String) (v : Json) (fields : Fields) :
    mapFields f (putSorted k v fields) = putSorted k (mapNumbers f v) (mapFields f fields) := by
  induction fields with
  | nil => rfl
  | cons field fields ih =>
    obtain ⟨k', v'⟩ := field
    simp only [putSorted, insertRow, mapFields] at ih ⊢
    split
    · rfl
    · split
      · rfl
      · rw [mapFields, ih]

mutual

theorem rebuild_mapNumbers : ∀ j : Json,
    rebuild putSorted (mapNumbers f j) = mapNumbers f (rebuild putSorted j)
  | .null | .bool _ | .str _ | .num _ => by simp [mapNumbers, rebuild]
  | .arr items => by simpa [mapNumbers, rebuild] using rebuild_mapItems items
  | .obj fields => by
      have hfields := rebuild_mapFields fields []
      rw [mapFields] at hfields
      rw [mapNumbers, rebuild, rebuild, mapNumbers, hfields]

theorem rebuild_mapItems : ∀ items : List Json,
    rebuildItems putSorted (mapItems f items) = mapItems f (rebuildItems putSorted items)
  | [] => by simp [mapItems, rebuildItems]
  | j :: items => by
      rw [mapItems, rebuildItems, rebuildItems, mapItems, rebuild_mapNumbers j, rebuild_mapItems items]

theorem rebuild_mapFields : ∀ fields acc : Fields,
    rebuildFields putSorted (mapFields f acc) (mapFields f fields) =
      mapFields f (rebuildFields putSorted acc fields)
  | [], acc => by simp [mapFields, rebuildFields]
  | (k, v) :: fields, acc => by
      rw [mapFields, rebuildFields, rebuildFields, rebuild_mapNumbers v, ← mapFields_putSorted,
        rebuild_mapFields fields]

end

end Map

theorem depthFields_putSorted (k : String) (v : Json) (fields : Fields) :
    depthFields (putSorted k v fields) ≤ max (depth v) (depthFields fields) := by
  induction fields with
  | nil => exact Nat.le_refl _
  | cons field fields ih =>
    obtain ⟨k', v'⟩ := field
    simp only [putSorted, insertRow, depthFields] at ih ⊢
    split
    · simp only [depthFields]
      omega
    · split
      · simp only [depthFields]
        omega
      · simp only [depthFields]
        omega

mutual

/-- A map holds nothing deeper than the members it is put together from. -/
theorem depth_rebuild : ∀ j : Json, depth (rebuild putSorted j) ≤ depth j
  | .null | .bool _ | .str _ | .num _ => by simp [rebuild]
  | .arr items => by
      simp only [rebuild, depth]
      exact Nat.succ_le_succ (depth_rebuildItems items)
  | .obj fields => by
      simp only [rebuild, depth]
      exact Nat.succ_le_succ (by simpa [depthFields] using depth_rebuildFields fields [])

theorem depth_rebuildItems : ∀ items : List Json,
    depthItems (rebuildItems putSorted items) ≤ depthItems items
  | [] => by simp [rebuildItems]
  | j :: items => by
      have hj := depth_rebuild j
      have hitems := depth_rebuildItems items
      simp only [rebuildItems, depthItems]
      omega

theorem depth_rebuildFields : ∀ fields acc : Fields,
    depthFields (rebuildFields putSorted acc fields) ≤ max (depthFields acc) (depthFields fields)
  | [], acc => by simp [rebuildFields]
  | (k, v) :: fields, acc => by
      have hv := depth_rebuild v
      have hput := depthFields_putSorted k (rebuild putSorted v) acc
      have hfields := depth_rebuildFields fields (putSorted k (rebuild putSorted v) acc)
      simp only [rebuildFields, depthFields]
      omega

end

end MemoryArchive.Json
