import Mathlib.Algebra.Order.Field.Basic
import Mathlib.Data.List.Sort
import Mathlib.Tactic.Linarith

namespace MemoryArchive.Window

variable {K α : Type*} [Field K] [LinearOrder K] [IsStrictOrderedRing K] (time : α → K)

/-- An entry that is at least a width old. -/
def old (width now : K) (x : α) : Bool := decide (width ≤ now - time x)

/-- Take the old entries from the front. -/
def evict (width now : K) (entries : List α) : List α := entries.dropWhile (old time width now)

/-- An entry that is less than a width old. -/
def recent (width now : K) (x : α) : Bool := decide (now - time x < width)

variable {time} {width now since : K} {entries : List α}

omit [IsStrictOrderedRing K] in
theorem recent_eq (x : α) : recent time width now x = !old time width now x := by
  rw [recent, old, ← decide_not]
  exact decide_eq_decide.mpr not_le.symm

/-- In the order of time, the entries that are old stand in front. -/
theorem evict_eq_filter (h : entries.Pairwise fun x y => time x ≤ time y) :
    evict time width now entries = entries.filter (recent time width now) := by
  induction entries with
  | nil => rfl
  | cons x entries ih =>
    obtain ⟨hfirst, hrest⟩ := List.pairwise_cons.mp h
    cases hx : old time width now x with
    | true =>
      have hnot : ¬ recent time width now x = true := by
        rw [recent_eq, hx]
        decide
      rw [evict, List.dropWhile_cons_of_pos hx, List.filter_cons_of_neg hnot]
      exact ih hrest
    | false =>
      have hall : ∀ y ∈ x :: entries, recent time width now y = true := by
        have hlt := not_le.mp (of_decide_eq_false hx)
        intro y hy
        refine decide_eq_true ?_
        obtain rfl | hy := List.mem_cons.mp hy
        · exact hlt
        · have hle := hfirst y hy
          linarith
      rw [evict, List.dropWhile_cons_of_neg (ne_true_of_eq_false hx), List.filter_eq_self.mpr hall]

/-- One eviction after another is the later one. -/
theorem evict_filter (h : entries.Pairwise fun x y => time x ≤ time y) (hle : since ≤ now) :
    evict time width now (entries.filter (recent time width since)) =
      entries.filter (recent time width now) := by
  rw [evict_eq_filter (h.filter _), List.filter_filter]
  refine List.filter_congr fun x _ => ?_
  cases hx : recent time width now x with
  | false => rfl
  | true =>
    have hsince : recent time width since x = true := by
      rw [recent, decide_eq_true_iff] at hx ⊢
      linarith
    rw [hsince]
    rfl

/-- All times of a set are less than a width apart. -/
def Narrow (width : K) (I : K → Bool) : Prop := ∀ x y, I x = true → I y = true → y - x < width

theorem narrow_right (a : K) : Narrow width fun t => decide (a ≤ t ∧ t < a + width) := by
  intro x y hx hy
  have hx := of_decide_eq_true hx
  have hy := of_decide_eq_true hy
  linarith [hx.1, hy.2]

theorem narrow_left (a : K) : Narrow width fun t => decide (a < t ∧ t ≤ a + width) := by
  intro x y hx hy
  have hx := of_decide_eq_true hx
  have hy := of_decide_eq_true hy
  linarith [hx.1, hy.2]

omit [IsStrictOrderedRing K] in
/-- Where there is room for another time, a narrow set has no more than the limit after it,
wherever it lies. -/
theorem bounded_append {times : List K} {limit : Nat}
    (hroom : (times.filter (recent id width now)).length < limit)
    (h : ∀ I, Narrow width I → (times.filter I).length ≤ limit) {I : K → Bool} (hI : Narrow width I) :
    ((times ++ [now]).filter I).length ≤ limit := by
  rw [List.filter_append, List.length_append]
  cases hnow : I now with
  | false =>
    rw [List.filter_cons_of_neg (by rw [hnow]; decide), List.filter_nil]
    exact h I hI
  | true =>
    have hsub : (times.filter I).length ≤ (times.filter (recent id width now)).length := by
      refine (List.monotone_filter_right times fun t ht => ?_).length_le
      exact decide_eq_true (hI t now ht hnow)
    rw [List.filter_cons_of_pos hnow, List.filter_nil, List.length_singleton]
    omega

end MemoryArchive.Window
