import Mathlib.Data.List.Flatten

namespace MemoryArchive.Attempts

variable {α : Type*} (again : α → Bool)

/-- What is made of a list of possible attempts: each attempt that asks for another one
is followed by the next. -/
def tries : List α → List α
  | [] => []
  | a :: rest => if again a then a :: tries rest else [a]

variable {again}

theorem tries_again {a : α} (h : again a = true) (rest : List α) :
    tries again (a :: rest) = a :: tries again rest := by
  rw [tries, if_pos h]

theorem tries_last {a : α} (h : ¬ again a = true) (rest : List α) : tries again (a :: rest) = [a] := by
  rw [tries, if_neg h]

/-- Attempts that all ask for another one lead to the next. -/
theorem tries_append {before : List α} (h : ∀ a ∈ before, again a = true) (rest : List α) :
    tries again (before ++ rest) = before ++ tries again rest := by
  induction before with
  | nil => rfl
  | cons a before ih =>
    obtain ⟨ha, hbefore⟩ := List.forall_mem_cons.mp h
    rw [List.cons_append, tries_again ha, ih hbefore, List.cons_append]

theorem tries_all {attempts : List α} (h : ∀ a ∈ attempts, again a = true) :
    tries again attempts = attempts := by
  have happend := tries_append h []
  rwa [List.append_nil, tries, List.append_nil] at happend

/-- Where one attempt does not ask for another, no later one is made. -/
theorem tries_stops {attempts : List α} (h : ¬ ∀ a ∈ attempts, again a = true) (rest : List α) :
    tries again (attempts ++ rest) = tries again attempts := by
  induction attempts with
  | nil => exact absurd (fun _ ha => absurd ha List.not_mem_nil) h
  | cons a attempts ih =>
    rw [List.cons_append]
    by_cases ha : again a = true
    · have hrest : ¬ ∀ b ∈ attempts, again b = true := fun hall =>
        h (List.forall_mem_cons.mpr ⟨ha, hall⟩)
      rw [tries_again ha, tries_again ha, ih hrest]
    · rw [tries_last ha, tries_last ha]

theorem all_tries (attempts : List α) :
    (∀ a ∈ tries again attempts, again a = true) ↔ ∀ a ∈ attempts, again a = true := by
  constructor
  · intro h
    induction attempts with
    | nil => exact h
    | cons a attempts ih =>
      by_cases ha : again a = true
      · rw [tries_again ha] at h
        exact List.forall_mem_cons.mpr ⟨ha, ih fun b hb => h b (List.mem_cons_of_mem a hb)⟩
      · rw [tries_last ha] at h
        exact absurd (h a List.mem_cons_self) ha
  · intro h
    rwa [tries_all h]

/-- An attempt is made if all before it ask for another one. -/
theorem mem_tries_iff {attempts : List α} {a : α} :
    a ∈ tries again attempts ↔
      ∃ before after, attempts = before ++ a :: after ∧ ∀ b ∈ before, again b = true := by
  constructor
  · intro ha
    induction attempts with
    | nil => cases ha
    | cons b attempts ih =>
      by_cases hb : again b = true
      · rw [tries_again hb] at ha
        obtain rfl | ha := List.mem_cons.mp ha
        · exact ⟨[], attempts, rfl, fun _ hmem => absurd hmem List.not_mem_nil⟩
        · obtain ⟨before, after, rfl, hbefore⟩ := ih ha
          exact ⟨b :: before, after, rfl, List.forall_mem_cons.mpr ⟨hb, hbefore⟩⟩
      · rw [tries_last hb] at ha
        obtain rfl := List.mem_singleton.mp ha
        exact ⟨[], attempts, rfl, fun _ hmem => absurd hmem List.not_mem_nil⟩
  · rintro ⟨before, after, rfl, hbefore⟩
    rw [tries_append hbefore, tries]
    split
    · exact List.mem_append_right before List.mem_cons_self
    · exact List.mem_append_right before (List.mem_singleton_self a)

/-- An attempt follows another if all up to that one ask for it. -/
theorem followed_iff {attempts before : List α} {a b : α} :
    (∃ after, tries again attempts = before ++ a :: b :: after) ↔
      (∃ after, attempts = before ++ a :: b :: after) ∧ (∀ c ∈ before, again c = true) ∧
        again a = true := by
  constructor
  · rintro ⟨after, h⟩
    induction before generalizing attempts with
    | nil =>
      cases attempts with
      | nil => cases h
      | cons c attempts =>
        by_cases hc : again c = true
        · rw [tries_again hc] at h
          obtain ⟨rfl, hrest⟩ := List.cons.inj h
          have hb : b ∈ tries again attempts := hrest ▸ List.mem_cons_self
          cases attempts with
          | nil => cases hb
          | cons d attempts =>
            obtain rfl : d = b := by
              rw [tries] at hrest
              split at hrest
              · exact (List.cons.inj hrest).1
              · exact (List.cons.inj hrest).1
            exact ⟨⟨attempts, rfl⟩, fun _ hmem => absurd hmem List.not_mem_nil, hc⟩
        · rw [tries_last hc] at h
          cases h
    | cons c before ih =>
      cases attempts with
      | nil => cases h
      | cons d attempts =>
        by_cases hd : again d = true
        · rw [tries_again hd] at h
          obtain ⟨rfl, hrest⟩ := List.cons.inj h
          obtain ⟨⟨after', rfl⟩, hbefore, ha⟩ := ih hrest
          exact ⟨⟨after', rfl⟩, List.forall_mem_cons.mpr ⟨hd, hbefore⟩, ha⟩
        · rw [tries_last hd] at h
          cases before with
          | nil => cases h
          | cons => cases h
  · rintro ⟨⟨after, rfl⟩, hbefore, ha⟩
    rw [tries_append hbefore, tries_again ha, tries]
    split
    · exact ⟨_, rfl⟩
    · exact ⟨_, rfl⟩

/-- Rounds of attempts, of which one follows another if every attempt asks for it, make
the attempts of all rounds one after the other. -/
theorem flatten_tries (rounds : List (List α)) :
    (tries (fun round => round.all again) (rounds.map (tries again))).flatten =
      tries again rounds.flatten := by
  induction rounds with
  | nil => rfl
  | cons round rounds ih =>
    rw [List.map_cons, List.flatten_cons]
    by_cases hround : ∀ a ∈ round, again a = true
    · have hall : (tries again round).all again = true :=
        List.all_eq_true.mpr ((all_tries round).mpr hround)
      rw [tries, if_pos hall, List.flatten_cons, ih, tries_append hround, tries_all hround]
    · have hall : ¬ (tries again round).all again = true := fun h =>
        hround ((all_tries round).mp (List.all_eq_true.mp h))
      rw [tries, if_neg hall, tries_stops hround, List.flatten_singleton]

end MemoryArchive.Attempts
