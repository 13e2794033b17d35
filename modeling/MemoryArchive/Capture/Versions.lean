import Mathlib.Data.Prod.Lex
import MemoryArchive.Capture.AgentGate
import MemoryArchive.Text.Strip

namespace MemoryArchive.Capture.Versions

/-- What is left of a trimmed version behind one `v`. -/
def unled (text : Text) : Text := if text.head? = some 'v' then text.tail else text

/-- The part of a version before its suffix. -/
def core (text : Text) : Text := text.takeWhile fun c => c ≠ '-' ∧ c ≠ '+'

def parseCore (core : Text) : Option Version :=
  match core.splitOn '.' with
  | [major, minor, patch] => do
      let major ← Version.number? major
      let minor ← Version.number? minor
      let patch ← Version.number? patch
      return ⟨major, minor, patch⟩
  | _ => none

theorem parse_eq (raw : String) : Version.parse raw = parseCore (core (unled (Lines.trim raw.toList))) := rfl

section Numbers

theorem number_isDigit {cs : Text} {n : Nat} (h : Version.number? cs = some n) : ∀ c ∈ cs, c.isDigit = true := by
  rw [Version.number?] at h
  split at h
  · rename_i hcs
    exact List.all_eq_true.mp hcs.2.1
  · cases h

theorem number_ne_nil {cs : Text} {n : Nat} (h : Version.number? cs = some n) : cs ≠ [] := by
  rintro rfl
  cases h

theorem number_digits (n : UInt32) : Version.number? (Json.digits n.toNat) = some n.toNat := by
  have hfits : Json.digitsValue (Json.digits n.toNat) < 2 ^ 32 := by
    rw [Json.digitsValue_digits]
    exact n.toNat_lt
  have hne : Json.digits n.toNat ≠ [] := Nat.toDigits_ne_nil
  rw [Version.number?, if_pos ⟨hne, List.all_eq_true.mpr (Json.digits_isDigit _), hfits⟩, Json.digitsValue_digits]

end Numbers

/-- The three numbers of the version, with dots between them. -/
def Spelt (v : Version) (text : Text) : Prop :=
  ∃ major minor patch, text = major ++ '.' :: (minor ++ '.' :: patch) ∧
    Version.number? major = some v.major ∧ Version.number? minor = some v.minor ∧
    Version.number? patch = some v.patch

theorem parseCore_dots {major minor patch : Text} {v : Version} (hmajor : Version.number? major = some v.major)
    (hminor : Version.number? minor = some v.minor) (hpatch : Version.number? patch = some v.patch) :
    parseCore (major ++ '.' :: (minor ++ '.' :: patch)) = some v := by
  have hdot : ∀ {cs : Text} {n : Nat}, Version.number? cs = some n → '.' ∉ cs := by
    intro cs n h hmem
    exact absurd (number_isDigit h '.' hmem) (by decide)
  rw [parseCore, List.splitOn_append_cons_self_of_not_mem (hdot hmajor),
    List.splitOn_append_cons_self_of_not_mem (hdot hminor), List.splitOn_eq_singleton (hdot hpatch)]
  dsimp only
  rw [hmajor, hminor, hpatch]
  rfl

theorem parseCore_iff (text : Text) (v : Version) : parseCore text = some v ↔ Spelt v text := by
  constructor
  · intro h
    have hjoin : ['.'].intercalate (text.splitOn '.') = text := List.intercalate_splitOn '.'
    rw [parseCore] at h
    split at h
    · rename_i major minor patch hsplit
      simp only [Option.bind_eq_bind, Option.bind_eq_some_iff, Option.pure_def, Option.some.injEq] at h
      obtain ⟨a, ha, b, hb, c, hc, rfl⟩ := h
      refine ⟨major, minor, patch, ?_, ha, hb, hc⟩
      rw [← hjoin, hsplit]
      simp
    · cases h
  · rintro ⟨major, minor, patch, rfl, hmajor, hminor, hpatch⟩
    exact parseCore_dots hmajor hminor hpatch

section Shapes

/-- A version begins and ends with a digit, and all of it comes before a suffix. -/
theorem Spelt.shape {v : Version} {text : Text} (h : Spelt v text) :
    (∃ c rest, text = c :: rest ∧ c.isDigit = true) ∧ (∃ front c, text = front ++ [c] ∧ c.isDigit = true) ∧
      ∀ c ∈ text, c ≠ '-' ∧ c ≠ '+' := by
  obtain ⟨major, minor, patch, rfl, hmajor, hminor, hpatch⟩ := h
  refine ⟨?_, ?_, ?_⟩
  · obtain ⟨c, rest, hcons⟩ := List.exists_cons_of_ne_nil (number_ne_nil hmajor)
    subst hcons
    exact ⟨c, _, List.cons_append, number_isDigit hmajor c List.mem_cons_self⟩
  · obtain hnil | ⟨front, c, hconcat⟩ := List.eq_nil_or_concat' patch
    · exact absurd hnil (number_ne_nil hpatch)
    · subst hconcat
      refine ⟨major ++ '.' :: (minor ++ '.' :: front), c, by simp, ?_⟩
      exact number_isDigit hpatch c (by simp)
  · have hplain : ∀ {cs : Text} {n : Nat}, Version.number? cs = some n → ∀ c ∈ cs, c ≠ '-' ∧ c ≠ '+' := by
      intro cs n h c hc
      have hdigit := number_isDigit h c hc
      constructor <;> rintro rfl <;> exact absurd hdigit (by decide)
    intro c hc
    simp only [List.mem_append, List.mem_cons] at hc
    obtain hc | rfl | hc | rfl | hc := hc
    · exact hplain hmajor c hc
    · decide
    · exact hplain hminor c hc
    · decide
    · exact hplain hpatch c hc

/-- Nothing, or text that begins with a minus or a plus sign. -/
def IsSuffix (text : Text) : Prop := ∀ c, text.head? = some c → c = '-' ∨ c = '+'

theorem core_suffix {text suffix : Text} (hsuffix : IsSuffix suffix) : core (text ++ suffix) = core text := by
  cases suffix with
  | nil => rw [List.append_nil]
  | cons c rest =>
    rw [core, core, List.takeWhile_append]
    have hstop : ¬ (c ≠ '-' ∧ c ≠ '+') := by
      obtain rfl | rfl := hsuffix c rfl
      · decide
      · decide
    split
    · rename_i hall
      rw [List.takeWhile_cons_of_neg (by simpa using hstop), List.append_nil]
      exact (List.takeWhile_prefix _).eq_of_length hall |>.symm
    · rfl

theorem core_spelt {v : Version} {text : Text} (h : Spelt v text) : core text = text := by
  rw [core, List.takeWhile_eq_self_iff]
  intro c hc
  simpa using h.shape.2.2 c hc

theorem takeWhile_core (text : Text) : ∃ suffix, text = core text ++ suffix ∧ IsSuffix suffix := by
  refine ⟨text.dropWhile fun c => c ≠ '-' ∧ c ≠ '+', (List.takeWhile_append_dropWhile ..).symm, ?_⟩
  intro c hc
  have hstop := List.head?_dropWhile_not (fun c => decide (c ≠ '-' ∧ c ≠ '+')) text
  rw [hc] at hstop
  simpa [or_iff_not_imp_left] using hstop

theorem unled_lead (text : Text) : ∃ lead, text = lead ++ unled text ∧ (lead = [] ∨ lead = ['v']) := by
  rw [unled]
  split
  · rename_i hv
    obtain ⟨rest, rfl⟩ := List.head?_eq_some_iff.mp hv
    exact ⟨['v'], rfl, .inr rfl⟩
  · exact ⟨[], rfl, .inl rfl⟩

theorem unled_spelt {v : Version} {lead text : Text} (hlead : lead = [] ∨ lead = ['v']) (h : Spelt v text)
    (suffix : Text) : unled (lead ++ (text ++ suffix)) = text ++ suffix := by
  obtain rfl | rfl := hlead
  · obtain ⟨c, rest, rfl, hdigit⟩ := h.shape.1
    have hc : c ≠ 'v' := by
      rintro rfl
      exact absurd hdigit (by decide)
    exact if_neg (by simpa using hc)
  · exact if_pos rfl

/-- Trimming takes blanks of the suffix at most. -/
theorem trim_spelt {v : Version} {lead text suffix : Text} (hlead : lead = [] ∨ lead = ['v'])
    (h : Spelt v text) (hsuffix : IsSuffix suffix) :
    ∃ rest, Lines.trim (lead ++ (text ++ suffix)) = lead ++ (text ++ rest) ∧ IsSuffix rest := by
  refine ⟨suffix.rdropWhile Lines.isWhiteSpace, ?_, ?_⟩
  · have hfirst : (lead ++ (text ++ suffix)).dropWhile Lines.isWhiteSpace = lead ++ (text ++ suffix) := by
      obtain ⟨c, rest, rfl, hdigit⟩ := h.shape.1
      obtain rfl | rfl := hlead
      · exact List.dropWhile_cons_of_neg (by simp [Lines.digit_dark hdigit])
      · exact List.dropWhile_cons_of_neg (by decide)
    obtain ⟨front, c, rfl, hdigit⟩ := h.shape.2.1
    have hlast := Lines.rdropWhile_dark Lines.isWhiteSpace (Lines.digit_dark hdigit) (lead ++ front) suffix
    rw [Lines.trim, Lines.strip, hfirst]
    simpa using hlast
  · intro c hc
    have hhead : suffix.head? = some c := by
      obtain ⟨rest, hrest⟩ := List.head?_eq_some_iff.mp hc
      obtain ⟨back, hback⟩ := List.rdropWhile_prefix Lines.isWhiteSpace suffix
      rw [← hback, hrest]
      rfl
    exact hsuffix c hhead

theorem trim_blanks (text : Text) : ∃ front back, text = front ++ Lines.trim text ++ back ∧
    (∀ c ∈ front, Lines.isWhiteSpace c = true) ∧ ∀ c ∈ back, Lines.isWhiteSpace c = true := by
  refine ⟨text.takeWhile Lines.isWhiteSpace,
    (text.dropWhile Lines.isWhiteSpace).rtakeWhile Lines.isWhiteSpace, ?_, ?_, ?_⟩
  · rw [Lines.trim, Lines.strip, List.append_assoc, List.rdropWhile_append_rtakeWhile,
      List.takeWhile_append_dropWhile]
  · intro c hc
    exact List.mem_takeWhile_imp hc
  · intro c hc
    exact List.mem_rtakeWhile_imp hc

end Shapes

/-- The version with blanks around it, a `v` before it and a suffix behind it, or without them. -/
def Written (v : Version) (raw : Text) : Prop :=
  ∃ front lead text suffix back, raw = front ++ (lead ++ (text ++ suffix)) ++ back ∧
    (∀ c ∈ front, Lines.isWhiteSpace c = true) ∧ (∀ c ∈ back, Lines.isWhiteSpace c = true) ∧
    (lead = [] ∨ lead = ['v']) ∧ Spelt v text ∧ IsSuffix suffix

theorem parse_iff (raw : String) (v : Version) : Version.parse raw = some v ↔ Written v raw.toList := by
  rw [parse_eq]
  constructor
  · intro h
    rw [parseCore_iff] at h
    obtain ⟨front, back, hraw, hfront, hback⟩ := trim_blanks raw.toList
    obtain ⟨lead, hlead, hled⟩ := unled_lead (Lines.trim raw.toList)
    obtain ⟨suffix, hcore, hsuffix⟩ := takeWhile_core (unled (Lines.trim raw.toList))
    refine ⟨front, lead, _, suffix, back, ?_, hfront, hback, hled, h, hsuffix⟩
    rw [← hcore, ← hlead]
    exact hraw
  · rintro ⟨front, lead, text, suffix, back, hraw, hfront, hback, hlead, htext, hsuffix⟩
    obtain ⟨rest, htrim, hrest⟩ := trim_spelt hlead htext hsuffix
    rw [hraw, Lines.trim, Lines.strip_blanks _ hfront hback]
    change parseCore (core (unled (Lines.trim (lead ++ (text ++ suffix))))) = some v
    rw [htrim, unled_spelt hlead htext, core_suffix hrest, core_spelt htext, parseCore_iff]
    exact htext

theorem parse_text (major minor patch : UInt32) :
    Version.parse (Version.text ⟨major.toNat, minor.toNat, patch.toNat⟩) =
      some ⟨major.toNat, minor.toNat, patch.toNat⟩ := by
  have hspelt : Spelt ⟨major.toNat, minor.toNat, patch.toNat⟩
      (Version.text ⟨major.toNat, minor.toNat, patch.toNat⟩).toList := by
    refine ⟨Json.digits major.toNat, Json.digits minor.toNat, Json.digits patch.toNat, ?_,
      number_digits major, number_digits minor, number_digits patch⟩
    simp [Version.text, Json.digits, Nat.repr, toString]
  rw [parse_iff]
  exact ⟨[], [], _, [], [], by simp, by simp, by simp, .inl rfl, hspelt, by simp [IsSuffix]⟩

theorem parse_blanks {front back : Text} (hfront : ∀ c ∈ front, Lines.isWhiteSpace c = true)
    (hback : ∀ c ∈ back, Lines.isWhiteSpace c = true) (raw : String) :
    Version.parse (String.ofList (front ++ raw.toList ++ back)) = Version.parse raw := by
  rw [parse_eq, parse_eq, String.toList_ofList, Lines.trim, Lines.strip_blanks _ hfront hback]
  rfl

theorem parse_led {raw : String} (hraw : ∀ c, raw.toList.head? = some c → Lines.isWhiteSpace c = false ∧ c ≠ 'v') :
    Version.parse (String.ofList ('v' :: raw.toList)) = Version.parse raw := by
  have hled : Lines.trim ('v' :: raw.toList) = 'v' :: raw.toList.rdropWhile Lines.isWhiteSpace :=
    Lines.rdropWhile_dark Lines.isWhiteSpace (by decide) [] raw.toList
  have hown : Lines.trim raw.toList = raw.toList.rdropWhile Lines.isWhiteSpace := by
    cases hcs : raw.toList with
    | nil => rfl
    | cons c rest =>
      have hc := (hraw c (by rw [hcs]; rfl)).1
      rw [Lines.trim, Lines.strip, List.dropWhile_cons_of_neg (by simp [hc])]
  have hhead : (raw.toList.rdropWhile Lines.isWhiteSpace).head? ≠ some 'v' := by
    intro hv
    obtain ⟨rest, hrest⟩ := List.head?_eq_some_iff.mp hv
    obtain ⟨back, hback⟩ := List.rdropWhile_prefix Lines.isWhiteSpace raw.toList
    refine (hraw 'v' ?_).2 rfl
    rw [← hback, hrest]
    rfl
  rw [parse_eq, parse_eq, String.toList_ofList, hled, hown]
  exact congrArg (fun text => parseCore (core text)) (if_neg hhead).symm

theorem parse_suffixed {raw : String} (hraw : ∀ c, raw.toList.getLast? = some c → Lines.isWhiteSpace c = false)
    {sign : Char} (hsign : sign = '-' ∨ sign = '+') (suffix : Text) :
    Version.parse (String.ofList (raw.toList ++ sign :: suffix)) = Version.parse raw := by
  have hdark : Lines.isWhiteSpace sign = false := by obtain rfl | rfl := hsign <;> rfl
  have hown : Lines.trim raw.toList = raw.toList.dropWhile Lines.isWhiteSpace := by
    rw [Lines.trim, Lines.strip, ← Lines.rdropWhile_dropWhile]
    congr 1
    rw [List.rdropWhile_eq_self_iff]
    intro hne
    simp [hraw _ (List.getLast?_eq_some_getLast hne)]
  have hlong : Lines.trim (raw.toList ++ sign :: suffix) =
      raw.toList.dropWhile Lines.isWhiteSpace ++ sign :: suffix.rdropWhile Lines.isWhiteSpace := by
    rw [Lines.trim, Lines.strip, ← Lines.rdropWhile_dropWhile, Lines.rdropWhile_dark _ hdark,
      List.dropWhile_append]
    split
    · rename_i hnone
      rw [List.isEmpty_iff.mp hnone, List.dropWhile_cons_of_neg (by simp [hdark]), List.nil_append]
    · rfl
  rw [parse_eq, parse_eq, String.toList_ofList, hlong, hown]
  generalize raw.toList.dropWhile Lines.isWhiteSpace = text
  have hsuffix : IsSuffix (sign :: suffix.rdropWhile Lines.isWhiteSpace) := by
    rintro c ⟨⟩
    exact hsign
  have hunled : unled (text ++ sign :: suffix.rdropWhile Lines.isWhiteSpace) =
      unled text ++ sign :: suffix.rdropWhile Lines.isWhiteSpace := by
    cases text with
    | nil =>
      refine if_neg ?_
      obtain rfl | rfl := hsign
      · simp
      · simp
    | cons c rest =>
      by_cases hc : c = 'v'
      · simp [unled, hc]
      · simp [unled, hc]
  rw [hunled, core_suffix hsuffix]

section Order

/-- Versions in the order of their components. -/
def key (v : Version) : ℕ ×ₗ ℕ ×ₗ ℕ := toLex (v.major, toLex (v.minor, v.patch))

theorem lt_iff (v w : Version) : v.lt w = true ↔ key v < key w := by
  simp [Version.lt, key, Prod.Lex.toLex_lt_toLex]

/-- The newest version that passes. -/
def newest (maxOverride : Option Version) : ℕ ×ₗ ℕ ×ₗ ℕ :=
  maxOverride.elim (key Stream.supportedMax) fun v => max (key Stream.supportedMax) (key v)

def Accepted (reported : String) (maxOverride : Option Version) : Prop :=
  (Stream.evaluate reported maxOverride).refusal = none

theorem key_raised (v : Version) :
    key (if v.lt Stream.supportedMax then Stream.supportedMax else v) = max (key Stream.supportedMax) (key v) := by
  split
  · rename_i h
    exact (max_eq_left ((lt_iff _ _).mp h).le).symm
  · rename_i h
    rw [lt_iff, not_lt] at h
    exact (max_eq_right h).symm

theorem key_newest (maxOverride : Option Version) :
    key (if (maxOverride.getD Stream.supportedMax).lt Stream.supportedMax then Stream.supportedMax
      else maxOverride.getD Stream.supportedMax) = newest maxOverride := by
  rw [key_raised]
  cases maxOverride with
  | none => exact max_self _
  | some v => rfl

theorem accepted_iff (reported : String) (maxOverride : Option Version) :
    Accepted reported maxOverride ↔ ∀ v, Version.parse reported = some v →
      key Stream.supportedMin ≤ key v ∧ key v ≤ newest maxOverride := by
  rw [Accepted, Stream.evaluate]
  cases Version.parse reported with
  | none => simp [Stream.Compat.refusal]
  | some found =>
    have hnewest := key_newest maxOverride
    simp only [Option.some.injEq, forall_eq']
    generalize (if (maxOverride.getD Stream.supportedMax).lt Stream.supportedMax then Stream.supportedMax
      else maxOverride.getD Stream.supportedMax) = top at hnewest ⊢
    split
    · rename_i hnew
      rw [lt_iff, hnewest] at hnew
      simp [Stream.Compat.refusal, hnew]
    · rename_i hnew
      rw [lt_iff, hnewest, not_lt] at hnew
      split
      · rename_i hold
        rw [lt_iff] at hold
        simp [Stream.Compat.refusal, hold]
      · rename_i hold
        rw [lt_iff, not_lt] at hold
        simp [Stream.Compat.refusal, hold, hnew]

theorem newest_mono {low high : Option Version} (h : ∀ v ∈ low, ∃ w ∈ high, key v ≤ key w) :
    newest low ≤ newest high := by
  cases low with
  | none =>
    cases high with
    | none => exact le_rfl
    | some w => exact le_max_left _ _
  | some v =>
    obtain ⟨w, hw, hle⟩ := h v rfl
    obtain rfl : high = some w := hw
    exact max_le_max_left _ hle

theorem refused_iff (reported : String) :
    (evaluateAgent reported).refusal.isSome = true ↔
      ∃ v, Version.parse reported = some v ∧ key v < key recordFidelityMin := by
  rw [evaluateAgent]
  cases Version.parse reported with
  | none => simp [AgentFidelity.refusal]
  | some found =>
    dsimp only
    split
    · rename_i hold
      rw [lt_iff] at hold
      simp [AgentFidelity.refusal, hold]
    · rename_i hold
      rw [lt_iff] at hold
      simp [AgentFidelity.refusal, hold]

end Order

/-- A version is read back from its text, with blanks around it, a `v` before it and a
suffix behind it passed over, and nothing else is read as a version. -/
structure ReadsVersions : Prop where
  displayed : ∀ major minor patch : UInt32,
    Version.parse (Version.text ⟨major.toNat, minor.toNat, patch.toNat⟩) =
      some ⟨major.toNat, minor.toNat, patch.toNat⟩
  blanks : ∀ front back : Text, (∀ c ∈ front, Lines.isWhiteSpace c = true) →
    (∀ c ∈ back, Lines.isWhiteSpace c = true) → ∀ raw : String,
      Version.parse (String.ofList (front ++ raw.toList ++ back)) = Version.parse raw
  led : ∀ raw : String, (∀ c, raw.toList.head? = some c → Lines.isWhiteSpace c = false ∧ c ≠ 'v') →
    Version.parse (String.ofList ('v' :: raw.toList)) = Version.parse raw
  suffixed : ∀ raw : String, (∀ c, raw.toList.getLast? = some c → Lines.isWhiteSpace c = false) →
    ∀ sign suffix, sign = '-' ∨ sign = '+' →
      Version.parse (String.ofList (raw.toList ++ sign :: suffix)) = Version.parse raw
  exact : ∀ (raw : String) (v : Version), Version.parse raw = some v ↔ Written v raw.toList

/-- The gates accept and refuse by the order of the components. -/
structure GatesByOrder : Prop where
  server : ∀ reported maxOverride, Accepted reported maxOverride ↔
    Version.parse reported = none ∨ ∃ v, Version.parse reported = some v ∧
      key Stream.supportedMin ≤ key v ∧ key v ≤ newest maxOverride
  raised : ∀ reported low high, (∀ v ∈ low, ∃ w ∈ high, key v ≤ key w) →
    Accepted reported low → Accepted reported high
  agent : ∀ reported, (evaluateAgent reported).refusal.isSome = true ↔
    ∃ v, Version.parse reported = some v ∧ key v < key recordFidelityMin

/-- Versions are read back from their texts, and both gates compare them by component. -/
theorem gates_respect_order : ReadsVersions ∧ GatesByOrder := by
  constructor
  · exact {
      displayed := parse_text
      blanks := fun _ _ hfront hback raw => parse_blanks hfront hback raw
      led := fun _ hraw => parse_led hraw
      suffixed := fun _ hraw _ suffix hsign => parse_suffixed hraw hsign suffix
      exact := parse_iff }
  · refine ⟨?_, ?_, refused_iff⟩
    · intro reported maxOverride
      rw [accepted_iff]
      cases Version.parse reported with
      | none => simp
      | some found => simp
    · intro reported low high hraised hlow
      rw [accepted_iff] at hlow ⊢
      intro v hv
      exact ⟨(hlow v hv).1, (hlow v hv).2.trans (newest_mono hraised)⟩

end MemoryArchive.Capture.Versions
