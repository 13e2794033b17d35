import Mathlib.Data.Nat.Basic
import Mathlib.Order.Defs.LinearOrder

namespace MemoryArchive.Json

/-- The states of the number grammar of RFC 8259, one for each place where a
digit, a sign, a point or an exponent mark may stand. -/
inductive NumberPhase
  | start | minus | zero | int | point | frac | mark | sign | exp | dead
  deriving DecidableEq

def NumberPhase.step (p : NumberPhase) (c : Char) : NumberPhase :=
  match p with
  | .start => if c = '-' then .minus else if c = '0' then .zero else if c.isDigit then .int else .dead
  | .minus => if c = '0' then .zero else if c.isDigit then .int else .dead
  | .zero => if c = '.' then .point else if c = 'e' ∨ c = 'E' then .mark else .dead
  | .int =>
      if c.isDigit then .int else if c = '.' then .point
      else if c = 'e' ∨ c = 'E' then .mark else .dead
  | .point => if c.isDigit then .frac else .dead
  | .frac => if c.isDigit then .frac else if c = 'e' ∨ c = 'E' then .mark else .dead
  | .mark => if c = '+' ∨ c = '-' then .sign else if c.isDigit then .exp else .dead
  | .sign | .exp => if c.isDigit then .exp else .dead
  | .dead => .dead

def NumberPhase.accepts : NumberPhase → Bool
  | .zero | .int | .frac | .exp => true
  | _ => false

def isNumber (cs : List Char) : Bool := (cs.foldl NumberPhase.step .start).accepts

/-- A JSON number is kept as its literal: how a reader rounds a fraction to a
binary float is not modelled, integers are read exactly. -/
structure Number where
  literal : List Char
  wellFormed : isNumber literal = true
  deriving DecidableEq

def isNumberChar (c : Char) : Bool :=
  c.isDigit || c = '-' || c = '+' || c = '.' || c = 'e' || c = 'E'

theorem dead_foldl (cs : List Char) : cs.foldl NumberPhase.step .dead = .dead := by
  induction cs with
  | nil => rfl
  | cons c cs ih => exact ih

theorem step_of_not_numberChar (p : NumberPhase) (c : Char) (hc : isNumberChar c = false) :
    p.step c = .dead := by
  simp only [isNumberChar, Bool.or_eq_false_iff, decide_eq_false_iff_not] at hc
  obtain ⟨⟨⟨⟨⟨hd, hm⟩, hp⟩, hdot⟩, he⟩, hE⟩ := hc
  have hz : c ≠ '0' := by rintro rfl; simp at hd
  cases p <;> simp [NumberPhase.step, hd, hm, hp, hdot, he, hE, hz]

theorem foldl_numberChar (cs : List Char) (p : NumberPhase)
    (h : (cs.foldl NumberPhase.step p).accepts = true) : ∀ c ∈ cs, isNumberChar c = true := by
  induction cs generalizing p with
  | nil => simp
  | cons c cs ih =>
    cases hc : isNumberChar c with
    | false =>
      rw [List.foldl_cons, step_of_not_numberChar p c hc, dead_foldl] at h
      cases h
    | true =>
      intro d hd
      obtain rfl | hd := List.mem_cons.mp hd
      · exact hc
      · exact ih (p.step c) h d hd

theorem Number.numberChar (n : Number) : ∀ c ∈ n.literal, isNumberChar c = true :=
  foldl_numberChar n.literal .start n.wellFormed

theorem Number.exists_cons (n : Number) :
    ∃ c cs, n.literal = c :: cs ∧ (c = '-' ∨ c.isDigit = true) := by
  have h := n.wellFormed
  cases hl : n.literal with
  | nil => rw [hl] at h; cases h
  | cons c cs =>
    refine ⟨c, cs, rfl, ?_⟩
    by_contra hc
    simp only [not_or, Bool.not_eq_true] at hc
    have hz : c ≠ '0' := by rintro rfl; simp at hc
    rw [hl, isNumber, List.foldl_cons, NumberPhase.step, if_neg hc.1, if_neg hz,
      if_neg (by simp [hc.2]), dead_foldl] at h
    cases h

def digits (n : Nat) : List Char := Nat.toDigits 10 n

def digitsValue (ds : List Char) : Nat := Nat.ofDigitChars 10 ds 0

theorem digitsValue_digits (n : Nat) : digitsValue (digits n) = n :=
  Nat.ofDigitChars_toDigits (by decide) (by decide)

theorem digits_isDigit (n : Nat) : ∀ c ∈ digits n, c.isDigit = true :=
  fun _ hc => Nat.isDigit_of_mem_toDigits (by decide) (by decide) hc

theorem digitChar_ne_zero : ∀ d < 10, d ≠ 0 → d.digitChar ≠ '0' := by decide

theorem digitChar_isDigit : ∀ d < 10, d.digitChar.isDigit = true := by decide

/-- No number has a leading zero, so the grammar is in its integer state
after the digits of every number but zero. -/
theorem digits_phase (p : NumberPhase) (hp : p = .start ∨ p = .minus) (n : Nat) :
    (digits n).foldl NumberPhase.step p = if n = 0 then .zero else .int := by
  induction n using Nat.strong_induction_on with
  | _ n ih =>
    by_cases hlt : n < 10
    · have hd : digits n = [n.digitChar] := Nat.toDigits_of_lt_base hlt
      by_cases hz : n = 0
      · subst hz; obtain rfl | rfl := hp <;> rfl
      · have hne := digitChar_ne_zero n hlt hz
        have hdig := digitChar_isDigit n hlt
        have hminus : n.digitChar ≠ '-' := fun h => by rw [h] at hdig; cases hdig
        obtain rfl | rfl := hp <;> simp [hd, NumberPhase.step, hne, hdig, hminus, hz]
    · have hge : 10 ≤ n := not_lt.mp hlt
      have hd : digits n = digits (n / 10) ++ [(n % 10).digitChar] :=
        Nat.toDigits_of_base_le (by decide) hge
      have hq : n / 10 ≠ 0 := by omega
      have hz : n ≠ 0 := by omega
      have hdig := digitChar_isDigit (n % 10) (Nat.mod_lt n (by decide))
      rw [hd, List.foldl_append, ih (n / 10) (by omega), if_neg hq, if_neg hz]
      simp [NumberPhase.step, hdig]

def Number.ofNat (n : Nat) : Number :=
  ⟨digits n, by
    rw [isNumber, digits_phase .start (.inl rfl)]
    by_cases hn : n = 0 <;> simp [hn, NumberPhase.accepts]⟩

def Number.ofInt : Int → Number
  | .ofNat n => .ofNat n
  | .negSucc n =>
      ⟨'-' :: digits (n + 1), by
        have h := digits_phase .minus (.inr rfl) (n + 1)
        rw [isNumber, List.foldl_cons]
        change ((digits (n + 1)).foldl NumberPhase.step .minus).accepts = true
        rw [h]
        rfl⟩

/-- The value of a literal of digits only. -/
def Number.toNat? (n : Number) : Option Nat :=
  if n.literal.all Char.isDigit then some (digitsValue n.literal) else none

theorem toNat?_ofNat (n : Nat) : (Number.ofNat n).toNat? = some n := by
  have hall : (digits n).all Char.isDigit = true := List.all_eq_true.mpr (digits_isDigit n)
  simp [Number.toNat?, Number.ofNat, hall, digitsValue_digits]

/-- The value of an integer literal; a literal with a fraction or an exponent
has none, as both libraries read it as a float. -/
def Number.toInt? (n : Number) : Option Int :=
  match n.literal with
  | '-' :: ds => if ds.all Char.isDigit then some (-(digitsValue ds : Int)) else none
  | ds => if ds.all Char.isDigit then some (digitsValue ds) else none

theorem toInt?_ofNat (n : Nat) : (Number.ofNat n).toInt? = some (n : Int) := by
  have hall : (digits n).all Char.isDigit = true := List.all_eq_true.mpr (digits_isDigit n)
  have hne : ∀ ds, digits n ≠ '-' :: ds := by
    intro ds h
    have := digits_isDigit n '-' (by simp [h])
    cases this
  unfold Number.toInt? Number.ofNat
  split
  · rename_i ds h; exact absurd h (hne ds)
  · simp [hall, digitsValue_digits]

theorem toInt?_ofInt (i : Int) : (Number.ofInt i).toInt? = some i := by
  cases i with
  | ofNat n => exact toInt?_ofNat n
  | negSucc n =>
    have hall : (digits (n + 1)).all Char.isDigit = true :=
      List.all_eq_true.mpr (digits_isDigit (n + 1))
    simp [Number.ofInt, Number.toInt?, hall, digitsValue_digits, Int.negSucc_eq]

end MemoryArchive.Json
