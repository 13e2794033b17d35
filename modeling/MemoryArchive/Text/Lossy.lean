import Mathlib.Algebra.Group.Nat.Defs
import MemoryArchive.Text.Offsets

namespace MemoryArchive.Utf8

open Lines (byteLen byteLen_append)

/-- The range of a byte behind the second one. -/
def tail : Nat × Nat := (0x80, 0xBF)

/-- The ranges of the bytes that follow a first byte. Some bytes are first in no character. -/
def expects (b : UInt8) : Option (List (Nat × Nat)) :=
  let n := b.toNat
  if n < 0x80 then some []
  else if n < 0xC2 then none
  else if n < 0xE0 then some [tail]
  else if n = 0xE0 then some [(0xA0, 0xBF), tail]
  else if n = 0xED then some [(0x80, 0x9F), tail]
  else if n < 0xF0 then some [tail, tail]
  else if n = 0xF0 then some [(0x90, 0xBF), tail, tail]
  else if n < 0xF4 then some [tail, tail, tail]
  else if n = 0xF4 then some [(0x80, 0x8F), tail, tail]
  else none

/-- How many of the bytes are in their ranges. -/
def matched : List (Nat × Nat) → List UInt8 → Nat
  | (low, high) :: ranges, b :: bytes =>
      if low ≤ b.toNat ∧ b.toNat ≤ high then matched ranges bytes + 1 else 0
  | _, _ => 0

/-- The bits of a first byte that belong to the character. -/
def payload (n : Nat) : Nat → Nat
  | 0 => n
  | more + 1 => n % 2 ^ (5 - more)

def codePoint (b : UInt8) (behind : List UInt8) : Nat :=
  behind.foldl (fun v c => v * 64 + c.toNat % 64) (payload b.toNat behind.length)

/-- The first piece of some bytes: its character if it is one, and how many bytes it has
behind its first. A piece that is no character ends before the byte that is wrong. -/
def piece (b : UInt8) (bytes : List UInt8) : Option Char × Nat :=
  match expects b with
  | none => (none, 0)
  | some ranges =>
      let more := matched ranges bytes
      (if more = ranges.length then some (Char.ofNat (codePoint b (bytes.take more))) else none, more)

/-- The pieces of some bytes, of which the first `k` are passed over. -/
def pieces : Nat → List UInt8 → List (Option Char × Nat)
  | _, [] => []
  | 0, b :: bytes => piece b bytes :: pieces (piece b bytes).2 bytes
  | k + 1, _ :: bytes => pieces k bytes

def replacement : Char := '\uFFFD'

/-- The text of some bytes, with a replacement for every piece that is no character. -/
def lossy (bytes : List UInt8) : List Char := (pieces 0 bytes).map fun p => p.1.getD replacement

/-- Every piece that is no character has as many bytes as its replacement. -/
def Even (bytes : List UInt8) : Prop := ∀ p ∈ pieces 0 bytes, p.1 = none → p.2 = 2

instance (bytes : List UInt8) : Decidable (Even bytes) :=
  inferInstanceAs (Decidable (∀ p ∈ pieces 0 bytes, p.1 = none → p.2 = 2))

def Ascii (b : UInt8) : Prop := b.toNat < 0x80

instance (b : UInt8) : Decidable (Ascii b) := inferInstanceAs (Decidable (b.toNat < 0x80))

/-- The character of an ASCII byte. -/
def letter (b : UInt8) : Char := Char.ofNat b.toNat

section Pieces

theorem matched_le (ranges : List (Nat × Nat)) (bytes : List UInt8) :
    matched ranges bytes ≤ ranges.length ∧ matched ranges bytes ≤ bytes.length := by
  induction ranges generalizing bytes with
  | nil => exact ⟨Nat.zero_le _, Nat.zero_le _⟩
  | cons range ranges ih =>
    cases bytes with
    | nil => exact ⟨Nat.zero_le _, Nat.zero_le _⟩
    | cons b bytes =>
      rw [matched]
      split
      · exact ⟨Nat.succ_le_succ (ih bytes).1, Nat.succ_le_succ (ih bytes).2⟩
      · exact ⟨Nat.zero_le _, Nat.zero_le _⟩

theorem expects_high {b : UInt8} {ranges : List (Nat × Nat)} (h : expects b = some ranges) :
    ∀ range ∈ ranges, 0x80 ≤ range.1 := by
  simp only [expects, tail] at h
  repeat' (split at h)
  all_goals cases h
  all_goals simp

/-- An ASCII byte ends the piece before it. -/
theorem matched_append {ranges : List (Nat × Nat)} (hranges : ∀ range ∈ ranges, 0x80 ≤ range.1)
    {x : UInt8} (hx : Ascii x) (front back : List UInt8) :
    matched ranges (front ++ x :: back) = matched ranges front := by
  induction front generalizing ranges with
  | nil =>
    cases ranges with
    | nil => rfl
    | cons range ranges =>
      have hlow := hranges range List.mem_cons_self
      rw [List.nil_append, matched, if_neg]
      · rfl
      · unfold Ascii at hx
        omega
  | cons b front ih =>
    cases ranges with
    | nil => rfl
    | cons range ranges =>
      rw [List.cons_append, matched, matched, ih fun range hmem => hranges range (List.mem_cons_of_mem _ hmem)]

theorem piece_le (b : UInt8) (bytes : List UInt8) : (piece b bytes).2 ≤ bytes.length := by
  rw [piece]
  cases expects b with
  | none => exact Nat.zero_le _
  | some ranges => exact (matched_le ranges bytes).2

theorem piece_append (b : UInt8) {x : UInt8} (hx : Ascii x) (front back : List UInt8) :
    piece b (front ++ x :: back) = piece b front := by
  rw [piece, piece]
  cases hexpects : expects b with
  | none => rfl
  | some ranges =>
    dsimp only
    rw [matched_append (expects_high hexpects) hx,
      List.take_append_of_le_length (matched_le ranges front).2]

theorem piece_ascii {b : UInt8} (hb : Ascii b) (bytes : List UInt8) : piece b bytes = (some (letter b), 0) := by
  have hexpects : expects b = some [] := if_pos hb
  rw [piece, hexpects]
  rfl

theorem pieces_skip (k : Nat) (bytes : List UInt8) : pieces k bytes = pieces 0 (bytes.drop k) := by
  induction bytes generalizing k with
  | nil =>
    rw [List.drop_nil]
    cases k <;> rfl
  | cons b bytes ih =>
    cases k with
    | zero => rfl
    | succ k => exact ih k

theorem pieces_cons (b : UInt8) (bytes : List UInt8) :
    pieces 0 (b :: bytes) = piece b bytes :: pieces 0 (bytes.drop (piece b bytes).2) := by
  rw [pieces, pieces_skip]

theorem lossy_cons (b : UInt8) (bytes : List UInt8) :
    lossy (b :: bytes) = (piece b bytes).1.getD replacement :: lossy (bytes.drop (piece b bytes).2) := by
  rw [lossy, pieces_cons]
  rfl

/-- Induction along the pieces. -/
theorem byPieces {P : List UInt8 → Prop} (nil : P [])
    (cons : ∀ b bytes, P (bytes.drop (piece b bytes).2) → P (b :: bytes)) (bytes : List UInt8) : P bytes := by
  induction hlen : bytes.length using Nat.strong_induction_on generalizing bytes with
  | _ n ih =>
    cases bytes with
    | nil => exact nil
    | cons b bytes =>
      refine cons b bytes (ih _ ?_ _ rfl)
      rw [← hlen, List.length_drop, List.length_cons]
      omega

end Pieces

section Sizes

theorem utf8Size_ofNat {n : Nat} (h : n.isValidChar) :
    (Char.ofNat n).utf8Size =
      if n < 0x80 then 1 else if n < 0x800 then 2 else if n < 0x10000 then 3 else 4 := by
  have hval : (Char.ofNat n).val.toNat = n := by
    rw [Char.ofNat, dif_pos h]
    rfl
  simp only [Char.utf8Size, UInt32.le_iff_toNat_le, hval, UInt32.toNat_ofNatLT]
  grind

theorem matched_cons {range : Nat × Nat} {ranges : List (Nat × Nat)} {bytes : List UInt8}
    (h : matched (range :: ranges) bytes = ranges.length + 1) :
    ∃ c rest, bytes = c :: rest ∧ range.1 ≤ c.toNat ∧ c.toNat ≤ range.2 ∧
      matched ranges rest = ranges.length := by
  cases bytes with
  | nil => exact absurd h (Nat.succ_ne_zero _).symm
  | cons c rest =>
    rw [matched] at h
    split at h
    · rename_i hrange
      exact ⟨c, rest, rfl, hrange.1, hrange.2, Nat.succ.inj h⟩
    · exact absurd h (Nat.succ_ne_zero _).symm

theorem size_two {b : UInt8} (c : UInt8) (hb : 0xC2 ≤ b.toNat ∧ b.toNat < 0xE0) :
    (Char.ofNat (codePoint b [c])).utf8Size = 2 := by
  have hvalue : codePoint b [c] = b.toNat % 32 * 64 + c.toNat % 64 := rfl
  rw [hvalue, utf8Size_ofNat (Or.inl (by omega)), if_neg (by omega), if_pos (by omega)]

theorem size_three {b c : UInt8} (d : UInt8) (hb : 0xE0 ≤ b.toNat ∧ b.toNat < 0xF0)
    (hc : 0x80 ≤ c.toNat ∧ c.toNat ≤ 0xBF)
    (hlow : b.toNat = 0xE0 → 0xA0 ≤ c.toNat) (hhigh : b.toNat = 0xED → c.toNat ≤ 0x9F) :
    (Char.ofNat (codePoint b [c, d])).utf8Size = 3 := by
  have hvalue : codePoint b [c, d] = (b.toNat % 16 * 64 + c.toNat % 64) * 64 + d.toNat % 64 := rfl
  have hvalid : (codePoint b [c, d]).isValidChar := by
    rw [hvalue, Nat.isValidChar]
    omega
  rw [utf8Size_ofNat hvalid, hvalue, if_neg (by omega), if_neg (by omega), if_pos (by omega)]

theorem size_four {b c : UInt8} (d e : UInt8) (hb : 0xF0 ≤ b.toNat ∧ b.toNat ≤ 0xF4)
    (hc : 0x80 ≤ c.toNat ∧ c.toNat ≤ 0xBF) (hlow : b.toNat = 0xF0 → 0x90 ≤ c.toNat)
    (hhigh : b.toNat = 0xF4 → c.toNat ≤ 0x8F) : (Char.ofNat (codePoint b [c, d, e])).utf8Size = 4 := by
  have hvalue : codePoint b [c, d, e] =
      ((b.toNat % 8 * 64 + c.toNat % 64) * 64 + d.toNat % 64) * 64 + e.toNat % 64 := rfl
  have hvalid : (codePoint b [c, d, e]).isValidChar := by
    rw [hvalue, Nat.isValidChar]
    omega
  rw [utf8Size_ofNat hvalid, hvalue, if_neg (by omega), if_neg (by omega), if_neg (by omega)]

/-- The bytes that a first byte expects, with the bounds that keep the character in its size. -/
theorem expects_cases {b : UInt8} {ranges : List (Nat × Nat)} (h : expects b = some ranges) :
    (Ascii b ∧ ranges = []) ∨ ((0xC2 ≤ b.toNat ∧ b.toNat < 0xE0) ∧ ranges = [tail]) ∨
    (∃ low high, (0xE0 ≤ b.toNat ∧ b.toNat < 0xF0) ∧ ranges = [(low, high), tail] ∧
      0x80 ≤ low ∧ high ≤ 0xBF ∧ (b.toNat = 0xE0 → 0xA0 ≤ low) ∧ (b.toNat = 0xED → high ≤ 0x9F)) ∨
    ∃ low high, (0xF0 ≤ b.toNat ∧ b.toNat ≤ 0xF4) ∧ ranges = [(low, high), tail, tail] ∧
      0x80 ≤ low ∧ high ≤ 0xBF ∧ (b.toNat = 0xF0 → 0x90 ≤ low) ∧ (b.toNat = 0xF4 → high ≤ 0x8F) := by
  simp only [expects, tail] at h
  repeat' (split at h)
  all_goals cases h
  all_goals simp only [Ascii, tail]
  · exact Or.inl ⟨by assumption, trivial⟩
  · exact Or.inr (Or.inl ⟨by omega, trivial⟩)
  · exact Or.inr (Or.inr (Or.inl ⟨0xA0, 0xBF, by omega, rfl, by omega⟩))
  · exact Or.inr (Or.inr (Or.inl ⟨0x80, 0x9F, by omega, rfl, by omega⟩))
  · exact Or.inr (Or.inr (Or.inl ⟨0x80, 0xBF, by omega, rfl, by omega⟩))
  · exact Or.inr (Or.inr (Or.inr ⟨0x90, 0xBF, by omega, rfl, by omega⟩))
  · exact Or.inr (Or.inr (Or.inr ⟨0x80, 0xBF, by omega, rfl, by omega⟩))
  · exact Or.inr (Or.inr (Or.inr ⟨0x80, 0x8F, by omega, rfl, by omega⟩))

/-- A character has the size of its piece. -/
theorem piece_char {b : UInt8} {bytes : List UInt8} {c : Char} (h : (piece b bytes).1 = some c) :
    c.utf8Size = (piece b bytes).2 + 1 := by
  cases hexpects : expects b with
  | none =>
    rw [piece, hexpects] at h
    cases h
  | some ranges =>
    rw [piece, hexpects] at h ⊢
    dsimp only at h ⊢
    split at h
    · rename_i hfull
      have hc := Option.some.inj h
      rw [hfull] at hc ⊢
      subst hc
      obtain ⟨hb, rfl⟩ | ⟨hb, rfl⟩ | ⟨low, high, hb, rfl, hlow, hhigh, hfirst, hlast⟩ |
        ⟨low, high, hb, rfl, hlow, hhigh, hfirst, hlast⟩ := expects_cases hexpects
      · exact (utf8Size_ofNat (Or.inl (Nat.lt_trans hb (by decide)))).trans (if_pos hb)
      · obtain ⟨c, rest, rfl, -, -, -⟩ := matched_cons hfull
        exact size_two c hb
      · obtain ⟨c, rest, rfl, hc₁, hc₂, hrest⟩ := matched_cons hfull
        obtain ⟨d, rest, rfl, -⟩ := matched_cons hrest
        exact size_three d hb ⟨hlow.trans hc₁, hc₂.trans hhigh⟩ (fun h => (hfirst h).trans hc₁)
          fun h => hc₂.trans (hlast h)
      · obtain ⟨c, rest, rfl, hc₁, hc₂, hrest⟩ := matched_cons hfull
        obtain ⟨d, rest, rfl, -, -, hrest⟩ := matched_cons hrest
        obtain ⟨e, rest, rfl, -⟩ := matched_cons hrest
        exact size_four d e hb ⟨hlow.trans hc₁, hc₂.trans hhigh⟩ (fun h => (hfirst h).trans hc₁)
          fun h => hc₂.trans (hlast h)
    · cases h

/-- A piece that is no character is not longer than its replacement. -/
theorem piece_error {b : UInt8} {bytes : List UInt8} (h : (piece b bytes).1 = none) :
    (piece b bytes).2 ≤ 2 := by
  cases hexpects : expects b with
  | none =>
    rw [piece, hexpects]
    exact Nat.zero_le _
  | some ranges =>
    rw [piece, hexpects] at h ⊢
    dsimp only at h ⊢
    split at h
    · cases h
    · rename_i hshort
      have hle := (matched_le ranges bytes).1
      have hthree : ranges.length ≤ 3 := by
        obtain ⟨-, rfl⟩ | ⟨-, rfl⟩ | ⟨low, high, -, rfl, -⟩ | ⟨low, high, -, rfl, -⟩ := expects_cases hexpects
        all_goals simp only [List.length_nil, List.length_cons]
        all_goals omega
      omega

theorem letter_inj {b x : UInt8} (hb : Ascii b) (hx : Ascii x) (h : letter b = letter x) : b = x := by
  have hvalue : ∀ {b : UInt8}, Ascii b → (letter b).val.toNat = b.toNat := by
    intro b hb
    rw [letter, Char.ofNat, dif_pos (Or.inl (Nat.lt_trans hb (by decide)))]
    rfl
  refine UInt8.toNat_inj.mp ?_
  rw [← hvalue hb, h, hvalue hx]

/-- A piece that reads as an ASCII character is that byte. -/
theorem letter_piece {b : UInt8} {bytes : List UInt8} {x : UInt8} (hx : Ascii x)
    (h : (piece b bytes).1.getD replacement = letter x) : b = x ∧ (piece b bytes).2 = 0 := by
  have hsize : (letter x).utf8Size = 1 :=
    (utf8Size_ofNat (Or.inl (Nat.lt_trans hx (by decide)))).trans (if_pos hx)
  cases hchar : (piece b bytes).1 with
  | none =>
    rw [hchar] at h
    rw [← h] at hsize
    exact absurd hsize (by decide)
  | some c =>
    rw [hchar] at h
    have hmore := piece_char hchar
    rw [show c = letter x from h, hsize] at hmore
    have hb : Ascii b := by
      cases hexpects : expects b with
      | none =>
        rw [piece, hexpects] at hchar
        cases hchar
      | some ranges =>
        rw [piece, hexpects] at hchar hmore
        dsimp only at hchar hmore
        split at hchar
        · rename_i hfull
          obtain ⟨hb, -⟩ | ⟨-, rfl⟩ | ⟨low, high, -, rfl, -⟩ | ⟨low, high, -, rfl, -⟩ := expects_cases hexpects
          · exact hb
          all_goals simp only [List.length_cons, List.length_nil] at hfull
          all_goals omega
        · cases hchar
    rw [piece_ascii hb] at hchar ⊢
    rw [← Option.some.inj hchar] at h
    exact ⟨letter_inj hb hx h, rfl⟩

end Sizes

section Text

theorem lossy_ascii {x : UInt8} (hx : Ascii x) (bytes : List UInt8) :
    lossy (x :: bytes) = letter x :: lossy bytes := by
  rw [lossy_cons, piece_ascii hx]
  rfl

/-- The text goes on after an ASCII byte as if it began there. -/
theorem lossy_append {x : UInt8} (hx : Ascii x) (front back : List UInt8) :
    lossy (front ++ x :: back) = lossy front ++ letter x :: lossy back := by
  rw [← lossy_ascii hx]
  induction front using byPieces with
  | nil => rfl
  | cons b front ih =>
    have hdrop : (front ++ x :: back).drop (piece b front).2 = front.drop (piece b front).2 ++ x :: back :=
      List.drop_append_of_le_length (piece_le b front)
    rw [List.cons_append, lossy_cons, lossy_cons, piece_append b hx, hdrop, ih]
    rfl

/-- An ASCII character of the text is a byte, and parts the bytes as it parts the text. -/
theorem lossy_split {x : UInt8} (hx : Ascii x) {bytes : List UInt8} {front back : List Char}
    (h : lossy bytes = front ++ letter x :: back) :
    ∃ u v, bytes = u ++ x :: v ∧ lossy u = front ∧ lossy v = back := by
  suffices hsplit : ∃ u v, bytes = u ++ x :: v ∧ lossy v = back by
    obtain ⟨u, v, rfl, hv⟩ := hsplit
    refine ⟨u, v, rfl, ?_, hv⟩
    rw [lossy_append hx, hv] at h
    exact List.append_cancel_right h
  induction bytes using byPieces generalizing front with
  | nil => exact absurd h.symm (List.append_ne_nil_of_right_ne_nil front (List.cons_ne_nil _ _))
  | cons b bytes ih =>
    rw [lossy_cons] at h
    cases front with
    | nil =>
      obtain ⟨hfirst, hrest⟩ := List.cons.inj h
      obtain ⟨rfl, hmore⟩ := letter_piece hx hfirst
      rw [hmore] at hrest
      exact ⟨[], bytes, rfl, hrest⟩
    | cons d front =>
      obtain ⟨u, v, huv, hv⟩ := ih (List.cons.inj h).2
      refine ⟨b :: (bytes.take (piece b bytes).2 ++ u), v, ?_, hv⟩
      rw [List.cons_append, List.append_assoc, ← huv, List.take_append_drop]

theorem lossy_nil {bytes : List UInt8} (h : lossy bytes = []) : bytes = [] := by
  cases bytes with
  | nil => rfl
  | cons b bytes =>
    rw [lossy_cons] at h
    cases h

/-- Likewise for several ASCII characters. -/
theorem lossy_pattern (x : UInt8) (pattern : List UInt8) (hpattern : ∀ y ∈ x :: pattern, Ascii y)
    {bytes : List UInt8} {front back : List Char}
    (h : lossy bytes = front ++ ((x :: pattern).map letter ++ back)) :
    ∃ u v, bytes = u ++ (x :: pattern ++ v) ∧ lossy u = front ∧ lossy v = back := by
  induction pattern generalizing x bytes front with
  | nil => exact lossy_split (hpattern x List.mem_cons_self) h
  | cons y pattern ih =>
    obtain ⟨hx, hrest⟩ := List.forall_mem_cons.mp hpattern
    obtain ⟨u, v, rfl, hu, hv⟩ := lossy_split hx h
    have htext : lossy v = [] ++ ((y :: pattern).map letter ++ back) := hv
    obtain ⟨w, v, rfl, hw, hback⟩ := ih y hrest htext
    obtain rfl := lossy_nil hw
    exact ⟨u, v, rfl, hu, hback⟩

theorem mem_lossy {x : UInt8} (hx : Ascii x) {bytes : List UInt8} : letter x ∈ lossy bytes ↔ x ∈ bytes := by
  constructor
  · intro hmem
    obtain ⟨front, back, h⟩ := List.append_of_mem hmem
    obtain ⟨u, v, rfl, -, -⟩ := lossy_split hx h
    exact List.mem_append_right u List.mem_cons_self
  · intro hmem
    obtain ⟨u, v, rfl⟩ := List.append_of_mem hmem
    rw [lossy_append hx]
    exact List.mem_append_right _ List.mem_cons_self

/-- A text is not shorter than its bytes, and as long exactly if its replacements are as long
as what they replace. -/
theorem byteLen_lossy (bytes : List UInt8) :
    bytes.length ≤ byteLen (lossy bytes) ∧ (byteLen (lossy bytes) = bytes.length ↔ Even bytes) := by
  induction bytes using byPieces with
  | nil => exact ⟨Nat.le_refl _, fun _ _ hpiece => absurd hpiece List.not_mem_nil, fun _ => rfl⟩
  | cons b bytes ih =>
    obtain ⟨hle, hiff⟩ := ih
    have hdrop : (bytes.drop (piece b bytes).2).length + (piece b bytes).2 = bytes.length := by
      rw [List.length_drop]
      exact Nat.sub_add_cancel (piece_le b bytes)
    have heven : Even (b :: bytes) ↔
        ((piece b bytes).1 = none → (piece b bytes).2 = 2) ∧ Even (bytes.drop (piece b bytes).2) := by
      rw [Even, pieces_cons]
      exact List.forall_mem_cons
    rw [heven, ← hiff, lossy_cons, byteLen, List.length_cons]
    cases hchar : (piece b bytes).1 with
    | some c =>
      have hsize : (Option.getD (some c) replacement).utf8Size = _ := piece_char hchar
      refine ⟨by omega, fun h => ⟨(by rintro ⟨⟩), by omega⟩, fun h => ?_⟩
      have hrest := h.2
      omega
    | none =>
      have hsize : (Option.getD none replacement).utf8Size = 3 := by decide
      have hmore := piece_error hchar
      refine ⟨by omega, fun h => ⟨fun _ => by omega, by omega⟩, fun h => ?_⟩
      have hthree := h.1 rfl
      have hrest := h.2
      omega

end Text

section Encoding

/-- The bytes of a text. -/
def encode (text : List Char) : List UInt8 := text.flatMap String.utf8EncodeChar

theorem encode_append (a b : List Char) : encode (a ++ b) = encode a ++ encode b := List.flatMap_append

theorem expects_two {b : UInt8} (h : 0xC2 ≤ b.toNat ∧ b.toNat < 0xE0) : expects b = some [tail] := by
  simp only [expects]
  rw [if_neg (by omega), if_neg (by omega), if_pos (by omega)]

theorem expects_three {b : UInt8} (h : 0xE0 ≤ b.toNat ∧ b.toNat < 0xF0) : expects b =
    some [(if b.toNat = 0xE0 then 0xA0 else 0x80, if b.toNat = 0xED then 0x9F else 0xBF), tail] := by
  simp only [expects]
  rw [if_neg (by omega), if_neg (by omega), if_neg (by omega)]
  by_cases hfirst : b.toNat = 0xE0
  · rw [if_pos hfirst, if_pos hfirst, if_neg (by omega)]
  · by_cases hlast : b.toNat = 0xED
    · rw [if_neg hfirst, if_pos hlast, if_neg hfirst, if_pos hlast]
    · rw [if_neg hfirst, if_neg hlast, if_neg hfirst, if_neg hlast, if_pos h.2]
      rfl

theorem expects_four {b : UInt8} (h : 0xF0 ≤ b.toNat ∧ b.toNat ≤ 0xF4) : expects b =
    some [(if b.toNat = 0xF0 then 0x90 else 0x80, if b.toNat = 0xF4 then 0x8F else 0xBF), tail, tail] := by
  simp only [expects]
  rw [if_neg (by omega), if_neg (by omega), if_neg (by omega), if_neg (by omega), if_neg (by omega),
    if_neg (by omega)]
  by_cases hfirst : b.toNat = 0xF0
  · rw [if_pos hfirst, if_pos hfirst, if_neg (by omega)]
  · by_cases hlast : b.toNat = 0xF4
    · rw [if_neg hfirst, if_neg (by omega), if_pos hlast, if_neg hfirst, if_pos hlast]
    · rw [if_neg hfirst, if_pos (by omega), if_neg hfirst, if_neg hlast]
      rfl

theorem piece_full {b : UInt8} {behind bytes : List UInt8} {ranges : List (Nat × Nat)}
    (hexpects : expects b = some ranges) (hmatch : matched ranges (behind ++ bytes) = behind.length)
    (hlen : behind.length = ranges.length) :
    piece b (behind ++ bytes) = (some (Char.ofNat (codePoint b behind)), behind.length) := by
  rw [piece, hexpects]
  dsimp only
  rw [hmatch, if_pos hlen, List.take_left]

/-- The bytes of a character are one piece, which reads as the character. -/
theorem piece_encode (c : Char) (bytes : List UInt8) : ∃ b behind,
    String.utf8EncodeChar c = b :: behind ∧ piece b (behind ++ bytes) = (some c, behind.length) := by
  obtain ⟨n, hn⟩ : ∃ n, n = c.val.toNat := ⟨_, rfl⟩
  have hchar : Char.ofNat n = c := by
    rw [hn]
    exact Char.ofNat_toNat c
  have hvalid : n < 0xD800 ∨ 0xDFFF < n ∧ n < 0x110000 := by
    rw [hn]
    exact c.valid
  have hbyte : ∀ k < 256, (UInt8.ofNat k).toNat = k := fun k hk => Nat.mod_eq_of_lt hk
  have hcode : String.utf8EncodeChar c = if n ≤ 0x7f then [UInt8.ofNat n]
      else if n ≤ 0x7ff then [UInt8.ofNat (n / 64 % 0x20 + 0xc0), UInt8.ofNat (n % 0x40 + 0x80)]
      else if n ≤ 0xffff then
        [UInt8.ofNat (n / 4096 % 0x10 + 0xe0), UInt8.ofNat (n / 64 % 0x40 + 0x80),
          UInt8.ofNat (n % 0x40 + 0x80)]
      else
        [UInt8.ofNat (n / 262144 % 0x08 + 0xf0), UInt8.ofNat (n / 4096 % 0x40 + 0x80),
          UInt8.ofNat (n / 64 % 0x40 + 0x80), UInt8.ofNat (n % 0x40 + 0x80)] := by
    rw [hn]
    rfl
  rw [hcode]
  by_cases hone : n ≤ 0x7f
  · rw [if_pos hone]
    refine ⟨_, _, rfl, ?_⟩
    have hascii : Ascii (UInt8.ofNat n) := by
      rw [Ascii, hbyte n (by omega)]
      omega
    have hletter : letter (UInt8.ofNat n) = c := by
      rw [letter, hbyte n (by omega), hchar]
    rw [piece_ascii hascii, hletter]
    rfl
  rw [if_neg hone]
  by_cases htwo : n ≤ 0x7ff
  · rw [if_pos htwo]
    refine ⟨_, _, rfl, ?_⟩
    have hfirst := hbyte (n / 64 % 0x20 + 0xc0) (by omega)
    have hsecond := hbyte (n % 0x40 + 0x80) (by omega)
    have hmatch : matched [tail] ([UInt8.ofNat (n % 0x40 + 0x80)] ++ bytes) = 1 := by
      simp only [List.cons_append, List.nil_append, tail, matched, hsecond]
      rw [if_pos (by omega)]
    have hpoint : codePoint (UInt8.ofNat (n / 64 % 0x20 + 0xc0)) [UInt8.ofNat (n % 0x40 + 0x80)] = n := by
      simp only [codePoint, payload, List.foldl_cons, List.foldl_nil, List.length_cons, List.length_nil,
        hfirst, hsecond]
      omega
    rw [piece_full (expects_two (by omega)) hmatch rfl, hpoint, hchar]
  rw [if_neg htwo]
  by_cases hthree : n ≤ 0xffff
  · rw [if_pos hthree]
    refine ⟨_, _, rfl, ?_⟩
    have hfirst := hbyte (n / 4096 % 0x10 + 0xe0) (by omega)
    have hsecond := hbyte (n / 64 % 0x40 + 0x80) (by omega)
    have hthird := hbyte (n % 0x40 + 0x80) (by omega)
    have hlow : (if (UInt8.ofNat (n / 4096 % 0x10 + 0xe0)).toNat = 0xE0 then 0xA0 else 0x80) ≤
        n / 64 % 0x40 + 0x80 := by
      rw [hfirst]
      split <;> omega
    have hhigh : n / 64 % 0x40 + 0x80 ≤
        if (UInt8.ofNat (n / 4096 % 0x10 + 0xe0)).toNat = 0xED then 0x9F else 0xBF := by
      rw [hfirst]
      split <;> omega
    have hmatch : matched [(if (UInt8.ofNat (n / 4096 % 0x10 + 0xe0)).toNat = 0xE0 then 0xA0 else 0x80,
        if (UInt8.ofNat (n / 4096 % 0x10 + 0xe0)).toNat = 0xED then 0x9F else 0xBF), tail]
        ([UInt8.ofNat (n / 64 % 0x40 + 0x80), UInt8.ofNat (n % 0x40 + 0x80)] ++ bytes) = 2 := by
      simp only [List.cons_append, List.nil_append, tail, matched, hsecond, hthird]
      rw [if_pos ⟨hlow, hhigh⟩, if_pos (by omega)]
    have hpoint : codePoint (UInt8.ofNat (n / 4096 % 0x10 + 0xe0))
        [UInt8.ofNat (n / 64 % 0x40 + 0x80), UInt8.ofNat (n % 0x40 + 0x80)] = n := by
      simp only [codePoint, payload, List.foldl_cons, List.foldl_nil, List.length_cons, List.length_nil,
        hfirst, hsecond, hthird]
      omega
    rw [piece_full (expects_three (by omega)) hmatch rfl, hpoint, hchar]
  · rw [if_neg hthree]
    refine ⟨_, _, rfl, ?_⟩
    have hfirst := hbyte (n / 262144 % 0x08 + 0xf0) (by omega)
    have hsecond := hbyte (n / 4096 % 0x40 + 0x80) (by omega)
    have hthird := hbyte (n / 64 % 0x40 + 0x80) (by omega)
    have hfourth := hbyte (n % 0x40 + 0x80) (by omega)
    have hlow : (if (UInt8.ofNat (n / 262144 % 0x08 + 0xf0)).toNat = 0xF0 then 0x90 else 0x80) ≤
        n / 4096 % 0x40 + 0x80 := by
      rw [hfirst]
      split <;> omega
    have hhigh : n / 4096 % 0x40 + 0x80 ≤
        if (UInt8.ofNat (n / 262144 % 0x08 + 0xf0)).toNat = 0xF4 then 0x8F else 0xBF := by
      rw [hfirst]
      split <;> omega
    have hmatch : matched [(if (UInt8.ofNat (n / 262144 % 0x08 + 0xf0)).toNat = 0xF0 then 0x90 else 0x80,
        if (UInt8.ofNat (n / 262144 % 0x08 + 0xf0)).toNat = 0xF4 then 0x8F else 0xBF), tail, tail]
        ([UInt8.ofNat (n / 4096 % 0x40 + 0x80), UInt8.ofNat (n / 64 % 0x40 + 0x80),
          UInt8.ofNat (n % 0x40 + 0x80)] ++ bytes) = 3 := by
      simp only [List.cons_append, List.nil_append, tail, matched, hsecond, hthird, hfourth]
      rw [if_pos ⟨hlow, hhigh⟩, if_pos (by omega), if_pos (by omega)]
    have hpoint : codePoint (UInt8.ofNat (n / 262144 % 0x08 + 0xf0))
        [UInt8.ofNat (n / 4096 % 0x40 + 0x80), UInt8.ofNat (n / 64 % 0x40 + 0x80),
          UInt8.ofNat (n % 0x40 + 0x80)] = n := by
      simp only [codePoint, payload, List.foldl_cons, List.foldl_nil, List.length_cons, List.length_nil,
        hfirst, hsecond, hthird, hfourth]
      omega
    rw [piece_full (expects_four (by omega)) hmatch rfl, hpoint, hchar]

/-- A text is read back from its bytes, whatever follows them. -/
theorem lossy_encode_append (text : List Char) (bytes : List UInt8) :
    lossy (encode text ++ bytes) = text ++ lossy bytes := by
  induction text with
  | nil => rfl
  | cons c text ih =>
    obtain ⟨b, behind, hbytes, hpiece⟩ := piece_encode c (encode text ++ bytes)
    have hcode : encode (c :: text) ++ bytes = b :: (behind ++ (encode text ++ bytes)) := by
      rw [encode, List.flatMap_cons, hbytes, List.append_assoc]
      rfl
    rw [hcode, lossy_cons, hpiece, List.drop_left, ih]
    rfl

theorem lossy_encode (text : List Char) : lossy (encode text) = text := by
  have h := lossy_encode_append text []
  rw [List.append_nil] at h
  exact h.trans (List.append_nil text)

theorem length_encode (text : List Char) : (encode text).length = byteLen text := by
  induction text with
  | nil => rfl
  | cons c text ih =>
    rw [encode, List.flatMap_cons, List.length_append, String.length_utf8EncodeChar, byteLen, ← ih]
    rfl

/-- Bytes of a text that an ASCII byte parts are bytes of texts. -/
theorem encode_split {x : UInt8} (hx : Ascii x) {text : List Char} {front back : List UInt8}
    (h : encode text = front ++ x :: back) :
    ∃ a b, text = a ++ letter x :: b ∧ front = encode a ∧ back = encode b := by
  have htext : text = lossy front ++ letter x :: lossy back := by
    rw [← lossy_append hx, ← h, lossy_encode]
  have hletter : String.utf8EncodeChar (letter x) = [x] := by
    obtain ⟨b, behind, hbytes, hpiece⟩ := piece_encode (letter x) []
    obtain ⟨rfl, hmore⟩ := letter_piece hx (congrArg (fun p => Option.getD p.1 replacement) hpiece)
    rw [hpiece] at hmore
    rw [hbytes, List.length_eq_zero_iff.mp hmore]
  have hbytes : encode (lossy front) ++ x :: encode (lossy back) = front ++ x :: back := by
    rw [← h, htext, encode_append]
    simp [encode, hletter]
  have hfront := (byteLen_lossy front).1
  have hback := (byteLen_lossy back).1
  rw [← length_encode] at hfront hback
  have hlength := congrArg List.length hbytes
  simp only [List.length_append, List.length_cons] at hlength
  obtain ⟨hf, hb⟩ := List.append_inj hbytes (by omega)
  exact ⟨lossy front, lossy back, htext, hf.symm, (List.cons.inj hb).2.symm⟩

end Encoding

end MemoryArchive.Utf8
