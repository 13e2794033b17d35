import Mathlib.Algebra.GroupWithZero.Nat
import Mathlib.Data.List.DropRight
import MemoryArchive.Text.Trim
import MemoryArchive.Text.Offsets

namespace MemoryArchive.Url

open Lines (byteLen byteLen_append dropBeginning dropBeginning_append)

/-- Controls and blanks do not count at the ends of a URL. -/
def isEdge (c : Char) : Bool := c.toNat ≤ 0x20

/-- Tabs and line ends do not count anywhere. -/
def counts (c : Char) : Bool := c != '\t' && c != '\n' && c != '\r'

/-- The path ends where the query or the fragment begins. -/
def inPath (c : Char) : Bool := c != '?' && c != '#'

def inHost (c : Char) : Bool := c != '/' && c != '\\' && inPath c

def slash (c : Char) : Char := if c = '\\' then '/' else c

/-- A text between its slashes. -/
def segments : List Char → List (List Char)
  | [] => [[]]
  | c :: text =>
      if c = '/' then [] :: segments text
      else
        match segments text with
        | [] => [[c]]
        | s :: ss => (c :: s) :: ss

def joined : List (List Char) → List Char
  | [] => []
  | [s] => s
  | s :: t :: ss => s ++ '/' :: joined (t :: ss)

def lower (s : List Char) : List Char := s.map Char.toLower

def isDot (s : List Char) : Bool := lower s == ".".toList || lower s == "%2e".toList

def isDotDot (s : List Char) : Bool :=
  lower s == "..".toList || lower s == ".%2e".toList || lower s == "%2e.".toList || lower s == "%2e%2e".toList

/-- The segments of a path without those that stand for the same or the upper one. -/
def resolve : List (List Char) → List (List Char) → List (List Char)
  | acc, [] => acc.reverse
  | acc, s :: ss =>
      if isDotDot s then resolve (if ss = [] then [] :: acc.tail else acc.tail) ss
      else if isDot s then resolve (if ss = [] then [] :: acc else acc) ss
      else resolve (s :: acc) ss

/-- What counts of a path that ends a URL. -/
def cutPath (text : List Char) : List Char := ((text.rdropWhile isEdge).filter counts).takeWhile inPath

/-- The path of a URL below its host. -/
def pathText (text : List Char) : List Char := joined (resolve [] (segments ((cutPath text).map slash)))

def hexDigit (n : Nat) : Char := Char.ofNat (if n < 10 then 0x30 + n else 0x37 + n)

def percentByte (b : UInt8) : List Char := ['%', hexDigit (b.toNat / 16), hexDigit (b.toNat % 16)]

def utf8 (text : List Char) : List UInt8 := text.flatMap String.utf8EncodeChar

def isEncoded (c : Char) : Bool :=
  c.toNat ≤ 0x20 || 0x7F ≤ c.toNat || "\"#<>?^`\x7b\x7d".toList.contains c

def encodeChar (c : Char) : List Char :=
  if isEncoded c then (String.utf8EncodeChar c).flatMap percentByte else [c]

def percentEncode (text : List Char) : List Char := text.flatMap encodeChar

/-- The path of a URL. -/
def path (url : List Char) : Option (List Char) :=
  (dropBeginning "https://".toList (((url.dropWhile isEdge).rdropWhile isEdge).filter counts)).map fun rest =>
    let behind := ((rest.dropWhile inHost).takeWhile inPath).map slash
    percentEncode (joined (resolve [] (segments ((dropBeginning ['/'] behind).getD behind))))

def hexValue (c : Char) : Option Nat :=
  let n := c.toNat
  if 0x30 ≤ n ∧ n ≤ 0x39 then some (n - 0x30)
  else if 0x41 ≤ n ∧ n ≤ 0x46 then some (n - 0x37)
  else if 0x61 ≤ n ∧ n ≤ 0x66 then some (n - 0x57)
  else none

/-- The byte that two digits stand for. -/
def escaped : List Char → Option UInt8
  | a :: b :: _ => (hexValue a).bind fun x => (hexValue b).map fun y => UInt8.ofNat (16 * x + y)
  | _ => none

/-- The bytes of a text of which the first `k` characters are passed over. -/
def percentDecode : Nat → List Char → List UInt8
  | _, [] => []
  | k + 1, _ :: text => percentDecode k text
  | 0, c :: text =>
      if c = '%' then
        match escaped text with
        | some b => b :: percentDecode 2 text
        | none => 0x25 :: percentDecode 0 text
      else String.utf8EncodeChar c ++ percentDecode 0 text

def decode (bytes : List UInt8) : Option (List Char) := bytes.toByteArray.utf8Decode?.map Array.toList

/-- The path of a URL as who serves it reads it. -/
def decodedPath (url : List Char) : Option (List Char) := (path url).bind fun p => decode (percentDecode 0 p)

/-- No percent sign has two digits behind it. -/
def Bare : List Char → Prop
  | [] => True
  | c :: text => (c = '%' → escaped text = none) ∧ Bare text

instance decidableBare : (text : List Char) → Decidable (Bare text)
  | [] => inferInstanceAs (Decidable True)
  | c :: text =>
      have := decidableBare text
      inferInstanceAs (Decidable ((c = '%' → escaped text = none) ∧ Bare text))

/-- A text that a URL carries as it is. -/
structure Safe (text : List Char) : Prop where
  edge : ∀ c ∈ text.getLast?, isEdge c = false
  chars : ∀ c ∈ text, (counts c && inPath c && c != '\\') = true
  segments : ∀ s ∈ segments text, isDot s = false ∧ isDotDot s = false
  bare : Bare text

theorem safe_iff {text : List Char} : Safe text ↔
    (∀ c ∈ text.getLast?, isEdge c = false) ∧ (∀ c ∈ text, (counts c && inPath c && c != '\\') = true) ∧
      (∀ s ∈ segments text, isDot s = false ∧ isDotDot s = false) ∧ Bare text :=
  ⟨fun h => ⟨h.edge, h.chars, h.segments, h.bare⟩, fun h => ⟨h.1, h.2.1, h.2.2.1, h.2.2.2⟩⟩

/-- What holds of the last character of a text is decided from the text. -/
instance (priority := 1100) decidableLast (text : List Char) (p : Char → Prop) [DecidablePred p] :
    Decidable (∀ c ∈ text.getLast?, p c) := Option.decidableForallMem text.getLast?

instance (text : List Char) : Decidable (Safe text) := decidable_of_iff _ safe_iff.symm

section Segments

theorem segments_ne_nil (text : List Char) : segments text ≠ [] := by
  cases text with
  | nil => exact List.cons_ne_nil _ _
  | cons c text =>
    rw [segments]
    split
    · exact List.cons_ne_nil _ _
    · split <;> exact List.cons_ne_nil _ _

theorem segments_slash (text : List Char) : segments ('/' :: text) = [] :: segments text := if_pos rfl

theorem segments_cons {c : Char} (hc : c ≠ '/') {text s : List Char} {ss : List (List Char)}
    (h : segments text = s :: ss) : segments (c :: text) = (c :: s) :: ss := by
  rw [segments, if_neg hc, h]

theorem joined_cons (s : List Char) {ss : List (List Char)} (hne : ss ≠ []) :
    joined (s :: ss) = s ++ '/' :: joined ss := by
  obtain ⟨t, ss, rfl⟩ := List.exists_cons_of_ne_nil hne
  rfl

theorem joined_head (c : Char) (s : List Char) (ss : List (List Char)) :
    joined ((c :: s) :: ss) = c :: joined (s :: ss) := by
  cases ss with
  | nil => rfl
  | cons t ss => rfl

theorem joined_segments (text : List Char) : joined (segments text) = text := by
  induction text with
  | nil => rfl
  | cons c text ih =>
    by_cases hc : c = '/'
    · rw [hc, segments_slash, joined_cons [] (segments_ne_nil text), ih]
      rfl
    · obtain ⟨s, ss, hs⟩ := List.exists_cons_of_ne_nil (segments_ne_nil text)
      rw [segments_cons hc hs, joined_head, ← hs, ih]

theorem segments_append (front back : List Char) :
    segments (front ++ '/' :: back) = segments front ++ segments back := by
  induction front with
  | nil => exact segments_slash back
  | cons c front ih =>
    by_cases hc : c = '/'
    · rw [hc, List.cons_append, segments_slash, segments_slash, ih]
      rfl
    · obtain ⟨s, ss, hs⟩ := List.exists_cons_of_ne_nil (segments_ne_nil front)
      rw [hs, List.cons_append] at ih
      rw [List.cons_append, segments_cons hc ih, segments_cons hc hs]
      rfl

/-- The room that segments take with their slashes. -/
def room (ss : List (List Char)) : Nat := (ss.map fun s => byteLen s + 1).sum

theorem room_cons (s : List Char) (ss : List (List Char)) : room (s :: ss) = byteLen s + 1 + room ss := rfl

theorem byteLen_joined {ss : List (List Char)} (hne : ss ≠ []) : byteLen (joined ss) + 1 = room ss := by
  induction ss with
  | nil => exact absurd rfl hne
  | cons s ss ih =>
    cases ss with
    | nil => rfl
    | cons t ss =>
      rw [joined_cons s (List.cons_ne_nil t ss), byteLen_append, byteLen, room_cons,
        ← ih (List.cons_ne_nil t ss)]
      have hslash : Char.utf8Size '/' = 1 := by decide
      omega

end Segments

section Lengths

theorem byteLen_pos {text : List Char} (hne : text ≠ []) : 0 < byteLen text := by
  obtain ⟨c, rest, rfl⟩ := List.exists_cons_of_ne_nil hne
  exact Nat.add_pos_left c.utf8Size_pos _

/-- A part of a text is shorter, or all of it. -/
theorem byteLen_sublist {part text : List Char} (h : part.Sublist text) :
    byteLen part ≤ byteLen text ∧ (byteLen part = byteLen text → part = text) := by
  induction h with
  | slnil => exact ⟨Nat.le_refl _, fun _ => rfl⟩
  | cons c _ ih =>
    have hpos := c.utf8Size_pos
    have hle := ih.1
    rw [byteLen]
    exact ⟨by omega, fun heq => by omega⟩
  | cons_cons c _ ih =>
    rw [byteLen, byteLen]
    exact ⟨Nat.add_le_add_left ih.1 _, fun heq => congrArg (c :: ·) (ih.2 (Nat.add_left_cancel heq))⟩

theorem byteLen_slash (text : List Char) : byteLen (text.map slash) = byteLen text := by
  induction text with
  | nil => rfl
  | cons c text ih =>
    have hsize : (slash c).utf8Size = c.utf8Size := by
      rw [slash]
      split
      · rename_i hc
        rw [hc]
        decide
      · rfl
    rw [List.map_cons, byteLen, byteLen, ih, hsize]

theorem map_slash {text : List Char} : text.map slash = text ↔ '\\' ∉ text := by
  induction text with
  | nil => simp
  | cons c text ih =>
    have hc : slash c = c ↔ '\\' ≠ c := by
      rw [slash]
      split
      · rename_i hc
        rw [hc]
        decide
      · rename_i hc
        exact ⟨fun _ h => hc h.symm, fun _ => rfl⟩
    rw [List.map_cons, List.cons.injEq, ih, hc, List.mem_cons, not_or]

theorem dotted_pos {s : List Char} (h : isDot s = true ∨ isDotDot s = true) : 0 < byteLen s := by
  refine byteLen_pos ?_
  rintro rfl
  revert h
  decide

theorem resolve_plain {acc ss : List (List Char)} (h : ∀ s ∈ ss, isDot s = false ∧ isDotDot s = false) :
    resolve acc ss = acc.reverse ++ ss := by
  induction ss generalizing acc with
  | nil => exact (List.append_nil _).symm
  | cons s ss ih =>
    obtain ⟨⟨hdot, hdotdot⟩, hrest⟩ := List.forall_mem_cons.mp h
    rw [resolve, hdot, hdotdot, if_neg Bool.false_ne_true, if_neg Bool.false_ne_true, ih hrest,
      List.reverse_cons, List.append_assoc]
    rfl

/-- A path gets shorter when one of its segments is resolved. -/
theorem room_resolve (acc ss : List (List Char)) :
    room (resolve acc ss) ≤ room acc + room ss ∧
      (room (resolve acc ss) = room acc + room ss → ∀ s ∈ ss, isDot s = false ∧ isDotDot s = false) := by
  induction ss generalizing acc with
  | nil =>
    have hrev : room acc.reverse = room acc := by
      rw [room, List.map_reverse, List.sum_reverse]
      rfl
    exact ⟨Nat.le_of_eq hrev, fun _ _ h => absurd h List.not_mem_nil⟩
  | cons s ss ih =>
    have hshort : ∀ acc' : List (List Char), room acc' ≤ room acc + 1 → 0 < byteLen s →
        room (resolve acc' ss) < room acc + room (s :: ss) := by
      intro acc' hacc hpos
      have hle := (ih acc').1
      rw [room_cons]
      omega
    have htail : room acc.tail ≤ room acc := by
      cases acc with
      | nil => exact Nat.le_refl _
      | cons t acc => exact Nat.le_add_left _ _
    have hnil : ∀ ts : List (List Char), room ([] :: ts) = room ts + 1 := fun ts => Nat.add_comm _ _
    rw [resolve]
    split
    · rename_i hdotdot
      have hlt := hshort (if ss = [] then [] :: acc.tail else acc.tail) (by
        split
        · rw [hnil]
          exact Nat.succ_le_succ htail
        · exact Nat.le_succ_of_le htail) (dotted_pos (.inr hdotdot))
      exact ⟨hlt.le, fun heq => absurd heq hlt.ne⟩
    · split
      · rename_i hdot
        have hlt := hshort (if ss = [] then [] :: acc else acc) (by
          split
          · exact Nat.le_of_eq (hnil acc)
          · exact Nat.le_succ _) (dotted_pos (.inl hdot))
        exact ⟨hlt.le, fun heq => absurd heq hlt.ne⟩
      · rename_i hdotdot hdot
        obtain ⟨hle, heq⟩ := ih (s :: acc)
        have hsum : room (s :: acc) + room ss = room acc + room (s :: ss) := by
          rw [room_cons, room_cons]
          omega
        rw [hsum] at hle heq
        refine ⟨hle, fun h => List.forall_mem_cons.mpr ⟨?_, heq h⟩⟩
        exact ⟨Bool.eq_false_iff.mpr hdot, Bool.eq_false_iff.mpr hdotdot⟩

theorem resolve_ne_nil {acc ss : List (List Char)} (h : acc ≠ [] ∨ ss ≠ []) : resolve acc ss ≠ [] := by
  induction ss generalizing acc with
  | nil =>
    obtain h | h := h
    · exact List.reverse_eq_nil_iff.not.mpr h
    · exact absurd rfl h
  | cons s ss ih =>
    by_cases hss : ss = []
    · rw [resolve, if_pos hss, if_pos hss]
      split
      · exact ih (.inl (List.cons_ne_nil _ _))
      · split
        · exact ih (.inl (List.cons_ne_nil _ _))
        · exact ih (.inl (List.cons_ne_nil _ _))
    · rw [resolve]
      split
      · exact ih (.inr hss)
      · split
        · exact ih (.inr hss)
        · exact ih (.inr hss)

end Lengths

section Percent

theorem hexValue_percent : hexValue '%' = none := by decide

theorem hexValue_digit : ∀ n < 16, hexValue (hexDigit n) = some n := by decide

theorem hexValue_encoded {c : Char} (h : isEncoded c = true) : hexValue c = none := by
  simp only [isEncoded, Bool.or_eq_true, decide_eq_true_eq, List.contains_iff_mem] at h
  obtain (hlow | hhigh) | hmem := h
  · dsimp only [hexValue]
    rw [if_neg (by omega), if_neg (by omega), if_neg (by omega)]
  · dsimp only [hexValue]
    rw [if_neg (by omega), if_neg (by omega), if_neg (by omega)]
  · revert c
    decide

/-- The first character of what stands for a character. -/
theorem encodeChar_head (c : Char) :
    ∃ x xs, encodeChar c = x :: xs ∧ hexValue x = hexValue c ∧ (hexValue c ≠ none → xs = []) := by
  rw [encodeChar]
  split
  · rename_i hc
    have hne : String.utf8EncodeChar c ≠ [] := by
      intro h
      have hlen := congrArg List.length h
      rw [String.length_utf8EncodeChar] at hlen
      exact absurd hlen c.utf8Size_pos.ne'
    obtain ⟨b, bytes, hbytes⟩ := List.exists_cons_of_ne_nil hne
    rw [hbytes, hexValue_encoded hc]
    exact ⟨'%', _, rfl, hexValue_percent, fun h => absurd rfl h⟩
  · exact ⟨c, [], rfl, rfl, fun _ => rfl⟩

theorem escaped_of_first {a : Char} (h : hexValue a = none) (text : List Char) :
    escaped (a :: text) = none := by
  cases text with
  | nil => rfl
  | cons b text =>
    rw [escaped, h]
    rfl

theorem escaped_of_second {b : Char} (h : hexValue b = none) (a : Char) (text : List Char) :
    escaped (a :: b :: text) = none := by
  rw [escaped, h]
  cases hexValue a <;> rfl

theorem escaped_some {text : List Char} {b : UInt8} (h : escaped text = some b) :
    ∃ x y rest, text = x :: y :: rest ∧ hexValue x ≠ none ∧ hexValue y ≠ none := by
  cases text with
  | nil => cases h
  | cons x text =>
    cases text with
    | nil => cases h
    | cons y rest =>
      refine ⟨x, y, rest, rfl, fun hx => ?_, fun hy => ?_⟩
      · rw [escaped_of_first hx] at h
        cases h
      · rw [escaped_of_second hy] at h
        cases h

theorem escaped_encode (text : List Char) : escaped (percentEncode text) = escaped text := by
  cases text with
  | nil => rfl
  | cons a text =>
    obtain ⟨x, xs, hx, hvalue, hxs⟩ := encodeChar_head a
    have hall : percentEncode (a :: text) = x :: (xs ++ percentEncode text) := by
      rw [percentEncode, List.flatMap_cons, hx]
      rfl
    cases ha : hexValue a with
    | none => rw [hall, escaped_of_first (hvalue.trans ha), escaped_of_first ha]
    | some n =>
      rw [hall, hxs (by rw [ha]; nofun), List.nil_append]
      cases text with
      | nil => rfl
      | cons b text =>
        obtain ⟨y, ys, hy, hvalue', hys⟩ := encodeChar_head b
        have hrest : percentEncode (b :: text) = y :: (ys ++ percentEncode text) := by
          rw [percentEncode, List.flatMap_cons, hy]
          rfl
        rw [hrest, escaped, escaped, hvalue, hvalue']

theorem percentDecode_byte (b : UInt8) (text : List Char) :
    percentDecode 0 (percentByte b ++ text) = b :: percentDecode 0 text := by
  have hb := b.toNat_lt
  have hescaped : escaped (hexDigit (b.toNat / 16) :: hexDigit (b.toNat % 16) :: text) = some b := by
    rw [escaped, hexValue_digit _ (by omega), hexValue_digit _ (by omega)]
    refine congrArg some (UInt8.toNat_inj.mp ?_)
    rw [UInt8.toNat_ofNat']
    omega
  rw [percentByte, List.cons_append, List.cons_append, List.cons_append, List.nil_append, percentDecode,
    if_pos rfl, hescaped]
  rfl

theorem percentDecode_bytes (bytes : List UInt8) (text : List Char) :
    percentDecode 0 (bytes.flatMap percentByte ++ text) = bytes ++ percentDecode 0 text := by
  induction bytes with
  | nil => rfl
  | cons b bytes ih =>
    rw [List.flatMap_cons, List.append_assoc, percentDecode_byte, ih]
    rfl

/-- Who decodes does not see what was encoded. -/
theorem percentDecode_encode (k : Nat) (text : List Char) (hk : ∀ c ∈ text.take k, hexValue c ≠ none) :
    percentDecode k (percentEncode text) = percentDecode k text := by
  induction text generalizing k with
  | nil => rfl
  | cons c text ih =>
    cases k with
    | succ k =>
      rw [List.take_succ_cons] at hk
      obtain ⟨hc, hrest⟩ := List.forall_mem_cons.mp hk
      have hplain : encodeChar c = [c] := if_neg fun h => hc (hexValue_encoded h)
      rw [percentEncode, List.flatMap_cons, hplain]
      exact ih k hrest
    | zero =>
      by_cases hpercent : c = '%'
      · have hall : percentEncode (c :: text) = '%' :: percentEncode text := by
          rw [hpercent]
          rfl
        rw [hall, hpercent, percentDecode, percentDecode, if_pos rfl, if_pos rfl, escaped_encode]
        cases hescaped : escaped text with
        | none => exact congrArg _ (ih 0 fun _ h => absurd h List.not_mem_nil)
        | some b =>
          obtain ⟨x, y, rest, rfl, hx, hy⟩ := escaped_some hescaped
          refine congrArg _ (ih 2 ?_)
          exact List.forall_mem_cons.mpr ⟨hx, List.forall_mem_cons.mpr
            ⟨hy, fun _ h => absurd h List.not_mem_nil⟩⟩
      · have hrest := ih 0 fun _ h => absurd h List.not_mem_nil
        rw [percentDecode, if_neg hpercent, ← hrest, percentEncode, List.flatMap_cons, encodeChar]
        split
        · exact percentDecode_bytes _ _
        · rw [List.singleton_append, percentDecode, if_neg hpercent]
          rfl

/-- Decoded, a text is not longer, and as long only if there is nothing to decode. -/
theorem length_percentDecode (k : Nat) (text : List Char) :
    (percentDecode k text).length ≤ byteLen (text.drop k) ∧
      (k = 0 → (percentDecode k text).length = byteLen text → Bare text) := by
  induction text generalizing k with
  | nil =>
    refine ⟨?_, fun _ _ => trivial⟩
    rw [List.drop_nil, percentDecode]
    exact Nat.le_refl _
  | cons c text ih =>
    cases k with
    | succ k => exact ⟨(ih k).1, fun h => absurd h (Nat.succ_ne_zero k)⟩
    | zero =>
      obtain ⟨hle, hbare⟩ := ih 0
      rw [List.drop_zero] at hle ⊢
      rw [percentDecode, byteLen]
      split
      · rename_i hc
        have hsize : c.utf8Size = 1 := by
          rw [hc]
          decide
        cases hescaped : escaped text with
        | none =>
          dsimp only
          rw [List.length_cons, hsize]
          exact ⟨by omega, fun _ heq => ⟨fun _ => hescaped, hbare rfl (by omega)⟩⟩
        | some b =>
          obtain ⟨x, y, rest, rfl, -, -⟩ := escaped_some hescaped
          have hfew := (ih 2).1
          have hx := x.utf8Size_pos
          have hdrop : (x :: y :: rest).drop 2 = rest := rfl
          rw [hdrop] at hfew
          dsimp only
          rw [List.length_cons, byteLen, byteLen, hsize]
          exact ⟨by omega, fun _ heq => by omega⟩
      · rename_i hc
        rw [List.length_append, String.length_utf8EncodeChar]
        exact ⟨by omega, fun _ heq => ⟨fun h => absurd h hc, hbare rfl (by omega)⟩⟩

theorem percentDecode_bare {text : List Char} (h : Bare text) : percentDecode 0 text = utf8 text := by
  induction text with
  | nil => rfl
  | cons c text ih =>
    rw [percentDecode, utf8, List.flatMap_cons]
    split
    · rename_i hc
      rw [h.1 hc, hc]
      exact congrArg _ (ih h.2)
    · rw [ih h.2]
      rfl

theorem length_utf8 (text : List Char) : (utf8 text).length = byteLen text := by
  induction text with
  | nil => rfl
  | cons c text ih =>
    rw [utf8, List.flatMap_cons, List.length_append, String.length_utf8EncodeChar, byteLen, ← ih]
    rfl

end Percent

section Path

theorem decode_iff {bytes : List UInt8} {text : List Char} : decode bytes = some text ↔ bytes = utf8 text := by
  constructor
  · intro h
    obtain ⟨chars, hchars, rfl⟩ := Option.map_eq_some_iff.mp h
    have hsome : bytes.toByteArray.utf8Decode?.isSome := by
      rw [hchars]
      rfl
    have hencode : (bytes.toByteArray.utf8Decode?.get hsome).toList.utf8Encode = bytes.toByteArray :=
      ByteArray.utf8Encode_get_utf8Decode?
    simp only [hchars, Option.get_some] at hencode
    have hbytes := congrArg (fun b : ByteArray => b.data.toList) hencode
    rw [List.utf8Encode, List.toList_data_toByteArray, List.toList_data_toByteArray] at hbytes
    exact hbytes.symm
  · rintro rfl
    have hchars : (utf8 text).toByteArray.utf8Decode? = some text.toArray := List.utf8Decode?_utf8Encode
    rw [decode, hchars]
    exact congrArg some (List.toList_toArray)

theorem utf8_inj {text text' : List Char} (h : utf8 text = utf8 text') : text = text' := by
  have hdecode : decode (utf8 text) = some text' := decode_iff.mpr h
  rw [decode_iff.mpr rfl] at hdecode
  exact Option.some.inj hdecode

theorem cutPath_sublist (text : List Char) : (cutPath text).Sublist (text.rdropWhile isEdge) :=
  (List.takeWhile_sublist inPath).trans List.filter_sublist

theorem cutPath_iff {text : List Char} :
    cutPath text = text ↔
      (∀ c ∈ text.getLast?, isEdge c = false) ∧ ∀ c ∈ text, counts c = true ∧ inPath c = true := by
  have hbegin := List.rdropWhile_prefix isEdge text
  constructor
  · intro h
    have hsub := cutPath_sublist text
    rw [h] at hsub
    have htrim : text.rdropWhile isEdge = text := hbegin.sublist.antisymm hsub
    have hfilter : text.filter counts = text := by
      have hpart : (cutPath text).Sublist (text.filter counts) := by
        rw [cutPath, htrim]
        exact List.takeWhile_sublist inPath
      rw [h] at hpart
      exact List.filter_sublist.antisymm hpart
    rw [cutPath, htrim, hfilter] at h
    refine ⟨fun c hc => ?_, fun c hc =>
      ⟨List.filter_eq_self.mp hfilter c hc, List.takeWhile_eq_self_iff.mp h c hc⟩⟩
    obtain ⟨hne, rfl⟩ := List.mem_getLast?_eq_getLast hc
    exact Bool.eq_false_iff.mpr (List.rdropWhile_eq_self_iff.mp htrim hne)
  · rintro ⟨hedge, hchars⟩
    have htrim : text.rdropWhile isEdge = text := by
      refine List.rdropWhile_eq_self_iff.mpr fun hne => ?_
      rw [hedge _ (List.getLast?_eq_some_getLast hne)]
      exact Bool.false_ne_true
    rw [cutPath, htrim, List.filter_eq_self.mpr fun c hc => (hchars c hc).1]
    exact List.takeWhile_eq_self_iff.mpr fun c hc => (hchars c hc).2

/-- A path is not longer than its text, and as long only if nothing is cut or resolved. -/
theorem byteLen_pathText (text : List Char) :
    byteLen (pathText text) ≤ byteLen text ∧ (byteLen (pathText text) = byteLen text →
      cutPath text = text ∧ ∀ s ∈ segments (text.map slash), isDot s = false ∧ isDotDot s = false) := by
  have hbegin := List.rdropWhile_prefix isEdge text
  obtain ⟨hcut, hwhole⟩ := byteLen_sublist ((cutPath_sublist text).trans hbegin.sublist)
  have hne := segments_ne_nil ((cutPath text).map slash)
  obtain ⟨hroom, hdots⟩ := room_resolve [] (segments ((cutPath text).map slash))
  have hresolved : resolve [] (segments ((cutPath text).map slash)) ≠ [] := resolve_ne_nil (.inr hne)
  have hpath := byteLen_joined hresolved
  have hsegments := byteLen_joined hne
  have hnone : room ([] : List (List Char)) = 0 := rfl
  rw [joined_segments, byteLen_slash] at hsegments
  rw [pathText]
  refine ⟨by omega, fun h => ?_⟩
  have hall := hwhole (by omega)
  refine ⟨hall, ?_⟩
  rw [hall] at hdots hroom hsegments h hpath
  exact hdots (by omega)

/-- Below a host, exactly the safe texts come through. -/
theorem decode_pathText (text : List Char) :
    decode (percentDecode 0 (percentEncode (pathText text))) = some text ↔ Safe text := by
  rw [percentDecode_encode 0 _ fun _ h => absurd h List.not_mem_nil, decode_iff]
  constructor
  · intro h
    -- Nothing on the way makes a text longer, so that nothing makes this one shorter.
    obtain ⟨hdecoded, hbare⟩ := length_percentDecode 0 (pathText text)
    obtain ⟨hshort, hsame⟩ := byteLen_pathText text
    have hlen : (percentDecode 0 (pathText text)).length = byteLen text := by rw [h, length_utf8]
    rw [List.drop_zero] at hdecoded
    obtain ⟨hcut, hdots⟩ := hsame (by omega)
    have hpath : pathText text = text.map slash := by
      rw [pathText, hcut, resolve_plain hdots, List.reverse_nil, List.nil_append, joined_segments]
    have hb := hbare rfl (by omega)
    rw [hpath] at h hb
    rw [percentDecode_bare hb] at h
    have hslash := utf8_inj h
    rw [hslash] at hdots hb
    obtain ⟨hedge, hchars⟩ := cutPath_iff.mp hcut
    refine ⟨hedge, fun c hc => ?_, hdots, hb⟩
    have hback : c ≠ '\\' := fun heq => map_slash.mp hslash (heq ▸ hc)
    rw [(hchars c hc).1, (hchars c hc).2, Bool.true_and, Bool.true_and, bne_iff_ne]
    exact hback
  · intro h
    have hcut : cutPath text = text := cutPath_iff.mpr ⟨h.edge, fun c hc => by
      have hchar := h.chars c hc
      simp only [Bool.and_eq_true] at hchar
      exact hchar.1⟩
    have hslash : text.map slash = text := map_slash.mpr fun hmem => absurd (h.chars _ hmem) (by decide)
    rw [pathText, hcut, hslash, resolve_plain h.segments, List.reverse_nil, List.nil_append,
      joined_segments, percentDecode_bare h.bare]

theorem rdropWhile_stop (p : Char → Bool) {c : Char} (hc : p c = false) (front text : List Char) :
    (front ++ c :: text).rdropWhile p = front ++ c :: text.rdropWhile p := by
  induction text using List.reverseRecOn with
  | nil => exact List.rdropWhile_concat_neg p front c (ne_true_of_eq_false hc)
  | append_singleton text d ih =>
    have hassoc : front ++ c :: (text ++ [d]) = (front ++ c :: text) ++ [d] := by
      rw [List.append_assoc]
      rfl
    rw [hassoc]
    cases hd : p d with
    | true => rw [List.rdropWhile_concat_pos p _ d hd, List.rdropWhile_concat_pos p _ d hd, ih]
    | false =>
      rw [List.rdropWhile_concat_neg p _ d (ne_true_of_eq_false hd),
        List.rdropWhile_concat_neg p _ d (ne_true_of_eq_false hd), hassoc]

/-- Who serves a URL reads the path below the host. -/
theorem decodedPath_eq {host : List Char} (hhost : ∀ c ∈ host, inHost c = true ∧ counts c = true)
    (text : List Char) :
    decodedPath ("https://".toList ++ (host ++ '/' :: text)) =
      decode (percentDecode 0 (percentEncode (pathText text))) := by
  have hends : ((("https://".toList ++ (host ++ '/' :: text)).dropWhile isEdge).rdropWhile isEdge) =
      "https://".toList ++ (host ++ '/' :: text.rdropWhile isEdge) := by
    have hfront : ("https://".toList ++ (host ++ '/' :: text)).dropWhile isEdge =
        "https://".toList ++ (host ++ '/' :: text) := rfl
    rw [hfront, ← List.append_assoc, rdropWhile_stop isEdge (by decide), List.append_assoc]
  have hcounts : ("https://".toList ++ (host ++ '/' :: text.rdropWhile isEdge)).filter counts =
      "https://".toList ++ (host ++ '/' :: (text.rdropWhile isEdge).filter counts) := by
    have hkeep : host.filter counts = host := List.filter_eq_self.mpr fun c hc => (hhost c hc).2
    rw [List.filter_append, List.filter_append, hkeep]
    rfl
  have hbehind : (host ++ '/' :: (text.rdropWhile isEdge).filter counts).dropWhile inHost =
      '/' :: (text.rdropWhile isEdge).filter counts := by
    rw [List.dropWhile_append_of_pos fun c hc => (hhost c hc).1]
    rfl
  have hroot : ∀ rest : List Char, (dropBeginning ['/'] ((('/' :: rest).takeWhile inPath).map slash)).getD
      ((('/' :: rest).takeWhile inPath).map slash) = (rest.takeWhile inPath).map slash := by
    intro rest
    have hslash : (('/' :: rest).takeWhile inPath).map slash = ['/'] ++ (rest.takeWhile inPath).map slash := rfl
    rw [hslash, dropBeginning_append]
    rfl
  rw [decodedPath, path, hends, hcounts, dropBeginning_append, Option.map_some, Option.bind_some, hbehind]
  dsimp only
  rw [hroot]
  rfl

theorem mem_segments {text s : List Char} (hs : s ∈ segments text) {c : Char} (hc : c ∈ s) : c ∈ text := by
  induction text generalizing s with
  | nil =>
    obtain rfl := List.mem_singleton.mp hs
    exact hc
  | cons d text ih =>
    by_cases hd : d = '/'
    · rw [hd, segments_slash, List.mem_cons] at hs
      obtain rfl | hs := hs
      · cases hc
      · exact List.mem_cons_of_mem d (ih hs hc)
    · obtain ⟨t, ss, ht⟩ := List.exists_cons_of_ne_nil (segments_ne_nil text)
      rw [segments_cons hd ht, List.mem_cons] at hs
      obtain rfl | hs := hs
      · obtain rfl | hc := List.mem_cons.mp hc
        · exact List.mem_cons_self
        · refine List.mem_cons_of_mem d (ih ?_ hc)
          rw [ht]
          exact List.mem_cons_self
      · refine List.mem_cons_of_mem d (ih ?_ hc)
        rw [ht]
        exact List.mem_cons_of_mem t hs

/-- A segment that stands for another one begins with a dot or a percent sign. -/
theorem dotted_mem {s : List Char} (h : isDot s = true ∨ isDotDot s = true) : '.' ∈ s ∨ '%' ∈ s := by
  have hlow : ∀ {c d : Char}, d = '.' ∨ d = '%' → c.toLower = d → c = d := by
    intro c d hd
    refine Lines.toLower_eq ?_
    obtain rfl | rfl := hd
    · decide
    · decide
  cases s with
  | nil => exact absurd h (by decide)
  | cons c s =>
    have hfirst : c.toLower = '.' ∨ c.toLower = '%' := by
      simp only [isDot, isDotDot, lower, Bool.or_eq_true, beq_iff_eq, List.map_cons] at h
      obtain (h | h) | ((h | h) | h) | h := h
      · exact .inl (List.cons.inj h).1
      · exact .inr (List.cons.inj h).1
      · exact .inl (List.cons.inj h).1
      · exact .inl (List.cons.inj h).1
      · exact .inr (List.cons.inj h).1
      · exact .inr (List.cons.inj h).1
    obtain h | h := hfirst
    · exact .inl (hlow (.inl rfl) h ▸ List.mem_cons_self)
    · exact .inr (hlow (.inr rfl) h ▸ List.mem_cons_self)

theorem bare_append {front : List Char} (h : '%' ∉ front) (text : List Char) :
    Bare (front ++ text) ↔ Bare text := by
  induction front with
  | nil => exact Iff.rfl
  | cons c front ih =>
    rw [List.mem_cons, not_or] at h
    rw [← ih h.2]
    exact ⟨fun hb => hb.2, fun hb => ⟨fun hc => absurd hc.symm h.1, hb⟩⟩

/-- Below plain segments, a text is as safe as it is. -/
theorem safe_below {front text : List Char} (hne : text ≠ [])
    (hfront : ∀ c ∈ front, (counts c && inPath c && c != '\\') = true ∧ c ≠ '.' ∧ c ≠ '%') :
    Safe (front ++ '/' :: text) ↔ Safe text := by
  have hlast : (front ++ '/' :: text).getLast? = text.getLast? := by
    rw [List.getLast?_append, List.getLast?_cons, List.getLast?_eq_some_getLast hne]
    rfl
  have hsegments : ∀ s ∈ segments front, isDot s = false ∧ isDotDot s = false := by
    intro s hs
    have hnot : ¬ (isDot s = true ∨ isDotDot s = true) := by
      intro h
      obtain h | h := dotted_mem h
      · exact (hfront _ (mem_segments hs h)).2.1 rfl
      · exact (hfront _ (mem_segments hs h)).2.2 rfl
    rw [not_or] at hnot
    exact ⟨Bool.eq_false_iff.mpr hnot.1, Bool.eq_false_iff.mpr hnot.2⟩
  have hbare : Bare (front ++ '/' :: text) ↔ Bare text := by
    rw [bare_append fun h => (hfront _ h).2.2 rfl]
    exact ⟨fun hb => hb.2, fun hb => ⟨fun hc => absurd hc (by decide), hb⟩⟩
  rw [safe_iff, safe_iff, hlast, hbare, segments_append]
  simp only [List.forall_mem_append, List.forall_mem_cons]
  have hslash : (counts '/' && inPath '/' && '/' != '\\') = true := by decide
  constructor
  · rintro ⟨hedge, hchars, hs, hb⟩
    exact ⟨hedge, hchars.2.2, hs.2, hb⟩
  · rintro ⟨hedge, hchars, hs, hb⟩
    exact ⟨hedge, ⟨fun c hc => (hfront c hc).1, hslash, hchars⟩, ⟨hsegments, hs⟩, hb⟩

end Path

end MemoryArchive.Url
