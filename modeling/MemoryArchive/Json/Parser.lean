import MemoryArchive.Json.Printer

namespace MemoryArchive.Json

/-- An array or object whose members up to here have been read, in reverse. -/
inductive Frame
  | items (done : List Json)
  | fields (done : Fields) (key : String)

inductive Expect
  | value (stack : List Frame)
  | firstItem (stack : List Frame)
  | afterItem (done : List Json) (stack : List Frame)
  | firstKey (stack : List Frame)
  | key (done : Fields) (stack : List Frame)
  | colon (done : Fields) (k : String) (stack : List Frame)
  | afterField (done : Fields) (stack : List Frame)
  | done (j : Json)

/-- Hand a complete value to the innermost open array or object. -/
def deliver (j : Json) : List Frame → Expect
  | [] => .done j
  | .items done :: stack => .afterItem (j :: done) stack
  | .fields done k :: stack => .afterField ((k, j) :: done) stack

def startValue (stack : List Frame) : Token → Option Expect
  | .openObject => some (.firstKey stack)
  | .openArray => some (.firstItem stack)
  | .atom j => some (deliver j stack)
  | .str s => some (deliver (.str s) stack)
  | _ => none

def accept : Expect → Token → Option Expect
  | .value stack, t => startValue stack t
  | .firstItem stack, .closeArray => some (deliver (.arr []) stack)
  | .firstItem stack, t => startValue (.items [] :: stack) t
  | .afterItem done stack, .comma => some (.value (.items done :: stack))
  | .afterItem done stack, .closeArray => some (deliver (.arr done.reverse) stack)
  | .firstKey stack, .closeObject => some (deliver (.obj []) stack)
  | .firstKey stack, .str k => some (.colon [] k stack)
  | .key done stack, .str k => some (.colon done k stack)
  | .colon done k stack, .colon => some (.value (.fields done k :: stack))
  | .afterField done stack, .comma => some (.key done stack)
  | .afterField done stack, .closeObject => some (deliver (.obj done.reverse) stack)
  | _, _ => none

def acceptAll (e : Expect) : List Token → Option Expect
  | [] => some e
  | t :: ts => (accept e t).bind fun e' => acceptAll e' ts

def parse (cs : List Char) : Option Json := do
  let ts ← lex cs
  match ← acceptAll (.value []) ts with
  | .done j => some j
  | _ => none

theorem acceptAll_append (e e' : Expect) (ts us : List Token) (h : acceptAll e ts = some e') :
    acceptAll e (ts ++ us) = acceptAll e' us := by
  induction ts generalizing e with
  | nil =>
    simp only [acceptAll, Option.some.injEq] at h
    subst h
    rfl
  | cons t ts ih =>
    simp only [acceptAll, Option.bind_eq_some_iff] at h
    obtain ⟨e₁, hstep, hrest⟩ := h
    simp [acceptAll, hstep, ih e₁ hrest]

/-- Tokens that are read where a value is expected are read just so as the
first item of an array: none of them starts with the closing bracket. -/
theorem acceptAll_firstItem (j : Json) (ts : List Token) (stack : List Frame)
    (h : acceptAll (.value (.items [] :: stack)) ts = some (deliver j (.items [] :: stack))) :
    acceptAll (.firstItem stack) ts = some (deliver j (.items [] :: stack)) := by
  cases ts with
  | nil => cases h
  | cons t ts =>
    have hstep : ∀ e, startValue (.items [] :: stack) t = some e →
        accept (.firstItem stack) t = some e := by
      intro e he
      cases t <;> simp_all [accept, startValue]
    simp only [acceptAll, accept, Option.bind_eq_some_iff] at h
    obtain ⟨e, he, hrest⟩ := h
    simp [acceptAll, hstep e he, hrest]

mutual

theorem acceptAll_tokens : ∀ (j : Json) (stack : List Frame),
    acceptAll (.value stack) (tokens j) = some (deliver j stack)
  | .null, _ | .bool _, _ | .num _, _ | .str _, _ => by simp [tokens, acceptAll, accept, startValue]
  | .arr [], stack => by
      simp [tokens, itemTokens, acceptAll, accept, startValue]
  | .arr (j :: items), stack => by
      have hj := acceptAll_firstItem j (tokens j) stack (acceptAll_tokens j (.items [] :: stack))
      have hm := acceptAll_moreItems items [j] stack
      have h := acceptAll_append _ _ _ [Token.closeArray] ((acceptAll_append _ _ _ _ hj).trans hm)
      simpa [tokens, itemTokens, acceptAll, accept, startValue] using h
  | .obj [], stack => by
      simp [tokens, fieldTokens, acceptAll, accept, startValue]
  | .obj ((k, v) :: fields), stack => by
      have hv := acceptAll_tokens v (.fields [] k :: stack)
      have hm := acceptAll_moreFields fields [(k, v)] stack
      have h := acceptAll_append _ _ _ [Token.closeObject] ((acceptAll_append _ _ _ _ hv).trans hm)
      simpa [tokens, fieldTokens, acceptAll, accept, startValue] using h

theorem acceptAll_moreItems : ∀ (items done : List Json) (stack : List Frame),
    acceptAll (.afterItem done stack) (moreItemTokens items) =
      some (.afterItem (items.reverse ++ done) stack)
  | [], done, stack => by simp [moreItemTokens, acceptAll]
  | j :: items, done, stack => by
      have hj := acceptAll_tokens j (.items done :: stack)
      have hm := acceptAll_moreItems items (j :: done) stack
      have h := (acceptAll_append _ _ _ _ hj).trans hm
      simpa [moreItemTokens, acceptAll, accept, startValue] using h

theorem acceptAll_moreFields : ∀ (fields done : Fields) (stack : List Frame),
    acceptAll (.afterField done stack) (moreFieldTokens fields) =
      some (.afterField (fields.reverse ++ done) stack)
  | [], done, stack => by simp [moreFieldTokens, acceptAll]
  | (k, v) :: fields, done, stack => by
      have hv := acceptAll_tokens v (.fields done k :: stack)
      have hm := acceptAll_moreFields fields ((k, v) :: done) stack
      have h := (acceptAll_append _ _ _ _ hv).trans hm
      simpa [moreFieldTokens, acceptAll, accept, startValue] using h

end

theorem parse_of_lexes {cs : List Char} {j : Json} (h : Lexes cs (tokens j)) : parse cs = some j := by
  simp [parse, lex_of_lexes h, acceptAll_tokens, deliver]

/-- A printed value is read back as itself, whatever the layout. -/
theorem parse_print (L : Layout) (d : Nat) (j : Json) : parse (print L d j) = some j :=
  parse_of_lexes (lexes_print L d j)

/-- A value that another one follows is no value. -/
theorem parse_followed {cs : List Char} {j : Json} (h : Lexes cs (tokens j)) (rest : List Char) :
    parse (cs ++ '{' :: rest) = none := by
  have hopen : scan .gap (cs ++ ['{']) = some (tokens j ++ [.openObject], .gap) :=
    scan_lexes_cons '{' [.openObject] h rfl rfl
  have hall : scan .gap (cs ++ '{' :: rest) =
      (scan .gap rest).map fun r => (tokens j ++ [.openObject] ++ r.1, r.2) := by
    rw [← scan_rest hopen rest, List.append_assoc]
    rfl
  have hdone : ∀ ts, acceptAll (.value []) (tokens j ++ .openObject :: ts) = none := by
    intro ts
    rw [acceptAll_append _ _ _ _ (acceptAll_tokens j [])]
    rfl
  rw [parse, lex, hall]
  cases scan .gap rest with
  | none => rfl
  | some r =>
    obtain ⟨us, m⟩ := r
    cases hm : settle m with
    | none => simp [hm]
    | some vs => simp [hm, hdone]

end MemoryArchive.Json
