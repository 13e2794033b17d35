import Mathlib.Algebra.GroupWithZero.Nat
import MemoryArchive.Ipc.Annotator
import MemoryArchive.Ipc.Operator
import MemoryArchive.Model.Pricing

namespace MemoryArchive.Ipc.UploadLimits

open Json (Fields)
open Model.Pricing (dumps ensureAscii unicodeEscape)

/-- The digit of six bits in the standard alphabet. -/
def sextet (n : Nat) : Char :=
  if n < 26 then Char.ofNat ('A'.toNat + n)
  else if n < 52 then Char.ofNat ('a'.toNat + (n - 26))
  else if n < 62 then Char.ofNat ('0'.toNat + (n - 52))
  else if n = 62 then '+'
  else '/'

/-- `base64.b64encode`: four characters for every three bytes. -/
def b64encode : List UInt8 → List Char
  | [] => []
  | [a] => [sextet (a.toNat / 4), sextet (a.toNat % 4 * 16), '=', '=']
  | [a, b] =>
      [sextet (a.toNat / 4), sextet (a.toNat % 4 * 16 + b.toNat / 16), sextet (b.toNat % 16 * 4), '=']
  | a :: b :: c :: rest =>
      [sextet (a.toNat / 4), sextet (a.toNat % 4 * 16 + b.toNat / 16),
        sextet (b.toNat % 16 * 4 + c.toNat / 64), sextet (c.toNat % 64)] ++ b64encode rest

/-- The message that `upload` sends. -/
def uploadFields (u : Upload) : Fields :=
  [("type", .str "upload_file"), ("session_id", .str u.sessionId), ("relative_path", .str u.relativePath),
    ("bytes", .str (String.ofList (b64encode u.bytes.data.toList))), ("content_type", .str u.contentType)]

/-- The line that the client sends. -/
def uploadLine (u : Upload) : List Char := dumps .spaced (.obj (uploadFields u))

def byteLength (line : List Char) : Nat := (line.map Char.utf8Size).sum

/-- The longest line that either kind of connection reads. -/
def maxLine : Nat := 4 * 1024 * 1024

/-- What a line stands for. Only uploads are looked into. -/
inductive Parsed
  | upload (u : Upload)
  | other
  | invalid

/-- A member that is there once, with a text. -/
def member (fields : Fields) (key : String) : Option String :=
  match fields.filter fun row => row.1 = key with
  | [(_, .str s)] => some s
  | _ => none

/-- What a connection uses of its libraries: base64, the message that serde_json ends with, and the
replies to messages of other kinds. -/
structure Library where
  decode : String → Option ByteArray
  serdeError : List Char → String
  other : List Char → OutboundMessage

/-- A message that ends its connection, a blank line, or a reply. -/
inductive Outcome
  | closed
  | skipped
  | answered (reply : OutboundMessage)

section Connections

variable (lib : Library)

def uploadMembers (fields : Fields) : Option Upload := do
  let sessionId ← member fields "session_id"
  let relativePath ← member fields "relative_path"
  let bytes ← (member fields "bytes").bind lib.decode
  let contentType ← member fields "content_type"
  return ⟨sessionId, relativePath, bytes, contentType⟩

def parseMessage (line : List Char) : Parsed :=
  match Json.parse line with
  | none => .invalid
  | some (.obj fields) =>
      match member fields "type" with
      | none => .invalid
      | some kind =>
          if kind = "upload_file" then (uploadMembers lib fields).elim .invalid .upload else .other
  | some _ => .other

def parseError (line : List Char) : OutboundMessage :=
  .error "PARSE_ERROR" s!"Could not parse message: {lib.serdeError line}"

/-- `handle_connection_inner`: a line is measured as it comes. -/
def operatorLine (s : System) (env : OperatorEnv) (line : List Char) : Outcome :=
  if maxLine < byteLength line then .closed
  else
    let line := Lines.trim line
    if line = [] then .skipped
    else
      match parseMessage lib line with
      | .invalid => .answered (parseError lib line)
      | .other => .answered (lib.other line)
      | .upload u => .answered ((handleMessage s env (.uploadFile u)).2.getD (lib.other line))

/-- The loop of an annotator: a line is measured without the blanks around it. -/
def annotatorLine (s : Server) (env : Env) (annotatorId : String) (line : List Char) : Outcome :=
  let line := Lines.trim line
  if line = [] then .skipped
  else if maxLine < byteLength line then .closed
  else
    match parseMessage lib line with
    | .invalid => .answered (parseError lib line)
    | .other => .answered (lib.other line)
    | .upload u => .answered (handleAnnotatorMessage s env annotatorId (.uploadFile u)).2

end Connections

def IsUploadReply : OutboundMessage → Prop
  | .fileUploaded _ _ => True
  | .error _ _ => True
  | _ => False

/-- A payload within the bound is answered with FileUploaded or an error, a larger one
with PAYLOAD_TOO_LARGE, and the connection stays open. -/
def Answers (u : Upload) (o : Outcome) : Prop :=
  if u.bytes.size ≤ maxUploadBytes then ∃ reply, o = .answered reply ∧ IsUploadReply reply
  else ∃ message, o = .answered (.error "PAYLOAD_TOO_LARGE" message)

section Ascii

open Json

theorem wide_tests {c : Char} (hc : 0x7f ≤ c.toNat) : c.isDigit = false ∧ c.isAlpha = false := by
  have hval : c.toNat = c.val.toNat := rfl
  refine ⟨?_, ?_⟩
  · rw [Bool.eq_false_iff]
    intro h
    simp only [Char.isDigit, Bool.and_eq_true, decide_eq_true_eq] at h
    have hle : c.val.toNat ≤ 57 := h.2
    omega
  · rw [Bool.eq_false_iff]
    intro h
    obtain h | h := Bool.or_eq_true_iff.mp (show (c.isUpper || c.isLower) = true from h)
    · have hle : c.val.toNat ≤ 90 := (of_decide_eq_true h).2
      omega
    · have hle : c.val.toNat ≤ 122 := of_decide_eq_true (Bool.and_eq_true_iff.mp h).2
      omega

theorem wide_ne {c d : Char} (hc : 0x7f ≤ c.toNat) (hd : d.toNat < 0x7f) : c ≠ d := by
  rintro rfl
  omega

theorem begin_wide {c : Char} (hc : 0x7f ≤ c.toNat) : begin c = none := by
  obtain ⟨hdigit, halpha⟩ := wide_tests hc
  have hne (d : Char) (hd : d.toNat < 0x7f) : c ≠ d := wide_ne hc hd
  simp [begin, isBlank, hdigit, halpha, hne ' ' (by decide), hne '\t' (by decide), hne '\n' (by decide),
    hne '\r' (by decide), hne '\x7b' (by decide), hne '\x7d' (by decide), hne '[' (by decide),
    hne ']' (by decide), hne ':' (by decide), hne ',' (by decide), hne '"' (by decide), hne '-' (by decide)]

theorem hexDigit?_wide {c : Char} (hc : 0x7f ≤ c.toNat) : hexDigit? c = none := by
  have hval : c.toNat = c.val.toNat := rfl
  have hlow : ¬ ('a' ≤ c ∧ c ≤ 'f') := by
    rintro ⟨-, h⟩
    have hle : c.val.toNat ≤ 102 := h
    omega
  have hup : ¬ ('A' ≤ c ∧ c ≤ 'F') := by
    rintro ⟨-, h⟩
    have hle : c.val.toNat ≤ 70 := h
    omega
  rw [hexDigit?, (wide_tests hc).1, if_neg hlow, if_neg hup]
  rfl

/-- A character outside ASCII is read inside a text only. -/
theorem step_wide {m : Mode} {c : Char} {r : List Token × Mode} (hc : 0x7f ≤ c.toNat)
    (h : step m c = some r) : ∃ acc, m = .string acc ∧ r = ([], .string (c :: acc)) := by
  have hbegin := begin_wide hc
  have hhex := hexDigit?_wide hc
  obtain ⟨hdigit, halpha⟩ := wide_tests hc
  have hne (d : Char) (hd : d.toNat < 0x7f) : c ≠ d := wide_ne hc hd
  cases m with
  | gap => simp [step, hbegin] at h
  | number acc =>
    have hnumber : isNumberChar c = false := by
      simp [isNumberChar, hdigit, hne '-' (by decide), hne '+' (by decide), hne '.' (by decide),
        hne 'e' (by decide), hne 'E' (by decide)]
    simp [step, hnumber, hbegin] at h
  | word acc => simp [step, halpha, hbegin] at h
  | string acc =>
    have hcontrol : ¬ c.toNat < 0x20 := by omega
    simp only [step, hne '"' (by decide), hne '\\' (by decide), hcontrol, if_false,
      Option.some.injEq] at h
    exact ⟨acc, rfl, h.symm⟩
  | escape acc =>
    simp [step, unescape?, hne 'u' (by decide), hne '"' (by decide), hne '\\' (by decide),
      hne '/' (by decide), hne 'b' (by decide), hne 'f' (by decide), hne 'n' (by decide),
      hne 'r' (by decide), hne 't' (by decide)] at h
  | hex acc high digits =>
    by_cases hlength : digits.length < 3
    · simp [step, hlength, hhex] at h
    · simp [step, hlength, hexValue, List.foldl_append, hhex] at h
  | low acc high => simp [step, hne '\\' (by decide)] at h
  | lowEscape acc high => simp [step, hne 'u' (by decide)] at h

theorem hexValue_unicode {u : Nat} (hu : u < 0x10000) :
    hexValue [hexDigit (u / 4096), hexDigit (u / 256 % 16), hexDigit (u / 16 % 16), hexDigit (u % 16)] =
      some u := by
  have h₃ := hexDigit?_hexDigit (u / 4096) (by omega)
  have h₂ := hexDigit?_hexDigit (u / 256 % 16) (by omega)
  have h₁ := hexDigit?_hexDigit (u / 16 % 16) (by omega)
  have h₀ := hexDigit?_hexDigit (u % 16) (by omega)
  simp only [hexValue, List.foldl_cons, List.foldl_nil, h₃, h₂, h₁, h₀]
  refine congrArg some ?_
  omega

/-- The four digits of an escape are read as one code unit. -/
theorem scan_digits {u : Nat} (hu : u < 0x10000) (acc : List Char) (high : Option Nat) {m : Mode}
    (hm : codeUnit acc high u = some m) :
    scan (.hex acc high []) [hexDigit (u / 4096), hexDigit (u / 256 % 16), hexDigit (u / 16 % 16),
      hexDigit (u % 16)] = some ([], m) := by
  have h₃ := hexDigit?_hexDigit (u / 4096) (by omega)
  have h₂ := hexDigit?_hexDigit (u / 256 % 16) (by omega)
  have h₁ := hexDigit?_hexDigit (u / 16 % 16) (by omega)
  have hvalue := hexValue_unicode hu
  simp [scan, step, h₃, h₂, h₁, hvalue, hm]

theorem scan_wide {c : Char} (hc : 0x7f ≤ c.toNat) (acc : List Char) :
    scan (.string acc) (ensureAscii c) = some ([], .string (c :: acc)) := by
  have hvalid : c.toNat < 0xD800 ∨ 0xDFFF < c.toNat ∧ c.toNat < 0x110000 := c.valid
  have hnarrow : ¬ c.toNat < 0x7f := by omega
  have hescape : scan (.string acc) ['\\', 'u'] = some ([], .hex acc none []) := rfl
  unfold ensureAscii
  rw [if_neg hnarrow]
  by_cases hplane : c.toNat < 0x10000
  · rw [if_pos hplane]
    have hunit : codeUnit acc none c.toNat = some (.string (c :: acc)) := by
      unfold codeUnit
      dsimp only
      rw [if_neg (by omega), if_neg (by omega), Char.ofNat_toNat]
    exact scan_append _ _ _ _ _ _ _ hescape (scan_digits hplane acc none hunit)
  · rw [if_neg hplane]
    have hhigh : codeUnit acc none (0xd800 + (c.toNat - 0x10000) / 0x400) =
        some (.low acc (0xd800 + (c.toNat - 0x10000) / 0x400)) := by
      unfold codeUnit
      exact if_pos (by omega)
    have hlow : codeUnit acc (some (0xd800 + (c.toNat - 0x10000) / 0x400))
        (0xdc00 + (c.toNat - 0x10000) % 0x400) = some (.string (c :: acc)) := by
      have hback : 0x10000 + (0xd800 + (c.toNat - 0x10000) / 0x400 - 0xD800) * 0x400 +
          (0xdc00 + (c.toNat - 0x10000) % 0x400 - 0xDC00) = c.toNat := by omega
      unfold codeUnit
      dsimp only
      rw [if_pos (by omega), hback, Char.ofNat_toNat]
    have hfirst := scan_append _ _ _ _ _ _ _ hescape
      (scan_digits (by omega : 0xd800 + (c.toNat - 0x10000) / 0x400 < 0x10000) acc none hhigh)
    have hnext : scan (.low acc (0xd800 + (c.toNat - 0x10000) / 0x400)) ['\\', 'u'] =
        some ([], .hex acc (some (0xd800 + (c.toNat - 0x10000) / 0x400)) []) := rfl
    have hsecond := scan_append _ _ _ _ _ _ _ hnext
      (scan_digits (by omega : 0xdc00 + (c.toNat - 0x10000) % 0x400 < 0x10000) acc _ hlow)
    exact scan_append _ _ _ _ _ _ _ hfirst hsecond

/-- Text that keeps to ASCII is read as the text it stands for. -/
theorem scan_ensureAscii {m m' : Mode} {cs : List Char} {ts : List Token}
    (h : scan m cs = some (ts, m')) : scan m (cs.flatMap ensureAscii) = some (ts, m') := by
  induction cs generalizing m ts with
  | nil => exact h
  | cons c cs ih =>
    simp only [scan, Option.bind_eq_bind, Option.bind_eq_some_iff, Option.pure_def,
      Option.some.injEq, Prod.mk.injEq, Prod.exists] at h
    obtain ⟨ts₁, m₁, hstep, ts₂, m₂, hscan, rfl, rfl⟩ := h
    rw [List.flatMap_cons]
    refine scan_append _ _ _ _ _ _ _ ?_ (ih hscan)
    by_cases hc : c.toNat < 0x7f
    · have hplain : ensureAscii c = [c] := if_pos hc
      rw [hplain]
      simp [scan, hstep]
    · obtain ⟨acc, rfl, hr⟩ := step_wide (not_lt.mp hc) hstep
      cases hr
      exact scan_wide (not_lt.mp hc) acc

/-- What `json.dumps` writes is read back. -/
theorem parse_dumps (L : Layout) (j : Json) : parse (dumps L j) = some j := by
  obtain ⟨us, vs, m, hscan, hsettle, htokens⟩ := lexes_print L 0 j
  exact parse_of_lexes ⟨us, vs, m, scan_ensureAscii hscan, hsettle, htokens⟩

end Ascii

section Lengths

theorem length_b64encode (bytes : List UInt8) :
    (b64encode bytes).length = 4 * ((bytes.length + 2) / 3) := by
  induction bytes using b64encode.induct with
  | case1 => simp [b64encode]
  | case2 a => simp [b64encode]
  | case3 a b => simp [b64encode]
  | case4 a b c rest ih =>
    rw [b64encode, List.length_append, ih]
    simp only [List.length_cons, List.length_nil]
    omega

theorem length_le_flatMap {f : Char → List Char} (hf : ∀ c, 0 < (f c).length) (cs : List Char) :
    cs.length ≤ (cs.flatMap f).length := by
  induction cs with
  | nil => exact Nat.le_refl _
  | cons c cs ih =>
    have hc := hf c
    rw [List.flatMap_cons, List.length_append, List.length_cons]
    omega

theorem escape_pos (c : Char) : 0 < (Json.escape c).length := by
  unfold Json.escape
  split_ifs <;> simp

theorem ensureAscii_pos (c : Char) : 0 < (ensureAscii c).length := by
  unfold ensureAscii
  split_ifs <;> simp [unicodeEscape]

theorem length_le_byteLength (line : List Char) : line.length ≤ byteLength line := by
  unfold byteLength
  induction line with
  | nil => exact Nat.le_refl _
  | cons c line ih =>
    have hc := Char.utf8Size_pos c
    rw [List.map_cons, List.sum_cons, List.length_cons]
    omega

/-- A line is longer than the encoded payload in it. -/
theorem payload_le (u : Upload) : 4 * ((u.bytes.size + 2) / 3) ≤ byteLength (uploadLine u) := by
  have hpayload : (Json.quote (String.ofList (b64encode u.bytes.data.toList))).length ≤
      (Json.print .spaced 0 (.obj (uploadFields u))).length := by
    simp only [uploadFields, Json.print, Json.printFields, Json.printMoreFields, List.length_append,
      List.length_cons]
    omega
  have hquote : (b64encode u.bytes.data.toList).length ≤
      (Json.quote (String.ofList (b64encode u.bytes.data.toList))).length := by
    have hescape := length_le_flatMap escape_pos (b64encode u.bytes.data.toList)
    simp only [Json.quote, String.toList_ofList, List.length_append, List.length_cons]
    omega
  have hencode := length_b64encode u.bytes.data.toList
  have hascii := length_le_flatMap ensureAscii_pos (Json.print .spaced 0 (.obj (uploadFields u)))
  have hline := length_le_byteLength (uploadLine u)
  have hsize : u.bytes.data.toList.length = u.bytes.size := Array.length_toList
  rw [hsize] at hencode
  unfold uploadLine dumps at hline ⊢
  omega

end Lengths

section Replies

variable (lib : Library)

theorem uploadLine_bracketed (u : Upload) : ∃ body, uploadLine u = '\x7b' :: body ++ ['\x7d'] := by
  refine ⟨(Json.printFields .spaced 0 (uploadFields u)).flatMap ensureAscii, ?_⟩
  simp only [uploadLine, dumps, Json.print, List.flatMap_append, List.flatMap_cons, List.flatMap_nil]
  rfl

theorem trim_uploadLine (u : Upload) : Lines.trim (uploadLine u) = uploadLine u := by
  obtain ⟨body, hbody⟩ := uploadLine_bracketed u
  rw [hbody]
  exact Lines.strip_bracketed _ _ _ body (by decide) (by decide)

theorem uploadLine_ne_nil (u : Upload) : uploadLine u ≠ [] := by
  obtain ⟨body, hbody⟩ := uploadLine_bracketed u
  rw [hbody]
  simp

/-- The line of an upload is read as an upload, or not at all. -/
theorem parse_uploadLine (u : Upload) :
    parseMessage lib (uploadLine u) = .invalid ∨ ∃ v, parseMessage lib (uploadLine u) = .upload v := by
  have hparse : Json.parse (uploadLine u) = some (.obj (uploadFields u)) := parse_dumps .spaced _
  have htype : member (uploadFields u) "type" = some "upload_file" := by
    simp [uploadFields, member]
  have hkind : parseMessage lib (uploadLine u) =
      (uploadMembers lib (uploadFields u)).elim .invalid .upload := by
    unfold parseMessage
    rw [hparse]
    dsimp only
    rw [htype]
    exact if_pos rfl
  rw [hkind]
  cases uploadMembers lib (uploadFields u) with
  | none => exact .inl rfl
  | some v => exact .inr ⟨v, rfl⟩

theorem uploadFile_reply (serdeError : List Char → String) (s : Server) (fault : Option String)
    (u : Upload) : IsUploadReply (uploadFile serdeError s fault u).2 := by
  unfold uploadFile
  split
  · trivial
  split
  · trivial
  split
  · trivial
  split
  · trivial
  split
  · trivial
  split
  · trivial
  · trivial

theorem annotator_reply (s : Server) (env : Env) (annotatorId : String) (u : Upload) :
    IsUploadReply (handleAnnotatorMessage s env annotatorId (.uploadFile u)).2 := by
  have hmessage : handleAnnotatorMessage s env annotatorId (.uploadFile u) =
      handleClaimedOp s env annotatorId (.uploadFile u) := rfl
  rw [hmessage]
  obtain ⟨code, text, hrefused⟩ | ⟨sid, -, -, hdone⟩ := handleClaimedOp_eq s env annotatorId (.uploadFile u)
  · rw [hrefused]
    trivial
  · rw [hdone]
    exact uploadFile_reply env.serdeError s env.fault u

theorem operatorLine_answers (s : System) (env : OperatorEnv) (u : Upload)
    (h : byteLength (uploadLine u) ≤ maxLine) :
    ∃ reply, operatorLine lib s env (uploadLine u) = .answered reply ∧ IsUploadReply reply := by
  unfold operatorLine
  rw [if_neg (not_lt.mpr h), trim_uploadLine]
  dsimp only
  rw [if_neg (uploadLine_ne_nil u)]
  obtain hparse | ⟨v, hparse⟩ := parse_uploadLine lib u
  · rw [hparse]
    exact ⟨_, rfl, trivial⟩
  · rw [hparse]
    exact ⟨_, rfl, uploadFile_reply env.env.serdeError s.server env.env.fault v⟩

theorem annotatorLine_answers (s : Server) (env : Env) (annotatorId : String) (u : Upload)
    (h : byteLength (uploadLine u) ≤ maxLine) :
    ∃ reply, annotatorLine lib s env annotatorId (uploadLine u) = .answered reply ∧
      IsUploadReply reply := by
  unfold annotatorLine
  rw [trim_uploadLine]
  dsimp only
  rw [if_neg (uploadLine_ne_nil u), if_neg (not_lt.mpr h)]
  obtain hparse | ⟨v, hparse⟩ := parse_uploadLine lib u
  · rw [hparse]
    exact ⟨_, rfl, trivial⟩
  · rw [hparse]
    exact ⟨_, rfl, annotator_reply s env annotatorId v⟩

theorem operatorLine_closed (s : System) (env : OperatorEnv) (u : Upload)
    (h : ¬ byteLength (uploadLine u) ≤ maxLine) : operatorLine lib s env (uploadLine u) = .closed :=
  if_pos (not_le.mp h)

theorem annotatorLine_closed (s : Server) (env : Env) (annotatorId : String) (u : Upload)
    (h : ¬ byteLength (uploadLine u) ≤ maxLine) :
    annotatorLine lib s env annotatorId (uploadLine u) = .closed := by
  unfold annotatorLine
  rw [trim_uploadLine]
  dsimp only
  rw [if_neg (uploadLine_ne_nil u), if_pos (not_le.mp h)]

/-- A payload of a line that is read is far below the bound of an upload. -/
theorem size_le (u : Upload) (h : byteLength (uploadLine u) ≤ maxLine) : u.bytes.size ≤ maxUploadBytes := by
  have hpayload := payload_le u
  unfold maxLine at h
  unfold maxUploadBytes
  omega

theorem not_answers_closed (u : Upload) : ¬ Answers u .closed := by
  unfold Answers
  split
  · rintro ⟨reply, hreply, -⟩
    cases hreply
  · rintro ⟨message, hmessage⟩
    cases hmessage

theorem answers_of_small {u : Upload} {o : Outcome} (h : byteLength (uploadLine u) ≤ maxLine)
    (ho : ∃ reply, o = .answered reply ∧ IsUploadReply reply) : Answers u o := by
  unfold Answers
  rw [if_pos (size_le u h)]
  exact ho

/-- An upload is dealt with as it should on both kinds of connection just when its line
is at most 4 MiB long. -/
theorem answers_iff (s : System) (env : OperatorEnv) (server : Server) (annotatorEnv : Env)
    (annotatorId : String) (u : Upload) :
    (Answers u (operatorLine lib s env (uploadLine u)) ↔ byteLength (uploadLine u) ≤ maxLine) ∧
      (Answers u (annotatorLine lib server annotatorEnv annotatorId (uploadLine u)) ↔
        byteLength (uploadLine u) ≤ maxLine) := by
  refine ⟨⟨fun hanswers => ?_, fun h => ?_⟩, ⟨fun hanswers => ?_, fun h => ?_⟩⟩
  · by_contra h
    rw [operatorLine_closed lib s env u h] at hanswers
    exact not_answers_closed u hanswers
  · exact answers_of_small h (operatorLine_answers lib s env u h)
  · by_contra h
    rw [annotatorLine_closed lib server annotatorEnv annotatorId u h] at hanswers
    exact not_answers_closed u hanswers
  · exact answers_of_small h (annotatorLine_answers lib server annotatorEnv annotatorId u h)

end Replies

/-- A reasoning.jsonl of 4,000,000 bytes, within the bound of an upload. -/
def longUpload : Upload :=
  ⟨"s1", allowedReasoning, ⟨Array.replicate 4000000 0x0a⟩, "application/octet-stream"⟩

theorem size_longUpload : longUpload.bytes.size = 4000000 := Array.size_replicate

/-- Its line is too long, and either connection is closed on it. -/
theorem long_upload_closes :
    (∀ (lib : Library) (s : System) (env : OperatorEnv),
      ¬ Answers longUpload (operatorLine lib s env (uploadLine longUpload))) ∧
    ∀ (lib : Library) (s : Server) (env : Env) (annotatorId : String),
      ¬ Answers longUpload (annotatorLine lib s env annotatorId (uploadLine longUpload)) := by
  have hpayload := payload_le longUpload
  rw [size_longUpload] at hpayload
  have hlong : ¬ byteLength (uploadLine longUpload) ≤ maxLine := by
    unfold maxLine
    omega
  refine ⟨fun lib s env => ?_, fun lib s env annotatorId => ?_⟩
  · rw [operatorLine_closed lib s env longUpload hlong]
    exact not_answers_closed longUpload
  · rw [annotatorLine_closed lib s env annotatorId longUpload hlong]
    exact not_answers_closed longUpload

end MemoryArchive.Ipc.UploadLimits
