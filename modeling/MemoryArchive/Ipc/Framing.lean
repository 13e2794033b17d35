import MemoryArchive.Ipc.Routes
import MemoryArchive.Text.Lossy

namespace MemoryArchive.Ipc.Framing

open Lines (byteLen byteLen_append find findOffset findOffset_eq find_of_first find_eq_none front_unique)
open Lines (trim dropBeginning toLower_eq)
open Utf8
open Routes (Accounts)

abbrev Bytes := List UInt8

def cr : UInt8 := 13

def lf : UInt8 := 10

def sp : UInt8 := 32

def colon : UInt8 := 58

/-- A line, read backwards, without the carriage return in front of its end. -/
def dropCr : List Char → List Char
  | '\r' :: line => line
  | line => line

def linesFrom : List Char → List Char → List (List Char)
  | acc, [] => if acc.isEmpty then [] else [acc.reverse]
  | acc, c :: text =>
      if c = '\n' then (dropCr acc).reverse :: linesFrom [] text else linesFrom (c :: acc) text

/-- The lines of a text. A carriage return belongs to the end of a line, but not to the end of
the text. -/
def lines (text : List Char) : List (List Char) := linesFrom [] text

/-- The first pieces of a text between marks, and what is left as the last one. -/
def splitn : Nat → Char → List Char → List (List Char)
  | 0, _, _ => []
  | 1, _, text => [text]
  | n + 2, c, text =>
      match text.dropWhile (· ≠ c) with
      | [] => [text]
      | _ :: rest => text.takeWhile (· ≠ c) :: splitn (n + 1) c rest

def bearer : List Char := "authorization: bearer ".toList

def authHeader (request : List Char) : List Char :=
  trim ((((lines request).find? fun l => bearer.isPrefixOf (l.map Char.toLower)).bind
    fun l => (splitn 3 ' ' l)[2]?).getD [])

def utf8 (text : List Char) : Bytes := text.flatMap String.utf8EncodeChar

def constantTimeEq (a b : Bytes) : Bool :=
  if a.length ≠ b.length then false
  else (a.zip b).foldl (fun acc p => acc ||| (p.1 ^^^ p.2)) 0 == 0

/-- The bytes carry the token in a line of theirs. -/
def Carries (token : List Char) (buf : Bytes) : Prop :=
  constantTimeEq (utf8 (authHeader (lossy buf))) (utf8 token) = true

instance (token : List Char) (buf : Bytes) : Decidable (Carries token buf) :=
  inferInstanceAs (Decidable (constantTimeEq (utf8 (authHeader (lossy buf))) (utf8 token) = true))

def crlfs : List Char := "\r\n\r\n".toList

def lfs : List Char := "\n\n".toList

def bodyStart (request : List Char) (n : Nat) : Nat :=
  (((findOffset crlfs request).map (· + 4)).or ((findOffset lfs request).map (· + 2))).getD n

/-- What comes of a request before it is dispatched. -/
inductive Parsed
  | badRequest
  | unauthorized
  | panicked
  | call (method path : List Char) (body : Bytes)
  deriving DecidableEq

/-- A slice of the bytes that begins behind their end panics. -/
def parse (token : List Char) (buf : Bytes) : Parsed :=
  let request := lossy buf
  match (lines request).head?.map (splitn 3 ' ') with
  | some (method :: path :: _) =>
      if Carries token buf then
        let start := bodyStart request buf.length
        if start ≤ buf.length then .call method path (buf.drop start) else .panicked
      else .unauthorized
  | _ => .badRequest

/-- An answer, which may have no body. -/
inductive Reply
  | empty (status : Nat)
  | json (response : Management.Response)

/-- Nothing is answered after a panic. -/
def respond (env : Routes.Env) (s : Accounts) : Parsed → Accounts × Option Reply
  | .badRequest => (s, some (.empty 400))
  | .unauthorized =>
      (s, some (.json ⟨401, .obj [("error", .str "UNAUTHORIZED"),
        ("message", .str "Invalid or missing bearer token")]⟩))
  | .panicked => (s, none)
  | .call method path body =>
      let (s, response) := Routes.dispatch env s (.ofList method) (.ofList path) ⟨body.toArray⟩
      (s, some (.json response))

/-- One read is made of a connection, whatever it brings. -/
def received (reads : List Bytes) : Bytes := reads.headD []

def serve (token : List Char) (reads : List Bytes) : Parsed := parse token (received reads)

def bufferSize : Nat := 8192

def contentLengthName : List Char := "content-length:".toList

/-- The length of the body that the fields of a request announce. -/
def contentLength (fields : List Bytes) : Nat :=
  match fields.findSome? fun field => dropBeginning contentLengthName ((lossy field).map Char.toLower) with
  | none => 0
  | some value => (trim value).foldl (fun n c => n * 10 + (c.toNat - '0'.toNat)) 0

/-- A line of a request has no end of line in it. Other bytes may be anything. -/
def Plain (line : Bytes) : Prop := line ≠ [] ∧ cr ∉ line ∧ lf ∉ line

instance (line : Bytes) : Decidable (Plain line) :=
  inferInstanceAs (Decidable (line ≠ [] ∧ cr ∉ line ∧ lf ∉ line))

/-- A request as HTTP has it. -/
structure Request where
  method : Bytes
  target : Bytes
  version : Bytes
  fields : List Bytes
  body : Bytes
  method_token : sp ∉ method ∧ colon ∉ method
  target_token : sp ∉ target
  requestLine_plain : Plain (method ++ sp :: (target ++ sp :: version))
  fields_plain : ∀ field ∈ fields, Plain field
  body_length : body.length = contentLength fields

namespace Request

variable (r : Request)

def requestLine : Bytes := r.method ++ sp :: (r.target ++ sp :: r.version)

def allLines : List Bytes := r.requestLine :: r.fields

end Request

/-- Lines with their ends. -/
def ended (ls : List Bytes) : Bytes := ls.flatMap (· ++ [cr, lf])

namespace Request

variable (r : Request)

/-- The lines of a request up to the empty one. -/
def header : Bytes := ended r.allLines ++ [cr, lf]

def bytes : Bytes := r.header ++ r.body

end Request

/-- The reads of a connection that brings some bytes. -/
structure Reads (bytes : Bytes) where
  chunks : List Bytes
  flatten : chunks.flatten = bytes
  bounded : ∀ chunk ∈ chunks, chunk ≠ [] ∧ chunk.length ≤ bufferSize

/-- The request is handed on whole, and answered as if it had come at once. -/
structure Framed (env : Routes.Env) (s : Accounts) (token : List Char) (r : Request)
    (reads : List Bytes) : Prop where
  alive : serve token reads ≠ .panicked
  handed : ∃ method path, serve token reads = .call method path r.body
  same : respond env s (serve token reads) = respond env s (parse token r.bytes)

/-- The text of the header is as long as the header, and the first read brings all, or all
that there is to know of a request without a body. -/
def InOneRead (token : List Char) (r : Request) (reads : List Bytes) : Prop :=
  Even r.header ∧ (received reads = r.bytes ∨ r.body = [] ∧ Carries token (received reads))

instance (token : List Char) (r : Request) (reads : List Bytes) : Decidable (InOneRead token r reads) :=
  inferInstanceAs (Decidable (Even r.header ∧
    (received reads = r.bytes ∨ r.body = [] ∧ Carries token (received reads))))

section Text

theorem linesFrom_append (acc line : List Char) (hline : '\r' ∉ line ∧ '\n' ∉ line) (rest : List Char) :
    linesFrom acc (line ++ '\r' :: '\n' :: rest) = (acc.reverse ++ line) :: linesFrom [] rest := by
  induction line generalizing acc with
  | nil =>
    rw [List.nil_append, linesFrom, if_neg (by decide), linesFrom, if_pos rfl, List.append_nil]
    rfl
  | cons c line ih =>
    simp only [List.mem_cons, not_or] at hline
    rw [List.cons_append, linesFrom, if_neg (Ne.symm hline.2.1), ih _ ⟨hline.1.2, hline.2.2⟩, List.reverse_cons,
      List.append_assoc]
    rfl

theorem lines_append {line : List Char} (hline : '\r' ∉ line ∧ '\n' ∉ line) (rest : List Char) :
    lines (line ++ '\r' :: '\n' :: rest) = line :: lines rest :=
  linesFrom_append [] line hline rest

theorem linesFrom_unended (acc : List Char) {text : List Char} (h : '\n' ∉ text) :
    linesFrom acc text = if acc.isEmpty ∧ text = [] then [] else [acc.reverse ++ text] := by
  induction text generalizing acc with
  | nil => cases acc <;> simp [linesFrom]
  | cons c text ih =>
    simp only [List.mem_cons, not_or] at h
    rw [linesFrom, if_neg (Ne.symm h.1), ih _ h.2, if_neg (by simp), if_neg (by simp), List.reverse_cons,
      List.append_assoc]
    rfl

theorem mem_lines_unended {text line : List Char} (h : '\n' ∉ text) (hline : line ∈ lines text) :
    line = text := by
  rw [lines, linesFrom_unended [] h] at hline
  split at hline
  · cases hline
  · exact List.mem_singleton.mp hline

theorem splitn_append {c : Char} {front : List Char} (h : c ∉ front) (n : Nat) (rest : List Char) :
    splitn (n + 2) c (front ++ c :: rest) = front :: splitn (n + 1) c rest := by
  have hfront : ∀ d ∈ front, decide (d ≠ c) = true := fun d hd => decide_eq_true fun heq => h (heq ▸ hd)
  have hdrop : (front ++ c :: rest).dropWhile (fun d => decide (d ≠ c)) = c :: rest := by
    rw [List.dropWhile_append_of_pos hfront, List.dropWhile_cons_of_neg (by simp)]
  have htake : (front ++ c :: rest).takeWhile (fun d => decide (d ≠ c)) = front := by
    rw [List.takeWhile_append_of_pos hfront, List.takeWhile_cons_of_neg (by simp), List.append_nil]
  rw [splitn, hdrop, htake]

theorem constantTimeEq_nil {token : List Char} (htoken : token ≠ []) :
    constantTimeEq (utf8 []) (utf8 token) = false := by
  obtain ⟨c, rest, rfl⟩ := List.exists_cons_of_ne_nil htoken
  have hpos := c.utf8Size_pos
  refine if_pos ?_
  rw [utf8, utf8, List.flatMap_cons, List.length_append, String.length_utf8EncodeChar]
  exact (Nat.ne_of_lt (Nat.lt_add_right _ hpos))

end Text

section Header

/-- A line begins with no end of line. -/
theorem ended_first {ls : List Bytes} (hplain : ∀ l ∈ ls, Plain l) {tail rest : Bytes} {c : UInt8}
    (h : ended ls ++ tail = c :: rest) : ls = [] ∨ (c ≠ cr ∧ c ≠ lf) := by
  cases ls with
  | nil => exact Or.inl rfl
  | cons l ls =>
    obtain ⟨hne, hcr, hlf⟩ := hplain l List.mem_cons_self
    obtain ⟨d, l, rfl⟩ := List.exists_cons_of_ne_nil hne
    obtain rfl := (List.cons.inj h).1
    exact Or.inr ⟨fun h => hcr (h ▸ List.mem_cons_self), fun h => hlf (h ▸ List.mem_cons_self)⟩

/-- No empty line comes before the one that ends a header. -/
theorem header_first {ls : List Bytes} (hplain : ∀ l ∈ ls, Plain l) {body front back : Bytes}
    (h : ended ls ++ cr :: lf :: body = front ++ cr :: lf :: cr :: lf :: back) :
    (ended ls).length ≤ front.length + 2 := by
  induction ls generalizing front with
  | nil => exact Nat.zero_le _
  | cons l ls ih =>
    obtain ⟨hl, hls⟩ := List.forall_mem_cons.mp hplain
    have hended : ended (l :: ls) = l ++ cr :: lf :: ended ls := by
      rw [ended, List.flatMap_cons, List.append_assoc]
      rfl
    have hlen : (ended (l :: ls)).length = l.length + 2 + (ended ls).length := by
      rw [hended, List.length_append, List.length_cons, List.length_cons]
      omega
    rw [hended, List.append_assoc] at h
    by_cases hcr : cr ∈ front
    · obtain ⟨u, v, rfl, hu⟩ := List.eq_append_cons_of_mem hcr
      rw [List.append_assoc] at h
      obtain rfl := front_unique hl.2.1 hu h
      obtain ⟨-, htail⟩ := List.cons.inj (List.append_cancel_left h)
      cases v with
      | nil => exact absurd (List.cons.inj htail).1 (by decide)
      | cons d v =>
        have hle := ih hls (List.cons.inj htail).2
        rw [hlen, List.length_append, List.length_cons, List.length_cons]
        omega
    · obtain rfl := front_unique hl.2.1 hcr h
      obtain ⟨-, htail⟩ := List.cons.inj (List.append_cancel_left h)
      obtain rfl | hfirst := ended_first hls (List.cons.inj htail).2
      · rw [hlen]
        exact Nat.le_refl _
      · exact absurd rfl hfirst.1

/-- A line feed of a header comes behind a carriage return. -/
theorem header_lf {ls : List Bytes} (hplain : ∀ l ∈ ls, Plain l) (front back : Bytes) :
    ended ls ++ [cr, lf] ≠ front ++ lf :: lf :: back := by
  induction ls generalizing front with
  | nil =>
    intro h
    have hlen := congrArg List.length h
    simp only [ended, List.flatMap_nil, List.length_append, List.length_cons, List.length_nil] at hlen
    obtain rfl := List.eq_nil_of_length_eq_zero (show front.length = 0 by omega)
    exact absurd (List.cons.inj h).1 (by decide)
  | cons l ls ih =>
    obtain ⟨hl, hls⟩ := List.forall_mem_cons.mp hplain
    intro h
    have hended : ended (l :: ls) ++ [cr, lf] = (l ++ [cr]) ++ lf :: (ended ls ++ [cr, lf]) := by
      rw [ended, List.flatMap_cons]
      simp only [List.append_assoc, List.cons_append, List.nil_append]
      rfl
    have hline : lf ∉ l ++ [cr] := by
      rw [List.mem_append, not_or]
      exact ⟨hl.2.2, by decide⟩
    rw [hended] at h
    by_cases hlf : lf ∈ front
    · obtain ⟨u, v, rfl, hu⟩ := List.eq_append_cons_of_mem hlf
      rw [List.append_assoc u] at h
      obtain rfl := front_unique hline hu h
      exact ih hls v (List.cons.inj (List.append_cancel_left h)).2
    · obtain rfl := front_unique hline hlf h
      have hrest := (List.cons.inj (List.append_cancel_left h)).2
      obtain rfl | hfirst := ended_first hls hrest
      · exact absurd (List.cons.inj hrest).1 (by decide)
      · exact absurd rfl hfirst.2

end Header

section Lossy

theorem ascii_ends : Ascii cr ∧ Ascii lf ∧ Ascii sp ∧ Ascii colon := by decide

theorem ascii_crlfs : ∀ b ∈ [cr, lf, cr, lf], Ascii b := by decide +kernel

theorem lossy_plain {line : Bytes} (h : Plain line) : '\r' ∉ lossy line ∧ '\n' ∉ lossy line :=
  ⟨fun hmem => h.2.1 ((mem_lossy ascii_ends.1).mp hmem), fun hmem => h.2.2 ((mem_lossy ascii_ends.2.1).mp hmem)⟩

theorem lossy_end (line rest : Bytes) :
    lossy (line ++ cr :: lf :: rest) = lossy line ++ '\r' :: '\n' :: lossy rest := by
  rw [lossy_append ascii_ends.1, lossy_ascii ascii_ends.2.1]
  rfl

theorem lines_lossy {ls : List Bytes} (hplain : ∀ l ∈ ls, Plain l) (rest : Bytes) :
    lines (lossy (ended ls ++ rest)) = ls.map lossy ++ lines (lossy rest) := by
  induction ls with
  | nil => rfl
  | cons l ls ih =>
    obtain ⟨hl, hls⟩ := List.forall_mem_cons.mp hplain
    have hended : ended (l :: ls) ++ rest = l ++ cr :: lf :: (ended ls ++ rest) := by
      rw [ended, List.flatMap_cons]
      simp only [List.append_assoc, List.cons_append, List.nil_append]
      rfl
    rw [hended, lossy_end, lines_append (lossy_plain hl), ih hls]
    rfl

/-- The end of the header, with the line before it. -/
theorem ended_last {ls : List Bytes} (hne : ls ≠ []) : ∃ front, ended ls = front ++ [cr, lf] := by
  obtain rfl | ⟨ls, l, rfl⟩ := List.eq_nil_or_concat' ls
  · exact absurd rfl hne
  · refine ⟨ended ls ++ l, ?_⟩
    rw [ended, List.flatMap_append, List.flatMap_singleton, ← List.append_assoc]
    rfl

/-- The body is looked for where the text of the header ends. -/
theorem bodyStart_header {ls : List Bytes} (hplain : ∀ l ∈ ls, Plain l) (hne : ls ≠ [])
    (body : Bytes) (n : Nat) :
    bodyStart (lossy (ended ls ++ [cr, lf] ++ body)) n = byteLen (lossy (ended ls ++ [cr, lf])) := by
  obtain ⟨front, hfront⟩ := ended_last hne
  have hraw : ended ls ++ [cr, lf] ++ body = front ++ cr :: lf :: cr :: lf :: body := by
    rw [hfront]
    simp only [List.append_assoc, List.cons_append, List.nil_append]
  have htext : ∀ body,
      lossy (front ++ cr :: lf :: cr :: lf :: body) = lossy front ++ (crlfs ++ lossy body) := by
    intro body
    rw [lossy_end, ← List.nil_append (cr :: lf :: body), lossy_end]
    rfl
  have hfind : find crlfs (lossy (ended ls ++ [cr, lf] ++ body)) = some (lossy front).length := by
    rw [hraw]
    refine find_of_first (htext body) fun front' back' hother => ?_
    obtain ⟨u, v, huv, rfl, -⟩ := lossy_pattern cr [lf, cr, lf] ascii_crlfs hother
    have hother : ended ls ++ cr :: lf :: body = u ++ cr :: lf :: cr :: lf :: v := by
      rw [hfront, List.append_assoc]
      exact huv
    have hle := header_first hplain hother
    rw [hfront, List.length_append] at hle
    have hboth : u <+: front ++ cr :: lf :: cr :: lf :: body := by
      rw [huv]
      exact List.prefix_append u _
    obtain ⟨d, rfl⟩ := List.prefix_of_prefix_length_le (List.prefix_append front _) hboth
      (Nat.le_of_add_le_add_right hle)
    cases d with
    | nil => rw [List.append_nil]
    | cons e d =>
      rw [List.append_assoc] at huv
      obtain rfl := (List.cons.inj (List.append_cancel_left huv)).1
      rw [lossy_append ascii_ends.1, List.length_append]
      exact Nat.le_add_right _ _
  have hheader : ended ls ++ [cr, lf] = front ++ cr :: lf :: cr :: lf :: [] := by
    rw [hfront]
    simp only [List.append_assoc, List.cons_append, List.nil_append]
  rw [bodyStart, findOffset_eq, hfind, hraw, htext, hheader, htext, byteLen_append, byteLen_append]
  simp only [Option.map_some, List.take_left', Option.some_or, Option.getD_some]
  rfl

/-- In a part of a header there is no end of it. -/
theorem bodyStart_part {ls : List Bytes} (hplain : ∀ l ∈ ls, Plain l) {buf : Bytes}
    (hpart : buf <+: ended ls ++ [cr, lf]) (hne : buf ≠ ended ls ++ [cr, lf]) (n : Nat) :
    bodyStart (lossy buf) n = n := by
  obtain ⟨rest, hrest⟩ := hpart
  have hcrlfs : find crlfs (lossy buf) = none := by
    refine find_eq_none fun front back h => ?_
    obtain ⟨u, v, rfl, -, -⟩ := lossy_pattern cr [lf, cr, lf] ascii_crlfs h
    have hother : ended ls ++ cr :: lf :: [] = u ++ cr :: lf :: cr :: lf :: (v ++ rest) := by
      rw [← hrest]
      simp only [List.append_assoc, List.cons_append, List.nil_append]
    have hle := header_first hplain hother
    have hlen := congrArg List.length hrest
    simp only [List.length_append, List.length_cons, List.length_nil] at hlen
    obtain rfl := List.eq_nil_of_length_eq_zero (show rest.length = 0 by omega)
    rw [List.append_nil] at hrest
    exact hne hrest
  have hlfs : find lfs (lossy buf) = none := by
    refine find_eq_none fun front back h => ?_
    obtain ⟨u, v, rfl, -, -⟩ := lossy_pattern lf [lf] (by decide +kernel) h
    refine header_lf hplain u (v ++ rest) ?_
    rw [← hrest]
    simp only [List.append_assoc, List.cons_append, List.nil_append]
  rw [bodyStart, findOffset_eq, findOffset_eq, hcrlfs, hlfs]
  rfl

end Lossy

section Auth

/-- The header of some lines is the header of more. -/
theorem auth_more {text more : List Char} {rest : List (List Char)} (hlines : lines more = lines text ++ rest)
    (hfound : authHeader text ≠ []) : authHeader more = authHeader text := by
  rw [authHeader, authHeader, hlines, List.find?_append]
  cases hfind : (lines text).find? fun l => bearer.isPrefixOf (l.map Char.toLower) with
  | none =>
    rw [authHeader, hfind] at hfound
    exact absurd rfl hfound
  | some line => rfl

theorem auth_ne_nil {token : List Char} (htoken : token ≠ []) {buf : Bytes} (h : Carries token buf) :
    authHeader (lossy buf) ≠ [] := by
  intro hnil
  rw [Carries, hnil, constantTimeEq_nil htoken] at h
  cases h

theorem carries_more {token : List Char} (htoken : token ≠ []) {ls : List Bytes} (hplain : ∀ l ∈ ls, Plain l)
    (h : Carries token (ended ls ++ [cr, lf])) (body : Bytes) :
    Carries token (ended ls ++ [cr, lf] ++ body) := by
  have hend : ∀ rest, lines (lossy (cr :: lf :: rest)) = [] :: lines (lossy rest) := by
    intro rest
    rw [← List.nil_append (cr :: lf :: rest), lossy_end]
    exact lines_append ⟨List.not_mem_nil, List.not_mem_nil⟩ _
  have hlines : lines (lossy (ended ls ++ [cr, lf] ++ body)) =
      lines (lossy (ended ls ++ [cr, lf])) ++ lines (lossy body) := by
    rw [List.append_assoc, lines_lossy hplain, lines_lossy hplain, List.append_assoc]
    exact congrArg (ls.map lossy ++ ·) (hend body)
  rw [Carries, auth_more hlines (auth_ne_nil htoken h)]
  exact h

end Auth

namespace Request

variable (r : Request)

theorem lines_plain : ∀ l ∈ r.allLines, Plain l :=
  List.forall_mem_cons.mpr ⟨r.requestLine_plain, r.fields_plain⟩

theorem header_eq : r.header = r.requestLine ++ cr :: lf :: (ended r.fields ++ [cr, lf]) := by
  rw [header, allLines, ended, List.flatMap_cons]
  simp only [List.append_assoc, List.cons_append, List.nil_append]
  rfl

/-- No beginning of a request line is an authorization. -/
theorem not_bearer {buf : Bytes} (hbuf : buf <+: r.requestLine ++ [cr]) :
    bearer.isPrefixOf ((lossy buf).map Char.toLower) ≠ true := by
  intro h
  obtain ⟨rest, hrest⟩ := List.isPrefixOf_iff_prefix.mp h
  have hparts : (lossy buf).map Char.toLower =
      "authorization:".toList ++ ' ' :: ("bearer ".toList ++ rest) := hrest.symm
  obtain ⟨front, back, hsplit, hfront, hback⟩ := List.map_eq_append_iff.mp hparts
  obtain ⟨c, back, rfl, hc, -⟩ := List.map_eq_cons_iff.mp hback
  obtain rfl := toLower_eq (by decide) hc
  obtain ⟨u, v, rfl, rfl, -⟩ := lossy_split ascii_ends.2.2.1 hsplit
  obtain ⟨w, hw⟩ := hbuf
  have hblank : sp ∉ u := by
    intro hmem
    have hlower := List.mem_map_of_mem (f := Char.toLower) ((mem_lossy ascii_ends.2.2.1).mpr hmem)
    rw [hfront] at hlower
    revert hlower
    decide
  rw [requestLine, List.append_assoc, List.append_assoc] at hw
  obtain rfl := front_unique hblank r.method_token.1 hw
  obtain ⟨d, hd, hcolon⟩ : ∃ d ∈ lossy r.method, d.toLower = ':' := by
    refine List.mem_map.mp ?_
    rw [hfront]
    decide
  obtain rfl := toLower_eq (by decide) hcolon
  exact r.method_token.2 ((mem_lossy ascii_ends.2.2.2).mp hd)

/-- A part of a header that carries the token has the whole request line. -/
theorem carries_requestLine {token : List Char} (htoken : token ≠ []) {buf : Bytes} (hpart : buf <+: r.header)
    (h : Carries token buf) : ∃ rest, buf = r.requestLine ++ cr :: lf :: rest := by
  have hline : r.requestLine ++ [cr, lf] <+: r.header := by
    rw [header_eq]
    refine ⟨ended r.fields ++ [cr, lf], ?_⟩
    simp only [List.append_assoc, List.cons_append, List.nil_append]
  by_cases hlen : (r.requestLine ++ [cr, lf]).length ≤ buf.length
  · obtain ⟨rest, rfl⟩ := List.prefix_of_prefix_length_le hline hpart hlen
    refine ⟨rest, ?_⟩
    simp only [List.append_assoc, List.cons_append, List.nil_append]
  · have hshort : buf <+: r.requestLine ++ [cr] := by
      have hboth : r.requestLine ++ [cr] <+: r.header := by
        refine List.IsPrefix.trans ⟨[lf], ?_⟩ hline
        rw [List.append_assoc]
        rfl
      refine List.prefix_of_prefix_length_le hpart hboth ?_
      rw [List.length_append, List.length_cons, List.length_cons] at hlen
      rw [List.length_append, List.length_singleton]
      simp only [List.length_nil] at hlen
      omega
    have hnolf : '\n' ∉ lossy buf := by
      intro hmem
      have hmem := hshort.subset ((mem_lossy ascii_ends.2.1).mp hmem)
      rw [List.mem_append] at hmem
      obtain hmem | hmem := hmem
      · exact r.requestLine_plain.2.2 hmem
      · exact absurd hmem (by decide)
    have hfind : (lines (lossy buf)).find? (fun l => bearer.isPrefixOf (l.map Char.toLower)) = none := by
      refine List.find?_eq_none.mpr fun l hl => ?_
      rw [mem_lines_unended hnolf hl]
      exact r.not_bearer hshort
    refine absurd ?_ (auth_ne_nil htoken h)
    rw [authHeader, hfind]
    rfl

/-- What is parsed once the request line is there. -/
theorem parse_requestLine {token : List Char} {buf rest : Bytes}
    (hbuf : buf = r.requestLine ++ cr :: lf :: rest) (h : Carries token buf) :
    parse token buf = if bodyStart (lossy buf) buf.length ≤ buf.length then
      .call (lossy r.method) (lossy r.target) (buf.drop (bodyStart (lossy buf) buf.length)) else .panicked := by
  have hfirst : (lines (lossy buf)).head? = some (lossy r.requestLine) := by
    have hplain : Plain r.requestLine := r.requestLine_plain
    rw [hbuf, lossy_end, lines_append (lossy_plain hplain)]
    rfl
  have hno : ∀ {bytes : Bytes}, sp ∉ bytes → ' ' ∉ lossy bytes := fun hbytes hmem =>
    hbytes ((mem_lossy ascii_ends.2.2.1).mp hmem)
  have hsplit : splitn 3 ' ' (lossy r.requestLine) = [lossy r.method, lossy r.target, lossy r.version] := by
    have hparts : lossy r.requestLine =
        lossy r.method ++ ' ' :: (lossy r.target ++ ' ' :: lossy r.version) := by
      rw [requestLine, lossy_append ascii_ends.2.2.1, lossy_append ascii_ends.2.2.1]
      rfl
    rw [hparts, splitn_append (hno r.method_token.1), splitn_append (hno r.target_token)]
    rfl
  rw [parse, hfirst, Option.map_some, hsplit]
  exact if_pos h

/-- What is parsed once the header is there. -/
theorem parse_header {token : List Char} (htoken : token ≠ []) (h : Carries token r.header) (body : Bytes) :
    parse token (r.header ++ body) = if byteLen (lossy r.header) ≤ (r.header ++ body).length then
      .call (lossy r.method) (lossy r.target) ((r.header ++ body).drop (byteLen (lossy r.header)))
      else .panicked := by
  have hbuf : r.header ++ body = r.requestLine ++ cr :: lf :: (ended r.fields ++ [cr, lf] ++ body) := by
    rw [header_eq, List.append_assoc]
    rfl
  have hstart : bodyStart (lossy (r.header ++ body)) (r.header ++ body).length = byteLen (lossy r.header) :=
    bodyStart_header r.lines_plain (List.cons_ne_nil _ _) body _
  rw [r.parse_requestLine hbuf (carries_more htoken r.lines_plain h body), hstart]

/-- What is parsed of a part of the header that has the token. -/
theorem parse_part {token : List Char} (htoken : token ≠ []) {buf : Bytes} (hpart : buf <+: r.header)
    (hne : buf ≠ r.header) (h : Carries token buf) :
    parse token buf = .call (lossy r.method) (lossy r.target) [] := by
  obtain ⟨rest, hbuf⟩ := r.carries_requestLine htoken hpart h
  rw [r.parse_requestLine hbuf h, bodyStart_part r.lines_plain hpart hne, if_pos (Nat.le_refl _),
    List.drop_length]

end Request

theorem Reads.received_part {bytes : Bytes} (reads : Reads bytes) : received reads.chunks <+: bytes := by
  have hpart : received reads.chunks <+: reads.chunks.flatten := by
    cases reads.chunks with
    | nil => exact List.nil_prefix
    | cons chunk chunks => exact List.prefix_append chunk _
  rwa [reads.flatten] at hpart

theorem carries_of_call {token method path : List Char} {buf body : Bytes}
    (h : parse token buf = .call method path body) : Carries token buf := by
  by_contra hcarries
  rw [parse] at h
  split at h
  · rw [if_neg hcarries] at h
    cases h
  · cases h

/-- The header carries the token of the server, which is never empty. A request is handed on whole,
and answered as if it came at once, exactly if it is `InOneRead`. -/
theorem framed_iff (env : Routes.Env) (s : Accounts) {token : List Char} (htoken : token ≠ []) (r : Request)
    (hauth : Carries token r.header) (reads : Reads r.bytes) :
    Framed env s token r reads.chunks ↔ InOneRead token r reads.chunks := by
  obtain ⟨hle, heven⟩ := byteLen_lossy r.header
  have hwhole := r.parse_header htoken hauth
  constructor
  · rintro ⟨-, ⟨method, path, hcall⟩, hsame⟩
    rw [serve] at hcall hsame
    have hcarries := carries_of_call hcall
    have hpart : received reads.chunks <+: r.header ++ r.body := reads.received_part
    have hheader : r.header <+: r.header ++ r.body := List.prefix_append r.header r.body
    by_cases hlong : r.header.length ≤ (received reads.chunks).length
    · obtain ⟨got, hgot⟩ := List.prefix_of_prefix_length_le hheader hpart hlong
      rw [← hgot, List.prefix_append_right_inj] at hpart
      rw [← hgot, hwhole] at hcall
      split at hcall
      · rename_i hfits
        have hbody := congrArg List.length (Parsed.call.inj hcall).2.2
        have hfew := hpart.length_le
        rw [List.length_drop] at hbody
        rw [List.length_append] at hbody hfits
        refine ⟨heven.mp (by omega), Or.inl ?_⟩
        rw [← hgot, Request.bytes, hpart.eq_of_length (by omega)]
      · cases hcall
    · have hshort : received reads.chunks <+: r.header :=
        List.prefix_of_prefix_length_le hpart hheader (Nat.le_of_not_le hlong)
      have hne : received reads.chunks ≠ r.header := fun h => hlong (Nat.le_of_eq (congrArg List.length h.symm))
      rw [r.parse_part htoken hshort hne hcarries] at hcall hsame
      have hbody := (Parsed.call.inj hcall).2.2.symm
      refine ⟨?_, Or.inr ⟨hbody, hcarries⟩⟩
      by_contra hodd
      have hmore : ¬ byteLen (lossy r.header) ≤ (r.header ++ r.body).length := by
        rw [hbody, List.append_nil]
        exact fun h => hodd (heven.mp (Nat.le_antisymm h hle))
      rw [Request.bytes, hwhole, if_neg hmore] at hsame
      cases congrArg Prod.snd hsame
  · rintro ⟨he, hread⟩
    have hsize := heven.mpr he
    have hbytes : parse token r.bytes = .call (lossy r.method) (lossy r.target) r.body := by
      rw [Request.bytes, hwhole, hsize, if_pos (by rw [List.length_append]; omega), List.drop_left]
    have hcall : serve token reads.chunks = .call (lossy r.method) (lossy r.target) r.body := by
      obtain hall | ⟨hbody, hcarries⟩ := hread
      · rw [serve, hall, hbytes]
      · have hheader : r.bytes = r.header := by rw [Request.bytes, hbody, List.append_nil]
        have hpart : received reads.chunks <+: r.header := by
          rw [← hheader]
          exact reads.received_part
        by_cases hfull : received reads.chunks = r.header
        · rw [serve, hfull, ← hheader, hbytes]
        · rw [serve, r.parse_part htoken hpart hfull hcarries, hbody]
    exact ⟨by rw [hcall]; nofun, ⟨_, _, hcall⟩, by rw [hcall, hbytes]⟩

/-- A request to register an annotator. -/
def registration : Request where
  method := utf8 "POST".toList
  target := utf8 "/v1/annotators".toList
  version := utf8 "HTTP/1.1".toList
  fields := ["Authorization: Bearer t", "Content-Length: 21"].map fun field => utf8 field.toList
  body := utf8 "\x7b\"annotator_id\":\"é\"\x7d".toList
  method_token := by decide
  target_token := by decide
  requestLine_plain := by decide
  fields_plain := by decide
  body_length := by decide +kernel

theorem registration_framed :
    Framed Routes.sampleEnv Routes.everyone ['t'] registration [registration.bytes] ∧
      ¬ Framed Routes.sampleEnv Routes.everyone ['t'] registration
        [registration.header, registration.body] := by
  have hauth : Carries ['t'] registration.header := by decide +kernel
  constructor
  · exact (framed_iff Routes.sampleEnv Routes.everyone (by decide) registration hauth
      ⟨[registration.bytes], List.append_nil _, by decide +kernel⟩).mpr (by decide +kernel)
  · intro h
    have hread := (framed_iff Routes.sampleEnv Routes.everyone (by decide) registration hauth
      ⟨[registration.header, registration.body], rfl, by decide +kernel⟩).mp h
    exact absurd hread (by decide +kernel)

/-- A request for the annotators with a field that is not UTF-8. -/
def listing : Request where
  method := utf8 "GET".toList
  target := utf8 "/v1/annotators".toList
  version := utf8 "HTTP/1.1".toList
  fields := [utf8 "Authorization: Bearer t".toList, utf8 "X-Name: ".toList ++ [0xE9]]
  body := []
  method_token := by decide
  target_token := by decide
  requestLine_plain := by decide
  fields_plain := by decide
  body_length := by decide +kernel

/-- The task panics at a field that is not UTF-8. -/
theorem moved_boundary :
    ¬ ∀ (env : Routes.Env) (s : Accounts) (token : List Char) (r : Request) (reads : Reads r.bytes),
      token ≠ [] → Carries token r.header → Framed env s token r reads.chunks := by
  intro h
  have hlisting := h Routes.sampleEnv Routes.everyone ['t'] listing
    ⟨[listing.bytes], List.append_nil _, by decide +kernel⟩ (by decide) (by decide +kernel)
  exact hlisting.alive (by decide +kernel)

end MemoryArchive.Ipc.Framing
