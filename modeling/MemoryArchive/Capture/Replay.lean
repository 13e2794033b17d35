import Mathlib.Data.List.Sort
import MemoryArchive.Capture.Recovery

namespace MemoryArchive.Capture.Replay

/-- The first polls of a consumer. -/
def firstPolls (polls : Nat → Poll) (n : Nat) : List Poll :=
  (List.range n).map polls

/-- A replay on the first polls of its consumer. A partition is not assigned at a
negative offset. -/
def replayPartition (startOffset highWatermark : Int64) (polls : List Poll) :
    Option (List (Int64 × CommandEvent) × ReplayEnd) :=
  if startOffset < 0 then some ([], .error)
  else replaySessionEvents startOffset highWatermark polls

/-- The polls give the messages of the partition in order from the start on, and
sooner or later each one below the watermark. Messages written later come after
those. There are timeouts in between and at the end of the partition. -/
structure Delivers (startOffset highWatermark : Int64) (below : List KafkaRecord)
    (polls : Nat → Poll) : Prop where
  increasing : below.Pairwise fun r r' => r.offset < r'.offset
  limited : ∀ r ∈ below, r.offset < highWatermark
  after : ∀ i r, polls i = .message r → startOffset ≤ r.offset
  genuine : ∀ i r, polls i = .message r → r.offset < highWatermark → r ∈ below
  ordered : ∀ i j r r', i < j → polls i = .message r → polls j = .message r' → r.offset < r'.offset
  unskipped : ∀ j r', polls j = .message r' → ∀ r ∈ below, startOffset ≤ r.offset →
    r.offset < r'.offset → ∃ i < j, polls i = .message r
  fair : ∀ r ∈ below, startOffset ≤ r.offset → ∃ i, polls i = .message r ∨ polls i = .error

/-- The replay stops, and unless an error stops it, it has sent the events of the
session from the start up to the watermark. -/
def ReplaysExactly (startOffset highWatermark : Int64) (below : List KafkaRecord)
    (polls : Nat → Poll) : Prop :=
  (∃ n, (replayPartition startOffset highWatermark (firstPolls polls n)).isSome) ∧
    ∀ n events,
      replayPartition startOffset highWatermark (firstPolls polls n) = some (events, .watermark) →
      events = (recordEvents below).filter fun e => startOffset ≤ e.1

/-- There is nothing to replay, the last offset below the watermark has a message,
or what comes first from behind the watermark is an error or no event of the session. -/
def Stops (startOffset highWatermark : Int64) (below : List KafkaRecord) (polls : Nat → Poll) : Prop :=
  startOffset < 0 ∨ highWatermark ≤ startOffset ∨ (∃ r ∈ below, r.offset = highWatermark - 1) ∨
    ∃ i, (∀ j < i, ∀ r, polls j = .message r → r.offset < highWatermark) ∧
      (polls i = .error ∨ ∃ r, polls i = .message r ∧ highWatermark ≤ r.offset ∧ r.event = none)

/-- A poll that ends the loop. -/
def Decisive (highWatermark : Int64) : Poll → Prop
  | .timeout => False
  | .error => True
  | .message r => highWatermark - 1 ≤ r.offset

theorem replayLoop_append {highWatermark lastSeen : Int64} {polls : List Poll}
    (hseen : ¬ highWatermark - 1 ≤ lastSeen) (h : ∀ p ∈ polls, ¬ Decisive highWatermark p)
    (rest : List Poll) :
    ∃ lastSeen', ¬ highWatermark - 1 ≤ lastSeen' ∧ replayLoop highWatermark lastSeen (polls ++ rest) =
      (replayLoop highWatermark lastSeen' rest).map
        fun p => (recordEvents (polledRecords polls) ++ p.1, p.2) := by
  induction polls generalizing lastSeen with
  | nil =>
    refine ⟨lastSeen, hseen, ?_⟩
    change _ = (replayLoop highWatermark lastSeen rest).map id
    rw [Option.map_id]
    rfl
  | cons poll polls ih =>
    obtain ⟨hpoll, hpolls⟩ := List.forall_mem_cons.mp h
    cases poll with
    | timeout =>
      rw [List.cons_append, replayLoop, if_neg hseen]
      exact ih hseen hpolls
    | error => exact absurd trivial hpoll
    | message r =>
      obtain ⟨lastSeen', hseen', heq⟩ := ih hpoll hpolls
      refine ⟨lastSeen', hseen', ?_⟩
      rw [List.cons_append, replayLoop, if_neg (show ¬ highWatermark - 1 ≤ r.offset from hpoll), heq,
        Option.map_map]
      congr 1
      funext p
      change (recordEvents [r] ++ (recordEvents (polledRecords polls) ++ p.1), p.2) =
        (recordEvents (r :: polledRecords polls) ++ p.1, p.2)
      rw [recordEvents_cons r (polledRecords polls), List.append_assoc]

theorem polledRecords_append (ps qs : List Poll) :
    polledRecords (ps ++ qs) = polledRecords ps ++ polledRecords qs :=
  List.filterMap_append

theorem replayLoop_none {highWatermark lastSeen : Int64} {polls : List Poll}
    (hseen : ¬ highWatermark - 1 ≤ lastSeen) (h : ∀ p ∈ polls, ¬ Decisive highWatermark p) :
    replayLoop highWatermark lastSeen polls = none := by
  obtain ⟨lastSeen', -, heq⟩ := replayLoop_append hseen h []
  rw [List.append_nil] at heq
  exact heq

theorem replayLoop_message {highWatermark lastSeen : Int64} {polls : List Poll} {r : KafkaRecord}
    (hseen : ¬ highWatermark - 1 ≤ lastSeen) (h : ∀ p ∈ polls, ¬ Decisive highWatermark p)
    (hlast : highWatermark - 1 ≤ r.offset) (rest : List Poll) :
    replayLoop highWatermark lastSeen (polls ++ .message r :: rest) =
      some (recordEvents (polledRecords polls ++ [r]), .watermark) := by
  obtain ⟨lastSeen', -, heq⟩ := replayLoop_append hseen h (.message r :: rest)
  rw [heq, replayLoop, if_pos hlast]
  have happ : recordEvents (polledRecords polls ++ [r]) =
      recordEvents (polledRecords polls) ++ recordEvents [r] := List.filterMap_append
  rw [happ]
  rfl

theorem replayLoop_error {highWatermark lastSeen : Int64} {polls : List Poll}
    (hseen : ¬ highWatermark - 1 ≤ lastSeen) (h : ∀ p ∈ polls, ¬ Decisive highWatermark p)
    (rest : List Poll) : ∃ events,
    replayLoop highWatermark lastSeen (polls ++ .error :: rest) = some (events, .error) := by
  obtain ⟨lastSeen', -, heq⟩ := replayLoop_append hseen h (.error :: rest)
  exact ⟨_, heq⟩

theorem firstPolls_add (polls : Nat → Poll) (i k : Nat) :
    firstPolls polls (i + 1 + k) =
      firstPolls polls i ++ polls i :: (List.range k).map fun j => polls (i + 1 + j) := by
  simp [firstPolls, List.range_add, List.range_succ, Function.comp_def]

theorem mem_firstPolls {polls : Nat → Poll} {n : Nat} {p : Poll} :
    p ∈ firstPolls polls n ↔ ∃ j < n, polls j = p := by
  simp [firstPolls]

theorem mem_polledRecords {polls : List Poll} {r : KafkaRecord} :
    r ∈ polledRecords polls ↔ .message r ∈ polls := by
  rw [polledRecords, List.mem_filterMap]
  constructor
  · rintro ⟨p, hp, hr⟩
    cases p <;> cases hr
    exact hp
  · intro h
    exact ⟨.message r, h, rfl⟩

theorem mem_polled {polls : Nat → Poll} {n : Nat} {r : KafkaRecord} :
    r ∈ polledRecords (firstPolls polls n) ↔ ∃ j < n, polls j = .message r := by
  rw [mem_polledRecords, mem_firstPolls]

section Stopping

variable {startOffset highWatermark : Int64} {below : List KafkaRecord} {polls : Nat → Poll}

theorem le_pred {a w : Int64} (h : a < w) : a ≤ w - 1 := by
  rw [Int64.le_iff_toInt_le, toInt_pred h]
  rw [Int64.lt_iff_toInt_lt] at h
  omega

theorem pred_lt {a w : Int64} (h : a < w) : w - 1 < w := by
  rw [Int64.lt_iff_toInt_lt, toInt_pred h]
  omega

theorem not_seen (hpos : 0 ≤ startOffset) (h : ¬ highWatermark ≤ startOffset) :
    ¬ highWatermark - 1 ≤ startOffset - 1 := by
  rw [Int64.not_le] at h
  rw [Int64.not_le, Int64.lt_iff_toInt_lt, toInt_pred h]
  rw [Int64.lt_iff_toInt_lt] at h
  have hzero : (-1 : Int64) < 0 := by decide
  have hstart := toInt_pred (Int64.lt_of_lt_of_le hzero hpos)
  omega

theorem replayPartition_eq (hpos : 0 ≤ startOffset) (h : ¬ highWatermark ≤ startOffset) (ps : List Poll) :
    replayPartition startOffset highWatermark ps = replayLoop highWatermark (startOffset - 1) ps := by
  rw [replayPartition, if_neg (Int64.not_lt.mpr hpos), replaySessionEvents, if_neg h]

theorem idle_first {i n : Nat} (hn : n ≤ i) (h : ∀ j < i, ¬ Decisive highWatermark (polls j)) :
    ∀ p ∈ firstPolls polls n, ¬ Decisive highWatermark p := by
  intro p hp
  obtain ⟨j, hj, rfl⟩ := mem_firstPolls.mp hp
  exact h j (Nat.lt_of_lt_of_le hj hn)

theorem eq_of_offset (h : below.Pairwise fun r r' => r.offset < r'.offset) {r r' : KafkaRecord}
    (hr : r ∈ below) (hr' : r' ∈ below) (heq : r.offset = r'.offset) : r = r' := by
  have hnodup : (below.map KafkaRecord.offset).Nodup := by
    rw [List.nodup_iff_pairwise_ne, List.pairwise_map]
    exact h.imp fun hlt => Int64.ne_of_lt hlt
  exact List.inj_on_of_nodup_map hnodup hr hr' heq

/-- Polls that have given every message of the partition from the start on, and
none from behind the watermark. -/
theorem polled_eq (hd : Delivers startOffset highWatermark below polls) {n : Nat}
    (hbelow : ∀ j < n, ∀ r, polls j = .message r → r.offset < highWatermark)
    (hall : ∀ r ∈ below, startOffset ≤ r.offset → ∃ j < n, polls j = .message r) :
    polledRecords (firstPolls polls n) = below.filter fun r => startOffset ≤ r.offset := by
  have hirrefl : Std.Irrefl fun r r' : KafkaRecord => r.offset < r'.offset :=
    ⟨fun r => Int64.lt_irrefl⟩
  have hasymm : Std.Asymm fun r r' : KafkaRecord => r.offset < r'.offset :=
    ⟨fun r r' => Int64.lt_asymm⟩
  have hsorted : (polledRecords (firstPolls polls n)).Pairwise fun r r' => r.offset < r'.offset := by
    rw [polledRecords, List.pairwise_filterMap, firstPolls, List.pairwise_map]
    refine List.pairwise_lt_range.imp fun {a b} hab q hq q' hq' => ?_
    cases ha : polls a <;> rw [ha] at hq <;> cases hq
    cases hb : polls b <;> rw [hb] at hq' <;> cases hq'
    exact hd.ordered a b q q' hab ha hb
  refine hsorted.eq_of_mem_iff (hd.increasing.filter _) fun r => ?_
  rw [mem_polled, List.mem_filter, decide_eq_true_iff]
  constructor
  · rintro ⟨j, hj, hr⟩
    exact ⟨hd.genuine j r hr (hbelow j hj r hr), hd.after j r hr⟩
  · rintro ⟨hr, hstart⟩
    exact hall r hr hstart

variable (hd : Delivers startOffset highWatermark below polls) (hpos : 0 ≤ startOffset)
  (hopen : ¬ highWatermark ≤ startOffset)

include hpos hopen

theorem not_exact_of_idle (h : ∀ j, ¬ Decisive highWatermark (polls j)) :
    ¬ ReplaysExactly startOffset highWatermark below polls := by
  rintro ⟨⟨n, hn⟩, -⟩
  rw [replayPartition_eq hpos hopen,
    replayLoop_none (not_seen hpos hopen) (idle_first (Nat.le_refl n) fun j _ => h j)] at hn
  cases hn

/-- The polls up to the first decisive one settle how the loop ends. -/
theorem replay_first {i n : Nat} (hfirst : ∀ j < i, ¬ Decisive highWatermark (polls j)) :
    replayPartition startOffset highWatermark (firstPolls polls n) =
      if n ≤ i then none
      else replayLoop highWatermark (startOffset - 1)
        (firstPolls polls i ++ polls i :: (List.range (n - (i + 1))).map fun j => polls (i + 1 + j)) := by
  rw [replayPartition_eq hpos hopen]
  split
  · rename_i hn
    exact replayLoop_none (not_seen hpos hopen) (idle_first hn hfirst)
  · rename_i hn
    rw [← firstPolls_add, Nat.add_sub_cancel' (Nat.lt_of_not_le hn)]

theorem exact_of_error {i : Nat} (hfirst : ∀ j < i, ¬ Decisive highWatermark (polls j))
    (hi : polls i = .error) : ReplaysExactly startOffset highWatermark below polls := by
  have hends := fun n => replay_first hpos hopen (n := n) hfirst
  constructor
  · refine ⟨i + 1, ?_⟩
    rw [hends, if_neg (Nat.not_succ_le_self i), hi]
    obtain ⟨events, heq⟩ := replayLoop_error (not_seen hpos hopen) (idle_first (Nat.le_refl i) hfirst) _
    rw [heq]
    rfl
  · intro n events h
    rw [hends, hi] at h
    split at h
    · cases h
    · obtain ⟨events', heq⟩ := replayLoop_error (not_seen hpos hopen) (idle_first (Nat.le_refl i) hfirst)
        ((List.range (n - (i + 1))).map fun j => polls (i + 1 + j))
      rw [heq] at h
      cases h

include hd

theorem exact_iff_message {i : Nat} (hfirst : ∀ j < i, ¬ Decisive highWatermark (polls j))
    {r : KafkaRecord} (hi : polls i = .message r) (hlast : highWatermark - 1 ≤ r.offset) :
    ReplaysExactly startOffset highWatermark below polls ↔ r.offset < highWatermark ∨ r.event = none := by
  have hlt : startOffset < highWatermark := Int64.not_le.mp hopen
  have hsent : ∀ n, replayPartition startOffset highWatermark (firstPolls polls n) =
      if n ≤ i then none
      else some (recordEvents (polledRecords (firstPolls polls i) ++ [r]), .watermark) := by
    intro n
    rw [replay_first hpos hopen hfirst, hi,
      replayLoop_message (not_seen hpos hopen) (idle_first (Nat.le_refl i) hfirst) hlast]
  have hexact : ReplaysExactly startOffset highWatermark below polls ↔
      recordEvents (polledRecords (firstPolls polls i) ++ [r]) =
        (recordEvents below).filter fun e => startOffset ≤ e.1 := by
    constructor
    · intro h
      exact h.2 (i + 1) _ ((hsent (i + 1)).trans (if_neg (Nat.not_succ_le_self i)))
    · intro h
      constructor
      · refine ⟨i + 1, ?_⟩
        rw [hsent, if_neg (Nat.not_succ_le_self i)]
        rfl
      · intro n events hn
        rw [hsent] at hn
        split at hn
        · cases hn
        · cases hn
          exact h
  rw [hexact, ← recordEvents_filter fun o => decide (startOffset ≤ o)]
  have hbefore : ∀ j < i, ∀ r', polls j = .message r' → r'.offset < highWatermark - 1 := by
    intro j hj r' hr'
    have hidle := hfirst j hj
    rw [hr'] at hidle
    exact Int64.not_le.mp hidle
  by_cases hr : r.offset < highWatermark
  · refine iff_of_true ?_ (.inl hr)
    have hmem : r ∈ below := hd.genuine i r hi hr
    have hpolled : polledRecords (firstPolls polls (i + 1)) =
        below.filter fun r => startOffset ≤ r.offset := by
      refine polled_eq hd (n := i + 1) ?_ ?_
      · intro j hj r' hr'
        obtain hji | rfl := Nat.lt_succ_iff_lt_or_eq.mp hj
        · exact Int64.lt_trans (hbefore j hji r' hr') (pred_lt hlt)
        · cases hi.symm.trans hr'
          exact hr
      · intro r' hr' hstart
        have hle : r'.offset ≤ r.offset := Int64.le_trans (le_pred (hd.limited r' hr')) hlast
        obtain hoff | hoff := Int64.lt_or_eq_of_le hle
        · obtain ⟨j, hj, hj'⟩ := hd.unskipped i r hi r' hr' hstart hoff
          exact ⟨j, Nat.lt_succ_of_lt hj, hj'⟩
        · exact ⟨i, Nat.lt_succ_self i, eq_of_offset hd.increasing hr' hmem hoff ▸ hi⟩
    have hadd := firstPolls_add polls i 0
    rw [Nat.add_zero] at hadd
    rw [hadd, hi, polledRecords_append] at hpolled
    exact congrArg recordEvents hpolled
  · have hpolled : polledRecords (firstPolls polls i) =
        below.filter fun r => startOffset ≤ r.offset := by
      refine polled_eq hd (n := i) (fun j hj r' hr' => Int64.lt_trans (hbefore j hj r' hr') (pred_lt hlt)) ?_
      intro r' hr' hstart
      refine hd.unskipped i r hi r' hr' hstart ?_
      exact Int64.lt_of_lt_of_le (hd.limited r' hr') (Int64.not_lt.mp hr)
    have happ : recordEvents (polledRecords (firstPolls polls i) ++ [r]) =
        recordEvents (polledRecords (firstPolls polls i)) ++ recordEvents [r] := List.filterMap_append
    rw [happ, hpolled]
    simp only [hr, false_or]
    constructor
    · intro h
      have hnil := List.append_right_eq_self.mp h
      cases he : r.event with
      | none => rfl
      | some e => simp [recordEvents, he] at hnil
    · intro h
      simp [recordEvents, h]

theorem replaysExactly_iff : ReplaysExactly startOffset highWatermark below polls ↔
    (∃ r ∈ below, r.offset = highWatermark - 1) ∨
      ∃ i, (∀ j < i, ∀ r, polls j = .message r → r.offset < highWatermark) ∧
        (polls i = .error ∨ ∃ r, polls i = .message r ∧ highWatermark ≤ r.offset ∧ r.event = none) := by
  classical
  have hlt : startOffset < highWatermark := Int64.not_le.mp hopen
  have hlater : ∀ {i}, (polls i = .error ∨ ∃ r, polls i = .message r ∧ highWatermark ≤ r.offset ∧
      r.event = none) → Decisive highWatermark (polls i) := by
    rintro i (hi | ⟨r, hi, hr, -⟩)
    · rw [hi]
      exact trivial
    · rw [hi]
      exact Int64.le_trans (Int64.le_of_lt (pred_lt hlt)) hr
  by_cases hdecisive : ∃ i, Decisive highWatermark (polls i)
  · obtain ⟨i, hi, hfirst⟩ : ∃ i, Decisive highWatermark (polls i) ∧
        ∀ j < i, ¬ Decisive highWatermark (polls j) :=
      ⟨Nat.find hdecisive, Nat.find_spec hdecisive, fun j hj => Nat.find_min hdecisive hj⟩
    have hbefore : ∀ j < i, ∀ r, polls j = .message r → r.offset < highWatermark := by
      intro j hj r hr
      have hidle := hfirst j hj
      rw [hr] at hidle
      exact Int64.lt_trans (Int64.not_le.mp hidle) (pred_lt hlt)
    cases hpoll : polls i with
    | timeout =>
      rw [hpoll] at hi
      exact hi.elim
    | error =>
      exact iff_of_true (exact_of_error hpos hopen hfirst hpoll) (.inr ⟨i, hbefore, .inl hpoll⟩)
    | message r =>
      rw [hpoll] at hi
      rw [exact_iff_message hd hpos hopen hfirst hpoll hi]
      constructor
      · rintro (hr | hr)
        · exact .inl ⟨r, hd.genuine i r hpoll hr, Int64.le_antisymm (le_pred hr) hi⟩
        · by_cases hw : r.offset < highWatermark
          · exact .inl ⟨r, hd.genuine i r hpoll hw, Int64.le_antisymm (le_pred hw) hi⟩
          · exact .inr ⟨i, hbefore, .inr ⟨r, hpoll, Int64.not_lt.mp hw, hr⟩⟩
      · rintro (⟨r', hr', hoff⟩ | ⟨i', hbefore', hi'⟩)
        · by_contra hne
          have hw : highWatermark ≤ r.offset := Int64.not_lt.mp fun h => hne (.inl h)
          have hstart : startOffset ≤ r'.offset := hoff ▸ le_pred hlt
          obtain ⟨j, hj, hj'⟩ := hd.unskipped i r hpoll r' hr' hstart
            (Int64.lt_of_lt_of_le (hd.limited r' hr') hw)
          refine hfirst j hj ?_
          rw [hj']
          exact Int64.le_of_eq hoff.symm
        · by_cases hw : r.offset < highWatermark
          · exact .inl hw
          · obtain hlt' | rfl | hgt := Nat.lt_trichotomy i i'
            · exact absurd (hbefore' i hlt' r hpoll) hw
            · obtain herror | ⟨r', hr', -, hevent⟩ := hi'
              · cases hpoll.symm.trans herror
              · cases hpoll.symm.trans hr'
                exact .inr hevent
            · exact absurd (hlater hi') (hfirst i' hgt)
  · have hidle : ∀ j, ¬ Decisive highWatermark (polls j) := fun j hj => hdecisive ⟨j, hj⟩
    refine iff_of_false (not_exact_of_idle hpos hopen hidle) ?_
    rintro (⟨r, hr, hoff⟩ | ⟨i, -, hi⟩)
    · have hstart : startOffset ≤ r.offset := hoff ▸ le_pred hlt
      obtain ⟨i, hi | hi⟩ := hd.fair r hr hstart
      · refine hidle i ?_
        rw [hi]
        exact Int64.le_of_eq hoff.symm
      · refine hidle i ?_
        rw [hi]
        exact trivial
    · exact hidle i (hlater hi)

end Stopping

/-- The replay of a partition stops with all its events just when the last offset
below the watermark has a message, or what comes from behind it does no harm. -/
theorem replay_exact_iff (startOffset highWatermark : Int64) (below : List KafkaRecord)
    (polls : Nat → Poll) (hd : Delivers startOffset highWatermark below polls) :
    ReplaysExactly startOffset highWatermark below polls ↔
      Stops startOffset highWatermark below polls := by
  by_cases hneg : startOffset < 0
  · refine iff_of_true ?_ (.inl hneg)
    have hrefused : ∀ ps, replayPartition startOffset highWatermark ps = some ([], .error) :=
      fun ps => if_pos hneg
    refine ⟨⟨0, by rw [hrefused]; rfl⟩, fun n events h => ?_⟩
    rw [hrefused] at h
    cases h
  · by_cases hdone : highWatermark ≤ startOffset
    · refine iff_of_true ?_ (.inr (.inl hdone))
      have hnothing : ∀ ps, replayPartition startOffset highWatermark ps = some ([], .watermark) := by
        intro ps
        rw [replayPartition, if_neg hneg, replaySessionEvents, if_pos hdone]
      refine ⟨⟨0, by rw [hnothing]; rfl⟩, fun n events h => ?_⟩
      rw [hnothing] at h
      cases h
      refine (List.filter_eq_nil_iff.mpr fun e he => ?_).symm
      obtain ⟨r, hr, hoff⟩ := offset_recordEvents he
      have hlt : e.1 < startOffset := hoff ▸ Int64.lt_of_lt_of_le (hd.limited r hr) hdone
      simpa using hlt
    · rw [replaysExactly_iff hd (Int64.not_lt.mp hneg) hdone, Stops]
      simp only [hneg, hdone, false_or]

/-- A consumer that gives some messages one by one and then nothing more. -/
def pollsOf (records : List KafkaRecord) (n : Nat) : Poll :=
  match records[n]? with
  | some r => .message r
  | none => .timeout

theorem pollsOf_message {records : List KafkaRecord} {i : Nat} {r : KafkaRecord} :
    pollsOf records i = .message r ↔ records[i]? = some r := by
  unfold pollsOf
  split
  · rename_i r' h
    rw [h, Poll.message.injEq, Option.some.injEq]
  · rename_i h
    rw [h]
    exact iff_of_false (by simp) (by simp)

/-- Such a consumer serves a partition with messages of which the last ones come
from behind the watermark. -/
theorem delivers_pollsOf {startOffset highWatermark : Int64} {below later : List KafkaRecord}
    (hincreasing : (below ++ later).Pairwise fun r r' => r.offset < r'.offset)
    (hstart : ∀ r ∈ below ++ later, startOffset ≤ r.offset)
    (hbelow : ∀ r ∈ below, r.offset < highWatermark) (hlater : ∀ r ∈ later, highWatermark ≤ r.offset) :
    Delivers startOffset highWatermark below (pollsOf (below ++ later)) := by
  have hat : ∀ {i j : Nat} {r r' : KafkaRecord}, (below ++ later)[i]? = some r → (below ++ later)[j]? = some r' → i < j →
      r.offset < r'.offset := by
    intro i j r r' hi hj hij
    obtain ⟨hil, rfl⟩ := List.getElem?_eq_some_iff.mp hi
    obtain ⟨hjl, rfl⟩ := List.getElem?_eq_some_iff.mp hj
    exact List.pairwise_iff_getElem.mp hincreasing i j hil hjl hij
  have hpoll : ∀ r ∈ below, ∃ i, pollsOf (below ++ later) i = .message r := by
    intro r hr
    obtain ⟨i, hi⟩ := List.mem_iff_getElem?.mp (List.mem_append_left later hr)
    exact ⟨i, pollsOf_message.mpr hi⟩
  refine ⟨(List.pairwise_append.mp hincreasing).1, hbelow, ?_, ?_, ?_, ?_, ?_⟩
  · intro i r hi
    exact hstart r (List.mem_of_getElem? (pollsOf_message.mp hi))
  · intro i r hi hr
    obtain h | h := List.mem_append.mp (List.mem_of_getElem? (pollsOf_message.mp hi))
    · exact h
    · exact absurd hr (Int64.not_lt.mpr (hlater r h))
  · intro i j r r' hij hi hj
    exact hat (pollsOf_message.mp hi) (pollsOf_message.mp hj) hij
  · intro j r' hj r hr _ hlt
    obtain ⟨i, hi⟩ := hpoll r hr
    refine ⟨i, ?_, hi⟩
    obtain h | rfl | h := Nat.lt_trichotomy i j
    · exact h
    · cases hi.symm.trans hj
      exact absurd hlt Int64.lt_irrefl
    · have hgt := hat (pollsOf_message.mp hj) (pollsOf_message.mp hi) h
      exact absurd hlt (Int64.lt_asymm hgt)
  · intro r hr _
    obtain ⟨i, hi⟩ := hpoll r hr
    exact ⟨i, .inl hi⟩

/-- The last message below the watermark is no event of the session. -/
def samplePartition : List KafkaRecord := [⟨0, some sampleEvent⟩, ⟨1, none⟩]

theorem replay_exact_sample : ReplaysExactly 0 2 samplePartition (pollsOf samplePartition) := by
  have hd : Delivers 0 2 samplePartition (pollsOf (samplePartition ++ [])) :=
    delivers_pollsOf (by decide) (by decide) (by decide) (by decide)
  exact (replay_exact_iff 0 2 samplePartition _ hd).mpr (.inr (.inr (.inl ⟨⟨1, none⟩, by decide, rfl⟩)))

/-- The last offset below the watermark is that of a transaction marker. -/
def gapPartition : List KafkaRecord := [⟨0, some sampleEvent⟩]

def laterEvent : KafkaRecord := ⟨2, some sampleEvent⟩

/-- Without a later message the replay goes on for ever. -/
theorem gap_never_stops (n : Nat) : replayPartition 0 2 (firstPolls (pollsOf gapPartition) n) = none := by
  rw [replayPartition_eq (by decide) (by decide)]
  refine replayLoop_none (by decide) fun p hp => ?_
  obtain ⟨j, -, rfl⟩ := mem_firstPolls.mp hp
  cases j with
  | zero => exact (by decide : ¬ (2 : Int64) - 1 ≤ 0)
  | succ j => exact id

/-- On a partition with such a gap the replay goes on for ever, or it sends an
event from behind the watermark. -/
theorem replay_not_exact :
    (Delivers 0 2 gapPartition (pollsOf (gapPartition ++ [])) ∧
      ¬ ReplaysExactly 0 2 gapPartition (pollsOf (gapPartition ++ []))) ∧
    Delivers 0 2 gapPartition (pollsOf (gapPartition ++ [laterEvent])) ∧
      ¬ ReplaysExactly 0 2 gapPartition (pollsOf (gapPartition ++ [laterEvent])) := by
  refine ⟨⟨delivers_pollsOf (by decide) (by decide) (by decide) (by decide), ?_⟩,
    delivers_pollsOf (by decide) (by decide) (by decide) (by decide), ?_⟩
  · rintro ⟨⟨n, hn⟩, -⟩
    have hnone := gap_never_stops n
    rw [gapPartition] at hnone
    rw [gapPartition, List.append_nil, hnone] at hn
    cases hn
  · rintro ⟨-, h⟩
    have hsent := h 2 [(0, sampleEvent), (2, sampleEvent)] (by decide +kernel)
    revert hsent
    decide +kernel

end MemoryArchive.Capture.Replay
