import Mathlib.Data.Rat.Defs
import Mathlib.Tactic.NormNum
import MemoryArchive.Python.Values
import MemoryArchive.Text.Search

namespace MemoryArchive.Model.Bedrock

open Python

/-- The exceptions that nothing in the parser catches. -/
inductive PyError
  | attribute | overflow | loads
  deriving DecidableEq

/-- What the parser takes from Python: `json.loads`, which gives nothing for a text that
is no JSON, `lower`, and the product of a float with a number. -/
structure Library (F : Type) where
  py : Runtime F
  loads : String → Except PyError (Option (Value F))
  lower : String → String
  times : F → ℚ → F

/-- A price dimension whose price is a number. -/
structure Dimension (F : Type) where
  description : String
  unit : String
  price : F
  deriving DecidableEq

structure Rates (F : Type) where
  inputPerMillion : Option F
  outputPerMillion : Option F

def contains (pattern text : String) : Bool := (Lines.find pattern.toList text.toList).isSome

section Parser

variable {F : Type} (lib : Library F)

/-- `(value or "").lower()`. -/
def lowered (v : Value F) : Except PyError String :=
  if v.toBool lib.py then
    match v with
    | .str s => .ok (lib.lower s)
    | _ => .error .attribute
  else .ok (lib.lower "")

/-- The dictionary that has a `get`. -/
def attributes (v : Value F) : Except PyError (Dict F) := v.members.elim (.error .attribute) .ok

/-- `float(value)`, whose overflow is not caught. -/
def priceOf (v : Value F) : Except PyError (Option F) :=
  match v, v.toFloat lib.py with
  | .int _, none | .bool _, none => .error .overflow
  | _, price => .ok price

def readDimension : Value F → Except PyError (Option (Dimension F))
  | .dict dim => do
      let description ← lowered lib (getD dim "description" .null)
      let pricePerUnit ← attributes (getD dim "pricePerUnit" (.dict []))
      let unit ← lowered lib (getD dim "unit" .null)
      let price ← priceOf lib (getD pricePerUnit "USD" (.str ""))
      return price.map fun price => ⟨description, unit, price⟩
  | _ => .ok none

/-- The price of a million tokens, for a unit that is taken for one. -/
def pricePerMillion (d : Dimension F) : Option F :=
  if contains "1k" d.unit || contains "1,000" d.unit then some (lib.times d.price 1000)
  else if contains "token" d.unit && !contains "1k" d.unit && !contains "1,000" d.unit then
    some (lib.times d.price 1000000)
  else none

def takeDimension (r : Rates F) (d : Dimension F) : Rates F :=
  match pricePerMillion lib d with
  | none => r
  | some rate =>
      if contains "input" d.description then { r with inputPerMillion := some rate }
      else if contains "output" d.description then { r with outputPerMillion := some rate }
      else r

def dimensionRates (r : Rates F) (dim : Value F) : Except PyError (Rates F) := do
  match ← readDimension lib dim with
  | none => return r
  | some d => return takeDimension lib r d

def offerRates (r : Rates F) : Value F → Except PyError (Rates F)
  | .dict offer =>
      match getD offer "priceDimensions" (.dict []) with
      | .dict dims => (dims.map Prod.snd).foldlM (dimensionRates lib) r
      | _ => return r
  | _ => return r

/-- What an item of the list is, if it is one to look at. -/
def itemValue : Value F → Except PyError (Option (Value F))
  | .str text => lib.loads text
  | .dict item => .ok (some (.dict item))
  | _ => .ok none

/-- The offers of an item. -/
def offersOf (item : Value F) : Except PyError (List (Value F)) := do
  match ← itemValue lib item with
  | none => return []
  | some item =>
      let item ← attributes item
      let terms ← attributes (getD item "terms" (.dict []))
      match getD terms "OnDemand" (.dict []) with
      | .dict onDemand => return onDemand.map Prod.snd
      | _ => return []

def itemRates (r : Rates F) (item : Value F) : Except PyError (Rates F) := do
  (← offersOf lib item).foldlM (offerRates lib) r

/-- Both rates have to be there. -/
def Rates.both (r : Rates F) : Option (F × F) :=
  match r.inputPerMillion, r.outputPerMillion with
  | some input, some output => some (input, output)
  | _, _ => none

def parseBedrockPriceList (priceList : List (Value F)) : Except PyError (Option (F × F)) := do
  return (← priceList.foldlM (itemRates lib) ⟨none, none⟩).both

end Parser

section Document

variable {F : Type} (lib : Library F)

def dimensionIn (dim : Value F) : Except PyError (List (Dimension F)) :=
  (readDimension lib dim).map Option.toList

def offerDimensions : Value F → Except PyError (List (Dimension F))
  | .dict offer =>
      match getD offer "priceDimensions" (.dict []) with
      | .dict dims => ((dims.map Prod.snd).mapM (dimensionIn lib)).map List.flatten
      | _ => .ok []
  | _ => .ok []

def itemDimensions (item : Value F) : Except PyError (List (Dimension F)) := do
  ((← offersOf lib item).mapM (offerDimensions lib)).map List.flatten

/-- The price dimensions of a document in the order in which they stand there. -/
def dimensions (priceList : List (Value F)) : Except PyError (List (Dimension F)) :=
  (priceList.mapM (itemDimensions lib)).map List.flatten

inductive Direction
  | input | output
  deriving DecidableEq

def directionOf (d : Dimension F) : Option Direction :=
  if contains "input" d.description then some .input
  else if contains "output" d.description then some .output
  else none

/-- The dimension whose rate stands at the end. -/
def used (dims : List (Dimension F)) (direction : Direction) : Option (Dimension F) :=
  (dims.filter fun d => (pricePerMillion lib d).isSome && directionOf d = some direction).getLast?

/-- A rate is the price times the number of units in a million tokens, where `size` says
how many tokens a unit is. -/
def Scaled (size : String → Option Nat) (d : Dimension F) (rate : F) : Prop :=
  ∃ n, size d.unit = some n ∧ 0 < n ∧ rate = lib.times d.price (1000000 / n)

/-- A price is only given for units that can be read, and is scaled by them. -/
def Faithful (size : String → Option Nat) (priceList : List (Value F)) : Prop :=
  ∀ input output, parseBedrockPriceList lib priceList = .ok (some (input, output)) →
    ∃ dims d d', dimensions lib priceList = .ok dims ∧ used lib dims .input = some d ∧
      used lib dims .output = some d' ∧ Scaled lib size d input ∧ Scaled lib size d' output

/-- The tokens of a unit as its text is matched. -/
def guess (unit : String) : Nat := if contains "1k" unit || contains "1,000" unit then 1000 else 1

/-- The unit is what it is taken for, or the price is one that both scale alike. -/
def Guessed (size : String → Option Nat) (d : Dimension F) : Prop :=
  ∃ n, size d.unit = some n ∧ 0 < n ∧
    (n = guess d.unit ∨ lib.times d.price (1000000 / guess d.unit) = lib.times d.price (1000000 / n))

/-- The two dimensions that are used, if there are two, have units that are guessed. -/
def AllGuessed (size : String → Option Nat) (priceList : List (Value F)) : Prop :=
  ∀ dims d d', dimensions lib priceList = .ok dims → used lib dims .input = some d →
    used lib dims .output = some d' → Guessed lib size d ∧ Guessed lib size d'

end Document

section Folding

variable {ε α β ρ : Type}

/-- A loop that takes what it finds at each place takes what is found at all of them. -/
theorem foldlM_collect {step : ρ → α → Except ε ρ} {collect : α → Except ε (List β)} {take : ρ → β → ρ}
    (h : ∀ r a, step r a = (collect a).map fun bs => bs.foldl take r) (as : List α) (r : ρ) :
    as.foldlM step r = ((as.mapM collect).map List.flatten).map fun bs => bs.foldl take r := by
  induction as generalizing r with
  | nil => rfl
  | cons a as ih =>
    rw [List.foldlM_cons, List.mapM_cons, h]
    cases hfirst : collect a with
    | error e => rfl
    | ok bs =>
      change as.foldlM step (bs.foldl take r) = _
      rw [ih]
      cases hrest : as.mapM collect with
      | error e => rfl
      | ok bss => exact congrArg Except.ok (List.foldl_append).symm

end Folding

section Rates

variable {F : Type} (lib : Library F)

theorem dimensionRates_eq (r : Rates F) (dim : Value F) :
    dimensionRates lib r dim = (dimensionIn lib dim).map fun ds => ds.foldl (takeDimension lib) r := by
  rw [dimensionRates, dimensionIn]
  cases readDimension lib dim with
  | error e => rfl
  | ok o =>
    cases o with
    | none => rfl
    | some d => rfl

theorem offerRates_eq (r : Rates F) (offer : Value F) :
    offerRates lib r offer = (offerDimensions lib offer).map fun ds => ds.foldl (takeDimension lib) r := by
  cases offer with
  | dict offer =>
    rw [offerRates, offerDimensions]
    cases getD offer "priceDimensions" (.dict []) with
    | dict dims => exact foldlM_collect (dimensionRates_eq lib) _ r
    | null | bool _ | int _ | float _ | str _ | list _ => rfl
  | null | bool _ | int _ | float _ | str _ | list _ => rfl

theorem itemRates_eq (r : Rates F) (item : Value F) :
    itemRates lib r item = (itemDimensions lib item).map fun ds => ds.foldl (takeDimension lib) r := by
  rw [itemRates, itemDimensions]
  cases offersOf lib item with
  | error e => rfl
  | ok offers => exact foldlM_collect (offerRates_eq lib) offers r

theorem parse_eq (priceList : List (Value F)) :
    parseBedrockPriceList lib priceList =
      (dimensions lib priceList).map fun ds => (ds.foldl (takeDimension lib) ⟨none, none⟩).both := by
  rw [parseBedrockPriceList, foldlM_collect (itemRates_eq lib), dimensions]
  cases (priceList.mapM (itemDimensions lib)).map List.flatten with
  | error e => rfl
  | ok ds => rfl

theorem both_eq_some {r : Rates F} {input output : F} :
    r.both = some (input, output) ↔ r.inputPerMillion = some input ∧ r.outputPerMillion = some output := by
  obtain ⟨i, o⟩ := r
  cases i with
  | none => exact iff_of_false (fun h => nomatch h) fun h => nomatch h.1
  | some i =>
    cases o with
    | none => exact iff_of_false (fun h => nomatch h) fun h => nomatch h.2
    | some o => simp [Rates.both]

/-- The last dimension of each direction has set its rate. -/
theorem rates_eq (ds : List (Dimension F)) :
    (ds.foldl (takeDimension lib) ⟨none, none⟩).inputPerMillion =
        (used lib ds .input).bind (pricePerMillion lib) ∧
      (ds.foldl (takeDimension lib) ⟨none, none⟩).outputPerMillion =
        (used lib ds .output).bind (pricePerMillion lib) := by
  induction ds using List.reverseRecOn with
  | nil => exact ⟨rfl, rfl⟩
  | append_singleton ds d ih =>
    obtain ⟨hinput, houtput⟩ := ih
    rw [List.foldl_append, List.foldl_cons, List.foldl_nil]
    have hskip : ∀ direction, ((pricePerMillion lib d).isSome && directionOf d = some direction) = false →
        used lib (ds ++ [d]) direction = used lib ds direction := by
      intro direction h
      rw [used, used, List.filter_append, List.filter_singleton, h, cond_false, List.append_nil]
    have htake : ∀ direction, ((pricePerMillion lib d).isSome && directionOf d = some direction) = true →
        used lib (ds ++ [d]) direction = some d := by
      intro direction h
      rw [used, List.filter_append, List.filter_singleton, h, cond_true, List.getLast?_append,
        List.getLast?_singleton, Option.some_or]
    generalize ds.foldl (takeDimension lib) ⟨none, none⟩ = r at hinput houtput ⊢
    rw [takeDimension]
    cases hrate : pricePerMillion lib d with
    | none =>
      rw [hskip .input (by rw [hrate]; rfl), hskip .output (by rw [hrate]; rfl)]
      exact ⟨hinput, houtput⟩
    | some rate =>
      dsimp only
      by_cases hin : contains "input" d.description = true
      · have hdir : directionOf d = some .input := if_pos hin
        rw [if_pos hin, htake .input (by rw [hrate, hdir]; rfl), hskip .output (by rw [hrate, hdir]; rfl),
          Option.bind_some, hrate]
        exact ⟨rfl, houtput⟩
      · rw [if_neg hin]
        by_cases hout : contains "output" d.description = true
        · have hdir : directionOf d = some .output := by rw [directionOf, if_neg hin, if_pos hout]
          rw [if_pos hout, hskip .input (by rw [hrate, hdir]; rfl), htake .output (by rw [hrate, hdir]; rfl),
            Option.bind_some, hrate]
          exact ⟨hinput, rfl⟩
        · have hdir : directionOf d = none := by rw [directionOf, if_neg hin, if_neg hout]
          rw [if_neg hout, hskip .input (by rw [hrate, hdir]; rfl), hskip .output (by rw [hrate, hdir]; rfl)]
          exact ⟨hinput, houtput⟩

theorem priced_of_used {ds : List (Dimension F)} {direction : Direction} {d : Dimension F}
    (h : used lib ds direction = some d) : (pricePerMillion lib d).isSome = true := by
  have hmem := (List.mem_filter.mp (List.mem_of_getLast? h)).2
  rw [Bool.and_eq_true] at hmem
  exact hmem.1

/-- A rate is the price times the units in a million tokens, if a unit is what it is
guessed to be. -/
theorem pricePerMillion_eq {d : Dimension F} (h : (pricePerMillion lib d).isSome = true) :
    pricePerMillion lib d = some (lib.times d.price (1000000 / guess d.unit)) := by
  rw [pricePerMillion, guess] at *
  by_cases hthousand : (contains "1k" d.unit || contains "1,000" d.unit) = true
  · rw [if_pos hthousand, if_pos hthousand]
    norm_num
  · rw [if_neg hthousand] at h ⊢
    rw [if_neg hthousand]
    split at h
    · rename_i htoken
      rw [if_pos htoken]
      norm_num
    · cases h

theorem scaled_iff (size : String → Option Nat) {d : Dimension F} {rate : F}
    (h : pricePerMillion lib d = some rate) : Scaled lib size d rate ↔ Guessed lib size d := by
  have hrate := pricePerMillion_eq lib (by rw [h]; rfl)
  rw [h] at hrate
  cases hrate
  refine exists_congr fun n => and_congr_right fun _ => and_congr_right fun _ => ?_
  constructor
  · exact .inr
  · rintro (rfl | hsame)
    · rfl
    · exact hsame

end Rates

section Sample

/-- The first group of a number has up to three digits, if others follow, which have three. -/
def wellGrouped : List (List Char) → Bool
  | [] => false
  | [group] => group ≠ []
  | group :: groups => group ≠ [] && group.length ≤ 3 && groups.all fun g => g.length = 3

/-- A number in digits, which may be grouped by commas. -/
def groupedNumber (text : List Char) : Option Nat :=
  let groups := text.splitOn ','
  if wellGrouped groups && groups.flatten.all Char.isDigit then
    some (groups.flatten.foldl (fun n c => 10 * n + (c.toNat - 48)) 0)
  else none

/-- A number of tokens, in thousands or in millions. -/
def tokenCount (text : List Char) : Option Nat :=
  match text.reverse with
  | 'k' :: digits => (groupedNumber digits.reverse).map (· * 1000)
  | 'm' :: digits => (groupedNumber digits.reverse).map (· * 1000000)
  | _ => groupedNumber text

/-- What a unit says of itself: so many tokens, or one. -/
def unitTokens (unit : String) : Option Nat :=
  match (Lines.words (fun c => c = ' ') unit.toList).map String.ofList with
  | ["token"] | ["tokens"] => some 1
  | [count, "token"] | [count, "tokens"] => tokenCount count.toList
  | _ => none

example : ["1k tokens", "1,000 tokens", "token", "1m tokens", "1,000,000 tokens", "5k images"].map unitTokens =
    [some 1000, some 1000, some 1, some 1000000, some 1000000, none] := by decide +kernel

example : ["1k tokens", "1,000 tokens", "token", "1m tokens", "1,000,000 tokens"].map guess =
    [1000, 1000, 1, 1, 1000] := by decide +kernel

def sampleLibrary : Library ℚ where
  py := {
    ofLiteral := fun _ => 0
    ofInt := fun i => some i
    ofText := fun s => (groupedNumber s.toList).map fun n => (n : ℚ)
    thousandfold := (· * 1000)
    truncate := fun x => some x.floor
    isZero := fun x => x = 0
    isFinite := fun _ => true
    repr := fun x => .ofInt x.num
    intOfText := fun _ => none }
  loads := fun _ => .ok none
  lower := fun s => String.ofList (s.toList.map Char.toLower)
  times := (· * ·)

def sampleDimension (description : String) : Value ℚ :=
  .dict [("description", .str description), ("unit", .str "1,000,000 tokens"),
    ("pricePerUnit", .dict [("USD", .str "3")])]

/-- A model for three dollars for each million tokens. -/
def sampleList : List (Value ℚ) :=
  [.dict [("terms", .dict [("OnDemand", .dict [("offer", .dict [("priceDimensions",
    .dict [("in", sampleDimension "Input tokens"), ("out", sampleDimension "Output tokens")])])])])]]

/-- Three thousand dollars are asked in place of three. -/
theorem price_misscaled : ¬ Faithful sampleLibrary unitTokens sampleList := by
  intro h
  have hrate : (parseBedrockPriceList sampleLibrary sampleList).toOption = some (some (3000, 3000)) := by
    decide +kernel
  have hlast : ((dimensions sampleLibrary sampleList).toOption.bind fun ds => used sampleLibrary ds .input) =
      some ⟨"input tokens", "1,000,000 tokens", 3⟩ := by
    decide +kernel
  have hsize : unitTokens "1,000,000 tokens" = some 1000000 := by decide +kernel
  cases hparse : parseBedrockPriceList sampleLibrary sampleList with
  | error e =>
    rw [hparse] at hrate
    cases hrate
  | ok rates =>
    rw [hparse] at hrate
    cases hrate
    obtain ⟨ds, d, d', hds, hd, -, ⟨n, hn, -, hscaled⟩, -⟩ := h 3000 3000 hparse
    rw [hds, Except.toOption, Option.bind_some, hd] at hlast
    cases hlast
    rw [hsize] at hn
    cases hn
    change (3000 : ℚ) = 3 * (1000000 / (1000000 : Nat)) at hscaled
    norm_num at hscaled

end Sample

/-- The parser returns no misscaled price just if the units that it uses stand for what
their texts are matched with. -/
theorem prices_faithful_iff {F : Type} (lib : Library F) (size : String → Option Nat)
    (priceList : List (Value F)) : Faithful lib size priceList ↔ AllGuessed lib size priceList := by
  constructor
  · intro h ds d d' hds hd hd'
    obtain ⟨input, hinput⟩ := Option.isSome_iff_exists.mp (priced_of_used lib hd)
    obtain ⟨output, houtput⟩ := Option.isSome_iff_exists.mp (priced_of_used lib hd')
    have hrates := rates_eq lib ds
    rw [hd, hd', Option.bind_some, Option.bind_some, hinput, houtput] at hrates
    have hparse : parseBedrockPriceList lib priceList = .ok (some (input, output)) := by
      rw [parse_eq, hds]
      exact congrArg Except.ok (both_eq_some.mpr hrates)
    obtain ⟨ds', e, e', hds', he, he', hscaled, hscaled'⟩ := h input output hparse
    rw [hds] at hds'
    cases hds'
    rw [hd] at he
    rw [hd'] at he'
    cases he
    cases he'
    exact ⟨(scaled_iff lib size hinput).mp hscaled, (scaled_iff lib size houtput).mp hscaled'⟩
  · intro h input output hparse
    rw [parse_eq] at hparse
    cases hds : dimensions lib priceList with
    | error e =>
      rw [hds] at hparse
      cases hparse
    | ok ds =>
      rw [hds] at hparse
      obtain ⟨hinput, houtput⟩ := both_eq_some.mp (Except.ok.inj hparse)
      obtain ⟨hlastIn, hlastOut⟩ := rates_eq lib ds
      rw [hlastIn] at hinput
      rw [hlastOut] at houtput
      obtain ⟨d, hd, hrate⟩ := Option.bind_eq_some_iff.mp hinput
      obtain ⟨d', hd', hrate'⟩ := Option.bind_eq_some_iff.mp houtput
      obtain ⟨hguessed, hguessed'⟩ := h ds d d' hds hd hd'
      exact ⟨ds, d, d', rfl, hd, hd', (scaled_iff lib size hrate).mpr hguessed,
        (scaled_iff lib size hrate').mpr hguessed'⟩

end MemoryArchive.Model.Bedrock
