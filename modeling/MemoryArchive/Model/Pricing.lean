import MemoryArchive.Data.Runs
import MemoryArchive.Reasoning.Writers
import MemoryArchive.Tui.Loader

namespace MemoryArchive.Model.Pricing

open Json (Fields)
open Reasoning (Text loads)
open Runs
open Tui (truthy)

/-- How Python's `float` fails. -/
inductive FloatError
  | type | value | overflow
  deriving DecidableEq

/-- One row of the bundled table. -/
structure BaselineEntry (Rate : Type) where
  modelId : String
  input : Rate
  output : Rate
  aliases : List String

/-- What the registry takes from outside its module: the numbers that Python reads,
the check that the public key makes of a signature and a payload, where the key can be loaded,
base64, and the bundled table. -/
structure Library (Rate : Type) where
  float : Json → Except FloatError Rate
  publicKey : Option (List UInt8 → Text → Bool)
  b64decode : Json → Option (List UInt8)
  baseline : List (BaselineEntry Rate)

def unicodeEscape (unit : Nat) : Text :=
  ['\\', 'u', Json.hexDigit (unit / 4096), Json.hexDigit (unit / 256 % 16), Json.hexDigit (unit / 16 % 16),
    Json.hexDigit (unit % 16)]

/-- A character as `json.dumps` writes it, which keeps to ASCII. -/
def ensureAscii (c : Char) : Text :=
  if c.toNat < 0x7f then [c]
  else if c.toNat < 0x10000 then unicodeEscape c.toNat
  else
    unicodeEscape (0xd800 + (c.toNat - 0x10000) / 0x400) ++ unicodeEscape (0xdc00 + (c.toNat - 0x10000) % 0x400)

def dumps (L : Json.Layout) (j : Json) : Text := (Json.print L 0 j).flatMap ensureAscii

section Registry

variable {Rate : Type} (lib : Library Rate)

/-- The text that is signed. -/
def payload (manifest : Fields) : Text :=
  dumps .compact (Json.rebuild Json.putSorted (.obj (manifest.filter fun member => member.1 ≠ "signature")))

def verifyManifest (manifest : Fields) : Bool :=
  let signature := (manifest.lookup "signature").getD (.str "")
  truthy signature &&
    match lib.publicKey with
    | none => false
    | some verify => (lib.b64decode signature).elim false fun bytes => verify bytes (payload manifest)

/-- `float(entry[key])`. -/
def rateMember (entry : Fields) (key : String) : Except (Option FloatError) Rate :=
  match entry.lookup key with
  | none => .error none
  | some v => (lib.float v).mapError some

def rates (entry : Fields) : Except (Option FloatError) (Rate × Rate) := do
  let input ← rateMember lib entry "input_per_million"
  let output ← rateMember lib entry "output_per_million"
  .ok (input, output)

/-- What a loop over a value of Python goes through. -/
def items : Json → Option (List Json)
  | .arr items => some items
  | .obj fields => some (fields.map fun member => .str member.1)
  | .str s => some (s.toList.map fun c => .str (String.singleton c))
  | .null | .bool _ | .num _ => none

def hashable : Json → Bool
  | .arr _ | .obj _ => false
  | _ => true

def ownKey : Json → List String
  | .str s => if s = "" then [] else [s]
  | _ => []

/-- The prices that one model of a manifest puts into the index, and whether an exception
ends the loop there. Keys of other types than text are found by no lookup. -/
def entryPrices : Json → List (String × Rate × Rate) × Bool
  | .obj entry =>
      match rates lib entry with
      | .error (some .overflow) => ([], true)
      | .error _ => ([], false)
      | .ok price =>
          let modelId := (entry.lookup "model_id").getD (.str "")
          if truthy modelId && !hashable modelId then ([], true)
          else
            let own := (ownKey modelId).map fun key => (key, price)
            match items ((entry.lookup "aliases").getD (.arr [])) with
            | none => (own, true)
            | some aliases => (own ++ (aliases.flatMap ownKey).map fun key => (key, price), false)
  | _ => ([], false)

def modelPrices : List Json → List (String × Rate × Rate) × Bool
  | [] => ([], false)
  | entry :: models =>
      match entryPrices lib entry with
      | (prices, true) => (prices, true)
      | (prices, false) => ((modelPrices models).map (prices ++ ·) id)

/-- The prices of a manifest in the order in which they are put into the index. -/
def manifestPrices (manifest : Fields) : List (String × Rate × Rate) × Bool :=
  match (manifest.lookup "models").getD (.arr []) with
  | .arr models => modelPrices lib models
  | _ => ([], false)

structure PricingRegistry (Rate : Type) where
  manifestIndex : Table String (Rate × Rate)
  manifestGeneratedAt : Option Json
  loaded : Bool

def PricingRegistry.new : PricingRegistry Rate := ⟨.empty, none, false⟩

/-- The index keeps what has been put into it when an exception ends the loop. -/
def buildIndex (r : PricingRegistry Rate) (manifest : Fields) : PricingRegistry Rate × Bool :=
  match (manifest.lookup "models").getD (.arr []) with
  | .arr models =>
      let (prices, raised) := modelPrices lib models
      ({ r with
          manifestIndex := prices.foldl (fun index row => index.insert row.1 row.2) r.manifestIndex
          manifestGeneratedAt := manifest.lookup "generated_at" }, raised)
  | _ => (r, false)

def baselineIndex : Table String String :=
  Table.ofRows (lib.baseline.flatMap fun e => (e.modelId, e.modelId) :: e.aliases.map fun a => (a, e.modelId))

def baselineRates (modelId : String) : Option (Rate × Rate) :=
  ((baselineIndex lib).get? modelId).bind
    (Table.ofRows (lib.baseline.map fun e => (e.modelId, e.input, e.output))).get?

def lookup (r : PricingRegistry Rate) (modelId : String) : Option (Rate × Rate) :=
  (r.manifestIndex.get? modelId).or (baselineRates lib modelId)

end Registry

/-- The cache file, which may be there and not be a text. -/
inductive CacheFile
  | missing
  | unreadable
  | text (content : Text)

inductive Response
  | failed
  | body (content : Text)

/-- What a load meets: how Python compares the age of a time with the limit, the answer of the
network, the time, whether the cache can be written, and what another process puts into the place
of the cache file meanwhile. -/
structure Meets where
  recent : Json → Bool
  response : Response
  now : Json.Number
  written : Bool
  swapped : Option CacheFile

def isCacheFresh (recent : Json → Bool) : CacheFile → Bool
  | .missing | .unreadable => false
  | .text content =>
      match loads content with
      | some (.obj data) => recent ((data.lookup "fetched_at_unix").getD (.num (.ofNat 0)))
      | _ => false

def tryLoadCache : CacheFile → Option Fields
  | .missing | .unreadable => none
  | .text content =>
      match loads content with
      | some (.obj data) =>
          match data.lookup "manifest" with
          | some (.obj manifest) => some manifest
          | _ => none
      | _ => none

def writeCache (now : Json.Number) (manifest : Fields) : CacheFile :=
  .text (dumps .pretty (.obj [("fetched_at_unix", .num now), ("manifest", .obj manifest)]))

/-- A process: its registry, the cache file, and an account of the manifests whose signature it
has verified. -/
structure World (Rate : Type) where
  registry : PricingRegistry Rate
  cache : CacheFile
  verified : List Fields

inductive Event
  | tamper (cache : CacheFile)
  | load (meets : Meets)

section Loads

variable {Rate : Type} (lib : Library Rate)

/-- A process starts with any cache file. -/
def World.start (cache : CacheFile) : World Rate := ⟨.new, cache, []⟩

/-- The manifest that a load fetches, where its signature is verified. -/
def fetchVerified (w : World Rate) (e : Meets) : Option Fields :=
  if isCacheFresh e.recent w.cache then none
  else
    match e.response with
    | .failed => none
    | .body content =>
        match loads content with
        | some (.obj manifest) => if verifyManifest lib manifest then some manifest else none
        | _ => none

def tryFetchAndVerify (w : World Rate) (e : Meets) : Option (World Rate × Bool) :=
  (fetchVerified lib w e).map fun manifest =>
    let (registry, raised) := buildIndex lib w.registry manifest
    ({ registry := registry
       cache := if e.written then writeCache e.now manifest else w.cache
       verified := w.verified ++ [manifest] }, raised)

def setLoaded (w : World Rate) (raised : Bool) : World Rate :=
  if raised then w else { w with registry := { w.registry with loaded := true } }

def load (w : World Rate) (e : Meets) : World Rate :=
  match tryFetchAndVerify lib w e with
  | some (w, raised) => setLoaded w raised
  | none =>
      let w := { w with cache := e.swapped.getD w.cache }
      match tryLoadCache w.cache with
      | none => setLoaded w false
      | some manifest =>
          let (registry, raised) := buildIndex lib w.registry manifest
          setLoaded { w with registry := registry } raised

def World.step (w : World Rate) : Event → World Rate
  | .tamper cache => { w with cache := cache }
  | .load e => load lib w e

/-- The manifest in the cache, where a load takes it. -/
def cached (w : World Rate) (e : Meets) : Option Fields :=
  match fetchVerified lib w e with
  | some _ => none
  | none => tryLoadCache (e.swapped.getD w.cache)

/-- The manifest that a load builds the index from. -/
def source (w : World Rate) : Event → Option Fields
  | .tamper _ => none
  | .load e => (fetchVerified lib w e).or (cached lib w e)

/-- The manifest gives the model the price. -/
def Offers (manifest : Fields) (modelId : String) (price : Rate × Rate) : Prop :=
  (modelId, price) ∈ (manifestPrices lib manifest).1

/-- The price is in the bundled table or in a manifest that the process has verified. -/
def Sourced (w : World Rate) (modelId : String) (price : Rate × Rate) : Prop :=
  baselineRates lib modelId = some price ∨ ∃ manifest ∈ w.verified, Offers lib manifest modelId price

def Served (w : World Rate) : Prop :=
  ∀ modelId price, lookup lib w.registry modelId = some price → Sourced lib w modelId price

/-- Prices come from verified manifests, and a manifest whose signature does not verify leaves
the index as it was. -/
structure Trusted (w : World Rate) (e : Event) (w' : World Rate) : Prop where
  served : Served lib w'
  untouched : (∃ manifest ∈ source lib w e, verifyManifest lib manifest = true) ∨
    w'.registry.manifestIndex = w.registry.manifestIndex

/-- A manifest that a load takes from the cache has only prices that are known already: those of
the index if its signature does not verify, and else those of the bundled table and of the
manifests that the process has verified. -/
def Harmless (w : World Rate) : Event → Prop
  | .tamper _ => True
  | .load e => ∀ manifest ∈ cached lib w e, ∀ modelId price,
      lastFor (manifestPrices lib manifest).1 modelId = some price →
        if verifyManifest lib manifest then Sourced lib w modelId price
        else w.registry.manifestIndex.get? modelId = some price

end Loads

section Property

variable {Rate : Type} (lib : Library Rate)

theorem index_buildIndex (r : PricingRegistry Rate) (manifest : Fields) :
    (buildIndex lib r manifest).1.manifestIndex =
      (manifestPrices lib manifest).1.foldl (fun index row => index.insert row.1 row.2) r.manifestIndex := by
  rw [buildIndex, manifestPrices]
  split <;> rfl

/-- An index looks up the last price of the manifest that it was built from. -/
theorem get?_buildIndex (r : PricingRegistry Rate) (manifest : Fields) (modelId : String) :
    (buildIndex lib r manifest).1.manifestIndex.get? modelId =
      (lastFor (manifestPrices lib manifest).1 modelId).or (r.manifestIndex.get? modelId) := by
  rw [index_buildIndex, Table.get?_foldl_insert]

theorem setLoaded_index (w : World Rate) (raised : Bool) :
    (setLoaded w raised).registry.manifestIndex = w.registry.manifestIndex ∧
      (setLoaded w raised).verified = w.verified := by
  rw [setLoaded]
  split
  · exact ⟨rfl, rfl⟩
  · exact ⟨rfl, rfl⟩

/-- A load puts the prices of its source into the index. -/
theorem get?_load (w : World Rate) (e : Meets) (modelId : String) :
    (load lib w e).registry.manifestIndex.get? modelId =
      ((source lib w (.load e)).bind fun manifest => lastFor (manifestPrices lib manifest).1 modelId).or
        (w.registry.manifestIndex.get? modelId) := by
  rw [load, tryFetchAndVerify, source, cached]
  cases fetchVerified lib w e with
  | some manifest =>
    dsimp only [Option.map_some]
    rw [(setLoaded_index _ _).1]
    exact get?_buildIndex lib w.registry manifest modelId
  | none =>
    dsimp only [Option.map_none]
    rw [Option.none_or]
    cases tryLoadCache (e.swapped.getD w.cache) with
    | none => rfl
    | some manifest =>
      dsimp only
      rw [(setLoaded_index _ _).1]
      exact get?_buildIndex lib w.registry manifest modelId

theorem verified_load (w : World Rate) (e : Meets) :
    (load lib w e).verified = w.verified ++ (fetchVerified lib w e).toList := by
  rw [load, tryFetchAndVerify]
  cases fetchVerified lib w e with
  | some manifest => exact (setLoaded_index _ _).2
  | none =>
    dsimp only [Option.map_none]
    rw [Option.toList_none, List.append_nil]
    split
    · rfl
    · exact (setLoaded_index _ _).2

theorem verified_of_fetched {w : World Rate} {e : Meets} {manifest : Fields}
    (h : fetchVerified lib w e = some manifest) : verifyManifest lib manifest = true := by
  rw [fetchVerified] at h
  split at h
  · cases h
  split at h
  · cases h
  split at h
  · split at h
    · rename_i hverified
      cases h
      exact hverified
    · cases h
  · cases h

/-- Only prices of the index have to be accounted for. -/
theorem served_iff (w : World Rate) :
    Served lib w ↔ ∀ modelId price, w.registry.manifestIndex.get? modelId = some price →
      Sourced lib w modelId price := by
  refine forall_congr' fun modelId => forall_congr' fun price => ?_
  rw [lookup]
  cases hindex : w.registry.manifestIndex.get? modelId with
  | some _ => rfl
  | none => exact iff_of_true (fun h => .inl h) nofun

theorem trusted_tamper {w : World Rate} (h : Served lib w) (cache : CacheFile) :
    Trusted lib w (.tamper cache) (w.step lib (.tamper cache)) := ⟨h, .inr rfl⟩

/-- A load that fetches a manifest serves its prices. -/
theorem trusted_fetched {w : World Rate} {e : Meets} (h : Served lib w) {manifest : Fields}
    (hfetched : fetchVerified lib w e = some manifest) : Trusted lib w (.load e) (load lib w e) := by
  have hsource : source lib w (.load e) = some manifest := by rw [source, hfetched]; rfl
  refine ⟨(served_iff lib _).mpr fun modelId price hprice => ?_,
    .inl ⟨manifest, hsource, verified_of_fetched lib hfetched⟩⟩
  rw [get?_load, hsource] at hprice
  rw [Sourced, verified_load, hfetched]
  obtain hnew | ⟨-, hold⟩ := Option.or_eq_some_iff.mp hprice
  · exact .inr ⟨manifest, by simp, mem_of_lastFor hnew⟩
  · obtain hbaseline | ⟨m, hm, hoffers⟩ := (served_iff lib w).mp h modelId price hold
    · exact .inl hbaseline
    · exact .inr ⟨m, List.mem_append_left _ hm, hoffers⟩

/-- A load that takes the manifest of the cache. -/
theorem trusted_cached {w : World Rate} {e : Meets} (h : Served lib w) {manifest : Fields}
    (hfetched : fetchVerified lib w e = none) (hcached : cached lib w e = some manifest) :
    Trusted lib w (.load e) (load lib w e) ↔
      ∀ modelId price, lastFor (manifestPrices lib manifest).1 modelId = some price →
        if verifyManifest lib manifest then Sourced lib w modelId price
        else w.registry.manifestIndex.get? modelId = some price := by
  have hsource : source lib w (.load e) = some manifest := by rw [source, hfetched, hcached]; rfl
  have hindex : ∀ modelId, (load lib w e).registry.manifestIndex.get? modelId =
      (lastFor (manifestPrices lib manifest).1 modelId).or (w.registry.manifestIndex.get? modelId) := by
    intro modelId
    rw [get?_load, hsource]
    rfl
  have hverified : (load lib w e).verified = w.verified := by
    rw [verified_load, hfetched]
    exact List.append_nil _
  have hsourced : ∀ modelId price,
      Sourced lib (load lib w e) modelId price ↔ Sourced lib w modelId price := by
    intro modelId price
    rw [Sourced, Sourced, hverified]
  cases hsigned : verifyManifest lib manifest with
  | true =>
    have huntouched : ∃ m ∈ source lib w (.load e), verifyManifest lib m = true :=
      ⟨manifest, hsource, hsigned⟩
    constructor
    · rintro ⟨hserved, -⟩ modelId price hprice
      rw [if_pos rfl, ← hsourced]
      refine (served_iff lib _).mp hserved modelId price ?_
      rw [hindex, hprice]
      rfl
    · intro hknown
      refine ⟨(served_iff lib _).mpr fun modelId price hprice => ?_, .inl huntouched⟩
      rw [hindex] at hprice
      rw [hsourced]
      obtain hnew | ⟨-, hold⟩ := Option.or_eq_some_iff.mp hprice
      · exact hknown modelId price hnew
      · exact (served_iff lib w).mp h modelId price hold
  | false =>
    constructor
    · rintro ⟨-, ⟨m, hm, hgood⟩ | hsame⟩ modelId price hprice
      · obtain rfl := Option.some.inj (hsource.symm.trans hm)
        rw [hsigned] at hgood
        cases hgood
      · rw [if_neg Bool.false_ne_true, ← hsame, hindex, hprice]
        rfl
    · intro hknown
      have hsame : (load lib w e).registry.manifestIndex = w.registry.manifestIndex := by
        apply Table.ext_get?
        intro modelId
        rw [hindex]
        cases hprice : lastFor (manifestPrices lib manifest).1 modelId with
        | none => rfl
        | some price => exact (hknown modelId price hprice).symm
      refine ⟨(served_iff lib _).mpr fun modelId price hprice => ?_, .inr hsame⟩
      rw [hsame] at hprice
      rw [hsourced]
      exact (served_iff lib w).mp h modelId price hprice

theorem trusted_step {w : World Rate} (h : Served lib w) (e : Event) :
    Trusted lib w e (w.step lib e) ↔ Harmless lib w e := by
  cases e with
  | tamper cache => exact iff_of_true (trusted_tamper lib h cache) trivial
  | load e =>
    rw [World.step, Harmless]
    cases hfetched : fetchVerified lib w e with
    | some manifest =>
      refine iff_of_true (trusted_fetched lib h hfetched) ?_
      rw [cached, hfetched]
      exact fun _ hm => by cases hm
    | none =>
      cases hcached : cached lib w e with
      | none =>
        have hsource : source lib w (.load e) = none := by rw [source, hfetched, hcached]; rfl
        have hsame : (load lib w e).registry.manifestIndex = w.registry.manifestIndex := by
          apply Table.ext_get?
          intro modelId
          rw [get?_load, hsource]
          rfl
        have hverified : (load lib w e).verified = w.verified := by
          rw [verified_load, hfetched]
          exact List.append_nil _
        refine iff_of_true ⟨(served_iff lib _).mpr fun modelId price hprice => ?_, .inr hsame⟩
          fun _ hm => by cases hm
        rw [hsame] at hprice
        rw [Sourced, hverified]
        exact (served_iff lib w).mp h modelId price hprice
      | some manifest =>
        refine (trusted_cached lib h hfetched hcached).trans
          ⟨fun hknown m hm => ?_, fun hall => hall manifest rfl⟩
        obtain rfl := Option.some.inj hm
        exact hknown

/-- In every run of a process, whatever the cache file and the answers of the network, prices
come from verified manifests if and only if each manifest that is taken from the cache is
harmless. -/
theorem prices_verified_iff (cache : CacheFile) (es : List Event) :
    Along (World.step lib) (Trusted lib) (.start cache) es ↔
      Guarded (World.step lib) (Harmless lib) (.start cache) es := by
  have hstart : Served lib (World.start cache : World Rate) := by
    refine (served_iff lib _).mpr fun modelId price hprice => ?_
    cases hprice
  have hstep : ∀ w e, Served lib w → (Trusted lib w e (w.step lib e) ↔ Harmless lib w e) :=
    fun w e h => trusted_step lib h e
  have hkeep : ∀ w e, Served lib w → Trusted lib w e (w.step lib e) → Served lib (w.step lib e) :=
    fun _ _ _ h => h.served
  exact along_iff_guarded_steps hstep hkeep _ es hstart

end Property

/-- A library that verifies nothing, and reads every number as one. -/
def strictLibrary : Library Nat where
  float _ := .ok 1
  publicKey := some fun _ _ => false
  b64decode _ := none
  baseline := []

/-- An unsigned manifest with one model. -/
def forgedManifest : Fields :=
  [("models", .arr [.obj [("model_id", .str "m"), ("input_per_million", .num (.ofNat 0)),
    ("output_per_million", .num (.ofNat 0))]])]

def forgedCache : CacheFile := .text (Json.print .compact 0 (.obj [("manifest", .obj forgedManifest)]))

theorem tryLoadCache_forged : tryLoadCache forgedCache = some forgedManifest := by
  have hdistinct : Json.Distinct (.obj [("manifest", .obj forgedManifest)]) := by
    simp [Json.Distinct, Json.Keyed, Json.KeyedFields, Json.KeyedItems, forgedManifest]
  have hloads : loads (Json.print .compact 0 (.obj [("manifest", .obj forgedManifest)])) =
      some (.obj [("manifest", .obj forgedManifest)]) := by
    rw [loads, Json.parse_print, Option.map_some, Json.rebuild_putDict _ hdistinct]
  rw [forgedCache, tryLoadCache, hloads]
  rfl

def offline : Meets := ⟨fun _ => false, .failed, .ofNat 0, false, none⟩

/-- A load without a network serves the prices of a cache file that nobody has signed. -/
theorem forged_cache_served :
    ¬ Along (World.step strictLibrary) (Trusted strictLibrary) (.start forgedCache)
      [.load offline] := by
  rintro ⟨⟨hserved, -⟩, -⟩
  have hfetched : fetchVerified strictLibrary (.start forgedCache) offline = none := by
    rw [fetchVerified]
    split <;> rfl
  have hsource : source strictLibrary (.start forgedCache) (.load offline) = some forgedManifest := by
    rw [source, cached, hfetched]
    dsimp only [offline, World.start, Option.getD_none]
    rw [Option.none_or, tryLoadCache_forged]
  have hprice : lastFor (manifestPrices strictLibrary forgedManifest).1 "m" = some (1, 1) := by
    decide +kernel
  have hlookup : lookup strictLibrary (load strictLibrary (.start forgedCache) offline).registry "m" =
      some (1, 1) := by
    rw [lookup, get?_load, hsource, Option.bind_some, hprice, Option.some_or, Option.some_or]
  obtain hbaseline | ⟨m, hm, -⟩ := hserved "m" (1, 1) hlookup
  · have hnone : baselineRates strictLibrary "m" = none := by decide +kernel
    cases hnone.symm.trans hbaseline
  · change m ∈ (load strictLibrary (.start forgedCache) offline).verified at hm
    rw [verified_load, hfetched] at hm
    exact List.not_mem_nil hm

end MemoryArchive.Model.Pricing
