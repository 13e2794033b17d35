import Mathlib.Algebra.BigOperators.Group.List.Basic
import Mathlib.Logic.Function.Basic

namespace MemoryArchive.Capture

/-- Input and output token counts. -/
@[ext] structure TokenCounts where
  input : UInt64
  output : UInt64
  deriving DecidableEq

namespace TokenCounts

instance : Zero TokenCounts := ⟨⟨0, 0⟩⟩

instance : Add TokenCounts := ⟨fun a b => ⟨a.input + b.input, a.output + b.output⟩⟩

/-- The counts wrap, so their sums do not depend on the order. -/
instance : AddCommMonoid TokenCounts where
  add_assoc a b c := by
    apply TokenCounts.ext
    · exact UInt64.add_assoc _ _ _
    · exact UInt64.add_assoc _ _ _
  zero_add a := by
    apply TokenCounts.ext
    · exact UInt64.zero_add _
    · exact UInt64.zero_add _
  add_zero a := by
    apply TokenCounts.ext
    · exact UInt64.add_zero _
    · exact UInt64.add_zero _
  add_comm a b := by
    apply TokenCounts.ext
    · exact UInt64.add_comm _ _
    · exact UInt64.add_comm _ _
  nsmul := nsmulRec

end TokenCounts

/-- Token counts keyed by model provider. -/
abbrev ProviderTokens := String → Option TokenCounts

namespace ProviderTokens

def empty : ProviderTokens := fun _ => none

def count (t : ProviderTokens) (provider : String) : TokenCounts := (t provider).getD 0

def add (t : ProviderTokens) (provider : String) (c : TokenCounts) : ProviderTokens :=
  Function.update t provider (some (t.count provider + c))

/-- Add every count of a second map. -/
def addAll (t u : ProviderTokens) : ProviderTokens := fun provider =>
  match u provider with
  | none => t provider
  | some c => some (t.count provider + c)

@[simp] theorem count_empty (provider : String) : empty.count provider = 0 := rfl

theorem count_add (t : ProviderTokens) (provider : String) (c : TokenCounts) (p : String) :
    (t.add provider c).count p = t.count p + if provider = p then c else 0 := by
  unfold count add
  by_cases h : provider = p
  · subst h
    simp [count]
  · simp [Function.update_of_ne (Ne.symm h), h]

theorem count_addAll (t u : ProviderTokens) (p : String) :
    (t.addAll u).count p = t.count p + u.count p := by
  unfold count addAll
  cases u p with
  | none => simp
  | some c => simp [count]

end ProviderTokens

/-- What the program holds of the reasoning of one session: the counts that no
flush has taken yet, and whether the circuit breaker is open. -/
structure ReasoningMaps where
  tokens : Option TokenCounts
  providerTokens : Option ProviderTokens
  degraded : Bool

namespace ReasoningMaps

def new : ReasoningMaps := ⟨none, none, false⟩

def addTokens (m : ReasoningMaps) (c : TokenCounts) : ReasoningMaps :=
  { m with tokens := some (m.tokens.getD 0 + c) }

def drainTokens (m : ReasoningMaps) : TokenCounts × ReasoningMaps :=
  (m.tokens.getD 0, { m with tokens := none })

/-- An empty provider is passed over: manual entries have no provider. -/
def addProviderTokens (m : ReasoningMaps) (provider : String) (c : TokenCounts) : ReasoningMaps :=
  if provider = "" then m
  else { m with providerTokens := some ((m.providerTokens.getD .empty).add provider c) }

def drainProviderTokens (m : ReasoningMaps) : ProviderTokens × ReasoningMaps :=
  (m.providerTokens.getD .empty, { m with providerTokens := none })

def markDegraded (m : ReasoningMaps) : ReasoningMaps := { m with degraded := true }

def resetDegraded (m : ReasoningMaps) : ReasoningMaps := { m with degraded := false }

def removeSession (_ : ReasoningMaps) : ReasoningMaps := new

end ReasoningMaps

end MemoryArchive.Capture
