import MemoryArchive.Ipc.StatusSteps

namespace MemoryArchive.Ipc

open Registry Runs

/-- No recording of the session is left: every status but those of a capture. -/
def LeftCapture (s : System) (sid : String) : Prop := ∀ old, s.status sid = some old → ¬ Capturing old

/-- The session is complete, or it has been deleted. -/
def Completed (s : System) (sid : String) : Prop := ∀ old, s.status sid = some old → old = .complete

theorem leftCapture_step {s s' : System} {i : SystemInput} {sid : String}
    (hi : ¬ i.Registers sid) (hmove : StatusesMove s i s') (h : LeftCapture s sid) :
    LeftCapture s' sid := by
  have hchange := hmove sid
  intro new hnew
  rw [hnew] at hchange
  cases hs : s.status sid with
  | none =>
    rw [hs] at hchange
    cases hchange with
    | registered hr _ => exact absurd hr hi
  | some old =>
    rw [hs] at hchange
    cases hchange with
    | same => exact h _ hs
    | moved hedge _ => exact hedge.not_capturing (h old hs)

theorem completed_step {s s' : System} {i : SystemInput} {sid : String}
    (hi : ¬ i.Registers sid) (hmove : StatusesMove s i s') (h : Completed s sid) :
    Completed s' sid := by
  have hchange := hmove sid
  intro new hnew
  rw [hnew] at hchange
  cases hs : s.status sid with
  | none =>
    rw [hs] at hchange
    cases hchange with
    | registered hr _ => exact absurd hr hi
  | some old =>
    rw [hs] at hchange
    cases hchange with
    | same => exact h _ hs
    | moved hedge _ => exact absurd (h old hs) hedge.not_complete

/-- A program whose registry holds no session. -/
def System.start (server : Server) : System where
  server :=
    { server with
      redis := { server.redis with sessions := fun _ => .absent, index := fun _ => [], claims := fun _ => none } }
  control _ := .idle

/-- The life of every session in a run: its status moves along the edges only,
in messages that are meant for it; once it has left capture it is never active
again, and once complete it stays so, until it is deleted. -/
structure Lifecycle (s : System) (is : List SystemInput) : Prop where
  changes : Along System.step StatusesMove s is
  left : ∀ is₁ is₂ sid, is = is₁ ++ is₂ → (∀ i ∈ is₂, ¬ i.Registers sid) →
    LeftCapture (run System.step s is₁) sid → LeftCapture (run System.step s is) sid
  final : ∀ is₁ is₂ sid, is = is₁ ++ is₂ → (∀ i ∈ is₂, ¬ i.Registers sid) →
    Completed (run System.step s is₁) sid → Completed (run System.step s is) sid

/-- In every run whose messages come when they are expected, every session
follows its life cycle. -/
theorem lifecycle_of_expected (server : Server) (is : List SystemInput)
    (hg : Guarded System.step (fun s i => Expected s i = true) (.start server) is) :
    Lifecycle (.start server) is := by
  have hstart : Recorded (.start server) := fun _ => watched_idle rfl
  have hchanges : Along System.step StatusesMove (.start server) is :=
    along_run (fun s i h hi => (sound_step s i h hi).recorded)
      (fun s i h hi => (sound_step s i h hi).moves) (.start server) is hstart hg
  refine ⟨hchanges, ?_, ?_⟩
  · rintro is₁ is₂ sid rfl hregisters hleft
    have hsuffix := ((along_append (System.start server) is₁ is₂).mp hchanges).2
    have hkeep : ∀ (s : System) (i : SystemInput), ¬ i.Registers sid → StatusesMove s i (s.step i) →
        LeftCapture s sid → LeftCapture (s.step i) sid :=
      fun _ _ hi hmove h => leftCapture_step hi hmove h
    rw [run_append]
    exact hsuffix.keeps hkeep hregisters hleft
  · rintro is₁ is₂ sid rfl hregisters hcompleted
    have hsuffix := ((along_append (System.start server) is₁ is₂).mp hchanges).2
    have hkeep : ∀ (s : System) (i : SystemInput), ¬ i.Registers sid → StatusesMove s i (s.step i) →
        Completed s sid → Completed (s.step i) sid :=
      fun _ _ hi hmove h => completed_step hi hmove h
    rw [run_append]
    exact hsuffix.keeps hkeep hregisters hcompleted

def lifecycleEnv : OperatorEnv where
  env := ⟨"1.0.0", [], "5c1b", none, "not found", fun _ => .ok [], fun _ => "expected value"⟩
  sessionId := "s1"
  createdAt := "2026-02-25T12:58:04+00:00"
  storagePath := "/memories"
  debugText text := text
  dirError := none
  dirExists _ := true
  metadataLoads := true
  storedSteps := none
  writeError := none
  plaintextKey := ""
  isUuid _ := true
  objectsRemoved := 0
  dirRemoved := false

/-- A session from its registration to its finished memory, with an outage of the
reasoning model. -/
def wholeLife : List SystemInput :=
  [.operator lifecycleEnv (.registerSession ⟨"automated", "demo", none, none, "", ""⟩),
    .operator lifecycleEnv (.startWatch "s1"), .connect "s1" 0 true,
    .operator lifecycleEnv (.reasoningDegraded "s1" 1), .operator lifecycleEnv (.circuitReset "s1"),
    .operator lifecycleEnv (.done "s1"), .leave "s1" 0 true, .finish "s1" 0 none,
    .operator lifecycleEnv (.loadSession "s1"),
    .operator lifecycleEnv (OperatorMessage.completeAnnotation "s1"),
    .operator lifecycleEnv (.finalizeMemory "s1")]

theorem lifecycle_of_expected_sample : Lifecycle (.start (sampleServer [])) wholeLife :=
  lifecycle_of_expected (sampleServer []) wholeLife (by decide +kernel)

/-- A late report that the circuit is closed makes a complete session active. -/
theorem circuitReset_reactivates :
    ¬ Lifecycle (.start (sampleServer []))
      (wholeLife ++ [.operator lifecycleEnv (.circuitReset "s1")]) := by
  intro h
  have hcomplete : (run System.step (.start (sampleServer [])) wholeLife).status "s1" =
      some .complete := by
    decide +kernel
  have hactive : (run System.step (.start (sampleServer []))
      (wholeLife ++ [.operator lifecycleEnv (.circuitReset "s1")])).status "s1" = some .active := by
    decide +kernel
  have hstays := h.final wholeLife [.operator lifecycleEnv (.circuitReset "s1")] "s1" rfl ?_ ?_
  · cases hstays .active hactive
  · rintro i hi ⟨env, r, rfl, -⟩
    cases List.mem_singleton.mp hi
  · intro old hold
    rw [hcomplete] at hold
    cases hold
    rfl

end MemoryArchive.Ipc
