/-
What every outcome has in common.

An outcome is `Consistent` if it succeeds exactly when it lists nothing, and
`Accounted` for if it tells whose it is: a fallback is the scan's and names its
reason, and an outcome of the analyzer with a caveat is a success.

* `consistent_of_reads`, `accounted_of_reads` — the outcome of a run, whatever the
  payload says of itself;
* `Coordinator.analyze_result_cases` — the outcome of a request is that of the scan,
  a fallback on it, or that of a run;
* `outcomes_consistent` — both properties for everybody who hands out an outcome.

Design notes: outcomes are plain records, so nothing in their type keeps a success
from listing findings; the producers do, and `degrade` changes neither.
-/
import AnalyzerBridge.Proofs.CommandLine
import AnalyzerBridge.Proofs.Containment
import Mathlib

namespace AnalyzerBridge

/-- The outcome succeeds exactly if it lists nothing. -/
def Outcome.Consistent (o : Outcome) : Prop :=
  o.success = true ↔ o.errors = []

/-- The outcome tells whose it is. -/
structure Outcome.Accounted (o : Outcome) : Prop where
  fallback : ∀ reason, o.degraded = some reason → o.source = .heuristic ∧
    ∃ caveat, o.caveat = some caveat ∧ caveat ≠ "" ∧ reason.name.toList <:+: caveat.toList
  complete : o.source = .analyzer → o.degraded = none
  excused : ∀ caveat, o.source = .analyzer → o.caveat = some caveat →
    o.success = true ∧ o.errors = []

/-! ### The producers -/

theorem consistent_ofFindings (source : Source) (findings : List Descriptor) :
    (Outcome.ofFindings source findings).Consistent :=
  List.isEmpty_iff

namespace Transcript

theorem consistent_incomplete (message : String) (reason : Reason) (caveat : String) :
    (incomplete message reason caveat).Consistent := by
  simp [Outcome.Consistent, incomplete]

/-- A payload succeeds only if it says so and lists nothing. -/
theorem outcomeOf_success (p : Schema.Payload) :
    (outcomeOf p).success = true ↔ p.success = true ∧ p.errors = [] := by
  rw [outcomeOf, Outcome.ofFindings]
  cases p.success <;> cases p.errors <;> simp

theorem consistent_outcomeOf (p : Schema.Payload) : (outcomeOf p).Consistent :=
  consistent_ofFindings _ _

theorem consistent_of_reads {strict : Bool} {depth : Nat} {raw : RawOutput} {o : Outcome}
    (h : Reads strict depth raw o) : o.Consistent := by
  cases h with
  | timedOut => exact consistent_incomplete _ _ _
  | cancelled => exact consistent_incomplete _ _ _
  | payload => exact consistent_outcomeOf _
  | noPayload =>
    cases strict with
    | true => exact consistent_incomplete _ _ _
    | false => simp [Outcome.Consistent, unreadable]
  | findings => exact consistent_ofFindings _ _

/-- The outcome of a run that completed is accounted for; only unreadable output leaves a caveat. -/
theorem accounted_of_reads {strict : Bool} {depth : Nat} {raw : RawOutput} {o : Outcome}
    (h : Reads strict depth raw o) (hcomplete : o.degraded = none) : o.Accounted := by
  refine ⟨fun reason hreason => ?_, fun _ => hcomplete, fun caveat _ hcaveat => ?_⟩
  · rw [hcomplete] at hreason
    exact absurd hreason (by simp)
  · cases h with
    | timedOut => exact absurd hcomplete (by simp [incomplete])
    | cancelled => exact absurd hcomplete (by simp [incomplete])
    | payload => exact absurd hcaveat (by simp [outcomeOf, Outcome.ofFindings])
    | noPayload =>
      cases strict with
      | true => exact absurd hcomplete (by simp [unreadable, incomplete])
      | false => exact ⟨rfl, rfl⟩
    | findings => exact absurd hcaveat (by simp [Outcome.ofFindings])

end Transcript

namespace Coordinator

variable {ε : Type} (c : Coordinator ε) (request : Request)

theorem consistent_scanOutcome (settings : Settings) (source : String) :
    (settings.scanOutcome source).Consistent := by
  rw [Outcome.Consistent, scanOutcome_success, List.isEmpty_iff]

theorem accounted_scanOutcome (settings : Settings) (source : String) :
    (settings.scanOutcome source).Accounted := by
  rw [Settings.scanOutcome]
  split <;> exact ⟨fun _ h => absurd h (by simp [Outcome.ofFindings]), fun _ => rfl,
    fun _ _ h => absurd h (by simp [Outcome.ofFindings])⟩

variable {scanned : Outcome}

theorem FallsBack.consistent {reason : Reason} {o : Outcome} (h : FallsBack scanned reason o)
    (hscan : scanned.Consistent) : o.Consistent := by
  rw [Outcome.Consistent, h.success, h.errors]
  exact hscan

/-- A fallback is accounted for by its caveat, which begins with the reason. -/
theorem FallsBack.accounted {reason : Reason} {o : Outcome} (h : FallsBack scanned reason o)
    (hscan : scanned.source = .heuristic) : o.Accounted := by
  have hsource : o.source = .heuristic := h.source.trans hscan
  have hnot : o.source ≠ .analyzer := by
    rw [hsource]
    decide
  refine ⟨fun r hr => ⟨hsource, ?_⟩, fun ha => absurd ha hnot, fun _ ha => absurd ha hnot⟩
  obtain rfl := Option.some_inj.mp (h.degraded.symm.trans hr)
  obtain ⟨detail, hcaveat⟩ := h.caveat
  refine ⟨_, hcaveat, fun hempty => ?_,
    ⟨"analyzer unavailable (".toList, ("): " ++ detail).toList, ?_⟩⟩
  · have hlist := congrArg String.toList hempty
    simp at hlist
  · simp [String.toList_append]

/-- An answer calls for a fallback, or it is read as a run that completed. -/
theorem Verdict.cases {settings : Settings} {depth : Nat} {answer : Except Failure RawOutput}
    {o : Outcome} (h : Verdict scanned settings depth answer o) :
    (∃ reason, FallsBack scanned reason o) ∨
      ∃ raw, (Transcript.translate settings.strictOutput raw depth).result = .ok o ∧
        o.source = .analyzer ∧ o.degraded = none := by
  cases h with
  | notStarted _ h => exact Or.inl ⟨_, h⟩
  | timedOut _ h => exact Or.inl ⟨_, h⟩
  | cancelled _ _ h => exact Or.inl ⟨_, h⟩
  | malformed _ _ _ _ _ h => exact Or.inl ⟨_, h⟩
  | completed _ _ _ hread hsource hcomplete => exact Or.inr ⟨_, hread, hsource, hcomplete⟩

theorem scanOutcome_source (settings : Settings) (source : String) :
    (settings.scanOutcome source).source = .heuristic := by
  rw [Settings.scanOutcome]
  split <;> rfl

/-- The outcome of a request is that of the scan, a fallback on it, or that of a run that completed. -/
theorem analyze_result_cases {listener : Option (Listener ε)} {w w' : Workspace ε} {o : Outcome}
    (h : c.analyze request listener w = (.ok o, w')) :
    o = c.settings.scanOutcome request.source ∨
      (∃ reason, FallsBack (c.settings.scanOutcome request.source) reason o) ∨
      ∃ raw, (Transcript.translate c.settings.strictOutput raw c.depth).result = .ok o ∧
        o.source = .analyzer ∧ o.degraded = none := by
  rcases analyze_reply_cases c request h with ⟨-, -, hverdict⟩ | ⟨-, rfl | hback⟩
  · exact Or.inr hverdict.cases
  · exact Or.inl rfl
  · exact Or.inr (Or.inl ⟨_, hback⟩)

/-- The outcome of a request is consistent and accounted for. -/
theorem analyze_sound {listener : Option (Listener ε)} {w w' : Workspace ε} {o : Outcome}
    (h : c.analyze request listener w = (.ok o, w')) : o.Consistent ∧ o.Accounted := by
  have hscan := consistent_scanOutcome c.settings request.source
  obtain rfl | ⟨reason, hfallback⟩ | ⟨raw, hread, -, hcomplete⟩ := analyze_result_cases c request h
  · exact ⟨hscan, accounted_scanOutcome _ _⟩
  · exact ⟨hfallback.consistent hscan, hfallback.accounted (scanOutcome_source _ _)⟩
  · have hreads := Transcript.reads_of_translate hread
    exact ⟨Transcript.consistent_of_reads hreads, Transcript.accounted_of_reads hreads hcomplete⟩

end Coordinator

/-- Every outcome is consistent: one read from a run, whatever a payload says of itself, one that the scan
alone prints, and one that answers a request, which also tells whose it is. -/
theorem outcomes_consistent {ε : Type} :
    (∀ (strict : Bool) (raw : RawOutput) (depth : Nat) (o : Outcome),
      (Transcript.translate strict raw depth).result = .ok o → o.Consistent) ∧
    (∀ p : Schema.Payload, (Transcript.outcomeOf p).Consistent ∧
      ((Transcript.outcomeOf p).success = true ↔ p.success = true ∧ p.errors = [])) ∧
    (∀ (setup : CommandLine.Setup ε) (file : String) (bytes : List UInt8) (w : Workspace ε),
      setup.files.contentOf file = .bytes bytes →
      CommandLine.carryOut setup (.lint file) w =
          (.ok (.printed (CommandLine.printed (CommandLine.lintOutcome bytes))), w) ∧
        (CommandLine.lintOutcome bytes).Consistent) ∧
    (∀ (c : Coordinator ε) (request : Request) (listener : Option (Listener ε))
        (w w' : Workspace ε) (o : Outcome),
      c.analyze request listener w = (.ok o, w') → o.Consistent ∧ o.Accounted) := by
  refine ⟨fun strict raw depth o h => ?_, fun p => ?_, fun setup file bytes w h => ?_,
    fun c request listener w w' o h => c.analyze_sound request h⟩
  · exact Transcript.consistent_of_reads (Transcript.reads_of_translate h)
  · exact ⟨Transcript.consistent_outcomeOf p, Transcript.outcomeOf_success p⟩
  · exact ⟨CommandLine.carryOut_lint h w, consistent_ofFindings _ _⟩

/-- Output that claims a success and lists a finding. -/
def contradictoryOutput : RawOutput where
  stdout := Text.Utf8.encodeString
    "\x7b\"success\":true,\"errors\":[\x7b\"message\":\"m\"\x7d]\x7d"
  exitCode := some 0

/-- An analyzer that claims a success and lists a finding is not believed, one that ran out of time is
accounted for, and so is a stray bracket in a file. -/
theorem outcomes_consistent_contradictory :
    (∃ o : Outcome, (Transcript.translate false contradictoryOutput).result = .ok o ∧
      o.success = false ∧ o.Consistent) ∧
    (∃ (o : Outcome) (w : Workspace Unit),
      (Coordinator.answering { timedOut := true }).analyze Coordinator.strayBracket none
        { surroundings := () } = (.ok o, w) ∧
      o.degraded = some .timeout ∧ o.Consistent ∧ o.Accounted) ∧
    (CommandLine.lintOutcome [0x5D]).Consistent := by
  obtain ⟨hread, -, hlint, hanalyze⟩ := @outcomes_consistent Unit
  have hoverruled : (Transcript.translate false contradictoryOutput).result =
      .ok { success := false, errors := [{ message := [.char 'm'] }] } := by cbv
  refine ⟨⟨_, hoverruled, rfl, hread _ _ _ _ hoverruled⟩, ?_, ?_⟩
  · obtain ⟨o, w, h, hdegraded⟩ : ∃ o w,
        (Coordinator.answering { timedOut := true }).analyze Coordinator.strayBracket none
          { surroundings := () } = (.ok o, w) ∧ o.degraded = some .timeout := ⟨_, _, rfl, rfl⟩
    obtain ⟨hconsistent, haccounted⟩ := hanalyze _ _ _ _ _ _ h
    exact ⟨o, w, h, hdegraded, hconsistent, haccounted⟩
  · exact (hlint { files := fun _ => .bytes [0x5D], invoke := fun _ _ => pure {} } "f" [0x5D]
      { surroundings := () } rfl).2

end AnalyzerBridge
