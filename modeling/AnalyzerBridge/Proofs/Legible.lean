/-
Findings that say something.

A message is legible if it holds a glyph that is no blank, and a failed outcome is
`Readable` if one of its findings has such a message.

* `legible_of_mem_findings`, `legible_of_parseStderr` — the scan and the error stream say
  something in every finding;
* `readable_outcomeOf_iff` — a payload that lists findings is passed on as it is, so its
  outcome is as readable as they are;
* `Coordinator.analyze_readable_iff` — hence a failed outcome is readable unless the
  analyzer was called and reported nothing but blank messages;
* `Coordinator.analyze_unreadable` — which it may do.

Design notes: only an empty list of findings gets one from the policy
(`silentFailureMessage`); whether the messages of a payload say anything is never looked at.
-/
import AnalyzerBridge.Proofs.Consistency
import AnalyzerBridge.Proofs.Containment
import AnalyzerBridge.Proofs.ErrorStream
import AnalyzerBridge.Proofs.Sweep

namespace AnalyzerBridge

/-- The glyph is no blank; a lone surrogate is none. -/
def Glyph.isMark : Glyph → Bool
  | .char c => !Text.isBlank c
  | .lone _ => true

namespace LooseText

/-- The text holds more than blanks. -/
def legible (t : LooseText) : Bool :=
  t.any Glyph.isMark

theorem legible_of_getLast? {text : List Char} (hne : text ≠ [])
    (hlast : ∀ c, text.getLast? = some c → Text.isBlank c = false) :
    legible (text.map .char) = true := by
  rw [legible, List.any_map, List.any_eq_true]
  refine ⟨_, List.getLast_mem hne, ?_⟩
  simp [Glyph.isMark, hlast _ (List.getLast?_eq_some_getLast hne)]

theorem legible_ofString_append {s : String} (h : legible (ofString s) = true) (rest : String) :
    legible (ofString (s ++ rest)) = true := by
  rw [ofString, String.toList_append, List.map_append, legible, List.any_append, Bool.or_eq_true]
  exact Or.inl h

end LooseText

/-- One of the findings has a legible message. -/
def Outcome.Readable (o : Outcome) : Prop :=
  ∃ d ∈ o.errors, d.message.legible = true

/-- A failed outcome whose findings are all legible is readable. -/
theorem Outcome.Consistent.readable {o : Outcome} (h : o.Consistent) (hfailed : o.success = false)
    (hlegible : ∀ d ∈ o.errors, d.message.legible = true) : o.Readable := by
  have hne : o.errors ≠ [] := fun hnil => by
    rw [Outcome.Consistent, hfailed, hnil] at h
    exact absurd (h.mpr rfl) Bool.false_ne_true
  obtain ⟨d, hd⟩ := List.exists_mem_of_ne_nil _ hne
  exact ⟨d, hd, hlegible d hd⟩

/-! ### The scan -/

/-- Whatever the scan finds begins with a word. -/
theorem Scan.legible_of_mem_findings {text : List Char} {d : Descriptor} (h : d ∈ findings text) :
    d.message.legible = true := by
  rw [findings, List.mem_append, List.mem_append, bracketFindings_eq, declarationFindings_eq,
    arrowFindings_eq, List.mem_append, List.mem_map, List.mem_map, List.mem_map,
    List.mem_map] at h
  rcases h with ((⟨p, -, rfl⟩ | ⟨k, -, rfl⟩) | ⟨p, -, rfl⟩) | ⟨p, -, rfl⟩
  · rw [strayFinding, String.append_assoc, String.append_assoc]
    exact LooseText.legible_ofString_append (by decide) _
  · simp only [unclosedFinding, String.append_assoc]
    exact LooseText.legible_ofString_append (by decide) _
  · rw [unfinishedFinding, String.append_assoc]
    exact LooseText.legible_ofString_append (by decide) _
  · exact (by decide : (LooseText.ofString "Unexpected => at start of line").legible = true)

/-! ### The streams of a run -/

namespace Transcript

/-- A line that is not blank at its end has a legible finding, positioned or not. -/
theorem legible_of_lineFinding {line : List Char} {d : Descriptor} (hne : line ≠ [])
    (hlast : ∀ c, line.getLast? = some c → Text.isBlank c = false) (h : lineFinding line = .ok d) :
    d.message.legible = true := by
  rw [lineFinding] at h
  rcases findPosition?_cases line with ⟨hfind, -⟩ | ⟨start, l, c, message, hfind, hleft⟩
  · rw [hfind] at h
    obtain rfl := Except.ok.inj h
    exact LooseText.legible_of_getLast? hne hlast
  · rw [hfind] at h
    cases hl : zeroBased l with
    | error f => simp [hl] at h
    | ok i =>
      cases hc : zeroBased c with
      | error f => simp [hl, hc] at h
      | ok j =>
        obtain rfl : _ = d := by simpa [hl, hc] using h
        exact LooseText.legible_of_getLast? (hleft.strip_message_ne hlast)
          fun c => Text.isBlank_getLast_strip

/-- Every finding of an error stream is legible, and so is the one that stands for an empty stream. -/
theorem legible_of_parseStderr {stderr : List UInt8} {exitCode : Option Int}
    {found : List Descriptor} (h : parseStderr stderr exitCode = .ok found) :
    ∀ d ∈ found, d.message.legible = true := by
  rw [parseStderr] at h
  split at h
  next =>
    rcases emptyStreamFinding_cases exitCode with ⟨hread, -⟩ | ⟨hread, -⟩
    · rw [hread] at h
      obtain rfl := Except.ok.inj h
      intro d hd
      obtain rfl := List.mem_singleton.mp hd
      exact LooseText.legible_ofString_append (by decide) _
    · rw [hread] at h
      exact absurd h (by simp [Except.map])
  next =>
    intro d hd
    obtain ⟨line, hline, hread⟩ := mem_mapM h d hd
    obtain ⟨-, hne, hlast⟩ := of_mem_contentLines hline
    exact legible_of_lineFinding hne hlast hread

/-- A failed outcome that a payload gives is readable unless the payload lists findings and none of them is
legible. -/
theorem readable_outcomeOf_iff {p : Schema.Payload} (h : (outcomeOf p).success = false) :
    (outcomeOf p).Readable ↔ p.errors = [] ∨ ∃ d ∈ p.errors, d.message.legible = true := by
  cases herrors : p.errors with
  | nil =>
    have hsilent : p.success = false := by
      rw [Bool.eq_false_iff] at h ⊢
      exact fun hs => h ((outcomeOf_success p).mpr ⟨hs, herrors⟩)
    refine iff_of_true ⟨{ message := LooseText.ofString silentFailureMessage }, ?_, by decide⟩
      (Or.inl rfl)
    simp [outcomeOf, Outcome.ofFindings, hsilent, herrors]
  | cons d rest => simp [Outcome.Readable, outcomeOf, Outcome.ofFindings, herrors]

/-- The run completed and reported findings of which none is legible. -/
structure Mute (depth : Nat) (raw : RawOutput) : Prop where
  inTime : raw.timedOut = false
  kept : raw.cancelled = false
  exited : raw.exitCode = some 0
  blank : ∃ p, payloadOf raw.stdout depth = .ok (some p) ∧ p.errors ≠ [] ∧
    ∀ d ∈ p.errors, d.message.legible = false

theorem readable_iff_of_reads {strict : Bool} {depth : Nat} {raw : RawOutput} {o : Outcome}
    (h : Reads strict depth raw o) (hcomplete : o.degraded = none) (hfailed : o.success = false) :
    o.Readable ↔ ¬ Mute depth raw := by
  cases h with
  | timedOut => exact absurd hcomplete (by simp [incomplete])
  | cancelled => exact absurd hcomplete (by simp [incomplete])
  | @payload ht hc hx p hp =>
    rw [readable_outcomeOf_iff hfailed]
    constructor
    · rintro hread ⟨-, -, -, p', hp', hne, hblank⟩
      obtain rfl : p = p' := by simpa [hp] using hp'
      rcases hread with hnil | ⟨d, hd, hlegible⟩
      · exact hne hnil
      · rw [hblank d hd] at hlegible
        exact absurd hlegible Bool.false_ne_true
    · intro hmute
      by_contra hnone
      rw [not_or] at hnone
      refine hmute ⟨ht, hc, hx, p, hp, hnone.1, fun d hd => ?_⟩
      rw [Bool.eq_false_iff]
      exact fun hlegible => hnone.2 ⟨d, hd, hlegible⟩
  | noPayload =>
    -- unreadable output is a success or a fallback, so it is no failure that stands
    cases strict with
    | true => exact absurd hcomplete (by simp [unreadable, incomplete])
    | false => exact absurd hfailed (by simp [unreadable])
  | findings ht hc hx hf =>
    refine iff_of_true ?_ fun hmute => hx hmute.exited
    exact (consistent_ofFindings _ _).readable hfailed (legible_of_parseStderr hf)

end Transcript

/-! ### A request -/

namespace Coordinator

variable {ε : Type} (c : Coordinator ε) (request : Request)

theorem legible_scanOutcome (settings : Settings) (source : String) :
    ∀ d ∈ (settings.scanOutcome source).errors, d.message.legible = true := by
  intro d hd
  rw [Settings.scanOutcome] at hd
  split at hd
  · exact Scan.legible_of_mem_findings hd
  · exact absurd hd List.not_mem_nil

theorem readable_scanOutcome {settings : Settings} {source : String}
    (h : (settings.scanOutcome source).success = false) : (settings.scanOutcome source).Readable :=
  (consistent_scanOutcome settings source).readable h (legible_scanOutcome settings source)

theorem FallsBack.readable {settings : Settings} {source : String} {reason : Reason} {o : Outcome}
    (h : FallsBack (settings.scanOutcome source) reason o) (hfailed : o.success = false) :
    o.Readable := by
  obtain ⟨d, hd, hlegible⟩ := readable_scanOutcome (h.success.symm.trans hfailed)
  exact ⟨d, by rwa [h.errors], hlegible⟩

/-- In a fallback the scan speaks for the run that it replaces. -/
theorem FallsBack.readable_iff {settings : Settings} {source : String} {reason : Reason} {depth : Nat}
    {raw : RawOutput} {o : Outcome} (h : FallsBack (settings.scanOutcome source) reason o)
    (hfailed : o.success = false) (hraw : ¬ Transcript.Mute depth raw) :
    o.Readable ↔ ¬ ∃ raw', (.ok raw : Except Failure RawOutput) = .ok raw' ∧
      Transcript.Mute depth raw' := by
  refine iff_of_true (h.readable hfailed) ?_
  rintro ⟨raw', heq, hmute⟩
  exact hraw (Except.ok.inj heq ▸ hmute)

/-- A request calls the analyzer, and that completes and reports findings of which none is legible. -/
def Muted (listener : Option (Listener ε)) (w : Workspace ε) : Prop :=
  c.settings.enabled = true ∧ 0 < request.deadlineMs ∧
    ∃ raw, c.reply request listener w = .ok raw ∧ Transcript.Mute c.depth raw

/-- A verdict of failure is readable unless the analyzer completed and reported findings of which none is
legible. -/
theorem Verdict.readable_iff {settings : Settings} {source : String} {depth : Nat}
    {answer : Except Failure RawOutput} {o : Outcome}
    (h : Verdict (settings.scanOutcome source) settings depth answer o) (hfailed : o.success = false) :
    o.Readable ↔ ¬ ∃ raw, answer = .ok raw ∧ Transcript.Mute depth raw := by
  -- a run that calls for a fallback is not a mute one
  cases h with
  | notStarted _ hback => exact iff_of_true (hback.readable hfailed) (by simp)
  | timedOut ht hback =>
    refine hback.readable_iff hfailed fun hmute => ?_
    exact absurd (ht.symm.trans hmute.inTime) (by decide)
  | cancelled _ hc hback =>
    refine hback.readable_iff hfailed fun hmute => ?_
    exact absurd (hc.symm.trans hmute.kept) (by decide)
  | malformed _ _ _ _ hp hback =>
    refine hback.readable_iff hfailed fun hmute => ?_
    obtain ⟨p, hpayload, -⟩ := hmute.blank
    exact hp p hpayload
  | completed ht hc hs hread hsource hcomplete =>
    rw [Transcript.readable_iff_of_reads (Transcript.reads_of_translate hread) hcomplete hfailed]
    simp

/-- A failed outcome of a request is readable unless the analyzer was called, completed, and reported
findings of which none is legible. -/
theorem analyze_readable_iff {listener : Option (Listener ε)} {w w' : Workspace ε} {o : Outcome}
    (h : c.analyze request listener w = (.ok o, w')) (hfailed : o.success = false) :
    o.Readable ↔ ¬ c.Muted request listener w := by
  rw [Muted]
  rcases analyze_reply_cases c request h with ⟨henabled, hpos, hverdict⟩ | ⟨hnot, hscan⟩
  · rw [hverdict.readable_iff hfailed]
    simp [henabled, hpos]
  · refine iff_of_true ?_ fun hmuted => hnot ⟨hmuted.1, hmuted.2.1⟩
    rcases hscan with rfl | hback
    · exact readable_scanOutcome hfailed
    · exact hback.readable hfailed

/-- An analyzer that fails without a word leaves a failed outcome that says so. -/
theorem analyze_readable_silent : ∃ o w',
    (answering { exitCode := some 1 }).analyze strayBracket none { surroundings := () } =
        (.ok o, w') ∧ o.success = false ∧ o.Readable := by
  have houtcome : ((answering { exitCode := some 1 }).analyze strayBracket none
      { surroundings := () }).1 =
        .ok { success := false, errors := [Transcript.silentFinding (some 1)] } := by
    have hstderr : Transcript.parseStderr [] (some 1) = .ok [Transcript.silentFinding (some 1)] := by
      refine Transcript.parseStderr_of_silent ?_ ?_
      · rw [Text.Utf8.decodeLossy_ascii (by simp)]
        rfl
      · rintro ⟨code, hcode, hlong⟩
        obtain rfl : 1 = code := Option.some_inj.mp hcode
        exact not_unspellable_one hlong
    have hread : (Transcript.translate false { exitCode := some 1 }).result =
        .ok { success := false, errors := [Transcript.silentFinding (some 1)] } := by
      rw [Transcript.translate, if_neg (by decide), if_neg (by decide), if_neg (by decide)]
      exact congrArg (Except.map (Outcome.ofFindings .analyzer)) hstderr
    rw [analyze_of_reply _ strayBracket (heeds_answering _ _) _ rfl (by decide)]
    exact congrArg (Except.map _) hread
  refine ⟨_, _, Prod.ext houtcome rfl, rfl, ?_⟩
  refine (analyze_readable_iff _ _ (Prod.ext houtcome rfl) rfl).mpr ?_
  rintro ⟨_, _, raw, hreply, hmute⟩
  obtain rfl : _ = raw := Except.ok.inj hreply
  exact absurd hmute.exited (by decide)

/-- Output that reports a failure whose message is a blank. -/
def blankFailure : RawOutput where
  stdout := Text.Utf8.encodeString
    "\x7b\"success\":false,\"errors\":[\x7b\"message\":\" \"\x7d]\x7d"
  exitCode := some 0

/-- A payload with a blank message leaves a failed outcome that says nothing. -/
theorem analyze_unreadable : ∃ o w',
    (answering blankFailure).analyze strayBracket none { surroundings := () } = (.ok o, w') ∧
      o.success = false ∧ ¬ o.Readable := by
  have houtcome : ((answering blankFailure).analyze strayBracket none { surroundings := () }).1 =
      .ok { success := false, errors := [{ message := [.char ' '] }] } := by cbv
  refine ⟨_, _, Prod.ext houtcome rfl, rfl, ?_⟩
  rintro ⟨d, hd, hlegible⟩
  obtain rfl := List.mem_singleton.mp hd
  exact absurd hlegible (by decide)

end Coordinator

end AnalyzerBridge
