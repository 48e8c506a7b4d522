/-
The ways into the program agree.

A source has one verdict under some settings, as long as the analyzer answers a call
always in the same way and leaves the session alone.

* `analyze_of_told` — a request with the time of the settings ends as the verdict on its
  source says, whatever came before it, whoever listens and whatever it is called;
* `validate_verdict` — so does a refresh, if its findings can be sent;
* `execute_verdict` — so does the analyze command, and answers with the record of the
  outcome;
* `entry_points_agree` — all of them agree with the command line.

Design notes: a verdict may also be the failure of a reader that has met one of its
limits; then all ways into the program end with that failure.
-/
import AnalyzerBridge.Proofs.Containment
import AnalyzerBridge.Proofs.Contract
import AnalyzerBridge.Proofs.Placement
import AnalyzerBridge.Proofs.Record
import AnalyzerBridge.Proofs.Session

namespace AnalyzerBridge

variable {ε : Type}

/-- The analyzer answers each call in its own way, whatever the token and the workspace, and leaves the
session alone. -/
structure Answers (invoke : Invoker ε) (answers : Call → Except SpawnFault RawOutput) : Prop where
  answer : ∀ call token w, (invoke call token w).1 = (answers call).mapError .spawn
  session : ∀ call token w, (invoke call token w).2.session = w.session

/-- The result that a source has under some settings, if the analyzer answers so and its output may nest
so deep. -/
def Settings.verdict (settings : Settings) (answers : Call → Except SpawnFault RawOutput) (depth : Nat)
    (source : String) : Except Failure Outcome :=
  if settings.enabled then
    Coordinator.judge (settings.scanOutcome source) settings depth
      ((answers ⟨settings.command, settings.args ++ [source], settings.timeoutMs⟩).mapError .spawn)
  else .ok (settings.scanOutcome source)

variable {answers : Call → Except SpawnFault RawOutput}

/-! ### One request -/

namespace Coordinator

variable {c : Coordinator ε} {request : Request}

/-- A request with the time of the settings ends as the verdict on its source says, once everybody has
been told, and does nothing more to the session than to leave it. -/
theorem analyze_of_told (hanswers : Answers c.invoke answers)
    (hdeadline : request.deadlineMs = c.settings.timeoutMs) (hpos : 0 < c.settings.timeoutMs)
    (listener : Option (Listener ε)) {w w' : Workspace ε}
    (htell : tell (listener <|> c.listener) request (c.settings.scanOutcome request.source)
      { w with session := (entry request w.session).2 } = (.ok (), w')) :
    (c.analyze request listener w).1 = c.settings.verdict answers c.depth request.source ∧
      (c.analyze request listener w).2.session = exit request w'.session := by
  rw [analyze_apply, answer_of_tell c request htell, Settings.verdict]
  cases c.settings.enabled with
  | false => exact ⟨rfl, rfl⟩
  | true =>
    obtain ⟨log, hconsult⟩ := consult_apply c request (c.settings.scanOutcome request.source)
      (entry request w.session).1 w' (by rw [hdeadline]; exact hpos)
    have hcall : c.settings.call request =
        ⟨c.settings.command, c.settings.args ++ [request.source], c.settings.timeoutMs⟩ := by
      rw [Settings.call, hdeadline]
    rw [if_pos rfl, if_pos rfl, hconsult, hanswers.answer, hcall]
    refine ⟨rfl, ?_⟩
    show exit request (c.invoke _ _ w').2.session = exit request w'.session
    rw [hanswers.session]

/-- Whoever listens, as long as nobody fails, makes no difference. -/
theorem analyze_verdict (hanswers : Answers c.invoke answers)
    (hdeadline : request.deadlineMs = c.settings.timeoutMs) (hpos : 0 < c.settings.timeoutMs)
    {listener : Option (Listener ε)} (hheeds : Heeds (listener <|> c.listener)) (w : Workspace ε) :
    (c.analyze request listener w).1 = c.settings.verdict answers c.depth request.source :=
  (analyze_of_told hanswers hdeadline hpos listener (tell_of_heeds request hheeds _ _)).1

theorem heeds_none : Heeds (none : Option (Listener ε)) :=
  fun listen h => absurd h (by simp)

end Coordinator

/-! ### The service -/

namespace Service

variable {s : Service ε} {settings : Settings} {w : Workspace ε}

/-- A service that has loaded no settings yet, or these, goes on with these. -/
theorem coordinator_of_agreeing
    (hresolve : Settings.resolve s.files s.root none s.environment [] s.room = .ok settings)
    (hloaded : ∀ loaded, w.settings = some loaded → loaded = settings) :
    s.coordinator w = (.ok ⟨settings, s.invoke, none, s.depth⟩, { w with settings := some settings }) := by
  cases hw : w.settings with
  | some loaded =>
    obtain rfl := hloaded loaded hw
    have hself : { w with settings := some loaded } = w := by rw [← hw]
    rw [hself, coordinator_of_loaded hw]
  | none => exact coordinator_of_resolve hw hresolve

/-- The listener of a refresh leaves the session alone, and does not fail if the findings of the scan can
be sent. -/
theorem tell_early_of_sendable {uri : String} {d : Document} {r : Request} {scanned : Outcome}
    (h : scanned.success = false → Sendable d scanned) (w : Workspace ε) :
    ∃ w', Coordinator.tell (some (early uri d)) r scanned w = (.ok (), w') ∧
      w'.session = w.session := by
  rw [Coordinator.tell]
  cases hscanned : scanned.success with
  | true => exact ⟨w, rfl, rfl⟩
  | false =>
    rw [if_neg (by simp), early, Act.run_bind (Workspace.isCurrent_apply w uri r.id)]
    cases w.session.isCurrent uri r.id with
    | false => exact ⟨w, rfl, rfl⟩
    | true => exact ⟨_, publish_of_sendable (h hscanned), rfl⟩

/-- A request that was begun is current until another begins, also once it is finished. -/
theorem isCurrent_finish_begin (session : Session) (uri id : String) :
    (((session.begin uri id).2).finish uri id).isCurrent uri id = true := by
  rw [Session.isCurrent_iff, Session.finish_latest, ← Session.isCurrent_iff]
  exact (Session.isCurrent_step session (.begin uri id) uri id).mpr (.inl rfl)

/-- The request of a refresh ends as the verdict on the text says, and is current then. -/
theorem analyze_early {uri id : String} {d : Document} {invoke : Invoker ε} {depth : Nat}
    (hanswers : Answers invoke answers) (hpos : 0 < settings.timeoutMs)
    (hscan : (settings.scanOutcome d.text).success = false →
      Sendable d (settings.scanOutcome d.text)) (w : Workspace ε) :
    ∃ w', (⟨settings, invoke, none, depth⟩ : Coordinator ε).analyze (request uri id d settings)
        (some (early uri d)) w = (settings.verdict answers depth d.text, w') ∧
      w'.session.isCurrent uri id = true := by
  obtain ⟨told, htell, hsession⟩ := tell_early_of_sendable (r := request uri id d settings) hscan
    { w with session := (Coordinator.entry (request uri id d settings) w.session).2 }
  obtain ⟨hresult, hafter⟩ := Coordinator.analyze_of_told (c := ⟨settings, invoke, none, depth⟩)
    hanswers rfl hpos (some (early uri d)) htell
  refine ⟨_, Prod.ext hresult rfl, ?_⟩
  rw [hafter, hsession]
  exact isCurrent_finish_begin w.session uri id

/-- A refresh ends as the verdict on the text of its document says, if the findings can be sent. -/
theorem validate_verdict
    (hresolve : Settings.resolve s.files s.root none s.environment [] s.room = .ok settings)
    (hanswers : Answers s.invoke answers)
    (hloaded : ∀ loaded, w.settings = some loaded → loaded = settings) (uri : String)
    (hscan : (settings.scanOutcome (w.document uri).text).success = false →
      Sendable (w.document uri) (settings.scanOutcome (w.document uri).text))
    (hsend : ∀ o, settings.verdict answers s.depth (w.document uri).text = .ok o →
      Sendable (w.document uri) o) :
    (s.validate uri w).1 = (settings.verdict answers s.depth (w.document uri).text).map some := by
  have hpos : 0 < settings.timeoutMs :=
    Settings.Resolved.timeoutMs_pos ⟨s.files, s.root, none, s.environment, [], s.room, hresolve⟩
  have hc : s.coordinator { w with nextNumber := w.nextNumber + 1 } =
      (.ok ⟨settings, s.invoke, none, s.depth⟩,
        { w with nextNumber := w.nextNumber + 1, settings := some settings }) :=
    coordinator_of_agreeing hresolve hloaded
  obtain ⟨w', hanalyze, hcurrent⟩ : ∃ w', (⟨settings, s.invoke, none, s.depth⟩ : Coordinator ε).analyze
      (request uri (requestId uri w) (w.document uri) settings) (some (early uri (w.document uri)))
      { w with nextNumber := w.nextNumber + 1, settings := some settings } =
        (settings.verdict answers s.depth (w.document uri).text, w') ∧
      w'.session.isCurrent uri (requestId uri w) = true :=
    analyze_early hanswers hpos hscan _
  cases hverdict : settings.verdict answers s.depth (w.document uri).text with
  | error fault =>
    rw [hverdict] at hanalyze
    rw [validate, Act.run_bind (Act.look_apply _ w),
      Act.run_bind (Workspace.nextRequestId_apply w uri), Act.run_bind hc, ← requestId,
      Act.fail_bind hanalyze]
    rfl
  | ok o =>
    rw [hverdict] at hanalyze
    obtain ⟨w₁, hconclude, -⟩ := conclude_of_sendable hcurrent (hsend o hverdict)
    rw [s.validate_of_analyze hc hanalyze, hconclude]
    rfl

/-- The payload of the analyze command for a source alone. -/
def sourcePayload (source : String) : Value :=
  .table [("source", .text source)]

/-- The answer to the analyze command for an outcome. -/
def answered (o : Outcome) : Response :=
  .answered o.toRecord o.success

/-- The analyze command answers with the record of the outcome that the verdict gives. -/
theorem execute_verdict
    (hresolve : Settings.resolve s.files s.root none s.environment [] s.room = .ok settings)
    (hanswers : Answers s.invoke answers)
    (hloaded : ∀ loaded, w.settings = some loaded → loaded = settings) (source : String) :
    (s.execute (sourcePayload source) w).1 = (settings.verdict answers s.depth source).map answered := by
  have hpos : 0 < settings.timeoutMs :=
    Settings.Resolved.timeoutMs_pos ⟨s.files, s.root, none, s.environment, [], s.room, hresolve⟩
  have htable : (Act.ofExcept (requirePayload (sourcePayload source)) : Act (Workspace ε) Table) w =
      (.ok [("source", .text source)], w) := rfl
  have hcommand : Schema.readCommand (.table [("source", .text source)]) =
      .ok ⟨.ofString source, none, none⟩ := rfl
  obtain ⟨w₁, hc⟩ : ∃ w₁, s.coordinator w = (.ok ⟨settings, s.invoke, none, s.depth⟩, w₁) :=
    ⟨_, coordinator_of_agreeing hresolve hloaded⟩
  obtain ⟨w', hanalyze⟩ : ∃ w', (⟨settings, s.invoke, none, s.depth⟩ : Coordinator ε).analyze
      { source := source, id := requestId analyzeCommand w₁, deadlineMs := settings.timeoutMs } none
      { w₁ with nextNumber := w₁.nextNumber + 1 } = (settings.verdict answers s.depth source, w') :=
    ⟨_, Prod.ext (Coordinator.analyze_verdict hanswers rfl hpos Coordinator.heeds_none _) rfl⟩
  have hrefused : ¬ settings.timeoutMs ≤ 0 := by omega
  have hsource : (LooseText.ofString source).replaced = source := LooseText.replaced_ofString source
  rw [execute, Act.run_bind htable]
  simp only [hcommand]
  rw [Act.run_bind hc, effectiveTimeout, if_neg hrefused,
    Act.run_bind (Workspace.nextRequestId_apply w₁ analyzeCommand), ← requestId, hsource]
  cases hverdict : settings.verdict answers s.depth source with
  | error fault =>
    rw [hverdict] at hanalyze
    rw [Act.fail_bind hanalyze]
    rfl
  | ok o =>
    rw [hverdict] at hanalyze
    rw [Act.run_bind hanalyze, Outcome.record_eq]
    rfl

end Service

/-! ### All ways into the program -/

/-- The command line without options answers with the verdict on its source. -/
theorem CommandLine.analyze_verdict {setup : Setup ε} {root : Option PurePath} {settings : Settings}
    (hresolve : Settings.resolve setup.files root none setup.environment [] setup.room = .ok settings)
    (hanswers : Answers setup.invoke answers) (source : String) (w : Workspace ε) :
    (analyze setup source root .null false false w).1 = settings.verdict answers setup.depth source := by
  have hpos : 0 < settings.timeoutMs :=
    Settings.Resolved.timeoutMs_pos ⟨setup.files, root, none, setup.environment, [], setup.room, hresolve⟩
  have hread : (Act.ofExcept (Settings.resolve setup.files root none setup.environment
      (overrides .null false false) setup.room) : Act (Workspace ε) Settings) w = (.ok settings, w) := by
    rw [Act.ofExcept_apply, ← hresolve]
    rfl
  rw [analyze, Act.run_bind hread]
  exact Coordinator.analyze_verdict hanswers rfl hpos Coordinator.heeds_none w

/-- Under settings without overrides, and with an analyzer that answers each call in its own way and
leaves the session alone, the command line, a refresh whose findings can be sent, and the analyze command
end with one and the same verdict on a source; the analyze command answers with its record, and with 0
exactly for a success.  So does a request of any name, for any document or none, in any state of the
workspace, whoever listens to it without failing. -/
theorem entry_points_agree (s : Service ε) {settings : Settings}
    (hresolve : Settings.resolve s.files s.root none s.environment [] s.room = .ok settings)
    (hanswers : Answers s.invoke answers) (source : String) :
    (∀ w, (CommandLine.analyze ⟨s.files, s.environment, s.invoke, s.room, s.depth⟩ source s.root .null
        false false w).1 = settings.verdict answers s.depth source) ∧
    (∀ w : Workspace ε, (∀ loaded, w.settings = some loaded → loaded = settings) →
      (∀ uri, (w.document uri).text = source →
        ((settings.scanOutcome source).success = false →
          Service.Sendable (w.document uri) (settings.scanOutcome source)) →
        (∀ o, settings.verdict answers s.depth source = .ok o → Service.Sendable (w.document uri) o) →
        (s.validate uri w).1 = (settings.verdict answers s.depth source).map some) ∧
      (s.execute (Service.sourcePayload source) w).1 =
        (settings.verdict answers s.depth source).map Service.answered) ∧
    (∀ o, (Service.answered o).exitCode = 0 ↔ o.success = true) ∧
    ∀ (own listener : Option (Listener ε)) (request : Request) (w : Workspace ε),
      Coordinator.Heeds (listener <|> own) → request.source = source →
      request.deadlineMs = settings.timeoutMs →
      ((⟨settings, s.invoke, own, s.depth⟩ : Coordinator ε).analyze request listener w).1 =
        settings.verdict answers s.depth source := by
  have hpos : 0 < settings.timeoutMs :=
    Settings.Resolved.timeoutMs_pos ⟨s.files, s.root, none, s.environment, [], s.room, hresolve⟩
  refine ⟨CommandLine.analyze_verdict hresolve hanswers source, fun w hloaded => ⟨?_, ?_⟩,
    fun o => ?_, ?_⟩
  · rintro uri rfl hscan hsend
    exact Service.validate_verdict hresolve hanswers hloaded uri hscan hsend
  · exact Service.execute_verdict hresolve hanswers hloaded source
  · rw [Service.answered, Service.Response.exitCode]
    cases o.success <;> simp
  · rintro own listener request w hheeds rfl hdeadline
    exact Coordinator.analyze_verdict hanswers hdeadline hpos hheeds w

/-- Without an analyzer, a stray bracket is found in every way into the program. -/
theorem entry_points_agree_unstartable :
    let answers : Call → Except SpawnFault RawOutput := fun call => .error ⟨call.command, "gone"⟩
    let s : Service Unit := { invoke := fun call _ => Act.ofExcept ((answers call).mapError .spawn) }
    let w : Workspace Unit := { documents := [("u", ⟨"]", none⟩)], surroundings := () }
    Answers s.invoke answers ∧ ∃ settings o,
      Settings.resolve s.files s.root none s.environment [] s.room = .ok settings ∧
      Service.Sendable (w.document "u") (settings.scanOutcome "]") ∧
      Service.Sendable (w.document "u") o ∧ o.success = false ∧
      (CommandLine.analyze ⟨s.files, s.environment, s.invoke, s.room, s.depth⟩ "]" s.root .null
        false false w).1 = .ok o ∧
      (s.validate "u" w).1 = .ok (some o) ∧
      (s.execute (Service.sourcePayload "]") w).1 = .ok (Service.answered o) ∧
      ((⟨settings, s.invoke, none, s.depth⟩ : Coordinator Unit).analyze
        { source := "]", id := "r", deadlineMs := settings.timeoutMs } none w).1 = .ok o := by
  intro answers s w
  have hanswers : Answers s.invoke answers := ⟨fun _ _ _ => rfl, fun _ _ _ => rfl⟩
  obtain ⟨settings, hresolve, henabled, hheuristics⟩ : ∃ settings,
      Settings.resolve s.files s.root none s.environment [] s.room = .ok settings ∧
      settings.enabled = true ∧ settings.heuristicsEnabled = true := ⟨_, rfl, rfl, rfl⟩
  -- the analyzer cannot be started, so the scan has the last word
  obtain ⟨o, hverdict, herrors, hsuccess⟩ : ∃ o, settings.verdict answers s.depth "]" = .ok o ∧
      o.errors = (settings.scanOutcome "]").errors ∧ o.success = (settings.scanOutcome "]").success := by
    rw [Settings.verdict, if_pos henabled]
    exact ⟨_, rfl, rfl, rfl⟩
  have hfound : (settings.scanOutcome "]").success = false := by
    rw [Settings.scanOutcome, if_pos hheuristics]
    decide +kernel
  have hscan : Service.Sendable (w.document "u") (settings.scanOutcome "]") :=
    Service.sendable_scanOutcome settings (fun v hv => absurd hv (by simp [w, Workspace.document]))
      (by decide)
  have hsend : Service.Sendable (w.document "u") o := ⟨hscan.version, herrors ▸ hscan.placeable⟩
  obtain ⟨hcommandLine, hservice, -, hrequest⟩ := entry_points_agree s hresolve hanswers "]"
  obtain ⟨hvalidate, hexecute⟩ := hservice w (fun loaded h => absurd h (by simp [w]))
  have hrefresh := hvalidate "u" rfl (fun _ => hscan) (fun o' ho' => by
    rw [hverdict] at ho'
    rwa [← Except.ok.inj ho'])
  rw [hverdict] at hcommandLine hrefresh hexecute hrequest
  exact ⟨hanswers, settings, o, hresolve, hscan, hsend, hsuccess.trans hfound, hcommandLine w, hrefresh,
    hexecute, hrequest none none _ w Coordinator.heeds_none rfl rfl⟩

end AnalyzerBridge
