/-
The time that the analyze command gives to the analyzer.

A command may ask for a time, and the settings have one.  A watched service writes down
the calls of its analyzer, as a watched coordinator does.

* `mirrors_pursue` — a watched command does what the command does, and writes down its
  contacts;
* `callsOnce_of_pos`, `refusesTime_of_nonpos` — a time that is positive reaches the
  analyzer as it is, any other is refused;
* `execute_honours_iff` — the time that decides is the one that was asked for, unless
  that is zero: a zero is taken for no time at all, and the settings step in.
-/
import AnalyzerBridge.Proofs.Contract
import AnalyzerBridge.Proofs.Service

namespace AnalyzerBridge

theorem Workspace.silent_nextRequestId {ε : Type} (uri : String) :
    Silent (ε := ε) (nextRequestId uri) (nextRequestId uri) := by
  intro w before
  rw [List.append_nil]
  rfl

namespace Service

variable {ε : Type} (s : Service ε)

/-- The service whose analyzer writes down its calls. -/
def watched : Service (ε × List Contact) where
  files := s.files
  root := s.root
  environment := s.environment
  invoke := Invoker.watched s.invoke
  room := s.room
  depth := s.depth

/-- The name of the request that a command starts. -/
def commandId (command : Schema.CommandRecord) : Act (Workspace ε) String :=
  match command.requestId with
  | none | some [] => Workspace.nextRequestId analyzeCommand
  | some id => pure id.replaced

/-- The request that a command starts. -/
def commandRequest (command : Schema.CommandRecord) (deadlineMs : Int) (id : String) : Request :=
  { source := command.source.replaced, id := id, deadlineMs := deadlineMs }

/-- What is done for a command that is not refused. -/
def pursue (c : Coordinator ε) (command : Schema.CommandRecord) (deadlineMs : Int) :
    Act (Workspace ε) Response := do
  let id ← commandId command
  let outcome ← c.analyze (commandRequest command deadlineMs id) none
  let record ← Act.ofExcept (outcome.record.mapError .invalid)
  return .answered record outcome.success

/-- How a command is refused that leaves no time. -/
def timeRefusal : Response :=
  .refused ["timeout_ms must be positive"]

section Command

variable {s} {w w' : Workspace ε} {c : Coordinator ε} {t : Table} {command : Schema.CommandRecord}

/-- A command that can be read is refused or pursued, as its time decides. -/
theorem execute_apply (hread : Schema.readCommand (.table t) = .ok command)
    (hc : s.coordinator w = (.ok c, w')) :
    s.execute (.table t) w =
      if effectiveTimeout command.timeoutMs c.settings ≤ 0 then (.ok timeRefusal, w')
      else pursue c command (effectiveTimeout command.timeoutMs c.settings) w' := by
  have hpayload : (Act.ofExcept (requirePayload (.table t)) : Act (Workspace ε) Table) w = (.ok t, w) := rfl
  rw [execute, Act.run_bind hpayload]
  simp only [hread]
  rw [Act.run_bind hc]
  split
  · rfl
  · rw [pursue, commandId]
    -- the name is chosen first on both sides
    cases command.requestId with
    | none => rfl
    | some name =>
      cases name with
      | nil => rfl
      | cons => rfl

/-- A watched service loads what the service loads, and its coordinator has no listener of its own. -/
theorem watched_coordinator (hc : s.coordinator w = (.ok c, w')) :
    c.listener = none ∧
      ∀ seen, s.watched.coordinator (w.watch seen) = (.ok c.watched, w'.watch seen) := by
  cases hloaded : w.settings with
  | some settings =>
    obtain ⟨hsettings, rfl⟩ := Prod.mk.inj ((coordinator_of_loaded hloaded).symm.trans hc)
    obtain rfl := Except.ok.inj hsettings
    exact ⟨rfl, fun seen => coordinator_of_loaded (s := s.watched) (w := w.watch seen) hloaded⟩
  | none =>
    cases hresolve : Settings.resolve s.files s.root none s.environment [] s.room with
    | error fault =>
      rw [coordinator_of_refusal hloaded hresolve] at hc
      exact absurd (Prod.mk.inj hc).1 (by simp)
    | ok settings =>
      obtain ⟨hsettings, rfl⟩ := Prod.mk.inj ((coordinator_of_resolve hloaded hresolve).symm.trans hc)
      obtain rfl := Except.ok.inj hsettings
      exact ⟨rfl, fun seen =>
        coordinator_of_resolve (s := s.watched) (w := w.watch seen) hloaded hresolve⟩

/-- The name of a command is a fresh one, or it is given. -/
theorem commandId_cases (command : Schema.CommandRecord) :
    (∀ ε, commandId (ε := ε) command = Workspace.nextRequestId analyzeCommand) ∨
      ∃ id, ∀ ε, commandId (ε := ε) command = pure id := by
  unfold commandId
  split
  next => exact .inl fun _ => rfl
  next => exact .inl fun _ => rfl
  next name _ _ => exact .inr ⟨name.replaced, fun _ => rfl⟩

theorem commandId_apply (command : Schema.CommandRecord) (w : Workspace ε) :
    ∃ id w', commandId command w = (.ok id, w') := by
  rcases commandId_cases command with h | ⟨id, h⟩
  · rw [h ε]
    exact ⟨_, _, rfl⟩
  · rw [h ε]
    exact ⟨_, _, rfl⟩

theorem silent_commandId (command : Schema.CommandRecord) :
    Silent (ε := ε) (commandId command) (commandId command) := by
  rcases commandId_cases command with h | ⟨id, h⟩
  · rw [h, h]
    exact Workspace.silent_nextRequestId analyzeCommand
  · rw [h, h]
    exact silent_pure id

/-- A watched command does what the command does, and writes down its contacts. -/
theorem mirrors_pursue (c : Coordinator ε) (command : Schema.CommandRecord) (deadlineMs : Int) :
    Mirrors (pursue c command deadlineMs) (pursue c.watched command deadlineMs)
      (thenSeen (commandId command) (fun _ => [])
        fun id => c.contactsOf (commandRequest command deadlineMs id) none) := by
  refine Mirrors.bind (silent_commandId command) fun id => ?_
  refine Mirrors.bind_silent (c.mirrors_analyze (commandRequest command deadlineMs id) none)
    fun outcome => ?_
  exact silent_bind (silent_ofExcept _) fun record => silent_pure _

/-- Without listeners, a request with time left has one contact, the call. -/
theorem contactsOf_of_pos (request : Request) (hlistener : c.listener = none)
    (henabled : c.settings.enabled = true) (hpos : 0 < request.deadlineMs) (w : Workspace ε) :
    ∃ token answer, c.contactsOf request none w = [.called (c.settings.call request) token answer] := by
  have hcalled : ∀ token w, c.calledOf request token w =
      [.called (c.settings.call request) token (c.invoke (c.settings.call request) token w).1] :=
    fun token w => if_neg (Int.not_le.mpr hpos)
  have htell : ∀ scanned, Coordinator.tell (ε := ε) none request scanned = pure () := fun _ => rfl
  have hnobody : (none <|> c.listener) = none := hlistener
  rw [Coordinator.contactsOf, henabled, if_pos rfl, hnobody, htell, thenSeen]
  exact ⟨_, _, hcalled _ _⟩

end Command

/-! ### Times that are kept -/

/-- The command calls the analyzer once, with the call, and uses nobody else. -/
def CallsOnce (payload : Value) (w : Workspace ε) (call : Call) : Prop :=
  ∃ token answer, s.watched.execute payload (w.watch []) =
    ((s.execute payload w).1, (s.execute payload w).2.watch [.called call token answer])

/-- The command is refused for its time, and uses nobody. -/
def RefusesTime (payload : Value) (w : Workspace ε) : Prop :=
  (s.execute payload w).1 = .ok timeRefusal ∧ timeRefusal.exitCode = 2 ∧
    s.watched.execute payload (w.watch []) =
      ((s.execute payload w).1, (s.execute payload w).2.watch [])

/-- The time that a command asks for is honoured: a positive one is that of the call, and any other is
refused. -/
def Honours (payload : Value) (w : Workspace ε) (command : Schema.CommandRecord) (settings : Settings)
    (askedMs : Int) : Prop :=
  if 0 < askedMs then
    s.CallsOnce payload w ⟨settings.command, settings.args ++ [command.source.replaced], askedMs⟩
  else s.RefusesTime payload w

section Time

variable {s} {w w' : Workspace ε} {c : Coordinator ε} {t : Table} {command : Schema.CommandRecord}
  {askedMs : Int}

/-- What is refused calls nobody. -/
theorem RefusesTime.not_callsOnce {payload : Value} {call : Call} (h : s.RefusesTime payload w) :
    ¬ s.CallsOnce payload w call := by
  rintro ⟨token, answer, hcall⟩
  have hsurroundings := congrArg (fun r => r.2.surroundings.2) (hcall.symm.trans h.2.2)
  exact absurd hsurroundings (List.cons_ne_nil _ _)

/-- A positive time is the time of the one call. -/
theorem callsOnce_of_pos (hread : Schema.readCommand (.table t) = .ok command)
    (hc : s.coordinator w = (.ok c, w')) (henabled : c.settings.enabled = true)
    (hpos : 0 < effectiveTimeout command.timeoutMs c.settings) :
    s.CallsOnce (.table t) w ⟨c.settings.command, c.settings.args ++ [command.source.replaced],
      effectiveTimeout command.timeoutMs c.settings⟩ := by
  obtain ⟨hlistener, hwatched⟩ := watched_coordinator hc
  have hsettings : c.watched.settings = c.settings := rfl
  obtain ⟨id, w₁, hid⟩ := commandId_apply command w'
  obtain ⟨token, answer, hcontacts⟩ := contactsOf_of_pos
    (commandRequest command (effectiveTimeout command.timeoutMs c.settings) id) hlistener henabled hpos w₁
  refine ⟨token, answer, ?_⟩
  rw [execute_apply hread hc, execute_apply hread (hwatched []), hsettings, if_neg (Int.not_le.mpr hpos),
    if_neg (Int.not_le.mpr hpos), mirrors_pursue c command _ w' [], thenSeen, hid]
  simp only [hcontacts, List.nil_append]
  rfl

/-- A time that is not positive is refused. -/
theorem refusesTime_of_nonpos (hread : Schema.readCommand (.table t) = .ok command)
    (hc : s.coordinator w = (.ok c, w'))
    (hnonpos : effectiveTimeout command.timeoutMs c.settings ≤ 0) :
    s.RefusesTime (.table t) w := by
  obtain ⟨-, hwatched⟩ := watched_coordinator hc
  have hsettings : c.watched.settings = c.settings := rfl
  rw [RefusesTime, execute_apply hread hc, execute_apply hread (hwatched []), hsettings,
    if_pos hnonpos, if_pos hnonpos]
  exact ⟨rfl, rfl, rfl⟩

/-- The time that a command asks for is honoured unless it is zero.  A zero is refused only where the
settings have no time either, which settings out of layers always have; everywhere else the analyzer is
called, with the time of the settings. -/
theorem execute_honours_iff (hread : Schema.readCommand (.table t) = .ok command)
    (hasked : command.timeoutMs = some askedMs) (hc : s.coordinator w = (.ok c, w'))
    (henabled : c.settings.enabled = true) :
    (s.Honours (.table t) w command c.settings askedMs ↔
      askedMs ≠ 0 ∨ c.settings.timeoutMs ≤ 0) ∧
    (c.settings.Resolved →
      (s.Honours (.table t) w command c.settings askedMs ↔ askedMs ≠ 0)) ∧
    (askedMs = 0 → 0 < c.settings.timeoutMs →
      s.CallsOnce (.table t) w ⟨c.settings.command, c.settings.args ++ [command.source.replaced],
        c.settings.timeoutMs⟩) := by
  have hgiven : askedMs ≠ 0 → effectiveTimeout command.timeoutMs c.settings = askedMs := fun hne => by
    rw [hasked]
    exact if_neg hne
  have hdefault : askedMs = 0 → effectiveTimeout command.timeoutMs c.settings = c.settings.timeoutMs :=
    fun h => by
      rw [hasked]
      exact if_pos h
  have hfallback : askedMs = 0 → 0 < c.settings.timeoutMs → s.CallsOnce (.table t) w
      ⟨c.settings.command, c.settings.args ++ [command.source.replaced], c.settings.timeoutMs⟩ := by
    intro h hpos
    rw [← hdefault h] at hpos ⊢
    exact callsOnce_of_pos hread hc henabled hpos
  have hiff : s.Honours (.table t) w command c.settings askedMs ↔
      askedMs ≠ 0 ∨ c.settings.timeoutMs ≤ 0 := by
    rw [Honours]
    rcases Int.lt_trichotomy askedMs 0 with hneg | hzero | hpos
    · have hne : askedMs ≠ 0 := by omega
      have hnonpos : effectiveTimeout command.timeoutMs c.settings ≤ 0 := by
        rw [hgiven hne]
        omega
      rw [if_neg (by omega)]
      exact iff_of_true (refusesTime_of_nonpos hread hc hnonpos) (.inl hne)
    · rw [if_neg (by omega)]
      constructor
      · intro hrefuses
        exact .inr (Int.not_lt.mp fun hpos => hrefuses.not_callsOnce (hfallback hzero hpos))
      · intro h
        refine refusesTime_of_nonpos hread hc ?_
        rw [hdefault hzero]
        exact h.resolve_left fun hne => hne hzero
    · have hne : askedMs ≠ 0 := by omega
      have heffective := hgiven hne
      rw [if_pos hpos]
      have hcalls := callsOnce_of_pos hread hc henabled (heffective.symm ▸ hpos)
      rw [heffective] at hcalls
      exact iff_of_true hcalls (.inl hne)
  refine ⟨hiff, fun hresolved => hiff.trans (or_iff_left ?_), hfallback⟩
  have hpos := hresolved.timeoutMs_pos
  omega

end Time

/-- A service whose analyzer finds nothing. -/
def untroubled : Service Unit where
  invoke := fun _ _ => pure { exitCode := some 0 }

/-- A workspace in which the default settings are loaded. -/
def loadedDefaults : Workspace Unit where
  settings := some {}
  surroundings := ()

/-- The payload of a command for a bracket too many, with a time. -/
def strayPayload (time : Value) : Table :=
  [("source", .text "]"), ("timeout_ms", time)]

/-- A time that is given as a text is that of the call. -/
theorem execute_honours_seven : ∃ command c,
    Schema.readCommand (.table (strayPayload (.text "7"))) = .ok command ∧
      command.timeoutMs = some 7 ∧ untroubled.coordinator loadedDefaults = (.ok c, loadedDefaults) ∧
      c.settings.enabled = true ∧
      untroubled.Honours (.table (strayPayload (.text "7"))) loadedDefaults command c.settings 7 := by
  obtain ⟨command, hread, hasked⟩ : ∃ command,
      Schema.readCommand (.table (strayPayload (.text "7"))) = .ok command ∧
        command.timeoutMs = some 7 := ⟨_, rfl, rfl⟩
  have hc : untroubled.coordinator loadedDefaults =
      (.ok ⟨{}, untroubled.invoke, none, untroubled.depth⟩, loadedDefaults) := coordinator_of_loaded rfl
  obtain ⟨hiff, -⟩ := execute_honours_iff hread hasked hc rfl
  exact ⟨command, _, hread, hasked, hc, rfl, hiff.mpr (.inl (by decide))⟩

/-- A command that asks for no time at all is not refused: the analyzer runs as long as the settings let
it. -/
theorem execute_misreads_zero : ∃ command c,
    Schema.readCommand (.table (strayPayload (.int 0))) = .ok command ∧
      command.timeoutMs = some 0 ∧ untroubled.coordinator loadedDefaults = (.ok c, loadedDefaults) ∧
      c.settings.enabled = true ∧
      untroubled.CallsOnce (.table (strayPayload (.int 0))) loadedDefaults ⟨"java", ["]"], 5000⟩ ∧
      ¬ untroubled.Honours (.table (strayPayload (.int 0))) loadedDefaults command c.settings 0 := by
  obtain ⟨command, hread, hasked, hsource⟩ : ∃ command,
      Schema.readCommand (.table (strayPayload (.int 0))) = .ok command ∧
        command.timeoutMs = some 0 ∧ command.source.replaced = "]" := ⟨_, rfl, rfl, rfl⟩
  have hc : untroubled.coordinator loadedDefaults =
      (.ok ⟨{}, untroubled.invoke, none, untroubled.depth⟩, loadedDefaults) := coordinator_of_loaded rfl
  have htime : effectiveTimeout command.timeoutMs {} = 5000 := by
    rw [hasked]
    rfl
  have hcalls : untroubled.CallsOnce (.table (strayPayload (.int 0))) loadedDefaults ⟨"java", ["]"], 5000⟩ := by
    have hcalls := callsOnce_of_pos hread hc rfl (by rw [htime]; decide)
    rwa [hsource, htime] at hcalls
  exact ⟨command, _, hread, hasked, hc, rfl, hcalls, fun hrefuses => hrefuses.not_callsOnce hcalls⟩

end Service

end AnalyzerBridge
