/-
Why the checks of a supervised run never fail.

A run of the analyzer asks for a command and a positive time (`allowance`), and no
part of the program calls it without.

* `spelled_ne_empty` — a value that counts as given is not spelled as nothing;
* `Resolved.command_ne_empty`, `Resolved.timeoutMs_pos` — so settings have a command
  and a positive time, whatever the layers hold that they come from;
* `analyze_guarded` — a coordinator with such settings calls the analyzer only in a way
  that the checks accept;
* `checks_unreachable` — and so do the three ways into the program.

Design notes: a guarded analyzer hands a call that the checks reject to an alarm.  That
the alarm may be anything at all, and nothing changes, says that it never rings.
-/
import AnalyzerBridge.CommandLine.Basic
import AnalyzerBridge.Proofs.JsonAtom
import AnalyzerBridge.Proofs.Service
import AnalyzerBridge.Proofs.Supervision

namespace AnalyzerBridge

variable {ε : Type}

/-! ### Values that are given -/

namespace Value

theorem decimalText_ne_nil (digits : List Char) (k : Int) : Number.decimalText digits k ≠ [] := by
  rw [Number.decimalText]
  simp only []
  split
  · split
    · simp
    · split <;> simp
  · simp

theorem text_ne_empty (x : Binary64) : x.text ≠ "" := by
  cases x with
  | nan => exact (by decide : "nan" ≠ "")
  | infinite negative => cases negative <;> decide
  | finite negative m e =>
    rw [Binary64.text]
    intro h
    have hlist := congrArg String.toList h
    rw [String.toList_ofList] at hlist
    cases negative with
    | true => exact absurd hlist (by simp)
    | false =>
      rw [if_neg (by simp)] at hlist
      split at hlist
      · exact absurd hlist (by simp)
      · exact decimalText_ne_nil _ _ hlist

theorem append_ne_empty {s t : String} (h : s ≠ "") : s ++ t ≠ "" :=
  fun hnil => h (String.append_eq_empty_iff.mp hnil).1

theorem quotedLoose_ne_empty (t : LooseText) : Text.quotedLoose t ≠ "" := by
  rw [Text.quotedLoose]
  exact append_ne_empty (append_ne_empty (by simp))

theorem literal_ne_empty (v : Value) : v.literal ≠ "" := by
  cases v with
  | null => simp [literal]
  | bool b => cases b <;> simp [literal]
  | int i =>
    obtain ⟨c, more, hcons, -⟩ := Json.toString_cons i
    rw [literal]
    intro h
    rw [h] at hcons
    exact absurd hcons (by simp)
  | float x =>
    rw [literal]
    exact text_ne_empty x
  | text s =>
    rw [literal]
    exact quotedLoose_ne_empty _
  | loose t =>
    rw [literal]
    exact quotedLoose_ne_empty t
  | date d =>
    rw [literal]
    exact append_ne_empty (append_ne_empty (by decide))
  | time t =>
    rw [literal]
    exact append_ne_empty (append_ne_empty (by decide))
  | datetime dt =>
    rw [literal]
    exact append_ne_empty (append_ne_empty (append_ne_empty (by decide)))
  | list items =>
    rw [literal]
    exact append_ne_empty (append_ne_empty (by decide))
  | table fields =>
    rw [literal]
    exact append_ne_empty (append_ne_empty (by decide))

theorem dateText_ne_empty (d : Date) : d.text ≠ "" := by
  have hyear : padded 4 d.year ++ "-" ≠ "" := fun h =>
    absurd (String.append_eq_empty_iff.mp h).2 (by decide)
  exact append_ne_empty (append_ne_empty (append_ne_empty hyear))

/-- A value that counts as given is not spelled as nothing. -/
theorem spelled_ne_empty {v : Value} (h : v.isGiven = true) : v.spelled ≠ "" := by
  cases v with
  | text s => exact bne_iff_ne.mp h
  | loose t =>
    have ht : t ≠ [] := fun hnil => absurd h (by simp [hnil, isGiven])
    rw [spelled, LooseText.replaced]
    intro hempty
    exact ht (List.map_eq_nil_iff.mp (String.ofList_eq_empty_iff.mp hempty))
  | date d => exact dateText_ne_empty d
  | time t =>
    have hhour : padded 2 t.hour ++ ":" ≠ "" := fun h =>
      absurd (String.append_eq_empty_iff.mp h).2 (by decide)
    exact append_ne_empty (append_ne_empty (append_ne_empty (append_ne_empty hhour)))
  | datetime dt => exact append_ne_empty (append_ne_empty (append_ne_empty (dateText_ne_empty _)))
  | _ => exact literal_ne_empty _

end Value

/-! ### Settings -/

namespace Settings

theorem pos_of_asTimeout {source : String} {v : Value} {millis : Int}
    (h : asTimeout source v = .ok millis) : 1 ≤ millis := by
  rw [asTimeout] at h
  split at h
  · split at h
    · exact absurd h (by simp)
    next given hread hpos =>
      obtain rfl := Except.ok.inj h
      omega
  · exact absurd h (by simp)

theorem pos_of_timeoutOf {v : Value} {millis : Int} (h : timeoutOf v = .ok millis) : 1 ≤ millis := by
  rw [timeoutOf] at h
  split at h
  · obtain rfl := Except.ok.inj h
    decide
  · exact pos_of_asTimeout h

/-- Merged layers that give settings give a command and a time, or leave them to what is built in. -/
theorem ofLayers_eq_ok {root : Option PurePath} {merged heuristics : Table} {settings : Settings}
    (h : ofLayers root merged heuristics = .ok settings) :
    (∃ v : Value, settings.command = if v.isGiven then v.spelled else ({} : Settings).command) ∧
      ∃ v, timeoutOf v = .ok settings.timeoutMs := by
  simp only [ofLayers, bind, Except.bind] at h
  split at h
  · exact absurd h (by simp)
  split at h
  · exact absurd h (by simp)
  split at h
  · exact absurd h (by simp)
  next millis htimeout =>
    split at h
    · exact absurd h (by simp)
    obtain rfl := Except.ok.inj h
    exact ⟨⟨_, rfl⟩, _, htimeout⟩

/-- Settings that the layers give, whatever these hold. -/
def Resolved (settings : Settings) : Prop :=
  ∃ files root file env overrides room, resolve files root file env overrides room = .ok settings

theorem Resolved.ofLayers {settings : Settings} (h : settings.Resolved) :
    ∃ root merged heuristics, Settings.ofLayers root merged heuristics = .ok settings := by
  obtain ⟨files, root, file, env, overrides, room, h⟩ := h
  rw [resolve] at h
  split at h
  · exact absurd h (by simp)
  · split at h
    · exact absurd h (by simp)
    · exact ⟨_, _, _, h⟩

theorem Resolved.command_ne_empty {settings : Settings} (h : settings.Resolved) :
    settings.command ≠ "" := by
  obtain ⟨root, merged, heuristics, hlayers⟩ := h.ofLayers
  obtain ⟨⟨v, hcommand⟩, -⟩ := ofLayers_eq_ok hlayers
  rw [hcommand]
  split
  next hgiven => exact Value.spelled_ne_empty hgiven
  next => decide

theorem Resolved.timeoutMs_pos {settings : Settings} (h : settings.Resolved) :
    1 ≤ settings.timeoutMs := by
  obtain ⟨root, merged, heuristics, hlayers⟩ := h.ofLayers
  obtain ⟨-, v, htimeout⟩ := ofLayers_eq_ok hlayers
  exact pos_of_timeoutOf htimeout

end Settings

/-! ### Guarded analyzers -/

/-- The analyzer behind the checks of a supervised run: a call that they reject goes to an alarm. -/
def Invoker.guarded (invoke alarm : Invoker ε) : Invoker ε := fun call token =>
  match Supervision.allowance call.command (.int call.timeoutMs) with
  | .ok _ => invoke call token
  | .error _ => alarm call token

variable {invoke alarm : Invoker ε} {settings : Settings}

/-- A call with a command and a positive time gets past the checks. -/
theorem guarded_of_pos {call : Call} (hcommand : call.command ≠ "") (hpos : 0 < call.timeoutMs) :
    invoke.guarded alarm call = invoke call := by
  funext token
  rw [Invoker.guarded, Supervision.allowance_of_pos hcommand hpos]

namespace Coordinator

/-- The analyzer is not called once the time of a request has run out, and with the command of the
settings otherwise. -/
theorem consult_guarded (hcommand : settings.command ≠ "") (own : Option (Listener ε)) (depth : Nat)
    (request : Request) (token : Token) (scanned : Outcome) :
    consult ⟨settings, invoke.guarded alarm, own, depth⟩ request token scanned =
      consult ⟨settings, invoke, own, depth⟩ request token scanned := by
  rw [consult, consult]
  by_cases hpos : request.deadlineMs ≤ 0
  · rw [if_pos hpos, if_pos hpos]
  · have hcall : invoke.guarded alarm (settings.call request) = invoke (settings.call request) :=
      guarded_of_pos hcommand (Int.not_le.mp hpos)
    rw [if_neg hpos, if_neg hpos]
    simp only [hcall]

/-- A coordinator whose settings have a command never rings the alarm. -/
theorem analyze_guarded (hcommand : settings.command ≠ "") (own : Option (Listener ε)) (depth : Nat)
    (request : Request) (listener : Option (Listener ε)) :
    (⟨settings, invoke.guarded alarm, own, depth⟩ : Coordinator ε).analyze request listener =
      (⟨settings, invoke, own, depth⟩ : Coordinator ε).analyze request listener := by
  have hanswer : ∀ listener token,
      (⟨settings, invoke.guarded alarm, own, depth⟩ : Coordinator ε).answer listener request token =
        (⟨settings, invoke, own, depth⟩ : Coordinator ε).answer listener request token := by
    intro listener token
    rw [answer, answer]
    simp only [consult_guarded hcommand]
  rw [analyze, analyze]
  simp only [hanswer]

end Coordinator

theorem CommandLine.analyze_guarded (files : Files) (env : Settings.Environment) (room : Toml.Room)
    (depth : Nat) (source : String) (root : Option PurePath) (timeout : Value)
    (heuristicsOnly strict : Bool) :
    CommandLine.analyze ⟨files, env, invoke.guarded alarm, room, depth⟩ source root timeout
        heuristicsOnly strict =
      CommandLine.analyze ⟨files, env, invoke, room, depth⟩ source root timeout heuristicsOnly strict := by
  funext w
  rw [CommandLine.analyze, CommandLine.analyze]
  cases hresolve : Settings.resolve files root none env
      (CommandLine.overrides timeout heuristicsOnly strict) room with
  | error fault => rfl
  | ok settings =>
    have hresolved : settings.Resolved := ⟨files, root, none, env, _, room, hresolve⟩
    have hfirst : (Act.ofExcept (.ok settings) : Act (Workspace ε) Settings) w = (.ok settings, w) := rfl
    rw [Act.run_bind hfirst, Act.run_bind hfirst]
    exact congrFun (Coordinator.analyze_guarded hresolved.command_ne_empty none depth _ none) w

namespace Service

variable {files : Files} {root : Option PurePath} {env : Settings.Environment} {room : Toml.Room}
  {depth : Nat}

/-- Whatever a service does with its coordinator, it does with settings that come out of the layers. -/
theorem coordinator_bind_guarded {α : Type} {f : Coordinator ε → Act (Workspace ε) α}
    (hf : ∀ settings, settings.Resolved →
      f ⟨settings, invoke.guarded alarm, none, depth⟩ = f ⟨settings, invoke, none, depth⟩) {w : Workspace ε}
    (hloaded : ∀ settings, w.settings = some settings → settings.Resolved) :
    ((⟨files, root, env, invoke.guarded alarm, room, depth⟩ : Service ε).coordinator >>= f) w =
      ((⟨files, root, env, invoke, room, depth⟩ : Service ε).coordinator >>= f) w := by
  cases hsettings : w.settings with
  | some settings =>
    rw [Act.run_bind (coordinator_of_loaded hsettings), Act.run_bind (coordinator_of_loaded hsettings),
      hf settings (hloaded settings hsettings)]
  | none =>
    cases hresolve : Settings.resolve files root none env [] room with
    | error fault =>
      rw [Act.fail_bind (coordinator_of_refusal hsettings hresolve),
        Act.fail_bind (coordinator_of_refusal hsettings hresolve)]
    | ok settings =>
      rw [Act.run_bind (coordinator_of_resolve hsettings hresolve),
        Act.run_bind (coordinator_of_resolve hsettings hresolve),
        hf settings ⟨files, root, none, env, [], room, hresolve⟩]

theorem validate_guarded {w : Workspace ε}
    (hloaded : ∀ settings, w.settings = some settings → settings.Resolved) (uri : String) :
    (⟨files, root, env, invoke.guarded alarm, room, depth⟩ : Service ε).validate uri w =
      (⟨files, root, env, invoke, room, depth⟩ : Service ε).validate uri w := by
  simp only [validate, Act.run_bind (Act.look_apply _ w),
    Act.run_bind (Workspace.nextRequestId_apply w uri)]
  refine coordinator_bind_guarded (fun settings hresolved => ?_) hloaded
  simp only [Coordinator.analyze_guarded hresolved.command_ne_empty]

theorem execute_guarded {w : Workspace ε}
    (hloaded : ∀ settings, w.settings = some settings → settings.Resolved) (payload : Value) :
    (⟨files, root, env, invoke.guarded alarm, room, depth⟩ : Service ε).execute payload w =
      (⟨files, root, env, invoke, room, depth⟩ : Service ε).execute payload w := by
  rw [execute, execute, Act.bind_apply, Act.bind_apply]
  cases requirePayload payload with
  | error fault => rfl
  | ok t =>
    simp only [Act.ofExcept_apply]
    cases Schema.readCommand (.table t) with
    | error problems => rfl
    | ok command =>
      refine coordinator_bind_guarded (fun settings hresolved => ?_) hloaded
      simp only [Coordinator.analyze_guarded hresolved.command_ne_empty]

end Service

/-! ### All ways into the program -/

/-- Settings have a command and a positive time, whatever the layers hold that they come from; and the
analyzer is called only in a way that its checks accept: what happens to a call that they reject makes no
difference to any request, whether it is made directly, from the command line, for a document, or by the
analyze command. -/
theorem checks_unreachable (invoke alarm : Invoker ε) :
    (∀ settings : Settings, settings.Resolved → settings.command ≠ "" ∧ 1 ≤ settings.timeoutMs ∧
      ∀ own depth request listener,
        (⟨settings, invoke.guarded alarm, own, depth⟩ : Coordinator ε).analyze request listener =
          (⟨settings, invoke, own, depth⟩ : Coordinator ε).analyze request listener) ∧
    (∀ files env room depth source root timeout heuristicsOnly strict,
      CommandLine.analyze ⟨files, env, invoke.guarded alarm, room, depth⟩ source root timeout
          heuristicsOnly strict =
        CommandLine.analyze ⟨files, env, invoke, room, depth⟩ source root timeout heuristicsOnly strict) ∧
    ∀ files root env room depth (w : Workspace ε),
      (∀ settings, w.settings = some settings → settings.Resolved) →
        (∀ uri, (⟨files, root, env, invoke.guarded alarm, room, depth⟩ : Service ε).validate uri w =
          (⟨files, root, env, invoke, room, depth⟩ : Service ε).validate uri w) ∧
        ∀ payload, (⟨files, root, env, invoke.guarded alarm, room, depth⟩ : Service ε).execute payload w =
          (⟨files, root, env, invoke, room, depth⟩ : Service ε).execute payload w := by
  refine ⟨fun settings hresolved => ?_, fun files env room depth => ?_,
    fun files root env room depth w hloaded => ?_⟩
  · exact ⟨hresolved.command_ne_empty, hresolved.timeoutMs_pos,
      Coordinator.analyze_guarded hresolved.command_ne_empty⟩
  · exact CommandLine.analyze_guarded files env room depth
  · exact ⟨Service.validate_guarded hloaded, Service.execute_guarded hloaded⟩

/-- Overrides that name no command and give the time as a text. -/
def scantOverrides : Table :=
  [("command", .list []), ("timeout_ms", .text " 1 ")]

/-- The alarm is silent under settings from scant overrides, for a request, a refresh and a command. -/
theorem checks_unreachable_scant :
    let invoke := (Coordinator.answering { exitCode := some 1 }).invoke
    let alarm : Invoker Unit := fun _ _ => throw .unending
    let w : Workspace Unit := { surroundings := () }
    ∃ settings : Settings, settings.Resolved ∧ settings.command = "java" ∧ settings.timeoutMs = 1 ∧
      (⟨settings, invoke.guarded alarm, none, Json.runDepth⟩ : Coordinator Unit).analyze
          Coordinator.strayBracket none =
        (⟨settings, invoke, none, Json.runDepth⟩ : Coordinator Unit).analyze
          Coordinator.strayBracket none ∧
      (∀ settings, w.settings = some settings → settings.Resolved) ∧
      ({ invoke := invoke.guarded alarm } : Service Unit).validate "u" w =
        ({ invoke := invoke } : Service Unit).validate "u" w ∧
      ({ invoke := invoke.guarded alarm } : Service Unit).execute (.table [("source", .text "]")]) w =
        ({ invoke := invoke } : Service Unit).execute (.table [("source", .text "]")]) w := by
  intro invoke alarm w
  obtain ⟨settings, hresolve, hcommand, htimeout⟩ : ∃ settings,
      Settings.resolve (fun _ => .missing) none none {} scantOverrides = .ok settings ∧
        settings.command = "java" ∧ settings.timeoutMs = 1 := ⟨_, rfl, rfl, rfl⟩
  have hresolved : settings.Resolved := ⟨_, _, _, _, _, _, hresolve⟩
  have hloaded : ∀ settings, w.settings = some settings → settings.Resolved :=
    fun settings h => absurd h (by simp [w])
  obtain ⟨hsettings, -, hservice⟩ := checks_unreachable invoke alarm
  obtain ⟨hvalidate, hexecute⟩ := hservice (fun _ => .missing) none {} Toml.runRoom Json.runDepth w hloaded
  obtain ⟨-, -, hanalyze⟩ := hsettings settings hresolved
  exact ⟨settings, hresolved, hcommand, htimeout, hanalyze none Json.runDepth _ none, hloaded,
    hvalidate "u", hexecute _⟩

end AnalyzerBridge
