/-
Which result of a request stands, and what the request does to get it.

A request uses those around it in two ways: it tells its listener and it calls
the analyzer.  A watched coordinator is the same coordinator with listeners and
an analyzer that write down each use, a `Contact`, beside the state they keep.

* `mirrors_analyze` — a watched request does what the request does, and writes
  down its contacts;
* `weigh_apply`, `consult_apply` — what the output and the absence of one lead
  to, one lemma for each operation;
* `analyze_contacts` — who is told, what is called, and which result stands, for
  every request that is answered.

Design notes: listeners and analyzers are arbitrary operations, so nothing in
the workspace could count their uses; the watch keeps its own list, which they
cannot reach.
-/
import AnalyzerBridge.Coordinator
import AnalyzerBridge.Proofs.Act
import AnalyzerBridge.Proofs.Transcript

namespace AnalyzerBridge

/-! ### Watching a request -/

/-- A use that a request makes of those around it: it tells a listener, its own or that of the
coordinator, or it calls the analyzer, which answers. -/
inductive Contact where
  | told (own : Bool) (request : Request) (scanned : Outcome)
  | called (call : Call) (token : Token) (answer : Except Failure RawOutput)

variable {ε α β : Type}

/-- The workspace with a list of contacts beside its surroundings. -/
def Workspace.watch (w : Workspace ε) (seen : List Contact) : Workspace (ε × List Contact) where
  session := w.session
  documents := w.documents
  settings := w.settings
  nextNumber := w.nextNumber
  published := w.published
  messages := w.messages
  log := w.log
  surroundings := (w.surroundings, seen)

/-- The workspace without its list of contacts. -/
def Workspace.unwatch (w : Workspace (ε × List Contact)) : Workspace ε where
  session := w.session
  documents := w.documents
  settings := w.settings
  nextNumber := w.nextNumber
  published := w.published
  messages := w.messages
  log := w.log
  surroundings := w.surroundings.1

/-- A listener that also writes down what it is told. -/
def Listener.watched (own : Bool) (listen : Listener ε) : Listener (ε × List Contact) :=
  fun request scanned w =>
    let (r, w') := listen request scanned w.unwatch
    (r, w'.watch (w.surroundings.2 ++ [.told own request scanned]))

/-- An analyzer that also writes down its calls and what it answers. -/
def Invoker.watched (invoke : Invoker ε) : Invoker (ε × List Contact) := fun call token w =>
  let (r, w') := invoke call token w.unwatch
  (r, w'.watch (w.surroundings.2 ++ [.called call token r]))

/-- The coordinator whose analyzer and listener write down how they are used. -/
def Coordinator.watched (c : Coordinator ε) : Coordinator (ε × List Contact) where
  settings := c.settings
  invoke := Invoker.watched c.invoke
  listener := c.listener.map (Listener.watched false)
  depth := c.depth

/-- The watched operation does what the other one does, and writes down the contacts that `seen` gives
for the workspace it starts in. -/
def Mirrors (a : Act (Workspace ε) α) (b : Act (Workspace (ε × List Contact)) α)
    (seen : Workspace ε → List Contact) : Prop :=
  ∀ w before, b (w.watch before) = ((a w).1, (a w).2.watch (before ++ seen w))

/-- The contacts of a sequence: those of its first part, and those of the second if it is reached. -/
def thenSeen (a : Act (Workspace ε) α) (first : Workspace ε → List Contact)
    (second : α → Workspace ε → List Contact) (w : Workspace ε) : List Contact :=
  first w ++
    match a w with
    | (.ok x, w') => second x w'
    | (.error _, _) => []

theorem Mirrors.bind {a : Act (Workspace ε) α} {b : Act (Workspace (ε × List Contact)) α}
    {f : α → Act (Workspace ε) β} {g : α → Act (Workspace (ε × List Contact)) β}
    {first : Workspace ε → List Contact} {second : α → Workspace ε → List Contact}
    (hab : Mirrors a b first) (hfg : ∀ x, Mirrors (f x) (g x) (second x)) :
    Mirrors (a >>= f) (b >>= g) (thenSeen a first second) := by
  intro w before
  rw [Act.bind_apply, Act.bind_apply, hab w before, thenSeen]
  -- the second part starts with the contacts of the first one written down
  rcases a w with ⟨_ | x, w'⟩
  · simp
  · simp only [hfg x w', List.append_assoc]

/-- The watched operation does what the other one does and writes down nothing. -/
def Silent (a : Act (Workspace ε) α) (b : Act (Workspace (ε × List Contact)) α) : Prop :=
  Mirrors a b fun _ => []

theorem Mirrors.bind_silent {a : Act (Workspace ε) α} {b : Act (Workspace (ε × List Contact)) α}
    {f : α → Act (Workspace ε) β} {g : α → Act (Workspace (ε × List Contact)) β}
    {first : Workspace ε → List Contact} (hab : Mirrors a b first)
    (hfg : ∀ x, Silent (f x) (g x)) : Mirrors (a >>= f) (b >>= g) first := by
  intro w before
  have hnone : thenSeen a first (fun _ _ => []) w = first w := by
    rw [thenSeen]
    split <;> simp
  rw [hab.bind hfg w before, hnone]

theorem silent_bind {a : Act (Workspace ε) α} {b : Act (Workspace (ε × List Contact)) α}
    {f : α → Act (Workspace ε) β} {g : α → Act (Workspace (ε × List Contact)) β}
    (hab : Silent a b) (hfg : ∀ x, Silent (f x) (g x)) : Silent (a >>= f) (b >>= g) :=
  Mirrors.bind_silent hab hfg

theorem silent_pure (x : α) : Silent (ε := ε) (pure x) (pure x) := by
  intro w before
  simp

theorem silent_ofExcept (r : Except Failure α) :
    Silent (ε := ε) (Act.ofExcept r) (Act.ofExcept r) := by
  intro w before
  simp

theorem silent_note (records : List LogRecord) :
    Silent (ε := ε) (Workspace.note records) (Workspace.note records) := by
  intro w before
  simp [Workspace.note, Workspace.watch]

theorem silent_onSession (f : Session → Session) :
    Silent (ε := ε) (Workspace.onSession f) (Workspace.onSession f) := by
  intro w before
  simp [Workspace.onSession, Workspace.watch]

namespace Coordinator

variable (c : Coordinator ε) (request : Request) (scanned : Outcome)

theorem silent_leave : Silent (ε := ε) (leave request) (leave request) := by
  rw [leave, leave]
  split
  · exact silent_onSession _
  · exact silent_pure ()

theorem silent_fallBack (reason : Reason) (detail : String) :
    Silent (ε := ε) (fallBack request scanned reason detail)
      (fallBack request scanned reason detail) :=
  silent_bind (silent_note _) fun _ => silent_pure _

theorem silent_weigh (strict : Bool) (depth : Nat) (raw : RawOutput) :
    Silent (ε := ε) (weigh strict request scanned depth raw)
      (weigh strict request scanned depth raw) := by
  refine silent_bind (silent_note _) fun _ => silent_bind (silent_ofExcept _) fun outcome => ?_
  cases outcome.degraded with
  | some reason => exact silent_fallBack request scanned reason _
  | none => exact silent_pure outcome

/-- The contact of telling a listener. -/
def toldOf (own : Bool) (listener : Option (Listener ε)) : List Contact :=
  if listener.isSome ∧ scanned.success = false then [.told own request scanned] else []

theorem mirrors_tell (own : Bool) (listener : Option (Listener ε)) :
    Mirrors (tell listener request scanned) (tell (listener.map (Listener.watched own)) request scanned)
      fun _ => toldOf request scanned own listener := by
  intro w before
  cases listener with
  | none => simp [tell, toldOf]
  | some listen =>
    cases hs : scanned.success with
    | true => simp [tell, toldOf, hs]
    | false =>
      simp [tell, toldOf, hs, Listener.watched]
      rfl

/-- The contact of consulting the analyzer in a workspace. -/
def calledOf (token : Token) (w : Workspace ε) : List Contact :=
  if request.deadlineMs ≤ 0 then []
  else [.called (c.settings.call request) token (c.invoke (c.settings.call request) token w).1]

theorem mirrors_invoke (call : Call) (token : Token) :
    Mirrors (c.invoke call token).attempt (c.watched.invoke call token).attempt
      fun w => [.called call token (c.invoke call token w).1] := by
  intro w before
  rfl

theorem mirrors_consult (token : Token) :
    Mirrors (consult c request token scanned) (consult c.watched request token scanned)
      (calledOf c request token) := by
  intro w before
  rw [consult, consult, calledOf]
  split
  · exact silent_bind (silent_ofExcept _) (fun _ => silent_fallBack request scanned _ _) w before
  · refine (mirrors_invoke c _ token).bind_silent (fun answer => ?_) w before
    -- only an analyzer that cannot be started is handled; other failures pass through on both sides
    rcases answer with f | raw
    · cases f with
      | spawn fault => exact silent_fallBack request scanned _ _
      | _ =>
        intro w before
        simp
    · exact silent_weigh request scanned _ c.depth raw

/-- The contacts of answering a request, told apart by whose listener it is. -/
theorem mirrors_answer (own : Bool) (listener : Option (Listener ε)) (token : Token) :
    Mirrors (c.answer listener request token)
      (c.watched.answer (listener.map (Listener.watched own)) request token)
      (thenSeen (tell listener request (c.settings.scanOutcome request.source))
        (fun _ => toldOf request (c.settings.scanOutcome request.source) own listener)
        fun _ => if c.settings.enabled then calledOf c request token else fun _ => []) := by
  refine (mirrors_tell request _ own listener).bind fun _ => ?_
  -- the watch leaves the settings alone, so both sides take the same branch
  have hsettings : c.watched.settings = c.settings := rfl
  rw [hsettings]
  cases c.settings.enabled with
  | true => exact mirrors_consult c request _ token
  | false => exact silent_pure _

theorem mirrors_ensuring {a : Act (Workspace ε) α} {b : Act (Workspace (ε × List Contact)) α}
    {cleanup : Act (Workspace ε) Unit} {cleanup' : Act (Workspace (ε × List Contact)) Unit}
    {seen : Workspace ε → List Contact} (hab : Mirrors a b seen) (hc : Silent cleanup cleanup') :
    Mirrors (Act.ensuring a cleanup) (Act.ensuring b cleanup') seen := by
  intro w before
  -- the cleanup starts where the first operation ended, with its contacts already written down
  have h := hc (a w).2 (before ++ seen w)
  rw [List.append_nil] at h
  rw [Act.ensuring_apply, Act.ensuring_apply, hab w before, h]
  rcases cleanup (a w).2 with ⟨_ | _, _⟩ <;> rfl

/-- The token and the session that a request enters with. -/
def entry (s : Session) : Token × Session :=
  match request.uri with
  | some uri => s.begin uri request.id
  | none => s.issue

/-- The session that a request leaves behind. -/
def exit (s : Session) : Session :=
  match request.uri with
  | some uri => s.finish uri request.id
  | none => s

theorem enter_apply (w : Workspace ε) :
    enter request w = (.ok (entry request w.session).1,
      { w with session := (entry request w.session).2 }) := by
  unfold enter entry
  cases request.uri with
  | none => rfl
  | some uri => rfl

theorem leave_apply (w : Workspace ε) :
    leave request w = (.ok (), { w with session := exit request w.session }) := by
  rw [leave, exit]
  cases request.uri <;> rfl

/-- Answering goes on between entering and leaving, and decides the result. -/
theorem analyze_apply (listener : Option (Listener ε)) (w : Workspace ε) :
    c.analyze request listener w =
      let r := c.answer (listener <|> c.listener) request (entry request w.session).1
        { w with session := (entry request w.session).2 }
      (r.1, { r.2 with session := exit request r.2.session }) := by
  rw [analyze, Act.run_bind (enter_apply request w), Act.ensuring_apply, leave_apply]

/-- The contacts of a request. -/
def contactsOf (listener : Option (Listener ε)) (w : Workspace ε) : List Contact :=
  thenSeen (tell (listener <|> c.listener) request (c.settings.scanOutcome request.source))
    (fun _ => toldOf request (c.settings.scanOutcome request.source) listener.isSome
      (listener <|> c.listener))
    (fun _ => if c.settings.enabled then calledOf c request (entry request w.session).1 else fun _ => [])
    { w with session := (entry request w.session).2 }

/-- A watched request does what the request does, and writes down its contacts. -/
theorem mirrors_analyze (listener : Option (Listener ε)) :
    Mirrors (c.analyze request listener)
      (c.watched.analyze request (listener.map (Listener.watched true)))
      (contactsOf c request listener) := by
  intro w before
  -- both sides choose the same listener, and the watched one remembers whose it is
  have hchosen : (listener.map (Listener.watched true) <|> c.watched.listener) =
      (listener <|> c.listener).map (Listener.watched listener.isSome) := by
    cases listener <;> rfl
  have hanswer := mirrors_ensuring
    (mirrors_answer c request listener.isSome (listener <|> c.listener) (entry request w.session).1)
    (silent_leave request) { w with session := (entry request w.session).2 } before
  rw [analyze, analyze, Act.run_bind (enter_apply request w),
    Act.run_bind (enter_apply request (w.watch before)), hchosen]
  exact hanswer

/-! ### Which result stands -/

/-- The outcome that stands when the output of the analyzer gives `o`. -/
def settle (o : Outcome) : Outcome :=
  match o.degraded with
  | some reason => scanned.degrade reason (fallbackCaveat reason (o.caveat.getD ""))
  | none => o

/-- The result of a request that the analyzer has answered. -/
def judge (settings : Settings) (depth : Nat) : Except Failure RawOutput → Except Failure Outcome
  | .ok raw => (Transcript.translate settings.strictOutput raw depth).result.map (settle scanned)
  | .error (.spawn fault) =>
    .ok (scanned.degrade .spawnError (fallbackCaveat .spawnError fault.detail))
  | .error f => .error f

theorem fallBack_apply (reason : Reason) (detail : String) (w : Workspace ε) :
    ∃ log, fallBack request scanned reason detail w =
      (.ok (scanned.degrade reason (fallbackCaveat reason detail)), { w with log := log }) :=
  ⟨_, rfl⟩

theorem weigh_apply (strict : Bool) (depth : Nat) (raw : RawOutput) (w : Workspace ε) :
    ∃ log, weigh strict request scanned depth raw w =
      ((Transcript.translate strict raw depth).result.map (settle scanned), { w with log := log }) := by
  -- the records of the reader are written before anything is decided
  rw [weigh, Act.run_bind (Workspace.note_apply w _), Act.bind_apply, Act.ofExcept_apply]
  cases (Transcript.translate strict raw depth).result with
  | error f => exact ⟨_, rfl⟩
  | ok o =>
    cases hd : o.degraded with
    | none =>
      refine ⟨w.log ++ (Transcript.translate strict raw depth).log, ?_⟩
      simp only [hd, Except.map, settle]
      rfl
    | some reason =>
      obtain ⟨log, h⟩ := fallBack_apply request scanned reason (o.caveat.getD "")
        { w with log := w.log ++ (Transcript.translate strict raw depth).log }
      refine ⟨log, ?_⟩
      simp only [hd, Except.map, settle]
      exact h

theorem consult_apply (token : Token) (w : Workspace ε) (hpos : 0 < request.deadlineMs) :
    ∃ log, consult c request token scanned w =
      (judge scanned c.settings c.depth (c.invoke (c.settings.call request) token w).1,
        { (c.invoke (c.settings.call request) token w).2 with log := log }) := by
  rw [consult, if_neg (Int.not_le.mpr hpos), Act.run_bind (Act.attempt_apply _ w)]
  rcases (c.invoke (c.settings.call request) token w).1 with f | raw
  · cases f with
    | spawn fault => exact fallBack_apply request scanned _ _ _
    | _ => exact ⟨_, rfl⟩
  · exact weigh_apply request scanned _ c.depth raw _

/-- The result of a request without time left: the scan stands in, with the deadline in its caveat. -/
def elapsed : Except Failure Outcome :=
  (spellInteger request.deadlineMs).map fun deadline =>
    scanned.degrade .timeout (fallbackCaveat .timeout (elapsedDetail deadline))

theorem consult_of_nonpos (token : Token) (w : Workspace ε) (hpos : request.deadlineMs ≤ 0) :
    ∃ log, consult c request token scanned w = (elapsed request scanned, { w with log := log }) := by
  rw [consult, if_pos hpos, Act.bind_apply, Act.ofExcept_apply, elapsed]
  cases spellInteger request.deadlineMs with
  | error f => exact ⟨w.log, rfl⟩
  | ok deadline => exact fallBack_apply request scanned _ _ w

/-- Without time left, the scan stands in unless the deadline has too many digits. -/
theorem elapsed_cases :
    (¬ Unspellable request.deadlineMs ∧ ∃ detail,
        elapsed request scanned = .ok (scanned.degrade .timeout (fallbackCaveat .timeout detail))) ∨
      (Unspellable request.deadlineMs ∧ elapsed request scanned = .error .integerUnspellable) := by
  rw [elapsed]
  rcases spellInteger_cases request.deadlineMs with ⟨hshort, hspell⟩ | ⟨hlong, hspell⟩
  · exact .inl ⟨hshort, _, by rw [hspell]; rfl⟩
  · exact .inr ⟨hlong, by rw [hspell]; rfl⟩

theorem elapsed_eq {o : Outcome} (h : elapsed request scanned = .ok o) :
    ∃ detail, o = scanned.degrade .timeout (fallbackCaveat .timeout detail) := by
  rcases elapsed_cases request scanned with ⟨_, detail, hdetail⟩ | ⟨_, hfail⟩
  · exact ⟨detail, by simpa [hdetail] using h.symm⟩
  · rw [hfail] at h
    exact absurd h (by simp)

/-- Once everybody has been told, the analyzer decides if it is enabled, and the scan otherwise. -/
theorem answer_of_tell {listener : Option (Listener ε)} {w w' : Workspace ε}
    (h : tell listener request (c.settings.scanOutcome request.source) w = (.ok (), w'))
    (token : Token) :
    c.answer listener request token w =
      if c.settings.enabled then
        consult c request token (c.settings.scanOutcome request.source) w'
      else (.ok (c.settings.scanOutcome request.source), w') := by
  rw [answer, Act.run_bind h]
  cases c.settings.enabled <;> rfl

theorem answer_of_tell_error {listener : Option (Listener ε)} {w w' : Workspace ε} {f : Failure}
    (h : tell listener request (c.settings.scanOutcome request.source) w = (.error f, w'))
    (token : Token) : c.answer listener request token w = (.error f, w') := by
  rw [answer, Act.fail_bind h]

/-- A request in time ends as the answer of the analyzer calls for. -/
theorem analyze_of_tell (listener : Option (Listener ε)) {w w' : Workspace ε}
    (h : tell (listener <|> c.listener) request (c.settings.scanOutcome request.source)
      { w with session := (entry request w.session).2 } = (.ok (), w'))
    (henabled : c.settings.enabled = true) (hpos : 0 < request.deadlineMs) :
    let called := c.invoke (c.settings.call request) (entry request w.session).1 w'
    ∃ log, c.analyze request listener w =
      (judge (c.settings.scanOutcome request.source) c.settings c.depth called.1,
        { called.2 with log := log, session := exit request called.2.session }) := by
  obtain ⟨log, hconsult⟩ := consult_apply c request (c.settings.scanOutcome request.source)
    (entry request w.session).1 w' hpos
  refine ⟨log, ?_⟩
  rw [analyze_apply, answer_of_tell c request h, if_pos henabled, hconsult]

/-- A listener is told of findings only, so nothing else happens if the scan finds none. -/
theorem analyze_of_success (listener : Option (Listener ε)) (w : Workspace ε)
    (hquiet : (c.settings.scanOutcome request.source).success = true)
    (henabled : c.settings.enabled = true) (hpos : 0 < request.deadlineMs) :
    let called := c.invoke (c.settings.call request) (entry request w.session).1
      { w with session := (entry request w.session).2 }
    ∃ log, c.analyze request listener w =
      (judge (c.settings.scanOutcome request.source) c.settings c.depth called.1,
        { called.2 with log := log, session := exit request called.2.session }) := by
  refine analyze_of_tell c request listener ?_ henabled hpos
  cases listener <|> c.listener with
  | none => rfl
  | some listen => rw [tell, if_pos hquiet, Act.pure_apply]

/-- The workspace after the analyzer has been called, if it is called. -/
def meanwhile (token : Token) (w : Workspace ε) : Workspace ε :=
  if c.settings.enabled = true ∧ 0 < request.deadlineMs then
    (c.invoke (c.settings.call request) token w).2
  else w

/-- Once everybody has been told, only the analyzer and the log change the workspace. -/
theorem answer_after {listener : Option (Listener ε)} {w w' : Workspace ε}
    (h : tell listener request (c.settings.scanOutcome request.source) w = (.ok (), w'))
    (token : Token) :
    ∃ result log, c.answer listener request token w =
      (result, { c.meanwhile request token w' with log := log }) := by
  rw [answer_of_tell c request h, meanwhile]
  cases henabled : c.settings.enabled with
  | false => exact ⟨_, _, rfl⟩
  | true =>
    simp only [if_true, true_and]
    by_cases hpos : 0 < request.deadlineMs
    · rw [if_pos hpos]
      obtain ⟨log, hconsult⟩ := consult_apply c request
        (c.settings.scanOutcome request.source) token w' hpos
      exact ⟨_, log, hconsult⟩
    · rw [if_neg hpos]
      obtain ⟨log, hconsult⟩ := consult_of_nonpos c request
        (c.settings.scanOutcome request.source) token w' (Int.not_lt.mp hpos)
      exact ⟨_, log, hconsult⟩

theorem scanOutcome_success (settings : Settings) (source : String) :
    (settings.scanOutcome source).success = (settings.scanOutcome source).errors.isEmpty := by
  rw [Settings.scanOutcome]
  split <;> rfl

/-- The outcome of the scan stands in for that of the analyzer, with the reason and a caveat that names
it. -/
structure FallsBack (reason : Reason) (o : Outcome) : Prop where
  success : o.success = scanned.success
  errors : o.errors = scanned.errors
  source : o.source = scanned.source
  degraded : o.degraded = some reason
  caveat : ∃ detail, o.caveat = some ("analyzer unavailable (" ++ reason.name ++ "): " ++ detail)

/-- Which outcome stands once the analyzer has answered: that of the scan for each reason why the
analyzer did not complete, and otherwise the one read from its output. -/
inductive Verdict (settings : Settings) (depth : Nat) : Except Failure RawOutput → Outcome → Prop where
  | notStarted (fault : SpawnFault) {o : Outcome} (h : FallsBack scanned .spawnError o) :
      Verdict settings depth (.error (.spawn fault)) o
  | timedOut {raw : RawOutput} {o : Outcome} (ht : raw.timedOut = true)
      (h : FallsBack scanned .timeout o) : Verdict settings depth (.ok raw) o
  | cancelled {raw : RawOutput} {o : Outcome} (ht : raw.timedOut = false)
      (hc : raw.cancelled = true) (h : FallsBack scanned .cancelled o) : Verdict settings depth (.ok raw) o
  | malformed {raw : RawOutput} {o : Outcome} (ht : raw.timedOut = false)
      (hc : raw.cancelled = false) (hs : settings.strictOutput = true) (hx : raw.exitCode = some 0)
      (hp : ∀ p, Transcript.payloadOf raw.stdout depth ≠ .ok (some p))
      (h : FallsBack scanned .malformedOutput o) : Verdict settings depth (.ok raw) o
  | completed {raw : RawOutput} {o : Outcome} (ht : raw.timedOut = false)
      (hc : raw.cancelled = false)
      (hs : ¬ (settings.strictOutput = true ∧ raw.exitCode = some 0 ∧
        ∀ p, Transcript.payloadOf raw.stdout depth ≠ .ok (some p)))
      (h : (Transcript.translate settings.strictOutput raw depth).result = .ok o)
      (hsource : o.source = .analyzer) (hdegraded : o.degraded = none) : Verdict settings depth (.ok raw) o

theorem fallsBack_degrade (reason : Reason) (detail : String) :
    FallsBack scanned reason (scanned.degrade reason (fallbackCaveat reason detail)) :=
  ⟨rfl, rfl, rfl, rfl, detail, rfl⟩

theorem no_payload_ne {depth : Nat} {stdout : List UInt8} (h : Transcript.NoPayload depth stdout)
    (p : Schema.Payload) : Transcript.payloadOf stdout depth ≠ .ok (some p) := by
  rcases h with h | ⟨n, h⟩ <;> simp [h]

/-- The result of a request whose analyzer has answered follows the rules. -/
theorem verdict_of_judge {settings : Settings} {depth : Nat} {answer : Except Failure RawOutput}
    {o : Outcome} (h : judge scanned settings depth answer = .ok o) :
    Verdict scanned settings depth answer o := by
  rcases answer with f | raw
  · cases f with
    | spawn fault =>
      obtain rfl := by simpa [judge] using h
      exact .notStarted fault (fallsBack_degrade scanned _ _)
    | _ => simp [judge] at h
  · rw [judge] at h
    cases hread : (Transcript.translate settings.strictOutput raw depth).result with
    | error f => simp [hread, Except.map] at h
    | ok given =>
      obtain rfl := by simpa [hread, Except.map] using h
      cases Transcript.reads_of_translate hread with
      | timedOut ht => exact .timedOut ht (fallsBack_degrade scanned _ _)
      | cancelled ht hc => exact .cancelled ht hc (fallsBack_degrade scanned _ _)
      | payload ht hc hx hp => exact .completed ht hc (fun hno => hno.2.2 _ hp) hread rfl rfl
      | noPayload ht hc hx hp =>
        -- output without a payload is a caveat or a fallback, and strictness decides which
        cases hs : settings.strictOutput with
        | true => exact .malformed ht hc hs hx (no_payload_ne hp) (fallsBack_degrade scanned _ _)
        | false =>
          refine .completed ht hc (fun hno => ?_) ?_ rfl rfl
          · rw [hs] at hno
            exact absurd hno.1 (by simp)
          · rw [hs] at hread
            rw [hs]
            exact hread
      | findings ht hc hx hf => exact .completed ht hc (fun hno => hx hno.2.1) hread rfl rfl

/-- A request that is answered has told a listener, if there is one and the scan found anything, and then
called the analyzer, if that is enabled and there is time left; nothing else, and nothing twice.  Its
outcome is the one that the answer calls for. -/
theorem analyze_contacts {listener : Option (Listener ε)} {w w' : Workspace ε} {o : Outcome}
    (h : c.analyze request listener w = (.ok o, w')) :
    ∃ told called : List Contact,
      c.watched.analyze request (listener.map (Listener.watched true)) (w.watch []) =
        (.ok o, w'.watch (told ++ called)) ∧
      told = (if (listener <|> c.listener).isSome = true ∧
          (c.settings.scanOutcome request.source).errors ≠ [] then
        [.told listener.isSome request (c.settings.scanOutcome request.source)] else []) ∧
      (if c.settings.enabled = true ∧ 0 < request.deadlineMs then
        ∃ token answer,
          called = [.called ⟨c.settings.command, c.settings.args ++ [request.source],
            request.deadlineMs⟩ token answer] ∧
          Verdict (c.settings.scanOutcome request.source) c.settings c.depth answer o
      else
        called = [] ∧
          if c.settings.enabled = true then
            FallsBack (c.settings.scanOutcome request.source) .timeout o
          else o = c.settings.scanOutcome request.source) := by
  -- the contacts come from the watched run, the verdict from the run itself
  have hmirror := mirrors_analyze c request listener w []
  rw [h, List.nil_append, contactsOf, thenSeen] at hmirror
  rw [analyze_apply] at h
  obtain ⟨hresult, -⟩ := Prod.mk.inj h
  cases htell : tell (listener <|> c.listener) request (c.settings.scanOutcome request.source)
      { w with session := (entry request w.session).2 } with
  | mk r w₁ =>
    cases r with
    | error f =>
      -- a listener that fails leaves no outcome
      rw [answer_of_tell_error c request htell] at hresult
      exact absurd hresult (by simp)
    | ok _ =>
      rw [htell] at hmirror
      rw [answer_of_tell c request htell] at hresult
      refine ⟨_, _, hmirror, ?_, ?_⟩
      · rw [toldOf, scanOutcome_success]
        simp
      · cases henabled : c.settings.enabled with
        | false =>
          simp only [henabled, Bool.false_eq_true, if_false] at hresult
          simpa using hresult.symm
        | true =>
          simp only [henabled, if_true] at hresult
          by_cases hpos : 0 < request.deadlineMs
          · obtain ⟨log, hconsult⟩ := consult_apply c request
              (c.settings.scanOutcome request.source) (entry request w.session).1 w₁ hpos
            rw [hconsult] at hresult
            simp only [hpos, and_self, if_true, calledOf, if_neg (Int.not_le.mpr hpos)]
            exact ⟨_, _, rfl, verdict_of_judge _ hresult⟩
          · obtain ⟨log, hconsult⟩ := consult_of_nonpos c request
              (c.settings.scanOutcome request.source) (entry request w.session).1 w₁
              (Int.not_lt.mp hpos)
            simp only [hconsult] at hresult
            obtain ⟨detail, rfl⟩ := elapsed_eq request _ hresult
            simp only [hpos, and_false, if_false, if_true, calledOf, if_pos (Int.not_lt.mp hpos)]
            exact ⟨trivial, fallsBack_degrade _ _ _⟩

/-- A coordinator whose analyzer leaves the same output behind, whatever it is called with. -/
def answering (raw : RawOutput) (depth : Nat := Json.runDepth) : Coordinator Unit where
  settings := {}
  invoke := fun _ _ => pure raw
  listener := some fun _ _ => pure ()
  depth := depth

/-- The request to analyze a bracket too many. -/
def strayBracket : Request where
  source := "]"
  id := "r"
  deadlineMs := 1
  uri := some "u"

/-- A listener is told of a bracket too many, and an analyzer is called that somebody cancels. -/
theorem analyze_contacts_cancelled :
    ∃ (told called : List Contact) (o : Outcome) (w : Workspace Unit),
      (answering { exitCode := some 0, cancelled := true }).watched.analyze strayBracket none
          (Workspace.watch { surroundings := () } []) = (.ok o, w.watch (told ++ called)) ∧
        told.length = 1 ∧ called.length = 1 ∧ o.degraded = some .cancelled := by
  obtain ⟨o, w, h, hcancelled⟩ : ∃ o w,
      (answering { exitCode := some 0, cancelled := true }).analyze strayBracket none
          { surroundings := () } = (.ok o, w) ∧ o.degraded = some .cancelled := by
    obtain ⟨log, h⟩ := analyze_of_tell (answering { exitCode := some 0, cancelled := true })
      strayBracket none (w := { surroundings := () }) rfl rfl (by decide)
    exact ⟨_, _, h, rfl⟩
  obtain ⟨told, called, hwatched, htold, hcalled⟩ := analyze_contacts _ _ h
  refine ⟨told, called, o, w, hwatched, ?_, ?_, hcancelled⟩
  · rw [htold]
    decide
  · rw [if_pos (by decide)] at hcalled
    obtain ⟨token, answer, rfl, _⟩ := hcalled
    rfl

end Coordinator

end AnalyzerBridge
