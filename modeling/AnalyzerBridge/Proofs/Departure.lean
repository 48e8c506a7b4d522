/-
What a request takes with it when it is over.

Whoever listens to a request, and the analyzer, may work on the session while the request is
answered.  When it is over, for whatever reason, the request removes its own entry and nothing
else.

* `lookup_run_of_unclaimed` — the entry of a document that nobody claims stays until its
  request is finished;
* `isCurrent_run_congr`, `running_run_congr` — sessions that agree about a document agree
  about it after the same operations;
* `answer_session` — while a request is answered, the session goes through what the listener
  does, and then through what the analyzer does if it is called;
* `analyze_departs` — hence what is left after the request.

Design notes: `Performs` says which operations on the session an operation on the workspace
comes down to; how it ends, and what else it does, is left open.
-/
import AnalyzerBridge.Proofs.Coordinator
import AnalyzerBridge.Proofs.Session

namespace AnalyzerBridge

/-! ### Sessions -/

namespace Session

variable {s s' : Session} {uri : String} {history : List Step}

/-- The entry of a document that is claimed no more is there until its request is finished. -/
theorem lookup_run_of_unclaimed (h : ∀ x ∈ history, x.claims uri = false) (id : String) (t : Token) :
    (s.run history).inFlight.lookup uri = some ⟨id, t⟩ ↔
      .finish uri id ∉ history ∧ s.inFlight.lookup uri = some ⟨id, t⟩ := by
  induction history using List.reverseRecOn with
  | nil => simp
  | append_singleton history x ih =>
    obtain ⟨hhistory, hx⟩ := List.forall_mem_append.mp h
    have hclaim : x.claims uri = false := hx x (List.mem_singleton_self x)
    have hbegin : ¬ (x = .begin uri id ∧ t = (s.run history).issued) := by
      rintro ⟨rfl, -⟩
      exact absurd hclaim (by simp [Step.claims])
    rw [run_snoc, lookup_step, or_iff_right hbegin, ih hhistory, Step.spares, List.mem_append,
      List.mem_singleton, not_or, eq_comm (a := Step.finish uri id)]
    tauto

theorem isCurrent_run_congr (h : ∀ id, s.isCurrent uri id = s'.isCurrent uri id)
    (history : List Step) (id : String) :
    (s.run history).isCurrent uri id = (s'.run history).isCurrent uri id := by
  rw [Bool.eq_iff_iff, isCurrent_run_from, isCurrent_run_from, h]

theorem running_run_congr (h : s.running uri = s'.running uri) (history : List Step) :
    (s.run history).running uri = (s'.run history).running uri := by
  refine Option.ext fun id => ?_
  rw [running_run_from, running_run_from, h]

end Session

namespace Coordinator

variable {ε α : Type} (c : Coordinator ε) (request : Request)

/-! ### While a request is answered -/

/-- An operation on the workspace comes down to some operations on the session, however it ends. -/
def Performs (a : Act (Workspace ε) α) (steps : Workspace ε → List Session.Step) : Prop :=
  ∀ w, (a w).2.session = w.session.run (steps w)

/-- What a listener does to the session, if it is told of anything. -/
def told (listener : Option (Listener ε)) (heard : Workspace ε → List Session.Step)
    (w : Workspace ε) : List Session.Step :=
  if listener.isSome ∧ (c.settings.scanOutcome request.source).success = false then heard w else []

/-- What is done to the session while a request is answered: by a listener, if it is told of anything, and
then by the analyzer, if the listener has not failed and the analyzer is called. -/
def interlude (listener : Option (Listener ε)) (heard called : Workspace ε → List Session.Step)
    (w : Workspace ε) : List Session.Step :=
  match tell listener request (c.settings.scanOutcome request.source) w with
  | (.ok _, w₁) => c.told request listener heard w ++
      if c.settings.enabled = true ∧ 0 < request.deadlineMs then called w₁ else []
  | (.error _, _) => c.told request listener heard w

variable {c request} {heard called : Workspace ε → List Session.Step}
  {listener own : Option (Listener ε)}

theorem performs_tell
    (hlisten : ∀ listen, listener = some listen →
      Performs (listen request (c.settings.scanOutcome request.source)) heard) :
    Performs (tell listener request (c.settings.scanOutcome request.source))
      (c.told request listener heard) := by
  intro w
  cases listener with
  | none => rfl
  | some listen =>
    rw [tell, told]
    cases (c.settings.scanOutcome request.source).success with
    | true => rfl
    | false => exact hlisten listen rfl w

/-- While a request is answered, the session goes through what the listener does, and then through what the
analyzer does if it is called. -/
theorem answer_session {token : Token}
    (hlisten : ∀ listen, listener = some listen →
      Performs (listen request (c.settings.scanOutcome request.source)) heard)
    (hinvoke : Performs (c.invoke (c.settings.call request) token) called) :
    Performs (c.answer listener request token) (c.interlude request listener heard called) := by
  intro w
  have hsession := performs_tell hlisten w
  rw [interlude]
  cases htell : tell listener request (c.settings.scanOutcome request.source) w with
  | mk result w₁ =>
    rw [htell] at hsession
    cases result with
    | error f =>
      rw [answer_of_tell_error c request htell]
      exact hsession
    | ok _ =>
      obtain ⟨result, log, hanswer⟩ := answer_after c request htell token
      rw [hanswer, Session.run_append, ← hsession]
      show (c.meanwhile request token w₁).session = _
      rw [meanwhile]
      split
      · exact hinvoke w₁
      · rfl

/-! ### When a request is over -/

/-- A request is over when it has left the session that its answering came to. -/
theorem analyze_session
    (hlisten : ∀ listen, (own <|> c.listener) = some listen →
      Performs (listen request (c.settings.scanOutcome request.source)) heard) {w : Workspace ε}
    (hinvoke : Performs (c.invoke (c.settings.call request) (entry request w.session).1) called) :
    (c.analyze request own w).2.session =
      exit request ((entry request w.session).2.run
        (c.interlude request (own <|> c.listener) heard called
          { w with session := (entry request w.session).2 })) := by
  rw [analyze_apply]
  exact congrArg (exit request) (answer_session hlisten hinvoke _)

/-- When a request of a document is over, for whatever reason, it is not in flight; a request that has claimed
its document meanwhile still is, unless it was finished, and no token is cancelled; the newest requests and
the entries of other documents are those that were left.  No other document can tell that the request was
there, and a request without a document cannot be told from none at all. -/
theorem analyze_departs
    (hlisten : ∀ listen, (own <|> c.listener) = some listen →
      Performs (listen request (c.settings.scanOutcome request.source)) heard) {w : Workspace ε}
    (hinvoke : Performs (c.invoke (c.settings.call request) (entry request w.session).1) called)
    {steps : List Session.Step}
    (hsteps : steps = c.interlude request (own <|> c.listener) heard called
      { w with session := (entry request w.session).2 }) {after : Session}
    (hafter : (c.analyze request own w).2.session = after) :
    (∀ uri, request.uri = some uri →
      let left := (w.session.begin uri request.id).2.run steps
      after.running uri ≠ some request.id ∧
      (∀ before id later, id ≠ request.id → steps = before ++ .begin uri id :: later →
        (∀ x ∈ later, x.claims uri = false) →
          (after.inFlight.lookup uri =
              some ⟨id, (((w.session.begin uri request.id).2.run before).begin uri id).1⟩ ↔
            .finish uri id ∉ later)) ∧
      (∀ token, after.isCancelled token = left.isCancelled token) ∧
      (∀ u id, after.isCurrent u id = left.isCurrent u id) ∧
      (∀ u, u ≠ uri → after.inFlight.lookup u = left.inFlight.lookup u) ∧
      ∀ u, u ≠ uri → (∀ id, after.isCurrent u id = (w.session.run steps).isCurrent u id) ∧
        after.running u = (w.session.run steps).running u) ∧
    (request.uri = none →
      after = { w.session with issued := w.session.issued + 1 }.run steps ∧
      ∀ u, (∀ id, after.isCurrent u id = (w.session.run steps).isCurrent u id) ∧
        after.running u = (w.session.run steps).running u) := by
  have hend := analyze_session hlisten hinvoke
  rw [hafter, ← hsteps] at hend
  constructor
  · intro uri huri left
    rw [entry, exit, huri] at hend
    obtain rfl : after = left.finish uri request.id := hend
    have hcurrent : ∀ u id, (left.finish uri request.id).isCurrent u id = left.isCurrent u id :=
      fun u id => by rw [Session.isCurrent, Session.isCurrent, Session.finish_latest]
    have hentries : ∀ u, u ≠ uri →
        (left.finish uri request.id).inFlight.lookup u = left.inFlight.lookup u := fun u hu =>
      Option.ext fun e => by rw [Session.lookup_finish, and_iff_left fun h => hu h.1]
    refine ⟨fun hrunning => ?_, fun before id later hid hsplit hlater => ?_, fun token => ?_, hcurrent,
      hentries, fun u hu => ⟨fun id => ?_, ?_⟩⟩
    · obtain ⟨token, hlookup⟩ := (Session.running_eq_some_iff _ _ _).mp hrunning
      exact ((Session.lookup_finish _ _ _ _ _).mp hlookup).2 ⟨rfl, rfl⟩
    · have hleft : left = (((w.session.begin uri request.id).2.run before).step
          (.begin uri id)).2.run later := by
        rw [← Session.run_cons, ← Session.run_append, ← hsplit]
      have hbegun := (Session.lookup_step ((w.session.begin uri request.id).2.run before)
        (.begin uri id) uri id _).mpr (.inl ⟨rfl, rfl⟩)
      rw [Session.lookup_finish, and_iff_left fun h => hid h.2, hleft,
        Session.lookup_run_of_unclaimed hlater]
      exact and_iff_left hbegun
    · rw [Session.isCancelled, Session.isCancelled, Session.finish_cancelled]
    · rw [hcurrent]
      exact Session.isCurrent_run_congr (Session.isCurrent_step_other w.session
        (x := .begin uri request.id) rfl hu) steps id
    · rw [Session.running, hentries u hu]
      exact Session.running_run_congr (Session.running_step_other w.session
        (x := .begin uri request.id) rfl hu) steps
  · intro hnone
    rw [entry, exit, hnone] at hend
    -- the token that was issued shows in neither map
    have hcurrent : ∀ u id, w.session.issue.2.isCurrent u id = w.session.isCurrent u id :=
      fun _ _ => rfl
    have hrunning : ∀ u, w.session.issue.2.running u = w.session.running u := fun _ => rfl
    obtain rfl : after = w.session.issue.2.run steps := hend
    exact ⟨rfl, fun u => ⟨Session.isCurrent_run_congr (hcurrent u) steps,
      Session.running_run_congr (hrunning u) steps⟩⟩

/-- A coordinator whose listener begins a request of another document, and whose analyzer takes over the
document and fails. -/
def reentrant : Coordinator Unit where
  settings := {}
  invoke := fun _ _ => do
    Workspace.onSession fun s => (s.begin "u" "x").2
    throw (.crash "lost")
  listener := some fun _ _ => Workspace.onSession fun s => (s.begin "v" "y").2

/-- The request that took over the document is still in flight after the failure, and so is that of the other
document. -/
theorem analyze_departs_reentrant :
    ∃ w : Workspace Unit, (reentrant.analyze strayBracket none { surroundings := () }) =
        (.error (.crash "lost"), w) ∧
      w.session.running "u" ≠ some "r" ∧ w.session.inFlight.lookup "u" = some ⟨"x", 2⟩ ∧
      w.session.running "v" = some "y" := by
  have hinvoke : Performs (reentrant.invoke (reentrant.settings.call strayBracket)
      (entry strayBracket {}).1) fun _ => [.begin "u" "x"] := fun _ => rfl
  have hlisten : ∀ listen, (none <|> reentrant.listener) = some listen →
      Performs (listen strayBracket (reentrant.settings.scanOutcome strayBracket.source))
        fun _ => [.begin "v" "y"] := by
    intro listen hlisten
    obtain rfl := Option.some_inj.mp hlisten
    exact fun _ => rfl
  obtain ⟨hdocument, -⟩ := analyze_departs (w := { surroundings := () }) hlisten hinvoke rfl rfl
  obtain ⟨hgone, htakenOver, -, -, -, hother⟩ := hdocument "u" rfl
  refine ⟨_, rfl, hgone, ?_, ?_⟩
  · exact (htakenOver [.begin "v" "y"] "x" [] (by decide) rfl (by simp)).mpr (by simp)
  · exact (hother "v" (by decide)).2.trans rfl

end Coordinator

end AnalyzerBridge
