/-
When a running request is cancelled.

A request shares its session with others, who begin, finish and close documents
while it waits for its analyzer.

* `later_launch`, `Waits.later` — whatever happens on the way to the last look at the
  token is written down in the scene, and the session is what it makes of it
  (`session_of_later`);
* `isCancelled_iff_calledOff` — so that look sees a cancellation exactly if the
  document was begun again or closed before, with the request not yet finished, or if
  somebody cancelled the token itself;
* `reply_cancelled_iff` — and that decides whether the analyzer was cancelled, and with
  it which outcome the request has.

Design notes: nothing is asked of the host of the child.  A token is not cancelled
by what happens on other documents, since only claims on its own document count.
-/
import AnalyzerBridge.Proofs.Containment
import AnalyzerBridge.Proofs.Session
import AnalyzerBridge.Proofs.Supervision
import AnalyzerBridge.Supervision.Shared

namespace AnalyzerBridge

open Session (Step run tokenAfter)

variable {τ α : Type}

/-! ### What is written down -/

/-- Between two workspaces steps were done to the session, and all of them were written down. -/
def Later (w w' : Workspace (Scene τ)) : Prop :=
  ∃ steps, w'.session = w.session.run steps ∧ w'.surroundings.past = w.surroundings.past ++ steps

instance : IsPreorder (Workspace (Scene τ)) Later where
  refl w := ⟨[], rfl, (List.append_nil _).symm⟩
  trans w₁ w₂ w₃ := by
    rintro ⟨steps, hsession, hpast⟩ ⟨steps', hsession', hpast'⟩
    refine ⟨steps ++ steps', ?_, ?_⟩
    · rw [hsession', hsession, Session.run_append]
    · rw [hpast', hpast, List.append_assoc]

namespace Supervision

theorem later_turn (w : Workspace (Scene τ)) : Later w (turn w) :=
  ⟨w.surroundings.schedule.headD [], rfl, rfl⟩

theorem leads_amid (a : Act τ α) : Act.Leads Later (amid a) := by
  have hturn : Act.Leads Later (Act.change turn : Act (Workspace (Scene τ)) Unit) := later_turn
  have hstage : Act.Leads Later (onStage a) := fun w => ⟨[], rfl, (List.append_nil _).symm⟩
  exact hturn.bind fun _ => hstage

variable {host : Host τ} {token : Token} {deadline : Deadline}

theorem later_launch (command : String) (args : List String) (millis : Int) :
    Act.Leads Later (launch (sharedHost host token) command args millis) :=
  leads_launch (fun _ => leads_amid _) (leads_amid _) (leads_amid _) (fun _ => leads_amid _)
    (leads_amid _) command args millis

/-- A look at the token is a turn of the others and a look at the session. -/
theorem isCancelled_shared (w : Workspace (Scene τ)) :
    isCancelled (sharedHost host token) w =
      (.ok ((turn w).session.isCancelled token), turn w) := rfl

theorem cancelledAt_shared_iff (w : Workspace (Scene τ)) :
    CancelledAt (sharedHost host token) w ↔ (turn w).session.isCancelled token = true :=
  cancelledAt_iff (isCancelled_shared w)

theorem later_glance : Act.Leads Later (glance (sharedHost host token) deadline) :=
  leads_glance later_turn (leads_amid _) (leads_amid _)

theorem later_doze : Act.Leads Later (doze (sharedHost host token) deadline) :=
  leads_doze (leads_amid _) fun _ => leads_amid _

/-- Everything is written down from the first round to the last. -/
theorem Waits.later {passed : List (Workspace (Scene τ))} {w last : Workspace (Scene τ)}
    (h : Waits (sharedHost host token) deadline passed w last) : Later w last := by
  induction h with
  | done w => exact refl_of Later w
  | round hglance hdoze hwaits ih =>
    exact trans_of Later (later_glance.of_eq hglance) (trans_of Later (later_doze.of_eq hdoze) ih)

end Supervision

/-! ### What cancels a request -/

/-- The first claim on a document finds the request in flight if any claim comes before the request is
finished. -/
theorem until_spares_iff {uri id : String} {history : List Step} :
    Until (fun x => x.spares uri id) (fun x => x.claims uri = true) history ↔
      ∃ earlier x later, history = earlier ++ x :: later ∧ x.claims uri = true ∧
        .finish uri id ∉ earlier := by
  constructor
  · rintro ⟨earlier, x, later, hsplit, hclaims, hspares⟩
    exact ⟨earlier, x, later, hsplit, hclaims, fun hmem => (hspares _ hmem).2 rfl⟩
  · rintro ⟨earlier, x, later, rfl, hclaims, hnot⟩
    induction earlier with
    | nil => exact ⟨[], x, later, rfl, hclaims, by simp⟩
    | cons y earlier ih =>
      rw [List.mem_cons, not_or] at hnot
      cases hy : y.claims uri with
      | true => exact ⟨[], y, earlier ++ x :: later, rfl, hy, by simp⟩
      | false =>
        obtain ⟨first, z, rest, hsplit, hz, hspares⟩ := ih hnot.2
        refine ⟨y :: first, z, rest, by rw [List.cons_append, hsplit, List.cons_append], hz, ?_⟩
        intro v hv
        rcases List.mem_cons.mp hv with rfl | hv
        · exact ⟨hy, Ne.symm hnot.1⟩
        · exact hspares v hv

/-- A request that was begun after a history is called off by what comes after: its token is cancelled
directly, or its document is begun again or closed with the request not yet finished. -/
def CalledOff (before : List Step) (uri id : String) (after : List Step) : Prop :=
  .cancel (tokenAfter before) ∈ before ++ .begin uri id :: after ∨
    ∃ earlier x later, after = earlier ++ x :: later ∧ x.claims uri = true ∧
      .finish uri id ∉ earlier

theorem isCancelled_iff_calledOff (before : List Step) (uri id : String) (after : List Step) :
    (run {} (before ++ .begin uri id :: after)).isCancelled (tokenAfter before) = true ↔
      CalledOff before uri id after := by
  rw [CalledOff, ← until_spares_iff]
  exact Session.isCancelled_run_iff before uri id after

namespace Coordinator

open Supervision

/-- Whoever listens writes down what it does to the session. -/
def Records (listener : Option (Listener (Scene τ))) : Prop :=
  ∀ listen, listener = some listen → ∀ request scanned, Act.Leads Later (listen request scanned)

theorem leads_tell {listener : Option (Listener (Scene τ))} (h : Records listener) (request : Request)
    (scanned : Outcome) : Act.Leads Later (tell listener request scanned) := by
  cases listener with
  | none => exact Act.leads_pure ()
  | some listen =>
    rw [tell]
    cases scanned.success with
    | true => exact Act.leads_pure ()
    | false => exact h listen rfl request scanned

variable {c : Coordinator (Scene τ)} {host : Host τ} {rounds : Nat} {request : Request} {uri : String}
  {listener : Option (Listener (Scene τ))} {before : List Step} {w : Workspace (Scene τ)}

/-- The session of a request that has entered is what its history makes of it. -/
theorem session_of_later (huri : request.uri = some uri) (hsession : w.session = run {} before)
    (hpast : w.surroundings.past = []) {w' : Workspace (Scene τ)}
    (h : Later { w with session := (entry request w.session).2 } w') :
    w'.session = run {} (before ++ .begin uri request.id :: w'.surroundings.past) := by
  obtain ⟨steps, hsteps, hwritten⟩ := h
  have hentry : (entry request w.session).2 = (w.session.step (.begin uri request.id)).2 := by
    rw [entry, huri]
    rfl
  rw [hwritten, hpast, List.nil_append, hsteps, hentry, hsession, Session.run_append, Session.run_cons]

/-- An analyzer that was cancelled reports neither a code nor an expired deadline. -/
theorem report_of_cancelled {σ : Type} {host : Host σ} {ending : Ending} {startedAt : Int}
    {timeout : Value} {s s' : σ} {raw : RawOutput}
    (h : conclude host ending startedAt timeout s = (.ok raw, s')) :
    (raw.cancelled = true ↔ ending = .cancelled) ∧
      (raw.cancelled = true → raw.exitCode = none ∧ raw.timedOut = false) := by
  obtain ⟨_, _, code, _, _, _, _, _, streams, -, -, -, -, -, rfl⟩ := conclude_eq_ok h
  refine ⟨beq_iff_eq, fun hcancelled => ?_⟩
  obtain rfl : ending = .cancelled := beq_iff_eq.mp hcancelled
  exact ⟨rfl, rfl⟩

/-- The outcome of the scan stands in for an analyzer that was cancelled. -/
theorem judge_of_cancelled (scanned : Outcome) (settings : Settings) (depth : Nat) {raw : RawOutput}
    (htime : raw.timedOut = false) (hcancelled : raw.cancelled = true) :
    judge scanned settings depth (.ok raw) =
      .ok (scanned.degrade .cancelled (fallbackCaveat .cancelled "superseded by a newer request")) := by
  have hread : (Transcript.translate settings.strictOutput raw depth).result =
      .ok (Transcript.incomplete Transcript.cancelledMessage .cancelled
        "superseded by a newer request") := by
    rw [Transcript.translate, htime, hcancelled]
    rfl
  rw [judge, hread]
  rfl

/-- An analyzer that leaves output behind was cancelled exactly if the request had been called off when
its token was looked at in the round that ended the wait; then the scan stands in for it. -/
theorem reply_cancelled_iff (hinvoke : c.invoke = sharedInvoker host rounds)
    (huri : request.uri = some uri) (henabled : c.settings.enabled = true)
    (hpos : 0 < request.deadlineMs) (hheeds : Heeds (listener <|> c.listener))
    (hrecords : Records (listener <|> c.listener)) (hsession : w.session = run {} before)
    (hpast : w.surroundings.past = []) {raw : RawOutput}
    (hreply : c.reply request listener w = .ok raw) :
    ∃ course : Supervision.Course (Workspace (Scene τ)),
      Takes (sharedHost host (tokenAfter before)) c.settings.command
        (c.settings.args ++ [request.source]) (.int request.deadlineMs)
        (c.approach request listener w) course ∧
      (raw.cancelled = true ↔
        CalledOff before uri request.id (turn course.last).surroundings.past) ∧
      (raw.cancelled = true → raw.exitCode = none ∧ raw.timedOut = false ∧
        ∃ o, (c.analyze request listener w).1 = .ok o ∧
          FallsBack (c.settings.scanOutcome request.source) .cancelled o) ∧
      ((∀ x ∈ (turn course.last).surroundings.past, x.claims uri = false) →
        .cancel (tokenAfter before) ∉
          before ++ .begin uri request.id :: (turn course.last).surroundings.past →
        raw.cancelled = false) := by
  have htoken : (entry request w.session).1 = tokenAfter before := by
    rw [entry, huri, hsession]
    rfl
  obtain ⟨w', hrun⟩ : ∃ w', superviseFor (sharedHost host (tokenAfter before)) rounds
      c.settings.command (c.settings.args ++ [request.source]) (.int request.deadlineMs)
      (c.approach request listener w) = (.ok raw, w') := by
    rw [reply, htoken, hinvoke] at hreply
    exact ⟨_, Prod.ext hreply rfl⟩
  obtain ⟨course, ending, w₁, w₂, htakes, hglance, -, hconclude⟩ := exists_course hrun
  obtain ⟨hending, hreport⟩ := report_of_cancelled hconclude
  -- everything from the entry of the request to the last look at its token is written down
  have hlater : Later { w with session := (entry request w.session).2 } (turn course.last) := by
    have happroach := leads_tell hrecords request (c.settings.scanOutcome request.source)
      { w with session := (entry request w.session).2 }
    have hlaunched := (later_launch _ _ _).of_eq htakes.launched
    exact trans_of Later happroach (trans_of Later hlaunched
      (trans_of Later htakes.waits.later (later_turn course.last)))
  have hcancelled : raw.cancelled = true ↔
      CalledOff before uri request.id (turn course.last).surroundings.past := by
    rw [hending, (glance_decides hglance).cancelled_iff, cancelledAt_shared_iff,
      session_of_later huri hsession hpast hlater, isCancelled_iff_calledOff]
  refine ⟨course, htakes, hcancelled, fun h => ?_, fun hclaims hdirect => ?_⟩
  · obtain ⟨hcode, htime⟩ := hreport h
    refine ⟨hcode, htime, ?_⟩
    have hresult := analyze_of_reply c request hheeds w henabled hpos
    rw [hreply, judge_of_cancelled _ c.settings c.depth htime h] at hresult
    exact ⟨_, hresult, fallsBack_degrade _ _ _⟩
  · rw [← Bool.not_eq_true, hcancelled]
    rintro (hmem | ⟨earlier, x, later, hsplit, hx, -⟩)
    · exact hdirect hmem
    · have hfalse := hclaims x (by rw [hsplit]; simp)
      rw [hx] at hfalse
      exact absurd hfalse (by simp)

/-- A coordinator whose analyzer is a child that exits at once, on a session shared with others. -/
def besideOthers : Coordinator (Scene Supervision.Stage) where
  settings := {}
  invoke := sharedInvoker (scriptedHost {} (some (scriptedCancellation none))) 2

/-- A workspace in which the others do some steps in their first turn. -/
def beforeTurn (steps : List Step) : Workspace (Scene Supervision.Stage) where
  surroundings := { stage := {}, schedule := [steps] }

theorem heeds_besideOthers : Heeds (none <|> besideOthers.listener) :=
  fun listen h => absurd h (by simp [besideOthers])

theorem records_besideOthers : Records (none <|> besideOthers.listener) :=
  fun listen h => absurd h (by simp [besideOthers])

/-- A newer request on the document calls a request off, even though its child has exited. -/
theorem reply_cancelled_newer :
    besideOthers.settings.enabled = true ∧ Heeds (none <|> besideOthers.listener) ∧
      Records (none <|> besideOthers.listener) ∧
      ∃ raw, besideOthers.reply strayBracket none (beforeTurn [.begin "u" "x"]) = .ok raw ∧
        raw.cancelled = true ∧ raw.exitCode = none ∧ raw.timedOut = false ∧
        ∃ o, (besideOthers.analyze strayBracket none (beforeTurn [.begin "u" "x"])).1 = .ok o ∧
          FallsBack (besideOthers.settings.scanOutcome strayBracket.source) .cancelled o := by
  have hinvoke : besideOthers.invoke =
      sharedInvoker (scriptedHost {} (some (scriptedCancellation none))) 2 := rfl
  have huri : strayBracket.uri = some "u" := rfl
  have hsession : (beforeTurn [.begin "u" "x"]).session = run {} [] := rfl
  obtain ⟨raw, hreply, hcancelled⟩ : ∃ raw,
      besideOthers.reply strayBracket none (beforeTurn [.begin "u" "x"]) = .ok raw ∧
        raw.cancelled = true := ⟨_, rfl, rfl⟩
  obtain ⟨-, -, -, hreport, -⟩ := reply_cancelled_iff hinvoke huri rfl (by decide)
    heeds_besideOthers records_besideOthers hsession rfl hreply
  obtain ⟨hcode, htime, hanalyze⟩ := hreport hcancelled
  exact ⟨rfl, heeds_besideOthers, records_besideOthers, raw, hreply, hcancelled, hcode, htime, hanalyze⟩

/-- The others finish a request that still runs, and then begin a newer one on its document. -/
def finishedEarly : Workspace (Scene Supervision.Stage) :=
  beforeTurn [.finish "u" strayBracket.id, .begin "u" "x"]

/-- A request that was finished by others is not called off by a newer one that begins before the look
at its token, and the result of its analyzer stands. -/
theorem reply_finished_uncancelled :
    ∃ raw course, besideOthers.reply strayBracket none finishedEarly = .ok raw ∧
      Takes (sharedHost (scriptedHost {} (some (scriptedCancellation none))) (tokenAfter []))
        besideOthers.settings.command (besideOthers.settings.args ++ [strayBracket.source])
        (.int strayBracket.deadlineMs) (besideOthers.approach strayBracket none finishedEarly)
        course ∧
      .begin "u" "x" ∈ (turn course.last).surroundings.past ∧
      raw.cancelled = false ∧ raw.exitCode = some 0 ∧
      ∃ o, (besideOthers.analyze strayBracket none finishedEarly).1 = .ok o ∧ o.degraded = none := by
  obtain ⟨raw, hreply, hcancelled, htime, hcode, hstdout⟩ : ∃ raw,
      besideOthers.reply strayBracket none finishedEarly = .ok raw ∧ raw.cancelled = false ∧
        raw.timedOut = false ∧ raw.exitCode = some 0 ∧ raw.stdout = [] :=
    ⟨_, rfl, rfl, rfl, rfl, rfl⟩
  have hjudge : judge (besideOthers.settings.scanOutcome strayBracket.source) besideOthers.settings
      besideOthers.depth (.ok raw) = .ok (Transcript.unreadable false) := by
    have hpayload : Transcript.payloadOf [] besideOthers.depth = .ok none := by
      rw [Transcript.payloadOf, Text.Utf8.decodeLossy_ascii (by simp)]
      rfl
    have hread : (Transcript.translate false raw besideOthers.depth).result =
        .ok (Transcript.unreadable false) := by
      rw [Transcript.translate, htime, hcancelled, if_neg (by decide), if_neg (by decide), if_pos hcode,
        hstdout, Transcript.translateSuccess, hpayload]
    rw [judge]
    exact congrArg (Except.map _) hread
  obtain ⟨deadline, opened, hlaunch, hbegun, ending, w', hglance⟩ : ∃ deadline opened,
      launch (sharedHost (scriptedHost {} (some (scriptedCancellation none))) (tokenAfter []))
          besideOthers.settings.command (besideOthers.settings.args ++ [strayBracket.source]) 1
          (besideOthers.approach strayBracket none finishedEarly) = (.ok (0, deadline), opened) ∧
        .begin "u" "x" ∈ (turn opened).surroundings.past ∧
        ∃ ending w', glance (sharedHost (scriptedHost {} (some (scriptedCancellation none)))
          (tokenAfter [])) deadline opened = (.ok (some ending), w') :=
    ⟨_, _, rfl, List.mem_cons_of_mem _ (List.mem_singleton_self _), .exited, _, rfl⟩
  obtain ⟨spawned, marked, -, -, -, -, -, -, hstart, hmark, -⟩ := launch_eq_ok (by decide) hlaunch
  refine ⟨raw, ⟨1, spawned, 0, deadline, opened, [], opened⟩, hreply,
    ⟨rfl, Int.one_pos, hstart, ⟨marked, hmark⟩, hlaunch, .done opened, ending, w', hglance⟩, hbegun,
    hcancelled, hcode, ?_⟩
  have hresult := analyze_of_reply besideOthers strayBracket heeds_besideOthers finishedEarly rfl (by decide)
  rw [hreply, hjudge] at hresult
  exact ⟨_, hresult, rfl⟩

end Coordinator

end AnalyzerBridge
