/-
How a supervised run can fail.

On a host whose operations do not fail, a run has one way to fail beside a refused start:
the wait asks for the time that remains in seconds, and that can be too large for the
format.

* `Waits.waitLoop_eq` — rounds that are passed are rounds that the loop has less;
* `waitLoop_cases` — the loop ends, or it stops at a round whose time cannot be told in
  seconds, or it runs out of rounds;
* `launch_cases` — a launch fails if the start is refused, and for no other reason;
* `superviseFor_error_iff` — once the child is started, a run fails as the wait does;
* `superviseFor_fails_iff` — hence the exact condition of each failure, and none but a
  refused start on a punctual host if the whole time can be told in seconds.

Design notes: what is asked of the host is that its own operations succeed; its clock may
stand still or go back, so that the rounds of the loop may all be passed.
-/
import AnalyzerBridge.Proofs.Release
import AnalyzerBridge.Proofs.Timeliness

namespace AnalyzerBridge.Supervision

variable {σ : Type} {host : Host σ} {deadline : Deadline} {command : String} {args : List String}
  {millis : Int} {rounds : Nat} {s : σ}

/-! ### What is asked of a host -/

/-- The operations of a host do not fail; a start may be refused. -/
structure Unfailing (host : Host σ) : Prop extends Responsive host where
  start_succeeds : ∀ argv, Act.Succeeds (host.start argv)
  pidText_succeeds : Act.Succeeds host.pidText
  returncode_succeeds : Act.Succeeds host.returncode
  wait_succeeds : ∀ nanos, Act.Succeeds (host.wait nanos)
  kill_succeeds : Act.Succeeds host.kill
  killGroup_succeeds : Act.Succeeds host.killGroup
  joinReaders_succeeds : Act.Succeeds host.joinReaders
  close_succeeds : ∀ stream, Act.Succeeds (host.close stream)
  collected_succeeds : Act.Succeeds host.collected
  note_succeeds : ∀ r, Act.Succeeds (host.note r)

namespace Unfailing

variable (h : Unfailing host)

include h

theorem stopChild_succeeds : Act.Succeeds (stopChild host) := by
  refine h.poll_succeeds.bind fun code => ?_
  cases code with
  | some code => exact Act.succeeds_pure ()
  | none =>
    refine h.killGroup_succeeds.bind fun _ => h.kill_succeeds.bind fun _ =>
      (h.wait_succeeds _).bind fun ended => ?_
    cases ended with
    | true => exact Act.succeeds_pure ()
    | false => exact h.pidText_succeeds.bind fun pid => h.note_succeeds _

theorem endReaders_succeeds : Act.Succeeds (endReaders host) := by
  refine h.joinReaders_succeeds.bind fun joined => ?_
  cases joined with
  | true => exact Act.succeeds_pure ()
  | false =>
    exact h.pidText_succeeds.bind fun pid => (h.note_succeeds _).bind fun _ =>
      h.killGroup_succeeds.bind fun _ => h.joinReaders_succeeds.bind fun _ => Act.succeeds_pure ()

theorem release_succeeds : Act.Succeeds (release host) :=
  h.stopChild_succeeds.bind fun _ => h.endReaders_succeeds.bind fun _ =>
    (h.close_succeeds .stdin).bind fun _ => (h.close_succeeds .stdout).bind fun _ =>
      h.close_succeeds .stderr

theorem conclude_succeeds (ending : Ending) (startedAt : Int) (timeout : Value) :
    Act.Succeeds (conclude host ending startedAt timeout) :=
  h.now_succeeds.bind fun _ => h.returncode_succeeds.bind fun _ => h.pidText_succeeds.bind fun _ =>
    (h.note_succeeds _).bind fun _ => h.collected_succeeds.bind fun _ => Act.succeeds_pure _

end Unfailing

/-! ### The launch -/

/-- A launch fails if the start is refused, and for no other reason. -/
theorem launch_cases (h : Unfailing host) (hpos : 0 < millis) (command : String) (args : List String)
    (s : σ) :
    (∃ refusal s₁ fault s', host.start (command :: args) s = (.ok (some refusal), s₁) ∧
        launch host command args millis s = (.error (.spawn fault), s')) ∨
      ∃ s₁ startedAt opened, host.start (command :: args) s = (.ok none, s₁) ∧
        ∃ deadline, launch host command args millis s = (.ok (startedAt, deadline), opened) := by
  obtain ⟨outcome, s₁, hstart⟩ := h.start_succeeds (command :: args) s
  cases outcome with
  | some refusal =>
    left
    have hfails : ∃ fault s', start host command args s = (.error (.spawn fault), s') := by
      rw [start, Act.run_bind hstart]
      cases refusal with
      | refused detail wording =>
        obtain ⟨⟨⟩, s', hnote⟩ := h.note_succeeds (record .warning
          ("analyzer spawn failed: " ++ command ++ " (" ++ wording ++ ")")) s₁
        exact ⟨_, s', Act.run_bind hnote _⟩
      | rejected wording =>
        obtain ⟨⟨⟩, s', hnote⟩ := h.note_succeeds (record .warning
          ("analyzer spawn rejected argv: " ++ command ++ " (" ++ wording ++ ")")) s₁
        exact ⟨_, s', Act.run_bind hnote _⟩
    obtain ⟨fault, s', hfails⟩ := hfails
    exact ⟨refusal, s₁, fault, s', hstart, by rw [launch, Act.fail_bind hfails]⟩
  | none =>
    right
    have hstarted : start host command args s = (.ok (), s₁) := by
      rw [start, Act.run_bind hstart]
      rfl
    have hmark : ∀ t : Int, Act.Succeeds
        (Act.ofExcept (Deadline.ofMillis t (.int millis)) : Act σ Deadline) := fun t s =>
      ⟨_, s, congrArg (·, s) (ofMillis_eq hpos)⟩
    obtain ⟨⟨startedAt, deadline⟩, opened, hlaunch⟩ : ∃ x s',
        launch host command args millis s = (.ok x, s') := by
      rw [launch, Act.run_bind hstarted]
      exact h.now_succeeds.bind (fun _ => h.pidText_succeeds.bind fun _ =>
        (h.note_succeeds _).bind fun _ => (h.close_succeeds _).bind fun _ =>
          h.now_succeeds.bind fun t => (hmark t).bind fun _ => Act.succeeds_pure _) s₁
    exact ⟨s₁, startedAt, opened, hstart, deadline, hlaunch⟩

/-! ### The wait loop -/

/-- A round finds nothing, and what remains then cannot be told in seconds. -/
def Balks (host : Host σ) (deadline : Deadline) (s : σ) : Prop :=
  ∃ s₁ t s₂, glance host deadline s = (.ok none, s₁) ∧ host.now s₁ = (.ok t, s₂) ∧
    secondsLimit ≤ deadline.remaining t

/-- Rounds that are passed are rounds that the loop has less. -/
theorem Waits.waitLoop_eq {passed : List σ} {last : σ} (h : Waits host deadline passed s last)
    (more : Nat) :
    waitLoop host deadline (passed.length + more) s = waitLoop host deadline more last := by
  induction h with
  | done s => rw [List.length_nil, Nat.zero_add]
  | round hglance hdoze hwaits ih =>
    rw [List.length_cons, Nat.succ_add_eq_add_succ, Nat.add_succ, waitLoop, Act.run_bind hglance]
    exact (Act.run_bind hdoze _).trans ih

theorem Balks.waitLoop_eq (h : Balks host deadline s) (rounds : Nat) :
    ∃ s', waitLoop host deadline (rounds + 1) s = (.error .quotientTooLarge, s') := by
  obtain ⟨s₁, t, s₂, hglance, hnow, hlong⟩ := h
  have hdoze : doze host deadline s₁ = (.error .quotientTooLarge, s₂) := by
    rw [doze, Act.run_bind hnow, Act.bind_apply, Act.ofExcept_apply, secondsOf_of_le hlong]
  exact ⟨s₂, by rw [waitLoop, Act.run_bind hglance]; exact Act.fail_bind hdoze _⟩

/-- The loop ends, or stops at a round whose time cannot be told in seconds, or runs out of rounds. -/
theorem waitLoop_cases (hresp : Responsive host) (deadline : Deadline) (rounds : Nat) (s : σ) :
    (∃ ending s', waitLoop host deadline rounds s = (.ok ending, s')) ∨
      (∃ passed last, passed.length < rounds ∧ Waits host deadline passed s last ∧
        Balks host deadline last) ∨
      ∃ passed last, passed.length = rounds ∧ Waits host deadline passed s last := by
  induction rounds generalizing s with
  | zero => exact .inr (.inr ⟨[], s, rfl, .done s⟩)
  | succ rounds ih =>
    obtain ⟨found, s₁, hglance⟩ := hresp.glance_succeeds deadline s
    cases found with
    | some ending => exact .inl ⟨ending, s₁, by rw [waitLoop, Act.run_bind hglance]; rfl⟩
    | none =>
      obtain ⟨t, polled, hnow, ⟨-, s₂, -, hdoze⟩ | ⟨hlong, -⟩⟩ := hresp.doze_cases deadline s₁
      · have hround : ∀ {passed last}, Waits host deadline passed s₂ last →
            Waits host deadline (s :: passed) s last := .round hglance hdoze
        rcases ih s₂ with ⟨ending, s', hloop⟩ | ⟨passed, last, hlt, hwaits, hbalks⟩ |
          ⟨passed, last, hlength, hwaits⟩
        · refine .inl ⟨ending, s', ?_⟩
          rw [waitLoop, Act.run_bind hglance]
          exact (Act.run_bind hdoze _).trans hloop
        · exact .inr (.inl ⟨s :: passed, last, Nat.succ_lt_succ hlt, hround hwaits, hbalks⟩)
        · exact .inr (.inr ⟨s :: passed, last, congrArg Nat.succ hlength, hround hwaits⟩)
      · exact .inr (.inl ⟨[], s, Nat.succ_pos rounds, .done s, s₁, t, polled, hglance, hnow, hlong⟩)

theorem waitLoop_of_balks {passed : List σ} {last : σ} (hlt : passed.length < rounds)
    (hwaits : Waits host deadline passed s last) (hbalks : Balks host deadline last) :
    (waitLoop host deadline rounds s).1 = .error .quotientTooLarge := by
  obtain ⟨more, rfl⟩ : ∃ more, rounds = passed.length + (more + 1) :=
    ⟨rounds - passed.length - 1, by omega⟩
  obtain ⟨s', hloop⟩ := hbalks.waitLoop_eq more
  rw [hwaits.waitLoop_eq, hloop]

theorem waitLoop_of_passed {passed : List σ} {last : σ} (hlength : passed.length = rounds)
    (hwaits : Waits host deadline passed s last) :
    (waitLoop host deadline rounds s).1 = .error .unending := by
  subst hlength
  have hloop := hwaits.waitLoop_eq 0
  rw [Nat.add_zero] at hloop
  rw [hloop]
  rfl

/-- What a failure of the loop means. -/
theorem waitLoop_error_iff (hresp : Responsive host) {failure : Failure} :
    (waitLoop host deadline rounds s).1 = .error failure ↔
      (failure = .quotientTooLarge ∧ ∃ passed last, passed.length < rounds ∧
        Waits host deadline passed s last ∧ Balks host deadline last) ∨
      (failure = .unending ∧ ∃ passed last, passed.length = rounds ∧
        Waits host deadline passed s last) := by
  constructor
  · intro hfails
    rcases waitLoop_cases hresp deadline rounds s with ⟨ending, s', hloop⟩ |
      ⟨passed, last, hlt, hwaits, hbalks⟩ | ⟨passed, last, hlength, hwaits⟩
    · rw [hloop] at hfails
      exact absurd hfails (by simp)
    · have hsame := (waitLoop_of_balks hlt hwaits hbalks).symm.trans hfails
      exact .inl ⟨(Except.error.inj hsame).symm, passed, last, hlt, hwaits, hbalks⟩
    · have hsame := (waitLoop_of_passed hlength hwaits).symm.trans hfails
      exact .inr ⟨(Except.error.inj hsame).symm, passed, last, hlength, hwaits⟩
  · rintro (⟨rfl, passed, last, hlt, hwaits, hbalks⟩ | ⟨rfl, passed, last, hlength, hwaits⟩)
    · exact waitLoop_of_balks hlt hwaits hbalks
    · exact waitLoop_of_passed hlength hwaits

/-! ### A whole run -/

/-- Once the child is started, a run fails as the wait does. -/
theorem superviseFor_error_iff (h : Unfailing host) {timeout : Value} {startedAt : Int} {opened : σ}
    (hallowed : allowance command timeout = .ok millis)
    (hlaunch : launch host command args millis s = (.ok (startedAt, deadline), opened))
    {failure : Failure} :
    (superviseFor host rounds command args timeout s).1 = .error failure ↔
      (waitLoop host deadline rounds opened).1 = .error failure := by
  obtain ⟨⟨⟩, released, hrelease⟩ := h.release_succeeds (waitLoop host deadline rounds opened).2
  have hwait : Act.ensuring (waitLoop host deadline rounds) (release host) opened =
      ((waitLoop host deadline rounds opened).1, released) := by
    rw [Act.ensuring_apply, hrelease]
  rw [superviseFor_after_launch rounds hallowed hlaunch, Act.bind_apply, hwait]
  cases (waitLoop host deadline rounds opened).1 with
  | error fault => simp
  | ok ending =>
    obtain ⟨raw, s', hconclude⟩ := h.conclude_succeeds ending startedAt timeout released
    simp only [hconclude]
    exact iff_of_false (by simp) (by simp)

/-- On a punctual host the wait ends if the whole time can be told in seconds. -/
theorem waitLoop_of_launch (hresp : Responsive host) {clock : σ → Int} (hpunct : Punctual host clock)
    (hmillis : 1 ≤ millis) (hshort : millis * nanosPerMilli < secondsLimit)
    (hrounds : roundsFor millis ≤ rounds) {startedAt : Int} {opened : σ}
    (hlaunch : launch host command args millis s = (.ok (startedAt, deadline), opened)) :
    ∃ ending s', waitLoop host deadline rounds opened = (.ok ending, s') := by
  obtain ⟨-, -, -, -, -, -, before, t, -, -, -, -, -, hnow, rfl⟩ := launch_eq_ok (by omega) hlaunch
  have hclock : t ≤ clock opened := (hpunct.now_reads before t opened hnow).2
  have hpos : 0 ≤ millis * nanosPerMilli := by
    rw [nanosPerMilli]
    omega
  have hremains : Deadline.remaining ⟨t + millis * nanosPerMilli⟩ (clock opened) < secondsLimit := by
    show (max 0 (t + millis * nanosPerMilli - clock opened)).toNat < secondsLimit
    omega
  obtain ⟨passed, last, ending, s', hlt, hwaits, hglance⟩ :=
    waits_in_millis hresp hpunct hremains (Int.add_le_add_right hclock _)
  exact ⟨ending, s', waitLoop_eq_ok_iff.mpr ⟨passed, last, hlt.trans_le hrounds, hwaits, hglance⟩⟩

/-- Hence such a run returns once the child is started. -/
theorem superviseFor_in_time (h : Unfailing host) {clock : σ → Int} (hpunct : Punctual host clock)
    (hcommand : command ≠ "") (hmillis : 1 ≤ millis) (hshort : millis * nanosPerMilli < secondsLimit)
    (hrounds : roundsFor millis ≤ rounds) {startedAt : Int} {opened : σ}
    (hlaunch : launch host command args millis s = (.ok (startedAt, deadline), opened)) :
    ∃ raw, (superviseFor host rounds command args (.int millis) s).1 = .ok raw := by
  have hallowed : allowance command (.int millis) = .ok millis := allowance_of_pos hcommand (by omega)
  obtain ⟨ending, s', hloop⟩ :=
    waitLoop_of_launch h.toResponsive hpunct hmillis hshort hrounds hlaunch
  cases hresult : (superviseFor host rounds command args (.int millis) s).1 with
  | ok raw => exact ⟨raw, rfl⟩
  | error failure =>
    have hwait := (superviseFor_error_iff h hallowed hlaunch).mp hresult
    rw [hloop] at hwait
    exact absurd hwait (by simp)

/-- A run of a command fails if its start is refused, if it comes to a round in which the time that remains
cannot be told in seconds, or if it passes all the rounds it has, and for no other reason.  On a punctual
host, with a time that can be told in seconds and the rounds it calls for, only a refused start is left. -/
theorem superviseFor_fails_iff (h : Unfailing host) (hcommand : command ≠ "") (hmillis : 1 ≤ millis)
    {result : Except Failure RawOutput} {s' : σ}
    (hrun : superviseFor host rounds command args (.int millis) s = (result, s')) :
    ((∃ fault, result = .error (.spawn fault)) ↔
      ∃ refusal s₁, host.start (command :: args) s = (.ok (some refusal), s₁)) ∧
    (result = .error .quotientTooLarge ↔
      ∃ startedAt deadline opened passed last,
        launch host command args millis s = (.ok (startedAt, deadline), opened) ∧
        passed.length < rounds ∧ Waits host deadline passed opened last ∧ Balks host deadline last) ∧
    (result = .error .unending ↔
      ∃ startedAt deadline opened passed last,
        launch host command args millis s = (.ok (startedAt, deadline), opened) ∧
        passed.length = rounds ∧ Waits host deadline passed opened last) ∧
    ((∃ raw, result = .ok raw) ∨ (∃ fault, result = .error (.spawn fault)) ∨
      result = .error .quotientTooLarge ∨ result = .error .unending) ∧
    ∀ clock : σ → Int, Punctual host clock → millis * nanosPerMilli < secondsLimit →
      roundsFor millis ≤ rounds → (∃ raw, result = .ok raw) ∨ ∃ fault, result = .error (.spawn fault) := by
  have hpos : 0 < millis := by omega
  have hallowed : allowance command (.int millis) = .ok millis := allowance_of_pos hcommand hpos
  have hresult : (superviseFor host rounds command args (.int millis) s).1 = result := by rw [hrun]
  rcases launch_cases h hpos command args s with
    ⟨refusal, s₁, fault, s₂, hstart, hlaunch⟩ | ⟨s₁, startedAt, opened, hstart, deadline, hlaunch⟩
  · -- the start is refused, so nothing is waited for
    obtain rfl : .error (.spawn fault) = result := by
      rw [← hresult, superviseFor_of_failed_launch rounds hallowed hlaunch]
    refine ⟨iff_of_true ⟨fault, rfl⟩ ⟨refusal, s₁, hstart⟩, iff_of_false (by simp) ?_,
      iff_of_false (by simp) ?_, .inr (.inl ⟨fault, rfl⟩), fun _ _ _ _ => .inr ⟨fault, rfl⟩⟩
    · rintro ⟨_, _, _, _, _, hlaunched, -⟩
      exact absurd (Prod.mk.inj (hlaunch.symm.trans hlaunched)).1 (by simp)
    · rintro ⟨_, _, _, _, _, hlaunched, -⟩
      exact absurd (Prod.mk.inj (hlaunch.symm.trans hlaunched)).1 (by simp)
  · have hfails : ∀ failure, result = .error failure ↔ _ := fun failure => by
      rw [← hresult, superviseFor_error_iff h hallowed hlaunch, waitLoop_error_iff h.toResponsive]
    have hsame : ∀ {startedAt' deadline' opened'},
        launch host command args millis s = (.ok (startedAt', deadline'), opened') →
          deadline' = deadline ∧ opened' = opened := fun hlaunched => by
      obtain ⟨hpair, rfl⟩ := Prod.mk.inj (hlaunch.symm.trans hlaunched)
      exact ⟨(Prod.mk.inj (Except.ok.inj hpair)).2.symm, rfl⟩
    refine ⟨iff_of_false ?_ ?_, (hfails _).trans ⟨?_, ?_⟩, (hfails _).trans ⟨?_, ?_⟩, ?_,
      fun clock hpunct hshort hrounds => ?_⟩
    · rintro ⟨fault, hspawn⟩
      have hcauses := (hfails _).mp hspawn
      simp at hcauses
    · rintro ⟨refusal, s₂, hrefused⟩
      exact absurd (Prod.mk.inj (hstart.symm.trans hrefused)).1 (by simp)
    · rintro (⟨-, passed, last, hlt, hwaits, hbalks⟩ | ⟨hother, -⟩)
      · exact ⟨startedAt, deadline, opened, passed, last, hlaunch, hlt, hwaits, hbalks⟩
      · exact absurd hother (by simp)
    · rintro ⟨_, _, _, passed, last, hlaunched, hlt, hwaits, hbalks⟩
      obtain ⟨rfl, rfl⟩ := hsame hlaunched
      exact .inl ⟨rfl, passed, last, hlt, hwaits, hbalks⟩
    · rintro (⟨hother, -⟩ | ⟨-, passed, last, hlength, hwaits⟩)
      · exact absurd hother (by simp)
      · exact ⟨startedAt, deadline, opened, passed, last, hlaunch, hlength, hwaits⟩
    · rintro ⟨_, _, _, passed, last, hlaunched, hlength, hwaits⟩
      obtain ⟨rfl, rfl⟩ := hsame hlaunched
      exact .inr ⟨rfl, passed, last, hlength, hwaits⟩
    · cases result with
      | ok raw => exact .inl ⟨raw, rfl⟩
      | error failure =>
        rcases (hfails failure).mp rfl with ⟨rfl, -⟩ | ⟨rfl, -⟩
        · exact .inr (.inr (.inl rfl))
        · exact .inr (.inr (.inr rfl))
    · obtain ⟨raw, hreturns⟩ := superviseFor_in_time h hpunct hcommand hmillis hshort hrounds hlaunch
      exact .inl ⟨raw, hresult.symm.trans hreturns⟩

/-! ### A time that is too long -/

/-- No scripted child makes its host fail. -/
theorem scriptedHost_unfailing (script : Script) (token : Option (Option Int)) :
    Unfailing (scriptedHost script (token.map scriptedCancellation)) where
  toResponsive := scriptedHost_responsive script token
  start_succeeds argv s := by
    simp only [scriptedHost]
    split
    · exact ⟨_, _, rfl⟩
    · exact ⟨_, _, rfl⟩
  pidText_succeeds := Act.succeeds_pure _
  returncode_succeeds s := ⟨_, s, rfl⟩
  wait_succeeds nanos s := by
    simp only [scriptedHost]
    split
    · exact ⟨_, _, rfl⟩
    · exact ⟨_, _, rfl⟩
  kill_succeeds s := ⟨(), _, rfl⟩
  killGroup_succeeds := Act.succeeds_pure ()
  joinReaders_succeeds := Act.succeeds_pure true
  close_succeeds stream s := ⟨(), _, rfl⟩
  collected_succeeds := Act.succeeds_pure _
  note_succeeds r s := ⟨(), _, rfl⟩

/-- A child that exits a millisecond after its start. -/
def brief : Script := { exitAfter := some 1000000 }

/-- The milliseconds of a run that is practically unlimited. -/
def ages : Int := 10 ^ 312

/-- The stage when the wait for `brief` begins. -/
def briefOpened : Stage :=
  { startedAt := some 0
    closed := [.stdin]
    events := [.spawned ["java"]]
    log := [record .debug "analyzer started pid=4242 argv0=java"] }

theorem launch_brief (hpos : 0 < millis) :
    launch (scriptedHost brief none) "java" [] millis {} =
      (.ok (0, ⟨millis * nanosPerMilli⟩), briefOpened) := by
  have hmark : Deadline.ofMillis 0 (.int millis) = .ok ⟨0 + millis * nanosPerMilli⟩ := ofMillis_eq hpos
  have hlast : launch (scriptedHost brief none) "java" [] millis {} =
      (do return (0, ← Act.ofExcept (Deadline.ofMillis 0 (.int millis))) : Act Stage (Int × Deadline))
        briefOpened := rfl
  rw [hlast, hmark, Int.zero_add]
  rfl

/-- The first round of a wait for `brief` is too much if the deadline is that far away. -/
theorem balks_brief (hlong : secondsLimit ≤ deadline.mark) :
    Balks (scriptedHost brief none) deadline briefOpened := by
  have hpos : 0 < secondsLimit := Nat.mul_pos Binary64.overflowLimit_pos (by decide)
  have hopen : deadline.expired 0 = false := by
    rw [Deadline.expired, decide_eq_false_iff_not]
    omega
  have hglance : glance (scriptedHost brief none) deadline briefOpened =
      (if deadline.expired 0 then pure (some .timedOut) else pure none : Act Stage (Option Ending))
        briefOpened := rfl
  rw [hopen] at hglance
  refine ⟨briefOpened, 0, briefOpened, hglance, rfl, ?_⟩
  rw [Deadline.remaining]
  omega

theorem secondsLimit_le_ages : (secondsLimit : Int) ≤ ages * nanosPerMilli := by
  decide +kernel

/-- A child that would exit in a millisecond is killed, and its run fails, if it may take ages. -/
theorem supervise_ages :
    Unfailing (scriptedHost brief none) ∧ 1 ≤ ages ∧
      (∃ s', (scriptedHost brief none).start ["java"] {} = (.ok none, s')) ∧
      (supervise (scriptedHost brief none) "java" [] (.int ages) {}).1 = .error .quotientTooLarge := by
  have hhost : Unfailing (scriptedHost brief none) := scriptedHost_unfailing brief none
  have hpos : 0 < ages := by decide +kernel
  have hallowed : allowance "java" (.int ages) = .ok ages := allowance_of_pos (by decide) hpos
  refine ⟨hhost, hpos, ⟨_, rfl⟩, ?_⟩
  rw [supervise, superviseFor_error_iff hhost hallowed (launch_brief hpos)]
  have hround : ∀ millis, ([] : List Stage).length < roundsFor millis := fun millis => Nat.succ_pos _
  exact waitLoop_of_balks (hround _) (.done _) (balks_brief secondsLimit_le_ages)

/-- The child returns if it may take a second. -/
theorem superviseFor_fails_iff_brief :
    (superviseFor (scriptedHost brief none) 1 "java" [] (.int ages) {}).1 = .error .quotientTooLarge ∧
      ∃ raw, (superviseFor (scriptedHost brief none) 21 "java" [] (.int 1000) {}).1 = .ok raw := by
  have hhost : Unfailing (scriptedHost brief none) := scriptedHost_unfailing brief none
  have hpos : 0 < ages := by decide +kernel
  constructor
  · obtain ⟨-, hoverflow, -⟩ := superviseFor_fails_iff hhost (show "java" ≠ "" by decide) hpos
      (Prod.mk.eta (p := superviseFor (scriptedHost brief none) 1 "java" [] (.int ages) {})).symm
    exact hoverflow.mpr ⟨0, _, briefOpened, [], briefOpened, launch_brief hpos, Nat.zero_lt_one, .done _,
      balks_brief secondsLimit_le_ages⟩
  · obtain ⟨hspawn, -, -, -, hpunctual⟩ := superviseFor_fails_iff hhost (show "java" ≠ "" by decide)
      (show 1 ≤ (1000 : Int) by decide)
      (Prod.mk.eta (p := superviseFor (scriptedHost brief none) 21 "java" [] (.int 1000) {})).symm
    rcases hpunctual Stage.clock (scriptedHost_punctual brief none) (by decide +kernel) (by decide) with
      hreturns | hfails
    · exact hreturns
    · obtain ⟨refusal, s₁, hrefused⟩ := hspawn.mp hfails
      exact absurd (Prod.mk.inj hrefused).1 (by simp)

end AnalyzerBridge.Supervision
