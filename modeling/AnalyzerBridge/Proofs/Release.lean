/-
What a supervised run leaves behind.

A child that was started is released on every way out of the wait for it, and what
its pipes delivered is what the run returns.

* `Pipe.faithful_move`, `Pipe.Settled.move` — so much holds at every moment of a
  pipe, and what is read after it was closed is never the whole stream;
* `does_release` — a release in which nothing fails looks at the child first, kills it
  once if it still runs and never otherwise, and closes its streams in the end;
* `superviseFor_releases` — that release follows the wait, whatever became of it,
  nothing is killed or closed before or after, and a run that returns gives the bytes
  of every pipe that has ended.

Design notes: the host of the child is arbitrary, with any answers and failures, and
the pipes move at any moment, in any order.  The deeds of a run are its journal; an
attempt that failed is one of them, so that a phase without such an entry is one that
did all it does.
-/
import AnalyzerBridge.Proofs.Supervision
import AnalyzerBridge.Supervision.Attended

namespace AnalyzerBridge.Supervision

variable {τ α β : Type}

/-! ### Pipes -/

namespace Pipe

/-- The reader of a pipe has read what was delivered. -/
def Faithful (p : Pipe) : Prop :=
  p.reader.sink = p.delivered.flatten

/-- A closed pipe has been read to some point; a reader that is given more from then on will never see
the end of its stream. -/
def Settled (p : Pipe) (sink : List UInt8) : Prop :=
  p.closed = true ∧ (p.reader.sink = sink ∨ p.reader.phase = .between ∨ p.reader.phase = .cutOff)

/-- A pipe at one moment and at a later one. -/
structure Before (p p' : Pipe) : Prop where
  faithful : p.Faithful → p'.Faithful
  settled : ∀ sink, p.Settled sink → p'.Settled sink

instance : IsPreorder Pipe Before where
  refl _ := ⟨id, fun _ => id⟩
  trans _ _ _ h h' := ⟨fun hp => h'.faithful (h.faithful hp),
    fun sink hp => h'.settled sink (h.settled sink hp)⟩

theorem Before.closed {p p' : Pipe} (h : p.Before p') (hclosed : p.closed = true) :
    p'.closed = true :=
  (h.settled p.reader.sink ⟨hclosed, .inl rfl⟩).1

@[simp] theorem ask_sink (r : Reader) (closed : Bool) : (r.ask closed).sink = r.sink := by
  rw [Reader.ask]
  split <;> rfl

theorem receive_sink {r : Reader} (h : r.phase = .waiting) (read : Read) :
    (r.receive read).sink = r.sink ++ read.chunks.flatten := by
  rw [Reader.receive.eq_def, if_pos h]
  match read with
  | .refused => simp [Read.chunks]
  | .bytes [] => simp [Read.chunks]
  | .bytes (b :: rest) => simp [Read.chunks]

/-- A reader that is answered has read nothing, or goes on. -/
theorem receive_cases {r : Reader} (h : r.phase = .waiting) (read : Read) :
    (r.receive read).sink = r.sink ∨ (r.receive read).phase = .between := by
  rw [Reader.receive.eq_def, if_pos h]
  match read with
  | .refused => exact .inl rfl
  | .bytes [] => exact .inl rfl
  | .bytes (b :: rest) => exact .inr rfl

theorem faithful_move {p : Pipe} (h : p.Faithful) (m : Move) : (p.move m).Faithful := by
  cases m with
  | ask => exact (ask_sink p.reader p.closed).trans h
  | answer read =>
    rw [move]
    split
    next hwaiting =>
      show (p.reader.receive read).sink = (p.delivered ++ read.chunks).flatten
      rw [receive_sink hwaiting, List.flatten_append, h]
    next => exact h

/-- Nothing that happens at a closed pipe brings a reader to the end that has been given more. -/
theorem Settled.move {p : Pipe} {sink : List UInt8} (h : p.Settled sink) (m : Move) :
    (p.move m).Settled sink := by
  obtain ⟨hclosed, hread⟩ := h
  cases m with
  | ask =>
    refine ⟨hclosed, ?_⟩
    rcases hread with hsink | hphase | hphase
    · exact .inl ((ask_sink p.reader p.closed).trans hsink)
    · -- the stream refuses, since it is closed
      refine .inr (.inr ?_)
      simp [Pipe.move, Reader.ask, hphase, hclosed]
    · refine .inr (.inr ?_)
      simp [Pipe.move, Reader.ask, hphase]
  | answer read =>
    rw [Pipe.move]
    split
    next hwaiting =>
      refine ⟨hclosed, ?_⟩
      rcases hread with hsink | hphase | hphase
      · rcases receive_cases hwaiting read with hsame | hgoes
        · exact .inl (hsame.trans hsink)
        · exact .inr (.inl hgoes)
      · exact absurd (hwaiting.symm.trans hphase) (by decide)
      · exact absurd (hwaiting.symm.trans hphase) (by decide)
    next => exact ⟨hclosed, hread⟩

theorem before_moves (p : Pipe) (moves : List Move) : p.Before (moves.foldl move p) := by
  induction moves generalizing p with
  | nil => exact refl_of Before p
  | cons m moves ih =>
    have hmove : p.Before (p.move m) := ⟨fun h => faithful_move h m, fun sink h => h.move m⟩
    exact trans_of Before hmove (ih (p.move m))

theorem before_close (p : Pipe) : p.Before { p with closed := true } :=
  ⟨id, fun _ h => ⟨rfl, h.2⟩⟩

/-- What had been read when a pipe was closed is all that it delivered, if its reader ever reaches the
end. -/
theorem Before.sink_eq {p p' : Pipe} (h : p.Before p') (hclosed : p.closed = true)
    (hfaithful : p.Faithful) (hend : p'.reader.phase = .atEnd) :
    p.reader.sink = p'.delivered.flatten := by
  have hsink : p'.reader.sink = p.reader.sink := by
    rcases (h.settled p.reader.sink ⟨hclosed, .inl rfl⟩).2 with hsame | hphase | hphase
    · exact hsame
    · exact absurd (hend.symm.trans hphase) (by decide)
    · exact absurd (hend.symm.trans hphase) (by decide)
  rw [← hsink]
  exact h.faithful hfaithful

end Pipe

/-! ### The journal of a run -/

/-- A deed that takes something from the child for good: its life or an output stream. -/
def Deed.isFinal : Deed → Bool
  | .killed | .closed .stdout | .closed .stderr => true
  | _ => false

/-- A deed that leaves the child its life and its output streams. -/
def Mild (d : Deed) : Prop :=
  d.isFinal = false

/-- What surrounds a run at one moment and at a later one: some things were done in between, and each of
them has a property. -/
structure Passes (P : Deed → Prop) (a a' : Attended τ) : Prop where
  deeds : ∃ done, a'.deeds = a.deeds ++ done ∧ ∀ d ∈ done, P d
  stdout : a.stdout.Before a'.stdout
  stderr : a.stderr.Before a'.stderr

instance {P : Deed → Prop} : IsPreorder (Attended τ) (Passes P) where
  refl a := ⟨⟨[], (List.append_nil _).symm, by simp⟩, refl_of Pipe.Before _, refl_of Pipe.Before _⟩
  trans a a₁ a₂ h h' := by
    obtain ⟨done, hdone, hall⟩ := h.deeds
    obtain ⟨done', hdone', hall'⟩ := h'.deeds
    refine ⟨⟨done ++ done', by rw [hdone', hdone, List.append_assoc], fun d hd => ?_⟩,
      trans_of Pipe.Before h.stdout h'.stdout, trans_of Pipe.Before h.stderr h'.stderr⟩
    rcases List.mem_append.mp hd with hd | hd
    · exact hall d hd
    · exact hall' d hd

section Passing

variable {P : Deed → Prop} {host : Host τ}

theorem passes_turn (a : Attended τ) : Passes P a a.turn :=
  ⟨⟨[], (List.append_nil _).symm, by simp⟩, Pipe.before_moves _ _, Pipe.before_moves _ _⟩

theorem passes_shut (stream : Stream) (a : Attended τ) : Passes P a (a.shut stream) := by
  have hnone : ∃ done, a.deeds = a.deeds ++ done ∧ ∀ d ∈ done, P d :=
    ⟨[], (List.append_nil _).symm, by simp⟩
  cases stream with
  | stdin => exact refl_of (Passes P) a
  | stdout => exact ⟨hnone, Pipe.before_close _, refl_of Pipe.Before _⟩
  | stderr => exact ⟨hnone, refl_of Pipe.Before _, Pipe.before_close _⟩

variable (hmild : ∀ d, Mild d → P d)

include hmild

theorem passes_attend (deed : α → Deed) (hdeed : ∀ x, P (deed x)) (op : Act τ α) :
    Act.Leads (Passes P) (attend deed op) := by
  intro a
  have hturn : Passes P a a.turn := passes_turn a
  rw [attend]
  rcases op a.turn.stage with ⟨fault | x, stage⟩
  · exact ⟨⟨[.failed], rfl, by simpa using hmild .failed rfl⟩, hturn.stdout, hturn.stderr⟩
  · exact ⟨⟨[deed x], rfl, by simpa using hdeed x⟩, hturn.stdout, hturn.stderr⟩

theorem passes_mild (deed : α → Deed) (hdeed : ∀ x, Mild (deed x)) (op : Act τ α) :
    Act.Leads (Passes P) (attend deed op) :=
  passes_attend hmild deed (fun x => hmild _ (hdeed x)) op

theorem passes_aside (op : Act τ α) : Act.Leads (Passes P) (aside op) :=
  passes_mild hmild (fun _ => .consulted) (fun _ => rfl) op

theorem passes_close {stream : Stream} (hclosed : P (.closed stream)) :
    Act.Leads (Passes P) ((attendedHost host).close stream) :=
  (passes_attend hmild (fun _ => .closed stream) (fun _ => hclosed) _).bind fun _ => passes_shut stream

theorem passes_joinReaders : Act.Leads (Passes P) (attendedHost host).joinReaders :=
  (passes_mild hmild (fun _ => .joined) (fun _ => rfl) _).bind fun _ => fun a => refl_of (Passes P) a

theorem passes_isCancelled : Act.Leads (Passes P) (isCancelled (attendedHost host)) := by
  rw [isCancelled]
  cases h : host.cancellation with
  | none =>
    simp only [attendedHost, h, Option.map_none]
    exact Act.leads_pure false
  | some c =>
    simp only [attendedHost, h, Option.map_some]
    exact passes_aside hmild c.cancelled

theorem passes_rest (nanos : Nat) : Act.Leads (Passes P) (rest (attendedHost host) nanos) := by
  rw [rest]
  cases h : host.cancellation with
  | none =>
    simp only [attendedHost, h, Option.map_none]
    exact (passes_mild hmild .waited (fun _ => rfl) _).bind fun _ => Act.leads_pure ()
  | some c =>
    simp only [attendedHost, h, Option.map_some]
    exact passes_aside hmild (c.pause nanos)

end Passing

theorem passes_collected {P : Deed → Prop} {host : Host τ} :
    Act.Leads (Passes P) (attendedHost host).collected := by
  have hturn : Act.Leads (Passes P) (Act.change (Attended.turn (τ := τ))) := passes_turn
  have hlook : ∀ f : Attended τ → List UInt8, Act.Leads (Passes P) (Act.look f) :=
    fun f a => refl_of (Passes P) a
  exact hturn.bind fun _ => (hlook _).bind fun _ => hturn.bind fun _ => (hlook _).bind fun _ =>
    hturn.bind fun _ => Act.leads_pure _

/-! ### What a release does -/

/-- Wherever an operation starts, it succeeds with a result and deeds of which a property holds, or one of
its deeds is a failure. -/
def Does (op : Act (Attended τ) α) (Q : α → List Deed → Prop) : Prop :=
  ∀ a, ∃ done, (op a).2.deeds = a.deeds ++ done ∧
    (.failed ∉ done → ∃ x, (op a).1 = .ok x ∧ Q x done)

theorem Does.mono {op : Act (Attended τ) α} {Q Q' : α → List Deed → Prop} (h : Does op Q)
    (hweaker : ∀ x done, Q x done → Q' x done) : Does op Q' := by
  intro a
  obtain ⟨done, hdone, hsucceeds⟩ := h a
  refine ⟨done, hdone, fun hnot => ?_⟩
  obtain ⟨x, hx, hQ⟩ := hsucceeds hnot
  exact ⟨x, hx, hweaker x done hQ⟩

/-- A sequence does what its parts do, one after the other. -/
theorem Does.bind {op : Act (Attended τ) α} {f : α → Act (Attended τ) β} {Q : α → List Deed → Prop}
    {Q' : α → β → List Deed → Prop} (hop : Does op Q) (hf : ∀ x, Does (f x) (Q' x)) :
    Does (op >>= f) fun y done => ∃ x first second, done = first ++ second ∧ Q x first ∧
      Q' x y second := by
  intro a
  obtain ⟨first, hfirst, hsucceeds⟩ := hop a
  rw [Act.bind_apply]
  rcases hrun : op a with ⟨fault | x, a₁⟩
  · rw [hrun] at hfirst hsucceeds
    refine ⟨first, hfirst, fun hnot => ?_⟩
    obtain ⟨x, hx, -⟩ := hsucceeds hnot
    exact absurd hx (by simp)
  · rw [hrun] at hfirst hsucceeds
    obtain ⟨second, hsecond, hsucceeds'⟩ := hf x a₁
    refine ⟨first ++ second, ?_, fun hnot => ?_⟩
    · show (f x a₁).2.deeds = a.deeds ++ (first ++ second)
      rw [hsecond, ← List.append_assoc]
      exact congrArg (· ++ second) hfirst
    · rw [List.mem_append, not_or] at hnot
      obtain ⟨x', hx', hQ⟩ := hsucceeds hnot.1
      obtain rfl : x = x' := Except.ok.inj hx'
      obtain ⟨y, hy, hQ'⟩ := hsucceeds' hnot.2
      exact ⟨y, hy, x, first, second, rfl, hQ, hQ'⟩

theorem does_pure (x : α) : Does (pure x : Act (Attended τ) α) fun y done => y = x ∧ done = [] :=
  fun _ => ⟨[], (List.append_nil _).symm, fun _ => ⟨x, rfl, rfl, rfl⟩⟩

theorem does_attend (deed : α → Deed) (op : Act τ α) :
    Does (attend deed op) fun x done => done = [deed x] := by
  intro a
  rw [attend]
  rcases op a.turn.stage with ⟨fault | x, stage⟩
  · exact ⟨[.failed], rfl, fun hnot => absurd (List.mem_singleton_self _) hnot⟩
  · exact ⟨[deed x], rfl, fun _ => ⟨x, rfl, rfl⟩⟩

variable {host : Host τ}

theorem does_close (stream : Stream) :
    Does ((attendedHost host).close stream) fun _ done => done = [.closed stream] := by
  have hshut : Does (Act.change (Attended.shut (τ := τ) stream)) fun _ done => done = [] := by
    intro a
    refine ⟨[], ?_, fun _ => ⟨(), rfl, rfl⟩⟩
    cases stream <;> exact (List.append_nil _).symm
  refine ((does_attend _ _).bind fun _ => hshut).mono ?_
  rintro _ done ⟨_, first, second, rfl, rfl, rfl⟩
  rfl

theorem does_closeStreams : Does (closeStreams (attendedHost host)) fun _ done =>
    done = [.closed .stdin, .closed .stdout, .closed .stderr] := by
  refine ((does_close .stdin).bind fun _ => (does_close .stdout).bind fun _ =>
    does_close .stderr).mono ?_
  rintro _ done ⟨_, first, second, rfl, rfl, _, third, fourth, rfl, rfl, rfl⟩
  rfl

/-- Nothing final is among the things done. -/
def NothingFinal (_ : α) (done : List Deed) : Prop :=
  done.filter Deed.isFinal = []

theorem Does.bind_nothingFinal {op : Act (Attended τ) α} {f : α → Act (Attended τ) β}
    (hop : Does op NothingFinal) (hf : ∀ x, Does (f x) NothingFinal) : Does (op >>= f) NothingFinal := by
  refine (hop.bind hf).mono ?_
  rintro y done ⟨x, first, second, rfl, hfirst, hsecond⟩
  rw [NothingFinal, List.filter_append, hfirst, hsecond, List.append_nil]

theorem does_pure_nothingFinal (x : α) : Does (pure x : Act (Attended τ) α) NothingFinal :=
  (does_pure x).mono fun _ _ h => by rw [NothingFinal, h.2, List.filter_nil]

theorem does_attend_nothingFinal {deed : α → Deed} (hdeed : ∀ x, (deed x).isFinal = false)
    (op : Act τ α) : Does (attend deed op) NothingFinal :=
  (does_attend deed op).mono fun x _ h => by simp [NothingFinal, h, hdeed x]

theorem does_aside (op : Act τ α) : Does (aside op) NothingFinal :=
  does_attend_nothingFinal (fun _ => rfl) op

theorem does_joinReaders : Does (attendedHost host).joinReaders NothingFinal :=
  (does_attend_nothingFinal (fun _ => rfl) _).bind_nothingFinal fun _ => fun _ =>
    ⟨[], (List.append_nil _).symm, fun _ => ⟨_, rfl, rfl⟩⟩

theorem does_endReaders : Does (endReaders (attendedHost host)) NothingFinal := by
  refine does_joinReaders.bind_nothingFinal fun joined => ?_
  cases joined with
  | true => exact does_pure_nothingFinal ()
  | false =>
    exact (does_aside _).bind_nothingFinal fun pid => (does_aside _).bind_nothingFinal fun _ =>
      (does_attend_nothingFinal (fun _ => rfl) _).bind_nothingFinal fun _ =>
        does_joinReaders.bind_nothingFinal fun _ => does_pure_nothingFinal ()

/-- A child is looked at, and killed once if it still runs. -/
theorem does_stopChild : Does (stopChild (attendedHost host)) fun _ done =>
    ∃ code stopped, done = .polled code :: stopped ∧
      stopped.filter Deed.isFinal = if code = none then [.killed] else [] := by
  have hkill : Does (attendedHost host).kill fun _ done => done = [.killed] :=
    does_attend (fun _ => .killed) host.kill
  refine Does.mono (Q := fun _ done => ∃ code first second, done = first ++ second ∧
    first = [Deed.polled code] ∧ second.filter Deed.isFinal = if code = none then [.killed] else [])
    ((does_attend Deed.polled host.poll).bind fun code => ?_) ?_
  · cases code with
    | some code => exact does_pure_nothingFinal ()
    | none =>
      -- what follows the kill is the same whether the child exits in time or not
      refine ((does_attend_nothingFinal (fun _ => rfl) host.killGroup).bind fun _ => hkill.bind fun _ =>
        (does_attend_nothingFinal (fun _ => rfl) (host.wait graceNanos)).bind_nothingFinal
          fun ended => ?_).mono ?_
      · cases ended with
        | true => exact does_pure_nothingFinal ()
        | false => exact (does_aside _).bind_nothingFinal fun pid => does_aside _
      · rintro _ done ⟨_, first, second, rfl, hfirst, _, third, fourth, rfl, rfl, hfourth⟩
        rw [List.filter_append, List.filter_append, hfirst, hfourth]
        rfl
  · rintro _ done ⟨code, first, second, rfl, rfl, hsecond⟩
    exact ⟨code, second, rfl, hsecond⟩

/-- What a release does to a child: it looks whether the child still runs, kills it once if so and never
otherwise, and closes its streams when all of that is over. -/
def Releases (released : List Deed) : Prop :=
  ∃ code stopped, released =
      .polled code :: stopped ++ [.closed .stdin, .closed .stdout, .closed .stderr] ∧
    stopped.filter Deed.isFinal = if code = none then [.killed] else []

/-- A release in which nothing fails is complete. -/
theorem does_release : Does (release (attendedHost host)) fun _ => Releases := by
  refine (does_stopChild.bind fun _ => does_endReaders.bind fun _ => does_closeStreams).mono ?_
  rintro _ done ⟨_, first, second, rfl, ⟨code, stopped, rfl, hstopped⟩, _, third, fourth, rfl, hthird,
    rfl⟩
  refine ⟨code, stopped ++ third, by simp, ?_⟩
  rw [List.filter_append, hstopped, hthird, List.append_nil]

/-! ### A whole run -/

variable {command : String} {args : List String} {timeout : Value} {deadline : Deadline}
  {millis startedAt : Int} {rounds : Nat}

/-- However the wait for a child ends, the child is released; a run goes on to its report only after a
wait and a release that succeeded. -/
theorem superviseFor_of_launch {host : Host τ} (rounds : Nat) {s opened : τ}
    (hallowed : allowance command timeout = .ok millis)
    (hlaunch : launch host command args millis s = (.ok (startedAt, deadline), opened)) :
    (∃ fault, superviseFor host rounds command args timeout s =
        (.error fault, (release host (waitLoop host deadline rounds opened).2).2)) ∨
      ∃ ending released, release host (waitLoop host deadline rounds opened).2 = (.ok (), released) ∧
        superviseFor host rounds command args timeout s =
          conclude host ending startedAt timeout released := by
  rw [superviseFor_after_launch rounds hallowed hlaunch, Act.bind_apply, Act.ensuring_apply]
  rcases release host (waitLoop host deadline rounds opened).2 with ⟨fault | ⟨⟩, released⟩
  · exact .inl ⟨fault, rfl⟩
  · rcases waitLoop host deadline rounds opened with ⟨fault | ending, waited⟩
    · exact .inl ⟨fault, rfl⟩
    · exact .inr ⟨ending, released, rfl, rfl⟩

/-- A launch that fails is the end of the run, and nothing is released. -/
theorem superviseFor_of_failed_launch {host : Host τ} (rounds : Nat) {s s' : τ} {fault : Failure}
    (hallowed : allowance command timeout = .ok millis)
    (hlaunch : launch host command args millis s = (.error fault, s')) :
    superviseFor host rounds command args timeout s = (.error fault, s') := by
  have hfirst : (Act.ofExcept (allowance command timeout) : Act τ Int) s = (.ok millis, s) := by
    rw [Act.ofExcept_apply, hallowed]
  rw [superviseFor, Act.run_bind hfirst, Act.fail_bind hlaunch]

theorem closed_of_close {stream : Stream} {a a' : Attended τ}
    (h : (attendedHost host).close stream a = (.ok (), a')) :
    (stream = .stdout → a'.stdout.closed = true) ∧ (stream = .stderr → a'.stderr.closed = true) := by
  obtain ⟨_, a₁, -, hshut⟩ := Act.ok_of_bind h
  obtain ⟨-, rfl⟩ := Prod.mk.inj hshut
  constructor
  · rintro rfl
    rfl
  · rintro rfl
    rfl

/-- A release that succeeds has closed both output streams. -/
theorem closed_of_release {a a' : Attended τ} (h : release (attendedHost host) a = (.ok (), a')) :
    a'.stdout.closed = true ∧ a'.stderr.closed = true := by
  obtain ⟨_, a₁, -, h⟩ := Act.ok_of_bind h
  obtain ⟨_, a₂, -, h⟩ := Act.ok_of_bind h
  obtain ⟨_, a₃, -, h⟩ := Act.ok_of_bind h
  obtain ⟨⟨⟩, a₄, hstdout, hstderr⟩ := Act.ok_of_bind h
  have hpasses : Passes (fun _ => True) a₄ a' :=
    Act.Leads.of_eq (passes_close (fun _ _ => trivial) trivial) hstderr
  exact ⟨hpasses.stdout.closed ((closed_of_close hstdout).1 rfl), (closed_of_close hstderr).2 rfl⟩

/-- What is collected from closed pipes is all that they delivered, as far as their readers reach the
end. -/
theorem collected_eq {a a' : Attended τ} {streams : List UInt8 × List UInt8}
    (h : (attendedHost host).collected a = (.ok streams, a'))
    (hclosed : a.stdout.closed = true ∧ a.stderr.closed = true)
    (hfaithful : a.stdout.Faithful ∧ a.stderr.Faithful) :
    (a'.stdout.reader.phase = .atEnd → streams.1 = a'.stdout.delivered.flatten) ∧
      (a'.stderr.reader.phase = .atEnd → streams.2 = a'.stderr.delivered.flatten) := by
  have hturns : streams = (a.turn.stdout.reader.sink, a.turn.turn.stderr.reader.sink) ∧
      a' = a.turn.turn.turn := by
    obtain ⟨hstreams, rfl⟩ := Prod.mk.inj h
    exact ⟨(Except.ok.inj hstreams).symm, rfl⟩
  obtain ⟨rfl, rfl⟩ := hturns
  have hturn : ∀ b : Attended τ, Passes (fun _ => True) b b.turn := passes_turn
  have htwo := trans_of (Passes fun _ => True) (hturn a) (hturn a.turn)
  have hlater := trans_of (Passes fun _ => True) (hturn a.turn) (hturn a.turn.turn)
  constructor
  · exact hlater.stdout.sink_eq ((hturn a).stdout.closed hclosed.1)
      ((hturn a).stdout.faithful hfaithful.1)
  · exact (hturn a.turn.turn).stderr.sink_eq (htwo.stderr.closed hclosed.2)
      (htwo.stderr.faithful hfaithful.2)

theorem passes_launch (command : String) (args : List String) (millis : Int) :
    Act.Leads (Passes Mild) (launch (attendedHost host) command args millis) := by
  have hmild : ∀ d, Mild d → Mild d := fun _ h => h
  exact leads_launch (fun _ => passes_mild hmild (fun _ => .started) (fun _ => rfl) _)
    (passes_aside hmild _)
    (passes_aside hmild _) (fun _ => passes_aside hmild _) (passes_close hmild rfl) command args millis

theorem passes_waitLoop (rounds : Nat) :
    Act.Leads (Passes Mild) (waitLoop (attendedHost host) deadline rounds) := by
  have hmild : ∀ d, Mild d → Mild d := fun _ h => h
  exact leads_waitLoop (passes_isCancelled hmild) (passes_mild hmild .polled (fun _ => rfl) _)
    (passes_aside hmild _) (passes_rest hmild) rounds

theorem passes_release : Act.Leads (Passes fun _ => True) (release (attendedHost host)) := by
  have hmild : ∀ d, Mild d → True := fun _ _ => trivial
  exact leads_release (passes_mild hmild .polled (fun _ => rfl) _)
    (passes_mild hmild (fun _ => .groupKilled) (fun _ => rfl) _)
    (passes_attend hmild (fun _ => .killed) (fun _ => trivial) _)
    (passes_mild hmild .waited (fun _ => rfl) _)
    (passes_joinReaders hmild) (passes_aside hmild _) (fun _ => passes_aside hmild _)
    fun _ => passes_close hmild trivial

theorem passes_conclude (ending : Ending) (startedAt : Int) (timeout : Value) :
    Act.Leads (Passes Mild) (conclude (attendedHost host) ending startedAt timeout) := by
  have hmild : ∀ d, Mild d → Mild d := fun _ h => h
  exact leads_conclude (passes_aside hmild _) (passes_aside hmild _) (passes_aside hmild _)
    (fun _ => passes_aside hmild _) passes_collected ending startedAt timeout

/-- What a report gives for closed pipes is all that they delivered, as far as their readers reach the
end. -/
theorem conclude_gives {ending : Ending} {a a' : Attended τ} {raw : RawOutput}
    (h : conclude (attendedHost host) ending startedAt timeout a = (.ok raw, a'))
    (hclosed : a.stdout.closed = true ∧ a.stderr.closed = true)
    (hfaithful : a.stdout.Faithful ∧ a.stderr.Faithful) :
    (a'.stdout.reader.phase = .atEnd → raw.stdout = a'.stdout.delivered.flatten) ∧
      (a'.stderr.reader.phase = .atEnd → raw.stderr = a'.stderr.delivered.flatten) := by
  obtain ⟨t, a₁, code, a₂, pid, a₃, r, a₄, streams, hnow, hcode, hpid, hnote, hcollected, rfl⟩ :=
    conclude_eq_ok h
  have hmild : ∀ d, Mild d → Mild d := fun _ h => h
  have haside : ∀ {β : Type} (op : Act τ β), Act.Leads (Passes Mild) (aside op) := passes_aside hmild
  have hbefore : Passes Mild a a₄ :=
    trans_of (Passes Mild) ((haside host.now).of_eq hnow) (trans_of (Passes Mild)
      ((haside host.returncode).of_eq hcode) (trans_of (Passes Mild)
        ((haside host.pidText).of_eq hpid) ((haside (host.note r)).of_eq hnote)))
  exact collected_eq hcollected
    ⟨hbefore.stdout.closed hclosed.1, hbefore.stderr.closed hclosed.2⟩
    ⟨hbefore.stdout.faithful hfaithful.1, hbefore.stderr.faithful hfaithful.2⟩

/-- A child that was started is released when the wait for it is over, whatever ended the wait: it is
looked at, killed once if it still runs and never otherwise, and then its streams are closed.  Nothing of
that happens before or after.  A run that returns gives, for each pipe whose reader is at the end, the
chunks it delivered in a row. -/
theorem superviseFor_releases {a opened a' : Attended τ} {result : Except Failure RawOutput}
    (hallowed : allowance command timeout = .ok millis)
    (hlaunch : launch (attendedHost host) command args millis a = (.ok (startedAt, deadline), opened))
    (hfaithful : a.stdout.Faithful ∧ a.stderr.Faithful)
    (hrun : superviseFor (attendedHost host) rounds command args timeout a = (result, a')) :
    ∃ launched waited released reported, opened.deeds = a.deeds ++ launched ∧
      (waitLoop (attendedHost host) deadline rounds opened).2.deeds = opened.deeds ++ waited ∧
      a'.deeds = opened.deeds ++ waited ++ released ++ reported ∧
      (∀ d ∈ launched ++ waited ++ reported, Mild d) ∧
      (.failed ∉ released → Releases released) ∧
      ∀ raw, result = .ok raw →
        (a'.stdout.reader.phase = .atEnd → raw.stdout = a'.stdout.delivered.flatten) ∧
        (a'.stderr.reader.phase = .atEnd → raw.stderr = a'.stderr.delivered.flatten) := by
  have hlaunching := (passes_launch command args millis).of_eq hlaunch
  have hwaiting : Passes Mild opened (waitLoop (attendedHost host) deadline rounds opened).2 :=
    passes_waitLoop rounds opened
  obtain ⟨launched, hlaunched, hmildLaunch⟩ := hlaunching.deeds
  obtain ⟨waited, hwaited, hmildWait⟩ := hwaiting.deeds
  have hdoes : Does (release (attendedHost host)) fun _ => Releases := does_release
  obtain ⟨released, hreleased, hcomplete⟩ :=
    hdoes (waitLoop (attendedHost host) deadline rounds opened).2
  have hreleases : .failed ∉ released → Releases released := fun hnot => by
    obtain ⟨_, -, h⟩ := hcomplete hnot
    exact h
  rcases superviseFor_of_launch rounds hallowed hlaunch with
    ⟨fault, hend⟩ | ⟨ending, closed, hrelease, hend⟩
  · -- the wait or the release failed, so there is no report
    obtain ⟨rfl, rfl⟩ := Prod.mk.inj (hrun.symm.trans hend)
    refine ⟨launched, waited, released, [], hlaunched, hwaited, ?_, fun d hd => ?_, hreleases,
      fun raw h => absurd h (by simp)⟩
    · rw [hreleased, hwaited, List.append_nil]
    · rw [List.append_nil, List.mem_append] at hd
      exact hd.elim (hmildLaunch d) (hmildWait d)
  · have hconclude : conclude (attendedHost host) ending startedAt timeout closed = (result, a') :=
      hend.symm.trans hrun
    obtain ⟨reported, hreported, hmildReport⟩ :=
      ((passes_conclude ending startedAt timeout).of_eq hconclude).deeds
    rw [hrelease] at hreleased
    refine ⟨launched, waited, released, reported, hlaunched, hwaited, ?_, fun d hd => ?_, hreleases,
      fun raw hraw => ?_⟩
    · rw [hreported, hreleased, hwaited]
    · rw [List.mem_append, List.mem_append] at hd
      exact hd.elim (fun hd => hd.elim (hmildLaunch d) (hmildWait d)) (hmildReport d)
    · subst hraw
      have hreleasing := passes_release.of_eq hrelease
      exact conclude_gives hconclude (closed_of_release hrelease)
        ⟨hreleasing.stdout.faithful (hwaiting.stdout.faithful (hlaunching.stdout.faithful hfaithful.1)),
          hreleasing.stderr.faithful
            (hwaiting.stderr.faithful (hlaunching.stderr.faithful hfaithful.2))⟩

/-- A child that never exits, not even when it is killed. -/
def undying : Script := { exitAfter := none, unkillable := true }

/-- Before a run of `undying`: one stream delivers its bytes in two chunks, the other one none. -/
def attending : Attended Stage where
  stage := {}
  schedule := [([], []),
    ([.ask, .answer (.bytes [104])], [.ask]),
    ([.ask, .answer (.bytes [105, 33]), .ask], []),
    ([.answer (.bytes [])], [.answer (.bytes [])])]

/-- A child that outlives its deadline and its killing is killed once, and what it wrote is returned. -/
theorem superviseFor_releases_undying :
    ∃ a', superviseFor (attendedHost (scriptedHost undying none)) 2 "java" [] (.int 1) attending =
        (.ok { stdout := [104, 105, 33], stderr := [], exitCode := none, timedOut := true,
               cancelled := false }, a') ∧
      allowance "java" (.int 1) = .ok 1 ∧ attending.stdout.Faithful ∧ attending.stderr.Faithful ∧
      a'.deeds.filter Deed.isFinal = [.killed, .closed .stdout, .closed .stderr] ∧
      .waited false ∈ a'.deeds ∧ a'.stdout.delivered = [[104], [105, 33], []] ∧
      a'.stdout.delivered.flatten = [104, 105, 33] := by
  obtain ⟨deadline, opened, hlaunch⟩ : ∃ deadline opened,
      launch (attendedHost (scriptedHost undying none)) "java" [] 1 attending =
        (.ok (0, deadline), opened) := ⟨_, _, rfl⟩
  obtain ⟨raw, a', hrun, hraw, hfinal, hwaited, hphase, hdelivered⟩ : ∃ raw a',
      superviseFor (attendedHost (scriptedHost undying none)) 2 "java" [] (.int 1) attending =
        (.ok raw, a') ∧
      raw = { stdout := [104, 105, 33], stderr := [], exitCode := none, timedOut := true,
              cancelled := false } ∧
      a'.deeds.filter Deed.isFinal = [.killed, .closed .stdout, .closed .stderr] ∧
      .waited false ∈ a'.deeds ∧ a'.stdout.reader.phase = .atEnd ∧
      a'.stdout.delivered = [[104], [105, 33], []] :=
    ⟨_, _, rfl, rfl, rfl, by decide, rfl, rfl⟩
  obtain ⟨_, _, _, _, -, -, -, -, -, hgives⟩ :=
    superviseFor_releases rfl hlaunch ⟨rfl, rfl⟩ hrun
  have hstdout := (hgives raw rfl).1 hphase
  subst hraw
  exact ⟨a', hrun, rfl, rfl, rfl, hfinal, hwaited, hdelivered, hstdout.symm⟩

end AnalyzerBridge.Supervision
