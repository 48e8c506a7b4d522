/-
How a supervised run is classified.

A run returns with exactly one of an exit code, an expired deadline and a
cancellation, and the first round of the wait loop in which one of them can be
seen decides which:

* `leads_launch`, `leads_waitLoop`, `leads_release`, `leads_conclude` — what every operation of a
  phase does to the state, the phase does;
* `glance_decides` — one look obeys the order cancelled, exited, expired;
* `waitLoop_eq_ok_iff` — the loop ends with the first look that finds something,
  and every look before it found nothing;
* `superviseFor_eq_ok_iff` — a run that returns is a launch, a loop, a release and
  a report, and how many rounds there may be makes no difference to it;
* `superviseFor_classifies` — what is reported is what that look found.

Design notes: the host is arbitrary.  `Gauge` names what can be read off its state,
the clock and the code of the child, and `Lawful` asks of the operations that the
clock does not go back, that a code stays and that readings are true to the state;
nothing is asked of the token.  Between launch and report anything may happen: the
conditions of a round are about the state in which it begins.
-/
import AnalyzerBridge.Proofs.Act
import AnalyzerBridge.Supervision.Scripted

namespace AnalyzerBridge.Supervision

variable {σ α β : Type}

/-! ### What the phases of a run do to the state -/

section Phases

variable {R : σ → σ → Prop} [IsPreorder σ R] {host : Host σ} {deadline : Deadline}

theorem leads_start (hstart : ∀ argv, Act.Leads R (host.start argv))
    (hnote : ∀ r, Act.Leads R (host.note r)) (command : String) (args : List String) :
    Act.Leads R (start host command args) := by
  refine (hstart _).bind fun fault => ?_
  match fault with
  | none => exact Act.leads_pure ()
  | some (.refused detail wording) => exact (hnote _).bind fun _ => Act.leads_throw _
  | some (.rejected wording) => exact (hnote _).bind fun _ => Act.leads_throw _

theorem leads_launch (hstart : ∀ argv, Act.Leads R (host.start argv)) (hnow : Act.Leads R host.now)
    (hpid : Act.Leads R host.pidText) (hnote : ∀ r, Act.Leads R (host.note r))
    (hclose : Act.Leads R (host.close .stdin)) (command : String) (args : List String)
    (millis : Int) : Act.Leads R (launch host command args millis) :=
  (leads_start hstart hnote command args).bind fun _ => hnow.bind fun _ => hpid.bind fun _ =>
    (hnote _).bind fun _ => hclose.bind fun _ => hnow.bind fun _ =>
      (Act.leads_ofExcept _).bind fun _ => Act.leads_pure _

theorem leads_glance (hcancelled : Act.Leads R (isCancelled host)) (hpoll : Act.Leads R host.poll)
    (hnow : Act.Leads R host.now) : Act.Leads R (glance host deadline) := by
  refine hcancelled.bind fun cancelled => ?_
  cases cancelled with
  | true => exact Act.leads_pure _
  | false =>
    refine hpoll.bind fun code => ?_
    cases code with
    | some code => exact Act.leads_pure _
    | none =>
      refine hnow.bind fun t => ?_
      cases deadline.expired t with
      | true => exact Act.leads_pure _
      | false => exact Act.leads_pure _

theorem leads_doze (hnow : Act.Leads R host.now) (hrest : ∀ nanos, Act.Leads R (rest host nanos)) :
    Act.Leads R (doze host deadline) :=
  hnow.bind fun _ => (Act.leads_ofExcept _).bind fun _ => hrest _

theorem leads_waitLoop (hcancelled : Act.Leads R (isCancelled host)) (hpoll : Act.Leads R host.poll)
    (hnow : Act.Leads R host.now) (hrest : ∀ nanos, Act.Leads R (rest host nanos)) (rounds : Nat) :
    Act.Leads R (waitLoop host deadline rounds) := by
  induction rounds with
  | zero => exact Act.leads_throw _
  | succ rounds ih =>
    refine (leads_glance hcancelled hpoll hnow).bind fun found => ?_
    cases found with
    | some ending => exact Act.leads_pure _
    | none => exact (leads_doze hnow hrest).bind fun _ => ih

theorem leads_stopChild (hpoll : Act.Leads R host.poll) (hgroup : Act.Leads R host.killGroup)
    (hkill : Act.Leads R host.kill) (hwait : Act.Leads R (host.wait graceNanos))
    (hpid : Act.Leads R host.pidText) (hnote : ∀ r, Act.Leads R (host.note r)) :
    Act.Leads R (stopChild host) := by
  refine hpoll.bind fun code => ?_
  cases code with
  | some code => exact Act.leads_pure ()
  | none =>
    refine hgroup.bind fun _ => hkill.bind fun _ => hwait.bind fun ended => ?_
    cases ended with
    | true => exact Act.leads_pure ()
    | false => exact hpid.bind fun pid => hnote _

theorem leads_endReaders (hjoin : Act.Leads R host.joinReaders) (hpid : Act.Leads R host.pidText)
    (hnote : ∀ r, Act.Leads R (host.note r)) (hgroup : Act.Leads R host.killGroup) :
    Act.Leads R (endReaders host) := by
  refine hjoin.bind fun joined => ?_
  cases joined with
  | true => exact Act.leads_pure ()
  | false =>
    exact hpid.bind fun pid => (hnote _).bind fun _ => hgroup.bind fun _ => hjoin.bind fun _ =>
      Act.leads_pure ()

theorem leads_closeStreams (hclose : ∀ stream, Act.Leads R (host.close stream)) :
    Act.Leads R (closeStreams host) :=
  (hclose .stdin).bind fun _ => (hclose .stdout).bind fun _ => hclose .stderr

theorem leads_release (hpoll : Act.Leads R host.poll) (hgroup : Act.Leads R host.killGroup)
    (hkill : Act.Leads R host.kill) (hwait : Act.Leads R (host.wait graceNanos))
    (hjoin : Act.Leads R host.joinReaders) (hpid : Act.Leads R host.pidText)
    (hnote : ∀ r, Act.Leads R (host.note r)) (hclose : ∀ stream, Act.Leads R (host.close stream)) :
    Act.Leads R (release host) :=
  (leads_stopChild hpoll hgroup hkill hwait hpid hnote).bind fun _ =>
    (leads_endReaders hjoin hpid hnote hgroup).bind fun _ => leads_closeStreams hclose

theorem leads_conclude (hnow : Act.Leads R host.now) (hcode : Act.Leads R host.returncode)
    (hpid : Act.Leads R host.pidText) (hnote : ∀ r, Act.Leads R (host.note r))
    (hcollected : Act.Leads R host.collected) (ending : Ending) (startedAt : Int) (timeout : Value) :
    Act.Leads R (conclude host ending startedAt timeout) :=
  hnow.bind fun _ => hcode.bind fun _ => hpid.bind fun _ => (hnote _).bind fun _ =>
    hcollected.bind fun _ => Act.leads_pure _

end Phases

/-! ### What is asked of a host -/

/-- What the state of a host shows: the clock, and the code of the child once it has one. -/
structure Gauge (σ : Type) where
  clock : σ → Int
  code : σ → Option Int

namespace Gauge

variable {g : Gauge σ}

/-- One state can come after another: the clock has not gone back, and a code has stayed. -/
structure Before (g : Gauge σ) (s s' : σ) : Prop where
  clock_le : g.clock s ≤ g.clock s'
  code_stays : ∀ code, g.code s = some code → g.code s' = some code

theorem Before.refl (s : σ) : g.Before s s :=
  ⟨Int.le_refl _, fun _ h => h⟩

theorem Before.trans {s s₁ s₂ : σ} (h : g.Before s s₁) (h' : g.Before s₁ s₂) : g.Before s s₂ :=
  ⟨Int.le_trans h.clock_le h'.clock_le, fun code hc => h'.code_stays code (h.code_stays code hc)⟩

instance : IsPreorder σ g.Before where
  refl := Before.refl
  trans _ _ _ := Before.trans

end Gauge

/-- A host that is true to its state: its operations lead forward, the clock is read somewhere in
between, and the child is looked at when the look is over. -/
structure Lawful (host : Host σ) (g : Gauge σ) : Prop where
  now_forward : Act.Leads g.Before host.now
  pidText_forward : Act.Leads g.Before host.pidText
  poll_forward : Act.Leads g.Before host.poll
  returncode_forward : Act.Leads g.Before host.returncode
  wait_forward : ∀ nanos, Act.Leads g.Before (host.wait nanos)
  kill_forward : Act.Leads g.Before host.kill
  killGroup_forward : Act.Leads g.Before host.killGroup
  joinReaders_forward : Act.Leads g.Before host.joinReaders
  close_forward : ∀ stream, Act.Leads g.Before (host.close stream)
  collected_forward : Act.Leads g.Before host.collected
  note_forward : ∀ r, Act.Leads g.Before (host.note r)
  now_reads : ∀ s t s', host.now s = (.ok t, s') → g.clock s ≤ t ∧ t ≤ g.clock s'
  poll_reads : ∀ s code s', host.poll s = (.ok code, s') → code = g.code s'
  returncode_reads : ∀ s code s', host.returncode s = (.ok code, s') → code = g.code s'

variable {g : Gauge σ} {host : Host σ}

/-- A release leads forward. -/
theorem Lawful.release_forward (h : Lawful host g) : Act.Leads g.Before (release host) :=
  leads_release h.poll_forward h.killGroup_forward h.kill_forward (h.wait_forward graceNanos)
    h.joinReaders_forward h.pidText_forward h.note_forward h.close_forward

/-! ### A scripted child -/

/-- What the stage of a rehearsed run shows. -/
def stageGauge : Gauge Stage where
  clock := Stage.clock
  code := Stage.returned

theorem before_noticeExit (script : Script) (s : Stage) : stageGauge.Before s (s.noticeExit script) := by
  rw [Stage.noticeExit]
  split
  next hreturned hstarted hafter =>
    split
    · exact ⟨Int.le_refl _, fun code h => absurd (hreturned.symm.trans h) (by simp)⟩
    · exact Gauge.Before.refl s
  next => exact Gauge.Before.refl s

theorem before_did (s : Stage) (e : Event) : stageGauge.Before s (s.did e) :=
  ⟨Int.le_refl _, fun _ h => h⟩

theorem before_advance (s : Stage) (nanos : Nat) : stageGauge.Before s (s.advance nanos) :=
  ⟨by show s.clock ≤ s.clock + nanos; omega, fun _ h => h⟩

/-- Every scripted child is on a lawful host, whatever becomes of its token. -/
theorem scriptedHost_lawful (script : Script) (cancellation : Option (Cancellation Stage)) :
    Lawful (scriptedHost script cancellation) stageGauge where
  now_forward s := Gauge.Before.refl s
  pidText_forward s := Gauge.Before.refl s
  poll_forward s := before_noticeExit script s
  returncode_forward s := Gauge.Before.refl s
  wait_forward nanos s := by
    have hfirst := (before_did s (.waited nanos)).trans (before_noticeExit script _)
    simp only [scriptedHost]
    split
    · exact hfirst
    · exact (hfirst.trans (before_advance _ nanos)).trans (before_noticeExit script _)
  kill_forward s := by
    simp only [scriptedHost, Act.change_apply]
    split
    · exact before_did s .killed
    next h =>
      refine ⟨Int.le_refl _, fun code hcode => absurd ?_ h⟩
      have hreturned : s.returned = some code := hcode
      simp [Stage.did, hreturned]
  killGroup_forward s := Gauge.Before.refl s
  joinReaders_forward s := Gauge.Before.refl s
  close_forward stream s := by
    simp only [scriptedHost, Act.change_apply]
    split
    · exact Gauge.Before.refl s
    · exact ⟨Int.le_refl _, fun _ h => h⟩
  collected_forward s := Gauge.Before.refl s
  note_forward r s := ⟨Int.le_refl _, fun _ h => h⟩
  now_reads s t s' h := by
    obtain ⟨ht, rfl⟩ := Prod.mk.inj h
    obtain rfl := Except.ok.inj ht
    exact ⟨Int.le_refl _, Int.le_refl _⟩
  poll_reads s code s' h := by
    obtain ⟨hcode, rfl⟩ := Prod.mk.inj h
    exact (Except.ok.inj hcode).symm
  returncode_reads s code s' h := by
    obtain ⟨hcode, rfl⟩ := Prod.mk.inj h
    exact (Except.ok.inj hcode).symm

/-! ### One look at the child -/

/-- In a round that begins in a state, the token is seen to be cancelled. -/
def CancelledAt (host : Host σ) (s : σ) : Prop :=
  ∃ s₁, isCancelled host s = (.ok true, s₁)

/-- In a round that begins in a state, the child is seen to have exited, whatever the token says. -/
def ExitedAt (host : Host σ) (s : σ) : Prop :=
  ∃ code s₁, (do let _ ← isCancelled host; host.poll : Act σ (Option Int)) s = (.ok (some code), s₁)

/-- In a round that begins in a state, the deadline is seen to have passed, whatever the token says and
whether or not the child is seen to have exited. -/
def ExpiredAt (host : Host σ) (deadline : Deadline) (s : σ) : Prop :=
  ∃ t s₁, (do let _ ← isCancelled host; let _ ← host.poll; host.now : Act σ Int) s = (.ok t, s₁) ∧
    deadline.mark ≤ t

/-- The end that a round comes to, or none, as the conditions in its order of precedence have it. -/
def Decides (host : Host σ) (deadline : Deadline) (s : σ) : Option Ending → Prop
  | some .cancelled => CancelledAt host s
  | some .exited => ¬ CancelledAt host s ∧ ExitedAt host s
  | some .timedOut => ¬ CancelledAt host s ∧ ¬ ExitedAt host s ∧ ExpiredAt host deadline s
  | none => ¬ CancelledAt host s ∧ ¬ ExitedAt host s ∧ ¬ ExpiredAt host deadline s

variable {deadline : Deadline}

/-- A look ends at the first of its readings that finds something. -/
theorem glance_cases {s s' : σ} {found : Option Ending}
    (h : glance host deadline s = (.ok found, s')) :
    (isCancelled host s = (.ok true, s') ∧ found = some .cancelled) ∨
      ∃ s₁, isCancelled host s = (.ok false, s₁) ∧
        ((∃ code, host.poll s₁ = (.ok (some code), s') ∧ found = some .exited) ∨
          ∃ s₂ t, host.poll s₁ = (.ok none, s₂) ∧ host.now s₂ = (.ok t, s') ∧
            found = if deadline.expired t then some .timedOut else none) := by
  rw [glance] at h
  obtain ⟨cancelled, s₁, hcancelled, h⟩ := Act.ok_of_bind h
  cases cancelled with
  | true =>
    obtain ⟨hfound, rfl⟩ := Prod.mk.inj h
    exact Or.inl ⟨hcancelled, (Except.ok.inj hfound).symm⟩
  | false =>
    refine Or.inr ⟨s₁, hcancelled, ?_⟩
    obtain ⟨code, s₂, hpoll, h⟩ := Act.ok_of_bind h
    cases code with
    | some code =>
      obtain ⟨hfound, rfl⟩ := Prod.mk.inj h
      exact Or.inl ⟨code, hpoll, (Except.ok.inj hfound).symm⟩
    | none =>
      obtain ⟨t, s₃, hnow, h⟩ := Act.ok_of_bind h
      refine Or.inr ⟨s₂, t, hpoll, ?_⟩
      cases hexpired : deadline.expired t with
      | true =>
        rw [hexpired] at h
        obtain ⟨hfound, rfl⟩ := Prod.mk.inj h
        exact ⟨hnow, (Except.ok.inj hfound).symm⟩
      | false =>
        rw [hexpired] at h
        obtain ⟨hfound, rfl⟩ := Prod.mk.inj h
        exact ⟨hnow, (Except.ok.inj hfound).symm⟩

theorem cancelledAt_iff {s s₁ : σ} {cancelled : Bool} (h : isCancelled host s = (.ok cancelled, s₁)) :
    CancelledAt host s ↔ cancelled = true := by
  constructor
  · rintro ⟨s', h'⟩
    exact Except.ok.inj (Prod.mk.inj (h.symm.trans h')).1
  · rintro rfl
    exact ⟨s₁, h⟩

theorem exitedAt_iff {s s₁ s₂ : σ} {cancelled : Bool} {code : Option Int}
    (h : isCancelled host s = (.ok cancelled, s₁)) (hpoll : host.poll s₁ = (.ok code, s₂)) :
    ExitedAt host s ↔ code.isSome = true := by
  rw [ExitedAt, Act.run_bind h, hpoll, Option.isSome_iff_exists]
  constructor
  · rintro ⟨c, s', h⟩
    exact ⟨c, Except.ok.inj (Prod.mk.inj h).1⟩
  · rintro ⟨c, rfl⟩
    exact ⟨c, s₂, rfl⟩

theorem expiredAt_iff {s s₁ s₂ s₃ : σ} {cancelled : Bool} {code : Option Int} {t : Int}
    (h : isCancelled host s = (.ok cancelled, s₁)) (hpoll : host.poll s₁ = (.ok code, s₂))
    (hnow : host.now s₂ = (.ok t, s₃)) :
    ExpiredAt host deadline s ↔ deadline.expired t = true := by
  rw [ExpiredAt, Act.run_bind h, Act.run_bind hpoll, hnow, Deadline.expired, decide_eq_true_iff]
  constructor
  · rintro ⟨t', s', h, hle⟩
    obtain rfl : t = t' := Except.ok.inj (Prod.mk.inj h).1
    exact hle
  · exact fun hle => ⟨t, s₃, rfl, hle⟩

/-- What a look finds is what the conditions decide. -/
theorem glance_decides {s s' : σ} {found : Option Ending}
    (h : glance host deadline s = (.ok found, s')) : Decides host deadline s found := by
  rcases glance_cases h with ⟨hcancelled, rfl⟩ | ⟨s₁, hcancelled, h⟩
  · exact ⟨s', hcancelled⟩
  · have hnot : ¬ CancelledAt host s := by
      rw [cancelledAt_iff hcancelled]
      simp
    rcases h with ⟨code, hpoll, rfl⟩ | ⟨s₂, t, hpoll, hnow, rfl⟩
    · exact ⟨hnot, (exitedAt_iff hcancelled hpoll).mpr rfl⟩
    · have hrunning : ¬ ExitedAt host s := by
        rw [exitedAt_iff hcancelled hpoll]
        simp
      have hexpired : ExpiredAt host deadline s ↔ deadline.expired t = true :=
        expiredAt_iff hcancelled hpoll hnow
      cases ht : deadline.expired t with
      | true => exact ⟨hnot, hrunning, hexpired.mpr ht⟩
      | false =>
        refine ⟨hnot, hrunning, fun h => ?_⟩
        rw [hexpired, ht] at h
        exact absurd h (by simp)

theorem Decides.cancelled_iff {s : σ} {ending : Ending} (h : Decides host deadline s (some ending)) :
    ending = .cancelled ↔ CancelledAt host s := by
  cases ending with
  | exited => exact iff_of_false (by simp) h.1
  | timedOut => exact iff_of_false (by simp) h.1
  | cancelled => exact iff_of_true rfl h

theorem Decides.exited_iff {s : σ} {ending : Ending} (h : Decides host deadline s (some ending)) :
    ending = .exited ↔ ¬ CancelledAt host s ∧ ExitedAt host s := by
  cases ending with
  | exited => exact iff_of_true rfl h
  | timedOut => exact iff_of_false (by simp) fun hexited => h.2.1 hexited.2
  | cancelled => exact iff_of_false (by simp) fun hexited => hexited.1 h

theorem Decides.timedOut_iff {s : σ} {ending : Ending} (h : Decides host deadline s (some ending)) :
    ending = .timedOut ↔
      ¬ CancelledAt host s ∧ ¬ ExitedAt host s ∧ ExpiredAt host deadline s := by
  cases ending with
  | exited => exact iff_of_false (by simp) fun hexpired => hexpired.2.1 h.2
  | timedOut => exact iff_of_true rfl h
  | cancelled => exact iff_of_false (by simp) fun hexpired => hexpired.1 h

/-! ### The wait loop -/

/-- The wait goes on through rounds that find nothing, from one state to another. -/
inductive Waits (host : Host σ) (deadline : Deadline) : List σ → σ → σ → Prop
  | done (s : σ) : Waits host deadline [] s s
  | round {s s₁ s₂ last : σ} {passed : List σ} (hglance : glance host deadline s = (.ok none, s₁))
      (hdoze : doze host deadline s₁ = (.ok (), s₂)) (hwaits : Waits host deadline passed s₂ last) :
      Waits host deadline (s :: passed) s last

/-- A round that is passed has nothing to decide. -/
theorem Waits.decides_none {s last : σ} {passed : List σ} (h : Waits host deadline passed s last) :
    ∀ round ∈ passed, Decides host deadline round none := by
  induction h with
  | done s => simp
  | round hglance hdoze hwaits ih =>
    intro round hround
    rcases List.mem_cons.mp hround with rfl | hround
    · exact glance_decides hglance
    · exact ih round hround

/-- The loop ends with the first look that finds something. -/
theorem waitLoop_eq_ok_iff {rounds : Nat} {s s' : σ} {ending : Ending} :
    waitLoop host deadline rounds s = (.ok ending, s') ↔
      ∃ passed last, passed.length < rounds ∧ Waits host deadline passed s last ∧
        glance host deadline last = (.ok (some ending), s') := by
  constructor
  · intro h
    induction rounds generalizing s with
    | zero => exact absurd (Prod.mk.inj h).1 (by simp)
    | succ rounds ih =>
      obtain ⟨found, s₁, hglance, h⟩ := Act.ok_of_bind h
      cases found with
      | some found =>
        obtain ⟨hending, rfl⟩ := Prod.mk.inj h
        obtain rfl := Except.ok.inj hending
        exact ⟨[], s, Nat.succ_pos rounds, .done s, hglance⟩
      | none =>
        obtain ⟨_, s₂, hdoze, h⟩ := Act.ok_of_bind h
        obtain ⟨passed, last, hlt, hwaits, hlast⟩ := ih h
        exact ⟨s :: passed, last, Nat.succ_lt_succ hlt, .round hglance hdoze hwaits, hlast⟩
  · rintro ⟨passed, last, hlt, hwaits, hlast⟩
    induction hwaits generalizing rounds with
    | done s =>
      obtain ⟨rounds, rfl⟩ : ∃ n, rounds = n + 1 := ⟨rounds - 1, by simp at hlt; omega⟩
      rw [waitLoop, Act.run_bind hlast]
      rfl
    | round hglance hdoze hwaits ih =>
      obtain ⟨rounds, rfl⟩ : ∃ n, rounds = n + 1 := ⟨rounds - 1, by simp at hlt; omega⟩
      rw [waitLoop, Act.run_bind hglance]
      exact (Act.run_bind hdoze _).trans (ih (Nat.lt_of_succ_lt_succ hlt) hlast)

/-! ### A whole run -/

/-- The course of a run up to the end of its wait: the state right after the start and the mark taken
there, the deadline, the state in which the wait begins, the rounds that found nothing and the one that
found something. -/
structure Course (σ : Type) where
  millis : Int
  spawned : σ
  startedAt : Int
  deadline : Deadline
  opened : σ
  passed : List σ
  last : σ

/-- A run of a command takes a course. -/
structure Takes (host : Host σ) (command : String) (args : List String) (timeout : Value) (s : σ)
    (c : Course σ) : Prop where
  millis_eq : timeout.toInteger = .ok c.millis
  millis_pos : 0 < c.millis
  started : start host command args s = (.ok (), c.spawned)
  marked : ∃ s₁, host.now c.spawned = (.ok c.startedAt, s₁)
  launched : launch host command args c.millis s = (.ok (c.startedAt, c.deadline), c.opened)
  waits : Waits host c.deadline c.passed c.opened c.last
  ended : ∃ ending s', glance host c.deadline c.last = (.ok (some ending), s')

variable {command : String} {args : List String} {timeout : Value}

theorem allowance_eq_ok {millis : Int} (h : allowance command timeout = .ok millis) :
    timeout.toInteger = .ok millis ∧ 0 < millis := by
  rw [allowance] at h
  split at h
  · exact absurd h (by simp)
  · split at h
    · exact absurd h (by simp)
    · split at h
      · exact absurd h (by simp)
      next given hgiven hpos =>
        obtain rfl := Except.ok.inj h
        exact ⟨hgiven, Int.not_le.mp hpos⟩

/-- A command may take any positive number of milliseconds. -/
theorem allowance_of_pos {millis : Int} (hcommand : command ≠ "") (hpos : 0 < millis) :
    allowance command (.int millis) = .ok millis := by
  rw [allowance, if_neg hcommand]
  show (if millis ≤ 0 then _ else _) = _
  rw [if_neg (Int.not_le.mpr hpos)]

/-- The deadline of a number of milliseconds. -/
theorem ofMillis_eq {now millis : Int} (h : 0 < millis) :
    Deadline.ofMillis now (.int millis) = .ok ⟨now + millis * nanosPerMilli⟩ := by
  have hmillis : ¬ millis < 0 := by omega
  have hnanos : ¬ (nanosPerMilli : Int) ≤ 0 := by decide
  rw [Deadline.ofMillis, Deadline.ofTicks]
  simp only [Value.toInteger, if_neg hmillis, if_neg hnanos]

/-- A launch starts the child, marks the clock, writes a record, closes a stream and reads the clock
again for the deadline. -/
theorem launch_eq_ok {millis startedAt : Int} {s s' : σ} (hpos : 0 < millis)
    (h : launch host command args millis s = (.ok (startedAt, deadline), s')) :
    ∃ spawned s₁ pid s₂ r s₃ s₄ t, start host command args s = (.ok (), spawned) ∧
      host.now spawned = (.ok startedAt, s₁) ∧ host.pidText s₁ = (.ok pid, s₂) ∧
      host.note r s₂ = (.ok (), s₃) ∧ host.close .stdin s₃ = (.ok (), s₄) ∧
      host.now s₄ = (.ok t, s') ∧ deadline = ⟨t + millis * nanosPerMilli⟩ := by
  obtain ⟨_, spawned, hstart, h⟩ := Act.ok_of_bind h
  obtain ⟨mark, s₁, hmark, h⟩ := Act.ok_of_bind h
  obtain ⟨pid, s₂, hpid, h⟩ := Act.ok_of_bind h
  obtain ⟨_, s₃, hnote, h⟩ := Act.ok_of_bind h
  obtain ⟨_, s₄, hclose, h⟩ := Act.ok_of_bind h
  obtain ⟨t, s₅, hnow, h⟩ := Act.ok_of_bind h
  obtain ⟨d, s₆, hdeadline, hlast⟩ := Act.ok_of_bind h
  obtain ⟨hd, rfl⟩ := Act.ok_of_ofExcept hdeadline
  obtain ⟨hpair, rfl⟩ := Prod.mk.inj hlast
  obtain ⟨rfl, rfl⟩ := Prod.mk.inj (Except.ok.inj hpair)
  exact ⟨spawned, s₁, pid, s₂, _, s₃, s₄, t, hstart, hmark, hpid, hnote, hclose, hnow,
    (Except.ok.inj ((ofMillis_eq hpos).symm.trans hd)).symm⟩

/-- The deadline lies the whole time after the mark, since the clock does not go back. -/
theorem mark_of_launch (hlaw : Lawful host g) {millis startedAt : Int} {s s' : σ} (hpos : 0 < millis)
    (h : launch host command args millis s = (.ok (startedAt, deadline), s')) :
    startedAt + millis * nanosPerMilli ≤ deadline.mark := by
  obtain ⟨spawned, s₁, pid, s₂, r, s₃, s₄, t, -, hmark, hpid, hnote, hclose, hnow, rfl⟩ :=
    launch_eq_ok hpos h
  have hbetween : g.Before s₁ s₄ :=
    (hlaw.pidText_forward.of_eq hpid).trans
      ((hlaw.note_forward r |>.of_eq hnote).trans ((hlaw.close_forward _).of_eq hclose))
  have hbefore : startedAt ≤ g.clock s₁ := (hlaw.now_reads _ _ _ hmark).2
  have hafter : g.clock s₄ ≤ t := (hlaw.now_reads _ _ _ hnow).1
  have hclock : g.clock s₁ ≤ g.clock s₄ := hbetween.clock_le
  show startedAt + millis * nanosPerMilli ≤ t + millis * nanosPerMilli
  omega

/-- What is reported agrees with the end of the wait. -/
structure Reports (raw : RawOutput) (ending : Ending) : Prop where
  exitCode_eq : raw.exitCode.isSome = (ending == .exited)
  timedOut_eq : raw.timedOut = (ending == .timedOut)
  cancelled_eq : raw.cancelled = (ending == .cancelled)

/-- Exactly one thing is reported. -/
theorem Reports.count_eq_one {raw : RawOutput} {ending : Ending} (h : Reports raw ending) :
    [raw.exitCode.isSome, raw.timedOut, raw.cancelled].count true = 1 := by
  rw [h.exitCode_eq, h.timedOut_eq, h.cancelled_eq]
  cases ending <;> rfl

/-- A report reads the clock and the code, writes a record and collects the streams. -/
theorem conclude_eq_ok {ending : Ending} {startedAt : Int} {s s' : σ} {raw : RawOutput}
    (h : conclude host ending startedAt timeout s = (.ok raw, s')) :
    ∃ t s₁ code s₂ pid s₃ r s₄ streams, host.now s = (.ok t, s₁) ∧
      host.returncode s₁ = (.ok code, s₂) ∧ host.pidText s₂ = (.ok pid, s₃) ∧
      host.note r s₃ = (.ok (), s₄) ∧ host.collected s₄ = (.ok streams, s') ∧
      raw = rawOutput ending code streams := by
  obtain ⟨t, s₁, hnow, h⟩ := Act.ok_of_bind h
  obtain ⟨code, s₂, hcode, h⟩ := Act.ok_of_bind h
  obtain ⟨pid, s₃, hpid, h⟩ := Act.ok_of_bind h
  obtain ⟨_, s₄, hnote, h⟩ := Act.ok_of_bind h
  obtain ⟨streams, s₅, hstreams, h⟩ := Act.ok_of_bind h
  obtain ⟨hraw, rfl⟩ := Prod.mk.inj h
  exact ⟨t, s₁, code, s₂, pid, s₃, _, s₄, streams, hnow, hcode, hpid, hnote, hstreams,
    (Except.ok.inj hraw).symm⟩

/-- The report agrees with the end of the wait if a child that was seen to have exited has a code, and
the code it gives is the one that the child has. -/
theorem conclude_reports (hlaw : Lawful host g) {ending : Ending} {startedAt : Int} {s s' : σ}
    {raw : RawOutput} (h : conclude host ending startedAt timeout s = (.ok raw, s'))
    (hexited : ending = .exited → ∃ code, g.code s = some code) :
    Reports raw ending ∧ ∀ code, raw.exitCode = some code → g.code s' = some code := by
  obtain ⟨t, s₁, code, s₂, pid, s₃, r, s₄, streams, hnow, hcode, hpid, hnote, hstreams, rfl⟩ :=
    conclude_eq_ok h
  have hread : code = g.code s₂ := hlaw.returncode_reads _ _ _ hcode
  have hbefore : g.Before s s₂ :=
    (hlaw.now_forward.of_eq hnow).trans (hlaw.returncode_forward.of_eq hcode)
  have hafter : g.Before s₂ s' :=
    (hlaw.pidText_forward.of_eq hpid).trans
      ((hlaw.note_forward r |>.of_eq hnote).trans (hlaw.collected_forward.of_eq hstreams))
  cases ending with
  | timedOut => exact ⟨⟨rfl, rfl, rfl⟩, fun c hc => absurd hc (by simp [rawOutput])⟩
  | cancelled => exact ⟨⟨rfl, rfl, rfl⟩, fun c hc => absurd hc (by simp [rawOutput])⟩
  | exited =>
    -- the code was there when the report began, so it is what is read now
    obtain ⟨c, hc⟩ := hexited rfl
    obtain rfl : code = some c := hread.trans (hbefore.code_stays c hc)
    refine ⟨⟨rfl, rfl, rfl⟩, fun c' hc' => ?_⟩
    obtain rfl : c = c' := Option.some_inj.mp hc'
    exact hafter.code_stays c hread.symm

/-- After a launch a run is the wait, with the release at its end, and the report. -/
theorem superviseFor_after_launch {millis startedAt : Int} (rounds : Nat) {s opened : σ}
    (hallowed : allowance command timeout = .ok millis)
    (hlaunch : launch host command args millis s = (.ok (startedAt, deadline), opened)) :
    superviseFor host rounds command args timeout s =
      (Act.ensuring (waitLoop host deadline rounds) (release host) >>= fun ending =>
        conclude host ending startedAt timeout) opened := by
  have hfirst : (Act.ofExcept (allowance command timeout) : Act σ Int) s = (.ok millis, s) := by
    rw [Act.ofExcept_apply, hallowed]
  rw [superviseFor, Act.run_bind hfirst, Act.run_bind hlaunch]

/-- A run that returns is a launch, a wait, a release and a report. -/
theorem superviseFor_eq_ok_iff {rounds : Nat} {s s' : σ} {raw : RawOutput} :
    superviseFor host rounds command args timeout s = (.ok raw, s') ↔
      ∃ millis startedAt deadline s₁ ending s₂ s₃, allowance command timeout = .ok millis ∧
        launch host command args millis s = (.ok (startedAt, deadline), s₁) ∧
        waitLoop host deadline rounds s₁ = (.ok ending, s₂) ∧ release host s₂ = (.ok (), s₃) ∧
        conclude host ending startedAt timeout s₃ = (.ok raw, s') := by
  constructor
  · intro hrun
    obtain ⟨millis, s₀, hfirst, h⟩ := Act.ok_of_bind hrun
    obtain ⟨hallowed, rfl⟩ := Act.ok_of_ofExcept hfirst
    obtain ⟨⟨startedAt, deadline⟩, s₁, hlaunch, h⟩ := Act.ok_of_bind h
    obtain ⟨ending, s₃, hwait, h⟩ := Act.ok_of_bind h
    rw [Act.ensuring_apply] at hwait
    rcases hrelease : release host (waitLoop host deadline rounds s₁).2 with ⟨fault | ⟨⟩, s₄⟩
    · rw [hrelease] at hwait
      exact absurd (Prod.mk.inj hwait).1 (by simp)
    · rw [hrelease] at hwait
      obtain ⟨hending, rfl⟩ := Prod.mk.inj hwait
      exact ⟨millis, startedAt, deadline, s₁, ending, _, s₄, hallowed, hlaunch,
        Prod.ext hending rfl, hrelease, h⟩
  · rintro ⟨millis, startedAt, deadline, s₁, ending, s₂, s₃, hallowed, hlaunch, hwait, hrelease,
      hconclude⟩
    have hensured : Act.ensuring (waitLoop host deadline rounds) (release host) s₁ =
        (.ok ending, s₃) := by
      rw [Act.ensuring_apply, hwait]
      simp only [hrelease]
    rw [superviseFor_after_launch rounds hallowed hlaunch]
    exact (Act.run_bind hensured _).trans hconclude

/-- A run that returns takes a course to the look that ends the wait, and then releases and reports. -/
theorem exists_course {rounds : Nat} {s s' : σ} {raw : RawOutput}
    (hrun : superviseFor host rounds command args timeout s = (.ok raw, s')) :
    ∃ (c : Course σ) (ending : Ending) (s₁ s₂ : σ), Takes host command args timeout s c ∧
      glance host c.deadline c.last = (.ok (some ending), s₁) ∧ release host s₁ = (.ok (), s₂) ∧
      conclude host ending c.startedAt timeout s₂ = (.ok raw, s') := by
  obtain ⟨millis, startedAt, deadline, opened, ending, s₁, s₂, hallowed, hlaunch, hwait, hrelease,
    hconclude⟩ := superviseFor_eq_ok_iff.mp hrun
  obtain ⟨hmillis, hpos⟩ := allowance_eq_ok hallowed
  obtain ⟨passed, last, -, hwaits, hglance⟩ := waitLoop_eq_ok_iff.mp hwait
  obtain ⟨spawned, marked, -, -, -, -, -, -, hstart, hmark, -⟩ := launch_eq_ok hpos hlaunch
  exact ⟨⟨millis, spawned, startedAt, deadline, opened, passed, last⟩, ending, s₁, s₂,
    ⟨hmillis, hpos, hstart, ⟨marked, hmark⟩, hlaunch, hwaits, ending, s₁, hglance⟩, hglance, hrelease,
    hconclude⟩

/-- A child that a look finds to have exited has a code. -/
theorem code_of_glance (hlaw : Lawful host g) {s s' : σ}
    (h : glance host deadline s = (.ok (some .exited), s')) : ∃ code, g.code s' = some code := by
  rcases glance_cases h with ⟨-, hfound⟩ | ⟨s₁, -, ⟨code, hpoll, -⟩ | ⟨s₂, t, -, -, hfound⟩⟩
  · exact absurd hfound (by simp)
  · exact ⟨code, (hlaw.poll_reads _ _ _ hpoll).symm⟩
  · split at hfound <;> exact absurd hfound (by simp)

/-- A run that returns reports exactly one of an exit code, an expired deadline and a cancellation: that
which decides the first round that is not passed.  An expired deadline lies the whole time after the
start, and the child was running when the clock was read; a code is that of the child. -/
theorem superviseFor_classifies (hlaw : Lawful host g) {rounds : Nat} {s s' : σ} {raw : RawOutput}
    (hrun : superviseFor host rounds command args timeout s = (.ok raw, s')) :
    ∃ c : Course σ, Takes host command args timeout s c ∧
      [raw.exitCode.isSome, raw.timedOut, raw.cancelled].count true = 1 ∧
      (∀ round ∈ c.passed, ¬ CancelledAt host round ∧ ¬ ExitedAt host round ∧
        ¬ ExpiredAt host c.deadline round) ∧
      (raw.cancelled = true ↔ CancelledAt host c.last) ∧
      (raw.exitCode.isSome = true ↔ ¬ CancelledAt host c.last ∧ ExitedAt host c.last) ∧
      (raw.timedOut = true ↔ ¬ CancelledAt host c.last ∧ ¬ ExitedAt host c.last ∧
        ExpiredAt host c.deadline c.last) ∧
      (raw.timedOut = true → ∃ s₁ s₂ s₃ t, isCancelled host c.last = (.ok false, s₁) ∧
        host.poll s₁ = (.ok none, s₂) ∧ host.now s₂ = (.ok t, s₃) ∧
        c.startedAt + c.millis * nanosPerMilli ≤ t) ∧
      (∀ round ∈ c.passed ++ [c.last], ExitedAt host round → raw.timedOut = false) ∧
      ∀ code, raw.exitCode = some code → g.code s' = some code := by
  obtain ⟨c, ending, s₁, s₂, htakes, hglance, hrelease, hconclude⟩ := exists_course hrun
  have hdecides : Decides host c.deadline c.last (some ending) := glance_decides hglance
  have hpassed := htakes.waits.decides_none
  have hmark : c.startedAt + c.millis * nanosPerMilli ≤ c.deadline.mark :=
    mark_of_launch hlaw htakes.millis_pos htakes.launched
  obtain ⟨hreports, hcode⟩ := conclude_reports hlaw hconclude fun hexited => by
    -- a code that was seen is still there after the release
    subst hexited
    obtain ⟨code, hcode⟩ := code_of_glance hlaw hglance
    exact ⟨code, (hlaw.release_forward.of_eq hrelease).code_stays code hcode⟩
  have htimedOut : raw.timedOut = true ↔ ¬ CancelledAt host c.last ∧ ¬ ExitedAt host c.last ∧
      ExpiredAt host c.deadline c.last := by
    rw [hreports.timedOut_eq, beq_iff_eq]
    exact hdecides.timedOut_iff
  refine ⟨c, htakes, hreports.count_eq_one, hpassed, ?_, ?_, htimedOut, fun h => ?_,
    fun round hround hexited => ?_, hcode⟩
  · rw [hreports.cancelled_eq, beq_iff_eq]
    exact hdecides.cancelled_iff
  · rw [hreports.exitCode_eq, beq_iff_eq]
    exact hdecides.exited_iff
  · obtain rfl : ending = .timedOut := by
      rw [hreports.timedOut_eq, beq_iff_eq] at h
      exact h
    rcases glance_cases hglance with ⟨-, hfound⟩ | ⟨s₃, hcancelled, ⟨code, -, hfound⟩ |
      ⟨s₄, t, hpoll, hnow, hfound⟩⟩
    · exact absurd hfound (by simp)
    · exact absurd hfound (by simp)
    · refine ⟨s₃, s₄, s₁, t, hcancelled, hpoll, hnow, ?_⟩
      split at hfound
      next hexpired =>
        have hle : c.deadline.mark ≤ t := of_decide_eq_true hexpired
        omega
      next => exact absurd hfound (by simp)
  · rw [← Bool.not_eq_true, htimedOut]
    rintro ⟨-, hrunning, -⟩
    rcases List.mem_append.mp hround with hround | hround
    · exact (hpassed round hround).2.1 hexited
    · obtain rfl := List.mem_singleton.mp hround
      exact hrunning hexited

/-- A child that exits with code 7 a millisecond after its start. -/
def photoFinish : Script := { exitAfter := some 1000000, returnCode := 7 }

/-- A child that exits at the very moment of its deadline has exited. -/
theorem superviseFor_classifies_photoFinish :
    Lawful (scriptedHost photoFinish none) stageGauge ∧
      ∃ raw s', superviseFor (scriptedHost photoFinish none) 2 "java" [] (.int 1) {} = (.ok raw, s') ∧
        s'.clock = 1000000 ∧ raw.exitCode = some 7 ∧ raw.timedOut = false ∧
        [raw.exitCode.isSome, raw.timedOut, raw.cancelled].count true = 1 := by
  have hlaw : Lawful (scriptedHost photoFinish none) stageGauge := scriptedHost_lawful photoFinish none
  obtain ⟨raw, s', hrun, hclock, hcode, htime⟩ : ∃ raw s',
      superviseFor (scriptedHost photoFinish none) 2 "java" [] (.int 1) {} = (.ok raw, s') ∧
        s'.clock = 1000000 ∧ raw.exitCode = some 7 ∧ raw.timedOut = false :=
    ⟨_, _, rfl, rfl, rfl, rfl⟩
  obtain ⟨c, -, hcount, -⟩ := superviseFor_classifies hlaw hrun
  exact ⟨hlaw, raw, s', hrun, hclock, hcode, htime, hcount⟩

end AnalyzerBridge.Supervision
