/-
When the wait for a child ends.

A wait that moves the clock by the interval waited ends in time: one round takes it a whole
interval on, or to the deadline, or to a state in which the next look finds something.

* `round_cases` — what one round comes to;
* `waits_in_time` — hence so many rounds are passed at most as intervals lie before the
  deadline;
* `scriptedHost_punctual` — every scripted child is on such a host;
* `waitLoop_in_time` — with a deadline that can be told in seconds the loop ends within the
  rounds that its milliseconds call for, and not for its deadline before it.

Design notes: a wait may end early if the child exits or the token is cancelled, because the
next look finds so.  Nothing is asked of the child or of the token beyond that, so that it may
never exit.
-/
import AnalyzerBridge.Proofs.Quotient
import AnalyzerBridge.Proofs.Supervision
import Mathlib.Data.Rat.Floor

namespace AnalyzerBridge.Supervision

variable {σ : Type} {host : Host σ} {deadline : Deadline} {clock : σ → Int}

/-! ### What is asked of a host -/

/-- The readings and the waits of a host do not fail. -/
structure Responsive (host : Host σ) : Prop where
  cancelled_succeeds : Act.Succeeds (isCancelled host)
  poll_succeeds : Act.Succeeds host.poll
  now_succeeds : Act.Succeeds host.now
  rest_succeeds : ∀ nanos, Act.Succeeds (rest host nanos)

/-- The clock has not gone back from one state to another. -/
def Onward (clock : σ → Int) (s s' : σ) : Prop :=
  clock s ≤ clock s'

instance : IsPreorder σ (Onward clock) where
  refl _ := Int.le_refl _
  trans _ _ _ := Int.le_trans

/-- The clock of a host does not go back, is read somewhere in between, and moves by the whole interval in a
wait, unless the next look finds the token cancelled or the child exited. -/
structure Punctual (host : Host σ) (clock : σ → Int) : Prop where
  cancelled_onward : Act.Leads (Onward clock) (isCancelled host)
  poll_onward : Act.Leads (Onward clock) host.poll
  now_reads : ∀ s t s', host.now s = (.ok t, s') → clock s ≤ t ∧ t ≤ clock s'
  rest_advances : ∀ nanos s s', rest host nanos s = (.ok (), s') →
    clock s + nanos ≤ clock s' ∨ CancelledAt host s' ∨ ExitedAt host s'

/-! ### One round -/

theorem Responsive.glance_succeeds (h : Responsive host) (deadline : Deadline) :
    Act.Succeeds (glance host deadline) := by
  refine h.cancelled_succeeds.bind fun cancelled => ?_
  cases cancelled with
  | true => exact Act.succeeds_pure _
  | false =>
    refine h.poll_succeeds.bind fun code => ?_
    cases code with
    | some code => exact Act.succeeds_pure _
    | none =>
      refine h.now_succeeds.bind fun t => ?_
      cases deadline.expired t with
      | true => exact Act.succeeds_pure _
      | false => exact Act.succeeds_pure _

/-- Between two looks the clock is read, and then the child is waited for, unless what remains cannot be told
in seconds. -/
theorem Responsive.doze_cases (h : Responsive host) (deadline : Deadline) (s : σ) :
    ∃ t s₁, host.now s = (.ok t, s₁) ∧
      ((deadline.remaining t < secondsLimit ∧
          ∃ s₂, rest host (min (deadline.remaining t) pollNanos) s₁ = (.ok (), s₂) ∧
            doze host deadline s = (.ok (), s₂)) ∨
        (secondsLimit ≤ deadline.remaining t ∧
          doze host deadline s = (.error .quotientTooLarge, s₁))) := by
  obtain ⟨t, s₁, hnow⟩ := h.now_succeeds s
  refine ⟨t, s₁, hnow, ?_⟩
  rw [doze, Act.run_bind hnow, Act.bind_apply, Act.ofExcept_apply]
  rcases secondsOf_cases (deadline.remaining t) with ⟨hlt, x, hx⟩ | ⟨hle, herror⟩
  · obtain ⟨⟨⟩, s₂, hrest⟩ := h.rest_succeeds (min (deadline.remaining t) pollNanos) s₁
    rw [hx]
    exact .inl ⟨hlt, s₂, hrest, hrest⟩
  · rw [herror]
    exact .inr ⟨hle, rfl⟩

/-- The next look has something to find: the deadline has come, or the token is cancelled, or the child has
exited. -/
def Settled (host : Host σ) (deadline : Deadline) (clock : σ → Int) (s : σ) : Prop :=
  deadline.mark ≤ clock s ∨ CancelledAt host s ∨ ExitedAt host s

/-- The clock does not go back in a look. -/
theorem Punctual.glance_onward (h : Punctual host clock) (hresp : Responsive host) :
    Act.Leads (Onward clock) (glance host deadline) := by
  refine leads_glance h.cancelled_onward h.poll_onward fun s => ?_
  obtain ⟨t, s', hnow⟩ := hresp.now_succeeds s
  obtain ⟨hbefore, hafter⟩ := h.now_reads s t s' hnow
  rw [hnow]
  exact Int.le_trans hbefore hafter

/-- A look that finds nothing is over before the deadline. -/
theorem Punctual.lt_mark_of_glance (h : Punctual host clock) {s s' : σ}
    (hglance : glance host deadline s = (.ok none, s')) : clock s < deadline.mark := by
  rcases glance_cases hglance with ⟨-, hfound⟩ | ⟨s₁, hcancelled, ⟨code, -, hfound⟩ |
    ⟨s₂, t, hpoll, hnow, hfound⟩⟩
  · exact absurd hfound (by simp)
  · exact absurd hfound (by simp)
  · have hs₁ : clock s ≤ clock s₁ := h.cancelled_onward.of_eq hcancelled
    have hs₂ : clock s₁ ≤ clock s₂ := h.poll_onward.of_eq hpoll
    have ht : clock s₂ ≤ t := (h.now_reads s₂ t s' hnow).1
    have hrunning : ¬ deadline.mark ≤ t := by
      intro hle
      rw [Deadline.expired, decide_eq_true hle] at hfound
      exact absurd hfound (by simp)
    omega

/-- In a settled state the next look finds something. -/
theorem Settled.exists_glance {s : σ} (h : Settled host deadline clock s) (hresp : Responsive host)
    (hpunct : Punctual host clock) :
    ∃ ending s', glance host deadline s = (.ok (some ending), s') := by
  obtain ⟨found, s', hglance⟩ := hresp.glance_succeeds deadline s
  cases found with
  | some ending => exact ⟨ending, s', hglance⟩
  | none =>
    obtain ⟨hlive, hrunning, -⟩ : Decides host deadline s none := glance_decides hglance
    rcases h with hmark | hcancelled | hexited
    · have hearly : clock s < deadline.mark := hpunct.lt_mark_of_glance hglance
      omega
    · exact absurd hcancelled hlive
    · exact absurd hexited hrunning

/-- What remains gets less. -/
theorem remaining_antitone (deadline : Deadline) {t t' : Int} (h : t ≤ t') :
    deadline.remaining t' ≤ deadline.remaining t := by
  rw [Deadline.remaining, Deadline.remaining]
  omega

/-- A round finds something, or takes the clock a whole interval on, or ends in a settled state. -/
theorem round_cases (hresp : Responsive host) (hpunct : Punctual host clock) {s : σ}
    (hshort : deadline.remaining (clock s) < secondsLimit) :
    (∃ ending s', glance host deadline s = (.ok (some ending), s')) ∨
      ∃ s₁ s₂, glance host deadline s = (.ok none, s₁) ∧ doze host deadline s₁ = (.ok (), s₂) ∧
        (clock s + pollNanos ≤ clock s₂ ∨ Settled host deadline clock s₂) := by
  obtain ⟨found, s₁, hglance⟩ := hresp.glance_succeeds deadline s
  cases found with
  | some ending => exact .inl ⟨ending, s₁, hglance⟩
  | none =>
    have honward : clock s ≤ clock s₁ := (hpunct.glance_onward hresp).of_eq hglance
    obtain ⟨t, polled, hnow, hdoze⟩ := hresp.doze_cases deadline s₁
    obtain ⟨hbefore, hafter⟩ := hpunct.now_reads s₁ t polled hnow
    have hless := remaining_antitone deadline (honward.trans hbefore)
    rcases hdoze with ⟨-, s₂, hrest, hdoze⟩ | ⟨hlong, -⟩
    · refine .inr ⟨s₁, s₂, hglance, hdoze, ?_⟩
      rcases hpunct.rest_advances _ polled s₂ hrest with hadvance | hcancelled | hexited
      · -- the wait was a whole interval, or all that remained
        rw [Settled]
        rw [Deadline.remaining] at hadvance
        omega
      · exact .inr (.inr (.inl hcancelled))
      · exact .inr (.inr (.inr hexited))
    · omega

/-! ### All rounds -/

/-- No more rounds are passed than intervals lie before the deadline. -/
theorem waits_in_time (hresp : Responsive host) (hpunct : Punctual host clock) {n : Nat} {s : σ}
    (hshort : deadline.remaining (clock s) < secondsLimit)
    (hnear : deadline.mark ≤ clock s + n * pollNanos) :
    ∃ passed last ending s', passed.length ≤ n ∧ Waits host deadline passed s last ∧
      glance host deadline last = (.ok (some ending), s') := by
  -- the induction is on the intervals that lie before the deadline
  induction n generalizing s with
  | zero =>
    have hsettled : Settled host deadline clock s := .inl (by omega)
    obtain ⟨ending, s', hglance⟩ := hsettled.exists_glance hresp hpunct
    exact ⟨[], s, ending, s', Nat.le_refl 0, .done s, hglance⟩
  | succ n ih =>
    rcases round_cases hresp hpunct hshort with ⟨ending, s', hglance⟩ | ⟨s₁, s₂, hglance, hdoze, hnext⟩
    · exact ⟨[], s, ending, s', Nat.zero_le _, .done s, hglance⟩
    · rcases hnext with hadvance | hsettled
      · have hless := remaining_antitone deadline (show clock s ≤ clock s₂ by omega)
        have hnear' : deadline.mark ≤ clock s₂ + n * pollNanos := by
          rw [Nat.cast_succ, Int.add_mul] at hnear
          omega
        obtain ⟨passed, last, ending, s', hle, hwaits, hend⟩ := ih (by omega) hnear'
        exact ⟨s :: passed, last, ending, s', Nat.succ_le_succ hle, .round hglance hdoze hwaits, hend⟩
      · obtain ⟨ending, s', hend⟩ := hsettled.exists_glance hresp hpunct
        exact ⟨[s], s₂, ending, s', Nat.succ_le_succ (Nat.zero_le n), .round hglance hdoze (.done s₂), hend⟩

/-- So many intervals cover a number of milliseconds. -/
theorem millis_le_intervals (millis : Int) :
    millis * nanosPerMilli ≤ ((millis.toNat + 49) / 50 : Nat) * pollNanos := by
  rw [nanosPerMilli, pollNanos]
  omega

/-- The rounds that a number of milliseconds calls for are enough if the deadline is no further away. -/
theorem waits_in_millis (hresp : Responsive host) (hpunct : Punctual host clock) {millis : Int} {s : σ}
    (hshort : deadline.remaining (clock s) < secondsLimit)
    (hnear : deadline.mark ≤ clock s + millis * nanosPerMilli) :
    ∃ passed last ending s', passed.length < roundsFor millis ∧ Waits host deadline passed s last ∧
      glance host deadline last = (.ok (some ending), s') := by
  have hcover := millis_le_intervals millis
  obtain ⟨passed, last, ending, s', hle, hwaits, hglance⟩ :=
    waits_in_time hresp hpunct hshort (n := (millis.toNat + 49) / 50) (by omega)
  exact ⟨passed, last, ending, s', Nat.lt_succ_of_le hle, hwaits, hglance⟩

/-- There is one round for each interval of a number of milliseconds, the last of which need not be whole, and
one more. -/
theorem roundsFor_eq (millis : Int) (h : 0 ≤ millis) :
    (roundsFor millis : Int) = ⌈(millis : ℚ) / 50⌉ + 1 := by
  have hceil : ⌈(millis : ℚ) / 50⌉ = ((millis.toNat + 49) / 50 : Nat) := by
    rw [Int.ceil_eq_iff]
    constructor
    · rw [lt_div_iff₀ (by norm_num)]
      have hlt : ((((millis.toNat + 49) / 50 : Nat) : Int) - 1) * 50 < millis := by omega
      exact_mod_cast hlt
    · rw [div_le_iff₀ (by norm_num)]
      have hle : millis ≤ (((millis.toNat + 49) / 50 : Nat) : Int) * 50 := by omega
      exact_mod_cast hle
  rw [hceil, roundsFor, Nat.cast_succ]

/-! ### Scripted children -/

section Scripted

variable (script : Script) (token : Option (Option Int))

theorem scriptedHost_responsive :
    Responsive (scriptedHost script (token.map scriptedCancellation)) where
  cancelled_succeeds s := by
    cases token with
    | none => exact ⟨false, s, rfl⟩
    | some mark => exact ⟨_, s, rfl⟩
  poll_succeeds s := ⟨_, _, rfl⟩
  now_succeeds s := ⟨s.clock, s, rfl⟩
  rest_succeeds nanos s := by
    cases token with
    | none =>
      refine Act.Succeeds.bind (fun s => ?_) (fun _ => Act.succeeds_pure ()) s
      simp only [scriptedHost]
      split
      · exact ⟨_, _, rfl⟩
      · exact ⟨_, _, rfl⟩
    | some mark => exact ⟨(), _, rfl⟩

/-- Every scripted child is on a punctual host: a wait is cut short only if the child has exited. -/
theorem scriptedHost_punctual :
    Punctual (scriptedHost script (token.map scriptedCancellation)) Stage.clock where
  cancelled_onward s := by
    cases token with
    | none => exact Int.le_refl _
    | some mark => exact Int.le_refl _
  poll_onward s := (before_noticeExit script s).clock_le
  now_reads s t s' h := by
    obtain ⟨ht, rfl⟩ := Prod.mk.inj h
    obtain rfl := Except.ok.inj ht
    exact ⟨Int.le_refl _, Int.le_refl _⟩
  rest_advances nanos s s' h := by
    cases token with
    | none =>
      obtain ⟨ended, s₁, hwait, hend⟩ := Act.ok_of_bind h
      obtain ⟨-, rfl⟩ := Prod.mk.inj hend
      simp only [scriptedHost] at hwait
      split at hwait
      next hreturned =>
        obtain ⟨-, rfl⟩ := Prod.mk.inj hwait
        obtain ⟨code, hcode⟩ := Option.isSome_iff_exists.mp hreturned
        have hstays := (before_noticeExit script _).code_stays code hcode
        exact .inr (.inr ((exitedAt_iff rfl rfl).mpr (Option.isSome_of_eq_some hstays)))
      next =>
        obtain ⟨-, rfl⟩ := Prod.mk.inj hwait
        have hfirst := (before_noticeExit script (s.did (.waited nanos))).clock_le
        exact .inl (Int.le_trans (Int.add_le_add_right hfirst nanos)
          (before_noticeExit script _).clock_le)
    | some mark =>
      obtain ⟨-, rfl⟩ := Prod.mk.inj h
      exact .inl (Int.le_refl _)

end Scripted

/-! ### The wait loop -/

/-- With a deadline that can be told in seconds, the wait for a child ends within the rounds that its
milliseconds call for, however many there might be, and for its deadline only when the clock was read to
have reached it. -/
theorem waitLoop_in_time (hresp : Responsive host) (hpunct : Punctual host clock) {millis start : Int}
    {s : σ} (hmillis : 1 ≤ millis) (hdeadline : Deadline.ofMillis start (.int millis) = .ok deadline)
    (htold : ∃ x, deadline.remainingSeconds start = .ok x) (hstart : start ≤ clock s) :
    ∃ passed last ending s', Waits host deadline passed s last ∧
      glance host deadline last = (.ok (some ending), s') ∧
      ((passed.length + 1 : Nat) : Int) ≤ ⌈(millis : ℚ) / 50⌉ + 1 ∧
      (∀ rounds, passed.length < rounds → waitLoop host deadline rounds s = (.ok ending, s')) ∧
      (ending = .timedOut →
        ∃ polled t, host.now polled = (.ok t, s') ∧ deadline.mark ≤ t ∧ t ≤ clock s') := by
  obtain rfl : deadline = ⟨start + millis * nanosPerMilli⟩ :=
    (Except.ok.inj ((ofMillis_eq (by omega)).symm.trans hdeadline)).symm
  have hshort : Deadline.remaining ⟨start + millis * nanosPerMilli⟩ (clock s) < secondsLimit := by
    obtain ⟨x, hx⟩ := htold
    refine Nat.lt_of_le_of_lt (remaining_antitone _ hstart) (Nat.lt_of_not_le fun hle => ?_)
    rw [Deadline.remainingSeconds, secondsOf_of_le hle] at hx
    exact absurd hx (by simp)
  obtain ⟨passed, last, ending, s', hlt, hwaits, hglance⟩ :=
    waits_in_millis hresp hpunct hshort (Int.add_le_add_right hstart _)
  refine ⟨passed, last, ending, s', hwaits, hglance, ?_, fun rounds hrounds => ?_, ?_⟩
  · rw [← roundsFor_eq millis (by omega)]
    exact_mod_cast hlt
  · exact waitLoop_eq_ok_iff.mpr ⟨passed, last, hrounds, hwaits, hglance⟩
  · rintro rfl
    rcases glance_cases hglance with ⟨-, hfound⟩ | ⟨s₁, hcancelled, ⟨code, -, hfound⟩ |
      ⟨polled, t, hpoll, hnow, hfound⟩⟩
    · exact absurd hfound (by simp)
    · exact absurd hfound (by simp)
    · split at hfound
      next hexpired =>
        exact ⟨polled, t, hnow, of_decide_eq_true hexpired, (hpunct.now_reads polled t s' hnow).2⟩
      next => exact absurd hfound (by simp)

/-- A child that never exits. -/
def endless : Script := { exitAfter := none }

/-- The wait for a child that never exits is over after three whole intervals at the latest if it may take
120 milliseconds. -/
theorem waitLoop_in_time_endless :
    Responsive (scriptedHost endless none) ∧ Punctual (scriptedHost endless none) Stage.clock ∧
      ∃ passed last s', Waits (scriptedHost endless none) ⟨120000000⟩ passed {} last ∧
        passed.length ≤ 3 ∧ waitLoop (scriptedHost endless none) ⟨120000000⟩ 4 {} = (.ok .timedOut, s') ∧
        120000000 ≤ s'.clock := by
  have hresp : Responsive (scriptedHost endless none) := scriptedHost_responsive endless none
  have hpunct : Punctual (scriptedHost endless none) Stage.clock := scriptedHost_punctual endless none
  obtain ⟨passed, last, ending, s', hwaits, -, hle, hloop, hmark⟩ :=
    waitLoop_in_time hresp hpunct (show 1 ≤ (120 : Int) by decide)
      (show Deadline.ofMillis 0 (.int 120) = .ok ⟨120000000⟩ from rfl) ⟨_, rfl⟩
      (Int.le_refl (({} : Stage).clock))
  have hceil : ⌈((120 : Int) : ℚ) / 50⌉ = 3 := by norm_num
  rw [hceil] at hle
  have hfour := hloop 4 (by omega)
  obtain rfl : .timedOut = ending := by
    have hend : (waitLoop (scriptedHost endless none) ⟨120000000⟩ 4 {}).1 = .ok .timedOut := rfl
    rw [hfour] at hend
    exact (Except.ok.inj hend).symm
  obtain ⟨polled, t, -, hreached, hclock⟩ := hmark rfl
  exact ⟨hresp, hpunct, passed, last, s', hwaits, by omega, hfour, hreached.trans hclock⟩

end AnalyzerBridge.Supervision
