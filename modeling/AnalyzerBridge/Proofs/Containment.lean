/-
What can come out of a request that is no outcome.

Those around a coordinator keep to a contract here: nobody who listens fails
(`Heeds`), and the analyzer leaves output behind or cannot be started
(`Responds`).

* `judge_cases` — a verdict is found unless the output is beyond the limits of
  the readers;
* `analyze_reply_cases` — an outcome of a request is the verdict on the reply, or the
  scan speaks;
* `analyze_returns_iff` — so a request has an outcome exactly if it does not ask
  for more than the readers and the writers of numbers can do; otherwise the
  failure is that of a limit, and it is not contained;
* `analyze_overlong` — one number of 4301 digits is enough, on either stream, as
  the exit code or as the deadline.

Design notes: the contract says nothing about the workspace, so both may start
requests of their own, or change whatever they like.  How deep the output may nest
is a field of the coordinator, and nothing here depends on its value.
-/
import AnalyzerBridge.Proofs.Coordinator

namespace AnalyzerBridge.Coordinator

variable {ε : Type}

/-! ### The contract of those around a request -/

/-- Whoever listens never fails. -/
def Heeds (listener : Option (Listener ε)) : Prop :=
  ∀ listen, listener = some listen → ∀ request scanned w, (listen request scanned w).1 = .ok ()

/-- The analyzer leaves output behind, or it cannot be started. -/
def Responds (invoke : Invoker ε) : Prop :=
  ∀ call token w, (∃ raw, (invoke call token w).1 = .ok raw) ∨
    ∃ fault, (invoke call token w).1 = .error (.spawn fault)

variable (c : Coordinator ε) (request : Request)

/-- The workspace in which a request calls the analyzer: the request has entered, and whoever listens has
been told. -/
def approach (listener : Option (Listener ε)) (w : Workspace ε) : Workspace ε :=
  (tell (listener <|> c.listener) request (c.settings.scanOutcome request.source)
    { w with session := (entry request w.session).2 }).2

/-- What the analyzer answers when a request calls it. -/
def reply (listener : Option (Listener ε)) (w : Workspace ε) : Except Failure RawOutput :=
  (c.invoke (c.settings.call request) (entry request w.session).1
    (c.approach request listener w)).1

/-- A request comes to the analyzer, and there a limit is met: no time is left and the deadline has too
many digits to be written down, or what the analyzer leaves behind is beyond the limits of its
readers. -/
def Overtaxed (listener : Option (Listener ε)) (w : Workspace ε) : Prop :=
  c.settings.enabled = true ∧
    (request.deadlineMs ≤ 0 ∧ Unspellable request.deadlineMs ∨
      0 < request.deadlineMs ∧
        ∃ raw, c.reply request listener w = .ok raw ∧ Transcript.Overtaxing c.depth raw)

/-! ### One request -/

theorem tell_of_heeds {listener : Option (Listener ε)} (h : Heeds listener) (scanned : Outcome)
    (w : Workspace ε) :
    tell listener request scanned w = (.ok (), (tell listener request scanned w).2) := by
  cases hl : listener with
  | none => rfl
  | some listen =>
    rw [tell]
    cases scanned.success with
    | true => rfl
    | false => exact Prod.ext (h listen hl request scanned w) rfl

/-- An answer that keeps to the contract has a verdict, or is output beyond the limits of the readers. -/
theorem judge_cases (settings : Settings) (depth : Nat) (scanned : Outcome)
    {answer : Except Failure RawOutput}
    (h : (∃ raw, answer = .ok raw) ∨ ∃ fault, answer = .error (.spawn fault)) :
    (∃ o, judge scanned settings depth answer = .ok o ∧
        ¬ ∃ raw, answer = .ok raw ∧ Transcript.Overtaxing depth raw) ∨
      ∃ f, judge scanned settings depth answer = .error f ∧ f.IsLimit ∧
        ∃ raw, answer = .ok raw ∧ Transcript.Overtaxing depth raw := by
  rcases h with ⟨raw, rfl⟩ | ⟨fault, rfl⟩
  · rw [judge]
    -- the readers give up on exactly the output that counts as overtaxing
    rcases Transcript.translate_cases settings.strictOutput depth raw with
      ⟨o, ho, hread⟩ | ⟨f, hf, hlimit, htax⟩
    · refine Or.inl ⟨settle scanned o, by rw [ho]; rfl, ?_⟩
      rintro ⟨raw', h, htax⟩
      obtain rfl := Except.ok.inj h
      exact hread htax
    · exact Or.inr ⟨f, by rw [hf]; rfl, hlimit, raw, rfl, htax⟩
  · refine Or.inl ⟨_, rfl, ?_⟩
    rintro ⟨raw, h, _⟩
    exact absurd h (by simp)

/-- A request that comes to the analyzer ends as the verdict on the reply does, if there is time for
one. -/
theorem analyze_result {listener : Option (Listener ε)} (hl : Heeds (listener <|> c.listener))
    (w : Workspace ε) :
    (c.analyze request listener w).1 =
      if c.settings.enabled then
        if request.deadlineMs ≤ 0 then elapsed request (c.settings.scanOutcome request.source)
        else judge (c.settings.scanOutcome request.source) c.settings c.depth
          (c.reply request listener w)
      else .ok (c.settings.scanOutcome request.source) := by
  have htell := tell_of_heeds request hl (c.settings.scanOutcome request.source)
    { w with session := (entry request w.session).2 }
  rw [analyze_apply, answer_of_tell c request htell]
  cases henabled : c.settings.enabled with
  | false => rfl
  | true =>
    simp only [if_true]
    -- the analyzer is asked only while there is time left
    by_cases hpos : request.deadlineMs ≤ 0
    · obtain ⟨log, h⟩ := consult_of_nonpos c request (c.settings.scanOutcome request.source)
        (entry request w.session).1 (c.approach request listener w) hpos
      have hresult := congrArg Prod.fst h
      rw [if_pos hpos]
      simp only at hresult
      exact hresult
    · obtain ⟨log, h⟩ := consult_apply c request (c.settings.scanOutcome request.source)
        (entry request w.session).1 (c.approach request listener w) (Int.not_le.mp hpos)
      rw [if_neg hpos]
      exact congrArg Prod.fst h

/-- With an analyzer and time left, a request ends as the verdict on the reply does. -/
theorem analyze_of_reply {listener : Option (Listener ε)} (hl : Heeds (listener <|> c.listener))
    (w : Workspace ε) (henabled : c.settings.enabled = true) (hpos : 0 < request.deadlineMs) :
    (c.analyze request listener w).1 =
      judge (c.settings.scanOutcome request.source) c.settings c.depth (c.reply request listener w) := by
  rw [analyze_result c request hl w, henabled, if_pos rfl, if_neg (Int.not_le.mpr hpos)]

/-- The outcome of a request is the verdict on the reply of the analyzer, or that of the scan if the
analyzer is not called. -/
theorem analyze_reply_cases {listener : Option (Listener ε)} {w w' : Workspace ε} {o : Outcome}
    (h : c.analyze request listener w = (.ok o, w')) :
    (c.settings.enabled = true ∧ 0 < request.deadlineMs ∧
        Verdict (c.settings.scanOutcome request.source) c.settings c.depth
          (c.reply request listener w) o) ∨
      (¬ (c.settings.enabled = true ∧ 0 < request.deadlineMs) ∧
        (o = c.settings.scanOutcome request.source ∨
          FallsBack (c.settings.scanOutcome request.source) .timeout o)) := by
  rw [analyze_apply] at h
  obtain ⟨hresult, -⟩ := Prod.mk.inj h
  rw [reply, approach]
  rcases htell : tell (listener <|> c.listener) request (c.settings.scanOutcome request.source)
      { w with session := (entry request w.session).2 } with ⟨f | _, w₁⟩
  · -- a listener that fails leaves no outcome
    rw [answer_of_tell_error c request htell] at hresult
    exact absurd hresult (by simp)
  · rw [answer_of_tell c request htell] at hresult
    cases henabled : c.settings.enabled with
    | false =>
      rw [henabled, if_neg Bool.false_ne_true] at hresult
      exact Or.inr ⟨by simp, Or.inl (Except.ok.inj hresult).symm⟩
    | true =>
      rw [henabled, if_pos rfl] at hresult
      by_cases hpos : 0 < request.deadlineMs
      · obtain ⟨log, hconsult⟩ := consult_apply c request
          (c.settings.scanOutcome request.source) (entry request w.session).1 w₁ hpos
        rw [hconsult] at hresult
        exact Or.inl ⟨rfl, hpos, verdict_of_judge _ hresult⟩
      · obtain ⟨log, hconsult⟩ := consult_of_nonpos c request
          (c.settings.scanOutcome request.source) (entry request w.session).1 w₁ (Int.not_lt.mp hpos)
        simp only [hconsult] at hresult
        obtain ⟨detail, rfl⟩ := elapsed_eq request _ hresult
        exact Or.inr ⟨fun hcalled => hpos hcalled.2, Or.inr (fallsBack_degrade _ _ _)⟩

/-- A request has an outcome, or it is overtaxed and ends with the failure of a limit. -/
theorem analyze_cases {listener : Option (Listener ε)} (hl : Heeds (listener <|> c.listener))
    (hi : Responds c.invoke) (w : Workspace ε) :
    (∃ o, (c.analyze request listener w).1 = .ok o ∧ ¬ c.Overtaxed request listener w) ∨
      ∃ f, (c.analyze request listener w).1 = .error f ∧ f.IsLimit ∧
        c.Overtaxed request listener w := by
  rw [analyze_result c request hl w, Overtaxed]
  cases henabled : c.settings.enabled with
  | false => exact Or.inl ⟨_, rfl, by simp⟩
  | true =>
    simp only [if_true, true_and]
    by_cases hpos : request.deadlineMs ≤ 0
    · simp only [hpos, if_true, true_and, Int.not_lt.mpr hpos, false_and, or_false]
      rcases elapsed_cases request (c.settings.scanOutcome request.source) with
        ⟨hshort, detail, h⟩ | ⟨hlong, h⟩
      · exact Or.inl ⟨_, h, hshort⟩
      · exact Or.inr ⟨_, h, Or.inr (Or.inr rfl), hlong⟩
    · have hreply := hi (c.settings.call request) (entry request w.session).1
        (c.approach request listener w)
      simp only [hpos, if_false, false_and, false_or, Int.not_le.mp hpos, true_and]
      exact judge_cases c.settings c.depth (c.settings.scanOutcome request.source) hreply

/-- A request has an outcome exactly if it is not overtaxed, and only a limit can be met instead. -/
theorem analyze_returns_iff {listener : Option (Listener ε)} (hl : Heeds (listener <|> c.listener))
    (hi : Responds c.invoke) (w : Workspace ε) :
    ((∃ o, (c.analyze request listener w).1 = .ok o) ↔ ¬ c.Overtaxed request listener w) ∧
      ∀ f, (c.analyze request listener w).1 = .error f → f.IsLimit := by
  rcases analyze_cases c request hl hi w with ⟨o, ho, hread⟩ | ⟨f, hf, hlimit, htax⟩
  · refine ⟨iff_of_true ⟨o, ho⟩ hread, fun f hf => ?_⟩
    rw [ho] at hf
    exact absurd hf (by simp)
  · constructor
    · refine iff_of_false ?_ (not_not.mpr htax)
      rintro ⟨o, ho⟩
      rw [hf] at ho
      exact absurd ho (by simp)
    · intro f' hf'
      obtain rfl : f = f' := by simpa [hf] using hf'
      exact hlimit

theorem heeds_answering (raw : RawOutput) (depth : Nat) :
    Heeds (none <|> (answering raw depth).listener) := by
  intro listen h request scanned w
  obtain rfl := Option.some_inj.mp h
  rfl

theorem responds_answering (raw : RawOutput) (depth : Nat) : Responds (answering raw depth).invoke :=
  fun _ _ _ => Or.inl ⟨raw, rfl⟩

theorem overtaxed_answering (raw : RawOutput) (depth : Nat) (w : Workspace Unit) :
    (answering raw depth).Overtaxed strayBracket none w ↔ Transcript.Overtaxing depth raw := by
  constructor
  · rintro ⟨_, ⟨hpos, _⟩ | ⟨_, raw', h, htax⟩⟩
    · exact absurd hpos (by decide)
    · obtain rfl : raw = raw' := Except.ok.inj h
      exact htax
  -- the stray bracket asks for the analyzer, so only the output matters
  · exact fun htax => ⟨rfl, .inr ⟨by decide, raw, rfl, htax⟩⟩

/-- An analyzer that fails and says nothing leaves a request with an outcome. -/
theorem analyze_returns_silent :
    Heeds (none <|> (answering { exitCode := some 1 }).listener) ∧
      Responds (answering { exitCode := some 1 }).invoke ∧
      ∃ o, ((answering { exitCode := some 1 }).analyze strayBracket none { surroundings := () }).1 =
        .ok o := by
  refine ⟨heeds_answering _ _, responds_answering _ _, ?_⟩
  refine (analyze_returns_iff (answering { exitCode := some 1 }) strayBracket (heeds_answering _ _)
    (responds_answering _ _) { surroundings := () }).1.mpr ?_
  rw [overtaxed_answering]
  rintro ⟨_, _, ⟨hx, _⟩ | ⟨_, ⟨line, hline, _⟩ | ⟨_, code, hcode, hlong⟩⟩⟩
  · exact absurd hx (by decide)
  -- an empty error stream has no line that could be overlong
  · rw [Text.Utf8.decodeLossy_ascii (by simp)] at hline
    exact absurd hline List.not_mem_nil
  · obtain rfl : 1 = code := Option.some_inj.mp hcode
    exact not_unspellable_one hlong

/-! ### Requests without an outcome -/

/-- The output of a successful run that is one integer with 4301 digits. -/
def longInteger : RawOutput where
  exitCode := some 0
  stdout := 49 :: List.replicate 4300 49

/-- The output of a failed run whose error stream is one position with 4301 digits. -/
def longPosition : RawOutput where
  exitCode := some 1
  stderr := List.replicate 4301 49 ++ [58, 49, 58, 120]

/-- The output of a failed run that says nothing and exits with a code of 4301 digits. -/
def longCode : RawOutput where
  exitCode := some (10 ^ Number.digitLimit)

/-- The stray bracket with a deadline of 4301 digits that has long passed. -/
def longPast : Request :=
  { strayBracket with deadlineMs := -10 ^ Number.digitLimit }

theorem overtaxing_longInteger (depth : Nat) : Transcript.Overtaxing depth longInteger := by
  refine ⟨rfl, rfl, Or.inl ⟨rfl, Transcript.overlimit_of_digits depth (fun b hb => ?_) ?_⟩⟩
  · obtain rfl := List.eq_of_mem_replicate hb
    decide
  · rw [List.length_replicate]
    decide

theorem overtaxing_longPosition (depth : Nat) : Transcript.Overtaxing depth longPosition := by
  refine ⟨rfl, rfl, Or.inr ⟨by decide, Transcript.beyond_of_digits _ (fun b hb => ?_) ?_⟩⟩
  · obtain rfl := List.eq_of_mem_replicate hb
    decide
  · rw [List.length_replicate]
    decide

theorem pow_digitLimit_pos : (0 : Int) < 10 ^ Number.digitLimit :=
  Int.pow_pos (by decide)

theorem unspellable_pow : Unspellable (10 ^ Number.digitLimit) := by
  have hten : Int.natAbs 10 = 10 := rfl
  rw [Unspellable, Int.natAbs_pow, hten]

theorem overtaxing_longCode (depth : Nat) : Transcript.Overtaxing depth longCode :=
  ⟨rfl, rfl, Or.inr ⟨fun h => Int.ne_of_gt pow_digitLimit_pos (Option.some_inj.mp h),
    Transcript.beyond_of_code unspellable_pow⟩⟩

theorem overtaxed_longPast (raw : RawOutput) (depth : Nat) (w : Workspace Unit) :
    (answering raw depth).Overtaxed longPast none w := by
  refine ⟨rfl, Or.inl ⟨Int.neg_nonpos_of_nonneg (Int.le_of_lt pow_digitLimit_pos), ?_⟩⟩
  rw [Unspellable, longPast, Int.natAbs_neg]
  exact unspellable_pow

/-- Everybody around a request keeps to the contract, and yet it has no outcome, however deep the output
may nest. -/
def Escapes (raw : RawOutput) (request : Request) : Prop :=
  ∀ depth, Heeds (none <|> (answering raw depth).listener) ∧ Responds (answering raw depth).invoke ∧
    ∀ o, ((answering raw depth).analyze request none { surroundings := () }).1 ≠ .ok o

theorem escapes_of_overtaxed {raw : RawOutput} {request : Request}
    (h : ∀ depth, (answering raw depth).Overtaxed request none { surroundings := () }) :
    Escapes raw request := by
  refine fun depth => ⟨heeds_answering raw depth, responds_answering raw depth, fun o ho => ?_⟩
  rcases analyze_cases (answering raw depth) request (heeds_answering raw depth)
      (responds_answering raw depth) { surroundings := () } with ⟨_, _, hread⟩ | ⟨f, hf, _⟩
  · exact hread (h depth)
  · rw [hf] at ho
    exact absurd ho (by simp)

theorem escapes_of_overtaxing {raw : RawOutput} (h : ∀ depth, Transcript.Overtaxing depth raw) :
    Escapes raw strayBracket :=
  escapes_of_overtaxed fun depth => (overtaxed_answering raw depth _).mpr (h depth)

/-- A number with too many digits leaves a request without an outcome: on either stream, as the exit code
behind an empty error stream, or as a deadline that has passed. -/
theorem analyze_overlong :
    Escapes longInteger strayBracket ∧ Escapes longPosition strayBracket ∧
      Escapes longCode strayBracket ∧ ∀ raw, Escapes raw longPast :=
  ⟨escapes_of_overtaxing overtaxing_longInteger, escapes_of_overtaxing overtaxing_longPosition,
    escapes_of_overtaxing overtaxing_longCode,
    fun raw => escapes_of_overtaxed fun depth => overtaxed_longPast raw depth _⟩

end AnalyzerBridge.Coordinator
