/-
The analyze command in turns.

The command runs beside other handlers, as a refresh does, and is as little one step: it
reads its payload, loads the settings, takes a name unless it was given one, enters, and is
answered.  `inquire` takes the turn of a command in its present `Inquiry`.

* `rest_inquire` — a turn leaves as much of the command to do as there was before it;
* `execute_eq_turns` — hence five turns with nothing in between are the command;
* `naming_of_given`, `naming_of_none` — a name is taken exactly if none was given;
* `reply_after` — other handlers see nothing of the answer.

Design notes: the request of a command belongs to no document, so that a command has part in
the session by its token only.  Entering is a turn of its own for the sake of that token;
answering and writing the record are one turn.
-/
import AnalyzerBridge.Proofs.Allotment
import AnalyzerBridge.Proofs.Turns
import Mathlib.Logic.Function.Conjugate

namespace AnalyzerBridge

/-- What a command works with once it has the settings. -/
structure Commission where
  command : Schema.CommandRecord
  settings : Settings

/-- How far a command has come. -/
inductive Inquiry where
  | received (payload : Value)
  | loading (command : Schema.CommandRecord)
  | naming (m : Commission)
  | entering (m : Commission) (id : String)
  | calling (m : Commission) (id : String) (token : Token)
  | done (result : Except Failure Service.Response)

/-- The turns that a command takes at most. -/
def Inquiry.rank : Inquiry → Nat
  | .received _ => 5
  | .loading _ => 4
  | .naming _ => 3
  | .entering _ _ => 2
  | .calling _ _ _ => 1
  | .done _ => 0

variable {ε α : Type}

/-- The turn in which an operation runs; its failure is the end of the command. -/
def Inquiry.of (a : Act (Workspace ε) α) (next : α → Inquiry) (w : Workspace ε) :
    Inquiry × Workspace ε :=
  match a w with
  | (.ok x, w) => (next x, w)
  | (.error f, w) => (.done (.error f), w)

theorem Inquiry.of_ok {a : Act (Workspace ε) α} {w w' : Workspace ε} {x : α}
    (h : a w = (.ok x, w')) (next : α → Inquiry) : Inquiry.of a next w = (next x, w') := by
  rw [Inquiry.of, h]

theorem Inquiry.of_error {a : Act (Workspace ε) α} {w w' : Workspace ε} {f : Failure}
    (h : a w = (.error f, w')) (next : α → Inquiry) :
    Inquiry.of a next w = (.done (.error f), w') := by
  rw [Inquiry.of, h]

namespace Commission

variable (m : Commission) (s : Service ε) (id : String)

/-- The time of the command. -/
def deadlineMs : Int :=
  Service.effectiveTimeout m.command.timeoutMs m.settings

/-- The request of the command. -/
def request : Request :=
  Service.commandRequest m.command m.deadlineMs id

/-- The coordinator that answers the request. -/
def coordinator : Coordinator ε where
  settings := m.settings
  invoke := s.invoke
  depth := s.depth

/-- The name that the command was given; an empty one is none. -/
def given? : Option String :=
  (m.command.requestId.filter (· ≠ [])).map LooseText.replaced

/-- Answers the request and writes the record. -/
def reply (token : Token) : Act (Workspace ε) Service.Response := do
  let o ← (m.coordinator s).answer none (m.request id) token
  let record ← Act.ofExcept (o.record.mapError .invalid)
  return .answered record o.success

end Commission

namespace Service

variable (s : Service ε)

/-- What a payload comes to: a command, or a refusal. -/
def received (t : Table) : Inquiry :=
  match Schema.readCommand (.table t) with
  | .error problems => .done (.ok (.refused [Schema.report Schema.commandRecordName problems]))
  | .ok command => .loading command

/-- What the time of a command comes to: the command goes on, or it is refused. -/
def timed (m : Commission) : Inquiry :=
  if m.deadlineMs ≤ 0 then .done (.ok timeRefusal) else .naming m

/-- The turn of a command. -/
def inquire : Inquiry → Workspace ε → Inquiry × Workspace ε
  | .received payload => Inquiry.of (Act.ofExcept (requirePayload payload)) received
  | .loading command => Inquiry.of s.coordinator fun c => timed ⟨command, c.settings⟩
  | .naming m => Inquiry.of (commandId m.command) (.entering m)
  | .entering m id => Inquiry.of (Coordinator.enter (m.request id)) (.calling m id)
  | .calling m id token => Inquiry.of (m.reply s id token) fun r => .done (.ok r)
  | .done result => fun w => (.done result, w)

/-! ### What remains of a command -/

/-- What remains of a command. -/
def remains : Inquiry → Act (Workspace ε) Response
  | .received payload => s.execute payload
  | .loading command => do
    let c ← s.coordinator
    let m : Commission := ⟨command, c.settings⟩
    if m.deadlineMs ≤ 0 then return timeRefusal
    else pursue c command m.deadlineMs
  | .naming m => pursue (m.coordinator s) m.command m.deadlineMs
  | .entering m id => do
    let token ← Coordinator.enter (m.request id)
    m.reply s id token
  | .calling m id token => m.reply s id token
  | .done result => Act.ofExcept result

theorem remains_of {a : Act (Workspace ε) α} {next : α → Inquiry} {r : Act (Workspace ε) Response}
    {w : Workspace ε} (h : r w = (a >>= fun x => remains s (next x)) w) :
    remains s (Inquiry.of a next w).1 (Inquiry.of a next w).2 = r w := by
  rw [h, Act.bind_apply, Inquiry.of]
  rcases a w with ⟨f | x, w'⟩ <;> rfl

variable (w : Workspace ε)

/-- A payload that is no command is refused; a command loads the settings. -/
theorem execute_table (t : Table) : s.execute (.table t) w = s.remains (received t) w := by
  have hpayload : (Act.ofExcept (requirePayload (.table t)) : Act (Workspace ε) Table) w = (.ok t, w) :=
    rfl
  rw [received]
  cases hread : Schema.readCommand (.table t) with
  | error problems =>
    rw [execute, Act.run_bind hpayload]
    simp only [hread]
    rfl
  | ok command =>
    rcases hc : s.coordinator w with ⟨f | c, w'⟩
    · rw [execute, Act.run_bind hpayload]
      simp only [hread, remains]
      rw [Act.fail_bind hc, Act.fail_bind hc]
    · rw [execute_apply hread hc, remains, Act.run_bind hc]
      split
      next h => exact (congrFun (if_pos h) w').symm
      next h => exact (congrFun (if_neg h) w').symm

/-- The request of a command is answered and leaves no trace, as it belongs to no document. -/
theorem analyze_reply (m : Commission) (id : String) (o : Outcome → Act (Workspace ε) Response) :
    ((m.coordinator s).analyze (m.request id) none >>= o) w =
      (Coordinator.enter (m.request id) >>= fun token =>
        (m.coordinator s).answer none (m.request id) token >>= o) w := by
  rw [Act.bind_apply, Coordinator.analyze_apply, Act.run_bind (Coordinator.enter_apply _ w),
    Act.bind_apply]
  rfl

/-- A turn leaves as much of the command to do as there was before it. -/
theorem rest_inquire (phase : Inquiry) :
    s.remains (s.inquire phase w).1 (s.inquire phase w).2 = s.remains phase w := by
  cases phase with
  | received payload =>
    refine remains_of s ?_
    cases payload with
    | table t => exact execute_table s w t
    | _ => rfl
  | loading command =>
    refine remains_of s ?_
    rw [remains]
    rcases hc : s.coordinator w with ⟨f | c, w'⟩
    · rw [Act.fail_bind hc, Act.fail_bind hc]
    · rw [Act.run_bind hc, Act.run_bind hc, timed]
      split
      · rfl
      · rw [remains, coordinator_eq s hc {} ""]
        rfl
  | naming m =>
    refine remains_of s ?_
    obtain ⟨id, w', hid⟩ := commandId_apply m.command w
    rw [remains, pursue, Act.run_bind hid, Act.run_bind hid]
    exact analyze_reply s w' m id _
  | entering m id => exact remains_of s rfl
  | calling m id token =>
    refine remains_of s ?_
    rw [remains, Act.bind_apply]
    rcases m.reply s id token w with ⟨f | r, w'⟩ <;> rfl
  | done result => rfl

/-! ### Turns with nothing in between -/

theorem rank_inquiry_of {a : Act (Workspace ε) α} {next : α → Inquiry} {n : Nat}
    (h : ∀ x, (next x).rank ≤ n) : (Inquiry.of a next w).1.rank ≤ n := by
  rw [Inquiry.of]
  split
  · exact h _
  · exact Nat.zero_le n

theorem rank_received (t : Table) : (received t).rank ≤ 4 := by
  rw [received]
  split <;> simp [Inquiry.rank]

theorem rank_timed (m : Commission) : (timed m).rank ≤ 3 := by
  rw [timed]
  split <;> simp [Inquiry.rank]

theorem rank_inquire (phase : Inquiry) : (s.inquire phase w).1.rank ≤ phase.rank - 1 := by
  cases phase with
  | received payload => exact rank_inquiry_of w rank_received
  | loading command => exact rank_inquiry_of w fun c => rank_timed ⟨command, c.settings⟩
  | done result => exact Nat.le_refl _
  | _ => exact rank_inquiry_of w fun _ => Nat.le_refl _

/-- The turn of a command together with its workspace. -/
def inquired (p : Inquiry × Workspace ε) : Inquiry × Workspace ε :=
  s.inquire p.1 p.2

theorem rest_inquired (n : Nat) (p : Inquiry × Workspace ε) :
    s.remains (s.inquired^[n] p).1 (s.inquired^[n] p).2 = s.remains p.1 p.2 := by
  have hturn : Function.Semiconj (fun p => s.remains p.1 p.2) s.inquired id :=
    fun p => rest_inquire s p.2 p.1
  exact (hturn.iterate_right n p).trans (congrFun (Function.iterate_id n) _)

theorem rank_inquired (n : Nat) (p : Inquiry × Workspace ε) :
    (s.inquired^[n] p).1.rank ≤ p.1.rank - n := by
  induction n with
  | zero => exact Nat.le_refl _
  | succ n ih =>
    have hlast := rank_inquire s (s.inquired^[n] p).2 (s.inquired^[n] p).1
    rw [Function.iterate_succ_apply']
    show (s.inquire _ _).1.rank ≤ _
    omega

/-- Five turns with nothing in between are the command. -/
theorem execute_eq_turns (payload : Value) :
    s.inquired^[5] (.received payload, w) =
      (.done (s.execute payload w).1, (s.execute payload w).2) := by
  have hrest := rest_inquired s 5 (.received payload, w)
  have hrank := rank_inquired s 5 (.received payload, w)
  rcases hturns : s.inquired^[5] (.received payload, w) with ⟨phase, w'⟩
  rw [hturns] at hrest hrank
  cases phase with
  | done result =>
    rw [show s.execute payload w = (result, w') from hrest.symm]
  | _ => exact absurd hrank (by simp [Inquiry.rank])

/-! ### What others can see -/

/-- A name is chosen: the one that the command was given, or a fresh one. -/
theorem commandId_eq (m : Commission) :
    commandId (ε := ε) m.command =
      match m.given? with
      | some id => pure id
      | none => Workspace.nextRequestId analyzeCommand := by
  rw [commandId, Commission.given?]
  cases m.command.requestId with
  | none => rfl
  | some id =>
    cases id with
    | nil => rfl
    | cons => rfl

theorem naming_of_given {m : Commission} {id : String} (h : m.given? = some id) :
    s.inquire (.naming m) w = (.entering m id, w) := by
  have hname := commandId_eq (ε := ε) m
  rw [h] at hname
  exact Inquiry.of_ok (congrFun hname w) _

theorem naming_of_none {m : Commission} (h : m.given? = none) :
    s.inquire (.naming m) w =
      (.entering m (requestId analyzeCommand w), { w with nextNumber := w.nextNumber + 1 }) := by
  have hname := commandId_eq (ε := ε) m
  rw [h] at hname
  exact Inquiry.of_ok (congrFun hname w) _

theorem reply_after {s : Service ε} (h : Aloof s.invoke) (m : Commission) (id : String)
    (token : Token) : ∃ log surroundings, (m.reply s id token w).2 =
      { w with log := log, surroundings := surroundings } := by
  obtain ⟨log, surroundings, hanswer⟩ : ∃ log surroundings,
      ((m.coordinator s).answer none (m.request id) token w).2 =
        { w with log := log, surroundings := surroundings } := by
    -- nobody listens to a command
    have htell : Coordinator.tell none (m.request id)
        ((m.coordinator s).settings.scanOutcome (m.request id).source) w = (.ok (), w) := rfl
    rw [Coordinator.answer_of_tell (m.coordinator s) (m.request id) htell token]
    split
    · exact consult_after w h (m.request id) token _
    · exact ⟨w.log, w.surroundings, rfl⟩
  refine ⟨log, surroundings, ?_⟩
  rw [← hanswer, Commission.reply, Act.bind_apply]
  rcases (m.coordinator s).answer none (m.request id) token w with ⟨f | o, w'⟩
  · rfl
  · show ((Act.ofExcept (o.record.mapError .invalid) >>= _) w').2 = w'
    rw [Act.bind_apply, Act.ofExcept_apply]
    rcases o.record.mapError Failure.invalid with f | record <;> rfl

end Service

end AnalyzerBridge
