/-
A refresh in turns.

Handlers of a service may run at the same time, and then a refresh is not one step but a
sequence of them: it reads the document, takes a name, loads the settings, enters, checks
and shows what the scan found, calls the analyzer, leaves, checks again and shows what it
ends with.  `advance` takes the turn of a refresh in its present `Phase`.

* `rest_advance` — a turn leaves as much of the refresh to do as there was before it;
* `validate_eq_turns` — hence ten turns with nothing in between are the refresh;
* `advance_takes` — what a turn can come to, said once.

Design notes: `rest` is what remains of a refresh, written with the operations of the
service itself, so the phases cannot drift from them.
-/
import AnalyzerBridge.Proofs.Placement
import AnalyzerBridge.Proofs.Session

namespace AnalyzerBridge

/-- What a refresh works with once it has its settings. -/
structure Errand where
  document : Document
  id : String
  settings : Settings

/-- How far a refresh has come. -/
inductive Phase where
  | reading
  | numbering (d : Document)
  | loading (d : Document) (id : String)
  | entering (e : Errand)
  | checkingEarly (e : Errand) (token : Token)
  | showingEarly (e : Errand) (token : Token)
  | calling (e : Errand) (token : Token)
  | leaving (e : Errand) (answer : Except Failure Outcome)
  | checking (e : Errand) (o : Outcome)
  | showing (e : Errand) (o : Outcome)
  | done (result : Except Failure (Option Outcome))

/-- The turns that a refresh takes at most. -/
def Phase.rank : Phase → Nat
  | .reading => 10
  | .numbering _ => 9
  | .loading _ _ => 8
  | .entering _ => 7
  | .checkingEarly _ _ => 6
  | .showingEarly _ _ => 5
  | .calling _ _ => 4
  | .leaving _ _ => 3
  | .checking _ _ => 2
  | .showing _ _ => 1
  | .done _ => 0

/-- What a turn does that concerns other refreshes: it reads the document, begins a request, finds the
request current, or shows findings. -/
inductive Deed where
  | read (d : Document)
  | began
  | passed
  | showed (p : Publication)
  deriving DecidableEq

/-- What a deed sends to the client. -/
def Deed.sent? : Deed → Option Publication
  | .showed p => some p
  | _ => none

/-- A turn: the phase and the workspace after it, and what was done. -/
structure Turn (ε : Type) where
  phase : Phase
  workspace : Workspace ε
  deed : Option Deed := none

variable {ε α : Type}

/-- The turn in which an operation runs; its failure is the end of the refresh. -/
def Turn.of (a : Act (Workspace ε) α) (next : α → Phase) (deed : α → Option Deed)
    (w : Workspace ε) : Turn ε :=
  match a w with
  | (.ok x, w) => ⟨next x, w, deed x⟩
  | (.error f, w) => ⟨.done (.error f), w, none⟩

theorem Turn.of_ok {a : Act (Workspace ε) α} {w w' : Workspace ε} {x : α}
    (h : a w = (.ok x, w')) (next : α → Phase) (deed : α → Option Deed) :
    Turn.of a next deed w = ⟨next x, w', deed x⟩ := by
  rw [Turn.of, h]

theorem Turn.of_error {a : Act (Workspace ε) α} {w w' : Workspace ε} {f : Failure}
    (h : a w = (.error f, w')) (next : α → Phase) (deed : α → Option Deed) :
    Turn.of a next deed w = ⟨.done (.error f), w', none⟩ := by
  rw [Turn.of, h]

namespace Errand

variable (s : Service ε) (uri : String) (e : Errand)

/-- The request that the refresh makes. -/
def request : Request :=
  Service.request uri e.id e.document e.settings

/-- The coordinator that answers the request. -/
def coordinator : Coordinator ε where
  settings := e.settings
  invoke := s.invoke
  depth := s.depth

/-- The outcome of the scan. -/
def scanned : Outcome :=
  e.settings.scanOutcome e.document.text

/-- The scan found anything, and the request is the newest one. -/
def checkEarly : Act (Workspace ε) Bool :=
  if e.scanned.success then pure false else Workspace.isCurrent uri e.id

/-- Calls the analyzer if it is enabled. -/
def ask (token : Token) : Act (Workspace ε) Outcome :=
  if e.settings.enabled then
    (e.coordinator s).consult (e.request uri) token e.scanned
  else return e.scanned

/-- The request is the newest one; otherwise it is dropped. -/
def check : Act (Workspace ε) Bool := do
  if ← Workspace.isCurrent uri e.id then return true
  else
    Workspace.note [⟨.debug, .service, "dropping stale outcome for " ++ e.id⟩]
    return false

/-- Shows an outcome with its caveat. -/
def announce (o : Outcome) : Act (Workspace ε) Unit := do
  Service.showCaveat o
  Service.publish uri e.document o

/-- The deed of showing an outcome. -/
def showing (o : Outcome) : Option Deed :=
  (Service.publication uri e.document o).toOption.map .showed

end Errand

namespace Service

variable (s : Service ε) (uri : String)

/-- The turn of a refresh. -/
def advance : Phase → Workspace ε → Turn ε
  | .reading => Turn.of (Act.look fun w => w.document uri) .numbering fun d => some (.read d)
  | .numbering d => Turn.of (Workspace.nextRequestId uri) (.loading d) fun _ => none
  | .loading d id => Turn.of s.coordinator (fun c => .entering ⟨d, id, c.settings⟩) fun _ => none
  | .entering e =>
    Turn.of (Coordinator.enter (e.request uri)) (.checkingEarly e) fun _ => some .began
  | .checkingEarly e token =>
    Turn.of (e.checkEarly uri) (fun b => if b then .showingEarly e token else .calling e token)
      fun b => if b then some .passed else none
  | .showingEarly e token =>
    Turn.of (publish uri e.document e.scanned).attempt
      (fun r => match r with
        | .ok _ => .calling e token
        | .error f => .leaving e (.error f))
      fun _ => e.showing uri e.scanned
  | .calling e token => Turn.of (e.ask s uri token).attempt (.leaving e) fun _ => none
  | .leaving e answer =>
    Turn.of (Coordinator.leave (e.request uri))
      (fun _ => match answer with
        | .ok o => .checking e o
        | .error f => .done (.error f))
      fun _ => none
  | .checking e o =>
    Turn.of (e.check uri) (fun b => if b then .showing e o else .done (.ok none))
      fun b => if b then some .passed else none
  | .showing e o =>
    Turn.of (e.announce uri o) (fun _ => .done (.ok (some o))) fun _ => e.showing uri o
  | .done result => fun w => ⟨.done result, w, none⟩

/-! ### What remains of a refresh -/

/-- What remains of a refresh whose request is still to be answered. -/
def await (e : Errand) (answer : Act (Workspace ε) Outcome) : Act (Workspace ε) (Option Outcome) := do
  let o ← Act.ensuring answer (Coordinator.leave (e.request uri))
  conclude uri e.id e.document o

/-- What remains of a refresh that has taken a name. -/
def load (d : Document) (id : String) : Act (Workspace ε) (Option Outcome) := do
  let c ← s.coordinator
  let o ← c.analyze (request uri id d c.settings) (some (early uri d))
  conclude uri id d o

/-- What remains of a refresh. -/
def rest : Phase → Act (Workspace ε) (Option Outcome)
  | .reading => s.validate uri
  | .numbering d => do
    let id ← Workspace.nextRequestId uri
    s.load uri d id
  | .loading d id => s.load uri d id
  | .entering e => do
    let o ← (e.coordinator s).analyze (e.request uri) (some (early uri e.document))
    conclude uri e.id e.document o
  | .checkingEarly e token =>
    await uri e ((e.coordinator s).answer (some (early uri e.document)) (e.request uri) token)
  | .showingEarly e token =>
    await uri e do
      publish uri e.document e.scanned
      e.ask s uri token
  | .calling e token => await uri e (e.ask s uri token)
  | .leaving e answer => await uri e (Act.ofExcept answer)
  | .checking e o => conclude uri e.id e.document o
  | .showing e o => do
    e.announce uri o
    return some o
  | .done result => Act.ofExcept result

theorem rest_of {a : Act (Workspace ε) α} {next : α → Phase} {deed : α → Option Deed}
    {r : Act (Workspace ε) (Option Outcome)} {w : Workspace ε}
    (h : r w = (a >>= fun x => rest s uri (next x)) w) :
    rest s uri (Turn.of a next deed w).phase (Turn.of a next deed w).workspace = r w := by
  rw [h, Act.bind_apply, Turn.of]
  rcases a w with ⟨f | x, w'⟩ <;> rfl

theorem await_congr {e : Errand} {a a' : Act (Workspace ε) Outcome} {w w' : Workspace ε}
    (h : a w = a' w') : await uri e a w = await uri e a' w' := by
  rw [await, await, Act.bind_apply, Act.bind_apply, Act.ensuring_apply, Act.ensuring_apply, h]

variable (e : Errand) (w : Workspace ε)

theorem checkEarly_apply :
    e.checkEarly uri w = (.ok (!e.scanned.success && w.session.isCurrent uri e.id), w) := by
  rw [Errand.checkEarly]
  cases e.scanned.success <;> rfl

/-- The settings are all that a refresh takes from the coordinator. -/
theorem coordinator_eq {w w' : Workspace ε} {c : Coordinator ε} (h : s.coordinator w = (.ok c, w'))
    (d : Document) (id : String) : c = Errand.coordinator s ⟨d, id, c.settings⟩ := by
  cases hloaded : w.settings with
  | some settings =>
    rw [coordinator_of_loaded hloaded] at h
    obtain rfl := Except.ok.inj (Prod.mk.inj h).1
    rfl
  | none =>
    cases hresolve : Settings.resolve s.files s.root none s.environment [] s.room with
    | error fault =>
      rw [coordinator_of_refusal hloaded hresolve] at h
      exact absurd (Prod.mk.inj h).1 (by simp)
    | ok settings =>
      rw [coordinator_of_resolve hloaded hresolve] at h
      obtain rfl := Except.ok.inj (Prod.mk.inj h).1
      rfl

theorem load_apply (d : Document) (id : String) :
    s.load uri d id w =
      (s.coordinator >>= fun c => s.rest uri (.entering ⟨d, id, c.settings⟩)) w := by
  rw [load, Act.bind_apply, Act.bind_apply]
  rcases h : s.coordinator w with ⟨f | c, w'⟩
  · rfl
  · rw [coordinator_eq s h d id]
    rfl

/-- To answer a request is to show what the scan found if there is reason to, and then to ask the
analyzer. -/
theorem answer_apply (token : Token) :
    (e.coordinator s).answer (some (early uri e.document)) (e.request uri) token w =
      (do
        if !e.scanned.success && w.session.isCurrent uri e.id then
          publish uri e.document e.scanned
        e.ask s uri token) w := by
  show (Coordinator.tell (some (early uri e.document)) (e.request uri) e.scanned >>= fun _ =>
    e.ask s uri token) w = _
  rw [Coordinator.tell]
  cases e.scanned.success with
  | true => rfl
  | false =>
    rw [if_neg Bool.false_ne_true, early, bind_assoc]
    rw [Act.run_bind (Workspace.isCurrent_apply w uri (e.request uri).id),
      show (e.request uri).id = e.id from rfl]
    cases w.session.isCurrent uri e.id <;> rfl

/-- A turn leaves as much of the refresh to do as there was before it. -/
theorem rest_advance (phase : Phase) :
    rest s uri (s.advance uri phase w).phase (s.advance uri phase w).workspace =
      rest s uri phase w := by
  cases phase with
  | reading => exact rest_of s uri rfl
  | numbering d => exact rest_of s uri rfl
  | loading d id => exact rest_of s uri (load_apply s uri w d id)
  | entering e =>
    refine rest_of s uri ?_
    rw [rest, Coordinator.analyze, bind_assoc]
    rfl
  | checkingEarly e token =>
    refine rest_of s uri ?_
    rw [Act.run_bind (checkEarly_apply uri e w), rest, await_congr uri (answer_apply s uri e w token)]
    cases !e.scanned.success && w.session.isCurrent uri e.id <;> rfl
  | showingEarly e token =>
    refine rest_of s uri ?_
    rw [Act.run_bind (Act.attempt_apply _ w), rest]
    rcases h : publish uri e.document e.scanned w with ⟨f | _, w'⟩
    · exact await_congr uri (Act.fail_bind h _)
    · exact await_congr uri (Act.run_bind h _)
  | calling e token =>
    refine rest_of s uri ?_
    rw [Act.run_bind (Act.attempt_apply _ w)]
    exact await_congr uri rfl
  | leaving e answer =>
    refine rest_of s uri ?_
    rw [rest, await, Act.bind_apply, Act.ensuring_apply, Act.ofExcept_apply, Coordinator.leave_apply,
      Act.run_bind (Coordinator.leave_apply _ w)]
    cases answer <;> rfl
  | checking e o =>
    refine rest_of s uri ?_
    rw [rest, conclude, Errand.check, bind_assoc]
    rw [Act.run_bind (Workspace.isCurrent_apply w uri e.id),
      Act.run_bind (Workspace.isCurrent_apply w uri e.id)]
    cases w.session.isCurrent uri e.id with
    | true =>
      rw [if_pos rfl, if_pos rfl, pure_bind, if_pos rfl, rest, Errand.announce, bind_assoc]
    | false => rfl
  | showing e o => exact rest_of s uri rfl
  | done result => rfl

/-! ### Turns with nothing in between -/

/-- A number of turns with nothing in between. -/
def turns : Nat → Phase → Workspace ε → Phase × Workspace ε
  | 0, phase, w => (phase, w)
  | n + 1, phase, w => turns n (s.advance uri phase w).phase (s.advance uri phase w).workspace

theorem rank_of {a : Act (Workspace ε) α} {next : α → Phase} {deed : α → Option Deed} {n : Nat}
    (h : ∀ x, (next x).rank ≤ n) : (Turn.of a next deed w).phase.rank ≤ n := by
  rw [Turn.of]
  split
  · exact h _
  · exact Nat.zero_le n

theorem rank_advance (phase : Phase) :
    (s.advance uri phase w).phase.rank ≤ phase.rank - 1 := by
  cases phase with
  | checkingEarly e token => exact rank_of w fun b => by cases b <;> simp [Phase.rank]
  | showingEarly e token => exact rank_of w fun r => by cases r <;> simp [Phase.rank]
  | leaving e answer => exact rank_of w fun _ => by cases answer <;> simp [Phase.rank]
  | checking e o => exact rank_of w fun b => by cases b <;> simp [Phase.rank]
  | done result => exact Nat.le_refl _
  | _ => exact rank_of w fun _ => Nat.le_refl _

theorem rest_turns (n : Nat) : ∀ (phase : Phase) (w : Workspace ε),
    rest s uri (s.turns uri n phase w).1 (s.turns uri n phase w).2 = rest s uri phase w := by
  induction n with
  | zero => exact fun _ _ => rfl
  | succ n ih => exact fun phase w => (ih _ _).trans (rest_advance s uri w phase)

theorem rank_turns (n : Nat) : ∀ (phase : Phase) (w : Workspace ε),
    (s.turns uri n phase w).1.rank ≤ phase.rank - n := by
  induction n with
  | zero => exact fun _ _ => Nat.le_refl _
  | succ n ih =>
    intro phase w
    have hfirst := rank_advance s uri w phase
    have hothers := ih (s.advance uri phase w).phase (s.advance uri phase w).workspace
    rw [turns]
    omega

/-- Ten turns with nothing in between are a refresh. -/
theorem validate_eq_turns :
    s.turns uri 10 .reading w = (.done (s.validate uri w).1, (s.validate uri w).2) := by
  have hrest := rest_turns s uri 10 .reading w
  have hrank := rank_turns s uri 10 .reading w
  rcases hturns : s.turns uri 10 .reading w with ⟨phase, w'⟩
  rw [hturns] at hrest hrank
  cases phase with
  | done result =>
    rw [show s.validate uri w = (result, w') from hrest.symm]
  | _ => exact absurd hrank (by simp [Phase.rank])

/-! ### What others can see -/

/-- The analyzer keeps to its own surroundings. -/
def Aloof (invoke : Invoker ε) : Prop :=
  ∀ call token w, ∃ log surroundings,
    (invoke call token w).2 = { w with log := log, surroundings := surroundings }

/-- Other refreshes see no difference between two workspaces. -/
structure Quiet (w w' : Workspace ε) : Prop where
  documents : w'.documents = w.documents
  published : w'.published = w.published
  nextNumber : w'.nextNumber = w.nextNumber
  latest : w'.session.latest = w.session.latest

theorem quiet_refl : Quiet w w :=
  ⟨rfl, rfl, rfl, rfl⟩

/-- What a turn of a refresh can come to: the phase before it, the deed, and the phase and the workspace
after it. -/
inductive Takes (uri : String) (w : Workspace ε) :
    Phase → Option Deed → Phase → Workspace ε → Prop where
  | read : Takes uri w .reading (some (.read (w.document uri))) (.numbering (w.document uri)) w
  | number (d : Document) :
      Takes uri w (.numbering d) none (.loading d (requestId uri w))
        { w with nextNumber := w.nextNumber + 1 }
  | load {d : Document} {id : String} {w' : Workspace ε} (settings : Settings) (hq : Quiet w w') :
      Takes uri w (.loading d id) none (.entering ⟨d, id, settings⟩) w'
  | enter (e : Errand) (token : Token) :
      Takes uri w (.entering e) (some .began) (.checkingEarly e token)
        { w with session := (w.session.begin uri e.id).2 }
  | passEarly {e : Errand} (token : Token) (hcurrent : w.session.isCurrent uri e.id = true) :
      Takes uri w (.checkingEarly e token) (some .passed) (.showingEarly e token) w
  | skipEarly (e : Errand) (token : Token) :
      Takes uri w (.checkingEarly e token) none (.calling e token) w
  | showEarly {e : Errand} {p : Publication} (token : Token) (o : Outcome)
      (hp : publication uri e.document o = .ok p) :
      Takes uri w (.showingEarly e token) (some (.showed p)) (.calling e token)
        { w with published := w.published ++ [p] }
  | failEarly (e : Errand) (token : Token) (f : Failure) :
      Takes uri w (.showingEarly e token) none (.leaving e (.error f)) w
  | call {w' : Workspace ε} (e : Errand) (token : Token) (answer : Except Failure Outcome)
      (hq : Quiet w w') : Takes uri w (.calling e token) none (.leaving e answer) w'
  | leave {w' : Workspace ε} (e : Errand) (o : Outcome) (hq : Quiet w w') :
      Takes uri w (.leaving e (.ok o)) none (.checking e o) w'
  | pass {e : Errand} {w' : Workspace ε} (o : Outcome)
      (hcurrent : w.session.isCurrent uri e.id = true) (hq : Quiet w w') :
      Takes uri w (.checking e o) (some .passed) (.showing e o) w'
  | drop {e : Errand} {w' : Workspace ε} (o : Outcome)
      (hstale : w.session.isCurrent uri e.id = false) (hq : Quiet w w') :
      Takes uri w (.checking e o) none (.done (.ok none)) w'
  | announce {e : Errand} {o : Outcome} {p : Publication} {w' : Workspace ε}
      (hp : publication uri e.document o = .ok p)
      (hq : Quiet { w with published := w.published ++ [p] } w') :
      Takes uri w (.showing e o) (some (.showed p)) (.done (.ok (some o))) w'
  | fail {w' : Workspace ε} (phase : Phase) (f : Failure) (hq : Quiet w w') :
      Takes uri w phase none (.done (.error f)) w'
  | stay (result : Except Failure (Option Outcome)) :
      Takes uri w (.done result) none (.done result) w

theorem coordinator_cases : ∃ result settings,
    s.coordinator w = (result, { w with settings := settings }) := by
  cases hloaded : w.settings with
  | some settings => exact ⟨_, w.settings, coordinator_of_loaded hloaded⟩
  | none =>
    cases hresolve : Settings.resolve s.files s.root none s.environment [] s.room with
    | error fault => exact ⟨_, w.settings, coordinator_of_refusal hloaded hresolve⟩
    | ok settings => exact ⟨_, some settings, coordinator_of_resolve hloaded hresolve⟩

theorem publish_cases (o : Outcome) :
    (∃ p, publication uri e.document o = .ok p ∧ publish uri e.document o w =
        (.ok (), { w with published := w.published ++ [p] })) ∨
      ∃ f, publication uri e.document o = .error f ∧ publish uri e.document o w = (.error f, w) := by
  cases h : publication uri e.document o with
  | ok p =>
    refine Or.inl ⟨p, rfl, ?_⟩
    rw [publish, h]
    rfl
  | error f =>
    refine Or.inr ⟨f, rfl, ?_⟩
    rw [publish, h]
    rfl

theorem consult_after {c : Coordinator ε} (h : Aloof c.invoke) (r : Request) (token : Token)
    (scanned : Outcome) : ∃ log surroundings, (c.consult r token scanned w).2 =
      { w with log := log, surroundings := surroundings } := by
  by_cases hpos : 0 < r.deadlineMs
  · obtain ⟨log, hconsult⟩ := Coordinator.consult_apply c r scanned token w hpos
    obtain ⟨_, surroundings, hinvoke⟩ := h (c.settings.call r) token w
    exact ⟨log, surroundings, by rw [hconsult, hinvoke]⟩
  · obtain ⟨log, hconsult⟩ :=
      Coordinator.consult_of_nonpos c r scanned token w (Int.not_lt.mp hpos)
    exact ⟨log, w.surroundings, congrArg Prod.snd hconsult⟩

theorem ask_after {s : Service ε} (h : Aloof s.invoke) (token : Token) :
    ∃ log surroundings, (e.ask s uri token w).2 =
      { w with log := log, surroundings := surroundings } := by
  rw [Errand.ask]
  split
  · exact consult_after w h (e.request uri) token e.scanned
  · exact ⟨w.log, w.surroundings, rfl⟩

theorem check_apply : ∃ log,
    e.check uri w = (.ok (w.session.isCurrent uri e.id), { w with log := log }) := by
  rw [Errand.check, Act.run_bind (Workspace.isCurrent_apply w uri e.id)]
  cases w.session.isCurrent uri e.id with
  | true => exact ⟨w.log, rfl⟩
  | false => exact ⟨_, rfl⟩

theorem announce_cases (o : Outcome) : ∃ messages,
    (∃ p, publication uri e.document o = .ok p ∧ e.announce uri o w =
        (.ok (), { w with messages := messages, published := w.published ++ [p] })) ∨
      ∃ f, publication uri e.document o = .error f ∧
        e.announce uri o w = (.error f, { w with messages := messages }) := by
  obtain ⟨messages, hcaveat⟩ := showCaveat_apply o w
  refine ⟨messages, ?_⟩
  rw [Errand.announce, Act.run_bind hcaveat]
  exact publish_cases uri e { w with messages := messages } o

/-- A turn comes to one of these. -/
def ComesTo (uri : String) (w : Workspace ε) (phase : Phase) (t : Turn ε) : Prop :=
  Takes uri w phase t.deed t.phase t.workspace

section

variable {w} {a : Act (Workspace ε) α} {next : α → Phase} {deed : α → Option Deed} {w' : Workspace ε}
  {phase : Phase}

theorem comesTo_of_ok {x : α} (h : a w = (.ok x, w')) (ht : Takes uri w phase (deed x) (next x) w') :
    ComesTo uri w phase (Turn.of a next deed w) := by
  rwa [Turn.of_ok h]

theorem comesTo_of_error {f : Failure} (h : a w = (.error f, w')) (hq : Quiet w w') :
    ComesTo uri w phase (Turn.of a next deed w) := by
  rw [Turn.of_error h]
  exact .fail phase f hq

end

/-- What a turn comes to if the analyzer keeps to itself. -/
theorem advance_takes {s : Service ε} (h : Aloof s.invoke) (phase : Phase) :
    ComesTo uri w phase (s.advance uri phase w) := by
  cases phase with
  | reading => exact .read
  | numbering d => exact .number d
  | loading d id =>
    obtain ⟨f | c, settings, hc⟩ := coordinator_cases s w
    · exact comesTo_of_error uri hc ⟨rfl, rfl, rfl, rfl⟩
    · exact comesTo_of_ok uri hc (.load c.settings ⟨rfl, rfl, rfl, rfl⟩)
  | entering e => exact .enter e _
  | checkingEarly e token =>
    refine comesTo_of_ok uri (checkEarly_apply uri e w) ?_
    cases hcurrent : w.session.isCurrent uri e.id with
    | true =>
      cases e.scanned.success with
      | true => exact .skipEarly e token
      | false => exact .passEarly token hcurrent
    | false =>
      rw [Bool.and_false]
      exact .skipEarly e token
  | showingEarly e token =>
    rw [advance.eq_def]
    refine comesTo_of_ok uri (Act.attempt_apply _ w) ?_
    rcases publish_cases uri e w e.scanned with ⟨p, hp, hpublish⟩ | ⟨f, hf, hpublish⟩
    · rw [hpublish, Errand.showing, hp]
      exact .showEarly token e.scanned hp
    · rw [hpublish, Errand.showing, hf]
      exact .failEarly e token f
  | calling e token =>
    obtain ⟨log, surroundings, hask⟩ := ask_after uri e w h token
    rw [advance.eq_def]
    refine comesTo_of_ok uri (Act.attempt_apply _ w) ?_
    rw [hask]
    exact .call e token _ ⟨rfl, rfl, rfl, rfl⟩
  | leaving e answer =>
    rw [advance.eq_def]
    refine comesTo_of_ok uri (Coordinator.leave_apply _ w) ?_
    have hq : Quiet w { w with session := Coordinator.exit (e.request uri) w.session } :=
      ⟨rfl, rfl, rfl, Session.finish_latest _ _ _⟩
    cases answer with
    | ok o => exact .leave e o hq
    | error f => exact .fail _ f hq
  | checking e o =>
    obtain ⟨log, hcheck⟩ := check_apply uri e w
    refine comesTo_of_ok uri hcheck ?_
    cases hcurrent : w.session.isCurrent uri e.id with
    | true => exact .pass o hcurrent ⟨rfl, rfl, rfl, rfl⟩
    | false => exact .drop o hcurrent ⟨rfl, rfl, rfl, rfl⟩
  | showing e o =>
    obtain ⟨messages, ⟨p, hp, hshow⟩ | ⟨f, hf, hshow⟩⟩ := announce_cases uri e w o
    · refine comesTo_of_ok uri hshow ?_
      rw [Errand.showing, hp]
      exact .announce hp ⟨rfl, rfl, rfl, rfl⟩
    · exact comesTo_of_error uri hshow ⟨rfl, rfl, rfl, rfl⟩
  | done result => exact .stay result

end Service

end AnalyzerBridge
