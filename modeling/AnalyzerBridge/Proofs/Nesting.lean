/-
Handlers inside handlers, and the names of their requests.

An analyzer may run handlers before it answers, whose analyzers may do so again (`Nested`).  Such
handlers are no others than those that take turns beside each other: what runs inside a call is
what others do just before it is answered.

* `turn_replays` — the turn of a handler is that of one whose analyzer has answered, after
  what the analyzer did;
* `Move.beside` — what handlers do by themselves they do beside others;
* `Reachable.handle`, `Reachable.execute` — hence a whole handler leads from one point of a run
  to another, whatever its analyzer runs;
* `hosts_of_nested` — and so does an analyzer that runs handlers, to any depth;
* `names_identify_requests` — in every run, the session knows a request by its name; what handlers
  inside each other come to, a run comes to.

Design notes: an analyzer that has answered gives the same answer again and does nothing more;
it stands in for the one that answers only once.
-/
import AnalyzerBridge.Proofs.Handlers

namespace AnalyzerBridge

variable {ε α : Type}

/-! ### Analyzers that have answered -/

/-- The service whose analyzer has answered. -/
def Service.answering (s : Service ε) (r : Except Failure RawOutput) : Service ε :=
  { s with invoke := fun _ _ => Act.ofExcept r }

theorem aloof_answering (s : Service ε) (r : Except Failure RawOutput) :
    Service.Aloof (s.answering r).invoke :=
  fun _ _ w => ⟨w.log, w.surroundings, rfl⟩

/-- What an analyzer leaves behind if it is called at most once. -/
def Invoker.Leaves (invoke : Invoker ε) (w w' : Workspace ε) : Prop :=
  w' = w ∨ ∃ call token, w' = (invoke call token w).2

/-- What is done with an analyzer is done with one that has answered, from the workspace that the first
one leaves behind. -/
def Replays (s : Service ε) (w : Workspace ε) (after : Service ε → Workspace ε → α) : Prop :=
  ∃ r w', Invoker.Leaves s.invoke w w' ∧ after s w = after (s.answering r) w'

section Answering

variable (s : Service ε) (w : Workspace ε)

theorem replays_of_eq {after : Service ε → Workspace ε → α}
    (h : ∀ r, after s w = after (s.answering r) w) : Replays s w after :=
  ⟨.error .unending, w, .inl rfl, h _⟩

/-- What is made of an answer is made of it again. -/
theorem Replays.map {β : Type} {after : Service ε → Workspace ε → α} (h : Replays s w after)
    (f : α → β) : Replays s w fun s w => f (after s w) := by
  obtain ⟨r, w', hleaves, heq⟩ := h
  exact ⟨r, w', hleaves, congrArg f heq⟩

theorem Replays.bind {β : Type} {a : Service ε → Act (Workspace ε) α}
    (h : Replays s w fun s w => a s w) (k : α → Act (Workspace ε) β) :
    Replays s w fun s w => (a s >>= k) w := by
  obtain ⟨r, w', hleaves, heq⟩ := h
  have hsame : a s w = a (s.answering r) w' := heq
  refine ⟨r, w', hleaves, ?_⟩
  show (a s >>= k) w = (a (s.answering r) >>= k) w'
  rw [Act.bind_apply, Act.bind_apply, hsame]

/-- The settings are loaded whatever the analyzer is. -/
theorem coordinator_answering (r : Except Failure RawOutput) :
    ∃ (result : Except Failure Settings) (w' : Workspace ε),
      s.coordinator w = (result.map fun settings => ⟨settings, s.invoke, none, s.depth⟩, w') ∧
        (s.answering r).coordinator w =
          (result.map fun settings =>
            ⟨settings, (s.answering r).invoke, none, (s.answering r).depth⟩, w') := by
  cases hloaded : w.settings with
  | some settings =>
    exact ⟨.ok settings, w, Service.coordinator_of_loaded hloaded,
      Service.coordinator_of_loaded hloaded⟩
  | none =>
    cases hresolve : Settings.resolve s.files s.root none s.environment [] s.room with
    | error fault =>
      exact ⟨.error fault, w, Service.coordinator_of_refusal hloaded hresolve,
        Service.coordinator_of_refusal hloaded hresolve⟩
    | ok settings =>
      exact ⟨.ok settings, { w with settings := some settings },
        Service.coordinator_of_resolve hloaded hresolve,
        Service.coordinator_of_resolve hloaded hresolve⟩

theorem consult_replays (settings : Settings) (q : Request) (token : Token) (scanned : Outcome) :
    Replays s w fun s w => Coordinator.consult ⟨settings, s.invoke, none, s.depth⟩ q token scanned w := by
  by_cases hpos : q.deadlineMs ≤ 0
  · refine replays_of_eq s w fun r => ?_
    show Coordinator.consult _ q token scanned w = Coordinator.consult _ q token scanned w
    rw [Coordinator.consult, Coordinator.consult, if_pos hpos, if_pos hpos]
  · refine ⟨(s.invoke (settings.call q) token w).1, (s.invoke (settings.call q) token w).2,
      .inr ⟨_, _, rfl⟩, ?_⟩
    show Coordinator.consult _ q token scanned w = Coordinator.consult _ q token scanned _
    rw [Coordinator.consult, Coordinator.consult, if_neg hpos, if_neg hpos,
      Act.run_bind (Act.attempt_apply _ w), Act.run_bind (Act.attempt_apply _ _)]
    rfl

/-- The analyzer is called if it is enabled. -/
theorem enabled_replays (settings : Settings) (q : Request) (token : Token) (scanned : Outcome) :
    Replays s w fun s w =>
      if settings.enabled then Coordinator.consult ⟨settings, s.invoke, none, s.depth⟩ q token scanned w
      else (.ok scanned, w) := by
  cases settings.enabled with
  | true => exact consult_replays s w settings q token scanned
  | false => exact replays_of_eq s w fun _ => rfl

theorem ask_replays (uri : String) (e : Errand) (token : Token) :
    Replays s w fun s w => e.ask s uri token w := by
  have hask : ∀ (s : Service ε) w, e.ask s uri token w =
      if e.settings.enabled then
        Coordinator.consult ⟨e.settings, s.invoke, none, s.depth⟩ (e.request uri) token e.scanned w
      else (.ok e.scanned, w) := by
    intro s w
    rw [Errand.ask]
    cases e.settings.enabled <;> rfl
  simpa only [hask] using enabled_replays s w e.settings (e.request uri) token e.scanned

theorem reply_replays (m : Commission) (id : String) (token : Token) :
    Replays s w fun s w => m.reply s id token w := by
  have hanswer : ∀ (s : Service ε) w, (m.coordinator s).answer none (m.request id) token w =
      if m.settings.enabled then
        Coordinator.consult ⟨m.settings, s.invoke, none, s.depth⟩ (m.request id) token
          (m.settings.scanOutcome (m.request id).source) w
      else (.ok (m.settings.scanOutcome (m.request id).source), w) :=
    fun s w => Coordinator.answer_of_tell (m.coordinator s) (m.request id) rfl token
  refine Replays.bind s w ?_ _
  simpa only [hanswer] using enabled_replays s w m.settings (m.request id) token _

theorem advance_replays (uri : String) (phase : Phase) :
    Replays s w fun s w => s.advance uri phase w := by
  cases phase with
  | loading d id =>
    refine replays_of_eq s w fun r => ?_
    obtain ⟨result, w', hc, hc'⟩ := coordinator_answering s w r
    show Turn.of s.coordinator _ _ w = Turn.of (s.answering r).coordinator _ _ w
    cases result with
    | error f => rw [Turn.of_error hc, Turn.of_error hc']
    | ok settings => rw [Turn.of_ok hc, Turn.of_ok hc']
  | calling e token =>
    have hturn := (ask_replays s w uri e token).map s w
      fun p => (⟨.leaving e p.1, p.2, none⟩ : Turn ε)
    exact hturn
  | _ => exact replays_of_eq s w fun _ => rfl

theorem inquire_replays (phase : Inquiry) : Replays s w fun s w => s.inquire phase w := by
  cases phase with
  | loading command =>
    refine replays_of_eq s w fun r => ?_
    obtain ⟨result, w', hc, hc'⟩ := coordinator_answering s w r
    show Inquiry.of s.coordinator _ w = Inquiry.of (s.answering r).coordinator _ w
    cases result with
    | error f => rw [Inquiry.of_error hc, Inquiry.of_error hc']
    | ok settings => rw [Inquiry.of_ok hc, Inquiry.of_ok hc']
  | calling m id token =>
    have hturn := (reply_replays s w m id token).map s w fun p =>
      Inquiry.of (fun _ => p) (fun r => .done (.ok r)) w
    exact hturn
  | _ => exact replays_of_eq s w fun _ => rfl

/-- The turn of a handler is that of one whose analyzer has answered, after what the analyzer did. -/
theorem turn_replays (job : Job) : Replays s w fun s w => Job.turn s (job, w) := by
  cases job with
  | refresh uri phase =>
    have hturn := (advance_replays s w uri phase).map s w
      fun turn => (Job.refresh uri turn.phase, turn.workspace)
    exact hturn
  | command phase =>
    have hturn := (inquire_replays s w phase).map s w fun p => (Job.command p.1, p.2)
    exact hturn
  | _ => exact replays_of_eq s w fun _ => rfl

end Answering

/-! ### Analyzers that run handlers -/

/-- What a service is asked to do: to respond to a notification, or to run the analyze command. -/
inductive Demand where
  | notification (n : Service.Notification)
  | command (payload : Value)

namespace Service

/-- Does what is asked, and gives no answer. -/
def meet (s : Service ε) : Demand → Act (Workspace ε) Unit
  | .notification n => s.handle n
  | .command payload => do let _ ← s.execute payload

/-- Does what is asked one after another; the failure of one is no matter of the others. -/
def meetAll (s : Service ε) (ds : List Demand) : Act (Workspace ε) Unit :=
  ds.forM fun d => do let _ ← (s.meet d).attempt

theorem meetAll_cons (s : Service ε) (d : Demand) (ds : List Demand) (w : Workspace ε) :
    s.meetAll (d :: ds) w = s.meetAll ds (s.meet d w).2 :=
  rfl

theorem succeeds_meetAll (s : Service ε) (ds : List Demand) : Act.Succeeds (s.meetAll ds) := by
  intro w
  induction ds generalizing w with
  | nil => exact ⟨(), w, rfl⟩
  | cons d ds ih => exact ih (s.meet d w).2

end Service

/-- The analyzer that does what a service is asked before it answers. -/
def handling (s : Service ε) (told : Call → List Demand)
    (answer : Call → Except Failure RawOutput) : Invoker ε := fun call _ => do
  s.meetAll (told call)
  Act.ofExcept (answer call)

theorem handling_apply (s : Service ε) (told : Call → List Demand)
    (answer : Call → Except Failure RawOutput) (call : Call) (token : Token) (w : Workspace ε) :
    handling s told answer call token w = (answer call, (s.meetAll (told call) w).2) := by
  obtain ⟨_, w', hmet⟩ := s.succeeds_meetAll (told call) w
  rw [handling, Act.run_bind hmet, hmet]
  rfl

/-- An analyzer keeps to itself, or it runs handlers whose analyzer is one of these again. -/
inductive Nested : Invoker ε → Prop where
  | aloof {invoke : Invoker ε} (h : Service.Aloof invoke) : Nested invoke
  | handling {s : Service ε} (told : Call → List Demand) (answer : Call → Except Failure RawOutput)
      (h : Nested s.invoke) : Nested (handling s told answer)

/-! ### Handlers beside others -/

/-- An entry about a handler in a place further on. -/
def Entry.moved (n : Nat) : Entry → Entry
  | .named i id => .named (n + i) id
  | .did i x => .did (n + i) x

theorem writes_moved (job : Job) (n i : Nat) (w : Workspace ε) :
    job.writes (n + i) w = (job.writes i w).map (Entry.moved n) := by
  cases job with
  | refresh uri phase => cases phase <;> rfl
  | command phase =>
    cases phase with
    | naming m =>
      rw [Job.writes, Job.writes]
      split <;> rfl
    | _ => rfl
  | _ => rfl

namespace Handlers

variable {w₀ : Workspace ε} {t u u' : Handlers ε}

/-- Handlers go on beside others, which stay where they are. -/
def beside (t u : Handlers ε) : Handlers ε where
  workspace := u.workspace
  jobs := t.jobs ++ u.jobs
  register := t.register ++ u.register.map (Entry.moved t.jobs.length)

theorem beside_nobody (t : Handlers ε) : t.beside { workspace := t.workspace } = t := by
  rw [beside, List.append_nil, List.map_nil, List.append_nil]

theorem beside_go (t u : Handlers ε) (s : Service ε) (i : Nat) :
    t.beside (u.go s i) = (t.beside u).go s (t.jobs.length + i) := by
  have hplace : (t.beside u).jobs[t.jobs.length + i]? = u.jobs[i]? := by
    rw [beside, List.getElem?_append_right (Nat.le_add_right _ _), Nat.add_sub_cancel_left]
  rw [go, go, hplace]
  cases u.jobs[i]? with
  | none => rfl
  | some job =>
    simp only [beside, writes_moved, List.map_append, List.append_assoc, mk.injEq, true_and]
    refine ⟨?_, ?_⟩
    · rw [List.set_append_right _ _ (Nat.le_add_right _ _), Nat.add_sub_cancel_left]
    · cases job.writes i u.workspace <;> rfl

/-- What a handler does by itself it does beside others. -/
theorem Move.beside (h : Move u u') (t : Handlers ε) : Move (t.beside u) (t.beside u') := by
  cases h with
  | start hfresh =>
    show Move _ ⟨u.workspace, t.jobs ++ (u.jobs ++ [_]), _⟩
    rw [← List.append_assoc]
    exact .start hfresh
  | go h i =>
    rw [beside_go]
    exact .go h _
  | aside hsession hnumber => exact .aside hsession hnumber

theorem Reachable.beside (h : Reachable w₀ t) (hu : Reachable t.workspace u) :
    Reachable w₀ (t.beside u) := by
  have hlift : Relation.ReflTransGen Move (t.beside { workspace := t.workspace }) (t.beside u) :=
    hu.lift t.beside fun _ _ hmove => hmove.beside t
  rw [beside_nobody] at hlift
  exact Relation.ReflTransGen.trans h hlift

/-! ### Handlers inside calls -/

/-- What an analyzer does is done by handlers that take turns. -/
def Hosts (invoke : Invoker ε) : Prop :=
  ∀ call token w, ∃ t : Handlers ε, Reachable w t ∧ t.workspace = (invoke call token w).2

/-- The run goes on to a workspace, and keeps what was written down. -/
def Reaches (w₀ : Workspace ε) (t : Handlers ε) (w : Workspace ε) : Prop :=
  ∃ t', Reachable w₀ t' ∧ t'.workspace = w ∧ t.register <+: t'.register

variable {s : Service ε} {job : Job}

/-- What an analyzer leaves behind a run may come to, with every handler in its place. -/
theorem Reachable.leaves {invoke : Invoker ε} {w : Workspace ε} (h : Reachable w₀ t)
    (hs : Hosts invoke) (hleaves : invoke.Leaves t.workspace w) : ∃ t₁, Reachable w₀ t₁ ∧
      t₁.workspace = w ∧ t.jobs <+: t₁.jobs ∧ t.register <+: t₁.register := by
  rcases hleaves with rfl | ⟨call, token, rfl⟩
  · exact ⟨t, h, rfl, List.prefix_rfl, List.prefix_rfl⟩
  · obtain ⟨u, hu, hw⟩ := hs call token t.workspace
    exact ⟨t.beside u, h.beside hu, hw, List.prefix_append _ _, List.prefix_append _ _⟩

/-- A handler takes its turn in a run, whatever its analyzer runs meanwhile. -/
theorem Reachable.turn (h : Reachable w₀ t) (hs : Hosts s.invoke) {i : Nat}
    (hjob : t.jobs[i]? = some job) : ∃ t', Reachable w₀ t' ∧
      t'.workspace = (Job.turn s (job, t.workspace)).2 ∧
      t'.jobs[i]? = some (Job.turn s (job, t.workspace)).1 ∧ t.register <+: t'.register := by
  obtain ⟨r, w, hleaves, hturn⟩ := turn_replays s t.workspace job
  obtain ⟨t₁, hreach, rfl, ⟨others, hjobs⟩, hprefix⟩ := h.leaves hs hleaves
  have hturn : Job.turn s (job, t.workspace) = Job.turn (s.answering r) (job, t₁.workspace) := hturn
  obtain ⟨hi, -⟩ := List.getElem?_eq_some_iff.mp hjob
  have hjob₁ : t₁.jobs[i]? = some job := by
    rw [← hjobs, List.getElem?_append_left hi, hjob]
  refine ⟨t₁.go (s.answering r) i, hreach.tail (.go (aloof_answering s r) i), ?_⟩
  rw [hturn, Handlers.go, hjob₁]
  obtain ⟨hi, -⟩ := List.getElem?_eq_some_iff.mp hjob₁
  exact ⟨rfl, List.getElem?_set_self hi, hprefix.trans (List.prefix_append _ _)⟩

theorem Reachable.turns (h : Reachable w₀ t) (hs : Hosts s.invoke) {i : Nat}
    (hjob : t.jobs[i]? = some job) (n : Nat) :
    Reaches w₀ t ((Job.turn s)^[n] (job, t.workspace)).2 := by
  induction n generalizing t job with
  | zero => exact ⟨t, h, rfl, List.prefix_rfl⟩
  | succ n ih =>
    obtain ⟨t₁, hreach, hw, hjob₁, hprefix⟩ := h.turn hs hjob
    obtain ⟨t', hreach', hw', hprefix'⟩ := ih hreach hjob₁
    refine ⟨t', hreach', ?_, hprefix.trans hprefix'⟩
    rw [hw', hw, Function.iterate_succ_apply]

/-- A handler starts and takes its turns in a run, whatever its analyzer runs meanwhile. -/
theorem Reachable.handler (h : Reachable w₀ t) (hs : Hosts s.invoke) (hfresh : job.Fresh) (n : Nat) :
    Reaches w₀ t ((Job.turn s)^[n] (job, t.workspace)).2 := by
  have hplace : (t.jobs ++ [job])[t.jobs.length]? = some job := List.getElem?_concat_length
  exact Reachable.turns (h.tail (.start hfresh)) hs hplace n

/-- A whole command is part of a run. -/
theorem Reachable.execute (h : Reachable w₀ t) (hs : Hosts s.invoke) (payload : Value) :
    Reaches w₀ t (s.execute payload t.workspace).2 := by
  have hfresh : (Job.command (.received payload)).Fresh := ⟨payload, rfl⟩
  have hrun := h.handler hs hfresh 5
  rwa [(Job.handlers_eq_turns s "" payload t.workspace).2.1] at hrun

/-- A whole refresh, or the closing of a document, is part of a run. -/
theorem Reachable.handle (h : Reachable w₀ t) (hs : Hosts s.invoke) (n : Service.Notification) :
    Reaches w₀ t (s.handle n t.workspace).2 := by
  cases n with
  | refresh uri =>
    have hfresh : (Job.refresh uri .reading).Fresh := rfl
    have hrun := h.handler hs hfresh 10
    rw [(Job.handlers_eq_turns s uri .null t.workspace).1] at hrun
    rw [Service.handle, Act.bind_apply]
    rcases hvalidate : s.validate uri t.workspace with ⟨f | o, w⟩
    · rwa [hvalidate] at hrun
    · rwa [hvalidate] at hrun
  | close uri =>
    have hfresh : (Job.closing uri).Fresh := trivial
    have hrun := h.handler hs hfresh 2
    rwa [(Job.handlers_eq_turns s uri .null t.workspace).2.2] at hrun

/-- Whatever a service is asked to do is part of a run. -/
theorem Reachable.meet (h : Reachable w₀ t) (hs : Hosts s.invoke) (d : Demand) :
    Reaches w₀ t (s.meet d t.workspace).2 := by
  cases d with
  | notification n => exact h.handle hs n
  | command payload =>
    have hrun := h.execute hs payload
    rw [Service.meet, Act.bind_apply]
    rcases hexecute : s.execute payload t.workspace with ⟨f | r, w⟩
    · rwa [hexecute] at hrun
    · rwa [hexecute] at hrun

/-- What a service is asked to do one after another is part of a run. -/
theorem Reachable.meetAll (h : Reachable w₀ t) (hs : Hosts s.invoke) (ds : List Demand) :
    Reaches w₀ t (s.meetAll ds t.workspace).2 := by
  induction ds generalizing t with
  | nil => exact ⟨t, h, rfl, List.prefix_rfl⟩
  | cons d ds ih =>
    obtain ⟨t₁, hreach, hw, hprefix⟩ := h.meet hs d
    obtain ⟨t', hreach', hw', hprefix'⟩ := ih hreach
    refine ⟨t', hreach', ?_, hprefix.trans hprefix'⟩
    rw [hw', hw, Service.meetAll_cons]

theorem hosts_of_aloof {invoke : Invoker ε} (h : Service.Aloof invoke) : Hosts invoke := by
  intro call token w
  obtain ⟨log, surroundings, hw⟩ := h call token w
  refine ⟨{ workspace := (invoke call token w).2 }, Relation.ReflTransGen.single ?_, rfl⟩
  rw [hw]
  exact .aside rfl rfl

/-- An analyzer that runs handlers may be the analyzer of handlers. -/
theorem hosts_handling (hs : Hosts s.invoke) (told : Call → List Demand)
    (answer : Call → Except Failure RawOutput) : Hosts (handling s told answer) := by
  intro call token w
  have hnobody : Reachable w { workspace := w } := Relation.ReflTransGen.refl
  obtain ⟨t, hreach, hw, -⟩ := hnobody.meetAll hs (told call)
  refine ⟨t, hreach, ?_⟩
  rw [hw, handling_apply]

theorem hosts_of_nested {invoke : Invoker ε} (h : Nested invoke) : Hosts invoke := by
  induction h with
  | aloof h => exact hosts_of_aloof h
  | handling told answer _ ih => exact hosts_handling ih told answer

/-! ### The names of requests -/

/-- Names that are taken one after another are distinct; and while handlers run, no two of them take the
same name, and the session knows the request of each by its name.  Handlers that run inside the calls
of others, to any depth, are among those. -/
theorem names_identify_requests (w₀ : Workspace ε) :
    (∀ uris : List String, ∃ ids w, uris.mapM Workspace.nextRequestId w₀ = (.ok ids, w) ∧
      ids.length = uris.length ∧ ids.Nodup) ∧
    (w₀.session = {} → ∀ t : Handlers ε, Reachable w₀ t →
      t.names.Nodup ∧ t.workspace.nextNumber = w₀.nextNumber + t.names.length ∧
      (∀ (i : Nat) (job : Job) (id : String), t.jobs[i]? = some job → job.id? = some id →
        .named i id ∈ t.register) ∧
      ∀ i id, .named i id ∈ t.register → t.Identifies i id) ∧
    ∀ s : Service ε, Nested s.invoke → ∀ ds : List Demand, ∃ t : Handlers ε, Reachable w₀ t ∧
      t.workspace = (s.meetAll ds w₀).2 := by
  refine ⟨?_, ?_, ?_⟩
  · intro uris
    obtain ⟨ids, w, hrun, hlength, hnodup, -⟩ := nextRequestIds_spec uris w₀
    exact ⟨ids, w, hrun, hlength, hnodup⟩
  · intro hstart t hreach
    have hk := kept_of_reachable hstart hreach
    exact ⟨hk.distinct, hk.counted, hk.held, fun i id => hk.identifies⟩
  · intro s hs ds
    have hnobody : Reachable w₀ { workspace := w₀ } := Relation.ReflTransGen.refl
    obtain ⟨t, hreach, hw, -⟩ := hnobody.meetAll (hosts_of_nested hs) ds
    exact ⟨t, hreach, hw⟩

/-- Handlers take their turns as they are told to. -/
def goes (s : Service ε) (t : Handlers ε) (turns : List Nat) : Handlers ε :=
  turns.foldl (go s) t

theorem Reachable.starts (h : Reachable w₀ t) {jobs : List Job} (hfresh : ∀ job ∈ jobs, job.Fresh) :
    Reachable w₀ { t with jobs := t.jobs ++ jobs } := by
  induction jobs generalizing t with
  | nil => simpa using h
  | cons job jobs ih =>
    obtain ⟨hjob, hjobs⟩ := List.forall_mem_cons.mp hfresh
    simpa using ih (h.tail (.start hjob)) hjobs

theorem Reachable.goes {s : Service ε} (h : Reachable w₀ t) (hs : Service.Aloof s.invoke)
    (turns : List Nat) : Reachable w₀ (t.goes s turns) := by
  induction turns generalizing t with
  | nil => exact h
  | cons i turns ih => exact ih (h.tail (.go hs i))

/-- Refreshes of documents that are called like requests, beside a command: all of them take their names
before any of them begins. -/
def lookalikes : Handlers Unit :=
  goes Traffic.scanner
    { workspace := Traffic.closed
      jobs := [.refresh "u" .reading, .refresh "u#1" .reading, .refresh "ergols.analyze" .reading,
        .command (.received (.table [("source", .text "]")]))] }
    [0, 0, 1, 1, 2, 2, 3, 3, 3, 0, 0, 1, 1, 3]

theorem reachable_lookalikes : Reachable Traffic.closed lookalikes := by
  have hnobody : Reachable Traffic.closed { workspace := Traffic.closed } := Relation.ReflTransGen.refl
  exact (hnobody.starts (by simp [Job.Fresh])).goes Traffic.aloof_scanner _

/-- An analyzer that has a document refreshed before it answers, the analyzer of which has answered. -/
def busy : Service Unit where
  invoke := handling (Traffic.scanner.answering (.ok { cancelled := true }))
    (fun _ => [.notification (.refresh "u")]) fun _ => .ok { cancelled := true }

theorem nested_busy : Nested busy.invoke :=
  .handling _ _ (.aloof (aloof_answering _ _))

/-- A workspace in which nothing was opened, with an analyzer. -/
def attended : Workspace Unit where
  settings := some {}
  surroundings := ()

/-- Documents that are called like requests get names of their own, and so do refreshes of one document
inside each other. -/
theorem names_identify_requests_lookalikes :
    (Traffic.closed.session = {} ∧ Reachable Traffic.closed lookalikes ∧
      lookalikes.register =
        [.named 0 "u#1", .named 1 "u#1#2", .named 2 "ergols.analyze#3", .named 3 "ergols.analyze#4",
          .did 0 (.begin "u" "u#1"), .did 1 (.begin "u#1" "u#1#2")] ∧
      lookalikes.names.Nodup ∧ lookalikes.Identifies 0 "u#1") ∧
    Nested busy.invoke ∧ ∃ t : Handlers Unit, Reachable attended t ∧ t.names.length = 2 ∧
      t.names.Nodup := by
  have hregister : lookalikes.register =
      [.named 0 "u#1", .named 1 "u#1#2", .named 2 "ergols.analyze#3", .named 3 "ergols.analyze#4",
        .did 0 (.begin "u" "u#1"), .did 1 (.begin "u#1" "u#1#2")] := rfl
  refine ⟨?_, nested_busy, ?_⟩
  · obtain ⟨-, hruns, -⟩ := names_identify_requests Traffic.closed
    obtain ⟨hnodup, -, -, hidentifies⟩ := hruns rfl lookalikes reachable_lookalikes
    refine ⟨rfl, reachable_lookalikes, hregister, hnodup, hidentifies 0 "u#1" ?_⟩
    rw [hregister]
    exact List.mem_cons_self
  · obtain ⟨-, hruns, hnested⟩ := names_identify_requests attended
    obtain ⟨t, hreach, hw⟩ := hnested busy nested_busy [.notification (.refresh "u")]
    obtain ⟨hnodup, hcounted, -⟩ := hruns rfl t hreach
    -- two numbers were used
    have hnumber : (busy.meetAll [.notification (.refresh "u")] attended).2.nextNumber =
        attended.nextNumber + 2 := rfl
    rw [hw, hnumber] at hcounted
    exact ⟨t, hreach, (Nat.add_left_cancel hcounted).symm, hnodup⟩

end Handlers

end AnalyzerBridge
