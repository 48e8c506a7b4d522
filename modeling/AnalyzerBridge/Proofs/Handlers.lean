/-
The names of requests while handlers run side by side.

A service names a request after a text, that of a document or of the analyze command, and
after a number that goes up with every name.  The text may hold the separator and digits of
its own, so it is the last separator that tells the two apart.

* `name_injective` — a name tells its text and its number;
* `nextRequestIds_spec` — hence names that are taken one after another are distinct;
* `handlers_eq_turns` — a handler is its turns with nothing in between;
* `turn_deals` — what a turn does to the requests of the session, said once;
* `Kept.start`, `Kept.aside`, `Kept.turn` — what stays true of handlers that take turns;
* `Kept.identifies` — hence the session knows a request by its name: the name is that of
  one handler, which alone begins and finishes under it.

Design notes: a run takes a service anew at each turn, as nothing is known of what its
analyzer and its files come to; handlers that run inside a call of the analyzer are a matter of
`Nesting`.  The register of a run says which handler took a name and which one did something to
the session; a session by itself cannot tell two requests of one name apart.
-/
import AnalyzerBridge.Proofs.Inquiry
import AnalyzerBridge.Proofs.Traffic

namespace AnalyzerBridge

/-! ### Names -/

section Names

variable {α : Type} {c : α} {as as' ds ds' : List α}

theorem length_le_of_separator (h : as ++ c :: ds = as' ++ c :: ds') (hds : c ∉ ds) :
    as'.length ≤ as.length := by
  rcases List.append_eq_append_iff.mp h with ⟨more, rfl, hrest⟩ | ⟨more, rfl, -⟩
  · cases more with
    | nil => simp
    | cons d more =>
      -- the second separator stands behind the first
      obtain ⟨-, rfl⟩ := List.cons.inj hrest
      exact absurd (by simp) hds
  · simp

/-- The last separator tells what comes before it and what comes behind. -/
theorem eq_of_separator (h : as ++ c :: ds = as' ++ c :: ds') (hds : c ∉ ds) (hds' : c ∉ ds') :
    as = as' ∧ ds = ds' := by
  have hlength : as.length = as'.length :=
    Nat.le_antisymm (length_le_of_separator h.symm hds') (length_le_of_separator h hds)
  obtain ⟨has, hrest⟩ := List.append_inj h hlength
  exact ⟨has, (List.cons.inj hrest).2⟩

end Names

/-- The name with a number. -/
def nameOf (uri : String) (n : Nat) : String :=
  uri ++ "#" ++ toString n

theorem nameOf_toList (uri : String) (n : Nat) :
    (nameOf uri n).toList = uri.toList ++ '#' :: Nat.toDigits 10 n := by
  rw [nameOf, String.toList_append, String.toList_append, List.append_assoc,
    show (toString n).toList = Nat.toDigits 10 n from Nat.toList_repr]
  rfl

theorem separator_notMem_toDigits (n : Nat) : '#' ∉ Nat.toDigits 10 n := by
  intro hmem
  exact absurd (Text.isAsciiDigit_of_mem_toDigits hmem) (by decide)

/-- A name tells its text and its number. -/
theorem name_injective {uri uri' : String} {m n : Nat} (h : nameOf uri m = nameOf uri' n) :
    uri = uri' ∧ m = n := by
  have hlist := congrArg String.toList h
  rw [nameOf_toList, nameOf_toList] at hlist
  obtain ⟨huri, hdigits⟩ :=
    eq_of_separator hlist (separator_notMem_toDigits m) (separator_notMem_toDigits n)
  refine ⟨String.toList_inj.mp huri, Nat.repr_injective (String.toList_inj.mp ?_)⟩
  rwa [Nat.toList_repr, Nat.toList_repr]

variable {ε α : Type}

/-- Names that are taken one after another are distinct, whatever they are names of. -/
theorem nextRequestIds_spec (uris : List String) (w : Workspace ε) : ∃ ids w',
    uris.mapM Workspace.nextRequestId w = (.ok ids, w') ∧ ids.length = uris.length ∧ ids.Nodup ∧
      ∀ id ∈ ids, ∃ uri n, w.nextNumber ≤ n ∧ id = nameOf uri n := by
  induction uris generalizing w with
  | nil => exact ⟨[], w, rfl, rfl, List.nodup_nil, by simp⟩
  | cons uri uris ih =>
    obtain ⟨ids, w', hrun, hlength, hnodup, hlow⟩ := ih { w with nextNumber := w.nextNumber + 1 }
    refine ⟨nameOf uri w.nextNumber :: ids, w', ?_, congrArg (· + 1) hlength,
      List.nodup_cons.mpr ⟨fun hmem => ?_, hnodup⟩, ?_⟩
    · rw [List.mapM_cons, Act.run_bind (Workspace.nextRequestId_apply w uri), Act.run_bind hrun]
      rfl
    · -- the numbers that follow are greater
      obtain ⟨uri', n, hn, hname⟩ := hlow _ hmem
      obtain ⟨-, rfl⟩ := name_injective hname
      exact absurd hn (Nat.not_succ_le_self _)
    · intro id hid
      rcases List.mem_cons.mp hid with rfl | hid
      · exact ⟨uri, w.nextNumber, Nat.le_refl _, rfl⟩
      · obtain ⟨uri', n, hn, hname⟩ := hlow id hid
        exact ⟨uri', n, Nat.le_of_succ_le hn, hname⟩

/-! ### Handlers in turns -/

/-- A handler that is under way: a refresh, the analyze command, or the closing of a document, which
clears its findings in a turn of its own. -/
inductive Job where
  | refresh (uri : String) (phase : Phase)
  | command (phase : Inquiry)
  | closing (uri : String)
  | clearing (uri : String)
  | closed

/-- The name that a command has taken; a name that it was given is not one. -/
def Inquiry.id? : Inquiry → Option String
  | .entering m id | .calling m id _ => if m.given? = none then some id else none
  | _ => none

namespace Job

/-- The handler has not done anything. -/
def Fresh : Job → Prop
  | .refresh _ phase => phase = .reading
  | .command phase => ∃ payload, phase = .received payload
  | .closing _ => True
  | .clearing _ | .closed => False

/-- The name that a handler has taken. -/
def id? : Job → Option String
  | .refresh _ phase => phase.id?
  | .command phase => phase.id?
  | .closing _ | .clearing _ | .closed => none

/-- The turn of a handler. -/
def turn (s : Service ε) : Job × Workspace ε → Job × Workspace ε
  | (.refresh uri phase, w) =>
    (.refresh uri (s.advance uri phase w).phase, (s.advance uri phase w).workspace)
  | (.command phase, w) => (.command (s.inquire phase w).1, (s.inquire phase w).2)
  | (.closing uri, w) => (.clearing uri, { w with session := w.session.close uri })
  | (.clearing uri, w) => (.closed, { w with published := w.published ++ [⟨uri, none, []⟩] })
  | (.closed, w) => (.closed, w)

theorem turn_refresh (s : Service ε) (uri : String) (n : Nat) (phase : Phase) (w : Workspace ε) :
    (turn s)^[n] (.refresh uri phase, w) =
      (.refresh uri (s.turns uri n phase w).1, (s.turns uri n phase w).2) := by
  induction n generalizing phase w with
  | zero => rfl
  | succ n ih => exact ih _ _

theorem turn_command (s : Service ε) (n : Nat) (p : Inquiry × Workspace ε) :
    (turn s)^[n] (.command p.1, p.2) =
      (.command (s.inquired^[n] p).1, (s.inquired^[n] p).2) := by
  induction n generalizing p with
  | zero => rfl
  | succ n ih => exact ih (s.inquired p)

/-- The turns of a handler with nothing in between are the handler. -/
theorem handlers_eq_turns (s : Service ε) (uri : String) (payload : Value) (w : Workspace ε) :
    (turn s)^[10] (.refresh uri .reading, w) =
        (.refresh uri (.done (s.validate uri w).1), (s.validate uri w).2) ∧
      (turn s)^[5] (.command (.received payload), w) =
        (.command (.done (s.execute payload w).1), (s.execute payload w).2) ∧
      (turn s)^[2] (.closing uri, w) = (.closed, (Service.close uri w).2) := by
  refine ⟨?_, ?_, rfl⟩
  · rw [turn_refresh, Service.validate_eq_turns]
  · rw [turn_command s 5 (.received payload, w), Service.execute_eq_turns]

end Job

/-- What is written down of a run: a handler takes a name, or does something to the session. -/
inductive Entry where
  | named (i : Nat) (id : String)
  | did (i : Nat) (step : Session.Step)
  deriving DecidableEq

namespace Entry

/-- The name that is taken. -/
def name? : Entry → Option String
  | .named _ id => some id
  | .did _ _ => none

/-- A request of a document begins, or the document is closed. -/
def claims (uri : String) : Entry → Bool
  | .named _ _ => false
  | .did _ x => x.claims uri

/-- A request is left in flight. -/
def Spares (uri id : String) : Entry → Prop
  | .named _ _ => True
  | .did _ x => x.spares uri id

end Entry

/-- The name under which a request begins or is finished. -/
def Session.Step.requestId? : Session.Step → Option String
  | .begin _ id | .finish _ id => some id
  | _ => none

/-- What is written down of the turn of a handler. -/
def Job.writes (i : Nat) (w : Workspace ε) : Job → Option Entry
  | .refresh uri (.numbering _) => some (.named i (Service.requestId uri w))
  | .refresh uri (.entering e) => some (.did i (.begin uri e.id))
  | .refresh uri (.leaving e _) => some (.did i (.finish uri e.id))
  | .command (.naming m) =>
    if m.given? = none then some (.named i (Service.requestId Service.analyzeCommand w)) else none
  | .closing uri => some (.did i (.close uri))
  | _ => none

/-! ### What a turn does to the requests -/

/-- Nothing happens to the requests of the session, and no name is taken. -/
structure Undisturbed (w w' : Workspace ε) : Prop where
  latest : w'.session.latest = w.session.latest
  inFlight : w'.session.inFlight = w.session.inFlight
  nextNumber : w'.nextNumber = w.nextNumber

/-- What a turn of a handler can come to: the handler and the workspace before it, what is written down,
and the handler and the workspace after it. -/
inductive Deals (i : Nat) (job : Job) (w : Workspace ε) :
    Option Entry → Job → Workspace ε → Prop where
  | rest {job' : Job} {w' : Workspace ε} (hid : ∀ id, job'.id? = some id → job.id? = some id)
      (hw : Undisturbed w w') : Deals i job w none job' w'
  | name {job' : Job} (uri : String) (hid : ∀ id, job'.id? = some id → id = Service.requestId uri w) :
      Deals i job w (some (.named i (Service.requestId uri w))) job'
        { w with nextNumber := w.nextNumber + 1 }
  | act {job' : Job} (x : Session.Step) (hid : ∀ id, job'.id? = some id → job.id? = some id)
      (hown : ∀ id, x.requestId? = some id → job.id? = some id) :
      Deals i job w (some (.did i x)) job' { w with session := (w.session.step x).2 }

section Turns

variable {i : Nat} {job job' : Job} {w w' : Workspace ε} {x : Option Entry}

theorem Undisturbed.refl (w : Workspace ε) : Undisturbed w w :=
  ⟨rfl, rfl, rfl⟩

theorem rests_turn {a : Act (Workspace ε) α} {next : α → Phase} {deed : α → Option Deed}
    {uri : String} {phase : Phase} (hw : Undisturbed w (a w).2)
    (hid : ∀ x id, (next x).id? = some id → phase.id? = some id) :
    Deals i (.refresh uri phase) w none (.refresh uri (Turn.of a next deed w).phase)
      (Turn.of a next deed w).workspace := by
  rcases h : a w with ⟨f | x, w'⟩
  · rw [Turn.of_error h]
    rw [h] at hw
    exact .rest (fun id hdone => absurd hdone (by simp [Job.id?, Phase.id?])) hw
  · rw [Turn.of_ok h]
    rw [h] at hw
    exact .rest (hid x) hw

theorem rests_inquiry {a : Act (Workspace ε) α} {next : α → Inquiry} {phase : Inquiry}
    (hw : Undisturbed w (a w).2) (hid : ∀ x id, (next x).id? = some id → phase.id? = some id) :
    Deals i (.command phase) w none (.command (Inquiry.of a next w).1) (Inquiry.of a next w).2 := by
  rcases h : a w with ⟨f | x, w'⟩
  · rw [Inquiry.of_error h]
    rw [h] at hw
    exact .rest (fun id hdone => absurd hdone (by simp [Job.id?, Inquiry.id?])) hw
  · rw [Inquiry.of_ok h]
    rw [h] at hw
    exact .rest (hid x) hw

theorem undisturbed_coordinator (s : Service ε) (w : Workspace ε) :
    Undisturbed w (s.coordinator w).2 := by
  obtain ⟨result, settings, h⟩ := Service.coordinator_cases s w
  rw [h]
  exact ⟨rfl, rfl, rfl⟩

theorem undisturbed_publish (uri : String) (e : Errand) (o : Outcome) (w : Workspace ε) :
    Undisturbed w (Service.publish uri e.document o w).2 := by
  rcases Service.publish_cases uri e w o with ⟨p, -, h⟩ | ⟨f, -, h⟩
  · rw [h]
    exact ⟨rfl, rfl, rfl⟩
  · rw [h]
    exact Undisturbed.refl w

theorem undisturbed_announce (uri : String) (e : Errand) (o : Outcome) (w : Workspace ε) :
    Undisturbed w (e.announce uri o w).2 := by
  obtain ⟨messages, ⟨p, -, h⟩ | ⟨f, -, h⟩⟩ := Service.announce_cases uri e w o
  · rw [h]
    exact ⟨rfl, rfl, rfl⟩
  · rw [h]
    exact ⟨rfl, rfl, rfl⟩

theorem advance_deals {s : Service ε} (h : Service.Aloof s.invoke) (i : Nat) (uri : String)
    (phase : Phase) (w : Workspace ε) :
    Deals i (.refresh uri phase) w ((Job.refresh uri phase).writes i w)
      (.refresh uri (s.advance uri phase w).phase) (s.advance uri phase w).workspace := by
  cases phase with
  | reading => exact rests_turn (Undisturbed.refl w) fun _ _ => id
  | numbering d => exact .name uri fun id hid => (Option.some.inj hid).symm
  | loading d name => exact rests_turn (undisturbed_coordinator s w) fun _ _ => id
  | entering e => exact .act (.begin uri e.id) (fun _ => id) fun _ => id
  | checkingEarly e token =>
    refine rests_turn ?_ fun b id hid => ?_
    · rw [Service.checkEarly_apply]
      exact Undisturbed.refl w
    · cases b <;> exact hid
  | showingEarly e token =>
    refine rests_turn (undisturbed_publish uri e e.scanned w) fun r id hid => ?_
    cases r <;> exact hid
  | calling e token =>
    obtain ⟨log, surroundings, hask⟩ := Service.ask_after uri e w h token
    refine rests_turn ?_ fun _ _ => id
    rw [Act.attempt_apply, hask]
    exact ⟨rfl, rfl, rfl⟩
  | leaving e answer =>
    refine .act (.finish uri e.id) (fun id hid => ?_) fun _ => id
    cases answer with
    | ok o => exact hid
    | error f => cases hid
  | checking e o =>
    obtain ⟨log, hcheck⟩ := Service.check_apply uri e w
    refine rests_turn ?_ fun b id hid => ?_
    · rw [hcheck]
      exact ⟨rfl, rfl, rfl⟩
    · cases b with
      | true => exact hid
      | false => exact absurd hid (by simp [Phase.id?])
  | showing e o =>
    exact rests_turn (undisturbed_announce uri e o w) fun _ id hid =>
      absurd hid (by simp [Phase.id?])
  | done result => exact .rest (fun _ => id) (Undisturbed.refl w)

theorem inquire_deals {s : Service ε} (h : Service.Aloof s.invoke) (i : Nat) (phase : Inquiry)
    (w : Workspace ε) :
    Deals i (.command phase) w ((Job.command phase).writes i w) (.command (s.inquire phase w).1)
      (s.inquire phase w).2 := by
  cases phase with
  | received payload =>
    refine rests_inquiry (Undisturbed.refl w) fun t id hid => ?_
    rw [Service.received] at hid
    split at hid <;> cases hid
  | loading command =>
    refine rests_inquiry (undisturbed_coordinator s w) fun c id hid => ?_
    rw [Service.timed] at hid
    split at hid <;> cases hid
  | naming m =>
    rw [Job.writes]
    cases hgiven : m.given? with
    | none =>
      rw [Service.naming_of_none s w hgiven, if_pos rfl]
      refine .name Service.analyzeCommand fun id hid => ?_
      rw [Job.id?, Inquiry.id?, if_pos hgiven] at hid
      exact (Option.some.inj hid).symm
    | some name =>
      rw [Service.naming_of_given s w hgiven, if_neg (by simp)]
      refine .rest (fun id hid => ?_) (Undisturbed.refl w)
      rw [Job.id?, Inquiry.id?, hgiven, if_neg (by simp)] at hid
      exact absurd hid (by simp)
  | entering m name =>
    -- a request without a document takes a token, and no other part in the session
    exact .rest (fun _ => id) ⟨rfl, rfl, rfl⟩
  | calling m name token =>
    obtain ⟨log, surroundings, hreply⟩ := Service.reply_after w h m name token
    refine rests_inquiry ?_ fun _ id hid => absurd hid (by simp [Inquiry.id?])
    rw [hreply]
    exact ⟨rfl, rfl, rfl⟩
  | done result => exact .rest (fun _ => id) (Undisturbed.refl w)

/-- What the turn of a handler comes to if the analyzer keeps to itself. -/
theorem turn_deals {s : Service ε} (h : Service.Aloof s.invoke) (i : Nat) (job : Job)
    (w : Workspace ε) :
    Deals i job w (job.writes i w) (Job.turn s (job, w)).1 (Job.turn s (job, w)).2 := by
  cases job with
  | refresh uri phase => exact advance_deals h i uri phase w
  | command phase => exact inquire_deals h i phase w
  | closing uri => exact .act (.close uri) (fun _ hid => hid) fun _ hid => by cases hid
  | clearing uri => exact .rest (fun _ => id) ⟨rfl, rfl, rfl⟩
  | closed => exact .rest (fun _ => id) (Undisturbed.refl w)

/-- The newest request of a document after a turn. -/
theorem Deals.isCurrent (hd : Deals i job w x job' w') (uri id : String) :
    w'.session.isCurrent uri id = true ↔ x = some (.did i (.begin uri id)) ∨
      (∀ y ∈ x, y.claims uri = false) ∧ w.session.isCurrent uri id = true := by
  cases hd with
  | rest hid hw => simp [isCurrent_of_latest hw.latest]
  | name u hid => simp [Entry.claims]
  | act x hid hown => simp [Session.isCurrent_step, Entry.claims]

/-- The request of a document in flight after a turn. -/
theorem Deals.running (hd : Deals i job w x job' w') (uri id : String) :
    w'.session.running uri = some id ↔ x = some (.did i (.begin uri id)) ∨
      (∀ y ∈ x, y.Spares uri id) ∧ w.session.running uri = some id := by
  cases hd with
  | rest hid hw => simp [Session.running, hw.inFlight]
  | name u hid => simp [Entry.Spares]
  | act x hid hown => simp [Session.running_step, Entry.Spares]

/-- A name that a handler has after its turn it had before, or has taken just now. -/
theorem Deals.held (hd : Deals i job w x job' w') {id : String} (hid' : job'.id? = some id) :
    job.id? = some id ∨ x = some (.named i id) := by
  cases hd with
  | rest hid hw => exact .inl (hid id hid')
  | name uri hid => exact .inr (by rw [hid id hid'])
  | act x hid hown => exact .inl (hid id hid')

/-- Names are taken one at a time, and each with the next number. -/
theorem Deals.counted (hd : Deals i job w x job' w') :
    (x.bind Entry.name? = none ∧ w'.nextNumber = w.nextNumber) ∨
      ∃ uri, x = some (.named i (nameOf uri w.nextNumber)) ∧ w'.nextNumber = w.nextNumber + 1 := by
  cases hd with
  | rest hid hw => exact .inl ⟨rfl, hw.nextNumber⟩
  | name uri hid => exact .inr ⟨uri, rfl, rfl⟩
  | act x hid hown => exact .inl ⟨rfl, rfl⟩

/-- A handler begins and finishes under the name that it has. -/
theorem Deals.owned (hd : Deals i job w x job' w') {k : Nat} {y : Session.Step} {id : String}
    (hx : x = some (.did k y)) (hy : y.requestId? = some id) : k = i ∧ job.id? = some id := by
  cases hd with
  | rest hid hw => cases hx
  | name uri hid => cases hx
  | act x hid hown =>
    obtain ⟨rfl, rfl⟩ := Entry.did.inj (Option.some.inj hx)
    exact ⟨rfl, hown id hy⟩

end Turns

/-! ### Runs -/

/-- Handlers under way, and what is written down of their turns. -/
structure Handlers (ε : Type) where
  workspace : Workspace ε
  jobs : List Job := []
  register : List Entry := []

namespace Handlers

/-- The names that were taken, in order. -/
def names (t : Handlers ε) : List String :=
  t.register.filterMap Entry.name?

/-- A handler takes its turn. -/
def go (s : Service ε) (t : Handlers ε) (i : Nat) : Handlers ε :=
  match t.jobs[i]? with
  | none => t
  | some job =>
    let turn := Job.turn s (job, t.workspace)
    { workspace := turn.2
      jobs := t.jobs.set i turn.1
      register := t.register ++ (job.writes i t.workspace).toList }

/-- A handler starts, or one takes its turn, or something happens that is no matter of requests. -/
inductive Move : Handlers ε → Handlers ε → Prop where
  | start {t : Handlers ε} {job : Job} (hfresh : job.Fresh) :
      Move t { t with jobs := t.jobs ++ [job] }
  | go {t : Handlers ε} {s : Service ε} (h : Service.Aloof s.invoke) (i : Nat) : Move t (t.go s i)
  | aside {t : Handlers ε} {w : Workspace ε} (hsession : w.session = t.workspace.session)
      (hnumber : w.nextNumber = t.workspace.nextNumber) : Move t { t with workspace := w }

/-- The handlers have come here from a workspace without handlers. -/
def Reachable (w₀ : Workspace ε) (t : Handlers ε) : Prop :=
  Relation.ReflTransGen Move { workspace := w₀ } t

/-- A handler began a request of a document, and the document was neither begun again nor closed since. -/
def LastClaim (uri : String) (i : Nat) (id : String) (register : List Entry) : Prop :=
  Since (.did i (.begin uri id)) (fun x => x.claims uri = false) register

/-- A handler began a request of a document, and since then the request was not finished, nor the document
begun again or closed. -/
def Standing (uri : String) (i : Nat) (id : String) (register : List Entry) : Prop :=
  Since (.did i (.begin uri id)) (fun x => x.Spares uri id) register

/-- What stays true while handlers take turns. -/
structure Kept (w₀ : Workspace ε) (t : Handlers ε) : Prop where
  counted : t.workspace.nextNumber = w₀.nextNumber + t.names.length
  numbered : ∀ id ∈ t.names, ∃ uri, Named t.workspace uri id
  distinct : t.names.Nodup
  held : ∀ (i : Nat) (job : Job) (id : String), t.jobs[i]? = some job → job.id? = some id →
    .named i id ∈ t.register
  owned : ∀ i x id, .did i x ∈ t.register → x.requestId? = some id → .named i id ∈ t.register
  current : ∀ uri id, t.workspace.session.isCurrent uri id = true ↔
    ∃ i, LastClaim uri i id t.register
  running : ∀ uri id, t.workspace.session.running uri = some id ↔
    ∃ i, Standing uri i id t.register

variable {w₀ : Workspace ε} {t : Handlers ε}

theorem kept_start (hstart : w₀.session = {}) : Kept w₀ { workspace := w₀ } where
  counted := rfl
  numbered id h := absurd h List.not_mem_nil
  distinct := List.nodup_nil
  held i job id h := absurd h (by simp)
  owned i x id h := absurd h List.not_mem_nil
  current uri id := by
    simp only [hstart]
    constructor
    · intro h
      exact absurd h (by simp [Session.isCurrent])
    · rintro ⟨i, h⟩
      exact absurd h not_since_nil
  running uri id := by
    simp only [hstart]
    constructor
    · intro h
      exact absurd h (by simp [Session.running])
    · rintro ⟨i, h⟩
      exact absurd h not_since_nil

theorem id?_of_fresh {job : Job} (h : job.Fresh) : job.id? = none := by
  cases job with
  | refresh uri phase =>
    obtain rfl : phase = .reading := h
    rfl
  | command phase =>
    obtain ⟨payload, rfl⟩ := h
    rfl
  | _ => rfl

theorem Kept.start (hk : Kept w₀ t) {job : Job} (hfresh : job.Fresh) :
    Kept w₀ { t with jobs := t.jobs ++ [job] } where
  counted := hk.counted
  numbered := hk.numbered
  distinct := hk.distinct
  held i job' id hjob hid := by
    rw [List.getElem?_append] at hjob
    split at hjob
    next => exact hk.held i job' id hjob hid
    next =>
      -- the new handler has no name yet
      obtain rfl := List.mem_singleton.mp (List.mem_of_getElem? hjob)
      rw [id?_of_fresh hfresh] at hid
      exact absurd hid (by simp)
  owned := hk.owned
  current := hk.current
  running := hk.running

theorem Kept.aside (hk : Kept w₀ t) {w : Workspace ε} (hsession : w.session = t.workspace.session)
    (hnumber : w.nextNumber = t.workspace.nextNumber) : Kept w₀ { t with workspace := w } where
  counted := hnumber.trans hk.counted
  numbered id hid := by
    obtain ⟨uri, hnamed⟩ := hk.numbered id hid
    exact ⟨uri, hnamed.mono hnumber.ge⟩
  distinct := hk.distinct
  held := hk.held
  owned := hk.owned
  current uri id := by rw [← hk.current, hsession]
  running uri id := by rw [← hk.running, hsession]

section Writing

variable {i : Nat} {job job' : Job} {x : Option Entry} {w' : Workspace ε}

theorem names_write (jobs : List Job) (x : Option Entry) :
    names ⟨w', jobs, t.register ++ x.toList⟩ = t.names ++ (x.bind Entry.name?).toList := by
  rw [names, List.filterMap_append]
  cases x with
  | none => rfl
  | some y => cases y <;> rfl

/-- What has been the case since some request began, still is after a turn that begins the request, or
that keeps it up. -/
theorem since_write {w : Workspace ε} (hd : Deals i job w x job' w') {uri id : String}
    {keeps : Entry → Prop} {register : List Entry} {P : Prop}
    (hP : P ↔ ∃ k, Since (.did k (.begin uri id)) keeps register) :
    (x = some (.did i (.begin uri id)) ∨ (∀ y ∈ x, keeps y) ∧ P) ↔
      ∃ k, Since (.did k (.begin uri id)) keeps (register ++ x.toList) := by
  rw [hP]
  cases x with
  | none => simp
  | some y =>
    simp only [Option.toList_some, since_snoc]
    constructor
    · rintro (hy | ⟨hkeeps, k, hsince⟩)
      · exact ⟨i, .inl (Option.some.inj hy)⟩
      · exact ⟨k, .inr ⟨hkeeps y rfl, hsince⟩⟩
    · rintro ⟨k, hy | ⟨hkeeps, hsince⟩⟩
      · -- the handler whose turn it is begins no request for another
        obtain ⟨rfl, -⟩ := hd.owned (congrArg some hy) rfl
        exact .inl (congrArg some hy)
      · refine .inr ⟨fun z hz => ?_, k, hsince⟩
        obtain rfl := Option.some.inj hz
        exact hkeeps

theorem Kept.turn (hk : Kept w₀ t) (hjob : t.jobs[i]? = some job)
    (hd : Deals i job t.workspace x job' w') :
    Kept w₀ ⟨w', t.jobs.set i job', t.register ++ x.toList⟩ where
  counted := by
    rw [names_write]
    rcases hd.counted with ⟨hname, hn⟩ | ⟨uri, rfl, hn⟩
    · rw [hname, Option.toList_none, List.append_nil]
      exact hn.trans hk.counted
    · rw [List.length_append, ← Nat.add_assoc, ← hk.counted]
      exact hn
  numbered id hid := by
    rw [names_write] at hid
    rcases hd.counted with ⟨hname, hn⟩ | ⟨uri, rfl, hn⟩
    · rw [hname, Option.toList_none, List.append_nil] at hid
      obtain ⟨uri, hnamed⟩ := hk.numbered id hid
      exact ⟨uri, hnamed.mono hn.ge⟩
    · rcases List.mem_append.mp hid with hid | hid
      · obtain ⟨uri', hnamed⟩ := hk.numbered id hid
        exact ⟨uri', hnamed.mono (hn ▸ Nat.le_succ _)⟩
      · obtain rfl := List.mem_singleton.mp hid
        exact ⟨uri, t.workspace.nextNumber, hn ▸ Nat.lt_succ_self _, rfl⟩
  distinct := by
    rw [names_write]
    rcases hd.counted with ⟨hname, -⟩ | ⟨uri, rfl, -⟩
    · rw [hname, Option.toList_none, List.append_nil]
      exact hk.distinct
    · show (t.names ++ [nameOf uri t.workspace.nextNumber]).Nodup
      rw [← List.concat_eq_append]
      refine List.Nodup.concat (fun hmem => ?_) hk.distinct
      -- the number has not been used for any name
      obtain ⟨uri', n, hlt, hname⟩ := hk.numbered _ hmem
      obtain ⟨-, rfl⟩ := name_injective hname
      exact Nat.lt_irrefl _ hlt
  held k job'' id hjob'' hid := by
    rw [List.getElem?_set] at hjob''
    split at hjob''
    next hki =>
      subst hki
      obtain ⟨-, rfl⟩ := by simpa using hjob''
      rcases hd.held hid with hold | rfl
      · exact List.mem_append_left _ (hk.held i job id hjob hold)
      · exact List.mem_append_right _ (List.mem_singleton_self _)
    next => exact List.mem_append_left _ (hk.held k job'' id hjob'' hid)
  owned k y id hmem hy := by
    rcases List.mem_append.mp hmem with hold | hnew
    · exact List.mem_append_left _ (hk.owned k y id hold hy)
    · obtain ⟨rfl, hid⟩ := hd.owned (Option.mem_toList.mp hnew) hy
      exact List.mem_append_left _ (hk.held k job id hjob hid)
  current uri id := (hd.isCurrent uri id).trans (since_write hd (hk.current uri id))
  running uri id := (hd.running uri id).trans (since_write hd (hk.running uri id))

end Writing

theorem Kept.go (hk : Kept w₀ t) {s : Service ε} (h : Service.Aloof s.invoke) (i : Nat) :
    Kept w₀ (t.go s i) := by
  rw [Handlers.go]
  cases hjob : t.jobs[i]? with
  | none => exact hk
  | some job => exact hk.turn hjob (turn_deals h i job t.workspace)

theorem kept_of_reachable (hstart : w₀.session = {}) (h : Reachable w₀ t) : Kept w₀ t := by
  induction h with
  | refl => exact kept_start hstart
  | tail _ hmove ih =>
    cases hmove with
    | start hfresh => exact ih.start hfresh
    | go h i => exact ih.go h i
    | aside hsession hnumber => exact ih.aside hsession hnumber

/-- A name was taken by one handler. -/
theorem Kept.unique (hk : Kept w₀ t) {i k : Nat} {id : String} (hi : .named i id ∈ t.register)
    (hk' : .named k id ∈ t.register) : k = i := by
  by_contra hne
  have : Std.Symm fun x y : Entry => ∀ a, x.name? = some a → ∀ b, y.name? = some b → a ≠ b :=
    ⟨fun x y h a ha b hb => (h b hb a ha).symm⟩
  have hother : (Entry.named k id) ≠ .named i id := by simpa using hne
  exact (List.pairwise_filterMap.mp hk.distinct).forall hk' hi hother id rfl id rfl rfl

/-- The session knows the request of a handler by its name.  The name is that of no other handler, which
alone begins and finishes under it; a check finds the request current exactly if the handler was the last
to begin a request of the document or to close it, and to finish takes away the request that the handler
began itself, or nothing. -/
structure Identifies (t : Handlers ε) (i : Nat) (id : String) : Prop where
  unique : ∀ k, .named k id ∈ t.register → k = i
  acts : ∀ k x, .did k x ∈ t.register → x.requestId? = some id → k = i
  current : ∀ uri, t.workspace.session.isCurrent uri id = true ↔ LastClaim uri i id t.register
  finishes : ∀ uri, t.workspace.session.finish uri id ≠ t.workspace.session ↔
    Standing uri i id t.register

theorem Kept.identifies (hk : Kept w₀ t) {i : Nat} {id : String} (hi : .named i id ∈ t.register) :
    t.Identifies i id := by
  have hacts : ∀ k x, .did k x ∈ t.register → x.requestId? = some id → k = i :=
    fun k x hx hid => hk.unique hi (hk.owned k x id hx hid)
  refine ⟨fun k => hk.unique hi, hacts, fun uri => ?_, fun uri => ?_⟩
  · rw [hk.current]
    constructor
    · rintro ⟨k, hlast⟩
      obtain rfl := hacts k _ hlast.mem rfl
      exact hlast
    · exact fun hlast => ⟨i, hlast⟩
  · rw [Session.finish_ne_iff, hk.running]
    constructor
    · rintro ⟨k, hstanding⟩
      obtain rfl := hacts k _ hstanding.mem rfl
      exact hstanding
    · exact fun hstanding => ⟨i, hstanding⟩

end Handlers

end AnalyzerBridge
