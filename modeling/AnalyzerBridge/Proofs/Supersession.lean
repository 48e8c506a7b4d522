/-
The last request of a document wins.

Handlers of a service run one after another, and inside each other: while the
analyzer of a refresh is called, further handlers may run, to any depth.  Such a
`Course` has a history of what happened to the session, what was sent, and how
each refresh ended.

* `exists_course_of_validate` — a refresh is a course if what its analyzer does is one;
* `Follows` — what a history tells of the state it leads to;
* `Event.Due` — what must have happened before an event, and `Orderly`, that it
  has, all along a history;
* `Settled` — how the findings of each document stand after a history;
* `last_request_wins` — for every course: findings are sent by the newest request
  only, the last ones are those of the request that began last, or none if the
  document was closed after it, and a refresh comes to nothing exactly if it was
  superseded.

Design notes: nothing is assumed of the state that a course starts in, so the
same theorem speaks of a nested course and of the outermost one.  A course does
not say which handlers an analyzer runs; it holds those that it did run.
-/
import AnalyzerBridge.Proofs.Service
import AnalyzerBridge.Proofs.Session
import Std.Data.String.ToNat

namespace AnalyzerBridge

/-! ### Histories of handlers -/

/-- When a refresh sends findings: those of the scan, or those it ends with. -/
inductive Stage where
  | early
  | final
  deriving DecidableEq

/-- What happens while handlers run: an operation on the session, findings that a refresh sends, the
clearing of a closed document, or the end of a refresh. -/
inductive Event where
  | did (step : Session.Step)
  | shown (stage : Stage) (id : String) (sent : Publication)
  | cleared (uri : String)
  | concluded (uri id : String) (result : Option Outcome)

namespace Event

/-- The operation on the session. -/
def step? : Event → Option Session.Step
  | .did x => some x
  | _ => none

/-- What is sent to the client. -/
def sent? : Event → Option Publication
  | .shown _ _ p => some p
  | .cleared uri => some ⟨uri, none, []⟩
  | _ => none

/-- The event begins a request of a document or closes it. -/
def claims (uri : String) : Event → Bool
  | .did x => x.claims uri
  | _ => false

/-- The event sends findings of a document. -/
def shows (uri : String) : Event → Bool
  | .shown _ _ p => p.uri == uri
  | .cleared u => u == uri
  | _ => false

end Event

/-- What happened, in order. -/
abbrev History := List Event

namespace History

/-- The operations on the session. -/
def steps (h : History) : List Session.Step :=
  h.filterMap Event.step?

/-- What was sent to the client. -/
def publications (h : History) : List Publication :=
  h.filterMap Event.sent?

/-- The last event of a history that begins a request of a document or closes it. -/
def LastClaim (uri : String) (e : Event) (h : History) : Prop :=
  Since e (fun x => x.claims uri = false) h

/-- The last event of a history that sends findings of a document. -/
def LastShow (uri : String) (e : Event) (h : History) : Prop :=
  Since e (fun x => x.shows uri = false) h

variable (h h' : History)

@[simp] theorem steps_append : steps (h ++ h') = steps h ++ steps h' :=
  List.filterMap_append

@[simp] theorem publications_append :
    publications (h ++ h') = publications h ++ publications h' :=
  List.filterMap_append

@[simp] theorem steps_did (x : Session.Step) : steps (.did x :: h) = x :: steps h := rfl

theorem steps_skip {e : Event} (he : e.step? = none) : steps (e :: h) = steps h :=
  List.filterMap_cons_none he

@[simp] theorem publications_shown (stage : Stage) (id : String) (p : Publication) :
    publications (.shown stage id p :: h) = p :: publications h := rfl

theorem claims_steps (uri : String) :
    (∀ x ∈ steps h, x.claims uri = false) ↔ ∀ e ∈ h, e.claims uri = false := by
  induction h with
  | nil => simp [steps]
  | cons e h ih =>
    rw [List.forall_mem_cons, ← ih]
    cases e with
    | did x => rw [steps_did, List.forall_mem_cons, Event.claims]
    | _ => exact (and_iff_right rfl).symm

/-- The last claim of a history is the last claim of its operations. -/
theorem since_steps (uri id : String) :
    Since (.begin uri id) (fun x => x.claims uri = false) (steps h) ↔
      LastClaim uri (.did (.begin uri id)) h := by
  induction h with
  | nil => exact iff_of_false not_since_nil not_since_nil
  | cons e h ih =>
    rw [LastClaim, since_cons, ← claims_steps]
    cases e with
    | did x => rw [steps_did, since_cons, ih, Event.did.injEq, LastClaim]
    | _ =>
      rw [steps_skip h rfl, ih]
      exact (or_iff_left fun hother => absurd hother.2 (by simp)).symm

/-- The history of a refresh up to the call of the analyzer. -/
def opened (uri id : String) (early : List Publication) : History :=
  .did (.begin uri id) :: early.map (.shown .early id)

/-- The history of a refresh after the call of the analyzer. -/
def ended (uri id : String) (final : List Publication) (result : Option Outcome) : History :=
  .did (.finish uri id) :: (final.map (.shown .final id) ++ [.concluded uri id result])

end History

open History

variable {ε : Type}

/-- A course of handlers: it leads from one workspace to another and has a history.  A refresh runs
whatever its analyzer runs between its opening and its conclusion. -/
inductive Course : Workspace ε → History → Workspace ε → Prop where
  /-- Something happens that is no handler's concern. -/
  | aside {w w' : Workspace ε} (hsession : w'.session = w.session)
      (hpublished : w'.published = w.published) (hnumber : w.nextNumber ≤ w'.nextNumber) :
      Course w [] w'
  /-- One course after another. -/
  | append {w w₁ w' : Workspace ε} {h h' : History} (hfirst : Course w h w₁)
      (hthen : Course w₁ h' w') : Course w (h ++ h') w'
  /-- A document is closed. -/
  | close (s : Service ε) {uri : String} {w w' : Workspace ε}
      (hrun : s.handle (.close uri) w = (.ok (), w')) :
      Course w [.did (.close uri), .cleared uri] w'
  /-- A document is refreshed. -/
  | refresh (s : Service ε) {uri : String} {w w₁ w' : Workspace ε} {c : Coordinator ε}
      {request : Request} {token : Token} {early final : List Publication} {inner : History}
      {result : Option Outcome}
      (hopen : s.opening uri w = (.ok (c, request, token), w₁))
      (hearly : w₁.published = w.published ++ early)
      (hinner : Course w₁ inner (c.meanwhile request token w₁))
      (hrun : s.validate uri w = (.ok result, w'))
      (hfinal : w'.published = (c.meanwhile request token w₁).published ++ final) :
      Course w (opened uri request.id early ++ (inner ++ ended uri request.id final result)) w'

/-- A refresh that succeeds is a course if what its analyzer does is one, which its history has in the
middle. -/
theorem exists_course_of_validate (s : Service ε) {uri : String} {w w' : Workspace ε}
    {result : Option Outcome} (hrun : s.validate uri w = (.ok result, w'))
    (hinvoke : ∀ c request token w₁, s.opening uri w = (.ok (c, request, token), w₁) →
      ∃ inner, Course w₁ inner (s.invoke (c.settings.call request) token w₁).2) :
    ∃ id early inner final,
      Course w (opened uri id early ++ (inner ++ ended uri id final result)) w' := by
  obtain ⟨c, request, token, w₁, hopen⟩ := s.opening_of_validate hrun
  obtain ⟨_, _, early, hearly, _⟩ := s.opening_spec hopen
  obtain ⟨w₀, hc, _⟩ := s.opening_parts hopen
  obtain ⟨inner, hinner⟩ : ∃ inner, Course w₁ inner (c.meanwhile request token w₁) := by
    -- the analyzer is called or nothing happens in between
    rw [Coordinator.meanwhile, (s.coordinator_spec hc).1]
    split
    · exact hinvoke c request token w₁ hopen
    · exact ⟨[], .aside rfl rfl (Nat.le_refl _)⟩
  obtain ⟨o, log, hconclude⟩ := s.validate_of_opening hopen hrun
  obtain ⟨_, _, hverdict⟩ := Service.conclude_spec hconclude
  obtain ⟨final, hfinal⟩ :
      ∃ final, w'.published = (c.meanwhile request token w₁).published ++ final := by
    rcases hverdict with ⟨_, _, p, _, hfinal⟩ | ⟨_, _, hfinal⟩
    · exact ⟨[p], hfinal⟩
    · exact ⟨[], hfinal.trans (List.append_nil _).symm⟩
  exact ⟨request.id, early, inner, final, .refresh s hopen hearly hinner hrun hfinal⟩

/-! ### Last claims -/

namespace History

variable {uri : String} {d e : Event} {h h' : History}

theorem claims_begin (uri id : String) : (Event.did (.begin uri id)).claims uri = true :=
  beq_self_eq_true uri

theorem claims_close (uri : String) : (Event.did (.close uri)).claims uri = true :=
  beq_self_eq_true uri

/-- A claim that is the last one stays the last one of a shorter history, as long as what is left out
claims nothing. -/
theorem LastClaim.of_append (hlast : LastClaim uri e (h ++ h')) (he : e.claims uri = true)
    (hfree : ∀ x ∈ h', x.claims uri = false) : LastClaim uri e h := by
  rcases since_append.mp hlast with hlater | ⟨_, hearlier⟩
  · have hnot := hfree e hlater.mem
    rw [he] at hnot
    exact absurd hnot (by simp)
  · exact hearlier

/-- There is one last claim. -/
theorem LastClaim.unique (hd : LastClaim uri d h) (he : LastClaim uri e h)
    (hdclaims : d.claims uri = true) (heclaims : e.claims uri = true) : d = e :=
  Since.unique hd he hdclaims heclaims

theorem claims_of_mem (he : e ∈ h) (hclaims : e.claims uri = true) :
    ¬ ∀ x ∈ h, x.claims uri = false := by
  intro hfree
  have hnot := hfree e he
  rw [hclaims] at hnot
  exact absurd hnot (by simp)

end History

/-! ### Events in their order -/

/-- What must have happened before an event: findings are sent by the newest request of their document,
a document is cleared after it was closed, and a refresh ends with an outcome exactly if its request is
still the newest one. -/
def Event.Due (past : History) : Event → Prop
  | .did _ => True
  | .shown _ id p => LastClaim p.uri (.did (.begin p.uri id)) past
  | .cleared uri => LastClaim uri (.did (.close uri)) past
  | .concluded uri id result => .did (.begin uri id) ∈ past ∧
      (result.isSome = true ↔ LastClaim uri (.did (.begin uri id)) past)

/-- Every event of a history is due when it happens, after what has happened before the history. -/
def Orderly : (past h : History) → Prop
  | _, [] => True
  | past, e :: h => e.Due past ∧ Orderly (past ++ [e]) h

theorem orderly_append (past h h' : History) :
    Orderly past (h ++ h') ↔ Orderly past h ∧ Orderly (past ++ h) h' := by
  induction h generalizing past with
  | nil => simp [Orderly]
  | cons e h ih =>
    rw [List.cons_append, Orderly, Orderly, ih, and_assoc, List.append_assoc, List.singleton_append]

/-- Earlier events change nothing about what is due. -/
theorem Event.Due.before {e : Event} {past : History} (hdue : e.Due past) (before : History) :
    e.Due (before ++ past) := by
  cases e with
  | did x => trivial
  | shown stage id p => exact Since.before hdue before
  | cleared uri => exact Since.before hdue before
  | concluded uri id result =>
    obtain ⟨hmem, hresult⟩ := hdue
    refine ⟨List.mem_append_right before hmem, hresult.trans ⟨fun h => h.before before, fun h => ?_⟩⟩
    rcases since_append.mp h with h | ⟨hfree, _⟩
    · exact h
    · -- the request itself is a claim, so nothing before it can be the last one
      exact absurd hfree (claims_of_mem hmem (claims_begin uri id))

theorem Orderly.before {past h : History} (ho : Orderly past h) (before : History) :
    Orderly (before ++ past) h := by
  induction h generalizing past with
  | nil => trivial
  | cons e h ih =>
    obtain ⟨hdue, hrest⟩ := ho
    refine ⟨hdue.before before, ?_⟩
    rw [List.append_assoc]
    exact ih hrest

theorem Orderly.due {before after : History} {e : Event}
    (ho : Orderly [] (before ++ e :: after)) : e.Due before :=
  ((orderly_append [] before (e :: after)).mp ho).2.1

/-- Nothing is sent for a document that nothing claims. -/
theorem Orderly.shows_of_claims {h : History} {uri : String} (ho : Orderly [] h)
    (hfree : ∀ x ∈ h, x.claims uri = false) : ∀ x ∈ h, x.shows uri = false := by
  intro x hx
  obtain ⟨before, after, rfl⟩ := List.append_of_mem hx
  have hdue := ho.due
  rw [Bool.eq_false_iff]
  intro hshows
  cases x with
  | shown stage id p =>
    obtain rfl : p.uri = uri := beq_iff_eq.mp hshows
    exact claims_of_mem (List.mem_append_left _ hdue.mem) (claims_begin p.uri id) hfree
  | cleared u =>
    obtain rfl : u = uri := beq_iff_eq.mp hshows
    exact claims_of_mem (List.mem_append_left _ hdue.mem) (claims_close u) hfree
  | did x => exact absurd hshows (by simp [Event.shows])
  | concluded u id result => exact absurd hshows (by simp [Event.shows])

/-! ### What a history tells of the state -/

/-- An event begins no request that the other one has begun. -/
def Event.Apart (d e : Event) : Prop :=
  ∀ uri id, e = .did (.begin uri id) → d ≠ e

/-- A history leads from one workspace to another: the session has run its operations, its findings have
been sent, and every request it begins has a name of its own. -/
structure Follows (w : Workspace ε) (h : History) (w' : Workspace ε) : Prop where
  session : w'.session = w.session.run (steps h)
  published : w'.published = w.published ++ publications h
  numbers : w.nextNumber ≤ w'.nextNumber
  named : ∀ uri id, .did (.begin uri id) ∈ h →
    ∃ n, w.nextNumber ≤ n ∧ n < w'.nextNumber ∧ id = uri ++ "#" ++ toString n
  fresh : h.Pairwise Event.Apart

theorem Event.apart_of_free {d e : Event} (hfree : ∀ u, e.claims u = false) : d.Apart e := by
  rintro uri id rfl
  have hbegin := hfree uri
  rw [claims_begin] at hbegin
  exact absurd hbegin (by simp)

theorem pairwise_apart_of_free {h : History} (hfree : ∀ e ∈ h, ∀ u, e.claims u = false) :
    h.Pairwise Event.Apart :=
  List.pairwise_of_forall_mem_list fun _ _ e he => Event.apart_of_free (hfree e he)

/-- The numbers of two requests of a document tell their names apart. -/
theorem number_of_name {uri : String} {m n : Nat}
    (h : uri ++ "#" ++ toString m = uri ++ "#" ++ toString n) : m = n :=
  Nat.repr_injective ((String.append_right_inj (uri ++ "#")).mp h)

theorem Follows.append {w w₁ w' : Workspace ε} {h h' : History} (hf : Follows w h w₁)
    (hf' : Follows w₁ h' w') : Follows w (h ++ h') w' where
  session := by rw [steps_append, Session.run_append, ← hf.session, hf'.session]
  published := by rw [publications_append, ← List.append_assoc, ← hf.published, hf'.published]
  numbers := hf.numbers.trans hf'.numbers
  named := by
    intro uri id hmem
    rcases List.mem_append.mp hmem with hmem | hmem
    · obtain ⟨n, hle, hlt, rfl⟩ := hf.named uri id hmem
      exact ⟨n, hle, hlt.trans_le hf'.numbers, rfl⟩
    · obtain ⟨n, hle, hlt, rfl⟩ := hf'.named uri id hmem
      exact ⟨n, hf.numbers.trans hle, hlt, rfl⟩
  fresh := by
    refine List.pairwise_append.mpr ⟨hf.fresh, hf'.fresh, ?_⟩
    rintro d hd e he uri id rfl rfl
    obtain ⟨m, _, hm, hname⟩ := hf.named uri id hd
    obtain ⟨n, hn, _, hname'⟩ := hf'.named uri id he
    -- the numbers of the first history were all used up before those of the second
    have hmn : m = n := number_of_name (hname.symm.trans hname')
    omega

/-- A request is current after a history that begins it if that is the last claim of its document. -/
theorem Follows.isCurrent_iff {w w' : Workspace ε} {h : History} {uri id : String}
    (hf : Follows w h w') (hmem : .did (.begin uri id) ∈ h) :
    w'.session.isCurrent uri id = true ↔ LastClaim uri (.did (.begin uri id)) h := by
  rw [hf.session, Session.isCurrent_run_from, since_steps, claims_steps]
  exact or_iff_left fun hfree => claims_of_mem hmem (claims_begin uri id) hfree.1

/-! ### How documents stand -/

/-- The findings of a document that were sent last are those that the last request of the document ended
with, or none if the document was closed after that. -/
structure Settled (h : History) : Prop where
  begun : ∀ uri id, LastClaim uri (.did (.begin uri id)) h →
    ∃ p, p.uri = uri ∧ LastShow uri (.shown .final id p) h
  closed : ∀ uri, LastClaim uri (.did (.close uri)) h → LastShow uri (.cleared uri) h

theorem settled_nil : Settled [] where
  begun _ _ h := absurd h not_since_nil
  closed _ h := absurd h not_since_nil

theorem Settled.append {h h' : History} (hs : Settled h) (hs' : Settled h')
    (ho' : Orderly [] h') : Settled (h ++ h') where
  begun uri id hlast := by
    rcases since_append.mp hlast with hlast | ⟨hfree, hlast⟩
    · obtain ⟨p, hp, hshow⟩ := hs'.begun uri id hlast
      exact ⟨p, hp, since_append.mpr (Or.inl hshow)⟩
    · obtain ⟨p, hp, hshow⟩ := hs.begun uri id hlast
      exact ⟨p, hp, since_append.mpr (Or.inr ⟨ho'.shows_of_claims hfree, hshow⟩)⟩
  closed uri hlast := by
    rcases since_append.mp hlast with hlast | ⟨hfree, hlast⟩
    · exact since_append.mpr (Or.inl (hs'.closed uri hlast))
    · exact since_append.mpr (Or.inr ⟨ho'.shows_of_claims hfree, hs.closed uri hlast⟩)

/-! ### The parts of a refresh -/

section Refresh

variable {w w₁ w₂ w' : Workspace ε} {uri : String} {early final : List Publication}
  {inner : History} {result : Option Outcome}

@[simp] theorem steps_shown (stage : Stage) (id : String) (sent : List Publication) :
    steps (sent.map (.shown stage id)) = [] := by
  induction sent with
  | nil => rfl
  | cons p sent ih => exact ih

@[simp] theorem publications_shown_map (stage : Stage) (id : String) (sent : List Publication) :
    publications (sent.map (.shown stage id)) = sent := by
  induction sent with
  | nil => rfl
  | cons p sent ih => rw [List.map_cons, publications_shown, ih]

theorem claims_shown_map (u : String) (stage : Stage) (id : String) (sent : List Publication) :
    ∀ e ∈ sent.map (Event.shown stage id), e.claims u = false := by
  intro e he
  obtain ⟨p, _, rfl⟩ := List.mem_map.mp he
  rfl

theorem claims_ended (u id : String) : ∀ e ∈ ended uri id final result, e.claims u = false := by
  rw [ended, List.forall_mem_cons, List.forall_mem_append, List.forall_mem_singleton]
  exact ⟨rfl, claims_shown_map u _ id final, rfl⟩

/-- The opening of a refresh tells of its request and of the findings of the scan. -/
theorem follows_opened (hsession : w₁.session = (w.session.begin uri (Service.requestId uri w)).2)
    (hnumber : w₁.nextNumber = w.nextNumber + 1) (hearly : w₁.published = w.published ++ early) :
    Follows w (opened uri (Service.requestId uri w) early) w₁ where
  session := by rw [hsession, opened, steps_did, steps_shown, Session.run_cons]; rfl
  published := by
    rw [hearly, opened]
    exact congrArg _ (publications_shown_map _ _ early).symm
  numbers := by omega
  named := by
    intro u id hmem
    rcases List.mem_cons.mp hmem with hbegin | hshown
    · obtain ⟨rfl, rfl⟩ := by simpa using hbegin
      exact ⟨w.nextNumber, Nat.le_refl _, by omega, rfl⟩
    · obtain ⟨p, _, hp⟩ := List.mem_map.mp hshown
      exact absurd hp (by simp)
  fresh := List.pairwise_cons.mpr
    ⟨fun _ he => Event.apart_of_free (claims_shown_map · _ _ early _ he),
      pairwise_apart_of_free fun e he u => claims_shown_map u _ _ early e he⟩

/-- The conclusion of a refresh finishes its request and sends what it ends with. -/
theorem follows_ended {id : String} (hsession : w'.session = w₂.session.finish uri id)
    (hnumber : w'.nextNumber = w₂.nextNumber) (hfinal : w'.published = w₂.published ++ final) :
    Follows w₂ (ended uri id final result) w' where
  session := by
    rw [hsession, ended, steps_did, steps_append, steps_shown]
    rfl
  published := by
    have hsent : publications (ended uri id final result) = final := by
      show publications (final.map (.shown .final id) ++ [.concluded uri id result]) = final
      rw [publications_append, publications_shown_map]
      exact List.append_nil final
    rw [hfinal, hsent]
  numbers := hnumber.ge
  named := by
    intro u i hmem
    exact absurd (claims_ended u id) (claims_of_mem hmem (claims_begin u i))
  fresh := pairwise_apart_of_free fun e he u => claims_ended u id e he

/-- How a refresh ends after what has happened: with an outcome and its findings if the request is the last
claim of the document, and with nothing otherwise. -/
def Ends (uri id : String) (past : History) (final : List Publication) (result : Option Outcome) :
    Prop :=
  (LastClaim uri (.did (.begin uri id)) past ∧ result.isSome = true ∧
      ∃ p, p.uri = uri ∧ final = [p]) ∨
    (¬ LastClaim uri (.did (.begin uri id)) past ∧ result = none ∧ final = [])

variable {id : String}

theorem orderly_shown_map (stage : Stage) {sent : List Publication} (hsent : ∀ p ∈ sent, p.uri = uri) :
    ∀ {past : History}, LastClaim uri (.did (.begin uri id)) past →
      Orderly past (sent.map (.shown stage id)) := by
  induction sent with
  | nil =>
    intro past _
    trivial
  | cons p sent ih =>
    intro past hlast
    obtain ⟨hp, hsent⟩ := List.forall_mem_cons.mp hsent
    refine ⟨?_, ih hsent (hlast.keep (by simp [Event.claims]))⟩
    rw [← hp] at hlast
    exact hlast

theorem orderly_opened (hearly : ∀ p ∈ early, p.uri = uri) : Orderly [] (opened uri id early) :=
  ⟨trivial, orderly_shown_map .early hearly ⟨[], [], rfl, by simp⟩⟩

theorem orderly_ended {past : History} (hbegin : .did (.begin uri id) ∈ past)
    (hends : Ends uri id past final result) : Orderly past (ended uri id final result) := by
  have hfinish : ∀ x ∈ [Event.did (.finish uri id)], x.claims uri = false := by simp [Event.claims, Session.Step.claims]
  refine ⟨trivial, (orderly_append _ _ _).mpr ⟨?_, ⟨by simp [hbegin], ?_⟩, trivial⟩⟩
  · rcases hends with ⟨hlast, _, p, hp, rfl⟩ | ⟨_, _, rfl⟩
    · exact orderly_shown_map .final (by simpa using hp) (hlast.keep hfinish)
    · trivial
  · have hfree : ∀ x ∈ Event.did (.finish uri id) :: final.map (.shown .final id),
        x.claims uri = false := List.forall_mem_cons.mpr ⟨rfl, claims_shown_map uri _ id final⟩
    rw [List.append_assoc, List.singleton_append]
    constructor
    · intro hsome
      rcases hends with ⟨hlast, _⟩ | ⟨_, rfl, _⟩
      · exact hlast.keep hfree
      · exact absurd hsome (by simp)
    · intro hlast
      rcases hends with ⟨_, hsome, _⟩ | ⟨hnot, _⟩
      · exact hsome
      · exact absurd (hlast.of_append (claims_begin uri id) hfree) hnot

/-- A refresh that was superseded sends nothing at its end. -/
theorem shows_ended {u : String} {e : Event} (hends : Ends uri id (opened uri id early ++ inner) final result)
    (hlast : LastClaim u e inner) (he : e.claims u = true) (hne : e ≠ .did (.begin uri id)) :
    ∀ x ∈ ended uri id final result, x.shows u = false := by
  rcases hends with ⟨hbegin, _, p, hp, rfl⟩ | ⟨_, _, rfl⟩
  · by_cases hu : uri = u
    · -- the claim in between is the last one, and it is not the request of the refresh
      subst hu
      exact absurd (LastClaim.unique (hlast.before _) hbegin he (claims_begin uri id)) hne
    · simp [ended, Event.shows, hp, hu]
  · simp [ended, Event.shows]

theorem eq_begin_of_mem_opened {u : String} {e : Event} (he : e ∈ opened uri id early)
    (hclaims : e.claims u = true) : e = .did (.begin uri id) := by
  rcases List.mem_cons.mp he with hbegin | hshown
  · exact hbegin
  · exact absurd (claims_shown_map u .early id early) (claims_of_mem hshown hclaims)

theorem settled_refresh (hinner : Settled inner) (hfresh : .did (.begin uri id) ∉ inner)
    (hends : Ends uri id (opened uri id early ++ inner) final result) :
    Settled (opened uri id early ++ inner ++ ended uri id final result) := by
  have hne : ∀ {u e}, LastClaim u e inner → e ≠ .did (.begin uri id) := by
    rintro u e hlast rfl
    exact hfresh hlast.mem
  constructor
  · intro u i hlast
    have hlast' := hlast.of_append (claims_begin u i) (claims_ended u id)
    -- a claim made meanwhile is later than the opening of the refresh
    rcases since_append.mp hlast' with hin | ⟨_, hopened⟩
    · obtain ⟨p, hp, hshow⟩ := hinner.begun u i hin
      exact ⟨p, hp, (hshow.before _).keep (shows_ended hends hin (claims_begin u i) (hne hin))⟩
    · -- nothing claimed the document during the refresh, so its own findings are the last ones
      obtain ⟨rfl, rfl⟩ := by simpa using eq_begin_of_mem_opened hopened.mem (claims_begin u i)
      rcases hends with ⟨_, _, p, hp, rfl⟩ | ⟨hnot, _, _⟩
      · exact ⟨p, hp, opened u i early ++ inner ++ [.did (.finish u i)], [.concluded u i result],
          by simp [ended], by simp [Event.shows]⟩
      · exact absurd hlast' hnot
  · intro u hlast
    have hlast' := hlast.of_append (claims_close u) (claims_ended u id)
    rcases since_append.mp hlast' with hin | ⟨_, hopened⟩
    · exact ((hinner.closed u hin).before _).keep
        (shows_ended hends hin (claims_close u) (hne hin))
    · exact absurd (eq_begin_of_mem_opened hopened.mem (claims_close u)) (by simp)

end Refresh

/-! ### Whole courses -/

/-- What holds of a course: its history is what happened, every event was due, and the documents stand as
they should. -/
structure Recounts (w : Workspace ε) (h : History) (w' : Workspace ε) : Prop where
  follows : Follows w h w'
  orderly : Orderly [] h
  settled : Settled h

theorem recounts_aside {w w' : Workspace ε} (hsession : w'.session = w.session)
    (hpublished : w'.published = w.published) (hnumber : w.nextNumber ≤ w'.nextNumber) :
    Recounts w [] w' where
  follows :=
    { session := hsession
      published := by rw [hpublished]; exact (List.append_nil _).symm
      numbers := hnumber
      named := by simp
      fresh := List.Pairwise.nil }
  orderly := trivial
  settled := settled_nil

theorem Recounts.append {w w₁ w' : Workspace ε} {h h' : History} (hr : Recounts w h w₁)
    (hr' : Recounts w₁ h' w') : Recounts w (h ++ h') w' where
  follows := hr.follows.append hr'.follows
  orderly := (orderly_append [] h h').mpr ⟨hr.orderly, by
    have ho := hr'.orderly.before h
    rwa [List.append_nil] at ho⟩
  settled := hr.settled.append hr'.settled hr'.orderly

theorem recounts_close (s : Service ε) {uri : String} {w w' : Workspace ε}
    (hrun : s.handle (.close uri) w = (.ok (), w')) :
    Recounts w [.did (.close uri), .cleared uri] w' := by
  obtain rfl := (Prod.mk.inj hrun).2
  refine ⟨⟨rfl, rfl, Nat.le_refl _, by simp, ?_⟩, ⟨trivial, ⟨[], [], rfl, by simp⟩, trivial⟩, ?_, ?_⟩
  · simp [Event.Apart]
  · intro u id hlast
    exact absurd hlast.mem (by simp)
  · intro u hlast
    obtain rfl : u = uri := by simpa using hlast.mem
    exact ⟨[.did (.close u)], [], rfl, by simp⟩

/-- A refresh recounts its opening, what was recounted meanwhile, and its conclusion. -/
theorem recounts_refresh (s : Service ε) {uri : String} {w w₁ w' : Workspace ε} {c : Coordinator ε}
    {request : Request} {token : Token} {early final : List Publication} {inner : History}
    {result : Option Outcome} (hopen : s.opening uri w = (.ok (c, request, token), w₁))
    (hearly : w₁.published = w.published ++ early)
    (hinner : Recounts w₁ inner (c.meanwhile request token w₁))
    (hrun : s.validate uri w = (.ok result, w'))
    (hfinal : w'.published = (c.meanwhile request token w₁).published ++ final) :
    Recounts w (opened uri request.id early ++ inner ++ ended uri request.id final result) w' := by
  obtain ⟨_, _, rfl, _⟩ := s.opening_parts hopen
  -- up to the conclusion, the history is that of the opening and what was recounted meanwhile
  obtain ⟨hbegun, hnumber, sent, hsent, huri⟩ := s.opening_spec hopen
  obtain rfl : early = sent := List.append_cancel_left (hearly.symm.trans hsent)
  obtain ⟨o, log, hconclude⟩ := s.validate_of_opening hopen hrun
  obtain ⟨hsession, hsame, hverdict⟩ := Service.conclude_spec hconclude
  have hbefore := (follows_opened hbegun hnumber hearly).append hinner.follows
  have hbegin : .did (.begin uri (Service.requestId uri w)) ∈
      opened uri (Service.requestId uri w) early ++ inner :=
    List.mem_append_left _ List.mem_cons_self
  -- the last check of the refresh is a statement about that history
  have hcurrent := hbefore.isCurrent_iff hbegin
  have hends : Ends uri (Service.requestId uri w)
      (opened uri (Service.requestId uri w) early ++ inner) final result := by
    rw [Session.isCurrent, Session.finish_latest] at hverdict
    rcases hverdict with ⟨hcheck, rfl, p, hp, hpublished⟩ | ⟨hcheck, rfl, hpublished⟩
    · exact Or.inl ⟨hcurrent.mp hcheck, rfl, p, Service.publication_uri hp,
        List.append_cancel_left (hfinal.symm.trans hpublished)⟩
    · refine Or.inr ⟨fun hlast => ?_, rfl, ?_⟩
      · exact absurd (hcurrent.mpr hlast) (Bool.eq_false_iff.mp hcheck)
      · exact List.append_right_eq_self.mp (hfinal.symm.trans hpublished)
  have hfresh : .did (.begin uri (Service.requestId uri w)) ∉ inner := fun hmem =>
    (List.pairwise_append.mp hbefore.fresh).2.2 _ List.mem_cons_self _ hmem _ _ rfl rfl
  -- what was due while the analyzer ran is still due after the opening
  have horderly : Orderly (opened uri (Service.requestId uri w) early) inner := by
    have ho := hinner.orderly.before (opened uri (Service.requestId uri w) early)
    rwa [List.append_nil] at ho
  exact
    { follows := hbefore.append (follows_ended hsession hsame hfinal)
      orderly := (orderly_append _ _ _).mpr
        ⟨(orderly_append _ _ _).mpr ⟨orderly_opened huri, horderly⟩, orderly_ended hbegin hends⟩
      settled := settled_refresh hinner.settled hfresh hends }

/-- Every course is recounted by its history. -/
theorem Course.recounts {w w' : Workspace ε} {h : History} (hc : Course w h w') :
    Recounts w h w' := by
  induction hc with
  | aside hsession hpublished hnumber => exact recounts_aside hsession hpublished hnumber
  | append _ _ ih ih' => exact ih.append ih'
  | close s hrun => exact recounts_close s hrun
  | refresh s hopen hearly _ hrun hfinal ih =>
    rw [← List.append_assoc]
    exact recounts_refresh s hopen hearly ih hrun hfinal

/-- A request that is begun once is the last claim of its document as long as nothing claims the document
after it. -/
theorem lastClaim_iff {before during after : History} {uri id : String}
    (hfresh : (before ++ .did (.begin uri id) :: (during ++ after)).Pairwise Event.Apart) :
    LastClaim uri (.did (.begin uri id)) (before ++ .did (.begin uri id) :: during) ↔
      ∀ e ∈ during, e.claims uri = false := by
  have hlater : .did (.begin uri id) ∉ during := fun hmem =>
    List.rel_of_pairwise_cons (List.pairwise_append.mp hfresh).2.1
      (List.mem_append_left after hmem) uri id rfl rfl
  rw [LastClaim, since_append, since_cons]
  constructor
  · rintro ((hagain | ⟨hfree, _⟩) | ⟨hfree, _⟩)
    · exact absurd hagain.mem hlater
    · exact hfree
    · exact absurd hfree (claims_of_mem List.mem_cons_self (claims_begin uri id))
  · exact fun hfree => Or.inl (Or.inr ⟨hfree, rfl⟩)

/-- What was sent last for a document is what its last showing event sent. -/
theorem History.LastShow.since_publications {uri : String} {e : Event} {p : Publication} {h : History}
    (hlast : LastShow uri e h) (hp : e.sent? = some p) :
    Since p (fun q => q.uri ≠ uri) (publications h) := by
  obtain ⟨before, after, rfl, hfree⟩ := hlast
  refine ⟨publications before, publications after, ?_, ?_⟩
  · rw [publications_append, publications, publications, List.filterMap_cons_some hp, publications]
  · intro q hq
    obtain ⟨x, hx, hsent⟩ := List.mem_filterMap.mp hq
    have hshows := hfree x hx
    cases x with
    | shown stage id p =>
      obtain rfl := Option.some_inj.mp hsent
      simpa [Event.shows] using hshows
    | cleared u =>
      obtain rfl := Option.some_inj.mp hsent
      simpa [Event.shows] using hshows
    | _ => exact absurd hsent (by simp [Event.sent?])

/-- In every course of handlers, nested to any depth, the last request of a document wins: findings are sent
only while their request is the newest one, those sent last are the ones that the last request ended with,
or none if the document was closed after it began, and a refresh comes to nothing exactly if its document
was claimed by somebody else before it ended.  A refresh that follows goes on with the course, if what its
analyzer does is a course itself. -/
theorem last_request_wins {w w' : Workspace ε} {h : History} (hc : Course w h w') :
    (w'.session = w.session.run (steps h) ∧ w'.published = w.published ++ publications h) ∧
    (∀ before stage id p after, h = before ++ .shown stage id p :: after →
      LastClaim p.uri (.did (.begin p.uri id)) before) ∧
    (∀ uri id, LastClaim uri (.did (.begin uri id)) h →
      ∃ p, LastShow uri (.shown .final id p) h ∧
        p.uri = uri ∧ Since p (fun q => q.uri ≠ uri) w'.published) ∧
    (∀ uri, LastClaim uri (.did (.close uri)) h →
      LastShow uri (.cleared uri) h ∧
        Since ⟨uri, none, []⟩ (fun q => q.uri ≠ uri) w'.published) ∧
    (∀ before uri id during result after,
      h = before ++ .did (.begin uri id) :: (during ++ .concluded uri id result :: after) →
        (result = none ↔ ∃ e ∈ during, e.claims uri = true)) ∧
    (∀ (s : Service ε) uri result w'', s.validate uri w' = (.ok result, w'') →
      (∀ c request token w₁, s.opening uri w' = (.ok (c, request, token), w₁) →
        ∃ inner, Course w₁ inner (s.invoke (c.settings.call request) token w₁).2) →
      ∃ id early inner final,
        Course w (h ++ (opened uri id early ++ (inner ++ ended uri id final result))) w'') := by
  obtain ⟨hfollows, horderly, hsettled⟩ := hc.recounts
  refine ⟨⟨hfollows.session, hfollows.published⟩, ?_, ?_, ?_, ?_, ?_⟩
  · rintro before stage id p after rfl
    exact horderly.due
  · intro uri id hlast
    obtain ⟨p, hp, hshow⟩ := hsettled.begun uri id hlast
    rw [hfollows.published]
    exact ⟨p, hshow, hp, (hshow.since_publications rfl).before w.published⟩
  · intro uri hlast
    have hshow := hsettled.closed uri hlast
    rw [hfollows.published]
    exact ⟨hshow, (hshow.since_publications rfl).before w.published⟩
  · rintro before uri id during result after rfl
    rw [← List.cons_append, ← List.append_assoc] at horderly
    have hresult := horderly.due.2.trans (lastClaim_iff hfollows.fresh)
    rw [← Option.not_isSome_iff_eq_none, hresult]
    simp
  · intro s uri result w'' hrun hinvoke
    obtain ⟨id, early, inner, final, hnext⟩ := exists_course_of_validate s hrun hinvoke
    exact ⟨id, early, inner, final, hc.append hnext⟩

namespace Service

/-- A service whose analyzer does nothing but report that it was cancelled. -/
def prompt : Service Unit where
  invoke := fun _ _ => pure { cancelled := true }

/-- A service whose analyzer has a document refreshed while it is called. -/
def distracted : Service Unit where
  invoke := fun _ _ => do
    let _ ← prompt.validate "u"
    return { cancelled := true }

end Service

/-- One open document with a bracket too many. -/
def openDocument : Workspace Unit where
  documents := [("u", { text := "]" })]
  settings := some {}
  surroundings := ()

/-- A refresh inside a refresh of the same document: both publish what the scan found, and only the inner one
its outcome; then the document can be refreshed again. -/
theorem course_distracted : ∃ h w', Course openDocument h w' ∧ ∃ p q r o,
    h = opened "u" "u#1" [p] ++ ((opened "u" "u#2" [q] ++ ([] ++ ended "u" "u#2" [r] (some o))) ++
      ended "u" "u#1" [] none) ∧
    ∃ o' w'', Service.prompt.validate "u" w' = (.ok (some o'), w'') := by
  refine ⟨_, _, @Course.refresh _ Service.distracted "u" openDocument _ _ _ _ _ _ _ _ _ rfl rfl
    (@Course.refresh _ Service.prompt "u" _ _ _ _ _ _ _ _ _ _ rfl rfl
      (.aside rfl rfl (Nat.le_refl _)) rfl rfl) rfl rfl, ?_⟩
  exact ⟨_, _, _, _, rfl, _, _, rfl⟩

/-- The inner request of the two wins, and the outer one comes to nothing; a refresh that follows goes on
with the course. -/
theorem last_request_wins_distracted :
    ∃ (h : History) (w' : Workspace Unit), Course openDocument h w' ∧
      .concluded "u" "u#1" none ∈ h ∧ (∃ p, LastShow "u" (.shown .final "u#2" p) h ∧
        Since p (fun q => q.uri ≠ "u") w'.published) ∧
      ∃ o w'', Service.prompt.validate "u" w' = (.ok (some o), w'') ∧ ∃ id early inner final,
        Course openDocument (h ++ (opened "u" id early ++ (inner ++ ended "u" id final (some o)))) w'' := by
  obtain ⟨h, w', hc, p, q, r, o, rfl, o', w'', hnext⟩ := course_distracted
  obtain ⟨_, _, hbegun, _, _, hgoes⟩ := last_request_wins hc
  have hopened : LastClaim "u" (.did (.begin "u" "u#2")) (opened "u" "u#2" [q]) :=
    ⟨[], _, rfl, claims_shown_map "u" .early "u#2" [q]⟩
  have hinner := hopened.keep (claims_ended "u" "u#2" : ∀ e ∈ ended "u" "u#2" [r] (some o), _)
  obtain ⟨sent, hshow, _, hlast⟩ := hbegun "u" "u#2"
    (Since.before (Since.keep hinner (claims_ended "u" "u#1")) (opened "u" "u#1" [p]))
  -- the analyzer of the refresh that follows leaves everything as it is
  have hquiet : ∀ (c : Coordinator Unit) request token w₁,
      Service.prompt.opening "u" w' = (.ok (c, request, token), w₁) →
        ∃ inner, Course w₁ inner (Service.prompt.invoke (c.settings.call request) token w₁).2 :=
    fun _ _ _ _ _ => ⟨[], .aside rfl rfl (Nat.le_refl _)⟩
  exact ⟨_, w', hc, by simp [ended], ⟨sent, hshow, hlast⟩, o', w'', hnext,
    hgoes Service.prompt "u" (some o') w'' hnext hquiet⟩

end AnalyzerBridge
