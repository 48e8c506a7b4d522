/-
What a service does to the session and to the findings it has sent.

A refresh goes up to the call of the analyzer (`opening`), waits for it, and then
concludes.

* `opening_spec` — the opening begins a request with a fresh name and publishes
  nothing but findings on its document;
* `conclude_spec` — the conclusion publishes the outcome of a request that is
  still current, and drops any other;
* `validate_of_opening` — a refresh is its opening, what happens meanwhile, and
  its conclusion.
-/
import AnalyzerBridge.Proofs.Coordinator
import AnalyzerBridge.Service.Basic

namespace AnalyzerBridge.Service

variable {ε : Type} (s : Service ε)

/-- A refresh up to the call of the analyzer: the request enters, and what the scan found is published.
The result is what the call is made with. -/
def opening (uri : String) : Act (Workspace ε) (Coordinator ε × Request × Token) := do
  let document ← Act.look fun w => w.document uri
  let id ← Workspace.nextRequestId uri
  let c ← s.coordinator
  let token ← Coordinator.enter (request uri id document c.settings)
  Coordinator.tell (some (early uri document)) (request uri id document c.settings)
    (c.settings.scanOutcome document.text)
  return (c, request uri id document c.settings, token)

/-- The name of the request that a refresh starts. -/
def requestId (uri : String) (w : Workspace ε) : String :=
  uri ++ "#" ++ toString w.nextNumber

/-! ### Loading and publishing -/

section Loading

variable {s} {settings : Settings} {w : Workspace ε}

theorem coordinator_of_loaded (h : w.settings = some settings) :
    s.coordinator w = (.ok ⟨settings, s.invoke, none, s.depth⟩, w) := by
  rw [coordinator, Act.run_bind (Act.look_apply _ w), h]
  rfl

theorem coordinator_of_refusal {fault : Failure} (h : w.settings = none)
    (hresolve : Settings.resolve s.files s.root none s.environment [] s.room = .error fault) :
    s.coordinator w = (.error fault, w) := by
  rw [coordinator, Act.run_bind (Act.look_apply _ w), h]
  simp only [hresolve]
  rfl

theorem coordinator_of_resolve (h : w.settings = none)
    (hresolve : Settings.resolve s.files s.root none s.environment [] s.room = .ok settings) :
    s.coordinator w = (.ok ⟨settings, s.invoke, none, s.depth⟩, { w with settings := some settings }) := by
  rw [coordinator, Act.run_bind (Act.look_apply _ w), h]
  simp only [hresolve]
  rfl

end Loading

/-- Loading the settings leaves everything else alone, and the coordinator calls the analyzer of the
service. -/
theorem coordinator_spec {w w' : Workspace ε} {c : Coordinator ε}
    (h : s.coordinator w = (.ok c, w')) :
    c.invoke = s.invoke ∧ c.depth = s.depth ∧ ∃ settings, w' = { w with settings := settings } := by
  cases hloaded : w.settings with
  | some settings =>
    obtain ⟨hc, rfl⟩ := Prod.mk.inj ((coordinator_of_loaded hloaded).symm.trans h)
    obtain rfl := Except.ok.inj hc
    exact ⟨rfl, rfl, w.settings, rfl⟩
  | none =>
    cases hresolve : Settings.resolve s.files s.root none s.environment [] s.room with
    | error fault =>
      rw [coordinator_of_refusal hloaded hresolve] at h
      exact absurd (Prod.mk.inj h).1 (by simp)
    | ok settings =>
      obtain ⟨hc, rfl⟩ := Prod.mk.inj ((coordinator_of_resolve hloaded hresolve).symm.trans h)
      obtain rfl := Except.ok.inj hc
      exact ⟨rfl, rfl, some settings, rfl⟩

theorem publication_uri {uri : String} {d : Document} {o : Outcome} {p : Publication}
    (h : publication uri d o = .ok p) : p.uri = uri := by
  simp only [publication, bind, Except.bind] at h
  split at h
  · exact absurd h (by simp)
  · split at h
    · exact absurd h (by simp)
    · obtain rfl := Except.ok.inj h
      rfl

/-- The findings of an outcome are sent all at once. -/
theorem publish_spec {uri : String} {d : Document} {o : Outcome} {w w' : Workspace ε}
    (h : publish uri d o w = (.ok (), w')) :
    ∃ p, publication uri d o = .ok p ∧ w' = { w with published := w.published ++ [p] } := by
  obtain ⟨p, w₁, hread, hrest⟩ := Act.ok_of_bind h
  obtain ⟨hp, rfl⟩ := Act.ok_of_ofExcept hread
  exact ⟨p, hp, (Prod.mk.inj hrest).2.symm⟩

/-! ### The three parts of a refresh -/

/-- A listener that hears of a scan publishes at most its findings, all on its own document. -/
theorem tell_early_spec {uri : String} {d : Document} {r : Request} {scanned : Outcome}
    {w w' : Workspace ε}
    (h : Coordinator.tell (some (early uri d)) r scanned w = (.ok (), w')) :
    ∃ sent, w' = { w with published := w.published ++ sent } ∧
      ∀ p ∈ sent, p.uri = uri := by
  have hnothing : ∃ sent, w = { w with published := w.published ++ sent } ∧
      ∀ p ∈ sent, p.uri = uri := ⟨[], by simp, by simp⟩
  rw [Coordinator.tell] at h
  -- a listener hears of a scan only if the scan found anything
  split at h
  · obtain rfl := (Prod.mk.inj h).2
    exact hnothing
  · rw [early, Act.run_bind (Workspace.isCurrent_apply w uri r.id)] at h
    split at h
    · obtain ⟨p, hp, rfl⟩ := publish_spec h
      exact ⟨[p], rfl, by simpa using publication_uri hp⟩
    · obtain rfl := (Prod.mk.inj h).2
      exact hnothing

/-- The opening of a refresh loads the settings, enters and tells of the scan. -/
theorem opening_parts {uri : String} {w w' : Workspace ε} {c : Coordinator ε} {r : Request}
    {token : Token} (h : s.opening uri w = (.ok (c, r, token), w')) :
    ∃ w₀, s.coordinator { w with nextNumber := w.nextNumber + 1 } = (.ok c, w₀) ∧
      r = request uri (requestId uri w) (w.document uri) c.settings ∧
      token = (Coordinator.entry r w₀.session).1 ∧
      Coordinator.tell (some (early uri (w.document uri))) r (c.settings.scanOutcome r.source)
        { w₀ with session := (Coordinator.entry r w₀.session).2 } = (.ok (), w') := by
  rw [opening, Act.run_bind (Act.look_apply _ w),
    Act.run_bind (Workspace.nextRequestId_apply w uri)] at h
  obtain ⟨c', w₀, hc, hentered⟩ := Act.ok_of_bind h
  rw [Act.run_bind (Coordinator.enter_apply _ w₀)] at hentered
  obtain ⟨_, w₁, htell, hrest⟩ := Act.ok_of_bind hentered
  obtain ⟨hresult, rfl⟩ := Prod.mk.inj hrest
  obtain ⟨rfl, rfl, rfl⟩ := by simpa using hresult
  exact ⟨w₀, hc, rfl, rfl, htell⟩

/-- The opening of a refresh begins a request with a fresh name, and publishes nothing but findings on
the document. -/
theorem opening_spec {uri : String} {w w' : Workspace ε} {c : Coordinator ε} {r : Request}
    {token : Token} (h : s.opening uri w = (.ok (c, r, token), w')) :
    w'.session = (w.session.begin uri (requestId uri w)).2 ∧ w'.nextNumber = w.nextNumber + 1 ∧
      ∃ sent, w'.published = w.published ++ sent ∧ ∀ p ∈ sent, p.uri = uri := by
  obtain ⟨w₀, hc, rfl, _, htell⟩ := s.opening_parts h
  obtain ⟨_, _, settings, rfl⟩ := s.coordinator_spec hc
  obtain ⟨sent, rfl, hsent⟩ := tell_early_spec htell
  exact ⟨rfl, rfl, sent, rfl, hsent⟩

/-- A caveat is shown, or there is none; nothing else changes. -/
theorem showCaveat_apply (o : Outcome) (w : Workspace ε) :
    ∃ messages, showCaveat o w = (.ok (), { w with messages := messages }) := by
  rw [showCaveat]
  cases o.caveat with
  | none => exact ⟨w.messages, rfl⟩
  | some caveat =>
    by_cases hempty : caveat = ""
    · subst hempty
      exact ⟨w.messages, rfl⟩
    · exact ⟨w.messages ++ ["ergols: " ++ caveat], by simp⟩

theorem showCaveat_spec {o : Outcome} {w w' : Workspace ε} (h : showCaveat o w = (.ok (), w')) :
    ∃ messages, w' = { w with messages := messages } := by
  obtain ⟨messages, hshow⟩ := showCaveat_apply o w
  rw [h] at hshow
  exact ⟨messages, (Prod.mk.inj hshow).2⟩

/-- The conclusion publishes the outcome of a request that is still current, and drops any other. -/
theorem conclude_spec {uri id : String} {d : Document} {o : Outcome} {w w' : Workspace ε}
    {result : Option Outcome} (h : conclude uri id d o w = (.ok result, w')) :
    w'.session = w.session ∧ w'.nextNumber = w.nextNumber ∧
      ((w.session.isCurrent uri id = true ∧ result = some o ∧
          ∃ p, publication uri d o = .ok p ∧ w'.published = w.published ++ [p]) ∨
        (w.session.isCurrent uri id = false ∧ result = none ∧ w'.published = w.published)) := by
  rw [conclude, Act.run_bind (Workspace.isCurrent_apply w uri id)] at h
  -- the check comes first and decides whether anything is sent
  cases hcurrent : w.session.isCurrent uri id with
  | true =>
    rw [hcurrent, if_pos rfl] at h
    obtain ⟨_, w₁, hcaveat, htail⟩ := Act.ok_of_bind h
    obtain ⟨messages, rfl⟩ := showCaveat_spec hcaveat
    obtain ⟨_, w₂, hpublish, hrest⟩ := Act.ok_of_bind htail
    obtain ⟨p, hp, rfl⟩ := publish_spec hpublish
    obtain ⟨hresult, rfl⟩ := Prod.mk.inj hrest
    obtain rfl := Except.ok.inj hresult
    exact ⟨rfl, rfl, Or.inl ⟨rfl, rfl, p, hp, rfl⟩⟩
  | false =>
    rw [hcurrent] at h
    obtain ⟨_, w₁, hnote, hrest⟩ := Act.ok_of_bind h
    obtain rfl := (Prod.mk.inj hnote).2
    obtain ⟨hresult, rfl⟩ := Prod.mk.inj hrest
    obtain rfl := Except.ok.inj hresult
    exact ⟨rfl, rfl, Or.inr ⟨rfl, rfl, rfl⟩⟩

/-- A refresh is its opening, what the analyzer does meanwhile, and its conclusion. -/
theorem validate_of_opening {uri : String} {w w₁ w' : Workspace ε} {c : Coordinator ε} {r : Request}
    {token : Token} {result : Option Outcome}
    (hopen : s.opening uri w = (.ok (c, r, token), w₁))
    (h : s.validate uri w = (.ok result, w')) :
    ∃ o log, conclude uri (requestId uri w) (w.document uri) o
      { c.meanwhile r token w₁ with
        session := (c.meanwhile r token w₁).session.finish uri (requestId uri w), log := log } =
      (.ok result, w') := by
  obtain ⟨w₀, hc, hr, rfl, htell⟩ := s.opening_parts hopen
  obtain ⟨answer, log, hanswer⟩ := Coordinator.answer_after c r htell
    (Coordinator.entry r w₀.session).1
  rw [validate, Act.run_bind (Act.look_apply _ w),
    Act.run_bind (Workspace.nextRequestId_apply w uri), Act.run_bind hc, ← requestId, ← hr] at h
  obtain ⟨o, w₂, hanalyze, hconclude⟩ := Act.ok_of_bind h
  -- the listener of the refresh goes before that of the coordinator
  rw [Coordinator.analyze_apply, Option.orElse_eq_orElse, Option.orElse_some, hanswer] at hanalyze
  obtain ⟨-, rfl⟩ := Prod.mk.inj hanalyze
  subst hr
  exact ⟨o, log, hconclude⟩

/-- A refresh that succeeds has had an opening. -/
theorem opening_of_validate {uri : String} {w w' : Workspace ε} {result : Option Outcome}
    (h : s.validate uri w = (.ok result, w')) :
    ∃ c r token w₁, s.opening uri w = (.ok (c, r, token), w₁) := by
  rw [validate, Act.run_bind (Act.look_apply _ w),
    Act.run_bind (Workspace.nextRequestId_apply w uri)] at h
  obtain ⟨c, w₀, hc, hrest⟩ := Act.ok_of_bind h
  obtain ⟨o, w₂, hanalyze, _⟩ := Act.ok_of_bind hrest
  rw [Coordinator.analyze_apply, Option.orElse_eq_orElse, Option.orElse_some] at hanalyze
  rcases htell : Coordinator.tell (some (early uri (w.document uri)))
      (request uri (requestId uri w) (w.document uri) c.settings)
      (c.settings.scanOutcome (w.document uri).text)
      { w₀ with session := (w₀.session.begin uri (requestId uri w)).2 } with ⟨f | _, w₁⟩
  · -- a listener that fails would have been the end of the refresh
    obtain ⟨hanswer, _⟩ := Prod.mk.inj hanalyze
    have hfail := Coordinator.answer_of_tell_error c _ htell (w₀.session.begin uri (requestId uri w)).1
    exact absurd (hanswer.symm.trans (congrArg Prod.fst hfail)) (by simp)
  · refine ⟨c, request uri (requestId uri w) (w.document uri) c.settings,
      (w₀.session.begin uri (requestId uri w)).1, w₁, ?_⟩
    rw [opening, Act.run_bind (Act.look_apply _ w),
      Act.run_bind (Workspace.nextRequestId_apply w uri), Act.run_bind hc,
      Act.run_bind (Coordinator.enter_apply _ w₀)]
    exact Act.run_bind htell _

end AnalyzerBridge.Service
