/-
Traffic of edits and refreshes.

Documents are edited, every edit starts a refresh, and the refreshes take their turns in
any order.

* `Ordered.edit`, `Ordered.turn` — edits and turns keep the history in order: what was read
  is the document or older, what is shown was checked, and the last request to begin shows
  its findings;
* `Traffic.newest_text_wins_iff` — hence, once all refreshes are done, the findings shown
  last are on the newest text exactly if their refresh read the document after the last
  edit; and that refresh is the last one to begin, unless it straggled;
* `Traffic.older_text_wins` — either may go wrong.

Design notes: requests begin in any order, not in the order in which the documents were
read.  The order of the history is one invariant with one field for each thing that has to be
known; the step lemmas go through its fields and open no phase.
-/
import AnalyzerBridge.Proofs.Overtaking
import Mathlib.Logic.Relation

namespace AnalyzerBridge

/-- A refresh of a document. -/
structure Run where
  uri : String
  phase : Phase := .reading

/-- Documents that are edited while refreshes are under way. -/
structure Traffic (ε : Type) where
  workspace : Workspace ε
  runs : List Run := []
  history : List Mark := []

/-- The other document has a newer version. -/
def Document.Older (d d' : Document) : Prop :=
  ∃ v, d'.version = some v ∧ ∀ u, d.version = some u → u < v

namespace Document

variable {d d' d'' : Document}

theorem Older.trans (h : d.Older d') (h' : d'.Older d'') : d.Older d'' := by
  obtain ⟨v, hv, hless⟩ := h
  obtain ⟨v', hv', hless'⟩ := h'
  exact ⟨v', hv', fun u hu => (hless u hu).trans (hless' v hv)⟩

theorem Older.version_ne (h : d.Older d') : d.version ≠ d'.version := by
  obtain ⟨v, hv, hless⟩ := h
  intro heq
  exact absurd (hless v (heq.trans hv)) (lt_irrefl v)

end Document

namespace Traffic

variable {ε : Type}

/-- A document is edited, and a refresh starts. -/
def edit (t : Traffic ε) (uri : String) (d : Document) : Traffic ε where
  workspace := { t.workspace with documents := assign t.workspace.documents uri d }
  runs := t.runs ++ [⟨uri, .reading⟩]
  history := t.history ++ [.edited uri d]

/-- A refresh takes its turn. -/
def go (s : Service ε) (t : Traffic ε) (i : Nat) : Traffic ε :=
  match t.runs[i]? with
  | none => t
  | some r =>
    let turn := s.advance r.uri r.phase t.workspace
    { workspace := turn.workspace
      runs := t.runs.set i ⟨r.uri, turn.phase⟩
      history := t.history ++ marks r.uri i turn.deed }

/-- A document gets a newer version, or a refresh takes its turn. -/
inductive Move (s : Service ε) : Traffic ε → Traffic ε → Prop where
  | edit {t : Traffic ε} (uri : String) (d : Document)
      (hnewer : (t.workspace.document uri).Older d) : Move s t (t.edit uri d)
  | go {t : Traffic ε} (i : Nat) : Move s t (t.go s i)

/-- The traffic has come here from a workspace without refreshes. -/
def Reachable (s : Service ε) (w₀ : Workspace ε) (t : Traffic ε) : Prop :=
  Relation.ReflTransGen (Move s) { workspace := w₀ } t

/-- All refreshes have ended, and none of them failed. -/
def Done (t : Traffic ε) : Prop :=
  ∀ r ∈ t.runs, ∃ result, r.phase = .done (.ok result)

/-- What a refresh has read is the document, as long as that was not edited since, or older. -/
def Reads (t : Traffic ε) (uri : String) (i : Nat) (d : Document) : Prop :=
  (Read uri i d t.history ∧ d = t.workspace.document uri) ∨
    (¬ Read uri i d t.history ∧ d.Older (t.workspace.document uri))

/-- The history of the traffic is in order. -/
structure Ordered (w₀ : Workspace ε) (t : Traffic ε) : Prop where
  sound : ∀ (i : Nat) (r : Run), t.runs[i]? = some r → r.phase.Sound t.history t.workspace r.uri i
  apart : ∀ (i k : Nat) (r r' : Run) (id : String), t.runs[i]? = some r → t.runs[k]? = some r' →
    r.uri = r'.uri → r.phase.id? = some id → r'.phase.id? = some id → i = k
  owner : ∀ uri i deed, .did uri i deed ∈ t.history → ∃ r : Run, t.runs[i]? = some r ∧ r.uri = uri
  started : ∀ uri d, .edited uri d ∈ t.history →
    ∃ (i : Nat) (r : Run), t.runs[i]? = some r ∧ r.uri = uri
  published : t.workspace.published = w₀.published ++ t.history.filterMap Mark.sent?
  newest : ∀ uri d, LastEdit uri d t.history → t.workspace.document uri = d
  reads : ∀ uri i d, .did uri i (.read d) ∈ t.history → t.Reads uri i d
  once : ∀ uri i d d', .did uri i (.read d) ∈ t.history → .did uri i (.read d') ∈ t.history → d = d'
  shown : ∀ before uri i p after, t.history = before ++ .did uri i (.showed p) :: after →
    Service.Shown before uri i p

theorem ordered_start (w₀ : Workspace ε) : Ordered w₀ { workspace := w₀ } where
  sound i r h := absurd h (by simp)
  apart i k r r' id h := absurd h (by simp)
  owner uri i deed h := absurd h List.not_mem_nil
  started uri d h := absurd h List.not_mem_nil
  published := (List.append_nil _).symm
  newest uri d h := absurd h not_since_nil
  reads uri i d h := absurd h List.not_mem_nil
  once uri i d d' h := absurd h List.not_mem_nil
  shown before uri i p after h := absurd h.symm (List.append_ne_nil_of_right_ne_nil _ (by simp))

variable {w₀ : Workspace ε} {t : Traffic ε}

theorem mem_history_edit {uri u : String} {d : Document} {i : Nat} {deed : Deed} :
    .did u i deed ∈ (t.edit uri d).history ↔ .did u i deed ∈ t.history := by
  rw [edit, List.mem_append]
  simp

/-- What was read of a document is no longer the newest once the document is edited. -/
theorem read_edit {uri u : String} {d d' : Document} {i : Nat} :
    Read u i d' (t.edit uri d).history ↔ u ≠ uri ∧ Read u i d' t.history := by
  have hkeeps : (Mark.edited uri d).edits u = false ↔ u ≠ uri := by
    rw [Mark.edits, beq_eq_false_iff_ne, ne_comm]
  rw [Read, edit, since_snoc, or_iff_right (by simp), hkeeps]
  rfl

theorem document_edit (t : Traffic ε) (uri u : String) (d : Document) :
    (t.edit uri d).workspace.document u =
      if u = uri then d else t.workspace.document u := by
  rw [Workspace.document, edit, lookup_assign]
  split <;> rfl

theorem runs_edit (t : Traffic ε) (uri : String) (d : Document) (i : Nat) :
    (t.edit uri d).runs[i]? = if i = t.runs.length then some ⟨uri, .reading⟩ else t.runs[i]? := by
  rw [edit, List.getElem?_append]
  rcases Nat.lt_trichotomy i t.runs.length with hlt | rfl | hgt
  · rw [if_pos hlt, if_neg hlt.ne]
  · simp
  · rw [if_neg hgt.not_gt, if_neg hgt.ne', List.getElem?_eq_none hgt.le]
    exact List.getElem?_eq_none (by simp; omega)

theorem getElem?_runs_edit {i : Nat} {r : Run} (hr : t.runs[i]? = some r) (uri : String)
    (d : Document) : (t.edit uri d).runs[i]? = some r := by
  have hi : i < t.runs.length := (List.getElem?_eq_some_iff.mp hr).1
  rw [runs_edit, if_neg hi.ne, hr]

theorem Ordered.edit (ho : Ordered w₀ t) {uri : String} {d : Document}
    (hnewer : (t.workspace.document uri).Older d) : Ordered w₀ (t.edit uri d) where
  sound i r h := by
    rw [runs_edit] at h
    split at h
    next hi =>
      -- nobody has done anything in the place that the new refresh takes
      obtain rfl := Option.some_inj.mp h
      refine List.forall_mem_append.mpr ⟨fun m hm hrun => ?_, by simp [Mark.run?]⟩
      cases m with
      | edited u d' => exact absurd hrun (by simp [Mark.run?])
      | did u k deed =>
        obtain rfl := Option.some_inj.mp hrun
        obtain ⟨r, hr, -⟩ := ho.owner u k deed hm
        rw [hi, List.getElem?_eq_none (Nat.le_refl _)] at hr
        exact absurd hr (by simp)
    next =>
      refine (ho.sound i r h).others (by simp [Mark.run?]) (Nat.le_refl _) fun id hid => ?_
      rw [and_iff_right (by simp [Mark.begins])]
      rfl
  apart i k r r' id h h' huri hid hid' := by
    rw [runs_edit] at h h'
    split at h
    next =>
      obtain rfl := Option.some_inj.mp h
      exact absurd hid (by simp [Phase.id?])
    next =>
      split at h'
      next =>
        obtain rfl := Option.some_inj.mp h'
        exact absurd hid' (by simp [Phase.id?])
      next => exact ho.apart i k r r' id h h' huri hid hid'
  owner u i deed h := by
    obtain ⟨r, hr, huri⟩ := ho.owner u i deed (mem_history_edit.mp h)
    exact ⟨r, getElem?_runs_edit hr uri d, huri⟩
  started u d' h := by
    rcases List.mem_append.mp h with h | h
    · obtain ⟨i, r, hr, huri⟩ := ho.started u d' h
      exact ⟨i, r, getElem?_runs_edit hr uri d, huri⟩
    · obtain ⟨rfl, rfl⟩ := Mark.edited.inj (List.mem_singleton.mp h)
      exact ⟨t.runs.length, ⟨u, .reading⟩, by rw [runs_edit, if_pos rfl], rfl⟩
  published := by
    show t.workspace.published = w₀.published ++ (t.history ++ [Mark.edited uri d]).filterMap Mark.sent?
    rw [ho.published, List.filterMap_append]
    exact congrArg _ (List.append_nil _).symm
  newest u d' h := by
    rw [document_edit]
    rcases since_snoc.mp h with heq | ⟨hkeeps, hold⟩
    · obtain ⟨rfl, rfl⟩ := Mark.edited.inj heq
      rw [if_pos rfl]
    · rw [if_neg fun huri => by simp [Mark.edits, huri] at hkeeps, ho.newest u d' hold]
  reads u i d' h := by
    have hold := ho.reads u i d' (mem_history_edit.mp h)
    rw [Reads, document_edit, read_edit]
    by_cases huri : u = uri
    · subst huri
      rw [if_pos rfl]
      refine Or.inr ⟨fun hr => hr.1 rfl, ?_⟩
      rcases hold with ⟨-, rfl⟩ | ⟨-, holder⟩
      · exact hnewer
      · exact holder.trans hnewer
    · rw [if_neg huri, and_iff_right huri]
      exact hold
  once u i d' d'' h h' :=
    ho.once u i d' d'' (mem_history_edit.mp h) (mem_history_edit.mp h')
  shown before u i p after h := by
    rcases split_snoc h with ⟨-, hmark, -⟩ | ⟨after, rfl, hold⟩
    · exact absurd hmark (by simp)
    · exact ho.shown before u i p after hold

theorem runs_set {i : Nat} {r : Run} (hr : t.runs[i]? = some r) (r' : Run) (k : Nat) :
    (t.runs.set i r')[k]? = if k = i then some r' else t.runs[k]? := by
  rw [List.getElem?_set]
  by_cases hk : i = k
  · subst hk
    rw [if_pos rfl, if_pos (List.getElem?_eq_some_iff.mp hr).1, if_pos rfl]
  · rw [if_neg hk, if_neg (Ne.symm hk)]

/-- Every refresh stays at its place with its document. -/
theorem exists_run_set {i k : Nat} {r r' : Run} (hr : t.runs[i]? = some r)
    (hr' : t.runs[k]? = some r') (phase : Phase) :
    ∃ r'', (t.runs.set i ⟨r.uri, phase⟩)[k]? = some r'' ∧ r''.uri = r'.uri := by
  rw [runs_set hr]
  by_cases hk : k = i
  · subst hk
    obtain rfl := Option.some_inj.mp (hr.symm.trans hr')
    exact ⟨⟨r.uri, phase⟩, if_pos rfl, rfl⟩
  · exact ⟨r', by rw [if_neg hk, hr'], rfl⟩

theorem edits_marks {uri u : String} {i : Nat} {deed : Option Deed} :
    ∀ m ∈ marks uri i deed, m.edits u = false := by
  intro m hm
  obtain ⟨d, -, rfl⟩ := mem_marks.mp hm
  rfl

/-- What has just been read is the document, and what was read before stays as it was. -/
theorem Ordered.reads_turn (ho : Ordered w₀ t) {i : Nat} {r : Run} {deed : Option Deed}
    {phase' : Phase} {w' : Workspace ε}
    (ht : Service.Takes r.uri t.workspace r.phase deed phase' w') {runs : List Run} {u : String}
    {k : Nat} {d : Document} (h : .did u k (.read d) ∈ t.history ++ marks r.uri i deed) :
    Reads ⟨w', runs, t.history ++ marks r.uri i deed⟩ u k d := by
  have hdocument : w'.document u = t.workspace.document u := by
    rw [Workspace.document, Workspace.document, ht.frame.documents]
  have hnew : .did u k (.read d) ∈ marks r.uri i deed → d = t.workspace.document u := by
    intro hmem
    obtain ⟨_, rfl, hmark⟩ := mem_marks.mp hmem
    obtain ⟨rfl, rfl, rfl⟩ := Mark.did.inj hmark
    exact ht.read_eq.2
  show Read u k d (t.history ++ marks r.uri i deed) ∧ d = w'.document u ∨
    ¬ Read u k d (t.history ++ marks r.uri i deed) ∧ d.Older (w'.document u)
  rw [hdocument]
  rcases List.mem_append.mp h with hold | hmem
  · rcases ho.reads u k d hold with ⟨hread, hd⟩ | ⟨hstale, holder⟩
    · exact Or.inl ⟨hread.keep edits_marks, hd⟩
    · refine Or.inr ⟨fun hread => ?_, holder⟩
      rcases since_append.mp hread with hread | ⟨-, hread⟩
      · exact holder.version_ne (congrArg Document.version (hnew hread.mem))
      · exact hstale hread
  · obtain ⟨before, after, hsplit⟩ := List.append_of_mem hmem
    refine Or.inl ⟨⟨t.history ++ before, after, by rw [hsplit, List.append_assoc], fun m hm => ?_⟩,
      hnew hmem⟩
    exact edits_marks m (hsplit ▸ List.mem_append_right before (List.mem_cons_of_mem _ hm))

/-- A refresh whose first deed it is to read reads once. -/
theorem Ordered.once_turn (ho : Ordered w₀ t) {i : Nat} {r : Run} (hr : t.runs[i]? = some r)
    {deed : Option Deed} {phase' : Phase} {w' : Workspace ε}
    (ht : Service.Takes r.uri t.workspace r.phase deed phase' w') {u : String} {k : Nat}
    {d d' : Document} (h : .did u k (.read d) ∈ t.history ++ marks r.uri i deed)
    (h' : .did u k (.read d') ∈ t.history ++ marks r.uri i deed) : d = d' := by
  have hfirst : ∀ {d d' : Document}, .did u k (.read d) ∈ t.history →
      .did u k (.read d') ∉ marks r.uri i deed := by
    intro d d' hold hmem
    obtain ⟨_, rfl, hmark⟩ := mem_marks.mp hmem
    obtain ⟨rfl, rfl, rfl⟩ := Mark.did.inj hmark
    have hsound := ho.sound k r hr
    rw [ht.read_eq.1] at hsound
    exact hsound _ hold rfl
  rcases List.mem_append.mp h with hold | hmem
  · rcases List.mem_append.mp h' with hold' | hmem'
    · exact ho.once u k d d' hold hold'
    · exact absurd hmem' (hfirst hold)
  · rcases List.mem_append.mp h' with hold' | hmem'
    · exact absurd hmem (hfirst hold')
    · obtain ⟨_, hdeed, hmark⟩ := mem_marks.mp hmem
      obtain ⟨_, hdeed', hmark'⟩ := mem_marks.mp hmem'
      obtain ⟨-, -, rfl⟩ := Mark.did.inj hmark
      obtain ⟨-, -, rfl⟩ := Mark.did.inj hmark'
      rw [hdeed] at hdeed'
      exact Deed.read.inj (Option.some_inj.mp hdeed')

/-- A refresh that takes its turn shares its name with no other. -/
theorem Ordered.apart_turn (ho : Ordered w₀ t) {i : Nat} {r : Run} (hr : t.runs[i]? = some r)
    {deed : Option Deed} {phase' : Phase} {w' : Workspace ε}
    (ht : Service.Takes r.uri t.workspace r.phase deed phase' w') {k : Nat} {r' : Run} {id : String}
    (hr' : t.runs[k]? = some r') (huri : r'.uri = r.uri) (hid : phase'.id? = some id)
    (hid' : r'.phase.id? = some id) : k = i := by
  rcases ht.id? hid with hold | hnew
  · exact ho.apart k i r' r id hr' hr huri hid' hold
  · -- a name that has just been taken has a number of its own
    obtain ⟨n, hn, hname⟩ := (ho.sound k r' hr').named hid'
    rw [huri] at hname
    have hnumber := number_of_name (hnew.symm.trans hname)
    omega

theorem Ordered.turn (ho : Ordered w₀ t) {i : Nat} {r : Run} (hr : t.runs[i]? = some r)
    {deed : Option Deed} {phase' : Phase} {w' : Workspace ε}
    (ht : Service.Takes r.uri t.workspace r.phase deed phase' w') :
    Ordered w₀ ⟨w', t.runs.set i ⟨r.uri, phase'⟩, t.history ++ marks r.uri i deed⟩ where
  sound k r' h := by
    rw [runs_set hr] at h
    split at h
    next hk =>
      obtain rfl := Option.some_inj.mp h
      subst hk
      exact ht.sound (ho.sound k r hr)
    next hk =>
      refine (ho.sound k r' h).others (fun m hm hrun => ?_) ht.frame.numbers fun id hid => ?_
      · obtain ⟨d, -, rfl⟩ := mem_marks.mp hm
        exact hk (Option.some_inj.mp hrun).symm
      · exact ht.frame.isCurrent_iff fun huri hid' =>
          hk (ho.apart k i r' r id h hr huri hid hid')
  apart k l r' r'' id h h' huri hid hid' := by
    rw [runs_set hr] at h h'
    split at h
    next hk =>
      obtain rfl := Option.some_inj.mp h
      split at h'
      next hl => rw [hk, hl]
      next => rw [hk, ho.apart_turn hr ht h' huri.symm hid hid']
    next =>
      split at h'
      next hl =>
        obtain rfl := Option.some_inj.mp h'
        rw [hl, ho.apart_turn hr ht h huri hid' hid]
      next => exact ho.apart k l r' r'' id h h' huri hid hid'
  owner u k deed' h := by
    rcases List.mem_append.mp h with h | h
    · obtain ⟨r', hr', huri⟩ := ho.owner u k deed' h
      obtain ⟨r'', hr'', huri'⟩ := exists_run_set hr hr' phase'
      exact ⟨r'', hr'', huri'.trans huri⟩
    · obtain ⟨d, -, hmark⟩ := mem_marks.mp h
      obtain ⟨rfl, rfl, -⟩ := Mark.did.inj hmark
      exact ⟨⟨r.uri, phase'⟩, by rw [runs_set hr, if_pos rfl], rfl⟩
  started u d h := by
    have hold : .edited u d ∈ t.history := by
      rcases List.mem_append.mp h with h | h
      · exact h
      · obtain ⟨_, -, hmark⟩ := mem_marks.mp h
        exact absurd hmark (by simp)
    obtain ⟨k, r', hr', huri⟩ := ho.started u d hold
    obtain ⟨r'', hr'', huri'⟩ := exists_run_set hr hr' phase'
    exact ⟨k, r'', hr'', huri'.trans huri⟩
  published := by
    have hsent : (marks r.uri i deed).filterMap Mark.sent? = deed.toList.filterMap Deed.sent? := by
      cases deed <;> rfl
    rw [ht.frame.published, ho.published, List.filterMap_append, hsent, List.append_assoc]
  newest u d h := by
    show w'.document u = d
    rw [Workspace.document, ht.frame.documents]
    rcases since_append.mp h with h | ⟨-, h⟩
    · obtain ⟨_, -, hmark⟩ := mem_marks.mp h.mem
      exact absurd hmark (by simp)
    · exact ho.newest u d h
  reads u k d h := ho.reads_turn ht h
  once u k d d' h h' := ho.once_turn hr ht h h'
  shown before u k p after h := by
    cases deed with
    | none => exact ho.shown before u k p after (by simpa [marks] using h)
    | some d =>
      rcases split_snoc h with ⟨rfl, hmark, -⟩ | ⟨after, rfl, hold⟩
      · obtain ⟨rfl, rfl, rfl⟩ := Mark.did.inj hmark
        exact ht.shown (ho.sound i r hr)
      · exact ho.shown before u k p after hold

theorem ordered_of_reachable {s : Service ε} (hinvoke : Service.Aloof s.invoke)
    (h : Reachable s w₀ t) : Ordered w₀ t := by
  induction h with
  | refl => exact ordered_start w₀
  | @tail t _ _ hmove ih =>
    cases hmove with
    | edit uri d hnewer => exact ih.edit hnewer
    | go i =>
      rw [go]
      cases hr : t.runs[i]? with
      | none => exact ih
      | some r => exact ih.turn hr (Service.advance_takes r.uri t.workspace hinvoke r.phase)

/-! ### Who shows last -/

/-- The refresh of a document that began last has shown findings since. -/
theorem Ordered.last_served (ho : Ordered w₀ t) (hdone : t.Done) {uri : String} {d : Document}
    (hedit : LastEdit uri d t.history) :
    ∃ i, LastBegun uri i t.history ∧ Served uri i t.history := by
  obtain ⟨k, r, hr, rfl⟩ := ho.started uri d hedit.mem
  -- a refresh that is done has begun, so there is one that began last
  have hbegan : ∀ {k : Nat} {r : Run}, t.runs[k]? = some r → .did r.uri k .began ∈ t.history ∧
      (LastBegun r.uri k t.history → Served r.uri k t.history) := by
    intro k r hr
    obtain ⟨result, hphase⟩ := hdone r (List.mem_of_getElem? hr)
    have hsound := ho.sound k r hr
    rw [hphase] at hsound
    exact hsound
  obtain ⟨m, hm, hlast⟩ := exists_since (hbegan hr).1
    (show (Mark.did r.uri k .began).begins r.uri = true from beq_self_eq_true _)
  cases m with
  | edited u d' => exact absurd hm (by simp [Mark.begins])
  | did u i deed =>
    cases deed with
    | began =>
      obtain rfl : u = r.uri := beq_iff_eq.mp hm
      obtain ⟨r', hr', huri⟩ := ho.owner r.uri i .began hlast.mem
      refine ⟨i, hlast, ?_⟩
      have hserved := (hbegan hr').2
      rw [huri] at hserved
      exact hserved hlast
    | _ => exact absurd hm (by simp [Mark.begins])

/-- Findings that are sent name the document they are shown for. -/
theorem Ordered.not_sent (ho : Ordered w₀ t) {m : Mark} {p : Publication} {uri : String}
    (hm : m ∈ t.history) (hsent : m.sent? = some p) (hshows : m.shows uri = false) : p.uri ≠ uri := by
  cases m with
  | edited u d => exact absurd hsent (by simp [Mark.sent?])
  | did u i deed =>
    cases deed with
    | showed q =>
      obtain rfl : q = p := Option.some_inj.mp hsent
      obtain ⟨before, after, hsplit⟩ := List.append_of_mem hm
      rw [(ho.shown before u i q after hsplit).1]
      exact beq_eq_false_iff_ne.mp hshows
    | _ => exact absurd hsent (by simp [Mark.sent?, Deed.sent?])

/-- There are findings shown last, and no others are sent after them. -/
theorem Ordered.exists_lastShown (ho : Ordered w₀ t) {uri : String} {i : Nat} {p : Publication}
    (hshown : .did uri i (.showed p) ∈ t.history) :
    ∃ j p, LastShown uri j p t.history ∧ Since p (fun q => q.uri ≠ uri) t.workspace.published := by
  obtain ⟨m, hm, hlast⟩ := exists_since hshown
    (show (Mark.did uri i (.showed p)).shows uri = true from beq_self_eq_true _)
  cases m with
  | edited u d => exact absurd hm (by simp [Mark.shows])
  | did u j deed =>
    cases deed with
    | showed q =>
      obtain rfl : u = uri := beq_iff_eq.mp hm
      refine ⟨j, q, hlast, ?_⟩
      obtain ⟨before, after, hsplit, hafter⟩ := hlast
      rw [ho.published, hsplit, List.filterMap_append,
        show (Mark.did u j (.showed q) :: after).filterMap Mark.sent? =
          q :: after.filterMap Mark.sent? from rfl, ← List.append_assoc]
      refine ⟨_, _, rfl, fun q' hq' => ?_⟩
      obtain ⟨m, hmem, hsent⟩ := List.mem_filterMap.mp hq'
      exact ho.not_sent (hsplit ▸ List.mem_append_right before (List.mem_cons_of_mem _ hmem)) hsent
        (hafter m hmem)
    | _ => exact absurd hm (by simp [Mark.shows])

/-- The refresh that shows last is the one that began last, or it straggled. -/
theorem Ordered.last_or_straggles (ho : Ordered w₀ t) {uri : String} {i j : Nat} {p : Publication}
    (hbegun : LastBegun uri i t.history) (hserved : Served uri i t.history)
    (hshown : LastShown uri j p t.history) : j = i ∨ Straggles uri j i t.history := by
  obtain ⟨before, after, hsplit, hafter⟩ := hshown
  obtain ⟨-, -, first, meanwhile, rfl, hfirst, hmeanwhile⟩ := ho.shown before uri j p after hsplit
  have hwhole : t.history =
      first ++ .did uri j .passed :: (meanwhile ++ .did uri j (.showed p) :: after) := by
    rw [hsplit, List.append_assoc, List.cons_append]
  by_cases hmem : .did uri i .began ∈ meanwhile
  · exact Or.inr ⟨first, meanwhile, p, after, hwhole, hmem, hmeanwhile⟩
  · refine Or.inl ?_
    rw [hwhole] at hbegun
    rcases since_append.mp hbegun with hlate | ⟨-, hearly⟩
    · -- it began after the last findings were shown, but then it would have shown its own
      have hlast : .did uri i .began ∈ after := by
        simpa [hmem] using hlate.mem
      obtain ⟨between, rest, rfl⟩ := List.append_of_mem hlast
      obtain ⟨q, hq⟩ := hserved (first ++ .did uri j .passed ::
        (meanwhile ++ .did uri j (.showed p) :: between)) rest (by rw [hwhole]; simp)
      have hnone : (Mark.did uri i (.showed q)).shows uri = false :=
        hafter _ (List.mem_append_right between (List.mem_cons_of_mem _ hq))
      exact absurd hnone (by simp [Mark.shows])
    · have heq := hfirst.unique hearly (by simp [Mark.begins]) (by simp [Mark.begins])
      exact (Mark.did.inj heq).2.1

/-- The findings of a refresh are on the newest text exactly if it read the document after the last
edit. -/
theorem Ordered.version_eq_iff (ho : Ordered w₀ t) {uri : String} {j : Nat} {p : Publication}
    {d : Document} (hedit : LastEdit uri d t.history) (hshown : .did uri j (.showed p) ∈ t.history) :
    p.version = d.version ↔ ∃ d', Read uri j d' t.history := by
  obtain ⟨before, after, hsplit⟩ := List.append_of_mem hshown
  obtain ⟨-, ⟨d₁, hread, hversion⟩, -⟩ := ho.shown before uri j p after hsplit
  have hmem : .did uri j (.read d₁) ∈ t.history := hsplit ▸ List.mem_append_left _ hread
  rw [hversion]
  rcases ho.reads uri j d₁ hmem with ⟨hnew, hd⟩ | ⟨hstale, holder⟩
  · refine iff_of_true ?_ ⟨d₁, hnew⟩
    rw [hd, ho.newest uri d hedit]
  · rw [ho.newest uri d hedit] at holder
    refine iff_of_false holder.version_ne ?_
    rintro ⟨d', hd'⟩
    -- it reads only once
    rw [ho.once uri j d' d₁ hd'.mem hmem] at hd'
    exact hstale hd'

/-- Once all refreshes of the traffic are done, the findings shown last for a document are those of one
refresh.  They are on the newest text exactly if that refresh read the document after the last edit, and
the refresh is the one that began last, unless it passed its check before that began and showed its
findings after. -/
theorem newest_text_wins_iff {s : Service ε} (hinvoke : Service.Aloof s.invoke)
    (h : Reachable s w₀ t) (hdone : t.Done) {uri : String} {d : Document}
    (hedit : LastEdit uri d t.history) :
    ∃ i j p, LastBegun uri i t.history ∧ LastShown uri j p t.history ∧
      Since p (fun q => q.uri ≠ uri) t.workspace.published ∧
      (p.version = d.version ↔ ∃ d', Read uri j d' t.history) ∧
      (j = i ∨ Straggles uri j i t.history) := by
  have ho := ordered_of_reachable hinvoke h
  obtain ⟨i, hbegun, hserved⟩ := ho.last_served hdone hedit
  obtain ⟨before, after, hsplit⟩ := List.append_of_mem hbegun.mem
  obtain ⟨p₀, hp₀⟩ := hserved before after hsplit
  have hshown : .did uri i (.showed p₀) ∈ t.history :=
    hsplit ▸ List.mem_append_right before (List.mem_cons_of_mem _ hp₀)
  obtain ⟨j, p, hlast, hsent⟩ := ho.exists_lastShown hshown
  exact ⟨i, j, p, hbegun, hlast, hsent, ho.version_eq_iff hedit hlast.mem,
    ho.last_or_straggles hbegun hserved hlast⟩

/-! ### Schedules -/

/-- Refreshes take turns one after another. -/
def goes (s : Service ε) (t : Traffic ε) (turns : List Nat) : Traffic ε :=
  turns.foldl (go s) t

theorem Reachable.goes {s : Service ε} (h : Reachable s w₀ t) (turns : List Nat) :
    Reachable s w₀ (t.goes s turns) := by
  induction turns generalizing t with
  | nil => exact h
  | cons i turns ih => exact ih (h.tail (.go i))

/-- A service that scans only. -/
def scanner : Service Unit where
  invoke := fun _ _ => throw .unending

theorem aloof_scanner : Service.Aloof scanner.invoke :=
  fun _ _ w => ⟨w.log, w.surroundings, rfl⟩

/-- A workspace in which nothing was opened. -/
def closed : Workspace Unit where
  settings := some { enabled := false }
  surroundings := ()

/-- The first text of a document. -/
def older : Document where
  text := "a"
  version := some 1

/-- The second text of a document. -/
def newer : Document where
  text := "b"
  version := some 2

/-- What is shown of a text without findings. -/
def clear (d : Document) : Publication where
  uri := "u"
  version := d.version
  diagnostics := []

/-- A document is edited, and its refresh takes some turns. -/
def once (first : Nat) : Traffic Unit :=
  (({ workspace := closed } : Traffic Unit).edit "u" older).goes scanner (List.replicate first 0)

/-- Then the document is edited again, and the refreshes take turns as they are told to. -/
def twice (first : Nat) (turns : List Nat) : Traffic Unit :=
  ((once first).edit "u" newer).goes scanner turns

theorem reachable_twice {first : Nat} (hfirst : (once first).workspace.document "u" = older)
    (turns : List Nat) : Reachable scanner closed (twice first turns) := by
  have honce : Reachable scanner closed (once first) :=
    Reachable.goes (.single (.edit "u" older ⟨1, rfl, by decide⟩)) _
  refine Reachable.goes (honce.tail (.edit "u" newer ?_)) turns
  rw [hfirst]
  exact ⟨2, rfl, by decide⟩

/-- A refresh that has found nothing. -/
def ended : Run where
  uri := "u"
  phase := .done (.ok (some { success := true, source := .heuristic }))

theorem done_of_runs {t : Traffic Unit} (h : t.runs = [ended, ended]) : t.Done := by
  intro r hr
  rw [h] at hr
  obtain rfl : r = ended := by simpa using hr
  exact ⟨_, rfl⟩

/-- A refresh ends before the document is edited again. -/
def inTurn : Traffic Unit :=
  twice 9 (List.replicate 9 1)

theorem history_inTurn : inTurn.history =
    [.edited "u" older, .did "u" 0 (.read older), .did "u" 0 .began, .did "u" 0 .passed,
      .did "u" 0 (.showed (clear older)), .edited "u" newer, .did "u" 1 (.read newer),
      .did "u" 1 .began, .did "u" 1 .passed, .did "u" 1 (.showed (clear newer))] := rfl

/-- Findings on a document whose refreshes did not overtake each other. -/
theorem newest_text_wins_inTurn : LastEdit "u" newer inTurn.history ∧
    ∃ i j p, LastBegun "u" i inTurn.history ∧ LastShown "u" j p inTurn.history ∧
      Since p (fun q => q.uri ≠ "u") inTurn.workspace.published ∧
      (p.version = newer.version ↔ ∃ d', Read "u" j d' inTurn.history) ∧
      (j = i ∨ Straggles "u" j i inTurn.history) := by
  have hedit : LastEdit "u" newer inTurn.history := by
    rw [history_inTurn]
    exact since_of_find? rfl
  exact ⟨hedit, newest_text_wins_iff aloof_scanner (reachable_twice rfl _) (done_of_runs rfl) hedit⟩

/-- All refreshes are done, and the findings shown last are not on the newest text. -/
def Outdated (s : Service ε) (w₀ : Workspace ε) (t : Traffic ε) (uri : String) : Prop :=
  ∃ d p, Reachable s w₀ t ∧ t.Done ∧ LastEdit uri d t.history ∧
    Since p (fun q => q.uri ≠ uri) t.workspace.published ∧ p.version ≠ d.version

/-- A refresh reads a document, and goes on when the refresh of the next edit has ended. -/
def staleReader : Traffic Unit :=
  twice 1 (List.replicate 9 1 ++ List.replicate 8 0)

theorem history_staleReader : staleReader.history =
    [.edited "u" older, .did "u" 0 (.read older), .edited "u" newer, .did "u" 1 (.read newer),
      .did "u" 1 .began, .did "u" 1 .passed, .did "u" 1 (.showed (clear newer)),
      .did "u" 0 .began, .did "u" 0 .passed, .did "u" 0 (.showed (clear older))] := rfl

/-- A refresh passes its check, and shows its findings when the refresh of the next edit has ended. -/
def straggler : Traffic Unit :=
  twice 8 (List.replicate 9 1 ++ [0])

theorem history_straggler : straggler.history =
    [.edited "u" older, .did "u" 0 (.read older), .did "u" 0 .began, .did "u" 0 .passed,
      .edited "u" newer, .did "u" 1 (.read newer), .did "u" 1 .began, .did "u" 1 .passed,
      .did "u" 1 (.showed (clear newer)), .did "u" 0 (.showed (clear older))] := rfl

/-- The findings shown last may be on an older text because a refresh that read it began last, and because
one straggled. -/
theorem older_text_wins :
    (Outdated scanner closed staleReader "u" ∧ LastBegun "u" 0 staleReader.history) ∧
    Outdated scanner closed straggler "u" ∧ LastBegun "u" 1 straggler.history ∧
      Straggles "u" 0 1 straggler.history := by
  have hlast : Since (clear older) (fun q => q.uri ≠ "u") [clear newer, clear older] :=
    ⟨[clear newer], [], rfl, by simp⟩
  have hversion : (clear older).version ≠ newer.version := by decide
  refine ⟨⟨⟨newer, clear older, reachable_twice rfl _, done_of_runs rfl, ?_, hlast, hversion⟩, ?_⟩,
    ⟨newer, clear older, reachable_twice rfl _, done_of_runs rfl, ?_, hlast, hversion⟩, ?_, ?_⟩
  · rw [history_staleReader]
    exact since_of_find? rfl
  · rw [history_staleReader]
    exact since_of_find? rfl
  · rw [history_straggler]
    exact since_of_find? rfl
  · rw [history_straggler]
    exact since_of_find? rfl
  · refine ⟨[.edited "u" older, .did "u" 0 (.read older), .did "u" 0 .began],
      [.edited "u" newer, .did "u" 1 (.read newer), .did "u" 1 .began, .did "u" 1 .passed,
        .did "u" 1 (.showed (clear newer))], clear older, [], history_straggler, ?_, ?_⟩
    · simp
    · simp [Mark.run?]

end Traffic

end AnalyzerBridge
