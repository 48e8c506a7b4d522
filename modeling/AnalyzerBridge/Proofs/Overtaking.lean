/-
Refreshes that others may overtake.

While a refresh takes its turns, documents are edited and other refreshes take theirs.  A
history lists the edits and what the refreshes did, and `Phase.Sound` says what a refresh
may rely on in each phase.

* `Phase.Sound.others` — edits and the turns of others leave a refresh what it relies on;
* `Takes.sound` — its own turns pass that on from phase to phase;
* `Takes.shown` — findings are shown with the version that was read, after a check that
  found the request to be the last one to begin.

Design notes: a check says nothing about the moment of showing, so what it found is kept
as a place in the history, not as a fact about the session.  A refresh is known by a number,
since names are taken late.
-/
import AnalyzerBridge.Proofs.Supersession
import AnalyzerBridge.Proofs.Turns

namespace AnalyzerBridge

/-! ### Histories of refreshes -/

/-- What happens: a document is edited, or a refresh does something. -/
inductive Mark where
  | edited (uri : String) (d : Document)
  | did (uri : String) (i : Nat) (deed : Deed)

namespace Mark

/-- The document is edited. -/
def edits (uri : String) : Mark → Bool
  | .edited u _ => u == uri
  | _ => false

/-- A request of the document begins. -/
def begins (uri : String) : Mark → Bool
  | .did u _ .began => u == uri
  | _ => false

/-- Findings on the document are shown. -/
def shows (uri : String) : Mark → Bool
  | .did u _ (.showed _) => u == uri
  | _ => false

/-- The refresh whose deed it is. -/
def run? : Mark → Option Nat
  | .did _ i _ => some i
  | _ => none

/-- What is sent to the client. -/
def sent? : Mark → Option Publication
  | .did _ _ deed => deed.sent?
  | _ => none

end Mark

/-- The last edit of a document. -/
def LastEdit (uri : String) (d : Document) (h : List Mark) : Prop :=
  Since (.edited uri d) (fun m => m.edits uri = false) h

/-- The last request of a document to begin is that of a refresh. -/
def LastBegun (uri : String) (i : Nat) (h : List Mark) : Prop :=
  Since (.did uri i .began) (fun m => m.begins uri = false) h

/-- The findings shown last for a document are those of a refresh. -/
def LastShown (uri : String) (i : Nat) (p : Publication) (h : List Mark) : Prop :=
  Since (.did uri i (.showed p)) (fun m => m.shows uri = false) h

/-- A refresh has read a document that has not been edited since. -/
def Read (uri : String) (i : Nat) (d : Document) (h : List Mark) : Prop :=
  Since (.did uri i (.read d)) (fun m => m.edits uri = false) h

/-- The last thing a refresh did was to pass its check, when its request was the last one to begin. -/
def Cleared (uri : String) (i : Nat) (h : List Mark) : Prop :=
  ∃ before after, h = before ++ .did uri i .passed :: after ∧ LastBegun uri i before ∧
    ∀ m ∈ after, m.run? ≠ some i

/-- Since it began, a refresh has shown findings. -/
def Served (uri : String) (i : Nat) (h : List Mark) : Prop :=
  ∀ before after, h = before ++ .did uri i .began :: after → ∃ p, .did uri i (.showed p) ∈ after

/-- A refresh passed its check, then another one began, and then the first showed its findings all the
same. -/
def Straggles (uri : String) (j i : Nat) (h : List Mark) : Prop :=
  ∃ before meanwhile p after,
    h = before ++ .did uri j .passed :: (meanwhile ++ .did uri j (.showed p) :: after) ∧
      .did uri i .began ∈ meanwhile ∧ ∀ m ∈ meanwhile, m.run? ≠ some j

section Histories

variable {uri : String} {i : Nat} {h later : List Mark}

theorem lastBegun_append_iff (hlater : .did uri i .began ∉ later) :
    LastBegun uri i (h ++ later) ↔
      (∀ m ∈ later, m.begins uri = false) ∧ LastBegun uri i h := by
  rw [LastBegun, since_append, or_iff_right fun hsince => hlater hsince.mem]
  rfl

theorem Cleared.append (hc : Cleared uri i h) (hlater : ∀ m ∈ later, m.run? ≠ some i) :
    Cleared uri i (h ++ later) := by
  obtain ⟨before, after, rfl, hbegun, hafter⟩ := hc
  exact ⟨before, after ++ later, by simp, hbegun, List.forall_mem_append.mpr ⟨hafter, hlater⟩⟩

theorem Served.append (hs : Served uri i h) (hlater : .did uri i .began ∉ later) :
    Served uri i (h ++ later) := by
  intro before after hsplit
  rcases List.append_eq_append_iff.mp hsplit with ⟨more, rfl, hmore⟩ | ⟨more, rfl, hmore⟩
  · exact absurd (hmore ▸ List.mem_append_right more List.mem_cons_self) hlater
  · cases more with
    | nil =>
      rw [List.nil_append] at hmore
      exact absurd (hmore ▸ List.mem_cons_self) hlater
    | cons m more =>
      obtain ⟨rfl, rfl⟩ := List.cons.inj hmore
      obtain ⟨p, hp⟩ := hs before more rfl
      exact ⟨p, List.mem_append_left later hp⟩

end Histories

/-! ### One refresh -/

/-- The name of the request of a refresh, once it has taken one. -/
def Phase.id? : Phase → Option String
  | .reading | .numbering _ | .done _ => none
  | .loading _ id => some id
  | .entering e | .checkingEarly e _ | .showingEarly e _ | .calling e _ | .leaving e _
  | .checking e _ | .showing e _ => some e.id

section

variable {ε : Type}

/-- The name has been taken. -/
def Named (w : Workspace ε) (uri id : String) : Prop :=
  ∃ n < w.nextNumber, id = uri ++ "#" ++ toString n

/-- The request of a refresh has begun, and the session knows whether it is the last one to. -/
structure Underway (h : List Mark) (w : Workspace ε) (uri : String) (i : Nat) (e : Errand) : Prop where
  read : .did uri i (.read e.document) ∈ h
  named : Named w uri e.id
  began : .did uri i .began ∈ h
  current : w.session.isCurrent uri e.id = true ↔ LastBegun uri i h

/-- What a refresh may rely on in each phase. -/
def Phase.Sound (h : List Mark) (w : Workspace ε) (uri : String) (i : Nat) : Phase → Prop
  | .reading => ∀ m ∈ h, m.run? ≠ some i
  | .numbering d => .did uri i (.read d) ∈ h
  | .loading d id => .did uri i (.read d) ∈ h ∧ Named w uri id
  | .entering e => .did uri i (.read e.document) ∈ h ∧ Named w uri e.id
  | .showingEarly e _ | .showing e _ => Underway h w uri i e ∧ Cleared uri i h
  | .checkingEarly e _ | .calling e _ | .leaving e _ | .checking e _ => Underway h w uri i e
  | .done (.ok _) => .did uri i .began ∈ h ∧ (LastBegun uri i h → Served uri i h)
  | .done (.error _) => True

variable {h later : List Mark} {w w' : Workspace ε} {uri : String} {i : Nat}

theorem Named.mono {id : String} (hn : Named w uri id) (hnumber : w.nextNumber ≤ w'.nextNumber) :
    Named w' uri id := by
  obtain ⟨n, hlt, hid⟩ := hn
  exact ⟨n, hlt.trans_le hnumber, hid⟩

theorem Underway.append {e : Errand} (hu : Underway h w uri i e) (hlater : .did uri i .began ∉ later)
    (hnumber : w.nextNumber ≤ w'.nextNumber)
    (hcurrent : w'.session.isCurrent uri e.id = true ↔
      (∀ m ∈ later, m.begins uri = false) ∧ w.session.isCurrent uri e.id = true) :
    Underway (h ++ later) w' uri i e where
  read := List.mem_append_left later hu.read
  named := hu.named.mono hnumber
  began := List.mem_append_left later hu.began
  current := by rw [hcurrent, hu.current, lastBegun_append_iff hlater]

theorem isCurrent_of_latest (hlatest : w'.session.latest = w.session.latest) (uri id : String) :
    w'.session.isCurrent uri id = w.session.isCurrent uri id := by
  rw [Session.isCurrent, Session.isCurrent, hlatest]

/-- What a refresh does itself, once it has entered, changes nothing about its request. -/
theorem Underway.own {e : Errand} (hu : Underway h w uri i e)
    (hlater : ∀ m ∈ later, m.begins uri = false) (hnumber : w'.nextNumber = w.nextNumber)
    (hlatest : w'.session.latest = w.session.latest) : Underway (h ++ later) w' uri i e := by
  refine hu.append (fun hmem => ?_) hnumber.ge ?_
  · have hbegins := hlater _ hmem
    rw [Mark.begins, beq_self_eq_true] at hbegins
    exact absurd hbegins (by simp)
  · rw [isCurrent_of_latest hlatest, and_iff_right hlater]

/-- What others do is nothing to a refresh, as long as the session goes on to know whether its request is
the last one to begin. -/
theorem Phase.Sound.others {phase : Phase} (hs : phase.Sound h w uri i)
    (hlater : ∀ m ∈ later, m.run? ≠ some i) (hnumber : w.nextNumber ≤ w'.nextNumber)
    (hcurrent : ∀ id, phase.id? = some id → (w'.session.isCurrent uri id = true ↔
      (∀ m ∈ later, m.begins uri = false) ∧ w.session.isCurrent uri id = true)) :
    phase.Sound (h ++ later) w' uri i := by
  have hbegan : .did uri i .began ∉ later := fun hmem => hlater _ hmem rfl
  cases phase with
  | reading => exact List.forall_mem_append.mpr ⟨hs, hlater⟩
  | numbering d => exact List.mem_append_left later hs
  | loading d id => exact ⟨List.mem_append_left later hs.1, hs.2.mono hnumber⟩
  | entering e => exact ⟨List.mem_append_left later hs.1, hs.2.mono hnumber⟩
  | showingEarly e token =>
    exact ⟨hs.1.append hbegan hnumber (hcurrent e.id rfl), hs.2.append hlater⟩
  | showing e o => exact ⟨hs.1.append hbegan hnumber (hcurrent e.id rfl), hs.2.append hlater⟩
  | checkingEarly e token => exact Underway.append hs hbegan hnumber (hcurrent e.id rfl)
  | calling e token => exact Underway.append hs hbegan hnumber (hcurrent e.id rfl)
  | leaving e answer => exact Underway.append hs hbegan hnumber (hcurrent e.id rfl)
  | checking e o => exact Underway.append hs hbegan hnumber (hcurrent e.id rfl)
  | done result =>
    cases result with
    | error f => trivial
    | ok o =>
      refine ⟨List.mem_append_left later hs.1, fun hlast => ?_⟩
      exact (hs.2 ((lastBegun_append_iff hbegan).mp hlast).2).append hbegan

/-- A refresh that has a name has taken it. -/
theorem Phase.Sound.named {phase : Phase} (hs : phase.Sound h w uri i) {id : String}
    (hid : phase.id? = some id) : Named w uri id := by
  cases phase with
  | reading => exact absurd hid (by simp [Phase.id?])
  | numbering d => exact absurd hid (by simp [Phase.id?])
  | done result => exact absurd hid (by simp [Phase.id?])
  | loading d id' => exact Option.some_inj.mp hid ▸ hs.2
  | entering e => exact Option.some_inj.mp hid ▸ hs.2
  | showingEarly e token => exact Option.some_inj.mp hid ▸ hs.1.named
  | showing e o => exact Option.some_inj.mp hid ▸ hs.1.named
  | _ => exact Option.some_inj.mp hid ▸ Underway.named hs

/-- What a turn leaves in the history. -/
def marks (uri : String) (i : Nat) (deed : Option Deed) : List Mark :=
  (deed.map (.did uri i)).toList

theorem mem_marks {deed : Option Deed} {m : Mark} :
    m ∈ marks uri i deed ↔ ∃ d, deed = some d ∧ m = .did uri i d := by
  cases deed <;> simp [marks]

theorem isCurrent_begin (s : Session) (uri id : String) :
    (s.begin uri id).2.isCurrent uri id = true :=
  (Session.isCurrent_step s (.begin uri id) uri id).mpr (Or.inl rfl)

end

namespace Service

variable {ε : Type} {h : List Mark} {w w' : Workspace ε} {uri : String} {i : Nat}
  {phase phase' : Phase} {deed : Option Deed}

/-- What others see of a turn. -/
structure Frame (uri : String) (w : Workspace ε) (phase : Phase) (deed : Option Deed)
    (w' : Workspace ε) : Prop where
  documents : w'.documents = w.documents
  published : w'.published = w.published ++ deed.toList.filterMap Deed.sent?
  numbers : w.nextNumber ≤ w'.nextNumber
  latest : deed ≠ some .began → w'.session.latest = w.session.latest
  began : deed = some .began →
    ∃ e, phase = .entering e ∧ w'.session = (w.session.begin uri e.id).2

theorem Quiet.frame (hq : Quiet w w') (hbegan : deed ≠ some .began)
    (hsent : deed.toList.filterMap Deed.sent? = []) : Frame uri w phase deed w' where
  documents := hq.documents
  published := by rw [hq.published, hsent, List.append_nil]
  numbers := hq.nextNumber.ge
  latest _ := hq.latest
  began h := absurd h hbegan

theorem Takes.frame (ht : Takes uri w phase deed phase' w') : Frame uri w phase deed w' := by
  cases ht with
  | number d =>
    exact ⟨rfl, (List.append_nil _).symm, Nat.le_succ _, fun _ => rfl, fun h => absurd h (by simp)⟩
  | enter e token =>
    exact ⟨rfl, (List.append_nil _).symm, Nat.le_refl _, fun h => absurd rfl h, fun _ => ⟨e, rfl, rfl⟩⟩
  | showEarly token o hp =>
    exact ⟨rfl, rfl, Nat.le_refl _, fun _ => rfl, fun h => absurd h (by simp)⟩
  | announce hp hq =>
    exact ⟨hq.documents, hq.published, hq.nextNumber.ge, fun _ => hq.latest,
      fun h => absurd h (by simp)⟩
  | load settings hq => exact hq.frame (by simp) rfl
  | call e token answer hq => exact hq.frame (by simp) rfl
  | leave e o hq => exact hq.frame (by simp) rfl
  | pass o hcurrent hq => exact hq.frame (by simp) rfl
  | drop o hstale hq => exact hq.frame (by simp) rfl
  | fail phase f hq => exact hq.frame (by simp) rfl
  | _ => exact (quiet_refl w).frame (by simp) rfl

/-- A request is the newest one after a turn if it was before and the turn began no other on its
document. -/
theorem Frame.isCurrent_iff (hf : Frame uri w phase deed w') {u id : String}
    (hapart : u = uri → phase.id? ≠ some id) :
    w'.session.isCurrent u id = true ↔
      (∀ m ∈ marks uri i deed, m.begins u = false) ∧ w.session.isCurrent u id = true := by
  by_cases hdeed : deed = some .began
  · obtain ⟨e, rfl, hsession⟩ := hf.began hdeed
    have hmarks : marks uri i deed = [.did uri i .began] := by rw [hdeed]; rfl
    have hother : ¬ Session.Step.begin uri e.id = .begin u id := fun h => by
      obtain ⟨rfl, rfl⟩ := Session.Step.begin.inj h
      exact hapart rfl rfl
    rw [hsession, hmarks, List.forall_mem_singleton]
    exact (Session.isCurrent_step w.session (.begin uri e.id) u id).trans (or_iff_right hother)
  · rw [isCurrent_of_latest (hf.latest hdeed), and_iff_right]
    intro m hm
    obtain ⟨d, rfl, rfl⟩ := mem_marks.mp hm
    cases d with
    | began => exact absurd rfl hdeed
    | _ => rfl

/-- A name is kept, or it is the next one. -/
theorem Takes.id? (ht : Takes uri w phase deed phase' w') {id : String} (hid : phase'.id? = some id) :
    phase.id? = some id ∨ id = requestId uri w := by
  cases ht with
  | number d => exact Or.inr (Option.some_inj.mp hid).symm
  | read => exact absurd hid (by simp [Phase.id?])
  | drop o hstale hq => exact absurd hid (by simp [Phase.id?])
  | announce hp hq => exact absurd hid (by simp [Phase.id?])
  | fail phase f hq => exact absurd hid (by simp [Phase.id?])
  | stay result => exact absurd hid (by simp [Phase.id?])
  | _ => exact Or.inl hid

/-- A turn keeps what the refresh may rely on. -/
theorem Takes.sound (ht : Takes uri w phase deed phase' w') (hs : phase.Sound h w uri i) :
    phase'.Sound (h ++ marks uri i deed) w' uri i := by
  have hquiet : ∀ {d : Deed}, d ≠ .began → ∀ m ∈ marks uri i (some d), m.begins uri = false := by
    intro d hd m hm
    obtain rfl := List.mem_singleton.mp hm
    cases d with
    | began => exact absurd rfl hd
    | _ => rfl
  have hnone : ∀ m ∈ marks uri i none, m.begins uri = false := by simp [marks]
  cases ht with
  | read => exact List.mem_append_right h (List.mem_singleton_self _)
  | number d => exact ⟨List.mem_append_left _ hs, w.nextNumber, Nat.lt_succ_self _, rfl⟩
  | load settings hq => exact ⟨List.mem_append_left _ hs.1, hs.2.mono hq.nextNumber.ge⟩
  | enter e token =>
    refine ⟨List.mem_append_left _ hs.1, hs.2, List.mem_append_right h (List.mem_singleton_self _), ?_⟩
    exact iff_of_true (isCurrent_begin _ _ _) (since_snoc.mpr (Or.inl rfl))
  | passEarly token hcurrent =>
    exact ⟨Underway.own hs (hquiet (by simp)) rfl rfl, h, [], rfl, hs.current.mp hcurrent, by simp⟩
  | skipEarly e token => exact Underway.own hs hnone rfl rfl
  | showEarly token o hp => exact hs.1.own (hquiet (by simp)) rfl rfl
  | failEarly e token f => exact hs.1.own hnone rfl rfl
  | call e token answer hq => exact Underway.own hs hnone hq.nextNumber hq.latest
  | leave e o hq => exact Underway.own hs hnone hq.nextNumber hq.latest
  | pass o hcurrent hq =>
    exact ⟨Underway.own hs (hquiet (by simp)) hq.nextNumber hq.latest, h, [], rfl,
      hs.current.mp hcurrent, by simp⟩
  | drop o hstale hq =>
    have hnot : ¬ LastBegun uri i h := fun hlast => by
      rw [hs.current.mpr hlast] at hstale
      exact absurd hstale (by simp)
    rw [marks, Option.map_none, Option.toList_none, List.append_nil]
    exact ⟨hs.began, fun hlast => absurd hlast hnot⟩
  | announce hp hq =>
    refine ⟨List.mem_append_left _ hs.1.began, fun _ before after hsplit => ?_⟩
    -- whatever follows the beginning ends with what is shown now
    rcases split_snoc hsplit with ⟨-, hmark, -⟩ | ⟨after, rfl, -⟩
    · exact absurd hmark (by simp)
    · exact ⟨_, List.mem_append_right after (List.mem_singleton_self _)⟩
  | fail phase f hq => trivial
  | stay result =>
    rw [marks, Option.map_none, Option.toList_none, List.append_nil]
    exact hs

/-- Only a refresh that has done nothing yet reads, and it reads the document. -/
theorem Takes.read_eq {d : Document} (ht : Takes uri w phase (some (.read d)) phase' w') :
    phase = .reading ∧ d = w.document uri := by
  cases ht
  exact ⟨rfl, rfl⟩

/-- Findings are shown with the version that was read, by a refresh that has passed its check. -/
def Shown (h : List Mark) (uri : String) (i : Nat) (p : Publication) : Prop :=
  p.uri = uri ∧ (∃ d, .did uri i (.read d) ∈ h ∧ p.version = d.version) ∧ Cleared uri i h

theorem publication_eq {e : Errand} {o : Outcome} {p : Publication}
    (h : publication uri e.document o = .ok p) : p.uri = uri ∧ p.version = e.document.version := by
  by_cases hsend : Sendable e.document o
  · rw [publication_of_sendable hsend] at h
    obtain rfl := Except.ok.inj h
    exact ⟨rfl, rfl⟩
  · obtain ⟨f, hf, -⟩ := @publication_of_not_sendable uri _ _ hsend
    rw [hf] at h
    exact absurd h (by simp)

theorem Takes.shown {p : Publication} (ht : Takes uri w phase (some (.showed p)) phase' w')
    (hs : phase.Sound h w uri i) : Shown h uri i p := by
  cases ht with
  | showEarly token o hp =>
    obtain ⟨huri, hversion⟩ := publication_eq hp
    exact ⟨huri, ⟨_, hs.1.read, hversion⟩, hs.2⟩
  | announce hp hq =>
    obtain ⟨huri, hversion⟩ := publication_eq hp
    exact ⟨huri, ⟨_, hs.1.read, hversion⟩, hs.2⟩

end Service

end AnalyzerBridge
