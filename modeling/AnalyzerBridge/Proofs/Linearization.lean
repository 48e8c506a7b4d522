/-
A session that several threads share.

Beginning and closing take two steps: the maps change under the lock of the session, and
the token of the entry that had to go is cancelled after the lock is released.  In between,
other threads may do what they like, and the thread has a token `due`.

* `step_eq_locked` — an operation is its locked section and then the cancel of the entry
  that it displaces;
* `fate_of_history` — one operation after the other, a token stays registered until it is
  finished or claimed, and the first of the two decides;
* `Linear.lock`, `Linear.cancel` — the shared session is the one that runs the operations in
  the order of their locked sections, except that the tokens that are due are not yet
  cancelled;
* `Threads.linearizable` — hence every token has exactly one fate at any time.

Design notes: the threads are any type, and nothing is said about who runs when, so a
reachable state is one of any interleaving.  What was finished, and in which order the
locked sections ran, is written down beside the session and read by no step.
-/
import AnalyzerBridge.Proofs.Session
import Mathlib.Logic.Function.Basic
import Mathlib.Logic.Relation

namespace AnalyzerBridge

/-! ### What comes first -/

section Histories

variable {α : Type} {keeps ends : α → Prop} {history : List α}

/-- Everything in a history keeps a property, or something in it is the first that does not. -/
theorem forall_or_until (h : ∀ x, ¬ keeps x → ends x) (history : List α) :
    (∀ x ∈ history, keeps x) ∨ Until keeps ends history := by
  induction history using List.reverseRecOn with
  | nil => exact Or.inl (by simp)
  | append_singleton history x ih =>
    rcases ih with hall | huntil
    · by_cases hx : keeps x
      · exact Or.inl (List.forall_mem_append.mpr ⟨hall, List.forall_mem_singleton.mpr hx⟩)
      · exact Or.inr (until_snoc.mpr (Or.inr ⟨h x hx, hall⟩))
    · exact Or.inr (until_snoc.mpr (Or.inl huntil))

theorem Until.not_forall (h : Until keeps ends history) (hends : ∀ x, ends x → ¬ keeps x) :
    ¬ ∀ x ∈ history, keeps x := by
  obtain ⟨before, x, after, rfl, hx, -⟩ := h
  exact fun hall => hends x hx (hall x (by simp))

/-- What ends the keeping of a property first is one thing. -/
theorem Until.unique {ends' : α → Prop} (h : Until keeps ends history)
    (h' : Until keeps ends' history) (hends : ∀ x, ends x → ¬ keeps x)
    (hends' : ∀ x, ends' x → ¬ keeps x) : ∃ x, ends x ∧ ends' x := by
  induction history using List.reverseRecOn with
  | nil => exact absurd h not_until_nil
  | append_singleton history x ih =>
    rcases until_snoc.mp h with h | ⟨hx, hall⟩
    · rcases until_snoc.mp h' with h' | ⟨-, hall'⟩
      · exact ih h h'
      · exact absurd hall' (h.not_forall hends)
    · rcases until_snoc.mp h' with h' | ⟨hx', -⟩
      · exact absurd hall (h'.not_forall hends')
      · exact ⟨x, hx, hx'⟩

end Histories

namespace Session

/-! ### Locked sections -/

/-- The operation takes the lock of the session. -/
def Step.locks : Step → Bool
  | .cancel _ => false
  | .isCancelled _ => false
  | _ => true

/-- The entry that an operation displaces. -/
def displaced (s : Session) : Step → Option InFlight
  | .begin uri _ => s.inFlight.lookup uri
  | .close uri => s.inFlight.lookup uri
  | _ => none

/-- The token of the request that an operation finishes. -/
def freed (s : Session) : Step → Option Token
  | .finish uri requestId =>
    (s.inFlight.lookup uri).bind fun e => if e.requestId == requestId then some e.token else none
  | _ => none

/-- What an operation does under the lock. -/
def locked (s : Session) : Step → Session
  | .begin uri requestId =>
    { s with
      inFlight := assign s.inFlight uri ⟨requestId, s.issued⟩
      latest := assign s.latest uri requestId
      issued := s.issued + 1 }
  | .close uri => { s with inFlight := remove s.inFlight uri, latest := remove s.latest uri }
  | x => (s.step x).2

/-- An operation is its locked section and then the cancel of the entry that it displaces. -/
theorem step_eq_locked (s : Session) (x : Step) :
    (s.step x).2 = (s.locked x).cancelEntry (s.displaced x) := by
  cases x <;> rfl

/-- Two sessions have the same maps and have issued the same tokens. -/
structure Agrees (s s' : Session) : Prop where
  inFlight : s.inFlight = s'.inFlight
  latest : s.latest = s'.latest
  issued : s.issued = s'.issued

theorem agrees_cancel (s : Session) (t : Token) : (s.cancel t).Agrees s :=
  ⟨rfl, rfl, rfl⟩

theorem agrees_cancelEntry (s : Session) (e : Option InFlight) : s.Agrees (s.cancelEntry e) :=
  ⟨(cancelEntry_inFlight s e).symm, (cancelEntry_latest s e).symm, (cancelEntry_issued s e).symm⟩

theorem Agrees.trans {s s' s'' : Session} (h : s.Agrees s') (h' : s'.Agrees s'') : s.Agrees s'' :=
  ⟨h.inFlight.trans h'.inFlight, h.latest.trans h'.latest, h.issued.trans h'.issued⟩

theorem Agrees.finish {s s' : Session} (h : s.Agrees s') (uri id : String) :
    (s.finish uri id).Agrees (s'.finish uri id) := by
  refine ⟨?_, ?_, ?_⟩
  · rw [Session.finish, Session.finish, ← h.inFlight]
    cases s.inFlight.lookup uri with
    | none => exact h.inFlight
    | some e =>
      by_cases he : e.requestId == id
      · simp only [he, if_true, h.inFlight]
      · simp only [he, if_false, h.inFlight, Bool.false_eq_true]
  · rw [finish_latest, finish_latest, h.latest]
  · rw [finish_issued, finish_issued, h.issued]

/-- A locked section does to the maps what the maps say. -/
theorem Agrees.locked {s s' : Session} (h : s.Agrees s') (x : Step) :
    (s.locked x).Agrees (s'.locked x) := by
  cases x with
  | begin u r => exact ⟨by simp [Session.locked, h.inFlight, h.issued],
      by simp [Session.locked, h.latest], by simp [Session.locked, h.issued]⟩
  | close u => exact ⟨by simp [Session.locked, h.inFlight], by simp [Session.locked, h.latest],
      h.issued⟩
  | finish u r => exact h.finish u r
  | cancel t => exact ⟨h.inFlight, h.latest, h.issued⟩
  | isCurrent u r => exact h
  | running u => exact h
  | isCancelled t => exact h

theorem Agrees.step {s s' : Session} (h : s.Agrees s') (x : Step) :
    (s.locked x).Agrees (s'.step x).2 := by
  rw [step_eq_locked]
  exact (h.locked x).trans (agrees_cancelEntry _ _)

/-- Under the lock, nothing is cancelled. -/
theorem locked_isCancelled (s : Session) {x : Step} (hx : x.locks = true) (t : Token) :
    (s.locked x).isCancelled t = s.isCancelled t := by
  cases x with
  | finish u r =>
    show (s.finish u r).isCancelled t = s.isCancelled t
    rw [isCancelled, isCancelled, finish_cancelled]
  | cancel t => exact absurd hx Bool.false_ne_true
  | _ => rfl

theorem Agrees.displaced {s s' : Session} (h : s.Agrees s') (x : Step) :
    s.displaced x = s'.displaced x := by
  cases x <;> simp [Session.displaced, h.inFlight]

theorem Agrees.freed {s s' : Session} (h : s.Agrees s') (x : Step) : s.freed x = s'.freed x := by
  cases x <;> simp [Session.freed, h.inFlight]

theorem displaced_iff (s : Session) (x : Step) (t : Token) :
    (s.displaced x).map InFlight.token = some t ↔
      ∃ uri, x.claims uri = true ∧ (s.inFlight.lookup uri).map InFlight.token = some t := by
  cases x <;> simp [displaced, Step.claims]

theorem freed_iff (s : Session) (x : Step) (t : Token) :
    s.freed x = some t ↔ ∃ uri id, x = .finish uri id ∧ s.inFlight.lookup uri = some ⟨id, t⟩ := by
  cases x with
  | finish u r =>
    rw [freed, Option.bind_eq_some_iff]
    constructor
    · rintro ⟨⟨id, t'⟩, hlookup, ht⟩
      by_cases hid : id = r
      · obtain rfl : t' = t := by simpa [hid] using ht
        exact ⟨u, r, rfl, by rw [hlookup, hid]⟩
      · exact absurd ht (by simp [hid])
    · rintro ⟨u', r', heq, hlookup⟩
      obtain ⟨rfl, rfl⟩ := Step.finish.inj heq
      exact ⟨_, hlookup, by simp⟩
  | _ => simp [freed]

/-! ### One operation after the other -/

/-- An issued token is that of a request that was begun. -/
theorem exists_begin (history : List Step) :
    ∀ t < (run {} history).issued, ∃ before uri id after,
      history = before ++ .begin uri id :: after ∧ t = tokenAfter before := by
  induction history using List.reverseRecOn with
  | nil => exact fun t ht => absurd ht (Nat.not_lt_zero t)
  | append_singleton history x ih =>
    intro t ht
    by_cases hold : t < (run {} history).issued
    · obtain ⟨before, uri, id, after, rfl, rfl⟩ := ih t hold
      exact ⟨before, uri, id, after ++ [x], by simp, rfl⟩
    · -- the token is new, so the last operation has issued it
      rw [run_snoc] at ht
      cases x with
      | begin u r =>
        rw [issued_begin] at ht
        exact ⟨history, u, r, [], rfl, by rw [tokenAfter]; omega⟩
      | finish u r =>
        rw [step, finish_issued] at ht
        exact absurd ht hold
      | close u => exact absurd (by simpa [step, close] using ht) hold
      | _ => exact absurd ht hold

/-- A token stays registered until its request is finished or its document claimed, and the first of the
two decides. -/
theorem fate_of_history {before after : List Step} {uri id : String}
    (hlocks : ∀ x ∈ before ++ .begin uri id :: after, x.locks = true) :
    let s := run {} (before ++ .begin uri id :: after)
    let released := Until (fun x => x.spares uri id) (fun x => x = .finish uri id) after
    (s.inFlight.lookup uri = some ⟨id, tokenAfter before⟩ ∧ ¬ released ∧
        s.isCancelled (tokenAfter before) = false) ∨
      (s.inFlight.lookup uri ≠ some ⟨id, tokenAfter before⟩ ∧ released ∧
        s.isCancelled (tokenAfter before) = false) ∨
      (s.inFlight.lookup uri ≠ some ⟨id, tokenAfter before⟩ ∧ ¬ released ∧
        s.isCancelled (tokenAfter before) = true) := by
  intro s released
  have htracks := tracks before uri id after
  have hcancelled : s.isCancelled (tokenAfter before) = true ↔
      Until (fun x => x.spares uri id) (fun x => x.claims uri = true) after := by
    rw [htracks.cancelled, or_iff_right]
    exact fun hmem => absurd (hlocks _ hmem) Bool.false_ne_true
  have hfinish : ∀ x, x = .finish uri id → ¬ Step.spares uri id x := fun x hx h => h.2 hx
  have hclaim : ∀ x, Step.claims uri x = true → ¬ x.spares uri id := fun x hx h => by
    rw [h.1] at hx
    exact absurd hx Bool.false_ne_true
  have hregistered : s.inFlight.lookup uri = some ⟨id, tokenAfter before⟩ ↔
      ∀ x ∈ after, x.spares uri id := by
    rw [htracks.registered]
    simp
  rw [Bool.eq_false_iff, ne_eq, ne_eq, hregistered, hcancelled]
  by_cases hall : ∀ x ∈ after, x.spares uri id
  · exact Or.inl ⟨hall, fun h => h.not_forall hfinish hall, fun h => h.not_forall hclaim hall⟩
  · -- what does not spare the request finishes it or claims its document, and never both
    have hends : ∀ x : Step, ¬ x.spares uri id → x = .finish uri id ∨ x.claims uri = true := by
      intro x hx
      by_contra hno
      rw [not_or, Bool.not_eq_true] at hno
      exact hx ⟨hno.2, hno.1⟩
    obtain ⟨first, x, rest, hsplit, hx, hkeeps⟩ :=
      (forall_or_until hends after).resolve_left hall
    have hone : ¬ (released ∧ Until (fun x => x.spares uri id) (fun x => x.claims uri = true) after) := by
      rintro ⟨hreleased, hclaimed⟩
      obtain ⟨x, rfl, hx⟩ := hreleased.unique hclaimed hfinish hclaim
      exact absurd hx Bool.false_ne_true
    rcases hx with hx | hx
    · have hreleased : released := ⟨first, x, rest, hsplit, hx, hkeeps⟩
      exact Or.inr (Or.inl ⟨hall, hreleased, fun h => hone ⟨hreleased, h⟩⟩)
    · have hclaimed : Until (fun x => x.spares uri id) (fun x => x.claims uri = true) after :=
        ⟨first, x, rest, hsplit, hx, hkeeps⟩
      exact Or.inr (Or.inr ⟨hall, fun h => hone ⟨h, hclaimed⟩, hclaimed⟩)

theorem lt_issued_of_freed {history : List Step} {x : Step} {t : Token}
    (h : (run {} history).freed x = some t) : t < (run {} history).issued := by
  obtain ⟨uri, id, -, hlookup⟩ := (freed_iff _ _ _).mp h
  exact lt_issued_of_lookup history hlookup

/-- A registered token is the one of the request that it is registered for, and it is not cancelled. -/
theorem live_of_registered {history : List Step} (hlocks : ∀ x ∈ history, x.locks = true)
    {uri id : String} {t : Token} (h : (run {} history).inFlight.lookup uri = some ⟨id, t⟩) :
    (run {} history).isCancelled t = false := by
  obtain ⟨before, u, r, after, rfl, rfl⟩ := exists_begin history t (lt_issued_of_lookup history h)
  obtain ⟨rfl, rfl, -⟩ := ((tracks before u r after).registered uri id).mp h
  rcases fate_of_history hlocks with ⟨-, -, hlive⟩ | ⟨hno, -, -⟩ | ⟨hno, -, -⟩
  · exact hlive
  · exact absurd h hno
  · exact absurd h hno

end Session

/-! ### Threads -/

/-- Threads that share a session. -/
structure Threads (ι : Type) where
  session : Session := {}
  /-- the token that a thread has still to cancel -/
  due : ι → Option Token := fun _ => none
  /-- the tokens of the requests that were finished -/
  released : List Token := []
  /-- the operations in the order of their locked sections -/
  order : List Session.Step := []

namespace Threads

variable {ι : Type}

/-- A thread runs the locked section of an operation. -/
def lock [DecidableEq ι] (s : Threads ι) (i : ι) (x : Session.Step) : Threads ι where
  session := s.session.locked x
  due := Function.update s.due i ((s.session.displaced x).map InFlight.token)
  released := s.released ++ (s.session.freed x).toList
  order := s.order ++ [x]

/-- A thread cancels the token of the entry that it has displaced. -/
def cancel [DecidableEq ι] (s : Threads ι) (i : ι) (t : Token) : Threads ι :=
  { s with session := s.session.cancel t, due := Function.update s.due i none }

/-- One step of one thread: a thread with nothing due starts an operation, one with a token due
cancels it. -/
inductive Move [DecidableEq ι] : Threads ι → Threads ι → Prop where
  | lock {s : Threads ι} (i : ι) (x : Session.Step) (hidle : s.due i = none)
      (hx : x.locks = true) : Move s (s.lock i x)
  | cancel {s : Threads ι} {i : ι} {t : Token} (hdue : s.due i = some t) : Move s (s.cancel i t)

/-- The threads have come here from an empty session. -/
def Reachable [DecidableEq ι] (s : Threads ι) : Prop :=
  Relation.ReflTransGen Move {} s

/-- The shared session is the one that runs the operations in the order of their locked sections, except
that the tokens that are due are not cancelled yet. -/
structure Linear (s : Threads ι) : Prop where
  locks : ∀ x ∈ s.order, x.locks = true
  agrees : s.session.Agrees (Session.run {} s.order)
  cancelled : ∀ t, (Session.run {} s.order).isCancelled t = true ↔
    s.session.isCancelled t = true ∨ ∃ i, s.due i = some t
  pending : ∀ i t, s.due i = some t →
    s.session.isCancelled t = false ∧ ∀ j, s.due j = some t → j = i
  released : ∀ before uri id after, s.order = before ++ .begin uri id :: after →
    (Session.tokenAfter before ∈ s.released ↔
      Until (fun x => x.spares uri id) (fun x => x = .finish uri id) after)
  issued : ∀ t ∈ s.released, t < s.session.issued

theorem linear_empty : Linear ({} : Threads ι) where
  locks := by simp
  agrees := ⟨rfl, rfl, rfl⟩
  cancelled t := by simp [Session.isCancelled]
  pending i t h := absurd h (by simp)
  released before uri id after h := absurd h.symm (List.append_ne_nil_of_right_ne_nil _ (by simp))
  issued t h := absurd h List.not_mem_nil

/-- A registered token is neither cancelled nor due. -/
theorem Linear.live {s : Threads ι} (h : s.Linear) {uri id : String} {t : Token}
    (hlookup : s.session.inFlight.lookup uri = some ⟨id, t⟩) :
    s.session.isCancelled t = false ∧ ∀ i, s.due i ≠ some t := by
  rw [h.agrees.inFlight] at hlookup
  have hlive := Session.live_of_registered h.locks hlookup
  rw [Bool.eq_false_iff, ne_eq, h.cancelled, not_or, not_exists] at hlive
  exact ⟨Bool.eq_false_iff.mpr hlive.1, hlive.2⟩

/-- The entry that an operation displaces has a token that is neither cancelled nor due. -/
theorem Linear.displaced {s : Threads ι} (h : s.Linear) {x : Session.Step} {t : Token}
    (hx : (s.session.displaced x).map InFlight.token = some t) :
    s.session.isCancelled t = false ∧ ∀ i, s.due i ≠ some t := by
  obtain ⟨uri, -, htoken⟩ := (Session.displaced_iff _ _ _).mp hx
  obtain ⟨id, hlookup⟩ := (Session.registered_iff _ _ _).mp htoken
  exact h.live hlookup

theorem update_eq_some [DecidableEq ι] {due : ι → Option Token} {i j : ι} {d : Option Token}
    {t : Token} :
    Function.update due i d j = some t ↔ j = i ∧ d = some t ∨ j ≠ i ∧ due j = some t := by
  rw [Function.update_apply]
  split <;> simp [*]

theorem lock_agrees [DecidableEq ι] {s : Threads ι} (h : s.Linear) (i : ι) (x : Session.Step) :
    (s.lock i x).session.Agrees (Session.run {} (s.lock i x).order) := by
  show (s.session.locked x).Agrees (Session.run {} (s.order ++ [x]))
  rw [Session.run_snoc]
  exact h.agrees.step x

/-- The token of a request is among the released ones once the request is finished in flight. -/
theorem Linear.freed_iff {s : Threads ι} (h : s.Linear) {before after : List Session.Step}
    {uri id : String} (hsplit : s.order = before ++ .begin uri id :: after) (x : Session.Step) :
    s.session.freed x = some (Session.tokenAfter before) ↔
      x = .finish uri id ∧ ∀ y ∈ after, y.spares uri id := by
  have htracks := Session.tracks before uri id after
  rw [h.agrees.freed, hsplit, Session.freed_iff]
  constructor
  · rintro ⟨u, r, rfl, hlookup⟩
    obtain ⟨rfl, rfl, hall⟩ := (htracks.registered u r).mp hlookup
    exact ⟨rfl, hall⟩
  · rintro ⟨rfl, hall⟩
    exact ⟨uri, id, rfl, (htracks.registered uri id).mpr ⟨rfl, rfl, hall⟩⟩

/-- A locked section may make one token due and one released. -/
theorem Linear.lock [DecidableEq ι] {s : Threads ι} (h : s.Linear) {i : ι} {x : Session.Step}
    (hidle : s.due i = none) (hx : x.locks = true) : (s.lock i x).Linear where
  locks := List.forall_mem_append.mpr ⟨h.locks, List.forall_mem_singleton.mpr hx⟩
  agrees := lock_agrees h i x
  cancelled t := by
    have hcancel : x ≠ .cancel t := by
      rintro rfl
      exact absurd hx Bool.false_ne_true
    have hbusy : ∀ j, s.due j = some t → j ≠ i := by
      rintro j hj rfl
      rw [hidle] at hj
      exact absurd hj (by simp)
    show (Session.run {} (s.order ++ [x])).isCancelled t = true ↔
      (s.session.locked x).isCancelled t = true ∨ _
    rw [Session.run_snoc, Session.isCancelled_step, or_iff_right (a := x = .cancel t) hcancel,
      ← Session.displaced_iff, ← h.agrees.displaced, h.cancelled, Session.locked_isCancelled _ hx,
      or_assoc]
    refine or_congr_right ⟨?_, ?_⟩
    · rintro (⟨j, hj⟩ | hd)
      · exact ⟨j, update_eq_some.mpr (Or.inr ⟨hbusy j hj, hj⟩)⟩
      · exact ⟨i, update_eq_some.mpr (Or.inl ⟨rfl, hd⟩)⟩
    · rintro ⟨j, hj⟩
      rcases update_eq_some.mp hj with ⟨-, hd⟩ | ⟨-, hj⟩
      · exact Or.inr hd
      · exact Or.inl ⟨j, hj⟩
  pending j t hdue := by
    show (s.session.locked x).isCancelled t = false ∧ _
    rw [Session.locked_isCancelled _ hx]
    -- the displaced token was registered, so nobody else has it
    rcases update_eq_some.mp hdue with ⟨rfl, hd⟩ | ⟨-, hold⟩
    · refine ⟨(h.displaced hd).1, fun k hk => ?_⟩
      rcases update_eq_some.mp hk with ⟨rfl, -⟩ | ⟨-, hk⟩
      · rfl
      · exact absurd hk ((h.displaced hd).2 k)
    · refine ⟨(h.pending j t hold).1, fun k hk => ?_⟩
      rcases update_eq_some.mp hk with ⟨-, hd⟩ | ⟨-, hk⟩
      · exact absurd hold ((h.displaced hd).2 j)
      · exact (h.pending j t hold).2 k hk
  released before uri id after hsplit := by
    show _ ∈ s.released ++ (s.session.freed x).toList ↔ _
    rw [List.mem_append, Option.mem_toList]
    have hsplit : s.order ++ [x] = before ++ .begin uri id :: after := hsplit
    rcases List.eq_nil_or_concat' after with rfl | ⟨after, y, rfl⟩
    · -- the request has just been begun, with a token that is not released
      obtain ⟨rfl, hxb⟩ := List.append_inj' hsplit rfl
      obtain rfl : x = .begin uri id := by simpa using hxb
      refine iff_of_false ?_ not_until_nil
      rintro (hold | hfreed)
      · exact absurd (h.issued _ hold) (Nat.not_lt.mpr (Nat.le_of_eq h.agrees.issued))
      · exact absurd hfreed (by simp [Session.freed])
    · rw [← List.cons_append, ← List.append_assoc] at hsplit
      obtain ⟨hold, hxy⟩ := List.append_inj' hsplit rfl
      obtain rfl : x = y := by simpa using hxy
      rw [h.released before uri id after hold, h.freed_iff hold, until_snoc]
  issued t ht := by
    have hgrows : s.session.issued ≤ (s.lock i x).session.issued := by
      rw [(lock_agrees h i x).issued, h.agrees.issued]
      show _ ≤ (Session.run {} (s.order ++ [x])).issued
      rw [Session.run_snoc]
      exact Session.issued_step _ x
    refine Nat.lt_of_lt_of_le ?_ hgrows
    rcases List.mem_append.mp ht with hold | hfreed
    · exact h.issued t hold
    · rw [Option.mem_toList, h.agrees.freed] at hfreed
      rw [h.agrees.issued]
      exact Session.lt_issued_of_freed hfreed

/-- A cancel settles the token that is due. -/
theorem Linear.cancel [DecidableEq ι] {s : Threads ι} (h : s.Linear) {i : ι} {t : Token}
    (hdue : s.due i = some t) : (s.cancel i t).Linear where
  locks := h.locks
  agrees := (Session.agrees_cancel _ _).trans h.agrees
  cancelled t' := by
    show (Session.run {} s.order).isCancelled t' = true ↔
      (s.session.cancel t).isCancelled t' = true ∨ _
    rw [h.cancelled, Session.isCancelled_cancel, or_assoc]
    refine or_congr_right ⟨?_, ?_⟩
    · rintro ⟨j, hj⟩
      by_cases hji : j = i
      · subst hji
        exact Or.inl (Option.some_inj.mp (hdue.symm.trans hj))
      · exact Or.inr ⟨j, update_eq_some.mpr (Or.inr ⟨hji, hj⟩)⟩
    · rintro (rfl | ⟨j, hj⟩)
      · exact ⟨i, hdue⟩
      · rcases update_eq_some.mp hj with ⟨-, hnone⟩ | ⟨-, hj⟩
        · exact absurd hnone (by simp)
        · exact ⟨j, hj⟩
  pending j t' hj := by
    rcases update_eq_some.mp hj with ⟨-, hnone⟩ | ⟨hji, hold⟩
    · exact absurd hnone (by simp)
    · have hother : t ≠ t' := by
        rintro rfl
        exact hji ((h.pending i t hdue).2 j hold)
      refine ⟨?_, fun k hk => ?_⟩
      · show (s.session.cancel t).isCancelled t' = false
        rw [Bool.eq_false_iff, ne_eq, Session.isCancelled_cancel, not_or]
        exact ⟨Bool.eq_false_iff.mp (h.pending j t' hold).1, hother⟩
      · rcases update_eq_some.mp hk with ⟨-, hnone⟩ | ⟨-, hk⟩
        · exact absurd hnone (by simp)
        · exact (h.pending j t' hold).2 k hk
  released := h.released
  issued := h.issued

theorem linear_of_reachable [DecidableEq ι] {s : Threads ι} (h : s.Reachable) : s.Linear := by
  induction h with
  | refl => exact linear_empty
  | tail _ hmove ih =>
    cases hmove with
    | lock i x hidle hx => exact ih.lock hidle hx
    | cancel hdue => exact ih.cancel hdue

/-! ### The fate of a token -/

/-- What has become of the token of a request. -/
inductive Fate where
  | registered
  | released
  | cancelled
  | due

/-- The token of a request of a document has a fate. -/
def HasFate (s : Threads ι) (uri id : String) (t : Token) : Fate → Prop
  | .registered => s.session.inFlight.lookup uri = some ⟨id, t⟩
  | .released => t ∈ s.released
  | .cancelled => s.session.isCancelled t = true
  | .due => ∃ i, s.due i = some t

/-- The token of a request has one fate. -/
theorem Linear.fate {s : Threads ι} (h : s.Linear) {before after : List Session.Step}
    {uri id : String} (hsplit : s.order = before ++ .begin uri id :: after) :
    ∃! fate, s.HasFate uri id (Session.tokenAfter before) fate := by
  have hcases := Session.fate_of_history (hsplit ▸ h.locks)
  simp only [← hsplit, ← h.agrees.inFlight, ← h.released before uri id after hsplit,
    Bool.eq_false_iff, ne_eq, h.cancelled, not_or, not_exists] at hcases
  rcases hcases with ⟨hin, hnot, hlive, hfree⟩ | ⟨hout, hreleased, hlive, hfree⟩ |
    ⟨hout, hnot, hcancelled | ⟨i, hdue⟩⟩
  · refine ⟨.registered, hin, fun fate hfate => ?_⟩
    cases fate with
    | registered => rfl
    | released => exact absurd hfate hnot
    | cancelled => exact absurd hfate hlive
    | due => exact absurd hfate.choose_spec (hfree _)
  · refine ⟨.released, hreleased, fun fate hfate => ?_⟩
    cases fate with
    | registered => exact absurd hfate hout
    | released => rfl
    | cancelled => exact absurd hfate hlive
    | due => exact absurd hfate.choose_spec (hfree _)
  · refine ⟨.cancelled, hcancelled, fun fate hfate => ?_⟩
    cases fate with
    | registered => exact absurd hfate hout
    | released => exact absurd hfate hnot
    | cancelled => rfl
    | due =>
      obtain ⟨i, hdue⟩ := hfate
      exact absurd (hcancelled.symm.trans (h.pending i _ hdue).1) (by decide)
  · refine ⟨.due, ⟨i, hdue⟩, fun fate hfate => ?_⟩
    cases fate with
    | registered => exact absurd hfate hout
    | released => exact absurd hfate hnot
    | cancelled => exact absurd (hfate.symm.trans (h.pending i _ hdue).1) (by decide)
    | due => rfl

/-- Threads that share a session cannot be told from one thread that runs the operations in the order of
their locked sections: the maps are the same at any time, and so is every token while no cancel is pending.
At any time, a token is registered for its document, was released by a finish, is cancelled, or is due to
be cancelled by one thread; a registered token is neither cancelled nor due. -/
theorem linearizable [DecidableEq ι] {s : Threads ι} (h : s.Reachable) :
    (∀ t < s.session.issued, ∃ before uri id after,
      s.order = before ++ .begin uri id :: after ∧ t = Session.tokenAfter before ∧
        ∃! fate, s.HasFate uri id t fate) ∧
    (∀ i j t, s.due i = some t → s.due j = some t → i = j) ∧
    (∀ uri id t, s.session.inFlight.lookup uri = some ⟨id, t⟩ →
      s.session.isCancelled t = false ∧ ∀ i, s.due i ≠ some t) ∧
    s.session.Agrees (Session.run {} s.order) ∧
    ((∀ i, s.due i = none) → ∀ t,
      s.session.isCancelled t = (Session.run {} s.order).isCancelled t) := by
  have hlinear := linear_of_reachable h
  refine ⟨fun t ht => ?_, fun i j t hi hj => ?_, fun uri id t => hlinear.live, hlinear.agrees,
    fun hidle t => ?_⟩
  · rw [hlinear.agrees.issued] at ht
    obtain ⟨before, uri, id, after, hsplit, rfl⟩ := Session.exists_begin _ t ht
    exact ⟨before, uri, id, after, hsplit, rfl, hlinear.fate hsplit⟩
  · exact (hlinear.pending j t hj).2 i hi
  · rw [Bool.eq_iff_iff, hlinear.cancelled, or_iff_left]
    rintro ⟨i, hi⟩
    rw [hidle i] at hi
    exact absurd hi (by simp)

/-- One thread has begun a request, another one has taken its place and has still to cancel it. -/
def takenOver : Threads Bool :=
  (lock {} false (.begin "u" "a")).lock true (.begin "u" "b")

theorem reachable_takenOver : takenOver.Reachable :=
  .tail (.single (.lock false _ rfl rfl)) (.lock true _ rfl rfl)

/-- In between, the token of the first request is due and nothing else, and that of the second one is
live. -/
theorem linearizable_takenOver :
    takenOver.HasFate "u" "a" 0 .due ∧
      (∃ before uri id after, takenOver.order = before ++ .begin uri id :: after ∧
        0 = Session.tokenAfter before ∧ ∃! fate, takenOver.HasFate uri id 0 fate) ∧
      takenOver.session.isCancelled 1 = false := by
  obtain ⟨hfate, -, hlive, -, -⟩ := linearizable reachable_takenOver
  exact ⟨⟨true, rfl⟩, hfate 0 (by decide), (hlive "u" "b" 1 rfl).1⟩

end Threads

end AnalyzerBridge
