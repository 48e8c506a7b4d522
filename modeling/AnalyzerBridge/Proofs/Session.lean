/-
What a session answers, read off its history.

A session starts empty and runs a history of operations.  Every answer it gives
afterwards is a statement about that history:

* `isCurrent_run_iff` — a request is current if it was begun and its document
  has been neither begun nor closed since;
* `running_run_iff` — it is in flight if, moreover, it was not finished since;
* `isCancelled_run_iff` — its token is cancelled if somebody cancelled it, or if
  the document was begun again or closed while the request was in flight;
* `answers_of_history` — the three together, and that no operation on another
  document changes any of them.

Design notes: `Since` is the past-time operator behind all of them, and
`since_snoc` is its only recursion.  The step lemmas `isCurrent_step`,
`lookup_step` and `isCancelled_step` say once what an operation does to each map;
nothing after them looks at the operations again.
-/
import AnalyzerBridge.Session
import Mathlib.Data.List.Basic
import Mathlib.Data.List.Induction

namespace AnalyzerBridge

/-! ### Lists of pairs -/

theorem lookup_cons {α : Type} (name k : String) (x : α) (rest : List (String × α)) :
    List.lookup k ((name, x) :: rest) = if k = name then some x else rest.lookup k := by
  rw [List.lookup_cons]
  by_cases hk : k = name
  · rw [if_pos hk, beq_iff_eq.mpr hk]
  · rw [if_neg hk, beq_false_of_ne hk]

theorem lookup_remove {α : Type} (pairs : List (String × α)) (key k : String) :
    (remove pairs key).lookup k = if k = key then none else pairs.lookup k := by
  induction pairs with
  | nil => simp [remove]
  | cons p rest ih =>
    obtain ⟨name, x⟩ := p
    rw [remove] at ih ⊢
    by_cases hname : name = key
    · rw [List.filter_cons_of_neg (by simpa using hname), ih, lookup_cons, hname]
      split <;> rfl
    · rw [List.filter_cons_of_pos (by simpa using hname), lookup_cons, lookup_cons, ih]
      by_cases hk : k = name
      · rw [if_pos hk, if_neg (fun h => hname (hk.symm.trans h)), if_pos hk]
      · rw [if_neg hk, if_neg hk]

theorem lookup_assign {α : Type} (pairs : List (String × α)) (key k : String) (x : α) :
    (assign pairs key x).lookup k = if k = key then some x else pairs.lookup k := by
  have hassign : assign pairs key x = (key, x) :: remove pairs key := rfl
  rw [hassign, lookup_cons, lookup_remove]
  split <;> rfl

/-! ### Histories -/

/-- Something happened at some point of a history, and everything after that point has a property. -/
def Since {α : Type} (start : α) (keeps : α → Prop) (history : List α) : Prop :=
  ∃ before after, history = before ++ start :: after ∧ ∀ x ∈ after, keeps x

theorem not_since_nil {α : Type} {start : α} {keeps : α → Prop} : ¬ Since start keeps [] := by
  rintro ⟨before, after, h, _⟩
  simp at h

theorem since_snoc {α : Type} {start x : α} {keeps : α → Prop} {history : List α} :
    Since start keeps (history ++ [x]) ↔ x = start ∨ (keeps x ∧ Since start keeps history) := by
  constructor
  · rintro ⟨before, after, h, hkeeps⟩
    -- the last item is the start itself, or it comes after the start
    rcases List.eq_nil_or_concat' after with rfl | ⟨after, y, rfl⟩
    · exact Or.inl (by simpa using (List.append_inj' h rfl).2)
    · rw [← List.cons_append, ← List.append_assoc] at h
      obtain ⟨rfl, hxy⟩ := List.append_inj' h rfl
      obtain rfl : x = y := by simpa using hxy
      exact Or.inr ⟨hkeeps x (by simp), before, after, rfl,
        fun z hz => hkeeps z (by simp [hz])⟩
  · rintro (rfl | ⟨hx, before, after, rfl, hkeeps⟩)
    · exact ⟨history, [], by simp, by simp⟩
    · refine ⟨before, after ++ [x], by simp, fun z hz => ?_⟩
      rcases List.mem_append.mp hz with hz | hz
      · exact hkeeps z hz
      · obtain rfl : z = x := by simpa using hz
        exact hx

/-- After two histories, something holds since a point of the second, or since a point of the first as
long as the second keeps it up. -/
theorem since_append {α : Type} {start : α} {keeps : α → Prop} {history later : List α} :
    Since start keeps (history ++ later) ↔
      Since start keeps later ∨ ((∀ x ∈ later, keeps x) ∧ Since start keeps history) := by
  induction later using List.reverseRecOn with
  | nil => simp [not_since_nil]
  | append_singleton later x ih =>
    rw [← List.append_assoc, since_snoc, ih, since_snoc, List.forall_mem_append,
      List.forall_mem_singleton]
    constructor
    · rintro (hx | ⟨hx, h | ⟨hall, h⟩⟩)
      · exact Or.inl (Or.inl hx)
      · exact Or.inl (Or.inr ⟨hx, h⟩)
      · exact Or.inr ⟨⟨hall, hx⟩, h⟩
    · rintro ((hx | ⟨hx, h⟩) | ⟨⟨hall, hx⟩, h⟩)
      · exact Or.inl hx
      · exact Or.inr ⟨hx, Or.inl h⟩
      · exact Or.inr ⟨hx, Or.inr ⟨hall, h⟩⟩

theorem since_cons {α : Type} {start x : α} {keeps : α → Prop} {history : List α} :
    Since start keeps (x :: history) ↔
      Since start keeps history ∨ ((∀ y ∈ history, keeps y) ∧ x = start) := by
  have hsingle : Since start keeps [x] ↔ x = start := by
    rw [← List.nil_append [x], since_snoc]
    simp [not_since_nil]
  rw [← List.singleton_append, since_append, hsingle]

theorem Since.before {α : Type} {start : α} {keeps : α → Prop} {history : List α}
    (h : Since start keeps history) (past : List α) : Since start keeps (past ++ history) :=
  since_append.mpr (Or.inl h)

theorem Since.keep {α : Type} {start : α} {keeps : α → Prop} {history later : List α}
    (h : Since start keeps history) (hkeeps : ∀ x ∈ later, keeps x) :
    Since start keeps (history ++ later) :=
  since_append.mpr (Or.inr ⟨hkeeps, h⟩)

theorem Since.mem {α : Type} {start : α} {keeps : α → Prop} {history : List α}
    (h : Since start keeps history) : start ∈ history := by
  obtain ⟨before, after, rfl, _⟩ := h
  simp

/-- A list that ends with an item ends with it behind any other item. -/
theorem split_snoc {α : Type} {l before after : List α} {x y : α}
    (h : l ++ [x] = before ++ y :: after) :
    (l = before ∧ x = y ∧ after = []) ∨ ∃ after', after = after' ++ [x] ∧ l = before ++ y :: after' := by
  rcases List.eq_nil_or_concat' after with rfl | ⟨after, z, rfl⟩
  · obtain ⟨rfl, hxy⟩ := List.append_inj' h rfl
    exact Or.inl ⟨rfl, (List.cons.inj hxy).1, rfl⟩
  · rw [← List.cons_append, ← List.append_assoc] at h
    obtain ⟨hl, hxz⟩ := List.append_inj' h rfl
    obtain rfl := (List.cons.inj hxz).1
    exact Or.inr ⟨after, rfl, hl⟩

/-- The last item of a kind is the first one from behind. -/
theorem since_of_find? {α : Type} {kind : α → Bool} {l : List α} {x : α}
    (h : l.reverse.find? kind = some x) : Since x (fun y => kind y = false) l := by
  obtain ⟨-, after, before, hsplit, hafter⟩ := List.find?_eq_some_iff_append.mp h
  refine ⟨before.reverse, after.reverse, ?_, fun y hy => ?_⟩
  · rw [← List.reverse_reverse l, hsplit]
    simp
  · simpa using hafter y (List.mem_reverse.mp hy)

/-- The last item of a kind, if there is any. -/
theorem exists_since {α : Type} {kind : α → Bool} {l : List α} {x : α} (hx : x ∈ l)
    (hkind : kind x = true) : ∃ y, kind y = true ∧ Since y (fun z => kind z = false) l := by
  obtain ⟨y, hy⟩ := Option.isSome_iff_exists.mp
    (List.find?_isSome.mpr ⟨x, List.mem_reverse.mpr hx, hkind⟩)
  exact ⟨y, List.find?_some hy, since_of_find? hy⟩

/-- The last item of a kind is one item. -/
theorem Since.unique {α : Type} {kind : α → Bool} {l : List α} {x y : α}
    (hx : Since x (fun z => kind z = false) l) (hy : Since y (fun z => kind z = false) l)
    (hkx : kind x = true) (hky : kind y = true) : x = y := by
  induction l using List.reverseRecOn with
  | nil => exact absurd hx not_since_nil
  | append_singleton l z ih =>
    rcases since_snoc.mp hx with rfl | ⟨hz, hx⟩
    · rcases since_snoc.mp hy with rfl | ⟨hz, -⟩
      · rfl
      · rw [hkx] at hz
        exact absurd hz (by simp)
    · rcases since_snoc.mp hy with rfl | ⟨-, hy⟩
      · rw [hky] at hz
        exact absurd hz (by simp)
      · exact ih hx hy

/-- Something of a kind happens in a history, and everything before the first of it has a property. -/
def Until {α : Type} (keeps ends : α → Prop) (history : List α) : Prop :=
  ∃ before x after, history = before ++ x :: after ∧ ends x ∧ ∀ y ∈ before, keeps y

theorem not_until_nil {α : Type} {keeps ends : α → Prop} : ¬ Until keeps ends [] := by
  rintro ⟨before, x, after, h, _⟩
  simp at h

theorem until_snoc {α : Type} {keeps ends : α → Prop} {history : List α} {x : α} :
    Until keeps ends (history ++ [x]) ↔
      Until keeps ends history ∨ (ends x ∧ ∀ y ∈ history, keeps y) := by
  constructor
  · rintro ⟨before, z, after, h, hends, hkeeps⟩
    rcases List.eq_nil_or_concat' after with rfl | ⟨after, y, rfl⟩
    · obtain ⟨rfl, hxz⟩ := List.append_inj' h rfl
      obtain rfl : x = z := by simpa using hxz
      exact Or.inr ⟨hends, hkeeps⟩
    · rw [← List.cons_append, ← List.append_assoc] at h
      obtain ⟨rfl, _⟩ := List.append_inj' h rfl
      exact Or.inl ⟨before, z, after, rfl, hends, hkeeps⟩
  · rintro (⟨before, z, after, rfl, hends, hkeeps⟩ | ⟨hends, hkeeps⟩)
    · exact ⟨before, z, after ++ [x], by simp, hends, hkeeps⟩
    · exact ⟨history, x, [], rfl, hends, hkeeps⟩

namespace Session

/-- Runs a history of operations. -/
def run (s : Session) (history : List Step) : Session :=
  history.foldl (fun s x => (s.step x).2) s

@[simp] theorem run_nil (s : Session) : s.run [] = s := rfl

@[simp] theorem run_cons (s : Session) (x : Step) (history : List Step) :
    s.run (x :: history) = (s.step x).2.run history := rfl

@[simp] theorem run_append (s : Session) (history later : List Step) :
    s.run (history ++ later) = (s.run history).run later :=
  List.foldl_append

/-- The operation begins a request of a document or closes it. -/
def Step.claims (uri : String) : Step → Bool
  | .begin u _ => u == uri
  | .close u => u == uri
  | _ => false

/-- The document that an operation changes, if it changes one. -/
def Step.uri? : Step → Option String
  | .begin uri _ => some uri
  | .finish uri _ => some uri
  | .close uri => some uri
  | _ => none

/-- The operation leaves a request of a document in flight. -/
def Step.spares (uri requestId : String) (x : Step) : Prop :=
  x.claims uri = false ∧ x ≠ .finish uri requestId

/-! ### One step -/

@[simp] theorem cancelEntry_latest (s : Session) (e : Option InFlight) :
    (s.cancelEntry e).latest = s.latest := by
  cases e <;> rfl

@[simp] theorem cancelEntry_inFlight (s : Session) (e : Option InFlight) :
    (s.cancelEntry e).inFlight = s.inFlight := by
  cases e <;> rfl

@[simp] theorem cancelEntry_issued (s : Session) (e : Option InFlight) :
    (s.cancelEntry e).issued = s.issued := by
  cases e <;> rfl

theorem isCancelled_cancel (s : Session) (u t : Token) :
    (s.cancel u).isCancelled t = true ↔ s.isCancelled t = true ∨ u = t := by
  simp only [cancel, isCancelled, List.contains_cons, Bool.or_eq_true, beq_iff_eq]
  exact ⟨fun h => h.symm.imp id Eq.symm, fun h => h.symm.imp Eq.symm id⟩

theorem isCancelled_cancelEntry (s : Session) (e : Option InFlight) (t : Token) :
    (s.cancelEntry e).isCancelled t = true ↔
      s.isCancelled t = true ∨ e.map InFlight.token = some t := by
  cases e with
  | none => simp [cancelEntry]
  | some e => simp [cancelEntry, isCancelled_cancel]

theorem isCurrent_iff (s : Session) (uri id : String) :
    s.isCurrent uri id = true ↔ s.latest.lookup uri = some id := by
  rw [isCurrent, beq_iff_eq]

theorem running_eq_some_iff (s : Session) (uri id : String) :
    s.running uri = some id ↔ ∃ t, s.inFlight.lookup uri = some ⟨id, t⟩ := by
  rw [running, Option.map_eq_some_iff]
  constructor
  · rintro ⟨⟨r, t⟩, h, rfl⟩
    exact ⟨t, h⟩
  · rintro ⟨t, h⟩
    exact ⟨⟨id, t⟩, h, rfl⟩

theorem finish_latest (s : Session) (uri id : String) : (s.finish uri id).latest = s.latest := by
  rw [finish]
  split
  · split <;> rfl
  · rfl

theorem finish_issued (s : Session) (uri id : String) : (s.finish uri id).issued = s.issued := by
  rw [finish]
  split
  · split <;> rfl
  · rfl

theorem finish_cancelled (s : Session) (uri id : String) :
    (s.finish uri id).cancelled = s.cancelled := by
  rw [finish]
  split
  · split <;> rfl
  · rfl

/-- Finishing a request removes the entry of its document if it holds that request. -/
theorem lookup_finish (s : Session) (uri id u : String) (e : InFlight) :
    (s.finish uri id).inFlight.lookup u = some e ↔
      s.inFlight.lookup u = some e ∧ ¬ (u = uri ∧ e.requestId = id) := by
  rw [finish]
  cases hentry : s.inFlight.lookup uri with
  | none =>
    refine ⟨fun h => ⟨h, fun hu => ?_⟩, fun h => h.1⟩
    rw [hu.1, hentry] at h
    exact absurd h (by simp)
  | some d =>
    simp only [beq_iff_eq]
    -- the entry goes only if it holds the request that is finished
    by_cases hd : d.requestId = id
    · rw [if_pos hd, lookup_remove]
      by_cases hu : u = uri
      · subst hu
        rw [if_pos rfl, hentry]
        constructor
        · intro h
          exact absurd h (by simp)
        · rintro ⟨h, hne⟩
          obtain rfl : d = e := Option.some_inj.mp h
          exact absurd ⟨rfl, hd⟩ hne
      · rw [if_neg hu]
        exact ⟨fun h => ⟨h, fun hc => hu hc.1⟩, fun h => h.1⟩
    · rw [if_neg hd]
      refine ⟨fun h => ⟨h, fun hu => ?_⟩, fun h => h.1⟩
      rw [hu.1, hentry] at h
      obtain rfl : d = e := Option.some_inj.mp h
      exact hd hu.2

/-- To finish a request changes anything exactly if it is the one in flight. -/
theorem finish_ne_iff (s : Session) (uri id : String) :
    s.finish uri id ≠ s ↔ s.running uri = some id := by
  rw [running_eq_some_iff]
  constructor
  · intro hne
    rw [finish] at hne
    cases hentry : s.inFlight.lookup uri with
    | none => simp [hentry] at hne
    | some e =>
      by_cases hid : e.requestId = id
      · subst hid
        exact ⟨e.token, rfl⟩
      · simp [hentry, hid] at hne
  · rintro ⟨t, hentry⟩ heq
    have hkept := lookup_finish s uri id uri ⟨id, t⟩
    rw [heq] at hkept
    exact (hkept.mp hentry).2 ⟨rfl, rfl⟩

/-- The newest request of a document after an operation: the one it begins, or the one before it unless
it closes the document. -/
theorem isCurrent_step (s : Session) (x : Step) (uri id : String) :
    (s.step x).2.isCurrent uri id = true ↔
      x = .begin uri id ∨ (x.claims uri = false ∧ s.isCurrent uri id = true) := by
  rw [isCurrent_iff, isCurrent_iff]
  cases x with
  | begin u r =>
    simp only [step, begin, issue, cancelEntry_latest, lookup_assign, Step.claims, Step.begin.injEq,
      beq_eq_false_iff_ne]
    by_cases hu : uri = u
    · simp [hu]
    · simp [hu, Ne.symm hu, eq_comm]
  | close u =>
    simp only [step, close, cancelEntry_latest, lookup_remove, Step.claims, beq_eq_false_iff_ne]
    by_cases hu : uri = u
    · simp [hu]
    · simp [hu, Ne.symm hu]
  -- everything else leaves the newest requests alone
  | finish u r => simp [step, finish_latest, Step.claims]
  | cancel t => simp [step, cancel, Step.claims]
  | isCurrent u r => simp [step, Step.claims]
  | running u => simp [step, Step.claims]
  | isCancelled t => simp [step, Step.claims]

/-- The entry of a document after an operation: the one it makes, or the one before it unless the
operation takes it away. -/
theorem lookup_step (s : Session) (x : Step) (uri id : String) (t : Token) :
    (s.step x).2.inFlight.lookup uri = some ⟨id, t⟩ ↔
      (x = .begin uri id ∧ t = s.issued) ∨
        (x.spares uri id ∧ s.inFlight.lookup uri = some ⟨id, t⟩) := by
  cases x with
  | begin u r =>
    simp only [step, begin, issue, cancelEntry_inFlight, lookup_assign, Step.spares, Step.claims,
      Step.begin.injEq, beq_eq_false_iff_ne]
    by_cases hu : uri = u
    · simp [hu, eq_comm]
    · simp [hu, Ne.symm hu]
  | close u =>
    simp only [step, close, cancelEntry_inFlight, lookup_remove, Step.spares, Step.claims,
      beq_eq_false_iff_ne]
    by_cases hu : uri = u
    · simp [hu]
    · simp [hu, Ne.symm hu]
  | finish u r =>
    simp only [step, lookup_finish, Step.spares, Step.claims]
    by_cases hu : uri = u
    · simp [hu, eq_comm, and_comm]
    · simp [hu, Ne.symm hu]
  | cancel t' => simp [step, cancel, Step.spares, Step.claims]
  | isCurrent u r => simp [step, Step.spares, Step.claims]
  | running u => simp [step, Step.spares, Step.claims]
  | isCancelled t' => simp [step, Step.spares, Step.claims]

/-- A token is cancelled after an operation if it was before, if the operation cancels it, or if the
operation takes over or closes the document that the token is registered for. -/
theorem isCancelled_step (s : Session) (x : Step) (t : Token) :
    (s.step x).2.isCancelled t = true ↔
      s.isCancelled t = true ∨ x = .cancel t ∨
        ∃ uri, x.claims uri = true ∧ (s.inFlight.lookup uri).map InFlight.token = some t := by
  cases x with
  | begin u r =>
    -- the maps and the counter have no part in the answer
    have hsame : ∀ (s : Session) inFlight latest issued, Session.isCancelled
        { s with inFlight := inFlight, latest := latest, issued := issued } t = s.isCancelled t :=
      fun _ _ _ _ => rfl
    simp [step, begin, issue, isCancelled_cancelEntry, Step.claims, hsame]
  | close u =>
    have hsame : ∀ (s : Session) inFlight latest, Session.isCancelled
        { s with inFlight := inFlight, latest := latest } t = s.isCancelled t :=
      fun _ _ _ => rfl
    simp [step, close, isCancelled_cancelEntry, Step.claims, hsame]
  | finish u r => simp [step, isCancelled, finish_cancelled, Step.claims]
  | cancel t' => simp [step, isCancelled_cancel, Step.claims]
  | isCurrent u r => simp [step, Step.claims]
  | running u => simp [step, Step.claims]
  | isCancelled t' => simp [step, Step.claims]

theorem issued_step (s : Session) (x : Step) : s.issued ≤ (s.step x).2.issued := by
  cases x with
  | begin u r => simp [step, begin, issue]
  | close u => simp [step, close]
  | finish u r => simp [step, finish_issued]
  | cancel t => exact Nat.le_refl _
  | isCurrent u r => exact Nat.le_refl _
  | running u => exact Nat.le_refl _
  | isCancelled t => exact Nat.le_refl _

theorem issued_begin (s : Session) (uri id : String) :
    (s.step (.begin uri id)).2.issued = s.issued + 1 := by
  simp [step, begin, issue]

/-! ### A whole history -/

theorem run_snoc (s : Session) (history : List Step) (x : Step) :
    s.run (history ++ [x]) = ((s.run history).step x).2 := by
  rw [run_append, run_cons, run_nil]

/-- After a history, a request is current if the history begins it and claims its document no more, or
if the history never claims the document and it was current before. -/
theorem isCurrent_run_from (s : Session) (history : List Step) (uri id : String) :
    (s.run history).isCurrent uri id = true ↔
      Since (.begin uri id) (fun x => x.claims uri = false) history ∨
        ((∀ x ∈ history, x.claims uri = false) ∧ s.isCurrent uri id = true) := by
  induction history using List.reverseRecOn with
  | nil => simp [not_since_nil]
  | append_singleton history x ih =>
    rw [run_snoc, isCurrent_step, ih, since_snoc]
    constructor
    · rintro (rfl | ⟨hx, h | ⟨hall, h⟩⟩)
      · exact Or.inl (Or.inl rfl)
      · exact Or.inl (Or.inr ⟨hx, h⟩)
      · refine Or.inr ⟨fun y hy => ?_, h⟩
        rcases List.mem_append.mp hy with hy | hy
        · exact hall y hy
        · obtain rfl : y = x := by simpa using hy
          exact hx
    · rintro ((rfl | ⟨hx, h⟩) | ⟨hall, h⟩)
      · exact Or.inl rfl
      · exact Or.inr ⟨hx, Or.inl h⟩
      · exact Or.inr ⟨hall x (by simp), Or.inr ⟨fun y hy => hall y (by simp [hy]), h⟩⟩

theorem isCurrent_run_iff (history : List Step) (uri id : String) :
    (run {} history).isCurrent uri id = true ↔
      Since (.begin uri id) (fun x => x.claims uri = false) history := by
  rw [isCurrent_run_from]
  refine or_iff_left ?_
  rintro ⟨_, h⟩
  exact absurd ((isCurrent_iff _ _ _).mp h) (by simp)

theorem running_step (s : Session) (x : Step) (uri id : String) :
    (s.step x).2.running uri = some id ↔
      x = .begin uri id ∨ (x.spares uri id ∧ s.running uri = some id) := by
  rw [running_eq_some_iff, running_eq_some_iff]
  constructor
  · rintro ⟨t, h⟩
    rcases (lookup_step s x uri id t).mp h with ⟨rfl, _⟩ | ⟨hx, h⟩
    · exact Or.inl rfl
    · exact Or.inr ⟨hx, t, h⟩
  · rintro (rfl | ⟨hx, t, h⟩)
    · exact ⟨s.issued, (lookup_step s _ uri id _).mpr (Or.inl ⟨rfl, rfl⟩)⟩
    · exact ⟨t, (lookup_step s x uri id t).mpr (Or.inr ⟨hx, h⟩)⟩

/-- After a history, a request is in flight if the history begins it and spares it from then on, or if the
history spares it as a whole and it was in flight before. -/
theorem running_run_from (s : Session) (history : List Step) (uri id : String) :
    (s.run history).running uri = some id ↔
      Since (.begin uri id) (fun x => x.spares uri id) history ∨
        ((∀ x ∈ history, x.spares uri id) ∧ s.running uri = some id) := by
  induction history using List.reverseRecOn with
  | nil => simp [not_since_nil]
  | append_singleton history x ih =>
    rw [run_snoc, running_step, ih, since_snoc, List.forall_mem_append, List.forall_mem_singleton]
    constructor
    · rintro (rfl | ⟨hx, h | ⟨hall, h⟩⟩)
      · exact Or.inl (Or.inl rfl)
      · exact Or.inl (Or.inr ⟨hx, h⟩)
      · exact Or.inr ⟨⟨hall, hx⟩, h⟩
    · rintro ((rfl | ⟨hx, h⟩) | ⟨⟨hall, hx⟩, h⟩)
      · exact Or.inl rfl
      · exact Or.inr ⟨hx, Or.inl h⟩
      · exact Or.inr ⟨hx, Or.inr ⟨hall, h⟩⟩

theorem running_run_iff (history : List Step) (uri id : String) :
    (run {} history).running uri = some id ↔
      Since (.begin uri id) (fun x => x.spares uri id) history := by
  rw [running_run_from]
  refine or_iff_left ?_
  rintro ⟨_, h⟩
  exact absurd h (by simp [running])

/-- Registered tokens have been issued. -/
theorem lt_issued_of_lookup (history : List Step) :
    ∀ {uri : String} {id : String} {t : Token},
      (run {} history).inFlight.lookup uri = some ⟨id, t⟩ → t < (run {} history).issued := by
  induction history using List.reverseRecOn with
  | nil =>
    intro uri id t h
    simp at h
  | append_singleton history x ih =>
    intro uri id t h
    rw [run_snoc] at h ⊢
    rcases (lookup_step _ x uri id t).mp h with ⟨rfl, rfl⟩ | ⟨_, h⟩
    · rw [issued_begin]
      exact Nat.lt_succ_self _
    · exact Nat.lt_of_lt_of_le (ih h) (issued_step _ x)

theorem lookup_token_ne (history : List Step) (uri : String) {t : Token}
    (ht : (run {} history).issued ≤ t) :
    ((run {} history).inFlight.lookup uri).map InFlight.token ≠ some t := by
  intro h
  obtain ⟨⟨id, u⟩, hlookup, rfl⟩ := Option.map_eq_some_iff.mp h
  exact absurd (lt_issued_of_lookup history hlookup) (Nat.not_lt.mpr ht)

/-- A token that has not been issued yet is cancelled only if somebody cancelled it. -/
theorem isCancelled_of_unissued (history : List Step) :
    ∀ {t : Token}, (run {} history).issued ≤ t →
      ((run {} history).isCancelled t = true ↔ .cancel t ∈ history) := by
  induction history using List.reverseRecOn with
  | nil =>
    intro t _
    simp [isCancelled]
  | append_singleton history x ih =>
    intro t ht
    rw [run_snoc] at ht ⊢
    have hbefore : (run {} history).issued ≤ t := Nat.le_trans (issued_step _ x) ht
    -- nothing can take over a token that is not registered
    have hfree : ¬ ∃ uri, x.claims uri = true ∧
        ((run {} history).inFlight.lookup uri).map InFlight.token = some t := by
      rintro ⟨uri, _, h⟩
      exact lookup_token_ne history uri hbefore h
    rw [isCancelled_step, ih hbefore, or_iff_left hfree, List.mem_append, List.mem_singleton]
    exact or_congr_right eq_comm

/-! ### The token of a request -/

/-- The token of a request that is begun after a history. -/
def tokenAfter (before : List Step) : Token :=
  (run {} before).issued

/-- What holds of the token of a request while its history goes on. -/
structure Tracks (before : List Step) (uri id : String) (after : List Step) : Prop where
  /-- The token is registered for its document and no other, as long as every operation spares it. -/
  registered : ∀ u r, (run {} (before ++ .begin uri id :: after)).inFlight.lookup u =
      some ⟨r, tokenAfter before⟩ ↔ u = uri ∧ r = id ∧ ∀ x ∈ after, x.spares uri id
  /-- It is cancelled directly, or by the first operation that claims its document. -/
  cancelled : (run {} (before ++ .begin uri id :: after)).isCancelled (tokenAfter before) = true ↔
      .cancel (tokenAfter before) ∈ before ++ .begin uri id :: after ∨
        Until (fun x => x.spares uri id) (fun x => x.claims uri = true) after
  /-- It is not issued again. -/
  issued : tokenAfter before < (run {} (before ++ .begin uri id :: after)).issued

theorem tracks_begin (before : List Step) (uri id : String) : Tracks before uri id [] where
  registered u r := by
    rw [run_snoc, lookup_step]
    constructor
    -- an entry from before the request has an older token
    · rintro (⟨h, _⟩ | ⟨_, h⟩)
      · obtain ⟨rfl, rfl⟩ := Step.begin.inj h
        exact ⟨rfl, rfl, by simp⟩
      · exact absurd (lt_issued_of_lookup before h) (Nat.lt_irrefl _)
    · rintro ⟨rfl, rfl, _⟩
      exact Or.inl ⟨rfl, rfl⟩
  cancelled := by
    have hfree : ¬ ∃ u, (Step.begin uri id).claims u = true ∧
        ((run {} before).inFlight.lookup u).map InFlight.token = some (tokenAfter before) := by
      rintro ⟨u, _, h⟩
      exact lookup_token_ne before u (Nat.le_refl _) h
    have hbefore : (run {} before).isCancelled (tokenAfter before) = true ↔
        .cancel (tokenAfter before) ∈ before :=
      isCancelled_of_unissued before (Nat.le_refl _)
    rw [run_snoc, isCancelled_step, hbefore, or_iff_left hfree, or_iff_left not_until_nil]
    simp
  issued := by
    rw [run_snoc, issued_begin]
    exact Nat.lt_succ_self _

theorem registered_iff (s : Session) (u : String) (t : Token) :
    (s.inFlight.lookup u).map InFlight.token = some t ↔
      ∃ r, s.inFlight.lookup u = some ⟨r, t⟩ := by
  rw [Option.map_eq_some_iff]
  constructor
  · rintro ⟨⟨r, _⟩, h, rfl⟩
    exact ⟨r, h⟩
  · rintro ⟨r, h⟩
    exact ⟨⟨r, t⟩, h, rfl⟩

/-- One operation keeps track of the token. -/
theorem Tracks.step {before after : List Step} {uri id : String}
    (h : Tracks before uri id after) (x : Step) : Tracks before uri id (after ++ [x]) := by
  have hsplit : before ++ .begin uri id :: (after ++ [x]) =
      (before ++ .begin uri id :: after) ++ [x] := by simp
  -- a later request gets another token, so the entry found under this one is still the old one
  have hnew : tokenAfter before ≠ (run {} (before ++ .begin uri id :: after)).issued :=
    Nat.ne_of_lt h.issued
  constructor
  · intro u r
    rw [hsplit, run_snoc, lookup_step, h.registered]
    constructor
    · rintro (⟨_, ht⟩ | ⟨hx, rfl, rfl, hall⟩)
      · exact absurd ht hnew
      · refine ⟨rfl, rfl, fun y hy => ?_⟩
        rcases List.mem_append.mp hy with hy | hy
        · exact hall y hy
        · obtain rfl : y = x := by simpa using hy
          exact hx
    · rintro ⟨rfl, rfl, hall⟩
      exact Or.inr ⟨hall x (by simp), rfl, rfl, fun y hy => hall y (by simp [hy])⟩
  · -- the token is registered for its own document at most, so only a claim on that one cancels it
    have hclaim : (∃ u, x.claims u = true ∧
          ((run {} (before ++ .begin uri id :: after)).inFlight.lookup u).map InFlight.token =
            some (tokenAfter before)) ↔
        x.claims uri = true ∧ ∀ y ∈ after, y.spares uri id := by
      constructor
      · rintro ⟨u, hx, hu⟩
        obtain ⟨r, hr⟩ := (registered_iff _ u _).mp hu
        obtain ⟨rfl, rfl, hall⟩ := (h.registered u r).mp hr
        exact ⟨hx, hall⟩
      · rintro ⟨hx, hall⟩
        exact ⟨uri, hx, (registered_iff _ uri _).mpr
          ⟨id, (h.registered uri id).mpr ⟨rfl, rfl, hall⟩⟩⟩
    have hmem : .cancel (tokenAfter before) ∈ (before ++ .begin uri id :: after) ++ [x] ↔
        .cancel (tokenAfter before) ∈ before ++ .begin uri id :: after ∨
          x = .cancel (tokenAfter before) := by
      rw [List.mem_append, List.mem_singleton]
      exact or_congr_right eq_comm
    rw [hsplit, run_snoc, isCancelled_step, h.cancelled, hclaim, until_snoc, hmem]
    exact or_or_or_comm
  · rw [hsplit, run_snoc]
    exact Nat.lt_of_lt_of_le h.issued (issued_step _ x)

theorem tracks (before : List Step) (uri id : String) (after : List Step) :
    Tracks before uri id after := by
  induction after using List.reverseRecOn with
  | nil => exact tracks_begin before uri id
  | append_singleton after x ih => exact ih.step x

/-- The token of a request is cancelled if somebody cancelled it, or if the document was begun again or
closed later and the request was not finished before the first time that happened. -/
theorem isCancelled_run_iff (before : List Step) (uri id : String) (after : List Step) :
    (run {} (before ++ .begin uri id :: after)).isCancelled ((run {} before).begin uri id).1 = true ↔
      .cancel ((run {} before).begin uri id).1 ∈ before ++ .begin uri id :: after ∨
        Until (fun x => x.spares uri id) (fun x => x.claims uri = true) after :=
  (tracks before uri id after).cancelled

/-! ### Other documents -/

theorem Step.claims_of_uri? {x : Step} {uri u : String} (hx : x.uri? = some u) (h : uri ≠ u) :
    x.claims uri = false := by
  cases x <;> simp_all [Step.uri?, Step.claims] <;> exact Ne.symm h

theorem Step.spares_of_uri? {x : Step} {uri u : String} (hx : x.uri? = some u) (h : uri ≠ u)
    (id : String) : x.spares uri id := by
  refine ⟨Step.claims_of_uri? hx h, ?_⟩
  rintro rfl
  exact h (Option.some_inj.mp hx)

theorem Step.ne_begin_of_uri? {x : Step} {uri u : String} (hx : x.uri? = some u) (h : uri ≠ u)
    (id : String) : x ≠ .begin uri id := by
  rintro rfl
  exact h (Option.some_inj.mp hx)

theorem isCurrent_step_other (s : Session) {x : Step} {uri u : String} (hx : x.uri? = some u)
    (h : uri ≠ u) (id : String) : (s.step x).2.isCurrent uri id = s.isCurrent uri id := by
  rw [Bool.eq_iff_iff, isCurrent_step, or_iff_right (Step.ne_begin_of_uri? hx h id)]
  exact and_iff_right (Step.claims_of_uri? hx h)

theorem running_step_other (s : Session) {x : Step} {uri u : String} (hx : x.uri? = some u)
    (h : uri ≠ u) : (s.step x).2.running uri = s.running uri := by
  refine Option.ext fun id => ?_
  rw [running_step, or_iff_right (Step.ne_begin_of_uri? hx h id)]
  exact and_iff_right (Step.spares_of_uri? hx h id)

theorem isCancelled_step_other (before : List Step) (uri id : String) (after : List Step)
    {x : Step} {u : String} (hx : x.uri? = some u) (h : uri ≠ u) :
    ((run {} (before ++ .begin uri id :: after)).step x).2.isCancelled (tokenAfter before) =
      (run {} (before ++ .begin uri id :: after)).isCancelled (tokenAfter before) := by
  have hcancel : x ≠ .cancel (tokenAfter before) := by
    rintro rfl
    exact absurd hx (by simp [Step.uri?])
  rw [Bool.eq_iff_iff, isCancelled_step, or_iff_left]
  -- the token is registered for its own document only, and the operation claims another one
  rintro (hx' | ⟨v, hv, htoken⟩)
  · exact hcancel hx'
  · obtain ⟨r, hr⟩ := (registered_iff _ v _).mp htoken
    obtain ⟨rfl, _⟩ := ((tracks before uri id after).registered v r).mp hr
    rw [Step.claims_of_uri? hx h] at hv
    exact absurd hv (by simp)

/-- Every answer of a session is read off its history, for each document on its own. -/
theorem answers_of_history (history : List Step) :
    (∀ uri id, (run {} history).isCurrent uri id = true ↔
      Since (.begin uri id) (fun x => x.claims uri = false) history) ∧
    (∀ uri id, (run {} history).running uri = some id ↔
      Since (.begin uri id) (fun x => x.claims uri = false ∧ x ≠ .finish uri id) history) ∧
    (∀ before uri id after, history = before ++ .begin uri id :: after →
      ((run {} history).isCancelled ((run {} before).begin uri id).1 = true ↔
        .cancel ((run {} before).begin uri id).1 ∈ history ∨
          Until (fun x => x.claims uri = false ∧ x ≠ .finish uri id)
            (fun x => x.claims uri = true) after)) ∧
    (∀ x u uri, x.uri? = some u → uri ≠ u →
      (∀ id, ((run {} history).step x).2.isCurrent uri id = (run {} history).isCurrent uri id) ∧
      ((run {} history).step x).2.running uri = (run {} history).running uri ∧
      (∀ before id after, history = before ++ .begin uri id :: after →
        ((run {} history).step x).2.isCancelled ((run {} before).begin uri id).1 =
          (run {} history).isCancelled ((run {} before).begin uri id).1)) := by
  refine ⟨isCurrent_run_iff history, running_run_iff history, ?_, ?_⟩
  · rintro before uri id after rfl
    exact isCancelled_run_iff before uri id after
  · intro x u uri hx h
    refine ⟨isCurrent_step_other _ hx h, running_step_other _ hx h, ?_⟩
    rintro before id after rfl
    exact isCancelled_step_other before uri id after hx h

end Session

end AnalyzerBridge
