/-
Running operations.

An operation applied to a state is its result and the state after it.  The
lemmas here say so for each way of building one, so that `simp` runs a sequence
of operations step by step and no later proof opens the transformer.

* `Act.bind_apply` — a sequence goes on with the result of its first part, or
  ends with its failure;
* `Act.run_bind` — a sequence whose first part is known to succeed;
* `Act.ok_of_bind` — a sequence that is known to succeed;
* `Act.ensuring_apply` — what `ensuring` makes of two ends;
* `Act.Succeeds.bind` — a sequence of operations that cannot fail cannot fail;
* `Act.Leads.bind` — what every operation of a sequence does to the state, the
  sequence does, if that is a preorder.
-/
import AnalyzerBridge.Workspace
import Mathlib.Order.Defs.Unbundled

namespace AnalyzerBridge

namespace Act

variable {σ α β : Type}

@[simp] theorem pure_apply (x : α) (s : σ) : (pure x : Act σ α) s = (.ok x, s) := rfl

@[simp] theorem throw_apply (f : Failure) (s : σ) :
    (throw f : Act σ α) s = (.error f, s) := rfl

@[simp] theorem look_apply (f : σ → α) (s : σ) : look f s = (.ok (f s), s) := rfl

@[simp] theorem change_apply (f : σ → σ) (s : σ) : change f s = (.ok (), f s) := rfl

@[simp] theorem ofExcept_apply (r : Except Failure α) (s : σ) :
    (ofExcept r : Act σ α) s = (r, s) := rfl

@[simp] theorem attempt_apply (a : Act σ α) (s : σ) :
    a.attempt s = (.ok (a s).1, (a s).2) := rfl

/-- A sequence goes on with the result of its first part, or ends with its failure. -/
theorem bind_apply (a : Act σ α) (f : α → Act σ β) (s : σ) :
    (a >>= f) s =
      match a s with
      | (.ok x, s') => f x s'
      | (.error e, s') => (.error e, s') := by
  -- both transformers are opened here, once and for all
  rcases h : a s with ⟨_ | _, _⟩
  · simp [bind, ExceptT.bind, ExceptT.mk, StateT.bind, ExceptT.bindCont, h]; rfl
  · simp [bind, ExceptT.bind, ExceptT.mk, StateT.bind, ExceptT.bindCont, h]

theorem run_bind {a : Act σ α} {s s' : σ} {x : α} (h : a s = (.ok x, s')) (f : α → Act σ β) :
    (a >>= f) s = f x s' := by
  rw [bind_apply, h]

theorem fail_bind {a : Act σ α} {s s' : σ} {e : Failure} (h : a s = (.error e, s'))
    (f : α → Act σ β) : (a >>= f) s = (.error e, s') := by
  rw [bind_apply, h]

/-- A sequence that succeeds is two operations that succeed. -/
theorem ok_of_bind {a : Act σ α} {f : α → Act σ β} {s s' : σ} {y : β}
    (h : (a >>= f) s = (.ok y, s')) : ∃ x s₁, a s = (.ok x, s₁) ∧ f x s₁ = (.ok y, s') := by
  rw [bind_apply] at h
  rcases ha : a s with ⟨_ | x, s₁⟩
  · rw [ha] at h
    exact absurd (Prod.mk.inj h).1 (by simp)
  · rw [ha] at h
    exact ⟨x, s₁, rfl, h⟩

theorem ok_of_ofExcept {r : Except Failure α} {s s' : σ} {x : α}
    (h : (ofExcept r : Act σ α) s = (.ok x, s')) : r = .ok x ∧ s' = s :=
  ⟨(Prod.mk.inj h).1, (Prod.mk.inj h).2.symm⟩

/-- What was done first decides the result, unless the second operation fails. -/
theorem ensuring_apply (a : Act σ α) (cleanup : Act σ Unit) (s : σ) :
    ensuring a cleanup s =
      match cleanup (a s).2 with
      | (.ok _, s') => ((a s).1, s')
      | (.error f, s') => (.error f, s') := by
  rw [ensuring]
  rcases a s with ⟨r, s'⟩
  rfl

/-- An operation succeeds wherever it starts. -/
def Succeeds (a : Act σ α) : Prop :=
  ∀ s, ∃ x s', a s = (.ok x, s')

theorem succeeds_pure (x : α) : Succeeds (pure x : Act σ α) :=
  fun s => ⟨x, s, rfl⟩

theorem Succeeds.bind {a : Act σ α} {f : α → Act σ β} (ha : Succeeds a) (hf : ∀ x, Succeeds (f x)) :
    Succeeds (a >>= f) := by
  intro s
  obtain ⟨x, s₁, hx⟩ := ha s
  obtain ⟨y, s₂, hy⟩ := hf x s₁
  exact ⟨y, s₂, (run_bind hx f).trans hy⟩

/-- An operation leads from every state to a related one, whether it succeeds or fails. -/
def Leads (R : σ → σ → Prop) (a : Act σ α) : Prop :=
  ∀ s, R s (a s).2

section

variable {R : σ → σ → Prop}

theorem Leads.of_eq {a : Act σ α} (h : Leads R a) {s s' : σ} {r : Except Failure α}
    (ha : a s = (r, s')) : R s s' := by
  have hs := h s
  rw [ha] at hs
  exact hs

theorem leads_pure [IsPreorder σ R] (x : α) : Leads R (pure x : Act σ α) :=
  fun s => refl_of R s

theorem leads_throw [IsPreorder σ R] (f : Failure) : Leads R (throw f : Act σ α) :=
  fun s => refl_of R s

theorem leads_ofExcept [IsPreorder σ R] (r : Except Failure α) : Leads R (ofExcept r) :=
  fun s => refl_of R s

theorem Leads.bind [IsPreorder σ R] {a : Act σ α} {f : α → Act σ β} (ha : Leads R a)
    (hf : ∀ x, Leads R (f x)) : Leads R (a >>= f) := by
  intro s
  rw [bind_apply]
  rcases h : a s with ⟨fault | x, s₁⟩
  · exact ha.of_eq h
  · exact trans_of R (ha.of_eq h) (hf x s₁)

end

end Act

namespace Workspace

variable {ε : Type} (w : Workspace ε)

@[simp] theorem note_apply (records : List LogRecord) :
    note records w = (.ok (), { w with log := w.log ++ records }) := rfl

@[simp] theorem onSession_apply (f : Session → Session) :
    onSession f w = (.ok (), { w with session := f w.session }) := rfl

@[simp] theorem isCurrent_apply (uri id : String) :
    isCurrent uri id w = (.ok (w.session.isCurrent uri id), w) := rfl

@[simp] theorem nextRequestId_apply (uri : String) :
    nextRequestId uri w =
      (.ok (uri ++ "#" ++ toString w.nextNumber), { w with nextNumber := w.nextNumber + 1 }) := rfl

end Workspace

end AnalyzerBridge
