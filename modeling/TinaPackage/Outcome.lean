import TinaPackage.Runs

/-! Results of C functions. A call completes, returns an error code with the state
it leaves behind, or runs into undefined behaviour. -/
namespace TinaPackage

inductive Outcome (ε α : Type*) where
  | done (a : α)
  | failed (e : ε)
  | undefined

namespace Outcome
variable {ε α β : Type*}

def bind : Outcome ε α → (α → Outcome ε β) → Outcome ε β
  | done a, f => f a
  | failed e, _ => failed e
  | undefined, _ => undefined

def mapFailed {ε' : Type*} (g : ε → ε') : Outcome ε α → Outcome ε' α
  | done a => done a
  | failed e => failed (g e)
  | undefined => undefined

def toOption : Outcome ε α → Option α
  | done a => some a
  | failed _ => none
  | undefined => none

variable {o : Outcome ε α} {P : α → Prop} {f : α → Outcome ε β}

theorem toOption_eq_some {a : α} : o.toOption = some a ↔ o = done a := by
  cases o with
  | done b | failed e | undefined => simp [toOption]

/-- Nothing undefined happens, and if the call completes then its result satisfies `P`. -/
def Ensures (P : α → Prop) : Outcome ε α → Prop
  | done a => P a
  | failed _ => True
  | undefined => False

variable {Q : α → Prop}

theorem Ensures.imp (h : o.Ensures P) (hPQ : ∀ a, P a → Q a) : o.Ensures Q := by
  cases o with
  | done a => exact hPQ a h
  | failed e => exact trivial
  | undefined => exact h

theorem Ensures.and (hP : o.Ensures P) (hQ : o.Ensures Q) : o.Ensures fun a => P a ∧ Q a := by
  cases o with
  | done a => exact ⟨hP,hQ⟩
  | failed e => exact trivial
  | undefined => exact hP

theorem Ensures.bind {Q : β → Prop} (h : o.Ensures P) (hf : ∀ a, P a → (f a).Ensures Q) :
    (o.bind f).Ensures Q := by
  cases o with
  | done a => exact hf a h
  | failed e => exact trivial
  | undefined => exact h

theorem bind_assoc {γ : Type*} (o : Outcome ε α) (f : α → Outcome ε β) (g : β → Outcome ε γ) :
    (o.bind f).bind g = o.bind fun a => (f a).bind g := by
  cases o <;> rfl

theorem bind_eq_done {b : β} : o.bind f = done b ↔ ∃ a, o = done a ∧ f a = done b := by
  cases o with
  | done a => simp [bind]
  | failed e => simp [bind]
  | undefined => simp [bind]

variable {ε' : Type*}

theorem Ensures.mapFailed (g : ε → ε') (h : o.Ensures P) : (o.mapFailed g).Ensures P := by
  cases o with
  | done a => exact h
  | failed e => exact trivial
  | undefined => exact h

/-- The call does not return an error code. -/
def Accepts (o : Outcome ε α) : Prop := ∀ e, o ≠ failed e

theorem accepts_done (a : α) : (done a : Outcome ε α).Accepts := by
  intro e h
  cases h

theorem accepts_undefined : (undefined : Outcome ε α).Accepts := by
  intro e h
  cases h

theorem Accepts.bind (h : o.Accepts) (hf : ∀ a, (f a).Accepts) : (o.bind f).Accepts := by
  cases o with
  | done a => exact hf a
  | failed e => exact absurd rfl (h e)
  | undefined => exact accepts_undefined

theorem Accepts.bind_of (h : o.Accepts) (hP : o.Ensures P) (hf : ∀ a, P a → (f a).Accepts) :
    (o.bind f).Accepts := by
  cases o with
  | done a => exact hf a hP
  | failed e => exact absurd rfl (h e)
  | undefined => exact accepts_undefined

theorem Accepts.mapFailed (g : ε → ε') (h : o.Accepts) : (o.mapFailed g).Accepts := by
  cases o with
  | done a => exact accepts_done a
  | failed e => exact absurd rfl (h e)
  | undefined => exact accepts_undefined

theorem Ensures.exists_done (h : o.Ensures P) (ha : o.Accepts) : ∃ a, o = done a ∧ P a := by
  cases o with
  | done a => exact ⟨a,rfl,h⟩
  | failed e => exact absurd rfl (ha e)
  | undefined => exact absurd h id

end Outcome

variable {ε σ α : Type*}

def runCalls (step : σ → α → Outcome ε σ) : σ → List α → Outcome ε σ
  | s, [] => .done s
  | s, a :: as => (step s a).bind fun s' => runCalls step s' as

def GuardedCalls (step : σ → α → Outcome ε σ) (guard : σ → α → Prop) : σ → List α → Prop :=
  Guarded (fun s a => (step s a).toOption) guard

instance (step : σ → α → Outcome ε σ) (guard : σ → α → Prop) [∀ s a, Decidable (guard s a)]
    (s : σ) (as : List α) : Decidable (GuardedCalls step guard s as) :=
  decidableGuarded _ guard s as

variable {step : σ → α → Outcome ε σ} {guard : σ → α → Prop}

-- only a completed call is followed by another one
theorem Outcome.Ensures.guarded {Inv : σ → Prop} {s : σ} {a : α} {as : List α}
    (h : (step s a).Ensures Inv) (hg : GuardedCalls step guard s (a :: as)) :
    (step s a).Ensures fun t => Inv t ∧ GuardedCalls step guard t as := by
  cases hcall : step s a with
  | done t =>
    rw [hcall] at h
    exact ⟨h,hg.2 t (congrArg toOption hcall)⟩
  | failed e => exact trivial
  | undefined =>
    rw [hcall] at h
    exact h

theorem runCalls_invariant (Inv : σ → Prop)
    (hstep : ∀ s a, Inv s → guard s a → (step s a).Ensures Inv) :
    ∀ (as : List α) (s : σ), Inv s → GuardedCalls step guard s as →
      (runCalls step s as).Ensures Inv := by
  intro as
  induction as with
  | nil => exact fun s hs _ => hs
  | cons a as ih =>
    intro s hs hg
    exact ((hstep s a hs hg.1).guarded hg).bind fun t ht => ih t ht.1 ht.2

/-- What holds at the start and is kept by every completed call, as a property of the
calls made so far and the state they lead to, holds of a completed run. -/
theorem runCalls_history {s : σ} (Inv : List α → σ → Prop) (hstart : Inv [] s)
    (hstep : ∀ past t a t', Inv past t → step t a = .done t' → Inv (past ++ [a]) t') :
    ∀ as s', runCalls step s as = .done s' → Inv as s' := by
  suffices hrun : ∀ as past t s', Inv past t → runCalls step t as = .done s' →
      Inv (past ++ as) s' from fun as s' h => hrun as [] s s' hstart h
  intro as
  induction as with
  | nil =>
    intro past t s' ht h
    cases h
    rwa [List.append_nil]
  | cons a as ih =>
    intro past t s' ht h
    obtain ⟨u,hu,hrest⟩ := Outcome.bind_eq_done.mp h
    have := ih (past ++ [a]) u s' (hstep past t a u ht hu) hrest
    rwa [List.append_assoc,List.singleton_append] at this

theorem runCalls_accepts (Inv : σ → Prop)
    (hstep : ∀ s a, Inv s → guard s a → (step s a).Ensures Inv)
    (haccepts : ∀ s a, Inv s → guard s a → (step s a).Accepts) :
    ∀ (as : List α) (s : σ), Inv s → GuardedCalls step guard s as →
      (runCalls step s as).Accepts := by
  intro as
  induction as with
  | nil => exact fun s _ _ => Outcome.accepts_done s
  | cons a as ih =>
    intro s hs hg
    exact (haccepts s a hs hg.1).bind_of ((hstep s a hs hg.1).guarded hg) fun t ht =>
      ih t ht.1 ht.2

end TinaPackage
