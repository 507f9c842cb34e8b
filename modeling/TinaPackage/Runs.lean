import Mathlib

/-! Runs of a partial step function. A step that goes wrong (a wild pointer, a
loop that never ends) is `none`; callers are described by a guard on the state
in which each action is issued. -/
namespace TinaPackage
open Option

variable {σ α : Type*}

def runSteps (step : σ → α → Option σ) : σ → List α → Option σ
  | s, [] => some s
  | s, a :: as => (step s a).bind fun s' => runSteps step s' as

/-- Every action of the list is issued in a state that permits it. -/
def Guarded (step : σ → α → Option σ) (guard : σ → α → Prop) : σ → List α → Prop
  | _, [] => True
  | s, a :: as => guard s a ∧ ∀ s', step s a = some s' → Guarded step guard s' as

instance decidableGuarded (step : σ → α → Option σ) (guard : σ → α → Prop)
    [∀ s a, Decidable (guard s a)] : ∀ s as, Decidable (Guarded step guard s as)
  | _, [] => isTrue trivial
  | s, a :: as =>
    have : Decidable (∀ s', step s a = some s' → Guarded step guard s' as) :=
      match h : step s a with
      | none => isTrue fun s' hs => by cases hs
      | some t =>
        match decidableGuarded step guard t as with
        | isTrue hg => isTrue fun s' hs => by cases hs; exact hg
        | isFalse hg => isFalse fun hall => hg (hall t rfl)
    inferInstanceAs (Decidable (_ ∧ _))

variable {step : σ → α → Option σ} {guard : σ → α → Prop}

theorem guarded_true (as : List α) (s : σ) : Guarded step (fun _ _ => True) s as := by
  induction as generalizing s with
  | nil => trivial
  | cons a as ih => exact ⟨trivial,fun t _ => ih t⟩

/-- The simulation rule: a guarded run follows the run of another system, whose steps never go
wrong, if each guarded step does. -/
theorem runSteps_simulates {τ : Type*} (next : τ → α → τ) (Sim : σ → τ → Prop)
    (hstep : ∀ s t a, Sim s t → guard s a → ∃ s', step s a = some s' ∧ Sim s' (next t a)) :
    ∀ (as : List α) (s : σ) (t : τ), Sim s t → Guarded step guard s as →
      ∃ s', runSteps step s as = some s' ∧ Sim s' (as.foldl next t) := by
  intro as
  induction as with
  | nil => exact fun s t hs _ => ⟨s,rfl,hs⟩
  | cons a as ih =>
    intro s t hs hg
    obtain ⟨u,hu,hsim⟩ := hstep s t a hs hg.1
    obtain ⟨s',hs',hend⟩ := ih u (next t a) hsim (hg.2 u hu)
    exact ⟨s',by simpa only [runSteps,hu,bind_some] using hs',hend⟩

/-- The invariant rule: if a guarded step from an invariant state succeeds and
lands in an invariant state, so does every guarded run. -/
theorem runSteps_invariant (Inv : σ → Prop)
    (hstep : ∀ s a, Inv s → guard s a → ∃ s', step s a = some s' ∧ Inv s') (as : List α) (s : σ)
    (hs : Inv s) (hg : Guarded step guard s as) : ∃ s', runSteps step s as = some s' ∧ Inv s' :=
  runSteps_simulates (fun _ _ => ()) (fun s _ => Inv s) (fun s _ => hstep s) as s () hs hg

theorem runSteps_total (Inv : σ → Prop) (hstep : ∀ s a, Inv s → ∃ s', step s a = some s' ∧ Inv s')
    (as : List α) (s : σ) (hs : Inv s) : ∃ s', runSteps step s as = some s' ∧ Inv s' :=
  runSteps_invariant Inv (fun s a hs _ => hstep s a hs) as s hs (guarded_true as s)

/-- No step of the run goes wrong, and every state of it satisfies `P`. -/
def Always (step : σ → α → Option σ) (P : σ → Prop) : σ → List α → Prop
  | s, [] => P s
  | s, a :: as => P s ∧ ∃ s', step s a = some s' ∧ Always step P s' as

section
variable (Inv : σ → Prop)
include Inv

/-- If a step that the guard permits leads to an invariant state and another step goes wrong or
leads to a state without `P`, the runs that always satisfy `P` are the guarded ones. The actions
are those that `usage` allows. -/
theorem always_iff_guarded {usage : σ → α → Prop} {P : σ → Prop} (hP : ∀ s, Inv s → P s)
    (hgood : ∀ s a, Inv s → usage s a → guard s a → ∃ s', step s a = some s' ∧ Inv s')
    (hbad : ∀ s a s', Inv s → usage s a → ¬guard s a → step s a = some s' → ¬P s') :
    ∀ (as : List α) (s : σ), Inv s → Guarded step usage s as →
      (Always step P s as ↔ Guarded step guard s as) := by
  have hhead {s : σ} {as : List α} (h : Always step P s as) : P s := by
    cases as with
    | nil => exact h
    | cons a as => exact h.1
  intro as
  induction as with
  | nil => exact fun s hs _ => ⟨fun _ => trivial, fun _ => hP s hs⟩
  | cons a as ih =>
    intro s hs hu
    constructor
    · rintro ⟨_,s',hstep,hrest⟩
      have hguard : guard s a := by
        by_contra hg
        exact hbad s a s' hs hu.1 hg hstep (hhead hrest)
      refine ⟨hguard,fun t ht => ?_⟩
      obtain ⟨t',ht',hinv⟩ := hgood s a hs hu.1 hguard
      obtain rfl : t' = t := some_inj.mp (ht'.symm.trans ht)
      obtain rfl : s' = t' := some_inj.mp (hstep.symm.trans ht)
      exact (ih s' hinv (hu.2 s' ht)).mp hrest
    · rintro ⟨hguard,hrest⟩
      obtain ⟨s',hstep,hinv⟩ := hgood s a hs hu.1 hguard
      exact ⟨hP s hs,s',hstep,(ih s' hinv (hu.2 s' hstep)).mpr (hrest s' hstep)⟩

theorem runSteps_guarded (hstep : ∀ s a s', Inv s → guard s a → step s a = some s' → Inv s') :
    ∀ (as : List α) (s s' : σ), Inv s → Guarded step guard s as → runSteps step s as = some s' →
      Inv s' := by
  intro as
  induction as with
  | nil =>
    intro s s' hs _ h
    cases h
    exact hs
  | cons a as ih =>
    intro s s' hs hg h
    obtain ⟨t,ht,hrest⟩ := bind_eq_some_iff.mp h
    exact ih t s' (hstep s a t hs hg.1 ht) (hg.2 t ht) hrest

theorem runSteps_preserves (hstep : ∀ s a s', Inv s → step s a = some s' → Inv s') (as : List α)
    (s s' : σ) (hs : Inv s) (h : runSteps step s as = some s') : Inv s' :=
  runSteps_guarded Inv (fun s a s' hs _ => hstep s a s' hs) as s s' hs (guarded_true as s) h

/-- The rule of the bounded run: if every permitted step lowers a measure, a
guarded run is no longer than the measure falls. -/
theorem runSteps_length_le (μ : σ → ℤ)
    (hinv : ∀ s a s', Inv s → guard s a → step s a = some s' → Inv s')
    (hlt : ∀ s a s', Inv s → guard s a → step s a = some s' → μ s' < μ s) :
    ∀ (as : List α) (s s' : σ), Inv s → Guarded step guard s as → runSteps step s as = some s' →
      as.length+μ s' ≤ μ s := by
  intro as
  induction as with
  | nil =>
    intro s s' _ _ h
    cases h
    simp
  | cons a as ih =>
    intro s s' hs hg h
    obtain ⟨t,ht,hrest⟩ := bind_eq_some_iff.mp h
    have hrun := ih t s' (hinv s a t hs hg.1 ht) (hg.2 t ht) hrest
    have hfall := hlt s a t hs hg.1 ht
    rw [List.length_cons]
    omega

end

theorem guarded_of_runSteps (Inv : σ → Prop) (hwrong : ∀ s a, Inv s → ¬guard s a → step s a = none)
    (hstep : ∀ s a s', Inv s → guard s a → step s a = some s' → Inv s') :
    ∀ (as : List α) (s s' : σ), Inv s → runSteps step s as = some s' → Guarded step guard s as := by
  intro as
  induction as with
  | nil => exact fun _ _ _ _ => trivial
  | cons a as ih =>
    intro s s' hs h
    obtain ⟨t,ht,hrest⟩ := bind_eq_some_iff.mp h
    have hguard : guard s a := by
      by_contra hg
      rw [hwrong s a hs hg] at ht
      cases ht
    refine ⟨hguard,fun u hu => ?_⟩
    obtain rfl : t = u := some_inj.mp (ht.symm.trans hu)
    exact ih t s' (hstep s a t hs hguard ht) hrest

/-- The run of `as` is guarded and leads from `s` to `s'`. -/
structure Reaches (step : σ → α → Option σ) (guard : σ → α → Prop) (s : σ) (as : List α) (s' : σ) :
    Prop where
  guarded : Guarded step guard s as
  run : runSteps step s as = some s'

theorem Reaches.nil (s : σ) : Reaches step guard s [] s := ⟨trivial,rfl⟩

theorem Reaches.cons {s t u : σ} {a : α} {as : List α} (hg : guard s a) (hstep : step s a = some t)
    (h : Reaches step guard t as u) : Reaches step guard s (a :: as) u := by
  refine ⟨⟨hg,fun t' ht' => ?_⟩, ?_⟩
  · obtain rfl : t = t' := some_inj.mp (hstep.symm.trans ht')
    exact h.guarded
  · rw [runSteps,hstep]
    exact h.run

theorem Reaches.append {s t u : σ} {as bs : List α} (h : Reaches step guard s as t)
    (h' : Reaches step guard t bs u) : Reaches step guard s (as ++ bs) u := by
  induction as generalizing s with
  | nil =>
    obtain rfl : s = t := some_inj.mp h.run
    exact h'
  | cons a as ih =>
    obtain ⟨v,hv,hrest⟩ := bind_eq_some_iff.mp h.run
    exact (ih ⟨h.guarded.2 v hv,hrest⟩).cons h.guarded.1 hv

end TinaPackage
