import Mathlib

/-! Loops that store to memory: the stores in their order, what a cell holds
after them, and loops that carry a pointer along. -/
namespace TinaPackage
open List

variable {A β γ σ : Type*}

section Stores
variable [DecidableEq A]

def stores (m : A → β) (ws : List (A × β)) : A → β :=
  ws.foldl (fun m w => Function.update m w.1 w.2) m

@[simp] theorem stores_nil (m : A → β) : stores m [] = m := rfl

@[simp] theorem stores_cons (m : A → β) (w : A × β) (ws : List (A × β)) :
    stores m (w :: ws) = stores (Function.update m w.1 w.2) ws := rfl

theorem stores_append (m : A → β) (ws ws' : List (A × β)) :
    stores m (ws ++ ws') = stores (stores m ws) ws' := foldl_append

variable {m : A → β} {ws : List (A × β)}

theorem stores_of_notMem {a : A} (h : ∀ v, (a, v) ∉ ws) : stores m ws a = m a := by
  induction ws generalizing m with
  | nil => rfl
  | cons w ws ih =>
    have hne : a ≠ w.1 := by
      rintro rfl
      exact h w.2 (mem_cons_self ..)
    rw [stores_cons,ih fun v hv => h v (mem_cons_of_mem _ hv),Function.update_of_ne hne]

theorem stores_of_mem {a : A} {v : β} (hmem : (a, v) ∈ ws) (hval : ∀ v', (a, v') ∈ ws → v' = v) :
    stores m ws a = v := by
  induction ws generalizing m with
  | nil => exact absurd hmem not_mem_nil
  | cons w ws ih =>
    have hrest : ∀ v', (a, v') ∈ ws → v' = v := fun v' hv => hval v' (mem_cons_of_mem _ hv)
    rw [stores_cons]
    by_cases hlater : (a, v) ∈ ws
    · exact ih hlater hrest
    · obtain rfl : (a, v) = w := (mem_cons.mp hmem).resolve_right hlater
      have hnone : ∀ v', (a, v') ∉ ws := by
        intro v' hv
        exact hlater (hrest v' hv ▸ hv)
      rw [stores_of_notMem hnone,Function.update_self]

end Stores

/-- What the turns of `for (k = 0; k < n; k++)` give, in order. -/
def loop (n : ℕ) (f : ℕ → List γ) : List γ := (range n).flatMap f

variable {n : ℕ} {f : ℕ → List γ}

@[simp] theorem mem_loop {x : γ} : x ∈ loop n f ↔ ∃ k < n, x ∈ f k := by
  simp [loop]

theorem loop_succ (n : ℕ) (f : ℕ → List γ) : loop (n+1) f = loop n f ++ f n := by
  simp [loop,range_succ]

/-- The same for a loop that is left at the first `k` without `go k`. -/
def loopWhile (n : ℕ) (go : ℕ → Bool) (f : ℕ → List γ) : List γ :=
  ((range n).takeWhile go).flatMap f

theorem mem_loopWhile {go : ℕ → Bool} {x : γ} (hgo : ∀ k l, k ≤ l → go l = true → go k = true) :
    x ∈ loopWhile n go f ↔ ∃ k < n, go k = true ∧ x ∈ f k := by
  have hmem : ∀ k, k ∈ (range n).takeWhile go ↔ k < n ∧ go k = true := by
    induction n with
    | zero => simp
    | succ n ih =>
      intro k
      rw [range_succ,takeWhile_append]
      split
      · rename_i hall
        have hfull : (range n).takeWhile go = range n :=
          ( takeWhile_prefix _).eq_of_length hall
        rw [mem_append,mem_range]
        by_cases hn : go n = true
        · rw [takeWhile_cons_of_pos hn,takeWhile_nil,mem_singleton]
          constructor
          · rintro (hk | rfl)
            · exact ⟨by omega,hgo k n (by omega) hn⟩
            · exact ⟨by omega,hn⟩
          · rintro ⟨hk,-⟩
            omega
        · rw [takeWhile_cons_of_neg hn,or_iff_left not_mem_nil]
          constructor
          · intro hk
            have hk' : k ∈ (range n).takeWhile go := by
              rw [hfull]
              exact mem_range.mpr hk
            exact ⟨by omega,((ih k).mp hk').2⟩
          · rintro ⟨hk,hgk⟩
            rcases Nat.lt_succ_iff_lt_or_eq.mp hk with hlt | rfl
            · exact hlt
            · exact absurd hgk hn
      · rename_i hnot
        rw [ih k]
        constructor
        · exact fun hk => ⟨by omega,hk.2⟩
        · rintro ⟨hk,hgk⟩
          rcases Nat.lt_succ_iff_lt_or_eq.mp hk with hlt | rfl
          · exact ⟨hlt,hgk⟩
          · refine absurd ?_ hnot
            have hall : ∀ l ∈ range k, go l = true :=
              fun l hl => hgo l k (Nat.le_of_lt (mem_range.mp hl)) hgk
            rw [takeWhile_eq_self_iff.mpr hall]
  simp [loopWhile,hmem,and_assoc]

/-- `for (k = 0; k < n; k++)` with a body that changes the state. -/
def forLoop (n : ℕ) (f : ℕ → σ → σ) (s : σ) : σ := (range n).foldl (fun s k => f k s) s

theorem forLoop_succ (n : ℕ) (f : ℕ → σ → σ) (s : σ) : forLoop (n+1) f s = f n (forLoop n f s) := by
  simp [forLoop,range_succ]

theorem forLoop_advance [DecidableEq A] {n c : ℕ} {f : ℕ → (A → β) × ℕ → (A → β) × ℕ}
    (ws : ℕ → ℕ → List (A × β))
    (h : ∀ k < n, ∀ m p, f k (m, p) = (stores m (ws k p), p+c)) (m : A → β) (p : ℕ) :
    forLoop n f (m, p) = (stores m (loop n fun k => ws k (p+k*c)), p+n*c) := by
  induction n with
  | zero => simp [forLoop,loop]
  | succ n ih =>
    rw [forLoop_succ,ih fun k hk => h k (by omega),h n (by omega),loop_succ,stores_append,
      Nat.succ_mul,Nat.add_assoc]

theorem raster_div_mod {s x : ℕ} (a : ℕ) (hx : x < s) : (a*s+x)/s = a ∧ (a*s+x) % s = x := by
  have hpos : 0 < s := Nat.zero_lt_of_lt hx
  rw [Nat.add_comm,Nat.add_mul_div_right _ _ hpos,Nat.add_mul_mod_self_right,
    Nat.div_eq_of_lt hx,Nat.mod_eq_of_lt hx,Nat.zero_add]
  exact ⟨rfl,rfl⟩

theorem raster_inj {s a b x y : ℕ} (hx : x < s) (hy : y < s) (h : a*s+x = b*s+y) :
    a = b ∧ x = y := by
  obtain ⟨hdiv,hmod⟩ := raster_div_mod a hx
  rw [h,(raster_div_mod b hy).1] at hdiv
  rw [h,(raster_div_mod b hy).2] at hmod
  exact ⟨hdiv.symm,hmod.symm⟩

end TinaPackage
