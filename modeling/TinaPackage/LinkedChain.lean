import Mathlib

/-! Singly linked lists threaded through a shared `next` field. -/
namespace TinaPackage
open Function List

variable {ι : Type*}

/-- Following `next` from `head` visits exactly the listed nodes and then ends. -/
def Chain (next : ι → Option ι) : Option ι → List ι → Prop
  | h, [] => h = none
  | h, x :: xs => h = some x ∧ Chain next (next x) xs

/-- The walk to the last node; `none` when `fuel` links did not reach the end. -/
def walkLast (next : ι → Option ι) : ℕ → ι → Option ι
  | 0, _ => none
  | n+1, x =>
    match next x with
    | none => some x
    | some y => walkLast next n y

/-- The nodes a walk of at most `fuel` links visits. -/
def walkList (next : ι → Option ι) : ℕ → Option ι → List ι
  | n+1, some x => x :: walkList next n (next x)
  | _, _ => []

variable {next : ι → Option ι} {h : Option ι} {xs : List ι} {n : ℕ}

theorem walkList_eq (hc : Chain next h xs) (hn : xs.length ≤ n) : walkList next n h = xs := by
  induction xs generalizing h n with
  | nil =>
    rw [show h = none from hc]
    cases n <;> rfl
  | cons x xs ih =>
    cases n with
    | zero => simp at hn
    | succ n =>
      rw [hc.1,walkList,ih hc.2 (by simpa using hn)]

theorem chain_unique {ys : List ι} (hx : Chain next h xs) (hy : Chain next h ys) : xs = ys := by
  induction xs generalizing h ys with
  | nil =>
    cases ys with
    | nil => rfl
    | cons y ys => exact absurd (hx.symm.trans hy.1) (by simp)
  | cons x xs ih =>
    cases ys with
    | nil => exact absurd (hy.symm.trans hx.1) (by simp)
    | cons y ys =>
      have he : x = y := Option.some.inj (hx.1.symm.trans hy.1)
      subst he
      rw [ih hx.2 hy.2]

theorem chain_none (hc : Chain next none xs) : xs = [] := by
  cases xs with
  | nil => rfl
  | cons x xs => exact absurd hc.1 (by simp)

theorem chain_congr {next' : ι → Option ι} (he : ∀ x ∈ xs, next' x = next x)
    (hx : Chain next h xs) : Chain next' h xs := by
  induction xs generalizing h with
  | nil => exact hx
  | cons x xs ih =>
    refine ⟨hx.1,?_⟩
    rw [he x (mem_cons_self ..)]
    exact ih (fun y hy => he y (mem_cons_of_mem _ hy)) hx.2

theorem chain_suffix {ys : List ι} {x : ι} (hc : Chain next h (xs ++ x :: ys)) :
    Chain next (next x) ys := by
  induction xs generalizing h with
  | nil => exact hc.2
  | cons _ xs ih => exact ih hc.2

/-- A chain that ends visits no node twice: both visits would be followed by
the same nodes. -/
theorem chain_nodup (hc : Chain next h xs) : xs.Nodup := by
  induction xs generalizing h with
  | nil => exact nodup_nil
  | cons x xs ih =>
    refine nodup_cons.mpr ⟨?_,ih hc.2⟩
    intro hm
    obtain ⟨as,bs,he⟩ := append_of_mem hm
    have hrest := hc.2
    have htail : Chain next (next x) bs := chain_suffix (he ▸ hrest)
    have hlen := congrArg length (he ▸ chain_unique hrest htail)
    simp at hlen
    omega

theorem chain_length_le {next : ℕ → Option ℕ} {h : Option ℕ} {xs : List ℕ} (hc : Chain next h xs)
    (hn : ∀ x ∈ xs, x < n) : xs.length ≤ n := by
  have hs : xs.Subperm (range n) :=
    subperm_of_subset (chain_nodup hc) fun x hx => mem_range.mpr (hn x hx)
  simpa using hs.length_le

theorem walkLast_chain {x : ι} (hc : Chain next (some x) (x :: xs)) (hn : xs.length < n) :
    walkLast next n x = some ((x :: xs).getLast (cons_ne_nil x xs)) := by
  induction n generalizing x xs with
  | zero => omega
  | succ n ih =>
    cases xs with
    | nil =>
      have hnone : next x = none := hc.2
      simp [walkLast,hnone]
    | cons y ys =>
      have hnext : next x = some y := hc.2.1
      simp only [walkLast,hnext]
      rw [ih (hnext ▸ hc.2) (by simpa using hn)]
      rfl

section Update
variable [DecidableEq ι]

section
variable {next : ι → Option ι} {h : Option ι} {xs : List ι} {p : ι}

theorem chain_update_of_notMem (hp : p ∉ xs) (v : Option ι) (hc : Chain next h xs) :
    Chain (update next p v) h xs := by
  refine chain_congr (fun x hx => ?_) hc
  have hne : x ≠ p := fun he => hp (he ▸ hx)
  exact update_of_ne hne v next

theorem chain_link_last (hc : Chain next h xs) (hne : xs ≠ []) (hp : p ∉ xs) :
    Chain (update (update next (xs.getLast hne) (some p)) p none) h (xs ++ [p]) := by
  induction xs generalizing h with
  | nil => exact absurd rfl hne
  | cons x xs ih =>
    have hxp : x ≠ p := fun he => hp (he ▸ mem_cons_self ..)
    have hpx : p ∉ xs := fun hm => hp (mem_cons_of_mem _ hm)
    refine ⟨hc.1,?_⟩
    cases xs with
    | nil =>
      refine ⟨?_,?_⟩
      · simp [update_of_ne hxp]
      · simp [Chain]
    | cons y ys =>
      have hnd := chain_nodup hc
      have hxl : x ≠ (y :: ys).getLast (cons_ne_nil y ys) := by
        intro he
        exact (nodup_cons.mp hnd).1 (he ▸ getLast_mem _)
      have ht := ih hc.2 (cons_ne_nil y ys) hpx
      rw [getLast_cons (cons_ne_nil y ys),update_of_ne hxp,update_of_ne hxl]
      exact ht

end

end Update

end TinaPackage
