import Mathlib

/-! Lists that are compared or changed at single entries, and sums of which one term changes. -/
namespace TinaPackage
open List

variable {α β γ : Type*}

theorem map_eq_self {f : α → α} {xs : List α} (h : ∀ x ∈ xs, f x = x) : xs.map f = xs := by
  rw [map_congr_left h,map_id']

theorem take_append_take (n : ℕ) (xs ys : List α) :
    (xs.take n ++ ys).take n = (xs ++ ys).take n := by
  rcases Nat.le_total xs.length n with hl | hl
  · rw [take_of_length_le hl]
  · -- there is no place left for `ys`
    rw [take_append_of_le_length (by simp [hl]),take_append_of_le_length hl,take_take,Nat.min_self]

theorem perm_inner (as bs cs ds : List α) (x : α) :
    (as ++ (bs ++ x :: cs) ++ ds).Perm (x :: (as ++ (bs ++ cs) ++ ds)) := by
  simp only [append_assoc,cons_append]
  rw [← append_assoc,← append_assoc as]
  exact perm_middle

section Forall₂
variable {R : α → β → Prop} {as : List α} {bs : List β} (h : List.Forall₂ R as bs)
include h

theorem map_eq_map_of_forall₂ {f : α → γ} {g : β → γ} (hfg : ∀ a b, R a b → f a = g b) :
    as.map f = bs.map g := by
  rw [← forall₂_eq_eq_eq,forall₂_map_left_iff,forall₂_map_right_iff]
  exact h.imp hfg

theorem forall₂_getElem? {i : ℕ} {a : α} {b : β} (ha : as[i]? = some a) (hb : bs[i]? = some b) :
    R a b := by
  obtain ⟨hi,rfl⟩ := List.getElem?_eq_some_iff.mp ha
  obtain ⟨hj,rfl⟩ := List.getElem?_eq_some_iff.mp hb
  exact (forall₂_iff_get.mp h).2 i hi hj

end Forall₂

/-! Entries that are told apart by a key. -/
section Key
variable (key : α → ℕ) {x : α} {xs ys : List α}

theorem sublist_split : (xs ++ ys).Sublist (xs ++ x :: ys) := (sublist_cons_self ..).append_left _

theorem key_ne_of_nodup (h : ((xs ++ x :: ys).map key).Nodup) {y : α} (hy : y ∈ xs ++ ys) :
    key y ≠ key x := by
  rw [map_append,map_cons,nodup_middle,nodup_cons,← map_append] at h
  exact fun he => h.1 (he ▸ mem_map_of_mem hy)

variable (h : ∀ y ∈ xs ++ ys, key y ≠ key x)
include h

theorem map_key (f : α → α) :
    (xs ++ x :: ys).map (fun y => if key y = key x then f y else y) = xs ++ f x :: ys := by
  rw [map_append,map_cons,if_pos rfl,map_eq_self fun y hy => if_neg (h y (mem_append_left _ hy)),
    map_eq_self fun y hy => if_neg (h y (mem_append_right _ hy))]

theorem filter_key : ((xs ++ x :: ys).filter fun y => key y ≠ key x) = xs ++ ys := by
  rw [filter_append,filter_cons_of_neg (by simp),← filter_append,
    filter_eq_self.mpr fun y hy => decide_eq_true (h y hy)]

end Key

theorem findSome?_range_of_unique {n k : ℕ} {g : ℕ → Option β} {b : β} (hk : k < n)
    (hb : g k = some b) (honly : ∀ j < n, j ≠ k → g j = none) :
    (range n).findSome? g = some b := by
  cases hf : (range n).findSome? g with
  | none =>
    have hnone := findSome?_eq_none_iff.mp hf k (mem_range.mpr hk)
    rw [hb] at hnone
    cases hnone
  | some b' =>
    obtain ⟨j,hj,hjb⟩ := exists_of_findSome?_eq_some hf
    by_cases hjk : j = k
    · rw [← hjb,hjk,hb]
    · rw [honly j (mem_range.mp hj) hjk] at hjb
      cases hjb

/-- A sum in which only the term of `i` changes, as that of a step of thread `i`. -/
theorem sum_add_of_eq {M : Type*} [AddCommMonoid M] [DecidableEq α] {s : Finset α} {i : α}
    (hi : i ∈ s) {f g : α → M} (h : ∀ j, j ≠ i → g j = f j) :
    ∑ j ∈ s, g j+f i = ∑ j ∈ s, f j+g i := by
  rw [← Finset.add_sum_erase s g hi,← Finset.add_sum_erase s f hi,
    Finset.sum_congr rfl fun j hj => h j (Finset.ne_of_mem_erase hj)]
  ac_rfl

end TinaPackage
