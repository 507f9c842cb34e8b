import Mathlib

/-! Reading a cyclic buffer. -/
namespace TinaPackage
open Function List

variable {α : Type*}

/-- The `len` cells from position `start` on, in a buffer of `n` cells. -/
def ringSlice (mem : ℕ → α) (n start len : ℕ) : List α :=
  (range len).map fun k => mem ((start+k) % n)

section Slice
variable (mem : ℕ → α) (n start : ℕ)

@[simp] theorem length_ringSlice (len : ℕ) : (ringSlice mem n start len).length = len := by
  simp [ringSlice]

@[simp] theorem ringSlice_zero : ringSlice mem n start 0 = [] := rfl

theorem ringSlice_add (a b : ℕ) :
    ringSlice mem n start (a+b) = ringSlice mem n start a ++ ringSlice mem n (start+a) b := by
  unfold ringSlice
  rw [range_add,map_append,map_map]
  congr 1
  apply map_congr_left
  intro k _
  simp [add_assoc]

theorem ringSlice_succ (len : ℕ) : ringSlice mem n start (len+1) =
      ringSlice mem n start len ++ [mem ((start+len) % n)] := by
  rw [ringSlice_add]
  rfl

theorem ringSlice_cons (len : ℕ) :
    ringSlice mem n start (len+1) = mem (start % n) :: ringSlice mem n (start+1) len := by
  rw [add_comm len 1,ringSlice_add]
  rfl

@[simp] theorem ringSlice_mod (len : ℕ) :
    ringSlice mem n (start % n) len = ringSlice mem n start len := by
  unfold ringSlice
  simp

theorem ringSlice_congr {mem' : ℕ → α} {len : ℕ}
    (h : ∀ k < len, mem' ((start+k) % n) = mem ((start+k) % n)) :
    ringSlice mem' n start len = ringSlice mem n start len := by
  apply map_congr_left
  intro k hk
  exact h k (mem_range.mp hk)

end Slice

theorem ring_index_ne {n start i j : ℕ} (hij : i < j) (hj : j < i+n) :
    (start+i) % n ≠ (start+j) % n := by
  intro h
  have hd : n ∣ (start+j)-(start+i) := (Nat.modEq_iff_dvd' (by omega)).mp h
  have hle := Nat.le_of_dvd (by omega) hd
  omega

variable (mem : ℕ → α) {n start len : ℕ}

theorem ringSlice_write (hlen : len < n) (x : α) :
    ringSlice (update mem ((start+len) % n) x) n start (len+1) =
      ringSlice mem n start len ++ [x] := by
  rw [ringSlice_succ,update_self]
  congr 1
  apply ringSlice_congr
  intro k hk
  have hne : (start+k) % n ≠ (start+len) % n := ring_index_ne hk (by omega)
  exact update_of_ne hne x mem

/-- The buffer `mem` after `vals` have been written to it one after the other, from position 0 on
and over older values when there are more than `n`. -/
def ringWritten (n : ℕ) (vals : List α) : ℕ → α :=
  vals.zipIdx.foldl (fun cell p => update cell (p.2 % n) p.1) mem

theorem ringWritten_concat (n : ℕ) (vals : List α) (x : α) :
    ringWritten mem n (vals ++ [x]) = update (ringWritten mem n vals) (vals.length % n) x := by
  unfold ringWritten
  rw [zipIdx_append,foldl_append,zero_add]
  rfl

theorem ringWritten_getElem? (vals : List α) {i : ℕ}
    (hi : i < vals.length) (hlast : vals.length ≤ i+n) :
    vals[i]? = some (ringWritten mem n vals (i % n)) := by
  induction vals using reverseRecOn with
  | nil => simp at hi
  | append_singleton vals x ih =>
    rw [length_append,length_singleton] at hi hlast
    rw [ringWritten_concat]
    by_cases heq : i = vals.length
    · rw [heq,update_self,getElem?_concat_length]
    · have hne : (0+i) % n ≠ (0+vals.length) % n := ring_index_ne (by omega) (by omega)
      rw [zero_add,zero_add] at hne
      rw [update_of_ne hne,getElem?_append_left (by omega)]
      exact ih (by omega) (by omega)

theorem ringSlice_ringWritten {vals : List α}
    (hlen : start+len ≤ vals.length) (hlast : vals.length ≤ start+n) :
    ringSlice (ringWritten mem n vals) n start len = (vals.drop start).take len := by
  apply ext_getElem?
  intro k
  unfold ringSlice
  by_cases hk : k < len
  · have hslot := ringWritten_getElem? mem (n := n) vals (i := start+k) (by omega) (by omega)
    rw [getElem?_take_of_lt hk,getElem?_drop,hslot,getElem?_map,getElem?_range hk,Option.map_some]
  · rw [getElem?_eq_none (by simp only [length_map,length_range]; omega),
      getElem?_eq_none (by simp only [length_take]; omega)]

theorem wrap_succ {p : ℕ} (hp : p < n) : (if p+1 ≥ n then 0 else p+1) = (p+1) % n := by
  split
  · have he : p+1 = n := by omega
    rw [he,Nat.mod_self]
  · rw [Nat.mod_eq_of_lt (by omega)]

theorem wrap_at_end {p : ℕ} (hp : p ≤ n) : (if p = n then 0 else p) = p % n := by
  split
  · next h => rw [h,Nat.mod_self]
  · rw [Nat.mod_eq_of_lt (by omega)]

theorem wrap_add {p k : ℕ} (hp : p < n) (hk : k ≤ n) :
    (if p+k ≥ n then p+k-n else p+k) = (p+k) % n := by
  split
  · rw [Nat.mod_eq_sub_mod (by omega),Nat.mod_eq_of_lt (by omega)]
  · rw [Nat.mod_eq_of_lt (by omega)]

theorem wrap_pred {p q : ℕ} (hp : p = (q+1) % n) (hn : 0 < n) :
    (if p = 0 then n-1 else p-1) = q % n := by
  have hq := Nat.mod_lt q hn
  rw [← Nat.mod_add_mod,← wrap_succ hq] at hp
  split at hp
  · rw [if_pos hp]
    omega
  · rw [if_neg (by omega)]
    omega

end TinaPackage
