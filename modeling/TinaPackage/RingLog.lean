import TinaPackage.RingSlice

/-! A cyclic buffer of `n` cells that a writer fills and a reader empties, each with a pointer of
its own. All values that were ever put in form a log, of which a front part has been taken out;
the buffer holds the rest. -/
namespace TinaPackage
open List Nat

variable {α : Type*}

/-- The memory after `vals` were copied to the cells from `start` on. -/
def store (mem : ℕ → α) (start : ℕ) (vals : List α) : ℕ → α := fun i =>
  if start ≤ i then vals[i-start]?.getD (mem i) else mem i

@[simp] theorem store_nil (mem : ℕ → α) (start : ℕ) : store mem start [] = mem := by
  funext i
  simp [store]

variable {start i len : ℕ}

section
variable {mem : ℕ → α} {vals : List α}

theorem store_of_lt (h : i < start) : store mem start vals i = mem i := if_neg (not_le.mpr h)

theorem store_of_le (h : start ≤ i) :
    store mem start vals i = vals[i-start]?.getD (mem i) := if_pos h

theorem store_behind (h : start+vals.length ≤ i) : store mem start vals i = mem i := by
  rw [store_of_le (by omega),getElem?_eq_none (by omega),Option.getD_none]

end

variable (mem : ℕ → α)

def load (start len : ℕ) : List α := (range len).map fun k => mem (start+k)

@[simp] theorem length_load (start len : ℕ) : (load mem start len).length = len := by
  rw [load,length_map,length_range]

@[simp] theorem load_zero (start : ℕ) : load mem start 0 = [] := rfl

theorem load_add (mem : ℕ → α) (start a b : ℕ) :
    load mem start (a+b) = load mem start a ++ load mem (start+a) b := by
  rw [load,range_add,map_append,map_map]
  congr 1
  apply map_congr_left
  intro k _
  simp [add_assoc]

theorem load_congr {mem mem' : ℕ → α} (h : ∀ i, start ≤ i → i < start+len → mem' i = mem i) :
    load mem' start len = load mem start len := by
  apply map_congr_left
  intro k hk
  rw [mem_range] at hk
  exact h _ (by omega) (by omega)

theorem load_store_self (start : ℕ) (vals : List α) :
    load (store mem start vals) start vals.length = vals := by
  apply ext_getElem (by simp)
  intro k hk hk'
  simp only [load,getElem_map,getElem_range]
  rw [store_of_le (by omega),Nat.add_sub_cancel_left,getElem?_eq_getElem hk',Option.getD_some]

theorem load_store_apart {mem : ℕ → α} {start' : ℕ} {vals : List α}
    (h : start'+len ≤ start ∨ start+vals.length ≤ start') :
    load (store mem start vals) start' len = load mem start' len := by
  apply load_congr
  intro i hlo hhi
  rcases h with h | h
  · exact store_of_lt (by omega)
  · exact store_behind (by omega)

/-- Copy to the cells from `start` on and, behind the last cell, from the first one on. -/
def storeRing (n start : ℕ) (vals : List α) : ℕ → α :=
  store (store mem start (vals.take (n-start))) 0 (vals.drop (n-start))

section
variable {mem : ℕ → α} {vals : List α}

theorem storeRing_of_le {n : ℕ} (h : start+vals.length ≤ n) :
    storeRing mem n start vals = store mem start vals := by
  rw [storeRing,drop_eq_nil_of_le (by omega),take_of_length_le (by omega),store_nil]

theorem storeRing_apply {n s k : ℕ} (hlen : vals.length ≤ n) (hk : k < n) :
    storeRing mem n (s % n) vals ((s+k) % n) = vals[k]?.getD (mem ((s+k) % n)) := by
  have hs : s % n < n := mod_lt _ (by omega)
  rw [← mod_add_mod]
  generalize s % n = p at hs
  unfold storeRing
  by_cases hwrap : p+k < n
  · rw [mod_eq_of_lt hwrap]
    have hback : (vals.drop (n-p)).length ≤ p+k := by rw [length_drop]; omega
    rw [store_behind (by omega),store_of_le (by omega),Nat.add_sub_cancel_left,
      getElem?_take_of_lt (by omega)]
  · have hmod : (p+k) % n = p+k-n := by
      rw [mod_eq_sub_mod (by omega),mod_eq_of_lt (by omega)]
    rw [hmod,store_of_le (by omega),store_of_lt (by omega),getElem?_drop]
    congr 2
    omega

theorem ringSlice_storeRing {n s : ℕ} (hlen : vals.length ≤ n) :
    ringSlice (storeRing mem n (s % n) vals) n s vals.length = vals := by
  apply ext_getElem?
  intro k
  unfold ringSlice
  by_cases hk : k < vals.length
  · rw [getElem?_map,getElem?_range hk,Option.map_some,
      storeRing_apply hlen (by omega),getElem?_eq_getElem hk,Option.getD_some]
  · rw [getElem?_eq_none (by simp only [length_map,length_range]; omega),
      getElem?_eq_none (by omega)]

theorem ringSlice_storeRing_front {n t : ℕ} (hroom : len+vals.length ≤ n) :
    ringSlice (storeRing mem n ((t+len) % n) vals) n t len = ringSlice mem n t len := by
  apply ringSlice_congr
  intro k hk
  -- the cell is the one `n - len + k` places behind the start of the copy
  have hcell : (t+k) % n = (t+len+(n-len+k)) % n := by
    rw [show t+len+(n-len+k) = t+k+n by omega,add_mod_right]
  rw [hcell,storeRing_apply (by omega) (by omega),getElem?_eq_none (by omega),Option.getD_none]

end

/-- Of the values put in, `taken` have been taken out, and the cells hold the others. Value
number `i` is in the cell `off + i`, counted around. -/
structure RingLog (mem : ℕ → α) (n off : ℕ) (vals : List α) (taken : ℕ) : Prop where
  taken_le : taken ≤ vals.length
  room : vals.length < taken+n
  live : ringSlice mem n (off+taken) (vals.length-taken) = vals.drop taken

namespace RingLog
variable {mem : ℕ → α} {n off taken : ℕ} {vals : List α}

theorem empty (mem : ℕ → α) {n : ℕ} (hn : 0 < n) (off : ℕ) (vals : List α) :
    RingLog mem n off vals vals.length where
  taken_le := le_refl _
  room := by omega
  live := by simp

section
variable (h : RingLog mem n off vals taken)
include h

theorem ringSlice_front {k : ℕ} (hk : taken+k ≤ vals.length) :
    ringSlice mem n (off+taken) k = (vals.drop taken).take k := by
  have hsplit := ringSlice_add mem n (off+taken) k (vals.length-taken-k)
  rw [show k+(vals.length-taken-k) = vals.length-taken by omega,h.live] at hsplit
  rw [hsplit,take_left' (length_ringSlice ..)]

theorem advance {k : ℕ} (hk : taken+k ≤ vals.length) : RingLog mem n off vals (taken+k) where
  taken_le := hk
  room := by have := h.room; omega
  live := by
    have hsplit := ringSlice_add mem n (off+taken) k (vals.length-taken-k)
    rw [show k+(vals.length-taken-k) = vals.length-taken by omega,h.live] at hsplit
    rw [← drop_drop,hsplit,drop_left' (length_ringSlice ..),add_assoc]
    congr 1
    omega

theorem drop_eq_cons (hlt : taken < vals.length) :
    vals.drop taken = mem ((off+taken) % n) :: vals.drop (taken+1) := by
  have hnext := (h.advance (k := 1) hlt).live
  rw [← h.live,← hnext,show vals.length-taken = vals.length-(taken+1)+1 by omega,
    ringSlice_cons,add_assoc]

theorem push (x : α) (hroom : vals.length+1 < taken+n) :
    RingLog (Function.update mem ((off+vals.length) % n) x) n off (vals ++ [x]) taken where
  taken_le := by rw [length_append]; have := h.taken_le; omega
  room := by rw [length_append]; exact hroom
  live := by
    have hle := h.taken_le
    rw [length_append,length_singleton,show vals.length+1-taken = vals.length-taken+1 by omega,
      show off+vals.length = off+taken+(vals.length-taken) by omega,
      ringSlice_write mem (by omega),h.live,drop_append_of_le_length hle]

section
variable {new : List α} (hroom : vals.length+new.length < taken+n)
include hroom

theorem storeRing : RingLog (storeRing mem n ((off+vals.length) % n) new) n off vals taken where
  __ := h
  live := by
    have hle := h.taken_le
    have hpos : off+vals.length = off+taken+(vals.length-taken) := by omega
    rw [hpos,ringSlice_storeRing_front (by omega),h.live]

theorem append (hnew : ringSlice mem n (off+vals.length) new.length = new) :
    RingLog mem n off (vals ++ new) taken where
  taken_le := by rw [length_append]; have := h.taken_le; omega
  room := by rw [length_append]; exact hroom
  live := by
    have hle := h.taken_le
    rw [length_append,show vals.length+new.length-taken =
      vals.length-taken+new.length by omega,ringSlice_add,h.live,
      show off+taken+(vals.length-taken) = off+vals.length by omega,hnew,
      drop_append_of_le_length hle]

end

end

end RingLog

section
variable {n a d r w : ℕ} (hr : r = a % n) (hw : w = (a+d) % n) (hd : d < n)
include hr hw hd

theorem ring_ahead_cases : r+d < n ∧ w = r+d ∨ n ≤ r+d ∧ w+n = r+d := by
  have hlt : r < n := by rw [hr]; exact mod_lt _ (by omega)
  rw [← mod_add_mod,← hr] at hw
  by_cases h : r+d < n
  · exact .inl ⟨h,by rw [hw,mod_eq_of_lt h]⟩
  · refine .inr ⟨by omega,?_⟩
    rw [hw,mod_eq_sub_mod (by omega),mod_eq_of_lt (by omega)]
    omega

theorem ring_distance : (w+n-r) % n = d := by
  rcases ring_ahead_cases hr hw hd with ⟨_,h⟩ | ⟨_,h⟩
  · rw [h,show r+d+n-r = d+n by omega,add_mod_right,mod_eq_of_lt hd]
  · rw [h,Nat.add_sub_cancel_left,mod_eq_of_lt hd]

end

end TinaPackage
