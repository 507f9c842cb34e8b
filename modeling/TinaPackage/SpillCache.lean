import TinaPackage.RingSlice

/-! A cyclic cache of `cap` cells in front of a file. Values are appended to the
cache, and whole pages of the oldest values are moved to the file. -/
namespace TinaPackage
open List

variable {α : Type*}

/-- The file has the first `pages` pages of `vals` and the cells hold the others. -/
structure Spilled (cell : ℕ → α) (cap page : ℕ) (vals : List α) (pages : ℕ)
    (file : List α) : Prop where
  spilled_le : pages*page ≤ vals.length
  fits : vals.length ≤ pages*page+cap
  file_eq : file = vals.take (pages*page)
  live : ringSlice cell cap (pages*page) (vals.length-pages*page) = vals.drop (pages*page)

theorem page_start_add_le {cap page : ℕ} (hdvd : page ∣ cap) (hcap : 0 < cap) (k : ℕ) :
    k*page % cap+page ≤ cap := by
  obtain ⟨c,rfl⟩ := hdvd
  have hc : 0 < c := Nat.pos_of_mul_pos_left hcap
  rw [Nat.mul_comm k page,Nat.mul_mod_mul_left]
  calc page*(k % c)+page = page*(k % c+1) := (Nat.mul_succ page (k % c)).symm
    _ ≤ page*c := Nat.mul_le_mul_left page (Nat.mod_lt k hc)

theorem ringSlice_of_le (cell : ℕ → α) {cap start len : ℕ} (h : start % cap+len ≤ cap) :
    ringSlice cell cap start len = (List.range len).map fun j => cell (start % cap+j) := by
  apply map_congr_left
  intro j hj
  have hlt : j < len := List.mem_range.mp hj
  rw [← Nat.mod_add_mod,Nat.mod_eq_of_lt (by omega)]

namespace Spilled
variable {cell cell' : ℕ → α} {cap page pages : ℕ} {vals file : List α}

theorem empty (cell : ℕ → α) (cap page : ℕ) : Spilled cell cap page [] 0 [] where
  spilled_le := by simp
  fits := by simp
  file_eq := by simp
  live := by simp

section
variable (h : Spilled cell cap page vals pages file)
include h

theorem congr (hcap : 0 < cap)
    (hcell : ∀ j < cap, cell' j = cell j) : Spilled cell' cap page vals pages file where
  __ := h
  live := by
    rw [← h.live]
    apply ringSlice_congr
    intro k _
    exact hcell _ (Nat.mod_lt _ hcap)

theorem congr_live (hcell : ∀ k < vals.length-pages*page,
      cell' ((pages*page+k) % cap) = cell ((pages*page+k) % cap)) :
    Spilled cell' cap page vals pages file where
  __ := h
  live := by
    rw [← h.live]
    exact ringSlice_congr cell cap _ hcell

theorem write_free (hroom : vals.length < pages*page+cap) (x : α) :
    Spilled (Function.update cell (vals.length % cap) x) cap page vals pages file := by
  have hle := h.spilled_le
  apply h.congr_live
  intro k hk
  have hne : (pages*page+k) % cap ≠ (pages*page+(vals.length-pages*page)) % cap :=
    ring_index_ne hk (by omega)
  rw [Nat.add_sub_cancel' hle] at hne
  exact Function.update_of_ne hne x cell

theorem push (hroom : vals.length < pages*page+cap) (x : α) :
    Spilled (Function.update cell (vals.length % cap) x) cap page (vals ++ [x]) pages file where
  spilled_le := by
    have := h.spilled_le
    simp only [length_append,length_singleton]
    omega
  fits := by
    simp only [length_append,length_singleton]
    omega
  file_eq := by rw [take_append_of_le_length h.spilled_le,h.file_eq]
  live := by
    have hle := h.spilled_le
    have hpos : vals.length = pages*page+(vals.length-pages*page) := by omega
    have hlen : (vals ++ [x]).length-pages*page = (vals.length-pages*page)+1 := by
      simp only [length_append,length_singleton]
      omega
    rw [hlen,drop_append_of_le_length hle,← h.live]
    conv_lhs => rw [hpos]
    rw [Nat.add_sub_cancel_left]
    exact ringSlice_write cell (by omega) x

theorem spill (hfull : (pages+1)*page ≤ vals.length) : Spilled cell cap page vals (pages+1)
      (file ++ ringSlice cell cap (pages*page) page) := by
  have hfits := h.fits
  have hmul : (pages+1)*page = pages*page+page := Nat.succ_mul pages page
  have hlen : vals.length-pages*page = page+(vals.length-(pages+1)*page) := by omega
  have hlive := h.live
  rw [hlen,ringSlice_add] at hlive
  refine ⟨hfull,by omega,?_,?_⟩
  · rw [hmul,take_add,← hlive,take_left' (length_ringSlice ..),h.file_eq]
  · rw [hmul,← drop_drop,← hlive,drop_left' (length_ringSlice ..),← hmul]

theorem getElem?_eq_cell {i : ℕ}
    (hle : pages*page ≤ i) (hlt : i < vals.length) : vals[i]? = some (cell (i % cap)) := by
  obtain ⟨k,rfl⟩ := Nat.exists_eq_add_of_le hle
  have hk : k < vals.length-pages*page := by omega
  have hlive := congrArg (fun l => l[k]?) h.live
  simp only [List.getElem?_drop] at hlive
  rw [← hlive,ringSlice,List.getElem?_map,List.getElem?_range hk]
  rfl

theorem length_file : file.length = pages*page := by
  rw [h.file_eq,length_take,Nat.min_eq_left h.spilled_le]

theorem file_append_live :
    file ++ ringSlice cell cap (pages*page) (vals.length-pages*page) = vals := by
  rw [h.file_eq,h.live,take_append_drop]

end

end Spilled

end TinaPackage
