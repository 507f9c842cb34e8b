import Mathlib

/-! Byte streams behind a table of operations, what is assumed of one that delivers fixed
data, and reading such data piece by piece. -/
namespace TinaPackage
open List

/-- A read returns a number and stores bytes, a seek goes to an absolute offset. -/
structure ByteStreamOps (σ : Type*) where
  read : σ → ℕ → ℤ × List UInt8 × σ
  seek : σ → ℤ → ℤ × σ
  tell : σ → ℤ
  eos : σ → Bool

namespace ByteStreamOps
variable {σ : Type*} (ops : ByteStreamOps σ) (data : List UInt8) (pos : σ → ℕ)

/-- Reads deliver what was asked for, up to the end of the data. -/
structure FullReads : Prop where
  read_ret : ∀ m n, (ops.read m n).1 = ((data.drop (pos m)).take n).length
  read_bytes : ∀ m n, (ops.read m n).2.1 = (data.drop (pos m)).take n
  pos_read : ∀ m n, pos (ops.read m n).2.2 = pos m+((data.drop (pos m)).take n).length

/-- In addition the stream can go to every place of the data, and knows where it is. A seek
behind the end fails, or there is nothing to read afterwards. -/
structure Seekable : Prop extends FullReads ops data pos where
  seek_ret : ∀ m (o : ℕ), o ≤ data.length → (ops.seek m o).1 = 0
  pos_seek : ∀ m (o : ℕ), o ≤ data.length → pos (ops.seek m o).2 = o
  seek_behind : ∀ m (o : ℕ), data.length < o →
    (ops.seek m o).1 < 0 ∨ data.length ≤ pos (ops.seek m o).2
  tell_eq : ∀ m, ops.tell m = pos m

end ByteStreamOps

def memoryOps (data : List UInt8) : ByteStreamOps ℕ where
  read pos n :=
    let bytes := (data.drop pos).take n
    (bytes.length, bytes, pos+bytes.length)
  seek pos o := if 0 ≤ o ∧ o ≤ data.length then (0, o.toNat) else (-1, pos)
  tell pos := pos
  eos pos := data.length ≤ pos

theorem memoryOps_seekable (data : List UInt8) : (memoryOps data).Seekable data id where
  read_ret _ _ := rfl
  read_bytes _ _ := rfl
  pos_read _ _ := rfl
  seek_ret m o h := by simp [memoryOps,h]
  pos_seek m o h := by simp [memoryOps,h]
  seek_behind m o h := by simp [memoryOps,Nat.not_le.mpr h]
  tell_eq _ := rfl

section Pieces
variable {σ α : Type*}

theorem take_append_take_drop (l : List α) (p n m : ℕ) :
    (l.drop p).take n ++ (l.drop (p+((l.drop p).take n).length)).take m =
      (l.drop p).take (n+m) := by
  rw [take_add,← drop_drop]
  congr 2
  by_cases h : n ≤ (l.drop p).length
  · rw [length_take_of_le h]
  · have hle : (l.drop p).length ≤ n := Nat.le_of_not_le h
    rw [take_of_length_le hle,drop_length,drop_eq_nil_of_le hle]

def readAll (read : σ → ℕ → Option (List α × σ)) : σ → List ℕ → Option (List α × σ)
  | s, [] => some ([], s)
  | s, n :: ns => (read s n).bind fun r => (readAll read r.2 ns).map fun t => (r.1 ++ t.1, t.2)

theorem readAll_eq_take {read : σ → ℕ → Option (List α × σ)} {whole : List α}
    (At : σ → ℕ → Prop) {good : ℕ → Prop}
    (hread : ∀ s p n, At s p → good n → ∃ s', read s n = some ((whole.drop p).take n, s') ∧
      At s' (p+((whole.drop p).take n).length)) :
    ∀ ns s p, At s p → (∀ n ∈ ns, good n) →
      ∃ s', readAll read s ns = some ((whole.drop p).take ns.sum, s') := by
  intro ns
  induction ns with
  | nil => exact fun s p _ _ => ⟨s,by simp [readAll]⟩
  | cons n ns ih =>
    intro s p hs hgood
    obtain ⟨s₁,h₁,hat⟩ := hread s p n hs (hgood n mem_cons_self)
    obtain ⟨s₂,h₂⟩ := ih s₁ _ hat fun m hm => hgood m (mem_cons_of_mem n hm)
    refine ⟨s₂,?_⟩
    simp only [readAll,h₁,h₂,Option.bind_some,Option.map_some,sum_cons]
    rw [take_append_take_drop]

end Pieces

end TinaPackage
