import Mathlib

/-! Files behind a table of operations that take bytes at the place where they stand, and what
is assumed of one that never fails. -/
namespace TinaPackage
open List

structure WriterOps (φ : Type*) where
  write : φ → List UInt8 → ℤ × φ
  seek : φ → ℤ → ℤ → ℤ × φ
  tell : φ → ℤ

structure WriterOps.Reliable {φ : Type*} (ops : WriterOps φ) : Prop where
  write_ret : ∀ f bytes, (ops.write f bytes).1 = bytes.length
  write_nil : ∀ f, (ops.write f []).2 = f
  write_append : ∀ f a b, (ops.write (ops.write f a).2 b).2 = (ops.write f (a ++ b)).2

structure FileImage where
  content : List UInt8
  pos : ℕ
  deriving DecidableEq

namespace FileImage

def padTo (content : List UInt8) (n : ℕ) : List UInt8 :=
  content.take n ++ List.replicate (n-content.length) 0

@[simp] theorem length_padTo (content : List UInt8) (n : ℕ) : (padTo content n).length = n := by
  rw [padTo,length_append,length_take,length_replicate]
  omega

def write (f : FileImage) (bytes : List UInt8) : FileImage :=
  if bytes = [] then f
  else ⟨padTo f.content f.pos ++ (bytes ++ f.content.drop (f.pos+bytes.length)), f.pos+bytes.length⟩

theorem write_append (f : FileImage) (a b : List UInt8) :
    (f.write a).write b = f.write (a ++ b) := by
  by_cases ha : a = []
  · simp [write,ha]
  by_cases hb : b = []
  · simp [write,hb]
  have hab : a ++ b ≠ [] := by simp [ha]
  have hlen : (padTo f.content f.pos ++ (a ++ f.content.drop (f.pos+a.length))).length =
      f.pos+(a.length+(f.content.length-(f.pos+a.length))) := by simp
  have hpad : padTo (padTo f.content f.pos ++ (a ++ f.content.drop (f.pos+a.length)))
      (f.pos+a.length) = padTo f.content f.pos ++ a := by
    rw [padTo,hlen,← append_assoc,take_left' (by simp)]
    have h0 : f.pos+a.length -
        (f.pos+(a.length+(f.content.length-(f.pos+a.length)))) = 0 := by omega
    rw [h0,replicate_zero,append_nil]
  have hdrop : (padTo f.content f.pos ++ (a ++ f.content.drop (f.pos+a.length))).drop
      (f.pos+a.length+b.length) = f.content.drop (f.pos+(a ++ b).length) := by
    rw [← append_assoc,drop_append,drop_eq_nil_of_le (by simp),nil_append,
      length_append,length_padTo,Nat.add_sub_cancel_left,drop_drop,length_append,Nat.add_assoc]
  unfold write
  simp only [ha,hb,hab,if_false,hpad,hdrop]
  simp [Nat.add_assoc]

def seek (f : FileImage) (offset whence : ℤ) : ℤ × FileImage :=
  let target := offset+(if whence = 0 then 0 else if whence = 1 then f.pos else f.content.length)
  if 0 ≤ target then (0, { f with pos := target.toNat }) else (-1, f)

def ops : WriterOps FileImage where
  write f bytes := (bytes.length, f.write bytes)
  seek := seek
  tell f := f.pos

theorem ops_reliable : ops.Reliable where
  write_ret _ _ := rfl
  write_nil _ := rfl
  write_append := write_append

end FileImage

end TinaPackage
