import Mathlib

/-! Big-endian numbers in byte sequences. -/
namespace TinaPackage
open List

/-- The low `8 * n` bits of `x`, most significant byte first. -/
def bigEndian : ℕ → ℕ → List UInt8
  | 0, _ => []
  | n + 1, x => bigEndian n (x/256) ++ [UInt8.ofNat x]

def be16 : ℕ → List UInt8 := bigEndian 2
def be24 : ℕ → List UInt8 := bigEndian 3
def be32 : ℕ → List UInt8 := bigEndian 4

def ofBigEndian (bs : List UInt8) : ℕ :=
  bs.foldl (fun acc b => acc*256+b.toNat) 0

@[simp] theorem length_bigEndian (n x : ℕ) : (bigEndian n x).length = n := by
  induction n generalizing x with
  | zero => rfl
  | succ n ih => rw [bigEndian,length_append,ih,length_singleton]

@[simp] theorem length_be16 (x : ℕ) : (be16 x).length = 2 := length_bigEndian 2 x
@[simp] theorem length_be24 (x : ℕ) : (be24 x).length = 3 := length_bigEndian 3 x
@[simp] theorem length_be32 (x : ℕ) : (be32 x).length = 4 := length_bigEndian 4 x

theorem ofBigEndian_append_singleton (bs : List UInt8) (b : UInt8) :
    ofBigEndian (bs ++ [b]) = ofBigEndian bs*256+b.toNat := by
  unfold ofBigEndian
  rw [foldl_append]
  rfl

theorem ofBigEndian_bigEndian (n x : ℕ) : ofBigEndian (bigEndian n x) = x % 256^n := by
  induction n generalizing x with
  | zero => simp [bigEndian,ofBigEndian,Nat.mod_one]
  | succ n ih =>
    rw [bigEndian,ofBigEndian_append_singleton,ih,Nat.pow_succ,Nat.mul_comm (256^n),
      Nat.mod_mul,UInt8.toNat_ofNat']
    omega

@[simp] theorem ofBigEndian_be32 (x : ℕ) : ofBigEndian (be32 x) = x % 2^32 := by
  have hpow : 256^4 = 2^32 := by decide
  rw [be32,ofBigEndian_bigEndian,hpow]

def be32Words : ℕ → List UInt8 → List ℕ
  | 0, _ => []
  | n + 1, bs => ofBigEndian (bs.take 4) :: be32Words n (bs.drop 4)

theorem be32Words_flatMap (ws : List ℕ) (rest : List UInt8) :
    be32Words ws.length (ws.flatMap be32 ++ rest) = ws.map (· % 2^32) := by
  induction ws with
  | nil => rfl
  | cons w ws ih =>
    rw [length_cons,flatMap_cons,append_assoc,be32Words,
      take_left' (length_be32 w),drop_left' (length_be32 w),ih,ofBigEndian_be32,map_cons]

theorem length_flatMap_const {α β : Type*} {f : α → List β} {k : ℕ} (hf : ∀ a, (f a).length = k)
    (l : List α) : (l.flatMap f).length = k*l.length := by
  induction l with
  | nil => rfl
  | cons a l ih => rw [flatMap_cons,length_append,ih,hf,length_cons,Nat.mul_succ,Nat.add_comm]

@[simp] theorem length_flatMap_be32 (ws : List ℕ) : (ws.flatMap be32).length = 4*ws.length :=
  length_flatMap_const length_be32 ws

end TinaPackage
