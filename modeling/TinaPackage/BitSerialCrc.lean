import TinaPackage.BitList

/-! Cyclic redundancy checks, one bit at a time from the highest one on: what the bits of two
messages do to the sum of two registers. -/
namespace TinaPackage
open List

section Crc
variable {w g s t : ℕ} {a b : Bool}

/-- A register of `w + 1` bits takes a bit in, for the polynomial `g`. -/
def crcBit (w g s : ℕ) (a : Bool) : ℕ :=
  (s <<< 1) % 2^(w+1) ^^^ if s.testBit w ^^ a then g else 0

def crcByte (w g s : ℕ) (x : UInt8) : ℕ := (byteBits x).foldl (crcBit w g) s

theorem crcBit_xor : crcBit w g (s ^^^ t) (a ^^ b) = crcBit w g s a ^^^ crcBit w g t b := by
  have hite : ∀ p q : Bool, (if p ^^ q then g else 0) =
      (if p then g else 0) ^^^ if q then g else 0 := by
    intro p q
    cases p <;> cases q <;> simp
  have hbool : ((s.testBit w ^^ t.testBit w) ^^ (a ^^ b)) =
      ((s.testBit w ^^ a) ^^ (t.testBit w ^^ b)) := by
    rw [Bool.xor_assoc,Bool.xor_assoc,Bool.xor_left_comm a]
  unfold crcBit
  rw [Nat.shiftLeft_xor_distrib,Nat.xor_mod_two_pow,Nat.testBit_xor,hbool,hite]
  ac_rfl

theorem crcByte_xor (x y : UInt8) :
    crcByte w g (s ^^^ t) (x ^^^ y) = crcByte w g s x ^^^ crcByte w g t y := by
  simp [crcByte,byteBits,msbBits,List.range,List.range.loop,crcBit_xor]

theorem foldl_bytesBits (data : List UInt8) :
    (bytesBits data).foldl (crcBit w g) s = data.foldl (crcByte w g) s := by
  induction data generalizing s with
  | nil => rfl
  | cons x data ih => rw [bytesBits_cons,foldl_append,ih,foldl_cons,crcByte]

theorem crcBit_of_small (h : s < 2^w) : crcBit w g s false = 2*s := by
  rw [crcBit,Nat.testBit_lt_two_pow h,Nat.shiftLeft_eq,Nat.mod_eq_of_lt]
  · simp [mul_comm]
  · rw [pow_succ]
    omega

theorem crcBits_of_small (n : ℕ) (h : s*2^n < 2^(w+1)) :
    (replicate n false).foldl (crcBit w g) s = s*2^n := by
  induction n generalizing s with
  | zero => simp
  | succ n ih =>
    have hmul : s*2^(n+1) = 2*s*2^n := by
      rw [Nat.pow_succ',← mul_assoc,mul_comm s]
    have hle := Nat.le_mul_of_pos_right (2*s) (Nat.two_pow_pos n)
    rw [hmul] at h ⊢
    rw [replicate_succ,foldl_cons,crcBit_of_small,ih h]
    rw [pow_succ] at h
    omega

end Crc

end TinaPackage
