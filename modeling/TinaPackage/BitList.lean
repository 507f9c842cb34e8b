import Mathlib

/-! Lists of bits, the most significant bit first, and the machine words that hold them. -/
namespace TinaPackage
open List

def ofBits (bits : List Bool) : ℕ := bits.foldl (fun v b => 2*v+b.toNat) 0

def msbBits {w : ℕ} (v : BitVec w) (k : ℕ) : List Bool := (range k).map v.getMsbD

def lowBits {w : ℕ} (v : BitVec w) (n : ℕ) : List Bool := msbBits (v <<< (w-n)) n

def byteBits (b : UInt8) : List Bool := msbBits b.toBitVec 8

def bytesBits (bytes : List UInt8) : List Bool := bytes.flatMap byteBits

section Words
variable {w : ℕ} (v x : BitVec w)

@[simp] theorem length_msbBits (k : ℕ) : (msbBits v k).length = k := by
  simp [msbBits]

@[simp] theorem length_lowBits (n : ℕ) : (lowBits v n).length = n := by
  simp [lowBits]

@[simp] theorem length_byteBits (b : UInt8) : (byteBits b).length = 8 := length_msbBits _ _

theorem bytesBits_cons (b : UInt8) (bytes : List UInt8) :
    bytesBits (b :: bytes) = byteBits b ++ bytesBits bytes :=
  flatMap_cons

theorem bytesBits_append (a b : List UInt8) : bytesBits (a ++ b) = bytesBits a ++ bytesBits b :=
  flatMap_append

theorem length_bytesBits (bytes : List UInt8) : (bytesBits bytes).length = 8*bytes.length := by
  induction bytes with
  | nil => rfl
  | cons b bytes ih =>
    rw [bytesBits_cons,length_append,length_byteBits,ih,length_cons]
    omega

theorem getElem?_msbBits {k i : ℕ} (hi : i < k) : (msbBits v k)[i]? = some (v.getMsbD i) := by
  simp [msbBits,getElem?_range hi]

theorem take_msbBits {k m : ℕ} (hm : m ≤ k) : (msbBits v k).take m = msbBits v m := by
  rw [msbBits,← map_take,take_range,Nat.min_eq_left hm,msbBits]

theorem msbBits_shiftLeft {k m : ℕ} (hm : m ≤ k) :
    msbBits (v <<< m) (k-m) = (msbBits v k).drop m := by
  apply ext_getElem?
  intro i
  rw [getElem?_drop]
  by_cases hi : i < k-m
  · rw [getElem?_msbBits _ hi,getElem?_msbBits _ (by omega),BitVec.getMsbD_shiftLeft,Nat.add_comm]
  · rw [getElem?_eq_none (by rw [length_msbBits]; omega),
      getElem?_eq_none (by rw [length_msbBits]; omega)]

theorem msbBits_or_shift {n k t : ℕ} (hn : n ≤ w) (ht : t ≤ w) (htk : t ≤ n+k) :
    msbBits ((v >>> n) ||| (x <<< (w-n))) t = (lowBits x n ++ msbBits v k).take t := by
  apply ext_getElem?
  intro i
  by_cases hi : i < t
  · rw [getElem?_msbBits _ hi,getElem?_take_of_lt hi,BitVec.getMsbD_or,
      BitVec.getMsbD_ushiftRight,BitVec.getMsbD_shiftLeft]
    by_cases hin : i < n
    · rw [getElem?_append_left (by simpa using hin),lowBits,getElem?_msbBits _ hin,
        BitVec.getMsbD_shiftLeft]
      simp [hin]
    · rw [getElem?_append_right (by simpa using hin),length_lowBits,getElem?_msbBits _ (by omega)]
      have hout : x.getMsbD (i+(w-n)) = false := BitVec.getMsbD_of_ge _ _ (by omega)
      simp [hin,hout,show i < w by omega]
  · rw [getElem?_eq_none (by rw [length_msbBits]; omega),
      getElem?_eq_none (by rw [length_take]; omega)]

end Words

theorem ofBits_append (a b : List Bool) : ofBits (a ++ b) = ofBits a*2^b.length+ofBits b := by
  have hfold (bits : List Bool) (v : ℕ) :
      bits.foldl (fun v b => 2*v+b.toNat) v = v*2^bits.length+ofBits bits := by
    induction bits generalizing v with
    | nil => simp [ofBits]
    | cons c bits ih =>
      rw [ofBits,foldl_cons,foldl_cons,ih,ih (2*0+c.toNat),length_cons,Nat.pow_succ]
      ring
  rw [ofBits,foldl_append,hfold]
  rfl

theorem ofBits_lt (bits : List Bool) : ofBits bits < 2^bits.length := by
  induction bits using reverseRecOn with
  | nil => simp [ofBits]
  | append_singleton bits b ih =>
    rw [ofBits_append,length_append,length_singleton,Nat.pow_succ]
    have hb : ofBits [b] < 2 := by
      cases b <;> decide
    omega

theorem ofBits_inj {a b : List Bool} (hlength : a.length = b.length) (h : ofBits a = ofBits b) :
    a = b := by
  induction a generalizing b with
  | nil => exact (length_eq_zero_iff.mp hlength.symm).symm
  | cons x a ih =>
    cases b with
    | nil => cases hlength
    | cons y b =>
      have hlen : a.length = b.length := Nat.succ_inj.mp hlength
      have ha := ofBits_lt a
      have hb := ofBits_lt b
      rw [← singleton_append,← singleton_append (l := b),ofBits_append,ofBits_append,← hlen] at h
      rw [← hlen] at hb
      cases x with
      | false =>
        cases y with
        | false => rw [ih hlen (by simpa [ofBits] using h)]
        | true =>
          simp only [ofBits,foldl_cons,foldl_nil] at h ha
          simp at h
          omega
      | true =>
        cases y with
        | false =>
          simp only [ofBits,foldl_cons,foldl_nil] at h hb
          simp at h
          omega
        | true => rw [ih hlen (by simpa [ofBits] using h)]

section
variable {w : ℕ}

theorem toNat_shiftRight_eq_ofBits (v : BitVec w) {m : ℕ} (hm : m ≤ w) :
    (v >>> (w-m)).toNat = ofBits (msbBits v m) := by
  rw [BitVec.toNat_ushiftRight,Nat.shiftRight_eq_div_pow]
  induction m with
  | zero => simp [msbBits,ofBits,Nat.div_eq_of_lt v.isLt]
  | succ m ih =>
    have hbits : msbBits v (m+1) = msbBits v m ++ [v.getMsbD m] := by
      rw [msbBits,range_succ,map_append,msbBits]
      rfl
    have hdiv : v.toNat/2^(w-m) = v.toNat/2^(w-(m+1))/2 := by
      rw [Nat.div_div_eq_div_mul,← Nat.pow_succ,show (w-(m+1)).succ = w-m by omega]
    have hbit : (v.getMsbD m).toNat = v.toNat/2^(w-(m+1)) % 2 := by
      rw [BitVec.getMsbD,decide_eq_true (by omega),Bool.true_and,BitVec.getLsbD,
        Nat.testBit_eq_decide_div_mod_eq,show w-1-m = w-(m+1) by omega]
      rcases Nat.mod_two_eq_zero_or_one (v.toNat/2^(w-(m+1))) with h | h
      · simp [h]
      · simp [h]
    have hone : ofBits [v.getMsbD m] = (v.getMsbD m).toNat := by simp [ofBits]
    rw [hbits,ofBits_append,← ih (by omega),hdiv,hone,hbit,length_singleton]
    omega

theorem lowBits_eq {v : BitVec w} {bits : List Bool} (hw : bits.length ≤ w)
    (h : v.toNat = ofBits bits) : lowBits v bits.length = bits := by
  apply ofBits_inj (length_lowBits v _)
  have hlt := ofBits_lt bits
  rw [lowBits,← toNat_shiftRight_eq_ofBits _ hw,BitVec.toNat_ushiftRight,BitVec.toNat_shiftLeft,
    Nat.shiftLeft_eq,Nat.shiftRight_eq_div_pow,h]
  have hfit : ofBits bits*2^(w-bits.length) < 2^w := by
    calc ofBits bits*2^(w-bits.length) < 2^bits.length*2^(w-bits.length) :=
          Nat.mul_lt_mul_of_pos_right hlt (Nat.two_pow_pos _)
      _ = 2^w := by rw [← Nat.pow_add,Nat.add_sub_cancel' hw]
  rw [Nat.mod_eq_of_lt hfit,Nat.mul_div_cancel _ (Nat.two_pow_pos _)]

theorem toNat_shiftLeft_or {v low : BitVec w} {bits more : List Bool}
    (hv : v.toNat = ofBits bits) (hlow : low.toNat = ofBits more)
    (hroom : bits.length+more.length ≤ w) :
    ((v <<< more.length) ||| low).toNat = ofBits (bits ++ more) := by
  have hmore := ofBits_lt more
  have hfit : ofBits bits*2^more.length < 2^w := by
    calc ofBits bits*2^more.length < 2^bits.length*2^more.length :=
          Nat.mul_lt_mul_of_pos_right (ofBits_lt bits) (Nat.two_pow_pos _)
      _ = 2^(bits.length+more.length) := (Nat.pow_add ..).symm
      _ ≤ 2^w := Nat.pow_le_pow_right (by decide) hroom
  rw [BitVec.toNat_or,BitVec.toNat_shiftLeft,Nat.shiftLeft_eq,hv,hlow,Nat.mod_eq_of_lt hfit,
    ofBits_append,Nat.mul_comm,← Nat.two_pow_add_eq_or_of_lt hmore]

end

end TinaPackage
