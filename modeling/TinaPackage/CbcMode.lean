import Mathlib

/-! Decryption in cipher block chaining mode, over any block function, and its parts:
a piece in the middle of a message is decrypted from the ciphertext block in front of it. -/
namespace TinaPackage
open List

variable {α : Type*} [XorOp α] (D : List α → List α) (n : ℕ)

/-- `k` blocks, each decrypted and combined with the ciphertext block in front of it. -/
def cbcBlocks : ℕ → List α → List α → List α
  | 0, _, _ => []
  | k + 1, iv, ct =>
    List.zipWith (· ^^^ ·) (D (ct.take n)) iv ++ cbcBlocks k (ct.take n) (ct.drop n)

def cbcDecrypt (iv ct : List α) : List α := cbcBlocks D n (ct.length/n) iv ct

def lastBlock (iv ct : List α) : List α := if ct.length < n then iv else ct.drop (ct.length-n)

variable {D n}

@[simp] theorem cbcDecrypt_nil (iv : List α) : cbcDecrypt D n iv [] = [] := by
  simp [cbcDecrypt,cbcBlocks]

variable {iv ct a b : List α}

theorem cbcDecrypt_of_le (hn : 0 < n) (h : n ≤ ct.length) :
    cbcDecrypt D n iv ct = List.zipWith (· ^^^ ·) (D (ct.take n)) iv ++
      cbcDecrypt D n (ct.take n) (ct.drop n) := by
  have hk : ct.length/n = (ct.length-n)/n+1 := by
    rw [← Nat.add_div_right _ hn,Nat.sub_add_cancel h]
  simp [cbcDecrypt,hk,cbcBlocks]

omit [XorOp α] in
@[simp] theorem lastBlock_nil (hn : 0 < n) (iv : List α) : lastBlock n iv [] = iv := by
  simp [lastBlock,hn]

omit [XorOp α] in
theorem lastBlock_append_block (hb : b.length = n) : lastBlock n iv (a ++ b) = b := by
  unfold lastBlock
  rw [if_neg (by simp [hb]),length_append,hb,Nat.add_sub_cancel,drop_left]

omit [XorOp α] in
theorem lastBlock_append (hb : n ∣ b.length) :
    lastBlock n iv (a ++ b) = lastBlock n (lastBlock n iv a) b := by
  by_cases hlt : b.length < n
  · have hnil : b = [] := eq_nil_of_length_eq_zero (Nat.eq_zero_of_dvd_of_lt hb hlt)
    subst hnil
    simp only [append_nil]
    rw [lastBlock.eq_1 n (lastBlock n iv a),if_pos hlt]
  · have hle : n ≤ b.length := Nat.le_of_not_lt hlt
    unfold lastBlock
    rw [if_neg hlt,if_neg (by rw [length_append]; omega),length_append,
      Nat.add_sub_assoc hle,drop_append,drop_eq_nil_of_le (by omega),
      Nat.add_sub_cancel_left,nil_append]

omit [XorOp α] in
theorem lastBlock_drop (hlen : n ≤ ct.length) (hct : n ∣ ct.length) :
    lastBlock n (ct.take n) (ct.drop n) = lastBlock n iv ct := by
  have hdrop : n ∣ (ct.drop n).length := by
    rw [length_drop]
    exact Nat.dvd_sub hct (Nat.dvd_refl n)
  have hfirst : lastBlock n iv (ct.take n) = ct.take n :=
    lastBlock_append_block (a := []) (length_take_of_le hlen)
  calc lastBlock n (ct.take n) (ct.drop n)
      = lastBlock n (lastBlock n iv (ct.take n)) (ct.drop n) := by rw [hfirst]
    _ = lastBlock n iv (ct.take n ++ ct.drop n) := (lastBlock_append hdrop).symm
    _ = lastBlock n iv ct := by rw [take_append_drop]

theorem cbcDecrypt_append (hn : 0 < n) (ha : n ∣ a.length) :
    cbcDecrypt D n iv (a ++ b) = cbcDecrypt D n iv a ++ cbcDecrypt D n (lastBlock n iv a) b := by
  obtain ⟨k,hk⟩ := ha
  induction k generalizing iv a with
  | zero =>
    have hnil : a = [] := eq_nil_of_length_eq_zero (by simpa using hk)
    subst hnil
    rw [nil_append,cbcDecrypt_nil,lastBlock_nil hn,nil_append]
  | succ k ih =>
    have hmul : n*(k+1) = n*k+n := Nat.mul_succ n k
    have hle : n ≤ a.length := by omega
    have hdrop : (a.drop n).length = n*k := by rw [length_drop]; omega
    rw [cbcDecrypt_of_le hn hle,cbcDecrypt_of_le hn (by rw [length_append]; omega),
      take_append_of_le_length hle,drop_append_of_le_length hle,ih hdrop,
      lastBlock_drop hle ⟨k+1,hk⟩,append_assoc]

theorem length_cbcDecrypt (hn : 0 < n) (hD : ∀ b : List α, b.length = n → (D b).length = n)
    (hiv : iv.length = n) (hct : n ∣ ct.length) : (cbcDecrypt D n iv ct).length = ct.length := by
  obtain ⟨k,hk⟩ := hct
  induction k generalizing iv ct with
  | zero =>
    have hnil : ct = [] := eq_nil_of_length_eq_zero (by simpa using hk)
    rw [hnil,cbcDecrypt_nil]
  | succ k ih =>
    have hmul : n*(k+1) = n*k+n := Nat.mul_succ n k
    have hle : n ≤ ct.length := by omega
    have htake : (ct.take n).length = n := length_take_of_le hle
    have hdrop : (ct.drop n).length = n*k := by rw [length_drop]; omega
    rw [cbcDecrypt_of_le hn hle,length_append,length_zipWith,hD _ htake,hiv,
      ih htake hdrop,hdrop,Nat.min_self]
    omega

omit [XorOp α] in
theorem length_lastBlock (hiv : iv.length = n) : (lastBlock n iv ct).length = n := by
  unfold lastBlock
  split
  · exact hiv
  · rw [length_drop]
    omega

theorem cbcDecrypt_middle (hn : 0 < n) (hD : ∀ b : List α, b.length = n → (D b).length = n)
    {c : List α} (hiv : iv.length = n) (ha : n ∣ a.length) (hb : n ∣ b.length) :
    cbcDecrypt D n (lastBlock n iv a) b =
      ((cbcDecrypt D n iv (a ++ (b ++ c))).drop a.length).take b.length := by
  rw [cbcDecrypt_append hn ha,cbcDecrypt_append hn hb,drop_left' (length_cbcDecrypt hn hD hiv ha),
    take_left' (length_cbcDecrypt hn hD (length_lastBlock hiv) hb)]

/-- A routine that decrypts whole blocks in this mode and leaves the last ciphertext block as the
vector for its next call. Nothing is said about other lengths. -/
structure CbcRoutine (α : Type*) [XorOp α] (n : ℕ) where
  block : List α → List α
  length_block : ∀ b, b.length = n → (block b).length = n
  run : List α → List α → List α × List α
  run_eq : ∀ iv ct, n ∣ ct.length → run iv ct = (cbcDecrypt block n iv ct, lastBlock n iv ct)

end TinaPackage
