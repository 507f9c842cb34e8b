import TinaPackage.BigEndian
import TinaPackage.MachineInt

/-! Numbers of variable length in Matroska files (`parser/mkv/CdxMkvParserImpl.c`), read from a
stream and from memory. -/
namespace TinaPackage.Mkv
open List Finset

inductive AvError
  | io
  | invalidData
  deriving DecidableEq

/-- The search for the length marker, with the turns that are left: `read` and `len_mask`. -/
def lengthLoop (total maxSize : ℕ) : ℕ → ℕ → ℕ → ℕ × ℕ
  | 0, read, lenMask => (read, lenMask)
  | turns + 1, read, lenMask =>
    if read ≤ maxSize ∧ total &&& lenMask = 0 then
      lengthLoop total maxSize turns (read+1) (lenMask >>> 1)
    else (read, lenMask)

/-- The loop over the other bytes. A number has 56 bits at most. -/
def shiftIn (total : ℕ) (bytes : List UInt8) : ℕ :=
  bytes.foldl (fun total t => total <<< 8 ||| t.toNat) total

def ebmlReadNum (pb : List UInt8) (maxSize : ℕ) : Except AvError (ℕ × ℕ) :=
  match pb with
  | [] => .error .io
  | t :: pb =>
    if t = 0 then .error (if pb = [] then .io else .invalidData)
    else
      let (read, lenMask) := lengthLoop t.toNat maxSize maxSize 1 0x80
      if read > maxSize then .error .invalidData
      else if pb.length < read-1 then .error .io
      else .ok (read, shiftIn (t.toNat &&& (2^64-1-lenMask)) (pb.take (read-1)))

def matroskaEbmlnumUint (data : List UInt8) : Except AvError (ℕ × ℕ) :=
  let size := int32 data.length
  if size ≤ 0 then .error .invalidData
  else
    match data with
    | [] => .error .invalidData
    | d :: data =>
      let (read, lenMask) := lengthLoop d.toNat 8 8 1 0x80
      if read > 8 then .error .invalidData
      else if size < read then .error .invalidData
      else
        let total := d.toNat &&& (lenMask-1)
        let bytes := data.take (read-1)
        let numFfs := (if total = lenMask-1 then 1 else 0)+bytes.count 0xff
        .ok (read, if read = numFfs then 2^64-1 else shiftIn total bytes)

/-- The number `v` in `w` bytes, behind the length marker. -/
def encodeNum (w v : ℕ) : List UInt8 := bigEndian w (2^(7*w)+v)

/-- The bytes begin with a number whose bits are all ones. -/
def Reserved (data : List UInt8) : Prop := ∃ w ∈ Icc 1 8, encodeNum w (2^(7*w)-1) <+: data

theorem shiftIn_eq (bytes : List UInt8) (total : ℕ) :
    shiftIn total bytes = total*256^bytes.length+ofBigEndian bytes := by
  induction bytes using reverseRecOn with
  | nil => simp [shiftIn,ofBigEndian]
  | append_singleton bytes t ih =>
    have hor : shiftIn total bytes <<< 8 ||| t.toNat = shiftIn total bytes*256+t.toNat := by
      rw [← Nat.shiftLeft_add_eq_or_of_lt t.toNat_lt,Nat.shiftLeft_eq]
    rw [shiftIn,foldl_append] at *
    change _ <<< 8 ||| t.toNat = _
    rw [hor,ih,ofBigEndian_append_singleton,length_append,length_singleton,pow_succ]
    ring

/-- The marker of a byte that is not zero is found, and clearing it keeps the bits below it. -/
theorem lengthLoop_spec (t : UInt8) (ht : t ≠ 0) :
    ∃ w, 1 ≤ w ∧ w ≤ 8 ∧ lengthLoop t.toNat 8 8 1 0x80 = (w, 2^(8-w)) ∧
      t.toNat &&& (2^64-1-2^(8-w)) = t.toNat &&& (2^(8-w)-1) := by
  have hall : ∀ n < 256, n ≠ 0 → ∃ w < 9, 1 ≤ w ∧ lengthLoop n 8 8 1 0x80 = (w, 2^(8-w)) ∧
      n &&& (2^64-1-2^(8-w)) = n &&& (2^(8-w)-1) := by
    decide +kernel
  have hne : t.toNat ≠ 0 := fun h => ht (UInt8.toNat_inj.mp h)
  obtain ⟨w,hlt,hpos,hloop,hand⟩ := hall t.toNat t.toNat_lt hne
  exact ⟨w,hpos,Nat.le_of_lt_succ hlt,hloop,hand⟩

theorem lengthLoop_marker (t : UInt8) (w : ℕ) (hw : w ∈ Icc 1 8)
    (hlo : 2^(8-w) ≤ t.toNat) (hhi : t.toNat < 2^(9-w)) :
    lengthLoop t.toNat 8 8 1 0x80 = (w, 2^(8-w)) ∧
      (t.toNat &&& (2^64-1-2^(8-w)))+2^(8-w) = t.toNat := by
  have hall : ∀ n < 256, ∀ w ∈ Icc 1 8, 2^(8-w) ≤ n → n < 2^(9-w) →
      lengthLoop n 8 8 1 0x80 = (w, 2^(8-w)) ∧ (n &&& (2^64-1-2^(8-w)))+2^(8-w) = n := by
    decide +kernel
  exact hall t.toNat t.toNat_lt w hw hlo hhi

theorem bigEndian_cons (n x : ℕ) : bigEndian (n+1) x = UInt8.ofNat (x/256^n) :: bigEndian n x := by
  induction n generalizing x with
  | zero => simp [bigEndian]
  | succ n ih =>
    rw [bigEndian,ih,cons_append,Nat.div_div_eq_div_mul,← pow_succ']
    rfl

theorem ebmlReadNum_encodeNum {w v : ℕ} (hw : w ∈ Icc 1 8) (hv : v < 2^(7*w))
    (rest : List UInt8) : ebmlReadNum (encodeNum w v ++ rest) 8 = .ok (w, v) := by
  obtain ⟨hpos,hle⟩ := mem_Icc.mp hw
  obtain ⟨n,rfl⟩ := Nat.exists_eq_add_of_le' hpos
  have hn : n ≤ 7 := Nat.le_of_succ_le_succ hle
  have hx : ∃ t : UInt8, t = UInt8.ofNat ((2^(7*(n+1))+v)/256^n) ∧
      2^(8-(n+1)) ≤ t.toNat ∧ t.toNat < 2^(9-(n+1)) ∧
        (t.toNat-2^(8-(n+1)))*256^n+(2^(7*(n+1))+v) % 256^n = v := by
    refine ⟨_,rfl,?_⟩
    rw [UInt8.toNat_ofNat']
    interval_cases n <;> norm_num at hv ⊢ <;> omega
  obtain ⟨t,ht,hlo,hhi,hvalue⟩ := hx
  obtain ⟨hloop,hclear⟩ := lengthLoop_marker t (n+1) hw hlo hhi
  have hne : t ≠ 0 := by
    rintro rfl
    exact absurd hlo (by simp)
  rw [encodeNum,bigEndian_cons,← ht,cons_append,ebmlReadNum,if_neg hne]
  simp only [hloop,length_append,length_bigEndian,Nat.add_sub_cancel]
  rw [if_neg (by omega),if_neg (by omega),take_left' (length_bigEndian n _),shiftIn_eq,
    length_bigEndian,ofBigEndian_bigEndian,Nat.eq_sub_of_add_eq hclear,hvalue]

theorem Reserved.read {data : List UInt8} (h : Reserved data) :
    ∃ w, ebmlReadNum data 8 = .ok (w, 2^(7*w)-1) := by
  obtain ⟨w,hw,rest,rfl⟩ := h
  exact ⟨w,ebmlReadNum_encodeNum hw (Nat.sub_lt (by positivity) one_pos) rest⟩

theorem ebmlReadNum_cons {t : UInt8} {w : ℕ} (ht : t ≠ 0) (hw : w ≤ 8)
    (hloop : lengthLoop t.toNat 8 8 1 0x80 = (w, 2^(8-w)))
    (hand : t.toNat &&& (2^64-1-2^(8-w)) = t.toNat &&& (2^(8-w)-1))
    (rest : List UInt8) : ebmlReadNum (t :: rest) 8 = if rest.length < w-1 then .error .io
      else .ok (w, shiftIn (t.toNat &&& (2^(8-w)-1)) (rest.take (w-1))) := by
  rw [ebmlReadNum,if_neg ht]
  simp only [hloop,hand]
  rw [if_neg (Nat.not_lt.mpr hw)]

theorem reserved_of_numFfs {t : UInt8} {w : ℕ} {rest : List UInt8} (hw : w ∈ Icc 1 8)
    (hloop : lengthLoop t.toNat 8 8 1 0x80 = (w, 2^(8-w))) (hlen : w-1 ≤ rest.length)
    (hcount : w = (if t.toNat &&& (2^(8-w)-1) = 2^(8-w)-1 then 1 else 0) +
      (rest.take (w-1)).count 0xff) : Reserved (t :: rest) := by
  have hbytes : (rest.take (w-1)).length = w-1 := by simpa using hlen
  have hbound := count_le_length (a := 0xff) (l := rest.take (w-1))
  have hpos := (mem_Icc.mp hw).1
  split at hcount
  · next hones =>
    have hall : rest.take (w-1) = replicate (w-1) 0xff := eq_replicate_iff.mpr
      ⟨hbytes,fun b hb => (count_eq_length.mp (by omega) b hb).symm⟩
    have hfirst : ∀ n < 256, ∀ w ∈ Icc 1 8, lengthLoop n 8 8 1 0x80 = (w, 2^(8-w)) →
        n &&& (2^(8-w)-1) = 2^(8-w)-1 →
          UInt8.ofNat n :: replicate (w-1) 0xff = encodeNum w (2^(7*w)-1) := by
      decide +kernel
    refine ⟨w,hw,?_⟩
    rw [← hfirst t.toNat t.toNat_lt w hw hloop hones,UInt8.ofNat_toNat,← hall]
    exact (prefix_cons_inj t).mpr ( take_prefix _ _)
  · omega

theorem matroskaEbmlnumUint_eq (data : List UInt8) (hlen : data.length < 2^31)
    (hres : ¬Reserved data) :
    (ebmlReadNum data 8).toOption = (matroskaEbmlnumUint data).toOption := by
  cases data with
  | nil => rfl
  | cons t rest =>
    have hsize : int32 (t :: rest).length = rest.length+1 := by
      exact int32_of_range (by omega) (by unfold intMax; omega)
    rw [matroskaEbmlnumUint]
    simp only [hsize]
    rw [if_neg (by omega)]
    by_cases ht : t = 0
    · subst ht
      rfl
    · obtain ⟨w,hpos,hle,hloop,hand⟩ := lengthLoop_spec t ht
      have hread := ebmlReadNum_cons ht hle hloop hand rest
      simp only [hloop]
      rw [if_neg (Nat.not_lt.mpr hle)]
      by_cases hshort : rest.length < w-1
      · rw [hread,if_pos hshort,if_pos (by omega)]
        rfl
      · rw [if_neg hshort] at hread
        have hcount : ¬w = (if t.toNat &&& (2^(8-w)-1) = 2^(8-w)-1 then 1 else 0) +
            (rest.take (w-1)).count 0xff :=
          fun hcount => hres (reserved_of_numFfs (mem_Icc.mpr ⟨hpos,hle⟩) hloop (by omega) hcount)
        rw [hread,if_neg (by omega),if_neg hcount]

/-- Both decoders invert the encoding in every width. They agree on every byte string that is not a
reserved number, if its size is an `int`. -/
theorem ebml_numbers_agree :
    (∀ w ∈ Icc 1 8, ∀ v < 2^(7*w)-1,
      ebmlReadNum (encodeNum w v) 8 = .ok (w, v) ∧
        matroskaEbmlnumUint (encodeNum w v) = .ok (w, v)) ∧
      ∀ data : List UInt8, data.length < 2^31 → ¬Reserved data →
        (ebmlReadNum data 8).toOption = (matroskaEbmlnumUint data).toOption := by
  refine ⟨?_,matroskaEbmlnumUint_eq⟩
  intro w hw v hv
  have hread := ebmlReadNum_encodeNum hw (hv.trans_le (Nat.sub_le _ _)) []
  rw [append_nil] at hread
  have hres : ¬Reserved (encodeNum w v) := by
    intro h
    obtain ⟨w',hw'⟩ := h.read
    rw [hread] at hw'
    cases hw'
    exact lt_irrefl _ hv
  have hlen : (encodeNum w v).length < 2^31 := by
    have hle := (mem_Icc.mp hw).2
    rw [encodeNum,length_bigEndian]
    omega
  have hmem := matroskaEbmlnumUint_eq (encodeNum w v) hlen hres
  rw [hread] at hmem
  refine ⟨hread,?_⟩
  cases huint : matroskaEbmlnumUint (encodeNum w v) with
  | error e => rw [huint] at hmem; cases hmem
  | ok r => rw [huint] at hmem; cases hmem; rfl

theorem ebml_two_bytes :
    ebmlReadNum [0x41,0xf4] 8 = .ok (2, 500) ∧ matroskaEbmlnumUint [0x41,0xf4] = .ok (2, 500) :=
  ebml_numbers_agree.1 2 (by decide) 500 (by decide)

/-- A block of `2^31` bytes has a negative size as an `int`. -/
theorem large_block_refused :
    ∃ data, ¬Reserved data ∧ ebmlReadNum data 8 = .ok (1, 1) ∧
      matroskaEbmlnumUint data = .error .invalidData := by
  have hread : ebmlReadNum (0x81 :: replicate (2^31-1) 0) 8 = .ok (1, 1) := by
    rw [ebmlReadNum_cons (w := 1) (by decide) (by decide) (by decide) (by decide)]
    simp only [Nat.sub_self,take_zero,Nat.not_lt_zero,if_false]
    rfl
  refine ⟨_,?_,hread,?_⟩
  · intro h
    obtain ⟨w,hw⟩ := h.read
    rw [hread] at hw
    cases hw
  · rw [matroskaEbmlnumUint,length_cons,length_replicate]
    exact if_pos (by decide)

end TinaPackage.Mkv
