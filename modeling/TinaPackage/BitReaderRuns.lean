import TinaPackage.BitReader

/-! The bit reader next to a list of bits. -/
namespace TinaPackage.Bits
open List Option Nat

structure Wf (r : CdxBitReader) : Prop where
  left_le : r.mNumBitsLeft ≤ 32
  size_eq : r.mData+r.mSize = r.data.length

variable {r : CdxBitReader}

theorem length_content (h : Wf r) : (content r).length = r.mNumBitsLeft+8*r.mSize := by
  have := h.size_eq
  rw [content,length_append,length_msbBits,length_bytesBits,length_drop]
  omega

theorem fillLoop_eq (k : ℕ) : ∀ (r : CdxBitReader) (i : ℕ) (bits : List Bool),
    r.mData+r.mSize = r.data.length → r.mReservoir.toNat = ofBits bits →
    bits.length+8*k ≤ 32 →
    ∃ v : BitVec 32, fillLoop k r i = some ({ r with
        mReservoir := v
        mData := r.mData+min k r.mSize
        mSize := r.mSize-min k r.mSize }, i+min k r.mSize) ∧
      v.toNat = ofBits (bits ++ bytesBits ((r.data.drop r.mData).take (min k r.mSize))) := by
  induction k with
  | zero =>
    intro r i bits _ hv _
    exact ⟨r.mReservoir,by simp [fillLoop],by simpa [bytesBits] using hv⟩
  | succ k ih =>
    intro r i bits hsize hv hroom
    by_cases hmore : 0 < r.mSize
    · have hlt : r.mData < r.data.length := by omega
      have hbyte : ((r.data[r.mData]).toBitVec.setWidth 32).toNat =
          ofBits (byteBits r.data[r.mData]) := by
        have hall := toNat_shiftRight_eq_ofBits (r.data[r.mData]).toBitVec (Nat.le_refl 8)
        rw [byteBits,← hall,BitVec.toNat_setWidth,Nat.sub_self,BitVec.ushiftRight_zero]
        exact Nat.mod_eq_of_lt (Nat.lt_of_lt_of_le (BitVec.isLt _) (by decide))
      have hnext := toNat_shiftLeft_or hv hbyte (by rw [length_byteBits]; omega)
      obtain ⟨v,hloop,hval⟩ := ih { r with
          mReservoir := (r.mReservoir <<< 8) ||| (r.data[r.mData]).toBitVec.setWidth 32
          mData := r.mData+1
          mSize := r.mSize-1 } (i+1) (bits ++ byteBits r.data[r.mData])
        (by simp only; omega)
        hnext
        (by rw [length_append,length_byteBits]; omega)
      have hmin : min (k+1) r.mSize = min k (r.mSize-1)+1 := by omega
      refine ⟨v,?_,?_⟩
      · rw [fillLoop,if_pos hmore,List.getElem?_eq_getElem hlt,bind_some,hloop,hmin]
        simp only [some_inj,Prod.mk.injEq,CdxBitReader.mk.injEq,true_and,and_true]
        omega
      · rw [hval,hmin,drop_eq_getElem_cons hlt,take_succ_cons,bytesBits_cons,append_assoc]
    · have hzero : r.mSize = 0 := by omega
      refine ⟨r.mReservoir,?_,?_⟩
      · cases r
        simp_all [fillLoop]
      · rw [hzero]
        simpa [bytesBits] using hv

theorem onFillReservoir_spec (h : Wf r) (hempty : r.mNumBitsLeft = 0) (hmore : 0 < r.mSize) :
    ∃ r', onFillReservoir r = some r' ∧ Wf r' ∧ content r' = content r ∧
      r'.mNumBitsLeft = 8*min 4 r.mSize ∧ r'.mSize = r.mSize-min 4 r.mSize := by
  obtain ⟨v,hloop,hval⟩ := fillLoop_eq 4 { r with mReservoir := 0 } 0 [] h.size_eq rfl (by simp)
  simp only [nil_append] at hval
  have hlength : (bytesBits ((r.data.drop r.mData).take (min 4 r.mSize))).length =
      8*min 4 r.mSize := by
    have := h.size_eq
    rw [length_bytesBits,length_take,length_drop]
    omega
  have hbits := lowBits_eq (by omega) hval
  simp only [hlength] at hbits
  refine ⟨{ r with
    mReservoir := v <<< (32-8*min 4 r.mSize)
    mData := r.mData+min 4 r.mSize
    mSize := r.mSize-min 4 r.mSize
    mNumBitsLeft := 8*min 4 r.mSize },?_,⟨?_,?_⟩,?_,rfl,rfl⟩
  · have hshift : 32-8*min 4 r.mSize < 32 := by omega
    simp only [onFillReservoir,hloop,bind_some,zero_add,shl,if_pos hshift,map_some]
  · simp only
    omega
  · have := h.size_eq
    simp only
    omega
  · simp only [content,hempty]
    rw [← lowBits,hbits,← bytesBits_append,← drop_drop,take_append_drop]
    simp [msbBits]

theorem take_spec (h : Wf r) {m : ℕ} (hm : m ≤ r.mNumBitsLeft) :
    Wf { r with mReservoir := r.mReservoir <<< m, mNumBitsLeft := r.mNumBitsLeft-m } ∧
    content { r with mReservoir := r.mReservoir <<< m, mNumBitsLeft := r.mNumBitsLeft-m } =
      (content r).drop m ∧
    (content r).take m = msbBits r.mReservoir m := by
  refine ⟨⟨by have := h.left_le; simp only; omega,h.size_eq⟩,?_,?_⟩
  · simp only [content]
    rw [msbBits_shiftLeft _ hm,drop_append_of_le_length (by simpa using hm)]
  · rw [content,take_append_of_le_length (by simpa using hm),take_msbBits _ hm]

/-- `n` bits are taken from a reader that holds as many, behind the bits that the result already
has. Unless the buffer is used up, the reservoir is refilled with whole words. -/
theorem getLoop_spec (fuel : ℕ) : ∀ (r : CdxBitReader) (n : ℕ) (result : BitVec 32)
    (bits : List Bool), Wf r → n ≤ fuel → n ≤ (content r).length →
    (n < 32 ∨ r.mNumBitsLeft ≠ 0 ∧ r.mNumBitsLeft ≠ 32) →
    result.toNat = ofBits bits → bits.length+n ≤ 32 →
    ∃ result' r', getLoop fuel r n result = some (result', r') ∧ Wf r' ∧
      result'.toNat = ofBits (bits ++ (content r).take n) ∧
      content r' = (content r).drop n ∧
      (0 < n → r'.mNumBitsLeft < 32) ∧ r'.mSize ≤ r.mSize ∧
      (r'.mSize = 0 ∨ (r'.mNumBitsLeft+n) % 32 = r.mNumBitsLeft % 32) := by
  induction fuel with
  | zero =>
    intro r n result bits h hn _ _ hresult _
    obtain rfl : n = 0 := by omega
    exact ⟨result,r,by simp [getLoop],h,by simpa using hresult,rfl,nofun, Nat.le_refl _,.inr rfl⟩
  | succ fuel ih =>
    intro r n result bits h hn hlength hword hresult hroom
    cases n with
    | zero =>
      exact ⟨result,r,by simp [getLoop],h,by simpa using hresult,rfl,nofun, Nat.le_refl _,.inr rfl⟩
    | succ n =>
      -- The reservoir after it was filled, if it was empty.
      obtain ⟨f,hf,hwf,hcontent,hpos,hsize,hphase,hfull⟩ : ∃ f,
          (if r.mNumBitsLeft = 0 then onFillReservoir r else some r) = some f ∧ Wf f ∧
          content f = content r ∧ 0 < f.mNumBitsLeft ∧ f.mSize ≤ r.mSize ∧
          (f.mSize = 0 ∨ f.mNumBitsLeft % 32 = r.mNumBitsLeft % 32) ∧
          (n+1 < 32 ∨ f.mNumBitsLeft < 32) := by
        have hle := h.left_le
        have hlen := length_content h
        by_cases hempty : r.mNumBitsLeft = 0
        · obtain ⟨f,hf,hwf,hcontent,hleft,hsize⟩ :=
            onFillReservoir_spec h hempty (by omega)
          exact ⟨f,by rw [if_pos hempty,hf],hwf,hcontent,by omega,by omega,by omega,by omega⟩
        · exact ⟨r,by rw [if_neg hempty],h,rfl,by omega,Nat.le_refl _,.inr rfl,by omega⟩
      have hleft := hwf.left_le
      have hm : min (n+1) f.mNumBitsLeft < 32 := by omega
      have hback : 32-min (n+1) f.mNumBitsLeft < 32 := by omega
      obtain ⟨hwf',hdrop,htake⟩ := take_spec hwf (Nat.min_le_right (n+1) f.mNumBitsLeft)
      have hlow := toNat_shiftRight_eq_ofBits f.mReservoir (Nat.le_of_lt hm)
      rw [← htake,hcontent] at hlow
      rw [hcontent] at hdrop
      have hlengthTake : ((content r).take (min (n+1) f.mNumBitsLeft)).length =
          min (n+1) f.mNumBitsLeft := length_take_of_le (by omega)
      have hnext := toNat_shiftLeft_or hresult hlow (by omega)
      rw [hlengthTake] at hnext
      obtain ⟨result',r',hloop,hend,hval,hrest,hlt,hless,hlast⟩ := ih _ (n+1-min (n+1)
        f.mNumBitsLeft) _ (bits ++ (content r).take (min (n+1) f.mNumBitsLeft)) hwf' (by omega)
        (by rw [hdrop,length_drop]; omega) (.inl (by omega))
        hnext
        (by rw [length_append,hlengthTake]; omega)
      refine ⟨result',r',?_,hend,?_,?_,?_,Nat.le_trans hless hsize,?_⟩
      · simp only [getLoop,hf,bind_some,shl,shr,if_pos hm,if_pos hback]
        exact hloop
      · rw [hval,hdrop,append_assoc,← take_add,Nat.add_sub_cancel' (by omega)]
      · rw [hrest,hdrop,drop_drop]
        congr 1
        omega
      · intro _
        rcases Nat.eq_zero_or_pos (n+1-min (n+1) f.mNumBitsLeft) with h0 | hmore
        · rw [h0,getLoop] at hloop
          cases hloop
          simp only
          omega
        · exact hlt hmore
      · simp only at hlast hless
        omega

variable {n : ℕ}

theorem getBits_spec (h : Wf r) (hn : n ≤ 32) (hlength : n ≤ (content r).length)
    (hword : n < 32 ∨ r.mNumBitsLeft ≠ 0 ∧ r.mNumBitsLeft ≠ 32) :
    ∃ v r', cdxBitReaderGetBits r n = some (v, r') ∧ Wf r' ∧
      v.toNat = ofBits ((content r).take n) ∧ content r' = (content r).drop n ∧
      (0 < n → r'.mNumBitsLeft < 32) ∧ r'.mSize ≤ r.mSize ∧
      (r'.mSize = 0 ∨ (r'.mNumBitsLeft+n) % 32 = r.mNumBitsLeft % 32) :=
  getLoop_spec n r n 0 [] h (le_refl n) hlength hword rfl (by simpa using hn)

theorem getBits_word (h : Wf r) (hlength : 32 ≤ (content r).length)
    (hword : r.mNumBitsLeft = 0 ∨ r.mNumBitsLeft = 32) : cdxBitReaderGetBits r 32 = none := by
  obtain ⟨f,hf,hleft⟩ : ∃ f, (if r.mNumBitsLeft = 0 then onFillReservoir r else some r) = some f ∧
        f.mNumBitsLeft = 32 := by
    have hlen := length_content h
    by_cases hempty : r.mNumBitsLeft = 0
    · obtain ⟨f,hf,_,_,hleft,_⟩ := onFillReservoir_spec h hempty (by omega)
      exact ⟨f,by rw [if_pos hempty,hf],by omega⟩
    · exact ⟨r,by rw [if_neg hempty],by omega⟩
  simp only [cdxBitReaderGetBits,getLoop,hf,bind_some,hleft]
  rfl

theorem skipLoop_spec (fuel : ℕ) : ∀ (r : CdxBitReader) (n : ℕ), Wf r → n < fuel →
    n ≤ (content r).length → (n < 32 ∨ r.mNumBitsLeft ≠ 0 ∧ r.mNumBitsLeft ≠ 32) →
    ∃ r', skipLoop fuel r n = some r' ∧ Wf r' ∧ content r' = (content r).drop n := by
  induction fuel with
  | zero => exact fun _ _ _ hn => absurd hn (not_lt_zero _)
  | succ fuel ih =>
    intro r n h hn hlength hword
    by_cases hmany : 32 < n
    · obtain ⟨v,r',hget,hwf,_,hdrop,hlt,_,hphase⟩ :=
        getBits_spec h (le_refl 32) (by omega) (.inr (by omega))
      have hrest := length_content hwf
      rw [hdrop,length_drop] at hrest
      obtain ⟨r'',hskip,hwf',hdrop'⟩ := ih r' (n-32) hwf (by omega)
        (by rw [hdrop,length_drop]; omega)
        (by have := hlt (by decide); have := h.left_le; omega)
      refine ⟨r'',?_,hwf',?_⟩
      · rw [skipLoop,if_pos hmany,hget,bind_some,hskip]
      · rw [hdrop',hdrop,drop_drop]
        congr 1
        omega
    · by_cases hzero : 0 < n
      · obtain ⟨v,r',hget,hwf,_,hdrop,_⟩ := getBits_spec h (by omega) hlength hword
        exact ⟨r',by rw [skipLoop,if_neg hmany,if_pos hzero,hget]; rfl,hwf,hdrop⟩
      · obtain rfl : n = 0 := by omega
        exact ⟨r,by simp [skipLoop],h,rfl⟩

theorem skipBits_word (h : Wf r) (hn : 32 ≤ n) (hlength : n ≤ (content r).length)
    (hword : r.mNumBitsLeft = 0 ∨ r.mNumBitsLeft = 32) :
    cdxBitReaderSkipBits r n = none := by
  have hget := getBits_word h (by omega) hword
  rw [cdxBitReaderSkipBits,skipLoop]
  split
  · rw [hget,bind_none]
  · obtain rfl : n = 32 := by omega
    rw [if_pos (by decide),hget,map_none]

/-- The loop goes back as many bytes as are needed for the sum to be at most 32. In between the
number of bits may be below zero, that is, wrapped around. -/
theorem rewindLoop_eq (k : ℕ) : ∀ (fuel : ℕ) (r : CdxBitReader), k < fuel →
    r.mNumBitsLeft < 2^32 → ((r.mNumBitsLeft+n) % 2^32-32+7)/8 = k →
    rewindLoop fuel r n =
      if k ≤ r.mData then
        some { r with
          mNumBitsLeft := (r.mNumBitsLeft+(2^32-8*k)) % 2^32
          mData := r.mData-k
          mSize := r.mSize+k }
      else none := by
  induction k with
  | zero =>
    intro fuel r hfuel hleft hk
    obtain ⟨fuel,rfl⟩ := exists_eq_succ_of_ne_zero (ne_of_gt hfuel)
    rw [rewindLoop,if_neg (by omega),if_pos (zero_le _)]
    cases r
    simp only [some_inj,CdxBitReader.mk.injEq,true_and] at hleft ⊢
    omega
  | succ k ih =>
    intro fuel r hfuel hleft hk
    obtain ⟨fuel,rfl⟩ := exists_eq_succ_of_ne_zero (ne_of_gt (by omega : 0 < fuel))
    rw [rewindLoop,if_pos (by omega)]
    by_cases hstart : r.mData = 0
    · rw [if_pos hstart,if_neg (by omega)]
    · rw [if_neg hstart,ih fuel _ (by omega) (mod_lt _ (by decide)) (by simp only; omega)]
      by_cases hroom : k+1 ≤ r.mData
      · rw [if_pos hroom,if_pos (by simp only; omega)]
        simp only [some_inj,CdxBitReader.mk.injEq,true_and]
        omega
      · rw [if_neg hroom,if_neg (by simp only; omega)]

def afterPut (r : CdxBitReader) (x : BitVec 32) (n : ℕ) : CdxBitReader :=
  { r with
    mReservoir := (r.mReservoir >>> n) ||| (x <<< (32-n))
    mNumBitsLeft := r.mNumBitsLeft+n-8*rewound r n
    mData := r.mData-rewound r n
    mSize := r.mSize+rewound r n }

theorem putBits_eq (h : Wf r) (x : BitVec 32) (hn : n < 32) :
    cdxBitReaderPutBits r x n =
      if 0 < n ∧ rewound r n ≤ r.mData then some (afterPut r x n) else none := by
  have hle := h.left_le
  have hk : ((r.mNumBitsLeft+n) % 2^32-32+7)/8 = rewound r n := by
    rw [mod_eq_of_lt (by omega),rewound]
  have hloop := rewindLoop_eq (rewound r n) (r.mNumBitsLeft+n+1) r
    (by unfold rewound; omega) (by omega) hk
  unfold cdxBitReaderPutBits
  rw [hloop]
  by_cases hroom : rewound r n ≤ r.mData
  · rw [if_pos hroom,bind_some,shr,if_pos hn,bind_some,shl]
    by_cases hpos : 0 < n
    · rw [if_pos (by omega),map_some,if_pos ⟨hpos,hroom⟩,afterPut]
      simp only [some_inj,CdxBitReader.mk.injEq,true_and]
      omega
    · rw [if_neg (by omega),map_none,if_neg (fun hboth => hpos hboth.1)]
  · rw [if_neg hroom,bind_none,if_neg (fun hboth => hroom hboth.2)]

section Put
variable {r : CdxBitReader} (h : Wf r) {n : ℕ} (hn : n < 32) (hroom : rewound r n ≤ r.mData)
include h hn hroom

theorem wf_afterPut (x : BitVec 32) : Wf (afterPut r x n) where
  left_le := by
    simp only [afterPut,rewound]
    omega
  size_eq := by
    have := h.size_eq
    simp only [afterPut]
    omega

omit h in
theorem content_afterPut_eq_iff (x : BitVec 32) :
    content (afterPut r x n) = lowBits x n ++ content r ↔
      (lowBits x n ++ msbBits r.mReservoir r.mNumBitsLeft).drop
          (r.mNumBitsLeft+n-8*rewound r n) =
        bytesBits ((r.data.drop (r.mData-rewound r n)).take (rewound r n)) := by
  have hfits : r.mNumBitsLeft+n-8*rewound r n ≤ 32 := by
    unfold rewound
    omega
  have hback : bytesBits (r.data.drop (r.mData-rewound r n)) =
      bytesBits ((r.data.drop (r.mData-rewound r n)).take (rewound r n)) ++
        bytesBits (r.data.drop r.mData) := by
    conv_lhs => rw [← take_append_drop (rewound r n) (r.data.drop _)]
    rw [bytesBits_append,drop_drop,Nat.sub_add_cancel hroom]
  have hreservoir := msbBits_or_shift r.mReservoir x (Nat.le_of_lt hn) hfits
    (show _ ≤ n+r.mNumBitsLeft by omega)
  simp only [content,afterPut]
  rw [hreservoir,hback,← append_assoc,← append_assoc,append_cancel_right_eq]
  conv_lhs =>
    rhs
    rw [← take_append_drop (r.mNumBitsLeft+n-8*rewound r n)
      (lowBits x n ++ msbBits r.mReservoir r.mNumBitsLeft)]
  rw [append_cancel_left_eq]
  exact eq_comm

end Put

structure Good (s : SideBySide) : Prop where
  wf : Wf s.reader
  agree : Agree s

variable {s : SideBySide} {c : Call}

theorem good_of_call (h : Good s) {v : ℕ} (hcall : readerStep s.reader c = some (v, r)) (hwf : Wf r)
    (hvalue : v = (bitListStep s.bits c).1) (hcontent : content r = (bitListStep s.bits c).2) :
    ∃ s', sideBySideStep s c = some s' ∧ Good s' := by
  refine ⟨⟨r,(bitListStep s.bits c).2,s.same && v == (bitListStep s.bits c).1⟩,?_,hwf,hcontent,?_⟩
  · rw [sideBySideStep,hcall,map_some]
  · simp [h.agree.2,hvalue]

theorem good_step (h : Good s) (hallowed : Allowed s c) (hsound : Sound s c) :
    ∃ s', sideBySideStep s c = some s' ∧ Good s' := by
  have hbits := h.agree.1
  cases c with
  | getBits n =>
    obtain ⟨v,r,hget,hwf,hvalue,hrest,_⟩ := getBits_spec h.wf hallowed.1
      (by rw [hbits]; exact hallowed.2) hsound
    rw [hbits] at hvalue hrest
    exact good_of_call h (by rw [readerStep,hget,map_some]) hwf hvalue hrest
  | skipBits n =>
    obtain ⟨r,hskip,hwf,hrest⟩ := skipLoop_spec (n+1) s.reader n h.wf (lt_succ_self n)
      (by rw [hbits]; exact hallowed) hsound
    rw [hbits] at hrest
    exact good_of_call (v := 0) h
      (by rw [readerStep,cdxBitReaderSkipBits,hskip,map_some]) hwf rfl hrest
  | putBits x n =>
    obtain ⟨hpos,hroom,hsame⟩ := hsound
    have hput := putBits_eq h.wf x hallowed
    rw [if_pos ⟨hpos,hroom⟩] at hput
    have hcontent := (content_afterPut_eq_iff hallowed hroom x).mpr hsame
    rw [hbits] at hcontent
    exact good_of_call (v := 0) h (by rw [readerStep,hput,map_some])
      (wf_afterPut h.wf hallowed hroom x) rfl hcontent
  | numBitsLeft =>
    refine good_of_call h rfl h.wf ?_ hbits
    have hlength := length_content h.wf
    rw [hbits] at hlength
    simp only [Sound] at hsound
    rw [cdxBitReaderNumBitsLeft,mod_eq_of_lt (by omega)]
    simp only [bitListStep]
    omega

theorem not_agree_of_not_sound {s' : SideBySide} (h : Good s) (hallowed : Allowed s c)
    (hsound : ¬Sound s c) (hstep : sideBySideStep s c = some s') : ¬Agree s' := by
  have hbits := h.agree.1
  cases c with
  | getBits n =>
    simp only [Sound,not_or,not_and_or,not_not] at hsound
    obtain rfl : n = 32 := by have := hallowed.1; omega
    have hget := getBits_word h.wf (by rw [hbits]; exact hallowed.2) hsound.2
    simp [sideBySideStep,readerStep,hget] at hstep
  | skipBits n =>
    simp only [Sound,not_or,not_and_or,not_not] at hsound
    have hskip : cdxBitReaderSkipBits s.reader n = none :=
      skipBits_word h.wf (by omega) (by rw [hbits]; exact hallowed) hsound.2
    simp [sideBySideStep,readerStep,hskip] at hstep
  | putBits x n =>
    have hput := putBits_eq h.wf x hallowed
    by_cases hdefined : 0 < n ∧ rewound s.reader n ≤ s.reader.mData
    · rw [if_pos hdefined] at hput
      rw [sideBySideStep,readerStep,hput] at hstep
      cases hstep
      intro hagree
      refine hsound ⟨hdefined.1,hdefined.2,?_⟩
      refine (content_afterPut_eq_iff hallowed hdefined.2 x).mp ?_
      rw [hbits]
      exact hagree.1
    · rw [if_neg hdefined] at hput
      simp [sideBySideStep,readerStep,hput] at hstep
  | numBitsLeft =>
    cases hstep
    intro hagree
    have hsame := hagree.2
    simp only [bitListStep,cdxBitReaderNumBitsLeft,Bool.and_eq_true,beq_iff_eq] at hsame
    simp only [Sound] at hsound
    omega

/-- For every buffer and every run of calls that ask for no more bits than there are: the reader
is a list of bits in every state of the run if and only if every call meets the condition. -/
theorem bit_reader_is_bit_list_iff (data : List UInt8) (calls : List Call)
    (hallowed : Guarded sideBySideStep Allowed (sideBySide data) calls) :
    Always sideBySideStep Agree (sideBySide data) calls ↔
      Guarded sideBySideStep Sound (sideBySide data) calls :=
  always_iff_guarded Good (fun _ h => h.agree) (fun _ _ => good_step)
    (fun _ _ _ => not_agree_of_not_sound) calls (sideBySide data)
    ⟨⟨zero_le _,zero_add _⟩,by simp [content,sideBySide,cdxBitReaderCreate,msbBits], rfl⟩ hallowed

theorem bit_reader_is_bit_list_of_six_bytes :
    Always sideBySideStep Agree (sideBySide [1,2,3,4,5,6])
      [.getBits 12,.getBits 28,.putBits 4 3,.numBitsLeft,.skipBits 5] :=
  (bit_reader_is_bit_list_iff _ _ (by decide +kernel)).mpr (by decide +kernel)

/-- Five bits put in front of a full reservoir push out a byte, and what is read again from the
buffer is not what was in the reservoir: 2 is expected where the buffer has 4. -/
theorem bits_put_twice_are_lost : ((runSteps sideBySideStep (sideBySide [1,2,3,4,5])
        [.getBits 31,.putBits 1 31,.putBits 0 5,.skipBits 29]).map fun s =>
      (ofBits (content s.reader), ofBits s.bits)) = some (0x0405, 0x0205) := by
  decide +kernel

end TinaPackage.Bits
