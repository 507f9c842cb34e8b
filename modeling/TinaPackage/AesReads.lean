import TinaPackage.AesModel

/-! Reads from the decrypting stream. At every place the stream knows the ciphertext block in
front of what it has fetched, and holds the decrypted bytes that were fetched and not read. -/
namespace TinaPackage.Aes
open List Option

variable {σ : Type*} (cipher : CbcRoutine UInt8 16) (ops : ByteStreamOps σ) (ct : List UInt8)
  (iv₀ : List UInt8) (pos : σ → ℕ)

def plaintext : List UInt8 := cbcDecrypt cipher.block 16 iv₀ ct

/-- The stream stands at place `p` of the plaintext. -/
structure At (s : AesStream σ) (p : ℕ) : Prop where
  originalIv : s.originalIv = iv₀
  aligned : 16 ∣ pos s.mediaFile
  inside : pos s.mediaFile ≤ ct.length
  iv : s.iv = lastBlock 16 iv₀ (ct.take (pos s.mediaFile))
  position : p+s.remainingSize = pos s.mediaFile
  bounds : s.remainingOffset+s.remainingSize ≤ 16
  remaining : (s.remaining.drop s.remainingOffset).take s.remainingSize =
    ((plaintext cipher ct iv₀).drop p).take s.remainingSize
  forceStop : s.forceStop = false

/-- The media stream has said that it is at its end only when it is. -/
structure Reading (s : AesStream σ) (p : ℕ) : Prop extends At cipher ct iv₀ pos s p where
  complete : s.downloadComplete = true → pos s.mediaFile = ct.length
  eos : s.ioState = .eos → s.downloadComplete = true ∧ s.remainingSize = 0

variable {cipher ops ct iv₀ pos}

theorem length_plaintext (hiv : iv₀.length = 16) (hct : 16 ∣ ct.length) :
    (plaintext cipher ct iv₀).length = ct.length :=
  length_cbcDecrypt (by decide) cipher.length_block hiv hct

variable {p m : ℕ} {l : List UInt8}

theorem length_piece (h : p+m ≤ l.length) : ((l.drop p).take m).length = m := by
  rw [length_take,length_drop]
  omega

theorem piece_ne_nil (h : p+m ≤ l.length) (hm : 0 < m) : (l.drop p).take m ≠ [] := by
  rw [← length_pos_iff,length_piece h]
  exact hm

theorem aesStreamDecrypt_eq (s : AesStream σ) {input : List UInt8} (hne : input ≠ [])
    (needRemove : Bool) :
    aesStreamDecrypt cipher ops s input needRemove =
      some ((cipher.run s.iv input).1, 0, { s with iv := (cipher.run s.iv input).2 }) := by
  have hlen : input.length ≠ 0 := fun h => hne (eq_nil_of_length_eq_zero h)
  have htest : notSizeMod16 input.length = false := by simp [notSizeMod16,hlen]
  simp [aesStreamDecrypt,hne,htest]

theorem run_piece (hiv : iv₀.length = 16) (hp : 16 ∣ p) (hm : 16 ∣ m) (hle : p+m ≤ ct.length) :
    cipher.run (lastBlock 16 iv₀ (ct.take p)) ((ct.drop p).take m) =
      (((plaintext cipher ct iv₀).drop p).take m, lastBlock 16 iv₀ (ct.take (p+m))) := by
  have hlen : ((ct.drop p).take m).length = m := length_piece hle
  have hfront : (ct.take p).length = p := length_take_of_le (by omega)
  have hmiddle := cbcDecrypt_middle (by decide) cipher.length_block
    (c := (ct.drop p).drop m) hiv (hfront.symm ▸ hp) (hlen.symm ▸ hm)
  rw [cipher.run_eq _ _ (hlen.symm ▸ hm),hmiddle,take_append_drop,take_append_drop,
    hlen,hfront,take_add,← lastBlock_append (hlen.symm ▸ hm)]
  rfl

variable {s : AesStream σ}

theorem copyIv_eq (hm : 16 ∣ m) (hle : p+m ≤ ct.length)
    (hs : s.iv = lastBlock 16 iv₀ (ct.take (p+m))) :
    copyIv s ((ct.drop p).take m) m = s := by
  have hlen : ((ct.drop p).take m).length = m := length_piece hle
  unfold copyIv
  split
  · have hlast : ((ct.drop p).take m).drop (m-16) = s.iv := by
      rw [hs,take_add,lastBlock_append (hlen.symm ▸ hm)]
      unfold lastBlock
      rw [if_neg (by omega),hlen]
    have hblock : (((ct.drop p).take m).drop (m-16)).length = 16 := by
      rw [length_drop,hlen]
      omega
    rw [take_of_length_le (by omega),hlast]
  · rfl

theorem readLast_eq (hiv : iv₀.length = 16) (hct : 16 ∣ ct.length) {p k len2 : ℕ} (hp : 16 ∣ p)
    (hk : 16 ∣ k) (hle : p+(k+16) ≤ ct.length) (h16 : len2 < 16)
    (hs : s.iv = lastBlock 16 iv₀ (ct.take p)) :
    readLast cipher ops s ((ct.drop p).take (k+16)) (k+len2) =
      some (((plaintext cipher ct iv₀).drop p).take (k+len2),
        { s with iv := lastBlock 16 iv₀ (ct.take (p+(k+16))),
                 remaining := ((plaintext cipher ct iv₀).drop (p+k)).take 16 ++ s.remaining.drop 16,
                 remainingOffset := len2, remainingSize := 16-len2 }) := by
  have hlen2 : (k+len2) % 16 = len2 := by omega
  have hhead : (if k = 0 then some ([], 0, s)
      else aesStreamDecrypt cipher ops s ((ct.drop p).take k) false) =
        some (((plaintext cipher ct iv₀).drop p).take k, 0,
          { s with iv := lastBlock 16 iv₀ (ct.take (p+k)) }) := by
    split
    · next h => rw [h,add_zero,← hs,take_zero]
    · next h =>
      rw [aesStreamDecrypt_eq s (piece_ne_nil (by omega) (by omega)),hs,
        run_piece hiv hp hk (by omega)]
  have hlast : aesStreamDecrypt cipher ops { s with iv := lastBlock 16 iv₀ (ct.take (p+k)) }
      ((ct.drop (p+k)).take 16) true = some (((plaintext cipher ct iv₀).drop (p+k)).take 16, 0,
        { s with iv := lastBlock 16 iv₀ (ct.take (p+k+16)) }) := by
    rw [aesStreamDecrypt_eq _ (piece_ne_nil (by omega) (by decide)),
      run_piece hiv (Nat.dvd_add hp hk) (Nat.dvd_refl 16) (by omega)]
  have hblock : (((plaintext cipher ct iv₀).drop (p+k)).take 16).length = 16 :=
    length_piece (by rw [length_plaintext hiv hct]; omega)
  have hwhole : ((plaintext cipher ct iv₀).drop p).take (k+len2) =
      ((plaintext cipher ct iv₀).drop p).take k ++
        ((plaintext cipher ct iv₀).drop (p+k)).take len2 := by
    rw [take_add,drop_drop]
  simp only [readLast,hlen2,Nat.add_sub_cancel,take_take,min_eq_left
    (Nat.le_add_right k 16),drop_take,Nat.add_sub_cancel_left,drop_drop,hhead,
    bind_some,hlast,storeRemaining,hblock,lt_irrefl,if_false,map_some,
    length_piece hle,Nat.sub_zero,min_eq_left (Nat.le_of_lt h16)]
  rw [take_append_of_le_length (by omega),take_take,min_eq_left (by omega),hwhole,add_assoc]

variable {p k : ℕ}

theorem kept_block {l old : List UInt8} (hl : p+16 ≤ l.length) (hk : k ≤ 16) :
    (((l.drop p).take 16 ++ old).drop k).take (16-k) = (l.drop (p+k)).take (16-k) := by
  have hlen : ((l.drop p).take 16).length = 16 := length_piece hl
  rw [drop_append_of_le_length (by omega),take_append_of_le_length
    (by rw [length_drop,hlen]),drop_take,take_take,Nat.min_self,drop_drop]

section Loop
variable (hiv : iv₀.length = 16) (hct : 16 ∣ ct.length) (full : ops.FullReads ct pos)
include hiv hct full

def fetched (ops : ByteStreamOps σ) (s : AesStream σ) (want m : ℕ) : AesStream σ :=
  { s with mediaFile := (ops.read s.mediaFile want).2.2, downloadComplete := m < want }

omit hiv hct in
theorem readLoop_fetch (hstop : s.forceStop = false) (hcomplete : s.downloadComplete = false)
    {aesReadLen m : ℕ} (h16 : 16 ≤ aesReadLen)
    (hm : m = ((ct.drop (pos s.mediaFile)).take (min aesReadLen bufSize)).length) (fuel len : ℕ)
    (out : List UInt8) :
    readLoop cipher ops (fuel+1) s aesReadLen len out =
      let t := fetched ops s (min aesReadLen bufSize) m
      let bigBuf := (ct.drop (pos s.mediaFile)).take m
      if m = 0 then some (readReturn t out)
      else if m ≤ len then
        (aesStreamDecrypt cipher ops t bigBuf true).bind fun d =>
          readLoop cipher ops fuel (copyIv d.2.2 bigBuf (m-d.2.1)) (aesReadLen-m)
            (len-(m-d.2.1)) (out ++ d.1)
      else
        (readLast cipher ops t bigBuf len).bind fun d =>
          readLoop cipher ops fuel (copyIv d.2 bigBuf m) (aesReadLen-m) (len-d.1.length)
            (out ++ d.1) := by
  have hwant : 0 < min aesReadLen bufSize := by unfold bufSize; omega
  have hbytes : (ops.read s.mediaFile (min aesReadLen bufSize)).2.1 =
      (ct.drop (pos s.mediaFile)).take m := by
    rw [full.read_bytes,hm,length_take,← take_eq_take_min]
  have hret : (ops.read s.mediaFile (min aesReadLen bufSize)).1 = m := by rw [full.read_ret,hm]
  have hle : m ≤ min aesReadLen bufSize := by rw [hm]; exact length_take_le _ _
  rw [readLoop,if_neg (by omega),if_neg (by simp [hstop]),if_neg (by simp [hcomplete])]
  simp only [hret,hbytes]
  rw [if_neg (by omega)]
  by_cases h0 : m = 0
  · simp [h0,fetched,hwant]
  · rw [if_neg (by omega),if_neg h0]
    by_cases hshort : m < min aesReadLen bufSize
    · simp only [Int.ofNat_lt,hshort,if_true,Int.toNat_natCast,fetched,decide_true]
    · have hm' : min aesReadLen bufSize = m := by omega
      simp only [hm',lt_irrefl,if_false,fetched,decide_false,hcomplete]

omit hiv hct in
theorem at_fetched {p want m : ℕ} (hs : At cipher ct iv₀ pos s p) (hempty : s.remainingSize = 0)
    (hm : m = ((ct.drop p).take want).length) (h16 : 16 ∣ m) :
    At cipher ct iv₀ pos
      { fetched ops s want m with iv := lastBlock 16 iv₀ (ct.take (p+m)) } (p+m) := by
  have hp : pos s.mediaFile = p := by rw [← hs.position,hempty,add_zero]
  have hpos : pos (fetched ops s want m).mediaFile = p+m := by
    rw [fetched,full.pos_read,hp,hm]
  have hle : m ≤ (ct.drop p).length := by rw [hm,length_take]; exact Nat.min_le_right _ _
  have hinside := hs.inside
  rw [length_drop] at hle
  exact { originalIv := hs.originalIv
          aligned := by rw [hpos]; exact Nat.dvd_add (hp ▸ hs.aligned) h16
          inside := by rw [hpos]; omega
          iv := by rw [hpos]
          position := by rw [hpos]; simp [fetched,hempty]
          bounds := hs.bounds
          remaining := by simp [fetched,hempty]
          forceStop := hs.forceStop }

omit hiv hct in
theorem reading_fetched {p want m : ℕ} (hs : Reading cipher ct iv₀ pos s p)
    (hempty : s.remainingSize = 0) (heos : s.ioState ≠ .eos)
    (hm : m = ((ct.drop p).take want).length) (h16 : 16 ∣ m) :
    Reading cipher ct iv₀ pos
      { fetched ops s want m with iv := lastBlock 16 iv₀ (ct.take (p+m)) } (p+m) := by
  have hat := at_fetched full hs.toAt hempty hm h16
  have hinside := hat.inside
  have hposition := hat.position
  refine { hat with complete := fun hshort => ?_, eos := fun h => absurd h heos }
  -- a read that is short has come to the end
  have hlt : m < want := by simpa [fetched] using hshort
  rw [hm,length_take,length_drop] at hlt
  rw [← hposition] at hinside ⊢
  rw [hm,length_take,length_drop] at hinside ⊢
  omega

omit hct full in
theorem drop_plaintext_of_end {p : ℕ} (hct : 16 ∣ ct.length) (hp : p = ct.length) (len : ℕ) :
    ((plaintext cipher ct iv₀).drop p).take len = [] := by
  rw [drop_eq_nil_of_le (by rw [length_plaintext hiv hct,hp]),take_nil]

/-- The loop delivers what is asked for. A turn fetches whole blocks; the last one may have to
keep a part of them. -/
theorem readLoop_eq : ∀ (fuel : ℕ) (s : AesStream σ) (p len : ℕ) (out : List UInt8),
    Reading cipher ct iv₀ pos s p → s.remainingSize = 0 → s.ioState ≠ .eos →
    (len+15)/16 < fuel → ∃ s', readLoop cipher ops fuel s ((len+15)/16*16) len out =
          some (readReturn s' (out ++ ((plaintext cipher ct iv₀).drop p).take len)) ∧
        Reading cipher ct iv₀ pos s' (p+(((plaintext cipher ct iv₀).drop p).take len).length) := by
  intro fuel
  induction fuel with
  | zero => exact fun s p len out _ _ _ hfuel => absurd hfuel (Nat.not_lt_zero _)
  | succ fuel ih =>
    intro s p len out hs hempty heos hfuel
    have hp : pos s.mediaFile = p := by rw [← hs.position,hempty,add_zero]
    have hinside := hs.inside
    have haligned : 16 ∣ p := hp ▸ hs.aligned
    by_cases hlen : (len+15)/16*16 < 16
    · have h0 : len = 0 := by omega
      subst h0
      exact ⟨s,by simp [readLoop],by simpa using hs⟩
    by_cases hcomplete : s.downloadComplete = true
    · rw [drop_plaintext_of_end hiv hct (hp ▸ hs.complete hcomplete : p = ct.length)]
      exact ⟨s,by simp [readLoop,hlen,hs.forceStop,hcomplete],by simpa using hs⟩
    have hcomplete : s.downloadComplete = false := by simpa using hcomplete
    obtain ⟨m,hm⟩ : ∃ m, m = ((ct.drop p).take (min ((len+15)/16*16) bufSize)).length := ⟨_,rfl⟩
    rw [readLoop_fetch full hs.forceStop hcomplete (Nat.le_of_not_lt hlen) (hp ▸ hm),hp]
    have hmlen : m = min (min ((len+15)/16*16) bufSize) (ct.length-p) := by
      rw [hm,length_take,length_drop]
    have h16 : 16 ∣ m := by
      unfold bufSize at hmlen
      omega
    have hwant : 16 ≤ min ((len+15)/16*16) bufSize := by unfold bufSize; omega
    have hround : m ≤ (len+15)/16*16 := by omega
    generalize min ((len+15)/16*16) bufSize = want at hm hmlen hwant
    have hnext := reading_fetched full hs hempty heos hm h16
    have hfetched : (fetched ops s want m).iv = lastBlock 16 iv₀ (ct.take p) := hp ▸ hs.iv
    have hle : p+m ≤ ct.length := by omega
    by_cases h0 : m = 0
    · subst h0
      have hsame : { fetched ops s want 0 with iv := lastBlock 16 iv₀ (ct.take (p+0)) } =
          fetched ops s want 0 := by rw [add_zero,← hfetched]
      rw [drop_plaintext_of_end hiv hct (by omega)]
      refine ⟨fetched ops s want 0,by simp,?_⟩
      rwa [hsame] at hnext
    simp only [h0,if_false]
    by_cases hmle : m ≤ len
    · -- all of it is asked for
      rw [if_pos hmle,aesStreamDecrypt_eq _ (piece_ne_nil hle (Nat.pos_of_ne_zero h0)),hfetched,
        run_piece hiv haligned h16 hle,bind_some]
      simp only [Nat.sub_zero]
      rw [copyIv_eq h16 hle rfl]
      have hrest : (len+15)/16*16-m = (len-m+15)/16*16 := by omega
      obtain ⟨s',hloop,hs'⟩ := ih _ (p+m) (len-m)
        (out ++ ((plaintext cipher ct iv₀).drop p).take m) hnext hempty heos (by omega)
      have hpiece : (((plaintext cipher ct iv₀).drop p).take m).length = m :=
        length_piece (by rw [length_plaintext hiv hct]; exact hle)
      have hwhole := take_append_take_drop (plaintext cipher ct iv₀) p m (len-m)
      rw [hpiece,Nat.add_sub_cancel' hmle] at hwhole
      refine ⟨s',?_,?_⟩
      · rw [hrest,hloop,append_assoc,hwhole]
      · rw [← hwhole,length_append,hpiece,← add_assoc]
        exact hs'
    · -- the request ends in the last block
      rw [if_neg hmle]
      obtain ⟨k,rfl⟩ : ∃ k, m = k+16 := ⟨m-16,by omega⟩
      obtain ⟨len2,rfl⟩ : ∃ len2, len = k+len2 := ⟨len-k,by omega⟩
      rw [readLast_eq hiv hct haligned (by omega) hle (by omega) hfetched,bind_some]
      simp only
      rw [copyIv_eq h16 hle rfl]
      obtain ⟨fuel,rfl⟩ : ∃ f, fuel = f+1 := ⟨fuel-1,by omega⟩
      have hpiece : (((plaintext cipher ct iv₀).drop p).take (k+len2)).length = k+len2 :=
        length_piece (by rw [length_plaintext hiv hct]; omega)
      refine ⟨_,by rw [readLoop,if_pos (by omega)],?_⟩
      rw [hpiece]
      exact { hnext with
          position := by rw [← hnext.position]; simp only [fetched,hempty]; omega
          bounds := by show len2+(16-len2) ≤ 16; omega
          remaining := by
            rw [kept_block (by rw [length_plaintext hiv hct]; omega) (by omega),add_assoc]
          eos := fun h => absurd h heos }

def drained (s : AesStream σ) (k : ℕ) : AesStream σ :=
  { s with remainingOffset := s.remainingOffset+k, remainingSize := s.remainingSize-k }

omit hiv hct full in
theorem takeRemaining_eq {p : ℕ} (hs : At cipher ct iv₀ pos s p) (size : ℕ) :
    takeRemaining s size = some (((plaintext cipher ct iv₀).drop p).take (min size s.remainingSize),
        drained s (min size s.remainingSize)) := by
  have hbounds := hs.bounds
  have hremaining := congrArg (List.take (min size s.remainingSize)) hs.remaining
  rw [take_take,take_take,min_eq_left (Nat.min_le_right _ _)] at hremaining
  unfold takeRemaining drained
  split
  · next h0 =>
    have hmin : min size s.remainingSize = 0 := by omega
    rw [hmin,take_zero,add_zero,Nat.sub_zero]
  · next h0 => rw [if_neg (by omega),hremaining]

omit hiv hct full in
theorem at_drained (hs : At cipher ct iv₀ pos s p) (hk : k ≤ s.remainingSize) :
    At cipher ct iv₀ pos (drained s k) (p+k) := by
  have hremaining := congrArg (List.drop k) hs.remaining
  rw [drop_take,drop_take,drop_drop,drop_drop] at hremaining
  have hposition := hs.position
  have hbounds := hs.bounds
  exact { hs with
          position := by simp only [drained]; omega
          bounds := by simp only [drained]; omega
          remaining := hremaining }

theorem aesStreamRead_eq {p n : ℕ} (hs : Reading cipher ct iv₀ pos s p) (hpos : 0 < n)
    (hn : n < 2^31) :
    ∃ s', aesStreamRead cipher ops s n =
        some (readReturn s' (((plaintext cipher ct iv₀).drop p).take n)) ∧
      Reading cipher ct iv₀ pos s' (p+(((plaintext cipher ct iv₀).drop p).take n).length) := by
  have hposition := hs.position
  have hinside := hs.inside
  rw [aesStreamRead,if_neg (by omega)]
  by_cases hend : s.downloadComplete = true ∧ s.remainingSize = 0
  · -- nothing is left
    have hp : p = ct.length := by rw [← hs.complete hend.1,← hposition,hend.2,add_zero]
    rw [drop_plaintext_of_end hiv hct hp]
    refine ⟨{ s with ioState := .eos },by simp [hend,readReturn,int32],?_⟩
    exact { hs with eos := fun _ => hend }
  · have heos : s.ioState ≠ .eos := fun h => hend (hs.eos h)
    have htest : (s.downloadComplete && s.remainingSize == 0) = false := by
      simpa [Bool.and_eq_true] using hend
    simp only [htest,Bool.false_eq_true,if_false,heos,hs.forceStop]
    rw [takeRemaining_eq hs.toAt n,bind_some]
    have hlength : (((plaintext cipher ct iv₀).drop p).take (min n s.remainingSize)).length =
        min n s.remainingSize := length_piece (by rw [length_plaintext hiv hct]; omega)
    have hdrained : Reading cipher ct iv₀ pos (drained s (min n s.remainingSize))
        (p+min n s.remainingSize) :=
      { at_drained hs.toAt (Nat.min_le_right _ _) with
        complete := hs.complete
        eos := fun h => absurd h heos }
    simp only [hlength]
    rw [Nat.mod_eq_of_lt (show n-min n s.remainingSize+15 < 2^32 by omega)]
    by_cases hsome : n ≤ s.remainingSize
    · -- the bytes that are kept suffice
      rw [min_eq_left hsome] at hlength hdrained ⊢
      refine ⟨drained s n,by simp [readLoop],?_⟩
      rwa [hlength]
    · rw [Nat.min_eq_right (by omega)] at hlength hdrained ⊢
      have hempty : (drained s s.remainingSize).remainingSize = 0 := Nat.sub_self _
      obtain ⟨s',hloop,hs'⟩ := readLoop_eq hiv hct full
        ((n-s.remainingSize+15)/16*16/16+1) _ _ (n-s.remainingSize)
        (((plaintext cipher ct iv₀).drop p).take s.remainingSize) hdrained hempty heos (by omega)
      have hwhole := take_append_take_drop (plaintext cipher ct iv₀) p s.remainingSize
        (n-s.remainingSize)
      rw [hlength,Nat.add_sub_cancel' (by omega)] at hwhole
      refine ⟨s',by rw [hloop,hwhole],?_⟩
      rw [← hwhole,length_append,hlength,← add_assoc]
      exact hs'

end Loop

def readBytes (cipher : CbcRoutine UInt8 16) (ops : ByteStreamOps σ) (s : AesStream σ) (size : ℕ) :
    Option (List UInt8 × AesStream σ) :=
  (aesStreamRead cipher ops s size).map fun r => (r.data.take r.ret.toNat, r.stream)

/-- The sizes that `CdxStreamRead` can pass on: its argument is a `cdx_int32`, and zero fails
the check. -/
def ReadSize (n : ℕ) : Prop := 0 < n ∧ n < 2^31

theorem readBytes_of_return {s s' : AesStream σ} {n : ℕ} {out : List UInt8}
    (h : aesStreamRead cipher ops s n = some (readReturn s' out)) (hlen : out.length < 2^31) :
    readBytes cipher ops s n = some (out, s') := by
  have hret : int32 out.length = out.length :=
    int32_of_range (by omega) (by unfold intMax; omega)
  simp only [readBytes,h,map_some,readReturn,hret,Int.toNat_natCast,take_length]

theorem readBytes_eq (hiv : iv₀.length = 16) (hct : 16 ∣ ct.length) (full : ops.FullReads ct pos)
    {p n : ℕ} (hs : Reading cipher ct iv₀ pos s p) (hn : ReadSize n) :
    ∃ s', readBytes cipher ops s n = some (((plaintext cipher ct iv₀).drop p).take n, s') ∧
      Reading cipher ct iv₀ pos s' (p+(((plaintext cipher ct iv₀).drop p).take n).length) := by
  obtain ⟨s',hread,hs'⟩ := aesStreamRead_eq hiv hct full hs hn.1 hn.2
  have hlen := length_take_le n ((plaintext cipher ct iv₀).drop p)
  exact ⟨s',readBytes_of_return hread (Nat.lt_of_le_of_lt hlen hn.2),hs'⟩

variable {mediaFile : σ}

theorem reading_connected (cipher : CbcRoutine UInt8 16) (hpos : pos mediaFile = 0) (size : ℤ) :
    Reading cipher ct iv₀ pos (connected mediaFile size iv₀) 0 where
  originalIv := rfl
  aligned := by simp [connected,hpos]
  inside := by simp [connected,hpos]
  iv := by simp [connected,hpos]
  position := by simp [connected,hpos]
  bounds := by simp [connected]
  remaining := by simp [connected]
  forceStop := rfl
  complete := fun h => by cases h
  eos := fun h => by cases h

theorem readAll_connected (cipher : CbcRoutine UInt8 16) (hiv : iv₀.length = 16)
    (hct : 16 ∣ ct.length) (full : ops.FullReads ct pos) (hpos : pos mediaFile = 0)
    {sizes : List ℕ} (hsizes : ∀ n ∈ sizes, ReadSize n) :
    ∃ s, readAll (readBytes cipher ops) (connected mediaFile ct.length iv₀) sizes =
      some ((cbcDecrypt cipher.block 16 iv₀ ct).take sizes.sum, s) :=
  readAll_eq_take (Reading cipher ct iv₀ pos) (fun _ _ _ hs hn => readBytes_eq hiv hct full hs hn)
    sizes _ 0 (reading_connected cipher hpos _) hsizes

/-- However a stream is read from its beginning, what comes out is the decryption of the
ciphertext up to the number of bytes asked for: two ways of reading differ only in how far they
go. -/
theorem reads_do_not_depend_on_sizes (cipher : CbcRoutine UInt8 16) (ops : ByteStreamOps σ)
    (pos : σ → ℕ) (ct iv₀ : List UInt8) (hct : 16 ∣ ct.length) (hiv : iv₀.length = 16)
    (full : ops.FullReads ct pos) (mediaFile : σ) (hpos : pos mediaFile = 0)
    (sizes₁ sizes₂ : List ℕ) (h₁ : ∀ n ∈ sizes₁, ReadSize n) (h₂ : ∀ n ∈ sizes₂, ReadSize n) :
    ∃ out₁ s₁ out₂ s₂, readAll (readBytes cipher ops) (connected mediaFile ct.length iv₀) sizes₁ =
        some (out₁, s₁) ∧
      readAll (readBytes cipher ops) (connected mediaFile ct.length iv₀) sizes₂ = some (out₂, s₂) ∧
      out₁ = (cbcDecrypt cipher.block 16 iv₀ ct).take sizes₁.sum ∧
      out₂ = (cbcDecrypt cipher.block 16 iv₀ ct).take sizes₂.sum ∧
      (out₁ <+: out₂ ∨ out₂ <+: out₁) := by
  obtain ⟨s₁,hread₁⟩ := readAll_connected cipher hiv hct full hpos h₁
  obtain ⟨s₂,hread₂⟩ := readAll_connected cipher hiv hct full hpos h₂
  refine ⟨_,s₁,_,s₂,hread₁,hread₂,rfl,rfl,?_⟩
  exact prefix_or_prefix_of_prefix ( take_prefix _ _) ( take_prefix _ _)

def chainingOnly : CbcRoutine UInt8 16 where
  block := id
  length_block _ h := h
  run iv ct := (cbcDecrypt id 16 iv ct, lastBlock 16 iv ct)
  run_eq _ _ _ := rfl

def twoBlocks : List UInt8 := (List.range 32).map UInt8.ofNat

def zeroIv : List UInt8 := List.replicate 16 0

theorem reads_of_two_blocks : ∃ out₁ s₁ out₂ s₂,
      readAll (readBytes chainingOnly (memoryOps twoBlocks))
        (connected 0 twoBlocks.length zeroIv) [5,20,40] = some (out₁, s₁) ∧
      readAll (readBytes chainingOnly (memoryOps twoBlocks))
        (connected 0 twoBlocks.length zeroIv) [16,1] = some (out₂, s₂) ∧
      out₁ = (cbcDecrypt id 16 zeroIv twoBlocks).take 65 ∧
      out₂ = (cbcDecrypt id 16 zeroIv twoBlocks).take 17 ∧
      (out₁ <+: out₂ ∨ out₂ <+: out₁) :=
  reads_do_not_depend_on_sizes chainingOnly (memoryOps twoBlocks) id twoBlocks zeroIv (by decide)
    (by decide) (memoryOps_seekable twoBlocks).toFullReads 0 rfl [5,20,40] [16,1]
    (by unfold ReadSize; decide) (by unfold ReadSize; decide)

/-- Up to the next whole block, each of the bytes added says how many they are. -/
def pkcs7 (text : List UInt8) : List UInt8 :=
  text ++ List.replicate (16-text.length % 16) (UInt8.ofNat (16-text.length % 16))

theorem length_pkcs7 (text : List UInt8) :
    (pkcs7 text).length = text.length+(16-text.length % 16) := by
  rw [pkcs7,length_append,length_replicate]

/-- Whoever reads the encryption of a padded text to its end gets the padding with it. -/
theorem padding_is_delivered (cipher : CbcRoutine UInt8 16) (ops : ByteStreamOps σ) (pos : σ → ℕ)
    (text ct iv₀ : List UInt8) (hct : 16 ∣ ct.length) (hiv : iv₀.length = 16)
    (hcbc : cbcDecrypt cipher.block 16 iv₀ ct = pkcs7 text) (full : ops.FullReads ct pos)
    (mediaFile : σ) (hpos : pos mediaFile = 0) (sizes : List ℕ) (hsizes : ∀ n ∈ sizes, ReadSize n)
    (hend : ct.length ≤ sizes.sum) :
    ∃ out s, readAll (readBytes cipher ops) (connected mediaFile ct.length iv₀) sizes =
        some (out, s) ∧ out = pkcs7 text ∧ out ≠ text := by
  obtain ⟨s,hread⟩ := readAll_connected cipher hiv hct full hpos hsizes
  have hlength : (pkcs7 text).length = ct.length := by
    rw [← hcbc]
    exact length_plaintext hiv hct
  rw [hcbc,take_of_length_le (by omega)] at hread
  refine ⟨_,s,hread,rfl,fun heq => ?_⟩
  -- at least one byte has been added
  have hlonger := length_pkcs7 text
  rw [heq] at hlonger
  omega

def paddedText : List UInt8 := pkcs7 [1,2,3]

theorem padding_is_delivered_after_three_bytes :
    ∃ out s, readAll (readBytes chainingOnly (memoryOps paddedText))
        (connected 0 paddedText.length zeroIv) [5,20] = some (out, s) ∧
      out = paddedText ∧ out ≠ [1,2,3] :=
  padding_is_delivered chainingOnly (memoryOps paddedText) id [1,2,3] paddedText zeroIv
    (by decide) (by decide) (by decide) (memoryOps_seekable paddedText).toFullReads 0 rfl [5,20]
    (by unfold ReadSize; decide) (by decide)

theorem padding_not_removed :
    (readAll (readBytes chainingOnly (memoryOps paddedText))
        (connected 0 paddedText.length zeroIv) [16,16]).map Prod.fst =
      some ([1,2,3] ++ List.replicate 13 13) := by
  decide +kernel

end TinaPackage.Aes
