import TinaPackage.AesReads

/-! Seeking in the decrypting stream. A seek finds the vector and the block of its target again,
but it does not take back that the end of the media stream was seen. -/
namespace TinaPackage.Aes
open List

variable {σ : Type*} {cipher : CbcRoutine UInt8 16} {ops : ByteStreamOps σ} {ct iv₀ : List UInt8}
  {pos : σ → ℕ}

section Seek
variable (hct : 16 ∣ ct.length) (seekable : ops.Seekable ct pos)

def sought (s : AesStream σ) (m : σ) : AesStream σ :=
  { s with ioState := .ok, remainingSize := 0, remainingOffset := 0, mediaFile := m }

variable {s : AesStream σ} {o : ℕ}

theorem aesStreamSeek_set (hstop : s.forceStop = false) (ho : o < 2^31+16) :
    aesStreamSeek cipher ops s o .set =
      let r := ops.seek s.mediaFile (o/16*16-16 : ℕ)
      if r.1 < 0 then some (seekExit (sought s r.2))
      else
        let t := seekIv ops (sought s r.2) o
        if t.1 = false then some (seekExit t.2)
        else if o % 16 = 0 then some (0, t.2)
        else seekInside cipher ops t.2 ((o % 16 : ℕ) : ℤ) := by
  have hmod : (o : ℤ).tmod 16 = ((o % 16 : ℕ) : ℤ) := (Int.ofNat_tmod o 16).symm
  have hint : int32 ((o : ℤ)-(o % 16 : ℕ)-16) = (o : ℤ)-(o % 16 : ℕ)-16 :=
    int32_of_range (by omega) (by unfold intMax; omega)
  have hoffset1 : (if (o : ℤ)-(o % 16 : ℕ)-16 < 0 then 0 else (o : ℤ)-(o % 16 : ℕ)-16) =
      ((o/16*16-16 : ℕ) : ℤ) := by
    split
    · omega
    · omega
  rw [aesStreamSeek,if_neg (by simp [hstop])]
  simp only [seekOffset,hmod,hint,hoffset1,sought]
  by_cases hrem : o % 16 = 0
  · rw [if_pos hrem,if_pos (Int.natCast_eq_zero.mpr hrem)]
    rfl
  · rw [if_neg hrem,if_neg (fun h => hrem (Int.natCast_eq_zero.mp h))]
    rfl

include seekable in
theorem seekIv_eq (hiv : s.iv.length = 16) (ho : o/16*16 ≤ ct.length)
    (hpos : pos s.mediaFile = o/16*16-16) :
    ∃ m, seekIv ops s o = (true, { s with
        mediaFile := m, iv := lastBlock 16 s.originalIv (ct.take (o/16*16)) }) ∧
      pos m = o/16*16 := by
  unfold seekIv
  by_cases h16 : o < 16
  · have h0 : o/16*16 = 0 := by omega
    rw [if_pos (by exact_mod_cast h16),h0,take_zero,lastBlock_nil (by decide)]
    exact ⟨s.mediaFile,rfl,by omega⟩
  · have hpiece : ((ct.drop (o/16*16-16)).take 16).length = 16 := length_piece (by omega)
    have hret : (ops.read s.mediaFile 16).1 = 16 := by
      rw [seekable.read_ret,hpos,hpiece]
      rfl
    have hlast : (ct.drop (o/16*16-16)).take 16 =
        lastBlock 16 s.originalIv (ct.take (o/16*16)) := by
      have hlen : (ct.take (o/16*16)).length = o/16*16 :=
        length_take_of_le (by omega)
      unfold lastBlock
      rw [if_neg (by omega),hlen,drop_take]
      congr 1
      omega
    rw [if_neg (by exact_mod_cast h16)]
    simp only [hret,seekable.read_bytes,hpos]
    have hold : s.iv.drop 16 = [] := drop_eq_nil_of_le (le_of_eq hiv)
    rw [hpiece,hold,append_nil,hlast]
    refine ⟨(ops.read s.mediaFile 16).2.2,by simp,?_⟩
    rw [seekable.pos_read,hpos,hpiece]
    omega

include hct seekable in
theorem seekInside_eq (hiv₀ : iv₀.length = 16) (ho : o ≤ ct.length) (hr : o % 16 ≠ 0)
    (hpos : pos s.mediaFile = o/16*16) (hiv : s.iv = lastBlock 16 iv₀ (ct.take (o/16*16))) :
    ∃ m, seekInside cipher ops s ((o % 16 : ℕ) : ℤ) = some (0, { s with
        mediaFile := m, iv := lastBlock 16 iv₀ (ct.take (o/16*16+16)),
        remaining := ((plaintext cipher ct iv₀).drop (o/16*16)).take 16 ++ s.remaining.drop 16,
        remainingSize := 16-o % 16, remainingOffset := o % 16 }) ∧
      pos m = o/16*16+16 := by
  have hle : o/16*16+16 ≤ ct.length := by omega
  have hpiece : ((ct.drop (o/16*16)).take 16).length = 16 := length_piece hle
  have hblock : (((plaintext cipher ct iv₀).drop (o/16*16)).take 16).length = 16 :=
    length_piece (by rw [length_plaintext hiv₀ hct]; exact hle)
  have hret : (ops.read s.mediaFile 16).1 = 16 := by
    rw [seekable.read_ret,hpos,hpiece]
    rfl
  refine ⟨(ops.read s.mediaFile 16).2.2,?_,by rw [seekable.pos_read,hpos,hpiece]⟩
  simp only [seekInside,hret,seekable.read_bytes,hpos]
  rw [if_neg (by decide),if_neg (by simp),if_neg (by decide),
    aesStreamDecrypt_eq _ (piece_ne_nil hle (by decide))]
  simp only [Option.bind_some,hiv]
  rw [run_piece hiv₀ (Nat.dvd_mul_left 16 _) (Nat.dvd_refl 16) hle]
  simp only [storeRemaining,hblock,lt_irrefl,if_false,Option.map_some]
  have hsize : (((16 : ℤ)-(0 : ℕ)-(o % 16 : ℕ)) % 2^32).toNat = 16-o % 16 := by omega
  have hoffset : (((o % 16 : ℕ) : ℤ) % 2^32).toNat = o % 16 := by omega
  rw [if_neg (by omega),hsize,hoffset]

variable (cipher) in
include hct seekable in
theorem aesStreamSeek_at (hiv₀ : s.originalIv.length = 16) (hiv : s.iv.length = 16)
    (hstop : s.forceStop = false) (ho : o ≤ ct.length) (ho' : o < 2^31+16) :
    ∃ s', aesStreamSeek cipher ops s o .set = some (0, s') ∧
      At cipher ct s.originalIv pos s' o ∧ s'.ioState = .ok ∧
      s'.downloadComplete = s.downloadComplete ∧ s'.remainingSize = (o+15)/16*16-o := by
  have hle : o/16*16-16 ≤ ct.length := by omega
  have hpos := seekable.pos_seek s.mediaFile _ hle
  rw [aesStreamSeek_set hstop ho']
  generalize hr : ops.seek s.mediaFile (o/16*16-16 : ℕ) = r at hpos
  have hret : r.1 = 0 := by rw [← hr,seekable.seek_ret _ _ hle]
  obtain ⟨m,hseekIv,hm⟩ := seekIv_eq (s := sought s r.2) seekable hiv (by omega) hpos
  simp only [hret,lt_irrefl,if_false,hseekIv]
  by_cases hrem : o % 16 = 0
  · have hblock : o/16*16 = o := by omega
    have hround : (o+15)/16*16-o = 0 := by omega
    rw [hblock] at hm
    rw [if_neg (by simp),if_pos hrem]
    refine ⟨_,rfl,?_,rfl,rfl,hround.symm⟩
    exact { originalIv := rfl
            aligned := by show 16 ∣ pos m; omega
            inside := by show pos m ≤ _; omega
            iv := by show lastBlock _ _ _ = _; rw [hblock,hm]; rfl
            position := hm.symm
            bounds := by simp [sought]
            remaining := by simp [sought]
            forceStop := hstop }
  · rw [if_neg (by simp),if_neg hrem]
    obtain ⟨m',hinside,hm'⟩ := seekInside_eq hct seekable hiv₀ ho hrem (s := { sought s r.2 with
        mediaFile := m, iv := lastBlock 16 s.originalIv (ct.take (o/16*16)) }) hm rfl
    refine ⟨_,hinside,?_,rfl,rfl,by show 16-o % 16 = _; omega⟩
    exact { originalIv := rfl
            aligned := by show 16 ∣ pos m'; omega
            inside := by show pos m' ≤ _; omega
            iv := by show lastBlock _ _ _ = _; rw [hm']
            position := by show o+(16-o % 16) = pos m'; omega
            bounds := by show o % 16+(16-o % 16) ≤ 16; omega
            remaining := by
              rw [kept_block (by rw [length_plaintext hiv₀ hct]; omega) (by omega)]
              congr 2
              omega
            forceStop := hstop }

include seekable in
theorem read_ret_behind {m : σ} (h : ct.length ≤ pos m) (n : ℕ) : (ops.read m n).1 = 0 := by
  rw [seekable.read_ret,drop_eq_nil_of_le h]
  simp

variable (cipher) in
include hct seekable in
theorem aesStreamSeek_behind (hiv : s.iv.length = 16) (hstop : s.forceStop = false)
    (ho : ct.length < o) (ho' : o < 2^31+16) :
    ∃ s', aesStreamSeek cipher ops s o .set = some (-1, s') := by
  rw [aesStreamSeek_set hstop ho']
  have hseek := seekable.seek_behind s.mediaFile (o/16*16-16)
  have hpos := seekable.pos_seek s.mediaFile (o/16*16-16)
  generalize ops.seek s.mediaFile (o/16*16-16 : ℕ) = r at hseek hpos
  by_cases hret : r.1 < 0
  · simp only [hret,if_true]
    exact ⟨_,rfl⟩
  simp only [hret,if_false]
  by_cases hlast : o/16*16 ≤ ct.length
  · -- the target lies less than one block behind the end: the block of the target is missing
    obtain ⟨m,hseekIv,hm⟩ := seekIv_eq (s := sought s r.2) seekable hiv hlast (hpos (by omega))
    have hend := read_ret_behind seekable (m := m) (by omega) 16
    rw [hseekIv,if_neg (by simp),if_neg (by omega)]
    simp only [seekInside,hend,lt_irrefl,if_false]
    rw [if_pos (by omega)]
    exact ⟨_,rfl⟩
  · -- the vector of the target is missing
    have hbehind : ct.length ≤ pos r.2 := by
      by_cases hle : o/16*16-16 ≤ ct.length
      · omega
      · exact (hseek (by omega)).resolve_left hret
    have hend := read_ret_behind seekable hbehind 16
    have hfail : (seekIv ops (sought s r.2) o).1 = false := by
      rw [seekIv,if_neg (by omega)]
      simp [sought,hend]
    rw [if_pos hfail]
    exact ⟨_,rfl⟩

variable (ops) in
theorem aesStreamRead_complete {p n : ℕ} (hs : At cipher ct iv₀ pos s p)
    (hcomplete : s.downloadComplete = true) (heos : s.ioState ≠ .eos) (hn : ReadSize n) :
    ∃ s', aesStreamRead cipher ops s n =
      some (readReturn s' (((plaintext cipher ct iv₀).drop p).take (min n s.remainingSize))) := by
  have hpos := hn.1
  rw [aesStreamRead,if_neg (by omega)]
  by_cases h0 : s.remainingSize = 0
  · exact ⟨{ s with ioState := .eos },by simp [hcomplete,h0,readReturn,int32]⟩
  · have htest : (s.downloadComplete && s.remainingSize == 0) = false := by simp [h0]
    simp only [htest,Bool.false_eq_true,if_false,heos,hs.forceStop]
    rw [takeRemaining_eq hs,Option.bind_some]
    refine ⟨drained s (min n s.remainingSize),?_⟩
    simp [readLoop,drained,hs.forceStop,hcomplete]

end Seek

def seekThenRead (cipher : CbcRoutine UInt8 16) (ops : ByteStreamOps σ) (s : AesStream σ)
    (o n : ℕ) : Option (List UInt8) :=
  (aesStreamSeek cipher ops s o .set).bind fun r =>
    if r.1 = 0 then (readBytes cipher ops r.2 n).map Prod.fst else none

section Main
variable (hct : 16 ∣ ct.length) (seekable : ops.Seekable ct pos) {s : AesStream σ}
  (hiv₀ : s.originalIv.length = 16) (hiv : s.iv.length = 16) (hstop : s.forceStop = false)
include hct seekable hiv₀ hiv hstop

theorem seekThenRead_eq {o n : ℕ} (ho : o ≤ ct.length) (ho' : o < 2^31+16) (hn : ReadSize n) :
    seekThenRead cipher ops s o n = some (((plaintext cipher ct s.originalIv).drop o).take
      (if s.downloadComplete then min n ((o+15)/16*16-o) else n)) := by
  obtain ⟨s',hseek,hat,hok,hcomplete,hkept⟩ :=
    aesStreamSeek_at cipher hct seekable hiv₀ hiv hstop ho ho'
  have heos : s'.ioState ≠ .eos := by rw [hok]; decide
  rw [seekThenRead,hseek,Option.bind_some,if_pos rfl]
  cases hdone : s.downloadComplete with
  | true =>
    obtain ⟨t,hread⟩ := aesStreamRead_complete ops hat (hcomplete.trans hdone) heos hn
    rw [readBytes_of_return hread (lt_of_le_of_lt (length_take_le _ _) (by omega)),hkept]
    rfl
  | false =>
    have hreading : Reading cipher ct s.originalIv pos s' o :=
      { hat with complete := fun h => (by rw [hcomplete,hdone] at h; cases h),
                 eos := fun h => absurd h heos }
    obtain ⟨t,hread,-⟩ := readBytes_eq hiv₀ hct seekable.toFullReads hreading hn
    rw [hread]
    rfl

/-- Seeking relative to the present place starts from the place of the media stream, which is
ahead by the bytes that are kept. -/
theorem aesStreamSeek_cur_iff {t : ℕ} {d : ℤ} (htell : aesStreamTell ops s+d = t)
    (ht : t ≤ ct.length) (hsmall : t+s.remainingSize < 2^31+16) :
    aesStreamSeek cipher ops s d .cur = aesStreamSeek cipher ops s t .set ↔
      s.remainingSize = 0 := by
  -- the offset it uses instead
  have hcur : aesStreamSeek cipher ops s d .cur =
      aesStreamSeek cipher ops s ((t+s.remainingSize : ℕ) : ℤ) .set := by
    have hoffset : seekOffset ops s d .cur =
        seekOffset ops s ((t+s.remainingSize : ℕ) : ℤ) .set := by
      unfold aesStreamTell at htell
      rw [seekOffset,seekOffset,int64_of_range (by omega) (by omega)]
      omega
    rw [aesStreamSeek,aesStreamSeek,hoffset]
  rw [hcur]
  constructor
  · intro heq
    by_contra hne
    obtain ⟨s₁,hseek₁,hat₁,-⟩ :=
      aesStreamSeek_at cipher hct seekable hiv₀ hiv hstop ht (by omega)
    rw [hseek₁] at heq
    by_cases hle : t+s.remainingSize ≤ ct.length
    · -- the two arrive at different places
      obtain ⟨s₂,hseek₂,hat₂,-⟩ :=
        aesStreamSeek_at cipher hct seekable hiv₀ hiv hstop hle hsmall
      rw [hseek₂] at heq
      obtain rfl : s₂ = s₁ := by simpa using heq
      have hposition₁ := hat₁.position
      have hposition₂ := hat₂.position
      omega
    · obtain ⟨s₂,hseek₂⟩ :=
        aesStreamSeek_behind cipher hct seekable hiv hstop (by omega) hsmall
      rw [hseek₂] at heq
      simp at heq
  · intro h
    rw [h,add_zero]

end Main

/-- From every state in which no force stop is pending, a read after a seek delivers the bytes of
its target if the end of the media stream was not seen before, or if it stays in the block of the
target. A relative seek is the seek to the sum exactly when no decrypted byte is kept. -/
theorem seek_and_read_iff (cipher : CbcRoutine UInt8 16) (ops : ByteStreamOps σ) (pos : σ → ℕ)
    (ct : List UInt8) (hct : 16 ∣ ct.length) (seekable : ops.Seekable ct pos) (s : AesStream σ)
    (hiv₀ : s.originalIv.length = 16) (hiv : s.iv.length = 16) (hstop : s.forceStop = false) :
    (∀ o n, o ≤ ct.length → o < 2^31+16 → ReadSize n → (seekThenRead cipher ops s o n =
          some (((cbcDecrypt cipher.block 16 s.originalIv ct).drop o).take n) ↔
        s.downloadComplete = false ∨ min (o+n) ct.length ≤ (o+15)/16*16)) ∧
    ∀ (t : ℕ) (d : ℤ), aesStreamTell ops s+d = t → t ≤ ct.length →
      t+s.remainingSize < 2^31+16 →
      (aesStreamSeek cipher ops s d .cur = aesStreamSeek cipher ops s t .set ↔
        s.remainingSize = 0) := by
  refine ⟨fun o n ho ho' hn => ?_, fun t d htell ht hsmall =>
    aesStreamSeek_cur_iff hct seekable hiv₀ hiv hstop htell ht hsmall⟩
  have hlen : (plaintext cipher ct s.originalIv).length = ct.length := length_plaintext hiv₀ hct
  rw [seekThenRead_eq hct seekable hiv₀ hiv hstop ho ho' hn,Option.some_inj]
  change _ = List.take n (List.drop o (plaintext cipher ct s.originalIv)) ↔ _
  cases s.downloadComplete with
  | false => simp
  | true =>
    rw [take_eq_take_iff,length_drop,hlen]
    simp only [if_true,Bool.true_eq_false,false_or]
    omega

theorem seek_and_read_two_blocks :
    seekThenRead chainingOnly (memoryOps twoBlocks) (connected 0 32 zeroIv) 5 20 =
        some (((cbcDecrypt id 16 zeroIv twoBlocks).drop 5).take 20) ∧
      aesStreamSeek chainingOnly (memoryOps twoBlocks) (connected 0 32 zeroIv) 7 .cur =
        aesStreamSeek chainingOnly (memoryOps twoBlocks) (connected 0 32 zeroIv) (7 : ℕ) .set :=
  have h := seek_and_read_iff chainingOnly (memoryOps twoBlocks) id twoBlocks (by decide)
    (memoryOps_seekable twoBlocks) (connected 0 32 zeroIv) (by decide) (by decide) rfl
  ⟨(h.1 5 20 (by decide) (by decide) (by unfold ReadSize; decide)).mpr (.inl rfl),
    (h.2 7 7 rfl (by decide) (by decide)).mpr rfl⟩

/-- Once a read has come to the end, a seek to the beginning is followed by a read of nothing;
and a relative seek by zero, after five bytes, goes eleven bytes ahead. -/
theorem seek_after_end_reads_nothing :
    ((readAll (readBytes chainingOnly (memoryOps twoBlocks)) (connected 0 32 zeroIv) [40]).bind
        fun r => seekThenRead chainingOnly (memoryOps twoBlocks) r.2 0 16) = some [] ∧
      ((cbcDecrypt id 16 zeroIv twoBlocks).drop 0).take 16 ≠ [] ∧
      ((readAll (readBytes chainingOnly (memoryOps twoBlocks)) (connected 0 32 zeroIv) [5]).bind
        fun r => (aesStreamSeek chainingOnly (memoryOps twoBlocks) r.2 0 .cur).map fun t =>
          (aesStreamTell (memoryOps twoBlocks) r.2, aesStreamTell (memoryOps twoBlocks) t.2)) =
        some (5, 16) := by
  decide +kernel

end TinaPackage.Aes
