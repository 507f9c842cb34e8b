import TinaPackage.VdecoderLayout

/-! Runs of one stream of the decoder. -/
namespace TinaPackage.StreamBuffer
open List StreamWorld StreamGrant

theorem wrap_address {base : ℤ} {n o k : ℕ} (hn : 0 < n) (hk : k ≤ n) :
    (if base+(o % n : ℕ)+k ≥ base+n then base+(o % n : ℕ)+k-n
      else base+(o % n : ℕ)+k) = base+((o+k) % n : ℕ) := by
  have hlt := Nat.mod_lt o hn
  have hw := wrap_add hlt hk
  rw [Nat.mod_add_mod] at hw
  rw [← hw]
  split_ifs
  · omega
  · omega
  · omega
  · omega

section Grant
variable {s : Sbm} {o : ℕ}

theorem grantAt_cut {n : ℕ} {room : ℤ} (hn : s.nStreamBufferSize = n) (hpos : 0 < n)
    (hroom : 0 < room) (hle : room ≤ n)
    (hslot : s.frameFifo.nValidFrameNum < s.frameFifo.nMaxFrameNum) :
    ∃ g, (if s.pStreamBuffer+(o % n : ℕ)+room ≤ s.pStreamBuffer+s.nStreamBufferSize
        then some (⟨s.pStreamBuffer+(o % n : ℕ),room,0,0⟩ : StreamGrant)
        else some ⟨s.pStreamBuffer+(o % n : ℕ),
          s.pStreamBuffer+s.nStreamBufferSize-(s.pStreamBuffer+(o % n : ℕ)),
          s.pStreamBuffer,
          room-(s.pStreamBuffer+s.nStreamBufferSize-(s.pStreamBuffer+(o % n : ℕ)))⟩) =
        some g ∧ GrantAt s g o ∧ g.size = room := by
  have hlt := Nat.mod_lt o hpos
  have hmod (k : ℕ) (hk : k ≤ n) : ((o+k) % n : ℕ) =
      if o % n+k ≥ n then o % n+k-n else o % n+k := by
    rw [wrap_add hlt hk,Nat.mod_add_mod]
  have hnat : s.nStreamBufferSize.toNat = n := by omega
  split_ifs with hturn
  · refine ⟨_,rfl,⟨⟨hroom,?_,?_⟩,Or.inl rfl,fun k hk => ?_, ?_,hslot⟩,?_⟩
    · dsimp only
      omega
    · omega
    · simp only [size] at hk
      rw [hnat,hmod k (by omega),address,if_pos (by dsimp only; omega)]
      split_ifs
      · omega
      · dsimp only
        omega
    · rw [hnat]
    · simp [size]
  · -- the room turns around the end of the buffer
    refine ⟨_,rfl,⟨⟨?_,?_,?_⟩,Or.inr ⟨?_,?_,?_⟩,fun k hk => ?_, ?_,hslot⟩,?_⟩
    iterate 6
      · dsimp only
        omega
    · simp only [size] at hk
      rw [hnat,hmod k (by omega)]
      simp only [address]
      split_ifs
      · omega
      · omega
      · omega
      · omega
    · rw [hnat]
    · simp [size]

end Grant

structure SameBuffer (s s' : Sbm) : Prop where
  buffer : s'.pStreamBuffer = s.pStreamBuffer
  bufferEnd : s'.pStreamBufferEnd = s.pStreamBufferEnd
  size : s'.nStreamBufferSize = s.nStreamBufferSize

section Buffer
variable {s s' : Sbm}

theorem GrantAt.congr {g : StreamGrant} {o : ℕ} (h : GrantAt s g o) (hb : SameBuffer s s')
    (hslot : s'.frameFifo.nValidFrameNum < s'.frameFifo.nMaxFrameNum) : GrantAt s' g o where
  segment := by
    unfold insideBuffer
    rw [hb.buffer,hb.size]
    exact h.segment
  ringSegment := by
    unfold insideBuffer
    rw [hb.buffer,hb.size]
    exact h.ringSegment
  address := by
    rw [hb.buffer,hb.size]
    exact h.address
  start := by
    rw [hb.buffer,hb.size]
    exact h.start
  slot := hslot

theorem sbmRequestStream_buffer {p : ℕ} (h : sbmRequestStream s = some (p, s')) :
    SameBuffer s s' ∧ s'.pWriteAddr = s.pWriteAddr ∧
      s'.frameFifo.nValidFrameNum = s.frameFifo.nValidFrameNum ∧
      s'.frameFifo.nMaxFrameNum = s.frameFifo.nMaxFrameNum := by
  unfold sbmRequestStream at h
  dsimp only at h
  split at h
  · contradiction
  · cases h
    exact ⟨⟨rfl,rfl,rfl⟩,rfl,rfl,rfl⟩

theorem sbmFlushStream_buffer {p : ℕ} {ret : ℤ} (h : sbmFlushStream s p = some (ret, s')) :
    SameBuffer s s' ∧ s'.pWriteAddr = s.pWriteAddr ∧
      s'.frameFifo.nValidFrameNum ≤ s.frameFifo.nValidFrameNum ∧
      s'.frameFifo.nMaxFrameNum = s.frameFifo.nMaxFrameNum := by
  unfold sbmFlushStream at h
  dsimp only at h
  split at h
  · cases h
    exact ⟨⟨rfl,rfl,rfl⟩,rfl,le_rfl,rfl⟩
  split at h
  · contradiction
  · cases h
    exact ⟨⟨rfl,rfl,rfl⟩,rfl,by dsimp only; omega,rfl⟩

theorem sbmAddStream_accepts {info : VideoStreamDataInfo} (hp : info.pData ≠ 0)
    (hslot : s.frameFifo.nValidFrameNum < s.frameFifo.nMaxFrameNum)
    (hroom : int32 (info.nLength+s.nValidDataSize) ≤ s.nStreamBufferSize) :
    ∃ s', sbmAddStream s info = (0, s') ∧ SameBuffer s s' ∧
      s'.pWriteAddr = if s.pWriteAddr+info.nLength > s.pStreamBufferEnd
        then s.pWriteAddr+info.nLength-s.nStreamBufferSize
        else s.pWriteAddr+info.nLength := by
  unfold sbmAddStream
  rw [if_neg hp,if_neg (by omega),if_neg (by omega)]
  exact ⟨_,rfl,⟨rfl,rfl,rfl⟩,rfl⟩

end Buffer

section Operations
variable {w : StreamWorld} {held unread : List VideoStreamDataInfo} {o : ℕ}

section
variable (h : LaidOut w held unread o)
include h

theorem LaidOut.validSize : w.ctx.pSbm.nValidDataSize = (allBytes w.submitted).length := by
  rw [h.queue.size,h.laid.dataSize]

theorem LaidOut.requestBuffer {n : ℤ} (hlo : -2^31 ≤ n)
    (hfit : requiredSize n+w.ctx.partialStreamDataInfo.nLength+64 ≤ intMax) :
    requestVideoStreamBuffer w.ctx n = none ∨
    ∃ g, requestVideoStreamBuffer w.ctx n = some g ∧
      GrantAt w.ctx.pSbm g (o+((allBytes w.submitted).length+w.current.bytes.length)) ∧
      g.size+((allBytes w.submitted).length+w.current.bytes.length)+64 ≤
        w.ctx.pSbm.nStreamBufferSize := by
  have hvalid := h.validSize
  have hfill := h.filled
  have hcap := h.fits
  have hbuf := h.queue.buffer_le
  have hreq : -2^31 ≤ requiredSize n := by
    unfold requiredSize
    split_ifs
    · omega
    · exact hlo
  have hwrap : int32 (requiredSize n+w.ctx.partialStreamDataInfo.nLength) =
      requiredSize n+w.ctx.partialStreamDataInfo.nLength :=
    int32_of_range (by omega) (by omega)
  have hwrap64 : int32 (requiredSize n+w.ctx.partialStreamDataInfo.nLength+64) =
      requiredSize n+w.ctx.partialStreamDataInfo.nLength+64 :=
    int32_of_range (by omega) hfit
  have hfree : int32 (w.ctx.pSbm.nStreamBufferSize-w.ctx.pSbm.nValidDataSize) =
      w.ctx.pSbm.nStreamBufferSize-w.ctx.pSbm.nValidDataSize :=
    int32_of_range (by omega) (by omega)
  have hsub : int32 (requiredSize n+w.ctx.partialStreamDataInfo.nLength -
      w.ctx.partialStreamDataInfo.nLength) = requiredSize n := by
    rw [Int.add_sub_cancel]
    exact int32_of_range hreq (by omega)
  simp only [requestVideoStreamBuffer,sbmRequestBuffer,hwrap,hwrap64,hfree]
  by_cases hfull : w.ctx.pSbm.frameFifo.nValidFrameNum ≥ w.ctx.pSbm.frameFifo.nMaxFrameNum
  · simp [if_pos hfull]
  by_cases hroom : w.ctx.pSbm.nValidDataSize < w.ctx.pSbm.nStreamBufferSize
  · by_cases hbig : requiredSize n+w.ctx.partialStreamDataInfo.nLength+64 >
        w.ctx.pSbm.nStreamBufferSize-w.ctx.pSbm.nValidDataSize
    · simp [if_pos hbig]
    · simp only [if_neg hfull,if_pos hroom,if_neg hbig]
      by_cases hsmall : requiredSize n+w.ctx.partialStreamDataInfo.nLength ≤
          w.ctx.partialStreamDataInfo.nLength
      · simp only [if_pos hsmall,true_or]
      · -- the room starts behind the bytes filled in before
        right
        have hnat : w.ctx.pSbm.nStreamBufferSize = w.ctx.pSbm.nStreamBufferSize.toNat := by omega
        have hstart := @wrap_address w.ctx.pSbm.pStreamBuffer w.ctx.pSbm.nStreamBufferSize.toNat
          (o+(allBytes w.submitted).length) w.current.bytes.length (by omega) (by omega)
        rw [← hnat,Nat.add_assoc] at hstart
        obtain ⟨g,hg,hat,hsize⟩ := @grantAt_cut w.ctx.pSbm
          (o+((allBytes w.submitted).length+w.current.bytes.length)) _ (requiredSize n) hnat
          (by omega) (by omega) (by omega) (by omega)
        refine ⟨g,?_,hat,by omega⟩
        rw [if_neg hsmall,hsub,h.writeAddr,hfill,hstart]
        exact hg
  · simp [if_neg hroom]

theorem LaidOut.write {g : StreamGrant} (hg : g ∈ w.grant) {k : ℕ} (hk : (k : ℤ) < g.size)
    (b : UInt8) :
    LaidOut { w with mem := Function.update w.mem (g.address k) b } held unread o := by
  obtain ⟨hat,hroom⟩ := h.room g hg
  refine { h with bytes := ?_ }
  apply Eq.trans _ h.bytes
  apply ringSlice_congr
  intro j hj
  change j < (allBytes w.submitted).length+w.current.bytes.length at hj
  dsimp only
  rw [hat.address k hk,Nat.add_assoc]
  have hne : (o+j) % w.ctx.pSbm.nStreamBufferSize.toNat ≠
      (o+((allBytes w.submitted).length+w.current.bytes.length+k)) %
        w.ctx.pSbm.nStreamBufferSize.toNat := ring_index_ne (by omega) (by omega)
  apply Function.update_of_ne
  omega

theorem LaidOut.partBytes_eq {g : StreamGrant} (hg : g ∈ w.grant) {nLength : ℤ}
    (hle : nLength ≤ g.size) :
    partBytes w.mem g nLength = ringSlice (fun k => w.mem (w.ctx.pSbm.pStreamBuffer+k))
      w.ctx.pSbm.nStreamBufferSize.toNat
      (o+((allBytes w.submitted).length+w.current.bytes.length)) nLength.toNat := by
  obtain ⟨hat,-⟩ := h.room g hg
  apply map_congr_left
  intro k hk
  have hlt := List.mem_range.mp hk
  rw [hat.address k (by omega)]

end

def StreamWorld.accumulate (w : StreamWorld) (g : StreamGrant) (info : VideoStreamDataInfo) :
    StreamWorld :=
  { w with
    ctx := if info.bIsFirstPart then submitFirstPart w.ctx info else submitLaterPart w.ctx info
    grant := none
    inFrame := true
    current :=
      if info.bIsFirstPart then ⟨g.pBuf,partBytes w.mem g info.nLength⟩
      else ⟨w.current.pFirst,w.current.bytes ++ partBytes w.mem g info.nLength⟩ }

theorem LaidOut.accumulate (h : LaidOut w held unread o) {g : StreamGrant} (hg : g ∈ w.grant)
    {info : VideoStreamDataInfo} (hlen : 0 ≤ info.nLength) (hle : info.nLength ≤ g.size)
    (hfirst : info.bIsFirstPart = !w.inFrame)
    (haddr : info.bIsFirstPart = true → info.pData = g.pBuf) :
    LaidOut (w.accumulate g info) held unread o := by
  obtain ⟨hat,hroom⟩ := h.room g hg
  have hpart := h.partBytes_eq hg hle
  have hfill := h.filled
  have hbytes := h.bytes
  have hmax := h.queue.buffer_le
  cases hff : info.bIsFirstPart with
  | true =>
    -- a new frame: nothing was filled in, and the room starts at the write address
    have hidle : w.current.bytes = [] := h.idle (by simpa [hff] using hfirst.symm)
    have hzero : w.ctx.partialStreamDataInfo.nLength = 0 := by
      rw [hfill,hidle]
      rfl
    have hstart : g.pBuf = w.ctx.pSbm.pWriteAddr := by
      rw [hat.start,h.writeAddr,hidle]
      rfl
    rw [hidle] at hbytes hpart hroom
    simp only [length_nil,Nat.add_zero,append_nil] at hbytes hpart
    have hplen : (partBytes w.mem g info.nLength).length = info.nLength.toNat := by
      rw [hpart,length_ringSlice]
    simp only [StreamWorld.accumulate,hff,if_true,submitFirstPart,hzero,ne_eq,
      not_true_eq_false,if_false]
    refine ⟨h.queue,h.pointers,h.base_pos,h.size_pos,h.bufferEnd,h.laid,h.writeAddr,?_,?_,
      by simp,?_,?_,by simp⟩
    · dsimp only
      omega
    · intro _
      exact ⟨(haddr hff).trans hstart,hstart⟩
    · rw [hplen,ringSlice_add,hbytes,← hpart]
    · dsimp only
      rw [hplen]
      omega
  | false =>
    have hin : w.inFrame = true := by
      rw [hff] at hfirst
      simpa using hfirst
    have hplen : (partBytes w.mem g info.nLength).length = info.nLength.toNat := by
      rw [hpart,length_ringSlice]
    simp only [StreamWorld.accumulate,hff,Bool.false_eq_true,if_false,submitLaterPart]
    refine ⟨h.queue,h.pointers,h.base_pos,h.size_pos,h.bufferEnd,h.laid,h.writeAddr,?_,?_,
      by simp,?_,?_,by simp⟩
    · dsimp only
      rw [length_append,hplen,int32_of_range (by omega) (by omega)]
      omega
    · intro _
      exact h.filledAddr hin
    · dsimp only
      rw [length_append,← Nat.add_assoc,hplen,ringSlice_add,hbytes,← hpart,append_assoc]
    · dsimp only
      rw [length_append,hplen]
      omega

def StreamWorld.complete (w : StreamWorld) : StreamWorld :=
  { w with
    ctx := completeFrame w.ctx
    inFrame := false
    current := ⟨0,[]⟩
    submitted := w.submitted ++ [w.current] }

section
variable (h : LaidOut w held unread o)
include h

theorem LaidOut.sameBuffer {s' : Sbm} (hsame : SameBuffer w.ctx.pSbm s') :
    0 < s'.pStreamBuffer ∧ 0 < s'.nStreamBufferSize ∧
      s'.pStreamBufferEnd = s'.pStreamBuffer+s'.nStreamBufferSize-1 := by
  rw [hsame.bufferEnd,hsame.buffer,hsame.size]
  exact ⟨h.base_pos,h.size_pos,h.bufferEnd⟩

theorem LaidOut.complete (hin : w.inFrame = true) (hgrant : w.grant = none)
    (hslot : w.ctx.pSbm.frameFifo.nValidFrameNum < w.ctx.pSbm.frameFifo.nMaxFrameNum) :
    LaidOut w.complete held (unread ++ [w.ctx.partialStreamDataInfo.stored]) o := by
  have hvalid := h.validSize
  have hfill := h.filled
  have hcap := h.fits
  have hsize := h.size_pos
  have hbuf := h.queue.buffer_le
  obtain ⟨hdata,hfirst⟩ := h.filledAddr hin
  have hpos : 0 < w.ctx.pSbm.pWriteAddr := by
    have hb := h.base_pos
    rw [h.writeAddr]
    omega
  have hwrap : int32 (w.ctx.partialStreamDataInfo.nLength+w.ctx.pSbm.nValidDataSize) =
      w.ctx.partialStreamDataInfo.nLength+w.ctx.pSbm.nValidDataSize :=
    int32_of_range (by omega) (by omega)
  obtain ⟨s',hadd,hsame,haddr⟩ := @sbmAddStream_accepts w.ctx.pSbm w.ctx.partialStreamDataInfo
    (by omega) hslot (by omega)
  have hlen : 0 ≤ w.ctx.partialStreamDataInfo.nLength := by omega
  obtain hno | ⟨s'',hadd',hqueue,hflush,hnmax⟩ := h.queue.addStream hlen (by omega)
  · rw [hadd] at hno
    exact absurd (congrArg Prod.fst hno) (by simp)
  rw [hadd] at hadd'
  cases hadd'
  have hctx : completeFrame w.ctx = ⟨s',{ w.ctx.partialStreamDataInfo.stored with
      pData := 0, nLength := 0, nPts := -1, nPcr := -1, bIsLastPart := false,
      bIsFirstPart := false, bVideoInfoFlag := 0, pVideoInfo := 0 }⟩ := by
    simp [completeFrame,addFilled,hadd]
  have hnew : s'.pWriteAddr = s'.pStreamBuffer +
      ((o+(allBytes (w.submitted ++ [w.current])).length) % s'.nStreamBufferSize.toNat : ℕ) := by
    have hnat : w.ctx.pSbm.nStreamBufferSize = w.ctx.pSbm.nStreamBufferSize.toNat := by omega
    have hmove := @wrap_address w.ctx.pSbm.pStreamBuffer w.ctx.pSbm.nStreamBufferSize.toNat
      (o+(allBytes w.submitted).length) w.current.bytes.length (by omega) (by omega)
    rw [← hnat,← h.writeAddr] at hmove
    rw [haddr,hsame.buffer,hsame.size,allBytes_concat,length_append,← Nat.add_assoc,
      ← hmove,hfill,h.bufferEnd]
    split_ifs
    · rfl
    · omega
    · omega
    · rfl
  unfold StreamWorld.complete
  rw [hctx]
  obtain ⟨hbase,hsize,hend⟩ := h.sameBuffer hsame
  refine ⟨hqueue,?_,hbase,hsize,hend,?_,hnew,rfl,by simp,by simp,?_,?_,?_⟩
  · rw [framePointers_congr _ hflush hnmax]
    exact h.pointers
  · dsimp only
    rw [hsame.buffer,hsame.size,← append_assoc]
    apply h.laid.concat
    · exact hdata.trans h.writeAddr
    · exact hfirst.trans hdata.symm
    · exact hfill
  · dsimp only
    rw [hsame.buffer,hsame.size,allBytes_concat,length_append,length_nil,Nat.add_zero,append_nil]
    exact h.bytes
  · dsimp only
    rw [hsame.size,allBytes_concat,length_append]
    simpa using hcap
  · intro g hg
    rw [hgrant] at hg
    contradiction

theorem LaidOut.requestStream {x : VideoStreamDataInfo} {rest : List VideoStreamDataInfo}
    (hx : unread = x :: rest) :
    ∃ p s', sbmRequestStream w.ctx.pSbm = some (p, s') ∧
      LaidOut { w.setSbm s' with held := w.held ++ [p] } (held ++ [x]) rest o := by
  subst hx
  obtain ⟨s',hs',-,hqueue,hflush,hmax⟩ := h.queue.requestStream
  obtain ⟨hsame,hwrite,hnum,-⟩ := sbmRequestStream_buffer hs'
  obtain ⟨hbase,hsize,hend⟩ := h.sameBuffer hsame
  refine ⟨_,s',hs',⟨hqueue,?_,hbase,hsize,hend,?_,?_,h.filled,?_,h.idle,?_,?_,?_⟩⟩
  · dsimp only [setSbm]
    rw [framePointers_congr _ hflush hmax,length_append,length_singleton,
      framePointers,ringSlice_succ,h.pointers,h.queue.readPos]
    rfl
  · dsimp only [setSbm]
    rw [hsame.buffer,hsame.size,append_assoc]
    exact h.laid
  · dsimp only [setSbm]
    rw [hwrite,hsame.buffer,hsame.size]
    exact h.writeAddr
  · dsimp only [setSbm]
    rw [hwrite]
    exact h.filledAddr
  · dsimp only [setSbm]
    rw [hsame.buffer,hsame.size]
    exact h.bytes
  · dsimp only [setSbm]
    rw [hsame.size]
    exact h.fits
  · intro g hg
    obtain ⟨hat,hroom⟩ := h.room g hg
    dsimp only [setSbm]
    rw [hsame.size]
    exact ⟨hat.congr hsame (by rw [hnum,hmax]; exact hat.slot),hroom⟩

theorem LaidOut.flushStream {p : ℕ} (hp : w.held.head? = some p) :
    ∃ s' held' o', sbmFlushStream w.ctx.pSbm p = some (0, s') ∧
      LaidOut { w.setSbm s' with held := w.held.tail, submitted := w.submitted.tail }
        held' unread o' := by
  cases held with
  | nil =>
    rw [h.pointers] at hp
    simp [framePointers] at hp
  | cons x held =>
    have hpointers := h.pointers
    rw [length_cons,framePointers,ringSlice_cons,Nat.mod_eq_of_lt h.queue.flushPos_lt] at hpointers
    rw [hpointers,List.head?_cons] at hp
    obtain ⟨s',hs',hqueue,hflush,hmax⟩ := h.queue.flushStream
    have hfirst : w.ctx.pSbm.frameFifo.nFlushPos = p := Option.some.inj hp
    rw [hfirst] at hs'
    obtain ⟨hsame,hwrite,hnum,-⟩ := sbmFlushStream_buffer hs'
    obtain ⟨r,rs,hsub⟩ : ∃ r rs, w.submitted = r :: rs := by
      cases hsub : w.submitted with
      | nil =>
        have hlaid := h.laid
        rw [hsub] at hlaid
        exact absurd hlaid id
      | cons r rs => exact ⟨r,rs,rfl⟩
    have hlaid := h.laid
    have haddr := h.writeAddr
    have hbytes := h.bytes
    have hfits := h.fits
    have hroom := h.room
    rw [hsub] at hlaid haddr hbytes hfits hroom
    simp only [allBytes_cons,length_append] at haddr hbytes hfits hroom
    obtain ⟨hbase,hsize,hend⟩ := h.sameBuffer hsame
    refine ⟨s',held,o+r.bytes.length,hs',⟨hqueue,?_,hbase,hsize,hend,?_,?_,h.filled,?_,h.idle,?_,
      ?_,?_⟩⟩
    · dsimp only [setSbm]
      rw [hpointers,tail_cons,framePointers,hflush,hmax,ringSlice_mod]
    · dsimp only [setSbm]
      rw [hsame.buffer,hsame.size,hsub,tail_cons]
      exact hlaid.2.2.2
    · dsimp only [setSbm]
      rw [hwrite,hsame.buffer,hsame.size,hsub,tail_cons,haddr,Nat.add_assoc]
    · dsimp only [setSbm]
      rw [hwrite]
      exact h.filledAddr
    · dsimp only [setSbm]
      rw [hsame.buffer,hsame.size,hsub,tail_cons]
      rw [Nat.add_assoc,ringSlice_add,append_assoc] at hbytes
      exact (append_inj hbytes (by simp)).2
    · dsimp only [setSbm]
      rw [hsame.size,hsub,tail_cons]
      push_cast at hfits
      omega
    · intro g hg
      obtain ⟨hat,hle⟩ := hroom g hg
      dsimp only [setSbm]
      rw [hsame.size,hsub,tail_cons]
      constructor
      · rw [Nat.add_assoc] at hat
        rw [Nat.add_assoc]
        apply hat.congr hsame
        have hslot := hat.slot
        rw [hmax]
        omega
      · push_cast at hle
        omega

end

end Operations

def StreamWorld.Inv (w : StreamWorld) : Prop := ∃ held unread o, LaidOut w held unread o

section Steps
variable {w : StreamWorld}

attribute [local simp] step

theorem StreamWorld.Inv.submit (h : w.Inv) {info : VideoStreamDataInfo}
    (hg : PartsInOrder w (.submit info)) :
    ∃ w', w.step (.submit info) = some w' ∧ w'.Inv := by
  obtain ⟨held,unread,o,hl⟩ := h
  obtain ⟨g,hmem,hlen,hle,hfirst,haddr⟩ := hg
  have hgrant : w.grant = some g := hmem
  have hslot := (hl.room g hmem).1.slot
  have hacc := hl.accumulate hmem hlen hle hfirst haddr
  have hsbm : (w.accumulate g info).ctx.pSbm = w.ctx.pSbm := by
    -- a first part finds nothing left over from an incomplete frame
    unfold accumulate
    cases hff : info.bIsFirstPart with
    | true =>
      have hidle : w.current.bytes = [] := hl.idle (by simpa [hff] using hfirst.symm)
      have hzero : w.ctx.partialStreamDataInfo.nLength = 0 := by
        rw [hl.filled,hidle]
        rfl
      simp [submitFirstPart,hzero]
    | false => simp [submitLaterPart]
  cases hlast : info.bIsLastPart with
  | false =>
    refine ⟨_,?_,held,unread,o,hacc⟩
    simp [hgrant,submitVideoStreamData,hlast,accumulate]
  | true =>
    have hdone := hacc.complete rfl rfl (by rw [hsbm]; exact hslot)
    refine ⟨_,?_,held,_,o,hdone⟩
    simp [hgrant,submitVideoStreamData,hlast,accumulate,complete]

theorem StreamWorld.Inv.step {op : StreamOp} (h : w.Inv) (hg : PartsInOrderFitting w op) :
    ∃ w', w.step op = some w' ∧ w'.Inv := by
  cases op with
  | requestBuffer n =>
    obtain ⟨held,unread,o,hl⟩ := h
    rcases hl.requestBuffer hg.1 hg.2 with hno | ⟨g,hsome,hat,hroom⟩
    · exact ⟨w,by simp [hno],held,unread,o,hl⟩
    · refine ⟨{ w with grant := some g },by simp [hsome],held,unread,o,
        { hl with room := ?_ }⟩
      intro g' hg'
      cases hg'
      exact ⟨hat,hroom⟩
  | write k b =>
    obtain ⟨held,unread,o,hl⟩ := h
    obtain ⟨g,hmem,hk⟩ := hg
    have hgrant : w.grant = some g := hmem
    exact ⟨_,by simp [hgrant],held,unread,o,hl.write hmem hk b⟩
  | submit info => exact h.submit hg
  | requestStream =>
    obtain ⟨held,unread,o,hl⟩ := h
    cases hu : unread with
    | nil =>
      subst hu
      exact ⟨w,by simp [hl.queue.requestStream_nil],held,[],o,hl⟩
    | cons x rest =>
      obtain ⟨p,s',hs',hl'⟩ := hl.requestStream hu
      exact ⟨_,by simp [hs'],_,_,o,hl'⟩
  | flushStream p =>
    obtain ⟨held,unread,o,hl⟩ := h
    obtain ⟨s',held',o',hs',hl'⟩ := hl.flushStream hg
    exact ⟨_,by simp [hs'],held',unread,o',hl'⟩

end Steps

theorem cyclicAddress_eq {s : Sbm} {a : ℤ} {o : ℕ}
    (ha : a = s.pStreamBuffer+(o % s.nStreamBufferSize.toNat : ℕ)) (j : ℕ) :
    cyclicAddress s a j = s.pStreamBuffer+((o+j) % s.nStreamBufferSize.toNat : ℕ) := by
  have hoff : (a-s.pStreamBuffer).toNat = o % s.nStreamBufferSize.toNat := by
    omega
  unfold cyclicAddress
  rw [hoff,Nat.mod_add_mod]

theorem LaidOut.bytesSafe {w : StreamWorld} {held unread : List VideoStreamDataInfo} {o : ℕ}
    (h : LaidOut w held unread o) : BytesSafe w := by
  have hnum := h.queue.validNum
  have hvalid : validFrames w.ctx.pSbm.frameFifo = held ++ unread := by
    rw [validFrames,← h.queue.frames]
    congr 1
    omega
  -- a granted byte lies behind all `used` bytes and less than one turn away from them
  have hoff : ∀ g ∈ w.grant, ∀ k : ℕ, k < g.size → ∀ d : ℕ,
      d < (allBytes w.submitted).length+w.current.bytes.length →
      g.address k ≠ w.ctx.pSbm.pStreamBuffer +
        ((o+d) % w.ctx.pSbm.nStreamBufferSize.toNat : ℕ) := by
    intro g hg k hk d hd
    obtain ⟨hat,hroom⟩ := h.room g hg
    rw [hat.address k hk,Nat.add_assoc]
    have hne := @ring_index_ne w.ctx.pSbm.nStreamBufferSize.toNat o d
      ((allBytes w.submitted).length+w.current.bytes.length+k) (by omega) (by omega)
    omega
  refine ⟨fun g hg => (h.room g hg).1.segment,fun g hg => (h.room g hg).1.ringSegment,?_,?_,?_⟩
  · intro g hg k hk x hx j hj
    rw [hvalid] at hx
    obtain ⟨d,hd,hle⟩ := h.laid.place hx
    rw [cyclicAddress_eq hd,Nat.add_assoc]
    apply hoff g hg k hk
    omega
  · intro g hg k hk j hj
    have hfill := h.filled
    have hin : w.inFrame = true := by
      by_contra hno
      have hidle := h.idle (by simpa using hno)
      rw [hfill,hidle,length_nil] at hj
      omega
    have haddr := (h.filledAddr hin).1.trans h.writeAddr
    rw [cyclicAddress_eq haddr,Nat.add_assoc]
    apply hoff g hg k hk
    omega
  · have hbytes := h.bytes
    rw [ringSlice_add] at hbytes
    rw [hvalid]
    exact h.laid.forall₂ (append_inj hbytes (by simp)).1

/-- In every state of every run from a new manager whose calls are in order and
whose requested sizes fit, granted room is free room and unflushed frames are as
they were submitted. -/
theorem bytes_safe_in_every_run (nBufferSize : ℤ) (res : SbmResources) (s : Sbm)
    (nStreamIndex : ℤ) (mem : ℤ → UInt8) (hint : nBufferSize ≤ intMax)
    (hs : sbmCreate nBufferSize res = some s) (ops : List StreamOp)
    (hg : Guarded step PartsInOrderFitting (.start s nStreamIndex mem) ops) :
    ∃ w, runSteps step (.start s nStreamIndex mem) ops = some w ∧ BytesSafe w := by
  have hqueue := represents_sbmCreate hint hs
  have hstart : (start s nStreamIndex mem).Inv := by
    obtain ⟨hbase,hpos,hend,hwrite⟩ := sbmCreate_buffer hs
    refine ⟨[],[],0,hqueue,rfl,hbase,hpos,hend,trivial,?_,rfl,
      by simp [start],fun _ => rfl, rfl,?_,by simp [start]⟩
    · simpa [start,StreamContext.start,allBytes] using hwrite
    · simpa [start,StreamContext.start,allBytes] using hpos.le
  obtain ⟨w,hw,held,unread,o,hl⟩ :=
    runSteps_invariant Inv (fun _ _ hi ha => hi.step ha) ops _ hstart hg
  exact ⟨w,hw,hl.bytesSafe⟩

/-- Two parts of one frame, read and flushed. -/
theorem bytes_safe_in_every_run_of_two_parts :
    ∃ s w, sbmCreate 1024 ⟨4096,true,true,true⟩ = some s ∧
      runSteps step (.start s 0 fun _ => 0)
        [.requestBuffer 2,.write 0 7,.submit ⟨4096,2,0,0,true,false,0,0,false,0,0⟩,
          .requestBuffer 1,.write 0 9,.submit ⟨4098,1,0,0,false,true,0,0,false,0,0⟩,
          .requestStream,.flushStream 0] = some w ∧ BytesSafe w := by
  simp only [exists_and_left]
  exact ⟨_,rfl,bytes_safe_in_every_run 1024 ⟨4096,true,true,true⟩ _ 0 _ (by decide) rfl _
    (by decide)⟩

/-- In an empty buffer of 4 MB the check of a request for `INT_MAX` bytes
overflows, and the second segment of the grant ends far outside the buffer. -/
theorem request_granted_outside_on_overflow :
    ∃ s w, sbmCreate 4194304 ⟨4096,true,true,true⟩ = some s ∧
      Guarded step PartsInOrder (.start s 0 fun _ => 0) [.requestBuffer intMax] ∧
      runSteps step (.start s 0 fun _ => 0) [.requestBuffer intMax] = some w ∧
      w.grant = some ⟨4096,4194304,4096,2143289343⟩ ∧ ¬BytesSafe w := by
  refine ⟨_,_,rfl,by decide,rfl,rfl,fun h => ?_⟩
  have hseg := h.ringSegment _ rfl
  exact absurd hseg (by decide)

end TinaPackage.StreamBuffer
