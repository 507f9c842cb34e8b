import TinaPackage.SbmModel

/-! The stream buffer manager as a queue with a read and a flush cursor. -/
namespace TinaPackage.StreamBuffer
open List

def dataSize (frames : List VideoStreamDataInfo) : ℤ :=
  (frames.map VideoStreamDataInfo.nLength).sum

@[simp] theorem dataSize_nil : dataSize [] = 0 := rfl

@[simp] theorem dataSize_cons (x : VideoStreamDataInfo) (xs : List VideoStreamDataInfo) :
    dataSize (x :: xs) = x.nLength+dataSize xs := by
  simp [dataSize]

@[simp] theorem dataSize_append (xs ys : List VideoStreamDataInfo) :
    dataSize (xs ++ ys) = dataSize xs+dataSize ys := by
  simp [dataSize]

/-- The manager holds the frames of an abstract queue: `held` are with the
decoder, oldest first, and `unread` wait behind them. -/
structure Represents (s : Sbm) (held unread : List VideoStreamDataInfo) : Prop where
  nMax_pos : 0 < s.frameFifo.nMaxFrameNum
  flushPos_lt : s.frameFifo.nFlushPos < s.frameFifo.nMaxFrameNum
  le_max : held.length+unread.length ≤ s.frameFifo.nMaxFrameNum
  frames : ringSlice s.frameFifo.pFrames s.frameFifo.nMaxFrameNum s.frameFifo.nFlushPos
    (held.length+unread.length) = held ++ unread
  readPos : s.frameFifo.nReadPos = (s.frameFifo.nFlushPos+held.length) % s.frameFifo.nMaxFrameNum
  writePos : s.frameFifo.nWritePos =
    (s.frameFifo.nFlushPos+(held.length+unread.length)) % s.frameFifo.nMaxFrameNum
  validNum : s.frameFifo.nValidFrameNum = held.length+unread.length
  unReadNum : s.frameFifo.nUnReadFrameNum = unread.length
  lengths : ∀ x ∈ held ++ unread, 0 ≤ x.nLength
  size : s.nValidDataSize = dataSize (held ++ unread)
  size_le : s.nValidDataSize ≤ s.nStreamBufferSize
  buffer_le : s.nStreamBufferSize ≤ intMax

theorem dataSize_nonneg {frames : List VideoStreamDataInfo} (h : ∀ x ∈ frames, 0 ≤ x.nLength) :
    0 ≤ dataSize frames := by
  induction frames with
  | nil => simp
  | cons x xs ih =>
    have hx := h x (mem_cons_self ..)
    have hxs := ih fun y hy => h y (mem_cons_of_mem _ hy)
    rw [dataSize_cons]
    omega

section Operations
variable {s : Sbm} {held unread : List VideoStreamDataInfo}

section
variable (h : Represents s held unread)
include h

theorem Represents.size_nonneg : 0 ≤ s.nValidDataSize := by
  rw [h.size]
  exact dataSize_nonneg h.lengths

theorem Represents.addStream {info : VideoStreamDataInfo} (hlen : 0 ≤ info.nLength)
    (hfit : info.nLength+s.nValidDataSize ≤ intMax) :
    sbmAddStream s info = (-1, s) ∨
    ∃ s', sbmAddStream s info = (0, s') ∧ Represents s' held (unread ++ [info.stored]) ∧
      s'.frameFifo.nFlushPos = s.frameFifo.nFlushPos ∧
      s'.frameFifo.nMaxFrameNum = s.frameFifo.nMaxFrameNum := by
  have hnn := h.size_nonneg
  have hwrap : int32 (info.nLength+s.nValidDataSize) = info.nLength+s.nValidDataSize :=
    int32_of_range (by omega) hfit
  unfold sbmAddStream
  split_ifs with hp hfull hbig
  · exact Or.inl rfl
  · exact Or.inl rfl
  · exact Or.inl rfl
  · right
    refine ⟨_,rfl,?_,rfl,rfl⟩
    have hroom : held.length+unread.length < s.frameFifo.nMaxFrameNum := by
      have := h.validNum
      omega
    have hcount : held.length+(unread ++ [info.stored]).length =
        held.length+unread.length+1 := by simp [add_assoc]
    refine ⟨h.nMax_pos,h.flushPos_lt,?_,?_,h.readPos,?_,?_,?_,?_,?_,?_,h.buffer_le⟩
    · rw [hcount]
      exact hroom
    · -- the frame is written right behind the last valid one
      rw [hcount,h.writePos,ringSlice_write _ hroom,h.frames,append_assoc]
    · have hw := h.writePos
      have hlt := Nat.mod_lt (s.frameFifo.nFlushPos+(held.length+unread.length)) h.nMax_pos
      rw [hcount,wrap_succ (by omega),hw,Nat.mod_add_mod,add_assoc]
    · simp only [h.validNum,length_append,length_singleton]
      omega
    · simp [h.unReadNum]
    · intro x hx
      rw [← append_assoc,mem_append,mem_singleton] at hx
      rcases hx with hx | hx
      · exact h.lengths x hx
      · rw [hx]
        exact hlen
    · rw [int32_of_range (by omega) (by omega),h.size]
      simp [VideoStreamDataInfo.stored,add_assoc]
    · dsimp only
      rw [int32_of_range (by omega) (by omega)]
      omega

theorem Represents.unread_eq :
    ringSlice s.frameFifo.pFrames s.frameFifo.nMaxFrameNum s.frameFifo.nReadPos unread.length =
      unread := by
  have hf := h.frames
  rw [ringSlice_add] at hf
  rw [h.readPos,ringSlice_mod]
  exact (append_inj hf (by simp)).2

end

theorem Represents.requestStream_nil (h : Represents s held []) : sbmRequestStream s = none := by
  have hn : s.frameFifo.nUnReadFrameNum = 0 := h.unReadNum
  simp [sbmRequestStream,hn]

variable {x : VideoStreamDataInfo}

theorem Represents.requestStream {rest : List VideoStreamDataInfo}
    (h : Represents s held (x :: rest)) :
    ∃ s', sbmRequestStream s = some (s.frameFifo.nReadPos, s') ∧
      s.frameFifo.pFrames s.frameFifo.nReadPos = x ∧ Represents s' (held ++ [x]) rest ∧
      s'.frameFifo.nFlushPos = s.frameFifo.nFlushPos ∧
      s'.frameFifo.nMaxFrameNum = s.frameFifo.nMaxFrameNum := by
  have hn := h.unReadNum
  rw [length_cons] at hn
  have hread : s.frameFifo.nReadPos < s.frameFifo.nMaxFrameNum := by
    rw [h.readPos]
    exact Nat.mod_lt _ h.nMax_pos
  have hx : s.frameFifo.pFrames s.frameFifo.nReadPos = x := by
    have hu := h.unread_eq
    rw [length_cons,ringSlice_cons,Nat.mod_eq_of_lt hread] at hu
    exact (List.cons.inj hu).1
  have hcount : (held ++ [x]).length+rest.length = held.length+(x :: rest).length := by
    simp only [length_append,length_cons,length_nil]
    omega
  have hsplit : held ++ [x] ++ rest = held ++ x :: rest := by simp
  unfold sbmRequestStream
  rw [if_neg (by omega)]
  refine ⟨_,rfl,hx,⟨h.nMax_pos,h.flushPos_lt,?_,?_,?_,?_,?_,?_,?_,?_,h.size_le,h.buffer_le⟩,rfl,rfl⟩
  · rw [hcount]
    exact h.le_max
  · rw [hcount,hsplit]
    exact h.frames
  · rw [wrap_succ hread,h.readPos,Nat.mod_add_mod,length_append,length_singleton,add_assoc]
  · rw [hcount]
    exact h.writePos
  · have hv := h.validNum
    dsimp only
    omega
  · dsimp only
    omega
  · rw [hsplit]
    exact h.lengths
  · rw [hsplit]
    exact h.size

theorem Represents.returnStream (h : Represents s (held ++ [x]) unread) {p : ℕ}
    (hp : p = (s.frameFifo.nFlushPos+held.length) % s.frameFifo.nMaxFrameNum) :
    ∃ s', sbmReturnStream s p = some (0, s') ∧ Represents s' held (x :: unread) ∧
      s'.frameFifo.nFlushPos = s.frameFifo.nFlushPos ∧
      s'.frameFifo.nMaxFrameNum = s.frameFifo.nMaxFrameNum := by
  have hcount : (held ++ [x]).length+unread.length = held.length+(x :: unread).length := by
    simp only [length_append,length_cons,length_nil]
    omega
  have hsplit : held ++ [x] ++ unread = held ++ x :: unread := by simp
  have hv := h.validNum
  have hback : (if s.frameFifo.nReadPos = 0 then s.frameFifo.nMaxFrameNum-1
      else s.frameFifo.nReadPos-1) = p := by
    rw [hp]
    apply wrap_pred _ h.nMax_pos
    rw [h.readPos,length_append,length_singleton,add_assoc]
  have hne : s.frameFifo.nValidFrameNum ≠ 0 := by
    simp only [length_append,length_singleton] at hv
    omega
  unfold sbmReturnStream
  rw [if_neg hne,hback,if_neg (by simp)]
  refine ⟨_,rfl,⟨h.nMax_pos,h.flushPos_lt,?_,?_,hp,?_,?_,?_,?_,?_,h.size_le,h.buffer_le⟩,rfl,rfl⟩
  · rw [← hcount]
    exact h.le_max
  · rw [← hcount,← hsplit]
    exact h.frames
  · rw [← hcount]
    exact h.writePos
  · dsimp only
    omega
  · simp [h.unReadNum]
  · rw [← hsplit]
    exact h.lengths
  · rw [← hsplit]
    exact h.size

theorem Represents.flushStream (h : Represents s (x :: held) unread) :
    ∃ s', sbmFlushStream s s.frameFifo.nFlushPos = some (0, s') ∧ Represents s' held unread ∧
      s'.frameFifo.nFlushPos = (s.frameFifo.nFlushPos+1) % s.frameFifo.nMaxFrameNum ∧
      s'.frameFifo.nMaxFrameNum = s.frameFifo.nMaxFrameNum := by
  have hv := h.validNum
  have hcount : (x :: held).length+unread.length = held.length+unread.length+1 := by
    rw [length_cons]
    omega
  have hf := h.frames
  rw [hcount,ringSlice_cons,Nat.mod_eq_of_lt h.flushPos_lt,cons_append] at hf
  obtain ⟨hx,hrest⟩ := List.cons.inj hf
  have hxlen : 0 ≤ x.nLength := h.lengths x (by simp)
  have hlengths : ∀ y ∈ held ++ unread, 0 ≤ y.nLength := by
    intro y hy
    apply h.lengths
    exact mem_cons_of_mem _ hy
  have hsize := h.size
  rw [cons_append,dataSize_cons] at hsize
  have hnn := dataSize_nonneg hlengths
  have hle := h.size_le
  have hbuf := h.buffer_le
  have hwrap : int32 (s.nValidDataSize-x.nLength) = s.nValidDataSize-x.nLength :=
    int32_of_range (by omega) (by omega)
  have hpos : (s.frameFifo.nFlushPos+1) % s.frameFifo.nMaxFrameNum < s.frameFifo.nMaxFrameNum :=
    Nat.mod_lt _ h.nMax_pos
  unfold sbmFlushStream
  dsimp only
  rw [if_neg (by omega),if_neg (by simp),wrap_succ h.flushPos_lt,hx,hwrap]
  refine ⟨_,rfl,⟨h.nMax_pos,hpos,?_,?_,?_,?_,?_,h.unReadNum,hlengths,?_,?_,hbuf⟩,rfl,rfl⟩
  · have hmax := h.le_max
    dsimp only
    omega
  · dsimp only
    rw [ringSlice_mod]
    exact hrest
  · dsimp only
    rw [h.readPos,Nat.mod_add_mod,length_cons,add_right_comm,add_assoc]
  · dsimp only
    rw [h.writePos,hcount,Nat.mod_add_mod]
    congr 1
    omega
  · dsimp only
    omega
  · dsimp only
    omega
  · dsimp only
    omega

theorem Represents.reset (h : Represents s held unread) : Represents (sbmReset s) [] [] := by
  have hnn := h.size_nonneg
  have hle := h.size_le
  refine ⟨h.nMax_pos,h.nMax_pos,?_,rfl,?_,?_,rfl,rfl,by simp,rfl,?_,h.buffer_le⟩
  · simp
  · simp [sbmReset]
  · simp [sbmReset]
  · change (0 : ℤ) ≤ s.nStreamBufferSize
    omega

variable {nBufferSize : ℤ} {mem : SbmResources}

theorem represents_sbmCreate (hsize : nBufferSize ≤ intMax)
    (h : sbmCreate nBufferSize mem = some s) :
    Represents s [] [] := by
  unfold sbmCreate at h
  split at h
  · contradiction
  split at h
  · contradiction
  cases h
  have hmax : 0 < sbmFrameFifoSize := by decide
  refine ⟨hmax,hmax,by simp,rfl,rfl,rfl,rfl,rfl,by simp,rfl,?_,hsize⟩
  dsimp only
  omega

theorem sbmCreate_buffer (h : sbmCreate nBufferSize mem = some s) :
    0 < s.pStreamBuffer ∧ 0 < s.nStreamBufferSize ∧
      s.pStreamBufferEnd = s.pStreamBuffer+s.nStreamBufferSize-1 ∧
      s.pWriteAddr = s.pStreamBuffer := by
  unfold sbmCreate at h
  split at h
  · contradiction
  split at h
  · contradiction
  · rename_i hsize hres
    cases h
    simp only [Bool.or_eq_true,decide_eq_true_eq,not_or] at hres
    refine ⟨?_,?_,rfl,rfl⟩
    · dsimp only
      omega
    · dsimp only
      omega

end Operations

end TinaPackage.StreamBuffer
