import TinaPackage.MachineInt
import TinaPackage.RingSlice

/-! The stream buffer manager of the video decoder (`vdecoder/sbm.c`). Addresses are integers, and a
`VideoStreamDataInfo*` is the index of its cell of `pFrames`. The mutex is held over every state
change, so a call is one step. Byte counts are 32-bit `int`s and wrap around. A call that ends in
`abort()` returns `none`. -/
namespace TinaPackage.StreamBuffer

def sbmFrameFifoSize : ℕ := 2048

structure VideoStreamDataInfo where
  pData : ℤ
  nLength : ℤ
  nPts : ℤ
  nPcr : ℤ
  bIsFirstPart : Bool
  bIsLastPart : Bool
  nID : ℤ
  nStreamIndex : ℤ
  bValid : Bool
  bVideoInfoFlag : ℤ
  pVideoInfo : ℤ
deriving DecidableEq

def VideoStreamDataInfo.zero : VideoStreamDataInfo :=
  ⟨0,0,0,0,false,false,0,0,false,0,0⟩

structure StreamFrameFifo where
  pFrames : ℕ → VideoStreamDataInfo
  nMaxFrameNum : ℕ
  nValidFrameNum : ℤ
  nUnReadFrameNum : ℤ
  nReadPos : ℕ
  nWritePos : ℕ
  nFlushPos : ℕ

structure Sbm where
  pStreamBuffer : ℤ
  pStreamBufferEnd : ℤ
  nStreamBufferSize : ℤ
  pWriteAddr : ℤ
  nValidDataSize : ℤ
  frameFifo : StreamFrameFifo

/-- What the allocators and `pthread_mutex_init` answer; address 0 is NULL. -/
structure SbmResources where
  pSbmBuf : ℕ
  handle : Bool
  frames : Bool
  mutex : Bool

def sbmCreate (nBufferSize : ℤ) (mem : SbmResources) : Option Sbm :=
  if nBufferSize ≤ 0 then none
  else if mem.pSbmBuf = 0 || !mem.handle || !mem.frames || !mem.mutex then none
  else
    some
      { pStreamBuffer := mem.pSbmBuf
        pStreamBufferEnd := mem.pSbmBuf+nBufferSize-1
        nStreamBufferSize := nBufferSize
        pWriteAddr := mem.pSbmBuf
        nValidDataSize := 0
        frameFifo :=
          { pFrames := fun i => { VideoStreamDataInfo.zero with nID := i }
            nMaxFrameNum := sbmFrameFifoSize
            nValidFrameNum := 0
            nUnReadFrameNum := 0
            nReadPos := 0
            nWritePos := 0
            nFlushPos := 0 } }

variable (s : Sbm)

def sbmReset : Sbm :=
  { s with
    pWriteAddr := s.pStreamBuffer
    nValidDataSize := 0
    frameFifo :=
      { s.frameFifo with
        nReadPos := 0
        nWritePos := 0
        nFlushPos := 0
        nValidFrameNum := 0
        nUnReadFrameNum := 0 } }

/-- The granted address and size; `none` is the answer -1. -/
def sbmRequestBuffer (nRequireSize : ℤ) : Option (ℤ × ℤ) :=
  if s.frameFifo.nValidFrameNum ≥ s.frameFifo.nMaxFrameNum then none
  else if s.nValidDataSize < s.nStreamBufferSize then
    let nFreeSize := int32 (s.nStreamBufferSize-s.nValidDataSize)
    if int32 (nRequireSize+64) > nFreeSize then none
    else some (s.pWriteAddr, nRequireSize)
  else none

def VideoStreamDataInfo.stored (info : VideoStreamDataInfo) : VideoStreamDataInfo :=
  { info with bValid := true }

def sbmAddStream (pDataInfo : VideoStreamDataInfo) : ℤ × Sbm :=
  if pDataInfo.pData = 0 then (-1, s)
  else if s.frameFifo.nValidFrameNum ≥ s.frameFifo.nMaxFrameNum then (-1, s)
  else if int32 (pDataInfo.nLength+s.nValidDataSize) > s.nStreamBufferSize then (-1, s)
  else
    let fifo := s.frameFifo
    let nWritePos := fifo.nWritePos+1
    let pNewWriteAddr := s.pWriteAddr+pDataInfo.nLength
    (0, { s with
      nValidDataSize := int32 (s.nValidDataSize+pDataInfo.nLength)
      pWriteAddr :=
        if pNewWriteAddr > s.pStreamBufferEnd then pNewWriteAddr-s.nStreamBufferSize
        else pNewWriteAddr
      frameFifo :=
        { fifo with
          pFrames := Function.update fifo.pFrames fifo.nWritePos pDataInfo.stored
          nWritePos := if nWritePos ≥ fifo.nMaxFrameNum then 0 else nWritePos
          nValidFrameNum := fifo.nValidFrameNum+1
          nUnReadFrameNum := fifo.nUnReadFrameNum+1 } })

/-- `none` is the answer NULL. -/
def sbmRequestStream : Option (ℕ × Sbm) :=
  let fifo := s.frameFifo
  if fifo.nUnReadFrameNum = 0 then none
  else
    let nReadPos := fifo.nReadPos+1
    some (fifo.nReadPos, { s with
      frameFifo :=
        { fifo with
          nReadPos := if nReadPos ≥ fifo.nMaxFrameNum then 0 else nReadPos
          nUnReadFrameNum := fifo.nUnReadFrameNum-1 } })

/-- The source copies `*pDataInfo` onto itself, which changes nothing. -/
def sbmReturnStream (pDataInfo : ℕ) : Option (ℤ × Sbm) :=
  let fifo := s.frameFifo
  if fifo.nValidFrameNum = 0 then some (-1, s)
  else
    let nReadPos := if fifo.nReadPos = 0 then fifo.nMaxFrameNum-1 else fifo.nReadPos-1
    if pDataInfo ≠ nReadPos then none
    else
      some (0, { s with
        frameFifo :=
          { fifo with nReadPos, nUnReadFrameNum := fifo.nUnReadFrameNum+1 } })

def sbmFlushStream (pDataInfo : ℕ) : Option (ℤ × Sbm) :=
  let fifo := s.frameFifo
  if fifo.nValidFrameNum = 0 then some (-1, s)
  else if pDataInfo ≠ fifo.nFlushPos then none
  else
    let nFlushPos := fifo.nFlushPos+1
    some (0, { s with
      nValidDataSize := int32 (s.nValidDataSize-(fifo.pFrames pDataInfo).nLength)
      frameFifo :=
        { fifo with
          nFlushPos := if nFlushPos ≥ fifo.nMaxFrameNum then 0 else nFlushPos
          nValidFrameNum := fifo.nValidFrameNum-1 } })

end TinaPackage.StreamBuffer
