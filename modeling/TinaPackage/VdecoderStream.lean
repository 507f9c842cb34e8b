import TinaPackage.SbmModel

/-! Filling the stream buffer (`RequestVideoStreamBuffer` and
`SubmitVideoStreamData` of `vdecoder/vdecoder.c`), for one stream of a decoder.
The cache flush before a frame is added touches no state of the model. -/
namespace TinaPackage.StreamBuffer

/-- The part of `VideoDecoderContext` that belongs to one stream. -/
structure StreamContext where
  pSbm : Sbm
  partialStreamDataInfo : VideoStreamDataInfo

structure StreamGrant where
  pBuf : ℤ
  bufSize : ℤ
  pRingBuf : ℤ
  ringBufSize : ℤ
deriving DecidableEq

/-- Parsers ask for nothing to submit an empty frame; they are given four bytes. -/
def requiredSize (nRequireSize : ℤ) : ℤ :=
  if nRequireSize = 0 then 4 else nRequireSize

variable (p : StreamContext)

/-- `none` is the answer -1. -/
def requestVideoStreamBuffer (nRequireSize : ℤ) : Option StreamGrant :=
  let pSbm := p.pSbm
  let nFilled := p.partialStreamDataInfo.nLength
  match sbmRequestBuffer pSbm (int32 (requiredSize nRequireSize+nFilled)) with
  | none => none
  | some (pMem, nFreeSize) =>
    if nFreeSize ≤ nFilled then none
    else
      let pStreamBufEnd := pSbm.pStreamBuffer+pSbm.nStreamBufferSize
      let pStart :=
        if pMem+nFilled ≥ pStreamBufEnd then pMem+nFilled-pSbm.nStreamBufferSize
        else pMem+nFilled
      let nFreeSize := int32 (nFreeSize-nFilled)
      if pStart+nFreeSize ≤ pStreamBufEnd then some ⟨pStart,nFreeSize,0,0⟩
      else
        let nBufSize := pStreamBufEnd-pStart
        some ⟨pStart,nBufSize,pSbm.pStreamBuffer,nFreeSize-nBufSize⟩

/-- `SbmAddStream` on the accumulated record, which it marks as valid when it
accepts it. The answer is ignored. -/
def addFilled : StreamContext :=
  let (ret, pSbm) := sbmAddStream p.pSbm p.partialStreamDataInfo
  { pSbm
    partialStreamDataInfo :=
      if ret = 0 then p.partialStreamDataInfo.stored else p.partialStreamDataInfo }

variable (pDataInfo : VideoStreamDataInfo)

/-- The first part of a frame; what is left of an incomplete one is added first. -/
def submitFirstPart : StreamContext :=
  let p := if p.partialStreamDataInfo.nLength ≠ 0 then addFilled p else p
  { p with
    partialStreamDataInfo :=
      { p.partialStreamDataInfo with
        pData := pDataInfo.pData
        nLength := pDataInfo.nLength
        nPts := pDataInfo.nPts
        nPcr := pDataInfo.nPcr
        bIsFirstPart := pDataInfo.bIsFirstPart
        bIsLastPart := false
        bVideoInfoFlag := pDataInfo.bVideoInfoFlag
        pVideoInfo := pDataInfo.pVideoInfo } }

def submitLaterPart : StreamContext :=
  let filled := p.partialStreamDataInfo
  { p with
    partialStreamDataInfo :=
      { filled with
        nLength := int32 (filled.nLength+pDataInfo.nLength)
        nPts := if filled.nPts = -1 ∧ pDataInfo.nPts ≠ -1 then pDataInfo.nPts else filled.nPts } }

def completeFrame : StreamContext :=
  let p := addFilled p
  { p with
    partialStreamDataInfo :=
      { p.partialStreamDataInfo with
        pData := 0
        nLength := 0
        nPts := -1
        nPcr := -1
        bIsLastPart := false
        bIsFirstPart := false
        bVideoInfoFlag := 0
        pVideoInfo := 0 } }

def submitVideoStreamData : StreamContext :=
  let p := if pDataInfo.bIsFirstPart then submitFirstPart p pDataInfo
    else submitLaterPart p pDataInfo
  if pDataInfo.bIsLastPart then completeFrame p else p

def StreamContext.start (pSbm : Sbm) (nStreamIndex : ℤ) : StreamContext :=
  ⟨pSbm,{ VideoStreamDataInfo.zero with nStreamIndex, nPts := -1 }⟩

end TinaPackage.StreamBuffer
