import TinaPackage.LinkedChain

/-! The frame buffer manager of the video decoder (`vdecoder/fbm.c`). A pointer to a node of
`pFrames` is its index, and a queue is a head pointer into the nodes' shared `pNext` field. The
mutex is held over every state change, so a call is one step; it returns `none` where the source
would follow a wild pointer or walk a cyclic queue for ever. -/
namespace TinaPackage.FrameBuffer

/-- `FRM_FORBID_USE_TAG`: added to the id of a frame the display must not use. -/
def frmForbidUseTag : ℤ := 0xff
def fbmNewDispInvalidTag : ℤ := 0xdd

def majorDecoderUseFlag : BitVec 32 := 1
def minorDecoderUseFlag : BitVec 32 := 2
def majorDispUseFlag : BitVec 32 := 4
def minorDispUseFlag : BitVec 32 := 8
def minorNeedUseFlag : BitVec 32 := 16

structure FrameNodeFlag where
  bUsedByDecoder : Bool
  bUsedByRender : Bool
  bInValidPictureQueue : Bool
  bAlreadyDisplayed : Bool
  bNeedRelease : Bool
deriving DecidableEq

structure VideoPicture where
  nID : ℤ
  nBufId : ℤ
  nBufStatus : BitVec 32
deriving DecidableEq

structure FrameNode where
  Flag : FrameNodeFlag
  vpicture : VideoPicture
  pNext : Option ℕ
deriving DecidableEq

structure Fbm where
  nMaxFrameNum : ℕ
  nEmptyBufferNum : ℤ
  nValidPictureNum : ℤ
  nReleaseBufferNum : ℤ
  pEmptyBufferQueue : Option ℕ
  pValidPictureQueue : Option ℕ
  pReleaseBufferQueue : Option ℕ
  pFrames : ℕ → FrameNode
  bUseGpuBuf : Bool
  nDecoderHoldingNum : ℤ
  nRenderHoldingNum : ℤ
  nWaitForDispNum : ℤ

variable (f : Fbm) (i : ℕ)

def Fbm.next : Option ℕ := (f.pFrames i).pNext

def Fbm.flag : FrameNodeFlag := (f.pFrames i).Flag

def Fbm.modifyFrame (g : FrameNode → FrameNode) : Fbm :=
  { f with pFrames := Function.update f.pFrames i (g (f.pFrames i)) }

def Fbm.modifyFlag (g : FrameNodeFlag → FrameNodeFlag) : Fbm :=
  f.modifyFrame i fun node => { node with Flag := g node.Flag }

def Fbm.modifyStatus (g : BitVec 32 → BitVec 32) : Fbm :=
  f.modifyFrame i fun node =>
    { node with vpicture := { node.vpicture with nBufStatus := g node.vpicture.nBufStatus } }

def Fbm.setNext (p : Option ℕ) : Fbm := f.modifyFrame i fun node => { node with pNext := p }

inductive QueueId
  | emptyBuffer
  | validPicture
  | releaseBuffer
deriving DecidableEq

def Fbm.head : QueueId → Option ℕ
  | .emptyBuffer => f.pEmptyBufferQueue
  | .validPicture => f.pValidPictureQueue
  | .releaseBuffer => f.pReleaseBufferQueue

def Fbm.setHead (q : QueueId) (p : Option ℕ) : Fbm :=
  match q with
  | .emptyBuffer => { f with pEmptyBufferQueue := p }
  | .validPicture => { f with pValidPictureQueue := p }
  | .releaseBuffer => { f with pReleaseBufferQueue := p }

/-- There are only `nMaxFrameNum` nodes, so a walk that has not ended after that
many links runs in a cycle and the source's loop never ends. -/
def fbmEnqueue (q : QueueId) (p : ℕ) : Option Fbm :=
  match f.head q with
  | none => some ((f.setHead q (some p)).setNext p none)
  | some pCur =>
    (walkLast f.next f.nMaxFrameNum pCur).map fun last =>
      (f.setNext last (some p)).setNext p none

def fbmDequeue (q : QueueId) : Option (ℕ × Fbm) :=
  match f.head q with
  | none => none
  | some pHead => some (pHead, (f.setHead q (f.next pHead)).setNext pHead none)

inductive BufferType
  | referenceDisp
  | onlyReference
  | onlyDisp
deriving DecidableEq

structure FbmCreateInfo where
  nFrameNum : ℕ
  bThumbnailMode : Bool
  bGpuBufValid : Bool
  nBufferType : BufferType
deriving DecidableEq

/-- The pictures are bound later, by the display, not by `fbmCreateBuffer`. -/
def FbmCreateInfo.usesGpuBuf (ci : FbmCreateInfo) : Bool :=
  ci.bGpuBufValid && ci.nBufferType != .onlyReference

/-- What the allocators answer during one creation. -/
structure CreateMemory where
  handle : Bool
  frameNodes : Bool
  picture : ℕ → Bool

def newFrameNode : FrameNode where
  Flag := ⟨false,false,false,false,false⟩
  vpicture := { nID := i, nBufId := fbmNewDispInvalidTag, nBufStatus := 0 }
  pNext := none

def enqueueAll (f : Fbm) (q : QueueId) : List ℕ → Option Fbm
  | [] => some f
  | i :: is => (fbmEnqueue f q i).bind fun f' => enqueueAll f' q is

/-- In thumbnail mode all frames share the buffer of the first one. -/
def pictureAllocated (ci : FbmCreateInfo) (mem : CreateMemory) (i : ℕ) : Bool :=
  if !ci.usesGpuBuf && (!ci.bThumbnailMode || i == 0) then mem.picture i else true

def fbmCreateBuffer (ci : FbmCreateInfo) (mem : CreateMemory) : Option Fbm :=
  if !mem.handle || !mem.frameNodes then none
  else if !(List.range ci.nFrameNum).all (pictureAllocated ci mem) then none
  else
    let p : Fbm :=
      { nMaxFrameNum := ci.nFrameNum
        nEmptyBufferNum := 0
        nValidPictureNum := 0
        nReleaseBufferNum := 0
        pEmptyBufferQueue := none
        pValidPictureQueue := none
        pReleaseBufferQueue := none
        pFrames := newFrameNode
        bUseGpuBuf := false
        nDecoderHoldingNum := 0
        nRenderHoldingNum := 0
        nWaitForDispNum := 0 }
    if ci.usesGpuBuf then some { p with bUseGpuBuf := true }
    else
      (enqueueAll p .emptyBuffer (List.range ci.nFrameNum)).map fun f =>
        { f with nEmptyBufferNum := ci.nFrameNum }

/-! The sections under the mutex. Each takes the manager it locked. -/

def requestBufferLocked (f : Fbm) : Fbm × Option ℕ :=
  match fbmDequeue f .emptyBuffer with
  | none => (f, none)
  | some (i, f) =>
    let flag := f.flag i
    if flag.bUsedByDecoder || flag.bInValidPictureQueue || flag.bUsedByRender ||
        flag.bAlreadyDisplayed then (f, none)
    else
      ({ f with
          nEmptyBufferNum := f.nEmptyBufferNum-1
          nDecoderHoldingNum := f.nDecoderHoldingNum+1 }.modifyFlag i
        fun flag => { flag with bUsedByDecoder := true }, some i)

def returnBufferLocked (f : Fbm) (i : ℕ) (bValidPicture : Bool) : Option Fbm :=
  if !(f.flag i).bUsedByDecoder then some f
  else
    let f := f.modifyFlag i fun flag => { flag with bUsedByDecoder := false }
    let flag := f.flag i
    if flag.bNeedRelease then
      (fbmEnqueue f .releaseBuffer i).map fun f =>
        { f with nReleaseBufferNum := f.nReleaseBufferNum+1 }.modifyFlag i
          fun flag => { flag with bAlreadyDisplayed := false, bInValidPictureQueue := false }
    else if flag.bInValidPictureQueue then
      -- shared before and still queued; nothing is queued again
      if flag.bUsedByRender || flag.bAlreadyDisplayed then some f
      else some { f with nDecoderHoldingNum := f.nDecoderHoldingNum-1 }
    else if flag.bUsedByRender then
      some { f with nDecoderHoldingNum := f.nDecoderHoldingNum-1 }
    else if flag.bAlreadyDisplayed then
      (fbmEnqueue (f.modifyFlag i fun flag => { flag with bAlreadyDisplayed := false })
          .emptyBuffer i).map fun f =>
        { f with
          nEmptyBufferNum := f.nEmptyBufferNum+1
          nDecoderHoldingNum := f.nDecoderHoldingNum-1 }
    else if bValidPicture then
      (fbmEnqueue f .validPicture i).map fun f =>
        { f with
          nValidPictureNum := f.nValidPictureNum+1
          nWaitForDispNum := f.nWaitForDispNum+1
          nDecoderHoldingNum := f.nDecoderHoldingNum-1 }.modifyFlag i
            fun flag => { flag with bInValidPictureQueue := true }
    else
      (fbmEnqueue f .emptyBuffer i).map fun f =>
        { f with
          nEmptyBufferNum := f.nEmptyBufferNum+1
          nDecoderHoldingNum := f.nDecoderHoldingNum-1 }

variable (f : Fbm) (i : ℕ)

/-- The status check reads `bUsedByDecoder`, `bInValidPictureQueue` and
`bAlreadyDisplayed`, but not `bUsedByRender`. -/
def shareBufferLocked : Option Fbm :=
  let flag := f.flag i
  if !flag.bUsedByDecoder || flag.bInValidPictureQueue || flag.bAlreadyDisplayed then some f
  else
    (fbmEnqueue (f.modifyFlag i fun flag => { flag with bInValidPictureQueue := true })
        .validPicture i).map fun f =>
      { f with
        nValidPictureNum := f.nValidPictureNum+1
        nWaitForDispNum := f.nWaitForDispNum+1 }

def requestPictureLocked : Fbm × Option ℕ :=
  match fbmDequeue f .validPicture with
  | none => (f, none)
  | some (i, f) =>
    let flag := f.flag i
    if !flag.bInValidPictureQueue || flag.bUsedByRender || flag.bAlreadyDisplayed then (f, none)
    else
      (({ f with
          nValidPictureNum := f.nValidPictureNum-1
          nWaitForDispNum := f.nWaitForDispNum-1
          nRenderHoldingNum := f.nRenderHoldingNum+1 }.modifyFlag i
        fun flag => { flag with bInValidPictureQueue := false, bUsedByRender := true }).modifyStatus
          i (· ||| majorDispUseFlag), some i)

def returnPictureLocked : Option (Fbm × ℤ) :=
  let flag := f.flag i
  if !flag.bUsedByRender || flag.bInValidPictureQueue || flag.bAlreadyDisplayed then some (f, -1)
  else
    let f := { f with nRenderHoldingNum := f.nRenderHoldingNum-1 }.modifyFlag i
      fun flag => { flag with bUsedByRender := false }
    if flag.bUsedByDecoder then
      some (f.modifyFlag i fun flag => { flag with bAlreadyDisplayed := true }, 0)
    else if !flag.bNeedRelease then
      (fbmEnqueue f .emptyBuffer i).map fun f =>
        ({ f with nEmptyBufferNum := f.nEmptyBufferNum+1 }, 0)
    else
      (fbmEnqueue f .releaseBuffer i).map fun f =>
        ({ f with nReleaseBufferNum := f.nReleaseBufferNum+1 }, 0)

def returnForbiddenLocked : Option (Fbm × ℤ) :=
  let flag := f.flag i
  if flag.bUsedByRender || flag.bInValidPictureQueue || flag.bAlreadyDisplayed then some (f, -1)
  else
    (fbmEnqueue f .emptyBuffer i).map fun f =>
      ({ f with nEmptyBufferNum := f.nEmptyBufferNum+1 }, 0)

def flushOne : Option (Fbm × Bool) :=
  let f := { f with nValidPictureNum := f.nValidPictureNum-1 }.modifyStatus i fun _ => 0
  let flag := f.flag i
  if flag.bUsedByRender || flag.bAlreadyDisplayed then some (f, false)
  else
    let f := f.modifyFlag i fun flag => { flag with bInValidPictureQueue := false }
    if !flag.bUsedByDecoder then
      (fbmEnqueue f .emptyBuffer i).map fun f =>
        ({ f with nEmptyBufferNum := f.nEmptyBufferNum+1 }, true)
    else
      some (f.modifyFlag i fun flag => { flag with bAlreadyDisplayed := true }, true)

def flushLocked : ℕ → Fbm → Option Fbm
  | 0, _ => none
  | fuel+1, f =>
    match fbmDequeue f .validPicture with
    | none => some f
    | some (i, f) =>
      match flushOne f i with
      | none => none
      | some (f, false) => some f
      | some (f, true) => flushLocked fuel f

/-! The public functions, with the sharing of one manager by two streams. -/

inductive FbmHandle
  | pFbmFirst
  | pFbmSecond
deriving DecidableEq

/-- A `VideoPicture*` is the manager and the node it points into. -/
structure PictureRef where
  owner : FbmHandle
  index : ℕ
deriving DecidableEq

structure VideoFbmInfo where
  bIs3DStream : Bool
  bTwoStreamShareOneFbm : Bool
  pMajorDispFrame : Option PictureRef
  pMajorDecoderFrame : Option PictureRef
  fbm : FbmHandle → Option Fbm

variable (s : VideoFbmInfo) (h : FbmHandle) (f : Fbm)

def VideoFbmInfo.setFbm : VideoFbmInfo := { s with fbm := Function.update s.fbm h (some f) }

def VideoFbmInfo.picture (p : PictureRef) : Option VideoPicture :=
  match s.fbm p.owner with
  | none => none
  | some f => if p.index < f.nMaxFrameNum then some (f.pFrames p.index).vpicture else none

def VideoFbmInfo.updatePicture (p : PictureRef) (g : VideoPicture → VideoPicture) : VideoFbmInfo :=
  match s.fbm p.owner with
  | none => s
  | some f =>
    s.setFbm p.owner (f.modifyFrame p.index fun node => { node with vpicture := g node.vpicture })

def VideoFbmInfo.updateStatus (p : PictureRef) (g : BitVec 32 → BitVec 32) : VideoFbmInfo :=
  s.updatePicture p fun pic => { pic with nBufStatus := g pic.nBufStatus }

def VideoFbmInfo.isMinor : Bool := s.bTwoStreamShareOneFbm && h == .pFbmSecond

def fbmRequestBuffer : Option (VideoFbmInfo × Option PictureRef) :=
  match s.fbm h with
  | none => some (s, none)
  | some f =>
    if s.isMinor h then
      match s.pMajorDecoderFrame with
      | none => some (s, none)
      | some p => some (s.updateStatus p fun st =>
          (st ||| minorDecoderUseFlag) &&& ~~~minorNeedUseFlag, some p)
    else
      let s := { s with pMajorDecoderFrame := none }
      match requestBufferLocked f with
      | (f, none) => some (s.setFbm h f, none)
      | (f, some i) =>
        let p : PictureRef := ⟨h,i⟩
        if s.bTwoStreamShareOneFbm then
          some ({ s with pMajorDecoderFrame := some p }.setFbm h
            (f.modifyStatus i fun st => st ||| majorDecoderUseFlag ||| minorNeedUseFlag), some p)
        else some (s.setFbm h f, some p)

/-- The stream flags a returned buffer still carries. In two-stream mode the
first answer is `none` when the other stream still needs the picture, otherwise
it is the manager that takes the picture back. -/
def returnBufferStream (p : PictureRef)
    (status : BitVec 32) (bValidPicture : Bool) : Option FbmHandle × VideoFbmInfo :=
  if s.bTwoStreamShareOneFbm then
    match h with
    | .pFbmFirst =>
      let s := s.updateStatus p (· &&& ~~~majorDecoderUseFlag)
      if status &&& minorDecoderUseFlag ≠ 0 then (none, s)
      else if bValidPicture ∧ status &&& minorNeedUseFlag ≠ 0 then (none, s)
      else (some .pFbmFirst, s)
    | .pFbmSecond =>
      let s := s.updateStatus p (· &&& ~~~minorDecoderUseFlag)
      if status &&& majorDecoderUseFlag ≠ 0 then (none, s) else (some .pFbmFirst, s)
  else (some h, s)

def checkedIndex (h : FbmHandle) (p : PictureRef) (nID : ℤ) : Option ℕ :=
  if nID < 0 ∨ nID ≥ f.nMaxFrameNum then none
  else if p = ⟨h,nID.toNat⟩ then some nID.toNat else none

variable (pVPicture : Option PictureRef)

def fbmReturnBuffer (bValidPicture : Bool) : Option VideoFbmInfo :=
  match s.fbm h, pVPicture with
  | none, _ => some s
  | some _, none => some s
  | some _, some p =>
    (s.picture p).bind fun pic =>
      match returnBufferStream s h p pic.nBufStatus bValidPicture with
      | (none, s) => some s
      | (some h, s) =>
        (s.fbm h).bind fun f =>
          match checkedIndex f h p pic.nID with
          | none => some s
          | some i => (returnBufferLocked f i bValidPicture).map (s.setFbm h)

def fbmShareBuffer : Option VideoFbmInfo :=
  match s.fbm h, pVPicture with
  | none, _ => some s
  | some _, none => some s
  | some f, some p =>
    if s.isMinor h then some s
    else
      (s.picture p).bind fun pic =>
        match checkedIndex f h p pic.nID with
        | none => some s
        | some i =>
          if (f.flag i).bNeedRelease then some s
          else (shareBufferLocked f i).map (s.setFbm h)

def fbmRequestPicture : Option (VideoFbmInfo × Option PictureRef) :=
  match s.fbm h with
  | none => some (s, none)
  | some f =>
    if s.isMinor h then
      match s.pMajorDispFrame with
      | none => none
      | some p => some (s.updateStatus p (· ||| minorDispUseFlag), some p)
    else
      match requestPictureLocked f with
      | (f, none) => some ({ s with pMajorDispFrame := none }.setFbm h f, none)
      | (f, some i) => some ({ s with pMajorDispFrame := some ⟨h,i⟩ }.setFbm h f, some ⟨h,i⟩)

/-- The stream flags of a picture the render gives back; `false` when the other
stream still shows it. -/
def returnPictureStream (p : PictureRef) (status : BitVec 32) : Bool × VideoFbmInfo :=
  if s.bTwoStreamShareOneFbm then
    match h with
    | .pFbmFirst =>
      (status &&& minorDispUseFlag = 0, s.updateStatus p (· &&& ~~~majorDispUseFlag))
    | .pFbmSecond =>
      (status &&& majorDispUseFlag = 0, s.updateStatus p (· &&& ~~~minorDispUseFlag))
  else (true, s)

def fbmReturnPicture : Option (VideoFbmInfo × ℤ) :=
  match s.fbm h, pVPicture with
  | none, _ => some (s, 0)
  | some _, none => some (s, 0)
  | some _, some p =>
    (s.picture p).bind fun pic =>
      match returnPictureStream s h p pic.nBufStatus with
      | (false, s) => some (s, 0)
      | (true, s) =>
        (s.fbm h).bind fun f =>
          if pic.nID ≥ f.nMaxFrameNum ∧ pic.nID ≥ frmForbidUseTag then
            let i := (pic.nID-frmForbidUseTag).toNat
            if i < f.nMaxFrameNum then
              (returnForbiddenLocked f i).map fun (f, ret) =>
                if ret = 0 then
                  ((s.setFbm h f).updatePicture p fun pic =>
                    { pic with nID := pic.nID-frmForbidUseTag }, ret)
                else (s.setFbm h f, ret)
            else none
          else
            match checkedIndex f h p pic.nID with
            | none => some (s, -1)
            | some i => (returnPictureLocked f i).map fun (f, ret) => (s.setFbm h f, ret)

/-- A valid queue without a cycle holds at most `nMaxFrameNum` frames. -/
def fbmFlush : Option VideoFbmInfo :=
  match s.fbm h with
  | none => some s
  | some f =>
    if s.isMinor h then some s
    else (flushLocked (f.nMaxFrameNum+1) f).map (s.setFbm h)

end TinaPackage.FrameBuffer
