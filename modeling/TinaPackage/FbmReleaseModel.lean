import TinaPackage.FbmModel

/-! The calls by which the display exchanges the buffers of a manager (`vdecoder/fbm.c`): binding
them, taking them all back, and replacing them one by one. `nValidBufNum` of the source's
`VideoFbmInfo` is passed along. -/
namespace TinaPackage.FrameBuffer

/-- `FRM_RELEASE_TAG`: the id of a frame whose buffer is with the display to be replaced. -/
def frmReleaseTag : ℤ := 0xee

variable (s : VideoFbmInfo)

def VideoFbmInfo.dispHandle : FbmHandle :=
  if s.bIs3DStream || (s.fbm .pFbmSecond).isNone then .pFbmFirst else .pFbmSecond

variable (f : Fbm)

def Fbm.modifyPicture (i : ℕ) (g : VideoPicture → VideoPicture) : Fbm :=
  f.modifyFrame i fun node => { node with vpicture := g node.vpicture }

/-- Frame `i` gets a buffer. A forbidden one stays with the display, with a tag on its id. -/
def bindFrame (i : ℕ) (nBufId : ℤ) (bForbidUseFlag : Bool) : Option Fbm :=
  let f := f.modifyPicture i fun pic => { pic with nID := i, nBufId := nBufId }
  if bForbidUseFlag then
    some (f.modifyPicture i fun pic => { pic with nID := pic.nID+frmForbidUseTag })
  else
    (fbmEnqueue f .emptyBuffer i).map fun f => { f with nEmptyBufferNum := f.nEmptyBufferNum+1 }

def fbmSetFbmBufAddress (nValidBufNum : ℕ) (nBufId : ℤ)
    (bForbidUseFlag : Bool) : Option (VideoFbmInfo × ℕ) :=
  match s.fbm s.dispHandle with
  | none => some (s, nValidBufNum)
  | some f =>
    -- the frame is beyond the array
    if f.nMaxFrameNum ≤ nValidBufNum then none
    else
      (bindFrame f nValidBufNum nBufId bForbidUseFlag).map fun f =>
        (s.setFbm s.dispHandle f, nValidBufNum+1)

def markNeedRelease : Fbm :=
  { f with pFrames := fun i =>
      if i < f.nMaxFrameNum ∧ (f.pFrames i).vpicture.nBufId ≠ fbmNewDispInvalidTag then
        { f.pFrames i with Flag := { (f.pFrames i).Flag with bNeedRelease := true } }
      else f.pFrames i }

def newDispReleaseLocked : ℕ → Fbm → Option Fbm
  | 0, _ => none
  | fuel + 1, f =>
    match fbmDequeue f .emptyBuffer with
    | none => some f
    | some (i, f) =>
      let flag := f.flag i
      if flag.bUsedByDecoder || flag.bInValidPictureQueue || flag.bUsedByRender ||
          flag.bAlreadyDisplayed then some f
      else
        (fbmEnqueue { f with nEmptyBufferNum := f.nEmptyBufferNum-1 } .releaseBuffer i).bind
          fun f =>
            newDispReleaseLocked fuel { f with nReleaseBufferNum := f.nReleaseBufferNum+1 }

def fbmSetNewDispRelease : Option VideoFbmInfo :=
  match s.fbm s.dispHandle with
  | none => some s
  | some f =>
    (fbmFlush (s.setFbm s.dispHandle (markNeedRelease f)) s.dispHandle).bind fun s' =>
      match s'.fbm s.dispHandle with
      | none => some s'
      | some f => (newDispReleaseLocked (f.nMaxFrameNum+1) f).map (s'.setFbm s.dispHandle)

def requestReleaseLocked : Fbm × Option ℕ :=
  match fbmDequeue f .releaseBuffer with
  | none => (f, none)
  | some (i, f) =>
    ({ f with nReleaseBufferNum := f.nReleaseBufferNum-1 }.modifyPicture i
      fun pic => { pic with nID := frmReleaseTag }, some i)

def fbmRequestReleasePicture : VideoFbmInfo × Option PictureRef :=
  match s.fbm s.dispHandle with
  | none => (s, none)
  | some f =>
    let r := requestReleaseLocked f
    (s.setFbm s.dispHandle r.1, r.2.map fun i => ⟨s.dispHandle,i⟩)

def Fbm.findReleased : Option ℕ :=
  (List.range f.nMaxFrameNum).find? fun i =>
    (f.flag i).bNeedRelease && (f.pFrames i).vpicture.nID == frmReleaseTag

def returnReleaseLocked (nBufId : ℤ) (bForbidUseFlag : Bool) : Option Fbm :=
  match f.findReleased with
  | none => some f
  | some i =>
    bindFrame (f.modifyFlag i fun flag => { flag with bNeedRelease := false }) i nBufId
      bForbidUseFlag

/-- `FbmReturnReleasePicture`. If no frame waits for a buffer, the last one is returned. -/
def fbmReturnReleasePicture (nBufId : ℤ) (bForbidUseFlag : Bool) :
    Option (VideoFbmInfo × Option PictureRef) :=
  match s.fbm s.dispHandle with
  | none => some (s, none)
  | some f =>
    (returnReleaseLocked f nBufId bForbidUseFlag).map fun f' =>
      (s.setFbm s.dispHandle f', some ⟨s.dispHandle,f.findReleased.getD (f.nMaxFrameNum-1)⟩)

end TinaPackage.FrameBuffer
