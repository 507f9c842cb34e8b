import TinaPackage.SbmRuns
import TinaPackage.VdecoderStream

/-! What the callers of the stream buffer see: grants, the bytes they write, and
the frames the decoder will read. -/
namespace TinaPackage.StreamBuffer

structure FrameRecord where
  pFirst : ℤ
  bytes : List UInt8

/-- One stream of a decoder with its memory and the record of a run: the room granted last, the
frame that is being submitted, the complete frames that are not flushed, and the pointers the
decoder holds. -/
structure StreamWorld where
  ctx : StreamContext
  mem : ℤ → UInt8
  grant : Option StreamGrant
  inFrame : Bool
  current : FrameRecord
  submitted : List FrameRecord
  held : List ℕ

def StreamGrant.size (g : StreamGrant) : ℤ := g.bufSize+g.ringBufSize

def StreamGrant.address (g : StreamGrant) (k : ℕ) : ℤ :=
  if (k : ℤ) < g.bufSize then g.pBuf+k else g.pRingBuf+(k-g.bufSize)

inductive StreamOp
  | requestBuffer (nRequireSize : ℤ)
  | write (k : ℕ) (b : UInt8)
  | submit (pDataInfo : VideoStreamDataInfo)
  | requestStream
  | flushStream (pDataInfo : ℕ)

def partBytes (mem : ℤ → UInt8) (g : StreamGrant) (nLength : ℤ) : List UInt8 :=
  (List.range nLength.toNat).map fun k => mem (g.address k)

variable (w : StreamWorld) (pSbm : Sbm)

def StreamWorld.setSbm : StreamWorld := { w with ctx := { w.ctx with pSbm } }

def StreamWorld.step : StreamOp → Option StreamWorld
  | .requestBuffer nRequireSize =>
    match requestVideoStreamBuffer w.ctx nRequireSize with
    | none => some w
    | some g => some { w with grant := some g }
  | .write k b =>
    w.grant.map fun g => { w with mem := Function.update w.mem (g.address k) b }
  | .submit pDataInfo =>
    w.grant.map fun g =>
      let part := partBytes w.mem g pDataInfo.nLength
      let current : FrameRecord :=
        if pDataInfo.bIsFirstPart then ⟨g.pBuf,part⟩
        else ⟨w.current.pFirst,w.current.bytes ++ part⟩
      let w := { w with ctx := submitVideoStreamData w.ctx pDataInfo, grant := none }
      if pDataInfo.bIsLastPart then
        { w with inFrame := false, current := ⟨0,[]⟩, submitted := w.submitted ++ [current] }
      else { w with inFrame := true, current }
  | .requestStream =>
    match sbmRequestStream w.ctx.pSbm with
    | none => some w
    | some (p, pSbm) => some { w.setSbm pSbm with held := w.held ++ [p] }
  | .flushStream p =>
    (sbmFlushStream w.ctx.pSbm p).map fun (_, pSbm) =>
      { w.setSbm pSbm with held := w.held.tail, submitted := w.submitted.tail }

def StreamWorld.start (nStreamIndex : ℤ) (mem : ℤ → UInt8) : StreamWorld :=
  ⟨.start pSbm nStreamIndex,mem,none,false,⟨0,[]⟩,[],[]⟩

/-- Callers write inside the room they were granted, submit no more than that, begin a frame with
its first part and end it with its last one; the decoder flushes its oldest frame first. -/
def PartsInOrder : StreamOp → Prop
  | .write k _ => ∃ g ∈ w.grant, (k : ℤ) < g.size
  | .submit info => ∃ g ∈ w.grant, 0 ≤ info.nLength ∧ info.nLength ≤ g.size ∧
      info.bIsFirstPart = !w.inFrame ∧ (info.bIsFirstPart = true → info.pData = g.pBuf)
  | .flushStream p => w.held.head? = some p
  | _ => True

/-- The same, and no size that is asked for overflows an `int`. -/
def PartsInOrderFitting : StreamOp → Prop
  | .requestBuffer n => -2^31 ≤ n ∧ requiredSize n+w.ctx.partialStreamDataInfo.nLength+64 ≤ intMax
  | op => PartsInOrder w op

instance decidableGranted (grant : Option StreamGrant) (P : StreamGrant → Prop)
    [DecidablePred P] : Decidable (∃ g ∈ grant, P g) :=
  match grant with
  | none => isFalse (by simp)
  | some g => decidable_of_iff (P g) (by simp)

instance (w : StreamWorld) : ∀ op, Decidable (PartsInOrder w op)
  | .write .. => inferInstanceAs (Decidable (∃ g ∈ w.grant, _ < _))
  | .submit _ => inferInstanceAs (Decidable (∃ g ∈ w.grant, _ ∧ _))
  | .flushStream _ => inferInstanceAs (Decidable (_ = _))
  | .requestBuffer _ | .requestStream => .isTrue trivial

instance (w : StreamWorld) : ∀ op, Decidable (PartsInOrderFitting w op)
  | .requestBuffer _ => inferInstanceAs (Decidable (_ ∧ _))
  | .write .. => inferInstanceAs (Decidable (∃ g ∈ w.grant, _ < _))
  | .submit _ => inferInstanceAs (Decidable (∃ g ∈ w.grant, _ ∧ _))
  | .flushStream _ => inferInstanceAs (Decidable (_ = _))
  | .requestStream => .isTrue trivial

/-- The address of byte `k` of what starts at `a`, with the turn at the end. -/
def cyclicAddress (s : Sbm) (a : ℤ) (k : ℕ) : ℤ :=
  s.pStreamBuffer+(((a-s.pStreamBuffer).toNat+k) % s.nStreamBufferSize.toNat : ℕ)

def cyclicBytes (s : Sbm) (mem : ℤ → UInt8) (a nLength : ℤ) : List UInt8 :=
  (List.range nLength.toNat).map fun k => mem (cyclicAddress s a k)

def insideBuffer (s : Sbm) (a size : ℤ) : Prop :=
  s.pStreamBuffer ≤ a ∧ a+size ≤ s.pStreamBuffer+s.nStreamBufferSize

instance (s : Sbm) (a size : ℤ) : Decidable (insideBuffer s a size) :=
  inferInstanceAs (Decidable (_ ∧ _))

/-- No granted byte is one of an unflushed frame or of the frame being submitted,
and every unflushed frame still is what its caller submitted. -/
structure BytesSafe (w : StreamWorld) : Prop where
  segment : ∀ g ∈ w.grant, 0 < g.bufSize ∧ insideBuffer w.ctx.pSbm g.pBuf g.bufSize
  ringSegment : ∀ g ∈ w.grant, g.ringBufSize = 0 ∨
    0 < g.ringBufSize ∧ insideBuffer w.ctx.pSbm g.pRingBuf g.ringBufSize
  offFrames : ∀ g ∈ w.grant, ∀ k : ℕ, k < g.size → ∀ x ∈ validFrames w.ctx.pSbm.frameFifo,
    ∀ j : ℕ, j < x.nLength → g.address k ≠ cyclicAddress w.ctx.pSbm x.pData j
  offParts : ∀ g ∈ w.grant, ∀ k : ℕ, k < g.size → ∀ j : ℕ, j < w.ctx.partialStreamDataInfo.nLength →
      g.address k ≠ cyclicAddress w.ctx.pSbm w.ctx.partialStreamDataInfo.pData j
  frames : List.Forall₂ (fun x r => x.pData = r.pFirst ∧ x.nLength = r.bytes.length ∧
      cyclicBytes w.ctx.pSbm w.mem x.pData x.nLength = r.bytes)
    (validFrames w.ctx.pSbm.frameFifo) w.submitted

end TinaPackage.StreamBuffer
