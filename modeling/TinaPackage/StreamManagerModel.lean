import TinaPackage.Binary64
import TinaPackage.HeapBlocks
import TinaPackage.MachineInt
import TinaPackage.RingLog
import TinaPackage.Runs

/-! The stream manager between the demuxer and the decoders (`playback/streamManager.c`). A pointer
to a frame is its index in `pFrames`. The mutex is held over every state change, so a call is one
step. It is `none` where a sum of ints overflows, where `free` gets a pointer to no live block, and
where the source aborts. -/
namespace TinaPackage.Playback

structure StreamFrame where
  pData : Option ℕ
  nLength : ℤ
  nPts : ℤ
  nPcr : ℤ
  nDuration : ℤ
  deriving DecidableEq

structure StreamFifo where
  pFrames : ℕ → StreamFrame
  nMaxFrameNum : ℕ
  nReadPos : ℕ
  nWritePos : ℕ

structure StreamManager where
  nMaxBufferSize : ℤ
  nValidDataSize : ℤ
  streamFifo : StreamFifo
  pMem : Option ℕ
  nMemSize : ℤ
  lostBaby : Option ℕ

structure Process where
  live : List Block
  sm : StreamManager

/-- The double next to 0.1, in units of 2^-56. -/
def minPreverseRatio : ℕ := 7205759403792794

/-- `nMaxFrameNum * MIN_PREVERSE_RATIO`, in units of 2^-56. -/
def timesPreverseRatio (nMaxFrameNum : ℤ) : ℤ :=
  nMaxFrameNum.sign*round53 (nMaxFrameNum.natAbs*minPreverseRatio)

/-- The conversion of that double to `int`. -/
def preserveFrameNum (nMaxFrameNum : ℤ) : ℤ := (timesPreverseRatio nMaxFrameNum).tdiv (2^56)

def validFrameNum (p : StreamFifo) : Option ℤ :=
  (checkedInt (p.nWritePos-p.nReadPos)).bind fun difference =>
    (checkedInt (difference+p.nMaxFrameNum)).map fun sum => sum.tmod p.nMaxFrameNum

def invalidFrameNumTooSmall (p : StreamFifo) : Option Bool :=
  (validFrameNum p).map fun valid =>
    decide (p.nMaxFrameNum-valid ≤ preserveFrameNum p.nMaxFrameNum)

/-- `StreamManagerCreate`, if there is memory for it. The frames are zeroed. -/
def streamManagerCreate (nMaxBufferSize nMaxFrameNum : ℤ) : Option StreamManager :=
  if timesPreverseRatio nMaxFrameNum ≤ 0 then none
  else some
    { nMaxBufferSize := nMaxBufferSize
      nValidDataSize := 0
      streamFifo := ⟨fun _ => ⟨none,0,0,0,0⟩,nMaxFrameNum.toNat,0,0⟩
      pMem := none
      nMemSize := 0
      lostBaby := none }

/-- `StreamManagerRequestBuffer` with its result, `*ppBuf` and `*pBufSize`. -/
def streamManagerRequestBuffer (p : Process) (pick : ℕ) (nRequireSize : ℤ) :
    Option ((ℤ × Option ℕ × ℤ) × Process) :=
  (invalidFrameNumTooSmall p.sm.streamFifo).map fun tooSmall =>
    if tooSmall then ((-1, none, 0), p)
    else if p.sm.nMaxBufferSize ≤ p.sm.nValidDataSize then ((-1, none, 0), p)
    else if p.sm.pMem ≠ none then ((-1, none, 0), p)
    else
      match malloc p.live pick (sizeT nRequireSize) with
      | none => ((-1, none, 0), p)
      | some a =>
        ((0, some a, nRequireSize),
          { live := ⟨a,sizeT nRequireSize⟩ :: p.live
            sm := { p.sm with pMem := some a, nMemSize := nRequireSize } })

def streamManagerAddStream (p : Process) (frame : StreamFrame) : Option (ℤ × Process) :=
  (invalidFrameNumTooSmall p.sm.streamFifo).bind fun tooSmall =>
    if tooSmall then some (-1, p)
    else if p.sm.pMem ≠ frame.pData ∨ p.sm.nMemSize < frame.nLength then
      if p.sm.lostBaby = frame.pData then
        (free p.live frame.pData).map fun live => (-1, { p with live := live })
      else some (-1, p)
    else
      let fifo := p.sm.streamFifo
      (free p.live (fifo.pFrames fifo.nWritePos).pData).bind fun live =>
        (checkedInt (p.sm.nValidDataSize+frame.nLength)).map fun size =>
          (0, { live := live
                sm := { p.sm with
                  nValidDataSize := size
                  streamFifo := { fifo with
                    pFrames := Function.update fifo.pFrames fifo.nWritePos frame
                    nWritePos := (fifo.nWritePos+1) % fifo.nMaxFrameNum }
                  pMem := none
                  nMemSize := 0 } })

def streamManagerRequestStream (p : Process) : Option (Option ℕ × Process) :=
  let fifo := p.sm.streamFifo
  (validFrameNum fifo).bind fun valid =>
    if valid = 0 then some (none, p)
    else
      (checkedInt (p.sm.nValidDataSize-(fifo.pFrames fifo.nReadPos).nLength)).map fun size =>
        (some fifo.nReadPos,
          { p with sm := { p.sm with
              nValidDataSize := size
              streamFifo := { fifo with nReadPos := (fifo.nReadPos+1) % fifo.nMaxFrameNum } } })

def streamManagerReturnStream (p : Process) (slot : ℕ) : Option (ℤ × Process) :=
  let fifo := p.sm.streamFifo
  (validFrameNum fifo).bind fun valid =>
    if valid = 0 then some (-1, p)
    else
      let nReadPos := if fifo.nReadPos = 0 then fifo.nMaxFrameNum-1 else fifo.nReadPos-1
      -- wrong frame sequence: abort
      if slot ≠ nReadPos then none
      else
        (checkedInt (p.sm.nValidDataSize+(fifo.pFrames slot).nLength)).map fun size =>
          (0, { p with sm := { p.sm with
                nValidDataSize := size
                streamFifo := { fifo with
                  pFrames := Function.update fifo.pFrames nReadPos (fifo.pFrames slot)
                  nReadPos := nReadPos } } })

/-- The process with its history: the frames that were added, those that the decoder was given
and did not give back, and the frame that the last call gave to the decoder. -/
structure History where
  process : Process
  added : List StreamFrame
  delivered : List StreamFrame
  requested : Option ℕ

variable (s : History)

abbrev History.fifo : StreamFifo := s.process.sm.streamFifo

def start (sm : StreamManager) : History := ⟨⟨[],sm⟩,[],[],none⟩

inductive Call where
  | requestBuffer (pick : ℕ) (nRequireSize : ℤ)
  | addStream (frame : StreamFrame)
  | requestStream
  | returnStream (slot : ℕ)

def streamStep : Call → Option History
  | .requestBuffer pick nRequireSize =>
    (streamManagerRequestBuffer s.process pick nRequireSize).map fun r =>
      { s with process := r.2, requested := none }
  | .addStream frame =>
    (streamManagerAddStream s.process frame).map fun r =>
      { s with
        process := r.2
        added := if r.1 = (0 : ℤ) then s.added ++ [frame] else s.added
        requested := none }
  | .requestStream =>
    (streamManagerRequestStream s.process).map fun r =>
      { s with
        process := r.2
        delivered := s.delivered ++ (r.1.map s.fifo.pFrames).toList
        requested := r.1 }
  | .returnStream slot =>
    (streamManagerReturnStream s.process slot).map fun r =>
      { s with process := r.2, delivered := s.delivered.dropLast, requested := none }

def ReturnsRequested : Call → Prop
  | .returnStream slot => s.requested = some slot
  | _ => True

def frameCount (p : StreamFifo) : ℕ := (p.nWritePos+p.nMaxFrameNum-p.nReadPos) % p.nMaxFrameNum

def undelivered (p : StreamFifo) : List StreamFrame :=
  ringSlice p.pFrames p.nMaxFrameNum p.nReadPos (frameCount p)

/-- The manager is a queue with exact accounts, and the buffer to be filled is none of the
buffers in the queue. -/
structure Queue : Prop where
  order : s.added = s.delivered ++ undelivered s.fifo
  count : s.added.length = s.delivered.length+frameCount s.fifo
  size : s.process.sm.nValidDataSize = ((undelivered s.fifo).map StreamFrame.nLength).sum
  apart : ∀ a, s.process.sm.pMem = some a → ∀ f ∈ undelivered s.fifo, ∀ b, f.pData = some b →
    Block.Apart ⟨a,s.process.sm.nMemSize.toNat⟩ ⟨b,f.nLength.toNat⟩

/-- The tests of `StreamManagerAddStream` let the frame pass. -/
def Accepts (frame : StreamFrame) : Prop :=
  preserveFrameNum s.fifo.nMaxFrameNum < s.fifo.nMaxFrameNum-frameCount s.fifo ∧
    s.process.sm.pMem = frame.pData ∧ frame.nLength ≤ s.process.sm.nMemSize

def Permitted (c : Call) : Prop :=
  FitsInt ((s.fifo.nWritePos : ℤ)-s.fifo.nReadPos+s.fifo.nMaxFrameNum) ∧
    match c with
    | .requestBuffer _ _ => True
    | .addStream frame =>
      Accepts s frame → frameCount s.fifo+1 < s.fifo.nMaxFrameNum ∧
        FitsInt (s.process.sm.nValidDataSize+frame.nLength)
    | .requestStream =>
      frameCount s.fifo ≠ 0 →
        FitsInt (s.process.sm.nValidDataSize-(s.fifo.pFrames s.fifo.nReadPos).nLength)
    | .returnStream _ => frameCount s.fifo ≠ 0

instance (s : History) (frame : StreamFrame) : Decidable (Accepts s frame) :=
  inferInstanceAs (Decidable (_ ∧ _))

instance (s : History) : ∀ c, Decidable (Permitted s c)
  | .requestBuffer .. => inferInstanceAs (Decidable (_ ∧ True))
  | .addStream _ => inferInstanceAs (Decidable (_ ∧ (_ → _ ∧ _)))
  | .requestStream => inferInstanceAs (Decidable (_ ∧ (_ → _)))
  | .returnStream _ => inferInstanceAs (Decidable (_ ∧ _ ≠ _))

instance (s : History) : ∀ c, Decidable (ReturnsRequested s c)
  | .requestBuffer .. | .addStream _ | .requestStream => .isTrue trivial
  | .returnStream _ => inferInstanceAs (Decidable (_ = _))

end TinaPackage.Playback
