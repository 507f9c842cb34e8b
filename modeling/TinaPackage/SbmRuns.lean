import TinaPackage.Runs
import TinaPackage.SbmQueue

/-! Runs of the stream buffer manager. -/
namespace TinaPackage.StreamBuffer
open List VideoStreamDataInfo

/-- The manager with the record of a run: the pointers the decoder holds, oldest
first, the frames accepted since the last reset, and the frames handed out and
not returned since. -/
structure SbmWorld where
  sbm : Sbm
  held : List ℕ
  added : List VideoStreamDataInfo
  handedOut : List VideoStreamDataInfo

inductive SbmOp
  | addStream (info : VideoStreamDataInfo)
  | requestStream
  | returnStream (pDataInfo : ℕ)
  | flushStream (pDataInfo : ℕ)
  | reset

def SbmWorld.step (w : SbmWorld) : SbmOp → Option SbmWorld
  | .addStream info =>
    let (ret, sbm) := sbmAddStream w.sbm info
    some { w with sbm, added := if ret = 0 then w.added ++ [info.stored] else w.added }
  | .requestStream =>
    match sbmRequestStream w.sbm with
    | none => some w
    | some (p, sbm) =>
      some { w with
        sbm
        held := w.held ++ [p]
        handedOut := w.handedOut ++ [w.sbm.frameFifo.pFrames p] }
  | .returnStream p =>
    (sbmReturnStream w.sbm p).map fun (_, sbm) =>
      { w with sbm, held := w.held.dropLast, handedOut := w.handedOut.dropLast }
  | .flushStream p =>
    (sbmFlushStream w.sbm p).map fun (_, sbm) => { w with sbm, held := w.held.tail }
  | .reset => some ⟨sbmReset w.sbm,[],[],[]⟩

def SbmWorld.start (s : Sbm) : SbmWorld := ⟨s,[],[],[]⟩

/-- The decoder returns the frame it requested last and flushes the one it
requested first. -/
def InOrder (w : SbmWorld) : SbmOp → Prop
  | .returnStream p => w.held.getLast? = some p
  | .flushStream p => w.held.head? = some p
  | _ => True

/-- The same, and an added length is a size whose sum with the data in the
buffer fits an `int`. -/
def InOrderFitting (w : SbmWorld) : SbmOp → Prop
  | .addStream info => 0 ≤ info.nLength ∧ info.nLength+w.sbm.nValidDataSize ≤ intMax
  | op => InOrder w op

instance (w : SbmWorld) : ∀ op, Decidable (InOrder w op)
  | .returnStream _ | .flushStream _ => inferInstanceAs (Decidable (_ = _))
  | .addStream _ | .requestStream | .reset => .isTrue trivial

instance (w : SbmWorld) : ∀ op, Decidable (InOrderFitting w op)
  | .addStream _ => inferInstanceAs (Decidable (_ ∧ _))
  | .returnStream _ | .flushStream _ => inferInstanceAs (Decidable (_ = _))
  | .requestStream | .reset => .isTrue trivial

def validFrames (fifo : StreamFrameFifo) : List VideoStreamDataInfo :=
  ringSlice fifo.pFrames fifo.nMaxFrameNum fifo.nFlushPos fifo.nValidFrameNum.toNat

def unreadFrames (fifo : StreamFrameFifo) : List VideoStreamDataInfo :=
  ringSlice fifo.pFrames fifo.nMaxFrameNum fifo.nReadPos fifo.nUnReadFrameNum.toNat

/-- The manager is a queue with a read and a flush cursor: what was handed out and not returned,
followed by what is unread, is what was added, and the next request hands out the next of the added
frames. -/
structure QueueWithCursors (w : SbmWorld) : Prop where
  unread_nonneg : 0 ≤ w.sbm.frameFifo.nUnReadFrameNum
  unread_le : w.sbm.frameFifo.nUnReadFrameNum ≤ w.sbm.frameFifo.nValidFrameNum
  valid_le : w.sbm.frameFifo.nValidFrameNum ≤ w.sbm.frameFifo.nMaxFrameNum
  write_flush : (w.sbm.frameFifo.nWritePos : ℤ) ≡
    w.sbm.frameFifo.nFlushPos+w.sbm.frameFifo.nValidFrameNum [ZMOD w.sbm.frameFifo.nMaxFrameNum]
  write_read : (w.sbm.frameFifo.nWritePos : ℤ) ≡
    w.sbm.frameFifo.nReadPos+w.sbm.frameFifo.nUnReadFrameNum [ZMOD w.sbm.frameFifo.nMaxFrameNum]
  size : w.sbm.nValidDataSize = dataSize (validFrames w.sbm.frameFifo)
  size_le : w.sbm.nValidDataSize ≤ w.sbm.nStreamBufferSize
  order : w.handedOut ++ unreadFrames w.sbm.frameFifo = w.added
  next : (sbmRequestStream w.sbm).map (fun r => w.sbm.frameFifo.pFrames r.1) =
    w.added[w.handedOut.length]?

def framePointers (s : Sbm) (n : ℕ) : List ℕ :=
  ringSlice id s.frameFifo.nMaxFrameNum s.frameFifo.nFlushPos n

def SbmWorld.Inv (w : SbmWorld) : Prop :=
  ∃ flushed held unread, Represents w.sbm held unread ∧
    w.held = framePointers w.sbm held.length ∧ w.handedOut = flushed ++ held ∧
    w.added = flushed ++ held ++ unread

theorem framePointers_congr {s s' : Sbm} (n : ℕ)
    (hflush : s'.frameFifo.nFlushPos = s.frameFifo.nFlushPos)
    (hmax : s'.frameFifo.nMaxFrameNum = s.frameFifo.nMaxFrameNum) :
    framePointers s' n = framePointers s n := by
  unfold framePointers
  rw [hflush,hmax]

section Steps
variable {w : SbmWorld}

attribute [local simp] SbmWorld.step

section
variable (h : w.Inv)
include h

theorem SbmWorld.Inv.addStream {info : VideoStreamDataInfo} (hlen : 0 ≤ info.nLength)
    (hfit : info.nLength+w.sbm.nValidDataSize ≤ intMax) :
    ∃ w', w.step (.addStream info) = some w' ∧ w'.Inv := by
  obtain ⟨flushed,held,unread,hr,hheld,hout,hadd⟩ := h
  rcases hr.addStream hlen hfit with hno | ⟨s',hs',hr',hflush,hmax⟩
  · refine ⟨w,?_,flushed,held,unread,hr,hheld,hout,hadd⟩
    simp [hno]
  · refine ⟨⟨s',w.held,w.added ++ [info.stored],w.handedOut⟩,?_,flushed,held,
      unread ++ [info.stored],hr',?_,hout,?_⟩
    · simp [hs']
    · rw [framePointers_congr _ hflush hmax]
      exact hheld
    · simp [hadd]

theorem SbmWorld.Inv.requestStream : ∃ w', w.step .requestStream = some w' ∧ w'.Inv := by
  obtain ⟨flushed,held,unread,hr,hheld,hout,hadd⟩ := h
  cases unread with
  | nil =>
    refine ⟨w,?_,flushed,held,[],hr,hheld,hout,hadd⟩
    simp [hr.requestStream_nil]
  | cons x rest =>
    obtain ⟨s',hs',hx,hr',hflush,hmax⟩ := hr.requestStream
    refine ⟨⟨s',w.held ++ [w.sbm.frameFifo.nReadPos],w.added,w.handedOut ++ [x]⟩,?_,flushed,
      held ++ [x],rest,hr',?_,?_,?_⟩
    · simp [hs',hx]
    · rw [framePointers_congr _ hflush hmax,length_append,length_singleton,
        framePointers,ringSlice_succ,hheld,hr.readPos]
      rfl
    · simp [hout]
    · simp [hadd]

theorem SbmWorld.Inv.returnStream {p : ℕ} (hp : w.held.getLast? = some p) :
    ∃ w', w.step (.returnStream p) = some w' ∧ w'.Inv := by
  obtain ⟨flushed,held,unread,hr,hheld,hout,hadd⟩ := h
  rcases eq_nil_or_concat held with hnil | ⟨held,x,hcons⟩
  · -- nothing is held, so there is no last frame to return
    rw [hheld,hnil] at hp
    simp [framePointers] at hp
  · rw [concat_eq_append] at hcons
    subst hcons
    rw [length_append,length_singleton,framePointers,ringSlice_succ] at hheld
    have hlast : p = (w.sbm.frameFifo.nFlushPos+held.length) % w.sbm.frameFifo.nMaxFrameNum := by
      rw [hheld,List.getLast?_concat] at hp
      exact (Option.some.inj hp).symm
    obtain ⟨s',hs',hr',hflush,hmax⟩ := hr.returnStream hlast
    refine ⟨⟨s',w.held.dropLast,w.added,w.handedOut.dropLast⟩,?_,flushed,held,x :: unread,
      hr',?_,?_,?_⟩
    · simp [hs']
    · rw [framePointers_congr _ hflush hmax,hheld,dropLast_concat]
      rfl
    · dsimp only
      rw [hout,← append_assoc,dropLast_concat]
    · simp [hadd]

theorem SbmWorld.Inv.flushStream {p : ℕ} (hp : w.held.head? = some p) :
    ∃ w', w.step (.flushStream p) = some w' ∧ w'.Inv := by
  obtain ⟨flushed,held,unread,hr,hheld,hout,hadd⟩ := h
  cases held with
  | nil =>
    rw [hheld] at hp
    simp [framePointers] at hp
  | cons x held =>
    rw [length_cons,framePointers,ringSlice_cons,Nat.mod_eq_of_lt hr.flushPos_lt] at hheld
    have hfirst : p = w.sbm.frameFifo.nFlushPos := by
      rw [hheld,List.head?_cons] at hp
      exact (Option.some.inj hp).symm
    subst hfirst
    obtain ⟨s',hs',hr',hflush,hmax⟩ := hr.flushStream
    refine ⟨⟨s',w.held.tail,w.added,w.handedOut⟩,?_,flushed ++ [x],held,unread,hr',?_,?_,?_⟩
    · simp [hs']
    · rw [hheld,tail_cons,framePointers,hflush,hmax,ringSlice_mod]
    · simp [hout]
    · simp [hadd]

theorem SbmWorld.Inv.step {op : SbmOp} (hg : InOrderFitting w op) :
    ∃ w', w.step op = some w' ∧ w'.Inv := by
  cases op with
  | addStream info => exact h.addStream hg.1 hg.2
  | requestStream => exact h.requestStream
  | returnStream p => exact h.returnStream hg
  | flushStream p => exact h.flushStream hg
  | reset =>
    obtain ⟨flushed,held,unread,hr,-,-,-⟩ := h
    exact ⟨_,rfl,[],[],[],hr.reset,rfl,rfl,rfl⟩

theorem SbmWorld.Inv.queueWithCursors : QueueWithCursors w := by
  obtain ⟨flushed,held,unread,hr,hheld,hout,hadd⟩ := h
  have hv := hr.validNum
  have hu := hr.unReadNum
  have hmax := hr.le_max
  have hvn : w.sbm.frameFifo.nValidFrameNum.toNat = held.length+unread.length := by omega
  have hun : w.sbm.frameFifo.nUnReadFrameNum.toNat = unread.length := by omega
  refine ⟨by omega,by omega,by omega,?_,?_,?_,hr.size_le,?_,?_⟩
  · rw [hr.writePos,hv,Int.natCast_mod]
    exact Int.mod_modEq ..
  · rw [hr.writePos,hr.readPos,hu,Int.natCast_mod,Int.natCast_mod]
    push_cast
    apply (Int.mod_modEq ..).trans
    rw [← Int.add_assoc]
    exact ((Int.mod_modEq ..).symm).add_right _
  · rw [validFrames,hvn,hr.frames]
    exact hr.size
  · rw [unreadFrames,hun,hr.unread_eq,hout,hadd]
  · rw [hout,hadd,List.getElem?_append_right (by simp)]
    cases unread with
    | nil => simp [hr.requestStream_nil]
    | cons x rest =>
      obtain ⟨s',hs',hx,-,-,-⟩ := hr.requestStream
      simp [hs',hx]

end

end Steps

/-- In every state of every run from a new manager whose calls are in order and
whose added lengths fit, the manager is a queue with two cursors. -/
theorem queue_with_cursors_in_every_run (nBufferSize : ℤ) (mem : SbmResources) (s : Sbm)
    (hint : nBufferSize ≤ intMax) (hs : sbmCreate nBufferSize mem = some s) (ops : List SbmOp)
    (hg : Guarded SbmWorld.step InOrderFitting (.start s) ops) :
    ∃ w, runSteps SbmWorld.step (.start s) ops = some w ∧ QueueWithCursors w := by
  have hstart : (SbmWorld.start s).Inv :=
    ⟨[],[],[],represents_sbmCreate hint hs,rfl,rfl,rfl⟩
  obtain ⟨w,hw,hinv⟩ :=
    runSteps_invariant SbmWorld.Inv (fun _ _ hi ha => hi.step ha) ops _ hstart hg
  exact ⟨w,hw,hinv.queueWithCursors⟩

/-- A frame that was returned once, then requested again and flushed. -/
theorem queue_with_cursors_in_every_run_of_one_frame :
    ∃ s w, sbmCreate 4194304 ⟨4096,true,true,true⟩ = some s ∧ runSteps SbmWorld.step (.start s)
        [.addStream { zero with pData := 4096, nLength := 100 },
          .requestStream,.returnStream 0,.requestStream,.flushStream 0] = some w ∧
      QueueWithCursors w := by
  obtain ⟨w,hw,h⟩ := queue_with_cursors_in_every_run 4194304 ⟨4096,true,true,true⟩ _
    (by decide) rfl
    [.addStream { zero with pData := 4096, nLength := 100 },
      .requestStream,.returnStream 0,.requestStream,.flushStream 0] (by decide)
  exact ⟨_,w,rfl,hw,h⟩

/-- In a buffer of 4 MB that holds one byte, the sum in the size check of a frame
of `INT_MAX` bytes overflows, the frame is accepted, and the recorded size is no
longer that of the frames. -/
theorem oversized_frame_accepted_on_overflow :
    ∃ s w, sbmCreate 4194304 ⟨4096,true,true,true⟩ = some s ∧
      Guarded SbmWorld.step InOrder (.start s)
        [.addStream { zero with pData := 4096, nLength := 1 },
          .addStream { zero with pData := 4097, nLength := intMax }] ∧
      runSteps SbmWorld.step (.start s)
        [.addStream { zero with pData := 4096, nLength := 1 },
          .addStream { zero with pData := 4097, nLength := intMax }] = some w ∧
      w.sbm.nValidDataSize = -2147483648 ∧ dataSize (validFrames w.sbm.frameFifo) = 2147483648 ∧
      ¬QueueWithCursors w := by
  refine ⟨_,_,rfl,by decide,rfl,by decide,by decide,fun h => ?_⟩
  exact absurd h.size (by decide)

end TinaPackage.StreamBuffer
