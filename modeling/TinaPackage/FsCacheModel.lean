import TinaPackage.RingLog
import TinaPackage.Runs

/-! The muxer's file writer with a thread (`CdxFsCache.c`). The producer puts bytes into a ring and
the thread gives them to the file, in steps that read or publish at most one pointer. Pointers are
offsets into the cache. -/
namespace TinaPackage.FsWriter

def writeBlockSize : ℕ := 128*1024

/-- Bytes that the thread gives to the file in one call, and where its read pointer goes then. -/
structure Chunk where
  start : ℕ
  len : ℕ
  next : ℕ
  deriving DecidableEq

inductive Return where
  | nothing
  | wrote (ret : ℤ)
  | flushed (ret : ℤ)
  deriving DecidableEq

/-- Where the producer stands in `FsCacheThreadWrite`, `FsCacheThreadFlush` or
`DeinitFsCacheThreadContext`, with its local variables. -/
inductive ProducerPc where
  | returned (r : Return)
  | writeTest (buf : List UInt8)
  | writeReadRd (buf : List UInt8)
  | writeReadWr (buf : List UInt8) (rd : ℕ)
  | writeCopy (buf : List UInt8) (rd wr : ℕ)
  | writePublish (buf : List UInt8) (wr free : ℕ)
  | writeCheck (size free : ℕ)
  | writeNotify (size free : ℕ)
  | writeUp (buf : List UInt8)
  | writeUpTest (buf : List UInt8)
  | writeWait (buf : List UInt8)
  | flushReadRd
  | flushReadWr (rd : ℕ)
  | flushTest
  | flushLock
  | flushSetFlag
  | flushUp
  | flushUnlock
  | flushDown
  | flushReadRdAgain
  | flushReadWrAgain (rd : ℕ)
  | exitSet
  | exitUp
  | joining
  deriving DecidableEq

inductive Drain where
  | flush
  | exit
  deriving DecidableEq

/-- Where the thread stands in `FsCacheWriteThread`. -/
inductive ThreadPc where
  | down
  | infoRd
  | infoWr
  | loopRd
  | loopWr (rd : ℕ)
  | loopPublish (chunk : Chunk)
  | lock
  | testFlag
  | drainRd (why : Drain)
  | drainWr (why : Drain) (rd : ℕ)
  | drainPublish (why : Drain) (chunk : Chunk) (more : List Chunk)
  | compare
  | resetWr
  | resetRd
  | flushUp
  | clearFlag
  | unlock
  | testExit
  | stop
  | stopped
  deriving DecidableEq

inductive Party where
  | producer
  | thread
  deriving DecidableEq

/-- `FsCacheThreadContext` with both parties. The last four fields are not in the source: the bytes
handed to `FileWriter`, those of them that its counts say it has written, whether a count was
short, and the bytes that writes have put into the cache. -/
structure FsCache where
  mpCache : ℕ → UInt8
  mReadPtr : ℕ
  mWritePtr : ℕ
  mWriteErrorFlag : Bool
  mThreadExitFlag : Bool
  mFlushFlag : Bool
  mFlushLock : Option Party
  mWriteStartSem : ℕ
  mFlushDoneSem : ℕ
  producer : ProducerPc
  thread : ThreadPc
  handed : List UInt8
  file : List UInt8
  short : Bool
  accepted : List UInt8

def initFsCache (cache : ℕ → UInt8) : FsCache where
  mpCache := cache
  mReadPtr := 0
  mWritePtr := 0
  mWriteErrorFlag := false
  mThreadExitFlag := false
  mFlushFlag := false
  mFlushLock := none
  mWriteStartSem := 0
  mFlushDoneSem := 0
  producer := .returned .nothing
  thread := .down
  handed := []
  file := []
  short := false
  accepted := []

def upUnique (sem : ℕ) : ℕ := if sem = 0 then 1 else sem

variable (n : ℕ)

/-- The room behind the write pointer up to the end, less the byte that stays free if the read
pointer is at the beginning. -/
def freeSection2 (rd wr : ℕ) : ℕ := if 0 < rd then n-wr else n-wr-1

def freeSize (rd wr : ℕ) : ℕ :=
  if rd ≤ wr then (rd-1)+freeSection2 n rd wr else rd-wr-1

def copyIn (mem : ℕ → UInt8) (rd wr : ℕ) (buf : List UInt8) : (ℕ → UInt8) × ℕ :=
  if rd ≤ wr then
    let section2 := freeSection2 n rd wr
    if buf.length ≤ section2 then
      (store mem wr buf, if wr+buf.length = n then 0 else wr+buf.length)
    else
      (store (store mem wr (buf.take section2)) 0 (buf.drop section2), buf.length-section2)
  else (store mem wr buf, wr+buf.length)

/-- What the owner of the writer calls. `exit` is the part of `DeinitFsCacheThreadContext` behind
its flush. -/
inductive Call where
  | write (buf : List UInt8)
  | flush
  | exit

def beginCall : Call → ProducerPc
  | .write buf => if buf = [] then .returned (.wrote 0) else .writeTest buf
  | .flush => .flushReadRd
  | .exit => .exitSet

/-- A step of the producer. The wait for `m_write_done_sem` is a wait for a condition, which may
end at any time. -/
def producerStep (s : FsCache) : Option FsCache :=
  match s.producer with
  | .returned _ => none
  | .writeTest buf =>
    some { s with producer :=
      if s.mWriteErrorFlag then .returned (.wrote (-1)) else .writeReadRd buf }
  | .writeReadRd buf => some { s with producer := .writeReadWr buf s.mReadPtr }
  | .writeReadWr buf rd =>
    some { s with producer :=
      if buf.length ≤ freeSize n rd s.mWritePtr then .writeCopy buf rd s.mWritePtr
      else .writeUp buf }
  | .writeCopy buf rd wr =>
    let r := copyIn n s.mpCache rd wr buf
    some { s with mpCache := r.1, producer := .writePublish buf r.2 (freeSize n rd wr) }
  | .writePublish buf wr free =>
    some { s with mWritePtr := wr, accepted := s.accepted ++ buf,
                  producer := .writeCheck buf.length free }
  | .writeCheck size free =>
    some { s with producer :=
      if s.mWriteErrorFlag then .returned (.wrote (-1)) else .writeNotify size free }
  | .writeNotify size free =>
    some { s with producer := .returned (.wrote size),
                  mWriteStartSem := if writeBlockSize ≤ n-(free+1-size)
                    then upUnique s.mWriteStartSem else s.mWriteStartSem }
  | .writeUp buf =>
    some { s with mWriteStartSem := upUnique s.mWriteStartSem, producer := .writeUpTest buf }
  | .writeUpTest buf =>
    some { s with producer :=
      if s.mWriteErrorFlag then .returned (.wrote (-1)) else .writeWait buf }
  | .writeWait buf => some { s with producer := .writeTest buf }
  | .flushReadRd => some { s with producer := .flushReadWr s.mReadPtr }
  | .flushReadWr rd =>
    some { s with producer := if rd = s.mWritePtr then .returned (.flushed 0) else .flushTest }
  | .flushTest =>
    some { s with producer :=
      if s.mWriteErrorFlag then .returned (.flushed (-1)) else .flushLock }
  | .flushLock =>
    if s.mFlushLock = none then
      some { s with mFlushLock := some .producer, producer := .flushSetFlag }
    else none
  | .flushSetFlag => some { s with mFlushFlag := true, producer := .flushUp }
  | .flushUp =>
    some { s with mWriteStartSem := upUnique s.mWriteStartSem, producer := .flushUnlock }
  | .flushUnlock => some { s with mFlushLock := none, producer := .flushDown }
  | .flushDown =>
    if s.mFlushDoneSem = 0 then none
    else some { s with mFlushDoneSem := s.mFlushDoneSem-1, producer := .flushReadRdAgain }
  | .flushReadRdAgain => some { s with producer := .flushReadWrAgain s.mReadPtr }
  | .flushReadWrAgain rd =>
    some { s with producer := .returned (.flushed (if rd = s.mWritePtr then 0 else -1)) }
  | .exitSet => some { s with mThreadExitFlag := true, producer := .exitUp }
  | .exitUp => some { s with mWriteStartSem := upUnique s.mWriteStartSem, producer := .joining }
  | .joining => none

def loopChunk (rd wr : ℕ) : Option Chunk :=
  if rd ≤ wr then
    let blocks := (wr-rd)/writeBlockSize
    if 0 < blocks then some ⟨rd,writeBlockSize*blocks,rd+writeBlockSize*blocks⟩ else none
  else
    let blocks := (n-rd)/writeBlockSize
    if 0 < blocks then
      let next := rd+writeBlockSize*blocks
      some ⟨rd,writeBlockSize*blocks,if next = n then 0 else next⟩
    else some ⟨rd,n-rd,0⟩

def drainChunks (rd wr : ℕ) : List Chunk :=
  if rd ≤ wr then if 0 < wr-rd then [⟨rd,wr-rd,wr⟩] else []
  else (if 0 < n-rd then [⟨rd,n-rd,0⟩] else []) ++ if 0 < wr then [⟨0,wr,wr⟩] else []

def drainNext (why : Drain) : List Chunk → ThreadPc
  | chunk :: more => .drainPublish why chunk more
  | [] => match why with
    | .flush => .compare
    | .exit => .stop

/-- `FileWriter` on a part of the cache, and the publication of the read pointer behind it. The
pointer moves by the whole part, whatever count `FileWriter` returns. -/
def writeChunk (count : ℕ) (s : FsCache) (chunk : Chunk) : FsCache :=
  let bytes := (List.range chunk.len).map fun k => s.mpCache (chunk.start+k)
  { s with handed := s.handed ++ bytes, file := s.file ++ bytes.take count,
           short := s.short || count < chunk.len, mReadPtr := chunk.next }

/-- A step of the thread. If it writes to the file, `ret` is what `FileWriter` returns. -/
def threadStep (ret : ℤ) (s : FsCache) : Option FsCache :=
  match s.thread with
  | .down =>
    if s.mWriteStartSem = 0 then none
    else some { s with mWriteStartSem := s.mWriteStartSem-1, thread := .infoRd }
  | .infoRd => some { s with thread := .infoWr }
  | .infoWr => some { s with thread := .loopRd }
  | .loopRd => some { s with thread := .loopWr s.mReadPtr }
  | .loopWr rd =>
    match loopChunk n rd s.mWritePtr with
    | some chunk => some { s with thread := .loopPublish chunk }
    | none => some { s with thread := .lock }
  | .loopPublish chunk =>
    if ret < 0 then some { s with thread := .stop }
    else some { writeChunk ret.toNat s chunk with thread := .loopRd }
  | .lock =>
    if s.mFlushLock = none then some { s with mFlushLock := some .thread, thread := .testFlag }
    else none
  | .testFlag => some { s with thread := if s.mFlushFlag then .drainRd .flush else .unlock }
  | .drainRd why => some { s with thread := .drainWr why s.mReadPtr }
  | .drainWr why rd => some { s with thread := drainNext why (drainChunks n rd s.mWritePtr) }
  | .drainPublish why chunk more =>
    if ret < 0 then some { s with thread := .stop }
    else some { writeChunk ret.toNat s chunk with thread := drainNext why more }
  | .compare => some { s with thread := if s.mReadPtr = s.mWritePtr then .resetWr else .flushUp }
  | .resetWr => some { s with mWritePtr := 0, thread := .resetRd }
  | .resetRd => some { s with mReadPtr := 0, thread := .flushUp }
  | .flushUp => some { s with mFlushDoneSem := s.mFlushDoneSem+1, thread := .clearFlag }
  | .clearFlag => some { s with mFlushFlag := false, thread := .unlock }
  | .unlock => some { s with mFlushLock := none, thread := .testExit }
  | .testExit => some { s with thread := if s.mThreadExitFlag then .drainRd .exit else .down }
  | .stop => some { s with mWriteErrorFlag := true, thread := .stopped }
  | .stopped => none

inductive FsAction where
  | call (c : Call)
  | producer
  | thread (ret : ℤ)

def fsCacheStep (s : FsCache) : FsAction → Option FsCache
  | .call c => match s.producer with
    | .returned _ => some { s with producer := beginCall c }
    | _ => none
  | .producer => producerStep n s
  | .thread ret => threadStep n ret s

def held (s : FsCache) : List UInt8 :=
  ringSlice s.mpCache n s.mReadPtr ((s.mWritePtr+n-s.mReadPtr) % n)

end TinaPackage.FsWriter
