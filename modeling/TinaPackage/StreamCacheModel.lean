import TinaPackage.LinkedChain
import TinaPackage.MachineInt

/-! The cache of the player for network streams (`xplayer/cache.c`): one linked list, from
`pPassedHead` over `pHead` to `pTail`, whose frames before `pHead` have been delivered and are kept
for seeking back. A node is an entry of `heap`, and a freed node has no entry. An operation returns
`none` where the source would follow a wild pointer or loop for ever. What the player answers in
`getSeekOffset` is an argument of the seek. -/
namespace TinaPackage.PlayerCache

inductive MediaType
  | unknown
  | video
  | audio
  | subtitle
  | metadata
  | data
deriving DecidableEq

/-- `CdxParserTypeT`, as far as a seek looks at it. -/
inductive ContainerFormat
  | ts
  | bd
  | hls
  | other
deriving DecidableEq

/-- `EVIDEOCODECFORMAT`, as far as the search for key frames looks at it. -/
inductive VideoCodecFormat
  | unknown
  | mpeg1
  | mpeg2
  | h264
  | wmv3
  | h265
  | other
deriving DecidableEq

structure CacheFrame where
  pData : List (BitVec 8)
  nPts : ℤ
  nPcr : ℤ
  eMediaType : MediaType
  nFlags : BitVec 32
deriving DecidableEq

def CacheFrame.nLength (frame : CacheFrame) : ℤ := frame.pData.length

structure CacheNode extends CacheFrame where
  pNext : Option ℕ
deriving DecidableEq

structure StreamCache where
  nMaxBufferSize : ℤ
  nDataSize : ℤ
  nFrameNum : ℤ
  nVideoFrameNum : ℤ
  pHead : Option ℕ
  pTail : Option ℕ
  nPassedDataSize : ℤ
  nPassedFrameNum : ℤ
  nPassedVideoFrameNum : ℤ
  pPassedHead : Option ℕ
  nLastValidPts : ℤ
  pNodeWithLastValidPts : Option ℕ
  nLastValidPcr : ℤ
  pNodeWithLastValidPcr : Option ℕ
  eContainerFormat : ContainerFormat
  eVideoCodecFormat : VideoCodecFormat
  heap : ℕ → Option CacheNode
  /-- how many nodes have been allocated; the next one gets this index -/
  nNodes : ℕ

namespace StreamCache

/-- `StreamCacheCreate`, `StreamCacheSetSize` and `StreamCacheSetMediaFormat`. -/
def create (nMaxBufferSize : ℤ) (eContainerFormat : ContainerFormat)
    (eVideoCodecFormat : VideoCodecFormat) : StreamCache where
  nMaxBufferSize := nMaxBufferSize
  nDataSize := 0
  nFrameNum := 0
  nVideoFrameNum := 0
  pHead := none
  pTail := none
  nPassedDataSize := 0
  nPassedFrameNum := 0
  nPassedVideoFrameNum := 0
  pPassedHead := none
  nLastValidPts := -1
  pNodeWithLastValidPts := none
  nLastValidPcr := -1
  pNodeWithLastValidPcr := none
  eContainerFormat := eContainerFormat
  eVideoCodecFormat := eVideoCodecFormat
  heap _ := none
  nNodes := 0

variable (c : StreamCache) (p : ℕ)

def next : Option ℕ := (c.heap p).bind CacheNode.pNext

def nodesFrom (p : Option ℕ) : List ℕ := walkList c.next c.nNodes p

def minPassedDataKeptSize : ℤ := (int32 (c.nMaxBufferSize*3)).tdiv 10

def overflow : Bool :=
  int32 (c.nDataSize+c.nPassedDataSize) ≥ c.nMaxBufferSize &&
    c.nPassedDataSize ≤ c.minPassedDataKeptSize

def pass (node : CacheNode) : StreamCache :=
  { c with
    pHead := node.pNext
    nFrameNum := int32 (c.nFrameNum-1)
    nDataSize := int32 (c.nDataSize-node.nLength)
    nPassedDataSize := int32 (c.nPassedDataSize+node.nLength)
    nPassedFrameNum := int32 (c.nPassedFrameNum+1)
    nVideoFrameNum := if node.eMediaType = .video then int32 (c.nVideoFrameNum-1)
      else c.nVideoFrameNum
    nPassedVideoFrameNum := if node.eMediaType = .video then int32 (c.nPassedVideoFrameNum+1)
      else c.nPassedVideoFrameNum }

def flushOneFrame : Option StreamCache :=
  match c.pHead with
  | none => some c
  | some p => (c.heap p).map c.pass

/-- The oldest passed frame is freed. The number of passed video frames stays. -/
def evict (node : CacheNode) : StreamCache :=
  { c with
    pPassedHead := node.pNext
    nPassedFrameNum := int32 (c.nPassedFrameNum-1)
    nPassedDataSize := int32 (c.nPassedDataSize-node.nLength)
    nLastValidPts := if c.pNodeWithLastValidPts = some p then -1 else c.nLastValidPts
    pNodeWithLastValidPts := if c.pNodeWithLastValidPts = some p then none
      else c.pNodeWithLastValidPts
    nLastValidPcr := if c.pNodeWithLastValidPcr = some p then -1 else c.nLastValidPcr
    pNodeWithLastValidPcr := if c.pNodeWithLastValidPcr = some p then none
      else c.pNodeWithLastValidPcr
    heap := Function.update c.heap p none }

def flushPassedList : Option StreamCache :=
  match c.pPassedHead with
  | none => some c
  | some p =>
    if c.pHead = some p ∨ c.pTail = some p then some c else (c.heap p).map (c.evict p)

/-- The loop of `StreamCacheAddOneFrame`. A round that frees no frame changes nothing, and the
loop does not end. -/
def makeRoom : ℕ → StreamCache → Option StreamCache
  | 0, _ => none
  | fuel + 1, c =>
    if int32 (c.nDataSize+c.nPassedDataSize) ≥ c.nMaxBufferSize ∧
        c.nPassedDataSize > c.minPassedDataKeptSize then
      c.flushPassedList.bind (makeRoom fuel)
    else some c

def allocate (frame : CacheFrame) : StreamCache :=
  { c with
    heap := Function.update c.heap c.nNodes (some { frame with pNext := none })
    nNodes := c.nNodes+1
    nLastValidPts := if frame.nPts ≠ -1 then frame.nPts else c.nLastValidPts
    pNodeWithLastValidPts := if frame.nPts ≠ -1 then some c.nNodes else c.pNodeWithLastValidPts
    nLastValidPcr := if frame.nPcr ≠ -1 then frame.nPcr else c.nLastValidPcr
    pNodeWithLastValidPcr := if frame.nPcr ≠ -1 then some c.nNodes else c.pNodeWithLastValidPcr }

def link : Option StreamCache :=
  match c.pTail with
  | some t =>
    (c.heap t).map fun tail =>
      { c with
        heap := Function.update c.heap t (some { tail with pNext := some p })
        pTail := some p
        pHead := if c.pHead = none then some p else c.pHead }
  | none => some { c with pPassedHead := some p, pHead := some p, pTail := some p }

def countFrame (frame : CacheFrame) : StreamCache :=
  { c with
    nDataSize := int32 (c.nDataSize+frame.nLength)
    nFrameNum := int32 (c.nFrameNum+1)
    nVideoFrameNum := if frame.eMediaType = .video then int32 (c.nVideoFrameNum+1)
      else c.nVideoFrameNum }

/-- `StreamCacheAddOneFrame`; `allocated` is whether `malloc` had a node. -/
def addOneFrame (frame : CacheFrame) (allocated : Bool) : Option (StreamCache × ℤ) :=
  if !allocated then some (c, -1)
  else
    ((c.allocate frame).makeRoom (c.nNodes+2)).bind fun c' =>
      (c'.link c.nNodes).map fun c => (c.countFrame frame, 0)

def flushAll : StreamCache :=
  let freed := c.nodesFrom c.pPassedHead
  { c with
    heap := fun p => if p ∈ freed then none else c.heap p
    pPassedHead := none
    nDataSize := 0
    nFrameNum := 0
    nVideoFrameNum := 0
    pHead := none
    pTail := none
    nPassedDataSize := 0
    nPassedFrameNum := 0
    nPassedVideoFrameNum := 0
    nLastValidPts := -1
    pNodeWithLastValidPts := none
    nLastValidPcr := -1
    pNodeWithLastValidPcr := none }

end StreamCache

/-- The loops over the data of a frame keep its last four bytes in `code`. `check` may end them with
an answer; it sees the data that follows. -/
def scanData (check : BitVec 32 → List (BitVec 8) → Option Bool) :
    ℕ → BitVec 32 → List (BitVec 8) → Bool
  | n + 1, code, byte :: rest =>
    let code := code <<< 8 ||| byte.setWidth 32
    (check code rest).getD (scanData check n code rest)
  | _, _, _ => false

/-- The loop stops `last` bytes before the end of the data. -/
def hasKeyCode (last : ℕ) (check : BitVec 32 → List (BitVec 8) → Option Bool)
    (frame : CacheFrame) : Bool :=
  if frame.pData.length < last then false
  else scanData check (frame.pData.length-last+1) 0xffffffff frame.pData

def isMpeg12KeyFrame : CacheFrame → Bool :=
  hasKeyCode 6 fun code rest =>
    if code = 0x01b3 ∨ code = 0x01b8 then some true
    else if code = 0x0100 then
      -- the picture type stands in the second byte that follows
      some (((rest.getD 1 0) >>> 3) &&& 0x7 == 1)
    else none

def isWMV3KeyFrame : CacheFrame → Bool :=
  hasKeyCode 16 fun code _ => if code = 0x010f then some true else none

def isH264KeyFrame : CacheFrame → Bool :=
  hasKeyCode 16 fun code _ =>
    let tmp := code &&& 0xffffff1f
    if tmp = 0x0107 ∨ tmp = 0x0108 ∨ tmp = 0x0105 then some true else none

def isH265KeyFrame : CacheFrame → Bool :=
  hasKeyCode 16 fun code rest =>
    if (code = 0x0140 ∨ code = 0x0142 ∨ code = 0x0144 ∨ code = 0x0126 ∨ code = 0x0128 ∨
        code = 0x012a) ∧ rest.head? = some 0x01 then some true
    else none

def keyFrameFlag : BitVec 32 := 0x0008

namespace StreamCache

def isKeyFrame (c : StreamCache) (frame : CacheFrame) : Bool :=
  if c.eVideoCodecFormat = .unknown then frame.eMediaType == .audio
  else if c.eContainerFormat = .ts ∨ c.eContainerFormat = .bd ∨ c.eContainerFormat = .hls then
    match c.eVideoCodecFormat with
    | .h264 => isH264KeyFrame frame
    | .mpeg1 | .mpeg2 => isMpeg12KeyFrame frame
    | .wmv3 => isWMV3KeyFrame frame
    | .h265 => isH265KeyFrame frame
    | _ => false
  else frame.nFlags &&& keyFrameFlag ≠ 0 && frame.eMediaType == .video

/-! ### Seeking

The loops of a seek run over the nodes and their data. A pointer into the list is what stands from
there on. -/

/-- A loop that meets a freed node goes wrong. -/
def listFrom (c : StreamCache) (p : Option ℕ) : Option (List (ℕ × CacheNode)) :=
  (c.nodesFrom p).mapM fun q => (c.heap q).map (q, ·)

def pointer (rest : List (ℕ × CacheNode)) : Option ℕ := rest.head?.map Prod.fst

structure PassedSums where
  nDataSize : ℤ
  nFrameNum : ℤ
  nVideoFrameNum : ℤ

/-- The loop of `adjustList`, which goes wrong when `pNodeFound` is not in the list. -/
def sumsBefore (pNodeFound : Option ℕ) :
    PassedSums → List (ℕ × CacheNode) → Option PassedSums
  | sums, [] => if pNodeFound = none then some sums else none
  | sums, (p, node) :: rest =>
    if pNodeFound = some p then some sums
    else
      sumsBefore pNodeFound
        { nDataSize := int32 (sums.nDataSize+node.nLength)
          nFrameNum := int32 (sums.nFrameNum+1)
          nVideoFrameNum := if node.eMediaType = .video then int32 (sums.nVideoFrameNum+1)
            else sums.nVideoFrameNum } rest

def divide (c : StreamCache) (pNodeFound : Option ℕ) (sums : PassedSums) : StreamCache :=
  { c with
    pHead := pNodeFound
    nDataSize := int32 (int32 (c.nPassedDataSize+c.nDataSize)-sums.nDataSize)
    nFrameNum := int32 (int32 (c.nPassedFrameNum+c.nFrameNum)-sums.nFrameNum)
    nVideoFrameNum :=
      int32 (int32 (c.nPassedVideoFrameNum+c.nVideoFrameNum)-sums.nVideoFrameNum)
    nPassedDataSize := sums.nDataSize
    nPassedFrameNum := sums.nFrameNum
    nPassedVideoFrameNum := sums.nVideoFrameNum }

def adjustList (c : StreamCache) (pNodeFound : Option ℕ) : Option StreamCache :=
  (c.listFrom c.pPassedHead).bind fun list =>
    (sumsBefore pNodeFound ⟨0,0,0⟩ list).map (c.divide pNodeFound)

/-- The first loop of `StreamCacheSeekByPts`; `none` when the seek fails. -/
def firstKeyFrame (c : StreamCache) (nSeekTimeUs : ℤ) :
    List (ℕ × CacheNode) → Option (List (ℕ × CacheNode))
  | [] => none
  | (p, node) :: rest =>
    if node.nPts = -1 then firstKeyFrame c nSeekTimeUs rest
    else if node.nPts > nSeekTimeUs then none
    else if c.isKeyFrame node.toCacheFrame then some ((p, node) :: rest)
    else firstKeyFrame c nSeekTimeUs rest

structure Nearest where
  before : ℤ
  pBefore : List (ℕ × CacheNode)
  after : ℤ
  pAfter : List (ℕ × CacheNode)

def int64Max : ℤ := 0x7fffffffffffffff

def nearestPts (c : StreamCache) (nSeekTimeUs : ℤ) :
    ℤ → List (ℕ × CacheNode) → List (ℕ × CacheNode) → Nearest
  | before, pBefore, [] => ⟨before,pBefore,int64Max,[]⟩
  | before, pBefore, (p, node) :: rest =>
    let nCurPts := node.nPts
    if nCurPts = -1 ∨ ¬c.isKeyFrame node.toCacheFrame then
      nearestPts c nSeekTimeUs before pBefore rest
    else if nCurPts ≤ nSeekTimeUs ∧ nCurPts > before then
      nearestPts c nSeekTimeUs nCurPts ((p, node) :: rest) rest
    else if nCurPts > nSeekTimeUs then ⟨before,pBefore,nCurPts,(p, node) :: rest⟩
    else nearestPts c nSeekTimeUs before pBefore rest

def seekByPts (c : StreamCache) (nSeekTimeUs : ℤ) : Option (StreamCache × ℤ) :=
  if c.nLastValidPts < nSeekTimeUs then some (c, -1)
  else
    (c.listFrom c.pPassedHead).bind fun list =>
      match c.firstKeyFrame nSeekTimeUs list with
      | none => some (c, -1)
      | some rest =>
        let near := c.nearestPts nSeekTimeUs (-1) [] rest
        if near.pAfter = [] ∧ int64 (nSeekTimeUs-near.before) ≥ 1000000 then some (c, -1)
        else
          let pNode := if int64 (nSeekTimeUs-near.before) ≤ int64 (near.after-nSeekTimeUs)
            then near.pBefore else near.pAfter
          (c.adjustList (pointer pNode)).bind fun c =>
            -- the result is read from the new head
            (c.pHead.bind c.heap).map fun node => (c, node.nPts)

/-- The first loop of `StreamCacheSeekByPcr`; `none` when the seek fails. -/
def firstPcr (nSeekTimeUs : ℤ) : List (ℕ × CacheNode) → Option (List (ℕ × CacheNode))
  | [] => some []
  | (p, node) :: rest =>
    if node.nPcr > nSeekTimeUs then none
    else if node.nPcr ≠ -1 then some ((p, node) :: rest)
    else firstPcr nSeekTimeUs rest

def nearestPcr (nSeekTimeUs : ℤ) :
    ℤ → List (ℕ × CacheNode) → List (ℕ × CacheNode) → Nearest
  | before, pBefore, [] => ⟨before,pBefore,int64Max,[]⟩
  | before, pBefore, (p, node) :: rest =>
    let nCurPcr := node.nPcr
    if nCurPcr > before ∧ nCurPcr ≤ nSeekTimeUs then
      nearestPcr nSeekTimeUs nCurPcr ((p, node) :: rest) rest
    else if nCurPcr > nSeekTimeUs then ⟨before,pBefore,nCurPcr,(p, node) :: rest⟩
    else nearestPcr nSeekTimeUs before pBefore rest

/-- The third loop: the key frames between the two nodes by their time, which the clock of the
first node maps to the clock of the stream. -/
def nearestMapped (c : StreamCache) (nSeekTimeUs nPtsOffset nPtsBase : ℤ) :
    Nearest → List (ℕ × CacheNode) → Nearest
  | near, [] => near
  | near, (p, node) :: rest =>
    if pointer near.pAfter = some p then near
    else if node.nPts = -1 ∨ ¬c.isKeyFrame node.toCacheFrame then
      nearestMapped c nSeekTimeUs nPtsOffset nPtsBase near rest
    else
      let nMappedPts := int64 (int64 (node.nPts-nPtsOffset)+nPtsBase)
      if nMappedPts ≤ nSeekTimeUs ∧ nMappedPts > near.before then
        nearestMapped c nSeekTimeUs nPtsOffset nPtsBase
          { near with before := nMappedPts, pBefore := (p, node) :: rest } rest
      else if nMappedPts > nSeekTimeUs then
        { near with after := nMappedPts, pAfter := (p, node) :: rest }
      else nearestMapped c nSeekTimeUs nPtsOffset nPtsBase near rest

variable (c : StreamCache) (nSeekTimeUs : ℤ)

def seekByPcr : Option (StreamCache × ℤ) :=
  match c.pNodeWithLastValidPcr with
  | none => some (c, -1)
  | some q =>
    (c.heap q).bind fun pNode =>
      if int64 (int64 (c.nLastValidPts-pNode.nPts)+c.nLastValidPcr) < nSeekTimeUs then
        some (c, -1)
      else
        (c.listFrom c.pPassedHead).bind fun list =>
          match firstPcr nSeekTimeUs list with
          | none => some (c, -1)
          | some rest =>
            let near := nearestPcr nSeekTimeUs (-1) [] rest
            match near.pBefore with
            -- `pLastNodeBefore` is dereferenced
            | [] => none
            | (p, node) :: rest =>
              let near := c.nearestMapped nSeekTimeUs node.nPts node.nPcr
                { near with before := node.nPcr, pBefore := (p, node) :: rest } rest
              let closer := int64 (near.after-nSeekTimeUs) < int64 (nSeekTimeUs-near.before)
              let nFoundMappedPts := if closer then near.after else near.before
              let pNodeFound := if closer then near.pAfter else near.pBefore
              if near.pAfter = [] ∧ int64 (nSeekTimeUs-nFoundMappedPts) > 3000000 then
                some (c, -1)
              else (c.adjustList (pointer pNodeFound)).map fun c => (c, nFoundMappedPts)

def offsetNode (nSeekOffset : ℤ) : ℤ → List (ℕ × CacheNode) → List (ℕ × CacheNode)
  | _, [] => []
  | offset, (p, node) :: rest =>
    let offset := int32 (offset+node.nLength)
    if offset ≥ nSeekOffset then (p, node) :: rest else offsetNode nSeekOffset offset rest

def seekByOffset (nSeekOffset : ℤ) : Option (StreamCache × ℤ) :=
  if nSeekOffset < int32 (-c.nPassedDataSize) ∨ nSeekOffset > c.nDataSize then some (c, -1)
  else
    let nOffset := if nSeekOffset < 0 then int64 (nSeekOffset+c.nPassedDataSize) else nSeekOffset
    (c.listFrom (if nSeekOffset < 0 then c.pPassedHead else c.pHead)).bind fun list =>
      (c.adjustList (pointer (offsetNode nOffset 0 list))).map fun c => (c, 0)

/-- `getSeekOffset` answers -1 if `nByteOffset` is `none`. -/
def seekByBitrate : Option ℤ → Option (StreamCache × ℤ)
  | none => some (c, -1)
  | some nByteOffset =>
    (c.seekByOffset nByteOffset).map fun (c, ret) => (c, if ret = 0 then nSeekTimeUs else ret)

def seekTo (nByteOffset : Option ℤ) : Option (StreamCache × ℤ) :=
  match c.eContainerFormat with
  | .ts | .bd => c.seekByBitrate nSeekTimeUs nByteOffset
  | .hls => c.seekByPcr nSeekTimeUs
  | .other => c.seekByPts nSeekTimeUs

end StreamCache

end TinaPackage.PlayerCache
