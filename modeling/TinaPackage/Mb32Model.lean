import TinaPackage.StoreLoops

/-! The conversions of pictures in tiles of 32 bytes by 32 lines to pictures in
lines. They exist for the decoder on 32-bit machines, whose address space is too
small for buffers that overflow the `int` offsets. -/
namespace TinaPackage.PixelFormat

/-- `(n + 7) & ~7`, `(n + 15) & ~15` and `(n + 31) & ~31`. -/
def align8 (n : ℕ) : ℕ := (n+7)/8*8
def align16 (n : ℕ) : ℕ := (n+15)/16*16
def align32 (n : ℕ) : ℕ := (n+31)/32*32

section
variable {A : Type*} [DecidableEq A]

/-- One tile: `lines` lines, `step` source bytes each, of which those below
`nHeight` are stored. -/
def tile (lines step nHeight i : ℕ) (row : ℕ → ℕ → List (A × UInt8)) :
    (A → UInt8) × ℕ → (A → UInt8) × ℕ :=
  forLoop lines fun m s =>
    if nHeight ≤ i*lines+m then (s.1, s.2+step)
    else (stores s.1 (row (i*lines+m) s.2), s.2+step)

/-- The loops over the tiles: `nCopyMbWidth` tiles of each row of tiles with
`fast` and, if there is one more, that with `edge`. -/
def convertTiles (lines step nMbHeight nCopyMbWidth nHeight : ℕ) (match? : Bool)
    (fast edge : ℕ → ℕ → ℕ → List (A × UInt8)) (dst : A → UInt8) : A → UInt8 :=
  (forLoop nMbHeight (fun i s =>
    let s := forLoop nCopyMbWidth
      (fun j => tile lines step nHeight i fun lineNum ptr => fast j lineNum ptr) s
    if match? then s
    else tile lines step nHeight i (fun lineNum ptr => edge nCopyMbWidth lineNum ptr) s)
    (dst, 0)).1

end

variable (pSrc : ℕ → UInt8) (ptr offset : ℕ)

/-- `vld1.8` and `vst1.8` of 32 bytes. -/
def copy32 : List (ℕ × UInt8) := loop 32 fun k => [(offset+k, pSrc (ptr+k))]

def copyEdge (nLineStride j lineNum ptr : ℕ) : List (ℕ × UInt8) :=
  loopWhile 32 (fun k => j*32+k < nLineStride) fun k =>
    [(lineNum*nLineStride+j*32+k, pSrc (ptr+k))]

def convertMb32420ToNv21Y (pDst : ℕ → UInt8) (nWidth nHeight : ℕ) : ℕ → UInt8 :=
  let nLineStride := align16 nWidth
  let nMbWidth := align32 nWidth/32
  let nMbHeight := align32 nHeight/32
  let nWidthMatchFlag := nMbWidth*32 == nLineStride
  let nCopyMbWidth := if nWidthMatchFlag then nMbWidth else nMbWidth-1
  convertTiles 32 32 nMbHeight nCopyMbWidth nHeight nWidthMatchFlag
    (fun j lineNum ptr => copy32 pSrc ptr (lineNum*nLineStride+j*32))
    (copyEdge pSrc nLineStride) pDst

/-- The body of the loops of the conversions to interleaved chroma: `vld2.8` into
`bufferU` and `bufferV`, which are stored in the other order. -/
def interleaved (nLineStride j lineNum ptr : ℕ) : List (ℕ × UInt8) :=
  loopWhile 16 (fun k => j*32+2*k < nLineStride) fun k =>
    [(lineNum*nLineStride+j*32+2*k, pSrc (ptr+2*k+1)),
      (lineNum*nLineStride+j*32+2*k+1, pSrc (ptr+2*k))]

variable (pDst : ℕ → UInt8) (nPicWidth nPicHeight : ℕ)

def convertMb32420ToNv21C : ℕ → UInt8 :=
  let nWidth := (nPicWidth+1)/2
  let nHeight := (nPicHeight+1)/2
  let row := interleaved pSrc (align16 (nWidth*2))
  convertTiles 32 32 (align32 nHeight/32) (align32 (nWidth*2)/32) nHeight true row row pDst

/-- `ConvertMb32422ToNv21C`: every second line of 32. -/
def convertMb32422ToNv21C : ℕ → UInt8 :=
  let nWidth := (nPicWidth+1)/2
  let nHeight := (nPicHeight+1)/2
  let row := interleaved pSrc (align16 (nWidth*2))
  convertTiles 16 64 (align32 (nHeight*2)/32) (align32 (nWidth*2)/32) nHeight true row row pDst

inductive Plane
  | u
  | v
  deriving DecidableEq, Repr

/-- `vld2.8` of 32 bytes and the two `vst1.8` to the planes. -/
def split32 : List ((Plane × ℕ) × UInt8) :=
  (loop 16 fun k => [((.u, offset+k), pSrc (ptr+2*k))]) ++
    loop 16 fun k => [((.v, offset+k), pSrc (ptr+2*k+1))]

def splitEdge (nLineStride j lineNum ptr : ℕ) : List ((Plane × ℕ) × UInt8) :=
  loopWhile 16 (fun k => j*16+k < nLineStride) fun k =>
    [((.v, lineNum*nLineStride+j*16+k), pSrc (ptr+2*k+1)),
      ((.u, lineNum*nLineStride+j*16+k), pSrc (ptr+2*k))]

/-- The conversions to planes, which differ in the lines of a tile they take. -/
def convertMb32ToYv12C (lines step nMbHeight : ℕ) (pSrc : ℕ → UInt8) (pDst : Plane × ℕ → UInt8)
    (nWidth nHeight : ℕ) : Plane × ℕ → UInt8 :=
  let nLineStride := align8 nWidth
  let nMbWidth := align32 (nWidth*2)/32
  let nWidthMatchFlag := nMbWidth*16 == nLineStride
  let nCopyMbWidth := if nWidthMatchFlag then nMbWidth else nMbWidth-1
  convertTiles lines step nMbHeight nCopyMbWidth nHeight nWidthMatchFlag
    (fun j lineNum ptr => split32 pSrc ptr (lineNum*nLineStride+j*16))
    (splitEdge pSrc nLineStride) pDst

section
variable (pDst : Plane × ℕ → UInt8) (nPicWidth nPicHeight : ℕ)

def convertMb32420ToYv12C : Plane × ℕ → UInt8 :=
  let nHeight := (nPicHeight+1)/2
  convertMb32ToYv12C 32 32 (align32 nHeight/32) pSrc pDst ((nPicWidth+1)/2) nHeight

def convertMb32422ToYv12C : Plane × ℕ → UInt8 :=
  let nHeight := (nPicHeight+1)/2
  convertMb32ToYv12C 16 64 (align32 (nHeight*2)/32) pSrc pDst ((nPicWidth+1)/2) nHeight

end

end TinaPackage.PixelFormat
