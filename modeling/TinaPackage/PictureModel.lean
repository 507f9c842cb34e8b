import TinaPackage.Mb32Model

/-! Rotating pictures in line order and converting them between pixel formats. -/
namespace TinaPackage.PixelFormat

inductive Format
  | yv12
  | nv21
  | nv12
  | yuvPlaner420
  | other
  deriving DecidableEq, Repr

/-- A `VideoPicture`. `mem` is the memory its data pointers lead to; it shares
none with another picture. -/
structure VideoPicture where
  ePixelFormat : Format
  nWidth : ℕ
  nHeight : ℕ
  nLineStride : ℕ
  nTopOffset : ℤ
  nLeftOffset : ℤ
  nBottomOffset : ℤ
  nRightOffset : ℤ
  pData0 : ℕ
  pData1 : ℕ
  pData2 : ℕ
  mem : ℕ → UInt8

namespace VideoPicture

variable (p : VideoPicture)

def nMemSizeY : ℕ := p.nLineStride*align16 p.nHeight

/-- Where the functions below take the chroma planes to begin. -/
def chroma1 : ℕ := p.pData0+p.nMemSizeY

def chroma2 : ℕ := p.chroma1+p.nMemSizeY/4

def store (ws : List (ℕ × UInt8)) : VideoPicture := { p with mem := stores p.mem ws }

end VideoPicture

section Loops
variable (pIn pOut : VideoPicture) (place : ℕ → ℕ → ℕ)

/-- The loops over the luma plane; `place i j` is where column `i` of line `j`
goes. -/
def lumaStores : List (ℕ × UInt8) :=
  loop pIn.nHeight fun j => loop pIn.nWidth fun i =>
    [(pOut.pData0+place i j, pIn.mem (pIn.pData0+(j*pIn.nLineStride+i)))]

def planarStores : List (ℕ × UInt8) :=
  loop (pIn.nHeight/2) fun j => loop (pIn.nWidth/2) fun i =>
    [(pOut.pData1+place i j, pIn.mem (pIn.chroma1+(j*(pIn.nLineStride/2)+i))),
      (pOut.pData2+place i j, pIn.mem (pIn.chroma2+(j*(pIn.nLineStride/2)+i)))]

/-- The loops over interleaved chroma; the two bytes of a pair have places of
their own. -/
def interleavedStores (place' : ℕ → ℕ → ℕ) : List (ℕ × UInt8) :=
  loop (pIn.nHeight/2) fun j => loop (pIn.nWidth/2) fun i =>
    [(pOut.pData1+place i j, pIn.mem (pIn.chroma1+(2*j*(pIn.nLineStride/2)+2*i))),
      (pOut.pData1+place' i j, pIn.mem (pIn.chroma1+(2*j*(pIn.nLineStride/2)+2*i+1)))]

end Loops

variable (pIn pOut : VideoPicture)

def rotatePixels90 : VideoPicture :=
  let nHeight := pIn.nHeight/2
  let nRotateLineStride := pOut.nLineStride/2
  let luma := lumaStores pIn pOut fun i j => i*pOut.nLineStride+pIn.nHeight-j-1
  match pOut.ePixelFormat with
  | .yv12 =>
    let pOut := { pOut with pData1 := pOut.chroma1, pData2 := pOut.chroma2 }
    pOut.store (luma ++ planarStores pIn pOut fun i j => i*nRotateLineStride+nHeight-j-1)
  | .nv21 | .nv12 =>
    let pOut := { pOut with pData1 := pOut.chroma1 }
    pOut.store (luma ++ interleavedStores pIn pOut
      (fun i j => 2*i*nRotateLineStride+2*nHeight-(2*j+1)-1)
      (fun i j => 2*i*nRotateLineStride+2*nHeight-2*j-1))
  | _ => pOut

def rotatePixels180 : VideoPicture :=
  let nHeight := pIn.nHeight/2
  let nWidth := pIn.nWidth/2
  let nLineStride := pIn.nLineStride/2
  let luma := lumaStores pIn pOut fun i j =>
    (pIn.nHeight-1-j)*pIn.nLineStride+(pIn.nWidth-1-i)
  match pOut.ePixelFormat with
  | .yv12 =>
    let pOut := { pOut with
      pData1 := pOut.pData0+pIn.nMemSizeY
      pData2 := pOut.pData0+pIn.nMemSizeY+pIn.nMemSizeY/4 }
    pOut.store (luma ++ planarStores pIn pOut fun i j =>
      (nHeight-1-j)*nLineStride+(nWidth-1-i))
  | .nv21 | .nv12 =>
    let pOut := { pOut with pData1 := pOut.pData0+pIn.nMemSizeY }
    pOut.store (luma ++ interleavedStores pIn pOut
      (fun i j => 2*(nHeight-1-j)*nLineStride+2*(nWidth-1-i))
      (fun i j => 2*(nHeight-1-j)*nLineStride+2*(nWidth-1-i)+1))
  | _ => pOut

/-- The pixels of `RotatePicture270Degree`. For interleaved chroma it does not
set `pData1` of the result. -/
def rotatePixels270 : VideoPicture :=
  let nWidth := pIn.nWidth/2
  let nRotateLineStride := pOut.nLineStride/2
  let luma := lumaStores pIn pOut fun i j => (pIn.nWidth-1-i)*pOut.nLineStride+j
  match pOut.ePixelFormat with
  | .yv12 =>
    let pOut := { pOut with pData1 := pOut.chroma1, pData2 := pOut.chroma2 }
    pOut.store (luma ++ planarStores pIn pOut fun i j => (nWidth-1-i)*nRotateLineStride+j)
  | .nv21 | .nv12 =>
    pOut.store (luma ++ interleavedStores pIn pOut
      (fun i j => 2*(nWidth-1-i)*nRotateLineStride+2*j)
      (fun i j => 2*(nWidth-1-i)*nRotateLineStride+2*j+1))
  | _ => pOut

/-- The distances of the crop rectangle that the rotations compute. All three
take that from the bottom from the offset of the top. -/
structure Margins where
  nLeftOffset : ℤ
  nRightOffset : ℤ
  nTopOffset : ℤ
  nBottomOffset : ℤ

def margins : Margins where
  nLeftOffset := pIn.nLeftOffset
  nRightOffset := pIn.nWidth-pIn.nRightOffset
  nTopOffset := pIn.nTopOffset
  nBottomOffset := pIn.nHeight-pIn.nTopOffset

def rotatePicture90Degree : VideoPicture :=
  let pOut := rotatePixels90 pIn { pOut with
    nLineStride := align16 pIn.nHeight, nHeight := pIn.nWidth, nWidth := pIn.nHeight }
  let m := margins pIn
  { pOut with
    nLeftOffset := m.nBottomOffset
    nTopOffset := m.nLeftOffset
    nRightOffset := pOut.nWidth-m.nTopOffset
    nBottomOffset := pOut.nHeight-m.nRightOffset }

def rotatePicture180Degree : VideoPicture :=
  let pOut := rotatePixels180 pIn { pOut with nLineStride := pIn.nLineStride }
  let pOut := { pOut with nHeight := pIn.nHeight, nWidth := pIn.nWidth }
  let m := margins pIn
  { pOut with
    nLeftOffset := m.nRightOffset
    nTopOffset := m.nBottomOffset
    nRightOffset := pOut.nWidth-m.nLeftOffset
    nBottomOffset := pOut.nHeight-m.nTopOffset }

def rotatePicture270Degree : VideoPicture :=
  let pOut := rotatePixels270 pIn { pOut with
    nLineStride := align16 pIn.nHeight, nHeight := pIn.nWidth, nWidth := pIn.nHeight }
  let m := margins pIn
  { pOut with
    nLeftOffset := m.nTopOffset
    nTopOffset := m.nRightOffset
    nRightOffset := pOut.nWidth-m.nBottomOffset
    nBottomOffset := pOut.nHeight-m.nLeftOffset }

def memcpy (src : ℕ → UInt8) (dst from? n : ℕ) : List (ℕ × UInt8) :=
  loop n fun k => [(dst+k, src (from? + k))]

/-- `ConvertPixelFormat` between the formats in line order. It takes the line
stride from the width. -/
def convertPixelFormat (pIn pOut : VideoPicture) : VideoPicture :=
  let nLineStride := align16 pIn.nWidth
  let nMemSizeY := nLineStride*align16 pIn.nHeight
  let nMemSizeC := nMemSizeY/4
  let pOut := { pOut with
    nLineStride := nLineStride, nHeight := pIn.nHeight, nWidth := pIn.nWidth
    nTopOffset := pIn.nTopOffset, nBottomOffset := pIn.nBottomOffset
    nLeftOffset := pIn.nLeftOffset, nRightOffset := pIn.nRightOffset }
  let out1 := pOut.pData0+nMemSizeY
  let in1 := pIn.pData0+nMemSizeY
  let chroma (body : ℕ → ℕ → List (ℕ × UInt8)) : List (ℕ × UInt8) :=
    loop ((pIn.nHeight+1)/2) fun i => loop ((pIn.nWidth+1)/2) (body i)
  match pOut.ePixelFormat, pIn.ePixelFormat with
  | .yv12, .nv21 =>
    let pOut := { pOut with pData1 := out1, pData2 := out1+nMemSizeC }
    pOut.store (memcpy pIn.mem pOut.pData0 pIn.pData0 nMemSizeY ++ chroma fun i j =>
      [(pOut.pData1+(i*nLineStride/2+j), pIn.mem (in1+(i*nLineStride+2*j))),
        (pOut.pData2+(i*nLineStride/2+j), pIn.mem (in1+(i*nLineStride+2*j+1)))])
  | .yv12, .yuvPlaner420 =>
    pOut.store (memcpy pIn.mem pOut.pData0 pIn.pData0 nMemSizeY ++
      memcpy pIn.mem out1 (in1+nMemSizeC) nMemSizeC ++
      memcpy pIn.mem (out1+nMemSizeC) in1 nMemSizeC)
  | .nv21, .yv12 =>
    let pOut := { pOut with pData1 := out1 }
    pOut.store (memcpy pIn.mem pOut.pData0 pIn.pData0 nMemSizeY ++ chroma fun i j =>
      [(pOut.pData1+(i*nLineStride+2*j), pIn.mem (in1+(i*nLineStride/2+j))),
        (pOut.pData1+(i*nLineStride+2*j+1), pIn.mem (in1+nMemSizeC+(i*nLineStride/2+j)))])
  | .nv21, .yuvPlaner420 =>
    let pOut := { pOut with pData1 := out1 }
    pOut.store (memcpy pIn.mem pOut.pData0 pIn.pData0 nMemSizeY ++ chroma fun i j =>
      [(pOut.pData1+(i*nLineStride+2*j),
          pIn.mem (in1+nMemSizeC+(i*nLineStride/2+j))),
        (pOut.pData1+(i*nLineStride+2*j+1), pIn.mem (in1+(i*nLineStride/2+j)))])
  | _, _ => pOut

end TinaPackage.PixelFormat
