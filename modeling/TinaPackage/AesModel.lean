import TinaPackage.ByteStream
import TinaPackage.CbcMode
import TinaPackage.MachineInt

/-! The stream that decrypts another one (`CdxAesStream.c`). The library routine
`AES_cbc_encrypt` and the operations of the media stream are parameters. A failed
`CDX_CHECK` or an access outside an array is `none`. -/
namespace TinaPackage.Aes

inductive IoState where
  | ok
  | invalid
  | error
  | eos
  deriving DecidableEq

/-- `CdxAesStream`, without the fields that only opening and closing use. -/
structure AesStream (σ : Type*) where
  ioState : IoState
  forceStop : Bool
  mediaFile : σ
  mediaFileSize : ℤ
  iv : List UInt8
  originalIv : List UInt8
  downloadComplete : Bool
  remainingSize : ℕ
  remainingOffset : ℕ
  remaining : List UInt8
  deriving DecidableEq

def bufSize : ℕ := 1024*1024

variable {σ : Type*} (cipher : CbcRoutine UInt8 16) (ops : ByteStreamOps σ)

/-- The value of `!size%16`, which C reads as `(!size)%16`. -/
def notSizeMod16 (size : ℕ) : Bool := (if size = 0 then 1 else 0) % 16 != 0

variable (s : AesStream σ) (input : List UInt8)

/-- The branch of `AesStreamDecrypt` that takes the padding off: bytes written, `removeSize`
and the stream. -/
def decryptPadded : Option (List UInt8 × ℕ × AesStream σ) :=
  if input.length < 16 then none
  else
    let size1 := input.length-16
    let head := if size1 = 0 then ([], s.iv) else cipher.run s.iv (input.take size1)
    let tmp := cipher.run head.2 (input.drop size1)
    let removeSize := (tmp.1.getD 15 0).toNat
    if 0 < removeSize ∧ removeSize ≤ 16 then
      some (head.1 ++ tmp.1.take (16-removeSize), removeSize, { s with iv := tmp.2 })
    else none

def aesStreamDecrypt (needRemove : Bool) : Option (List UInt8 × ℕ × AesStream σ) :=
  if input = [] then none
  else if (s.downloadComplete || ops.eos s.mediaFile) && notSizeMod16 input.length && needRemove
    then decryptPadded cipher s input
  else
    let r := cipher.run s.iv input
    some (r.1, 0, { s with iv := r.2 })

structure ReadResult (σ : Type*) where
  ret : ℤ
  data : List UInt8
  stream : AesStream σ
  deriving DecidableEq

def readReturn (out : List UInt8) : ReadResult σ := ⟨int32 out.length,out,s⟩

def readExit (ret : ℤ) (out : List UInt8) : ReadResult σ := ⟨ret,out,{ s with ioState := .error }⟩

def storeRemaining (bytes : List UInt8) : Option (AesStream σ) :=
  if 16 < bytes.length then none
  else some { s with remaining := bytes ++ s.remaining.drop bytes.length }

/-- The request ends in the last block that was read: what it does not need is kept. -/
def readLast (bigBuf : List UInt8) (len : ℕ) : Option (List UInt8 × AesStream σ) :=
  let len2 := len % 16
  let len1 := len-len2
  let head :=
    if len1 = 0 then some ([], 0, s)
    else aesStreamDecrypt cipher ops s (bigBuf.take len1) false
  head.bind fun head =>
    (aesStreamDecrypt cipher ops head.2.2 (bigBuf.drop len1) true).bind fun last =>
      (storeRemaining last.2.2 last.1).map fun s =>
        let remainingSize := bigBuf.length-len1-last.2.1
        let len2 := min len2 remainingSize
        (head.1 ++ s.remaining.take len2,
          { s with remainingOffset := len2, remainingSize := remainingSize-len2 })

def copyIv (bigBuf : List UInt8) (readLen : ℕ) : AesStream σ :=
  if 16 ≤ readLen then { s with iv := (bigBuf.drop (readLen-16)).take 16 } else s

def readLoop : ℕ → AesStream σ → ℕ → ℕ → List UInt8 → Option (ReadResult σ)
  | 0, _, _, _, _ => none
  | fuel + 1, s, aesReadLen, len, out =>
    if aesReadLen < 16 then some (readReturn s out)
    else if s.forceStop then some (readExit s (-1) out)
    else if s.downloadComplete then some (readReturn s out)
    else
      let readLen := min aesReadLen bufSize
      let r := ops.read s.mediaFile readLen
      let s := { s with mediaFile := r.2.2 }
      if r.1 < 0 then some (readExit s r.1 out)
      else if r.1 = 0 then some (readReturn { s with downloadComplete := true } out)
      else
        let s := if r.1 < readLen then { s with downloadComplete := true } else s
        let readLen := if r.1 < readLen then r.1.toNat else readLen
        let bigBuf := r.2.1
        if readLen ≤ len then
          (aesStreamDecrypt cipher ops s bigBuf true).bind fun d =>
            readLoop fuel (copyIv d.2.2 bigBuf (readLen-d.2.1)) (aesReadLen-readLen)
              (len-(readLen-d.2.1)) (out ++ d.1)
        else
          (readLast cipher ops s bigBuf len).bind fun d =>
            readLoop fuel (copyIv d.2 bigBuf readLen) (aesReadLen-readLen)
              (len-d.1.length) (out ++ d.1)

def takeRemaining (size : ℕ) : Option (List UInt8 × AesStream σ) :=
  if s.remainingSize = 0 then some ([], s)
  else
    let offset := min size s.remainingSize
    if 16 < s.remainingOffset+offset then none
    else some ((s.remaining.drop s.remainingOffset).take offset,
      { s with remainingOffset := s.remainingOffset+offset,
               remainingSize := s.remainingSize-offset })

def aesStreamRead (size : ℕ) : Option (ReadResult σ) :=
  if size = 0 then none
  else
    let s := if s.downloadComplete && s.remainingSize == 0 then { s with ioState := .eos } else s
    if s.ioState = .eos then some ⟨0,[],s⟩
    else if s.forceStop then some ⟨-1,[],s⟩
    else
      (takeRemaining s size).bind fun r =>
        let len := size-r.1.length
        let aesReadLen := (len+15) % 2^32/16*16
        -- a turn that goes on has read a block
        readLoop cipher ops (aesReadLen/16+1) r.2 aesReadLen len r.1

inductive Whence where
  | set
  | cur
  | fromEnd
  deriving DecidableEq

def seekExit : ℤ × AesStream σ := (-1, { s with ioState := .error })

def seekOffset (offset : ℤ) : Whence → ℤ
  | .set => offset
  | .cur => int64 (offset+ops.tell s.mediaFile)
  | .fromEnd => int64 (offset+s.mediaFileSize)

/-- Decrypt the block that the target lies in, and keep its rest. -/
def seekInside (remainder : ℤ) : Option (ℤ × AesStream σ) :=
  let r := ops.read s.mediaFile 16
  let s := { s with mediaFile := r.2.2 }
  if r.1 < 0 then some (seekExit s)
  else if r.1 < 16 ∧ r.1 < remainder then some (seekExit { s with downloadComplete := true })
  else
    let s := if r.1 < 16 then { s with downloadComplete := true } else s
    (aesStreamDecrypt cipher ops s r.2.1 true).bind fun d =>
      (storeRemaining d.2.2 d.1).map fun s =>
        let remainingSize := r.1-d.2.1
        if remainingSize ≤ remainder then (0, { s with remainingSize := 0, remainingOffset := 0 })
        else (0, { s with remainingSize := ((remainingSize-remainder) % 2^32).toNat,
                          remainingOffset := (remainder % 2^32).toNat })

def seekIv (offset : ℤ) : Bool × AesStream σ :=
  if offset < 16 then (true, { s with iv := s.originalIv })
  else
    let r := ops.read s.mediaFile 16
    let s := { s with mediaFile := r.2.2, iv := r.2.1 ++ s.iv.drop r.2.1.length }
    if r.1 < 0 then (false, s)
    else if r.1 < 16 then (false, { s with downloadComplete := true })
    else (true, s)

def aesStreamSeek (offset : ℤ) (whence : Whence) : Option (ℤ × AesStream σ) :=
  if s.forceStop then some (-1, s)
  else
    let offset := seekOffset ops s offset whence
    let remainder := offset.tmod 16
    let offset1 := int32 (offset-remainder-16)
    let offset1 := if offset1 < 0 then 0 else offset1
    let r := ops.seek s.mediaFile offset1
    let s := { s with ioState := .ok, remainingSize := 0, remainingOffset := 0, mediaFile := r.2 }
    if r.1 < 0 then some (seekExit s)
    else
      let t := seekIv ops s offset
      if t.1 = false then some (seekExit t.2)
      else if remainder = 0 then some (0, t.2)
      else seekInside cipher ops t.2 remainder

def aesStreamTell : ℤ := ops.tell s.mediaFile-s.remainingSize

def connected (mediaFile : σ) (mediaFileSize : ℤ) (originalIv : List UInt8) : AesStream σ where
  ioState := .ok
  forceStop := false
  mediaFile := mediaFile
  mediaFileSize := mediaFileSize
  iv := originalIv
  originalIv := originalIv
  downloadComplete := false
  remainingSize := 0
  remainingOffset := 0
  remaining := List.replicate 16 0

end TinaPackage.Aes
