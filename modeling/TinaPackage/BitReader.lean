import TinaPackage.BitList
import TinaPackage.Runs

/-! The bit reader of the base library (`base/CdxBitReader.c`). It is `none` where the source
shifts a 32-bit word by 32, reads outside the buffer or moves the pointer before it. The checks
`CDX_CHECK` are empty in a release build. -/
namespace TinaPackage.Bits

/-- `CdxBitReaderImplS`; `mData` is the position in the caller's buffer. -/
structure CdxBitReader where
  data : List UInt8
  mData : ℕ
  mSize : ℕ
  mReservoir : BitVec 32
  mNumBitsLeft : ℕ

def cdxBitReaderCreate (data : List UInt8) : CdxBitReader := ⟨data,0,data.length,0,0⟩

def shl (v : BitVec 32) (n : ℕ) : Option (BitVec 32) := if n < 32 then some (v <<< n) else none

def shr (v : BitVec 32) (n : ℕ) : Option (BitVec 32) := if n < 32 then some (v >>> n) else none

def fillLoop : ℕ → CdxBitReader → ℕ → Option (CdxBitReader × ℕ)
  | 0, r, i => some (r, i)
  | k + 1, r, i =>
    if 0 < r.mSize then
      r.data[r.mData]?.bind fun b =>
        fillLoop k { r with
          mReservoir := (r.mReservoir <<< 8) ||| b.toBitVec.setWidth 32
          mData := r.mData+1
          mSize := r.mSize-1 } (i+1)
    else some (r, i)

variable (r : CdxBitReader)

def onFillReservoir : Option CdxBitReader :=
  (fillLoop 4 { r with mReservoir := 0 } 0).bind fun (r, i) =>
    (shl r.mReservoir (32-8*i)).map fun reservoir =>
      { r with mReservoir := reservoir, mNumBitsLeft := 8*i }

/-- The loop of `CdxBitReaderGetBits`. Every turn takes a bit at least. -/
def getLoop : ℕ → CdxBitReader → ℕ → BitVec 32 → Option (BitVec 32 × CdxBitReader)
  | _, r, 0, result => some (result, r)
  | 0, _, _ + 1, _ => none
  | fuel + 1, r, n + 1, result =>
    (if r.mNumBitsLeft = 0 then onFillReservoir r else some r).bind fun r =>
      let m := min (n+1) r.mNumBitsLeft
      (shl result m).bind fun high =>
        (shr r.mReservoir (32-m)).bind fun low =>
          (shl r.mReservoir m).bind fun reservoir =>
            getLoop fuel { r with mReservoir := reservoir, mNumBitsLeft := r.mNumBitsLeft-m }
              (n+1-m) (high ||| low)

def cdxBitReaderGetBits (n : ℕ) : Option (BitVec 32 × CdxBitReader) := getLoop n r n 0

def skipLoop : ℕ → CdxBitReader → ℕ → Option CdxBitReader
  | 0, _, _ => none
  | fuel + 1, r, n =>
    if 32 < n then
      (cdxBitReaderGetBits r 32).bind fun q => skipLoop fuel q.2 (n-32)
    else if 0 < n then (cdxBitReaderGetBits r n).map Prod.snd
    else some r

def cdxBitReaderSkipBits (n : ℕ) : Option CdxBitReader := skipLoop (n+1) r n

def rewindLoop : ℕ → CdxBitReader → ℕ → Option CdxBitReader
  | 0, _, _ => none
  | fuel + 1, r, n =>
    if 32 < (r.mNumBitsLeft+n) % 2^32 then
      if r.mData = 0 then none
      else
        rewindLoop fuel { r with
          mNumBitsLeft := (r.mNumBitsLeft+(2^32-8)) % 2^32
          mData := r.mData-1
          mSize := r.mSize+1 } n
    else some r

def cdxBitReaderPutBits (x : BitVec 32) (n : ℕ) : Option CdxBitReader :=
  (rewindLoop (r.mNumBitsLeft+n+1) r n).bind fun r =>
    (shr r.mReservoir n).bind fun low =>
      (shl x (32-n)).map fun high =>
        { r with
          mReservoir := low ||| high
          mNumBitsLeft := (r.mNumBitsLeft+n) % 2^32 }

def cdxBitReaderNumBitsLeft : ℕ := (r.mSize*8+r.mNumBitsLeft) % 2^32

inductive Call where
  | getBits (n : ℕ)
  | skipBits (n : ℕ)
  | putBits (x : BitVec 32) (n : ℕ)
  | numBitsLeft

def readerStep : Call → Option (ℕ × CdxBitReader)
  | .getBits n => (cdxBitReaderGetBits r n).map fun q => (q.1.toNat, q.2)
  | .skipBits n => (cdxBitReaderSkipBits r n).map fun r => (0, r)
  | .putBits x n => (cdxBitReaderPutBits r x n).map fun r => (0, r)
  | .numBitsLeft => some (cdxBitReaderNumBitsLeft r, r)

/-- The same call on a list of bits: what a bit reader is for. -/
def bitListStep (bits : List Bool) : Call → ℕ × List Bool
  | .getBits n => (ofBits (bits.take n), bits.drop n)
  | .skipBits n => (0, bits.drop n)
  | .putBits x n => (0, lowBits x n ++ bits)
  | .numBitsLeft => (bits.length, bits)

structure SideBySide where
  reader : CdxBitReader
  bits : List Bool
  same : Bool

def sideBySideStep (s : SideBySide) (c : Call) : Option SideBySide :=
  (readerStep s.reader c).map fun q =>
    ⟨q.2,(bitListStep s.bits c).2,s.same && q.1 == (bitListStep s.bits c).1⟩

def sideBySide (data : List UInt8) : SideBySide := ⟨cdxBitReaderCreate data,bytesBits data,true⟩

def content : List Bool := msbBits r.mReservoir r.mNumBitsLeft ++ bytesBits (r.data.drop r.mData)

def Agree (s : SideBySide) : Prop := content s.reader = s.bits ∧ s.same = true

/-- At most 32 bits at a time, no more than there are, and fewer than 32 put back. -/
def Allowed (s : SideBySide) : Call → Prop
  | .getBits n => n ≤ 32 ∧ n ≤ s.bits.length
  | .skipBits n => n ≤ s.bits.length
  | .putBits _ n => n < 32
  | .numBitsLeft => True

/-- The number of bytes that go back to the buffer before `n` bits are put. -/
def rewound (n : ℕ) : ℕ := (r.mNumBitsLeft+n-32+7)/8

/-- A whole word is only taken out of a partly filled reservoir. The bits that a put pushes out of
the reservoir are the bytes of the buffer that they came from. The number of bits fits a 32-bit word
when it is asked for. -/
def Sound (s : SideBySide) : Call → Prop
  | .getBits n => n < 32 ∨ s.reader.mNumBitsLeft ≠ 0 ∧ s.reader.mNumBitsLeft ≠ 32
  | .skipBits n => n < 32 ∨ s.reader.mNumBitsLeft ≠ 0 ∧ s.reader.mNumBitsLeft ≠ 32
  | .putBits x n =>
    0 < n ∧ rewound s.reader n ≤ s.reader.mData ∧
      (lowBits x n ++ msbBits s.reader.mReservoir s.reader.mNumBitsLeft).drop
          (s.reader.mNumBitsLeft+n-8*rewound s.reader n) =
        bytesBits ((s.reader.data.drop (s.reader.mData-rewound s.reader n)).take
          (rewound s.reader n))
  | .numBitsLeft => s.bits.length < 2^32

instance (s : SideBySide) : ∀ c, Decidable (Allowed s c)
  | .getBits _ => inferInstanceAs (Decidable (_ ∧ _))
  | .skipBits _ => inferInstanceAs (Decidable (_ ≤ _))
  | .putBits .. => inferInstanceAs (Decidable (_ < _))
  | .numBitsLeft => .isTrue trivial

instance (s : SideBySide) : ∀ c, Decidable (Sound s c)
  | .getBits _ | .skipBits _ => inferInstanceAs (Decidable (_ ∨ _))
  | .putBits .. => inferInstanceAs (Decidable (_ ∧ _ ∧ _))
  | .numBitsLeft => inferInstanceAs (Decidable (_ < _))

end TinaPackage.Bits
