import TinaPackage.IsoBmff
import TinaPackage.MachineInt

/-! The sample tables of the MOV parser, and how a seek looks up a sample in them. -/
namespace TinaPackage.Mov

/-- The tables of the video track, by their places in the moov box. The box in memory has
`moov_size` bytes. `rap_seek` lists further samples that a seek may go to. -/
structure MOVContext where
  moovBuffer : List UInt8
  timeScale : ℤ
  sttsOffset : ℕ
  sttsSize : ℕ
  stssOffset : ℕ
  stssSize : ℕ
  rapSeek : List ℕ
  exitFlag : Bool

/-- `MoovGetBe32`; `none` is a read outside the box. -/
def moovGetBe32 (buffer : List UInt8) (offset : ℕ) : Option ℕ :=
  if offset+4 ≤ buffer.length then some (be32At buffer offset) else none

variable (c : MOVContext) (tableOffset idx : ℕ)

def MOVContext.readTable : Option ℕ :=
  let offset := (tableOffset+idx) % 2^32
  if offset > c.moovBuffer.length then some intMax.toNat else moovGetBe32 c.moovBuffer offset

def readStts : Option ℕ := c.readTable c.sttsOffset idx

def readStss : Option ℕ :=
  if c.rapSeek.length = 0 then c.readTable c.stssOffset idx
  else if idx = 0 then some 1
  else c.rapSeek[idx/4-1]?

def readSttsEntry (sttsIdx : ℕ) : Option (ℤ × ℤ) :=
  let idx := sttsIdx*8 % 2^32
  (readStts c idx).bind fun count =>
    (readStts c ((idx+4) % 2^32)).map fun (duration : ℕ) => (int32 count, int32 duration)

/-- The variables of the loop in `MovTimeToSample` when it stops. -/
structure SttsPlace where
  sttsIdx : ℕ
  durationAcc : ℤ
  sampleCountAcc : ℤ
  sampleDuration : ℤ

def uint64 (x : ℤ) : ℤ := x % 2^64

/-- The loop reads at most two entries behind the table, so `stts_size + 2` rounds are
enough. -/
def sttsLoop (c : MOVContext) (durationSeek : ℤ) : ℕ → ℕ → ℤ → ℤ → Option SttsPlace
  | 0, _, _, _ => none
  | fuel + 1, sttsIdx, durationAcc, sampleCountAcc =>
    (readSttsEntry c sttsIdx).bind fun (sampleCount, sampleDuration) =>
      let durationAcc := uint64 (durationAcc+sampleCount*sampleDuration)
      let sampleCountAcc := int32 (sampleCountAcc+sampleCount)
      if durationSeek < durationAcc ∨ sttsIdx > c.sttsSize then
        some ⟨sttsIdx,durationAcc,sampleCountAcc,sampleDuration⟩
      else sttsLoop c durationSeek fuel (sttsIdx+1) durationAcc sampleCountAcc

/-- The time `MovTimeToSample` looks for, given in milliseconds, in the time scale of the
track. -/
def durationSeek (seconds : ℤ) : ℤ := uint64 (c.timeScale*seconds)/1000

def sttsPlace (seconds : ℤ) : Option SttsPlace :=
  sttsLoop c (durationSeek c seconds) (c.sttsSize+2) 0 0 0

/-- `MovTimeToSample`; `exitFlag` keeps its value during the call. -/
def movTimeToSample (seconds : ℤ) : Option ℤ :=
  if c.exitFlag then some (-1)
  else
    (sttsPlace c seconds).map fun s =>
      if s.sampleDuration ≠ 0 then
        int32 (s.sampleCountAcc -
          uint64 (s.durationAcc-durationSeek c seconds)/uint64 s.sampleDuration)
      else 0

/-- The linear search of `MovFindKeyframe`, with `stss_idx` and `keyframe_num`. It goes up when
`cmpflag` is set and down otherwise, one entry in each round. -/
def linearSearch (c : MOVContext) (currSampleNum : ℕ) (cmpflag : Bool) :
    ℕ → ℤ → ℕ → Option (ℤ × ℕ)
  | 0, _, _ => none
  | fuel + 1, stssIdx, keyframeNum =>
    if -1 < stssIdx ∧ stssIdx < c.stssSize then
      (readStss c (stssIdx.toNat*4 % 2^32)).bind fun keyframeNum =>
        if keyframeNum < currSampleNum then
          if !cmpflag then some (stssIdx, keyframeNum)
          else linearSearch c currSampleNum cmpflag fuel (stssIdx+1) keyframeNum
        else if cmpflag then some (stssIdx, keyframeNum)
        else linearSearch c currSampleNum cmpflag fuel (stssIdx-1) keyframeNum
    else some (stssIdx, keyframeNum)

/-- The binary search of `MovFindKeyframe`: the last `high`, and the entry read last. -/
def binarySearch (c : MOVContext) (currSampleNum : ℕ) : ℕ → ℕ → ℕ → ℕ → Option (ℕ × ℕ)
  | 0, _, _, _ => none
  | fuel + 1, low, high, keyframeNum =>
    let nexti := (low+high)/2
    if low+1 < high then
      (readStss c (nexti*4 % 2^32)).bind fun keyframeNum =>
        if keyframeNum < currSampleNum then binarySearch c currSampleNum fuel nexti high keyframeNum
        else binarySearch c currSampleNum fuel low nexti keyframeNum
    else some (high, keyframeNum)

def frameInterval (keyframeNum currSampleNum : ℕ) : ℤ := int32 (keyframeNum-currSampleNum)

def movFindKeyframe (c : MOVContext) (direction : ℤ) (currSampleNum : ℕ) : Option (ℤ × ℤ) :=
  if c.stssSize < 1 then some (0, -1)
  else
    (readStss c 0).bind fun keyframeNum =>
      if currSampleNum = 0 then some (0, int32 (keyframeNum-1))
      else
        let near := frameInterval keyframeNum currSampleNum < 2048 ∧
          frameInterval keyframeNum currSampleNum > -2048
        -- either loop leaves the function in its first round when the parser has to exit
        if c.exitFlag ∧ (near ∨ 2 < c.stssSize) then some (0, -1)
        else
          (if near then
            (linearSearch c currSampleNum (keyframeNum < currSampleNum) (c.stssSize+1) 0
              keyframeNum).map fun (stssIdx, keyframeNum) => (max stssIdx 0, keyframeNum)
          else
            (binarySearch c currSampleNum c.stssSize 0 (c.stssSize-1) keyframeNum).map
              fun (high, keyframeNum) => ((high : ℤ), keyframeNum)).map
            fun (stssIdx, keyframeNum) =>
              (if direction = 1 ∧ stssIdx > 0 then stssIdx-1 else stssIdx, int32 (keyframeNum-1))

end TinaPackage.Mov
