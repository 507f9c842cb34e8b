import TinaPackage.Mp4Tables

/-! The moov box of the MP4 muxer around the sample tables, and the trailer. Every box
has a function that computes its size and one that writes it. -/
namespace TinaPackage.Mp4

variable (data : List UInt8) (p : ℕ)

def isStartcode : Bool := data.getD p 0 = 0 ∧ data.getD (p+1) 0 = 0 ∧ data.getD (p+2) 0 = 1

/-- A scanning loop: from `p` on, in steps of `stride`, while below `limit`. The number of
turns is bounded by `limit`, since every stride is positive. -/
def scanLoop (stride limit : ℕ) (hit : ℕ → Option ℕ) : ℕ → ℕ → Except ℕ ℕ
  | 0, p => .ok p
  | turns + 1, p =>
    if p < limit then
      match hit p with
      | some q => .error q
      | none => scanLoop stride limit hit turns (p+stride)
    else .ok p

/-- The four-byte step: a word with a zero byte is looked at more closely. A start code is
reported one byte early. -/
def wordHit : Option ℕ :=
  let b := fun j => data.getD (p+j) 0
  let x : UInt32 := (b 0).toUInt32 ||| (b 1).toUInt32 <<< 8 ||| (b 2).toUInt32 <<< 16 |||
    (b 3).toUInt32 <<< 24
  if (x-0x01010101) &&& ~~~x &&& 0x80808080 = 0 then none
  else if b 1 = 0 ∧ b 0 = 0 ∧ b 2 = 1 then some (p-1)
  else if b 1 = 0 ∧ b 2 = 0 ∧ b 3 = 1 then some p
  else if b 3 = 0 ∧ b 2 = 0 ∧ b 4 = 1 then some (p+1)
  else if b 3 = 0 ∧ b 4 = 0 ∧ b 5 = 1 then some (p+2)
  else none

/-- The next start code from `p` on, or the end. The data comes from `malloc`, so
position 0 is aligned. -/
def findAvcStartcode : ℕ :=
  let stop := data.length
  let byteHit := fun p => if isStartcode data p then some p else none
  let result : Except ℕ ℕ := do
    let p ← scanLoop 1 (min (p+4-p % 4) (stop-3)) byteHit stop p
    let p ← scanLoop 4 (stop-6) (wordHit data) stop p
    let _ ← scanLoop 1 (stop-3) byteHit stop p
    return stop
  match result with
  | .ok q => q
  | .error q => q

/-- `while (!*(nal_start++));` -/
def skipZeros (data : List UInt8) : ℕ → ℕ → ℕ
  | 0, p => p
  | turns + 1, p => if data.getD p 1 = 0 then skipZeros data turns (p+1) else p+1

def nalUnits (data : List UInt8) : ℕ → ℕ → List (List UInt8)
  | 0, _ => []
  | turns + 1, start =>
    if start < data.length then
      let nalStart := skipZeros data data.length start
      let nalEnd := findAvcStartcode data nalStart
      ((data.drop nalStart).take (nalEnd-nalStart)) :: nalUnits data turns nalEnd
    else []

def parseAvcNalus : List (List UInt8) := nalUnits data (data.length+1) (findAvcStartcode data 0)

def nalBuffer (nals : List (List UInt8)) : List UInt8 :=
  nals.flatMap fun nal => be32 nal.length ++ nal

structure NalRef where
  tail : List UInt8
  size : ℕ

structure SpsPps where
  sps : Option NalRef
  pps : Option NalRef

/-- The last SPS and the last PPS; `none` where the type of an empty unit at the end
would be read behind the buffer. -/
def scanNals : List (List UInt8) → SpsPps → Option SpsPps
  | [], found => some found
  | nal :: nals, found =>
    let tail := nal ++ nalBuffer nals
    match tail.head? with
    | none => none
    | some b =>
      if b.toNat % 32 = 7 then scanNals nals { found with sps := some ⟨tail,nal.length⟩ }
      else if b.toNat % 32 = 8 then scanNals nals { found with pps := some ⟨tail,nal.length⟩ }
      else scanNals nals found

variable (vos : List UInt8)

/-- The parameter sets of extra data in start code format; `none` where the buffer of
`parseAvcNalus` is overrun or read behind its end. -/
def findSpsPps : Option SpsPps :=
  if (nalBuffer (parseAvcNalus vos)).length ≤ vos.length+256 then
    scanNals (parseAvcNalus vos) ⟨none,none⟩
  else none

def hasStartcode : Bool := vos.take 4 = [0,0,0,1]

def nalSize : Option NalRef → ℕ
  | none => 0
  | some ref => ref.size

def avccGetSpsPpsSize : ℕ :=
  if vos.length > 6 then
    if hasStartcode vos then
      match findSpsPps vos with
      | none => 0
      | some found => 6+2+nalSize found.sps+1+2+nalSize found.pps
    else vos.length
  else 0

def nalBytes : Option NalRef → List UInt8
  | none => []
  | some ref => ref.tail.take ref.size

def avccWriteSpsPps : List UInt8 :=
  if vos.length > 6 then
    if hasStartcode vos then
      match findSpsPps vos with
      | none => []
      | some found =>
        -- these bytes are read behind a short unit as well
        let spsByte := fun j => (found.sps.elim [] NalRef.tail).getD j 0
        [1,spsByte 1,spsByte 2,spsByte 3,0xff,0xe1] ++ be16 (nalSize found.sps) ++
          nalBytes found.sps ++ [1] ++ be16 (nalSize found.pps) ++ nalBytes found.pps
    else vos
  else []

/-- The extra data of an H.264 track can be written: in start code format it has an SPS,
and `sps[3]` is in the buffer of the units. -/
def avccDefined : Bool :=
  if vos.length > 6 ∧ hasStartcode vos then
    match findSpsPps vos with
    | none => false
    | some found => 4 ≤ (found.sps.elim [] NalRef.tail).length
  else true

def videoGetAvccTagSize (trk : MOVTrack) : ℕ := 8+avccGetSpsPpsSize trk.vosData

def videoWriteAvccTag (trk : MOVTrack) : List UInt8 :=
  be32 (videoGetAvccTagSize trk) ++ tagBytes "avcC" ++ avccWriteSpsPps trk.vosData

/-- The number of 7-bit groups of a descriptor length: `for (i=1; len >> (7 * i); i++)`. -/
def descrGroups (len : ℕ) : ℕ :=
  if len < 2^7 then 1 else if len < 2^14 then 2 else if len < 2^21 then 3
  else if len < 2^28 then 4 else 5

def calDescrLength (len : ℕ) : ℕ := len+1+descrGroups len

def writeDescrStream (tag : UInt8) (size : ℕ) : List UInt8 :=
  [tag] ++ ((List.range (descrGroups size-1)).reverse.map fun j =>
    UInt8.ofNat ((size >>> (7*(j+1))) ||| 0x80)) ++ [UInt8.ofNat (size % 128)]

def MuxCodecId.code : MuxCodecId → ℕ
  | .unset => 0
  | .mpeg4 => 32
  | .h264 => 33
  | .mjpeg => 108
  | .aac => 64
  | .mp3 => 105
  | .pcm => 106
  | .adpcm => 107

def decSpecInfoSize : ℕ := if vos.length = 0 then 0 else calDescrLength vos.length

def esDescrSize : ℕ := 3+calDescrLength (13+decSpecInfoSize vos)+calDescrLength 1

variable (trk : MOVTrack)

def videoGetEsdsTagSize : ℕ := 12+calDescrLength (esDescrSize trk.vosData)

def trackId : CodecType → ℕ
  | .video => 1
  | .audio => 2

def videoWriteEsdsTag (s : CodecType) : List UInt8 :=
  let vos := trk.vosData
  let streamType : UInt8 := match s with
    | .audio => 0x15
    | .video => 0x11
  be32 (videoGetEsdsTagSize trk) ++ tagBytes "esds" ++ be32 0 ++
    writeDescrStream 0x03 (esDescrSize vos) ++ be16 (trackId s) ++ [0x00] ++
    writeDescrStream 0x04 (13+decSpecInfoSize vos) ++
    [UInt8.ofNat trk.enc.codecId.code,streamType] ++ [0] ++ be16 0 ++ be32 0 ++ be32 0 ++
    (if vos.length = 0 then [] else writeDescrStream 0x05 vos.length ++ vos) ++
    writeDescrStream 0x06 1 ++ [0x02]

/-- The shift in `calDescrLength` stays below the width of its operand. -/
def esdsDefined : Bool := esDescrSize trk.vosData < 2^28

def findCodecTag : List UInt8 :=
  match trk.enc.codecId with
  | .h264 => tagBytes "avc1"
  | .mpeg4 => tagBytes "mp4v"
  | .aac => tagBytes "mp4a"
  | .pcm => tagBytes "sowt"
  | .adpcm => [0x6d,0x73,0x00,0x11]
  | .mjpeg => tagBytes "mjpa"
  | .mp3 => [0,0,0,0]
  | .unset => [0,0,0,0]

def stsdGetVideoTagSize : ℕ :=
  16+4+12+18+32+4 +
    match trk.enc.codecId with
    | .h264 => videoGetAvccTagSize trk
    | .mpeg4 => videoGetEsdsTagSize trk
    | _ => 0

def stsdVideoFields : List UInt8 :=
  be32 0 ++ be16 0 ++ be16 1 ++ be16 0 ++ be16 0 ++ be32 0 ++ be32 0 ++ be32 0 ++
    be16 (toWord trk.enc.width) ++ be16 (toWord trk.enc.height) ++ be32 0x00480000 ++
    be32 0x00480000 ++ be32 0 ++ be16 1 ++ [0] ++ List.replicate 31 0 ++ be16 0x18 ++ be16 0xffff

def stsdWriteVideoTag : List UInt8 :=
  be32 (stsdGetVideoTagSize trk) ++ findCodecTag trk ++ stsdVideoFields trk ++
    match trk.enc.codecId with
    | .h264 => videoWriteAvccTag trk
    | .mpeg4 => videoWriteEsdsTag trk .video
    | _ => []

def stsdGetAudioTagSize : ℕ :=
  16+8+12+(if trk.enc.codecId = .adpcm then 16 else 0) +
    if trk.enc.codecId = .aac then videoGetEsdsTagSize trk else 0

def stsdAdpcmFields (enc : MuxAVCodecContext) : List UInt8 :=
  be32 (toWord enc.frameSize) ++ be32 (toWord (enc.frameSize*(enc.bitsPerSample/8))) ++
    be32 (toWord (enc.frameSize*(enc.bitsPerSample/8)*enc.channels)) ++ be32 2

def stsdAudioFields : List UInt8 :=
  let version := if trk.enc.codecId = .adpcm then 1 else 0
  be32 0 ++ be16 0 ++ be16 1 ++ be16 version ++ be16 0 ++ be32 0 ++
    be16 (toWord trk.enc.channels) ++ be16 (toWord trk.enc.bitsPerSample) ++ be16 0 ++ be16 0 ++
    be16 (toWord trk.enc.sampleRate) ++ be16 0 ++
    if trk.enc.codecId = .adpcm then stsdAdpcmFields trk.enc else []

def stsdWriteAudioTag : List UInt8 :=
  be32 (stsdGetAudioTagSize trk) ++ findCodecTag trk ++ stsdAudioFields trk ++
    if trk.enc.codecId = .aac then videoWriteEsdsTag trk .audio else []

def stblGetStsdTagSize (s : CodecType) : ℕ :=
  16+match s with
    | .video => stsdGetVideoTagSize trk
    | .audio => stsdGetAudioTagSize trk

def stblWriteStsdTag (s : CodecType) : List UInt8 :=
  be32 (stblGetStsdTagSize trk s) ++ tagBytes "stsd" ++ be32 0 ++ be32 1 ++
    match s with
    | .video => stsdWriteVideoTag trk
    | .audio => stsdWriteAudioTag trk

variable (mov : MuxMOVContext) (trk : MOVTrack) (s : CodecType)

def minfGetStblTagSize : ℕ :=
  let stss := match s with
    | .video => stblGetStssTagSize mov
    | .audio => 0
  8+stblGetStsdTagSize trk s+movGetSttsTagSize mov s+stss+stblGetStscTagSize mov s +
    stblGetStszTagSize mov trk s+stblGetStcoTagSize mov s

def minfWriteStblTag (tables : StblTables) : List UInt8 :=
  be32 (minfGetStblTagSize mov trk s) ++ tagBytes "stbl" ++ stblWriteStsdTag trk s ++
    tables.stts ++ tables.stss ++ tables.stsc ++ tables.stsz ++ tables.stco

def minfGetVmhdTagSize : ℕ := 0x14

def minfWriteVmhdTag : List UInt8 :=
  be32 minfGetVmhdTagSize ++ tagBytes "vmhd" ++ (be32 0x01 ++ be32 0 ++ be32 0)

def minfGetSmhdTagSize : ℕ := 16

def minfWriteSmhdTag : List UInt8 :=
  be32 minfGetSmhdTagSize ++ tagBytes "smhd" ++ (be32 0 ++ be16 0 ++ be16 0)

def dinfGetDrefTagSize : ℕ := 28

def dinfWriteDrefTag : List UInt8 :=
  be32 dinfGetDrefTagSize ++ tagBytes "dref" ++ (be32 0 ++ be32 1) ++
    (be32 0xc ++ tagBytes "url " ++ be32 1)

def minfGetDinfTagSize : ℕ := 8+dinfGetDrefTagSize

def minfWriteDinfTag : List UInt8 :=
  be32 minfGetDinfTagSize ++ tagBytes "dinf" ++ dinfWriteDrefTag

def mdiaGetMinfTagSize : ℕ :=
  let header := match s with
    | .video => minfGetVmhdTagSize
    | .audio => minfGetSmhdTagSize
  8+header+minfGetDinfTagSize+minfGetStblTagSize mov trk s

def mdiaWriteMinfTag (tables : StblTables) : List UInt8 :=
  let header := match s with
    | .video => minfWriteVmhdTag
    | .audio => minfWriteSmhdTag
  be32 (mdiaGetMinfTagSize mov trk s) ++ tagBytes "minf" ++ header ++ minfWriteDinfTag ++
    minfWriteStblTag mov trk s tables

def mdiaGetMdhdTagSize : ℕ := 0x20

def mdiaWriteMdhdTag : List UInt8 :=
  be32 mdiaGetMdhdTagSize ++ tagBytes "mdhd" ++
    ([0] ++ be24 0 ++ be32 (toWord mov.createTime) ++ be32 (toWord mov.createTime) ++
      be32 (toWord trk.trackTimescale) ++
      be32 (toWord ((mov.trackDuration s*trk.trackTimescale).tdiv globalTimescale)) ++
      be16 0 ++ be16 0)

def hdlrDescr : CodecType → String
  | .video => "VideoHandler"
  | .audio => "SoundHandler"

def hdlrType : CodecType → String
  | .video => "vide"
  | .audio => "soun"

def mdiaGetHdlrTagSize : ℕ := 32+1+(hdlrDescr s).length

def mdiaWriteHdlrTag : List UInt8 :=
  be32 (mdiaGetHdlrTagSize s) ++ tagBytes "hdlr" ++
    (be32 0 ++ [0,0,0,0] ++ tagBytes (hdlrType s) ++ be32 0 ++ be32 0 ++ be32 0 ++
      [UInt8.ofNat (hdlrDescr s).length] ++ tagBytes (hdlrDescr s))

def trakGetMdiaTagSize : ℕ := 8+mdiaGetMdhdTagSize+mdiaGetHdlrTagSize s+mdiaGetMinfTagSize mov trk s

def trakWriteMdiaTag (tables : StblTables) : List UInt8 :=
  be32 (trakGetMdiaTagSize mov trk s) ++ tagBytes "mdia" ++ mdiaWriteMdhdTag mov trk s ++
    mdiaWriteHdlrTag s ++ mdiaWriteMinfTag mov trk s tables

def trakGetTkhdTagSize : ℕ := 0x5c

def rotationMatrix (degrees : ℤ) : ℕ × ℕ × ℕ × ℕ :=
  if degrees = 90 then (0, 0x00010000, 0xFFFF0000, 0)
  else if degrees = 180 then (0xFFFF0000, 0, 0, 0xFFFF0000)
  else if degrees = 270 then (0, 0xFFFF0000, 0x00010000, 0)
  else (0x00010000, 0, 0, 0x00010000)

def trakWriteTkhdTag : List UInt8 :=
  let volume := match s with
    | .audio => 0x0100
    | .video => 0
  let visual := fun x : ℤ => match s with
    | .video => toWord (x*0x10000)
    | .audio => 0
  let m := rotationMatrix trk.enc.rotateDegree
  be32 trakGetTkhdTagSize ++ tagBytes "tkhd" ++
    ([0] ++ be24 0xf ++ be32 (toWord mov.createTime) ++ be32 (toWord mov.createTime) ++
      be32 (trackId s) ++ be32 0 ++ be32 (toWord (mov.trackDuration s)) ++
      be32 0 ++ be32 0 ++ be32 0 ++ be16 volume ++ be16 0 ++
      be32 m.1 ++ be32 m.2.1 ++ be32 0 ++ be32 m.2.2.1 ++ be32 m.2.2.2 ++ be32 0 ++
      be32 0 ++ be32 0 ++ be32 0x40000000 ++
      be32 (visual trk.enc.width) ++ be32 (visual trk.enc.height))

def moovGetTrakTagSize : ℕ := 8+trakGetTkhdTagSize+trakGetMdiaTagSize mov trk s

def moovWriteTrakTag (tables : StblTables) : List UInt8 :=
  be32 (moovGetTrakTagSize mov trk s) ++ tagBytes "trak" ++ trakWriteTkhdTag mov trk s ++
    trakWriteMdiaTag mov trk s tables

/-- `snprintf` of a signed whole part with `digits` digits and a point, cut to the room it
has, and of a fraction of four digits. -/
def degreeChars (digits : ℕ) (degreex10000 : ℤ) : List Char :=
  let whole := degreex10000.tdiv 10000
  let fraction := (degreex10000-whole*10000).natAbs
  let sign := if degreex10000 < 0 then '-' else '+'
  ((sign :: List.leftpad digits '0' (Nat.toDigits 10 whole.natAbs)) ++ ['.']).take (digits+2) ++
    (List.leftpad 4 '0' (Nat.toDigits 10 fraction)).take 4

def writeLatitude (degreex10000 : ℤ) : List UInt8 :=
  (degreeChars 2 degreex10000).map fun c => UInt8.ofNat c.toNat

def writeLongitude (degreex10000 : ℤ) : List UInt8 :=
  (degreeChars 3 degreex10000).map fun c => UInt8.ofNat c.toNat

def moovGetUdtaTagSize : ℕ := 4+4+4+4+4+8+9+1

def moovWriteUdtaTag : List UInt8 :=
  be32 moovGetUdtaTagSize ++ tagBytes "udta" ++
    (be32 (moovGetUdtaTagSize-8) ++ (0xA9 :: tagBytes "xyz") ++
      (be32 0x001215c7 ++ writeLatitude mov.latitudex ++ writeLongitude mov.longitudex ++ [0x2F]))

def moovGetMvhdTagSize : ℕ := 108

def moovWriteMvhdTag : List UInt8 :=
  let maxTrackId := if (mov.tracks .audio).isSome then trackId .audio else trackId .video
  be32 moovGetMvhdTagSize ++ tagBytes "mvhd" ++
    ([0] ++ be24 0 ++ be32 (toWord mov.createTime) ++ be32 (toWord mov.createTime) ++
      be32 (toWord globalTimescale) ++ be32 (toWord (mov.trackDuration .video)) ++
      be32 0x00010000 ++ be16 0x0100 ++ be16 0 ++ be32 0 ++ be32 0 ++
      be32 0x00010000 ++ be32 0 ++ be32 0 ++ be32 0 ++ be32 0x00010000 ++ be32 0 ++
      be32 0 ++ be32 0 ++ be32 0x40000000 ++
      be32 0 ++ be32 0 ++ be32 0 ++ be32 0 ++ be32 0 ++ be32 0 ++ be32 (maxTrackId+1))

def writtenTrack : Option MOVTrack := if mov.totalNum (.stsz, s) > 0 then mov.tracks s else none

def trakTagSize : ℕ :=
  match writtenTrack mov s with
  | none => 0
  | some trk => moovGetTrakTagSize mov trk s

def fileGetMoovTagSize : ℕ :=
  8+(if mov.geoAvailable then moovGetUdtaTagSize else 0)+moovGetMvhdTagSize +
    trakTagSize mov .video+trakTagSize mov .audio

def trakDefined : Bool :=
  match writtenTrack mov s with
  | none => true
  | some trk =>
    match s, trk.enc.codecId with
    | .video, .h264 => avccDefined trk.vosData
    | .video, .mpeg4 => esdsDefined trk
    | .audio, .aac => esdsDefined trk
    | _, _ => true

def writeTrak (tables : Option StblTables) : List UInt8 :=
  match mov.tracks s, tables with
  | some trk, some tables => moovWriteTrakTag mov trk s tables
  | _, _ => []

structure MoovTag where
  bytes : List UInt8
  tables : CodecType → Option StblTables
  mov : MuxMOVContext

/-- `mvhd` reads the duration of `tracks[0]` without a test. -/
def fileWriteMoovTag : Outcome MuxMOVContext MoovTag :=
  if (mov.tracks .video).isSome ∧ trakDefined mov .video ∧ trakDefined mov .audio then
    let video := trackTables mov .video
    let audio := trackTables video.2 .audio
    .done {
      bytes := be32 (fileGetMoovTagSize mov) ++ tagBytes "moov" ++
        (if mov.geoAvailable then moovWriteUdtaTag mov else []) ++ moovWriteMvhdTag mov ++
        writeTrak mov .video video.1 ++ writeTrak mov .audio audio.1
      tables := fun
        | .video => video.1
        | .audio => audio.1
      mov := audio.2 }
  else .undefined

/-- The fixed play time of one track; a track without stts entries divides by zero. -/
def setTrackTime : Outcome MuxMOVContext MuxMOVContext :=
  if (mov.tracks s).isNone then .done mov
  else if mov.totalNum (.stts, s) = 0 then .undefined
  else .done { mov with
    trackDuration := Function.update mov.trackDuration s mov.playTimeLength
    averageDuration := Function.update mov.averageDuration s
      (toWord (mov.playTimeLength.tdiv (mov.totalNum (.stts, s)))) }

def setPlayTimeLength : Outcome MuxMOVContext MuxMOVContext :=
  (setTrackTime mov .video).bind fun mov => setTrackTime mov .audio

structure Mp4File where
  bytes : List UInt8
  moov : MoovTag

def mp4WriteTrailer (c : Mp4MuxContext) : Outcome MuxMOVContext Mp4File :=
  if (c.mov.tracks .video).isNone then .undefined
  else
    let mov := writeLastPacket c.mov (c.mov.lastPts .video+33)
    let timed := if mov.playTimeLength ≠ 0 then setPlayTimeLength mov else .done mov
    (timed.bind fileWriteMoovTag).bind fun moov =>
      .done {
        -- the size of the mdat box is written over its placeholder
        bytes := c.written.take c.mov.mdatPos ++ be32 (c.mov.mdatSize+8) ++
          c.written.drop (c.mov.mdatPos+4) ++ moov.bytes
        moov := moov }

end TinaPackage.Mp4
