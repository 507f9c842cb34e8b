import TinaPackage.IsoBmff
import TinaPackage.Outcome

/-! The packet side of the MP4 muxer (muxer/mp4/CdxMp4Muxer.c and
CdxMp4MuxerLib.c): the caches of the sample tables, the pages that are moved to
temporary files and the media data that goes to the output. -/
namespace TinaPackage.Mp4
open Function

inductive CodecType where
  | video
  | audio
  deriving DecidableEq, Repr

inductive MuxChunkID where
  | stco
  | stsz
  | stsc
  | stts
  deriving DecidableEq, Repr

/-- `MUX_CODEC_ID_*`; a track whose codec was not recognised keeps 0. -/
inductive MuxCodecId where
  | unset
  | mpeg4
  | h264
  | mjpeg
  | aac
  | mp3
  | pcm
  | adpcm
  deriving DecidableEq, Repr

/-- A table of a track: the indices of `cache_write_ptr` and its companions. -/
abbrev TableKey := MuxChunkID × CodecType

def tinyPageSize : ℕ := 2*1024

def keyframeCacheEntries : ℕ := 8*1024*16/4

def globalTimescale : ℤ := 1000

def cacheCap : MuxChunkID → ℕ
  | .stco => 8*1024
  | .stsz => 8*1024*4
  | .stsc => 8*1024
  | .stts => 8*1024*4

/-- `cache_start_ptr`, in words from the start of `mov_inf_cache`. The pointers of
the audio stts cache are never set and never used; they stand behind the others. -/
def cacheStart : TableKey → ℕ
  | (.stco, .video) => 0
  | (.stco, .audio) => 8192
  | (.stsz, .video) => 16384
  | (.stsz, .audio) => 49152
  | (.stsc, .video) => 81920
  | (.stsc, .audio) => 90112
  | (.stts, .video) => 98304
  | (.stts, .audio) => 133120

def tinyPageStart : ℕ := 131072

def cacheEnd (t : TableKey) : ℕ := cacheStart t+(cacheCap t.1-1)

structure MuxAVCodecContext where
  width : ℤ
  height : ℤ
  rotateDegree : ℤ
  codecId : MuxCodecId
  channels : ℤ
  frameRate : ℤ
  frameSize : ℤ
  bitsPerSample : ℤ
  sampleRate : ℤ

/-- What a track keeps from its set-up; its counters are in `MuxMOVContext`. -/
structure MOVTrack where
  trackTimescale : ℤ
  enc : MuxAVCodecContext
  vosData : List UInt8

/-- The context of one recording. The maps over `TableKey` are the arrays of the
context and the `stsz_total_num`, `stsz_tiny_pages`, .. fields of the tracks. -/
structure MuxMOVContext where
  createTime : ℤ
  mdatPos : ℕ
  mdatStartPos : ℕ
  mdatSize : ℕ
  playTimeLength : ℤ
  geoAvailable : Bool
  latitudex : ℤ
  longitudex : ℤ
  tracks : CodecType → Option MOVTrack
  lastPts : CodecType → ℤ
  trackDuration : CodecType → ℤ
  averageDuration : CodecType → ℕ
  keyFrameNum : CodecType → ℕ
  totalNum : TableKey → ℕ
  tinyPages : TableKey → ℕ
  cache : ℕ → ℕ
  cacheKeyframe : ℕ → ℕ
  cacheWritePtr : TableKey → ℕ
  cacheReadPtr : TableKey → ℕ
  cacheSize : TableKey → ℕ
  tmpFilesOpen : Bool
  tmpFile : TableKey → List ℕ
  stscCnt : ℕ
  lastStreamIndex : Option CodecType
  keyframeNum : ℤ

structure Mp4MuxContext where
  mov : MuxMOVContext
  written : List UInt8
  isSdcardDisappear : Bool

/-- A packet with the memory its `buf` points to: the muxer reads the fifth byte and,
for H.264, overwrites the first four, whatever `buflen` is. -/
structure Packet where
  streamIndex : CodecType
  buf : ℕ → UInt8
  buflen : ℕ
  pts : ℤ

/-- Which of the system calls behind one packet succeed. -/
structure Mp4Io where
  createTmpFile : Bool
  writeTmpFile : MuxChunkID → Bool
  writeBuffer : Bool
  writeMjpegTrailer : Bool

def toWord (x : ℤ) : ℕ := (x % 2^32).toNat

variable (mov : MuxMOVContext) (t : TableKey) (x : ℤ)

/-- `*mov->cache_write_ptr[id][stream]++ = x`. -/
def putWord : MuxMOVContext :=
  { mov with
    cache := update mov.cache (mov.cacheWritePtr t) (toWord x)
    cacheWritePtr := update mov.cacheWritePtr t (mov.cacheWritePtr t+1) }

def countTotal : MuxMOVContext := { mov with totalNum := update mov.totalNum t (mov.totalNum t+1) }

def countCached : MuxMOVContext :=
  { mov with cacheSize := update mov.cacheSize t (mov.cacheSize t+1) }

def enterWord : MuxMOVContext := countCached (countTotal (putWord mov t x) t) t

def wrapPtr (p : ℕ) : ℕ := if p > cacheEnd t then cacheStart t else p

def wrapWritePtr : MuxMOVContext :=
  { mov with
    cacheWritePtr := update mov.cacheWritePtr t (wrapPtr t (mov.cacheWritePtr t)) }

/-- `lseek` and `write` on a temporary file; a gap is filled with zeros. -/
def writeAt (file : List ℕ) (pos : ℕ) (words : List ℕ) : List ℕ :=
  file.take pos ++ List.replicate (pos-file.length) 0 ++ words ++ file.drop (pos+words.length)

def readPtrPage : List ℕ := (List.range tinyPageSize).map fun j => mov.cache (mov.cacheReadPtr t+j)

def mp4CreateTmpFile (io : Mp4Io) (mov : MuxMOVContext) : Outcome MuxMOVContext MuxMOVContext :=
  if mov.tmpFilesOpen then .done mov
  else if io.createTmpFile then .done { mov with tmpFilesOpen := true }
  else .failed mov

/-- The oldest page of a cache goes to the temporary file. `owner` is the track whose page
counter is the position in the file and is advanced. -/
def movePage (owner : CodecType) : MuxMOVContext :=
  let pages := mov.tinyPages (t.1, owner)
  { mov with
    tmpFile := update mov.tmpFile t
      (writeAt (mov.tmpFile t) (pages*tinyPageSize) (readPtrPage mov t))
    tinyPages := update mov.tinyPages (t.1, owner) (pages+1)
    cacheSize := update mov.cacheSize t (mov.cacheSize t-tinyPageSize)
    cacheReadPtr := update mov.cacheReadPtr t (wrapPtr t (mov.cacheReadPtr t+tinyPageSize)) }

variable (io : Mp4Io) (mov : MuxMOVContext)

def spillPage (t : TableKey) (owner : CodecType) : Outcome MuxMOVContext MuxMOVContext :=
  if mov.cacheSize t < cacheCap t.1 then .done mov
  else (mp4CreateTmpFile io mov).bind fun mov =>
    if io.writeTmpFile t.1 then .done (movePage mov t owner) else .failed mov

/-- The end of the previous chunk, when a packet of the other track `s` arrives. -/
def endChunk (s : CodecType) : Outcome MuxMOVContext MuxMOVContext :=
  match mov.lastStreamIndex with
  | none => .done mov
  | some last =>
    let mov := wrapWritePtr (enterWord mov (.stsc, last) mov.stscCnt) (.stsc, last)
    -- the page of `last` is counted by `trk`, the track of the new packet
    spillPage io mov (.stsc, last) s

def startChunk (s : CodecType) : Outcome MuxMOVContext MuxMOVContext :=
  let mov := enterWord mov (.stco, s) (mov.mdatSize+mov.mdatStartPos : ℕ)
  (endChunk io mov s).bind fun mov =>
    spillPage io (wrapWritePtr { mov with stscCnt := 0 } (.stco, s)) (.stco, s) s

def pcmSampleBytes (enc : MuxAVCodecContext) : ℤ :=
  enc.channels*(enc.bitsPerSample/8)

variable (trk : MOVTrack)

/-- The sample size goes to the stsz cache; uncompressed audio only counts its samples. -/
def countSample (s : CodecType) (size : ℕ) : Outcome MuxMOVContext MuxMOVContext :=
  if trk.enc.codecId = .pcm then
    if pcmSampleBytes trk.enc = 0 then .undefined
    else
      let samples := (size : ℤ).tdiv (pcmSampleBytes trk.enc)
      .done { mov with
        totalNum := update mov.totalNum (.stsz, s) (toWord (mov.totalNum (.stsz, s)+samples))
        stscCnt := toWord (mov.stscCnt+samples) }
  else
    let mov := enterWord mov (.stsz, s) size
    .done { mov with stscCnt := mov.stscCnt+1 }

def addSample (s : CodecType) (size : ℕ) : Outcome MuxMOVContext MuxMOVContext :=
  (countSample mov trk s size).bind fun mov =>
    spillPage io (wrapWritePtr mov (.stsz, s)) (.stsz, s) s

def addDuration (pts : ℤ) : Outcome MuxMOVContext MuxMOVContext :=
  let mov := if mov.lastPts .video > 0
    then putWord mov (.stts, .video) (pts-mov.lastPts .video) else mov
  let mov := countCached (countTotal mov (.stts, .video)) (.stts, .video)
  spillPage io (wrapWritePtr mov (.stts, .video)) (.stts, .video) .video

/-- Whether a video packet is recorded as a key frame; `none` for other codecs. -/
def isKeyFrame (pkt : Packet) : Option Bool :=
  match trk.enc.codecId with
  | .h264 => some ((pkt.buf 4).toNat % 32 = 5)
  | .mpeg4 => some ((pkt.buf 4).toNat/64 = 0)
  | .mjpeg => some (mov.keyframeNum = 0)
  | _ => none

/-- The MJPEG counter that makes one frame of every `frame_rate` a key frame. -/
def nextKeyframeNum : ℤ :=
  if trk.enc.codecId = .mjpeg then
    if mov.keyframeNum+1 ≥ trk.enc.frameRate then 0 else mov.keyframeNum+1
  else mov.keyframeNum

def addKeyFrame (pkt : Packet) : Outcome MuxMOVContext MuxMOVContext :=
  match isKeyFrame mov trk pkt with
  | none => .failed mov
  | some false => .done { mov with keyframeNum := nextKeyframeNum mov trk }
  | some true =>
    -- the entry is stored without a look at the size of the key frame cache
    if mov.keyFrameNum .video < keyframeCacheEntries then
      .done { mov with
        cacheKeyframe := update mov.cacheKeyframe (mov.keyFrameNum .video)
          (mov.totalNum (.stts, .video))
        keyFrameNum := update mov.keyFrameNum .video (mov.keyFrameNum .video+1)
        keyframeNum := nextKeyframeNum mov trk }
    else .undefined

/-- The size a packet takes in the file: MJPEG frames get an end marker. -/
def packetSize (pkt : Packet) : ℕ :=
  if trk.enc.codecId = .mjpeg then pkt.buflen+2 else pkt.buflen

/-- The bytes of a packet as they are written: an H.264 video packet carries its length
in the place of the start code. -/
def packetBytes (pkt : Packet) : List UInt8 :=
  let stamp := be32 (toWord ((packetSize trk pkt : ℤ)-4))
  (List.range pkt.buflen).map fun j =>
    if pkt.streamIndex = .video ∧ trk.enc.codecId = .h264 then stamp.getD j (pkt.buf j)
    else pkt.buf j

def addToChunk (s : CodecType) : Outcome MuxMOVContext MuxMOVContext :=
  if mov.lastStreamIndex = some s then .done mov else startChunk io mov s

def addVideoSample (pkt : Packet) : Outcome MuxMOVContext MuxMOVContext :=
  match pkt.streamIndex with
  | .audio => .done mov
  | .video => (addDuration io mov pkt.pts).bind fun mov => addKeyFrame mov trk pkt

def addToTables (pkt : Packet) : Outcome MuxMOVContext MuxMOVContext :=
  let s := pkt.streamIndex
  (addToChunk io mov s).bind fun mov =>
    (addSample io { mov with lastStreamIndex := some s } trk s (packetSize trk pkt)).bind
      fun mov => addVideoSample io mov trk pkt

def mediaBytes (pkt : Packet) : List UInt8 :=
  packetBytes trk pkt ++ if trk.enc.codecId = .mjpeg then [0xff,0xd9] else []

def addTime (s : CodecType) (pts : ℤ) : MuxMOVContext :=
  { mov with
    trackDuration := if mov.lastPts s > 0
      then update mov.trackDuration s (mov.trackDuration s+(pts-mov.lastPts s))
      else mov.trackDuration
    lastPts := update mov.lastPts s pts }

def writeMedia (c : Mp4MuxContext) (trk : MOVTrack) (pkt : Packet) :
    Outcome Mp4MuxContext Mp4MuxContext :=
  let mov := { c.mov with mdatSize := c.mov.mdatSize+packetSize trk pkt }
  if pkt.buflen ≠ 0 ∧ io.writeBuffer = false then
    .failed { c with mov := mov, isSdcardDisappear := true }
  else if trk.enc.codecId = .mjpeg ∧ io.writeMjpegTrailer = false then
    .failed { mov := mov, written := c.written ++ packetBytes trk pkt, isSdcardDisappear := true }
  else
    .done { c with
      mov := addTime mov pkt.streamIndex pkt.pts
      written := c.written ++ mediaBytes trk pkt }

def mp4WritePacket (c : Mp4MuxContext) (pkt : Packet) : Outcome Mp4MuxContext Mp4MuxContext :=
  match c.mov.tracks pkt.streamIndex with
  | none => .failed c
  | some trk =>
    ((addToTables io c.mov trk pkt).mapFailed fun mov => { c with mov := mov }).bind fun mov =>
      writeMedia io { c with mov := mov } trk pkt

/-- The count of the last chunk, stored without a look at the end of the cache. -/
def putLastCount (last : CodecType) : MuxMOVContext :=
  countTotal (putWord mov (.stsc, last) mov.stscCnt) (.stsc, last)

/-- The duration of the last video sample. It is stored through
`cache_write_ptr[STTS_ID][-1]`, which is `cache_write_ptr[STSC_ID][CODEC_TYPE_AUDIO]`. -/
def putLastDuration (pts : ℤ) : MuxMOVContext :=
  if (mov.tracks .video).isSome then putWord mov (.stsc, .audio) (pts-mov.lastPts .video)
  else mov

def addLastTime (s : CodecType) (pts : ℤ) : MuxMOVContext :=
  { mov with
    trackDuration := if (mov.tracks s).isSome
      then update mov.trackDuration s (mov.trackDuration s+(pts-mov.lastPts s))
      else mov.trackDuration }

/-- The call of `Mp4WritePacket` with stream index -1 that the trailer makes. -/
def writeLastPacket (pts : ℤ) : MuxMOVContext :=
  match mov.lastStreamIndex with
  | none => mov
  | some last =>
    let mov := putLastDuration (putLastCount mov last) pts
    addLastTime (addLastTime mov .video pts) .audio pts

/-- `initMov` and the track set-up: every cache is empty, the memory is what `malloc`
returned, and the header of 36 bytes has been written. -/
def initMov (tracks : CodecType → Option MOVTrack) (cache cacheKeyframe : ℕ → ℕ)
    (createTime playTimeLength : ℤ) (geo : Option (ℤ × ℤ)) : MuxMOVContext where
  createTime := createTime
  mdatPos := 28
  mdatStartPos := 36
  mdatSize := 0
  playTimeLength := playTimeLength
  geoAvailable := geo.isSome
  latitudex := (geo.getD (0, 0)).1
  longitudex := (geo.getD (0, 0)).2
  tracks := tracks
  lastPts _ := 0
  trackDuration _ := 0
  averageDuration _ := 0
  keyFrameNum _ := 0
  totalNum _ := 0
  tinyPages _ := 0
  cache := cache
  cacheKeyframe := cacheKeyframe
  cacheWritePtr := cacheStart
  cacheReadPtr := cacheStart
  cacheSize _ := 0
  tmpFilesOpen := false
  tmpFile _ := []
  stscCnt := 0
  lastStreamIndex := none
  keyframeNum := 0

def fileWriteFtypTag : List UInt8 :=
  be32 28 ++ tagBytes "ftyp" ++ tagBytes "isom" ++ be32 0x200 ++ tagBytes "isom" ++
    tagBytes "iso2" ++ tagBytes "mp41"

def fileWriteMdatTag : List UInt8 := be32 0 ++ tagBytes "mdat"

def mp4WriteHeader (mov : MuxMOVContext) : Mp4MuxContext where
  mov := mov
  written := fileWriteFtypTag ++ fileWriteMdatTag
  isSdcardDisappear := false

end TinaPackage.Mp4
