import TinaPackage.Mp4Model

/-! The MPEG-TS muxer (muxer/ts/CdxTsMuxer.c and CdxTsMuxerLib.c): PES packets are cut into
packets of 188 bytes, which go through a ring of 1024 packets to the output file. Memory
allocation is taken to succeed. -/
namespace TinaPackage.Ts
open UInt8
open Mp4 (MuxCodecId)

-- the numerals of `Fin 2` rest on this one constant in every module
scoped instance neZero_two : NeZero 2 := ⟨two_ne_zero⟩

def tsPacketSize : ℕ := 188

def cachePackets : ℕ := 1024

def pagePackets : ℕ := 128

inductive OutputBufferMode where
  | tsFile
  | m3u8File
  | callbackBuffer
  deriving DecidableEq, Repr

structure MpegTSSection where
  pid : ℕ
  cc : ℕ

structure MpegTSService where
  pmt : MpegTSSection
  sid : ℕ
  pcrPid : ℕ

/-- A stream with its `MpegTSWriteStream`; `channels` as the unsigned number it is read as. -/
structure AVStream where
  codecId : MuxCodecId
  channels : ℕ
  sampleRate : ℤ
  vosData : List UInt8
  firstframeflag : Bool
  pid : ℕ
  cc : ℕ

/-- The packet ring with its pointers, counted in packets from `ts_cache_start`, its byte
counters, and the bytes the writer has taken. -/
structure TsCache where
  cell : ℕ → List UInt8
  tsWritePtr : ℕ
  tsReadPtr : ℕ
  cacheSize : ℕ
  cacheSizeTotal : ℕ
  cachePageNum : ℕ
  written : List UInt8

structure TsMuxContext where
  nbStreams : ℕ
  streams : Fin 2 → AVStream
  pat : MpegTSSection
  service : MpegTSService
  tsid : ℕ
  patPacketCount : ℕ
  patPacketPeriod : ℕ
  ring : TsCache
  pesBufsize : ℕ
  audioFrameNum : ℕ
  patPmtCounter : ℕ
  patPmtFlag : Bool
  outputBufferMode : OutputBufferMode
  firstVideoPts : Bool
  baseVideoPts : ℤ
  pcrCounter : ℕ
  isSdcardDisappear : Bool

structure Packet where
  streamIndex : Fin 2
  buf : List UInt8
  pts : ℤ

def wrapPtr (p : ℕ) : ℕ := if p > cachePackets-1 then 0 else p

def storePacket (r : TsCache) (packet : List UInt8) : TsCache :=
  { r with
    cacheSize := (r.cacheSize+tsPacketSize) % 2^32
    cacheSizeTotal := (r.cacheSizeTotal+tsPacketSize) % 2^64
    cell := Function.update r.cell r.tsWritePtr packet
    tsWritePtr := wrapPtr (r.tsWritePtr+1) }

def writePage (r : TsCache) : TsCache :=
  { r with
    written := r.written ++ (List.range pagePackets).flatMap fun j => r.cell (r.tsReadPtr+j)
    cacheSize := r.cacheSize-tsPacketSize*pagePackets
    cachePageNum := (r.cachePageNum+1) % 2^32
    tsReadPtr := wrapPtr (r.tsReadPtr+pagePackets) }

/-- The end of the packet loops of `tsWriteSection`, `tsWritePcrTable` and `tsWritePes`.
`fsWrite file` tells whether the writer accepts the next bytes behind `file`. -/
def cachePacket (fsWrite : List UInt8 → Bool) (s : TsMuxContext) (packet : List UInt8) :
    Outcome TsMuxContext TsMuxContext :=
  let ring := storePacket s.ring packet
  if s.outputBufferMode ≠ .callbackBuffer ∧ ring.cacheSize ≥ cachePackets*tsPacketSize then
    if fsWrite ring.written then .done { s with ring := writePage ring }
    else .failed { s with ring := ring, isSdcardDisappear := true }
  else .done { s with ring := ring }

def crcTable : List UInt32 :=
  [0x00000000,0x04c11db7,0x09823b6e,0x0d4326d9,0x130476dc,0x17c56b6b,0x1a864db2,0x1e475005,
    0x2608edb8,0x22c9f00f,0x2f8ad6d6,0x2b4bcb61,0x350c9b64,0x31cd86d3,0x3c8ea00a,0x384fbdbd,
    0x4c11db70,0x48d0c6c7,0x4593e01e,0x4152fda9,0x5f15adac,0x5bd4b01b,0x569796c2,0x52568b75,
    0x6a1936c8,0x6ed82b7f,0x639b0da6,0x675a1011,0x791d4014,0x7ddc5da3,0x709f7b7a,0x745e66cd,
    0x9823b6e0,0x9ce2ab57,0x91a18d8e,0x95609039,0x8b27c03c,0x8fe6dd8b,0x82a5fb52,0x8664e6e5,
    0xbe2b5b58,0xbaea46ef,0xb7a96036,0xb3687d81,0xad2f2d84,0xa9ee3033,0xa4ad16ea,0xa06c0b5d,
    0xd4326d90,0xd0f37027,0xddb056fe,0xd9714b49,0xc7361b4c,0xc3f706fb,0xceb42022,0xca753d95,
    0xf23a8028,0xf6fb9d9f,0xfbb8bb46,0xff79a6f1,0xe13ef6f4,0xe5ffeb43,0xe8bccd9a,0xec7dd02d,
    0x34867077,0x30476dc0,0x3d044b19,0x39c556ae,0x278206ab,0x23431b1c,0x2e003dc5,0x2ac12072,
    0x128e9dcf,0x164f8078,0x1b0ca6a1,0x1fcdbb16,0x018aeb13,0x054bf6a4,0x0808d07d,0x0cc9cdca,
    0x7897ab07,0x7c56b6b0,0x71159069,0x75d48dde,0x6b93dddb,0x6f52c06c,0x6211e6b5,0x66d0fb02,
    0x5e9f46bf,0x5a5e5b08,0x571d7dd1,0x53dc6066,0x4d9b3063,0x495a2dd4,0x44190b0d,0x40d816ba,
    0xaca5c697,0xa864db20,0xa527fdf9,0xa1e6e04e,0xbfa1b04b,0xbb60adfc,0xb6238b25,0xb2e29692,
    0x8aad2b2f,0x8e6c3698,0x832f1041,0x87ee0df6,0x99a95df3,0x9d684044,0x902b669d,0x94ea7b2a,
    0xe0b41de7,0xe4750050,0xe9362689,0xedf73b3e,0xf3b06b3b,0xf771768c,0xfa325055,0xfef34de2,
    0xc6bcf05f,0xc27dede8,0xcf3ecb31,0xcbffd686,0xd5b88683,0xd1799b34,0xdc3abded,0xd8fba05a,
    0x690ce0ee,0x6dcdfd59,0x608edb80,0x644fc637,0x7a089632,0x7ec98b85,0x738aad5c,0x774bb0eb,
    0x4f040d56,0x4bc510e1,0x46863638,0x42472b8f,0x5c007b8a,0x58c1663d,0x558240e4,0x51435d53,
    0x251d3b9e,0x21dc2629,0x2c9f00f0,0x285e1d47,0x36194d42,0x32d850f5,0x3f9b762c,0x3b5a6b9b,
    0x0315d626,0x07d4cb91,0x0a97ed48,0x0e56f0ff,0x1011a0fa,0x14d0bd4d,0x19939b94,0x1d528623,
    0xf12f560e,0xf5ee4bb9,0xf8ad6d60,0xfc6c70d7,0xe22b20d2,0xe6ea3d65,0xeba91bbc,0xef68060b,
    0xd727bbb6,0xd3e6a601,0xdea580d8,0xda649d6f,0xc423cd6a,0xc0e2d0dd,0xcda1f604,0xc960ebb3,
    0xbd3e8d7e,0xb9ff90c9,0xb4bcb610,0xb07daba7,0xae3afba2,0xaafbe615,0xa7b8c0cc,0xa379dd7b,
    0x9b3660c6,0x9ff77d71,0x92b45ba8,0x9675461f,0x8832161a,0x8cf30bad,0x81b02d74,0x857130c3,
    0x5d8a9099,0x594b8d2e,0x5408abf7,0x50c9b640,0x4e8ee645,0x4a4ffbf2,0x470cdd2b,0x43cdc09c,
    0x7b827d21,0x7f436096,0x7200464f,0x76c15bf8,0x68860bfd,0x6c47164a,0x61043093,0x65c52d24,
    0x119b4be9,0x155a565e,0x18197087,0x1cd86d30,0x029f3d35,0x065e2082,0x0b1d065b,0x0fdc1bec,
    0x3793a651,0x3352bbe6,0x3e119d3f,0x3ad08088,0x2497d08d,0x2056cd3a,0x2d15ebe3,0x29d4f654,
    0xc5a92679,0xc1683bce,0xcc2b1d17,0xc8ea00a0,0xd6ad50a5,0xd26c4d12,0xdf2f6bcb,0xdbee767c,
    0xe3a1cbc1,0xe760d676,0xea23f0af,0xeee2ed18,0xf0a5bd1d,0xf464a0aa,0xf9278673,0xfde69bc4,
    0x89b8fd09,0x8d79e0be,0x803ac667,0x84fbdbd0,0x9abc8bd5,0x9e7d9662,0x933eb0bb,0x97ffad0c,
    0xafb010b1,0xab710d06,0xa6322bdf,0xa2f33668,0xbcb4666d,0xb8757bda,0xb5365d03,0xb1f740b4]

/-- Of the `unsigned long` of the source only the low 32 bits are used. -/
def generateCRC32 (data : List UInt8) : UInt32 :=
  data.foldl (fun crc b => (crc <<< 8) ^^^
    crcTable.getD (((crc >>> 24) ^^^ b.toUInt32) &&& 0xff).toNat 0) 0xffffffff

/-- The sections the muxer sends: `ts->pat` and the `pmt` of the only service. -/
inductive SectionKey where
  | pat
  | pmt
  deriving DecidableEq, Repr

def TsMuxContext.sectionOf (s : TsMuxContext) : SectionKey → MpegTSSection
  | .pat => s.pat
  | .pmt => s.service.pmt

def TsMuxContext.setSectionCc (s : TsMuxContext) (k : SectionKey) (cc : ℕ) : TsMuxContext :=
  match k with
  | .pat => { s with pat := { s.pat with cc := cc } }
  | .pmt => { s with service := { s.service with pmt := { s.service.pmt with cc := cc } } }

def packetHeader (pid cc : ℕ) (start : Bool) : List UInt8 :=
  [0x47,ofNat (pid >>> 8 ||| if start then 0x40 else 0),ofNat pid, ofNat (0x10 ||| cc)]

def sectionHeader (pid cc : ℕ) (first : Bool) : List UInt8 :=
  packetHeader pid cc first ++ if first then [0] else []

def sectionPacket (pid cc : ℕ) (first : Bool) (buf : List UInt8) : List UInt8 :=
  let header := sectionHeader pid cc first
  let chunk := buf.take (tsPacketSize-header.length)
  header ++ chunk ++ List.replicate (tsPacketSize-header.length-chunk.length) 0xff

/-- The loop of `tsWriteSection`; every turn sends at least one byte. -/
def sendSection (fsWrite : List UInt8 → Bool) (k : SectionKey) :
    ℕ → Bool → TsMuxContext → List UInt8 → Outcome TsMuxContext TsMuxContext
  | 0, _, s, _ => .done s
  | turns + 1, first, s, buf =>
    if buf = [] then .done s
    else
      let sec := s.sectionOf k
      let cc := (sec.cc+1) % 16
      (cachePacket fsWrite (s.setSectionCc k cc) (sectionPacket sec.pid cc first buf)).bind
        fun s => sendSection fsWrite k turns false s
          (buf.drop (tsPacketSize-(sectionHeader sec.pid cc first).length))

variable (fsWrite : List UInt8 → Bool) (s : TsMuxContext) (k : SectionKey) (buf : List UInt8)

def tsWriteSection : Outcome TsMuxContext TsMuxContext :=
  if s.isSdcardDisappear then .failed s
  else
    let buf := buf ++ be32 (generateCRC32 buf).toNat
    sendSection fsWrite k buf.length true s buf

def tsWriteSection1 (tid id version secNum lastSecNum : ℕ) (buf : List UInt8) :
    Outcome TsMuxContext TsMuxContext :=
  if 3+5+buf.length+4 > 1024 then .failed s
  else
    tsWriteSection fsWrite s k
      ([ofNat tid] ++ be16 (0xb000 ||| (buf.length+5+4)) ++ be16 id ++
        [ofNat (0xc1 ||| version <<< 1),ofNat secNum,ofNat lastSecNum] ++ buf)

def patData : List UInt8 := be16 s.service.sid ++ be16 (0xe000 ||| s.service.pmt.pid)

def tsWritePat : Outcome TsMuxContext TsMuxContext :=
  tsWriteSection1 fsWrite s .pat 0x00 s.tsid 1 0 0 (patData s)

/-- `stream_type` is kept from the stream before for a codec the table does not know. -/
def streamType (previous : ℕ) : MuxCodecId → ℕ
  | .h264 => 0x1b
  | .aac => 0x0f
  | .adpcm => 0x83
  | _ => previous

def pmtStreams : ℕ → List AVStream → List UInt8
  | _, [] => []
  | previous, st :: sts =>
    let type := streamType previous st.codecId
    let descriptor := if type = 0x83 then [0x83,0x02,0x46,0x3f] else []
    ofNat type :: be16 (0xe000 ||| st.pid) ++
      be16 (0xf000 ||| descriptor.length) ++ descriptor ++ pmtStreams type sts

def pmtData : List UInt8 :=
  be16 (0xe000 ||| s.service.pcrPid) ++ be16 0xf000 ++
    -- `stream_type` starts as -1
    pmtStreams 0xff (((List.finRange 2).take s.nbStreams).map s.streams)

def tsWritePmt : Outcome TsMuxContext TsMuxContext :=
  tsWriteSection1 fsWrite s .pmt 0x02 s.service.sid 1 0 0 (pmtData s)

def bitsAt (x : ℤ) (n k : ℕ) : ℕ := (x/2^n % 2^k).toNat

def pcrPacket (counter : ℕ) (pcr : ℤ) : List UInt8 :=
  [0x47,0x50,0x00,ofNat (0x20 ||| counter),0xb7,0x10,
    ofNat (bitsAt pcr 25 8),ofNat (bitsAt pcr 17 8),ofNat (bitsAt pcr 9 8),
    ofNat (bitsAt pcr 1 8),ofNat (bitsAt pcr 0 1 <<< 7),0] ++
    List.replicate 176 0xff

def tsWritePcrTable (pts : ℤ) : Outcome TsMuxContext TsMuxContext :=
  if s.isSdcardDisappear then .failed s
  else cachePacket fsWrite { s with pcrCounter := (s.pcrCounter+1) % 16 }
    (pcrPacket s.pcrCounter pts)

def tsWriteSiInfo : Outcome TsMuxContext TsMuxContext :=
  (tsWritePat fsWrite s).bind fun s => tsWritePmt fsWrite s

def tsRetransmitSiInfo (pts : ℤ) (idx : Fin 2) : Outcome TsMuxContext TsMuxContext :=
  if s.outputBufferMode = .callbackBuffer then
    (if s.patPmtCounter = 4 ∨ s.patPmtFlag = true then
      tsWriteSiInfo fsWrite { s with patPmtCounter := 0, patPmtFlag := false }
    else .done s).bind fun s =>
      if idx = 0 then tsWritePcrTable fsWrite s pts else .done s
  else if s.patPacketCount = s.patPacketPeriod then
    (tsWriteSiInfo fsWrite { s with patPacketCount := 0 }).bind fun s =>
      tsWritePcrTable fsWrite s pts
  else .done s

def tsWritePts (fourbits : ℕ) (pts : ℤ) : List UInt8 :=
  ofNat (fourbits <<< 4 ||| bitsAt pts 30 3 <<< 1 ||| 1) ::
    be16 (bitsAt pts 15 15 <<< 1 ||| 1) ++ be16 (bitsAt pts 0 15 <<< 1 ||| 1)

def pesStreamId : MuxCodecId → UInt8
  | .h264 => 0xe0
  | .adpcm => 0xbd
  | _ => 0xc0

/-- The PES header. The two stuffing bytes are written with and without a time, but
`header_len` counts them only with one. -/
def pesHeader (codecId : MuxCodecId) (payloadSize : ℕ) (pts : ℤ) : List UInt8 :=
  let headerLen := if pts ≠ -1 then 5+2 else 0
  let flags := if pts ≠ -1 then 0x80 else 0
  let len := payloadSize+headerLen+3
  [0x00,0x00,0x01,pesStreamId codecId] ++ be16 (if len > 0xffff then 0 else len) ++
    [0x80,ofNat flags,ofNat headerLen] ++
    (if pts ≠ -1 then tsWritePts (flags >>> 6) pts else []) ++ [0xff,0xff]

variable (st : AVStream) (start : Bool) (payload : List UInt8) (pts : ℤ)

def pesPacketHead : List UInt8 :=
  packetHeader st.pid st.cc start ++ if start then pesHeader st.codecId payload.length pts else []

/-- `stuffing_len` bytes of adaptation field are put behind the first four bytes. -/
def addStuffing (stuffingLen : ℕ) : List UInt8 :=
  buf.take 3 ++ [buf.getD 3 0 ||| 0x20,ofNat (stuffingLen-1)] ++
    (if stuffingLen ≥ 2 then 0x00 :: List.replicate (stuffingLen-2) 0xff else []) ++ buf.drop 4

/-- One packet of the loop of `tsWritePes`. `write_pcr` is 0 there, so that no packet has an
adaptation field before the stuffing. -/
def pesPacket : List UInt8 :=
  let buf := pesPacketHead st start payload pts
  let len := min (tsPacketSize-buf.length) payload.length
  let stuffingLen := tsPacketSize-buf.length-len
  (if stuffingLen > 0 then addStuffing buf stuffingLen else buf) ++ payload.take len

def TsMuxContext.setStream (i : Fin 2) (st : AVStream) : TsMuxContext :=
  { s with streams := Function.update s.streams i st }

/-- The loop of `tsWritePes`; every turn sends at least one byte. -/
def sendPes (fsWrite : List UInt8 → Bool) (i : Fin 2) (pts : ℤ) :
    ℕ → Bool → TsMuxContext → List UInt8 → Outcome TsMuxContext TsMuxContext
  | 0, _, s, _ => .done s
  | turns + 1, start, s, payload =>
    if payload = [] then .done s
    else
      let st := { s.streams i with cc := ((s.streams i).cc+1) % 16 }
      (cachePacket fsWrite (s.setStream i st) (pesPacket st start payload pts)).bind
        fun s => sendPes fsWrite i pts turns false s
          (payload.drop (tsPacketSize-(pesPacketHead st start payload pts).length))

def tsWritePes (i : Fin 2) (payload : List UInt8) (pts : ℤ) : Outcome TsMuxContext TsMuxContext :=
  if s.isSdcardDisappear then .failed s
  else (tsRetransmitSiInfo fsWrite s pts i).bind fun s =>
    -- the length of the PES packet is computed as an `int`
    if payload.length+7+3 ≥ 2^31 then .undefined
    else sendPes fsWrite i pts payload.length true
      { s with patPacketCount := s.patPacketCount+1 } payload

def accessUnitDelimiter : List UInt8 := [0x00,0x00,0x00,0x01,0x09,0xf0]

def h264Head (st : AVStream) : List UInt8 :=
  accessUnitDelimiter ++ if st.firstframeflag then st.vosData else []

def audioSampleRates : List ℕ :=
  [96000,88200,64000,48000,44100,32000,24000,22050,16000,12000,11025,8000,7350]

def sampleRateIndex (rate : ℤ) : ℕ :=
  audioSampleRates.findIdx fun r => decide ((r : ℤ) = rate % 2^32)

def adtsHeader (st : AVStream) (buflen : ℕ) : List UInt8 :=
  let frameLength := buflen+7
  [0xff,0xf1,
    ofNat (1 <<< 6 ||| sampleRateIndex st.sampleRate <<< 2 ||| (st.channels &&& 0x4) >>> 2),
    ofNat ((st.channels &&& 0x3) <<< 6 ||| (frameLength &&& 0x1800) >>> 11),
    ofNat ((frameLength &&& 0x1ff8) >>> 3),
    ofNat ((frameLength &&& 0x7) <<< 5 ||| 0x1f),
    ofNat (0xfc ||| (frameLength/1024 &&& 0x03))]

def growPesBuffer (totalSize : ℕ) : Outcome TsMuxContext TsMuxContext :=
  if totalSize ≥ 2^31 then .undefined
  else if s.pesBufsize < totalSize then
    if totalSize+32*1024 ≥ 2^31 then .undefined
    else .done { s with pesBufsize := totalSize+32*1024 }
  else .done s

def inInt64 (x : ℤ) : Prop := -2^63 ≤ x ∧ x < 2^63

instance (x : ℤ) : Decidable (inInt64 x) := inferInstanceAs (Decidable (_ ∧ _))

variable (pkt : Packet)

def writeH264 : Outcome TsMuxContext TsMuxContext :=
  let st := s.streams pkt.streamIndex
  let s := { s with patPmtCounter := s.patPmtCounter+1 }
  -- the extra data is copied before the size of the buffer is looked at
  if s.pesBufsize < (h264Head st).length then .undefined
  else
    (growPesBuffer (s.setStream pkt.streamIndex { st with firstframeflag := false })
      ((h264Head st).length+pkt.buf.length)).bind fun s =>
    let s := if s.firstVideoPts
      then { s with firstVideoPts := false, baseVideoPts := pkt.pts } else s
    let pts := (pkt.pts-s.baseVideoPts)*90
    if inInt64 pts then tsWritePes fsWrite s pkt.streamIndex (h264Head st ++ pkt.buf) pts
    else .undefined

def aacTime (st : AVStream) : ℤ := ((s.audioFrameNum : ℤ)*90000*1024).tdiv st.sampleRate

def writeAac : Outcome TsMuxContext TsMuxContext :=
  let st := s.streams pkt.streamIndex
  (growPesBuffer s (7+pkt.buf.length)).bind fun s =>
    if inInt64 ((s.audioFrameNum : ℤ)*90000*1024) ∧ st.sampleRate ≠ 0 then
      tsWritePes fsWrite { s with audioFrameNum := s.audioFrameNum+1 } pkt.streamIndex
        (adtsHeader st pkt.buf.length ++ pkt.buf) (aacTime s st)
    else .undefined

def writeAdpcm : Outcome TsMuxContext TsMuxContext :=
  (growPesBuffer s pkt.buf.length).bind fun s =>
    if inInt64 (pkt.pts*90) then
      tsWritePes fsWrite { s with audioFrameNum := s.audioFrameNum+1 } pkt.streamIndex pkt.buf
        (pkt.pts*90)
    else .undefined

def tsWritePacket : Outcome TsMuxContext TsMuxContext :=
  match (s.streams pkt.streamIndex).codecId with
  | .h264 => writeH264 fsWrite s pkt
  | .aac => writeAac fsWrite s pkt
  | .adpcm => writeAdpcm fsWrite s pkt
  -- the packet of another codec is dropped
  | _ => .done s

def tsMuxerWritePacket : Outcome TsMuxContext TsMuxContext :=
  if s.isSdcardDisappear then .failed s else tsWritePacket fsWrite s pkt

def flushPackets (fsWrite : List UInt8 → Bool) : ℕ → TsCache → Outcome TsCache TsCache
  | 0, r => .done r
  | n + 1, r =>
    let r := { r with tsReadPtr := wrapPtr r.tsReadPtr }
    if fsWrite r.written then
      flushPackets fsWrite n
        { r with written := r.written ++ r.cell r.tsReadPtr, tsReadPtr := r.tsReadPtr+1 }
    else .failed r

def tsWriteTrailer : Outcome TsMuxContext TsMuxContext :=
  if s.outputBufferMode = .callbackBuffer then .done s
  -- the 32-bit loop index never reaches a larger number of packets
  else if s.ring.cacheSizeTotal/tsPacketSize ≥ 2^32 then .undefined
  else
    ((flushPackets fsWrite
      (s.ring.cacheSizeTotal/tsPacketSize-s.ring.cachePageNum*pagePackets % 2^32)
      s.ring).mapFailed fun r => { s with ring := r, isSdcardDisappear := true }).bind
    fun r => .done { s with
      ring := { r with
        tsWritePtr := 0
        tsReadPtr := 0
        cacheSize := 0
        cachePageNum := 0
        cacheSizeTotal := 0 } }

inductive AudioEncoderType where
  | aac
  | lpcm
  | pcm
  | mp3
  deriving DecidableEq, Repr

structure MuxerAudioStreamInfo where
  eCodecFormat : AudioEncoderType
  nChannelNum : ℕ
  nSampleRate : ℤ

/-- The streams of a recording: of the video stream only counts whether it is H.264. -/
structure CdxMuxerMediaInfo where
  video : Option Bool
  audio : Option MuxerAudioStreamInfo

def newStream (i : Fin 2) : AVStream where
  codecId := .unset
  channels := 0
  sampleRate := 0
  vosData := []
  firstframeflag := true
  pid := if i = 0 then 0x1011 else 0x1100
  cc := 15

def newContext (cell : ℕ → List UInt8) : TsMuxContext where
  nbStreams := 0
  streams := newStream
  pat := { pid := 0x0000, cc := 15 }
  service := { pmt := { pid := 0x0100, cc := 15 }, sid := 1, pcrPid := 0x1000 }
  tsid := 0
  patPacketCount := 3
  patPacketPeriod := 3
  ring := {
    cell := cell
    tsWritePtr := 0
    tsReadPtr := 0
    cacheSize := 0
    cacheSizeTotal := 0
    cachePageNum := 0
    written := [] }
  pesBufsize := 512*1024
  audioFrameNum := 0
  patPmtCounter := 0
  patPmtFlag := true
  outputBufferMode := .tsFile
  firstVideoPts := true
  baseVideoPts := 0
  pcrCounter := 0
  isSdcardDisappear := false

variable (s : TsMuxContext)

def nextStream : Fin 2 := if s.nbStreams = 0 then 0 else 1

def setTsVideoInfo (isH264 : Bool) : Option TsMuxContext :=
  if isH264 then
    some { s.setStream (nextStream s) { s.streams (nextStream s) with codecId := .h264 } with
      nbStreams := s.nbStreams+1 }
  else none

/-- The codec of an audio stream. PCM is recognised first, but the chain of the other
formats then ends in an error. -/
def tsAudioCodec : AudioEncoderType → Option MuxCodecId
  | .aac => some .aac
  | .mp3 => some .mp3
  | .pcm => none
  | .lpcm => none

def setTsAudioInfo (info : MuxerAudioStreamInfo) : Option TsMuxContext :=
  (tsAudioCodec info.eCodecFormat).map fun codec =>
    { s.setStream (nextStream s) { s.streams (nextStream s) with
        codecId := codec
        channels := info.nChannelNum
        sampleRate := info.nSampleRate } with
      nbStreams := s.nbStreams+1 }

/-- `cell` is the content of the freshly allocated ring. -/
def tsMuxerSetMediaInfo (cell : ℕ → List UInt8) (info : CdxMuxerMediaInfo) :
    Option TsMuxContext :=
  (info.video.elim (some (newContext cell)) (setTsVideoInfo (newContext cell))).bind fun s =>
    info.audio.elim (some s) (setTsAudioInfo s)

def tsMuxerWriteExtraData (vosData : List UInt8) (idx : Fin 2) : TsMuxContext :=
  s.setStream idx { s.streams idx with vosData := vosData }

end TinaPackage.Ts
