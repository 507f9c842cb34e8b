import TinaPackage.Mp4Model

/-! The sample table boxes of the MP4 muxer. Reading their entries back moves the read pointers and
reloads the tiny page, so every writer returns the bytes and the context it leaves. The sizes are
32-bit sums in the source; they only reach the file through `be32`. -/
namespace TinaPackage.Mp4

/-- `*mov->cache_read_ptr[id][stream]++`, `n` times; `next` moves the pointer. -/
def readCached (next : ℕ → ℕ) (t : TableKey) : ℕ → MuxMOVContext → List ℕ × MuxMOVContext
  | 0, mov => ([], mov)
  | n + 1, mov =>
    let word := mov.cache (mov.cacheReadPtr t)
    let rest := readCached next t n
      { mov with
        cacheReadPtr := Function.update mov.cacheReadPtr t (next (mov.cacheReadPtr t)) }
    (word :: rest.1, rest.2)

variable (mov : MuxMOVContext)

/-- `read` from a temporary file into the tiny page; at the end of the file the old
words stay. -/
def loadTinyPage (words : List ℕ) : MuxMOVContext :=
  { mov with
    cache := fun a => if tinyPageStart ≤ a ∧ a < tinyPageStart+words.length
      then words.getD (a-tinyPageStart) 0 else mov.cache a }

def readSpilled (t : TableKey) (unit : ℕ) : ℕ → ℕ → MuxMOVContext → List ℕ × MuxMOVContext
  | _, 0, mov => ([], mov)
  | i, n + 1, mov =>
    let mov := loadTinyPage mov (((mov.tmpFile t).drop (i*unit)).take unit)
    let words := (List.range unit).map fun j => mov.cache (tinyPageStart+j)
    let rest := readSpilled t unit (i+1) n mov
    (words ++ rest.1, rest.2)

/-- The words of a table: the spilled pages and then the cache, or, when the page
count is zero, the cache without a look at its end. -/
def tableWords (t : TableKey) (unit : ℕ) (mov : MuxMOVContext) : List ℕ × MuxMOVContext :=
  let spilledNum := mov.tinyPages t*tinyPageSize
  if mov.tinyPages t = 0 then readCached (· + 1) t (mov.totalNum t) mov
  else
    let spilled := readSpilled t unit 0 (spilledNum/unit) mov
    let cached := readCached (fun p => wrapPtr t (p+1)) t (mov.totalNum t-spilledNum) spilled.2
    (spilled.1 ++ cached.1, cached.2)

def movGetSttsTagSize (s : CodecType) : ℕ :=
  let entries := match s with
    | .audio => 1
    | .video => mov.totalNum (.stts, .video)
  16+entries*8

/-- The durations of the video samples, without the 0 that ends the table. The first
word of the table is skipped. -/
def videoDurations : List ℕ × MuxMOVContext :=
  let total := mov.totalNum (.stts, .video)
  if mov.playTimeLength ≠ 0 then
    let average := mov.averageDuration .video
    let remainder := toWord ((mov.trackDuration .video).tmod total)
    (List.replicate (toWord (total-1)-1) average ++ [average+remainder], mov)
  else
    let words := tableWords (.stts, .video) tinyPageSize mov
    (words.1.drop 1, words.2)

def stblWriteSttsTag (trk : MOVTrack) : CodecType → List UInt8 × MuxMOVContext
  | .audio =>
    let duration := if trk.enc.codecId = .pcm then 1 else toWord trk.enc.frameSize
    (be32 (movGetSttsTagSize mov .audio) ++ tagBytes "stts" ++ be32 0 ++ be32 1 ++
      be32 (mov.totalNum (.stsz, .audio)) ++ be32 duration, mov)
  | .video =>
    let durations := videoDurations mov
    (be32 (movGetSttsTagSize mov .video) ++ tagBytes "stts" ++ be32 0 ++
      be32 (mov.totalNum (.stts, .video)) ++
      (durations.1 ++ [0]).flatMap fun d => be32 1 ++ be32 d, durations.2)

def stblGetStssTagSize : ℕ := (mov.keyFrameNum .video+4)*4

def stblWriteStssTag : List UInt8 :=
  be32 (stblGetStssTagSize mov) ++ tagBytes "stss" ++ be32 0 ++ be32 (mov.keyFrameNum .video) ++
    ((List.range (mov.keyFrameNum .video)).map mov.cacheKeyframe).flatMap be32

section
variable (s : CodecType)

def stblGetStscTagSize : ℕ := (mov.totalNum (.stsc, s)*3+4)*4

/-- The spilled words of this table are read one at a time. -/
def stblWriteStscTag : List UInt8 × MuxMOVContext :=
  let words := tableWords (.stsc, s) 1 mov
  (be32 (stblGetStscTagSize mov s) ++ tagBytes "stsc" ++ be32 0 ++ be32 (mov.totalNum (.stsc, s)) ++
    words.1.zipIdx.flatMap fun p => be32 (p.2+1) ++ be32 p.1 ++ be32 1, words.2)

def stblGetStszTagSize (trk : MOVTrack) (s : CodecType) : ℕ :=
  if trk.enc.codecId = .pcm then 5*4 else (mov.totalNum (.stsz, s)+5)*4

def stblWriteStszTag (trk : MOVTrack) (s : CodecType) : List UInt8 × MuxMOVContext :=
  let header := be32 (stblGetStszTagSize mov trk s) ++ tagBytes "stsz" ++ be32 0
  if trk.enc.codecId = .pcm then
    (header ++ be32 (toWord (pcmSampleBytes trk.enc)) ++ be32 (mov.totalNum (.stsz, s)), mov)
  else
    let words := tableWords (.stsz, s) tinyPageSize mov
    (header ++ be32 0 ++ be32 (mov.totalNum (.stsz, s)) ++ words.1.flatMap be32, words.2)

def stblGetStcoTagSize : ℕ := (mov.totalNum (.stco, s)+4)*4

def stblWriteStcoTag : List UInt8 × MuxMOVContext :=
  let words := tableWords (.stco, s) tinyPageSize mov
  (be32 (stblGetStcoTagSize mov s) ++ tagBytes "stco" ++ be32 0 ++
    be32 (mov.totalNum (.stco, s)) ++ words.1.flatMap be32, words.2)

structure StblTables where
  stts : List UInt8
  stss : List UInt8
  stsc : List UInt8
  stsz : List UInt8
  stco : List UInt8

def writeStblTables (trk : MOVTrack) (s : CodecType) : StblTables × MuxMOVContext :=
  let stts := stblWriteSttsTag mov trk s
  let stss := match s with
    | .video => stblWriteStssTag stts.2
    | .audio => []
  let stsc := stblWriteStscTag stts.2 s
  let stsz := stblWriteStszTag stsc.2 trk s
  let stco := stblWriteStcoTag stsz.2 s
  (⟨stts.1,stss,stsc.1,stsz.1,stco.1⟩, stco.2)

def trackTables : Option StblTables × MuxMOVContext :=
  match mov.tracks s with
  | none => (none, mov)
  | some trk =>
    if mov.totalNum (.stsz, s) > 0 then
      let tables := writeStblTables mov trk s
      (some tables.1, tables.2)
    else (none, mov)

end

end TinaPackage.Mp4
