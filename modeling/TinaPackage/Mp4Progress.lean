import TinaPackage.Mp4Locate

/-! Packets are accepted as long as the system calls succeed, and a long recording in
which the two tracks have spilled different numbers of stsc pages. -/
namespace TinaPackage.Mp4
open List History

def Mp4Io.works : Mp4Io := ⟨true,fun _ => true, true,true⟩

section Accepts
open Outcome

section
variable (mov : MuxMOVContext)
include mov

theorem spillPage_accepts (t : TableKey) (owner : CodecType) :
    (spillPage .works mov t owner).Accepts := by
  unfold spillPage mp4CreateTmpFile
  split
  · exact accepts_done mov
  · apply Accepts.bind
    · split
      · exact accepts_done _
      · exact accepts_done _
    · intro mov'
      exact accepts_done _

theorem startChunk_accepts (s : CodecType) : (startChunk .works mov s).Accepts := by
  apply Accepts.bind
  · unfold endChunk
    split
    · exact accepts_done _
    · exact spillPage_accepts _ _ _
  · intro mov'
    exact spillPage_accepts _ _ _

theorem addSample_accepts (trk : MOVTrack) (s : CodecType) (size : ℕ) :
    (addSample .works mov trk s size).Accepts := by
  apply Accepts.bind
  · unfold countSample
    split_ifs
    · exact accepts_undefined
    · exact accepts_done _
    · exact accepts_done _
  · intro mov'
    exact spillPage_accepts _ _ _

theorem addVideoSample_accepts (trk : MOVTrack) (pkt : Packet)
    (hcodec : pkt.streamIndex = .video →
      trk.enc.codecId = .h264 ∨ trk.enc.codecId = .mpeg4 ∨ trk.enc.codecId = .mjpeg) :
    (addVideoSample .works mov trk pkt).Accepts := by
  unfold addVideoSample
  split
  case h_1 => exact accepts_done mov
  case h_2 hs =>
    apply (spillPage_accepts _ _ _).bind
    intro mov'
    unfold addKeyFrame isKeyFrame
    rcases hcodec hs with hc | hc | hc <;> rw [hc] <;> dsimp only
    all_goals
      split
      · contradiction
      · exact accepts_done _
      · split
        · exact accepts_done _
        · exact accepts_undefined

end

theorem mediaStep_accepts (w : MediaWorld) (pkt : Packet) {trk : MOVTrack}
    (htrk : w.ctx.mov.tracks pkt.streamIndex = some trk)
    (hcodec : pkt.streamIndex = .video →
      trk.enc.codecId = .h264 ∨ trk.enc.codecId = .mpeg4 ∨ trk.enc.codecId = .mjpeg) :
    (mediaStep w (.works, pkt)).Accepts := by
  unfold mediaStep mp4WritePacket
  rw [htrk]
  apply Accepts.bind
  · apply Accepts.bind
    · apply Accepts.mapFailed
      apply Accepts.bind
      · unfold addToChunk
        split
        · exact accepts_done _
        · exact startChunk_accepts _ _
      · intro mov1
        apply (addSample_accepts _ _ _ _).bind
        intro mov2
        exact addVideoSample_accepts mov2 trk pkt hcodec
    · intro mov'
      unfold writeMedia
      simp [Mp4Io.works,accepts_done]
  · intro c
    exact accepts_done _

end Accepts

def smallPacket (s : CodecType) : Packet := ⟨s,fun _ => 1, 5,0⟩

def smallCall (s : CodecType) : Mp4Io × Packet := (.works, smallPacket s)

def plainTrack (codec : MuxCodecId) : MOVTrack :=
  ⟨1000,⟨640,480,0,codec,2,25,1024,16,44100⟩,[]⟩

def plainStart : MediaWorld :=
  mediaStart (initMov (twoTracks (plainTrack .h264) (plainTrack .aac)) (fun _ => 0) (fun _ => 0)
    0 0 none)

theorem sample_tables_locate_every_packet_of_two :
    GuardedCalls mediaStep PacketFits plainStart [smallCall .video,smallCall .audio] ∧
      ∃ w, runCalls mediaStep plainStart [smallCall .video,smallCall .audio] = .done w ∧
        TrailerFits w.ctx.mov ∧ ∃ file, mp4WriteTrailer w.ctx = .done file ∧
          ∀ s, Locates (file.moov.tables s) (w.ranges s) :=
  have hfits := by decide
  ⟨hfits,_,rfl,by decide,
    sample_tables_locate_every_packet (by decide) (by decide) _ _ _ _ _ hfits (by decide)⟩

def History.addAll (h : History) (size : ℕ) : ℕ → List CodecType → History
  | _, [] => h
  | pos, s :: ss => (h.addPacket s pos size).addAll size (pos+size) ss

variable {w : MediaWorld} {h : History}

theorem recorded_small (ss : List CodecType)
    (hr : Recorded (plainTrack .h264) (plainTrack .aac) w h)
    (hpos : w.ctx.written.length+5*ss.length < 2^32)
    (hfew : ∀ s, (h.sizes s).length+ss.length < 2^30) :
    ∃ w', runCalls mediaStep w (ss.map smallCall) = .done w' ∧
      Recorded (plainTrack .h264) (plainTrack .aac) w' (h.addAll 5 w.ctx.written.length ss) := by
  induction ss generalizing w h with
  | nil => exact ⟨w,rfl,hr⟩
  | cons s ss ih =>
    obtain ⟨trk,htrk,hpcm,hsize,hcodec⟩ : ∃ trk,
        twoTracks (plainTrack .h264) (plainTrack .aac) s = some trk ∧ trk.enc.codecId ≠ .pcm ∧
          packetSize trk (smallPacket s) = 5 ∧ (s = .video → trk.enc.codecId = .h264) := by
      cases s with
      | video => exact ⟨plainTrack .h264,rfl,by decide,rfl,fun _ => rfl⟩
      | audio => exact ⟨plainTrack .aac,rfl,by decide,rfl,by simp⟩
    rw [length_cons] at hpos
    have hfits : PacketFits w (smallCall s) := by
      refine ⟨(by decide : 5+2 < 2^31),fun _ => by omega, ?_,?_⟩
      · change w.ctx.mov.totalNum (.stsz, s) < 2^30
        rw [(hr.tables.stsz s).total]
        have := hfew s
        omega
      · -- the fifth byte is not that of a key frame
        have hkey : recordsKeyFrame w.ctx.mov (smallCall s).2 = false := by
          unfold recordsKeyFrame
          rw [hr.tracks]
          cases s <;> rfl
        rw [hkey]
        exact nofun
    have haccepts : (mediaStep w (smallCall s)).Accepts :=
      mediaStep_accepts w (smallPacket s) (by rw [hr.tracks]; exact htrk)
        fun hs => Or.inl (hcodec hs)
    obtain ⟨w1,hw1,hr1,hlen1⟩ := (recorded_step hr htrk hpcm hfits).exists_done haccepts
    have hsize' : packetSize trk (smallCall s).2 = 5 := hsize
    rw [hsize'] at hr1 hlen1
    have hnext := ih hr1 (by rw [hlen1]; omega) (by
      intro u
      have hu := hfew u
      rw [length_cons] at hu
      rw [sizes_addPacket,length_append]
      split
      · rw [length_singleton]
        omega
      · rw [length_nil]
        omega)
    obtain ⟨w2,hw2,hr2⟩ := hnext
    rw [hlen1] at hr2
    refine ⟨w2,?_,hr2⟩
    rw [map_cons,runCalls,hw1]
    exact hw2

def alternate : ℕ → List CodecType
  | 0 => []
  | n + 1 => .video :: .audio :: alternate n

theorem length_alternate (n : ℕ) : (alternate n).length = 2*n := by
  induction n with
  | zero => rfl
  | succ n ih =>
    rw [alternate,length_cons,length_cons,ih]
    omega

theorem addAll_alternate (n : ℕ) (h : History) (pos : ℕ) (c : Chunk)
    (hc : h.current = some (.audio, c)) (hone : c.sizes.length = 1) :
    (h.addAll 5 pos (alternate n)).stream = some .audio ∧
      (h.addAll 5 pos (alternate n)).closed .video =
        h.closed .video ++ (range n).map (fun i => ⟨pos+10*i,[5]⟩) ∧
      (h.addAll 5 pos (alternate n)).counts .audio = h.counts .audio ++ replicate n 1 := by
  induction n generalizing h pos c with
  | zero => simp [alternate,addAll,stream,hc]
  | succ n ih =>
    have hnew : h.stream ≠ some .video := by simp [stream,hc]
    let h1 : History := ⟨h.chunks,some (.video, ⟨pos,[5]⟩)⟩
    let h2 : History := ⟨h1.chunks,some (.audio, ⟨pos+5,[5]⟩)⟩
    have hstep : h.addAll 5 pos (alternate (n+1)) = h2.addAll 5 (pos+5+5) (alternate n) := by
      have hnew1 : h1.stream ≠ some .audio := by simp [stream,h1]
      rw [alternate,addAll,addAll,addPacket_new pos 5 hnew,addPacket_new (pos+5) 5 hnew1]
    obtain ⟨hstream,hvideo,haudio⟩ := ih h2 (pos+5+5) ⟨pos+5,[5]⟩ rfl rfl
    have hclosed2 : h2.closed .video = h.closed .video ++ [⟨pos,[5]⟩] := by
      simp [h2,h1,chunks,currentOf,hc]
    have hcounts2 : h2.counts .audio = h.counts .audio ++ [1] := by
      simp [h2,h1,counts,chunks,currentOf,hc,hone]
    rw [hstep]
    refine ⟨hstream,?_,?_⟩
    · rw [hvideo,hclosed2,append_assoc,singleton_append,range_succ_eq_map,map_cons,map_map]
      congr 2
      apply map_congr_left
      intro i _
      simp only [Function.comp_apply,Chunk.mk.injEq,and_true]
      omega
    · rw [haudio,hcounts2,append_assoc,singleton_append,replicate_succ]

theorem readCached_two {t : TableKey} (n : ℕ) (mov : MuxMOVContext) :
    ∃ rest, (readCached (· + 1) t (n+2) mov).1 =
      mov.cache (mov.cacheReadPtr t) :: mov.cache (mov.cacheReadPtr t+1) :: rest := by
  rw [readCached_words (n+2) mov (fun i => mov.cacheReadPtr t+i) rfl fun i => rfl,
    range_succ_eq_map,range_succ_eq_map]
  exact ⟨_,rfl⟩

theorem locateSamples_ne {offsets sizes : List ℕ} {counts : List ℕ} {ranges : List (ℕ × ℕ)} :
    locateSamples (36 :: 51 :: offsets) (entryPerChunk (1 :: 1 :: counts)) (5 :: 5 :: sizes) ≠
      (36, 5) :: (41, 5) :: ranges := by
  have hfirst : samplesInChunk (entryPerChunk (1 :: 1 :: counts)) 1 = 1 :=
    samplesInChunk_entryPerChunk [] 1 (1 :: counts)
  have hsecond : samplesInChunk (entryPerChunk (1 :: 1 :: counts)) 2 = 1 :=
    samplesInChunk_entryPerChunk [1] 1 counts
  simp [locateSamples,locateFrom,hfirst,hsecond,placeSamples]

/-- The state of a recording in which only the video track has spilled an stsc page, at the
end of the last packet. -/
theorem stsc_of_video_misread (hr : Recorded (plainTrack .h264) (plainTrack .aac) w h)
    (hs : h.stream = some .audio) (hvideo : h.counts .video = 2 :: replicate 8191 1)
    (haudio : h.counts .audio = replicate 8191 1) (pts : ℤ) :
    let mov := writeLastPacket w.ctx.mov pts
    SamplesReadable mov h .video ∧
      ∃ rest, decodeStsc (stblWriteStscTag
        (stblWriteSttsTag mov (plainTrack .h264) .video).2 .video).1 =
          entryPerChunk (1 :: 1 :: rest) := by
  intro mov
  have hholdsV : Holds w.ctx.mov (.stsc, .video) (h.counts .video)
      (w.ctx.mov.tinyPages (.stsc, .audio)) := hr.tables.stsc .video
  have hholdsA : Holds w.ctx.mov (.stsc, .audio) (h.counts .audio)
      (w.ctx.mov.tinyPages (.stsc, .video)) := hr.tables.stsc .audio
  have hlenV : (h.counts .video).length = 8192 := by
    rw [hvideo,length_cons,length_replicate]
  have hlenA : (h.counts .audio).length = 8191 := by rw [haudio,length_replicate]
  have hpagesV : w.ctx.mov.tinyPages (.stsc, .audio) = 1 := by
    rw [hholdsV.pages_eq,hlenV]
    rfl
  have hpagesA : w.ctx.mov.tinyPages (.stsc, .video) = 0 := by
    rw [hholdsA.pages_eq,hlenA]
    rfl
  obtain ⟨x,durations,heq⟩ := writeLastPacket_eq hr.hasVideo (hr.last.trans hs) pts
  -- the stray store falls behind the audio stsc cache
  have hptr : (putLastCount w.ctx.mov .audio).cacheWritePtr (.stsc, .audio) =
      cacheStart (.stsc, .audio)+8192 := by
    have hupdate : (putLastCount w.ctx.mov .audio).cacheWritePtr (.stsc, .audio) =
        w.ctx.mov.cacheWritePtr (.stsc, .audio)+1 :=
      putWord_writePtr w.ctx.mov (.stsc, .audio) w.ctx.mov.stscCnt
    rw [hupdate,hholdsA.writePtr,hlenA]
    rfl
  have hsame : ∀ u : TableKey, u ≠ (.stsc, .audio) → u.1 ≠ .stts → SameTable u w.ctx.mov mov := by
    intro u hu hstts
    have hstray := putWord_stsc_audio_sameTable (le_refl 8192) hptr hu hstts x
    apply (hr.tables.putLast_sameTable hu).trans
    rw [show mov = _ from heq]
    exact { hstray with }
  have hpages : mov.tinyPages = w.ctx.mov.tinyPages := by
    rw [show mov = _ from heq]
    rfl
  have hstco := hsame (.stco, .video) (by simp) (by simp)
  have hstsz := hsame (.stsz, .video) (by simp) (by simp)
  refine ⟨⟨?_,hstco.total.trans (hr.tables.stco .video).total,?_,
    hstsz.total.trans (hr.tables.stsz .video).total⟩,?_⟩
  · rw [hpages]
    exact hstco.readable (hr.tables.stco .video).toReadable
  · rw [hpages]
    exact hstsz.readable (hr.tables.stsz .video).toReadable
  · let mov1 := (stblWriteSttsTag mov (plainTrack .h264) .video).2
    obtain ⟨hframe,hsame1⟩ := stblWriteSttsTag_frame mov (plainTrack .h264) .video
    have hstsc : SameTable (.stsc, .video) w.ctx.mov mov1 :=
      (hsame _ (by simp) (by simp)).trans (hsame1 _ (by simp))
    have hzero : mov1.tinyPages (.stsc, .video) = 0 := by
      rw [hframe.pages,hpages,hpagesA]
    have htotal : mov1.totalNum (.stsc, .video) = 8190+2 := by
      rw [hstsc.total,hholdsV.total,hlenV]
    have hread : mov1.cacheReadPtr (.stsc, .video) = cacheStart (.stsc, .video)+2048 := by
      rw [hstsc.readPtr,hholdsV.readPtr,hpagesV]
      rfl
    have hcell : ∀ j < 2, mov1.cache (cacheStart (.stsc, .video)+2048+j) = 1 := by
      intro j hj
      -- the value is the count of a chunk of one sample
      have hone : (h.counts .video)[2047+j+1]? = some 1 := by
        rw [hvideo,getElem?_cons_succ,getElem?_replicate_of_lt (by omega)]
      have hval := hholdsV.spilled.getElem?_eq_cell (i := 2047+j+1)
        (by rw [hpagesV,Nat.one_mul]; change 2048 ≤ _; omega) (by rw [hlenV]; omega)
      have hmod : (2047+j+1) % cacheCap (MuxChunkID.stsc, CodecType.video).1 = 2048+j := by
        change (2047+j+1) % 8192 = _
        omega
      rw [hone,hmod] at hval
      rw [Nat.add_assoc]
      exact (hstsc.cells (2048+j) (by change 2048+j < 8192; omega)).trans
        (Option.some.inj hval).symm
    obtain ⟨rest,hwords⟩ := readCached_two (t := (.stsc, .video)) 8190 mov1
    rw [hread,hcell 1 (by omega),← Nat.add_zero (cacheStart _+2048),hcell 0 (by omega)] at hwords
    have htable : (tableWords (.stsc, .video) 1 mov1).1 = 1 :: 1 :: rest := by
      unfold tableWords
      rw [if_pos hzero,htotal]
      exact hwords
    have hlen : (1 :: 1 :: rest).length = 8190+2 := by
      rw [← hwords,length_readCached]
    refine ⟨rest.map (· % 2^32),?_⟩
    unfold stblWriteStscTag
    change decodeStsc (_ ++ be32 (mov1.totalNum (.stsc, .video)) ++
      (tableWords (.stsc, .video) 1 mov1).1.zipIdx.flatMap _) = _
    rw [htable,htotal,← hlen,append_assoc,decodeStsc_words rfl (by rw [hlen]; decide)]
    rfl

theorem addAll_two_then_alternate (n : ℕ) :
    let h := empty.addAll 5 36 (.video :: .video :: .audio :: alternate (n+1))
    h.stream = some .audio ∧ (∃ chunks, h.chunks .video = ⟨36,[5,5]⟩ :: ⟨51,[5]⟩ :: chunks) ∧
      h.counts .video = 2 :: replicate (n+1) 1 ∧
      h.counts .audio = replicate (n+1) 1 := by
  let h3 : History :=
    ⟨fun s => if s = .video then [⟨36,[5,5]⟩] else [],some (.audio, ⟨46,[5]⟩)⟩
  have hfirst : ∀ ss, empty.addAll 5 36 (.video :: .video :: .audio :: ss) = h3.addAll 5 51 ss := by
    intro ss
    have hclosed : (fun s => chunks ⟨fun _ => [],some (.video, ⟨36,[5,5]⟩)⟩ s) = h3.closed := by
      funext s
      cases s <;> rfl
    rw [← show (⟨h3.closed,some (.audio, ⟨46,[5]⟩)⟩ : History) = h3 from rfl,← hclosed]
    rfl
  obtain ⟨hstream,hclosed,haudio⟩ := addAll_alternate (n+1) h3 51 ⟨46,[5]⟩ rfl rfl
  intro h
  have hh : h = h3.addAll 5 51 (alternate (n+1)) := hfirst _
  rw [hh]
  refine ⟨hstream,?_,?_,haudio⟩
  · unfold chunks
    rw [hclosed,range_succ_eq_map]
    exact ⟨_,rfl⟩
  · unfold counts
    rw [hclosed,map_append,map_map]
    change 2 :: (range (n+1)).map (fun _ => 1) = _
    rw [map_const',length_range]

theorem trakDefined_plain {mov : MuxMOVContext}
    (htracks : mov.tracks = twoTracks (plainTrack .h264) (plainTrack .aac)) (s : CodecType) :
    trakDefined mov s = true := by
  unfold trakDefined writtenTrack
  rw [htracks]
  by_cases hpos : mov.totalNum (.stsz, s) > 0
  · rw [if_pos hpos]
    cases s <;> rfl
  · rw [if_neg hpos]

/-- After 16385 packets of five bytes, two of the video track first and then in turns, the video
track has spilled an stsc page that only the audio track has counted. The table is written from its
second page on, and the second video sample is not found. -/
theorem second_sample_lost_after_uneven_spill :
    ∃ w file tables,
      runCalls mediaStep plainStart
        ((.video :: .video :: .audio :: alternate (8190+1)).map smallCall) = .done w ∧
      mp4WriteTrailer w.ctx = .done file ∧ file.moov.tables .video = some tables ∧
      sampleRanges tables.stco tables.stsc tables.stsz ≠ w.ranges .video := by
  have hstart : Recorded (plainTrack .h264) (plainTrack .aac) plainStart History.empty :=
    recorded_start _ _ _ _ _ _
  have hlen : plainStart.ctx.written.length = 36 := length_header
  obtain ⟨w,hw,hr⟩ := recorded_small (.video :: .video :: .audio :: alternate (8190+1)) hstart
    (by rw [hlen,length_cons,length_cons,length_cons,length_alternate]; omega)
    (by
      intro s
      rw [length_cons,length_cons,length_cons,length_alternate]
      change 0+_ < _
      omega)
  rw [hlen] at hr
  obtain ⟨hstream,⟨chunks,hchunks⟩,hcounts,haudio⟩ := addAll_two_then_alternate 8190
  generalize History.empty.addAll 5 36 (.video :: .video :: .audio :: alternate (8190+1)) = h
    at hr hstream hchunks hcounts haudio
  obtain ⟨hread,rest,hstsc⟩ := stsc_of_video_misread hr hstream hcounts haudio
    (w.ctx.mov.lastPts .video+33)
  obtain ⟨file,hfile,htables,-⟩ :=
    mp4WriteTrailer_done hr.hasVideo hr.play (trakDefined_plain hr.tracks)
  let mov := writeLastPacket w.ctx.mov (w.ctx.mov.lastPts .video+33)
  have htracks : mov.tracks .video = some (plainTrack .h264) := by
    rw [(writeLastPacket_frame hr.hasVideo _).1,hr.tracks]
    rfl
  have hpos : mov.totalNum (.stsz, .video) > 0 := by
    rw [hread.stszTotal]
    unfold History.sizes
    rw [hchunks]
    simp
  have hsome : (trackTables mov .video).1 =
      some (writeStblTables mov (plainTrack .h264) .video).1 := by
    unfold trackTables
    rw [htracks]
    dsimp only
    rw [if_pos hpos]
  refine ⟨w,file,_,hw,hfile,htables.trans hsome,?_⟩
  rw [hread.sampleRanges hr.sound (by decide),hstsc,hr.ranges]
  unfold History.offsets History.sizes History.ranges
  rw [hchunks]
  exact locateSamples_ne

end TinaPackage.Mp4
