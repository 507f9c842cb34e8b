import TinaPackage.Mp4Samples

/-! Runs of packets over one video and one audio track. -/
namespace TinaPackage.Mp4

/-- The context has come from `mov` to the tables of `h`; the media data is not written yet. -/
def PacketEntered (mov : MuxMOVContext) (h : History) (mov' : MuxMOVContext) : Prop :=
  TablesMatch mov' h ∧ mov'.stscCnt = h.currentCount ∧ mov'.lastStreamIndex = h.stream ∧
    SameMedia mov mov'

section Tables
variable {mov : MuxMOVContext} {h : History} {trk : MOVTrack} {pkt : Packet}

theorem TablesMatch.addToChunk (hm : TablesMatch mov h) {s : CodecType}
    (hlast : mov.lastStreamIndex = h.stream) (hcnt : mov.stscCnt = h.currentCount)
    (hsmall : mov.stscCnt < 2^32)
    (hpos : h.stream ≠ some s → mov.mdatSize+mov.mdatStartPos < 2^32) (io : Mp4Io) :
    (addToChunk io mov s).Ensures fun mov' =>
      let h' := if h.stream = some s then h else h.openChunk s (mov.mdatSize+mov.mdatStartPos)
      TablesMatch mov' h' ∧ mov'.stscCnt = h'.currentCount ∧ SameSetup mov mov' := by
  unfold Mp4.addToChunk
  rw [hlast]
  by_cases hs : h.stream = some s
  · rw [if_pos hs,if_pos hs]
    exact ⟨hm,hcnt,(SameContext.refl mov).toSameSetup⟩
  · rw [if_neg hs,if_neg hs]
    apply (hm.startChunk hlast hs hcnt hsmall (hpos hs) io).imp
    rintro mov' ⟨hmatch,hzero,hsetup⟩
    exact ⟨hmatch,hzero,hsetup⟩

theorem isKeyFrame_congr {mov' : MuxMOVContext} (hk : mov'.keyframeNum = mov.keyframeNum) :
    isKeyFrame mov' trk pkt = isKeyFrame mov trk pkt := by
  unfold isKeyFrame
  rw [hk]

theorem addKeyFrame_cases
    (hkey : isKeyFrame mov trk pkt = some true → mov.keyFrameNum .video < keyframeCacheEntries) :
    (addKeyFrame mov trk pkt).Ensures fun mov' => ∃ frames num counter,
      mov' = { mov with cacheKeyframe := frames, keyFrameNum := num, keyframeNum := counter } := by
  unfold addKeyFrame
  match hframe : isKeyFrame mov trk pkt with
  | none => exact trivial
  | some false => exact ⟨mov.cacheKeyframe,mov.keyFrameNum,_,rfl⟩
  | some true =>
    rw [if_pos (hkey hframe)]
    exact ⟨_,_,_,rfl⟩

theorem TablesMatch.addKeyFrame (hm : TablesMatch mov h)
    (hkey : isKeyFrame mov trk pkt = some true → mov.keyFrameNum .video < keyframeCacheEntries) :
    (addKeyFrame mov trk pkt).Ensures fun mov' =>
      TablesMatch mov' h ∧ mov'.stscCnt = mov.stscCnt ∧
        mov'.lastStreamIndex = mov.lastStreamIndex ∧ SameMedia mov mov' := by
  apply (addKeyFrame_cases hkey).imp
  rintro mov' ⟨frames,num,counter,rfl⟩
  exact ⟨hm.congr (fun t => ⟨rfl,rfl,rfl,rfl,rfl,fun _ _ => rfl⟩) rfl, rfl,rfl,
    ⟨rfl,rfl,rfl,rfl,rfl⟩⟩

theorem TablesMatch.addVideoSample (hm : TablesMatch mov h)
    (hkey : pkt.streamIndex = .video → isKeyFrame mov trk pkt = some true →
      mov.keyFrameNum .video < keyframeCacheEntries) (io : Mp4Io) :
    (addVideoSample io mov trk pkt).Ensures fun mov' =>
      TablesMatch mov' h ∧ mov'.stscCnt = mov.stscCnt ∧
        mov'.lastStreamIndex = mov.lastStreamIndex ∧ SameMedia mov mov' := by
  unfold Mp4.addVideoSample
  match hs : pkt.streamIndex with
  | .audio => exact ⟨hm,rfl,rfl,(SameContext.refl mov).toSameMedia⟩
  | .video =>
    apply (addDuration_frame hm.stts pkt.pts io).bind
    rintro mov1 ⟨hframe,hptr⟩
    have hctx := hframe.context
    have hkey1 : isKeyFrame mov1 trk pkt = some true →
        mov1.keyFrameNum .video < keyframeCacheEntries := by
      rw [isKeyFrame_congr hctx.keyframeNum,hctx.keyFrameNum]
      exact hkey hs
    apply ((hm.of_frame rfl hframe hptr).addKeyFrame hkey1).imp
    rintro mov2 ⟨hmatch,hcnt,hlast,hmedia⟩
    exact ⟨hmatch,hcnt.trans hctx.stscCnt,hlast.trans hctx.lastStreamIndex,
      hctx.toSameMedia.trans hmedia⟩

theorem TablesMatch.addToTables (hm : TablesMatch mov h)
    (hlast : mov.lastStreamIndex = h.stream) (hcnt : mov.stscCnt = h.currentCount)
    (hsmall : mov.stscCnt < 2^32) (hpcm : trk.enc.codecId ≠ .pcm)
    (hpos : h.stream ≠ some pkt.streamIndex → mov.mdatSize+mov.mdatStartPos < 2^32)
    (hsize : packetSize trk pkt < 2^32)
    (hkey : pkt.streamIndex = .video → isKeyFrame mov trk pkt = some true →
      mov.keyFrameNum .video < keyframeCacheEntries) (io : Mp4Io) :
    (addToTables io mov trk pkt).Ensures (PacketEntered mov
      (h.addPacket pkt.streamIndex (mov.mdatSize+mov.mdatStartPos) (packetSize trk pkt))) := by
  apply (hm.addToChunk hlast hcnt hsmall hpos io).bind
  rintro mov1 ⟨hmatch1,hcnt1,hsetup1⟩
  -- `last_stream_index` is set between the chunk tables and the sample sizes
  let mov1' : MuxMOVContext := { mov1 with lastStreamIndex := some pkt.streamIndex }
  have hmatch1' : TablesMatch mov1'
      (if h.stream = some pkt.streamIndex then h
        else h.openChunk pkt.streamIndex (mov.mdatSize+mov.mdatStartPos)) :=
    hmatch1.congr (fun t => ⟨rfl,rfl,rfl,rfl,rfl,fun _ _ => rfl⟩) rfl
  have hstream : (if h.stream = some pkt.streamIndex then h
      else h.openChunk pkt.streamIndex (mov.mdatSize+mov.mdatStartPos)).stream =
        some pkt.streamIndex := by
    split
    · assumption
    · rfl
  apply (hmatch1'.addSample hpcm hstream hcnt1 hsize io).bind
  rintro mov2 ⟨hmatch2,hcnt2,hsetup2,hlast2⟩
  have hkey2 : pkt.streamIndex = .video → isKeyFrame mov2 trk pkt = some true →
      mov2.keyFrameNum .video < keyframeCacheEntries := by
    have hframes : mov2.keyframeNum = mov.keyframeNum := hsetup2.keyframeNum.trans
      hsetup1.keyframeNum
    have hnum : mov2.keyFrameNum = mov.keyFrameNum := hsetup2.keyFrameNum.trans hsetup1.keyFrameNum
    rw [isKeyFrame_congr hframes,hnum]
    exact hkey
  apply (hmatch2.addVideoSample hkey2 io).imp
  rintro mov3 ⟨hmatch3,hcnt3,hlast3,hmedia3⟩
  have hmedia2 : SameMedia mov mov2 := by
    have hmid : SameMedia mov mov1' :=
      ⟨hsetup1.mdatSize,hsetup1.mdatStartPos,hsetup1.playTimeLength,hsetup1.tracks,hsetup1.lastPts⟩
    exact hmid.trans hsetup2.toSameMedia
  refine ⟨hmatch3,hcnt3.trans hcnt2,?_,hmedia2.trans hmedia3⟩
  rw [History.stream_addPacket]
  exact hlast3.trans hlast2

end Tables

theorem length_mediaBytes (trk : MOVTrack) (pkt : Packet) :
    (mediaBytes trk pkt).length = packetSize trk pkt := by
  have hlen : (packetBytes trk pkt).length = pkt.buflen := by simp [packetBytes]
  unfold mediaBytes packetSize
  split
  · rw [List.length_append,hlen]
    rfl
  · rw [List.append_nil,hlen]

theorem writeMedia_ensures (io : Mp4Io) (c : Mp4MuxContext) (trk : MOVTrack) (pkt : Packet) :
    (writeMedia io c trk pkt).Ensures fun c' =>
      c'.written = c.written ++ mediaBytes trk pkt ∧
        c'.mov = addTime { c.mov with mdatSize := c.mov.mdatSize+packetSize trk pkt }
          pkt.streamIndex pkt.pts := by
  unfold writeMedia
  split_ifs
  · exact trivial
  · exact trivial
  · exact ⟨rfl,rfl⟩

def twoTracks (video audio : MOVTrack) : CodecType → Option MOVTrack
  | .video => some video
  | .audio => some audio

/-- The muxer with the byte ranges (position, length) of the packets of each track. -/
structure MediaWorld where
  ctx : Mp4MuxContext
  ranges : CodecType → List (ℕ × ℕ)

def mediaStart (mov : MuxMOVContext) : MediaWorld := ⟨mp4WriteHeader mov,fun _ => []⟩

def mediaStep (w : MediaWorld) (call : Mp4Io × Packet) : Outcome Mp4MuxContext MediaWorld :=
  (mp4WritePacket call.1 w.ctx call.2).bind fun ctx =>
    let range := (w.ctx.written.length, ctx.written.length-w.ctx.written.length)
    .done ⟨ctx,Function.update w.ranges call.2.streamIndex (w.ranges call.2.streamIndex ++ [range])⟩

def recordsKeyFrame (mov : MuxMOVContext) (pkt : Packet) : Bool :=
  match pkt.streamIndex, mov.tracks .video with
  | .video, some trk => isKeyFrame mov trk pkt = some true
  | _, _ => false

/-- The packet has a size the muxer can count with, a chunk that starts with it has a
32-bit offset, the sample count stays below 2^30 and a key frame has room in its cache. -/
def PacketFits (w : MediaWorld) (call : Mp4Io × Packet) : Prop :=
  call.2.buflen+2 < 2^31 ∧
    (w.ctx.mov.lastStreamIndex ≠ some call.2.streamIndex → w.ctx.written.length < 2^32) ∧
    w.ctx.mov.totalNum (.stsz, call.2.streamIndex) < 2^30 ∧
    (recordsKeyFrame w.ctx.mov call.2 = true → w.ctx.mov.keyFrameNum .video < keyframeCacheEntries)

instance (w : MediaWorld) (call : Mp4Io × Packet) : Decidable (PacketFits w call) :=
  inferInstanceAs (Decidable (_ ∧ _ ∧ _ ∧ _))

structure Recorded (video audio : MOVTrack) (w : MediaWorld) (h : History) : Prop where
  tables : TablesMatch w.ctx.mov h
  cnt : w.ctx.mov.stscCnt = h.currentCount
  last : w.ctx.mov.lastStreamIndex = h.stream
  tracks : w.ctx.mov.tracks = twoTracks video audio
  play : w.ctx.mov.playTimeLength = 0
  written : w.ctx.written.length = w.ctx.mov.mdatSize+w.ctx.mov.mdatStartPos
  sound : h.Sound w.ctx.written.length
  ranges : w.ranges = h.ranges

variable {video audio : MOVTrack} {w : MediaWorld}

theorem Recorded.hasVideo {h : History} (hr : Recorded video audio w h) :
    (w.ctx.mov.tracks .video).isSome = true := by
  rw [hr.tracks]
  rfl

theorem packetSize_lt {trk : MOVTrack} {pkt : Packet} (h : pkt.buflen+2 < 2^31) :
    packetSize trk pkt < 2^32 := by
  unfold packetSize
  split <;> omega

section
variable {h : History} (hr : Recorded video audio w h) {call : Mp4Io × Packet} {trk : MOVTrack}
  (htrk : twoTracks video audio call.2.streamIndex = some trk) (hpcm : trk.enc.codecId ≠ .pcm)
  (hfits : PacketFits w call)
include hr htrk hpcm hfits

theorem recorded_tables :
    (addToTables call.1 w.ctx.mov trk call.2).Ensures (PacketEntered w.ctx.mov
      (h.addPacket call.2.streamIndex w.ctx.written.length (packetSize trk call.2))) := by
  obtain ⟨hsize,hpos,-,hkey⟩ := hfits
  have hcount := hr.sound.currentCount_le
  rw [hr.last] at hpos
  rw [hr.written] at hpos ⊢
  apply hr.tables.addToTables hr.last hr.cnt _ hpcm hpos (packetSize_lt hsize) _ call.1
  · rw [hr.cnt]
    omega
  · intro hvideo hframe
    apply hkey
    unfold recordsKeyFrame
    rw [hr.tracks]
    rw [hvideo] at htrk
    simp [hvideo,htrk,hframe]

theorem recorded_step :
    (mediaStep w call).Ensures fun w' => Recorded video audio w'
      (h.addPacket call.2.streamIndex w.ctx.written.length (packetSize trk call.2)) ∧
        w'.ctx.written.length = w.ctx.written.length+packetSize trk call.2 := by
  unfold mediaStep mp4WritePacket
  rw [hr.tracks,htrk]
  apply Outcome.Ensures.bind (P := fun c' : Mp4MuxContext => ∃ mov', PacketEntered w.ctx.mov
      (h.addPacket call.2.streamIndex w.ctx.written.length (packetSize trk call.2)) mov' ∧
    c'.written = w.ctx.written ++ mediaBytes trk call.2 ∧
    c'.mov = addTime { mov' with mdatSize := mov'.mdatSize+packetSize trk call.2 }
      call.2.streamIndex call.2.pts)
  · apply ((recorded_tables hr htrk hpcm hfits).mapFailed _).bind
    intro mov' hmov'
    apply (writeMedia_ensures call.1 { w.ctx with mov := mov' } trk call.2).imp
    rintro c' ⟨hwritten,hc'⟩
    exact ⟨mov',hmov',hwritten,hc'⟩
  · rintro ⟨mov1,written1,gone1⟩ ⟨mov',⟨hmatch,hcnt,hlast,hmedia⟩,hwritten,rfl⟩
    have hlen : written1.length = w.ctx.written.length+packetSize trk call.2 := by
      rw [← length_mediaBytes,← List.length_append,← hwritten]
    refine ⟨?_,hlen⟩
    have hsamples : (h.sizes call.2.streamIndex).length < 2^30 := by
      rw [← (hr.tables.stsz call.2.streamIndex).total]
      exact hfits.2.2.1
    have hpos : h.stream ≠ some call.2.streamIndex → w.ctx.written.length < 2^32 := by
      rw [← hr.last]
      exact hfits.2.1
    exact
      { tables := hmatch.congr (fun t => ⟨rfl,rfl,rfl,rfl,rfl,fun _ _ => rfl⟩) rfl
        cnt := hcnt
        last := hlast
        tracks := hmedia.tracks.trans hr.tracks
        play := hmedia.playTimeLength.trans hr.play
        written := by
          change written1.length = mov'.mdatSize+packetSize trk call.2+mov'.mdatStartPos
          rw [hlen,hr.written,hmedia.mdatSize,hmedia.mdatStartPos]
          omega
        sound := by
          rw [hlen]
          exact hr.sound.addPacket _ hpos (packetSize_lt hfits.1) hsamples
        ranges := by
          funext u
          change Function.update w.ranges call.2.streamIndex
            (_ ++ [(_, written1.length-w.ctx.written.length)]) u = _
          rw [hr.sound.ranges_addPacket,hr.ranges,hlen,Nat.add_sub_cancel_left]
          by_cases hu : call.2.streamIndex = u
          · rw [hu,Function.update_self,if_pos rfl]
          · rw [Function.update_of_ne (Ne.symm hu),if_neg hu,List.append_nil] }

end

theorem holds_init (mov : MuxMOVContext) (t : TableKey) (hw : mov.cacheWritePtr t = cacheStart t)
    (hr : mov.cacheReadPtr t = cacheStart t) (hs : mov.cacheSize t = 0) (hn : mov.totalNum t = 0)
    (hf : mov.tmpFile t = []) : Holds mov t [] 0 where
  readPtr := by rw [hr,Nat.zero_mul,Nat.zero_mod,Nat.add_zero]
  spilled := by rw [hf]; exact Spilled.empty _ _ _
  writePtr := by rw [hw,List.length_nil,Nat.zero_mod,Nat.add_zero]
  size := by rw [hs,Nat.zero_mul,List.length_nil]
  size_lt := by rw [hs]; exact cacheCap_pos t.1
  relieved := by simp
  total := hn

theorem length_header : (fileWriteFtypTag ++ fileWriteMdatTag).length = 0+36 := by decide

theorem recorded_start (video audio : MOVTrack) (cache cacheKeyframe : ℕ → ℕ) (createTime : ℤ)
    (geo : Option (ℤ × ℤ)) :
    Recorded video audio
      (mediaStart (initMov (twoTracks video audio) cache cacheKeyframe createTime 0 geo))
      History.empty where
  tables :=
    { stco := fun s => holds_init _ (.stco, s) rfl rfl rfl rfl rfl
      stsz := fun s => holds_init _ (.stsz, s) rfl rfl rfl rfl rfl
      stsc := fun s => holds_init _ (.stsc, s) rfl rfl rfl rfl rfl
      stts := ⟨0,by decide,rfl⟩ }
  cnt := rfl
  last := rfl
  tracks := rfl
  play := rfl
  written := length_header
  sound := History.Sound.empty _
  ranges := rfl

theorem recorded_run (hvideo : video.enc.codecId ≠ .pcm) (haudio : audio.enc.codecId ≠ .pcm)
    (calls : List (Mp4Io × Packet)) (hw : ∃ h, Recorded video audio w h)
    (hfits : GuardedCalls mediaStep PacketFits w calls) :
    (runCalls mediaStep w calls).Ensures fun w' => ∃ h, Recorded video audio w' h := by
  apply runCalls_invariant _ _ calls w hw hfits
  rintro v call ⟨h,hr⟩ hcall
  obtain ⟨trk,htrk,hpcm⟩ : ∃ trk, twoTracks video audio call.2.streamIndex = some trk ∧
      trk.enc.codecId ≠ .pcm := by
    cases call.2.streamIndex with
    | video => exact ⟨video,rfl,hvideo⟩
    | audio => exact ⟨audio,rfl,haudio⟩
  apply (recorded_step hr htrk hpcm hcall).imp
  rintro v' ⟨hr',-⟩
  exact ⟨_,hr'⟩

end TinaPackage.Mp4
