import TinaPackage.Mp4Moov
import TinaPackage.Mp4Readback
import TinaPackage.Mp4Runs

/-! The sample tables that the trailer writes. -/
namespace TinaPackage.Mp4
open Function List History

/-- The tables of a track that its samples stand in can be read back. -/
structure SamplesReadable (mov : MuxMOVContext) (h : History) (s : CodecType) : Prop where
  stco : Readable mov (.stco, s) (h.offsets s) (mov.tinyPages (.stco, s))
  stcoTotal : mov.totalNum (.stco, s) = (h.offsets s).length
  stsz : Readable mov (.stsz, s) (h.sizes s) (mov.tinyPages (.stsz, s))
  stszTotal : mov.totalNum (.stsz, s) = (h.sizes s).length

/-- The stsc table can be read back too, and has all chunks. -/
structure TrackReadable (mov : MuxMOVContext) (h : History) (s : CodecType) : Prop
    extends SamplesReadable mov h s where
  stsc : Readable mov (.stsc, s) ((h.chunks s).map fun c => c.sizes.length)
    (mov.tinyPages (.stsc, s))
  stscTotal : mov.totalNum (.stsc, s) = (h.chunks s).length

variable {mov : MuxMOVContext} {t : TableKey} {p : ℕ}

theorem Readable.putWord {vals : List ℕ} {pages : ℕ} (h : Readable mov t vals pages)
    (hw : mov.cacheWritePtr t = cacheStart t+p)
    (hp : p = vals.length % cacheCap t.1 ∧ vals.length < pages*tinyPageSize+cacheCap t.1 ∨
      p = cacheCap t.1) (x : ℤ) : Readable (putWord mov t x) t vals pages where
  readPtr := h.readPtr
  spilled := by
    rw [cells_putWord x hw]
    rcases hp with ⟨rfl,hroom⟩ | rfl
    · exact h.spilled.write_free hroom (toWord x)
    · apply h.spilled.congr (cacheCap_pos t.1)
      intro j hj
      exact update_of_ne (by omega) _ _

variable {u : TableKey}

theorem putWord_stsc_audio_sameTable (hp : p ≤ 8192)
    (hw : mov.cacheWritePtr (.stsc, .audio) = cacheStart (.stsc, .audio)+p)
    (hu : u ≠ (.stsc, .audio)) (hstts : u.1 ≠ .stts) (x : ℤ) :
    SameTable u mov (putWord mov (.stsc, .audio) x) where
  writePtr := update_of_ne hu _ _
  readPtr := rfl
  size := rfl
  total := rfl
  tmpFile := rfl
  cells j hj := by
    have hne : cacheStart u+j ≠ mov.cacheWritePtr (.stsc, .audio) := by
      obtain ⟨id,s⟩ := u
      cases id <;> cases s <;> simp only [cacheStart,cacheCap,ne_eq,not_true_eq_false] at * <;>
        omega
    exact update_of_ne hne _ _

/-- What the trailer needs: both tracks have spilled equally many pages of their stsc tables, the
store meant for the stts table does not meet a full audio stsc cache away from its end, and the trak
boxes are defined. -/
def TrailerFits (mov : MuxMOVContext) : Prop :=
  mov.tinyPages (.stsc, .video) = mov.tinyPages (.stsc, .audio) ∧
    (mov.lastStreamIndex = some .audio →
      mov.cacheSize (.stsc, .audio)+1 < cacheCap .stsc ∨
        mov.cacheWritePtr (.stsc, .audio) = cacheEnd (.stsc, .audio)) ∧
    trakDefined mov .video = true ∧ trakDefined mov .audio = true

instance (mov : MuxMOVContext) : Decidable (TrailerFits mov) :=
  inferInstanceAs (Decidable (_ ∧ _ ∧ _ ∧ _))

section LastPacket
variable {mov : MuxMOVContext} {h : History} {last : CodecType}

theorem TablesMatch.putLast_sameTable (hm : TablesMatch mov h) (hu : u ≠ (.stsc, last)) :
    SameTable u mov (putLastCount mov last) :=
  (putWord_sameTable (hm.stsc last).ptrInside hu _).trans (countTotal_sameTable hu)

section
variable (hm : TablesMatch mov h) (hs : h.stream = some last)
include hm hs

theorem TablesMatch.putLast_stsc (hcnt : mov.stscCnt = h.currentCount)
    (hsmall : mov.stscCnt < 2^32) :
    Readable (putLastCount mov last) (.stsc, last) ((h.chunks last).map fun c => c.sizes.length)
      (mov.tinyPages (.stsc, last.other)) := by
  have hread := (hm.stsc last).readable_putWord mov.stscCnt
  rw [toWord_natCast hsmall,hcnt,← currentOf_counts hs,counts_append_currentOf] at hread
  exact ⟨by rw [← hread.readPtr]; rfl,by rw [putLastCount,hcnt]; exact hread.spilled⟩

theorem TablesMatch.putLast_other :
    Readable (putLastCount mov last) (.stsc, last.other)
      ((h.chunks last.other).map fun c => c.sizes.length) (mov.tinyPages (.stsc, last)) := by
  have hne : last.other ≠ last := CodecType.other_ne last
  have hkey : (MuxChunkID.stsc, last.other) ≠ (MuxChunkID.stsc, last) := by simp [hne]
  have hread := (hm.putLast_sameTable hkey).readable (hm.stsc last.other).toReadable
  rw [← counts_append_currentOf,currentOf_of_stream_ne last.other
    (by simp [hs,Ne.symm hne]),map_nil,append_nil]
  have hback : last.other.other = last := by cases last <;> rfl
  rwa [hback] at hread

theorem TablesMatch.stray_free (hfits : TrailerFits mov) (hlast : mov.lastStreamIndex = h.stream) :
    ∃ p ≤ 8192, (putLastCount mov last).cacheWritePtr (.stsc, .audio) = cacheStart (.stsc, .audio) +
    p ∧
      (p = ((h.chunks .audio).map fun c => c.sizes.length).length % cacheCap .stsc ∧
        ((h.chunks .audio).map fun c => c.sizes.length).length <
          mov.tinyPages (.stsc, .video)*tinyPageSize+cacheCap .stsc ∨ p = cacheCap .stsc) := by
  have hholds : Holds mov (.stsc, .audio) (h.counts .audio) (mov.tinyPages (.stsc, .video)) :=
    hm.stsc .audio
  have hsize := hholds.size
  have hlt := hholds.size_lt
  have hcap : cacheCap MuxChunkID.stsc = 8192 := rfl
  have hcounts := counts_append_currentOf (h := h) .audio
  cases last with
  | video =>
    -- the pointer is where the last audio chunk left it
    have hnone : h.currentOf .audio = [] :=
      currentOf_of_stream_ne .audio (by simp [hs])
    rw [hnone,map_nil,append_nil] at hcounts
    have hmod := Nat.mod_lt (h.counts .audio).length (cacheCap_pos .stsc)
    refine ⟨(h.counts .audio).length % cacheCap .stsc,by omega,?_,Or.inl ⟨by rw [hcounts],?_⟩⟩
    · exact (hm.putLast_sameTable (by simp)).writePtr.trans hholds.writePtr
    · rw [← hcounts]
      change mov.cacheSize (.stsc, .audio) < 8192 at hlt
      omega
  | audio =>
    -- the pointer has just moved over the last audio chunk
    rw [currentOf_counts hs] at hcounts
    have hmod := Nat.mod_lt (h.counts .audio).length (cacheCap_pos .stsc)
    have hptr : (putLastCount mov .audio).cacheWritePtr (.stsc, .audio) =
        cacheStart (.stsc, .audio)+((h.counts .audio).length % cacheCap .stsc+1) := by
      rw [← Nat.add_assoc,← hholds.writePtr]
      exact update_self (.stsc, .audio) _ mov.cacheWritePtr
    refine ⟨(h.counts .audio).length % cacheCap .stsc+1,by omega,hptr,?_⟩
    rw [← hcounts,length_append,length_singleton]
    rcases hfits.2.1 (hlast.trans hs) with hroom | hend
    · by_cases hwrap : (h.counts .audio).length % cacheCap .stsc+1 = cacheCap .stsc
      · exact Or.inr hwrap
      · refine Or.inl ⟨?_,by omega⟩
        have hstep := Nat.mod_add_mod (h.counts .audio).length (cacheCap .stsc) 1
        exact (Nat.mod_eq_of_lt (by omega)).symm.trans hstep
    · rw [hholds.writePtr] at hend
      unfold cacheEnd at hend
      exact Or.inr (by dsimp only at hend; omega)

end

theorem writeLastPacket_eq (hvideo : (mov.tracks .video).isSome = true)
    (hlast : mov.lastStreamIndex = some last) (pts : ℤ) :
    ∃ x durations, writeLastPacket mov pts =
      { putWord (putLastCount mov last) (.stsc, .audio) x with trackDuration := durations } := by
  have hput : ((putLastCount mov last).tracks .video).isSome = true := hvideo
  unfold writeLastPacket putLastDuration
  rw [hlast]
  dsimp only
  rw [if_pos hput]
  exact ⟨_,_,rfl⟩

theorem TablesMatch.writeLastPacket (hm : TablesMatch mov h)
    (hvideo : (mov.tracks .video).isSome = true) (hlast : mov.lastStreamIndex = h.stream)
    (hcnt : mov.stscCnt = h.currentCount) (hsmall : mov.stscCnt < 2^32)
    (hfits : TrailerFits mov) (pts : ℤ) (s : CodecType) :
    TrackReadable (writeLastPacket mov pts) h s := by
  match hs : h.stream with
  | none =>
    -- no packet was written, so no chunk is open
    have heq : Mp4.writeLastPacket mov pts = mov := by
      unfold Mp4.writeLastPacket
      rw [hlast,hs]
    have hcounts := counts_append_currentOf (h := h) s
    rw [currentOf_of_stream_ne s (by simp [hs]),map_nil,append_nil] at hcounts
    have hpages : mov.tinyPages (.stsc, s) = mov.tinyPages (.stsc, s.other) := by
      cases s
      · exact hfits.1
      · exact hfits.1.symm
    rw [heq]
    exact
      { stco := (hm.stco s).toReadable
        stcoTotal := (hm.stco s).total
        stsz := (hm.stsz s).toReadable
        stszTotal := (hm.stsz s).total
        stsc := by rw [← hcounts,hpages]; exact (hm.stsc s).toReadable
        stscTotal := by rw [← length_map (fun c => c.sizes.length), ← hcounts]
                        exact (hm.stsc s).total }
  | some last =>
    obtain ⟨x,durations,heq⟩ := writeLastPacket_eq hvideo (hlast.trans hs) pts
    obtain ⟨p,hp,hw,hfree⟩ := hm.stray_free hs hfits hlast
    have hstray : ∀ u ≠ (MuxChunkID.stsc, CodecType.audio), u.1 ≠ .stts →
        SameTable u (putLastCount mov last) (Mp4.writeLastPacket mov pts) := by
      intro u hu hstts
      have hsame := putWord_stsc_audio_sameTable hp hw hu hstts x
      rw [heq]
      exact { hsame with }
    have hpages : (Mp4.writeLastPacket mov pts).tinyPages = mov.tinyPages := by rw [heq]; rfl
    have htable : ∀ u : TableKey, u.1 ≠ .stsc → u.1 ≠ .stts →
        SameTable u mov (Mp4.writeLastPacket mov pts) := by
      intro u hstsc hstts
      exact (hm.putLast_sameTable (by rintro rfl; simp at hstsc)).trans
        (hstray u (by rintro rfl; simp at hstsc) hstts)
    -- both stsc tables before the stray store, with the page count of their own track
    have hbefore : Readable (putLastCount mov last) (.stsc, s)
        ((h.chunks s).map fun c => c.sizes.length) (mov.tinyPages (.stsc, .video)) := by
      by_cases hsl : s = last
      · have hread := hm.putLast_stsc hs hcnt hsmall
        rw [hsl]
        cases last
        · rwa [show CodecType.video.other = .audio from rfl,← hfits.1] at hread
        · exact hread
      · have hread := hm.putLast_other hs
        rw [CodecType.other_of_ne (Ne.symm hsl)] at hread
        cases last
        · exact hread
        · rwa [← hfits.1] at hread
    have hstsc : Readable (Mp4.writeLastPacket mov pts) (.stsc, s)
        ((h.chunks s).map fun c => c.sizes.length) (mov.tinyPages (.stsc, .video)) := by
      cases s with
      | video => exact (hstray _ (by simp) (by simp)).readable hbefore
      | audio =>
        have hread := hbefore.putWord hw hfree x
        rw [heq]
        exact ⟨hread.readPtr,hread.spilled⟩
    have htotal : (Mp4.writeLastPacket mov pts).totalNum (.stsc, s) = (h.chunks s).length := by
      have hlen := congrArg length (counts_append_currentOf (h := h) s)
      rw [length_append,length_map,length_map] at hlen
      have hput : (Mp4.writeLastPacket mov pts).totalNum (.stsc, s) =
          update mov.totalNum (.stsc, last) (mov.totalNum (.stsc, last)+1) (.stsc, s) := by
        rw [heq]
        rfl
      rw [hput,← hlen]
      by_cases hsl : s = last
      · have hone := congrArg length (currentOf_counts hs)
        rw [length_map,length_singleton] at hone
        rw [hsl,update_self,(hm.stsc last).total,hone]
      · rw [update_of_ne (by simp [hsl]),(hm.stsc s).total,
          currentOf_of_stream_ne s (by simp [hs,Ne.symm hsl]),length_nil,Nat.add_zero]
    have hstco := htable (.stco, s) (by simp) (by simp)
    have hstsz := htable (.stsz, s) (by simp) (by simp)
    exact
      { stco := by rw [hpages]; exact hstco.readable (hm.stco s).toReadable
        stcoTotal := hstco.total.trans (hm.stco s).total
        stsz := by rw [hpages]; exact hstsz.readable (hm.stsz s).toReadable
        stszTotal := hstsz.total.trans (hm.stsz s).total
        stsc := by
          rw [hpages]
          cases s
          · exact hstsc
          · rw [← hfits.1]; exact hstsc
        stscTotal := htotal }

end LastPacket

structure TrackFrame (s : CodecType) (mov mov' : MuxMOVContext) : Prop where
  context : SameContext mov mov'
  tables : ∀ u : TableKey, u.2 ≠ s → SameTable u mov mov'
  total : mov'.totalNum = mov.totalNum
  pages : mov'.tinyPages = mov.tinyPages

theorem TrackFrame.refl (s : CodecType) (mov : MuxMOVContext) : TrackFrame s mov mov :=
  ⟨SameContext.refl mov,fun u _ => SameTable.refl u mov, rfl,rfl⟩

variable {s : CodecType}

theorem TrackFrame.trans {mov mov' mov'' : MuxMOVContext} (h : TrackFrame s mov mov')
    (h' : TrackFrame s mov' mov'') : TrackFrame s mov mov'' where
  context := h.context.trans h'.context
  tables u hu := (h.tables u hu).trans (h'.tables u hu)
  total := h'.total.trans h.total
  pages := h'.pages.trans h.pages

variable {mov mov' : MuxMOVContext}

theorem ReadFrame.trackFrame (h : ReadFrame t mov mov') : TrackFrame t.2 mov mov' where
  __ := h
  tables u hu := h.tables u (by rintro rfl; exact hu rfl)

section Boxes
variable {mov mov' : MuxMOVContext} {h : History} {s : CodecType} {trk : MOVTrack}

section
variable (mov : MuxMOVContext)

theorem stblWriteSttsTag_frame (trk : MOVTrack) (s : CodecType) :
    TrackFrame s mov (stblWriteSttsTag mov trk s).2 ∧
      ∀ u : TableKey, u.1 ≠ .stts → SameTable u mov (stblWriteSttsTag mov trk s).2 := by
  cases s with
  | audio => exact ⟨TrackFrame.refl _ mov,fun u _ => SameTable.refl u mov⟩
  | video =>
    have hframe := tableWords_frame (t := (.stts, .video)) (le_refl tinyPageSize) mov
    simp only [stblWriteSttsTag,videoDurations]
    split
    · exact ⟨TrackFrame.refl _ mov,fun u _ => SameTable.refl u mov⟩
    · exact ⟨hframe.trackFrame,fun u hu => hframe.tables u (by rintro rfl; exact hu rfl)⟩

theorem stblWriteStscTag_frame (s : CodecType) :
    ReadFrame (.stsc, s) mov (stblWriteStscTag mov s).2 :=
  tableWords_frame (by decide) mov

theorem stblWriteStszTag_frame (trk : MOVTrack) (s : CodecType) :
    ReadFrame (.stsz, s) mov (stblWriteStszTag mov trk s).2 := by
  unfold stblWriteStszTag
  split
  · exact ReadFrame.refl _ mov
  · exact tableWords_frame le_rfl mov

theorem stblWriteStcoTag_frame (s : CodecType) :
    ReadFrame (.stco, s) mov (stblWriteStcoTag mov s).2 :=
  tableWords_frame le_rfl mov

theorem trackTables_frame (s : CodecType) : TrackFrame s mov (trackTables mov s).2 := by
  unfold trackTables
  split
  · exact TrackFrame.refl s mov
  · split
    · exact (((stblWriteSttsTag_frame mov _ s).1.trans
        (stblWriteStscTag_frame _ s).trackFrame).trans
        (stblWriteStszTag_frame _ _ s).trackFrame).trans (stblWriteStcoTag_frame _ s).trackFrame
    · exact TrackFrame.refl s mov

end

variable {fileEnd : ℕ}

theorem stscBox_decodes
    (hr : Readable mov (.stsc, s)
      ((h.chunks s).map fun c => c.sizes.length) (mov.tinyPages (.stsc, s)))
    (htotal : mov.totalNum (.stsc, s) = (h.chunks s).length) (hsound : h.Sound fileEnd) :
    decodeStsc (stblWriteStscTag mov s).1 =
      entryPerChunk ((h.chunks s).map fun c => c.sizes.length) := by
  have hlen : ((h.chunks s).map fun c => c.sizes.length).length < 2^32 := by
    rw [length_map]
    have := hsound.length_chunks s
    omega
  have hsmall : ∀ w ∈ (h.chunks s).map fun c => c.sizes.length, w < 2^32 := by
    intro w hw
    obtain ⟨c,hc,rfl⟩ := mem_map.mp hw
    have := hsound.length_sizes_le s c hc
    omega
  unfold stblWriteStscTag
  dsimp only
  rw [tableWords_readable (one_dvd _) hr (by rw [htotal,length_map]),append_assoc,
    htotal,← length_map (fun c => c.sizes.length)]
  exact decodeStsc_table rfl hlen hsmall

theorem stszBox_decodes (hpcm : trk.enc.codecId ≠ .pcm)
    (hr : Readable mov (.stsz, s) (h.sizes s) (mov.tinyPages (.stsz, s)))
    (htotal : mov.totalNum (.stsz, s) = (h.sizes s).length) (hsound : h.Sound fileEnd) :
    decodeStsz (stblWriteStszTag mov trk s).1 = h.sizes s := by
  have hlen : (h.sizes s).length < 2^32 := by
    have := hsound.few s
    omega
  have hsmall : ∀ w ∈ h.sizes s, w < 2^32 := by
    intro w hw
    obtain ⟨c,hc,hw⟩ := mem_flatMap.mp hw
    exact (hsound.chunks s c hc).2.2 w hw
  unfold stblWriteStszTag
  rw [if_neg hpcm]
  dsimp only
  rw [tableWords_readable (dvd_refl _) hr htotal,htotal,append_assoc,append_assoc]
  rw [decodeStsz_table rfl hlen,map_mod_of_lt hsmall]

theorem stcoBox_decodes (hr : Readable mov (.stco, s) (h.offsets s) (mov.tinyPages (.stco, s)))
    (htotal : mov.totalNum (.stco, s) = (h.offsets s).length) (hsound : h.Sound fileEnd) :
    decodeStco (stblWriteStcoTag mov s).1 = h.offsets s := by
  have hlen : (h.offsets s).length < 2^32 := by
    unfold offsets
    rw [length_map]
    have := hsound.length_chunks s
    omega
  have hsmall : ∀ w ∈ h.offsets s, w < 2^32 := by
    intro w hw
    obtain ⟨c,hc,rfl⟩ := mem_map.mp hw
    exact (hsound.chunks s c hc).1
  unfold stblWriteStcoTag
  dsimp only
  rw [tableWords_readable (dvd_refl _) hr htotal,htotal,append_assoc]
  rw [decodeStco_table rfl hlen,map_mod_of_lt hsmall]

theorem SamplesReadable.sampleRanges (hr : SamplesReadable mov h s) (hsound : h.Sound fileEnd)
    (hpcm : trk.enc.codecId ≠ .pcm) :
    sampleRanges (writeStblTables mov trk s).1.stco (writeStblTables mov trk s).1.stsc
      (writeStblTables mov trk s).1.stsz =
      locateSamples (h.offsets s)
        (decodeStsc (stblWriteStscTag (stblWriteSttsTag mov trk s).2 s).1) (h.sizes s) := by
  -- the boxes are written one after the other, each in the state the one before left
  let mov1 := (stblWriteSttsTag mov trk s).2
  let mov2 := (stblWriteStscTag mov1 s).2
  let mov3 := (stblWriteStszTag mov2 trk s).2
  obtain ⟨hframe1,hsame1⟩ := stblWriteSttsTag_frame mov trk s
  have hframe2 : ReadFrame (.stsc, s) mov1 mov2 := stblWriteStscTag_frame mov1 s
  have hframe3 : ReadFrame (.stsz, s) mov2 mov3 := stblWriteStszTag_frame mov2 trk s
  have hpages2 : mov2.tinyPages = mov.tinyPages := hframe2.pages.trans hframe1.pages
  have htotal2 : mov2.totalNum = mov.totalNum := hframe2.total.trans hframe1.total
  have hstsz : decodeStsz (stblWriteStszTag mov2 trk s).1 = h.sizes s := by
    apply stszBox_decodes hpcm _ _ hsound
    · rw [hpages2]
      exact ((hsame1 _ (by simp)).trans (hframe2.tables _ (by simp))).readable hr.stsz
    · rw [htotal2]
      exact hr.stszTotal
  have hstco : decodeStco (stblWriteStcoTag mov3 s).1 = h.offsets s := by
    apply stcoBox_decodes _ _ hsound
    · rw [hframe3.pages,hpages2]
      exact (((hsame1 _ (by simp)).trans (hframe2.tables _ (by simp))).trans
        (hframe3.tables _ (by simp))).readable hr.stco
    · rw [hframe3.total,htotal2]
      exact hr.stcoTotal
  change locateSamples (decodeStco (stblWriteStcoTag mov3 s).1)
    (decodeStsc (stblWriteStscTag mov1 s).1) (decodeStsz (stblWriteStszTag mov2 trk s).1) = _
  rw [hstco,hstsz]

theorem TrackReadable.sampleRanges (hr : TrackReadable mov h s) (hsound : h.Sound fileEnd)
    (hpcm : trk.enc.codecId ≠ .pcm) :
    sampleRanges (writeStblTables mov trk s).1.stco (writeStblTables mov trk s).1.stsc
      (writeStblTables mov trk s).1.stsz = h.ranges s := by
  obtain ⟨hframe,hsame⟩ := stblWriteSttsTag_frame mov trk s
  have hstsc : decodeStsc (stblWriteStscTag (stblWriteSttsTag mov trk s).2 s).1 =
      entryPerChunk ((h.chunks s).map fun c => c.sizes.length) := by
    apply stscBox_decodes _ _ hsound
    · rw [hframe.pages]
      exact (hsame _ (by simp)).readable hr.stsc
    · rw [hframe.total]
      exact hr.stscTotal
  rw [hr.toSamplesReadable.sampleRanges hsound hpcm,hstsc]
  exact locateSamples_history s

end Boxes

/-- The tables of a track locate its samples in the given ranges; a track without samples
has no tables. -/
def Locates (tables : Option StblTables) (ranges : List (ℕ × ℕ)) : Prop :=
  match tables with
  | none => ranges = []
  | some t => sampleRanges t.stco t.stsc t.stsz = ranges

variable {h : History}

theorem TrackReadable.locates (hr : TrackReadable mov h s) {fileEnd : ℕ} (hsound : h.Sound fileEnd)
    {trk : MOVTrack} (htrk : mov.tracks s = some trk) (hpcm : trk.enc.codecId ≠ .pcm) :
    Locates (trackTables mov s).1 (h.ranges s) := by
  unfold trackTables
  rw [htrk]
  dsimp only
  split
  case isTrue hpos => exact hr.sampleRanges hsound hpcm
  case isFalse hzero =>
    have hnil : (h.chunks s).length = 0 := by
      have hle := length_le_flatMap_sizes (hsound.chunks s)
      have htotal := hr.stszTotal
      unfold sizes at htotal
      omega
    change (h.chunks s).flatMap Chunk.ranges = []
    rw [eq_nil_of_length_eq_zero hnil,flatMap_nil]

theorem TrackReadable.of_trackFrame {s t : CodecType} (hr : TrackReadable mov h s)
    (hframe : TrackFrame t mov mov') (hst : s ≠ t) :
    TrackReadable mov' h s where
  stco := by rw [hframe.pages]; exact (hframe.tables _ hst).readable hr.stco
  stcoTotal := by rw [hframe.total]; exact hr.stcoTotal
  stsz := by rw [hframe.pages]; exact (hframe.tables _ hst).readable hr.stsz
  stszTotal := by rw [hframe.total]; exact hr.stszTotal
  stsc := by rw [hframe.pages]; exact (hframe.tables _ hst).readable hr.stsc
  stscTotal := by rw [hframe.total]; exact hr.stscTotal

theorem trakDefined_congr (htracks : mov'.tracks = mov.tracks)
    (htotal : mov'.totalNum (.stsz, s) = mov.totalNum (.stsz, s)) :
    trakDefined mov' s = trakDefined mov s := by
  unfold trakDefined writtenTrack
  rw [htracks,htotal]

theorem writeLastPacket_frame (hvideo : (mov.tracks .video).isSome = true) (pts : ℤ) :
    (writeLastPacket mov pts).tracks = mov.tracks ∧
      (writeLastPacket mov pts).playTimeLength = mov.playTimeLength ∧
      ∀ t : TableKey, t.1 ≠ .stsc → (writeLastPacket mov pts).totalNum t = mov.totalNum t := by
  match hs : mov.lastStreamIndex with
  | none =>
    have heq : writeLastPacket mov pts = mov := by
      unfold writeLastPacket
      rw [hs]
    rw [heq]
    exact ⟨rfl,rfl,fun _ _ => rfl⟩
  | some last =>
    obtain ⟨x,durations,heq⟩ := writeLastPacket_eq hvideo hs pts
    rw [heq]
    refine ⟨rfl,rfl,fun t ht => ?_⟩
    have hne : t ≠ (MuxChunkID.stsc, last) := by
      intro h
      exact ht (congrArg Prod.fst h)
    exact update_of_ne hne (mov.totalNum (.stsc, last)+1) mov.totalNum

theorem mp4WriteTrailer_done {c : Mp4MuxContext} (hvideo : (c.mov.tracks .video).isSome = true)
    (hplay : c.mov.playTimeLength = 0) (hdefined : ∀ s, trakDefined c.mov s = true) :
    let mov := writeLastPacket c.mov (c.mov.lastPts .video+33)
    ∃ file, mp4WriteTrailer c = .done file ∧
      file.moov.tables .video = (trackTables mov .video).1 ∧
      file.moov.tables .audio = (trackTables (trackTables mov .video).2 .audio).1 := by
  intro mov
  obtain ⟨htracks,hplay',htotal⟩ := writeLastPacket_frame hvideo (c.mov.lastPts .video+33)
  have hdef : ∀ s, trakDefined mov s = true := by
    intro s
    rw [trakDefined_congr htracks (htotal _ (by simp))]
    exact hdefined s
  have hsome : (mov.tracks .video).isSome = true := by
    rw [htracks]
    exact hvideo
  unfold mp4WriteTrailer
  rw [if_neg (by rw [Option.isNone_iff_eq_none,← Option.not_isSome_iff_eq_none]; simp [hvideo])]
  dsimp only
  rw [if_neg (by rw [hplay',hplay]; simp)]
  change ∃ file, ((fileWriteMoovTag mov).bind _) = .done file ∧ _
  unfold fileWriteMoovTag
  rw [if_pos ⟨hsome,hdef .video,hdef .audio⟩]
  exact ⟨_,rfl,rfl,rfl⟩

theorem Recorded.trailer {video audio : MOVTrack} (hvideo : video.enc.codecId ≠ .pcm)
    (haudio : audio.enc.codecId ≠ .pcm) {w : MediaWorld} (hr : Recorded video audio w h)
    (hfits : TrailerFits w.ctx.mov) :
    ∃ file, mp4WriteTrailer w.ctx = .done file ∧
      ∀ s, Locates (file.moov.tables s) (w.ranges s) := by
  have hcount := hr.sound.currentCount_le
  have hdefined : ∀ s, trakDefined w.ctx.mov s = true := by
    intro s
    cases s
    · exact hfits.2.2.1
    · exact hfits.2.2.2
  obtain ⟨file,hdone,htv,hta⟩ := mp4WriteTrailer_done hr.hasVideo hr.play hdefined
  let mov := writeLastPacket w.ctx.mov (w.ctx.mov.lastPts .video+33)
  have hread : ∀ s, TrackReadable mov h s :=
    hr.tables.writeLastPacket hr.hasVideo hr.last hr.cnt (by rw [hr.cnt]; omega) hfits _
  have htracks : mov.tracks = twoTracks video audio :=
    (writeLastPacket_frame hr.hasVideo _).1.trans hr.tracks
  have hframe := trackTables_frame mov .video
  refine ⟨file,hdone,?_⟩
  intro s
  rw [hr.ranges]
  cases s with
  | video =>
    rw [htv]
    exact (hread .video).locates hr.sound (by rw [htracks]; rfl) hvideo
  | audio =>
    rw [hta]
    apply ((hread .audio).of_trackFrame hframe (by decide)).locates hr.sound _ haudio
    rw [hframe.context.tracks,htracks]
    rfl

/-- In every run of packets that fit, a trailer written in a state that fits has tables that
locate every packet where it was written. -/
theorem sample_tables_locate_every_packet {video audio : MOVTrack}
    (hvideo : video.enc.codecId ≠ .pcm) (haudio : audio.enc.codecId ≠ .pcm)
    (cache cacheKeyframe : ℕ → ℕ) (createTime : ℤ) (geo : Option (ℤ × ℤ))
    (calls : List (Mp4Io × Packet))
    (hfits : GuardedCalls mediaStep PacketFits
      (mediaStart (initMov (twoTracks video audio) cache cacheKeyframe createTime 0 geo)) calls) :
    (runCalls mediaStep
      (mediaStart (initMov (twoTracks video audio) cache cacheKeyframe createTime 0 geo))
        calls).Ensures fun w => TrailerFits w.ctx.mov →
      ∃ file, mp4WriteTrailer w.ctx = .done file ∧
        ∀ s, Locates (file.moov.tables s) (w.ranges s) := by
  apply (recorded_run hvideo haudio calls
    ⟨_,recorded_start video audio cache cacheKeyframe createTime geo⟩ hfits).imp
  rintro w ⟨h,hr⟩ htrailer
  exact hr.trailer hvideo haudio htrailer

end TinaPackage.Mp4
