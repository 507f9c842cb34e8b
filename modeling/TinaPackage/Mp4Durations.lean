import TinaPackage.Mp4Counters
import TinaPackage.Mp4Progress

/-! The stts table of the video track. A duration is stored when the packet after it arrives,
but a word is counted for every packet, and the writer skips the first word of the table. -/
namespace TinaPackage.Mp4
open Function List

/-- The words that a sequence of times leaves in the table: a time is taken for a first one
as long as the time before it is not positive. -/
def storedDurations : List ℤ → List ℕ
  | p :: q :: ps => (if 0 < p then [toWord (q-p)] else []) ++ storedDurations (q :: ps)
  | _ => []

theorem storedDurations_concat (ps : List ℤ) (p : ℤ) :
    storedDurations (ps ++ [p]) = storedDurations ps ++
      if 0 < ps.getLastD 0 then [toWord (p-ps.getLastD 0)] else [] := by
  induction ps with
  | nil => rfl
  | cons q ps ih =>
    cases ps with
    | nil =>
      change (if 0 < q then [toWord (p-q)] else []) ++ [] = _
      rw [append_nil]
      rfl
    | cons r ps =>
      change (if 0 < q then [toWord (r-q)] else []) ++ storedDurations ((r :: ps) ++ [p]) = _
      rw [ih,← append_assoc]
      rfl

theorem length_storedDurations_concat (ps : List ℤ) (p : ℤ) :
    (storedDurations (ps ++ [p])).length+ps.countP (· ≤ 0) = ps.length := by
  induction ps with
  | nil => rfl
  | cons q ps ih =>
    obtain ⟨r,rest,hrest⟩ : ∃ r rest, ps ++ [p] = r :: rest := by
      cases ps with
      | nil => exact ⟨p,[],rfl⟩
      | cons r ps => exact ⟨r,ps ++ [p],rfl⟩
    rw [hrest] at ih
    rw [cons_append,hrest,storedDurations,length_append,countP_cons,length_cons,← ih]
    by_cases hq : 0 < q
    · rw [if_pos hq,if_neg (by simp [hq]),length_singleton]
      omega
    · rw [if_neg hq,if_pos (by simpa using hq),length_nil]
      omega

/-- The words the table is read back as: those that were stored and then, up to the number
that was counted, what the cells behind them hold. -/
def readDurations (mem : ℕ → ℕ) (vals : List ℕ) (n : ℕ) : List ℕ :=
  vals ++ ringSlice (ringWritten mem (cacheCap .stts) vals) (cacheCap .stts) vals.length
    (n-vals.length)

/-- The stts table after `n` packets, of which `vals` have been stored in the memory `mem`. -/
structure SttsHolds (mov : MuxMOVContext) (mem : ℕ → ℕ) (vals : List ℕ) (n bound : ℕ) : Prop
    extends Counted mov videoStts (mov.tinyPages videoStts) bound where
  total : mov.totalNum videoStts = n
  readPtr : mov.cacheReadPtr videoStts =
    cacheStart videoStts+mov.tinyPages videoStts*tinyPageSize % cacheCap .stts
  writePtr : mov.cacheWritePtr videoStts = cacheStart videoStts+vals.length % cacheCap .stts
  cells : ∀ j < cacheCap .stts, cells mov videoStts j = ringWritten mem (cacheCap .stts) vals j
  file : mov.tmpFile videoStts = vals.take (mov.tinyPages videoStts*tinyPageSize)
  spilled_le : mov.tinyPages videoStts*tinyPageSize ≤ vals.length
  stored_le : vals.length ≤ n

section Holds
variable {mov mov' : MuxMOVContext} {mem : ℕ → ℕ} {vals : List ℕ} {n bound : ℕ}

theorem SttsHolds.congr (h : SttsHolds mov mem vals n bound) (hsame : SameTable videoStts mov mov')
    (hpages : mov'.tinyPages videoStts = mov.tinyPages videoStts) :
    SttsHolds mov' mem vals n bound where
  toCounted := by rw [hpages]; exact h.toCounted.congr hsame.size hsame.total
  total := hsame.total.trans h.total
  readPtr := by rw [hpages,hsame.readPtr]; exact h.readPtr
  writePtr := hsame.writePtr.trans h.writePtr
  cells j hj := (hsame.cells j hj).trans (h.cells j hj)
  file := by rw [hpages,hsame.tmpFile]; exact h.file
  spilled_le := by rw [hpages]; exact h.spilled_le
  stored_le := h.stored_le

theorem SttsHolds.inside (h : SttsHolds mov mem vals n bound) : PtrInside mov videoStts :=
  ⟨_,Nat.mod_lt _ (cacheCap_pos .stts),h.writePtr⟩

theorem SttsHolds.length_le (h : SttsHolds mov mem vals n (cacheCap .stts+1)) :
    vals.length ≤ mov.tinyPages videoStts*tinyPageSize+cacheCap .stts := by
  have hsize := h.size
  have hlt := h.size_lt
  have htotal := h.total
  have hle := h.stored_le
  omega

theorem SttsHolds.ringSlice_cells (h : SttsHolds mov mem vals n bound) (start len : ℕ) :
    ringSlice (Mp4.cells mov videoStts) (cacheCap .stts) start len =
      ringSlice (ringWritten mem (cacheCap .stts) vals) (cacheCap .stts) start len := by
  apply ringSlice_congr
  intro k _
  exact h.cells _ (Nat.mod_lt _ (cacheCap_pos .stts))

theorem SttsHolds.readable (h : SttsHolds mov mem vals n (cacheCap .stts+1)) :
    Readable mov videoStts (readDurations mem vals n) (mov.tinyPages videoStts) := by
  have hle := h.spilled_le
  have hstored := h.stored_le
  have hlen : (readDurations mem vals n).length = n := by
    unfold readDurations
    rw [length_append,length_ringSlice]
    omega
  refine ⟨h.readPtr,?_⟩
  refine
    { spilled_le := by rw [hlen]; exact hle.trans hstored
      fits := ?_
      file_eq := ?_
      live := ?_ }
  · have hsize := h.size
    have hlt := h.size_lt
    have htotal := h.total
    rw [hlen]
    change n ≤ _+cacheCap .stts
    omega
  · unfold readDurations
    rw [take_append_of_le_length hle]
    exact h.file
  · -- the stored words and then the cells behind them
    have hsplit : n-mov.tinyPages videoStts*tinyPageSize =
        (vals.length-mov.tinyPages videoStts*tinyPageSize)+(n-vals.length) := by omega
    have hback : mov.tinyPages videoStts*tinyPageSize +
        (vals.length-mov.tinyPages videoStts*tinyPageSize) = vals.length := by omega
    rw [hlen,hsplit,ringSlice_add,hback]
    rw [h.ringSlice_cells,h.ringSlice_cells,ringSlice_ringWritten mem (by omega) h.length_le]
    unfold readDurations
    rw [drop_append_of_le_length hle,take_of_length_le (by rw [length_drop])]

theorem SttsHolds.store (h : SttsHolds mov mem vals n (cacheCap .stts)) (pts : ℤ) :
    SttsHolds (wrapWritePtr (durationStored mov pts) videoStts) mem
      (vals ++ if mov.lastPts .video > 0 then [toWord (pts-mov.lastPts .video)] else [])
      (n+1) (cacheCap .stts+1) := by
  have hold := h.stored_le
  have hmod := Nat.mod_lt vals.length (cacheCap_pos .stts)
  have hwrap := fun k hk => wrapPtr_add videoStts (p := vals.length % cacheCap .stts) (k := k) hk
  have hcounted := h.toCounted.durationStored pts
  have hpages := (durationStored_context mov pts).2
  have hptr := durationStored_writePtr mov pts
  have hread : (durationStored mov pts).cacheReadPtr = mov.cacheReadPtr := by
    unfold durationStored
    split <;> rfl
  have hfile : (durationStored mov pts).tmpFile = mov.tmpFile := by
    unfold durationStored
    split <;> rfl
  have htotal : (durationStored mov pts).totalNum videoStts = n+1 := by
    rw [durationStored_total,h.total]
  refine
    { toCounted := ?_
      total := htotal
      readPtr := ?_
      writePtr := ?_
      cells := ?_
      file := ?_
      spilled_le := ?_
      stored_le := ?_ }
  · change Counted _ _ ((durationStored mov pts).tinyPages videoStts) _
    rw [hpages]
    exact hcounted.congr rfl rfl
  · change (durationStored mov pts).cacheReadPtr videoStts = _ +
      (durationStored mov pts).tinyPages videoStts*tinyPageSize % _
    rw [hread,hpages]
    exact h.readPtr
  · rw [wrapWritePtr_writePtr,hptr,h.writePtr]
    split
    · rw [hwrap 1 hmod,Nat.mod_add_mod,length_append,length_singleton]
    · rw [hwrap 0 hmod.le,Nat.add_zero,Nat.mod_mod,append_nil]
  · intro j hj
    change Mp4.cells (durationStored mov pts) videoStts j = _
    by_cases hpos : mov.lastPts .video > 0
    · have hcells : Mp4.cells (durationStored mov pts) videoStts =
          update (Mp4.cells mov videoStts) (vals.length % cacheCap .stts)
            (toWord (pts-mov.lastPts .video)) := by
        rw [← cells_putWord _ h.writePtr]
        unfold durationStored
        rw [if_pos hpos]
        rfl
      rw [if_pos hpos,hcells,ringWritten_concat]
      by_cases hslot : j = vals.length % cacheCap .stts
      · rw [hslot,update_self,update_self]
      · rw [update_of_ne hslot,update_of_ne hslot]
        exact h.cells j hj
    · have hcells : Mp4.cells (durationStored mov pts) videoStts = Mp4.cells mov videoStts := by
        unfold durationStored
        rw [if_neg hpos]
        rfl
      rw [if_neg hpos,hcells,append_nil]
      exact h.cells j hj
  · change (durationStored mov pts).tmpFile videoStts =
      List.take ((durationStored mov pts).tinyPages videoStts*tinyPageSize) _
    rw [hfile,hpages,take_append_of_le_length h.spilled_le]
    exact h.file
  · change (durationStored mov pts).tinyPages videoStts*tinyPageSize ≤ _
    rw [hpages,length_append]
    exact h.spilled_le.trans (Nat.le_add_right _ _)
  · rw [length_append]
    split
    · exact Nat.add_le_add_right hold 1
    · exact Nat.le_succ_of_le hold

theorem SttsHolds.spillPage (h : SttsHolds mov mem vals n (cacheCap .stts+1))
    (hstored : n+tinyPageSize ≤ vals.length+cacheCap .stts) (io : Mp4Io) :
    (spillPage io mov videoStts .video).Ensures fun mov' =>
      SttsHolds mov' mem vals n (cacheCap .stts) := by
  apply ((h.toCounted.spillPage .video rfl io).and (spillPage_cases io mov videoStts .video)).imp
  rintro mov' ⟨⟨hcounted,htotal⟩,hcases⟩
  rcases hcases with ⟨_,rfl⟩ | ⟨hfull,opened,rfl⟩
  · exact { h with toCounted := hcounted }
  · have hpage : (movePage { mov with tmpFilesOpen := opened } videoStts .video).tinyPages
        videoStts = mov.tinyPages videoStts+1 := movePage_pages ..
    have hmul : (mov.tinyPages videoStts+1)*tinyPageSize =
        mov.tinyPages videoStts*tinyPageSize+tinyPageSize := Nat.succ_mul ..
    have hsize := h.size
    have hcount := h.total
    have hroom : mov.tinyPages videoStts*tinyPageSize+tinyPageSize ≤ vals.length := by
      change cacheCap .stts ≤ _ at hfull
      omega
    refine
      { toCounted := hcounted
        total := h.total
        readPtr := ?_
        writePtr := h.writePtr
        cells := h.cells
        file := ?_
        spilled_le := ?_
        stored_le := h.stored_le }
    · exact movePage_readPtr opened h.readPtr
    · have hlen : (mov.tmpFile videoStts).length = mov.tinyPages videoStts*tinyPageSize := by
        rw [h.file,length_take,Nat.min_eq_left h.spilled_le]
      have hcells := h.ringSlice_cells (mov.tinyPages videoStts*tinyPageSize) tinyPageSize
      rw [movePage_tmpFile,writeAt_end _ _ hlen,readPtrPage_eq h.readPtr,h.file,hcells,
        ringSlice_ringWritten mem hroom h.length_le,hpage,hmul,take_add]
    · rw [hpage,hmul]
      exact hroom

theorem SttsHolds.addDuration (h : SttsHolds mov mem vals n (cacheCap .stts)) (pts : ℤ)
    (hstored : n+1+tinyPageSize ≤ cacheCap .stts+(vals ++ if mov.lastPts .video > 0
      then [toWord (pts-mov.lastPts .video)] else []).length) (io : Mp4Io) :
    (addDuration io mov pts).Ensures fun mov' =>
      SttsHolds mov' mem (vals ++ if mov.lastPts .video > 0
        then [toWord (pts-mov.lastPts .video)] else []) (n+1) (cacheCap .stts) := by
  apply (h.store pts).spillPage _ io
  rw [Nat.add_comm _ (cacheCap .stts)]
  exact hstored

end Holds

structure DurationWorld where
  ctx : Mp4MuxContext
  pts : List ℤ

def durationStart (mov : MuxMOVContext) : DurationWorld := ⟨mp4WriteHeader mov,[]⟩

def durationStep (w : DurationWorld) (call : Mp4Io × Packet) :
    Outcome Mp4MuxContext DurationWorld :=
  (mp4WritePacket call.1 w.ctx call.2).bind fun ctx =>
    .done ⟨ctx,match call.2.streamIndex with
      | .video => w.pts ++ [call.2.pts]
      | .audio => w.pts⟩

/-- A key frame has room in its cache, the samples can be counted, and fewer than 15 pages of
video packets had a time that is not positive. -/
def DurationFits (w : DurationWorld) (call : Mp4Io × Packet) : Prop :=
  (recordsKeyFrame w.ctx.mov call.2 = true →
    w.ctx.mov.keyFrameNum .video < keyframeCacheEntries) ∧
    w.pts.length+1 < 2^32 ∧ w.pts.countP (· ≤ 0) < 15*tinyPageSize

instance (w : DurationWorld) (call : Mp4Io × Packet) : Decidable (DurationFits w call) :=
  inferInstanceAs (Decidable (_ ∧ _ ∧ _))

structure Recordable (tracks : CodecType → Option MOVTrack) : Prop where
  video : ∃ trk, tracks .video = some trk ∧ trk.enc.codecId ≠ .pcm
  pcm : ∀ s trk, tracks s = some trk → trk.enc.codecId = .pcm → pcmSampleBytes trk.enc ≠ 0

structure Timed (tracks : CodecType → Option MOVTrack) (mem : ℕ → ℕ) (w : DurationWorld) :
    Prop where
  steady : Steady w.ctx.mov
  stts : SttsHolds w.ctx.mov mem (storedDurations w.pts) w.pts.length (cacheCap .stts)
  samples : w.ctx.mov.totalNum (.stsz, .video) = w.pts.length
  last : w.ctx.mov.lastPts .video = w.pts.getLastD 0
  tracks : w.ctx.mov.tracks = tracks
  play : w.ctx.mov.playTimeLength = 0
  few : w.pts.length < 2^32

section Run
variable {tracks : CodecType → Option MOVTrack} {mem : ℕ → ℕ} {w : DurationWorld}
  {mov : MuxMOVContext} {trk : MOVTrack} {pkt : Packet}

theorem Timed.step (ht : Timed tracks mem w) (hrec : Recordable tracks)
    {call : Mp4Io × Packet} (hfits : DurationFits w call) :
    (durationStep w call).Ensures (Timed tracks mem) := by
  obtain ⟨hkey,hfew,hcount⟩ := hfits
  obtain ⟨io,pkt⟩ := call
  let pts' : List ℤ := match pkt.streamIndex with
    | .video => w.pts ++ [pkt.pts]
    | .audio => w.pts
  -- the stts table after the packet
  have hstts : ∀ mov, KeepsTables (fun u => u.1 = .stts) w.ctx.mov mov →
      match pkt.streamIndex with
      | .video => (addDuration io mov pkt.pts).Ensures fun mov' =>
          SttsHolds mov' mem (storedDurations pts') pts'.length (cacheCap .stts)
      | .audio => SttsHolds mov mem (storedDurations pts') pts'.length (cacheCap .stts) := by
    intro mov hkeep
    have hbefore := ht.stts.congr (hkeep.tables videoStts rfl) (hkeep.pages videoStts rfl)
    dsimp only [pts']
    match pkt.streamIndex with
    | .audio => exact hbefore
    | .video =>
      have hlast : mov.lastPts .video = w.pts.getLastD 0 := by
        rw [hkeep.setup.lastPts]
        exact ht.last
      have hconcat := storedDurations_concat w.pts pkt.pts
      have hlength := length_storedDurations_concat w.pts pkt.pts
      rw [← hlast] at hconcat
      rw [length_append,length_singleton,hconcat]
      apply hbefore.addDuration pkt.pts _ io
      rw [← hconcat]
      have hcap : cacheCap .stts = 16*tinyPageSize := rfl
      omega
  apply (ht.steady.mp4WritePacket ht.stts.inside (by rw [ht.tracks]; exact hrec.pcm) hkey
    (fun m m' hsame hpages hm => hm.congr hsame hpages) hstts).bind
  rintro ctx ⟨hwritten,hstts'⟩
  obtain ⟨trk,htrk,hcodec⟩ := hrec.video
  refine
    { steady := hwritten.steady
      stts := hstts'
      samples := ?_
      last := ?_
      tracks := hwritten.tracks.trans ht.tracks
      play := hwritten.playTimeLength.trans ht.play
      few := ?_ }
  all_goals dsimp only [pts']
  · match hs : pkt.streamIndex with
    | .audio =>
      rw [hwritten.otherSamples .video (by rw [hs]; decide)]
      exact ht.samples
    | .video =>
      have hsamples := hwritten.samples trk (by rw [hs,ht.tracks]; exact htrk) hcodec
      rw [hs] at hsamples
      rw [hsamples,ht.samples,length_append,length_singleton]
  · rw [hwritten.lastPts]
    match hs : pkt.streamIndex with
    | .audio =>
      exact ht.last
    | .video =>
      simp
  · match pkt.streamIndex with
    | .audio => exact ht.few
    | .video =>
      rw [length_append,length_singleton]
      exact hfew

def sttsMemory (cache : ℕ → ℕ) (j : ℕ) : ℕ := cache (cacheStart videoStts+j)

theorem settled_init (mov : MuxMOVContext) (t : TableKey)
    (hw : mov.cacheWritePtr t = cacheStart t) (hs : mov.cacheSize t = 0)
    (hn : mov.totalNum t = 0) : Settled mov t 0 where
  size := by rw [hs,hn,Nat.zero_mul]
  size_lt := by rw [hs]; exact cacheCap_pos t.1
  relieved := by simp
  inside := ⟨0,cacheCap_pos t.1,hw⟩

section
variable (tracks : CodecType → Option MOVTrack) (cache cacheKeyframe : ℕ → ℕ)

theorem steady_init (createTime playTimeLength : ℤ) (geo : Option (ℤ × ℤ)) :
    Steady (initMov tracks cache cacheKeyframe createTime playTimeLength geo) where
  stco s := settled_init _ (.stco, s) rfl rfl rfl
  stsc s := settled_init _ (.stsc, s) rfl rfl rfl
  turn := fun _ => rfl
  sizes s := ⟨(settled_init _ (.stsz, s) rfl rfl rfl).inside,
    fun _ => (settled_init _ (.stsz, s) rfl rfl rfl).toCounted,fun _ _ _ => ⟨rfl,rfl⟩⟩

theorem timed_start (createTime : ℤ) (geo : Option (ℤ × ℤ)) :
    Timed tracks (sttsMemory cache)
      (durationStart (initMov tracks cache cacheKeyframe createTime 0 geo)) := by
  let mov := initMov tracks cache cacheKeyframe createTime 0 geo
  have hempty : Holds mov videoStts [] 0 := holds_init mov videoStts rfl rfl rfl rfl rfl
  exact
    { steady := steady_init tracks cache cacheKeyframe createTime 0 geo
      stts :=
        { toCounted := (settled_init mov videoStts rfl rfl rfl).toCounted
          total := rfl
          readPtr := hempty.readPtr
          writePtr := hempty.writePtr
          cells := fun _ _ => rfl
          file := hempty.spilled.file_eq
          spilled_le := hempty.spilled.spilled_le
          stored_le := Nat.zero_le 0 }
      samples := rfl
      last := rfl
      tracks := rfl
      play := rfl
      few := Nat.two_pow_pos 32 }

end

theorem timed_run (hrec : Recordable tracks) (calls : List (Mp4Io × Packet))
    (hw : Timed tracks mem w) (hfits : GuardedCalls durationStep DurationFits w calls) :
    (runCalls durationStep w calls).Ensures (Timed tracks mem) :=
  runCalls_invariant _ (fun _ _ ht hcall => ht.step hrec hcall) calls w hw hfits

end Run

/-- The stts box describes as many samples as the stsz box, and gives every sample but the last
the time to the next one. -/
def DurationsRight (tables : Option StblTables) (pts : List ℤ) : Prop :=
  match tables with
  | none => pts = []
  | some t => (decodeStts t.stts).length = (decodeStsz t.stsz).length ∧
      ∀ i, i+1 < pts.length → ((decodeStts t.stts).getD i 0 : ℤ) = pts.getD (i+1) 0-pts.getD i 0

/-- Each spacing is found again one word further on among the words that are read back. -/
def SpacingsRepeat (mem : ℕ → ℕ) (pts : List ℤ) : Prop :=
  ∀ i, i+1 < pts.length →
    (((readDurations mem (storedDurations pts) pts.length).getD (i+1) 0 % 2^32 : ℕ) : ℤ) =
      pts.getD (i+1) 0-pts.getD i 0

/-- The store that is meant for the stts table does not run from the end of the audio stsc cache
into the stts cache, and the trak boxes are defined. -/
def LastStoreFits (mov : MuxMOVContext) : Prop :=
  (mov.lastStreamIndex = some .audio →
    mov.cacheWritePtr (.stsc, .audio) ≠ cacheEnd (.stsc, .audio)) ∧
    trakDefined mov .video = true ∧ trakDefined mov .audio = true

instance (mov : MuxMOVContext) : Decidable (LastStoreFits mov) :=
  inferInstanceAs (Decidable (_ ∧ _ ∧ _))

section Trailer
variable {tracks : CodecType → Option MOVTrack} {mem : ℕ → ℕ} {w : DurationWorld}
  {mov : MuxMOVContext} {trk : MOVTrack}

theorem putLastCount_ptrInside (h : Steady mov) {last : CodecType}
    (hend : last = .audio → mov.cacheWritePtr (.stsc, .audio) ≠ cacheEnd (.stsc, .audio)) :
    PtrInside (putLastCount mov last) (.stsc, .audio) := by
  obtain ⟨j,hj,hw⟩ := (h.stsc .audio).inside
  cases last with
  | video =>
    refine ⟨j,hj,?_⟩
    rw [← hw]
    have hne : (MuxChunkID.stsc, CodecType.audio) ≠ (.stsc, .video) := by decide
    exact update_of_ne hne (mov.cacheWritePtr (.stsc, .video)+1) mov.cacheWritePtr
  | audio =>
    have hlt : j+1 < cacheCap .stsc := by
      have hne := hend rfl
      unfold cacheEnd at hne
      change j < cacheCap .stsc at hj
      dsimp only at hne
      omega
    refine ⟨j+1,hlt,?_⟩
    rw [← Nat.add_assoc,← hw]
    exact update_self (MuxChunkID.stsc, CodecType.audio) _ mov.cacheWritePtr

theorem writeLastPacket_sameTable (h : Steady mov) (hvideo : (mov.tracks .video).isSome = true)
    (hend : mov.lastStreamIndex = some .audio →
      mov.cacheWritePtr (.stsc, .audio) ≠ cacheEnd (.stsc, .audio)) (pts : ℤ) :
    SameTable videoStts mov (writeLastPacket mov pts) := by
  match hs : mov.lastStreamIndex with
  | none =>
    unfold writeLastPacket
    rw [hs]
    exact SameTable.refl _ mov
  | some last =>
    obtain ⟨x,durations,heq⟩ := writeLastPacket_eq hvideo hs pts
    have hput : SameTable videoStts mov (putLastCount mov last) :=
      (putWord_sameTable (h.stsc last).inside (by simp) _).trans (countTotal_sameTable (by simp))
    have hinside : PtrInside (putLastCount mov last) (.stsc, .audio) := by
      apply putLastCount_ptrInside h
      intro haudio
      exact hend (by rw [hs,haudio])
    have hstray := putWord_sameTable hinside (show videoStts ≠ (.stsc, .audio) by decide) x
    have hsame := hput.trans hstray
    rw [heq]
    exact { hsame with }

theorem writeLastPacket_pages (hvideo : (mov.tracks .video).isSome = true) (pts : ℤ) :
    (writeLastPacket mov pts).tinyPages = mov.tinyPages := by
  match hs : mov.lastStreamIndex with
  | none =>
    unfold writeLastPacket
    rw [hs]
  | some last =>
    obtain ⟨x,durations,heq⟩ := writeLastPacket_eq hvideo hs pts
    rw [heq]
    rfl

theorem sttsBox_decodes (trk : MOVTrack) (hplay : mov.playTimeLength = 0) {words : List ℕ}
    (hr : Readable mov videoStts words (mov.tinyPages videoStts))
    (htotal : mov.totalNum videoStts = words.length) (hpos : 0 < words.length)
    (hfew : words.length < 2^32) :
    decodeStts (stblWriteSttsTag mov trk .video).1 = (words.drop 1 ++ [0]).map (· % 2^32) := by
  have hlen : (words.drop 1 ++ [0]).length = words.length := by
    rw [length_append,length_drop,length_singleton]
    omega
  unfold stblWriteSttsTag videoDurations
  dsimp only
  rw [if_neg (by simp [hplay])]
  rw [tableWords_readable (dvd_refl _) hr htotal,append_assoc,htotal,← hlen]
  exact decodeStts_table rfl (by rw [hlen]; exact hfew)

theorem length_stszBox (hpcm : trk.enc.codecId ≠ .pcm) {s : CodecType}
    (hpages : mov.tinyPages (.stsz, s)*tinyPageSize ≤ mov.totalNum (.stsz, s))
    (hfew : mov.totalNum (.stsz, s) < 2^32) :
    (decodeStsz (stblWriteStszTag mov trk s).1).length = mov.totalNum (.stsz, s) := by
  have hlen := length_tableWords (t := (.stsz, s)) (dvd_refl tinyPageSize) hpages
  unfold stblWriteStszTag
  rw [if_neg hpcm]
  dsimp only
  rw [← hlen] at hfew ⊢
  rw [append_assoc,append_assoc,decodeStsz_table rfl hfew,length_map]

theorem durationsRight_iff {t : StblTables} {words : List ℕ} {pts : List ℤ}
    (hpos : 0 < pts.length) (hlen : words.length = pts.length)
    (hstts : decodeStts t.stts = (words.drop 1 ++ [0]).map (· % 2^32))
    (hstsz : (decodeStsz t.stsz).length = pts.length) :
    DurationsRight (some t) pts ↔ ∀ i, i+1 < pts.length →
      ((words.getD (i+1) 0 % 2^32 : ℕ) : ℤ) = pts.getD (i+1) 0-pts.getD i 0 := by
  have hcount : (decodeStts t.stts).length = pts.length := by
    rw [hstts,length_map,length_append,length_drop,length_singleton,hlen]
    omega
  have hword : ∀ i, i+1 < pts.length →
      (decodeStts t.stts).getD i 0 = words.getD (i+1) 0 % 2^32 := by
    intro i hi
    have hdrop : i < (words.drop 1).length := by
      rw [length_drop,hlen]
      omega
    rw [hstts,getD_eq_getElem?_getD,getElem?_map,getElem?_append_left hdrop,
      getElem?_drop,Nat.add_comm 1 i,getD_eq_getElem?_getD,getElem?_eq_getElem (by omega)]
    rfl
  constructor
  · rintro ⟨-,hright⟩ i hi
    rw [← hword i hi]
    exact hright i hi
  · intro hrepeat
    refine ⟨hcount.trans hstsz.symm,?_⟩
    intro i hi
    rw [hword i hi]
    exact hrepeat i hi

theorem Timed.trailer (ht : Timed tracks mem w) (hrec : Recordable tracks)
    (hfits : LastStoreFits w.ctx.mov) :
    ∃ file, mp4WriteTrailer w.ctx = .done file ∧
      (DurationsRight (file.moov.tables .video) w.pts ↔ SpacingsRepeat mem w.pts) := by
  obtain ⟨hend,hdefv,hdefa⟩ := hfits
  obtain ⟨trk,htrk,hpcm⟩ := hrec.video
  have hvideo : (w.ctx.mov.tracks .video).isSome = true := by rw [ht.tracks,htrk]; rfl
  have hdefined : ∀ s, trakDefined w.ctx.mov s = true := by
    intro s
    cases s
    · exact hdefv
    · exact hdefa
  obtain ⟨file,hdone,htables,-⟩ := mp4WriteTrailer_done hvideo ht.play hdefined
  refine ⟨file,hdone,?_⟩
  rw [htables]
  let mov := writeLastPacket w.ctx.mov (w.ctx.mov.lastPts .video+33)
  obtain ⟨htracks,hplay,htotal⟩ :=
    writeLastPacket_frame hvideo (w.ctx.mov.lastPts .video+33)
  have hpages : mov.tinyPages = w.ctx.mov.tinyPages := writeLastPacket_pages hvideo _
  have hsamples : mov.totalNum (.stsz, .video) = w.pts.length :=
    (htotal _ (by simp)).trans ht.samples
  have htrk' : mov.tracks .video = some trk := by
    rw [htracks,ht.tracks]
    exact htrk
  unfold trackTables
  rw [htrk',hsamples]
  dsimp only
  by_cases hpos : w.pts.length > 0
  · rw [if_pos hpos]
    -- the stts table is read back as it was before the last packet
    have hholds : SttsHolds mov mem (storedDurations w.pts) w.pts.length (cacheCap .stts) :=
      ht.stts.congr (writeLastPacket_sameTable ht.steady hvideo hend _) (congrFun hpages _)
    have hread : Readable mov videoStts
        (readDurations mem (storedDurations w.pts) w.pts.length) (mov.tinyPages videoStts) :=
      SttsHolds.readable { hholds with size_lt := Nat.lt_succ_of_lt hholds.size_lt }
    have hlen : (readDurations mem (storedDurations w.pts) w.pts.length).length = w.pts.length := by
      have hle := ht.stts.stored_le
      unfold readDurations
      rw [length_append,length_ringSlice]
      omega
    have hstts := sttsBox_decodes trk (hplay.trans ht.play) hread
      (by rw [hlen]; exact hholds.total) (by rw [hlen]; exact hpos) (by rw [hlen]; exact ht.few)
    let mov1 := (stblWriteSttsTag mov trk .video).2
    obtain ⟨hframe1,-⟩ := stblWriteSttsTag_frame mov trk .video
    have hframe2 := stblWriteStscTag_frame mov1 .video
    let mov2 := (stblWriteStscTag mov1 .video).2
    have htotal2 : mov2.totalNum (.stsz, .video) = w.pts.length := by
      rw [hframe2.total,hframe1.total]
      exact hsamples
    have hpages2 :
      mov2.tinyPages (.stsz, .video)*tinyPageSize ≤ mov2.totalNum (.stsz, .video) := by
      have hsize := ((ht.steady.sizes .video).counted (by
        intro trk' htrk'
        rw [ht.tracks,htrk] at htrk'
        cases htrk'
        exact hpcm)).size
      rw [htotal2,hframe2.pages,hframe1.pages,hpages,← ht.samples]
      omega
    have hstsz : (decodeStsz (stblWriteStszTag mov2 trk .video).1).length = w.pts.length := by
      rw [length_stszBox hpcm hpages2 (by rw [htotal2]; exact ht.few),htotal2]
    exact durationsRight_iff hpos hlen hstts hstsz
  · rw [if_neg hpos]
    have hnil : w.pts = [] := eq_nil_of_length_eq_zero (by omega)
    refine iff_of_true hnil ?_
    intro i hi
    rw [hnil] at hi
    simp at hi

end Trailer

/-- In every run of packets that fit, a trailer written in a state that fits gives the video
samples the right durations exactly when their spacings repeat. -/
theorem durations_right_iff_spacings_repeat {tracks : CodecType → Option MOVTrack}
    (hrec : Recordable tracks) (cache cacheKeyframe : ℕ → ℕ) (createTime : ℤ)
    (geo : Option (ℤ × ℤ)) (calls : List (Mp4Io × Packet))
    (hfits : GuardedCalls durationStep DurationFits
      (durationStart (initMov tracks cache cacheKeyframe createTime 0 geo)) calls) :
    (runCalls durationStep (durationStart (initMov tracks cache cacheKeyframe createTime 0 geo))
        calls).Ensures fun w => LastStoreFits w.ctx.mov →
      ∃ file, mp4WriteTrailer w.ctx = .done file ∧
        (DurationsRight (file.moov.tables .video) w.pts ↔
          SpacingsRepeat (sttsMemory cache) w.pts) := by
  apply (timed_run hrec calls (timed_start tracks cache cacheKeyframe createTime geo) hfits).imp
  intro w ht hlast
  exact ht.trailer hrec hlast

def videoAt (pts : ℤ) : Mp4Io × Packet := (.works, { smallPacket .video with pts := pts })

def plainMov : MuxMOVContext :=
  initMov (twoTracks (plainTrack .h264) (plainTrack .aac)) (fun _ => 0) (fun _ => 0) 0 0 none

theorem recordable_plain : Recordable (twoTracks (plainTrack .h264) (plainTrack .aac)) where
  video := ⟨plainTrack .h264,rfl,by decide⟩
  pcm s trk htrk hpcm := by
    cases s <;> cases htrk <;> simp [plainTrack] at hpcm

theorem durations_right_iff_spacings_repeat_of_two :
    GuardedCalls durationStep DurationFits (durationStart plainMov) [videoAt 40,videoAt 80] ∧
      ∃ w, runCalls durationStep (durationStart plainMov) [videoAt 40,videoAt 80] = .done w ∧
        LastStoreFits w.ctx.mov ∧ ∃ file, mp4WriteTrailer w.ctx = .done file ∧
          (DurationsRight (file.moov.tables .video) w.pts ↔
            SpacingsRepeat (sttsMemory fun _ => 0) w.pts) :=
  have hfits := by decide
  ⟨hfits,_,rfl,by decide,
    durations_right_iff_spacings_repeat recordable_plain _ _ _ _ _ hfits (by decide)⟩

/-- Three video packets at 40, 80 and 200: the first duration is 120. -/
theorem first_duration_is_second_spacing :
    ∃ w, runCalls durationStep (durationStart plainMov) [videoAt 40,videoAt 80,videoAt 200] =
        .done w ∧ w.pts = [40,80,200] ∧
      ∃ file, mp4WriteTrailer w.ctx = .done file ∧
        ¬ DurationsRight (file.moov.tables .video) w.pts := by
  have htimed := timed_run recordable_plain [videoAt 40,videoAt 80,videoAt 200]
    (timed_start (twoTracks (plainTrack .h264) (plainTrack .aac)) (fun _ => 0) (fun _ => 0) 0 none)
    (by decide)
  obtain ⟨w,hw,hpts,hlast⟩ : ∃ w, runCalls durationStep (durationStart plainMov)
      [videoAt 40,videoAt 80,videoAt 200] = .done w ∧ w.pts = [40,80,200] ∧
      w.ctx.mov.lastStreamIndex = some .video := ⟨_,rfl,rfl,rfl⟩
  change (runCalls durationStep (durationStart plainMov) _).Ensures _ at htimed
  rw [hw] at htimed
  have ht : Timed _ (sttsMemory fun _ => 0) w := htimed
  have hdefined := trakDefined_plain ht.tracks
  obtain ⟨file,hfile,hright⟩ := ht.trailer recordable_plain
    ⟨by rw [hlast]; exact nofun, hdefined .video,hdefined .audio⟩
  refine ⟨w,hw,hpts,file,hfile,?_⟩
  rw [hright,hpts]
  intro hrepeat
  exact absurd (hrepeat 0 (by decide)) (by decide)

end TinaPackage.Mp4
