import TinaPackage.TsRuns

/-! The file of a recording whose writer never fails: every packet that was produced is in
the file or unread in the ring at any time, and in the file after the trailer. -/
namespace TinaPackage.Ts
open List TransportStream Outcome

attribute [local irreducible] patUnit pmtUnit

section Accepts
variable {fsWrite : List UInt8 → Bool} {cell : ℕ → List UInt8}
  (hwrite : ∀ file, fsWrite file = true)
include hwrite

theorem sendSection_accepts (k : SectionKey) (turns : ℕ) (first : Bool) (s : TsMuxContext)
    (buf : List UInt8) : (sendSection fsWrite k turns first s buf).Accepts := by
  induction turns generalizing first s buf with
  | zero => exact accepts_done s
  | succ turns ih =>
    unfold sendSection
    split
    · exact accepts_done s
    · apply (cachePacket_accepts hwrite _).bind
      intro s'
      exact ih _ _ _

theorem sendPes_accepts (i : Fin 2) (pts : ℤ) (turns : ℕ) (start : Bool) (s : TsMuxContext)
    (payload : List UInt8) : (sendPes fsWrite i pts turns start s payload).Accepts := by
  induction turns generalizing start s payload with
  | zero => exact accepts_done s
  | succ turns ih =>
    unfold sendPes
    split
    · exact accepts_done s
    · apply (cachePacket_accepts hwrite _).bind
      intro s'
      exact ih _ _ _

variable {s : TsMuxContext} {ps : List (List UInt8)}

theorem tsWriteSection1_accepts (hcard : s.isSdcardDisappear = false) (k : SectionKey)
    (tid id version secNum lastSecNum : ℕ) {data : List UInt8} (hdata : data.length ≤ 1012) :
    (tsWriteSection1 fsWrite s k tid id version secNum lastSecNum data).Accepts := by
  unfold tsWriteSection1 tsWriteSection
  rw [if_neg (by omega),hcard,if_neg Bool.false_ne_true]
  exact sendSection_accepts hwrite _ _ _ _ _

omit hwrite in
theorem length_pmtStreams_le (previous : ℕ) (sts : List AVStream) :
    (pmtStreams previous sts).length ≤ 9*sts.length := by
  induction sts generalizing previous with
  | nil => exact Nat.zero_le _
  | cons st sts ih =>
    have hrest := ih (streamType previous st.codecId)
    unfold pmtStreams
    simp only [length_append,length_cons,length_be16]
    split <;> simp only [length_cons,length_nil] <;> omega

omit hwrite in
theorem length_pmtData_le (s : TsMuxContext) : (pmtData s).length ≤ 22 := by
  have hstreams := length_pmtStreams_le 0xff (((List.finRange 2).take s.nbStreams).map s.streams)
  have hcount : (((List.finRange 2).take s.nbStreams).map s.streams).length ≤ 2 := by
    rw [length_map,length_take,length_finRange]
    exact Nat.min_le_right ..
  simp only [pmtData,length_append,length_be16]
  omega

theorem tsWritePat_accepts (hcard : s.isSdcardDisappear = false) :
    (tsWritePat fsWrite s).Accepts := by
  have hdata : (patData s).length ≤ 1012 := by
    rw [patData,length_append,length_be16,length_be16]
    decide
  exact tsWriteSection1_accepts hwrite hcard .pat _ _ _ _ _ hdata

theorem tsWritePmt_accepts (hcard : s.isSdcardDisappear = false) :
    (tsWritePmt fsWrite s).Accepts := by
  have hdata : (pmtData s).length ≤ 1012 := (length_pmtData_le s).trans (by decide)
  exact tsWriteSection1_accepts hwrite hcard .pmt _ _ _ _ _ hdata

omit hwrite in
theorem card_setCc (s : TsMuxContext) (k : Sender) (cc : ℕ) (r : TsCache) :
    ((s.setCc k cc).setRing r).isSdcardDisappear = s.isSdcardDisappear := by
  cases k with
  | table k => cases k <;> rfl
  | stream i => rfl

theorem tsWriteSiInfo_accepts (h : Cached cell s.ring ps) (hs : Sending s)
    (hcard : s.isSdcardDisappear = false) : (tsWriteSiInfo fsWrite s).Accepts := by
  refine (tsWritePat_accepts hwrite hcard).bind_of (tsWritePat_ensures h hs) ?_
  rintro s' ⟨r,rfl,-⟩
  apply tsWritePmt_accepts hwrite
  exact hcard

theorem tsWritePcrTable_accepts (hcard : s.isSdcardDisappear = false) (pts : ℤ) :
    (tsWritePcrTable fsWrite s pts).Accepts := by
  unfold tsWritePcrTable
  rw [hcard,if_neg Bool.false_ne_true]
  exact cachePacket_accepts hwrite _

section
variable (h : Cached cell s.ring ps) (hs : Sending s) (hcard : s.isSdcardDisappear = false)
include h hs hcard

theorem tsRetransmitSiInfo_accepts (pts : ℤ) (i : Fin 2) :
    (tsRetransmitSiInfo fsWrite s pts i).Accepts := by
  unfold tsRetransmitSiInfo
  rw [if_neg hs.mode]
  split
  · set s₀ : TsMuxContext := { s with patPacketCount := 0 }
    have hs₀ : Sending s₀ := hs.congr rfl (pidOf_congr rfl rfl rfl) (ccOf_congr rfl rfl rfl)
    have hring : Cached cell s₀.ring ps := h
    refine (tsWriteSiInfo_accepts hwrite hring hs₀ hcard).bind_of
      (tsWriteSiInfo_ensures hring hs₀) ?_
    rintro s₁ ⟨r,rfl,-⟩
    apply tsWritePcrTable_accepts hwrite
    exact hcard
  · exact accepts_done s

theorem tsWritePes_accepts (i : Fin 2) (payload : List UInt8) (pts : ℤ) :
    (tsWritePes fsWrite s i payload pts).Accepts := by
  unfold tsWritePes
  rw [hcard,if_neg Bool.false_ne_true]
  apply (tsRetransmitSiInfo_accepts hwrite h hs hcard pts i).bind
  intro s'
  split
  · exact accepts_undefined
  · exact sendPes_accepts hwrite _ _ _ _ _ _

end

end Accepts

/-- The cell the next packet goes to does not hold an unread packet. -/
def NextCellFree (r : TsCache) : Prop :=
  ∀ j < r.cacheSize/tsPacketSize, (r.tsReadPtr+j) % cachePackets ≠ r.tsWritePtr

theorem nextCellFree {cell : ℕ → List UInt8} {r : TsCache} {ps : List (List UInt8)}
    (h : Cached cell r ps) : NextCellFree r := by
  obtain ⟨pages,hat,hroom⟩ := h.cachedAt
  have hle := hat.spilled.spilled_le
  have hcount : r.cacheSize/tsPacketSize = ps.length-pages*pagePackets := by
    rw [hat.size]
    exact Nat.mul_div_cancel_left _ (by decide)
  intro j hj
  rw [hcount] at hj
  have hne : (pages*pagePackets+j) % cachePackets ≠
      (pages*pagePackets+(ps.length-pages*pagePackets)) % cachePackets :=
    ring_index_ne hj (by omega)
  rw [Nat.add_sub_cancel' hle] at hne
  rw [hat.readPtr,hat.writePtr,Nat.mod_add_mod]
  exact hne

section Run
variable {fsWrite : List UInt8 → Bool} {cell : ℕ → List UInt8} {w : TsWorld} {pkt : Packet}

theorem packetStep_accepts (hwrite : ∀ file, fsWrite file = true) (h : Recorded cell w)
    (hfits : PacketFits w.ctx pkt) : (packetStep fsWrite w pkt).Accepts := by
  have hcall : (tsMuxerWritePacket fsWrite w.ctx pkt).Accepts := by
    unfold tsMuxerWritePacket
    rw [h.card,if_neg Bool.false_ne_true,tsWritePacket_eq hfits]
    split
    · obtain ⟨hpid,hcc,hring,-,hmode,hcard⟩ := prepared_senders w.ctx pkt
      have hcached : Cached cell (prepared w.ctx pkt).ring w.produced := hring ▸ h.cached
      exact tsWritePes_accepts hwrite hcached (h.sending.congr hmode hpid hcc)
        (hcard.trans h.card) _ _ _
    · exact accepts_done w.ctx
  apply (hcall.mapFailed _).bind
  intro s
  exact accepts_done _

theorem tsWriteTrailer_accepts (hwrite : ∀ file, fsWrite file = true) (s : TsMuxContext) :
    (tsWriteTrailer fsWrite s).Accepts := by
  unfold tsWriteTrailer
  split
  · exact accepts_done s
  · split
    · exact accepts_undefined
    · apply ((flushPackets_accepts hwrite _ _).mapFailed _).bind
      intro r
      exact accepts_done _

end Run

/-- At any time the file and the unread packets of the ring are the packets `ps` that were
produced so far, and no unread packet is overwritten next. -/
def FileAndRing (r : TsCache) (ps : List (List UInt8)) : Prop :=
  output r = ps.flatten ∧ NextCellFree r

/-- With a writer that never fails, a recording whose packets fit goes through; the ring holds the
packets in order, and the trailer leaves them in the file if there are less than 2³² of them. -/
theorem ts_file_output_complete (fsWrite : List UInt8 → Bool)
    (hwrite : ∀ file, fsWrite file = true) (cell : ℕ → List UInt8) (info : CdxMuxerMediaInfo)
    (extra : Fin 2 → List UInt8) (pkts : List Packet) (s : TsMuxContext)
    (hset : tsMuxerSetMediaInfo cell info = some s)
    (hfits : GuardedCalls (packetStep fsWrite) (fun w => PacketFits w.ctx)
      (startWorld s extra) pkts) :
    ∃ w, runCalls (packetStep fsWrite) (startWorld s extra) pkts = .done w ∧
      w.ctx.ring = w.produced.foldl putPacket (startWorld s extra).ctx.ring ∧
      (∀ ps, ps <+: w.produced →
        FileAndRing (ps.foldl putPacket (startWorld s extra).ctx.ring) ps) ∧
      (w.produced.length < 2^32 → ∃ s', tsWriteTrailer fsWrite w.ctx = .done s' ∧
          s'.ring.written = w.produced.flatten) := by
  have hfresh := Fresh.tsMuxerSetMediaInfo hset
  have hstart := recorded_startWorld hfresh extra
  have hring : (startWorld s extra).ctx.ring = (newContext cell).ring := hstart.cached
  have hinv := runCalls_invariant (Recorded cell) (fun w pkt hw hpkt => hw.packetStep hpkt) pkts
    (startWorld s extra) hstart hfits
  have haccepts := runCalls_accepts (Recorded cell) (fun w pkt hw hpkt => hw.packetStep hpkt)
    (fun w pkt hw hpkt => packetStep_accepts hwrite hw hpkt) pkts (startWorld s extra) hstart hfits
  obtain ⟨w,hrun,hw⟩ := hinv.exists_done haccepts
  rw [hring]
  refine ⟨w,hrun,hw.cached,?_,?_⟩
  · intro ps _
    have hcached : Cached cell (ps.foldl putPacket (newContext cell).ring) ps := rfl
    exact ⟨output_eq hcached,nextCellFree hcached⟩
  · intro hlen
    exact (tsWriteTrailer_ensures hw.cached hw.mode hlen).exists_done
      (tsWriteTrailer_accepts hwrite w.ctx)

theorem ts_file_output_complete_of_two_frames :
    ∃ w, runCalls (packetStep fun _ => true) (startWorld videoContext fun _ => [0x67])
        twoFrames = .done w ∧
      w.ctx.ring = w.produced.foldl putPacket (startWorld videoContext fun _ => [0x67]).ctx.ring ∧
      (∀ ps, ps <+: w.produced →
        FileAndRing (ps.foldl putPacket (startWorld videoContext fun _ => [0x67]).ctx.ring) ps) ∧
      (w.produced.length < 2^32 → ∃ s', tsWriteTrailer (fun _ => true) w.ctx = .done s' ∧
          s'.ring.written = w.produced.flatten) := by
  have hfits : GuardedCalls (packetStep fun _ => true) (fun w => PacketFits w.ctx)
      (startWorld videoContext fun _ => [0x67]) twoFrames := by decide +kernel
  exact ts_file_output_complete _ (fun _ => rfl) _ videoOnly _ _ _ setMediaInfo_videoOnly hfits

def emptyFrame : Packet := { streamIndex := 0, buf := [], pts := 0 }

structure EmptyFrames (w : TsWorld) : Prop where
  recorded : Recorded (fun _ => []) w
  codec : (w.ctx.streams 0).codecId = .h264
  vos : (w.ctx.streams 0).vosData = []
  buffer : 512*1024 ≤ w.ctx.pesBufsize
  base : w.ctx.baseVideoPts = 0

theorem h264Head_of_vos_nil {st : AVStream} (h : st.vosData = []) :
    h264Head st = accessUnitDelimiter := by
  unfold h264Head
  rw [h,ite_self,append_nil]

namespace EmptyFrames
variable {w : TsWorld}

theorem videoBase (h : EmptyFrames w) : Ts.videoBase w.ctx emptyFrame = 0 := by
  unfold Ts.videoBase
  rw [h.base]
  exact ite_self _

theorem fits (h : EmptyFrames w) : PacketFits w.ctx emptyFrame := by
  have hhead := h264Head_of_vos_nil h.vos
  have hbuffer := h.buffer
  refine ⟨?_,?_,?_⟩
  · intro _
    rw [h.videoBase]
    show (h264Head (w.ctx.streams 0)).length ≤ _ ∧ (h264Head (w.ctx.streams 0)).length+0+_ < _ ∧ _
    rw [hhead]
    refine ⟨?_,by decide,by decide⟩
    show 6 ≤ w.ctx.pesBufsize
    omega
  · intro hc
    cases h.codec.symm.trans hc
  · intro hc
    cases h.codec.symm.trans hc

theorem pesOf (h : EmptyFrames w) : Ts.pesOf w.ctx emptyFrame = some (accessUnitDelimiter, 0) := by
  have hhead : h264Head (w.ctx.streams emptyFrame.streamIndex) = accessUnitDelimiter :=
    h264Head_of_vos_nil h.vos
  rw [pesOf_h264 h.codec,h.videoBase,hhead]
  rfl

theorem afterPes_keeps (s : TsMuxContext) (payload : List UInt8) (pts : ℤ) :
    ((afterPes s 0 payload pts).streams 0).codecId = (s.streams 0).codecId ∧
      ((afterPes s 0 payload pts).streams 0).vosData = (s.streams 0).vosData ∧
      (afterPes s 0 payload pts).pesBufsize = s.pesBufsize ∧
      (afterPes s 0 payload pts).baseVideoPts = s.baseVideoPts := by
  have hstreams : (afterPes s 0 payload pts).streams 0 = { (afterSiInfo s).streams 0 with
      cc := (s.ccOf (.stream 0)+(pesUnit s 0 payload pts).length) % 16 } :=
    (afterSiInfo s).streams_setCc _ (afterSiInfo s).ring 0
  rw [hstreams,streams_afterSiInfo]
  refine ⟨rfl,rfl,?_,?_⟩
  · show (afterSiInfo s).pesBufsize = _
    unfold afterSiInfo
    split <;> rfl
  · show (afterSiInfo s).baseVideoPts = _
    unfold afterSiInfo
    split <;> rfl

theorem next (h : EmptyFrames w) {w' : TsWorld} (hw : Recorded (fun _ => []) w') {r : TsCache}
    (hctx : w'.ctx = (nextContext w.ctx emptyFrame).setRing r) : EmptyFrames w' := by
  have hnext : nextContext w.ctx emptyFrame =
      afterPes (prepared w.ctx emptyFrame) 0 accessUnitDelimiter 0 := by
    unfold nextContext
    rw [h.pesOf]
    rfl
  obtain ⟨hcodec,hvos,hbuffer,hbase⟩ :=
    afterPes_keeps (prepared w.ctx emptyFrame) accessUnitDelimiter 0
  have hcodec₀ : (w.ctx.streams emptyFrame.streamIndex).codecId = .h264 := h.codec
  have hprepared := prepared_h264 hcodec₀
  have hstream : (prepared w.ctx emptyFrame).streams 0 =
      { w.ctx.streams 0 with firstframeflag := false } := by
    rw [hprepared]
    exact Function.update_self 0 { w.ctx.streams 0 with firstframeflag := false } w.ctx.streams
  rw [hstream] at hcodec hvos
  have hle := h.buffer
  constructor
  · exact hw
  · rw [hctx,hnext]
    exact hcodec.trans h.codec
  · rw [hctx,hnext]
    exact hvos.trans h.vos
  · rw [hctx,hnext]
    refine hle.trans ?_
    show w.ctx.pesBufsize ≤
      (afterPes (prepared w.ctx emptyFrame) 0 accessUnitDelimiter 0).pesBufsize
    rw [hbuffer,hprepared]
    show w.ctx.pesBufsize ≤ if _ then _ else w.ctx.pesBufsize
    split
    · next hsmall => exact Nat.le_add_right_of_le (Nat.le_of_lt hsmall)
    · exact Nat.le_refl _
  · rw [hctx,hnext]
    refine hbase.trans ?_
    rw [hprepared]
    exact h.videoBase

theorem length_sectionUnit_le (tid id : ℕ) (data : List UInt8) :
    (sectionUnit (sectionBytes tid id data)).length ≤ data.length+12 := by
  refine (length_sectionPayloads_le _ _ _).trans ?_
  simp only [sectionBytes,length_append,length_cons,length_nil,length_be16,length_be32]
  omega

theorem length_siPackets_le (s : TsMuxContext) (pts : ℤ) : (siPackets s pts).length ≤ 51 := by
  have hpat : (patUnit s).length ≤ (patData s).length+12 := by
    rw [patUnit]
    exact length_sectionUnit_le ..
  have hpmt : (pmtUnit s).length ≤ (pmtData s).length+12 := by
    rw [pmtUnit]
    exact length_sectionUnit_le ..
  have hpatData : (patData s).length = 4 := by
    rw [patData,length_append,length_be16,length_be16]
  have hpmtData := length_pmtData_le s
  unfold siPackets
  split
  · simp only [length_append,length_sendUnit,length_singleton]
    omega
  · exact Nat.zero_le _

theorem length_packetsOf (h : EmptyFrames w) :
    1 ≤ (packetsOf w.ctx emptyFrame).length ∧ (packetsOf w.ctx emptyFrame).length ≤ 57 := by
  set s := prepared w.ctx emptyFrame
  have hpackets : packetsOf w.ctx emptyFrame = pesPackets s 0 accessUnitDelimiter 0 := by
    unfold packetsOf
    rw [h.pesOf]
    rfl
  have hsi := length_siPackets_le s 0
  have hunit : (pesUnit s 0 accessUnitDelimiter 0).length = 1 := rfl
  rw [hpackets,pesPackets,length_append,length_sendUnit,hunit]
  omega

theorem step (h : EmptyFrames w) :
    ∃ w', packetStep (fun _ => true) w emptyFrame = .done w' ∧ EmptyFrames w' ∧
      w.produced.length+1 ≤ w'.produced.length ∧
      w'.produced.length ≤ w.produced.length+57 := by
  obtain ⟨w',hdone,hw',hproduced,r,hctx⟩ := (h.recorded.packetStep_next h.fits).exists_done
    (packetStep_accepts (fun _ => rfl) h.recorded h.fits)
  obtain ⟨hlow,hhigh⟩ := h.length_packetsOf
  refine ⟨w',hdone,h.next hw' hctx,?_⟩
  rw [hproduced,length_append]
  omega

theorem run (h : EmptyFrames w) (n : ℕ) :
    ∃ w', runCalls (packetStep fun _ => true) w (List.replicate n emptyFrame) = .done w' ∧
      EmptyFrames w' ∧ w.produced.length+n ≤ w'.produced.length ∧
      w'.produced.length ≤ w.produced.length+57*n := by
  induction n generalizing w with
  | zero => exact ⟨w,rfl,h,Nat.le_refl _,Nat.le_refl _⟩
  | succ n ih =>
    obtain ⟨w₁,hdone,hw₁,hlow₁,hhigh₁⟩ := h.step
    obtain ⟨w₂,hrun,hw₂,hlow₂,hhigh₂⟩ := ih hw₁
    refine ⟨w₂,?_,hw₂,by omega,by omega⟩
    rw [replicate_succ,runCalls,hdone]
    exact hrun

end EmptyFrames

theorem emptyFrames_start : EmptyFrames (startWorld videoContext fun _ => []) where
  recorded := recorded_startWorld (Fresh.tsMuxerSetMediaInfo setMediaInfo_videoOnly) _
  codec := rfl
  vos := rfl
  buffer := by decide
  base := rfl

/-- After 2³² packets the loop of the trailer does not come to an end. -/
theorem trailer_never_ends_after_two_pow_32_packets :
    ∃ w, runCalls (packetStep fun _ => true) (startWorld videoContext fun _ => [])
        (List.replicate (2^32) emptyFrame) = .done w ∧
      tsWriteTrailer (fun _ => true) w.ctx = .undefined := by
  obtain ⟨w,hrun,hw,hlow,hhigh⟩ := emptyFrames_start.run (2^32)
  obtain ⟨pages,hat,-⟩ := hw.recorded.cached.cachedAt
  have hempty : (startWorld videoContext fun _ => []).produced.length = 0 := rfl
  rw [hempty] at hlow hhigh
  have htotal : w.ctx.ring.cacheSizeTotal/tsPacketSize = w.produced.length := by
    rw [hat.total,Nat.mod_eq_of_lt (by unfold tsPacketSize; omega)]
    exact Nat.mul_div_cancel_left _ (by decide)
  refine ⟨w,hrun,?_⟩
  unfold tsWriteTrailer
  rw [if_neg hw.recorded.mode,htotal,if_pos (by omega)]

end TinaPackage.Ts
