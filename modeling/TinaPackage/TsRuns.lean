import TinaPackage.TsRing

/-! Whole recordings: what a receiver gets out of the packets of the muxer is what the
application put in. -/
namespace TinaPackage.Ts
open Function List TransportStream Sender

section
variable (s : TsMuxContext)

def grownBuffer (totalSize : ℕ) : TsMuxContext :=
  { s with pesBufsize := if s.pesBufsize < totalSize then totalSize+32*1024 else s.pesBufsize }

def videoBase (pkt : Packet) : ℤ :=
  if s.firstVideoPts then pkt.pts else s.baseVideoPts

/-- The payload and the time of the PES packet of a packet; `none` for a dropped one. -/
def pesOf (pkt : Packet) : Option (List UInt8 × ℤ) :=
  let st := s.streams pkt.streamIndex
  match st.codecId with
  | .h264 => some (h264Head st ++ pkt.buf, (pkt.pts-videoBase s pkt)*90)
  | .aac => some (adtsHeader st pkt.buf.length ++ pkt.buf, aacTime s st)
  | .adpcm => some (pkt.buf, pkt.pts*90)
  | _ => none

def prepared (pkt : Packet) : TsMuxContext :=
  let st := s.streams pkt.streamIndex
  match st.codecId with
  | .h264 =>
    { grownBuffer (s.setStream pkt.streamIndex { st with firstframeflag := false })
        ((h264Head st).length+pkt.buf.length) with
      patPmtCounter := s.patPmtCounter+1
      firstVideoPts := false
      baseVideoPts := videoBase s pkt }
  | .aac => { grownBuffer s (7+pkt.buf.length) with audioFrameNum := s.audioFrameNum+1 }
  | .adpcm => { grownBuffer s pkt.buf.length with audioFrameNum := s.audioFrameNum+1 }
  | _ => s

end

section
variable {s : TsMuxContext} {pkt : Packet} (hc : (s.streams pkt.streamIndex).codecId = .h264)
include hc

theorem pesOf_h264 : pesOf s pkt = some (h264Head (s.streams pkt.streamIndex) ++ pkt.buf,
      (pkt.pts-videoBase s pkt)*90) := by
  simp only [pesOf,hc]

theorem prepared_h264 : prepared s pkt = { grownBuffer (s.setStream pkt.streamIndex
            { s.streams pkt.streamIndex with firstframeflag := false })
          ((h264Head (s.streams pkt.streamIndex)).length+pkt.buf.length) with
        patPmtCounter := s.patPmtCounter+1
        firstVideoPts := false
        baseVideoPts := videoBase s pkt } := by
  simp only [prepared,hc]

end

/-- The packet can be written without overrunning the payload buffer and without overflow:
the extra data of a video stream fits the buffer, and an AAC stream has a sample rate. -/
def PacketFits (s : TsMuxContext) (pkt : Packet) : Prop :=
  let st := s.streams pkt.streamIndex
  (st.codecId = .h264 → (h264Head st).length ≤ s.pesBufsize ∧
      (h264Head st).length+pkt.buf.length+32*1024 < 2^31 ∧
      inInt64 ((pkt.pts-videoBase s pkt)*90)) ∧
  (st.codecId = .aac →
    7+pkt.buf.length+32*1024 < 2^31 ∧ inInt64 ((s.audioFrameNum : ℤ)*90000*1024) ∧
      0 < st.sampleRate) ∧
  (st.codecId = .adpcm → pkt.buf.length+32*1024 < 2^31 ∧ inInt64 (pkt.pts*90))

instance (s : TsMuxContext) (pkt : Packet) : Decidable (PacketFits s pkt) :=
  inferInstanceAs (Decidable ((_ → _) ∧ (_ → _) ∧ (_ → _)))

section Packet
variable {fsWrite : List UInt8 → Bool} {s : TsMuxContext} {pkt : Packet}

theorem growPesBuffer_eq (s : TsMuxContext) {totalSize : ℕ} (h : totalSize+32*1024 < 2^31) :
    growPesBuffer s totalSize = .done (grownBuffer s totalSize) := by
  unfold growPesBuffer grownBuffer
  rw [if_neg (by omega)]
  split
  · rw [if_neg (by omega)]
  · rfl

theorem length_adtsHeader (st : AVStream) (n : ℕ) : (adtsHeader st n).length = 7 := rfl

theorem writeH264_eq (hc : (s.streams pkt.streamIndex).codecId = .h264) (h : PacketFits s pkt) :
    writeH264 fsWrite s pkt = tsWritePes fsWrite (prepared s pkt) pkt.streamIndex
      (h264Head (s.streams pkt.streamIndex) ++ pkt.buf) ((pkt.pts-videoBase s pkt)*90) := by
  obtain ⟨hvos,hsize,htime⟩ := h.1 hc
  have hgrow := fun t => growPesBuffer_eq t hsize
  simp only [writeH264,prepared,hc,if_neg (not_lt.mpr hvos),hgrow,Outcome.bind]
  unfold videoBase at htime ⊢
  unfold grownBuffer TsMuxContext.setStream
  -- the first video packet sets the base time
  cases hfirst : s.firstVideoPts with
  | true =>
    rw [hfirst] at htime
    simp only [if_true] at htime ⊢
    rw [if_pos htime]
  | false =>
    rw [hfirst] at htime
    simp only [Bool.false_eq_true,if_false] at htime ⊢
    rw [if_pos htime]

theorem writeAac_eq (hc : (s.streams pkt.streamIndex).codecId = .aac) (h : PacketFits s pkt) :
    writeAac fsWrite s pkt = tsWritePes fsWrite (prepared s pkt) pkt.streamIndex
      (adtsHeader (s.streams pkt.streamIndex) pkt.buf.length ++ pkt.buf)
      (aacTime s (s.streams pkt.streamIndex)) := by
  obtain ⟨hsize,htime,hrate⟩ := h.2.1 hc
  simp only [writeAac,prepared,hc,growPesBuffer_eq s hsize,Outcome.bind,grownBuffer]
  rw [if_pos ⟨htime,hrate.ne'⟩]
  rfl

theorem writeAdpcm_eq (hc : (s.streams pkt.streamIndex).codecId = .adpcm) (h : PacketFits s pkt) :
    writeAdpcm fsWrite s pkt = tsWritePes fsWrite (prepared s pkt) pkt.streamIndex pkt.buf
      (pkt.pts*90) := by
  obtain ⟨hsize,htime⟩ := h.2.2 hc
  simp only [writeAdpcm,prepared,hc,growPesBuffer_eq s hsize,Outcome.bind,if_pos htime]
  rfl

theorem tsWritePacket_eq (h : PacketFits s pkt) : tsWritePacket fsWrite s pkt =
      match pesOf s pkt with
      | some (payload, pts) => tsWritePes fsWrite (prepared s pkt) pkt.streamIndex payload pts
      | none => .done s := by
  cases hc : (s.streams pkt.streamIndex).codecId with
  | h264 =>
    simp only [tsWritePacket,pesOf,hc]
    exact writeH264_eq hc h
  | aac =>
    simp only [tsWritePacket,pesOf,hc]
    exact writeAac_eq hc h
  | adpcm =>
    simp only [tsWritePacket,pesOf,hc]
    exact writeAdpcm_eq hc h
  | _ => simp only [tsWritePacket,pesOf,hc]

end Packet

def senderPid : Sender → ℕ
  | .table .pat => 0x0000
  | .table .pmt => 0x0100
  | .stream 0 => 0x1011
  | .stream 1 => 0x1100

theorem senderPid_lt : ∀ k, senderPid k < 8192
  | .table .pat => by decide
  | .table .pmt => by decide
  | .stream 0 => by decide
  | .stream 1 => by decide

def pidSender (id : ℕ) : Sender :=
  if id = 0x0000 then .table .pat
  else if id = 0x0100 then .table .pmt
  else if id = 0x1011 then .stream 0
  else .stream 1

theorem pidSender_senderPid : ∀ k, pidSender (senderPid k) = k
  | .table .pat => rfl
  | .table .pmt => rfl
  | .stream 0 => rfl
  | .stream 1 => rfl

theorem senderPid_injective : Function.Injective senderPid :=
  Function.LeftInverse.injective pidSender_senderPid

/-- Packets as they stand in a transport stream, numbered for each sender up to `cc`. -/
structure Wellformed (cc : Sender → ℕ) (ps : List (List UInt8)) : Prop where
  shape : ∀ p ∈ ps, p.length = 188 ∧ p.head? = some 0x47
  numbered : ∀ k, Numbered (senderPid k) (cc k) ps
  silent : ∀ id, (∀ k, senderPid k ≠ id) → ∀ p ∈ ps, carried id p = none

variable {counter : ℕ}

theorem carried_pcrPacket (id : ℕ) (hc : counter < 16) (pcr : ℤ) :
    carried id (pcrPacket counter pcr) = none := by
  have hcontrol : ∀ c < 16, (UInt8.ofNat (0x20 ||| c)).toNat/16 % 4 = 2 := by decide
  have hnone : payload? (pcrPacket counter pcr) = none := by
    have hbyte : byteAt (pcrPacket counter pcr) 3 = (UInt8.ofNat (0x20 ||| counter)).toNat := rfl
    unfold payload?
    rw [hbyte,hcontrol counter hc]
    rfl
  unfold carried
  rw [hnone]
  split <;> rfl

namespace Wellformed
variable {cc : Sender → ℕ} {ps : List (List UInt8)}

theorem nil : Wellformed (fun _ => 15) [] where
  shape := by simp
  numbered := fun k => Numbered.nil (senderPid k)
  silent := by simp

theorem continuous (h : Wellformed cc ps) (id : ℕ) : Continuous (counters id ps) := by
  by_cases hsender : ∃ k, senderPid k = id
  · obtain ⟨k,rfl⟩ := hsender
    exact (h.numbered k).continuous
  · have hnone := h.silent id fun k hk => hsender ⟨k,hk⟩
    have hempty : counters id ps = [] := by
      unfold counters
      rw [map_eq_nil_iff,filter_eq_nil_iff]
      intro p hp
      rw [hnone p hp]
      exact Bool.false_ne_true
    rw [hempty]
    intro k a b ha
    cases ha

theorem unit (h : Wellformed cc ps) (k : Sender) (start : Bool) {ds : List (List UInt8)}
    (hds : ∀ d ∈ ds, d.length ≤ 184) :
    Wellformed (update cc k ((cc k+ds.length) % 16))
      (ps ++ sendUnit (senderPid k) (cc k) start ds) where
  shape := by
    intro p hp
    rcases mem_append.mp hp with hold | hnew
    · exact h.shape p hold
    · exact length_of_mem_sendUnit hds hnew
  numbered := by
    intro k'
    by_cases hk : k' = k
    · rw [hk,update_self]
      exact (h.numbered k).sendUnit (senderPid_lt k) hds
    · rw [update_of_ne hk]
      have hne : senderPid k ≠ senderPid k' := fun heq => hk (senderPid_injective heq).symm
      exact (h.numbered k').skip_all (carried_sendUnit_other (senderPid_lt k) hne)
  silent := by
    intro id hid p hp
    rcases mem_append.mp hp with hold | hnew
    · exact h.silent id hid p hold
    · exact carried_sendUnit_other (senderPid_lt k) (hid k) p hnew

theorem pcr (h : Wellformed cc ps) (hc : counter < 16) (pcr : ℤ) :
    Wellformed cc (ps ++ [pcrPacket counter pcr]) where
  shape := by
    intro p hp
    rcases mem_append.mp hp with hold | hnew
    · exact h.shape p hold
    · rw [mem_singleton.mp hnew]
      exact ⟨rfl,rfl⟩
  numbered := fun k => (h.numbered k).skip (carried_pcrPacket _ hc pcr)
  silent := by
    intro id hid p hp
    rcases mem_append.mp hp with hold | hnew
    · exact h.silent id hid p hold
    · rw [mem_singleton.mp hnew]
      exact carried_pcrPacket id hc pcr

end Wellformed

section Pes
variable {s : TsMuxContext} {ps : List (List UInt8)}

theorem length_of_mem_sectionUnit {bytes d : List UInt8} (hd : d ∈ sectionUnit bytes) :
    d.length ≤ 184 := length_of_mem_sectionPayloads hd

theorem ccOf_afterSiInfo (hcount : s.patPacketCount = s.patPacketPeriod) : (afterSiInfo s).ccOf =
      update (update s.ccOf (.table .pat) ((s.ccOf (.table .pat)+(patUnit s).length) % 16))
        (.table .pmt) ((s.ccOf (.table .pmt)+(pmtUnit s).length) % 16) := by
  unfold afterSiInfo
  rw [if_pos hcount]
  generalize (patUnit s).length = n
  generalize (pmtUnit s).length = m
  exact ext rfl rfl fun _ => rfl

theorem wellformed_siPackets (h : Wellformed s.ccOf ps) (hpid : s.pidOf = senderPid)
    (hpcr : s.pcrCounter < 16) (pts : ℤ) :
    Wellformed (afterSiInfo s).ccOf (ps ++ siPackets s pts) := by
  by_cases hcount : s.patPacketCount = s.patPacketPeriod
  · have hpatLen : ∀ d ∈ patUnit s, d.length ≤ 184 := fun d => length_of_mem_sectionUnit
    have hpmtLen : ∀ d ∈ pmtUnit s, d.length ≤ 184 := fun d => length_of_mem_sectionUnit
    have hpmt := (h.unit (.table .pat) true hpatLen).unit (.table .pmt) true hpmtLen
    rw [ccOf_afterSiInfo hcount]
    unfold siPackets
    rw [if_pos hcount,hpid,← append_assoc,← append_assoc]
    exact hpmt.pcr hpcr pts
  · unfold afterSiInfo siPackets
    rw [if_neg hcount,if_neg hcount,append_nil]
    exact h

theorem carried_siPackets (hpid : s.pidOf = senderPid) (hpcr : s.pcrCounter < 16) (pts : ℤ)
    (j : Fin 2) : ∀ p ∈ siPackets s pts, carried (senderPid (.stream j)) p = none := by
  intro p hp
  have hne : ∀ k, senderPid (.table k) ≠ senderPid (.stream j) := by
    intro k heq
    cases senderPid_injective heq
  unfold siPackets at hp
  split at hp
  · rw [hpid] at hp
    rcases mem_append.mp hp with htables | hclock
    · rcases mem_append.mp htables with hpat | hpmt
      · exact carried_sendUnit_other (senderPid_lt _) (hne .pat) p hpat
      · exact carried_sendUnit_other (senderPid_lt _) (hne .pmt) p hpmt
    · rw [mem_singleton.mp hclock]
      exact carried_pcrPacket _ hpcr pts
  · cases hp

theorem ccOf_afterSiInfo_stream (s : TsMuxContext) (i : Fin 2) :
    (afterSiInfo s).ccOf (.stream i) = s.ccOf (.stream i) :=
  congrArg (fun f => (f i).cc) (streams_afterSiInfo s)

theorem ccOf_afterPes (i : Fin 2) (payload : List UInt8) (pts : ℤ) :
    (afterPes s i payload pts).ccOf = update (afterSiInfo s).ccOf (.stream i)
        ((s.ccOf (.stream i)+(pesUnit s i payload pts).length) % 16) := by
  set cc := (s.ccOf (.stream i)+(pesUnit s i payload pts).length) % 16
  have hsame : (afterPes s i payload pts).ccOf =
      (((afterSiInfo s).setCc (.stream i) cc).setRing (afterSiInfo s).ring).ccOf :=
    ccOf_congr rfl rfl rfl
  rw [hsame]
  funext k
  by_cases hk : k = .stream i
  · rw [hk,TsMuxContext.ccOf_setCc,update_self]
  · rw [TsMuxContext.ccOf_setCc_other _ _ _ _ hk,update_of_ne hk]

theorem wellformed_pesPackets (h : Wellformed s.ccOf ps) (hpid : s.pidOf = senderPid)
    (hpcr : s.pcrCounter < 16) (i : Fin 2) (payload : List UInt8) (pts : ℤ) :
    Wellformed (afterPes s i payload pts).ccOf (ps ++ pesPackets s i payload pts) := by
  have hlen : ∀ d ∈ pesUnit s i payload pts, d.length ≤ 184 :=
    fun d => length_of_mem_pesPayloads
  have hunit := (wellformed_siPackets h hpid hpcr pts).unit (.stream i) true hlen
  rw [ccOf_afterSiInfo_stream] at hunit
  unfold pesPackets
  rw [ccOf_afterPes,hpid,← append_assoc]
  exact hunit

section
variable (hpid : s.pidOf = senderPid) (hpcr : s.pcrCounter < 16)
include hpid hpcr

theorem demux_pesPackets (i : Fin 2) {payload : List UInt8} (hne : payload ≠ []) {pts : ℤ}
    (hpts : pts ≠ -1) :
    demux (senderPid (.stream i)) (ps ++ pesPackets s i payload pts) =
      demux (senderPid (.stream i)) ps ++
        [some { pts := some (pts % 2^33).toNat, data := payload }] := by
  have hflat : (pesUnit s i payload pts).flatten =
      pesHeader (s.streams i).codecId payload.length pts ++ payload :=
    flatten_pesPayloads (s.streams i).codecId pts true le_rfl hne
  have hlen : ∀ d ∈ pesUnit s i payload pts, d.length ≤ 184 :=
    fun d => length_of_mem_pesPayloads
  have hunit : pesUnit s i payload pts ≠ [] := by
    intro hnil
    rw [hnil] at hflat
    exact hne (append_eq_nil_iff.mp hflat.symm).2
  obtain ⟨d,ds,hcons⟩ := exists_cons_of_ne_nil hunit
  rw [hcons] at hflat hlen
  have hcarried := filterMap_carried_sendUnit (senderPid_lt (.stream i)) (s.ccOf (.stream i)) hlen
  unfold pesPackets
  rw [hpid,hcons,← append_assoc,demux_append_of_carried hcarried,
    demux_append_of_none (carried_siPackets hpid hpcr pts i)]
  rw [flatten_cons] at hflat
  rw [hflat,parsePes_pesHeader _ _ hpts]

theorem demux_pesPackets_other {i j : Fin 2} (hj : j ≠ i) (payload : List UInt8) (pts : ℤ) :
    demux (senderPid (.stream j)) (ps ++ pesPackets s i payload pts) =
      demux (senderPid (.stream j)) ps := by
  have hne : senderPid (.stream i) ≠ senderPid (.stream j) := by
    intro heq
    exact hj (stream.inj (senderPid_injective heq)).symm
  unfold pesPackets
  rw [hpid,← append_assoc,
    demux_append_of_none (carried_sendUnit_other (senderPid_lt (.stream i)) hne),
    demux_append_of_none (carried_siPackets hpid hpcr pts j)]

theorem demux_pesPackets_nil (i j : Fin 2) (pts : ℤ) :
    demux (senderPid (.stream j)) (ps ++ pesPackets s i [] pts) =
      demux (senderPid (.stream j)) ps := by
  have hnone : pesPackets s i [] pts = siPackets s pts := append_nil _
  rw [hnone,demux_append_of_none (carried_siPackets hpid hpcr pts j)]

end

end Pes

/-- A recording with what has been put into it: the PES payloads of each stream with their
times, and the packets that were made of them. -/
structure TsWorld where
  ctx : TsMuxContext
  sent : Fin 2 → List (List UInt8 × ℤ)
  produced : List (List UInt8)

def packetsOf (s : TsMuxContext) (pkt : Packet) : List (List UInt8) :=
  match pesOf s pkt with
  | some (payload, pts) => pesPackets (prepared s pkt) pkt.streamIndex payload pts
  | none => []

def nextContext (s : TsMuxContext) (pkt : Packet) : TsMuxContext :=
  match pesOf s pkt with
  | some (payload, pts) => afterPes (prepared s pkt) pkt.streamIndex payload pts
  | none => s

def TsWorld.record (w : TsWorld) (pkt : Packet) : Fin 2 → List (List UInt8 × ℤ) :=
  match pesOf w.ctx pkt with
  | some (payload, pts) =>
    if payload = [] then w.sent
    else update w.sent pkt.streamIndex (w.sent pkt.streamIndex ++ [(payload, pts)])
  | none => w.sent

def packetStep (fsWrite : List UInt8 → Bool) (w : TsWorld) (pkt : Packet) :
    Outcome TsWorld TsWorld :=
  ((tsMuxerWritePacket fsWrite w.ctx pkt).mapFailed fun s => { w with ctx := s }).bind fun s =>
    .done { ctx := s, sent := w.record pkt, produced := w.produced ++ packetsOf w.ctx pkt }

def expectedPes (x : List UInt8 × ℤ) : Option PesPacket :=
  some { pts := some (x.2 % 2^33).toNat, data := x.1 }

structure Recorded (cell : ℕ → List UInt8) (w : TsWorld) : Prop where
  cached : Cached cell w.ctx.ring w.produced
  mode : w.ctx.outputBufferMode ≠ .callbackBuffer
  pids : w.ctx.pidOf = senderPid
  wellformed : Wellformed w.ctx.ccOf w.produced
  pcr : w.ctx.pcrCounter < 16
  card : w.ctx.isSdcardDisappear = false
  recovered : ∀ i, demux (senderPid (.stream i)) w.produced = (w.sent i).map expectedPes

variable {st : AVStream}

theorem pidOf_setStream {s : TsMuxContext} {i : Fin 2} (h : st.pid = (s.streams i).pid) :
    (s.setStream i st).pidOf = s.pidOf := by
  refine ext rfl rfl fun j => ?_
  show (update s.streams i st j).pid = (s.streams j).pid
  by_cases hj : j = i
  · rw [hj,update_self,h]
  · rw [update_of_ne hj]

theorem ccOf_setStream {s : TsMuxContext} {i : Fin 2} (h : st.cc = (s.streams i).cc) :
    (s.setStream i st).ccOf = s.ccOf := by
  refine ext rfl rfl fun j => ?_
  show (update s.streams i st j).cc = (s.streams j).cc
  by_cases hj : j = i
  · rw [hj,update_self,h]
  · rw [update_of_ne hj]

theorem prepared_senders (s : TsMuxContext) (pkt : Packet) :
    (prepared s pkt).pidOf = s.pidOf ∧ (prepared s pkt).ccOf = s.ccOf ∧
      (prepared s pkt).ring = s.ring ∧ (prepared s pkt).pcrCounter = s.pcrCounter ∧
      (prepared s pkt).outputBufferMode = s.outputBufferMode ∧
      (prepared s pkt).isSdcardDisappear = s.isSdcardDisappear := by
  set s₁ := s.setStream pkt.streamIndex
    { s.streams pkt.streamIndex with firstframeflag := false } with hs₁
  have hpid : s₁.pidOf = s.pidOf := pidOf_setStream rfl
  have hcc : s₁.ccOf = s.ccOf := ccOf_setStream rfl
  unfold prepared
  dsimp only
  split
  · rw [← hpid,← hcc]
    exact ⟨pidOf_congr rfl rfl rfl,ccOf_congr rfl rfl rfl,rfl,rfl,rfl,rfl⟩
  · exact ⟨pidOf_congr rfl rfl rfl,ccOf_congr rfl rfl rfl,rfl,rfl,rfl,rfl⟩
  · exact ⟨pidOf_congr rfl rfl rfl,ccOf_congr rfl rfl rfl,rfl,rfl,rfl,rfl⟩
  · exact ⟨rfl,rfl,rfl,rfl,rfl,rfl⟩

theorem aacTime_nonneg (s : TsMuxContext) (h : 0 < st.sampleRate) : 0 ≤ aacTime s st := by
  have hframes : (0 : ℤ) ≤ (s.audioFrameNum : ℤ)*90000*1024 := by omega
  exact Int.tdiv_nonneg hframes h.le

variable {pkt : Packet}

theorem pesOf_fits {s : TsMuxContext} (h : PacketFits s pkt) {payload : List UInt8} {pts : ℤ}
    (hpes : pesOf s pkt = some (payload, pts)) :
    payload.length+7+3 < 2^31 ∧ pts ≠ -1 := by
  unfold pesOf at hpes
  dsimp only at hpes
  split at hpes
  · next hc =>
    obtain ⟨-,hsize,-⟩ := h.1 hc
    cases hpes
    rw [length_append]
    omega
  · next hc =>
    obtain ⟨hsize,-,hrate⟩ := h.2.1 hc
    have hnonneg := aacTime_nonneg s hrate
    cases hpes
    rw [length_append,length_adtsHeader]
    omega
  · next hc =>
    obtain ⟨hsize,-⟩ := h.2.2 hc
    cases hpes
    omega
  · cases hpes

namespace Recorded
variable {fsWrite : List UInt8 → Bool} {cell : ℕ → List UInt8} {w : TsWorld} {pkt : Packet}

theorem sending (h : Recorded cell w) : Sending w.ctx where
  mode := h.mode
  pid_lt := by
    rw [h.pids]
    exact senderPid_lt
  cc_lt := fun k => (h.wellformed.numbered k).lt

theorem dropped (h : Recorded cell w) (hpes : pesOf w.ctx pkt = none) : Recorded cell {
      ctx := w.ctx
      sent := w.record pkt
      produced := w.produced ++ packetsOf w.ctx pkt } := by
  have hsent : w.record pkt = w.sent := by
    unfold TsWorld.record
    rw [hpes]
  have hproduced : w.produced ++ packetsOf w.ctx pkt = w.produced := by
    unfold packetsOf
    rw [hpes,append_nil]
  rw [hsent,hproduced]
  exact h

theorem pcrCounter_afterPes {s : TsMuxContext} (h : s.pcrCounter < 16) (i : Fin 2)
    (payload : List UInt8) (pts : ℤ) : (afterPes s i payload pts).pcrCounter < 16 := by
  show (afterSiInfo s).pcrCounter < 16
  unfold afterSiInfo
  split
  · exact Nat.mod_lt _ (by decide)
  · exact h

section
variable (s : TsMuxContext) (i : Fin 2) (payload : List UInt8) (pts : ℤ)
include s i payload pts

theorem mode_afterPes : (afterPes s i payload pts).outputBufferMode = s.outputBufferMode := by
  show (afterSiInfo s).outputBufferMode = _
  unfold afterSiInfo
  split <;> rfl

theorem card_afterPes : (afterPes s i payload pts).isSdcardDisappear = s.isSdcardDisappear := by
  show (afterSiInfo s).isSdcardDisappear = _
  unfold afterSiInfo
  split <;> rfl

theorem pidOf_afterPes : (afterPes s i payload pts).pidOf = s.pidOf := by
  set cc := (s.ccOf (.stream i)+(pesUnit s i payload pts).length) % 16
  have hsame : (afterPes s i payload pts).pidOf =
      (((afterSiInfo s).setCc (.stream i) cc).setRing (afterSiInfo s).ring).pidOf :=
    pidOf_congr rfl rfl rfl
  rw [hsame,← pidOf_afterSiInfo s]
  funext k
  exact TsMuxContext.pidOf_setCc ..

end

theorem written (h : Recorded cell w) {payload : List UInt8} {pts : ℤ}
    (hpes : pesOf w.ctx pkt = some (payload, pts)) (hpts : pts ≠ -1) {r : TsCache}
    (hr : Cached cell r (w.produced ++
      pesPackets (prepared w.ctx pkt) pkt.streamIndex payload pts)) :
    Recorded cell {
      ctx := (afterPes (prepared w.ctx pkt) pkt.streamIndex payload pts).setRing r
      sent := w.record pkt
      produced := w.produced ++ packetsOf w.ctx pkt } := by
  obtain ⟨hpid,hcc,-,hpcr,hmode,hcard⟩ := prepared_senders w.ctx pkt
  set s := prepared w.ctx pkt
  have hpids : s.pidOf = senderPid := hpid.trans h.pids
  have hclock : s.pcrCounter < 16 := hpcr ▸ h.pcr
  have hwell : Wellformed s.ccOf w.produced := hcc ▸ h.wellformed
  have hpackets : packetsOf w.ctx pkt = pesPackets s pkt.streamIndex payload pts := by
    unfold packetsOf
    rw [hpes]
  set s' := afterPes s pkt.streamIndex payload pts with hs'
  have hpid' : (s'.setRing r).pidOf = s'.pidOf := pidOf_congr rfl rfl rfl
  have hmode' : s'.outputBufferMode = s.outputBufferMode := mode_afterPes ..
  have hcard' : s'.isSdcardDisappear = s.isSdcardDisappear := card_afterPes ..
  rw [hpackets]
  constructor
  · exact hr
  · exact (hmode'.trans hmode).trans_ne h.mode
  · rw [hpid',hs',pidOf_afterPes,hpids]
  · exact wellformed_pesPackets hwell hpids hclock pkt.streamIndex payload pts
  · exact pcrCounter_afterPes hclock pkt.streamIndex payload pts
  · exact (hcard'.trans hcard).trans h.card
  · intro j
    have hrec := h.recovered j
    unfold TsWorld.record
    rw [hpes]
    dsimp only
    by_cases hnil : payload = []
    · rw [if_pos hnil,hnil,demux_pesPackets_nil hpids hclock,hrec]
    · rw [if_neg hnil]
      by_cases hj : j = pkt.streamIndex
      · rw [hj] at hrec ⊢
        rw [demux_pesPackets hpids hclock _ hnil hpts,update_self,map_append,hrec]
        rfl
      · rw [demux_pesPackets_other hpids hclock hj,update_of_ne hj,hrec]

theorem packetStep_next (h : Recorded cell w) (hfits : PacketFits w.ctx pkt) :
    (Ts.packetStep fsWrite w pkt).Ensures fun w' => Recorded cell w' ∧
      w'.produced = w.produced ++ packetsOf w.ctx pkt ∧
      ∃ r, w'.ctx = (nextContext w.ctx pkt).setRing r := by
  unfold Ts.packetStep tsMuxerWritePacket nextContext
  rw [h.card,if_neg Bool.false_ne_true,tsWritePacket_eq hfits]
  cases hpes : pesOf w.ctx pkt with
  | none => exact ⟨h.dropped hpes,rfl,w.ctx.ring,rfl⟩
  | some pes =>
    obtain ⟨payload,pts⟩ := pes
    obtain ⟨hlen,hpts⟩ := pesOf_fits hfits hpes
    obtain ⟨hpid,hcc,hring,-,hmode,-⟩ := prepared_senders w.ctx pkt
    have hcached : Cached cell (prepared w.ctx pkt).ring w.produced := hring ▸ h.cached
    have hsending := h.sending.congr hmode hpid hcc
    refine ((tsWritePes_ensures hcached hsending pkt.streamIndex hlen pts).mapFailed _).bind ?_
    rintro s' ⟨r,rfl,hr⟩
    exact ⟨h.written hpes hpts hr,rfl,r,rfl⟩

theorem packetStep (h : Recorded cell w) (hfits : PacketFits w.ctx pkt) :
    (Ts.packetStep fsWrite w pkt).Ensures (Recorded cell) :=
  (h.packetStep_next hfits).imp fun _ hw => hw.1

end Recorded

def output (r : TsCache) : List UInt8 :=
  r.written ++ (ringSlice r.cell cachePackets r.tsReadPtr (r.cacheSize/tsPacketSize)).flatten

variable {cell : ℕ → List UInt8} {ps : List (List UInt8)} {r : TsCache}

theorem output_eq (h : Cached cell r ps) : output r = ps.flatten := by
  obtain ⟨pages,hat,-⟩ := h.cachedAt
  have hcount : r.cacheSize/tsPacketSize = ps.length-pages*pagePackets := by
    rw [hat.size]
    exact Nat.mul_div_cancel_left _ (by decide)
  unfold output
  rw [hcount,hat.readPtr,ringSlice_mod,hat.written,← flatten_append,hat.spilled.file_append_live]

section
variable {fsWrite : List UInt8 → Bool}

theorem flushPackets_ensures (n : ℕ) {k : ℕ} (hptr : wrapPtr r.tsReadPtr = k % cachePackets)
    (hcell : ∀ j < n, ps[k+j]? = some (r.cell ((k+j) % cachePackets)))
    (hwritten : r.written = (ps.take k).flatten) :
    (flushPackets fsWrite n r).Ensures fun r' => r'.written = (ps.take (k+n)).flatten := by
  induction n generalizing k r with
  | zero => exact hwritten
  | succ n ih =>
    unfold flushPackets
    dsimp only
    rw [hptr]
    split
    · have hnext : k+(n+1) = k+1+n := by omega
      rw [hnext]
      apply ih
      · have hle : k % cachePackets+1 ≤ cachePackets := Nat.mod_lt _ (by decide)
        rw [wrapPtr_eq hle,Nat.mod_add_mod]
      · intro j hj
        have hget := hcell (1+j) (by omega)
        rw [← add_assoc] at hget
        exact hget
      · have hfirst := hcell 0 (Nat.succ_pos n)
        rw [add_zero] at hfirst
        rw [take_add_one,hfirst,hwritten,flatten_append,Option.toList_some]
        simp
    · exact trivial

theorem flushPackets_accepts (hwrite : ∀ file, fsWrite file = true) (n : ℕ) (r : TsCache) :
    (flushPackets fsWrite n r).Accepts := by
  induction n generalizing r with
  | zero => exact Outcome.accepts_done r
  | succ n ih =>
    unfold flushPackets
    rw [if_pos (hwrite _)]
    exact ih _

theorem tsWriteTrailer_ensures {s : TsMuxContext} (h : Cached cell s.ring ps)
    (hmode : s.outputBufferMode ≠ .callbackBuffer) (hlen : ps.length < 2^32) :
    (tsWriteTrailer fsWrite s).Ensures fun s' => s'.ring.written = ps.flatten := by
  obtain ⟨pages,hat,hroom⟩ := h.cachedAt
  have hle := hat.spilled.spilled_le
  have htotal : s.ring.cacheSizeTotal/tsPacketSize = ps.length := by
    rw [hat.total,Nat.mod_eq_of_lt (by unfold tsPacketSize; omega)]
    exact Nat.mul_div_cancel_left _ (by decide)
  have hstart : s.ring.cachePageNum*pagePackets % 2^32 = pages*pagePackets := by
    rw [hat.pageNum,Nat.mod_mul_mod,Nat.mod_eq_of_lt (by omega)]
  unfold tsWriteTrailer
  rw [if_neg hmode,htotal,hstart,if_neg (not_le.mpr hlen)]
  have hptr : wrapPtr s.ring.tsReadPtr = pages*pagePackets % cachePackets := by
    have hlt : pages*pagePackets % cachePackets < cachePackets := Nat.mod_lt _ (by decide)
    rw [hat.readPtr,wrapPtr_eq hlt.le,Nat.mod_mod]
  have hcell : ∀ j < ps.length-pages*pagePackets, ps[pages*pagePackets+j]? =
      some (s.ring.cell ((pages*pagePackets+j) % cachePackets)) :=
    fun j hj => hat.spilled.getElem?_eq_cell (by omega) (by omega)
  refine ((flushPackets_ensures _ hptr hcell hat.written).mapFailed _).bind ?_
  intro r hr
  rw [Nat.add_sub_cancel' hle,take_length] at hr
  exact hr

end

structure Fresh (cell : ℕ → List UInt8) (s : TsMuxContext) : Prop where
  pids : s.pidOf = senderPid
  ccs : s.ccOf = fun _ => 15
  ring : Cached cell s.ring []
  mode : s.outputBufferMode = .tsFile
  pcr : s.pcrCounter = 0
  card : s.isSdcardDisappear = false

namespace Fresh
variable {cell : ℕ → List UInt8} {s : TsMuxContext}

theorem newContext (cell : ℕ → List UInt8) : Fresh cell (Ts.newContext cell) where
  pids := ext rfl rfl (Fin.forall_fin_two.mpr ⟨rfl,rfl⟩)
  ccs := ext rfl rfl fun _ => rfl
  ring := cached_empty cell
  mode := rfl
  pcr := rfl
  card := rfl

theorem setStream (h : Fresh cell s) {i : Fin 2} (hpid : st.pid = (s.streams i).pid)
    (hcc : st.cc = (s.streams i).cc) : Fresh cell (s.setStream i st) where
  __ := h
  pids := (pidOf_setStream hpid).trans h.pids
  ccs := (ccOf_setStream hcc).trans h.ccs

theorem countStream (h : Fresh cell s) (n : ℕ) : Fresh cell { s with nbStreams := n } where
  __ := h
  pids := (pidOf_congr rfl rfl rfl).trans h.pids
  ccs := (ccOf_congr rfl rfl rfl).trans h.ccs

variable {s' : TsMuxContext}

theorem setTsVideoInfo (h : Fresh cell s) {isH264 : Bool}
    (hset : Ts.setTsVideoInfo s isH264 = some s') : Fresh cell s' := by
  unfold Ts.setTsVideoInfo at hset
  split at hset
  · cases hset
    apply countStream
    apply h.setStream <;> rfl
  · cases hset

theorem setTsAudioInfo (h : Fresh cell s) {info : MuxerAudioStreamInfo}
    (hset : Ts.setTsAudioInfo s info = some s') : Fresh cell s' := by
  obtain ⟨codec,-,rfl⟩ := Option.map_eq_some_iff.mp hset
  apply countStream
  apply h.setStream <;> rfl

theorem tsMuxerSetMediaInfo {info : CdxMuxerMediaInfo}
    (hset : Ts.tsMuxerSetMediaInfo cell info = some s) : Fresh cell s := by
  obtain ⟨s₁,hvideo,haudio⟩ := Option.bind_eq_some_iff.mp hset
  have hs₁ : Fresh cell s₁ := by
    cases hv : info.video with
    | none =>
      rw [hv] at hvideo
      cases hvideo
      exact newContext cell
    | some isH264 =>
      rw [hv] at hvideo
      exact (newContext cell).setTsVideoInfo hvideo
  cases ha : info.audio with
  | none =>
    rw [ha] at haudio
    cases haudio
    exact hs₁
  | some audio =>
    rw [ha] at haudio
    exact hs₁.setTsAudioInfo haudio

end Fresh

def startWorld (s : TsMuxContext) (extra : Fin 2 → List UInt8) : TsWorld where
  ctx := tsMuxerWriteExtraData (tsMuxerWriteExtraData s (extra 0) 0) (extra 1) 1
  sent := fun _ => []
  produced := []

section
variable {cell : ℕ → List UInt8} {s : TsMuxContext} (h : Fresh cell s) (extra : Fin 2 → List UInt8)
include h extra

theorem fresh_startWorld : Fresh cell (startWorld s extra).ctx := by
  apply Fresh.setStream
  · apply h.setStream <;> rfl
  · rfl
  · rfl

theorem recorded_startWorld : Recorded cell (startWorld s extra) := by
  have hfresh := fresh_startWorld h extra
  constructor
  · exact hfresh.ring
  · rw [hfresh.mode]
    decide
  · exact hfresh.pids
  · rw [hfresh.ccs]
    exact Wellformed.nil
  · rw [hfresh.pcr]
    decide
  · exact hfresh.card
  · intro i
    rfl

end

/-- The output is a sequence of transport packets with continuous counters, from which a
receiver gets the payloads of both streams back, with their times; the trailer leaves just
these packets in the file. -/
def Invertible (fsWrite : List UInt8 → Bool) (w : TsWorld) : Prop :=
  ∃ ps, output w.ctx.ring = ps.flatten ∧ (∀ p ∈ ps, p.length = 188 ∧ p.head? = some 0x47) ∧
    (∀ id, Continuous (counters id ps)) ∧
    (∀ i, demux (w.ctx.streams i).pid ps = (w.sent i).map expectedPes) ∧
    (ps.length < 2^32 →
      (tsWriteTrailer fsWrite w.ctx).Ensures fun s' => s'.ring.written = ps.flatten)

variable {w : TsWorld}

theorem Recorded.invertible (h : Recorded cell w) (fsWrite : List UInt8 → Bool) :
    Invertible fsWrite w := by
  refine ⟨w.produced,output_eq h.cached,h.wellformed.shape,h.wellformed.continuous,?_,
    tsWriteTrailer_ensures h.cached h.mode⟩
  intro i
  have hpid : (w.ctx.streams i).pid = senderPid (.stream i) := congrFun h.pids (.stream i)
  rw [hpid]
  exact h.recovered i

/-- Every recording whose packets fit can be read back. -/
theorem ts_packets_invertible (fsWrite : List UInt8 → Bool) (cell : ℕ → List UInt8)
    (info : CdxMuxerMediaInfo) (extra : Fin 2 → List UInt8) (pkts : List Packet)
    (s : TsMuxContext) (hset : tsMuxerSetMediaInfo cell info = some s)
    (hfits : GuardedCalls (packetStep fsWrite) (fun w => PacketFits w.ctx)
      (startWorld s extra) pkts) :
    (runCalls (packetStep fsWrite) (startWorld s extra) pkts).Ensures (Invertible fsWrite) := by
  have hstart := recorded_startWorld (Fresh.tsMuxerSetMediaInfo hset) extra
  have hrun := runCalls_invariant (Recorded cell) (fun w pkt hw hpkt => hw.packetStep hpkt) pkts
    (startWorld s extra) hstart hfits
  exact hrun.imp fun w hw => hw.invertible fsWrite

def videoOnly : CdxMuxerMediaInfo := { video := some true, audio := none }

def videoContext : TsMuxContext :=
  { (newContext fun _ => []).setStream 0 { newStream 0 with codecId := .h264 } with
    nbStreams := 1 }

theorem setMediaInfo_videoOnly :
    tsMuxerSetMediaInfo (fun _ => []) videoOnly = some videoContext := rfl

def twoFrames : List Packet :=
  [{ streamIndex := 0, buf := [0x65,0x88], pts := 40 },
    { streamIndex := 0, buf := [0x41], pts := 80 }]

theorem ts_packets_invertible_of_two_frames :
    GuardedCalls (packetStep fun _ => true) (fun w => PacketFits w.ctx)
      (startWorld videoContext fun _ => [0x67]) twoFrames ∧
    (runCalls (packetStep fun _ => true) (startWorld videoContext fun _ => [0x67])
      twoFrames).Ensures (Invertible fun _ => true) := by
  have hfits : GuardedCalls (packetStep fun _ => true) (fun w => PacketFits w.ctx)
      (startWorld videoContext fun _ => [0x67]) twoFrames := by decide +kernel
  exact ⟨hfits,ts_packets_invertible _ _ videoOnly _ _ _ setMediaInfo_videoOnly hfits⟩

/-- Extra data that does not fit behind the access unit delimiter is copied over the end of
the payload buffer. -/
theorem packetStep_overrun {fsWrite : List UInt8 → Bool} (hcard : w.ctx.isSdcardDisappear = false)
    (hc : (w.ctx.streams pkt.streamIndex).codecId = .h264)
    (hlong : w.ctx.pesBufsize < (h264Head (w.ctx.streams pkt.streamIndex)).length) :
    packetStep fsWrite w pkt = .undefined := by
  have hwrite : tsMuxerWritePacket fsWrite w.ctx pkt = .undefined := by
    unfold tsMuxerWritePacket
    rw [hcard,if_neg Bool.false_ne_true]
    simp only [tsWritePacket,hc,writeH264]
    exact if_pos hlong
  unfold packetStep
  rw [hwrite]
  rfl

theorem packetStep_long_extra_data {v : List UInt8} (hv : 524282 < v.length) :
    packetStep (fun _ => true) (startWorld videoContext fun _ => v)
      { streamIndex := 0, buf := [], pts := 0 } = .undefined := by
  apply packetStep_overrun rfl rfl
  show 524288 < (accessUnitDelimiter ++ v).length
  rw [length_append]
  show 524288 < 6+v.length
  omega

theorem extra_data_overruns_pes_buffer :
    tsMuxerSetMediaInfo (fun _ => []) videoOnly = some videoContext ∧
      ¬ (runCalls (packetStep fun _ => true)
        (startWorld videoContext fun _ => replicate 524283 0)
        [{ streamIndex := 0, buf := [], pts := 0 }]).Ensures (Invertible fun _ => true) := by
  have hlong : 524282 < (replicate 524283 (0 : UInt8)).length := by
    rw [length_replicate]
    decide
  refine ⟨rfl,?_⟩
  rw [runCalls,packetStep_long_extra_data hlong]
  exact id

end TinaPackage.Ts
