import TinaPackage.SpillCache
import TinaPackage.TsPackets

/-! The packet ring in front of the file: every packet that goes in is in the file or still
in the ring, and what the packet loops of the muxer put in. -/
namespace TinaPackage.Ts
open Function List Nat TransportStream

/-- The first `pages` pages of the packets `ps` are in the file, the others in the ring. -/
structure CachedAt (r : TsCache) (ps : List (List UInt8)) (pages : ℕ) : Prop where
  spilled : Spilled r.cell cachePackets pagePackets ps pages (ps.take (pages*pagePackets))
  written : r.written = (ps.take (pages*pagePackets)).flatten
  writePtr : r.tsWritePtr = ps.length % cachePackets
  readPtr : r.tsReadPtr = pages*pagePackets % cachePackets
  size : r.cacheSize = tsPacketSize*(ps.length-pages*pagePackets)
  total : r.cacheSizeTotal = tsPacketSize*ps.length % 2^64
  pageNum : r.cachePageNum = pages % 2^32

def putPacket (r : TsCache) (packet : List UInt8) : TsCache :=
  let r := storePacket r packet
  if r.cacheSize ≥ cachePackets*tsPacketSize then writePage r else r

/-- The ring after the packets `ps` were put in one after the other, from a ring with the
content `cell` on. -/
def Cached (cell : ℕ → List UInt8) (r : TsCache) (ps : List (List UInt8)) : Prop :=
  r = ps.foldl putPacket (newContext cell).ring

theorem wrapPtr_eq {p : ℕ} (hp : p ≤ cachePackets) : wrapPtr p = p % cachePackets := by
  unfold wrapPtr
  unfold cachePackets at hp ⊢
  split <;> omega

theorem cached_empty (cell : ℕ → List UInt8) : Cached cell (newContext cell).ring [] := rfl

variable {cell : ℕ → List UInt8} {ps : List (List UInt8)}

theorem Cached.putPacket {r : TsCache} (h : Cached cell r ps) (p : List UInt8) :
    Cached cell (Ts.putPacket r p) (ps ++ [p]) := by
  unfold Cached at h ⊢
  rw [foldl_append,← h]
  rfl

namespace CachedAt
variable {r : TsCache} {ps : List (List UInt8)} {pages : ℕ}

theorem storePacket (h : CachedAt r ps pages)
    (hroom : ps.length < pages*pagePackets+cachePackets) (p : List UInt8) :
    CachedAt (Ts.storePacket r p) (ps ++ [p]) pages := by
  have hle := h.spilled.spilled_le
  have hpush := h.spilled.push hroom p
  have htake : (ps ++ [p]).take (pages*pagePackets) = ps.take (pages*pagePackets) :=
    take_append_of_le_length hle
  have hlen : (ps ++ [p]).length = ps.length+1 := by
    rw [length_append,length_singleton]
  constructor
  · show Spilled (update r.cell r.tsWritePtr p) _ _ _ _ _
    rw [h.writePtr,htake]
    exact hpush
  · rw [htake]
    exact h.written
  · show wrapPtr (r.tsWritePtr+1) = _
    have hlt : ps.length % cachePackets+1 ≤ cachePackets := mod_lt _ (by decide)
    rw [h.writePtr,wrapPtr_eq hlt,hlen,mod_add_mod]
  · exact h.readPtr
  · show (r.cacheSize+tsPacketSize) % 2^32 = _
    rw [h.size,hlen]
    unfold tsPacketSize cachePackets pagePackets at *
    omega
  · show (r.cacheSizeTotal+tsPacketSize) % 2^64 = _
    rw [h.total,hlen,mod_add_mod,mul_succ]
  · exact h.pageNum

theorem page_eq (h : CachedAt r ps pages) :
    (range pagePackets).map (fun j => r.cell (r.tsReadPtr+j)) =
      ringSlice r.cell cachePackets (pages*pagePackets) pagePackets := by
  have hinside : pages*pagePackets % cachePackets+pagePackets ≤ cachePackets :=
    page_start_add_le (by decide) (by decide) pages
  rw [h.readPtr,ringSlice_of_le r.cell hinside]

theorem writePage (h : CachedAt r ps pages) (hfull : (pages+1)*pagePackets ≤ ps.length) :
    CachedAt (Ts.writePage r) ps (pages+1) := by
  have hspill := h.spilled.spill hfull
  have hmul : (pages+1)*pagePackets = pages*pagePackets+pagePackets :=
    succ_mul pages pagePackets
  constructor
  · rw [hspill.file_eq] at hspill
    exact hspill
  · show r.written ++ (range pagePackets).flatMap (fun j => r.cell (r.tsReadPtr+j)) = _
    rw [flatMap_def,h.page_eq,h.written,← flatten_append,hspill.file_eq]
  · exact h.writePtr
  · show wrapPtr (r.tsReadPtr+pagePackets) = _
    have hinside : pages*pagePackets % cachePackets+pagePackets ≤ cachePackets :=
      page_start_add_le (by decide) (by decide) pages
    rw [h.readPtr,wrapPtr_eq hinside,mod_add_mod,hmul]
  · show r.cacheSize-tsPacketSize*pagePackets = _
    rw [h.size,hmul,sub_add_eq,Nat.mul_sub tsPacketSize (_-_)]
  · exact h.total
  · show (r.cachePageNum+1) % 2^32 = _
    rw [h.pageNum,mod_add_mod]

theorem empty (cell : ℕ → List UInt8) : CachedAt (newContext cell).ring [] 0 := by
  constructor
  · exact Spilled.empty cell _ _
  all_goals rfl

theorem putPacket (h : CachedAt r ps pages)
    (hroom : ps.length < pages*pagePackets+cachePackets) (p : List UInt8) :
    ∃ pages', CachedAt (Ts.putPacket r p) (ps ++ [p]) pages' ∧
      (ps ++ [p]).length < pages'*pagePackets+cachePackets := by
  have hstored := h.storePacket hroom p
  have hlen : (ps ++ [p]).length = ps.length+1 := by
    rw [length_append,length_singleton]
  have hsize := hstored.size
  unfold Ts.putPacket
  by_cases hfull : (Ts.storePacket r p).cacheSize ≥ cachePackets*tsPacketSize
  · -- the ring has 1024 packets now
    have hpage : (pages+1)*pagePackets ≤ (ps ++ [p]).length := by
      unfold cachePackets tsPacketSize pagePackets at *
      omega
    rw [if_pos hfull]
    refine ⟨pages+1,hstored.writePage hpage,?_⟩
    unfold cachePackets pagePackets at *
    omega
  · rw [if_neg hfull]
    refine ⟨pages,hstored,?_⟩
    unfold cachePackets tsPacketSize pagePackets at *
    omega

end CachedAt

theorem Cached.cachedAt {r : TsCache} (h : Cached cell r ps) :
    ∃ pages, CachedAt r ps pages ∧ ps.length < pages*pagePackets+cachePackets := by
  subst h
  induction ps using reverseRecOn with
  | nil => exact ⟨0,CachedAt.empty cell,by decide⟩
  | append_singleton ps p ih =>
    obtain ⟨pages,hat,hroom⟩ := ih
    rw [foldl_append]
    exact hat.putPacket hroom p

def TsMuxContext.setRing (s : TsMuxContext) (r : TsCache) : TsMuxContext := { s with ring := r }

section Put
variable {fsWrite : List UInt8 → Bool} {cell : ℕ → List UInt8} {s : TsMuxContext}
  {ps : List (List UInt8)}

theorem cachePacket_ensures (h : Cached cell s.ring ps)
    (hmode : s.outputBufferMode ≠ .callbackBuffer) (p : List UInt8) :
    (cachePacket fsWrite s p).Ensures fun s' =>
      ∃ r, s' = s.setRing r ∧ Cached cell r (ps ++ [p]) := by
  have hput := h.putPacket p
  unfold cachePacket
  unfold putPacket at hput
  by_cases hfull : (storePacket s.ring p).cacheSize ≥ cachePackets*tsPacketSize
  · rw [if_pos hfull] at hput
    rw [if_pos ⟨hmode,hfull⟩]
    split
    · exact ⟨_,rfl,hput⟩
    · exact trivial
  · rw [if_neg hfull] at hput
    rw [if_neg fun hboth => hfull hboth.2]
    exact ⟨_,rfl,hput⟩

theorem cachePacket_accepts (hwrite : ∀ file, fsWrite file = true) (p : List UInt8) :
    (cachePacket fsWrite s p).Accepts := by
  simp only [cachePacket]
  split
  · rw [if_pos (hwrite _)]
    exact Outcome.accepts_done _
  · exact Outcome.accepts_done _

end Put

/-- Who sends packets with a counter: the two sections and the two streams. -/
inductive Sender where
  | table (k : SectionKey)
  | stream (i : Fin 2)
  deriving DecidableEq

theorem Sender.ext {α : Type*} {f g : Sender → α} (hpat : f (.table .pat) = g (.table .pat))
    (hpmt : f (.table .pmt) = g (.table .pmt)) (hstream : ∀ i, f (.stream i) = g (.stream i)) :
    f = g := by
  funext k
  match k with
  | .table .pat => exact hpat
  | .table .pmt => exact hpmt
  | .stream i => exact hstream i

namespace TsMuxContext
variable (s : TsMuxContext)

def pidOf : Sender → ℕ
  | .table k => (s.sectionOf k).pid
  | .stream i => (s.streams i).pid

def ccOf : Sender → ℕ
  | .table k => (s.sectionOf k).cc
  | .stream i => (s.streams i).cc

def setCc (k : Sender) (cc : ℕ) : TsMuxContext :=
  match k with
  | .table k => s.setSectionCc k cc
  | .stream i => s.setStream i { s.streams i with cc := cc }

variable (k : Sender) (cc : ℕ) (r : TsCache)

theorem setCc_self : s.setCc k (s.ccOf k) = s := by
  cases k with
  | table k => cases k <;> rfl
  | stream i =>
    have hstreams := update_eq_self i s.streams
    exact congrArg (fun f => { s with streams := f }) hstreams

theorem ring_setCc : (s.setCc k cc).ring = s.ring := by
  cases k with
  | table k => cases k <;> rfl
  | stream i => rfl

theorem mode_setCc : (s.setCc k cc).outputBufferMode = s.outputBufferMode := by
  cases k with
  | table k => cases k <;> rfl
  | stream i => rfl

theorem streams_setCc (i : Fin 2) :
    ((s.setCc (.stream i) cc).setRing r).streams i = { s.streams i with cc := cc } :=
  update_self i _ s.streams

theorem streams_setCc_other {i j : Fin 2} (h : j ≠ i) :
    ((s.setCc (.stream i) cc).setRing r).streams j = s.streams j :=
  update_of_ne h _ s.streams

theorem pidOf_setCc (k' : Sender) : ((s.setCc k cc).setRing r).pidOf k' = s.pidOf k' := by
  cases k with
  | table k => cases k <;> cases k' <;> first | rfl | (rename_i k'; cases k' <;> rfl)
  | stream i =>
    cases k' with
    | table k' => cases k' <;> rfl
    | stream j =>
      by_cases hj : j = i
      · subst hj
        show (((s.setCc (.stream j) cc).setRing r).streams j).pid = (s.streams j).pid
        rw [s.streams_setCc]
      · exact congrArg AVStream.pid (s.streams_setCc_other cc r hj)

theorem ccOf_setCc : ((s.setCc k cc).setRing r).ccOf k = cc := by
  cases k with
  | table k => cases k <;> rfl
  | stream i => exact congrArg AVStream.cc (s.streams_setCc cc r i)

theorem ccOf_setCc_other {k' : Sender} (h : k' ≠ k) :
    ((s.setCc k cc).setRing r).ccOf k' = s.ccOf k' := by
  cases k with
  | table k =>
    cases k' with
    | table k' => cases k <;> cases k' <;> first | rfl | exact absurd rfl h
    | stream i => cases k <;> rfl
  | stream i =>
    cases k' with
    | table k' => cases k' <;> rfl
    | stream j =>
      have hj : j ≠ i := fun hji => h (congrArg Sender.stream hji)
      exact congrArg AVStream.cc (s.streams_setCc_other cc r hj)

theorem setCc_setCc (cc' : ℕ) (r' : TsCache) :
    (((s.setCc k cc).setRing r).setCc k cc').setRing r' = (s.setCc k cc').setRing r' := by
  cases k with
  | table k => cases k <;> rfl
  | stream i =>
    have hstreams : update ((s.setCc (.stream i) cc).setRing r).streams i
        { ((s.setCc (.stream i) cc).setRing r).streams i with cc := cc' } =
        update s.streams i { s.streams i with cc := cc' } := by
      rw [s.streams_setCc]
      exact update_idem _ _ s.streams
    exact congrArg (fun f => { s with streams := f, ring := r' }) hstreams

end TsMuxContext

/-- The packets of a unit with payloads `ds` have been put into the ring behind `ps`. -/
def UnitSent (cell : ℕ → List UInt8) (s s' : TsMuxContext) (k : Sender) (start : Bool)
    (ds ps : List (List UInt8)) : Prop :=
  ∃ r, s' = (s.setCc k ((s.ccOf k+ds.length) % 16)).setRing r ∧
    Cached cell r (ps ++ sendUnit (s.pidOf k) (s.ccOf k) start ds)

section
variable {cell : ℕ → List UInt8} {s : TsMuxContext} {k : Sender} {ps : List (List UInt8)}

theorem unitSent_nil (start : Bool) (h : Cached cell s.ring ps) (hcc : s.ccOf k < 16) :
    UnitSent cell s s k start [] ps := by
  refine ⟨s.ring,?_,by simpa only [sendUnit,append_nil] using h⟩
  rw [length_nil,Nat.add_zero,mod_eq_of_lt hcc,s.setCc_self]
  rfl

theorem unitSent_turn {fsWrite : List UInt8 → Bool} {start : Bool} {d : List UInt8}
    {ds : List (List UInt8)} {rest : TsMuxContext → Outcome TsMuxContext TsMuxContext}
    (h : Cached cell s.ring ps) (hmode : s.outputBufferMode ≠ .callbackBuffer)
    (hrest : ∀ r, Cached cell r (ps ++ [packet (s.pidOf k) ((s.ccOf k+1) % 16) start d]) →
      (rest ((s.setCc k ((s.ccOf k+1) % 16)).setRing r)).Ensures fun s' =>
        UnitSent cell ((s.setCc k ((s.ccOf k+1) % 16)).setRing r) s' k false ds
          (ps ++ [packet (s.pidOf k) ((s.ccOf k+1) % 16) start d])) :
    ((cachePacket fsWrite (s.setCc k ((s.ccOf k+1) % 16))
      (packet (s.pidOf k) ((s.ccOf k+1) % 16) start d)).bind rest).Ensures fun s' =>
        UnitSent cell s s' k start (d :: ds) ps := by
  have hring : Cached cell (s.setCc k ((s.ccOf k+1) % 16)).ring ps := by rwa [s.ring_setCc]
  have hfile : (s.setCc k ((s.ccOf k+1) % 16)).outputBufferMode ≠ .callbackBuffer := by
    rwa [s.mode_setCc]
  refine (cachePacket_ensures hring hfile _).bind ?_
  rintro s₁ ⟨r,rfl,hr⟩
  apply (hrest r hr).imp
  rintro s' ⟨r',rfl,hr'⟩
  rw [s.ccOf_setCc,s.pidOf_setCc,append_assoc] at hr'
  refine ⟨r',?_,hr'⟩
  have hcount : ((s.ccOf k+1) % 16+ds.length) % 16 = (s.ccOf k+(d :: ds).length) % 16 := by
    rw [length_cons]
    omega
  rw [s.ccOf_setCc,s.setCc_setCc,hcount]

end

section Loops
variable {fsWrite : List UInt8 → Bool} {cell : ℕ → List UInt8}

theorem sendSection_ensures (k : SectionKey) (turns : ℕ) (first : Bool) (s : TsMuxContext)
    (buf : List UInt8) (ps : List (List UInt8)) (h : Cached cell s.ring ps)
    (hmode : s.outputBufferMode ≠ .callbackBuffer) (hpid : s.pidOf (.table k) < 8192)
    (hcc : s.ccOf (.table k) < 16) :
    (sendSection fsWrite k turns first s buf).Ensures fun s' =>
      UnitSent cell s s' (.table k) first (sectionPayloads turns first buf) ps := by
  induction turns generalizing first s buf ps with
  | zero => exact unitSent_nil first h hcc
  | succ turns ih =>
    unfold sendSection sectionPayloads
    by_cases hbuf : buf = []
    · rw [if_pos hbuf,if_pos hbuf]
      exact unitSent_nil first h hcc
    · have hnext : (s.ccOf (.table k)+1) % 16 < 16 := mod_lt _ (by decide)
      rw [if_neg hbuf,if_neg hbuf]
      simp only [length_sectionHeader]
      show ((cachePacket fsWrite (s.setCc (.table k) ((s.ccOf (.table k)+1) % 16))
        (sectionPacket (s.pidOf (.table k)) ((s.ccOf (.table k)+1) % 16) first buf)).bind
          _).Ensures _
      rw [sectionPacket_eq first buf hpid hnext]
      apply unitSent_turn h hmode
      intro r hr
      apply ih _ _ _ _ hr
      · exact (s.mode_setCc ..).trans_ne hmode
      · rwa [s.pidOf_setCc]
      · rwa [s.ccOf_setCc]

theorem sendPes_ensures (i : Fin 2) (pts : ℤ) (turns : ℕ) (start : Bool) (s : TsMuxContext)
    (payload : List UInt8) (ps : List (List UInt8)) (h : Cached cell s.ring ps)
    (hmode : s.outputBufferMode ≠ .callbackBuffer) (hpid : s.pidOf (.stream i) < 8192)
    (hcc : s.ccOf (.stream i) < 16) :
    (sendPes fsWrite i pts turns start s payload).Ensures fun s' =>
      UnitSent cell s s' (.stream i) start
        (pesPayloads (s.streams i).codecId pts turns start payload) ps := by
  induction turns generalizing start s payload ps with
  | zero => exact unitSent_nil start h hcc
  | succ turns ih =>
    unfold sendPes pesPayloads
    by_cases hpayload : payload = []
    · rw [if_pos hpayload,if_pos hpayload]
      exact unitSent_nil start h hcc
    · set st : AVStream := { s.streams i with cc := (s.ccOf (.stream i)+1) % 16 }
      have hnext : st.cc < 16 := mod_lt _ (by decide)
      have hpacket : pesPacket st start payload pts = packet st.pid st.cc start
          (pesPayload st.codecId start payload pts) := pesPacket_eq start payload pts hpid hnext
      rw [if_neg hpayload,if_neg hpayload]
      simp only [length_pesPacketHead]
      show ((cachePacket fsWrite (s.setCc (.stream i) ((s.ccOf (.stream i)+1) % 16))
        (pesPacket st start payload pts)).bind _).Ensures _
      rw [hpacket]
      apply unitSent_turn h hmode
      intro r hr
      -- the codec of the stream is the same in the next turn
      set s' := (s.setCc (.stream i) ((s.ccOf (.stream i)+1) % 16)).setRing r with hs'
      have hcodec : (s'.streams i).codecId = (s.streams i).codecId := by
        rw [hs',s.streams_setCc]
      rw [← hcodec]
      apply ih false s'
      · rw [hcodec]
        exact hr
      · exact (s.mode_setCc ..).trans_ne hmode
      · rwa [hs',s.pidOf_setCc]
      · rwa [hs',s.ccOf_setCc]

end Loops

def sectionBytes (tid id : ℕ) (data : List UInt8) : List UInt8 :=
  let head := [UInt8.ofNat tid] ++ be16 (0xb000 ||| (data.length+5+4)) ++ be16 id ++
    [UInt8.ofNat (0xc1 ||| 1 <<< 1),UInt8.ofNat 0,UInt8.ofNat 0] ++ data
  head ++ be32 (generateCRC32 head).toNat

def sectionUnit (bytes : List UInt8) : List (List UInt8) :=
  sectionPayloads bytes.length true bytes

variable (s : TsMuxContext)

def patUnit : List (List UInt8) := sectionUnit (sectionBytes 0x00 s.tsid (patData s))

def pmtUnit : List (List UInt8) :=
  sectionUnit (sectionBytes 0x02 s.service.sid (pmtData s))

-- comparing contexts must not compute the sections
attribute [local irreducible] patUnit pmtUnit

def afterSiInfo : TsMuxContext :=
  if s.patPacketCount = s.patPacketPeriod then
    { ((s.setCc (.table .pat) ((s.ccOf (.table .pat)+(patUnit s).length) % 16)).setCc
        (.table .pmt) ((s.ccOf (.table .pmt)+(pmtUnit s).length) % 16)) with
      patPacketCount := 0
      pcrCounter := (s.pcrCounter+1) % 16 }
  else s

def siPackets (pts : ℤ) : List (List UInt8) :=
  if s.patPacketCount = s.patPacketPeriod then
    sendUnit (s.pidOf (.table .pat)) (s.ccOf (.table .pat)) true (patUnit s) ++
      sendUnit (s.pidOf (.table .pmt)) (s.ccOf (.table .pmt)) true (pmtUnit s) ++
      [pcrPacket s.pcrCounter pts]
  else []

variable (i : Fin 2) (payload : List UInt8) (pts : ℤ)

def pesUnit : List (List UInt8) :=
  pesPayloads (s.streams i).codecId pts payload.length true payload

def pesPackets : List (List UInt8) :=
  siPackets s pts ++
    sendUnit (s.pidOf (.stream i)) (s.ccOf (.stream i)) true (pesUnit s i payload pts)

def afterPes : TsMuxContext :=
  { (afterSiInfo s).setCc (.stream i)
      ((s.ccOf (.stream i)+(pesUnit s i payload pts).length) % 16) with
    patPacketCount := (afterSiInfo s).patPacketCount+1 }

/-- A context whose packets are well formed and go to a file. -/
structure Sending : Prop where
  mode : s.outputBufferMode ≠ .callbackBuffer
  pid_lt : ∀ k, s.pidOf k < 8192
  cc_lt : ∀ k, s.ccOf k < 16

section
variable {s s' : TsMuxContext} (hpat : s'.pat = s.pat) (hservice : s'.service = s.service)
  (hstreams : s'.streams = s.streams)
include hpat hservice hstreams

theorem pidOf_congr : s'.pidOf = s.pidOf :=
  Sender.ext (congrArg MpegTSSection.pid hpat) (congrArg (fun v => v.pmt.pid) hservice)
    fun i => congrArg (fun f => (f i).pid) hstreams

theorem ccOf_congr : s'.ccOf = s.ccOf :=
  Sender.ext (congrArg MpegTSSection.cc hpat) (congrArg (fun v => v.pmt.cc) hservice)
    fun i => congrArg (fun f => (f i).cc) hstreams

end

namespace Sending
variable {s : TsMuxContext}

theorem congr {s' : TsMuxContext} (h : Sending s) (hmode : s'.outputBufferMode = s.outputBufferMode)
    (hpid : s'.pidOf = s.pidOf) (hcc : s'.ccOf = s.ccOf) : Sending s' where
  mode := hmode.trans_ne h.mode
  pid_lt := hpid ▸ h.pid_lt
  cc_lt := hcc ▸ h.cc_lt

theorem setCc (h : Sending s) (k : Sender) (n : ℕ) (r : TsCache) :
    Sending ((s.setCc k (n % 16)).setRing r) where
  mode := (s.mode_setCc k (n % 16)).trans_ne h.mode
  pid_lt := by
    intro k'
    rw [s.pidOf_setCc]
    exact h.pid_lt k'
  cc_lt := by
    intro k'
    by_cases hk : k' = k
    · rw [hk,s.ccOf_setCc]
      exact mod_lt _ (by decide)
    · rw [s.ccOf_setCc_other _ _ _ hk]
      exact h.cc_lt k'

end Sending

section Pes
variable {fsWrite : List UInt8 → Bool} {cell : ℕ → List UInt8} {s : TsMuxContext}
  {ps : List (List UInt8)}

section
variable (h : Cached cell s.ring ps) (hs : Sending s)
include h hs

theorem tsWriteSection1_ensures (k : SectionKey) (tid id : ℕ) (data : List UInt8) :
    (tsWriteSection1 fsWrite s k tid id 1 0 0 data).Ensures fun s' =>
      UnitSent cell s s' (.table k) true (sectionUnit (sectionBytes tid id data)) ps := by
  unfold tsWriteSection1 tsWriteSection
  split
  · exact trivial
  · split
    · exact trivial
    · exact sendSection_ensures k _ true s _ ps h hs.mode (hs.pid_lt _) (hs.cc_lt _)

theorem tsWritePat_ensures : (tsWritePat fsWrite s).Ensures fun s' =>
      UnitSent cell s s' (.table .pat) true (patUnit s) ps := by
  rw [patUnit]
  exact tsWriteSection1_ensures h hs .pat 0x00 s.tsid (patData s)

theorem tsWritePmt_ensures : (tsWritePmt fsWrite s).Ensures fun s' =>
      UnitSent cell s s' (.table .pmt) true (pmtUnit s) ps := by
  rw [pmtUnit]
  exact tsWriteSection1_ensures h hs .pmt 0x02 s.service.sid (pmtData s)

end

theorem pmtUnit_setCc (s : TsMuxContext) (cc : ℕ) (r : TsCache) :
    pmtUnit ((s.setCc (.table .pat) cc).setRing r) = pmtUnit s := by
  have hdata : pmtData ((s.setCc (.table .pat) cc).setRing r) = pmtData s := rfl
  have hsid : ((s.setCc (.table .pat) cc).setRing r).service.sid = s.service.sid := rfl
  rw [pmtUnit,pmtUnit,hdata,hsid]

theorem tsWriteSiInfo_ensures (h : Cached cell s.ring ps) (hs : Sending s) :
    (tsWriteSiInfo fsWrite s).Ensures fun s' => ∃ r,
      s' = ((s.setCc (.table .pat) ((s.ccOf (.table .pat)+(patUnit s).length) % 16)).setCc
          (.table .pmt) ((s.ccOf (.table .pmt)+(pmtUnit s).length) % 16)).setRing r ∧
        Cached cell r (ps ++
          (sendUnit (s.pidOf (.table .pat)) (s.ccOf (.table .pat)) true (patUnit s) ++
            sendUnit (s.pidOf (.table .pmt)) (s.ccOf (.table .pmt)) true (pmtUnit s))) := by
  refine (tsWritePat_ensures h hs).bind ?_
  rintro s₁ ⟨r,rfl,hr⟩
  have hs₁ := hs.setCc (.table .pat) (s.ccOf (.table .pat)+(patUnit s).length) r
  have hother : Sender.table .pmt ≠ .table .pat := by decide
  apply (tsWritePmt_ensures hr hs₁).imp
  rintro s' ⟨r',rfl,hr'⟩
  rw [s.pidOf_setCc,s.ccOf_setCc_other _ _ _ hother,pmtUnit_setCc,append_assoc] at hr'
  refine ⟨r',?_,hr'⟩
  rw [s.ccOf_setCc_other _ _ _ hother,pmtUnit_setCc]
  rfl

theorem tsWritePcrTable_ensures (h : Cached cell s.ring ps)
    (hmode : s.outputBufferMode ≠ .callbackBuffer) (pts : ℤ) :
    (tsWritePcrTable fsWrite s pts).Ensures fun s' => ∃ r,
      s' = { s with pcrCounter := (s.pcrCounter+1) % 16, ring := r } ∧
        Cached cell r (ps ++ [pcrPacket s.pcrCounter pts]) := by
  set s₁ : TsMuxContext := { s with pcrCounter := (s.pcrCounter+1) % 16 }
  have hring : Cached cell s₁.ring ps := h
  have hfile : s₁.outputBufferMode ≠ .callbackBuffer := hmode
  unfold tsWritePcrTable
  split
  · exact trivial
  · exact cachePacket_ensures hring hfile _

theorem tsRetransmitSiInfo_ensures (h : Cached cell s.ring ps) (hs : Sending s) (pts : ℤ)
    (i : Fin 2) :
    (tsRetransmitSiInfo fsWrite s pts i).Ensures fun s' => ∃ r,
      s' = (afterSiInfo s).setRing r ∧ Cached cell r (ps ++ siPackets s pts) := by
  unfold tsRetransmitSiInfo afterSiInfo siPackets
  rw [if_neg hs.mode]
  by_cases hcount : s.patPacketCount = s.patPacketPeriod
  · rw [if_pos hcount,if_pos hcount,if_pos hcount]
    set s₀ : TsMuxContext := { s with patPacketCount := 0 } with hs₀
    have hsending : Sending s₀ := hs.congr rfl (pidOf_congr rfl rfl rfl) (ccOf_congr rfl rfl rfl)
    have hring : Cached cell s₀.ring ps := h
    have hpat : patUnit s₀ = patUnit s := by
      have hdata : patData s₀ = patData s := rfl
      rw [patUnit,patUnit,hdata]
    have hpmt : pmtUnit s₀ = pmtUnit s := by
      have hdata : pmtData s₀ = pmtData s := rfl
      rw [pmtUnit,pmtUnit,hdata]
    refine (tsWriteSiInfo_ensures hring hsending).bind ?_
    rintro s₁ ⟨r,rfl,hr⟩
    rw [hpat,hpmt] at hr ⊢
    set s₁ := ((s₀.setCc (.table .pat) ((s₀.ccOf (.table .pat)+(patUnit s).length) % 16)).setCc
      (.table .pmt) ((s₀.ccOf (.table .pmt)+(pmtUnit s).length) % 16)).setRing r
    have hring₁ : Cached cell s₁.ring _ := hr
    have hmode₁ : s₁.outputBufferMode ≠ .callbackBuffer := hs.mode
    apply (tsWritePcrTable_ensures hring₁ hmode₁ pts).imp
    rintro s' ⟨r',rfl,hr'⟩
    rw [append_assoc] at hr'
    exact ⟨r',rfl,hr'⟩
  · rw [if_neg hcount,if_neg hcount,if_neg hcount]
    exact ⟨s.ring,rfl,by rwa [append_nil]⟩

theorem streams_afterSiInfo (s : TsMuxContext) : (afterSiInfo s).streams = s.streams := by
  unfold afterSiInfo
  split <;> rfl

theorem pidOf_afterSiInfo (s : TsMuxContext) : (afterSiInfo s).pidOf = s.pidOf := by
  unfold afterSiInfo
  split
  · exact Sender.ext rfl rfl fun _ => rfl
  · rfl

theorem sending_afterSiInfo (hs : Sending s) : Sending (afterSiInfo s) where
  mode := by
    unfold afterSiInfo
    split
    · exact hs.mode
    · exact hs.mode
  pid_lt := by
    rw [pidOf_afterSiInfo]
    exact hs.pid_lt
  cc_lt := by
    intro k
    unfold afterSiInfo
    split
    · match k with
      | .table .pat => exact mod_lt _ (by decide)
      | .table .pmt => exact mod_lt _ (by decide)
      | .stream i => exact hs.cc_lt (.stream i)
    · exact hs.cc_lt k

theorem tsWritePes_ensures (h : Cached cell s.ring ps) (hs : Sending s) (i : Fin 2)
    {payload : List UInt8} (hlen : payload.length+7+3 < 2^31) (pts : ℤ) :
    (tsWritePes fsWrite s i payload pts).Ensures fun s' => ∃ r,
      s' = (afterPes s i payload pts).setRing r ∧
        Cached cell r (ps ++ pesPackets s i payload pts) := by
  unfold tsWritePes
  split
  · exact trivial
  · refine (tsRetransmitSiInfo_ensures h hs pts i).bind ?_
    rintro s₁ ⟨r,rfl,hr⟩
    rw [if_neg (Nat.not_le.mpr hlen)]
    set s₂ : TsMuxContext := { (afterSiInfo s).setRing r with
      patPacketCount := (afterSiInfo s).patPacketCount+1 }
    have hs₂ : Sending s₂ :=
      (sending_afterSiInfo hs).congr rfl (pidOf_congr rfl rfl rfl) (ccOf_congr rfl rfl rfl)
    have hring : Cached cell s₂.ring (ps ++ siPackets s pts) := hr
    have hstreams : s₂.streams = s.streams := streams_afterSiInfo s
    have hpid : s₂.pidOf (.stream i) = s.pidOf (.stream i) :=
      congrArg (fun f => (f i).pid) hstreams
    have hcc : s₂.ccOf (.stream i) = s.ccOf (.stream i) := congrArg (fun f => (f i).cc) hstreams
    apply (sendPes_ensures i pts payload.length true s₂ payload _ hring hs₂.mode (hs₂.pid_lt _)
      (hs₂.cc_lt _)).imp
    rintro s' ⟨r',rfl,hr'⟩
    have hunit : pesPayloads (s₂.streams i).codecId pts payload.length true payload =
        pesUnit s i payload pts := by
      unfold pesUnit
      rw [hstreams]
    rw [hpid,hcc,hunit,append_assoc] at hr'
    refine ⟨r',?_,hr'⟩
    rw [hcc,hunit]
    rfl

end Pes

end TinaPackage.Ts
