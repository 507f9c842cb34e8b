import TinaPackage.StreamCacheRuns

/-! The sizes of the player's cache (`xplayer/cache.c`). The cache thread stops reading while the
cache overflows, and the player waits until there is enough data; a frame that is added may have to
wait for older ones to be freed. -/
namespace TinaPackage.PlayerCache
open List Option

structure Buffering where
  world : CacheWorld
  nStartPlaySize : ℤ

inductive BufferingCall
  | setSize (nStartPlaySize nMaxBufferSize : ℤ)
  | setMediaFormat (eContainerFormat : ContainerFormat) (eVideoCodecFormat : VideoCodecFormat)
  | call (call : CacheCall)

namespace Buffering

def create : Buffering where
  world := .created (10*1024*1024) .other .unknown
  nStartPlaySize := 1024

variable (b : Buffering)

def setSize (nStartPlaySize nMaxBufferSize : ℤ) : Buffering :=
  let n := (int32 (nMaxBufferSize*3)).tdiv 10
  if n ≤ 0 then b
  else
    let limit := (int32 (nMaxBufferSize*8)).tdiv 10
    { world := { b.world with cache := { b.world.cache with nMaxBufferSize } }
      nStartPlaySize := if int32 (nStartPlaySize+n) > limit then int32 (limit-n)
        else nStartPlaySize }

def setMediaFormat (eContainerFormat : ContainerFormat)
    (eVideoCodecFormat : VideoCodecFormat) : Buffering :=
  { b with world.cache.eContainerFormat := eContainerFormat
           world.cache.eVideoCodecFormat := eVideoCodecFormat }

/-- `StreamCacheDataEnough`; `startFrameNum` is `START_PLAY_CACHE_VIDEO_FRAME_NUM`. -/
def dataEnough (startFrameNum : ℤ) : Bool :=
  if b.world.cache.eVideoCodecFormat ≠ .unknown then
    b.world.cache.nDataSize ≥ b.nStartPlaySize && b.world.cache.nVideoFrameNum ≥ startFrameNum
  else b.world.cache.nDataSize ≥ b.nStartPlaySize && b.world.cache.nFrameNum > 0

def step : BufferingCall → Option Buffering
  | .setSize nStartPlaySize nMaxBufferSize => some (b.setSize nStartPlaySize nMaxBufferSize)
  | .setMediaFormat eContainerFormat eVideoCodecFormat =>
    some (b.setMediaFormat eContainerFormat eVideoCodecFormat)
  | .call call => (b.world.step call).map fun world => { b with world }

def InRange : BufferingCall → Prop
  | .setSize nStartPlaySize nMaxBufferSize =>
    FitsInt (nMaxBufferSize*8) ∧ FitsInt (nStartPlaySize+(nMaxBufferSize*3).tdiv 10)
  | .setMediaFormat _ _ => True
  | .call (.addOneFrame frame _) =>
    frame.Stamped ∧ b.world.cache.bytesHeld+frame.nLength ≤ intMax ∧
      tally .frames (b.world.cache.passedFrames ++ b.world.cache.pendingFrames)+1 ≤ intMax
  | .call (.seekTo nSeekTimeUs _) => b.world.SeekInRange nSeekTimeUs
  | .call _ => True

instance (b : Buffering) (call : BufferingCall) : Decidable (b.InRange call) := by
  unfold InRange FitsInt
  split <;> infer_instance

end Buffering

open Buffering

namespace StreamCache
variable {c : StreamCache} {passed : List (ℕ × CacheFrame)}

theorem flushPassedList_of_tail (h : c.pPassedHead = c.pTail) : c.flushPassedList = some c := by
  rw [flushPassedList,h]
  cases c.pTail with
  | none => rfl
  | some p => exact if_pos (.inr rfl)

theorem makeRoom_of_tail (h : c.pPassedHead = c.pTail)
    (hmany : c.nMaxBufferSize ≤ int32 (c.nDataSize+c.nPassedDataSize))
    (hpassed : c.minPassedDataKeptSize < c.nPassedDataSize) (fuel : ℕ) :
    c.makeRoom fuel = none := by
  induction fuel with
  | zero => rfl
  | succ fuel ih => rw [makeRoom,if_pos ⟨hmany,hpassed⟩,flushPassedList_of_tail h,bind_some,ih]

/-- A passed frame that fills the cache by itself is never freed when it is the last one, and the
loop does not end. -/
theorem makeRoom_stuck (before : List (ℕ × CacheFrame)) {last : ℕ × CacheFrame} :
    ∀ {c : StreamCache}, c.Layout (before ++ [last]) [] → c.Exact .bytes (before ++ [last]) [] →
      total .bytes (before ++ [last]) ≤ intMax → c.nMaxBufferSize ≤ last.2.nLength →
      c.minPassedDataKeptSize < last.2.nLength → ∀ fuel, c.makeRoom fuel = none := by
  induction before with
  | nil =>
    intro c h hexact hfits hlong hkept fuel
    have hpassed : c.nPassedDataSize = last.2.nLength := by
      have hp := hexact.passed
      exact hp.trans (add_zero _)
    have hpending : c.nDataSize = 0 := hexact.pending
    have hlen : 0 ≤ last.2.nLength := weight_nonneg .bytes last.2
    have hlast : last.2.nLength ≤ intMax := by
      exact hfits
    have hhead : c.pPassedHead = c.pTail := h.chain.1.trans h.tail.symm
    refine makeRoom_of_tail hhead ?_ (hpassed ▸ hkept) fuel
    rw [hpending,hpassed,zero_add,int32_total hlen hlast]
    exact hlong
  | cons x before ih =>
    intro c h hexact hfits hlong hkept fuel
    have hpassed : c.nPassedDataSize = total .bytes (x :: (before ++ [last])) := hexact.passed
    have hpending : c.nDataSize = 0 := hexact.pending
    have hx := weight_nonneg .bytes x.2
    have hbefore := total_nonneg .bytes before
    have hnonneg := total_nonneg .bytes (x :: (before ++ [last]))
    have hlast : last.2.nLength ≤ total .bytes (x :: (before ++ [last])) := by
      rw [total_cons,total_append,total_cons,total_nil]
      show weight .bytes last.2 ≤ _
      omega
    have hcons : c.Layout (x :: (before ++ [last])) [] := h
    have hbytes : c.Exact .bytes (x :: (before ++ [last])) [] := hexact
    obtain ⟨node,hnode,hframe,hstep,hlayout⟩ := hcons.flushPassedList (by simp)
    have hexact' : (c.evict x.1 node).Exact .bytes (before ++ [last]) [] :=
      hbytes.evict hframe (by rw [append_nil]; exact hfits) (by simp)
    rw [cons_append,total_cons] at hfits
    cases fuel with
    | zero => rfl
    | succ fuel =>
      rw [makeRoom,if_pos,hstep,bind_some]
      · exact ih hlayout hexact' (by omega) hlong hkept fuel
      · rw [hpending,hpassed,zero_add,int32_total hnonneg (by rw [total_cons]; omega)]
        exact ⟨le_trans hlong hlast,lt_of_lt_of_le hkept hlast⟩

/-- The last frame can stay in the cache when a frame is added: it is pending, or it leaves room. -/
def TailFits (c : StreamCache) : Prop :=
  c.pendingFrames = [] → ∀ last ∈ c.passedFrames.getLast?, last.nLength < c.nMaxBufferSize

instance (c : StreamCache) : Decidable c.TailFits := by
  unfold TailFits
  infer_instance

theorem Layout.tailFits_iff {pending : List (ℕ × CacheFrame)} (h : c.Layout passed pending) :
    c.TailFits ↔ (pending = [] → ∀ x ∈ passed.getLast?, x.2.nLength < c.nMaxBufferSize) := by
  rw [TailFits,h.pendingFrames,h.passedFrames,map_eq_nil_iff,getLast?_map]
  refine imp_congr_right fun _ => ⟨fun hall x hx => hall x.2 ?_, fun hall f hf => ?_⟩
  · rw [hx]
    rfl
  · obtain ⟨x,hx,rfl⟩ := map_eq_some_iff.mp hf
    exact hall x hx

end StreamCache

namespace Buffering
open StreamCache
variable {b : Buffering} {passed pending : List (ℕ × CacheFrame)}

/-- The sizes and numbers of the frames are exact, and the player starts before the cache is as full
as it can get. The counter of the video frames may be wrong. -/
structure Counted (b : Buffering) (passed pending : List (ℕ × CacheFrame)) : Prop where
  held : b.world.cache.Held passed pending
  exact : ∀ k, k ≠ .videos → b.world.cache.Exact k passed pending
  fits : ∀ k, total k (passed ++ pending) ≤ intMax
  size_pos : 0 < b.world.cache.nMaxBufferSize
  size_fits : b.world.cache.nMaxBufferSize*8 ≤ intMax
  start : b.nStartPlaySize ≤ b.world.cache.nMaxBufferSize*8/10-b.world.cache.nMaxBufferSize*3/10

section
variable (h : b.Counted passed pending)
include h

theorem Counted.kept : b.world.cache.minPassedDataKeptSize = b.world.cache.nMaxBufferSize*3/10 := by
  have hpos := h.size_pos
  have hfits := h.size_fits
  rw [minPassedDataKeptSize,int32_total (by omega) (by omega),Int.tdiv_eq_ediv_of_nonneg (by omega)]

variable {frame : CacheFrame}

theorem Counted.tailFits {fuel : ℕ} {c' : StreamCache}
    (hroom : (b.world.cache.allocate frame).makeRoom fuel = some c') :
    b.world.cache.TailFits := by
  have hexact := h.exact .bytes (by decide)
  rw [h.held.layout.tailFits_iff]
  rintro rfl x hx
  by_contra hlong
  obtain ⟨before,rfl⟩ : ∃ before, passed = before ++ [x] := getLast?_eq_some_iff.mp hx
  have hkept := h.kept
  have hpos := h.size_pos
  have hfits := h.fits .bytes
  rw [append_nil] at hfits
  have hstuck := makeRoom_stuck before (h.held.layout.allocate frame) (hexact.allocate frame) hfits
    (not_lt.mp hlong)
    (show b.world.cache.minPassedDataKeptSize < x.2.nLength by omega) fuel
  rw [hstuck] at hroom
  cases hroom

/-- The loop that makes room ends if the last frame fits, and then it has freed the oldest of the
passed frames. -/
theorem Counted.makeRoom_iff (frame : CacheFrame) :
    (∃ fuel c', (b.world.cache.allocate frame).makeRoom fuel = some c' ∧
      c'.passedFrames <:+ b.world.cache.passedFrames) ↔ b.world.cache.TailFits := by
  have hlayout := h.held.layout
  have hexact := h.exact .bytes (by decide)
  constructor
  · rintro ⟨fuel,c',hroom,-⟩
    exact h.tailFits hroom
  · intro htail
    have hlast := hlayout.tailFits_iff.mp htail
    obtain ⟨dropped,rest,c',rfl,hroom,hlayout',-⟩ :=
      makeRoom_spec passed (hlayout.allocate frame) (hexact.allocate frame) (h.fits .bytes)
        h.held.kept hlast (Nat.lt_succ_self _)
    refine ⟨_,c',hroom,?_⟩
    rw [hlayout'.passedFrames,hlayout.passedFrames,map_append]
    exact suffix_append ..

theorem Counted.setSize {nStartPlaySize nMaxBufferSize : ℤ}
    (hg : b.InRange (.setSize nStartPlaySize nMaxBufferSize)) :
    (b.setSize nStartPlaySize nMaxBufferSize).Counted passed pending := by
  obtain ⟨⟨hlo,hhi⟩,hstart⟩ := hg
  unfold FitsInt intMax at *
  have hthree : int32 (nMaxBufferSize*3) = nMaxBufferSize*3 :=
    int32_of_range (by omega) (by unfold intMax; omega)
  have height : int32 (nMaxBufferSize*8) = nMaxBufferSize*8 := int32_of_range hlo hhi
  have hsum : int32 (nStartPlaySize+(nMaxBufferSize*3).tdiv 10) =
      nStartPlaySize+(nMaxBufferSize*3).tdiv 10 := int32_of_range hstart.1 hstart.2
  rw [Buffering.setSize,hthree,height,hsum]
  by_cases hn : (nMaxBufferSize*3).tdiv 10 ≤ 0
  · rw [if_pos hn]
    exact h
  · -- the size is positive, and all divisions are rounded down
    have hpos : 0 < nMaxBufferSize := by
      by_contra hneg
      have hnonneg : 0 ≤ (-(nMaxBufferSize*3)).tdiv 10 := Int.tdiv_nonneg (by omega) (by decide)
      rw [Int.neg_tdiv] at hnonneg
      omega
    rw [if_neg hn]
    have hdiv : (nMaxBufferSize*3).tdiv 10 = nMaxBufferSize*3/10 :=
      Int.tdiv_eq_ediv_of_nonneg (by omega)
    have hlimit : (nMaxBufferSize*8).tdiv 10 = nMaxBufferSize*8/10 :=
      Int.tdiv_eq_ediv_of_nonneg (by omega)
    rw [hdiv,hlimit]
    have hlayout := h.held.layout
    refine ⟨⟨{ hlayout with },h.held.stamped,h.held.pcr, ?_⟩,fun k hk => ?_, h.fits,hpos,hhi,?_⟩
    · show 0 ≤ (int32 (nMaxBufferSize*3)).tdiv 10
      rw [hthree]
      omega
    · obtain ⟨hpending,hpassed⟩ := h.exact k hk
      cases k <;> exact ⟨hpending,hpassed⟩
    · show (if _ then _ else _) ≤ nMaxBufferSize*8/10-nMaxBufferSize*3/10
      split_ifs with hover
      · exact le_of_eq (int32_of_range (by omega) (by unfold intMax; omega))
      · omega

variable {b' : Buffering}

theorem Counted.addOneFrame (hg : b.InRange (.call (.addOneFrame frame true)))
    (hstep : b.step (.call (.addOneFrame frame true)) = some b') :
    ∃ passed' pending', b'.Counted passed' pending' := by
  obtain ⟨hstamped,hbytes,hframes⟩ := hg
  have hlayout := h.held.layout
  have hexact := h.exact .bytes (by decide)
  -- the call returned, so that the loop has ended
  obtain ⟨w',hw',rfl⟩ := map_eq_some_iff.mp hstep
  obtain ⟨r,hr,hrw⟩ := map_eq_some_iff.mp hw'
  obtain ⟨c₁,hroom,-⟩ := bind_eq_some_iff.mp hr
  have hlast := hlayout.tailFits_iff.mp (h.tailFits hroom)
  obtain ⟨dropped,rest,c',rfl,hadd,hheld,hsame,-,-,hcounts⟩ :=
    h.held.addOneFrame hexact (h.fits .bytes) hlast hstamped
  obtain rfl : r = (c', 0) := some_inj.mp (hr.symm.trans hadd)
  subst hrw
  rw [hlayout.bytesHeld] at hbytes
  rw [hlayout.pendingFrames,hlayout.passedFrames,← map_append,← total_eq_tally] at hframes
  have hdropped (k : Counter) := total_nonneg k dropped
  have hrest (k : Counter) := total_nonneg k rest
  have hnew : ∀ k, total k (rest ++ (pending ++ [(b.world.cache.nNodes, frame)])) ≤ intMax := by
    refine CacheWorld.fits_of_bytes_frames ?_ ?_
    · have := hdropped .bytes
      simp only [total_append,total_cons,total_nil,weight] at hbytes ⊢
      omega
    · have := hdropped .frames
      simp only [total_append,total_cons,total_nil,weight] at hframes ⊢
      omega
  refine ⟨rest,_,hheld,fun k hk => ?_, hnew,?_,?_,?_⟩
  · refine hcounts k (h.exact k hk) (h.fits k) ?_ fun he => absurd he hk
    have hfits := hnew k
    rw [total_append] at hfits
    have := hrest k
    omega
  · show 0 < c'.nMaxBufferSize
    rw [hsame.nMaxBufferSize]
    exact h.size_pos
  · show c'.nMaxBufferSize*8 ≤ intMax
    rw [hsame.nMaxBufferSize]
    exact h.size_fits
  · show b.nStartPlaySize ≤ c'.nMaxBufferSize*8/10-c'.nMaxBufferSize*3/10
    rw [hsame.nMaxBufferSize]
    exact h.start

theorem Counted.of_cache {w' : CacheWorld}
    {passed' pending' : List (ℕ × CacheFrame)} (hheld : w'.cache.Held passed' pending')
    (hsize : w'.cache.nMaxBufferSize = b.world.cache.nMaxBufferSize)
    (hexact : ∀ k, k ≠ .videos → w'.cache.Exact k passed' pending')
    (hfits : ∀ k, total k (passed' ++ pending') ≤ intMax) :
    Counted { b with world := w' } passed' pending' where
  held := hheld
  exact := hexact
  fits := hfits
  size_pos := hsize ▸ h.size_pos
  size_fits := hsize ▸ h.size_fits
  start := hsize ▸ h.start

theorem Counted.step {call : BufferingCall} (hg : b.InRange call) (hstep : b.step call = some b') :
    ∃ passed' pending', b'.Counted passed' pending' := by
  cases call with
  | setSize nStartPlaySize nMaxBufferSize =>
    cases hstep
    exact ⟨passed,pending,h.setSize hg⟩
  | setMediaFormat eContainerFormat eVideoCodecFormat =>
    cases hstep
    have hlayout := h.held.layout
    refine ⟨passed,pending,⟨{ hlayout with },
      h.held.stamped,h.held.pcr,h.held.kept⟩,fun k hk => ?_, h.fits,h.size_pos,h.size_fits,h.start⟩
    obtain ⟨hpending,hpassed⟩ := h.exact k hk
    cases k <;> exact ⟨hpending,hpassed⟩
  | call call =>
    cases call with
    | addOneFrame frame allocated =>
      cases allocated with
      | true => exact h.addOneFrame hg hstep
      | false =>
        cases hstep
        exact ⟨passed,pending,h⟩
    | flushOneFrame =>
      obtain ⟨c',passed',pending',hflush,hheld,hsame,hsplit,-,hcounts⟩ :=
        h.held.flushOneFrame
      rw [Buffering.step,CacheWorld.step,hflush,map_some,map_some] at hstep
      cases hstep
      exact ⟨passed',pending',h.of_cache hheld hsame.nMaxBufferSize
        (fun k hk => hcounts k (h.exact k hk) (h.fits k)) (hsplit ▸ h.fits)⟩
    | flushAll =>
      cases hstep
      exact ⟨[],[],h.of_cache h.held.flushAll rfl (fun k _ => flushAll_exact b.world.cache k)
        fun k => by simp [intMax]⟩
    | seekTo nSeekTimeUs nByteOffset =>
      obtain ⟨c',ret,passed',pending',hseek,hheld,hsame,hsplit,hcounts⟩ :=
        h.held.seekTo hg nByteOffset
      rw [Buffering.step,CacheWorld.step,hseek,map_some,map_some] at hstep
      cases hstep
      exact ⟨passed',pending',h.of_cache hheld hsame.nMaxBufferSize
        (fun k hk => hcounts k (h.exact k hk) (h.fits k)) (hsplit ▸ h.fits)⟩

end

theorem create_counted : create.Counted [] [] where
  held := create_held (by decide) (by decide) ..
  exact k _ := create_exact ..
  fits k := by simp [intMax]
  size_pos := by decide
  size_fits := by decide
  start := by decide

theorem reached_counted {calls : List BufferingCall} (hg : Guarded step InRange create calls)
    (hrun : runSteps step create calls = some b) : ∃ passed pending, b.Counted passed pending :=
  runSteps_guarded (fun b => ∃ passed pending, b.Counted passed pending)
    (fun _ _ _ ⟨_,_,h⟩ ha hs => h.step ha hs) calls create b ⟨[],[],create_counted⟩ hg hrun

end Buffering

/-- In every state that calls in range lead to, the loop that makes room for a frame ends, having
freed some of the oldest passed frames, if and only if the last frame is pending or shorter than the
cache. -/
theorem eviction_ends_iff (calls : List BufferingCall)
    (hg : Guarded step InRange .create calls) (b : Buffering)
    (hrun : runSteps step .create calls = some b) (frame : CacheFrame) :
    (∃ fuel c', (b.world.cache.allocate frame).makeRoom fuel = some c' ∧
      c'.passedFrames <:+ b.world.cache.passedFrames) ↔ b.world.cache.TailFits := by
  obtain ⟨passed,pending,h⟩ := reached_counted hg hrun
  exact h.makeRoom_iff frame

/-- Two frames were delivered that fill the cache; the loop takes a round to free the first. -/
theorem eviction_ends_after_short_frame : ∃ b, runSteps step .create
        [.setSize 4 10,.call (.addOneFrame (plainFrame 6 .audio) true),.call .flushOneFrame,
          .call (.addOneFrame (plainFrame 4 .audio) true),.call .flushOneFrame] = some b ∧
      (b.world.cache.allocate (plainFrame 4 .audio)).makeRoom 1 = none ∧
      ∃ fuel c', (b.world.cache.allocate (plainFrame 4 .audio)).makeRoom fuel = some c' ∧
        c'.passedFrames <:+ b.world.cache.passedFrames :=
  ⟨_,rfl,by decide +kernel,(eviction_ends_iff
    [.setSize 4 10,.call (.addOneFrame (plainFrame 6 .audio) true),.call .flushOneFrame,
      .call (.addOneFrame (plainFrame 4 .audio) true),.call .flushOneFrame]
    (by decide +kernel) _ rfl _).mpr (by decide +kernel)⟩

/-- A frame as long as the cache has been delivered. It is the last frame of all, no call of
`StreamCacheFlushPassedList` frees it, and the next frame is never added. -/
theorem eviction_never_ends : Guarded step InRange .create
        [.setSize 4 10,.call (.addOneFrame (plainFrame 10 .audio) true),.call .flushOneFrame] ∧
      ∃ b, runSteps step .create
          [.setSize 4 10,.call (.addOneFrame (plainFrame 10 .audio) true),.call .flushOneFrame] =
            some b ∧
        b.world.cache.overflow = false ∧
        ∀ fuel, (b.world.cache.allocate (plainFrame 4 .audio)).makeRoom fuel = none := by
  refine ⟨by decide +kernel,_,rfl,by decide +kernel,?_⟩
  exact StreamCache.makeRoom_of_tail (by decide +kernel) (by decide +kernel) (by decide +kernel)

namespace Buffering
open StreamCache
variable {b : Buffering} {passed pending : List (ℕ × CacheFrame)}

theorem Counted.pending_of_overflow (h : b.Counted passed pending)
    (hover : b.world.cache.overflow = true) :
    b.nStartPlaySize ≤ b.world.cache.nDataSize ∧ 0 < b.world.cache.nFrameNum := by
  obtain ⟨hfull,hpassed⟩ := Bool.and_eq_true_iff.mp hover
  rw [decide_eq_true_eq] at hfull hpassed
  obtain ⟨hdata,hgone⟩ := h.exact .bytes (by decide)
  have hdata : b.world.cache.nDataSize = total .bytes pending := hdata
  have hgone : b.world.cache.nPassedDataSize = total .bytes passed := hgone
  have hframes : b.world.cache.nFrameNum = total .frames pending :=
    (h.exact .frames (by decide)).pending
  have hfits := h.fits .bytes
  have hpos := h.size_pos
  have hstart := h.start
  rw [total_append] at hfits
  have h₁ := total_nonneg .bytes passed
  have h₂ := total_nonneg .bytes pending
  rw [h.kept] at hpassed
  rw [hdata,hgone,int32_total (by omega) (by omega)] at hfull
  refine ⟨by omega,?_⟩
  rw [hframes]
  cases pending with
  | nil =>
    rw [total_nil] at hfull
    omega
  | cons x pending =>
    have hrest := total_nonneg .frames pending
    rw [total_cons,weight]
    omega

end Buffering

/-- In every state that calls in range lead to and in which the cache thread stops reading because
of an overflow, the player has enough data if and only if there is no video or
`START_PLAY_CACHE_VIDEO_FRAME_NUM` video frames are pending. -/
theorem enough_at_overflow_iff (calls : List BufferingCall)
    (hg : Guarded step InRange .create calls) (b : Buffering)
    (hrun : runSteps step .create calls = some b) (startFrameNum : ℤ)
    (hover : b.world.cache.overflow = true) :
    b.dataEnough startFrameNum = true ↔ (b.world.cache.eVideoCodecFormat ≠ .unknown →
        startFrameNum ≤ b.world.cache.nVideoFrameNum) := by
  obtain ⟨passed,pending,h⟩ := reached_counted hg hrun
  obtain ⟨hstart,hframes⟩ := h.pending_of_overflow hover
  rw [dataEnough]
  by_cases hvideo : b.world.cache.eVideoCodecFormat = .unknown
  · simp [hvideo,hstart,hframes]
  · simp [hvideo,hstart]

theorem enough_at_overflow_of_audio : ∃ b, runSteps step .create
        [.setSize 4 10,.call (.addOneFrame (plainFrame 10 .audio) true)] = some b ∧
      b.world.cache.overflow = true ∧ b.dataEnough 30 = true :=
  ⟨_,rfl,by decide +kernel,
    (enough_at_overflow_iff [.setSize 4 10,.call (.addOneFrame (plainFrame 10 .audio) true)]
      (by decide +kernel) _ rfl 30 (by decide +kernel)).mpr (by decide +kernel)⟩

/-- One large video frame fills the cache. The cache thread waits until a frame is taken, and the
player waits for thirty frames. -/
theorem overflow_without_enough : Guarded step InRange .create
        [.setSize 4 10,.setMediaFormat .other .h264,
          .call (.addOneFrame (plainFrame 10 .video) true)] ∧
      ∃ b, runSteps step .create [.setSize 4 10,.setMediaFormat .other .h264,
            .call (.addOneFrame (plainFrame 10 .video) true)] = some b ∧
        b.world.cache.overflow = true ∧ b.dataEnough 30 = false := by
  refine ⟨by decide +kernel,_,rfl,?_,?_⟩ <;> decide +kernel

end TinaPackage.PlayerCache
