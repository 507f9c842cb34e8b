import TinaPackage.Runs
import TinaPackage.StreamCacheSeeks

/-! Runs of the player's cache (`xplayer/cache.c`, `xplayer/demuxComponent.c`): the cache thread
adds frames, and the demux thread takes them in order, seeks and flushes. -/
namespace TinaPackage.PlayerCache
open List

def tally (k : Counter) (frames : List CacheFrame) : ℤ := (frames.map (weight k)).sum

theorem total_eq_tally (k : Counter) (xs : List (ℕ × CacheFrame)) :
    total k xs = tally k (xs.map Prod.snd) := by
  rw [total,tally,map_map]
  rfl

namespace StreamCache

variable (c : StreamCache)

def framesAt (nodes : List ℕ) : List CacheFrame :=
  nodes.filterMap fun p => (c.heap p).map CacheNode.toCacheFrame

def passedNodes : List ℕ := (c.nodesFrom c.pPassedHead).takeWhile fun p => c.pHead ≠ some p

def passedFrames : List CacheFrame := c.framesAt c.passedNodes

def pendingFrames : List CacheFrame := c.framesAt (c.nodesFrom c.pHead)

/-- The list consists of the passed nodes and, from `pHead`, the pending ones, and the counters
say what these hold. -/
def Accounted : Prop :=
  ∃ passed pending, Chain c.next c.pPassedHead (passed ++ pending) ∧ Chain c.next c.pHead pending ∧
    c.pTail = (passed ++ pending).getLast? ∧
    (∀ p ∈ passed ++ pending, (c.heap p).isSome = true) ∧
    ∀ k, c.pendingCount k = tally k (c.framesAt pending) ∧
      c.passedCount k = tally k (c.framesAt passed)

def bytesHeld : ℤ := tally .bytes (c.passedFrames ++ c.pendingFrames)

section Layout
variable {c : StreamCache} {passed pending : List (ℕ × CacheFrame)}

theorem framesAt_eq {xs : List (ℕ × CacheFrame)}
    (h : ∀ x ∈ xs, ∃ node, c.heap x.1 = some node ∧ node.toCacheFrame = x.2) :
    c.framesAt (xs.map Prod.fst) = xs.map Prod.snd := by
  induction xs with
  | nil => rfl
  | cons x xs ih =>
    obtain ⟨node,hnode,hframe⟩ := h x (mem_cons_self ..)
    have htail := ih fun y hy => h y (mem_cons_of_mem _ hy)
    rw [framesAt] at htail ⊢
    rw [map_cons,filterMap_cons,hnode,htail]
    simp [hframe]

section
variable (h : c.Layout passed pending)
include h

theorem Layout.pendingFrames : c.pendingFrames = pending.map Prod.snd := by
  have hlength := h.length_le
  rw [length_append] at hlength
  rw [StreamCache.pendingFrames,nodesFrom,walkList_eq h.pending_chain (by simp; omega)]
  exact framesAt_eq fun x hx => h.frames x (mem_append_right _ hx)

theorem Layout.passedFrames : c.passedFrames = passed.map Prod.snd := by
  have hnodup := h.nodup
  have hnodes : c.passedNodes = passed.map Prod.fst := by
    rw [passedNodes,nodesFrom,walkList_eq h.chain (by simpa using h.length_le),map_append,
      takeWhile_append_of_pos]
    · cases pending with
      | nil => simp
      | cons x pending => simp [h.head]
    · intro p hp
      -- the first pending node is not a passed one
      rw [decide_eq_true_eq,h.head]
      intro he
      obtain ⟨x,hx,rfl⟩ := Option.map_eq_some_iff.mp he
      rw [map_append,nodup_append] at hnodup
      exact hnodup.2.2 _ hp _ (mem_map_of_mem (mem_of_head? hx)) rfl
  rw [StreamCache.passedFrames,hnodes]
  exact framesAt_eq fun x hx => h.frames x (mem_append_left _ hx)

theorem Layout.accounted (hexact : ∀ k, c.Exact k passed pending) : c.Accounted := by
  refine ⟨passed.map Prod.fst,pending.map Prod.fst,?_,h.pending_chain,?_,?_,fun k => ?_⟩
  · rw [← map_append]
    exact h.chain
  · rw [← map_append,getLast?_map]
    exact h.tail
  · intro p hp
    rw [← map_append] at hp
    obtain ⟨x,hx,rfl⟩ := mem_map.mp hp
    obtain ⟨node,hnode,-⟩ := h.frames x hx
    rw [hnode]
    rfl
  · rw [framesAt_eq fun x hx => h.frames x (mem_append_right _ hx),
      framesAt_eq fun x hx => h.frames x (mem_append_left _ hx),← total_eq_tally,← total_eq_tally]
    exact ⟨(hexact k).pending,(hexact k).passed⟩

theorem Layout.bytesHeld : c.bytesHeld = total .bytes (passed ++ pending) := by
  rw [StreamCache.bytesHeld,h.passedFrames,h.pendingFrames,← map_append,total_eq_tally]

end

end Layout

def nextFrame (c : StreamCache) : Option CacheFrame :=
  (c.pHead.bind c.heap).map CacheNode.toCacheFrame

end StreamCache

/-- The cache, the frames that were pending at the last seek or have been added since, those that
have been delivered since then, and the length of the largest frame added. -/
structure CacheWorld where
  cache : StreamCache
  due : List CacheFrame
  delivered : List CacheFrame
  largest : ℤ

inductive CacheCall
  | addOneFrame (frame : CacheFrame) (allocated : Bool)
  | flushOneFrame
  | flushAll
  | seekTo (nSeekTimeUs : ℤ) (nByteOffset : Option ℤ)

namespace CacheWorld

variable (w : CacheWorld)

def step : CacheCall → Option CacheWorld
  | .addOneFrame frame allocated =>
    (w.cache.addOneFrame frame allocated).map fun (cache, ret) =>
      if ret = 0 then
        { w with
          cache
          due := w.due ++ [frame]
          largest := max w.largest frame.nLength }
      else { w with cache }
  | .flushOneFrame =>
    w.cache.flushOneFrame.map fun cache =>
      { w with cache, delivered := w.delivered ++ w.cache.nextFrame.toList }
  | .flushAll => some { w with cache := w.cache.flushAll, due := [], delivered := [] }
  | .seekTo nSeekTimeUs nByteOffset =>
    (w.cache.seekTo nSeekTimeUs nByteOffset).map fun (cache, _) =>
      { w with cache, due := cache.pendingFrames, delivered := [] }

def created (nMaxBufferSize : ℤ) (eContainerFormat : ContainerFormat)
    (eVideoCodecFormat : VideoCodecFormat) : CacheWorld where
  cache := .create nMaxBufferSize eContainerFormat eVideoCodecFormat
  due := []
  delivered := []
  largest := 0

/-- A seek time for which the difference to the end of the clock is more than a second. -/
def SeekInRange (nSeekTimeUs : ℤ) : Prop :=
  w.cache.eContainerFormat = .other → nSeekTimeUs+1000000 ≤ StreamCache.int64Max

/-- Every passed video frame stays when a frame is added: once it is the oldest one, there is room
or no more is passed than has to be kept. -/
def VideoStays (c : StreamCache) : Prop :=
  ∀ frames ∈ c.passedFrames.tails, ∀ frame ∈ frames.head?, frame.eMediaType = .video →
    tally .bytes (frames ++ c.pendingFrames) < c.nMaxBufferSize ∨
      tally .bytes frames ≤ c.minPassedDataKeptSize

/-- The calls after which the counters are exact. -/
def Countable : CacheCall → Prop
  | .addOneFrame frame _ =>
    frame.Stamped ∧ w.cache.bytesHeld+frame.nLength ≤ intMax ∧
      tally .frames (w.cache.passedFrames ++ w.cache.pendingFrames)+1 ≤ intMax ∧
      (w.cache.pendingFrames = [] →
        ∀ last ∈ w.cache.passedFrames.getLast?, last.nLength < w.cache.nMaxBufferSize) ∧
      VideoStays w.cache
  | .flushOneFrame => True
  | .flushAll => True
  | .seekTo nSeekTimeUs _ => w.SeekInRange nSeekTimeUs

/-- The oldest passed frames can be freed until the frame fits, each of them while more is passed
than has to be kept, and none of them the last frame of all. -/
def HasRoom (c : StreamCache) : Prop :=
  ∃ frames ∈ c.passedFrames.tails, tally .bytes (frames ++ c.pendingFrames) < c.nMaxBufferSize ∧
    (frames ++ c.pendingFrames ≠ [] ∨ c.passedFrames = []) ∧
    ∀ more ∈ c.passedFrames.tails, frames.length < more.length →
      c.minPassedDataKeptSize < tally .bytes more

def NoOverflow : CacheCall → Prop
  | .addOneFrame _ _ => w.cache.overflow = false
  | _ => True

/-- The calls that keep the bytes held below the limit plus the length of the largest frame. -/
def Bounded : CacheCall → Prop
  | .addOneFrame frame allocated =>
    w.NoOverflow (.addOneFrame frame allocated) ∧ frame.Stamped ∧
      w.cache.nMaxBufferSize+frame.nLength ≤ intMax ∧ HasRoom w.cache
  | .flushOneFrame => True
  | .flushAll => True
  | .seekTo nSeekTimeUs _ => w.SeekInRange nSeekTimeUs

instance (w : CacheWorld) (nSeekTimeUs : ℤ) : Decidable (w.SeekInRange nSeekTimeUs) := by
  unfold SeekInRange
  infer_instance

instance (c : StreamCache) : Decidable (VideoStays c) := by
  unfold VideoStays
  infer_instance

instance (c : StreamCache) : Decidable (HasRoom c) := by
  unfold HasRoom
  infer_instance

instance (w : CacheWorld) (call : CacheCall) : Decidable (w.Countable call) := by
  cases call <;> unfold Countable <;> infer_instance

instance (w : CacheWorld) (call : CacheCall) : Decidable (w.NoOverflow call) := by
  cases call <;> unfold NoOverflow <;> infer_instance

instance (w : CacheWorld) (call : CacheCall) : Decidable (w.Bounded call) := by
  cases call <;> unfold Bounded <;> infer_instance

end CacheWorld

open CacheWorld

namespace StreamCache

structure Held (c : StreamCache) (passed pending : List (ℕ × CacheFrame)) : Prop where
  layout : c.Layout passed pending
  stamped : ∀ x ∈ passed ++ pending, x.2.Stamped
  pcr : c.PcrHeld (passed ++ pending)
  kept : 0 ≤ c.minPassedDataKeptSize

section Held
variable {c : StreamCache} {passed pending : List (ℕ × CacheFrame)}

section
variable (h : c.Held passed pending)
include h

theorem Held.flushOneFrame :
    ∃ c' passed' pending', c.flushOneFrame = some c' ∧ c'.Held passed' pending' ∧
      SameSettings c c' ∧ passed' ++ pending' = passed ++ pending ∧
      pending.map Prod.snd = c.nextFrame.toList ++ pending'.map Prod.snd ∧
      ∀ k, c.Exact k passed pending → total k (passed ++ pending) ≤ intMax →
        c'.Exact k passed' pending' := by
  cases pending with
  | nil =>
    have hhead : c.pHead = none := h.layout.head
    exact ⟨c,passed,[],by rw [StreamCache.flushOneFrame,hhead],h,.refl c,rfl,
      by simp [nextFrame,hhead],fun _ hk _ => hk⟩
  | cons x rest =>
    obtain ⟨c',hflush,hlayout,hsame,hpcr,hexact⟩ := h.layout.flushOneFrame
    have hsplit : (passed ++ [x]) ++ rest = passed ++ x :: rest := by simp
    obtain ⟨node,hnode,hframe⟩ := h.layout.frames x (by simp)
    have hhead : c.pHead = some x.1 := h.layout.head
    refine ⟨c',passed ++ [x],rest,hflush,⟨hlayout,?_,?_,hsame.kept ▸ h.kept⟩,hsame,hsplit,?_,hexact⟩
    · rw [hsplit]
      exact h.stamped
    · rw [hsplit,PcrHeld,hpcr]
      exact h.pcr
    · simp [nextFrame,hhead,hnode,hframe]

theorem Held.addOneFrame (hexact : c.Exact .bytes passed pending)
    (hfits : total .bytes (passed ++ pending) ≤ intMax)
    (hlast : pending = [] → ∀ x ∈ passed.getLast?, x.2.nLength < c.nMaxBufferSize)
    {frame : CacheFrame} (hstamped : frame.Stamped) :
    ∃ dropped rest c', passed = dropped ++ rest ∧ c.addOneFrame frame true = some (c', 0) ∧
      c'.Held rest (pending ++ [(c.nNodes, frame)]) ∧ SameSettings c c' ∧
      ¬c.Crowded rest pending ∧
      (∀ before x after, dropped = before ++ x :: after → c.Crowded (x :: after ++ rest) pending) ∧
      ∀ k, c.Exact k passed pending → total k (passed ++ pending) ≤ intMax →
        total k (pending ++ [(c.nNodes, frame)]) ≤ intMax →
        (k = .videos → ∀ x ∈ dropped, x.2.eMediaType ≠ .video) →
        c'.Exact k rest (pending ++ [(c.nNodes, frame)]) := by
  obtain ⟨dropped,rest,c',rfl,hadd,hlayout,hsame,hpcr,hnot,hall,hcounts⟩ :=
    h.layout.addOneFrame hexact hfits h.kept hlast frame
  refine ⟨dropped,rest,c',rfl,hadd,⟨hlayout,?_,?_,hsame.kept ▸ h.kept⟩,hsame,hnot,hall,hcounts⟩
  · intro x hx
    rw [← append_assoc,mem_append,mem_singleton] at hx
    rcases hx with hx | rfl
    · exact h.stamped x (by rw [append_assoc]; exact mem_append_right _ hx)
    · exact hstamped
  · intro p hp
    rcases hpcr p hp with ⟨rfl,hvalid⟩ | ⟨hold,hkept⟩
    · exact ⟨(c.nNodes, frame),by simp,rfl,hvalid⟩
    · -- the node has not been freed
      obtain ⟨x,hx,rfl,hvalid⟩ := h.pcr p hold
      refine ⟨x,?_,rfl,hvalid⟩
      rw [append_assoc,mem_append] at hx
      rcases hx with hx | hx
      · exact absurd (mem_map_of_mem hx) hkept
      · rw [← append_assoc]
        exact mem_append_left _ hx

theorem Held.seekTo {nSeekTimeUs : ℤ}
    (htime : c.eContainerFormat = .other → nSeekTimeUs+1000000 ≤ int64Max)
    (nByteOffset : Option ℤ) :
    ∃ c' ret passed' pending', c.seekTo nSeekTimeUs nByteOffset = some (c', ret) ∧
      c'.Held passed' pending' ∧ SameSettings c c' ∧ passed' ++ pending' = passed ++ pending ∧
      ∀ k, c.Exact k passed pending → total k (passed ++ pending) ≤ intMax →
        c'.Exact k passed' pending' := by
  obtain ⟨c',ret,passed',pending',hseek,hd⟩ :=
    h.layout.seekTo h.stamped h.pcr htime nByteOffset
  refine ⟨c',ret,passed',pending',hseek,⟨hd.layout,?_,?_,hd.settings.kept ▸ h.kept⟩,
    hd.settings,hd.frames,hd.exact⟩
  · rw [hd.frames]
    exact h.stamped
  · rw [hd.frames,PcrHeld,hd.pcr]
    exact h.pcr

theorem Held.flushAll : c.flushAll.Held [] [] :=
  ⟨flushAll_layout c,by simp,(fun p hp => by cases hp), h.kept⟩

end

end Held

theorem create_held {nMaxBufferSize : ℤ} (hpos : 0 ≤ nMaxBufferSize)
    (hmax : nMaxBufferSize*3 ≤ intMax) (eContainerFormat : ContainerFormat)
    (eVideoCodecFormat : VideoCodecFormat) :
    (create nMaxBufferSize eContainerFormat eVideoCodecFormat).Held [] [] := by
  refine ⟨⟨rfl,rfl,rfl,by simp,by simp⟩,by simp,(fun p hp => by cases hp), ?_⟩
  show 0 ≤ (int32 (nMaxBufferSize*3)).tdiv 10
  rw [int32_total (by omega) hmax]
  exact Int.tdiv_nonneg (by omega) (by decide)

theorem create_exact (nMaxBufferSize : ℤ) (eContainerFormat : ContainerFormat)
    (eVideoCodecFormat : VideoCodecFormat) (k : Counter) :
    (create nMaxBufferSize eContainerFormat eVideoCodecFormat).Exact k [] [] := by
  cases k <;> exact ⟨rfl,rfl⟩

end StreamCache

variable {xs : List (ℕ × CacheFrame)}

theorem weight_le_total (k : Counter) {x : ℕ × CacheFrame} (hx : x ∈ xs) :
    weight k x.2 ≤ total k xs := by
  obtain ⟨before,after,rfl⟩ := append_of_mem hx
  have hbefore := total_nonneg k before
  have hafter := total_nonneg k after
  rw [total_append,total_cons]
  omega

theorem total_videos_le (xs : List (ℕ × CacheFrame)) : total .videos xs ≤ total .frames xs := by
  induction xs with
  | nil => exact le_refl _
  | cons x xs ih =>
    have hle : weight .videos x.2 ≤ weight .frames x.2 := by
      simp only [weight]
      split_ifs <;> decide
    rw [total_cons,total_cons]
    omega

namespace CacheWorld
open StreamCache

def Inv (w : CacheWorld) : Prop :=
  ∃ passed pending, w.cache.Held passed pending ∧ (∀ k, w.cache.Exact k passed pending) ∧
    (∀ k, total k (passed ++ pending) ≤ intMax) ∧
    w.due = w.delivered ++ pending.map Prod.snd

theorem fits_of_bytes_frames (hbytes : total .bytes xs ≤ intMax)
    (hframes : total .frames xs ≤ intMax) (k : Counter) : total k xs ≤ intMax := by
  cases k with
  | bytes => exact hbytes
  | frames => exact hframes
  | videos => exact le_trans (total_videos_le xs) hframes

variable {w : CacheWorld}

theorem Inv.addOneFrame (h : w.Inv) {frame : CacheFrame} {allocated : Bool}
    (hg : w.Countable (.addOneFrame frame allocated)) :
    ∃ w', w.step (.addOneFrame frame allocated) = some w' ∧ w'.Inv := by
  obtain ⟨passed,pending,hheld,hexact,hfits,hdue⟩ := h
  obtain ⟨hstamped,hbytes,hframes,hlast,hvideo⟩ := hg
  cases allocated with
  | false => exact ⟨w,rfl,passed,pending,hheld,hexact,hfits,hdue⟩
  | true =>
    rw [hheld.layout.pendingFrames,hheld.layout.passedFrames] at hlast hframes
    rw [hheld.layout.bytesHeld] at hbytes
    rw [← map_append,← total_eq_tally] at hframes
    obtain ⟨dropped,rest,c',rfl,hadd,hheld',hsame,-,hcrowded,hcounts⟩ :=
      hheld.addOneFrame (hexact .bytes) (hfits .bytes) (fun hnil x hx => by
        refine hlast (by rw [hnil]; rfl) x.2 ?_
        rw [getLast?_map,hx]
        rfl) hstamped
    have hstays : ∀ x ∈ dropped, x.2.eMediaType ≠ .video := by
      intro x hx hmedia
      obtain ⟨before,after,hsplit⟩ := append_of_mem hx
      obtain ⟨hmany,hpassed⟩ := hcrowded before x after hsplit
      have hsuffix : (x :: after ++ rest).map Prod.snd ∈ w.cache.passedFrames.tails := by
        rw [hheld.layout.passedFrames,mem_tails,hsplit]
        exact ⟨before.map Prod.snd,by simp⟩
      rcases hvideo _ hsuffix x.2 rfl hmedia with hroom | hkept
      · rw [hheld.layout.pendingFrames,← map_append,← total_eq_tally] at hroom
        omega
      · rw [← total_eq_tally] at hkept
        omega
    have hdropped (k : Counter) := total_nonneg k dropped
    have hrest (k : Counter) := total_nonneg k rest
    have hnew : ∀ k, total k (rest ++ (pending ++ [(w.cache.nNodes, frame)])) ≤ intMax := by
      refine fits_of_bytes_frames ?_ ?_
      · have := hdropped .bytes
        simp only [total_append,total_cons,total_nil,weight] at hbytes ⊢
        omega
      · have := hdropped .frames
        simp only [total_append,total_cons,total_nil,weight] at hframes ⊢
        omega
    refine ⟨_,by rw [step,hadd]; rfl,rest,_,hheld',fun k => ?_, hnew,?_⟩
    · refine hcounts k (hexact k) (hfits k) ?_ fun _ => hstays
      have hk := hnew k
      rw [total_append] at hk
      have := hrest k
      omega
    · simp [hdue]

theorem Inv.step (h : w.Inv) {call : CacheCall} (hg : w.Countable call) :
    ∃ w', w.step call = some w' ∧ w'.Inv := by
  cases call with
  | addOneFrame frame allocated => exact h.addOneFrame hg
  | flushOneFrame =>
    obtain ⟨passed,pending,hheld,hexact,hfits,hdue⟩ := h
    obtain ⟨c',passed',pending',hflush,hheld',-,hsplit,hnext,hcounts⟩ :=
      hheld.flushOneFrame
    refine ⟨_,by rw [CacheWorld.step,hflush,Option.map_some],passed',pending',hheld',
      fun k => hcounts k (hexact k) (hfits k),hsplit ▸ hfits,?_⟩
    rw [hdue,hnext,append_assoc]
  | flushAll =>
    obtain ⟨passed,pending,hheld,-⟩ := h
    exact ⟨_,rfl,[],[],hheld.flushAll,flushAll_exact w.cache,fun k => by simp [intMax],rfl⟩
  | seekTo nSeekTimeUs nByteOffset =>
    obtain ⟨passed,pending,hheld,hexact,hfits,-⟩ := h
    obtain ⟨c',ret,passed',pending',hseek,hheld',-,hsplit,hcounts⟩ :=
      hheld.seekTo hg nByteOffset
    refine ⟨_,by rw [CacheWorld.step,hseek,Option.map_some],passed',pending',hheld',
      fun k => hcounts k (hexact k) (hfits k),hsplit ▸ hfits,?_⟩
    exact hheld'.layout.pendingFrames

end CacheWorld

/-- In every run of such calls from a new cache, no call goes wrong, the list and the six counters
are as they should be, and the frames due since the last seek have been delivered in order as far as
they are not pending. -/
theorem cache_counters_exact (nMaxBufferSize : ℤ) (hpos : 0 < nMaxBufferSize)
    (hmax : nMaxBufferSize*3 ≤ intMax) (eContainerFormat : ContainerFormat)
    (eVideoCodecFormat : VideoCodecFormat) (calls : List CacheCall)
    (hg : Guarded step Countable
      (.created nMaxBufferSize eContainerFormat eVideoCodecFormat) calls) :
    ∃ w, runSteps step (.created nMaxBufferSize eContainerFormat eVideoCodecFormat)
        calls = some w ∧ w.cache.Accounted ∧ w.due = w.delivered ++ w.cache.pendingFrames := by
  have hstart : (created nMaxBufferSize eContainerFormat eVideoCodecFormat).Inv :=
    ⟨[],[],StreamCache.create_held (le_of_lt hpos) hmax ..,
      fun k => StreamCache.create_exact .., fun k => by simp [intMax],rfl⟩
  obtain ⟨w,hw,passed,pending,hheld,hexact,-,hdue⟩ :=
    runSteps_invariant Inv (fun _ _ hi ha => hi.step ha) calls _ hstart hg
  exact ⟨w,hw,hheld.layout.accounted hexact,by rw [hdue,hheld.layout.pendingFrames]⟩

def plainFrame (length : ℕ) (eMediaType : MediaType) : CacheFrame :=
  ⟨replicate length 0,-1,-1,eMediaType,0⟩

/-- Two frames are added and one is delivered; a seek goes back to it. -/
theorem cache_counters_exact_of_two_frames : ∃ w, runSteps step (.created 20 .ts .h264)
        [.addOneFrame (plainFrame 4 .video) true,.addOneFrame (plainFrame 3 .audio) true,
          .flushOneFrame,.seekTo 0 (some (-4)),
          .addOneFrame (plainFrame 2 .audio) false] = some w ∧
      w.cache.Accounted ∧ w.due = w.delivered ++ w.cache.pendingFrames :=
  cache_counters_exact 20 (by decide) (by decide) .ts .h264 _ (by decide +kernel)

/-- A passed video frame is freed and still counted as passed. -/
theorem freed_video_still_counted : ∃ w, runSteps step (.created 10 .ts .h264)
        [.addOneFrame (plainFrame 5 .video) true,.addOneFrame (plainFrame 5 .video) true,
          .flushOneFrame,.addOneFrame (plainFrame 1 .video) true] = some w ∧
      w.cache.pPassedHead = w.cache.pHead ∧ w.cache.nPassedVideoFrameNum = 1 ∧
      ¬w.cache.Accounted := by
  refine ⟨_,rfl,by decide +kernel,by decide +kernel,?_⟩
  rintro ⟨passed,pending,hlist,hpending,-,-,hcounts⟩
  have hall := chain_unique hlist hpending
  obtain rfl : passed = [] := by simpa using hall
  exact absurd (hcounts .videos).2 (by decide +kernel)

namespace CacheWorld
open StreamCache

def SizeInv (w : CacheWorld) : Prop :=
  ∃ passed pending, w.cache.Held passed pending ∧ w.cache.Exact .bytes passed pending ∧
    total .bytes (passed ++ pending) < w.cache.nMaxBufferSize+w.largest ∧
    w.cache.nMaxBufferSize+w.largest ≤ intMax ∧ 0 < w.cache.nMaxBufferSize ∧ 0 ≤ w.largest

theorem SizeInv.addOneFrame {w : CacheWorld} (h : w.SizeInv) {frame : CacheFrame}
    {allocated : Bool} (hg : w.Bounded (.addOneFrame frame allocated)) :
    ∃ w', w.step (.addOneFrame frame allocated) = some w' ∧ w'.SizeInv := by
  cases allocated with
  | false => exact ⟨w,rfl,h⟩
  | true =>
    obtain ⟨passed,pending,hheld,hexact,hbound,hfits,hpos,hlargest⟩ := h
    obtain ⟨-,hstamped,hlength,frames,hframes,hroom,hne,hkept⟩ := hg
    rw [hheld.layout.passedFrames] at hframes hne hkept
    rw [hheld.layout.pendingFrames] at hroom hne
    obtain ⟨front,hfront⟩ := (mem_tails _ _).mp hframes
    obtain ⟨gone,stay,rfl,-,rfl⟩ := map_eq_append_iff.mp hfront.symm
    rw [← map_append,← total_eq_tally] at hroom
    have hpending := total_nonneg .bytes pending
    have hlast : pending = [] → ∀ x ∈ (gone ++ stay).getLast?,
        x.2.nLength < w.cache.nMaxBufferSize := by
      intro hnil x hx
      -- the last frame of all is one of those that stay
      have hstay : stay ≠ [] := by
        rintro rfl
        rcases hne with hne | hne
        · simp [hnil] at hne
        · rw [map_eq_nil_iff] at hne
          simp [hne] at hx
      rw [getLast?_append_of_ne_nil _ hstay] at hx
      have hle := weight_le_total .bytes (mem_of_getLast? hx)
      rw [total_append] at hroom
      exact lt_of_le_of_lt hle (by omega)
    obtain ⟨dropped,rest,c',hsplit,hadd,hheld',hsame,hnot,-,hcounts⟩ :=
      hheld.addOneFrame hexact (by omega) hlast hstamped
    have hrest : rest <:+ gone ++ stay := ⟨dropped,hsplit.symm⟩
    -- as many frames are freed as there have to be
    have hfree : total .bytes (rest ++ pending) < w.cache.nMaxBufferSize := by
      by_cases hlong : stay.length < rest.length
      · have hmore := hkept (rest.map Prod.snd) ((mem_tails _ _).mpr (hrest.map _))
          (by simpa using hlong)
        rw [← total_eq_tally] at hmore
        exact not_le.mp fun hle => hnot ⟨hle,hmore⟩
      · obtain ⟨more,rfl⟩ := suffix_of_suffix_length_le hrest (suffix_append gone stay)
          (not_lt.mp hlong)
        have hnonneg := total_nonneg .bytes more
        simp only [total_append] at hroom ⊢
        omega
    have hweight : weight .bytes frame = frame.nLength := rfl
    have hnonneg := total_nonneg .bytes rest
    refine ⟨⟨c',w.due ++ [frame],w.delivered,max w.largest frame.nLength⟩,
      by rw [step,hadd]; rfl,rest,_,hheld',?_,?_,?_,?_,?_⟩
    · refine hcounts .bytes hexact (by omega) ?_ (by simp)
      simp only [total_append,total_cons,total_nil] at hfree ⊢
      omega
    · rw [hsame.nMaxBufferSize]
      simp only [total_append,total_cons,total_nil] at hfree ⊢
      omega
    · show c'.nMaxBufferSize+max w.largest frame.nLength ≤ intMax
      rw [hsame.nMaxBufferSize]
      omega
    · rw [hsame.nMaxBufferSize]
      exact hpos
    · exact le_trans hlargest (le_max_left ..)

theorem SizeInv.step {w : CacheWorld} (h : w.SizeInv) {call : CacheCall} (hg : w.Bounded call) :
    ∃ w', w.step call = some w' ∧ w'.SizeInv := by
  cases call with
  | addOneFrame frame allocated => exact h.addOneFrame hg
  | flushOneFrame =>
    obtain ⟨passed,pending,hheld,hexact,hbound,hfits,hrest⟩ := h
    obtain ⟨c',passed',pending',hflush,hheld',hsame,hsplit,-,hcounts⟩ :=
      hheld.flushOneFrame
    refine ⟨_,by rw [CacheWorld.step,hflush,Option.map_some],passed',pending',hheld',
      hcounts .bytes hexact (by omega),?_⟩
    rw [hsplit,hsame.nMaxBufferSize]
    exact ⟨hbound,hfits,hrest⟩
  | flushAll =>
    obtain ⟨passed,pending,hheld,-,-,hfits,hpos,hlargest⟩ := h
    refine ⟨_,rfl,[],[],hheld.flushAll,flushAll_exact w.cache .bytes,?_,hfits,hpos,hlargest⟩
    show 0 < w.cache.nMaxBufferSize+w.largest
    omega
  | seekTo nSeekTimeUs nByteOffset =>
    obtain ⟨passed,pending,hheld,hexact,hbound,hfits,hrest⟩ := h
    obtain ⟨c',ret,passed',pending',hseek,hheld',hsame,hsplit,hcounts⟩ :=
      hheld.seekTo hg nByteOffset
    refine ⟨_,by rw [CacheWorld.step,hseek,Option.map_some],passed',pending',hheld',
      hcounts .bytes hexact (by omega),?_⟩
    rw [hsplit,hsame.nMaxBufferSize]
    exact ⟨hbound,hfits,hrest⟩

end CacheWorld

/-- In every run from a new cache in which a frame is added when there is no overflow and the passed
frames can make room for it, no call goes wrong and the bytes held stay below the limit plus the
largest frame. -/
theorem cache_bounded (nMaxBufferSize : ℤ) (hpos : 0 < nMaxBufferSize)
    (hmax : nMaxBufferSize*3 ≤ intMax) (eContainerFormat : ContainerFormat)
    (eVideoCodecFormat : VideoCodecFormat) (calls : List CacheCall)
    (hg : Guarded step Bounded (.created nMaxBufferSize eContainerFormat eVideoCodecFormat) calls) :
    ∃ w, runSteps step (.created nMaxBufferSize eContainerFormat eVideoCodecFormat)
        calls = some w ∧ w.cache.bytesHeld < w.cache.nMaxBufferSize+w.largest := by
  have hstart : (created nMaxBufferSize eContainerFormat eVideoCodecFormat).SizeInv := by
    refine ⟨[],[],StreamCache.create_held (le_of_lt hpos) hmax ..,
      StreamCache.create_exact ..,?_,?_,hpos,le_refl 0⟩
    · show 0 < nMaxBufferSize+0
      omega
    · show nMaxBufferSize+0 ≤ intMax
      omega
  obtain ⟨w,hw,passed,pending,hheld,-,hbound,-⟩ :=
    runSteps_invariant SizeInv (fun _ _ hi ha => hi.step ha) calls _ hstart hg
  exact ⟨w,hw,by rw [hheld.layout.bytesHeld]; exact hbound⟩

/-- The oldest passed frame makes room for a new one. -/
theorem cache_bounded_of_three_frames : ∃ w, runSteps step (.created 10 .ts .h264)
        [.addOneFrame (plainFrame 5 .video) true,.addOneFrame (plainFrame 5 .audio) true,
          .flushOneFrame,.addOneFrame (plainFrame 4 .audio) true] = some w ∧
      w.cache.bytesHeld < w.cache.nMaxBufferSize+w.largest :=
  cache_bounded 10 (by decide) (by decide) .ts .h264 _ (by decide +kernel)

/-- A short passed frame is freed, no more than has to be kept is passed then, and the new frame is
added to a full cache. -/
theorem cache_exceeds_bound :
    let calls : List CacheCall :=
      [.addOneFrame (plainFrame 1 .audio) true,.addOneFrame (plainFrame 3 .audio) true,
        .addOneFrame (plainFrame 5 .audio) true,.addOneFrame (plainFrame 5 .audio) true,
        .flushOneFrame,.flushOneFrame,.addOneFrame (plainFrame 5 .audio) true]
    Guarded step NoOverflow (.created 10 .ts .h264) calls ∧
      ∃ w, runSteps step (.created 10 .ts .h264) calls = some w ∧ w.largest = 5 ∧
        w.cache.nMaxBufferSize = 10 ∧ w.cache.bytesHeld = 18 := by
  refine ⟨by decide +kernel,_,rfl,?_,?_,?_⟩ <;> decide +kernel

end TinaPackage.PlayerCache
