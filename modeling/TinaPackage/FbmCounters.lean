import TinaPackage.Collections
import TinaPackage.FbmRuns
import TinaPackage.FbmSessions

/-! The counters of the frame buffer managers. -/
namespace TinaPackage.FrameBuffer
open Finset Function FbmSession Frames

structure CountersExact (f : Fbm) : Prop where
  decoderHolding : f.nDecoderHoldingNum =
    ((range f.nMaxFrameNum).filter fun i => (f.flag i).bUsedByDecoder).card
  renderHolding : f.nRenderHoldingNum =
    ((range f.nMaxFrameNum).filter fun i => (f.flag i).bUsedByRender).card
  waitForDisp : ∃ valid, Chain f.next f.pValidPictureQueue valid ∧ f.nWaitForDispNum = valid.length

namespace Frames

variable (a : Frames) (p : FrameNodeFlag → Bool)

def number : ℤ := ∑ i ∈ range a.max, (p (a.flag i)).toInt

theorem number_eq_card : a.number p = ((range a.max).filter fun i => p (a.flag i)).card := by
  rw [number,card_filter,Nat.cast_sum]
  refine sum_congr rfl fun i _ => ?_
  cases p (a.flag i) <;> rfl

variable {flag : FrameNodeFlag} {pic : VideoPicture} {place : Option QueueId}

theorem Moved.number {a a' : Frames} {i : ℕ} (h : Moved a a' i flag pic place) (hi : i < a.max)
    (p : FrameNodeFlag → Bool) :
    a'.number p = a.number p-(p (a.flag i)).toInt+(p flag).toInt := by
  have hsum := sum_add_of_eq (mem_range.mpr hi) (f := fun j => (p (a.flag j)).toInt)
    (g := fun j => (p (a'.flag j)).toInt) fun j hj => by rw [h.flag_of_ne hj]
  rw [h.flag_self] at hsum
  rw [Frames.number,Frames.number,h.max]
  omega

theorem mark_number (hp : ∀ flag : FrameNodeFlag, p { flag with bNeedRelease := true } = p flag) :
    a.mark.number p = a.number p :=
  sum_congr rfl fun i _ => by rw [mark_same a i p hp]

structure Exact : Prop where
  decoderHolding : a.counts.decoderHolding = a.number (·.bUsedByDecoder)
  renderHolding : a.counts.renderHolding = a.number (·.bUsedByRender)
  waitForDisp : a.counts.waitForDisp = a.number (·.bInValidPictureQueue)

namespace Exact
variable {f : Fbm} {a a' : Frames} {i : ℕ}

section
variable (h : a.Exact)
include h

theorem moved (hm : Moved a a' i flag pic place) (hi : i < a.max)
    (hcounts : a'.counts.decoderHolding = a.counts.decoderHolding -
        (a.flag i).bUsedByDecoder.toInt+flag.bUsedByDecoder.toInt ∧
      a'.counts.renderHolding =
        a.counts.renderHolding-(a.flag i).bUsedByRender.toInt+flag.bUsedByRender.toInt ∧
      a'.counts.waitForDisp = a.counts.waitForDisp -
        (a.flag i).bInValidPictureQueue.toInt+flag.bInValidPictureQueue.toInt) :
    a'.Exact where
  decoderHolding := by rw [hcounts.1,hm.number hi,h.decoderHolding]
  renderHolding := by rw [hcounts.2.1,hm.number hi,h.renderHolding]
  waitForDisp := by rw [hcounts.2.2,hm.number hi,h.waitForDisp]

theorem requestBuffer (hl : Linked f a) (hs : a.Settled) : a.requestBuffer.1.Exact := by
  rcases requestBuffer_moved hl hs with hsame | ⟨i,hi,-,huntouched,-,hm,hcounts⟩
  · rwa [hsame]
  · simp only [FrameNodeFlag.touched,Bool.or_eq_false_iff] at huntouched
    exact h.moved hm.1 hi (by simp [hcounts,huntouched])

theorem returnBuffer (hs : a.Settled) (hi : i < a.max)
    (hmark : (a.flag i).bUsedByDecoder = true → (a.flag i).bNeedRelease = false)
    (bValidPicture : Bool) : (a.returnBuffer i bValidPicture).Exact := by
  cases hdec : (a.flag i).bUsedByDecoder with
  | false =>
    have hsame : a.returnBuffer i bValidPicture = a := if_pos (by rw [hdec]; rfl)
    rwa [hsame]
  | true =>
    have hneed := hmark hdec
    rcases returnBuffer_moved hs hi (by simp [hneed]) bValidPicture with
      ⟨hnot,-⟩ | ⟨-,flag,place,hm,hback,hrender,hmarked,hcase⟩
    · exact absurd (hnot.symm.trans hdec) (by simp)
    · obtain ⟨-,-,hcounts⟩ := hcase.resolve_left fun hbad => by simp [hneed] at hbad
      exact h.moved hm.1 hi (by simp [hcounts,hdec,hback,hrender])

theorem shareBuffer (hs : a.Settled) (hi : i < a.max)
    (hunshown : (a.flag i).bUsedByRender = false) : (a.shareBuffer i).Exact := by
  rcases shareBuffer_moved hs hi hunshown with hsame | ⟨-,hvalid,hm,hcounts⟩
  · rwa [hsame]
  · exact h.moved hm.1 hi (by simp [hcounts,hvalid])

theorem requestPicture (hl : Linked f a) (hs : a.Settled) : a.requestPicture.1.Exact := by
  rcases requestPicture_moved hl hs with hsame | ⟨i,hi,hvalid,hunshown,-,hm,hcounts⟩
  · rwa [hsame]
  · exact h.moved hm.1 hi (by simp [hcounts,hunshown,hvalid])

theorem returnPicture (hs : a.Settled) (hi : i < a.max) : (a.returnPicture i).1.Exact := by
  rcases returnPicture_moved hs hi with
    ⟨-,hsame⟩ | ⟨hrender,-,flag,place,hm,hback,hdec,hvalid,-,-,-,hcounts⟩
  · rwa [hsame]
  · exact h.moved hm.1 hi (by simp [hcounts,hdec,hrender,hback,hvalid])

theorem returnForbidden (hs : a.Settled) (hi : i < a.max)
    (htag : (a.picture i).nID = i+frmForbidUseTag) :
    ((a.returnForbidden i).1.modifyPicture i
      fun pic => { pic with nID := pic.nID-frmForbidUseTag }).Exact := by
  obtain ⟨-,hm,hcounts⟩ := returnForbidden_moved hs hi htag
  exact h.moved hm.1 hi (by simp [modifyPicture,hcounts])

theorem bind (hi : i < a.max) (hfree : a.Free i)
    (huntouched : (a.flag i).touched = false) (nBufId : ℤ) (bForbidUseFlag : Bool) :
    (a.bind i nBufId bForbidUseFlag).Exact := by
  obtain ⟨hm,hcounts⟩ := bind_moved hfree huntouched nBufId bForbidUseFlag
  exact h.moved hm.1 hi (by simp [hcounts])

theorem requestRelease (hl : Linked f a) (hs : a.Settled)
    (hmax : (a.max : ℤ) ≤ frmReleaseTag) : a.requestRelease.1.Exact := by
  rcases requestRelease_moved hl hs hmax with hsame | ⟨i,hi,-,-,hm,hcounts⟩
  · rwa [hsame]
  · exact h.moved hm.1 hi (by simp [hcounts])

theorem returnRelease (hs : a.Settled) (hmax : (a.max : ℤ) ≤ frmReleaseTag)
    (nBufId : ℤ) (bForbidUseFlag : Bool) : (a.returnRelease nBufId bForbidUseFlag).Exact := by
  cases hfound : a.findReleased with
  | none =>
    rw [Frames.returnRelease,hfound]
    exact h
  | some i =>
    obtain ⟨-,-,hm,hcounts⟩ := returnRelease_moved hs hmax hfound nBufId bForbidUseFlag
    exact h.moved hm.1 (findReleased_spec hfound).1 (by simp [hcounts])

theorem setNewDispRelease (hl : Linked f a) (hs : a.Settled)
    (hvalid : a.queue .validPicture = []) (minor : Bool) : (a.setNewDispRelease minor).Exact := by
  have hmark : a.setNewDispRelease minor = a.mark.newDispRelease (a.mark.queue .emptyBuffer) := by
    simp [Frames.setNewDispRelease,hvalid,flush]
  rw [hmark,newDispRelease_eq _ a.mark rfl fun i hi =>
    (mark_settled hs).untouched_of_mem hl.mark hi]
  exact ⟨h.decoderHolding.trans (mark_number a (·.bUsedByDecoder) fun _ => rfl).symm,
    h.renderHolding.trans (mark_number a (·.bUsedByRender) fun _ => rfl).symm,
    h.waitForDisp.trans (mark_number a (·.bInValidPictureQueue) fun _ => rfl).symm⟩

end

end Exact

end Frames

def Counted (gpu : FbmHandle → Bool) (bound : FbmHandle → ℕ) (h : FbmHandle) (a : Frames) : Prop :=
  a.Orderly (gpu h) (bound h) (fun _ => True) ∧ a.Exact

theorem counted_closed (gpu : FbmHandle → Bool) (bound : FbmHandle → ℕ) :
    Closed (Counted gpu bound) where
  settled h := h.1.1.settled
  unqueued h := h.1.2
  small h := h.1.1.small
  status h i g hg := ⟨h.1.modifyStatus i g hg,⟨h.2.1,h.2.2,h.2.3⟩⟩
  requestBuffer hl h := ⟨h.1.requestBuffer hl,h.2.requestBuffer hl h.1.1.settled⟩
  shareBuffer hi hunshown hmark h :=
    ⟨h.1.shareBuffer hi hunshown hmark,h.2.shareBuffer h.1.1.settled hi hunshown⟩
  requestPicture hl h := ⟨h.1.requestPicture hl,h.2.requestPicture hl h.1.1.settled⟩
  returnPicture hi h := ⟨h.1.returnPicture hi,h.2.returnPicture h.1.1.settled hi⟩
  returnForbidden hi htag h :=
    ⟨h.1.returnForbidden hi htag,h.2.returnForbidden h.1.1.settled hi htag⟩
  requestRelease hl h := ⟨h.1.requestRelease hl,h.2.requestRelease hl h.1.1.settled h.1.1.small⟩

/-- The calls the counters survive. The display binds each frame of its manager once. The decoder
shares no frame that the render has and returns none that is marked for release. Nothing waits for
the display at a flush or at the start of a release. -/
def Countable (s : FbmSession) : FbmCall → Prop
  | .returnBuffer _ pVPicture _ => ∀ p ∈ pVPicture, (s.info.picture p).isSome = true ∧
      ∀ f ∈ s.info.fbm p.owner,
        (f.flag p.index).bUsedByDecoder = true → (f.flag p.index).bNeedRelease = false
  | .shareBuffer _ pVPicture => ∀ p ∈ pVPicture, (s.info.picture p).isSome = true ∧
      ∀ f ∈ s.info.fbm p.owner, (f.flag p.index).bUsedByRender = false
  | .requestPicture h => s.info.isMinor h = true → s.info.pMajorDispFrame.isSome = true
  | .returnPicture h pVPicture => ∀ p ∈ pVPicture, (s.info.picture p).isSome = true ∧
      ∀ pic ∈ s.info.picture p, pic.nID < frmForbidUseTag ∨ p.owner = h
  | .flush h => s.info.isMinor h = true ∨ ∀ f ∈ s.info.fbm h, f.pValidPictureQueue = none
  | .setFbmBufAddress _ _ => ∀ f ∈ s.info.fbm s.info.dispHandle,
      f.bUseGpuBuf = true ∧ s.nValidBufNum < f.nMaxFrameNum
  | .setNewDispRelease => ∀ f ∈ s.info.fbm s.info.dispHandle, f.pValidPictureQueue = none
  | _ => True

instance (s : FbmSession) (call : FbmCall) : Decidable (Countable s call) := by
  cases call <;> unfold Countable <;> infer_instance

structure FbmSession.InOrder (s : FbmSession) : Prop where
  shared : s.info.bTwoStreamShareOneFbm = true → (s.info.fbm .pFbmFirst).isSome = true
  managers : ∃ gpu bound, Managed (Counted gpu bound) s.info ∧
    (gpu s.info.dispHandle = true → bound s.info.dispHandle = s.nValidBufNum)

/-- New managers, of at most `FRM_RELEASE_TAG` frames each. -/
structure FbmSession.Started (s : FbmSession) : Prop where
  created : ∀ h f, s.info.fbm h = some f → ∃ ci mem, fbmCreateBuffer ci mem = some f ∧
    (ci.nFrameNum : ℤ) ≤ frmReleaseTag
  shared : s.info.bTwoStreamShareOneFbm = true → (s.info.fbm .pFbmFirst).isSome = true
  nValidBufNum : s.nValidBufNum = 0

theorem Frames.created_exact (ci : FbmCreateInfo) : (created ci).Exact where
  decoderHolding := by simp [number,created,newFrameNode]
  renderHolding := by simp [number,created,newFrameNode]
  waitForDisp := by simp [number,created,newFrameNode]

variable {s : FbmSession}

theorem FbmSession.Started.inOrder (h : s.Started) : s.InOrder where
  shared := h.shared
  managers := by
    refine ⟨fun o => (s.info.fbm o).elim false (·.bUseGpuBuf),
      fun o => (s.info.fbm o).elim 0 fun f => if f.bUseGpuBuf then 0 else f.nMaxFrameNum,
      fun o f hf => ?_, fun hgpu => ?_⟩
    · obtain ⟨ci,mem,hcreate,hsmall⟩ := h.created o f hf
      have hl := fbmCreateBuffer_linked hcreate
      refine ⟨_,hl,?_⟩
      have hgpu : f.bUseGpuBuf = ci.usesGpuBuf := hl.useGpuBuf
      have hmax : f.nMaxFrameNum = ci.nFrameNum := hl.max
      simpa [Counted,hf,hgpu,hmax] using
        And.intro (created_orderly ci hsmall fun _ => True) (created_exact ci)
    · rw [h.nValidBufNum]
      cases hf : s.info.fbm s.info.dispHandle with
      | none => simp [hf]
      | some f =>
        simp only [hf,Option.elim_some] at hgpu ⊢
        rw [if_pos hgpu]

theorem started_singleStream (ci : FbmCreateInfo) (mem : CreateMemory) {f : Fbm}
    (hf : fbmCreateBuffer ci mem = some f) (hsmall : (ci.nFrameNum : ℤ) ≤ frmReleaseTag) :
    Started ⟨singleStream f,0⟩ where
  created h g hg := by
    cases h with
    | pFbmFirst => exact ⟨ci,mem,hf.trans hg,hsmall⟩
    | pFbmSecond => cases hg
  shared := nofun
  nValidBufNum := rfl

theorem FbmSession.InOrder.of_keeps (h : s.InOrder) {gpu : FbmHandle → Bool} {bound : FbmHandle → ℕ}
    {info : VideoFbmInfo} {n : ℕ} (hk : Keeps (Counted gpu bound) s.info info)
    (hn : gpu s.info.dispHandle = true → bound s.info.dispHandle = n) :
    InOrder ⟨info,n⟩ := by
  refine ⟨fun htwo => ?_, gpu,bound,hk.1,fun hgpu => ?_⟩
  · rw [hk.2.isSome]
    exact h.shared (hk.2.bTwoStreamShareOneFbm ▸ htwo)
  · rw [hk.2.dispHandle] at hgpu ⊢
    exact hn hgpu

theorem FbmSession.InOrder.step (h : s.InOrder) {call : FbmCall} (hg : Countable s call) :
    ∃ s', s.step call = some s' ∧ s'.InOrder := by
  obtain ⟨gpu,bound,hm,hn⟩ := h.managers
  have hP := counted_closed gpu bound
  cases call with
  | requestBuffer o =>
    exact of_call (h.of_keeps · hn) <| fbmRequestBuffer_keeps hP hm o
  | returnBuffer o p bValidPicture =>
    exact of_call (h.of_keeps · hn) <| fbmReturnBuffer_keeps hP hm h.shared o p bValidPicture
      (fun p hp => (hg p hp).1)
      (G := fun flag => flag.bUsedByDecoder = true → flag.bNeedRelease = false)
      (fun p hp => (hg p hp).2) fun o a i hi ha hguard =>
        ⟨ha.1.returnBuffer hi (fun hdec hneed => by simp [hguard hdec] at hneed) bValidPicture,
          ha.2.returnBuffer ha.1.1.settled hi hguard bValidPicture⟩
  | shareBuffer o p =>
    exact of_call (h.of_keeps · hn) <| fbmShareBuffer_keeps hP hm o p (fun p hp => (hg p hp).1)
      fun p hp => (hg p hp).2
  | requestPicture o =>
    exact of_call (h.of_keeps · hn) <| fbmRequestPicture_keeps hP hm o hg
  | returnPicture o p =>
    exact of_call (h.of_keeps · hn) <| fbmReturnPicture_keeps hP hm o p (fun p hp => (hg p hp).1)
      fun p hp => (hg p hp).2
  | flush o =>
    exact of_call (h.of_keeps · hn) <| fbmFlush_keeps hm o fun hminor f a hf hl ha => by
      rw [hl.valid_eq_nil (hg.resolve_left (by simp [hminor]) f hf)]
      exact ha
  | setFbmBufAddress nBufId bForbidUseFlag =>
    cases hf : s.info.fbm s.info.dispHandle with
    | none => exact ⟨s,by simp [FbmSession.step,fbmSetFbmBufAddress,hf],h⟩
    | some f =>
      obtain ⟨a,hl,ha⟩ := hm _ f hf
      obtain ⟨hgpu,hlt⟩ := hg f hf
      rw [hl.max] at hlt
      have hbound := hn (by rw [← ha.1.1.useGpuBuf,← hl.useGpuBuf,hgpu])
      obtain ⟨hfree,huntouched,-⟩ := ha.1.1.unbound.frames s.nValidBufNum hbound.le hlt
      have hothers (o : FbmHandle) (g : Fbm) (ho : o ≠ s.info.dispHandle)
          (hg : s.info.fbm o = some g) : ∃ a, Linked g a ∧
            Counted gpu (update bound s.info.dispHandle (s.nValidBufNum+1)) o a := by
        obtain ⟨b,hb,hcount⟩ := hm o g hg
        refine ⟨b,hb,?_⟩
        unfold Counted
        rwa [update_of_ne ho]
      have hbind : Counted gpu (update bound s.info.dispHandle (s.nValidBufNum+1))
          s.info.dispHandle (a.bind s.nValidBufNum nBufId bForbidUseFlag) := by
        unfold Counted
        rw [update_self]
        refine ⟨?_,ha.2.bind hlt hfree huntouched nBufId bForbidUseFlag⟩
        have horderly := ha.1
        rw [hbound] at horderly
        exact horderly.bind hlt trivial bForbidUseFlag
      obtain ⟨info,hinfo,hk⟩ :=
        fbmSetFbmBufAddress_keeps hf hl hlt hfree nBufId bForbidUseFlag hothers hbind
      exact ⟨_,congrArg (Option.map _) hinfo,h.of_keeps hk fun _ => update_self ..⟩
  | setNewDispRelease =>
    exact of_call (h.of_keeps · hn) <| fbmSetNewDispRelease_keeps hm fun f a hf hl ha =>
      ⟨ha.1.setNewDispRelease hl (.inr (hl.valid_eq_nil (hg f hf))),
        ha.2.setNewDispRelease hl ha.1.1.settled (hl.valid_eq_nil (hg f hf)) _⟩
  | requestReleasePicture =>
    exact ⟨_,rfl,h.of_keeps (fbmRequestReleasePicture_keeps hP hm) hn⟩
  | returnReleasePicture nBufId bForbidUseFlag =>
    exact of_call (h.of_keeps · hn) <| fbmReturnReleasePicture_keeps hP hm nBufId bForbidUseFlag
      fun o a ha => ⟨ha.1.returnRelease trivial bForbidUseFlag,
        ha.2.returnRelease ha.1.1.settled ha.1.1.small nBufId bForbidUseFlag⟩

theorem Linked.countersExact {f : Fbm} {a : Frames} (hl : Linked f a)
    (hs : a.Settled) (ha : a.Exact) : CountersExact f := by
  have hvalid : (range a.max).filter (fun i => (a.flag i).bInValidPictureQueue) =
      (a.queue .validPicture).toFinset := by
    ext i
    rw [mem_filter,mem_range,List.mem_toFinset]
    constructor
    · rintro ⟨hi,hv⟩
      obtain ⟨place,hat,hok⟩ := hs i hi
      exact (hat .validPicture).mpr (hok.valid.mp hv)
    · intro hmem
      obtain ⟨place,hat,hok⟩ := hs i (hl.lt_max hmem)
      exact ⟨hl.lt_max hmem,hok.valid.mpr ((hat .validPicture).mp hmem)⟩
  constructor
  · rw [hl.max,hl.flag,← number_eq_card a (·.bUsedByDecoder),← ha.decoderHolding,← hl.counts]
    rfl
  · rw [hl.max,hl.flag,← number_eq_card a (·.bUsedByRender),← ha.renderHolding,← hl.counts]
    rfl
  · refine ⟨a.queue .validPicture,hl.queues.chain .validPicture,?_⟩
    rw [← List.toFinset_card_of_nodup (hl.queues.nodup _),← hvalid,
      ← number_eq_card a (·.bInValidPictureQueue),← ha.waitForDisp,← hl.counts]
    rfl

/-- In every run of such calls from new managers, no call goes wrong, and in the state reached
the counters of both managers are exact. -/
theorem frame_counters_exact (s : FbmSession) (hs : s.Started) (calls : List FbmCall)
    (hg : Guarded step Countable s calls) :
    ∃ s', runSteps step s calls = some s' ∧ ∀ h f, s'.info.fbm h = some f → CountersExact f := by
  obtain ⟨s',hs',horder⟩ := runSteps_invariant InOrder
    (fun _ _ hi ha => hi.step ha) calls s hs.inOrder hg
  obtain ⟨gpu,bound,hm,-⟩ := horder.managers
  refine ⟨s',hs',fun h f hf => ?_⟩
  obtain ⟨a,hl,ha⟩ := hm h f hf
  exact hl.countersExact ha.1.1.settled ha.2

theorem frame_counters_exact_of_two_frames :
    ∃ f s', fbmCreateBuffer ⟨2,false,true,.referenceDisp⟩ ⟨true,true,fun _ => true⟩ = some f ∧
      runSteps step ⟨singleStream f,0⟩
        [.setFbmBufAddress 7 false,.setFbmBufAddress 8 true,.requestBuffer .pFbmFirst,
          .shareBuffer .pFbmFirst (some ⟨.pFbmFirst,0⟩),.requestPicture .pFbmFirst,
          .returnBuffer .pFbmFirst (some ⟨.pFbmFirst,0⟩) true,
          .returnPicture .pFbmFirst (some ⟨.pFbmFirst,1⟩),.setNewDispRelease,
          .returnPicture .pFbmFirst (some ⟨.pFbmFirst,0⟩),.requestReleasePicture,
          .returnReleasePicture 9 false] = some s' ∧
      ∀ h f, s'.info.fbm h = some f → CountersExact f := by
  simp only [exists_and_left]
  exact ⟨_,rfl,frame_counters_exact _ (started_singleStream ⟨2,false,true,.referenceDisp⟩
    ⟨true,true,fun _ => true⟩ rfl (by decide)) _ (by decide +kernel)⟩

/-- A picture that waits for the display is flushed and is still counted. -/
theorem flushed_picture_still_counted :
    ∃ f s' f', fbmCreateBuffer ⟨1,false,false,.referenceDisp⟩ ⟨true,true,fun _ => true⟩ =
        some f ∧
      runSteps step ⟨singleStream f,0⟩
        [.requestBuffer .pFbmFirst,.returnBuffer .pFbmFirst (some ⟨.pFbmFirst,0⟩) true,
          .flush .pFbmFirst] = some s' ∧
      s'.info.fbm .pFbmFirst = some f' ∧ ¬CountersExact f' := by
  refine ⟨_,_,_,rfl,rfl,rfl,fun h => ?_⟩
  obtain ⟨valid,hchain,hlen⟩ := h.waitForDisp
  obtain rfl := chain_none hchain
  exact absurd hlen (by decide)

end TinaPackage.FrameBuffer
