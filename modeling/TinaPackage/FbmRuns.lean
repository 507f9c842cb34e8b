import TinaPackage.FbmNumbers
import TinaPackage.Runs

/-! Runs of a manager shared by one decoder and one render. -/
namespace TinaPackage.FrameBuffer
open VideoFbmInfo FrameNodeFlag

structure FbmWorld where
  info : VideoFbmInfo
  decoderHolds : Finset ℕ
  renderHolds : Finset ℕ

inductive FbmOp
  | requestBuffer
  | returnBuffer (i : ℕ) (bValidPicture : Bool)
  | shareBuffer (i : ℕ)
  | requestPicture
  | returnPicture (i : ℕ)
  | flush

def hand (holds : Finset ℕ) : Option PictureRef → Finset ℕ
  | none => holds
  | some p => insert p.index holds

def FbmWorld.step (w : FbmWorld) : FbmOp → Option FbmWorld
  | .requestBuffer =>
    (fbmRequestBuffer w.info .pFbmFirst).map fun (info, p) =>
      { w with info, decoderHolds := hand w.decoderHolds p }
  | .returnBuffer i bValidPicture =>
    (fbmReturnBuffer w.info .pFbmFirst (some ⟨.pFbmFirst,i⟩) bValidPicture).map fun info =>
      { w with info, decoderHolds := w.decoderHolds.erase i }
  | .shareBuffer i =>
    (fbmShareBuffer w.info .pFbmFirst (some ⟨.pFbmFirst,i⟩)).map fun info => { w with info }
  | .requestPicture =>
    (fbmRequestPicture w.info .pFbmFirst).map fun (info, p) =>
      { w with info, renderHolds := hand w.renderHolds p }
  | .returnPicture i =>
    (fbmReturnPicture w.info .pFbmFirst (some ⟨.pFbmFirst,i⟩)).map fun (info, _) =>
      { w with info, renderHolds := w.renderHolds.erase i }
  | .flush => (fbmFlush w.info .pFbmFirst).map fun info => { w with info }

/-- Each side gives back, and the decoder shares, only frames it holds. -/
def HeldOnly (w : FbmWorld) : FbmOp → Prop
  | .returnBuffer i _ => i ∈ w.decoderHolds
  | .shareBuffer i => i ∈ w.decoderHolds
  | .returnPicture i => i ∈ w.renderHolds
  | _ => True

/-- The same, and the decoder shares no frame while the render has it. -/
def HeldOnlyUnshown (w : FbmWorld) : FbmOp → Prop
  | .shareBuffer i => i ∈ w.decoderHolds ∧ i ∉ w.renderHolds
  | op => HeldOnly w op

instance (w : FbmWorld) : ∀ op, Decidable (HeldOnly w op)
  | .returnBuffer .. | .shareBuffer _ | .returnPicture _ => inferInstanceAs (Decidable (_ ∈ _))
  | .requestBuffer | .requestPicture | .flush => .isTrue trivial

instance (w : FbmWorld) : ∀ op, Decidable (HeldOnlyUnshown w op)
  | .shareBuffer _ => inferInstanceAs (Decidable (_ ∧ _))
  | .returnBuffer .. | .returnPicture _ => inferInstanceAs (Decidable (_ ∈ _))
  | .requestBuffer | .requestPicture | .flush => .isTrue trivial

def singleStream (f : Fbm) : VideoFbmInfo where
  bIs3DStream := false
  bTwoStreamShareOneFbm := false
  pMajorDispFrame := none
  pMajorDecoderFrame := none
  fbm h := if h = .pFbmFirst then some f else none

def FbmWorld.start (f : Fbm) : FbmWorld := ⟨singleStream f,∅,∅⟩

/-- Every frame is in exactly one place determined by its flags. With `bound`
false no frame has been bound to a display buffer, and none is available. -/
structure FrameOwnership (f : Fbm) (bound : Bool) (empty valid : List ℕ) : Prop where
  emptyQueue : Chain f.next f.pEmptyBufferQueue empty
  validQueue : Chain f.next f.pValidPictureQueue valid
  emptyNodup : empty.Nodup
  validNodup : valid.Nodup
  frames : ∀ i, i ∈ empty ∨ i ∈ valid → i < f.nMaxFrameNum
  mem_empty : ∀ i < f.nMaxFrameNum, i ∈ empty ↔ bound = true ∧
    (f.flag i).bUsedByDecoder = false ∧ (f.flag i).bUsedByRender = false ∧
      (f.flag i).bInValidPictureQueue = false
  mem_valid : ∀ i < f.nMaxFrameNum, i ∈ valid ↔ (f.flag i).bInValidPictureQueue = true
  notBoth : ∀ i, ¬(i ∈ empty ∧ i ∈ valid)
  emptyNum : f.nEmptyBufferNum = empty.length
  validNum : f.nValidPictureNum = valid.length

variable {f : Fbm}

theorem Linked.frameOwnership {a : Frames} {bound : Bool} (hl : Linked f a) (h : a.Sited bound)
    (hn : Numbered f a) :
    FrameOwnership f bound (a.queue .emptyBuffer) (a.queue .validPicture) where
  emptyQueue := hl.queues.chain .emptyBuffer
  validQueue := hl.queues.chain .validPicture
  emptyNodup := hl.queues.nodup .emptyBuffer
  validNodup := hl.queues.nodup .validPicture
  frames i hi := hi.elim (hl.queues.lt _ i) (hl.queues.lt _ i)
  mem_empty i hi := by
    rw [hl.flag]
    exact h.mem_empty_iff (hl.max ▸ hi)
  mem_valid i hi := by
    rw [hl.flag]
    exact h.mem_valid_iff (hl.max ▸ hi)
  notBoth i hi := hl.queues.disjoint _ _ (by simp) i hi.1 hi.2
  emptyNum := hn.empty
  validNum := hn.valid

structure Holders (f : Fbm) (decoder render : Finset ℕ) : Prop where
  decoder : ∀ i, i ∈ decoder ↔ i < f.nMaxFrameNum ∧ (f.flag i).bUsedByDecoder = true
  render : ∀ i, i ∈ render ↔ i < f.nMaxFrameNum ∧ (f.flag i).bUsedByRender = true

def FbmWorld.Inv (bound : Bool) (w : FbmWorld) : Prop :=
  ∃ f a, w.info.fbm .pFbmFirst = some f ∧ w.info.bTwoStreamShareOneFbm = false ∧
    Linked f a ∧ a.Sited bound ∧ Numbered f a ∧ Holders f w.decoderHolds w.renderHolds

def put (holds : Finset ℕ) (i : ℕ) (b : Bool) : Finset ℕ :=
  if b then insert i holds else holds.erase i

variable {holds : Finset ℕ} {i : ℕ}

theorem put_eq_self {b : Bool} (h : i ∈ holds ↔ b = true) : put holds i b = holds := by
  cases b with
  | true => exact Finset.insert_eq_of_mem (h.mpr rfl)
  | false => exact Finset.erase_eq_of_notMem (by simp [h])

section Holders
variable {f f' : Fbm} {a a' : Frames} {decoder render : Finset ℕ} {i : ℕ}

theorem mem_put_iff {n n' : ℕ} {u u' : ℕ → Bool} {b : Bool}
    (h : ∀ j, j ∈ holds ↔ j < n ∧ u j = true) (hi : i < n) (hn : n' = n)
    (hu : u' = Function.update u i b) (j : ℕ) :
    j ∈ put holds i b ↔ j < n' ∧ u' j = true := by
  subst hn hu
  by_cases hj : j = i
  · subst hj; cases b <;> simp [put,hi]
  · cases b <;> simp [put,hj,h]

section
variable (h : Holders f decoder render) (hl : Linked f a)
include h hl

theorem Holders.moved (hl' : Linked f' a') {flag : FrameNodeFlag} {pic : VideoPicture}
    {place : Option QueueId} (hm : Frames.Moved a a' i flag pic place) (hi : i < a.max) :
    Holders f' (put decoder i flag.bUsedByDecoder) (put render i flag.bUsedByRender) := by
  have hmax : f'.nMaxFrameNum = f.nMaxFrameNum := by rw [hl'.max,hm.max,hl.max]
  have hpart (p : FrameNodeFlag → Bool) : (fun j => p (f'.flag j)) =
      Function.update (fun j => p (f.flag j)) i (p flag) := by
    rw [hl'.flag,hm.flag,hl.flag]
    exact (Function.comp_update p a.flag i flag)
  exact ⟨mem_put_iff h.decoder (hl.max ▸ hi) hmax (hpart (·.bUsedByDecoder)),
    mem_put_iff h.render (hl.max ▸ hi) hmax (hpart (·.bUsedByRender))⟩

theorem Holders.put_decoder (hi : i < a.max) : put decoder i (a.flag i).bUsedByDecoder = decoder :=
  put_eq_self (by simp [h.decoder,hl.max,hl.flag,hi])

theorem Holders.put_render (hi : i < a.max) : put render i (a.flag i).bUsedByRender = render :=
  put_eq_self (by simp [h.render,hl.max,hl.flag,hi])

theorem Holders.kept (hl' : Linked f' a') (hk : Frames.Kept a a') : Holders f' decoder render where
  decoder j := by rw [hl'.max,hl'.flag,hk.max,hk.decoder,← hl.max,← hl.flag,h.decoder]
  render j := by rw [hl'.max,hl'.flag,hk.max,hk.render,← hl.max,← hl.flag,h.render]

end

end Holders

section Calls
variable {s : VideoFbmInfo} {f : Fbm} {a : Frames} {bound : Bool} {i : ℕ}

theorem Linked.checkedIndex (hl : Linked f a) (h : a.Sited bound) (hi : i < a.max) :
    checkedIndex f .pFbmFirst ⟨.pFbmFirst,i⟩ (f.pFrames i).vpicture.nID = some i := by
  rw [hl.picture,h.home i,FrameBuffer.checkedIndex,hl.max,if_neg (by omega),if_pos (by simp)]
  simp

theorem picture_eq (hs : s.fbm .pFbmFirst = some f) (hi : i < f.nMaxFrameNum) :
    s.picture ⟨.pFbmFirst,i⟩ = some (f.pFrames i).vpicture := by
  simp only [picture,hs,if_pos hi]

section
variable {decoder render : Finset ℕ} (h : Holders f decoder render) (hl : Linked f a)
include h hl

theorem Holders.of_decoder (hi : i ∈ decoder) : i < a.max ∧ (a.flag i).bUsedByDecoder = true := by
  rw [← hl.max,← hl.flag]
  exact (h.decoder i).mp hi

theorem Holders.of_render : i ∈ render ↔ i < a.max ∧ (a.flag i).bUsedByRender = true := by
  rw [← hl.max,← hl.flag]
  exact h.render i

end

end Calls

section Steps
variable {w : FbmWorld} {bound : Bool}

attribute [local simp] setFbm FbmWorld.step

section
variable (h : w.Inv bound)
include h

theorem FbmWorld.Inv.requestBuffer : ∃ w', w.step .requestBuffer = some w' ∧ w'.Inv bound := by
  obtain ⟨f,a,hs,htwo,hl,hsited,hn,hold⟩ := h
  obtain ⟨f',hf',hl'⟩ := hl.requestBuffer
  have hn' := hn.requestBuffer hl hsited.settled hf'
  rcases Frames.requestBuffer_moved hl hsited.settled with
    hsame | ⟨i,hi,hmem,-,hsome,hm,-⟩
  · rw [hsame] at hf' hl' hn'
    refine ⟨⟨{ w.info with pMajorDecoderFrame := none }.setFbm .pFbmFirst f',w.decoderHolds,
      w.renderHolds⟩,?_,f',a,?_,htwo,hl',hsited,hn',?_⟩
    · simp [fbmRequestBuffer,hs,isMinor,hf',hand]
    · simp
    · exact hold.kept hl hl' (.refl a)
  · rw [hsome] at hf'
    have hold' := hold.moved hl hl' hm.1 hi
    rw [hold.put_render hl hi] at hold'
    refine ⟨⟨{ w.info with pMajorDecoderFrame := none }.setFbm .pFbmFirst f',
      put w.decoderHolds i true,w.renderHolds⟩,?_,f',_,?_,htwo,hl',
      hsited.settles hm (hsited.bound_of_mem hi hmem) (hsited.unmarked i hi) (hsited.home i)
        (by simp),hn',hold'⟩
    · simp [fbmRequestBuffer,hs,isMinor,hf',hand,htwo,put]
    · simp

theorem FbmWorld.Inv.returnBuffer (hi : i ∈ w.decoderHolds) (bValidPicture : Bool) :
    ∃ w', w.step (.returnBuffer i bValidPicture) = some w' ∧ w'.Inv bound := by
  obtain ⟨f,a,hs,htwo,hl,hsited,hn,hold⟩ := h
  obtain ⟨hlt,hdec⟩ := hold.of_decoder hl hi
  have hneed := hsited.unmarked i hlt
  have htouched : (a.flag i).touched = true := by simp [touched,hdec]
  obtain ⟨f',hf',hl'⟩ := hl.returnBuffer hlt (fun _ hor => hsited.settled.free hlt htouched
    (hor.resolve_left (by simp [hneed]))) bValidPicture
  obtain ⟨-,flag,place,hm,hback,hrender,hmark,hcase⟩ :=
    (Frames.returnBuffer_moved hsited.settled hlt (by simp [hneed]) bValidPicture).resolve_left
      (by simp [hdec])
  obtain ⟨-,hplace,-⟩ := hcase.resolve_left (by simp [hneed])
  have hold' := hold.moved hl hl' hm.1 hlt
  rw [hback,hrender,hold.put_render hl hlt] at hold'
  refine ⟨⟨w.info.setFbm .pFbmFirst f',put w.decoderHolds i false,w.renderHolds⟩,?_,f',_,
    ?_,htwo,hl',hsited.settles hm (hsited.bound_of_touched hlt htouched) (hmark.trans hneed)
      (hsited.home i) hplace,hn.returnBuffer hl hf',hold'⟩
  · simp [fbmReturnBuffer,hs,picture_eq hs (hl.max ▸ hlt),returnBufferStream,htwo,
      hl.checkedIndex hsited hlt,hf',put]
  · simp

theorem FbmWorld.Inv.shareBuffer (hi : i ∈ w.decoderHolds) (hr : i ∉ w.renderHolds) :
    ∃ w', w.step (.shareBuffer i) = some w' ∧ w'.Inv bound := by
  obtain ⟨f,a,hs,htwo,hl,hsited,hn,hold⟩ := h
  obtain ⟨hlt,hdec⟩ := hold.of_decoder hl hi
  have hrender : (a.flag i).bUsedByRender = false := by
    by_contra hr'
    exact hr ((hold.of_render hl).mpr ⟨hlt,by simpa using hr'⟩)
  have htouched : (a.flag i).touched = true := by simp [touched,hdec]
  have hneed : (f.flag i).bNeedRelease = false := by
    rw [hl.flag]
    exact hsited.unmarked i hlt
  obtain ⟨f',hf',hl'⟩ := hl.shareBuffer hlt fun _ => hsited.settled.free hlt htouched
  have hn' := hn.shareBuffer hl hf'
  suffices hnext : (a.shareBuffer i).Sited bound ∧ Holders f' w.decoderHolds w.renderHolds by
    refine ⟨⟨w.info.setFbm .pFbmFirst f',w.decoderHolds,w.renderHolds⟩,?_,f',_,?_,htwo,hl',
      hnext.1,hn',hnext.2⟩
    · simp [fbmShareBuffer,hs,isMinor,picture_eq hs (hl.max ▸ hlt),
        hl.checkedIndex hsited hlt,hneed,hf']
    · simp
  rcases Frames.shareBuffer_moved hsited.settled hlt hrender with hsame | ⟨-,-,hm,-⟩
  · rw [hsame] at hl' ⊢
    exact ⟨hsited,hold.kept hl hl' (.refl a)⟩
  · have hold' := hold.moved hl hl' hm.1 hlt
    rw [hold.put_decoder hl hlt,hold.put_render hl hlt] at hold'
    exact ⟨hsited.settles hm (hsited.bound_of_touched hlt htouched) (hsited.unmarked i hlt)
      (hsited.home i) (by simp),hold'⟩

theorem FbmWorld.Inv.requestPicture : ∃ w', w.step .requestPicture = some w' ∧ w'.Inv bound := by
  obtain ⟨f,a,hs,htwo,hl,hsited,hn,hold⟩ := h
  obtain ⟨f',hf',hl'⟩ := hl.requestPicture
  have hn' := hn.requestPicture hl hsited.settled hf'
  rcases Frames.requestPicture_moved hl hsited.settled with
    hsame | ⟨i,hi,hvalid,-,hsome,hm,-⟩
  · rw [hsame] at hf' hl' hn'
    refine ⟨⟨{ w.info with pMajorDispFrame := none }.setFbm .pFbmFirst f',w.decoderHolds,
      w.renderHolds⟩,?_,f',a,?_,htwo,hl',hsited,hn',?_⟩
    · simp [fbmRequestPicture,hs,isMinor,hf',hand]
    · simp
    · exact hold.kept hl hl' (.refl a)
  · rw [hsome] at hf'
    have hold' := hold.moved hl hl' hm.1 hi
    rw [hold.put_decoder hl hi] at hold'
    refine ⟨⟨{ w.info with pMajorDispFrame := some ⟨.pFbmFirst,i⟩ }.setFbm .pFbmFirst f',
      w.decoderHolds,put w.renderHolds i true⟩,?_,f',_,?_,htwo,hl',
      hsited.settles hm (hsited.bound_of_touched hi (by simp [touched,hvalid]))
        (hsited.unmarked i hi) (hsited.home i) (by simp),hn',hold'⟩
    · simp [fbmRequestPicture,hs,isMinor,hf',hand,put]
    · simp

theorem FbmWorld.Inv.returnPicture (hi : i ∈ w.renderHolds) :
    ∃ w', w.step (.returnPicture i) = some w' ∧ w'.Inv bound := by
  obtain ⟨f,a,hs,htwo,hl,hsited,hn,hold⟩ := h
  obtain ⟨hlt,hrender⟩ := (hold.of_render hl).mp hi
  have hneed := hsited.unmarked i hlt
  have htouched : (a.flag i).touched = true := by simp [touched,hrender]
  obtain ⟨f',hf',hl'⟩ := hl.returnPicture hlt fun _ _ => hsited.settled.free hlt htouched
  obtain ⟨-,-,flag,place,hm,hback,hdec,-,hmark,hplace,-⟩ :=
    (Frames.returnPicture_moved hsited.settled hlt).resolve_left (by simp [hrender])
  have hold' := hold.moved hl hl' hm.1 hlt
  rw [hback,hdec,hold.put_decoder hl hlt] at hold'
  have hid : ¬((f.pFrames i).vpicture.nID ≥ f.nMaxFrameNum ∧
      (f.pFrames i).vpicture.nID ≥ frmForbidUseTag) := by
    rw [hl.picture,hsited.home i,hl.max]
    omega
  refine ⟨⟨w.info.setFbm .pFbmFirst f',w.decoderHolds,put w.renderHolds i false⟩,?_,f',_,
    ?_,htwo,hl',hsited.settles hm (hsited.bound_of_touched hlt htouched) (hmark.trans hneed)
      (hsited.home i) (by simp [hplace,hneed]),hn.returnPicture hl hf',hold'⟩
  · simp [fbmReturnPicture,hs,picture_eq hs (hl.max ▸ hlt),returnPictureStream,htwo,
      if_neg hid,hl.checkedIndex hsited hlt,hf',put]
  · simp

theorem FbmWorld.Inv.flush : ∃ w', w.step .flush = some w' ∧ w'.Inv bound := by
  obtain ⟨f,a,hs,htwo,hl,hsited,hn,hold⟩ := h
  have hlen := chain_length_le (hl.queues.chain .validPicture) (hl.queues.lt .validPicture)
  obtain ⟨f',hf',hl',hsited',hn',hkept⟩ :=
    Frames.Sited.flush (f.nMaxFrameNum+1) _ hl hsited hn rfl (by omega)
  refine ⟨⟨w.info.setFbm .pFbmFirst f',w.decoderHolds,w.renderHolds⟩,?_,f',_,?_,htwo,hl',
    hsited',hn',hold.kept hl hl' hkept⟩
  · simp [fbmFlush,hs,isMinor,hf']
  · simp

theorem FbmWorld.Inv.step {op : FbmOp} (hg : HeldOnlyUnshown w op) :
    ∃ w', w.step op = some w' ∧ w'.Inv bound := by
  cases op with
  | requestBuffer => exact h.requestBuffer
  | returnBuffer i bValidPicture => exact h.returnBuffer hg bValidPicture
  | shareBuffer i => exact h.shareBuffer hg.1 hg.2
  | requestPicture => exact h.requestPicture
  | returnPicture i => exact h.returnPicture hg
  | flush => exact h.flush

end

end Steps

/-- In every state of every run from a new manager in which each side gives back only what it holds,
and the decoder shares no frame the render has, no call goes wrong and each frame is in the one
place its flags say. -/
theorem frame_ownership_in_every_run (ci : FbmCreateInfo) (mem : CreateMemory) (f : Fbm)
    (hf : fbmCreateBuffer ci mem = some f) (ops : List FbmOp)
    (hg : Guarded FbmWorld.step HeldOnlyUnshown (.start f) ops) :
    ∃ w f' empty valid, runSteps FbmWorld.step (.start f) ops = some w ∧
      w.info.fbm .pFbmFirst = some f' ∧ FrameOwnership f' (!ci.usesGpuBuf) empty valid := by
  have hl := fbmCreateBuffer_linked hf
  have hstart : (FbmWorld.start f).Inv (!ci.usesGpuBuf) := by
    refine ⟨f,.created ci,rfl,rfl,hl,.created ci,fbmCreateBuffer_numbered hf,?_,?_⟩
    all_goals
      intro i
      rw [hl.flag]
      simp [FbmWorld.start,Frames.created,newFrameNode]
  obtain ⟨w,hw,f',a,hs,-,hl',hsited,hn,-⟩ :=
    runSteps_invariant (FbmWorld.Inv (!ci.usesGpuBuf)) (fun _ _ hi ha => hi.step ha) ops _ hstart hg
  exact ⟨w,f',_,_,hw,hs,hl'.frameOwnership hsited hn⟩

theorem frame_ownership_in_every_run_of_one_frame :
    ∃ f w f' empty valid, fbmCreateBuffer ⟨1,false,false,.referenceDisp⟩
        ⟨true,true,fun _ => true⟩ = some f ∧
      runSteps FbmWorld.step (.start f)
        [.requestBuffer,.shareBuffer 0,.requestPicture,.returnPicture 0,.returnBuffer 0 true,
          .flush] = some w ∧
      w.info.fbm .pFbmFirst = some f' ∧ FrameOwnership f' true empty valid := by
  obtain ⟨w,f',empty,valid,hw,hf',h⟩ := frame_ownership_in_every_run
    ⟨1,false,false,.referenceDisp⟩ ⟨true,true,fun _ => true⟩ _ rfl
    [.requestBuffer,.shareBuffer 0,.requestPicture,.returnPicture 0,.returnBuffer 0 true,
      .flush] (by decide)
  exact ⟨_,w,f',empty,valid,rfl,hw,hf',h⟩

theorem not_frameOwnership_of_idle (hi : i < f.nMaxFrameNum) (hq : f.pEmptyBufferQueue = none)
    (hidle : (f.flag i).touched = false) (empty valid : List ℕ) :
    ¬FrameOwnership f true empty valid := by
  intro h
  simp only [touched,Bool.or_eq_false_iff] at hidle
  have hmem := (h.mem_empty i hi).mpr ⟨rfl,hidle.1.1.1,hidle.1.2,hidle.1.1.2⟩
  have hc := h.emptyQueue
  rw [hq] at hc
  rw [chain_none hc] at hmem
  exact List.not_mem_nil hmem

theorem not_frameOwnership_of_queued (hi : i < f.nMaxFrameNum) (hq : f.pValidPictureQueue = none)
    (hv : (f.flag i).bInValidPictureQueue = true) (bound : Bool) (empty valid : List ℕ) :
    ¬FrameOwnership f bound empty valid := by
  intro h
  have hmem := (h.mem_valid i hi).mpr hv
  have hc := h.validQueue
  rw [hq] at hc
  rw [chain_none hc] at hmem
  exact List.not_mem_nil hmem

/-- A manager whose frames the display binds later starts with idle frames in no queue. In the other
mode, a decoder that shares its frame a second time while the render has it makes the render take
the frame out of the valid queue and then refuse it. -/
theorem frames_lost_by_unbound_start_and_second_share :
    (∃ f, fbmCreateBuffer ⟨1,false,true,.referenceDisp⟩ ⟨true,true,fun _ => true⟩ = some f ∧
      ∀ empty valid, ¬FrameOwnership f true empty valid) ∧
    ∃ f w f', fbmCreateBuffer ⟨1,false,false,.referenceDisp⟩ ⟨true,true,fun _ => true⟩ =
        some f ∧
      Guarded FbmWorld.step HeldOnly (.start f)
        [.requestBuffer,.shareBuffer 0,.requestPicture,.shareBuffer 0,.requestPicture] ∧
      runSteps FbmWorld.step (.start f)
        [.requestBuffer,.shareBuffer 0,.requestPicture,.shareBuffer 0,.requestPicture] = some w ∧
      w.info.fbm .pFbmFirst = some f' ∧ ∀ empty valid, ¬FrameOwnership f' true empty valid := by
  refine ⟨⟨_,rfl,?_⟩,⟨_,_,_,rfl,by decide,rfl,rfl,?_⟩⟩
  · exact not_frameOwnership_of_idle (i := 0) (by decide) rfl rfl
  · exact not_frameOwnership_of_queued (i := 0) (by decide) rfl rfl true

end TinaPackage.FrameBuffer
