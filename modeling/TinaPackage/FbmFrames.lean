import TinaPackage.FbmQueues
import TinaPackage.FbmReleaseModel

/-! A manager whose queues are lists. The mutex sections of the linked one follow it as long as
no frame is queued twice. -/
namespace TinaPackage.FrameBuffer
open Function List

attribute [local simp] Fbm.modifyPicture Fbm.modifyFrame

variable (f : Fbm) (i : ℕ) (g : VideoPicture → VideoPicture)

@[simp] theorem modifyPicture_flag : (f.modifyPicture i g).flag = f.flag := by
  funext j
  by_cases hj : j = i
  · subst hj; simp [Fbm.flag]
  · simp [Fbm.flag,hj]

@[simp] theorem modifyPicture_next : (f.modifyPicture i g).next = f.next := by
  funext j
  by_cases hj : j = i
  · subst hj; simp [Fbm.next]
  · simp [Fbm.next,hj]

structure FrameCounts where
  decoderHolding : ℤ
  renderHolding : ℤ
  waitForDisp : ℤ
  releaseBuffer : ℤ

def Fbm.counts : FrameCounts :=
  ⟨f.nDecoderHoldingNum,f.nRenderHoldingNum,f.nWaitForDispNum,f.nReleaseBufferNum⟩

structure Frames where
  max : ℕ
  useGpuBuf : Bool
  flag : ℕ → FrameNodeFlag
  picture : ℕ → VideoPicture
  queue : QueueId → List ℕ
  counts : FrameCounts

namespace Frames

variable (a : Frames)

def modifyFlag (i : ℕ) (g : FrameNodeFlag → FrameNodeFlag) : Frames :=
  { a with flag := update a.flag i (g (a.flag i)) }

def modifyPicture (i : ℕ) (g : VideoPicture → VideoPicture) : Frames :=
  { a with picture := update a.picture i (g (a.picture i)) }

def recount (g : FrameCounts → FrameCounts) : Frames :=
  { a with counts := g a.counts }

def setQueue (q : QueueId) (xs : List ℕ) : Frames :=
  { a with queue := update a.queue q xs }

def enqueue (q : QueueId) (i : ℕ) : Frames := a.setQueue q (a.queue q ++ [i])

def Free (i : ℕ) : Prop := ∀ q, i ∉ a.queue q

end Frames

/-- The linked manager `f` is the manager `a`, with its links and its other counters. -/
structure Linked (a : Frames) : Prop where
  max : f.nMaxFrameNum = a.max
  useGpuBuf : f.bUseGpuBuf = a.useGpuBuf
  flag : f.flag = a.flag
  picture : ∀ i, (f.pFrames i).vpicture = a.picture i
  queues : Queues f a.queue
  counts : f.counts = a.counts

namespace Linked
variable {f : Fbm} {a : Frames} (h : Linked f a)
include h

theorem modifyFlag (i : ℕ) (g : FrameNodeFlag → FrameNodeFlag) :
    Linked (f.modifyFlag i g) (a.modifyFlag i g) where
  __ := h
  flag := by rw [modifyFlag_flag,h.flag]; rfl
  picture j := by rw [modifyFlag_vpicture]; exact h.picture j
  queues := h.queues.congr (modifyFlag_next ..) (modifyFlag_head ..) rfl

theorem modifyPicture (i : ℕ) (g : VideoPicture → VideoPicture) :
    Linked (f.modifyPicture i g) (a.modifyPicture i g) where
  __ := h
  flag := by
    rw [modifyPicture_flag,h.flag]
    rfl
  picture j := by
    by_cases hj : j = i
    · subst hj
      simp [Frames.modifyPicture,h.picture]
    · simp [Frames.modifyPicture,hj,h.picture]
  queues := h.queues.congr (modifyPicture_next f i g) (by funext q; cases q <;> rfl) rfl

theorem recount (g : FrameCounts → FrameCounts) (f' : Fbm)
    (hf : f'.nMaxFrameNum = f.nMaxFrameNum ∧ f'.bUseGpuBuf = f.bUseGpuBuf ∧
      f'.pFrames = f.pFrames ∧ f'.head = f.head) (hcounts : f'.counts = g f.counts) :
    Linked f' (a.recount g) where
  max := hf.1.trans h.max
  useGpuBuf := hf.2.1.trans h.useGpuBuf
  flag := by
    funext i
    rw [Fbm.flag,hf.2.2.1]
    exact congrFun h.flag i
  picture i := by
    rw [hf.2.2.1]
    exact h.picture i
  queues := h.queues.congr (by funext i; simp only [Fbm.next,hf.2.2.1]) hf.2.2.2 hf.1
  counts := by rw [hcounts,h.counts]; rfl

variable {q : QueueId} {i : ℕ}

theorem relink {xs : List ℕ} {next : ℕ → Option ℕ} {p : Option ℕ}
    (hqueues : Queues (f.relink next q p) (update a.queue q xs)) :
    Linked (f.relink next q p) (a.setQueue q xs) where
  max := (relink_nMaxFrameNum ..).trans h.max
  useGpuBuf := by cases q <;> exact h.useGpuBuf
  flag := (relink_flag ..).trans h.flag
  picture i := (relink_vpicture ..).trans (h.picture i)
  queues := hqueues
  counts := by cases q <;> exact h.counts

theorem enqueue (hi : i < a.max) (hfree : a.Free i) (q : QueueId) :
    ∃ f', fbmEnqueue f q i = some f' ∧ Linked f' (a.enqueue q i) := by
  obtain ⟨next,p,hf,hqueues⟩ := h.queues.enqueue q (h.max ▸ hi) hfree
  exact ⟨_,hf,h.relink hqueues⟩

theorem dequeue {rest : List ℕ} (hq : a.queue q = i :: rest) :
    ∃ f', fbmDequeue f q = some (i, f') ∧ Linked f' (a.setQueue q rest) := by
  obtain ⟨next,p,hf,hqueues,_⟩ := h.queues.dequeue q hq
  exact ⟨_,hf,h.relink hqueues⟩

theorem lt_max (hi : i ∈ a.queue q) : i < a.max :=
  h.max ▸ h.queues.lt q i hi

theorem free_of_dequeue {rest : List ℕ} (hq : a.queue q = i :: rest) :
    (a.setQueue q rest).Free i := by
  obtain ⟨_,_,_,_,hfree⟩ := h.queues.dequeue q hq
  exact hfree

theorem dequeue_nil (hq : a.queue q = []) : fbmDequeue f q = none :=
  h.queues.dequeue_nil hq

end Linked

def FrameNodeFlag.touched (flag : FrameNodeFlag) : Bool :=
  flag.bUsedByDecoder || flag.bInValidPictureQueue || flag.bUsedByRender || flag.bAlreadyDisplayed

namespace Frames

variable (a : Frames)

def requestBuffer : Frames × Option ℕ :=
  match a.queue .emptyBuffer with
  | [] => (a, none)
  | i :: rest =>
    let a := a.setQueue .emptyBuffer rest
    if (a.flag i).touched then (a, none)
    else
      ((a.recount fun c => { c with decoderHolding := c.decoderHolding+1 }).modifyFlag i
        fun flag => { flag with bUsedByDecoder := true }, some i)

def returnBuffer (i : ℕ) (bValidPicture : Bool) : Frames :=
  let flag := a.flag i
  let back := a.modifyFlag i fun flag => { flag with bUsedByDecoder := false }
  let counted := back.recount fun c => { c with decoderHolding := c.decoderHolding-1 }
  if !flag.bUsedByDecoder then a
  else if flag.bNeedRelease then
    ((back.recount fun c => { c with releaseBuffer := c.releaseBuffer+1 }).enqueue
      .releaseBuffer i).modifyFlag i
        fun flag => { flag with bAlreadyDisplayed := false, bInValidPictureQueue := false }
  else if flag.bInValidPictureQueue then
    if flag.bUsedByRender || flag.bAlreadyDisplayed then back else counted
  else if flag.bUsedByRender then counted
  else if flag.bAlreadyDisplayed then
    (counted.modifyFlag i fun flag => { flag with bAlreadyDisplayed := false }).enqueue
      .emptyBuffer i
  else if bValidPicture then
    ((counted.recount fun c => { c with waitForDisp := c.waitForDisp+1 }).enqueue
      .validPicture i).modifyFlag i fun flag => { flag with bInValidPictureQueue := true }
  else counted.enqueue .emptyBuffer i

def shareBuffer (i : ℕ) : Frames :=
  let flag := a.flag i
  if !flag.bUsedByDecoder || flag.bInValidPictureQueue || flag.bAlreadyDisplayed then a
  else
    ((a.recount fun c => { c with waitForDisp := c.waitForDisp+1 }).modifyFlag i
      fun flag => { flag with bInValidPictureQueue := true }).enqueue .validPicture i

def requestPicture : Frames × Option ℕ :=
  match a.queue .validPicture with
  | [] => (a, none)
  | i :: rest =>
    let a := a.setQueue .validPicture rest
    let flag := a.flag i
    if !flag.bInValidPictureQueue || flag.bUsedByRender || flag.bAlreadyDisplayed then (a, none)
    else
      (((a.recount fun c => { c with
          waitForDisp := c.waitForDisp-1
          renderHolding := c.renderHolding+1 }).modifyFlag i
        fun flag =>
        { flag with bInValidPictureQueue := false, bUsedByRender := true }).modifyPicture
          i fun pic => { pic with nBufStatus := pic.nBufStatus ||| majorDispUseFlag }, some i)

def returnPicture (i : ℕ) : Frames × ℤ :=
  let flag := a.flag i
  if !flag.bUsedByRender || flag.bInValidPictureQueue || flag.bAlreadyDisplayed then (a, -1)
  else
    let a := (a.recount fun c => { c with renderHolding := c.renderHolding-1 }).modifyFlag i
      fun flag => { flag with bUsedByRender := false }
    if flag.bUsedByDecoder then
      (a.modifyFlag i fun flag => { flag with bAlreadyDisplayed := true }, 0)
    else if !flag.bNeedRelease then (a.enqueue .emptyBuffer i, 0)
    else
      ((a.recount fun c => { c with releaseBuffer := c.releaseBuffer+1 }).enqueue
        .releaseBuffer i, 0)

def returnForbidden (i : ℕ) : Frames × ℤ :=
  let flag := a.flag i
  if flag.bUsedByRender || flag.bInValidPictureQueue || flag.bAlreadyDisplayed then (a, -1)
  else (a.enqueue .emptyBuffer i, 0)

def flushOne (i : ℕ) : Frames × Bool :=
  let a := a.modifyPicture i fun pic => { pic with nBufStatus := 0 }
  let flag := a.flag i
  if flag.bUsedByRender || flag.bAlreadyDisplayed then (a, false)
  else
    let a := a.modifyFlag i fun flag => { flag with bInValidPictureQueue := false }
    if !flag.bUsedByDecoder then (a.enqueue .emptyBuffer i, true)
    else (a.modifyFlag i fun flag => { flag with bAlreadyDisplayed := true }, true)

def flush : List ℕ → Frames → Frames
  | [], a => a
  | i :: rest, a =>
    match (a.setQueue .validPicture rest).flushOne i with
    | (a, false) => a
    | (a, true) => flush rest a

def bind (i : ℕ) (nBufId : ℤ) (bForbidUseFlag : Bool) : Frames :=
  let a := a.modifyPicture i fun pic => { pic with nID := i, nBufId := nBufId }
  if bForbidUseFlag then
    a.modifyPicture i fun pic => { pic with nID := pic.nID+frmForbidUseTag }
  else a.enqueue .emptyBuffer i

def mark : Frames :=
  { a with flag := fun i =>
      if i < a.max ∧ (a.picture i).nBufId ≠ fbmNewDispInvalidTag then
        { a.flag i with bNeedRelease := true }
      else a.flag i }

def newDispRelease : List ℕ → Frames → Frames
  | [], a => a
  | i :: rest, a =>
    let a := a.setQueue .emptyBuffer rest
    if (a.flag i).touched then a
    else
      newDispRelease rest
      ((a.recount fun c => { c with releaseBuffer := c.releaseBuffer+1 }).enqueue .releaseBuffer i)

def requestRelease : Frames × Option ℕ :=
  match a.queue .releaseBuffer with
  | [] => (a, none)
  | i :: rest =>
    (((a.setQueue .releaseBuffer rest).recount
      fun c => { c with releaseBuffer := c.releaseBuffer-1 }).modifyPicture i
        fun pic => { pic with nID := frmReleaseTag }, some i)

def findReleased : Option ℕ :=
  (range a.max).find? fun i =>
    (a.flag i).bNeedRelease && (a.picture i).nID == frmReleaseTag

def returnRelease (nBufId : ℤ) (bForbidUseFlag : Bool) : Frames :=
  match a.findReleased with
  | none => a
  | some i =>
    (a.modifyFlag i fun flag => { flag with bNeedRelease := false }).bind i nBufId bForbidUseFlag

theorem flushOne_validPicture (i : ℕ) :
    (a.flushOne i).1.queue .validPicture = a.queue .validPicture := by
  unfold flushOne
  dsimp only
  split_ifs <;> simp [enqueue,setQueue,modifyFlag,modifyPicture]

end Frames

namespace Linked
variable {f : Fbm} {a : Frames} (h : Linked f a)
include h

theorem requestBuffer : ∃ f', requestBufferLocked f = (f', a.requestBuffer.2) ∧
    Linked f' a.requestBuffer.1 := by
  unfold requestBufferLocked Frames.requestBuffer
  cases hq : a.queue .emptyBuffer with
  | nil => exact ⟨f,by rw [h.dequeue_nil hq],h⟩
  | cons i rest =>
    obtain ⟨f',hf,hl⟩ := h.dequeue hq
    by_cases htouched : ((a.setQueue .emptyBuffer rest).flag i).touched = true
    · simp only [hf,hl.flag,if_pos htouched]
      exact ⟨f',if_pos htouched,hl⟩
    · simp only [hf,hl.flag,if_neg htouched]
      refine ⟨_,if_neg htouched,modifyFlag ?_ i _⟩
      exact hl.recount _ _ ⟨rfl,rfl,rfl,rfl⟩ rfl

variable {i : ℕ}

theorem returnBuffer (hi : i < a.max) (hfree : (a.flag i).bUsedByDecoder = true →
      (a.flag i).bNeedRelease = true ∨ (a.flag i).bInValidPictureQueue = false → a.Free i)
    (bValidPicture : Bool) :
    ∃ f', returnBufferLocked f i bValidPicture = some f' ∧
      Linked f' (a.returnBuffer i bValidPicture) := by
  have hback := h.modifyFlag i fun flag => { flag with bUsedByDecoder := false }
  have hflag : (f.modifyFlag i fun flag => { flag with bUsedByDecoder := false }).flag i =
      { a.flag i with bUsedByDecoder := false } := by
    rw [modifyFlag_flag,update_self,h.flag]
  simp only [returnBufferLocked,Frames.returnBuffer,hflag,h.flag]
  split_ifs with hdec hneed hvalid hbad hrender hshown hkeep
  · exact ⟨f,rfl,h⟩
  · obtain ⟨f',hf,hl⟩ := hback.enqueue hi (hfree (by simpa using hdec) (.inl hneed)) .releaseBuffer
    rw [hf]
    refine ⟨_,rfl,modifyFlag ?_ i _⟩
    exact hl.recount (fun c => { c with releaseBuffer := c.releaseBuffer+1 }) _
      ⟨rfl,rfl,rfl,rfl⟩ rfl
  · exact ⟨_,rfl,hback⟩
  · exact ⟨_,rfl,hback.recount _ _ ⟨rfl,rfl,rfl,rfl⟩ rfl⟩
  · exact ⟨_,rfl,hback.recount _ _ ⟨rfl,rfl,rfl,rfl⟩ rfl⟩
  · obtain ⟨f',hf,hl⟩ := (hback.modifyFlag i fun flag =>
      { flag with bAlreadyDisplayed := false }).enqueue hi
        (hfree (by simpa using hdec) (.inr (by simpa using hvalid))) .emptyBuffer
    rw [hf]
    exact ⟨_,rfl,hl.recount (fun c => { c with decoderHolding := c.decoderHolding-1 }) _
      ⟨rfl,rfl,rfl,rfl⟩ rfl⟩
  · obtain ⟨f',hf,hl⟩ := hback.enqueue hi
      (hfree (by simpa using hdec) (.inr (by simpa using hvalid))) .validPicture
    rw [hf]
    refine ⟨_,rfl,modifyFlag ?_ i _⟩
    exact hl.recount (fun c => { c with
      decoderHolding := c.decoderHolding-1, waitForDisp := c.waitForDisp+1 }) _
      ⟨rfl,rfl,rfl,rfl⟩ rfl
  · obtain ⟨f',hf,hl⟩ := hback.enqueue hi
      (hfree (by simpa using hdec) (.inr (by simpa using hvalid))) .emptyBuffer
    rw [hf]
    exact ⟨_,rfl,hl.recount (fun c => { c with decoderHolding := c.decoderHolding-1 }) _
      ⟨rfl,rfl,rfl,rfl⟩ rfl⟩

theorem shareBuffer (hi : i < a.max)
    (hfree : (a.flag i).bUsedByDecoder = true → (a.flag i).bInValidPictureQueue = false →
      a.Free i) : ∃ f', shareBufferLocked f i = some f' ∧ Linked f' (a.shareBuffer i) := by
  simp only [shareBufferLocked,Frames.shareBuffer,h.flag]
  split_ifs with hrefused
  · exact ⟨f,rfl,h⟩
  · simp only [Bool.or_eq_true,Bool.not_eq_true',not_or,Bool.not_eq_true,
      Bool.not_eq_false] at hrefused
    obtain ⟨f',hf,hl⟩ := (h.modifyFlag i fun flag =>
      { flag with bInValidPictureQueue := true }).enqueue hi (hfree hrefused.1.1 hrefused.1.2)
        .validPicture
    rw [hf]
    exact ⟨_,rfl,hl.recount (fun c => { c with waitForDisp := c.waitForDisp+1 }) _
      ⟨rfl,rfl,rfl,rfl⟩ rfl⟩

theorem requestPicture : ∃ f', requestPictureLocked f = (f', a.requestPicture.2) ∧
    Linked f' a.requestPicture.1 := by
  unfold requestPictureLocked Frames.requestPicture
  cases hq : a.queue .validPicture with
  | nil => exact ⟨f,by rw [h.dequeue_nil hq],h⟩
  | cons i rest =>
    obtain ⟨f',hf,hl⟩ := h.dequeue hq
    simp only [hf,hl.flag]
    split_ifs
    · exact ⟨f',rfl,hl⟩
    · exact ⟨_,rfl,((hl.recount (fun c => { c with
        waitForDisp := c.waitForDisp-1, renderHolding := c.renderHolding+1 })
        { f' with
          nValidPictureNum := f'.nValidPictureNum-1
          nWaitForDispNum := f'.nWaitForDispNum-1
          nRenderHoldingNum := f'.nRenderHoldingNum+1 }
        ⟨rfl,rfl,rfl,rfl⟩ rfl).modifyFlag i fun flag =>
          { flag with bInValidPictureQueue := false, bUsedByRender := true }).modifyPicture i
            fun pic => { pic with nBufStatus := pic.nBufStatus ||| majorDispUseFlag }⟩

theorem returnPicture (hi : i < a.max)
    (hfree : (a.flag i).bUsedByRender = true → (a.flag i).bUsedByDecoder = false →
      (a.flag i).bInValidPictureQueue = false → a.Free i) :
    ∃ f', returnPictureLocked f i = some (f', (a.returnPicture i).2) ∧
      Linked f' (a.returnPicture i).1 := by
  have hback := (h.recount (fun c => { c with renderHolding := c.renderHolding-1 })
    { f with nRenderHoldingNum := f.nRenderHoldingNum-1 } ⟨rfl,rfl,rfl,rfl⟩ rfl).modifyFlag i
      fun flag => { flag with bUsedByRender := false }
  simp only [returnPictureLocked,Frames.returnPicture,h.flag]
  split_ifs with hrefused hdec hneed
  · exact ⟨f,rfl,h⟩
  · exact ⟨_,rfl,hback.modifyFlag i _⟩
  · simp only [Bool.or_eq_true,Bool.not_eq_true',not_or,Bool.not_eq_true,
      Bool.not_eq_false] at hrefused
    obtain ⟨f',hf,hl⟩ := hback.enqueue hi
      (hfree hrefused.1.1 (by simpa using hdec) hrefused.1.2) .emptyBuffer
    rw [hf]
    exact ⟨_,rfl,hl.recount id _ ⟨rfl,rfl,rfl,rfl⟩ rfl⟩
  · simp only [Bool.or_eq_true,Bool.not_eq_true',not_or,Bool.not_eq_true,
      Bool.not_eq_false] at hrefused
    obtain ⟨f',hf,hl⟩ := hback.enqueue hi
      (hfree hrefused.1.1 (by simpa using hdec) hrefused.1.2) .releaseBuffer
    rw [hf]
    exact ⟨_,rfl,hl.recount (fun c => { c with releaseBuffer := c.releaseBuffer+1 }) _
      ⟨rfl,rfl,rfl,rfl⟩ rfl⟩

theorem returnForbidden (hi : i < a.max) (hfree : a.Free i) :
    ∃ f', returnForbiddenLocked f i = some (f', (a.returnForbidden i).2) ∧
      Linked f' (a.returnForbidden i).1 := by
  simp only [returnForbiddenLocked,Frames.returnForbidden,h.flag]
  split_ifs
  · exact ⟨f,rfl,h⟩
  · obtain ⟨f',hf,hl⟩ := h.enqueue hi hfree .emptyBuffer
    rw [hf]
    exact ⟨_,rfl,hl.recount id _ ⟨rfl,rfl,rfl,rfl⟩ rfl⟩

theorem flushOne (hi : i < a.max) (hfree : a.Free i) :
    ∃ f', FrameBuffer.flushOne f i = some (f', (a.flushOne i).2) ∧ Linked f' (a.flushOne i).1 := by
  have hcleared := (h.recount id { f with nValidPictureNum := f.nValidPictureNum-1 }
    ⟨rfl,rfl,rfl,rfl⟩ rfl).modifyPicture i fun pic => { pic with nBufStatus := 0 }
  have hout := hcleared.modifyFlag i fun flag => { flag with bInValidPictureQueue := false }
  have hflag : ({ f with nValidPictureNum := f.nValidPictureNum-1 }.modifyStatus i
      fun _ => 0).flag i = a.flag i := congrFun hcleared.flag i
  simp only [FrameBuffer.flushOne,Frames.flushOne,hflag]
  have hkept : (a.modifyPicture i fun pic => { pic with nBufStatus := 0 }).flag i = a.flag i := rfl
  rw [hkept]
  split_ifs
  · exact ⟨_,rfl,hcleared⟩
  · obtain ⟨f',hf,hl⟩ := hout.enqueue hi hfree .emptyBuffer
    exact ⟨_,congrArg (Option.map _) hf,hl.recount id _ ⟨rfl,rfl,rfl,rfl⟩ rfl⟩
  · exact ⟨_,rfl,hout.modifyFlag i _⟩

omit h in
theorem flush (fuel : ℕ) : ∀ (xs : List ℕ) {f : Fbm} {a : Frames}, Linked f a →
    a.queue .validPicture = xs → xs.length < fuel →
    ∃ f', flushLocked fuel f = some f' ∧ Linked f' (a.flush xs) := by
  induction fuel with
  | zero => exact fun _ _ _ _ _ hfuel => absurd hfuel (Nat.not_lt_zero _)
  | succ fuel ih =>
    intro xs f a h hq hfuel
    cases xs with
    | nil =>
      refine ⟨f,?_,h⟩
      rw [flushLocked,h.dequeue_nil hq]
    | cons i rest =>
      obtain ⟨f₁,hf₁,hl₁⟩ := h.dequeue hq
      have hi : i < a.max := h.lt_max (q := .validPicture) (by simp [hq])
      obtain ⟨f₂,hf₂,hl₂⟩ := hl₁.flushOne hi (h.free_of_dequeue hq)
      have hrest : ((a.setQueue .validPicture rest).flushOne i).1.queue .validPicture = rest := by
        simp [Frames.flushOne_validPicture,Frames.setQueue]
      simp only [flushLocked,hf₁,hf₂,Frames.flush]
      generalize (a.setQueue .validPicture rest).flushOne i = r at hl₂ hrest ⊢
      obtain ⟨a₂,continues⟩ := r
      cases continues with
      | false => exact ⟨f₂,rfl,hl₂⟩
      | true => exact ih rest hl₂ hrest (Nat.lt_of_succ_lt_succ hfuel)

theorem bind (hi : i < a.max) (nBufId : ℤ) (bForbidUseFlag : Bool)
    (hfree : bForbidUseFlag = false → a.Free i) :
    ∃ f', bindFrame f i nBufId bForbidUseFlag = some f' ∧
      Linked f' (a.bind i nBufId bForbidUseFlag) := by
  have hbound := h.modifyPicture i fun pic => { pic with nID := i, nBufId := nBufId }
  cases bForbidUseFlag with
  | true => exact ⟨_,rfl,hbound.modifyPicture i _⟩
  | false =>
    obtain ⟨f',hf,hl⟩ := hbound.enqueue hi (hfree rfl) .emptyBuffer
    exact ⟨_,congrArg (Option.map _) hf,hl.recount id _ ⟨rfl,rfl,rfl,rfl⟩ rfl⟩

theorem mark : Linked (markNeedRelease f) a.mark where
  __ := h
  flag := by
    funext i
    have hi : (f.pFrames i).Flag = a.flag i := congrFun h.flag i
    simp only [Fbm.flag,markNeedRelease,Frames.mark,h.max,h.picture,hi]
    split_ifs
    · rfl
    · exact hi
  picture i := by
    simp only [markNeedRelease,Frames.mark]
    split_ifs
    · exact h.picture i
    · exact h.picture i
  queues := by
    refine h.queues.congr ?_ (by funext q; cases q <;> rfl) rfl
    funext i
    simp only [Fbm.next,markNeedRelease]
    split_ifs <;> rfl

omit h in
theorem newDispRelease (fuel : ℕ) : ∀ (xs : List ℕ) {f : Fbm} {a : Frames}, Linked f a →
    a.queue .emptyBuffer = xs → xs.length < fuel →
    ∃ f', newDispReleaseLocked fuel f = some f' ∧ Linked f' (a.newDispRelease xs) := by
  induction fuel with
  | zero => exact fun _ _ _ _ _ hfuel => absurd hfuel (Nat.not_lt_zero _)
  | succ fuel ih =>
    intro xs f a h hq hfuel
    cases xs with
    | nil =>
      refine ⟨f,?_,h⟩
      rw [newDispReleaseLocked,h.dequeue_nil hq]
    | cons i rest =>
      obtain ⟨f₁,hf₁,hl₁⟩ := h.dequeue hq
      have hi : i < a.max := h.lt_max (q := .emptyBuffer) (by simp [hq])
      simp only [newDispReleaseLocked,hf₁,hl₁.flag,Frames.newDispRelease]
      by_cases htouched : ((a.setQueue .emptyBuffer rest).flag i).touched = true
      · exact ⟨f₁,if_pos htouched,by rwa [if_pos htouched]⟩
      · rw [if_neg htouched]
        obtain ⟨f₂,hf₂,hl₂⟩ := (hl₁.recount id
          { f₁ with nEmptyBufferNum := f₁.nEmptyBufferNum-1 } ⟨rfl,rfl,rfl,rfl⟩ rfl).enqueue hi
            (h.free_of_dequeue hq) .releaseBuffer
        have hcounted := hl₂.recount (fun c => { c with releaseBuffer := c.releaseBuffer+1 })
          { f₂ with nReleaseBufferNum := f₂.nReleaseBufferNum+1 } ⟨rfl,rfl,rfl,rfl⟩ rfl
        have hrest : ((a.setQueue .emptyBuffer rest).enqueue .releaseBuffer i).queue .emptyBuffer =
            rest := by simp [Frames.enqueue,Frames.setQueue]
        obtain ⟨f',hf',hl'⟩ := ih rest hcounted hrest (Nat.lt_of_succ_lt_succ hfuel)
        refine ⟨f',(if_neg htouched).trans ?_,hl'⟩
        rw [hf₂]
        exact hf'

theorem requestRelease : ∃ f', requestReleaseLocked f = (f', a.requestRelease.2) ∧
    Linked f' a.requestRelease.1 := by
  unfold requestReleaseLocked Frames.requestRelease
  cases hq : a.queue .releaseBuffer with
  | nil => exact ⟨f,by rw [h.dequeue_nil hq],h⟩
  | cons i rest =>
    obtain ⟨f',hf,hl⟩ := h.dequeue hq
    rw [hf]
    exact ⟨_,rfl,(hl.recount (fun c => { c with releaseBuffer := c.releaseBuffer-1 })
      { f' with nReleaseBufferNum := f'.nReleaseBufferNum-1 } ⟨rfl,rfl,rfl,rfl⟩
      rfl).modifyPicture i _⟩

theorem findReleased : f.findReleased = a.findReleased := by
  simp only [Fbm.findReleased,Frames.findReleased,h.max,h.flag,h.picture]

theorem returnRelease (nBufId : ℤ) (bForbidUseFlag : Bool)
    (hfree : ∀ i, a.findReleased = some i → bForbidUseFlag = false → a.Free i) :
    ∃ f', returnReleaseLocked f nBufId bForbidUseFlag = some f' ∧
      Linked f' (a.returnRelease nBufId bForbidUseFlag) := by
  simp only [returnReleaseLocked,Frames.returnRelease,h.findReleased]
  cases hfound : a.findReleased with
  | none => exact ⟨f,rfl,h⟩
  | some i =>
    have hi : i < a.max := mem_range.mp (mem_of_find?_eq_some hfound)
    exact (h.modifyFlag i _).bind hi nBufId bForbidUseFlag (hfree i hfound)

theorem enqueueAll (q : QueueId) (xs : List ℕ) (hnodup : xs.Nodup)
    (hxs : ∀ i ∈ xs, i < a.max ∧ a.Free i) :
    ∃ f', FrameBuffer.enqueueAll f q xs = some f' ∧ Linked f' (a.setQueue q (a.queue q ++ xs)) := by
  induction xs generalizing f a with
  | nil =>
    refine ⟨f,rfl,?_⟩
    rw [append_nil,Frames.setQueue,update_eq_self]
    exact h
  | cons i rest ih =>
    obtain ⟨hi,hrest⟩ := nodup_cons.mp hnodup
    obtain ⟨f₁,hf₁,hl₁⟩ := h.enqueue (hxs i (mem_cons_self ..)).1 (hxs i (mem_cons_self ..)).2 q
    obtain ⟨f',hf',hl'⟩ := ih hl₁ hrest fun j hj => by
      obtain ⟨hj',hfree⟩ := hxs j (mem_cons_of_mem _ hj)
      refine ⟨hj',fun q' => ?_⟩
      have hji : j ≠ i := fun he => hi (he ▸ hj)
      by_cases hq : q' = q
      · subst hq
        simp [Frames.enqueue,Frames.setQueue,hfree q',hji]
      · simp [Frames.enqueue,Frames.setQueue,hq,hfree q']
    refine ⟨f',by simp [FrameBuffer.enqueueAll,hf₁,hf'],?_⟩
    simpa [Frames.enqueue,Frames.setQueue] using hl'

end Linked

def Frames.created (ci : FbmCreateInfo) : Frames where
  max := ci.nFrameNum
  useGpuBuf := ci.usesGpuBuf
  flag i := (newFrameNode i).Flag
  picture i := (newFrameNode i).vpicture
  queue q := if q = .emptyBuffer ∧ ci.usesGpuBuf = false then range ci.nFrameNum else []
  counts := ⟨0,0,0,0⟩

theorem fbmCreateBuffer_linked {ci : FbmCreateInfo} {mem : CreateMemory} {f : Fbm}
    (h : fbmCreateBuffer ci mem = some f) : Linked f (.created ci) := by
  let p : Fbm := ⟨ci.nFrameNum,0,0,0,none,none,none,newFrameNode,false,0,0,0⟩
  have hp : Linked p { Frames.created ci with useGpuBuf := false, queue := fun _ => [] } :=
    { max := rfl, useGpuBuf := rfl, flag := rfl, picture := fun _ => rfl,
      queues := ⟨fun q => by cases q <;> rfl, by simp,by simp⟩, counts := rfl }
  simp only [fbmCreateBuffer] at h
  split_ifs at h with hmem hpics hgpu
  · cases h
    refine ⟨rfl,hgpu.symm,rfl,fun _ => rfl, ?_,rfl⟩
    simpa [Frames.created,hgpu] using
      hp.queues.congr (g := { p with bUseGpuBuf := true }) rfl rfl rfl
  · obtain ⟨f',hf',hl⟩ := hp.enqueueAll .emptyBuffer (range ci.nFrameNum)
      nodup_range fun i hi => ⟨mem_range.mp hi,by simp [Frames.Free]⟩
    rw [hf'] at h
    cases h
    have hgpu' : ci.usesGpuBuf = false := by simpa using hgpu
    have hnew : ({ Frames.created ci with useGpuBuf := false, queue := fun _ => [] }.setQueue
        .emptyBuffer ([] ++ range ci.nFrameNum)).recount id = .created ci := by
      simp only [Frames.created,Frames.setQueue,Frames.recount,hgpu',Frames.mk.injEq,true_and,
        id_eq,and_true]
      funext q
      cases q <;> simp
    rw [← hnew]
    exact hl.recount id _ ⟨rfl,rfl,rfl,rfl⟩ rfl

end TinaPackage.FrameBuffer
