import TinaPackage.FbmSessions

/-! Two streams, a major and a minor one, share the first manager (`vdecoder/fbm.c`). The bits of
`nBufStatus` say which stream still has a frame, and the manager takes the frame back when the
last one of them returns it. -/
namespace TinaPackage.FrameBuffer
open Function Option Frames VideoFbmInfo FrameNodeFlag

structure TwoStreams where
  session : FbmSession
  buffers : FbmHandle → Finset ℕ
  pictures : FbmHandle → Finset ℕ
  answers : List ℤ

inductive TwoStreamsCall
  | setFbmBufAddress (nBufId : ℤ)
  | requestBuffer (h : FbmHandle)
  | returnBuffer (h : FbmHandle) (i : ℕ) (bValidPicture : Bool)
  | requestPicture (h : FbmHandle)
  | returnPicture (h : FbmHandle) (i : ℕ)
deriving DecidableEq

def obtains (held : FbmHandle → Finset ℕ) (h : FbmHandle) : Option PictureRef → FbmHandle → Finset ℕ
  | none => held
  | some p => update held h (insert p.index (held h))

def returns (held : FbmHandle → Finset ℕ) (h : FbmHandle) (i : ℕ) : FbmHandle → Finset ℕ :=
  update held h ((held h).erase i)

namespace TwoStreams

variable (w : TwoStreams)

def info : VideoFbmInfo := w.session.info

def setInfo (info : VideoFbmInfo) : TwoStreams := { w with session := { w.session with info } }

def step : TwoStreamsCall → Option TwoStreams
  | .setFbmBufAddress nBufId =>
    (w.session.step (.setFbmBufAddress nBufId false)).map fun session => { w with session }
  | .requestBuffer h =>
    (fbmRequestBuffer w.info h).map fun (info, p) =>
      { w.setInfo info with buffers := obtains w.buffers h p }
  | .returnBuffer h i bValidPicture =>
    (fbmReturnBuffer w.info h (some ⟨.pFbmFirst,i⟩) bValidPicture).map fun info =>
      { w.setInfo info with buffers := returns w.buffers h i }
  | .requestPicture h =>
    (fbmRequestPicture w.info h).map fun (info, p) =>
      { w.setInfo info with pictures := obtains w.pictures h p }
  | .returnPicture h i =>
    (fbmReturnPicture w.info h (some ⟨.pFbmFirst,i⟩)).map fun (info, ret) =>
      { w.setInfo info with pictures := returns w.pictures h i, answers := ret :: w.answers }

def created (f g : Fbm) : TwoStreams where
  session :=
    { info :=
        { bIs3DStream := true
          bTwoStreamShareOneFbm := true
          pMajorDispFrame := none
          pMajorDecoderFrame := none
          fbm := fun
            | .pFbmFirst => some f
            | .pFbmSecond => some g }
      nValidBufNum := 0 }
  buffers _ := ∅
  pictures _ := ∅
  answers := []

/-- The minor decoder will get this frame with its next request, and has not had it yet. -/
def Offered (f : Fbm) (i : ℕ) : Prop :=
  w.info.pMajorDecoderFrame = some ⟨.pFbmFirst,i⟩ ∧
    (f.pFrames i).vpicture.nBufStatus &&& minorNeedUseFlag ≠ 0

/-- A decoder or the render has the frame or is still to get it. -/
def Wanted (f : Fbm) (i : ℕ) : Prop :=
  i ∈ w.buffers .pFbmFirst ∨ i ∈ w.buffers .pFbmSecond ∨ w.Offered f i ∨
    (f.flag i).bInValidPictureQueue = true ∨ i ∈ w.pictures .pFbmFirst ∨ i ∈ w.pictures .pFbmSecond

def bound (f : Fbm) : ℕ := if f.bUseGpuBuf then w.session.nValidBufNum else f.nMaxFrameNum

/-- No frame is lost, and the render could return every picture it had. -/
structure Recycles : Prop where
  empty : ∀ f, w.info.fbm .pFbmFirst = some f → ∀ i < w.bound f, ¬w.Wanted f i →
    i ∈ walkList f.next f.nMaxFrameNum f.pEmptyBufferQueue
  answers : ∀ ret ∈ w.answers, ret = 0

instance (w : TwoStreams) (f : Fbm) (i : ℕ) : Decidable (w.Offered f i) := by
  unfold Offered
  infer_instance

instance (w : TwoStreams) (f : Fbm) (i : ℕ) : Decidable (w.Wanted f i) := by
  unfold Wanted
  infer_instance

/-- The decoders and the render return what they have. The major decoder asks for a new frame after
the minor one got every frame that it is to get, and returns a valid frame only as long as the minor
one has it or can get it. The minor stream shows and returns a picture while the major one has it.
-/
def InTurn : TwoStreamsCall → Prop
  | .setFbmBufAddress _ => ∀ f ∈ w.info.fbm .pFbmFirst,
      f.bUseGpuBuf = true ∧ w.session.nValidBufNum < f.nMaxFrameNum
  | .requestBuffer .pFbmFirst => ∀ f ∈ w.info.fbm .pFbmFirst,
      ∀ p ∈ w.info.pMajorDecoderFrame, w.Offered f p.index →
        (f.flag p.index).bUsedByDecoder = true →
        p.index ∈ w.buffers .pFbmFirst ∨ p.index ∈ w.buffers .pFbmSecond
  | .requestBuffer .pFbmSecond => True
  | .returnBuffer .pFbmFirst i bValidPicture => i ∈ w.buffers .pFbmFirst ∧
      ∀ f ∈ w.info.fbm .pFbmFirst, bValidPicture = true →
        (f.pFrames i).vpicture.nBufStatus &&& minorNeedUseFlag ≠ 0 →
        i ∈ w.buffers .pFbmSecond ∨ w.Offered f i
  | .returnBuffer .pFbmSecond i _ => i ∈ w.buffers .pFbmSecond
  | .requestPicture .pFbmFirst => True
  | .requestPicture .pFbmSecond =>
      ∃ p ∈ w.info.pMajorDispFrame, p.index ∈ w.pictures .pFbmFirst
  | .returnPicture .pFbmFirst i => i ∈ w.pictures .pFbmFirst
  | .returnPicture .pFbmSecond i => i ∈ w.pictures .pFbmSecond ∧ i ∈ w.pictures .pFbmFirst

instance (w : TwoStreams) (call : TwoStreamsCall) : Decidable (w.InTurn call) := by
  rcases call with _ | (_ | _) | ⟨_ | _,_,_⟩ | (_ | _) | ⟨_ | _,_⟩ <;>
    unfold InTurn <;> infer_instance

end TwoStreams

/-- Who has frame `i`, and whether the minor decoder would get it now. -/
structure Halves where
  majorBuffer : Bool
  minorBuffer : Bool
  majorPicture : Bool
  minorPicture : Bool
  current : Bool

def holds (held : FbmHandle → Finset ℕ) (h : FbmHandle) (i : ℕ) : Bool := i ∈ held h

section Holds
variable (held : FbmHandle → Finset ℕ) {h o owner : FbmHandle} {i j : ℕ}

@[simp] theorem holds_obtains_self : holds (obtains held h (some ⟨owner,i⟩)) h i = true := by
  simp [holds,obtains]

@[simp] theorem holds_obtains_of_handle_ne (ho : o ≠ h) (p : PictureRef) :
    holds (obtains held h (some p)) o j = holds held o j := by
  simp [holds,obtains,ho]

theorem holds_obtains_of_ne (hj : j ≠ i) :
    holds (obtains held h (some ⟨owner,i⟩)) o j = holds held o j := by
  by_cases ho : o = h
  · subst ho
    simp [holds,obtains,hj]
  · simp [ho]

@[simp] theorem holds_returns_self : holds (returns held h i) h i = false := by
  simp [holds,returns]

@[simp] theorem holds_returns_of_handle_ne (ho : o ≠ h) :
    holds (returns held h i) o j = holds held o j := by
  simp [holds,returns,ho]

theorem holds_returns_of_ne (hj : j ≠ i) : holds (returns held h i) o j = holds held o j := by
  by_cases ho : o = h
  · subst ho
    simp [holds,returns,hj]
  · simp [ho]

end Holds

def TwoStreams.halves (w : TwoStreams) (i : ℕ) : Halves where
  majorBuffer := holds w.buffers .pFbmFirst i
  minorBuffer := holds w.buffers .pFbmSecond i
  majorPicture := holds w.pictures .pFbmFirst i
  minorPicture := holds w.pictures .pFbmSecond i
  current := w.info.pMajorDecoderFrame == some ⟨.pFbmFirst,i⟩

/-- The bits of `nBufStatus` say who has the frame. -/
@[mk_iff]
structure Bits (st : BitVec 32) (v : Halves) : Prop where
  majorBuffer : st.getLsbD 0 = v.majorBuffer
  minorBuffer : st.getLsbD 1 = v.minorBuffer
  majorPicture : st.getLsbD 2 = v.majorPicture
  minorPicture : st.getLsbD 3 = v.minorPicture

/-- A frame is with the decoders as long as one of them has it or is to get it, and then not with
the render. -/
structure HalvesOk (i : ℕ) (flag : FrameNodeFlag) (pic : VideoPicture) (v : Halves) : Prop
    extends Bits pic.nBufStatus v where
  nID : pic.nID = i
  displayed : flag.bAlreadyDisplayed = false
  needRelease : flag.bNeedRelease = false
  apart : flag.bUsedByDecoder = true →
    flag.bUsedByRender = false ∧ flag.bInValidPictureQueue = false
  decoder : flag.bUsedByDecoder = true → v.majorBuffer = true ∨ v.minorBuffer = true ∨
    v.current = true ∧ pic.nBufStatus.getLsbD 4 = true
  major : v.majorBuffer = true → flag.bUsedByDecoder = true
  render : flag.bUsedByRender = (v.majorPicture || v.minorPicture)

theorem and_twoPow_ne_zero {st mask : BitVec 32} {k : ℕ} (hmask : mask = BitVec.twoPow 32 k)
    (hne : mask ≠ 0) : st &&& mask ≠ 0 ↔ st.getLsbD k = true := by
  rw [hmask,BitVec.and_twoPow,← hmask]
  cases st.getLsbD k with
  | false => simp
  | true => simpa using hne

section
variable (st : BitVec 32)
include st

theorem major_decoder_ne_zero : st &&& majorDecoderUseFlag ≠ 0 ↔ st.getLsbD 0 = true :=
  and_twoPow_ne_zero (by decide) (by decide)

theorem minor_decoder_ne_zero : st &&& minorDecoderUseFlag ≠ 0 ↔ st.getLsbD 1 = true :=
  and_twoPow_ne_zero (by decide) (by decide)

theorem major_disp_ne_zero : st &&& majorDispUseFlag ≠ 0 ↔ st.getLsbD 2 = true :=
  and_twoPow_ne_zero (by decide) (by decide)

theorem minor_disp_ne_zero : st &&& minorDispUseFlag ≠ 0 ↔ st.getLsbD 3 = true :=
  and_twoPow_ne_zero (by decide) (by decide)

theorem minor_need_ne_zero : st &&& minorNeedUseFlag ≠ 0 ↔ st.getLsbD 4 = true :=
  and_twoPow_ne_zero (by decide) (by decide)

end

def VideoPicture.restatus (g : BitVec 32 → BitVec 32) (pic : VideoPicture) : VideoPicture :=
  { pic with nBufStatus := g pic.nBufStatus }

namespace HalvesOk
attribute [local simp] VideoPicture.restatus majorDecoderUseFlag minorDecoderUseFlag
  majorDispUseFlag minorDispUseFlag minorNeedUseFlag

variable {i : ℕ} {flag : FrameNodeFlag} {pic : VideoPicture} {v : Halves}
  (h : HalvesOk i flag pic v)
include h

theorem passed (hnot : flag.bUsedByDecoder = true → v.current = true →
    pic.nBufStatus.getLsbD 4 = true → v.majorBuffer = true ∨ v.minorBuffer = true) :
    HalvesOk i flag pic { v with current := false } :=
  { h with
    decoder := fun hdec => by
      rcases h.decoder hdec with hmajor | hminor | ⟨hcurrent,hneed⟩
      · exact .inl hmajor
      · exact .inr (.inl hminor)
      · exact (hnot hdec hcurrent hneed).imp_right .inl }

theorem majorRequest (huntouched : flag.touched = false) :
    HalvesOk i { flag with bUsedByDecoder := true }
      (pic.restatus fun st => st ||| majorDecoderUseFlag ||| minorNeedUseFlag)
      { v with majorBuffer := true, current := true } := by
  simp only [touched,Bool.or_eq_false_iff] at huntouched
  obtain ⟨⟨⟨-,hvalid⟩,hrender⟩,-⟩ := huntouched
  exact { h with
    apart := fun _ => ⟨hrender,hvalid⟩
    decoder := fun _ => .inl rfl
    major := fun _ => rfl
    toBits := by have := h.toBits; simp_all [bits_iff] }

theorem minorRequest : HalvesOk i flag
      (pic.restatus fun st => (st ||| minorDecoderUseFlag) &&& ~~~minorNeedUseFlag)
      { v with minorBuffer := true } :=
  { h with
    decoder := fun _ => .inr (.inl rfl)
    toBits := by have := h.toBits; simp_all [bits_iff] }

variable {flag' : FrameNodeFlag}

section
variable (hrender : flag'.bUsedByRender = flag.bUsedByRender)
  (hrest : flag'.bAlreadyDisplayed = false ∧ flag'.bNeedRelease = false)
include hrender hrest

theorem majorReturn
    (hdec : flag'.bUsedByDecoder = true → flag' = flag ∧
      (v.minorBuffer = true ∨ v.current = true ∧ pic.nBufStatus.getLsbD 4 = true)) :
    HalvesOk i flag' (pic.restatus (· &&& ~~~majorDecoderUseFlag))
      { v with majorBuffer := false } :=
  { h with
    displayed := hrest.1
    needRelease := hrest.2
    apart := fun hd => by
      obtain ⟨rfl,-⟩ := hdec hd
      exact h.apart hd
    decoder := fun hd => by simpa using (hdec hd).2
    major := by simp
    render := hrender.trans h.render
    toBits := by have := h.toBits; simp_all [bits_iff] }

theorem minorReturn (hdec : flag'.bUsedByDecoder = true → flag' = flag)
    (hmajor : flag'.bUsedByDecoder = v.majorBuffer) :
    HalvesOk i flag' (pic.restatus (· &&& ~~~minorDecoderUseFlag))
      { v with minorBuffer := false } :=
  { h with
    displayed := hrest.1
    needRelease := hrest.2
    apart := fun hd => by
      obtain rfl := hdec hd
      exact h.apart hd
    decoder := fun hd => .inl (hmajor.symm.trans hd)
    major := fun hm => hmajor.trans hm
    render := hrender.trans h.render
    toBits := by have := h.toBits; simp_all [bits_iff] }

end

theorem majorShows (hvalid : flag.bInValidPictureQueue = true) :
    HalvesOk i { flag with bInValidPictureQueue := false, bUsedByRender := true }
      (pic.restatus (· ||| majorDispUseFlag))
      { v with majorPicture := true } :=
  { h with
    apart := fun hdec => absurd ((h.apart hdec).2.symm.trans hvalid) (by simp)
    decoder := fun hdec => absurd ((h.apart hdec).2.symm.trans hvalid) (by simp)
    render := rfl
    toBits := by have := h.toBits; simp_all [bits_iff] }

theorem minorShows (hmajor : v.majorPicture = true) :
    HalvesOk i flag (pic.restatus (· ||| minorDispUseFlag)) { v with minorPicture := true } :=
  { h with
    decoder := fun hdec => by simpa using h.decoder hdec
    render := by simpa [hmajor] using h.render
    toBits := by have := h.toBits; simp_all [bits_iff] }

theorem majorHides (hdec : flag'.bUsedByDecoder = flag.bUsedByDecoder)
    (hrest : flag'.bAlreadyDisplayed = false ∧ flag'.bNeedRelease = false)
    (hrender : flag'.bUsedByRender = v.minorPicture) (hmajor : v.majorPicture = true) :
    HalvesOk i flag' (pic.restatus (· &&& ~~~majorDispUseFlag))
      { v with majorPicture := false } := by
  have hnot : flag.bUsedByDecoder = false := by
    cases hd : flag.bUsedByDecoder with
    | false => rfl
    | true => exact absurd (h.render.symm.trans (h.apart hd).1) (by simp [hmajor])
  exact { h with
    displayed := hrest.1
    needRelease := hrest.2
    apart := fun hd => absurd (hdec.symm.trans hd) (by simp [hnot])
    decoder := fun hd => absurd (hdec.symm.trans hd) (by simp [hnot])
    major := fun hm => hdec.trans (h.major hm)
    render := by simpa using hrender
    toBits := by have := h.toBits; simp_all [bits_iff] }

theorem minorHides (hmajor : v.majorPicture = true) :
    HalvesOk i flag (pic.restatus (· &&& ~~~minorDispUseFlag)) { v with minorPicture := false } :=
  { h with
    decoder := fun hdec => by simpa using h.decoder hdec
    render := by simpa [hmajor] using h.render
    toBits := by have := h.toBits; simp_all [bits_iff] }

end HalvesOk

theorem updateStatus_first {s : VideoFbmInfo} {f : Fbm} (hf : s.fbm .pFbmFirst = some f) (i : ℕ)
    (g : BitVec 32 → BitVec 32) :
    s.updateStatus ⟨.pFbmFirst,i⟩ g = s.setFbm .pFbmFirst (f.modifyPicture i (.restatus g)) := by
  simp only [updateStatus,updatePicture,hf]
  rfl

@[simp] theorem setFbm_fbm (s : VideoFbmInfo) (h : FbmHandle) (f : Fbm) :
    (s.setFbm h f).fbm h = some f :=
  update_self ..

attribute [local simp] setFbm

def Frames.InPlace (a : Frames) (n : ℕ) : Prop :=
  a.Orderly a.useGpuBuf (if a.useGpuBuf then n else a.max) fun _ => True

variable {n : ℕ}

theorem Frames.InPlace.modifyStatus {a : Frames} (h : a.InPlace n) (i : ℕ)
    (g : BitVec 32 → BitVec 32) :
    (a.modifyPicture i (.restatus g)).InPlace n :=
  Orderly.modifyStatus h i _ fun _ => ⟨rfl,rfl⟩

theorem Frames.InPlace.of_orderly {a a' : Frames}
    (h : a'.Orderly a.useGpuBuf (if a.useGpuBuf then n else a.max) fun _ => True)
    (hgpu : a'.useGpuBuf = a.useGpuBuf) (hmax : a'.max = a.max) : a'.InPlace n := by
  rw [InPlace,hgpu,hmax]
  exact h

theorem Frames.Moved.trans {a a₁ a₂ : Frames} {i : ℕ} {flag₁ flag₂ : FrameNodeFlag}
    {pic₁ pic₂ : VideoPicture} {place₁ place₂ : Option QueueId}
    (h₁ : Moved a a₁ i flag₁ pic₁ place₁) (h₂ : Moved a₁ a₂ i flag₂ pic₂ place₂) :
    Moved a a₂ i flag₂ pic₂ place₂ where
  max := h₂.max.trans h₁.max
  useGpuBuf := h₂.useGpuBuf.trans h₁.useGpuBuf
  flag := by rw [h₂.flag,h₁.flag,update_idem]
  picture := by rw [h₂.picture,h₁.picture,update_idem]
  mem q j := by
    rw [h₂.mem,h₁.mem]
    split_ifs <;> rfl

namespace TwoStreams
variable {w w' : TwoStreams} {f f' : Fbm} {a a' : Frames} {i : ℕ}

structure Inv (w : TwoStreams) (f : Fbm) (a : Frames) : Prop where
  bIs3DStream : w.info.bIs3DStream = true
  shared : w.info.bTwoStreamShareOneFbm = true
  first : w.info.fbm .pFbmFirst = some f
  second : ∃ g, w.info.fbm .pFbmSecond = some g
  linked : Linked f a
  inPlace : a.InPlace w.session.nValidBufNum
  unreleased : ∀ i, i ∉ a.queue .releaseBuffer
  halves : ∀ i < a.max, HalvesOk i (a.flag i) (a.picture i) (w.halves i)
  lt_max : ∀ h, (∀ i ∈ w.buffers h, i < a.max) ∧ ∀ i ∈ w.pictures h, i < a.max
  decoderFrame : ∀ p ∈ w.info.pMajorDecoderFrame, ∃ i < a.max, p = ⟨.pFbmFirst,i⟩
  dispFrame : ∀ p ∈ w.info.pMajorDispFrame, ∃ i < a.max, p = ⟨.pFbmFirst,i⟩
  answers : ∀ ret ∈ w.answers, ret = 0

abbrev Kept (w : TwoStreams) (call : TwoStreamsCall) : Prop :=
  ∃ w', w.step call = some w' ∧ ∃ f' a', w'.Inv f' a'

structure Changed (w w' : TwoStreams) (f' : Fbm) (i : ℕ) : Prop where
  bIs3DStream : w'.info.bIs3DStream = w.info.bIs3DStream
  shared : w'.info.bTwoStreamShareOneFbm = w.info.bTwoStreamShareOneFbm
  fbm : w'.info.fbm = update w.info.fbm .pFbmFirst (some f')
  halves : ∀ j ≠ i, w'.halves j = w.halves j
  held : ∀ h, w'.buffers h ⊆ insert i (w.buffers h) ∧ w'.pictures h ⊆ insert i (w.pictures h)
  decoderFrame : ∀ p ∈ w'.info.pMajorDecoderFrame,
    p = ⟨.pFbmFirst,i⟩ ∨ p ∈ w.info.pMajorDecoderFrame
  dispFrame : ∀ p ∈ w'.info.pMajorDispFrame, p = ⟨.pFbmFirst,i⟩ ∨ p ∈ w.info.pMajorDispFrame
  answers : ∀ ret ∈ w'.answers, ret = 0 ∨ ret ∈ w.answers

theorem Inv.moved (h : w.Inv f a) (hc : Changed w w' f' i) (hi : i < a.max) {flag : FrameNodeFlag}
    {pic : VideoPicture} {place : Option QueueId} (hm : Moved a a' i flag pic place)
    (hrelease : place ≠ some .releaseBuffer) (hl : Linked f' a')
    (hplace : a'.InPlace w'.session.nValidBufNum)
    (hself : HalvesOk i flag pic (w'.halves i)) : w'.Inv f' a' where
  bIs3DStream := hc.bIs3DStream.trans h.bIs3DStream
  shared := hc.shared.trans h.shared
  first := by rw [hc.fbm,update_self]
  second := by
    rw [hc.fbm,update_of_ne (by decide)]
    exact h.second
  linked := hl
  inPlace := hplace
  unreleased j := by
    rw [hm.mem]
    split_ifs
    · exact hrelease
    · exact h.unreleased j
  halves j hj := by
    by_cases hji : j = i
    · rw [hji,hm.flag_self,hm.picture_self]
      exact hself
    · rw [hm.flag_of_ne hji,hm.picture_of_ne hji,hc.halves j hji]
      exact h.halves j (hm.max ▸ hj)
  lt_max o := by
    rw [hm.max]
    refine ⟨fun j hj => ?_, fun j hj => ?_⟩
    · rcases Finset.mem_insert.mp ((hc.held o).1 hj) with rfl | hold
      · exact hi
      · exact (h.lt_max o).1 j hold
    · rcases Finset.mem_insert.mp ((hc.held o).2 hj) with rfl | hold
      · exact hi
      · exact (h.lt_max o).2 j hold
  decoderFrame p hp := by
    rw [hm.max]
    rcases hc.decoderFrame p hp with rfl | hold
    · exact ⟨i,hi,rfl⟩
    · exact h.decoderFrame p hold
  dispFrame p hp := by
    rw [hm.max]
    rcases hc.dispFrame p hp with rfl | hold
    · exact ⟨i,hi,rfl⟩
    · exact h.dispFrame p hold
  answers ret hret := (hc.answers ret hret).elim id (h.answers ret)

theorem Changed.of_held {buffers pictures : FbmHandle → Finset ℕ} {answers : List ℤ}
    (hb : ∀ o, ∀ j ≠ i, holds buffers o j = holds w.buffers o j)
    (hp : ∀ o, ∀ j ≠ i, holds pictures o j = holds w.pictures o j)
    (ha : ∀ ret ∈ answers, ret = 0 ∨ ret ∈ w.answers) :
    Changed w ⟨{ w.session with info := w.info.setFbm .pFbmFirst f' },buffers,pictures,answers⟩
      f' i := by
  have hsubset {held held' : FbmHandle → Finset ℕ} {o : FbmHandle}
      (h : ∀ j ≠ i, holds held' o j = holds held o j) : held' o ⊆ insert i (held o) := by
    intro j hj
    by_cases hji : j = i
    · simp [hji]
    · exact Finset.mem_insert_of_mem (by simpa [holds,hj] using h j hji)
  refine ⟨rfl,rfl,rfl,fun j hj => ?_, fun o => ⟨hsubset (hb o),hsubset (hp o)⟩,
    fun p hp => .inr hp, fun p hp => .inr hp, ha⟩
  simp only [TwoStreams.halves,hb _ j hj,hp _ j hj]
  rfl

section
variable (h : w.Inv f a) (hi : i < a.max) (g : BitVec 32 → BitVec 32)
include h hi g

theorem Inv.restatus :
    ∃ a₁ place, Linked (f.modifyPicture i (.restatus g)) a₁ ∧ a₁.InPlace w.session.nValidBufNum ∧
      Moved a a₁ i (a.flag i) (.restatus g (a.picture i)) place ∧
      place ≠ some .releaseBuffer := by
  obtain ⟨place,hat,-⟩ := h.inPlace.1.settled i hi
  exact ⟨_,place,h.linked.modifyPicture i _,h.inPlace.modifyStatus i g,
    (Moved.refl hat).modifyPicture _,(hat .releaseBuffer).not.mp (h.unreleased i)⟩

theorem Inv.restated (hc : Changed w w' (f.modifyPicture i (.restatus g)) i)
    (hn : w'.session.nValidBufNum = w.session.nValidBufNum)
    (hself : HalvesOk i (a.flag i) (.restatus g (a.picture i)) (w'.halves i)) :
    ∃ f' a', w'.Inv f' a' := by
  obtain ⟨a₁,place,hl,hplace,hm,hrelease⟩ := h.restatus hi g
  exact ⟨_,a₁,h.moved hc hi hm hrelease hl (hn ▸ hplace) hself⟩

end

attribute [local simp] setInfo

def bufferBack (w : TwoStreams) (o : FbmHandle) (i : ℕ) (f' : Fbm) : TwoStreams :=
  { w.setInfo (w.info.setFbm .pFbmFirst f') with buffers := returns w.buffers o i }

theorem changed_bufferBack (o : FbmHandle) : Changed w (w.bufferBack o i f') f' i :=
  .of_held (fun _ _ hj => holds_returns_of_ne _ hj) (fun _ _ _ => rfl) fun _ => .inr

def pictureBack (w : TwoStreams) (o : FbmHandle) (i : ℕ) (f' : Fbm) : TwoStreams :=
  { w.setInfo (w.info.setFbm .pFbmFirst f') with
    pictures := returns w.pictures o i
    answers := 0 :: w.answers }

theorem changed_pictureBack (o : FbmHandle) : Changed w (w.pictureBack o i f') f' i :=
  .of_held (fun _ _ _ => rfl) (fun _ _ hj => holds_returns_of_ne _ hj) fun _ => List.mem_cons.mp

theorem Inv.relinked (h : w.Inv f a) (hl : Linked f' a) :
    (w.setInfo (w.info.setFbm .pFbmFirst f')).Inv f' a :=
  { h with
    first := by simp [info]
    second := by simpa [info] using h.second
    linked := hl }

theorem Inv.minorRequestBuffer (h : w.Inv f a) : w.Kept (.requestBuffer .pFbmSecond) := by
  obtain ⟨g,hg⟩ := h.second
  have hminor : w.info.isMinor .pFbmSecond = true := by simp [isMinor,h.shared]
  cases hp : w.info.pMajorDecoderFrame with
  | none =>
    refine ⟨w,?_,f,a,h⟩
    simp only [step,fbmRequestBuffer,hg,hminor,hp,if_true,map_some]
    rfl
  | some p =>
    obtain ⟨i,hi,rfl⟩ := h.decoderFrame p hp
    refine ⟨{ w.setInfo (w.info.updateStatus ⟨.pFbmFirst,i⟩ fun st =>
        (st ||| minorDecoderUseFlag) &&& ~~~minorNeedUseFlag) with
      buffers := obtains w.buffers .pFbmSecond (some ⟨.pFbmFirst,i⟩) },?_,?_⟩
    · simp [step,fbmRequestBuffer,hg,hminor,hp]
    · rw [updateStatus_first h.first]
      have hself := (h.halves i hi).minorRequest
      exact h.restated hi (fun st => (st ||| minorDecoderUseFlag) &&& ~~~minorNeedUseFlag)
        (.of_held (fun _ _ hj => holds_obtains_of_ne _ hj) (fun _ _ _ => rfl) fun _ => .inr) rfl
        (by simpa [TwoStreams.halves,info] using hself)

theorem Inv.passed (h : w.Inv f a) (hg : w.InTurn (.requestBuffer .pFbmFirst)) :
    (w.setInfo { w.info with pMajorDecoderFrame := none }).Inv f a :=
  { h with
    halves := fun i hi => by
      have hself := h.halves i hi
      refine hself.passed fun hdec hcurrent hneed => ?_
      have hframe : w.info.pMajorDecoderFrame = some ⟨.pFbmFirst,i⟩ := by
        simpa [TwoStreams.halves] using hcurrent
      rw [← h.linked.picture,← minor_need_ne_zero] at hneed
      rw [← h.linked.flag] at hdec
      simpa [TwoStreams.halves,holds] using hg f h.first _ hframe ⟨hframe,hneed⟩ hdec
    decoderFrame := by simp [info] }

theorem Inv.offered
    (h : (w.setInfo { w.info with pMajorDecoderFrame := none }).Inv f a) (hi : i < a.max) :
    (w.setInfo { w.info with pMajorDecoderFrame := some ⟨.pFbmFirst,i⟩ }).Inv f a :=
  { h with
    halves := fun j hj =>
      { h.halves j hj with
        decoder := fun hdec => ((h.halves j hj).decoder hdec).imp_right fun hrest =>
          .inl (hrest.resolve_right fun h => by simp [TwoStreams.halves,info] at h) }
    decoderFrame := by simpa [info] using hi }

theorem Inv.majorRequestBuffer (h : w.Inv f a) (hg : w.InTurn (.requestBuffer .pFbmFirst)) :
    w.Kept (.requestBuffer .pFbmFirst) := by
  have h₀ := h.passed hg
  have hminor : w.info.isMinor .pFbmFirst = false := by simp [isMinor]
  obtain ⟨f',hf',hl'⟩ := h.linked.requestBuffer
  have horder := Orderly.requestBuffer h.inPlace h.linked
  rcases requestBuffer_moved h.linked h.inPlace.1.settled with
    hsame | ⟨i,hi,-,huntouched,hsome,hm,-⟩
  · rw [hsame] at hf' hl'
    refine ⟨_,?_,f',a,h₀.relinked hl'⟩
    simp only [step,fbmRequestBuffer,h.first,hminor,hf']
    rfl
  · rw [hsome] at hf'
    have hself := (h.halves i hi).majorRequest huntouched
    refine ⟨{ w.setInfo ({ w.info with pMajorDecoderFrame := some ⟨.pFbmFirst,i⟩ }.setFbm
        .pFbmFirst (f'.modifyStatus i fun st => st ||| majorDecoderUseFlag ||| minorNeedUseFlag))
      with buffers := obtains w.buffers .pFbmFirst (some ⟨.pFbmFirst,i⟩) },?_,_,_,
      (h₀.offered hi).moved (.of_held (fun _ _ hj => holds_obtains_of_ne _ hj) (fun _ _ _ => rfl)
        fun _ => .inr) hi (hm.1.modifyPicture (.restatus _)) (by simp) (hl'.modifyPicture i _)
        ((InPlace.of_orderly horder hm.1.useGpuBuf hm.1.max).modifyStatus i _)
        (by simpa [TwoStreams.halves,info] using hself)⟩
    simp [step,fbmRequestBuffer,h.first,hminor,hf',h.shared]

theorem Inv.picture (h : w.Inv f a) (hi : i < a.max) :
    w.info.picture ⟨.pFbmFirst,i⟩ = some (a.picture i) := by
  simp [VideoFbmInfo.picture,h.first,h.linked.max,hi,h.linked.picture]

theorem checkedIndex_self {h : FbmHandle} (hi : i < f.nMaxFrameNum) :
    checkedIndex f h ⟨h,i⟩ i = some i := by
  rw [checkedIndex,if_neg (by omega),Int.toNat_natCast,if_pos rfl]

section
variable (h : w.Inv f a)
include h

theorem Inv.takeBack (hi : i < a.max) (g : BitVec 32 → BitVec 32) (bValidPicture : Bool) :
    ∃ f' a' flag place,
      returnBufferLocked (f.modifyPicture i (.restatus g)) i bValidPicture = some f' ∧
      Linked f' a' ∧ Moved a a' i flag (.restatus g (a.picture i)) place ∧
      place ≠ some .releaseBuffer ∧ a'.InPlace w.session.nValidBufNum ∧
      flag.bUsedByDecoder = false ∧
      flag.bUsedByRender = (a.flag i).bUsedByRender ∧
      (flag.bAlreadyDisplayed = false ∧ flag.bNeedRelease = false) := by
  have hv := h.halves i hi
  obtain ⟨a₁,place,hl,horder,hm,hplace⟩ := h.restatus hi g
  have hi₁ : i < a₁.max := hm.max ▸ hi
  have hneed : (a₁.flag i).bNeedRelease = false := by rw [hm.flag_self]; exact hv.needRelease
  obtain ⟨f',hf',hl'⟩ := hl.returnBuffer hi₁ (fun hdec _ => by
    refine horder.1.settled.free hi₁ (by simp [touched,hdec]) ?_
    rw [hm.flag_self] at hdec ⊢
    exact (hv.apart hdec).2) bValidPicture
  have hplaced := Orderly.returnBuffer horder hi₁
    (fun _ h => absurd h (by simp [hneed])) bValidPicture
  rcases returnBuffer_moved horder.1.settled hi₁ (by simp [hneed]) bValidPicture with
    ⟨hdec,hsame⟩ | ⟨-,flag,place',hm',hdec,hrender,hrelease,hmarked⟩
  · rw [hsame] at hl'
    rw [hm.flag_self] at hdec
    exact ⟨f',a₁,a.flag i,place,hf',hl',hm,hplace,horder,hdec,rfl,hv.displayed,hv.needRelease⟩
  · rw [hm.picture_self] at hm'
    rw [hm.flag_self] at hrender hrelease
    have hplace' : place' ≠ some .releaseBuffer :=
      (hmarked.resolve_left fun hyes => by simp [hneed] at hyes).2.1
    refine ⟨f',_,flag,place',hf',hl',hm.trans hm'.1,hplace',
      .of_orderly hplaced hm'.1.useGpuBuf hm'.1.max,hdec,hrender,?_,hrelease.trans hv.needRelease⟩
    cases hd : flag.bAlreadyDisplayed with
    | false => rfl
    | true => exact absurd ((hm'.2.displayed hd).1.symm.trans hdec) (by simp)

theorem Inv.takePictureBack (hi : i < a.max)
    (hrender : (a.flag i).bUsedByRender = true) (g : BitVec 32 → BitVec 32) :
    ∃ f' a' flag place, returnPictureLocked (f.modifyPicture i (.restatus g)) i = some (f', 0) ∧
      Linked f' a' ∧ Moved a a' i flag (.restatus g (a.picture i)) place ∧
      place ≠ some .releaseBuffer ∧ a'.InPlace w.session.nValidBufNum ∧
      flag.bUsedByRender = false ∧
      flag.bUsedByDecoder = (a.flag i).bUsedByDecoder ∧
      (flag.bAlreadyDisplayed = false ∧ flag.bNeedRelease = false) := by
  have hv := h.halves i hi
  obtain ⟨a₁,place,hl,horder,hm,hplace⟩ := h.restatus hi g
  have hi₁ : i < a₁.max := hm.max ▸ hi
  obtain ⟨f',hf',hl'⟩ := hl.returnPicture hi₁ fun hr _ hvalid =>
    horder.1.settled.free hi₁ (by simp [touched,hr]) hvalid
  have hplaced := Orderly.returnPicture horder hi₁
  rcases returnPicture_moved horder.1.settled hi₁ with
    ⟨hnot,-⟩ | ⟨-,hret,flag,place',hm',hr,hdec,-,hrelease,hmarked,-⟩
  · rw [hm.flag_self] at hnot
    exact absurd (hnot.symm.trans hrender) (by simp)
  · rw [hm.picture_self] at hm'
    rw [hm.flag_self] at hdec hrelease hmarked
    rw [hret] at hf'
    refine ⟨f',_,flag,place',hf',hl',hm.trans hm'.1,by simp [hmarked,hv.needRelease],
      .of_orderly hplaced hm'.1.useGpuBuf hm'.1.max,hr,hdec,?_,hrelease.trans hv.needRelease⟩
    -- the decoders do not have what the render has
    cases hd : flag.bAlreadyDisplayed with
    | false => rfl
    | true =>
      have hd' := hdec.symm.trans (hm'.2.displayed hd).1
      exact absurd ((hv.apart hd').1.symm.trans hrender) (by simp)

variable {bValidPicture : Bool}

theorem Inv.majorReturnBuffer (hg : w.InTurn (.returnBuffer .pFbmFirst i bValidPicture)) :
    w.Kept (.returnBuffer .pFbmFirst i bValidPicture) := by
  obtain ⟨hheld,hneeded⟩ := hg
  have hi := (h.lt_max _).1 i hheld
  have hv := h.halves i hi
  have hflags : (a.flag i).bAlreadyDisplayed = false ∧ (a.flag i).bNeedRelease = false :=
    ⟨hv.displayed,hv.needRelease⟩
  have hself {f' : Fbm} : (w.bufferBack .pFbmFirst i f').halves i =
      { w.halves i with majorBuffer := false } := by
    simp [bufferBack,TwoStreams.halves,info]
  -- the minor decoder has the frame, or is to get it
  have hkept (hwhy : (w.halves i).minorBuffer = true ∨
      (w.halves i).current = true ∧ (a.picture i).nBufStatus.getLsbD 4 = true) :=
    h.restated hi (fun st => st &&& ~~~majorDecoderUseFlag) (changed_bufferBack _) rfl
      (hself ▸ hv.majorReturn rfl hflags fun _ => ⟨rfl,hwhy⟩)
  simp only [Kept,step,fbmReturnBuffer,h.first,h.picture hi,bind_some,returnBufferStream,
    h.shared,if_true,updateStatus_first h.first]
  by_cases hminor : (a.picture i).nBufStatus &&& minorDecoderUseFlag ≠ 0
  · rw [if_pos hminor]
    rw [minor_decoder_ne_zero,hv.minorBuffer] at hminor
    exact ⟨_,rfl,hkept (.inl hminor)⟩
  rw [if_neg hminor]
  by_cases hneed : bValidPicture = true ∧ (a.picture i).nBufStatus &&& minorNeedUseFlag ≠ 0
  · rw [if_pos hneed]
    refine ⟨_,rfl,hkept (.inr ?_)⟩
    have hoffered : w.Offered f i := by
      rw [← h.linked.picture] at hneed
      refine (hneeded f h.first hneed.1 hneed.2).resolve_left fun hmem => ?_
      rw [minor_decoder_ne_zero,hv.minorBuffer] at hminor
      exact hminor (by simpa [TwoStreams.halves,holds] using hmem)
    exact ⟨by simpa [TwoStreams.halves] using hoffered.1,(minor_need_ne_zero _).mp hneed.2⟩
  · rw [if_neg hneed]
    obtain ⟨f',a',flag,place,hf',hl',hm,hrelease,hplace,hdec,hrender,hrest⟩ :=
      h.takeBack hi (fun st => st &&& ~~~majorDecoderUseFlag) bValidPicture
    refine ⟨w.bufferBack .pFbmFirst i f',?_,f',a',h.moved (changed_bufferBack _) hi hm hrelease hl'
      hplace (hself ▸ hv.majorReturn hrender hrest fun hd => absurd (hdec.symm.trans hd) (by simp))⟩
    simp only [setFbm_fbm,bind_some,hv.nID]
    rw [checkedIndex_self (h.linked.max.symm ▸ hi)]
    simp [hf',bufferBack]

theorem Inv.minorReturnBuffer (hg : w.InTurn (.returnBuffer .pFbmSecond i bValidPicture)) :
    w.Kept (.returnBuffer .pFbmSecond i bValidPicture) := by
  obtain ⟨g,hsecond⟩ := h.second
  have hi := (h.lt_max _).1 i hg
  have hv := h.halves i hi
  have hself {f' : Fbm} : (w.bufferBack .pFbmSecond i f').halves i =
      { w.halves i with minorBuffer := false } := by
    simp [bufferBack,TwoStreams.halves,info]
  simp only [Kept,step,fbmReturnBuffer,hsecond,h.picture hi,bind_some,returnBufferStream,
    h.shared,if_true,updateStatus_first h.first]
  by_cases hmajor : (a.picture i).nBufStatus &&& majorDecoderUseFlag ≠ 0
  · rw [if_pos hmajor]
    rw [major_decoder_ne_zero,hv.majorBuffer] at hmajor
    exact ⟨_,rfl,h.restated hi (fun st => st &&& ~~~minorDecoderUseFlag) (changed_bufferBack _) rfl
      (hself ▸ hv.minorReturn rfl ⟨hv.displayed,hv.needRelease⟩ (fun _ => rfl)
        ((hv.major hmajor).trans hmajor.symm))⟩
  · rw [if_neg hmajor]
    rw [major_decoder_ne_zero,hv.majorBuffer] at hmajor
    obtain ⟨f',a',flag,place,hf',hl',hm,hrelease,hplace,hdec,hrender,hrest⟩ :=
      h.takeBack hi (fun st => st &&& ~~~minorDecoderUseFlag) bValidPicture
    refine ⟨w.bufferBack .pFbmSecond i f',?_,f',a',h.moved (changed_bufferBack _) hi hm hrelease hl'
      hplace (hself ▸ hv.minorReturn hrender hrest
        (fun hd => absurd (hdec.symm.trans hd) (by simp)) (hdec.trans (by simpa using hmajor)))⟩
    simp only [setFbm_fbm,bind_some,hv.nID]
    rw [checkedIndex_self (h.linked.max.symm ▸ hi)]
    simp [hf',bufferBack]

theorem Inv.majorRequestPicture : w.Kept (.requestPicture .pFbmFirst) := by
  have hminor : w.info.isMinor .pFbmFirst = false := by simp [isMinor]
  obtain ⟨f',hf',hl'⟩ := h.linked.requestPicture
  have horder := Orderly.requestPicture h.inPlace h.linked
  rcases requestPicture_moved h.linked h.inPlace.1.settled with
    hsame | ⟨i,hi,hvalid,-,hsome,hm,-⟩
  · rw [hsame] at hf' hl'
    have h₀ : (w.setInfo { w.info with pMajorDispFrame := none }).Inv f a :=
      { h with dispFrame := by simp [info] }
    refine ⟨_,?_,f',a,h₀.relinked hl'⟩
    simp only [step,fbmRequestPicture,h.first,hminor,hf']
    rfl
  · rw [hsome] at hf'
    have h₀ : (w.setInfo { w.info with pMajorDispFrame := some ⟨.pFbmFirst,i⟩ }).Inv f a :=
      { h with dispFrame := by simpa [info] using hi }
    have hself := (h.halves i hi).majorShows hvalid
    refine ⟨{ w.setInfo ({ w.info with pMajorDispFrame := some ⟨.pFbmFirst,i⟩ }.setFbm
        .pFbmFirst f') with pictures := obtains w.pictures .pFbmFirst (some ⟨.pFbmFirst,i⟩) },
      ?_,_,_,h₀.moved (.of_held (fun _ _ _ => rfl) (fun _ _ hj => holds_obtains_of_ne _ hj)
        fun _ => .inr) hi hm.1 (by simp) hl'
        (InPlace.of_orderly horder hm.1.useGpuBuf hm.1.max)
        (by simpa [TwoStreams.halves,info] using! hself)⟩
    simp [step,fbmRequestPicture,h.first,hminor,hf']

theorem Inv.minorRequestPicture (hg : w.InTurn (.requestPicture .pFbmSecond)) :
    w.Kept (.requestPicture .pFbmSecond) := by
  obtain ⟨g,hsecond⟩ := h.second
  have hminor : w.info.isMinor .pFbmSecond = true := by simp [isMinor,h.shared]
  obtain ⟨p,hp,hshown⟩ := hg
  obtain ⟨i,hi,rfl⟩ := h.dispFrame p hp
  refine ⟨{ w.setInfo (w.info.updateStatus ⟨.pFbmFirst,i⟩ (· ||| minorDispUseFlag)) with
    pictures := obtains w.pictures .pFbmSecond (some ⟨.pFbmFirst,i⟩) },?_,?_⟩
  · rw [mem_def] at hp
    simp [step,fbmRequestPicture,hsecond,hminor,hp]
  · rw [updateStatus_first h.first]
    have hself := (h.halves i hi).minorShows (by simpa [TwoStreams.halves,holds] using hshown)
    exact h.restated hi (· ||| minorDispUseFlag)
      (.of_held (fun _ _ _ => rfl) (fun _ _ hj => holds_obtains_of_ne _ hj) fun _ => .inr) rfl
      (by simpa [TwoStreams.halves,info] using hself)

theorem Inv.minorReturnPicture (hg : w.InTurn (.returnPicture .pFbmSecond i)) :
    w.Kept (.returnPicture .pFbmSecond i) := by
  obtain ⟨g,hsecond⟩ := h.second
  obtain ⟨hheld,hshown⟩ := hg
  have hi := (h.lt_max _).2 i hheld
  have hv := h.halves i hi
  have hmajor : (w.halves i).majorPicture = true := by
    simpa [TwoStreams.halves,holds] using hshown
  have hstatus : (a.picture i).nBufStatus &&& majorDispUseFlag ≠ 0 :=
    (major_disp_ne_zero _).mpr (hv.majorPicture.trans hmajor)
  refine ⟨w.pictureBack .pFbmSecond i _,?_,h.restated hi (· &&& ~~~minorDispUseFlag)
    (changed_pictureBack _) rfl
    (by simpa [pictureBack,TwoStreams.halves,info] using hv.minorHides hmajor)⟩
  simp only [step,fbmReturnPicture,hsecond,h.picture hi,bind_some,updateStatus_first h.first,
    returnPictureStream,h.shared,if_true,decide_eq_false hstatus,map_some,pictureBack]

theorem Inv.majorReturnPicture (hg : w.InTurn (.returnPicture .pFbmFirst i)) :
    w.Kept (.returnPicture .pFbmFirst i) := by
  have hi := (h.lt_max _).2 i hg
  have hv := h.halves i hi
  have hmem : i ∈ w.pictures .pFbmFirst := hg
  have hmajor : (w.halves i).majorPicture = true := by simpa [TwoStreams.halves,holds] using hmem
  have hrender : (a.flag i).bUsedByRender = true := by simp [hv.render,hmajor]
  have hself {f' : Fbm} : (w.pictureBack .pFbmFirst i f').halves i =
      { w.halves i with majorPicture := false } := by
    simp [pictureBack,TwoStreams.halves,info]
  simp only [Kept,step,fbmReturnPicture,h.first,h.picture hi,bind_some,returnPictureStream,
    h.shared,if_true,updateStatus_first h.first]
  by_cases hminor : (a.picture i).nBufStatus &&& minorDispUseFlag = 0
  · rw [decide_eq_true hminor]
    have hnot : (w.halves i).minorPicture = false := by
      rw [← hv.minorPicture,← Bool.not_eq_true,← minor_disp_ne_zero]
      exact not_not.mpr hminor
    obtain ⟨f',a',flag,place,hf',hl',hm,hrelease,hplace,hr,hdec,hrest⟩ :=
      h.takePictureBack hi hrender (· &&& ~~~majorDispUseFlag)
    refine ⟨w.pictureBack .pFbmFirst i f',?_,f',a',
        h.moved (changed_pictureBack _) hi hm hrelease hl' hplace
          (hself ▸ hv.majorHides hdec hrest (hr.trans hnot.symm) hmajor)⟩
    have hlt : i < f.nMaxFrameNum := h.linked.max.symm ▸ hi
    simp only [setFbm_fbm,bind_some,hv.nID]
    rw [if_neg,checkedIndex_self (by exact hlt)]
    · simp [hf',pictureBack]
    · rintro ⟨hle,-⟩
      exact absurd (Int.ofNat_le.mp hle) (Nat.not_le.mpr hlt)
  · rw [decide_eq_false hminor]
    have hshown : (w.halves i).minorPicture = true :=
      hv.minorPicture.symm.trans ((minor_disp_ne_zero _).mp hminor)
    exact ⟨_,rfl,h.restated hi (· &&& ~~~majorDispUseFlag) (changed_pictureBack _) rfl
      (hself ▸ hv.majorHides rfl ⟨hv.displayed,hv.needRelease⟩ (hrender.trans hshown.symm) hmajor)⟩

theorem Inv.setFbmBufAddress {nBufId : ℤ} (hg : w.InTurn (.setFbmBufAddress nBufId)) :
    w.Kept (.setFbmBufAddress nBufId) := by
  obtain ⟨hgpu,hlt⟩ := hg f h.first
  rw [h.linked.useGpuBuf] at hgpu
  have hi : w.session.nValidBufNum < a.max := h.linked.max ▸ hlt
  have horder : a.Orderly true w.session.nValidBufNum fun _ => True := by
    simpa [InPlace,hgpu] using h.inPlace
  obtain ⟨hfree,huntouched,-⟩ := horder.1.unbound.frames _ (Nat.le_refl _) hi
  obtain ⟨hm,-⟩ := bind_moved hfree huntouched nBufId false
  obtain ⟨f',hf',hl'⟩ := h.linked.bind hi nBufId false fun _ => hfree
  have hdisp : w.session.info.dispHandle = .pFbmFirst := by
    simp [dispHandle,show w.session.info.bIs3DStream = true from h.bIs3DStream]
  have hfirst : w.session.info.fbm .pFbmFirst = some f := h.first
  refine ⟨{ w with session := ⟨w.info.setFbm .pFbmFirst f',w.session.nValidBufNum+1⟩ },?_,f',
    _,h.moved ⟨rfl,rfl,rfl,fun j hj => rfl, fun o => ⟨Finset.subset_insert _ _,
        Finset.subset_insert _ _⟩,fun p hp => .inr hp, fun p hp => .inr hp,
        fun ret hret => .inr hret⟩ hi hm.1 (by simp) hl' ?_ ?_⟩
  · simp [step,FbmSession.step,fbmSetFbmBufAddress,hdisp,hfirst,hf',hlt,info]
  · have hbound : (a.bind _ nBufId false).Orderly true _ fun _ => True :=
      horder.bind hi trivial false
    rw [InPlace,hm.1.useGpuBuf,hgpu]
    exact hbound
  · exact { h.halves _ hi with nID := rfl }

theorem Inv.step {call : TwoStreamsCall} (hg : w.InTurn call) : w.Kept call := by
  cases call with
  | setFbmBufAddress nBufId => exact h.setFbmBufAddress hg
  | requestBuffer o =>
    cases o with
    | pFbmFirst => exact h.majorRequestBuffer hg
    | pFbmSecond => exact h.minorRequestBuffer
  | returnBuffer o i bValidPicture =>
    cases o with
    | pFbmFirst => exact h.majorReturnBuffer hg
    | pFbmSecond => exact h.minorReturnBuffer hg
  | requestPicture o =>
    cases o with
    | pFbmFirst => exact h.majorRequestPicture
    | pFbmSecond => exact h.minorRequestPicture hg
  | returnPicture o i =>
    cases o with
    | pFbmFirst => exact h.majorReturnPicture hg
    | pFbmSecond => exact h.minorReturnPicture hg

theorem Inv.recycles : w.Recycles where
  empty f₁ hf₁ i hi hfree := by
    obtain rfl : f = f₁ := some_inj.mp (h.first.symm.trans hf₁)
    have hwalk : walkList f.next f.nMaxFrameNum f.pEmptyBufferQueue = a.queue .emptyBuffer :=
      walkList_eq (h.linked.queues.chain .emptyBuffer)
        (Nat.le_of_lt_succ (h.linked.length_lt .emptyBuffer))
    rw [hwalk]
    rw [bound,h.linked.useGpuBuf,h.linked.max] at hi
    have hmax : i < a.max := Nat.lt_of_lt_of_le hi h.inPlace.1.unbound.le
    have hv := h.halves i hmax
    rw [Wanted,h.linked.flag] at hfree
    push Not at hfree
    obtain ⟨hmajor,hminor,hoffered,hvalid,hshown,hshown'⟩ := hfree
    have hrender : (a.flag i).bUsedByRender = false := by
      simp [hv.render,TwoStreams.halves,holds,hshown,hshown']
    have hdec : (a.flag i).bUsedByDecoder = false := by
      by_contra hd
      rw [Bool.not_eq_false] at hd
      rcases hv.decoder hd with hm | hm | ⟨hcurrent,hneed⟩
      · exact hmajor (by simpa [TwoStreams.halves,holds] using hm)
      · exact hminor (by simpa [TwoStreams.halves,holds] using hm)
      · rw [← h.linked.picture] at hneed
        exact hoffered ⟨by simpa [TwoStreams.halves] using hcurrent,
          (minor_need_ne_zero _).mpr hneed⟩
    obtain ⟨place,hat,hok⟩ := h.inPlace.1.settled i hmax
    have hfree : ¬a.Free i := fun hf => by
      have hpresent := h.inPlace.1.present i hi hf
      simp [touched,hdec,hrender,hvalid,hv.displayed,hv.nID] at hpresent
    rcases place with _ | (_ | _ | _)
    · exact absurd (at_none.mp hat) hfree
    · exact (hat .emptyBuffer).mpr rfl
    · exact absurd (hok.valid.mpr rfl) hvalid
    · exact absurd ((hat .releaseBuffer).mpr rfl) (h.unreleased i)
  answers := h.answers

end

theorem Inv.created {ci : FbmCreateInfo} {mem : CreateMemory} (hf : fbmCreateBuffer ci mem = some f)
    (hsmall : (ci.nFrameNum : ℤ) ≤ frmReleaseTag) (g : Fbm) :
    (TwoStreams.created f g).Inv f (Frames.created ci) where
  bIs3DStream := rfl
  shared := rfl
  first := rfl
  second := ⟨g,rfl⟩
  linked := fbmCreateBuffer_linked hf
  inPlace := Frames.created_orderly ci hsmall _
  unreleased i := by simp [Frames.created]
  halves i hi := by
    constructor <;>
      simp [Frames.created,newFrameNode,TwoStreams.halves,TwoStreams.created,holds,info,bits_iff]
  lt_max h := by simp [TwoStreams.created]
  decoderFrame p hp := by cases hp
  dispFrame p hp := by cases hp
  answers ret hret := by cases hret

end TwoStreams

/-- A manager is created for two streams that share it; `g` is the second manager. In every run of
calls that are made in turn, no call goes wrong, and in the state reached every frame with a buffer
that nobody wants is in the empty queue and every return of a picture has succeeded. -/
theorem two_streams_recycle_frames (ci : FbmCreateInfo) (mem : CreateMemory) (f g : Fbm)
    (hf : fbmCreateBuffer ci mem = some f) (hsmall : (ci.nFrameNum : ℤ) ≤ frmReleaseTag)
    (calls : List TwoStreamsCall)
    (hturn : Guarded TwoStreams.step TwoStreams.InTurn (.created f g) calls) :
    ∃ w, runSteps TwoStreams.step (.created f g) calls = some w ∧ w.Recycles := by
  obtain ⟨w,hw,f',a,hinv⟩ := runSteps_invariant (fun w => ∃ f a, TwoStreams.Inv w f a)
    (fun _ _ ⟨_,_,hi⟩ ha => hi.step ha) calls _ ⟨f,_,.created hf hsmall g⟩ hturn
  exact ⟨w,hw,hinv.recycles⟩

def oneFrame : Fbm :=
  (fbmCreateBuffer ⟨1,false,true,.referenceDisp⟩ ⟨true,true,fun _ => true⟩).get rfl

def oneFrameShown : List TwoStreamsCall :=
  [.setFbmBufAddress 7,.requestBuffer .pFbmFirst,.requestBuffer .pFbmSecond,
    .returnBuffer .pFbmFirst 0 true,.returnBuffer .pFbmSecond 0 true,
    .requestPicture .pFbmFirst,.requestPicture .pFbmSecond]

/-- The minor stream returns its picture first. -/
theorem two_streams_recycle_one_frame : ∃ w, runSteps TwoStreams.step (.created oneFrame oneFrame)
        (oneFrameShown ++ [.returnPicture .pFbmSecond 0,.returnPicture .pFbmFirst 0]) = some w ∧
      w.Recycles :=
  two_streams_recycle_frames ⟨1,false,true,.referenceDisp⟩ ⟨true,true,fun _ => true⟩ oneFrame
    oneFrame rfl (by decide) _ (by decide +kernel)

/-- If the major stream returns the picture first, the second manager refuses it from the minor
stream, and the frame is lost. -/
theorem picture_lost_if_major_returns_first :
    ∃ w f, runSteps TwoStreams.step (.created oneFrame oneFrame)
        (oneFrameShown ++ [.returnPicture .pFbmFirst 0,.returnPicture .pFbmSecond 0]) = some w ∧
      w.info.fbm .pFbmFirst = some f ∧ w.answers = [-1,0] ∧ ¬w.Wanted f 0 ∧
      f.pEmptyBufferQueue = none ∧ ¬w.Recycles := by
  refine ⟨_,_,rfl,rfl,by decide +kernel,by decide +kernel,by decide +kernel,fun h => ?_⟩
  exact absurd (h.answers (-1) (by decide +kernel)) (by decide)

end TinaPackage.FrameBuffer
