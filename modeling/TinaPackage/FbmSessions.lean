import TinaPackage.FbmOrder
import TinaPackage.Runs

/-! Runs of all calls of the frame buffer managers: those of the decoders, of the render and of
the display. -/
namespace TinaPackage.FrameBuffer
open Function Option VideoFbmInfo

structure FbmSession where
  info : VideoFbmInfo
  nValidBufNum : ℕ

inductive FbmCall
  | requestBuffer (h : FbmHandle)
  | returnBuffer (h : FbmHandle) (pVPicture : Option PictureRef) (bValidPicture : Bool)
  | shareBuffer (h : FbmHandle) (pVPicture : Option PictureRef)
  | requestPicture (h : FbmHandle)
  | returnPicture (h : FbmHandle) (pVPicture : Option PictureRef)
  | flush (h : FbmHandle)
  | setFbmBufAddress (nBufId : ℤ) (bForbidUseFlag : Bool)
  | setNewDispRelease
  | requestReleasePicture
  | returnReleasePicture (nBufId : ℤ) (bForbidUseFlag : Bool)

def FbmSession.step (s : FbmSession) : FbmCall → Option FbmSession
  | .requestBuffer h => (fbmRequestBuffer s.info h).map fun (info, _) => { s with info }
  | .returnBuffer h p bValidPicture =>
    (fbmReturnBuffer s.info h p bValidPicture).map fun info => { s with info }
  | .shareBuffer h p => (fbmShareBuffer s.info h p).map fun info => { s with info }
  | .requestPicture h => (fbmRequestPicture s.info h).map fun (info, _) => { s with info }
  | .returnPicture h p => (fbmReturnPicture s.info h p).map fun (info, _) => { s with info }
  | .flush h => (fbmFlush s.info h).map fun info => { s with info }
  | .setFbmBufAddress nBufId bForbidUseFlag =>
    (fbmSetFbmBufAddress s.info s.nValidBufNum nBufId bForbidUseFlag).map fun (info, n) =>
      ⟨info,n⟩
  | .setNewDispRelease => (fbmSetNewDispRelease s.info).map fun info => { s with info }
  | .requestReleasePicture => some { s with info := (fbmRequestReleasePicture s.info).1 }
  | .returnReleasePicture nBufId bForbidUseFlag =>
    (fbmReturnReleasePicture s.info nBufId bForbidUseFlag).map fun (info, _) => { s with info }

def Managed (P : FbmHandle → Frames → Prop) (s : VideoFbmInfo) : Prop :=
  ∀ h f, s.fbm h = some f → ∃ a, Linked f a ∧ P h a

structure SameManagers (s s' : VideoFbmInfo) : Prop where
  bIs3DStream : s'.bIs3DStream = s.bIs3DStream
  bTwoStreamShareOneFbm : s'.bTwoStreamShareOneFbm = s.bTwoStreamShareOneFbm
  isSome : ∀ h, (s'.fbm h).isSome = (s.fbm h).isSome

namespace SameManagers

theorem refl (s : VideoFbmInfo) : SameManagers s s := ⟨rfl,rfl,fun _ => rfl⟩

theorem trans {s s' s'' : VideoFbmInfo} (h : SameManagers s s') (h' : SameManagers s' s'') :
    SameManagers s s'' :=
  ⟨h'.bIs3DStream.trans h.bIs3DStream,h'.bTwoStreamShareOneFbm.trans h.bTwoStreamShareOneFbm,
    fun i => (h'.isSome i).trans (h.isSome i)⟩

theorem dispHandle {s s' : VideoFbmInfo} (h : SameManagers s s') :
    s'.dispHandle = s.dispHandle := by
  have hnone : (s'.fbm .pFbmSecond).isNone = (s.fbm .pFbmSecond).isNone := by
    rw [← not_isSome,← not_isSome,h.isSome]
  rw [VideoFbmInfo.dispHandle,VideoFbmInfo.dispHandle,h.bIs3DStream,hnone]

end SameManagers

def Keeps (P : FbmHandle → Frames → Prop) (s s' : VideoFbmInfo) : Prop :=
  Managed P s' ∧ SameManagers s s'

namespace Keeps
variable {P : FbmHandle → Frames → Prop} {s s' s'' : VideoFbmInfo}

theorem refl (hm : Managed P s) : Keeps P s s := ⟨hm,.refl s⟩

theorem trans (h : Keeps P s s') (h' : Keeps P s' s'') : Keeps P s s'' := ⟨h'.1,h.2.trans h'.2⟩

variable {h : FbmHandle} {f f' : Fbm} {a : Frames}

theorem of_others (hf : s.fbm h = some f)
    (hothers : ∀ o g, o ≠ h → s.fbm o = some g → ∃ a, Linked g a ∧ P o a) (hl : Linked f' a)
    (hp : P h a) (h3 : s'.bIs3DStream = s.bIs3DStream)
    (htwo : s'.bTwoStreamShareOneFbm = s.bTwoStreamShareOneFbm)
    (hfbm : s'.fbm = update s.fbm h (some f')) : Keeps P s s' := by
  refine ⟨fun o g hg => ?_, h3,htwo,fun o => ?_⟩
  · rw [hfbm] at hg
    by_cases ho : o = h
    · subst ho
      rw [update_self,some.injEq] at hg
      exact ⟨a,hg ▸ hl,hp⟩
    · rw [update_of_ne ho] at hg
      exact hothers o g ho hg
  · rw [hfbm]
    by_cases ho : o = h
    · subst ho
      simp [hf]
    · simp [ho]

theorem replace (hm : Managed P s) (hf : s.fbm h = some f) (hl : Linked f' a) (hp : P h a)
    (h3 : s'.bIs3DStream = s.bIs3DStream)
    (htwo : s'.bTwoStreamShareOneFbm = s.bTwoStreamShareOneFbm)
    (hfbm : s'.fbm = update s.fbm h (some f')) : Keeps P s s' :=
  of_others hf (fun o g _ => hm o g) hl hp h3 htwo hfbm

theorem updatePicture (hm : Managed P s) (p : PictureRef) (g : VideoPicture → VideoPicture)
    (hP : ∀ h a i, P h a → P h (a.modifyPicture i g)) : Keeps P s (s.updatePicture p g) := by
  unfold VideoFbmInfo.updatePicture
  cases hf : s.fbm p.owner with
  | none => exact .refl hm
  | some f =>
    obtain ⟨a,hl,hp⟩ := hm _ f hf
    exact .replace hm hf (hl.modifyPicture p.index g) (hP _ a p.index hp) rfl rfl rfl

end Keeps

def Restated (s s' : VideoFbmInfo) (p : PictureRef) : Prop :=
  s' = s ∨ ∃ g, s' = s.updateStatus p g

namespace Restated
variable {s s' : VideoFbmInfo} {p : PictureRef}

theorem frames (h : Restated s s' p) {o : FbmHandle} {f' : Fbm} (hf' : s'.fbm o = some f') :
    ∃ f, s.fbm o = some f ∧ f'.flag = f.flag ∧ f'.nMaxFrameNum = f.nMaxFrameNum ∧
      ∀ i, (f'.pFrames i).vpicture.nID = (f.pFrames i).vpicture.nID := by
  rcases h with rfl | ⟨g,rfl⟩
  · exact ⟨f',hf',rfl,rfl,fun _ => rfl⟩
  · unfold updateStatus updatePicture at hf'
    cases hf : s.fbm p.owner with
    | none =>
      rw [hf] at hf'
      exact ⟨f',hf',rfl,rfl,fun _ => rfl⟩
    | some f =>
      rw [hf] at hf'
      by_cases ho : o = p.owner
      · subst ho
        simp only [setFbm,update_self,some.injEq] at hf'
        subst hf'
        refine ⟨f,hf,?_,rfl,fun i => ?_⟩
        · exact modifyPicture_flag f p.index fun pic => { pic with nBufStatus := g pic.nBufStatus }
        · by_cases hi : i = p.index
          · subst hi
            simp [Fbm.modifyFrame]
          · simp [Fbm.modifyFrame,hi]
      · simp only [setFbm,update_of_ne ho] at hf'
        exact ⟨f',hf',rfl,rfl,fun _ => rfl⟩

end Restated

section
variable (s : VideoFbmInfo) (h : FbmHandle) (p : PictureRef) (status : BitVec 32)
include s h p status

theorem returnBufferStream_spec (bValidPicture : Bool) :
    Restated s (returnBufferStream s h p status bValidPicture).2 p ∧
      ∀ o ∈ (returnBufferStream s h p status bValidPicture).1,
        o = h ∨ s.bTwoStreamShareOneFbm = true ∧ o = .pFbmFirst := by
  unfold returnBufferStream
  by_cases htwo : s.bTwoStreamShareOneFbm = true
  · cases h with
    | pFbmFirst =>
      split_ifs <;> exact ⟨.inr ⟨(· &&& ~~~majorDecoderUseFlag),rfl⟩,by simp⟩
    | pFbmSecond =>
      split_ifs <;> exact ⟨.inr ⟨(· &&& ~~~minorDecoderUseFlag),rfl⟩,by simp [htwo]⟩
  · rw [if_neg htwo]
    exact ⟨.inl rfl,by simp⟩

theorem returnPictureStream_spec : Restated s (returnPictureStream s h p status).2 p := by
  unfold returnPictureStream
  split_ifs
  · cases h with
    | pFbmFirst => exact .inr ⟨(· &&& ~~~majorDispUseFlag),rfl⟩
    | pFbmSecond => exact .inr ⟨(· &&& ~~~minorDispUseFlag),rfl⟩
  · exact .inl rfl

end

variable {f : Fbm} {a : Frames} {s : VideoFbmInfo} {i : ℕ}

theorem picture_eq_some {h : FbmHandle} {pic : VideoPicture} (hf : s.fbm h = some f)
    (hpic : s.picture ⟨h,i⟩ = some pic) :
    i < f.nMaxFrameNum ∧ (f.pFrames i).vpicture = pic := by
  simp only [picture,hf] at hpic
  split_ifs at hpic with hi
  exact ⟨hi,some_inj.mp hpic⟩

variable {p : PictureRef}

theorem checkedIndex_spec {h : FbmHandle} {nID : ℤ} (hi : checkedIndex f h p nID = some i) :
    i < f.nMaxFrameNum ∧ p = ⟨h,i⟩ := by
  unfold checkedIndex at hi
  split_ifs at hi with hrange hp
  cases hi
  exact ⟨by omega,hp⟩

theorem Linked.length_lt (hl : Linked f a) (q : QueueId) : (a.queue q).length < f.nMaxFrameNum+1 :=
  Nat.lt_succ_of_le (chain_length_le (hl.queues.chain q) (hl.queues.lt q))

theorem Linked.setNewDispRelease (hl : Linked f a) (hf : s.fbm s.dispHandle = some f) :
    ∃ f', fbmSetNewDispRelease s = some (s.setFbm s.dispHandle f') ∧
      Linked f' (a.setNewDispRelease (s.isMinor s.dispHandle)) := by
  obtain ⟨f₁,hf₁,hl₁⟩ : ∃ f₁, fbmFlush (s.setFbm s.dispHandle (markNeedRelease f)) s.dispHandle =
      some (s.setFbm s.dispHandle f₁) ∧ Linked f₁ (if s.isMinor s.dispHandle then a.mark
        else a.mark.flush (a.queue .validPicture)) := by
    have hset : (s.setFbm s.dispHandle (markNeedRelease f)).fbm s.dispHandle =
        some (markNeedRelease f) := update_self ..
    simp only [fbmFlush,hset]
    by_cases hminor : s.isMinor s.dispHandle = true
    · simp only [show (s.setFbm s.dispHandle (markNeedRelease f)).isMinor s.dispHandle = true from
        hminor,hminor,if_true]
      exact ⟨_,rfl,hl.mark⟩
    · obtain ⟨f',hf',hl'⟩ := Linked.flush _ _ hl.mark rfl (hl.mark.length_lt .validPicture)
      refine ⟨f',?_,by rwa [if_neg hminor]⟩
      rw [if_neg (show ¬(s.setFbm s.dispHandle (markNeedRelease f)).isMinor s.dispHandle = true
        from hminor),hf']
      simp [setFbm]
  obtain ⟨f₂,hf₂,hl₂⟩ := Linked.newDispRelease _ _ hl₁ rfl (hl₁.length_lt .emptyBuffer)
  have hset : (s.setFbm s.dispHandle f₁).fbm s.dispHandle = some f₁ := update_self ..
  refine ⟨f₂,?_,hl₂⟩
  simp only [fbmSetNewDispRelease,hf,hf₁,bind_some,hset,hf₂]
  simp [setFbm]

theorem Linked.valid_eq_nil (hl : Linked f a) (hnone : f.pValidPictureQueue = none) :
    a.queue .validPicture = [] := by
  have hchain := hl.queues.chain .validPicture
  rw [show f.head .validPicture = none from hnone] at hchain
  exact chain_none hchain

structure Closed (P : FbmHandle → Frames → Prop) : Prop where
  settled : ∀ {h a}, P h a → a.Settled
  unqueued : ∀ {h a}, P h a → a.Unqueued
  small : ∀ {h a}, P h a → (a.max : ℤ) ≤ frmReleaseTag
  status : ∀ {h a}, P h a → ∀ i g,
    (∀ pic : VideoPicture, (g pic).nID = pic.nID ∧ (g pic).nBufId = pic.nBufId) →
      P h (a.modifyPicture i g)
  requestBuffer : ∀ {h a f}, Linked f a → P h a → P h a.requestBuffer.1
  shareBuffer : ∀ {h a i}, i < a.max → (a.flag i).bUsedByRender = false →
    (a.flag i).bNeedRelease = false → P h a → P h (a.shareBuffer i)
  requestPicture : ∀ {h a f}, Linked f a → P h a → P h a.requestPicture.1
  returnPicture : ∀ {h a i}, i < a.max → P h a → P h (a.returnPicture i).1
  returnForbidden : ∀ {h a} {i : ℕ}, i < a.max → (a.picture i).nID = i+frmForbidUseTag → P h a →
    P h ((a.returnForbidden i).1.modifyPicture i
      fun pic => { pic with nID := pic.nID-frmForbidUseTag })
  requestRelease : ∀ {h a f}, Linked f a → P h a → P h a.requestRelease.1

section Calls
variable {P : FbmHandle → Frames → Prop} {s s' : VideoFbmInfo} (hP : Closed P) (hc : Managed P s)
include hP hc

theorem Restated.keeps (h : Restated s s' p) : Keeps P s s' := by
  rcases h with rfl | ⟨g,rfl⟩
  · exact .refl hc
  · exact .updatePicture hc p (fun pic => { pic with nBufStatus := g pic.nBufStatus })
      fun _ _ i ha => hP.status ha i _ fun _ => ⟨rfl,rfl⟩

theorem fbmRequestBuffer_keeps (h : FbmHandle) :
    ∃ r, fbmRequestBuffer s h = some r ∧ Keeps P s r.1 := by
  unfold fbmRequestBuffer
  cases hf : s.fbm h with
  | none => exact ⟨_,rfl,.refl hc⟩
  | some f =>
    obtain ⟨a,hl,ha⟩ := hc h f hf
    obtain ⟨f',hf',hl'⟩ := hl.requestBuffer
    have ha' := hP.requestBuffer hl ha
    simp only [hf']
    by_cases hminor : s.isMinor h = true
    · rw [if_pos hminor]
      cases s.pMajorDecoderFrame with
      | none => exact ⟨_,rfl,.refl hc⟩
      | some p =>
        exact ⟨_,rfl,Restated.keeps hP hc (p := p)
          (.inr ⟨fun st => (st ||| minorDecoderUseFlag) &&& ~~~minorNeedUseFlag,rfl⟩)⟩
    · rw [if_neg hminor]
      cases a.requestBuffer.2 with
      | none => exact ⟨_,rfl,.replace hc hf hl' ha' rfl rfl rfl⟩
      | some i =>
        split_ifs
        · exact ⟨_,rfl,.replace hc hf (hl'.modifyPicture i fun pic =>
            { pic with nBufStatus := pic.nBufStatus ||| majorDecoderUseFlag ||| minorNeedUseFlag })
            (hP.status ha' i _ fun _ => ⟨rfl,rfl⟩) rfl rfl rfl⟩
        · exact ⟨_,rfl,.replace hc hf hl' ha' rfl rfl rfl⟩

theorem fbmReturnBuffer_keeps
    (hshared : s.bTwoStreamShareOneFbm = true → (s.fbm .pFbmFirst).isSome = true)
    (h : FbmHandle) (pVPicture : Option PictureRef) (bValidPicture : Bool)
    (hpoints : ∀ p ∈ pVPicture, (s.picture p).isSome = true)
    {G : FrameNodeFlag → Prop} (hG : ∀ p ∈ pVPicture, ∀ f ∈ s.fbm p.owner, G (f.flag p.index))
    (hsection : ∀ h a i, i < a.max → P h a → G (a.flag i) → P h (a.returnBuffer i bValidPicture)) :
    ∃ s', fbmReturnBuffer s h pVPicture bValidPicture = some s' ∧ Keeps P s s' := by
  unfold fbmReturnBuffer
  cases hf : s.fbm h with
  | none => exact ⟨s,rfl,.refl hc⟩
  | some f =>
    cases pVPicture with
    | none => exact ⟨s,rfl,.refl hc⟩
    | some p =>
      obtain ⟨pic,hpic⟩ := isSome_iff_exists.mp (hpoints p rfl)
      obtain ⟨hre,howner⟩ := returnBufferStream_spec s h p pic.nBufStatus bValidPicture
      simp only [hpic,bind_some]
      generalize returnBufferStream s h p pic.nBufStatus bValidPicture = r at hre howner
      obtain ⟨o,s₁⟩ := r
      have hk := Restated.keeps hP hc hre
      cases o with
      | none => exact ⟨s₁,rfl,hk⟩
      | some o =>
        have hsome : (s₁.fbm o).isSome = true := by
          rw [hk.2.isSome]
          rcases howner o rfl with rfl | ⟨htwo,rfl⟩
          · simp [hf]
          · exact hshared htwo
        obtain ⟨f₁,hf₁⟩ := isSome_iff_exists.mp hsome
        simp only [hf₁,bind_some]
        cases hi : checkedIndex f₁ o p pic.nID with
        | none => exact ⟨s₁,rfl,hk⟩
        | some i =>
          obtain ⟨hlt,rfl⟩ := checkedIndex_spec hi
          obtain ⟨a,hl,ha⟩ := hk.1 o f₁ hf₁
          obtain ⟨f₀,hf₀,hflag,-,-⟩ := hre.frames hf₁
          have hguard := hG _ rfl f₀ hf₀
          rw [← hflag,hl.flag] at hguard
          rw [hl.max] at hlt
          obtain ⟨f',hf',hl'⟩ := hl.returnBuffer hlt (fun hdec hor =>
            (hP.settled ha).free hlt (by simp [FrameNodeFlag.touched,hdec])
              (hor.elim (hP.unqueued ha i hlt) id)) bValidPicture
          exact ⟨_,congrArg (Option.map _) hf',hk.trans (.replace hk.1 hf₁ hl'
            (hsection o a i hlt ha hguard) rfl rfl rfl)⟩

theorem fbmShareBuffer_keeps (h : FbmHandle) (pVPicture : Option PictureRef)
    (hpoints : ∀ p ∈ pVPicture, (s.picture p).isSome = true)
    (hunshown : ∀ p ∈ pVPicture, ∀ f ∈ s.fbm p.owner, (f.flag p.index).bUsedByRender = false) :
    ∃ s', fbmShareBuffer s h pVPicture = some s' ∧ Keeps P s s' := by
  unfold fbmShareBuffer
  cases hf : s.fbm h with
  | none => exact ⟨s,rfl,.refl hc⟩
  | some f =>
    cases pVPicture with
    | none => exact ⟨s,rfl,.refl hc⟩
    | some p =>
      obtain ⟨pic,hpic⟩ := isSome_iff_exists.mp (hpoints p rfl)
      simp only [hpic,bind_some]
      by_cases hminor : s.isMinor h = true
      · rw [if_pos hminor]
        exact ⟨s,rfl,.refl hc⟩
      · rw [if_neg hminor]
        cases hi : checkedIndex f h p pic.nID with
        | none => exact ⟨s,rfl,.refl hc⟩
        | some i =>
          obtain ⟨hlt,rfl⟩ := checkedIndex_spec hi
          obtain ⟨a,hl,ha⟩ := hc h f hf
          have hrender := hunshown _ rfl f hf
          rw [hl.flag] at hrender
          rw [hl.max] at hlt
          dsimp only
          split_ifs with hneed
          · exact ⟨s,rfl,.refl hc⟩
          · rw [hl.flag] at hneed
            obtain ⟨f',hf',hl'⟩ := hl.shareBuffer hlt fun hdec hvalid =>
              (hP.settled ha).free hlt (by simp [FrameNodeFlag.touched,hdec]) hvalid
            exact ⟨_,congrArg (Option.map _) hf',.replace hc hf hl'
              (hP.shareBuffer hlt hrender (by simpa using hneed) ha) rfl rfl rfl⟩

theorem fbmRequestPicture_keeps (h : FbmHandle)
    (hshown : s.isMinor h = true → s.pMajorDispFrame.isSome = true) :
    ∃ r, fbmRequestPicture s h = some r ∧ Keeps P s r.1 := by
  unfold fbmRequestPicture
  cases hf : s.fbm h with
  | none => exact ⟨_,rfl,.refl hc⟩
  | some f =>
    obtain ⟨a,hl,ha⟩ := hc h f hf
    obtain ⟨f',hf',hl'⟩ := hl.requestPicture
    have ha' := hP.requestPicture hl ha
    simp only [hf']
    by_cases hminor : s.isMinor h = true
    · obtain ⟨p,hp⟩ := isSome_iff_exists.mp (hshown hminor)
      rw [if_pos hminor,hp]
      exact ⟨_,rfl,Restated.keeps hP hc (p := p) (.inr ⟨(· ||| minorDispUseFlag),rfl⟩)⟩
    · rw [if_neg hminor]
      cases a.requestPicture.2 with
      | none | some i => exact ⟨_,rfl,.replace hc hf hl' ha' rfl rfl rfl⟩

theorem fbmReturnPicture_keeps (h : FbmHandle) (pVPicture : Option PictureRef)
    (hpoints : ∀ p ∈ pVPicture, (s.picture p).isSome = true)
    (howner : ∀ p ∈ pVPicture, ∀ pic ∈ s.picture p, pic.nID < frmForbidUseTag ∨ p.owner = h) :
    ∃ r, fbmReturnPicture s h pVPicture = some r ∧ Keeps P s r.1 := by
  unfold fbmReturnPicture
  cases hf : s.fbm h with
  | none => exact ⟨_,rfl,.refl hc⟩
  | some f =>
    cases pVPicture with
    | none => exact ⟨_,rfl,.refl hc⟩
    | some p =>
      obtain ⟨pic,hpic⟩ := isSome_iff_exists.mp (hpoints p rfl)
      have hre := returnPictureStream_spec s h p pic.nBufStatus
      simp only [hpic,bind_some]
      generalize returnPictureStream s h p pic.nBufStatus = r at hre
      obtain ⟨alone,s₁⟩ := r
      dsimp only at hre
      have hk := Restated.keeps hP hc hre
      cases alone with
      | false => exact ⟨_,rfl,hk⟩
      | true =>
        obtain ⟨f₁,hf₁⟩ := isSome_iff_exists.mp ((hk.2.isSome h).trans (by simp [hf]))
        obtain ⟨a,hl,ha⟩ := hk.1 h f₁ hf₁
        simp only [hf₁,bind_some]
        by_cases htag : pic.nID ≥ f₁.nMaxFrameNum ∧ pic.nID ≥ frmForbidUseTag
        · rw [if_pos htag]
          obtain ⟨o,i⟩ := p
          obtain rfl : o = h := (howner _ rfl pic hpic).resolve_left (by omega)
          obtain ⟨hi,hpic⟩ := picture_eq_some hf hpic
          obtain ⟨f₀,hf₀,-,hmax,hid⟩ := hre.frames hf₁
          obtain rfl : f = f₀ := some_inj.mp (hf.symm.trans hf₀)
          have hlt : i < a.max := by rw [← hl.max,hmax]; exact hi
          have hnID : (a.picture i).nID = pic.nID := by rw [← hl.picture,hid,hpic]
          have hid' := (hP.settled ha).tagged (hP.small ha) hlt (hnID ▸ htag.2)
          have hindex : (pic.nID-frmForbidUseTag).toNat = i := by omega
          rw [hindex,if_pos (hmax ▸ hi)]
          obtain ⟨f',hf',hl'⟩ := hl.returnForbidden hlt
            ((hP.settled ha).away hlt (by rw [hid',frmForbidUseTag]; omega)).1
          rw [hf',(Frames.returnForbidden_moved (hP.settled ha) hlt hid').1]
          refine ⟨_,rfl,hk.trans (.replace hk.1 hf₁ (hl'.modifyPicture i _)
            (hP.returnForbidden hlt hid' ha) ?_ ?_ ?_)⟩
          all_goals simp [updatePicture,setFbm,Fbm.modifyPicture]
        · rw [if_neg htag]
          cases hi : checkedIndex f₁ h p pic.nID with
          | none => exact ⟨_,rfl,hk⟩
          | some i =>
            obtain ⟨hlt,rfl⟩ := checkedIndex_spec hi
            rw [hl.max] at hlt
            obtain ⟨f',hf',hl'⟩ := hl.returnPicture hlt fun hrender _ hvalid =>
              (hP.settled ha).free hlt (by simp [FrameNodeFlag.touched,hrender]) hvalid
            exact ⟨_,congrArg (Option.map _) hf',hk.trans (.replace hk.1 hf₁ hl'
              (hP.returnPicture hlt ha) rfl rfl rfl)⟩

omit hP in
theorem fbmFlush_keeps (h : FbmHandle)
    (hflush : s.isMinor h = false → ∀ f a, s.fbm h = some f → Linked f a → P h a →
      P h (a.flush (a.queue .validPicture))) :
    ∃ s', fbmFlush s h = some s' ∧ Keeps P s s' := by
  unfold fbmFlush
  cases hf : s.fbm h with
  | none => exact ⟨_,rfl,.refl hc⟩
  | some f =>
    dsimp only
    by_cases hminor : s.isMinor h = true
    · rw [if_pos hminor]
      exact ⟨_,rfl,.refl hc⟩
    · rw [if_neg hminor]
      obtain ⟨a,hl,ha⟩ := hc h f hf
      obtain ⟨f',hf',hl'⟩ := Linked.flush _ _ hl rfl (hl.length_lt .validPicture)
      exact ⟨_,congrArg (Option.map _) hf',.replace hc hf hl'
        (hflush (by simpa using hminor) f a hf hl ha) rfl rfl rfl⟩

theorem fbmRequestReleasePicture_keeps : Keeps P s (fbmRequestReleasePicture s).1 := by
  unfold fbmRequestReleasePicture
  cases hf : s.fbm s.dispHandle with
  | none => exact .refl hc
  | some f =>
    obtain ⟨a,hl,ha⟩ := hc _ f hf
    obtain ⟨f',hf',hl'⟩ := hl.requestRelease
    simp only [hf']
    exact .replace hc hf hl' (hP.requestRelease hl ha) rfl rfl rfl

theorem fbmReturnReleasePicture_keeps (nBufId : ℤ) (bForbidUseFlag : Bool)
    (hsection : ∀ h a, P h a → P h (a.returnRelease nBufId bForbidUseFlag)) :
    ∃ r, fbmReturnReleasePicture s nBufId bForbidUseFlag = some r ∧ Keeps P s r.1 := by
  unfold fbmReturnReleasePicture
  cases hf : s.fbm s.dispHandle with
  | none => exact ⟨_,rfl,.refl hc⟩
  | some f =>
    obtain ⟨a,hl,ha⟩ := hc _ f hf
    obtain ⟨f',hf',hl'⟩ := hl.returnRelease nBufId bForbidUseFlag fun i hfound _ =>
      (Frames.returnRelease_moved (hP.settled ha) (hP.small ha) hfound nBufId bForbidUseFlag).1
    exact ⟨_,congrArg (Option.map _) hf',.replace hc hf hl' (hsection _ a ha) rfl rfl rfl⟩

omit hP in
theorem fbmSetNewDispRelease_keeps
    (hsection : ∀ f a, s.fbm s.dispHandle = some f → Linked f a → P s.dispHandle a →
      P s.dispHandle (a.setNewDispRelease (s.isMinor s.dispHandle))) :
    ∃ s', fbmSetNewDispRelease s = some s' ∧ Keeps P s s' := by
  cases hf : s.fbm s.dispHandle with
  | none => exact ⟨s,by simp only [fbmSetNewDispRelease,hf],.refl hc⟩
  | some f =>
    obtain ⟨a,hl,ha⟩ := hc _ f hf
    obtain ⟨f',hf',hl'⟩ := hl.setNewDispRelease hf
    exact ⟨_,hf',.replace hc hf hl' (hsection f a hf hl ha) rfl rfl rfl⟩

omit hP hc in
theorem fbmSetFbmBufAddress_keeps {n : ℕ} {f : Fbm} {a : Frames}
    (hf : s.fbm s.dispHandle = some f) (hl : Linked f a) (hn : n < a.max) (hfree : a.Free n)
    (nBufId : ℤ) (bForbidUseFlag : Bool)
    (hothers : ∀ o g, o ≠ s.dispHandle → s.fbm o = some g → ∃ a, Linked g a ∧ P o a)
    (hbind : P s.dispHandle (a.bind n nBufId bForbidUseFlag)) :
    ∃ info, fbmSetFbmBufAddress s n nBufId bForbidUseFlag = some (info, n+1) ∧ Keeps P s info := by
  obtain ⟨f',hf',hl'⟩ := hl.bind hn nBufId bForbidUseFlag fun _ => hfree
  have hlt : ¬f.nMaxFrameNum ≤ n := by
    rw [hl.max]
    omega
  refine ⟨s.setFbm s.dispHandle f',?_,.of_others hf hothers hl' hbind rfl rfl rfl⟩
  simp [fbmSetFbmBufAddress,hf,hlt,hf']

omit hP hc in
/-- A call that runs and keeps the managers leads to a session with every property that kept
managers give. -/
theorem FbmSession.of_call {α : Type} {Q : FbmSession → Prop} {n : ℕ} {x : Option α}
    {g : α → VideoFbmInfo} (hQ : ∀ {info}, Keeps P s info → Q ⟨info,n⟩)
    (hx : ∃ r, x = some r ∧ Keeps P s (g r)) :
    ∃ s', x.map (fun r => ⟨g r,n⟩) = some s' ∧ Q s' := by
  obtain ⟨r,rfl,hk⟩ := hx
  exact ⟨_,rfl,hQ hk⟩

end Calls

end TinaPackage.FrameBuffer
