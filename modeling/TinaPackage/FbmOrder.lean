import TinaPackage.FbmPlaces

/-! The frames of one manager are in order. Each mutex section keeps them so. -/
namespace TinaPackage.FrameBuffer
open FrameNodeFlag

namespace Frames
variable {f : Fbm} {a : Frames} {i : ℕ}

/-- Every frame is where it should be, and the first `b` of them are bound. The ids of the
display's buffers are among `ids`. -/
structure Placed (a : Frames) (gpu : Bool) (b : ℕ) (ids : ℤ → Prop) : Prop where
  useGpuBuf : a.useGpuBuf = gpu
  small : (a.max : ℤ) ≤ frmReleaseTag
  settled : a.Settled
  unbound : a.Unbound b
  blank : ∀ i, b ≤ i → i < a.max →
    (a.picture i).nBufId = fbmNewDispInvalidTag ∧ (a.flag i).bNeedRelease = false
  named : gpu = true → ∀ i < b, ids (a.picture i).nBufId
  present : ∀ i < b, a.Free i → (a.flag i).touched = true ∨ (a.picture i).nID ≠ i

def Unqueued (a : Frames) : Prop :=
  ∀ i < a.max, (a.flag i).bNeedRelease = true → (a.flag i).bInValidPictureQueue = false

def Orderly (a : Frames) (gpu : Bool) (b : ℕ) (ids : ℤ → Prop) : Prop :=
  a.Placed gpu b ids ∧ a.Unqueued

section Orderly
variable {a' : Frames} {gpu : Bool} {b : ℕ} {ids : ℤ → Prop}
  {flag : FrameNodeFlag} {pic : VideoPicture} {place : Option QueueId}

theorem Settles.present (hm : Settles a a' i flag pic place)
    (h : ∀ j < b, a.Free j → (a.flag j).touched = true ∨ (a.picture j).nID ≠ j) {j : ℕ}
    (hj : j < b ∨ j = i) (hfree : a'.Free j) :
    (a'.flag j).touched = true ∨ (a'.picture j).nID ≠ j := by
  by_cases hji : j = i
  · rw [hji,hm.1.flag_self,hm.1.picture_self]
    rw [hji] at hfree
    exact hm.2.present (hm.1.at_self.unique (at_none.mpr hfree))
  · rw [hm.1.flag_of_ne hji,hm.1.picture_of_ne hji]
    exact h j (hj.resolve_right hji) (at_none.mp ((hm.1.at_of_ne hji none).mp (at_none.mpr hfree)))

theorem Placed.settles (h : a.Placed gpu b ids) (hm : Settles a a' i flag pic place) (hi : i < b)
    (hid : ids (a.picture i).nBufId → ids pic.nBufId) : a'.Placed gpu b ids where
  useGpuBuf := hm.1.useGpuBuf.trans h.useGpuBuf
  small := hm.1.max ▸ h.small
  settled := hm.1.settled h.settled hm.2.toFrameOk
  unbound := hm.1.unbound h.unbound hi
  blank j hj hmax := by
    rw [hm.1.picture_of_ne (by omega),hm.1.flag_of_ne (by omega)]
    exact h.blank j hj (hm.1.max ▸ hmax)
  named hgpu j hj := by
    by_cases hji : j = i
    · rw [hji,hm.1.picture_self]
      exact hid (h.named hgpu i hi)
    · rw [hm.1.picture_of_ne hji]
      exact h.named hgpu j hj
  present j hj hfree := hm.present h.present (.inl hj) hfree

theorem Unqueued.moved (h : a.Unqueued) (hm : Moved a a' i flag pic place)
    (hmark : flag.bNeedRelease = true → flag.bInValidPictureQueue = false) : a'.Unqueued := by
  intro j hj
  by_cases hji : j = i
  · rw [hji,hm.flag_self]
    exact hmark
  · rw [hm.flag_of_ne hji]
    exact h j (hm.max ▸ hj)

section
variable (h : a.Orderly gpu b ids)
include h

theorem Orderly.settles (hm : Settles a a' i flag pic place) (hi : i < b)
    (hid : ids (a.picture i).nBufId → ids pic.nBufId)
    (hmark : flag.bNeedRelease = true → flag.bInValidPictureQueue = false) : a'.Orderly gpu b ids :=
  ⟨h.1.settles hm hi hid,h.2.moved hm.1 hmark⟩

theorem Orderly.requestBuffer (hl : Linked f a) : a.requestBuffer.1.Orderly gpu b ids := by
  rcases requestBuffer_moved hl h.1.settled with hsame | ⟨i,hi,hmem,-,-,hm,-⟩
  · rwa [hsame]
  · exact h.settles hm (h.1.unbound.lt_of_mem hi hmem) id (h.2 i hi)

theorem Orderly.returnBuffer (hi : i < a.max)
    (hrender : (a.flag i).bUsedByDecoder = true → (a.flag i).bNeedRelease = true →
      (a.flag i).bUsedByRender = false) (bValidPicture : Bool) :
    (a.returnBuffer i bValidPicture).Orderly gpu b ids := by
  cases hdec : (a.flag i).bUsedByDecoder with
  | false =>
    have hsame : a.returnBuffer i bValidPicture = a := if_pos (by rw [hdec]; rfl)
    rwa [hsame]
  | true =>
    rcases returnBuffer_moved h.1.settled hi (fun hneed => ⟨h.2 i hi hneed,hrender hdec hneed⟩)
      bValidPicture with ⟨hnot,-⟩ | ⟨-,flag,place,hm,-,-,hmark,hcase⟩
    · exact absurd (hnot.symm.trans hdec) (by simp)
    · refine h.settles hm (h.1.unbound.lt_of_touched hi (by simp [touched,hdec])) id
        fun hneed => ?_
      have hplace : place = some .releaseBuffer := by
        rw [hmark] at hneed
        exact (hcase.resolve_right fun hnot => by simp [hneed] at hnot).2.1
      simpa using hm.2.valid.not.mpr (by simp [hplace])

theorem Orderly.shareBuffer (hi : i < a.max)
    (hunshown : (a.flag i).bUsedByRender = false) (hmark : (a.flag i).bNeedRelease = false) :
    (a.shareBuffer i).Orderly gpu b ids := by
  rcases shareBuffer_moved h.1.settled hi hunshown with hsame | ⟨hdec,-,hm,-⟩
  · rwa [hsame]
  · exact h.settles hm (h.1.unbound.lt_of_touched hi (by simp [touched,hdec])) id (by simp [hmark])

theorem Orderly.requestPicture (hl : Linked f a) : a.requestPicture.1.Orderly gpu b ids := by
  rcases requestPicture_moved hl h.1.settled with hsame | ⟨i,hi,hvalid,-,-,hm,-⟩
  · rwa [hsame]
  · exact h.settles hm (h.1.unbound.lt_of_touched hi (by simp [touched,hvalid])) id (by simp)

theorem Orderly.returnPicture (hi : i < a.max) : (a.returnPicture i).1.Orderly gpu b ids := by
  rcases returnPicture_moved h.1.settled hi with
    ⟨-,hsame⟩ | ⟨hrender,-,flag,place,hm,-,-,hvalid,hmark,-⟩
  · rwa [hsame]
  · exact h.settles hm (h.1.unbound.lt_of_touched hi (by simp [touched,hrender])) id
      (by rw [hmark,hvalid]; exact h.2 i hi)

theorem Orderly.returnForbidden (hi : i < a.max) (htag : (a.picture i).nID = i+frmForbidUseTag) :
    ((a.returnForbidden i).1.modifyPicture i
      fun pic => { pic with nID := pic.nID-frmForbidUseTag }).Orderly gpu b ids := by
  obtain ⟨-,hm,-⟩ := returnForbidden_moved h.1.settled hi htag
  have haway : (a.picture i).nID ≠ i := by
    rw [htag,frmForbidUseTag]
    omega
  exact h.settles hm (h.1.unbound.lt_of_tagged hi haway) id (h.2 i hi)

theorem Orderly.bind (hb : b < a.max) {nBufId : ℤ} (hid : ids nBufId)
    (bForbidUseFlag : Bool) : (a.bind b nBufId bForbidUseFlag).Orderly gpu (b+1) ids := by
  obtain ⟨hfree,huntouched,-⟩ := h.1.unbound.frames b (Nat.le_refl b) hb
  obtain ⟨hm,-⟩ := bind_moved hfree huntouched nBufId bForbidUseFlag
  refine ⟨{ useGpuBuf := hm.1.useGpuBuf.trans h.1.useGpuBuf
            small := hm.1.max ▸ h.1.small
            settled := hm.1.settled h.1.settled hm.2.toFrameOk
            unbound := hm.1.unbound ⟨hb,fun i hi => h.1.unbound.frames i (by omega)⟩ (by omega)
            blank := fun i hi hmax => ?_
            named := fun hgpu i hi => ?_
            present := fun i hi hfree => hm.present h.1.present (by omega) hfree },
    h.2.moved hm.1 (h.2 b hb)⟩
  · rw [hm.1.picture_of_ne (by omega),hm.1.flag_of_ne (by omega)]
    exact h.1.blank i (by omega) (hm.1.max ▸ hmax)
  · by_cases hib : i = b
    · rw [hib,hm.1.picture_self]
      exact hid
    · rw [hm.1.picture_of_ne hib]
      exact h.1.named hgpu i (by omega)

theorem Orderly.requestRelease (hl : Linked f a) : a.requestRelease.1.Orderly gpu b ids := by
  rcases requestRelease_moved hl h.1.settled h.1.small with hsame | ⟨i,hi,hat,-,hm,-⟩
  · rwa [hsame]
  · exact h.settles hm (h.1.unbound.lt_of_mem hi ((hat .releaseBuffer).mpr rfl)) id (h.2 i hi)

theorem Orderly.returnRelease {nBufId : ℤ} (hid : ids nBufId)
    (bForbidUseFlag : Bool) : (a.returnRelease nBufId bForbidUseFlag).Orderly gpu b ids := by
  cases hfound : a.findReleased with
  | none =>
    rw [Frames.returnRelease,hfound]
    exact h
  | some i =>
    obtain ⟨hi,-,htag⟩ := findReleased_spec hfound
    obtain ⟨-,-,hm,-⟩ :=
      returnRelease_moved h.1.settled h.1.small hfound nBufId bForbidUseFlag
    have hsmall := h.1.small
    exact h.settles hm (h.1.unbound.lt_of_tagged hi (by omega)) (fun _ => hid) (by simp)

end

theorem mark_same {β : Type*} (a : Frames) (i : ℕ) (p : FrameNodeFlag → β)
    (hp : ∀ flag : FrameNodeFlag, p { flag with bNeedRelease := true } = p flag) :
    p (a.mark.flag i) = p (a.flag i) := by
  simp only [mark]
  split_ifs
  · exact hp _
  · rfl

theorem Placed.mark (h : a.Placed gpu b ids) : a.mark.Placed gpu b ids where
  __ := h
  settled := mark_settled h.settled
  unbound := ⟨h.unbound.le,fun i hb hi => by
    obtain ⟨hfree,huntouched,hid⟩ := h.unbound.frames i hb hi
    exact ⟨hfree,(mark_same a i touched fun _ => rfl).trans huntouched, hid⟩⟩
  blank i hb hi := by
    obtain ⟨hid,hneed⟩ := h.blank i hb hi
    exact ⟨hid,by simpa [Frames.mark,hid] using hneed⟩
  present i hi hfree := by
    rw [mark_same a i touched fun _ => rfl]
    exact h.present i hi hfree

theorem Settled.unqueued (hs : a.Settled) (hvalid : a.queue .validPicture = []) : a.Unqueued := by
  intro i hi _
  obtain ⟨place,hat,hok⟩ := hs i hi
  have hplace : place ≠ some .validPicture := (hat .validPicture).not.mp (by simp [hvalid])
  simpa using hok.valid.not.mpr hplace

theorem Orderly.newDispRelease (h : a.Orderly gpu b ids) (hl : Linked f a) :
    (a.newDispRelease (a.queue .emptyBuffer)).Orderly gpu b ids := by
  have hsettled := newDispRelease_settled hl h.1.settled
  rw [newDispRelease_eq _ a rfl fun i hi => h.1.settled.untouched_of_mem hl hi] at hsettled ⊢
  refine ⟨{ h.1 with
    settled := hsettled
    unbound := ⟨h.1.unbound.le,fun i hb hi => ?_⟩
    present := fun i hi hfree => h.1.present i hi fun q => ?_ }, h.2⟩
  · obtain ⟨hfree,hrest⟩ := h.1.unbound.frames i hb hi
    refine ⟨fun q => ?_, hrest⟩
    cases q with
    | emptyBuffer => simp
    | validPicture => simpa using hfree .validPicture
    | releaseBuffer => simp [hfree .releaseBuffer,hfree .emptyBuffer]
  · have hrelease : i ∉ a.queue .releaseBuffer ++ a.queue .emptyBuffer := by
      simpa using hfree .releaseBuffer
    cases q with
    | emptyBuffer => exact fun hmem => hrelease (List.mem_append_right _ hmem)
    | validPicture => simpa using hfree .validPicture
    | releaseBuffer => exact fun hmem => hrelease (List.mem_append_left _ hmem)

theorem Orderly.modifyStatus (h : a.Orderly gpu b ids) (i : ℕ) (g : VideoPicture → VideoPicture)
    (hg : ∀ pic, (g pic).nID = pic.nID ∧ (g pic).nBufId = pic.nBufId) :
    (a.modifyPicture i g).Orderly gpu b ids := by
  have hid (j : ℕ) : ((a.modifyPicture i g).picture j).nID = (a.picture j).nID ∧
      ((a.modifyPicture i g).picture j).nBufId = (a.picture j).nBufId := by
    by_cases hj : j = i
    · subst hj
      simp [Frames.modifyPicture,hg]
    · simp [Frames.modifyPicture,hj]
  refine ⟨{ h.1 with
    settled := fun j hj => ?_
    unbound := ⟨h.1.unbound.le,fun j hb hj => ?_⟩
    blank := fun j hb hj => ?_
    named := fun hgpu j hj => ?_
    present := fun j hj hfree => ?_ }, h.2⟩
  · obtain ⟨place,hat,hok⟩ := h.1.settled j hj
    exact ⟨place,hat,by rw [(hid j).1]; exact hok⟩
  · rw [(hid j).1]
    exact h.1.unbound.frames j hb hj
  · rw [(hid j).2]
    exact h.1.blank j hb hj
  · rw [(hid j).2]
    exact h.1.named hgpu j hj
  · rw [(hid j).1]
    exact h.1.present j hj hfree

theorem flushOne_moved {rest : List ℕ} (hl : Linked f a) (hs : a.Settled)
    (hq : a.queue .validPicture = i :: rest) :
    (a.flag i).bInValidPictureQueue = true ∧ (a.flag i).bUsedByRender = false ∧
    ((a.setQueue .validPicture rest).flushOne i).2 = true ∧ ∃ flag place,
      Settles a ((a.setQueue .validPicture rest).flushOne i).1 i flag
        { a.picture i with nBufStatus := 0 } place ∧
      flag.bUsedByDecoder = (a.flag i).bUsedByDecoder ∧ flag.bUsedByRender = false ∧
      flag.bNeedRelease = (a.flag i).bNeedRelease ∧ place ≠ some .releaseBuffer := by
  obtain ⟨-,-,-,hok⟩ := hs.head hl hq
  have hvalid := hok.valid.mpr rfl
  have hunshown := hok.unshown hvalid
  have hdisplayed := hok.undisplayed (.inl hvalid)
  have hout := ((Moved.dequeue hq (hl.free_of_dequeue hq)).modifyPicture
    fun pic => { pic with nBufStatus := 0 }).modifyFlag
      fun flag => { flag with bInValidPictureQueue := false }
  have hkept : ((a.setQueue .validPicture rest).modifyPicture i
      fun pic => { pic with nBufStatus := 0 }).flag i = a.flag i := rfl
  refine ⟨hvalid,hunshown,?_⟩
  simp only [flushOne,hkept,hunshown,hdisplayed,Bool.or_self,Bool.false_eq_true,if_false]
  cases hdec : (a.flag i).bUsedByDecoder with
  | false =>
    refine ⟨rfl,_,_,⟨hout.enqueue rfl .emptyBuffer,?_⟩,hdec,hunshown,rfl,by simp⟩
    constructor <;> simp_all [touched,frameOk_iff]
  | true =>
    refine ⟨rfl,_,_,⟨hout.modifyFlag fun flag => { flag with bAlreadyDisplayed := true },?_⟩,
      hdec,hunshown,rfl,by simp⟩
    constructor <;> simp_all [touched,frameOk_iff]

structure Kept (a a' : Frames) : Prop where
  max : a'.max = a.max
  decoder : ∀ i, (a'.flag i).bUsedByDecoder = (a.flag i).bUsedByDecoder
  render : ∀ i, (a'.flag i).bUsedByRender = (a.flag i).bUsedByRender
  mark : ∀ i, (a'.flag i).bNeedRelease = (a.flag i).bNeedRelease
  nID : ∀ i, (a'.picture i).nID = (a.picture i).nID
  release : ∀ i, i ∈ a'.queue .releaseBuffer ↔ i ∈ a.queue .releaseBuffer

theorem Kept.refl (a : Frames) : Kept a a :=
  ⟨rfl,fun _ => rfl, fun _ => rfl, fun _ => rfl, fun _ => rfl, fun _ => Iff.rfl⟩

theorem Kept.trans {a'' : Frames} (h : Kept a a') (h' : Kept a' a'') : Kept a a'' where
  max := h'.max.trans h.max
  decoder i := (h'.decoder i).trans (h.decoder i)
  render i := (h'.render i).trans (h.render i)
  mark i := (h'.mark i).trans (h.mark i)
  nID i := (h'.nID i).trans (h.nID i)
  release i := (h'.release i).trans (h.release i)

theorem Moved.flag_same {β : Type*} (hm : Moved a a' i flag pic place) (g : FrameNodeFlag → β)
    (hg : g flag = g (a.flag i)) (j : ℕ) : g (a'.flag j) = g (a.flag j) := by
  by_cases hj : j = i
  · rw [hj,hm.flag_self,hg]
  · rw [hm.flag_of_ne hj]

theorem Moved.kept (hm : Moved a a' i flag pic place)
    (hd : flag.bUsedByDecoder = (a.flag i).bUsedByDecoder)
    (hr : flag.bUsedByRender = (a.flag i).bUsedByRender)
    (hn : flag.bNeedRelease = (a.flag i).bNeedRelease) (hid : pic.nID = (a.picture i).nID)
    (hplace : place = some .releaseBuffer ↔ i ∈ a.queue .releaseBuffer) : Kept a a' where
  max := hm.max
  decoder := hm.flag_same (·.bUsedByDecoder) hd
  render := hm.flag_same (·.bUsedByRender) hr
  mark := hm.flag_same (·.bNeedRelease) hn
  nID j := by
    by_cases hj : j = i
    · rw [hj,hm.picture_self,hid]
    · rw [hm.picture_of_ne hj]
  release j := by
    rw [hm.mem]
    split_ifs with hj
    · rw [hj,hplace]
    · rfl

theorem flush_placed (xs : List ℕ) : ∀ {f : Fbm} {a : Frames}, Linked f a →
    a.Placed gpu b ids → a.queue .validPicture = xs →
    (a.flush xs).Placed gpu b ids ∧ Kept a (a.flush xs) ∧
      (a.flush xs).queue .validPicture = [] := by
  induction xs with
  | nil =>
    intro f a _ h hq
    exact ⟨h,.refl a,hq⟩
  | cons i rest ih =>
    intro f a hl h hq
    have hi : i < a.max := hl.lt_max (q := .validPicture) (by simp [hq])
    obtain ⟨hvalid,hrender,htrue,flag,place,hm,hd,hr,hn,hp⟩ :=
      flushOne_moved hl h.settled hq
    obtain ⟨f₁,-,hl₁⟩ := hl.dequeue hq
    obtain ⟨f₂,-,hl₂⟩ := hl₁.flushOne hi (hl.free_of_dequeue hq)
    have hrest : ((a.setQueue .validPicture rest).flushOne i).1.queue .validPicture = rest := by
      simp [flushOne_validPicture,setQueue]
    have hplaced := h.settles hm (h.unbound.lt_of_touched hi (by simp [touched,hvalid])) id
    have hflush : a.flush (i :: rest) =
        ((a.setQueue .validPicture rest).flushOne i).1.flush rest := by
      rw [flush]
      generalize (a.setQueue .validPicture rest).flushOne i = r at htrue
      obtain ⟨a₂,continues⟩ := r
      obtain rfl : continues = true := htrue
      rfl
    obtain ⟨hend,hkept,hnil⟩ := ih hl₂ hplaced hrest
    rw [hflush]
    refine ⟨hend,(hm.1.kept hd (hr.trans hrender.symm) hn rfl ?_).trans hkept,hnil⟩
    have hnot : i ∉ a.queue .releaseBuffer := fun hmem => by
      obtain ⟨q,hat,hok⟩ := h.settled i hi
      have hq := hok.valid.mp hvalid
      rw [(hat _).mp hmem] at hq
      cases hq
    exact iff_of_false hp hnot

def setNewDispRelease (a : Frames) (minor : Bool) : Frames :=
  let a := if minor then a.mark else a.mark.flush (a.queue .validPicture)
  a.newDispRelease (a.queue .emptyBuffer)

theorem Orderly.setNewDispRelease (h : a.Orderly gpu b ids) (hl : Linked f a) {minor : Bool}
    (hvalid : minor = false ∨ a.queue .validPicture = []) :
    (a.setNewDispRelease minor).Orderly gpu b ids := by
  cases minor with
  | true =>
    have hnil : a.queue .validPicture = [] := hvalid.resolve_left (by simp)
    exact Orderly.newDispRelease (a := a.mark) ⟨h.1.mark,h.1.mark.settled.unqueued hnil⟩ hl.mark
  | false =>
    obtain ⟨f',-,hl'⟩ := Linked.flush _ _ hl.mark rfl (Nat.lt_succ_self _)
    obtain ⟨hplaced,-,hnil⟩ := flush_placed _ hl.mark h.1.mark rfl
    exact Orderly.newDispRelease (a := a.mark.flush (a.queue .validPicture))
      ⟨hplaced,hplaced.settled.unqueued hnil⟩ hl'

theorem created_settled (ci : FbmCreateInfo) : (created ci).Settled := by
  intro i hi
  by_cases hgpu : ci.usesGpuBuf = true
  · refine ⟨none,by simp [At,created,hgpu],?_⟩
    constructor <;> simp [created,newFrameNode,touched]
  · refine ⟨some .emptyBuffer,fun q => ?_, ?_⟩
    · have hi' : i < ci.nFrameNum := hi
      cases q <;> simp [created,hgpu,hi']
    · constructor <;> simp [created,newFrameNode,touched]

theorem created_orderly (ci : FbmCreateInfo) (hsmall : (ci.nFrameNum : ℤ) ≤ frmReleaseTag)
    (ids : ℤ → Prop) : (created ci).Orderly ci.usesGpuBuf
      (if ci.usesGpuBuf then 0 else ci.nFrameNum) ids := by
  refine ⟨⟨rfl,hsmall,created_settled ci,?_,fun _ _ _ => ⟨rfl,rfl⟩,fun hgpu i hi => ?_,
    fun i hi hfree => ?_⟩, fun i _ _ => rfl⟩
  · by_cases hgpu : ci.usesGpuBuf = true
    · rw [if_pos hgpu]
      exact ⟨Nat.zero_le _,fun i _ _ => ⟨by simp [Free,created,hgpu],rfl,rfl⟩⟩
    · rw [if_neg hgpu]
      exact ⟨Nat.le_refl _,fun i hb hi => absurd hi (Nat.not_lt.mpr hb)⟩
  · rw [if_pos hgpu] at hi
    omega
  · by_cases hgpu : ci.usesGpuBuf = true
    · rw [if_pos hgpu] at hi
      omega
    · exact absurd (List.mem_range.mpr hi) (by simpa [created,hgpu] using hfree .emptyBuffer)

end Orderly

end Frames

end TinaPackage.FrameBuffer
