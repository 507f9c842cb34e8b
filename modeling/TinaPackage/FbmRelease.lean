import TinaPackage.FbmRuns
import TinaPackage.FbmSessions

/-! The release of a manager's buffers to a new display: each marked frame goes through the
release queue once and comes back with another buffer. -/
namespace TinaPackage.FrameBuffer
open FrameNodeFlag

/-- How often a frame entered the release queue, was handed to the display and was replaced
since it was marked. -/
structure Tally where
  marked : Bool
  entered : ℕ
  handed : ℕ
  replaced : ℕ
deriving DecidableEq

/-- How far a frame is on its way. A frame that the decoder or the render has, or that stays with
the display under the forbid tag, is held. -/
inductive Phase (i : ℕ) (flag : FrameNodeFlag) (nID : ℤ) (place : Option QueueId) : Tally → Prop
  | unmarked (hmark : flag.bNeedRelease = false) (hid : nID ≠ frmReleaseTag)
      (hplace : place ≠ some .releaseBuffer) : Phase i flag nID place ⟨false,0,0,0⟩
  | held (hmark : flag.bNeedRelease = true) (hid : nID ≠ frmReleaseTag) (hplace : place = none)
      (hheld : flag.bUsedByDecoder = true ∨ flag.bUsedByRender = true ∨
        nID = i+frmForbidUseTag) : Phase i flag nID place ⟨true,0,0,0⟩
  | queued (hmark : flag.bNeedRelease = true) (hplace : place = some .releaseBuffer) :
      Phase i flag nID place ⟨true,1,0,0⟩
  | handed (hmark : flag.bNeedRelease = true) (hid : nID = frmReleaseTag) :
      Phase i flag nID place ⟨true,1,1,0⟩
  | replaced (hmark : flag.bNeedRelease = false) (hid : nID ≠ frmReleaseTag)
      (hflags : flag.touched = false) (hplace : place ≠ some .releaseBuffer) :
      Phase i flag nID place ⟨true,1,1,1⟩

namespace Frames

def Phases (a : Frames) (tally : ℕ → Tally) : Prop :=
  ∀ i < a.max, ∃ place, a.At i place ∧ Phase i (a.flag i) (a.picture i).nID place (tally i)

variable {f : Fbm} {a a' : Frames} {i b : ℕ} {tally tally' : ℕ → Tally} {place : Option QueueId}

theorem Phases.moved (h : a.Phases tally) {flag : FrameNodeFlag} {pic : VideoPicture}
    (hm : Moved a a' i flag pic place) (hi : Phase i flag pic.nID place (tally' i))
    (hothers : ∀ j, j ≠ i → tally' j = tally j) :
    a'.Phases tally' := by
  intro j hj
  rw [hm.max] at hj
  by_cases hji : j = i
  · subst hji
    exact ⟨place,hm.at_self,by rwa [hm.flag_self,hm.picture_self]⟩
  · obtain ⟨p,hp,hphase⟩ := h j hj
    refine ⟨p,(hm.at_of_ne hji p).mpr hp,?_⟩
    rwa [hm.flag_of_ne hji,hm.picture_of_ne hji,hothers j hji]

theorem Phases.of_same (h : a.Phases tally) (hsame : a' = a) (htally : ∀ j, tally' j = tally j) :
    a'.Phases tally' := by
  obtain rfl : tally' = tally := funext htally
  rwa [hsame]

theorem setNewDispRelease_spec (hl : Linked f a) {gpu : Bool} {ids : ℤ → Prop}
    (h : a.Orderly gpu b ids) :
    (∃ f', Linked f' (a.setNewDispRelease false)) ∧
      (a.setNewDispRelease false).queue .emptyBuffer = [] ∧
      (a.setNewDispRelease false).queue .validPicture = [] ∧
      (a.setNewDispRelease false).max = a.max ∧
      ∀ i, ((a.setNewDispRelease false).flag i).bNeedRelease = (a.mark.flag i).bNeedRelease := by
  obtain ⟨f₁,-,hl₁⟩ := Linked.flush _ _ hl.mark rfl (Nat.lt_succ_self _)
  obtain ⟨hplaced,hkept,hnil⟩ := flush_placed _ hl.mark h.1.mark rfl
  obtain ⟨f₂,-,hl₂⟩ := Linked.newDispRelease _ _ hl₁ rfl (Nat.lt_succ_self _)
  refine ⟨⟨f₂,hl₂⟩,?_⟩
  have heq := newDispRelease_eq _ (a.mark.flush (a.mark.queue .validPicture)) rfl
    fun i hi => hplaced.settled.untouched_of_mem hl₁ hi
  have hset : a.setNewDispRelease false = _ := heq
  rw [hset]
  exact ⟨by simp,by simpa using hnil,hkept.max,hkept.mark⟩

theorem setNewDispRelease_phases (hl : Linked f a)
    (h : a.Orderly true b (· ≠ fbmNewDispInvalidTag)) {tally : ℕ → Tally}
    (htally : ∀ i, tally i =
      ⟨((a.setNewDispRelease false).flag i).bNeedRelease,
        ((a.setNewDispRelease false).queue .releaseBuffer).count i +
          (if ((a.setNewDispRelease false).picture i).nID = frmReleaseTag then 1 else 0),
        if ((a.setNewDispRelease false).picture i).nID = frmReleaseTag then 1 else 0,0⟩) :
    (a.setNewDispRelease false).Phases tally := by
  have horder : (a.setNewDispRelease false).Orderly true b (· ≠ fbmNewDispInvalidTag) :=
    h.setNewDispRelease hl (.inl rfl)
  obtain ⟨⟨f',hl'⟩,hempty,hvalid,hmax,hmark⟩ := setNewDispRelease_spec hl h
  generalize a.setNewDispRelease false = a' at *
  intro i hi
  rw [htally]
  by_cases hb : i < b
  · have hneed : (a'.flag i).bNeedRelease = true := by
      rw [hmark]
      simp [mark,hmax ▸ hi,h.1.named rfl i hb]
    obtain ⟨place,hat,hok⟩ := horder.1.settled i hi
    refine ⟨place,hat,?_⟩
    rw [hneed]
    rcases place with _ | (_ | _ | _)
    · have hnot : i ∉ a'.queue .releaseBuffer := (hat .releaseBuffer).not.mpr (by simp)
      rw [List.count_eq_zero_of_not_mem hnot]
      by_cases htag : (a'.picture i).nID = frmReleaseTag
      · rw [if_pos htag]
        exact .handed hneed htag
      · rw [if_neg htag]
        refine .held hneed htag rfl ?_
        rcases horder.1.present i hb (at_none.mp hat) with htouched | haway
        · have hv : (a'.flag i).bInValidPictureQueue = false := by
            simpa using hok.valid.not.mpr (by simp)
          simp only [touched,hv,Bool.or_false,Bool.or_eq_true] at htouched
          rcases htouched with (hdec | hrender) | hdisplayed
          · exact .inl hdec
          · exact .inr (.inl hrender)
          · exact .inl (hok.displayed hdisplayed).1
        · exact .inr (.inr ((hok.away.resolve_left haway).1.resolve_right htag))
    · exact absurd ((hat .emptyBuffer).mpr rfl) (by simp [hempty])
    · exact absurd ((hat .validPicture).mpr rfl) (by simp [hvalid])
    · have hmem := (hat .releaseBuffer).mpr rfl
      have hid : (a'.picture i).nID ≠ frmReleaseTag := by
        have hsmall := horder.1.small
        rw [hok.home_of_queued]
        omega
      rw [List.count_eq_one_of_mem (hl'.queues.nodup _) hmem,if_neg hid]
      exact .queued hneed rfl
  · obtain ⟨hfree,-,hid⟩ := horder.1.unbound.frames i (by omega) hi
    have hneed := (horder.1.blank i (by omega) hi).2
    have htag : (a'.picture i).nID ≠ frmReleaseTag := by
      have hsmall := horder.1.small
      omega
    refine ⟨none,at_none.mpr hfree,?_⟩
    rw [hneed,List.count_eq_zero_of_not_mem (hfree .releaseBuffer),if_neg htag]
    exact .unmarked hneed htag (by simp)

variable {gpu : Bool} {ids : ℤ → Prop}

theorem At.phase (hat : a.At i place) (h : a.Phases tally) (hi : i < a.max) :
    Phase i (a.flag i) (a.picture i).nID place (tally i) := by
  obtain ⟨p,hp,hphase⟩ := h i hi
  rwa [hat.unique hp]

theorem Orderly.home_of_touched (ho : a.Orderly gpu b ids) (hi : i < a.max)
    (htouched : (a.flag i).touched = true) : (a.picture i).nID ≠ frmReleaseTag := by
  obtain ⟨_,_,hok⟩ := ho.1.settled i hi
  have hsmall := ho.1.small
  rw [hok.home_of_touched htouched]
  omega

theorem Phases.of_touched (h : a.Phases tally) (hs : a.Settled)
    (hmax : (a.max : ℤ) ≤ frmReleaseTag) (hi : i < a.max) (htouched : (a.flag i).touched = true) :
    (a.flag i).bNeedRelease = false ∧ tally i = ⟨false,0,0,0⟩ ∨
      (a.flag i).bNeedRelease = true ∧ tally i = ⟨true,0,0,0⟩ := by
  obtain ⟨place,hat,hok⟩ := hs i hi
  have hphase := hat.phase h hi
  have hhome := hok.home_of_touched htouched
  generalize ht : tally i = t at hphase
  cases hphase with
  | unmarked hmark _ _ => exact .inl ⟨hmark,rfl⟩
  | held hmark _ _ _ => exact .inr ⟨hmark,rfl⟩
  | queued _ hplace => exact absurd ((hok.queued (.inr hplace)).symm.trans htouched) (by simp)
  | handed _ hid => omega
  | replaced _ _ hflags _ => exact absurd (hflags.symm.trans htouched) (by simp)

section
variable (h : a.Phases tally) (ho : a.Orderly gpu b ids) (hi : i < a.max)
include h ho hi

theorem Phases.returnBuffer
    (hrender : (a.flag i).bUsedByDecoder = true → (a.flag i).bNeedRelease = true →
      (a.flag i).bUsedByRender = false)
    (bValidPicture : Bool)
    (htally : ∀ j, tally' j = if j = i then { tally j with entered := (tally j).entered +
      ((a.returnBuffer i bValidPicture).counts.releaseBuffer-a.counts.releaseBuffer).toNat }
        else tally j) :
    (a.returnBuffer i bValidPicture).Phases tally' := by
  cases hdec : (a.flag i).bUsedByDecoder with
  | false =>
    have hsame : a.returnBuffer i bValidPicture = a := if_pos (by rw [hdec]; rfl)
    exact h.of_same hsame (by simp [htally,hsame])
  | true =>
    have hothers (j : ℕ) (hj : j ≠ i) : tally' j = tally j := by simp [htally,hj]
    have htouched : (a.flag i).touched = true := by simp [touched,hdec]
    rcases returnBuffer_moved ho.1.settled hi (fun hneed => ⟨ho.2 i hi hneed,hrender hdec hneed⟩)
      bValidPicture with ⟨hnot,-⟩ | ⟨-,flag,place,hm,-,-,hmark,hcase⟩
    · exact absurd (hnot.symm.trans hdec) (by simp)
    · refine h.moved hm.1 ?_ hothers
      have hhome := ho.home_of_touched hi htouched
      rcases h.of_touched ho.1.settled ho.1.small hi htouched with ⟨hneed,ht⟩ | ⟨hneed,ht⟩
      · obtain ⟨-,hplace,hcounts⟩ := hcase.resolve_left fun hbad => by simp [hneed] at hbad
        have ht' : tally' i = ⟨false,0,0,0⟩ := by simp [htally,ht,hcounts]
        rw [ht']
        exact .unmarked (hmark.trans hneed) hhome hplace
      · obtain ⟨-,hplace,hcounts⟩ := hcase.resolve_right fun hbad => by simp [hneed] at hbad
        have ht' : tally' i = ⟨true,1,0,0⟩ := by simp [htally,ht,hcounts]
        rw [ht']
        exact .queued (hmark.trans hneed) hplace

theorem Phases.returnPicture
    (htally : ∀ j, tally' j = if j = i then { tally j with entered := (tally j).entered +
      ((a.returnPicture i).1.counts.releaseBuffer-a.counts.releaseBuffer).toNat } else tally j) :
    (a.returnPicture i).1.Phases tally' := by
  rcases returnPicture_moved ho.1.settled hi with
    ⟨-,hsame⟩ | ⟨hrender,-,flag,place,hm,-,hdec,hvalid,hmark,hplace,-,hcounts⟩
  · exact h.of_same (by rw [hsame]) (by simp [htally,hsame])
  · have hothers (j : ℕ) (hj : j ≠ i) : tally' j = tally j := by simp [htally,hj]
    have htouched : (a.flag i).touched = true := by simp [touched,hrender]
    refine h.moved hm.1 ?_ hothers
    have hhome := ho.home_of_touched hi htouched
    rcases h.of_touched ho.1.settled ho.1.small hi htouched with ⟨hneed,ht⟩ | ⟨hneed,ht⟩
    · have ht' : tally' i = ⟨false,0,0,0⟩ := by simp [htally,ht,hcounts,hneed]
      rw [ht']
      exact .unmarked (hmark.trans hneed) hhome fun hbad => by simp [hplace.mp hbad] at hneed
    · cases hd : (a.flag i).bUsedByDecoder with
      | true =>
        have ht' : tally' i = ⟨true,0,0,0⟩ := by simp [htally,ht,hcounts,hd]
        rw [ht']
        refine .held (hmark.trans hneed) hhome ?_ (.inl (hdec.trans hd))
        exact hm.2.place_of_touched (by simp [touched,hdec,hd]) (hvalid.trans (ho.2 i hi hneed))
      | false =>
        have ht' : tally' i = ⟨true,1,0,0⟩ := by simp [htally,ht,hcounts,hd,hneed]
        rw [ht']
        exact .queued (hmark.trans hneed) (hplace.mpr ⟨hd,hneed⟩)

theorem Phases.returnForbidden (htag : (a.picture i).nID = i+frmForbidUseTag)
    (hneed : (a.flag i).bNeedRelease = false) :
    ((a.returnForbidden i).1.modifyPicture i
      fun pic => { pic with nID := pic.nID-frmForbidUseTag }).Phases tally := by
  obtain ⟨-,hm,-⟩ := returnForbidden_moved ho.1.settled hi htag
  refine h.moved hm.1 ?_ fun _ _ => rfl
  have hsmall := ho.1.small
  have hhome : (a.picture i).nID-frmForbidUseTag ≠ frmReleaseTag := by omega
  obtain ⟨place,hat,hok⟩ := ho.1.settled i hi
  have hphase := hat.phase h hi
  generalize tally i = t at hphase
  cases hphase with
  | unmarked _ _ _ => exact .unmarked hneed hhome (by simp)
  | held hmark _ _ _ | queued hmark _ | handed hmark _ =>
    exact absurd (hneed.symm.trans hmark) (by simp)
  | replaced _ _ hflags _ => exact .replaced hneed hhome hflags (by simp)

end

theorem Phases.requestRelease (h : a.Phases tally) (hl : Linked f a) (ho : a.Orderly gpu b ids)
    (htally : ∀ j, tally' j = if a.requestRelease.2 = some j then
      { tally j with handed := (tally j).handed+1 } else tally j) :
    a.requestRelease.1.Phases tally' := by
  rcases requestRelease_moved hl ho.1.settled ho.1.small with hsame | ⟨i,hi,hat,hsome,hm,-⟩
  · exact h.of_same (by rw [hsame]) (by simp [htally,hsame])
  · have hothers (j : ℕ) (hj : j ≠ i) : tally' j = tally j := by simp [htally,hsome,Ne.symm hj]
    refine h.moved hm.1 ?_ hothers
    have hhome : (a.picture i).nID = i := by
      obtain ⟨p,hp,hok⟩ := ho.1.settled i hi
      obtain rfl := hat.unique hp
      exact hok.home_of_queued
    have hsmall := ho.1.small
    have hphase := hat.phase h hi
    rw [htally,hsome,if_pos rfl]
    generalize tally i = t at hphase
    cases hphase with
    | unmarked _ _ hplace => exact absurd rfl hplace
    | held _ _ hplace _ => cases hplace
    | queued hmark _ => exact .handed hmark rfl
    | handed _ hid => omega
    | replaced _ _ _ hplace => exact absurd rfl hplace

theorem Phases.returnRelease (h : a.Phases tally) (ho : a.Orderly gpu b ids) (nBufId : ℤ)
    (bForbidUseFlag : Bool)
    (htally : ∀ j, tally' j = if (a.flag j).bNeedRelease = true ∧
        ((a.returnRelease nBufId bForbidUseFlag).flag j).bNeedRelease = false then
      { tally j with replaced := (tally j).replaced+1 } else tally j) :
    (a.returnRelease nBufId bForbidUseFlag).Phases tally' ∧
      ∀ j, (tally' j).replaced = (tally j).replaced+if a.findReleased = some j then 1 else 0 := by
  cases hfound : a.findReleased with
  | none =>
    have hsame : a.returnRelease nBufId bForbidUseFlag = a := by
      rw [Frames.returnRelease,hfound]
    have hrest (j : ℕ) : tally' j = tally j := by simp [htally,hsame]
    exact ⟨h.of_same hsame hrest,by simp [hrest]⟩
  | some i =>
    obtain ⟨hi,hneed,htag⟩ := findReleased_spec hfound
    obtain ⟨hfree,huntouched,hm,-⟩ :=
      returnRelease_moved ho.1.settled ho.1.small hfound nBufId bForbidUseFlag
    have hothers (j : ℕ) (hj : j ≠ i) : tally' j = tally j := by
      have hflag := hm.1.flag_of_ne hj
      have : ¬((a.flag j).bNeedRelease = true ∧
          ((a.returnRelease nBufId bForbidUseFlag).flag j).bNeedRelease = false) := by
        rw [hflag]
        simp
      rw [htally,if_neg this]
    have hself : tally' i = { tally i with replaced := (tally i).replaced+1 } := by
      rw [htally,if_pos ⟨hneed,by rw [hm.1.flag_self]⟩]
    refine ⟨h.moved hm.1 ?_ hothers,fun j => ?_⟩
    · have hphase := (at_none.mpr hfree).phase h hi
      have hsmall := ho.1.small
      have hid : (if bForbidUseFlag then (i : ℤ)+frmForbidUseTag else i) ≠ frmReleaseTag := by
        unfold frmForbidUseTag frmReleaseTag at *
        split_ifs <;> omega
      rw [hself]
      generalize tally i = t at hphase
      cases hphase with
      | unmarked hmark _ _ => exact absurd (hneed.symm.trans hmark) (by simp)
      | held _ hid _ _ => exact absurd htag hid
      | queued _ hplace => cases hplace
      | handed _ _ =>
        refine .replaced rfl hid huntouched ?_
        cases bForbidUseFlag <;> simp
      | replaced hmark _ _ _ => exact absurd (hneed.symm.trans hmark) (by simp)
    · by_cases hj : j = i
      · rw [hj,hself,if_pos rfl]
      · rw [hothers j hj,if_neg (by simpa using Ne.symm hj),Nat.add_zero]

end Frames

/-- The calls that keep a manager in order. The display binds each frame once, with ids other than
the one that means no buffer; the decoder shares no frame that the render has, and gives a marked
frame back after the render. -/
def Tidy (s : FbmSession) : FbmCall → Prop
  | .returnBuffer _ pVPicture _ => ∀ p ∈ pVPicture, (s.info.picture p).isSome = true ∧
      ∀ f ∈ s.info.fbm p.owner, (f.flag p.index).bUsedByDecoder = true →
        (f.flag p.index).bNeedRelease = true → (f.flag p.index).bUsedByRender = false
  | .shareBuffer _ pVPicture => ∀ p ∈ pVPicture, (s.info.picture p).isSome = true ∧
      ∀ f ∈ s.info.fbm p.owner, (f.flag p.index).bUsedByRender = false
  | .returnPicture _ pVPicture => ∀ p ∈ pVPicture, (s.info.picture p).isSome = true
  | .setFbmBufAddress nBufId _ => nBufId ≠ fbmNewDispInvalidTag ∧
      ∀ f ∈ s.info.fbm s.info.dispHandle, s.nValidBufNum < f.nMaxFrameNum
  | .returnReleasePicture nBufId _ => nBufId ≠ fbmNewDispInvalidTag
  | _ => True

instance (s : FbmSession) : ∀ call, Decidable (Tidy s call)
  | .returnBuffer .. | .shareBuffer .. | .returnPicture .. =>
    inferInstanceAs (Decidable (∀ _ ∈ _, _))
  | .setFbmBufAddress .. => inferInstanceAs (Decidable (_ ∧ _))
  | .returnReleasePicture .. => inferInstanceAs (Decidable (_ ≠ _))
  | .requestBuffer _ | .requestPicture _ | .flush _ | .setNewDispRelease |
    .requestReleasePicture => .isTrue trivial

structure Single (s : VideoFbmInfo) (f : Fbm) : Prop where
  first : s.fbm .pFbmFirst = some f
  second : s.fbm .pFbmSecond = none
  single : s.bTwoStreamShareOneFbm = false

namespace Single
variable {s : VideoFbmInfo} {f f' : Fbm}

section
variable (h : Single s f)
include h

theorem dispHandle : s.dispHandle = .pFbmFirst := by
  simp [VideoFbmInfo.dispHandle,h.second]

theorem isMinor (o : FbmHandle) : s.isMinor o = false := by
  simp [VideoFbmInfo.isMinor,h.single]

theorem setFbm (f' : Fbm) : Single (s.setFbm .pFbmFirst f') f' :=
  ⟨by simp [VideoFbmInfo.setFbm],by simp [VideoFbmInfo.setFbm,h.second],h.single⟩

theorem owner {p : PictureRef} (hp : (s.picture p).isSome = true) :
    p.owner = .pFbmFirst ∧ p.index < f.nMaxFrameNum := by
  obtain ⟨o,i⟩ := p
  cases o with
  | pFbmFirst => simpa [VideoFbmInfo.picture,h.first] using hp
  | pFbmSecond => simp [VideoFbmInfo.picture,h.second] at hp

theorem of_sameManagers {s' : VideoFbmInfo} (hs : SameManagers s s') : ∃ f', Single s' f' := by
  have hfirst := hs.isSome .pFbmFirst
  have hsecond := hs.isSome .pFbmSecond
  rw [h.first,Option.isSome_some] at hfirst
  rw [h.second,Option.isSome_none] at hsecond
  obtain ⟨f',hf'⟩ := Option.isSome_iff_exists.mp hfirst
  exact ⟨f',hf',by simpa using hsecond,hs.bTwoStreamShareOneFbm.trans h.single⟩

end

end Single

theorem orderly_closed (gpu : Bool) (b : ℕ) (ids : ℤ → Prop) :
    Closed fun _ a => a.Orderly gpu b ids where
  settled h := h.1.settled
  unqueued h := h.2
  small h := h.1.small
  status h i g hg := h.modifyStatus i g hg
  requestBuffer hl h := h.requestBuffer hl
  shareBuffer hi hunshown hmark h := h.shareBuffer hi hunshown hmark
  requestPicture hl h := h.requestPicture hl
  returnPicture hi h := h.returnPicture hi
  returnForbidden hi htag h := h.returnForbidden hi htag
  requestRelease hl h := h.requestRelease hl

structure FbmSession.Ready (s : FbmSession) : Prop where
  single : ∃ f, Single s.info f
  managers : Managed (fun _ a => a.Orderly true s.nValidBufNum (· ≠ fbmNewDispInvalidTag)) s.info

variable {s : FbmSession}

theorem FbmSession.Ready.of_keeps (h : s.Ready) {info : VideoFbmInfo} {n : ℕ}
    (hk : Keeps (fun _ a => a.Orderly true n (· ≠ fbmNewDispInvalidTag)) s.info info) :
    FbmSession.Ready ⟨info,n⟩ := by
  obtain ⟨f,hf⟩ := h.single
  exact ⟨hf.of_sameManagers hk.2,hk.1⟩

theorem FbmSession.Ready.step (h : s.Ready) {call : FbmCall} (hg : Tidy s call) :
    ∃ s', s.step call = some s' ∧ s'.Ready := by
  obtain ⟨f,hf⟩ := h.single
  have hm := h.managers
  have hP := orderly_closed true s.nValidBufNum (· ≠ fbmNewDispInvalidTag)
  have hshared : s.info.bTwoStreamShareOneFbm = true → (s.info.fbm .pFbmFirst).isSome = true :=
    fun _ => by simp [hf.first]
  cases call with
  | requestBuffer o =>
    exact of_call h.of_keeps <| fbmRequestBuffer_keeps hP hm o
  | returnBuffer o p bValidPicture =>
    exact of_call h.of_keeps <| fbmReturnBuffer_keeps hP hm hshared o p bValidPicture
      (fun p hp => (hg p hp).1)
      (G := fun flag => flag.bUsedByDecoder = true → flag.bNeedRelease = true →
        flag.bUsedByRender = false)
      (fun p hp => (hg p hp).2) fun _ _ _ hi ha hguard => ha.returnBuffer hi hguard bValidPicture
  | shareBuffer o p =>
    exact of_call h.of_keeps <| fbmShareBuffer_keeps hP hm o p (fun p hp => (hg p hp).1)
      fun p hp => (hg p hp).2
  | requestPicture o =>
    exact of_call h.of_keeps <| fbmRequestPicture_keeps hP hm o (by simp [hf.isMinor])
  | returnPicture o p =>
    cases o with
    | pFbmFirst =>
      exact of_call h.of_keeps <| fbmReturnPicture_keeps hP hm .pFbmFirst p hg
        fun p hp _ _ => .inr (hf.owner (hg p hp)).1
    | pFbmSecond => exact ⟨s,by simp [FbmSession.step,fbmReturnPicture,hf.second],h⟩
  | flush o =>
    obtain ⟨r,hr,hk⟩ := fbmFlush_keeps hm o fun _ g a hg hl ha => by
      obtain ⟨hplaced,-,hnil⟩ := Frames.flush_placed _ hl ha.1 rfl
      exact ⟨hplaced,hplaced.settled.unqueued hnil⟩
    exact ⟨_,congrArg (Option.map _) hr,h.of_keeps hk⟩
  | setFbmBufAddress nBufId bForbidUseFlag =>
    have hdisp := hf.dispHandle
    obtain ⟨a,hl,ha⟩ := hm _ f hf.first
    have hlt : s.nValidBufNum < a.max := hl.max ▸ hg.2 f (by rw [hdisp]; exact hf.first)
    have hothers (o : FbmHandle) (g : Fbm) (ho : o ≠ s.info.dispHandle)
        (hg : s.info.fbm o = some g) : ∃ a, Linked g a ∧
          a.Orderly true (s.nValidBufNum+1) (· ≠ fbmNewDispInvalidTag) := by
      rw [hdisp] at ho
      cases o with
      | pFbmFirst => exact absurd rfl ho
      | pFbmSecond => exact absurd (hf.second.symm.trans hg) (by simp)
    obtain ⟨info,hinfo,hk⟩ := fbmSetFbmBufAddress_keeps
      (P := fun _ a => a.Orderly true (s.nValidBufNum+1) (· ≠ fbmNewDispInvalidTag))
      (by rw [hdisp]; exact hf.first) hl hlt (ha.1.unbound.frames _ le_rfl hlt).1 nBufId
      bForbidUseFlag hothers (ha.bind hlt hg.1 bForbidUseFlag)
    exact ⟨_,congrArg (Option.map _) hinfo,h.of_keeps hk⟩
  | setNewDispRelease =>
    exact of_call h.of_keeps <| fbmSetNewDispRelease_keeps hm fun f a _ hl ha =>
      ha.setNewDispRelease hl (.inl (hf.isMinor _))
  | requestReleasePicture =>
    exact ⟨_,rfl,h.of_keeps (fbmRequestReleasePicture_keeps hP hm)⟩
  | returnReleasePicture nBufId bForbidUseFlag =>
    exact of_call h.of_keeps <| fbmReturnReleasePicture_keeps hP hm nBufId bForbidUseFlag
      fun _ _ ha => ha.returnRelease hg bForbidUseFlag

section Single
variable {s : VideoFbmInfo} {f : Fbm} {a : Frames} {gpu : Bool} {b : ℕ} {ids : ℤ → Prop}
  (hf : Single s f) (hl : Linked f a) (ho : a.Orderly gpu b ids)
include hf hl ho

theorem fbmReturnBuffer_single (h : FbmHandle) (pVPicture : Option PictureRef)
    (bValidPicture : Bool) (hpoints : ∀ p ∈ pVPicture, (s.picture p).isSome = true) :
    ∃ s', fbmReturnBuffer s h pVPicture bValidPicture = some s' ∧ (s' = s ∨
      ∃ i f', pVPicture = some ⟨.pFbmFirst,i⟩ ∧ i < a.max ∧ s' = s.setFbm .pFbmFirst f' ∧
        Linked f' (a.returnBuffer i bValidPicture)) := by
  cases h with
  | pFbmSecond => exact ⟨s,by simp [fbmReturnBuffer,hf.second],.inl rfl⟩
  | pFbmFirst =>
    cases pVPicture with
    | none => exact ⟨s,by simp [fbmReturnBuffer,hf.first],.inl rfl⟩
    | some p =>
      obtain ⟨pic,hpic⟩ := Option.isSome_iff_exists.mp (hpoints p rfl)
      simp only [fbmReturnBuffer,hf.first,hpic,Option.bind_some,returnBufferStream,hf.single,
        Bool.false_eq_true,if_false]
      cases hi : checkedIndex f .pFbmFirst p pic.nID with
      | none => exact ⟨s,rfl,.inl rfl⟩
      | some i =>
        obtain ⟨hlt,rfl⟩ := checkedIndex_spec hi
        rw [hl.max] at hlt
        obtain ⟨f',hf',hl'⟩ := hl.returnBuffer hlt (fun hdec hor =>
          ho.1.settled.free hlt (by simp [touched,hdec]) (hor.elim (ho.2 i hlt) id)) bValidPicture
        exact ⟨_,congrArg (Option.map _) hf',.inr ⟨i,f',rfl,hlt,rfl,hl'⟩⟩

theorem fbmReturnPicture_single (h : FbmHandle) (pVPicture : Option PictureRef)
    (hpoints : ∀ p ∈ pVPicture, (s.picture p).isSome = true) :
    ∃ r, fbmReturnPicture s h pVPicture = some r ∧ (r.1 = s ∨
      ∃ i f', pVPicture = some ⟨.pFbmFirst,i⟩ ∧ i < a.max ∧ r.1 = s.setFbm .pFbmFirst f' ∧
        (Linked f' (a.returnPicture i).1 ∨ (a.picture i).nID = i+frmForbidUseTag ∧
          Linked f' ((a.returnForbidden i).1.modifyPicture i
            fun pic => { pic with nID := pic.nID-frmForbidUseTag }))) := by
  cases h with
  | pFbmSecond => exact ⟨(s, 0),by simp only [fbmReturnPicture,hf.second],.inl rfl⟩
  | pFbmFirst =>
    cases pVPicture with
    | none => exact ⟨(s, 0),by simp only [fbmReturnPicture,hf.first],.inl rfl⟩
    | some p =>
      obtain ⟨howner,hindex₀⟩ := hf.owner (hpoints p rfl)
      obtain ⟨o,i⟩ := p
      obtain rfl : o = .pFbmFirst := howner
      have hpic : s.picture ⟨.pFbmFirst,i⟩ = some (a.picture i) := by
        simp [VideoFbmInfo.picture,hf.first,hl.picture,hindex₀]
      have hlt : i < a.max := hl.max ▸ hindex₀
      simp only [fbmReturnPicture,hf.first,hpic,Option.bind_some,returnPictureStream,
        hf.single,Bool.false_eq_true,if_false]
      by_cases htag : (a.picture i).nID ≥ f.nMaxFrameNum ∧ (a.picture i).nID ≥ frmForbidUseTag
      · have hid := ho.1.settled.tagged ho.1.small hlt htag.2
        have hindex : ((a.picture i).nID-frmForbidUseTag).toNat = i := by omega
        rw [if_pos htag,hindex,if_pos hindex₀]
        obtain ⟨f',hf',hl'⟩ := hl.returnForbidden hlt
          (ho.1.settled.away hlt (by rw [hid,frmForbidUseTag]; omega)).1
        rw [hf',(Frames.returnForbidden_moved ho.1.settled hlt hid).1]
        refine ⟨_,rfl,.inr ⟨i,_,rfl,hlt,?_,.inr ⟨hid,hl'.modifyPicture i _⟩⟩⟩
        simp [VideoFbmInfo.updatePicture,VideoFbmInfo.setFbm,Fbm.modifyPicture]
      · rw [if_neg htag]
        cases hi : checkedIndex f .pFbmFirst ⟨.pFbmFirst,i⟩ (a.picture i).nID with
        | none => exact ⟨_,rfl,.inl rfl⟩
        | some j =>
          obtain ⟨-,hij⟩ := checkedIndex_spec hi
          cases hij
          obtain ⟨f',hf',hl'⟩ := hl.returnPicture hlt fun hrender _ hvalid =>
            ho.1.settled.free hlt (by simp [touched,hrender]) hvalid
          exact ⟨_,congrArg (Option.map _) hf',.inr ⟨i,f',rfl,hlt,rfl,.inl hl'⟩⟩

end Single

inductive ReleaseCall
  | returnBuffer (h : FbmHandle) (pVPicture : Option PictureRef) (bValidPicture : Bool)
  | returnPicture (h : FbmHandle) (pVPicture : Option PictureRef)
  | requestReleasePicture
  | returnReleasePicture (nBufId : ℤ) (bForbidUseFlag : Bool)

def ReleaseCall.call : ReleaseCall → FbmCall
  | .returnBuffer h p bValidPicture => .returnBuffer h p bValidPicture
  | .returnPicture h p => .returnPicture h p
  | .requestReleasePicture => .requestReleasePicture
  | .returnReleasePicture nBufId bForbidUseFlag => .returnReleasePicture nBufId bForbidUseFlag

def FbmSession.manager (s : FbmSession) : Option Fbm := s.info.fbm s.info.dispHandle

/-- What happens to frame `i` in a call. It enters the release queue when the call given that frame
counts one more in `nReleaseBufferNum`, and is replaced when its mark goes. -/
def Tally.after (t : Tally) (s : FbmSession) (f f' : Fbm) (i : ℕ) : ReleaseCall → Tally
  | .returnBuffer _ p _ | .returnPicture _ p =>
    if p = some ⟨s.info.dispHandle,i⟩ then
      { t with entered := t.entered+(f'.nReleaseBufferNum-f.nReleaseBufferNum).toNat }
    else t
  | .requestReleasePicture =>
    if (fbmRequestReleasePicture s.info).2 = some ⟨s.info.dispHandle,i⟩ then
      { t with handed := t.handed+1 }
    else t
  | .returnReleasePicture _ _ =>
    if (f.flag i).bNeedRelease = true ∧ (f'.flag i).bNeedRelease = false then
      { t with replaced := t.replaced+1 }
    else t

def Fbm.outstanding (f : Fbm) : Bool :=
  (List.range f.nMaxFrameNum).any fun i => (f.pFrames i).vpicture.nID == frmReleaseTag

def ReleaseCall.offers (f : Fbm) : ReleaseCall → ℕ
  | .returnReleasePicture _ _ => if f.outstanding then 1 else 0
  | _ => 0

structure ReleaseWorld where
  session : FbmSession
  tally : ℕ → Tally
  returns : ℕ

variable (w : ReleaseWorld)

def ReleaseWorld.step (c : ReleaseCall) : Option ReleaseWorld :=
  w.session.manager.bind fun f => (w.session.step c.call).bind fun s' => s'.manager.map fun f' =>
    { session := s'
      tally := fun i => (w.tally i).after w.session f f' i c
      returns := w.returns+c.offers f }

/-- The world right after `FbmSetNewDispRelease`. A frame in the release queue has entered it,
and a frame that the display still has from an earlier release has been handed out. -/
def ReleaseWorld.start (s : FbmSession) (f : Fbm) : ReleaseWorld where
  session := s
  tally i :=
    { marked := (f.flag i).bNeedRelease
      entered := (walkList f.next f.nMaxFrameNum f.pReleaseBufferQueue).count i +
        if (f.pFrames i).vpicture.nID = frmReleaseTag then 1 else 0
      handed := if (f.pFrames i).vpicture.nID = frmReleaseTag then 1 else 0
      replaced := 0 }
  returns := 0

def Fbm.held (f : Fbm) (i : ℕ) : Bool :=
  (f.flag i).bUsedByDecoder || (f.flag i).bUsedByRender ||
    (f.pFrames i).vpicture.nID == i+frmForbidUseTag

/-- Each marked frame entered the release queue once, as soon as nobody held it and not before. It
was handed out at most once and replaced as often as handed out, but for the frames that the display
still has. -/
structure ReleaseWorld.Once (f : Fbm) : Prop where
  entered : ∀ i < f.nMaxFrameNum, (w.tally i).marked = true →
    (w.tally i).entered = if (w.tally i).replaced = 0 ∧ f.held i then 0 else 1
  handed : ∀ i < f.nMaxFrameNum, (w.tally i).marked = true →
    (w.tally i).handed ≤ 1 ∧ (w.tally i).handed = (w.tally i).replaced +
      if (f.pFrames i).vpicture.nID = frmReleaseTag then 1 else 0
  returns : ∑ i ∈ Finset.range f.nMaxFrameNum, (w.tally i).replaced = w.returns

/-- The decoder gives a marked frame back after the render has, and the render gives no frame
back that carries the forbid tag while it is marked. -/
def ReleaseTidy : ReleaseCall → Prop
  | .returnBuffer _ pVPicture _ => ∀ p ∈ pVPicture, (w.session.info.picture p).isSome = true ∧
      ∀ f ∈ w.session.info.fbm p.owner, (f.flag p.index).bUsedByDecoder = true →
        (f.flag p.index).bNeedRelease = true → (f.flag p.index).bUsedByRender = false
  | .returnPicture _ pVPicture => ∀ p ∈ pVPicture, (w.session.info.picture p).isSome = true ∧
      ∀ f ∈ w.session.info.fbm p.owner,
        (f.pFrames p.index).vpicture.nID < frmForbidUseTag ∨ (f.flag p.index).bNeedRelease = false
  | _ => True

instance (w : ReleaseWorld) (c : ReleaseCall) : Decidable (ReleaseTidy w c) := by
  cases c <;> unfold ReleaseTidy <;> infer_instance

structure ReleaseWorld.Inv (f : Fbm) (a : Frames) : Prop where
  single : Single w.session.info f
  linked : Linked f a
  orderly : ∃ b, a.Orderly true b fun _ => True
  phases : a.Phases w.tally
  returns : ∑ i ∈ Finset.range a.max, (w.tally i).replaced = w.returns

variable {w : ReleaseWorld} {f : Fbm} {a : Frames}

theorem ReleaseWorld.Inv.once (h : w.Inv f a) : w.Once f := by
  obtain ⟨b,ho⟩ := h.orderly
  have hsmall := ho.1.small
  have hphase (i : ℕ) (hi : i < f.nMaxFrameNum) : ∃ place, a.At i place ∧
      FrameOk i (a.flag i) (a.picture i).nID place ∧
      Phase i (a.flag i) (a.picture i).nID place (w.tally i) := by
    rw [h.linked.max] at hi
    obtain ⟨place,hat,hok⟩ := ho.1.settled i hi
    exact ⟨place,hat,hok,hat.phase h.phases hi⟩
  refine ⟨fun i hi hmarked => ?_, fun i hi hmarked => ?_, ?_⟩
  · obtain ⟨place,hat,hok,hp⟩ := hphase i hi
    have hheld : f.held i = ((a.flag i).bUsedByDecoder || (a.flag i).bUsedByRender ||
        (a.picture i).nID == i+frmForbidUseTag) := by
      rw [Fbm.held,h.linked.flag,h.linked.picture]
    rw [hheld]
    generalize w.tally i = t at hp hmarked
    cases hp with
    | unmarked _ _ _ => cases hmarked
    | held _ _ _ hby => exact (if_pos ⟨rfl,by simpa [or_assoc] using hby⟩).symm
    | queued _ hplace =>
      refine (if_neg fun hheld => ?_).symm
      have hflags := hok.queued (.inr hplace)
      have hhome := hok.away.resolve_right fun haway => by simp [haway.2.2] at hplace
      simp only [touched,Bool.or_eq_false_iff] at hflags
      simp [hflags,hhome,frmForbidUseTag] at hheld
    | handed _ hid =>
      refine (if_neg fun hheld => ?_).symm
      have hflags := (hok.away.resolve_left (by have := h.linked.max; omega)).2.1
      simp only [touched,Bool.or_eq_false_iff] at hflags
      simp only [hflags,hid,frmForbidUseTag,frmReleaseTag,Bool.or_self,Bool.false_or,
        beq_iff_eq,true_and] at hheld
      omega
    | replaced _ _ _ _ => rfl
  · obtain ⟨place,hat,hok,hp⟩ := hphase i hi
    rw [h.linked.picture]
    generalize w.tally i = t at hp hmarked
    cases hp with
    | unmarked _ _ _ => cases hmarked
    | held _ hid _ _ => simp [hid]
    | queued _ hplace =>
      have hhome := hok.away.resolve_right fun haway => by simp [haway.2.2] at hplace
      have hmax := h.linked.max
      have hid : (a.picture i).nID ≠ frmReleaseTag := by omega
      simp [hid]
    | handed _ hid => simp [hid]
    | replaced _ hid _ _ => simp [hid]
  · rw [h.linked.max]
    exact h.returns

theorem Single.manager (h : Single s.info f) : s.manager = some f := by
  rw [FbmSession.manager,h.dispHandle,h.first]

variable {c : ReleaseCall}

open ReleaseWorld

theorem ReleaseWorld.step_eq {s' : FbmSession} {f f' : Fbm} (h : Single w.session.info f)
    (hstep : w.session.step c.call = some s') (h' : Single s'.info f') :
    w.step c = some
      { session := s'
        tally := fun i => (w.tally i).after w.session f f' i c
        returns := w.returns+c.offers f } := by
  simp [step,h.manager,hstep,h'.manager]

def ReleaseCall.Gives (c : ReleaseCall) (p : Option PictureRef) : Prop :=
  (∃ o b, c = .returnBuffer o p b) ∨ ∃ o, c = .returnPicture o p

namespace ReleaseWorld.Inv
variable {w : ReleaseWorld} {f : Fbm} {a : Frames} (h : w.Inv f a)
include h

variable {p : Option PictureRef}

theorem unchanged (hc : c.Gives p) (hstep : w.session.step c.call = some w.session) :
    ∃ w', w.step c = some w' ∧ ∃ f a, w'.Inv f a := by
  have htally : (fun i => (w.tally i).after w.session f f i c) = w.tally := by
    funext i
    rcases hc with ⟨o,b,rfl⟩ | ⟨o,rfl⟩ <;> simp [Tally.after]
  have hoffers : c.offers f = 0 := by rcases hc with ⟨o,b,rfl⟩ | ⟨o,rfl⟩ <;> rfl
  refine ⟨_,step_eq h.single hstep h.single,f,a,?_⟩
  rw [htally,hoffers]
  exact h

theorem returned {i : ℕ} (hc : c.Gives (some ⟨.pFbmFirst,i⟩)) {f' : Fbm} {a' : Frames}
    (hstep : w.session.step c.call =
      some { w.session with info := w.session.info.setFbm .pFbmFirst f' })
    (hl : Linked f' a') (ho : ∃ b, a'.Orderly true b fun _ => True) (hmax : a'.max = a.max)
    (hphases : ∀ tally', (∀ j, tally' j = if j = i then { w.tally j with entered :=
      (w.tally j).entered+(a'.counts.releaseBuffer-a.counts.releaseBuffer).toNat }
        else w.tally j) → a'.Phases tally') :
    ∃ w', w.step c = some w' ∧ ∃ f a, w'.Inv f a := by
  have hcounts : f'.nReleaseBufferNum-f.nReleaseBufferNum =
      a'.counts.releaseBuffer-a.counts.releaseBuffer := by
    rw [← hl.counts,← h.linked.counts]
    rfl
  have hafter (j : ℕ) : (w.tally j).after w.session f f' j c = if j = i then
      { w.tally j with entered := (w.tally j).entered +
        (a'.counts.releaseBuffer-a.counts.releaseBuffer).toNat } else w.tally j := by
    rcases hc with ⟨o,b,rfl⟩ | ⟨o,rfl⟩ <;>
      simp [Tally.after,h.single.dispHandle,hcounts,eq_comm (a := i)]
  have hoffers : c.offers f = 0 := by rcases hc with ⟨o,b,rfl⟩ | ⟨o,rfl⟩ <;> rfl
  refine ⟨_,step_eq h.single hstep (h.single.setFbm f'),f',a',h.single.setFbm f',hl,ho,
    hphases _ hafter,?_⟩
  simp only [hafter,hmax,hoffers,Nat.add_zero,← h.returns]
  refine Finset.sum_congr rfl fun j _ => ?_
  split_ifs <;> rfl

variable {o : FbmHandle}

theorem returnBuffer {bValidPicture : Bool} (hg : ReleaseTidy w (.returnBuffer o p bValidPicture)) :
    ∃ w', w.step (.returnBuffer o p bValidPicture) = some w' ∧ ∃ f a, w'.Inv f a := by
  obtain ⟨b,ho⟩ := h.orderly
  obtain ⟨s',hs',hcase⟩ := fbmReturnBuffer_single h.single h.linked ho o p bValidPicture
    fun p hp => (hg p hp).1
  rcases hcase with rfl | ⟨i,f',rfl,hi,rfl,hl⟩
  · exact h.unchanged (.inl ⟨o,bValidPicture,rfl⟩) (congrArg (Option.map _) hs')
  · have hguard := (hg _ rfl).2 f h.single.first
    rw [h.linked.flag] at hguard
    have hmax : (a.returnBuffer i bValidPicture).max = a.max := by
      unfold Frames.returnBuffer
      dsimp only
      split_ifs <;> rfl
    exact h.returned (.inl ⟨o,bValidPicture,rfl⟩) (congrArg (Option.map _) hs') hl
      ⟨b,ho.returnBuffer hi hguard bValidPicture⟩ hmax
      fun _ htally => h.phases.returnBuffer ho hi hguard bValidPicture htally

theorem returnPicture (hg : ReleaseTidy w (.returnPicture o p)) :
    ∃ w', w.step (.returnPicture o p) = some w' ∧ ∃ f a, w'.Inv f a := by
  obtain ⟨b,ho⟩ := h.orderly
  obtain ⟨r,hr,hcase⟩ := fbmReturnPicture_single h.single h.linked ho o p fun p hp => (hg p hp).1
  rcases hcase with hsame | ⟨i,f',rfl,hi,hset,hl | ⟨htag,hl⟩⟩
  · refine h.unchanged (.inr ⟨o,rfl⟩) ((congrArg (Option.map _) hr).trans ?_)
    simp [hsame]
  · have hmax : (a.returnPicture i).1.max = a.max := by
      unfold Frames.returnPicture
      dsimp only
      split_ifs <;> rfl
    refine h.returned (.inr ⟨o,rfl⟩) ((congrArg (Option.map _) hr).trans ?_) hl
      ⟨b,ho.returnPicture hi⟩ hmax fun _ htally => h.phases.returnPicture ho hi htally
    simp [hset]
  · have hneed : (a.flag i).bNeedRelease = false := by
      have hguard := (hg _ rfl).2 f h.single.first
      rw [h.linked.flag,h.linked.picture,htag] at hguard
      exact hguard.resolve_left (by simp)
    obtain ⟨-,hm,hcounts⟩ := Frames.returnForbidden_moved ho.1.settled hi htag
    refine h.returned (.inr ⟨o,rfl⟩) ((congrArg (Option.map _) hr).trans ?_) hl
      ⟨b,ho.returnForbidden hi htag⟩ hm.1.max fun tally' htally => ?_
    · simp [hset]
    · have hsame : tally' = w.tally := by
        funext j
        simp [htally,Frames.modifyPicture,hcounts]
      rw [hsame]
      exact h.phases.returnForbidden ho hi htag hneed

theorem requestReleasePicture :
    ∃ w', w.step .requestReleasePicture = some w' ∧ ∃ f a, w'.Inv f a := by
  obtain ⟨b,ho⟩ := h.orderly
  obtain ⟨f',hf',hl⟩ := h.linked.requestRelease
  have hrequest : fbmRequestReleasePicture w.session.info =
      (w.session.info.setFbm .pFbmFirst f', a.requestRelease.2.map fun i => ⟨.pFbmFirst,i⟩) := by
    simp only [fbmRequestReleasePicture,h.single.dispHandle,h.single.first,hf']
  have hafter (j : ℕ) : (w.tally j).after w.session f f' j .requestReleasePicture =
      if a.requestRelease.2 = some j then { w.tally j with handed := (w.tally j).handed+1 }
      else w.tally j := by
    rw [Tally.after,hrequest,h.single.dispHandle]
    simp
  have hstep : w.session.step (ReleaseCall.call .requestReleasePicture) =
      some { w.session with info := w.session.info.setFbm .pFbmFirst f' } := by
    simp only [ReleaseCall.call,FbmSession.step,hrequest]
  have hmax : a.requestRelease.1.max = a.max := by
    unfold Frames.requestRelease
    split <;> rfl
  refine ⟨_,step_eq h.single hstep (h.single.setFbm f'),f',_,h.single.setFbm f',hl,
    ⟨b,ho.requestRelease h.linked⟩,h.phases.requestRelease h.linked ho hafter,?_⟩
  simp only [hafter,hmax,ReleaseCall.offers,Nat.add_zero,← h.returns]
  refine Finset.sum_congr rfl fun j _ => ?_
  split_ifs <;> rfl

theorem outstanding : f.outstanding = a.findReleased.isSome := by
  obtain ⟨b,ho⟩ := h.orderly
  rw [Bool.eq_iff_iff,Fbm.outstanding,Frames.findReleased,List.find?_isSome,List.any_eq_true,
    h.linked.max]
  constructor
  · rintro ⟨i,hi,htag⟩
    refine ⟨i,hi,?_⟩
    rw [h.linked.picture,beq_iff_eq] at htag
    obtain ⟨place,-,hphase⟩ := h.phases i (List.mem_range.mp hi)
    generalize w.tally i = t at hphase
    cases hphase with
    | unmarked _ hid _ | held _ hid _ _ => exact absurd htag hid
    | queued hmark _ | handed hmark _ => simp [hmark,htag]
    | replaced _ hid _ _ => exact absurd htag hid
  · rintro ⟨i,hi,hfound⟩
    refine ⟨i,hi,?_⟩
    rw [h.linked.picture]
    simp only [Bool.and_eq_true] at hfound
    exact hfound.2

theorem returnReleasePicture (nBufId : ℤ) (bForbidUseFlag : Bool) :
    ∃ w', w.step (.returnReleasePicture nBufId bForbidUseFlag) = some w' ∧ ∃ f a, w'.Inv f a := by
  obtain ⟨b,ho⟩ := h.orderly
  obtain ⟨f',hf',hl⟩ := h.linked.returnRelease nBufId bForbidUseFlag fun i hfound _ =>
    (Frames.returnRelease_moved ho.1.settled ho.1.small hfound nBufId bForbidUseFlag).1
  have hstep : w.session.step (ReleaseCall.call (.returnReleasePicture nBufId bForbidUseFlag)) =
      some { w.session with info := w.session.info.setFbm .pFbmFirst f' } := by
    simp [ReleaseCall.call,FbmSession.step,fbmReturnReleasePicture,h.single.dispHandle,
      h.single.first,hf']
  have hafter (j : ℕ) :
      (w.tally j).after w.session f f' j (.returnReleasePicture nBufId bForbidUseFlag) =
        if (a.flag j).bNeedRelease = true ∧
          ((a.returnRelease nBufId bForbidUseFlag).flag j).bNeedRelease = false then
        { w.tally j with replaced := (w.tally j).replaced+1 } else w.tally j := by
    rw [Tally.after,h.linked.flag,hl.flag]
  obtain ⟨hphases,hreplaced⟩ := h.phases.returnRelease ho nBufId bForbidUseFlag hafter
  refine ⟨_,step_eq h.single hstep (h.single.setFbm f'),f',_,h.single.setFbm f',hl,
    ⟨b,ho.returnRelease trivial bForbidUseFlag⟩,hphases,?_⟩
  have hmax : (a.returnRelease nBufId bForbidUseFlag).max = a.max := by
    unfold Frames.returnRelease Frames.bind
    cases a.findReleased with
    | none => rfl
    | some i => cases bForbidUseFlag <;> rfl
  simp only [hreplaced,hmax,ReleaseCall.offers,h.outstanding,Finset.sum_add_distrib,h.returns]
  cases hfound : a.findReleased with
  | none => simp
  | some i => simp [(Frames.findReleased_spec hfound).1]

end ReleaseWorld.Inv

theorem ReleaseWorld.Inv.step (h : ∃ f a, w.Inv f a) (hg : ReleaseTidy w c) :
    ∃ w', w.step c = some w' ∧ ∃ f a, w'.Inv f a := by
  obtain ⟨f,a,h⟩ := h
  cases c with
  | returnBuffer o p bValidPicture => exact h.returnBuffer hg
  | returnPicture o p => exact h.returnPicture hg
  | requestReleasePicture => exact h.requestReleasePicture
  | returnReleasePicture nBufId bForbidUseFlag => exact h.returnReleasePicture nBufId bForbidUseFlag

theorem Frames.Orderly.forget {gpu : Bool} {b : ℕ} {ids : ℤ → Prop} (h : a.Orderly gpu b ids) :
    a.Orderly gpu b fun _ => True :=
  ⟨{ h.1 with named := fun _ _ _ => trivial }, h.2⟩

theorem FbmSession.Ready.setNewDispRelease (h : s.Ready) :
    ∃ s' f', s.step .setNewDispRelease = some s' ∧ s'.manager = some f' ∧
      ∃ f a, (start s' f').Inv f a := by
  obtain ⟨f,hf⟩ := h.single
  obtain ⟨a,hl,ho⟩ := h.managers _ f hf.first
  obtain ⟨f',hf',hl'⟩ := hl.setNewDispRelease (by rw [hf.dispHandle]; exact hf.first)
  rw [hf.dispHandle] at hf'
  rw [hf.isMinor] at hl'
  have hs' := hf.setFbm f'
  have ho' : (a.setNewDispRelease false).Orderly true _ _ := ho.setNewDispRelease hl (.inl rfl)
  refine ⟨{ s with info := s.info.setFbm .pFbmFirst f' },f',congrArg (Option.map _) hf',
    Single.manager (s := { s with info := _ }) hs',f',_,hs',hl',⟨_,ho'.forget⟩,
    Frames.setNewDispRelease_phases hl ho fun i => ?_, by simp [start]⟩
  have hwalk : walkList f'.next f'.nMaxFrameNum f'.pReleaseBufferQueue =
      (a.setNewDispRelease false).queue .releaseBuffer :=
    walkList_eq (hl'.queues.chain .releaseBuffer) (Nat.le_of_lt_succ (hl'.length_lt .releaseBuffer))
  simp only [start,hwalk,hl'.flag,hl'.picture]

/-- The manager of a display for one stream is created and used as it should be. Then the display
takes its buffers back. In every run of the calls that follow, in which the decoder gives marked
frames back after the render and the render none that carries the forbid tag, no call goes wrong and
each marked frame is released once. -/
theorem frames_released_once (ci : FbmCreateInfo) (mem : CreateMemory) (f : Fbm)
    (hf : fbmCreateBuffer ci mem = some f) (hgpu : ci.usesGpuBuf = true)
    (hsmall : (ci.nFrameNum : ℤ) ≤ frmReleaseTag) (before : List FbmCall)
    (hbefore : Guarded FbmSession.step Tidy ⟨singleStream f,0⟩ before) :
    ∃ s s' f', runSteps FbmSession.step ⟨singleStream f,0⟩ before = some s ∧
      s.step .setNewDispRelease = some s' ∧ s'.manager = some f' ∧
      ∀ after, Guarded step ReleaseTidy (.start s' f') after →
        ∃ w g, runSteps step (.start s' f') after = some w ∧
          w.session.manager = some g ∧ w.Once g := by
  have hstart : FbmSession.Ready ⟨singleStream f,0⟩ := by
    refine ⟨⟨f,rfl,rfl,rfl⟩,fun o g hg => ?_⟩
    cases o with
    | pFbmSecond => cases hg
    | pFbmFirst =>
      cases hg
      have horder := Frames.created_orderly ci hsmall (· ≠ fbmNewDispInvalidTag)
      rw [hgpu,if_pos rfl] at horder
      exact ⟨_,fbmCreateBuffer_linked hf,horder⟩
  obtain ⟨s,hs,hready⟩ := runSteps_invariant FbmSession.Ready (fun _ _ hi ha => hi.step ha)
    before _ hstart hbefore
  obtain ⟨s',f',hs',hf',hinv⟩ := hready.setNewDispRelease
  refine ⟨s,s',f',hs,hs',hf',fun after hafter => ?_⟩
  obtain ⟨w,hw,g,a,hend⟩ := runSteps_invariant (fun w => ∃ f a, Inv w f a)
    (fun _ _ hi ha => Inv.step hi ha) after _ hinv hafter
  exact ⟨w,g,hw,hend.single.manager,hend.once⟩

def threeFrames : List FbmCall :=
  [.setFbmBufAddress 7 false,.setFbmBufAddress 8 true,.setFbmBufAddress 9 false,
    .requestBuffer .pFbmFirst,.shareBuffer .pFbmFirst (some ⟨.pFbmFirst,0⟩),
    .requestPicture .pFbmFirst]

def threeFramesReleased : List ReleaseCall :=
  [.requestReleasePicture,.returnReleasePicture 10 false,
    .returnPicture .pFbmFirst (some ⟨.pFbmFirst,0⟩),
    .returnBuffer .pFbmFirst (some ⟨.pFbmFirst,0⟩) true,.requestReleasePicture]

theorem frames_released_once_of_three :
    ∃ f s s' f' w g, fbmCreateBuffer ⟨3,false,true,.referenceDisp⟩ ⟨true,true,fun _ => true⟩ =
        some f ∧ runSteps FbmSession.step ⟨singleStream f,0⟩ threeFrames = some s ∧
      s.step .setNewDispRelease = some s' ∧ s'.manager = some f' ∧
      runSteps step (.start s' f') threeFramesReleased = some w ∧
      w.session.manager = some g ∧ w.Once g := by
  obtain ⟨s,s',f',hs,hs',hf',hafter⟩ := frames_released_once
    ⟨3,false,true,.referenceDisp⟩ ⟨true,true,fun _ => true⟩ _ rfl (by decide) (by decide)
    threeFrames (by decide +kernel)
  have htidy (s₀ : FbmSession) (hrun : runSteps FbmSession.step s₀ threeFrames = some s)
      (hcheck : ((runSteps FbmSession.step s₀ threeFrames).any fun s =>
        (s.step .setNewDispRelease).any fun s' => s'.manager.any fun f' =>
          Guarded step ReleaseTidy (.start s' f') threeFramesReleased) = true) :
      Guarded step ReleaseTidy (.start s' f') threeFramesReleased := by
    rw [hrun] at hcheck
    simpa [hs',hf'] using hcheck
  obtain ⟨w,g,hw,hg,honce⟩ := hafter _ (htidy _ hs (by decide +kernel))
  exact ⟨_,s,s',f',w,g,rfl,hs,hs',hf',hw,hg,honce⟩

/-- The decoder gives a marked frame back while the render has it: the frame enters the release
queue, and a second time when the render gives it back. -/
theorem released_while_shown :
    ∃ f s s' f' w g w', fbmCreateBuffer ⟨1,false,true,.referenceDisp⟩
        ⟨true,true,fun _ => true⟩ = some f ∧
      runSteps FbmSession.step ⟨singleStream f,0⟩
        [.setFbmBufAddress 7 false,.requestBuffer .pFbmFirst,
          .shareBuffer .pFbmFirst (some ⟨.pFbmFirst,0⟩),.requestPicture .pFbmFirst] = some s ∧
      s.step .setNewDispRelease = some s' ∧ s'.manager = some f' ∧
      (start s' f').step (.returnBuffer .pFbmFirst (some ⟨.pFbmFirst,0⟩) true) = some w ∧
      w.session.manager = some g ∧ (w.tally 0).entered = 1 ∧ g.held 0 = true ∧ ¬w.Once g ∧
      w.step (.returnPicture .pFbmFirst (some ⟨.pFbmFirst,0⟩)) = some w' ∧
      (w'.tally 0).entered = 2 := by
  refine ⟨_,_,_,_,_,_,_,rfl,rfl,rfl,rfl,rfl,rfl,by decide +kernel,by decide +kernel,
    fun h => ?_, rfl,by decide +kernel⟩
  exact absurd (h.entered 0 (by decide +kernel) (by decide +kernel)) (by decide +kernel)

end TinaPackage.FrameBuffer
