import TinaPackage.FbmFrames

/-! Where a frame may be. Every call moves one frame at a time, and what the flags and the id of
that frame allow does not depend on the others. -/
namespace TinaPackage.FrameBuffer
open Function FrameNodeFlag

namespace Frames

/-- Only frame `i` is different in `a'`: these are its flags, its picture and its queue. -/
structure Moved (a a' : Frames) (i : ℕ) (flag : FrameNodeFlag) (pic : VideoPicture)
    (place : Option QueueId) : Prop where
  max : a'.max = a.max
  useGpuBuf : a'.useGpuBuf = a.useGpuBuf
  flag : a'.flag = update a.flag i flag
  picture : a'.picture = update a.picture i pic
  mem : ∀ q j, j ∈ a'.queue q ↔ if j = i then place = some q else j ∈ a.queue q

/-- Frame `i` is in this queue and in no other. -/
def At (a : Frames) (i : ℕ) (place : Option QueueId) : Prop :=
  ∀ q, i ∈ a.queue q ↔ place = some q

variable {a : Frames} {i : ℕ}

theorem at_none : a.At i none ↔ a.Free i := by simp [At,Free]

theorem At.unique {p p' : Option QueueId} (h : a.At i p) (h' : a.At i p') : p = p' :=
  Option.ext fun q => (h q).symm.trans (h' q)

namespace Moved
variable {a a' : Frames} {i : ℕ} {flag : FrameNodeFlag} {pic : VideoPicture}
  {place : Option QueueId}

theorem refl (h : a.At i place) : Moved a a i (a.flag i) (a.picture i) place where
  max := rfl
  useGpuBuf := rfl
  flag := (update_eq_self i _).symm
  picture := (update_eq_self i _).symm
  mem q j := by
    split_ifs with hj
    · rw [hj,h q]
    · rfl

theorem dequeue {q : QueueId} {rest : List ℕ} (hq : a.queue q = i :: rest)
    (hfree : (a.setQueue q rest).Free i) :
    Moved a (a.setQueue q rest) i (a.flag i) (a.picture i) none where
  max := rfl
  useGpuBuf := rfl
  flag := (update_eq_self i _).symm
  picture := (update_eq_self i _).symm
  mem q' j := by
    split_ifs with hj
    · rw [hj]
      exact iff_of_false (hfree q') (by simp)
    · by_cases hqq : q' = q
      · subst hqq
        simp [setQueue,hq,hj]
      · simp [setQueue,hqq]

variable (h : Moved a a' i flag pic place)
include h

theorem modifyFlag (g : FrameNodeFlag → FrameNodeFlag) :
    Moved a (a'.modifyFlag i g) i (g flag) pic place where
  __ := h
  flag := by simp [Frames.modifyFlag,h.flag]

theorem modifyPicture (g : VideoPicture → VideoPicture) :
    Moved a (a'.modifyPicture i g) i flag (g pic) place where
  __ := h
  picture := by simp [Frames.modifyPicture,h.picture]

theorem recount (g : FrameCounts → FrameCounts) : Moved a (a'.recount g) i flag pic place :=
  { h with }

theorem at_self : a'.At i place := fun q => by rw [h.mem,if_pos rfl]

variable {j : ℕ}

theorem at_of_ne (hj : j ≠ i) (p : Option QueueId) : a'.At j p ↔ a.At j p := by
  simp only [At,h.mem,if_neg hj]

theorem enqueue (hplace : place = none) (q : QueueId) :
    Moved a (a'.enqueue q i) i flag pic (some q) where
  __ := h
  mem q' j := by
    have hmem := h.mem q' j
    by_cases hqq : q' = q
    · subst hqq
      by_cases hj : j = i
      · simp [Frames.enqueue,Frames.setQueue,hj]
      · simpa [Frames.enqueue,Frames.setQueue,hj] using hmem
    · have hother : j ∈ (a'.enqueue q i).queue q' ↔ j ∈ a'.queue q' := by
        simp [Frames.enqueue,Frames.setQueue,hqq]
      rw [hother,hmem]
      by_cases hj : j = i
      · simp [hj,hplace,Ne.symm hqq]
      · simp [hj]

theorem flag_self : a'.flag i = flag := by rw [h.flag,update_self]

theorem flag_of_ne (hj : j ≠ i) : a'.flag j = a.flag j := by
  rw [h.flag,update_of_ne hj]

theorem picture_self : a'.picture i = pic := by rw [h.picture,update_self]

theorem picture_of_ne (hj : j ≠ i) : a'.picture j = a.picture j := by
  rw [h.picture,update_of_ne hj]

end Moved

end Frames

/-- What flags, id and queue of frame `i` have to do with each other. A frame whose id carries a
tag is with the display. -/
@[mk_iff]
structure FrameOk (i : ℕ) (flag : FrameNodeFlag) (nID : ℤ) (place : Option QueueId) : Prop where
  valid : flag.bInValidPictureQueue = true ↔ place = some .validPicture
  queued : place = some .emptyBuffer ∨ place = some .releaseBuffer → flag.touched = false
  unshown : flag.bInValidPictureQueue = true → flag.bUsedByRender = false
  displayed : flag.bAlreadyDisplayed = true → flag.bUsedByDecoder = true ∧
    flag.bUsedByRender = false ∧ flag.bInValidPictureQueue = false
  away : nID = i ∨ (nID = i+frmForbidUseTag ∨ nID = frmReleaseTag) ∧ flag.touched = false ∧
    place = none

/-- A frame that has a buffer is in a queue, or held, or with the display. -/
structure FrameInUse (i : ℕ) (flag : FrameNodeFlag) (nID : ℤ) (place : Option QueueId) : Prop
    extends FrameOk i flag nID place where
  present : place = none → flag.touched = true ∨ nID ≠ i

variable {i : ℕ} {flag : FrameNodeFlag} {place : Option QueueId} {nID : ℤ}

namespace Frames

def FrameSettled (a : Frames) (i : ℕ) : Prop :=
  ∃ place, a.At i place ∧ FrameOk i (a.flag i) (a.picture i).nID place

def Settled (a : Frames) : Prop := ∀ i < a.max, a.FrameSettled i

variable {pic : VideoPicture} {a a' : Frames}

theorem Moved.settled (h : Moved a a' i flag pic place) (hs : a.Settled)
    (hok : FrameOk i flag pic.nID place) : a'.Settled := by
  intro j hj
  rw [h.max] at hj
  by_cases hji : j = i
  · subst hji
    exact ⟨place,h.at_self,by rwa [h.flag_self,h.picture_self]⟩
  · obtain ⟨p,hp,hjok⟩ := hs j hj
    exact ⟨p,(h.at_of_ne hji p).mpr hp,by rwa [h.flag_of_ne hji,h.picture_of_ne hji]⟩

/-- The frames from `b` on have not been bound to a buffer yet. -/
structure Unbound (a : Frames) (b : ℕ) : Prop where
  le : b ≤ a.max
  frames : ∀ i, b ≤ i → i < a.max → a.Free i ∧ (a.flag i).touched = false ∧ (a.picture i).nID = i

theorem Moved.unbound {i b : ℕ} (h : Moved a a' i flag pic place) (hb : a.Unbound b) (hi : i < b) :
    a'.Unbound b where
  le := h.max ▸ hb.le
  frames j hj hmax := by
    have hji : j ≠ i := by omega
    have hfree : a'.Free j ↔ a.Free j := by rw [← at_none,← at_none,h.at_of_ne hji]
    rw [hfree,h.flag_of_ne hji,h.picture_of_ne hji]
    exact hb.frames j hj (h.max ▸ hmax)

section
variable {a : Frames} {i b : ℕ} (hb : a.Unbound b) (hi : i < a.max)
include hb hi

theorem Unbound.lt_of_touched (h : (a.flag i).touched = true) : i < b := by
  by_contra hle
  have := (hb.frames i (by omega) hi).2.1
  rw [h] at this
  cases this

theorem Unbound.lt_of_mem {q : QueueId} (h : i ∈ a.queue q) : i < b := by
  by_contra hle
  exact (hb.frames i (by omega) hi).1 q h

theorem Unbound.lt_of_tagged (h : (a.picture i).nID ≠ i) : i < b := by
  by_contra hle
  exact h (hb.frames i (by omega) hi).2.2

end

def Settles (a a' : Frames) (i : ℕ) (flag : FrameNodeFlag) (pic : VideoPicture)
    (place : Option QueueId) : Prop :=
  Moved a a' i flag pic place ∧ FrameInUse i flag pic.nID place

end Frames

section
variable {i : ℕ} {flag : FrameNodeFlag} {nID : ℤ} {place : Option QueueId}
  (h : FrameOk i flag nID place)
include h

theorem FrameOk.place_of_touched (htouched : flag.touched = true)
    (hvalid : flag.bInValidPictureQueue = false) : place = none := by
  have hqueued := h.queued
  have hplace : place ≠ some .validPicture := fun hp => by
    rw [h.valid.mpr hp] at hvalid
    cases hvalid
  rw [htouched] at hqueued
  rcases place with _ | (_ | _ | _)
  · rfl
  · exact absurd (hqueued (.inl rfl)) (by simp)
  · exact absurd rfl hplace
  · exact absurd (hqueued (.inr rfl)) (by simp)

theorem FrameOk.undisplayed (hbusy : flag.bInValidPictureQueue = true ∨ flag.bUsedByRender = true) :
    flag.bAlreadyDisplayed = false := by
  by_contra hd
  obtain ⟨-,hrender,hvalid⟩ := h.displayed (by simpa using hd)
  simp [hrender,hvalid] at hbusy

theorem FrameOk.home_of_touched (htouched : flag.touched = true) : nID = i := by
  refine h.away.resolve_right fun haway => ?_
  rw [htouched] at haway
  cases haway.2.1

end

theorem FrameOk.home_of_queued {q : QueueId} (h : FrameOk i flag nID (some q)) : nID = i :=
  h.away.resolve_right fun haway => by cases haway.2.2

namespace Frames
variable {f : Fbm} {a : Frames} {i : ℕ}

theorem Settled.free (hs : a.Settled) (hi : i < a.max) (htouched : (a.flag i).touched = true)
    (hvalid : (a.flag i).bInValidPictureQueue = false) : a.Free i := by
  obtain ⟨place,hat,hok⟩ := hs i hi
  rw [hok.place_of_touched htouched hvalid] at hat
  exact at_none.mp hat

theorem Settled.head (hs : a.Settled) (hl : Linked f a) {q : QueueId} {rest : List ℕ}
    (hq : a.queue q = i :: rest) : i < a.max ∧ i ∈ a.queue q ∧ a.At i (some q) ∧
      FrameOk i (a.flag i) (a.picture i).nID (some q) := by
  have hmem : i ∈ a.queue q := by simp [hq]
  obtain ⟨place,hat,hok⟩ := hs i (hl.lt_max hmem)
  obtain rfl : place = some q := (hat _).mp hmem
  exact ⟨hl.lt_max hmem,hmem,hat,hok⟩

attribute [local simp] touched frameOk_iff

theorem requestBuffer_moved (hl : Linked f a) (hs : a.Settled) : a.requestBuffer = (a, none) ∨
    ∃ i < a.max, i ∈ a.queue .emptyBuffer ∧ (a.flag i).touched = false ∧
      a.requestBuffer.2 = some i ∧
      Settles a a.requestBuffer.1 i { a.flag i with bUsedByDecoder := true } (a.picture i) none ∧
      a.requestBuffer.1.counts = { a.counts with decoderHolding := a.counts.decoderHolding+1 } := by
  cases hq : a.queue .emptyBuffer with
  | nil => exact .inl (by rw [requestBuffer,hq])
  | cons i rest =>
    right
    obtain ⟨hi,hmem,-,hok⟩ := hs.head hl hq
    have huntouched := hok.queued (.inl rfl)
    rw [requestBuffer,hq]
    dsimp only
    rw [if_neg (by rw [setQueue,huntouched]; simp)]
    refine ⟨i,hi,hq ▸ hmem,huntouched,rfl,
      ⟨((Moved.dequeue hq (hl.free_of_dequeue hq)).recount _).modifyFlag
        fun flag => { flag with bUsedByDecoder := true },?_⟩,rfl⟩
    constructor <;> simp_all

attribute [local simp] recount modifyFlag

theorem returnBuffer_moved (hs : a.Settled) (hi : i < a.max)
    (hfit : (a.flag i).bNeedRelease = true →
      (a.flag i).bInValidPictureQueue = false ∧ (a.flag i).bUsedByRender = false)
    (bValidPicture : Bool) :
    (a.flag i).bUsedByDecoder = false ∧ a.returnBuffer i bValidPicture = a ∨
    (a.flag i).bUsedByDecoder = true ∧ ∃ flag place,
      Settles a (a.returnBuffer i bValidPicture) i flag (a.picture i) place ∧
      flag.bUsedByDecoder = false ∧ flag.bUsedByRender = (a.flag i).bUsedByRender ∧
      flag.bNeedRelease = (a.flag i).bNeedRelease ∧
      ((a.flag i).bNeedRelease = true ∧ place = some .releaseBuffer ∧
          (a.returnBuffer i bValidPicture).counts =
            { a.counts with releaseBuffer := a.counts.releaseBuffer+1 } ∨
        (a.flag i).bNeedRelease = false ∧ place ≠ some .releaseBuffer ∧
          (a.returnBuffer i bValidPicture).counts = { a.counts with
            decoderHolding := a.counts.decoderHolding-1
            waitForDisp := a.counts.waitForDisp-(a.flag i).bInValidPictureQueue.toInt +
              flag.bInValidPictureQueue.toInt }) := by
  obtain ⟨place,hat,hok⟩ := hs i hi
  have hback := (Moved.refl hat).modifyFlag fun flag => { flag with bUsedByDecoder := false }
  cases hdec : (a.flag i).bUsedByDecoder with
  | false => exact .inl ⟨rfl,by simp [returnBuffer,hdec]⟩
  | true =>
    right
    have htouched : (a.flag i).touched = true := by simp [hdec]
    refine ⟨rfl,?_⟩
    have hnone := hok.place_of_touched htouched
    simp only [returnBuffer,hdec,Bool.not_true,Bool.false_eq_true,if_false]
    split_ifs with hneed hvalid hbad hrender hshown hkeep
    · refine ⟨_,_,⟨((hback.recount _).enqueue (hnone (hfit hneed).1) .releaseBuffer).modifyFlag
        fun flag => { flag with bAlreadyDisplayed := false, bInValidPictureQueue := false },?_⟩,
        rfl,rfl,rfl,.inl ⟨hneed,rfl,rfl⟩⟩
      constructor <;> simp_all
    · -- a queued frame is neither shown nor displayed
      simp_all
    · refine ⟨_,_,⟨hback.recount _,?_⟩,rfl,rfl,rfl,
        .inr ⟨by simpa using hneed,by rw [hok.valid.mp hvalid]; simp,by simp
        [recount,modifyFlag]⟩⟩
      constructor <;> simp_all
    · have hplace := hnone (by simpa using hvalid)
      refine ⟨_,_,⟨hback.recount _,?_⟩,rfl,rfl,rfl,
        .inr ⟨by simpa using hneed,by simp [hplace],by simp⟩⟩
      have := hok.displayed
      constructor <;> simp_all
    · have hplace := hnone (by simpa using hvalid)
      refine ⟨_,_,⟨((hback.recount _).modifyFlag
        fun flag => { flag with bAlreadyDisplayed := false }).enqueue hplace .emptyBuffer,?_⟩,
        rfl,rfl,rfl,.inr ⟨by simpa using hneed,by simp,by simp [enqueue,setQueue]⟩⟩
      constructor <;> simp_all
    · have hplace := hnone (by simpa using hvalid)
      refine ⟨_,_,⟨(((hback.recount _).recount _).enqueue hplace .validPicture).modifyFlag
        fun flag => { flag with bInValidPictureQueue := true },?_⟩,
        rfl,rfl,rfl,.inr ⟨by simpa using hneed,by simp,by simp_all [enqueue,setQueue]⟩⟩
      constructor <;> simp_all
    · have hplace := hnone (by simpa using hvalid)
      refine ⟨_,_,⟨(hback.recount _).enqueue hplace .emptyBuffer,?_⟩,rfl,rfl,rfl,
        .inr ⟨by simpa using hneed,by simp,by simp [enqueue,setQueue]⟩⟩
      constructor <;> simp_all

theorem shareBuffer_moved (hs : a.Settled) (hi : i < a.max)
    (hunshown : (a.flag i).bUsedByRender = false) :
    a.shareBuffer i = a ∨
    (a.flag i).bUsedByDecoder = true ∧ (a.flag i).bInValidPictureQueue = false ∧
      Settles a (a.shareBuffer i) i { a.flag i with bInValidPictureQueue := true } (a.picture i)
        (some .validPicture) ∧
      (a.shareBuffer i).counts = { a.counts with waitForDisp := a.counts.waitForDisp+1 } := by
  obtain ⟨place,hat,hok⟩ := hs i hi
  simp only [shareBuffer]
  split_ifs with hrefused
  · exact .inl rfl
  · right
    simp only [Bool.or_eq_true,Bool.not_eq_true',not_or,Bool.not_eq_true,
      Bool.not_eq_false] at hrefused
    obtain ⟨⟨hdec,hvalid⟩,hshown⟩ := hrefused
    have htouched : (a.flag i).touched = true := by simp [hdec]
    refine ⟨hdec,hvalid,⟨(((Moved.refl hat).recount _).modifyFlag
      fun flag => { flag with bInValidPictureQueue := true }).enqueue
        (hok.place_of_touched htouched hvalid) .validPicture,?_⟩,rfl⟩
    constructor <;> simp_all

theorem requestPicture_moved (hl : Linked f a) (hs : a.Settled) : a.requestPicture = (a, none) ∨
    ∃ i < a.max, (a.flag i).bInValidPictureQueue = true ∧ (a.flag i).bUsedByRender = false ∧
      a.requestPicture.2 = some i ∧
      Settles a a.requestPicture.1 i
        { a.flag i with bInValidPictureQueue := false, bUsedByRender := true }
        { a.picture i with nBufStatus := (a.picture i).nBufStatus ||| majorDispUseFlag } none ∧
      a.requestPicture.1.counts = { a.counts with
        waitForDisp := a.counts.waitForDisp-1
        renderHolding := a.counts.renderHolding+1 } := by
  cases hq : a.queue .validPicture with
  | nil => exact .inl (by rw [requestPicture,hq])
  | cons i rest =>
    right
    obtain ⟨hi,-,-,hok⟩ := hs.head hl hq
    have hvalid := hok.valid.mpr rfl
    have hunshown := hok.unshown hvalid
    have hdisplayed := hok.undisplayed (.inl hvalid)
    rw [requestPicture,hq]
    dsimp only
    rw [if_neg (by simp [setQueue,hvalid,hunshown,hdisplayed])]
    refine ⟨i,hi,hvalid,hunshown,rfl,
      ⟨(((Moved.dequeue hq (hl.free_of_dequeue hq)).recount _).modifyFlag fun flag =>
        { flag with bInValidPictureQueue := false, bUsedByRender := true }).modifyPicture fun pic =>
          { pic with nBufStatus := pic.nBufStatus ||| majorDispUseFlag },?_⟩,rfl⟩
    constructor <;> simp_all

theorem returnPicture_moved (hs : a.Settled) (hi : i < a.max) :
    (a.flag i).bUsedByRender = false ∧ a.returnPicture i = (a, -1) ∨
    (a.flag i).bUsedByRender = true ∧ (a.returnPicture i).2 = 0 ∧ ∃ flag place,
      Settles a (a.returnPicture i).1 i flag (a.picture i) place ∧
      flag.bUsedByRender = false ∧ flag.bUsedByDecoder = (a.flag i).bUsedByDecoder ∧
      flag.bInValidPictureQueue = (a.flag i).bInValidPictureQueue ∧
      flag.bNeedRelease = (a.flag i).bNeedRelease ∧
      (place = some .releaseBuffer ↔
        (a.flag i).bUsedByDecoder = false ∧ (a.flag i).bNeedRelease = true) ∧
      ((a.flag i).bUsedByDecoder = false → (a.flag i).bNeedRelease = false →
        place = some .emptyBuffer) ∧
      (a.returnPicture i).1.counts = { a.counts with
        renderHolding := a.counts.renderHolding-1
        releaseBuffer := a.counts.releaseBuffer +
          (!(a.flag i).bUsedByDecoder && (a.flag i).bNeedRelease).toInt } := by
  obtain ⟨place,hat,hok⟩ := hs i hi
  cases hrender : (a.flag i).bUsedByRender with
  | false => exact .inl ⟨rfl,by simp [returnPicture,hrender]⟩
  | true =>
    right
    have hvalid : (a.flag i).bInValidPictureQueue = false := by
      cases hv : (a.flag i).bInValidPictureQueue with
      | false => rfl
      | true => exact absurd ((hok.unshown hv).symm.trans hrender) (by simp)
    have hdisplayed := hok.undisplayed (.inr hrender)
    have htouched : (a.flag i).touched = true := by simp [hrender]
    have hplace := hok.place_of_touched htouched hvalid
    have hback := ((Moved.refl hat).recount fun c =>
      { c with renderHolding := c.renderHolding-1 }).modifyFlag
        fun flag => { flag with bUsedByRender := false }
    refine ⟨rfl,?_⟩
    simp only [returnPicture,hrender,hvalid,hdisplayed,Bool.not_true,Bool.or_self,
      Bool.false_eq_true,if_false]
    split_ifs with hdec hneed
    · refine ⟨rfl,_,_,⟨hback.modifyFlag
        fun flag => { flag with bAlreadyDisplayed := true },?_⟩,rfl,rfl,hvalid,rfl,
        by simp [hplace,hdec],by simp [hdec],by simp [hdec]⟩
      constructor <;> simp_all
    · refine ⟨rfl,_,_,⟨hback.enqueue hplace .emptyBuffer,?_⟩,rfl,rfl,hvalid,rfl,
        by simpa using fun _ => hneed, by simp,?_⟩
      · constructor <;> simp_all
      · simp_all [enqueue,setQueue]
    · refine ⟨rfl,_,_,⟨(hback.recount _).enqueue hplace .releaseBuffer,?_⟩,rfl,rfl,hvalid,
        rfl,by simp_all,by simp_all,?_⟩
      · constructor <;> simp_all
      · simp_all [enqueue,setQueue]

theorem Settled.away (hs : a.Settled) (hi : i < a.max) (haway : (a.picture i).nID ≠ i) :
    a.Free i ∧ (a.flag i).touched = false := by
  obtain ⟨place,hat,hok⟩ := hs i hi
  obtain ⟨-,huntouched,rfl⟩ := hok.away.resolve_left haway
  exact ⟨at_none.mp hat,huntouched⟩

theorem Settled.tagged (hs : a.Settled) (hmax : (a.max : ℤ) ≤ frmReleaseTag) (hi : i < a.max)
    (htag : frmForbidUseTag ≤ (a.picture i).nID) : (a.picture i).nID = i+frmForbidUseTag := by
  obtain ⟨place,-,hok⟩ := hs i hi
  unfold frmForbidUseTag frmReleaseTag at *
  rcases hok.away with hid | ⟨hid | hid,-⟩
  · omega
  · exact hid
  · rw [hid] at htag
    exact absurd htag (by decide)

theorem returnForbidden_moved (hs : a.Settled) (hi : i < a.max)
    (htag : (a.picture i).nID = i+frmForbidUseTag) :
    (a.returnForbidden i).2 = 0 ∧ Settles a ((a.returnForbidden i).1.modifyPicture i
          fun pic => { pic with nID := pic.nID-frmForbidUseTag }) i (a.flag i)
        { a.picture i with nID := (a.picture i).nID-frmForbidUseTag } (some .emptyBuffer) ∧
      (a.returnForbidden i).1.counts = a.counts := by
  obtain ⟨hfree,huntouched⟩ := hs.away hi (by rw [htag,frmForbidUseTag]; omega)
  have hflags := huntouched
  simp only [touched,Bool.or_eq_false_iff] at hflags
  have hreturn : a.returnForbidden i = (a.enqueue .emptyBuffer i, 0) :=
    if_neg (by simp [hflags])
  rw [hreturn]
  refine ⟨rfl,⟨((Moved.refl (at_none.mpr hfree)).enqueue rfl .emptyBuffer).modifyPicture
    fun pic => { pic with nID := pic.nID-frmForbidUseTag },?_⟩,rfl⟩
  constructor <;> simp_all

theorem bind_moved (hfree : a.Free i) (huntouched : (a.flag i).touched = false) (nBufId : ℤ)
    (bForbidUseFlag : Bool) :
    Settles a (a.bind i nBufId bForbidUseFlag) i (a.flag i) { a.picture i with
          nID := if bForbidUseFlag then i+frmForbidUseTag else i, nBufId := nBufId }
        (if bForbidUseFlag then none else some .emptyBuffer) ∧
      (a.bind i nBufId bForbidUseFlag).counts = a.counts := by
  have hbound := (Moved.refl (at_none.mpr hfree)).modifyPicture
    fun pic => { pic with nID := i, nBufId := nBufId }
  have htag : (i : ℤ)+frmForbidUseTag ≠ i := by
    rw [frmForbidUseTag]
    omega
  cases bForbidUseFlag with
  | true =>
    refine ⟨⟨hbound.modifyPicture fun pic => { pic with nID := pic.nID+frmForbidUseTag },?_⟩,rfl⟩
    constructor <;> simp_all
  | false =>
    refine ⟨⟨hbound.enqueue rfl .emptyBuffer,?_⟩,rfl⟩
    constructor <;> simp_all

theorem requestRelease_moved (hl : Linked f a) (hs : a.Settled)
    (hmax : (a.max : ℤ) ≤ frmReleaseTag) :
    a.requestRelease = (a, none) ∨
    ∃ i < a.max, a.At i (some .releaseBuffer) ∧ a.requestRelease.2 = some i ∧
      Settles a a.requestRelease.1 i (a.flag i) { a.picture i with nID := frmReleaseTag } none ∧
      a.requestRelease.1.counts = { a.counts with releaseBuffer := a.counts.releaseBuffer-1 } := by
  cases hq : a.queue .releaseBuffer with
  | nil => exact .inl (by rw [requestRelease,hq])
  | cons i rest =>
    right
    obtain ⟨hi,-,hat,hok⟩ := hs.head hl hq
    have htag : frmReleaseTag ≠ i := by omega
    rw [requestRelease,hq]
    refine ⟨i,hi,hat,rfl,
      ⟨((Moved.dequeue hq (hl.free_of_dequeue hq)).recount _).modifyPicture
        fun pic => { pic with nID := frmReleaseTag },?_⟩,rfl⟩
    constructor <;> simp_all

theorem findReleased_spec (hfound : a.findReleased = some i) :
    i < a.max ∧ (a.flag i).bNeedRelease = true ∧ (a.picture i).nID = frmReleaseTag := by
  have hp := List.find?_some hfound
  simp only [Bool.and_eq_true,beq_iff_eq] at hp
  exact ⟨List.mem_range.mp (List.mem_of_find?_eq_some hfound),hp⟩

theorem returnRelease_moved (hs : a.Settled) (hmax : (a.max : ℤ) ≤ frmReleaseTag)
    (hfound : a.findReleased = some i) (nBufId : ℤ) (bForbidUseFlag : Bool) :
    a.Free i ∧ (a.flag i).touched = false ∧
    Settles a (a.returnRelease nBufId bForbidUseFlag) i { a.flag i with bNeedRelease := false }
        { a.picture i with
          nID := if bForbidUseFlag then i+frmForbidUseTag else i, nBufId := nBufId }
        (if bForbidUseFlag then none else some .emptyBuffer) ∧
      (a.returnRelease nBufId bForbidUseFlag).counts = a.counts := by
  obtain ⟨hi,hneed,htag⟩ := findReleased_spec hfound
  obtain ⟨hfree,huntouched⟩ := hs.away hi (by rw [htag]; omega)
  refine ⟨hfree,huntouched,?_⟩
  have hcleared := (Moved.refl (at_none.mpr hfree)).modifyFlag
    fun flag => { flag with bNeedRelease := false }
  have hbind := bind_moved (a := a.modifyFlag i fun flag => { flag with bNeedRelease := false })
    hfree (by rw [hcleared.flag_self]; exact huntouched) nBufId bForbidUseFlag
  rw [returnRelease,hfound]
  have hmoved := hbind.1.1
  have hok := hbind.1.2
  rw [hcleared.flag_self] at hmoved hok
  refine ⟨⟨⟨hmoved.max,hmoved.useGpuBuf,?_,hmoved.picture,hmoved.mem⟩,hok⟩,hbind.2⟩
  rw [hmoved.flag,hcleared.flag,update_idem]

theorem mark_settled (hs : a.Settled) : a.mark.Settled := by
  intro i hi
  obtain ⟨place,hat,hok⟩ := hs i hi
  refine ⟨place,hat,?_⟩
  have hflag : a.mark.flag i = { a.flag i with bNeedRelease := true } ∨
      a.mark.flag i = a.flag i := ite_eq_or_eq ..
  rcases hflag with hflag | hflag
  · rw [hflag]
    exact { hok with }
  · rw [hflag]
    exact hok

theorem newDispRelease_eq (xs : List ℕ) : ∀ (a : Frames), a.queue .emptyBuffer = xs →
    (∀ i ∈ xs, (a.flag i).touched = false) →
    a.newDispRelease xs = { a with
      queue := update (update a.queue .emptyBuffer []) .releaseBuffer (a.queue .releaseBuffer ++ xs)
      counts := { a.counts with releaseBuffer := a.counts.releaseBuffer+xs.length } } := by
  induction xs with
  | nil =>
    intro a hq _
    have hkeep : update a.queue .emptyBuffer [] = a.queue := by
      rw [← hq,update_eq_self]
    simp [newDispRelease,hkeep]
  | cons i rest ih =>
    intro a hq huntouched
    rw [newDispRelease]
    rw [if_neg (by rw [setQueue,huntouched i (List.mem_cons_self ..)]; simp),ih]
    · have hqueue : update (update (update (update a.queue .emptyBuffer rest) .releaseBuffer
            (a.queue .releaseBuffer ++ [i])) .emptyBuffer []) .releaseBuffer
              (a.queue .releaseBuffer ++ [i] ++ rest) =
          update (update a.queue .emptyBuffer []) .releaseBuffer
            (a.queue .releaseBuffer ++ i :: rest) := by
        funext q
        cases q <;> simp
      simp [enqueue,setQueue] at hqueue ⊢
      exact ⟨hqueue,by omega⟩
    · simp [enqueue,setQueue]
    · exact fun j hj => huntouched j (List.mem_cons_of_mem _ hj)

theorem Settled.untouched_of_mem (hl : Linked f a) (hs : a.Settled)
    (hmem : i ∈ a.queue .emptyBuffer) : (a.flag i).touched = false := by
  obtain ⟨place,hat,hok⟩ := hs i (hl.lt_max hmem)
  exact hok.queued (.inl ((hat _).mp hmem))

theorem newDispRelease_settled (hl : Linked f a) (hs : a.Settled) :
    (a.newDispRelease (a.queue .emptyBuffer)).Settled := by
  rw [newDispRelease_eq _ a rfl fun i hi => hs.untouched_of_mem hl hi]
  intro i hi
  obtain ⟨place,hat,hok⟩ := hs i hi
  by_cases hempty : place = some .emptyBuffer
  · subst hempty
    have hmem := (hat .emptyBuffer).mpr rfl
    refine ⟨some .releaseBuffer,fun q => ?_, ?_⟩
    · cases q with
      | emptyBuffer => simp
      | validPicture => simpa using (hat .validPicture).not.mpr (by simp)
      | releaseBuffer => simp [hmem]
    · constructor <;> simp_all
  · have hnot : i ∉ a.queue .emptyBuffer := (hat .emptyBuffer).not.mpr hempty
    refine ⟨place,fun q => ?_, hok⟩
    cases q with
    | emptyBuffer => simp [hempty]
    | validPicture => simpa using hat .validPicture
    | releaseBuffer => simpa [hnot] using hat .releaseBuffer

end Frames

end TinaPackage.FrameBuffer
