import TinaPackage.FbmOrder

/-! Where the frames of a manager are as long as none is released, and how many the manager
counts in its queues. -/
namespace TinaPackage.FrameBuffer
open Option

structure Numbered (f : Fbm) (a : Frames) : Prop where
  empty : f.nEmptyBufferNum = (a.queue .emptyBuffer).length
  valid : f.nValidPictureNum = (a.queue .validPicture).length

section Numbers
variable {f f' : Fbm} {a : Frames} {q : QueueId} {i : ℕ}

theorem fbmEnqueue_numbers (h : fbmEnqueue f q i = some f') :
    f'.nEmptyBufferNum = f.nEmptyBufferNum ∧ f'.nValidPictureNum = f.nValidPictureNum := by
  unfold fbmEnqueue at h
  split at h
  · cases h
    cases q <;> exact ⟨rfl,rfl⟩
  · obtain ⟨last,-,rfl⟩ := map_eq_some_iff.mp h
    exact ⟨rfl,rfl⟩

theorem fbmDequeue_numbers (h : fbmDequeue f q = some (i, f')) :
    f'.nEmptyBufferNum = f.nEmptyBufferNum ∧ f'.nValidPictureNum = f.nValidPictureNum := by
  unfold fbmDequeue at h
  split at h
  · cases h
  · cases h
    cases q <;> exact ⟨rfl,rfl⟩

namespace Numbered

attribute [local simp] Frames.modifyFlag Frames.setQueue Frames.recount Frames.enqueue
  Frames.modifyPicture

section
variable (h : Numbered f a) (hl : Linked f a)
include h hl

theorem requestBuffer (hs : a.Settled) {r : Option ℕ} (hf : requestBufferLocked f = (f', r)) :
    Numbered f' a.requestBuffer.1 := by
  rw [requestBufferLocked] at hf
  rw [Frames.requestBuffer]
  cases hq : a.queue .emptyBuffer with
  | nil =>
    rw [hl.dequeue_nil hq] at hf
    cases hf
    exact h
  | cons i rest =>
    obtain ⟨f₁,hd,hl₁⟩ := hl.dequeue hq
    have huntouched : (a.flag i).touched = false := hs.untouched_of_mem hl (by simp [hq])
    have hempty := h.empty
    rw [hq,List.length_cons] at hempty
    obtain ⟨he,hv⟩ := fbmDequeue_numbers hd
    have hnot : ¬((a.setQueue .emptyBuffer rest).flag i).touched = true := by
      simp [huntouched]
    simp only [hd,hl₁.flag] at hf
    rw [if_neg (show ¬(_ || _ || _ || _) = true from hnot)] at hf
    cases hf
    simp only [if_neg hnot]
    constructor
    · simp [he,hempty]
    · simp [hv,h.valid]

theorem returnBuffer {bValidPicture : Bool} (hf : returnBufferLocked f i bValidPicture = some f') :
    Numbered f' (a.returnBuffer i bValidPicture) := by
  obtain ⟨hempty,hvalid⟩ := h
  have hflag : (f.modifyFlag i fun flag => { flag with bUsedByDecoder := false }).flag i =
      { a.flag i with bUsedByDecoder := false } := by
    rw [modifyFlag_flag,Function.update_self,hl.flag]
  simp only [returnBufferLocked,Frames.returnBuffer,hflag,hl.flag] at hf ⊢
  split_ifs at hf ⊢
  all_goals
    first
    | (cases hf
       exact ⟨hempty,hvalid⟩)
    | (obtain ⟨f₁,hq,rfl⟩ := map_eq_some_iff.mp hf
       obtain ⟨he,hv⟩ := fbmEnqueue_numbers hq
       constructor
       · simp [he,hempty]
       · simp [hv,hvalid])

theorem shareBuffer (hf : shareBufferLocked f i = some f') : Numbered f' (a.shareBuffer i) := by
  obtain ⟨hempty,hvalid⟩ := h
  simp only [shareBufferLocked,Frames.shareBuffer,hl.flag] at hf ⊢
  split_ifs at hf ⊢
  · cases hf
    exact ⟨hempty,hvalid⟩
  · obtain ⟨f₁,hq,rfl⟩ := map_eq_some_iff.mp hf
    obtain ⟨he,hv⟩ := fbmEnqueue_numbers hq
    constructor
    · simp [he,hempty]
    · simp [hv,hvalid]

end

attribute [local simp] Fbm.modifyStatus Fbm.modifyFrame

section
variable (h : Numbered f a) (hl : Linked f a)
include h hl

theorem requestPicture (hs : a.Settled) {r : Option ℕ} (hf : requestPictureLocked f = (f', r)) :
    Numbered f' a.requestPicture.1 := by
  rw [requestPictureLocked] at hf
  rw [Frames.requestPicture]
  cases hq : a.queue .validPicture with
  | nil =>
    rw [hl.dequeue_nil hq] at hf
    cases hf
    exact h
  | cons i rest =>
    have hmem : i ∈ a.queue .validPicture := by simp [hq]
    obtain ⟨place,hat,hok⟩ := hs i (hl.lt_max hmem)
    have hvalid := hok.valid.mpr ((hat _).mp hmem)
    have hshown := hok.undisplayed (.inl hvalid)
    obtain ⟨f₁,hd,hl₁⟩ := hl.dequeue hq
    have hnum := h.valid
    rw [hq,List.length_cons] at hnum
    obtain ⟨he,hv⟩ := fbmDequeue_numbers hd
    simp only [hd,hl₁.flag,Frames.setQueue,hvalid,hok.unshown hvalid,hshown,Bool.not_true,
      Bool.or_self,Bool.false_eq_true,if_false] at hf ⊢
    cases hf
    constructor
    · simp [Fbm.modifyFlag,he,h.empty]
    · simp [Fbm.modifyFlag,hv,hnum]

theorem returnPicture {r : ℤ} (hf : returnPictureLocked f i = some (f', r)) :
    Numbered f' (a.returnPicture i).1 := by
  obtain ⟨hempty,hvalid⟩ := h
  simp only [returnPictureLocked,Frames.returnPicture,hl.flag] at hf ⊢
  split_ifs at hf ⊢
  · cases hf
    exact ⟨hempty,hvalid⟩
  · cases hf
    exact ⟨hempty,hvalid⟩
  all_goals
    obtain ⟨f₁,hq,heq⟩ := map_eq_some_iff.mp hf
    cases heq
    obtain ⟨he,hv⟩ := fbmEnqueue_numbers hq
    constructor
    · simp [he,hempty]
    · simp [hv,hvalid]

theorem flushOne {rest : List ℕ} (hq : a.queue .validPicture = i :: rest) {f₁ : Fbm}
    (hd : fbmDequeue f .validPicture = some (i, f₁)) {r : Bool}
    (hf : FrameBuffer.flushOne f₁ i = some (f', r)) :
    Numbered f' ((a.setQueue .validPicture rest).flushOne i).1 := by
  obtain ⟨g,hd',hl₁⟩ := hl.dequeue hq
  obtain rfl : g = f₁ := (Prod.mk.inj (some.inj (hd'.symm.trans hd))).2
  obtain ⟨he,hv⟩ := fbmDequeue_numbers hd
  have hempty := he.trans h.empty
  have hvalid := hv.trans h.valid
  rw [hq,List.length_cons] at hvalid
  have hcleared := (hl₁.recount id { g with nValidPictureNum := g.nValidPictureNum-1 }
    ⟨rfl,rfl,rfl,rfl⟩ rfl).modifyPicture i fun pic => { pic with nBufStatus := 0 }
  have hflag : ({ g with nValidPictureNum := g.nValidPictureNum-1 }.modifyStatus i
      fun _ => 0).flag i = a.flag i := congrFun hcleared.flag i
  have hkept : ((a.setQueue .validPicture rest).modifyPicture i
      fun pic => { pic with nBufStatus := 0 }).flag i = a.flag i := rfl
  simp only [FrameBuffer.flushOne,Frames.flushOne,hflag,hkept] at hf ⊢
  split_ifs at hf ⊢
  · cases hf
    constructor
    · simp [hempty]
    · simp [hvalid]
  · obtain ⟨f₂,hq₂,heq⟩ := map_eq_some_iff.mp hf
    cases heq
    obtain ⟨he₂,hv₂⟩ := fbmEnqueue_numbers hq₂
    constructor
    · simp [he₂,hempty]
    · simp [hv₂,hvalid]
  · cases hf
    constructor
    · simp [hempty]
    · simp [hvalid]

end

end Numbered

theorem enqueueAll_numbers (q : QueueId) (xs : List ℕ) :
    ∀ {f f' : Fbm}, enqueueAll f q xs = some f' → f'.nValidPictureNum = f.nValidPictureNum := by
  induction xs with
  | nil =>
    intro f f' h
    cases h
    rfl
  | cons i rest ih =>
    intro f f' h
    obtain ⟨f₁,h₁,h'⟩ := bind_eq_some_iff.mp h
    exact (ih h').trans (fbmEnqueue_numbers h₁).2

theorem fbmCreateBuffer_numbered {ci : FbmCreateInfo} {mem : CreateMemory}
    (h : fbmCreateBuffer ci mem = some f) : Numbered f (.created ci) := by
  simp only [fbmCreateBuffer] at h
  split_ifs at h with hmem hpics hgpu
  · cases h
    constructor <;> simp [Frames.created,hgpu]
  · obtain ⟨f₁,hq,rfl⟩ := map_eq_some_iff.mp h
    have hv := enqueueAll_numbers _ _ hq
    constructor
    · simp [Frames.created,hgpu]
    · simp [Frames.created,hv]

end Numbers

namespace Frames

/-- The frames of a manager from which the display has not taken any back. With `bound` false the
display has not bound buffers to the frames either, and they are in no queue. -/
structure Sited (a : Frames) (bound : Bool) : Prop where
  settled : a.Settled
  home : ∀ i, (a.picture i).nID = i
  unmarked : ∀ i < a.max, (a.flag i).bNeedRelease = false
  kept : ∀ i, i ∉ a.queue .releaseBuffer
  present : bound = true → ∀ i < a.max, a.Free i → (a.flag i).touched = true ∨ (a.picture i).nID ≠ i
  unbound : bound = false → ∀ i < a.max, a.Free i ∧ (a.flag i).touched = false

namespace Sited
variable {f f' : Fbm} {a a' : Frames} {bound : Bool} {i : ℕ}

theorem settles (h : a.Sited bound) {flag : FrameNodeFlag} {pic : VideoPicture}
    {place : Option QueueId} (hm : Settles a a' i flag pic place)
    (hbound : bound = true) (hneed : flag.bNeedRelease = false) (hid : pic.nID = i)
    (hplace : place ≠ some .releaseBuffer) : a'.Sited bound where
  settled := hm.1.settled h.settled hm.2.toFrameOk
  home j := by
    by_cases hj : j = i
    · rw [hj,hm.1.picture_self,hid]
    · rw [hm.1.picture_of_ne hj,h.home j]
  unmarked j hmax := by
    rw [hm.1.max] at hmax
    by_cases hj : j = i
    · rw [hj,hm.1.flag_self,hneed]
    · rw [hm.1.flag_of_ne hj,h.unmarked j hmax]
  kept j := by
    rw [hm.1.mem]
    by_cases hj : j = i
    · rwa [if_pos hj]
    · rw [if_neg hj]
      exact h.kept j
  present _ j hmax hfree := hm.present (h.present hbound) (.inl (hm.1.max ▸ hmax)) hfree
  unbound hb := by
    rw [hbound] at hb
    cases hb

section
variable (h : a.Sited bound) (hi : i < a.max)
include h hi

theorem bound_of_touched (htouched : (a.flag i).touched = true) : bound = true := by
  by_contra hb
  rw [(h.unbound (by simpa using hb) i hi).2] at htouched
  cases htouched

theorem bound_of_mem {q : QueueId} (hmem : i ∈ a.queue q) : bound = true := by
  by_contra hb
  exact (h.unbound (by simpa using hb) i hi).1 q hmem

theorem mem_empty_iff :
    i ∈ a.queue .emptyBuffer ↔ bound = true ∧ (a.flag i).bUsedByDecoder = false ∧
      (a.flag i).bUsedByRender = false ∧ (a.flag i).bInValidPictureQueue = false := by
  obtain ⟨place,hat,hok⟩ := h.settled i hi
  constructor
  · intro hmem
    have huntouched := hok.queued (.inl ((hat _).mp hmem))
    simp only [FrameNodeFlag.touched,Bool.or_eq_false_iff] at huntouched
    exact ⟨h.bound_of_mem hi hmem,huntouched.1.1.1,huntouched.1.2,huntouched.1.1.2⟩
  · rintro ⟨hb,hdec,hrender,hvalid⟩
    rcases place with _ | (_ | _ | _)
    · -- a frame in no queue is held, and only a held frame is marked as displayed
      have htouched := (h.present hb i hi (at_none.mp hat)).resolve_right (by simp [h.home i])
      simp only [FrameNodeFlag.touched,hdec,hvalid,hrender,Bool.or_self,Bool.false_or] at htouched
      rw [(hok.displayed htouched).1] at hdec
      cases hdec
    · exact (hat _).mpr rfl
    · rw [hok.valid.mpr rfl] at hvalid
      cases hvalid
    · exact absurd ((hat _).mpr rfl) (h.kept i)

theorem mem_valid_iff : i ∈ a.queue .validPicture ↔ (a.flag i).bInValidPictureQueue = true := by
  obtain ⟨place,hat,hok⟩ := h.settled i hi
  rw [hat,hok.valid]

end

theorem flush (fuel : ℕ) : ∀ (xs : List ℕ) {f : Fbm} {a : Frames}, Linked f a → a.Sited bound →
    Numbered f a → a.queue .validPicture = xs → xs.length < fuel →
    ∃ f', flushLocked fuel f = some f' ∧ Linked f' (a.flush xs) ∧ (a.flush xs).Sited bound ∧
      Numbered f' (a.flush xs) ∧ Kept a (a.flush xs) := by
  induction fuel with
  | zero => exact fun _ _ _ _ _ _ _ hfuel => absurd hfuel (Nat.not_lt_zero _)
  | succ fuel ih =>
    intro xs f a hl h hn hq hfuel
    cases xs with
    | nil =>
      refine ⟨f,?_,hl,h,hn,.refl a⟩
      rw [flushLocked,hl.dequeue_nil hq]
    | cons i rest =>
      have hmem : i ∈ a.queue .validPicture := by simp [hq]
      have hi := hl.lt_max hmem
      obtain ⟨-,hrender,htrue,flag,place,hm,hd,hr,hneed,hplace⟩ :=
        flushOne_moved hl h.settled hq
      obtain ⟨f₁,hf₁,hl₁⟩ := hl.dequeue hq
      obtain ⟨f₂,hf₂,hl₂⟩ := hl₁.flushOne hi (hl.free_of_dequeue hq)
      have hsited := h.settles hm (h.bound_of_mem hi hmem) (hneed.trans (h.unmarked i hi))
        (h.home i) hplace
      have hrest : ((a.setQueue .validPicture rest).flushOne i).1.queue .validPicture = rest := by
        simp [flushOne_validPicture,setQueue]
      obtain ⟨f',hf',hl',h',hn',hkept⟩ := ih rest hl₂ hsited (hn.flushOne hl hq hf₁ hf₂) hrest
        (Nat.lt_of_succ_lt_succ hfuel)
      rw [htrue] at hf₂
      have hflush : a.flush (i :: rest) =
          ((a.setQueue .validPicture rest).flushOne i).1.flush rest := by
        rw [Frames.flush]
        generalize (a.setQueue .validPicture rest).flushOne i = r at htrue
        obtain ⟨a₂,continues⟩ := r
        obtain rfl : continues = true := htrue
        rfl
      rw [hflush]
      refine ⟨f',?_,hl',h',hn',(hm.1.kept hd (hr.trans hrender.symm) hneed rfl ?_).trans hkept⟩
      · rw [flushLocked,hf₁]
        simp only [hf₂]
        exact hf'
      · exact iff_of_false hplace (h.kept i)

theorem created (ci : FbmCreateInfo) : (Frames.created ci).Sited (!ci.usesGpuBuf) where
  settled := created_settled ci
  home _ := rfl
  unmarked _ _ := rfl
  kept := by simp [Frames.created]
  present hb i hi hfree := by
    have hgpu : ci.usesGpuBuf = false := by simpa using hb
    have hi' : i < ci.nFrameNum := hi
    exact absurd (hfree .emptyBuffer) (by simp [Frames.created,hgpu,hi'])
  unbound hb i _ := by
    have hgpu : ci.usesGpuBuf = true := by simpa using hb
    exact ⟨by simp [Free,Frames.created,hgpu],rfl⟩

end Sited

end Frames

end TinaPackage.FrameBuffer
