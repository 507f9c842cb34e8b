import TinaPackage.Mp4Model
import TinaPackage.SpillCache

/-! What the caches of the MP4 muxer hold. A table whose entries are counted when
they are written is a list of words, the oldest pages of it in the temporary file. -/
namespace TinaPackage.Mp4
open Function List Nat

theorem cacheCap_pos (id : MuxChunkID) : 0 < cacheCap id := by
  cases id <;> decide

theorem tinyPageSize_dvd_cacheCap (id : MuxChunkID) : tinyPageSize ∣ cacheCap id := by
  cases id <;> decide

theorem tinyPageSize_le_cacheCap (id : MuxChunkID) : tinyPageSize ≤ cacheCap id :=
  le_of_dvd (cacheCap_pos id) (tinyPageSize_dvd_cacheCap id)

theorem cacheStart_add_ne {t u : TableKey} (h : u ≠ t) {i j : ℕ} (hi : i < cacheCap u.1)
    (hj : j < cacheCap t.1) : cacheStart u+i ≠ cacheStart t+j := by
  obtain ⟨id,s⟩ := t
  obtain ⟨id',s'⟩ := u
  cases id <;> cases s <;> cases id' <;> cases s' <;>
    simp only [cacheStart,cacheCap,ne_eq,not_true_eq_false] at * <;> omega

theorem wrapPtr_add (t : TableKey) {p k : ℕ} (h : p+k ≤ cacheCap t.1) :
    wrapPtr t (cacheStart t+p+k) = cacheStart t+(p+k) % cacheCap t.1 := by
  have hpos := cacheCap_pos t.1
  unfold wrapPtr cacheEnd
  split
  · have he : p+k = cacheCap t.1 := by omega
    rw [he,mod_self,add_zero]
  · rw [mod_eq_of_lt (by omega),add_assoc]

variable (mov : MuxMOVContext) (t : TableKey)

def cells (j : ℕ) : ℕ := mov.cache (cacheStart t+j)

/-- The table can be read back: `pages` pages from the file, the rest from the cache. -/
structure Readable (vals : List ℕ) (pages : ℕ) : Prop where
  readPtr : mov.cacheReadPtr t = cacheStart t+pages*tinyPageSize % cacheCap t.1
  spilled : Spilled (cells mov t) (cacheCap t.1) tinyPageSize vals pages (mov.tmpFile t)

structure Holds (vals : List ℕ) (pages : ℕ) : Prop extends Readable mov t vals pages where
  writePtr : mov.cacheWritePtr t = cacheStart t+vals.length % cacheCap t.1
  size : mov.cacheSize t+pages*tinyPageSize = vals.length
  size_lt : mov.cacheSize t < cacheCap t.1
  relieved : 0 < pages → cacheCap t.1 ≤ mov.cacheSize t+tinyPageSize
  total : mov.totalNum t = vals.length

structure Entered (vals : List ℕ) (pages : ℕ) : Prop extends Readable mov t vals pages where
  writePtr : mov.cacheWritePtr t = cacheStart t+(vals.length-1) % cacheCap t.1+1
  nonempty : 0 < vals.length
  size : mov.cacheSize t+pages*tinyPageSize = vals.length
  size_le : mov.cacheSize t ≤ cacheCap t.1
  relieved : 0 < pages → cacheCap t.1 ≤ mov.cacheSize t+tinyPageSize
  total : mov.totalNum t = vals.length

structure SameTable (mov mov' : MuxMOVContext) : Prop where
  writePtr : mov'.cacheWritePtr t = mov.cacheWritePtr t
  readPtr : mov'.cacheReadPtr t = mov.cacheReadPtr t
  size : mov'.cacheSize t = mov.cacheSize t
  total : mov'.totalNum t = mov.totalNum t
  tmpFile : mov'.tmpFile t = mov.tmpFile t
  cells : ∀ j < cacheCap t.1, cells mov' t j = cells mov t j

namespace SameTable
variable {t : TableKey} {mov mov' mov'' : MuxMOVContext} {vals : List ℕ} {pages : ℕ}

theorem refl (t : TableKey) (mov : MuxMOVContext) : SameTable t mov mov :=
  ⟨rfl,rfl,rfl,rfl,rfl,fun _ _ => rfl⟩

section
variable (h : SameTable t mov mov')
include h

theorem trans (h' : SameTable t mov' mov'') : SameTable t mov mov'' where
  writePtr := h'.writePtr.trans h.writePtr
  readPtr := h'.readPtr.trans h.readPtr
  size := h'.size.trans h.size
  total := h'.total.trans h.total
  tmpFile := h'.tmpFile.trans h.tmpFile
  cells := fun j hj => (h'.cells j hj).trans (h.cells j hj)

theorem readable (hr : Readable mov t vals pages) : Readable mov' t vals pages where
  readPtr := h.readPtr.trans hr.readPtr
  spilled := h.tmpFile ▸ hr.spilled.congr (cacheCap_pos t.1) h.cells

theorem holds (hh : Holds mov t vals pages) : Holds mov' t vals pages where
  toReadable := h.readable hh.toReadable
  writePtr := h.writePtr.trans hh.writePtr
  size := h.size ▸ hh.size
  size_lt := h.size ▸ hh.size_lt
  relieved := h.size ▸ hh.relieved
  total := h.total.trans hh.total

theorem entered (he : Entered mov t vals pages) : Entered mov' t vals pages where
  toReadable := h.readable he.toReadable
  writePtr := h.writePtr.trans he.writePtr
  nonempty := he.nonempty
  size := h.size ▸ he.size
  size_le := h.size ▸ he.size_le
  relieved := h.size ▸ he.relieved
  total := h.total.trans he.total

end

end SameTable

def PtrInside (mov : MuxMOVContext) (t : TableKey) : Prop :=
  ∃ j < cacheCap t.1, mov.cacheWritePtr t = cacheStart t+j

variable {mov : MuxMOVContext} {t : TableKey} {vals : List ℕ} {pages : ℕ}

theorem Holds.ptrInside (h : Holds mov t vals pages) : PtrInside mov t :=
  ⟨_,mod_lt _ (cacheCap_pos t.1),h.writePtr⟩

theorem Holds.pages_eq (h : Holds mov t vals pages) :
    pages = if vals.length < cacheCap t.1 then 0
      else (vals.length-cacheCap t.1)/tinyPageSize+1 := by
  have hsize := h.size
  have hlt := h.size_lt
  split
  case isTrue hshort =>
    by_contra hne
    have hrel := h.relieved (Nat.pos_of_ne_zero hne)
    have hmul : tinyPageSize ≤ pages*tinyPageSize :=
      Nat.le_mul_of_pos_left _ (Nat.pos_of_ne_zero hne)
    omega
  case isFalse hlong =>
    have hpos : 0 < pages := by
      rcases Nat.eq_zero_or_pos pages with rfl | hpos
      · omega
      · exact hpos
    have hrel := h.relieved hpos
    obtain ⟨k,rfl⟩ : ∃ k, pages = k+1 := ⟨pages-1,by omega⟩
    rw [Nat.succ_mul] at hsize
    congr 1
    symm
    apply Nat.div_eq_of_lt_le
    · omega
    · rw [Nat.succ_mul]
      omega

theorem SameTable.ptrInside {mov mov' : MuxMOVContext} (h : SameTable t mov mov')
    (hp : PtrInside mov t) : PtrInside mov' t := by
  obtain ⟨j,hj,hw⟩ := hp
  exact ⟨j,hj,h.writePtr.trans hw⟩

structure SameMedia (mov mov' : MuxMOVContext) : Prop where
  mdatSize : mov'.mdatSize = mov.mdatSize
  mdatStartPos : mov'.mdatStartPos = mov.mdatStartPos
  playTimeLength : mov'.playTimeLength = mov.playTimeLength
  tracks : mov'.tracks = mov.tracks
  lastPts : mov'.lastPts = mov.lastPts

structure SameSetup (mov mov' : MuxMOVContext) : Prop extends SameMedia mov mov' where
  keyFrameNum : mov'.keyFrameNum = mov.keyFrameNum
  keyframeNum : mov'.keyframeNum = mov.keyframeNum

structure SameContext (mov mov' : MuxMOVContext) : Prop extends SameSetup mov mov' where
  stscCnt : mov'.stscCnt = mov.stscCnt
  lastStreamIndex : mov'.lastStreamIndex = mov.lastStreamIndex

section Context
variable {mov mov' mov'' : MuxMOVContext}

theorem SameMedia.trans (h : SameMedia mov mov') (h' : SameMedia mov' mov'') :
    SameMedia mov mov'' where
  mdatSize := h'.mdatSize.trans h.mdatSize
  mdatStartPos := h'.mdatStartPos.trans h.mdatStartPos
  playTimeLength := h'.playTimeLength.trans h.playTimeLength
  tracks := h'.tracks.trans h.tracks
  lastPts := h'.lastPts.trans h.lastPts

theorem SameSetup.trans (h : SameSetup mov mov') (h' : SameSetup mov' mov'') :
    SameSetup mov mov'' where
  toSameMedia := h.toSameMedia.trans h'.toSameMedia
  keyFrameNum := h'.keyFrameNum.trans h.keyFrameNum
  keyframeNum := h'.keyframeNum.trans h.keyframeNum

theorem SameContext.refl (mov : MuxMOVContext) : SameContext mov mov :=
  ⟨⟨⟨rfl,rfl,rfl,rfl,rfl⟩,rfl,rfl⟩,rfl,rfl⟩

theorem SameContext.trans (h : SameContext mov mov') (h' : SameContext mov' mov'') :
    SameContext mov mov'' where
  toSameSetup := h.toSameSetup.trans h'.toSameSetup
  stscCnt := h'.stscCnt.trans h.stscCnt
  lastStreamIndex := h'.lastStreamIndex.trans h.lastStreamIndex

end Context

section Store
variable {mov : MuxMOVContext} {t u : TableKey} {vals : List ℕ} {pages : ℕ}

section
variable (mov : MuxMOVContext) (t : TableKey)

theorem putWord_writePtr (x : ℤ) : (putWord mov t x).cacheWritePtr t = mov.cacheWritePtr t+1 :=
  update_self ..

theorem wrapWritePtr_writePtr :
    (wrapWritePtr mov t).cacheWritePtr t = wrapPtr t (mov.cacheWritePtr t) :=
  update_self ..

theorem count_total : (countCached (countTotal mov t) t).totalNum t = mov.totalNum t+1 :=
  update_self ..

theorem count_size : (countCached (countTotal mov t) t).cacheSize t = mov.cacheSize t+1 :=
  update_self ..

end

theorem putWord_sameTable (hp : PtrInside mov t) (hu : u ≠ t) (x : ℤ) :
    SameTable u mov (putWord mov t x) where
  writePtr := update_of_ne hu _ _
  readPtr := rfl
  size := rfl
  total := rfl
  tmpFile := rfl
  cells j hj := by
    obtain ⟨i,hi,hw⟩ := hp
    have hne : cacheStart u+j ≠ mov.cacheWritePtr t := by
      rw [hw]
      exact cacheStart_add_ne hu hj hi
    exact update_of_ne hne _ _

theorem countTotal_sameTable (hu : u ≠ t) : SameTable u mov (countTotal mov t) where
  writePtr := rfl
  readPtr := rfl
  size := rfl
  total := update_of_ne hu _ _
  tmpFile := rfl
  cells _ _ := rfl

theorem countCached_sameTable (hu : u ≠ t) : SameTable u mov (countCached mov t) where
  writePtr := rfl
  readPtr := rfl
  size := update_of_ne hu _ _
  total := rfl
  tmpFile := rfl
  cells _ _ := rfl

theorem wrapWritePtr_sameTable (hu : u ≠ t) : SameTable u mov (wrapWritePtr mov t) where
  writePtr := update_of_ne hu _ _
  readPtr := rfl
  size := rfl
  total := rfl
  tmpFile := rfl
  cells _ _ := rfl

theorem enterWord_sameTable (hp : PtrInside mov t) (hu : u ≠ t) (x : ℤ) :
    SameTable u mov (enterWord mov t x) :=
  ((putWord_sameTable hp hu x).trans (countTotal_sameTable hu)).trans (countCached_sameTable hu)

theorem enterWord_sameContext (mov : MuxMOVContext) (t : TableKey) (x : ℤ) :
    SameContext mov (enterWord mov t x) :=
  ⟨⟨⟨rfl,rfl,rfl,rfl,rfl⟩,rfl,rfl⟩,rfl,rfl⟩

theorem cells_putWord (x : ℤ) {p : ℕ} (hw : mov.cacheWritePtr t = cacheStart t+p) :
    cells (putWord mov t x) t = Function.update (cells mov t) p (toWord x) := by
  funext j
  change Function.update mov.cache (mov.cacheWritePtr t) (toWord x) (cacheStart t+j) = _
  rw [hw]
  by_cases hj : j = p
  · rw [hj,update_self,update_self]
  · rw [update_of_ne hj,update_of_ne (by omega)]
    rfl

theorem Holds.readable_putWord (h : Holds mov t vals pages) (x : ℤ) :
    Readable (putWord mov t x) t (vals ++ [toWord x]) pages where
  readPtr := h.readPtr
  spilled := by
    have hroom : vals.length < pages*tinyPageSize+cacheCap t.1 := by
      have hsize := h.size
      have hlt := h.size_lt
      omega
    rw [cells_putWord x h.writePtr]
    exact h.spilled.push hroom (toWord x)

theorem Holds.enterWord (h : Holds mov t vals pages) (x : ℤ) :
    Entered (enterWord mov t x) t (vals ++ [toWord x]) pages where
  toReadable := ⟨h.readPtr,(h.readable_putWord x).spilled⟩
  writePtr := by
    rw [length_append,length_singleton,Nat.add_sub_cancel,← h.writePtr]
    exact update_self ..
  nonempty := by rw [length_append,length_singleton]; omega
  size := by
    have hsize : (Mp4.enterWord mov t x).cacheSize t = mov.cacheSize t+1 := count_size ..
    have hh := h.size
    rw [hsize,length_append,length_singleton]
    omega
  size_le := by
    have hsize : (Mp4.enterWord mov t x).cacheSize t = mov.cacheSize t+1 := count_size ..
    have hlt := h.size_lt
    omega
  relieved := by
    intro hpos
    have hsize : (Mp4.enterWord mov t x).cacheSize t = mov.cacheSize t+1 := count_size ..
    have hrel := h.relieved hpos
    omega
  total := by
    rw [length_append,length_singleton,← h.total]
    exact count_total ..

end Store

theorem writeAt_end (file words : List ℕ) {pos : ℕ} (h : file.length = pos) :
    writeAt file pos words = file ++ words := by
  unfold writeAt
  rw [← h,take_length,Nat.sub_self,drop_eq_nil_of_le (by omega)]
  simp

structure SpillFrame (t : TableKey) (owner : CodecType) (mov mov' : MuxMOVContext) : Prop where
  context : SameContext mov mov'
  tables : ∀ u ≠ t, SameTable u mov mov'
  pages : ∀ k ≠ (t.1, owner), mov'.tinyPages k = mov.tinyPages k

section Spill
variable {mov : MuxMOVContext} {t : TableKey} {owner : CodecType} {vals : List ℕ} {pages : ℕ}

theorem spillPage_cases (io : Mp4Io) (mov : MuxMOVContext) (t : TableKey) (owner : CodecType) :
    (spillPage io mov t owner).Ensures fun mov' =>
      (mov.cacheSize t < cacheCap t.1 ∧ mov' = mov) ∨
        (cacheCap t.1 ≤ mov.cacheSize t ∧
          ∃ opened, mov' = movePage { mov with tmpFilesOpen := opened } t owner) := by
  unfold spillPage
  split
  case isTrue hlt => exact Or.inl ⟨hlt,rfl⟩
  case isFalse hge =>
    have hfull : cacheCap t.1 ≤ mov.cacheSize t := Nat.le_of_not_lt hge
    have hcreate : (mp4CreateTmpFile io mov).Ensures fun mov' =>
        ∃ opened, mov' = { mov with tmpFilesOpen := opened } := by
      unfold mp4CreateTmpFile
      split_ifs
      · exact ⟨mov.tmpFilesOpen,rfl⟩
      · exact ⟨true,rfl⟩
      · exact trivial
    apply hcreate.bind
    rintro _ ⟨opened,rfl⟩
    split
    · exact Or.inr ⟨hfull,opened,rfl⟩
    · exact trivial

section
variable (mov : MuxMOVContext) (opened : Bool) (t : TableKey) (owner : CodecType)

theorem movePage_pages :
    (movePage { mov with tmpFilesOpen := opened } t owner).tinyPages (t.1, owner) =
      mov.tinyPages (t.1, owner)+1 := update_self ..

theorem movePage_size :
    (movePage { mov with tmpFilesOpen := opened } t owner).cacheSize t =
      mov.cacheSize t-tinyPageSize := update_self ..

theorem movePage_tmpFile :
    (movePage { mov with tmpFilesOpen := opened } t owner).tmpFile t =
      writeAt (mov.tmpFile t) (mov.tinyPages (t.1, owner)*tinyPageSize) (readPtrPage mov t) :=
  update_self ..

theorem movePage_frame :
    SpillFrame t owner mov (movePage { mov with tmpFilesOpen := opened } t owner) where
  context := ⟨⟨⟨rfl,rfl,rfl,rfl,rfl⟩,rfl,rfl⟩,rfl,rfl⟩
  tables _ hu :=
    { writePtr := rfl
      readPtr := update_of_ne hu _ _
      size := update_of_ne hu _ _
      total := rfl
      tmpFile := update_of_ne hu _ _
      cells := fun _ _ => rfl }
  pages _ hk := update_of_ne hk _ _

end

theorem spillPage_frame (io : Mp4Io) (mov : MuxMOVContext) (t : TableKey) (owner : CodecType) :
    (spillPage io mov t owner).Ensures (SpillFrame t owner mov) := by
  apply (spillPage_cases io mov t owner).imp
  rintro mov' (⟨_,rfl⟩ | ⟨_,opened,rfl⟩)
  · exact ⟨SameContext.refl _,fun u _ => SameTable.refl u _, fun _ _ => rfl⟩
  · exact movePage_frame mov opened t owner

theorem readPtrPage_eq
    (hptr : mov.cacheReadPtr t = cacheStart t+pages*tinyPageSize % cacheCap t.1) :
    readPtrPage mov t =
    ringSlice (cells mov t) (cacheCap t.1) (pages*tinyPageSize) tinyPageSize := by
  rw [ringSlice_of_le _
    (page_start_add_le (tinyPageSize_dvd_cacheCap t.1) (cacheCap_pos t.1) pages)]
  unfold readPtrPage cells
  rw [hptr]
  simp only [add_assoc]

theorem movePage_readPtr (opened : Bool)
    (hptr : mov.cacheReadPtr t = cacheStart t+pages*tinyPageSize % cacheCap t.1) :
    (movePage { mov with tmpFilesOpen := opened } t owner).cacheReadPtr t =
      cacheStart t+(pages+1)*tinyPageSize % cacheCap t.1 := by
  have hstep := wrapPtr_add t
    (page_start_add_le (tinyPageSize_dvd_cacheCap t.1) (cacheCap_pos t.1) pages)
  rw [mod_add_mod,← succ_mul,← hptr] at hstep
  rw [← hstep]
  exact update_self ..

theorem Readable.movePage (h : Readable mov t vals pages)
    (hpages : mov.tinyPages (t.1, owner) = pages)
    (hfull : (pages+1)*tinyPageSize ≤ vals.length) (opened : Bool) :
    Readable (movePage { mov with tmpFilesOpen := opened } t owner) t vals (pages+1) where
  readPtr := movePage_readPtr opened h.readPtr
  spilled := by
    rw [movePage_tmpFile,hpages,writeAt_end _ _ h.spilled.length_file,readPtrPage_eq h.readPtr]
    exact h.spilled.spill hfull

theorem Entered.wrapWritePtr_ptr (h : Entered mov t vals pages) :
    (wrapWritePtr mov t).cacheWritePtr t = cacheStart t+vals.length % cacheCap t.1 := by
  have hmod : (vals.length-1) % cacheCap t.1+1 ≤ cacheCap t.1 :=
    Nat.mod_lt _ (cacheCap_pos t.1)
  have hlen : vals.length-1+1 = vals.length := Nat.sub_add_cancel h.nonempty
  have hstep := wrapPtr_add t hmod
  rw [Nat.mod_add_mod,hlen,← h.writePtr] at hstep
  rw [← hstep]
  exact wrapWritePtr_writePtr ..

theorem Entered.spillPage (h : Entered mov t vals pages)
    (hpages : mov.tinyPages (t.1, owner) = pages) (io : Mp4Io) :
    (spillPage io (wrapWritePtr mov t) t owner).Ensures fun mov' =>
      Holds mov' t vals (mov'.tinyPages (t.1, owner)) := by
  have hread : Readable (wrapWritePtr mov t) t vals pages := ⟨h.readPtr,h.spilled⟩
  have hsize := h.size
  apply (spillPage_cases io (wrapWritePtr mov t) t owner).imp
  rintro mov' (⟨hlt,rfl⟩ | ⟨hfull,opened,rfl⟩)
  · change Holds (wrapWritePtr mov t) t vals (mov.tinyPages (t.1, owner))
    rw [hpages]
    exact ⟨hread,h.wrapWritePtr_ptr,h.size,hlt,h.relieved,h.total⟩
  · change cacheCap t.1 ≤ mov.cacheSize t at hfull
    have hle := h.size_le
    have hcap := tinyPageSize_le_cacheCap t.1
    have hpos : 0 < tinyPageSize := by decide
    have hmul : (pages+1)*tinyPageSize = pages*tinyPageSize+tinyPageSize :=
      succ_mul pages tinyPageSize
    have hpage : (Mp4.movePage { wrapWritePtr mov t with tmpFilesOpen := opened } t
        owner).tinyPages (t.1, owner) = pages+1 := by
      rw [← hpages]
      exact movePage_pages ..
    have hcached : (Mp4.movePage { wrapWritePtr mov t with tmpFilesOpen := opened } t
        owner).cacheSize t = mov.cacheSize t-tinyPageSize := movePage_size ..
    rw [hpage]
    exact
      { toReadable := hread.movePage hpages (by omega) opened
        writePtr := h.wrapWritePtr_ptr
        size := by rw [hcached]; omega
        size_lt := by rw [hcached]; omega
        relieved := by rw [hcached]; omega
        total := h.total }

end Spill

end TinaPackage.Mp4
