import TinaPackage.Mp4Caches
import TinaPackage.Mp4Chunks

/-! Each packet keeps the sample tables in step with the chunks of the recording. -/
namespace TinaPackage.Mp4
open History

theorem toWord_natCast {n : ℕ} (h : n < 2^32) : toWord n = n := by
  unfold toWord
  rw [Int.emod_eq_of_lt (by omega) (by omega),Int.toNat_natCast]

namespace SpillFrame
variable {t : TableKey} {owner : CodecType} {mov mov' mov'' : MuxMOVContext}

theorem after (h : ∀ u ≠ t, SameTable u mov mov') (hc : SameContext mov mov')
    (hp : mov'.tinyPages = mov.tinyPages) (h' : SpillFrame t owner mov' mov'') :
    SpillFrame t owner mov mov'' where
  context := hc.trans h'.context
  tables u hu := (h u hu).trans (h'.tables u hu)
  pages k hk := (h'.pages k hk).trans (congrFun hp k)

end SpillFrame

theorem wrapWritePtr_spillPage_frame (io : Mp4Io) (mov : MuxMOVContext) (t : TableKey)
    (owner : CodecType) :
    (spillPage io (wrapWritePtr mov t) t owner).Ensures (SpillFrame t owner mov) :=
  (spillPage_frame io (wrapWritePtr mov t) t owner).imp fun _ h =>
    h.after (fun _ hu => wrapWritePtr_sameTable hu) ⟨⟨⟨rfl,rfl,rfl,rfl,rfl⟩,rfl,rfl⟩,rfl,rfl⟩ rfl

variable {owner : CodecType}

theorem Holds.append {mov : MuxMOVContext} {t : TableKey} {vals : List ℕ}
    (h : Holds mov t vals (mov.tinyPages (t.1, owner))) (io : Mp4Io) (x : ℤ) :
    (spillPage io (wrapWritePtr (Mp4.enterWord mov t x) t) t owner).Ensures fun mov' =>
      Holds mov' t (vals ++ [toWord x]) (mov'.tinyPages (t.1, owner)) ∧
        SpillFrame t owner mov mov' := by
  apply ((h.enterWord x).spillPage rfl io).and
  apply (wrapWritePtr_spillPage_frame io (Mp4.enterWord mov t x) t owner).imp
  intro mov' hframe
  exact hframe.after (fun _ hu => enterWord_sameTable h.ptrInside hu x)
    (enterWord_sameContext mov t x) rfl

/-- The tables of both tracks are those of the history. The pages of an stsc table are
counted by the other track. -/
structure TablesMatch (mov : MuxMOVContext) (h : History) : Prop where
  stco : ∀ s, Holds mov (.stco, s) (h.offsets s) (mov.tinyPages (.stco, s))
  stsz : ∀ s, Holds mov (.stsz, s) (h.sizes s) (mov.tinyPages (.stsz, s))
  stsc : ∀ s, Holds mov (.stsc, s) (h.counts s) (mov.tinyPages (.stsc, s.other))
  stts : PtrInside mov (.stts, .video)

/-- A new chunk of `s` at `pos` has been entered in the stco table, whose pointer has not
been looked at yet. -/
structure ChunkEntered (mov : MuxMOVContext) (h : History) (s : CodecType) (pos : ℕ)
    (counts : CodecType → List ℕ) : Prop where
  stco : Entered mov (.stco, s) (h.offsets s ++ [pos]) (mov.tinyPages (.stco, s))
  stcoOther : ∀ u ≠ s, Holds mov (.stco, u) (h.offsets u) (mov.tinyPages (.stco, u))
  stsz : ∀ u, Holds mov (.stsz, u) (h.sizes u) (mov.tinyPages (.stsz, u))
  stsc : ∀ u, Holds mov (.stsc, u) (counts u) (mov.tinyPages (.stsc, u.other))
  stts : PtrInside mov (.stts, .video)

section Step
variable {mov : MuxMOVContext} {h : History} {s : CodecType} {pos : ℕ}

theorem TablesMatch.enterChunk (hm : TablesMatch mov h) (hpos : pos < 2^32) :
    ChunkEntered (enterWord mov (.stco, s) pos) h s pos h.counts := by
  have hsame : ∀ u ≠ (.stco, s), SameTable u mov (enterWord mov (.stco, s) pos) :=
    fun u hu => enterWord_sameTable (hm.stco s).ptrInside hu pos
  have hentered := (hm.stco s).enterWord pos
  rw [toWord_natCast hpos] at hentered
  exact
    { stco := hentered
      stcoOther := fun u hu => (hsame _ (by simp [hu])).holds (hm.stco u)
      stsz := fun u => (hsame _ (by simp)).holds (hm.stsz u)
      stsc := fun u => (hsame _ (by simp)).holds (hm.stsc u)
      stts := (hsame _ (by simp)).ptrInside hm.stts }

theorem ChunkEntered.endChunk (he : ChunkEntered mov h s pos h.counts)
    (hlast : mov.lastStreamIndex = h.stream) (hs : h.stream ≠ some s)
    (hcnt : mov.stscCnt = h.currentCount) (hsmall : mov.stscCnt < 2^32) (io : Mp4Io) :
    (endChunk io mov s).Ensures fun mov' =>
      ChunkEntered mov' h s pos (h.openChunk s pos).counts ∧ SameSetup mov mov' := by
  unfold Mp4.endChunk
  rw [hlast]
  match hstream : h.stream with
  | none =>
    have hcounts : (h.openChunk s pos).counts = h.counts := by
      funext u
      rw [counts_openChunk,currentOf_of_stream_ne u (by simp [hstream]),
        List.map_nil,List.append_nil]
    rw [hcounts]
    exact ⟨he,(SameContext.refl mov).toSameSetup⟩
  | some last =>
    have hne : last ≠ s := by
      intro heq
      exact hs (by rw [hstream,heq])
    have hother : last.other = s := CodecType.other_of_ne hne
    have hholds := he.stsc last
    rw [hother] at hholds
    apply (hholds.append io mov.stscCnt).imp
    rintro mov' ⟨hnew,hframe⟩
    rw [toWord_natCast hsmall,hcnt] at hnew
    have hpages : ∀ k ≠ (MuxChunkID.stsc, s), mov'.tinyPages k = mov.tinyPages k := hframe.pages
    refine ⟨?_,hframe.context.toSameSetup⟩
    exact
      { stco := by
          rw [hpages _ (by simp)]
          exact (hframe.tables _ (by simp)).entered he.stco
        stcoOther := fun u hu => by
          rw [hpages _ (by simp)]
          exact (hframe.tables _ (by simp)).holds (he.stcoOther u hu)
        stsz := fun u => by
          rw [hpages _ (by simp)]
          exact (hframe.tables _ (by simp)).holds (he.stsz u)
        stsc := fun u => by
          rw [counts_openChunk]
          by_cases hu : u = last
          · rw [hu,hother,currentOf_counts hstream]
            exact hnew
          · have hno : u.other ≠ s := by
              rw [← hother]
              revert hu
              cases u <;> cases last <;> simp [CodecType.other]
            rw [currentOf_of_stream_ne u (by simp [hstream,Ne.symm hu]),List.map_nil,
              List.append_nil,hpages _ (by simp [hno])]
            exact (hframe.tables _ (by simp [hu])).holds (he.stsc u)
        stts := (hframe.tables _ (by simp)).ptrInside he.stts }

theorem ChunkEntered.finish (he : ChunkEntered mov h s pos (h.openChunk s pos).counts)
    (io : Mp4Io) :
    (spillPage io (wrapWritePtr { mov with stscCnt := 0 } (.stco, s)) (.stco, s) s).Ensures
      fun mov' => TablesMatch mov' (h.openChunk s pos) ∧ mov'.stscCnt = 0 ∧ SameSetup mov mov' := by
  let zeroed : MuxMOVContext := { mov with stscCnt := 0 }
  have hsame : ∀ u, SameTable u mov zeroed := fun u => ⟨rfl,rfl,rfl,rfl,rfl,fun _ _ => rfl⟩
  have hentered : Entered zeroed (.stco, s) (h.offsets s ++ [pos]) (zeroed.tinyPages (.stco, s)) :=
    (hsame _).entered he.stco
  apply ((hentered.spillPage rfl io).and (wrapWritePtr_spillPage_frame io zeroed (.stco, s) s)).imp
  rintro mov' ⟨hnew,hframe⟩
  have hpages : ∀ k ≠ (MuxChunkID.stco, s), mov'.tinyPages k = mov.tinyPages k := hframe.pages
  have htable : ∀ u ≠ (.stco, s), SameTable u mov mov' :=
    fun u hu => (hsame u).trans (hframe.tables u hu)
  have hsetup : SameSetup mov zeroed := ⟨⟨rfl,rfl,rfl,rfl,rfl⟩,rfl,rfl⟩
  refine ⟨?_,hframe.context.stscCnt,hsetup.trans hframe.context.toSameSetup⟩
  exact
    { stco := fun u => by
        rw [offsets_openChunk]
        by_cases hu : s = u
        · rw [if_pos hu,← hu]
          exact hnew
        · rw [if_neg hu,List.append_nil,hpages _ (by simp [Ne.symm hu])]
          exact (htable _ (by simp [Ne.symm hu])).holds (he.stcoOther u (Ne.symm hu))
      stsz := fun u => by
        rw [sizes_openChunk,hpages _ (by simp)]
        exact (htable _ (by simp)).holds (he.stsz u)
      stsc := fun u => by
        rw [hpages _ (by simp)]
        exact (htable _ (by simp)).holds (he.stsc u)
      stts := (htable _ (by simp)).ptrInside he.stts }

theorem TablesMatch.startChunk (hm : TablesMatch mov h)
    (hlast : mov.lastStreamIndex = h.stream) (hs : h.stream ≠ some s)
    (hcnt : mov.stscCnt = h.currentCount) (hsmall : mov.stscCnt < 2^32)
    (hpos : mov.mdatSize+mov.mdatStartPos < 2^32) (io : Mp4Io) :
    (startChunk io mov s).Ensures fun mov' =>
      TablesMatch mov' (h.openChunk s (mov.mdatSize+mov.mdatStartPos)) ∧ mov'.stscCnt = 0 ∧
        SameSetup mov mov' := by
  have hctx := enterWord_sameContext mov (.stco, s) (mov.mdatSize+mov.mdatStartPos : ℕ)
  apply ((hm.enterChunk hpos).endChunk (hctx.lastStreamIndex.trans hlast) hs
    (hctx.stscCnt.trans hcnt) hsmall io).bind
  rintro mov1 ⟨hentered,hsetup⟩
  apply (hentered.finish io).imp
  rintro mov2 ⟨hmatch,hzero,hsetup'⟩
  exact ⟨hmatch,hzero,(hctx.toSameSetup.trans hsetup).trans hsetup'⟩

theorem TablesMatch.addSample (hm : TablesMatch mov h) {trk : MOVTrack}
    (hpcm : trk.enc.codecId ≠ .pcm) (hs : h.stream = some s) (hcnt : mov.stscCnt = h.currentCount)
    {size : ℕ} (hsize : size < 2^32) (io : Mp4Io) :
    (addSample io mov trk s size).Ensures fun mov' =>
      TablesMatch mov' (h.addSample size) ∧ mov'.stscCnt = (h.addSample size).currentCount ∧
        SameSetup mov mov' ∧ mov'.lastStreamIndex = mov.lastStreamIndex := by
  unfold Mp4.addSample countSample
  rw [if_neg hpcm]
  let counted : MuxMOVContext :=
    { enterWord mov (.stsz, s) size with stscCnt := mov.stscCnt+1 }
  have hsame : ∀ u ≠ (.stsz, s), SameTable u mov counted := by
    intro u hu
    have hword := enterWord_sameTable (hm.stsz s).ptrInside hu size
    exact { hword with }
  have hentered : Entered counted (.stsz, s) (h.sizes s ++ [size])
      (counted.tinyPages (.stsz, s)) := by
    have hword := (hm.stsz s).enterWord size
    rw [toWord_natCast hsize] at hword
    exact ⟨⟨hword.readPtr,hword.spilled⟩,hword.writePtr,hword.nonempty,hword.size,
      hword.size_le,hword.relieved,hword.total⟩
  apply ((hentered.spillPage rfl io).and (wrapWritePtr_spillPage_frame io counted (.stsz, s) s)).imp
  rintro mov' ⟨hnew,hframe⟩
  have hpages : ∀ k ≠ (MuxChunkID.stsz, s), mov'.tinyPages k = mov.tinyPages k := hframe.pages
  have htable : ∀ u ≠ (.stsz, s), SameTable u mov mov' :=
    fun u hu => (hsame u hu).trans (hframe.tables u hu)
  have hsetup : SameSetup mov counted := ⟨⟨rfl,rfl,rfl,rfl,rfl⟩,rfl,rfl⟩
  have hcount : mov'.stscCnt = (h.addSample size).currentCount := by
    rw [currentCount_addSample size hs,← hcnt]
    exact hframe.context.stscCnt
  refine ⟨?_,hcount,hsetup.trans hframe.context.toSameSetup,hframe.context.lastStreamIndex⟩
  exact
    { stco := fun u => by
        rw [offsets_addSample,hpages _ (by simp)]
        exact (htable _ (by simp)).holds (hm.stco u)
      stsz := fun u => by
        by_cases hu : s = u
        · rw [← hu,sizes_addSample_self size hs]
          exact hnew
        · rw [sizes_addSample_of_ne u size hs hu,hpages _ (by simp [Ne.symm hu])]
          exact (htable _ (by simp [Ne.symm hu])).holds (hm.stsz u)
      stsc := fun u => by
        rw [counts_addSample,hpages _ (by simp)]
        exact (htable _ (by simp)).holds (hm.stsc u)
      stts := (htable _ (by simp)).ptrInside hm.stts }

section
variable {t : TableKey} {j : ℕ} (hj : j ≤ cacheCap t.1) (hw : mov.cacheWritePtr t = cacheStart t+j)
include hj hw

theorem wrapWritePtr_inside : PtrInside (wrapWritePtr mov t) t := by
  refine ⟨j % cacheCap t.1,Nat.mod_lt _ (cacheCap_pos t.1),?_⟩
  have hstep := wrapPtr_add t (p := j) (k := 0) hj
  rw [Nat.add_zero,Nat.add_zero,← hw] at hstep
  rw [← hstep]
  exact wrapWritePtr_writePtr ..

theorem spillPage_inside (owner : CodecType) (io : Mp4Io) :
    (spillPage io (wrapWritePtr mov t) t owner).Ensures fun mov' =>
      SpillFrame t owner mov mov' ∧ PtrInside mov' t := by
  have hptr := wrapWritePtr_inside hj hw
  apply ((spillPage_cases io (wrapWritePtr mov t) t owner).and
    (wrapWritePtr_spillPage_frame io mov t owner)).imp
  rintro mov' ⟨hcases,hframe⟩
  refine ⟨hframe,?_⟩
  -- a moved page does not touch the write pointer
  rcases hcases with ⟨_,rfl⟩ | ⟨_,opened,rfl⟩
  · exact hptr
  · exact hptr

end

def durationStored (mov : MuxMOVContext) (pts : ℤ) : MuxMOVContext :=
  countCached (countTotal (if mov.lastPts .video > 0
    then putWord mov (.stts, .video) (pts-mov.lastPts .video) else mov) (.stts, .video))
    (.stts, .video)

theorem addDuration_eq (io : Mp4Io) (mov : MuxMOVContext) (pts : ℤ) :
    addDuration io mov pts =
      spillPage io (wrapWritePtr (durationStored mov pts) (.stts, .video)) (.stts, .video)
        .video := rfl

theorem durationStored_sameTable (hp : PtrInside mov (.stts, .video)) (pts : ℤ) {u : TableKey}
    (hu : u ≠ (.stts, .video)) : SameTable u mov (durationStored mov pts) := by
  have hstored : SameTable u mov (if mov.lastPts .video > 0
      then putWord mov (.stts, .video) (pts-mov.lastPts .video) else mov) := by
    split
    · exact putWord_sameTable hp hu _
    · exact SameTable.refl u mov
  exact (hstored.trans (countTotal_sameTable hu)).trans (countCached_sameTable hu)

theorem durationStored_context (mov : MuxMOVContext) (pts : ℤ) :
    SameContext mov (durationStored mov pts) ∧
      (durationStored mov pts).tinyPages = mov.tinyPages := by
  unfold durationStored
  split <;> exact ⟨⟨⟨⟨rfl,rfl,rfl,rfl,rfl⟩,rfl,rfl⟩,rfl,rfl⟩,rfl⟩

theorem durationStored_writePtr (mov : MuxMOVContext) (pts : ℤ) :
    (durationStored mov pts).cacheWritePtr (.stts, .video) =
      mov.cacheWritePtr (.stts, .video)+if mov.lastPts .video > 0 then 1 else 0 := by
  unfold durationStored
  split
  · exact Function.update_self (.stts, .video) _ mov.cacheWritePtr
  · rfl

theorem addDuration_frame (hp : PtrInside mov (.stts, .video)) (pts : ℤ) (io : Mp4Io) :
    (addDuration io mov pts).Ensures fun mov' =>
      SpillFrame (.stts, .video) .video mov mov' ∧ PtrInside mov' (.stts, .video) := by
  obtain ⟨j,hj,hw⟩ := hp
  obtain ⟨hctx,hpages⟩ := durationStored_context mov pts
  have hptr := durationStored_writePtr mov pts
  rw [hw,Nat.add_assoc] at hptr
  have hle : j+(if mov.lastPts .video > 0 then 1 else 0) ≤ cacheCap .stts := by
    split
    · exact hj
    · exact hj.le
  apply (spillPage_inside hle hptr .video io).imp
  rintro mov' ⟨hframe,hinside⟩
  exact ⟨hframe.after (fun u hu => durationStored_sameTable ⟨j,hj,hw⟩ pts hu) hctx hpages,hinside⟩

variable {mov' : MuxMOVContext}

theorem TablesMatch.congr (hm : TablesMatch mov h) (hsame : ∀ t, SameTable t mov mov')
    (hpages : mov'.tinyPages = mov.tinyPages) :
    TablesMatch mov' h where
  stco u := by rw [hpages]; exact (hsame _).holds (hm.stco u)
  stsz u := by rw [hpages]; exact (hsame _).holds (hm.stsz u)
  stsc u := by rw [hpages]; exact (hsame _).holds (hm.stsc u)
  stts := (hsame _).ptrInside hm.stts

theorem TablesMatch.of_frame {t : TableKey} (hm : TablesMatch mov h) (ht : t.1 = .stts)
    (hframe : SpillFrame t owner mov mov') (hp : PtrInside mov' (.stts, .video)) :
    TablesMatch mov' h where
  stco u := by
    have hid : (MuxChunkID.stco, u) ≠ t := by rintro rfl; simp at ht
    rw [hframe.pages _ (by simp [ht])]
    exact (hframe.tables _ hid).holds (hm.stco u)
  stsz u := by
    have hid : (MuxChunkID.stsz, u) ≠ t := by rintro rfl; simp at ht
    rw [hframe.pages _ (by simp [ht])]
    exact (hframe.tables _ hid).holds (hm.stsz u)
  stsc u := by
    have hid : (MuxChunkID.stsc, u) ≠ t := by rintro rfl; simp at ht
    rw [hframe.pages _ (by simp [ht])]
    exact (hframe.tables _ hid).holds (hm.stsc u)
  stts := hp

end Step

end TinaPackage.Mp4
