import TinaPackage.Mp4Runs

/-! The counters and pointers of the tables, whatever the packets are: they bound what the
table writers read and how much of it there is. -/
namespace TinaPackage.Mp4
open Function CodecType

variable (mov : MuxMOVContext) (t : TableKey) (pages : ℕ)

/-- The words of a table are in its cache or on a page; fewer than `bound` are in the cache.
A page is given away only by a full cache. -/
structure Counted (bound : ℕ) : Prop where
  size : mov.cacheSize t+pages*tinyPageSize = mov.totalNum t
  size_lt : mov.cacheSize t < bound
  relieved : 0 < pages → cacheCap t.1 ≤ mov.cacheSize t+tinyPageSize

structure Settled : Prop extends Counted mov t pages (cacheCap t.1) where
  inside : PtrInside mov t

structure Pending : Prop extends Counted mov t pages (cacheCap t.1+1) where
  near : ∃ j ≤ cacheCap t.1, mov.cacheWritePtr t = cacheStart t+j

section Table
variable {mov mov' : MuxMOVContext} {t : TableKey} {pages bound : ℕ}

theorem Counted.congr (h : Counted mov t pages bound)
    (hsize : mov'.cacheSize t = mov.cacheSize t) (htotal : mov'.totalNum t = mov.totalNum t) :
    Counted mov' t pages bound where
  size := by rw [hsize,htotal]; exact h.size
  size_lt := by rw [hsize]; exact h.size_lt
  relieved := by rw [hsize]; exact h.relieved

theorem SameTable.settled (h : SameTable t mov mov') (hs : Settled mov t pages) :
    Settled mov' t pages :=
  ⟨hs.toCounted.congr h.size h.total,h.ptrInside hs.inside⟩

theorem SameTable.pending (h : SameTable t mov mov') (hp : Pending mov t pages) :
    Pending mov' t pages := by
  refine ⟨hp.toCounted.congr h.size h.total,?_⟩
  rw [h.writePtr]
  exact hp.near

theorem Counted.count (h : Counted mov t pages bound) :
    Counted (countCached (countTotal mov t) t) t pages (bound+1) := by
  have hsize := count_size mov t
  have htotal := count_total mov t
  have hold := h.size
  have hlt := h.size_lt
  refine ⟨by omega,by omega,?_⟩
  intro hpos
  have hrel := h.relieved hpos
  omega

theorem Settled.enterWord (h : Settled mov t pages) (x : ℤ) :
    Pending (enterWord mov t x) t pages := by
  obtain ⟨j,hj,hw⟩ := h.inside
  have hput : Counted (putWord mov t x) t pages (cacheCap t.1) := h.toCounted.congr rfl rfl
  refine ⟨hput.count,j+1,hj,?_⟩
  rw [← Nat.add_assoc,← hw]
  exact putWord_writePtr mov t x

theorem Counted.spillPage (h : Counted mov t pages (cacheCap t.1+1)) (owner : CodecType)
    (hpages : mov.tinyPages (t.1, owner) = pages) (io : Mp4Io) :
    (spillPage io mov t owner).Ensures fun mov' =>
      Counted mov' t (mov'.tinyPages (t.1, owner)) (cacheCap t.1) ∧
        mov'.totalNum = mov.totalNum := by
  have hold := h.size
  have hlt := h.size_lt
  apply (spillPage_cases io mov t owner).imp
  rintro mov' (⟨hroom,rfl⟩ | ⟨hfull,opened,rfl⟩)
  · rw [hpages]
    exact ⟨⟨h.size,hroom,h.relieved⟩,rfl⟩
  · have hcap := tinyPageSize_le_cacheCap t.1
    have hpos : 0 < tinyPageSize := by decide
    have hsize := movePage_size mov opened t owner
    have htotal : (movePage { mov with tmpFilesOpen := opened } t owner).totalNum t =
        mov.totalNum t := rfl
    have hmul : (pages+1)*tinyPageSize = pages*tinyPageSize+tinyPageSize :=
      Nat.succ_mul pages tinyPageSize
    rw [movePage_pages,hpages]
    refine ⟨?_,rfl⟩
    exact
      { size := by rw [hsize,htotal]; omega
        size_lt := by rw [hsize]; omega
        relieved := by rw [hsize]; omega }

theorem Pending.spillPage (h : Pending mov t pages) (owner : CodecType)
    (hpages : mov.tinyPages (t.1, owner) = pages) (io : Mp4Io) :
    (spillPage io (wrapWritePtr mov t) t owner).Ensures fun mov' =>
      Settled mov' t (mov'.tinyPages (t.1, owner)) ∧ SpillFrame t owner mov mov' ∧
        mov'.totalNum = mov.totalNum := by
  obtain ⟨j,hj,hw⟩ := h.near
  have hcounted : Counted (wrapWritePtr mov t) t pages (cacheCap t.1+1) :=
    h.toCounted.congr rfl rfl
  apply ((hcounted.spillPage owner hpages io).and (spillPage_inside hj hw owner io)).imp
  rintro mov' ⟨⟨hcounted,htotal⟩,hframe,hinside⟩
  exact ⟨⟨hcounted,hinside⟩,hframe,htotal⟩

end Table

/-- The tables in `keep` and the set-up are as before. -/
structure KeepsTables (keep : TableKey → Prop) (mov mov' : MuxMOVContext) : Prop where
  setup : SameSetup mov mov'
  tables : ∀ u, keep u → SameTable u mov mov'
  pages : ∀ u, keep u → mov'.tinyPages u = mov.tinyPages u

section Keeps
variable {mov mov' mov'' : MuxMOVContext} {keep keep' : TableKey → Prop}

theorem KeepsTables.refl (keep : TableKey → Prop) (mov : MuxMOVContext) :
    KeepsTables keep mov mov :=
  ⟨(SameContext.refl mov).toSameSetup,fun u _ => SameTable.refl u mov, fun _ _ => rfl⟩

theorem KeepsTables.trans (h : KeepsTables keep mov mov') (h' : KeepsTables keep mov' mov'') :
    KeepsTables keep mov mov'' where
  setup := h.setup.trans h'.setup
  tables u hu := (h.tables u hu).trans (h'.tables u hu)
  pages u hu := (h'.pages u hu).trans (h.pages u hu)

theorem KeepsTables.mono (h : KeepsTables keep mov mov') (hle : ∀ u, keep' u → keep u) :
    KeepsTables keep' mov mov' where
  setup := h.setup
  tables u hu := h.tables u (hle u hu)
  pages u hu := h.pages u (hle u hu)

section
variable {t u : TableKey} (h : KeepsTables keep mov mov') (ht : keep t) (hu : keep u)
include h ht hu

theorem KeepsTables.settled (hs : Settled mov t (mov.tinyPages u)) :
    Settled mov' t (mov'.tinyPages u) := by
  rw [h.pages u hu]
  exact (h.tables t ht).settled hs

theorem KeepsTables.pending (hp : Pending mov t (mov.tinyPages u)) :
    Pending mov' t (mov'.tinyPages u) := by
  rw [h.pages u hu]
  exact (h.tables t ht).pending hp

end

theorem setChunk_keepsTables (keep : TableKey → Prop) (mov : MuxMOVContext) (cnt : ℕ)
    (last : Option CodecType) :
    KeepsTables keep mov { mov with stscCnt := cnt, lastStreamIndex := last } where
  setup := ⟨⟨rfl,rfl,rfl,rfl,rfl⟩,rfl,rfl⟩
  tables _ _ := ⟨rfl,rfl,rfl,rfl,rfl,fun _ _ => rfl⟩
  pages _ _ := rfl

theorem SpillFrame.keepsTables {t : TableKey} {owner : CodecType}
    (h : SpillFrame t owner mov mov') :
    KeepsTables (fun u => u ≠ t ∧ u ≠ (t.1, owner)) mov mov' where
  setup := h.context.toSameSetup
  tables u hu := h.tables u hu.1
  pages u hu := h.pages u hu.2

theorem enterWord_keepsTables {t : TableKey} (hp : PtrInside mov t) (x : ℤ) :
    KeepsTables (fun u => u ≠ t) mov (enterWord mov t x) where
  setup := (enterWord_sameContext mov t x).toSameSetup
  tables _ hu := enterWord_sameTable hp hu x
  pages _ _ := rfl

end Keeps

/-- The stco and stsc tables between two packets. The stsc pages of a track are counted by
the other track. -/
structure ChunksSteady (mov : MuxMOVContext) : Prop where
  stco : ∀ s, Settled mov (.stco, s) (mov.tinyPages (.stco, s))
  stsc : ∀ s, Settled mov (.stsc, s) (mov.tinyPages (.stsc, s.other))

def Alternates (mov : MuxMOVContext) : Prop :=
  match mov.lastStreamIndex with
  | none => ∀ s, mov.totalNum (.stsc, s) = 0
  | some last => mov.totalNum (.stsc, last) ≤ mov.totalNum (.stsc, last.other) ∧
      mov.totalNum (.stsc, last.other) ≤ mov.totalNum (.stsc, last)+1

def isSampleTable (u : TableKey) : Prop := u.1 = .stsz ∨ u.1 = .stts

section Chunk
variable {mov : MuxMOVContext} {s : CodecType}

theorem CodecType.other_other (s : CodecType) : s.other.other = s := by
  cases s <;> rfl

theorem endChunk_steady
    (hstsc : ∀ u, Settled mov (.stsc, u) (mov.tinyPages (.stsc, u.other)))
    (hne : mov.lastStreamIndex ≠ some s) (io : Mp4Io) :
    (endChunk io mov s).Ensures fun mov' =>
      (∀ u, Settled mov' (.stsc, u) (mov'.tinyPages (.stsc, u.other))) ∧
        KeepsTables (fun u => u.1 ≠ .stsc) mov mov' ∧
        ∀ u, mov'.totalNum (.stsc, u) =
          mov.totalNum (.stsc, u)+if mov.lastStreamIndex = some u then 1 else 0 := by
  unfold endChunk
  match hlast : mov.lastStreamIndex with
  | none => exact ⟨hstsc,KeepsTables.refl _ mov,fun u => rfl⟩
  | some last =>
    have hother : last.other = s := by
      apply other_of_ne
      intro heq
      exact hne (by rw [hlast,heq])
    have hset := hstsc last
    have hpending := hset.enterWord mov.stscCnt
    rw [hother] at hpending
    apply (hpending.spillPage s rfl io).imp
    rintro mov' ⟨hsettled,hframe,htotal⟩
    refine ⟨?_,?_,?_⟩
    · intro u
      by_cases hu : u = last
      · rw [hu,hother]
        exact hsettled
      · -- the table of the new track and the page count of its pages are untouched
        have hus : u = s := by
          rw [← hother]
          exact (other_of_ne (Ne.symm hu)).symm
        have hpages : mov'.tinyPages (.stsc, u.other) = mov.tinyPages (.stsc, u.other) := by
          apply hframe.pages
          rw [hus,← hother,other_other]
          simp [(other_ne last).symm]
        rw [hpages]
        apply (hframe.tables _ (by simp [hu])).settled
        exact (enterWord_sameTable hset.inside (by simp [hu]) _).settled (hstsc u)
    · exact ((enterWord_keepsTables hset.inside _).mono (by rintro u hu rfl; exact hu rfl)).trans
        (hframe.keepsTables.mono fun u hu =>
        ⟨by rintro rfl; exact hu rfl,by rintro rfl; exact hu rfl⟩)
    · intro u
      rw [htotal]
      by_cases hu : u = last
      · rw [hu,if_pos rfl]
        exact update_self ..
      · rw [if_neg (by simp [Ne.symm hu])]
        exact update_of_ne (by simp [hu]) _ _

theorem ChunksSteady.startChunk (hc : ChunksSteady mov) (ha : Alternates mov)
    (hne : mov.lastStreamIndex ≠ some s) (io : Mp4Io) :
    (startChunk io mov s).Ensures fun mov' =>
      ChunksSteady mov' ∧ KeepsTables isSampleTable mov mov' ∧
        Alternates { mov' with lastStreamIndex := some s } := by
  let entered := enterWord mov (.stco, s) (mov.mdatSize+mov.mdatStartPos : ℕ)
  have hinside := (hc.stco s).inside
  have hpending : Pending entered (.stco, s) (mov.tinyPages (.stco, s)) :=
    (hc.stco s).enterWord _
  have hkeep : KeepsTables (fun u => u ≠ (.stco, s)) mov entered :=
    enterWord_keepsTables hinside _
  have hstsc : ∀ u, Settled entered (.stsc, u) (entered.tinyPages (.stsc, u.other)) :=
    fun u => (hkeep.tables _ (by simp)).settled (hc.stsc u)
  apply (endChunk_steady hstsc hne io).bind
  rintro mov1 ⟨hstsc1,hkeep1,htotal1⟩
  let zeroed : MuxMOVContext := { mov1 with stscCnt := 0 }
  have hzero (keep : TableKey → Prop) : KeepsTables keep mov1 zeroed := setChunk_keepsTables ..
  have hpending1 : Pending zeroed (.stco, s) (zeroed.tinyPages (.stco, s)) :=
    (hkeep1.trans (hzero _)).pending (by simp) (by simp) hpending
  apply (hpending1.spillPage s rfl io).imp
  rintro mov2 ⟨hsettled,hframe,htotal2⟩
  have hkeep2 : KeepsTables (fun u => u ≠ (.stco, s)) mov1 mov2 :=
    (hzero _).trans (hframe.keepsTables.mono fun u hu => ⟨hu,hu⟩)
  have hall : KeepsTables (fun u => u ≠ (.stco, s) ∧ u.1 ≠ .stsc) mov mov2 :=
    ((hkeep.mono fun _ => And.left).trans (hkeep1.mono fun _ => And.right)).trans
      (hkeep2.mono fun _ => And.left)
  refine ⟨⟨?_,?_⟩,hall.mono ?_,?_⟩
  · intro u
    by_cases hu : u = s
    · rw [hu]
      exact hsettled
    · exact hall.settled (by simp [hu]) (by simp [hu]) (hc.stco u)
  · exact fun u => hkeep2.settled (by simp) (by simp) (hstsc1 u)
  · rintro ⟨id,v⟩ (hu | hu) <;> cases hu <;> simp
  · -- only the chunk of the track before has been closed
    have htotals : ∀ u, mov2.totalNum (.stsc, u) =
        mov.totalNum (.stsc, u)+if mov.lastStreamIndex = some u then 1 else 0 := by
      intro u
      rw [htotal2]
      exact htotal1 u
    unfold Alternates at ha ⊢
    dsimp only
    rw [htotals,htotals]
    match hlast : mov.lastStreamIndex with
    | none =>
      rw [hlast] at ha
      rw [ha,ha]
      simp
    | some last =>
      have hother : last = s.other := by
        symm
        apply other_of_ne
        rintro rfl
        exact hne hlast
      rw [hlast] at ha
      dsimp only at ha
      rw [hother,other_other] at ha
      rw [hother,if_pos rfl,if_neg (by simp [other_ne])]
      omega

end Chunk

structure SizesSteady (mov : MuxMOVContext) (s : CodecType) : Prop where
  inside : PtrInside mov (.stsz, s)
  counted : (∀ trk, mov.tracks s = some trk → trk.enc.codecId ≠ .pcm) →
    Counted mov (.stsz, s) (mov.tinyPages (.stsz, s)) (cacheCap .stsz)
  pcm : ∀ trk, mov.tracks s = some trk → trk.enc.codecId = .pcm →
    mov.cacheSize (.stsz, s) = 0 ∧ mov.tinyPages (.stsz, s) = 0

section Sizes
variable {mov mov' : MuxMOVContext} {s : CodecType} {trk : MOVTrack}

theorem SizesSteady.congr (h : SizesSteady mov s) (htable : SameTable (.stsz, s) mov mov')
    (hpages : mov'.tinyPages (.stsz, s) = mov.tinyPages (.stsz, s))
    (htracks : mov'.tracks = mov.tracks) : SizesSteady mov' s where
  inside := htable.ptrInside h.inside
  counted hcodec := by
    rw [htracks] at hcodec
    rw [hpages]
    exact (h.counted hcodec).congr htable.size htable.total
  pcm := by
    rw [htracks,htable.size,hpages]
    exact h.pcm

theorem SizesSteady.addSample (h : SizesSteady mov s) (htrk : mov.tracks s = some trk)
    (hbytes : trk.enc.codecId = .pcm → pcmSampleBytes trk.enc ≠ 0) (size : ℕ) (io : Mp4Io) :
    (addSample io mov trk s size).Ensures fun mov' =>
      SizesSteady mov' s ∧ KeepsTables (fun u => u ≠ (.stsz, s)) mov mov' ∧
        mov'.lastStreamIndex = mov.lastStreamIndex ∧
        (trk.enc.codecId ≠ .pcm → mov'.totalNum (.stsz, s) = mov.totalNum (.stsz, s)+1) := by
  unfold Mp4.addSample countSample
  by_cases hpcm : trk.enc.codecId = .pcm
  · rw [if_pos hpcm,if_neg (hbytes hpcm)]
    obtain ⟨hsize,hpages⟩ := h.pcm trk htrk hpcm
    obtain ⟨j,hj,hw⟩ := h.inside
    let counted : MuxMOVContext :=
      { mov with
        totalNum := Function.update mov.totalNum (.stsz, s)
          (toWord (mov.totalNum (.stsz, s)+(size : ℤ).tdiv (pcmSampleBytes trk.enc)))
        stscCnt := toWord (mov.stscCnt+(size : ℤ).tdiv (pcmSampleBytes trk.enc)) }
    change (spillPage io (wrapWritePtr counted (.stsz, s)) (.stsz, s) s).Ensures _
    -- nothing is cached, so no page can be moved
    have hroom : (wrapWritePtr counted (.stsz, s)).cacheSize (.stsz, s) < cacheCap .stsz := by
      change mov.cacheSize (.stsz, s) < cacheCap .stsz
      rw [hsize]
      exact cacheCap_pos _
    rw [spillPage,if_pos hroom]
    have hinside : PtrInside (wrapWritePtr counted (.stsz, s)) (.stsz, s) :=
      wrapWritePtr_inside hj.le hw
    refine ⟨⟨hinside,?_,fun _ _ _ => ⟨hsize,hpages⟩⟩,?_,rfl,absurd hpcm⟩
    · intro hcodec
      exact absurd hpcm (hcodec trk htrk)
    · exact
        { setup := ⟨⟨rfl,rfl,rfl,rfl,rfl⟩,rfl,rfl⟩
          tables := fun u hu => ⟨update_of_ne hu _ _,rfl,rfl,update_of_ne hu _ _,rfl,fun _ _ => rfl⟩
          pages := fun _ _ => rfl }
  · rw [if_neg hpcm]
    let entered := enterWord mov (.stsz, s) size
    let counted : MuxMOVContext := { entered with stscCnt := entered.stscCnt+1 }
    have hcodec : ∀ trk', mov.tracks s = some trk' → trk'.enc.codecId ≠ .pcm := by
      rintro trk' htrk'
      rw [htrk] at htrk'
      cases htrk'
      exact hpcm
    have hsettled : Settled mov (.stsz, s) (mov.tinyPages (.stsz, s)) :=
      ⟨h.counted hcodec,h.inside⟩
    have hkeep := enterWord_keepsTables h.inside size
    have hsame (keep : TableKey → Prop) : KeepsTables keep entered counted :=
      setChunk_keepsTables ..
    have hpending : Pending counted (.stsz, s) (counted.tinyPages (.stsz, s)) :=
      ((hsame fun _ => True).tables _ trivial).pending (hsettled.enterWord size)
    apply (hpending.spillPage s rfl io).imp
    rintro mov' ⟨hset,hframe,htotal⟩
    have htracks : mov'.tracks = mov.tracks := hframe.context.tracks
    refine ⟨⟨hset.inside,fun _ => hset.toCounted, ?_⟩,?_,hframe.context.lastStreamIndex,?_⟩
    · intro trk' htrk' hpcm'
      rw [htracks] at htrk'
      exact absurd hpcm' (hcodec trk' htrk')
    · exact (hkeep.trans (hsame _)).trans (hframe.keepsTables.mono fun u hu => ⟨hu,hu⟩)
    · intro _
      rw [htotal]
      exact update_self ..

end Sizes

structure Steady (mov : MuxMOVContext) : Prop extends ChunksSteady mov where
  turn : Alternates mov
  sizes : ∀ s, SizesSteady mov s

section Packet
variable {mov mov' : MuxMOVContext} {s : CodecType} {trk : MOVTrack}

theorem Steady.congr (h : Steady mov) (htables : ∀ u : TableKey, u.1 ≠ .stts → SameTable u mov mov')
    (hpages : ∀ u : TableKey, u.1 ≠ .stts → mov'.tinyPages u = mov.tinyPages u)
    (htracks : mov'.tracks = mov.tracks) (hlast : mov'.lastStreamIndex = mov.lastStreamIndex) :
    Steady mov' where
  stco u := by
    rw [hpages _ (by simp)]
    exact (htables _ (by simp)).settled (h.stco u)
  stsc u := by
    rw [hpages _ (by simp)]
    exact (htables _ (by simp)).settled (h.stsc u)
  turn := by
    have hturn := h.turn
    unfold Alternates at hturn ⊢
    rw [hlast]
    simp only [(htables (.stsc, _) (by simp)).total]
    exact hturn
  sizes u := (h.sizes u).congr (htables _ (by simp)) (hpages _ (by simp)) htracks

theorem Steady.addToChunk (h : Steady mov) (s : CodecType) (io : Mp4Io) :
    (addToChunk io mov s).Ensures fun mov' =>
      Steady { mov' with lastStreamIndex := some s } ∧ KeepsTables isSampleTable mov mov' := by
  unfold Mp4.addToChunk
  split
  case isTrue hsame =>
    refine ⟨h.congr (fun u _ => ⟨rfl,rfl,rfl,rfl,rfl,fun _ _ => rfl⟩) (fun _ _ => rfl) rfl
      hsame.symm, KeepsTables.refl _ mov⟩
  case isFalse hne =>
    apply (h.toChunksSteady.startChunk h.turn hne io).imp
    rintro mov' ⟨hchunks,hkeep,hturn⟩
    have hset := setChunk_keepsTables (fun _ => True) mov' mov'.stscCnt (some s)
    refine ⟨⟨⟨?_,?_⟩,hturn,?_⟩,hkeep⟩
    · exact fun u => hset.settled trivial trivial (hchunks.stco u)
    · exact fun u => hset.settled trivial trivial (hchunks.stsc u)
    · intro u
      exact (h.sizes u).congr ((hkeep.tables _ (Or.inl rfl)).trans (hset.tables _ trivial))
        (hkeep.pages _ (Or.inl rfl)) hkeep.setup.tracks

theorem Steady.enterSample (h : Steady mov) (htrk : mov.tracks s = some trk)
    (hbytes : trk.enc.codecId = .pcm → pcmSampleBytes trk.enc ≠ 0) (size : ℕ) (io : Mp4Io) :
    ((Mp4.addToChunk io mov s).bind fun mov =>
      addSample io { mov with lastStreamIndex := some s } trk s size).Ensures fun mov' =>
        Steady mov' ∧ KeepsTables (fun u => u.1 = .stts) mov mov' ∧
          (∀ u ≠ s, mov'.totalNum (.stsz, u) = mov.totalNum (.stsz, u)) ∧
          (trk.enc.codecId ≠ .pcm → mov'.totalNum (.stsz, s) = mov.totalNum (.stsz, s)+1) := by
  apply (h.addToChunk s io).bind
  rintro mov1 ⟨hsteady,hkeep1⟩
  let switched : MuxMOVContext := { mov1 with lastStreamIndex := some s }
  have htrk1 : switched.tracks s = some trk := by
    rw [hkeep1.setup.tracks]
    exact htrk
  apply ((hsteady.sizes s).addSample htrk1 hbytes size io).imp
  rintro mov2 ⟨hsizes,hkeep2,hlast,htotal⟩
  have htable2 : ∀ u : TableKey, u ≠ (.stsz, s) → SameTable u switched mov2 := hkeep2.tables
  have htracks : mov2.tracks = mov1.tracks := hkeep2.setup.tracks
  have hstsz : ∀ u, mov1.totalNum (.stsz, u) = mov.totalNum (.stsz, u) :=
    fun u => (hkeep1.tables _ (Or.inl rfl)).total
  refine ⟨⟨⟨?_,?_⟩,?_,?_⟩,?_,?_,?_⟩
  · exact fun u => hkeep2.settled (by simp) (by simp) (hsteady.stco u)
  · exact fun u => hkeep2.settled (by simp) (by simp) (hsteady.stsc u)
  · have hturn := hsteady.turn
    unfold Alternates at hturn ⊢
    rw [hlast]
    dsimp only at hturn ⊢
    rw [(htable2 _ (by simp)).total,(htable2 _ (by simp)).total]
    exact hturn
  · intro u
    by_cases hu : u = s
    · rw [hu]
      exact hsizes
    · have hkey : (MuxChunkID.stsz, u) ≠ (.stsz, s) := by simp [hu]
      exact (hsteady.sizes u).congr (htable2 _ hkey) (hkeep2.pages _ hkey) htracks
  · refine ((hkeep1.mono fun _ => Or.inr).trans (setChunk_keepsTables ..)).trans (hkeep2.mono ?_)
    rintro u hu rfl
    cases hu
  · intro u hu
    rw [(htable2 (.stsz, u) (by simp [hu])).total]
    exact hstsz u
  · intro hpcm
    rw [htotal hpcm]
    exact congrArg (· + 1) (hstsz s)

end Packet

abbrev videoStts : TableKey := (.stts, .video)

section Duration
variable {mov : MuxMOVContext} {pages : ℕ}

theorem durationStored_total (mov : MuxMOVContext) (pts : ℤ) :
    (durationStored mov pts).totalNum videoStts = mov.totalNum videoStts+1 := by
  unfold durationStored
  split <;> exact count_total ..

theorem Counted.durationStored (h : Counted mov videoStts pages (cacheCap .stts)) (pts : ℤ) :
    Counted (durationStored mov pts) videoStts pages (cacheCap .stts+1) := by
  unfold Mp4.durationStored
  split
  · have hput : Counted (putWord mov videoStts (pts-mov.lastPts .video)) videoStts pages
        (cacheCap .stts) := h.congr rfl rfl
    exact hput.count
  · exact h.count

theorem Settled.addDuration (h : Settled mov videoStts (mov.tinyPages videoStts)) (pts : ℤ)
    (io : Mp4Io) :
    (addDuration io mov pts).Ensures fun mov' =>
      Settled mov' videoStts (mov'.tinyPages videoStts) ∧
        mov'.totalNum videoStts = mov.totalNum videoStts+1 := by
  obtain ⟨j,hj,hw⟩ := h.inside
  have hpages := (durationStored_context mov pts).2
  have hptr := durationStored_writePtr mov pts
  have hcounted : Counted (durationStored mov pts) videoStts (mov.tinyPages videoStts)
      (cacheCap .stts+1) := h.toCounted.durationStored pts
  have hpending : Pending (durationStored mov pts) videoStts (mov.tinyPages videoStts) := by
    refine ⟨hcounted,j+(if mov.lastPts .video > 0 then 1 else 0),?_,?_⟩
    · split
      · exact hj
      · exact hj.le
    · rw [hptr,hw,Nat.add_assoc]
  apply (hpending.spillPage .video (congrFun hpages _) io).imp
  rintro mov' ⟨hsettled,-,htotal⟩
  exact ⟨hsettled,by rw [htotal,durationStored_total]⟩

end Duration

structure PacketWritten (c : Mp4MuxContext) (pkt : Packet) (c' : Mp4MuxContext) : Prop where
  steady : Steady c'.mov
  tracks : c'.mov.tracks = c.mov.tracks
  playTimeLength : c'.mov.playTimeLength = c.mov.playTimeLength
  lastPts : c'.mov.lastPts = Function.update c.mov.lastPts pkt.streamIndex pkt.pts
  otherSamples : ∀ u ≠ pkt.streamIndex, c'.mov.totalNum (.stsz, u) = c.mov.totalNum (.stsz, u)
  samples : ∀ trk, c.mov.tracks pkt.streamIndex = some trk → trk.enc.codecId ≠ .pcm →
    c'.mov.totalNum (.stsz, pkt.streamIndex) = c.mov.totalNum (.stsz, pkt.streamIndex)+1

section Write
variable {c : Mp4MuxContext} {mov : MuxMOVContext} {trk : MOVTrack} {pkt : Packet}
  {Q : MuxMOVContext → Prop}

theorem addToTables_eq (io : Mp4Io) (mov : MuxMOVContext) (trk : MOVTrack) (pkt : Packet) :
    addToTables io mov trk pkt = ((addToChunk io mov pkt.streamIndex).bind fun mov =>
      addSample io { mov with lastStreamIndex := some pkt.streamIndex } trk pkt.streamIndex
        (packetSize trk pkt)).bind fun mov => addVideoSample io mov trk pkt :=
  (Outcome.bind_assoc _ _ _).symm

theorem Steady.addVideoSample (h : Steady mov) (hin : PtrInside mov videoStts)
    (hQ : ∀ m m', SameTable videoStts m m' → m'.tinyPages videoStts = m.tinyPages videoStts →
      Q m → Q m')
    (hkey : pkt.streamIndex = .video → isKeyFrame mov trk pkt = some true →
      mov.keyFrameNum .video < keyframeCacheEntries) {io : Mp4Io}
    (hstts : match pkt.streamIndex with
      | .video => (addDuration io mov pkt.pts).Ensures Q
      | .audio => Q mov) :
    (addVideoSample io mov trk pkt).Ensures fun mov' =>
      Steady mov' ∧ Q mov' ∧ SameMedia mov mov' ∧
        ∀ u, mov'.totalNum (.stsz, u) = mov.totalNum (.stsz, u) := by
  unfold Mp4.addVideoSample
  match hs : pkt.streamIndex with
  | .audio =>
    rw [hs] at hstts
    exact ⟨h,hstts,(SameContext.refl mov).toSameMedia,fun _ => rfl⟩
  | .video =>
    rw [hs] at hstts
    apply ((addDuration_frame hin pkt.pts io).and hstts).bind
    rintro mov1 ⟨⟨hframe,-⟩,hQ1⟩
    have hctx := hframe.context
    have hkey1 : isKeyFrame mov1 trk pkt = some true →
        mov1.keyFrameNum .video < keyframeCacheEntries := by
      rw [isKeyFrame_congr hctx.keyframeNum,hctx.keyFrameNum]
      exact hkey hs
    have hne : ∀ u : TableKey, u.1 ≠ .stts → u ≠ videoStts := by
      rintro u hu rfl
      exact hu rfl
    have hsteady1 : Steady mov1 :=
      h.congr (fun u hu => hframe.tables u (hne u hu)) (fun u hu => hframe.pages u (hne u hu))
        hctx.tracks hctx.lastStreamIndex
    apply (addKeyFrame_cases hkey1).imp
    rintro mov2 ⟨frames,num,counter,rfl⟩
    refine ⟨hsteady1.congr (fun u _ => ⟨rfl,rfl,rfl,rfl,rfl,fun _ _ => rfl⟩) (fun _ _ => rfl)
      rfl rfl, hQ mov1 _ ⟨rfl,rfl,rfl,rfl,rfl,fun _ _ => rfl⟩ rfl hQ1, ?_,?_⟩
    · exact hctx.toSameMedia.trans ⟨rfl,rfl,rfl,rfl,rfl⟩
    · exact fun u => (hframe.tables _ (by simp)).total

theorem Steady.mp4WritePacket (h : Steady c.mov) (hin : PtrInside c.mov videoStts)
    (hpcm : ∀ s trk, c.mov.tracks s = some trk → trk.enc.codecId = .pcm →
      pcmSampleBytes trk.enc ≠ 0)
    (hkey : recordsKeyFrame c.mov pkt = true → c.mov.keyFrameNum .video < keyframeCacheEntries)
    (hQ : ∀ m m', SameTable videoStts m m' → m'.tinyPages videoStts = m.tinyPages videoStts →
      Q m → Q m') {io : Mp4Io}
    (hstts : ∀ mov, KeepsTables (fun u => u.1 = .stts) c.mov mov → match pkt.streamIndex with
      | .video => (addDuration io mov pkt.pts).Ensures Q
      | .audio => Q mov) :
    (mp4WritePacket io c pkt).Ensures fun c' => PacketWritten c pkt c' ∧ Q c'.mov := by
  unfold Mp4.mp4WritePacket
  match htrk : c.mov.tracks pkt.streamIndex with
  | none => exact trivial
  | some trk =>
    dsimp only
    rw [addToTables_eq]
    apply Outcome.Ensures.bind (P := fun mov' => Steady mov' ∧ Q mov' ∧ SameMedia c.mov mov' ∧
      (∀ u ≠ pkt.streamIndex, mov'.totalNum (.stsz, u) = c.mov.totalNum (.stsz, u)) ∧
      (trk.enc.codecId ≠ .pcm → mov'.totalNum (.stsz, pkt.streamIndex) =
        c.mov.totalNum (.stsz, pkt.streamIndex)+1))
    · apply Outcome.Ensures.mapFailed
      apply (h.enterSample htrk (hpcm _ trk htrk) (packetSize trk pkt) io).bind
      rintro mov1 ⟨hsteady1,hkeep1,hother,hself⟩
      have hin1 : PtrInside mov1 videoStts := (hkeep1.tables videoStts rfl).ptrInside hin
      have hkey1 : pkt.streamIndex = .video → isKeyFrame mov1 trk pkt = some true →
          mov1.keyFrameNum .video < keyframeCacheEntries := by
        intro hvideo hframe
        rw [isKeyFrame_congr hkeep1.setup.keyframeNum] at hframe
        rw [hkeep1.setup.keyFrameNum]
        apply hkey
        rw [hvideo] at htrk
        simp [recordsKeyFrame,hvideo,htrk,hframe]
      apply (hsteady1.addVideoSample hin1 hQ hkey1 (hstts mov1 hkeep1)).imp
      rintro mov2 ⟨hsteady2,hQ2,hmedia2,htotal2⟩
      refine ⟨hsteady2,hQ2,hkeep1.setup.toSameMedia.trans hmedia2,?_,?_⟩
      · intro u hu
        rw [htotal2,hother u hu]
      · intro hcodec
        rw [htotal2,hself hcodec]
    · rintro mov' ⟨hsteady',hQ',hmedia,hother,hself⟩
      apply (writeMedia_ensures io { c with mov := mov' } trk pkt).imp
      rintro c' ⟨-,hc'⟩
      have hsame : ∀ u, SameTable u mov' c'.mov := by
        intro u
        rw [hc']
        exact ⟨rfl,rfl,rfl,rfl,rfl,fun _ _ => rfl⟩
      have hpages : c'.mov.tinyPages = mov'.tinyPages := by rw [hc']; rfl
      refine ⟨?_,hQ mov' c'.mov (hsame _) (congrFun hpages _) hQ'⟩
      exact
        { steady := hsteady'.congr (fun u _ => hsame u) (fun u _ => congrFun hpages u)
            (by rw [hc']; rfl) (by rw [hc']; rfl)
          tracks := by rw [hc']; exact hmedia.tracks
          playTimeLength := by rw [hc']; exact hmedia.playTimeLength
          lastPts := by rw [hc',← hmedia.lastPts]; rfl
          otherSamples := fun u hu => by rw [(hsame _).total,hother u hu]
          samples := fun trk' htrk' hcodec => by
            rw [htrk] at htrk'
            cases htrk'
            rw [(hsame _).total,hself hcodec] }

end Write

end TinaPackage.Mp4
