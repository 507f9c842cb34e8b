import TinaPackage.HlsSegments

/-! Sequence numbers and base times of the items of a media playlist. -/
namespace TinaPackage.Hls
open List Option

variable {abi : Abi} {strtodUs : Strtod}

/-- The number of the first `#EXT-X-MEDIA-SEQUENCE` line; a later one does not replace it. -/
def firstSequence (past : List Line) : Option ℤ :=
  past.findSome? fun l => if tagOf l = .mediaSequence then parseNumber l else none

/-- The lines up to the last `#EXT-X-MEDIA-SEQUENCE`, which starts the numbering again. -/
def uptoSequence (past : List Line) : List Line :=
  (past.reverse.dropWhile (tagOf · ≠ .mediaSequence)).reverse

/-- The number of the item that comes next: the media sequence plus the count of the items
since its tag, as a 32-bit integer. -/
def sequenceNumber (strtodUs : Strtod) (past : List Line) : ℤ :=
  int32 ((firstSequence past).getD 0+(segments strtodUs past).length
    - (segments strtodUs (uptoSequence past)).length)

/-- The playing time of segments. A negative duration stands for an unknown one. -/
def elapsed (segs : List Segment) : ℤ := (segs.map fun s => max s.durationUs 0).sum

def lastTimed (segs : List Segment) : Option Segment := segs.reverse.find? (0 ≤ ·.durationUs)

theorem firstSequence_append (past : List Line) (l : Line) :
    firstSequence (past ++ [l]) = (firstSequence past).or
      (if tagOf l = .mediaSequence then parseNumber l else none) := by
  unfold firstSequence
  rw [findSome?_append,findSome?_singleton]

variable {past : List Line} {l : Line} {v : ℤ} {baseURI : List Char}

theorem uptoSequence_append_of_ne (h : tagOf l ≠ .mediaSequence) :
    uptoSequence (past ++ [l]) = uptoSequence past := by
  unfold uptoSequence
  rw [reverse_append,reverse_singleton,singleton_append,dropWhile_cons_of_pos (by simpa using h)]

theorem uptoSequence_append_of_eq (h : tagOf l = .mediaSequence) :
    uptoSequence (past ++ [l]) = past ++ [l] := by
  unfold uptoSequence
  rw [reverse_append,reverse_singleton,singleton_append,
    dropWhile_cons_of_neg (by simpa using h),reverse_cons,reverse_reverse]

theorem parseNumber_bounds (h : parseNumber l = some v) : 0 ≤ v ∧ v < 2^31 := by
  unfold parseNumber at h
  split at h
  · rename_i x rest hx
    split at h
    · cases h
      exact ⟨Int.emod_nonneg _ (by decide),Int.emod_lt_of_pos _ (by decide)⟩
    · cases h
  · cases h

theorem firstSequence_bounds (h : firstSequence past = some v) : 0 ≤ v ∧ v < 2^31 := by
  obtain ⟨l,-,hl⟩ := exists_of_findSome?_eq_some h
  split at hl
  · exact parseNumber_bounds hl
  · cases hl

structure ItemOf (strtodUs : Strtod) (baseURI : List Char)
    (item : PlaylistItem) (s : Segment) : Prop where
  mURI : item.mURI = (makeURL baseURI (cstr s.uri)).toOption
  durationUs : item.durationUs = max s.durationUs 0
  seqNum : 0 ≤ s.durationUs → item.seqNum = sequenceNumber strtodUs s.before
  baseTimeUs : 0 ≤ s.durationUs → item.baseTimeUs = int64 (elapsed (segments strtodUs s.before))

structure Timeline (strtodUs : Strtod) (baseURI : List Char)
    (past : List Line) (st : ParseState) : Prop where
  first : st.playList.mMeta.find .mediaSequence = (firstSequence past).map .int32
  seqNum : st.seqNum = sequenceNumber strtodUs past
  items : List.Forall₂ (ItemOf strtodUs baseURI) st.playList.mItems (segments strtodUs past)
  total : st.playList.mDurationUs = int64 (elapsed (segments strtodUs past))
  last : ∀ s, lastTimed (segments strtodUs past) = some s →
    st.playList.lastSeqNum = sequenceNumber strtodUs s.before

theorem elapsed_append (segs : List Segment) (s : Segment) :
    elapsed (segs ++ [s]) = elapsed segs+max s.durationUs 0 := by
  simp [elapsed]

theorem lastTimed_append (segs : List Segment) (s : Segment) :
    lastTimed (segs ++ [s]) = if 0 ≤ s.durationUs then some s else lastTimed segs := by
  unfold lastTimed
  by_cases h : 0 ≤ s.durationUs <;> simp [h]

theorem sequenceNumber_append_of_ne (htag : tagOf l ≠ .mediaSequence)
    (hnone : tagOf l = .uri → durationIn strtodUs (blockOf strtodUs past) = none) :
    sequenceNumber strtodUs (past ++ [l]) = sequenceNumber strtodUs past := by
  unfold sequenceNumber
  rw [firstSequence_append,if_neg htag,or_none,uptoSequence_append_of_ne htag,
    (scan_append_of_none hnone).2]

variable {d : ℤ}

theorem sequenceNumber_append_of_some (htag : tagOf l = .uri)
    (hd : durationIn strtodUs (blockOf strtodUs past) = some d) :
    sequenceNumber strtodUs (past ++ [l]) = int32 (sequenceNumber strtodUs past+1) := by
  have hne : tagOf l ≠ .mediaSequence := by simp [htag]
  unfold sequenceNumber int32
  rw [firstSequence_append,if_neg hne,or_none,uptoSequence_append_of_ne hne,
    (scan_append_of_some htag hd).2,Int.bmod_add_bmod,length_append,length_singleton]
  congr 1
  omega

theorem sequenceNumber_append_of_sequence (htag : tagOf l = .mediaSequence)
    (hv : parseNumber l = some v) :
    sequenceNumber strtodUs (past ++ [l]) = (firstSequence past).getD v := by
  unfold sequenceNumber
  rw [uptoSequence_append_of_eq htag,Int.add_sub_cancel,firstSequence_append,if_pos htag,hv]
  -- a media sequence has 31 bits and is not changed by the conversion
  have hbounds : 0 ≤ (firstSequence past).getD v ∧ (firstSequence past).getD v < 2^31 := by
    cases hf : firstSequence past with
    | none => exact parseNumber_bounds hv
    | some w => exact firstSequence_bounds hf
  have hget : ((firstSequence past).or (some v)).getD 0 = (firstSequence past).getD v := by
    cases firstSequence past <;> rfl
  rw [hget]
  apply int32_of_range
  · omega
  · unfold intMax
    omega

theorem timeline_initialState (baseURI : List Char) :
    Timeline strtodUs baseURI [] (initialState baseURI) where
  first := rfl
  seqNum := by
    simp [initialState,sequenceNumber,firstSequence,uptoSequence,segments,scanRev,int32]
  items := .nil
  total := by simp [initialState,initialPlaylist,elapsed,segments,scanRev,int64]
  last := by simp [segments,scanRev,lastTimed]

variable {st st' : ParseState}

theorem Timeline.of_same (h : Timeline strtodUs baseURI past st) (huri : tagOf l ≠ .uri)
    (hseq : tagOf l ≠ .mediaSequence)
    (hfirst : st'.playList.mMeta.find .mediaSequence = st.playList.mMeta.find .mediaSequence)
    (hnumber : st'.seqNum = st.seqNum) (hitems : st'.playList.mItems = st.playList.mItems)
    (htotal : st'.playList.mDurationUs = st.playList.mDurationUs)
    (hlast : st'.playList.lastSeqNum = st.playList.lastSeqNum) :
    Timeline strtodUs baseURI (past ++ [l]) st' := by
  have hsegs : segments strtodUs (past ++ [l]) = segments strtodUs past :=
    (scan_append_of_none fun htag => absurd htag huri).2
  constructor
  · rw [hfirst,h.first,firstSequence_append,if_neg hseq,or_none]
  · rw [hnumber,h.seqNum,sequenceNumber_append_of_ne hseq fun htag => absurd htag huri]
  · rw [hitems,hsegs]
    exact h.items
  · rw [htotal,hsegs]
    exact h.total
  · rw [hlast,hsegs]
    exact h.last

theorem Timeline.addItem {baseURI : List Char} {past : List Line} {l : Line} {st : ParseState}
    (h : Timeline strtodUs baseURI past st) (hbase : st.playList.mBaseURI = baseURI)
    (hpending : Pending strtodUs past st) (htag : tagOf l = .uri)
    (hd : durationIn strtodUs (blockOf strtodUs past) = some d) :
    Timeline strtodUs baseURI (past ++ [l]) (addItem st l d) := by
  have hsegs := (scan_append_of_some htag hd).2
  have hbandwidth : st.itemMeta.findInt64 .bandwidth = none := by
    unfold AMessage.findInt64
    rw [hpending.bandwidth]
  have hitem : ItemOf strtodUs baseURI (newItem st l d) ⟨past,l,d⟩ := by
    unfold newItem
    constructor
    · simp [hbase]
    · simp only [hbandwidth,filter_none,getD_none]
      split <;> omega
    · intro h0
      simpa [hbandwidth,show 0 ≤ d from h0] using h.seqNum
    · intro h0
      simpa [hbandwidth,show 0 ≤ d from h0] using h.total
  constructor
  · rw [firstSequence_append,if_neg (by simp [htag]),or_none]
    exact h.first
  · rw [sequenceNumber_append_of_some htag hd,← h.seqNum]
    rfl
  · rw [hsegs]
    exact rel_append h.items (.cons hitem .nil)
  · rw [hsegs,elapsed_append]
    unfold Hls.addItem
    by_cases h0 : 0 ≤ d
    · simp only [if_pos h0,h.total,int64,Int.bmod_add_bmod]
      congr 2
      omega
    · simp only [if_neg h0,h.total]
      congr 1
      omega
  · rw [hsegs,lastTimed_append]
    unfold Hls.addItem
    intro s hs
    by_cases h0 : 0 ≤ d
    · simp only [if_pos h0,some.injEq] at hs ⊢
      subst hs
      exact h.seqNum
    · simp only [if_neg h0] at hs ⊢
      exact h.last s hs

theorem MediaStep.timeline (hmedia : st.playList.mIsVariantPlaylist = false)
    (hbase : st.playList.mBaseURI = baseURI) (hpending : Pending strtodUs past st)
    (h : Timeline strtodUs baseURI past st) (hstep : MediaStep abi strtodUs st l st') :
    Timeline strtodUs baseURI (past ++ [l]) st' := by
  cases hstep with
  | @targetDuration v m tag hm =>
    have hfirst : m.find .mediaSequence = st.playList.mMeta.find .mediaSequence :=
      (AMessage.extends_of_append hm).find_of_forall_ne (by simp)
    exact h.of_same (by simp [tag]) (by simp [tag]) hfirst rfl rfl rfl rfl
  | @mediaSequence v m tag hv hm =>
    have hfind : m.find .mediaSequence = ((firstSequence past).getD v |> some).map .int32 := by
      have : m.find .mediaSequence = _ := AMessage.find_of_mAtom_append hm
      rw [this,h.first]
      cases firstSequence past <;> rfl
    have hsegs : segments strtodUs (past ++ [l]) = segments strtodUs past :=
      (scan_append_of_none fun htag => by simp [tag] at htag).2
    constructor
    · rw [firstSequence_append,if_pos tag,hv]
      refine hfind.trans ?_
      cases firstSequence past <;> rfl
    · rw [sequenceNumber_append_of_sequence tag hv]
      unfold AMessage.findInt32
      rw [hfind]
      rfl
    · rw [hsegs]
      exact h.items
    · rw [hsegs]
      exact h.total
    · rw [hsegs]
      exact h.last
  | noKey tag _ _ | key tag _ _ | extinf tag _ _ | discontinuity tag _ | byteRange tag _ _ =>
    exact h.of_same (by simp [tag]) (by simp [tag]) rfl rfl rfl rfl rfl
  | other tag hp =>
    have huri : tagOf l ≠ .uri := by
      intro htag
      simp [htag] at tag
    have hseq : tagOf l ≠ .mediaSequence := by
      intro htag
      simp [htag] at tag
    exact h.of_same huri hseq (by rw [hp.mMeta]) rfl hp.mItems hp.mDurationUs hp.lastSeqNum
  | uri tag =>
    rw [parseUri_of_pending hmedia hpending]
    cases hd : durationIn strtodUs (blockOf strtodUs past) with
    | some d => exact h.addItem hbase hpending tag hd
    | none =>
      have hsegs : segments strtodUs (past ++ [l]) = segments strtodUs past :=
        (scan_append_of_none fun _ => hd).2
      constructor
      · rw [firstSequence_append,if_neg (by simp [tag]),or_none]
        exact h.first
      · rw [sequenceNumber_append_of_ne (by simp [tag]) fun _ => hd]
        exact h.seqNum
      · rw [hsegs]
        exact h.items
      · rw [hsegs]
        exact h.total
      · rw [hsegs]
        exact h.last

variable {i : ℕ} {segs : List Segment}

theorem lastTimed_eq_some {s : Segment} (hs : segs[i]? = some s) (h0 : 0 ≤ s.durationUs)
    (hlater : ∀ s' ∈ segs.drop (i+1), s'.durationUs < 0) :
    lastTimed segs = some s := by
  obtain ⟨hi,rfl⟩ := List.getElem?_eq_some_iff.mp hs
  have hsplit : segs = segs.take i ++ segs[i] :: segs.drop (i+1) := by
    rw [getElem_cons_drop,take_append_drop]
  unfold lastTimed
  conv_lhs => rw [hsplit]
  rw [reverse_append,reverse_cons,append_assoc,find?_append,
    find?_eq_none.mpr (by simpa using hlater)]
  simp [h0]

theorem sum_durationUs_eq_elapsed {items : List PlaylistItem}
    (h : List.Forall₂ (ItemOf strtodUs baseURI) items segs) :
    (items.map (·.durationUs)).sum = elapsed segs := by
  induction h with
  | nil => rfl
  | cons hitem _ ih =>
    simp only [map_cons,sum_cons,elapsed] at ih ⊢
    rw [ih,hitem.durationUs]

/-- The timeline of an accepted media playlist. Its items are the URI lines with an `#EXTINF` since
the item before. An item whose duration is known has the sequence number that the tag in force gives
it and begins when the items before it end; the playlist lasts as long as its items, and its last
number is that of its last item of known duration. -/
theorem media_timeline (abi : Abi) (strtodUs : Strtod)
    (data baseURI : List Char) (p : Playlist)
    (h : m3u8Parse abi strtodUs data baseURI = .done p) (hmedia : p.mIsVariantPlaylist = false) :
    p.mItems.map (·.mURI) = (segments strtodUs (bodyOf data)).map
        (fun s => (makeURL baseURI (cstr s.uri)).toOption) ∧
      p.mItems.map (·.durationUs) = (segments strtodUs (bodyOf data)).map
        (fun s => max s.durationUs 0) ∧
      (∀ (i : ℕ) (item : PlaylistItem) (s : Segment), p.mItems[i]? = some item →
        (segments strtodUs (bodyOf data))[i]? = some s → 0 ≤ s.durationUs →
        item.seqNum = int32 ((firstSequence s.before).getD 0+i
          - (segments strtodUs (uptoSequence s.before)).length) ∧
        item.baseTimeUs = int64 ((p.mItems.take i).map (·.durationUs)).sum ∧
        ((∀ s' ∈ (segments strtodUs (bodyOf data)).drop (i+1), s'.durationUs < 0) →
          p.lastSeqNum = item.seqNum)) ∧
      p.mDurationUs = int64 (p.mItems.map (·.durationUs)).sum := by
  obtain ⟨st,rfl,hinv⟩ := media_history h hmedia (Timeline strtodUs baseURI)
    (timeline_initialState baseURI) fun past st l st' hm hb hp hi hs => hs.timeline hm hb hp hi
  refine ⟨?_,?_,?_,?_⟩
  · exact map_eq_map_of_forall₂ hinv.items fun item s hitem => hitem.mURI
  · exact map_eq_map_of_forall₂ hinv.items fun item s hitem => hitem.durationUs
  · intro i item s hitem hs h0
    have hof : ItemOf strtodUs baseURI item s := forall₂_getElem? hinv.items hitem hs
    have hbefore := segments_before _ i s hs
    have hcount : (segments strtodUs s.before).length = i := by
      have hi := (List.getElem?_eq_some_iff.mp hs).1
      rw [hbefore,length_take]
      omega
    refine ⟨?_,?_,?_⟩
    · rw [hof.seqNum h0,sequenceNumber,hcount]
    · rw [hof.baseTimeUs h0,hbefore,sum_durationUs_eq_elapsed (forall₂_take i hinv.items)]
    · intro hlater
      rw [hof.seqNum h0]
      exact hinv.last s (lastTimed_eq_some hs h0 hlater)
  · exact hinv.total.trans (congrArg int64 (sum_durationUs_eq_elapsed hinv.items).symm)

def wholeSeconds (s : List Char) : Option (ℤ × List Char) :=
  (strtoll s).map fun (seconds, rest) => (10^6*seconds, rest)

def exampleBase : List Char := "http://h/list.m3u8".toList

def twoSegments : List Char :=
  "#EXTM3U\n#EXT-X-MEDIA-SEQUENCE:7\n#EXTINF:4,\na.ts\n#EXTINF:5,\nb.ts\n".toList

/-- The second of the two items. -/
theorem media_timeline_of_two_segments :
    ∃ p item, m3u8Parse .ilp32 wholeSeconds twoSegments exampleBase = .done p ∧
      p.mIsVariantPlaylist = false ∧ p.mItems[1]? = some item ∧
      p.mItems.map (·.mURI) = [some "http://h/a.ts".toList,some "http://h/b.ts".toList] ∧
      p.mItems.map (·.durationUs) = [4000000,5000000] ∧ item.seqNum = 8 ∧
      item.baseTimeUs = 4000000 ∧ p.lastSeqNum = 8 ∧ p.mDurationUs = 9000000 := by
  have hrun : (m3u8Parse .ilp32 wholeSeconds twoSegments exampleBase).toOption.map
      (fun p => (p.mIsVariantPlaylist, p.mItems.length)) = some (false, 2) := by
    decide +kernel
  obtain ⟨p,hp,hvalues⟩ := map_eq_some_iff.mp hrun
  have hdone := Outcome.toOption_eq_some.mp hp
  have hmedia : p.mIsVariantPlaylist = false := congrArg Prod.fst hvalues
  have hlen : p.mItems.length = 2 := congrArg Prod.snd hvalues
  obtain ⟨huri,hduration,hitem,htotal⟩ := media_timeline _ _ _ _ p hdone hmedia
  have hsegment : (segments wholeSeconds (bodyOf twoSegments))[1]?.map (fun s => (s.durationUs,
      firstSequence s.before, (segments wholeSeconds (uptoSequence s.before)).length)) =
        some (5000000, some 7, 0) := by
    decide +kernel
  obtain ⟨s,hs,hvalues⟩ := map_eq_some_iff.mp hsegment
  simp only [Prod.mk.injEq] at hvalues
  obtain ⟨hlasts,hfirst,hcount⟩ := hvalues
  have hdrop : (segments wholeSeconds (bodyOf twoSegments)).drop 2 = [] := by decide +kernel
  have hdurations : p.mItems.map (·.durationUs) = [4000000,5000000] :=
    hduration.trans (by decide +kernel)
  obtain ⟨item,hi⟩ : ∃ item, p.mItems[1]? = some item := ⟨_,getElem?_eq_getElem (by omega)⟩
  obtain ⟨hnumber,hbase,hlast⟩ := hitem 1 item s hi hs (by omega)
  have hnumber : item.seqNum = 8 := by
    rw [hnumber,hfirst,hcount]
    decide
  refine ⟨p,item,hdone,hmedia,hi,huri.trans (by decide +kernel),hdurations,hnumber,?_,?_,?_⟩
  · rw [hbase,map_take,hdurations]
    decide
  · rw [hlast (by simp [hdrop]),hnumber]
  · rw [htotal,hdurations]
    decide

/-- Four URI lines: the first has no `#EXTINF`, the third one with a negative duration. -/
def untimedLines : List Char :=
  ("#EXTM3U\n#EXT-X-MEDIA-SEQUENCE:7\nskipped.ts\n#EXTINF:4,\na.ts\n#EXTINF:-1,\nb.ts\n" ++
    "#EXTINF:5,\nc.ts\n").toList

/-- The first URI line is no item, and the item of the third is not numbered 8. -/
theorem uri_lines_are_not_the_items : ((bodyOf untimedLines).filter (tagOf · = .uri)).length = 4 ∧
      (m3u8Parse .ilp32 wholeSeconds untimedLines exampleBase).toOption.map
          (fun p => (p.mIsVariantPlaylist, p.mItems.map (·.seqNum), p.mItems.map (·.baseTimeUs))) =
        some (false, [7,0,9], [0,0,4000000]) := by
  decide +kernel

end TinaPackage.Hls
