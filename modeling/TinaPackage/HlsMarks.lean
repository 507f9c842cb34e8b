import TinaPackage.HlsKeys

/-! Which items of a media playlist carry the mark of a discontinuity. -/
namespace TinaPackage.Hls
open List

variable {abi : Abi} {strtodUs : Strtod} {data baseURI : List Char}
  {past : List Line} {m : AMessage} {p : Playlist}

def discontinuityTag : Line := "#EXT-X-DISCONTINUITY".toList

def sinceUri (past : List Line) : List Line := (past.reverse.takeWhile (tagOf · ≠ .uri)).reverse

def markView (a : Atom) : Option AtomValue := if a.mName = .discontinuity then some a.u else none

/-- The places that a line takes in the metadata of the next item, with the mark if the line
begins with the tag. -/
def markSlots (baseURI : List Char) (l : Line) : List (Option AtomValue) :=
  (slots baseURI l).map fun _ => if tagOf l = .discontinuity then some (.int32 1) else none

/-- Since the last segment there is a line that begins with the tag, and a place for its mark. -/
def Marked (strtodUs : Strtod) (baseURI : List Char)
    (past : List Line) : Prop :=
  some (.int32 1) ∈ ((blockOf strtodUs past).flatMap (markSlots baseURI)).take maxNumAtom

theorem map_markView_lineAtoms (offset : ℕ) (l : Line) :
    (lineAtoms strtodUs baseURI offset l).map markView = markSlots baseURI l := by
  unfold lineAtoms markSlots slots
  split <;> simp only [*,map_map,map_cons,map_nil] <;> try rfl
  refine map_congr_left fun a ha => if_neg fun hname => ?_
  have hmem := mName_mem_of_mem_keyAtoms ha
  simp [hname] at hmem

theorem tagOf_of_mem_markSlots {x : AtomValue} {l : Line} (h : some x ∈ markSlots baseURI l) :
    tagOf l = .discontinuity ∧ x = .int32 1 := by
  obtain ⟨-,-,heq⟩ := mem_map.mp h
  split at heq
  · exact ⟨‹_›,(Option.some_inj.mp heq).symm⟩
  · cases heq

theorem marked_iff (h : m.mAtom.map markView =
      ((blockOf strtodUs past).flatMap (markSlots baseURI)).take maxNumAtom) :
    (m.findInt32 .discontinuity).getD 0 ≠ 0 ↔ Marked strtodUs baseURI past := by
  have hvalue {a : Atom} (ha : a ∈ m.mAtom) (hname : a.mName = .discontinuity) :
      some a.u ∈ ((blockOf strtodUs past).flatMap (markSlots baseURI)).take maxNumAtom := by
    rw [← h]
    exact mem_map.mpr ⟨a,ha,if_pos hname⟩
  unfold AMessage.findInt32 AMessage.find
  cases hfind : m.mAtom.find? (·.mName = .discontinuity) with
  | some a =>
    have ha := hvalue (mem_of_find?_eq_some hfind) (by simpa using find?_some hfind)
    obtain ⟨l,-,hl⟩ := mem_flatMap.mp (mem_of_mem_take ha)
    have hone := (tagOf_of_mem_markSlots hl).2
    simp only [Option.map_some,hone]
    rw [hone] at ha
    exact iff_of_true (by decide) ha
  | none =>
    refine iff_of_false (by simp) fun hmark => ?_
    rw [Marked,← h] at hmark
    obtain ⟨a,ha,hview⟩ := mem_map.mp hmark
    have hname := find?_eq_none.mp hfind a ha
    simp [markView,show a.mName ≠ .discontinuity by simpa using hname] at hview

structure MarkState (strtodUs : Strtod) (baseURI : List Char)
    (past : List Line) (st : ParseState) : Prop where
  places : st.itemMeta.mAtom.map markView =
    ((blockOf strtodUs past).flatMap (markSlots baseURI)).take maxNumAtom
  items : Forall₂ (fun item s => item.discontinue ≠ 0 ↔ Marked strtodUs baseURI s.before)
    st.playList.mItems (segments strtodUs past)

theorem MediaStep.markState {st st' : ParseState} {l : Line}
    (hs : MediaStep abi strtodUs st l st') (hm : st.playList.mIsVariantPlaylist = false)
    (hb : st.playList.mBaseURI = baseURI) (hp : Pending strtodUs past st)
    (h : MarkState strtodUs baseURI past st) : MarkState strtodUs baseURI (past ++ [l]) st' := by
  refine ⟨hs.viewed map_markView_lineAtoms hm hb hp h.places,?_⟩
  rcases segment_or_not strtodUs past l with ⟨d,htag,hd⟩ | hnone
  · rw [hs.of_uri htag,parseUri_of_pending hm hp,hd,(scan_append_of_some htag hd).2]
    exact rel_append h.items (.cons (marked_iff h.places) .nil)
  · rw [(scan_append_of_none hnone).2]
    by_cases htag : tagOf l = .uri
    · rw [hs.of_uri htag,parseUri_of_pending hm hp,hnone htag]
      exact h.items
    · rw [(hs.metadata htag).2.2]
      exact h.items

/-- The lines before a URI line, back to the URI line before it: that one was a segment, no other
tag begins with the tag of a discontinuity, and all the metadata have a place. -/
structure PlainMarks (strtodUs : Strtod) (baseURI : List Char)
    (past : List Line) : Prop where
  segment : blockOf strtodUs past = sinceUri past
  tags : ∀ l ∈ sinceUri past, tagOf l = .discontinuity → l = discontinuityTag
  room : ((sinceUri past).flatMap (slots baseURI)).length ≤ maxNumAtom

theorem PlainMarks.marked_iff_declared (h : PlainMarks strtodUs baseURI past) :
    Marked strtodUs baseURI past ↔ discontinuityTag ∈ sinceUri past := by
  have hroom : ((sinceUri past).flatMap (markSlots baseURI)).length ≤ maxNumAtom := by
    simpa only [length_flatMap,markSlots,length_map] using h.room
  rw [Marked,h.segment,take_of_length_le hroom,mem_flatMap]
  constructor
  · rintro ⟨l,hl,hmark⟩
    rwa [← h.tags l hl (tagOf_of_mem_markSlots hmark).1]
  · exact fun htag =>
      ⟨_,htag,by simp [markSlots,slots,show tagOf discontinuityTag = .discontinuity by decide]⟩

/-- An item of an accepted media playlist carries the flag exactly when the tag stands between the
last URI line and its own, if that one was a segment, no other tag there begins with the tag and
the metadata of these lines have their places. -/
theorem discontinuity_flag_declared (h : m3u8Parse abi strtodUs data baseURI = .done p)
    (hmedia : p.mIsVariantPlaylist = false) :
    Forall₂ (fun item s => PlainMarks strtodUs baseURI s.before →
        (item.discontinue ≠ 0 ↔ discontinuityTag ∈ sinceUri s.before))
      p.mItems (segments strtodUs (bodyOf data)) := by
  obtain ⟨st,rfl,hinv⟩ := media_history h hmedia (MarkState strtodUs baseURI) ⟨rfl,.nil⟩
    fun past st l st' hm hb hp hi hs => hs.markState hm hb hp hi
  exact hinv.items.imp fun item s hitem hplain => hitem.trans hplain.marked_iff_declared

def markedSegment : List Char :=
  "#EXTM3U\n#EXTINF:4,\na.ts\n#EXT-X-DISCONTINUITY\n#EXTINF:5,\nb.ts\n".toList

theorem discontinuity_flag_declared_in_two :
    ∃ p, m3u8Parse .ilp32 wholeSeconds markedSegment exampleBase = .done p ∧
      Forall₂ (fun item s => item.discontinue ≠ 0 ↔ discontinuityTag ∈ sinceUri s.before)
        p.mItems (segments wholeSeconds (bodyOf markedSegment)) := by
  have hrun : (m3u8Parse .ilp32 wholeSeconds markedSegment exampleBase).toOption.map
      (·.mIsVariantPlaylist) = some false := by
    decide +kernel
  obtain ⟨p,hp,hmedia⟩ := Option.map_eq_some_iff.mp hrun
  have hdone := Outcome.toOption_eq_some.mp hp
  have hplain : ∀ s ∈ segments wholeSeconds (bodyOf markedSegment),
      blockOf wholeSeconds s.before = sinceUri s.before ∧
      (∀ l ∈ sinceUri s.before, tagOf l = .discontinuity → l = discontinuityTag) ∧
      ((sinceUri s.before).flatMap (slots exampleBase)).length ≤ maxNumAtom := by
    decide +kernel
  have hflags := (discontinuity_flag_declared hdone hmedia).flip
  refine ⟨p,hdone,((forall₂_and_left _ _).mpr ⟨hplain,hflags⟩).imp ?_ |>.flip⟩
  exact fun s item hs => hs.2 ⟨hs.1.1,hs.1.2.1,hs.1.2.2⟩

def sequenceOnly : List Char :=
  "#EXTM3U\n#EXT-X-DISCONTINUITY-SEQUENCE:0\n#EXTINF:4,\na.ts\n".toList

/-- The number of the first discontinuity is read as a discontinuity. -/
theorem sequence_marks_segment :
    (segments wholeSeconds (bodyOf sequenceOnly)).all (discontinuityTag ∉ sinceUri ·.before) ∧
      (m3u8Parse .ilp32 wholeSeconds sequenceOnly exampleBase).toOption.map
          (fun p => (p.mIsVariantPlaylist, p.mItems.map (·.discontinue))) = some (false, [1]) := by
  decide +kernel

end TinaPackage.Hls
