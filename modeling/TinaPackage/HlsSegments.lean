import TinaPackage.Collections
import TinaPackage.HlsModel

/-! What the lines of a media playlist do to the parser, and the segments that a
reader of the playlist sees in them. -/
namespace TinaPackage.Hls
open List Option Outcome AMessage

variable {abi : Abi} {strtodUs : Strtod}

namespace AMessage

/-- `m'` is `m` with the atoms `as` behind it, as far as there are places for them. -/
def Extends (m : AMessage) (as : List Atom) (m' : AMessage) : Prop :=
  m'.mAtom = (m.mAtom ++ as).take maxNumAtom

theorem extends_nil (m : AMessage) : m.Extends [] m := by
  unfold Extends
  rw [append_nil,take_of_length_le m.fits]

variable {m m' : AMessage} {as : List Atom} {a : Atom}

theorem Extends.trans {m'' : AMessage} {bs : List Atom} (h : m.Extends as m')
    (h' : m'.Extends bs m'') : m.Extends (as ++ bs) m'' := by
  unfold Extends at *
  rw [h',h,← append_assoc,take_append_take]

theorem set_eq_done (h : m.set a = .done m') : m'.mAtom = m.mAtom ++ [a] := by
  unfold set at h
  split at h
  · cases h
    rfl
  · cases h

theorem extends_of_append (h : m'.mAtom = m.mAtom ++ as) : m.Extends as m' := by
  have hm' := m'.fits
  unfold Extends
  rw [← h,take_of_length_le hm']

theorem extends_of_set (h : m.set a = .done m') : m.Extends [a] m' :=
  extends_of_append (set_eq_done h)

theorem extends_orElse_set (m : AMessage) (a : Atom) : m.Extends [a] (m.orElse (m.set a)) := by
  cases hset : m.set a with
  | done m' => exact extends_of_set hset
  | undefined =>
    unfold set at hset
    split at hset <;> cases hset
  | failed e =>
    unfold set at hset
    split at hset
    · cases hset
    · rename_i hfull
      unfold Extends orElse
      rw [take_append_of_le_length (by omega),take_of_length_le m.fits]

theorem Extends.find_of_forall_ne {name : AtomName} (h : m.Extends as m')
    (hne : ∀ a ∈ as, a.mName ≠ name) : m'.find name = m.find name := by
  unfold find
  rw [h,take_append,take_of_length_le m.fits,find?_append]
  have hnone : (as.take (maxNumAtom-m.mAtom.length)).find? (·.mName = name) = none := by
    apply find?_eq_none.mpr
    intro a ha
    simpa using hne a (mem_of_mem_take ha)
  rw [hnone,or_none]

theorem find_of_mAtom_append (h : m'.mAtom = m.mAtom ++ [a]) :
    m'.find a.mName = (m.find a.mName).or (some a.u) := by
  unfold find
  rw [h,find?_append]
  cases m.mAtom.find? (·.mName = a.mName) <;> simp

end AMessage

def cipherAtom (baseURI : List Char) (kv : List Char × List Char) : Option Atom :=
  if kv.1 = "uri".toList then
    (unquote kv.2).bind fun quoted =>
      (makeURL baseURI (trim quoted)).toOption.map fun value => ⟨.cipherUri,.string value⟩
  else if kv.1 = "method".toList then some ⟨.cipherMethod,.string kv.2⟩
  else if kv.1 = "iv".toList then some ⟨.cipherIv,.string kv.2⟩
  else none

def keyAtoms (baseURI line : List Char) : List Atom :=
  ((attributes line).getD []).filterMap (cipherAtom baseURI)

def saysNone (kv : List Char × List Char) : Bool :=
  kv.1 = "method".toList && strcaseeq kv.2 "NONE".toList

def keyIsNone (line : List Char) : Bool := ((attributes line).getD []).any saysNone

variable {baseURI line : List Char} {m m' : AMessage} {st st' : ParseState} {p : Playlist}
  {past : List Line} {l : Line}

theorem cipherAttribute_eq_done {b b' : Bool} {kv : List Char × List Char}
    (h : cipherAttribute baseURI (m, b) kv = .done (m', b')) :
    m.Extends (cipherAtom baseURI kv).toList m' ∧ b' = (b || saysNone kv) := by
  obtain ⟨key,val⟩ := kv
  unfold cipherAttribute at h
  unfold cipherAtom saysNone
  by_cases huri : key = "uri".toList
  · subst huri
    simp only [if_true] at h ⊢
    cases hq : unquote val with
    | none => simp [hq] at h
    | some quoted =>
      simp only [hq,bind_eq_done] at h
      obtain ⟨value,hvalue,hdone⟩ := h
      cases hdone
      simp only [bind_some,hvalue,toOption]
      exact ⟨extends_orElse_set m _,by simp⟩
  · by_cases hmethod : key = "method".toList
    · subst hmethod
      obtain ⟨rfl,rfl⟩ := h
      exact ⟨extends_orElse_set m _,by simp⟩
    · by_cases hiv : key = "iv".toList
      · subst hiv
        obtain ⟨rfl,rfl⟩ := h
        exact ⟨extends_orElse_set m _,by simp⟩
      · simp only [huri,hmethod,hiv,if_false,done.injEq,Prod.mk.injEq] at h ⊢
        obtain ⟨rfl,rfl⟩ := h
        exact ⟨extends_nil m,by simp⟩

theorem parseCipherInfo_eq_done {b : Bool} (h : parseCipherInfo line m baseURI = .done (m', b)) :
    m.Extends (keyAtoms baseURI line) m' ∧ b = keyIsNone line := by
  unfold parseCipherInfo at h
  unfold keyAtoms keyIsNone
  cases hattrs : attributes line with
  | none => simp [hattrs] at h
  | some attrs =>
    simp only [hattrs] at h
    -- the message and the flag are those of the attributes read so far
    have hrun := runCalls_history (s := (m, false))
      (fun past s => m.Extends (past.filterMap (cipherAtom baseURI)) s.1 ∧ s.2 = past.any saysNone)
      ⟨extends_nil m,rfl⟩ ?_ attrs (m', b) h
    · exact hrun
    · rintro past ⟨n,c⟩ kv ⟨n',c'⟩ ⟨hext,hc⟩ hstep
      obtain ⟨hext',hc'⟩ := cipherAttribute_eq_done hstep
      constructor
      · have := hext.trans hext'
        cases hatom : cipherAtom baseURI kv <;> simpa [filterMap_append,hatom] using this
      · simp only at hc
        rw [hc',hc,any_append]
        simp

structure SameSegments (p p' : Playlist) : Prop where
  mBaseURI : p'.mBaseURI = p.mBaseURI
  mItems : p'.mItems = p.mItems
  mMeta : p'.mMeta = p.mMeta
  mDurationUs : p'.mDurationUs = p.mDurationUs
  lastSeqNum : p'.lastSeqNum = p.lastSeqNum
  hasEncrypte : p.hasEncrypte = true → p'.hasEncrypte = true

/-- Everything a line can do to the parser of a media playlist. -/
inductive MediaStep (abi : Abi) (strtodUs : Strtod)
    (st : ParseState) (l : List Char) : ParseState → Prop
  | targetDuration {v : ℤ} {m : AMessage} (tag : tagOf l = .targetDuration)
      (hm : m.mAtom = st.playList.mMeta.mAtom ++ [⟨.targetDuration,.int32 v⟩]) :
      MediaStep abi strtodUs st l
        { st with kind := some false, playList := { st.playList with mMeta := m } }
  | mediaSequence {v : ℤ} {m : AMessage} (tag : tagOf l = .mediaSequence)
      (hv : parseNumber l = some v)
      (hm : m.mAtom = st.playList.mMeta.mAtom ++ [⟨.mediaSequence,.int32 v⟩]) :
      MediaStep abi strtodUs st l { st with
          kind := some false
          seqNum := (m.findInt32 .mediaSequence).getD st.seqNum
          playList := { st.playList with mMeta := m } }
  | noKey {m : AMessage} (tag : tagOf l = .key) (none : keyIsNone l = true)
      (hm : st.itemMeta.Extends (keyAtoms st.playList.mBaseURI l) m) :
      MediaStep abi strtodUs st l { st with itemMeta := m }
  | key {m : AMessage} (tag : tagOf l = .key) (some : keyIsNone l = false)
      (hm : st.itemMeta.Extends (keyAtoms st.playList.mBaseURI l) m) :
      MediaStep abi strtodUs st l { st with
          itemMeta := m
          hasEncrypteInf := true
          playList := st.playList.setHasEncrypte abi }
  | extinf {d : ℤ} {m : AMessage} (tag : tagOf l = .extinf) (hd : parseDuration strtodUs l = some d)
      (hm : m.mAtom = st.itemMeta.mAtom ++ [⟨.durationUs,.int64 d⟩]) :
      MediaStep abi strtodUs st l { st with kind := some false, itemMeta := m }
  | discontinuity {m : AMessage} (tag : tagOf l = .discontinuity)
      (hm : st.itemMeta.Extends [⟨.discontinuity,.int32 1⟩] m) :
      MediaStep abi strtodUs st l { st with
          itemMeta := m
          playList := { st.playList with discontinueTimeshift := true } }
  | byteRange {length offset : ℕ} {m : AMessage} (tag : tagOf l = .byteRange)
      (hr : parseByteRange l st.segmentRangeOffset = .done (length, offset))
      (hm : st.itemMeta.Extends
        [⟨.rangeOffset,.int64 (int64 offset)⟩,⟨.rangeLength,.int64 (int64 length)⟩] m) :
      MediaStep abi strtodUs st l
        { st with itemMeta := m, segmentRangeOffset := (offset+length) % 2^64 }
  | uri (tag : tagOf l = .uri) : MediaStep abi strtodUs st l (parseUri st l)
  | other {p' : Playlist}
      (tag : tagOf l ∈ [.endlist,.event,.media,.comment]) (hp : SameSegments st.playList p') :
      MediaStep abi strtodUs st l { st with playList := p' }

theorem inMedia_eq_done {next : Outcome Status ParseState} (h : inMedia st next = .done st') :
    st.playList.mIsVariantPlaylist = false ∧ next = .done st' := by
  unfold inMedia at h
  split at h
  · cases h
  · rename_i hv
    exact ⟨by simpa using hv,h⟩

theorem parseMetaData_eq_done {key : AtomName} (h : parseMetaData line m key = .done m') :
    ∃ v, parseNumber line = some v ∧ m'.mAtom = m.mAtom ++ [⟨key,.int32 v⟩] := by
  unfold parseMetaData at h
  cases hv : parseNumber line with
  | none => simp [hv] at h
  | some v =>
    simp only [hv] at h
    exact ⟨v,rfl,set_eq_done h⟩

theorem parseMetaDataDuration_eq_done {key : AtomName}
    (h : parseMetaDataDuration strtodUs line m key = .done m') :
    ∃ d, parseDuration strtodUs line = some d ∧ m'.mAtom = m.mAtom ++ [⟨key,.int64 d⟩] := by
  unfold parseMetaDataDuration at h
  cases hd : parseDuration strtodUs line with
  | none => simp [hd] at h
  | some d =>
    simp only [hd] at h
    exact ⟨d,rfl,set_eq_done h⟩

theorem finishMedia_eq_done {p' : Playlist} {s : MediaAttributes}
    (h : finishMedia abi p s = .done p') : ∃ groups, p' = p.setMediaGroups abi groups := by
  unfold finishMedia at h
  split at h
  · split at h
    · cases h
    · split at h
      · cases h
      · obtain ⟨groups,-,hdone⟩ := bind_eq_done.mp h
        cases hdone
        exact ⟨groups,rfl⟩
  · cases h

theorem parseMedia_eq_done {p' : Playlist} (h : parseMedia abi line p = .done p') :
    SameSegments p p' ∧ p'.mIsVariantPlaylist = p.mIsVariantPlaylist := by
  have hself : SameSegments p p := ⟨rfl,rfl,rfl,rfl,rfl,id⟩
  unfold parseMedia at h
  split at h
  · cases h
  · split at h
    · rename_i q hq
      cases h
      obtain ⟨s,-,hs⟩ := bind_eq_done.mp hq
      obtain ⟨groups,rfl⟩ := finishMedia_eq_done hs
      refine ⟨⟨rfl,rfl,rfl,rfl,rfl,?_⟩,rfl⟩
      intro he
      simp [Playlist.setMediaGroups,he]
    · cases h
      exact ⟨hself,rfl⟩
    · cases h
    · cases h

theorem parseUri_mIsVariantPlaylist (st : ParseState) (line : List Char) :
    (parseUri st line).playList.mIsVariantPlaylist = st.playList.mIsVariantPlaylist := by
  unfold parseUri
  split
  · rfl
  · split <;> rfl

theorem parseLine_cases {l : List Char} (h : parseLine abi strtodUs st l = .done st')
    (hmedia : st'.playList.mIsVariantPlaylist = false) :
    st.playList.mIsVariantPlaylist = false ∧ MediaStep abi strtodUs st l st' := by
  unfold parseLine at h
  split at h
  case h_1 htag =>
    obtain ⟨hv,h⟩ := inMedia_eq_done h
    obtain ⟨m,hm,hdone⟩ := bind_eq_done.mp h
    cases hdone
    obtain ⟨v,-,hatoms⟩ := parseMetaData_eq_done hm
    exact ⟨hv,.targetDuration htag hatoms⟩
  case h_2 htag =>
    obtain ⟨hv,h⟩ := inMedia_eq_done h
    obtain ⟨m,hm,hdone⟩ := bind_eq_done.mp h
    cases hdone
    obtain ⟨v,hnumber,hatoms⟩ := parseMetaData_eq_done hm
    exact ⟨hv,.mediaSequence htag hnumber hatoms⟩
  case h_3 htag =>
    obtain ⟨hv,h⟩ := inMedia_eq_done h
    obtain ⟨⟨m,b⟩,hm,hdone⟩ := bind_eq_done.mp h
    obtain ⟨hext,rfl⟩ := parseCipherInfo_eq_done hm
    refine ⟨hv,?_⟩
    cases hnone : keyIsNone l with
    | true =>
      simp only [hnone,if_true,done.injEq] at hdone
      subst hdone
      exact .noKey htag hnone hext
    | false =>
      simp only [hnone,Bool.false_eq_true,if_false,done.injEq] at hdone
      subst hdone
      exact .key htag hnone hext
  case h_4 htag =>
    cases h
    exact ⟨hmedia,.other (by simp [htag]) ⟨rfl,rfl,rfl,rfl,rfl,id⟩⟩
  case h_5 htag =>
    obtain ⟨hv,h⟩ := inMedia_eq_done h
    cases h
    exact ⟨hv,.other (by simp [htag]) ⟨rfl,rfl,rfl,rfl,rfl,id⟩⟩
  case h_6 htag =>
    obtain ⟨hv,h⟩ := inMedia_eq_done h
    obtain ⟨m,hm,hdone⟩ := bind_eq_done.mp h
    cases hdone
    obtain ⟨d,hd,hatoms⟩ := parseMetaDataDuration_eq_done hm
    exact ⟨hv,.extinf htag hd hatoms⟩
  case h_7 htag =>
    obtain ⟨hv,h⟩ := inMedia_eq_done h
    cases h
    exact ⟨hv,.discontinuity htag (extends_orElse_set _ _)⟩
  case h_8 htag =>
    -- a stream line makes the playlist a master playlist
    split at h
    · cases h
    · obtain ⟨m,-,hdone⟩ := bind_eq_done.mp h
      cases hdone
      cases hmedia
  case h_9 htag =>
    obtain ⟨hv,h⟩ := inMedia_eq_done h
    obtain ⟨⟨length,offset⟩,hr,h⟩ := bind_eq_done.mp h
    obtain ⟨m,hm,h⟩ := bind_eq_done.mp h
    obtain ⟨m',hm',hdone⟩ := bind_eq_done.mp h
    cases hdone
    exact ⟨hv,.byteRange htag hr ((extends_of_set hm).trans (extends_of_set hm'))⟩
  case h_10 htag =>
    obtain ⟨p',hp,hdone⟩ := bind_eq_done.mp h
    cases hdone
    obtain ⟨hsame,hvariant⟩ := parseMedia_eq_done hp
    exact ⟨hvariant ▸ hmedia,.other (by simp [htag]) hsame⟩
  case h_11 htag =>
    cases h
    exact ⟨hmedia,.other (by simp [htag]) ⟨rfl,rfl,rfl,rfl,rfl,id⟩⟩
  case h_12 htag =>
    cases h
    exact ⟨parseUri_mIsVariantPlaylist st l ▸ hmedia,.uri htag⟩

/-! ### Segments

How a reader divides the lines behind the header: a URI line is a segment if there
is an `#EXTINF` line since the segment before it. -/

abbrev Line := List Char

structure Segment where
  before : List Line
  uri : Line
  durationUs : ℤ
  deriving DecidableEq

structure Scan where
  block : List Line
  segments : List Segment

/-- The duration that the lines before a URI give it: that of the first `#EXTINF`. -/
def durationIn (strtodUs : Strtod) (block : List Line) : Option ℤ :=
  block.findSome? fun l => if tagOf l = .extinf then parseDuration strtodUs l else none

def scanRev (strtodUs : Strtod) : List Line → Scan
  | [] => ⟨[],[]⟩
  | l :: earlier =>
    let s := scanRev strtodUs earlier
    match if tagOf l = .uri then durationIn strtodUs s.block else none with
    | some d => ⟨[],s.segments ++ [⟨earlier.reverse,l,d⟩]⟩
    | none => ⟨s.block ++ [l],s.segments⟩

def blockOf (strtodUs : Strtod) (lines : List Line) : List Line :=
  (scanRev strtodUs lines.reverse).block

def segments (strtodUs : Strtod) (lines : List Line) :
    List Segment :=
  (scanRev strtodUs lines.reverse).segments

theorem scan_append_of_none
    (h : tagOf l = .uri → durationIn strtodUs (blockOf strtodUs past) = none) :
    blockOf strtodUs (past ++ [l]) = blockOf strtodUs past ++ [l] ∧
      segments strtodUs (past ++ [l]) = segments strtodUs past := by
  have hnone : (if tagOf l = .uri then durationIn strtodUs (blockOf strtodUs past) else none) =
      none := by
    split
    · rename_i htag
      exact h htag
    · rfl
  unfold blockOf at hnone
  unfold blockOf segments
  rw [reverse_append,reverse_singleton,singleton_append,scanRev]
  simp [hnone]

theorem scan_append_of_some {d : ℤ} (htag : tagOf l = .uri)
    (h : durationIn strtodUs (blockOf strtodUs past) = some d) :
    blockOf strtodUs (past ++ [l]) = [] ∧
      segments strtodUs (past ++ [l]) = segments strtodUs past ++ [⟨past,l,d⟩] := by
  unfold blockOf at h
  unfold blockOf segments
  rw [reverse_append,reverse_singleton,singleton_append,scanRev]
  simp [htag,h]

theorem segment_or_not (strtodUs : Strtod) (past : List Line)
    (l : Line) :
    (∃ d, tagOf l = .uri ∧ durationIn strtodUs (blockOf strtodUs past) = some d) ∨
      (tagOf l = .uri → durationIn strtodUs (blockOf strtodUs past) = none) := by
  by_cases htag : tagOf l = .uri
  · cases hd : durationIn strtodUs (blockOf strtodUs past) with
    | none => exact .inr fun _ => rfl
    | some d => exact .inl ⟨d,htag,rfl⟩
  · exact .inr fun h => absurd h htag

theorem durationIn_append (block : List Line) (l : Line) :
    durationIn strtodUs (block ++ [l]) = (durationIn strtodUs block).or
      (if tagOf l = .extinf then parseDuration strtodUs l else none) := by
  unfold durationIn
  rw [findSome?_append,findSome?_singleton]

theorem before_append_uri_isPrefix (lines : List Line) :
    ∀ s ∈ segments strtodUs lines, s.before ++ [s.uri] <+: lines ∧ tagOf s.uri = .uri := by
  induction lines using reverseRecOn with
  | nil => simp [segments,scanRev]
  | append_singleton past l ih =>
    have hold : ∀ s ∈ segments strtodUs past,
        s.before ++ [s.uri] <+: past ++ [l] ∧ tagOf s.uri = .uri := by
      intro s hs
      exact ⟨(ih s hs).1.trans (prefix_append past [l]),(ih s hs).2⟩
    rcases segment_or_not strtodUs past l with ⟨d,htag,hd⟩ | hnone
    · rw [(scan_append_of_some htag hd).2]
      intro s hs
      rcases mem_append.mp hs with hs | hs
      · exact hold s hs
      · rw [mem_singleton.mp hs]
        exact ⟨prefix_rfl,htag⟩
    · rw [(scan_append_of_none hnone).2]
      exact hold

theorem segments_before (lines : List Line) : ∀ i s, (segments strtodUs lines)[i]? = some s →
      segments strtodUs s.before = (segments strtodUs lines).take i := by
  induction lines using reverseRecOn with
  | nil => simp [segments,scanRev]
  | append_singleton past l ih =>
    rcases segment_or_not strtodUs past l with ⟨d,htag,hd⟩ | hnone
    · rw [(scan_append_of_some htag hd).2]
      intro i s hs
      by_cases hi : i < (segments strtodUs past).length
      · rw [getElem?_append_left hi] at hs
        rw [ih i s hs,take_append_of_le_length (Nat.le_of_lt hi)]
      · rw [getElem?_append_right (by omega)] at hs
        have hzero : i-(segments strtodUs past).length = 0 := by
          by_contra hne
          obtain ⟨n,hn⟩ := Nat.exists_eq_succ_of_ne_zero hne
          simp [hn] at hs
        rw [hzero] at hs
        cases hs
        have hlen : i = (segments strtodUs past).length := by omega
        rw [hlen,take_append_of_le_length (Nat.le_refl _),take_length]
    · rw [(scan_append_of_none hnone).2]
      exact ih

def bodyOf (data : List Char) : List Line := (linesOf data).tail

/-- Durations are read from the lines since the last segment, and no atom of a master
playlist is among the metadata. -/
structure Pending (strtodUs : Strtod) (past : List Line)
    (st : ParseState) : Prop where
  duration : st.itemMeta.find .durationUs = (durationIn strtodUs (blockOf strtodUs past)).map .int64
  bandwidth : st.itemMeta.find .bandwidth = none

theorem mName_mem_of_mem_keyAtoms {a : Atom} (h : a ∈ keyAtoms baseURI line) :
    a.mName ∈ [.cipherUri,.cipherMethod,.cipherIv] := by
  obtain ⟨kv,-,hkv⟩ := mem_filterMap.mp h
  unfold cipherAtom at hkv
  split at hkv
  · obtain ⟨quoted,-,hq⟩ := bind_eq_some_iff.mp hkv
    obtain ⟨value,-,rfl⟩ := map_eq_some_iff.mp hq
    simp
  · split at hkv
    · cases hkv
      simp
    · split at hkv
      · cases hkv
        simp
      · cases hkv

/-- The byte range of a line, its length first; `offset` is where the last one ended. -/
def rangeAt (offset : ℕ) (l : Line) : ℕ × ℕ := (parseByteRange l offset).toOption.getD (0, 0)

def lineAtoms (strtodUs : Strtod) (baseURI : List Char) (offset : ℕ)
    (l : Line) : List Atom :=
  match tagOf l with
  | .key => keyAtoms baseURI l
  | .extinf => [⟨.durationUs,.int64 ((parseDuration strtodUs l).getD 0)⟩]
  | .discontinuity => [⟨.discontinuity,.int32 1⟩]
  | .byteRange => [⟨.rangeOffset,.int64 (int64 (rangeAt offset l).2)⟩,
      ⟨.rangeLength,.int64 (int64 (rangeAt offset l).1)⟩]
  | _ => []

def rangeEnd (offset : ℕ) (l : Line) : ℕ :=
  if tagOf l = .byteRange then ((rangeAt offset l).2+(rangeAt offset l).1) % 2^64 else offset

theorem MediaStep.metadata (hstep : MediaStep abi strtodUs st l st') (huri : tagOf l ≠ .uri) :
    st.itemMeta.Extends (lineAtoms strtodUs st.playList.mBaseURI st.segmentRangeOffset l)
        st'.itemMeta ∧
      st'.segmentRangeOffset = rangeEnd st.segmentRangeOffset l ∧
      st'.playList.mItems = st.playList.mItems := by
  unfold lineAtoms rangeEnd
  cases hstep with
  | noKey tag _ hm => simpa [tag] using hm
  | key tag _ hm => exact ⟨by simpa [tag] using hm,by simp [tag],rfl⟩
  | extinf tag hd hm => simpa [tag,hd] using extends_of_append hm
  | discontinuity tag hm => simpa [tag] using hm
  | byteRange tag hr hm =>
    have hrange : rangeAt st.segmentRangeOffset l = _ := congrArg (·.toOption.getD (0, 0)) hr
    simp only [tag,hrange,if_true]
    exact ⟨hm,rfl,trivial⟩
  | uri tag => exact absurd tag huri
  | other tag hp =>
    simp only [mem_cons,not_mem_nil,or_false] at tag
    have hnil := extends_nil st.itemMeta
    rcases tag with tag | tag | tag | tag <;> simpa [tag] using ⟨hnil,hp.mItems⟩
  | _ tag => simpa [tag] using extends_nil st.itemMeta

theorem MediaStep.of_uri (hstep : MediaStep abi strtodUs st l st') (huri : tagOf l = .uri) :
    st' = parseUri st l := by
  cases hstep with
  | uri _ => rfl
  | other tag _ => simp [huri] at tag
  | _ tag => simp [huri] at tag

section
variable (h : Pending strtodUs past st) (huri : tagOf l ≠ .uri) (hinf : tagOf l ≠ .extinf)
include h huri hinf

theorem Pending.of_extends {as : List Atom} (hext : st.itemMeta.Extends as st'.itemMeta)
    (hne : ∀ a ∈ as, a.mName ≠ .durationUs ∧ a.mName ≠ .bandwidth) :
    Pending strtodUs (past ++ [l]) st' := by
  have hblock : blockOf strtodUs (past ++ [l]) = blockOf strtodUs past ++ [l] :=
    (scan_append_of_none fun htag => absurd htag huri).1
  constructor
  · rw [hblock,durationIn_append,if_neg hinf,or_none,← h.duration]
    exact hext.find_of_forall_ne fun a ha => (hne a ha).1
  · rw [← h.bandwidth]
    exact hext.find_of_forall_ne fun a ha => (hne a ha).2

theorem Pending.of_itemMeta_eq (hm : st'.itemMeta = st.itemMeta) :
    Pending strtodUs (past ++ [l]) st' := by
  have hext : st.itemMeta.Extends [] st'.itemMeta := by
    rw [hm]
    exact extends_nil _
  exact h.of_extends huri hinf hext (by simp)

end

section
variable (hmedia : st.playList.mIsVariantPlaylist = false) (h : Pending strtodUs past st)
include hmedia h

theorem parseUri_of_pending :
    parseUri st l = match durationIn strtodUs (blockOf strtodUs past) with
      | some d => addItem st l d
      | none => st := by
  unfold parseUri findInt64
  rw [hmedia,h.duration]
  cases durationIn strtodUs (blockOf strtodUs past) with
  | none => simp
  | some d => simp

theorem MediaStep.pending (hstep : MediaStep abi strtodUs st l st') :
    Pending strtodUs (past ++ [l]) st' := by
  cases hstep with
  | targetDuration tag _ | mediaSequence tag _ _ =>
    exact h.of_itemMeta_eq (by simp [tag]) (by simp [tag]) rfl
  | noKey tag _ hm | key tag _ hm =>
    apply h.of_extends (by simp [tag]) (by simp [tag]) hm
    intro a ha
    have := mName_mem_of_mem_keyAtoms ha
    constructor <;> rintro hname <;> simp [hname] at this
  | @extinf d m tag hd hm =>
    have hblock : blockOf strtodUs (past ++ [l]) = blockOf strtodUs past ++ [l] :=
      (scan_append_of_none fun htag => by simp [tag] at htag).1
    constructor
    · have hfind : m.find .durationUs = _ := find_of_mAtom_append hm
      rw [hblock,durationIn_append,if_pos tag,hd,hfind,h.duration]
      cases durationIn strtodUs (blockOf strtodUs past) <;> rfl
    · rw [← h.bandwidth]
      exact (extends_of_append hm).find_of_forall_ne (by simp)
  | discontinuity tag hm | byteRange tag _ hm =>
    exact h.of_extends (by simp [tag]) (by simp [tag]) hm (by simp)
  | other tag hp =>
    have huri : tagOf l ≠ .uri := by
      intro htag
      simp [htag] at tag
    have hinf : tagOf l ≠ .extinf := by
      intro htag
      simp [htag] at tag
    exact h.of_itemMeta_eq huri hinf rfl
  | uri tag =>
    rw [parseUri_of_pending hmedia h]
    cases hd : durationIn strtodUs (blockOf strtodUs past) with
    | none =>
      have hblock : blockOf strtodUs (past ++ [l]) = blockOf strtodUs past ++ [l] :=
        (scan_append_of_none fun _ => hd).1
      constructor
      · rw [hblock,durationIn_append,if_neg (by simp [tag]),or_none]
        exact h.duration
      · exact h.bandwidth
    | some d =>
      constructor
      · rw [(scan_append_of_some tag hd).1]
        rfl
      · rfl

end

/-- A view of the pending metadata shows what it shows of the lines since the last segment, as
far as there are places. -/
theorem MediaStep.viewed {β : Type} {view : Atom → β} {slots : Line → List β}
    (hslots : ∀ offset l, (lineAtoms strtodUs baseURI offset l).map view = slots l)
    (hmedia : st.playList.mIsVariantPlaylist = false) (hbase : st.playList.mBaseURI = baseURI)
    (hpending : Pending strtodUs past st) (hstep : MediaStep abi strtodUs st l st')
    (h : st.itemMeta.mAtom.map view = ((blockOf strtodUs past).flatMap slots).take maxNumAtom) :
    st'.itemMeta.mAtom.map view =
      ((blockOf strtodUs (past ++ [l])).flatMap slots).take maxNumAtom := by
  by_cases huri : tagOf l = .uri
  · rw [hstep.of_uri huri,parseUri_of_pending hmedia hpending]
    cases hd : durationIn strtodUs (blockOf strtodUs past) with
    | none =>
      have hnil : slots l = [] := by simp [← hslots 0,lineAtoms,huri]
      rw [(scan_append_of_none fun _ => hd).1, flatMap_append,flatMap_singleton,hnil,append_nil]
      exact h
    | some d =>
      rw [(scan_append_of_some huri hd).1]
      rfl
  · obtain ⟨hext,-⟩ := hstep.metadata huri
    rw [hbase] at hext
    rw [(scan_append_of_none fun htag => absurd htag huri).1, hext,map_take,map_append,h,hslots,
      flatMap_append,flatMap_singleton,take_append_take]

theorem MediaStep.mBaseURI (hstep : MediaStep abi strtodUs st l st') :
    st'.playList.mBaseURI = st.playList.mBaseURI := by
  cases hstep with
  | other _ hp => exact hp.mBaseURI
  | uri _ =>
    unfold parseUri
    split
    · rfl
    · split <;> rfl
  | _ => rfl

/-- The invariant rule for accepted media playlists: what each line keeps, in a state whose
pending metadata are those of the lines since the last segment, holds at the end. -/
theorem media_history {data : List Char} (h : m3u8Parse abi strtodUs data baseURI = .done p)
    (hmedia : p.mIsVariantPlaylist = false) (Inv : List Line → ParseState → Prop)
    (hstart : Inv [] (initialState baseURI))
    (hstep : ∀ past st l st', st.playList.mIsVariantPlaylist = false →
      st.playList.mBaseURI = baseURI → Pending strtodUs past st → Inv past st →
      MediaStep abi strtodUs st l st' → Inv (past ++ [l]) st') :
    ∃ st, st.playList = p ∧ Inv (bodyOf data) st := by
  unfold m3u8Parse at h
  unfold bodyOf
  cases hlines : linesOf data with
  | nil => simp [hlines] at h
  | cons header body =>
    simp only [hlines] at h
    split at h
    · cases h
    · obtain ⟨st,hrun,hend⟩ := bind_eq_done.mp h
      have hp : st.playList = p := by
        split at hend
        · cases hend
        · split at hend
          · cases hend
          · cases hend
            rfl
      refine ⟨st,hp,?_⟩
      subst hp
      -- carried along: the base URI and the pending metadata
      have hinv := runCalls_history (s := initialState baseURI)
        (fun past st => st.playList.mIsVariantPlaylist = false →
          st.playList.mBaseURI = baseURI ∧ Pending strtodUs past st ∧ Inv past st)
        (fun _ => ⟨rfl,⟨rfl,rfl⟩,hstart⟩) ?_ body st hrun hmedia
      · exact hinv.2.2
      · intro past t l t' ht hline hm
        obtain ⟨hm',hms⟩ := parseLine_cases hline hm
        obtain ⟨hbase,hpending,hi⟩ := ht hm'
        exact ⟨hms.mBaseURI.trans hbase,hms.pending hm' hpending,
          hstep past t l t' hm' hbase hpending hi hms⟩

end TinaPackage.Hls
