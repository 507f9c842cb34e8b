import TinaPackage.Mp4Durations

/-! The moov box as a tree of boxes. For every box the function that computes its size and the
one that writes it agree, as long as the tables have as many entries as their counters say. -/
namespace TinaPackage.Mp4
open Box List WrittenAll

section
variable (trk : MOVTrack)

def avccBox : Box := ⟨tagBytes "avcC",avccWriteSpsPps trk.vosData,[]⟩

def esdsFields (s : CodecType) : List UInt8 := (videoWriteEsdsTag trk s).drop 8

def esdsBox (s : CodecType) : Box := ⟨tagBytes "esds",esdsFields trk s,[]⟩

def videoEntryBox : Box :=
  ⟨findCodecTag trk,stsdVideoFields trk,match trk.enc.codecId with
    | .h264 => [avccBox trk]
    | .mpeg4 => [esdsBox trk .video]
    | _ => []⟩

def audioEntryBox : Box :=
  ⟨findCodecTag trk,stsdAudioFields trk,
    if trk.enc.codecId = .aac then [esdsBox trk .audio] else []⟩

def stsdBox (s : CodecType) : Box :=
  ⟨tagBytes "stsd",be32 0 ++ be32 1,match s with
    | .video => [videoEntryBox trk]
    | .audio => [audioEntryBox trk]⟩

end

def NalRef.Inside (ref : NalRef) : Prop := ref.size ≤ ref.tail.length

theorem scanNals_inside (nals : List (List UInt8)) {found found' : SpsPps}
    (h : scanNals nals found = some found')
    (hsps : ∀ ref ∈ found.sps, ref.Inside) (hpps : ∀ ref ∈ found.pps, ref.Inside) :
    (∀ ref ∈ found'.sps, ref.Inside) ∧ ∀ ref ∈ found'.pps, ref.Inside := by
  induction nals generalizing found with
  | nil =>
    rw [scanNals,Option.some.injEq] at h
    rw [← h]
    exact ⟨hsps,hpps⟩
  | cons nal nals ih =>
    have hnew : ∀ ref ∈ some (NalRef.mk (nal ++ nalBuffer nals) nal.length), ref.Inside := by
      intro ref href
      cases href
      change nal.length ≤ (nal ++ nalBuffer nals).length
      rw [length_append]
      exact Nat.le_add_right _ _
    simp only [scanNals] at h
    -- the unit is an SPS, a PPS or neither
    split at h
    · cases h
    · split at h
      · exact ih h hnew hpps
      · split at h
        · exact ih h hsps hnew
        · exact ih h hsps hpps

theorem length_nalBytes {ref : Option NalRef} (h : ∀ r ∈ ref, r.Inside) :
    (nalBytes ref).length = nalSize ref := by
  cases ref with
  | none => rfl
  | some r =>
    change (r.tail.take r.size).length = r.size
    rw [length_take,Nat.min_eq_left (h r rfl)]

theorem length_avccWriteSpsPps (vos : List UInt8) :
    (avccWriteSpsPps vos).length = avccGetSpsPpsSize vos := by
  unfold avccWriteSpsPps avccGetSpsPpsSize
  split
  case isFalse => rfl
  case isTrue =>
    split
    case isFalse => rfl
    case isTrue =>
      match hfound : findSpsPps vos with
      | none => rfl
      | some found =>
        have hscan : scanNals (parseAvcNalus vos) ⟨none,none⟩ = some found := by
          unfold findSpsPps at hfound
          split at hfound
          · exact hfound
          · cases hfound
        obtain ⟨hsps,hpps⟩ := scanNals_inside _ hscan (by simp) (by simp)
        simp only [length_append,length_cons,length_nil,length_be16,
          length_nalBytes hsps,length_nalBytes hpps]

theorem avcc_written (trk : MOVTrack) :
    Written (avccBox trk) (videoGetAvccTagSize trk) (videoWriteAvccTag trk) := by
  apply written_leaf
  rw [length_avccWriteSpsPps]
  rfl

theorem descrGroups_pos (len : ℕ) : 0 < descrGroups len := by
  unfold descrGroups
  split_ifs <;> decide

theorem length_writeDescrStream (tag : UInt8) (len : ℕ) :
    (writeDescrStream tag len).length = 1+descrGroups len := by
  have hpos := descrGroups_pos len
  simp only [writeDescrStream,length_append,length_cons,length_nil,
    length_map,length_reverse,length_range]
  omega

section
variable (trk : MOVTrack)
include trk

theorem length_esdsFields (s : CodecType) :
    (esdsFields trk s).length+8 = videoGetEsdsTagSize trk := by
  have htag : (tagBytes "esds").length = 4 := by decide
  have hinfo : (if trk.vosData.length = 0 then [] else
      writeDescrStream 0x05 trk.vosData.length ++ trk.vosData).length =
        decSpecInfoSize trk.vosData := by
    unfold decSpecInfoSize calDescrLength
    split
    · rfl
    · rw [length_append,length_writeDescrStream]
      omega
  unfold esdsFields videoWriteEsdsTag videoGetEsdsTagSize
  simp only [length_drop,length_append,length_cons,length_nil,length_be32,
    length_be16,htag,length_writeDescrStream,hinfo]
  unfold calDescrLength esDescrSize calDescrLength
  omega

theorem esds_written (s : CodecType) :
    Written (esdsBox trk s) (videoGetEsdsTagSize trk) (videoWriteEsdsTag trk s) := by
  have hbytes : videoWriteEsdsTag trk s =
      be32 (videoGetEsdsTagSize trk) ++ tagBytes "esds" ++ esdsFields trk s := by
    unfold esdsFields videoWriteEsdsTag
    simp only [append_assoc]
    rfl
  have hlen := length_esdsFields trk s
  have htag : (tagBytes "esds").length = 4 := by decide
  rw [hbytes]
  apply written_leaf
  omega

theorem length_findCodecTag : (findCodecTag trk).length = 4 := by
  unfold findCodecTag
  split <;> decide

theorem length_stsdVideoFields : (stsdVideoFields trk).length = 78 := by
  simp [stsdVideoFields]

theorem videoEntry_written :
    Written (videoEntryBox trk) (stsdGetVideoTagSize trk) (stsdWriteVideoTag trk) := by
  have htag := length_findCodecTag trk
  have hfields := length_stsdVideoFields trk
  unfold videoEntryBox stsdWriteVideoTag
  -- H.264 and MPEG-4 have a box for their extra data
  match hcodec : trk.enc.codecId with
  | .h264 =>
    apply (avcc_written trk).single.node
    rw [stsdGetVideoTagSize,hcodec]
    dsimp only
    omega
  | .mpeg4 =>
    apply (esds_written trk .video).single.node
    rw [stsdGetVideoTagSize,hcodec]
    dsimp only
    omega
  | .mjpeg | .unset | .aac | .mp3 | .pcm | .adpcm =>
    apply writtenAll_nil.node
    rw [stsdGetVideoTagSize,hcodec]
    dsimp only
    omega

theorem length_stsdAudioFields :
    (stsdAudioFields trk).length = 28+if trk.enc.codecId = .adpcm then 16 else 0 := by
  unfold stsdAudioFields
  split
  · simp [stsdAdpcmFields]
  · simp

theorem audioEntry_written :
    Written (audioEntryBox trk) (stsdGetAudioTagSize trk) (stsdWriteAudioTag trk) := by
  have htag := length_findCodecTag trk
  have hfields := length_stsdAudioFields trk
  unfold audioEntryBox stsdWriteAudioTag
  by_cases haac : trk.enc.codecId = .aac
  · rw [if_pos haac,if_pos haac]
    apply (esds_written trk .audio).single.node
    rw [stsdGetAudioTagSize,if_pos haac]
    omega
  · rw [if_neg haac,if_neg haac]
    apply writtenAll_nil.node
    rw [stsdGetAudioTagSize,if_neg haac]
    omega

theorem stsd_written (s : CodecType) :
    Written (stsdBox trk s) (stblGetStsdTagSize trk s) (stblWriteStsdTag trk s) := by
  have htag : (tagBytes "stsd").length = 4 := by decide
  have hbody : (be32 0 ++ be32 1).length = 8 := by decide
  unfold stsdBox stblWriteStsdTag
  cases s with
  | video =>
    apply (videoEntry_written trk).single.node
    rfl
  | audio =>
    apply (audioEntry_written trk).single.node
    rw [htag,hbody]
    rfl

end

/-- A box with fields or entries only, read off the bytes of its writer. -/
def fieldsBox (tag : String) (bytes : List UInt8) : Box := ⟨tagBytes tag,bytes.drop 8,[]⟩

def stblBox (trk : MOVTrack) (s : CodecType) (tables : StblTables) : Box :=
  ⟨tagBytes "stbl",[],[stsdBox trk s,fieldsBox "stts" tables.stts] ++
    (match s with
      | .video => [fieldsBox "stss" tables.stss]
      | .audio => []) ++
    [fieldsBox "stsc" tables.stsc,fieldsBox "stsz" tables.stsz,fieldsBox "stco" tables.stco]⟩

theorem fields_written {tag : String} {size : ℕ} {body : List UInt8}
    (htag : (tagBytes tag).length = 4) (hsize : size = 8+body.length) :
    Written (fieldsBox tag (be32 size ++ tagBytes tag ++ body)) size
      (be32 size ++ tagBytes tag ++ body) := by
  have hdrop : (be32 size ++ tagBytes tag ++ body).drop 8 = body := by
    apply drop_left'
    rw [length_append,length_be32,htag]
  unfold fieldsBox
  rw [hdrop]
  apply written_leaf
  omega

structure TablesSized (mov : MuxMOVContext) (trk : MOVTrack) (s : CodecType) : Prop where
  stts : s = .video → ((videoDurations mov).1 ++ [0]).length = mov.totalNum videoStts
  stsc : mov.tinyPages (.stsc, s)*tinyPageSize ≤ mov.totalNum (.stsc, s)
  stsz : trk.enc.codecId ≠ .pcm → mov.tinyPages (.stsz, s)*tinyPageSize ≤ mov.totalNum (.stsz, s)
  stco : mov.tinyPages (.stco, s)*tinyPageSize ≤ mov.totalNum (.stco, s)

section Tables
variable {mov : MuxMOVContext} {trk : MOVTrack} {s : CodecType}

theorem stts_written (h : s = .video →
      ((videoDurations mov).1 ++ [0]).length = mov.totalNum videoStts) :
    Written (fieldsBox "stts" (stblWriteSttsTag mov trk s).1) (movGetSttsTagSize mov s)
      (stblWriteSttsTag mov trk s).1 := by
  cases s with
  | audio =>
    unfold stblWriteSttsTag
    simp only [append_assoc]
    apply fields_written (by decide)
    simp [movGetSttsTagSize]
  | video =>
    unfold stblWriteSttsTag
    simp only [append_assoc (be32 (movGetSttsTagSize mov .video) ++ tagBytes "stts")]
    apply fields_written (by decide)
    have hentries : (((videoDurations mov).1 ++ [0]).flatMap fun d => be32 1 ++ be32 d).length =
        8*mov.totalNum (.stts, .video) := by
      rw [length_flatMap_const (k := 8) (by simp),h rfl]
    rw [length_append,length_append,hentries]
    simp only [length_be32,movGetSttsTagSize]
    omega

theorem stss_written (mov : MuxMOVContext) :
    Written (fieldsBox "stss" (stblWriteStssTag mov)) (stblGetStssTagSize mov)
      (stblWriteStssTag mov) := by
  unfold stblWriteStssTag
  simp only [append_assoc (be32 (stblGetStssTagSize mov) ++ tagBytes "stss")]
  apply fields_written (by decide)
  rw [length_append,length_append,length_flatMap_be32,length_map,length_range]
  simp only [length_be32,stblGetStssTagSize]
  omega

theorem stsc_written (h : mov.tinyPages (.stsc, s)*tinyPageSize ≤ mov.totalNum (.stsc, s)) :
    Written (fieldsBox "stsc" (stblWriteStscTag mov s).1) (stblGetStscTagSize mov s)
      (stblWriteStscTag mov s).1 := by
  have hwords := length_tableWords (t := (.stsc, s)) (one_dvd tinyPageSize) h
  unfold stblWriteStscTag
  simp only [append_assoc (be32 (stblGetStscTagSize mov s) ++ tagBytes "stsc")]
  apply fields_written (by decide)
  rw [length_append,length_append,length_flatMap_const (k := 12) (by simp),length_zipIdx,hwords]
  simp only [length_be32,stblGetStscTagSize]
  omega

theorem stsz_written (h : trk.enc.codecId ≠ .pcm →
      mov.tinyPages (.stsz, s)*tinyPageSize ≤ mov.totalNum (.stsz, s)) :
    Written (fieldsBox "stsz" (stblWriteStszTag mov trk s).1) (stblGetStszTagSize mov trk s)
      (stblWriteStszTag mov trk s).1 := by
  unfold stblWriteStszTag
  by_cases hpcm : trk.enc.codecId = .pcm
  · rw [if_pos hpcm]
    apply fields_written (by decide)
    simp [stblGetStszTagSize,hpcm]
  · have hwords := length_tableWords (t := (.stsz, s)) (dvd_refl tinyPageSize) (h hpcm)
    rw [if_neg hpcm]
    simp only [append_assoc (be32 (stblGetStszTagSize mov trk s) ++ tagBytes "stsz")]
    apply fields_written (by decide)
    rw [length_append,length_append,length_append,length_flatMap_be32,hwords,
      stblGetStszTagSize,if_neg hpcm]
    simp only [length_be32]
    omega

theorem stco_written (h : mov.tinyPages (.stco, s)*tinyPageSize ≤ mov.totalNum (.stco, s)) :
    Written (fieldsBox "stco" (stblWriteStcoTag mov s).1) (stblGetStcoTagSize mov s)
      (stblWriteStcoTag mov s).1 := by
  have hwords := length_tableWords (t := (.stco, s)) (dvd_refl tinyPageSize) h
  unfold stblWriteStcoTag
  simp only [append_assoc (be32 (stblGetStcoTagSize mov s) ++ tagBytes "stco")]
  apply fields_written (by decide)
  rw [length_append,length_append,length_flatMap_be32,hwords]
  simp only [length_be32,stblGetStcoTagSize]
  omega

theorem stbl_written (h : TablesSized mov trk s) :
    Written (stblBox trk s (writeStblTables mov trk s).1) (minfGetStblTagSize mov trk s)
      (minfWriteStblTag mov trk s (writeStblTables mov trk s).1) := by
  -- the boxes are written one after the other, each in the state the one before left
  let mov1 := (stblWriteSttsTag mov trk s).2
  let mov2 := (stblWriteStscTag mov1 s).2
  let mov3 := (stblWriteStszTag mov2 trk s).2
  obtain ⟨hframe1,-⟩ := stblWriteSttsTag_frame mov trk s
  have hframe2 : ReadFrame (.stsc, s) mov1 mov2 := stblWriteStscTag_frame mov1 s
  have hframe3 : ReadFrame (.stsz, s) mov2 mov3 := stblWriteStszTag_frame mov2 trk s
  have htotal1 : mov1.totalNum = mov.totalNum := hframe1.total
  have htotal2 : mov2.totalNum = mov.totalNum := hframe2.total.trans htotal1
  have htotal3 : mov3.totalNum = mov.totalNum := hframe3.total.trans htotal2
  have hpages1 : mov1.tinyPages = mov.tinyPages := hframe1.pages
  have hpages2 : mov2.tinyPages = mov.tinyPages := hframe2.pages.trans hpages1
  have hpages3 : mov3.tinyPages = mov.tinyPages := hframe3.pages.trans hpages2
  have hkeys : mov1.keyFrameNum = mov.keyFrameNum := hframe1.context.keyFrameNum
  have hstts : Written (fieldsBox "stts" (stblWriteSttsTag mov trk s).1) (movGetSttsTagSize mov s)
      (stblWriteSttsTag mov trk s).1 := stts_written h.stts
  have hstsc : Written (fieldsBox "stsc" (stblWriteStscTag mov1 s).1) (stblGetStscTagSize mov s)
      (stblWriteStscTag mov1 s).1 := by
    have hsize : stblGetStscTagSize mov s = stblGetStscTagSize mov1 s := by
      rw [stblGetStscTagSize,stblGetStscTagSize,htotal1]
    rw [hsize]
    apply stsc_written
    rw [hpages1,htotal1]
    exact h.stsc
  have hstsz : Written (fieldsBox "stsz" (stblWriteStszTag mov2 trk s).1)
      (stblGetStszTagSize mov trk s) (stblWriteStszTag mov2 trk s).1 := by
    have hsize : stblGetStszTagSize mov trk s = stblGetStszTagSize mov2 trk s := by
      rw [stblGetStszTagSize,stblGetStszTagSize,htotal2]
    rw [hsize]
    apply stsz_written
    rw [hpages2,htotal2]
    exact h.stsz
  have hstco : Written (fieldsBox "stco" (stblWriteStcoTag mov3 s).1) (stblGetStcoTagSize mov s)
      (stblWriteStcoTag mov3 s).1 := by
    have hsize : stblGetStcoTagSize mov s = stblGetStcoTagSize mov3 s := by
      rw [stblGetStcoTagSize,stblGetStcoTagSize,htotal3]
    rw [hsize]
    apply stco_written
    rw [hpages3,htotal3]
    exact h.stco
  have htag : (tagBytes "stbl").length = 4 := by decide
  have htail := cons hstsc (cons hstsz hstco.single)
  have hhead := cons (stsd_written trk s) hstts.single
  unfold minfWriteStblTag
  cases s with
  | video =>
    have hstss : stblGetStssTagSize mov1 = stblGetStssTagSize mov := by
      rw [stblGetStssTagSize,stblGetStssTagSize,hkeys]
    apply ((hhead.append (stss_written mov1).single).append htail).container
    · rw [htag,hstss,minfGetStblTagSize]
      omega
    · simp only [append_assoc]
      rfl
  | audio =>
    apply ((hhead.append writtenAll_nil).append htail).container
    · rw [htag,minfGetStblTagSize]
      omega
    · simp only [append_assoc]
      rfl

end Tables

def vmhdBox : Box := ⟨tagBytes "vmhd",be32 0x01 ++ be32 0 ++ be32 0,[]⟩

def smhdBox : Box := ⟨tagBytes "smhd",be32 0 ++ be16 0 ++ be16 0,[]⟩

def dinfBox : Box :=
  ⟨tagBytes "dinf",[],[⟨tagBytes "dref",be32 0 ++ be32 1,[⟨tagBytes "url ",be32 1,[]⟩]⟩]⟩

def minfBox (trk : MOVTrack) (s : CodecType) (tables : StblTables) : Box :=
  ⟨tagBytes "minf",[],[match s with
    | .video => vmhdBox
    | .audio => smhdBox,dinfBox,stblBox trk s tables]⟩

variable (mov : MuxMOVContext)

def mdiaBox (trk : MOVTrack) (s : CodecType) (tables : StblTables) : Box :=
  ⟨tagBytes "mdia",[],[fieldsBox "mdhd" (mdiaWriteMdhdTag mov trk s),
    fieldsBox "hdlr" (mdiaWriteHdlrTag s),minfBox trk s tables]⟩

def trakBox (trk : MOVTrack) (s : CodecType) (tables : StblTables) : Box :=
  ⟨tagBytes "trak",[],[fieldsBox "tkhd" (trakWriteTkhdTag mov trk s),mdiaBox mov trk s tables]⟩

def udtaBox : Box :=
  ⟨tagBytes "udta",[],[⟨0xA9 :: tagBytes "xyz",be32 0x001215c7 ++ writeLatitude mov.latitudex ++
    writeLongitude mov.longitudex ++ [0x2F],[]⟩]⟩

def trakBoxes (s : CodecType) (tables : Option StblTables) : List Box :=
  match mov.tracks s, tables with
  | some trk, some tables => [trakBox mov trk s tables]
  | _, _ => []

def moovBox (tables : CodecType → Option StblTables) : Box :=
  ⟨tagBytes "moov",[],(if mov.geoAvailable then [udtaBox mov] else []) ++
    [fieldsBox "mvhd" (moovWriteMvhdTag mov)] ++ trakBoxes mov .video (tables .video) ++
    trakBoxes mov .audio (tables .audio)⟩

section Moov
variable {mov : MuxMOVContext} {trk : MOVTrack} {s : CodecType}

theorem dinf_written : Written dinfBox minfGetDinfTagSize minfWriteDinfTag := by
  have hurl : Written ⟨tagBytes "url ",be32 1,[]⟩ 12 (be32 0xc ++ tagBytes "url " ++ be32 1) :=
    written_leaf (by decide)
  have hdref : Written ⟨tagBytes "dref",be32 0 ++ be32 1,[⟨tagBytes "url ",be32 1,[]⟩]⟩
      dinfGetDrefTagSize dinfWriteDrefTag := hurl.single.node (by decide)
  apply hdref.single.container
  · decide
  · rfl

variable {tables : StblTables}

section
variable (h : Written (stblBox trk s tables) (minfGetStblTagSize mov trk s)
      (minfWriteStblTag mov trk s tables))
include h

theorem minf_written :
    Written (minfBox trk s tables) (mdiaGetMinfTagSize mov trk s)
      (mdiaWriteMinfTag mov trk s tables) := by
  have htag : (tagBytes "minf").length = 4 := by decide
  have htail := cons dinf_written h.single
  unfold minfBox mdiaWriteMinfTag
  cases s with
  | video =>
    have hvmhd : Written vmhdBox minfGetVmhdTagSize minfWriteVmhdTag := written_leaf (by decide)
    apply (cons hvmhd htail).container
    · rw [htag,mdiaGetMinfTagSize]
      omega
    · simp
  | audio =>
    have hsmhd : Written smhdBox minfGetSmhdTagSize minfWriteSmhdTag := written_leaf (by decide)
    apply (cons hsmhd htail).container
    · rw [htag,mdiaGetMinfTagSize]
      omega
    · simp

theorem mdia_written :
    Written (mdiaBox mov trk s tables) (trakGetMdiaTagSize mov trk s)
      (trakWriteMdiaTag mov trk s tables) := by
  have htag : (tagBytes "mdia").length = 4 := by decide
  have hmdhd : Written (fieldsBox "mdhd" (mdiaWriteMdhdTag mov trk s)) mdiaGetMdhdTagSize
      (mdiaWriteMdhdTag mov trk s) := by
    apply fields_written (by decide)
    simp [mdiaGetMdhdTagSize]
  have hhdlr : Written (fieldsBox "hdlr" (mdiaWriteHdlrTag s)) (mdiaGetHdlrTagSize s)
      (mdiaWriteHdlrTag s) := by
    apply fields_written (by decide)
    cases s <;> decide
  apply (cons hmdhd (cons hhdlr (minf_written h).single)).container
  · rw [htag,trakGetMdiaTagSize]
    omega
  · unfold trakWriteMdiaTag
    simp

theorem trak_written :
    Written (trakBox mov trk s tables) (moovGetTrakTagSize mov trk s)
      (moovWriteTrakTag mov trk s tables) := by
  have htag : (tagBytes "trak").length = 4 := by decide
  have htkhd : Written (fieldsBox "tkhd" (trakWriteTkhdTag mov trk s)) trakGetTkhdTagSize
      (trakWriteTkhdTag mov trk s) := by
    apply fields_written (by decide)
    simp [trakGetTkhdTagSize]
  apply (cons htkhd (mdia_written h).single).container
  · rw [htag,moovGetTrakTagSize]
    omega
  · unfold moovWriteTrakTag
    simp

end

variable {mov1 : MuxMOVContext}

/-- The trak box of a track, with sizes from `mov` and tables from a later state `mov1` that
agrees with it. -/
theorem traks_written (hframe : SameSetup mov mov1) (htotal : mov1.totalNum = mov.totalNum)
    (hsized : ∀ trk, mov.tracks s = some trk → mov.totalNum (.stsz, s) > 0 →
      TablesSized mov1 trk s) :
    WrittenAll (trakBoxes mov s (trackTables mov1 s).1) (trakTagSize mov s)
      (writeTrak mov s (trackTables mov1 s).1) := by
  unfold trakBoxes trakTagSize writeTrak trackTables writtenTrack
  rw [hframe.tracks,htotal]
  match htrk : mov.tracks s with
  | none =>
    rw [ite_self]
    exact writtenAll_nil
  | some trk =>
    dsimp only
    by_cases hpos : mov.totalNum (.stsz, s) > 0
    · rw [if_pos hpos,if_pos hpos]
      apply Written.single
      apply trak_written
      have hstbl := stbl_written (hsized trk htrk hpos)
      -- the counters of the two states agree, so the sizes do
      have hsize : minfGetStblTagSize mov1 trk s = minfGetStblTagSize mov trk s := by
        unfold minfGetStblTagSize movGetSttsTagSize stblGetStssTagSize stblGetStscTagSize
          stblGetStszTagSize stblGetStcoTagSize
        rw [htotal,hframe.keyFrameNum]
      unfold minfWriteStblTag at hstbl ⊢
      rw [hsize] at hstbl
      exact hstbl
    · rw [if_neg hpos,if_neg hpos]
      exact writtenAll_nil

theorem length_degreeChars (digits : ℕ) (degreex10000 : ℤ) :
    (degreeChars digits degreex10000).length = digits+6 := by
  unfold degreeChars List.leftpad
  simp only [length_append,length_take,length_cons,length_nil,length_replicate]
  omega

theorem udta_written (mov : MuxMOVContext) :
    Written (udtaBox mov) moovGetUdtaTagSize (moovWriteUdtaTag mov) := by
  have hlat : (writeLatitude mov.latitudex).length = 8 := by
    rw [writeLatitude,length_map,length_degreeChars]
  have hlong : (writeLongitude mov.longitudex).length = 9 := by
    rw [writeLongitude,length_map,length_degreeChars]
  have hxyz : (0xA9 :: tagBytes "xyz").length = 4 := by decide
  have hplace : Written ⟨0xA9 :: tagBytes "xyz",be32 0x001215c7 ++ writeLatitude mov.latitudex ++
      writeLongitude mov.longitudex ++ [0x2F],[]⟩ (moovGetUdtaTagSize-8) _ := written_leaf (by
        simp only [length_append,length_be32,hlat,hlong,hxyz]
        decide)
  apply hplace.single.container
  · decide
  · unfold moovWriteUdtaTag
    simp

theorem moov_written (hframe : SameSetup mov mov1) (htotal : mov1.totalNum = mov.totalNum)
    (hvideo : ∀ trk, mov.tracks .video = some trk → mov.totalNum (.stsz, .video) > 0 →
      TablesSized mov trk .video)
    (haudio : ∀ trk, mov.tracks .audio = some trk → mov.totalNum (.stsz, .audio) > 0 →
      TablesSized mov1 trk .audio)
    {tables : CodecType → Option StblTables} (htv : tables .video = (trackTables mov .video).1)
    (hta : tables .audio = (trackTables mov1 .audio).1) :
    Written (moovBox mov tables) (fileGetMoovTagSize mov)
      (be32 (fileGetMoovTagSize mov) ++ tagBytes "moov" ++
        (if mov.geoAvailable then moovWriteUdtaTag mov else []) ++ moovWriteMvhdTag mov ++
        writeTrak mov .video (tables .video) ++ writeTrak mov .audio (tables .audio)) := by
  have htag : (tagBytes "moov").length = 4 := by decide
  have hmvhd : Written (fieldsBox "mvhd" (moovWriteMvhdTag mov)) moovGetMvhdTagSize
      (moovWriteMvhdTag mov) := by
    apply fields_written (by decide)
    simp [moovGetMvhdTagSize]
  have hudta : WrittenAll (if mov.geoAvailable then [udtaBox mov] else [])
      (if mov.geoAvailable then moovGetUdtaTagSize else 0)
      (if mov.geoAvailable then moovWriteUdtaTag mov else []) := by
    split
    · exact (udta_written mov).single
    · exact writtenAll_nil
  have hself : SameSetup mov mov := (SameContext.refl mov).toSameSetup
  have hv : WrittenAll (trakBoxes mov .video (tables .video)) (trakTagSize mov .video)
      (writeTrak mov .video (tables .video)) := by
    rw [htv]
    exact traks_written hself rfl hvideo
  have ha : WrittenAll (trakBoxes mov .audio (tables .audio)) (trakTagSize mov .audio)
      (writeTrak mov .audio (tables .audio)) := by
    rw [hta]
    exact traks_written hframe htotal haudio
  apply (((hudta.append hmvhd.single).append hv).append ha).container
  · rw [htag,fileGetMoovTagSize]
    omega
  · simp

end Moov

def packetStep (c : Mp4MuxContext) (call : Mp4Io × Packet) : Outcome Mp4MuxContext Mp4MuxContext :=
  mp4WritePacket call.1 c call.2

def PacketCounts (c : Mp4MuxContext) (call : Mp4Io × Packet) : Prop :=
  (recordsKeyFrame c.mov call.2 = true → c.mov.keyFrameNum .video < keyframeCacheEntries) ∧
    c.mov.totalNum videoStts+1 < 2^32

instance (c : Mp4MuxContext) (call : Mp4Io × Packet) : Decidable (PacketCounts c call) :=
  inferInstanceAs (Decidable (_ ∧ _))

/-- The tables of a recording are counted right, and each video sample has an stts entry. -/
structure Tallied (tracks : CodecType → Option MOVTrack) (c : Mp4MuxContext) : Prop where
  steady : Steady c.mov
  stts : Settled c.mov videoStts (c.mov.tinyPages videoStts)
  samples : c.mov.totalNum videoStts = c.mov.totalNum (.stsz, .video)
  few : c.mov.totalNum videoStts < 2^32
  tracks : c.mov.tracks = tracks

section Run
variable {tracks : CodecType → Option MOVTrack} {c : Mp4MuxContext}

theorem Tallied.step (ht : Tallied tracks c) (hrec : Recordable tracks)
    {call : Mp4Io × Packet} (hcounts : PacketCounts c call) :
    (packetStep c call).Ensures (Tallied tracks) := by
  obtain ⟨io,pkt⟩ := call
  obtain ⟨hkey,hfew⟩ := hcounts
  let total := match pkt.streamIndex with
    | .video => c.mov.totalNum videoStts+1
    | .audio => c.mov.totalNum videoStts
  have hstts : ∀ mov, KeepsTables (fun u => u.1 = .stts) c.mov mov →
      match pkt.streamIndex with
      | .video => (addDuration io mov pkt.pts).Ensures fun mov' =>
          Settled mov' videoStts (mov'.tinyPages videoStts) ∧ mov'.totalNum videoStts = total
      | .audio => Settled mov videoStts (mov.tinyPages videoStts) ∧
          mov.totalNum videoStts = total := by
    intro mov hkeep
    have hsame := hkeep.tables videoStts rfl
    have hbefore : Settled mov videoStts (mov.tinyPages videoStts) := by
      rw [hkeep.pages videoStts rfl]
      exact hsame.settled ht.stts
    dsimp only [total]
    match pkt.streamIndex with
    | .audio => exact ⟨hbefore,hsame.total⟩
    | .video =>
      apply (hbefore.addDuration pkt.pts io).imp
      rintro mov' ⟨hsettled,htotal⟩
      exact ⟨hsettled,by rw [htotal,hsame.total]⟩
  apply (ht.steady.mp4WritePacket ht.stts.inside (by rw [ht.tracks]; exact hrec.pcm) hkey
    (fun m m' hsame hpages hm => ⟨by rw [hpages]; exact hsame.settled hm.1,
      hsame.total.trans hm.2⟩) hstts).imp
  rintro c' ⟨hwritten,hsettled,htotal⟩
  obtain ⟨trk,htrk,hcodec⟩ := hrec.video
  refine ⟨hwritten.steady,hsettled,?_,?_,hwritten.tracks.trans ht.tracks⟩
  all_goals
    rw [htotal]
    dsimp only [total]
  · match hs : pkt.streamIndex with
    | .audio => rw [hwritten.otherSamples .video (by rw [hs]; decide),ht.samples]
    | .video =>
      have hsamples := hwritten.samples trk (by rw [hs,ht.tracks]; exact htrk) hcodec
      rw [hs] at hsamples
      rw [hsamples,ht.samples]
  · match pkt.streamIndex with
    | .audio => exact ht.few
    | .video => exact hfew

theorem tallied_start (tracks : CodecType → Option MOVTrack) (cache cacheKeyframe : ℕ → ℕ)
    (createTime playTimeLength : ℤ) (geo : Option (ℤ × ℤ)) :
    Tallied tracks
      (mp4WriteHeader (initMov tracks cache cacheKeyframe createTime playTimeLength geo)) where
  steady := steady_init tracks cache cacheKeyframe createTime playTimeLength geo
  stts := settled_init _ videoStts rfl rfl rfl
  samples := rfl
  few := Nat.two_pow_pos 32
  tracks := rfl

theorem tallied_run (hrec : Recordable tracks) (calls : List (Mp4Io × Packet))
    (hc : Tallied tracks c) (hcounts : GuardedCalls packetStep PacketCounts c calls) :
    (runCalls packetStep c calls).Ensures (Tallied tracks) :=
  runCalls_invariant _ (fun _ _ ht hcall => ht.step hrec hcall) calls c hc hcounts

def trailerMov (c : Mp4MuxContext) : Outcome MuxMOVContext MuxMOVContext :=
  let mov := writeLastPacket c.mov (c.mov.lastPts .video+33)
  if mov.playTimeLength ≠ 0 then setPlayTimeLength mov else .done mov

/-- The trak boxes are defined; with a fixed play time there is no audio track and more than
one video sample. -/
def MoovFits (mov : MuxMOVContext) : Prop :=
  trakDefined mov .video = true ∧ trakDefined mov .audio = true ∧
    (mov.playTimeLength = 0 ∨ (mov.tracks .audio).isNone = true ∧ 2 ≤ mov.totalNum videoStts)

instance (mov : MuxMOVContext) : Decidable (MoovFits mov) :=
  inferInstanceAs (Decidable (_ ∧ _ ∧ _))

variable {mov : MuxMOVContext}

theorem Steady.stsc_pages_le (h : Steady mov) (s : CodecType) :
    mov.tinyPages (.stsc, s)*tinyPageSize ≤ mov.totalNum (.stsc, s) := by
  have hother := h.stsc s.other
  rw [CodecType.other_other] at hother
  have hsize := hother.size
  -- the tables of the two tracks differ by at most one entry
  have hturn : mov.totalNum (.stsc, s.other) ≤ mov.totalNum (.stsc, s)+1 := by
    have ha := h.turn
    unfold Alternates at ha
    match hlast : mov.lastStreamIndex with
    | none =>
      rw [hlast] at ha
      rw [ha,ha]
      exact Nat.zero_le _
    | some last =>
      rw [hlast] at ha
      dsimp only at ha
      by_cases hs : last = s
      · rw [hs] at ha
        omega
      · rw [CodecType.other_of_ne hs] at ha
        have hback : s.other = last := CodecType.other_of_ne (Ne.symm hs)
        rw [hback]
        omega
  by_cases hpos : 0 < mov.tinyPages (.stsc, s)
  · have hrel := hother.relieved hpos
    have hcap : cacheCap .stsc = 4*tinyPageSize := rfl
    have hpage : 0 < tinyPageSize := by decide
    dsimp only at hrel
    omega
  · have hzero : mov.tinyPages (.stsc, s) = 0 := by omega
    rw [hzero,Nat.zero_mul]
    exact Nat.zero_le _

theorem writeLastPacket_total_le (hvideo : (mov.tracks .video).isSome = true) (pts : ℤ)
    (t : TableKey) :
    mov.totalNum t ≤ (writeLastPacket mov pts).totalNum t := by
  match hs : mov.lastStreamIndex with
  | none =>
    unfold writeLastPacket
    rw [hs]
  | some last =>
    obtain ⟨x,durations,heq⟩ := writeLastPacket_eq hvideo hs pts
    rw [heq]
    change _ ≤ Function.update mov.totalNum (.stsc, last) (mov.totalNum (.stsc, last)+1) t
    by_cases ht : t = (.stsc, last)
    · rw [ht,Function.update_self]
      exact Nat.le_succ _
    · rw [Function.update_of_ne ht]

theorem trailerMov_done (hvideo : (c.mov.tracks .video).isSome = true) (hfits : MoovFits c.mov) :
    ∃ mov, trailerMov c = .done mov ∧ mov.tracks = c.mov.tracks ∧
      mov.playTimeLength = c.mov.playTimeLength ∧ mov.tinyPages = c.mov.tinyPages ∧
      (∀ t, c.mov.totalNum t ≤ mov.totalNum t) ∧
      ∀ t : TableKey, t.1 ≠ .stsc → mov.totalNum t = c.mov.totalNum t := by
  let last := writeLastPacket c.mov (c.mov.lastPts .video+33)
  obtain ⟨htracks,hplay,htotal⟩ := writeLastPacket_frame hvideo (c.mov.lastPts .video+33)
  have hpages : last.tinyPages = c.mov.tinyPages := writeLastPacket_pages hvideo _
  have hle := writeLastPacket_total_le hvideo (c.mov.lastPts .video+33)
  unfold trailerMov
  by_cases hzero : c.mov.playTimeLength = 0
  · rw [if_neg (by rw [hplay,hzero]; simp)]
    exact ⟨last,rfl,htracks,hplay,hpages,hle,htotal⟩
  · obtain ⟨haudio,htwo⟩ := hfits.2.2.resolve_left hzero
    rw [if_pos (by rw [hplay]; exact hzero)]
    -- the fixed play time only changes the durations
    have hv : (last.tracks .video).isNone = false := by
      rw [htracks,← Option.not_isSome,hvideo]
      rfl
    have hstts : ¬ last.totalNum (.stts, .video) = 0 := by
      rw [htotal _ (by simp)]
      change 2 ≤ c.mov.totalNum (.stts, .video) at htwo
      omega
    have ha : (last.tracks .audio).isNone = true := by
      rw [htracks]
      exact haudio
    unfold setPlayTimeLength setTrackTime
    rw [if_neg (by rw [hv]; simp),if_neg hstts]
    change ∃ mov, (if (last.tracks .audio).isNone = true then _ else _) = _ ∧ _
    rw [if_pos ha]
    exact ⟨_,rfl,htracks,hplay,hpages,hle,htotal⟩

theorem mp4WriteTrailer_eq (hvideo : (c.mov.tracks .video).isSome = true)
    (hmov : trailerMov c = .done mov) {moov : MoovTag} (hmoov : fileWriteMoovTag mov = .done moov) :
    ∃ file, mp4WriteTrailer c = .done file ∧ file.moov = moov := by
  unfold mp4WriteTrailer
  rw [if_neg (by rw [Option.isNone_iff_eq_none,← Option.not_isSome_iff_eq_none]; simp [hvideo])]
  change ∃ file, ((trailerMov c).bind fileWriteMoovTag).bind _ = _ ∧ _
  rw [hmov]
  change ∃ file, (fileWriteMoovTag mov).bind _ = _ ∧ _
  rw [hmoov]
  exact ⟨_,rfl,rfl⟩

theorem length_videoDurations
    (hpages : mov.tinyPages videoStts*tinyPageSize ≤ mov.totalNum videoStts)
    (hpos : 0 < mov.totalNum videoStts) (hfew : mov.totalNum videoStts < 2^32)
    (hplay : mov.playTimeLength = 0 ∨ 2 ≤ mov.totalNum videoStts) :
    ((videoDurations mov).1 ++ [0]).length = mov.totalNum videoStts := by
  unfold videoDurations
  by_cases hzero : mov.playTimeLength = 0
  · have hwords := length_tableWords (t := videoStts) (dvd_refl tinyPageSize) hpages
    rw [if_neg (by simp [hzero])]
    rw [length_append,length_drop,hwords,length_singleton]
    omega
  · have hword : toWord ((mov.totalNum videoStts : ℤ)-1) = mov.totalNum videoStts-1 := by
      rw [← toWord_natCast (n := mov.totalNum videoStts-1) (by omega),Int.natCast_sub (by omega)]
      rfl
    rw [if_pos hzero]
    rw [hword]
    simp only [length_append,length_replicate,length_cons,length_nil]
    omega

theorem Tallied.trailer (ht : Tallied tracks c) (hrec : Recordable tracks)
    (hfits : MoovFits c.mov) :
    ∃ mov moov file, trailerMov c = .done mov ∧ fileWriteMoovTag mov = .done moov ∧
      mp4WriteTrailer c = .done file ∧ file.moov = moov ∧
      Written (moovBox mov moov.tables) (fileGetMoovTagSize mov) moov.bytes := by
  obtain ⟨trk,htrk,hcodec⟩ := hrec.video
  have hvideo : (c.mov.tracks .video).isSome = true := by rw [ht.tracks,htrk]; rfl
  obtain ⟨mov,hmov,htracks,hplay,hpages,hle,htotal⟩ := trailerMov_done hvideo hfits
  have hdefined : ∀ s, trakDefined mov s = trakDefined c.mov s :=
    fun s => trakDefined_congr htracks (htotal _ (by simp))
  have hmoov : (mov.tracks .video).isSome = true ∧ trakDefined mov .video = true ∧
      trakDefined mov .audio = true := by
    rw [htracks,hdefined,hdefined]
    exact ⟨hvideo,hfits.1,hfits.2.1⟩
  let mov1 := (trackTables mov .video).2
  have hframe : TrackFrame .video mov mov1 := trackTables_frame mov .video
  -- what holds of the counters in every state from the trailer on
  have hstco : ∀ s, mov.tinyPages (.stco, s)*tinyPageSize ≤ mov.totalNum (.stco, s) := by
    intro s
    have hsize := (ht.steady.stco s).size
    rw [hpages,htotal _ (by simp)]
    omega
  have hstsc : ∀ s, mov.tinyPages (.stsc, s)*tinyPageSize ≤ mov.totalNum (.stsc, s) := by
    intro s
    rw [hpages]
    exact (ht.steady.stsc_pages_le s).trans (hle _)
  have hstsz : ∀ s trk, mov.tracks s = some trk → trk.enc.codecId ≠ .pcm →
      mov.tinyPages (.stsz, s)*tinyPageSize ≤ mov.totalNum (.stsz, s) := by
    intro s trk htrk hpcm
    rw [htracks] at htrk
    have hsize := ((ht.steady.sizes s).counted (by
      intro trk' htrk'
      rw [htrk] at htrk'
      cases htrk'
      exact hpcm)).size
    rw [hpages,htotal _ (by simp)]
    omega
  have hstts : mov.totalNum (.stsz, .video) > 0 →
      ((videoDurations mov).1 ++ [0]).length = mov.totalNum videoStts := by
    intro hpos
    have hsize := ht.stts.size
    have heq : mov.totalNum videoStts = c.mov.totalNum videoStts := htotal _ (by simp)
    apply length_videoDurations
    · rw [hpages,heq]
      omega
    · rw [heq,ht.samples,← htotal (.stsz, .video) (by simp)]
      exact hpos
    · rw [heq]
      exact ht.few
    · rw [hplay,heq]
      exact hfits.2.2.imp id And.right
  have hvideoSized : ∀ trk, mov.tracks .video = some trk → mov.totalNum (.stsz, .video) > 0 →
      TablesSized mov trk .video :=
    fun trk htrk hpos => ⟨fun _ => hstts hpos, hstsc _,hstsz _ trk htrk,hstco _⟩
  have haudioSized : ∀ trk, mov.tracks .audio = some trk → mov.totalNum (.stsz, .audio) > 0 →
      TablesSized mov1 trk .audio := by
    intro trk htrk _
    refine ⟨nofun, ?_,?_,?_⟩
    all_goals rw [hframe.pages,hframe.total]
    · exact hstsc _
    · exact hstsz _ trk htrk
    · exact hstco _
  have hdone : ∃ moov, fileWriteMoovTag mov = .done moov ∧
      Written (moovBox mov moov.tables) (fileGetMoovTagSize mov) moov.bytes := by
    unfold fileWriteMoovTag
    rw [if_pos hmoov]
    exact ⟨_,rfl,moov_written hframe.context.toSameSetup hframe.total hvideoSized haudioSized
      rfl rfl⟩
  obtain ⟨moov,hwrite,hbox⟩ := hdone
  obtain ⟨file,hfile,hfmoov⟩ := mp4WriteTrailer_eq hvideo hmov hwrite
  exact ⟨mov,moov,file,hmov,hwrite,hfile,hfmoov,hbox⟩

end Run

/-- In every run of packets that can be counted, the trailer writes the boxes of the recording;
every size field is exact when the moov box has less than 4 GB. -/
theorem moov_box_sizes_exact {tracks : CodecType → Option MOVTrack} (hrec : Recordable tracks)
    (cache cacheKeyframe : ℕ → ℕ) (createTime playTimeLength : ℤ) (geo : Option (ℤ × ℤ))
    (calls : List (Mp4Io × Packet))
    (hcounts : GuardedCalls packetStep PacketCounts
      (mp4WriteHeader (initMov tracks cache cacheKeyframe createTime playTimeLength geo)) calls) :
    (runCalls packetStep
      (mp4WriteHeader (initMov tracks cache cacheKeyframe createTime playTimeLength geo))
        calls).Ensures fun c => MoovFits c.mov →
      ∃ mov moov file, trailerMov c = .done mov ∧ fileWriteMoovTag mov = .done moov ∧
        mp4WriteTrailer c = .done file ∧ file.moov = moov ∧
        moov.bytes = (moovBox mov moov.tables).encode ∧
        moov.bytes.length = fileGetMoovTagSize mov ∧
        (moov.bytes.length < 2^32 → (moovBox mov moov.tables).Exact) := by
  apply (tallied_run hrec calls
    (tallied_start tracks cache cacheKeyframe createTime playTimeLength geo) hcounts).imp
  intro c ht hfits
  obtain ⟨mov,moov,file,hmov,hmoov,hfile,hfmoov,hwritten⟩ := ht.trailer hrec hfits
  refine ⟨mov,moov,file,hmov,hmoov,hfile,hfmoov,hwritten.encode_eq.symm,hwritten.length_eq,?_⟩
  intro hlen
  apply Box.exact_of_length_lt
  rw [hwritten.encode_eq]
  exact hlen

theorem moov_box_sizes_exact_of_two :
    GuardedCalls packetStep PacketCounts (mp4WriteHeader plainMov) [videoAt 40,videoAt 80] ∧
      ∃ c, runCalls packetStep (mp4WriteHeader plainMov) [videoAt 40,videoAt 80] = .done c ∧
        MoovFits c.mov ∧ ∃ mov moov file, trailerMov c = .done mov ∧
          fileWriteMoovTag mov = .done moov ∧ mp4WriteTrailer c = .done file ∧ file.moov = moov ∧
          moov.bytes = (moovBox mov moov.tables).encode ∧
          moov.bytes.length = fileGetMoovTagSize mov ∧
          (moov.bytes.length < 2^32 → (moovBox mov moov.tables).Exact) :=
  have hcounts := by decide
  ⟨hcounts,_,rfl,by decide, moov_box_sizes_exact recordable_plain _ _ _ _ _ _ hcounts (by decide)⟩

def timedMov : MuxMOVContext :=
  initMov (fun
    | .video => some (plainTrack .mjpeg)
    | .audio => none) (fun _ => 0) (fun _ => 0) 0 1000 none

/-- One video packet with a fixed play time: the stts table gets two entries instead of one, and
the moov box has eight bytes more than its size field says. -/
theorem moov_size_short_for_one_timed_sample :
    ∃ c file, runCalls packetStep (mp4WriteHeader timedMov) [videoAt 40] = .done c ∧
      mp4WriteTrailer c = .done file ∧
      be32At file.moov.bytes 0+8 = file.moov.bytes.length := by
  refine ⟨_,_,rfl,rfl,?_⟩
  decide +kernel

end TinaPackage.Mp4
