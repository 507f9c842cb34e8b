import TinaPackage.BigEndian
import TinaPackage.CString
import TinaPackage.MachineInt
import TinaPackage.Outcome

/-! The playlist parser of `M3UParser.c`. Text is a list of characters, one for
each byte. The parser allocates freely: an allocation never fails here. -/
namespace TinaPackage.Hls

inductive Status where
  | malformed
  | maxNumAtomTooLittle
  | url
  deriving DecidableEq

/-- The two data models the libraries are built for. -/
inductive Abi where
  | ilp32
  | lp64
  deriving DecidableEq

inductive AtomName where
  | targetDuration
  | mediaSequence
  | durationUs
  | discontinuity
  | rangeOffset
  | rangeLength
  | cipherUri
  | cipherMethod
  | cipherIv
  | bandwidth
  | audio
  | video
  | subtitles
  deriving DecidableEq

inductive AtomValue where
  | int32 (v : ℤ)
  | int64 (v : ℤ)
  | string (s : List Char)
  deriving DecidableEq

structure Atom where
  mName : AtomName
  u : AtomValue
  deriving DecidableEq

def maxNumAtom : ℕ := 32

/-- A message never holds more atoms than its array has places. -/
structure AMessage where
  mAtom : List Atom
  fits : mAtom.length ≤ maxNumAtom

namespace AMessage

def empty : AMessage := ⟨[],Nat.zero_le _⟩

variable (m : AMessage)

def set (a : Atom) : Outcome Status AMessage :=
  if h : m.mAtom.length < maxNumAtom then
    .done ⟨m.mAtom ++ [a],by simpa [Nat.succ_le_iff] using h⟩
  else .failed .maxNumAtomTooLittle

def setInt32 (key : AtomName) (v : ℤ) : Outcome Status AMessage := m.set ⟨key,.int32 v⟩

def setInt64 (key : AtomName) (v : ℤ) : Outcome Status AMessage := m.set ⟨key,.int64 v⟩

def setString (key : AtomName) (s : List Char) : Outcome Status AMessage := m.set ⟨key,.string s⟩

def orElse : Outcome Status AMessage → AMessage
  | .done m' => m'
  | _ => m

variable (name : AtomName)

def find : Option AtomValue := (m.mAtom.find? (·.mName = name)).map Atom.u

def findInt32 : Option ℤ :=
  match m.find name with
  | some (.int32 v) => some v
  | _ => none

def findInt64 : Option ℤ :=
  match m.find name with
  | some (.int64 v) => some v
  | _ => none

def findString : Option (List Char) :=
  match m.find name with
  | some (.string s) => some s
  | _ => none

end AMessage

inductive MediaType where
  | audio
  | video
  | subs
  deriving DecidableEq

structure MediaItem where
  mName : List Char
  mURI : Option (List Char)
  mLanguage : Option (List Char)
  mFlags : ℕ
  deriving DecidableEq

structure MediaGroup where
  groupID : List Char
  mType : MediaType
  mMediaItems : List MediaItem
  deriving DecidableEq

/-- An item of a playlist. A pointer to an item is its position in `mItems`. The storage of
`durationUs` and `seqNum` is that of `bandwidth` and `bandwidthNum` in a master playlist. -/
structure PlaylistItem where
  mURI : Option (List Char)
  durationUs : ℤ
  seqNum : ℤ
  cipherReference : Option ℕ
  baseTimeUs : ℤ
  discontinue : ℤ
  itemMeta : AMessage

/-- The word of `mMediaGroups` shares its storage with a flag of the media playlist,
so the list of groups is lost (`none`) once that flag has been set. -/
structure Playlist where
  mBaseURI : List Char
  mIsVariantPlaylist : Bool
  mItems : List PlaylistItem
  mMeta : AMessage
  mIsComplete : Bool
  mIsEvent : Bool
  hasEncrypte : Bool
  mDurationUs : ℤ
  lastSeqNum : ℤ
  discontinueTimeshift : Bool
  mMediaGroups : Option (List MediaGroup)

namespace Playlist

-- with 32-bit pointers `mMediaGroups` lies over `mIsEvent`
def setIsEvent (abi : Abi) (p : Playlist) : Playlist :=
  { p with
    mIsEvent := true
    mMediaGroups := if abi = .ilp32 then none else p.mMediaGroups }

-- with 64-bit pointers it lies over `hasEncrypte`
def setHasEncrypte (abi : Abi) (p : Playlist) : Playlist :=
  { p with
    hasEncrypte := true
    mMediaGroups := if abi = .lp64 then none else p.mMediaGroups }

/-- Storing a group pointer, which is not zero, also sets the flag below it. -/
def setMediaGroups (abi : Abi) (groups : List MediaGroup) (p : Playlist) : Playlist :=
  { p with
    mMediaGroups := some groups
    mIsEvent := p.mIsEvent || abi = .ilp32
    hasEncrypte := p.hasEncrypte || abi = .lp64 }

end Playlist

def httpScheme : List Char := "http://".toList
def httpsScheme : List Char := "https://".toList
def fileScheme : List Char := "file://".toList

def hasScheme (scheme url : List Char) : Bool := strncaseeq scheme.length scheme url

def splitProtocol (url : List Char) : List Char × List Char :=
  match beforeFirst "//".toList url with
  | some s => (s ++ "//".toList, url.drop (s.length+2))
  | none => (url, [])

def makeURL (baseURL url : List Char) : Outcome Status (List Char) :=
  if !hasScheme httpScheme baseURL && !hasScheme httpsScheme baseURL &&
      !hasScheme fileScheme baseURL then
    .failed .url
  else if hasScheme httpScheme url || hasScheme httpsScheme url then
    .done url
  else
    let (proto, rest) := splitProtocol baseURL
    if url.head? = some '/' then
      -- an absolute path replaces everything behind the authority
      match beforeFirst ['/'] rest with
      | some authority => .done (proto ++ authority ++ url)
      | none => .done (baseURL ++ url)
    else match beforeFirst ".m3u8".toList rest with
      | some upToName =>
        match beforeLast '/' upToName with
        | some dir => .done (proto ++ dir ++ '/' :: url)
        | none => .done (baseURL ++ '/' :: url)
      | none =>
        if baseURL.getLast? = some '/' then .done (baseURL ++ url)
        else match beforeLast '/' rest with
          | some dir => .done (proto ++ dir ++ '/' :: url)
          | none => .done (baseURL ++ '/' :: url)

def valueOf (line : List Char) : Option (List Char) := afterFirst ':' (cstr line)

def parseNumber (line : List Char) : Option ℤ :=
  match (valueOf line).bind strtoll with
  | some (x, rest) => if rest = [] ∨ rest.head? = some ',' then some (x % 2^31) else none
  | none => none

def parseMetaData (line : List Char) (m : AMessage) (key : AtomName) : Outcome Status AMessage :=
  match parseNumber line with
  | some y => m.setInt32 key y
  | none => .failed .malformed

/-- The scan of a decimal number of seconds, which yields it in whole microseconds with the text
behind it. -/
abbrev Strtod := List Char → Option (ℤ × List Char)

variable (strtodUs : Strtod) (line : List Char)

def parseDuration : Option ℤ :=
  match (valueOf line).bind strtodUs with
  | some (us, rest) => if rest = [] ∨ rest.head? = some ',' then some us else none
  | none => none

def parseMetaDataDuration (m : AMessage) (key : AtomName) : Outcome Status AMessage :=
  match parseDuration strtodUs line with
  | some us => m.setInt64 key us
  | none => .failed .malformed

def endsOrSpace (rest : List Char) : Bool := rest.head?.all isspace

/-- The length and the offset of a byte range; `curOffset` is where the last one ended. -/
def parseByteRange (curOffset : ℕ) : Outcome Status (ℕ × ℕ) :=
  match valueOf line with
  | none => .failed .malformed
  | some value =>
    match afterFirst '@' value with
    | none =>
      match strtoull value with
      | none => .failed .malformed
      | some (length, rest) =>
        if endsOrSpace rest then .done (length, curOffset) else .failed .malformed
    | some at' =>
      match strtoull value with
      | none => .failed .malformed
      | some (length, rest) =>
        if rest.head? = some '@' || endsOrSpace rest then
          -- without a digit behind the `@` the conversion yields 0 and moves nothing
          let (offset, rest') := (strtoull at').getD (0, at')
          if endsOrSpace rest' then .done (length, offset) else .failed .malformed
        else .failed .malformed

/-- `M3uFindNextUnquoted`: the text before the first unquoted `what`, and the text behind it. -/
def findNextUnquoted (what : Char) : Bool → List Char → List Char × List Char
  | _, [] => ([], [])
  | quoted, c :: cs =>
    if c = what ∧ quoted = false then ([], cs)
    else
      let (before, behind) := findNextUnquoted what (if c = '\x22' then !quoted else quoted) cs
      (c :: before, behind)

/-- The comma-separated texts of an attribute list. Each round takes one character at least. -/
def attributeTexts : ℕ → List Char → List (List Char)
  | 0, _ => []
  | _, [] => []
  | fuel + 1, s =>
    let (before, behind) := findNextUnquoted ',' false s
    before :: attributeTexts fuel behind

def keyValue (text : List Char) : Option (List Char × List Char) :=
  let attr := trim (cstr text)
  (afterFirst '=' attr).map fun val =>
    ((trim (attr.takeWhile (· ≠ '='))).map Char.toLower, trim val)

def attributes (line : List Char) : Option (List (List Char × List Char)) :=
  if ':' ∈ cstr line then
    -- the list ends with the line, which may go on behind a `'\0'`
    let value := (line.dropWhile (· ≠ ':')).drop 1
    some ((attributeTexts value.length value).filterMap keyValue)
  else none

def unquote (val : List Char) : Option (List Char) :=
  if 2 ≤ val.length ∧ val.head? = some '\x22' ∧ val.getLast? = some '\x22' then
    some ((val.drop 1).dropLast)
  else none

def cipherAttribute (baseURI : List Char) (s : AMessage × Bool) (kv : List Char × List Char) :
    Outcome Status (AMessage × Bool) :=
  let (m, methodIsNone) := s
  let (key, val) := kv
  if key = "uri".toList then
    match unquote val with
    | none => .failed .malformed
    | some quoted => (makeURL baseURI (trim quoted)).bind fun value =>
        .done (m.orElse (m.setString .cipherUri value), methodIsNone)
  else if key = "method".toList then
    .done (m.orElse (m.setString .cipherMethod val), methodIsNone || strcaseeq val "NONE".toList)
  else if key = "iv".toList then
    .done (m.orElse (m.setString .cipherIv val), methodIsNone)
  else .done s

def parseCipherInfo (line : List Char) (m : AMessage) (baseURI : List Char) :
    Outcome Status (AMessage × Bool) :=
  match attributes line with
  | none => .failed .malformed
  | some attrs => runCalls (cipherAttribute baseURI) (m, false) attrs

structure MediaAttributes where
  groupType : Option MediaType
  groupID : Option (List Char)
  groupLanguage : Option (List Char)
  groupName : Option (List Char)
  groupAutoselect : Option Bool
  groupDefault : Option Bool
  groupForced : Option Bool
  groupURI : Option (List Char)

def noMediaAttributes : MediaAttributes := ⟨none,none,none,none,none,none,none,none⟩

def mediaTypeOf (val : List Char) : Option MediaType :=
  if strcaseeq "subtitles".toList val then some .subs
  else if strcaseeq "audio".toList val then some .audio
  else if strcaseeq "video".toList val then some .video
  else none

def yesOrNo (val : List Char) : Option Bool :=
  if strcaseeq "YES".toList val then some true
  else if strcaseeq "NO".toList val then some false
  else none

def required {α : Type} (v : Option α) : Outcome (Option Status) α :=
  match v with
  | some a => .done a
  | none => .failed (some .malformed)

-- a group type that is not known ends the line without an error, `failed none`
def mediaAttribute (baseURI : List Char) (s : MediaAttributes) (kv : List Char × List Char) :
    Outcome (Option Status) MediaAttributes :=
  let (key, val) := kv
  if key = "type".toList then
    match mediaTypeOf val with
    | some t => .done { s with groupType := some t }
    | none => .failed none
  else if key = "group-id".toList then
    (required (unquote val)).bind fun v => .done { s with groupID := some v }
  else if key = "language".toList then
    (required (unquote val)).bind fun v => .done { s with groupLanguage := some v }
  else if key = "name".toList then
    (required (unquote val)).bind fun v => .done { s with groupName := some v }
  else if key = "autoselect".toList then
    (required (yesOrNo val)).bind fun v => .done { s with groupAutoselect := some v }
  else if key = "default".toList then
    (required (yesOrNo val)).bind fun v => .done { s with groupDefault := some v }
  else if key = "forced".toList then
    (required (yesOrNo val)).bind fun v => .done { s with groupForced := some v }
  else if key = "uri".toList then
    (required (unquote val)).bind fun v =>
      ((makeURL baseURI (trim v)).mapFailed some).bind fun url =>
        .done { s with groupURI := some url }
  else .done s

def mediaFlags (s : MediaAttributes) : ℕ :=
  (if s.groupAutoselect = some true then 1 else 0)+(if s.groupDefault = some true then 2 else 0) +
  (if s.groupForced = some true then 4 else 0)+(if s.groupLanguage.isSome then 8 else 0) +
  (if s.groupURI.isSome then 16 else 0)

def addMediaItem (groupID : List Char) (groupType : MediaType) (item : MediaItem)
    (groups : List MediaGroup) : Outcome (Option Status) (List MediaGroup) :=
  match groups with
  | [] => .done [⟨groupID,groupType,[item]⟩]
  | g :: gs =>
    if g.groupID = groupID then
      if g.mType ≠ groupType then .failed (some .malformed)
      else .done ({ g with mMediaItems := g.mMediaItems ++ [item] } :: gs)
    else (addMediaItem groupID groupType item gs).bind fun gs' => .done (g :: gs')

def finishMedia (abi : Abi) (p : Playlist) (s : MediaAttributes) :
    Outcome (Option Status) Playlist :=
  match s.groupType, s.groupID, s.groupName with
  | some groupType, some groupID, some groupName =>
    if s.groupForced.isSome ∧ groupType ≠ .subs then .failed (some .malformed)
    else
      match p.mMediaGroups with
      | none => .undefined
      | some groups =>
        (addMediaItem groupID groupType ⟨groupName,s.groupURI,s.groupLanguage,mediaFlags s⟩
          groups).bind fun groups' => .done (p.setMediaGroups abi groups')
  | _, _, _ => .failed (some .malformed)

variable (abi : Abi) (line : List Char) (p : Playlist)

def parseMedia : Outcome Status Playlist :=
  match attributes line with
  | none => .failed .malformed
  | some attrs =>
    match (runCalls (mediaAttribute p.mBaseURI) noMediaAttributes attrs).bind
      (finishMedia abi p) with
    | .done p' => .done p'
    | .failed none => .done p
    | .failed (some e) => .failed e
    | .undefined => .undefined

def groupAttribute (key : List Char) : Option AtomName :=
  if key = "audio".toList then some .audio
  else if key = "video".toList then some .video
  else if key = "subtitles".toList then some .subtitles
  else none

def streamAttribute (m : AMessage) (kv : List Char × List Char) : Outcome Status AMessage :=
  let (key, val) := kv
  if key = "bandwidth".toList then
    match strtoull val with
    | some (x, []) => m.setInt64 .bandwidth (int64 x)
    | _ => .done m
  else match groupAttribute key with
    | none => .done m
    | some name =>
      match unquote val with
      | none => .failed .malformed
      | some groupID =>
        match p.mMediaGroups with
        | none => .undefined
        | some groups =>
          if groups.any (·.groupID = groupID) then .done (m.orElse (m.setString name groupID))
          else .failed .malformed

def parseStreamInf (m : AMessage) (p : Playlist) : Outcome Status AMessage :=
  match attributes line with
  | none => .failed .malformed
  | some attrs => runCalls (streamAttribute p) m attrs

def splitLines : ℕ → List Char → List (List Char)
  | 0, _ => []
  | fuel + 1, data =>
    let rest := data.dropWhile isspace
    if rest = [] then []
    else trimEnd (rest.takeWhile (· ≠ '\n')) :: splitLines fuel ((rest.dropWhile (· ≠ '\n')).drop 1)

def linesOf (data : List Char) : List (List Char) := splitLines data.length data

inductive Tag where
  | targetDuration
  | mediaSequence
  | key
  | endlist
  | event
  | extinf
  | discontinuity
  | streamInf
  | byteRange
  | media
  | comment
  | uri
  deriving DecidableEq

def startsWith (tag : String) : Bool := tag.toList.isPrefixOf line

-- the tags are told apart by their beginnings, tried in this order
def tagOf : Tag :=
  if startsWith line "#EXT-X-TARGETDURATION" then .targetDuration
  else if startsWith line "#EXT-X-MEDIA-SEQUENCE" then .mediaSequence
  else if startsWith line "#EXT-X-KEY" then .key
  else if startsWith line "#EXT-X-ENDLIST" then .endlist
  else if startsWith line "#EXT-X-PLAYLIST-TYPE:EVENT" then .event
  else if startsWith line "#EXTINF" then .extinf
  else if startsWith line "#EXT-X-DISCONTINUITY" then .discontinuity
  else if startsWith line "#EXT-X-STREAM-INF" then .streamInf
  else if startsWith line "#EXT-X-BYTERANGE" then .byteRange
  else if startsWith line "#EXT-X-MEDIA" then .media
  else if startsWith line "#" then .comment
  else .uri

/-- The locals of `M3u8Parse` between two lines. `kind` is its `mIsVariantPlaylist`,
unknown (-1) until a tag decides it. -/
structure ParseState where
  segmentRangeOffset : ℕ
  hasEncrypteInf : Bool
  itemMeta : AMessage
  seqNum : ℤ
  cipherReference : Option ℕ
  kind : Option Bool
  playList : Playlist

def initialPlaylist (baseURI : List Char) : Playlist :=
  { mBaseURI := baseURI
    mIsVariantPlaylist := false
    mItems := []
    mMeta := .empty
    mIsComplete := false
    mIsEvent := false
    hasEncrypte := false
    mDurationUs := 0
    lastSeqNum := 0
    discontinueTimeshift := false
    mMediaGroups := some [] }

def initialState (baseURI : List Char) : ParseState :=
  { segmentRangeOffset := 0
    hasEncrypteInf := false
    itemMeta := .empty
    seqNum := 0
    cipherReference := none
    kind := none
    playList := initialPlaylist baseURI }

variable (st : ParseState)

def referenceOf : Option ℕ :=
  if st.playList.hasEncrypte then
    if st.hasEncrypteInf then some st.playList.mItems.length else st.cipherReference
  else none

variable (line : List Char)

def newItem (durationUs : ℤ) : PlaylistItem :=
  let bandwidth := (st.itemMeta.findInt64 .bandwidth).filter (0 < ·)
  let timed := 0 ≤ durationUs
  { mURI := (makeURL st.playList.mBaseURI (cstr line)).toOption
    durationUs := bandwidth.getD (if timed then durationUs else 0)
    seqNum := if timed ∨ bandwidth.isSome then st.seqNum else 0
    cipherReference := if timed then referenceOf st else none
    baseTimeUs := if timed then st.playList.mDurationUs else 0
    discontinue := (st.itemMeta.findInt32 .discontinuity).getD 0
    itemMeta := st.itemMeta }

/-- The counters of the playlist move only for an item whose duration is not negative. -/
def addItem (durationUs : ℤ) : ParseState :=
  let p := st.playList
  let timed := 0 ≤ durationUs
  { st with
    hasEncrypteInf := if timed then false else st.hasEncrypteInf
    cipherReference :=
      if timed ∧ p.hasEncrypte ∧ st.hasEncrypteInf then some p.mItems.length
      else st.cipherReference
    itemMeta := .empty
    seqNum := int32 (st.seqNum+1)
    playList := { p with
      mItems := p.mItems ++ [newItem st line durationUs]
      mDurationUs := if timed then int64 (p.mDurationUs+durationUs) else p.mDurationUs
      lastSeqNum := if timed then st.seqNum else p.lastSeqNum } }

def parseUri : ParseState :=
  if st.playList.mIsVariantPlaylist then addItem st line 0
  else match st.itemMeta.findInt64 .durationUs with
    | some durationUs => addItem st line durationUs
    | none => st

def inMedia (next : Outcome Status ParseState) : Outcome Status ParseState :=
  if st.playList.mIsVariantPlaylist then .failed .malformed else next

def parseLine (abi : Abi) (strtodUs : Strtod) (st : ParseState)
    (line : List Char) : Outcome Status ParseState :=
  let p := st.playList
  match tagOf line with
  | .targetDuration =>
    inMedia st ((parseMetaData line p.mMeta .targetDuration).bind fun m =>
      .done { st with kind := some false, playList := { p with mMeta := m } })
  | .mediaSequence =>
    inMedia st ((parseMetaData line p.mMeta .mediaSequence).bind fun m =>
      .done { st with
        kind := some false
        seqNum := (m.findInt32 .mediaSequence).getD st.seqNum
        playList := { p with mMeta := m } })
  | .key =>
    inMedia st ((parseCipherInfo line st.itemMeta p.mBaseURI).bind fun (m, methodIsNone) =>
      .done (if methodIsNone then { st with itemMeta := m }
        else { st with
          itemMeta := m
          hasEncrypteInf := true
          playList := p.setHasEncrypte abi }))
  | .endlist => .done { st with playList := { p with mIsComplete := true } }
  | .event => inMedia st (.done { st with playList := p.setIsEvent abi })
  | .extinf =>
    inMedia st ((parseMetaDataDuration strtodUs line st.itemMeta .durationUs).bind fun m =>
      .done { st with kind := some false, itemMeta := m })
  | .discontinuity =>
    inMedia st (.done { st with
      itemMeta := st.itemMeta.orElse (st.itemMeta.setInt32 .discontinuity 1)
      playList := { p with discontinueTimeshift := true } })
  | .streamInf =>
    if st.kind = some false then .failed .malformed
    else
      let p' := { p with mIsVariantPlaylist := true }
      (parseStreamInf line st.itemMeta p').bind fun m =>
        .done { st with kind := some true, itemMeta := m, playList := p' }
  | .byteRange =>
    inMedia st ((parseByteRange line st.segmentRangeOffset).bind fun (length, offset) =>
      (st.itemMeta.setInt64 .rangeOffset (int64 offset)).bind fun m =>
        (m.setInt64 .rangeLength (int64 length)).bind fun m' =>
          .done { st with
            itemMeta := m'
            segmentRangeOffset := (offset+length) % 2^64 })
  | .media => (parseMedia abi line p).bind fun p' => .done { st with playList := p' }
  | .comment => .done st
  | .uri => .done (parseUri st line)

def isHeader : Bool := cstr line = "#EXTM3U".toList

/-- A playlist begins with its header line; it must have an item and be of a known kind. -/
def m3u8Parse (abi : Abi) (strtodUs : Strtod) (data : List Char)
    (baseURI : List Char) : Outcome Status Playlist :=
  match linesOf data with
  | [] => .failed .malformed
  | header :: body =>
    if !isHeader header then .failed .malformed
    else (runCalls (parseLine abi strtodUs) (initialState baseURI) body).bind fun st =>
      if st.kind = none then .failed .malformed
      else if st.playList.mItems = [] then .failed .malformed
      else .done st.playList

/-! ### Segment sources

`SetDataSourceForSegment` of `CdxHlsParser.c`. -/

structure CipherState where
  cipherReference : Option ℕ
  ivIsAppointed : Bool
  key : List UInt8
  iv : List UInt8
  curSeqNum : ℤ

structure DataSource where
  uri : List Char
  cipher : Option (List UInt8 × List UInt8)
  range : Option (ℤ × ℤ)

def hexValue (c : Char) : Option ℕ :=
  let c := c.toLower
  if c.isDigit then some (digitValue c)
  else if 'a' ≤ c ∧ c ≤ 'f' then some (c.toNat - 'a'.toNat+10)
  else none

def hexBytes : List Char → List UInt8
  | c :: d :: cs =>
    match hexValue c, hexValue d with
    | some x, some y => UInt8.ofNat (16*x+y) :: hexBytes cs
    | _, _ => []
  | _ => []

def zeros (n : ℕ) : List UInt8 := List.replicate n 0

def sequenceIv (curSeqNum : ℤ) : List UInt8 := zeros 12 ++ be32 (curSeqNum % 2^32).toNat

/-- The IV of an item that names its own; the number is the status of the call. -/
def appointIv (cipherIv : List Char) (h : CipherState) : Outcome (CipherState × ℤ) CipherState :=
  if (startsWith cipherIv "0x" || startsWith cipherIv "0X") && cipherIv.length = 34 then
    let bytes := hexBytes (cipherIv.drop 2)
    let h' := { h with ivIsAppointed := true, iv := bytes ++ zeros (16-bytes.length) }
    if bytes.length = 16 then .done h' else .failed (h', -1)
  else .failed ({ h with ivIsAppointed := true }, -1)

variable (fetchKey : List Char → Option (List UInt8))

/-- Fetch the key a new reference names. `fetchKey` is what one read of a key resource yields,
`none` if it cannot be opened. -/
def changeCipher (m : AMessage) (h : CipherState) : Outcome (CipherState × ℤ) CipherState :=
  match m.findString .cipherMethod with
  | none => .failed (h, -1)
  | some method =>
    if strcaseeq method "AES-128".toList then
      match m.findString .cipherUri with
      | none => .failed (h, -1)
      | some uri =>
        match fetchKey uri with
        | none => .failed (h, -1)
        | some bytes =>
          let h' := { h with key := bytes.take 16 ++ h.key.drop bytes.length }
          if bytes.length ≠ 16 then .failed (h', -1)
          else match m.findString .cipherIv with
            | some cipherIv => appointIv cipherIv h'
            | none => .done { h' with iv := sequenceIv h.curSeqNum }
    else .failed (h, -1)

def selectCipher (p : Playlist) (ref : ℕ) (h : CipherState) :
    Outcome (CipherState × ℤ) CipherState :=
  if h.cipherReference = some ref then
    .done (if h.ivIsAppointed then h else { h with iv := sequenceIv h.curSeqNum })
  else match p.mItems[ref]? with
    | none => .undefined
    | some carrier => (changeCipher fetchKey carrier.itemMeta h).bind fun h' =>
        .done { h' with cipherReference := some ref }

def rangeOf (item : PlaylistItem) : Option (ℤ × ℤ) :=
  match item.itemMeta.findInt64 .rangeOffset, item.itemMeta.findInt64 .rangeLength with
  | some offset, some length => some (offset, int64 (offset+length-1))
  | _, _ => none

def setDataSourceForSegment (p : Playlist) (item : PlaylistItem) (h : CipherState) :
    Outcome (CipherState × ℤ) (CipherState × DataSource) :=
  if p.hasEncrypte then
    match item.cipherReference with
    | none => .failed (h, -2)
    | some ref => (selectCipher fetchKey p ref h).bind fun h' =>
      match item.mURI with
      | none => .undefined
      | some uri => .done (h', ⟨"aes://".toList ++ uri,some (h'.key, h'.iv),rangeOf item⟩)
  else
    match item.mURI with
    | none => .undefined
    | some uri => .done (h, ⟨uri,none,rangeOf item⟩)

end TinaPackage.Hls
