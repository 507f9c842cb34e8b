import TinaPackage.HlsTimeline

/-! The scope of `#EXT-X-KEY` lines: which item a segment's cipher attributes are
taken from, and when that is the item of the key line in force. -/
namespace TinaPackage.Hls
open List

variable {abi : Abi} {strtodUs : Strtod} {baseURI : List Char}

def lastKey (past : List Line) : Option (List Line × Line) :=
  match past.reverse.dropWhile (tagOf · ≠ .key) with
  | [] => none
  | l :: earlier => some (earlier.reverse, l)

def encrypts (past : List Line) : Bool := past.any fun l => tagOf l = .key && !keyIsNone l

def declared (past : List Line) : Bool :=
  match lastKey past with
  | some (_, l) => !keyIsNone l
  | none => false

/-- The segment that the key line in force stands before, if there is such a line. -/
def declaredReference (strtodUs : Strtod) (past : List Line) :
    Option ℕ :=
  match lastKey past with
  | some (before, l) => if keyIsNone l then none else some (segments strtodUs before).length
  | none => none

variable {past before : List Line} {l : Line} {m : AMessage} {st' : ParseState}
  {fetchKey : List Char → Option (List UInt8)}

theorem lastKey_append_of_ne (h : tagOf l ≠ .key) : lastKey (past ++ [l]) = lastKey past := by
  unfold lastKey
  rw [reverse_append,reverse_singleton,singleton_append,dropWhile_cons_of_pos (by simpa using h)]

theorem lastKey_append_of_eq (h : tagOf l = .key) : lastKey (past ++ [l]) = some (past, l) := by
  unfold lastKey
  rw [reverse_append,reverse_singleton,singleton_append,dropWhile_cons_of_neg (by simpa using h)]
  simp

theorem encrypts_append (past : List Line) (l : Line) :
    encrypts (past ++ [l]) = (encrypts past || (tagOf l = .key && !keyIsNone l)) := by
  simp [encrypts]

theorem encrypts_of_lastKey (h : lastKey past = some (before, l)) (hl : keyIsNone l = false) :
    encrypts past = true := by
  induction past using reverseRecOn with
  | nil => simp [lastKey] at h
  | append_singleton past l' ih =>
    rw [encrypts_append]
    by_cases htag : tagOf l' = .key
    · rw [lastKey_append_of_eq htag] at h
      cases h
      simp [htag,hl]
    · rw [lastKey_append_of_ne htag] at h
      simp [ih h]

/-- The places a line takes in the metadata of the next item; only cipher attributes matter. -/
def slots (baseURI : List Char) (l : Line) : List (Option Atom) :=
  match tagOf l with
  | .key => (keyAtoms baseURI l).map some
  | .extinf => [none]
  | .discontinuity => [none]
  | .byteRange => [none,none]
  | _ => []

def blockSlots (baseURI : List Char) (block : List Line) : List (Option Atom) :=
  (block.flatMap (slots baseURI)).take maxNumAtom

def cipherNames : List AtomName := [.cipherUri,.cipherMethod,.cipherIv]

def cipherView (a : Atom) : Option Atom := if a.mName ∈ cipherNames then some a else none

def slotFind (name : AtomName) (places : List (Option Atom)) : Option AtomValue :=
  places.findSome? fun place => place.bind fun a => if a.mName = name then some a.u else none

def keyAttribute (baseURI : List Char) (l : Line) (name : AtomName) : Option AtomValue :=
  slotFind name ((keyAtoms baseURI l).map some)

variable {name : AtomName}

theorem find_eq_slotFind (m : AMessage) (hname : name ∈ cipherNames) :
    m.find name = slotFind name (m.mAtom.map cipherView) := by
  unfold AMessage.find slotFind
  induction m.mAtom with
  | nil => rfl
  | cons a as ih =>
    rw [find?_cons,map_cons,findSome?_cons]
    by_cases h : a.mName = name
    · simp [h,cipherView,hname]
    · have hview : ((cipherView a).bind fun a => if a.mName = name then some a.u else none) =
          none := by
        unfold cipherView
        split <;> simp [h]
      simp only [h,decide_false,hview]
      exact ih

theorem map_cipherView_keyAtoms (l : Line) :
    (keyAtoms baseURI l).map cipherView = (keyAtoms baseURI l).map some := by
  apply map_congr_left
  intro a ha
  unfold cipherView cipherNames
  rw [if_pos (mName_mem_of_mem_keyAtoms ha)]

def Places (strtodUs : Strtod) (baseURI : List Char)
    (past : List Line) (m : AMessage) : Prop :=
  m.mAtom.map cipherView = blockSlots baseURI (blockOf strtodUs past)

theorem map_cipherView_lineAtoms (offset : ℕ) (l : Line) :
    (lineAtoms strtodUs baseURI offset l).map cipherView = slots baseURI l := by
  unfold lineAtoms slots
  split <;> simp [*,cipherView,cipherNames,map_cipherView_keyAtoms]

/-- A segment for which the parser follows the declarations: behind `METHOD=NONE` no key with a
method came before; otherwise neither the segment nor the one behind the key line has a negative
duration. -/
def ReferenceInScope (strtodUs : Strtod) (s : Segment) : Prop :=
  match lastKey s.before with
  | none => True
  | some (before, l) =>
    if keyIsNone l then s.durationUs < 0 ∨ encrypts s.before = false
    else 0 ≤ s.durationUs ∧
      ∀ c, (segments strtodUs s.before ++ [s])[(segments strtodUs before).length]? = some c →
        0 ≤ c.durationUs

structure KeyItem (strtodUs : Strtod) (baseURI : List Char)
    (item : PlaylistItem) (s : Segment) : Prop where
  reference : item.cipherReference = declaredReference strtodUs s.before ↔
    ReferenceInScope strtodUs s
  places : Places strtodUs baseURI s.before item.itemMeta

structure KeyState (strtodUs : Strtod) (baseURI : List Char)
    (past : List Line) (st : ParseState) : Prop where
  off : encrypts past = false → st.hasEncrypteInf = false ∧ st.cipherReference = none
  on : encrypts past = true → st.playList.hasEncrypte = true ∧
    (st.hasEncrypteInf = true ∨ st.cipherReference ≠ none)
  waiting : ∀ before l, lastKey past = some (before, l) → keyIsNone l = false →
    (segments strtodUs past).length = (segments strtodUs before).length → st.hasEncrypteInf = true
  current : ∀ before l c, lastKey past = some (before, l) → keyIsNone l = false →
    (segments strtodUs past)[(segments strtodUs before).length]? = some c → 0 ≤ c.durationUs →
      st.hasEncrypteInf = false ∧ st.cipherReference = some (segments strtodUs before).length
  carrier : ∀ j, st.cipherReference = some j →
    ∃ c, (segments strtodUs past)[j]? = some c ∧ 0 ≤ c.durationUs
  places : Places strtodUs baseURI past st.itemMeta
  items : List.Forall₂ (KeyItem strtodUs baseURI) st.playList.mItems (segments strtodUs past)

variable (strtodUs) in
theorem segments_length_le_of_lastKey (h : lastKey past = some (before, l)) :
    (segments strtodUs before).length ≤ (segments strtodUs past).length := by
  induction past using reverseRecOn with
  | nil => simp [lastKey] at h
  | append_singleton past l' ih =>
    have hgrow : (segments strtodUs past).length ≤ (segments strtodUs (past ++ [l'])).length := by
      rcases segment_or_not strtodUs past l' with ⟨d,htag,hd⟩ | hnone
      · rw [(scan_append_of_some htag hd).2,length_append]
        omega
      · exact Nat.le_of_eq (congrArg length (scan_append_of_none hnone).2.symm)
    by_cases htag : tagOf l' = .key
    · rw [lastKey_append_of_eq htag] at h
      cases h
      exact hgrow
    · rw [lastKey_append_of_ne htag] at h
      exact Nat.le_trans (ih h) hgrow

theorem encrypts_of_lastKey_eq_none (h : lastKey past = none) : encrypts past = false := by
  induction past using reverseRecOn with
  | nil => rfl
  | append_singleton past l ih =>
    by_cases htag : tagOf l = .key
    · rw [lastKey_append_of_eq htag] at h
      cases h
    · rw [lastKey_append_of_ne htag] at h
      rw [encrypts_append,ih h]
      simp [htag]

section
variable {st : ParseState} (h : KeyState strtodUs baseURI past st)
include h

theorem KeyState.referenceOf_of_encrypts (he : encrypts past = true) : referenceOf st =
      if st.hasEncrypteInf then some (segments strtodUs past).length else st.cipherReference := by
  unfold referenceOf
  rw [if_pos (h.on he).1,h.items.length_eq]

theorem KeyState.referenceOf_of_not_encrypts (he : encrypts past = false) :
    referenceOf st = none := by
  obtain ⟨hinf,href⟩ := h.off he
  unfold referenceOf
  rw [hinf,href]
  simp

theorem KeyState.referenceOf_eq_some_iff (hlast : lastKey past = some (before, l))
    (hl : keyIsNone l = false) :
    referenceOf st = some (segments strtodUs before).length ↔
      ∀ c, (segments strtodUs past)[(segments strtodUs before).length]? = some c →
        0 ≤ c.durationUs := by
  rw [h.referenceOf_of_encrypts (encrypts_of_lastKey hlast hl)]
  have hle := segments_length_le_of_lastKey strtodUs hlast
  rcases Nat.eq_or_lt_of_le hle with heq | hlt
  · -- no segment since the key line: the next item takes it
    rw [if_pos (h.waiting before l hlast hl heq.symm),heq]
    simp
  · obtain ⟨c,hc⟩ : ∃ c, (segments strtodUs past)[(segments strtodUs before).length]? = some c :=
      ⟨_,getElem?_eq_getElem hlt⟩
    constructor
    · intro href c' hc'
      split at href
      · have := Option.some.inj href
        omega
      · obtain ⟨c'',hc'',h0⟩ := h.carrier _ href
        rw [hc'] at hc''
        cases hc''
        exact h0
    · intro hall
      obtain ⟨hinf,href⟩ := h.current before l c hlast hl hc (hall c hc)
      rw [hinf,href]
      simp

variable {d : ℤ}

theorem KeyState.reference_eq_none_iff :
    (if 0 ≤ d then referenceOf st else none) = none ↔ d < 0 ∨ encrypts past = false := by
  by_cases h0 : 0 ≤ d
  · rw [if_pos h0]
    cases he : encrypts past with
    | false => simp [h.referenceOf_of_not_encrypts he]
    | true =>
      rw [h.referenceOf_of_encrypts he]
      constructor
      · intro hnone
        rcases (h.on he).2 with hinf | href
        · simp [hinf] at hnone
        · split at hnone
          · cases hnone
          · exact absurd hnone href
      · rintro (hneg | hfalse)
        · omega
        · cases hfalse
  · rw [if_neg h0]
    exact ⟨fun _ => .inl (by omega),fun _ => rfl⟩

theorem KeyState.reference_eq_some_iff {k : Line} (hlast : lastKey past = some (before, k))
    (hk : keyIsNone k = false) :
    (if 0 ≤ d then referenceOf st else none) = some (segments strtodUs before).length ↔
      0 ≤ d ∧ ∀ c, (segments strtodUs past ++ [⟨past,l,d⟩])[
        (segments strtodUs before).length]? = some c → 0 ≤ c.durationUs := by
  by_cases h0 : 0 ≤ d
  · rw [if_pos h0,h.referenceOf_eq_some_iff hlast hk]
    have hle := segments_length_le_of_lastKey strtodUs hlast
    constructor
    · intro hall
      refine ⟨h0,fun c hc => ?_⟩
      rcases Nat.eq_or_lt_of_le hle with heq | hlt
      · rw [heq,getElem?_append_right (Nat.le_refl _),Nat.sub_self] at hc
        cases hc
        exact h0
      · rw [getElem?_append_left hlt] at hc
        exact hall c hc
    · rintro ⟨-,hall⟩ c hc
      apply hall c
      rw [getElem?_append_left (List.getElem?_eq_some_iff.mp hc).1]
      exact hc
  · simp [h0]

theorem KeyState.newItem_reference (l : Line) (d : ℤ) :
    (newItem st l d).cipherReference = declaredReference strtodUs past ↔
      ReferenceInScope strtodUs ⟨past,l,d⟩ := by
  have href : (newItem st l d).cipherReference = if 0 ≤ d then referenceOf st else none := rfl
  rw [href]
  unfold declaredReference ReferenceInScope
  cases hlast : lastKey past with
  | none => simp [h.referenceOf_of_not_encrypts (encrypts_of_lastKey_eq_none hlast)]
  | some key =>
    obtain ⟨before,k⟩ := key
    cases hk : keyIsNone k with
    | true =>
      simp only [hk,if_true]
      exact h.reference_eq_none_iff
    | false =>
      simp only [hk,Bool.false_eq_true,if_false]
      exact h.reference_eq_some_iff hlast hk

theorem KeyState.of_same (hkey : tagOf l ≠ .key)
    (hsegs : segments strtodUs (past ++ [l]) = segments strtodUs past)
    (hinf : st'.hasEncrypteInf = st.hasEncrypteInf)
    (href : st'.cipherReference = st.cipherReference)
    (henc : st.playList.hasEncrypte = true → st'.playList.hasEncrypte = true)
    (hitems : st'.playList.mItems = st.playList.mItems)
    (hplaces : Places strtodUs baseURI (past ++ [l]) st'.itemMeta) :
    KeyState strtodUs baseURI (past ++ [l]) st' := by
  have hencrypts : encrypts (past ++ [l]) = encrypts past := by
    rw [encrypts_append]
    simp [hkey]
  constructor
  · rw [hencrypts,hinf,href]
    exact h.off
  · rw [hencrypts,hinf,href]
    exact fun he => ⟨henc (h.on he).1,(h.on he).2⟩
  · rw [lastKey_append_of_ne hkey,hsegs,hinf]
    exact h.waiting
  · rw [lastKey_append_of_ne hkey,hsegs,hinf,href]
    exact h.current
  · rw [href,hsegs]
    exact h.carrier
  · exact hplaces
  · rw [hitems,hsegs]
    exact h.items

theorem KeyState.noKey (tag : tagOf l = .key) (hnone : keyIsNone l = true)
    (hplaces : Places strtodUs baseURI (past ++ [l]) m) :
    KeyState strtodUs baseURI (past ++ [l]) { st with itemMeta := m } := by
  have hsegs : segments strtodUs (past ++ [l]) = segments strtodUs past :=
    (scan_append_of_none fun htag => by simp [tag] at htag).2
  have hencrypts : encrypts (past ++ [l]) = encrypts past := by
    rw [encrypts_append]
    simp [hnone]
  constructor
  · rw [hencrypts]
    exact h.off
  · rw [hencrypts]
    exact h.on
  · rw [lastKey_append_of_eq tag]
    intro before k hlast hk
    cases hlast
    simp [hnone] at hk
  · rw [lastKey_append_of_eq tag]
    intro before k c hlast hk
    cases hlast
    simp [hnone] at hk
  · rw [hsegs]
    exact h.carrier
  · exact hplaces
  · rw [hsegs]
    exact h.items

theorem KeyState.key (tag : tagOf l = .key) (hsome : keyIsNone l = false)
    (hplaces : Places strtodUs baseURI (past ++ [l]) m) :
    KeyState strtodUs baseURI (past ++ [l]) { st with
        itemMeta := m
        hasEncrypteInf := true
        playList := st.playList.setHasEncrypte abi } := by
  have hsegs : segments strtodUs (past ++ [l]) = segments strtodUs past :=
    (scan_append_of_none fun htag => by simp [tag] at htag).2
  have hencrypts : encrypts (past ++ [l]) = true := by
    rw [encrypts_append]
    simp [tag,hsome]
  constructor
  · rw [hencrypts]
    intro hfalse
    cases hfalse
  · intro _
    exact ⟨rfl,.inl rfl⟩
  · intro _ _ _ _ _
    rfl
  · rw [lastKey_append_of_eq tag,hsegs]
    intro before k c hlast _ hc
    cases hlast
    simp at hc
  · rw [hsegs]
    exact h.carrier
  · exact hplaces
  · rw [hsegs]
    exact h.items

end

variable {st : ParseState}

theorem KeyState.addItem {past : List Line} {l : Line} {d : ℤ}
    (h : KeyState strtodUs baseURI past st) (tag : tagOf l = .uri)
    (hd : durationIn strtodUs (blockOf strtodUs past) = some d)
    (hplaces : Places strtodUs baseURI (past ++ [l]) (addItem st l d).itemMeta) :
    KeyState strtodUs baseURI (past ++ [l]) (addItem st l d) := by
  have hsegs := (scan_append_of_some tag hd).2
  have hkey : tagOf l ≠ .key := by simp [tag]
  have hencrypts : encrypts (past ++ [l]) = encrypts past := by
    rw [encrypts_append]
    simp [hkey]
  have hlength := h.items.length_eq
  have hitem : KeyItem strtodUs baseURI (newItem st l d) ⟨past,l,d⟩ :=
    ⟨h.newItem_reference l d,h.places⟩
  -- the old segments keep their places
  have hold : ∀ {i : ℕ} {c : Segment}, (segments strtodUs past)[i]? = some c →
      (segments strtodUs (past ++ [l]))[i]? = some c := by
    intro i c hc
    rw [hsegs,getElem?_append_left (List.getElem?_eq_some_iff.mp hc).1]
    exact hc
  constructor
  · rw [hencrypts]
    intro he
    obtain ⟨hinf,href⟩ := h.off he
    constructor
    · simp [Hls.addItem,hinf]
    · simp [Hls.addItem,hinf,href]
  · rw [hencrypts]
    intro he
    obtain ⟨henc,hor⟩ := h.on he
    refine ⟨henc,?_⟩
    by_cases h0 : 0 ≤ d
    · right
      rcases hor with hinf | href
      · simp [Hls.addItem,h0,henc,hinf]
      · simp only [Hls.addItem]
        split
        · simp
        · exact href
    · simpa [Hls.addItem,h0] using hor
  · rw [lastKey_append_of_ne hkey,hsegs]
    intro before k hlast _ hcount
    have hle := segments_length_le_of_lastKey strtodUs hlast
    rw [length_append,length_singleton] at hcount
    omega
  · rw [lastKey_append_of_ne hkey,hsegs]
    intro before k c hlast hk hc h0
    have hle := segments_length_le_of_lastKey strtodUs hlast
    have henc := (h.on (encrypts_of_lastKey hlast hk)).1
    rcases Nat.eq_or_lt_of_le hle with heq | hlt
    · -- this is the item the key line was waiting for
      have hinf := h.waiting before k hlast hk heq.symm
      rw [heq,getElem?_append_right (Nat.le_refl _),Nat.sub_self] at hc
      cases hc
      have hd0 : 0 ≤ d := h0
      simp [Hls.addItem,hd0,henc,hinf,heq,hlength]
    · rw [getElem?_append_left hlt] at hc
      obtain ⟨hinf,href⟩ := h.current before k c hlast hk hc h0
      simp [Hls.addItem,hinf,href]
  · intro j hj
    simp only [Hls.addItem] at hj
    split at hj
    · rename_i htimed
      cases hj
      refine ⟨⟨past,l,d⟩,?_,htimed.1⟩
      rw [hsegs,hlength,getElem?_append_right (Nat.le_refl _),Nat.sub_self]
      rfl
    · obtain ⟨c,hc,h0⟩ := h.carrier j hj
      exact ⟨c,hold hc,h0⟩
  · exact hplaces
  · rw [hsegs]
    exact rel_append h.items (.cons hitem .nil)

theorem MediaStep.keyState (hmedia : st.playList.mIsVariantPlaylist = false)
    (hbase : st.playList.mBaseURI = baseURI) (hpending : Pending strtodUs past st)
    (h : KeyState strtodUs baseURI past st) (hstep : MediaStep abi strtodUs st l st') :
    KeyState strtodUs baseURI (past ++ [l]) st' := by
  have hplaces := hstep.viewed map_cipherView_lineAtoms hmedia hbase hpending h.places
  have hkept : tagOf l ≠ .uri → segments strtodUs (past ++ [l]) = segments strtodUs past :=
    fun huri => (scan_append_of_none fun htag => absurd htag huri).2
  cases hstep with
  | targetDuration tag _ | mediaSequence tag _ _ | extinf tag _ _ | discontinuity tag _
  | byteRange tag _ _ =>
    exact h.of_same (by simp [tag]) (hkept (by simp [tag])) rfl rfl id rfl hplaces
  | noKey tag hnone _ => exact h.noKey tag hnone hplaces
  | key tag hsome _ => exact h.key tag hsome hplaces
  | other tag hp =>
    have hkey : tagOf l ≠ .key := by
      intro htag
      simp [htag] at tag
    have huri : tagOf l ≠ .uri := by
      intro htag
      simp [htag] at tag
    exact h.of_same hkey (hkept huri) rfl rfl hp.hasEncrypte hp.mItems hplaces
  | uri tag =>
    rw [parseUri_of_pending hmedia hpending] at hplaces ⊢
    cases hd : durationIn strtodUs (blockOf strtodUs past) with
    | some d =>
      simp only [hd] at hplaces
      exact h.addItem tag hd hplaces
    | none =>
      simp only [hd] at hplaces
      exact h.of_same (by simp [tag]) (scan_append_of_none fun _ => hd).2 rfl rfl id rfl hplaces

theorem keyState_initialState (baseURI : List Char) :
    KeyState strtodUs baseURI [] (initialState baseURI) where
  off := fun _ => ⟨rfl,rfl⟩
  on := by simp [encrypts]
  waiting := by simp [lastKey]
  current := by simp [lastKey]
  carrier := by simp [initialState]
  places := rfl
  items := .nil

structure KeyAvailable (fetchKey : List Char → Option (List UInt8)) (baseURI : List Char)
    (l : Line) : Prop where
  method : ∃ method, keyAttribute baseURI l .cipherMethod = some (.string method) ∧
    strcaseeq method "AES-128".toList = true
  uri : ∃ uri key, keyAttribute baseURI l .cipherUri = some (.string uri) ∧
    fetchKey uri = some key ∧ key.length = 16
  iv : keyAttribute baseURI l .cipherIv = none ∨
    ∃ iv, keyAttribute baseURI l .cipherIv = some (.string iv) ∧
      (startsWith iv "0x" = true ∨ startsWith iv "0X" = true) ∧ iv.length = 34 ∧
      (hexBytes (iv.drop 2)).length = 16

/-- The item `i` of a segment is decrypted as the playlist declares it: its reference is the item
behind the key line in force, with the attributes of that line; it is fetched through the AES stream
exactly if it is declared encrypted; and it is fetched if its key can be. -/
structure Scoped (strtodUs : Strtod) (baseURI : List Char)
    (p : Playlist) (item : PlaylistItem) (s : Segment) : Prop where
  reference : item.cipherReference = declaredReference strtodUs s.before
  attributes : ∀ before l, lastKey s.before = some (before, l) → keyIsNone l = false →
    ∃ carrier, p.mItems[(segments strtodUs before).length]? = some carrier ∧
      ∀ name ∈ cipherNames, carrier.itemMeta.find name = keyAttribute baseURI l name
  source : ∀ fetchKey h h' src, setDataSourceForSegment fetchKey p item h = .done (h', src) →
      (src.cipher.isSome = true ↔ declared s.before = true)
  fetched : ∀ fetchKey h before l, lastKey s.before = some (before, l) → keyIsNone l = false →
    KeyAvailable fetchKey baseURI l → item.mURI.isSome = true →
      ∃ h' src, setDataSourceForSegment fetchKey p item h = .done (h', src)

/-- The condition on the lines of a playlist. `ReferenceInScope`, and: among the lines between
the segment's key line and the segment before that, no other key line hides an attribute. -/
def KeysInScope (strtodUs : Strtod) (baseURI : List Char)
    (s : Segment) : Prop :=
  ReferenceInScope strtodUs s ∧
    ∀ before l c, lastKey s.before = some (before, l) → keyIsNone l = false →
      (segments strtodUs s.before ++ [s])[(segments strtodUs before).length]? = some c →
        ∀ name ∈ cipherNames, slotFind name (blockSlots baseURI (blockOf strtodUs c.before)) =
          keyAttribute baseURI l name

variable {p : Playlist}

theorem setDataSourceForSegment_eq_done {item : PlaylistItem} {h h' : CipherState}
    {src : DataSource} (hdone : setDataSourceForSegment fetchKey p item h = .done (h', src)) :
    src.cipher.isSome = p.hasEncrypte ∧ (p.hasEncrypte = true → item.cipherReference ≠ none) := by
  unfold setDataSourceForSegment at hdone
  split at hdone
  · rename_i henc
    split at hdone
    · cases hdone
    · rename_i ref href
      obtain ⟨h'',-,hdone⟩ := Outcome.bind_eq_done.mp hdone
      split at hdone
      · cases hdone
      · cases hdone
        exact ⟨henc.symm,fun _ => by simp [href]⟩
  · rename_i henc
    split at hdone
    · cases hdone
    · cases hdone
      exact ⟨by simpa using henc,fun h => absurd h henc⟩

theorem findString_of_find {v : List Char} (h : m.find name = some (.string v)) :
    m.findString name = some v := by
  unfold AMessage.findString
  rw [h]

theorem appointIv_done {iv : List Char} (h : CipherState)
    (hstart : startsWith iv "0x" = true ∨ startsWith iv "0X" = true) (hlen : iv.length = 34)
    (hbytes : (hexBytes (iv.drop 2)).length = 16) : ∃ h', appointIv iv h = .done h' := by
  unfold appointIv
  rw [if_pos (by simpa [hlen] using hstart)]
  simp only [hbytes,if_true]
  exact ⟨_,rfl⟩

theorem changeCipher_done (havailable : KeyAvailable fetchKey baseURI l)
    (hfind : ∀ name ∈ cipherNames, m.find name = keyAttribute baseURI l name) (h : CipherState) :
    ∃ h', changeCipher fetchKey m h = .done h' := by
  obtain ⟨method,hmethod,haes⟩ := havailable.method
  obtain ⟨uri,key,huri,hkey,hlen⟩ := havailable.uri
  have hm := findString_of_find ((hfind .cipherMethod (by decide)).trans hmethod)
  have hu := findString_of_find ((hfind .cipherUri (by decide)).trans huri)
  unfold changeCipher
  simp only [hm,haes,hu,hkey,hlen,if_true,ne_eq,not_true_eq_false,if_false]
  rcases havailable.iv with hnone | ⟨iv,hiv,hstart,hivlen,hbytes⟩
  · have hi : m.findString .cipherIv = none := by
      unfold AMessage.findString
      rw [hfind .cipherIv (by decide),hnone]
    simp only [hi]
    exact ⟨_,rfl⟩
  · have hi := findString_of_find ((hfind .cipherIv (by decide)).trans hiv)
    simp only [hi]
    exact appointIv_done _ hstart hivlen hbytes

theorem setDataSourceForSegment_done {item carrier : PlaylistItem} {ref : ℕ} (h : CipherState)
    (henc : p.hasEncrypte = true) (href : item.cipherReference = some ref)
    (hcarrier : p.mItems[ref]? = some carrier)
    (hfind : ∀ name ∈ cipherNames, carrier.itemMeta.find name = keyAttribute baseURI l name)
    (havailable : KeyAvailable fetchKey baseURI l) (huri : item.mURI.isSome = true) :
    ∃ h' src, setDataSourceForSegment fetchKey p item h = .done (h', src) := by
  obtain ⟨uri,huri⟩ := Option.isSome_iff_exists.mp huri
  have hselect : ∃ h', selectCipher fetchKey p ref h = .done h' := by
    unfold selectCipher
    split
    · exact ⟨_,rfl⟩
    · simp only [hcarrier]
      obtain ⟨h',hchange⟩ := changeCipher_done havailable hfind h
      rw [hchange]
      exact ⟨_,rfl⟩
  obtain ⟨h',hselect⟩ := hselect
  unfold setDataSourceForSegment
  simp only [henc,href,hselect,huri,if_true,Outcome.bind]
  exact ⟨_,_,rfl⟩

variable {lines : List Line} {s : Segment}

theorem segments_before_append {i : ℕ} (hs : (segments strtodUs lines)[i]? = some s) :
    segments strtodUs s.before ++ [s] = (segments strtodUs lines).take (i+1) := by
  rw [segments_before lines i s hs,take_add_one,hs]
  rfl

theorem encrypts_of_before (hs : s ∈ segments strtodUs lines) (h : encrypts s.before = true) :
    encrypts lines = true := by
  obtain ⟨rest,hrest⟩ := (before_append_uri_isPrefix lines s hs).1
  unfold encrypts at *
  rw [← hrest]
  simp [h]

theorem declaredReference_ne_none (h : declaredReference strtodUs past ≠ none) :
    declared past = true := by
  unfold declaredReference at h
  unfold declared
  cases hlast : lastKey past with
  | none => simp [hlast] at h
  | some key =>
    cases hl : keyIsNone key.2 with
    | true => simp [hlast,hl] at h
    | false => simp [hl]

section EndOfPlaylist
variable {lines : List Line} {st : ParseState} {i : ℕ} {s : Segment}

theorem KeyState.hasEncrypte_of_declared (h : KeyState strtodUs baseURI lines st)
    (hs : s ∈ segments strtodUs lines) (hd : declared s.before = true) :
    st.playList.hasEncrypte = true := by
  unfold declared at hd
  split at hd
  · rename_i before l hlast
    have he := encrypts_of_lastKey hlast (by simpa using hd)
    exact (h.on (encrypts_of_before hs he)).1
  · cases hd

section
variable (h : KeyState strtodUs baseURI lines st) (hs : (segments strtodUs lines)[i]? = some s)
  {before : List Line} {l : Line} (hlast : lastKey s.before = some (before, l))
include h hs hlast

theorem KeyState.exists_carrier :
    ∃ carrier c, st.playList.mItems[(segments strtodUs before).length]? = some carrier ∧
      (segments strtodUs s.before ++ [s])[(segments strtodUs before).length]? = some c ∧
      ∀ name ∈ cipherNames, carrier.itemMeta.find name =
        slotFind name (blockSlots baseURI (blockOf strtodUs c.before)) := by
  have hi := (List.getElem?_eq_some_iff.mp hs).1
  have hj : (segments strtodUs before).length < i+1 := by
    have hle := segments_length_le_of_lastKey strtodUs hlast
    rw [segments_before _ i s hs,length_take] at hle
    omega
  obtain ⟨c,hc⟩ : ∃ c, (segments strtodUs lines)[(segments strtodUs before).length]? = some c :=
    ⟨_,getElem?_eq_getElem (by omega)⟩
  obtain ⟨carrier,hcarrier⟩ : ∃ carrier,
      st.playList.mItems[(segments strtodUs before).length]? = some carrier :=
    ⟨_,getElem?_eq_getElem (by rw [h.items.length_eq]; omega)⟩
  refine ⟨carrier,c,hcarrier,?_,fun name hname => ?_⟩
  · rw [segments_before_append hs,getElem?_take,if_pos hj]
    exact hc
  · have hplaces : Places strtodUs baseURI c.before carrier.itemMeta :=
      (forall₂_getElem? h.items hcarrier hc).places
    rw [find_eq_slotFind _ hname,hplaces]

theorem KeyState.attributes_iff :
    (∃ carrier, st.playList.mItems[(segments strtodUs before).length]? = some carrier ∧
        ∀ name ∈ cipherNames, carrier.itemMeta.find name = keyAttribute baseURI l name) ↔
      ∀ c, (segments strtodUs s.before ++ [s])[(segments strtodUs before).length]? = some c →
        ∀ name ∈ cipherNames, slotFind name (blockSlots baseURI (blockOf strtodUs c.before)) =
          keyAttribute baseURI l name := by
  obtain ⟨carrier,c,hcarrier,hc,hfind⟩ := h.exists_carrier hs hlast
  constructor
  · rintro ⟨carrier',hcarrier',hattrs⟩ c' hc' name hname
    rw [hcarrier] at hcarrier'
    rw [hc] at hc'
    cases hcarrier'
    cases hc'
    rw [← hfind name hname]
    exact hattrs name hname
  · intro hall
    refine ⟨carrier,hcarrier,fun name hname => ?_⟩
    rw [hfind name hname]
    exact hall c hc name hname

end

end EndOfPlaylist

/-- For every segment of an accepted media playlist: it is decrypted as declared if and only
if the lines before it are in scope. -/
theorem segment_scoped_iff (abi : Abi) (strtodUs : Strtod)
    (data baseURI : List Char) (p : Playlist)
    (h : m3u8Parse abi strtodUs data baseURI = .done p) (hmedia : p.mIsVariantPlaylist = false)
    (i : ℕ) (item : PlaylistItem) (s : Segment) (hitem : p.mItems[i]? = some item)
    (hs : (segments strtodUs (bodyOf data))[i]? = some s) :
    Scoped strtodUs baseURI p item s ↔ KeysInScope strtodUs baseURI s := by
  obtain ⟨st,rfl,hinv⟩ := media_history h hmedia (KeyState strtodUs baseURI)
    (keyState_initialState baseURI) fun past st l st' hm hb hp hi hs => hs.keyState hm hb hp hi
  have hof : KeyItem strtodUs baseURI item s := forall₂_getElem? hinv.items hitem hs
  constructor
  · intro hscoped
    refine ⟨hof.reference.mp hscoped.reference,fun before l c hlast hl hc => ?_⟩
    exact (hinv.attributes_iff hs hlast).mp (hscoped.attributes before l hlast hl) c hc
  · rintro ⟨hreference,hattrs⟩
    have href := hof.reference.mpr hreference
    have hon := hinv.hasEncrypte_of_declared (mem_of_getElem? hs)
    have hcarrier : ∀ before l, lastKey s.before = some (before, l) → keyIsNone l = false →
        ∃ carrier, st.playList.mItems[(segments strtodUs before).length]? = some carrier ∧
          ∀ name ∈ cipherNames, carrier.itemMeta.find name = keyAttribute baseURI l name := by
      intro before l hlast hl
      exact (hinv.attributes_iff hs hlast).mpr fun c hc => hattrs before l c hlast hl hc
    refine ⟨href,hcarrier,?_,?_⟩
    · intro fetchKey c c' src hdone
      obtain ⟨hcipher,hnonnull⟩ := setDataSourceForSegment_eq_done hdone
      rw [hcipher]
      refine ⟨fun henc => ?_, hon⟩
      have hdeclared : declaredReference strtodUs s.before ≠ none := href ▸ hnonnull henc
      exact declaredReference_ne_none hdeclared
    · intro fetchKey c before l hlast hl havailable huri
      obtain ⟨carrier,hc,hattr⟩ := hcarrier before l hlast hl
      have henc := hon (by simp [declared,hlast,hl])
      have href' : item.cipherReference = some (segments strtodUs before).length := by
        rw [href]
        simp [declaredReference,hlast,hl]
      exact setDataSourceForSegment_done c henc href' hc hattr havailable huri

def keyThenNone : List Char :=
  ("#EXTM3U\n#EXT-X-KEY:METHOD=AES-128,URI=\"k\"\n#EXTINF:4,\na.ts\n" ++
    "#EXT-X-KEY:METHOD=NONE\n#EXTINF:4,\nb.ts\n").toList

def firstSegment : Segment :=
  ⟨["#EXT-X-KEY:METHOD=AES-128,URI=\"k\"".toList,"#EXTINF:4,".toList],"a.ts".toList,4000000⟩

theorem segment_scoped_of_first_key :
    ∃ p item, m3u8Parse .ilp32 wholeSeconds keyThenNone exampleBase = .done p ∧
      p.mItems[0]? = some item ∧ Scoped wholeSeconds exampleBase p item firstSegment := by
  have hrun : (m3u8Parse .ilp32 wholeSeconds keyThenNone exampleBase).toOption.map
      (fun p => (p.mIsVariantPlaylist, p.mItems.length)) = some (false, 2) := by
    decide +kernel
  obtain ⟨p,hp,hvalues⟩ := Option.map_eq_some_iff.mp hrun
  have hmedia : p.mIsVariantPlaylist = false := congrArg Prod.fst hvalues
  have hlength : p.mItems.length = 2 := congrArg Prod.snd hvalues
  have hitem := getElem?_eq_getElem (by omega : 0 < p.mItems.length)
  have hs : (segments wholeSeconds (bodyOf keyThenNone))[0]? = some firstSegment := by
    decide +kernel
  have hdone := Outcome.toOption_eq_some.mp hp
  refine ⟨p,_,hdone,hitem,?_⟩
  refine (segment_scoped_iff _ _ _ _ p hdone hmedia 0 _ _ hitem hs).mpr ⟨?_,?_⟩
  · refine ⟨by decide,fun c hc => ?_⟩
    cases hc
    decide
  · intro before l c hlast _ hc
    cases hlast
    cases hc
    decide +kernel

/-- The second segment is declared clear, but refers to the item of the first key and is
fetched through the AES stream. -/
theorem method_none_keeps_reference :
    (segments wholeSeconds (bodyOf keyThenNone)).map (fun s => declared s.before) =
        [true,false] ∧
      (m3u8Parse .ilp32 wholeSeconds keyThenNone exampleBase).toOption.map
        (fun p => p.mItems.map (·.cipherReference)) = some [some 0,some 0] ∧
      ((m3u8Parse .ilp32 wholeSeconds keyThenNone exampleBase).toOption.bind fun p =>
        p.mItems[1]?.bind fun item =>
          (setDataSourceForSegment (fun _ => some (zeros 16)) p item
            ⟨none,false,zeros 16,zeros 16,1⟩).toOption.map fun r => r.2.cipher.isSome) =
        some true := by
  decide +kernel

end TinaPackage.Hls
