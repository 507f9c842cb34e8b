import TinaPackage.UdpStreamModel

/-! Runs of the download thread and a reader of a UDP stream. -/
namespace TinaPackage.Udp
open List UdpStream

namespace UdpStream

def unread (s : UdpStream) : List UInt8 :=
  if s.endPos > 0 then
    load s.bigBuf s.readPos (s.endPos-s.readPos) ++ load s.bigBuf 0 s.writePos
  else load s.bigBuf s.readPos (s.writePos-s.readPos)

/-- The reads have returned the first of the received bytes, the others are in the buffer, and the
numbers are right. -/
structure Sound (s : UdpStream) : Prop where
  inOrder : s.returned <+: s.received
  kept : s.unread = s.received.drop s.returned.length
  counted : s.validDataSize+s.returned.length = s.received.length
  tell : s.tell = s.returned.length

/-- The writer does not start over before the reader has followed it. -/
def OneWrap (s : UdpStream) : UdpAction → Prop
  | .round _ => ¬(0 < s.endPos ∧ subU32 bufSize s.writePos < sizeToReadEverytime)
  | _ => True

instance (s : UdpStream) : ∀ a, Decidable (s.OneWrap a)
  | .round _ => inferInstanceAs (Decidable (¬_))
  | .lock | .exit | .check .. | .copy => .isTrue trivial

/-- They end at `writePos`, or at `endPos` and go on from 0 to `writePos`. -/
inductive Placed (s : UdpStream) : Prop
  | straight (end_eq : s.endPos = 0) (read_le : s.readPos ≤ s.writePos)
      (write_le : s.writePos ≤ bufSize) (valid : s.validDataSize = s.writePos-s.readPos)
  | wrapped (end_pos : 0 < s.endPos) (write_le : s.writePos ≤ s.readPos)
      (read_le : s.readPos ≤ s.endPos) (end_le : s.endPos ≤ bufSize)
      (valid : s.validDataSize = s.endPos-s.readPos+s.writePos)

structure Inv (s : UdpStream) : Prop where
  placed : s.Placed
  content : s.received = s.returned ++ s.unread
  download : s.accumulatedDownload = s.received.length
  fits : s.received.length < 2^63
  reading : ∀ len ∈ s.reading, len ≤ s.validDataSize

variable {s : UdpStream}

theorem Placed.length_unread (h : s.Placed) : s.unread.length = s.validDataSize := by
  cases h with
  | straight hend hread hwrite hvalid | wrapped hend hwrite hread hle hvalid =>
    simp [unread,hend,hvalid]

theorem Placed.tell_eq (h : s.Placed) : s.tell = s.accumulatedDownload-s.validDataSize := by
  cases h with
  | straight hend hread hwrite hvalid =>
    unfold bufSize at hwrite
    rw [tell,if_neg (by omega),subU32_of_le hread (by omega),hvalid]
  | wrapped hend hwrite hread hle hvalid =>
    unfold bufSize at hle
    rw [tell,if_pos hend,subU32_of_le hread (by omega),hvalid]
    omega

theorem Inv.sound (h : s.Inv) : s.Sound := by
  have hlen := h.placed.length_unread
  have hcontent := h.content
  have htotal := congrArg length hcontent
  rw [length_append,hlen] at htotal
  refine ⟨⟨s.unread,hcontent.symm⟩,?_,by omega,?_⟩
  · rw [hcontent,drop_left]
  · rw [h.placed.tell_eq,h.download,htotal]
    omega

theorem Placed.subU32_write (h : s.Placed) : subU32 bufSize s.writePos = bufSize-s.writePos := by
  refine subU32_of_le ?_ (by decide)
  cases h with
  | straight hend hread hwrite hvalid => exact hwrite
  | wrapped hend hwrite hread hle hvalid => omega

theorem Placed.wrap (h : s.Placed) (hone : ¬(0 < s.endPos ∧
    subU32 bufSize s.writePos < sizeToReadEverytime)) :
    s.wrap.Placed ∧ s.wrap.unread = s.unread ∧ sizeToReadEverytime ≤ bufSize-s.wrap.writePos := by
  unfold UdpStream.wrap
  rw [h.subU32_write] at hone ⊢
  split_ifs with hsmall
  · unfold sizeToReadEverytime bufSize at *
    cases h with
    | straight hend hread hwrite hvalid =>
      refine ⟨.wrapped ?_ (Nat.zero_le _) hread hwrite ?_,?_,?_⟩
      · show 0 < s.writePos
        omega
      · omega
      · have hpos : 0 < s.writePos := by omega
        simp [unread,hend,hpos]
      · show 64*1024 ≤ 20*1024*1024-0
        decide
    | wrapped hend hwrite hread hle hvalid => exact absurd ⟨hend,hsmall⟩ hone
  · exact ⟨h,rfl,Nat.not_lt.mp hsmall⟩

variable {datagram : List UInt8}

theorem Placed.receive (h : s.Placed) (hroom : sizeToReadEverytime ≤ bufSize-s.writePos)
    (hfull : s.isFull = false) (hlen : datagram.length ≤ sizeToReadEverytime) :
    ∃ s', s.receive datagram = some s' ∧ s'.Placed ∧ s'.unread = s.unread ++ datagram ∧
      s'.validDataSize = s.validDataSize+datagram.length := by
  have hfits : s.writePos+datagram.length ≤ bufSize := by
    unfold sizeToReadEverytime bufSize at *
    omega
  have hmod : (s.writePos+datagram.length) % 2^32 = s.writePos+datagram.length := by
    unfold bufSize at hfits
    omega
  refine ⟨_,if_pos hfits,?_⟩
  rw [hmod]
  cases h with
  | straight hend hread hwrite hvalid =>
    have hvmod : (s.validDataSize+datagram.length) % 2^32 =
        s.validDataSize+datagram.length := by omega
    rw [hvmod]
    refine ⟨.straight hend (by simp only; omega) hfits (by simp only; omega),?_,rfl⟩
    have hsplit : s.writePos+datagram.length-s.readPos =
        (s.writePos-s.readPos)+datagram.length := by omega
    simp only [unread,hend,gt_iff_lt,Nat.lt_irrefl,if_false]
    rw [hsplit,load_add,Nat.add_sub_cancel' hread,load_store_self,
      load_store_apart (.inl (by omega))]
  | wrapped hend hwrite hread hle hvalid =>
    -- between `writePos` and `readPos` there is room for a datagram
    have hgap : sizeToReadEverytime ≤ s.readPos-s.writePos := by
      simp only [isFull,hend,if_true,decide_eq_false_iff_not,not_lt] at hfull
      unfold bufSize at hle
      rw [subU32_of_le (by omega) (by omega)] at hfull
      omega
    have hvmod : (s.validDataSize+datagram.length) % 2^32 = s.validDataSize+datagram.length := by
      unfold bufSize at hle
      omega
    rw [hvmod]
    refine ⟨.wrapped hend (by simp only; omega) hread hle (by simp only; omega),?_,rfl⟩
    simp only [unread,hend,if_true]
    rw [load_add,Nat.zero_add,load_store_self,load_store_apart (.inr (by omega)),
      load_store_apart (.inl (by omega)),append_assoc]

theorem Inv.wrap (h : s.Inv) (hone : ¬(0 < s.endPos ∧
    subU32 bufSize s.writePos < sizeToReadEverytime)) :
    s.wrap.Inv ∧ sizeToReadEverytime ≤ bufSize-s.wrap.writePos := by
  obtain ⟨hplaced,hunread,hroom⟩ := h.placed.wrap hone
  have hsame : s.wrap.received = s.received ∧ s.wrap.returned = s.returned ∧
      s.wrap.accumulatedDownload = s.accumulatedDownload ∧ s.wrap.reading = s.reading ∧
      s.wrap.validDataSize = s.validDataSize := by
    unfold UdpStream.wrap
    split_ifs <;> exact ⟨rfl,rfl,rfl,rfl,rfl⟩
  obtain ⟨hreceived,hreturned,hdownload,hreading,hvalid⟩ := hsame
  refine ⟨⟨hplaced,?_,?_,?_,?_⟩,hroom⟩
  · rw [hreceived,hreturned,hunread]
    exact h.content
  · rw [hdownload,hreceived]
    exact h.download
  · rw [hreceived]
    exact h.fits
  · rw [hreading,hvalid]
    exact h.reading

theorem Inv.receive (h : s.Inv) (hroom : sizeToReadEverytime ≤ bufSize-s.writePos)
    (hfull : s.isFull = false) (hlen : datagram.length ≤ sizeToReadEverytime)
    (hfits : s.received.length+datagram.length < 2^63) :
    ∃ s', s.receive datagram = some s' ∧ s'.Inv := by
  obtain ⟨s',hs',hplaced,hunread,hvalid⟩ := h.placed.receive hroom hfull hlen
  refine ⟨s',hs',hplaced,?_,?_,?_,?_⟩
  all_goals
    unfold UdpStream.receive at hs'
    split_ifs at hs'
    cases hs'
  · rw [hunread]
    rw [h.content,append_assoc]
  · rw [h.download,length_append,int64_of_range (by omega) (by omega)]
    rfl
  · rw [length_append]
    exact hfits
  · intro len hmem
    rw [hvalid]
    exact Nat.le_trans (h.reading len hmem) (Nat.le_add_right ..)

theorem Inv.of_turn (h : s.Inv) (downloading : Bool) : Inv { s with downloading } := by
  refine ⟨?_,h.content,h.download,h.fits,h.reading⟩
  cases h.placed with
  | straight hend hread hwrite hvalid => exact .straight hend hread hwrite hvalid
  | wrapped hend hwrite hread hle hvalid => exact .wrapped hend hwrite hread hle hvalid

variable {result : RecvResult}

theorem Inv.round (h : s.Inv) (hturn : s.Turn (.round result)) (hone : s.OneWrap (.round result)) :
    ∃ s', s.round result = some s' ∧ s'.Inv := by
  obtain ⟨hinv,hroom⟩ := h.wrap hone
  have hreceived : s.wrap.received = s.received := by
    unfold UdpStream.wrap
    split_ifs <;> rfl
  unfold UdpStream.round
  dsimp only
  cases hfull : s.wrap.isFull with
  | true => exact ⟨_,rfl,hinv.of_turn false⟩
  | false =>
    cases result with
    | data datagram =>
      obtain ⟨-,-,hlen,hfits⟩ := hturn
      exact hinv.receive hroom hfull hlen (hreceived ▸ hfits)
    | again | error | closed => exact ⟨_,rfl,hinv.of_turn false⟩

theorem Inv.check (h : s.Inv) (len : ℕ) (exited : Bool) : (s.check len exited).Inv := by
  unfold UdpStream.check
  dsimp only
  generalize (if len > subU32 bufSize (2*sizeToReadEverytime) then
    subU32 bufSize (2*sizeToReadEverytime) else len) = want
  split_ifs with hwait hempty
  · exact h
  · exact h
  all_goals
    refine ⟨?_,h.content,h.download,h.fits,?_⟩
    · cases h.placed with
      | straight hend hread hwrite hvalid => exact .straight hend hread hwrite hvalid
      | wrapped hend hwrite hread hle hvalid => exact .wrapped hend hwrite hread hle hvalid
    · intro n hn
      cases hn
      show _ ≤ s.validDataSize
      omega

theorem Inv.copy (h : s.Inv) (hreading : s.reading ≠ none) : ∃ s', s.copy = some s' ∧ s'.Inv := by
  obtain ⟨len,hlen⟩ := Option.ne_none_iff_exists'.mp hreading
  have hle := h.reading len hlen
  have hcontent := h.content
  rw [UdpStream.copy,hlen]
  dsimp only
  cases h.placed with
  | straight hend hread hwrite hvalid =>
    unfold bufSize at hwrite
    rw [if_neg (by omega),if_pos (by unfold bufSize; omega)]
    have hmod : (s.readPos+len) % 2^32 = s.readPos+len := by omega
    have hvmod : subU32 s.validDataSize len = s.validDataSize-len :=
      subU32_of_le hle (by omega)
    refine ⟨_,rfl,?_,?_,h.download,h.fits,(fun n hn => by cases hn)⟩
    · rw [hmod,hvmod,if_neg (by omega),if_neg (by omega)]
      exact .straight hend (by simp only; omega) hwrite (by simp only; omega)
    · have hsplit : s.writePos-s.readPos = len+(s.writePos-(s.readPos+len)) := by omega
      simp only [unread,hend,hmod,gt_iff_lt,Nat.lt_irrefl,false_and,if_false] at hcontent ⊢
      rw [hcontent,hsplit,load_add,append_assoc]
  | wrapped hend hwrite hread hendle hvalid =>
    unfold bufSize at hendle
    have hsize : subU32 s.endPos s.readPos = s.endPos-s.readPos :=
      subU32_of_le hread (by omega)
    have hvmod : subU32 s.validDataSize len = s.validDataSize-len :=
      subU32_of_le hle (by omega)
    rw [hsize,hvmod]
    by_cases hcross : s.endPos-s.readPos < len
    · -- the copy goes on at the start of the buffer
      rw [if_pos ⟨hend,hcross⟩,if_pos (by unfold bufSize; omega)]
      refine ⟨_,rfl,?_,?_,h.download,h.fits,(fun n hn => by cases hn)⟩
      · exact .straight rfl (by simp only; omega) (by simp only; unfold bufSize; omega)
          (by simp only; omega)
      · have hsplit : s.writePos =
            (len-(s.endPos-s.readPos))+(s.writePos-(len-(s.endPos-s.readPos))) := by
          omega
        simp only [unread,hend,gt_iff_lt,if_true,Nat.lt_irrefl,if_false] at hcontent ⊢
        rw [hcontent,append_assoc,append_assoc]
        congr 2
        conv_lhs => rw [hsplit,load_add,Nat.zero_add]
    · rw [if_neg (by omega),if_pos (by unfold bufSize; omega)]
      have hmod : (s.readPos+len) % 2^32 = s.readPos+len := by omega
      have hsplit : s.endPos-s.readPos = len+(s.endPos-(s.readPos+len)) := by omega
      rw [hmod]
      by_cases hreach : s.readPos+len ≥ s.endPos
      · -- the reader follows the writer to the start of the buffer
        have hdone : s.endPos-(s.readPos+len) = 0 := by omega
        rw [if_pos ⟨hend,hreach⟩,if_pos ⟨hend,hreach⟩]
        refine ⟨_,rfl,?_,?_,h.download,h.fits,(fun n hn => by cases hn)⟩
        · exact .straight rfl (Nat.zero_le _) (by simp only; unfold bufSize; omega)
            (by simp only; omega)
        · simp only [unread,hend,gt_iff_lt,if_true,Nat.lt_irrefl,if_false] at hcontent ⊢
          rw [hcontent,hsplit,hdone,Nat.add_zero,Nat.sub_zero,append_assoc]
      · rw [if_neg (by omega),if_neg (by omega)]
        refine ⟨_,rfl,?_,?_,h.download,h.fits,(fun n hn => by cases hn)⟩
        · exact .wrapped hend (by simp only; omega) (by simp only; omega) hendle
            (by simp only; omega)
        · simp only [unread,hend,if_true] at hcontent ⊢
          rw [hcontent,hsplit,load_add,append_assoc,append_assoc]

variable {s' : UdpStream}

/-- When the writer starts over before the reader has followed it, `endPos` is lost, and the
position that `UdpStreamTell` reports is wrong. -/
theorem Inv.second_wrap (h : s.Inv) (hturn : s.Turn (.round result))
    (htwo : 0 < s.endPos ∧ subU32 bufSize s.writePos < sizeToReadEverytime)
    (hs' : s.round result = some s') : s'.tell ≠ s'.returned.length := by
  obtain ⟨hend,hsmall⟩ := htwo
  have hwrap : s.wrap = { s with endPos := s.writePos, writePos := 0 } := if_pos hsmall
  have hsub := h.placed.subU32_write
  have htotal := congrArg length h.content
  rw [length_append,h.placed.length_unread] at htotal
  cases h.placed with
  | straight hnot => omega
  | wrapped _ hwrite hread hle hvalid =>
    unfold sizeToReadEverytime bufSize at *
    have hpos : 0 < s.writePos := by omega
    -- the distance between the lost position and the writer
    have hdistance : (subU32 s.writePos s.readPos : ℤ) ≠ s.validDataSize := by
      unfold subU32
      omega
    have hreport : s'.endPos = s.writePos ∧ s'.readPos = s.readPos ∧ s'.returned = s.returned ∧
        s'.accumulatedDownload-s'.writePos = s.accumulatedDownload := by
      unfold UdpStream.round at hs'
      rw [hwrap] at hs'
      dsimp only at hs'
      split_ifs at hs'
      · cases hs'
        exact ⟨rfl,rfl,rfl,Int.sub_zero _⟩
      · cases result with
        | data datagram =>
          obtain ⟨-,-,hlen,hfits⟩ := hturn
          have hdownload := h.download
          dsimp only [UdpStream.receive] at hs'
          split_ifs at hs'
          cases hs'
          refine ⟨rfl,rfl,rfl,?_⟩
          show int64 (s.accumulatedDownload+datagram.length) -
            ((0+datagram.length) % 2^32 : ℕ) = s.accumulatedDownload
          unfold sizeToReadEverytime at hlen
          rw [int64_of_range (by omega) (by omega)]
          omega
        | again | error | closed => cases hs'; exact ⟨rfl,rfl,rfl,Int.sub_zero _⟩
    obtain ⟨hend',hread',hreturned,hdiff⟩ := hreport
    have hdownload := h.download
    rw [tell,hend',hread',hreturned,if_pos hpos]
    omega

theorem create_inv (bigBuf : ℕ → UInt8) : (create bigBuf).Inv where
  placed := .straight rfl (Nat.le_refl 0) (Nat.zero_le _) rfl
  content := rfl
  download := rfl
  fits := Nat.two_pow_pos 63
  reading := (fun _ hn => by cases hn)

variable {a : UdpAction}

theorem Inv.step (h : s.Inv) (hturn : s.Turn a) (hone : s.OneWrap a) :
    ∃ s', s.step a = some s' ∧ s'.Inv := by
  cases a with
  | lock => exact ⟨_,rfl,h.of_turn true⟩
  | exit => exact ⟨_,rfl,h.of_turn false⟩
  | round result => exact h.round hturn hone
  | check len exited => exact ⟨_,rfl,h.check len exited⟩
  | copy => exact h.copy hturn.2

theorem Inv.step_bad (h : s.Inv) (hturn : s.Turn a) (hone : ¬s.OneWrap a)
    (hs' : s.step a = some s') : ¬s'.Sound := by
  cases a with
  | round result =>
    intro hsound
    exact h.second_wrap hturn (not_not.mp hone) hs' hsound.tell
  | _ => exact absurd trivial hone

end UdpStream

/-- In a run of the two threads every state is sound, and no step leaves the buffer, if and only if
the writer never starts over while `endPos` is set. -/
theorem udp_ring_sound_iff (bigBuf : ℕ → UInt8) (actions : List UdpAction)
    (hturn : Guarded step Turn (.create bigBuf) actions) :
    Always step Sound (.create bigBuf) actions ↔ Guarded step OneWrap (.create bigBuf) actions :=
  always_iff_guarded Inv (fun _ h => h.sound)
    (fun _ _ h ht ho => h.step ht ho) (fun _ _ _ h ht ho hs => h.step_bad ht ho hs)
    actions _ (create_inv bigBuf) hturn

/-- Two datagrams, and a read that takes a part of them. -/
theorem udp_ring_sound_of_two_datagrams :
    Always step Sound (.create fun _ => 0)
      [.lock,.round (.data [1,2,3]),.round (.data [4]),.check 2 false,.round .again,.copy] :=
  (udp_ring_sound_iff _ _ (by decide +kernel)).mpr (by decide +kernel)

namespace UdpStream

structure Counters (s : UdpStream) (valid write read stop total back : ℕ) (inLoop : Bool) :
    Prop where
  validDataSize : s.validDataSize = valid
  writePos : s.writePos = write
  readPos : s.readPos = read
  endPos : s.endPos = stop
  received : s.received.length = total
  accumulatedDownload : s.accumulatedDownload = total
  returned : s.returned.length = back
  downloading : s.downloading = inLoop
  reading : s.reading = none

variable {s : UdpStream} {valid write read stop total back : ℕ}

theorem Counters.data (h : s.Counters valid write read stop total back true) (n : ℕ)
    (hpos : 0 < n) (hn : n ≤ sizeToReadEverytime) (hwrite : write+sizeToReadEverytime ≤ bufSize)
    (hvalid : valid+sizeToReadEverytime ≤ if stop > 0 then stop else bufSize)
    (hstop : stop ≤ bufSize) (htotal : total+n < 2^63) :
    ∃ s', Reaches step Turn s [.round (.data (replicate n 0))] s' ∧
      s'.Counters (valid+n) (write+n) read stop (total+n) back true := by
  unfold sizeToReadEverytime bufSize at *
  have hroom : ¬subU32 bufSize s.writePos < sizeToReadEverytime := by
    rw [h.writePos]
    unfold subU32 bufSize sizeToReadEverytime
    omega
  have hwrap : s.wrap = s := if_neg hroom
  have hfull : s.isFull = false := by
    simp only [isFull,h.endPos,h.validDataSize,decide_eq_false_iff_not]
    unfold subU32 bufSize sizeToReadEverytime
    split_ifs at hvalid ⊢ <;> omega
  have hlen : (replicate n (0 : UInt8)).length = n := length_replicate
  have hfits : s.writePos+(replicate n (0 : UInt8)).length ≤ bufSize := by
    rw [h.writePos,hlen]
    unfold bufSize
    omega
  obtain ⟨s',hs'⟩ : ∃ s', s.receive (replicate n 0) = some s' := ⟨_,if_pos hfits⟩
  have hround : s.round (.data (replicate n 0)) = some s' := by
    unfold round
    dsimp only
    rw [hwrap,hfull]
    exact hs'
  refine ⟨s',(Reaches.nil s').cons ⟨h.downloading,?_,?_,?_⟩ hround,?_⟩
  · rw [hlen]
    exact hpos
  · rw [hlen]
    exact hn
  · rw [hlen,h.received]
    exact htotal
  · rw [receive,if_pos hfits] at hs'
    cases hs'
    refine ⟨?_,?_,h.readPos,h.endPos,?_,?_,h.returned,h.downloading,h.reading⟩
    · show (s.validDataSize+(replicate n 0).length) % 2^32 = valid+n
      rw [h.validDataSize,length_replicate]
      split_ifs at hvalid <;> omega
    · show (s.writePos+(replicate n 0).length) % 2^32 = write+n
      rw [h.writePos,length_replicate]
      omega
    · show (s.received ++ replicate n 0).length = total+n
      rw [length_append,h.received,length_replicate]
    · show int64 (s.accumulatedDownload+(replicate n 0).length) = (total+n : ℕ)
      rw [h.accumulatedDownload,length_replicate,int64_of_range (by omega) (by omega)]
      push_cast
      rfl

theorem Counters.fill (k : ℕ) {s : UdpStream} {valid write total : ℕ}
    (h : s.Counters valid write read stop total back true)
    (hwrite : write+k*sizeToReadEverytime ≤ bufSize)
    (hvalid : valid+k*sizeToReadEverytime ≤ if stop > 0 then stop else bufSize)
    (hstop : stop ≤ bufSize) (htotal : total+k*sizeToReadEverytime < 2^63) :
    ∃ s', Reaches step Turn s
        (replicate k (.round (.data (replicate sizeToReadEverytime 0)))) s' ∧
      s'.Counters (valid+k*sizeToReadEverytime) (write+k*sizeToReadEverytime) read stop
        (total+k*sizeToReadEverytime) back true := by
  induction k generalizing s valid write total with
  | zero =>
    refine ⟨s,.nil s,?_⟩
    simpa using h
  | succ k ih =>
    rw [Nat.succ_mul] at hwrite hvalid htotal
    obtain ⟨t,hst,ht⟩ := h.data sizeToReadEverytime (by decide) (Nat.le_refl _)
      (by omega) (by omega) hstop (by omega)
    obtain ⟨s',hts,hs'⟩ := ih ht (by omega) (by omega) (by omega)
    refine ⟨s',?_,?_⟩
    · exact hst.append hts
    · rw [Nat.succ_mul]
      simpa only [Nat.add_assoc,Nat.add_comm sizeToReadEverytime] using hs'

theorem Counters.take (h : s.Counters valid write read stop total back false) (len : ℕ)
    (hlen : len ≤ valid) (hpos : 0 < valid) (hmax : len+2*sizeToReadEverytime ≤ bufSize)
    (hvalid : valid < 2^32) (hstop : stop ≤ bufSize) (hread : read+len < stop) :
    ∃ s', Reaches step Turn s [.check len false,.copy] s' ∧
      s'.Counters (valid-len) write (read+len) stop total (back+len) false := by
  unfold sizeToReadEverytime bufSize at *
  have hchecked : s.check len false = { s with reading := some len } := by
    unfold check
    dsimp only
    have hsize : ¬len > subU32 bufSize (2*sizeToReadEverytime) := by
      unfold subU32 bufSize sizeToReadEverytime
      omega
    rw [if_neg hsize,h.validDataSize,if_neg (by omega),if_neg (by omega),if_neg (by omega)]
  have hsize : subU32 stop read = stop-read := subU32_of_le (by omega) (by omega)
  have hmod : (read+len) % 2^32 = read+len := by omega
  have hcopy : (s.check len false).copy = some
      { s with
        returned := s.returned ++ load s.bigBuf read len
        readPos := read+len
        validDataSize := subU32 s.validDataSize len
        reading := none } := by
    rw [hchecked,copy]
    dsimp only
    rw [h.endPos,h.readPos,hsize,if_neg (by omega),if_pos (by unfold bufSize; omega),hmod,
      if_neg (by omega),if_neg (by omega)]
  have hturn : (s.check len false).Turn .copy := by
    rw [hchecked]
    exact ⟨h.downloading,Option.some_ne_none len⟩
  refine ⟨_,((Reaches.nil _).cons hturn hcopy).cons h.reading rfl,?_⟩
  refine ⟨?_,h.writePos,rfl,h.endPos,h.received,h.accumulatedDownload,?_,h.downloading,rfl⟩
  · rw [h.validDataSize,subU32_of_le hlen hvalid]
  · rw [length_append,h.returned,length_load]

theorem Counters.lock (h : s.Counters valid write read stop total back false)
    (hvalid : valid+2*sizeToReadEverytime < bufSize) :
    ∃ s', Reaches step Turn s [.lock] s' ∧ s'.Counters valid write read stop total back true := by
  refine ⟨{ s with downloading := true },(Reaches.nil _).cons ⟨h.downloading,?_⟩ rfl,
    { h with downloading := rfl }⟩
  rw [h.validDataSize]
  unfold subU32 bufSize sizeToReadEverytime at *
  omega

theorem Counters.startOver (h : s.Counters valid write read stop total back true)
    (hwrite : write ≤ bufSize) (hsmall : bufSize < write+sizeToReadEverytime) :
    ∃ s', Reaches step Turn s [.round .again] s' ∧
      s'.Counters valid 0 read write total back false := by
  have hsub : subU32 bufSize s.writePos < sizeToReadEverytime := by
    rw [h.writePos]
    unfold subU32 bufSize sizeToReadEverytime at *
    omega
  have hwrap : s.wrap = { s with endPos := s.writePos, writePos := 0 } := if_pos hsub
  have hround : s.round .again =
      some { s with endPos := s.writePos, writePos := 0, downloading := false } := by
    unfold round
    dsimp only
    rw [hwrap]
    split_ifs <;> rfl
  exact ⟨_,(Reaches.nil _).cons h.downloading hround,
    { h with writePos := rfl, endPos := h.writePos, downloading := rfl }⟩

end UdpStream

/-- 20 MiB are received and all but the last byte read. Then the writer fills the buffer up to that
byte in one call and starts over once more; `UdpStreamTell` reports that everything received has
been returned. -/
theorem udp_ring_loses_end :
    ∃ actions s, Reaches UdpStream.step UdpStream.Turn (.create fun _ => 0) actions s ∧
      s.received.length = 2*bufSize-1 ∧ s.returned.length = bufSize-1 ∧
      s.tell = s.received.length ∧ ¬s.Sound := by
  have h₀ : (UdpStream.create fun _ => 0).Counters 0 0 0 0 0 0 false :=
    ⟨rfl,rfl,rfl,rfl,rfl,rfl,rfl,rfl,rfl⟩
  obtain ⟨s₁,r₁,h₁⟩ := h₀.lock (by decide)
  obtain ⟨s₂,r₂,h₂⟩ := h₁.fill 320 (by decide) (by decide) (by decide) (by decide)
  obtain ⟨s₃,r₃,h₃⟩ := h₂.startOver (by decide) (by decide)
  obtain ⟨s₄,r₄,h₄⟩ := h₃.take (bufSize-2*sizeToReadEverytime) (by decide) (by decide)
    (by decide) (by decide) (by decide) (by decide)
  obtain ⟨s₅,r₅,h₅⟩ := h₄.take (2*sizeToReadEverytime-1) (by decide) (by decide)
    (by decide) (by decide) (by decide) (by decide)
  -- one byte is left, before `endPos`
  obtain ⟨s₆,r₆,h₆⟩ := h₅.lock (by decide)
  obtain ⟨s₇,r₇,h₇⟩ := h₆.fill 318 (by decide) (by decide) (by decide) (by decide)
  obtain ⟨s₈,r₈,h₈⟩ := h₇.data (sizeToReadEverytime-1) (by decide) (by decide) (by decide)
    (by decide) (by decide) (by decide)
  obtain ⟨s₉,r₉,h₉⟩ := h₈.data sizeToReadEverytime (by decide) (by decide) (by decide)
    (by decide) (by decide) (by decide)
  obtain ⟨s,r,h⟩ := h₉.startOver (by decide) (by decide)
  have htell : s.tell = s.received.length := by
    rw [UdpStream.tell,h.endPos,h.readPos,h.writePos,h.accumulatedDownload,h.received]
    decide
  refine ⟨_,s,r₁.append <| r₂.append <| r₃.append <| r₄.append <| r₅.append <| r₆.append <|
    r₇.append <| r₈.append <| r₉.append r,?_,?_,htell,?_⟩
  · rw [h.received]
    decide
  · rw [h.returned]
    decide
  · intro hsound
    have hboth := hsound.tell.symm.trans htell
    rw [h.received,h.returned] at hboth
    exact absurd hboth (by decide)

end TinaPackage.Udp
