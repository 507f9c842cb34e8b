import TinaPackage.StreamManagerModel

/-! Runs of the stream manager: it is a queue as long as the reserve of read frames is at least
one entry. -/
namespace TinaPackage.Playback
open Function List Option

variable {nMaxBufferSize nMaxFrameNum : ℤ} {sm : StreamManager}

theorem pos_of_create (h : streamManagerCreate nMaxBufferSize nMaxFrameNum = some sm) :
    0 < nMaxFrameNum := by
  unfold streamManagerCreate at h
  split at h
  · cases h
  · next hpos =>
    by_contra hneg
    refine hpos (Int.mul_nonpos_of_nonpos_of_nonneg ?_ (Int.natCast_nonneg _))
    exact Int.sign_nonpos_iff.mpr (by omega)

structure Positions (p : StreamFifo) : Prop where
  max_lt : p.nMaxFrameNum < 2^31
  read_lt : p.nReadPos < p.nMaxFrameNum
  write_lt : p.nWritePos < p.nMaxFrameNum

section Positions
variable {p : StreamFifo} (h : Positions p)
include h

theorem frameCount_lt : frameCount p < p.nMaxFrameNum :=
  Nat.mod_lt _ (by have := h.read_lt; omega)

theorem difference_fits : checkedInt ((p.nWritePos : ℤ)-p.nReadPos) =
    some ((p.nWritePos : ℤ)-p.nReadPos) := by
  have := h.max_lt
  have := h.read_lt
  have := h.write_lt
  apply checkedInt_of_fits
  unfold FitsInt intMax
  omega

theorem validFrameNum_eq
    (hfits : FitsInt ((p.nWritePos : ℤ)-p.nReadPos+p.nMaxFrameNum)) :
    validFrameNum p = some (frameCount p : ℤ) := by
  have hsum : (p.nWritePos : ℤ)-p.nReadPos+p.nMaxFrameNum =
      ((p.nWritePos+p.nMaxFrameNum-p.nReadPos : ℕ) : ℤ) := by
    have := h.read_lt
    omega
  rw [validFrameNum,difference_fits h,bind_some,checkedInt_of_fits hfits,
    map_some,hsum,← Int.ofNat_tmod,frameCount]

theorem validFrameNum_eq_none
    (hfits : ¬FitsInt ((p.nWritePos : ℤ)-p.nReadPos+p.nMaxFrameNum)) :
    validFrameNum p = none := by
  rw [validFrameNum,difference_fits h,bind_some,checkedInt_of_not_fits hfits,map_none]

theorem invalidFrameNumTooSmall_eq
    (hfits : FitsInt ((p.nWritePos : ℤ)-p.nReadPos+p.nMaxFrameNum)) :
    invalidFrameNumTooSmall p =
      some (decide ((p.nMaxFrameNum : ℤ)-frameCount p ≤ preserveFrameNum p.nMaxFrameNum)) := by
  rw [invalidFrameNumTooSmall,validFrameNum_eq h hfits,map_some]

theorem invalidFrameNumTooSmall_eq_none
    (hfits : ¬FitsInt ((p.nWritePos : ℤ)-p.nReadPos+p.nMaxFrameNum)) :
    invalidFrameNumTooSmall p = none := by
  rw [invalidFrameNumTooSmall,validFrameNum_eq_none h hfits,map_none]

end Positions

/-- Every buffer that the manager points to is a live block of its own. -/
structure Owned (live : List Block) (n : ℕ) (frames : ℕ → StreamFrame) (pMem : Option ℕ)
    (nMemSize : ℤ) : Prop where
  apart : live.Pairwise Block.Apart
  frame : ∀ i < n, ∀ a, (frames i).pData = some a →
    ∃ b ∈ live, b.addr = a ∧ (frames i).nLength.toNat ≤ b.size
  mem : ∀ a, pMem = some a → ∃ b ∈ live, b.addr = a ∧ nMemSize.toNat ≤ b.size
  frame_ne : ∀ i < n, ∀ j < n, i ≠ j → ∀ a, (frames i).pData = some a → (frames j).pData ≠ some a
  mem_ne : ∀ i < n, ∀ a, (frames i).pData = some a → pMem ≠ some a

namespace Owned
variable {live : List Block} {n : ℕ} {frames : ℕ → StreamFrame} {pMem : Option ℕ} {nMemSize : ℤ}

theorem apart_frame (h : Owned live n frames pMem nMemSize) {i a b : ℕ} (hi : i < n)
    (ha : pMem = some a) (hb : (frames i).pData = some b) :
    Block.Apart ⟨a,nMemSize.toNat⟩ ⟨b,(frames i).nLength.toNat⟩ := by
  obtain ⟨x,hx,rfl,hxsize⟩ := h.mem a ha
  obtain ⟨y,hy,rfl,hysize⟩ := h.frame i hi b hb
  have hne : x.addr ≠ y.addr := by
    intro heq
    exact h.mem_ne i hi y.addr hb (by rw [ha,heq])
  exact (apart_of_addr_ne h.apart hx hy hne).mono hxsize hysize

theorem malloc (h : Owned live n frames none nMemSize) {pick a : ℕ} {size : ℤ}
    (ha : malloc live pick (sizeT size) = some a) :
    Owned (⟨a,sizeT size⟩ :: live) n frames (some a) size where
  apart := pairwise_cons.mpr ⟨malloc_apart ha,h.apart⟩
  frame i hi b hb := by
    obtain ⟨y,hy,hrest⟩ := h.frame i hi b hb
    exact ⟨y,mem_cons_of_mem _ hy,hrest⟩
  mem b hb := ⟨_,mem_cons_self,some_inj.mp hb,toNat_le_sizeT size⟩
  frame_ne := h.frame_ne
  mem_ne i hi b hb heq := by
    obtain ⟨y,hy,rfl,_⟩ := h.frame i hi b hb
    exact (malloc_apart ha y hy).addr_ne (some_inj.mp heq)

theorem add (h : Owned live n frames pMem nMemSize) {w : ℕ} (hw : w < n) {f : StreamFrame}
    (hdata : pMem = f.pData) (hlen : f.nLength ≤ nMemSize) :
    Owned (live.filter fun b => some b.addr ≠ (frames w).pData) n (update frames w f) none 0 where
  apart := h.apart.filter _
  frame i hi a ha := by
    by_cases hiw : i = w
    · subst hiw
      rw [update_self] at ha ⊢
      obtain ⟨b,hb,rfl,hsize⟩ := h.mem a (hdata.trans ha)
      refine ⟨b,mem_filter.mpr ⟨hb,decide_eq_true ?_⟩,rfl,?_⟩
      · intro heq
        exact h.mem_ne i hi b.addr heq.symm (hdata.trans ha)
      · exact le_trans (Int.toNat_le_toNat hlen) hsize
    · rw [update_of_ne hiw] at ha ⊢
      obtain ⟨b,hb,rfl,hsize⟩ := h.frame i hi a ha
      refine ⟨b,mem_filter.mpr ⟨hb,decide_eq_true ?_⟩,rfl,hsize⟩
      intro heq
      exact h.frame_ne i hi w hw hiw b.addr ha heq.symm
  mem := nofun
  frame_ne i hi j hj hij a ha hb := by
    by_cases hiw : i = w
    · subst hiw
      rw [update_self] at ha
      rw [update_of_ne (Ne.symm hij)] at hb
      exact h.mem_ne j hj a hb (hdata.trans ha)
    · rw [update_of_ne hiw] at ha
      by_cases hjw : j = w
      · subst hjw
        rw [update_self] at hb
        exact h.mem_ne i hi a ha (hdata.trans hb)
      · rw [update_of_ne hjw] at hb
        exact h.frame_ne i hi j hj hij a ha hb
  mem_ne := nofun

end Owned

/-- What lets the frame at `slot` be returned: nothing was stored since it was requested. -/
structure Requested (s : History) (slot : ℕ) : Prop where
  pos : 0 < s.delivered.length
  slot_eq : slot = (s.delivered.length-1) % s.fifo.nMaxFrameNum
  log : RingLog s.fifo.pFrames s.fifo.nMaxFrameNum 0 s.added (s.delivered.length-1)
  fits : FitsInt (s.process.sm.nValidDataSize+(s.fifo.pFrames slot).nLength)

/-- Frame number `i` is, as long as it is kept, in the entry `i % nMaxFrameNum`. -/
structure Good (s : History) : Prop where
  max_lt : s.fifo.nMaxFrameNum < 2^31
  log : RingLog s.fifo.pFrames s.fifo.nMaxFrameNum 0 s.added s.delivered.length
  front : s.delivered <+: s.added
  readPos : s.fifo.nReadPos = s.delivered.length % s.fifo.nMaxFrameNum
  writePos : s.fifo.nWritePos = s.added.length % s.fifo.nMaxFrameNum
  size : s.process.sm.nValidDataSize =
    ((s.added.drop s.delivered.length).map StreamFrame.nLength).sum
  sizeFits : FitsInt s.process.sm.nValidDataSize
  requested : ∀ slot, s.requested = some slot → Requested s slot
  lostBaby : s.process.sm.lostBaby = none
  owned : Owned s.process.live s.fifo.nMaxFrameNum s.fifo.pFrames s.process.sm.pMem
    s.process.sm.nMemSize

namespace Good
variable {s : History}

section
variable (h : Good s)
include h

theorem max_pos : 0 < s.fifo.nMaxFrameNum := by
  have := h.log.room
  have := h.log.taken_le
  omega

theorem positions : Positions s.fifo where
  max_lt := h.max_lt
  read_lt := by rw [h.readPos]; exact Nat.mod_lt _ h.max_pos
  write_lt := by rw [h.writePos]; exact Nat.mod_lt _ h.max_pos

theorem frameCount_eq : frameCount s.fifo = s.added.length-s.delivered.length := by
  have hle := h.log.taken_le
  have hroom := h.log.room
  refine ring_distance h.readPos ?_ (by omega)
  rw [h.writePos,Nat.add_sub_cancel' hle]

theorem undelivered_eq : undelivered s.fifo = s.added.drop s.delivered.length := by
  have hlive := h.log.live
  rw [zero_add] at hlive
  rw [undelivered,h.frameCount_eq,h.readPos,ringSlice_mod,hlive]

theorem drop_eq_of_front : s.delivered ++ s.added.drop s.delivered.length = s.added := by
  obtain ⟨rest,hrest⟩ := h.front
  rw [← hrest,drop_left]

theorem queue : Queue s where
  order := by rw [h.undelivered_eq,h.drop_eq_of_front]
  count := by
    have := h.log.taken_le
    rw [h.frameCount_eq]
    omega
  size := by rw [h.size,h.undelivered_eq]
  apart a ha f hf b hb := by
    obtain ⟨k,_,rfl⟩ := mem_map.mp hf
    exact h.owned.apart_frame (Nat.mod_lt _ h.max_pos) ha hb

theorem keep : Good { s with requested := none } :=
  { h with requested := nofun }

end

end Good

theorem good_start (hmax : nMaxFrameNum ≤ intMax)
    (h : streamManagerCreate nMaxBufferSize nMaxFrameNum = some sm) : Good (start sm) := by
  have hpos := pos_of_create h
  unfold intMax at hmax
  unfold streamManagerCreate at h
  split at h
  · cases h
  · cases h
    exact
      { max_lt := by simp only [start,History.fifo]; omega
        log := RingLog.empty _ (by simp only [start,History.fifo]; omega) 0 []
        front := nil_prefix
        readPos := (Nat.zero_mod _).symm
        writePos := (Nat.zero_mod _).symm
        size := rfl
        sizeFits := (by decide : FitsInt 0)
        requested := nofun
        lostBaby := rfl
        owned := ⟨List.Pairwise.nil,nofun, nofun, nofun, nofun⟩ }

section Steps
variable {s : History} (h : Good s)
  (hfits : FitsInt ((s.fifo.nWritePos : ℤ)-s.fifo.nReadPos+s.fifo.nMaxFrameNum))
include h hfits

theorem good_requestBuffer (pick : ℕ) (nRequireSize : ℤ) :
    ∃ s', streamStep s (.requestBuffer pick nRequireSize) = some s' ∧ Good s' := by
  have htoo := invalidFrameNumTooSmall_eq h.positions hfits
  simp only [streamStep,streamManagerRequestBuffer,htoo,map_some]
  refine ⟨_,rfl,?_⟩
  split
  · exact h.keep
  split
  · exact h.keep
  split
  · exact h.keep
  · next hmem =>
    rw [not_not] at hmem
    split
    · exact h.keep
    · next a ha =>
      have howned := h.owned
      rw [hmem] at howned
      exact { h with requested := nofun, owned := howned.malloc ha }

variable {frame : StreamFrame}

theorem not_tooSmall_of_accepts (hacc : Accepts s frame) :
    invalidFrameNumTooSmall s.process.sm.streamFifo = some false := by
  rw [show s.process.sm.streamFifo = s.fifo from rfl,invalidFrameNumTooSmall_eq h.positions hfits,
    decide_eq_false (by have := hacc.1; omega)]

def afterAdd (s : History) (frame : StreamFrame) : History :=
  { process :=
      { live := s.process.live.filter fun b =>
          some b.addr ≠ (s.fifo.pFrames s.fifo.nWritePos).pData
        sm := { s.process.sm with
          nValidDataSize := s.process.sm.nValidDataSize+frame.nLength
          streamFifo := { s.fifo with
            pFrames := update s.fifo.pFrames s.fifo.nWritePos frame
            nWritePos := (s.fifo.nWritePos+1) % s.fifo.nMaxFrameNum }
          pMem := none
          nMemSize := 0 } }
    added := s.added ++ [frame]
    delivered := s.delivered
    requested := none }

theorem addStream_of_accepts (hacc : Accepts s frame) :
    streamStep s (.addStream frame) =
      if FitsInt (s.process.sm.nValidDataSize+frame.nLength) then some (afterAdd s frame)
      else none := by
  have htoo := not_tooSmall_of_accepts h hfits hacc
  have hpass : ¬(s.process.sm.pMem ≠ frame.pData ∨ s.process.sm.nMemSize < frame.nLength) := by
    rw [not_or,not_not]
    exact ⟨hacc.2.1,by have := hacc.2.2; omega⟩
  have hfree := free_eq s.process.live (s.fifo.pFrames s.fifo.nWritePos).pData fun a ha => by
    obtain ⟨b,hb,haddr,_⟩ := h.owned.frame _ h.positions.write_lt a ha
    exact ⟨b,hb,haddr⟩
  simp only [streamStep,streamManagerAddStream,htoo,bind_some,Bool.false_eq_true,
    if_false,if_neg hpass,hfree,checkedInt]
  split
  · rfl
  · rfl

theorem addStream_of_not_accepts (hacc : ¬Accepts s frame) :
    streamStep s (.addStream frame) = some { s with requested := none } := by
  have htoo := invalidFrameNumTooSmall_eq h.positions hfits
  simp only [streamStep,streamManagerAddStream,htoo,bind_some]
  split
  · rfl
  · next hmany =>
    have hfail : s.process.sm.pMem ≠ frame.pData ∨ s.process.sm.nMemSize < frame.nLength := by
      by_contra hpass
      rw [not_or,not_not] at hpass
      refine hacc ⟨?_,hpass.1,by omega⟩
      exact not_le.mp fun hle => hmany (decide_eq_true hle)
    rw [if_pos hfail,h.lostBaby]
    split
    · next hnull =>
      rw [← hnull]
      rfl
    · rfl

omit hfits in
theorem good_afterAdd (hacc : Accepts s frame) (hroom : frameCount s.fifo+1 < s.fifo.nMaxFrameNum)
    (hsum : FitsInt (s.process.sm.nValidDataSize+frame.nLength)) : Good (afterAdd s frame) where
  __ := h
  log := by
    rw [h.frameCount_eq] at hroom
    have hpush := h.log.push frame (by omega)
    rw [zero_add,← h.writePos] at hpush
    exact hpush
  front := h.front.trans ( prefix_append _ _)
  writePos := by
    simp [afterAdd,h.writePos]
  size := by
    simp [afterAdd,drop_append_of_le_length h.log.taken_le,h.size]
  sizeFits := hsum
  requested := nofun
  owned := h.owned.add h.positions.write_lt hacc.2.1 hacc.2.2

def afterRequest (s : History) : History :=
  { s with
    process := { s.process with
      sm := { s.process.sm with
        nValidDataSize := s.process.sm.nValidDataSize-(s.fifo.pFrames s.fifo.nReadPos).nLength
        streamFifo := { s.fifo with
          nReadPos := (s.fifo.nReadPos+1) % s.fifo.nMaxFrameNum } } }
    delivered := s.delivered ++ [s.fifo.pFrames s.fifo.nReadPos]
    requested := some s.fifo.nReadPos }

theorem requestStream_empty (hcount : frameCount s.fifo = 0) :
    streamStep s .requestStream = some { s with requested := none } := by
  have hvalid := validFrameNum_eq h.positions hfits
  simp only [streamStep,streamManagerRequestStream,hvalid,hcount,bind_some]
  simp

theorem requestStream_of_frame (hcount : frameCount s.fifo ≠ 0) :
    streamStep s .requestStream =
      if FitsInt (s.process.sm.nValidDataSize-(s.fifo.pFrames s.fifo.nReadPos).nLength) then
        some (afterRequest s)
      else none := by
  have hvalid := validFrameNum_eq h.positions hfits
  simp only [streamStep,streamManagerRequestStream,hvalid,bind_some,Int.natCast_eq_zero,
    if_neg hcount,checkedInt]
  split
  · rfl
  · rfl

omit hfits in
theorem good_afterRequest (hcount : frameCount s.fifo ≠ 0)
    (hsum : FitsInt (s.process.sm.nValidDataSize-(s.fifo.pFrames s.fifo.nReadPos).nLength)) :
    Good (afterRequest s) := by
  have hlt : s.delivered.length < s.added.length := by
    rw [h.frameCount_eq] at hcount
    omega
  have hnext := h.log.drop_eq_cons hlt
  rw [zero_add,← h.readPos] at hnext
  have hlength : (afterRequest s).delivered.length = s.delivered.length+1 := length_append
  exact
    { max_lt := h.max_lt
      log := by
        rw [hlength]
        exact h.log.advance (k := 1) hlt
      front := by
        refine ⟨s.added.drop (s.delivered.length+1),?_⟩
        change s.delivered ++ [_] ++ _ = s.added
        rw [append_assoc,singleton_append,← hnext,h.drop_eq_of_front]
      readPos := by
        rw [hlength]
        change (s.fifo.nReadPos+1) % s.fifo.nMaxFrameNum = _
        rw [h.readPos,Nat.mod_add_mod]
        rfl
      writePos := h.writePos
      size := by
        rw [hlength]
        change s.process.sm.nValidDataSize-_ = ((s.added.drop _).map _).sum
        rw [h.size,hnext,map_cons,sum_cons]
        omega
      sizeFits := hsum
      requested := by
        intro slot hslot
        cases hslot
        refine ⟨by omega,?_,?_,?_⟩
        · rw [hlength,Nat.add_sub_cancel]
          exact h.readPos
        · rw [hlength,Nat.add_sub_cancel]
          exact h.log
        · change FitsInt (s.process.sm.nValidDataSize-(s.fifo.pFrames s.fifo.nReadPos).nLength +
            (s.fifo.pFrames s.fifo.nReadPos).nLength)
          rw [Int.sub_add_cancel]
          exact h.sizeFits
      lostBaby := h.lostBaby
      owned := h.owned }

def afterReturn (s : History) (slot : ℕ) : History :=
  { s with
    process := { s.process with
      sm := { s.process.sm with
        nValidDataSize := s.process.sm.nValidDataSize+(s.fifo.pFrames slot).nLength
        streamFifo := { s.fifo with nReadPos := slot } } }
    delivered := s.delivered.dropLast
    requested := none }

theorem returnStream_empty (hcount : frameCount s.fifo = 0) (slot : ℕ) :
    streamStep s (.returnStream slot) =
      some { s with delivered := s.delivered.dropLast, requested := none } := by
  have hvalid := validFrameNum_eq h.positions hfits
  simp only [streamStep,streamManagerReturnStream,hvalid,hcount,bind_some]
  simp

theorem returnStream_of_frame (hcount : frameCount s.fifo ≠ 0) {slot : ℕ}
    (hreq : Requested s slot) :
    streamStep s (.returnStream slot) = some (afterReturn s slot) := by
  have hvalid := validFrameNum_eq h.positions hfits
  have hpos := hreq.pos
  have hback : (if s.fifo.nReadPos = 0 then s.fifo.nMaxFrameNum-1 else s.fifo.nReadPos-1) =
      slot := by
    rw [hreq.slot_eq]
    refine wrap_pred ?_ h.max_pos
    rw [h.readPos,Nat.sub_add_cancel hpos]
  have hsum := checkedInt_of_fits hreq.fits
  simp only [streamStep,streamManagerReturnStream,hvalid,bind_some,Int.natCast_eq_zero,
    if_neg hcount,hback,ne_eq,not_true_eq_false,if_false,hsum,map_some,update_eq_self]
  rfl

omit hfits in
theorem good_afterReturn {slot : ℕ} (hreq : Requested s slot) : Good (afterReturn s slot) := by
  have hpos := hreq.pos
  have hle := h.log.taken_le
  have hlength : (afterReturn s slot).delivered.length = s.delivered.length-1 :=
    length_dropLast
  have hlast := hreq.log.drop_eq_cons (by omega)
  rw [zero_add,← hreq.slot_eq,Nat.sub_add_cancel hpos] at hlast
  exact
    { max_lt := h.max_lt
      log := by
        rw [hlength]
        exact hreq.log
      front := ( dropLast_prefix _).trans h.front
      readPos := by
        rw [hlength]
        exact hreq.slot_eq
      writePos := h.writePos
      size := by
        rw [hlength]
        change s.process.sm.nValidDataSize+_ = ((s.added.drop _).map _).sum
        rw [hlast,map_cons,sum_cons,h.size]
        omega
      sizeFits := hreq.fits
      requested := nofun
      lostBaby := h.lostBaby
      owned := h.owned }

end Steps

theorem good_step {s : History} {c : Call} (h : Good s) (husage : ReturnsRequested s c)
    (hpermitted : Permitted s c) : ∃ s', streamStep s c = some s' ∧ Good s' := by
  obtain ⟨hfits,hcall⟩ := hpermitted
  cases c with
  | requestBuffer pick nRequireSize => exact good_requestBuffer h hfits pick nRequireSize
  | addStream frame =>
    by_cases hacc : Accepts s frame
    · obtain ⟨hroom,hsum⟩ := hcall hacc
      exact ⟨_,by rw [addStream_of_accepts h hfits hacc,if_pos hsum],
        good_afterAdd h hacc hroom hsum⟩
    · exact ⟨_,addStream_of_not_accepts h hfits hacc,h.keep⟩
  | requestStream =>
    by_cases hcount : frameCount s.fifo = 0
    · exact ⟨_,requestStream_empty h hfits hcount,h.keep⟩
    · exact ⟨_,by rw [requestStream_of_frame h hfits hcount,if_pos (hcall hcount)],
        good_afterRequest h hcount (hcall hcount)⟩
  | returnStream slot =>
    have hreq := h.requested slot husage
    exact ⟨_,returnStream_of_frame h hfits hcall hreq,good_afterReturn h hreq⟩

theorem not_queue_of_not_permitted {s s' : History} {c : Call} (h : Good s)
    (husage : ReturnsRequested s c) (hnot : ¬Permitted s c) (hstep : streamStep s c = some s') :
    ¬Queue s' := by
  have hcountLt := frameCount_lt h.positions
  have hqueue := h.queue
  by_cases hfits : FitsInt ((s.fifo.nWritePos : ℤ)-s.fifo.nReadPos+s.fifo.nMaxFrameNum)
  · cases c with
    | requestBuffer pick nRequireSize => exact absurd ⟨hfits,trivial⟩ hnot
    | addStream frame =>
      have hcall : ¬(Accepts s frame → _) := fun hall => hnot ⟨hfits,hall⟩
      rw [Classical.not_imp] at hcall
      obtain ⟨hacc,hboth⟩ := hcall
      rw [addStream_of_accepts h hfits hacc] at hstep
      split at hstep
      · next hsum =>
        cases hstep
        -- The write position has caught up with the read position.
        have hfull : frameCount s.fifo+1 = s.fifo.nMaxFrameNum := by
          have := not_and.mp hboth |>.mt (not_not.mpr hsum)
          omega
        intro hq
        have hcount := hq.count
        have hbefore := hqueue.count
        have hempty : frameCount (afterAdd s frame).fifo = 0 := by
          have heq : s.added.length+1 = s.delivered.length+s.fifo.nMaxFrameNum := by omega
          simp [afterAdd,frameCount,h.writePos,heq,h.readPos]
        rw [hempty] at hcount
        simp only [afterAdd,length_append,length_singleton] at hcount
        omega
      · cases hstep
    | requestStream =>
      have hcall : ¬(frameCount s.fifo ≠ 0 → _) := fun hall => hnot ⟨hfits,hall⟩
      rw [Classical.not_imp] at hcall
      rw [requestStream_of_frame h hfits hcall.1,if_neg hcall.2] at hstep
      cases hstep
    | returnStream slot =>
      have hcount : frameCount s.fifo = 0 := by
        by_contra hne
        exact hnot ⟨hfits,hne⟩
      rw [returnStream_empty h hfits hcount] at hstep
      cases hstep
      intro hq
      have hpos := (h.requested slot husage).pos
      have hbefore := hqueue.count
      have hafter : s.added.length = s.delivered.dropLast.length+frameCount s.fifo := hq.count
      rw [length_dropLast] at hafter
      omega
  · have hvalid := validFrameNum_eq_none h.positions hfits
    have htoo := invalidFrameNumTooSmall_eq_none h.positions hfits
    cases c with
    | requestBuffer pick nRequireSize =>
      simp [streamStep,streamManagerRequestBuffer,htoo] at hstep
    | addStream frame => simp [streamStep,streamManagerAddStream,htoo] at hstep
    | requestStream => simp [streamStep,streamManagerRequestStream,hvalid] at hstep
    | returnStream slot => simp [streamStep,streamManagerReturnStream,hvalid] at hstep

/-- For every size of the array and of the buffers that is accepted and every run in which frames
are returned right after they were requested: the manager is a queue in every state if and only if
every call is permitted. -/
theorem stream_manager_is_queue_iff (nMaxBufferSize nMaxFrameNum : ℤ) (sm : StreamManager)
    (hmax : nMaxFrameNum ≤ intMax)
    (hcreate : streamManagerCreate nMaxBufferSize nMaxFrameNum = some sm) (calls : List Call)
    (husage : Guarded streamStep ReturnsRequested (start sm) calls) :
    Always streamStep Queue (start sm) calls ↔ Guarded streamStep Permitted (start sm) calls :=
  always_iff_guarded Good (fun _ => Good.queue) (fun _ _ => good_step)
    (fun _ _ _ => not_queue_of_not_permitted) calls (start sm) (good_start hmax hcreate) husage

def callsWithReturn : List Call :=
  [.requestBuffer 100 5,.addStream ⟨some 100,3,1,0,0⟩,.requestBuffer 200 5,
    .addStream ⟨some 200,5,2,0,0⟩,.requestStream,.returnStream 0,.requestStream]

theorem create_ten_entries : streamManagerCreate 1000 10 =
    some ⟨1000,0,⟨fun _ => ⟨none,0,0,0,0⟩,10,0,0⟩,none,0,none⟩ := by
  rfl

theorem stream_manager_is_queue_of_ten_entries :
    ∃ sm, streamManagerCreate 1000 10 = some sm ∧
      Always streamStep Queue (start sm) callsWithReturn := by
  refine ⟨_,create_ten_entries,?_⟩
  rw [stream_manager_is_queue_iff 1000 10 _ (by decide) create_ten_entries _ (by decide +kernel)]
  decide +kernel

/-- Two entries and two frames: the positions are equal again, and none of the frames can be
requested. -/
theorem two_frames_lost_in_two_entries :
    ((streamManagerCreate 1000 2).bind fun sm =>
      (runSteps streamStep (start sm)
        [.requestBuffer 100 5,.addStream ⟨some 100,5,1,0,0⟩,.requestBuffer 200 5,
          .addStream ⟨some 200,5,2,0,0⟩,.requestStream]).map fun s =>
        (s.added.length, s.delivered, frameCount s.fifo)) = some (2, [], 0) := by
  decide +kernel

end TinaPackage.Playback
