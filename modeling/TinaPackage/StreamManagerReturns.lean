import TinaPackage.StreamManagerRuns

/-! Giving a frame back to the stream manager (`playback/streamManager.c`), in every state that its
calls reach, those that clear and rewind it among them. -/
namespace TinaPackage.Playback
open Function List Option

def streamManagerReset (p : Process) : Option Process :=
  let fifo := p.sm.streamFifo
  ((range fifo.nMaxFrameNum).foldlM (fun live i => free live (fifo.pFrames i).pData)
    p.live).map fun live =>
      { live
        sm := { p.sm with
          nValidDataSize := 0
          streamFifo := ⟨fun _ => ⟨none,0,0,0,0⟩,fifo.nMaxFrameNum,0,0⟩
          pMem := none
          nMemSize := if p.sm.pMem = none then p.sm.nMemSize else 0
          lostBaby := if p.sm.pMem = none then p.sm.lostBaby else p.sm.pMem } }

/-- `abs` of a 64-bit difference, which it takes as an `int`, as a `uint64_t`. -/
def absDiff (curTime nPts : ℤ) : ℕ :=
  if int32 (curTime-nPts) = -2^31 then 2^64-2^31 else (int32 (curTime-nPts)).natAbs

/-- The entry that `StreamManagerRewind` finds, with `minDiff`. -/
def findNearest (fifo : StreamFifo) (curTime : ℤ) : ℕ × ℕ :=
  (range fifo.nMaxFrameNum).foldl
    (fun found n =>
      if absDiff curTime (fifo.pFrames n).nPts < found.2 then
        (n, absDiff curTime (fifo.pFrames n).nPts)
      else found)
    (0, 2^64-1)

def streamManagerRewind (p : Process) (curTime : ℤ) : Option Process :=
  let fifo := p.sm.streamFifo
  let find := (findNearest fifo curTime).1
  if find = fifo.nReadPos ∨ (fifo.pFrames find).pData = none then some p
  else
    -- the entries from `find` up to the write position
    ((range (frameCount { fifo with nReadPos := find })).foldlM
      (fun size k => checkedInt (size+(fifo.pFrames ((find+k) % fifo.nMaxFrameNum)).nLength))
      0).map fun size =>
        { p with sm := { p.sm with
            nValidDataSize := size
            streamFifo := { fifo with nReadPos := find } } }

inductive ManagerCall where
  | stream (c : Call)
  | reset
  | rewind (curTime : ℤ)

def managerStep (p : Process) : ManagerCall → Option Process
  | .stream (.requestBuffer pick nRequireSize) =>
    (streamManagerRequestBuffer p pick nRequireSize).map Prod.snd
  | .stream (.addStream frame) => (streamManagerAddStream p frame).map Prod.snd
  | .stream .requestStream => (streamManagerRequestStream p).map Prod.snd
  | .stream (.returnStream slot) => (streamManagerReturnStream p slot).map Prod.snd
  | .reset => streamManagerReset p
  | .rewind curTime => streamManagerRewind p curTime

/-- The positions are in the array, and the size of the data is an `int`. -/
structure InRange (p : Process) : Prop where
  positions : Positions p.sm.streamFifo
  size : FitsInt p.sm.nValidDataSize

theorem findNearest_lt {fifo : StreamFifo} (hpos : 0 < fifo.nMaxFrameNum) (curTime : ℤ) :
    (findNearest fifo curTime).1 < fifo.nMaxFrameNum := by
  refine foldlRecOn (motive := fun r : ℕ × ℕ => r.1 < fifo.nMaxFrameNum) _ _ hpos ?_
  intro found hfound n hn
  split
  · exact mem_range.mp hn
  · exact hfound

theorem fits_of_foldlM {f : ℤ → ℕ → ℤ} {ns : List ℕ} {size size' : ℤ} (hsize : FitsInt size)
    (h : ns.foldlM (fun size n => checkedInt (f size n)) size = some size') : FitsInt size' := by
  induction ns generalizing size with
  | nil => exact some_inj.mp h ▸ hsize
  | cons n ns ih =>
    obtain ⟨next,hnext,hrest⟩ := bind_eq_some_iff.mp h
    exact ih (checkedInt_eq_some hnext).1 hrest

theorem inRange_step {p p' : Process} {c : ManagerCall} (h : InRange p)
    (hstep : managerStep p c = some p') : InRange p' := by
  obtain ⟨hmax,hread,hwrite⟩ := h.positions
  have hpos : 0 < p.sm.streamFifo.nMaxFrameNum := by omega
  cases c with
  | stream c =>
    cases c with
    | requestBuffer pick nRequireSize =>
      obtain ⟨r,hr,rfl⟩ := map_eq_some_iff.mp hstep
      obtain ⟨tooSmall,-,rfl⟩ := map_eq_some_iff.mp hr
      repeat' split
      all_goals exact ⟨h.positions,h.size⟩
    | addStream frame =>
      obtain ⟨r,hr,rfl⟩ := map_eq_some_iff.mp hstep
      obtain ⟨tooSmall,-,hr⟩ := bind_eq_some_iff.mp hr
      split_ifs at hr
      · cases hr
        exact h
      · obtain ⟨live,-,rfl⟩ := map_eq_some_iff.mp hr
        exact ⟨h.positions,h.size⟩
      · cases hr
        exact h
      · obtain ⟨live,-,hr⟩ := bind_eq_some_iff.mp hr
        obtain ⟨size,hfits,rfl⟩ := map_eq_some_iff.mp hr
        exact ⟨⟨hmax,hread,Nat.mod_lt _ hpos⟩,(checkedInt_eq_some hfits).1⟩
    | requestStream =>
      obtain ⟨r,hr,rfl⟩ := map_eq_some_iff.mp hstep
      obtain ⟨valid,-,hr⟩ := bind_eq_some_iff.mp hr
      split_ifs at hr
      · cases hr
        exact h
      · obtain ⟨size,hfits,rfl⟩ := map_eq_some_iff.mp hr
        exact ⟨⟨hmax,Nat.mod_lt _ hpos,hwrite⟩,(checkedInt_eq_some hfits).1⟩
    | returnStream slot =>
      obtain ⟨r,hr,rfl⟩ := map_eq_some_iff.mp hstep
      obtain ⟨valid,-,hr⟩ := bind_eq_some_iff.mp hr
      dsimp only at hr
      split_ifs at hr
      · cases hr
        exact h
      all_goals
        obtain ⟨size,hfits,rfl⟩ := map_eq_some_iff.mp hr
        exact ⟨⟨hmax,by dsimp only; omega,hwrite⟩,(checkedInt_eq_some hfits).1⟩
  | reset =>
    obtain ⟨live,-,rfl⟩ := map_eq_some_iff.mp hstep
    exact ⟨⟨hmax,hpos,hpos⟩,(by decide : FitsInt 0)⟩
  | rewind curTime =>
    rw [managerStep,streamManagerRewind] at hstep
    split at hstep
    · cases hstep
      exact h
    · obtain ⟨size,hsum,rfl⟩ := map_eq_some_iff.mp hstep
      exact ⟨⟨hmax,findNearest_lt hpos curTime,hwrite⟩,fits_of_foldlM (by decide) hsum⟩

theorem inRange_create {nMaxBufferSize nMaxFrameNum : ℤ} {sm : StreamManager}
    (hmax : nMaxFrameNum ≤ intMax)
    (h : streamManagerCreate nMaxBufferSize nMaxFrameNum = some sm) : InRange ⟨[],sm⟩ :=
  have hgood := good_start hmax h
  ⟨hgood.positions,hgood.sizeFits⟩

def StreamFifo.next (p : StreamFifo) : StreamFifo :=
  { p with nReadPos := (p.nReadPos+1) % p.nMaxFrameNum }

section Next
variable {p : StreamFifo} (h : Positions p)
include h

theorem positions_next : Positions p.next :=
  ⟨h.max_lt,Nat.mod_lt _ (by have := h.read_lt; omega),h.write_lt⟩

theorem frameCount_next (hcount : frameCount p ≠ 0) : frameCount p.next = frameCount p-1 := by
  have hread := h.read_lt
  have hlt := frameCount_lt h
  refine ring_distance rfl ?_ (show frameCount p-1 < p.nMaxFrameNum by omega)
  change p.nWritePos = _ % p.nMaxFrameNum
  rw [Nat.add_assoc,Nat.add_sub_cancel' (by omega),frameCount,Nat.add_mod_mod,
    Nat.add_sub_cancel' (by omega),Nat.add_mod_right,Nat.mod_eq_of_lt h.write_lt]

theorem back_next :
    (if p.next.nReadPos = 0 then p.nMaxFrameNum-1 else p.next.nReadPos-1) = p.nReadPos := by
  have hread := h.read_lt
  exact (wrap_pred rfl (by omega)).trans (Nat.mod_eq_of_lt hread)

theorem frameCount_ne_zero {valid : ℤ} (hvalid : validFrameNum p = some valid) (hne : valid ≠ 0) :
    frameCount p ≠ 0 := by
  by_cases hfits : FitsInt ((p.nWritePos : ℤ)-p.nReadPos+p.nMaxFrameNum)
  · rw [validFrameNum_eq h hfits] at hvalid
    cases hvalid
    omega
  · rw [validFrameNum_eq_none h hfits] at hvalid
    cases hvalid

end Next

/-- In every state that the manager reaches: giving back the frame that was just requested succeeds
and restores the state if and only if the frame was not the only one, and the positions behind it
can be compared. -/
theorem return_restores_iff {nMaxBufferSize nMaxFrameNum : ℤ} {sm : StreamManager}
    (hmax : nMaxFrameNum ≤ intMax)
    (hcreate : streamManagerCreate nMaxBufferSize nMaxFrameNum = some sm)
    (calls : List ManagerCall) {p p' : Process} {slot : ℕ}
    (hrun : runSteps managerStep ⟨[],sm⟩ calls = some p)
    (hreq : streamManagerRequestStream p = some (some slot, p')) :
    streamManagerReturnStream p' slot = some (0, p) ↔ frameCount p.sm.streamFifo ≠ 1 ∧
      FitsInt (p.sm.streamFifo.nWritePos-p.sm.streamFifo.next.nReadPos +
        p.sm.streamFifo.nMaxFrameNum) := by
  obtain ⟨hin,hsize⟩ := runSteps_preserves InRange (fun _ _ _ => inRange_step) calls _ p
    (inRange_create hmax hcreate) hrun
  obtain ⟨live,_,total,fifo,_⟩ := p
  dsimp only [streamManagerRequestStream] at hreq hin hsize ⊢
  obtain ⟨valid,hvalid,hreq⟩ := bind_eq_some_iff.mp hreq
  split at hreq
  · cases hreq
  · next hne =>
    obtain ⟨size,hsub,heq⟩ := map_eq_some_iff.mp hreq
    cases heq
    have hcount := frameCount_ne_zero hin hvalid hne
    have hsum : checkedInt (size+(fifo.pFrames fifo.nReadPos).nLength) = some total := by
      rw [← (checkedInt_eq_some hsub).2,Int.sub_add_cancel,checkedInt_of_fits hsize]
    change streamManagerReturnStream ⟨live,_,size,fifo.next,_,_,_⟩ _ = _ ↔ _
    by_cases hfits : FitsInt ((fifo.nWritePos : ℤ)-fifo.next.nReadPos+fifo.nMaxFrameNum)
    · have hvalid' := validFrameNum_eq (positions_next hin) hfits
      rw [frameCount_next hin hcount] at hvalid'
      have hback := back_next hin
      simp only [streamManagerReturnStream,hvalid',bind_some,hfits,and_true]
      split
      · next hlast =>
        exact iff_of_false (by simp) (by omega)
      · next hmore =>
        refine iff_of_true ?_ (by omega)
        simp only [StreamFifo.next] at hback ⊢
        simp only [hback,ne_eq,not_true_eq_false,if_false,hsum,map_some,update_eq_self]
    · have hvalid' := validFrameNum_eq_none (positions_next hin) hfits
      simp [streamManagerReturnStream,hvalid',hfits]

/-- Two frames, of which the first is requested and returned. -/
theorem return_restores_first_of_two :
    ∃ p p' : Process, frameCount p.sm.streamFifo = 2 ∧
      streamManagerRequestStream p = some (some 0, p') ∧
        streamManagerReturnStream p' 0 = some (0, p) :=
  ⟨_,_,rfl,rfl,(return_restores_iff (by decide) create_ten_entries
    ((callsWithReturn.take 4).map .stream) rfl rfl).mpr (by decide)⟩

/-- The only frame cannot be returned. -/
theorem only_frame_not_returned :
    ((streamManagerCreate 1000 10).bind fun sm =>
      (runSteps managerStep ⟨[],sm⟩ ((callsWithReturn.take 2).map .stream)).bind fun p =>
        (streamManagerRequestStream p).bind fun r =>
          (streamManagerReturnStream r.2 0).map fun r' => (r.1, r'.1)) = some (some 0, -1) := by
  decide +kernel

end TinaPackage.Playback
