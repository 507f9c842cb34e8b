import TinaPackage.VdecoderBytes

/-! The layout of the stream buffer: unflushed frames, the frame being submitted
and the granted room follow each other around the buffer. -/
namespace TinaPackage.StreamBuffer

def allBytes (rs : List FrameRecord) : List UInt8 := rs.flatMap FrameRecord.bytes

@[simp] theorem allBytes_cons (r : FrameRecord) (rs : List FrameRecord) :
    allBytes (r :: rs) = r.bytes ++ allBytes rs := rfl

@[simp] theorem allBytes_concat (rs : List FrameRecord) (r : FrameRecord) :
    allBytes (rs ++ [r]) = allBytes rs ++ r.bytes := by
  simp [allBytes]

/-- The frames lie one behind the other from ring position `o` on, each where its
first part was written and as long as its parts together. -/
def Laid (base : ℤ) (n : ℕ) : ℕ → List VideoStreamDataInfo → List FrameRecord → Prop
  | _, [], [] => True
  | o, x :: xs, r :: rs => x.pData = base+(o % n : ℕ) ∧ r.pFirst = x.pData ∧
      x.nLength = r.bytes.length ∧ Laid base n (o+r.bytes.length) xs rs
  | _, _, _ => False

section Laid
variable {base : ℤ} {n : ℕ} {o : ℕ} {xs : List VideoStreamDataInfo} {rs : List FrameRecord}

theorem Laid.concat (h : Laid base n o xs rs) {x : VideoStreamDataInfo} {r : FrameRecord}
    (hx : x.pData = base+((o+(allBytes rs).length) % n : ℕ)) (hr : r.pFirst = x.pData)
    (hlen : x.nLength = r.bytes.length) : Laid base n o (xs ++ [x]) (rs ++ [r]) := by
  induction xs generalizing o rs with
  | nil =>
    cases rs with
    | nil => exact ⟨hx,hr,hlen,trivial⟩
    | cons r' rs => exact absurd h id
  | cons y ys ih =>
    cases rs with
    | nil => exact absurd h id
    | cons r' rs =>
      refine ⟨h.1,h.2.1,h.2.2.1,ih h.2.2.2 ?_⟩
      rw [hx,allBytes_cons,List.length_append,Nat.add_assoc]

theorem Laid.dataSize {o : ℕ} {xs : List VideoStreamDataInfo} {rs : List FrameRecord}
    (h : Laid base n o xs rs) : dataSize xs = (allBytes rs).length := by
  induction xs generalizing o rs with
  | nil =>
    cases rs with
    | nil => rfl
    | cons r rs => exact absurd h id
  | cons x xs ih =>
    cases rs with
    | nil => exact absurd h id
    | cons r rs =>
      rw [dataSize_cons,h.2.2.1,ih h.2.2.2,allBytes_cons,List.length_append]
      push_cast
      rfl

theorem Laid.place (h : Laid base n o xs rs) {x : VideoStreamDataInfo} (hx : x ∈ xs) :
    ∃ d, x.pData = base+((o+d) % n : ℕ) ∧ d+x.nLength ≤ (allBytes rs).length := by
  induction xs generalizing o rs with
  | nil => exact absurd hx List.not_mem_nil
  | cons y ys ih =>
    cases rs with
    | nil => exact absurd h id
    | cons r rs =>
      rcases List.mem_cons.mp hx with heq | hmem
      · subst heq
        refine ⟨0,h.1,?_⟩
        rw [h.2.2.1,allBytes_cons,List.length_append]
        omega
      · obtain ⟨d,hd,hle⟩ := ih h.2.2.2 hmem
        refine ⟨r.bytes.length+d,?_,?_⟩
        · rw [hd,Nat.add_assoc]
        · rw [allBytes_cons,List.length_append]
          omega

theorem Laid.forall₂ {cell : ℕ → UInt8} (h : Laid base n o xs rs)
    (hb : ringSlice cell n o (allBytes rs).length = allBytes rs) :
    List.Forall₂ (fun x r => x.pData = r.pFirst ∧ x.nLength = r.bytes.length ∧
      ringSlice cell n (x.pData-base).toNat x.nLength.toNat = r.bytes) xs rs := by
  induction xs generalizing o rs with
  | nil =>
    cases rs with
    | nil => exact .nil
    | cons r rs => exact absurd h id
  | cons x xs ih =>
    cases rs with
    | nil => exact absurd h id
    | cons r rs =>
      obtain ⟨hx,hr,hlen,hrest⟩ := h
      rw [allBytes_cons,List.length_append,ringSlice_add] at hb
      obtain ⟨hfirst,htail⟩ := List.append_inj hb (by simp)
      refine .cons ⟨hr.symm,hlen,?_⟩ (ih hrest htail)
      have hoff : (x.pData-base).toNat = o % n := by
        rw [hx]
        omega
      have hn : x.nLength.toNat = r.bytes.length := by
        rw [hlen]
        rfl
      rw [hoff,hn,ringSlice_mod]
      exact hfirst

end Laid

structure GrantAt (s : Sbm) (g : StreamGrant) (o : ℕ) : Prop where
  segment : 0 < g.bufSize ∧ insideBuffer s g.pBuf g.bufSize
  ringSegment : g.ringBufSize = 0 ∨ 0 < g.ringBufSize ∧ insideBuffer s g.pRingBuf g.ringBufSize
  address : ∀ k : ℕ, k < g.size →
    g.address k = s.pStreamBuffer+((o+k) % s.nStreamBufferSize.toNat : ℕ)
  start : g.pBuf = s.pStreamBuffer+(o % s.nStreamBufferSize.toNat : ℕ)
  slot : s.frameFifo.nValidFrameNum < s.frameFifo.nMaxFrameNum

/-- The layout invariant, with the ring position `o` of the oldest frame. -/
structure LaidOut (w : StreamWorld) (held unread : List VideoStreamDataInfo) (o : ℕ) : Prop where
  queue : Represents w.ctx.pSbm held unread
  pointers : w.held = framePointers w.ctx.pSbm held.length
  base_pos : 0 < w.ctx.pSbm.pStreamBuffer
  size_pos : 0 < w.ctx.pSbm.nStreamBufferSize
  bufferEnd : w.ctx.pSbm.pStreamBufferEnd = w.ctx.pSbm.pStreamBuffer+w.ctx.pSbm.nStreamBufferSize-1
  laid : Laid w.ctx.pSbm.pStreamBuffer w.ctx.pSbm.nStreamBufferSize.toNat o (held ++ unread)
    w.submitted
  writeAddr : w.ctx.pSbm.pWriteAddr = w.ctx.pSbm.pStreamBuffer +
    ((o+(allBytes w.submitted).length) % w.ctx.pSbm.nStreamBufferSize.toNat : ℕ)
  filled : w.ctx.partialStreamDataInfo.nLength = w.current.bytes.length
  filledAddr : w.inFrame = true → w.ctx.partialStreamDataInfo.pData = w.ctx.pSbm.pWriteAddr ∧
    w.current.pFirst = w.ctx.pSbm.pWriteAddr
  idle : w.inFrame = false → w.current.bytes = []
  bytes : ringSlice (fun k => w.mem (w.ctx.pSbm.pStreamBuffer+k))
    w.ctx.pSbm.nStreamBufferSize.toNat o ((allBytes w.submitted).length+w.current.bytes.length) =
    allBytes w.submitted ++ w.current.bytes
  fits : ((allBytes w.submitted).length+w.current.bytes.length : ℤ) ≤ w.ctx.pSbm.nStreamBufferSize
  room : ∀ g ∈ w.grant, GrantAt w.ctx.pSbm g
      (o+((allBytes w.submitted).length+w.current.bytes.length)) ∧
    g.size+((allBytes w.submitted).length+w.current.bytes.length)+64 ≤ w.ctx.pSbm.nStreamBufferSize

end TinaPackage.StreamBuffer
