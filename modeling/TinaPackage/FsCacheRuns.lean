import TinaPackage.FsCacheProtocol
import TinaPackage.SpillCache

/-! Every interleaving of the producer and the thread. The copy of a pointer that a party has read
may be old, but the other party only moves its pointer forward, so that what was free or filled
when the copy was made still is. -/
namespace TinaPackage.FsWriter
open List Nat Option

variable {n : ℕ}

section Pointers
variable {off t len rd wr : ℕ} (hrd : rd = (off+t) % n) (hwr : wr = (off+len) % n)
  (hle : t ≤ len) (hroom : len < t+n)
include hrd hwr hle hroom

theorem pointer_cases : rd+(len-t) < n ∧ wr = rd+(len-t) ∨ n ≤ rd+(len-t) ∧ wr+n = rd+(len-t) := by
  apply ring_ahead_cases hrd _ (by omega)
  rw [hwr]
  congr 1
  omega

theorem freeSize_eq : freeSize n rd wr = n-1-(len-t) := by
  unfold freeSize freeSection2
  rcases pointer_cases hrd hwr hle hroom with ⟨hin,hw⟩ | ⟨hout,hw⟩
  · rw [if_pos (by omega)]
    split
    · omega
    · omega
  · rw [if_neg (by omega)]
    omega

theorem copyIn_eq (mem : ℕ → UInt8) {buf : List UInt8} (hfits : buf.length ≤ freeSize n rd wr) :
    copyIn n mem rd wr buf = (storeRing mem n wr buf, (off+len+buf.length) % n) := by
  have hlt : rd < n := by rw [hrd]; exact mod_lt _ (by omega)
  have hnext : (off+len+buf.length) % n = (wr+buf.length) % n := by
    rw [hwr,mod_add_mod]
  rw [hnext]
  unfold freeSize at hfits
  unfold copyIn
  rcases pointer_cases hrd hwr hle hroom with ⟨hin,hw⟩ | ⟨hout,hw⟩
  · rw [if_pos (by omega)] at hfits ⊢
    unfold freeSection2 at hfits ⊢
    by_cases h0 : 0 < rd
    · simp only [if_pos h0] at hfits ⊢
      split
      · rw [storeRing_of_le (by omega),wrap_at_end (by omega)]
      · -- the copy goes on at the beginning
        have hmod : (wr+buf.length) % n = buf.length-(n-wr) := by
          rw [mod_eq_sub_mod (by omega),mod_eq_of_lt (by omega)]
          omega
        rw [hmod]
        rfl
    · simp only [if_neg h0] at hfits ⊢
      rw [if_pos (by omega),storeRing_of_le (by omega),wrap_at_end (by omega)]
  · rw [if_neg (by omega)] at hfits ⊢
    rw [storeRing_of_le (by omega),mod_eq_of_lt (by omega)]

theorem loopChunk_from {chunk : Chunk} (h : loopChunk n rd wr = some chunk) :
    chunk.start = rd ∧ rd+chunk.len ≤ n ∧ chunk.next = (rd+chunk.len) % n ∧ chunk.len ≤ len-t := by
  have hlt : rd < n := by rw [hrd]; exact mod_lt _ (by omega)
  have hblocks (k : ℕ) : writeBlockSize*(k/writeBlockSize) ≤ k := mul_div_le _ _
  unfold loopChunk at h
  rcases pointer_cases hrd hwr hle hroom with ⟨hin,hw⟩ | ⟨hout,hw⟩
  · rw [if_pos (by omega)] at h
    have hk := hblocks (wr-rd)
    simp only at h
    generalize writeBlockSize*((wr-rd)/writeBlockSize) = k at h hk
    split at h
    · cases h
      exact ⟨rfl,by dsimp only; omega,(mod_eq_of_lt (by dsimp only; omega)).symm,
        by dsimp only; omega⟩
    · cases h
  · rw [if_neg (by omega)] at h
    have hk := hblocks (n-rd)
    simp only at h
    generalize writeBlockSize*((n-rd)/writeBlockSize) = k at h hk
    split at h
    · cases h
      exact ⟨rfl,by dsimp only; omega,wrap_at_end (by omega),by dsimp only; omega⟩
    · cases h
      refine ⟨rfl,by show rd+(n-rd) ≤ n; omega,?_,by show n-rd ≤ _; omega⟩
      rw [Nat.add_sub_cancel' (by omega),mod_self]

end Pointers

/-- Chunks that are taken one after the other from the read pointer on, `left` bytes at most. -/
def ChunksFrom (n : ℕ) : ℕ → ℕ → List Chunk → Prop
  | _, _, [] => True
  | rd, left, c :: cs => c.start = rd ∧ rd+c.len ≤ n ∧ c.next = (rd+c.len) % n ∧ c.len ≤ left ∧
      ChunksFrom n c.next (left-c.len) cs

theorem ChunksFrom.mono {rd left left' : ℕ} {cs : List Chunk} (h : ChunksFrom n rd left cs)
    (hle : left ≤ left') : ChunksFrom n rd left' cs := by
  induction cs generalizing rd left left' with
  | nil => trivial
  | cons c cs ih =>
    obtain ⟨hstart,hin,hnext,hlen,hmore⟩ := h
    exact ⟨hstart,hin,hnext,by omega,ih hmore (by omega)⟩

theorem drainChunks_from {off t len rd wr : ℕ} (hrd : rd = (off+t) % n)
    (hwr : wr = (off+len) % n) (hle : t ≤ len) (hroom : len < t+n) :
    ChunksFrom n rd (len-t) (drainChunks n rd wr) := by
  have hlt : rd < n := by rw [hrd]; exact mod_lt _ (by omega)
  have hlt' : wr < n := by rw [hwr]; exact mod_lt _ (by omega)
  unfold drainChunks
  rcases pointer_cases hrd hwr hle hroom with ⟨hin,hw⟩ | ⟨hout,hw⟩
  · rw [if_pos (by omega)]
    split
    · refine ⟨rfl,by show rd+(wr-rd) ≤ n; omega,?_,by show wr-rd ≤ _; omega,trivial⟩
      rw [Nat.add_sub_cancel' (by omega),mod_eq_of_lt hlt']
    · trivial
  · rw [if_neg (by omega),if_pos (by omega),singleton_append]
    refine ⟨rfl,by show rd+(n-rd) ≤ n; omega,?_,by show n-rd ≤ _; omega,?_⟩
    · rw [Nat.add_sub_cancel' (by omega),mod_self]
    · split
      · refine ⟨rfl,by show 0+wr ≤ n; omega,?_,by show wr ≤ _-(n-rd); omega,trivial⟩
        rw [zero_add,mod_eq_of_lt hlt']
      · trivial

/-- A copy of the read pointer from a time when `t` bytes had been taken, with room for `size`
bytes behind the `len` bytes accepted. -/
def Stale (n off taken len size rd : ℕ) : Prop :=
  ∃ t ≤ taken, len+size < t+n ∧ rd = (off+t) % n

def ProducerOk (n off taken : ℕ) (mem : ℕ → UInt8) (accepted : List UInt8) : ProducerPc → Prop
  | .writeReadWr _ rd | .flushReadWr rd | .flushReadWrAgain rd =>
    Stale n off taken accepted.length 0 rd
  | .writeCopy buf rd wr =>
    wr = (off+accepted.length) % n ∧ Stale n off taken accepted.length buf.length rd
  | .writePublish buf wr _ =>
    wr = (off+accepted.length+buf.length) % n ∧
      accepted.length+buf.length < taken+n ∧
      ringSlice mem n (off+accepted.length) buf.length = buf
  | .returned r => r = .flushed 0 → taken = accepted.length
  | _ => True

/-- What the thread's local variables mean, with `left` bytes in the cache. -/
def ThreadOk (n left readPtr writePtr : ℕ) : ThreadPc → Prop
  | .loopWr rd | .drainWr _ rd => rd = readPtr
  | .loopPublish chunk => ChunksFrom n readPtr left [chunk]
  | .drainPublish _ chunk more => ChunksFrom n readPtr left (chunk :: more)
  | .resetWr => left = 0
  | .resetRd => left = 0 ∧ writePtr = 0
  | _ => True

/-- `taken` bytes have been taken out of the cache; byte number `i` was put at `off + i`. -/
structure Good (n : ℕ) (s : FsCache) (off taken : ℕ) : Prop where
  log : RingLog s.mpCache n off s.accepted taken
  handed : s.handed = s.accepted.take taken
  readPtr : s.mReadPtr = (off+taken) % n
  writePtr : s.thread ≠ .resetRd → s.mWritePtr = (off+s.accepted.length) % n
  producer : ProducerOk n off taken s.mpCache s.accepted s.producer
  thread : ThreadOk n (s.accepted.length-taken) s.mReadPtr s.mWritePtr s.thread
  protocol : Protocol s

theorem Stale.mono {off taken taken' len size rd : ℕ} (h : Stale n off taken len size rd)
    (hle : taken ≤ taken') : Stale n off taken' len size rd := by
  obtain ⟨t,ht,hrest⟩ := h
  exact ⟨t,by omega,hrest⟩

theorem ProducerOk.mono {off taken taken' : ℕ} {mem : ℕ → UInt8} {accepted : List UInt8}
    {pc : ProducerPc} (h : ProducerOk n off taken mem accepted pc) (hle : taken ≤ taken')
    (hle' : taken' ≤ accepted.length) : ProducerOk n off taken' mem accepted pc := by
  cases pc with
  | writeReadWr | flushReadWr | flushReadWrAgain => exact Stale.mono h hle
  | writeCopy => exact ⟨h.1,h.2.mono hle⟩
  | writePublish => exact ⟨h.1,by have := h.2.1; omega,h.2.2⟩
  | returned r =>
    intro hr
    have := h hr
    omega
  | _ => trivial

theorem ThreadOk.mono {left left' readPtr writePtr writePtr' : ℕ} {pc : ThreadPc}
    (h : ThreadOk n left readPtr writePtr pc) (hle : left ≤ left') (hpc : pc.flushing = false) :
    ThreadOk n left' readPtr writePtr' pc := by
  cases pc with
  | loopWr | drainWr => exact h
  | loopPublish | drainPublish => exact ChunksFrom.mono h hle
  | resetWr | resetRd => cases hpc
  | _ => trivial

section Steps
variable {s : FsCache} {off taken : ℕ}

theorem Stale.eq_of_eq_writePtr {len rd : ℕ} (h : Stale n off taken len 0 rd)
    (hle : taken ≤ len) (heq : rd = (off+len) % n) : taken = len := by
  obtain ⟨t,ht,hroom,hrd⟩ := h
  by_contra hne
  exact ring_index_ne (by omega) (by omega) (hrd.symm.trans heq)

theorem Good.stale (h : Good n s off taken) : Stale n off taken s.accepted.length 0 s.mReadPtr :=
  ⟨taken,le_refl _,h.log.room,h.readPtr⟩

variable {s' : FsCache}

section
variable (h : Good n s off taken)
include h

theorem Good.producer_local (hprotocol : Protocol s')
    (hproducer : ProducerOk n off taken s.mpCache s.accepted s'.producer)
    (hsame : (s'.mpCache,s'.mReadPtr,s'.mWritePtr,s'.thread,s'.handed,s'.accepted) =
      (s.mpCache,s.mReadPtr,s.mWritePtr,s.thread,s.handed,s.accepted)) : Good n s' off taken := by
  simp only [Prod.mk.injEq] at hsame
  obtain ⟨hmem,hrd,hwr,hthread,hhanded,haccepted⟩ := hsame
  refine ⟨?_,?_,?_,?_,?_,?_,hprotocol⟩ <;> simp only [hmem,hrd,hwr,hthread,hhanded,haccepted]
  · exact h.log
  · exact h.handed
  · exact h.readPtr
  · exact h.writePtr
  · exact hproducer
  · exact h.thread

theorem Good.writePtr_of_producer (hp : s.producer ≠ .flushDown) :
    s.mWritePtr = (off+s.accepted.length) % n := by
  apply h.writePtr
  intro ht
  have hf := h.protocol.not_flushing hp
  rw [ht] at hf
  cases hf

theorem good_producerStep (hstep : producerStep n s = some s') : Good n s' off taken := by
  have hprotocol := protocol_producerStep h.protocol hstep
  have hwritePtr := h.writePtr_of_producer
  have hproducer := h.producer
  have hle := h.log.taken_le
  unfold producerStep at hstep
  cases hp : s.producer <;> simp only [hp,some_inj,ite_none_left_eq_some,ite_none_right_eq_some,
    reduceCtorEq] at hstep hproducer hwritePtr
  case flushLock | flushDown =>
    obtain ⟨-,rfl⟩ := hstep
    exact h.producer_local hprotocol trivial rfl
  all_goals subst hstep
  case writeTest | writeCheck | writeUpTest | flushTest =>
    refine h.producer_local hprotocol ?_ rfl
    split
    · exact nofun
    · trivial
  case writeReadRd | flushReadRd | flushReadRdAgain => exact h.producer_local hprotocol h.stale rfl
  case flushReadWr rd =>
    refine h.producer_local hprotocol ?_ rfl
    split
    · next heq => exact fun _ => hproducer.eq_of_eq_writePtr hle (heq.trans (hwritePtr nofun))
    · trivial
  case flushReadWrAgain rd =>
    refine h.producer_local hprotocol (fun hr => ?_) rfl
    have heq : rd = s.mWritePtr := by
      by_contra hne
      simp [hne] at hr
    exact hproducer.eq_of_eq_writePtr hle (heq.trans (hwritePtr nofun))
  case writeReadWr buf rd =>
    refine h.producer_local hprotocol ?_ rfl
    split
    · next hfits =>
      obtain ⟨t,ht,hroom,hrd⟩ := hproducer
      rw [freeSize_eq hrd (hwritePtr nofun) (by omega) hroom] at hfits
      exact ⟨hwritePtr nofun, t,ht,by omega,hrd⟩
    · trivial
  case writeCopy buf rd wr =>
    obtain ⟨hwr,t,ht,hroom,hrd⟩ := hproducer
    have hfree := freeSize_eq hrd hwr (by omega) (by omega)
    have hfits : buf.length ≤ freeSize n rd wr := by omega
    have hcopy := copyIn_eq hrd hwr (by omega) (by omega) s.mpCache hfits
    rw [hcopy] at hprotocol ⊢
    exact { h with
      log := by rw [hwr]; exact h.log.storeRing (by omega)
      producer := ⟨rfl,lt_of_lt_of_le hroom (Nat.add_le_add_right ht n),
        by rw [hwr]; exact ringSlice_storeRing (by omega)⟩
      protocol := hprotocol }
  case writePublish buf wr free =>
    obtain ⟨hwr,hroom,hnew⟩ := hproducer
    have hflushing := h.protocol.not_flushing (by rw [hp]; nofun)
    exact
      { log := h.log.append hroom hnew
        handed := by
          rw [take_append_of_le_length hle]
          exact h.handed
        readPtr := h.readPtr
        writePtr := fun _ => by
          rw [hwr,length_append,add_assoc]
        producer := trivial
        thread := h.thread.mono (by
          rw [length_append]
          omega) hflushing
        protocol := hprotocol }
  all_goals exact h.producer_local hprotocol (by first | trivial | exact nofun) rfl

theorem Good.thread_local (hprotocol : Protocol s')
    (hthread : ThreadOk n (s.accepted.length-taken) s.mReadPtr s.mWritePtr s'.thread)
    (hreset : s.thread ≠ .resetRd)
    (hsame : (s'.mpCache,s'.mReadPtr,s'.mWritePtr,s'.producer,s'.handed,s'.accepted) =
      (s.mpCache,s.mReadPtr,s.mWritePtr,s.producer,s.handed,s.accepted)) : Good n s' off taken := by
  simp only [Prod.mk.injEq] at hsame
  obtain ⟨hmem,hrd,hwr,hproducer,hhanded,haccepted⟩ := hsame
  refine ⟨?_,?_,?_,?_,?_,?_,hprotocol⟩ <;> simp only [hmem,hrd,hwr,hproducer,hhanded,haccepted]
  · exact h.log
  · exact h.handed
  · exact h.readPtr
  · exact fun _ => h.writePtr hreset
  · exact h.producer
  · exact hthread

theorem good_writeChunk {count : ℕ} {chunk : Chunk} {more : List Chunk}
    (hchunks : ChunksFrom n s.mReadPtr (s.accepted.length-taken) (chunk :: more)) {pc : ThreadPc}
    (hprotocol : Protocol { writeChunk count s chunk with thread := pc })
    (hreset : s.thread ≠ .resetRd)
    (hthread : ThreadOk n (s.accepted.length-(taken+chunk.len)) chunk.next s.mWritePtr pc) :
    Good n { writeChunk count s chunk with thread := pc } off (taken+chunk.len) := by
  obtain ⟨hstart,hin,hnext,hlen,-⟩ := hchunks
  have hle := h.log.taken_le
  have hbytes : ((range chunk.len).map fun k => s.mpCache (chunk.start+k)) =
      (s.accepted.drop taken).take chunk.len := by
    rw [← h.log.ringSlice_front (by omega),ringSlice_of_le _ (by rw [← h.readPtr]; exact hin),
      ← h.readPtr,hstart]
  exact
    { log := h.log.advance (by omega)
      handed := by
        show s.handed ++ _ = s.accepted.take (taken+chunk.len)
        rw [hbytes,h.handed,take_add]
      readPtr := by
        show chunk.next = _
        rw [hnext,h.readPtr,mod_add_mod,add_assoc]
      writePtr := fun _ => h.writePtr hreset
      producer := h.producer.mono (Nat.le_add_right _ _) (by show _ ≤ s.accepted.length; omega)
      thread := hthread
      protocol := hprotocol }

end

theorem threadOk_drainNext {left readPtr writePtr : ℕ} {why : Drain} {chunks : List Chunk}
    (h : ChunksFrom n readPtr left chunks) :
    ThreadOk n left readPtr writePtr (drainNext why chunks) := by
  cases chunks with
  | cons chunk more => exact h
  | nil => cases why <;> trivial

theorem good_resetRd (h : Good n s off taken) (ht : s.thread = .resetRd) (hn : 0 < n)
    (hprotocol : Protocol { s with mReadPtr := 0, thread := .flushUp }) :
    ∃ off', Good n { s with mReadPtr := 0, thread := .flushUp } off' s.accepted.length := by
  have hthread := h.thread
  have hle := h.log.taken_le
  rw [ht] at hthread
  obtain ⟨hleft,hwr⟩ := hthread
  have htaken : taken = s.accepted.length := by omega
  have hproducer := (h.protocol.of_flushing (by rw [ht]; rfl)).1
  -- the place at which the next byte gets the first cell
  refine ⟨s.accepted.length*(n-1),?_⟩
  have hzero : (s.accepted.length*(n-1)+s.accepted.length) % n = 0 := by
    rw [← mul_succ,succ_eq_add_one,Nat.sub_add_cancel hn,mul_mod_left]
  exact
    { log := RingLog.empty _ hn _ _
      handed := by rw [← htaken]; exact h.handed
      readPtr := hzero.symm
      writePtr := fun _ => hwr.trans hzero.symm
      producer := by
        rw [hproducer]
        trivial
      thread := trivial
      protocol := hprotocol }

theorem good_threadStep (hn : 0 < n) (h : Good n s off taken) {ret : ℤ}
    (hstep : threadStep n ret s = some s') : ∃ off' taken', Good n s' off' taken' := by
  have hprotocol := protocol_threadStep h.protocol hstep
  have hthread := h.thread
  have hle := h.log.taken_le
  have hroom := h.log.room
  unfold threadStep at hstep
  cases ht : s.thread <;> simp only [ht,some_inj,ite_none_left_eq_some,ite_none_right_eq_some,
    reduceCtorEq] at hstep hthread
  case resetRd =>
    subst hstep
    obtain ⟨off',hgood⟩ := good_resetRd h ht hn hprotocol
    exact ⟨off',_,hgood⟩
  all_goals
    have hreset : s.thread ≠ .resetRd := by rw [ht]; nofun
    have hwr := h.writePtr hreset
  case down | lock =>
    obtain ⟨-,rfl⟩ := hstep
    exact ⟨off,taken,h.thread_local hprotocol trivial hreset rfl⟩
  case loopWr rd =>
    split at hstep
    · next chunk hchunk =>
      cases hstep
      have hfrom := loopChunk_from (hthread.trans h.readPtr) hwr hle hroom hchunk
      refine ⟨off,taken,h.thread_local hprotocol ?_ hreset rfl⟩
      rw [hthread] at hfrom
      exact ⟨hfrom.1,hfrom.2.1,hfrom.2.2.1,hfrom.2.2.2,trivial⟩
    · cases hstep
      exact ⟨off,taken,h.thread_local hprotocol trivial hreset rfl⟩
  case loopPublish chunk =>
    split at hstep <;> cases hstep
    · exact ⟨off,taken,h.thread_local hprotocol trivial hreset rfl⟩
    · exact ⟨off,_,good_writeChunk h hthread hprotocol hreset trivial⟩
  case drainPublish why chunk more =>
    split at hstep <;> cases hstep
    · exact ⟨off,taken,h.thread_local hprotocol trivial hreset rfl⟩
    · refine ⟨off,_,good_writeChunk h hthread hprotocol hreset (threadOk_drainNext ?_)⟩
      rw [← Nat.sub_sub]
      exact hthread.2.2.2.2
  all_goals subst hstep
  case testFlag | testExit =>
    refine ⟨off,taken,h.thread_local hprotocol ?_ hreset rfl⟩
    split <;> trivial
  case loopRd | drainRd => exact ⟨off,taken,h.thread_local hprotocol rfl hreset rfl⟩
  case drainWr why rd =>
    refine ⟨off,taken,h.thread_local hprotocol (threadOk_drainNext ?_) hreset rfl⟩
    rw [← show rd = s.mReadPtr from hthread]
    exact drainChunks_from (hthread.trans h.readPtr) hwr hle hroom
  case compare =>
    refine ⟨off,taken,h.thread_local hprotocol ?_ hreset rfl⟩
    split
    · next heq =>
      have := h.stale.eq_of_eq_writePtr hle (heq.trans hwr)
      show s.accepted.length-taken = 0
      omega
    · trivial
  case resetWr =>
    exact ⟨off,taken,{ h with
      writePtr := fun hne => absurd rfl hne
      thread := ⟨hthread,rfl⟩
      protocol := hprotocol }⟩
  all_goals exact ⟨off,taken,h.thread_local hprotocol trivial hreset rfl⟩

theorem good_step (hn : 0 < n) (h : Good n s off taken) {a : FsAction}
    (hstep : fsCacheStep n s a = some s') : ∃ off' taken', Good n s' off' taken' := by
  cases a with
  | producer => exact ⟨off,taken,good_producerStep h hstep⟩
  | thread ret => exact good_threadStep hn h hstep
  | call c =>
    simp only [fsCacheStep] at hstep
    split at hstep
    · next r hp =>
      cases hstep
      have hbegin : (beginCall c).locked = false ∧
          ProducerOk n off taken s.mpCache s.accepted (beginCall c) := by
        cases c with
        | write buf =>
          by_cases hbuf : buf = []
          · rw [beginCall,if_pos hbuf]
            exact ⟨rfl,nofun⟩
          · rw [beginCall,if_neg hbuf]
            exact ⟨rfl,trivial⟩
        | flush | exit => exact ⟨rfl,trivial⟩
      have hprotocol : Protocol { s with producer := beginCall c } :=
        h.protocol.producer_silent (by rw [hp]; rfl) hbegin.1 rfl rfl rfl rfl
      exact ⟨off,taken,h.producer_local hprotocol hbegin.2 rfl⟩
    · cases hstep

theorem held_eq (h : Good n s off taken) (hreset : s.thread ≠ .resetRd) :
    held n s = s.accepted.drop taken := by
  have hle := h.log.taken_le
  have hroom := h.log.room
  have hwrite : s.mWritePtr = (off+taken+(s.accepted.length-taken)) % n := by
    rw [h.writePtr hreset,add_assoc,Nat.add_sub_cancel' hle]
  have hdistance := ring_distance h.readPtr hwrite (by omega)
  rw [held,hdistance,h.readPtr,ringSlice_mod,h.log.live]

end Steps

theorem good_init (hn : 0 < n) (cache : ℕ → UInt8) : Good n (initFsCache cache) 0 0 where
  log := RingLog.empty cache hn 0 []
  handed := rfl
  readPtr := rfl
  writePtr _ := rfl
  producer := nofun
  thread := trivial
  protocol :=
    { producer_lock := nofun
      thread_lock := nofun
      flushing_flag := nofun
      flag := nofun
      done := fun h => absurd rfl h
      done_le := zero_le 1 }

/-- What was handed to `FileWriter` is in the file, unless a count was short. -/
def Written (s : FsCache) : Prop := s.short = false → s.file = s.handed

theorem Written.of_same {s s' : FsCache} (h : Written s)
    (hsame : (s'.handed,s'.file,s'.short) = (s.handed,s.file,s.short)) : Written s' := by
  simp only [Prod.mk.injEq] at hsame
  obtain ⟨hhanded,hfile,hshort⟩ := hsame
  rw [Written,hhanded,hfile,hshort]
  exact h

theorem written_writeChunk {s : FsCache} (h : Written s) (count : ℕ) (chunk : Chunk)
    (pc : ThreadPc) : Written { writeChunk count s chunk with thread := pc } := by
  intro hshort
  obtain ⟨hs,hcount⟩ : s.short = false ∧ chunk.len ≤ count := by simpa [writeChunk] using hshort
  simp only [writeChunk]
  rw [h hs,take_of_length_le (by simpa using hcount)]

theorem written_step {s s' : FsCache} (h : Written s) {a : FsAction}
    (hstep : fsCacheStep n s a = some s') : Written s' := by
  cases a with
  | call c =>
    simp only [fsCacheStep] at hstep
    split at hstep <;> cases hstep
    exact h.of_same rfl
  | producer =>
    simp only [fsCacheStep,producerStep] at hstep
    cases hp : s.producer <;> simp only [hp,some_inj,ite_none_left_eq_some,ite_none_right_eq_some,
      reduceCtorEq] at hstep
    case flushLock | flushDown => exact hstep.2 ▸ h.of_same rfl
    all_goals exact hstep ▸ h.of_same rfl
  | thread ret =>
    simp only [fsCacheStep,threadStep] at hstep
    cases ht : s.thread <;> simp only [ht,some_inj,ite_none_left_eq_some,ite_none_right_eq_some,
      reduceCtorEq] at hstep
    case loopPublish | drainPublish =>
      split at hstep <;> cases hstep
      · exact h.of_same rfl
      · exact written_writeChunk h _ _ _
    case loopWr => split at hstep <;> cases hstep <;> exact h.of_same rfl
    case down | lock => exact hstep.2 ▸ h.of_same rfl
    all_goals exact hstep ▸ h.of_same rfl

def runToReset : List FsAction :=
  .call (.write [1,2]) :: replicate 7 .producer ++
    .call .flush :: replicate 7 .producer ++ replicate 12 (.thread 2)

def runToFlushed : List FsAction :=
  runToReset ++ replicate 2 (.thread 2) ++ replicate 3 .producer

end TinaPackage.FsWriter
