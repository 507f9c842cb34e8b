import TinaPackage.Runs
import TinaPackage.SequentialFile

/-! The muxer's file writers: the direct one (`CdxFsWriteDirect.c`) and the one with a simple
cache (`CdxFsSimpleCache.c`). Memory accesses outside the cache and an overflow of a signed
sum are `none`. -/
namespace TinaPackage.FsWriter
open List

variable {φ : Type*} (ops : WriterOps φ)

def fsDirectWrite (f : φ) (buf : List UInt8) : ℤ × φ := ops.write f buf

def fsDirectSeek (f : φ) (offset whence : ℤ) : ℤ × φ := ops.seek f offset whence

def fsDirectTell (f : φ) : ℤ := ops.tell f

/-- `FsSimpleCacheContext`, with the writer below it. -/
structure SimpleCache (φ : Type*) where
  mpWriter : φ
  mpCache : List UInt8
  mCacheSize : ℕ
  mValidLen : ℕ
  deriving DecidableEq

def initFsSimpleCache (writer : φ) (memory : List UInt8) : SimpleCache φ :=
  ⟨writer,memory,memory.length,0⟩

variable (c : SimpleCache φ) (offset : ℕ) (bytes : List UInt8)

def storeAt : Option (SimpleCache φ) :=
  if offset+bytes.length ≤ c.mpCache.length then
    some { c with mpCache :=
      c.mpCache.take offset ++ (bytes ++ c.mpCache.drop (offset+bytes.length)) }
  else none

def fileWriter : ℤ × SimpleCache φ :=
  let r := ops.write c.mpWriter bytes
  (r.1, { c with mpWriter := r.2 })

def keepRest (left : List UInt8) (size : ℕ) : Option (ℤ × SimpleCache φ) :=
  if left = [] then some (size, c)
  else (storeAt c 0 left).map fun c => (size, { c with mValidLen := left.length })

/-- The cache is empty: whole multiples of its size are written without it. -/
def writeRest (left : List UInt8) (size : ℕ) : Option (ℤ × SimpleCache φ) :=
  if c.mCacheSize ≤ left.length then
    let nWriteSize := left.length/c.mCacheSize*c.mCacheSize
    let r := fileWriter ops c (left.take nWriteSize)
    if r.1 < 0 then some r else keepRest r.2 (left.drop nWriteSize) size
  else keepRest c left size

def fsSimpleCacheWrite (buf : List UInt8) : Option (ℤ × SimpleCache φ) :=
  if buf = [] then some (-1, c)
  else if c.mCacheSize ≤ c.mValidLen then some (-1, c)
  else if c.mValidLen = 0 then writeRest ops c buf buf.length
  -- m_valid_len + size is a sum of two ints
  else if 2^31 ≤ c.mValidLen+buf.length then none
  else if c.mValidLen+buf.length ≤ c.mCacheSize then
    (storeAt c c.mValidLen buf).map fun c =>
      let c := { c with mValidLen := c.mValidLen+buf.length }
      if c.mValidLen = c.mCacheSize then
        let r := fileWriter ops c (c.mpCache.take c.mCacheSize)
        if r.1 < 0 then r else (buf.length, { r.2 with mValidLen := 0 })
      else (buf.length, c)
  else
    let nSize0 := c.mCacheSize-c.mValidLen
    (storeAt c c.mValidLen (buf.take nSize0)).bind fun c =>
      let r := fileWriter ops c (c.mpCache.take c.mCacheSize)
      if r.1 < 0 then some r
      else writeRest ops { r.2 with mValidLen := 0 } (buf.drop nSize0) buf.length

def fsSimpleCacheFlush : ℤ × SimpleCache φ :=
  if 0 < c.mValidLen then
    let r := fileWriter ops c (c.mpCache.take c.mValidLen)
    if r.1 < 0 then r else (0, { r.2 with mValidLen := 0 })
  else (0, c)

def fsSimpleCacheSeek (offset whence : ℤ) : ℤ × SimpleCache φ :=
  let c := (fsSimpleCacheFlush ops c).2
  let r := ops.seek c.mpWriter offset whence
  (r.1, { c with mpWriter := r.2 })

def fsSimpleCacheTell : ℤ × SimpleCache φ :=
  let c := (fsSimpleCacheFlush ops c).2
  (ops.tell c.mpWriter, c)

inductive FsCall where
  | write (buf : List UInt8)
  | seek (offset whence : ℤ)
  | tell
  | flush

/-- One call on the direct writer. The world is the file with the results of `tell` so far. -/
def directStep (w : φ × List ℤ) : FsCall → φ × List ℤ
  | .write buf => ((fsDirectWrite ops w.1 buf).2, w.2)
  | .seek offset whence => ((fsDirectSeek ops w.1 offset whence).2, w.2)
  | .tell => (w.1, w.2 ++ [fsDirectTell ops w.1])
  | .flush => w

def cacheStep (w : SimpleCache φ × List ℤ) : FsCall → Option (SimpleCache φ × List ℤ)
  | .write buf => (fsSimpleCacheWrite ops w.1 buf).map fun r => (r.2, w.2)
  | .seek offset whence => some ((fsSimpleCacheSeek ops w.1 offset whence).2, w.2)
  | .tell =>
    let r := fsSimpleCacheTell ops w.1
    some (r.2, w.2 ++ [r.1])
  | .flush => some ((fsSimpleCacheFlush ops w.1).2, w.2)

def SumFits (w : SimpleCache φ × List ℤ) : FsCall → Prop
  | .write buf => w.1.mValidLen = 0 ∨ w.1.mValidLen+buf.length < 2^31
  | _ => True

instance (w : SimpleCache φ × List ℤ) : ∀ call, Decidable (SumFits w call)
  | .write _ => inferInstanceAs (Decidable (_ ∨ _))
  | .seek .. | .tell | .flush => .isTrue trivial

/-- The file of the direct writer is the file below the cache with the cached bytes written. -/
structure Sim (c : SimpleCache φ) (f : φ) : Prop where
  length_cache : c.mpCache.length = c.mCacheSize
  valid_lt : c.mValidLen < c.mCacheSize
  size_lt : c.mCacheSize < 2^31
  file : f = (ops.write c.mpWriter (c.mpCache.take c.mValidLen)).2

section Simulation
variable {ops} (reliable : ops.Reliable) {c : SimpleCache φ} {f : φ}
include reliable

theorem fileWriter_ret (bytes : List UInt8) : ¬(fileWriter ops c bytes).1 < 0 := by
  simp only [fileWriter,reliable.write_ret]
  omega

theorem sim_empty (hlen : c.mpCache.length = c.mCacheSize) (hpos : 0 < c.mCacheSize)
    (hsize : c.mCacheSize < 2^31) (hvalid : c.mValidLen = 0) : Sim ops c c.mpWriter where
  length_cache := hlen
  valid_lt := by omega
  size_lt := hsize
  file := by rw [hvalid,take_zero,reliable.write_nil]

theorem flush_eq (h : Sim ops c f) :
    fsSimpleCacheFlush ops c = (0, { c with mpWriter := f, mValidLen := 0 }) := by
  unfold fsSimpleCacheFlush
  split
  · rw [if_neg (fileWriter_ret reliable _),h.file]
    rfl
  · have h0 : c.mValidLen = 0 := by omega
    have hf := h.file
    rw [h0,take_zero,reliable.write_nil] at hf
    rw [hf,← h0]

theorem keepRest_sim (hlen : c.mpCache.length = c.mCacheSize) (hsize : c.mCacheSize < 2^31)
    (hvalid : c.mValidLen = 0) {left : List UInt8} (hleft : left.length < c.mCacheSize)
    (size : ℕ) :
    ∃ c', keepRest c left size = some ((size : ℤ), c') ∧
      Sim ops c' (ops.write c.mpWriter left).2 := by
  unfold keepRest
  split
  · next h =>
    refine ⟨c,rfl,?_⟩
    rw [h,reliable.write_nil]
    exact sim_empty reliable hlen (by omega) hsize hvalid
  · rw [storeAt,if_pos (by omega)]
    refine ⟨_,rfl,?_⟩
    exact { length_cache := by simp; omega
            valid_lt := hleft
            size_lt := hsize
            file := by simp }

theorem writeRest_sim (hlen : c.mpCache.length = c.mCacheSize) (hpos : 0 < c.mCacheSize)
    (hsize : c.mCacheSize < 2^31) (hvalid : c.mValidLen = 0) (left : List UInt8) (size : ℕ) :
    ∃ c', writeRest ops c left size = some ((size : ℤ), c') ∧
      Sim ops c' (ops.write c.mpWriter left).2 := by
  unfold writeRest
  split
  · next hle =>
    rw [if_neg (fileWriter_ret reliable _)]
    have hmod : left.length/c.mCacheSize*c.mCacheSize+left.length % c.mCacheSize =
        left.length := Nat.div_add_mod' _ _
    have hlt := Nat.mod_lt left.length hpos
    have hleft : (left.drop (left.length/c.mCacheSize*c.mCacheSize)).length < c.mCacheSize := by
      rw [length_drop]
      omega
    obtain ⟨c',hkeep,hsim⟩ := keepRest_sim reliable
      (c := (fileWriter ops c (left.take (left.length/c.mCacheSize*c.mCacheSize))).2)
      hlen hsize hvalid hleft size
    refine ⟨c',hkeep,?_⟩
    rwa [fileWriter,reliable.write_append,take_append_drop] at hsim
  · next hlt => exact keepRest_sim reliable hlen hsize hvalid (by omega) size

omit reliable in
theorem storeAt_valid (hlen : c.mpCache.length = c.mCacheSize) {bytes : List UInt8}
    (hle : c.mValidLen+bytes.length ≤ c.mCacheSize) :
    ∃ cache, storeAt c c.mValidLen bytes = some { c with mpCache := cache } ∧
      cache.length = c.mCacheSize ∧
      cache.take (c.mValidLen+bytes.length) = c.mpCache.take c.mValidLen ++ bytes := by
  refine ⟨_,by rw [storeAt,if_pos (by omega)],?_,?_⟩
  · simp
    omega
  · rw [← append_assoc,take_left']
    simp
    omega

theorem write_sim (h : Sim ops c f) {buf : List UInt8} (hne : buf ≠ [])
    (hfits : c.mValidLen = 0 ∨ c.mValidLen+buf.length < 2^31) :
    ∃ c', fsSimpleCacheWrite ops c buf = some ((buf.length : ℤ), c') ∧
      Sim ops c' (ops.write f buf).2 := by
  have hvalid := h.valid_lt
  have hlen := h.length_cache
  have hfile := h.file
  rw [fsSimpleCacheWrite,if_neg hne,if_neg (by omega)]
  by_cases h0 : c.mValidLen = 0
  · rw [if_pos h0]
    rw [h0,take_zero,reliable.write_nil] at hfile
    rw [hfile]
    exact writeRest_sim reliable hlen (by omega) h.size_lt h0 buf buf.length
  rw [if_neg h0,if_neg (by omega)]
  by_cases hsome : c.mValidLen+buf.length ≤ c.mCacheSize
  · -- the bytes go into the cache
    obtain ⟨cache,hstore,hcache,htake⟩ := storeAt_valid hlen hsome
    rw [if_pos hsome,hstore,Option.map_some]
    by_cases hfull : c.mValidLen+buf.length = c.mCacheSize
    · rw [if_pos hfull,if_neg (fileWriter_ret reliable _)]
      refine ⟨_,rfl,?_⟩
      rw [hfile,reliable.write_append,← htake,hfull]
      exact sim_empty reliable hcache (by show 0 < c.mCacheSize; omega) h.size_lt rfl
    · rw [if_neg hfull]
      refine ⟨_,rfl,?_⟩
      exact { length_cache := hcache
              valid_lt := by show c.mValidLen+buf.length < c.mCacheSize; omega
              size_lt := h.size_lt
              file := by rw [hfile,reliable.write_append,← htake] }
  · -- the cache is filled up and written, and the rest follows
    rw [if_neg hsome]
    have hsize0 : c.mValidLen+(buf.take (c.mCacheSize-c.mValidLen)).length = c.mCacheSize := by
      rw [length_take]
      omega
    obtain ⟨cache,hstore,hcache,htake⟩ := storeAt_valid hlen (Nat.le_of_eq hsize0)
    rw [hsize0] at htake
    simp only [hstore,Option.bind_some]
    rw [if_neg (fileWriter_ret reliable _)]
    obtain ⟨c',hrest,hsim⟩ := writeRest_sim reliable
      (c := { (fileWriter ops { c with mpCache := cache } (cache.take c.mCacheSize)).2 with
        mValidLen := 0 }) hcache (by show 0 < c.mCacheSize; omega) h.size_lt rfl
      (buf.drop (c.mCacheSize-c.mValidLen)) buf.length
    refine ⟨c',hrest,?_⟩
    simp only [fileWriter] at hsim
    rwa [htake,reliable.write_append,append_assoc,take_append_drop,
      ← reliable.write_append,← hfile] at hsim

variable {w : SimpleCache φ × List ℤ} {call : FsCall}

theorem cacheStep_sim {d : φ × List ℤ} (h : Sim ops w.1 d.1 ∧ w.2 = d.2) (hfits : SumFits w call) :
    ∃ w', cacheStep ops w call = some w' ∧
      Sim ops w'.1 (directStep ops d call).1 ∧ w'.2 = (directStep ops d call).2 := by
  obtain ⟨hsim,htells⟩ := h
  have hflush := flush_eq reliable hsim
  have hempty (g : φ) : Sim ops { w.1 with mpWriter := g, mValidLen := 0 } g :=
    sim_empty reliable hsim.length_cache (Nat.zero_lt_of_lt hsim.valid_lt) hsim.size_lt rfl
  cases call with
  | write buf =>
    by_cases hne : buf = []
    · -- nothing is written
      subst hne
      refine ⟨w,by simp [cacheStep,fsSimpleCacheWrite],?_,htells⟩
      show Sim ops w.1 (ops.write d.1 []).2
      rwa [reliable.write_nil]
    · obtain ⟨c',hwrite,hsim'⟩ := write_sim reliable hsim hne hfits
      exact ⟨(c', w.2),by rw [cacheStep,hwrite]; rfl,hsim',htells⟩
  | seek offset whence =>
    refine ⟨_,rfl,?_,htells⟩
    rw [fsSimpleCacheSeek,hflush]
    exact hempty _
  | tell =>
    refine ⟨_,rfl,?_,?_⟩
    · rw [fsSimpleCacheTell,hflush]
      exact hempty _
    · simp only [fsSimpleCacheTell,hflush,htells]
      rfl
  | flush =>
    refine ⟨_,rfl,?_,htells⟩
    rw [hflush]
    exact hempty _

omit reliable in
theorem cacheStep_of_not_fits (h : Sim ops w.1 f) (hfits : ¬SumFits w call) :
    cacheStep ops w call = none := by
  have hvalid := h.valid_lt
  have hsize := h.size_lt
  cases call with
  | write buf =>
    simp only [SumFits,not_or] at hfits
    have hne : buf ≠ [] := by
      rintro rfl
      simp only [length_nil] at hfits
      omega
    rw [cacheStep,fsSimpleCacheWrite,if_neg hne,if_neg (by omega),if_neg hfits.1,if_pos (by omega)]
    rfl
  | seek offset whence | tell | flush => exact absurd trivial hfits

end Simulation

/-- For every file whose writes are complete, every cache and every sequence of calls: the calls on
the cache leave after a flush the file of the direct writer and tell the same places, exactly when
no write makes the sum of the cached and the new bytes overflow. -/
theorem simple_cache_refines_direct_iff (ops : WriterOps φ) (reliable : ops.Reliable) (file : φ)
    (memory : List UInt8) (hpos : 0 < memory.length) (hsize : memory.length < 2^31)
    (calls : List FsCall) :
    (∃ w, runSteps (cacheStep ops) (initFsSimpleCache file memory, []) calls = some w ∧
      (fsSimpleCacheFlush ops w.1).2.mpWriter = (calls.foldl (directStep ops) (file, [])).1 ∧
      w.2 = (calls.foldl (directStep ops) (file, [])).2) ↔
    Guarded (cacheStep ops) SumFits (initFsSimpleCache file memory, []) calls := by
  have hinit : Sim ops (initFsSimpleCache file memory) file :=
    sim_empty reliable rfl hpos hsize rfl
  constructor
  · rintro ⟨w,hrun,-⟩
    refine guarded_of_runSteps (fun w => ∃ f, Sim ops w.1 f)
      (fun w call hw hfits => hw.elim fun f h => cacheStep_of_not_fits h hfits)
      (fun w call w' hw hfits hstep => ?_) calls _ w ⟨file,hinit⟩ hrun
    obtain ⟨f,h⟩ := hw
    obtain ⟨t,ht,hsim,-⟩ := cacheStep_sim reliable (d := (f, w.2)) ⟨h,rfl⟩ hfits
    obtain rfl : t = w' := Option.some_inj.mp (ht.symm.trans hstep)
    exact ⟨_,hsim⟩
  · intro hguard
    have hstep : ∀ (w : SimpleCache φ × List ℤ) (d : φ × List ℤ) (call : FsCall),
        Sim ops w.1 d.1 ∧ w.2 = d.2 → SumFits w call → ∃ w', cacheStep ops w call = some w' ∧
          Sim ops w'.1 (directStep ops d call).1 ∧ w'.2 = (directStep ops d call).2 :=
      fun w d call h hfits => cacheStep_sim reliable h hfits
    obtain ⟨w,hrun,hsim,htells⟩ :=
      runSteps_simulates _ _ hstep calls _ (file, []) ⟨hinit,rfl⟩ hguard
    exact ⟨w,hrun,by rw [flush_eq reliable hsim],htells⟩

theorem simple_cache_refines_direct_of_five_calls :
    ∃ w, runSteps (cacheStep FileImage.ops) (initFsSimpleCache ⟨[],0⟩ [9,9,9,9], [])
        [.write [1,2],.write [3,4,5,6,7,8,9],.tell,.seek 0 0,.write [0]] = some w ∧
      (fsSimpleCacheFlush FileImage.ops w.1).2.mpWriter = ⟨[0,2,3,4,5,6,7,8,9],1⟩ ∧
      w.2 = [9] :=
  (simple_cache_refines_direct_iff FileImage.ops FileImage.ops_reliable ⟨[],0⟩ [9,9,9,9]
    (by decide) (by decide) _).mpr (by decide)

/-- One byte is cached, and a write of `2^31 - 1` bytes follows: the sum of the two sizes
overflows. -/
theorem write_of_int_max_overflows :
    runSteps (cacheStep FileImage.ops) (initFsSimpleCache ⟨[],0⟩ [9,9,9,9], [])
      [.write [1],.write (List.replicate (2^31-1) 0)] = none := by
  have hfirst : cacheStep FileImage.ops (initFsSimpleCache ⟨[],0⟩ [9,9,9,9], [])
      (.write [1]) = some (⟨⟨[],0⟩,[1,9,9,9],4,1⟩, []) := by decide
  have hsecond : ∀ buf : List UInt8, buf.length = 2^31-1 →
      cacheStep FileImage.ops (⟨⟨[],0⟩,[1,9,9,9],4,1⟩, []) (.write buf) = none := by
    intro buf hlen
    have hne : buf ≠ [] := by
      rintro rfl
      simp at hlen
    simp [cacheStep,fsSimpleCacheWrite,hne,hlen]
  rw [runSteps,hfirst,Option.bind_some,runSteps,hsecond _ length_replicate,Option.bind_none]

end TinaPackage.FsWriter
