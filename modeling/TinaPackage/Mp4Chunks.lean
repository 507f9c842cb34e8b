import TinaPackage.Mp4Model

/-! The chunks of a recording: the samples of one track between two changes of the
track. The sample tables of the muxer describe them. -/
namespace TinaPackage.Mp4
open List

def CodecType.other : CodecType → CodecType
  | .video => .audio
  | .audio => .video

theorem CodecType.other_of_ne {s t : CodecType} (h : s ≠ t) : s.other = t := by
  cases s <;> cases t <;> simp_all [CodecType.other]

theorem CodecType.other_ne (s : CodecType) : s.other ≠ s := by
  cases s <;> decide

structure History where
  closed : CodecType → List Chunk
  current : Option (CodecType × Chunk)

namespace History

def empty : History := ⟨fun _ => [],none⟩

variable (h : History)

def stream : Option CodecType := h.current.map Prod.fst

variable (s : CodecType)

def currentOf : List Chunk :=
  match h.current with
  | none => []
  | some (t, c) => if t = s then [c] else []

def chunks : List Chunk := h.closed s ++ h.currentOf s

def offsets : List ℕ := (h.chunks s).map Chunk.offset

def sizes : List ℕ := (h.chunks s).flatMap Chunk.sizes

def counts : List ℕ := (h.closed s).map fun c => c.sizes.length

def currentCount : ℕ := h.current.elim 0 fun p => p.2.sizes.length

def ranges : List (ℕ × ℕ) := (h.chunks s).flatMap Chunk.ranges

def openChunk (offset : ℕ) : History where
  closed := h.chunks
  current := some (s, ⟨offset,[]⟩)

def addSample (size : ℕ) : History :=
  { h with current := h.current.map fun p => (p.1, ⟨p.2.offset,p.2.sizes ++ [size]⟩) }

def addPacket (pos size : ℕ) : History :=
  (if h.stream = some s then h else h.openChunk s pos).addSample size

variable (h : History) (s u : CodecType) (pos size : ℕ)

theorem chunks_openChunk :
    (h.openChunk s pos).chunks u = h.chunks u ++ if s = u then [⟨pos,[]⟩] else [] := rfl

theorem offsets_openChunk :
    (h.openChunk s pos).offsets u = h.offsets u ++ if s = u then [pos] else [] := by
  unfold offsets
  rw [chunks_openChunk,map_append]
  split <;> rfl

@[simp] theorem sizes_openChunk : (h.openChunk s pos).sizes u = h.sizes u := by
  unfold sizes
  rw [chunks_openChunk,flatMap_append]
  split <;> simp

theorem counts_openChunk :
    (h.openChunk s pos).counts u = h.counts u ++ (h.currentOf u).map fun c => c.sizes.length := by
  change (h.closed u ++ h.currentOf u).map _ = _
  rw [map_append]
  rfl

@[simp] theorem counts_addSample : (h.addSample size).counts u = h.counts u := rfl

@[simp] theorem offsets_addSample : (h.addSample size).offsets u = h.offsets u := by
  unfold offsets chunks currentOf addSample
  match h.current with
  | none => rfl
  | some (t, c) =>
    simp only [Option.map_some,map_append]
    split <;> rfl

variable {h s}

theorem sizes_addSample_self (hs : h.stream = some s) :
    (h.addSample size).sizes s = h.sizes s ++ [size] := by
  unfold stream at hs
  unfold sizes chunks currentOf addSample
  match hcur : h.current with
  | none => simp [hcur] at hs
  | some (t, c) =>
    have ht : t = s := by simpa [hcur] using hs
    simp [ht]

theorem sizes_addSample_of_ne (hs : h.stream = some s) (hu : s ≠ u) :
    (h.addSample size).sizes u = h.sizes u := by
  unfold stream at hs
  unfold sizes chunks currentOf addSample
  match hcur : h.current with
  | none => simp
  | some (t, c) =>
    have ht : t = s := by simpa [hcur] using hs
    simp [ht,hu]

theorem currentCount_addSample (hs : h.stream = some s) :
    (h.addSample size).currentCount = h.currentCount+1 := by
  unfold stream at hs
  unfold currentCount addSample
  match hcur : h.current with
  | none => simp [hcur] at hs
  | some (t, c) => simp

theorem currentOf_of_stream_ne (hs : h.stream ≠ some u) : h.currentOf u = [] := by
  unfold stream at hs
  unfold currentOf
  match hcur : h.current with
  | none => rfl
  | some (t, c) =>
    have ht : t ≠ u := by simpa [hcur] using hs
    simp [ht]

theorem currentOf_counts (hs : h.stream = some s) :
    ((h.currentOf s).map fun c => c.sizes.length) = [h.currentCount] := by
  unfold stream at hs
  unfold currentOf currentCount
  match hcur : h.current with
  | none => simp [hcur] at hs
  | some (t, c) =>
    have ht : t = s := by simpa [hcur] using hs
    simp [ht]

theorem counts_append_currentOf : h.counts u ++ ((h.currentOf u).map fun c => c.sizes.length) =
      (h.chunks u).map fun c => c.sizes.length := by
  unfold counts chunks
  rw [map_append]

theorem locateSamples_history :
    locateSamples (h.offsets u) (entryPerChunk ((h.chunks u).map fun c => c.sizes.length))
      (h.sizes u) = h.ranges u :=
  locateSamples_chunks (h.chunks u)

def Describable (c : Chunk) : Prop :=
  c.offset < 2^32 ∧ c.sizes ≠ [] ∧ ∀ x ∈ c.sizes, x < 2^32

structure Sound (h : History) (fileEnd : ℕ) : Prop where
  closed : ∀ s, ∀ c ∈ h.closed s, Describable c
  current : ∀ t c, h.current = some (t, c) → Describable c ∧ c.offset+c.sizes.sum = fileEnd
  few : ∀ s, (h.sizes s).length ≤ 2^30

theorem exists_current (hs : h.stream = some s) : ∃ c, h.current = some (s, c) := by
  obtain ⟨p,hp,hfst⟩ := Option.map_eq_some_iff.mp hs
  exact ⟨p.2,by rw [hp,← hfst]⟩

theorem addPacket_same {c : Chunk} (hc : h.current = some (s, c)) : h.addPacket s pos size =
      ⟨h.closed,some (s, ⟨c.offset,c.sizes ++ [size]⟩)⟩ := by
  have hs : h.stream = some s := by simp [stream,hc]
  unfold addPacket
  rw [if_pos hs]
  simp [addSample,hc]

theorem addPacket_new (hs : h.stream ≠ some s) :
    h.addPacket s pos size = ⟨h.chunks,some (s, ⟨pos,[size]⟩)⟩ := by
  unfold addPacket
  rw [if_neg hs]
  rfl

theorem stream_addPacket : (h.addPacket s pos size).stream = some s := by
  by_cases hs : h.stream = some s
  · obtain ⟨c,hc⟩ := exists_current hs
    rw [addPacket_same pos size hc]
    rfl
  · rw [addPacket_new pos size hs]
    rfl

theorem currentOf_mk (closed : CodecType → List Chunk) (t u : CodecType) (c : Chunk) :
    (⟨closed,some (t, c)⟩ : History).currentOf u = if t = u then [c] else [] := rfl

theorem sizes_addPacket :
    (h.addPacket s pos size).sizes u = h.sizes u ++ if s = u then [size] else [] := by
  by_cases hs : h.stream = some s
  · obtain ⟨c,hc⟩ := exists_current hs
    rw [addPacket_same pos size hc]
    unfold sizes chunks
    unfold currentOf
    rw [hc]
    by_cases hu : s = u
    · simp [hu]
    · simp [hu]
  · rw [addPacket_new pos size hs]
    unfold sizes
    unfold chunks
    rw [currentOf_mk]
    by_cases hu : s = u
    · simp [hu]
    · simp [hu]

variable {pos}

theorem Sound.ranges_addPacket (hh : h.Sound pos) :
    (h.addPacket s pos size).ranges u = h.ranges u ++ if s = u then [(pos, size)] else [] := by
  by_cases hs : h.stream = some s
  · obtain ⟨c,hc⟩ := exists_current hs
    obtain ⟨-,hend⟩ := hh.current s c hc
    -- the sample follows the others of its chunk
    have hplace : Chunk.ranges ⟨c.offset,c.sizes ++ [size]⟩ = c.ranges ++ [(pos, size)] := by
      unfold Chunk.ranges
      rw [placeSamples_append,hend]
    rw [addPacket_same pos size hc]
    unfold ranges chunks
    unfold currentOf
    rw [hc]
    by_cases hu : s = u
    · simp [hu,hplace]
    · simp [hu]
  · have hplace : Chunk.ranges ⟨pos,[size]⟩ = [(pos, size)] := rfl
    rw [addPacket_new pos size hs]
    unfold ranges
    unfold chunks
    rw [currentOf_mk]
    by_cases hu : s = u
    · simp [hu,hplace]
    · simp [hu]

theorem Sound.chunks (hh : h.Sound pos) : ∀ c ∈ h.chunks u, Describable c := by
  intro c hc
  rcases mem_append.mp hc with hclosed | hcur
  · exact hh.closed u c hclosed
  · unfold currentOf at hcur
    match hcurrent : h.current with
    | none => simp [hcurrent] at hcur
    | some (t, d) =>
      rw [hcurrent] at hcur
      dsimp only at hcur
      split at hcur
      · rw [mem_singleton.mp hcur]
        exact (hh.current t d hcurrent).1
      · simp at hcur

theorem Sound.addPacket (hh : h.Sound pos) (hpos : h.stream ≠ some s → pos < 2^32)
    (hsize : size < 2^32) (hfew : (h.sizes s).length < 2^30) :
    (h.addPacket s pos size).Sound (pos+size) := by
  have hcount : ∀ u, ((h.addPacket s pos size).sizes u).length ≤ 2^30 := by
    intro u
    rw [sizes_addPacket,length_append]
    by_cases hu : s = u
    · rw [if_pos hu,← hu,length_singleton]
      omega
    · rw [if_neg hu,length_nil]
      exact hh.few u
  by_cases hs : h.stream = some s
  · obtain ⟨c,hc⟩ := exists_current hs
    obtain ⟨⟨hoff,-,hsizes⟩,hend⟩ := hh.current s c hc
    refine ⟨?_,?_,hcount⟩
    · rw [addPacket_same pos size hc]
      exact hh.closed
    · rw [addPacket_same pos size hc]
      rintro t d ⟨⟩
      refine ⟨⟨hoff,by simp,?_⟩,?_⟩
      · intro x hx
        rcases mem_append.mp hx with hx | hx
        · exact hsizes x hx
        · rwa [mem_singleton.mp hx]
      · rw [sum_append,sum_singleton,← Nat.add_assoc,hend]
  · refine ⟨?_,?_,hcount⟩
    · rw [addPacket_new pos size hs]
      exact fun u c hc => hh.chunks u c hc
    · rw [addPacket_new pos size hs]
      rintro t d ⟨⟩
      refine ⟨⟨hpos hs,by simp,?_⟩,by simp⟩
      intro x hx
      rwa [mem_singleton.mp hx]

theorem length_le_flatMap_sizes {cs : List Chunk} (hne : ∀ c ∈ cs, Describable c) :
    cs.length ≤ (cs.flatMap Chunk.sizes).length := by
  induction cs with
  | nil => simp
  | cons c cs ih =>
    have hpos : 0 < c.sizes.length := length_pos_iff.mpr (hne c (by simp)).2.1
    have htail := ih fun d hd => hne d (by simp [hd])
    rw [flatMap_cons,length_append,length_cons]
    omega

theorem Sound.length_chunks (hh : h.Sound pos) : (h.chunks u).length ≤ 2^30 :=
  Nat.le_trans (length_le_flatMap_sizes (hh.chunks u)) (hh.few u)

theorem length_le_of_mem {cs : List Chunk} {c : Chunk} (hc : c ∈ cs) :
    c.sizes.length ≤ (cs.flatMap Chunk.sizes).length := by
  induction cs with
  | nil => simp at hc
  | cons d cs ih =>
    rw [flatMap_cons,length_append]
    rcases mem_cons.mp hc with rfl | hc
    · omega
    · have := ih hc
      omega

theorem Sound.length_sizes_le (hh : h.Sound pos) : ∀ c ∈ h.chunks u, c.sizes.length ≤ 2^30 :=
  fun _ hc => Nat.le_trans (length_le_of_mem hc) (hh.few u)

theorem Sound.currentCount_le (hh : h.Sound pos) : h.currentCount ≤ 2^30 := by
  unfold currentCount
  match hcur : h.current with
  | none => simp
  | some (t, c) =>
    have hmem : c ∈ h.chunks t := by
      simp [History.chunks,currentOf,hcur]
    exact hh.length_sizes_le t c hmem

theorem Sound.empty (fileEnd : ℕ) : empty.Sound fileEnd where
  closed := by simp [History.empty]
  current := by simp [History.empty]
  few := by simp [History.empty,sizes,History.chunks,currentOf]

end History

end TinaPackage.Mp4
