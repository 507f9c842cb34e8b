import TinaPackage.MachineInt
import TinaPackage.RingSlice
import TinaPackage.Runs

/-! The estimate of the frame duration (`playback/framerateEstimater.c`): a ring of the last time
stamps and the median of their differences. An update is `none` where a difference overflows. -/
namespace TinaPackage.Framerate
open List

structure FramerateEstimater where
  nPts : ℕ → ℤ
  nWritePos : ℕ
  nValidPtsCnt : ℕ
  nFrameDuration : ℤ

/-- What `FramerateEstimaterCreate` and `FramerateEstimaterReset` leave, the one with zeros in the
ring and the other with old values. -/
def fresh (nPts : ℕ → ℤ) : FramerateEstimater := ⟨nPts,0,0,0⟩

def copyOut (nPts : ℕ → ℤ) : ℕ → ℕ → List ℤ
  | _, 0 => []
  | nStartPos, cnt + 1 =>
    nPts nStartPos :: copyOut nPts (if nStartPos+1 ≥ 4 then 0 else nStartPos+1) cnt

def durations (pts : List ℤ) : List ℤ := zipWith (fun p q => q-p) pts pts.tail

/-- The body of the inner loop. The swap goes through an `int`. -/
def compareSwap (arr : List ℤ) (n : ℕ) : List ℤ :=
  if arr.getD (n+1) 0 < arr.getD n 0 then
    (arr.set n (arr.getD (n+1) 0)).set (n+1) (int32 (arr.getD n 0))
  else arr

def bubbleSort (arr : List ℤ) : List ℤ :=
  (range (arr.length-1)).foldl (fun arr' k => (range (arr.length-1-k)).foldl compareSwap arr') arr

def middleDuration (arr : List ℤ) : ℤ := int32 ((bubbleSort arr).getD (arr.length/2) 0)

def framerateEstimaterUpdate (fe : FramerateEstimater) (nPts : ℤ) : Option FramerateEstimater :=
  let ring := Function.update fe.nPts fe.nWritePos nPts
  let nWritePos := if fe.nWritePos+1 ≥ 4 then 0 else fe.nWritePos+1
  let nValidPtsCnt := if fe.nValidPtsCnt < 4 then fe.nValidPtsCnt+1 else fe.nValidPtsCnt
  if 2 ≤ nValidPtsCnt then
    let nStartPos :=
      if nWritePos < nValidPtsCnt then nWritePos+4-nValidPtsCnt else nWritePos-nValidPtsCnt
    let nDurationArr := durations (copyOut ring nStartPos nValidPtsCnt)
    if ∀ d ∈ nDurationArr, -2^63 ≤ d ∧ d < 2^63 then
      some ⟨ring,nWritePos,nValidPtsCnt,middleDuration nDurationArr⟩
    else none
  else some ⟨ring,nWritePos,nValidPtsCnt,fe.nFrameDuration⟩

theorem copyOut_eq (nPts : ℕ → ℤ) {p : ℕ} (hp : p < 4) (cnt : ℕ) :
    copyOut nPts p cnt = ringSlice nPts 4 p cnt := by
  induction cnt generalizing p with
  | zero => rfl
  | succ cnt ih =>
    rw [copyOut,wrap_succ hp,ih (Nat.mod_lt _ (by decide)),ringSlice_mod,ringSlice_cons,
      Nat.mod_eq_of_lt hp]

def window (pts : List ℤ) : List ℤ := pts.drop (pts.length-4)

/-- The estimater has been given `pts` since it was fresh. -/
structure Given (mem : ℕ → ℤ) (pts : List ℤ) (fe : FramerateEstimater) : Prop where
  ring : fe.nPts = ringWritten mem 4 pts
  writePos : fe.nWritePos = pts.length % 4
  count : fe.nValidPtsCnt = min 4 pts.length
  duration : 2 ≤ pts.length → fe.nFrameDuration = middleDuration (durations (window pts))

theorem copyOut_ring (mem : ℕ → ℤ) (pts : List ℤ) {p : ℕ}
    (hp : p = if pts.length % 4 < min 4 pts.length then pts.length % 4+4-min 4 pts.length
      else pts.length % 4-min 4 pts.length) :
    copyOut (ringWritten mem 4 pts) p (min 4 pts.length) = window pts := by
  have hstart : p = (pts.length-4) % 4 := by
    split at hp <;> omega
  rw [copyOut_eq _ (by omega),hstart,ringSlice_mod,ringSlice_ringWritten _ (by omega) (by omega)]
  exact take_of_length_le (by simp only [length_drop]; omega)

variable {mem : ℕ → ℤ} {pts : List ℤ} {fe fe' : FramerateEstimater}

theorem given_update {x : ℤ} (h : Given mem pts fe)
    (hstep : framerateEstimaterUpdate fe x = some fe') :
    Given mem (pts ++ [x]) fe' := by
  obtain ⟨ring,pos,cnt,d⟩ := fe
  obtain ⟨rfl,rfl,rfl,hd⟩ := h
  have hlength : (pts ++ [x]).length = pts.length+1 := length_append
  have hpos : (if pts.length % 4+1 ≥ 4 then 0 else pts.length % 4+1) = (pts ++ [x]).length % 4 := by
    rw [wrap_succ (Nat.mod_lt _ (by decide)),Nat.mod_add_mod,hlength]
  have hcnt : (if min 4 pts.length < 4 then min 4 pts.length+1 else min 4 pts.length) =
      min 4 (pts ++ [x]).length := by
    rw [hlength]
    split <;> omega
  simp only [framerateEstimaterUpdate,← ringWritten_concat,hpos,hcnt,
    copyOut_ring mem (pts ++ [x]) rfl] at hstep
  split at hstep
  · split at hstep
    · cases hstep
      exact ⟨rfl,rfl,rfl,fun _ => rfl⟩
    · cases hstep
  · cases hstep
    exact ⟨rfl,rfl,rfl,fun _ => by omega⟩

theorem given_run (more : List ℤ) (h : Given mem pts fe)
    (hrun : runSteps framerateEstimaterUpdate fe more = some fe') :
    Given mem (pts ++ more) fe' := by
  induction more generalizing pts fe with
  | nil =>
    cases hrun
    rwa [append_nil]
  | cons x more ih =>
    obtain ⟨fe₁,hstep,hrest⟩ := Option.bind_eq_some_iff.mp hrun
    rw [append_cons]
    exact ih (given_update h hstep) hrest

def upperMedian (values : List ℤ) : ℤ :=
  (values.insertionSort (· ≤ ·)).getD (values.length/2) 0

/-- Of three durations, the first one stays in its place at first or fits an `int`, through which
the swap takes it. -/
def FirstFits : List ℤ → Prop
  | [a,b,_] => a ≤ b ∨ FitsInt a
  | _ => True

theorem int32_int32 (x : ℤ) : int32 (int32 x) = int32 x := Int.bmod_bmod

theorem two_durations (a b : ℤ) : middleDuration [a,b] = int32 (upperMedian [a,b]) := by
  have hsort : bubbleSort [a,b] = if b < a then [b,int32 a] else [a,b] := rfl
  rw [middleDuration,hsort,upperMedian]
  simp only [insertionSort,orderedInsert,foldr]
  split_ifs <;> simp [int32_int32] <;> omega

theorem upperMedian_three (a b c : ℤ) : upperMedian [a,b,c] = max (min a b) (min c (max a b)) := by
  simp only [upperMedian,insertionSort,orderedInsert,foldr]
  split_ifs <;> simp [orderedInsert] <;> split_ifs <;> simp <;> omega

theorem middle_compareSwap (x y z : ℤ) :
    int32 ((compareSwap [x,y,z] 0).getD 1 0) = int32 (max x y) := by
  have hswap : compareSwap [x,y,z] 0 = if y < x then [y,int32 x,z] else [x,y,z] := rfl
  rw [hswap]
  split
  · next hlt => exact (int32_int32 x).trans (congrArg int32 (max_eq_left hlt.le).symm)
  · next hle => exact congrArg int32 (max_eq_right (not_lt.mp hle)).symm

theorem three_durations {a b c : ℤ} (h : FirstFits [a,b,c]) :
    middleDuration [a,b,c] = int32 (upperMedian [a,b,c]) := by
  have hsort : bubbleSort [a,b,c] = compareSwap (compareSwap (compareSwap [a,b,c] 0) 1) 0 := rfl
  have hfirst : compareSwap [a,b,c] 0 = [min a b,max a b,c] := by
    have hswap : compareSwap [a,b,c] 0 = if b < a then [b,int32 a,c] else [a,b,c] := rfl
    rw [hswap]
    split
    · next hlt =>
      have hfits := h.resolve_left (not_le.mpr hlt)
      have hcut : int32 a = a := int32_of_range hfits.1 hfits.2
      rw [hcut,min_eq_right hlt.le,max_eq_left hlt.le]
    · next hle => rw [min_eq_left (not_lt.mp hle),max_eq_right (not_lt.mp hle)]
  have hsecond (x y : ℤ) : compareSwap [x,y,c] 1 = if c < y then [x,c,int32 y] else [x,y,c] := rfl
  have hmiddle : [a,b,c].length/2 = 1 := by simp
  rw [middleDuration,hmiddle,hsort,upperMedian_three,hfirst,hsecond]
  split
  · next hc => rw [middle_compareSwap,min_eq_left hc.le]
  · next hc => rw [middle_compareSwap,min_eq_right (not_lt.mp hc)]

/-- After any time stamps since it was created or reset, two at least: the frame duration is the
upper median of the differences in the window, cut to an `int`, if the first of three differences
is not larger than the second or fits an `int`. -/
theorem frame_duration_median (mem : ℕ → ℤ) (pts : List ℤ) (hpts : 2 ≤ pts.length)
    {fe : FramerateEstimater}
    (hrun : runSteps framerateEstimaterUpdate (fresh mem) pts = some fe)
    (hfits : FirstFits (durations (window pts))) :
    fe.nFrameDuration = int32 (upperMedian (durations (window pts))) := by
  have hgiven : Given mem [] (fresh mem) := ⟨rfl,rfl,rfl,fun hlen => absurd hlen (by decide)⟩
  have hduration := (given_run pts hgiven hrun).duration hpts
  rw [nil_append] at hduration
  rw [hduration]
  have hlen : (durations (window pts)).length = min 4 pts.length-1 := by
    simp [durations,window]
    omega
  generalize durations (window pts) = ds at hlen hfits ⊢
  match ds, hlen with
  | [a], _ => rfl
  | [a,b], _ => exact two_durations a b
  | [a,b,c], _ => exact three_durations hfits
  | [], hlen => simp at hlen; omega
  | _ :: _ :: _ :: _ :: _, hlen => simp at hlen; omega

/-- A gap of two frames before two of 40 ms. -/
theorem frame_duration_of_four :
    ∃ fe, runSteps framerateEstimaterUpdate (fresh fun _ => 0) [0,80000,120000,160000] = some fe ∧
      fe.nFrameDuration = int32 (upperMedian [80000,40000,40000]) :=
  ⟨_,rfl,frame_duration_median (fun _ => 0) [0,80000,120000,160000] (by decide) rfl
    (.inr (by decide))⟩

/-- A jump of 2^31 becomes the smallest duration. -/
theorem jump_changes_median :
    (runSteps framerateEstimaterUpdate (fresh fun _ => 0)
      [0,2^31,2^31+1,2^31+6]).map FramerateEstimater.nFrameDuration = some 1 ∧
      upperMedian (durations [0,2^31,2^31+1,2^31+6]) = 5 := by
  decide

end TinaPackage.Framerate
