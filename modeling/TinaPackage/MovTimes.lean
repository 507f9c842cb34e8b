import TinaPackage.MovTables

/-! The sample that is decoded at a given time. -/
namespace TinaPackage.Mov
open List

variable (entries : List (ℕ × ℕ))

def sampleCount : ℕ := (entries.map fun e => e.1).sum

def totalDuration : ℕ := (entries.map fun e => e.1*e.2).sum

/-- The decoding time of sample `k`: each entry gives a number of samples and their duration. -/
def decodingTime : List (ℕ × ℕ) → ℕ → ℕ
  | [], _ => 0
  | (count, duration) :: rest, k => min k count*duration+decodingTime rest (k-count)

section Times
variable {pre : List (ℕ × ℕ)} {count duration t : ℕ}

theorem decodingTime_zero : decodingTime entries 0 = 0 := by
  induction entries with
  | nil => rfl
  | cons e rest ih => simp [decodingTime,ih]

theorem decodingTime_mono {k k' : ℕ} (h : k ≤ k') :
    decodingTime entries k ≤ decodingTime entries k' := by
  induction entries generalizing k k' with
  | nil => exact Nat.le_refl 0
  | cons e rest ih =>
    have hrest := ih (show k-e.1 ≤ k'-e.1 by omega)
    have hfirst : min k e.1*e.2 ≤ min k' e.1*e.2 := Nat.mul_le_mul_right _ (by omega)
    exact Nat.add_le_add hfirst hrest

theorem decodingTime_append (pre post : List (ℕ × ℕ)) (j : ℕ) :
    decodingTime (pre ++ post) (sampleCount pre+j) = totalDuration pre+decodingTime post j := by
  induction pre with
  | nil => simp [sampleCount,totalDuration]
  | cons e pre ih =>
    have hcount : sampleCount (e :: pre) = e.1+sampleCount pre := rfl
    have htotal : totalDuration (e :: pre) = e.1*e.2+totalDuration pre := rfl
    have hsub : sampleCount (e :: pre)+j-e.1 = sampleCount pre+j := by omega
    rw [cons_append,decodingTime,hsub,Nat.min_eq_right (by omega),ih]
    omega

theorem decodingTime_within (pre post : List (ℕ × ℕ)) (duration : ℕ) {j : ℕ} (hj : j ≤ count) :
    decodingTime (pre ++ (count, duration) :: post) (sampleCount pre+j) =
      totalDuration pre+j*duration := by
  rw [decodingTime_append,decodingTime,Nat.min_eq_left hj,Nat.sub_eq_zero_of_le hj,
    decodingTime_zero,Nat.add_zero]

/-- What the rounded division gives for a time in the run of an entry: the sample at that place
is not before the time, the next one is after it, and those before it are earlier unless the
sample is exactly at the time. -/
theorem rounded_sample_spec (post : List (ℕ × ℕ)) (hlo : totalDuration pre ≤ t)
    (hhi : t < totalDuration pre+count*duration) :
    ∃ j ≤ count, count-(totalDuration pre+count*duration-t)/duration = j ∧
      (totalDuration pre+count*duration-t)/duration ≤ count ∧
      t ≤ decodingTime (pre ++ (count, duration) :: post) (sampleCount pre+j) ∧
      t < decodingTime (pre ++ (count, duration) :: post) (sampleCount pre+j+1) ∧
      (decodingTime (pre ++ (count, duration) :: post) (sampleCount pre+j) = t ∨
        ∀ k < sampleCount pre+j, decodingTime (pre ++ (count, duration) :: post) k < t) := by
  have hpos : 0 < duration := by
    rcases Nat.eq_zero_or_pos duration with h0 | h0
    · rw [h0,Nat.mul_zero] at hhi
      omega
    · exact h0
  generalize hq : (totalDuration pre+count*duration-t)/duration = q
  have hrem := Nat.div_add_mod (totalDuration pre+count*duration-t) duration
  have hlt := Nat.mod_lt (totalDuration pre+count*duration-t) hpos
  rw [hq] at hrem
  have hle : q ≤ count := by
    rw [← hq]
    apply Nat.div_le_of_le_mul
    rw [Nat.mul_comm]
    omega
  have hsplit : (count-q)*duration+duration*q = count*duration := by
    rw [Nat.mul_comm duration q,← Nat.add_mul,Nat.sub_add_cancel hle]
  have hat := decodingTime_within pre post duration (Nat.sub_le count q)
  refine ⟨count-q,Nat.sub_le _ _,rfl,hle,by omega,?_,?_⟩
  · rcases Nat.eq_zero_or_pos q with hq0 | hq0
    · have hmono := decodingTime_mono (pre ++ (count, duration) :: post)
        (Nat.le_add_right (sampleCount pre+(count-q)) 1)
      have hnone : duration*q = 0 := by rw [hq0,Nat.mul_zero]
      omega
    · have hnext := decodingTime_within pre post duration (show count-q+1 ≤ count by omega)
      rw [Nat.succ_mul] at hnext
      rw [Nat.add_assoc,hnext]
      omega
  · by_cases hfirst : count-q = 0
    · have hnone : (count-q)*duration = 0 := by rw [hfirst,Nat.zero_mul]
      exact .inl (by omega)
    · refine .inr fun k hk => ?_
      have hmono := decodingTime_mono (pre ++ (count, duration) :: post)
        (show k ≤ sampleCount pre+(count-q-1) by omega)
      rw [decodingTime_within pre post duration (by omega)] at hmono
      have hprev : (count-q)*duration = (count-q-1)*duration+duration := by
        rw [← Nat.succ_mul,Nat.succ_eq_add_one,Nat.sub_add_cancel (by omega)]
      omega

end Times

def sttsEntries (c : MOVContext) : List (ℕ × ℕ) :=
  (range c.sttsSize).map fun i =>
    (be32At c.moovBuffer (c.sttsOffset+i*8), be32At c.moovBuffer (c.sttsOffset+i*8+4))

/-- The stts box lies in the moov box, and its numbers and the time scale are not negative as
signed integers, nor are the sums the lookup makes. -/
structure SttsFits (c : MOVContext) : Prop where
  inside : c.sttsOffset+c.sttsSize*8 ≤ c.moovBuffer.length
  moov : c.moovBuffer.length < 2^32
  count : ∀ e ∈ sttsEntries c, e.1 < 2^31
  duration : ∀ e ∈ sttsEntries c, e.2 < 2^31
  samples : sampleCount (sttsEntries c) < 2^31
  total : totalDuration (sttsEntries c) < 2^64
  timeScale : 0 ≤ c.timeScale ∧ c.timeScale < 2^31

theorem int32_natCast {x : ℕ} (hx : x < 2^31) : int32 x = x :=
  int32_of_range (by omega) (by unfold intMax; omega)

theorem uint64_natCast {x : ℕ} (hx : x < 2^64) : uint64 x = x := by
  unfold uint64
  omega

section Lookup
variable {c : MOVContext} (h : SttsFits c)
include h

section
variable {pre post : List (ℕ × ℕ)} {count duration : ℕ}
  (he : sttsEntries c = pre ++ (count, duration) :: post)
include he

theorem SttsFits.readSttsEntry : pre.length < c.sttsSize ∧
      Mov.readSttsEntry c pre.length = some ((count : ℤ), (duration : ℤ)) := by
  have hlen : pre.length < c.sttsSize := by
    have := congrArg length he
    simp only [sttsEntries,length_map,length_range,length_append,length_cons] at this
    omega
  have hmem : (count, duration) ∈ sttsEntries c := by simp [he]
  have hentry : (sttsEntries c)[pre.length]? = some (count, duration) := by simp [he]
  simp only [sttsEntries,getElem?_map,getElem?_range hlen,Option.map_some,
    Option.some.injEq,Prod.mk.injEq] at hentry
  have hin := h.inside
  have hmoov := h.moov
  have hread (p idx : ℕ) (hidx : (c.sttsOffset+idx) % 2^32 = p)
      (hp : p+4 ≤ c.moovBuffer.length) : readStts c idx = some (be32At c.moovBuffer p) := by
    simp only [readStts,MOVContext.readTable,hidx]
    rw [if_neg (by omega),moovGetBe32,if_pos hp]
  refine ⟨hlen,?_⟩
  rw [Mov.readSttsEntry,hread (c.sttsOffset+pre.length*8) _ (by omega) (by omega),
    hread (c.sttsOffset+pre.length*8+4) _ (by omega) (by omega),hentry.1,hentry.2,
    Option.bind_some,Option.map_some,int32_natCast (h.count _ hmem),
    int32_natCast (h.duration _ hmem)]

theorem SttsFits.sums : sampleCount pre+count < 2^31 ∧ totalDuration pre+count*duration < 2^64 := by
  have hsamples := h.samples
  have htotal := h.total
  simp only [he,sampleCount,totalDuration,map_append,map_cons,sum_append,
    sum_cons,← Nat.add_assoc] at hsamples htotal ⊢
  exact ⟨Nat.lt_of_le_of_lt (Nat.le_add_right _ _) hsamples,
    Nat.lt_of_le_of_lt (Nat.le_add_right _ _) htotal⟩

end

theorem SttsFits.sttsLoop_succ {pre post : List (ℕ × ℕ)} {count duration t fuel : ℕ}
    (he : sttsEntries c = pre ++ (count, duration) :: post) :
    Mov.sttsLoop c t (fuel+1) pre.length (totalDuration pre) (sampleCount pre) =
      if t < totalDuration pre+count*duration then
        some ⟨pre.length,(totalDuration pre+count*duration : ℕ),
          (sampleCount pre+count : ℕ),duration⟩
      else Mov.sttsLoop c t fuel (pre.length+1) (totalDuration pre+count*duration : ℕ)
        (sampleCount pre+count : ℕ) := by
  obtain ⟨hlen,hread⟩ := h.readSttsEntry he
  obtain ⟨hcounts,htotals⟩ := h.sums he
  have hacc : uint64 (totalDuration pre+count*duration) =
      (totalDuration pre+count*duration : ℕ) := by
    exact uint64_natCast htotals
  have hcnt : int32 (sampleCount pre+count) = (sampleCount pre+count : ℕ) := by
    exact int32_natCast hcounts
  rw [Mov.sttsLoop,hread,Option.bind_some]
  simp only [hacc,hcnt]
  by_cases hstop : t < totalDuration pre+count*duration
  · rw [if_pos hstop,if_pos (.inl (Int.ofNat_lt.mpr hstop))]
  · rw [if_neg hstop,if_neg]
    rintro (hlt | hgt)
    · exact hstop (Int.ofNat_lt.mp hlt)
    · exact Nat.lt_asymm hlen hgt

theorem SttsFits.sttsLoop {t : ℕ} (ht : t < totalDuration (sttsEntries c)) :
    ∀ (rest pre : List (ℕ × ℕ)) (fuel : ℕ), sttsEntries c = pre ++ rest →
      totalDuration pre ≤ t → rest.length ≤ fuel →
      ∃ pre' count duration post, sttsEntries c = pre' ++ (count, duration) :: post ∧
        totalDuration pre' ≤ t ∧ t < totalDuration pre'+count*duration ∧
        Mov.sttsLoop c t fuel pre.length (totalDuration pre) (sampleCount pre) =
          some ⟨pre'.length,(totalDuration pre'+count*duration : ℕ),
            (sampleCount pre'+count : ℕ),duration⟩ := by
  intro rest
  induction rest with
  | nil =>
    intro pre fuel he hlo
    rw [he,append_nil] at ht
    exact absurd hlo (Nat.not_le_of_lt ht)
  | cons e rest ih =>
    obtain ⟨count,duration⟩ := e
    intro pre fuel he hlo hfuel
    cases fuel with
    | zero => exact absurd hfuel (Nat.not_succ_le_zero _)
    | succ fuel =>
      rw [h.sttsLoop_succ he]
      by_cases hstop : t < totalDuration pre+count*duration
      · exact ⟨pre,count,duration,rest,he,hlo,hstop,if_pos hstop⟩
      · have hsnoc : totalDuration (pre ++ [(count, duration)]) =
            totalDuration pre+count*duration := by simp [totalDuration]
        have hsnoc' : sampleCount (pre ++ [(count, duration)]) = sampleCount pre+count := by
          simp [sampleCount]
        have hnext := ih (pre ++ [(count, duration)]) fuel (by simp [he])
          (hsnoc.trans_le (Nat.le_of_not_lt hstop)) (Nat.le_of_succ_le_succ hfuel)
        rw [if_neg hstop]
        rwa [hsnoc,hsnoc',length_append,length_singleton] at hnext

/-- A time in millims before the end of the track is looked up without a read behind the table.
The sample found is the first one at or after the time exactly when no sample stands at the time
rounded down to a tick, or only one does and no rounding was needed. -/
theorem sample_at_time_iff (hexit : c.exitFlag = false) (ms : ℕ) (hms : ms < 2^31)
    (hend : c.timeScale.toNat*ms < 1000*totalDuration (sttsEntries c)) :
    ∃ (s : SttsPlace) (r : ℕ), sttsPlace c ms = some s ∧ s.sttsIdx < c.sttsSize ∧
      movTimeToSample c ms = some (r : ℤ) ∧
      (IsLeast {k | c.timeScale.toNat*ms ≤ 1000*decodingTime (sttsEntries c) k} r ↔
        ∀ k, decodingTime (sttsEntries c) k = c.timeScale.toNat*ms/1000 →
          1000*decodingTime (sttsEntries c) k = c.timeScale.toNat*ms ∧
          decodingTime (sttsEntries c) (k+1) ≠ decodingTime (sttsEntries c) k) := by
  obtain ⟨t,ht⟩ : ∃ t, t = c.timeScale.toNat*ms/1000 := ⟨_,rfl⟩
  obtain ⟨hscale,hscale'⟩ := h.timeScale
  have hseek : durationSeek c ms = t := by
    obtain ⟨scale,hs⟩ := Int.eq_ofNat_of_zero_le hscale
    have hprod : scale*ms < 2^64 := by
      have : scale*ms ≤ 2^31*2^31 := Nat.mul_le_mul (by omega) (by omega)
      omega
    rw [durationSeek,ht,hs,Int.toNat_natCast,← Nat.cast_mul,uint64_natCast hprod]
    norm_cast
  obtain ⟨pre,count,duration,post,he,hlo,hhi,hloop⟩ :=
    h.sttsLoop (t := t) (by omega) (sttsEntries c) [] (c.sttsSize+2) rfl (Nat.zero_le _)
      (by simp [sttsEntries])
  have hplace : sttsPlace c ms = some ⟨pre.length,
      (totalDuration pre+count*duration : ℕ),(sampleCount pre+count : ℕ),duration⟩ := by
    rw [sttsPlace,hseek]
    exact hloop
  obtain ⟨j,hj,hround,hle,hreached,hnext,hbefore⟩ :=
    rounded_sample_spec post hlo hhi
  have hduration := h.duration (count, duration) (by simp [he])
  obtain ⟨hcounts,htotals⟩ := h.sums he
  refine ⟨_,sampleCount pre+j,hplace,(h.readSttsEntry he).1,?_,?_⟩
  · have hne : (duration : ℤ) ≠ 0 := by
      intro h0
      rw [Int.natCast_eq_zero.mp h0,Nat.mul_zero] at hhi
      omega
    have hleft : uint64 ((totalDuration pre+count*duration : ℕ)-(t : ℤ)) =
        (totalDuration pre+count*duration-t : ℕ) := by
      rw [← Nat.cast_sub hhi.le]
      exact uint64_natCast (Nat.lt_of_le_of_lt (Nat.sub_le _ _) htotals)
    have hdiff : (sampleCount pre+count : ℕ) -
        ((totalDuration pre+count*duration-t)/duration : ℕ) =
          ((sampleCount pre+j : ℕ) : ℤ) := by omega
    rw [movTimeToSample,hexit,hplace]
    simp only [Bool.false_eq_true,if_false,Option.map_some]
    rw [if_pos hne,hseek,hleft,uint64_natCast (by omega),← Int.natCast_ediv,hdiff,
      int32_natCast (by omega)]
  · rw [he,← ht]
    have hmono {k k' : ℕ} (hk : k ≤ k') :=
      decodingTime_mono (pre ++ (count, duration) :: post) hk
    constructor
    · rintro ⟨hin,hleast⟩ k hk
      have hin : _ ≤ 1000*decodingTime (pre ++ (count, duration) :: post) (sampleCount pre+j) := hin
      have hexact : 1000*decodingTime (pre ++ (count, duration) :: post) k =
          c.timeScale.toNat*ms := by
        by_contra hrounded
        -- the sample found is behind the tick, and so is every later one
        have hlate : decodingTime (pre ++ (count, duration) :: post) (sampleCount pre+j) ≠ t := by
          omega
        have hearlier := hbefore.resolve_left hlate k
        have hlater := fun hge : sampleCount pre+j ≤ k => hmono hge
        omega
      refine ⟨hexact,?_⟩
      have hge : sampleCount pre+j ≤ k := hleast hexact.ge
      have hstep := hmono (Nat.add_le_add_right hge 1)
      omega
    · intro hzero
      refine ⟨?_,fun k hk => ?_⟩
      · have hthere := hzero (sampleCount pre+j)
        show _ ≤ 1000*decodingTime (pre ++ (count, duration) :: post) (sampleCount pre+j)
        omega
      · have hk : _ ≤ 1000*decodingTime (pre ++ (count, duration) :: post) k := hk
        by_contra hlt
        have hlt : k < sampleCount pre+j := Nat.lt_of_not_le hlt
        rcases hbefore with hexact | hearlier
        · have hupper := hmono (show k+1 ≤ sampleCount pre+j from hlt)
          have hstep := hmono (Nat.le_add_right k 1)
          have halone := hzero k
          omega
        · have hbelow := hearlier k hlt
          omega

end Lookup

def oneTrack (stts : List UInt8) (timeScale : ℤ) : MOVContext where
  moovBuffer := stts
  timeScale
  sttsOffset := 0
  sttsSize := stts.length/8
  stssOffset := 0
  stssSize := 0
  rapSeek := []
  exitFlag := false

def tenSamples : MOVContext := oneTrack (be32 10 ++ be32 20) 600

theorem sttsFits_tenSamples : SttsFits tenSamples := by
  constructor <;> decide

theorem sample_at_time_in_ten : ∃ (s : SttsPlace) (r : ℕ),
    sttsPlace tenSamples 100 = some s ∧ s.sttsIdx < 1 ∧
    movTimeToSample tenSamples 100 = some (r : ℤ) ∧
    IsLeast {k | 60000 ≤ 1000*decodingTime (sttsEntries tenSamples) k} r := by
  obtain ⟨s,r,hs,hidx,hr,hiff⟩ :=
    sample_at_time_iff sttsFits_tenSamples rfl 100 (by decide) (by decide)
  refine ⟨s,r,hs,hidx,hr,hiff.mpr fun k hk => ?_⟩
  have htime (k : ℕ) : decodingTime (sttsEntries tenSamples) k = min k 10*20 := rfl
  rw [htime] at hk ⊢
  rw [htime]
  have hk : min k 10*20 = 60 := hk
  exact ⟨by rw [hk]; rfl,by omega⟩

def zeroDuration : MOVContext := oneTrack (be32 1 ++ be32 0 ++ be32 1 ++ be32 1) 1000

/-- The seek to time zero finds sample 1, though sample 0 is at that time. -/
theorem sample_at_time_zero_skipped :
    SttsFits zeroDuration ∧ 0 < totalDuration (sttsEntries zeroDuration) ∧
      movTimeToSample zeroDuration 0 = some 1 ∧
      ¬IsLeast {k | 0 ≤ 1000*decodingTime (sttsEntries zeroDuration) k} 1 := by
  refine ⟨?_,by decide,by decide +kernel,fun hleast => ?_⟩
  · constructor <;> decide
  · exact absurd (hleast.2 (show 0 ∈ _ from Nat.zero_le _)) (by decide)

end TinaPackage.Mov
