import TinaPackage.MovTables

/-! The search for the key frame a seek goes to. -/
namespace TinaPackage.Mov

/-- The sync sample table has the numbers `v`, in increasing order, and is not empty. -/
structure SyncTable (c : MOVContext) (v : ℕ → ℕ) : Prop where
  pos : 0 < c.stssSize
  fits : c.stssSize*4 ≤ 2^32
  read : ∀ i < c.stssSize, readStss c (i*4) = some (v i)
  lt : ∀ i < c.stssSize, v i < 2^32
  increasing : ∀ j < c.stssSize, ∀ i < j, v i < v j

/-- Entry `k` is the first sync sample at or after sample `n`, or the last one when there is
none. -/
structure KeyframeFor (c : MOVContext) (v : ℕ → ℕ) (n k : ℕ) : Prop where
  inside : k < c.stssSize
  before : ∀ i < k, v i < n
  reached : n ≤ v k ∨ k+1 = c.stssSize

/-- The range from `low` to `high` is halved until it is the step to `k`. The last half that was
taken is the lower one. -/
def LastHalfLower (k low high : ℕ) : Prop :=
  if low+1 < high then
    if k ≤ (low+high)/2 then low+1 = (low+high)/2 ∨ LastHalfLower k low ((low+high)/2)
    else LastHalfLower k ((low+high)/2) high
  else False
termination_by high-low

variable {c : MOVContext} {v : ℕ → ℕ} {n k : ℕ}

theorem lastHalfLower_of_le {low high : ℕ} (h : high ≤ low+1) : ¬LastHalfLower k low high := by
  rw [LastHalfLower,if_neg (by omega)]
  exact not_false

theorem lastHalfLower_zero (high : ℕ) (h : 1 < high) : LastHalfLower 0 0 high := by
  induction high using Nat.strongRecOn with
  | ind high ih =>
    rw [LastHalfLower,if_pos (by omega),if_pos (Nat.zero_le _)]
    by_cases hend : 0+1 = (0+high)/2
    · exact .inl hend
    · exact .inr (ih _ (by omega) (by omega))

section
variable (h : SyncTable c v)
include h

theorem SyncTable.read_mod {i : ℕ} (hi : i < c.stssSize) :
    readStss c (i*4 % 2^32) = some (v i) := by
  have := h.fits
  rw [Nat.mod_eq_of_lt (by omega),h.read i hi]

theorem KeyframeFor.lt_iff (hk : KeyframeFor c v n k) {i : ℕ} (hi : i+1 < c.stssSize) :
    v i < n ↔ i < k := by
  constructor
  · intro hlt
    by_contra hge
    rcases hk.reached with hn | hlast
    · rcases Nat.lt_or_eq_of_le (Nat.le_of_not_lt hge) with hki | hki
      · have := h.increasing i (by omega) k hki
        omega
      · subst hki
        omega
    · omega
  · exact hk.before i

theorem linearSearch_up (hk : KeyframeFor c v n k) (fuel i key : ℕ) (hi : i ≤ k)
    (hfuel : c.stssSize < fuel+i) :
    ∃ idx, linearSearch c n true fuel i key = some (idx, v k) := by
  induction fuel generalizing i key with
  | zero =>
    have := hk.inside
    omega
  | succ fuel ih =>
    have hsize := hk.inside
    rw [linearSearch,if_pos (by omega),Int.toNat_natCast,h.read_mod (by omega),Option.bind_some]
    by_cases hlt : v i < n
    · rw [if_pos hlt]
      rcases Nat.lt_or_eq_of_le hi with hik | hik
      · exact ih (i+1) (v i) hik (by omega)
      · -- no entry reaches `n`, and the search runs off the table behind the last one
        subst hik
        have hlast : i+1 = c.stssSize := hk.reached.resolve_left (by omega)
        obtain ⟨fuel,rfl⟩ : ∃ fuel', fuel = fuel'+1 := ⟨fuel-1,by omega⟩
        refine ⟨(i : ℤ)+1,?_⟩
        simp only [Bool.not_true,Bool.false_eq_true,if_false]
        rw [linearSearch,if_neg (by omega)]
    · rw [if_neg hlt]
      have hik : i = k := by
        by_contra hne
        exact hlt (hk.before i (by omega))
      exact ⟨i,by simp [hik]⟩

theorem linearSearch_down (hn : n ≤ v 0) (fuel key : ℕ) :
    linearSearch c n false (fuel+2) 0 key = some (-1, v 0) := by
  have hread := h.read_mod h.pos
  rw [linearSearch,if_pos ⟨by decide,by exact_mod_cast h.pos⟩,Int.toNat_zero,hread,
    Option.bind_some,if_neg (by omega)]
  simp [linearSearch]

/-- The binary search ends with the step to entry `k` as its range. The entry it read last is
the end of the half it took last. -/
theorem binarySearch_spec (hk : KeyframeFor c v n k) (fuel low high key : ℕ)
    (hlow : low < k ∨ low = 0) (hhigh : k ≤ high) (hlt : low < high) (hsize : high < c.stssSize)
    (hfuel : high ≤ low+fuel) :
    ∃ last, binarySearch c n fuel low high key = some (max k 1, last) ∧
      (high = low+1 → last = key) ∧
      (low+1 < high → (LastHalfLower k low high → last = v (max k 1)) ∧
        (¬LastHalfLower k low high → last = v (max k 1-1))) := by
  induction fuel generalizing low high key with
  | zero => omega
  | succ fuel ih =>
    rw [binarySearch]
    by_cases hmore : low+1 < high
    · have hmid : low < (low+high)/2 ∧ (low+high)/2 < high := by omega
      simp only [if_pos hmore]
      rw [h.read_mod (by omega),Option.bind_some,LastHalfLower,if_pos hmore]
      by_cases hbelow : v ((low+high)/2) < n
      · have hmk := (hk.lt_iff h (by omega)).mp hbelow
        rw [if_pos hbelow,if_neg (by omega)]
        obtain ⟨last,hlast,hdone,hhalf⟩ :=
          ih ((low+high)/2) high _ (.inl hmk) hhigh hmid.2 hsize (by omega)
        refine ⟨last,hlast,fun he => by omega, fun _ => ?_⟩
        by_cases hend : high = (low+high)/2+1
        · refine ⟨fun hl => absurd hl (lastHalfLower_of_le (by omega)),fun _ => ?_⟩
          rw [hdone hend,show max k 1-1 = (low+high)/2 by omega]
        · exact hhalf (by omega)
      · have hmk : k ≤ (low+high)/2 :=
          Nat.le_of_not_lt fun hlt => hbelow ((hk.lt_iff h (by omega)).mpr hlt)
        rw [if_neg hbelow,if_pos hmk]
        obtain ⟨last,hlast,hdone,hhalf⟩ :=
          ih low ((low+high)/2) _ hlow hmk hmid.1 (by omega) (by omega)
        refine ⟨last,hlast,fun he => by omega, fun _ => ?_⟩
        by_cases hend : low+1 = (low+high)/2
        · refine ⟨fun _ => ?_, fun hnot => absurd (.inl hend) hnot⟩
          rw [hdone hend.symm,show max k 1 = (low+high)/2 by omega]
        · obtain ⟨hyes,hno⟩ := hhalf (by omega)
          exact ⟨fun hl => hyes (hl.resolve_left hend),fun hnot => hno fun hl => hnot (.inr hl)⟩
    · simp only [if_neg hmore]
      exact ⟨key,by rw [show max k 1 = high by omega],fun _ => rfl, fun he => absurd he hmore⟩

end

/-- The first sync sample is so close to sample `n` that the search is linear. -/
def Near (v : ℕ → ℕ) (n : ℕ) : Prop := frameInterval (v 0) n < 2048 ∧ frameInterval (v 0) n > -2048

theorem int32_sub_one_inj {a b : ℕ} (ha : a < 2^32) (hb : b < 2^32)
    (h : int32 (a-1) = int32 (b-1)) : a = b := by
  have hdvd : ((2^32 : ℕ) : ℤ) ∣ (a : ℤ)-1-(b-1) :=
    Int.dvd_of_bmod_eq_zero (Int.bmod_eq_bmod_iff_bmod_sub_eq_zero.mp h)
  omega

theorem linearSearch_found (h : SyncTable c v) (hk : KeyframeFor c v n k) :
    ∃ idx, linearSearch c n (v 0 < n) (c.stssSize+1) 0 (v 0) = some (idx, v k) := by
  by_cases hlt : v 0 < n
  · rw [decide_eq_true hlt]
    exact linearSearch_up h hk _ 0 _ (Nat.zero_le k) (by omega)
  · have hpos := h.pos
    have hk0 : k = 0 := by
      by_contra hne
      exact hlt (hk.before 0 (by omega))
    obtain ⟨fuel,hfuel⟩ : ∃ fuel, c.stssSize+1 = fuel+2 := ⟨c.stssSize-1,by omega⟩
    rw [decide_eq_false hlt,hfuel,hk0]
    exact ⟨-1,linearSearch_down h (by omega) fuel _⟩

theorem binarySearch_found (h : SyncTable c v) (hk : KeyframeFor c v n k) :
    ∃ high last, binarySearch c n c.stssSize 0 (c.stssSize-1) (v 0) = some (high, last) ∧
      last < 2^32 ∧ (last = v k ↔
        (c.stssSize ≤ 2 ∧ k = 0) ∨ (0 < k ∧ LastHalfLower k 0 (c.stssSize-1))) := by
  have hinside := hk.inside
  have hinj (i j : ℕ) (hij : i < j) (hj : j < c.stssSize) : v i ≠ v j :=
    Nat.ne_of_lt (h.increasing j hj i hij)
  by_cases hone : c.stssSize = 1
  · refine ⟨0,v 0,?_,h.lt 0 h.pos,?_⟩
    · rw [hone]
      rfl
    · have hk0 : k = 0 := by omega
      subst hk0
      simp [hone]
  · obtain ⟨last,hfound,hnone,hhalf⟩ := binarySearch_spec h hk c.stssSize 0 (c.stssSize-1)
      (v 0) (.inr rfl) (by omega) (by omega) (by omega) (by omega)
    by_cases htwo : c.stssSize = 2
    · rw [hnone (by omega)] at hfound
      refine ⟨_,_,hfound,h.lt 0 h.pos,?_⟩
      have hno : ¬LastHalfLower k 0 (c.stssSize-1) := lastHalfLower_of_le (by omega)
      by_cases hk0 : k = 0
      · subst hk0
        simp [htwo]
      · have := hinj 0 k (by omega) hinside
        simp [hk0,hno,this]
    · obtain ⟨hyes,hno⟩ := hhalf (by omega)
      by_cases hlower : LastHalfLower k 0 (c.stssSize-1)
      · rw [hyes hlower] at hfound
        refine ⟨_,_,hfound,h.lt _ (by omega),?_⟩
        by_cases hk0 : k = 0
        · have := hinj 0 1 (by omega) (by omega)
          subst hk0
          exact ⟨fun he => absurd he.symm this, fun he => by omega⟩
        · rw [show max k 1 = k by omega]
          simp [hlower,Nat.pos_of_ne_zero hk0]
      · rw [hno hlower] at hfound
        refine ⟨_,_,hfound,h.lt _ (by omega),?_⟩
        have hk0 : k ≠ 0 := by
          rintro rfl
          exact hlower (lastHalfLower_zero _ (by omega))
        have hne := hinj (max k 1-1) k (by omega) hinside
        simp [hne,hlower,hk0]

/-- The search finds the sync sample at or after sample `n`, or the last one, when it is linear, and
the binary search when it reads no further entry and the first one is the answer, or when the last
half it takes is the lower one. -/
theorem keyframe_found_iff (c : MOVContext) (v : ℕ → ℕ) (h : SyncTable c v)
    (hexit : c.exitFlag = false) (direction : ℤ) (n : ℕ) (hn : 0 < n) (k : ℕ)
    (hk : KeyframeFor c v n k) :
    ∃ stssIdx r, movFindKeyframe c direction n = some (stssIdx, r) ∧ (r = int32 (v k-1) ↔
        Near v n ∨ (c.stssSize ≤ 2 ∧ k = 0) ∨ (0 < k ∧ LastHalfLower k 0 (c.stssSize-1))) := by
  have hpos := h.pos
  rw [movFindKeyframe,if_neg (by omega),h.read 0 hpos,Option.bind_some,if_neg (by omega)]
  simp only [hexit,Bool.false_eq_true,false_and,if_false]
  by_cases hnear : Near v n
  · obtain ⟨idx,hfound⟩ := linearSearch_found h hk
    rw [if_pos (show _ ∧ _ from hnear),hfound]
    exact ⟨_,_,rfl,by simp [hnear]⟩
  · obtain ⟨high,last,hfound,hlast,hiff⟩ := binarySearch_found h hk
    rw [if_neg (show ¬(_ ∧ _) from hnear),hfound]
    refine ⟨_,_,rfl,?_⟩
    rw [← hiff,or_iff_right hnear]
    constructor
    · exact int32_sub_one_inj hlast (h.lt k hk.inside)
    · rintro rfl
      rfl

def threeKeyframes : MOVContext where
  moovBuffer := be32 1 ++ be32 3000 ++ be32 6000
  timeScale := 25
  sttsOffset := 0
  sttsSize := 0
  stssOffset := 0
  stssSize := 3
  rapSeek := []
  exitFlag := false

theorem syncTable_threeKeyframes : SyncTable threeKeyframes (fun i => [1,3000,6000].getD i 0) where
  pos := by decide
  fits := by decide
  read := by decide
  lt := by decide
  increasing := by decide

theorem keyframe_found_iff_at_sample_3000 : ∃ stssIdx r,
    movFindKeyframe threeKeyframes 0 3000 = some (stssIdx, r) ∧ r = int32 (3000-1) := by
  obtain ⟨idx,r,h,hiff⟩ := keyframe_found_iff threeKeyframes _ syncTable_threeKeyframes rfl 0
    3000 (by decide) 1 ⟨by decide,by decide,by decide⟩
  have hlower : LastHalfLower 1 0 2 := by
    rw [LastHalfLower]
    exact .inl rfl
  exact ⟨idx,r,h,hiff.mpr (.inr (.inr ⟨by decide,hlower⟩))⟩

/-- The seek to sample 4000 goes back to the key frame 3000, not on to 6000. -/
theorem keyframe_not_found : SyncTable threeKeyframes (fun i => [1,3000,6000].getD i 0) ∧
      KeyframeFor threeKeyframes (fun i => [1,3000,6000].getD i 0) 4000 2 ∧
      movFindKeyframe threeKeyframes 0 4000 = some (2, 3000-1) :=
  ⟨syncTable_threeKeyframes,⟨by decide,by decide,by decide⟩,by decide +kernel⟩

end TinaPackage.Mov
