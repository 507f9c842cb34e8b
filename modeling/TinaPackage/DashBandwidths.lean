import TinaPackage.MachineInt

/-! How the DASH parser chooses a representation by its bandwidth
(`parser/dash/CdxDashParser.c`). -/
namespace TinaPackage.Dash
open List Function

/-- `bandwidth` is an `unsigned int`. -/
structure Representation where
  mimeType : Option (List Char)
  bandwidth : ℕ

structure AdaptionSet where
  mimeType : Option (List Char)
  representation : List Representation

inductive StreamType
  | video
  | audio
  | subtitle
deriving DecidableEq

structure MediaStream where
  activeAdapSetIndex : ℕ
  activeRepSetIndex : ℕ

/-- `has` are `hasVideo`, `hasAudio` and `hasSubtitle`. -/
structure DashParser where
  mediaStream : StreamType → MediaStream
  has : StreamType → Bool

def streamType (mime : List Char) : Option StreamType :=
  if "video".toList <+: mime then some .video
  else if "audio".toList <+: mime then some .audio
  else if "subtitle".toList <+: mime then some .subtitle
  else none

def DashParser.activate (dash : DashParser) (t : StreamType) (i j : ℕ) : DashParser :=
  ⟨update dash.mediaStream t ⟨i,j⟩,update dash.has t true⟩

/-- The loop over the other representations of the video set. It compares each of them with
`bandwidth`, which it does not change. -/
def lowerIndex (bandwidth idx : ℕ) (reps : List Representation) : ℕ :=
  (reps.zipIdx 1).foldl (fun idx (rep, j) =>
    if rep.bandwidth ≠ 0 ∧ rep.bandwidth < bandwidth then j else idx) idx

def repIndexLoop : DashParser → ℕ → ℕ → List AdaptionSet → DashParser
  | dash, _, _, [] => dash
  | dash, bandwidth, i, adap :: sets =>
    match adap.representation with
    | [] => repIndexLoop dash bandwidth (i+1) sets
    | rep :: reps =>
      match adap.mimeType <|> rep.mimeType with
      -- the `break` of the loop
      | none => dash
      | some mime =>
        match streamType mime with
        | some .video =>
          let old := (dash.mediaStream .video).activeRepSetIndex
          let (bandwidth, idx) := if rep.bandwidth ≠ 0 then (rep.bandwidth, 0) else (bandwidth, old)
          repIndexLoop (dash.activate .video i (lowerIndex bandwidth idx reps)) bandwidth (i+1) sets
        | some t => repIndexLoop (dash.activate t i 0) bandwidth (i+1) sets
        | none => repIndexLoop dash bandwidth (i+1) sets

def repIndexInit (dash : DashParser) (sets : List AdaptionSet) : DashParser :=
  repIndexLoop dash 0xffffffff 0 sets

/-- A turn of the loop of `CdxDashRepIndexFromBandwidth`, with `repIdx` and `tmp`. -/
def nearer (bandwidth : ℕ) (best : ℕ × ℤ) (rep : Representation × ℕ) : ℕ × ℤ :=
  let diff := int32 ((bandwidth : ℤ)-(rep.1.bandwidth/1000 : ℕ))
  if diff > 0 ∧ diff < best.2 then (rep.2, diff) else best

def repIndexFromBandwidth (stream : MediaStream) (reps : List Representation) (bandwidth : ℕ) :
    MediaStream × ℤ :=
  let repIdx := (reps.zipIdx.foldl (nearer bandwidth)
    (stream.activeRepSetIndex, int32 0xffffffff)).1
  if repIdx = stream.activeRepSetIndex then (stream, 0)
  else ({ stream with activeRepSetIndex := repIdx }, 1)

/-- The video set that the loop comes to last, with its place: its first representation and the
others. -/
def videoSet : ℕ → List AdaptionSet → Option (ℕ × Representation × List Representation)
  | _, [] => none
  | i, adap :: sets =>
    match adap.representation with
    | [] => videoSet (i+1) sets
    | rep :: reps =>
      match adap.mimeType <|> rep.mimeType with
      | none => none
      | some mime => (videoSet (i+1) sets).or
          (if streamType mime = some .video then some (i, rep, reps) else none)

variable (reps : List Representation)

def Lowest (k : ℕ) : Prop :=
  ∃ rep, reps[k]? = some rep ∧ ∀ r ∈ reps, rep.bandwidth ≤ r.bandwidth

def NoneBelow (bandwidth : ℕ) : Prop := ∀ r ∈ reps, bandwidth ≤ r.bandwidth/1000

/-- Entry `k` has the highest bandwidth, in kbit/s, below the measured one. -/
def HighestBelow (bandwidth k : ℕ) : Prop :=
  ∃ rep, reps[k]? = some rep ∧ rep.bandwidth/1000 < bandwidth ∧
    ∀ r ∈ reps, r.bandwidth/1000 < bandwidth → r.bandwidth/1000 ≤ rep.bandwidth/1000

/-- The last one of `reps` whose bandwidth is below that of `rep`, or `rep`. -/
def lastLower (rep : Representation) (reps : List Representation) : Representation :=
  (reps.filter (·.bandwidth < rep.bandwidth)).getLastD rep

variable {reps} {rep : Representation} {sets : List AdaptionSet}

theorem getElem?_lowerIndex (hpos : ∀ r ∈ reps, r.bandwidth ≠ 0) :
    (rep :: reps)[lowerIndex rep.bandwidth 0 reps]? = some (lastLower rep reps) := by
  -- from the end of the list, since a later representation replaces the choice
  induction reps using reverseRecOn with
  | nil => rfl
  | append_singleton reps r ih =>
    have ih := ih fun r hr => hpos r (mem_append_left _ hr)
    have hr := hpos r (by simp)
    have hstep : lowerIndex rep.bandwidth 0 (reps ++ [r]) =
        if r.bandwidth < rep.bandwidth then 1+reps.length else lowerIndex rep.bandwidth 0 reps := by
      simp [lowerIndex,zipIdx_append,hr]
    rw [hstep,lastLower,filter_append]
    by_cases hlt : r.bandwidth < rep.bandwidth
    · simp [hlt,Nat.add_comm 1]
    · rw [if_neg hlt,← cons_append,getElem?_append_left,ih]
      · simp [hlt,lastLower]
      · exact (List.getElem?_eq_some_iff.mp ih).1

theorem repIndexLoop_video (hpos : ∀ adap ∈ sets, ∀ r ∈ adap.representation, r.bandwidth ≠ 0)
    (dash : DashParser) (bandwidth i : ℕ) :
    (repIndexLoop dash bandwidth i sets).mediaStream .video =
      match videoSet i sets with
      | none => dash.mediaStream .video
      | some (k, rep, reps) => ⟨k,lowerIndex rep.bandwidth 0 reps⟩ := by
  induction sets generalizing dash bandwidth i with
  | nil => rfl
  | cons adap sets ih =>
    have ih := ih fun s hs => hpos s (mem_cons_of_mem _ hs)
    rw [repIndexLoop,videoSet]
    cases hreps : adap.representation with
    | nil => exact ih _ _ _
    | cons rep reps =>
      have hrep : rep.bandwidth ≠ 0 := hpos adap mem_cons_self rep (by simp [hreps])
      dsimp only
      cases adap.mimeType <|> rep.mimeType with
      | none => rfl
      | some mime =>
        have hnext := fun dash bandwidth => ih dash bandwidth (i+1)
        dsimp only
        generalize streamType mime = t
        rcases t with _ | _ | _ | _
        all_goals
          dsimp only
          rw [hnext]
          cases videoSet (i+1) sets <;> simp [DashParser.activate,hrep]

theorem mem_of_videoSet {i k : ℕ} (h : videoSet i sets = some (k, rep, reps)) :
    ∃ adap ∈ sets, adap.representation = rep :: reps := by
  induction sets generalizing i with
  | nil => cases h
  | cons adap sets ih =>
    have htail {i : ℕ} (h : videoSet i sets = some (k, rep, reps)) :
        ∃ a ∈ adap :: sets, a.representation = rep :: reps := by
      obtain ⟨a,ha,heq⟩ := ih h
      exact ⟨a,mem_cons_of_mem _ ha,heq⟩
    rw [videoSet] at h
    split at h
    · exact htail h
    · next hreps =>
      split at h
      · cases h
      · rcases Option.or_eq_some_iff.mp h with hnext | ⟨-,hself⟩
        · exact htail hnext
        · split_ifs at hself
          cases hself
          exact ⟨adap,mem_cons_self,hreps⟩

theorem repIndexFromBandwidth_eq (stream : MediaStream) (reps : List Representation)
    (bandwidth : ℕ) : repIndexFromBandwidth stream reps bandwidth = (stream, 0) := by
  have hloop (best : ℕ × ℤ) (h : best.2 ≤ 0) (l : List (Representation × ℕ)) :
      l.foldl (nearer bandwidth) best = best := by
    induction l with
    | nil => rfl
    | cons r l ih =>
      rw [foldl_cons,nearer,if_neg (by omega),ih]
  rw [repIndexFromBandwidth,hloop _ (show int32 0xffffffff ≤ 0 by decide),if_pos rfl]

/-- The first choice is one of the lowest bandwidth exactly if the last representation with a
bandwidth below that of the first one is; and the choice is never changed for a measured bandwidth,
because `tmp` starts as -1. -/
theorem bandwidth_choice_iff (dash : DashParser) (sets : List AdaptionSet)
    (hpos : ∀ adap ∈ sets, ∀ r ∈ adap.representation, r.bandwidth ≠ 0) :
    (∀ k rep reps, videoSet 0 sets = some (k, rep, reps) →
      ((repIndexInit dash sets).mediaStream .video).activeAdapSetIndex = k ∧
      (Lowest (rep :: reps) ((repIndexInit dash sets).mediaStream .video).activeRepSetIndex ↔
        ∀ r ∈ rep :: reps, (lastLower rep reps).bandwidth ≤ r.bandwidth)) ∧
    ∀ stream reps bandwidth,
      let old := stream.activeRepSetIndex
      let new := (repIndexFromBandwidth stream reps bandwidth).1.activeRepSetIndex
      ((NoneBelow reps bandwidth ∨ HighestBelow reps bandwidth new) ∧
          (new = old ↔ NoneBelow reps bandwidth ∨ HighestBelow reps bandwidth old) ↔
        NoneBelow reps bandwidth ∨ HighestBelow reps bandwidth old) := by
  refine ⟨fun k rep reps hset => ?_, fun stream reps bandwidth => ?_⟩
  · obtain ⟨adap,hadap,heq⟩ := mem_of_videoSet hset
    have hreps (r) (hr : r ∈ reps) : r.bandwidth ≠ 0 := hpos adap hadap r (by simp [heq,hr])
    rw [repIndexInit,repIndexLoop_video hpos,hset]
    refine ⟨rfl,?_⟩
    simp only [Lowest,getElem?_lowerIndex hreps,Option.some_inj,exists_eq_left']
  · simp only [repIndexFromBandwidth_eq]
    tauto

def threeRates : List Representation := [⟨none,300000⟩,⟨none,100000⟩,⟨none,200000⟩]

def threeRatesVideo : List AdaptionSet := [⟨some "video/mp4".toList,threeRates⟩]

def newParser : DashParser := ⟨fun _ => ⟨0,0⟩,fun _ => false⟩

/-- Of falling rates the last one is chosen, and it stays the choice as long as it is the highest
below the measured bandwidth. -/
theorem bandwidth_choice_of_three :
    let rates : List Representation := [⟨none,300000⟩,⟨none,200000⟩,⟨none,100000⟩]
    let sets : List AdaptionSet := [⟨some "video/mp4".toList,rates⟩]
    Lowest rates ((repIndexInit newParser sets).mediaStream .video).activeRepSetIndex ∧
      HighestBelow rates 150 (repIndexFromBandwidth ⟨0,2⟩ rates 150).1.activeRepSetIndex := by
  intro rates sets
  obtain ⟨hinit,hmeasured⟩ := bandwidth_choice_iff newParser sets (by decide)
  have hbelow : HighestBelow rates 150 2 := by
    unfold HighestBelow
    decide +kernel
  refine ⟨(hinit 0 _ _ rfl).2.mpr (by decide +kernel),?_⟩
  exact ((hmeasured ⟨0,2⟩ rates 150).mpr (.inr hbelow)).1.resolve_left
    (by unfold NoneBelow; decide +kernel)

/-- The second of the three has the lowest bandwidth, and the first one the highest below 400. -/
theorem third_of_three_chosen :
    ((repIndexInit newParser threeRatesVideo).mediaStream .video).activeRepSetIndex = 2 ∧
      ¬Lowest threeRates 2 ∧
      (repIndexFromBandwidth ⟨0,2⟩ threeRates 400).1.activeRepSetIndex = 2 ∧
      ¬HighestBelow threeRates 400 2 ∧ ¬NoneBelow threeRates 400 := by
  refine ⟨by decide +kernel,?_,by decide +kernel,?_,by unfold NoneBelow; decide +kernel⟩
  · rintro ⟨rep,hrep,hle⟩
    cases hrep
    exact absurd (hle ⟨none,100000⟩ (by simp [threeRates])) (by decide)
  · rintro ⟨rep,hrep,-,hle⟩
    cases hrep
    exact absurd (hle ⟨none,300000⟩ (by simp [threeRates]) (by decide)) (by decide)

end TinaPackage.Dash
