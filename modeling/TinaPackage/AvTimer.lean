import TinaPackage.Runs

/-! The clock that the decoders and the renderer share (`playback/avtimer.c`). Every function holds
the mutex, so it is one step, which gets what `CdxMonoTimeUs` returns. The constants 0.95, 0.05 and
1.05 are exact. -/
namespace TinaPackage.AvTimer

inductive Status where
  | stop
  | start
  deriving DecidableEq

structure VideoTimerInfo where
  nLastPts : ℤ
  nFrameDura : ℤ

structure AvTimerContext where
  nSpeed : ℤ
  fPlayRate : Float32
  eStatus : Status
  nStartTimeMedia : ℤ
  nStartTimeOs : ℤ
  videoInfo : VideoTimerInfo

def avTimerCreate : AvTimerContext :=
  { nSpeed := 1000, fPlayRate := 1, eStatus := .stop, nStartTimeMedia := 0, nStartTimeOs := 0,
    videoInfo := ⟨0,40*1000⟩ }

section
variable (t : AvTimerContext) (now : ℤ)

def avTimerStart : AvTimerContext := { t with eStatus := .start, nStartTimeOs := now }

def passedTime : ℤ := ((now-t.nStartTimeOs)*t.nSpeed).tdiv 1000

def avTimerReset : AvTimerContext :=
  { t with nStartTimeMedia := t.nStartTimeMedia+passedTime t now, nStartTimeOs := now }

def avTimerStop : AvTimerContext := { avTimerReset t now with eStatus := .stop }

def avTimerSetSpeed (nSpeed : ℤ) : AvTimerContext := { avTimerReset t now with nSpeed }

def mediaTime : ℤ :=
  (Float32.ofInt ((now-t.nStartTimeOs)*t.nSpeed)*t.fPlayRate/1000).toInt64.toInt + t.nStartTimeMedia

def avTimerSetPlayRate (rate : Float32) : AvTimerContext :=
  let t := { t with fPlayRate := rate }
  match t.eStatus with
  | .start => { t with nStartTimeMedia := mediaTime t now, nStartTimeOs := now }
  | .stop => t

def avTimerGetTime : ℤ × AvTimerContext :=
  match t.eStatus with
  | .start => (mediaTime t now, { t with nStartTimeMedia := mediaTime t now, nStartTimeOs := now })
  | .stop => (t.nStartTimeMedia, t)

/-- The time stamp that is shown, and the frame duration before it is limited. -/
def smoothed (vi : VideoTimerInfo) (pts : ℤ) : VideoTimerInfo :=
  if pts-vi.nLastPts < 0 then
    ⟨vi.nLastPts+vi.nFrameDura,(vi.nFrameDura*95).tdiv 100⟩
  else if pts-vi.nLastPts ≤ 2*vi.nFrameDura then
    ⟨pts,(vi.nFrameDura*95+(pts-vi.nLastPts)*5).tdiv 100⟩
  else
    ⟨vi.nLastPts+2*vi.nFrameDura,(vi.nFrameDura*105).tdiv 100⟩

def limited (nFrameDura : ℤ) : ℤ :=
  if nFrameDura < 5000 then 5000 else if nFrameDura > 100*1000 then 100*1000 else nFrameDura

def avTimerPtsToSystemTime (pts : ℤ) : ℤ × AvTimerContext :=
  match t.eStatus with
  | .stop => (t.nStartTimeOs*1000, t)
  | .start =>
    let vi := smoothed t.videoInfo pts
    ((vi.nLastPts-t.nStartTimeMedia+t.nStartTimeOs)*1000,
      { t with videoInfo := ⟨vi.nLastPts,limited vi.nFrameDura⟩ })

def avTimerSetTime (nTime : ℤ) : AvTimerContext :=
  { t with
    nStartTimeMedia := nTime
    nStartTimeOs := now
    videoInfo := { t.videoInfo with nLastPts := nTime } }

inductive Call where
  | start
  | stop
  | setSpeed (nSpeed : ℤ)
  | getSpeed
  | setPlayRate (rate : Float32)
  | getStatus
  | getTime
  | ptsToSystemTime (pts : ℤ)
  | setTime (nTime : ℤ)

def step : ℤ × Call → AvTimerContext
  | (now, .start) => avTimerStart t now
  | (now, .stop) => avTimerStop t now
  | (now, .setSpeed nSpeed) => avTimerSetSpeed t now nSpeed
  | (_, .getSpeed) => t
  | (now, .setPlayRate rate) => avTimerSetPlayRate t now rate
  | (_, .getStatus) => t
  | (now, .getTime) => (avTimerGetTime t now).2
  | (_, .ptsToSystemTime pts) => (avTimerPtsToSystemTime t pts).2
  | (now, .setTime nTime) => avTimerSetTime t now nTime

end

/-- The call neither starts the timer nor sets its time. -/
def Quiet (_ : AvTimerContext) : ℤ × Call → Prop
  | (_, .start) | (_, .setTime _) => False
  | _ => True

/-- A call that resets the timer comes less than a microsecond of media time after `nStartTimeOs`,
or as little before it. -/
def NoTimePasses (t : AvTimerContext) : ℤ × Call → Prop
  | (now, .stop) | (now, .setSpeed _) => |(now-t.nStartTimeOs)*t.nSpeed| < 1000
  | _ => True

def Shows (m : ℤ) (t : AvTimerContext) : Prop := ∀ now, (avTimerGetTime t now).1 = m

variable {t : AvTimerContext} {m : ℤ}

theorem shows_iff_of_stopped (h : t.eStatus = .stop) : Shows m t ↔ t.nStartTimeMedia = m := by
  have htime (now : ℤ) : (avTimerGetTime t now).1 = t.nStartTimeMedia := by
    rw [avTimerGetTime,h]
  constructor
  · intro hshows
    rw [← htime 0,hshows 0]
  · intro hm now
    rw [htime,hm]

theorem passedTime_eq_zero (t : AvTimerContext) (now : ℤ) :
    passedTime t now = 0 ↔ |(now-t.nStartTimeOs)*t.nSpeed| < 1000 := by
  rw [passedTime,← Int.natAbs_eq_zero,Int.natAbs_tdiv,Int.abs_eq_natAbs]
  change _/1000 = 0 ↔ _
  omega

theorem step_stopped (h : t.eStatus = .stop) {c : ℤ × Call} (hc : Quiet t c) :
    (step t c).eStatus = .stop ∧
      ((step t c).nStartTimeMedia = t.nStartTimeMedia ↔ NoTimePasses t c) := by
  obtain ⟨now,c⟩ := c
  have hadd : t.nStartTimeMedia+passedTime t now = t.nStartTimeMedia ↔
      |(now-t.nStartTimeOs)*t.nSpeed| < 1000 := by
    rw [← passedTime_eq_zero]
    omega
  cases c with
  | start | setTime nTime => exact hc.elim
  | stop => exact ⟨rfl,hadd⟩
  | setSpeed nSpeed => exact ⟨h,hadd⟩
  | getSpeed | getStatus => exact ⟨h,iff_of_true rfl trivial⟩
  | setPlayRate rate =>
    simp only [step,avTimerSetPlayRate,h]
    exact ⟨trivial,iff_of_true trivial trivial⟩
  | getTime =>
    simp only [step,avTimerGetTime,h]
    exact ⟨trivial,iff_of_true trivial trivial⟩
  | ptsToSystemTime pts =>
    simp only [step,avTimerPtsToSystemTime,h]
    exact ⟨trivial,iff_of_true trivial trivial⟩

/-- From any stopped state, as long as the timer is not started and its time is not set, it shows
one time if and only if no time has passed at any call of `AvTimerStop` and `AvTimerSetSpeed`. -/
theorem stopped_clock_stands_iff (t : AvTimerContext) (h : t.eStatus = .stop)
    (calls : List (ℤ × Call)) (hquiet : Guarded (fun t c => some (step t c)) Quiet t calls) :
    Always (fun t c => some (step t c)) (Shows t.nStartTimeMedia) t calls ↔
      Guarded (fun t c => some (step t c)) NoTimePasses t calls := by
  refine always_iff_guarded (fun s => s.eStatus = .stop ∧ s.nStartTimeMedia = t.nStartTimeMedia)
    ?_ ?_ ?_ calls t ⟨h,rfl⟩ hquiet
  · rintro s ⟨hs,hm⟩
    exact (shows_iff_of_stopped hs).mpr hm
  · rintro s c ⟨hs,hm⟩ hc hg
    obtain ⟨hstop,hsame⟩ := step_stopped hs hc
    exact ⟨_,rfl,hstop,(hsame.mpr hg).trans hm⟩
  · rintro s c s' ⟨hs,hm⟩ hc hg hstep hshows
    cases hstep
    obtain ⟨hstop,hsame⟩ := step_stopped hs hc
    exact hg (hsame.mp (((shows_iff_of_stopped hstop).mp hshows).trans hm.symm))

/-- The timer was stopped at seven seconds. Its speed is halved at once, and a microsecond later it
is stopped once more. -/
theorem stopped_clock_stands_at_once :
    let t := avTimerStop (avTimerStart (avTimerSetTime avTimerCreate 0 3000000) 6000000) 7000000
    Always (fun t c => some (step t c)) (Shows 4000000) t
      [(7000000, .setSpeed 500),(7000001, .getTime),(7000001, .stop)] := by
  intro t
  apply (stopped_clock_stands_iff t rfl _ ?_).mpr
  · simp [Guarded,NoTimePasses,step,t,avTimerSetSpeed,avTimerReset,avTimerStop,avTimerGetTime]
  · simp [Guarded,Quiet]

/-- A new timer that is stopped once more shows the system time. -/
theorem stop_moves_stopped_clock :
    (avTimerGetTime avTimerCreate 7000000).1 = 0 ∧
      (avTimerGetTime (avTimerStop avTimerCreate 7000000) 7000000).1 = 7000000 := by
  decide

def Limited (nFrameDura : ℤ) : Prop := 5000 ≤ nFrameDura ∧ nFrameDura ≤ 100000

theorem limited_limited (d : ℤ) : Limited (limited d) := by
  unfold Limited limited
  split_ifs <;> omega

theorem smoothed_nLastPts {vi : VideoTimerInfo} (h : Limited vi.nFrameDura) (pts : ℤ) :
    vi.nLastPts ≤ (smoothed vi pts).nLastPts ∧
      (smoothed vi pts).nLastPts ≤ vi.nLastPts+2*vi.nFrameDura := by
  obtain ⟨hlo,-⟩ := h
  unfold smoothed
  split_ifs with hback hnear
  · dsimp only
    omega
  · dsimp only
    omega
  · dsimp only
    omega

def NoSetTime (c : ℤ × Call) : Prop := ∀ nTime, c.2 ≠ .setTime nTime

def Smooth (vi vi' : VideoTimerInfo) : Prop :=
  vi.nLastPts ≤ vi'.nLastPts ∧ vi'.nLastPts ≤ vi.nLastPts+2*vi.nFrameDura

theorem step_videoInfo (h : Limited t.videoInfo.nFrameDura) (c : ℤ × Call) :
    Limited (step t c).videoInfo.nFrameDura ∧
      (NoSetTime c → Smooth t.videoInfo (step t c).videoInfo) := by
  have hsame {t' : AvTimerContext} (ht : t'.videoInfo = t.videoInfo) :
      Limited t'.videoInfo.nFrameDura ∧ (NoSetTime c → Smooth t.videoInfo t'.videoInfo) := by
    have hlo := h.1
    rw [ht]
    exact ⟨h,fun _ => ⟨Int.le_refl _,by omega⟩⟩
  obtain ⟨now,c⟩ := c
  cases c with
  | setTime nTime => exact ⟨h,fun hc => absurd rfl (hc nTime)⟩
  | ptsToSystemTime pts =>
    cases hs : t.eStatus with
    | stop => exact hsame (by simp only [step,avTimerPtsToSystemTime,hs])
    | start =>
      simp only [step,avTimerPtsToSystemTime,hs]
      exact ⟨limited_limited _,fun _ => smoothed_nLastPts h pts⟩
  | setPlayRate rate =>
    apply hsame
    simp only [step,avTimerSetPlayRate]
    split <;> rfl
  | getTime =>
    apply hsame
    simp only [step,avTimerGetTime]
    split <;> rfl
  | start | stop | setSpeed nSpeed | getSpeed | getStatus => exact hsame rfl

theorem run_videoInfo (h : Limited t.videoInfo.nFrameDura) (calls : List (ℤ × Call)) :
    Limited (calls.foldl step t).videoInfo.nFrameDura ∧ ((∀ c ∈ calls, NoSetTime c) →
      t.videoInfo.nLastPts ≤ (calls.foldl step t).videoInfo.nLastPts) := by
  induction calls generalizing t with
  | nil => exact ⟨h,fun _ => Int.le_refl _⟩
  | cons c calls ih =>
    obtain ⟨hlimited,hsmooth⟩ := step_videoInfo h c
    obtain ⟨hrun,hle⟩ := ih hlimited
    refine ⟨hrun,fun hcalls => ?_⟩
    have hfirst := hsmooth (hcalls c (List.mem_cons_self ..))
    exact Int.le_trans hfirst.1 (hle fun c' hc' => hcalls c' (List.mem_cons_of_mem _ hc'))

/-- In every state that the timer reaches, the frame duration is within its limits, and until the
next `AvTimerSetTime` the time stamp never goes back, and goes on by at most two frames a call. -/
theorem displayed_pts_smoothed (calls : List (ℤ × Call)) :
    let t := calls.foldl step avTimerCreate
    Limited t.videoInfo.nFrameDura ∧ ∀ more : List (ℤ × Call), (∀ c ∈ more, NoSetTime c) →
      let t' := more.foldl step t
      t.videoInfo.nLastPts ≤ t'.videoInfo.nLastPts ∧
        ∀ c, NoSetTime c → Smooth t'.videoInfo (step t' c).videoInfo := by
  have hcreate : Limited avTimerCreate.videoInfo.nFrameDura := ⟨by decide,by decide⟩
  intro t
  have ht : Limited t.videoInfo.nFrameDura := (run_videoInfo hcreate calls).1
  refine ⟨ht,fun more hmore => ?_⟩
  obtain ⟨hlimited,hle⟩ := run_videoInfo ht more
  exact ⟨hle hmore,fun c => (step_videoInfo hlimited c).2⟩

/-- A frame that comes a second early. -/
theorem displayed_pts_smoothed_one_frame :
    Smooth ([(0, .start)].foldl step avTimerCreate).videoInfo
      (step ([(0, .start)].foldl step avTimerCreate) (5, .ptsToSystemTime 1000000)).videoInfo :=
  ((displayed_pts_smoothed [(0, .start)]).2 [] (fun _ hc => by cases hc)).2 _
    fun _ hc => by cases hc

end TinaPackage.AvTimer
