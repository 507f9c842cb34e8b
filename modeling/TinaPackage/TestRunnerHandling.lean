import TinaPackage.TestRunnerLimits

/-! The handling of a death, access by access: what `task_recycle` does between `wait4` and the end
of `task_check_end` holds no lock, so `task_begin` can go on between any two of its reads. -/
namespace TinaPackage.TestRunner
open List State

/-- The next access of `task_recycle` to a task: its status, `run_times` for the loop over the
runs, an entry of `pgid` or `pid` to compare or to negate, and in `task_check_end` `run_times` and
`pid` for the loop, `run_times` for the test behind it and for the comparison with the limit. -/
inductive HandlePc
  | status (i : ℕ)
  | runs (i num : ℕ)
  | pgid (i num : ℕ)
  | pid (i num : ℕ)
  | putPgid (i num : ℕ)
  | putPid (i num : ℕ)
  | loop (i tmp : ℕ)
  | live (i tmp : ℕ)
  | all (i tmp : ℕ)
  | enough (i : ℕ)
  deriving DecidableEq, Repr

def HandlePc.task : HandlePc → ℕ
  | .status i | .runs i _ | .pgid i _ | .pid i _ | .putPgid i _ | .putPid i _ => i
  | .loop i _ | .live i _ | .all i _ | .enough i => i

variable (c : Config) (s : State) (p : ℤ)

/-- `task_check_end` has returned. -/
def checked (i : ℕ) (ended : Bool) : State :=
  { s with
    recycle := if ended then .sub i else if (c.env i).runParallel then .wait else .taskDo i .lock }

def handleStep : HandlePc → State × Option HandlePc
  | .status i => (s, if i < c.tasksCnt then
      some (if (s.task i).status = .taskRun then .runs i 0 else .status (i+1)) else none)
  | .runs i num => (s, some (if num < (s.task i).runTimes then .pgid i num else .status (i+1)))
  | .pgid i num => (s, some (if (s.task i).pgid num = p then .putPgid i num else .pid i num))
  | .pid i num => (s, some (if (s.task i).pid num = p then .putPid i num else .runs i (num+1)))
  | .putPgid i num => (s.setTask i ((s.task i).putPgid num (-p)), none)
  | .putPid i num => (s.setTask i ((s.task i).putPid num (-p)),
      some (if (c.env i).runParallel then .loop i 0 else .enough i))
  | .loop i tmp => (s, some (if tmp < (s.task i).runTimes then .live i tmp else .all i tmp))
  | .live i tmp => (s, some (if 0 < (s.task i).pid tmp then .all i tmp else .loop i (tmp+1)))
  | .all i tmp =>
    if tmp = (s.task i).runTimes then (s, some (.enough i)) else (checked c s i false, none)
  | .enough i => (checked c s i ((c.env i).runTimes ≤ (s.task i).runTimes), none)

/-- The scheduler with the handling of the death of `reaped`, while there is one. -/
structure Fine where
  base : State
  reaped : ℤ
  handling : Option HandlePc

def Fine.init : Fine := ⟨State.init,0,none⟩

def fineStep (x : Fine) : Action → Option Fine
  | .recycle fork reaped =>
    match x.handling with
    | some pc =>
      let (base, next) := handleStep c x.base x.reaped pc
      some ⟨base,x.reaped,next⟩
    | none =>
      if x.base.recycle = .wait ∧ x.base.endCnt ≠ c.tasksCnt then
        if ∃ ch ∈ x.base.children, ch.pid = reaped ∧ ch.exited = true then
          some ⟨x.base.reap reaped,reaped,some (.status 0)⟩
        else none
      else (recycleStep c x.base fork reaped).map fun s => { x with base := s }
  | a => (step c x.base a).map fun s => { x with base := s }

/-- The task whose status or `run_times` the next step of `task_begin` changes. -/
def MainPc.changes : MainPc → Option ℕ
  | .start i | .taskDo i .bump | .skip i => some i
  | _ => none

/-- The steps in which `task_begin` leaves the status and `run_times` of the task alone that
`task_recycle` looks at, and gets no process with the pid that is looked for. -/
def steadyStep (x : Fine) : Action → Option Fine
  | .main fork =>
    if ∃ pc ∈ x.handling, x.base.main.changes = some pc.task ∨ fork = some x.reaped then none
    else fineStep c x (.main fork)
  | a => fineStep c x a

/-- What the accesses so far have found in the task. -/
def HandlePc.Found (t : TaskState) : HandlePc → Prop
  | .status _ => True
  | .runs _ _ => t.status = .taskRun
  | .pgid _ num | .pid _ num | .putPgid _ num => t.status = .taskRun ∧ num < t.runTimes
  | .putPid _ num => t.status = .taskRun ∧ num < t.runTimes ∧ t.pid num = p
  | .loop i tmp | .all i tmp => t.status = .taskRun ∧ (c.env i).runParallel = true ∧
      0 < t.runTimes ∧ tmp ≤ t.runTimes ∧ ∀ num < tmp, t.pid num ≤ 0
  | .live i tmp => t.status = .taskRun ∧ (c.env i).runParallel = true ∧
      tmp < t.runTimes ∧ ∀ num < tmp, t.pid num ≤ 0
  | .enough _ => t.status = .taskRun ∧ 0 < t.runTimes ∧ ∀ num < t.runTimes, t.pid num ≤ 0

structure Handles (pc : HandlePc) : Prop where
  wait : s.recycle = .wait
  pos : 0 < p
  gone : ∀ ch ∈ s.children, ch.pid ≠ p
  found : pc.Found c p (s.task pc.task)

variable {c s p} {i num : ℕ} {s' : State}

theorem HandlePc.Found.congr {pc : HandlePc} {t t' : TaskState} (h : pc.Found c p t)
    (hstatus : t'.status = t.status) (hruns : t'.runTimes = t.runTimes)
    (hpid : ∀ num < t.runTimes, t'.pid num = t.pid num) : pc.Found c p t' := by
  cases pc <;> grind [HandlePc.Found]

theorem Limits.reap (h : Limits c s) (p : ℤ) : Limits c (s.reap p) :=
  ⟨h.pcs.of_children _,h.pids.reap p,h.counts.of_recycle rfl rfl rfl (fun _ => rfl) rfl⟩

theorem Limits.putPgid (h : Limits c s) (v : ℤ) :
    Limits c (s.setTask i ((s.task i).putPgid num v)) := by
  refine ⟨?_,?_,h.counts.of_recycle rfl rfl rfl (kept_setTask s i (by rfl)).status rfl⟩
  · obtain ⟨h1,h0,h2,h3,h4,h5,h6⟩ := h.pcs
    constructor <;> grind [Counted]
  · obtain ⟨h1,h2,h3,h4,h5⟩ := h.pids
    constructor <;> grind [Recorded,Doing]

theorem Limits.putPid (h : Limits c s) (hh : Handles c s p (.putPid i num)) :
    Limits c (s.setTask i ((s.task i).putPid num (-p))) := by
  obtain ⟨hwait,hpos,hgone,hfound⟩ := hh
  refine ⟨?_,?_,h.counts.of_recycle rfl rfl rfl (kept_setTask s i (by rfl)).status rfl⟩
  · obtain ⟨h1,h0,h2,h3,h4,h5,h6⟩ := h.pcs
    constructor <;> grind [Counted]
  · obtain ⟨h1,h2,h3,h4,h5⟩ := h.pids
    refine ⟨h1,h2,?_,?_,h5⟩
    · intro ch hch htest
      have hch' := hgone ch hch
      have hold := h3 ch hch htest
      grind [HandlePc.Found,HandlePc.task,Doing]
    · intro j hj k hk hpid
      have hlast := h4 j hj
      grind

/-- A task whose entries are all matched has no test process left, unless it is being started. -/
theorem Limits.goTo (h : Limits c s) (hh : Handles c s p (.enough i)) {r : RecyclePc}
    (hr : r = .sub i ∧ (c.env i).runTimes ≤ (s.task i).runTimes ∨ r = .taskDo i .lock ∧
      (c.env i).runParallel = false ∧ (s.task i).runTimes < (c.env i).runTimes) :
    Limits c { s with recycle := r } := by
  obtain ⟨hstatus,hruns,hpid⟩ : (s.task i).status = .taskRun ∧ 0 < (s.task i).runTimes ∧
    ∀ num < (s.task i).runTimes, (s.task i).pid num ≤ 0 := hh.found
  have hwait := hh.wait
  have hstart : s.main.starting ≠ some i := fun hi => by
    obtain ⟨-,hlt,hfirst⟩ := h.pcs.starting i hi
    rcases hr with ⟨-,hle⟩ | ⟨-,hpar,-⟩
    · omega
    · exact hruns.ne' (hfirst hpar)
  refine ⟨?_,?_,h.counts.of_recycle rfl rfl rfl (fun _ => rfl) ?_⟩
  · obtain ⟨h1,h0,h2,h3,h4,h5,h6⟩ := h.pcs
    rcases hr with ⟨rfl,hle⟩ | ⟨rfl,hpar,hlt⟩ <;>
      constructor <;> grind [Counted,RecyclePc.working,RecyclePc.retiring]
  · obtain ⟨h1,h2,h3,h4,h5⟩ := h.pids
    refine ⟨h1,h2,fun ch hch htest => ?_,fun j hj k hk hpos => ?_,fun j hj ch hch htest htask => ?_⟩
    · have hold := h3 ch hch htest
      grind [Doing]
    · have hlast := h4 j hj k hk hpos
      grind
    · have hpos := h2 ch hch
      have hold := h3 ch hch htest
      grind [RecyclePc.closing,Doing,MainPc.starting]
  · rcases hr with ⟨rfl,-⟩ | ⟨rfl,-⟩ <;> rw [hwait] <;> rfl

/-- The scheduler keeps the limits, and what the handling has found still holds. -/
structure Sound (c : Config) (x : Fine) : Prop where
  limits : Limits c x.base
  handles : ∀ pc ∈ x.handling, Handles c x.base x.reaped pc

theorem Sound.idle (h : Limits c s) : Sound c ⟨s,p,none⟩ := ⟨h,by simp⟩

theorem sound_handleStep {pc : HandlePc} (h : Limits c s) (hh : Handles c s p pc) :
    Sound c ⟨(handleStep c s p pc).1,p,(handleStep c s p pc).2⟩ := by
  have hfound := hh.found
  -- an access that only reads says what it has found
  have hread {pc' : HandlePc} (hf : pc'.Found c p (s.task pc'.task)) :
      Sound c ⟨s,p,some pc'⟩ := ⟨h,by rintro _ ⟨⟩; exact { hh with found := hf }⟩
  cases pc with
  | status i =>
    simp only [handleStep]
    split_ifs with hi hrun
    · exact hread hrun
    · exact hread trivial
    · exact .idle h
  | runs i num =>
    simp only [handleStep]
    split_ifs with hnum
    · exact hread ⟨hfound,hnum⟩
    · exact hread trivial
  | pgid i num =>
    simp only [handleStep]
    split_ifs <;> exact hread hfound
  | pid i num =>
    simp only [handleStep]
    split_ifs with hpid
    · exact hread ⟨hfound.1,hfound.2,hpid⟩
    · exact hread hfound.1
  | putPgid i num => exact .idle (h.putPgid _)
  | putPid i num =>
    refine ⟨h.putPid hh,?_⟩
    obtain ⟨hstatus,hnum,hpid⟩ := hfound
    have hpos := hh.pos
    rintro _ ⟨⟩
    refine ⟨hh.wait,hpos,hh.gone,?_⟩
    cases hpar : (c.env i).runParallel with
    | true =>
      show HandlePc.Found c p ((s.setTask i _).task i) (.loop i 0)
      rw [setTask_self]
      exact ⟨hstatus,hpar,(Nat.zero_le _).trans_lt hnum,Nat.zero_le _,by simp⟩
    | false =>
      show HandlePc.Found c p ((s.setTask i _).task i) (.enough i)
      rw [setTask_self]
      refine ⟨hstatus,(Nat.zero_le _).trans_lt hnum,fun k hk => ?_⟩
      -- of a task without parallel runs only the last one has an open entry
      have hlast := h.pids.lastOpen i hpar
      grind [HandlePc.task]
  | loop i tmp =>
    simp only [handleStep]
    split_ifs with htmp
    · exact hread ⟨hfound.1,hfound.2.1,htmp,hfound.2.2.2.2⟩
    · exact hread hfound
  | live i tmp =>
    obtain ⟨hstatus,hpar,htmp,hpid⟩ := hfound
    simp only [handleStep]
    split_ifs with hlive
    · exact hread ⟨hstatus,hpar,(Nat.zero_le _).trans_lt htmp,htmp.le,hpid⟩
    · refine hread ⟨hstatus,hpar,(Nat.zero_le _).trans_lt htmp,htmp,fun num hnum => ?_⟩
      obtain rfl | hlt := eq_or_lt_of_le (Nat.lt_succ_iff.mp hnum)
      · exact not_lt.mp hlive
      · exact hpid num hlt
  | all i tmp =>
    obtain ⟨hstatus,hpar,hruns,-,hpid⟩ := hfound
    simp only [handleStep]
    split_ifs with htmp
    · exact hread ⟨hstatus,hruns,htmp ▸ hpid⟩
    · refine .idle ?_
      rwa [checked,if_neg Bool.false_ne_true,if_pos hpar,← hh.wait]
  | enough i =>
    refine .idle ?_
    simp only [handleStep,checked,decide_eq_true_eq]
    split_ifs with hle hpar
    · exact h.goTo hh (.inl ⟨rfl,hle⟩)
    · rwa [← hh.wait]
    · exact h.goTo hh (.inr ⟨rfl,by simpa using hpar,not_le.mp hle⟩)

variable {f : Option ℤ}

theorem DoMoves.steady {i j : ℕ} {pc : DoPc} {out : Outcome} {t : State}
    (hd : DoMoves c s j f pc t out) (hbump : pc = .bump → j ≠ i) :
    (t.task i).runTimes = (s.task i).runTimes ∧
      ∀ num < (s.task i).runTimes, (t.task i).pid num = (s.task i).pid num := by
  cases hd <;> grind [addChild]

theorem Moves.steady {i : ℕ} (hm : Moves c s (.main f) s') (hsteady : s.main.changes ≠ some i) :
    s'.recycle = s.recycle ∧ (s'.task i).status = (s.task i).status ∧
      (s'.task i).runTimes = (s.task i).runTimes ∧
      ∀ num < (s.task i).runTimes, (s'.task i).pid num = (s.task i).pid num := by
  cases hm with
  | mainNext hpc hd | mainSuccess hpc hd | mainFailure hpc hd =>
    refine ⟨hd.kept.recycle,hd.kept.status i,hd.steady ?_⟩
    rintro rfl rfl
    exact hsteady (by rw [hpc]; rfl)
  | start hpc | skip hpc => grind [MainPc.changes]
  | _ => exact ⟨rfl,rfl,rfl,fun _ _ => rfl⟩

theorem Moves.forked (hm : Moves c s (.main f) s') :
    ∀ ch ∈ s'.children, ch ∈ s.children ∨ f = some ch.pid := by
  cases hm with
  | mainNext hpc hd | mainSuccess hpc hd | mainFailure hpc hd =>
    cases hd <;> grind [addChild]
  | _ => exact fun ch hch => .inl hch

theorem Handles.main {pc : HandlePc} (hh : Handles c s p pc) (hm : Moves c s (.main f) s')
    (hsteady : s.main.changes ≠ some pc.task) (hfork : f ≠ some p) : Handles c s' p pc := by
  obtain ⟨hrecycle,hstatus,hruns,hpid⟩ := hm.steady hsteady
  refine ⟨hrecycle.trans hh.wait,hh.pos,fun ch hch hp => ?_,hh.found.congr hstatus hruns hpid⟩
  obtain hold | hnew := hm.forked ch hch
  · exact hh.gone ch hold hp
  · exact hfork (hp ▸ hnew)

theorem Sound.step {x x' : Fine} (h : Sound c x) {a : Action} (hs : steadyStep c x a = some x') :
    Sound c x' := by
  cases a with
  | main fork =>
    simp only [steadyStep] at hs
    split_ifs at hs with hsteady
    push Not at hsteady
    obtain ⟨s',hm,rfl⟩ := Option.map_eq_some_iff.mp hs
    have hmoves := moves_of_mainStep hm
    exact ⟨h.limits.moves hmoves,fun pc hpc =>
      (h.handles pc hpc).main hmoves (hsteady pc hpc).1 (hsteady pc hpc).2⟩
  | recycle fork reaped =>
    simp only [steadyStep,fineStep] at hs
    cases hhandling : x.handling with
    | some pc =>
      rw [hhandling] at hs
      cases hs
      exact sound_handleStep h.limits (h.handles pc hhandling)
    | none =>
      simp only [hhandling] at hs
      split_ifs at hs with hwait hch
      · cases hs
        obtain ⟨ch,hmem,rfl,hex⟩ := hch
        refine ⟨h.limits.reap _,?_⟩
        rintro _ ⟨⟩
        exact ⟨hwait.1,h.limits.pids.pos ch hmem,fun _ hch => (mem_reap.mp hch).2,trivial⟩
      · obtain ⟨s',hs',rfl⟩ := Option.map_eq_some_iff.mp hs
        exact ⟨h.limits.moves (moves_of_recycleStep hs'),nofun⟩
  | exit q =>
    obtain ⟨s',hs',rfl⟩ := Option.map_eq_some_iff.mp hs
    refine ⟨h.limits.moves (moves_of_step hs'),fun pc hpc => ?_⟩
    simp only [TestRunner.step] at hs'
    split_ifs at hs' with hch
    cases hs'
    refine { h.handles pc hpc with gone := ?_ }
    simpa [exitChild_same] using (h.handles pc hpc).gone

/-- In every interleaving of the two threads, access by access, and the exits of the children, at
most `run_cnt_up_to` tasks are running with a test process, and a task that runs alone is the only
one, if `task_begin` leaves the status and `run_times` of a task alone while its processes are
looked at for a death, and forks no process with the dead one's pid then. -/
theorem running_tasks_limited_if_steady (c : Config) (as : List Action) (x : Fine)
    (hrun : runSteps (steadyStep c) Fine.init as = some x) :
    (x.base.busy c).card ≤ c.runCntUpTo ∧
      ∀ i ∈ x.base.busy c, (c.env i).runAlone = true → ∀ j ∈ x.base.busy c, j = i := by
  have h : Sound c x := runSteps_preserves (Sound c) (fun _ _ _ hi hs => hi.step hs) as
    Fine.init x ⟨limits_init c,nofun⟩ hrun
  refine ⟨h.limits.card_busy_le,fun i hi halone j hj => ?_⟩
  exact h.limits.alone (Finset.mem_filter.mp hi).2 halone (Finset.mem_filter.mp hj).2

/-- A task with two runs at once, and another one that has to wait for it. -/
def oneAtATime : Config where
  tasks := [⟨2,true,false,Nat.two_pos⟩,⟨1,false,false,Nat.one_pos⟩]
  runCntUpTo := 1
  runCntUpTo_pos := Nat.one_pos

/-- The first task up to the fork of its second process. -/
def forkTwice : List Action := (startSteps 10 11).take 9 ++ [.main (some 12)]

/-- `task_begin` comes to wait for the limit while the death of the first process is handled. -/
def waitWhileHandled : List Action :=
  forkTwice ++ replicate 3 (.main none) ++ .exit 11 :: replicate 6 (.recycle none 11) ++
    replicate 2 (.main none)

theorem running_tasks_limited_while_handled :
    ∃ x, runSteps (steadyStep oneAtATime) Fine.init waitWhileHandled = some x ∧
      x.handling = some (.loop 0 0) ∧ x.base.busy oneAtATime = {0} ∧
      (x.base.busy oneAtATime).card ≤ oneAtATime.runCntUpTo := by
  have hsome : (runSteps (steadyStep oneAtATime) Fine.init waitWhileHandled).map (fun x =>
      (x.handling,x.base.busy oneAtATime)) = some (some (.loop 0 0),{0}) := by decide +kernel
  obtain ⟨x,hrun,hx⟩ := Option.map_eq_some_iff.mp hsome
  obtain ⟨hhandling,hbusy⟩ := Prod.mk.inj hx
  exact ⟨x,hrun,hhandling,hbusy,(running_tasks_limited_if_steady oneAtATime _ _ hrun).1⟩

/-- `task_check_end` reads `run_times` as 1 in its loop and behind it, and as 2 when it compares it
with the limit: the task is retired with its second process alive, and the other one starts. -/
theorem two_tasks_at_once :
    (runSteps (fineStep oneAtATime) Fine.init (forkTwice ++
        .exit 11 :: replicate 10 (.recycle none 11) ++ replicate 3 (.main none) ++
        replicate 2 (.recycle none 11) ++ .main none :: (startSteps 13 14).take 7)).map
      (fun x => x.base.busy oneAtATime) = some {0,1} := by
  decide +kernel

end TinaPackage.TestRunner
