import TinaPackage.Runs

/-! The scheduler of tinatest: `task_begin` starts each task of the list, `task_recycle` reaps the
children, restarts a task that has runs left and retires one that has none. A program counter of
`task_begin` stands between two accesses to what they share; `fork` and the store of the pid it
returned are two steps, so a child can die and be reaped in between. What `task_recycle` does with a
pid that it reaped is one step. -/
namespace TinaPackage.TestRunner
open Function

inductive Status
  | taskWait
  | taskRun
  | taskEnd
  deriving DecidableEq, Repr

/-- The limits of a task that `task_begin` and `task_recycle` read. The loader
takes `run_times` from the configuration only if it is positive. -/
structure TaskEnv where
  runTimes : ℕ
  runParallel : Bool
  runAlone : Bool
  runTimes_pos : 0 < runTimes

instance : Inhabited TaskEnv := ⟨⟨1,false,false,Nat.one_pos⟩⟩

/-- The task list and `run_cnt_up_to`, which the loader keeps positive too. -/
structure Config where
  tasks : List TaskEnv
  runCntUpTo : ℕ
  runCntUpTo_pos : 0 < runCntUpTo

def Config.tasksCnt (c : Config) : ℕ := c.tasks.length

def Config.env (c : Config) (i : ℕ) : TaskEnv := c.tasks.getD i default

/-- What changes in a `struct task`. An entry of `pid` or `pgid` is zero before
it is used, the pid while the process is thought to be alive, and minus the pid
once its death was matched. -/
structure TaskState where
  status : Status
  runTimes : ℕ
  pid : ℕ → ℤ
  pgid : ℕ → ℤ

namespace TaskState

def putPid (t : TaskState) (num : ℕ) (p : ℤ) : TaskState :=
  { t with pid := update t.pid num p }

def putPgid (t : TaskState) (num : ℕ) (p : ℤ) : TaskState :=
  { t with pgid := update t.pgid num p }

section

variable (t : TaskState) (num k : ℕ) (p : ℤ)

@[simp,grind =]
theorem putPid_status : (t.putPid num p).status = t.status := rfl

@[simp,grind =]
theorem putPid_runTimes : (t.putPid num p).runTimes = t.runTimes := rfl

@[simp,grind =]
theorem putPid_pgid : (t.putPid num p).pgid = t.pgid := rfl

@[grind =]
theorem putPid_pid : (t.putPid num p).pid k = if k = num then p else t.pid k :=
  update_apply ..

@[simp,grind =]
theorem putPgid_status : (t.putPgid num p).status = t.status := rfl

@[simp,grind =]
theorem putPgid_runTimes : (t.putPgid num p).runTimes = t.runTimes := rfl

@[simp,grind =]
theorem putPgid_pid : (t.putPgid num p).pid = t.pid := rfl

@[grind =]
theorem putPgid_pgid : (t.putPgid num p).pgid k = if k = num then p else t.pgid k :=
  update_apply ..

end

end TaskState

/-- A child that was forked and not yet reaped: its task, the value of
`run_times` at the fork, whether it runs the test case or only counts its time
limit down, and whether it has exited. -/
structure Child where
  pid : ℤ
  task : ℕ
  run : ℕ
  test : Bool
  exited : Bool
  deriving DecidableEq, Repr

inductive DoPc
  | lock
  | forkLimit
  | storePgid (p : ℤ)
  | forkTest
  | storePid (p : ℤ)
  | bump
  deriving DecidableEq, Repr

inductive MainPc
  | limitWait (i : ℕ)
  | waitChild (i : ℕ)
  | aloneWait (i : ℕ)
  | start (i : ℕ)
  | taskDo (i : ℕ) (pc : DoPc)
  | add (i : ℕ)
  | skip (i : ℕ)
  | aloneEnd (i : ℕ)
  | join
  | done
  deriving DecidableEq, Repr

inductive RecyclePc
  | wait
  | taskDo (i : ℕ) (pc : DoPc)
  | sub (i : ℕ)
  | tellParent (i : ℕ)
  | setEnd (i : ℕ)
  | exited
  deriving DecidableEq, Repr

structure State where
  task : ℕ → TaskState
  children : List Child
  runningCnt : ℤ
  endCnt : ℕ
  /-- Bytes in the pipe from `TELL_PARENT` to `WAIT_CHILD`. -/
  told : ℕ
  main : MainPc
  recycle : RecyclePc

/-- The state in which the recycle thread has reported and `task_begin` enters
its loop. -/
def State.init : State where
  task := fun _ => ⟨.taskWait,0,fun _ => 0, fun _ => 0⟩
  children := []
  runningCnt := 0
  endCnt := 0
  told := 0
  main := .limitWait 0
  recycle := .wait

/-- `do_task_lock` is held from its acquisition to the end of `task_do`. -/
def DoPc.locked : DoPc → Bool
  | .lock => false
  | _ => true

def MainPc.locked : MainPc → Bool
  | .taskDo _ pc => pc.locked
  | _ => false

def RecyclePc.locked : RecyclePc → Bool
  | .taskDo _ pc => pc.locked
  | _ => false

namespace State

def setTask (s : State) (i : ℕ) (t : TaskState) : State :=
  { s with task := update s.task i t }

def addChild (s : State) (ch : Child) : State :=
  { s with children := ch :: s.children }

@[grind =]
theorem setTask_task (s : State) (i j : ℕ) (t : TaskState) :
    (s.setTask i t).task j = if j = i then t else s.task j :=
  update_apply ..

section
variable (s : State) (i : ℕ) (t : TaskState)
include s i t

@[simp]
theorem setTask_self : (s.setTask i t).task i = t :=
  update_self ..

@[simp,grind =]
theorem setTask_children : (s.setTask i t).children = s.children := rfl

@[simp,grind =]
theorem setTask_main : (s.setTask i t).main = s.main := rfl

@[simp,grind =]
theorem setTask_recycle : (s.setTask i t).recycle = s.recycle := rfl

end

/-- A pid that `fork` may return: no child holds it, dead or alive, until it was
reaped. -/
def FreePid (s : State) (p : ℤ) : Prop := 0 < p ∧ ∀ ch ∈ s.children, ch.pid ≠ p

instance (s : State) (p : ℤ) : Decidable (s.FreePid p) := inferInstanceAs (Decidable (_ ∧ _))

end State

inductive Outcome
  | next (pc : DoPc)
  | success
  | failure
  deriving DecidableEq, Repr

variable (c : Config) (s : State)

/-- One step of `task_do` on task `i`; `fork` is what the kernel answers at a
fork, `none` for a failure. The step is not possible while the other thread
holds the lock. -/
def taskDo (i : ℕ) (fork : Option ℤ) : DoPc → Option (State × Outcome)
  | .lock =>
    if s.main.locked || s.recycle.locked then none
    else if (c.env i).runTimes ≤ (s.task i).runTimes then some (s, .failure)
    else some (s, .next .forkLimit)
  | .forkLimit =>
    match fork with
    | none => some (s.setTask i ((s.task i).putPgid (s.task i).runTimes (-1)), .failure)
    | some p =>
      if s.FreePid p then
        some (s.addChild ⟨p,i,(s.task i).runTimes,false,false⟩, .next (.storePgid p))
      else none
  | .storePgid p =>
    some (s.setTask i ((s.task i).putPgid (s.task i).runTimes p), .next .forkTest)
  | .forkTest =>
    match fork with
    | none => some (s.setTask i ((s.task i).putPid (s.task i).runTimes (-1)), .failure)
    | some p =>
      if s.FreePid p then
        some (s.addChild ⟨p,i,(s.task i).runTimes,true,false⟩, .next (.storePid p))
      else none
  | .storePid p =>
    some (s.setTask i ((s.task i).putPid (s.task i).runTimes p), .next .bump)
  | .bump =>
    let t := { s.task i with runTimes := (s.task i).runTimes+1 }
    if (c.env i).runParallel = true ∧ t.runTimes < (c.env i).runTimes then
      some (s.setTask i (t.putPgid t.runTimes (abs (t.pgid (t.runTimes-1)))), .next .forkTest)
    else some (s.setTask i t, .success)

/-- One step of `task_begin`. A loop that polls or blocks has no step while its condition holds. The
loop after the start of a lone task leaves only if one of its two reads alone would. -/
def mainStep (fork : Option ℤ) : Option State :=
  match s.main with
  | .limitWait i =>
    if i < c.tasksCnt then
      if (c.runCntUpTo : ℤ) ≤ s.runningCnt then some { s with main := .waitChild i }
      else some { s with main := .aloneWait i }
    else some { s with main := .join }
  | .waitChild i =>
    if 0 < s.told then some { s with told := s.told-1, main := .limitWait i } else none
  | .aloneWait i =>
    if (c.env i).runAlone = true ∧ 0 < s.runningCnt then none
    else some { s with main := .start i }
  | .start i =>
    some { s.setTask i { s.task i with status := .taskRun } with main := .taskDo i .lock }
  | .taskDo i pc =>
    match taskDo c s i fork pc with
    | none => none
    | some (s', .next pc') => some { s' with main := .taskDo i pc' }
    | some (s', .success) => some { s' with main := .add i }
    | some (s', .failure) => some { s' with main := .skip i }
  | .add i => some { s with runningCnt := s.runningCnt+1, main := .aloneEnd i }
  | .skip i =>
    some { s.setTask i { s.task i with status := .taskEnd } with main := .limitWait (i+1) }
  | .aloneEnd i =>
    if (c.env i).runAlone = true ∧ 0 < s.runningCnt ∧ s.endCnt+1 ≠ c.tasksCnt then none
    else some { s with main := .limitWait (i+1) }
  | .join => if s.recycle = .exited then some { s with main := .done } else none
  | .done => none

/-- The inner loop of the scan: the first run below `run_times` whose limit
process or test process has this pid; `true` for the test process. -/
def matchRun (t : TaskState) (p : ℤ) : Option (ℕ × Bool) :=
  (List.range t.runTimes).findSome? fun num =>
    if t.pgid num = p then some (num, false)
    else if t.pid num = p then some (num, true)
    else none

def scan (p : ℤ) : Option (ℕ × ℕ × Bool) :=
  (List.range c.tasksCnt).findSome? fun i =>
    if (s.task i).status = .taskRun then (matchRun (s.task i) p).map (i, ·) else none

def taskCheckEnd (env : TaskEnv) (t : TaskState) : Bool :=
  (!env.runParallel || (List.range t.runTimes).all fun num => decide (t.pid num ≤ 0)) &&
    decide (env.runTimes ≤ t.runTimes)

def recyclePid (p : ℤ) : State :=
  match scan c s p with
  | none => s
  | some (i, num, false) => s.setTask i ((s.task i).putPgid num (-p))
  | some (i, num, true) =>
    let t := (s.task i).putPid num (-p)
    { s.setTask i t with
      recycle :=
        if taskCheckEnd (c.env i) t then .sub i
        else if (c.env i).runParallel then .wait
        else .taskDo i .lock }

def State.reap (s : State) (p : ℤ) : State :=
  { s with children := s.children.filter fun ch => ch.pid ≠ p }

/-- One step of `task_recycle`; `reaped` is the pid that `wait4` returns, of a
child that has exited. -/
def recycleStep (fork : Option ℤ) (reaped : ℤ) : Option State :=
  match s.recycle with
  | .wait =>
    if s.endCnt = c.tasksCnt then some { s with recycle := .exited }
    else if ∃ ch ∈ s.children, ch.pid = reaped ∧ ch.exited = true then
      some (recyclePid c (s.reap reaped) reaped)
    else none
  | .taskDo i pc =>
    match taskDo c s i fork pc with
    | none => none
    | some (s', .next pc') => some { s' with recycle := .taskDo i pc' }
    | some (s', _) => some { s' with recycle := .wait }
  | .sub i =>
    some { s with
      endCnt := s.endCnt+1, runningCnt := s.runningCnt-1, recycle := .tellParent i }
  | .tellParent i =>
    some { s with
      told := if s.runningCnt+1 = c.runCntUpTo then s.told+1 else s.told
      recycle := .setEnd i }
  | .setEnd i =>
    some { s.setTask i { s.task i with status := .taskEnd } with recycle := .wait }
  | .exited => none

inductive Action
  | main (fork : Option ℤ)
  | recycle (fork : Option ℤ) (reaped : ℤ)
  | exit (p : ℤ)
  deriving DecidableEq, Repr

def exitChild (p : ℤ) (ch : Child) : Child := if ch.pid = p then { ch with exited := true } else ch

def step : Action → Option State
  | .main fork => mainStep c s fork
  | .recycle fork reaped => recycleStep c s fork reaped
  | .exit p =>
    if ∃ ch ∈ s.children, ch.pid = p ∧ ch.exited = false then
      some { s with children := s.children.map (exitChild p) }
    else none

/-- The steps of `task_do`, with what was tested on the way. -/
inductive DoMoves (c : Config) (s : State) (i : ℕ) : Option ℤ → DoPc → State → Outcome → Prop
  | tooOften {fork} : (c.env i).runTimes ≤ (s.task i).runTimes → DoMoves c s i fork .lock s .failure
  | locked {fork} : s.main.locked = false → s.recycle.locked = false →
      (s.task i).runTimes < (c.env i).runTimes → DoMoves c s i fork .lock s (.next .forkLimit)
  | limitFails : DoMoves c s i none .forkLimit
      (s.setTask i ((s.task i).putPgid (s.task i).runTimes (-1))) .failure
  | limitForks {p} : s.FreePid p → DoMoves c s i (some p) .forkLimit
      (s.addChild ⟨p,i,(s.task i).runTimes,false,false⟩) (.next (.storePgid p))
  | pgidStored {fork p} : DoMoves c s i fork (.storePgid p)
      (s.setTask i ((s.task i).putPgid (s.task i).runTimes p)) (.next .forkTest)
  | testFails : DoMoves c s i none .forkTest
      (s.setTask i ((s.task i).putPid (s.task i).runTimes (-1))) .failure
  | testForks {p} : s.FreePid p → DoMoves c s i (some p) .forkTest
      (s.addChild ⟨p,i,(s.task i).runTimes,true,false⟩) (.next (.storePid p))
  | pidStored {fork p} : DoMoves c s i fork (.storePid p)
      (s.setTask i ((s.task i).putPid (s.task i).runTimes p)) (.next .bump)
  | again {fork} : (c.env i).runParallel = true →
      (s.task i).runTimes+1 < (c.env i).runTimes → DoMoves c s i fork .bump
      (s.setTask i ({ s.task i with runTimes := (s.task i).runTimes+1 }.putPgid
        ((s.task i).runTimes+1) |(s.task i).pgid (s.task i).runTimes|)) (.next .forkTest)
  | lastRun {fork} : ((c.env i).runParallel = true →
      (c.env i).runTimes ≤ (s.task i).runTimes+1) → DoMoves c s i fork .bump
      (s.setTask i { s.task i with runTimes := (s.task i).runTimes+1 }) .success

variable {c : Config} {s s' : State} {fork : Option ℤ}

theorem doMoves_of_taskDo {i : ℕ} {pc : DoPc} {out : Outcome}
    (h : taskDo c s i fork pc = some (s', out)) : DoMoves c s i fork pc s' out := by
  cases pc with
  | lock =>
    simp only [taskDo] at h
    split_ifs at h with hl hr
    · cases h
      exact .tooOften hr
    · cases h
      simp only [Bool.or_eq_true,not_or,Bool.not_eq_true] at hl
      exact .locked hl.1 hl.2 (not_le.mp hr)
  | forkLimit =>
    cases fork with
    | none =>
      cases h
      exact .limitFails
    | some p =>
      simp only [taskDo] at h
      split_ifs at h with hp
      cases h
      exact .limitForks hp
  | storePgid | storePid =>
    cases h
    constructor
  | forkTest =>
    cases fork with
    | none =>
      cases h
      exact .testFails
    | some p =>
      simp only [taskDo] at h
      split_ifs at h with hp
      cases h
      exact .testForks hp
  | bump =>
    simp only [taskDo,Nat.add_sub_cancel] at h
    split_ifs at h with hp
    · cases h
      exact .again hp.1 hp.2
    · cases h
      exact .lastRun fun h1 => not_lt.mp fun h2 => hp ⟨h1,h2⟩

inductive Moves (c : Config) (s : State) : Action → State → Prop
  | listEnd {f i} : s.main = .limitWait i → c.tasksCnt ≤ i →
      Moves c s (.main f) { s with main := .join }
  | full {f i} : s.main = .limitWait i → i < c.tasksCnt → (c.runCntUpTo : ℤ) ≤ s.runningCnt →
      Moves c s (.main f) { s with main := .waitChild i }
  | room {f i} : s.main = .limitWait i → i < c.tasksCnt → s.runningCnt < c.runCntUpTo →
      Moves c s (.main f) { s with main := .aloneWait i }
  | told {f i} : s.main = .waitChild i → 0 < s.told →
      Moves c s (.main f) { s with told := s.told-1, main := .limitWait i }
  | admitted {f i} : s.main = .aloneWait i → ((c.env i).runAlone = true → s.runningCnt ≤ 0) →
      Moves c s (.main f) { s with main := .start i }
  | start {f i} : s.main = .start i → Moves c s (.main f)
      { s.setTask i { s.task i with status := .taskRun } with main := .taskDo i .lock }
  | mainNext {f i pc pc' t} : s.main = .taskDo i pc → DoMoves c s i f pc t (.next pc') →
      Moves c s (.main f) { t with main := .taskDo i pc' }
  | mainSuccess {f i pc t} : s.main = .taskDo i pc → DoMoves c s i f pc t .success →
      Moves c s (.main f) { t with main := .add i }
  | mainFailure {f i pc t} : s.main = .taskDo i pc → DoMoves c s i f pc t .failure →
      Moves c s (.main f) { t with main := .skip i }
  | add {f i} : s.main = .add i → Moves c s (.main f)
      { s with runningCnt := s.runningCnt+1, main := .aloneEnd i }
  | skip {f i} : s.main = .skip i → Moves c s (.main f)
      { s.setTask i { s.task i with status := .taskEnd } with main := .limitWait (i+1) }
  | aloneEnd {f i} : s.main = .aloneEnd i →
      ((c.env i).runAlone = true → 0 < s.runningCnt → s.endCnt+1 = c.tasksCnt) →
      Moves c s (.main f) { s with main := .limitWait (i+1) }
  | join {f} : s.main = .join → s.recycle = .exited → Moves c s (.main f) { s with main := .done }
  | leave {f p} : s.recycle = .wait → s.endCnt = c.tasksCnt →
      Moves c s (.recycle f p) { s with recycle := .exited }
  | reap {f ch} : s.recycle = .wait → s.endCnt ≠ c.tasksCnt → ch ∈ s.children → ch.exited = true →
      Moves c s (.recycle f ch.pid) (recyclePid c (s.reap ch.pid) ch.pid)
  | recycleNext {f p i pc pc' t} : s.recycle = .taskDo i pc → DoMoves c s i f pc t (.next pc') →
      Moves c s (.recycle f p) { t with recycle := .taskDo i pc' }
  | recycleSuccess {f p i pc t} : s.recycle = .taskDo i pc → DoMoves c s i f pc t .success →
      Moves c s (.recycle f p) { t with recycle := .wait }
  | recycleFailure {f p i pc t} : s.recycle = .taskDo i pc → DoMoves c s i f pc t .failure →
      Moves c s (.recycle f p) { t with recycle := .wait }
  | sub {f p i} : s.recycle = .sub i → Moves c s (.recycle f p) { s with
        endCnt := s.endCnt+1, runningCnt := s.runningCnt-1, recycle := .tellParent i }
  | tell {f p i} : s.recycle = .tellParent i → Moves c s (.recycle f p) { s with
        told := if s.runningCnt+1 = c.runCntUpTo then s.told+1 else s.told
        recycle := .setEnd i }
  | setEnd {f p i} : s.recycle = .setEnd i → Moves c s (.recycle f p)
      { s.setTask i { s.task i with status := .taskEnd } with recycle := .wait }
  | exit {ch} : ch ∈ s.children → ch.exited = false →
      Moves c s (.exit ch.pid) { s with children := s.children.map (exitChild ch.pid) }

theorem moves_of_mainStep (h : mainStep c s fork = some s') : Moves c s (.main fork) s' := by
  unfold mainStep at h
  split at h
  case h_1 i hpc =>
    split_ifs at h with hi hr
    · cases h
      exact .full hpc hi hr
    · cases h
      exact .room hpc hi (not_le.mp hr)
    · cases h
      exact .listEnd hpc (not_lt.mp hi)
  case h_2 i hpc =>
    split_ifs at h with ht
    cases h
    exact .told hpc ht
  case h_3 i hpc =>
    split_ifs at h with ha
    cases h
    exact .admitted hpc fun h1 => not_lt.mp fun h2 => ha ⟨h1,h2⟩
  case h_4 | h_6 | h_7 =>
    cases h
    constructor
    assumption
  case h_5 i pc hpc =>
    split at h
    case h_1 => cases h
    case h_2 t pc' hdo =>
      cases h
      exact .mainNext hpc (doMoves_of_taskDo hdo)
    case h_3 t hdo =>
      cases h
      exact .mainSuccess hpc (doMoves_of_taskDo hdo)
    case h_4 t hdo =>
      cases h
      exact .mainFailure hpc (doMoves_of_taskDo hdo)
  case h_8 i hpc =>
    split_ifs at h with ha
    cases h
    refine .aloneEnd hpc fun h1 h2 => ?_
    by_contra h3
    exact ha ⟨h1,h2,h3⟩
  case h_9 hpc =>
    split_ifs at h with hr
    cases h
    exact .join hpc hr
  case h_10 => cases h

theorem moves_of_recycleStep {p : ℤ} (h : recycleStep c s fork p = some s') :
    Moves c s (.recycle fork p) s' := by
  unfold recycleStep at h
  split at h
  case h_1 hpc =>
    split_ifs at h with he hch
    · cases h
      exact .leave hpc he
    · cases h
      obtain ⟨ch,hmem,rfl,hex⟩ := hch
      exact .reap hpc he hmem hex
  case h_2 i pc hpc =>
    split at h
    case h_1 => cases h
    case h_2 t pc' hdo =>
      cases h
      exact .recycleNext hpc (doMoves_of_taskDo hdo)
    case h_3 t out hne hdo =>
      cases h
      cases out with
      | next pc' => exact absurd rfl (hne pc')
      | success => exact .recycleSuccess hpc (doMoves_of_taskDo hdo)
      | failure => exact .recycleFailure hpc (doMoves_of_taskDo hdo)
  case h_3 | h_4 =>
    cases h
    constructor
    assumption
  case h_5 i hpc =>
    cases h
    exact .setEnd hpc
  case h_6 => cases h

theorem moves_of_step {a : Action} (h : step c s a = some s') : Moves c s a s' := by
  cases a with
  | main fork => exact moves_of_mainStep h
  | recycle fork p => exact moves_of_recycleStep h
  | exit p =>
    simp only [step] at h
    split_ifs at h with hch
    cases h
    obtain ⟨ch,hmem,rfl,hex⟩ := hch
    exact .exit hmem hex

theorem matchRun_some {t : TaskState} {p : ℤ} {num : ℕ} {b : Bool}
    (h : matchRun t p = some (num, b)) :
    num < t.runTimes ∧ (b = false → t.pgid num = p) ∧ (b = true → t.pid num = p) := by
  obtain ⟨k,hk,hf⟩ := List.exists_of_findSome?_eq_some h
  rw [List.mem_range] at hk
  split_ifs at hf with h1 h2
  · cases hf
    exact ⟨hk,fun _ => h1, nofun⟩
  · cases hf
    exact ⟨hk,nofun, fun _ => h2⟩

theorem scan_some {p : ℤ} {i num : ℕ} {b : Bool} (h : scan c s p = some (i, num, b)) :
    i < c.tasksCnt ∧ (s.task i).status = .taskRun ∧ num < (s.task i).runTimes ∧
      (b = false → (s.task i).pgid num = p) ∧ (b = true → (s.task i).pid num = p) := by
  obtain ⟨k,hk,hf⟩ := List.exists_of_findSome?_eq_some h
  rw [List.mem_range] at hk
  split_ifs at hf with hrun
  obtain ⟨r,hr,he⟩ := Option.map_eq_some_iff.mp hf
  cases he
  exact ⟨hk,hrun,matchRun_some hr⟩

end TinaPackage.TestRunner
