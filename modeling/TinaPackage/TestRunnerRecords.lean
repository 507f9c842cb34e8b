import TinaPackage.TestRunnerModel

/-! The records of the scheduler in every interleaving: which task each thread
works on, and that the pid of every test process that was not reaped stands in
its task's array, or is about to. -/
namespace TinaPackage.TestRunner
open List State

def MainPc.reached (c : Config) : MainPc → ℕ
  | .limitWait i | .waitChild i | .aloneWait i | .start i => i
  | .taskDo i _ | .add i | .skip i | .aloneEnd i => i+1
  | .join | .done => c.tasksCnt

def MainPc.starting : MainPc → Option ℕ
  | .taskDo i _ | .skip i => some i
  | _ => none

def RecyclePc.working : RecyclePc → Option ℕ
  | .taskDo i _ | .sub i => some i
  | _ => none

def RecyclePc.retiring : RecyclePc → Option ℕ
  | .tellParent i | .setEnd i => some i
  | _ => none

structure State.Counted (s : State) (i : ℕ) : Prop where
  status : (s.task i).status = .taskRun
  started : s.main.starting ≠ some i
  kept : s.recycle.retiring ≠ some i

/-- The part of the invariant that relates the two program counters and the
status of the tasks. -/
structure Pcs (c : Config) (s : State) : Prop where
  reached_le : s.main.reached c ≤ c.tasksCnt
  upcoming : ∀ i, s.main = .aloneWait i ∨ s.main = .start i → i < c.tasksCnt
  waiting : ∀ j, s.main.reached c ≤ j → (s.task j).status = .taskWait ∧ (s.task j).runTimes = 0
  starting : ∀ i, s.main.starting = some i → (s.task i).status = .taskRun ∧
    (s.task i).runTimes < (c.env i).runTimes ∧
    ((c.env i).runParallel = false → (s.task i).runTimes = 0)
  working : ∀ i, s.recycle.working = some i → s.Counted i
  again : ∀ i pc, s.recycle = .taskDo i pc →
    (c.env i).runParallel = false ∧ (s.task i).runTimes < (c.env i).runTimes
  retiring : ∀ i, s.recycle.retiring = some i →
    (s.task i).status = .taskRun ∧ s.main.starting ≠ some i

theorem pcs_init (c : Config) : Pcs c init where
  reached_le := Nat.zero_le _
  upcoming := nofun
  waiting := fun _ _ => ⟨rfl,rfl⟩
  starting := nofun
  working := nofun
  again := nofun
  retiring := nofun

/-- `task_do` on task `i` leaves the program counters, the counters and the
other tasks alone, and the status of `i` too. -/
structure Kept (s t : State) (i : ℕ) : Prop where
  main : t.main = s.main
  recycle : t.recycle = s.recycle
  runningCnt : t.runningCnt = s.runningCnt
  endCnt : t.endCnt = s.endCnt
  told : t.told = s.told
  status : ∀ j, (t.task j).status = (s.task j).status
  others : ∀ j, j ≠ i → t.task j = s.task j

theorem kept_setTask (s : State) (i : ℕ) {t : TaskState} (h : t.status = (s.task i).status) :
    Kept s (s.setTask i t) i where
  main := rfl
  recycle := rfl
  runningCnt := rfl
  endCnt := rfl
  told := rfl
  status := by
    intro j
    by_cases hj : j = i
    · subst hj
      rw [setTask_self,h]
    · rw [setTask_task,if_neg hj]
  others := fun j hj => Function.update_of_ne hj _ _

variable {c : Config} {s t s' : State} {i : ℕ} {f : Option ℤ} {pc : DoPc} {out : Outcome}

theorem DoMoves.kept (h : DoMoves c s i f pc t out) : Kept s t i := by
  cases h with
  | tooOften | locked => exact ⟨rfl,rfl,rfl,rfl,rfl,fun _ => rfl, fun _ _ => rfl⟩
  | limitForks | testForks => exact ⟨rfl,rfl,rfl,rfl,rfl,fun _ => rfl, fun _ _ => rfl⟩
  | limitFails | pgidStored | testFails | pidStored | again | lastRun => exact kept_setTask s i rfl

theorem DoMoves.runTimes_next {pc' : DoPc} (h : DoMoves c s i f pc t (.next pc'))
    (hs : (s.task i).runTimes < (c.env i).runTimes) :
    (t.task i).runTimes < (c.env i).runTimes ∧
      ((c.env i).runParallel = false → (t.task i).runTimes = (s.task i).runTimes) := by
  cases h with
  | again hp hr =>
    rw [setTask_self]
    exact ⟨hr,fun h0 => by rw [hp] at h0; cases h0⟩
  | locked | limitForks | testForks => exact ⟨hs,fun _ => rfl⟩
  | pgidStored | pidStored =>
    rw [setTask_self]
    exact ⟨hs,fun _ => rfl⟩

theorem DoMoves.runTimes_failure (h : DoMoves c s i f pc t .failure) :
    (t.task i).runTimes = (s.task i).runTimes := by
  cases h with
  | tooOften => rfl
  | limitFails | testFails =>
    rw [setTask_self]
    rfl

/-- What a reaped pid changes: nothing, one entry of `pgid`, or one entry of
`pid` together with what the recycle thread does next. -/
theorem recyclePid_cases (c : Config) (s : State) (p : ℤ) :
    scan c s p = none ∧ recyclePid c s p = s ∨
    (∃ i num, scan c s p = some (i, num, false) ∧
      recyclePid c s p = s.setTask i ((s.task i).putPgid num (-p))) ∨
    ∃ i num, scan c s p = some (i, num, true) ∧
      recyclePid c s p = { s.setTask i ((s.task i).putPid num (-p)) with
        recycle :=
          if taskCheckEnd (c.env i) ((s.task i).putPid num (-p)) then .sub i
          else if (c.env i).runParallel then .wait
          else .taskDo i .lock } := by
  unfold recyclePid
  split
  case h_1 h => exact .inl ⟨h,rfl⟩
  case h_2 i num h => exact .inr (.inl ⟨i,num,h,rfl⟩)
  case h_3 i num h => exact .inr (.inr ⟨i,num,h,rfl⟩)

/-- Whatever was reaped, the status of every task, the children left and the
place of the main thread stay. -/
theorem recyclePid_keeps (c : Config) (s : State) (p : ℤ) :
    (recyclePid c s p).children = s.children ∧ (recyclePid c s p).main = s.main ∧
      ∀ j, ((recyclePid c s p).task j).status = (s.task j).status := by
  obtain ⟨-,heq⟩ | ⟨i,num,-,heq⟩ | ⟨i,num,-,heq⟩ := recyclePid_cases c s p <;> rw [heq]
  · exact ⟨rfl,rfl,fun _ => rfl⟩
  · exact ⟨rfl,rfl,(kept_setTask s i (by rfl)).status⟩
  · exact ⟨rfl,rfl,(kept_setTask s i (by rfl)).status⟩

theorem Pcs.of_children (h : Pcs c s) (l : List Child) : Pcs c { s with children := l } :=
  { h with working := fun i hi => { h.working i hi with } }

theorem Pcs.of_main (h : Pcs c s) (htask : s'.task = s.task) (hrecycle : s'.recycle = s.recycle)
    (hle : s'.main.reached c ≤ c.tasksCnt) (hge : s.main.reached c ≤ s'.main.reached c)
    (hstart : s'.main.starting = none)
    (hup : ∀ i, s'.main = .aloneWait i ∨ s'.main = .start i → i < c.tasksCnt) : Pcs c s' := by
  have hne : ∀ i, s'.main.starting ≠ some i := fun i hi => by rw [hstart] at hi; cases hi
  refine ⟨hle,hup,fun j hj => ?_, fun i hi => absurd hi (hne i),fun i hi => ?_, fun i pc hi =>
    ?_,fun i hi => ?_⟩
  · rw [htask]
    exact h.waiting j (hge.trans hj)
  · rw [hrecycle] at hi
    have hcount := h.working i hi
    exact ⟨htask ▸ hcount.status,hne i,hrecycle ▸ hcount.kept⟩
  · rw [htask]
    exact h.again i pc (hrecycle ▸ hi)
  · rw [hrecycle] at hi
    rw [htask]
    exact ⟨(h.retiring i hi).1,hne i⟩

variable {m : MainPc}

theorem Pcs.of_mainDo (h : Pcs c s) (hpc : s.main = .taskDo i pc) (hd : DoMoves c s i f pc t out)
    (hreach : m.reached c = i+1) (hup : ∀ j, m ≠ .aloneWait j ∧ m ≠ .start j)
    (hstart : m.starting = none ∨ m.starting = some i ∧ (t.task i).runTimes < (c.env i).runTimes ∧
      ((c.env i).runParallel = false → (t.task i).runTimes = (s.task i).runTimes)) :
    Pcs c { t with main := m } := by
  have hfirst := h.starting i (by rw [hpc]; rfl)
  have hwork : s.recycle.working ≠ some i := fun hw => (h.working i hw).started (by rw [hpc]; rfl)
  have hret : s.recycle.retiring ≠ some i := fun hw => (h.retiring i hw).2 (by rw [hpc]; rfl)
  have hne : ∀ j, j ≠ i → m.starting ≠ some j := by
    intro j hj hm
    obtain hs | hs := hstart
    · rw [hs] at hm
      cases hm
    · rw [hs.1] at hm
      exact hj (Option.some.inj hm).symm
  have hle := h.reached_le
  have hwait := h.waiting
  rw [hpc] at hle hwait
  obtain ⟨-,k2,-,-,-,k6,k7⟩ := hd.kept
  refine ⟨?_,fun j hj => ?_, fun j hj => ?_, fun j hj => ?_, fun j hj => ?_, fun j q hj => ?_,
    fun j hj => ?_⟩
  · show m.reached c ≤ _
    rw [hreach]
    exact hle
  · exact absurd hj (not_or.mpr (hup j))
  · have hij : i+1 ≤ j := hreach ▸ hj
    rw [k7 j (by omega)]
    exact hwait j hij
  · have hji : j = i := by
      by_contra hji
      exact hne j hji hj
    subst hji
    obtain hs | hs := hstart
    · exact absurd (hs.symm.trans hj) nofun
    · exact ⟨(k6 j).trans hfirst.1,hs.2.1,fun hp => (hs.2.2 hp).trans (hfirst.2.2 hp)⟩
  · have hj' : s.recycle.working = some j := k2 ▸ hj
    have hcount := h.working j hj'
    exact ⟨(k6 j).trans hcount.status,hne j fun he => hwork (he ▸ hj'),k2 ▸ hcount.kept⟩
  · have hj' : s.recycle = .taskDo j q := k2.symm.trans hj
    have hji : j ≠ i := fun he => hwork (by rw [hj',he]; rfl)
    rw [k7 j hji]
    exact h.again j q hj'
  · have hj' : s.recycle.retiring = some j := k2 ▸ hj
    exact ⟨(k6 j).trans (h.retiring j hj').1,hne j fun he => hret (he ▸ hj')⟩

theorem Pcs.start (h : Pcs c s) (hpc : s.main = .start i) :
    Pcs c { s.setTask i { s.task i with status := .taskRun } with main := .taskDo i .lock } := by
  obtain ⟨h1,h0,h2,h3,h4,h5,h6⟩ := h
  have hpos := (c.env i).runTimes_pos
  constructor <;> grind [MainPc.reached,MainPc.starting,Counted]

theorem Pcs.skip (h : Pcs c s) (hpc : s.main = .skip i) :
    Pcs c { s.setTask i { s.task i with status := .taskEnd } with main := .limitWait (i+1) } := by
  obtain ⟨h1,h0,h2,h3,h4,h5,h6⟩ := h
  constructor <;> grind [MainPc.reached,MainPc.starting,Counted]

variable {c : Config} {s : State}

/-- A reaped process hands its task to the recycle thread only after the main
thread has started it: a task in its first `task_do` has no run to match, or has
runs left. -/
theorem Pcs.recyclePid (h : Pcs c s) (hpc : s.recycle = .wait) (p : ℤ) :
    Pcs c (recyclePid c s p) := by
  obtain ⟨-,heq⟩ | ⟨i,num,hs,heq⟩ | ⟨i,num,hs,heq⟩ := recyclePid_cases c s p
  · rw [heq]
    exact h
  · obtain ⟨h1,h0,h2,h3,h4,h5,h6⟩ := h
    rw [heq]
    constructor <;> grind [Counted]
  · obtain ⟨h1,h0,h2,h3,h4,h5,h6⟩ := h
    have hsc := scan_some hs
    rw [heq]
    constructor <;> grind [Counted,RecyclePc.working,RecyclePc.retiring,taskCheckEnd]

variable {r : RecyclePc}

theorem Pcs.of_recycleDo (h : Pcs c s) (hpc : s.recycle = .taskDo i pc)
    (hd : DoMoves c s i f pc t out)
    (hr : r = .wait ∨ ∃ q, r = .taskDo i q ∧ (t.task i).runTimes < (c.env i).runTimes) :
    Pcs c { t with recycle := r } := by
  obtain ⟨k1,k2,k3,k4,k5,k6,k7⟩ := hd.kept
  obtain ⟨h1,h0,h2,h3,h4,h5,h6⟩ := h
  constructor <;> grind [RecyclePc.working,RecyclePc.retiring,Counted]

variable {a : Action}

theorem Pcs.step (h : Pcs c s) (hm : Moves c s a s') : Pcs c s' := by
  have hle := h.reached_le
  cases hm with
  | listEnd hpc | join hpc => exact h.of_main rfl rfl le_rfl hle rfl nofun
  | full hpc | told hpc | add hpc | aloneEnd hpc =>
    rw [hpc] at hle
    exact h.of_main rfl rfl hle (by rw [hpc]; exact le_rfl) rfl nofun
  | @room _ i hpc hi =>
    rw [hpc] at hle
    refine h.of_main rfl rfl hle (by rw [hpc]; exact le_rfl) rfl ?_
    rintro j (hj | hj) <;> cases hj
    exact hi
  | @admitted _ i hpc ha =>
    rw [hpc] at hle
    refine h.of_main rfl rfl hle (by rw [hpc]; exact le_rfl) rfl ?_
    rintro j (hj | hj) <;> cases hj
    exact h.upcoming i (.inl hpc)
  | start hpc => exact h.start hpc
  | skip hpc => exact h.skip hpc
  | mainNext hpc hd =>
    have hr := hd.runTimes_next (h.starting _ (by rw [hpc]; rfl)).2.1
    exact h.of_mainDo hpc hd rfl (fun _ => ⟨nofun, nofun⟩) (.inr ⟨rfl,hr⟩)
  | mainSuccess hpc hd => exact h.of_mainDo hpc hd rfl (fun _ => ⟨nofun, nofun⟩) (.inl rfl)
  | mainFailure hpc hd =>
    have hr := hd.runTimes_failure
    refine h.of_mainDo hpc hd rfl (fun _ => ⟨nofun, nofun⟩) (.inr ⟨rfl,?_,fun _ => hr⟩)
    rw [hr]
    exact (h.starting _ (by rw [hpc]; rfl)).2.1
  | leave hpc | sub hpc | tell hpc | setEnd hpc =>
    obtain ⟨h1,h0,h2,h3,h4,h5,h6⟩ := h
    constructor <;> grind [RecyclePc.working,RecyclePc.retiring,Counted]
  | @reap _ ch hpc =>
    have hreap : Pcs c (s.reap ch.pid) := h.of_children _
    exact hreap.recyclePid hpc ch.pid
  | recycleNext hpc hd =>
    have hr := hd.runTimes_next (h.again _ _ hpc).2
    exact h.of_recycleDo hpc hd (.inr ⟨_,rfl,hr.1⟩)
  | recycleSuccess hpc hd | recycleFailure hpc hd => exact h.of_recycleDo hpc hd (.inl rfl)
  | exit hch hx => exact h.of_children _

/-- One of the two threads stands at `pc` in `task_do` for task `i`. -/
def State.Doing (s : State) (i : ℕ) (pc : DoPc) : Prop :=
  s.main = .taskDo i pc ∨ s.recycle = .taskDo i pc

/-- A test process that was not reaped has its pid on record, or is the one that
a thread is just starting. -/
def Recorded (doing : ℕ → DoPc → Prop) (s : State) : Prop :=
  ∀ ch ∈ s.children, ch.test = true →
    (ch.run < (s.task ch.task).runTimes ∧ (s.task ch.task).pid ch.run = ch.pid) ∨
    (ch.run = (s.task ch.task).runTimes ∧ (doing ch.task (.storePid ch.pid) ∨
      doing ch.task .bump ∧ (s.task ch.task).pid ch.run = ch.pid))

def RecyclePc.closing : RecyclePc → Option ℕ
  | .sub i | .tellParent i | .setEnd i => some i
  | _ => none

structure Pids (c : Config) (s : State) : Prop where
  nodup : (s.children.map Child.pid).Nodup
  pos : ∀ ch ∈ s.children, 0 < ch.pid
  recorded : Recorded s.Doing s
  lastOpen : ∀ i, (c.env i).runParallel = false → ∀ num < (s.task i).runTimes,
    0 < (s.task i).pid num → num+1 = (s.task i).runTimes ∧ ∀ pc, s.recycle ≠ .taskDo i pc
  closed : ∀ i, s.recycle.closing = some i → ∀ ch ∈ s.children, ch.test = true → ch.task ≠ i

theorem pids_init (c : Config) : Pids c init where
  nodup := nodup_nil
  pos := nofun
  recorded := nofun
  lastOpen := nofun
  closed := nofun

/-- `task_do` keeps the records, whichever thread runs it: the thread that is
past the fork of task `i` is the only one that works on `i`. -/
theorem Recorded.doMoves {doing doing' : ℕ → DoPc → Prop} (h : Recorded doing s)
    (hd : DoMoves c s i f pc t out) (honly : ∀ q, doing i q → q = pc)
    (hsame : ∀ j q, j ≠ i → doing j q → doing' j q) (hnext : ∀ q, out = .next q → doing' i q) :
    Recorded doing' t := by
  intro ch hch htest
  cases hd with
  | tooOften | locked | limitFails | pgidStored | testFails =>
    have h' := h ch hch htest
    grind
  | limitForks hp | testForks hp =>
    have h' := h ch
    grind [addChild]
  | pidStored =>
    have h' := h ch hch htest
    grind
  | again hp hr | lastRun hr =>
    have h' := h ch hch htest
    grind

theorem DoMoves.children (h : DoMoves c s i f pc t out) : t.children = s.children ∨
      ∃ ch : Child, t.children = ch :: s.children ∧ s.FreePid ch.pid ∧ ch.task = i := by
  cases h with
  | limitForks hp | testForks hp => exact .inr ⟨_,rfl,hp,rfl⟩
  | tooOften | locked | limitFails | pgidStored | testFails | pidStored | again | lastRun =>
    exact .inl rfl

theorem DoMoves.lastOpen (h : DoMoves c s i f pc t out) (hpar : (c.env i).runParallel = false)
    (hclosed : ∀ num < (s.task i).runTimes, (s.task i).pid num ≤ 0) :
    ∀ num < (t.task i).runTimes, 0 < (t.task i).pid num →
      num+1 = (t.task i).runTimes ∧ out = .success := by
  intro num hnum hpid
  have hle := hclosed num
  cases h <;> grind [addChild]

theorem Pcs.apart (h : Pcs c s) (hi : s.main.starting = some i) :
    s.recycle.working ≠ some i ∧ s.recycle.closing ≠ some i := by
  have hw : s.recycle.working ≠ some i := fun hw => (h.working i hw).started hi
  refine ⟨hw,fun hcl => ?_⟩
  cases hr : s.recycle with
  | sub j =>
    rw [hr] at hcl hw
    exact hw hcl
  | tellParent j | setEnd j =>
    rw [hr] at hcl
    exact (h.retiring i (by rw [hr]; exact hcl)).2 hi
  | wait | taskDo | exited =>
    rw [hr] at hcl
    cases hcl

/-- One of the threads has made a step of `task_do` on task `i`; the other one does not work on
that task. -/
structure Turn (s s' : State) (i : ℕ) (pc : DoPc) (out : Outcome) : Prop where
  doing : s.Doing i pc
  only : ∀ q, s.Doing i q → q = pc
  same : ∀ j q, j ≠ i → s.Doing j q → s'.Doing j q
  next : ∀ q, out = .next q → s'.Doing i q
  back : ∀ j q, s'.Doing j q → j ≠ i ∧ s.Doing j q ∨ j = i ∧ out = .next q
  recycle : ∀ j q, s'.recycle = .taskDo j q →
    j ≠ i ∧ s.recycle = .taskDo j q ∨ j = i ∧ out = .next q
  closing : ∀ j, s'.recycle.closing = some j → s.recycle.closing = some j ∧ j ≠ i

theorem Pcs.main_turn (h : Pcs c s) (hpc : s.main = .taskDo i pc) (hk : Kept s t i)
    (hm : ∀ j q, m = .taskDo j q ↔ j = i ∧ out = .next q) :
    Turn s { t with main := m } i pc out := by
  obtain ⟨hw,hcl⟩ := h.apart (i := i) (by rw [hpc]; rfl)
  have hne : ∀ q, s.recycle ≠ .taskDo i q := fun q hq => hw (by rw [hq]; rfl)
  have hkeep := hk.recycle
  constructor <;> grind [Doing]

theorem Pcs.recycle_turn (h : Pcs c s) (hpc : s.recycle = .taskDo i pc) (hk : Kept s t i)
    (hr : ∀ j q, r = .taskDo j q ↔ j = i ∧ out = .next q) (hcl : r.closing = none) :
    Turn s { t with recycle := r } i pc out := by
  have hcount := h.working i (by rw [hpc]; rfl)
  have hne : ∀ q, s.main ≠ .taskDo i q := fun q hq => hcount.started (by rw [hq]; rfl)
  have hkeep := hk.main
  constructor <;> grind [Doing]

/-- A step of `task_do` on task `i` keeps the pids on record, whichever thread
makes it. -/
theorem Pids.of_doMoves (h : Pids c s) (hd : DoMoves c s i f pc t out) (ht : Turn s s' i pc out)
    (htask : s'.task = t.task) (hchildren : s'.children = t.children)
    (hclosed : (c.env i).runParallel = false →
      ∀ num < (s.task i).runTimes, (s.task i).pid num ≤ 0) : Pids c s' := by
  have hrec := h.recorded.doMoves hd ht.only ht.same ht.next
  have hothers := hd.kept.others
  refine ⟨?_,?_,?_,?_,?_⟩
  · rw [hchildren]
    obtain heq | ⟨ch,heq,hfree,-⟩ := hd.children
    · exact heq ▸ h.nodup
    · rw [heq,map_cons,nodup_cons]
      refine ⟨fun hmem => ?_, h.nodup⟩
      obtain ⟨ch',hch',hpid⟩ := mem_map.mp hmem
      exact hfree.2 ch' hch' hpid
  · rw [hchildren]
    obtain heq | ⟨ch,heq,hfree,-⟩ := hd.children
    · exact heq ▸ h.pos
    · rw [heq]
      exact forall_mem_cons.mpr ⟨hfree.1,h.pos⟩
  · intro ch hch
    rw [htask]
    exact hrec ch (hchildren ▸ hch)
  · intro j hj num hnum hpid
    rw [htask] at hnum hpid ⊢
    by_cases hji : j = i
    · subst hji
      obtain ⟨h1,h2⟩ := hd.lastOpen hj (hclosed hj) num hnum hpid
      refine ⟨h1,fun q hq => ?_⟩
      exact absurd (h2.symm.trans ((ht.recycle j q hq).resolve_left fun h' => h'.1 rfl).2) nofun
    · rw [hothers j hji] at hnum hpid ⊢
      obtain ⟨h1,h2⟩ := h.lastOpen j hj num hnum hpid
      exact ⟨h1,fun q hq => h2 q ((ht.recycle j q hq).resolve_right fun h' => hji h'.1).2⟩
  · intro j hj ch hch htest
    obtain ⟨hcl,hji⟩ := ht.closing j hj
    rw [hchildren] at hch
    obtain heq | ⟨ch',heq,-,htask'⟩ := hd.children
    · exact h.closed j hcl ch (heq ▸ hch) htest
    · rw [heq,mem_cons] at hch
      obtain rfl | hch := hch
      · exact fun h' => hji (h'.symm.trans htask')
      · exact h.closed j hcl ch hch htest

/-- `task_begin` starts a task that has no run on record, unless it runs in
parallel. -/
theorem Pids.of_mainDo (hc : Pcs c s) (h : Pids c s) (hpc : s.main = .taskDo i pc)
    (hd : DoMoves c s i f pc t out) (hm : ∀ j q, m = .taskDo j q ↔ j = i ∧ out = .next q) :
    Pids c { t with main := m } := by
  refine h.of_doMoves hd (hc.main_turn hpc hd.kept hm) rfl rfl fun hpar num hnum => ?_
  rw [(hc.starting i (by rw [hpc]; rfl)).2.2 hpar] at hnum
  exact absurd hnum (Nat.not_lt_zero num)

theorem Pids.of_recycleDo (hc : Pcs c s) (h : Pids c s) (hpc : s.recycle = .taskDo i pc)
    (hd : DoMoves c s i f pc t out) (hr : ∀ j q, r = .taskDo j q ↔ j = i ∧ out = .next q)
    (hcl : r.closing = none) : Pids c { t with recycle := r } := by
  refine h.of_doMoves hd (hc.recycle_turn hpc hd.kept hr hcl) rfl rfl fun hpar num hnum => ?_
  by_contra hpos
  exact (h.lastOpen i hpar num hnum (not_le.mp hpos)).2 pc hpc

theorem taskCheckEnd_iff {env : TaskEnv} {t : TaskState} : taskCheckEnd env t = true ↔
      (env.runParallel = true → ∀ num < t.runTimes, t.pid num ≤ 0) ∧ env.runTimes ≤ t.runTimes := by
  cases hp : env.runParallel <;> simp [taskCheckEnd,hp]

theorem mem_reap {p : ℤ} {ch : Child} :
    ch ∈ (s.reap p).children ↔ ch ∈ s.children ∧ ch.pid ≠ p := by
  simp [reap]

theorem Pids.reap (h : Pids c s) (p : ℤ) : Pids c (s.reap p) where
  nodup := h.nodup.sublist (filter_sublist.map _)
  pos := fun ch hch => h.pos ch (mem_reap.mp hch).1
  recorded := fun ch hch => h.recorded ch (mem_reap.mp hch).1
  lastOpen := h.lastOpen
  closed := fun i hi ch hch => h.closed i hi ch (mem_reap.mp hch).1

theorem Pids.recyclePid (hc : Pcs c s) (h : Pids c s) (hw : s.recycle = .wait) {p : ℤ}
    (hp : 0 < p) (hgone : ∀ ch ∈ s.children, ch.pid ≠ p) :
    Pids c (recyclePid c s p) := by
  obtain ⟨h1,h2,h3,h4,h5⟩ := h
  obtain ⟨-,heq⟩ | ⟨i,num,-,heq⟩ | ⟨i,num,hs,heq⟩ := recyclePid_cases c s p
  · rw [heq]
    exact ⟨h1,h2,h3,h4,h5⟩
  · rw [heq]
    constructor <;> grind [Recorded,Doing]
  · obtain ⟨-,hrun,hnum,-,hpid⟩ := scan_some hs
    rw [heq]
    have hpid := hpid rfl
    refine ⟨h1,h2,?_,?_,?_⟩
    · intro ch hch htest
      have hch' := hgone ch hch
      have hold := h3 ch hch htest
      grind [Doing]
    · intro j hj k hk hpos
      have hnum' := h4 i
      grind
    · intro j hj ch hch htest htask
      have hch' := hgone ch hch
      -- only the end check lets the recycle thread retire a task
      obtain ⟨rfl,hend⟩ : i = j ∧ taskCheckEnd (c.env i) ((s.task i).putPid num (-p)) = true := by
        grind [RecyclePc.closing]
      rw [taskCheckEnd_iff] at hend
      subst htask
      have hstart := hc.starting ch.task
      have hover := fun hpar => hend.1 hpar ch.run
      have hold := h3 ch hch htest
      grind [Doing,MainPc.starting]

theorem exitChild_same (p : ℤ) (ch : Child) :
    (exitChild p ch).pid = ch.pid ∧ (exitChild p ch).task = ch.task ∧
      (exitChild p ch).run = ch.run ∧ (exitChild p ch).test = ch.test := by
  unfold exitChild
  split <;> exact ⟨rfl,rfl,rfl,rfl⟩

theorem Pids.exit (h : Pids c s) (p : ℤ) :
    Pids c { s with children := s.children.map (exitChild p) } := by
  refine ⟨?_,?_,?_,h.lastOpen,?_⟩
  · simpa [Function.comp_def,exitChild_same] using h.nodup
  all_goals simp only [Recorded,forall_mem_map,exitChild_same]
  exacts [h.pos,h.recorded,h.closed]

theorem setStatus_same (s : State) (i : ℕ) (st : Status) (j : ℕ) :
    ((s.setTask i { s.task i with status := st }).task j).pid = (s.task j).pid ∧
    ((s.setTask i { s.task i with status := st }).task j).pgid = (s.task j).pgid ∧
    ((s.setTask i { s.task i with status := st }).task j).runTimes = (s.task j).runTimes := by
  rw [setTask_task]
  split
  · next hj =>
    subst hj
    exact ⟨rfl,rfl,rfl⟩
  · exact ⟨rfl,rfl,rfl⟩

theorem Pids.of_same (h : Pids c s)
    (htask : ∀ j, (s'.task j).pid = (s.task j).pid ∧ (s'.task j).pgid = (s.task j).pgid ∧
      (s'.task j).runTimes = (s.task j).runTimes) (hchildren : s'.children = s.children)
    (hdoing : ∀ j q, s.Doing j q → s'.Doing j q)
    (hrecycle : ∀ j q, s'.recycle = .taskDo j q → s.recycle = .taskDo j q)
    (hclosing : ∀ j, s'.recycle.closing = some j → s.recycle.closing = some j) : Pids c s' := by
  refine ⟨hchildren ▸ h.nodup,hchildren ▸ h.pos,fun ch hch htest => ?_, fun j hj num hnum hpos =>
    ?_,fun j hj => ?_⟩
  · obtain ⟨hpid,-,hrun⟩ := htask ch.task
    rw [hpid,hrun]
    refine (h.recorded ch (hchildren ▸ hch) htest).imp_right fun hcur => ⟨hcur.1,?_⟩
    exact hcur.2.imp (hdoing _ _) fun hst => ⟨hdoing _ _ hst.1,hst.2⟩
  · obtain ⟨hpid,-,hrun⟩ := htask j
    rw [hrun] at hnum
    rw [hpid] at hpos
    rw [hrun]
    obtain ⟨h1,h2⟩ := h.lastOpen j hj num hnum hpos
    exact ⟨h1,fun q hq => h2 q (hrecycle j q hq)⟩
  · rw [hchildren]
    exact h.closed j (hclosing j hj)

theorem Pids.step (hc : Pcs c s) (h : Pids c s) (hm : Moves c s a s') : Pids c s' := by
  -- outside `task_do` only the other thread can be in it
  have hmain : ∀ {m : MainPc} {s₁ : State}, s.main = m → (∀ i q, m ≠ .taskDo i q) →
      s₁.recycle = s.recycle → ∀ j q, s.Doing j q → s₁.Doing j q := by
    rintro m s₁ rfl hne hr j q (hq | hq)
    · exact absurd hq (hne j q)
    · exact .inr (hr.trans hq)
  have hrec : ∀ {r : RecyclePc} {s₁ : State}, s.recycle = r → (∀ i q, r ≠ .taskDo i q) →
      s₁.main = s.main → ∀ j q, s.Doing j q → s₁.Doing j q := by
    rintro r s₁ rfl hne hr j q (hq | hq)
    · exact .inl (hr.trans hq)
    · exact absurd hq (hne j q)
  cases hm with
  | mainNext hpc hd | mainSuccess hpc hd | mainFailure hpc hd =>
    exact h.of_mainDo hc hpc hd fun j q => by simp [eq_comm]
  | recycleNext hpc hd | recycleSuccess hpc hd | recycleFailure hpc hd =>
    exact h.of_recycleDo hc hpc hd (fun j q => by simp [eq_comm]) rfl
  | @reap _ ch hpc he hch hx =>
    exact (h.reap ch.pid).recyclePid (hc.of_children _) hpc (h.pos ch hch) fun _ hmem =>
      (mem_reap.mp hmem).2
  | exit hch hx => exact h.exit _
  | listEnd hpc | full hpc | room hpc | told hpc | admitted hpc | add hpc | aloneEnd hpc
  | join hpc =>
    exact h.of_same (fun _ => ⟨rfl,rfl,rfl⟩) rfl (hmain hpc nofun rfl) (fun _ _ => id) fun _ => id
  | start hpc | skip hpc =>
    exact h.of_same (setStatus_same s _ _) rfl (hmain hpc nofun rfl) (fun _ _ => id) fun _ => id
  | leave hpc =>
    exact h.of_same (fun _ => ⟨rfl,rfl,rfl⟩) rfl (hrec hpc nofun rfl) nofun nofun
  | sub hpc | tell hpc =>
    refine h.of_same (fun _ => ⟨rfl,rfl,rfl⟩) rfl (hrec hpc nofun rfl) nofun fun j hj => ?_
    rw [hpc]
    exact hj
  | setEnd hpc => exact h.of_same (setStatus_same s _ _) rfl (hrec hpc nofun rfl) nofun nofun

end TinaPackage.TestRunner
