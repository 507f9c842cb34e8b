import TinaPackage.Collections
import TinaPackage.TestRunnerLimits

/-! When every fork succeeds with a pid that no task has on record, and no test
process is reaped before its run is counted, each pid on record names one
process, so the scan of a reaped pid finds the run that the process belongs to. -/
namespace TinaPackage.TestRunner
open List State

variable (c : Config) (s : State)

/-- No entry of a task's arrays equals the pid; an entry of `pgid` may come back
with its sign turned, since a parallel task copies its absolute value. -/
def Unrecorded (q : ℤ) : Prop :=
  ∀ i < c.tasksCnt, ∀ num < (c.env i).runTimes, (s.task i).pid num ≠ q ∧ |(s.task i).pgid num| ≠ q

instance (c : Config) (s : State) (q : ℤ) : Decidable (Unrecorded c s q) :=
  inferInstanceAs (Decidable (∀ i < c.tasksCnt, ∀ num < (c.env i).runTimes, _))

def GoodFork : Option ℤ → Prop
  | none => False
  | some q => Unrecorded c s q

instance (c : Config) (s : State) : (f : Option ℤ) → Decidable (GoodFork c s f)
  | none => inferInstanceAs (Decidable False)
  | some q => inferInstanceAs (Decidable (Unrecorded c s q))

def DoPc.forking : DoPc → Bool
  | .forkLimit | .forkTest => true
  | _ => false

def MainPc.forking : MainPc → Bool
  | .taskDo _ pc => pc.forking
  | _ => false

def RecyclePc.forking : RecyclePc → Bool
  | .taskDo _ pc => pc.forking
  | _ => false

/-- The step does not fork, or forks with success and a pid that is not on
record; and `wait4` returns no test process whose run is not counted yet. -/
def Good : Action → Prop
  | .main f => s.main.forking = true → GoodFork c s f
  | .recycle f p => (s.recycle.forking = true → GoodFork c s f) ∧
      (s.recycle = .wait → ∀ ch ∈ s.children, ch.pid = p → ch.test = true →
        ch.run < (s.task ch.task).runTimes)
  | .exit _ => True

instance (c : Config) (s : State) : (a : Action) → Decidable (Good c s a)
  | .main f => inferInstanceAs (Decidable (_ → GoodFork c s f))
  | .recycle _ _ => inferInstanceAs (Decidable (_ ∧ _))
  | .exit _ => inferInstanceAs (Decidable True)

structure Owned (doing : ℕ → DoPc → Prop) (s : State) : Prop where
  test : ∀ ch ∈ s.children, ch.test = true → ∀ i < c.tasksCnt, ∀ num < (c.env i).runTimes,
    |(s.task i).pgid num| ≠ ch.pid ∧ ((s.task i).pid num = ch.pid → i = ch.task ∧ num = ch.run)
  limit : ∀ ch ∈ s.children, ch.test = false → ∀ i < c.tasksCnt, ∀ num < (c.env i).runTimes,
    (s.task i).pid num ≠ ch.pid
  alive : ∀ i num, num < (s.task i).runTimes → 0 < (s.task i).pid num →
    ∃ ch ∈ s.children, ch.test = true ∧ ch.task = i ∧ ch.pid = (s.task i).pid num
  inHand : ∀ i p, doing i (.storePid p) →
    ∃ ch ∈ s.children, ch.test = true ∧ ch.task = i ∧ ch.run = (s.task i).runTimes ∧ ch.pid = p
  stored : ∀ i, doing i .bump → ∃ ch ∈ s.children, ch.test = true ∧ ch.task = i ∧
    ch.run = (s.task i).runTimes ∧ ch.pid = (s.task i).pid (s.task i).runTimes
  limitInHand : ∀ i p, doing i (.storePgid p) →
    0 < p ∧ ∀ ch ∈ s.children, ch.test = true → ch.pid ≠ p
  runTimes_le : ∀ i, (s.task i).runTimes ≤ (c.env i).runTimes

theorem owned_init : Owned c init.Doing init where
  test := nofun
  limit := nofun
  alive := nofun
  inHand := by rintro i p (h | h) <;> cases h
  stored := by rintro i (h | h) <;> cases h
  limitInHand := by rintro i p (h | h) <;> cases h
  runTimes_le := fun _ => Nat.zero_le _

section

variable {c : Config} {s t : State} {i : ℕ} {f : Option ℤ} {pc : DoPc} {out : Outcome}
  {doing doing' : ℕ → DoPc → Prop}

section
variable (h : Owned c doing s)
include h

theorem Owned.addChild {ch : Child} (hun : Unrecorded c s ch.pid)
    (hback : ∀ j q, doing' j q → q = .storePid ch.pid ∧ ch.test = true ∧ ch.task = j ∧
        ch.run = (s.task j).runTimes ∨
      q = .storePgid ch.pid ∧ ch.test = false ∧ (∀ ch' ∈ s.children, ch'.pid ≠ ch.pid) ∨
      q = .lock) (hpos : 0 < ch.pid) : Owned c doing' (s.addChild ch) := by
  refine ⟨?_,?_,?_,?_,?_,?_,h.runTimes_le⟩
  · intro ch' hmem htest j hj num hnum
    obtain rfl | hmem := mem_cons.mp hmem
    · exact ⟨(hun j hj num hnum).2,fun he => absurd he (hun j hj num hnum).1⟩
    · exact h.test ch' hmem htest j hj num hnum
  · intro ch' hmem htest j hj num hnum
    obtain rfl | hmem := mem_cons.mp hmem
    · exact (hun j hj num hnum).1
    · exact h.limit ch' hmem htest j hj num hnum
  · intro j num hnum hpid
    obtain ⟨ch',hmem,hch'⟩ := h.alive j num hnum hpid
    exact ⟨ch',mem_cons_of_mem _ hmem,hch'⟩
  · intro j p hd
    obtain ⟨he,htest,htask,hrun⟩ | ⟨he,-⟩ | he := hback j _ hd
    · cases he
      exact ⟨ch,mem_cons_self,htest,htask,hrun,rfl⟩
    · cases he
    · cases he
  · intro j hd
    obtain ⟨he,-⟩ | ⟨he,-⟩ | he := hback j _ hd <;> cases he
  · intro j p hd
    obtain ⟨he,-⟩ | ⟨he,htest,hfree⟩ | he := hback j _ hd
    · cases he
    · cases he
      refine ⟨hpos,fun ch' hmem htest' => ?_⟩
      obtain rfl | hmem := mem_cons.mp hmem
      · rw [htest] at htest'
        cases htest'
      · exact hfree ch' hmem
    · cases he

theorem Owned.alive_succ (hdoing : doing i .bump) (j num : ℕ)
    (hnum : num < (s.task j).runTimes+if j = i then 1 else 0)
    (hpid : 0 < (s.task j).pid num) :
    ∃ ch ∈ s.children, ch.test = true ∧ ch.task = j ∧ ch.pid = (s.task j).pid num := by
  by_cases hlt : num < (s.task j).runTimes
  · exact h.alive j num hlt hpid
  · obtain ⟨rfl,rfl⟩ : j = i ∧ num = (s.task j).runTimes := by
      split at hnum <;> omega
    obtain ⟨ch,hmem,htest,htask,-,hpid'⟩ := h.stored j hdoing
    exact ⟨ch,hmem,htest,htask,hpid'⟩

variable {p : ℤ}

theorem Owned.storePgid (hdoing : doing i (.storePgid p))
    (hb : ∀ j q, doing' j q → q = .lock ∨ q = .forkTest) :
    Owned c doing' (s.setTask i ((s.task i).putPgid (s.task i).runTimes p)) := by
  obtain ⟨hpos,hother⟩ := h.limitInHand i p hdoing
  obtain ⟨h1,h2,h3,h4,h5,h6,h7⟩ := h
  constructor <;> grind

theorem Owned.storePid (hnodup : (s.children.map Child.pid).Nodup)
    (hdoing : doing i (.storePid p)) (hb : ∀ j q, doing' j q → q = .lock ∨ j = i ∧ q = .bump) :
    Owned c doing' (s.setTask i ((s.task i).putPid (s.task i).runTimes p)) := by
  have hinj := inj_on_of_nodup_map hnodup
  obtain ⟨ch,hch,htest,htask,hchrun,hchpid⟩ := h.inHand i p hdoing
  obtain ⟨h1,h2,h3,h4,h5,h6,h7⟩ := h
  constructor
  · intro ch' hmem htest' j hj num hnum
    grind
  · intro ch' hmem htest' j hj num hnum
    grind
  all_goals grind

theorem Owned.bump (hdoing : doing i .bump) {u : TaskState}
    (hb : ∀ j q, doing' j q → q = .lock ∨ q = .forkTest)
    (hrun : u.runTimes = (s.task i).runTimes+1) (hle : u.runTimes ≤ (c.env i).runTimes)
    (hpid : u.pid = (s.task i).pid)
    (hpgid : ∀ num, u.pgid num = (s.task i).pgid num ∨ (s.task i).runTimes < (c.env i).runTimes ∧
        u.pgid num = |(s.task i).pgid (s.task i).runTimes|) :
    Owned c doing' (s.setTask i u) := by
  have halive := h.alive_succ hdoing
  obtain ⟨h1,h2,h3,h4,h5,h6,h7⟩ := h
  constructor
  case test =>
    intro ch hmem htest j hj num hnum
    grind
  case alive =>
    intro j num hnum hpid
    refine (halive j num ?_ ?_).imp ?_ <;> grind
  all_goals grind

/-- `task_do` keeps each pid to its process: a fork that succeeds takes a new
pid, and the lock keeps the other thread from forking before it is stored. -/
theorem Owned.doMoves (hnodup : (s.children.map Child.pid).Nodup)
    (hd : DoMoves c s i f pc t out) (hfork : pc.forking = true → GoodFork c s f)
    (hdoing : doing i pc)
    (hback : ∀ j q, doing' j q → j ≠ i ∧ doing j q ∨ j = i ∧ out = .next q)
    (hexcl : pc.locked = true → ∀ j q, j ≠ i → doing j q → q = .lock)
    (hrun : (s.task i).runTimes < (c.env i).runTimes) : Owned c doing' t := by
  -- past the lock, the other thread waits for it
  have hback' : pc.locked = true → ∀ j q, doing' j q → q = .lock ∨ j = i ∧ out = .next q := by
    intro hl j q hq
    obtain ⟨hj,hq⟩ | hq := hback j q hq
    · exact .inl (hexcl hl j q hj hq)
    · exact .inr hq
  cases hd with
  | tooOften hr => exact absurd hrun (not_lt.mpr hr)
  | limitFails | testFails => exact (hfork rfl).elim
  | locked =>
    have hkeep : ∀ j q, doing' j q → doing j q ∨ q = .forkLimit := by
      intro j q hq
      obtain ⟨-,hq⟩ | ⟨-,hq⟩ := hback j q hq
      · exact .inl hq
      · cases hq
        exact .inr rfl
    exact { h with
      inHand := fun j p hq => h.inHand j p ((hkeep j _ hq).resolve_right nofun)
      stored := fun j hq => h.stored j ((hkeep j _ hq).resolve_right nofun)
      limitInHand := fun j p hq => h.limitInHand j p ((hkeep j _ hq).resolve_right nofun) }
  | limitForks hp =>
    refine h.addChild (hfork rfl) (fun j q hq => ?_) hp.1
    obtain hq | ⟨-,hq⟩ := hback' rfl j q hq
    · exact .inr (.inr hq)
    · cases hq
      exact .inr (.inl ⟨rfl,rfl,hp.2⟩)
  | testForks hp =>
    refine h.addChild (hfork rfl) (fun j q hq => ?_) hp.1
    obtain hq | ⟨rfl,hq⟩ := hback' rfl j q hq
    · exact .inr (.inr hq)
    · cases hq
      exact .inl ⟨rfl,rfl,rfl,rfl⟩
  | pgidStored =>
    refine h.storePgid hdoing fun j q hq => ?_
    obtain hq | ⟨-,hq⟩ := hback' rfl j q hq
    · exact .inl hq
    · cases hq
      exact .inr rfl
  | pidStored =>
    refine h.storePid hnodup hdoing fun j q hq => ?_
    obtain hq | ⟨hj,hq⟩ := hback' rfl j q hq
    · exact .inl hq
    · cases hq
      exact .inr ⟨hj,rfl⟩
  | again hp hr =>
    refine h.bump hdoing (fun j q hq => ?_) rfl hr.le rfl fun num => ?_
    · obtain hq | ⟨-,hq⟩ := hback' rfl j q hq
      · exact .inl hq
      · cases hq
        exact .inr rfl
    · rw [TaskState.putPgid_pgid]
      split
      · exact .inr ⟨hrun,rfl⟩
      · exact .inl rfl
  | lastRun hr =>
    refine h.bump hdoing (fun j q hq => ?_) rfl hrun rfl fun num => .inl rfl
    obtain hq | ⟨-,hq⟩ := hback' rfl j q hq
    · exact .inl hq
    · cases hq

end

end

section

variable {c : Config} {s : State} {ch : Child}

section
variable {doing : ℕ → DoPc → Prop} (h : Owned c doing s) (hmem : ch ∈ s.children)
include h hmem

/-- The entry that `wait4` looks for stands once, under the task and run of the
process. -/
theorem Owned.scan_test (htest : ch.test = true) (hpos : 0 < ch.pid) (htask : ch.task < c.tasksCnt)
    (hstatus : (s.task ch.task).status = .taskRun) (hrun : ch.run < (s.task ch.task).runTimes)
    (hpid : (s.task ch.task).pid ch.run = ch.pid) :
    scan c s ch.pid = some (ch.task, ch.run, true) := by
  have hpgid : ∀ i < c.tasksCnt, ∀ num < (s.task i).runTimes, (s.task i).pgid num ≠ ch.pid := by
    intro i hi num hnum he
    refine (h.test ch hmem htest i hi num (hnum.trans_le (h.runTimes_le i))).1 ?_
    rw [he,abs_of_pos hpos]
  have hmatch : matchRun (s.task ch.task) ch.pid = some (ch.run, true) := by
    refine findSome?_range_of_unique hrun ?_ fun num hnum hne => ?_
    · rw [if_neg (hpgid _ htask _ hrun),if_pos hpid]
    · rw [if_neg (hpgid _ htask _ hnum),if_neg fun he => hne ?_]
      exact ((h.test ch hmem htest _ htask num (hnum.trans_le (h.runTimes_le _))).2 he).2
  refine findSome?_range_of_unique htask ?_ fun i hi hne => ?_
  · rw [if_pos hstatus,hmatch]
    rfl
  · split
    · refine Option.map_eq_none_iff.mpr (findSome?_eq_none_iff.mpr fun num hnum => ?_)
      have hnum := mem_range.mp hnum
      rw [if_neg (hpgid i hi num hnum),if_neg fun he => hne ?_]
      exact ((h.test ch hmem htest i hi num (hnum.trans_le (h.runTimes_le i))).2 he).1
    · rfl

theorem Owned.scan_limit (htest : ch.test = false) {i num : ℕ} :
    scan c s ch.pid ≠ some (i, num, true) := by
  intro hs
  obtain ⟨hi,-,hnum,-,hpid⟩ := scan_some hs
  exact h.limit ch hmem htest i hi num (hnum.trans_le (h.runTimes_le i)) (hpid rfl)

end

end

def State.Exclusive (s : State) : Prop := s.main.locked = false ∨ s.recycle.locked = false

theorem State.Exclusive.lock_of_ne {s : State} (h : s.Exclusive) {i j : ℕ} {pc q : DoPc}
    (hpc : s.Doing i pc) (hl : pc.locked = true) (hj : j ≠ i) (hq : s.Doing j q) : q = .lock := by
  have hfree : q.locked = false := by
    rcases hpc with hpc | hpc <;> rcases hq with hq | hq <;>
      grind [Exclusive,MainPc.locked,RecyclePc.locked]
  cases q <;> first | rfl | cases hfree

variable {c : Config}

theorem DoMoves.locked_of_lock {s t : State} {i : ℕ} {f : Option ℤ} {pc pc' : DoPc}
    (h : DoMoves c s i f pc t (.next pc')) :
    pc.locked = true ∨ s.main.locked = false ∧ s.recycle.locked = false := by
  cases h with
  | locked h1 h2 => exact .inr ⟨h1,h2⟩
  | limitForks | pgidStored | testForks | pidStored | again => exact .inl rfl

variable {a : Action}

theorem exclusive_step {s s' : State} (h : s.Exclusive) (hm : Moves c s a s') : s'.Exclusive := by
  cases hm with
  | mainNext hpc hd =>
    have hl := hd.locked_of_lock
    have hk := hd.kept.recycle
    grind [Exclusive,MainPc.locked]
  | recycleNext hpc hd =>
    have hl := hd.locked_of_lock
    have hk := hd.kept.main
    grind [Exclusive,RecyclePc.locked]
  | mainSuccess hpc hd | mainFailure hpc hd => exact .inl rfl
  | recycleSuccess hpc hd | recycleFailure hpc hd => exact .inr rfl
  | listEnd | full | room | told | admitted | start | add | skip | aloneEnd | join =>
    exact .inl rfl
  | leave | sub | tell | setEnd => exact .inr rfl
  | @reap _ ch hpc =>
    refine .inr ?_
    obtain ⟨-,heq⟩ | ⟨i,num,-,heq⟩ | ⟨i,num,-,heq⟩ :=
      recyclePid_cases c (s.reap ch.pid) ch.pid <;>
    grind [RecyclePc.locked,reap,DoPc.locked]
  | exit => exact h

section

variable {c : Config} {s : State} {doing doing' : ℕ → DoPc → Prop}

theorem Owned.congr {s' : State} (h : Owned c doing s)
    (hdoing : ∀ j q, doing' j q → doing j q ∨ q = .lock)
    (htask : ∀ j, (s'.task j).pid = (s.task j).pid ∧ (s'.task j).pgid = (s.task j).pgid ∧
      (s'.task j).runTimes = (s.task j).runTimes)
    (hchildren : s'.children = s.children) : Owned c doing' s' := by
  have hback : ∀ j q, q ≠ .lock → doing' j q → doing j q := fun j q hne hq =>
    (hdoing j q hq).resolve_right hne
  have hpid := fun j => (htask j).1
  have hpgid := fun j => (htask j).2.1
  have hrun := fun j => (htask j).2.2
  constructor <;> simp only [hpid,hpgid,hrun,hchildren]
  · exact h.test
  · exact h.limit
  · exact h.alive
  · exact fun i p hp => h.inHand i p (hback i _ nofun hp)
  · exact fun i hp => h.stored i (hback i _ nofun hp)
  · exact fun i p hp => h.limitInHand i p (hback i _ nofun hp)
  · exact h.runTimes_le

section
variable {doing : ℕ → DoPc → Prop} (h : Owned c doing s)
include h

theorem Owned.exit (p : ℤ) : Owned c doing { s with children := s.children.map (exitChild p) } := by
  constructor <;> simp only [mem_map,forall_exists_index,and_imp,forall_apply_eq_imp_iff₂,
    exists_exists_and_eq_and,exitChild_same]
  · exact h.test
  · exact h.limit
  · exact h.alive
  · exact h.inHand
  · exact h.stored
  · exact h.limitInHand
  · exact h.runTimes_le

variable {i num : ℕ}

theorem Owned.closeTest (hpos : ∀ ch ∈ s.children, 0 < ch.pid) {p : ℤ} (hp : 0 < p)
    (hnum : num < (s.task i).runTimes) :
    Owned c doing (s.setTask i ((s.task i).putPid num (-p))) := by
  obtain ⟨h1,h2,h3,h4,h5,h6,h7⟩ := h
  constructor
  · intro ch hch htest j hj k hk
    have hch := hpos ch hch
    grind
  · intro ch hch htest j hj k hk
    grind
  all_goals grind

theorem Owned.closeLimit {p : ℤ} (hpgid : (s.task i).pgid num = p) :
    Owned c doing (s.setTask i ((s.task i).putPgid num (-p))) := by
  obtain ⟨h1,h2,h3,h4,h5,h6,h7⟩ := h
  constructor
  · intro ch hch htest j hj k hk
    grind
  all_goals grind

variable {ch : Child}

/-- A process that is reaped takes nothing with it: it is the limit process of a
run, or a test process whose entry was closed. -/
theorem Owned.remove (hnodup : (s.children.map Child.pid).Nodup) (hmem : ch ∈ s.children)
    (hrun : ch.test = true → ch.run < (s.task ch.task).runTimes)
    (hclosed : ch.test = true → ∀ i num, num < (s.task i).runTimes → (s.task i).pid num ≠ ch.pid) :
    Owned c doing (s.reap ch.pid) := by
  have hinj := inj_on_of_nodup_map hnodup
  -- a process that is not recorded yet is another one than that reaped
  have hlate : ∀ ch' ∈ s.children, ch'.test = true → ch'.run = (s.task ch'.task).runTimes →
      ch' ∈ (s.reap ch.pid).children := by
    refine fun ch' hmem' htest' hrun' => mem_reap.mpr ⟨hmem',fun he => ?_⟩
    obtain rfl := hinj hmem' hmem he
    exact absurd (hrun htest') (not_lt.mpr hrun'.ge)
  refine ⟨fun ch' hmem' => h.test ch' (mem_reap.mp hmem').1,
    fun ch' hmem' => h.limit ch' (mem_reap.mp hmem').1,?_,?_,?_,?_,h.runTimes_le⟩
  · intro i num hnum hpid
    obtain ⟨ch',hmem',htest',htask',hpid'⟩ := h.alive i num hnum hpid
    refine ⟨ch',mem_reap.mpr ⟨hmem',fun he => ?_⟩, htest',htask',hpid'⟩
    obtain rfl := hinj hmem' hmem he
    exact hclosed htest' i num hnum hpid'.symm
  · intro i p hp
    obtain ⟨ch',hmem',htest',rfl,hrun',hpid'⟩ := h.inHand i p hp
    exact ⟨ch',hlate ch' hmem' htest' hrun',htest',rfl,hrun',hpid'⟩
  · intro i hp
    obtain ⟨ch',hmem',htest',rfl,hrun',hpid'⟩ := h.stored i hp
    exact ⟨ch',hlate ch' hmem' htest' hrun',htest',rfl,hrun',hpid'⟩
  · intro i p hp
    obtain ⟨hpos,hne⟩ := h.limitInHand i p hp
    exact ⟨hpos,fun ch' hmem' => hne ch' (mem_reap.mp hmem').1⟩

end

end

structure Matched (c : Config) (s : State) : Prop where
  limits : Limits c s
  exclusive : s.Exclusive
  owned : Owned c s.Doing s
  running : ∀ ch ∈ s.children, ch.test = true → (s.task ch.task).status = .taskRun
  noSkip : ∀ i, s.main ≠ .skip i

theorem matched_init (c : Config) : Matched c init :=
  ⟨limits_init c,.inl rfl,owned_init c,nofun, nofun⟩

section

variable {c : Config} {s t s' : State} {i : ℕ} {f : Option ℤ} {pc : DoPc} {out : Outcome}
  {ch : Child}

theorem Matched.task_lt (h : Matched c s) (hmem : ch ∈ s.children) (htest : ch.test = true) :
    ch.task < c.tasksCnt := by
  by_contra hge
  have hwait := (h.limits.pcs.waiting ch.task (h.limits.pcs.reached_le.trans (not_lt.mp hge))).1
  rw [h.running ch hmem htest] at hwait
  cases hwait

theorem DoMoves.no_failure (hd : DoMoves c s i f pc t .failure)
    (hfork : pc.forking = true → GoodFork c s f)
    (hrun : (s.task i).runTimes < (c.env i).runTimes) : False := by
  cases hd with
  | tooOften hr => exact absurd hrun (not_lt.mpr hr)
  | limitFails | testFails => exact hfork rfl

section
variable (h : Matched c s)
include h

/-- A step of `task_do` keeps each pid to its process, and the test processes to running tasks,
whichever thread makes it. -/
theorem Matched.doMoves (hd : DoMoves c s i f pc t out) (ht : Turn s s' i pc out)
    (htask : s'.task = t.task) (hchildren : s'.children = t.children)
    (hfork : pc.forking = true → GoodFork c s f) (hi : (s.task i).status = .taskRun)
    (hrun : (s.task i).runTimes < (c.env i).runTimes) :
    Owned c s'.Doing s' ∧
      ∀ ch ∈ s'.children, ch.test = true → (s'.task ch.task).status = .taskRun := by
  constructor
  · have howned : Owned c s'.Doing t :=
      h.owned.doMoves h.limits.pids.nodup hd hfork ht.doing ht.back
        (fun hl j q hj hq => h.exclusive.lock_of_ne ht.doing hl hj hq) hrun
    exact howned.congr (fun _ _ => .inl) (fun _ => by simp [htask]) hchildren
  · intro ch hmem htest
    rw [htask,hd.kept.status]
    rw [hchildren] at hmem
    obtain heq | ⟨ch',heq,-,htask⟩ := hd.children
    · exact h.running ch (heq ▸ hmem) htest
    · rw [heq,mem_cons] at hmem
      obtain rfl | hmem := hmem
      · rw [htask,hi]
      · exact h.running ch hmem htest

theorem Matched.recyclePid_test (hmem : ch ∈ s.children) (htest : ch.test = true)
    (hrun : ch.run < (s.task ch.task).runTimes) :
    (s.task ch.task).pid ch.run = ch.pid ∧
    recyclePid c (s.reap ch.pid) ch.pid =
      { (s.reap ch.pid).setTask ch.task ((s.task ch.task).putPid ch.run (-ch.pid)) with
        recycle :=
          if taskCheckEnd (c.env ch.task) ((s.task ch.task).putPid ch.run (-ch.pid)) then
            .sub ch.task
          else if (c.env ch.task).runParallel then .wait
          else .taskDo ch.task .lock } := by
  have hpid : (s.task ch.task).pid ch.run = ch.pid := by
    obtain hrec | hrec := h.limits.pids.recorded ch hmem htest
    · exact hrec.2
    · exact absurd hrun (not_lt.mpr hrec.1.ge)
  have hscan : scan c (s.reap ch.pid) ch.pid = some (ch.task, ch.run, true) :=
    h.owned.scan_test hmem htest (h.limits.pids.pos ch hmem) (h.task_lt hmem htest)
      (h.running ch hmem htest) hrun hpid
  refine ⟨hpid,?_⟩
  rw [recyclePid,hscan]
  rfl

theorem Matched.reap_owned (hmem : ch ∈ s.children)
    (hgood : ch.test = true → ch.run < (s.task ch.task).runTimes) :
    Owned c (recyclePid c (s.reap ch.pid) ch.pid).Doing (recyclePid c (s.reap ch.pid) ch.pid) := by
  have hp := h.limits.pids.pos ch hmem
  have hnodup := h.limits.pids.nodup
  cases htest : ch.test with
  | true =>
    have hrun := hgood htest
    obtain ⟨hpid,heq⟩ := h.recyclePid_test hmem htest hrun
    rw [heq]
    have hclose := h.owned.closeTest h.limits.pids.pos hp hrun
    have hremove := hclose.remove hnodup hmem (fun _ => by simpa using hrun) ?_
    · refine hremove.congr ?_ (fun _ => ⟨rfl,rfl,rfl⟩) rfl
      rintro j q (hq | hq)
      · exact .inl (.inl hq)
      · right
        split_ifs at hq
        exact (RecyclePc.taskDo.inj hq).2.symm
    · intro _ j num hnum he
      have hle := h.owned.runTimes_le j
      have hown := h.owned.test ch hmem htest j
      have hwait := h.limits.pcs.waiting j
      have hreach := h.limits.pcs.reached_le
      grind
  | false =>
    have hremove : ∀ s₁ : State, Owned c s.Doing s₁ → s₁.children = s.children →
        Owned c s.Doing (s₁.reap ch.pid) := by
      intro s₁ h₁ hch
      refine h₁.remove (hch ▸ hnodup) (hch ▸ hmem) ?_ ?_ <;>
      · intro ht
        rw [htest] at ht
        cases ht
    obtain ⟨-,heq⟩ | ⟨j,num,hs,heq⟩ | ⟨j,num,hs,-⟩ :=
      recyclePid_cases c (s.reap ch.pid) ch.pid
    · rw [heq]
      exact hremove s h.owned rfl
    · rw [heq]
      have hpgid : (s.task j).pgid num = ch.pid := (scan_some hs).2.2.2.1 rfl
      exact (hremove _ (h.owned.closeLimit hpgid) rfl).congr (fun _ _ hq => .inl hq)
        (fun _ => ⟨rfl,rfl,rfl⟩) rfl
    · exact absurd hs (h.owned.scan_limit hmem htest)

theorem Matched.step (hg : Good c s a) (hs : step c s a = some s') : Matched c s' := by
  have hm := moves_of_step hs
  suffices hrest : Owned c s'.Doing s' ∧
      (∀ ch ∈ s'.children, ch.test = true → (s'.task ch.task).status = .taskRun) ∧
      ∀ i, s'.main ≠ .skip i from
    ⟨h.limits.moves hm,exclusive_step h.exclusive hm,hrest.1,hrest.2.1,hrest.2.2⟩
  have hpcs := h.limits.pcs
  have hmainDo : ∀ {i pc f t out}, a = .main f → s.main = .taskDo i pc →
      DoMoves c s i f pc t out → pc.forking = true → GoodFork c s f := by
    rintro i pc f t out rfl hpc-hf
    exact hg (by rw [hpc]; exact hf)
  have hrecycleDo : ∀ {i pc f p t out}, a = .recycle f p → s.recycle = .taskDo i pc →
      DoMoves c s i f pc t out → pc.forking = true → GoodFork c s f := by
    rintro i pc f p t out rfl hpc-hf
    exact hg.1 (by rw [hpc]; exact hf)
  cases hm with
  | @mainNext _ i pc _ t hpc hd | @mainSuccess _ i pc t hpc hd =>
    obtain ⟨hst,hlt,-⟩ := hpcs.starting i (by rw [hpc]; rfl)
    exact and_assoc.mp ⟨h.doMoves hd (hpcs.main_turn hpc hd.kept fun j q => by simp [eq_comm])
      rfl rfl (hmainDo rfl hpc hd) hst hlt,nofun⟩
  | @mainFailure _ i pc t hpc hd =>
    exact (hd.no_failure (hmainDo rfl hpc hd) (hpcs.starting i (by rw [hpc]; rfl)).2.1).elim
  | @recycleNext _ _ i pc _ t hpc hd | @recycleSuccess _ _ i pc t hpc hd =>
    exact and_assoc.mp ⟨h.doMoves hd
      (hpcs.recycle_turn hpc hd.kept (fun j q => by simp [eq_comm]) rfl) rfl rfl
      (hrecycleDo rfl hpc hd) (hpcs.working i (by rw [hpc]; rfl)).status (hpcs.again i pc hpc).2,
      fun j hj => h.noSkip j (hd.kept.main ▸ hj)⟩
  | @recycleFailure _ _ i pc t hpc hd =>
    exact (hd.no_failure (hrecycleDo rfl hpc hd) (hpcs.again i pc hpc).2).elim
  | @reap f ch hpc he hmem hx =>
    refine ⟨h.reap_owned hmem (hg.2 hpc ch hmem rfl),?_,?_⟩
    · intro ch' hmem' htest'
      obtain ⟨hch,-,hst⟩ := recyclePid_keeps c (s.reap ch.pid) ch.pid
      rw [hst]
      exact h.running ch' (mem_reap.mp (hch ▸ hmem')).1 htest'
    · intro j hj
      rw [(recyclePid_keeps c (s.reap ch.pid) ch.pid).2.1] at hj
      exact h.noSkip j hj
  | skip hpc => exact absurd hpc (h.noSkip _)
  | @start _ i hpc =>
    refine ⟨?_,?_,nofun⟩
    · refine h.owned.congr (fun j q hq => ?_) (setStatus_same s i .taskRun) rfl
      obtain hq | hq := hq
      · cases hq
        exact .inr rfl
      · exact .inl (.inr hq)
    · intro ch hmem htest
      have hold := h.running ch hmem htest
      grind
  | listEnd hpc | full hpc | room hpc | told hpc | admitted hpc | add hpc | aloneEnd hpc
  | join hpc =>
    refine ⟨h.owned.congr ?_ (fun _ => ⟨rfl,rfl,rfl⟩) rfl,h.running,nofun⟩
    rintro j q (hq | hq)
    · cases hq
    · exact .inl (.inr hq)
  | leave hpc he | sub hpc | tell hpc =>
    refine ⟨h.owned.congr ?_ (fun _ => ⟨rfl,rfl,rfl⟩) rfl,h.running,h.noSkip⟩
    rintro j q (hq | hq)
    · exact .inl (.inl hq)
    · cases hq
  | @setEnd _ _ i hpc =>
    refine ⟨?_,?_,h.noSkip⟩
    · refine h.owned.congr (fun j q hq => ?_) (setStatus_same s i .taskEnd) rfl
      obtain hq | hq := hq
      · exact .inl (.inl hq)
      · cases hq
    · intro ch hmem htest
      have hold := h.running ch hmem htest
      have hne := h.limits.pids.closed i (by rw [hpc]; rfl) ch hmem htest
      grind
  | exit hmem hx =>
    refine ⟨h.owned.exit _,?_,h.noSkip⟩
    simp only [forall_mem_map,exitChild_same]
    exact h.running

end

end

end TinaPackage.TestRunner
