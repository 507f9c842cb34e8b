import TinaPackage.TestRunnerOwners

/-! Good runs of the scheduler end, and end well. A measure falls with every good
step, so no good run goes on for ever; and while a task is not ended or a thread
has not returned, some good step is possible. -/
namespace TinaPackage.TestRunner
open List State

/-- What keeps a good run going: a counted task has a test process or the
recycle thread at work on it, and a byte is on its way when `task_begin` waits. -/
structure Served (c : Config) (s : State) : Prop where
  ends : s.endCnt = (s.retired c).card
  served : ∀ i, s.Counted i →
    (∃ ch ∈ s.children, ch.test = true ∧ ch.task = i) ∨ s.recycle.working = some i
  full : ∀ i, s.Counted i → (c.env i).runParallel = true → (c.env i).runTimes ≤ (s.task i).runTimes
  told : ∀ i, s.main = .waitChild i → 0 < s.told ∨ s.runningCnt = c.runCntUpTo ∨
    (∃ j, s.recycle = .tellParent j) ∧ s.runningCnt+1 = c.runCntUpTo
  started : ∀ j < s.main.reached c, (s.task j).status ≠ .taskWait
  joined : s.main = .done → s.recycle = .exited
  left : s.recycle = .exited → s.endCnt = c.tasksCnt

theorem served_init (c : Config) : Served c init where
  ends := by
    have hnone : init.retired c = ∅ :=
      Finset.filter_false_of_mem fun _ _ h => by rcases h with h | h <;> cases h
    rw [hnone]
    rfl
  served := fun i h => by cases h.1
  full := fun i h => by cases h.1
  told := nofun
  started := nofun
  joined := nofun
  left := nofun

section

variable {c : Config} {s t s' : State} {i : ℕ} {f : Option ℤ} {pc : DoPc} {out : Outcome}

theorem DoMoves.success_iff (hd : DoMoves c s i f pc t .success) :
    pc = .bump ∧ t.children = s.children ∧
      ((c.env i).runParallel = true → (c.env i).runTimes ≤ (t.task i).runTimes) := by
  cases hd with
  | lastRun hr =>
    rw [setTask_self]
    exact ⟨rfl,rfl,hr⟩

theorem DoMoves.children_subset (hd : DoMoves c s i f pc t out) {ch : Child}
    (hmem : ch ∈ s.children) : ch ∈ t.children := by
  obtain heq | ⟨ch',heq,-⟩ := hd.children
  · exact heq ▸ hmem
  · exact heq ▸ mem_cons_of_mem _ hmem

theorem Served.of_same (h : Served c s) (hcounted : ∀ j, s'.Counted j ↔ s.Counted j)
    (hretired : ∀ j, s'.Retired j ↔ s.Retired j) (hend : s'.endCnt = s.endCnt)
    (hserved : ∀ j, s.Counted j →
      (∃ ch ∈ s.children, ch.test = true ∧ ch.task = j) ∨ s.recycle.working = some j →
      (∃ ch ∈ s'.children, ch.test = true ∧ ch.task = j) ∨ s'.recycle.working = some j)
    (hfull : ∀ j, s.Counted j → (c.env j).runParallel = true →
      (s.task j).runTimes ≤ (s'.task j).runTimes)
    (htold : ∀ i, s'.main = .waitChild i → 0 < s'.told ∨ s'.runningCnt = c.runCntUpTo ∨
      (∃ j, s'.recycle = .tellParent j) ∧ s'.runningCnt+1 = c.runCntUpTo)
    (hstarted : ∀ j < s'.main.reached c, (s'.task j).status ≠ .taskWait)
    (hjoined : s'.main = .done → s'.recycle = .exited)
    (hleft : s'.recycle = .exited → s'.endCnt = c.tasksCnt) : Served c s' where
  ends := by
    rw [retired_congr c hretired,hend]
    exact h.ends
  served := fun j hj => by
    have hj' := (hcounted j).mp hj
    exact hserved j hj' (h.served j hj')
  full := fun j hj hp => by
    have hj' := (hcounted j).mp hj
    exact (h.full j hj' hp).trans (hfull j hj' hp)
  told := htold
  started := hstarted
  joined := hjoined
  left := hleft

theorem DoMoves.runTimes_le (hd : DoMoves c s i f pc t out) :
    (s.task i).runTimes ≤ (t.task i).runTimes := by
  cases hd with
  | tooOften | locked | limitForks | testForks => exact le_rfl
  | limitFails | pgidStored | testFails | pidStored | lastRun | again =>
    rw [setTask_self]
    first | exact le_rfl | exact Nat.le_succ _

theorem Served.mainSuccess (h : Served c s) (hmatch : Matched c s)
    (hpc : s.main = .taskDo i pc) (hd : DoMoves c s i f pc t .success) :
    Served c { t with main := .add i } := by
  obtain ⟨rfl,hch,hfull⟩ := hd.success_iff
  obtain ⟨ch,hmem,htest,htask,-⟩ := hmatch.owned.stored i (.inl hpc)
  obtain ⟨k1,k2,k3,k4,k5,k6,k7⟩ := hd.kept
  have hold := counted_success hmatch.limits.pcs hpc hd
  have hretired : ∀ j, State.Retired { t with main := .add i } j ↔ s.Retired j := by
    intro j
    simp only [State.Retired,k2,k6]
  refine ⟨?_,?_,?_,by simp,?_,by simp,?_⟩
  · rw [retired_congr c hretired]
    exact k4.trans h.ends
  · intro j hj
    rw [hch,k2]
    obtain hj | rfl := (hold j).mp hj
    · exact h.served j hj
    · exact .inl ⟨ch,hmem,htest,htask⟩
  · intro j hj hp
    obtain rfl | hji := eq_or_ne j i
    · exact hfull hp
    · show _ ≤ (t.task j).runTimes
      rw [k7 j hji]
      exact h.full j (((hold j).mp hj).resolve_right hji) hp
  · intro j hj
    rw [k6]
    exact h.started j (by rw [hpc]; exact hj)
  · intro hr
    exact k4.trans (h.left (k2 ▸ hr))

/-- The decrement: the retired task is counted by `end_cnt`, and `task_begin` is
about to be told if the limit was reached. -/
theorem Served.sub (h : Served c s) (hc : Pcs c s) (hpc : s.recycle = .sub i) : Served c { s with
      endCnt := s.endCnt+1, runningCnt := s.runningCnt-1, recycle := .tellParent i } := by
  have hsc := counted_sub hpc
  refine ⟨?_,?_,?_,?_,h.started,?_,nofun⟩
  · rw [card_retired_sub hc hpc]
    exact congrArg (· + 1) h.ends
  · intro j hj
    obtain ⟨hj,hji⟩ := (hsc j).mp hj
    refine .inl ((h.served j hj).resolve_right fun hw => ?_)
    rw [hpc] at hw
    exact hji (Option.some.inj hw).symm
  · exact fun j hj => h.full j ((hsc j).mp hj).1
  · intro j hj
    obtain ht | ht | ⟨⟨k,hk⟩,-⟩ := h.told j hj
    · exact .inl ht
    · refine .inr (.inr ⟨⟨i,rfl⟩,?_⟩)
      rw [sub_add_cancel]
      exact ht
    · rw [hpc] at hk
      cases hk
  · intro hd
    have hex := h.joined hd
    rw [hpc] at hex
    cases hex

section
variable (h : Served c s) (hmatch : Matched c s)
include h hmatch

/-- A reaped test process either hands its task to the recycle thread or leaves
another process of the same parallel task behind. -/
theorem Served.reap {ch : Child} (hpc : s.recycle = .wait) (hmem : ch ∈ s.children)
    (hgood : ch.test = true → ch.run < (s.task ch.task).runTimes) :
    Served c (recyclePid c (s.reap ch.pid) ch.pid) := by
  have howned := hmatch.reap_owned hmem hgood
  have hinj := inj_on_of_nodup_map hmatch.limits.pids.nodup
  have htold := h.told
  have hstarted := h.started
  have hjoined := h.joined
  -- the process of another run is still there
  have hother : ∀ ch' ∈ s.children, ch' ≠ ch → ch' ∈ (s.reap ch.pid).children := by
    intro ch' hmem' hne
    exact mem_reap.mpr ⟨hmem',fun he => hne (hinj hmem' hmem he)⟩
  cases htest : ch.test with
  | false =>
    obtain ⟨-,heq⟩ | ⟨j,num,-,heq⟩ | ⟨j,num,hs,-⟩ :=
      recyclePid_cases c (s.reap ch.pid) ch.pid
    · rw [heq]
      apply h.of_same <;> grind [State.Counted,State.Retired,reap]
    · rw [heq]
      apply h.of_same <;> grind [State.Counted,State.Retired,reap,setTask]
    · exact absurd hs (hmatch.owned.scan_limit hmem htest)
  | true =>
    obtain ⟨-,heq⟩ := hmatch.recyclePid_test hmem htest (hgood htest)
    rw [heq] at howned ⊢
    have hmore : (c.env ch.task).runParallel = true →
        (c.env ch.task).runTimes ≤ (s.task ch.task).runTimes →
        taskCheckEnd (c.env ch.task) ((s.task ch.task).putPid ch.run (-ch.pid)) = false →
        ∃ ch' ∈ (s.reap ch.pid).children, ch'.test = true ∧ ch'.task = ch.task := by
      intro hpar hfull hend
      have hopen : ∃ num < (s.task ch.task).runTimes,
          0 < ((s.task ch.task).putPid ch.run (-ch.pid)).pid num := by
        by_contra hno
        have hyes : taskCheckEnd (c.env ch.task) ((s.task ch.task).putPid ch.run (-ch.pid)) =
          true :=
          taskCheckEnd_iff.mpr ⟨fun _ num hnum => not_lt.mp fun hlt => hno ⟨num,hnum,hlt⟩,hfull⟩
        rw [hend] at hyes
        cases hyes
      obtain ⟨num,hnum,hpid⟩ := hopen
      obtain ⟨ch',hmem',htest',htask',-⟩ :=
        howned.alive ch.task num (by simpa using hnum) (by simpa using hpid)
      exact ⟨ch',hmem',htest',htask'⟩
    have hfull := h.full ch.task
    apply h.of_same <;>
      grind [State.Counted,RecyclePc.retiring,RecyclePc.working,State.Retired,reap,setTask]

theorem Served.main_step (hg : Good c s (.main f)) (hm : Moves c s (.main f) s') : Served c s' := by
  have hpcs := hmatch.limits.pcs
  have hcounts := hmatch.limits.counts
  have htold := h.told
  have hstarted := h.started
  have hjoined := h.joined
  have hleft := h.left
  cases hm with
  | mainSuccess hpc hd => exact h.mainSuccess hmatch hpc hd
  | skip hpc => exact absurd hpc (hmatch.noSkip _)
  | @mainFailure _ i pc t hpc hd =>
    exact (hd.no_failure (fun hf => hg (by rw [hpc]; exact hf))
      (hpcs.starting i (by rw [hpc]; rfl)).2.1).elim
  | mainNext hpc hd =>
    have hsub : ∀ ch ∈ s.children, ch ∈ _ := fun _ => hd.children_subset
    have hle := hd.runTimes_le
    obtain ⟨k1,k2,k3,k4,k5,k6,k7⟩ := hd.kept
    apply h.of_same <;> grind [State.Counted,MainPc.starting,State.Retired,MainPc.reached]
  | full hpc hi hr =>
    have hcount := hcounts.count
    have hroom := hcounts.room
    apply h.of_same <;>
      grind [State.Counted,MainPc.starting,State.Retired,MainPc.reached,MainPc.adding]
  | @start _ i hpc =>
    have hwait := hpcs.waiting i (by rw [hpc]; exact le_rfl)
    apply h.of_same <;>
      grind [State.Counted,MainPc.starting,State.Retired,MainPc.reached,setTask]
  | listEnd hpc hi =>
    have hle := hpcs.reached_le
    apply h.of_same <;> grind [State.Counted,MainPc.starting,State.Retired,MainPc.reached]
  | room hpc | told hpc | admitted hpc | add hpc | aloneEnd hpc | join hpc =>
    apply h.of_same <;> grind [State.Counted,MainPc.starting,State.Retired,MainPc.reached]

theorem Served.recycle_step {p : ℤ} (hg : Good c s (.recycle f p))
    (hm : Moves c s (.recycle f p) s') : Served c s' := by
  have hpcs := hmatch.limits.pcs
  have htold := h.told
  have hstarted := h.started
  have hjoined := h.joined
  have hleft := h.left
  cases hm with
  | sub hpc => exact h.sub hpcs hpc
  | @recycleFailure _ _ i pc t hpc hd =>
    exact (hd.no_failure (fun hf => hg.1 (by rw [hpc]; exact hf)) (hpcs.again i pc hpc).2).elim
  | recycleNext hpc hd =>
    have hsub : ∀ ch ∈ s.children, ch ∈ _ := fun _ => hd.children_subset
    have hle := hd.runTimes_le
    obtain ⟨k1,k2,k3,k4,k5,k6,k7⟩ := hd.kept
    apply h.of_same <;> grind [State.Counted,RecyclePc.retiring,RecyclePc.working,State.Retired]
  | @recycleSuccess _ _ i pc t hpc hd =>
    obtain ⟨rfl,hch,-⟩ := hd.success_iff
    obtain ⟨ch,hmem,htest,htask,-⟩ := hmatch.owned.stored i (.inr hpc)
    have hle := hd.runTimes_le
    obtain ⟨k1,k2,k3,k4,k5,k6,k7⟩ := hd.kept
    apply h.of_same <;> grind [State.Counted,RecyclePc.retiring,RecyclePc.working,State.Retired]
  | reap hpc he hmem hx => exact h.reap hmatch hpc hmem (hg.2 hpc _ hmem rfl)
  | leave hpc he | tell hpc | setEnd hpc =>
    apply h.of_same <;>
      grind [State.Counted,RecyclePc.retiring,RecyclePc.working,State.Retired,setTask]

theorem Served.step {a : Action} (hg : Good c s a) (hs : step c s a = some s') : Served c s' := by
  have hm := moves_of_step hs
  cases a with
  | main f => exact h.main_step hmatch hg hm
  | recycle f p => exact h.recycle_step hmatch hg hm
  | exit p =>
    cases hm with
    | exit hmem hx =>
      refine h.of_same (counted_iff (fun _ => rfl) rfl rfl) (fun j => Iff.rfl) rfl
        (fun j _ hj => ?_) (fun _ _ _ => le_rfl) h.told h.started h.joined h.left
      simpa only [mem_map,exists_exists_and_eq_and,exitChild_same] using hj

end

end

def Enabled (c : Config) (s : State) : Prop := ∃ a s', Good c s a ∧ step c s a = some s'

structure Finished (c : Config) (s : State) : Prop where
  ended : ∀ i < c.tasksCnt, (s.task i).status = .taskEnd
  recycle : s.recycle = .exited
  main : s.main = .done

section

variable {c : Config} {s : State}

theorem exists_pid (c : Config) (s : State) : ∃ q, s.FreePid q ∧ Unrecorded c s q := by
  let recorded : Finset ℤ := (s.children.map Child.pid).toFinset ∪
    (Finset.range c.tasksCnt).biUnion fun i => (Finset.range (c.env i).runTimes).biUnion fun num =>
      {(s.task i).pid num, |(s.task i).pgid num|}
  obtain ⟨m,hm⟩ := recorded.exists_le
  have hlt : ∀ x ∈ recorded, x < max m 0+1 := fun x hx =>
    Int.lt_add_one_of_le ((hm x hx).trans (le_max_left m 0))
  refine ⟨max m 0+1,⟨?_,fun ch hch => ?_⟩, fun i hi num hnum => ?_⟩
  · exact Int.lt_add_one_of_le (le_max_right m 0)
  · exact (hlt _ (Finset.mem_union_left _ (List.mem_toFinset.mpr (mem_map_of_mem hch)))).ne
  · have hentry : ∀ x ∈ ({(s.task i).pid num, |(s.task i).pgid num|} : Finset ℤ), x ∈ recorded := by
      intro x hx
      refine Finset.mem_union_right _ (Finset.mem_biUnion.mpr ⟨i,Finset.mem_range.mpr hi,?_⟩)
      exact Finset.mem_biUnion.mpr ⟨num,Finset.mem_range.mpr hnum,hx⟩
    exact ⟨(hlt _ (hentry _ (Finset.mem_insert_self _ _))).ne,
      (hlt _ (hentry _ (Finset.mem_insert_of_mem (Finset.mem_singleton_self _)))).ne⟩

theorem taskDo_enabled (c : Config) (s : State) (i : ℕ) (pc : DoPc)
    (hlock : pc = .lock → s.main.locked = false ∧ s.recycle.locked = false) :
    ∃ f, (pc.forking = true → GoodFork c s f) ∧ ∃ r, taskDo c s i f pc = some r := by
  obtain ⟨q,hfree,hun⟩ := exists_pid c s
  cases pc with
  | lock =>
    obtain ⟨h1,h2⟩ := hlock rfl
    refine ⟨none,by simp [DoPc.forking],?_⟩
    simp only [taskDo,h1,h2,Bool.or_self,Bool.false_eq_true,if_false]
    split <;> exact ⟨_,rfl⟩
  | forkLimit => exact ⟨some q,fun _ => hun, _,if_pos hfree⟩
  | storePgid p => exact ⟨none,by simp [DoPc.forking],_,rfl⟩
  | forkTest => exact ⟨some q,fun _ => hun, _,if_pos hfree⟩
  | storePid p => exact ⟨none,by simp [DoPc.forking],_,rfl⟩
  | bump =>
    refine ⟨none,by simp [DoPc.forking],?_⟩
    simp only [taskDo]
    split <;> exact ⟨_,rfl⟩

variable {i : ℕ} {pc : DoPc}

theorem enabled_of_doing (hpc : s.Doing i pc)
    (hlock : pc = .lock → s.main.locked = false ∧ s.recycle.locked = false) : Enabled c s := by
  obtain ⟨f,hf,⟨t,out⟩,hr⟩ := taskDo_enabled c s i pc hlock
  rcases hpc with hpc | hpc
  · obtain ⟨s',hs'⟩ : ∃ s', mainStep c s f = some s' := by
      simp only [mainStep,hpc,hr]
      cases out <;> exact ⟨_,rfl⟩
    exact ⟨.main f,s',fun hfork => hf (by rw [hpc] at hfork; exact hfork),hs'⟩
  · obtain ⟨s',hs'⟩ : ∃ s', recycleStep c s f 0 = some s' := by
      simp only [recycleStep,hpc,hr]
      cases out <;> exact ⟨_,rfl⟩
    refine ⟨.recycle f 0,s',⟨fun hfork => hf (by rw [hpc] at hfork; exact hfork),?_⟩,hs'⟩
    rw [hpc]
    exact nofun

theorem main_enabled (hmatch : Matched c s) (hserved : Served c s)
    (hempty : ∀ j, ¬ s.Counted j) (hlock : s.recycle.locked = false)
    (htell : ∀ j, s.recycle ≠ .tellParent j) :
    Enabled c s ∨ s.main = .join ∨ s.main = .done := by
  have hcard : (s.counted c).card = 0 :=
    Finset.card_eq_zero.mpr (Finset.filter_false_of_mem fun j _ => hempty j)
  have hcount := hmatch.limits.counts.count
  rw [hcard] at hcount
  have henabled : ∀ s', s.main.forking = false → mainStep c s none = some s' → Enabled c s :=
    fun s' hfork hs' =>
    ⟨.main none,s',fun h => (Bool.false_ne_true (hfork.symm.trans h)).elim,hs'⟩
  have hzero : s.main.adding = 0 → s.runningCnt = 0 := by
    intro hadd
    rw [hadd] at hcount
    simpa using hcount
  unfold mainStep at henabled
  cases hpc : s.main <;> simp only [hpc] at henabled hzero
  case join => exact .inr (.inl rfl)
  case done => exact .inr (.inr rfl)
  case skip i => exact absurd hpc (hmatch.noSkip i)
  all_goals left
  case limitWait i => split_ifs at henabled <;> exact henabled _ rfl rfl
  case waitChild i =>
    have hpos := c.runCntUpTo_pos
    have htold : 0 < s.told := by
      obtain h | h | ⟨⟨j,hj⟩,-⟩ := hserved.told i hpc
      · exact h
      · have hrun := hzero rfl
        omega
      · exact absurd hj (htell j)
    exact henabled _ rfl (if_pos htold)
  case taskDo i pc =>
    refine enabled_of_doing (.inl hpc) fun hl => ⟨?_,hlock⟩
    rw [hpc,hl]
    rfl
  case aloneWait i | aloneEnd i =>
    have hrun := hzero rfl
    refine henabled _ rfl (if_neg ?_)
    simp [hrun]
  case start | add => exact henabled _ rfl rfl

theorem enabled_of_recycle (hfork : s.recycle.forking = false) (hwait : s.recycle ≠ .wait)
    (hs : ∃ s', recycleStep c s none 0 = some s') : Enabled c s := by
  obtain ⟨s',hs'⟩ := hs
  exact ⟨.recycle none 0,s',⟨fun h => (Bool.false_ne_true (hfork.symm.trans h)).elim,
    fun h => absurd h hwait⟩, hs'⟩

/-- The recycle thread reaps a dead child, unless it is a test process that a
thread has in hand; that thread can then go on. -/
theorem enabled_of_child (hmatch : Matched c s) (hr : s.recycle = .wait)
    (hend : s.endCnt ≠ c.tasksCnt) {ch : Child} (hmem : ch ∈ s.children) : Enabled c s := by
  by_cases hx : ch.exited = true
  · by_cases hgood : ch.test = true → ch.run < (s.task ch.task).runTimes
    · refine ⟨.recycle none ch.pid,recyclePid c (s.reap ch.pid) ch.pid,⟨?_,?_⟩,?_⟩
      · rw [hr]
        exact nofun
      · intro _ ch' hmem' hpid htest'
        obtain rfl := inj_on_of_nodup_map hmatch.limits.pids.nodup hmem' hmem hpid
        exact hgood htest'
      · show recycleStep c s none ch.pid = _
        unfold recycleStep
        rw [hr]
        simp only [if_neg hend]
        exact if_pos ⟨ch,hmem,rfl,hx⟩
    · obtain ⟨htest,hle⟩ := Classical.not_imp.mp hgood
      obtain ⟨hlt,-⟩ | ⟨-,hdoing⟩ := hmatch.limits.pids.recorded ch hmem htest
      · exact absurd hlt hle
      · obtain h | ⟨h,-⟩ := hdoing <;> exact enabled_of_doing h nofun
  · refine ⟨.exit ch.pid,{ s with children := s.children.map (exitChild ch.pid) },trivial,?_⟩
    exact if_pos ⟨ch,hmem,rfl,Bool.not_eq_true _ ▸ hx⟩

theorem Served.ended (h : Served c s) (hend : s.endCnt = c.tasksCnt)
    (hret : s.recycle.retiring = none) (hi : i < c.tasksCnt) :
    (s.task i).status = .taskEnd := by
  have hcard : (s.retired c).card = (Finset.range c.tasksCnt).card := by
    rw [Finset.card_range,← h.ends,hend]
  have hall := Finset.card_filter_eq_iff.mp hcard
  obtain hst | hst := hall i (Finset.mem_range.mpr hi)
  · exact hst
  · rw [hret] at hst
    cases hst

theorem finished_or_enabled (hmatch : Matched c s) (hserved : Served c s) :
    Finished c s ∨ Enabled c s := by
  have hpcs := hmatch.limits.pcs
  cases hr : s.recycle with
  | taskDo i pc =>
    right
    by_cases hlocked : s.main.locked = true
    · -- the main thread holds the lock, so it stands behind it
      cases hpc : s.main with
      | taskDo j pc' =>
        refine enabled_of_doing (.inl hpc) fun hl => ?_
        rw [hpc,hl] at hlocked
        cases hlocked
      | limitWait | waitChild | aloneWait | start | add | skip | aloneEnd | join | done =>
        rw [hpc] at hlocked
        cases hlocked
    · refine enabled_of_doing (.inr hr) fun hl => ⟨Bool.not_eq_true _ ▸ hlocked,?_⟩
      rw [hr,hl]
      rfl
  | sub i | tellParent i | setEnd i =>
    right
    refine enabled_of_recycle (by rw [hr]; rfl) (by simp [hr]) ?_
    unfold recycleStep
    rw [hr]
    exact ⟨_,rfl⟩
  | exited =>
    have hended : ∀ i < c.tasksCnt, (s.task i).status = .taskEnd := fun i hi =>
      hserved.ended (hserved.left hr) (by rw [hr]; rfl) hi
    have hempty : ∀ j, ¬ s.Counted j := by
      intro j hj
      have hend := hended j ((hpcs.lt_of_counted hj).trans_le hpcs.reached_le)
      rw [hj.status] at hend
      cases hend
    obtain h | h | h := main_enabled hmatch hserved hempty (by rw [hr]; rfl) (by simp [hr])
    · exact .inr h
    · refine .inr ⟨.main none,{ s with main := .done },?_,?_⟩
      · intro hfork
        rw [h] at hfork
        cases hfork
      · show mainStep c s none = _
        unfold mainStep
        rw [h]
        exact if_pos hr
    · exact .inl ⟨hended,hr,h⟩
  | wait =>
    right
    by_cases hend : s.endCnt = c.tasksCnt
    · refine ⟨.recycle none 0,{ s with recycle := .exited },⟨?_,?_⟩,?_⟩
      · simp [hr,RecyclePc.forking]
      · exact fun _ ch hmem hpid => absurd hpid (hmatch.limits.pids.pos ch hmem).ne'
      show recycleStep c s none 0 = _
      unfold recycleStep
      rw [hr]
      exact if_pos hend
    · cases hch : s.children with
      | cons ch rest => exact enabled_of_child hmatch hr hend (by rw [hch]; exact mem_cons_self)
      | nil =>
        -- with no child left no task is counted, so all of them are retired
        have hempty : ∀ j, ¬ s.Counted j := by
          intro j hj
          obtain ⟨ch,hmem,-⟩ | hw := hserved.served j hj
          · rw [hch] at hmem
            cases hmem
          · rw [hr] at hw
            cases hw
        obtain h | h | h := main_enabled hmatch hserved hempty (by rw [hr]; rfl) (by simp [hr])
        · exact h
        · refine absurd ?_ hend
          rw [hserved.ends,retired,Finset.filter_true_of_mem,Finset.card_range]
          intro j hj
          have hst := hserved.started j (by rw [h]; exact Finset.mem_range.mp hj)
          cases hs : (s.task j).status with
          | taskWait => exact absurd hs hst
          | taskRun =>
            refine absurd ⟨hs,?_,?_⟩ (hempty j)
            · simp [h,MainPc.starting]
            · simp [hr,RecyclePc.retiring]
          | taskEnd => exact .inl hs
        · have hex := hserved.joined h
          rw [hr] at hex
          cases hex

end

/-- What is left to do for a child: to exit and to be reaped; the death of a test
process lets the recycle thread restart or retire its task. -/
def Child.work (ch : Child) : ℤ :=
  (if ch.test then 9 else 1)+if ch.exited then 0 else 1

/-- The steps left in `task_do`, less the sixteen of the run that is charged to
the test process once it is forked. -/
def DoPc.work : DoPc → ℤ
  | .lock => 8
  | .forkLimit => 7
  | .storePgid _ => 4
  | .forkTest => 3
  | .storePid _ => -8
  | .bump => -9

def Outcome.work : Outcome → ℤ
  | .next pc => pc.work
  | .success => 6
  | .failure => 0

def MainPc.work (c : Config) : MainPc → ℤ
  | .limitWait i => 20*((c.tasksCnt : ℤ)-i)+3
  | .waitChild i => 20*((c.tasksCnt : ℤ)-i)+2
  | .aloneWait i => 20*((c.tasksCnt : ℤ)-i)+2
  | .start i => 20*((c.tasksCnt : ℤ)-i)+1
  | .taskDo i pc => 20*((c.tasksCnt : ℤ)-i)+pc.work-8
  | .add i => 20*((c.tasksCnt : ℤ)-i)-2
  | .skip i => 20*((c.tasksCnt : ℤ)-i)-8
  | .aloneEnd i => 20*((c.tasksCnt : ℤ)-i)-3
  | .join => 1
  | .done => 0

def RecyclePc.work : RecyclePc → ℤ
  | .wait => 1
  | .taskDo _ pc => 1+pc.work
  | .sub _ => 6
  | .tellParent _ => 5
  | .setEnd _ => 2
  | .exited => 0

def State.runsLeft (c : Config) (s : State) : ℤ :=
  ∑ i ∈ Finset.range c.tasksCnt, 16*(((c.env i).runTimes : ℤ)-(s.task i).runTimes)

def State.childWork (s : State) : ℤ := (s.children.map Child.work).sum

def State.work (c : Config) (s : State) : ℤ :=
  s.runsLeft c+s.childWork+s.main.work c+s.recycle.work+2*s.told

section

variable {c : Config} {s t s' : State} {i : ℕ} {f : Option ℤ} {pc : DoPc} {out : Outcome}

theorem runsLeft_congr (h : ∀ j, (s'.task j).runTimes = (s.task j).runTimes) :
    s'.runsLeft c = s.runsLeft c :=
  Finset.sum_congr rfl fun j _ => by rw [h]

@[simp]
theorem runsLeft_setTask {u : TaskState} (h : u.runTimes = (s.task i).runTimes) :
    (s.setTask i u).runsLeft c = s.runsLeft c := by
  refine runsLeft_congr fun j => ?_
  rw [setTask_task]
  split
  · next hj => rw [hj,h]
  · rfl

@[simp]
theorem runsLeft_addChild (ch : Child) : (s.addChild ch).runsLeft c = s.runsLeft c := rfl

@[simp]
theorem childWork_setTask (u : TaskState) : (s.setTask i u).childWork = s.childWork := rfl

@[simp]
theorem childWork_addChild (ch : Child) : (s.addChild ch).childWork = ch.work+s.childWork := rfl

theorem runsLeft_succ (hi : i < c.tasksCnt) (hrun : (t.task i).runTimes = (s.task i).runTimes+1)
    (hothers : ∀ j, j ≠ i → t.task j = s.task j) : t.runsLeft c = s.runsLeft c-16 := by
  have hsum := sum_add_of_eq (Finset.mem_range.mpr hi)
    (f := fun j => 16*(((c.env j).runTimes : ℤ)-(s.task j).runTimes))
    (g := fun j => 16*(((c.env j).runTimes : ℤ)-(t.task j).runTimes))
    fun j hj => by rw [hothers j hj]
  rw [hrun] at hsum
  push_cast at hsum
  unfold runsLeft
  linarith

theorem DoMoves.work_lt (hd : DoMoves c s i f pc t out) (hi : i < c.tasksCnt) :
    t.runsLeft c+t.childWork+out.work < s.runsLeft c+s.childWork+pc.work := by
  have hothers := hd.kept.others
  cases hd with
  | tooOften | locked =>
    simp only [Outcome.work,DoPc.work]
    omega
  | limitForks | testForks =>
    rw [runsLeft_addChild,childWork_addChild]
    simp only [Child.work,Outcome.work,DoPc.work,if_true,Bool.false_eq_true,if_false]
    omega
  | limitFails | pgidStored | testFails | pidStored =>
    rw [runsLeft_setTask,childWork_setTask]
    · simp only [Outcome.work,DoPc.work]
      omega
    · rfl
  | again | lastRun =>
    rw [runsLeft_succ hi (congrArg TaskState.runTimes (setTask_self ..)) hothers,childWork_setTask]
    simp only [Outcome.work,DoPc.work]
    omega

theorem Child.work_pos (ch : Child) : 0 < ch.work := by
  unfold Child.work
  split <;> split <;> decide

variable {ch : Child}

theorem childWork_reap_le (hmem : ch ∈ s.children) :
    (s.reap ch.pid).childWork+ch.work ≤ s.childWork := by
  obtain ⟨before,after,hsplit⟩ := append_of_mem hmem
  have hsub : (s.reap ch.pid).children.Sublist (before ++ after) := by
    rw [reap,hsplit,filter_append,filter_cons_of_neg (by simp)]
    exact filter_sublist.append filter_sublist
  have hsum := (hsub.map Child.work).sum_le_sum fun w hw => by
    obtain ⟨x,-,rfl⟩ := List.mem_map.mp hw
    exact x.work_pos.le
  rw [childWork,childWork,hsplit]
  simp only [map_append,map_cons,sum_append,sum_cons] at hsum ⊢
  omega

theorem childWork_exit_lt (hmem : ch ∈ s.children) (hx : ch.exited = false) :
    childWork { s with children := s.children.map (exitChild ch.pid) } < s.childWork := by
  unfold childWork
  rw [map_map]
  refine sum_lt_sum _ _ (fun x _ => ?_) ⟨ch,hmem,?_⟩
  · unfold Function.comp exitChild Child.work
    split <;> simp
    split <;> simp
  · simp [exitChild,Child.work,hx]

theorem Pcs.lt_of_starting (h : Pcs c s) (hi : s.main.starting = some i) : i < c.tasksCnt := by
  by_contra hge
  have hwait := (h.waiting i (h.reached_le.trans (not_lt.mp hge))).1
  rw [(h.starting i hi).1] at hwait
  cases hwait

theorem work_of_same (s : State) (hrun : ∀ j, (s'.task j).runTimes = (s.task j).runTimes)
    (hchildren : s'.children = s.children) :
    s'.work c = s.runsLeft c+s.childWork+s'.main.work c+s'.recycle.work+2*s'.told := by
  rw [work,runsLeft_congr hrun,childWork,hchildren]
  rfl

theorem work_reap_lt (hmatch : Matched c s) (hpc : s.recycle = .wait) (hmem : ch ∈ s.children)
    (hgood : ch.test = true → ch.run < (s.task ch.task).runTimes) :
    (recyclePid c (s.reap ch.pid) ch.pid).work c < s.work c := by
  have hle := childWork_reap_le hmem
  have hwork : ch.work = (if ch.test then 9 else 1)+if ch.exited then 0 else 1 := rfl
  rw [work.eq_def c s,hpc]
  cases htest : ch.test with
  | false =>
    have hpos := ch.work_pos
    obtain ⟨-,heq⟩ | ⟨j,num,-,heq⟩ | ⟨j,num,hs,-⟩ :=
      recyclePid_cases c (s.reap ch.pid) ch.pid
    · rw [heq]
      show s.runsLeft c+_+s.main.work c+s.recycle.work+2*(s.told : ℤ) < _
      rw [hpc]
      omega
    · rw [heq,work,runsLeft_setTask,childWork_setTask]
      · show s.runsLeft c+_+s.main.work c+s.recycle.work+2*(s.told : ℤ) < _
        rw [hpc]
        omega
      · rfl
    · exact absurd hs (hmatch.owned.scan_limit hmem htest)
  | true =>
    rw [htest,if_pos rfl] at hwork
    have hnine : 9 ≤ ch.work := by
      rw [hwork]
      split <;> decide
    obtain ⟨-,heq⟩ := hmatch.recyclePid_test hmem htest (hgood htest)
    have hrun : ∀ j, ((recyclePid c (s.reap ch.pid) ch.pid).task j).runTimes =
        (s.task j).runTimes := by
      intro j
      rw [heq]
      rw [setTask_task]
      split
      · next hj => rw [hj]; rfl
      · rfl
    have hrec : (recyclePid c (s.reap ch.pid) ch.pid).recycle.work ≤ 9 := by
      rw [heq]
      simp only
      split_ifs <;> simp only [RecyclePc.work,DoPc.work] <;> omega
    have hsame : (recyclePid c (s.reap ch.pid) ch.pid).work c =
        s.runsLeft c+(s.reap ch.pid).childWork+s.main.work c +
          (recyclePid c (s.reap ch.pid) ch.pid).recycle.work+2*s.told := by
      rw [work,runsLeft_congr hrun,heq]
      rfl
    rw [hsame]
    simp only [RecyclePc.work] at hrec ⊢
    omega

theorem work_mainDo_lt (hpcs : Pcs c s) (hpc : s.main = .taskDo i pc)
    (hd : DoMoves c s i f pc t out) {m : MainPc}
    (hm : m.work c ≤ 20*((c.tasksCnt : ℤ)-i)+out.work-8) :
    work c { t with main := m } < s.work c := by
  have hlt := hd.work_lt (hpcs.lt_of_starting (by rw [hpc]; rfl))
  have hafter : work c { t with main := m } =
      t.runsLeft c+t.childWork+m.work c+t.recycle.work+2*t.told := rfl
  have hbefore : (MainPc.taskDo i pc).work c = 20*((c.tasksCnt : ℤ)-i)+pc.work-8 := rfl
  rw [hafter,hd.kept.recycle,hd.kept.told,work,hpc,hbefore]
  omega

theorem work_recycleDo_lt (hpcs : Pcs c s) (hpc : s.recycle = .taskDo i pc)
    (hd : DoMoves c s i f pc t out) {r : RecyclePc} (hr : r.work ≤ 1+out.work) :
    work c { t with recycle := r } < s.work c := by
  have hi := hpcs.working i (by rw [hpc]; rfl)
  have hlt := hd.work_lt ((hpcs.lt_of_counted hi).trans_le hpcs.reached_le)
  have hafter : work c { t with recycle := r } =
      t.runsLeft c+t.childWork+t.main.work c+r.work+2*t.told := rfl
  have hbefore : (RecyclePc.taskDo i pc).work = 1+pc.work := rfl
  rw [hafter,hd.kept.main,hd.kept.told,work,hpc,hbefore]
  omega

theorem work_lt_of_same
    (hlt : s'.main.work c+s'.recycle.work+2*s'.told < s.main.work c+s.recycle.work+2*s.told)
    (hrun : ∀ j, (s'.task j).runTimes = (s.task j).runTimes)
    (hchildren : s'.children = s.children) : s'.work c < s.work c := by
  rw [work_of_same s hrun hchildren,work]
  omega

theorem State.work_lt {a : Action} (hmatch : Matched c s) (hg : Good c s a)
    (hs : step c s a = some s') : s'.work c < s.work c := by
  have hpcs := hmatch.limits.pcs
  have hm := moves_of_step hs
  cases hm with
  | mainNext hpc hd => exact work_mainDo_lt hpcs hpc hd le_rfl
  | mainSuccess hpc hd | mainFailure hpc hd =>
    refine work_mainDo_lt hpcs hpc hd ?_
    simp only [MainPc.work,Outcome.work]
    omega
  | recycleNext hpc hd => exact work_recycleDo_lt hpcs hpc hd le_rfl
  | recycleSuccess hpc hd | recycleFailure hpc hd => exact work_recycleDo_lt hpcs hpc hd (by decide)
  | reap hpc he hmem hx => exact work_reap_lt hmatch hpc hmem (hg.2 hpc _ hmem rfl)
  | @exit ch hmem hx =>
    have hlt := childWork_exit_lt hmem hx
    have hafter : work c { s with children := s.children.map (exitChild ch.pid) } =
        s.runsLeft c+childWork { s with children := s.children.map (exitChild ch.pid) } +
          s.main.work c+s.recycle.work+2*s.told := rfl
    rw [hafter,work]
    omega
  | @start _ i hpc | @skip _ i hpc | @setEnd _ _ i hpc =>
    refine work_lt_of_same ?_ (fun j => (setStatus_same s i _ j).2.2) rfl
    rw [hpc]
    simp only [MainPc.work,RecyclePc.work,DoPc.work,setTask]
    omega
  | @listEnd _ i hpc hi =>
    have hle := hpcs.reached_le
    rw [hpc] at hle
    simp only [MainPc.reached] at hle
    refine work_lt_of_same ?_ (fun _ => rfl) rfl
    rw [hpc]
    simp only [MainPc.work]
    omega
  | full hpc | room hpc | told hpc | admitted hpc | add hpc | aloneEnd hpc | join hpc | leave hpc
  | sub hpc =>
    refine work_lt_of_same ?_ (fun _ => rfl) rfl
    rw [hpc]
    simp only [MainPc.work,RecyclePc.work]
    omega
  | tell hpc =>
    refine work_lt_of_same ?_ (fun _ => rfl) rfl
    rw [hpc]
    simp only [RecyclePc.work]
    split <;> omega

theorem State.work_nonneg (h : Pcs c s) (howned : Owned c s.Doing s) : 0 ≤ s.work c := by
  have hchild : 0 ≤ s.childWork := by
    refine sum_nonneg fun x hx => ?_
    obtain ⟨ch,-,rfl⟩ := List.mem_map.mp hx
    exact ch.work_pos.le
  have hterm : ∀ i ∈ Finset.range c.tasksCnt,
      0 ≤ 16*(((c.env i).runTimes : ℤ)-(s.task i).runTimes) := by
    intro i _
    have hle := howned.runTimes_le i
    omega
  have hle := h.reached_le
  have hmain : 0 ≤ s.main.work c := by
    cases hpc : s.main with
    | taskDo i pc =>
      rw [hpc] at hle
      simp only [MainPc.reached] at hle
      cases pc <;> simp only [MainPc.work,DoPc.work] <;> omega
    | limitWait | waitChild | aloneWait | start | add | skip | aloneEnd | join | done =>
      rw [hpc] at hle
      simp only [MainPc.reached] at hle
      simp only [MainPc.work]
      omega
  -- the run that the recycle thread has begun is not counted yet
  have hrecycle : 0 ≤ s.runsLeft c+s.recycle.work := by
    have hsum : 0 ≤ s.runsLeft c := Finset.sum_nonneg hterm
    cases hpc : s.recycle with
    | taskDo i pc =>
      have hi := h.working i (by rw [hpc]; rfl)
      have hlt := (h.again i pc hpc).2
      have hone := Finset.single_le_sum hterm
        (Finset.mem_range.mpr ((h.lt_of_counted hi).trans_le h.reached_le))
      have hone' : 16*(((c.env i).runTimes : ℤ)-(s.task i).runTimes) ≤ s.runsLeft c := hone
      cases pc <;> simp only [RecyclePc.work,DoPc.work] <;> omega
    | wait | sub | tellParent | setEnd | exited =>
      simp only [RecyclePc.work]
      omega
  rw [work]
  omega

end

def Config.steps (c : Config) : ℕ :=
  (∑ i ∈ Finset.range c.tasksCnt, 16*(c.env i).runTimes)+20*c.tasksCnt+4

theorem work_init (c : Config) : init.work c = c.steps := by
  have hruns : init.runsLeft c =
      ((∑ i ∈ Finset.range c.tasksCnt, 16*(c.env i).runTimes : ℕ) : ℤ) := by
    rw [Nat.cast_sum]
    refine Finset.sum_congr rfl fun i _ => ?_
    simp [init]
  have hsteps : (c.steps : ℤ) =
      ((∑ i ∈ Finset.range c.tasksCnt, 16*(c.env i).runTimes : ℕ) : ℤ)+20*c.tasksCnt+4 := by
    simp [Config.steps]
  rw [work,hruns,hsteps]
  simp only [init,childWork,MainPc.work,RecyclePc.work,map_nil,sum_nil]
  push_cast
  omega

structure Running (c : Config) (s : State) : Prop where
  matched : Matched c s
  served : Served c s

theorem Running.step {c : Config} {s s' : State} {a : Action} (h : Running c s) (hg : Good c s a)
    (hs : step c s a = some s') : Running c s' := by
  have hm := h.matched.step hg hs
  exact ⟨hm,h.served.step h.matched hg hs⟩

/-- In every run whose forks succeed with pids that are not on record, and in which no test process
is reaped before its run is counted, there are boundedly many steps; and where it can go no further,
every task has ended and both threads have returned. -/
theorem good_runs_finish (c : Config) (as : List Action) (s : State)
    (hrun : runSteps (step c) init as = some s)
    (hgood : Guarded (step c) (Good c) init as) :
    as.length ≤ c.steps ∧ ((∀ a, Good c s a → step c s a = none) → Finished c s) := by
  have hinit : Running c init := ⟨matched_init c,served_init c⟩
  have hstep : ∀ s a s', Running c s → Good c s a → TestRunner.step c s a = some s' →
      Running c s' := fun s a s' h hg hs => h.step hg hs
  have hend := runSteps_guarded (Running c) hstep as init s hinit hgood hrun
  refine ⟨?_,fun hstuck => ?_⟩
  · have hle := runSteps_length_le (Running c) (work c) hstep
      (fun s a s' h hg hs => work_lt h.matched hg hs) as init s hinit hgood hrun
    have hpos := work_nonneg hend.matched.limits.pcs hend.matched.owned
    rw [work_init] at hle
    omega
  · obtain hfin | ⟨a,s',hg,hs⟩ := finished_or_enabled hend.matched hend.served
    · exact hfin
    · rw [hstuck a hg] at hs
      cases hs

def oneTask : Config where
  tasks := [⟨1,false,false,Nat.one_pos⟩]
  runCntUpTo := 1
  runCntUpTo_pos := Nat.one_pos

def oneRun : List Action :=
  startSteps 10 11 ++ [.main none,.main none,.exit 11,.exit 10,.recycle none 11,
    .recycle none 0,.recycle none 0,.recycle none 0,.recycle none 0,.main none]

theorem good_runs_finish_at_one :
    ∃ s, runSteps (step oneTask) init oneRun = some s ∧ oneRun.length ≤ oneTask.steps ∧
      Finished oneTask s := by
  have hgood : Guarded (step oneTask) (Good oneTask) init oneRun := by decide +kernel
  have hlast : (runSteps (step oneTask) init oneRun).map
      (fun s => (s.main, s.recycle, s.children)) =
        some (.done, .exited, [⟨10,0,0,false,true⟩]) := by decide +kernel
  obtain ⟨s,hs,hfacts⟩ := Option.map_eq_some_iff.mp hlast
  simp only [Prod.mk.injEq] at hfacts
  obtain ⟨hmain,hrecycle,hchildren⟩ := hfacts
  obtain ⟨hlen,hfin⟩ := good_runs_finish oneTask oneRun s hs hgood
  refine ⟨s,hs,hlen,hfin fun a _ => ?_⟩
  cases a with
  | main f => simp only [step,mainStep,hmain]
  | recycle f p => simp only [step,recycleStep,hrecycle]
  | exit p => simp [step,hchildren]

/-- The fork for the limit process of the only task fails: the task is marked ended without being
counted in `end_cnt`, so the recycle thread and `task_begin` wait for ever. -/
theorem never_ends_after_failed_fork : ∃ s, runSteps (step oneTask) init
        [.main none,.main none,.main none,.main none,.main none,.main none,.main none] = some s ∧
      (s.task 0).status = .taskEnd ∧ s.endCnt = 0 ∧
      (∀ a, step oneTask s a = none) ∧ ¬ Finished oneTask s := by
  have hlast : (runSteps (step oneTask) init
      [.main none,.main none,.main none,.main none,.main none,.main none,.main none]).map
      (fun s => ((s.task 0).status, s.endCnt, s.main, s.recycle, s.children)) =
        some (.taskEnd, 0, .join, .wait, []) := by decide +kernel
  obtain ⟨s,hs,hfacts⟩ := Option.map_eq_some_iff.mp hlast
  simp only [Prod.mk.injEq] at hfacts
  obtain ⟨hstatus,hend,hmain,hrecycle,hchildren⟩ := hfacts
  refine ⟨s,hs,hstatus,hend,fun a => ?_, fun h => ?_⟩
  · cases a with
    | main f => simp [step,mainStep,hmain,hrecycle]
    | recycle f p => simp [step,recycleStep,hrecycle,hend,hchildren,oneTask,Config.tasksCnt]
    | exit p => simp [step,hchildren]
  · have hout := h.recycle
    rw [hrecycle] at hout
    cases hout

end TinaPackage.TestRunner
