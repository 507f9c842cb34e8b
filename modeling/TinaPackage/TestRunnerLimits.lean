import TinaPackage.TestRunnerRecords

/-! The two limits of the scheduler. `running_cnt` is compared with the tasks that are counted:
running, not still being started by `task_begin`, and not past the decrement in `task_recycle_end`.
-/
namespace TinaPackage.TestRunner
open Finset State MainPc RecyclePc

instance (s : State) (i : ℕ) : Decidable (s.Counted i) :=
  decidable_of_iff ((s.task i).status = .taskRun ∧ s.main.starting ≠ some i ∧
    s.recycle.retiring ≠ some i) ⟨fun h => ⟨h.1,h.2.1,h.2.2⟩,fun h => ⟨h.1,h.2,h.3⟩⟩

variable (c : Config) (s : State)

def State.counted : Finset ℕ := (range c.tasksCnt).filter s.Counted

def State.Retired (i : ℕ) : Prop := (s.task i).status = .taskEnd ∨ s.recycle.retiring = some i

instance (s : State) (i : ℕ) : Decidable (s.Retired i) := inferInstanceAs (Decidable (_ ∨ _))

def State.retired : Finset ℕ := (range c.tasksCnt).filter s.Retired

/-- One while a task is counted by its program counter only. -/
def MainPc.adding : MainPc → ℕ
  | .add _ => 1
  | _ => 0

/-- One while `task_begin` has passed the test of the limit and not yet started
the task that took the place. -/
def MainPc.admitted : MainPc → ℕ
  | .aloneWait _ | .start _ | .taskDo _ _ | .skip _ => 1
  | _ => 0

structure Counts : Prop where
  count : s.runningCnt+s.main.adding = (s.counted c).card
  room : (s.counted c).card+s.main.admitted ≤ c.runCntUpTo
  ends : s.endCnt ≤ (s.retired c).card
  alone : ∀ i, (c.env i).runAlone = true → s.Counted i → (∀ j, s.Counted j → j = i) ∧
    (s.main = .add i ∨ s.main = .aloneEnd i ∨ s.main = .limitWait c.tasksCnt ∨
      s.main = .join ∨ s.main = .done)
  aloneStart : ∀ i, (c.env i).runAlone = true → s.main = .start i ∨ s.main.starting = some i →
    ∀ j, ¬ s.Counted j

variable {s s' : State} {c : Config} {i : ℕ} {f : Option ℤ}

theorem counted_congr (c : Config) (h : ∀ j, s'.Counted j ↔ s.Counted j) :
    s'.counted c = s.counted c :=
  filter_congr fun j _ => h j

theorem retired_congr (c : Config) (h : ∀ j, s'.Retired j ↔ s.Retired j) :
    s'.retired c = s.retired c :=
  filter_congr fun j _ => h j

theorem Pcs.lt_of_counted (h : Pcs c s) (hi : s.Counted i) : i < s.main.reached c := by
  by_contra hge
  have hwait := (h.waiting i (not_lt.mp hge)).1
  rw [hi.status] at hwait
  cases hwait

theorem Pcs.mem_counted (h : Pcs c s) : i ∈ s.counted c ↔ s.Counted i := by
  simp only [counted,mem_filter,mem_range,and_iff_right_iff_imp]
  exact fun hi => lt_of_lt_of_le (h.lt_of_counted hi) h.reached_le

theorem counted_init (c : Config) : init.counted c = ∅ :=
  filter_false_of_mem fun _ _ h => by cases h.1

theorem counts_init (c : Config) : Counts c init where
  count := by rw [counted_init]; rfl
  room := by rw [counted_init]; exact Nat.zero_le _
  ends := Nat.zero_le _
  alone := fun i _ h => by cases h.1
  aloneStart := nofun

theorem Counts.of_same (h : Counts c s) (hcounted : ∀ j, s'.Counted j ↔ s.Counted j)
    (hretired : ∀ j, s.Retired j → s'.Retired j) (hrun : s'.runningCnt = s.runningCnt)
    (hend : s'.endCnt = s.endCnt) (hadding : s'.main.adding = s.main.adding)
    (hroom : (s.counted c).card+s'.main.admitted ≤ c.runCntUpTo)
    (halone : ∀ i, (c.env i).runAlone = true → s.Counted i →
      s'.main = .add i ∨ s'.main = .aloneEnd i ∨ s'.main = .limitWait c.tasksCnt ∨
        s'.main = .join ∨ s'.main = .done)
    (hstart : ∀ i, (c.env i).runAlone = true → s'.main = .start i ∨ s'.main.starting = some i →
      ∀ j, ¬ s.Counted j) : Counts c s' where
  count := by
    rw [counted_congr c hcounted,hrun,hadding]
    exact h.count
  room := by
    rw [counted_congr c hcounted]
    exact hroom
  ends := by
    rw [hend]
    exact h.ends.trans (card_le_card (monotone_filter_right _ fun j _ => hretired j))
  alone := fun i hi hci => by
    have hci' := (hcounted i).mp hci
    exact ⟨fun j hj => (h.alone i hi hci').1 j ((hcounted j).mp hj),halone i hi hci'⟩
  aloneStart := fun i hi hm j hj => hstart i hi hm j ((hcounted j).mp hj)

variable {t : State} {pc : DoPc}

/-- A task is counted once `task_begin` has started it. -/
theorem counted_success (hc : Pcs c s) (hpc : s.main = .taskDo i pc)
    (hd : DoMoves c s i f pc t .success) (j : ℕ) :
    Counted { t with main := .add i } j ↔ s.Counted j ∨ j = i := by
  have hstart : s.main.starting = some i := by rw [hpc]; rfl
  have hnotr : s.recycle.retiring ≠ some i := fun hr => (hc.retiring i hr).2 hstart
  have hrun := (hc.starting i hstart).1
  obtain ⟨k1,k2,k3,k4,k5,k6,k7⟩ := hd.kept
  grind [Counted,starting]

theorem Counts.of_success (hc : Pcs c s) (h : Counts c s) (hpc : s.main = .taskDo i pc)
    (hd : DoMoves c s i f pc t .success) :
    Counts c { t with main := .add i } := by
  have hstart : s.main.starting = some i := by rw [hpc]; rfl
  obtain ⟨k1,k2,k3,k4,k5,k6,k7⟩ := hd.kept
  have hnot : ¬ s.Counted i := fun hi => hi.started hstart
  have hsc := counted_success hc hpc hd
  have hlt : i < c.tasksCnt := by
    have hle := hc.reached_le
    rw [hpc] at hle
    exact hle
  have hset : counted c { t with main := .add i } = insert i (s.counted c) := by
    ext j
    simp only [counted,mem_filter,mem_range,mem_insert,hsc]
    constructor
    · rintro ⟨hj,hs | rfl⟩
      · exact .inr ⟨hj,hs⟩
      · exact .inl rfl
    · rintro (rfl | ⟨hj,hs⟩)
      · exact ⟨hlt,.inr rfl⟩
      · exact ⟨hj,.inl hs⟩
  have hcard : (counted c { t with main := .add i }).card = (s.counted c).card+1 := by
    rw [hset,card_insert_of_notMem fun hmem => hnot (hc.mem_counted.mp hmem)]
  have hcount := h.count
  have hroom := h.room
  rw [hpc] at hcount hroom
  refine ⟨?_,?_,?_,?_,?_⟩
  · rw [hcard]
    show t.runningCnt+((1 : ℕ) : ℤ) = _
    simp only [adding] at hcount
    omega
  · rw [hcard]
    exact hroom
  · rw [k4,retired_congr c fun j => ?_]
    · exact h.ends
    · simp only [Retired,k2,k6]
  · intro j hj hcj
    have hnone : ∀ k, ¬ s.Counted k ∨ (c.env i).runAlone = false := by
      intro k
      by_cases hi : (c.env i).runAlone = true
      · exact .inl (h.aloneStart i hi (.inr hstart) k)
      · exact .inr (Bool.not_eq_true _ ▸ hi)
    obtain hs | rfl := (hsc j).mp hcj
    · -- a lone task is counted only where `task_begin` starts no other
      have hm := (h.alone j hj hs).2
      rw [hpc] at hm
      simp at hm
    · refine ⟨fun k hk => ?_, .inl rfl⟩
      obtain hs | rfl := (hsc k).mp hk
      · exact absurd hs ((hnone k).resolve_right (by rw [hj]; decide))
      · rfl
  · intro j _ hm
    simp [starting] at hm

theorem State.Counted.not_retired (h : s.Counted i) : ¬ s.Retired i := by
  rintro (hr | hr)
  · rw [h.status] at hr
    cases hr
  · exact h.kept hr

theorem counted_sub (hpc : s.recycle = .sub i) (j : ℕ) : Counted { s with
      endCnt := s.endCnt+1, runningCnt := s.runningCnt-1, recycle := .tellParent i } j ↔
      s.Counted j ∧ j ≠ i := by
  grind [Counted,retiring]

theorem card_retired_sub (hc : Pcs c s) (hpc : s.recycle = .sub i) : (retired c { s with
      endCnt := s.endCnt+1, runningCnt := s.runningCnt-1, recycle := .tellParent i }).card =
      (s.retired c).card+1 := by
  have hi := hc.working i (by rw [hpc]; rfl)
  have hlt : i < c.tasksCnt := (hc.lt_of_counted hi).trans_le hc.reached_le
  have hnot : i ∉ s.retired c := fun hr => hi.not_retired (mem_filter.mp hr).2
  rw [← card_insert_of_notMem hnot]
  congr 1
  ext j
  simp only [retired,mem_filter,mem_range,mem_insert]
  grind [Retired,retiring]

theorem Counts.of_sub (hc : Pcs c s) (h : Counts c s) (hpc : s.recycle = .sub i) : Counts c { s with
      endCnt := s.endCnt+1, runningCnt := s.runningCnt-1, recycle := .tellParent i } := by
  have hi := hc.working i (by rw [hpc]; rfl)
  have hmem := hc.mem_counted.mpr hi
  have hpos : 0 < (s.counted c).card := card_pos.mpr ⟨i,hmem⟩
  set s' : State := { s with
    endCnt := s.endCnt+1, runningCnt := s.runningCnt-1, recycle := .tellParent i } with hs'
  have hsc : ∀ j, s'.Counted j ↔ s.Counted j ∧ j ≠ i := counted_sub hpc
  have hset : s'.counted c = (s.counted c).erase i := by
    ext j
    simp only [counted,mem_filter,mem_erase,hsc]
    exact ⟨fun hj => ⟨hj.2.2,hj.1,hj.2.1⟩,fun hj => ⟨hj.2.1,hj.2.2,hj.1⟩⟩
  have hcard : (s'.counted c).card = (s.counted c).card-1 := by
    rw [hset,card_erase_of_mem hmem]
  have hcount := h.count
  have hroom := h.room
  refine ⟨?_,?_,?_,?_,?_⟩
  · show s.runningCnt-1+_ = _
    have hmain : s'.main.adding = s.main.adding := rfl
    omega
  · rw [hcard]
    show _+s.main.admitted ≤ _
    omega
  · rw [hs',card_retired_sub hc hpc]
    exact Nat.succ_le_succ h.ends
  · intro j hj hcj
    obtain ⟨h1,h2⟩ := h.alone j hj ((hsc j).mp hcj).1
    exact ⟨fun k hk => h1 k ((hsc k).mp hk).1,h2⟩
  · exact fun j hj hm k hk => h.aloneStart j hj hm k ((hsc k).mp hk).1

theorem Counts.last_of_alone (hc : Pcs c s) (h : Counts c s) (hpc : s.main = .aloneEnd i)
    (hi : s.Counted i) (hend : s.endCnt+1 = c.tasksCnt) : i+1 = c.tasksCnt := by
  have hle := hc.reached_le
  rw [hpc] at hle
  -- the retired tasks stand before `i`
  have hsub : s.retired c ⊆ range i := by
    intro j hj
    have hret := (mem_filter.mp hj).2
    have hne : j ≠ i := by
      rintro rfl
      exact hi.not_retired hret
    have hlt : j < i+1 := by
      by_contra hge
      have hwait := (hc.waiting j (by rw [hpc]; exact not_lt.mp hge)).1
      obtain hr | hr := hret
      · rw [hwait] at hr
        cases hr
      · rw [(hc.retiring j hr).1] at hwait
        cases hwait
    exact mem_range.mpr (lt_of_le_of_ne (Nat.lt_succ_iff.mp hlt) hne)
  have hcard := card_le_card hsub
  rw [card_range] at hcard
  have hends := h.ends
  simp only [reached] at hle
  omega

theorem counted_iff (hstatus : ∀ j, (s'.task j).status = (s.task j).status)
    (hstart : s'.main.starting = s.main.starting) (hret : s'.recycle.retiring = s.recycle.retiring)
    (j : ℕ) : s'.Counted j ↔ s.Counted j := by
  constructor
  · exact fun h => ⟨(hstatus j).symm.trans h.status,hstart ▸ h.started,hret ▸ h.kept⟩
  · exact fun h => ⟨(hstatus j).trans h.status,hstart ▸ h.started,hret ▸ h.kept⟩

theorem retired_iff (hstatus : ∀ j, (s'.task j).status = (s.task j).status)
    (hret : s'.recycle.retiring = s.recycle.retiring) (j : ℕ) : s'.Retired j ↔ s.Retired j := by
  unfold Retired
  rw [hstatus,hret]

/-- Steps of the main thread between two tests; `hno` says that a lone task is
counted only where the step may lead. -/
theorem Counts.of_main {m m' : MainPc} (h : Counts c s) {told : ℕ} (hpc : s.main = m)
    (hstart : m'.starting = m.starting) (hadding : m'.adding = m.adding)
    (hroom : m'.admitted = m.admitted ∨ (s.counted c).card+m'.admitted ≤ c.runCntUpTo)
    (hno : ∀ i, (c.env i).runAlone = true → s.Counted i →
      m' = .add i ∨ m' = .aloneEnd i ∨ m' = .limitWait c.tasksCnt ∨ m' = .join ∨ m' = .done)
    (hal : ∀ i, (c.env i).runAlone = true → m' = .start i ∨ m'.starting = some i →
      ∀ j, ¬ s.Counted j) : Counts c { s with main := m', told := told } := by
  subst hpc
  exact h.of_same (counted_iff (fun _ => rfl) hstart rfl) (fun _ => id) rfl rfl hadding
    (hroom.elim (fun he => he.symm ▸ h.room) id) hno hal

variable {m : MainPc}

theorem Counts.no_alone (h : Counts c s) (hpc : s.main = m)
    (hm : ∀ i, ¬(m = .add i ∨ m = .aloneEnd i ∨ m = .limitWait c.tasksCnt ∨ m = .join ∨ m = .done))
    {P : ℕ → Prop} (i : ℕ) (hi : (c.env i).runAlone = true) (hci : s.Counted i) : P i :=
  (hm i (hpc ▸ (h.alone i hi hci).2)).elim

theorem Counts.of_do {i : ℕ} {o : Outcome} (h : Counts c s) (hpc : s.main = .taskDo i pc)
    (hd : DoMoves c s i f pc t o) (hstart : m.starting = some i) (hadding : m.adding = 0)
    (hadmitted : m.admitted = 1) (hm : ∀ k, m ≠ .start k) :
    Counts c { t with main := m } := by
  have hroom := h.room
  rw [hpc] at hroom
  refine h.of_same (counted_iff hd.kept.status (by rw [hpc]; exact hstart)
      (by rw [← hd.kept.recycle]))
    (fun j => (retired_iff hd.kept.status (by rw [← hd.kept.recycle]) j).mpr) hd.kept.runningCnt
    hd.kept.endCnt (by rw [hpc]; exact hadding) (hadmitted ▸ hroom)
    (h.no_alone hpc fun _ => by simp) ?_
  rintro k hk (hm' | hm')
  · exact absurd hm' (hm k)
  · obtain rfl := Option.some.inj (hstart.symm.trans hm')
    exact h.aloneStart i hk (.inr (by rw [hpc]; rfl))

theorem Counts.pos_of_counted (hc : Pcs c s) (h : Counts c s) (hi : s.Counted i)
    (hadding : s.main.adding = 0) : 0 < s.runningCnt := by
  have hpos : 0 < (s.counted c).card := card_pos.mpr ⟨i,hc.mem_counted.mpr hi⟩
  have hcount := h.count
  omega

theorem Counts.start (hc : Pcs c s) (h : Counts c s) (hpc : s.main = .start i) :
    Counts c { s.setTask i { s.task i with status := .taskRun } with main := .taskDo i .lock } := by
  have hwait := (hc.waiting i (by rw [hpc]; exact le_rfl)).1
  have hroom := h.room
  rw [hpc] at hroom
  refine h.of_same (fun j => ?_) (fun j => ?_) rfl rfl (by rw [hpc]; rfl) hroom ?_ ?_
  · grind [Counted,starting]
  · grind [Retired]
  · exact h.no_alone hpc fun _ => by simp
  · rintro k hk (hm | hm)
    · cases hm
    · cases hm
      exact h.aloneStart i hk (.inl hpc)

theorem Counts.skip (h : Counts c s) (hpc : s.main = .skip i) :
    Counts c { s.setTask i { s.task i with status := .taskEnd } with
      main := .limitWait (i+1) } := by
  have hroom := h.room
  refine h.of_same (fun j => ?_) (fun j => ?_) rfl rfl (by rw [hpc]; rfl) ?_ ?_ nofun
  · grind [Counted,starting]
  · grind [Retired]
  · exact (Nat.le_add_right _ _).trans hroom
  · exact h.no_alone hpc fun _ => by simp

theorem Counts.add (h : Counts c s) (hpc : s.main = .add i) :
    Counts c { s with runningCnt := s.runningCnt+1, main := .aloneEnd i } := by
  have hsame := @counted_iff s { s with runningCnt := s.runningCnt+1, main := .aloneEnd i }
    (fun _ => rfl) (by rw [hpc]; rfl) rfl
  have hcount := h.count
  have hroom := h.room
  rw [hpc] at hcount hroom
  refine ⟨?_,?_,h.ends,fun k hk hck => ?_, nofun⟩
  · rw [counted_congr c hsame]
    simpa [adding] using hcount
  · rw [counted_congr c hsame]
    exact hroom
  · obtain ⟨honly,hm⟩ := h.alone k hk ((hsame k).mp hck)
    refine ⟨fun j hj => honly j ((hsame j).mp hj),?_⟩
    rw [hpc] at hm
    obtain hm | hm | hm | hm | hm := hm <;> cases hm
    exact .inr (.inl rfl)

theorem Counts.main_step (hc : Pcs c s) (h : Counts c s) (hm : Moves c s (.main f) s') :
    Counts c s' := by
  cases hm with
  | @listEnd _ i hpc hi =>
    exact h.of_main hpc rfl rfl (.inl rfl) (fun _ _ _ => .inr (.inr (.inr (.inl rfl)))) nofun
  | @full _ i hpc hi hr =>
    exact h.of_main hpc rfl rfl (.inl rfl) (h.no_alone hpc fun _ => by simp [hi.ne]) nofun
  | @room _ i hpc hi hr =>
    have hcount := h.count
    rw [hpc] at hcount
    refine h.of_main hpc rfl rfl (.inr ?_) (h.no_alone hpc fun _ => by simp [hi.ne]) nofun
    simp only [adding,admitted] at hcount ⊢
    omega
  | told hpc ht =>
    exact h.of_main hpc rfl rfl (.inl rfl) (h.no_alone hpc fun _ => by simp) nofun
  | @admitted _ i hpc ha =>
    refine h.of_main hpc rfl rfl (.inl rfl) (h.no_alone hpc fun _ => by simp) ?_
    rintro k hk (hm | hm) j hj
    · cases hm
      exact absurd (h.pos_of_counted hc hj (by rw [hpc]; rfl)) (not_lt.mpr (ha hk))
    · cases hm
  | start hpc => exact h.start hc hpc
  | mainSuccess hpc hd => exact h.of_success hc hpc hd
  | mainNext hpc hd | mainFailure hpc hd => exact h.of_do hpc hd rfl rfl rfl nofun
  | add hpc => exact h.add hpc
  | skip hpc => exact h.skip hpc
  | @aloneEnd _ i hpc ha =>
    refine h.of_main hpc rfl rfl (.inl rfl) (fun k hk hck => ?_) nofun
    have hm := (h.alone k hk hck).2
    rw [hpc] at hm
    obtain hm | hm | hm | hm | hm := hm <;> cases hm
    have hend := ha hk (h.pos_of_counted hc hck (by rw [hpc]; rfl))
    exact .inr (.inr (.inl (by rw [h.last_of_alone hc hpc hck hend])))
  | join hpc hr =>
    exact h.of_main hpc rfl rfl (.inl rfl) (fun _ _ _ => .inr (.inr (.inr (.inr rfl)))) nofun

theorem Counts.of_recycle (h : Counts c s) (hmain : s'.main = s.main)
    (hrun : s'.runningCnt = s.runningCnt) (hend : s'.endCnt = s.endCnt)
    (hstatus : ∀ j, (s'.task j).status = (s.task j).status)
    (hret : s'.recycle.retiring = s.recycle.retiring) : Counts c s' := by
  refine h.of_same (counted_iff hstatus (by rw [hmain]) hret)
    (fun j => (retired_iff hstatus hret j).mpr) hrun hend (by rw [hmain])
    (by rw [hmain]; exact h.room)
    (fun i hi hci => ?_) (fun i hi => ?_)
  · rw [hmain]
    exact (h.alone i hi hci).2
  · rw [hmain]
    exact h.aloneStart i hi

theorem Counts.recycle_step {p : ℤ} (hc : Pcs c s) (h : Counts c s)
    (hm : Moves c s (.recycle f p) s') : Counts c s' := by
  cases hm with
  | sub hpc => exact h.of_sub hc hpc
  | @reap _ ch hpc =>
    obtain ⟨-,hmain,hstatus⟩ := recyclePid_keeps c (s.reap ch.pid) ch.pid
    obtain ⟨-,heq⟩ | ⟨i,num,-,heq⟩ | ⟨i,num,-,heq⟩ :=
      recyclePid_cases c (s.reap ch.pid) ch.pid <;>
    refine h.of_recycle hmain (by rw [heq]; rfl) (by rw [heq]; rfl) hstatus ?_ <;> rw [heq,hpc]
    · exact congrArg retiring hpc
    · exact congrArg retiring hpc
    · split_ifs <;> rfl
  | recycleNext hpc hd | recycleSuccess hpc hd | recycleFailure hpc hd =>
    exact h.of_recycle hd.kept.main hd.kept.runningCnt hd.kept.endCnt hd.kept.status
      (by rw [hpc]; rfl)
  | leave hpc | tell hpc => exact h.of_recycle rfl rfl rfl (fun _ => rfl) (by rw [hpc]; rfl)
  | @setEnd _ _ i hpc =>
    refine h.of_same (fun j => ?_) (fun j => ?_) rfl rfl rfl h.room
      (fun k hk hck => (h.alone k hk hck).2) h.aloneStart
    · grind [Counted,retiring]
    · grind [Retired,retiring]

variable {a : Action}

theorem Counts.step (hc : Pcs c s) (h : Counts c s) (hm : Moves c s a s') : Counts c s' := by
  cases a with
  | main f => exact h.main_step hc hm
  | recycle f p => exact h.recycle_step hc hm
  | exit p =>
    cases hm with
    | exit hch hx =>
      exact h.of_recycle rfl rfl rfl (fun _ => rfl) rfl

def State.Busy (s : State) (i : ℕ) : Prop :=
  (s.task i).status = .taskRun ∧ ∃ ch ∈ s.children, ch.test = true ∧ ch.task = i

instance (s : State) (i : ℕ) : Decidable (s.Busy i) := inferInstanceAs (Decidable (_ ∧ _))

def State.busy (c : Config) (s : State) : Finset ℕ :=
  (range c.tasksCnt).filter s.Busy

structure Limits (c : Config) (s : State) : Prop where
  pcs : Pcs c s
  pids : Pids c s
  counts : Counts c s

theorem limits_init (c : Config) : Limits c init := ⟨pcs_init c,pids_init c,counts_init c⟩

section
variable (h : Limits c s)
include h

theorem Limits.moves (hm : Moves c s a s') : Limits c s' :=
  ⟨h.pcs.step hm,h.pids.step h.pcs hm,h.counts.step h.pcs hm⟩

theorem Limits.counted_of_busy (hi : s.Busy i) : s.Counted i ∨ s.main.starting = some i := by
  by_cases hstart : s.main.starting = some i
  · exact .inr hstart
  · refine .inl ⟨hi.1,hstart,fun hret => ?_⟩
    obtain ⟨ch,hch,htest,htask⟩ := hi.2
    refine h.pids.closed i ?_ ch hch htest htask
    cases hr : s.recycle <;> rw [hr] at hret <;> first | exact hret | cases hret

theorem Limits.card_busy_le : (s.busy c).card ≤ c.runCntUpTo := by
  refine le_trans ?_ h.counts.room
  cases hstart : s.main.starting with
  | none =>
    have hsub : s.busy c ⊆ s.counted c := by
      intro i hi
      obtain ⟨hlt,hbusy⟩ := mem_filter.mp hi
      refine mem_filter.mpr ⟨hlt,(h.counted_of_busy hbusy).resolve_right ?_⟩
      rw [hstart]
      exact nofun
    exact (card_le_card hsub).trans (Nat.le_add_right _ _)
  | some k =>
    have hsub : s.busy c ⊆ insert k (s.counted c) := by
      intro i hi
      obtain ⟨hlt,hbusy⟩ := mem_filter.mp hi
      obtain hcount | hk := h.counted_of_busy hbusy
      · exact mem_insert_of_mem (mem_filter.mpr ⟨hlt,hcount⟩)
      · rw [hstart] at hk
        exact mem_insert.mpr (.inl (Option.some.inj hk).symm)
    have hone : s.main.admitted = 1 := by
      cases hm : s.main <;> rw [hm] at hstart <;> first | rfl | cases hstart
    rw [hone]
    exact (card_le_card hsub).trans (card_insert_le _ _)

theorem Limits.alone {j : ℕ} (hi : s.Busy i) (halone : (c.env i).runAlone = true) (hj : s.Busy j) :
    j = i := by
  obtain hci | hsi := h.counted_of_busy hi
  · obtain ⟨honly,hmain⟩ := h.counts.alone i halone hci
    obtain hcj | hsj := h.counted_of_busy hj
    · exact honly j hcj
    · obtain hm | hm | hm | hm | hm := hmain <;>
      · rw [hm] at hsj
        cases hsj
  · obtain hcj | hsj := h.counted_of_busy hj
    · exact absurd hcj (h.counts.aloneStart i halone (.inr hsi) j)
    · rw [hsi] at hsj
      exact (Option.some.inj hsj).symm

end

/-- The steps of `task_begin` that start a task, from the limit to the counter. -/
def startSteps (limitPid testPid : ℤ) : List Action :=
  [.main none,.main none,.main none,.main none,.main (some limitPid),.main none,
    .main (some testPid),.main none,.main none,.main none]

end TinaPackage.TestRunner
