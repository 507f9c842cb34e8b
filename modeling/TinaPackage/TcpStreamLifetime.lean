import TinaPackage.Collections
import TinaPackage.TcpStreamModel

/-! The stream object is freed once and not touched afterwards, if the stream is closed while at
most one Read or Write is under way and the state word shows it. A second call resets the state word
under the first one's feet, and Connect reads the object after its last unlock. -/
namespace TinaPackage.Tcp
open Finset Function ClosePc State

def CallPc.refs (k : Kind) : CallPc → ℤ
  | .mark => if k = .connect then 0 else 1
  | .leave | .work | .report | .reported | .finish | .setIdle | .dec => 1
  | .ready | .enter | .refuse | .take | .test | .free | .unlock | .readIo | .done => 0

/-- The references that the closing thread drops, the first one included. -/
def ClosePc.refs : ClosePc → ℤ
  | .start => 1
  | .stopLock | .stopInc => 2
  | .stopFlag | .stopUnlock | .wait | .lock | .unlock => 3
  | .dec left => left+1
  | .test left | .free left => left
  | .done => 0

def CallPc.holds : CallPc → Bool
  | .enter | .refuse | .take | .mark | .leave | .reported | .setIdle | .dec | .test | .free
  | .unlock => true
  | _ => false

def ClosePc.holds : ClosePc → Bool
  | .stopInc | .stopFlag | .stopUnlock | .unlock => true
  | _ => false

def CallPc.live : CallPc → Bool
  | .ready | .done => false
  | _ => true

def CallPc.announced (k : Kind) : CallPc → Bool
  | .take => k = .connect
  | .leave | .work | .report | .reported | .finish | .setIdle => true
  | _ => false

/-- The condition under which the stream may be closed: one call at most is under
way, it is no Connect, and while it works the state word shows it. -/
def Calm (n : ℕ) (kind : ℕ → Kind) (s : State) : Prop :=
  (∀ i < n, ∀ j < n, (s.calls i).live = true → (s.calls j).live = true → i = j) ∧
  ∀ i < n, (s.calls i).live = true → kind i ≠ .connect ∧
    (s.calls i = .leave ∨ s.calls i = .work ∨ s.calls i = .finish → s.obj.word ≠ .idle)

instance (n : ℕ) (kind : ℕ → Kind) (s : State) : Decidable (Calm n kind s) :=
  inferInstanceAs (Decidable (_ ∧ _))

/-- What a call that is under way may be doing while the stream is closed. Once the closing thread
has had the lock, the call is outside its entry; once it has seen the state word idle, the call is
on its way out and holds the lock; once it has had the lock again, there is no such call. -/
def Allowed (w : Word) (k : Kind) (pc : CallPc) : ClosePc → Prop
  | .start => True
  | .stopLock => k ≠ .connect ∧
      ((pc = .leave ∨ pc = .work ∨ pc = .finish) ∧ w ≠ .idle ∨
        pc = .mark ∨ pc = .setIdle ∨ pc = .dec ∨ pc = .test ∨ pc = .unlock)
  | .stopInc | .stopFlag | .stopUnlock | .wait => k ≠ .connect ∧
      ((pc = .work ∨ pc = .finish ∨ pc = .setIdle) ∧ w ≠ .idle ∨
        pc = .dec ∨ pc = .test ∨ pc = .unlock)
  | .lock => k ≠ .connect ∧ (pc = .dec ∨ pc = .test ∨ pc = .unlock)
  | .unlock | .dec _ | .test _ | .free _ | .done => False

section

variable {k : Kind} {i : ℕ} {o o' : Obj} {pc pc' : CallPc}

section
variable (h : CallMoves k i o pc o' pc')
include h

theorem CallMoves.ref : o'.ref-pc'.refs k = o.ref-pc.refs k := by
  cases h <;> simp [CallPc.refs, *]

theorem CallMoves.frees (hpc : pc ≠ .free) : o'.frees = o.frees ∧ o'.wild = o.wild := by
  cases h <;> first | exact ⟨rfl,rfl⟩ | exact absurd rfl hpc

theorem CallMoves.holder :
    pc.holds = false ∧ pc'.holds = true ∧ o.holder = none ∧ o'.holder = some (.call i) ∨
    pc.holds = true ∧ pc'.holds = false ∧ o'.holder = none ∨
    pc'.holds = pc.holds ∧ o'.holder = o.holder := by
  cases h <;> simp [CallPc.holds, *]

theorem CallMoves.allowed {cp : ClosePc} (hok : Allowed o.word k pc cp) (hlive : pc.live = true)
    (href : pc = .test → o.ref ≠ 0) :
    pc'.live = false ∨ Allowed o'.word k pc' cp := by
  cases h <;> cases cp <;> cases k <;> simp_all [Allowed,CallPc.live,Kind.word]

theorem CallMoves.path (hk : k ≠ .connect) (hpc : pc ≠ .report ∧ pc ≠ .reported ∧ pc ≠ .readIo) :
    pc' ≠ .report ∧ pc' ≠ .reported ∧ pc' ≠ .readIo := by
  cases h <;> simp_all

theorem CallMoves.announced :
    o'.word = .idle ∨ pc'.announced k = true ∨ o'.word = o.word ∧ pc.announced k = false := by
  cases h <;> simp_all [CallPc.announced]

theorem CallMoves.ne_free (href : o.ref ≠ 0) : pc' ≠ .free := by
  cases h <;> simp_all

end

@[simp]
theorem next_refs (left : ℕ) : (next left).refs = left := by
  cases left with
  | zero => rfl
  | succ left => simp [next,refs]

@[simp]
theorem next_holds (left : ℕ) : (next left).holds = false := by
  cases left <;> rfl

variable {cp cp' : ClosePc}

section
variable (h : CloseMoves o cp o' cp')
include h

theorem CloseMoves.ref : o'.ref-cp'.refs = o.ref-cp.refs := by
  cases h with
  | testMore | free =>
    rw [next_refs]
    rfl
  | stopLock | stopFlag | stopUnlock | waitMore | waitIdle | lock | testLast => rfl
  | start | stopInc | unlock | dec =>
    simp only [refs]
    omega

theorem CloseMoves.holder :
    cp.holds = false ∧ cp'.holds = true ∧ o.holder = none ∧ o'.holder = some .close ∨
    cp.holds = true ∧ cp'.holds = false ∧ o'.holder = none ∨
    cp'.holds = cp.holds ∧ o'.holder = o.holder := by
  cases h with
  | testMore | free => exact .inr (.inr ⟨next_holds _,rfl⟩)
  | start | stopLock | stopInc | stopFlag | stopUnlock | waitMore | waitIdle | lock | unlock | dec
  | testLast =>
    simp [holds, *]

theorem CloseMoves.word : o'.word = o.word := by
  cases h <;> rfl

theorem CloseMoves.frees (hwild : o.wild = false)
    (hzero : o.frees = 0) (hdone : cp ≠ .done) (hlast : ∀ left, cp = .test left → o.ref = left)
    (hfree : ∀ left, cp = .free left → left = 0) :
    o'.wild = false ∧ (o'.frees = if cp' = .done then 1 else 0) ∧
      ∀ left, cp' = .free left → left = 0 := by
  cases h with
  | @testMore left hne =>
    have hleft := hlast left rfl
    cases left with
    | zero => exact absurd hleft hne
    | succ left => exact ⟨hwild,hzero,nofun⟩
  | @testLast left hz =>
    have hleft := hlast left rfl
    refine ⟨hwild,hzero,fun left' he => ?_⟩
    cases he
    omega
  | @free left =>
    obtain rfl := hfree left rfl
    refine ⟨hwild,?_,nofun⟩
    rw [hzero]
    rfl
  | start | stopLock | stopInc | stopFlag | stopUnlock | waitMore | waitIdle | lock | unlock
  | dec =>
    exact ⟨hwild,hzero,nofun⟩

/-- The closing thread goes on only as far as a call under way allows: past a
lock that the call does not hold, and past its wait loop once the call has set
the state word idle. -/
theorem CloseMoves.allowed (hstart : cp ≠ .start) (hok : Allowed o.word k pc cp)
    (hfree : o.holder = none → pc.holds = false) : Allowed o'.word k pc cp' := by
  cases h with
  | start => exact absurd rfl hstart
  | stopLock hn =>
    obtain ⟨hk,⟨hpc | hpc | hpc,hw⟩ | hpc⟩ := hok
    · rw [hpc] at hfree
      exact absurd (hfree hn) nofun
    · exact ⟨hk,.inl ⟨.inl hpc,hw⟩⟩
    · exact ⟨hk,.inl ⟨.inr (.inl hpc),hw⟩⟩
    · obtain rfl | rfl | rfl | rfl | rfl := hpc <;> exact absurd (hfree hn) nofun
  | stopInc | stopFlag | stopUnlock | waitMore => exact hok
  | waitIdle hidle =>
    obtain ⟨hk,⟨-,hw⟩ | hpc⟩ := hok
    · exact absurd hidle hw
    · exact ⟨hk,hpc⟩
  | lock hn =>
    obtain ⟨-,hpc⟩ := hok
    obtain rfl | rfl | rfl := hpc <;> exact absurd (hfree hn) nofun
  | unlock | dec | testMore | testLast | free => exact hok.elim

end

end

variable (n : ℕ) (kind : ℕ → Kind) (s : State)

def State.callRefs : ℤ := ∑ i ∈ range n, (s.calls i).refs (kind i)

structure Inv : Prop where
  ref : s.obj.ref = s.close.refs+s.callRefs n kind
  callHolder : ∀ i, s.obj.holder = some (.call i) ↔ (s.calls i).holds = true
  closeHolder : s.obj.holder = some .close ↔ s.close.holds = true
  outside : ∀ i, n ≤ i → s.calls i = .ready
  path : ∀ i, kind i ≠ .connect → s.calls i ≠ .report ∧ s.calls i ≠ .reported ∧ s.calls i ≠ .readIo
  noFree : ∀ i, s.calls i ≠ .free
  wild : s.obj.wild = false
  frees : s.obj.frees = if s.close = .done then 1 else 0
  lastFree : ∀ left, s.close = .free left → left = 0
  one : s.close ≠ .start → ∀ i j, (s.calls i).live = true → (s.calls j).live = true → i = j
  allowed : ∀ i, (s.calls i).live = true → Allowed s.obj.word (kind i) (s.calls i) s.close
  announced : s.obj.word ≠ .idle → ∃ i, (s.calls i).announced (kind i) = true

theorem inv_init : Inv n kind init where
  ref := by
    have hzero : init.callRefs n kind = 0 := sum_eq_zero fun i _ => rfl
    rw [hzero]
    rfl
  callHolder := fun _ => ⟨nofun, nofun⟩
  closeHolder := ⟨nofun, nofun⟩
  outside := fun _ _ => rfl
  path := fun _ _ => ⟨nofun, nofun, nofun⟩
  noFree := nofun
  wild := rfl
  frees := rfl
  lastFree := nofun
  one := fun h => absurd rfl h
  allowed := nofun
  announced := fun h => absurd rfl h

section

variable {n : ℕ} {kind : ℕ → Kind} {s : State}

theorem CallPc.refs_nonneg (k : Kind) (pc : CallPc) : 0 ≤ pc.refs k := by
  cases pc <;> simp only [CallPc.refs] <;> first | decide | (split <;> decide)

theorem CallPc.refs_of_not_live {k : Kind} {pc : CallPc} (h : pc.live = false) : pc.refs k = 0 := by
  cases pc <;> first | rfl | cases h

theorem callRefs_nonneg (n : ℕ) (kind : ℕ → Kind) (s : State) : 0 ≤ s.callRefs n kind :=
  sum_nonneg fun i _ => (s.calls i).refs_nonneg (kind i)

theorem callRefs_update {i : ℕ} (hi : i < n) (pc : CallPc) (o : Obj) :
    callRefs n kind { s with obj := o, calls := update s.calls i pc } =
      s.callRefs n kind-(s.calls i).refs (kind i)+pc.refs (kind i) := by
  have hsum := sum_add_of_eq (mem_range.mpr hi) (f := fun j => (s.calls j).refs (kind j))
    (g := fun j => (update s.calls i pc j).refs (kind j)) fun j hj => by rw [update_of_ne hj]
  rw [update_self] at hsum
  unfold callRefs
  linarith

theorem Inv.ref_pos (h : Inv n kind s) (hpos : 0 < s.close.refs) : s.obj.ref ≠ 0 := by
  have hle := callRefs_nonneg n kind s
  rw [h.ref]
  omega

theorem Inv.touch (h : Inv n kind s) (hdone : s.close ≠ .done) : s.obj.touch = s.obj := by
  have hfrees := h.frees
  rw [if_neg hdone] at hfrees
  have hwild : (s.obj.wild || decide (0 < s.obj.frees)) = s.obj.wild := by simp [hfrees]
  rw [Obj.touch,hwild]

theorem Inv.close_open (h : Inv n kind s) {i : ℕ} (hi : (s.calls i).live = true) :
    0 < s.close.refs ∧ s.close ≠ .done := by
  have hok := h.allowed i hi
  cases hc : s.close <;> rw [hc] at hok <;> simp_all [Allowed,refs]

/-- The condition on each step of a run: the calls begin before the stream is
closed, and it is closed in a calm state. -/
def Good (n : ℕ) (kind : ℕ → Kind) (s : State) (a : Action) : Prop :=
  Usage n kind s a ∧ (a = .close → s.close = .start → Calm n kind s)

section
variable (h : Inv n kind s)
include h

variable {o' : Obj}

theorem Inv.call_step {i : ℕ} {pc' : CallPc} (hi : i < n)
    (hready : s.calls i = .ready → s.close = .start)
    (hs : callStep (kind i) i s.obj.touch (s.calls i) = some (o', pc')) :
    Inv n kind { s with obj := o', calls := update s.calls i pc' } := by
  have hlive : (s.calls i).live = true ∨ s.calls i = .ready := by
    cases hpc : s.calls i <;> rw [hpc] at hs <;> first | exact .inl rfl | exact .inr rfl | cases hs
  have hopen : 0 < s.close.refs ∧ s.close ≠ .done := by
    obtain hl | hr := hlive
    · exact h.close_open hl
    · rw [hready hr]
      exact ⟨by decide,nofun⟩
  rw [h.touch hopen.2] at hs
  have hm := callMoves_of_callStep hs
  have href := h.ref_pos hopen.1
  obtain ⟨hfrees,hwild⟩ := hm.frees (h.noFree i)
  -- in a stream that is being closed call `i` is the only one under way
  have honly : s.close ≠ .start → ∀ j, (s.calls j).live = true → j = i := by
    intro hns j hj
    exact h.one hns j i hj (hlive.resolve_right fun hr => hns (hready hr))
  refine ⟨?_,fun j => ?_, ?_,fun j hj => ?_, fun j hj => ?_, fun j => ?_, ?_,?_,h.lastFree,?_,?_,?_⟩
  · rw [callRefs_update hi]
    have hr := hm.ref
    have hold := h.ref
    show o'.ref = s.close.refs+_
    omega
  · have hold := h.callHolder
    have hnew := hm.holder
    by_cases hj : j = i
    · subst hj
      grind
    · grind
  · have hold := h.callHolder i
    have hclose := h.closeHolder
    have hnew := hm.holder
    grind
  · have hne : j ≠ i := by omega
    show update s.calls i pc' j = _
    rw [update_of_ne hne]
    exact h.outside j hj
  · by_cases hji : j = i
    · subst hji
      simp only [update_self]
      exact hm.path hj (h.path j hj)
    · simp only [update_of_ne hji]
      exact h.path j hj
  · by_cases hji : j = i
    · subst hji
      simp only [update_self]
      exact hm.ne_free href
    · simp only [update_of_ne hji]
      exact h.noFree j
  · exact hwild.trans h.wild
  · exact hfrees.trans h.frees
  · intro hns j j' hj hj'
    have hback : ∀ m, (update s.calls i pc' m).live = true → m = i := by
      intro m hmlive
      by_contra hmi
      rw [update_of_ne hmi] at hmlive
      exact hmi (honly hns m hmlive)
    rw [hback j hj,hback j' hj']
  · intro j hj
    by_cases hji : j = i
    · subst hji
      simp only [update_self] at hj ⊢
      obtain hl | hr := hlive
      · exact (hm.allowed (h.allowed j hl) hl fun _ => href).resolve_left fun hdead => by
          rw [hj] at hdead
          cases hdead
      · rw [hready hr]
        trivial
    · simp only [update_of_ne hji] at hj ⊢
      by_cases hns : s.close = .start
      · rw [hns]
        trivial
      · exact absurd (honly hns j hj) hji
  · intro hword
    obtain hidle | hnew | ⟨hsame,hold⟩ := hm.announced
    · exact absurd hidle hword
    · exact ⟨i,by simpa only [update_self] using hnew⟩
    · obtain ⟨j,hj⟩ := h.announced (hsame ▸ hword)
      have hji : j ≠ i := by
        rintro rfl
        rw [hold] at hj
        cases hj
      exact ⟨j,by simpa only [update_of_ne hji] using hj⟩

theorem Calm.allowed (hcalm : Calm n kind s) (hbegun : ∀ i < n, (s.calls i).begun (kind i) = true)
    {i : ℕ} (hi : (s.calls i).live = true) :
    Allowed s.obj.word (kind i) (s.calls i) .stopLock := by
  have hlt : i < n := by
    by_contra hge
    rw [h.outside i (not_lt.mp hge)] at hi
    cases hi
  obtain ⟨hk,hw⟩ := hcalm.2 i hlt hi
  obtain ⟨hp1,hp2,hp3⟩ := h.path i hk
  have hfree := h.noFree i
  have hb := hbegun i hlt
  refine ⟨hk,?_⟩
  cases hpc : s.calls i <;> rw [hpc] at hi hw hp1 hp2 hp3 hfree hb <;>
    simp_all [CallPc.live,CallPc.begun]

theorem Inv.ref_last {left : ℕ} (hpc : s.close = .test left) : s.obj.ref = left := by
  have hzero : s.callRefs n kind = 0 := by
    refine sum_eq_zero fun i _ => CallPc.refs_of_not_live ?_
    by_contra hlive
    have hok := h.allowed i (Bool.not_eq_false _ ▸ hlive)
    rw [hpc] at hok
    exact hok
  rw [h.ref,hzero,hpc]
  simp [refs]

theorem Inv.close_step {cp' : ClosePc}
    (hbegun : s.close = .start → ∀ i < n, (s.calls i).begun (kind i) = true)
    (hcalm : s.close = .start → Calm n kind s)
    (hs : closeStep s.obj.touch s.close = some (o', cp')) :
    Inv n kind { s with obj := o', close := cp' } := by
  have hdone : s.close ≠ .done := fun hd => by rw [hd] at hs; cases hs
  rw [h.touch hdone] at hs
  have hm := closeMoves_of_closeStep hs
  have hzero := h.frees
  rw [if_neg hdone] at hzero
  have hfrees := hm.frees h.wild hzero hdone (fun left hpc => h.ref_last hpc) h.lastFree
  refine ⟨?_,fun i => ?_, ?_,h.outside,h.path,h.noFree,hfrees.1,hfrees.2.1,hfrees.2.2,?_,?_,?_⟩
  · have hr := hm.ref
    have hold := h.ref
    show o'.ref = cp'.refs+s.callRefs n kind
    omega
  · have hold := h.callHolder i
    have hclose := h.closeHolder
    have hnew := hm.holder
    grind
  · have hclose := h.closeHolder
    have hnew := hm.holder
    grind
  · intro _ i j hi hj
    by_cases hst : s.close = .start
    · have hlt : ∀ m, (s.calls m).live = true → m < n := by
        intro m hml
        by_contra hge
        rw [h.outside m (not_lt.mp hge)] at hml
        cases hml
      exact (hcalm hst).1 i (hlt i hi) j (hlt j hj) hi hj
    · exact h.one hst i j hi hj
  · intro i hi
    by_cases hst : s.close = .start
    · rw [hst] at hm
      cases hm
      exact (hcalm hst).allowed h (hbegun hst) hi
    · refine hm.allowed hst (h.allowed i hi) fun hnone => ?_
      by_contra hheld
      have hsome := (h.callHolder i).mpr (Bool.not_eq_false _ ▸ hheld)
      rw [hnone] at hsome
      cases hsome
  · intro hword
    exact h.announced (hm.word ▸ hword)

theorem Inv.step {s' : State} {a : Action} (hg : Good n kind s a) (hs : step kind s a = some s') :
    Inv n kind s' := by
  obtain ⟨husage,hcalm⟩ := hg
  cases a with
  | call i =>
    obtain ⟨⟨o',pc'⟩,hr,rfl⟩ := Option.map_eq_some_iff.mp hs
    exact h.call_step husage.1 husage.2 hr
  | touch i =>
    simp only [Tcp.step] at hs
    split at hs
    · next hw =>
      cases hs
      rw [h.touch (h.close_open (by rw [hw]; rfl)).2]
      exact h
    · cases hs
  | close =>
    obtain ⟨⟨o',cp'⟩,hr,rfl⟩ := Option.map_eq_some_iff.mp hs
    exact h.close_step husage (hcalm rfl) hr

end

end

section

variable {n : ℕ} {kind : ℕ → Kind} {s : State}

section
variable (h : Inv n kind s) {i : ℕ} (hi : (s.calls i).live = true)
include h hi

theorem Inv.lt_of_live : i < n := by
  by_contra hge
  rw [h.outside i (not_lt.mp hge)] at hi
  cases hi

theorem call_goes_on (hlock : (s.calls i).holds = true ∨ s.obj.holder = none) :
    ∃ s', step kind s (.call i) = some s' ∧ s'.calls i ≠ s.calls i := by
  rw [Tcp.step,h.touch (h.close_open hi).2]
  have hholder : (s.calls i).holds = false → s.obj.holder = none := fun hn =>
    hlock.resolve_left fun hh => by rw [hn] at hh; cases hh
  suffices hmove : ∃ o' pc', callStep (kind i) i s.obj (s.calls i) = some (o', pc') ∧
      pc' ≠ s.calls i by
    obtain ⟨o',pc',hs,hne⟩ := hmove
    refine ⟨_,by rw [hs]; rfl,?_⟩
    simpa only [update_self] using hne
  cases hpc : s.calls i with
  | ready | done =>
    rw [hpc] at hi
    cases hi
  | report =>
    rw [hpc] at hholder
    refine ⟨{ s.obj with holder := some (.call i) },.reported,?_,by simp⟩
    rw [callStep,Obj.acquire,if_pos (hholder rfl)]
    rfl
  | finish =>
    rw [hpc] at hholder
    refine ⟨{ s.obj with holder := some (.call i) },.setIdle,?_,by simp⟩
    rw [callStep,Obj.acquire,if_pos (hholder rfl)]
    rfl
  | refuse | leave | reported | setIdle | dec | free | readIo => exact ⟨_,_,rfl,by simp⟩
  | enter =>
    refine ⟨_,_,rfl,?_⟩
    split
    · simp
    · split <;> simp
  | take | mark | work | test | unlock =>
    refine ⟨_,_,rfl,?_⟩
    split <;> simp

end

theorem close_goes_on (h : Inv n kind s) (hdone : s.close ≠ .done)
    (hlock : s.close.holds = true ∨ s.obj.holder = none)
    (hword : s.close = .wait → s.obj.word = .idle) :
    ∃ s', step kind s .close = some s' ∧ s'.close ≠ s.close := by
  rw [Tcp.step,h.touch hdone]
  suffices hmove : ∃ o' cp', closeStep s.obj s.close = some (o', cp') ∧ cp' ≠ s.close by
    obtain ⟨o',cp',hs,hne⟩ := hmove
    exact ⟨_,by rw [hs]; rfl,hne⟩
  cases hpc : s.close with
  | done => exact absurd hpc hdone
  | stopLock =>
    rw [hpc] at hlock
    refine ⟨{ s.obj with holder := some .close },.stopInc,?_,by simp⟩
    rw [closeStep,Obj.acquire,if_pos (hlock.resolve_left Bool.false_ne_true)]
    rfl
  | lock =>
    rw [hpc] at hlock
    refine ⟨{ s.obj with holder := some .close },.unlock,?_,by simp⟩
    rw [closeStep,Obj.acquire,if_pos (hlock.resolve_left Bool.false_ne_true)]
    rfl
  | start | stopInc | stopFlag | stopUnlock | unlock | dec => exact ⟨_,_,rfl,by simp⟩
  | wait =>
    refine ⟨_,_,rfl,?_⟩
    simp [hword hpc]
  | test left =>
    refine ⟨_,_,rfl,?_⟩
    split
    · cases left <;> simp [next]
    · simp
  | free left =>
    refine ⟨_,_,rfl,?_⟩
    cases left <;> simp [next]

/-- While the stream is being closed, a call or the closing thread can leave its
place: nobody waits for a lock that is not given back, or for a state word that
nobody sets idle. -/
theorem Inv.goes_on (h : Inv n kind s) (hstart : s.close ≠ .start) (hdone : s.close ≠ .done) :
    ∃ a s', Good n kind s a ∧ Tcp.step kind s a = some s' ∧ s' ≠ s := by
  have hcall : ∀ i, (s.calls i).live = true → (s.calls i).holds = true ∨ s.obj.holder = none →
      ∃ a s', Good n kind s a ∧ Tcp.step kind s a = some s' ∧ s' ≠ s := by
    intro i hi hlock
    obtain ⟨s',hs,hne⟩ := call_goes_on h hi hlock
    refine ⟨.call i,s',⟨⟨h.lt_of_live hi,fun hr => ?_⟩, nofun⟩, hs,fun he => hne (by rw [he])⟩
    rw [hr] at hi
    cases hi
  have hclose : s.close.holds = true ∨ s.obj.holder = none →
      (s.close = .wait → s.obj.word = .idle) →
      ∃ a s', Good n kind s a ∧ Tcp.step kind s a = some s' ∧ s' ≠ s := by
    intro hlock hword
    obtain ⟨s',hs,hne⟩ := close_goes_on h hdone hlock hword
    exact ⟨.close,s',⟨fun hs => absurd hs hstart, fun _ hs => absurd hs hstart⟩, hs,
      fun he => hne (by rw [he])⟩
  cases hholder : s.obj.holder with
  | some t =>
    cases t with
    | call i =>
      have hheld := (h.callHolder i).mp hholder
      refine hcall i ?_ (.inl hheld)
      cases hpc : s.calls i <;> rw [hpc] at hheld <;> first | rfl | cases hheld
    | close =>
      have hheld := h.closeHolder.mp hholder
      refine hclose (.inl hheld) fun hw => ?_
      rw [hw] at hheld
      cases hheld
  | none =>
    by_cases hany : ∃ i, (s.calls i).live = true
    · obtain ⟨i,hi⟩ := hany
      exact hcall i hi (.inr hholder)
    · refine hclose (.inr hholder) fun _ => ?_
      by_contra hword
      obtain ⟨i,hi⟩ := h.announced hword
      refine hany ⟨i,?_⟩
      cases hpc : s.calls i <;> rw [hpc] at hi <;> first | rfl | cases hi

end

instance (n : ℕ) (kind : ℕ → Kind) (s : State) : ∀ a, Decidable (Usage n kind s a)
  | .call _ => inferInstanceAs (Decidable (_ ∧ (_ → _)))
  | .touch _ => .isTrue trivial
  | .close => inferInstanceAs (Decidable (_ → ∀ i < n, _ = _))

instance (n : ℕ) (kind : ℕ → Kind) (s : State) (a : Action) : Decidable (Good n kind s a) :=
  inferInstanceAs (Decidable (_ ∧ _))

/-- In every interleaving of the calls with a Close that begins in a calm state, no step touches the
freed object, it is freed once, by the last step of Close at the latest, and until then some thread
can leave its place. -/
theorem stream_freed_once (n : ℕ) (kind : ℕ → Kind) (as : List Action) (s : State)
    (hrun : runSteps (step kind) init as = some s)
    (hgood : Guarded (step kind) (Good n kind) init as) :
    s.obj.wild = false ∧ (s.obj.frees = if s.close = .done then 1 else 0) ∧
      (s.close ≠ .start → s.close ≠ .done →
        ∃ a s', Good n kind s a ∧ step kind s a = some s' ∧ s' ≠ s) := by
  have h := runSteps_guarded (Inv n kind) (fun _ _ _ hi hg hs => hi.step hg hs) as init s
    (inv_init n kind) hgood hrun
  exact ⟨h.wild,h.frees,h.goes_on⟩

def beginSteps (i : ℕ) : List Action := [.call i,.call i,.call i,.call i,.call i]

/-- The steps of one Read or Write from its work to its last unlock, if it does
not drop the last reference. -/
def endSteps (i : ℕ) : List Action :=
  [.call i,.call i,.call i,.call i,.call i,.call i]

def stopSteps : List Action := [.close,.close,.close,.close,.close]

def dropSteps : List Action :=
  [.close,.close,.close,.close,.close,.close,.close,.close,.close]

def readThenClose : List Action :=
  beginSteps 0 ++ [.touch 0] ++ stopSteps ++ [.close] ++ endSteps 0 ++ dropSteps ++ [.close]

theorem stream_freed_once_under_read :
    ∃ s, runSteps (step fun _ => .read) init readThenClose = some s ∧ s.close = .done ∧
      s.obj.wild = false ∧ s.obj.frees = 1 := by
  have hgood : Guarded (step fun _ => .read) (Good 1 fun _ => .read) init readThenClose := by
    decide +kernel
  have hlast : (runSteps (step fun _ => .read) init readThenClose).map (·.close) =
      some .done := by decide +kernel
  obtain ⟨s,hs,hdone⟩ := Option.map_eq_some_iff.mp hlast
  obtain ⟨hwild,hfrees,-⟩ := stream_freed_once 1 (fun _ => .read) readThenClose s hs hgood
  rw [if_pos hdone] at hfrees
  exact ⟨s,hs,hdone,hwild,hfrees⟩

/-- A Read and a Write are under way. The Write ends and sets the state word idle, so Close drops
its references; the Read then drops the last one, frees the object with the mutex it holds, and
unlocks it. -/
def readWriteClose : List Action :=
  beginSteps 0 ++ beginSteps 1 ++ endSteps 1 ++ stopSteps ++ dropSteps ++ endSteps 0 ++ [.call 0]

theorem read_unlocks_freed_stream : Guarded (step fun i => if i = 0 then .read else .write)
        (Usage 2 fun i => if i = 0 then .read else .write) init readWriteClose ∧
      (runSteps (step fun i => if i = 0 then .read else .write) init readWriteClose).map
        (fun s => (s.close, s.obj.frees, s.obj.wild)) = some (.done, 1, true) := by
  decide +kernel

end TinaPackage.Tcp
