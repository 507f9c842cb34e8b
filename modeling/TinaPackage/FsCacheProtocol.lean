import TinaPackage.FsCacheModel

/-! How a flush is asked for and acknowledged. From the moment the thread has seen the flag until
it has posted `m_flush_done_sem`, the producer waits for that semaphore. -/
namespace TinaPackage.FsWriter
open Option

def ProducerPc.locked : ProducerPc → Bool
  | .flushSetFlag | .flushUp | .flushUnlock => true
  | _ => false

def ProducerPc.awaits : ProducerPc → Bool
  | .flushUp | .flushUnlock | .flushDown => true
  | _ => false

def ThreadPc.flushing : ThreadPc → Bool
  | .drainRd .flush | .drainWr .flush _ | .drainPublish .flush _ _ => true
  | .compare | .resetWr | .resetRd | .flushUp => true
  | _ => false

def ThreadPc.locked (pc : ThreadPc) : Bool :=
  pc.flushing || pc == .testFlag || pc == .clearFlag || pc == .unlock

/-- The flag may be set although nobody waits: it is about to be cleared, or the thread has
given up. -/
def ThreadPc.past : ThreadPc → Bool
  | .clearFlag | .stop | .stopped => true
  | _ => false

structure Protocol (s : FsCache) : Prop where
  producer_lock : s.producer.locked = true → s.mFlushLock = some .producer
  thread_lock : s.thread.locked = true → s.mFlushLock = some .thread
  flushing_flag : s.thread.flushing = true → s.mFlushFlag = true
  flag : s.mFlushFlag = true → s.thread.past = true ∨ s.producer.awaits = true ∧ s.mFlushDoneSem = 0
  done : s.mFlushDoneSem ≠ 0 → s.producer = .flushDown
  done_le : s.mFlushDoneSem ≤ 1

theorem ThreadPc.past_of_flushing {pc : ThreadPc} (h : pc.flushing = true) : pc.past = false := by
  cases pc <;> first | rfl | cases h

theorem ProducerPc.eq_flushDown {pc : ProducerPc} (h : pc.awaits = true)
    (hlock : pc.locked = false) : pc = .flushDown := by
  cases pc <;> first | rfl | exact absurd h Bool.false_ne_true | cases hlock

variable {s s' : FsCache}

section
variable (h : Protocol s)
include h

theorem Protocol.of_flushing (hf : s.thread.flushing = true) :
    s.producer = .flushDown ∧ s.mFlushDoneSem = 0 := by
  have hlock : s.mFlushLock = some .thread := h.thread_lock (by simp [ThreadPc.locked,hf])
  have hpast := ThreadPc.past_of_flushing hf
  obtain ⟨hawaits,hdone⟩ := (h.flag (h.flushing_flag hf)).resolve_left (by simp [hpast])
  refine ⟨ProducerPc.eq_flushDown hawaits ?_,hdone⟩
  by_contra hne
  have := h.producer_lock (by simpa using hne)
  rw [hlock] at this
  cases this

theorem Protocol.not_flushing (hp : s.producer ≠ .flushDown) : s.thread.flushing = false := by
  by_contra hf
  exact hp (h.of_flushing (by simpa using hf)).1

theorem Protocol.producer_silent (hout : s.producer.awaits = false)
    (hlocked : s'.producer.locked = false) (hthread : s'.thread = s.thread)
    (hlock : s'.mFlushLock = s.mFlushLock) (hflag : s'.mFlushFlag = s.mFlushFlag)
    (hdone : s'.mFlushDoneSem = s.mFlushDoneSem) : Protocol s' where
  producer_lock hl := by rw [hlocked] at hl; cases hl
  thread_lock := by rw [hthread,hlock]; exact h.thread_lock
  flushing_flag := by rw [hthread,hflag]; exact h.flushing_flag
  flag hf := by
    rw [hflag] at hf
    rw [hthread]
    exact .inl ((h.flag hf).resolve_right fun hr => by rw [hout] at hr; cases hr.1)
  done hd := by
    rw [hdone] at hd
    rw [h.done hd] at hout
    cases hout
  done_le := by rw [hdone]; exact h.done_le

theorem Protocol.thread_silent (hpc : s'.thread.locked = false ∨ s.thread.flushing = true)
    (hpast : s.thread.past = true → s'.thread.past = true)
    (hsame : (s'.producer,s'.mFlushLock,s'.mFlushFlag,s'.mFlushDoneSem) =
      (s.producer,s.mFlushLock,s.mFlushFlag,s.mFlushDoneSem)) : Protocol s' := by
  simp only [Prod.mk.injEq] at hsame
  obtain ⟨hproducer,hlock,hflag,hdone⟩ := hsame
  constructor <;> simp only [hproducer,hlock,hflag,hdone]
  · exact h.producer_lock
  · intro hl
    have hf := hpc.resolve_left (by simp [hl])
    exact h.thread_lock (by simp [ThreadPc.locked,hf])
  · intro hf
    exact h.flushing_flag (hpc.resolve_left (by simp [ThreadPc.locked,hf]))
  · exact fun hf => (h.flag hf).imp_left hpast
  · exact h.done
  · exact h.done_le

theorem protocol_producerStep {n : ℕ} (hstep : producerStep n s = some s') : Protocol s' := by
  unfold producerStep at hstep
  cases hp : s.producer <;> simp only [hp,some_inj,ite_none_left_eq_some,ite_none_right_eq_some,
    reduceCtorEq] at hstep
  case flushLock =>
    obtain ⟨hfree,rfl⟩ := hstep
    exact { h with
      producer_lock := fun _ => rfl
      thread_lock := fun hl => absurd (hfree.symm.trans (h.thread_lock hl)) nofun
      flag := fun hf => .inl ((h.flag hf).resolve_right fun hr => by rw [hp] at hr; cases hr.1)
      done := fun hd => absurd (hp.symm.trans (h.done hd)) nofun }
  case flushSetFlag =>
    subst hstep
    have hdone : s.mFlushDoneSem = 0 := by
      by_contra hd
      exact absurd (hp.symm.trans (h.done hd)) nofun
    exact { h with
      producer_lock := fun _ => h.producer_lock (by rw [hp]; rfl)
      flushing_flag := fun _ => rfl
      flag := fun _ => .inr ⟨rfl,hdone⟩
      done := fun hd => absurd hdone hd }
  case flushUp =>
    subst hstep
    exact { h with
      producer_lock := fun _ => h.producer_lock (by rw [hp]; rfl)
      flag := fun hf => (h.flag hf).imp_right fun hr => ⟨rfl,hr.2⟩
      done := fun hd => absurd (hp.symm.trans (h.done hd)) nofun }
  case flushUnlock =>
    subst hstep
    have hlock := h.producer_lock (by rw [hp]; rfl)
    exact { h with
      producer_lock := fun hl => by cases hl
      thread_lock := fun hl => absurd (hlock.symm.trans (h.thread_lock hl)) nofun
      flag := fun hf => (h.flag hf).imp_right fun hr => ⟨rfl,hr.2⟩
      done := fun _ => rfl }
  case flushDown =>
    obtain ⟨hdone,rfl⟩ := hstep
    have hle := h.done_le
    exact { h with
      producer_lock := fun hl => by cases hl
      flag := fun hf => .inl ((h.flag hf).resolve_right fun hr => hdone hr.2)
      done := fun hd => absurd (by show s.mFlushDoneSem-1 = 0; omega) hd
      done_le := by show s.mFlushDoneSem-1 ≤ 1; omega }
  all_goals
    subst hstep
    refine h.producer_silent (by rw [hp]; rfl) ?_ rfl rfl rfl rfl
    first | rfl | (dsimp only; split <;> rfl)

end

theorem drainNext_exit_locked (chunks : List Chunk) : (drainNext .exit chunks).locked = false := by
  cases chunks with
  | nil => rfl
  | cons chunk more => rfl

theorem protocol_threadStep {n : ℕ} {ret : ℤ} (h : Protocol s)
    (hstep : threadStep n ret s = some s') : Protocol s' := by
  unfold threadStep at hstep
  cases ht : s.thread <;> simp only [ht,some_inj,ite_none_left_eq_some,ite_none_right_eq_some,
    reduceCtorEq] at hstep
  case lock =>
    obtain ⟨hfree,rfl⟩ := hstep
    exact { h with
      producer_lock := fun hl => absurd (hfree.symm.trans (h.producer_lock hl)) nofun
      thread_lock := fun _ => rfl
      flushing_flag := nofun
      flag := fun hf => (h.flag hf).imp_left (by rw [ht]; nofun) }
  case testFlag =>
    subst hstep
    have hlock := h.thread_lock (by rw [ht]; rfl)
    exact { h with
      thread_lock := fun _ => hlock
      flushing_flag := fun hf => by
        cases hflag : s.mFlushFlag with
        | true => rfl
        | false => simp [hflag,ThreadPc.flushing] at hf
      flag := fun hf => (h.flag hf).imp_left (by rw [ht]; nofun) }
  case flushUp =>
    subst hstep
    obtain ⟨hproducer,hdone⟩ := h.of_flushing (by rw [ht]; rfl)
    exact { h with
      thread_lock := fun _ => h.thread_lock (by rw [ht]; rfl)
      flushing_flag := nofun
      flag := fun _ => .inl rfl
      done := fun _ => hproducer
      done_le := by show s.mFlushDoneSem+1 ≤ 1; omega }
  case clearFlag =>
    subst hstep
    exact { h with
      thread_lock := fun _ => h.thread_lock (by rw [ht]; rfl)
      flushing_flag := nofun
      flag := nofun }
  case unlock =>
    subst hstep
    have hlock := h.thread_lock (by rw [ht]; rfl)
    exact { h with
      producer_lock := fun hl => absurd (hlock.symm.trans (h.producer_lock hl)) nofun
      thread_lock := nofun
      flushing_flag := nofun
      flag := fun hf => (h.flag hf).imp_left (by rw [ht]; nofun) }
  case stop =>
    subst hstep
    exact h.thread_silent (.inl rfl) (fun _ => rfl) rfl
  -- the other steps stay inside a flush or outside the lock
  all_goals have hpast {q : Prop} (hq : s.thread.past = true) : q := by rw [ht] at hq; cases hq
  case drainRd why | drainWr why _ =>
    subst hstep
    cases why with
    | flush => exact h.thread_silent (.inr (by rw [ht]; rfl)) hpast rfl
    | exit =>
      refine h.thread_silent (.inl ?_) hpast rfl
      first | rfl | exact drainNext_exit_locked _
  case drainPublish why chunk more =>
    split at hstep <;> cases hstep
    · exact h.thread_silent (.inl rfl) hpast rfl
    · cases why with
      | flush => exact h.thread_silent (.inr (by rw [ht]; rfl)) hpast rfl
      | exit => exact h.thread_silent (.inl (drainNext_exit_locked _)) hpast rfl
  case compare | resetWr | resetRd =>
    subst hstep
    exact h.thread_silent (.inr (by rw [ht]; rfl)) hpast rfl
  case down =>
    obtain ⟨-,rfl⟩ := hstep
    exact h.thread_silent (.inl rfl) hpast rfl
  case loopWr | loopPublish =>
    split at hstep <;> cases hstep <;> exact h.thread_silent (.inl rfl) hpast rfl
  all_goals
    subst hstep
    refine h.thread_silent (.inl ?_) hpast rfl
    first | rfl | (dsimp only; split <;> rfl)

end TinaPackage.FsWriter
