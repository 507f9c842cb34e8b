import TinaPackage.Runs

/-! The lifetime of a TCP stream object. Connect, Read and Write take a reference and announce
themselves in one state word under `stateLock`; `__CdxTcpStreamClose` stops the others, waits for
the state word to be idle and drops its references. Whoever drops the last one frees the object, and
the mutex with it. Every step marks `wild` if the object was freed before it. -/
namespace TinaPackage.Tcp
open Option

/-- The values of `state`; `TCP_STREAM_FORCESTOPPED` is never stored. -/
inductive Word
  | idle
  | connecting
  | reading
  | writing
  deriving DecidableEq, Repr

inductive Kind
  | connect
  | read
  | write
  deriving DecidableEq, Repr

def Kind.word : Kind → Word
  | .connect => .connecting
  | .read => .reading
  | .write => .writing

inductive Thread
  | call (i : ℕ)
  | close
  deriving DecidableEq, Repr

/-- The object: its reference count, state word and `forceStopFlag`, who holds
`stateLock`, how often it was freed, and whether it was touched after that. -/
structure Obj where
  ref : ℤ
  word : Word
  forceStopFlag : Bool
  holder : Option Thread
  frees : ℕ
  wild : Bool

/-- Where a call stands. Between `leave` and `finish` it uses the object without
the lock; Connect then locks once more for `ioState`, and reads `ioState` after
its last unlock. -/
inductive CallPc
  | ready
  | enter
  | refuse
  | take
  | mark
  | leave
  | work
  | report
  | reported
  | finish
  | setIdle
  | dec
  | test
  | free
  | unlock
  | readIo
  | done
  deriving DecidableEq, Repr

/-- Where the closing thread stands: the reference of its own, `ForceStop`, and
three times `CdxTcpStreamDecRef`, with the number of those still to come. -/
inductive ClosePc
  | start
  | stopLock
  | stopInc
  | stopFlag
  | stopUnlock
  | wait
  | lock
  | unlock
  | dec (left : ℕ)
  | test (left : ℕ)
  | free (left : ℕ)
  | done
  deriving DecidableEq, Repr

def Obj.touch (o : Obj) : Obj := { o with wild := o.wild || decide (0 < o.frees) }

def Obj.acquire (o : Obj) (t : Thread) : Option Obj :=
  if o.holder = none then some { o with holder := some t } else none

def Obj.release (o : Obj) : Obj := { o with holder := none }

/-- One step of call `i`. Read and Write take their reference before they set the
state word, Connect after. -/
def callStep (k : Kind) (i : ℕ) (o : Obj) : CallPc → Option (Obj × CallPc)
  | .ready => (o.acquire (.call i)).map (·, .enter)
  | .enter =>
    some (o, if o.forceStopFlag then .refuse else if k = .connect then .mark else .take)
  | .refuse => some (o.release, .done)
  | .take => some ({ o with ref := o.ref+1 }, if k = .connect then .leave else .mark)
  | .mark => some ({ o with word := k.word }, if k = .connect then .take else .leave)
  | .leave => some (o.release, .work)
  | .work => some (o, if k = .connect then .report else .finish)
  | .report => (o.acquire (.call i)).map (·, .reported)
  | .reported => some (o.release, .finish)
  | .finish => (o.acquire (.call i)).map (·, .setIdle)
  | .setIdle => some ({ o with word := .idle }, .dec)
  | .dec => some ({ o with ref := o.ref-1 }, .test)
  | .test => some (o, if o.ref ≠ 0 then .unlock else .free)
  | .free => some ({ o with frees := o.frees+1 }, .unlock)
  | .unlock => some (o.release, if k = .connect then .readIo else .done)
  | .readIo => some (o, .done)
  | .done => none

def ClosePc.next : ℕ → ClosePc
  | 0 => .done
  | left + 1 => .dec left

/-- One step of `__CdxTcpStreamClose`; a round of its wait loop stays where it is
while the state word is not idle. -/
def closeStep (o : Obj) : ClosePc → Option (Obj × ClosePc)
  | .start => some ({ o with ref := o.ref+1 }, .stopLock)
  | .stopLock => (o.acquire .close).map (·, .stopInc)
  | .stopInc => some ({ o with ref := o.ref+1 }, .stopFlag)
  | .stopFlag => some ({ o with forceStopFlag := true }, .stopUnlock)
  | .stopUnlock => some (o.release, .wait)
  | .wait => some (o, if o.word = .idle then .lock else .wait)
  | .lock => (o.acquire .close).map (·, .unlock)
  | .unlock => some (o.release, .dec 2)
  | .dec left => some ({ o with ref := o.ref-1 }, .test left)
  | .test left => some (o, if o.ref ≠ 0 then .next left else .free left)
  | .free left => some ({ o with frees := o.frees+1 }, .next left)
  | .done => none

structure State where
  obj : Obj
  calls : ℕ → CallPc
  close : ClosePc

def State.init : State where
  obj := ⟨1,.idle,false,none,0,false⟩
  calls := fun _ => .ready
  close := .start

/-- A step of call `i`, a use of the object by call `i` while it works, or a step
of the closing thread. -/
inductive Action
  | call (i : ℕ)
  | touch (i : ℕ)
  | close
  deriving DecidableEq, Repr

def step (kind : ℕ → Kind) (s : State) : Action → Option State
  | .call i =>
    (callStep (kind i) i s.obj.touch (s.calls i)).map fun r =>
      { s with obj := r.1, calls := Function.update s.calls i r.2 }
  | .touch i => if s.calls i = .work then some { s with obj := s.obj.touch } else none
  | .close => (closeStep s.obj.touch s.close).map fun r => { s with obj := r.1, close := r.2 }

def CallPc.begun (k : Kind) : CallPc → Bool
  | .enter | .refuse | .take => false
  | .mark => k ≠ .connect
  | _ => true

/-- The calls `0` to `n - 1` are the ones of the run; they begin before the
stream is closed, and have taken their reference by then. -/
def Usage (n : ℕ) (kind : ℕ → Kind) (s : State) : Action → Prop
  | .call i => i < n ∧ (s.calls i = .ready → s.close = .start)
  | .touch _ => True
  | .close => s.close = .start → ∀ i < n, (s.calls i).begun (kind i) = true

/-- The steps of call `i`, with what was tested on the way. -/
inductive CallMoves (k : Kind) (i : ℕ) (o : Obj) : CallPc → Obj → CallPc → Prop
  | ready : o.holder = none → CallMoves k i o .ready { o with holder := some (.call i) } .enter
  | refused : CallMoves k i o .enter o .refuse
  | enterConnect : k = .connect → CallMoves k i o .enter o .mark
  | enterOther : k ≠ .connect → CallMoves k i o .enter o .take
  | refuse : CallMoves k i o .refuse { o with holder := none } .done
  | takeConnect : k = .connect → CallMoves k i o .take { o with ref := o.ref + 1 } .leave
  | takeOther : k ≠ .connect → CallMoves k i o .take { o with ref := o.ref + 1 } .mark
  | markConnect : k = .connect → CallMoves k i o .mark { o with word := k.word } .take
  | markOther : k ≠ .connect → CallMoves k i o .mark { o with word := k.word } .leave
  | leave : CallMoves k i o .leave { o with holder := none } .work
  | workConnect : k = .connect → CallMoves k i o .work o .report
  | workOther : k ≠ .connect → CallMoves k i o .work o .finish
  | report : o.holder = none → CallMoves k i o .report { o with holder := some (.call i) } .reported
  | reported : CallMoves k i o .reported { o with holder := none } .finish
  | finish : o.holder = none → CallMoves k i o .finish { o with holder := some (.call i) } .setIdle
  | setIdle : CallMoves k i o .setIdle { o with word := .idle } .dec
  | dec : CallMoves k i o .dec { o with ref := o.ref - 1 } .test
  | testMore : o.ref ≠ 0 → CallMoves k i o .test o .unlock
  | testLast : o.ref = 0 → CallMoves k i o .test o .free
  | free : CallMoves k i o .free { o with frees := o.frees + 1 } .unlock
  | unlockConnect : k = .connect → CallMoves k i o .unlock { o with holder := none } .readIo
  | unlockOther : k ≠ .connect → CallMoves k i o .unlock { o with holder := none } .done
  | readIo : CallMoves k i o .readIo o .done

theorem acquire_some {o o' : Obj} {t : Thread} {α : Type} {pc pc' : α}
    (h : (o.acquire t).map (·, pc) = some (o', pc')) :
    o.holder = none ∧ o' = { o with holder := some t } ∧ pc' = pc := by
  unfold Obj.acquire at h
  split at h
  · next hn =>
    cases h
    exact ⟨hn,rfl,rfl⟩
  · cases h

theorem callMoves_of_callStep {k : Kind} {i : ℕ} {o o' : Obj} {pc pc' : CallPc}
    (h : callStep k i o pc = some (o', pc')) : CallMoves k i o pc o' pc' := by
  cases pc with
  | ready | report | finish =>
    obtain ⟨hn,rfl,rfl⟩ := acquire_some h
    constructor
    exact hn
  | enter =>
    cases h
    split
    · exact .refused
    · split
      · exact .enterConnect ‹_›
      · exact .enterOther ‹_›
  | take | mark | work | unlock =>
    cases h
    split
    all_goals
      constructor
      assumption
  | test =>
    cases h
    split
    · exact .testMore ‹_›
    · exact .testLast (not_not.mp ‹_›)
  | refuse | leave | reported | setIdle | dec | free | readIo =>
    cases h
    constructor
  | done => cases h

inductive CloseMoves (o : Obj) : ClosePc → Obj → ClosePc → Prop
  | start : CloseMoves o .start { o with ref := o.ref + 1 } .stopLock
  | stopLock : o.holder = none → CloseMoves o .stopLock { o with holder := some .close } .stopInc
  | stopInc : CloseMoves o .stopInc { o with ref := o.ref + 1 } .stopFlag
  | stopFlag : CloseMoves o .stopFlag { o with forceStopFlag := true } .stopUnlock
  | stopUnlock : CloseMoves o .stopUnlock { o with holder := none } .wait
  | waitMore : CloseMoves o .wait o .wait
  | waitIdle : o.word = .idle → CloseMoves o .wait o .lock
  | lock : o.holder = none → CloseMoves o .lock { o with holder := some .close } .unlock
  | unlock : CloseMoves o .unlock { o with holder := none } (.dec 2)
  | dec {left} : CloseMoves o (.dec left) { o with ref := o.ref - 1 } (.test left)
  | testMore {left} : o.ref ≠ 0 → CloseMoves o (.test left) o (.next left)
  | testLast {left} : o.ref = 0 → CloseMoves o (.test left) o (.free left)
  | free {left} : CloseMoves o (.free left) { o with frees := o.frees + 1 } (.next left)

theorem closeMoves_of_closeStep {o o' : Obj} {pc pc' : ClosePc}
    (h : closeStep o pc = some (o', pc')) : CloseMoves o pc o' pc' := by
  cases pc with
  | stopLock | lock =>
    obtain ⟨hn,rfl,rfl⟩ := acquire_some h
    constructor
    exact hn
  | wait =>
    cases h
    split
    · exact .waitIdle ‹_›
    · exact .waitMore
  | test left =>
    cases h
    split
    · exact .testMore ‹_›
    · exact .testLast (not_not.mp ‹_›)
  | start | stopInc | stopFlag | stopUnlock | unlock | dec | free =>
    cases h
    constructor
  | done => cases h

end TinaPackage.Tcp
