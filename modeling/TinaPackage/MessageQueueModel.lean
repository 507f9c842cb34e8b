import TinaPackage.FifoLedger
import TinaPackage.LinkedChain
import TinaPackage.MachineInt
import TinaPackage.Runs

/-! The message queue of the base library (`base/AwMessageQueue.c`). Threads call it concurrently;
a step is one mutex section, one `sem_post` or one wait that succeeds. -/
namespace TinaPackage.Messages

variable {M : Type*}

structure MessageNode (M : Type*) where
  next : Option ℕ
  valid : Bool
  msg : M

/-- Pointers to nodes are their indices in `Nodes`. -/
structure MessageQueueContext (M : Type*) where
  pHead : Option ℕ
  nCount : ℤ
  nodes : ℕ → MessageNode M
  nMaxMessageNum : ℕ

namespace MessageQueueContext

/-- `AwMessageQueueCreate__`; `blank` is the message that `calloc` yields. -/
def create (nMaxMessageNum : ℕ) (blank : M) : MessageQueueContext M where
  pHead := none
  nCount := 0
  nodes _ := { next := none, valid := false, msg := blank }
  nMaxMessageNum

variable (q : MessageQueueContext M)

def next (i : ℕ) : Option ℕ := (q.nodes i).next

def freeNode : Option ℕ := (List.range q.nMaxMessageNum).find? fun i => !(q.nodes i).valid

def fill (node : ℕ) (m : M) : MessageQueueContext M :=
  { q with nodes := Function.update q.nodes node { next := none, valid := true, msg := m } }

def setNext (node : ℕ) (next : Option ℕ) : MessageQueueContext M :=
  { q with nodes := Function.update q.nodes node { q.nodes node with next } }

/-- The node goes to the end of the list; `none` when the list has no end. -/
def append (node : ℕ) : Option (MessageQueueContext M) :=
  match q.pHead with
  | none => some { q with pHead := some node }
  | some head => (walkLast q.next q.nMaxMessageNum head).map fun last => q.setNext last (some node)

/-- The mutex section of `AwMessageQueuePostMessage`; `none` when there is no free node to write
to. -/
def postMessage (m : M) : Option (MessageQueueContext M × ℤ) :=
  if q.nMaxMessageNum ≤ q.nCount then some (q, -1)
  else
    q.freeNode.bind fun node => ((q.fill node m).append node).map fun q' =>
      ({ q' with nCount := q'.nCount+1 }, 0)

def unlinkHead (node : ℕ) : MessageQueueContext M :=
  { q with
    pHead := q.next node
    nodes := Function.update q.nodes node { q.nodes node with valid := false }
    nCount := q.nCount-1 }

/-- The mutex section of `AwMessageQueueTryGetMessage`, with the message it copies out; `none` when
it reads through a null pointer. -/
def tryGetMessage : Option (MessageQueueContext M × Option M) :=
  if q.nCount ≤ 0 then some (q, none)
  else q.pHead.map fun node => (q.unlinkHead node, some (q.nodes node).msg)

def flush : MessageQueueContext M :=
  { q with
    pHead := none
    nCount := 0
    nodes := fun i =>
      if i < q.nMaxMessageNum then { q.nodes i with valid := false } else q.nodes i }

end MessageQueueContext

def semValueMax : ℕ := 2147483647

/-- `sem_post`, which fails when the semaphore is at its limit. -/
def semPost (sem : ℕ) : ℕ := if sem < semValueMax then sem+1 else sem

inductive Pc
  /-- Outside; the last call returned `ret`. -/
  | idle (ret : ℤ)
  /-- `AwMessageQueuePostMessage` before its `sem_post`. -/
  | posting
  /-- `AwMessageQueueWaitMessage` in `SemTimedWait`. -/
  | waiting
  /-- `AwMessageQueueWaitMessage` before its `sem_post`. -/
  | reposting
  /-- `AwMessageQueueWaitMessage` before it reads `nCount`. -/
  | counting
  /-- `AwMessageQueueTryGetMessage` in `SemTimedWait`. -/
  | getting
  /-- `AwMessageQueueTryGetMessage` before its mutex section. -/
  | taking
  /-- `AwMessageQueueFlush` before `sem_getvalue`; it has the mutex. -/
  | flushing
  /-- `AwMessageQueueFlush` before `sem_trywait`; it has the mutex. -/
  | draining
  deriving DecidableEq

def Pc.posts : Pc → Bool
  | .posting | .reposting => true
  | _ => false

def Pc.takes : Pc → Bool
  | .taking => true
  | _ => false

def Pc.locks : Pc → Bool
  | .flushing | .draining => true
  | _ => false

inductive Event (M : Type*)
  | postMessage (m : M)
  | waitMessage
  /-- `AwMessageQueueGetMessage` and `AwMessageQueueTryGetMessage`. -/
  | getMessage
  | flush
  | go
  | timeout

/-- The queue with the threads that use it, the history of the messages, and the messages that were
copied to the callers. -/
structure QueueWorld (Thread M : Type*) where
  queue : MessageQueueContext M
  sem : ℕ
  mutex : Option Thread
  pcs : Thread → Pc
  ledger : FifoLedger M
  received : List M

namespace QueueWorld

variable {Thread : Type*} [DecidableEq Thread]

def created (nMaxMessageNum : ℕ) (blank : M) : QueueWorld Thread M where
  queue := .create nMaxMessageNum blank
  sem := 0
  mutex := none
  pcs _ := .idle 0
  ledger := .empty
  received := []

variable (w : QueueWorld Thread M)

def goto (t : Thread) (pc : Pc) : QueueWorld Thread M :=
  { w with pcs := Function.update w.pcs t pc }

/-- A thread that cannot go on, because another one has the mutex or the semaphore is zero, stays
where it is. -/
def step : Thread × Event M → Option (QueueWorld Thread M)
  | (t, event) =>
    match w.pcs t, event with
    | .idle _, .postMessage m =>
      if w.mutex.isSome then some w
      else
        (w.queue.postMessage m).map fun (queue, ret) =>
          if ret = 0 then
            { w with queue, ledger := w.ledger.post m }.goto t .posting
          else { w with queue }.goto t (.idle ret)
    | .posting, .go => some ({ w with sem := semPost w.sem }.goto t (.idle 0))
    | .idle _, .waitMessage => some (w.goto t .waiting)
    | .waiting, .go =>
      if w.sem = 0 then some w else some ({ w with sem := w.sem-1 }.goto t .reposting)
    | .waiting, .timeout => some (w.goto t (.idle (-1)))
    | .reposting, .go => some ({ w with sem := semPost w.sem }.goto t .counting)
    | .counting, .go => some (w.goto t (.idle w.queue.nCount))
    | .idle _, .getMessage => some (w.goto t .getting)
    | .getting, .go =>
      if w.sem = 0 then some w else some ({ w with sem := w.sem-1 }.goto t .taking)
    | .getting, .timeout => some (w.goto t (.idle (-1)))
    | .taking, .go =>
      if w.mutex.isSome then some w
      else
        w.queue.tryGetMessage.map fun (queue, msg) =>
          match msg with
          | none => { w with queue }.goto t (.idle (-1))
          | some m =>
            { w with queue, ledger := w.ledger.take, received := w.received ++ [m] }.goto t
              (.idle 0)
    | .idle _, .flush =>
      if w.mutex.isSome then some w
      else
        some ({ w with
          queue := w.queue.flush
          mutex := some t
          ledger := w.ledger.removeAll }.goto t .flushing)
    | .flushing, .go =>
      if w.sem = 0 then some ({ w with mutex := none }.goto t (.idle 0))
      else some (w.goto t .draining)
    -- `sem_trywait` fails when the semaphore has become zero
    | .draining, .go => some ({ w with sem := w.sem-1 }.goto t .flushing)
    | _, _ => some w

variable [Fintype Thread]

def postsInProgress : ℕ :=
  (Finset.univ.filter fun t => (w.pcs t).posts).card

def gettersPastWait : ℕ :=
  (Finset.univ.filter fun t => (w.pcs t).takes).card

end QueueWorld

end TinaPackage.Messages
