import TinaPackage.Runs

/-! The event queue of the message thread: a linked list with a dummy node in front, pushed at
`rear` and popped at `front` without a lock. The pop that drops the last reference of a node frees
it. A call stops at every atomic operation and every read of a shared pointer. -/
namespace TinaPackage.Queue
open Function

/-- A node; a pointer is an address, 0 for `NULL`. -/
structure Node (α : Type*) where
  next : ℕ
  ref : ℤ
  data : α

/-- What the calls share. `wild` is set by a step that uses the address of no node as one. The code
has no lists: `linked` and `popped` are the values in the order their nodes were linked and popped,
`passed` the nodes in the order `front` left them and `freed` in the order they were freed. -/
structure Shared (α : Type*) where
  heap : ℕ → Option (Node α)
  front : ℕ
  rear : ℕ
  linked : List α
  popped : List α
  passed : List ℕ
  freed : List ℕ
  wild : Bool

/-- Where a push stands: `entity` is its node, `tmp` the rear it has read. -/
inductive PushPc (α : Type*)
  | ready
  | readRear (entity : ℕ) (data : α)
  | link (entity : ℕ) (data : α) (tmp : ℕ)
  | swing (entity tmp : ℕ)
  | done
  deriving DecidableEq, Repr

/-- Why a pop drops a reference: its exchange failed, the queue is empty, it
took `data` and drops its own reference or the one of the queue. -/
inductive Drop (α : Type*)
  | retry
  | empty
  | own (data : α)
  | last (data : α)
  deriving DecidableEq, Repr

inductive PopPc (α : Type*)
  | ready
  | incRef (entity : ℕ)
  | test (entity : ℕ)
  | readNext (entity : ℕ)
  | readData (entity next : ℕ)
  | rereadNext (entity : ℕ) (data : α)
  | cas (entity : ℕ) (data : α) (next : ℕ)
  | decRef (entity : ℕ) (why : Drop α)
  | free (entity : ℕ) (why : Drop α)
  | done (result : Option α)
  deriving DecidableEq, Repr

variable {α : Type*}

namespace Shared

variable (s : Shared α)

def touchFreed : Shared α := { s with wild := true }

def put (a : ℕ) (nd : Node α) : Shared α := { s with heap := update s.heap a (some nd) }

@[simp] theorem put_heap_self (a : ℕ) (nd : Node α) :
    (s.put a nd).heap a = some nd := update_self ..

theorem put_heap_of_ne {a b : ℕ} (hne : b ≠ a) (nd : Node α) :
    (s.put a nd).heap b = s.heap b := update_of_ne hne ..

/-- `Pfree` of the node at `a`. -/
def release (a : ℕ) : Shared α := { s with heap := update s.heap a none, freed := s.freed ++ [a] }

@[simp] theorem release_heap_self (a : ℕ) : (s.release a).heap a = none := update_self ..

theorem release_heap_of_ne {a b : ℕ} (hne : b ≠ a) :
    (s.release a).heap b = s.heap b := update_of_ne hne ..

end Shared

/-- One step of `__CdxQueuePush`. The allocator answers with an address that
holds no node; nobody else sees the new node while its fields are set. -/
def pushStep (s : Shared α) (addr : ℕ) (data : α) : PushPc α → Option (Shared α × PushPc α)
  | .ready =>
    match s.heap addr with
    | some _ => none
    | none =>
      if addr = 0 then none else some (s.put addr ⟨0,1,data⟩, .readRear addr data)
  | .readRear entity data => some (s, .link entity data s.rear)
  | .link entity data tmp =>
    match s.heap tmp with
    | none => some (s.touchFreed, .link entity data tmp)
    | some nd =>
      if nd.next = 0 then
        some ({ s.put tmp { nd with next := entity } with linked := s.linked ++ [data] },
          .swing entity tmp)
      else some (s, .readRear entity data)
  | .swing entity tmp => some (if s.rear = tmp then { s with rear := entity } else s, .done)
  | .done => none

def Drop.next (entity : ℕ) : Drop α → PopPc α
  | .retry => .ready
  | .empty => .done none
  | .own data => .decRef entity (.last data)
  | .last data => .done (some data)

def popStep (s : Shared α) : PopPc α → Option (Shared α × PopPc α)
  | .ready => some (s, .incRef s.front)
  | .incRef entity =>
    match s.heap entity with
    | none => some (s.touchFreed, .incRef entity)
    | some nd => some (s.put entity { nd with ref := nd.ref+1 }, .test entity)
  | .test entity =>
    match s.heap entity with
    | none => some (s.touchFreed, .test entity)
    | some nd => some (s, if nd.next = 0 then .decRef entity .empty else .readNext entity)
  | .readNext entity =>
    match s.heap entity with
    | none => some (s.touchFreed, .readNext entity)
    | some nd => some (s, .readData entity nd.next)
  | .readData entity next =>
    match s.heap next with
    | none => some (s.touchFreed, .readData entity next)
    | some nd => some (s, .rereadNext entity nd.data)
  | .rereadNext entity data =>
    match s.heap entity with
    | none => some (s.touchFreed, .rereadNext entity data)
    | some nd => some (s, .cas entity data nd.next)
  | .cas entity data next =>
    if s.front = entity then
      some ({ s with front := next, popped := s.popped ++ [data], passed := s.passed ++ [entity] },
        .decRef entity (.own data))
    else some (s, .decRef entity .retry)
  | .decRef entity why =>
    match s.heap entity with
    | none => some (s.touchFreed, .decRef entity why)
    | some nd =>
      some (s.put entity { nd with ref := nd.ref-1 },
        if nd.ref-1 = 0 then .free entity why else why.next entity)
  | .free entity why =>
    match s.heap entity with
    | none => some (s.touchFreed, .free entity why)
    | some _ => some (s.release entity, why.next entity)
  | .done _ => none

structure State (α ι κ : Type*) where
  shared : Shared α
  pushes : ι → PushPc α
  pops : κ → PopPc α

/-- `CdxQueueCreate`: one dummy node, at address 1, whose data is `NULL`. -/
def Shared.create (null : α) : Shared α where
  heap := update (fun _ => none) 1 (some ⟨0,1,null⟩)
  front := 1
  rear := 1
  linked := []
  popped := []
  passed := []
  freed := []
  wild := false

theorem Shared.create_heap_dummy (null : α) : (Shared.create null).heap 1 = some ⟨0,1,null⟩ := by
  simp [Shared.create]

theorem Shared.create_heap_of_ne (null : α) {a : ℕ} (ha : a ≠ 1) :
    (Shared.create null).heap a = none := by
  simp [Shared.create,ha]

def State.init (ι κ : Type*) (null : α) : State α ι κ where
  shared := .create null
  pushes := fun _ => .ready
  pops := fun _ => .ready

/-- A step of push `i`, which allocates at `addr` and stores `data`, or of pop
`i`. -/
inductive Action (α ι κ : Type*)
  | push (i : ι) (addr : ℕ) (data : α)
  | pop (i : κ)

variable {ι κ : Type*}

def step [DecidableEq ι] [DecidableEq κ] (s : State α ι κ) : Action α ι κ → Option (State α ι κ)
  | .push i addr data => (pushStep s.shared addr data (s.pushes i)).map fun r =>
      { s with shared := r.1, pushes := update s.pushes i r.2 }
  | .pop i => (popStep s.shared (s.pops i)).map fun r =>
      { s with shared := r.1, pops := update s.pops i r.2 }

def PushPc.linking : PushPc α → Bool
  | .link .. | .swing .. => true
  | _ => false

def PushPc.atRear : PushPc α → Bool
  | .readRear .. => true
  | _ => false

def PopPc.active : PopPc α → Bool
  | .ready | .done _ => false
  | _ => true

def PopPc.atFront : PopPc α → Bool
  | .ready => true
  | _ => false

/-- A push reads `rear` only while no push stands between its own read of `rear`
and the step that moves `rear` on; a pop reads `front` only while no pop stands
between its own read of `front` and its end. -/
def Apart (s : State α ι κ) : Action α ι κ → Prop
  | .push i _ _ => (s.pushes i).atRear = true → ∀ j, (s.pushes j).linking = false
  | .pop i => (s.pops i).atFront = true → ∀ j, (s.pops j).active = false

instance [Fintype ι] [Fintype κ] (s : State α ι κ) : ∀ a, Decidable (Apart s a)
  | .push .. => inferInstanceAs (Decidable (_ = true → ∀ _, _ = _))
  | .pop _ => inferInstanceAs (Decidable (_ = true → ∀ _, _ = _))

end TinaPackage.Queue
