import TinaPackage.HeapBlocks
import TinaPackage.MachineInt
import TinaPackage.Runs

/-! The memory pool of the base library (`base/AwPool.c`). Regions are `malloc`ed as a whole, small
blocks are carved from them one behind the other, and large blocks are `malloc`ed one by one. -/
namespace TinaPackage.Pool

/-- The sizes of the two headers on the platform. -/
structure Abi where
  /-- `sizeof(struct PoolDataS)` -/
  poolData : ℕ
  /-- `sizeof(struct PoolMemoryS)` -/
  poolMemory : ℕ
  aligned : 8 ∣ poolData
  fits : poolData+4095 ≤ 8192

def Abi.lp64 : Abi := { poolData := 64, poolMemory := 48, aligned := by decide, fits := by decide }

def Abi.ilp32 : Abi := { poolData := 32, poolMemory := 24, aligned := by decide, fits := by decide }

def poolBlockSize : ℕ := 8192

def poolLargeSize : ℕ := 4095

def awAlign (d : ℕ) : ℕ := (d+7)/8*8

/-- The header in front of a block. `owner` is the region that the block was carved from. -/
structure PoolMemory where
  addr : ℕ
  owner : Option ℕ
  size : ℕ
  deriving DecidableEq

/-- The region at `addr`, with the headers of its blocks in the order of `pmList`. -/
structure PoolData where
  addr : ℕ
  last : ℕ
  pmList : List PoolMemory
  ref : ℤ
  failed : ℤ
  deriving DecidableEq

/-- A header stands in the list that it is linked into, and `mem` are the bytes of the blocks. -/
structure AwPool where
  current : ℕ
  pdList : List PoolData
  largeList : List PoolMemory
  mem : ℕ → UInt8

def PoolData.stop (pd : PoolData) : ℕ := pd.addr+poolBlockSize

def PoolData.block (pd : PoolData) : Block := ⟨pd.addr,poolBlockSize⟩

section
variable (abi : Abi)

def PoolMemory.block (pm : PoolMemory) : Block := ⟨pm.addr,abi.poolMemory+pm.size⟩

/-- `pm + 1` -/
def PoolMemory.pointer (pm : PoolMemory) : ℕ := pm.addr+abi.poolMemory

def pmSize (size : ℕ) : ℤ := int32 (awAlign (abi.poolMemory+size))

def newRegion (a : ℕ) : PoolData where
  addr := a
  last := a+awAlign abi.poolData
  pmList := []
  ref := 1
  failed := 0

end

def PoolData.carve (pd : PoolData) (size : ℕ) (step : ℤ) : PoolData :=
  { pd with
    last := (pd.last+step).toNat
    pmList := pd.pmList ++ [{ addr := pd.last, owner := some pd.addr, size }]
    ref := pd.ref+1 }

/-- The loop of `PallocBlock` over the regions from the current one on: those that are left, and
`currentPd`. The new region is at `a`. -/
def passRegions (a : ℕ) : List PoolData → List PoolData × Option ℕ
  | [] => ([], none)
  | pd :: rest =>
    let (left, currentPd) := passRegions a rest
    if 4 < pd.failed then
      let next := (rest.head?.map PoolData.addr).getD a
      if pd.ref-1 = 0 then (left, some (currentPd.getD next))
      else ({ pd with failed := pd.failed+1, ref := pd.ref-1 } :: left, some (currentPd.getD next))
    else ({ pd with failed := pd.failed+1 } :: left, currentPd)

def nextMemory (a : ℕ) : List PoolMemory → Option PoolMemory
  | [] => none
  | pm :: rest => if pm.addr = a then rest.head? else nextMemory a rest

namespace AwPool

variable (abi : Abi) (p : AwPool)

def heap : List Block := p.pdList.map PoolData.block ++ p.largeList.map (PoolMemory.block abi)

def memories : List PoolMemory := p.pdList.flatMap PoolData.pmList ++ p.largeList

/-- `((struct PoolMemoryS *)q) - 1` -/
def header (q : ℕ) : Option PoolMemory := p.memories.find? fun pm => pm.pointer abi = q

def passed : List PoolData := p.pdList.takeWhile fun pd => pd.addr ≠ p.current

def active : List PoolData := p.pdList.dropWhile fun pd => pd.addr ≠ p.current

/-- `PoolNodeCreate`; its region is at `a`. -/
def create (a : ℕ) (mem : ℕ → UInt8) : AwPool where
  current := a
  pdList := [newRegion abi a]
  largeList := []
  mem

variable {p}

section
variable (p : AwPool)

def modify (base : ℕ) (f : PoolData → PoolData) : AwPool :=
  { p with pdList := p.pdList.map fun pd => if pd.addr = base then f pd else pd }

/-- `CdxListDel(&pm->node)` of the header at `a`. -/
def unlink (a : ℕ) : AwPool :=
  { p with
    pdList := p.pdList.map fun pd => { pd with pmList := pd.pmList.filter fun pm => pm.addr ≠ a }
    largeList := p.largeList.filter fun pm => pm.addr ≠ a }

/-- `PoolDataDecRef` of the region at `base`; it goes wrong if there is none. -/
def decRef (base : ℕ) : Option AwPool :=
  (p.pdList.find? fun pd => pd.addr = base).map fun pd =>
    if pd.ref-1 = 0 then { p with pdList := p.pdList.filter fun pd => pd.addr ≠ base }
    else p.modify base fun pd => { pd with ref := pd.ref-1 }

def pallocLarge (size pick : ℕ) : AwPool × Option ℕ :=
  match malloc (p.heap abi) pick (size+abi.poolMemory) with
  | none => (p, none)
  | some a =>
    ({ p with largeList := { addr := a, owner := none, size } :: p.largeList },
      some (a+abi.poolMemory))

def pallocBlock (size pick : ℕ) : AwPool × Option ℕ :=
  match malloc (p.heap abi) pick poolBlockSize with
  | none => (p, none)
  | some a =>
    let (left, currentPd) := passRegions a p.active
    let newPd := newRegion abi a
    ({ p with
        pdList := p.passed ++ left ++ [newPd.carve size (awAlign (abi.poolMemory+size))]
        current := currentPd.getD p.current },
      some (newPd.last+abi.poolMemory))

/-- `AwPalloc`. It stops the program if `size` is not positive. -/
def palloc (size pick : ℕ) : Option (AwPool × Option ℕ) :=
  if size = 0 then none
  else if pmSize abi size ≤ poolLargeSize then
    match p.active.find? fun pd => pmSize abi size ≤ int32 (pd.stop-pd.last) with
    | some pd =>
      some (p.modify pd.addr fun pd => pd.carve size (pmSize abi size),
        some (pd.last+abi.poolMemory))
    | none => some (p.pallocBlock abi size pick)
  else some (p.pallocLarge abi size pick)

/-- A large block is given back. It goes wrong if nothing was `malloc`ed at the header. -/
def freeLarge (pm : PoolMemory) : Option AwPool :=
  if pm ∈ p.largeList then some (p.unlink pm.addr) else none

def pfree (q : ℕ) : Option AwPool :=
  (p.header abi q).bind fun pm =>
    if poolLargeSize < pm.size then p.freeLarge pm
    else pm.owner.bind fun base => (p.unlink pm.addr).decRef base

def copy (dst src n : ℕ) : Option AwPool :=
  (memcpy p.mem dst src n).map fun mem => { p with mem }

/-- The bytes from the block `q` of `pm` to the next header or the end of the region. -/
def freeSize (pd : PoolData) (pm : PoolMemory) (q : ℕ) : ℤ :=
  match nextMemory pm.addr pd.pmList with
  | none => int32 (pd.stop-q)
  | some nextPm => int32 (nextPm.addr-q)

def resize (pd : PoolData) (pm : PoolMemory) (size : ℕ) : PoolData :=
  { pd with
    pmList := pd.pmList.map fun x => if x.addr = pm.addr then { x with size } else x
    last :=
      if (nextMemory pm.addr pd.pmList).isNone then pm.addr+awAlign (abi.poolMemory+size)
      else pd.last }

/-- `AwRealloc`. It stops the program unless `size` is larger than the block, and goes wrong when
`AwPalloc` returns `NULL`. -/
def realloc (q size pick : ℕ) : Option (AwPool × Option ℕ) :=
  (p.header abi q).bind fun pm =>
    if size ≤ pm.size then none
    else if poolLargeSize < pm.size then
      match p.pallocLarge abi size pick with
      | (p', none) => some (p', none)
      | (p', some newP) =>
        (p'.copy newP q pm.size).bind fun p'' => (p''.freeLarge pm).map (·, some newP)
    else if poolLargeSize < size then
      match p.pallocLarge abi size pick with
      | (p', none) => some (p', none)
      | (p', some newP) =>
        (p'.copy newP q pm.size).bind fun p'' => (p''.pfree abi q).map (·, some newP)
    else
      (p.pdList.find? fun pd => pm.owner = some pd.addr).bind fun pd =>
        if size ≤ freeSize pd pm q then
          some (p.modify pd.addr fun pd => resize abi pd pm size, some q)
        else
          match p.palloc abi size pick with
          | some (p', some newP) =>
            (p'.copy newP q pm.size).bind fun p'' => (p''.pfree abi q).map (·, some newP)
          | _ => none

end

end AwPool

structure PoolWorld where
  pool : AwPool
  live : List Block

inductive PoolCall
  | palloc (size pick : ℕ)
  | realloc (q size pick : ℕ)
  | pfree (q : ℕ)
  | store (x : ℕ) (byte : UInt8)

namespace PoolWorld

variable (abi : Abi)

def create (a : ℕ) (mem : ℕ → UInt8) : PoolWorld where
  pool := .create abi a mem
  live := []

def step (w : PoolWorld) : PoolCall → Option PoolWorld
  | .palloc size pick =>
    (w.pool.palloc abi size pick).map fun (pool, ret) =>
      { pool, live := ret.toList.map (⟨·,size⟩) ++ w.live }
  | .realloc q size pick =>
    (w.pool.realloc abi q size pick).map fun (pool, ret) =>
      match ret with
      | none => { w with pool }
      | some newP => { pool, live := ⟨newP,size⟩ :: w.live.filter fun b => b.addr ≠ q }
  | .pfree q =>
    (w.pool.pfree abi q).map fun pool =>
      { pool, live := w.live.filter fun b => b.addr ≠ q }
  | .store x byte =>
    some { w with pool := { w.pool with mem := Function.update w.pool.mem x byte } }

end PoolWorld

end TinaPackage.Pool
