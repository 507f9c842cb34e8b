import TinaPackage.AwPoolModel

/-! Trees of pools (`base/AwPool.c`) and `AwPoolDestroy`. A pool is linked into the child list of
its father through a node, which `CdxListDel` leaves with two wild pointers. -/
namespace TinaPackage.Pool
open List Function Option

/-- `father` has the list that the node of the pool is in, `none` if its pointers are wild. -/
structure PoolNode where
  childList : List ℕ
  father : Option ℕ

/-- `freed` are the regions that were freed, each with its pool. -/
@[ext]
structure PoolTree where
  gGolbalPool : ℕ
  nodes : ℕ → Option PoolNode
  freed : List (ℕ × ℕ)

/-- One reference is dropped for each block. It goes wrong if that frees the region. -/
def decRefs : ℕ → ℤ → Option ℤ
  | 0, ref => some ref
  | n + 1, ref => if ref-1 = 0 then none else decRefs n (ref-1)

/-- Whether a region is freed. The program stops unless one reference is left at the end. -/
def releases (pd : PoolData) : Bool :=
  let ref := if pd.failed > 5 then pd.ref+1 else pd.ref
  (if ref ≠ 1 then decRefs pd.pmList.length ref else some ref) = some 1

def AwPool.regions (p : AwPool) : List ℕ := p.largeList.map (·.addr) ++ p.pdList.map (·.addr)

namespace PoolTree
variable (pools : ℕ → AwPool) (t : PoolTree)

/-- The global pool, which is created first and is in no list. -/
def init (global : ℕ) : PoolTree where
  gGolbalPool := global
  nodes := update (fun _ => none) global (some ⟨[],none⟩)
  freed := []

def put (a : ℕ) (n : Option PoolNode) : PoolTree := { t with nodes := update t.nodes a n }

/-- `AwPoolCreate(father)`, where the new pool is at a free address `a`. -/
def create : Option ℕ × ℕ → Option PoolTree
  | (father, a) =>
    let f := father.getD t.gGolbalPool
    (t.nodes f).bind fun m =>
      if t.nodes a ≠ none then none
      else some ((t.put f (some { m with childList := a :: m.childList })).put a (some ⟨[],some f⟩))

/-- `CdxListDel(&pool->node)` -/
def del (a : ℕ) : Option PoolTree :=
  (t.nodes a).bind fun n => n.father.bind fun f => (t.nodes f).map fun m =>
    (t.put f (some { m with childList := m.childList.erase a })).put a
      (some { n with father := none })

/-- `AwPoolDestroy` behind the loop over the children; `pools` has the memory of the pools. -/
def finish (a : ℕ) : Option PoolTree :=
  (if a ≠ t.gGolbalPool then t.del a else some t).bind fun t =>
    if (pools a).pdList.all releases then
      some { t.put a none with freed := t.freed ++ (pools a).regions.map (a,·) }
    else none

/-- `AwPoolDestroy`, with a bound on the depth of the calls. -/
def destroy : ℕ → PoolTree → ℕ → Option PoolTree
  | 0, _, _ => none
  | depth + 1, t, a => (t.nodes a).bind fun n =>
    (n.childList.foldlM (fun (t : PoolTree) c => (t.del c).bind fun t => destroy depth t c) t).bind
      (finish pools · a)

def Below : ℕ → ℕ → Prop :=
  Relation.ReflTransGen fun f c => ∃ n, t.nodes f = some n ∧ c ∈ n.childList

/-- The pools below `a` are gone, their regions were freed once, and the other pools are as before,
with child lists that `a` is not in. -/
structure Destroyed (a : ℕ) (t' : PoolTree) : Prop where
  gone : ∀ x, t.Below a x → t'.nodes x = none
  freed : ∀ x, t.Below a x →
    t'.freed.filter (·.1 = x) = t.freed.filter (·.1 = x) ++ (pools x).regions.map (x,·)
  kept : ∀ x, ¬t.Below a x → t'.nodes x = (t.nodes x).map fun n =>
    { n with childList := n.childList.erase a }
  siblings : ∀ x n, t'.nodes x = some n → a ∉ n.childList

structure WellFormed : Prop where
  nodup : ∀ f m, t.nodes f = some m → m.childList.Nodup
  child : ∀ f m, t.nodes f = some m → ∀ c ∈ m.childList, ∃ n, t.nodes c = some n ∧ n.father = some f
  father : ∀ c n, t.nodes c = some n → c ≠ t.gGolbalPool →
    ∃ f m, f ≠ c ∧ n.father = some f ∧ t.nodes f = some m
  global : ∃ n, t.nodes t.gGolbalPool = some n ∧ n.father = none

end PoolTree

/-- The references to a region are those of the pool and of its blocks, or that of the pool only. -/
def CountOk (pd : PoolData) : Prop :=
  let ref := if pd.failed > 5 then pd.ref+1 else pd.ref
  ref = 1 ∨ ref = pd.pmList.length+1

theorem decRefs_eq_one (n : ℕ) (ref : ℤ) : decRefs n ref = some 1 ↔ ref = n+1 := by
  induction n generalizing ref with
  | zero => simp [decRefs]
  | succ n ih =>
    rw [decRefs]
    split
    · simp only [reduceCtorEq,false_iff]
      omega
    · rw [ih]
      omega

theorem releases_iff (pd : PoolData) : releases pd = true ↔ CountOk pd := by
  simp only [releases,CountOk,decide_eq_true_eq]
  generalize (if pd.failed > 5 then pd.ref+1 else pd.ref) = ref
  by_cases h : ref = 1
  · simp [h]
  · simp [h,decRefs_eq_one]

namespace PoolTree
variable {pools : ℕ → AwPool} {t t' : PoolTree} {a : ℕ} {n : PoolNode}

@[grind =]
theorem put_gGolbalPool (a : ℕ) (n : Option PoolNode) :
    (t.put a n).gGolbalPool = t.gGolbalPool := rfl

@[grind =]
theorem put_nodes (a : ℕ) (n : Option PoolNode) (x : ℕ) :
    (t.put a n).nodes x = if x = a then n else t.nodes x := update_apply _ _ _ _

theorem WellFormed.init (global : ℕ) : (init global).WellFormed := by
  have hall : ∀ f m, (PoolTree.init global).nodes f = some m → f = global ∧ m = ⟨[],none⟩ := by
    intro f m hm
    simp only [PoolTree.init,update_apply] at hm
    grind
  refine ⟨?_,?_,?_,⟨[],none⟩,by simp [PoolTree.init],rfl⟩
  · intro f m hm
    simp [hall f m hm]
  · intro f m hm
    simp [hall f m hm]
  · intro f m hm hne
    exact absurd (hall f m hm).1 hne

theorem WellFormed.create (h : t.WellFormed) {call : Option ℕ × ℕ} (hs : t.create call = some t') :
    t'.WellFormed := by
  obtain ⟨hnodup,hchild,hfather,hglobal⟩ := h
  obtain ⟨father,a⟩ := call
  obtain ⟨m,hm,hs⟩ := bind_eq_some_iff.mp hs
  obtain ⟨hfree,hs⟩ := ite_none_left_eq_some.mp hs
  generalize father.getD t.gGolbalPool = f at hm hs
  have hnew : a ∉ m.childList := fun hmem => by
    obtain ⟨n,hn,-⟩ := hchild f m hm a hmem
    exact hfree (hn ▸ some_ne_none n)
  cases hs
  constructor
  · grind
  · grind
  · intro c n hn hc
    specialize hfather c
    grind
  · grind

theorem del_eq_some (h : t.del a = some t') : t'.gGolbalPool = t.gGolbalPool ∧
    (∀ f m, t'.nodes f = some m → ∀ c ∈ m.childList, ∃ g m, t.nodes g = some m ∧ c ∈ m.childList) ∧
      ∃ n, t'.nodes a = some n ∧ n.father = none := by
  obtain ⟨n,hn,h⟩ := bind_eq_some_iff.mp h
  obtain ⟨f,-,h⟩ := bind_eq_some_iff.mp h
  obtain ⟨m,hm,rfl⟩ := map_eq_some_iff.mp h
  refine ⟨rfl,?_,_,update_self _ _ _,rfl⟩
  grind [mem_of_mem_erase]

/-- A pool whose node is wild cannot be destroyed, and so a pool with a child cannot: the child is
taken out of the list twice. -/
theorem destroy_eq_none (depth : ℕ)
    (hroot : ∀ f m, t.nodes f = some m → t.gGolbalPool ∉ m.childList) (hn : t.nodes a = some n)
    (h : n.father = none ∧ a ≠ t.gGolbalPool ∨ n.childList ≠ []) :
    destroy pools depth t a = none := by
  induction depth generalizing t a n with
  | zero => rfl
  | succ depth ih =>
    rw [destroy,hn,bind_some]
    cases hc : n.childList with
    | nil =>
      obtain ⟨hf,ha⟩ := h.resolve_right (not_not.mpr hc)
      simp [finish,ha,del,hn,hf]
    | cons c cs =>
      have hfirst : ((t.del c).bind fun t => destroy pools depth t c) = none := by
        cases hdel : t.del c with
        | none => rfl
        | some t' =>
          obtain ⟨hglobal,hsub,n',hn',hf⟩ := del_eq_some hdel
          apply ih _ hn' (.inl ⟨hf,?_⟩)
          · intro f m hm hmem
            obtain ⟨g,m₀,hm₀,hmem⟩ := hsub f m hm _ hmem
            exact hroot g m₀ hm₀ (hglobal ▸ hmem)
          · rintro rfl
            exact hroot a n hn (by rw [hc,hglobal]; exact mem_cons_self)
      rw [foldlM_cons,hfirst]
      rfl

theorem WellFormed.root (h : t.WellFormed) (f : ℕ) (m : PoolNode) (hm : t.nodes f = some m) :
    t.gGolbalPool ∉ m.childList := by
  intro hmem
  obtain ⟨n,hn,hf⟩ := h.child f m hm _ hmem
  obtain ⟨n',hn',hf'⟩ := h.global
  cases hn.symm.trans hn'
  cases hf.symm.trans hf'

theorem wellFormed_of_run {global : ℕ} {calls : List (Option ℕ × ℕ)}
    (hrun : runSteps create (init global) calls = some t) : t.WellFormed :=
  runSteps_preserves WellFormed (fun _ _ _ h hs => h.create hs) calls _ t (.init global) hrun

theorem WellFormed.finish (h : t.WellFormed) (hn : t.nodes a = some n) :
    finish pools t a = if (pools a).pdList.all releases then some { t with
      nodes := fun x => if x = a then none else (t.nodes x).map fun m =>
        { m with childList := m.childList.erase a }
      freed := t.freed ++ (pools a).regions.map (a,·) } else none := by
  have hrest : ∀ x, n.father ≠ some x → t.nodes x = (t.nodes x).map fun m =>
      { m with childList := m.childList.erase a } := by
    intro x hx
    cases hm : t.nodes x with
    | none => rfl
    | some m =>
      have hnot : a ∉ m.childList := by
        intro hmem
        obtain ⟨n',hn',hf⟩ := h.child x m hm a hmem
        cases hn.symm.trans hn'
        exact hx hf
      rw [map_some,erase_of_not_mem hnot]
  by_cases ha : a = t.gGolbalPool
  · obtain ⟨n',hn',hf⟩ := h.global
    cases hn.symm.trans (ha ▸ hn')
    rw [PoolTree.finish,if_neg (not_not.mpr ha),bind_some]
    congr 2
    ext1
    · rfl
    · funext x
      exact (put_nodes ..).trans (if_congr Iff.rfl rfl (hrest x (by simp [hf])))
    · rfl
  · obtain ⟨f,m,hfa,hf,hm⟩ := h.father a n hn ha
    rw [PoolTree.finish,if_pos ha,del,hn,bind_some,hf,bind_some,hm,map_some,bind_some]
    congr 2
    ext1
    · rfl
    · funext x
      grind
    · rfl

/-- A pool is destroyed as it should be if and only if it has no child, and the references to its
regions are in order. -/
theorem destroy_tree_iff {global : ℕ} {calls : List (Option ℕ × ℕ)}
    (hrun : runSteps create (init global) calls = some t) (hn : t.nodes a = some n) :
    (∃ depth t', destroy pools depth t a = some t' ∧ Destroyed pools t a t') ↔
      n.childList = [] ∧ ∀ pd ∈ (pools a).pdList, CountOk pd := by
  have h := wellFormed_of_run hrun
  have hleaf : n.childList = [] → ∀ depth, destroy pools (depth+1) t a = finish pools t a := by
    intro hc depth
    rw [destroy,hn,bind_some,hc]
    rfl
  constructor
  · rintro ⟨depth,t',hd,-⟩
    have hc : n.childList = [] := by
      by_contra hc
      rw [destroy_eq_none depth h.root hn (.inr hc)] at hd
      cases hd
    cases depth with
    | zero => cases hd
    | succ depth =>
      rw [hleaf hc,h.finish hn] at hd
      obtain ⟨hall,-⟩ := ite_none_right_eq_some.mp hd
      exact ⟨hc,fun pd hpd => (releases_iff pd).mp (all_eq_true.mp hall pd hpd)⟩
  · rintro ⟨hc,hcounts⟩
    have hall : (pools a).pdList.all releases = true :=
      all_eq_true.mpr fun pd hpd => (releases_iff pd).mpr (hcounts pd hpd)
    refine ⟨1,_,by rw [hleaf hc,h.finish hn,if_pos hall],?_⟩
    have hbelow : ∀ x, t.Below a x ↔ x = a := by
      intro x
      constructor
      · intro hx
        obtain rfl | ⟨c,⟨n',hn',hmem⟩,-⟩ := hx.cases_head
        · rfl
        · cases hn.symm.trans hn'
          rw [hc] at hmem
          cases hmem
      · rintro rfl
        exact .refl
    constructor
    · intro x hx
      exact if_pos ((hbelow x).mp hx)
    · intro x hx
      obtain rfl := (hbelow x).mp hx
      simp
    · intro x hx
      exact if_neg fun he => hx ((hbelow x).mpr he)
    · intro x m hm
      obtain ⟨-,hm⟩ := ite_none_left_eq_some.mp hm
      obtain ⟨m₀,hm₀,rfl⟩ := map_eq_some_iff.mp hm
      exact (h.nodup x m₀ hm₀).not_mem_erase

def newPool (_ : ℕ) : AwPool := .create .lp64 4096 fun _ => 0

def usedPool (a : ℕ) : AwPool :=
  { newPool a with pdList := [((newRegion .lp64 4096).carve 24 48).carve 8 32] }

/-- A pool that has no child, but blocks and a sibling. -/
theorem leaf_destroyed : ∃ t,
    runSteps create (init 0) [(none, 1),(none, 2),(some 2, 3),(some 2, 4)] = some t ∧
      ∃ depth t', destroy usedPool depth t 3 = some t' ∧ Destroyed usedPool t 3 t' := by
  refine ⟨_,rfl,(destroy_tree_iff (n := ⟨[],some 2⟩)
    (show runSteps create (init 0) [(none, 1),(none, 2),(some 2, 3),(some 2, 4)] = some _ from rfl)
    rfl).mpr ⟨rfl,?_⟩⟩
  simp [usedPool,newRegion,PoolData.carve,CountOk]

/-- A pool that has a child is never destroyed. -/
theorem parent_not_destroyed : ∃ t, runSteps create (init 0) [(none, 1),(some 1, 2)] = some t ∧
    ∀ depth, destroy newPool depth t 1 = none := by
  refine ⟨_,rfl,fun depth => destroy_eq_none depth ?_ rfl (.inr (cons_ne_nil _ _))⟩
  exact (wellFormed_of_run
    (show runSteps create (init 0) [(none, 1),(some 1, 2)] = some _ from rfl)).root

end PoolTree

end TinaPackage.Pool
