import TinaPackage.AwPoolLayout

/-! Runs of the memory pool (`base/AwPool.c`): its user allocates blocks, writes to them, lets them
grow and gives them back. -/
namespace TinaPackage.Pool
open List PoolMemory PoolWorld

section
variable (abi : Abi)

def PoolMemory.lent (pm : PoolMemory) : Block := ⟨pm.pointer abi,pm.size⟩

def withHeader (b : Block) : Block := ⟨b.addr-abi.poolMemory,abi.poolMemory+b.size⟩

def PoolData.holds (pd : PoolData) (b : Block) : Bool :=
  pd.addr+abi.poolData ≤ (withHeader abi b).addr ∧ b.addr+b.size ≤ pd.stop

theorem withHeader_lent (pm : PoolMemory) : withHeader abi (pm.lent abi) = pm.block abi := by
  rw [withHeader,lent,pointer,block,Nat.add_sub_cancel]

end

variable {abi : Abi} {p : AwPool} {old young : List (ℕ × ℤ)}

namespace PoolOk

section
variable (h : PoolOk abi p old young) {pd : PoolData} (hpd : pd ∈ p.pdList)
include h hpd

theorem holds_iff {pm : PoolMemory} (hpm : pm ∈ p.memories) :
    pd.holds abi (pm.lent abi) = true ↔ pm ∈ pd.pmList := by
  rw [PoolData.holds,withHeader_lent,decide_eq_true_eq]
  constructor
  · rintro ⟨hlo,hhi⟩
    by_contra hnot
    have hlo' : pd.addr+abi.poolData ≤ pm.addr := hlo
    have hhi' : pm.addr+abi.poolMemory+pm.size ≤ pd.addr+poolBlockSize := hhi
    have hpos := h.size_pos hpm
    -- the block lies in another block of the heap
    have hother : ∃ b, pd.block.Apart b ∧ b.addr ≤ pm.addr ∧
        pm.addr+(abi.poolMemory+pm.size) ≤ b.addr+b.size := by
      obtain ⟨hregions,-,hcross⟩ := pairwise_append.mp h.apart
      rcases mem_append.mp hpm with hin | hin
      · obtain ⟨pd',hpd',hin⟩ := mem_flatMap.mp hin
        have hne : pd ≠ pd' := by
          rintro rfl
          exact hnot hin
        have hbounds := (h.regions pd' hpd').inside hin
        exact ⟨pd'.block,(pairwise_map.mp hregions).forall hpd hpd' hne,
          Nat.le_trans (Nat.le_add_right ..) hbounds.1,hbounds.2⟩
      · exact ⟨pm.block abi,hcross _ (mem_map_of_mem hpd) _ (mem_map_of_mem hin),
          Nat.le_refl _,Nat.le_refl _⟩
    obtain ⟨b,hapart,hblo,hbhi⟩ := hother
    simp only [Block.Apart,PoolData.block] at hapart
    omega
  · intro hin
    have hbounds := (h.regions pd hpd).inside hin
    refine ⟨hbounds.1,?_⟩
    show pm.addr+abi.poolMemory+pm.size ≤ pd.stop
    omega

theorem countP_holds : (p.memories.map (lent abi)).countP (pd.holds abi) = pd.pmList.length := by
  have hnodup : p.memories.Nodup := .of_map _ h.memory_addr_nodup
  have hsub := pmList_sublist hpd
  have hperm : (p.memories.filter (pd.holds abi ∘ lent abi)).Perm pd.pmList := by
    rw [perm_ext_iff_of_nodup (hnodup.filter _) (hnodup.sublist hsub)]
    intro x
    rw [mem_filter,Function.comp_apply]
    exact ⟨fun hx => (h.holds_iff hpd hx.1).mp hx.2,
      fun hx => ⟨hsub.mem hx,(h.holds_iff hpd (hsub.mem hx)).mpr hx⟩⟩
  rw [countP_map,countP_eq_length_filter,hperm.length_eq]

end

end PoolOk

namespace PoolWorld

section
variable (abi : Abi)

/-- The blocks of the user with their headers are apart, each lies in a region of the pool or is a
block of the heap, and the references of a region are its blocks, and one more from the current
region on. -/
structure Sound (w : PoolWorld) : Prop where
  disjoint : (w.live.map (withHeader abi)).Pairwise Block.Apart
  inside : ∀ b ∈ w.live, (∃ pd ∈ w.pool.pdList, pd.holds abi b = true) ∨
    withHeader abi b ∈ w.pool.largeList.map (block abi)
  current : w.pool.active.head?.map PoolData.addr = some w.pool.current
  passed_refs : ∀ pd ∈ w.pool.passed, pd.ref = w.live.countP (pd.holds abi)
  active_refs : ∀ pd ∈ w.pool.active, pd.ref = w.live.countP (pd.holds abi)+1

/-- The user frees and reallocates blocks that it has, the latter to a larger size, and writes to
its blocks only. Memory for a block that is moved is available. -/
def Allowed (w : PoolWorld) : PoolCall → Prop
  | .palloc size _ => Servable abi size
  | .realloc q size pick =>
    (∃ b ∈ w.live, b.addr = q ∧ b.size < size) ∧ Servable abi size ∧
      (size ≤ poolLargeSize → (malloc (w.pool.heap abi) pick poolBlockSize).isSome)
  | .pfree q => ∃ b ∈ w.live, b.addr = q
  | .store x _ => ∃ b ∈ w.live, b.addr ≤ x ∧ x < b.addr+b.size

instance (w : PoolWorld) (call : PoolCall) : Decidable (w.Allowed abi call) := by
  cases call <;> unfold Allowed <;> infer_instance

def Inv (w : PoolWorld) : Prop :=
  ∃ old young, PoolOk abi w.pool old young ∧ w.live.Perm (w.pool.memories.map (lent abi))

end

variable {w : PoolWorld}

theorem Inv.sound (h : w.Inv abi) : w.Sound abi := by
  obtain ⟨old,young,hok,hlive⟩ := h
  obtain ⟨before,first,rest,hsplit,hpassed,hactive,-,-,hcurrent,hbefore,hfrom⟩ :=
    hok.lists
  have hcount {pd : PoolData} (hpd : pd ∈ w.pool.pdList) :
      w.live.countP (pd.holds abi) = pd.pmList.length := by
    rw [hlive.countP_eq]
    exact hok.countP_holds hpd
  have hmem {pd : PoolData} (hpd : pd ∈ before ++ first :: rest) : pd ∈ w.pool.pdList :=
    hsplit ▸ hpd
  refine ⟨?_,?_,?_,?_,?_⟩
  · have hsymm : ∀ {x y : Block}, x.Apart y → y.Apart x := fun hxy => Or.symm hxy
    rw [(hlive.map _).pairwise_iff hsymm,map_map]
    have hmap : withHeader abi ∘ lent abi = block abi :=
      funext fun pm => withHeader_lent abi pm
    rw [hmap]
    exact hok.memories_apart
  · intro b hb
    obtain ⟨pm,hpm,rfl⟩ := mem_map.mp (hlive.mem_iff.mp hb)
    rw [withHeader_lent]
    rcases mem_append.mp hpm with hin | hin
    · obtain ⟨pd,hpd,hin⟩ := mem_flatMap.mp hin
      exact .inl ⟨pd,hpd,(hok.holds_iff hpd hpm).mpr hin⟩
    · exact .inr (mem_map_of_mem hin)
  · rw [hactive]
    exact congrArg some hcurrent
  · intro pd hpd
    rw [hpassed] at hpd
    rw [hcount (hmem (mem_append_left _ hpd)),hbefore pd hpd]
  · intro pd hpd
    rw [hactive] at hpd
    rw [hcount (hmem (mem_append_right _ hpd)),hfrom pd hpd]

theorem memory_of_live (hlive : w.live.Perm (w.pool.memories.map (lent abi))) {b : Block}
    (hb : b ∈ w.live) : ∃ pm ∈ w.pool.memories, pm.pointer abi = b.addr ∧ pm.size = b.size := by
  obtain ⟨pm,hpm,rfl⟩ := mem_map.mp (hlive.mem_iff.mp hb)
  exact ⟨pm,hpm,rfl,rfl⟩

theorem Inv.live_unique (h : w.Inv abi) {b b' : Block} (hb : b ∈ w.live) (hb' : b' ∈ w.live)
    (haddr : b.addr = b'.addr) : b = b' := by
  obtain ⟨old,young,hok,hlive⟩ := h
  obtain ⟨pm,hpm,rfl⟩ := mem_map.mp (hlive.mem_iff.mp hb)
  obtain ⟨pm',hpm',rfl⟩ := mem_map.mp (hlive.mem_iff.mp hb')
  rw [hok.memory_unique hpm hpm' (Nat.add_right_cancel haddr)]

theorem live_filter (h : PoolOk abi p old young) {live : List Block}
    (hlive : live.Perm (p.memories.map (lent abi))) {pm : PoolMemory}
    {others : List PoolMemory} (hperm : p.memories.Perm (pm :: others)) :
    (live.filter fun b => b.addr ≠ pm.pointer abi).Perm (others.map (lent abi)) := by
  have hnot := (nodup_cons.mp ((hperm.map addr).nodup_iff.mp h.memory_addr_nodup)).1
  have hother : ∀ b ∈ others.map (lent abi), decide (b.addr ≠ pm.pointer abi) = true :=
    forall_mem_map.mpr fun x hx => decide_eq_true fun he =>
      hnot (Nat.add_right_cancel he ▸ mem_map_of_mem hx)
  have hfilter := (hlive.trans (hperm.map _)).filter fun b => b.addr ≠ pm.pointer abi
  rwa [map_cons,filter_cons_of_neg (by simp [lent]),filter_eq_self.mpr hother] at hfilter

theorem Inv.realloc (h : w.Inv abi) {q size pick : ℕ} (hg : w.Allowed abi (.realloc q size pick)) :
    w.pool.realloc abi q size pick = some (w.pool, none) ∨ ∃ b ∈ w.live, b.addr = q ∧ ∃ pool newP,
        w.pool.realloc abi q size pick = some (pool, some newP) ∧
        (⟨pool,⟨newP,size⟩ :: w.live.filter fun b => b.addr ≠ q⟩ : PoolWorld).Inv abi ∧
        ∀ i < b.size, pool.mem (newP+i) = w.pool.mem (q+i) := by
  obtain ⟨old,young,hok,hlive⟩ := h
  obtain ⟨⟨b,hb,rfl,hgrow⟩,hsize,hgrant⟩ := hg
  obtain ⟨pm,hpm,hptr,hpmsize⟩ := memory_of_live hlive hb
  rw [← hptr]
  rw [← hpmsize] at hgrow
  rcases hok.realloc hpm hsize hgrow hgrant with hnone | ⟨pool,pm',hre,hreal⟩
  · exact .inl hnone
  · obtain ⟨hsize',⟨old',young',hok'⟩,⟨others,hperm,hperm'⟩,hbytes⟩ := hreal
    refine .inr ⟨b,hb,hptr.symm,pool,_,hre,⟨old',young',hok',?_⟩,?_⟩
    · refine List.Perm.trans ?_ (hperm'.map _).symm
      rw [map_cons,lent,hsize']
      exact (live_filter hok hlive hperm).cons _
    · rw [← hpmsize]
      exact hbytes

theorem Inv.step (h : w.Inv abi) {call : PoolCall} (hg : w.Allowed abi call) :
    ∃ w', w.step abi call = some w' ∧ w'.Inv abi := by
  cases call with
  | palloc size pick =>
    obtain ⟨old,young,hok,hlive⟩ := h
    rcases hok.palloc hg pick with
      ⟨hnone,-⟩ | ⟨pool,pm,old',young',halloc,rfl,hok',hperm,-⟩
    · exact ⟨_,by rw [PoolWorld.step,hnone]; rfl,old,young,hok,hlive⟩
    · refine ⟨_,by rw [PoolWorld.step,halloc]; rfl,old',young',hok',?_⟩
      exact (hlive.cons _).trans (hperm.map (lent abi)).symm
  | realloc q size pick =>
    rcases h.realloc hg with hnone | ⟨b,-,-,pool,newP,hre,hinv,-⟩
    · exact ⟨w,by rw [PoolWorld.step,hnone]; rfl,h⟩
    · exact ⟨_,by rw [PoolWorld.step,hre]; rfl,hinv⟩
  | pfree q =>
    obtain ⟨old,young,hok,hlive⟩ := h
    obtain ⟨b,hb,rfl⟩ := hg
    obtain ⟨pm,hpm,hptr,-⟩ := memory_of_live hlive hb
    obtain ⟨pool,old',hfree,hok',hperm,-⟩ := hok.pfree hpm
    rw [← hptr]
    exact ⟨_,by rw [PoolWorld.step,hfree,Option.map_some],old',young,hok',
      live_filter hok hlive hperm⟩
  | store x byte =>
    obtain ⟨old,young,hok,hlive⟩ := h
    exact ⟨_,rfl,old,young,hok.set_mem _,hlive⟩

theorem create_inv (abi : Abi) (a : ℕ) (mem : ℕ → UInt8) : (create abi a mem).Inv abi := by
  refine ⟨[],[(a, 0)],⟨rfl,rfl,pairwise_singleton ..,?_,?_,?_,?_,?_⟩,List.Perm.refl _⟩
  · exact forall_mem_singleton.mpr (by simp)
  · exact forall_mem_singleton.mpr (newRegion_ok abi a)
  · refine forall_mem_singleton.mpr ?_
    show (1 : ℤ) = 0+if a ∈ [a] then 1 else 0
    simp
  · intro pm hpm
    cases hpm
  · exact pairwise_singleton ..

end PoolWorld

/-- In every run in which sizes are requested that the functions agree on, no call goes wrong, the
blocks of the user are apart and lie where they were carved from, every region counts its blocks,
and `AwRealloc` keeps the bytes of the block. -/
theorem pool_sound (abi : Abi) (a : ℕ) (mem : ℕ → UInt8) (calls : List PoolCall)
    (hg : Guarded (step abi) (Allowed abi) (.create abi a mem) calls) :
    ∃ w, runSteps (step abi) (.create abi a mem) calls = some w ∧ w.Sound abi ∧
      ∀ q size pick, w.Allowed abi (.realloc q size pick) →
        ∃ pool ret, w.pool.realloc abi q size pick = some (pool, ret) ∧
          ∀ b ∈ w.live, b.addr = q → ∀ newP ∈ ret, ∀ i < min b.size size,
            pool.mem (newP+i) = w.pool.mem (q+i) := by
  obtain ⟨w,hrun,hinv⟩ := runSteps_invariant (Inv abi) (fun _ _ hi ha => hi.step ha)
    calls _ (create_inv abi a mem) hg
  refine ⟨w,hrun,hinv.sound,fun q size pick hallowed => ?_⟩
  rcases hinv.realloc hallowed with hnone | ⟨b,hb,hq,pool,newP,hre,-,hbytes⟩
  · refine ⟨w.pool,none,hnone,?_⟩
    intro b hb hq newP hnew
    cases hnew
  · refine ⟨pool,some newP,hre,?_⟩
    intro b' hb' hq' newP' hnew i hi
    cases hnew
    rw [hinv.live_unique hb' hb (hq'.trans hq.symm)] at hi
    exact hbytes i (by omega)

theorem pool_sound_of_four_calls :
    ∃ w, runSteps (step .lp64) (.create .lp64 65536 fun _ => 0)
        [.palloc 100 1,.store 65700 7,.realloc 65648 200 131072,.palloc 5000 262144,
          .pfree 65648] = some w ∧ w.Sound .lp64 := by
  obtain ⟨w,hrun,hsound,-⟩ := pool_sound .lp64 65536 (fun _ => 0)
    [.palloc 100 1,.store 65700 7,.realloc 65648 200 131072,.palloc 5000 262144,.pfree 65648]
    (by decide +kernel)
  exact ⟨w,hrun,hsound⟩

/-- A region behind the current one has a reference for the pool, too. -/
theorem region_behind_current_counted :
    ∃ w ∈ runSteps (step .lp64) (.create .lp64 65536 fun _ => 0)
        [.palloc 4000 1,.palloc 4000 1,.palloc 4000 131072],
      ∃ pd ∈ w.pool.pdList, pd.addr ≠ w.pool.current ∧ w.live.countP (pd.holds .lp64) = 1 ∧
        pd.ref = 2 := by
  decide +kernel

end TinaPackage.Pool
