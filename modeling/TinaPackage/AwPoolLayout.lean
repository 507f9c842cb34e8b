import TinaPackage.AwPoolModel
import TinaPackage.Collections

/-! How the pool (`base/AwPool.c`) lays out its regions and blocks, and that each of its functions
keeps the layout. -/
namespace TinaPackage.Pool
open List PoolData Nat AwPool

theorem le_awAlign (d : ℕ) : d ≤ awAlign d := by
  rw [awAlign]
  omega

theorem dvd_awAlign (d : ℕ) : 8 ∣ awAlign d := dvd_mul_left ..

theorem awAlign_le {d n : ℕ} (hd : d ≤ n) (hn : 8 ∣ n) : awAlign d ≤ n := by
  rw [awAlign]
  omega

theorem awAlign_self {d : ℕ} (hd : 8 ∣ d) : awAlign d = d := by
  rw [awAlign]
  omega

section
variable (abi : Abi)

/-- The blocks lie one behind the other between the header of the region and `last`. -/
structure RegionOk (pd : PoolData) : Prop where
  packed : Block.Packed (pd.addr+abi.poolData) (pd.pmList.map (PoolMemory.block abi)) pd.last
  fits : pd.last ≤ pd.stop
  aligned : 8 ∣ pd.last-pd.addr
  memories : ∀ pm ∈ pd.pmList,
    pm.owner = some pd.addr ∧ 8 ∣ pm.addr-pd.addr ∧ 0 < pm.size ∧ pm.size ≤ poolLargeSize

def PoolData.age (pd : PoolData) : ℕ × ℤ := (pd.addr, pd.failed)

/-- The regions of `old` are no longer tried, those of `young` are. -/
structure PoolOk (p : AwPool) (old young : List (ℕ × ℤ)) : Prop where
  ages : p.pdList.map age = old ++ young
  current : young.head?.map Prod.fst = some p.current
  order : young.Pairwise fun x y => y.2 < x.2
  tried : ∀ x ∈ young, 0 ≤ x.2 ∧ x.2 ≤ 5
  regions : ∀ pd ∈ p.pdList, RegionOk abi pd
  refs : ∀ pd ∈ p.pdList, pd.ref = pd.pmList.length+if pd.addr ∈ young.map Prod.fst then 1 else 0
  large : ∀ pm ∈ p.largeList, pm.owner = none ∧ poolLargeSize < pm.size
  apart : (p.heap abi).Pairwise Block.Apart

end

/-- A size for which the functions agree on whether the block is a large one. -/
def Servable (abi : Abi) (size : ℕ) : Prop :=
  0 < size ∧ awAlign (abi.poolMemory+size) ≤ intMax ∧
    (size ≤ poolLargeSize → awAlign (abi.poolMemory+size) ≤ poolLargeSize)

instance (abi : Abi) (size : ℕ) : Decidable (Servable abi size) := by
  unfold Servable
  infer_instance

variable {size : ℕ}

theorem Servable.pmSize {abi : Abi} (h : Servable abi size) :
    pmSize abi size = awAlign (abi.poolMemory+size) :=
  int32_of_range (by omega) h.2.1

def PoolData.bump (pd : PoolData) : PoolData := { pd with failed := pd.failed+1 }

variable {pds : List PoolData}

theorem passRegions_of_le (a : ℕ) (h : ∀ pd ∈ pds, pd.failed ≤ 4) :
    passRegions a pds = (pds.map bump, none) := by
  induction pds with
  | nil => rfl
  | cons pd rest ih =>
    have hpd := h pd (mem_cons_self ..)
    rw [passRegions,ih fun x hx => h x (mem_cons_of_mem _ hx)]
    simp only [if_neg (show ¬4 < pd.failed by omega)]
    rfl

variable {abi : Abi} {p : AwPool} {old young : List (ℕ × ℤ)} {pd : PoolData} {pm : PoolMemory}

theorem RegionOk.carve (h : RegionOk abi pd) (hpos : 0 < size) (hsize : size ≤ poolLargeSize)
    (hroom : pd.last+awAlign (abi.poolMemory+size) ≤ pd.stop) :
    RegionOk abi (pd.carve size (awAlign (abi.poolMemory+size))) := by
  have hle := h.packed.le
  have haligned := h.aligned
  have hlast : (pd.carve size (awAlign (abi.poolMemory+size))).last =
      pd.last+awAlign (abi.poolMemory+size) := by
    show ((pd.last : ℤ)+(awAlign (abi.poolMemory+size) : ℕ)).toNat = _
    omega
  have hup := le_awAlign (abi.poolMemory+size)
  have hdvd := dvd_awAlign (abi.poolMemory+size)
  refine ⟨?_,?_,?_,?_⟩
  · show Block.Packed _ ((pd.pmList ++ [_]).map _) _
    rw [map_append,Block.packed_append]
    exact ⟨pd.last,h.packed,Nat.le_refl _,Nat.add_le_add_left hup _⟩
  · rw [hlast]
    exact hroom
  · show 8 ∣ pd.last+awAlign (abi.poolMemory+size)-pd.addr
    omega
  · exact forall_mem_append.mpr ⟨h.memories,forall_mem_singleton.mpr ⟨rfl,haligned,hpos,hsize⟩⟩

theorem newRegion_ok (abi : Abi) (a : ℕ) : RegionOk abi (newRegion abi a) := by
  have hfits := abi.fits
  have haligned := abi.aligned
  have hlast : (newRegion abi a).last = a+abi.poolData := by
    rw [newRegion,awAlign_self haligned]
  refine ⟨?_,?_,?_,fun pm hpm => by cases hpm⟩
  · rw [hlast]
    exact le_refl _
  · rw [hlast]
    show a+abi.poolData ≤ a+8192
    omega
  · rw [hlast]
    show 8 ∣ a+abi.poolData-a
    omega

theorem RegionOk.inside (h : RegionOk abi pd) (hpm : pm ∈ pd.pmList) :
    pd.addr+abi.poolData ≤ pm.addr ∧ pm.addr+(abi.poolMemory+pm.size) ≤ pd.stop := by
  have hin := h.packed.mem (mem_map_of_mem hpm)
  exact ⟨hin.1,le_trans hin.2 h.fits⟩

theorem modify_eq {before after : List PoolData} (hsplit : p.pdList = before ++ pd :: after)
    (hother : ∀ x ∈ before ++ after, x.addr ≠ pd.addr) (f : PoolData → PoolData) :
    p.modify pd.addr f = { p with pdList := before ++ f pd :: after } := by
  rw [AwPool.modify,hsplit,map_key addr hother]

/-- The regions `gone` and `left` are what the loop over `pds` leaves; those of `left` are still
tried. -/
structure Passed (abi : Abi) (pds gone left : List PoolData) : Prop where
  blocks : ((gone ++ left).map block).Sublist (pds.map block)
  memories : (gone ++ left).flatMap pmList = pds.flatMap pmList
  regions : ∀ pd ∈ gone ++ left, RegionOk abi pd
  gone_refs : ∀ pd ∈ gone, pd.ref = pd.pmList.length
  left_refs : ∀ pd ∈ left, pd.ref = pd.pmList.length+1
  order : left.Pairwise fun x y => y.failed < x.failed
  tried : ∀ pd ∈ left, 0 < pd.failed ∧ pd.failed ≤ 5

theorem RegionOk.bump (h : RegionOk abi pd) : RegionOk abi pd.bump :=
  { h with }

theorem passed_bump (hok : ∀ pd ∈ pds, RegionOk abi pd)
    (hrefs : ∀ pd ∈ pds, pd.ref = pd.pmList.length+1)
    (horder : pds.Pairwise fun x y => y.failed < x.failed)
    (htried : ∀ pd ∈ pds, 0 ≤ pd.failed ∧ pd.failed ≤ 4) :
    Passed abi pds [] (pds.map bump) := by
  refine ⟨?_,?_,?_,(fun pd hpd => by cases hpd), ?_,?_,?_⟩
  · rw [nil_append,map_map]
    exact List.Sublist.refl _
  · rw [nil_append,flatMap_map]
    rfl
  · exact forall_mem_map.mpr fun x hx => (hok x hx).bump
  · exact forall_mem_map.mpr hrefs
  · rw [pairwise_map]
    exact horder.imp fun hxy => Int.add_lt_add_right hxy 1
  · refine forall_mem_map.mpr fun x hx => ?_
    have hx' := htried x hx
    show 0 < x.failed+1 ∧ x.failed+1 ≤ 5
    omega

theorem passRegions_spec (a : ℕ) {first : PoolData} {rest : List PoolData}
    (hok : ∀ pd ∈ first :: rest, RegionOk abi pd)
    (hrefs : ∀ pd ∈ first :: rest, pd.ref = pd.pmList.length+1)
    (horder : (first :: rest).Pairwise fun x y => y.failed < x.failed)
    (htried : ∀ pd ∈ first :: rest, 0 ≤ pd.failed ∧ pd.failed ≤ 5) :
    ∃ gone left currentPd, passRegions a (first :: rest) = (gone ++ left, currentPd) ∧
      Passed abi (first :: rest) gone left ∧
      (left.head?.map addr).getD a = currentPd.getD first.addr := by
  have hfirst := htried first (mem_cons_self ..)
  have hrest : ∀ pd ∈ rest, 0 ≤ pd.failed ∧ pd.failed ≤ 4 := by
    intro pd hpd
    have hlt := (pairwise_cons.mp horder).1 pd hpd
    have hge := htried pd (mem_cons_of_mem _ hpd)
    omega
  by_cases hfour : 4 < first.failed
  · have hbump := passed_bump (fun pd hpd => hok pd (mem_cons_of_mem _ hpd))
      (fun pd hpd => hrefs pd (mem_cons_of_mem _ hpd)) (pairwise_cons.mp horder).2 hrest
    have hpass := passRegions_of_le a fun pd hpd => (hrest pd hpd).2
    have hhead : ((rest.map bump).head?.map addr).getD a = (rest.head?.map addr).getD a := by
      cases rest <;> rfl
    have hlength := hrefs first (mem_cons_self ..)
    by_cases hzero : first.ref-1 = 0
    · -- the region has no block and is released
      have hnil : first.pmList = [] := eq_nil_of_length_eq_zero (by omega)
      refine ⟨[],rest.map bump,some ((rest.head?.map addr).getD a),?_,?_,hhead⟩
      · rw [passRegions,hpass]
        simp only [if_pos hfour,if_pos hzero]
        rfl
      · refine ⟨hbump.blocks.trans (sublist_cons_self ..),?_,hbump.regions,hbump.gone_refs,
          hbump.left_refs,hbump.order,hbump.tried⟩
        rw [hbump.memories,flatMap_cons,hnil,nil_append]
    · refine ⟨[{ first with failed := first.failed+1, ref := first.ref-1 }],
        rest.map bump,some ((rest.head?.map addr).getD a),?_,?_,hhead⟩
      · rw [passRegions,hpass]
        simp only [if_pos hfour,if_neg hzero]
        rfl
      · refine ⟨hbump.blocks.cons_cons first.block,?_,?_,?_,hbump.left_refs,hbump.order,hbump.tried⟩
        · exact congrArg (first.pmList ++ ·) hbump.memories
        · have hregion := hok first (mem_cons_self ..)
          exact forall_mem_cons.mpr ⟨{ hregion with },hbump.regions⟩
        · refine forall_mem_singleton.mpr ?_
          show first.ref-1 = first.pmList.length
          omega
  · have hall : ∀ pd ∈ first :: rest, 0 ≤ pd.failed ∧ pd.failed ≤ 4 :=
      forall_mem_cons.mpr ⟨by omega,hrest⟩
    exact ⟨[],_,none,passRegions_of_le a fun pd hpd => (hall pd hpd).2,
      passed_bump hok hrefs horder hall,rfl⟩

variable {xs ys : List PoolMemory}

theorem nextMemory_eq (hxs : ∀ x ∈ xs, x.addr ≠ pm.addr) :
    nextMemory pm.addr (xs ++ pm :: ys) = ys.head? := by
  induction xs with
  | nil => rw [nil_append,nextMemory,if_pos rfl]
  | cons x xs ih =>
    rw [cons_append,nextMemory,if_neg (hxs x (mem_cons_self ..)),
      ih fun y hy => hxs y (mem_cons_of_mem _ hy)]

theorem RegionOk.resize (h : RegionOk abi pd) (hlist : pd.pmList = xs ++ pm :: ys)
    (hother : ∀ x ∈ xs ++ ys, x.addr ≠ pm.addr) (hgrow : pm.size < size)
    (hsize : size ≤ poolLargeSize) (hroom : size ≤ freeSize pd pm (pm.pointer abi)) :
    AwPool.resize abi pd pm size = { pd with
          pmList := xs ++ { pm with size } :: ys
          last := (AwPool.resize abi pd pm size).last } ∧
      RegionOk abi (AwPool.resize abi pd pm size) := by
  have hin : pm ∈ pd.pmList := by simp [hlist]
  have hxs (x : PoolMemory) (hx : x ∈ xs) := hother x (mem_append_left _ hx)
  have hlist' : (AwPool.resize abi pd pm size).pmList = xs ++ { pm with size } :: ys := by
    rw [AwPool.resize,hlist,map_key PoolMemory.addr hother]
  refine ⟨by rw [← hlist']; rfl,?_⟩
  obtain ⟨howner,haligned,hpos,-⟩ := h.memories pm hin
  have hbounds := h.inside hin
  have hpacked := h.packed
  rw [hlist,map_append,Block.packed_append] at hpacked
  obtain ⟨mid,hbefore,hmid,hafter⟩ := hpacked
  have hmemories := h.memories
  rw [hlist,forall_mem_append,forall_mem_cons] at hmemories
  suffices hlast : Block.Packed (pd.addr+abi.poolData)
      ((xs ++ { pm with size } :: ys).map (PoolMemory.block abi))
      (AwPool.resize abi pd pm size).last ∧
      (AwPool.resize abi pd pm size).last ≤ pd.stop ∧
      8 ∣ (AwPool.resize abi pd pm size).last-pd.addr by
    refine ⟨hlist' ▸ hlast.1,hlast.2.1,hlast.2.2,?_⟩
    rw [hlist',forall_mem_append,forall_mem_cons]
    exact ⟨hmemories.1,⟨howner,haligned,Nat.zero_lt_of_lt hgrow,hsize⟩,hmemories.2.2⟩
  rw [map_append,Block.packed_append]
  have hstop : pd.stop = pd.addr+8192 := rfl
  rw [freeSize,hlist,nextMemory_eq hxs] at hroom
  cases ys with
  | nil =>
    have hlast : (AwPool.resize abi pd pm size).last = pm.addr+awAlign (abi.poolMemory+size) := by
      rw [AwPool.resize,hlist,nextMemory_eq hxs]
      rfl
    have hint : int32 (pd.stop-pm.pointer abi) = pd.stop-pm.pointer abi := by
      refine int32_of_range ?_ ?_ <;> simp only [PoolMemory.pointer,intMax] <;> omega
    simp only [head?_nil,hint] at hroom
    rw [PoolMemory.pointer] at hroom
    -- the region ends at a multiple of the alignment
    have hup : awAlign (abi.poolMemory+size) ≤ pd.stop-pm.addr :=
      awAlign_le (by omega) (by omega)
    have hle := le_awAlign (abi.poolMemory+size)
    have hdvd := dvd_awAlign (abi.poolMemory+size)
    rw [hlast]
    exact ⟨⟨mid,hbefore,hmid,Nat.add_le_add_left hle _⟩,by omega,by omega⟩
  | cons next ys =>
    have hlast : (AwPool.resize abi pd pm size).last = pd.last := by
      rw [AwPool.resize,hlist,nextMemory_eq hxs]
      rfl
    have hin' : next ∈ pd.pmList := by simp [hlist]
    have hnext := h.inside hin'
    have hint : int32 (next.addr-pm.pointer abi) = next.addr-pm.pointer abi := by
      refine int32_of_range ?_ ?_ <;> simp only [PoolMemory.pointer,intMax] <;> omega
    simp only [head?_cons,hint] at hroom
    rw [PoolMemory.pointer] at hroom
    rw [hlast]
    refine ⟨⟨mid,hbefore,hmid,?_,hafter.2⟩,h.fits,h.aligned⟩
    show pm.addr+(abi.poolMemory+size) ≤ next.addr
    omega

theorem pmList_sublist (hpd : pd ∈ p.pdList) : pd.pmList.Sublist p.memories := by
  obtain ⟨before,after,hsplit⟩ := append_of_mem hpd
  rw [AwPool.memories,hsplit,flatMap_append,flatMap_cons,append_assoc,append_assoc]
  exact (sublist_append_left ..).trans (sublist_append_right ..)

namespace PoolOk

variable {pd pd' : PoolData} {pm pm' : PoolMemory} {before after : List PoolData}
  {xs ys : List PoolMemory} {size : ℕ}

section
variable (h : PoolOk abi p old young)
include h

theorem region_unique (hpd : pd ∈ p.pdList) (hpd' : pd' ∈ p.pdList)
    (haddr : pd.addr = pd'.addr) : pd = pd' := by
  have hpairwise : p.pdList.Pairwise fun x y => x.block.Apart y.block :=
    pairwise_map.mp (pairwise_append.mp h.apart).1
  by_contra hne
  exact (hpairwise.forall hpd hpd' hne).addr_ne haddr

theorem addr_nodup : (p.pdList.map addr).Nodup := by
  have hpairwise : p.pdList.Pairwise fun x y => x.block.Apart y.block :=
    pairwise_map.mp (pairwise_append.mp h.apart).1
  rw [List.Nodup,pairwise_map]
  exact hpairwise.imp fun hxy => hxy.addr_ne

theorem owner (hpm : pm ∈ p.memories) (hsize : pm.size ≤ poolLargeSize) :
    ∃ pd ∈ p.pdList, pm ∈ pd.pmList ∧ pm.owner = some pd.addr := by
  rcases mem_append.mp hpm with hpm | hpm
  · obtain ⟨pd,hpd,hin⟩ := mem_flatMap.mp hpm
    exact ⟨pd,hpd,hin,((h.regions pd hpd).memories pm hin).1⟩
  · have hlarge := (h.large pm hpm).2
    omega

theorem memories_apart : (p.memories.map (PoolMemory.block abi)).Pairwise Block.Apart := by
  obtain ⟨hregions,hlarge,hcross⟩ := pairwise_append.mp h.apart
  have hpos {pd : PoolData} (hpd : pd ∈ p.pdList) {pm : PoolMemory} (hpm : pm ∈ pd.pmList) :
      0 < (pm.block abi).size := by
    have hsize := ((h.regions pd hpd).memories pm hpm).2.2.1
    show 0 < abi.poolMemory+pm.size
    omega
  -- a block lies in its region
  have hinside {pd : PoolData} (hpd : pd ∈ p.pdList) {pm : PoolMemory} (hpm : pm ∈ pd.pmList) :
      pd.block.addr ≤ (pm.block abi).addr ∧
        (pm.block abi).addr+(pm.block abi).size ≤ pd.block.addr+pd.block.size := by
    obtain ⟨hlo,hhi⟩ := (h.regions pd hpd).inside hpm
    exact ⟨Nat.le_trans (Nat.le_add_right ..) hlo,hhi⟩
  rw [AwPool.memories,map_append,pairwise_append]
  refine ⟨?_,hlarge,?_⟩
  · rw [map_flatMap,pairwise_flatMap]
    refine ⟨fun pd hpd => (h.regions pd hpd).packed.pairwise ?_,?_⟩
    · intro b hb
      obtain ⟨pm,hpm,rfl⟩ := mem_map.mp hb
      exact hpos hpd hpm
    · have hpairwise := pairwise_map.mp hregions
      refine List.Pairwise.imp_of_mem ?_ hpairwise
      intro pd pd' hpd hpd' hapart b hb b' hb'
      obtain ⟨pm,hpm,rfl⟩ := mem_map.mp hb
      obtain ⟨pm',hpm',rfl⟩ := mem_map.mp hb'
      exact hapart.inside (hinside hpd hpm).1 (hinside hpd hpm).2 (hpos hpd hpm)
        (hinside hpd' hpm').1 (hinside hpd' hpm').2 (hpos hpd' hpm')
  · intro b hb b' hb'
    obtain ⟨pm,hpm,rfl⟩ := mem_map.mp hb
    obtain ⟨pd,hpd,hpm⟩ := mem_flatMap.mp hpm
    obtain ⟨pm',hpm',rfl⟩ := mem_map.mp hb'
    have hsize := (h.large pm' hpm').2
    exact (hcross _ (mem_map_of_mem hpd) _ (mem_map_of_mem hpm')).inside
      (hinside hpd hpm).1 (hinside hpd hpm).2 (hpos hpd hpm) (Nat.le_refl _) (Nat.le_refl _)
      (Nat.lt_of_lt_of_le (Nat.zero_lt_of_lt hsize) (Nat.le_add_left ..))

theorem memory_unique (hpm : pm ∈ p.memories) (hpm' : pm' ∈ p.memories)
    (haddr : pm.addr = pm'.addr) : pm = pm' := by
  by_contra hne
  exact ((pairwise_map.mp h.memories_apart).forall hpm hpm' hne).addr_ne haddr

theorem memory_addr_nodup : (p.memories.map PoolMemory.addr).Nodup := by
  rw [List.Nodup,pairwise_map]
  exact (pairwise_map.mp h.memories_apart).imp fun hxy => hxy.addr_ne

theorem header (hpm : pm ∈ p.memories) : p.header abi (pm.pointer abi) = some pm := by
  cases hfind : p.header abi (pm.pointer abi) with
  | none =>
    have hno := find?_eq_none.mp hfind pm hpm
    simp at hno
  | some pm' =>
    have hmem := mem_of_find?_eq_some hfind
    have hptr : pm'.pointer abi = pm.pointer abi := by simpa using find?_some hfind
    rw [h.memory_unique hmem hpm]
    simpa [PoolMemory.pointer] using hptr

theorem replace (hsplit : p.pdList = before ++ pd :: after)
    (hage : pd'.age = pd.age) (hok : RegionOk abi pd')
    (href : pd'.ref-pd'.pmList.length = pd.ref-pd.pmList.length) :
    PoolOk abi { p with pdList := before ++ pd' :: after } old young := by
  have haddr : pd'.addr = pd.addr := congrArg Prod.fst hage
  have hregions := h.regions
  have hrefs := h.refs
  rw [hsplit,forall_mem_append,forall_mem_cons] at hregions hrefs
  refine ⟨?_,h.current,h.order,h.tried,?_,?_,h.large,?_⟩
  · rw [← h.ages,hsplit]
    simp [hage]
  · exact forall_mem_append.mpr ⟨hregions.1,forall_mem_cons.mpr ⟨hok,hregions.2.2⟩⟩
  · refine forall_mem_append.mpr ⟨hrefs.1,forall_mem_cons.mpr ⟨?_,hrefs.2.2⟩⟩
    rw [haddr]
    omega
  · have hheap : heap abi { p with pdList := before ++ pd' :: after } = p.heap abi := by
      simp [heap,hsplit,block,haddr]
    rw [hheap]
    exact h.apart

theorem addr_ne (hsplit : p.pdList = before ++ pd :: after)
    {x : PoolData} (hx : x ∈ before ++ after) : x.addr ≠ pd.addr :=
  key_ne_of_nodup _ (hsplit ▸ h.addr_nodup) hx

theorem region_of_memory (hpd : pd ∈ p.pdList) (hpd' : pd' ∈ p.pdList)
    (hpm : pm ∈ pd.pmList) (hpm' : pm' ∈ pd'.pmList) (haddr : pm.addr = pm'.addr) : pd = pd' := by
  have hmem {x : PoolData} (hx : x ∈ p.pdList) {y : PoolMemory} (hy : y ∈ x.pmList) :
      y ∈ p.memories := mem_append_left _ (mem_flatMap.mpr ⟨x,hx,hy⟩)
  obtain rfl := h.memory_unique (hmem hpd hpm) (hmem hpd' hpm') haddr
  have howner := ((h.regions pd hpd).memories pm hpm).1
  rw [((h.regions pd' hpd').memories pm hpm').1] at howner
  exact h.region_unique hpd hpd' (Option.some.inj howner).symm

section
variable {zs : List PoolMemory} (hzs : zs.Sublist p.memories) (hsplit : zs = xs ++ pm :: ys)
include hzs hsplit

theorem memory_addr_ne {x : PoolMemory} (hx : x ∈ xs ++ ys) : x.addr ≠ pm.addr :=
  key_ne_of_nodup _ (hsplit ▸ h.memory_addr_nodup.sublist (hzs.map _)) hx

theorem filter_split : (zs.filter fun x => x.addr ≠ pm.addr) = xs ++ ys := by
  rw [hsplit,filter_key PoolMemory.addr fun x hx => h.memory_addr_ne hzs hsplit hx]

end

theorem small_ne_large (hpd : pd ∈ p.pdList) (hpm : pm ∈ pd.pmList) (hpm' : pm' ∈ p.largeList) :
    pm.addr ≠ pm'.addr := by
  intro he
  obtain rfl := h.memory_unique (mem_append_left _ (mem_flatMap.mpr ⟨pd,hpd,hpm⟩))
    (mem_append_right _ hpm') he
  have hsmall := ((h.regions pd hpd).memories pm hpm).2.2.2
  have hlarge := (h.large pm hpm').2
  omega

omit h in
theorem filter_pmList (hpm : ∀ x ∈ pd.pmList, x.addr ≠ pm.addr) :
    ({ pd with pmList := pd.pmList.filter fun x => x.addr ≠ pm.addr } : PoolData) = pd := by
  rw [filter_eq_self.mpr fun x hx => decide_eq_true (hpm x hx)]

theorem unlink_small (hsplit : p.pdList = before ++ pd :: after)
    (hpm : pd.pmList = xs ++ pm :: ys) :
    p.unlink pm.addr = { p with pdList := before ++ { pd with pmList := xs ++ ys } :: after } := by
  have hpd : pd ∈ p.pdList := by simp [hsplit]
  have hin : pm ∈ pd.pmList := by simp [hpm]
  have hother {x : PoolData} (hx : x ∈ before ++ after) :
      ({ x with pmList := x.pmList.filter fun y => y.addr ≠ pm.addr } : PoolData) = x := by
    have hxp : x ∈ p.pdList := hsplit ▸ sublist_split.mem hx
    refine filter_pmList fun y hy he => ?_
    exact h.addr_ne hsplit hx (by rw [h.region_of_memory hxp hpd hy hin he])
  have hlarge : (p.largeList.filter fun y => y.addr ≠ pm.addr) = p.largeList :=
    filter_eq_self.mpr fun y hy => decide_eq_true (h.small_ne_large hpd hin hy).symm
  have hself : (pd.pmList.filter fun y => y.addr ≠ pm.addr) = xs ++ ys :=
    h.filter_split (pmList_sublist hpd) hpm
  rw [unlink,hlarge,hsplit,map_append,map_cons,hself,
    map_eq_self fun x hx => hother (mem_append_left _ hx),
    map_eq_self fun x hx => hother (mem_append_right _ hx)]

theorem unlink_large (hpm : p.largeList = xs ++ pm :: ys) :
    p.unlink pm.addr = { p with largeList := xs ++ ys } := by
  have hin : pm ∈ p.largeList := by simp [hpm]
  rw [unlink,h.filter_split (sublist_append_right ..) hpm,
    map_eq_self fun x hx => filter_pmList fun y hy => h.small_ne_large hx hy hin]

theorem remove (hsplit : p.pdList = before ++ pd :: after) (hpd : pd.addr ∉ young.map Prod.fst) :
    ∃ old', PoolOk abi { p with pdList := before ++ after } old' young := by
  have hages := h.ages
  have hsub : (before ++ after).Sublist p.pdList := hsplit ▸ sublist_split
  -- the tried regions are all behind this one
  have hafter : ∃ mid, after.map age = mid ++ young := by
    rw [hsplit,map_append,map_cons] at hages
    rcases append_eq_append_iff.mp hages with ⟨mid,hold,hrest⟩ | ⟨mid,hold,hrest⟩
    · cases mid with
      | nil =>
        refine absurd ?_ hpd
        rw [show young = pd.age :: after.map age from hrest.symm]
        simp [age]
      | cons x mid => exact ⟨mid,(List.cons.inj hrest).2⟩
    · refine absurd ?_ hpd
      rw [hrest]
      simp [age]
  obtain ⟨mid,hmid⟩ := hafter
  refine ⟨before.map age ++ mid,?_,h.current,h.order,h.tried,
    fun x hx => h.regions x (hsub.mem hx),fun x hx => h.refs x (hsub.mem hx),h.large,?_⟩
  · rw [map_append,hmid,append_assoc]
  · exact h.apart.sublist ((hsub.map _).append_right _)

theorem decRef (hsplit : p.pdList = before ++ pd :: after) (hpm : pd.pmList = xs ++ pm :: ys) :
    ∃ p' old', (p.unlink pm.addr).decRef pd.addr = some p' ∧ PoolOk abi p' old' young ∧
      p.memories.Perm (pm :: p'.memories) ∧ p'.mem = p.mem ∧ p'.largeList = p.largeList := by
  have hpd : pd ∈ p.pdList := by simp [hsplit]
  have hother {x : PoolData} (hx : x ∈ before) : x.addr ≠ pd.addr :=
    h.addr_ne hsplit (mem_append_left _ hx)
  have hfind : (before ++ { pd with pmList := xs ++ ys } :: after).find?
      (fun x => x.addr = pd.addr) = some { pd with pmList := xs ++ ys } := by
    rw [find?_append,find?_eq_none.mpr fun x hx => by simpa using hother hx]
    simp
  have hperm : p.memories.Perm
      (pm :: ((before.flatMap pmList ++ (xs ++ ys ++ after.flatMap pmList)) ++ p.largeList)) := by
    rw [AwPool.memories,hsplit,flatMap_append,flatMap_cons,hpm,append_assoc xs,
      cons_append,append_assoc xs]
    exact perm_inner ..
  rw [h.unlink_small hsplit hpm,AwPool.decRef,hfind,Option.map_some]
  by_cases hlast : pd.ref-1 = 0
  · -- no other block is left, and the pool does not try the region any more
    have href := h.refs pd hpd
    rw [hpm,length_append,length_cons] at href
    have hyoung : pd.addr ∉ young.map Prod.fst := by
      intro hin
      rw [if_pos hin] at href
      omega
    have hxs : xs = [] := eq_nil_of_length_eq_zero (by omega)
    have hys : ys = [] := eq_nil_of_length_eq_zero (by omega)
    obtain ⟨old',hremove⟩ := h.remove hsplit hyoung
    refine ⟨{ p with pdList := before ++ after },old',?_,hremove,?_,rfl,rfl⟩
    · have hfilter := filter_key addr (x := { pd with pmList := xs ++ ys })
        fun x hx => h.addr_ne hsplit hx
      rw [if_pos hlast,hfilter]
    · rw [hxs,hys] at hperm
      simpa [AwPool.memories] using hperm
  · have hregion := h.regions pd hpd
    have hpacked : RegionOk abi { pd with pmList := xs ++ ys, ref := pd.ref-1 } := by
      have hsub : (xs ++ ys).Sublist pd.pmList := hpm ▸ sublist_split
      exact ⟨hregion.packed.sublist (hsub.map _),hregion.fits,hregion.aligned,
        fun x hx => hregion.memories x (hsub.mem hx)⟩
    refine ⟨{ p with
        pdList := before ++ { pd with pmList := xs ++ ys, ref := pd.ref-1 } :: after },old,?_,
      h.replace hsplit rfl hpacked ?_,?_,rfl,rfl⟩
    · rw [if_neg hlast]
      have hmodify := modify_eq
        (p := { p with pdList := before ++ { pd with pmList := xs ++ ys } :: after }) rfl
        (fun x hx => h.addr_ne hsplit hx) fun x => { x with ref := x.ref-1 }
      exact congrArg some hmodify
    · rw [hpm]
      simp only [length_append,length_cons]
      omega
    · simpa [AwPool.memories] using hperm

theorem freeLarge (hpm : pm ∈ p.memories) (hsize : poolLargeSize < pm.size) :
    ∃ p', p.freeLarge pm = some p' ∧ PoolOk abi p' old young ∧
      p.memories.Perm (pm :: p'.memories) ∧ p'.mem = p.mem := by
  have hlarge : pm ∈ p.largeList := by
    refine (mem_append.mp hpm).resolve_left fun hin => ?_
    obtain ⟨pd,hpd,hin⟩ := mem_flatMap.mp hin
    have hsmall := ((h.regions pd hpd).memories pm hin).2.2.2
    omega
  obtain ⟨xs,ys,hsplit⟩ := append_of_mem hlarge
  have hsub : (xs ++ ys).Sublist p.largeList := hsplit ▸ sublist_split
  refine ⟨{ p with largeList := xs ++ ys },?_,
    { h with
      large := fun x hx => h.large x (hsub.mem hx)
      apart := h.apart.sublist ((hsub.map _).append_left _) },?_,rfl⟩
  · rw [AwPool.freeLarge,if_pos hlarge,h.unlink_large hsplit]
  · rw [AwPool.memories,hsplit,← append_assoc,AwPool.memories,← append_assoc]
    exact perm_middle

theorem pfree (hpm : pm ∈ p.memories) :
    ∃ p' old', p.pfree abi (pm.pointer abi) = some p' ∧ PoolOk abi p' old' young ∧
      p.memories.Perm (pm :: p'.memories) ∧ p'.mem = p.mem := by
  rw [AwPool.pfree,h.header hpm,Option.bind_some]
  by_cases hsize : poolLargeSize < pm.size
  · obtain ⟨p',hfree,hok,hperm,hmem⟩ := h.freeLarge hpm hsize
    exact ⟨p',old,by rw [if_pos hsize,hfree],hok,hperm,hmem⟩
  · obtain ⟨pd,hpd,hin,howner⟩ := h.owner hpm (not_lt.mp hsize)
    obtain ⟨before,after,hsplit⟩ := append_of_mem hpd
    obtain ⟨xs,ys,hlist⟩ := append_of_mem hin
    obtain ⟨p',old',hdec,hok,hperm,hmem,-⟩ := h.decRef hsplit hlist
    exact ⟨p',old',by rw [if_neg hsize,howner,Option.bind_some,hdec],hok,hperm,hmem⟩

end

theorem heap_insert {bs cs : List Block} {b : Block} (h : (bs ++ cs).Pairwise Block.Apart)
    (hb : ∀ c ∈ bs ++ cs, b.Apart c) : (bs ++ b :: cs).Pairwise Block.Apart := by
  have hsymm : ∀ {x y : Block}, x.Apart y → y.Apart x := fun hxy => Or.symm hxy
  rw [perm_middle.pairwise_iff hsymm]
  exact pairwise_cons.mpr ⟨hb,h⟩

section
variable (h : PoolOk abi p old young)
include h

theorem pallocLarge (hsize : poolLargeSize < size) (pick : ℕ) :
    p.pallocLarge abi size pick = (p, none) ∨
      ∃ p' pm, p.pallocLarge abi size pick = (p', some (pm.pointer abi)) ∧ pm.size = size ∧
        PoolOk abi p' old young ∧ p'.memories.Perm (pm :: p.memories) ∧ p'.mem = p.mem := by
  rw [AwPool.pallocLarge]
  cases hmalloc : malloc (p.heap abi) pick (size+abi.poolMemory) with
  | none => exact .inl rfl
  | some a =>
    have hapart := malloc_apart hmalloc
    rw [add_comm] at hapart
    exact .inr ⟨_,⟨a,none,size⟩,rfl,rfl,{ h with
        large := forall_mem_cons.mpr ⟨⟨rfl,hsize⟩,h.large⟩
        apart := heap_insert h.apart hapart },perm_middle,rfl⟩

theorem mem_young_iff {from_ : List PoolData}
    (hsplit : p.pdList = before ++ from_) (hyoung : from_.map age = young)
    (hpd : pd ∈ p.pdList) : pd.addr ∈ young.map Prod.fst ↔ pd ∈ from_ := by
  rw [← hyoung,map_map,mem_map]
  constructor
  · rintro ⟨x,hx,haddr⟩
    have hxp : x ∈ p.pdList := by
      rw [hsplit]
      exact mem_append_right _ hx
    exact h.region_unique hxp hpd haddr ▸ hx
  · exact fun hx => ⟨pd,hx,rfl⟩

theorem lists : ∃ before first rest, p.pdList = before ++ first :: rest ∧ p.passed = before ∧
      p.active = first :: rest ∧ before.map age = old ∧
      (first :: rest).map age = young ∧ first.addr = p.current ∧
      (∀ pd ∈ before, pd.ref = pd.pmList.length) ∧
      ∀ pd ∈ first :: rest, pd.ref = pd.pmList.length+1 := by
  obtain ⟨before,from_,hsplit,hold,hyoung⟩ := map_eq_append_iff.mp h.ages
  cases from_ with
  | nil =>
    have hcurrent := h.current
    rw [← hyoung] at hcurrent
    cases hcurrent
  | cons first rest =>
    have hcurrent : first.addr = p.current := by
      have hc := h.current
      rw [← hyoung] at hc
      exact Option.some.inj hc
    have hbefore : ∀ x ∈ before, decide (x.addr ≠ p.current) = true := by
      intro x hx
      rw [← hcurrent]
      exact decide_eq_true (h.addr_ne hsplit (mem_append_left _ hx))
    have hmem {x : PoolData} (hx : x ∈ before ++ first :: rest) : x ∈ p.pdList := hsplit ▸ hx
    refine ⟨before,first,rest,hsplit,?_,?_,hold,hyoung,hcurrent,?_,?_⟩
    · rw [passed,hsplit,takeWhile_append_of_pos hbefore,
        takeWhile_cons_of_neg (by simp [hcurrent]),append_nil]
    · rw [active,hsplit,dropWhile_append_of_pos hbefore, dropWhile_cons_of_neg (by simp [hcurrent])]
    · intro x hx
      have hxp := hmem (mem_append_left _ hx)
      have hnot : x.addr ∉ young.map Prod.fst := by
        rw [h.mem_young_iff hsplit hyoung hxp]
        have hnodup : p.pdList.Nodup := List.Nodup.of_map _ h.addr_nodup
        rw [hsplit,nodup_append] at hnodup
        exact fun hin => hnodup.2.2 x hx x hin rfl
      rw [h.refs x hxp,if_neg hnot]
      simp
    · intro x hx
      have hxp := hmem (mem_append_right _ hx)
      rw [h.refs x hxp,if_pos ((h.mem_young_iff hsplit hyoung hxp).mpr hx)]

theorem add_region {left : List PoolData} {region : PoolData}
    (hnew : ∀ b ∈ p.heap abi, region.block.Apart b)
    (hblocks : ((before ++ left).map block).Sublist (p.pdList.map block))
    (hregions : ∀ pd ∈ before ++ left, RegionOk abi pd) (hregion : RegionOk abi region)
    (hbefore : ∀ pd ∈ before, pd.ref = pd.pmList.length)
    (hleft : ∀ pd ∈ left ++ [region], pd.ref = pd.pmList.length+1)
    (horder : left.Pairwise fun x y => y.failed < x.failed)
    (htried : ∀ pd ∈ left, 0 < pd.failed ∧ pd.failed ≤ 5) (hfailed : region.failed = 0) {c : ℕ}
    (hcurrent : (left ++ [region]).head?.map addr = some c) :
    PoolOk abi { p with pdList := before ++ left ++ [region], current := c }
      (before.map age) ((left ++ [region]).map age) := by
  have hsub : ((before ++ left).map block ++
      p.largeList.map (PoolMemory.block abi)).Sublist (p.heap abi) := hblocks.append_right _
  have hheap : (((before ++ left).map block) ++
      region.block :: p.largeList.map (PoolMemory.block abi)).Pairwise Block.Apart :=
    heap_insert (h.apart.sublist hsub) fun b hb => hnew b (hsub.mem hb)
  have hapart : (before ++ (left ++ [region])).Pairwise fun x y => x.block.Apart y.block := by
    rw [← append_assoc,← pairwise_map (f := block),map_append,map_singleton]
    exact hheap.sublist ((singleton_sublist.mpr (mem_cons_self ..)).append_left _)
  refine ⟨?_,?_,?_,?_,?_,?_,h.large,?_⟩
  · simp
  · rw [head?_map,Option.map_map]
    exact hcurrent
  · rw [pairwise_map,pairwise_append]
    refine ⟨horder,pairwise_singleton ..,?_⟩
    intro x hx y hy
    rw [mem_singleton.mp hy]
    show region.failed < x.failed
    rw [hfailed]
    exact (htried x hx).1
  · rw [forall_mem_map,forall_mem_append,forall_mem_singleton]
    refine ⟨fun pd hpd => ⟨Int.le_of_lt (htried pd hpd).1,(htried pd hpd).2⟩,?_⟩
    rw [age,hfailed]
    omega
  · exact forall_mem_append.mpr ⟨hregions,forall_mem_singleton.mpr hregion⟩
  · intro pd hpd
    have hpd' : pd ∈ before ++ (left ++ [region]) := by rwa [← append_assoc]
    rw [map_map]
    rcases mem_append.mp hpd' with hin | hin
    · have hnot : pd.addr ∉ (left ++ [region]).map (Prod.fst ∘ age) := by
        intro hmem
        obtain ⟨x,hx,haddr⟩ := mem_map.mp hmem
        have hxp := (pairwise_append.mp hapart).2.2 pd hin x hx
        exact hxp.addr_ne haddr.symm
      rw [if_neg hnot,hbefore pd hin]
      simp
    · have hmem : pd.addr ∈ (left ++ [region]).map (Prod.fst ∘ age) :=
        mem_map.mpr ⟨pd,hin,rfl⟩
      rw [if_pos hmem,hleft pd hin]
  · rw [heap,map_append,map_singleton,append_assoc]
    exact hheap

theorem pallocBlock (hpos : 0 < size)
    (hsmall : awAlign (abi.poolMemory+size) ≤ poolLargeSize) (pick : ℕ) :
    (malloc (p.heap abi) pick poolBlockSize = none ∧ p.pallocBlock abi size pick = (p, none)) ∨
      ∃ p' pm old' young', p.pallocBlock abi size pick = (p', some (pm.pointer abi)) ∧
        pm.size = size ∧ PoolOk abi p' old' young' ∧ p'.memories.Perm (pm :: p.memories) ∧
        p'.mem = p.mem := by
  cases hmalloc : malloc (p.heap abi) pick poolBlockSize with
  | none => exact .inl ⟨rfl,by rw [AwPool.pallocBlock,hmalloc]⟩
  | some a =>
    right
    obtain ⟨before,first,rest,hsplit,hpassed,hactive,-,hyoung,hcurrent,hbefore,hfrom⟩ :=
      h.lists
    have hsize : size ≤ poolLargeSize := by
      have hup := le_awAlign (abi.poolMemory+size)
      omega
    let region := (newRegion abi a).carve size (awAlign (abi.poolMemory+size))
    have hregion : RegionOk abi region := by
      refine (newRegion_ok abi a).carve hpos hsize ?_
      have hfits := abi.fits
      show a+awAlign abi.poolData+awAlign (abi.poolMemory+size) ≤ a+8192
      rw [awAlign_self abi.aligned]
      rw [poolLargeSize] at hsmall
      omega
    have hok (x : PoolData) (hx : x ∈ before ++ first :: rest) : RegionOk abi x :=
      h.regions x (hsplit ▸ hx)
    have horder : (first :: rest).Pairwise fun x y => y.failed < x.failed :=
      pairwise_map.mp (hyoung ▸ h.order)
    have htried (x : PoolData) (hx : x ∈ first :: rest) : 0 ≤ x.failed ∧ x.failed ≤ 5 :=
      h.tried x.age (hyoung ▸ mem_map_of_mem hx)
    obtain ⟨gone,left,currentPd,hpass,hleft,hhead⟩ :=
      passRegions_spec a (fun x hx => hok x (mem_append_right _ hx)) hfrom horder htried
    have hresult : p.pallocBlock abi size pick = ({ p with
            pdList := before ++ gone ++ left ++ [region]
            current := currentPd.getD p.current },
          some (a+awAlign abi.poolData+abi.poolMemory)) := by
      rw [AwPool.pallocBlock,hmalloc,hactive,hpassed]
      simp only [hpass,← append_assoc]
      rfl
    refine ⟨_,⟨a+awAlign abi.poolData,some a,size⟩,_,_,hresult,rfl,
      h.add_region (malloc_apart hmalloc) ?_ ?_ hregion ?_ ?_ hleft.order hleft.tried rfl ?_,?_,rfl⟩
    · have hblocks := hleft.blocks.append_left (before.map block)
      rw [← map_append,← map_append,← hsplit] at hblocks
      rwa [append_assoc]
    · rw [append_assoc]
      exact forall_mem_append.mpr ⟨(forall_mem_append.mp hok).1,hleft.regions⟩
    · exact forall_mem_append.mpr ⟨hbefore,hleft.gone_refs⟩
    · exact forall_mem_append.mpr ⟨hleft.left_refs,forall_mem_singleton.mpr rfl⟩
    · rw [← hcurrent,← hhead]
      cases left <;> rfl
    · have hmemories : (before ++ gone ++ left).flatMap pmList = p.pdList.flatMap pmList := by
        rw [append_assoc,flatMap_append,hleft.memories,hsplit,flatMap_append]
      rw [AwPool.memories,flatMap_append,hmemories,append_assoc]
      exact perm_middle

theorem palloc (hsize : Servable abi size) (pick : ℕ) : (p.palloc abi size pick = some (p, none) ∧
        (size ≤ poolLargeSize → malloc (p.heap abi) pick poolBlockSize = none)) ∨
      ∃ p' pm old' young', p.palloc abi size pick = some (p', some (pm.pointer abi)) ∧
        pm.size = size ∧ PoolOk abi p' old' young' ∧ p'.memories.Perm (pm :: p.memories) ∧
        p'.mem = p.mem := by
  have hup := le_awAlign (abi.poolMemory+size)
  have hpmSize := hsize.pmSize
  obtain ⟨hpos,hint,hagree⟩ := hsize
  by_cases hsmall : pmSize abi size ≤ poolLargeSize
  · have hsmall' : awAlign (abi.poolMemory+size) ≤ poolLargeSize := by
      omega
    cases hfind : p.active.find? fun pd => pmSize abi size ≤ int32 (pd.stop-pd.last) with
    | none =>
      rcases h.pallocBlock hpos hsmall' pick with
        ⟨hnone,hblock⟩ | ⟨p',pm,old',young',hblock,hrest⟩
      · refine .inl ⟨?_,fun _ => hnone⟩
        rw [AwPool.palloc,if_neg (by omega),if_pos hsmall,hfind,hblock]
      · refine .inr ⟨p',pm,old',young',?_,hrest⟩
        rw [AwPool.palloc,if_neg (by omega),if_pos hsmall,hfind,hblock]
    | some pd =>
      have hpd : pd ∈ p.pdList :=
        (dropWhile_sublist _).mem (mem_of_find?_eq_some hfind)
      have hregion := h.regions pd hpd
      have hroom : pd.last+awAlign (abi.poolMemory+size) ≤ pd.stop := by
        have hfound := find?_some hfind
        have hle := hregion.fits
        have hlo := hregion.packed.le
        have hstop : pd.stop = pd.addr+8192 := rfl
        rw [decide_eq_true_eq,hpmSize,int32_of_range (by omega) (by rw [intMax]; omega)] at hfound
        omega
      obtain ⟨before,after,hsplit⟩ := append_of_mem hpd
      have hcarve := hregion.carve hpos (by omega) hroom
      right
      refine ⟨{ p with pdList := before ++ pd.carve size (pmSize abi size) :: after },
        ⟨pd.last,some pd.addr,size⟩,old,young,?_,rfl,?_,?_,rfl⟩
      · rw [AwPool.palloc,if_neg (by omega),if_pos hsmall,hfind]
        show some (p.modify pd.addr _, _) = _
        rw [modify_eq hsplit (fun x hx => h.addr_ne hsplit hx)]
        rfl
      · rw [hpmSize]
        refine h.replace hsplit rfl hcarve ?_
        show pd.ref+1-((pd.pmList ++ [_]).length : ℕ) = pd.ref-pd.pmList.length
        rw [length_append,length_singleton]
        omega
      · rw [AwPool.memories,AwPool.memories,hsplit,flatMap_append,flatMap_append,
          flatMap_cons,flatMap_cons,carve,append_assoc pd.pmList]
        exact perm_inner ..
  · have hlarge : poolLargeSize < size := by
      by_contra hle
      have hle' := hagree (by omega)
      rw [hpmSize] at hsmall
      omega
    rcases h.pallocLarge hlarge pick with hnone | ⟨p',pm,halloc,hrest⟩
    · refine .inl ⟨?_,fun hle => by omega⟩
      rw [AwPool.palloc,if_neg (by omega),if_neg hsmall,hnone]
    · refine .inr ⟨p',pm,old,young,?_,hrest⟩
      rw [AwPool.palloc,if_neg (by omega),if_neg hsmall,halloc]

theorem size_pos (hpm : pm ∈ p.memories) : 0 < pm.size := by
  rcases mem_append.mp hpm with hpm | hpm
  · obtain ⟨pd,hpd,hin⟩ := mem_flatMap.mp hpm
    exact ((h.regions pd hpd).memories pm hin).2.2.1
  · exact zero_lt_of_lt (h.large pm hpm).2

theorem set_mem (mem : ℕ → UInt8) : PoolOk abi { p with mem } old young :=
  { h with }

theorem copy (hpm : pm ∈ p.memories) (hpm' : pm' ∈ p.memories)
    (hne : pm' ≠ pm) (hsize : pm.size ≤ pm'.size) :
    ∃ mem, p.copy (pm'.pointer abi) (pm.pointer abi) pm.size = some { p with mem } ∧
      ∀ i < pm.size, mem (pm'.pointer abi+i) = p.mem (pm.pointer abi+i) := by
  have hpos := h.size_pos hpm
  have hblocks := (pairwise_map.mp h.memories_apart).forall hpm' hpm hne
  have hapart : Block.Apart ⟨pm'.pointer abi,pm.size⟩ ⟨pm.pointer abi,pm.size⟩ := by
    refine hblocks.inside ?_ ?_ hpos ?_ ?_ hpos <;>
      simp only [PoolMemory.block,PoolMemory.pointer] <;> omega
  refine ⟨_,by rw [AwPool.copy,memcpy,if_pos hapart,Option.map_some],fun i hi => ?_⟩
  have hin : pm'.pointer abi ≤ pm'.pointer abi+i ∧
      pm'.pointer abi+i < pm'.pointer abi+pm.size := by omega
  rw [if_pos hin,Nat.add_sub_cancel_left]

end

theorem perm_of_move {p₁ p₂ : AwPool} (hpm : pm ∈ p.memories)
    (hnew : p₁.memories.Perm (pm' :: p.memories)) (hfree : p₁.memories.Perm (pm :: p₂.memories)) :
    ∃ others, p.memories.Perm (pm :: others) ∧ p₂.memories.Perm (pm' :: others) := by
  have hold := perm_cons_erase hpm
  refine ⟨p.memories.erase pm,hold,?_⟩
  have hboth := (hfree.symm.trans hnew).trans (hold.cons pm')
  exact (hboth.trans (List.Perm.swap ..)).cons_inv

end PoolOk

/-- The block `pm` has become the block `pm'` of `size` bytes, with its bytes in front. -/
structure Reallocated (abi : Abi) (p p' : AwPool) (pm pm' : PoolMemory) (size : ℕ) : Prop where
  size : pm'.size = size
  ok : ∃ old young, PoolOk abi p' old young
  memories : ∃ others, p.memories.Perm (pm :: others) ∧ p'.memories.Perm (pm' :: others)
  bytes : ∀ i < pm.size, p'.mem (pm'.pointer abi+i) = p.mem (pm.pointer abi+i)

namespace PoolOk

/-- The end of `AwRealloc` when a new block has been allocated: the bytes are copied and the old
block is freed. -/
theorem move {p₁ : AwPool} (h₁ : PoolOk abi p₁ old young) {pm pm' : PoolMemory}
    (hpm : pm ∈ p.memories) (hnew : p₁.memories.Perm (pm' :: p.memories)) (hmem : p₁.mem = p.mem)
    (hgrow : pm.size ≤ pm'.size) :
    ∃ p₂ p', p₁.copy (pm'.pointer abi) (pm.pointer abi) pm.size = some p₂ ∧
      p₂.pfree abi (pm.pointer abi) = some p' ∧
      (poolLargeSize < pm.size → p₂.freeLarge pm = some p') ∧
      Reallocated abi p p' pm pm' pm'.size := by
  have hpm₁ : pm ∈ p₁.memories := hnew.mem_iff.mpr (mem_cons_of_mem _ hpm)
  have hpm' : pm' ∈ p₁.memories := hnew.mem_iff.mpr (mem_cons_self ..)
  have hne : pm' ≠ pm := by
    rintro rfl
    exact (nodup_cons.mp (hnew.nodup_iff.mp (.of_map _ h₁.memory_addr_nodup))).1 hpm
  obtain ⟨mem,hcopy,hbytes⟩ := h₁.copy hpm₁ hpm' hne hgrow
  have h₂ := h₁.set_mem mem
  have hpm₂ : pm ∈ AwPool.memories { p₁ with mem } := hpm₁
  obtain ⟨p',old',hfree,hok,hperm,hmem'⟩ := h₂.pfree hpm₂
  refine ⟨_,p',hcopy,hfree,?_,rfl,⟨old',young,hok⟩,perm_of_move hpm hnew hperm,?_⟩
  · intro hlarge
    rw [AwPool.pfree,h₂.header hpm₂,Option.bind_some,if_pos hlarge] at hfree
    exact hfree
  · intro i hi
    rw [hmem',← hmem]
    exact hbytes i hi

theorem realloc (h : PoolOk abi p old young) {pm : PoolMemory} (hpm : pm ∈ p.memories)
    (hsize : Servable abi size) (hgrow : pm.size < size) {pick : ℕ}
    (hgrant : size ≤ poolLargeSize → (malloc (p.heap abi) pick poolBlockSize).isSome) :
    p.realloc abi (pm.pointer abi) size pick = some (p, none) ∨
      ∃ p' pm', p.realloc abi (pm.pointer abi) size pick = some (p', some (pm'.pointer abi)) ∧
        Reallocated abi p p' pm pm' size := by
  rw [AwPool.realloc,h.header hpm,Option.bind_some,if_neg (not_le.mpr hgrow)]
  by_cases hlarge : poolLargeSize < size
  · -- both branches that allocate a large block
    rcases h.pallocLarge hlarge pick with hnone | ⟨p₁,pm',halloc,rfl,h₁,hnew,hmem⟩
    · left
      rw [hnone]
      split_ifs <;> rfl
    · right
      obtain ⟨p₂,p',hcopy,hfree,hfree',hre⟩ := h₁.move hpm hnew hmem (le_of_lt hgrow)
      refine ⟨p',pm',?_,hre⟩
      rw [halloc]
      by_cases hold : poolLargeSize < pm.size
      · rw [if_pos hold]
        show (p₁.copy _ _ _).bind _ = _
        rw [hcopy,Option.bind_some,hfree' hold,Option.map_some]
      · rw [if_neg hold,if_pos hlarge]
        show (p₁.copy _ _ _).bind _ = _
        rw [hcopy,Option.bind_some,hfree,Option.map_some]
  · have hold : ¬poolLargeSize < pm.size := by omega
    rw [if_neg hold,if_neg hlarge]
    obtain ⟨pd,hpd,hin,howner⟩ := h.owner hpm (not_lt.mp hold)
    have hfind : (p.pdList.find? fun x => pm.owner = some x.addr) = some pd := by
      cases hfind : p.pdList.find? fun x => pm.owner = some x.addr with
      | none =>
        have hno := find?_eq_none.mp hfind pd hpd
        exact absurd (decide_eq_true howner) hno
      | some x =>
        have hx := find?_some hfind
        rw [decide_eq_true_eq,howner,Option.some_inj] at hx
        rw [h.region_unique (mem_of_find?_eq_some hfind) hpd hx.symm]
    rw [hfind,Option.bind_some]
    by_cases hroom : size ≤ freeSize pd pm (pm.pointer abi)
    · -- the block grows where it is
      obtain ⟨before,after,hsplit⟩ := append_of_mem hpd
      obtain ⟨xs,ys,hlist⟩ := append_of_mem hin
      obtain ⟨hresize,hregion⟩ := (h.regions pd hpd).resize hlist
        (fun x hx => h.memory_addr_ne (pmList_sublist hpd) hlist hx) hgrow (not_lt.mp hlarge)
        hroom
      have hlist' : (AwPool.resize abi pd pm size).pmList = xs ++ { pm with size } :: ys := by
        rw [hresize]
      refine .inr ⟨{ p with pdList := before ++ AwPool.resize abi pd pm size :: after },
        { pm with size },?_,rfl,⟨old,young,h.replace hsplit rfl hregion ?_⟩,
        ⟨before.flatMap pmList ++ (xs ++ (ys ++ after.flatMap pmList)) ++
          p.largeList,?_,?_⟩,fun i _ => rfl⟩
      · rw [if_pos hroom,modify_eq hsplit fun x hx => h.addr_ne hsplit hx]
        rfl
      · rw [hlist',hlist]
        show pd.ref-_ = _
        simp
      · rw [AwPool.memories,hsplit,flatMap_append,flatMap_cons,hlist,append_assoc xs]
        exact perm_inner ..
      · rw [AwPool.memories,flatMap_append,flatMap_cons,hlist',append_assoc xs]
        exact perm_inner ..
    · rcases h.palloc hsize pick with
        ⟨-,hnone⟩ | ⟨p₁,pm',old₁,young₁,halloc,rfl,h₁,hnew,hmem⟩
      · have hsome := hgrant (not_lt.mp hlarge)
        rw [hnone (not_lt.mp hlarge)] at hsome
        cases hsome
      · right
        obtain ⟨p₂,p',hcopy,hfree,-,hre⟩ := h₁.move hpm hnew hmem (le_of_lt hgrow)
        refine ⟨p',pm',?_,hre⟩
        rw [if_neg hroom,halloc]
        show (p₁.copy _ _ _).bind _ = _
        rw [hcopy,Option.bind_some,hfree,Option.map_some]

end PoolOk

end TinaPackage.Pool
