import TinaPackage.StreamCacheLayout

/-! A seek in the player's cache finds a frame of the list, or fails. -/
namespace TinaPackage.PlayerCache
open List Option

structure CacheFrame.Stamped (frame : CacheFrame) : Prop where
  pts : -1 ≤ frame.nPts
  pts_le : frame.nPts ≤ StreamCache.int64Max
  pcr : -1 ≤ frame.nPcr

instance (frame : CacheFrame) : Decidable frame.Stamped :=
  decidable_of_iff (-1 ≤ frame.nPts ∧ frame.nPts ≤ StreamCache.int64Max ∧ -1 ≤ frame.nPcr)
    ⟨fun h => ⟨h.1,h.2.1,h.2.2⟩,fun h => ⟨h.1,h.2,h.3⟩⟩

namespace StreamCache

/-- `pNodeWithLastValidPcr` is a frame of the list that has a clock value. -/
def PcrHeld (c : StreamCache) (frames : List (ℕ × CacheFrame)) : Prop :=
  ∀ p ∈ c.pNodeWithLastValidPcr, ∃ x ∈ frames, x.1 = p ∧ x.2.nPcr ≠ -1

variable {c : StreamCache} {passed pending : List (ℕ × CacheFrame)} {nSeekTimeUs : ℤ}
  {list : List (ℕ × CacheNode)}

variable {rest all : List (ℕ × CacheNode)} {t b : ℤ}

theorem firstKeyFrame_spec (h : c.firstKeyFrame nSeekTimeUs list = some rest) :
    rest <:+ list ∧ ∃ p node tail, rest = (p, node) :: tail ∧ node.nPts ≠ -1 ∧
      node.nPts ≤ nSeekTimeUs ∧ c.isKeyFrame node.toCacheFrame = true := by
  induction list with
  | nil => cases h
  | cons y list ih =>
    obtain ⟨p,node⟩ := y
    rw [firstKeyFrame] at h
    split_ifs at h with hpts hlate hkey
    · obtain ⟨hsuffix,hrest⟩ := ih h
      exact ⟨hsuffix.trans (suffix_cons ..),hrest⟩
    · cases h
      exact ⟨suffix_refl _,p,node,list,rfl,hpts,not_lt.mp hlate,hkey⟩
    · obtain ⟨hsuffix,hrest⟩ := ih h
      exact ⟨hsuffix.trans (suffix_cons ..),hrest⟩

variable {pBefore : List (ℕ × CacheNode)}

theorem nearestPts_spec (hlist : list <:+ all) (hbefore : pBefore <:+ all) :
    (c.nearestPts t b pBefore list).pBefore <:+ all ∧
      (c.nearestPts t b pBefore list).pAfter <:+ all ∧
      b ≤ (c.nearestPts t b pBefore list).before ∧
      (b ≤ t → (c.nearestPts t b pBefore list).before ≤ t) ∧
      (pBefore ≠ [] → (c.nearestPts t b pBefore list).pBefore ≠ []) ∧
      ((c.nearestPts t b pBefore list).pAfter = [] →
        (c.nearestPts t b pBefore list).after = int64Max) := by
  induction list generalizing b pBefore with
  | nil => exact ⟨hbefore,nil_suffix,le_refl _,id,id,fun _ => rfl⟩
  | cons y list ih =>
    obtain ⟨p,node⟩ := y
    have htail : list <:+ all := (suffix_cons ..).trans hlist
    rw [nearestPts]
    split_ifs with hskip hearlier hlater
    · exact ih htail hbefore
    · obtain ⟨h₁,h₂,h₃,h₄,h₅,h₆⟩ := ih (b := node.nPts) htail hlist
      exact ⟨h₁,h₂,by omega,fun _ => h₄ hearlier.1, fun _ => h₅ (by simp),h₆⟩
    · exact ⟨hbefore,hlist,le_refl _,id,id,fun hnil => by cases hnil⟩
    · exact ih htail hbefore

theorem nearestPts_found {p : ℕ} {node : CacheNode} {tail : List (ℕ × CacheNode)}
    (hpts : 0 ≤ node.nPts) (hle : node.nPts ≤ nSeekTimeUs)
    (hkey : c.isKeyFrame node.toCacheFrame = true) :
    c.nearestPts nSeekTimeUs (-1) [] ((p, node) :: tail) =
      c.nearestPts nSeekTimeUs node.nPts ((p, node) :: tail) tail := by
  rw [nearestPts]
  rw [if_neg (by simp [hkey]; omega),if_pos ⟨hle,by omega⟩]

section
variable (h : c.Layout passed pending) (hlist : c.listFrom c.pPassedHead = some list)
  (hframes : framesOf list = passed ++ pending)
include h hlist hframes

theorem Layout.divide_suffix (hrest : rest <:+ list) :
    ∃ c' passed' pending', c.adjustList (pointer rest) = some c' ∧ c'.pHead = pointer rest ∧
      c'.heap = c.heap ∧ Divided c c' passed pending passed' pending' := by
  obtain ⟨before,rfl⟩ := hrest
  obtain ⟨c',hadjust,hhead,hheap,hdivided⟩ := h.adjustList hlist hframes
  exact ⟨c',_,_,hadjust,hhead,hheap,hdivided⟩

theorem Layout.divide_found (hheap : ∀ y ∈ list, c.heap y.1 = some y.2) (hrest : rest <:+ list)
    (hne : rest ≠ []) :
    ∃ c' ret passed' pending', ((c.adjustList (pointer rest)).bind fun c =>
        (c.pHead.bind c.heap).map fun node => (c, node.nPts)) = some (c', ret) ∧
      Divided c c' passed pending passed' pending' := by
  obtain ⟨c',passed',pending',hadjust,hhead,hheap',hdivided⟩ :=
    h.divide_suffix hlist hframes hrest
  obtain ⟨⟨q,qnode⟩,tail,rfl⟩ := exists_cons_of_ne_nil hne
  have hq : c'.pHead.bind c'.heap = some qnode := by
    rw [hhead,hheap']
    exact hheap (q, qnode) (hrest.mem (mem_cons_self ..))
  exact ⟨c',qnode.nPts,passed',pending',by rw [hadjust,bind_some,hq,map_some],hdivided⟩

end

theorem Layout.seekByPts (h : c.Layout passed pending)
    (hstamped : ∀ x ∈ passed ++ pending, x.2.Stamped) (htime : nSeekTimeUs+1000000 ≤ int64Max) :
    ∃ c' ret passed' pending', c.seekByPts nSeekTimeUs = some (c', ret) ∧
      Divided c c' passed pending passed' pending' := by
  have hfail : ∃ c' ret passed' pending', some (c, (-1 : ℤ)) = some (c', ret) ∧
      Divided c c' passed pending passed' pending' := ⟨c,-1,passed,pending,rfl,.refl h⟩
  obtain ⟨list,hlist,hframes,hheap⟩ := h.listFrom
  rw [StreamCache.seekByPts,hlist,bind_some]
  by_cases hlast : c.nLastValidPts < nSeekTimeUs
  · rw [if_pos hlast]
    exact hfail
  rw [if_neg hlast]
  cases hfirst : c.firstKeyFrame nSeekTimeUs list with
  | none => exact hfail
  | some rest =>
    obtain ⟨hsuffix,p,node,tail,rfl,hpts,hle,hkey⟩ := firstKeyFrame_spec hfirst
    have hnonneg : 0 ≤ node.nPts := by
      have hmem : (p, node.toCacheFrame) ∈ passed ++ pending := by
        rw [← hframes]
        exact mem_map_of_mem (hsuffix.mem (mem_cons_self ..))
      have hstamp : -1 ≤ node.nPts := (hstamped _ hmem).pts
      omega
    dsimp only
    rw [nearestPts_found hnonneg hle hkey]
    obtain ⟨hbefore,hafter,hge,hlate,hfound,hend⟩ :=
      nearestPts_spec (c := c) (t := nSeekTimeUs) (b := node.nPts)
        ((suffix_cons ..).trans hsuffix) hsuffix
    generalize c.nearestPts nSeekTimeUs node.nPts ((p, node) :: tail) tail = near at *
    by_cases hfar : near.pAfter = [] ∧ int64 (nSeekTimeUs-near.before) ≥ 1000000
    · rw [if_pos hfar]
      exact hfail
    rw [if_neg hfar]
    refine h.divide_found hlist hframes hheap ?_ ?_
    · split_ifs
      · exact hbefore
      · exact hafter
    · -- without a node after the seek time, the one before it is less than a second away
      split_ifs with hclose
      · exact hfound (by simp)
      · intro hnil
        refine hclose ?_
        have hnear := not_and.mp hfar hnil
        rw [hend hnil]
        unfold int64Max at *
        rw [int64_of_range (by omega) (by omega)] at hnear ⊢
        rw [int64_of_range (by omega) (by omega)]
        omega

theorem Layout.divide_mapped (h : c.Layout passed pending)
    (hlist : c.listFrom c.pPassedHead = some list) (hframes : framesOf list = passed ++ pending)
    (hrest : rest <:+ list) (ret : ℤ) :
    ∃ c' ret' passed' pending',
      ((c.adjustList (pointer rest)).map fun c => (c, ret)) = some (c', ret') ∧
      Divided c c' passed pending passed' pending' := by
  obtain ⟨c',passed',pending',hadjust,-,-,hdivided⟩ := h.divide_suffix hlist hframes hrest
  exact ⟨c',ret,passed',pending',by rw [hadjust,map_some],hdivided⟩

theorem firstPcr_spec (h : firstPcr nSeekTimeUs list = some rest)
    (hheld : ∃ y ∈ list, y.2.nPcr ≠ -1) :
    rest <:+ list ∧ ∃ p node tail, rest = (p, node) :: tail ∧ node.nPcr ≠ -1 ∧
      node.nPcr ≤ nSeekTimeUs := by
  induction list with
  | nil =>
    obtain ⟨y,hy,-⟩ := hheld
    cases hy
  | cons y list ih =>
    obtain ⟨p,node⟩ := y
    rw [firstPcr] at h
    split_ifs at h with hlate hpcr
    · cases h
      exact ⟨suffix_refl _,p,node,list,rfl,hpcr,not_lt.mp hlate⟩
    · obtain ⟨z,hz,hzpcr⟩ := hheld
      have hz' : z ∈ list := by
        rcases List.mem_cons.mp hz with rfl | hz
        · exact absurd hzpcr hpcr
        · exact hz
      obtain ⟨hsuffix,hrest⟩ := ih h ⟨z,hz',hzpcr⟩
      exact ⟨hsuffix.trans (suffix_cons ..),hrest⟩

theorem nearestPcr_spec (hlist : list <:+ all) (hbefore : pBefore <:+ all) :
    (nearestPcr t b pBefore list).pBefore <:+ all ∧ (nearestPcr t b pBefore list).pAfter <:+ all ∧
      (pBefore ≠ [] → (nearestPcr t b pBefore list).pBefore ≠ []) := by
  induction list generalizing b pBefore with
  | nil => exact ⟨hbefore,nil_suffix,id⟩
  | cons y list ih =>
    obtain ⟨p,node⟩ := y
    have htail : list <:+ all := (suffix_cons ..).trans hlist
    rw [nearestPcr]
    split_ifs with hearlier hlater
    · obtain ⟨h₁,h₂,h₃⟩ := ih (b := node.nPcr) htail hlist
      exact ⟨h₁,h₂,fun _ => h₃ (by simp)⟩
    · exact ⟨hbefore,hlist,id⟩
    · exact ih htail hbefore

theorem nearestMapped_spec {o : ℤ} {n : Nearest} (hlist : list <:+ all)
    (hbefore : n.pBefore <:+ all) (hafter : n.pAfter <:+ all) :
    (c.nearestMapped t o b n list).pBefore <:+ all ∧
      (c.nearestMapped t o b n list).pAfter <:+ all := by
  induction list generalizing n with
  | nil => exact ⟨hbefore,hafter⟩
  | cons y list ih =>
    obtain ⟨p,node⟩ := y
    have htail : list <:+ all := (suffix_cons ..).trans hlist
    rw [nearestMapped]
    dsimp only
    split_ifs with hend hskip hearlier hlater
    · exact ⟨hbefore,hafter⟩
    · exact ih htail hbefore hafter
    · exact ih (n := { n with before := _, pBefore := (p, node) :: list }) htail hlist hafter
    · exact ⟨hbefore,hlist⟩
    · exact ih htail hbefore hafter

theorem Layout.seekByPcr (h : c.Layout passed pending)
    (hstamped : ∀ x ∈ passed ++ pending, x.2.Stamped) (hheld : c.PcrHeld (passed ++ pending)) :
    ∃ c' ret passed' pending', c.seekByPcr nSeekTimeUs = some (c', ret) ∧
      Divided c c' passed pending passed' pending' := by
  have hfail : ∃ c' ret passed' pending', some (c, (-1 : ℤ)) = some (c', ret) ∧
      Divided c c' passed pending passed' pending' := ⟨c,-1,passed,pending,rfl,.refl h⟩
  obtain ⟨list,hlist,hframes,hheap⟩ := h.listFrom
  rw [StreamCache.seekByPcr]
  cases hq : c.pNodeWithLastValidPcr with
  | none => exact hfail
  | some q =>
    obtain ⟨x,hx,rfl,hxpcr⟩ := hheld q hq
    obtain ⟨pNode,hnode,-⟩ := h.frames x hx
    have hsome : ∃ y ∈ list, y.2.nPcr ≠ -1 := by
      rw [← hframes] at hx
      obtain ⟨y,hy,rfl⟩ := List.mem_map.mp hx
      exact ⟨y,hy,hxpcr⟩
    simp only [hnode,bind_some]
    by_cases hlast : int64 (int64 (c.nLastValidPts-pNode.nPts)+c.nLastValidPcr) < nSeekTimeUs
    · rw [if_pos hlast]
      exact hfail
    rw [if_neg hlast,hlist,bind_some]
    cases hfirst : firstPcr nSeekTimeUs list with
    | none => exact hfail
    | some rest =>
      obtain ⟨hsuffix,p,node,tail,rfl,hpcr,hle⟩ := firstPcr_spec hfirst hsome
      have hpos : -1 < node.nPcr := by
        have hmem : (p, node.toCacheFrame) ∈ passed ++ pending := by
          rw [← hframes]
          exact mem_map_of_mem (hsuffix.mem (mem_cons_self ..))
        have hstamp : -1 ≤ node.nPcr := (hstamped _ hmem).pcr
        omega
      have hstart : nearestPcr nSeekTimeUs (-1) [] ((p, node) :: tail) =
          nearestPcr nSeekTimeUs node.nPcr ((p, node) :: tail) tail := by
        exact if_pos ⟨hpos,hle⟩
      obtain ⟨hbefore,hafter,hfound⟩ := nearestPcr_spec (t := nSeekTimeUs)
        (b := node.nPcr) ((suffix_cons ..).trans hsuffix) hsuffix
      dsimp only
      rw [hstart]
      generalize nearestPcr nSeekTimeUs node.nPcr ((p, node) :: tail) tail = near at *
      obtain ⟨⟨q,qnode⟩,rest,hcons⟩ := exists_cons_of_ne_nil (hfound (by simp))
      rw [hcons] at hbefore
      simp only [hcons]
      obtain ⟨hbefore',hafter'⟩ := nearestMapped_spec (c := c) (t := nSeekTimeUs)
        (o := qnode.nPts) (b := qnode.nPcr)
        (n := { near with before := qnode.nPcr, pBefore := (q, qnode) :: rest })
        ((suffix_cons ..).trans hbefore) hbefore hafter
      generalize c.nearestMapped nSeekTimeUs qnode.nPts qnode.nPcr _ rest = near' at *
      split_ifs
      · exact hfail
      · exact h.divide_mapped hlist hframes hafter' _
      · exact hfail
      · exact h.divide_mapped hlist hframes hbefore' _

theorem offsetNode_suffix (nSeekOffset offset : ℤ) (list : List (ℕ × CacheNode)) :
    offsetNode nSeekOffset offset list <:+ list := by
  induction list generalizing offset with
  | nil => exact suffix_refl _
  | cons y list ih =>
    rw [offsetNode]
    split_ifs
    · exact suffix_refl _
    · exact (ih _).trans (suffix_cons ..)

theorem nodes_unique {list' : List (ℕ × CacheNode)} (hframes : framesOf list = framesOf list')
    (h : ∀ y ∈ list, c.heap y.1 = some y.2) (h' : ∀ y ∈ list', c.heap y.1 = some y.2) :
    list = list' := by
  induction list generalizing list' with
  | nil =>
    cases list' with
    | nil => rfl
    | cons y list' => cases hframes
  | cons x list ih =>
    cases list' with
    | nil => cases hframes
    | cons y list' =>
      obtain ⟨hhead,htail⟩ := List.cons.inj hframes
      have hfst : x.1 = y.1 := (Prod.ext_iff.mp hhead).1
      have hx := h x (mem_cons_self ..)
      rw [hfst,h' y (mem_cons_self ..)] at hx
      have hxy : x = y := Prod.ext hfst (Option.some_inj.mp hx).symm
      rw [hxy,ih htail (fun z hz => h z (mem_cons_of_mem _ hz))
        fun z hz => h' z (mem_cons_of_mem _ hz)]

section
variable (h : c.Layout passed pending)
include h

theorem Layout.seekByOffset (nSeekOffset : ℤ) :
    ∃ c' ret passed' pending', c.seekByOffset nSeekOffset = some (c', ret) ∧
      Divided c c' passed pending passed' pending' := by
  obtain ⟨list,hlist,hframes,hheap⟩ := h.listFrom
  rw [StreamCache.seekByOffset]
  by_cases hout : nSeekOffset < int32 (-c.nPassedDataSize) ∨ nSeekOffset > c.nDataSize
  · rw [if_pos hout]
    exact ⟨c,-1,passed,pending,rfl,.refl h⟩
  rw [if_neg hout]
  by_cases hback : nSeekOffset < 0
  · rw [if_pos hback,if_pos hback,hlist,bind_some]
    exact h.divide_mapped hlist hframes (offsetNode_suffix ..) 0
  · -- the pending nodes are the last ones of the list
    obtain ⟨tail,htail,hpending,htailheap⟩ := h.listFrom_head
    have hsuffix : tail <:+ list := by
      refine ⟨list.take passed.length,?_⟩
      have hdrop : list.drop passed.length = tail := by
        refine nodes_unique ?_ (fun y hy => hheap y (mem_of_mem_drop hy)) htailheap
        rw [hpending,framesOf,map_drop,← framesOf,hframes,drop_left]
      rw [← hdrop,take_append_drop]
    rw [if_neg hback,if_neg hback,htail,bind_some]
    exact h.divide_mapped hlist hframes ((offsetNode_suffix ..).trans hsuffix) 0

theorem Layout.seekByBitrate (nByteOffset : Option ℤ) :
    ∃ c' ret passed' pending', c.seekByBitrate nSeekTimeUs nByteOffset = some (c', ret) ∧
      Divided c c' passed pending passed' pending' := by
  cases nByteOffset with
  | none => exact ⟨c,-1,passed,pending,rfl,.refl h⟩
  | some nByteOffset =>
    obtain ⟨c',ret,passed',pending',hseek,hdivided⟩ := h.seekByOffset nByteOffset
    refine ⟨c',if ret = 0 then nSeekTimeUs else ret,passed',pending',?_,hdivided⟩
    rw [StreamCache.seekByBitrate,hseek,map_some]

theorem Layout.seekTo (hstamped : ∀ x ∈ passed ++ pending, x.2.Stamped)
    (hheld : c.PcrHeld (passed ++ pending))
    (htime : c.eContainerFormat = .other → nSeekTimeUs+1000000 ≤ int64Max)
    (nByteOffset : Option ℤ) :
    ∃ c' ret passed' pending', c.seekTo nSeekTimeUs nByteOffset = some (c', ret) ∧
      Divided c c' passed pending passed' pending' := by
  unfold StreamCache.seekTo
  cases hformat : c.eContainerFormat with
  | ts | bd => exact h.seekByBitrate nByteOffset
  | hls => exact h.seekByPcr hstamped hheld
  | other => exact h.seekByPts hstamped (htime hformat)

end

end StreamCache

end TinaPackage.PlayerCache
