import TinaPackage.StreamCacheModel

/-! The list of the player's cache as two lists of frames, and its counters as sums over them. One
lemma for each change of the list says which frames are passed and pending then. -/
namespace TinaPackage.PlayerCache
open Function List Option Prod

inductive Counter
  | bytes
  | frames
  | videos
deriving DecidableEq

def weight : Counter → CacheFrame → ℤ
  | .bytes, frame => frame.nLength
  | .frames, _ => 1
  | .videos, frame => if frame.eMediaType = .video then 1 else 0

theorem weight_nonneg (k : Counter) (frame : CacheFrame) : 0 ≤ weight k frame := by
  cases k with
  | bytes => exact Int.natCast_nonneg _
  | frames => exact Int.one_nonneg
  | videos =>
    show 0 ≤ if frame.eMediaType = .video then (1 : ℤ) else 0
    split_ifs <;> decide

def total (k : Counter) (xs : List (ℕ × CacheFrame)) : ℤ := (xs.map fun x => weight k x.2).sum

section Total
variable (k : Counter)

@[simp] theorem total_nil : total k [] = 0 := rfl

@[simp] theorem total_cons (x : ℕ × CacheFrame) (xs : List (ℕ × CacheFrame)) :
    total k (x :: xs) = weight k x.2+total k xs := by
  simp [total]

@[simp] theorem total_append (xs ys : List (ℕ × CacheFrame)) :
    total k (xs ++ ys) = total k xs+total k ys := by
  simp [total]

theorem total_nonneg (xs : List (ℕ × CacheFrame)) : 0 ≤ total k xs := by
  induction xs with
  | nil => exact le_refl 0
  | cons x xs ih =>
    exact Int.add_nonneg (weight_nonneg k x.2) ih

end Total

theorem int32_total {x : ℤ} (hlo : 0 ≤ x) (hhi : x ≤ intMax) : int32 x = x :=
  int32_of_range (by omega) hhi

namespace StreamCache

variable (c : StreamCache)

def pendingCount : Counter → ℤ
  | .bytes => c.nDataSize
  | .frames => c.nFrameNum
  | .videos => c.nVideoFrameNum

def passedCount : Counter → ℤ
  | .bytes => c.nPassedDataSize
  | .frames => c.nPassedFrameNum
  | .videos => c.nPassedVideoFrameNum

structure Layout (passed pending : List (ℕ × CacheFrame)) : Prop where
  chain : Chain c.next c.pPassedHead ((passed ++ pending).map fst)
  head : c.pHead = pending.head?.map fst
  tail : c.pTail = (passed ++ pending).getLast?.map fst
  frames : ∀ x ∈ passed ++ pending, ∃ node, c.heap x.1 = some node ∧ node.toCacheFrame = x.2
  old : ∀ x ∈ passed ++ pending, x.1 < c.nNodes

/-- Counter `k` and its counterpart for the passed frames are exact. -/
structure Exact (k : Counter) (passed pending : List (ℕ × CacheFrame)) : Prop where
  pending : c.pendingCount k = total k pending
  passed : c.passedCount k = total k passed

structure SameSettings (c' : StreamCache) : Prop where
  nMaxBufferSize : c'.nMaxBufferSize = c.nMaxBufferSize
  eContainerFormat : c'.eContainerFormat = c.eContainerFormat
  eVideoCodecFormat : c'.eVideoCodecFormat = c.eVideoCodecFormat

theorem SameSettings.refl : SameSettings c c := ⟨rfl,rfl,rfl⟩

theorem SameSettings.trans {c c' c'' : StreamCache} (h : SameSettings c c')
    (h' : SameSettings c' c'') : SameSettings c c'' :=
  ⟨h'.1.trans h.1,h'.2.trans h.2,h'.3.trans h.3⟩

variable {c c' : StreamCache}

theorem SameSettings.kept (h : SameSettings c c') :
    c'.minPassedDataKeptSize = c.minPassedDataKeptSize := by
  rw [minPassedDataKeptSize,minPassedDataKeptSize,h.nMaxBufferSize]

section Layout
variable {c : StreamCache} {passed pending : List (ℕ × CacheFrame)} {x : ℕ × CacheFrame}

section
variable (h : c.Layout passed pending)
include h

theorem Layout.nodup : ((passed ++ pending).map fst).Nodup :=
  chain_nodup h.chain

theorem Layout.length_le : (passed ++ pending).length ≤ c.nNodes := by
  have hle := chain_length_le (n := c.nNodes) h.chain fun p hp => by
    obtain ⟨x,hx,rfl⟩ := mem_map.mp hp
    exact h.old x hx
  simpa using hle

theorem Layout.pending_chain : Chain c.next c.pHead (pending.map fst) := by
  cases pending with
  | nil => exact h.head
  | cons x rest =>
    have hchain := h.chain
    rw [map_append,map_cons] at hchain
    exact ⟨h.head,chain_suffix hchain⟩

theorem Layout.next_eq {before rest : List (ℕ × CacheFrame)}
    (he : passed ++ pending = before ++ x :: rest) {node : CacheNode}
    (hnode : c.heap x.1 = some node) : node.pNext = rest.head?.map fst := by
  have hchain := h.chain
  rw [he,map_append,map_cons] at hchain
  have hrest := chain_suffix hchain
  have hnext : c.next x.1 = node.pNext := by rw [next,hnode,bind_some]
  rw [hnext] at hrest
  cases rest with
  | nil => exact hrest
  | cons y rest => exact hrest.1

end

theorem int32_video (n d : ℤ) (frame : CacheFrame) (hlo : 0 ≤ n) (hhi : n ≤ intMax) :
    (if frame.eMediaType = .video then int32 (n+d) else n) = int32 (n+d*weight .videos frame) := by
  by_cases hv : frame.eMediaType = .video
  · simp [weight,hv]
  · simp [weight,hv,int32_total hlo hhi]

theorem pass_pendingCount (node : CacheNode) (k : Counter) (hlo : 0 ≤ c.pendingCount k)
    (hhi : c.pendingCount k ≤ intMax) : (c.pass node).pendingCount k =
      int32 (c.pendingCount k-weight k node.toCacheFrame) := by
  cases k with
  | bytes => rfl
  | frames => rfl
  | videos =>
    refine (int32_video _ (-1) node.toCacheFrame hlo hhi).trans ?_
    rw [Int.neg_one_mul,← sub_eq_add_neg]

theorem pass_passedCount (node : CacheNode) (k : Counter) (hlo : 0 ≤ c.passedCount k)
    (hhi : c.passedCount k ≤ intMax) : (c.pass node).passedCount k =
      int32 (c.passedCount k+weight k node.toCacheFrame) := by
  cases k with
  | bytes => rfl
  | frames => rfl
  | videos =>
    refine (int32_video _ 1 node.toCacheFrame hlo hhi).trans ?_
    rw [one_mul]

theorem Layout.flushOneFrame {rest : List (ℕ × CacheFrame)} (h : c.Layout passed (x :: rest)) :
    ∃ c', c.flushOneFrame = some c' ∧ c'.Layout (passed ++ [x]) rest ∧ SameSettings c c' ∧
      c'.pNodeWithLastValidPcr = c.pNodeWithLastValidPcr ∧
      ∀ k, c.Exact k passed (x :: rest) → total k (passed ++ x :: rest) ≤ intMax →
        c'.Exact k (passed ++ [x]) rest := by
  obtain ⟨node,hnode,hframe⟩ := h.frames x (by simp)
  have hhead : c.pHead = some x.1 := h.head
  have hsplit : (passed ++ [x]) ++ rest = passed ++ x :: rest := by simp
  refine ⟨c.pass node,by simp [StreamCache.flushOneFrame,hhead,hnode],?_,⟨rfl,rfl,rfl⟩,rfl,
    fun k hexact hfits => ?_⟩
  · refine ⟨?_,h.next_eq rfl hnode,?_,?_,?_⟩ <;> rw [hsplit]
    · exact h.chain
    · exact h.tail
    · exact h.frames
    · exact h.old
  · have hpending := hexact.pending
    have hpassed := hexact.passed
    have hnonneg := total_nonneg k passed
    have hrest := total_nonneg k rest
    have hw := weight_nonneg k x.2
    rw [total_append,total_cons] at hfits
    rw [total_cons] at hpending
    constructor
    · rw [pass_pendingCount node k (by omega) (by omega),hframe,int32_total (by omega) (by omega)]
      omega
    · rw [pass_passedCount node k (by omega) (by omega),hframe,
        int32_total (by omega) (by omega),total_append,total_cons,total_nil]
      omega

theorem Layout.flushPassedList (h : c.Layout (x :: passed) pending) (hne : passed ++ pending ≠ []) :
    ∃ node, c.heap x.1 = some node ∧ node.toCacheFrame = x.2 ∧
      c.flushPassedList = some (c.evict x.1 node) ∧ (c.evict x.1 node).Layout passed pending := by
  obtain ⟨node,hnode,hframe⟩ := h.frames x (by simp)
  have hnodup := h.nodup
  rw [cons_append,map_cons,nodup_cons] at hnodup
  have hnot (y : ℕ × CacheFrame) (hy : y ∈ passed ++ pending) : y.1 ≠ x.1 := by
    intro he
    exact hnodup.1 (he ▸ mem_map_of_mem hy)
  have hhead : c.pHead ≠ some x.1 := by
    intro he
    rw [h.head,map_eq_some_iff] at he
    obtain ⟨y,hy,hyx⟩ := he
    exact hnot y (mem_append_right _ (mem_of_head? hy)) hyx
  have htail : c.pTail ≠ some x.1 := by
    intro he
    rw [h.tail,cons_append,getLast?_cons_of_ne_nil hne,map_eq_some_iff] at he
    obtain ⟨y,hy,hyx⟩ := he
    exact hnot y (mem_of_getLast? hy) hyx
  refine ⟨node,hnode,hframe,?_,?_⟩
  · have hfirst : c.pPassedHead = some x.1 := h.chain.1
    simp [StreamCache.flushPassedList,hfirst,hhead,htail,hnode]
  · have hheap (p : ℕ) (hp : p ≠ x.1) : (c.evict x.1 node).heap p = c.heap p :=
      update_of_ne hp ..
    refine ⟨?_,h.head,?_,fun y hy => ?_, fun y hy => h.old y (mem_cons_of_mem _ hy)⟩
    · have hchain := h.chain.2
      have hnext : c.next x.1 = node.pNext := by rw [next,hnode,bind_some]
      rw [hnext] at hchain
      refine chain_congr (fun p hp => ?_) hchain
      have hpx : p ≠ x.1 := fun he => hnodup.1 (he ▸ hp)
      rw [next,next,hheap p hpx]
    · exact h.tail.trans (by rw [cons_append,getLast?_cons_of_ne_nil hne])
    · rw [hheap y.1 (hnot y hy)]
      exact h.frames y (mem_cons_of_mem _ hy)

end Layout

def Crowded (c : StreamCache) (passed pending : List (ℕ × CacheFrame)) : Prop :=
  c.nMaxBufferSize ≤ total .bytes (passed ++ pending) ∧
    c.minPassedDataKeptSize < total .bytes passed

/-- The frames `dropped` have been freed. -/
structure Evicted (c c' : StreamCache) (dropped : List (ℕ × CacheFrame)) : Prop where
  settings : SameSettings c c'
  nNodes : c'.nNodes = c.nNodes
  heap : ∀ p, p ∉ dropped.map fst → c'.heap p = c.heap p
  pcr : ∀ p ∈ c'.pNodeWithLastValidPcr, c.pNodeWithLastValidPcr = some p ∧ p ∉ dropped.map fst

theorem Evicted.refl (c : StreamCache) : Evicted c c [] :=
  ⟨.refl c,rfl,fun _ _ => rfl, fun _ hp => ⟨hp,by simp⟩⟩

variable {node : CacheNode} {x : ℕ × CacheFrame}

theorem Evicted.cons {dropped : List (ℕ × CacheFrame)} (h : Evicted (c.evict x.1 node) c' dropped) :
    Evicted c c' (x :: dropped) where
  settings := ⟨h.settings.1,h.settings.2,h.settings.3⟩
  nNodes := h.nNodes
  heap p hp := by
    rw [map_cons,mem_cons,not_or] at hp
    rw [h.heap p hp.2]
    exact update_of_ne hp.1 ..
  pcr p hp := by
    obtain ⟨hold,hnot⟩ := h.pcr p hp
    have hif : (if c.pNodeWithLastValidPcr = some x.1 then none else c.pNodeWithLastValidPcr) =
        some p := hold
    split_ifs at hif with hx
    refine ⟨hif,?_⟩
    rw [map_cons,mem_cons,not_or]
    refine ⟨fun he => hx ?_, hnot⟩
    rw [hif,he]

variable {k : Counter} {c : StreamCache}

theorem Exact.evict {passed pending : List (ℕ × CacheFrame)} (h : c.Exact k (x :: passed) pending)
    (hframe : node.toCacheFrame = x.2) (hfits : total k (x :: passed ++ pending) ≤ intMax)
    (hvideo : k = .videos → x.2.eMediaType ≠ .video) :
    (c.evict x.1 node).Exact k passed pending := by
  have hpassed := h.passed
  have hnonneg := total_nonneg k passed
  have hrest := total_nonneg k pending
  have hw := weight_nonneg k x.2
  rw [cons_append,total_cons,total_append] at hfits
  rw [total_cons] at hpassed
  have hfreed : int32 (c.passedCount k-weight k x.2) = total k passed := by
    rw [int32_total (by omega) (by omega)]
    omega
  refine ⟨?_,?_⟩
  · cases k <;> exact h.pending
  · cases k with
    | bytes =>
      rw [← hframe] at hfreed
      exact hfreed
    | frames => exact hfreed
    | videos =>
      have hzero : weight .videos x.2 = 0 := if_neg (hvideo rfl)
      rw [hzero,zero_add] at hpassed
      exact hpassed

section MakeRoom
variable {pending : List (ℕ × CacheFrame)}

theorem makeRoom_spec (passed : List (ℕ × CacheFrame)) : ∀ {c : StreamCache} {fuel : ℕ},
    c.Layout passed pending → c.Exact .bytes passed pending →
    total .bytes (passed ++ pending) ≤ intMax → 0 ≤ c.minPassedDataKeptSize →
    (pending = [] → ∀ x ∈ passed.getLast?, x.2.nLength < c.nMaxBufferSize) →
    passed.length < fuel →
    ∃ dropped rest c', passed = dropped ++ rest ∧ c.makeRoom fuel = some c' ∧
      c'.Layout rest pending ∧ Evicted c c' dropped ∧ ¬c.Crowded rest pending ∧
      (∀ before x after, dropped = before ++ x :: after → c.Crowded (x :: after ++ rest) pending) ∧
      ∀ k, c.Exact k passed pending → total k (passed ++ pending) ≤ intMax →
        (k = .videos → ∀ x ∈ dropped, x.2.eMediaType ≠ .video) → c'.Exact k rest pending := by
  induction passed with
  | nil =>
    intro c fuel h hexact hfits hkept hlast hfuel
    obtain ⟨fuel,rfl⟩ : ∃ n, fuel = n+1 := ⟨fuel-1,by omega⟩
    have hzero : c.nPassedDataSize = 0 := hexact.passed
    refine ⟨[],[],c,rfl,?_,h,.refl c,?_,by simp,fun k hk _ _ => hk⟩
    · rw [makeRoom,if_neg]
      rintro ⟨-,hlt⟩
      omega
    · rintro ⟨-,hlt⟩
      rw [total_nil] at hlt
      omega
  | cons x passed ih =>
    intro c fuel h hexact hfits hkept hlast hfuel
    obtain ⟨fuel,rfl⟩ : ∃ n, fuel = n+1 := ⟨fuel-1,by omega⟩
    have hsum : int32 (c.nDataSize+c.nPassedDataSize) = total .bytes (x :: passed ++ pending) := by
      have hpending : c.nDataSize = _ := hexact.pending
      have hpassed : c.nPassedDataSize = _ := hexact.passed
      rw [hpending,hpassed,add_comm,← total_append,int32_total (total_nonneg _ _) hfits]
    have hpassed : c.nPassedDataSize = total .bytes (x :: passed) := hexact.passed
    by_cases hcrowded : c.Crowded (x :: passed) pending
    · -- the only frame of the list is too short to be in the way
      have hne : passed ++ pending ≠ [] := by
        intro hnil
        obtain ⟨rfl,rfl⟩ := append_eq_nil_iff.mp hnil
        have hlong := hcrowded.1
        have hshort := hlast rfl x rfl
        rw [append_nil,total_cons,total_nil,weight] at hlong
        omega
      obtain ⟨node,hnode,hframe,hstep,hlayout⟩ := h.flushPassedList hne
      have hexact' := hexact.evict hframe hfits (by simp)
      have hw := weight_nonneg .bytes x.2
      rw [cons_append,total_cons] at hfits
      obtain ⟨dropped,rest,c',rfl,hroom,hlayout',hevicted,hnot,hall,hcounts⟩ :=
        ih hlayout hexact' (by omega) hkept
          (fun hnil y hy => hlast hnil y (by
            rw [getLast?_cons_of_ne_nil (fun hp => hne (by simp [hp,hnil]))]
            exact hy)) (by simpa using hfuel)
      refine ⟨x :: dropped,rest,c',rfl,?_,hlayout',hevicted.cons,hnot,?_,?_⟩
      · rw [makeRoom,if_pos ⟨hsum ▸ hcrowded.1,hpassed ▸ hcrowded.2⟩,hstep]
        exact hroom
      · intro before y after he
        cases before with
        | nil =>
          obtain ⟨rfl,rfl⟩ := List.cons.inj he
          exact hcrowded
        | cons z before =>
          obtain ⟨-,he⟩ := List.cons.inj he
          exact hall before y after he
      · intro k hk hkfits hvideo
        have hkw := weight_nonneg k x.2
        refine hcounts k (hk.evict hframe hkfits fun he => hvideo he x (mem_cons_self ..)) ?_
          fun he y hy => hvideo he y (mem_cons_of_mem _ hy)
        rw [cons_append,total_cons] at hkfits
        omega
    · refine ⟨[],x :: passed,c,rfl,?_,h,.refl c,hcrowded,by simp,fun k hk _ _ => hk⟩
      rw [makeRoom,if_neg]
      rintro ⟨hmany,hlt⟩
      exact hcrowded ⟨hsum ▸ hmany,hpassed ▸ hlt⟩

end MakeRoom

section Link
variable {c : StreamCache} {passed pending : List (ℕ × CacheFrame)}

theorem Layout.notMem (h : c.Layout passed pending) : c.nNodes ∉ (passed ++ pending).map fst := by
  intro hmem
  obtain ⟨x,hx,he⟩ := mem_map.mp hmem
  exact absurd (h.old x hx) (by omega)

theorem Layout.allocate (h : c.Layout passed pending) (frame : CacheFrame) :
    (c.allocate frame).Layout passed pending := by
  have hheap (p : ℕ) (hp : p ∈ (passed ++ pending).map fst) :
      (c.allocate frame).heap p = c.heap p :=
    update_of_ne (fun he : p = c.nNodes => h.notMem (he ▸ hp)) ..
  refine ⟨?_,h.head,h.tail,fun x hx => ?_, fun x hx => Nat.lt_succ_of_lt (h.old x hx)⟩
  · refine chain_congr (fun p hp => ?_) h.chain
    rw [next,next,hheap p hp]
  · rw [hheap x.1 (mem_map_of_mem hx)]
    exact h.frames x hx

variable {frame : CacheFrame} {p : ℕ}

theorem Layout.link (h : c.Layout passed pending) (hp : p ∉ (passed ++ pending).map fst)
    (hlt : p < c.nNodes) (hnode : c.heap p = some { frame with pNext := none }) :
    ∃ c', c.link p = some c' ∧ c'.Layout passed (pending ++ [(p, frame)]) ∧ SameSettings c c' ∧
      c'.pNodeWithLastValidPcr = c.pNodeWithLastValidPcr ∧ c'.nNodes = c.nNodes ∧
      ∀ k, c'.pendingCount k = c.pendingCount k ∧ c'.passedCount k = c.passedCount k := by
  have hold (x : ℕ × CacheFrame) (hx : x ∈ passed ++ (pending ++ [(p, frame)])) :
      x.1 < c.nNodes := by
    rw [← append_assoc,mem_append,mem_singleton] at hx
    rcases hx with hx | rfl
    · exact h.old x hx
    · exact hlt
  rcases eq_nil_or_concat (passed ++ pending) with hnil | ⟨front,last,hlist⟩
  · obtain ⟨rfl,rfl⟩ := append_eq_nil_iff.mp hnil
    have htail : c.pTail = none := h.tail
    refine ⟨{ c with pPassedHead := some p, pHead := some p, pTail := some p },
      by rw [StreamCache.link,htail],⟨?_,rfl,rfl,?_,hold⟩,⟨rfl,rfl,rfl⟩,rfl,rfl,
      fun k => by cases k <;> exact ⟨rfl,rfl⟩⟩
    · refine ⟨rfl,?_⟩
      rw [next,hnode]
      rfl
    · intro x hx
      rw [nil_append,nil_append,mem_singleton] at hx
      subst hx
      exact ⟨_,hnode,rfl⟩
  · rw [concat_eq_append] at hlist
    have htail : c.pTail = some last.1 := by rw [h.tail,hlist,getLast?_concat]; rfl
    have hmem : last ∈ passed ++ pending := by simp [hlist]
    obtain ⟨tail,htailnode,htailframe⟩ := h.frames last hmem
    have hpl : p ≠ last.1 := fun he => hp (he ▸ mem_map_of_mem hmem)
    have hheap (q : ℕ) (hq : q ≠ last.1) :
        update c.heap last.1 (some { tail with pNext := some p }) q = c.heap q :=
      update_of_ne hq ..
    refine ⟨{ c with
        heap := update c.heap last.1 (some { tail with pNext := some p })
        pTail := some p
        pHead := if c.pHead = none then some p else c.pHead },
      by simp [StreamCache.link,htail,htailnode],⟨?_,?_,?_,?_,hold⟩,⟨rfl,rfl,rfl⟩,rfl,
      rfl,fun k => by cases k <;> exact ⟨rfl,rfl⟩⟩
    · have hchain := chain_link_last h.chain (by simp [hlist]) hp
      rw [← append_assoc,map_append,map_singleton]
      refine chain_congr (fun q hq => ?_) hchain
      have hlast : ((passed ++ pending).map fst).getLast (by simp [hlist]) = last.1 := by
        simp [hlist]
      rw [hlast]
      simp only [next]
      by_cases hqp : q = p
      · subst hqp
        rw [hheap q hpl,hnode,update_self]
        rfl
      · rw [update_of_ne hqp]
        by_cases hql : q = last.1
        · subst hql
          simp
        · rw [hheap q hql,update_of_ne hql,next]
    · rw [h.head]
      cases pending <;> simp
    · simp
    · intro x hx
      rw [← append_assoc,mem_append,mem_singleton] at hx
      rcases hx with hx | rfl
      · by_cases hxl : x.1 = last.1
        · obtain ⟨node,hnode',hframe'⟩ := h.frames x hx
          refine ⟨_,by rw [hxl]; exact update_self ..,?_⟩
          have heq : tail = node := by
            rw [hxl,htailnode] at hnode'
            exact some_inj.mp hnode'
          rw [← hframe',← heq]
        · obtain ⟨node,hnode',hframe'⟩ := h.frames x hx
          exact ⟨node,(hheap x.1 hxl).trans hnode',hframe'⟩
      · exact ⟨_,(hheap p hpl).trans hnode,rfl⟩

theorem Exact.allocate (h : c.Exact k passed pending) (frame : CacheFrame) :
    (c.allocate frame).Exact k passed pending := by
  cases k <;> exact ⟨h.pending,h.passed⟩

theorem Exact.countFrame (h : c.Exact k passed pending)
    (hfits : total k (pending ++ [(p, frame)]) ≤ intMax) :
    (c.countFrame frame).Exact k passed (pending ++ [(p, frame)]) := by
  have hpending := h.pending
  have hnonneg := total_nonneg k pending
  have hw := weight_nonneg k frame
  simp only [total_append,total_cons,total_nil] at hfits
  have hsum : int32 (c.pendingCount k+weight k frame) = total k (pending ++ [(p, frame)]) := by
    rw [int32_total (by omega) (by omega)]
    simp only [total_append,total_cons,total_nil]
    omega
  refine ⟨?_,by cases k <;> exact h.passed⟩
  cases k with
  | bytes => exact hsum
  | frames => exact hsum
  | videos =>
    refine (int32_video (c.pendingCount .videos) 1 frame (by omega) (by omega)).trans ?_
    rw [one_mul]
    exact hsum

theorem Layout.addOneFrame (h : c.Layout passed pending) (hexact : c.Exact .bytes passed pending)
    (hfits : total .bytes (passed ++ pending) ≤ intMax) (hkept : 0 ≤ c.minPassedDataKeptSize)
    (hlast : pending = [] → ∀ x ∈ passed.getLast?, x.2.nLength < c.nMaxBufferSize)
    (frame : CacheFrame) :
    ∃ dropped rest c', passed = dropped ++ rest ∧ c.addOneFrame frame true = some (c', 0) ∧
      c'.Layout rest (pending ++ [(c.nNodes, frame)]) ∧ SameSettings c c' ∧
      (∀ p ∈ c'.pNodeWithLastValidPcr, p = c.nNodes ∧ frame.nPcr ≠ -1 ∨
        c.pNodeWithLastValidPcr = some p ∧ p ∉ dropped.map fst) ∧
      ¬c.Crowded rest pending ∧
      (∀ before x after, dropped = before ++ x :: after → c.Crowded (x :: after ++ rest) pending) ∧
      ∀ k, c.Exact k passed pending → total k (passed ++ pending) ≤ intMax →
        total k (pending ++ [(c.nNodes, frame)]) ≤ intMax →
        (k = .videos → ∀ x ∈ dropped, x.2.eMediaType ≠ .video) →
        c'.Exact k rest (pending ++ [(c.nNodes, frame)]) := by
  have hlength := h.length_le
  rw [length_append] at hlength
  obtain ⟨dropped,rest,c₁,rfl,hroom,hlayout,hevicted,hnot,hall,hcounts⟩ :=
    makeRoom_spec passed (h.allocate frame) (hexact.allocate frame) hfits hkept hlast
      (show passed.length < c.nNodes+2 by omega)
  have hfresh : c.nNodes ∉ (dropped ++ rest ++ pending).map fst := h.notMem
  simp only [map_append,mem_append,not_or] at hfresh
  have hnode : c₁.heap c.nNodes = some { frame with pNext := none } := by
    rw [hevicted.heap _ hfresh.1.1]
    exact update_self ..
  obtain ⟨c₂,hlink,hlayout',hsame,hpcr,-,hcounters⟩ := hlayout.link
    (by rw [map_append,mem_append,not_or]; exact ⟨hfresh.1.2,hfresh.2⟩)
    (show c.nNodes < c₁.nNodes from hevicted.nNodes ▸ Nat.lt_succ_self c.nNodes) hnode
  refine ⟨dropped,rest,c₂.countFrame frame,rfl,?_,?_,?_,?_,hnot,hall,?_⟩
  · simp [StreamCache.addOneFrame,hroom,hlink]
  · exact { hlayout' with }
  · have hsettings := hevicted.settings.trans hsame
    exact ⟨hsettings.1,hsettings.2,hsettings.3⟩
  · intro p hp
    obtain ⟨hold,hnot⟩ := hevicted.pcr p (hpcr ▸ hp)
    have hif : (if frame.nPcr ≠ -1 then some c.nNodes else c.pNodeWithLastValidPcr) = some p := hold
    split_ifs at hif with hvalid
    · exact .inl ⟨(some_inj.mp hif).symm,hvalid⟩
    · exact .inr ⟨hif,hnot⟩
  · intro k hk hkfits hknew hvideo
    have hk₁ := hcounts k (hk.allocate frame) hkfits hvideo
    refine Exact.countFrame (c := c₂) ⟨?_,?_⟩ hknew
    · rw [(hcounters k).1]
      exact hk₁.pending
    · rw [(hcounters k).2]
      exact hk₁.passed

end Link

theorem flushAll_layout (c : StreamCache) : c.flushAll.Layout [] [] :=
  ⟨rfl,rfl,rfl,by simp,by simp⟩

theorem flushAll_exact (c : StreamCache) (k : Counter) : c.flushAll.Exact k [] [] := by
  cases k <;> exact ⟨rfl,rfl⟩

def framesOf (list : List (ℕ × CacheNode)) : List (ℕ × CacheFrame) :=
  list.map fun y => (y.1, y.2.toCacheFrame)

@[simp] theorem framesOf_append (xs ys : List (ℕ × CacheNode)) :
    framesOf (xs ++ ys) = framesOf xs ++ framesOf ys :=
  map_append

theorem pointer_eq (list : List (ℕ × CacheNode)) :
    pointer list = (framesOf list).head?.map fst := by
  cases list <;> rfl

section ListFrom
variable {c : StreamCache} {passed pending : List (ℕ × CacheFrame)}

theorem mapM_heap (xs : List (ℕ × CacheFrame))
    (h : ∀ x ∈ xs, ∃ node, c.heap x.1 = some node ∧ node.toCacheFrame = x.2) :
    ∃ list, (xs.map fst).mapM (fun q => (c.heap q).map (q, ·)) = some list ∧
      framesOf list = xs ∧ ∀ y ∈ list, c.heap y.1 = some y.2 := by
  induction xs with
  | nil => exact ⟨[],rfl,rfl,by simp⟩
  | cons x xs ih =>
    obtain ⟨node,hnode,hframe⟩ := h x (mem_cons_self ..)
    obtain ⟨list,hlist,hframes,hheap⟩ := ih fun y hy => h y (mem_cons_of_mem _ hy)
    refine ⟨(x.1, node) :: list,?_,?_,?_⟩
    · simp [hnode,hlist]
    · simp only [framesOf,map_cons] at hframes ⊢
      rw [hframes,hframe]
    · intro y hy
      rcases mem_cons.mp hy with rfl | hy
      · exact hnode
      · exact hheap y hy

theorem Layout.listFrom (h : c.Layout passed pending) :
    ∃ list, c.listFrom c.pPassedHead = some list ∧ framesOf list = passed ++ pending ∧
      ∀ y ∈ list, c.heap y.1 = some y.2 := by
  obtain ⟨list,hlist,hrest⟩ := mapM_heap (passed ++ pending) h.frames
  refine ⟨list,?_,hrest⟩
  rw [StreamCache.listFrom,nodesFrom,walkList_eq h.chain (by simpa using h.length_le)]
  exact hlist

theorem Layout.listFrom_head (h : c.Layout passed pending) :
    ∃ list, c.listFrom c.pHead = some list ∧ framesOf list = pending ∧
      ∀ y ∈ list, c.heap y.1 = some y.2 := by
  obtain ⟨list,hlist,hrest⟩ := mapM_heap pending fun x hx =>
    h.frames x (mem_append_right _ hx)
  have hlength := h.length_le
  rw [length_append] at hlength
  refine ⟨list,?_,hrest⟩
  rw [StreamCache.listFrom,nodesFrom,walkList_eq h.pending_chain (by simp; omega)]
  exact hlist

end ListFrom

def PassedSums.count (sums : PassedSums) : Counter → ℤ
  | .bytes => sums.nDataSize
  | .frames => sums.nFrameNum
  | .videos => sums.nVideoFrameNum

theorem sumsBefore_spec (before rest : List (ℕ × CacheNode)) : ∀ (sums : PassedSums),
    ((framesOf (before ++ rest)).map fst).Nodup →
    ∃ sums', sumsBefore (pointer rest) sums (before ++ rest) = some sums' ∧
      ∀ k, 0 ≤ sums.count k → sums.count k+total k (framesOf before) ≤ intMax →
        sums'.count k = sums.count k+total k (framesOf before) := by
  induction before with
  | nil =>
    intro sums _
    refine ⟨sums,?_,fun k _ _ => by simp [framesOf]⟩
    cases rest with
    | nil => rfl
    | cons y rest => simp [sumsBefore,pointer]
  | cons y before ih =>
    intro sums hnodup
    have hcons : framesOf (y :: before ++ rest) =
        (y.1, y.2.toCacheFrame) :: framesOf (before ++ rest) := rfl
    rw [hcons,map_cons,nodup_cons] at hnodup
    have hne : pointer rest ≠ some y.1 := by
      intro he
      rw [pointer_eq,map_eq_some_iff] at he
      obtain ⟨z,hz,hzy⟩ := he
      refine hnodup.1 (hzy ▸ mem_map_of_mem ?_)
      rw [framesOf_append]
      exact mem_append_right _ (mem_of_head? hz)
    obtain ⟨sums',hsums,hcounts⟩ := ih
      { nDataSize := int32 (sums.nDataSize+y.2.nLength)
        nFrameNum := int32 (sums.nFrameNum+1)
        nVideoFrameNum := if y.2.eMediaType = .video then int32 (sums.nVideoFrameNum+1)
          else sums.nVideoFrameNum } hnodup.2
    refine ⟨sums',by simpa [sumsBefore,hne] using hsums,fun k hlo hhi => ?_⟩
    have hw := weight_nonneg k y.2.toCacheFrame
    have hrest := total_nonneg k (framesOf before)
    have htotal : total k (framesOf (y :: before)) =
        weight k y.2.toCacheFrame+total k (framesOf before) := total_cons ..
    have hadd : int32 (sums.count k+weight k y.2.toCacheFrame) =
        sums.count k+weight k y.2.toCacheFrame := int32_total (by omega) (by omega)
    have hstep : PassedSums.count
        { nDataSize := int32 (sums.nDataSize+y.2.nLength)
          nFrameNum := int32 (sums.nFrameNum+1)
          nVideoFrameNum := if y.2.eMediaType = .video then int32 (sums.nVideoFrameNum+1)
            else sums.nVideoFrameNum } k = sums.count k+weight k y.2.toCacheFrame := by
      cases k with
      | bytes => exact hadd
      | frames => exact hadd
      | videos =>
        refine (int32_video _ 1 y.2.toCacheFrame hlo (by omega)).trans ?_
        rw [one_mul]
        exact hadd
    rw [hcounts k (by rw [hstep]; omega) (by rw [hstep]; omega),hstep]
    omega

structure Divided (c c' : StreamCache) (passed pending passed' pending' : List (ℕ × CacheFrame)) :
    Prop where
  frames : passed' ++ pending' = passed ++ pending
  layout : c'.Layout passed' pending'
  settings : SameSettings c c'
  pcr : c'.pNodeWithLastValidPcr = c.pNodeWithLastValidPcr
  exact : ∀ k, c.Exact k passed pending → total k (passed ++ pending) ≤ intMax →
    c'.Exact k passed' pending'

section
variable {c : StreamCache} {passed pending : List (ℕ × CacheFrame)} (h : c.Layout passed pending)
include h

theorem Divided.refl : Divided c c passed pending passed pending :=
  ⟨rfl,h,.refl c,rfl,fun _ hk _ => hk⟩

theorem Layout.adjustList {before rest : List (ℕ × CacheNode)}
    (hlist : c.listFrom c.pPassedHead = some (before ++ rest))
    (hframes : framesOf (before ++ rest) = passed ++ pending) :
    ∃ c', c.adjustList (pointer rest) = some c' ∧ c'.pHead = pointer rest ∧ c'.heap = c.heap ∧
      Divided c c' passed pending (framesOf before) (framesOf rest) := by
  obtain ⟨sums,hsums,hcounts⟩ := sumsBefore_spec before rest ⟨0,0,0⟩ (hframes ▸ h.nodup)
  have hsplit : framesOf before ++ framesOf rest = passed ++ pending := by
    rw [← framesOf_append,hframes]
  refine ⟨c.divide (pointer rest) sums,
    by rw [StreamCache.adjustList,hlist,bind_some,hsums,map_some],rfl,
    rfl,hsplit,⟨?_,pointer_eq rest,?_,?_,?_⟩,⟨rfl,rfl,rfl⟩,rfl,fun k hk hfits => ?_⟩
  · rw [hsplit]
    exact h.chain
  · rw [hsplit]
    exact h.tail
  · rw [hsplit]
    exact h.frames
  · rw [hsplit]
    exact h.old
  · have hsum := congrArg (total k) hsplit
    rw [total_append,total_append] at hsum
    rw [total_append] at hfits
    have h₁ := total_nonneg k (framesOf before)
    have h₂ := total_nonneg k (framesOf rest)
    have hpending := hk.pending
    have hpassed := hk.passed
    have hzero : (⟨0,0,0⟩ : PassedSums).count k = 0 := by cases k <;> rfl
    have hcount : sums.count k = total k (framesOf before) := by
      rw [hcounts k (by rw [hzero]) (by rw [hzero]; omega),hzero,zero_add]
    have hnew : int32 (int32 (c.passedCount k+c.pendingCount k)-sums.count k) =
        total k (framesOf rest) := by
      rw [hpending,hpassed,hcount,int32_total (x := total k passed+total k pending)
        (by omega) (by omega),int32_total (by omega) (by omega)]
      omega
    cases k <;> exact ⟨hnew,hcount⟩

end

end StreamCache

end TinaPackage.PlayerCache
