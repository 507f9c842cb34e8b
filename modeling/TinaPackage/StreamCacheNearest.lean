import TinaPackage.StreamCacheRuns

/-! A seek by time stamp in the player's cache (`StreamCacheSeekByPts`) finds the nearest key
frame. -/
namespace TinaPackage.PlayerCache
open List StreamCache

/-- Frame `f` is a key frame and nearest to time `t` among the key frames, the first of these. -/
structure NearestKey (isKey : CacheFrame → Bool) (t : ℤ) (before : List CacheFrame)
    (f : CacheFrame) (after : List CacheFrame) : Prop where
  key : isKey f = true
  before : ∀ g ∈ before, isKey g = true → |f.nPts-t| < |g.nPts-t|
  after : ∀ g ∈ after, isKey g = true → |f.nPts-t| ≤ |g.nPts-t|

namespace StreamCache

def contents (c : StreamCache) : List CacheFrame := c.passedFrames ++ c.pendingFrames

def KeysInOrder (c : StreamCache) : Prop :=
  (c.contents.filter c.isKeyFrame).Pairwise fun f g => f.nPts ≤ g.nPts

def KeysTimed (c : StreamCache) : Prop :=
  ∀ f ∈ c.contents, c.isKeyFrame f = true → 0 ≤ f.nPts ∧ f.nPts ≤ int64Max

instance (c : StreamCache) : Decidable c.KeysInOrder := by
  unfold KeysInOrder
  infer_instance

instance (c : StreamCache) : Decidable c.KeysTimed := by
  unfold KeysTimed
  infer_instance

variable {c : StreamCache} {t : ℤ} {list all : List (ℕ × CacheNode)}

variable {rest : List (ℕ × CacheNode)}

theorem firstKeyFrame_eq_some
    (hkeys : ∀ y ∈ list, c.isKeyFrame y.2.toCacheFrame = true → 0 ≤ y.2.nPts)
    (h : c.firstKeyFrame t list = some rest) :
    ∃ lead p node tail, list = lead ++ (p, node) :: tail ∧ rest = (p, node) :: tail ∧
      (∀ y ∈ lead, c.isKeyFrame y.2.toCacheFrame = false) ∧
      c.isKeyFrame node.toCacheFrame = true ∧ node.nPts ≤ t := by
  induction list with
  | nil => cases h
  | cons y list ih =>
    obtain ⟨q,m⟩ := y
    have hm : c.isKeyFrame m.toCacheFrame = true → 0 ≤ m.nPts := hkeys (q, m) (mem_cons_self ..)
    by_cases hkey : c.isKeyFrame m.toCacheFrame = true
    · -- the loop ends here, one way or the other
      have hpts := hm hkey
      rw [firstKeyFrame,if_neg (by omega),if_pos hkey] at h
      split_ifs at h with hlate
      cases h
      exact ⟨[],q,m,list,rfl,rfl,by simp,hkey,not_lt.mp hlate⟩
    · have hnext : c.firstKeyFrame t list = some rest := by
        rw [firstKeyFrame] at h
        split_ifs at h
        · exact h
        · exact h
      obtain ⟨lead,p,node,tail,rfl,hrest,hlead,hnode⟩ :=
        ih (fun y hy => hkeys y (mem_cons_of_mem _ hy)) hnext
      exact ⟨(q, m) :: lead,p,node,tail,rfl,hrest,
        forall_mem_cons.mpr ⟨by simpa using hkey,hlead⟩, hnode⟩

/-- Among the frames `seen` of the list, the first key frame with the latest time `b` is the head
of `pBefore`. It is not later than `t`. -/
structure Latest (c : StreamCache) (t : ℤ) (all seen pBefore : List (ℕ × CacheNode)) (b : ℤ) :
    Prop where
  found : ∃ early p node tail, pBefore = (p, node) :: tail ∧ all = early ++ pBefore ∧
    c.isKeyFrame node.toCacheFrame = true ∧ node.nPts = b ∧
    ∀ y ∈ early, c.isKeyFrame y.2.toCacheFrame = true → y.2.nPts < b
  seen : ∀ y ∈ seen, c.isKeyFrame y.2.toCacheFrame = true → y.2.nPts ≤ b
  le : b ≤ t

variable {b : ℤ}

theorem Latest.skip {seen pBefore : List (ℕ × CacheNode)} (h : Latest c t all seen pBefore b)
    {y : ℕ × CacheNode} (hy : c.isKeyFrame y.2.toCacheFrame = true → y.2.nPts ≤ b) :
    Latest c t all (seen ++ [y]) pBefore b :=
  ⟨h.found,forall_mem_append.mpr ⟨h.seen,forall_mem_singleton.mpr hy⟩,h.le⟩

/-- What the second loop finds: the latest key frame up to time `t`, and the first one after it. -/
def Scanned (c : StreamCache) (t : ℤ) (all : List (ℕ × CacheNode)) (near : Nearest) : Prop :=
  ∃ seen, Latest c t all seen near.pBefore near.before ∧ all = seen ++ near.pAfter ∧
    (near.pAfter = [] ∧ near.after = int64Max ∨ ∃ q m tail, near.pAfter = (q, m) :: tail ∧
      c.isKeyFrame m.toCacheFrame = true ∧ m.nPts = near.after ∧ t < near.after)

theorem nearestPts_latest (hkeys : ∀ y ∈ all, c.isKeyFrame y.2.toCacheFrame = true → 0 ≤ y.2.nPts) :
    ∀ {seen pBefore : List (ℕ × CacheNode)} {b : ℤ}, Latest c t all seen pBefore b →
      all = seen ++ list → Scanned c t all (c.nearestPts t b pBefore list) := by
  induction list with
  | nil =>
    intro seen pBefore b h hall
    exact ⟨seen,h,hall,.inl ⟨rfl,rfl⟩⟩
  | cons y list ih =>
    intro seen pBefore b h hall
    obtain ⟨p,node⟩ := y
    have hnext : all = (seen ++ [(p, node)]) ++ list := by rw [hall]; simp
    have hnode : c.isKeyFrame node.toCacheFrame = true → 0 ≤ node.nPts :=
      hkeys (p, node) (by rw [hall]; simp)
    rw [nearestPts]
    split_ifs with hskip hearlier hlater
    · refine ih (h.skip fun hkey => ?_) hnext
      have hpts := hnode hkey
      rcases hskip with hnone | hnot
      · omega
      · exact absurd hkey hnot
    · obtain ⟨hle,hmore⟩ := hearlier
      have hkey : c.isKeyFrame node.toCacheFrame = true := by
        by_contra hkey
        exact hskip (.inr hkey)
      refine ih (b := node.nPts) ⟨⟨seen,p,node,list,rfl,hall,hkey,rfl,?_⟩,?_,hle⟩ hnext
      · intro z hz hzkey
        exact lt_of_le_of_lt (h.seen z hz hzkey) hmore
      · refine forall_mem_append.mpr ⟨?_,forall_mem_singleton.mpr fun _ => le_refl _⟩
        intro z hz hzkey
        exact le_trans (h.seen z hz hzkey) (le_of_lt hmore)
    · have hkey : c.isKeyFrame node.toCacheFrame = true := by
        by_contra hkey
        exact hskip (.inr hkey)
      exact ⟨seen,h,hall,.inr ⟨p,node,list,rfl,hkey,rfl,hlater⟩⟩
    · refine ih (h.skip fun _ => ?_) hnext
      show node.nPts ≤ b
      omega

def frameOf (y : ℕ × CacheNode) : CacheFrame := y.2.toCacheFrame

theorem map_snd_framesOf (list : List (ℕ × CacheNode)) :
    (framesOf list).map Prod.snd = list.map frameOf := by
  rw [framesOf,map_map]
  rfl

section Choice
variable {passed pending : List (ℕ × CacheFrame)}

theorem Layout.contents_eq (h : c.Layout passed pending)
    (hframes : framesOf list = passed ++ pending) : c.contents = list.map frameOf := by
  rw [contents,h.passedFrames,h.pendingFrames,← map_append,← hframes,map_snd_framesOf]

section
variable (h : c.Layout passed pending) {early tail : List (ℕ × CacheNode)} {q : ℕ} {m : CacheNode}
include h

theorem Layout.contents_split (hframes : framesOf (early ++ (q, m) :: tail) = passed ++ pending) :
    c.contents = early.map frameOf ++ m.toCacheFrame :: tail.map frameOf := by
  rw [h.contents_eq hframes,map_append,map_cons]
  rfl

theorem Layout.found_at (hlist : c.listFrom c.pPassedHead = some (early ++ (q, m) :: tail))
    (hframes : framesOf (early ++ (q, m) :: tail) = passed ++ pending) (hq : c.heap q = some m)
    (hnear : NearestKey c.isKeyFrame t (early.map frameOf) m.toCacheFrame (tail.map frameOf)) :
    ∃ c' before f after, ((c.adjustList (pointer ((q, m) :: tail))).bind fun c =>
        (c.pHead.bind c.heap).map fun node => (c, node.nPts)) = some (c', f.nPts) ∧
      c'.passedFrames = before ∧ c'.pendingFrames = f :: after ∧
      c.contents = before ++ f :: after ∧ NearestKey c.isKeyFrame t before f after := by
  obtain ⟨c',hadjust,hhead,hheap,hdivided⟩ := h.adjustList hlist hframes
  refine ⟨c',_,m.toCacheFrame,_,?_,?_,?_,h.contents_split hframes,hnear⟩
  · have hnode : c'.pHead.bind c'.heap = some m := by
      rw [hhead,hheap]
      exact hq
    rw [hadjust,Option.bind_some,hnode,Option.map_some]
  · rw [hdivided.layout.passedFrames,map_snd_framesOf]
  · rw [hdivided.layout.pendingFrames,map_snd_framesOf]
    rfl

end

theorem Latest.nearest {seen pBefore rest : List (ℕ × CacheNode)}
    (h : Latest c t all seen pBefore b) (hall : all = seen ++ rest)
    (hrest : ∀ y ∈ rest, c.isKeyFrame y.2.toCacheFrame = true → t-b ≤ y.2.nPts-t) :
    ∃ early p node tail, pBefore = (p, node) :: tail ∧ all = early ++ (p, node) :: tail ∧
      NearestKey c.isKeyFrame t (early.map frameOf) node.toCacheFrame (tail.map frameOf) := by
  obtain ⟨early,p,node,tail,rfl,hsplit,hkey,rfl,hearly⟩ := h.found
  have hle := h.le
  have hdist : |node.nPts-t| = t-node.nPts := by
    rw [abs_of_nonpos (by omega)]
    omega
  refine ⟨early,p,node,tail,rfl,hsplit,hkey,?_,?_⟩
  · refine forall_mem_map.mpr fun y hy hgkey => ?_
    have hlt : y.2.nPts < node.nPts := hearly y hy hgkey
    have habs := neg_le_abs (y.2.nPts-t)
    show |node.nPts-t| < |y.2.nPts-t|
    omega
  · refine forall_mem_map.mpr fun y hy hgkey => ?_
    have hmem : y ∈ seen ++ rest := by
      rw [← hall,hsplit]
      exact mem_append_right _ (mem_cons_of_mem _ hy)
    show |node.nPts-t| ≤ |y.2.nPts-t|
    rcases mem_append.mp hmem with hy | hy
    · have hle' := h.seen y hy hgkey
      have habs := neg_le_abs (y.2.nPts-t)
      omega
    · have hge := hrest y hy hgkey
      have habs := le_abs_self (y.2.nPts-t)
      omega

theorem Latest.nearest_after {seen pBefore tail : List (ℕ × CacheNode)} {m : CacheNode}
    (h : Latest c t all seen pBefore b) (hkey : c.isKeyFrame m.toCacheFrame = true)
    (hlt : t < m.nPts) (hnear : m.nPts-t < t-b)
    (htail : ∀ y ∈ tail, c.isKeyFrame y.2.toCacheFrame = true → m.nPts ≤ y.2.nPts) :
    NearestKey c.isKeyFrame t (seen.map frameOf) m.toCacheFrame (tail.map frameOf) := by
  have hdist : |m.nPts-t| = m.nPts-t := abs_of_nonneg (by omega)
  refine ⟨hkey,?_,?_⟩
  · refine forall_mem_map.mpr fun y hy hgkey => ?_
    have hle := h.seen y hy hgkey
    have habs := neg_le_abs (y.2.nPts-t)
    show |m.nPts-t| < |y.2.nPts-t|
    omega
  · refine forall_mem_map.mpr fun y hy hgkey => ?_
    have hge := htail y hy hgkey
    have habs := le_abs_self (y.2.nPts-t)
    show |m.nPts-t| ≤ |y.2.nPts-t|
    omega

theorem scan_latest
    (hkeys : ∀ y ∈ list, c.isKeyFrame y.2.toCacheFrame = true → 0 ≤ y.2.nPts)
    (hfirst : c.firstKeyFrame t list = some rest) :
    Scanned c t list (c.nearestPts t (-1) [] rest) := by
  obtain ⟨lead,p,node,tail,rfl,rfl,hlead,hkey,hle⟩ := firstKeyFrame_eq_some hkeys hfirst
  have hpts : 0 ≤ node.nPts := hkeys (p, node) (by simp) hkey
  rw [nearestPts_found hpts hle hkey]
  have hnokey {y : ℕ × CacheNode} (hy : y ∈ lead) (hykey : c.isKeyFrame y.2.toCacheFrame = true)
      {P : Prop} : P := by
    rw [hlead y hy] at hykey
    cases hykey
  have hstart : Latest c t (lead ++ (p, node) :: tail) (lead ++ [(p, node)]) ((p, node) :: tail)
      node.nPts :=
    ⟨⟨lead,p,node,tail,rfl,rfl,hkey,rfl,fun y hy hykey => hnokey hy hykey⟩,
      forall_mem_append.mpr ⟨fun y hy hykey => hnokey hy hykey,
        forall_mem_singleton.mpr fun _ => le_refl _⟩, hle⟩
  exact nearestPts_latest hkeys hstart (by simp)

theorem KeysInOrder.le_tail (h : c.KeysInOrder) {xs ys : List CacheFrame} {f : CacheFrame}
    (hcontents : c.contents = xs ++ f :: ys) (hf : c.isKeyFrame f = true) :
    ∀ g ∈ ys, c.isKeyFrame g = true → f.nPts ≤ g.nPts := by
  intro g hg hgkey
  rw [KeysInOrder,hcontents,filter_append,filter_cons_of_pos hf,pairwise_append,pairwise_cons] at h
  exact h.2.1.1 g (mem_filter.mpr ⟨hg,hgkey⟩)

/-- What the seek should do: nothing, or make a nearest key frame the first pending one. -/
def SeeksNearest (c : StreamCache) (t : ℤ) : Prop :=
  c.seekByPts t = some (c, -1) ∨
    ∃ c' before f after, c.seekByPts t = some (c', f.nPts) ∧ c'.passedFrames = before ∧
      c'.pendingFrames = f :: after ∧ c.contents = before ++ f :: after ∧
      NearestKey c.isKeyFrame t before f after

theorem Layout.seekByPts_nearest (h : c.Layout passed pending) (horder : c.KeysInOrder)
    (htimed : c.KeysTimed) (ht : 0 ≤ t) (htmax : t+1000000 ≤ int64Max) : c.SeeksNearest t := by
  obtain ⟨list,hlist,hframes,hheap⟩ := h.listFrom
  have hcontents := h.contents_eq hframes
  have htimes : ∀ y ∈ list, c.isKeyFrame y.2.toCacheFrame = true →
      0 ≤ y.2.nPts ∧ y.2.nPts ≤ int64Max := by
    intro y hy hkey
    refine htimed (frameOf y) ?_ hkey
    rw [hcontents]
    exact mem_map_of_mem hy
  have hkeys : ∀ y ∈ list, c.isKeyFrame y.2.toCacheFrame = true → 0 ≤ y.2.nPts :=
    fun y hy hkey => (htimes y hy hkey).1
  unfold SeeksNearest
  rw [StreamCache.seekByPts,hlist,Option.bind_some]
  by_cases hvalid : c.nLastValidPts < t
  · exact .inl (if_pos hvalid)
  rw [if_neg hvalid]
  cases hfirst : c.firstKeyFrame t list with
  | none => exact .inl rfl
  | some rest =>
    obtain ⟨seen,hlatest,hsplit,hafter⟩ := scan_latest hkeys hfirst
    dsimp only
    generalize c.nearestPts t (-1) [] rest = near at *
    have hle := hlatest.le
    have hbefore : 0 ≤ near.before := by
      obtain ⟨early,p,node,tail,hp,hall,hkey,hb,-⟩ := hlatest.found
      rw [← hb]
      exact hkeys (p, node) (by rw [hall,hp]; simp) hkey
    have hmax : t ≤ near.after ∧ near.after ≤ int64Max := by
      rcases hafter with ⟨-,hmax⟩ | ⟨q,m,tail,hcons,hmkey,hm,hlt⟩
      · rw [hmax]
        exact ⟨by omega,le_refl _⟩
      · exact ⟨le_of_lt hlt,hm ▸ (htimes (q, m) (by rw [hsplit,hcons]; simp) hmkey).2⟩
    have hdiff : int64 (t-near.before) = t-near.before := by
      unfold int64Max at *
      exact int64_of_range (by omega) (by omega)
    have hroom : int64 (near.after-t) = near.after-t := by
      unfold int64Max at *
      exact int64_of_range (by omega) (by omega)
    rw [hdiff,hroom]
    by_cases hfar : near.pAfter = [] ∧ t-near.before ≥ 1000000
    · exact .inl (if_pos hfar)
    rw [if_neg hfar]
    right
    by_cases hclose : t-near.before ≤ near.after-t
    · -- the key frame before the seek time
      rw [if_pos hclose]
      obtain ⟨early,p,node,tail,hp,hall,hnearest⟩ := hlatest.nearest hsplit (by
        intro y hy hykey
        rcases hafter with ⟨hnil,-⟩ | ⟨q,m,tail,hcons,hmkey,hm,-⟩
        · rw [hnil] at hy
          cases hy
        · rw [hcons] at hy hsplit
          rcases mem_cons.mp hy with rfl | hy
          · exact hm ▸ hclose
          · have hge : m.nPts ≤ y.2.nPts := horder.le_tail (h.contents_split (hsplit ▸ hframes))
              hmkey _ (mem_map_of_mem hy) hykey
            omega)
      rw [hall] at hlist hframes
      rw [hp]
      exact h.found_at hlist hframes (hheap (p, node) (by rw [hall]; simp)) hnearest
    · rw [if_neg hclose]
      rcases hafter with ⟨hnil,hmax'⟩ | ⟨q,m,tail,hcons,hmkey,hm,hlt⟩
      · -- without a key frame after it, the end of the clock stands for one
        have hnear := not_and.mp hfar hnil
        omega
      · rw [hcons] at hsplit
        have hnearest : NearestKey c.isKeyFrame t (seen.map frameOf) m.toCacheFrame
            (tail.map frameOf) :=
          hlatest.nearest_after hmkey (hm ▸ hlt) (by omega) fun y hy hykey =>
            horder.le_tail (h.contents_split (hsplit ▸ hframes)) hmkey _ (mem_map_of_mem hy) hykey
        rw [hsplit] at hlist hframes
        rw [hcons]
        exact h.found_at hlist hframes (hheap (q, m) (by rw [hsplit]; simp)) hnearest

end Choice

end StreamCache

/-- A seek by time stamp in a cache whose key frames are in the order of their times, to a time up
to a second before the end of the clock, fails and changes nothing, or makes the pending frames
start at a key frame nearest to the seek time and returns its time. -/
theorem seek_finds_nearest (c : StreamCache)
    (hlist : ∃ passed pending, c.Layout passed pending) (horder : c.KeysInOrder)
    (htimed : c.KeysTimed) (t : ℤ) (ht : 0 ≤ t) (htmax : t+1000000 ≤ int64Max) :
    c.SeeksNearest t := by
  obtain ⟨passed,pending,h⟩ := hlist
  exact h.seekByPts_nearest horder htimed ht htmax

def timedFrame (nPts : ℤ) (isKey : Bool) : CacheFrame :=
  { pData := [], nPts, nPcr := -1, eMediaType := .video,
    nFlags := if isKey then keyFrameFlag else 0 }

def threeFrames : StreamCache :=
  { create 100 .other .h264 with
    heap := fun p =>
      [{ timedFrame 10 true with pNext := some 1 },{ timedFrame 15 false with pNext := some 2 },
        { timedFrame 20 true with pNext := none }][p]?
    pPassedHead := some 0
    pHead := some 1
    pTail := some 2
    nLastValidPts := 20
    nNodes := 3 }

theorem threeFrames_layout : threeFrames.Layout [(0, timedFrame 10 true)]
    [(1, timedFrame 15 false),(2, timedFrame 20 true)] where
  chain := ⟨rfl,rfl,rfl,rfl⟩
  head := rfl
  tail := rfl
  frames := by decide
  old := by decide

/-- The earlier of two key frames that are as near. -/
theorem seek_finds_nearest_in_three_frames : threeFrames.SeeksNearest 15 :=
  seek_finds_nearest threeFrames ⟨_,_,threeFrames_layout⟩ (by decide +kernel) (by decide +kernel) 15
    (by decide) (by decide)

end TinaPackage.PlayerCache
