import TinaPackage.FbmModel

/-! What queueing does to a manager: only links and one head change. -/
namespace TinaPackage.FrameBuffer
open Function Fbm

def Fbm.relink (f : Fbm) (next : ℕ → Option ℕ) (q : QueueId) (p : Option ℕ) : Fbm :=
  { f with pFrames := fun i => { f.pFrames i with pNext := next i } }.setHead q p

section Fields
variable (f : Fbm) (next : ℕ → Option ℕ) (q : QueueId) (p : Option ℕ) (i : ℕ)

@[simp] theorem relink_next : (f.relink next q p).next = next := by
  cases q <;> rfl

@[simp] theorem relink_flag : (f.relink next q p).flag = f.flag := by
  cases q <;> rfl

@[simp] theorem relink_vpicture :
    ((f.relink next q p).pFrames i).vpicture = (f.pFrames i).vpicture := by
  cases q <;> rfl

@[simp] theorem relink_nMaxFrameNum : (f.relink next q p).nMaxFrameNum = f.nMaxFrameNum := by
  cases q <;> rfl

@[simp] theorem relink_head_self : (f.relink next q p).head q = p := by
  cases q <;> rfl

theorem relink_head_of_ne {q' : QueueId} (hq : q' ≠ q) :
    (f.relink next q p).head q' = f.head q' := by
  cases q <;> cases q' <;> first | rfl | exact absurd rfl hq

section
variable (g : FrameNodeFlag → FrameNodeFlag)
include g

attribute [local simp] modifyFlag

@[simp] theorem modifyFlag_next : (f.modifyFlag i g).next = f.next := by
  funext j
  by_cases hj : j = i
  · subst hj; simp [modifyFrame,next]
  · simp [modifyFrame,next,hj]

@[simp] theorem modifyFlag_flag : (f.modifyFlag i g).flag = update f.flag i (g (f.flag i)) := by
  funext j
  by_cases hj : j = i
  · subst hj; simp [modifyFrame,flag]
  · simp [modifyFrame,flag,hj]

@[simp] theorem modifyFlag_vpicture (j : ℕ) :
    ((f.modifyFlag i g).pFrames j).vpicture = (f.pFrames j).vpicture := by
  by_cases hj : j = i
  · subst hj; simp [modifyFrame]
  · simp [modifyFrame,hj]

@[simp] theorem modifyFlag_head : (f.modifyFlag i g).head = f.head := by
  funext q; cases q <;> rfl

@[simp] theorem modifyFlag_nEmptyBufferNum :
    (f.modifyFlag i g).nEmptyBufferNum = f.nEmptyBufferNum := rfl

@[simp] theorem modifyFlag_nValidPictureNum :
    (f.modifyFlag i g).nValidPictureNum = f.nValidPictureNum := rfl

end

end Fields

section
variable (f : Fbm) (q : QueueId)
include f q

theorem setNext_eq_relink (i : ℕ) (p : Option ℕ) :
    f.setNext i p = f.relink (update f.next i p) q (f.head q) := by
  have hnode (j : ℕ) : (f.setNext i p).pFrames j =
      { f.pFrames j with pNext := update f.next i p j } := by
    by_cases hj : j = i
    · subst hj; simp [setNext,modifyFrame]
    · simp [setNext,modifyFrame,hj,next]
  have hframes := funext hnode
  cases q <;> simp only [relink,setHead,head,← hframes] <;> rfl

theorem fbmEnqueue_spec (p : ℕ) (xs : List ℕ) (hc : Chain f.next (f.head q) xs)
    (hlt : ∀ x ∈ xs, x < f.nMaxFrameNum) (hp : p ∉ xs) :
    ∃ next h, fbmEnqueue f q p = some (f.relink next q h) ∧ Chain next h (xs ++ [p]) ∧
      ∀ (o : Option ℕ) (ys : List ℕ), Chain f.next o ys → p ∉ ys → (∀ y ∈ ys, y ∉ xs) →
        Chain next o ys := by
  cases xs with
  | nil =>
    have hh : f.head q = none := hc
    refine ⟨update f.next p none,some p,?_,⟨rfl,by simp [Chain]⟩,?_⟩
    · simp only [fbmEnqueue,hh,setNext_eq_relink _ q]
      cases q <;> rfl
    · exact fun o ys ho hpy _ => chain_update_of_notMem hpy none ho
  | cons x xs =>
    have hh : f.head q = some x := hc.1
    have hlen : xs.length < f.nMaxFrameNum := by
      have hle := chain_length_le hc hlt
      rw [List.length_cons] at hle
      omega
    have hlast := walkLast_chain (hh ▸ hc) hlen
    have hlink := chain_link_last hc (List.cons_ne_nil x xs) hp
    refine ⟨_,f.head q,?_,hlink,?_⟩
    · simp only [fbmEnqueue,hh,hlast,Option.map_some,setNext_eq_relink _ q,relink_next,
        relink_head_self]
      cases q <;> rfl
    · intro o ys ho hpy hdis
      refine chain_update_of_notMem hpy none (chain_update_of_notMem ?_ (some p) ho)
      exact fun hm => hdis _ hm (List.getLast_mem _)

theorem fbmDequeue_spec (x : ℕ) (xs : List ℕ) (hc : Chain f.next (f.head q) (x :: xs)) :
    ∃ next h, fbmDequeue f q = some (x, f.relink next q h) ∧ Chain next h xs ∧
      ∀ (o : Option ℕ) (ys : List ℕ), Chain f.next o ys → x ∉ ys → Chain next o ys := by
  have hh : f.head q = some x := hc.1
  refine ⟨update f.next x none,f.next x,?_,?_,?_⟩
  · simp only [fbmDequeue,hh,setNext_eq_relink _ q]
    cases q <;> rfl
  · exact chain_update_of_notMem (List.nodup_cons.mp (chain_nodup hc)).1 none hc.2
  · exact fun o ys ho hxy => chain_update_of_notMem hxy none ho

theorem fbmDequeue_nil (hc : Chain f.next (f.head q) []) : fbmDequeue f q = none := by
  have hh : f.head q = none := hc
  simp only [fbmDequeue,hh]

end

/-- The queues of a manager hold the listed frames. They share the `pNext`
field, so no frame may be in two of them. -/
structure Queues (f : Fbm) (qs : QueueId → List ℕ) : Prop where
  chain : ∀ q, Chain f.next (f.head q) (qs q)
  lt : ∀ q, ∀ i ∈ qs q, i < f.nMaxFrameNum
  disjoint : ∀ q q', q ≠ q' → ∀ i ∈ qs q, i ∉ qs q'

section Queues
variable {f g : Fbm} {qs : QueueId → List ℕ}

section
variable (h : Queues f qs)
include h

theorem Queues.congr (hnext : g.next = f.next) (hhead : g.head = f.head)
    (hmax : g.nMaxFrameNum = f.nMaxFrameNum) : Queues g qs where
  chain q := by rw [hnext,hhead]; exact h.chain q
  lt q i hi := by rw [hmax]; exact h.lt q i hi
  disjoint := h.disjoint

theorem Queues.nodup (q : QueueId) : (qs q).Nodup :=
  chain_nodup (h.chain q)

theorem Queues.enqueue (q : QueueId) {i : ℕ} (hi : i < f.nMaxFrameNum) (hfree : ∀ q', i ∉ qs q') :
    ∃ next p, fbmEnqueue f q i = some (f.relink next q p) ∧
      Queues (f.relink next q p) (update qs q (qs q ++ [i])) := by
  obtain ⟨next,p,he,hc,hframe⟩ := fbmEnqueue_spec f q i (qs q) (h.chain q) (h.lt q) (hfree q)
  have hmem (q' : QueueId) (j : ℕ) (hj : j ∈ update qs q (qs q ++ [i]) q') :
      j ∈ qs q' ∨ (q' = q ∧ j = i) := by
    by_cases hq : q' = q
    · subst hq; simpa using hj
    · rw [update_of_ne hq] at hj; exact Or.inl hj
  refine ⟨next,p,he,⟨fun q' => ?_, fun q' j hj => ?_, fun q' q'' hne j hj hj' => ?_⟩⟩
  · rw [relink_next]
    by_cases hq : q' = q
    · subst hq; rw [relink_head_self,update_self]; exact hc
    · rw [relink_head_of_ne _ _ _ _ hq,update_of_ne hq]
      exact hframe _ _ (h.chain q') (hfree q') (fun y hy => h.disjoint q' q hq y hy)
  · rw [relink_nMaxFrameNum]
    rcases hmem q' j hj with hj | ⟨-,rfl⟩
    · exact h.lt q' j hj
    · exact hi
  · rcases hmem q' j hj with hold | ⟨hq,hji⟩ <;> rcases hmem q'' j hj' with hold' | ⟨hq',hji'⟩
    · exact h.disjoint q' q'' hne j hold hold'
    · exact hfree q' (hji' ▸ hold)
    · exact hfree q'' (hji ▸ hold')
    · exact hne (hq.trans hq'.symm)

theorem Queues.dequeue (q : QueueId) {i : ℕ} {rest : List ℕ} (hq : qs q = i :: rest) :
    ∃ next p, fbmDequeue f q = some (i, f.relink next q p) ∧
      Queues (f.relink next q p) (update qs q rest) ∧
      ∀ q', i ∉ update qs q rest q' := by
  have hchain := h.chain q
  rw [hq] at hchain
  obtain ⟨next,p,hd,hc,hframe⟩ := fbmDequeue_spec f q i rest hchain
  have hi : i ∈ qs q := by rw [hq]; exact List.mem_cons_self ..
  have hsub (q' : QueueId) (j : ℕ) (hj : j ∈ update qs q rest q') : j ∈ qs q' := by
    by_cases hqq : q' = q
    · subst hqq; rw [update_self] at hj; rw [hq]; exact List.mem_cons_of_mem _ hj
    · rwa [update_of_ne hqq] at hj
  refine ⟨next,p,hd,⟨fun q' => ?_, fun q' j hj => ?_, fun q' q'' hne j hj hj' => ?_⟩,
    fun q' hiq => ?_⟩
  · rw [relink_next]
    by_cases hqq : q' = q
    · subst hqq; rw [relink_head_self,update_self]; exact hc
    · rw [relink_head_of_ne _ _ _ _ hqq,update_of_ne hqq]
      exact hframe _ _ (h.chain q') (fun hm => h.disjoint q' q hqq i hm hi)
  · rw [relink_nMaxFrameNum]; exact h.lt q' j (hsub q' j hj)
  · exact h.disjoint q' q'' hne j (hsub q' j hj) (hsub q'' j hj')
  · by_cases hqq : q' = q
    · subst hqq
      rw [update_self] at hiq
      exact (List.nodup_cons.mp (chain_nodup hchain)).1 hiq
    · exact h.disjoint q' q hqq i (hsub q' i hiq) hi

theorem Queues.dequeue_nil {q : QueueId} (hq : qs q = []) : fbmDequeue f q = none := by
  have hchain := h.chain q
  rw [hq] at hchain
  exact fbmDequeue_nil f q hchain

end

end Queues

end TinaPackage.FrameBuffer
