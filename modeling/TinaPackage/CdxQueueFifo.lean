import TinaPackage.CdxQueueModel
import TinaPackage.LinkedChain

/-! The queue is first in first out and frees every node it has left once, if
its pushes do not overlap between their reads of `rear` and its next value, and
its pops not between their reads of `front` and their ends. -/
namespace TinaPackage.Queue
open Function List Option PopPc State

variable {α ι κ : Type*}

def nextOf (heap : ℕ → Option (Node α)) (a : ℕ) : Option ℕ :=
  (heap a).bind fun nd => if nd.next = 0 then none else some nd.next

variable {a : ℕ} {nd : Node α}

theorem nextOf_eq {heap : ℕ → Option (Node α)} (h : heap a = some nd) :
    nextOf heap a = if nd.next = 0 then none else some nd.next := by
  rw [nextOf,h,bind_some]

def Holds (heap : ℕ → Option (Node α)) (a : ℕ) (v : α) : Prop :=
  ∃ nd, heap a = some nd ∧ nd.data = v

def PushPc.entity : PushPc α → Option (ℕ × α)
  | .readRear entity data | .link entity data _ => some (entity, data)
  | _ => none

/-- What the pop has added to the reference count of the node at `a`. -/
def PopPc.held (a : ℕ) : PopPc α → ℤ
  | .test e | .readNext e | .readData e _ | .rereadNext e _ | .cas e _ _ => if a = e then 1 else 0
  | .decRef _ (.last _) => 0
  | .decRef e _ => if a = e then 1 else 0
  | .free e _ => if a = e then -1 else 0
  | _ => 0

/-- The node that `front` has left and the pop has not freed. -/
def PopPc.unfreed : PopPc α → List ℕ
  | .decRef e (.own _) | .decRef e (.last _) | .free e (.last _) => [e]
  | _ => []

/-- What the pop knows, if the queue has the addresses `rest` and the values
`vals` behind its front. -/
def PopPc.Knows (front : ℕ) (rest : List ℕ) (vals : List α) : PopPc α → Prop
  | .incRef e | .test e | .decRef e .empty => e = front
  | .readNext e => e = front ∧ rest ≠ []
  | .readData e next => e = front ∧ rest.head? = some next
  | .rereadNext e data => e = front ∧ vals.head? = some data
  | .cas e data next => e = front ∧ vals.head? = some data ∧ rest.head? = some next
  | .decRef _ .retry | .free _ .retry | .free _ .empty | .free _ (.own _) => False
  | .ready | .decRef _ (.own _) | .decRef _ (.last _) | .free _ (.last _) | .done _ => True

variable {rest : List ℕ} {vals : List α} {po : PopPc α}

theorem PopPc.Knows.append {front : ℕ} (h : po.Knows front rest vals) (e : ℕ) (data : α) :
    po.Knows front (rest ++ [e]) (vals ++ [data]) := by
  cases po with
  | readNext e => exact ⟨h.1,by simp⟩
  | readData e next | rereadNext e data => exact ⟨h.1,mem_head?_append_of_mem_head? h.2⟩
  | cas e data next =>
    exact ⟨h.1,mem_head?_append_of_mem_head? h.2.1,mem_head?_append_of_mem_head? h.2.2⟩
  | decRef e why | free e why => cases why <;> exact h
  | _ => exact h

def PushPc.Tail (rear last : ℕ) : PushPc α → Prop
  | .link _ _ tmp => rear = tmp ∧ last = tmp
  | .swing e tmp => rear = tmp ∧ last = e
  | _ => True

theorem PushPc.tail_of_quiet {rear last : ℕ} {pc : PushPc α} (h : pc.linking = false) :
    pc.Tail rear last := by
  cases pc with
  | link | swing => cases h
  | _ => trivial

/-- The list from `front` on has the addresses `rest` and the values `vals`
behind the front; `po` is the one pop under way. -/
structure Ok (s : Shared α) (pushes : ι → PushPc α) (po : PopPc α) (rest : List ℕ)
    (vals : List α) : Prop where
  wild : s.wild = false
  null : s.heap 0 = none
  chain : Chain (nextOf s.heap) (some s.front) (s.front :: rest)
  front : ∃ nd, s.heap s.front = some nd
  stored : List.Forall₂ (Holds s.heap) rest vals
  linked : s.linked = s.popped ++ vals
  refs : ∀ a nd, s.heap a = some nd → nd.ref = 1+po.held a
  fresh : ∀ i e v, (pushes i).entity = some (e, v) →
    (∃ nd, s.heap e = some nd ∧ nd.next = 0 ∧ nd.data = v) ∧ e ∉ s.front :: rest ∧ e ∉ po.unfreed
  apart : ∀ i j e v w, (pushes i).entity = some (e, v) → (pushes j).entity = some (e, w) → i = j
  tail : ∀ i, (pushes i).Tail s.rear ((s.front :: rest).getLast (cons_ne_nil _ _))
  one : ∀ i j, (pushes i).linking = true → (pushes j).linking = true → i = j
  rear : (∀ i, (pushes i).linking = false) → s.rear = (s.front :: rest).getLast (cons_ne_nil _ _)
  knows : po.Knows s.front rest vals
  left : ∀ e ∈ po.unfreed, (∃ nd, s.heap e = some nd) ∧ e ∉ s.front :: rest
  passed : s.passed = s.freed ++ po.unfreed
  counts : s.passed.length = s.popped.length

structure OnePop (pops : κ → PopPc α) (po : PopPc α) : Prop where
  here : ∀ i, (pops i).active = true → pops i = po
  there : po.active = true → ∃ i, pops i = po
  one : ∀ i j, (pops i).active = true → (pops j).active = true → i = j

def Inv (s : State α ι κ) : Prop :=
  ∃ po rest vals, OnePop s.pops po ∧ Ok s.shared s.pushes po rest vals

namespace Ok
variable {s : Shared α} {pushes : ι → PushPc α} {po po' : PopPc α} {rest : List ℕ} {vals : List α}

section
variable (h : Ok s pushes po rest vals)
include h

theorem ne_zero (hnd : s.heap a = some nd) : a ≠ 0 := by
  rintro rfl
  rw [h.null] at hnd
  cases hnd

theorem others_quiet {i : ι} (hi : (pushes i).linking = true) (j : ι) (hji : j ≠ i) :
    (pushes j).linking = false := by
  by_contra hj
  exact hji (h.one j i (by simpa using hj) hi)

theorem allocated (ha : a ∈ s.front :: rest) : ∃ nd, s.heap a = some nd := by
  rcases mem_cons.mp ha with rfl | hrest
  · exact h.front
  · obtain ⟨i,hi,rfl⟩ := mem_iff_getElem.mp hrest
    have hv : i < vals.length := h.stored.length_eq ▸ hi
    obtain ⟨nd,hnd,-⟩ := (forall₂_iff_get.mp h.stored).2 i hi hv
    exact ⟨nd,hnd⟩

theorem next_front (hnd : s.heap s.front = some nd) :
    nd.next = 0 ∧ rest = [] ∨ nd.next ≠ 0 ∧ rest.head? = some nd.next := by
  have hc := h.chain.2
  rw [nextOf_eq hnd] at hc
  by_cases hz : nd.next = 0
  · rw [if_pos hz] at hc
    exact .inl ⟨hz,chain_none hc⟩
  · rw [if_neg hz] at hc
    cases rest with
    | nil => exact absurd hc (by simp [Chain])
    | cons x xs => exact .inr ⟨hz,hc.1.symm⟩

theorem next_last (hnd : s.heap ((s.front :: rest).getLast (cons_ne_nil _ _)) = some nd) :
    nd.next = 0 := by
  have hc := h.chain
  rw [← dropLast_append_getLast (cons_ne_nil s.front rest)] at hc
  have hend : nextOf s.heap _ = none := chain_suffix hc
  rw [nextOf_eq hnd] at hend
  by_contra hz
  rw [if_neg hz] at hend
  cases hend

theorem held_eq_zero (ha : s.heap a = none) : po.held a = 0 := by
  have hfront : a ≠ s.front := by
    rintro rfl
    obtain ⟨nd,hnd⟩ := h.front
    rw [ha] at hnd
    cases hnd
  have hleft : a ∉ po.unfreed := by
    intro hm
    obtain ⟨⟨nd,hnd⟩,-⟩ := h.left a hm
    rw [ha] at hnd
    cases hnd
  have hk := h.knows
  revert hleft hk
  cases po with
  | decRef e why | free e why => cases why <;> simp_all [held,unfreed,Knows]
  | _ => simp_all [held,unfreed,Knows]

theorem pop_moves (hheld : ∀ a, po'.held a = po.held a) (hunfreed : po'.unfreed = po.unfreed)
    (hknows : po'.Knows s.front rest vals) :
    Ok s pushes po' rest vals where
  __ := h
  refs a nd ha := by rw [hheld,h.refs a nd ha]
  fresh := by rw [hunfreed]; exact h.fresh
  knows := hknows
  left := by rw [hunfreed]; exact h.left
  passed := by rw [hunfreed]; exact h.passed

end

end Ok

section Reference
variable {heap : ℕ → Option (Node α)} {e : ℕ} {nd : Node α} (hnd : heap e = some nd) (r : ℤ)
include hnd

theorem nextOf_update_ref : nextOf (update heap e (some { nd with ref := r })) = nextOf heap := by
  funext a
  by_cases ha : a = e
  · subst ha
    rw [nextOf_eq (update_self ..),nextOf_eq hnd]
  · simp only [nextOf,update_of_ne ha]

theorem Holds.update_ref {v : α} (h : Holds heap a v) :
    Holds (update heap e (some { nd with ref := r })) a v := by
  obtain ⟨nd',ha,hv⟩ := h
  by_cases hae : a = e
  · subst hae
    obtain rfl : nd = nd' := some_inj.mp (hnd.symm.trans ha)
    exact ⟨_,update_self ..,hv⟩
  · exact ⟨nd',by rw [update_of_ne hae,ha],hv⟩

end Reference

variable {pushes : ι → PushPc α} {e : ℕ} {s : Shared α}

theorem Ok.ref_changes {po po' : PopPc α} (h : Ok s pushes po rest vals)
    (hnd : s.heap e = some nd) {r : ℤ} (hr : r = 1+po'.held e)
    (hheld : ∀ a, a ≠ e → po'.held a = po.held a) (hunfreed : po'.unfreed = po.unfreed)
    (hknows : po'.Knows s.front rest vals) :
    Ok (s.put e { nd with ref := r }) pushes po' rest vals := by
  have hput {a : ℕ} {nd' : Node α} (ha : s.heap a = some nd') :
      ∃ nd'', (s.put e { nd with ref := r }).heap a = some nd'' ∧ nd''.next = nd'.next ∧
        nd''.data = nd'.data := by
    by_cases hae : a = e
    · subst hae
      obtain rfl : nd = nd' := some_inj.mp (hnd.symm.trans ha)
      exact ⟨_,s.put_heap_self a _,rfl,rfl⟩
    · exact ⟨nd',(s.put_heap_of_ne hae _).trans ha,rfl,rfl⟩
  refine
    { h with
      null := ?_, chain := ?_, front := ?_, stored := ?_, refs := ?_, fresh := ?_
      knows := hknows, left := ?_, passed := by rw [hunfreed]; exact h.passed }
  · exact (s.put_heap_of_ne (h.ne_zero hnd).symm _).trans h.null
  · have hc := h.chain
    rw [← nextOf_update_ref hnd r] at hc
    exact hc
  · obtain ⟨nd',hf⟩ := h.front
    obtain ⟨nd'',hf',-⟩ := hput hf
    exact ⟨nd'',hf'⟩
  · exact h.stored.imp fun a v hv => hv.update_ref hnd r
  · intro a nd' ha
    by_cases hae : a = e
    · subst hae
      rw [s.put_heap_self,some_inj] at ha
      rw [← ha]
      exact hr
    · rw [s.put_heap_of_ne hae] at ha
      rw [hheld a hae]
      exact h.refs a nd' ha
  · intro i e' v hi
    obtain ⟨⟨nd',he',hnext,hdata⟩,hmem⟩ := h.fresh i e' v hi
    obtain ⟨nd'',he'',hn,hd⟩ := hput he'
    rw [hunfreed]
    exact ⟨⟨nd'',he'',hn.trans hnext,hd.trans hdata⟩,hmem⟩
  · intro e' he'
    rw [hunfreed] at he'
    obtain ⟨⟨nd',ha⟩,hmem⟩ := h.left e' he'
    obtain ⟨nd'',ha',-⟩ := hput ha
    exact ⟨⟨nd'',ha'⟩,hmem⟩

namespace Ok
variable {s : Shared α} {pushes : ι → PushPc α} {rest : List ℕ} {vals : List α} {data : α}

theorem front_moves {next : ℕ} (h : Ok s pushes (.cas s.front data next) rest vals) :
    ∃ rest' vals',
      Ok { s with front := next, popped := s.popped ++ [data], passed := s.passed ++ [s.front] }
        pushes (.decRef s.front (.own data)) rest' vals' := by
  obtain ⟨-,hval,hnext⟩ := h.knows
  obtain ⟨rest',rfl⟩ := head?_eq_some_iff.mp hnext
  obtain ⟨vals',rfl⟩ := head?_eq_some_iff.mp hval
  obtain ⟨⟨nd,hnd,-⟩,hstored⟩ := forall₂_cons.mp h.stored
  have hchain : Chain (nextOf s.heap) (some next) (next :: rest') := h.chain.2.1 ▸ h.chain.2
  have hnot : s.front ∉ next :: rest' := (nodup_cons.mp (chain_nodup h.chain)).1
  have hlast : (next :: rest').getLast (cons_ne_nil _ _) =
      (s.front :: next :: rest').getLast (cons_ne_nil _ _) :=
    (getLast_cons (cons_ne_nil _ _)).symm
  refine ⟨rest',vals',
    { h with
      chain := hchain, front := ⟨nd,hnd⟩, stored := hstored, linked := ?_, fresh := ?_
      tail := fun i => hlast ▸ h.tail i, rear := fun hi => hlast ▸ h.rear hi
      knows := trivial, left := ?_, passed := ?_, counts := ?_ }⟩
  · rw [h.linked,append_assoc]
    rfl
  · intro i e v hi
    obtain ⟨hnd',hmem,-⟩ := h.fresh i e v hi
    exact ⟨hnd',fun hm => hmem (mem_cons_of_mem _ hm),
      fun hm => hmem (mem_singleton.mp hm ▸ mem_cons_self ..)⟩
  · intro e he
    rw [mem_singleton.mp he]
    exact ⟨h.front,hnot⟩
  · have hp : s.passed = s.freed ++ [] := h.passed
    rw [append_nil] at hp
    rw [hp]
    rfl
  · rw [length_append,length_append,h.counts]
    rfl

theorem frees (h : Ok s pushes (.free e (.last data)) rest vals) :
    Ok (s.release e) pushes (.done (some data)) rest vals := by
  obtain ⟨-,hnot⟩ := h.left e (mem_singleton_self e)
  have hkeep {a : ℕ} (ha : a ∈ s.front :: rest) : (s.release e).heap a = s.heap a := by
    refine s.release_heap_of_ne ?_
    rintro rfl
    exact hnot ha
  refine
    { h with
      null := ?_, chain := ?_, front := ?_, stored := ?_, refs := ?_, fresh := ?_
      knows := trivial, left := ?_, passed := ?_ }
  · by_cases he : 0 = e
    · rw [he,s.release_heap_self]
    · rw [s.release_heap_of_ne he,h.null]
  · refine chain_congr (fun a ha => ?_) h.chain
    rw [nextOf,nextOf,hkeep ha]
  · obtain ⟨nd,hnd⟩ := h.front
    exact ⟨nd,(hkeep (mem_cons_self ..)).trans hnd⟩
  · refine forall₂_iff_get.mpr ⟨h.stored.length_eq,fun i hi hv => ?_⟩
    obtain ⟨nd,hnd,hdata⟩ := (forall₂_iff_get.mp h.stored).2 i hi hv
    exact ⟨nd,(hkeep (mem_cons_of_mem _ (get_mem rest ⟨i,hi⟩))).trans hnd,hdata⟩
  · intro a nd ha
    have hae : a ≠ e := by
      rintro rfl
      rw [s.release_heap_self] at ha
      cases ha
    rw [s.release_heap_of_ne hae] at ha
    rw [h.refs a nd ha]
    simp [held,hae]
  · intro i e' v hi
    obtain ⟨⟨nd,hnd,hd⟩,hmem,hne⟩ := h.fresh i e' v hi
    have hne' : e' ≠ e := fun hee => hne (hee ▸ mem_singleton_self e)
    exact ⟨⟨nd,(s.release_heap_of_ne hne').trans hnd,hd⟩,hmem,not_mem_nil⟩
  · exact fun _ he => absurd he not_mem_nil
  · show s.passed = (s.freed ++ [e]) ++ []
    rw [append_nil]
    exact h.passed

theorem pop_step (h : Ok s pushes po rest vals) {s' : Shared α} {po' : PopPc α}
    (hs : popStep s po = some (s', po')) : ∃ rest' vals', Ok s' pushes po' rest' vals' := by
  obtain ⟨nf,hnf⟩ := h.front
  cases po with
  | ready =>
    cases hs
    exact ⟨rest,vals,h.pop_moves (fun _ => rfl) rfl rfl⟩
  | incRef e =>
    obtain rfl : e = s.front := h.knows
    simp only [popStep,hnf] at hs
    cases hs
    have hone : nf.ref = 1+0 := h.refs _ nf hnf
    refine ⟨rest,vals,h.ref_changes hnf ?_ ?_ rfl rfl⟩
    · simp [held,hone]
    · intro a ha
      simp [held,ha]
  | test e =>
    obtain rfl : e = s.front := h.knows
    simp only [popStep,hnf] at hs
    cases hs
    refine ⟨rest,vals,?_⟩
    rcases h.next_front hnf with ⟨hz,hrest⟩ | ⟨hz,hrest⟩
    · rw [if_pos hz]
      exact h.pop_moves (fun _ => rfl) rfl rfl
    · rw [if_neg hz]
      refine h.pop_moves (fun _ => rfl) rfl ⟨rfl,?_⟩
      rintro rfl
      cases hrest
  | readNext e =>
    obtain ⟨rfl,hne⟩ := h.knows
    simp only [popStep,hnf] at hs
    cases hs
    refine ⟨rest,vals,h.pop_moves (fun _ => rfl) rfl ⟨rfl,?_⟩⟩
    exact (h.next_front hnf).elim (fun hrest => absurd hrest.2 hne) And.right
  | readData e next =>
    obtain ⟨rfl,hnext⟩ := h.knows
    obtain ⟨rest',rfl⟩ := head?_eq_some_iff.mp hnext
    cases vals with
    | nil => exact absurd h.stored (by simp)
    | cons v vals' =>
      obtain ⟨⟨nd,hnd,hdata⟩,-⟩ := forall₂_cons.mp h.stored
      simp only [popStep,hnd] at hs
      cases hs
      exact ⟨_,_,h.pop_moves (fun _ => rfl) rfl ⟨rfl,congrArg some hdata.symm⟩⟩
  | rereadNext e data =>
    obtain ⟨rfl,hval⟩ := h.knows
    simp only [popStep,hnf] at hs
    cases hs
    refine ⟨rest,vals,h.pop_moves (fun _ => rfl) rfl ⟨rfl,hval,?_⟩⟩
    rcases h.next_front hnf with ⟨-,hrest⟩ | ⟨-,hrest⟩
    · subst hrest
      obtain ⟨vals',rfl⟩ := head?_eq_some_iff.mp hval
      exact absurd h.stored (by simp)
    · exact hrest
  | cas e data next =>
    obtain rfl : e = s.front := h.knows.1
    simp only [popStep,if_pos] at hs
    cases hs
    exact h.front_moves
  | decRef e why =>
    obtain ⟨nd,hnd⟩ : ∃ nd, s.heap e = some nd := by
      cases why with
      | retry => exact h.knows.elim
      | empty => exact ⟨nf,(congrArg s.heap h.knows).trans hnf⟩
      | own | last => exact (h.left e (mem_singleton_self e)).1
    have href := h.refs e nd hnd
    cases why with
    | retry => exact h.knows.elim
    | empty | own =>
      have htwo : nd.ref = 2 := by simpa [held] using href
      simp only [popStep,hnd,htwo] at hs
      cases hs
      refine ⟨rest,vals,h.ref_changes hnd (by simp [Drop.next,held]) (fun a ha => ?_) rfl trivial⟩
      simp [Drop.next,held,ha]
    | last data =>
      have hone : nd.ref = 1 := href
      simp only [popStep,hnd,hone] at hs
      cases hs
      refine ⟨rest,vals,h.ref_changes hnd (by simp [held]) (fun a ha => ?_) rfl trivial⟩
      simp [held,ha]
  | free e why =>
    cases why with
    | last data =>
      obtain ⟨⟨nd,hnd⟩,-⟩ := h.left e (mem_singleton_self e)
      simp only [popStep,hnd] at hs
      cases hs
      exact ⟨rest,vals,h.frees⟩
    | _ => exact h.knows.elim
  | done r => cases hs

end Ok

theorem eq_of_update [DecidableEq ι] {β : Type*} {f : ι → β} {i j : ι} {b : β} {g : β → Bool}
    (hothers : ∀ j, j ≠ i → g (f j) = false) (hj : g (update f i b j) = true) : j = i := by
  by_contra hji
  rw [update_of_ne hji,hothers j hji] at hj
  cases hj

namespace Ok
variable [DecidableEq ι] {s : Shared α} {pushes : ι → PushPc α} {po : PopPc α} {rest : List ℕ}
  {vals : List α} {i : ι}

theorem update_same {β : Type*} (g : PushPc α → β) {pc : PushPc α} (hpc : g pc = g (pushes i))
    (j : ι) : g (update pushes i pc j) = g (pushes j) := by
  by_cases hj : j = i
  · subst hj
    rw [update_self,hpc]
  · rw [update_of_ne hj]

section
variable (h : Ok s pushes po rest vals)
include h

variable {addr : ℕ}

theorem allocates (hi : pushes i = .ready) (data : α) (haddr : s.heap addr = none)
    (hne : addr ≠ 0) :
    Ok (s.put addr ⟨0,1,data⟩) (update pushes i (.readRear addr data)) po rest vals := by
  have hused {a : ℕ} {nd : Node α} (ha : s.heap a = some nd) : a ≠ addr := by
    rintro rfl
    rw [haddr] at ha
    cases ha
  have hput {a : ℕ} {nd : Node α} (ha : s.heap a = some nd) :
      (s.put addr ⟨0,1,data⟩).heap a = some nd := by
    rw [s.put_heap_of_ne (hused ha),ha]
  have hlink (j : ι) :
      (update pushes i (.readRear addr data) j).linking = (pushes j).linking :=
    update_same PushPc.linking (by rw [hi]; rfl) j
  have hentity {j : ι} {e : ℕ} {v : α}
      (hj : (update pushes i (.readRear addr data) j).entity = some (e, v)) :
      j = i ∧ e = addr ∧ v = data ∨ (pushes j).entity = some (e, v) ∧ e ≠ addr := by
    by_cases hji : j = i
    · subst hji
      rw [update_self] at hj
      cases hj
      exact .inl ⟨rfl,rfl,rfl⟩
    · rw [update_of_ne hji] at hj
      obtain ⟨⟨nd,hnd,-⟩,-⟩ := h.fresh j e v hj
      exact .inr ⟨hj,hused hnd⟩
  refine
    { h with
      null := ?_, chain := ?_, front := ?_, stored := ?_, refs := ?_, fresh := ?_, apart := ?_
      tail := ?_, one := ?_, rear := ?_, left := ?_ }
  · rw [s.put_heap_of_ne (Ne.symm hne),h.null]
  · refine chain_congr (fun a ha => ?_) h.chain
    obtain ⟨nd,hnd⟩ := h.allocated ha
    rw [nextOf_eq hnd,nextOf_eq (hput hnd)]
  · obtain ⟨nd,hnd⟩ := h.front
    exact ⟨nd,hput hnd⟩
  · exact h.stored.imp fun a v ⟨nd,hnd,hv⟩ => ⟨nd,hput hnd,hv⟩
  · intro a nd ha
    by_cases haa : a = addr
    · subst haa
      rw [s.put_heap_self,some_inj] at ha
      rw [← ha,h.held_eq_zero haddr]
      rfl
    · rw [s.put_heap_of_ne haa] at ha
      exact h.refs a nd ha
  · intro j e v hj
    rcases hentity hj with ⟨-,rfl,rfl⟩ | ⟨hold,-⟩
    · refine ⟨⟨_,s.put_heap_self ..,rfl,rfl⟩,?_,?_⟩
      · intro hm
        obtain ⟨nd,hnd⟩ := h.allocated hm
        exact hused hnd rfl
      · intro hm
        obtain ⟨⟨nd,hnd⟩,-⟩ := h.left _ hm
        exact hused hnd rfl
    · obtain ⟨⟨nd,hnd,hd⟩,hmem⟩ := h.fresh j e v hold
      exact ⟨⟨nd,hput hnd,hd⟩,hmem⟩
  · intro j k e v w hj hk
    rcases hentity hj with ⟨rfl,hea,-⟩ | ⟨hj,hea⟩ <;>
      rcases hentity hk with ⟨rfl,hea',-⟩ | ⟨hk,hea'⟩
    · rfl
    · exact absurd hea hea'
    · exact absurd hea' hea
    · exact h.apart j k e v w hj hk
  · exact (forall_update_iff pushes fun _ pc => pc.Tail _ _).mpr ⟨trivial,fun j _ => h.tail j⟩
  · intro j k hj hk
    rw [hlink] at hj hk
    exact h.one j k hj hk
  · intro hall
    exact h.rear fun j => hlink j ▸ hall j
  · intro e he
    obtain ⟨⟨nd,hnd⟩,hmem⟩ := h.left e he
    exact ⟨⟨nd,hput hnd⟩,hmem⟩

variable {data : α}

theorem push_moves {pc : PushPc α} (hentity : pc.entity = (pushes i).entity) {r : ℕ}
    (htail : ∀ j, (update pushes i pc j).Tail r ((s.front :: rest).getLast (cons_ne_nil _ _)))
    (hothers : ∀ j, j ≠ i → (pushes j).linking = false)
    (hrear : pc.linking = false → r = (s.front :: rest).getLast (cons_ne_nil _ _)) :
    Ok { s with rear := r } (update pushes i pc) po rest vals := by
  have hsame := update_same PushPc.entity hentity
  refine { h with fresh := ?_, apart := ?_, tail := htail, one := ?_, rear := ?_ }
  · intro j e v hj
    exact h.fresh j e v (hsame j ▸ hj)
  · intro j k e v w hj hk
    exact h.apart j k e v w (hsame j ▸ hj) (hsame k ▸ hk)
  · intro j k hj hk
    rw [eq_of_update hothers hj,eq_of_update hothers hk]
  · intro hall
    have hself := hall i
    rw [update_self] at hself
    exact hrear hself

theorem reads_rear (hi : pushes i = .readRear e data) (halone : ∀ j, (pushes j).linking = false) :
    Ok s (update pushes i (.link e data s.rear)) po rest vals := by
  refine h.push_moves (by rw [hi]; rfl) ?_ (fun j _ => halone j) nofun
  exact (forall_update_iff pushes fun _ pc => pc.Tail _ _).mpr
    ⟨⟨rfl,(h.rear halone).symm⟩,fun j _ => h.tail j⟩

variable {e tmp : ℕ}

theorem links (hi : pushes i = .link e data tmp) (hnd : s.heap tmp = some nd) :
    Ok { s.put tmp { nd with next := e } with linked := s.linked ++ [data] }
      (update pushes i (.swing e tmp)) po (rest ++ [e]) (vals ++ [data]) := by
  obtain ⟨hrear,hlast⟩ : s.rear = tmp ∧ _ = tmp := by
    have ht := h.tail i
    rwa [hi] at ht
  obtain ⟨⟨ne,hne,hnext,hdata⟩,hmem,hleft⟩ := h.fresh i e data (by rw [hi]; rfl)
  have hez := h.ne_zero hne
  have htmp : tmp ∈ s.front :: rest := hlast ▸ getLast_mem _
  have het : e ≠ tmp := fun he => hmem (he ▸ htmp)
  have hput {a : ℕ} {na : Node α} (ha : s.heap a = some na) :
      ∃ na', (s.put tmp { nd with next := e }).heap a = some na' ∧ na'.ref = na.ref ∧
        na'.data = na.data ∧ (a ≠ tmp → na'.next = na.next) := by
    by_cases hat : a = tmp
    · subst hat
      obtain rfl : nd = na := some_inj.mp (hnd.symm.trans ha)
      exact ⟨_,s.put_heap_self ..,rfl,rfl,fun hne => absurd rfl hne⟩
    · exact ⟨na,(s.put_heap_of_ne hat _).trans ha,rfl,rfl,fun _ => rfl⟩
  have hentity {j : ι} {e' : ℕ} {v : α}
      (hj : (update pushes i (.swing e tmp) j).entity = some (e', v)) :
      (pushes j).entity = some (e', v) ∧ e' ≠ e := by
    have hji : j ≠ i := by
      rintro rfl
      rw [update_self] at hj
      cases hj
    rw [update_of_ne hji] at hj
    refine ⟨hj,?_⟩
    rintro rfl
    exact hji (h.apart j i e' v data hj (by rw [hi]; rfl))
  have hothers := h.others_quiet (i := i) (by rw [hi]; rfl)
  have hnextOf : nextOf (s.put tmp { nd with next := e }).heap =
      update (update (nextOf s.heap) tmp (some e)) e none := by
    funext a
    by_cases hae : a = e
    · subst hae
      rw [update_self,nextOf,s.put_heap_of_ne het,← nextOf,nextOf_eq hne,if_pos hnext]
    · rw [update_of_ne hae]
      by_cases hat : a = tmp
      · subst hat
        rw [update_self,nextOf_eq (s.put_heap_self ..),if_neg hez]
      · rw [update_of_ne hat,nextOf,s.put_heap_of_ne hat,← nextOf]
  refine
    { h with
      null := ?_, chain := ?_, front := ?_, stored := ?_, linked := ?_, refs := ?_, fresh := ?_
      apart := ?_, tail := ?_, one := ?_, rear := ?_, knows := ?_, left := ?_ }
  · exact (s.put_heap_of_ne (h.ne_zero hnd).symm _).trans h.null
  · have hc := chain_link_last h.chain (cons_ne_nil _ _) hmem
    rw [hlast,← hnextOf] at hc
    exact hc
  · obtain ⟨na,ha⟩ := h.front
    obtain ⟨na',ha',-⟩ := hput ha
    exact ⟨na',ha'⟩
  · refine rel_append (h.stored.imp ?_) (.cons ?_ .nil)
    · rintro a v ⟨na,ha,hv⟩
      obtain ⟨na',ha',-,hd,-⟩ := hput ha
      exact ⟨na',ha',hd.trans hv⟩
    · exact ⟨ne,(s.put_heap_of_ne het _).trans hne,hdata⟩
  · show s.linked ++ [data] = s.popped ++ (vals ++ [data])
    rw [h.linked,append_assoc]
  · intro a na ha
    by_cases hat : a = tmp
    · subst hat
      have hself : some { nd with next := e } = some na := (s.put_heap_self ..).symm.trans ha
      rw [← some_inj.mp hself]
      exact h.refs a nd hnd
    · exact h.refs a na ((s.put_heap_of_ne hat _).symm.trans ha)
  · intro j e' v hj
    obtain ⟨hj,hee⟩ := hentity hj
    obtain ⟨⟨na,ha,hz,hd⟩,hm,hl⟩ := h.fresh j e' v hj
    have het' : e' ≠ tmp := fun he => hm (he ▸ htmp)
    refine ⟨⟨na,(s.put_heap_of_ne het' _).trans ha,hz,hd⟩,?_,hl⟩
    intro hin
    rcases mem_append.mp (cons_append .. ▸ hin) with hold | hnew
    · exact hm hold
    · exact hee (mem_singleton.mp hnew)
  · intro j k e' v w hj hk
    exact h.apart j k e' v w (hentity hj).1 (hentity hk).1
  · refine (forall_update_iff pushes fun _ pc => pc.Tail _ _).mpr ⟨⟨hrear,by simp⟩,fun j hji => ?_⟩
    exact PushPc.tail_of_quiet (hothers j hji)
  · intro j k hj hk
    rw [eq_of_update hothers hj,eq_of_update hothers hk]
  · intro hall
    have hself := hall i
    rw [update_self] at hself
    cases hself
  · exact h.knows.append e data
  · intro e' he'
    obtain ⟨⟨na,ha⟩,hm⟩ := h.left e' he'
    obtain ⟨na',ha',-⟩ := hput ha
    refine ⟨⟨na',ha'⟩,?_⟩
    intro hin
    rcases mem_append.mp (cons_append .. ▸ hin) with hold | hnew
    · exact hm hold
    · exact hleft (mem_singleton.mp hnew ▸ he')

theorem swings (hi : pushes i = .swing e tmp) :
    s.rear = tmp ∧ Ok { s with rear := e } (update pushes i .done) po rest vals := by
  obtain ⟨hrear,hlast⟩ : s.rear = tmp ∧ _ = e := by
    have ht := h.tail i
    rwa [hi] at ht
  have hothers := h.others_quiet (i := i) (by rw [hi]; rfl)
  refine ⟨hrear,h.push_moves (by rw [hi]; rfl) ?_ hothers fun _ => hlast.symm⟩
  exact (forall_update_iff pushes fun _ pc => pc.Tail _ _).mpr
    ⟨trivial,fun j hji => PushPc.tail_of_quiet (hothers j hji)⟩

theorem push_step {s' : Shared α} {pc : PushPc α}
    (halone : (pushes i).atRear = true → ∀ j, (pushes j).linking = false)
    (hs : pushStep s addr data (pushes i) = some (s', pc)) :
    ∃ rest' vals', Ok s' (update pushes i pc) po rest' vals' := by
  cases hi : pushes i with
  | ready =>
    rw [hi] at hs
    cases haddr : s.heap addr with
    | some nd => simp [pushStep,haddr] at hs
    | none =>
      by_cases hz : addr = 0
      · simp only [pushStep,haddr,if_pos hz] at hs
        cases hs
      · simp only [pushStep,haddr,if_neg hz] at hs
        cases hs
        exact ⟨rest,vals,h.allocates hi data haddr hz⟩
  | readRear e v =>
    rw [hi] at hs halone
    cases hs
    exact ⟨rest,vals,h.reads_rear hi (halone rfl)⟩
  | link e v tmp =>
    rw [hi] at hs
    have ht := h.tail i
    rw [hi] at ht
    obtain ⟨nd,hnd⟩ := h.allocated (getLast_mem (cons_ne_nil s.front rest))
    have hz := h.next_last hnd
    rw [ht.2] at hnd
    simp only [pushStep,hnd,if_pos hz] at hs
    cases hs
    exact ⟨_,_,h.links hi hnd⟩
  | swing e tmp =>
    obtain ⟨hrear,hok⟩ := h.swings hi
    rw [hi] at hs
    simp only [pushStep,if_pos hrear] at hs
    cases hs
    exact ⟨rest,vals,hok⟩
  | done =>
    rw [hi] at hs
    cases hs

end

end Ok

theorem Ok.rests (h : Ok s pushes po rest vals) (hpo : po.active = false) :
    Ok s pushes .ready rest vals := by
  cases po with
  | ready => exact h
  | done r => exact h.pop_moves (fun _ => rfl) rfl trivial
  | _ => cases hpo

theorem inv_init (ι κ : Type*) (null : α) : Inv (init ι κ null) := by
  refine ⟨.ready,[],[],⟨nofun, nofun, nofun⟩, ?_⟩
  have hdummy := Shared.create_heap_dummy null
  exact
    { wild := rfl
      null := Shared.create_heap_of_ne null (by decide)
      chain := ⟨rfl,nextOf_eq hdummy⟩
      front := ⟨_,hdummy⟩
      stored := .nil
      linked := rfl
      refs := by
        intro a nd ha
        by_cases h1 : a = 1
        · subst h1
          obtain rfl := some_inj.mp (hdummy.symm.trans ha)
          rfl
        · cases (Shared.create_heap_of_ne null h1).symm.trans ha
      fresh := nofun
      apart := nofun
      tail := fun _ => trivial
      one := nofun
      rear := fun _ => rfl
      knows := trivial
      left := fun _ he => absurd he not_mem_nil
      passed := rfl
      counts := rfl }

variable [DecidableEq ι] [DecidableEq κ] {s s' : State α ι κ}

theorem Inv.push (h : Inv s) {i : ι} {addr : ℕ} {data : α} (hg : Apart s (.push i addr data))
    (hs : step s (.push i addr data) = some s') : Inv s' := by
  obtain ⟨po,rest,vals,hpops,hok⟩ := h
  obtain ⟨⟨sh,pc⟩,hr,rfl⟩ := map_eq_some_iff.mp hs
  obtain ⟨rest',vals',hok'⟩ := hok.push_step hg hr
  exact ⟨po,rest',vals',hpops,hok'⟩

theorem Inv.pop (h : Inv s) {i : κ} (hg : Apart s (.pop i)) (hs : step s (.pop i) = some s') :
    Inv s' := by
  obtain ⟨po,rest,vals,hpops,hok⟩ := h
  obtain ⟨⟨sh,pc⟩,hr,rfl⟩ := map_eq_some_iff.mp hs
  -- the pop is the one under way, or none is and it starts
  obtain ⟨hothers,hown⟩ : (∀ j, j ≠ i → (s.pops j).active = false) ∧
      Ok s.shared s.pushes (s.pops i) rest vals := by
    cases hi : (s.pops i).active with
    | true =>
      refine ⟨fun j hj => ?_, hpops.here i hi ▸ hok⟩
      by_contra hjact
      exact hj (hpops.one j i (by simpa using hjact) hi)
    | false =>
      have hready : s.pops i = .ready := by
        cases hpc : s.pops i with
        | ready => rfl
        | done r =>
          rw [hpc] at hr
          cases hr
        | _ => simp [hpc,active] at hi
      have hquiet : ∀ j, (s.pops j).active = false := hg (by rw [hready]; rfl)
      have hpo : po.active = false := by
        by_contra hact
        obtain ⟨j,hj⟩ := hpops.there (by simpa using hact)
        exact hact (hj ▸ hquiet j)
      exact ⟨fun j _ => hquiet j, hready ▸ hok.rests hpo⟩
  obtain ⟨rest',vals',hok'⟩ := hown.pop_step hr
  refine ⟨pc,rest',vals',⟨?_,?_,?_⟩,hok'⟩
  · intro j hj
    rw [eq_of_update hothers hj]
    exact update_self ..
  · exact fun _ => ⟨i,update_self ..⟩
  · intro j k hj hk
    rw [eq_of_update hothers hj,eq_of_update hothers hk]

theorem Inv.step {a : Action α ι κ} (h : Inv s) (hg : Apart s a) (hs : Queue.step s a = some s') :
    Inv s' := by
  cases a with
  | push i addr data => exact h.push hg hs
  | pop i => exact h.pop hg hs

/-- In every interleaving in which no push reads `rear` beside another and no pop reads `front`
beside another, no step touches a freed node, the values come out in the order their nodes were
linked, and every node that `front` has left is freed once, at the latest at the end of the pop that
left it. -/
theorem queue_fifo (null : α) (as : List (Action α ι κ)) (s : State α ι κ)
    (hrun : runSteps step (init ι κ null) as = some s)
    (hapart : Guarded step Apart (init ι κ null) as) :
    s.shared.wild = false ∧ s.shared.popped <+: s.shared.linked ∧
      s.shared.passed.length = s.shared.popped.length ∧ s.shared.freed <+: s.shared.passed ∧
      ((∀ i, (s.pops i).active = false) → s.shared.freed = s.shared.passed) := by
  obtain ⟨po,rest,vals,hpops,hok⟩ := runSteps_guarded Inv (fun _ _ _ hi hg hs => hi.step hg hs)
    as _ s (inv_init ι κ null) hapart hrun
  refine ⟨hok.wild,⟨vals,hok.linked.symm⟩,hok.counts,⟨_,hok.passed.symm⟩,fun hquiet => ?_⟩
  have hpo : po.active = false := by
    by_contra hact
    obtain ⟨j,hj⟩ := hpops.there (by simpa using hact)
    exact hact (hj ▸ hquiet j)
  have hp := (hok.rests hpo).passed
  rw [hp]
  exact (append_nil _).symm

def pushSteps (i : Fin 2) (addr v : ℕ) : List (Action ℕ (Fin 2) (Fin 2)) :=
  [.push i addr v,.push i addr v,.push i addr v,.push i addr v]

def popSteps (i : Fin 2) : List (Action ℕ (Fin 2) (Fin 2)) :=
  [.pop i,.pop i,.pop i,.pop i,.pop i,.pop i,.pop i,.pop i,.pop i,.pop i]

def pushPopRun : List (Action ℕ (Fin 2) (Fin 2)) :=
  pushSteps 0 2 7 ++ [.push 1 3 8,.push 1 3 8,.push 1 3 8] ++ popSteps 0 ++ [.push 1 3 8] ++
    popSteps 1

theorem queue_fifo_at_two_pushes :
    ∃ s, runSteps step (init (Fin 2) (Fin 2) 0) pushPopRun = some s ∧
      s.shared.linked = [7,8] ∧ s.shared.popped = [7,8] ∧ s.shared.wild = false ∧
      s.shared.freed = [1,2] := by
  have hapart : Guarded step Apart (init (Fin 2) (Fin 2) 0) pushPopRun := by decide +kernel
  have hlast : (runSteps step (init (Fin 2) (Fin 2) 0) pushPopRun).map
      (fun s => (s.shared.linked, s.shared.popped, s.shared.passed,
        decide (∀ i, (s.pops i).active = false))) =
      some ([7,8], [7,8], [1,2], true) := by decide +kernel
  obtain ⟨s,hs,hfacts⟩ := map_eq_some_iff.mp hlast
  simp only [Prod.mk.injEq,decide_eq_true_eq] at hfacts
  obtain ⟨hlinked,hpopped,hpassed,hquiet⟩ := hfacts
  obtain ⟨hwild,-,-,-,hfreed⟩ := queue_fifo 0 pushPopRun s hs hapart
  exact ⟨s,hs,hlinked,hpopped,hwild,(hfreed hquiet).trans hpassed⟩

/-- Two pushes read the same rear; the second one links its node and a pop frees the dummy, on which
the first one then tries its exchange. And two pops read the same front, the second one frees the
node, and the first one raises its count. -/
theorem push_and_pop_touch_freed_node :
    (runSteps step (init (Fin 2) (Fin 2) 0)
        ([.push 0 2 7,.push 0 2 7] ++ pushSteps 1 3 8 ++ popSteps 0 ++ [.push 0 2 7])).map
      (fun s => (s.shared.freed, s.shared.wild)) = some ([1], true) ∧
    (runSteps step (init (Fin 2) (Fin 2) 0)
        (pushSteps 0 2 7 ++ [.pop 0] ++ popSteps 1 ++ [.pop 0])).map
      (fun s => (s.shared.freed, s.shared.wild)) = some ([1], true) := by
  decide +kernel

end TinaPackage.Queue
