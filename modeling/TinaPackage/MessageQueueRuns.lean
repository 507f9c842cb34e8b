import TinaPackage.Collections
import TinaPackage.MessageQueueModel

/-! Any interleaving of threads that post to, wait for, get from and flush one message queue. -/
namespace TinaPackage.Messages
open Function List Pc

variable {M : Type*}

namespace MessageQueueContext

variable (q : MessageQueueContext M) (xs : List ℕ)

/-- The nodes `xs` are linked from `pHead` on and are the valid ones. -/
structure Layout : Prop where
  chain : Chain q.next q.pHead xs
  valid : ∀ i < q.nMaxMessageNum, ((q.nodes i).valid = true ↔ i ∈ xs)
  bound : ∀ i ∈ xs, i < q.nMaxMessageNum
  count : q.nCount = xs.length

def messages : List M := xs.map fun i => (q.nodes i).msg

def validNodes : ℕ := (range q.nMaxMessageNum).countP fun i => (q.nodes i).valid

variable {q : MessageQueueContext M} {xs : List ℕ}

theorem Layout.length_le (h : q.Layout xs) : xs.length ≤ q.nMaxMessageNum :=
  chain_length_le h.chain h.bound

theorem Layout.validNodes (h : q.Layout xs) : q.validNodes = xs.length := by
  have hperm : ((range q.nMaxMessageNum).filter fun i => (q.nodes i).valid).Perm xs := by
    apply (perm_ext_iff_of_nodup (nodup_range.filter _) (chain_nodup h.chain)).mpr
    intro i
    rw [mem_filter,mem_range]
    constructor
    · rintro ⟨hi,hvalid⟩
      exact (h.valid i hi).mp hvalid
    · intro hi
      exact ⟨h.bound i hi,(h.valid i (h.bound i hi)).mpr hi⟩
  rw [MessageQueueContext.validNodes,countP_eq_length_filter]
  exact hperm.length_eq

theorem create_layout (nMaxMessageNum : ℕ) (blank : M) : (create nMaxMessageNum blank).Layout [] :=
  ⟨rfl,by simp [create],by simp,rfl⟩

section
variable (q : MessageQueueContext M)

theorem fill_self (node : ℕ) (m : M) :
    (q.fill node m).nodes node = { next := none, valid := true, msg := m } :=
  update_self ..

theorem fill_of_ne {node i : ℕ} (hi : i ≠ node) (m : M) : (q.fill node m).nodes i = q.nodes i :=
  update_of_ne hi ..

theorem fill_next (node : ℕ) (m : M) : (q.fill node m).next = update q.next node none := by
  funext i
  by_cases hi : i = node
  · rw [hi,next,fill_self,update_self]
  · rw [next,fill_of_ne q hi,update_of_ne hi,next]

theorem setNext_next (node : ℕ) (v : Option ℕ) :
    (q.setNext node v).next = update q.next node v := by
  funext i
  by_cases hi : i = node
  · subst hi
    simp [next,setNext]
  · simp [next,setNext,hi]

theorem setNext_valid (node i : ℕ) (v : Option ℕ) :
    ((q.setNext node v).nodes i).valid = (q.nodes i).valid := by
  by_cases hi : i = node
  · subst hi
    simp [setNext]
  · simp [setNext,hi]

theorem setNext_msg (node i : ℕ) (v : Option ℕ) :
    ((q.setNext node v).nodes i).msg = (q.nodes i).msg := by
  by_cases hi : i = node
  · subst hi
    simp [setNext]
  · simp [setNext,hi]

end

theorem Layout.freeNode (h : q.Layout xs) (hfull : ¬q.nMaxMessageNum ≤ q.nCount) :
    ∃ node, q.freeNode = some node ∧ node < q.nMaxMessageNum ∧ node ∉ xs := by
  have hsome : q.freeNode.isSome := by
    rw [MessageQueueContext.freeNode,find?_isSome]
    by_contra hnone
    -- all nodes would be in the list
    have hall : range q.nMaxMessageNum ⊆ xs := by
      intro i hi
      apply (h.valid i (mem_range.mp hi)).mp
      by_contra hi'
      exact hnone ⟨i,hi,by simpa using hi'⟩
    have hlen := (subperm_of_subset nodup_range hall).length_le
    rw [length_range] at hlen
    rw [h.count] at hfull
    omega
  obtain ⟨node,hnode⟩ := Option.isSome_iff_exists.mp hsome
  have hmem := mem_range.mp (mem_of_find?_eq_some hnode)
  refine ⟨node,hnode,hmem,fun hin => ?_⟩
  have hvalid := find?_some hnode
  rw [(h.valid node hmem).mpr hin] at hvalid
  cases hvalid

theorem Layout.append (h : q.Layout xs) {node : ℕ} (hfree : node ∉ xs) (m : M) :
    ∃ q', (q.fill node m).append node = some q' ∧ Chain q'.next q'.pHead (xs ++ [node]) ∧
      (∀ i, (q'.nodes i).valid = ((q.fill node m).nodes i).valid) ∧
      (∀ i, (q'.nodes i).msg = ((q.fill node m).nodes i).msg) ∧
      q'.nMaxMessageNum = q.nMaxMessageNum ∧ q'.nCount = q.nCount := by
  have hchain := chain_update_of_notMem hfree none h.chain
  cases xs with
  | nil =>
    have hhead : q.pHead = none := h.chain
    refine ⟨{ q.fill node m with pHead := some node },?_,⟨rfl,?_⟩,fun _ => rfl, fun _ => rfl,
      rfl,rfl⟩
    · rw [MessageQueueContext.append,fill,hhead]
    · show (q.fill node m).next node = none
      rw [fill_next,update_self]
  | cons x rest =>
    have hhead : q.pHead = some x := h.chain.1
    have hlast : (x :: rest).getLast (cons_ne_nil x rest) ≠ node :=
      fun he => hfree (he ▸ getLast_mem _)
    have hhead' : (q.fill node m).pHead = some x := hhead
    have hwalk : walkLast (q.fill node m).next (q.fill node m).nMaxMessageNum x =
        some ((x :: rest).getLast (cons_ne_nil x rest)) := by
      rw [fill_next]
      exact walkLast_chain (hhead ▸ hchain) h.length_le
    refine ⟨(q.fill node m).setNext ((x :: rest).getLast (cons_ne_nil x rest)) (some node),?_,
      ?_,fun i => setNext_valid .., fun i => setNext_msg .., rfl,rfl⟩
    · simp [MessageQueueContext.append,hhead',hwalk]
    · rw [setNext_next,fill_next,update_comm hlast.symm]
      exact chain_link_last h.chain (cons_ne_nil x rest) hfree

theorem Layout.postMessage (h : q.Layout xs) (m : M) :
    q.postMessage m = some (q, -1) ∨
      ∃ node q', q.postMessage m = some (q', 0) ∧ q'.Layout (xs ++ [node]) ∧
        q'.nMaxMessageNum = q.nMaxMessageNum ∧
        q'.messages (xs ++ [node]) = q.messages xs ++ [m] := by
  by_cases hfull : q.nMaxMessageNum ≤ q.nCount
  · exact .inl (by rw [MessageQueueContext.postMessage,if_pos hfull])
  obtain ⟨node,hnode,hlt,hfree⟩ := h.freeNode hfull
  obtain ⟨q',happend,hchain,hvalid,hmsg,hmax,hcount⟩ := h.append hfree m
  refine .inr ⟨node,{ q' with nCount := q'.nCount+1 },?_,⟨hchain,?_,?_,?_⟩,hmax,?_⟩
  · rw [MessageQueueContext.postMessage,if_neg hfull,hnode,Option.bind_some,happend,Option.map_some]
  · intro i hi
    rw [mem_append,mem_singleton]
    rw [hvalid]
    by_cases hin : i = node
    · rw [hin,fill_self]
      simp
    · rw [fill_of_ne q hin,h.valid i (hmax ▸ hi),or_iff_left hin]
  · intro i hi
    rw [hmax]
    rcases mem_append.mp hi with hi | hi
    · exact h.bound i hi
    · exact mem_singleton.mp hi ▸ hlt
  · show q'.nCount+1 = _
    rw [hcount,h.count,length_append,length_singleton]
    omega
  · rw [messages,messages,map_append]
    refine congr (congrArg _ (map_congr_left fun i hi => ?_)) ?_
    · have hne : i ≠ node := fun he => hfree (he ▸ hi)
      rw [hmsg,fill_of_ne q hne]
    · rw [map_singleton,hmsg,fill_self]

theorem Layout.tryGetMessage_nil (h : q.Layout []) : q.tryGetMessage = some (q, none) := by
  rw [tryGetMessage,if_pos (by rw [h.count]; exact Int.le_refl 0)]

theorem Layout.tryGetMessage_cons {x : ℕ} {rest : List ℕ} (h : q.Layout (x :: rest)) :
    ∃ q', q.tryGetMessage = some (q', some (q.nodes x).msg) ∧ q'.Layout rest ∧
      q'.nMaxMessageNum = q.nMaxMessageNum ∧ q'.messages rest = q.messages rest := by
  have hfirst : x ∉ rest := (nodup_cons.mp (chain_nodup h.chain)).1
  have hne {i : ℕ} (hi : i ∈ rest) : i ≠ x := fun he => hfirst (he ▸ hi)
  have hcount := h.count
  rw [length_cons] at hcount
  have hother {i : ℕ} (hi : i ≠ x) : (q.unlinkHead x).nodes i = q.nodes i :=
    update_of_ne hi ..
  refine ⟨q.unlinkHead x,by rw [tryGetMessage,if_neg (by omega),h.chain.1,Option.map_some],
    ⟨?_,?_,fun i hi => h.bound i (mem_cons_of_mem _ hi),?_⟩,rfl,?_⟩
  · refine chain_congr (fun i hi => ?_) h.chain.2
    rw [next,hother (hne hi),next]
  · intro i hi
    by_cases hix : i = x
    · simpa [hix,unlinkHead] using hfirst
    · rw [hother hix,h.valid i hi,mem_cons,or_iff_right hix]
  · show q.nCount-1 = rest.length
    omega
  · exact map_congr_left fun i hi => by rw [hother (hne hi)]

theorem flush_layout (q : MessageQueueContext M) : q.flush.Layout [] := by
  refine ⟨rfl,fun i hi => ?_, by simp,rfl⟩
  have hi' : i < q.nMaxMessageNum := hi
  simp [flush,hi']

end MessageQueueContext

theorem card_places_update {Thread : Type*} [DecidableEq Thread] [Fintype Thread]
    (pcs : Thread → Pc) (t : Thread) (pc : Pc) (kind : Pc → Bool) :
    (Finset.univ.filter fun u => kind (update pcs t pc u)).card+(kind (pcs t)).toNat =
      (Finset.univ.filter fun u => kind (pcs u)).card+(kind pc).toNat := by
  have hsum := sum_add_of_eq (Finset.mem_univ t) (f := fun u => (kind (pcs u)).toNat)
    (g := fun u => (kind (update pcs t pc u)).toNat) fun u hu => by rw [update_of_ne hu]
  have hnat (b : Bool) : (if b = true then 1 else 0) = b.toNat := by
    cases b <;> rfl
  simp only [Finset.card_filter,hnat]
  rwa [update_self] at hsum

namespace QueueWorld

variable {Thread : Type*} [DecidableEq Thread] [Fintype Thread]

structure Inv (w : QueueWorld Thread M) (xs : List ℕ) : Prop where
  layout : w.queue.Layout xs
  queued : w.ledger.Numbers w.ledger.queued (w.queue.messages xs)
  received : w.ledger.Numbers w.ledger.received w.received
  awake : xs.length ≤ w.sem+w.postsInProgress+w.gettersPastWait
  fits : w.queue.nMaxMessageNum ≤ semValueMax
  locked : ∀ t, (w.pcs t).locks = true → w.mutex = some t
  empty : w.mutex.isSome → xs = []

variable {w : QueueWorld Thread M} {xs : List ℕ} {t : Thread}

theorem goto_postsInProgress (w : QueueWorld Thread M) (t : Thread) (pc : Pc) :
    (w.goto t pc).postsInProgress+(w.pcs t).posts.toNat = w.postsInProgress+pc.posts.toNat :=
  card_places_update w.pcs t pc posts

theorem goto_gettersPastWait (w : QueueWorld Thread M) (t : Thread) (pc : Pc) :
    (w.goto t pc).gettersPastWait+(w.pcs t).takes.toNat = w.gettersPastWait+pc.takes.toNat :=
  card_places_update w.pcs t pc takes

variable {pc : Pc}

omit [Fintype Thread] in
theorem goto_locked (h : ∀ u, (w.pcs u).locks = true → w.mutex = some u)
    (hpc : pc.locks = true → (w.pcs t).locks = true) (u : Thread)
    (hu : (update w.pcs t pc u).locks = true) : w.mutex = some u := by
  by_cases hut : u = t
  · rw [hut,update_self] at hu
    rw [hut]
    exact h t (hpc hu)
  · rw [update_of_ne hut] at hu
    exact h u hu

section
variable (h : w.Inv xs)
include h

theorem Inv.move (sem : ℕ) (hpc : pc.locks = true → (w.pcs t).locks = true) (hawake : xs.length ≤
    sem+(w.goto t pc).postsInProgress+(w.goto t pc).gettersPastWait) :
    ({ w with sem }.goto t pc).Inv xs :=
  ⟨h.layout,h.queued,h.received,hawake,h.fits,goto_locked h.locked hpc,h.empty⟩

/-- What a thread takes from or adds to the semaphore, it accounts for by its place. -/
theorem Inv.balanced (sem : ℕ) (hpc : pc.locks = true → (w.pcs t).locks = true) (hle : w.sem+(w.pcs
    t).posts.toNat+(w.pcs t).takes.toNat ≤ sem+pc.posts.toNat+pc.takes.toNat) : ({ w with sem }.goto
    t pc).Inv xs := by
  refine h.move sem hpc ?_
  have h1 := goto_postsInProgress w t pc
  have h2 := goto_gettersPastWait w t pc
  have hawake := h.awake
  omega

variable {ret : ℤ}

theorem Inv.postMessage (hpc : w.pcs t = .idle ret) (m : M) :
    ∃ w' xs', w.step (t, .postMessage m) = some w' ∧ w'.Inv xs' := by
  by_cases hmutex : w.mutex.isSome
  · exact ⟨w,xs,by simp only [step,hpc,hmutex,if_true],h⟩
  have hposts := goto_postsInProgress w t
  have htakes := goto_gettersPastWait w t
  rw [hpc] at hposts htakes
  have hawake := h.awake
  rcases h.layout.postMessage m with hpost | ⟨node,q',hpost,hlayout,hmax,hmessages⟩
  · refine ⟨w.goto t (.idle (-1)),xs,?_,h.balanced w.sem (by simp [locks]) (by rw [hpc]; rfl)⟩
    simp only [step,hpc,hmutex,hpost]
    rfl
  · refine ⟨{ w with queue := q', ledger := w.ledger.post m }.goto t .posting,xs ++ [node],?_,
      hlayout,?_,h.received.post_received m,?_,?_,goto_locked h.locked (by simp [locks]),?_⟩
    · simp only [step,hpc,hmutex,hpost]
      rfl
    · show (w.ledger.post m).Numbers (w.ledger.post m).queued (q'.messages (xs ++ [node]))
      rw [hmessages]
      exact h.queued.post_queued m
    · show (xs ++ [node]).length ≤ w.sem+(w.goto t .posting).postsInProgress +
        (w.goto t .posting).gettersPastWait
      have h1 := hposts .posting
      have h2 := htakes .posting
      simp only [posts,takes,Bool.toNat_false,Bool.toNat_true] at h1 h2
      rw [length_append,length_singleton]
      omega
    · exact hmax ▸ h.fits
    · exact fun hm => absurd hm hmutex

theorem Inv.taking (hpc : w.pcs t = .taking) :
    ∃ w' xs', w.step (t, .go) = some w' ∧ w'.Inv xs' := by
  by_cases hmutex : w.mutex.isSome
  · exact ⟨w,xs,by simp only [step,hpc,hmutex,if_true],h⟩
  have hposts := goto_postsInProgress w t
  have htakes := goto_gettersPastWait w t
  rw [hpc] at hposts htakes
  have hawake := h.awake
  cases xs with
  | nil =>
    refine ⟨w.goto t (.idle (-1)),[],?_,h.move w.sem (by simp [locks]) (Nat.zero_le _)⟩
    simp only [step,hpc,hmutex,h.layout.tryGetMessage_nil]
    rfl
  | cons x rest =>
    obtain ⟨q',hget,hlayout,hmax,hmessages⟩ := h.layout.tryGetMessage_cons
    obtain ⟨hqueued,hreceived⟩ := h.queued.take h.received
    refine ⟨{ w with
        queue := q'
        ledger := w.ledger.take
        received := w.received ++ [(w.queue.nodes x).msg] }.goto t (.idle 0),rest,?_,hlayout,?_,
      hreceived,?_,hmax ▸ h.fits,goto_locked h.locked (by simp [locks]),fun hm => absurd hm hmutex⟩
    · simp only [step,hpc,hmutex,hget]
      rfl
    · show w.ledger.take.Numbers w.ledger.take.queued (q'.messages rest)
      rw [hmessages]
      exact hqueued
    · show rest.length ≤ w.sem+(w.goto t (.idle 0)).postsInProgress +
        (w.goto t (.idle 0)).gettersPastWait
      have h1 := hposts (.idle 0)
      have h2 := htakes (.idle 0)
      simp only [posts,takes,Bool.toNat_false,Bool.toNat_true] at h1 h2
      rw [length_cons] at hawake
      omega

theorem Inv.flush (hpc : w.pcs t = .idle ret) :
    ∃ w' xs', w.step (t, .flush) = some w' ∧ w'.Inv xs' := by
  by_cases hmutex : w.mutex.isSome
  · exact ⟨w,xs,by simp only [step,hpc,hmutex,if_true],h⟩
  refine ⟨{ w with
      queue := w.queue.flush
      mutex := some t
      ledger := w.ledger.removeAll }.goto t .flushing,[],?_,
    w.queue.flush_layout,?_,h.received,Nat.zero_le _,h.fits,?_,fun _ => rfl⟩
  · simp only [step,hpc,hmutex]
    rfl
  · exact Eq.refl []
  · intro u hu
    by_cases hut : u = t
    · exact congrArg some hut.symm
    · -- no other thread has the mutex
      have hlocks : (w.pcs u).locks = true := by
        simpa only [goto,update_of_ne hut] using hu
      rw [h.locked u hlocks] at hmutex
      exact absurd rfl hmutex

theorem Inv.flushing (hpc : w.pcs t = .flushing) :
    ∃ w' xs', w.step (t, .go) = some w' ∧ w'.Inv xs' := by
  have hmutex : w.mutex = some t := h.locked t (by rw [hpc,locks])
  obtain rfl := h.empty (by rw [hmutex]; rfl)
  by_cases hsem : w.sem = 0
  · refine ⟨{ w with mutex := none }.goto t (.idle 0),[],?_,h.layout,h.queued,h.received,
      Nat.zero_le _,h.fits,?_,fun _ => rfl⟩
    · simp [step,hpc,hsem]
    · intro u hu
      by_cases hut : u = t
      · simp [goto,hut,locks] at hu
      · have hlocks : (w.pcs u).locks = true := by
          simpa only [goto,update_of_ne hut] using hu
        have hu' := h.locked u hlocks
        rw [hmutex] at hu'
        exact absurd (Option.some.inj hu').symm hut
  · refine ⟨w.goto t .draining,[],?_,h.move w.sem (fun _ => by rw [hpc,locks])
      (Nat.zero_le _)⟩
    simp only [step,hpc,if_neg hsem]

theorem Inv.semPost (hpc : (w.pcs t).posts = true) (hposts : pc.posts = false) (htakes : pc.takes =
    false) (hlocks : pc.locks = false) :
    ({ w with sem := semPost w.sem }.goto t pc).Inv xs := by
  refine h.move _ (by simp [hlocks]) ?_
  have h1 := goto_postsInProgress w t pc
  have h2 := goto_gettersPastWait w t pc
  have htakes' : (w.pcs t).takes = false := by
    cases hcase : w.pcs t <;> rw [hcase] at hpc <;> first | rfl | cases hpc
  rw [hpc,hposts,Bool.toNat_true,Bool.toNat_false] at h1
  rw [htakes',htakes] at h2
  have hawake := h.awake
  have hlength := h.layout.length_le
  have hfits := h.fits
  rw [Messages.semPost]
  split <;> omega

theorem Inv.semWait (hposts : (w.pcs t).posts = false) (htakes : (w.pcs t).takes = false) (hpc :
    pc.posts.toNat+pc.takes.toNat = 1) (hlocks : pc.locks = false) :
    ({ w with sem := w.sem-1 }.goto t pc).Inv xs := by
  refine h.balanced _ (by simp [hlocks]) ?_
  rw [hposts,htakes,Bool.toNat_false]
  omega

theorem Inv.pass (hposts : (w.pcs t).posts = false) (htakes : (w.pcs t).takes = false) (hlocks :
    pc.locks = false) : (w.goto t pc).Inv xs := by
  refine h.balanced _ (by simp [hlocks]) ?_
  rw [hposts,htakes,Bool.toNat_false]
  omega

theorem Inv.step (e : Thread × Event M) : ∃ w' xs', w.step e = some w' ∧ w'.Inv xs' := by
  obtain ⟨t,event⟩ := e
  have hstay (hs : w.step (t, event) = some w) :
      ∃ w' xs', w.step (t, event) = some w' ∧ w'.Inv xs' := ⟨w,xs,hs,h⟩
  cases hpc : w.pcs t <;> cases event
  case idle.postMessage ret m => exact h.postMessage hpc m
  case idle.flush => exact h.flush hpc
  case taking.go => exact h.taking hpc
  case flushing.go => exact h.flushing hpc
  case draining.go =>
    -- the list stays empty while the semaphore is drained
    have hmutex : w.mutex = some t := h.locked t (by rw [hpc,locks])
    obtain rfl := h.empty (by rw [hmutex]; rfl)
    refine ⟨_,[],by simp only [QueueWorld.step,hpc]; rfl,?_⟩
    exact h.move _ (fun _ => by rw [hpc]; rfl) (Nat.zero_le _)
  case posting.go | reposting.go =>
    refine ⟨_,xs,by simp only [QueueWorld.step,hpc]; rfl,?_⟩
    exact h.semPost (by rw [hpc]; rfl) rfl rfl rfl
  case waiting.go | getting.go =>
    by_cases hsem : w.sem = 0
    · exact hstay (by simp [QueueWorld.step,hpc,hsem])
    · refine ⟨_,xs,by simp only [QueueWorld.step,hpc,if_neg hsem]; rfl,?_⟩
      exact h.semWait (by rw [hpc]; rfl) (by rw [hpc]; rfl) rfl rfl
  case idle.waitMessage | idle.getMessage | counting.go | waiting.timeout | getting.timeout =>
    refine ⟨_,xs,by simp only [QueueWorld.step,hpc]; rfl,?_⟩
    exact h.pass (by rw [hpc]; rfl) (by rw [hpc]; rfl) rfl
  all_goals exact hstay (by simp only [QueueWorld.step,hpc])

end

/-- The messages received and those in the list are the ones that the history says, where nothing
is received twice or out of order and what is gone without being received was flushed. -/
def Delivers (w : QueueWorld Thread M) (xs : List ℕ) : Prop :=
  (w.ledger.received ++ w.ledger.queued).Pairwise (· < ·) ∧
    (w.ledger.received ++ w.ledger.removed ++ w.ledger.queued).Perm (range w.ledger.posted.length) ∧
    w.ledger.Numbers w.ledger.received w.received ∧
    w.ledger.Numbers w.ledger.queued (w.queue.messages xs)

end QueueWorld

/-- Whatever the threads do, no step goes wrong, the list has as many nodes as are valid and as
`nCount` says, messages are received in the order in which they were posted, and with a message in
the list, a getter can go on now or once another thread has made its next step. -/
theorem message_queue_sound {Thread : Type*} [DecidableEq Thread] [Fintype Thread]
    (nMaxMessageNum : ℕ) (hmax : nMaxMessageNum ≤ intMax) (blank : M)
    (events : List (Thread × Event M)) :
    ∃ w xs, runSteps QueueWorld.step (.created nMaxMessageNum blank) events = some w ∧
      Chain w.queue.next w.queue.pHead xs ∧ w.queue.nCount = xs.length ∧
      w.queue.validNodes = xs.length ∧ w.Delivers xs ∧
      w.queue.nCount ≤ w.sem+w.postsInProgress+w.gettersPastWait ∧
      (0 < w.queue.nCount → 0 < w.sem ∨ ∃ t, (w.pcs t).posts = true ∨ (w.pcs t).takes = true) := by
  have hfits : nMaxMessageNum ≤ semValueMax := by
    rw [intMax] at hmax
    rw [semValueMax]
    omega
  have hstart : ∃ xs, (.created nMaxMessageNum blank : QueueWorld Thread M).Inv xs :=
    ⟨[],MessageQueueContext.create_layout ..,Eq.refl [],Eq.refl [],Nat.zero_le _,hfits,
      (fun t ht => by cases ht), fun _ => rfl⟩
  have hstep (w : QueueWorld Thread M) (e : Thread × Event M) (hw : ∃ xs, w.Inv xs) :
      ∃ w', w.step e = some w' ∧ ∃ xs, w'.Inv xs := by
    obtain ⟨xs,h⟩ := hw
    obtain ⟨w',xs',hs,h'⟩ := h.step e
    exact ⟨w',hs,xs',h'⟩
  obtain ⟨w,hrun,xs,h⟩ := runSteps_total _ hstep events _ hstart
  have hawake := h.awake
  refine ⟨w,xs,hrun,h.layout.chain,h.layout.count,h.layout.validNodes,
    ⟨w.ledger.ordered,w.ledger.complete,h.received,h.queued⟩,?_,?_⟩
  · rw [h.layout.count]
    exact_mod_cast hawake
  · intro hcount
    rw [h.layout.count] at hcount
    by_contra hno
    simp only [not_or,not_exists,Nat.not_lt,Nat.le_zero,Bool.not_eq_true] at hno
    -- then nothing is left that wakes a getter
    have hposts : w.postsInProgress = 0 :=
      Finset.card_eq_zero.mpr (Finset.filter_eq_empty_iff.mpr fun t _ => by simp [hno.2 t])
    have htakes : w.gettersPastWait = 0 :=
      Finset.card_eq_zero.mpr (Finset.filter_eq_empty_iff.mpr fun t _ => by simp [hno.2 t])
    omega

/-- A thread waits, another one posts two messages and flushes between them. -/
theorem message_queue_sound_of_two_threads :
    ∃ w xs, runSteps QueueWorld.step (.created 4 0 : QueueWorld (Fin 2) ℕ)
        [(0, .getMessage),(1, .postMessage 7),(1, .go),(1, .flush),(0, .go),(1, .go),
          (0, .go),(1, .postMessage 8),(0, .go),(1, .go)] = some w ∧
      w.Delivers xs ∧ w.queue.nCount ≤ w.sem+w.postsInProgress+w.gettersPastWait := by
  obtain ⟨w,xs,hrun,-,-,-,hdelivers,hawake,-⟩ :=
    message_queue_sound 4 (by decide) 0
      [((0 : Fin 2), .getMessage),(1, .postMessage 7),(1, .go),(1, .flush),(0, .go),(1, .go),
        (0, .go),(1, .postMessage 8),(0, .go),(1, .go)]
  exact ⟨w,xs,hrun,hdelivers,hawake⟩

end TinaPackage.Messages
