import Mathlib

/-! The history of a queue. Messages are numbered in the order in which they are posted, and each
number is in one place: received, removed or queued. -/
namespace TinaPackage
open List

variable {M : Type*}

structure FifoLedger (M : Type*) where
  posted : List M
  received : List ℕ
  removed : List ℕ
  queued : List ℕ
  /-- What is received has been posted before what is received later or still queued. -/
  ordered : (received ++ queued).Pairwise (· < ·)
  /-- Every message posted is in exactly one place. -/
  complete : (received ++ removed ++ queued).Perm (range posted.length)

namespace FifoLedger

variable (l : FifoLedger M)

/-- `ns` are the numbers of the messages `ms`. -/
def Numbers (ns : List ℕ) (ms : List M) : Prop := ns.map (fun n => l.posted[n]?) = ms.map some

theorem lt_of_mem {n : ℕ} (hn : n ∈ l.received ++ l.queued) : n < l.posted.length := by
  apply mem_range.mp
  apply l.complete.mem_iff.mp
  simp only [mem_append] at hn ⊢
  exact hn.elim (fun h => .inl (.inl h)) .inr

def empty : FifoLedger M where
  posted := []
  received := []
  removed := []
  queued := []
  ordered := List.Pairwise.nil
  complete := List.Perm.refl _

def post (m : M) : FifoLedger M where
  posted := l.posted ++ [m]
  received := l.received
  removed := l.removed
  queued := l.queued ++ [l.posted.length]
  ordered := by
    rw [← append_assoc,pairwise_append]
    refine ⟨l.ordered,pairwise_singleton ..,?_⟩
    intro a ha b hb
    rw [mem_singleton.mp hb]
    exact l.lt_of_mem ha
  complete := by
    rw [← append_assoc,length_append,length_singleton,range_succ]
    exact l.complete.append_right _

def take : FifoLedger M where
  posted := l.posted
  received := l.received ++ l.queued.take 1
  removed := l.removed
  queued := l.queued.drop 1
  ordered := by
    rw [append_assoc,take_append_drop]
    exact l.ordered
  complete := by
    refine List.Perm.trans ?_ l.complete
    nth_rewrite 3 [← take_append_drop 1 l.queued]
    rw [append_assoc l.received,append_assoc l.received,append_assoc l.received,
      ← append_assoc l.removed]
    exact (perm_append_comm.append_right _).append_left _

def removeAll : FifoLedger M where
  posted := l.posted
  received := l.received
  removed := l.removed ++ l.queued
  queued := []
  ordered := by
    rw [append_nil]
    exact (pairwise_append.mp l.ordered).1
  complete := by
    rw [append_nil,← append_assoc]
    exact l.complete

variable {l : FifoLedger M} {ms : List M}

theorem Numbers.post {ns : List ℕ} (h : l.Numbers ns ms) (hns : ∀ n ∈ ns, n < l.posted.length)
    (m : M) : (l.post m).Numbers ns ms := by
  refine Eq.trans (map_congr_left fun n hn => ?_) h
  exact getElem?_append_left (hns n hn)

theorem Numbers.post_queued (h : l.Numbers l.queued ms) (m : M) :
    (l.post m).Numbers (l.post m).queued (ms ++ [m]) := by
  have hold : (l.post m).Numbers l.queued ms :=
    h.post (fun n hn => l.lt_of_mem (mem_append_right _ hn)) m
  simp only [Numbers] at hold ⊢
  rw [FifoLedger.post,map_append,map_append]
  exact congr (congrArg _ hold) (by simp)

theorem Numbers.post_received (h : l.Numbers l.received ms) (m : M) :
    (l.post m).Numbers (l.post m).received ms :=
  h.post (fun _ hn => l.lt_of_mem (mem_append_left _ hn)) m

theorem Numbers.take {m : M} {received : List M} (hq : l.Numbers l.queued (m :: ms))
    (hr : l.Numbers l.received received) :
    l.take.Numbers l.take.queued ms ∧ l.take.Numbers l.take.received (received ++ [m]) := by
  cases hqueued : l.queued with
  | nil =>
    rw [hqueued] at hq
    exact absurd hq (by simp [Numbers])
  | cons n ns =>
    rw [hqueued] at hq
    obtain ⟨hm,hms⟩ := List.cons.inj hq
    constructor
    · simpa [Numbers,FifoLedger.take,hqueued] using hms
    · simp only [Numbers,FifoLedger.take,hqueued,map_append] at hr ⊢
      rw [hr]
      simpa using hm

end FifoLedger

end TinaPackage
