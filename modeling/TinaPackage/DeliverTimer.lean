import Mathlib

/-! Delayed messages (`base/CdxMessage.c`). A turn of the timer thread and the append of a post to
the list of events hold the mutex of the list, so each is one step. What a post does outside it, to
make the timer and to note the event in its deliver, is left out. The messages that a deliver has
been posted stay in the log of its event queue when its own thread takes them out. -/
namespace TinaPackage.Deliver
open List

variable {D M : Type*}

structure CdxEvent (D M : Type*) where
  msg : M
  deliver : D
  timeout : UInt32

structure State (D M : Type*) where
  timeoutList : List (CdxEvent D M)
  eventQueue : List (D × M)

def cdxDeliverPostUS (s : State D M) (deliver : D) (msg : M) (timeout : ℕ) : State D M :=
  if timeout = 0 then { s with eventQueue := s.eventQueue ++ [(deliver, msg)] }
  else { s with timeoutList := s.timeoutList ++ [⟨msg,deliver,.ofNat (timeout/100000)⟩] }

def countDown (s : State D M) (e : CdxEvent D M) : State D M :=
  if e.timeout-1 = 0 then cdxDeliverPostUS s e.deliver e.msg 0
  else { s with timeoutList := s.timeoutList ++ [{ e with timeout := e.timeout-1 }] }

def deliverTimerTick (s : State D M) : State D M :=
  s.timeoutList.foldl countDown { s with timeoutList := [] }

inductive Call (D M : Type*) where
  | post (deliver : D) (msg : M) (timeout : ℕ)
  | tick

def step (s : State D M) : Call D M → State D M
  | .post deliver msg timeout => cdxDeliverPostUS s deliver msg timeout
  | .tick => deliverTimerTick s

def run (calls : List (Call D M)) : State D M := calls.foldl step ⟨[],[]⟩

def ticks (calls : List (Call D M)) : ℕ := calls.countP fun | .tick => true | _ => false

def CdxEvent.due (e : CdxEvent D M) : ℕ := (e.timeout-1).toNat+1

variable [DecidableEq D] [DecidableEq M] (deliver : D) (msg : M)

/-- How often the message has been delivered when `n` more ticks have passed. -/
def State.delivered (s : State D M) (n : ℕ) : ℕ :=
  s.eventQueue.count (deliver, msg) +
    s.timeoutList.countP fun e => e.deliver = deliver ∧ e.msg = msg ∧ e.due ≤ n

section
variable (s : State D M)
include s

theorem delivered_add (es : List (CdxEvent D M)) (n : ℕ) :
    State.delivered deliver msg { s with timeoutList := s.timeoutList ++ es } n =
      s.delivered deliver msg n +
        es.countP fun e => e.deliver = deliver ∧ e.msg = msg ∧ e.due ≤ n := by
  rw [State.delivered,countP_append,← add_assoc]
  rfl

theorem delivered_countDown (e : CdxEvent D M) (n : ℕ) :
    (countDown s e).delivered deliver msg n = s.delivered deliver msg n +
      [e].countP fun e => e.deliver = deliver ∧ e.msg = msg ∧ e.due ≤ n+1 := by
  unfold countDown
  split_ifs with hzero
  · have hdue : e.due = 1 := by rw [CdxEvent.due,hzero]; rfl
    simp [cdxDeliverPostUS,State.delivered,hdue,count_singleton]
    omega
  · have hdue : CdxEvent.due { e with timeout := e.timeout-1 } + 1 = e.due := by
      have hne : (e.timeout-1).toNat ≠ 0 := fun h => hzero (UInt32.toNat_inj.mp h)
      have hle : (1 : UInt32) ≤ e.timeout-1 := UInt32.le_iff_toNat_le.mpr (by simp; omega)
      rw [CdxEvent.due,CdxEvent.due,UInt32.toNat_sub_of_le _ _ hle]
      simp
      omega
    rw [delivered_add]
    simp [← hdue]

theorem delivered_tick (n : ℕ) :
    (deliverTimerTick s).delivered deliver msg n = s.delivered deliver msg (n+1) := by
  have hloop (es : List (CdxEvent D M)) (s : State D M) :
      (es.foldl countDown s).delivered deliver msg n = s.delivered deliver msg n +
        es.countP fun e => e.deliver = deliver ∧ e.msg = msg ∧ e.due ≤ n+1 := by
    induction es generalizing s with
    | nil => rfl
    | cons e es ih =>
      rw [foldl_cons,ih,delivered_countDown,add_assoc,← countP_append]
      rfl
  rw [deliverTimerTick,hloop]
  rfl

theorem delivered_post (d : D) (m : M) (timeout n : ℕ) :
    (cdxDeliverPostUS s d m timeout).delivered deliver msg n = s.delivered deliver msg n +
      (cdxDeliverPostUS ⟨[],[]⟩ d m timeout).delivered deliver msg n := by
  unfold cdxDeliverPostUS
  split_ifs with hzero
  · simp [State.delivered]
    omega
  · rw [delivered_add]
    simp [State.delivered]

theorem delivered_run (calls : List (Call D M)) : (calls.foldl step s).delivered deliver msg 0 =
      s.delivered deliver msg (ticks calls)+(run calls).delivered deliver msg 0 := by
  induction calls generalizing s with
  | nil => rfl
  | cons call calls ih =>
    rw [run,foldl_cons,foldl_cons,ih,ih (step _ call)]
    cases call with
    | post d m timeout =>
      have hticks : ticks (.post d m timeout :: calls) = ticks calls :=
        countP_cons_of_neg nofun
      rw [step,step,delivered_post,hticks,add_assoc]
    | tick =>
      have hticks : ticks (.tick :: calls) = ticks calls+1 := countP_cons_of_pos rfl
      rw [step,step,delivered_tick,hticks]
      exact congrArg _ (zero_add _).symm

theorem count_eventQueue : s.eventQueue.count (deliver, msg) = s.delivered deliver msg 0 := by
  rw [State.delivered,countP_eq_zero.mpr fun e _ => by simp [CdxEvent.due],add_zero]

end

theorem count_run_post {timeout : ℕ} (hpos : 0 < timeout) (before after : List (Call D M)) :
    (run (before ++ .post deliver msg timeout :: after)).eventQueue.count (deliver, msg) =
      (run (before ++ after)).eventQueue.count (deliver, msg) +
        if (timeout/100000+(2^32-1)) % 2^32+1 ≤ ticks after then 1 else 0 := by
  have hdue : (UInt32.ofNat (timeout/100000)-1).toNat = (timeout/100000+(2^32-1)) % 2^32 := by
    rw [UInt32.toNat_sub,UInt32.toNat_ofNat']
    simp
    omega
  have hrun (calls : List (Call D M)) : run (before ++ calls) = calls.foldl step (run before) :=
    foldl_append
  rw [count_eventQueue,count_eventQueue,hrun,hrun,foldl_cons,delivered_run,
    delivered_run deliver msg (run before),step,cdxDeliverPostUS,if_neg (by omega),delivered_add]
  simp only [countP_singleton,CdxEvent.due,hdue,decide_eq_true_eq,true_and]
  omega

/-- A message with a delay is delivered exactly once, after the ticks of its delay and at least one,
whatever else is posted, if and only if the delay is a tick or more and its ticks fit a counter. -/
theorem delayed_message_on_time_iff (timeout : ℕ) (hpos : 0 < timeout) :
    (∀ before after : List (Call D M),
      (run (before ++ .post deliver msg timeout :: after)).eventQueue.count (deliver, msg) =
        (run (before ++ after)).eventQueue.count (deliver, msg) +
          if max 1 (timeout/100000) ≤ ticks after then 1 else 0) ↔
      100000 ≤ timeout ∧ timeout/100000 ≤ 2^32 := by
  simp only [count_run_post deliver msg hpos]
  constructor
  · intro h
    have hafter (n : ℕ) : ticks (replicate n (.tick : Call D M)) = n := by
      simp [ticks,countP_replicate]
    have hticks (n : ℕ) := add_left_cancel (h [] (.replicate n .tick))
    simp only [hafter] at hticks
    have hlate := hticks (max 1 (timeout/100000))
    have hsoon := hticks ((timeout/100000+(2^32-1)) % 2^32+1)
    split_ifs at hlate hsoon <;> omega
  · rintro ⟨hlo,hhi⟩ before after
    have hdue : (timeout/100000+(2^32-1)) % 2^32+1 = max 1 (timeout/100000) := by omega
    rw [hdue]

theorem message_on_time_after_two_ticks :
    (run ([.tick] ++ .post 1 'a' 200000 :: [.tick,.post 1 'b' 0,.tick])).eventQueue.count
      (1, 'a') = 1 :=
  ((delayed_message_on_time_iff 1 'a' 200000 (by decide)).mpr (by decide) _ _).trans (by decide)

/-- A delay of less than a tick. -/
theorem short_delay_wraps :
    (run [.post 1 'a' 50000,.tick,.tick]).eventQueue.count (1, 'a') = 0 := by
  decide

end TinaPackage.Deliver
