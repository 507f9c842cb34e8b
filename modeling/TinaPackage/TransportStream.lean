import Mathlib

/-! MPEG transport streams as a receiver reads them: packets of 188 bytes with their PID,
continuity counter and adaptation field, and the PES packets they carry. -/
namespace TinaPackage
open UInt8

def byteAt (bs : List UInt8) (i : ℕ) : ℕ := (bs.getD i 0).toNat

namespace TransportStream

variable (p : List UInt8)

def pid : ℕ := byteAt p 1 % 32*256+byteAt p 2

def unitStart : Bool := byteAt p 1/64 % 2 == 1

def counter : ℕ := byteAt p 3 % 16

/-- The payload behind the adaptation field; `none` for a packet without payload. -/
def payload? : Option (List UInt8) :=
  match byteAt p 3/16 % 4 with
  | 1 => some (p.drop 4)
  | 3 => some (p.drop (5+byteAt p 4))
  | _ => none

def carried (id : ℕ) (p : List UInt8) : Option (Bool × List UInt8) :=
  if pid p = id then (payload? p).map fun d => (unitStart p, d) else none

variable (id : ℕ) (ps : List (List UInt8))

def counters : List ℕ := (ps.filter fun p => (carried id p).isSome).map counter

def Continuous (cs : List ℕ) : Prop :=
  ∀ k a b, cs[k]? = some a → cs[k+1]? = some b → b = (a+1) % 16

/-- Bytes that do not start a unit belong to the last one; before the first start they are lost. -/
def extendLast : List (List UInt8) → List UInt8 → List (List UInt8)
  | [], _ => []
  | [u], d => [u ++ d]
  | u :: us, d => u :: extendLast us d

def collect (us : List (List UInt8)) (c : Bool × List UInt8) : List (List UInt8) :=
  if c.1 then us ++ [c.2] else extendLast us c.2

def units : List (List UInt8) := (ps.filterMap (carried id)).foldl collect []

structure PesPacket where
  pts : Option ℕ
  data : List UInt8
  deriving DecidableEq

def readPts (bs : List UInt8) : ℕ :=
  byteAt bs 0/2 % 8*2^30+(byteAt bs 1*256+byteAt bs 2)/2*2^15 + (byteAt bs 3*256+byteAt bs 4)/2

def parsePes (u : List UInt8) : Option PesPacket :=
  if u.take 3 = [0,0,1] then
    some {
      pts := if byteAt u 7/128 % 2 = 1 then some (readPts (u.drop 9)) else none
      data := u.drop (9+byteAt u 8) }
  else none

def demux : List (Option PesPacket) := (units id ps).map parsePes

theorem extendLast_concat (us : List (List UInt8)) (u d : List UInt8) :
    extendLast (us ++ [u]) d = us ++ [u ++ d] := by
  induction us with
  | nil => rfl
  | cons v us ih =>
    -- the tail is not empty, so the third equation applies
    have htail : us ++ [u] ≠ [] := List.append_ne_nil_of_right_ne_nil us (List.cons_ne_nil u [])
    rw [List.cons_append,extendLast.eq_3 _ _ _ htail,ih,List.cons_append]

theorem foldl_collect_continue (us : List (List UInt8)) (u : List UInt8) (ds : List (List UInt8)) :
    (ds.map (Prod.mk false)).foldl collect (us ++ [u]) = us ++ [u ++ ds.flatten] := by
  induction ds generalizing u with
  | nil => simp
  | cons d ds ih =>
    have hstep : collect (us ++ [u]) (false, d) = us ++ [u ++ d] := extendLast_concat us u d
    rw [List.map_cons,List.foldl_cons,hstep,ih,List.flatten_cons,List.append_assoc]

section
variable {id : ℕ} {ps qs : List (List UInt8)} {ds : List (List UInt8)} {d : List UInt8}

theorem units_append_of_carried
    (h : qs.filterMap (carried id) = (true, d) :: ds.map (Prod.mk false)) :
    units id (ps ++ qs) = units id ps ++ [d ++ ds.flatten] := by
  unfold units
  rw [List.filterMap_append,h,List.foldl_append,List.foldl_cons]
  exact foldl_collect_continue _ _ _

theorem units_append_of_none (h : ∀ q ∈ qs, carried id q = none) :
    units id (ps ++ qs) = units id ps := by
  have hnil : qs.filterMap (carried id) = [] := List.filterMap_eq_nil_iff.mpr h
  unfold units
  rw [List.filterMap_append,hnil,List.append_nil]

theorem demux_append_of_none (h : ∀ q ∈ qs, carried id q = none) :
    demux id (ps ++ qs) = demux id ps := by
  unfold demux
  rw [units_append_of_none h]

theorem demux_append_of_carried
    (h : qs.filterMap (carried id) = (true, d) :: ds.map (Prod.mk false)) :
    demux id (ps ++ qs) = demux id ps ++ [parsePes (d ++ ds.flatten)] := by
  unfold demux
  rw [units_append_of_carried h,List.map_append]
  rfl

end

theorem counters_append (id : ℕ) (ps qs : List (List UInt8)) :
    counters id (ps ++ qs) = counters id ps ++ counters id qs := by
  unfold counters
  rw [List.filter_append,List.map_append]

variable {p : List UInt8} {id : ℕ}

theorem counters_singleton_of_none (h : carried id p = none) : counters id [p] = [] := by
  simp [counters,h]

theorem counters_singleton_of_some (h : (carried id p).isSome) : counters id [p] = [counter p] := by
  simp [counters,h]

theorem continuous_of_range {cs : List ℕ} (h : cs = (List.range cs.length).map (· % 16)) :
    Continuous cs := by
  intro k a b ha hb
  have hk : k+1 < cs.length := (List.getElem?_eq_some_iff.mp hb).1
  have hget : ∀ j < cs.length, cs[j]? = some (j % 16) := by
    intro j hj
    conv_lhs => rw [h]
    rw [List.getElem?_map,List.getElem?_range hj,Option.map_some]
  rw [hget k (by omega),Option.some.injEq] at ha
  rw [hget (k+1) hk,Option.some.injEq] at hb
  omega

def stuffing : ℕ → List UInt8
  | 0 => []
  | 1 => [0]
  | n + 2 => ofNat (n+1) :: 0 :: List.replicate n 0xff

@[simp] theorem length_stuffing (n : ℕ) : (stuffing n).length = n := by
  match n with
  | 0 => rfl
  | 1 => rfl
  | n+2 => simp [stuffing]

theorem byteAt_stuffing {n : ℕ} (hpos : 0 < n) (hn : n ≤ 184) (rest : List UInt8) :
    byteAt (stuffing n ++ rest) 0 = n-1 := by
  match n with
  | 1 => rfl
  | n+2 =>
    have hbyte : (ofNat (n+1)).toNat = n+1 := by
      rw [toNat_ofNat']
      omega
    exact hbyte

def packet (id cc : ℕ) (start : Bool) (d : List UInt8) : List UInt8 :=
  [0x47,ofNat ((if start then 64 else 0)+id/256),ofNat id,
    ofNat ((if d.length < 184 then 48 else 16)+cc)] ++
    (stuffing (184-d.length) ++ d)

section Packet
variable {id cc : ℕ} (start : Bool) {d : List UInt8}

theorem length_packet (hd : d.length ≤ 184) : (packet id cc start d).length = 188 := by
  simp only [packet,List.length_append,List.length_cons,List.length_nil,length_stuffing]
  omega

theorem byteAt_packet_one (hid : id < 8192) :
    byteAt (packet id cc start d) 1 = (if start then 64 else 0)+id/256 := by
  show (ofNat _).toNat = _
  rw [toNat_ofNat']
  split <;> omega

theorem pid_packet (hid : id < 8192) : pid (packet id cc start d) = id := by
  have hlow : byteAt (packet id cc start d) 2 = id % 256 := toNat_ofNat'
  unfold pid
  rw [byteAt_packet_one start hid,hlow]
  split <;> omega

theorem unitStart_packet (hid : id < 8192) : unitStart (packet id cc start d) = start := by
  unfold unitStart
  rw [byteAt_packet_one start hid,beq_eq_decide]
  cases start with
  | false =>
    apply decide_eq_false
    simp only [Bool.false_eq_true,if_false]
    omega
  | true =>
    apply decide_eq_true
    simp only [if_true]
    omega

theorem byteAt_packet_three (hcc : cc < 16) :
    byteAt (packet id cc start d) 3 = (if d.length < 184 then 48 else 16)+cc := by
  show (ofNat _).toNat = _
  rw [toNat_ofNat']
  split <;> omega

theorem counter_packet (hcc : cc < 16) : counter (packet id cc start d) = cc := by
  unfold counter
  rw [byteAt_packet_three start hcc]
  split <;> omega

theorem payload?_packet (hcc : cc < 16) (hd : d.length ≤ 184) :
    payload? (packet id cc start d) = some d := by
  unfold payload?
  rw [byteAt_packet_three start hcc]
  by_cases hfull : d.length < 184
  · -- the first byte of the adaptation field is the number of bytes behind it
    have hcontrol : (48+cc)/16 % 4 = 3 := by omega
    have hlen : byteAt (packet id cc start d) 4 = 184-d.length-1 :=
      byteAt_stuffing (by omega) (by omega) d
    rw [if_pos hfull,hcontrol,hlen]
    have hdrop : 5+(184-d.length-1) = 4+(stuffing (184-d.length)).length := by
      rw [length_stuffing]
      omega
    rw [hdrop,← List.drop_drop]
    exact congrArg some List.drop_left
  · have hcontrol : (16+cc)/16 % 4 = 1 := by omega
    have hnone : 184-d.length = 0 := by omega
    rw [if_neg hfull,hcontrol]
    show some (stuffing (184-d.length) ++ d) = some d
    rw [hnone]
    rfl

theorem carried_packet (hid : id < 8192) (hcc : cc < 16) (hd : d.length ≤ 184) :
    carried id (packet id cc start d) = some (start, d) := by
  unfold carried
  rw [if_pos (pid_packet start hid),payload?_packet start hcc hd,unitStart_packet start hid]
  rfl

theorem carried_packet_other {id' : ℕ} (hid : id < 8192) (hne : id ≠ id') :
    carried id' (packet id cc start d) = none := by
  unfold carried
  rw [if_neg]
  rw [pid_packet start hid]
  exact hne

end Packet

/-- `cc` is the counter of the last payload packet of a PID whose sender starts with 0. -/
structure Numbered (id cc : ℕ) (ps : List (List UInt8)) : Prop where
  counters_eq : counters id ps = (List.range (counters id ps).length).map (· % 16)
  cc_eq : cc = ((counters id ps).length+15) % 16

namespace Numbered
variable {id cc : ℕ} {ps : List (List UInt8)} {p : List UInt8}

theorem nil (id : ℕ) : Numbered id 15 [] := ⟨rfl,rfl⟩

section
variable (h : Numbered id cc ps)
include h

theorem continuous : Continuous (counters id ps) :=
  continuous_of_range h.counters_eq

theorem lt : cc < 16 := by
  rw [h.cc_eq]
  exact Nat.mod_lt _ (by decide)

theorem skip (hp : carried id p = none) : Numbered id cc (ps ++ [p]) := by
  have hsame : counters id (ps ++ [p]) = counters id ps := by
    rw [counters_append,counters_singleton_of_none hp,List.append_nil]
  exact ⟨by rw [hsame]; exact h.counters_eq,by rw [hsame]; exact h.cc_eq⟩

theorem next (hp : (carried id p).isSome) (hc : counter p = (cc+1) % 16) :
    Numbered id ((cc+1) % 16) (ps ++ [p]) := by
  have hmore : counters id (ps ++ [p]) = counters id ps ++ [counter p] := by
    rw [counters_append,counters_singleton_of_some hp]
  have hcc := h.cc_eq
  have hvalue : counter p = (counters id ps).length % 16 := by omega
  have hlen : (counters id (ps ++ [p])).length = (counters id ps).length+1 := by
    rw [hmore,List.length_append,List.length_singleton]
  constructor
  · rw [hlen,List.range_succ,List.map_append,← h.counters_eq,hmore,hvalue]
    rfl
  · omega

theorem skip_all {qs : List (List UInt8)} (hq : ∀ q ∈ qs, carried id q = none) :
    Numbered id cc (ps ++ qs) := by
  induction qs generalizing ps with
  | nil => rwa [List.append_nil]
  | cons q qs ih =>
    rw [List.append_cons]
    exact ih (h.skip (hq q List.mem_cons_self)) fun r hr => hq r (List.mem_cons_of_mem q hr)

end

end Numbered

/-- The packets of a unit whose payloads are given; `cc` is the counter before them. -/
def sendUnit (id : ℕ) : ℕ → Bool → List (List UInt8) → List (List UInt8)
  | _, _, [] => []
  | cc, start, d :: ds =>
    packet id ((cc+1) % 16) start d :: sendUnit id ((cc+1) % 16) false ds

section SendUnit
variable {id : ℕ} {ds : List (List UInt8)} {cc : ℕ} {start : Bool}

theorem sendUnit_packet (hp : p ∈ sendUnit id cc start ds) :
    ∃ c b, ∃ d ∈ ds, p = packet id c b d := by
  induction ds generalizing cc start with
  | nil => cases hp
  | cons d ds ih =>
    rcases List.mem_cons.mp hp with hhead | htail
    · exact ⟨_,_,d,List.mem_cons_self,hhead⟩
    · obtain ⟨c,b,e,he,hpe⟩ := ih htail
      exact ⟨c,b,e,List.mem_cons_of_mem d he,hpe⟩

@[simp] theorem length_sendUnit (cc : ℕ) (start : Bool) (ds : List (List UInt8)) :
    (sendUnit id cc start ds).length = ds.length := by
  induction ds generalizing cc start with
  | nil => rfl
  | cons d ds ih => rw [sendUnit,List.length_cons,ih,List.length_cons]

theorem length_of_mem_sendUnit (hds : ∀ d ∈ ds, d.length ≤ 184) (hp : p ∈ sendUnit id cc start ds) :
    p.length = 188 ∧ p.head? = some 0x47 := by
  obtain ⟨c,b,d,hd,rfl⟩ := sendUnit_packet hp
  exact ⟨length_packet b (hds d hd),rfl⟩

theorem carried_sendUnit_other {id' cc : ℕ} (hid : id < 8192) (hne : id ≠ id') :
    ∀ p ∈ sendUnit id cc start ds, carried id' p = none := by
  intro p hp
  obtain ⟨c,b,d,-,rfl⟩ := sendUnit_packet hp
  exact carried_packet_other b hid hne

theorem filterMap_carried_continue (hid : id < 8192) (cc : ℕ) (hds : ∀ d ∈ ds, d.length ≤ 184) :
    (sendUnit id cc false ds).filterMap (carried id) = ds.map (Prod.mk false) := by
  induction ds generalizing cc with
  | nil => rfl
  | cons d ds ih =>
    have hhead : carried id (packet id ((cc+1) % 16) false d) = some (false, d) :=
      carried_packet false hid (Nat.mod_lt _ (by decide)) (hds d List.mem_cons_self)
    rw [sendUnit,List.filterMap_cons_some hhead,List.map_cons,
      ih _ fun e he => hds e (List.mem_cons_of_mem d he)]

theorem filterMap_carried_sendUnit (hid : id < 8192) (cc : ℕ) {d : List UInt8}
    (hds : ∀ e ∈ d :: ds, e.length ≤ 184) :
    (sendUnit id cc true (d :: ds)).filterMap (carried id) =
      (true, d) :: ds.map (Prod.mk false) := by
  have hhead : carried id (packet id ((cc+1) % 16) true d) = some (true, d) :=
    carried_packet true hid (Nat.mod_lt _ (by decide)) (hds d List.mem_cons_self)
  rw [sendUnit,List.filterMap_cons_some hhead,
    filterMap_carried_continue hid _ fun e he => hds e (List.mem_cons_of_mem d he)]

theorem Numbered.sendUnit {ps : List (List UInt8)} (h : Numbered id cc ps) (hid : id < 8192)
    (hds : ∀ d ∈ ds, d.length ≤ 184) :
    Numbered id ((cc+ds.length) % 16) (ps ++ TransportStream.sendUnit id cc start ds) := by
  induction ds generalizing cc ps start with
  | nil =>
    rw [List.length_nil,Nat.add_zero,Nat.mod_eq_of_lt h.lt]
    simpa only [TransportStream.sendUnit,List.append_nil] using h
  | cons d ds ih =>
    have hcc : (cc+1) % 16 < 16 := Nat.mod_lt _ (by decide)
    have hcarried := carried_packet start hid hcc (hds d List.mem_cons_self)
    have hnext : Numbered id ((cc+1) % 16) (ps ++ [packet id ((cc+1) % 16) start d]) := by
      apply h.next
      · rw [hcarried]
        rfl
      · exact counter_packet start hcc
    have hrest : Numbered id (((cc+1) % 16+ds.length) % 16)
        (ps ++ [packet id ((cc+1) % 16) start d] ++
          TransportStream.sendUnit id ((cc+1) % 16) false ds) :=
      ih hnext fun e he => hds e (List.mem_cons_of_mem d he)
    have hcount : ((cc+1) % 16+ds.length) % 16 = (cc+(d :: ds).length) % 16 := by
      rw [List.length_cons]
      omega
    rw [hcount] at hrest
    rw [TransportStream.sendUnit,List.append_cons]
    exact hrest

end SendUnit

end TransportStream

end TinaPackage
