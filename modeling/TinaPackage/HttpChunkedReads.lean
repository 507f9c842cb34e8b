import TinaPackage.HttpChunkedModel

/-! What the two readers of a chunk do on well-formed bytes, for every script of answers. -/
namespace TinaPackage.Http
open List Nat

variable {flags : List Bool}

theorem cdxStreamRead_stop (n : ℕ) (rest : List UInt8) (script : List Answer) :
    cdxStreamRead n ⟨rest,.stop :: script,flags⟩ = (none, ⟨rest,script,flags⟩) := rfl

variable {script : List Answer} {ds tail : List UInt8}

theorem cdxStreamRead_one (b : UInt8) (rest : List UInt8) (flags : List Bool)
    (h : script.head? ≠ some .stop) :
    cdxStreamRead 1 ⟨b :: rest,script,flags⟩ = (some [b], ⟨rest,script.tail,flags⟩) := by
  cases script with
  | nil => rfl
  | cons a script =>
    cases a with
    | stop => simp at h
    | give k => simp [cdxStreamRead]

theorem eq_stop_cons (h : script.head? = some .stop) : script = .stop :: script.tail := by
  cases script with
  | nil => simp at h
  | cons a script =>
    simp only [List.head?_cons,Option.some.injEq] at h
    rw [h,tail_cons]

def stopAt : ℕ → List Answer → Option ℕ
  | 0, _ => none
  | _ + 1, [] => none
  | _ + 1, .stop :: _ => some 0
  | n + 1, .give _ :: script => (stopAt n script).map (· + 1)

theorem stopAt_succ {n : ℕ} (h : script.head? ≠ some .stop) :
    stopAt (n+1) script = (stopAt n script.tail).map (· + 1) := by
  match script with
  | [] => cases n <;> rfl
  | .stop :: script => simp at h
  | .give k :: script => rfl

/-- A call that is stopped copies the digits it has read to an array of ten places. -/
def StopFits (len ds : List UInt8) (script : List Answer) : Prop :=
  ∀ i ∈ stopAt (ds.length+2) script, (len ++ ds.take i).length < 10

instance (len ds : List UInt8) (script : List Answer) : Decidable (StopFits len ds script) := by
  unfold StopFits
  infer_instance

theorem StopFits.cons {b : UInt8} {len : List UInt8} (h : StopFits len (b :: ds) script)
    (hstop : script.head? ≠ some .stop) : StopFits (len ++ [b]) ds script.tail := by
  intro i hi
  have hlen := h (i+1) (by rw [length_cons,add_right_comm,stopAt_succ hstop,hi]; rfl)
  rwa [take_succ_cons,append_cons] at hlen

/-- The outcome of reading the rest `ds` of a size line behind the digits `len`. -/
def sizeResult (len ds tail : List UInt8) (script : List Answer) (flags : List Bool) : SizeRead :=
  match stopAt (ds.length+2) script with
  | none => ⟨int32 (hexNumber (len ++ ds)),[],⟨tail,script.drop (ds.length+2),flags⟩⟩
  | some i =>
    if i ≤ ds.length then
      ⟨-2,len ++ ds.take i,⟨ds.drop i ++ (crlf ++ tail),script.drop (i+1),flags⟩⟩
    else ⟨-3,len ++ ds,⟨10 :: tail,script.drop (i+1),flags⟩⟩

theorem sizeResult_cons {b : UInt8} {len : List UInt8} (h : script.head? ≠ some .stop) :
    sizeResult len (b :: ds) tail script flags =
      sizeResult (len ++ [b]) ds tail script.tail flags := by
  unfold sizeResult
  rw [length_cons,add_right_comm,stopAt_succ h]
  cases hstop : stopAt (ds.length+2) script.tail with
  | none =>
    simp
  | some i =>
    simp

theorem readSizeLoop_eq (hex : ∀ b ∈ ds, isHexDigit b = true) :
    ∀ (fuel : ℕ) (len : List UInt8) (script : List Answer), ds.length < fuel →
      len.length+ds.length ≤ 10 → StopFits len ds script →
      readSizeLoop fuel len ⟨ds ++ (crlf ++ tail),script,flags⟩ =
        some (sizeResult len ds tail script flags) := by
  induction ds with
  | nil =>
    intro fuel len script hfuel _ hfits
    obtain ⟨fuel,rfl⟩ := exists_eq_add_one_of_ne_zero (ne_of_gt hfuel)
    by_cases hstop : script.head? = some .stop
    · -- stopped in front of the line end
      rw [eq_stop_cons hstop] at hfits ⊢
      have hlen : len.length < 10 := by simpa using hfits 0 rfl
      simp [readSizeLoop,cdxStreamRead_stop,sizeResult,stopAt,hlen]
    · have hfirst := cdxStreamRead_one 13 (10 :: tail) flags hstop
      have hcr : isHexDigit 13 = false := by decide
      by_cases hstop' : script.tail.head? = some .stop
      · -- stopped between its two characters
        obtain ⟨script',htail⟩ : ∃ s, script.tail = .stop :: s := ⟨_,eq_stop_cons hstop'⟩
        have hlen : len.length < 10 := by
          simpa using hfits 1 (by simp [stopAt_succ hstop,htail,stopAt])
        have hdrop : script.drop 2 = script' := by
          rw [← drop_tail,htail]
          rfl
        simp only [crlf,nil_append,cons_append,readSizeLoop,hfirst,hcr,htail,
          cdxStreamRead_stop,hlen,if_true,Bool.false_eq_true,if_false,sizeResult,
          length_nil,stopAt_succ hstop,stopAt,Option.map_some,append_nil]
        simp [hdrop]
      · have hsecond := cdxStreamRead_one 10 tail flags hstop'
        simp only [crlf,nil_append,cons_append,readSizeLoop,hfirst,hcr,hsecond,
          if_true,Bool.false_eq_true,if_false,sizeResult,length_nil,
          stopAt_succ hstop,stopAt_succ hstop',stopAt,Option.map_none,append_nil]
        simp [← drop_tail]
  | cons b ds ih =>
    intro fuel len script hfuel hlen hfits
    obtain ⟨fuel,rfl⟩ := exists_eq_add_one_of_ne_zero (ne_of_gt (zero_lt_of_lt hfuel))
    rw [length_cons] at hfuel hlen
    by_cases hstop : script.head? = some .stop
    · rw [eq_stop_cons hstop]
      have : len.length < 10 := by omega
      simp [readSizeLoop,cdxStreamRead_stop,sizeResult,stopAt,this]
    · rw [sizeResult_cons hstop,← ih (fun c hc => hex c (mem_cons_of_mem _ hc)) fuel
        (len ++ [b]) script.tail (by omega) (by simp; omega) (hfits.cons hstop)]
      have hfirst := cdxStreamRead_one b (ds ++ (crlf ++ tail)) flags hstop
      have hroom : ¬ 10 < len.length+1 := by omega
      simp [readSizeLoop,hfirst,hex b mem_cons_self,hroom]

theorem readChunkedSize_eq (script : List Answer) (hex : ∀ b ∈ ds, isHexDigit b = true)
    (hlen : ds.length ≤ 10) (hfits : StopFits [] ds script) :
    readChunkedSize ⟨ds ++ (crlf ++ tail),script,flags⟩ =
      some (sizeResult [] ds tail script flags) :=
  readSizeLoop_eq hex 11 [] script (by omega) (by simpa using hlen) hfits

/-- The answers to the reads of a payload of which `n` bytes are to come that lose nothing: a
force stop is not the answer to the `first` read, and the line end behind it comes in one piece. -/
def dataPermitted : Bool → ℕ → List Answer → Bool
  | _, _, [] => true
  | first, n, .stop :: _ => !first && 0 < n
  | _, 0, .give k :: _ => 1 ≤ k
  | _, n + 1, .give k :: script => dataPermitted false (n+1-min (k+1) (n+1)) script

theorem readDataEnd_of_permitted (bytes tail : List UInt8) (flags : List Bool)
    (h : dataPermitted false 0 script = true) :
    ∃ script', readDataEnd bytes ⟨crlf ++ tail,script,flags⟩ =
      ⟨bytes.length,bytes,⟨tail,script',flags⟩⟩ := by
  match script with
  | [] => exact ⟨[],rfl⟩
  | .stop :: script => simp [dataPermitted] at h
  | .give k :: script =>
    have hk : min (k+1) 2 = 2 := by
      simp only [dataPermitted,decide_eq_true_eq] at h
      omega
    refine ⟨script,?_⟩
    simp [readDataEnd,cdxStreamRead,hk,crlf]

theorem cdxStreamRead_payload {payload : List UInt8} (t : List UInt8) (flags : List Bool)
    {first : Bool} (hne : payload ≠ []) (hstop : script.head? ≠ some .stop)
    (h : dataPermitted first payload.length script = true) :
    ∃ m, 0 < m ∧ m ≤ payload.length ∧ cdxStreamRead payload.length ⟨payload ++ t,script,flags⟩ =
        (some (payload.take m), ⟨payload.drop m ++ t,script.tail,flags⟩) ∧
      dataPermitted false (payload.length-m) script.tail = true := by
  have hpos : 0 < payload.length := List.length_pos_iff.mpr hne
  match script with
  | [] => exact ⟨payload.length,hpos,le_refl _,by simp [cdxStreamRead],rfl⟩
  | .stop :: script => simp at hstop
  | .give k :: script =>
    refine ⟨min (k+1) payload.length,by omega,min_le_right _ _,?_,?_⟩
    · have hle := min_le_right (k+1) payload.length
      simp [cdxStreamRead,take_append_of_le_length hle,drop_append_of_le_length hle]
    · obtain ⟨n,hn⟩ := exists_eq_add_one_of_ne_zero (ne_of_gt hpos)
      rw [hn] at h ⊢
      exact h

/-- A permitted read of a payload yields a non-empty part of it. Either the payload is complete
and its line end is gone, or the rest of it is still to come. -/
theorem readDataLoop_of_permitted {size : ℕ} :
    ∀ (fuel : ℕ) (payload bytes : List UInt8) (script : List Answer), payload ≠ [] →
      payload.length < fuel → bytes.length+payload.length = size →
      dataPermitted bytes.isEmpty payload.length script = true →
      ∃ more left script', readDataLoop size fuel bytes ⟨payload ++ (crlf ++ tail),script,flags⟩ =
            some ⟨(bytes ++ more).length,bytes ++ more,⟨left,script',flags⟩⟩ ∧
        bytes ++ more ≠ [] ∧
        ((more = payload ∧ left = tail) ∨ ∃ payload', payload' ≠ [] ∧ payload = more ++ payload' ∧
            left = payload' ++ (crlf ++ tail)) := by
  intro fuel
  induction fuel with
  | zero =>
    intro payload bytes script _ hfuel
    omega
  | succ fuel ih =>
    intro payload bytes script hne hfuel hsize hpermitted
    have hwant : size-bytes.length = payload.length := by omega
    by_cases hstop : script.head? = some .stop
    · -- what is there is kept, and the rest is read by a later call
      rw [eq_stop_cons hstop] at hpermitted ⊢
      have hbytes : bytes ≠ [] := by
        intro hnil
        simp [dataPermitted,hnil] at hpermitted
      refine ⟨[],payload ++ (crlf ++ tail),script.tail,?_,by simpa using hbytes,
        .inr ⟨payload,hne,rfl,rfl⟩⟩
      simp [readDataLoop,cdxStreamRead_stop,hbytes]
    · obtain ⟨m,hm,hmle,hread,hrest⟩ :=
        cdxStreamRead_payload (crlf ++ tail) flags hne hstop hpermitted
      obtain ⟨p,ps,hps⟩ : ∃ p ps, payload.take m = p :: ps := by
        apply exists_cons_of_ne_nil
        simp only [ne_eq,take_eq_nil_iff,not_or]
        exact ⟨by omega,hne⟩
      have hlength : (bytes ++ payload.take m).length = bytes.length+m := by
        rw [length_append,length_take,Nat.min_eq_left hmle]
      have hstep : readDataLoop size (fuel+1) bytes ⟨payload ++ (crlf ++ tail),script,flags⟩ =
          if (bytes ++ payload.take m).length = size then
            some (readDataEnd (bytes ++ payload.take m)
              ⟨payload.drop m ++ (crlf ++ tail),script.tail,flags⟩)
          else readDataLoop size fuel (bytes ++ payload.take m)
            ⟨payload.drop m ++ (crlf ++ tail),script.tail,flags⟩ := by
        simp only [readDataLoop,hwant,hread,hps]
      rw [hstep]
      by_cases hfull : m = payload.length
      · -- the chunk is complete, and its line end is read at once
        subst hfull
        rw [Nat.sub_self] at hrest
        obtain ⟨script',hend⟩ := readDataEnd_of_permitted (bytes ++ payload) tail flags hrest
        refine ⟨payload,tail,script',?_,by simp [hne],.inl ⟨rfl,rfl⟩⟩
        rw [if_pos (by omega),take_length,drop_length,nil_append,hend]
      · have hdrop : payload.drop m ≠ [] := by
          simp only [ne_eq,drop_eq_nil_iff]
          omega
        have hdropLength : (payload.drop m).length = payload.length-m := length_drop
        have hbytes : (bytes ++ payload.take m).isEmpty = false := by
          simp [hps]
        obtain ⟨more,left,script',hloop,hnonempty,hor⟩ :=
          ih (payload.drop m) (bytes ++ payload.take m) script.tail hdrop (by omega) (by omega)
            (by rw [hbytes,hdropLength]; exact hrest)
        refine ⟨payload.take m ++ more,left,script',?_,?_,?_⟩
        · rw [if_neg (by omega),hloop,append_assoc]
        · rw [← append_assoc]
          exact hnonempty
        · rcases hor with ⟨hmore,hleft⟩ | ⟨payload',hne',hsplit,hleft⟩
          · left
            exact ⟨by rw [hmore,take_append_drop],hleft⟩
          · right
            refine ⟨payload',hne',?_,hleft⟩
            rw [append_assoc,← hsplit,take_append_drop]

theorem readChunkedData_of_permitted {payload : List UInt8} (tail : List UInt8) (flags : List Bool)
    (hne : payload ≠ []) (h : dataPermitted true payload.length script = true) :
    ∃ bytes left script', readChunkedData payload.length
        ⟨payload ++ (crlf ++ tail),script,flags⟩ =
          some ⟨bytes.length,bytes,⟨left,script',flags⟩⟩ ∧ bytes ≠ [] ∧
      ((bytes = payload ∧ left = tail) ∨ ∃ payload', payload' ≠ [] ∧ payload = bytes ++ payload' ∧
          left = payload' ++ (crlf ++ tail)) := by
  exact readDataLoop_of_permitted (payload.length+1) payload [] script hne (lt_succ_self _)
    (zero_add _) h

end TinaPackage.Http
