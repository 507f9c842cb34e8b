import TinaPackage.Runs

/-! Standard input of the test cases of tinatest. `mjson_get_array_from_obj` copies the strings of
every array that a lookup or a walk meets into the one static `MJSON_ARRAY_LIST`; `task_add_do`
keeps a pointer to that list, and `task_init_fdin` reads it when a process of the task starts. -/
namespace TinaPackage.TestInputs
open Function Option

/-- The bytes of a string of the configuration, which `json_object_get_string` returns. -/
abbrev Line := List UInt8

/-- What `strlen` counts of it. -/
def cString (s : Line) : Line := s.takeWhile (· ≠ 0)

def arrayMax : ℕ := 30

/-- `MJSON_ARRAY_LIST`: the number that entry 0 spells, and the entries behind it. -/
structure ArrayList where
  len : ℕ
  entry : ℕ → Option Line

/-- The elements of a JSON array; `none` is one that is not a string. -/
abbrev Elems := List (Option Line)

/-- The loop of `mjson_get_array_from_obj` behind `cnt` strings. It never compares `cnt` with
`ARRAY_MAX`; a store behind the list is undefined. -/
def getArrayLoop (l : ArrayList) (cnt : ℕ) : Elems → Option (Bool × ArrayList)
  | [] => some (true,{ l with len := cnt })
  | none :: _ =>
    some (false,{ l with entry := fun k => if 1 ≤ k ∧ k ≤ cnt then none else l.entry k })
  | some s :: rest =>
    if cnt+1 < arrayMax then
      getArrayLoop { l with entry := update l.entry (cnt+1) (some s) } (cnt+1) rest
    else none

def mjsonGetArrayFromObj (l : ArrayList) (obj : Elems) : Option (Bool × ArrayList) :=
  getArrayLoop l 0 obj

inductive InputType
  | taskNoInput
  | taskStdin
  | taskFstdin
  deriving DecidableEq, Repr

/-- Where a `struct task` takes its input from. With `taskStdin` its `input` is
`MJSON_ARRAY_LIST` itself, whichever task it is. -/
structure Task (Path : Type*) where
  keypath : Path
  inputT : InputType

structure Runner (Path : Type*) where
  list : ArrayList
  tasks : List (Task Path)

inductive Event (Path : Type*)
  | look (obj : Elems)
  | add (keypath : Path)

def linesUpTo (entry : ℕ → Option Line) : ℕ → Option (List Line)
  | 0 => some []
  | n+1 => (linesUpTo entry n).bind fun ys => (entry (n+1)).map fun s => ys ++ [s]

def ArrayList.lines (l : ArrayList) : Option (List Line) := linesUpTo l.entry l.len

def text (ls : List Line) : List UInt8 := ls.flatMap (· ++ [10])

inductive Fdin
  | pipe (content : List UInt8)
  | file
  | unset
  deriving DecidableEq, Repr

/-- What a process would be fed after a lookup of `obj`, if it was `shown` before: an array of
strings replaces it, and any other array that begins with a string takes its first line away. -/
def shownAfter (shown : Option (List Line)) (obj : Elems) : Option (List Line) :=
  if obj.all isSome then some obj.reduceOption
  else if obj.head?.join.isSome ∧ shown ≠ some [] then none
  else shown

/-- The strings that the loop stores have their places in the list. -/
def Fits (obj : Elems) : Prop := (obj.takeWhile isSome).length < arrayMax

theorem linesUpTo_update (entry : ℕ → Option Line) (v : Option Line) {n k : ℕ} (h : n < k) :
    linesUpTo (update entry k v) n = linesUpTo entry n := by
  induction n with
  | zero => rfl
  | succ n ih => rw [linesUpTo,linesUpTo,ih (by omega),update_of_ne (by omega)]

theorem linesUpTo_succ_eq_none {entry : ℕ → Option Line} (h : entry 1 = none) (n : ℕ) :
    linesUpTo entry (n+1) = none := by
  induction n with
  | zero => simp [linesUpTo,h]
  | succ n ih => rw [linesUpTo,ih,bind_none]

section
variable {obj : Elems} {l l' : ArrayList} {cnt : ℕ} {ok : Bool}

theorem getArrayLoop_isSome (hcnt : cnt < arrayMax) :
    (getArrayLoop l cnt obj).isSome ↔ cnt+(obj.takeWhile isSome).length < arrayMax := by
  fun_induction getArrayLoop l cnt obj with
  | case1 | case2 => simpa
  | case3 l cnt s rest hlt ih =>
    rw [ih hlt]
    simp [add_assoc,add_comm 1]
  | case4 l cnt s rest hge =>
    simp
    omega

/-- The strings stored so far, `ys`, and those still to come are what the list shows in the end. -/
theorem getArrayLoop_all {ys : List Line} (h : getArrayLoop l cnt obj = some (ok,l'))
    (hys : linesUpTo l.entry cnt = some ys) (hall : obj.all isSome) :
    ok = true ∧ l'.lines = some (ys ++ obj.reduceOption) := by
  fun_induction getArrayLoop l cnt obj generalizing ys with
  | case1 l cnt =>
    cases h
    simpa [ArrayList.lines] using hys
  | case2 => simp at hall
  | case3 l cnt s rest _ ih =>
    have hstored : linesUpTo (update l.entry (cnt+1) (some s)) (cnt+1) = some (ys ++ [s]) := by
      simp [linesUpTo,linesUpTo_update,hys]
    simpa using ih h hstored (by simpa using hall)
  | case4 => cases h

theorem getArrayLoop_other (h : getArrayLoop l cnt obj = some (ok,l')) (hall : ¬obj.all isSome) :
    ok = false ∧ l'.len = l.len ∧ (cnt ≠ 0 → l'.entry 1 = none) := by
  fun_induction getArrayLoop l cnt obj with
  | case1 => simp at hall
  | case2 l cnt =>
    cases h
    exact ⟨rfl,rfl,fun hc => if_pos ⟨le_rfl,Nat.one_le_iff_ne_zero.mpr hc⟩⟩
  | case3 l cnt s rest _ ih =>
    obtain ⟨hok,hlen,hentry⟩ := ih h (by simpa using hall)
    exact ⟨hok,hlen,fun _ => hentry (by omega)⟩
  | case4 => cases h

theorem mjsonGetArrayFromObj_shows (h : mjsonGetArrayFromObj l obj = some (ok,l')) :
    ok = obj.all isSome ∧ l'.lines = shownAfter l.lines obj := by
  by_cases hall : obj.all isSome
  · obtain ⟨hok,hl⟩ := getArrayLoop_all h rfl hall
    exact ⟨hok.trans hall.symm,by rw [shownAfter,if_pos hall,hl,List.nil_append]⟩
  obtain ⟨hok,hlen,-⟩ := getArrayLoop_other h hall
  refine ⟨by simpa [hok] using hall,?_⟩
  rw [shownAfter,if_neg hall]
  match obj, h, hall with
  | none :: _, h, _ =>
    cases h
    have hnone (k : ℕ) : ¬(1 ≤ k ∧ k ≤ 0) := by omega
    simp only [ArrayList.lines,hnone,if_false]
    simp
  | some s :: rest, h, hall =>
    -- the first entry is cleared again, so a list that shows a line loses it
    rw [mjsonGetArrayFromObj,getArrayLoop,if_pos (by decide)] at h
    have hentry := (getArrayLoop_other h (by simpa using hall)).2.2 one_ne_zero
    cases hn : l.len with
    | zero => simp [ArrayList.lines,hlen,hn,linesUpTo]
    | succ n =>
      have hne : linesUpTo l.entry (n+1) ≠ some [] := by simp [linesUpTo,bind_eq_some_iff]
      simp [ArrayList.lines,hlen,hn,linesUpTo_succ_eq_none hentry,hne]

end

section
-- the array that the configuration has at `keypath/stdin`, and whether `keypath/fstdin` is a string
variable {Path : Type*} (stdin : Path → Option Elems) (fstdin : Path → Bool)

def inputOf (keypath : Path) (ok : Bool) : InputType :=
  if ok then .taskStdin else if fstdin keypath then .taskFstdin else .taskNoInput

def taskAddDo (w : Runner Path) (keypath : Path) : Option (Runner Path) :=
  match stdin keypath with
  | none => some { w with tasks := w.tasks ++ [⟨keypath,inputOf fstdin keypath false⟩] }
  | some obj => (mjsonGetArrayFromObj w.list obj).map fun (ok,l) =>
    ⟨l,w.tasks ++ [⟨keypath,inputOf fstdin keypath ok⟩]⟩

def step (w : Runner Path) : Event Path → Option (Runner Path)
  | .look obj => (mjsonGetArrayFromObj w.list obj).map fun (_,l) => { w with list := l }
  | .add keypath => taskAddDo stdin fstdin w keypath

/-- `task_init_fdin` in the new process. `strlen` of a missing entry is undefined, and the writes
return only if the pipe takes them before anyone reads. -/
def taskInitFdin (pipe : List UInt8 → Bool) (w : Runner Path) (task : Task Path) : Option Fdin :=
  match task.inputT with
  | .taskStdin => w.list.lines.bind fun ls =>
    let written := text (ls.map cString)
    if pipe written then some (.pipe written) else none
  | .taskFstdin => some .file
  | .taskNoInput => some .unset

def looked (evs : List (Event Path)) : List Elems :=
  evs.filterMap fun
    | .look obj => some obj
    | .add keypath => stdin keypath

def added (evs : List (Event Path)) : List (Task Path) :=
  evs.filterMap fun
    | .look _ => none
    | .add keypath => some ⟨keypath,inputOf fstdin keypath ((stdin keypath).any (·.all isSome))⟩

variable {w w' : Runner Path}

theorem step_isSome {ev : Event Path} :
    (step stdin fstdin w ev).isSome ↔ ∀ obj ∈ looked stdin [ev], Fits obj := by
  have hfits (obj : Elems) : (mjsonGetArrayFromObj w.list obj).isSome ↔ Fits obj := by
    rw [mjsonGetArrayFromObj,getArrayLoop_isSome (by decide),zero_add,Fits]
  cases ev with
  | look obj => simp [step,looked,hfits]
  | add keypath => cases hs : stdin keypath <;> simp [step,taskAddDo,looked,hs,hfits]

theorem step_shows {ev : Event Path} (h : step stdin fstdin w ev = some w') :
    w'.list.lines = (looked stdin [ev]).foldl shownAfter w.list.lines ∧
      w'.tasks = w.tasks ++ added stdin fstdin [ev] := by
  cases ev with
  | look obj =>
    obtain ⟨⟨ok,l⟩,hr,rfl⟩ := map_eq_some_iff.mp h
    exact ⟨(mjsonGetArrayFromObj_shows hr).2,(List.append_nil _).symm⟩
  | add keypath =>
    rw [step,taskAddDo] at h
    split at h
    case h_1 hs =>
      cases h
      simp [looked,added,hs]
    case h_2 obj hs =>
      obtain ⟨⟨ok,l⟩,hr,rfl⟩ := map_eq_some_iff.mp h
      obtain ⟨rfl,hl⟩ := mjsonGetArrayFromObj_shows hr
      simp [looked,added,hs,hl]

variable {evs : List (Event Path)}

theorem looked_cons (ev : Event Path) :
    looked stdin (ev :: evs) = looked stdin [ev] ++ looked stdin evs :=
  List.filterMap_append (l := [ev])

theorem run_isSome :
    (runSteps (step stdin fstdin) w evs).isSome ↔ ∀ obj ∈ looked stdin evs, Fits obj := by
  induction evs generalizing w with
  | nil => simp [runSteps,looked]
  | cons ev evs ih =>
    rw [looked_cons,List.forall_mem_append,← step_isSome stdin fstdin (w := w)]
    cases hv : step stdin fstdin w ev with
    | none => simp [runSteps,hv]
    | some v => simp [runSteps,hv,ih]

theorem run_shows (h : runSteps (step stdin fstdin) w evs = some w') :
    w'.list.lines = (looked stdin evs).foldl shownAfter w.list.lines ∧
      w'.tasks = w.tasks ++ added stdin fstdin evs := by
  induction evs generalizing w with
  | nil =>
    cases h
    exact ⟨rfl,(List.append_nil _).symm⟩
  | cons ev evs ih =>
    obtain ⟨v,hv,hrest⟩ := bind_eq_some_iff.mp h
    obtain ⟨hlines,htasks⟩ := step_shows stdin fstdin hv
    obtain ⟨hlines',htasks'⟩ := ih hrest
    rw [looked_cons,List.foldl_append,← hlines,htasks',htasks,List.append_assoc]
    exact ⟨hlines',congrArg _ (List.filterMap_append (l := [ev])).symm⟩

/-- A process is fed the lines of its task's own array exactly if the arrays looked at up to then,
the other tasks' ones among them, fit into the list and leave lines in it that are the same text
when each is cut at its first zero byte. -/
theorem fed_own_lines_iff (pipe : List UInt8 → Bool) (l : ArrayList) {keypath : Path}
    (hadd : .add keypath ∈ evs) (own : List Line) (hown : stdin keypath = some (own.map some)) :
    (∃ w, runSteps (step stdin fstdin) ⟨l,[]⟩ evs = some w ∧ ⟨keypath,.taskStdin⟩ ∈ w.tasks ∧
      taskInitFdin pipe w ⟨keypath,.taskStdin⟩ = some (.pipe (text own))) ↔
    (∀ obj ∈ looked stdin evs, Fits obj) ∧
      ∃ ys, (looked stdin evs).foldl shownAfter l.lines = some ys ∧ pipe (text own) ∧
        text (ys.map cString) = text own := by
  have htask : ⟨keypath,.taskStdin⟩ ∈ added stdin fstdin evs :=
    List.mem_filterMap.mpr ⟨_,hadd,by simp [hown,inputOf]⟩
  rw [← run_isSome stdin fstdin (w := ⟨l,[]⟩),isSome_iff_exists,exists_and_right.symm]
  refine exists_congr fun w => and_congr_right fun hrun => ?_
  obtain ⟨hlines,htasks⟩ := run_shows stdin fstdin hrun
  rw [htasks,List.nil_append,and_iff_right htask,← hlines]
  simp only [taskInitFdin,bind_eq_some_iff]
  refine exists_congr fun ys => and_congr_right fun _ => ?_
  constructor
  · intro h
    split_ifs at h with hpipe
    have htext : text (ys.map cString) = text own := by simpa using h
    exact ⟨htext ▸ hpipe,htext⟩
  · rintro ⟨hpipe,htext⟩
    rw [htext,if_pos hpipe]

end

def twoArrays (keypath : Bool) : Option Elems := some [some [if keypath then 98 else 97]]

theorem fed_own_lines_of_last :
    ∃ w, runSteps (step twoArrays fun _ => false) ⟨⟨0,fun _ => none⟩,[]⟩ [.add true,.add false] =
        some w ∧ ⟨false,.taskStdin⟩ ∈ w.tasks ∧
      taskInitFdin (fun _ => true) w ⟨false,.taskStdin⟩ = some (.pipe [97,10]) :=
  (fed_own_lines_iff twoArrays (fun _ => false) _ ⟨0,fun _ => none⟩ (.tail _ (.head _)) [[97]]
    rfl).mpr ⟨by unfold Fits; decide,[[97]],rfl,rfl,rfl⟩

theorem second_array_feeds_first_task :
    (runSteps (step twoArrays fun _ => false) ⟨⟨0,fun _ => none⟩,[]⟩ [.add false,.add true]).map
        (fun w => w.tasks.map fun task => (task.keypath,taskInitFdin (fun _ => true) w task)) =
      some [(false,some (.pipe [98,10])),(true,some (.pipe [98,10]))] := by
  decide

end TinaPackage.TestInputs
