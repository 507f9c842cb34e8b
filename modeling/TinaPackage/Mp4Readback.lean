import TinaPackage.Mp4Caches
import TinaPackage.Mp4Tables

/-! Reading the tables back when the moov box is written. -/
namespace TinaPackage.Mp4
open List

structure ReadFrame (t : TableKey) (mov mov' : MuxMOVContext) : Prop where
  context : SameContext mov mov'
  tables : ∀ u ≠ t, SameTable u mov mov'
  total : mov'.totalNum = mov.totalNum
  pages : mov'.tinyPages = mov.tinyPages

theorem ReadFrame.refl (t : TableKey) (mov : MuxMOVContext) : ReadFrame t mov mov :=
  ⟨SameContext.refl mov,fun u _ => SameTable.refl u mov, rfl,rfl⟩

theorem ReadFrame.trans {t : TableKey} {mov mov' mov'' : MuxMOVContext}
    (h : ReadFrame t mov mov') (h' : ReadFrame t mov' mov'') : ReadFrame t mov mov'' where
  context := h.context.trans h'.context
  tables u hu := (h.tables u hu).trans (h'.tables u hu)
  total := h'.total.trans h.total
  pages := h'.pages.trans h.pages

section Cached
variable {next : ℕ → ℕ} {t : TableKey}

section
variable (n : ℕ) (mov : MuxMOVContext)
include n mov

theorem readCached_frame : ReadFrame t mov (readCached next t n mov).2 := by
  induction n generalizing mov with
  | zero => exact ReadFrame.refl t mov
  | succ n ih =>
    let moved : MuxMOVContext :=
      { mov with cacheReadPtr := Function.update mov.cacheReadPtr t (next (mov.cacheReadPtr t)) }
    have hmoved : ReadFrame t mov moved :=
      { context := ⟨⟨⟨rfl,rfl,rfl,rfl,rfl⟩,rfl,rfl⟩,rfl,rfl⟩
        tables := fun u hu =>
          ⟨rfl,Function.update_of_ne hu _ _,rfl,rfl,rfl,fun _ _ => rfl⟩
        total := rfl
        pages := rfl }
    exact hmoved.trans (ih moved)

theorem length_readCached : (readCached next t n mov).1.length = n := by
  induction n generalizing mov with
  | zero => rfl
  | succ n ih => rw [readCached,length_cons,ih]

theorem readCached_words (ptr : ℕ → ℕ) (hstart : mov.cacheReadPtr t = ptr 0)
    (hnext : ∀ i, next (ptr i) = ptr (i+1)) :
    (readCached next t n mov).1 = (List.range n).map fun i => mov.cache (ptr i) := by
  induction n generalizing mov ptr with
  | zero => rfl
  | succ n ih =>
    let moved : MuxMOVContext :=
      { mov with cacheReadPtr := Function.update mov.cacheReadPtr t (next (mov.cacheReadPtr t)) }
    have hmoved : moved.cacheReadPtr t = ptr (0+1) := by
      rw [← hnext 0,← hstart]
      exact Function.update_self ..
    have htail := ih moved (fun i => ptr (i+1)) hmoved fun i => hnext (i+1)
    change mov.cache (mov.cacheReadPtr t) :: (readCached next t n moved).1 = _
    rw [htail,hstart,range_succ_eq_map,map_cons,map_map]
    rfl

end

end Cached

theorem tinyPage_add_ne (u : TableKey) {i j : ℕ} (hi : i < cacheCap u.1) (hj : j < tinyPageSize) :
    cacheStart u+i ≠ tinyPageStart+j := by
  obtain ⟨id,s⟩ := u
  cases id <;> cases s <;>
    simp only [cacheStart,cacheCap,tinyPageStart,tinyPageSize] at * <;> omega

theorem loadTinyPage_frame (t : TableKey) (mov : MuxMOVContext) {words : List ℕ}
    (hlen : words.length ≤ tinyPageSize) :
    ReadFrame t mov (loadTinyPage mov words) ∧ SameTable t mov (loadTinyPage mov words) := by
  have htable : ∀ u, SameTable u mov (loadTinyPage mov words) := by
    intro u
    refine ⟨rfl,rfl,rfl,rfl,rfl,?_⟩
    intro j hj
    apply if_neg
    intro hin
    exact tinyPage_add_ne u hj (j := cacheStart u+j-tinyPageStart) (by omega) (by omega)
  exact ⟨⟨⟨⟨⟨rfl,rfl,rfl,rfl,rfl⟩,rfl,rfl⟩,rfl,rfl⟩,fun u _ => htable u, rfl,rfl⟩,htable t⟩

theorem loadTinyPage_words (mov : MuxMOVContext) (words : List ℕ) :
    ((List.range words.length).map fun j => (loadTinyPage mov words).cache (tinyPageStart+j)) =
      words := by
  apply ext_getElem
  · simp
  · intro j hj hj'
    rw [getElem_map,getElem_range]
    have hin : tinyPageStart ≤ tinyPageStart+j ∧
      tinyPageStart+j < tinyPageStart+words.length := by
      omega
    rw [loadTinyPage]
    simp only [hin,and_self,if_true,Nat.add_sub_cancel_left]
    rw [getD_eq_getElem?_getD,List.getElem?_eq_getElem hj',Option.getD_some]

section Spilled
variable {t : TableKey} {unit : ℕ}

theorem readSpilled_frame (hunit : unit ≤ tinyPageSize) (i n : ℕ) (mov : MuxMOVContext) :
    ReadFrame t mov (readSpilled t unit i n mov).2 ∧
      SameTable t mov (readSpilled t unit i n mov).2 := by
  induction n generalizing i mov with
  | zero => exact ⟨ReadFrame.refl t mov,SameTable.refl t mov⟩
  | succ n ih =>
    have hlen : (((mov.tmpFile t).drop (i*unit)).take unit).length ≤ tinyPageSize :=
      (length_take_le _ _).trans hunit
    obtain ⟨hframe,htable⟩ := loadTinyPage_frame t mov hlen
    obtain ⟨hframe',htable'⟩ := ih (i+1) (loadTinyPage mov _)
    exact ⟨hframe.trans hframe',htable.trans htable'⟩

theorem length_readSpilled (i n : ℕ) (mov : MuxMOVContext) :
    (readSpilled t unit i n mov).1.length = n*unit := by
  induction n generalizing i mov with
  | zero => simp [readSpilled]
  | succ n ih =>
    rw [readSpilled,length_append,ih,length_map,length_range,Nat.succ_mul,add_comm]

theorem readSpilled_words (i n : ℕ) (mov : MuxMOVContext)
    (hfile : (i+n)*unit ≤ (mov.tmpFile t).length) :
    (readSpilled t unit i n mov).1 = ((mov.tmpFile t).drop (i*unit)).take (n*unit) := by
  induction n generalizing i mov with
  | zero => simp [readSpilled]
  | succ n ih =>
    have hle : i*unit+unit ≤ (mov.tmpFile t).length := by
      refine le_trans ?_ hfile
      rw [← Nat.succ_mul]
      exact Nat.mul_le_mul_right unit (by omega)
    have hlen : (((mov.tmpFile t).drop (i*unit)).take unit).length = unit := by
      rw [length_take,length_drop]
      omega
    have hload := loadTinyPage_words mov (((mov.tmpFile t).drop (i*unit)).take unit)
    rw [hlen] at hload
    -- the rest of the file starts behind this unit
    have hrest := ih (i+1) (loadTinyPage mov (((mov.tmpFile t).drop (i*unit)).take unit)) (by
      have hcomm : i+1+n = i+(n+1) := by omega
      rw [hcomm]
      exact hfile)
    rw [readSpilled,hrest]
    simp only [hload]
    change _ ++ ((mov.tmpFile t).drop ((i+1)*unit)).take (n*unit) = _
    rw [Nat.succ_mul i,Nat.succ_mul n,add_comm (n*unit),take_add,drop_drop]

end Spilled

section Table
variable {t : TableKey} {unit : ℕ}

theorem tableWords_frame (hunit : unit ≤ tinyPageSize) (mov : MuxMOVContext) :
    ReadFrame t mov (tableWords t unit mov).2 := by
  unfold tableWords
  split
  · exact readCached_frame _ mov
  · exact (readSpilled_frame hunit 0 _ mov).1.trans (readCached_frame _ _)

theorem length_tableWords (hunit : unit ∣ tinyPageSize) {mov : MuxMOVContext}
    (hpages : mov.tinyPages t*tinyPageSize ≤ mov.totalNum t) :
    (tableWords t unit mov).1.length = mov.totalNum t := by
  unfold tableWords
  split
  · exact length_readCached _ mov
  · have hmul : mov.tinyPages t*tinyPageSize/unit*unit = mov.tinyPages t*tinyPageSize :=
      Nat.div_mul_cancel (Dvd.dvd.mul_left hunit _)
    rw [length_append,length_readSpilled,length_readCached,hmul]
    omega

theorem tableWords_readable (hunit : unit ∣ tinyPageSize) {mov : MuxMOVContext} {vals : List ℕ}
    (h : Readable mov t vals (mov.tinyPages t)) (htotal : mov.totalNum t = vals.length) :
    (tableWords t unit mov).1 = vals := by
  have hpos := cacheCap_pos t.1
  have hle : unit ≤ tinyPageSize := Nat.le_of_dvd (by decide) hunit
  have hall := h.spilled.file_append_live
  unfold tableWords
  split
  case isTrue hzero =>
    -- nothing was spilled, so the values lie in order from the start of the cache
    have hptr : mov.cacheReadPtr t = cacheStart t := by
      rw [h.readPtr,hzero,Nat.zero_mul,Nat.zero_mod,add_zero]
    have hfits := h.spilled.fits
    have hfile := h.spilled.length_file
    rw [hzero,Nat.zero_mul,zero_add] at hfits
    rw [hzero,Nat.zero_mul] at hfile
    rw [hzero,Nat.zero_mul,Nat.sub_zero,eq_nil_of_length_eq_zero hfile,nil_append,
      ringSlice_of_le _ (by rw [Nat.zero_mod]; omega)] at hall
    rw [readCached_words _ mov (fun i => cacheStart t+i) hptr fun i => rfl, htotal]
    simpa only [Nat.zero_mod,zero_add,cells] using hall
  case isFalse hne =>
    have hmul : mov.tinyPages t*tinyPageSize/unit*unit = mov.tinyPages t*tinyPageSize :=
      Nat.div_mul_cancel (Dvd.dvd.mul_left hunit _)
    have hfile := h.spilled.length_file
    obtain ⟨-,hsame⟩ := readSpilled_frame (t := t) hle 0 (mov.tinyPages t*tinyPageSize/unit) mov
    have hread : (readSpilled t unit 0 (mov.tinyPages t*tinyPageSize/unit) mov).1 =
        mov.tmpFile t := by
      rw [readSpilled_words 0 _ mov (by rw [zero_add,hmul,hfile]),hmul,Nat.zero_mul,
        drop_zero,← hfile,take_length]
    have hcached : ∀ n, (readCached (fun p => wrapPtr t (p+1)) t n
        (readSpilled t unit 0 (mov.tinyPages t*tinyPageSize/unit) mov).2).1 =
        ringSlice (cells mov t) (cacheCap t.1) (mov.tinyPages t*tinyPageSize) n := by
      intro n
      rw [readCached_words n _
        (fun i => cacheStart t+(mov.tinyPages t*tinyPageSize+i) % cacheCap t.1)
        (by rw [hsame.readPtr,h.readPtr,add_zero])]
      · apply map_congr_left
        intro i _
        exact hsame.cells _ (Nat.mod_lt _ hpos)
      · intro i
        have hmod := Nat.mod_lt (mov.tinyPages t*tinyPageSize+i) hpos
        rw [wrapPtr_add t hmod,Nat.mod_add_mod,add_assoc]
    dsimp only
    rw [hread,hcached,htotal]
    exact hall

end Table

end TinaPackage.Mp4
