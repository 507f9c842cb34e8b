import TinaPackage.HlsModel

/-! How a reference in a playlist is resolved against the address of the playlist. -/
namespace TinaPackage.Hls
open List

/-- An address `scheme://authority/path?query`. The path is `dir`, a slash and `name`, its last
segment; the query comes with its question mark. -/
structure BaseURL where
  scheme : List Char
  authority : List Char
  dir : List Char
  name : List Char
  query : List Char
  scheme_ok : '/' ∉ scheme
  authority_ok : '/' ∉ authority ∧ '?' ∉ authority
  dir_ok : dir = [] ∨ dir.head? = some '/'
  name_ok : '/' ∉ name ∧ '?' ∉ dir ++ name
  query_ok : query = [] ∨ query.head? = some '?'

namespace BaseURL

variable (b : BaseURL)

def proto : List Char := b.scheme ++ [':'] ++ ['/','/']

def rest : List Char := b.authority ++ b.dir ++ '/' :: (b.name ++ b.query)

def text : List Char := b.proto ++ b.rest

def resolve (url : List Char) : List Char :=
  if url.head? = some '/' then b.proto ++ b.authority ++ url
  else b.proto ++ (b.authority ++ b.dir) ++ '/' :: url

def Known : Prop :=
  hasScheme httpScheme b.text ∨ hasScheme httpsScheme b.text ∨ hasScheme fileScheme b.text

/-- The search for the last slash of the path finds it: if there is a `.m3u8`, the first one
stands behind that slash without another slash in between, and if there is none, the query has
no slash. -/
def SlashFound : Prop :=
  match beforeFirst ".m3u8".toList b.rest with
  | some upToName => ∃ tail, '/' ∉ tail ∧ upToName = b.authority ++ b.dir ++ '/' :: tail
  | none => '/' ∉ b.query

end BaseURL

/-- A reference without a scheme has no colon in front of its path, query or fragment. -/
def schemeless (url : List Char) : Prop := ':' ∉ url.takeWhile fun c => c ∉ ['/','?','#']

instance (url : List Char) : Decidable (schemeless url) := inferInstanceAs (Decidable (_ ∉ _))

section Searches
variable {c : Char} {pre s : List Char}

theorem beforeFirst_append (needle rest : List Char) (h : c ∉ pre) :
    beforeFirst (c :: needle) (pre ++ (c :: needle ++ rest)) = some pre := by
  induction pre with
  | nil => simp [beforeFirst]
  | cons x pre ih =>
    obtain ⟨hx,hpre⟩ := not_or.mp (mem_cons.not.mp h)
    have hnot : (c :: needle).isPrefixOf (x :: (pre ++ (c :: needle ++ rest))) = false := by
      simp [isPrefixOf,hx]
    rw [cons_append,beforeFirst,hnot,ih hpre]
    rfl

theorem afterFirst_append (rest : List Char) (h : c ∉ pre) :
    afterFirst c (pre ++ c :: rest) = some rest := by
  induction pre with
  | nil => simp [afterFirst]
  | cons x pre ih =>
    obtain ⟨hx,hpre⟩ := not_or.mp (mem_cons.not.mp h)
    rw [cons_append,afterFirst,if_neg (Ne.symm hx),ih hpre]

theorem afterFirst_eq_none (h : c ∉ s) : afterFirst c s = none := by
  induction s with
  | nil => rfl
  | cons x s ih =>
    obtain ⟨hx,hs⟩ := not_or.mp (mem_cons.not.mp h)
    rw [afterFirst,if_neg (Ne.symm hx),ih hs]

theorem beforeLast_append (h : c ∉ s) : beforeLast c (pre ++ c :: s) = some pre := by
  rw [beforeLast,reverse_append,reverse_cons,append_assoc,singleton_append,
    afterFirst_append _ (by simpa using h)]
  simp

theorem beforeLast_eq_none (h : c ∉ s) : beforeLast c s = none := by
  rw [beforeLast,afterFirst_eq_none (by simpa using h)]
  rfl

theorem exists_last (h : c ∈ s) : ∃ d t, s = d ++ c :: t ∧ c ∉ t := by
  obtain ⟨t,d,hs,ht⟩ := eq_append_cons_of_mem (mem_reverse.mpr h)
  refine ⟨d.reverse,t.reverse,?_,by simpa using ht⟩
  rw [← reverse_reverse s,hs]
  simp

end Searches

theorem eq_colon_of_toLower {c : Char} (h : c.toLower = ':') : c = ':' := by
  rw [Char.toLower] at h
  split at h
  · rename_i hupper
    have hval := congrArg Char.val h
    have hlo : 65 ≤ c.toNat := hupper.1
    have hhi : c.toNat ≤ 90 := hupper.2
    have hnat := congrArg UInt32.toNat hval
    simp at hnat
    omega
  · exact h

theorem schemeless.not_scheme {url w behind : List Char} {n : ℕ} (h : schemeless url)
    (hword : ∀ c ∈ w, c ∉ ['/','?','#']) :
    (url.take n).map Char.toLower ≠ w ++ ':' :: behind := by
  intro heq
  obtain ⟨pre,post,htake,hpre,hpost⟩ := map_eq_append_iff.mp heq
  obtain ⟨x,post',rfl,hx,-⟩ := map_eq_cons_iff.mp hpost
  obtain rfl := eq_colon_of_toLower hx
  have hplain : ∀ c ∈ pre, decide (c ∉ ['/','?','#']) = true := by
    intro c hc
    rw [decide_eq_true_eq]
    intro hmem
    have hlow : c.toLower = c := by
      simp only [mem_cons,not_mem_nil,or_false] at hmem
      rcases hmem with rfl | rfl | rfl <;> decide
    exact hword c (by rw [← hpre,← hlow]; exact mem_map_of_mem hc) hmem
  apply h
  rw [← take_append_drop n url,htake,append_assoc,takeWhile_append_of_pos hplain]
  simp

theorem schemeless.not_http {url : List Char} (h : schemeless url) :
    (hasScheme httpScheme url || hasScheme httpsScheme url) = false := by
  have hhttp : hasScheme httpScheme url = false := by
    refine beq_false_of_ne fun heq => h.not_scheme (w := "http".toList) ?_ heq.symm
    simp
  have hhttps : hasScheme httpsScheme url = false := by
    refine beq_false_of_ne fun heq => h.not_scheme (w := "https".toList) ?_ heq.symm
    simp
  rw [hhttp,hhttps]
  rfl

namespace BaseURL
variable (b : BaseURL)

theorem splitProtocol_text : splitProtocol b.text = (b.proto, b.rest) := by
  have hcolon : '/' ∉ b.scheme ++ [':'] := by simpa using b.scheme_ok
  have hfirst : beforeFirst "//".toList b.text = some (b.scheme ++ [':']) := by
    rw [text,proto,append_assoc]
    exact beforeFirst_append ['/'] b.rest hcolon
  have hdrop : b.text.drop ((b.scheme ++ [':']).length+2) = b.rest := drop_left' (by simp [proto])
  rw [splitProtocol,hfirst,← hdrop]
  rfl

theorem beforeFirst_rest : beforeFirst ['/'] b.rest = some b.authority := by
  rcases b.dir_ok with hdir | hdir
  · rw [rest,hdir,append_nil]
    exact beforeFirst_append [] _ b.authority_ok.1
  · obtain ⟨dir,hdir⟩ := head?_eq_some_iff.mp hdir
    rw [rest,hdir,append_assoc]
    exact beforeFirst_append [] _ b.authority_ok.1

variable {b} {url s : List Char}

theorem cut_iff : (match beforeLast '/' s with
      | some dir => (.done (b.proto ++ dir ++ '/' :: url) : Outcome Status (List Char))
      | none => .done (b.text ++ '/' :: url)) =
        .done (b.proto ++ (b.authority ++ b.dir) ++ '/' :: url) ↔
      ∃ tail, '/' ∉ tail ∧ s = b.authority ++ b.dir ++ '/' :: tail := by
  by_cases hslash : '/' ∈ s
  · obtain ⟨d,t,rfl,ht⟩ := exists_last hslash
    rw [beforeLast_append ht]
    constructor
    · intro h
      simp only [Outcome.done.injEq,append_cancel_right_eq,append_cancel_left_eq] at h
      exact ⟨t,ht,by rw [h]⟩
    · rintro ⟨tail,htail,heq⟩
      have hd : beforeLast '/' (d ++ '/' :: t) = some d := beforeLast_append ht
      rw [heq,beforeLast_append htail,Option.some_inj] at hd
      rw [hd]
  · rw [beforeLast_eq_none hslash]
    constructor
    · intro h
      have hlen := congrArg length (Outcome.done.inj h)
      simp [text,rest] at hlen
      omega
    · rintro ⟨tail,-,rfl⟩
      simp at hslash

theorem slash_in_rest_iff :
    (∃ tail, '/' ∉ tail ∧ b.rest = b.authority ++ b.dir ++ '/' :: tail) ↔ '/' ∉ b.query := by
  constructor
  · rintro ⟨tail,htail,heq⟩
    obtain rfl : b.name ++ b.query = tail := by simpa [rest] using heq
    exact fun hq => htail (mem_append_right _ hq)
  · intro hq
    exact ⟨b.name ++ b.query,by simp [b.name_ok.1,hq],rfl⟩

theorem ends_with_slash_iff (h : b.text.getLast? = some '/') :
    b.name ++ b.query = [] ↔ '/' ∉ b.query := by
  constructor
  · intro hnil
    simp [append_eq_nil_iff.mp hnil]
  · intro hq
    by_contra hne
    have hlast : (b.name ++ b.query).getLast? = some '/' := by
      have hsplit : b.text = b.proto ++ (b.authority ++ b.dir ++ ['/']) ++ (b.name ++ b.query) := by
        simp [text,rest]
      rw [← h,hsplit,getLast?_append_of_ne_nil _ hne]
    have hmem := mem_of_getLast? hlast
    simp [b.name_ok.1,hq] at hmem

end BaseURL

/-- A reference without a scheme is resolved as it should be if and only if the scheme of the
base is known and, unless the reference begins with a slash, the search finds the last slash of the
path. -/
theorem makeURL_resolves_iff (b : BaseURL) {url : List Char} (hurl : schemeless url) :
    makeURL b.text url = .done (b.resolve url) ↔
      b.Known ∧ (url.head? = some '/' ∨ b.SlashFound) := by
  by_cases hknown : b.Known
  · have hbase : (!hasScheme httpScheme b.text && !hasScheme httpsScheme b.text &&
        !hasScheme fileScheme b.text) = false := by
      rcases hknown with h | h | h <;> simp [h]
    rw [makeURL,hbase,hurl.not_http,b.splitProtocol_text,BaseURL.resolve]
    simp only [Bool.false_eq_true,if_false,hknown,true_and]
    by_cases hhead : url.head? = some '/'
    · simp [hhead,b.beforeFirst_rest]
    · simp only [hhead,if_false,false_or,BaseURL.SlashFound]
      cases beforeFirst ".m3u8".toList b.rest with
      | some upToName => exact BaseURL.cut_iff
      | none =>
        by_cases hlast : b.text.getLast? = some '/'
        · rw [← BaseURL.ends_with_slash_iff hlast]
          have htext : b.text ++ url = b.proto ++ (b.authority ++ b.dir) ++
              '/' :: (b.name ++ b.query ++ url) := by simp [BaseURL.text,BaseURL.rest]
          simp only [hlast,if_true,Outcome.done.injEq,htext,append_cancel_left_eq,cons.injEq,
            true_and,append_left_eq_self]
        · simp only [hlast,if_false]
          exact BaseURL.cut_iff.trans BaseURL.slash_in_rest_iff
  · have hbase : (!hasScheme httpScheme b.text && !hasScheme httpsScheme b.text &&
        !hasScheme fileScheme b.text) = true := by
      simpa [BaseURL.Known,and_assoc] using hknown
    rw [makeURL,hbase]
    simp [hknown]

def slashInQuery : BaseURL where
  scheme := "http".toList
  authority := "h".toList
  dir := "/live".toList
  name := "x".toList
  query := "?u=/a".toList
  scheme_ok := by decide
  authority_ok := by decide
  dir_ok := by decide
  name_ok := by decide
  query_ok := by decide

/-- A reference that begins with a slash is resolved against any query. -/
theorem makeURL_resolves_iff_slash :
    makeURL slashInQuery.text "/b.ts".toList = .done "http://h/b.ts".toList :=
  (makeURL_resolves_iff slashInQuery (show schemeless "/b.ts".toList by decide)).mpr
    ⟨.inl (by decide),.inl (by decide)⟩

/-- A relative reference lands in the query. -/
theorem makeURL_cuts_query :
    schemeless "b.ts".toList ∧ slashInQuery.resolve "b.ts".toList = "http://h/live/b.ts".toList ∧
      (makeURL slashInQuery.text "b.ts".toList).toOption =
      some "http://h/live/x?u=/b.ts".toList := by
  decide +kernel

end TinaPackage.Hls
