import Mathlib.Data.List.Destutter
import Rhubarb.Loader.Names

/-!
The crate names of a symbol (`crate_names_in_symbol` in `kernel/src/loader.rs`).

The ranges of the names are found by byte indices, and a name starts one byte behind the last
character before it that is not in a name.  If that character has more bytes than one, the range
starts inside it and is dropped.

* `IsChar`, `start_split`: characters by their bytes, and where they start.
* `rfindChar_eq_some`, `rfindChar_eq_none`: the last character with a property.
* `crateNamesInSymbol_spec`: what the names are and where they stand.
-/

namespace Rhubarb.Loader

open Foundations

/-! ### Characters -/

/-- The bytes of a character: the first starts it and the others are inside it, and a byte of ASCII
has no others. -/
def IsChar : Str → Prop
  | [] => False
  | b :: bs => isContinuation b = false ∧ (∀ x ∈ bs, isContinuation x = true) ∧ (b < 0x80 → bs = [])

lemma isChar_utf8EncodeChar (c : Char) : IsChar (String.utf8EncodeChar c) := by
  rw [String.utf8EncodeChar.eq_1]
  generalize c.val.toNat = v
  split_ifs <;> simp [IsChar, isContinuation, UInt8.lt_iff_toNat_lt] <;> omega

section Characters

variable {cs pre post : List Str} {p : Str → Bool} {i : ℕ}

/-- A byte that is not inside a character starts one. -/
lemma start_split {b : UInt8} {x y : Str} (h : ∀ c ∈ cs, IsChar c)
    (hb : isContinuation b = false) (heq : cs.flatten = x ++ b :: y) :
    ∃ pre tl post, cs = pre ++ (b :: tl) :: post ∧ pre.flatten = x ∧ tl ++ post.flatten = y := by
  rcases List.flatten_eq_append_iff.mp heq with ⟨pre, post, rfl, rfl, hy⟩
    | ⟨pre, tl, c, tl', post, rfl, rfl, hy⟩
  · cases post with
    | nil => cases hy
    | cons c post =>
      cases c with
      | nil => exact absurd (h [] (by simp)) id
      | cons b' tl =>
        rw [List.flatten_cons, List.cons_append, List.cons.injEq] at hy
        obtain ⟨rfl, rfl⟩ := hy
        exact ⟨pre, tl, post, rfl, rfl, rfl⟩
  · rw [List.cons_append, List.cons.injEq] at hy
    obtain ⟨rfl, rfl⟩ := hy
    cases tl with
    | nil => exact ⟨pre, tl', post, rfl, (List.append_nil _).symm, rfl⟩
    | cons b' tl =>
      have hcont := (h (b' :: tl ++ b :: tl') (by simp)).2.1 b (by simp)
      rw [hb] at hcont
      cases hcont

/-- A byte of ASCII is a character. -/
lemma ascii_split {b : UInt8} {x y : Str} (h : ∀ c ∈ cs, IsChar c) (hb : b < 0x80)
    (heq : cs.flatten = x ++ b :: y) :
    ∃ pre post, cs = pre ++ [b] :: post ∧ pre.flatten = x ∧ post.flatten = y := by
  have hstart : isContinuation b = false := by
    have hlt : b.toNat < 0x80 := hb
    simp [isContinuation, hlt]
  obtain ⟨pre, tl, post, rfl, rfl, rfl⟩ := start_split h hstart heq
  obtain rfl := (h (b :: tl) (by simp)).2.2 hb
  exact ⟨pre, post, rfl, rfl, rfl⟩

/-- A pattern of ASCII is one of characters. -/
lemma pattern_split {b : UInt8} {bs x y : Str} (h : ∀ c ∈ cs, IsChar c)
    (hb : ∀ x ∈ b :: bs, x < 0x80) (heq : cs.flatten = x ++ (b :: bs ++ y)) :
    ∃ pre post, cs = pre ++ ((b :: bs).map ([·]) ++ post) ∧ pre.flatten = x := by
  induction bs generalizing b x cs with
  | nil =>
    obtain ⟨pre, post, rfl, rfl, rfl⟩ := ascii_split h (hb b (by simp)) heq
    exact ⟨pre, post, rfl, rfl⟩
  | cons b' bs ih =>
    obtain ⟨pre, post, rfl, rfl, hpost⟩ := ascii_split h (hb b (by simp)) heq
    obtain ⟨pre₂, post, rfl, hnil⟩ := ih (x := []) (fun c hc => h c (by simp [hc]))
      (fun x hx => hb x (by simp [hx])) hpost
    cases pre₂ with
    | nil => exact ⟨pre, post, by simp, rfl⟩
    | cons c pre₂ =>
        have hc := h c (by simp)
        rw [List.flatten_cons, List.append_eq_nil_iff] at hnil
        exact (hnil.1 ▸ hc : IsChar []).elim

/-- A boundary is between characters. -/
lemma split_of_isCharBoundary (h : ∀ c ∈ cs, IsChar c) (hb : isCharBoundary cs.flatten i = true) :
    ∃ pre post, cs = pre ++ post ∧ pre.flatten.length = i := by
  rw [isCharBoundary, decide_eq_true_eq] at hb
  rcases hb with rfl | rfl | hb
  · exact ⟨[], cs, rfl, rfl⟩
  · exact ⟨cs, [], (List.append_nil cs).symm, rfl⟩
  · cases hget : cs.flatten[i]? with
    | none => simp [hget] at hb
    | some b =>
      obtain ⟨hi, rfl⟩ := List.getElem?_eq_some_iff.mp hget
      have heq : cs.flatten = cs.flatten.take i ++ cs.flatten[i] :: cs.flatten.drop (i + 1) := by
        rw [← List.drop_eq_getElem_cons hi, List.take_append_drop]
      obtain ⟨pre, tl, post, hcs, hpre, -⟩ := start_split h (by simpa [hget] using hb) heq
      exact ⟨pre, _, hcs, by rw [hpre, List.length_take, min_eq_left hi.le]⟩

lemma IsChar.length_pos {c : Str} (h : IsChar c) : 0 < c.length := by
  cases c with
  | nil => exact h.elim
  | cons b bs => exact Nat.succ_pos _

lemma length_le_length_flatten (h : ∀ c ∈ cs, IsChar c) : cs.length ≤ cs.flatten.length := by
  induction cs with
  | nil => exact le_rfl
  | cons c cs ih =>
    have hpos := (h c (by simp)).length_pos
    have hle := ih fun x hx => h x (by simp [hx])
    rw [List.flatten_cons, List.length_append, List.length_cons]
    omega

/-- Of two places between characters, the first in bytes is the first in characters. -/
lemma split_of_length_le {pre' post' : List Str} (h : ∀ c ∈ cs, IsChar c) (h₁ : cs = pre ++ post)
    (h₂ : cs = pre' ++ post') (hle : pre.flatten.length ≤ pre'.flatten.length) :
    ∃ mid, pre' = pre ++ mid ∧ post = mid ++ post'
      ∧ pre.flatten.length + mid.length ≤ pre'.flatten.length := by
  have hlen : ∀ mid : List Str, (∀ c ∈ mid, c ∈ cs) → mid.length ≤ mid.flatten.length :=
    fun mid hmid => length_le_length_flatten fun c hc => h c (hmid c hc)
  rcases List.append_eq_append_iff.mp (h₁.symm.trans h₂) with ⟨mid, rfl, rfl⟩ | ⟨mid, rfl, rfl⟩
  · have hle := hlen mid fun c hc => by simp [h₂, hc]
    refine ⟨mid, rfl, rfl, ?_⟩
    rw [List.flatten_append, List.length_append]
    omega
  · have hle' := hlen mid fun c hc => by simp [h₂, hc]
    rw [List.flatten_append, List.length_append] at hle
    obtain rfl : mid = [] := List.eq_nil_of_length_eq_zero (by omega)
    exact ⟨[], by simp, rfl, by simp⟩

/-- The place between characters is a boundary, and the character behind it is read there. -/
lemma boundary_cons {c : Str} (h : ∀ x ∈ pre ++ c :: post, IsChar x) :
    pre.flatten.length < (pre ++ c :: post).flatten.length
      ∧ isCharBoundary (pre ++ c :: post).flatten pre.flatten.length = true
      ∧ charAt (pre ++ c :: post).flatten pre.flatten.length = c := by
  have hc := h c (by simp)
  cases c with
  | nil => exact hc.elim
  | cons b tl =>
    have hflat : (pre ++ (b :: tl) :: post).flatten = pre.flatten ++ b :: (tl ++ post.flatten) := by
      simp
    have hget : (pre ++ (b :: tl) :: post).flatten[pre.flatten.length]? = some b := by
      rw [hflat, List.getElem?_append_right le_rfl, Nat.sub_self]
      rfl
    have hrest : post.flatten.takeWhile isContinuation = [] := by
      cases post with
      | nil => rfl
      | cons x post =>
        have hx := h x (by simp)
        cases x with
        | nil => exact hx.elim
        | cons b' tl' => simp [hx.1]
    have hdrop : (pre ++ (b :: tl) :: post).flatten.drop (pre.flatten.length + 1)
        = tl ++ post.flatten := by
      rw [hflat, ← List.drop_drop, List.drop_left]
      rfl
    refine ⟨(List.getElem?_eq_some_iff.mp hget).1, ?_, ?_⟩
    · rw [isCharBoundary, hget]
      simp [hc.1]
    · rw [charAt, hget, hdrop, List.takeWhile_append_of_pos hc.2.1, hrest, List.append_nil]
      rfl

/-- The last index with a property: there is none behind it. -/
lemma find?_reverse_range {n : ℕ} {q : ℕ → Bool} (h : (List.range n).reverse.find? q = some i) :
    i < n ∧ q i = true ∧ ∀ j, i < j → j < n → q j = false := by
  have hi : i ∈ (List.range n).reverse := List.mem_of_find?_eq_some h
  have hsorted : (List.range n).reverse.Pairwise (· > ·) :=
    List.pairwise_reverse.mpr List.pairwise_lt_range
  obtain ⟨hq, before, after, heq, hbefore⟩ := List.find?_eq_some_iff_append.mp h
  refine ⟨by simpa using hi, hq, fun j hij hj => ?_⟩
  have hmem : j ∈ (List.range n).reverse := by simpa using hj
  rw [heq] at hmem hsorted
  rcases List.mem_append.mp hmem with hj | hj
  · simpa using hbefore j hj
  · have hafter := (List.pairwise_cons.mp (List.pairwise_append.mp hsorted).2.1).1 j
    rcases List.mem_cons.mp hj with rfl | hj
    · omega
    · exact absurd (hafter hj) (by omega)

lemma rfindChar_eq_none (h : ∀ c ∈ cs, IsChar c) (hr : rfindChar p cs.flatten = none) :
    ∀ c ∈ cs, p c = false := by
  intro c hc
  obtain ⟨a, b, rfl⟩ := List.append_of_mem hc
  obtain ⟨hlt, hb, hchar⟩ := boundary_cons h
  have hnone := List.find?_eq_none.mp hr _ (List.mem_reverse.mpr (List.mem_range.mpr hlt))
  rwa [hb, hchar, Bool.true_and, Bool.not_eq_true] at hnone

/-- The last character with a property: there is none behind it. -/
lemma rfindChar_eq_some (h : ∀ c ∈ cs, IsChar c) (hr : rfindChar p cs.flatten = some i) :
    ∃ a c b, cs = a ++ c :: b ∧ a.flatten.length = i ∧ p c = true ∧ ∀ x ∈ b, p x = false := by
  obtain ⟨hlt, hi, hlast⟩ := find?_reverse_range hr
  rw [Bool.and_eq_true] at hi
  obtain ⟨a, post, rfl, rfl⟩ := split_of_isCharBoundary h hi.1
  cases post with
  | nil => simp at hlt
  | cons c b =>
    refine ⟨a, c, b, rfl, rfl, (boundary_cons h).2.2 ▸ hi.2, fun x hx => ?_⟩
    obtain ⟨b₁, b₂, rfl⟩ := List.append_of_mem hx
    have hsplit : a ++ c :: (b₁ ++ x :: b₂) = (a ++ c :: b₁) ++ x :: b₂ := by simp
    have hpos := (h c (by simp)).length_pos
    rw [hsplit] at h hlast
    obtain ⟨hlt', hb, hchar⟩ := boundary_cons h
    have hx := hlast _ (by simp only [List.flatten_append, List.flatten_cons,
      List.length_append]; omega) hlt'
    rwa [hb, hchar, Bool.true_and] at hx

end Characters

/-! ### The names -/

section Names

variable {alphanumeric : Str → Bool} {cs pre post : List Str} {s pattern name : Str} {start i : ℕ}

/-- Where a pattern is found, it stands. -/
lemma findFrom_eq_some (h : findFrom pattern s start = some i) :
    start ≤ i ∧ ∃ x y, s = x ++ (pattern ++ y) ∧ x.length = i := by
  have hle := findFrom_le h
  rw [findFrom, Option.bind_eq_some_iff] at h
  obtain ⟨rest, hrest, h⟩ := h
  obtain ⟨j, hj, rfl⟩ := Option.map_eq_some_iff.mp h
  rw [getFrom] at hrest
  split_ifs at hrest
  obtain rfl := Option.some.inj hrest
  have hstart : startsWith ((s.drop start).drop j) pattern = true := by
    simpa using List.find?_some hj
  obtain ⟨y, hy⟩ := List.isPrefixOf_iff_prefix.mp hstart
  rw [List.drop_drop] at hy
  refine ⟨hle.1, s.take (start + j), y, ?_, ?_⟩
  · rw [hy, List.take_append_drop]
  · rw [List.length_take, min_eq_left (by omega)]

lemma getRange_eq_some {stop : ℕ} (h : getRange s start stop = some name) :
    start ≤ stop ∧ isCharBoundary s start = true ∧ isCharBoundary s stop = true
      ∧ name = window s start (stop - start) := by
  rw [getRange] at h
  split_ifs at h with hb
  exact ⟨hb.1, hb.2.1, hb.2.2, (Option.some.inj h).symm⟩

/-- A range between boundaries has the characters between them. -/
lemma getRange_flatten {stop : ℕ} {pre' post' : List Str} (h : ∀ c ∈ cs, IsChar c)
    (h₁ : cs = pre ++ post) (h₂ : cs = pre' ++ post') (hlen : pre'.flatten.length = stop)
    (hget : getRange cs.flatten pre.flatten.length stop = some name) :
    ∃ run, pre' = pre ++ run ∧ name = run.flatten := by
  obtain ⟨hle, -, -, rfl⟩ := getRange_eq_some hget
  obtain ⟨run, rfl, rfl, -⟩ := split_of_length_le h h₁ h₂ (hlen ▸ hle)
  refine ⟨run, rfl, ?_⟩
  simp only [← hlen, h₁, window, List.flatten_append, List.drop_left, List.length_append,
    Nat.add_sub_cancel_left, List.take_left]

/-- The range of a name, if there is one. -/
lemma mem_nameRange {stop : ℕ} {r : ℕ × ℕ} (h : r ∈ nameRange alphanumeric s start stop) :
    ∃ substring, getRange s start stop = some substring ∧ r.1 ≠ stop ∧ r.2 = stop
      ∧ r.1 = match rfindChar (notInName alphanumeric) substring with
        | some i => start + i + 1
        | none => start := by
  rw [nameRange] at h
  cases hsub : getRange s start stop with
  | none => simp [hsub] at h
  | some substring =>
    simp only [hsub, List.mem_ite_nil_right, List.mem_singleton] at h
    obtain ⟨hne, rfl⟩ := h
    exact ⟨substring, rfl, hne, rfl, rfl⟩

/-- What stands before a name is not in a name. -/
def Begins (alphanumeric : Str → Bool) (pre : List Str) : Prop :=
  ∀ c, pre.getLast? = some c → notInName alphanumeric c = true

/-- **A crate name**: characters of names in front of `::` or `[`, all that there are. -/
def IsCrateName (alphanumeric : Str → Bool) (cs : List Str) (name : Str) : Prop :=
  ∃ pre run post, cs = pre ++ run ++ post ∧ name = run.flatten ∧ run ≠ []
    ∧ (∀ c ∈ run, notInName alphanumeric c = false)
    ∧ ([str ":", str ":"] <+: post ∨ [str "["] <+: post) ∧ Begins alphanumeric pre

/-- **One range** that ends in front of `::` or `[`: if it is a range of characters, these are a
crate name. -/
lemma nameRange_spec {stop : ℕ} {r : ℕ × ℕ} {pre' post' : List Str} (h : ∀ c ∈ cs, IsChar c)
    (hstart : cs = pre ++ post) (hbegins : Begins alphanumeric pre)
    (hstop : cs = pre' ++ post') (hlen : pre'.flatten.length = stop)
    (hpost : [str ":", str ":"] <+: post' ∨ [str "["] <+: post')
    (hr : r ∈ nameRange alphanumeric cs.flatten pre.flatten.length stop)
    (hget : getRange cs.flatten r.1 r.2 = some name) : IsCrateName alphanumeric cs name := by
  obtain ⟨substring, hsub, hne, hr₂, hr₁⟩ := mem_nameRange hr
  obtain ⟨mid, rfl, rfl⟩ := getRange_flatten h hstart hstop hlen hsub
  have hmid : ∀ c ∈ mid, IsChar c := fun c hc => h c (by rw [hstop]; simp [hc])
  obtain ⟨pre₁, post₁, hcs, hpre₁⟩ := split_of_isCharBoundary h (getRange_eq_some hget).2.1
  rw [hr₂, ← hpre₁] at hget
  obtain ⟨run, hrun, rfl⟩ := getRange_flatten h hcs hstop hlen hget
  have hpos : run ≠ [] := by
    rintro rfl
    rw [List.append_nil] at hrun
    exact hne (by rw [← hpre₁, ← hrun, hlen])
  refine ⟨pre₁, run, post', hrun ▸ hstop, rfl, hpos, ?_⟩
  cases hfind : rfindChar (notInName alphanumeric) mid.flatten with
  | none =>
    simp only [hfind] at hr₁
    obtain ⟨m, rfl, rfl, hm⟩ := split_of_length_le h hstart hcs (hpre₁.trans hr₁).ge
    obtain rfl : m = [] := List.eq_nil_of_length_eq_zero (by omega)
    rw [List.append_nil] at hrun ⊢
    obtain rfl := List.append_cancel_left hrun
    exact ⟨rfindChar_eq_none hmid hfind, hpost, hbegins⟩
  | some j =>
    simp only [hfind] at hr₁
    obtain ⟨a, c, b, rfl, rfl, hc, hb⟩ := rfindChar_eq_some hmid hfind
    have hsum : (pre ++ a).flatten.length = pre.flatten.length + a.flatten.length := by
      rw [List.flatten_append, List.length_append]
    have hsplit : cs = (pre ++ a) ++ (c :: b ++ post') := by rw [hstop]; simp
    have hlt : (pre ++ a).flatten.length + 1 = pre₁.flatten.length := by rw [hpre₁, hr₁, hsum]
    obtain ⟨m, rfl, hm, hone⟩ := split_of_length_le h hsplit hcs (by omega)
    -- the range starts at a boundary, so the character before it has one byte
    match m, hone with
    | [], _ => simp at hlt
    | [x], _ =>
      obtain ⟨rfl, -⟩ := List.cons.inj hm
      have hb' : b = run := by simpa using hrun
      exact ⟨hb' ▸ hb, hpost, fun x hx => by simp at hx; rwa [← hx]⟩
    | _ :: _ :: _, hone =>
      simp only [List.length_cons] at hone
      omega

/-- A place where a pattern of ASCII is found is between characters. -/
lemma findFrom_split {b : UInt8} {bs : Str} (h : ∀ c ∈ cs, IsChar c)
    (hb : ∀ x ∈ b :: bs, x < 0x80) (hfind : findFrom (b :: bs) cs.flatten start = some i) :
    ∃ pre post, cs = pre ++ ((b :: bs).map ([·]) ++ post) ∧ pre.flatten.length = i := by
  obtain ⟨-, x, y, heq, rfl⟩ := findFrom_eq_some hfind
  obtain ⟨pre, post, hcs, rfl⟩ := pattern_split h hb heq
  exact ⟨pre, post, hcs, rfl⟩

/-- **One turn of the loop.** -/
lemma rangesFrom_spec {r : ℕ × ℕ} (h : ∀ c ∈ cs, IsChar c) (hstart : cs = pre ++ post)
    (hbegins : Begins alphanumeric pre)
    (hr : r ∈ rangesFrom alphanumeric cs.flatten pre.flatten.length)
    (hget : getRange cs.flatten r.1 r.2 = some name) : IsCrateName alphanumeric cs name := by
  rcases List.mem_append.mp hr with hr | hr
  · split at hr
    · cases hr
    · rename_i stop hfind
      obtain ⟨pre', post', hcs, hlen⟩ := findFrom_split h (by decide +kernel) hfind
      rw [List.mem_ite_nil_right] at hr
      exact nameRange_spec h hstart hbegins hcs hlen (.inl ⟨post', rfl⟩) hr.2 hget
  · split at hr
    · cases hr
    · rename_i stop hfind
      obtain ⟨pre', post', hcs, hlen⟩ := findFrom_split h (by decide +kernel) hfind
      exact nameRange_spec h hstart hbegins hcs hlen (.inr ⟨post', rfl⟩) hr hget

/-- **The turns of the loop**: each starts at the start of the symbol or behind a space. -/
lemma crateNameRangesInSymbol_spec {r : ℕ × ℕ} (hspace : alphanumeric (str " ") = false)
    (h : ∀ c ∈ cs, IsChar c) (hstart : cs = pre ++ post) (hlen : pre.flatten.length = start)
    (hbegins : Begins alphanumeric pre)
    (hr : r ∈ crateNameRangesInSymbol alphanumeric cs.flatten start)
    (hget : getRange cs.flatten r.1 r.2 = some name) : IsCrateName alphanumeric cs name := by
  induction hn : cs.flatten.length - start using Nat.strong_induction_on generalizing pre post start
    with
  | _ n ih =>
    rw [crateNameRangesInSymbol] at hr
    rcases List.mem_append.mp hr with hr | hr
    · subst hlen
      exact rangesFrom_spec h hstart hbegins hr hget
    · split at hr
      · rename_i i hfind
        obtain ⟨pre', post', hcs, hlen'⟩ := findFrom_split h (by decide +kernel) hfind
        have hle := findFrom_le hfind
        have has : (str " as ").length = 4 := by decide
        have hlast : Begins alphanumeric (pre' ++ (str " as ").map ([·])) := by
          intro c hc
          rw [List.getLast?_append] at hc
          obtain rfl : str " " = c := Option.some.inj hc
          rw [notInName, hspace]
          decide
        refine ih _ ?_ (hcs.trans (List.append_assoc _ _ _).symm) ?_ hlast hr rfl
        · omega
        · rw [List.flatten_append, List.length_append, hlen']
          rfl
      · cases hr

/-- The characters of a string. -/
def chars (s : String) : List Str := s.toList.map String.utf8EncodeChar

lemma flatten_chars (s : String) : (chars s).flatten = str s := by
  rw [str, ← String.utf8Encode_toList, List.utf8Encode]
  simp [chars, List.flatMap]

/-- **The names of a symbol**: each is a name that stands in the symbol as a crate's does. -/
theorem crateNamesInSymbol_spec (alphanumeric : Str → Bool)
    (hspace : alphanumeric (str " ") = false) (symbol : String) {name : Str}
    (h : name ∈ crateNamesInSymbol alphanumeric (str symbol)) :
    IsCrateName alphanumeric (chars symbol) name := by
  rw [crateNamesInSymbol, List.mem_filterMap, ← flatten_chars] at h
  obtain ⟨r, hr, hget⟩ := h
  refine crateNameRangesInSymbol_spec hspace (fun c hc => ?_) (List.nil_append _).symm rfl nofun
    ((List.destutter_sublist _ _).mem hr) hget
  obtain ⟨c, -, rfl⟩ := List.mem_map.mp hc
  exact isChar_utf8EncodeChar c

/-- A method of an implementation. -/
theorem crateNamesInSymbol_spec_impl :
    IsCrateName (fun ch => ch.all fun b => 97 ≤ b.toNat ∧ b.toNat ≤ 122)
      (chars "<heap::Alloc as core::fmt::Display>::fmt") (str "core") :=
  crateNamesInSymbol_spec _ (by decide) _ (by decide +kernel)

end Names

end Rhubarb.Loader
