import Mathlib.Tactic
import Mathlib.Data.Set.Basic

/-!
Spans of addresses and lists of separated spans.

A span is a half-open interval given by its start and its size.  A list of spans is *separated*
when each ends strictly before the next begins: such a list has no two touching members, and
it lists exactly the maximal spans of the set it covers (`mem_iff_maximal`).

* `Cut s b ps`: the pieces `ps` are what is left of `s` when `b` is taken out of it, and
  `Separated.cut`, `cover_cut`, `total_cut` say what that does to a list with `s` in it.
* `Joined ss b ss'`: `ss'` is `ss` with the span `b` added, touching members merged.  There is
  one rule for each way a span can lie relative to its neighbours: `Joined.fill`,
  `Joined.grow`, `Joined.absorb`, `Joined.skip`, `Joined.place`.
-/

namespace Foundations

variable {s t : Span} {x : ℕ} {ss : List Span}

/-- The addresses from `addr` on, `size` many. -/
structure Span where
  addr : ℕ
  size : ℕ
  deriving DecidableEq, Repr

namespace Span

/-- The first address behind the span. -/
def stop (s : Span) : ℕ := s.addr + s.size

instance : Membership ℕ Span := ⟨fun s x => s.addr ≤ x ∧ x < s.stop⟩

lemma mem_iff : x ∈ s ↔ s.addr ≤ x ∧ x < s.addr + s.size := Iff.rfl

/-- One of the two spans ends before the other begins. -/
def Apart (s t : Span) : Prop := s.stop ≤ t.addr ∨ t.stop ≤ s.addr

lemma apart_iff :
    s.Apart t ↔ s.addr + s.size ≤ t.addr ∨ t.addr + t.size ≤ s.addr := Iff.rfl

lemma Apart.symm (h : s.Apart t) : t.Apart s := Or.symm h

/-- Spans without a common address, the first of them not empty, lie apart. -/
lemma apart_of_forall (hs : 0 < s.size) (ht : 0 < t.size) (h : ∀ x ∈ s, x ∉ t) : s.Apart t := by
  have h1 := h s.addr
  have h2 := h t.addr
  simp only [mem_iff] at h1 h2
  rw [apart_iff]
  omega

/-- The addresses in one of the spans. -/
def cover (ss : List Span) : Set ℕ := {x | ∃ s ∈ ss, x ∈ s}

lemma mem_cover : x ∈ cover ss ↔ ∃ s ∈ ss, x ∈ s := Iff.rfl

@[simp] lemma not_mem_cover_nil : x ∉ cover [] := by simp [mem_cover]

@[simp] lemma mem_cover_cons :
    x ∈ cover (s :: ss) ↔ x ∈ s ∨ x ∈ cover ss := by
  simp [mem_cover]

@[simp] lemma mem_cover_append {ts : List Span} :
    x ∈ cover (ss ++ ts) ↔ x ∈ cover ss ∨ x ∈ cover ts := by
  simp [mem_cover, or_and_right, exists_or]

/-- The number of addresses of the spans, each counted for itself. -/
def total (ss : List Span) : ℕ := (ss.map size).sum

@[simp] lemma total_nil : total [] = 0 := rfl

@[simp] lemma total_cons (s : Span) (ss : List Span) : total (s :: ss) = s.size + total ss := by
  simp [total]

@[simp] lemma total_append (ss ts : List Span) : total (ss ++ ts) = total ss + total ts := by
  simp [total]

/-- Sorted, and no two of the spans touch. -/
def Separated (ss : List Span) : Prop := ss.Pairwise fun s t => s.stop < t.addr

@[simp] lemma separated_nil : Separated [] := List.Pairwise.nil

lemma separated_cons :
    Separated (s :: ss) ↔ (∀ t ∈ ss, s.addr + s.size < t.addr) ∧ Separated ss :=
  List.pairwise_cons

lemma separated_append {ts : List Span} :
    Separated (ss ++ ts)
      ↔ Separated ss ∧ Separated ts ∧ ∀ s ∈ ss, ∀ t ∈ ts, s.addr + s.size < t.addr :=
  List.pairwise_append

/-- Two members of a separated list are equal or do not touch. -/
lemma Separated.trichotomy (h : Separated ss) (hs : s ∈ ss) (ht : t ∈ ss) :
    s = t ∨ s.addr + s.size < t.addr ∨ t.addr + t.size < s.addr := by
  induction ss with
  | nil => cases hs
  | cons u ss ih =>
    obtain ⟨hu, hss⟩ := separated_cons.1 h
    rcases List.mem_cons.1 hs with rfl | hs' <;> rcases List.mem_cons.1 ht with rfl | ht'
    · exact .inl rfl
    · exact .inr (.inl (hu t ht'))
    · exact .inr (.inr (hu s hs'))
    · exact ih hss hs' ht'

/-! ### Maximal spans of a set -/

/-- A span inside the set that cannot be made longer on either side. -/
structure Maximal (F : Set ℕ) (s : Span) : Prop where
  pos : 0 < s.size
  inside : ∀ x ∈ s, x ∈ F
  before : ∀ x, x + 1 = s.addr → x ∉ F
  after : s.stop ∉ F

/-- Two maximal spans of one set with a common address are the same. -/
lemma Maximal.eq {F : Set ℕ} (hs : Maximal F s) (ht : Maximal F t) (hxs : x ∈ s) (hxt : x ∈ t) :
    s = t := by
  -- Of two different starts the larger one has an address of the other span right before it.
  have start : ∀ {u v : Span}, Maximal F u → Maximal F v → x ∈ u → x ∈ v → u.addr ≤ v.addr := by
    intro u v hu hv hxu hxv
    by_contra hlt
    refine hu.before (u.addr - 1) (by omega) (hv.inside _ ?_)
    rw [mem_iff] at hxu hxv ⊢
    omega
  have stop : ∀ {u v : Span}, Maximal F u → Maximal F v → x ∈ u → x ∈ v →
      u.addr + u.size ≤ v.addr + v.size := by
    intro u v hu hv hxu hxv
    by_contra hlt
    refine hv.after (hu.inside _ ?_)
    rw [mem_iff] at hxu hxv ⊢
    rw [Span.stop]
    omega
  have h1 := le_antisymm (start hs ht hxs hxt) (start ht hs hxt hxs)
  have h2 := le_antisymm (stop hs ht hxs hxt) (stop ht hs hxt hxs)
  cases s
  cases t
  simp only [mk.injEq] at h1 h2 ⊢
  omega

lemma Separated.maximal (h : Separated ss) (hs : s ∈ ss) (hpos : 0 < s.size) :
    Maximal (cover ss) s where
  pos := hpos
  inside x hx := ⟨s, hs, hx⟩
  before x hx := by
    rintro ⟨t, ht, hxt⟩
    rw [mem_iff] at hxt
    rcases h.trichotomy hs ht with rfl | hlt | hlt <;> omega
  after := by
    rintro ⟨t, ht, hxt⟩
    rw [mem_iff, stop] at hxt
    rcases h.trichotomy hs ht with rfl | hlt | hlt <;> omega

/-- **A separated list lists the maximal spans**: its members are exactly the maximal spans of
the set it covers. -/
theorem mem_iff_maximal (h : Separated ss) (hpos : ∀ s ∈ ss, 0 < s.size) (s : Span) :
    s ∈ ss ↔ Maximal (cover ss) s := by
  refine ⟨fun hs => h.maximal hs (hpos s hs), fun hmax => ?_⟩
  have hfirst : s.addr ∈ s := ⟨le_rfl, by have := hmax.pos; rw [stop]; omega⟩
  obtain ⟨t, ht, hst⟩ := hmax.inside _ hfirst
  rwa [hmax.eq (h.maximal ht (hpos t ht)) hfirst hst]

/-! ### Taking a span out of a member -/

/-- What is left of `s` when `b` is taken out of it. -/
structure Cut (s b : Span) (ps : List Span) : Prop where
  separated : Separated ps
  within : ∀ p ∈ ps, s.addr ≤ p.addr ∧ p.addr + p.size ≤ s.addr + s.size
  inside : s.addr ≤ b.addr ∧ b.addr + b.size ≤ s.addr + s.size
  cover : ∀ x, x ∈ cover ps ↔ x ∈ s ∧ x ∉ b
  total : total ps + b.size = s.size

variable {s b : Span} {ps l r : List Span}

lemma Separated.cut (h : Separated (l ++ s :: r)) (hcut : Cut s b ps) :
    Separated (l ++ (ps ++ r)) := by
  obtain ⟨hl, hsr, hlsr⟩ := separated_append.1 h
  obtain ⟨hs, hr⟩ := separated_cons.1 hsr
  have hwithin := hcut.within
  refine separated_append.2 ⟨hl, separated_append.2 ⟨hcut.separated, hr, ?_⟩, ?_⟩
  · intro p hp t ht
    have h1 := hwithin p hp
    have h2 := hs t ht
    omega
  · intro t ht p hp
    rcases List.mem_append.1 hp with hp | hp
    · have h1 := hwithin p hp
      have h2 := hlsr t ht s (by simp)
      omega
    · exact hlsr t ht p (by simp [hp])

/-- The list covers what it did but for the addresses taken out. -/
lemma cover_cut (h : Separated (l ++ s :: r)) (hcut : Cut s b ps) :
    x ∈ cover (l ++ (ps ++ r)) ↔ x ∈ cover (l ++ s :: r) ∧ x ∉ b := by
  obtain ⟨-, hsr, hlsr⟩ := separated_append.1 h
  have hinside := hcut.inside
  -- Nothing of the other members is taken out, since they do not meet `s`.
  have hkeepL : x ∈ cover l → x ∉ b := by
    rintro ⟨t, ht, hxt⟩ hxb
    have hlt := hlsr t ht s (by simp)
    rw [mem_iff] at hxt hxb
    omega
  have hkeepR : x ∈ cover r → x ∉ b := by
    rintro ⟨t, ht, hxt⟩ hxb
    have hlt := (separated_cons.1 hsr).1 t ht
    rw [mem_iff] at hxt hxb
    omega
  simp only [mem_cover_append, mem_cover_cons, hcut.cover]
  tauto

lemma total_cut (hcut : Cut s b ps) :
    total (l ++ (ps ++ r)) + b.size = total (l ++ s :: r) := by
  have := hcut.total
  simp only [total_append, total_cons]
  omega

/-! ### Adding a span -/

/-- `ss'` is the separated list that covers what `ss` and `b` cover. -/
structure Joined (ss : List Span) (b : Span) (ss' : List Span) : Prop where
  separated : Separated ss'
  cover : ∀ x, x ∈ Span.cover ss' ↔ x ∈ Span.cover ss ∨ x ∈ b
  total : total ss' = total ss + b.size
  above : ∀ m, (∀ s ∈ ss, m < s.addr) → m < b.addr → ∀ s ∈ ss', m < s.addr

variable {n : Span} {ns ss' : List Span}

/-- The span fills the gap between two members. -/
lemma Joined.fill (h : Separated (s :: n :: ns)) (hs : s.addr + s.size = b.addr)
    (hn : b.addr + b.size = n.addr) :
    Joined (s :: n :: ns) b (⟨s.addr, s.size + (b.size + n.size)⟩ :: ns) where
  separated := by
    obtain ⟨-, hnns⟩ := separated_cons.1 h
    obtain ⟨hlt, hns⟩ := separated_cons.1 hnns
    refine separated_cons.2 ⟨fun t ht => ?_, hns⟩
    have := hlt t ht
    show s.addr + (s.size + (b.size + n.size)) < _
    omega
  cover x := by
    simp only [mem_cover_cons, mem_iff]
    by_cases hx : x ∈ Span.cover ns
    · simp [hx]
    · simp only [hx, or_false]
      omega
  total := by
    simp only [total_cons]
    omega
  above m hss hb t ht := by
    rcases List.mem_cons.1 ht with rfl | ht
    · exact hss s (by simp)
    · exact hss t (by simp [ht])

/-- The span lies right behind a member and does not reach the next one. -/
lemma Joined.grow (h : Separated (s :: ns)) (hs : s.addr + s.size = b.addr)
    (hns : ∀ t ∈ ns, b.addr + b.size < t.addr) :
    Joined (s :: ns) b (⟨s.addr, s.size + b.size⟩ :: ns) where
  separated := by
    refine separated_cons.2 ⟨fun t ht => ?_, (separated_cons.1 h).2⟩
    have := hns t ht
    show s.addr + (s.size + b.size) < _
    omega
  cover x := by
    simp only [mem_cover_cons, mem_iff]
    by_cases hx : x ∈ Span.cover ns
    · simp [hx]
    · simp only [hx, or_false]
      omega
  total := by
    simp only [total_cons]
    omega
  above m hss hb t ht := by
    rcases List.mem_cons.1 ht with rfl | ht
    · exact hss s (by simp)
    · exact hss t (by simp [ht])

/-- The span lies right before the next member: the two are added together. -/
lemma Joined.absorb (hn : b.addr + b.size = n.addr)
    (h : Joined (s :: ns) ⟨b.addr, b.size + n.size⟩ ss') : Joined (s :: n :: ns) b ss' where
  separated := h.separated
  cover x := by
    rw [h.cover]
    simp only [mem_cover_cons, mem_iff]
    by_cases hx : x ∈ Span.cover ns
    · simp [hx]
    · simp only [hx, or_false]
      omega
  total := by
    rw [h.total]
    simp only [total_cons]
    omega
  above m hss hb := h.above m (fun t ht => hss t (by aesop)) hb

/-- The span lies behind the next member, which is where it is added. -/
lemma Joined.skip (hs : ∀ t ∈ ns, s.addr + s.size < t.addr) (hb : s.addr + s.size < b.addr)
    (h : Joined ns b ss') : Joined (s :: ns) b (s :: ss') where
  separated := separated_cons.2 ⟨h.above _ hs hb, h.separated⟩
  cover x := by
    simp only [mem_cover_cons, h.cover, or_assoc]
  total := by
    simp only [total_cons, h.total]
    omega
  above m hss hmb t ht := by
    rcases List.mem_cons.1 ht with rfl | ht
    · exact hss t (by simp)
    · exact h.above m (fun u hu => hss u (by simp [hu])) hmb t ht

/-- The span touches neither the member before it nor the next one. -/
lemma Joined.place (h : Separated (s :: ns)) (hs : s.addr + s.size < b.addr)
    (hns : ∀ t ∈ ns, b.addr + b.size < t.addr) : Joined (s :: ns) b (s :: b :: ns) where
  separated := by
    obtain ⟨hlt, hsep⟩ := separated_cons.1 h
    refine separated_cons.2 ⟨fun t ht => ?_, separated_cons.2 ⟨hns, hsep⟩⟩
    rcases List.mem_cons.1 ht with rfl | ht
    · exact hs
    · exact hlt t ht
  cover x := by
    simp only [mem_cover_cons]
    tauto
  total := by
    simp only [total_cons]
    omega
  above m hss hmb t ht := by
    rcases List.mem_cons.1 ht with rfl | ht
    · exact hss t (by simp)
    · rcases List.mem_cons.1 ht with rfl | ht
      · exact hmb
      · exact hss t (by simp [ht])

end Span

end Foundations
