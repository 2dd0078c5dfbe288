import Rhubarb.Elf.Pod

/-!
The names the loader works with (`kernel/src/loader.rs`).

A string is the list of its bytes, so that an index into it is a byte index as in the source;
which characters are alphanumeric is a parameter, asked about the bytes of one character.

* `isCharBoundary`, `getFrom`, `getRange`, `findStr`, `rfindChar`: the methods of `str` in use.
* `crateNameRangesInSymbol`, `crateNamesInSymbol`: the crates a demangled symbol may come from.
* `symbolNameAfterPrefix`: the symbol a section is named after, or that it is a placeholder.
-/

namespace Rhubarb.Loader

open Foundations

/-! ### Methods of `str` -/

/-- A byte inside a character. -/
def isContinuation (b : UInt8) : Bool := 0x80 ≤ b.toNat ∧ b.toNat < 0xc0

/-- `str::is_char_boundary`. -/
def isCharBoundary (s : Str) (i : ℕ) : Bool :=
  i = 0 ∨ i = s.length ∨ (s[i]?.any fun b => !isContinuation b)

/-- `s.get(start..stop)`. -/
def getRange (s : Str) (start stop : ℕ) : Option Str :=
  if start ≤ stop ∧ isCharBoundary s start ∧ isCharBoundary s stop then
    some (window s start (stop - start))
  else none

/-- `s.get(start..)`. -/
def getFrom (s : Str) (start : ℕ) : Option Str :=
  if isCharBoundary s start then some (s.drop start) else none

/-- `s.starts_with(start)`. -/
def startsWith (s start : Str) : Bool := start.isPrefixOf s

/-- `s.ends_with(stop)`. -/
def endsWith (s stop : Str) : Bool := stop.isSuffixOf s

/-- `s.find(pattern)`. -/
def findStr (pattern s : Str) : Option ℕ :=
  (List.range (s.length + 1)).find? fun i => startsWith (s.drop i) pattern

/-- `s.contains(pattern)`. -/
def contains (s pattern : Str) : Bool := (findStr pattern s).isSome

/-- The character that starts at an index. -/
def charAt (s : Str) (i : ℕ) : Str :=
  s[i]?.toList ++ (s.drop (i + 1)).takeWhile isContinuation

/-- `s.rfind(p)`: where the last character that `p` holds of starts. -/
def rfindChar (p : Str → Bool) (s : Str) : Option ℕ :=
  (List.range s.length).reverse.find? fun i => isCharBoundary s i && p (charAt s i)

lemma findStr_le {pattern s : Str} {i : ℕ} (h : findStr pattern s = some i) :
    i + pattern.length ≤ s.length := by
  have hi : startsWith (s.drop i) pattern = true := by simpa using List.find?_some h
  have hmem := List.mem_of_find?_eq_some h
  have hpre := (List.isPrefixOf_iff_prefix.mp hi).length_le
  rw [List.mem_range] at hmem
  rw [List.length_drop] at hpre
  omega

/-! ### The crates of a symbol -/

section CrateNames

variable (alphanumeric : Str → Bool)

/-- `!(ch.is_alphanumeric() || ch == '_')`. -/
def notInName (ch : Str) : Bool := !(alphanumeric ch || ch = str "_")

/-- The crate name that ends at an index, within the symbol from `start` on; there is none if it
is empty. -/
def nameRange (s : Str) (start stop : ℕ) : List (ℕ × ℕ) :=
  match getRange s start stop with
  | none => []
  | some substring =>
    let nameStart :=
      match rfindChar (notInName alphanumeric) substring with
      | some i => start + i + 1
      | none => start
    if nameStart ≠ stop then [(nameStart, stop)] else []

/-- Where a pattern occurs first, from an index on. -/
def findFrom (pattern s : Str) (start : ℕ) : Option ℕ :=
  (getFrom s start).bind fun rest => (findStr pattern rest).map (start + ·)

/-- The ranges of one turn of the loop: before the first `::`, unless ` as ` stands before it, and
before the first `[`. -/
def rangesFrom (s : Str) (start : ℕ) : List (ℕ × ℕ) :=
  (match findFrom (str "::") s start with
    | none => []
    | some stop =>
      if (getRange s start stop).any fun substring => !contains substring (str " as ") then
        nameRange alphanumeric s start stop
      else []) ++
  match findFrom (str "[") s start with
  | none => []
  | some stop => nameRange alphanumeric s start stop

lemma findFrom_le {pattern s : Str} {start i : ℕ} (h : findFrom pattern s start = some i) :
    start ≤ i ∧ i + pattern.length ≤ s.length := by
  rw [findFrom, Option.bind_eq_some_iff] at h
  obtain ⟨rest, hrest, h⟩ := h
  obtain ⟨j, hj, rfl⟩ := Option.map_eq_some_iff.mp h
  rw [getFrom] at hrest
  split_ifs at hrest with hb
  obtain rfl := Option.some.inj hrest
  have hle := findStr_le hj
  rw [List.length_drop] at hle
  have hstart : start ≤ s.length := by
    rw [isCharBoundary, decide_eq_true_eq] at hb
    rcases hb with rfl | rfl | hb
    · exact Nat.zero_le _
    · exact le_rfl
    · by_contra hlt
      rw [List.getElem?_eq_none (by omega)] at hb
      cases hb
  omega

/-- `crate_name_ranges_in_symbol`, from an index on; a turn starts behind the ` as ` the last one
found. -/
def crateNameRangesInSymbol (s : Str) (start : ℕ) : List (ℕ × ℕ) :=
  rangesFrom alphanumeric s start ++
    match h : findFrom (str " as ") s start with
    | some i => crateNameRangesInSymbol s (i + 4)
    | none => []
termination_by s.length - start
decreasing_by
  have hle := findFrom_le h
  have hlen : (str " as ").length = 4 := by decide
  omega

/-- `crate_names_in_symbol`. -/
def crateNamesInSymbol (s : Str) : List Str :=
  ((crateNameRangesInSymbol alphanumeric s 0).destutter (· ≠ ·)).filterMap fun (start, stop) =>
    getRange s start stop

end CrateNames

example : crateNamesInSymbol (fun ch => ch.all fun b => 97 ≤ b.toNat ∧ b.toNat ≤ 122)
    (str "<heap::Alloc as core::fmt::Display>::fmt") = [str "heap", str "core"] := by
  decide +kernel

/-! ### The symbol of a section -/

/-- What `symbol_name_after_prefix!` comes to: a name, `continue`, or an error. -/
inductive NameAfter where
  | name (n : Str)
  | skip
  | fail (e : String)
  deriving DecidableEq, Repr

/-- `symbol_name_after_prefix!`; the error names the start it was given. -/
def symbolNameAfterPrefix (sectionName : Str) (start : String) : NameAfter :=
  match getFrom sectionName (str start).length with
  | some n => .name n
  | none =>
    if sectionName ∈ [str ".text", str ".rodata", str ".data", str ".bss"] then .skip
    else .fail ("failed to get the " ++ start ++ " section's name after '" ++ start ++ "'")

/-- `if name.starts_with(".") { name.strip_prefix(".") }`. -/
def stripDot : Str → Str
  | [] => []
  | b :: bs => if b = 0x2e then bs else b :: bs

end Rhubarb.Loader
