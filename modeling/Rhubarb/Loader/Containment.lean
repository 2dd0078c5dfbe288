import Mathlib.Data.UInt
import Rhubarb.Loader.EntryPoint
import Rhubarb.Loader.Entries

/-!
Which bytes relocation writes (`relocate_object_sections` and `write_relocation` of
`kernel/src/loader.rs`).

A relocation entry gives an offset in its target section.  The slice it is written to goes from the
start of the mapping to the end of that section, so its bounds check keeps the entry from the sections
behind, but not from those before: the offset in the mapping is a sum that wraps, and an offset near
`2^64` leads back to them.

* `Escapes`: the entries that are written outside their section.
* `applyEntry_contained_iff`: an entry is contained exactly if it does not escape.
* `relocate_neighbour`: an object that overwrites its own `main`.
-/

namespace Rhubarb.Loader

open Foundations Comp Elf

variable {target : LoadedSection} {entry : Rela} {base source : Address} {s s' : State}

/-- **The entries that escape**: the offset in the mapping wraps to what is before the section, and
the bounds check finds it to be before the end. -/
def Escapes (target : LoadedSection) (entry : Rela) : Prop :=
  IsApplied entry ∧ targetOffset target entry < target.mappingOffset
    ∧ targetOffset target entry + 8 ≤ wrappingAdd target.mappingOffset target.size

instance (target : LoadedSection) (entry : Rela) : Decidable (Escapes target entry) :=
  inferInstanceAs (Decidable (_ ∧ _))

/-- The bytes of a section, whose mapping starts at an address. -/
def InSection (target : LoadedSection) (base : Address) (x : ℕ) : Prop :=
  base.toRaw + target.mappingOffset ≤ x
    ∧ x < base.toRaw + target.mappingOffset + target.size

/-- An entry that does not escape changes bytes of its section only. -/
lemma applyEntry_inSection (hstay : ¬Escapes target entry)
    (h : applyEntry target base entry source s = .ok (.ok (), s')) {x : ℕ}
    (hx : s'.contents x ≠ s.contents x) : InSection target base x := by
  obtain ⟨happlied, hfits, rfl⟩ := applyEntry_eq_ok.mp h
  have hlow : target.mappingOffset ≤ targetOffset target entry := by
    by_contra hlt
    exact hstay ⟨happlied, not_le.mp hlt, hfits⟩
  have hlen : wrappingAdd target.mappingOffset target.size
      ≤ target.mappingOffset + target.size := Nat.mod_le _ _
  by_contra hout
  refine hx (store_of_outside ?_)
  rw [length_leBytes]
  rw [InSection] at hout
  omega

/-- **Containment**: for every target section and every entry, with any offset, type and addend,
applying the entry changes bytes of the section only, exactly if the entry does not escape. -/
theorem applyEntry_contained_iff (target : LoadedSection) (entry : Rela) (base source : Address) :
    (∀ s s', applyEntry target base entry source s = .ok (.ok (), s') →
        ∀ x, s'.contents x ≠ s.contents x → InSection target base x)
      ↔ ¬Escapes target entry := by
  refine ⟨fun hcont hesc => ?_, fun hstay s s' h x => applyEntry_inSection hstay h⟩
  obtain ⟨happlied, hlow, hfits⟩ := hesc
  -- a memory whose bytes all differ from the first one that is written
  let bytes := leBytes 8 (relocationValue entry (base.toRaw + targetOffset target entry) source)
  have hpos : 0 < bytes.length := by
    rw [length_leBytes]
    norm_num
  let s : State := { smallStart with contents := fun _ => bytes[0] + 1 }
  have happly : applyEntry target base entry source s = .ok (.ok (), _) :=
    applyEntry_eq_ok.mpr ⟨happlied, hfits, rfl⟩
  have hchanged : store s.contents (base.toRaw + targetOffset target entry) bytes
      (base.toRaw + targetOffset target entry) ≠ bytes[0] + 1 := by
    rw [show base.toRaw + targetOffset target entry
      = base.toRaw + targetOffset target entry + 0 from rfl, store_add hpos]
    exact fun heq => absurd heq (by grind)
  have hinside := hcont s _ happly _ hchanged
  rw [InSection] at hinside
  omega

/-! ### An object that overwrites its own code -/

/-- An object with an entry for its second function, eight bytes before the start of that. -/
def backwardsBytes : List UInt8 := pairBytes "app::domain" ⟨2 ^ 64 - 8, 1, 1, 5⟩

/-- That entry. -/
def backwardsEntry : Rela := ⟨2 ^ 64 - 8, 2 ^ 32 + 1, 5⟩

/-- Two functions in one mapping, of which the second follows the first: its entry escapes, and the
first is not what the file has there. -/
def Overwritten (main other : LoadedSection) (contents : ℕ → UInt8) : Prop :=
  main.mapping.addr = other.mapping.addr ∧ main.mappingOffset + main.size = other.mappingOffset
    ∧ Escapes other backwardsEntry
    ∧ fetch contents main.addr.toRaw main.size
      ≠ (backwardsBytes.drop main.mappingOffset).take main.size

instance (main other : LoadedSection) (contents : ℕ → UInt8) :
    Decidable (Overwritten main other contents) := inferInstanceAs (Decidable (_ ∧ _))

/-- **The entry of `app::domain` overwrites `app::main`**, and the process is started. -/
theorem relocate_neighbour :
    ∃ r s' object main other,
      runUserProcess (plainEnv [(str "app", backwardsBytes)]) 1 0 0 (str "app") none smallStart
        = .ok (.ok r, s')
      ∧ s'.instances[r.1]? = some object ∧ lookup object.sections 1 = some main
      ∧ lookup object.sections 2 = some other ∧ Overwritten main other s'.contents := by
  simp only [exists_and_left]
  decide +kernel

end Rhubarb.Loader
