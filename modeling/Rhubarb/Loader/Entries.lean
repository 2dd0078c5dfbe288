import Rhubarb.Loader.Relocation

/-!
What a relocation entry does (`write_relocation` of `kernel/src/loader.rs`).

* `relocationValue`: the value of an entry.
* `writeRelocation_eq_ok`: where an entry is written, if it is.
* `applyEntry_eq_ok`: the store that an entry makes.
-/

namespace Rhubarb.Loader

open Foundations Comp Elf

variable {target : LoadedSection} {entry : Rela} {base source : Address} {s s' : State}

/-- The types of entries that are applied. -/
def IsApplied (entry : Rela) : Prop := entry.getType = rX866464 ∨ entry.getType = rX8664Pc64

instance (entry : Rela) : Decidable (IsApplied entry) := inferInstanceAs (Decidable (_ ∨ _))

/-- The offset of an entry in the mapping of its target. -/
def targetOffset (target : LoadedSection) (entry : Rela) : ℕ :=
  wrappingAdd target.mappingOffset entry.offset.toNat

/-- The value of an entry: `S + A`, or `S + A - P`. -/
def relocationValue (entry : Rela) (place : ℕ) (source : Address) : ℕ :=
  let value := wrappingAdd source.toRaw entry.addend.toNat
  if entry.getType = rX866464 then value else wrappingSub value place

/-- A sum that is not below its first part has not wrapped. -/
lemma wrappingAdd_of_le {a b : ℕ} (hb : b < usizeRange) (ha : a < usizeRange)
    (h : a ≤ wrappingAdd a b) : wrappingAdd a b = a + b := by
  rcases Nat.lt_or_ge (a + b) usizeRange with hlt | hge
  · exact wrappingAdd_eq hlt
  · rw [wrappingAdd, Nat.mod_eq_sub_mod hge, Nat.mod_eq_of_lt (by omega)] at h
    omega

lemma wrappingAdd_lt (a b : ℕ) : wrappingAdd a b < usizeRange := Nat.mod_lt _ (by decide)

/-- **Where an entry is written**, if it is: eight bytes that do not go beyond the slice. -/
lemma writeRelocation_eq_ok {len offset : ℕ} {w : ℕ × List UInt8} (hlen : len < usizeRange)
    (hoffset : offset < usizeRange) :
    writeRelocation entry base.toRaw len offset source = .ok (.ok w)
      ↔ IsApplied entry ∧ offset + 8 ≤ len
        ∧ w = (offset, leBytes 8 (relocationValue entry (base.toRaw + offset) source)) := by
  have hstop : offset ≤ wrappingAdd offset 8 ∧ wrappingAdd offset 8 ≤ len ↔ offset + 8 ≤ len := by
    constructor
    · rintro ⟨hle, hfits⟩
      rwa [wrappingAdd_of_le (by decide) hoffset hle] at hfits
    · intro hfits
      rw [wrappingAdd_eq (by omega)]
      omega
  rw [writeRelocation]
  by_cases happlied : IsApplied entry
  · rw [if_pos (show entry.getType = rX866464 ∨ entry.getType = rX8664Pc64 from happlied)]
    by_cases hfits : offset + 8 ≤ len
    · simp only [if_pos (hstop.mpr hfits), Except.ok.injEq]
      exact ⟨fun h => ⟨happlied, hfits, h.symm⟩, fun h => h.2.2.symm⟩
    · simp only [if_neg (mt hstop.mp hfits)]
      exact ⟨fun h => (by cases h), fun h => absurd h.2.1 hfits⟩
  · rw [if_neg (show ¬(entry.getType = rX866464 ∨ entry.getType = rX8664Pc64) from happlied)]
    refine ⟨fun h => ?_, fun h => absurd h.1 happlied⟩
    split_ifs at h <;> cases h

/-- **What applying an entry does**, if it goes through: it stores the value at the place. -/
lemma applyEntry_eq_ok :
    applyEntry target base entry source s = .ok (.ok (), s')
      ↔ IsApplied entry
        ∧ targetOffset target entry + 8 ≤ wrappingAdd target.mappingOffset target.size
        ∧ s' = { s with
            contents := store s.contents (base.toRaw + targetOffset target entry)
              (leBytes 8
                (relocationValue entry (base.toRaw + targetOffset target entry) source)) } := by
  have hlen := wrappingAdd_lt target.mappingOffset target.size
  have hoffset : targetOffset target entry < usizeRange := wrappingAdd_lt _ _
  constructor
  · intro h
    rcases bind_eq_ok h with ⟨w, s₁, hw, hmod⟩ | ⟨e, s₁, -, heq⟩
    · obtain ⟨hwrite, rfl⟩ := ofResult_eq_ok hw
      obtain ⟨happlied, hfits, rfl⟩ := (writeRelocation_eq_ok hlen hoffset).mp hwrite
      cases hmod
      exact ⟨happlied, hfits, rfl⟩
    · cases heq
  · rintro ⟨happlied, hfits, rfl⟩
    have hwrite : writeRelocation entry base.toRaw
        (wrappingAdd target.mappingOffset target.size) (targetOffset target entry) source
          = .ok (.ok _) := (writeRelocation_eq_ok hlen hoffset).mpr ⟨happlied, hfits, rfl⟩
    exact bind_apply_ok (ofResult_of_ok hwrite s)

end Rhubarb.Loader
