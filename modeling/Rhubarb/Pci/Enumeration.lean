import Rhubarb.Foundations.Iterators
import Rhubarb.Pci.Config

/-!
The enumeration of the PCI devices (`enumerate_devices`, `DeviceIter`).

The iterator is a triple loop, over the buses, their devices and the functions of these, that can be
left at each device it finds and is resumed by three cursors.

* `DeviceIter.next`: one call of the iterator; `nestedLoop`: the loop its comment gives.
* `DeviceIter.rest`: what an iterator has still to yield, and `next_rest`: a call takes the first
  device off it.
* `enumerateDevices_perm`: the iterator yields the devices of the loop, each of them once.
-/

namespace Rhubarb.Pci

open Foundations

variable (c : ConfigSpace)

/-- The functions of a device from one on. -/
def functionsFrom (bus id function : ℕ) : List Device :=
  (List.range' function (8 - function)).filterMap fun func => Device.open_ c bus id func

/-- The loop in the comment of `DeviceIter::next`. -/
def nestedLoop : List Device :=
  (List.range 256).flatMap fun bus => (List.range 32).flatMap fun id =>
    match Device.open_ c bus id 0 with
    | none => []
    | some device =>
      (if device.headerType.multipleFunctions then functionsFrom c bus id 1 else []) ++ [device]

/-! ### The iterator -/

/-- `DeviceIter`. -/
structure DeviceIter where
  bus : ℕ
  id : ℕ
  multiFunction : Option (ℕ × ℕ × ℕ)
  deriving DecidableEq, Repr

namespace DeviceIter

/-- The functions that are left of a device with multiple ones. -/
def nextFunction (it : DeviceIter) : Option Device × DeviceIter :=
  match it.multiFunction with
  | none => (none, it)
  | some (bus, id, function) =>
    let it := { it with multiFunction := none }
    match findFrom (Device.open_ c bus id) function (8 - function) with
    | some (func, device) =>
      (some device,
        if func < 7 then { it with multiFunction := some (bus, id, func + 1) } else it)
    | none => (none, it)

/-- The first device of a bus, from an index on. -/
def findOnBus (bus id : ℕ) : Option (ℕ × Device) :=
  findFrom (fun id => Device.open_ c bus id 0) id (32 - id)

/-- The first device from a bus on. -/
def findFromBus (bus : ℕ) : Option (ℕ × ℕ × Device) :=
  findFrom (fun bus => findOnBus c bus 0) bus (256 - bus)

/-- A device was found: the iterator goes on behind it. -/
def found (it : DeviceIter) (bus id : ℕ) (device : Device) : DeviceIter where
  bus
  id := id + 1
  multiFunction :=
    if device.headerType.multipleFunctions then some (bus, id, 1) else it.multiFunction

/-- The rest of the current bus, and the buses behind it. -/
def nextDevice (it : DeviceIter) : Option Device × DeviceIter :=
  match findOnBus c it.bus it.id with
  | some (id, device) => (some device, it.found it.bus id device)
  | none =>
    if it.bus < 255 then
      let it := { it with bus := it.bus + 1 }
      match findFromBus c it.bus with
      | some (bus, id, device) => (some device, it.found bus id device)
      | none => (none, it)
    else (none, it)

/-- `DeviceIter::next`. -/
def next (it : DeviceIter) : Option Device × DeviceIter :=
  match it.nextFunction c with
  | (some device, it) => (some device, it)
  | (none, it) => it.nextDevice c

end DeviceIter

/-- `enumerate_devices`. -/
def enumerateDevices : DeviceIter := ⟨0, 0, none⟩

/-! ### What is left -/

/-- The devices under an index, in the order they are yielded. -/
def slot (bus id : ℕ) : List Device :=
  match Device.open_ c bus id 0 with
  | none => []
  | some device =>
    device :: if device.headerType.multipleFunctions then functionsFrom c bus id 1 else []

/-- The devices of a bus from an index on. -/
def busFrom (bus id : ℕ) : List Device := (List.range' id (32 - id)).flatMap (slot c bus)

/-- The devices from a bus on. -/
def busesFrom (bus : ℕ) : List Device :=
  (List.range' bus (256 - bus)).flatMap fun bus => busFrom c bus 0

namespace DeviceIter

/-- The functions that are left of a device with multiple ones. -/
def restFunctions (it : DeviceIter) : List Device :=
  it.multiFunction.elim [] fun p => functionsFrom c p.1 p.2.1 p.2.2

/-- **What is left of an iterator.** -/
def rest (it : DeviceIter) : List Device :=
  it.restFunctions c ++ busFrom c it.bus it.id ++ busesFrom c (it.bus + 1)

/-- The cursors are in their ranges. -/
structure Valid (it : DeviceIter) : Prop where
  bus : it.bus ≤ 255
  id : it.id ≤ 32

end DeviceIter

variable {c} {it it' : DeviceIter} {bus id function : ℕ} {device : Device}

lemma functionsFrom_eq_flatMap (c : ConfigSpace) (bus id function : ℕ) :
    functionsFrom c bus id function =
      (List.range' function (8 - function)).flatMap fun func =>
        (Device.open_ c bus id func).toList :=
  List.filterMap_eq_flatMap_toList ..

lemma functionsFrom_of_found {func : ℕ}
    (h : findFrom (Device.open_ c bus id) function (8 - function) = some (func, device)) :
    functionsFrom c bus id function = device :: functionsFrom c bus id (func + 1) := by
  obtain ⟨hle, hlt, hopen⟩ := findFrom_eq_some h
  rw [functionsFrom_eq_flatMap, flatMap_of_findFrom (by simp +contextual) h, hopen,
    functionsFrom_eq_flatMap, show function + (8 - function) = 8 by omega]
  rfl

lemma functionsFrom_of_not_found
    (h : findFrom (Device.open_ c bus id) function (8 - function) = none) :
    functionsFrom c bus id function = [] := by
  rw [functionsFrom_eq_flatMap, flatMap_of_findFrom_eq_none (by simp +contextual) h]

lemma slot_of_none (h : Device.open_ c bus id 0 = none) : slot c bus id = [] := by
  rw [slot, h]

namespace DeviceIter

lemma slot_of_open (it : DeviceIter) (hmulti : it.multiFunction = none)
    (h : Device.open_ c bus id 0 = some device) :
    slot c bus id = device :: (it.found bus id device).restFunctions c := by
  simp only [slot, h, restFunctions, found, hmulti]
  cases device.headerType.multipleFunctions <;> rfl

/-- The device that is found is the first one of the bus; its functions are next. -/
lemma busFrom_of_found {i : ℕ} (it : DeviceIter) (hmulti : it.multiFunction = none)
    (h : findOnBus c bus id = some (i, device)) :
    i < 32 ∧ busFrom c bus id =
      device :: ((it.found bus i device).restFunctions c ++ busFrom c bus (i + 1)) := by
  obtain ⟨hle, hlt, hopen⟩ := findFrom_eq_some h
  refine ⟨by omega, ?_⟩
  rw [busFrom, flatMap_of_findFrom (fun j hj => slot_of_none hj) h,
    it.slot_of_open hmulti hopen, show id + (32 - id) = 32 by omega]
  rfl

lemma busFrom_of_not_found (h : findOnBus c bus id = none) : busFrom c bus id = [] :=
  flatMap_of_findFrom_eq_none (fun _ hj => slot_of_none hj) h

lemma busesFrom_of_found {b i : ℕ} (it : DeviceIter) (hmulti : it.multiFunction = none)
    (h : findFromBus c bus = some (b, i, device)) :
    b ≤ 255 ∧ i < 32 ∧ busesFrom c bus = device :: (it.found b i device).rest c := by
  obtain ⟨hle, hlt, hfound⟩ := findFrom_eq_some h
  obtain ⟨hi, hbus⟩ := it.busFrom_of_found hmulti hfound
  refine ⟨by omega, hi, ?_⟩
  rw [busesFrom, flatMap_of_findFrom (fun j hj => busFrom_of_not_found hj) h, hbus,
    show bus + (256 - bus) = 256 by omega]
  rfl

lemma busesFrom_of_not_found (h : findFromBus c bus = none) : busesFrom c bus = [] :=
  flatMap_of_findFrom_eq_none (fun _ hj => busFrom_of_not_found hj) h

/-- Without a device from a bus on there is none on this bus, and none behind it. -/
lemma busFrom_eq_nil (hbus : bus < 256) (hid : id ≤ 32) (h : busesFrom c bus = []) :
    busFrom c bus id = [] ∧ busesFrom c (bus + 1) = [] := by
  rw [busesFrom, show 256 - bus = 256 - (bus + 1) + 1 by omega, List.range'_succ,
    List.flatMap_cons, List.append_eq_nil_iff] at h
  obtain ⟨hthis, hrest⟩ := h
  refine ⟨?_, hrest⟩
  rw [busFrom, List.flatMap_eq_nil_iff] at hthis ⊢
  intro j hj
  refine hthis j ?_
  rw [List.mem_range'_1] at hj ⊢
  omega

/-! ### A call takes the first device off what is left -/

lemma nextFunction_some (hv : it.Valid) (h : it.nextFunction c = (some device, it')) :
    it'.Valid ∧ it.rest c = device :: it'.rest c := by
  rw [nextFunction] at h
  split at h
  · cases h
  · rename_i bus id function hmulti
    split at h
    · rename_i func d hfound
      obtain ⟨hd, rfl⟩ := Prod.mk.inj h
      obtain rfl := Option.some.inj hd
      have hfunc : func < 8 := by
        obtain ⟨hle, hlt, -⟩ := findFrom_eq_some hfound
        omega
      have hrest : it.rest c = d :: (functionsFrom c bus id (func + 1) ++
          busFrom c it.bus it.id ++ busesFrom c (it.bus + 1)) := by
        rw [rest, restFunctions, hmulti, Option.elim, functionsFrom_of_found hfound]
        rfl
      by_cases hlast : func < 7
      · rw [if_pos hlast, hrest]
        exact ⟨⟨hv.bus, hv.id⟩, rfl⟩
      · obtain rfl : func = 7 := by omega
        rw [if_neg hlast, hrest]
        exact ⟨⟨hv.bus, hv.id⟩, rfl⟩
    · cases h

lemma nextFunction_none (h : it.nextFunction c = (none, it')) :
    it' = { it with multiFunction := none } ∧ it.restFunctions c = [] := by
  rw [nextFunction] at h
  split at h
  · rename_i hmulti
    obtain ⟨-, rfl⟩ := Prod.mk.inj h
    refine ⟨by rw [← hmulti], ?_⟩
    rw [restFunctions, hmulti]
    rfl
  · rename_i bus id function hmulti
    split at h
    · cases h
    · rename_i hnone
      obtain ⟨-, rfl⟩ := Prod.mk.inj h
      refine ⟨rfl, ?_⟩
      rw [restFunctions, hmulti]
      exact functionsFrom_of_not_found hnone

lemma rest_of_multiFunction_eq_none (hmulti : it.multiFunction = none) :
    it.rest c = busFrom c it.bus it.id ++ busesFrom c (it.bus + 1) := by
  rw [rest, restFunctions, hmulti]
  rfl

lemma nextDevice_some (hv : it.Valid) (hmulti : it.multiFunction = none)
    (h : it.nextDevice c = (some device, it')) : it'.Valid ∧ it.rest c = device :: it'.rest c := by
  rw [nextDevice] at h
  rw [rest_of_multiFunction_eq_none hmulti]
  split at h
  · rename_i id d hfound
    obtain ⟨hd, rfl⟩ := Prod.mk.inj h
    obtain rfl := Option.some.inj hd
    obtain ⟨hid, hbus⟩ := it.busFrom_of_found hmulti hfound
    rw [hbus]
    exact ⟨⟨hv.bus, hid⟩, rfl⟩
  · rename_i hnone
    split_ifs at h with hlast
    · dsimp only at h
      split at h
      · rename_i bus id d hfound
        obtain ⟨hd, rfl⟩ := Prod.mk.inj h
        obtain rfl := Option.some.inj hd
        obtain ⟨hbus, hid, hbuses⟩ := busesFrom_of_found { it with bus := it.bus + 1 } hmulti hfound
        rw [busFrom_of_not_found hnone, hbuses]
        exact ⟨⟨hbus, hid⟩, rfl⟩
      · cases h
    · cases h

/-- Nothing is found any more: not on the next bus either, at which the iterator is left with the
index of the last one. -/
lemma nextDevice_none (hv : it.Valid) (hmulti : it.multiFunction = none)
    (h : it.nextDevice c = (none, it')) : it'.Valid ∧ it.rest c = [] ∧ it'.rest c = [] := by
  rw [nextDevice] at h
  rw [rest_of_multiFunction_eq_none hmulti]
  split at h
  · cases h
  · rename_i hnone
    rw [busFrom_of_not_found hnone]
    split_ifs at h with hlast
    · dsimp only at h
      split at h
      · cases h
      · rename_i hfound
        obtain ⟨-, rfl⟩ := Prod.mk.inj h
        have hbuses := busesFrom_of_not_found hfound
        refine ⟨⟨by simp only; omega, hv.id⟩, hbuses, ?_⟩
        obtain ⟨hthis, hbehind⟩ := busFrom_eq_nil (by omega) hv.id hbuses
        rw [rest_of_multiFunction_eq_none (by exact hmulti), hthis, hbehind, List.nil_append]
    · obtain ⟨-, rfl⟩ := Prod.mk.inj h
      have hbuses : busesFrom c (it.bus + 1) = [] := by
        rw [busesFrom, show 256 - (it.bus + 1) = 0 by omega]
        rfl
      refine ⟨hv, hbuses, ?_⟩
      rw [rest_of_multiFunction_eq_none hmulti, busFrom_of_not_found hnone, hbuses]
      rfl

/-- **A call takes the first device off what is left.** -/
theorem next_rest (c : ConfigSpace) : Rest (next c) (rest c) Valid where
  item it device it' hv h := by
    rw [next] at h
    split at h
    · rename_i d it₁ hfunction
      cases h
      exact nextFunction_some hv hfunction
    · rename_i it₁ hfunction
      obtain ⟨rfl, hnil⟩ := nextFunction_none hfunction
      have hv₁ : Valid { it with multiFunction := none } := ⟨hv.bus, hv.id⟩
      obtain ⟨hv', hrest⟩ := nextDevice_some hv₁ rfl h
      refine ⟨hv', ?_⟩
      rw [← hrest, rest, hnil]
      rfl
  stop it it' hv h := by
    rw [next] at h
    split at h
    · cases h
    · rename_i it₁ hfunction
      obtain ⟨rfl, hnil⟩ := nextFunction_none hfunction
      have hv₁ : Valid { it with multiFunction := none } := ⟨hv.bus, hv.id⟩
      obtain ⟨hv', hrest, hrest'⟩ := nextDevice_none hv₁ rfl h
      refine ⟨hv', ?_, hrest'⟩
      rw [← hrest, rest, hnil]
      rfl

end DeviceIter

/-! ### The devices of the loop -/

/-- All that is left at the start: every device of every bus. -/
lemma rest_enumerateDevices (c : ConfigSpace) :
    enumerateDevices.rest c = (List.range 256).flatMap fun bus =>
      (List.range 32).flatMap fun id => slot c bus id := by
  rw [DeviceIter.rest_of_multiFunction_eq_none rfl]
  change busFrom c 0 0 ++ busesFrom c 1 = _
  rw [show List.range 256 = 0 :: List.range' 1 255 from List.range_eq_range', List.flatMap_cons,
    List.range_eq_range']
  rfl

lemma rest_perm_nestedLoop (c : ConfigSpace) : (enumerateDevices.rest c).Perm (nestedLoop c) := by
  rw [rest_enumerateDevices, nestedLoop]
  refine List.Perm.flatMap_left _ fun bus _ => List.Perm.flatMap_left _ fun id _ => ?_
  rw [slot]
  split
  · exact .refl _
  · exact (List.perm_append_singleton _ _).symm

/-- The functions that are found are among those that were looked for, in this order. -/
lemma filterMap_open_locations (c : ConfigSpace) (bus id : ℕ) (l : List ℕ) :
    ((l.filterMap (Device.open_ c bus id)).map Device.location).Sublist
      (l.map fun func => (bus, id, func)) := by
  induction l with
  | nil => exact .slnil
  | cons func l ih =>
    cases hopen : Device.open_ c bus id func with
    | none =>
      rw [List.filterMap_cons_none hopen]
      exact ih.cons _
    | some device =>
      rw [List.filterMap_cons_some hopen, List.map_cons, Device.location_of_open hopen]
      exact ih.cons_cons _

lemma slot_locations (c : ConfigSpace) (bus id : ℕ) :
    ((slot c bus id).map Device.location).Sublist
      ((List.range 8).map fun func => (bus, id, func)) := by
  rw [slot]
  split
  · exact List.nil_sublist _
  · rename_i device hopen
    rw [List.range_eq_range', List.range'_succ, List.map_cons, List.map_cons,
      Device.location_of_open hopen]
    refine List.Sublist.cons_cons _ ?_
    split_ifs
    · exact filterMap_open_locations c bus id _
    · exact List.nil_sublist _

/-- No function of a device is left twice. -/
lemma rest_nodup (c : ConfigSpace) : ((enumerateDevices.rest c).map Device.location).Nodup := by
  have hall : (List.range 256 ×ˢ (List.range 32 ×ˢ List.range 8)).Nodup :=
    List.nodup_range.product (List.nodup_range.product List.nodup_range)
  refine List.Sublist.nodup ?_ hall
  rw [rest_enumerateDevices, List.map_flatMap]
  change List.Sublist _ ((List.range 256).flatMap fun bus =>
    ((List.range 32).flatMap fun id => (List.range 8).map (Prod.mk id)).map (Prod.mk bus))
  refine List.Sublist.flatMap_right _ fun bus _ => ?_
  rw [List.map_flatMap, List.map_flatMap]
  refine List.Sublist.flatMap_right _ fun id _ => ?_
  rw [List.map_map]
  exact slot_locations c bus id

/-- **The iterator is the loop of its comment**: it yields the devices the loop collects, no
function of a device twice, and there is no device any more when it has said so. -/
theorem enumerateDevices_perm (c : ConfigSpace) :
    ∃ l it, Yields (DeviceIter.next c) enumerateDevices l it ∧ l.Perm (nestedLoop c) ∧
      (l.map Device.location).Nodup ∧ Fused (DeviceIter.next c) it := by
  obtain ⟨it, hyields, hfused⟩ :=
    (DeviceIter.next_rest c).yields (s := enumerateDevices) ⟨by decide, by decide⟩
  exact ⟨_, it, hyields, rest_perm_nestedLoop c, rest_nodup c, hfused⟩

end Rhubarb.Pci
