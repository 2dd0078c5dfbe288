import Rhubarb.Foundations.Bytes
import Rhubarb.Foundations.Comp
import Rhubarb.MemoryTypes.Address

/-!
Plain old data read in place from a byte buffer (`crates/pod/src/pod.rs`).

A `Slice` is a borrowed range of bytes together with the address it starts at, since the readers
assert the alignment of what they reinterpret.  A string is the list of its bytes.

* `Slice.range`: indexing with a range, which panics outside the slice.
* `Pod.read`, `Pod.readArray`: reinterpretation, with the assertions on size and alignment.
* `Pod.readUntilNull`, `Pod.readStr`: the strings that end with a null byte.
-/

namespace Rhubarb

open Foundations

/-- A string, as its bytes. -/
abbrev Str : Type := List UInt8

instance : LawfulBEq Str := inferInstanceAs (LawfulBEq (List UInt8))

/-- The bytes of a string literal. -/
def str (s : String) : Str := s.toByteArray.data.toList

namespace Elf

/-- Where the ELF reader panics. -/
inductive Panic where
  /-- A range that is not inside the slice it is taken of. -/
  | sliceIndex
  /-- `assert!(size_of::<T>() <= bytes.len())`. -/
  | readSize
  /-- The alignment assertions of `read` and `read_array`. -/
  | readAlign
  /-- `assert!(input.len() % element_size == 0)`. -/
  | arraySize
  /-- There is no null byte in the input. -/
  | noNull
  /-- `from_utf8(..).expect("invalid UTF-8 string")`. -/
  | invalidUtf8
  /-- `assert!(index < SHN_LORESERVE)`. -/
  | reservedIndex
  /-- `assert_ne!(self.get_type().unwrap(), SectionHeaderType::Null)`. -/
  | rawData
  /-- `todo!()`. -/
  | todo
  deriving DecidableEq, Repr

/-- A borrowed range of bytes. -/
structure Slice where
  addr : ℕ
  bytes : List UInt8
  deriving DecidableEq

namespace Slice

def len (s : Slice) : ℕ := s.bytes.length

/-- `&s[start..stop]`. -/
def range (s : Slice) (start stop : ℕ) : Except Panic Slice :=
  if start ≤ stop ∧ stop ≤ s.len then .ok ⟨s.addr + start, window s.bytes start (stop - start)⟩
  else .error .sliceIndex

/-- `&s[start..]`. -/
def rangeFrom (s : Slice) (start : ℕ) : Except Panic Slice := s.range start s.len

end Slice

/-- A type whose values are read by reinterpreting bytes. -/
class Pod (α : Type) where
  /-- `size_of::<T>()`. -/
  size : ℕ
  /-- `align_of::<T>()`. -/
  align : ℕ
  /-- The value of `size` bytes. -/
  decode : List UInt8 → α

namespace Pod

/-- `pod::read`. -/
def read (α : Type) [Pod α] (s : Slice) : Except Panic α :=
  if s.len < size α then .error .readSize
  else if s.addr &&& (align α - 1) ≠ 0 then .error .readAlign
  else .ok (decode (window s.bytes 0 (size α)))

/-- `pod::read_array`. -/
def readArray (α : Type) [Pod α] (s : Slice) : Except Panic (List α) :=
  if s.len % size α ≠ 0 then .error .arraySize
  else if s.addr &&& (align α - 1) ≠ 0 then .error .readAlign
  else .ok ((List.range (s.len / size α)).map fun i => decode (window s.bytes (i * size α) (size α)))

/-- `pod::read_until_null`, and `pod::read_str_bytes`. -/
def readUntilNull (s : Slice) : Except Panic Str :=
  if 0 ∈ s.bytes then .ok (s.bytes.takeWhile (· ≠ 0)) else .error .noNull

/-- `pod::read_str`. -/
def readStr (s : Slice) : Except Panic Str := do
  let bytes ← readUntilNull s
  if ByteArray.validateUTF8 ⟨bytes.toArray⟩ then .ok bytes else .error .invalidUtf8

end Pod

instance : Pod UInt32 := ⟨4, 4, fun bs => UInt32.ofNat (leNat bs)⟩

instance : Pod UInt64 := ⟨8, 8, fun bs => UInt64.ofNat (leNat bs)⟩

end Elf

end Rhubarb
