/-
# Moving the index of a video to its start

`clients/flutter/lib/utils/mp4_faststart.dart`.  An MP4 file is a sequence of atoms, each with
its size and its type in a header of eight bytes; a size of 1 stands for a 64-bit size after
the type, and a size of 0 for "to the end".  Cameras write the index, `moov`, after the data,
`mdat`; `process` moves it to the start, after `ftyp`, and adds the distance `mdat` is moved by
to all chunk offsets in the tables `stco` and `co64` of the index.

A buffer is a list of bytes.  Everything that makes `process` return `null` is `none` here: a
`return null`, a `return false` of the walk, and a `RangeError`, which `process` catches.  Dart
reads a 64-bit number from `2 ^ 63` on as a negative one.  For a size or an entry it is here
too large for the buffer, and both are refused by the same checks; `_containsType` has no such
check.
-/

import Liza.Lib.BigEndian

set_option autoImplicit false

namespace Liza
namespace Client
namespace Faststart

open Lib

/-- A `Uint8List`. -/
abbrev Buffer := List UInt8

/-- A type of an atom, as the bytes it is written in. -/
def fourCC (s : String) : Buffer := s.toList.map fun c => UInt8.ofNat c.toNat

/-- The boxes that contain boxes. -/
def containers : List Buffer :=
  [fourCC "moov", fourCC "trak", fourCC "mdia", fourCC "minf", fourCC "stbl", fourCC "edts",
    fourCC "udta"]

/-- `_maxBytes`. -/
def maxBytes : ℕ := 1536 * 1024 * 1024

/-- `sublistView(data, start, end)`. -/
def slice (data : Buffer) (start stop : ℕ) : Buffer := (data.take stop).drop start

/-- The type of the box at `off`. -/
def typeAt (data : Buffer) (off : ℕ) : Buffer := slice data (off + 4) (off + 8)

/-! ### Boxes and atoms -/

/-- The header of a box. -/
structure Box where
  size : ℕ
  headerSize : ℕ
  type : Buffer
deriving DecidableEq

/-- The size of a box and of its header. -/
def sizeAt (data : Buffer) (off stop : ℕ) : Option (ℕ × ℕ) := do
  let size ← readBE data off 4
  if size = 1 then
    if off + 16 > stop then none else (readBE data (off + 8) 8).map fun size => (size, 16)
  else if size = 0 then some (stop - off, 8)
  else some (size, 8)

/-- The box at `off`, which has to end at `stop` or before. -/
def boxAt (data : Buffer) (off stop : ℕ) : Option Box := do
  let (size, headerSize) ← sizeAt data off stop
  if size < headerSize ∨ off + size > stop then none else some ⟨size, headerSize, typeAt data off⟩

theorem headerSize_of_sizeAt {data : Buffer} {off stop size h : ℕ}
    (hs : sizeAt data off stop = some (size, h)) : h = 8 ∨ h = 16 := by
  obtain ⟨n, -, hs⟩ := Option.bind_eq_some_iff.1 hs
  split at hs
  · split at hs
    · cases hs
    · obtain ⟨m, -, hm⟩ := Option.map_eq_some_iff.1 hs
      exact .inr (Prod.mk.inj hm).2.symm
  · split at hs
    · exact .inl (Prod.mk.inj (Option.some.inj hs)).2.symm
    · exact .inl (Prod.mk.inj (Option.some.inj hs)).2.symm

/-- What is checked of a box. -/
theorem boxAt_spec {data : Buffer} {off stop : ℕ} {b : Box} (h : boxAt data off stop = some b) :
    sizeAt data off stop = some (b.size, b.headerSize) ∧ b.type = typeAt data off ∧
      (b.headerSize = 8 ∨ b.headerSize = 16) ∧ b.headerSize ≤ b.size ∧ off + b.size ≤ stop := by
  obtain ⟨⟨size, hsize⟩, hs, h⟩ := Option.bind_eq_some_iff.1 h
  dsimp only at h
  split at h
  · cases h
  · obtain rfl := Option.some.inj h
    have hh := headerSize_of_sizeAt hs
    refine ⟨hs, rfl, hh, ?_, ?_⟩
    · show hsize ≤ size
      omega
    · show off + size ≤ stop
      omega

/-- `_Atom`. -/
structure Atom where
  type : Buffer
  start : ℕ
  stop : ℕ
  headerSize : ℕ
deriving DecidableEq

/-- `_Atom.size`. -/
def Atom.size (a : Atom) : ℕ := a.stop - a.start

/-- `_isAsciiType`. -/
def isAsciiType (type : Buffer) : Bool := type.all fun c => 0x20 ≤ c.toNat ∧ c.toNat ≤ 0x7E

/-- `_topLevelAtoms`, from an offset on. -/
def topLevelAtoms (data : Buffer) (off : ℕ) : Option (List Atom) :=
  if off + 8 ≤ data.length then
    match _hbox : boxAt data off data.length with
    | none => none
    | some b =>
        if isAsciiType b.type then
          (topLevelAtoms data (off + b.size)).map
            (⟨b.type, off, off + b.size, b.headerSize⟩ :: ·)
        else none
  else if off = data.length then some [] else none
termination_by data.length - off
decreasing_by
  have := boxAt_spec _hbox
  omega

/-- The size that `_containsType` reads: `none` for a `RangeError`, `some none` for a
`return false`, which is also what follows from a negative size. -/
def innerSize (data : Buffer) (off stop size : ℕ) : Option (Option ℕ) :=
  if size = 1 then
    if off + 16 > stop then some none
    else (readBE data (off + 8) 8).map fun size => if size < 2 ^ 63 then some size else none
  else if size = 0 then some none
  else some (some size)

/-- `_containsType`, from an offset on; a header beyond the end of the buffer raises a
`RangeError`. -/
def containsType (data type : Buffer) (off stop : ℕ) : Option Bool :=
  if off + 8 ≤ stop then
    if data.length < off + 8 then none
    else
      match readBE data off 4 with
      | none => none
      | some size32 =>
          if typeAt data off = type then some true
          else
            match innerSize data off stop size32 with
            | none => none
            | some none => some false
            | some (some size) =>
                if size < 8 then some false
                else
                  match (if typeAt data off ∈ containers then
                      containsType data type (off + 8) (off + size) else some false) with
                  | none => none
                  | some true => some true
                  | some false => containsType data type (off + size) stop
  else some false
termination_by data.length - off

/-! ### The tables of chunk offsets -/

section Patch

variable (delta : ℤ) (minValidOffset : ℕ) (fileLimit : ℤ)

/-- The loop over the entries of a table: `w` is the number of bytes of an entry, 4 in an
`stco` and 8 in a `co64`. -/
def patchTable (w : ℕ) (box : Buffer) (p stop : ℕ) : ℕ → Option Buffer
  | 0 => some box
  | count + 1 =>
      if p + w > stop then none
      else
        match readBE box p w with
        | none => none
        | some orig =>
            if orig < minValidOffset then none
            else if orig + delta < 0 ∨ (w = 4 ∧ orig + delta > 0xFFFFFFFF) ∨
                orig + delta > fileLimit then none
            else patchTable w (writeBE box p w (orig + delta).toNat) (p + w) stop count

/-- A table: its body is a version, the number of entries, and the entries. -/
def patchBody (w : ℕ) (box : Buffer) (bodyStart stop : ℕ) : Option Buffer := do
  let count ← readBE box (bodyStart + 4) 4
  patchTable delta minValidOffset fileLimit w box (bodyStart + 8) stop count

/-- `walk` of `_patchChunkOffsets`. -/
def walk (box : Buffer) (off stop : ℕ) : Option Buffer :=
  if off + 8 ≤ stop then
    match _hbox : boxAt box off stop with
    | none => none
    | some b =>
        match (if b.type = fourCC "stco" then
            patchBody delta minValidOffset fileLimit 4 box (off + b.headerSize) (off + b.size)
          else if b.type = fourCC "co64" then
            patchBody delta minValidOffset fileLimit 8 box (off + b.headerSize) (off + b.size)
          else if b.type ∈ containers then walk box (off + b.headerSize) (off + b.size)
          else some box) with
        | none => none
        | some box' => walk box' (off + b.size) stop
  else some box
termination_by stop - off
decreasing_by
  all_goals
    have := boxAt_spec _hbox
    omega

/-- `_patchChunkOffsets`. -/
def patchChunkOffsets (box : Buffer) : Option Buffer := do
  let size ← readBE box 0 4
  walk delta minValidOffset fileLimit box (if size = 1 then 16 else 8) box.length

end Patch

/-! ### The new file -/

/-- The atoms whose index is not skipped. -/
def others (skip : ℕ → Bool) : ℕ → List Atom → List Atom
  | _, [] => []
  | i, a :: l => if skip i then others skip (i + 1) l else a :: others skip (i + 1) l

/-- The loop that finds the new start of `mdat`, over the indices from `i` on. -/
def mdatStart (moovInsertAt moovLength : ℕ) : ℕ → ℕ → Option ℕ → List Atom → Option ℕ
  | _, _, found, [] => found
  | i, cursor, found, a :: l =>
      let cursor := if i = moovInsertAt then cursor + moovLength else cursor
      mdatStart moovInsertAt moovLength (i + 1) (cursor + a.size)
        (if a.type = fourCC "mdat" then some cursor else found) l

/-- The loop that puts the new file together, over the indices from `i` on. -/
def assemble (data patchedMoov : Buffer) (moovInsertAt : ℕ) : ℕ → List Atom → Buffer
  | _, [] => []
  | i, a :: l =>
      (if i = moovInsertAt then patchedMoov else []) ++ slice data a.start a.stop ++
        assemble data patchedMoov moovInsertAt (i + 1) l

/-- `Mp4Faststart.process`. -/
def process (data : Buffer) : Option Buffer := do
  guard (data.length ≤ maxBytes)
  let atoms ← topLevelAtoms data 0
  let moovIdx ← atoms.findIdx? fun a => a.type = fourCC "moov"
  let mdatIdx ← atoms.findIdx? fun a => a.type = fourCC "mdat"
  guard (mdatIdx ≤ moovIdx)
  guard ((atoms.filter fun a => a.type = fourCC "mdat").length = 1)
  guard ((atoms.any fun a => a.type = fourCC "moof") = false)
  let ftypIdx := atoms.findIdx? fun a => a.type = fourCC "ftyp"
  let moov ← atoms[moovIdx]?
  let mdat ← atoms[mdatIdx]?
  let compressed ← containsType data (fourCC "cmov") (moov.start + moov.headerSize) moov.stop
  guard (compressed = false)
  let moovBytes := slice data moov.start moov.stop
  let ftyp := (ftypIdx.bind fun i => atoms[i]?).toList
  let reordered := ftyp ++ others (fun i => ftypIdx = some i ∨ i = moovIdx) 0 atoms
  let newMdatStart ← mdatStart ftyp.length moovBytes.length 0 0 none reordered
  let delta : ℤ := newMdatStart - mdat.start
  guard (delta ≠ 0)
  let patchedMoov ← patchChunkOffsets delta mdat.start (data.length + delta) moovBytes
  let result := assemble data patchedMoov ftyp.length 0 reordered
  guard (result.length = data.length)
  some result

end Faststart
end Client
end Liza
