import ProcProfile.Region.Image

/-!
# Contents of files

A file holds a number of bytes.  The bytes at its end that were never written are zero and are not
kept, so a file may be as large as it likes.  A file that was last used as a region is kept as that
region instead of its bytes, also after its length was set.

A process that maps a file keeps the length that the file had then.  If the file is cut short later,
what the process writes past the end of the file is seen through every mapping, but is no part of the
file, and is gone when the length of the file is set.

Main definitions: `Contents`, `Contents.size`, `Contents.toBytes`, `Contents.overwrite`,
`Contents.resize`, `Contents.mapped`, `Contents.writeMapped`.
-/

namespace ProcProfile

/-- The contents of a file of `size` bytes.  What is kept past that size is seen through mappings only, and
what is not kept is zero. -/
inductive Contents where
  | bytes (data : ByteArray) (size : Nat)
  /-- The image of a region. -/
  | region (r : Region) (size : Nat)

namespace Contents

/-- A file without contents. -/
def empty : Contents := .bytes ByteArray.empty 0

/-- A file of these bytes. -/
def ofBytes (b : ByteArray) : Contents := .bytes b b.size

/-- A file that holds a region and nothing else. -/
def ofRegion (r : Region) : Contents := .region r r.layout.length

/-- How many bytes a file has. -/
def size : Contents → Nat
  | .bytes _ size => size
  | .region _ size => size

/-- How many bytes are kept. -/
def extent : Contents → Nat
  | .bytes data _ => data.size
  | .region r _ => r.layout.length

/-- The bytes that a mapping sees, without zeros at their end that were never written. -/
def data : Contents → ByteArray
  | .bytes data _ => data
  | .region r _ => r.toBytes r.layout.length

/-- The bytes of a file; of those at its end that were never written only the first. -/
def written (c : Contents) : ByteArray :=
  let b := c.data.extract 0 c.size
  if b.size < c.size then b.push 0 else b

/-- All bytes of a file. -/
def toBytes (c : Contents) : ByteArray := Bytes.fill (c.data.extract 0 c.size) c.size

/-! ### Files -/

/-- Cuts a file, or lengthens it by zeros. -/
def resize (c : Contents) (size : Nat) : Contents :=
  match c with
  | .bytes data old => .bytes (data.extract 0 (min size old)) size
  | .region r old => .region (r.wipe (min size old) r.layout.length) size

/-- Writes bytes over a file from an offset on; the file becomes longer if need be, and what lies between
its end and the offset becomes zero. -/
def overwrite (c : Contents) (offset : Nat) (patch : ByteArray) : Contents :=
  if patch.isEmpty then c
  else
    let size := max c.size (offset + patch.size)
    match c with
    | .region r old =>
      if offset + patch.size ≤ r.layout.length then
        .region ((r.wipe old offset).overwrite offset patch) size
      else .bytes (write (r.toBytes r.layout.length) old) size
    | .bytes data old => .bytes (write data old) size
where
  /-- Writes the bytes over those of `data`, which stand for a file of `old` bytes. -/
  write (data : ByteArray) (old : Nat) : ByteArray :=
    let first := min old offset
    let new := Bytes.pushZeros ByteArray.empty (offset - old) ++ patch
    new.copySlice 0 (Bytes.fill data first) first new.size

/-! ### Mappings -/

/-- The header of a region in a file. -/
def header : Contents → Header
  | .bytes data _ => Header.ofBytes data
  | .region r _ => r.header

/-- Replaces the header of a region in a file. -/
def setHeader (c : Contents) (h : Header) : Contents :=
  match c with
  | .bytes data size => .bytes (h.overwrite data) size
  | .region r size => .region { r with header := h } size

/-- The region that a mapping with a given layout sees. -/
def mapped (c : Contents) (l : Layout) : Region :=
  match c with
  | .bytes data _ => Region.ofBytes l data
  | .region r _ => if r.layout = l then r else Region.ofBytes l (r.toBytes l.length)

/-- The file after a region was written through a mapping of its layout. -/
def writeMapped (c : Contents) (r : Region) : Contents :=
  let length := r.layout.length
  if c.extent ≤ length then .region r c.size
  else .bytes (Bytes.fill (r.toBytes length) length ++ c.data.extract length c.extent) c.size

end Contents

end ProcProfile
