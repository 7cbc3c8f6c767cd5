import ProcProfile.Fault

/-!
# Errors

The causes that operations report, each with the one function that words it.  Running out of room is
the only cause that a caller may ignore; every other store or walk error says that a stored profile
and a statement tree do not belong together.

Main definitions: `DiskError`, `StoreError`, `WalkError`, `ProfileError`, `OutputError` and their
`message`s.
-/

namespace ProcProfile

/-- Why a file or directory could not be used. -/
inductive DiskError where
  | notFound
  | alreadyExists
  | notADirectory
  | isADirectory
  /-- A path or a name in it has too many bytes. -/
  | nameTooLong
  /-- A path holds the character that ends texts of the system. -/
  | unexpectedNul
  /-- A file cannot have the wanted length. -/
  | fileTooLarge
  /-- The wanted length of a file is no length of files at all. -/
  | lengthTooLarge
  /-- No mapping of the wanted size can be made now. -/
  | noMemory
  /-- The wanted size of a mapping is no size of mappings at all. -/
  | mappingTooLarge
  deriving DecidableEq, Repr

/-- The system's text for a cause, with its number if the system has one. -/
def DiskError.message : DiskError → String
  | .notFound => "No such file or directory (os error 2)"
  | .alreadyExists => "File exists (os error 17)"
  | .notADirectory => "Not a directory (os error 20)"
  | .isADirectory => "Is a directory (os error 21)"
  | .nameTooLong => "File name too long (os error 36)"
  | .unexpectedNul => "file name contained an unexpected NUL byte"
  | .fileTooLarge => "File too large (os error 27)"
  | .lengthTooLarge => "number too large to fit in target type"
  | .noMemory => "Cannot allocate memory (os error 12)"
  | .mappingTooLarge => "memory map length overflows isize"

/-- Why the chunk store refused. -/
inductive StoreError where
  /-- No chunk is free. -/
  | exhausted (capacity : Nat)
  | duplicateChunk (unitId : UInt32) (chunk : ChunkNumber)
  | missingChunk (unitId : UInt32) (chunk : ChunkNumber)
  | unexpectedChunk (unitId : UInt32) (chunk : ChunkNumber)
  /-- A stored record and the record to be merged into it are of different lines. -/
  | recordMismatch (expected found : Int32)
  /-- A file is not a region of this layout. -/
  | formatMismatch (detail : String)
  /-- No slot for the call statistics of a further procedure is free. -/
  | unitTableFull (capacity : Nat)
  | regionTooSmall
  | io (cause : DiskError)
  deriving DecidableEq, Repr

/-- The wording of a store error. -/
def StoreError.message : StoreError → String
  | .exhausted capacity => "chunk region is full (" ++ toString capacity ++ " chunks)"
  | .duplicateChunk unitId chunk =>
    "broken consistency of profiler chunks: chunk " ++ toString chunk.toInt ++ " of unit " ++
      toString unitId.toNat ++ " already exists"
  | .missingChunk unitId chunk =>
    "broken consistency of profiler chunks: chunk " ++ toString chunk.toInt ++ " of unit " ++
      toString unitId.toNat ++ " is missing"
  | .unexpectedChunk unitId chunk =>
    "broken consistency of profiler chunks: chunk " ++ toString chunk.toInt ++ " of unit " ++
      toString unitId.toNat ++ " lies beyond the statement layout"
  | .recordMismatch expected found =>
    "broken consistency of profiler chunks: stored line " ++ toString found.toInt ++
      ", merged line " ++ toString expected.toInt
  | .formatMismatch detail => "incompatible chunk region: " ++ detail
  | .unitTableFull capacity =>
    "call statistics table is full (" ++ toString capacity ++ " procedures)"
  | .regionTooSmall => "chunk region must hold at least one chunk and one procedure"
  | .io cause => "IO error: " ++ cause.message

/-- Why a walk over a statement tree stopped. -/
inductive WalkError where
  /-- The tree is at another statement than the stored records. -/
  | cursorDesync (expected found : Nat)
  /-- The stored records end before this statement. -/
  | cursorExhausted (index : Nat)
  | unmappedStatement (line : Int32)
  | duplicateNativeId (id : UInt32)
  /-- The stored record of a statement is of another line. -/
  | staleRecord (index : Nat) (expected found : Int32)
  | statementCountMismatch (expected found : Nat)
  deriving DecidableEq, Repr

/-- The wording of a walk error. -/
def WalkError.message : WalkError → String
  | .cursorDesync expected found =>
    "broken statement map: visited statement " ++ toString expected ++ ", cursor at " ++
      toString found
  | .cursorExhausted index =>
    "broken statement map: profile ended before statement " ++ toString index
  | .unmappedStatement line =>
    "broken statement map: cannot find statement on line " ++ toString line.toInt
  | .duplicateNativeId id =>
    "broken statement map: native id " ++ toString id.toNat ++ " assigned twice"
  | .staleRecord index expected found =>
    "broken consistency of profile: statement " ++ toString index ++ " is on line " ++
      toString expected.toInt ++ ", stored record on line " ++ toString found.toInt
  | .statementCountMismatch expected found =>
    "broken statement map: tree has " ++ toString found ++ " statements, interpreter reported " ++
      toString expected

/-- Why a profiling session refused. -/
inductive ProfileError where
  | store (cause : StoreError)
  | walk (cause : WalkError)
  deriving DecidableEq, Repr

def ProfileError.message : ProfileError → String
  | .store cause => cause.message
  | .walk cause => cause.message

/-- A table was full: the only cause that leaves the stored data trustworthy. -/
def ProfileError.isExhaustion : ProfileError → Bool
  | .store (.exhausted _) => true
  | .store (.unitTableFull _) => true
  | _ => false

/-- Why a report could not be written or read. -/
inductive OutputError where
  | writeFailed (cause : DiskError)
  /-- The text is not a document of the wanted form. -/
  | malformed
  | invalidPath (detail : String)
  deriving DecidableEq, Repr

def OutputError.message : OutputError → String
  | .writeFailed cause => "Failed to write file: " ++ cause.message
  | .malformed => "Failed to serialize JSON"
  | .invalidPath detail => "Invalid output path: " ++ detail

end ProcProfile
