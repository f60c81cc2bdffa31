/-!
# A small file system

Files matter to a pool only as things it releases: a descriptor to close and perhaps a path to
remove. The model keeps the paths that exist, the descriptors that are open, and every name under
which a file was ever made, since descriptors are numbered by it and never reused.
-/

namespace RegionPool

/-- What a path names. -/
inductive EntryKind where
  | file
  | directory
  deriving Repr, DecidableEq

/-- How an attempt to remove a path ends. -/
inductive Removal where
  | removed
  | notFound
  /-- The path is still there, for this reason. -/
  | failed (reason : String)
  deriving Repr, DecidableEq

/-- Paths and open descriptors. -/
structure FileSystem where
  /-- Every name a file was made under, with its descriptor, oldest first. -/
  made : List (String × Nat) := []
  /-- The paths that exist. -/
  entries : List (String × EntryKind) := []
  /-- The descriptors that are open. -/
  openDescriptors : List Nat := []
  deriving Repr, DecidableEq

namespace FileSystem

/-- The descriptor of the first file. -/
def firstDescriptor : Nat := 500

/-- Why a directory cannot be removed as a file. -/
def directoryReason : String := "Is a directory (os error 21)"

/-- Whether a path exists. -/
def pathExists (files : FileSystem) (path : String) : Bool := files.entries.any (·.1 == path)

/-- The descriptor of the file once made under this name. -/
def descriptor? (files : FileSystem) (name : String) : Option Nat := files.made.lookup name

/-- Whether a descriptor is open. -/
def isOpen (files : FileSystem) (descriptor : Nat) : Bool :=
  files.openDescriptors.contains descriptor

/-- A name that a new file may have: ASCII letters and digits, at least one, and not used before. -/
def isFresh (files : FileSystem) (name : String) : Bool :=
  !name.isEmpty && name.toList.all Char.isAlphanum && (files.descriptor? name).isNone

/-- Make a file and open it. -/
def create (files : FileSystem) (name : String) (kind : EntryKind) : Nat × FileSystem :=
  let descriptor := firstDescriptor + files.made.length
  (descriptor,
    { made := files.made ++ [(name, descriptor)]
      entries := files.entries ++ [(name, kind)]
      openDescriptors := files.openDescriptors ++ [descriptor] })

/-- Remove the file of a path. A directory is not a file and stays. -/
def remove (files : FileSystem) (path : String) : Removal × FileSystem :=
  match files.entries.lookup path with
  | none => (.notFound, files)
  | some .directory => (.failed directoryReason, files)
  | some .file => (.removed, { files with entries := files.entries.filter (·.1 != path) })

/-- Close a descriptor. -/
def close (files : FileSystem) (descriptor : Nat) : FileSystem :=
  { files with openDescriptors := files.openDescriptors.filter (· != descriptor) }

@[simp] theorem made_close (files : FileSystem) (descriptor : Nat) :
    (files.close descriptor).made = files.made := rfl

@[simp] theorem isOpen_close (files : FileSystem) (descriptor other : Nat) :
    (files.close descriptor).isOpen other = (files.isOpen other && other != descriptor) := by
  simp only [isOpen, close, List.contains_eq_mem, List.mem_filter]
  by_cases h : other = descriptor <;> simp [h]

end FileSystem

/-- A file to release: its descriptor is closed, and its path removed first if `delete` is set. -/
structure FileRelease where
  descriptor : Nat
  path : String
  delete : Bool
  deriving Repr, DecidableEq

end RegionPool
