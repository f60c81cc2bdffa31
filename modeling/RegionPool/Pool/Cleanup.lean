import RegionPool.Bytes.Content
import RegionPool.Files
import RegionPool.Pool.Region

/-!
# Cleanup records

A cleanup record reserves a place in the order in which things are released when a pool is
destroyed: the record registered last comes first. A record may own bytes of the pool, and it may
have an action; without one it is passed over.
-/

namespace RegionPool

/-- What is done when a pool is destroyed. -/
inductive CleanupAction where
  /-- The caller is told. -/
  | custom (tag : String)
  /-- The caller is told and given the bytes of the record, which it then writes to. -/
  | withData (tag : String) (content : Content)
  /-- A file is released. -/
  | file (file : FileRelease)
  deriving Repr, DecidableEq

/-- The file an action would release. -/
def CleanupAction.file? : CleanupAction → Option FileRelease
  | .file release => some release
  | _ => none

/-- A place in the order of release. -/
structure CleanupRecord where
  /-- What is done; nothing, if there is no action. -/
  action : Option CleanupAction := none
  /-- The bytes the record owns. -/
  data : Option Region := none
  deriving Repr, DecidableEq

/-- What the caller holds to refer to a cleanup record. -/
structure CleanupTicket where
  pool : PoolId
  /-- The index of the record, in the order of registration. -/
  index : Nat
  /-- The bytes the record owns. -/
  data : Option Region
  deriving Repr, DecidableEq

/-- The cleanup records of a pool, in the order in which they were registered. -/
structure CleanupStack where
  records : List CleanupRecord := []
  deriving Repr, DecidableEq

namespace CleanupStack

/-- Register a record without an action. -/
def push (stack : CleanupStack) (data : Option Region) : CleanupStack :=
  { records := stack.records ++ [{ data }] }

/-- The stack with the action of record `index` replaced. -/
def setAction (stack : CleanupStack) (index : Nat) (action : Option CleanupAction) : CleanupStack :=
  { records := stack.records.modify index fun record => { record with action } }

/-- The file that record `index` would release. -/
def file? (stack : CleanupStack) (index : Nat) : Option FileRelease :=
  stack.records[index]?.bind fun record => record.action.bind CleanupAction.file?

/-- Whether record `index` would release the file of this descriptor. -/
def releases (stack : CleanupStack) (descriptor : Int) (index : Nat) : Bool :=
  match stack.file? index with
  | some file => (file.descriptor : Int) == descriptor
  | none => false

/-- The newest record that would release the file of this descriptor. -/
def fileIndex? (stack : CleanupStack) (descriptor : Int) : Option Nat :=
  (List.range stack.records.length).reverse.find? (stack.releases descriptor)

/-- Take the action that would release the file of this descriptor out of the newest record that has
one. -/
def takeFile? (stack : CleanupStack) (descriptor : Int) : Option (FileRelease × CleanupStack) :=
  match stack.fileIndex? descriptor with
  | none => none
  | some index => (stack.file? index).map fun file => (file, stack.setAction index none)

/-- The number of records. -/
def count (stack : CleanupStack) : Nat := stack.records.length

/-- The number of records with an action. -/
def armed (stack : CleanupStack) : Nat := stack.records.countP (·.action.isSome)

@[simp] theorem count_push (stack : CleanupStack) (data : Option Region) :
    (stack.push data).count = stack.count + 1 := by
  simp [count, push]

@[simp] theorem count_setAction (stack : CleanupStack) (index : Nat)
    (action : Option CleanupAction) : (stack.setAction index action).count = stack.count := by
  simp [count, setAction]

end CleanupStack

end RegionPool
