import RegionPool.Proofs.Bounds
import RegionPool.Proofs.Lengthening

/-!
# What a caller knows of its containers

A caller who never looks into a container still knows a good deal about it: it asked for so much
room, and every command that appended to the container said so. An account is what can be told of a
container in this way, from the commands and the replies alone, and a chronicle has one for each
container that the caller ever held.

* `ArrayAccount`, `ListAccount`, `Chronicle` — accounts, and `Session.chronicle`, told from a
  history;
* `Session.Dealing` — how a command deals with containers: most leave them all alone, and the others
  make, lengthen, copy or drop one of them;
* `Session.exec_dealing` — every command does one of these things, and its reply tells which.
-/

namespace RegionPool

open PoolM

/-! ### Accounts -/

/-- Where a container was made, and how often the pool there was reset since. -/
structure Lodging where
  /-- The slot of the pool. -/
  home : Nat
  resets : Nat := 0
  deriving Repr, DecidableEq

/-- The lodging after the pool in a slot was reset. -/
def Lodging.afterReset (lodging : Lodging) (slot : Nat) : Lodging :=
  if lodging.home = slot then { lodging with resets := lodging.resets + 1 } else lodging

/-- What is known of an array. -/
structure ArrayAccount where
  lodging : Lodging
  /-- The number of elements that room was asked for. -/
  capacity : Nat
  elementSize : Nat
  /-- The number of elements that were appended. -/
  count : Nat := 0
  deriving Repr, DecidableEq

/-- What is known of a list. -/
structure ListAccount where
  lodging : Lodging
  /-- Whether a header was asked for. -/
  headed : Bool
  partCapacity : PartCapacity
  elementSize : Nat
  /-- The number of elements that were appended. -/
  count : Nat := 0
  deriving Repr, DecidableEq

/-- **A chronicle**: an account of each array and of each list, by their slots. -/
structure Chronicle where
  arrays : List ArrayAccount := []
  lists : List ListAccount := []
  deriving Repr, DecidableEq

namespace Chronicle

/-- A new array. -/
def makeArray (c : Chronicle) (home capacity elementSize : Nat) : Chronicle :=
  { c with arrays := c.arrays ++ [{ lodging := { home }, capacity, elementSize }] }

/-- `n` elements were appended to an array. -/
def growArray (c : Chronicle) (index n : Nat) : Chronicle :=
  { c with arrays := c.arrays.modify index fun account =>
      { account with count := account.count + n } }

/-- A new list. -/
def makeList (c : Chronicle) (headed : Bool) (home : Nat) (partCapacity : PartCapacity)
    (elementSize : Nat) : Chronicle :=
  { c with lists := c.lists ++ [{ lodging := { home }, headed, partCapacity, elementSize }] }

/-- An element was appended to a list. -/
def growList (c : Chronicle) (index : Nat) : Chronicle :=
  { c with lists := c.lists.modify index fun account =>
      { account with count := account.count + 1 } }

/-- The pool in a slot was reset. -/
def afterReset (c : Chronicle) (slot : Nat) : Chronicle where
  arrays := c.arrays.map fun account =>
    { account with lodging := account.lodging.afterReset slot }
  lists := c.lists.map fun account => { account with lodging := account.lodging.afterReset slot }

/-- **What a command and its reply tell.** A copy of a container has the same past. -/
def note (c : Chronicle) : Command → Reply → Chronicle
  | .createArray home capacity elementSize, .array _
  | .initArray home capacity elementSize, .array _ => c.makeArray home capacity elementSize
  | .pushArray _ index _, .bytes _ => c.growArray index 1
  | .pushManyArray _ index n _, .bytes _ => c.growArray index n
  | .cloneArray index, .array _ => { c with arrays := c.arrays ++ c.arrays[index]?.toList }
  | .createList home partCapacity elementSize, .list _ =>
    c.makeList true home partCapacity elementSize
  | .initList home partCapacity elementSize, .list _ =>
    c.makeList false home partCapacity elementSize
  | .pushList _ index _, .bytes _ => c.growList index
  | .cloneList index, .list _ => { c with lists := c.lists ++ c.lists[index]?.toList }
  | .reset slot, .done => c.afterReset slot
  | _, _ => c

/-- **Accounts are kept on**: the list is of the same pool, and was reset there no less often. -/
theorem exists_list_note {c : Chronicle} {command : Command} {reply : Reply} {index : Nat}
    {account : ListAccount} (h : c.lists[index]? = some account) :
    ∃ later, (c.note command reply).lists[index]? = some later ∧
      later.lodging.home = account.lodging.home ∧
        account.lodging.resets ≤ later.lodging.resets := by
  have hlt := (List.getElem?_eq_some_iff.mp h).1
  have hsame : ∀ {lists : List ListAccount}, lists[index]? = some account →
      ∃ later, lists[index]? = some later ∧ later.lodging.home = account.lodging.home ∧
        account.lodging.resets ≤ later.lodging.resets := fun h => ⟨account, h, rfl, Nat.le_refl _⟩
  have happend : ∀ more : List ListAccount, (c.lists ++ more)[index]? = some account := fun _ =>
    (List.getElem?_append_left hlt).trans h
  -- only appending and resetting change an entry; the rest adds one or does nothing
  unfold note
  split
  case h_6 | h_7 | h_9 => exact hsame (happend _)
  case h_8 other _ _ =>
    refine ⟨_, (List.getElem?_modify _ _ _ _).trans (congrArg _ h), ?_⟩
    dsimp only
    split <;> exact ⟨rfl, Nat.le_refl _⟩
  case h_10 slot =>
    refine ⟨_, (List.getElem?_map ..).trans (congrArg _ h), ?_⟩
    unfold Lodging.afterReset
    dsimp only
    split
    · exact ⟨rfl, Nat.le_succ _⟩
    · exact ⟨rfl, Nat.le_refl _⟩
  all_goals exact hsame h

end Chronicle

/-- The command that makes an array, with a header or without. -/
def Command.makeArray (headed : Bool) (slot capacity elementSize : Nat) : Command :=
  if headed then .createArray slot capacity elementSize else .initArray slot capacity elementSize

/-- The command that makes a list, with a header or without. -/
def Command.makeList (headed : Bool) (slot : Nat) (partCapacity : PartCapacity)
    (elementSize : Nat) : Command :=
  if headed then .createList slot partCapacity elementSize
  else .initList slot partCapacity elementSize

/-- The command that appends to an array. -/
def GrowArray.Growth.command (slot index : Nat) (content : Content) : Growth → Command
  | .one => .pushArray slot index content
  | .many n => .pushManyArray slot index n content

namespace Session

variable {s : Session} {slot index : Nat} {command : Command} {content : Content}

/-- **The chronicle of a history**, told from its commands and replies. -/
def chronicle (s : Session) (c : Chronicle) : List Command → Chronicle
  | [] => c
  | command :: history =>
    (s.exec command).2.chronicle (c.note command (s.exec command).1) history

theorem chronicle_append (s : Session) (c : Chronicle) (first second : List Command) :
    s.chronicle c (first ++ second) = (s.run first).2.chronicle (s.chronicle c first) second := by
  induction first generalizing s c with
  | nil => rfl
  | cons command first ih => exact ih _ _

/-! ### Dealings -/

/-- **How a command deals with containers.** It leaves all of them alone, perhaps resetting a pool;
or it makes, lengthens or copies one of them and says so; or it drops an array. -/
inductive Dealing (s : Session) : Command → Reply → Session → Prop
  | aside {command reply after} (arrays : after.arrays = s.arrays) (lists : after.lists = s.lists)
      (unnoted : ∀ c : Chronicle, c.note command reply = c) : Dealing s command reply after
  | reset {slot after} (arrays : after.arrays = s.arrays) (lists : after.lists = s.lists) :
    Dealing s (.reset slot) .done after
  | arrayMade {headed slot capacity elementSize pool array t} (here : s.pool? slot = some pool)
      (run : GrowArray.make headed capacity elementSize ⟨pool, s.world⟩ = .ok array t) :
    Dealing s (.makeArray headed slot capacity elementSize) (.array s.arrays.length)
      ((s.settle slot t).keepArray array).2
  | arrayPushed {growth slot index content pool array appended longer t before u}
      (here : s.pool? slot = some pool) (found : s.array? index = some array)
      (run : GrowArray.Growth.push growth array ⟨pool, s.world⟩ = .ok (appended, longer) t)
      (filled : appended.fill content t = .ok before u) :
    Dealing s (growth.command slot index content) (.bytes before)
      ((s.settle slot u).setArray index (some longer))
  | arrayCopied {index array} (found : s.array? index = some array) :
    Dealing s (.cloneArray index) (.array s.arrays.length) (s.keepArray array).2
  | arrayDropped {slot index reply after} (arrays : after.arrays = s.arrays.set index none)
      (lists : after.lists = s.lists) (regions : after.regions = s.regions)
      (tickets : after.tickets = s.tickets) : Dealing s (.destroyArray slot index) reply after
  | listMade {headed slot partCapacity elementSize pool list t} (here : s.pool? slot = some pool)
      (run : PartList.make headed partCapacity elementSize ⟨pool, s.world⟩ = .ok list t) :
    Dealing s (.makeList headed slot partCapacity elementSize) (.list s.lists.length)
      ((s.settle slot t).keepList list).2
  | listPushed {slot index content pool list appended longer t before u}
      (here : s.pool? slot = some pool) (found : s.list? index = some list)
      (run : PartList.push list ⟨pool, s.world⟩ = .ok (appended, longer) t)
      (filled : appended.fill content t = .ok before u) :
    Dealing s (.pushList slot index content) (.bytes before)
      ((s.settle slot u).setList index longer)
  | listCopied {index list} (found : s.list? index = some list) :
    Dealing s (.cloneList index) (.list s.lists.length) (s.keepList list).2

/-- A command that does not come to its end deals with nothing. -/
private theorem Dealing.failed {reply : Reply} {t : PoolState}
    (unnoted : ∀ c : Chronicle, c.note command reply = c) :
    s.Dealing command reply (s.settle slot t) := .aside rfl rfl unnoted

private theorem makeArray_dealing (headed : Bool) {capacity elementSize : Nat} :
    s.Dealing (.makeArray headed slot capacity elementSize)
      (s.exec (.makeArray headed slot capacity elementSize)).1
      (s.exec (.makeArray headed slot capacity elementSize)).2 := by
  have hexec : s.exec (.makeArray headed slot capacity elementSize) = s.perform slot
      (GrowArray.make headed capacity elementSize) fun array u => u.keepArray array := by
    cases headed <;> rfl
  -- a reply that is no array is not noted as one
  have hnote : ∀ reply, (∀ index, reply ≠ .array index) → ∀ c : Chronicle,
      c.note (.makeArray headed slot capacity elementSize) reply = c := by
    intro reply hreply c
    cases headed <;> cases reply <;> first | rfl | exact absurd rfl (hreply _)
  rw [hexec]
  refine withFound_ends (Q := fun result => s.Dealing _ result.1 result.2)
    (.aside rfl rfl (hnote _ nofun)) fun pool here => ?_
  split
  · next array t run => exact .arrayMade here run
  · exact .failed (hnote _ fun index hreply => by cases hreply)

private theorem makeList_dealing (headed : Bool) {partCapacity : PartCapacity}
    {elementSize : Nat} :
    s.Dealing (.makeList headed slot partCapacity elementSize)
      (s.exec (.makeList headed slot partCapacity elementSize)).1
      (s.exec (.makeList headed slot partCapacity elementSize)).2 := by
  have hexec : s.exec (.makeList headed slot partCapacity elementSize) = s.perform slot
      (PartList.make headed partCapacity elementSize) fun list u => u.keepList list := by
    cases headed <;> rfl
  -- a reply that is no list is not noted as one
  have hnote : ∀ reply, (∀ index, reply ≠ .list index) → ∀ c : Chronicle,
      c.note (.makeList headed slot partCapacity elementSize) reply = c := by
    intro reply hreply c
    cases headed <;> cases reply <;> first | rfl | exact absurd rfl (hreply _)
  rw [hexec]
  refine withFound_ends (Q := fun result => s.Dealing _ result.1 result.2)
    (.aside rfl rfl (hnote _ nofun)) fun pool here => ?_
  split
  · next list t run => exact .listMade here run
  · exact .failed (hnote _ fun index hreply => by cases hreply)

theorem exec_growth (growth : GrowArray.Growth) (slot index : Nat) (content : Content) :
    s.exec (growth.command slot index content) = s.pushArray slot index growth.push content := by
  cases growth <;> rfl

private theorem pushArray_dealing (growth : GrowArray.Growth) :
    s.Dealing (growth.command slot index content) (s.pushArray slot index growth.push content).1
      (s.pushArray slot index growth.push content).2 := by
  have hnote : ∀ reply, (∀ bytes, reply ≠ .bytes bytes) → ∀ c : Chronicle,
      c.note (growth.command slot index content) reply = c := by
    intro reply hreply c
    cases growth <;> cases reply <;> first | rfl | exact absurd rfl (hreply _)
  have habsent : s.Dealing (growth.command slot index content) .unavailable s :=
    .aside rfl rfl (hnote _ nofun)
  refine withFound_ends (Q := fun result => s.Dealing _ result.1 result.2) habsent
    fun array found => ?_
  cases here : s.pool? slot with
  | none =>
    rw [perform, here]
    exact habsent
  | some pool =>
    refine perform_ends (Q := fun result => s.Dealing _ result.1 result.2) here ?_
    rw [ends_bind]
    -- however far it came, an appending that fails leaves the array as it was
    have hfailed : ∀ failure t, s.Dealing (growth.command slot index content) (.failed failure)
        (s.settle slot t) := fun _ _ => .failed (hnote _ fun bytes hreply => by cases hreply)
    refine (ends_self _ _).mono (fun pushed t run => ?_) fun failure t _ => hfailed failure t
    obtain ⟨appended, longer⟩ := pushed
    rw [ends_bind]
    exact (ends_self _ _).mono (fun before u filled => .arrayPushed here found run filled)
      fun failure t _ => hfailed failure t

private theorem pushList_dealing :
    s.Dealing (.pushList slot index content) (s.pushList slot index content).1
      (s.pushList slot index content).2 := by
  have habsent : s.Dealing (.pushList slot index content) .unavailable s :=
    .aside rfl rfl fun _ => rfl
  refine withFound_ends (Q := fun result => s.Dealing _ result.1 result.2) habsent
    fun list found => ?_
  cases here : s.pool? slot with
  | none =>
    rw [perform, here]
    exact habsent
  | some pool =>
    refine perform_ends (Q := fun result => s.Dealing _ result.1 result.2) here ?_
    rw [ends_bind]
    -- a list is only replaced once the new element is filled
    refine (ends_self _ _).mono (fun pushed t run => ?_) fun _ _ _ => .failed fun _ => rfl
    obtain ⟨appended, longer⟩ := pushed
    rw [ends_bind]
    exact (ends_self _ _).mono (fun before u filled => .listPushed here found run filled)
      fun _ _ _ => .failed fun _ => rfl

private theorem destroyArray_dealing :
    s.Dealing (.destroyArray slot index) (s.destroyArray slot index).1
      (s.destroyArray slot index).2 := by
  refine withFound_ends (Q := fun result => s.Dealing _ result.1 result.2)
    (.aside rfl rfl fun _ => rfl) fun _ _ => ?_
  refine withFound_ends (Q := fun result => s.Dealing _ result.1 result.2)
    (.aside rfl rfl fun _ => rfl) fun array _ => ?_
  refine withFound_ends (Q := fun result => s.Dealing _ result.1 result.2)
    (.arrayDropped rfl rfl rfl rfl) fun pool _ => ?_
  split <;> exact .arrayDropped rfl rfl rfl rfl

/-- **Every command** deals with containers in one of these ways. -/
theorem exec_dealing (s : Session) (command : Command) :
    s.Dealing command (s.exec command).1 (s.exec command).2 := by
  have haside : command.Containerless → (∀ c : Chronicle, c.note command (s.exec command).1 = c) →
      s.Dealing command (s.exec command).1 (s.exec command).2 := fun containerless unnoted =>
    .aside (exec_containers containerless).1 (exec_containers containerless).2 unnoted
  cases command with
  | createArray slot capacity elementSize => exact makeArray_dealing true
  | initArray slot capacity elementSize => exact makeArray_dealing false
  | pushArray slot index content => exact pushArray_dealing .one
  | pushManyArray slot index n content => exact pushArray_dealing (.many n)
  | cloneArray index =>
    exact withFound_ends (Q := fun result => s.Dealing _ result.1 result.2)
      (.aside rfl rfl fun _ => rfl) fun _ found => .arrayCopied found
  | destroyArray slot index => exact destroyArray_dealing
  | createList slot partCapacity elementSize => exact makeList_dealing true
  | initList slot partCapacity elementSize => exact makeList_dealing false
  | pushList slot index content => exact pushList_dealing
  | cloneList index =>
    exact withFound_ends (Q := fun result => s.Dealing _ result.1 result.2)
      (.aside rfl rfl fun _ => rfl) fun _ found => .listCopied found
  | reset slot =>
    obtain ⟨arrays, lists⟩ : (s.exec (.reset slot)).2.arrays = s.arrays ∧
        (s.exec (.reset slot)).2.lists = s.lists := exec_containers trivial
    -- a reset is noted if it is answered as done
    generalize (s.exec (.reset slot)).1 = reply at *
    generalize (s.exec (.reset slot)).2 = after at *
    cases reply with
    | done => exact .reset arrays lists
    | _ => exact .aside arrays lists fun _ => rfl
  | _ => exact haside trivial fun _ => rfl

/-! ### What is found -/

section Found

variable {array : GrowArray} {list : PartList} {pool : Pool} {taken : List Holding}

theorem mem_arrays_of_array? (found : s.array? index = some array) : some array ∈ s.arrays :=
  List.mem_of_getElem? (Option.join_eq_some_iff.mp found)

theorem lt_of_array? (found : s.array? index = some array) : index < s.arrays.length :=
  (List.getElem?_eq_some_iff.mp (Option.join_eq_some_iff.mp found)).1

/-- An array that is found is of its shape. -/
theorem Shaped.of_array? (shaped : s.Shaped) (found : s.array? index = some array) : array.Shaped :=
  shaped.arrays array (mem_arrays_of_array? found)

/-- **What comes of appending** to an array that is found. -/
theorem Shaped.pushed {growth : GrowArray.Growth} {pushed : Slot × GrowArray} {t u : PoolState}
    (shaped : s.Shaped) (found : s.array? index = some array)
    (run : growth.push array t = .ok pushed u) : array.Pushed growth.size t pushed u :=
  (growth.push_ends (shaped.of_array? found).count_le).ok_of run

/-- A list that is found is of its shape. -/
theorem Shaped.of_list? (shaped : s.Shaped) (found : s.list? index = some list) : list.Shaped :=
  shaped.lists list (List.mem_of_getElem? found)

/-- **What comes of appending** to a list that is found. -/
theorem Shaped.pushedList {pushed : Slot × PartList} {t u : PoolState} (shaped : s.Shaped)
    (found : s.list? index = some list) (run : list.push t = .ok pushed u) :
    list.Pushed t pushed u :=
  (PartList.push_ends ((shaped.of_list? found).count_le _ list.last_mem_parts)).ok_of run

/-- Every pool guards the regions of an array that is found. -/
theorem Sheltered.guards_array (sheltered : s.Sheltered taken) (found : s.array? index = some array)
    (here : s.pool? slot = some pool) : ∀ region ∈ array.regions, pool.Guards region :=
  fun region hmem =>
    sheltered.guarded.guards slot pool here region (handles_of_array? found region hmem)

/-- Destroying an array that is found is what the pool makes of it. -/
theorem exec_destroyArray {n : Nat} {t : PoolState} (here : s.pool? slot = some pool)
    (found : s.array? index = some array) (run : array.destroy ⟨pool, s.world⟩ = .ok n t) :
    s.exec (.destroyArray slot index) = (.number n, (s.setArray index none).settle slot t) := by
  have here' : (s.setArray index none).pool? slot = some pool := here
  have run' : array.destroy ⟨pool, (s.setArray index none).world⟩ = .ok n t := run
  rw [exec, destroyArray, here, found, withFound, withFound, perform, here', withFound, run']

end Found

end Session

end RegionPool
