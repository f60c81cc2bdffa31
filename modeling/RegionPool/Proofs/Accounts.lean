import Mathlib.Data.List.Forall2
import RegionPool.Proofs.Seclusion

/-!
# What a caller knows of its containers is true

An account of a container is told from commands and replies; here it is related to what the session
keeps. One half of it is about the container alone: how large its regions are, how many elements it
has and how much room. The other half is about where its regions are: each is still at the site
where it was handed out, as long as its pool is neither reset nor destroyed.

* `ArrayAccount.Describes`, `ListAccount.Describes` — what an account tells of a container;
* `Session.Lodges` — what it tells of the regions of a container; `Lodges.exec` for any command,
  and `Lodges.houses`, `Lodges.home_of_knows`: they are found there, and nowhere else;
* `Session.Upholds` — what is told of the containers there were is true later;
* `Session.Records` — a chronicle is true; `Records.exec`, `Records.run`;
* `Session.Chronicled` — it is, and the session is in order besides.
-/

namespace RegionPool

open PoolM

/-! ### The containers -/

namespace ArrayAccount

variable {account : ArrayAccount} {array roomier : GrowArray} {s t : PoolState} {n : Nat}

/-- **What an account tells of an array**: its elements are counted, the region of its elements has
room for the capacity and for no more, and the capacity is no less than was asked for, and no more
than that or twice what is needed. -/
structure Describes (account : ArrayAccount) (array : GrowArray) : Prop where
  elementSize : array.elementSize = account.elementSize
  count : array.count = account.count
  room : array.elements.length = array.capacity * array.elementSize
  count_le : array.count ≤ array.capacity
  le_capacity : account.capacity ≤ array.capacity
  capacity_le : array.capacity ≤ max account.capacity (2 * array.count)

/-- It tells the same wherever the array lodges. -/
theorem Describes.relodged (h : account.Describes array) (lodging : Lodging) :
    ({ account with lodging } : ArrayAccount).Describes array :=
  ⟨h.elementSize, h.count, h.room, h.count_le, h.le_capacity, h.capacity_le⟩

/-- A new array. -/
theorem describes_made {headed : Bool} {capacity elementSize : Nat} (lodging : Lodging)
    (h : GrowArray.Made capacity elementSize s headed array t) :
    ({ lodging, capacity, elementSize } : ArrayAccount).Describes array := by
  cases h with
  | bare run | headed _ run =>
    exact ⟨rfl, rfl, Pool.length_of_allocWith.ok_of run, Nat.zero_le _, Nat.le_refl _,
      Nat.le_max_left _ _⟩

/-- **An array to which elements are appended.** -/
theorem Describes.counted (h : account.Describes array) (hroomier : array.Roomier n s roomier t) :
    ({ account with count := account.count + n } : ArrayAccount).Describes
      (roomier.counted n).2 := by
  obtain ⟨hroom, hmore, hless⟩ := hroomier.capacity_bounds h.count_le
  have hcount := hroomier.count_eq
  have hbefore := h.le_capacity
  have hbound := h.capacity_le
  refine ⟨hroomier.elementSize_eq.trans h.elementSize, ?_, hroomier.room h.room, ?_, ?_, ?_⟩
  · exact congrArg (· + n) (hcount.trans h.count)
  -- what is left are bounds on the count, and making room only raised the capacity
  all_goals
    dsimp only [GrowArray.counted]
    omega

end ArrayAccount

/-- The elements of a list are those before the last part and those in it. -/
theorem PartList.count_eq (list : PartList) :
    list.count = (list.earlier.map Part.count).sum + list.last.count := by
  simp only [count, parts, List.map_append, List.sum_append, List.map_cons, List.map_nil,
    List.sum_cons, List.sum_nil, Nat.add_zero]

namespace ListAccount

variable {account : ListAccount} {list opened : PartList} {s t : PoolState}

/-- **What an account tells of a list**: its elements are counted, every part has room for as many
as the capacity says and a header unless it is the first, and all parts before the last one are
full. -/
structure Describes (account : ListAccount) (list : PartList) : Prop where
  partCapacity : list.partCapacity = account.partCapacity
  elementSize : list.elementSize = account.elementSize
  count : list.count = account.count
  header : list.header.map Region.length =
    if account.headed then some Layout.listHeaderSize else none
  headers : list.parts.map (fun part => part.header.map Region.length) =
    none :: List.replicate list.earlier.length (some Layout.listPartHeaderSize)
  room : ∀ part ∈ list.parts, part.elements.length = list.partCapacity * list.elementSize
  full : ∀ part ∈ list.earlier, part.count = list.partCapacity
  last_le : list.last.count ≤ list.partCapacity
  /-- No part is started before it is needed. -/
  started : list.earlier ≠ [] → 0 < list.last.count

/-- It tells the same wherever the list lodges. -/
theorem Describes.relodged (h : account.Describes list) (lodging : Lodging) :
    ({ account with lodging } : ListAccount).Describes list :=
  ⟨h.partCapacity, h.elementSize, h.count, h.header, h.headers, h.room, h.full, h.last_le,
    h.started⟩

/-- A new list. -/
theorem describes_made {headed : Bool} {partCapacity : PartCapacity} {elementSize : Nat}
    (lodging : Lodging) (h : PartList.Made partCapacity elementSize s headed list t) :
    ({ lodging, headed, partCapacity, elementSize } : ListAccount).Describes list := by
  cases h with
  | bare run =>
    exact ⟨rfl, rfl, rfl, rfl, rfl, List.forall_mem_singleton.mpr
      (Pool.length_of_allocWith.ok_of run), nofun, Nat.zero_le _, fun h => (h rfl).elim⟩
  | headed first run =>
    exact ⟨rfl, rfl, rfl, congrArg some (Pool.length_of_allocWith.ok_of first), rfl,
      List.forall_mem_singleton.mpr (Pool.length_of_allocWith.ok_of run), nofun, Nat.zero_le _,
      fun h => (h rfl).elim⟩

/-- What is said of the parts of a list holds again when the last one is counted up. -/
private theorem Describes.countUp (h : account.Describes list)
    (room : list.last.count < list.partCapacity) :
    ({ account with count := account.count + 1 } : ListAccount).Describes list.counted.2 where
  partCapacity := h.partCapacity
  elementSize := h.elementSize
  count := by
    have hcount := h.count
    rw [PartList.count_eq] at hcount ⊢
    change _ + (list.last.count + 1) = account.count + 1
    rw [← hcount, Nat.add_assoc]
    rfl
  header := h.header
  headers := by
    -- counting up leaves every header alone, also that of the last part
    have hheaders := h.headers
    simp only [PartList.parts, List.map_append] at hheaders ⊢
    exact hheaders
  room part hmem := by
    rcases List.mem_append.mp hmem with hearlier | hlast
    · exact h.room part (List.mem_append_left _ hearlier)
    · rw [List.mem_singleton.mp hlast]
      exact h.room list.last list.last_mem_parts
  full := h.full
  last_le := room
  started _ := Nat.succ_pos _

/-- **A list to which an element is appended.** -/
theorem Describes.counted (h : account.Describes list) (hopened : list.Opened s opened t) :
    ({ account with count := account.count + 1 } : ListAccount).Describes opened.counted.2 := by
  cases hopened with
  | ample room => exact h.countUp room
  | @started _ header elements _ u full _ first run =>
    let part : Part := ⟨some header, elements, 0⟩
    -- the part that was the last one is full, and the new one is about to be used
    have hheader : header.length = Layout.listPartHeaderSize := Pool.length_of_allocWith.ok_of first
    have helements : elements.length = list.partCapacity * list.elementSize :=
      Pool.length_of_allocWith.ok_of run
    have hlength : list.parts.length = list.earlier.length + 1 := List.length_append
    refine ⟨h.partCapacity, h.elementSize, ?_, h.header, ?_, ?_, ?_, list.partCapacity.2,
      fun _ => Nat.succ_pos _⟩
    · rw [PartList.count_eq]
      exact congrArg (· + 1) h.count
    · change (list.parts ++ [({ part with count := 1 } : Part)]).map _ =
        none :: List.replicate list.parts.length _
      rw [List.map_append, h.headers, hlength, List.replicate_succ', List.cons_append]
      simp only [List.map_cons, List.map_nil, Option.map_some, part, hheader]
    · intro other hmem
      rcases List.mem_append.mp hmem with hold | hnew
      · exact h.room other hold
      · rw [List.mem_singleton.mp hnew]
        exact helements
    · intro other hmem
      rcases List.mem_append.mp hmem with hearlier | hlast
      · exact h.full other hearlier
      · rw [List.mem_singleton.mp hlast]
        exact full

end ListAccount

/-! ### What is lengthened is known -/

section Known

variable {s t : PoolState} {n : Nat}

/-- A slot that is read is one of the pool. -/
private theorem Slot.knows_of_bytes {slot : Slot} {pool : Pool} {bytes : Bytes}
    (h : slot.bytes pool = .ok bytes) : pool.Knows slot.region := by
  obtain ⟨found, hfound, -⟩ := bind_eq_ok_iff.mp h
  exact ⟨found, (Pool.locate_eq_ok_iff.mp hfound).1⟩

/-- **An array becomes longer** only in a pool that knows its elements. -/
theorem GrowArray.Pushed.knows {array : GrowArray} {pushed : Slot × GrowArray}
    (h : array.Pushed n s pushed t) : s.pool.Knows array.elements := by
  obtain ⟨roomier, hroomier, rfl, bytes, hbytes⟩ := h
  cases hroomier with
  | ample _ => exact Slot.knows_of_bytes hbytes
  | lengthened _ run => exact Pool.knows_of_extend run
  | moved _ stuck _ _ _ _ => exact Pool.knows_of_extend stuck

/-- **A list becomes longer** only in a pool that knows its last part. -/
theorem PartList.Pushed.knows {list : PartList} {pushed : Slot × PartList}
    (h : list.Pushed s pushed t) : s.pool.Knows list.last.elements := by
  obtain ⟨opened, hopened, rfl, bytes, hbytes⟩ := h
  cases hopened with
  | ample _ => exact Slot.knows_of_bytes hbytes
  | started _ known _ _ => exact ⟨_, (Pool.locate_eq_ok_iff.mp known).1⟩

end Known

/-! ### Where the regions are -/

section Hands

variable {known : List Region} {elementSize : Nat} {headed : Bool}

private theorem GrowArray.make_hands {capacity : Nat} :
    Hands (make headed capacity elementSize) [] regions := by
  cases headed with
  | false => exact init_hands
  | true => exact create_hands

private theorem GrowArray.Growth.push_hands {array : GrowArray} (growth : Growth)
    (h : ∀ region ∈ array.regions, region ∈ known) :
    Hands (growth.push array) known fun pushed => pushed.2.regions := by
  cases growth with
  | one => exact GrowArray.push_hands h
  | many n => exact GrowArray.pushMany_hands h

private theorem PartList.make_hands {partCapacity : PartCapacity} :
    Hands (make headed partCapacity elementSize) [] handles := by
  cases headed with
  | false => exact init_hands
  | true => exact create_hands

end Hands

/-- The lodging after a command. -/
def Lodging.note (lodging : Lodging) (command : Command) (reply : Reply) : Lodging :=
  if command = .reset lodging.home ∧ reply = .done then
    { lodging with resets := lodging.resets + 1 }
  else lodging

namespace Session

variable {s : Session} {slot : Nat} {lodging : Lodging} {regions : List Region} {region : Region}
  {pool : Pool} {command : Command} {taken : List Holding} {history : List Command}

/-- **A region that is tracked has its site**, unless it is large and its pool does not hold it any
more. -/
theorem Tracks.siteOf?_of_held {home count : Nat} {site : Site}
    (tracks : s.Tracks home region site count) (retired : s.Retired)
    (here : s.pool? home = some pool) (held : ∀ id, region.place = .large id →
      ∃ other, pool.siteOf? (.large id) = some other) :
    pool.siteOf? region.place = some site := by
  rcases tracks.site pool here with hsite | ⟨id, hplace, hfreed⟩
  · exact hsite
  · -- the pool still holds the buffer, so it cannot be among those that were given back
    obtain ⟨other, hother⟩ := held id hplace
    obtain ⟨buffer, hfind, -⟩ := Option.map_eq_some_iff.mp hother
    obtain ⟨hheld, hid⟩ := LargeTable.mem_of_find? hfind
    exact absurd hid (retired.absent here hfreed buffer hheld)

/-- **The regions of a container lodge** in the pool of a slot, which was reset so often since. A
container that was not touched in `2 ^ 32` resets is taken for one of the present generation, and
what it then gets is younger than the container. -/
structure Lodges (s : Session) (lodging : Lodging) (regions : List Region) : Prop where
  tracked : ∀ region ∈ regions, ∃ site count, s.Tracks lodging.home region site count ∧
    count ≤ lodging.resets ∧ count % 2 ^ (32 : Nat) = lodging.resets % 2 ^ (32 : Nat)
  held : lodging.resets = 0 → ∀ region ∈ regions, ∀ id, region.place = .large id →
    s.Holds lodging.home id

namespace Lodges

/-- **Every command** leaves the regions of a container where they are, and counts a reset. -/
theorem exec (lodges : s.Lodges lodging regions) (sheltered : s.Sheltered taken)
    (secluded : s.Secluded) (admitted : s.Admits command)
    (within : ∀ region ∈ regions, region ∈ s.enclosed) :
    (s.exec command).2.Lodges (lodging.note command (s.exec command).1) regions := by
  have hstep : s.Step command (s.exec command).1 (s.exec command).2 := exec_step sheltered.vouched
  have hreply := (sheltered.accounted.exec admitted).2
  -- the books list every buffer of the pool, so a reset of it cannot get stuck
  have hrewinds : command = .reset lodging.home → ∀ id,
      (s.exec command).1 ≠ .failed (.fault (.untrackedFree id)) := fun hreset => by
    refine hreply fun _ _ hfree => ?_
    rw [hreset] at hfree
    cases hfree
  refine ⟨fun region hmem => ?_, fun hresets region hmem id hplace => ?_⟩
  · obtain ⟨site, count, tracks, hle, hmod⟩ := lodges.tracked region hmem
    have htracks := tracks.step hstep hrewinds
    unfold Lodging.note
    split
    · next hreset =>
      rw [if_pos hreset] at htracks
      exact ⟨site, _, htracks, by dsimp only; omega⟩
    · next hreset =>
      rw [if_neg hreset] at htracks
      exact ⟨site, _, htracks, hle, hmod⟩
  -- no command but a reset gives a buffer back that only the container knows of
  · unfold Lodging.note at hresets ⊢
    split at hresets
    · cases hresets
    · next hreset =>
      rw [if_neg hreset]
      exact (lodges.held hresets region hmem id hplace).exec sheltered.vouched sheltered.accounted
        (secluded.not_relinquishes (within region hmem) hplace hreset)

/-- What a pool houses lodges there. -/
theorem of_houses (vouched : s.Vouched) (here : s.pool? slot = some pool)
    (housed : ∀ region ∈ regions, pool.Houses region) : s.Lodges { home := slot } regions where
  tracked region hmem := by
    obtain ⟨site, hsite, -⟩ := (housed region hmem).site
    exact ⟨site, 0, .of_houses vouched here (housed region hmem) hsite, Nat.le_refl _, rfl⟩
  held _ region hmem id hplace := by
    refine ⟨lt_of_pool? here, fun other hother => ?_⟩
    obtain rfl := Option.some.inj (here.symm.trans hother)
    obtain ⟨site, hsite, -⟩ := (housed region hmem).site
    exact ⟨site, hplace ▸ hsite⟩

/-- **A pool that knows a region of a container** is the one the container was made in, and was not
reset since, unless so often that its generation came round. -/
theorem home_of_knows (lodges : s.Lodges lodging regions) (vouched : s.Vouched)
    (here : s.pool? slot = some pool) (hmem : region ∈ regions) (knows : pool.Knows region) :
    slot = lodging.home ∧ lodging.resets % 2 ^ (32 : Nat) = 0 := by
  obtain ⟨⟨store, offset⟩, hresolve⟩ := knows
  obtain ⟨howner, hgeneration, -, -⟩ := Pool.resolve_eq_ok_iff.mp hresolve
  obtain ⟨site, count, tracks, -, hmod⟩ := lodges.tracked region hmem
  obtain rfl : lodging.home = slot := vouched.slot_eq here (howner.symm.trans tracks.owner)
  have hbefore := tracks.generation pool here
  exact ⟨rfl, by omega⟩

/-- A container comes to lodge in more regions, of the pool that it is in. -/
theorem extend {more : List Region} (lodges : s.Lodges lodging regions) (vouched : s.Vouched)
    (here : s.pool? lodging.home = some pool) (hresets : lodging.resets % 2 ^ (32 : Nat) = 0)
    (hmore : ∀ region ∈ more, region ∈ regions ∨ pool.Houses region) :
    s.Lodges lodging more where
  tracked region hmem := by
    rcases hmore region hmem with hold | housed
    · exact lodges.tracked region hold
    -- a region that is new is housed now, so no reset has passed since
    · obtain ⟨site, hsite, -⟩ := housed.site
      exact ⟨site, 0, .of_houses vouched here housed hsite, Nat.zero_le _, by rw [hresets]⟩
  held hnone region hmem id hplace := by
    rcases hmore region hmem with hold | housed
    · exact lodges.held hnone region hold id hplace
    · have hnew : s.Lodges { home := lodging.home } [region] :=
        .of_houses vouched here (List.forall_mem_singleton.mpr housed)
      exact hnew.held rfl region (List.mem_singleton_self _) id hplace

/-- **What was appended to a container** lodges where the container does: the pool that made room
for it is the one that the container is in. -/
theorem append {α : Type} {after : Session} {action : PoolM (Slot × α)}
    {all : Slot × α → List Region} {pushed : Slot × α} {content : Content} {before : Bytes}
    {t u : PoolState} (lodged : s.Lodges lodging regions) (lodges : after.Lodges lodging regions)
    (vouched : s.Vouched) (vouched' : after.Vouched) (here : s.pool? slot = some pool)
    (here' : after.pool? slot = some u.pool) (held : ∀ region ∈ regions, region ∈ s.handles)
    (hmem : region ∈ regions) (knows : pool.Knows region) (hands : Hands action regions all)
    (run : action ⟨pool, s.world⟩ = .ok pushed t)
    (filled : pushed.1.fill content t = .ok before u) : after.Lodges lodging (all pushed) := by
  -- only the home of the container knows one of its regions
  obtain ⟨rfl, hresets⟩ := lodged.home_of_knows vouched here hmem knows
  obtain ⟨spares, hregions⟩ := (hands _ (vouched.fit _ pool here) fun region hof =>
    vouched.trusts here (held region hof)).ok_of run
  -- writing the element hands nothing out
  have hfill : Hands (pushed.1.fill content) [] fun _ => [] := Slot.fill_hands
  obtain ⟨spares', -⟩ := (hfill t spares.fit nofun).ok_of filled
  exact lodges.extend vouched' here' hresets fun region hof =>
    (hregions region hof).imp_right spares'.houses

/-- **Until the first reset** a container is at home in its pool. -/
theorem houses (lodges : s.Lodges lodging regions) (vouched : s.Vouched) (retired : s.Retired)
    (hresets : lodging.resets = 0) (here : s.pool? lodging.home = some pool) :
    ∀ region ∈ regions, pool.Houses region := by
  intro region hmem
  obtain ⟨site, count, tracks, hle, -⟩ := lodges.tracked region hmem
  have hid := vouched.numbered _ pool here
  have hgeneration := tracks.generation pool here
  exact ⟨tracks.owner.trans hid.symm, by omega, site, tracks.siteOf?_of_held retired here
    fun id hplace => (lodges.held hresets region hmem id hplace).held pool here, tracks.fits⟩

end Lodges

end Session

/-! ### Every entry of a table -/

section Tables

variable {α β : Type} {R : α → β → Prop} {accounts : List α} {entries : List β} {index : Nat}
  {b : β}

private theorem forall₂_imp_mem {S : α → β → Prop} (h : List.Forall₂ R accounts entries)
    (himp : ∀ a, ∀ b ∈ entries, R a b → S a b) : List.Forall₂ S accounts entries := by
  induction h with
  | nil => exact .nil
  | cons hhead _ ih =>
    exact .cons (himp _ _ List.mem_cons_self hhead)
      (ih fun a b hmem => himp a b (List.mem_cons_of_mem _ hmem))

/-- An entry is found with what is told of it. -/
private theorem exists_of_forall₂ (h : List.Forall₂ R accounts entries)
    (hentry : entries[index]? = some b) : ∃ a, accounts[index]? = some a ∧ R a b := by
  induction h generalizing index with
  | nil => cases hentry
  | cons hhead _ ih =>
    cases index with
    | zero => exact ⟨_, rfl, Option.some.inj hentry ▸ hhead⟩
    | succ index => exact ih hentry

/-- One entry changes, and so does what is told of it. -/
private theorem forall₂_modify_set {change : α → α} (h : List.Forall₂ R accounts entries)
    (hchange : ∀ a, accounts[index]? = some a → R (change a) b) :
    List.Forall₂ R (accounts.modify index change) (entries.set index b) := by
  induction h generalizing index with
  | nil =>
    rw [List.modify_nil]
    exact .nil
  | @cons a _ accounts entries hhead htail ih =>
    cases index with
    | zero =>
      rw [List.modify_zero_cons]
      exact .cons (hchange a rfl) htail
    | succ index =>
      rw [List.modify_succ_cons]
      exact .cons hhead (ih hchange)

end Tables

/-! ### Every command -/

namespace Lodging

variable {lodging : Lodging} {command : Command} {reply : Reply}

/-- Whatever is no reset leaves a lodging. -/
theorem note_of_ne (h : ∀ slot, ¬ (command = .reset slot ∧ reply = .done)) :
    lodging.note command reply = lodging := if_neg (h lodging.home)

/-- What a chronicle does not note is no reset. -/
theorem note_of_unnoted (h : ∀ c : Chronicle, c.note command reply = c) :
    lodging.note command reply = lodging := by
  refine note_of_ne fun slot hreset => ?_
  obtain ⟨rfl, rfl⟩ := hreset
  -- a reset would be noted with an array that lodges in the slot
  have hnoted := h { arrays := [{ lodging := { home := slot }, capacity := 0, elementSize := 0 }] }
  simp [Chronicle.note, Chronicle.afterReset, afterReset] at hnoted

theorem note_reset {slot : Nat} : lodging.note (.reset slot) .done = lodging.afterReset slot := by
  unfold note afterReset
  refine ite_congr (propext ⟨fun h => (Command.reset.inj h.1).symm, ?_⟩) (fun _ => rfl) fun _ => rfl
  rintro rfl
  exact ⟨rfl, rfl⟩

end Lodging

namespace Chronicle

variable {c : Chronicle} {command : Command} {reply : Reply}

/-- **What is known of the lodgings** after a command; the containers are the same. -/
def relodged (c : Chronicle) (command : Command) (reply : Reply) : Chronicle where
  arrays := c.arrays.map fun account =>
    { account with lodging := account.lodging.note command reply }
  lists := c.lists.map fun account => { account with lodging := account.lodging.note command reply }

private theorem relodged_of_note (h : ∀ lodging : Lodging, lodging.note command reply = lodging) :
    c.relodged command reply = c := by
  simp only [relodged, h, List.map_id']

/-- What is not noted leaves them all. -/
theorem relodged_of_unnoted (h : ∀ c : Chronicle, c.note command reply = c) :
    c.relodged command reply = c :=
  relodged_of_note fun _ => Lodging.note_of_unnoted h

/-- So does whatever is answered as no reset is. -/
theorem relodged_of_ne_done (h : reply ≠ .done) : c.relodged command reply = c :=
  relodged_of_note fun _ => Lodging.note_of_ne fun _ hreset => h hreset.2

theorem relodged_reset {slot : Nat} : c.relodged (.reset slot) .done = c.afterReset slot := by
  simp only [relodged, afterReset, Lodging.note_reset]

end Chronicle

/-- **An account is true** of an array, if that is still there. -/
def ArrayAccount.TrueOf (account : ArrayAccount) (s : Session) (entry : Option GrowArray) : Prop :=
  ∀ array ∈ entry, account.Describes array ∧ s.Lodges account.lodging array.regions

/-- **An account is true** of a list. -/
def ListAccount.TrueOf (account : ListAccount) (s : Session) (list : PartList) : Prop :=
  account.Describes list ∧ s.Lodges account.lodging list.handles

namespace Session

variable {s after : Session} {c : Chronicle} {index : Nat} {command : Command}
  {taken : List Holding} {history : List Command}

/-- **A chronicle is true**: there is one account for each container that was ever made, and it is
true of it. -/
structure Records (s : Session) (c : Chronicle) : Prop where
  arrays : List.Forall₂ (fun account entry => account.TrueOf s entry) c.arrays s.arrays
  lists : List.Forall₂ (fun account list => account.TrueOf s list) c.lists s.lists

/-- **A later session upholds a chronicle**: there, what is told of the containers of this one is
true. -/
structure Upholds (s : Session) (c : Chronicle) (after : Session) : Prop where
  arrays : List.Forall₂ (fun account entry => account.TrueOf after entry) c.arrays s.arrays
  lists : List.Forall₂ (fun account list => account.TrueOf after list) c.lists s.lists

namespace Upholds

/-- **The account of an array.** -/
theorem array {array : GrowArray} (upholds : s.Upholds c after)
    (found : s.array? index = some array) :
    ∃ account, c.arrays[index]? = some account ∧ account.Describes array ∧
      after.Lodges account.lodging array.regions := by
  obtain ⟨account, haccount, htrue⟩ :=
    exists_of_forall₂ upholds.arrays (Option.join_eq_some_iff.mp found)
  exact ⟨account, haccount, htrue array rfl⟩

/-- **The account of a list.** -/
theorem list {list : PartList} (upholds : s.Upholds c after) (found : s.list? index = some list) :
    ∃ account, c.lists[index]? = some account ∧ account.Describes list ∧
      after.Lodges account.lodging list.handles :=
  exists_of_forall₂ upholds.lists found

/-- A command that is no reset leaves all lodgings. -/
theorem unreset {reply : Reply} (upholds : s.Upholds (c.relodged command reply) after)
    (h : reply ≠ .done) : s.Upholds c after := by
  rwa [Chronicle.relodged_of_ne_done h] at upholds

/-- The containers are the same. -/
theorem same (upholds : s.Upholds c after) (arrays : after.arrays = s.arrays)
    (lists : after.lists = s.lists) : after.Records c :=
  ⟨arrays ▸ upholds.arrays, lists ▸ upholds.lists⟩

section Change

variable {array longer : GrowArray} {list longerList : PartList} {slot : Nat} {appended : Slot}
  {content : Content} {before : Bytes} {pool : Pool} {t u : PoolState}

/-- There is one array more. -/
theorem addArray {account : ArrayAccount} (upholds : s.Upholds c after)
    (arrays : after.arrays = s.arrays ++ [some array]) (lists : after.lists = s.lists)
    (describes : account.Describes array) (lodges : after.Lodges account.lodging array.regions) :
    after.Records { c with arrays := c.arrays ++ [account] } := by
  refine ⟨arrays ▸ List.rel_append upholds.arrays (.cons (fun other hother => ?_) .nil),
    lists ▸ upholds.lists⟩
  obtain rfl := Option.some.inj hother
  exact ⟨describes, lodges⟩

/-- There is one list more. -/
theorem addList {account : ListAccount} (upholds : s.Upholds c after)
    (arrays : after.arrays = s.arrays) (lists : after.lists = s.lists ++ [list])
    (describes : account.Describes list) (lodges : after.Lodges account.lodging list.handles) :
    after.Records { c with lists := c.lists ++ [account] } :=
  ⟨arrays ▸ upholds.arrays,
    lists ▸ List.rel_append upholds.lists (.cons ⟨describes, lodges⟩ .nil)⟩

/-- **An array is dropped**, and nothing is told of it any more. -/
theorem dropArray (upholds : s.Upholds c after) (arrays : after.arrays = s.arrays.set index none)
    (lists : after.lists = s.lists) : after.Records c := by
  have hdropped : List.Forall₂ (fun account entry => ArrayAccount.TrueOf account after entry)
      (c.arrays.modify index id) (s.arrays.set index none) :=
    forall₂_modify_set upholds.arrays fun _ _ => nofun
  rw [List.modify_id] at hdropped
  exact ⟨arrays ▸ hdropped, lists ▸ upholds.lists⟩

/-- **A longer array** lodges where it did, and where it was given room. -/
theorem pushArray {growth : GrowArray.Growth} (records : s.Upholds c s)
    (upholds : s.Upholds c ((s.settle slot u).setArray index (some longer)))
    (sheltered : s.Sheltered taken) (here : s.pool? slot = some pool)
    (found : s.array? index = some array)
    (run : growth.push array ⟨pool, s.world⟩ = .ok (appended, longer) t)
    (filled : appended.fill content t = .ok before u)
    (vouched : ((s.settle slot u).setArray index (some longer)).Vouched) :
    ((s.settle slot u).setArray index (some longer)).Records (c.growArray index growth.size) := by
  have hpushed := sheltered.shaped.pushed found run
  obtain ⟨account, haccount, describes, lodged⟩ := records.array found
  obtain ⟨same, hsame, -, lodges⟩ := upholds.array found
  obtain rfl := Option.some.inj (haccount.symm.trans hsame)
  -- a pool that made room had to know the old elements, so the array lodges there
  have hlodges : ((s.settle slot u).setArray index (some longer)).Lodges account.lodging
      longer.regions :=
    lodged.append lodges sheltered.vouched vouched here (pool?_settle_self here u)
      (handles_of_array? found) List.mem_cons_self hpushed.knows
      (growth.push_hands fun _ hof => hof) run filled
  obtain ⟨roomier, hroomier, hcounted, -⟩ := hpushed
  have hlonger : (roomier.counted growth.size).2 = longer := congrArg Prod.snd hcounted.symm
  refine ⟨forall₂_modify_set upholds.arrays fun other hother entry hentry => ?_, upholds.lists⟩
  obtain rfl := Option.some.inj (haccount.symm.trans hother)
  obtain rfl := Option.some.inj hentry
  exact ⟨hlonger ▸ describes.counted hroomier, hlodges⟩

/-- **A longer list** lodges where it did, and where it was given room. -/
theorem pushList (records : s.Upholds c s)
    (upholds : s.Upholds c ((s.settle slot u).setList index longerList))
    (sheltered : s.Sheltered taken) (here : s.pool? slot = some pool)
    (found : s.list? index = some list)
    (run : list.push ⟨pool, s.world⟩ = .ok (appended, longerList) t)
    (filled : appended.fill content t = .ok before u)
    (vouched : ((s.settle slot u).setList index longerList).Vouched) :
    ((s.settle slot u).setList index longerList).Records (c.growList index) := by
  obtain ⟨account, haccount, describes, lodged⟩ := records.list found
  obtain ⟨same, hsame, -, lodges⟩ := upholds.list found
  obtain rfl := Option.some.inj (haccount.symm.trans hsame)
  have hpushed := sheltered.shaped.pushedList found run
  -- the pool was asked for the last part first, so the list lodges there
  have hlodges : ((s.settle slot u).setList index longerList).Lodges account.lodging
      longerList.handles :=
    lodged.append lodges sheltered.vouched vouched here (pool?_settle_self here u)
      (handles_of_list? found) list.last_elements_mem_handles hpushed.knows
      (PartList.push_hands fun _ hof => hof) run filled
  obtain ⟨opened, hopened, hcounted, -⟩ := hpushed
  have hlonger : opened.counted.2 = longerList := congrArg Prod.snd hcounted.symm
  refine ⟨upholds.arrays, forall₂_modify_set upholds.lists fun other hother => ?_⟩
  obtain rfl := Option.some.inj (haccount.symm.trans hother)
  exact ⟨hlonger ▸ describes.counted hopened, hlodges⟩

end Change

end Upholds

namespace Records

theorem upholds (records : s.Records c) : s.Upholds c s := ⟨records.arrays, records.lists⟩

/-- **The account of an array.** -/
theorem array {array : GrowArray} (records : s.Records c) (found : s.array? index = some array) :
    ∃ account, c.arrays[index]? = some account ∧ account.Describes array ∧
      s.Lodges account.lodging array.regions :=
  records.upholds.array found

/-- **The account of a list.** -/
theorem list {list : PartList} (records : s.Records c) (found : s.list? index = some list) :
    ∃ account, c.lists[index]? = some account ∧ account.Describes list ∧
      s.Lodges account.lodging list.handles :=
  records.upholds.list found

/-- **What was told before a command** is still true, resets included. -/
theorem exec_upholds (records : s.Records c) (sheltered : s.Sheltered taken)
    (secluded : s.Secluded) (admitted : s.Admits command) :
    s.Upholds (c.relodged command (s.exec command).1) (s.exec command).2 := by
  refine ⟨List.forall₂_map_left_iff.mpr (forall₂_imp_mem records.arrays ?_),
    List.forall₂_map_left_iff.mpr (forall₂_imp_mem records.lists ?_)⟩
  · intro account entry hmem htrue array hentry
    obtain ⟨describes, lodges⟩ := htrue array hentry
    exact ⟨describes.relodged _, lodges.exec sheltered secluded admitted fun region hof =>
      mem_enclosed_iff.mpr (.inl ⟨array, hentry ▸ hmem, hof⟩)⟩
  · intro account list hmem htrue
    obtain ⟨describes, lodges⟩ := htrue
    exact ⟨describes.relodged _, lodges.exec sheltered secluded admitted fun region hof =>
      mem_enclosed_iff.mpr (.inr ⟨list, hmem, hof⟩)⟩

/-- **Every command** leaves the chronicle true, once it is noted. -/
theorem exec (records : s.Records c) (sheltered : s.Sheltered taken) (secluded : s.Secluded)
    (admitted : s.Admits command) :
    (s.exec command).2.Records (c.note command (s.exec command).1) := by
  have vouched := sheltered.vouched.exec command
  have upholds := records.exec_upholds sheltered secluded admitted
  have fit := sheltered.vouched.fit
  have hdealing := s.exec_dealing command
  generalize (s.exec command).1 = reply at *
  generalize (s.exec command).2 = after at *
  -- only a reset changes what is known of lodgings
  cases hdealing with
  | aside arrays lists unnoted =>
    rw [Chronicle.relodged_of_unnoted unnoted] at upholds
    rw [unnoted]
    exact upholds.same arrays lists
  | reset arrays lists =>
    rw [Chronicle.relodged_reset] at upholds
    exact upholds.same arrays lists
  | @arrayMade headed home capacity elementSize pool array t here run =>
    replace upholds := upholds.unreset nofun
    have hnote : c.note (.makeArray headed home capacity elementSize) (.array s.arrays.length) =
        c.makeArray home capacity elementSize := by cases headed <;> rfl
    obtain ⟨-, hhanded⟩ := (GrowArray.make_hands _ (fit home pool here) nofun).ok_of run
    rw [hnote]
    exact upholds.addArray rfl rfl (ArrayAccount.describes_made _ (GrowArray.make_made.ok_of run))
      (.of_houses vouched (pool?_settle_self here t) fun region hof =>
        (hhanded region hof).resolve_left nofun)
  | @arrayPushed growth _ index _ _ _ _ _ _ _ _ here found run filled =>
    replace upholds := upholds.unreset nofun
    have hnote : ∀ slot content bytes, c.note (growth.command slot index content) (.bytes bytes) =
        c.growArray index growth.size := by cases growth <;> exact fun _ _ _ => rfl
    rw [hnote]
    exact records.upholds.pushArray upholds sheltered here found run filled vouched
  | @arrayCopied index array found =>
    replace upholds := upholds.unreset nofun
    obtain ⟨account, haccount, describes, lodges⟩ := upholds.array found
    rw [Chronicle.note, haccount]
    exact upholds.addArray rfl rfl describes lodges
  | @arrayDropped slot index reply _ arrays lists _ _ =>
    have unnoted : ∀ c : Chronicle, c.note (.destroyArray slot index) reply = c := fun _ => rfl
    rw [Chronicle.relodged_of_unnoted unnoted] at upholds
    rw [unnoted]
    exact upholds.dropArray arrays lists
  | @listMade headed home partCapacity elementSize pool list t here run =>
    replace upholds := upholds.unreset nofun
    have hnote : c.note (.makeList headed home partCapacity elementSize) (.list s.lists.length) =
        c.makeList headed home partCapacity elementSize := by cases headed <;> rfl
    obtain ⟨-, hhanded⟩ := (PartList.make_hands _ (fit home pool here) nofun).ok_of run
    rw [hnote]
    exact upholds.addList rfl rfl (ListAccount.describes_made _ (PartList.make_made.ok_of run))
      (.of_houses vouched (pool?_settle_self here t) fun region hof =>
        (hhanded region hof).resolve_left nofun)
  | listPushed here found run filled =>
    replace upholds := upholds.unreset nofun
    exact records.upholds.pushList upholds sheltered here found run filled vouched
  | listCopied found =>
    replace upholds := upholds.unreset nofun
    obtain ⟨account, haccount, describes, lodges⟩ := upholds.list found
    rw [Chronicle.note, haccount]
    exact upholds.addList rfl rfl describes lodges

/-- **Every history** leaves a true chronicle. -/
theorem run (records : s.Records c) (sheltered : s.Sheltered taken) (secluded : s.Secluded)
    (admitted : s.AdmitsAll history) : (s.run history).2.Records (s.chronicle c history) := by
  induction history generalizing s c taken with
  | nil => exact records
  | cons command history ih =>
    obtain ⟨hcommand, hhistory⟩ := admitted
    exact ih (records.exec sheltered secluded hcommand) (sheltered.exec hcommand)
      (secluded.exec sheltered) hhistory

/-- A caller who holds nothing yet. -/
theorem ofHeap (heap : Heap) : (Session.ofHeap heap).Records {} := ⟨.nil, .nil⟩

end Records

/-- **A session is chronicled**: a chronicle of it is true, and what keeps it so is in place. -/
structure Chronicled (s : Session) (c : Chronicle) (taken : List Holding) : Prop where
  records : s.Records c
  sheltered : s.Sheltered taken
  secluded : s.Secluded

namespace Chronicled

theorem run (h : s.Chronicled c taken) (admitted : s.AdmitsAll history) :
    (s.run history).2.Chronicled (s.chronicle c history) (s.takenBy taken history) :=
  ⟨h.records.run h.sheltered h.secluded admitted, h.sheltered.run admitted,
    h.secluded.run h.sheltered admitted⟩

/-- A caller who holds nothing yet. -/
theorem ofHeap (heap : Heap) : (Session.ofHeap heap).Chronicled {} [] :=
  ⟨.ofHeap heap, .ofHeap heap, .ofHeap heap⟩

end Chronicled

end Session

end RegionPool
