import RegionPool.Proofs.Containers
import RegionPool.Proofs.Separation

/-!
# Containers are independent vectors

An `Estate` is the tenancy of a caller together with the containers that were made in its pool, each
with the elements that were appended to it. The elements are only kept beside the containers: every
deed is carried out by the operations of the pool and of the containers, and what these come back
with decides what the containers are.

A caller does whatever it likes to its own regions (as far as `Tenancy.Allows` lets it) and to the
containers, but it neither resets the pool nor copies a container.

* `Estate.Sound` — the pool honours the leases of all containers beside those of the caller, and
  each container has its elements;
* `Estate.Sound.step` — every deed keeps an estate sound;
* `Estate.run_agrees` — after any deeds, what is read from the containers are their elements.
-/

namespace RegionPool

open PoolM

/-! ### Containers of either kind -/

/-- **A container.** -/
inductive Vessel where
  | ofArray (array : GrowArray)
  | ofList (list : PartList)
  deriving Repr, DecidableEq

namespace Vessel

/-- The regions that a container is leased. -/
def regions : Vessel → List Region
  | .ofArray array => array.regions
  | .ofList list => list.regions

/-- **A container has these elements** in a pool. -/
def Fits (vessel : Vessel) (pool : Pool) (values : List Bytes) : Prop :=
  match vessel with
  | .ofArray array => array.Fits pool values
  | .ofList list => list.Fits pool values

/-- **A container holds these elements**, beside other leases. -/
structure Holds (vessel : Vessel) (s : PoolState) (values : List Bytes) (leases : List Lease) :
    Prop where
  fits : vessel.Fits s.pool values
  honours : s.Honours (vessel.regions.map s.pool.leaseOf ++ leases)

/-- A container has the same elements wherever its regions read the same. -/
theorem Fits.congr {vessel : Vessel} {pool pool' : Pool} {values : List Bytes}
    (h : vessel.Fits pool values)
    (hcontents : ∀ region ∈ vessel.regions, pool'.contents region = pool.contents region) :
    vessel.Fits pool' values := by
  cases vessel with
  | ofArray array => exact GrowArray.Fits.congr h hcontents
  | ofList list => exact PartList.Fits.congr h hcontents

end Vessel

theorem GrowArray.Holds.vessel {array : GrowArray} {s : PoolState} {values : List Bytes}
    {leases : List Lease} (h : array.Holds s values leases) :
    (Vessel.ofArray array).Holds s values leases :=
  ⟨h.fits, h.honours⟩

theorem PartList.Holds.vessel {list : PartList} {s : PoolState} {values : List Bytes}
    {leases : List Lease} (h : list.Holds s values leases) :
    (Vessel.ofList list).Holds s values leases :=
  ⟨h.fits, h.honours⟩

/-- **A container and the elements it is to have**, in the order in which they were appended. -/
structure Stock where
  vessel : Vessel
  values : List Bytes := []
  deriving Repr, DecidableEq

/-- The regions of what stands in a place: none, if it was destroyed. -/
def Stock.regions : Option Stock → List Region
  | some stock => stock.vessel.regions
  | none => []

/-! ### What a caller does -/

/-- **A caller, and containers in its pool.** The place of a destroyed container is empty. -/
structure Estate where
  tenancy : Tenancy
  stocks : List (Option Stock) := []

namespace Estate

variable {α : Type}

/-- **One thing that a caller does** to its own regions or to a container. -/
inductive Deed where
  | own (deed : RegionPool.Deed)
  | createArray (capacity elementSize : Nat)
  | initArray (capacity elementSize : Nat)
  | createList (partCapacity : PartCapacity) (elementSize : Nat)
  | initList (partCapacity : PartCapacity) (elementSize : Nat)
  /-- Append an element and write it. -/
  | push (place : Nat) (content : Content)
  /-- Append `n` elements to an array and write them. -/
  | pushMany (place n : Nat) (content : Content)
  /-- Write to the element of an array at an index. -/
  | setElement (place index : Nat) (content : Content)
  | destroyArray (place : Nat)
  deriving Repr, DecidableEq

/-- The pool and its world. -/
abbrev state (e : Estate) : PoolState := e.tenancy.state

/-- The estate after its pool and the world have changed. -/
def setState (e : Estate) (state : PoolState) : Estate :=
  { e with tenancy := { e.tenancy with state } }

/-- Carry out an action. What it did stays done, also if it fails. -/
def act (e : Estate) (action : PoolM α) (next : α → Estate → Estate) : Estate :=
  match action e.state with
  | .ok a state => next a (e.setState state)
  | .error _ state => e.setState state

/-- Keep a new container. -/
def keep (e : Estate) (vessel : Vessel) : Estate :=
  { e with stocks := e.stocks ++ [some { vessel }] }

/-- Replace what stands in a place. -/
def setStock (e : Estate) (place : Nat) (stock : Option Stock) : Estate :=
  { e with stocks := e.stocks.set place stock }

/-- Go on with the array in a place; without one nothing is done. -/
def withArray (e : Estate) (place : Nat) (next : GrowArray → List Bytes → Estate) : Estate :=
  match e.stocks[place]? with
  | some (some ⟨.ofArray array, values⟩) => next array values
  | _ => e

/-- Go on with the container in a place; without one nothing is done. -/
def withStock (e : Estate) (place : Nat) (next : Vessel → List Bytes → Estate) : Estate :=
  match e.stocks[place]? with
  | some (some ⟨vessel, values⟩) => next vessel values
  | _ => e

/-- **One deed.** What is appended is what the caller wrote over the bytes that it found in its
slot. -/
def step (e : Estate) : Deed → Estate
  | .own deed => { e with tenancy := e.tenancy.step deed }
  | .createArray capacity elementSize =>
    e.act (GrowArray.create capacity elementSize) fun array e => e.keep (.ofArray array)
  | .initArray capacity elementSize =>
    e.act (GrowArray.init capacity elementSize) fun array e => e.keep (.ofArray array)
  | .createList partCapacity elementSize =>
    e.act (PartList.create partCapacity elementSize) fun list e => e.keep (.ofList list)
  | .initList partCapacity elementSize =>
    e.act (PartList.init partCapacity elementSize) fun list e => e.keep (.ofList list)
  | .push place content =>
    e.withStock place fun vessel values =>
      match vessel with
      | .ofArray array =>
        e.act (array.push >>= fun (slot, array) => return (← slot.fill content, array))
          fun (before, array) e =>
            e.setStock place (some ⟨.ofArray array, values ++ [content.apply before]⟩)
      | .ofList list =>
        e.act (list.push >>= fun (slot, list) => return (← slot.fill content, list))
          fun (before, list) e =>
            e.setStock place (some ⟨.ofList list, values ++ [content.apply before]⟩)
  | .pushMany place n content =>
    e.withArray place fun array values =>
      e.act (array.pushMany n >>= fun (slot, array) => return (← slot.fill content, array))
        fun (before, after) e =>
          let appended := elementsOf (content.apply before) array.elementSize n
          e.setStock place (some ⟨.ofArray after, values ++ appended⟩)
  | .setElement place index content =>
    e.withArray place fun array values =>
      e.act (onPool (array.set? index content)) fun _ e =>
        e.setStock place (some ⟨.ofArray array, values.modify index content.apply⟩)
  | .destroyArray place =>
    e.withArray place fun array _ =>
      -- The caller has given the array away, also if destroying it fails.
      (e.setStock place none).act array.destroy fun _ e => e

/-- Deeds one after the other. -/
def run (e : Estate) : List Deed → Estate
  | [] => e
  | deed :: deeds => (e.step deed).run deeds

/-- **What a caller refrains from**: a reset, and what `Tenancy.Allows` forbids. -/
def Allows (e : Estate) : Deed → Prop
  | .own deed => deed ≠ .reset ∧ e.tenancy.Allows deed
  | _ => True

/-- Deeds of which each is allowed when its turn comes. -/
def AllowsAll (e : Estate) : List Deed → Prop
  | [] => True
  | deed :: deeds => e.Allows deed ∧ (e.step deed).AllowsAll deeds

instance (e : Estate) : DecidablePred e.Allows
  | .own deed => inferInstanceAs (Decidable (deed ≠ .reset ∧ e.tenancy.Allows deed))
  | .createArray .. | .initArray .. | .createList .. | .initList .. | .push .. | .pushMany ..
  | .setElement .. | .destroyArray _ => .isTrue trivial

/-- Whether all deeds are allowed can be checked by doing them. -/
instance decidableAllowsAll : (e : Estate) → (deeds : List Deed) → Decidable (e.AllowsAll deeds)
  | _, [] => .isTrue trivial
  | e, deed :: deeds =>
    have := decidableAllowsAll (e.step deed) deeds
    inferInstanceAs (Decidable (e.Allows deed ∧ (e.step deed).AllowsAll deeds))

/-! ### Sound estates -/

/-- The leases of what stands in some places, and of the caller. -/
def leasesOf (e : Estate) (stocks : List (Option Stock)) : List Lease :=
  (stocks.flatMap Stock.regions).map e.state.pool.leaseOf ++ e.tenancy.leases

/-- **An estate is sound**: the tenancy is sound beside the leases of the containers, and each
container has its elements. -/
structure Sound (e : Estate) : Prop where
  tenancy : e.tenancy.Sound ((e.stocks.flatMap Stock.regions).map e.state.pool.leaseOf)
  fits : ∀ stock, some stock ∈ e.stocks → stock.vessel.Fits e.state.pool stock.values

section Sound

variable {e : Estate} {s : PoolState} {index : Nat} {vessel : Vessel} {values : List Bytes}
  {stocks rest : List (Option Stock)}

/-- The leases of some places and others. -/
theorem leasesOf_append (e : Estate) (stocks rest : List (Option Stock)) :
    e.leasesOf (stocks ++ rest) =
      (stocks.flatMap Stock.regions).map e.state.pool.leaseOf ++ e.leasesOf rest := by
  rw [leasesOf, List.flatMap_append, List.map_append, List.append_assoc, leasesOf]

/-- The leases do not depend on the order of the places. -/
theorem leasesOf_perm (e : Estate) (h : stocks.Perm rest) :
    (e.leasesOf stocks).Perm (e.leasesOf rest) :=
  ((h.flatMap_right _).map _).append_right _

namespace Sound

/-- All leases of a sound estate. -/
theorem honours (sound : e.Sound) : e.state.Honours (e.leasesOf e.stocks) :=
  sound.tenancy.honours.perm List.perm_append_comm

/-- **Some places change.** What stands in the others is as it was. -/
theorem arrange (sound : e.Sound) (changed : List (Option Stock)) (onward : e.state.Onward s)
    (hrest : ∀ other ∈ rest, other ∈ e.stocks)
    (honours : s.Honours ((changed.flatMap Stock.regions).map s.pool.leaseOf ++ e.leasesOf rest))
    (hfits : ∀ stock, some stock ∈ changed → stock.vessel.Fits s.pool stock.values)
    (hperm : stocks.Perm (changed ++ rest)) :
    Sound { tenancy := { e.tenancy with state := s }, stocks } := by
  -- the containers in the other places read what they read before, for their leases are honoured
  have hothers : s.Honours ((rest.flatMap Stock.regions).map e.state.pool.leaseOf ++
      (e.tenancy.leases ++ (changed.flatMap Stock.regions).map s.pool.leaseOf)) := by
    refine honours.perm ?_
    rw [leasesOf, ← List.append_assoc _ e.tenancy.leases]
    exact List.perm_append_comm
  obtain ⟨hcontents, hmap⟩ := map_leaseOf_eq hothers
  let after : Estate := { tenancy := { e.tenancy with state := s }, stocks }
  -- so the leases afterwards are those of the places that changed and the old ones of the others
  have hleases : (after.leasesOf stocks).Perm
      ((changed.flatMap Stock.regions).map s.pool.leaseOf ++ e.leasesOf rest) := by
    refine (after.leasesOf_perm hperm).trans (.of_eq ?_)
    rw [leasesOf_append, leasesOf, leasesOf]
    exact congrArg (fun leases => _ ++ (leases ++ e.tenancy.leases)) hmap
  refine ⟨sound.tenancy.onward onward ?_, fun stock hmem => ?_⟩
  · exact honours.perm (hleases.symm.trans List.perm_append_comm)
  · rcases List.mem_append.mp (hperm.mem_iff.mp hmem) with hchanged | hother
    · exact hfits stock hchanged
    · refine (sound.fits stock (hrest _ hother)).congr fun region hregion => ?_
      exact hcontents region (List.mem_flatMap.mpr ⟨_, hother, hregion⟩)

/-- Nothing changes in any place. -/
theorem frame (sound : e.Sound) (onward : e.state.Onward s)
    (honours : s.Honours (e.leasesOf e.stocks)) : (e.setState s).Sound :=
  sound.arrange [] onward (fun _ hmem => hmem) honours
    (fun _ hmem => (List.not_mem_nil hmem).elim) (.refl _)

/-- A container stands in a place from now on. -/
theorem place (sound : e.Sound) (onward : e.state.Onward s)
    (hrest : ∀ other ∈ rest, other ∈ e.stocks)
    (holds : vessel.Holds s values (e.leasesOf rest))
    (hperm : stocks.Perm (some ⟨vessel, values⟩ :: rest)) :
    Sound { tenancy := { e.tenancy with state := s }, stocks } := by
  refine sound.arrange [some ⟨vessel, values⟩] onward hrest ?_ ?_ hperm
  · rw [List.flatMap_singleton]
    exact holds.honours
  · intro stock hmem
    obtain rfl := Option.some.inj (List.mem_singleton.mp hmem)
    exact holds.fits

/-- **What stands in a place holds its elements**, beside what stands elsewhere. -/
theorem holds (sound : e.Sound) (hstock : e.stocks[index]? = some (some ⟨vessel, values⟩)) :
    vessel.Holds e.state values (e.leasesOf (e.stocks.eraseIdx index)) := by
  obtain ⟨hlt, hget⟩ := List.getElem?_eq_some_iff.mp hstock
  -- the leases of one place are taken to the front
  have hperm := (List.getElem_cons_eraseIdx_perm hlt).symm
  rw [hget] at hperm
  refine ⟨sound.fits _ (List.mem_of_getElem? hstock), sound.honours.perm ?_⟩
  have hleases := e.leasesOf_perm hperm
  rwa [← List.singleton_append, leasesOf_append, List.flatMap_singleton] at hleases

/-- An action, and what is made of its result. -/
theorem act {α : Type} {action : PoolM α} {next : α → Estate → Estate}
    (h : Ends action e.state (fun a s => (next a (e.setState s)).Sound)
      (fun _ s => (e.setState s).Sound)) : (e.act action next).Sound := by
  rw [Estate.act]
  split
  · next run => exact h.ok_of run
  · next run => exact h.fail_of run

/-! ### Every deed keeps an estate sound -/

/-- **A new container.** -/
theorem make {α : Type} {action : PoolM α} {made : α → Vessel} (sound : e.Sound)
    (orderly : Orderly action)
    (hmade : ∀ leases, e.state.Honours leases →
      Ends action e.state (fun a s => (made a).Holds s [] leases) (fun _ s => s.Honours leases)) :
    (e.act action fun a e => e.keep (made a)).Sound := by
  refine .act (((hmade _ sound.honours).and (orderly.onward sound.tenancy.ordered)).mono ?_ ?_)
  · rintro a s ⟨holds, onward⟩
    exact sound.place onward (fun _ hmem => hmem) holds (List.perm_append_singleton _ _)
  · rintro failure s ⟨honours, onward, -⟩
    exact sound.frame onward honours

/-- **A container changes**, or stays as it is. -/
theorem change {α : Type} {action : PoolM α} {changed : α → Vessel} {appended : α → List Bytes}
    (sound : e.Sound) (hstock : e.stocks[index]? = some (some ⟨vessel, values⟩))
    (orderly : Orderly action)
    (hchanged : ∀ leases, vessel.Holds e.state values leases →
      Ends action e.state (fun a s => (changed a).Holds s (appended a) leases)
        (fun _ s => vessel.Holds s values leases)) :
    (e.act action fun a e => e.setStock index (some ⟨changed a, appended a⟩)).Sound := by
  obtain ⟨hlt, hget⟩ := List.getElem?_eq_some_iff.mp hstock
  have hsub : ∀ other ∈ e.stocks.eraseIdx index, other ∈ e.stocks :=
    fun _ hmem => List.mem_of_mem_eraseIdx hmem
  refine .act (((hchanged _ (sound.holds hstock)).and
    (orderly.onward sound.tenancy.ordered)).mono ?_ ?_)
  · rintro a s ⟨holds, onward⟩
    exact sound.place onward hsub holds (List.set_perm_cons_eraseIdx hlt _)
  · rintro failure s ⟨holds, onward, -⟩
    -- after a failure the container stands where it stood
    refine sound.place onward hsub holds ?_
    rw [← hget]
    exact (List.getElem_cons_eraseIdx_perm hlt).symm

/-- **An array is destroyed.** -/
theorem destroy {array : GrowArray} (sound : e.Sound)
    (hstock : e.stocks[index]? = some (some ⟨.ofArray array, values⟩)) :
    ((e.setStock index none).act array.destroy fun _ e => e).Sound := by
  obtain ⟨hlt, -⟩ := List.getElem?_eq_some_iff.mp hstock
  have holds := sound.holds hstock
  have hcleared : ∀ s : PoolState, e.state.Onward s →
      s.Honours (e.leasesOf (e.stocks.eraseIdx index)) →
        ((e.setStock index none).setState s).Sound := by
    intro s onward honours
    -- an empty place needs no lease
    exact sound.arrange [none] onward (fun _ hmem => List.mem_of_mem_eraseIdx hmem) honours
      (fun _ hmem => nomatch List.mem_singleton.mp hmem) (List.set_perm_cons_eraseIdx hlt none)
  refine .act (((GrowArray.destroy_leases ⟨holds.fits, holds.honours⟩).and
    (GrowArray.destroy_orderly.onward sound.tenancy.ordered)).mono ?_ ?_)
  · rintro - s ⟨honours, onward⟩
    exact hcleared s onward honours
  · rintro failure s ⟨honours, onward, -⟩
    exact hcleared s onward honours

/-- **What a caller does to its own regions** changes no container. -/
theorem own {deed : RegionPool.Deed} (sound : e.Sound) (allowed : e.Allows (.own deed)) :
    (e.step (.own deed)).Sound := by
  have htenancy := sound.tenancy.step_of_ne allowed.2 allowed.1
  -- the containers are others to the tenancy, and it leaves the leases of others alone
  obtain ⟨hcontents, hmap⟩ := map_leaseOf_eq (htenancy.honours.perm List.perm_append_comm)
  refine ⟨?_, fun stock hmem => (sound.fits stock hmem).congr fun region hregion => ?_⟩
  · change (e.tenancy.step deed).Sound ((e.stocks.flatMap Stock.regions).map
      (e.tenancy.step deed).state.pool.leaseOf)
    rw [hmap]
    exact htenancy
  · exact hcontents region (List.mem_flatMap.mpr ⟨_, hmem, hregion⟩)

/-- **An element is appended.** -/
theorem push {content : Content} (sound : e.Sound) : (e.step (.push index content)).Sound := by
  rw [step, withStock]
  split
  -- an element goes into the stock it was meant for, whichever container that is
  · next vessel values hstock =>
    cases vessel with
    | ofArray array =>
      refine sound.change hstock (GrowArray.push_orderly.bind fun _ =>
        Slot.fill_orderly.bind fun _ => .pure) fun leases holds => ?_
      exact (GrowArray.push_holds ⟨holds.fits, holds.honours⟩).mono (fun _ _ h => h.2.vessel)
        fun _ _ h => h.vessel
    | ofList list =>
      refine sound.change hstock (PartList.push_orderly.bind fun _ =>
        Slot.fill_orderly.bind fun _ => .pure) fun leases holds => ?_
      exact (PartList.push_holds ⟨holds.fits, holds.honours⟩).mono (fun _ _ h => h.vessel)
        fun _ _ h => h.vessel
  · exact sound

/-- **Elements are appended to an array.** -/
theorem pushMany {n : Nat} {content : Content} (sound : e.Sound) :
    (e.step (.pushMany index n content)).Sound := by
  rw [step, withArray]
  split
  · next array values hstock =>
    refine sound.change hstock (GrowArray.pushMany_orderly.bind fun _ =>
      Slot.fill_orderly.bind fun _ => .pure) fun leases holds => ?_
    exact (GrowArray.pushMany_holds ⟨holds.fits, holds.honours⟩).mono (fun _ _ h => h.2.vessel)
      fun _ _ h => h.vessel
  · exact sound

/-- **An element of an array is written.** -/
theorem setElement {target : Nat} {content : Content} (sound : e.Sound) :
    (e.step (.setElement index target content)).Sound := by
  rw [step, withArray]
  split
  · next array values hstock =>
    refine sound.change hstock GrowArray.setElement_orderly fun leases holds => ?_
    exact (GrowArray.set?_holds ⟨holds.fits, holds.honours⟩).mono (fun _ _ h => h.vessel)
      fun _ _ h => h.elim
  · exact sound

/-- **Every deed** keeps an estate sound. -/
theorem step {deed : Deed} (sound : e.Sound) (allowed : e.Allows deed) : (e.step deed).Sound := by
  cases deed with
  | own deed => exact sound.own allowed
  | createArray capacity elementSize =>
    exact sound.make GrowArray.create_orderly fun leases honours =>
      (GrowArray.create_holds honours).mono (fun _ _ h => h.2.vessel) fun _ _ h => h
  | initArray capacity elementSize =>
    exact sound.make GrowArray.init_orderly fun leases honours =>
      (GrowArray.init_holds honours).mono (fun _ _ h => h.2.2.vessel) fun _ _ h => h
  | createList partCapacity elementSize =>
    exact sound.make PartList.create_orderly fun leases honours =>
      (PartList.create_holds honours).mono (fun _ _ h => h.vessel) fun _ _ h => h
  | initList partCapacity elementSize =>
    exact sound.make PartList.init_orderly fun leases honours =>
      (PartList.init_holds honours).mono (fun _ _ h => h.vessel) fun _ _ h => h
  | push place content => exact sound.push
  | pushMany place n content => exact sound.pushMany
  | setElement place target content => exact sound.setElement
  -- only arrays are destroyed; a list goes with its pool
  | destroyArray place =>
    rw [Estate.step, withArray]
    split
    · next array values hstock => exact sound.destroy hstock
    · exact sound

/-- **All deeds** keep an estate sound. -/
theorem run {deeds : List Deed} (sound : e.Sound) (allowed : e.AllowsAll deeds) :
    (e.run deeds).Sound := by
  induction deeds generalizing e with
  | nil => exact sound
  | cons deed deeds ih =>
    obtain ⟨hdeed, hdeeds⟩ := allowed
    exact ih (sound.step hdeed) hdeeds

end Sound

end Sound

/-! ### What is read -/

/-- **What is read from the containers are their elements**: the bytes of an array, its elements one
by one and all together, and the elements of a list. -/
structure Agrees (e : Estate) : Prop where
  array : ∀ array values, some ⟨.ofArray array, values⟩ ∈ e.stocks →
    array.bytes e.state.pool = .ok values.flatten ∧
      (∀ index, array.get? e.state.pool index = .ok values[index]?) ∧
      array.toList e.state.pool = .ok values
  list : ∀ list values, some ⟨.ofList list, values⟩ ∈ e.stocks →
    list.toList e.state.pool = .ok values

theorem Sound.agrees {e : Estate} (sound : e.Sound) : e.Agrees where
  array array values hmem := by
    obtain ⟨index, hstock⟩ := List.getElem?_of_mem hmem
    have holds := sound.holds hstock
    -- what an array holds is what it reads
    have harray : array.Holds e.state values _ := ⟨holds.fits, holds.honours⟩
    exact ⟨harray.bytes_eq, harray.get?_eq, harray.toList_eq⟩
  list list values hmem := by
    obtain ⟨index, hstock⟩ := List.getElem?_of_mem hmem
    have holds := sound.holds hstock
    have hlist : list.Holds e.state values _ := ⟨holds.fits, holds.honours⟩
    exact hlist.toList_eq

/-- **Containers in one pool behave as independent vectors.** -/
theorem run_agrees {config : PoolConfig} {allocator : AllocatorId} {w w' : World} {pool : Pool}
    {deeds : List Deed} (created : Pool.create config allocator w = (.ok pool, w'))
    (allowed : Estate.AllowsAll { tenancy := { state := ⟨pool, w'⟩ } } deeds) :
    (Estate.run { tenancy := { state := ⟨pool, w'⟩ } } deeds).Agrees := by
  obtain ⟨-, buffer, opens⟩ := Pool.create_ok created
  have sound : Sound { tenancy := { state := ⟨pool, w'⟩ } } :=
    ⟨Tenancy.sound_of_opens opens, fun _ hmem => (List.not_mem_nil hmem).elim⟩
  exact (sound.run allowed).agrees

/-- A heap that refuses its fifth request. -/
def crampedWorld : World where
  heap := { place := fun request _ _ => if request = 4 then none else some (4096 * request) }
  allocators := [.failing 9 {}]

/-- Two arrays and a list that grow in turn, in place and by moving, beside regions of the
caller. -/
def mixedDeeds : List Deed :=
  [.createArray 2 3, .initArray 0 2, .initList ⟨2, by decide⟩ 4, .push 0 (.bytes [1, 2, 3]),
    .push 1 (.fill 7), .push 2 (.pattern 1), .own (.alloc 5), .push 0 (.fill 8), .push 0 (.fill 9),
    .pushMany 1 4 (.pattern 2), .own (.extend 0 3), .push 2 .keep, .push 2 (.fill 5),
    .own (.reclaim 0), .setElement 0 1 (.bytes [4]), .pushMany 0 9 (.pattern 3), .destroyArray 1,
    .push 0 (.fill 6), .push 2 (.fill 2)]

theorem run_agrees_mixedDeeds : ∃ pool w',
    Pool.create { size := 112 } ⟨0⟩ crampedWorld = (.ok pool, w') ∧
      Estate.AllowsAll { tenancy := { state := ⟨pool, w'⟩ } } mixedDeeds ∧
      (Estate.run { tenancy := { state := ⟨pool, w'⟩ } } mixedDeeds).Agrees := by
  refine ⟨_, _, rfl, ?_, @run_agrees { size := 112 } ⟨0⟩ crampedWorld _ _ mixedDeeds rfl ?_⟩
  · decide +kernel
  · decide +kernel

end Estate

end RegionPool
