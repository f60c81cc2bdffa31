import RegionPool.Container.GrowArray
import RegionPool.Container.PartList
import RegionPool.Proofs.Allocation
import RegionPool.Proofs.Elements

/-!
# What containers hold

A container has leases of the regions it keeps its elements in, and what these read is its elements.
Each operation on a container is one lemma: it says which elements the container has afterwards, and
that all other leases are honoured as before, whether the operation succeeds or not.

* `GrowArray.Holds`, `PartList.Holds` — a container with its elements, beside other leases;
* `GrowArray.init_holds`, `GrowArray.push_holds`, `GrowArray.pushMany_holds`,
  `GrowArray.set?_holds`, `GrowArray.destroy_leases` — what is done with arrays;
* `PartList.init_holds`, `PartList.push_holds` — what is done with lists;
* `GrowArray.Holds.bytes_eq`, `GrowArray.Holds.get?_eq`, `GrowArray.Holds.toList_eq`,
  `PartList.Holds.toList_eq` — what is read from them.
-/

namespace RegionPool

open PoolM

variable {s : PoolState} {leases : List Lease}

/-- Regions that are leased read the same in every pool that honours the leases. -/
theorem map_leaseOf_eq {t : PoolState} {regions : List Region}
    (h : t.Honours (regions.map s.pool.leaseOf ++ leases)) :
    (∀ region ∈ regions, t.pool.contents region = s.pool.contents region) ∧
      regions.map t.pool.leaseOf = regions.map s.pool.leaseOf := by
  have hcontents : ∀ region ∈ regions, t.pool.contents region = s.pool.contents region :=
    fun region hmem => h.pool.contents_eq (List.mem_append_left _ (List.mem_map_of_mem hmem))
  refine ⟨hcontents, List.map_congr_left fun region hmem => ?_⟩
  rw [Pool.leaseOf, Pool.leaseOf, hcontents region hmem]

/-! ### Slots -/

/-- A function of the pool is all that counts in an action made of it. -/
private theorem ends_onPool_congr {α : Type} {f g : Pool → Except Failure (α × Pool)}
    {ok : α → PoolState → Prop} {fail : Failure → PoolState → Prop} (h : f s.pool = g s.pool) :
    Ends (PoolM.onPool f) s ok fail ↔ Ends (PoolM.onPool g) s ok fail := by
  rw [ends_onPool, ends_onPool, h]

/-- Writing to a slot is writing to its region, once the slot is read. -/
private theorem Slot.writeContent_eq {slot : Slot} {content : Content} {pool : Pool} {bytes : Bytes}
    (h : slot.bytes pool = .ok bytes) :
    slot.writeContent pool content = pool.write slot.region slot.start (content.apply bytes) := by
  rw [Slot.writeContent, h]
  rfl

/-- **Filling a slot** changes its part of the lease, and it does not fail. -/
theorem Slot.fill_leases {slot : Slot} {content : Content} {bytes : Bytes}
    (h : s.Honours (⟨slot.region, bytes⟩ :: leases))
    (hfits : slot.start + slot.length ≤ slot.region.length) :
    Ends (slot.fill content) s
      (fun before t => before = (bytes.drop slot.start).take slot.length ∧
        t.Honours (⟨slot.region, bytes.overwrite slot.start (content.apply before)⟩ :: leases))
      (fun _ _ => False) := by
  have hread : slot.bytes s.pool = .ok ((bytes.drop slot.start).take slot.length) :=
    h.pool.head.bytesIn hfits
  have hlength : ((bytes.drop slot.start).take slot.length).length ≤ slot.length := by
    rw [List.length_take]
    exact Nat.min_le_left _ _
  simp only [Slot.fill, ends_bind, ends_pure]
  rw [ends_ofPool, hread]
  refine ⟨fun before hbefore => ?_, fun _ hfailure => by cases hfailure⟩
  obtain rfl := Except.ok.inj hbefore
  -- the slot is read once more when it is written to, and reads the same
  let write (pool : Pool) : Except Failure (Unit × Pool) := do
    return ((), ← pool.write slot.region slot.start
      (content.apply ((bytes.drop slot.start).take slot.length)))
  refine (ends_onPool_congr (g := write) (by rw [Slot.writeContent_eq hread])).mpr ?_
  refine (Pool.write_leases h ?_).mono (fun _ t ht => ⟨rfl, ht⟩) fun _ _ h => h
  rw [Content.length_apply]
  exact Nat.le_trans (Nat.add_le_add_left hlength _) hfits

/-! ### Sizes -/

/-- Bytes cut out of a run are as many as asked for. -/
private theorem length_cut {bytes : Bytes} {start length : Nat}
    (h : start + length ≤ bytes.length) :
    ((bytes.drop start).take length).length = length := by
  rw [List.length_take, List.length_drop]
  omega

/-- The bytes of so many elements, if they are a machine word. -/
theorem eq_of_byteLength {count elementSize size : Nat}
    (h : byteLength count elementSize = .ok size) : size = count * elementSize := by
  rw [byteLength] at h
  split at h
  · exact (Except.ok.inj h).symm
  · cases h

theorem eq_of_checkedCount {count count' : Nat} (h : checkedCount count = .ok count') :
    count' = count := by
  rw [checkedCount] at h
  split at h
  · exact (Except.ok.inj h).symm
  · cases h

/-! ### Arrays -/

namespace GrowArray

/-- **The shape of an array**: its region has room for the capacity, and the count stays within. -/
structure Shaped (array : GrowArray) : Prop where
  room : array.elements.length = array.capacity * array.elementSize
  count_le : array.count ≤ array.capacity

/-- The regions of an array. -/
def regions (array : GrowArray) : List Region := array.elements :: array.header.toList

/-- **An array has these elements** in a pool. -/
structure Fits (array : GrowArray) (pool : Pool) (values : List Bytes) : Prop
    extends Shaped array where
  values : elementsOf (pool.contents array.elements) array.elementSize array.count = values

/-- **An array holds these elements**, beside other leases. -/
structure Holds (array : GrowArray) (s : PoolState) (values : List Bytes) (leases : List Lease) :
    Prop where
  fits : array.Fits s.pool values
  honours : s.Honours (array.regions.map s.pool.leaseOf ++ leases)

section

variable {array after : GrowArray} {values : List Bytes} {bytes : Bytes}
  {capacity elementSize n : Nat} {content : Content}

/-- The header of an array, as it reads. -/
private def headerLeases (array : GrowArray) (pool : Pool) : List Lease :=
  array.header.toList.map pool.leaseOf

/-- An array holds what the bytes of its region are. -/
private theorem Holds.intro (header : List Lease) (shaped : array.Shaped)
    (honours : s.Honours (⟨array.elements, bytes⟩ :: (header ++ leases)))
    (hheader : header.map Lease.region = array.header.toList) :
    array.Holds s (elementsOf bytes array.elementSize array.count) leases := by
  have hcontents : s.pool.contents array.elements = bytes :=
    honours.pool.contents_eq List.mem_cons_self
  refine ⟨⟨shaped, by rw [hcontents]⟩, ?_⟩
  have hregions : (⟨array.elements, bytes⟩ :: header : List Lease).map Lease.region =
      array.regions := congrArg _ hheader
  -- leases that are honoured are what their regions read, so they need not be named
  have howned : s.Honours (⟨array.elements, bytes⟩ :: header) :=
    honours.sublist (List.sublist_append_left _ _)
  rw [← hregions, howned.pool.map_leaseOf]
  exact honours

/-- The lease of its elements, in front of all others. -/
private theorem Holds.elements (h : array.Holds s values leases) :
    s.Honours (⟨array.elements, s.pool.contents array.elements⟩ ::
      (array.headerLeases s.pool ++ leases)) := h.honours

/-- The bytes of the region of an array fill its capacity. -/
private theorem Holds.length_contents (h : array.Holds s values leases) :
    (s.pool.contents array.elements).length = array.capacity * array.elementSize :=
  h.elements.pool.head.length_bytes.trans h.fits.room

private theorem map_region_headerLeases (pool : Pool) :
    (array.headerLeases pool).map Lease.region = array.header.toList := by
  rw [headerLeases, List.map_map]
  exact List.map_id' _

/-- An array has the same elements wherever its region reads the same. -/
theorem Fits.congr {pool pool' : Pool} (h : array.Fits pool values)
    (hcontents : ∀ region ∈ array.regions, pool'.contents region = pool.contents region) :
    array.Fits pool' values :=
  ⟨h.toShaped, by rw [hcontents _ List.mem_cons_self, h.values]⟩

/-- **The frame of an array**: it holds its elements wherever its leases are honoured. -/
theorem Holds.frame {t : PoolState} (h : array.Holds s values leases)
    (honours : t.Honours (array.regions.map s.pool.leaseOf ++ leases)) :
    array.Holds t values leases := by
  obtain ⟨hcontents, hmap⟩ := map_leaseOf_eq honours
  exact ⟨h.fits.congr hcontents, hmap ▸ honours⟩

/-- The elements of an array end inside its region. -/
private theorem Shaped.stop_le (shaped : array.Shaped) {count : Nat} (h : count ≤ array.capacity) :
    count * array.elementSize ≤ array.elements.length :=
  shaped.room ▸ Nat.mul_le_mul_right _ h

/-! #### Making and destroying -/

/-- **A new array** holds nothing. -/
theorem init_holds (h : s.Honours leases) :
    Ends (init capacity elementSize) s
      (fun array t => array.header = none ∧ array.elementSize = elementSize ∧
        array.Holds t [] leases)
      (fun _ t => t.Honours leases) := by
  simp only [init, ends_bind, ends_pure]
  rw [ends_ofPool]
  refine ⟨fun size hsize => ?_, fun _ _ => h⟩
  refine (Pool.alloc_leases h).mono (fun region t ht => ⟨trivial, trivial, ?_⟩) fun _ _ h => h
  obtain ⟨hlength, bytes, honours⟩ := ht
  -- the region was asked for by the capacity, and an array that is new has no elements
  have hroom := eq_of_byteLength hsize
  exact Holds.intro [] ⟨hlength.trans hroom, Nat.zero_le _⟩ honours rfl

/-- A new array with a header holds nothing. -/
theorem create_holds (h : s.Honours leases) :
    Ends (create capacity elementSize) s
      (fun array t => array.elementSize = elementSize ∧ array.Holds t [] leases)
      (fun _ t => t.Honours leases) := by
  simp only [create, ends_bind, ends_pure]
  refine (Pool.alloc_leases h).mono (fun header t ht => ?_) fun _ _ h => h
  obtain ⟨-, headerBytes, honours⟩ := ht
  -- the lease of the header is one of the others while the array is made
  refine (init_holds honours).mono (fun array u hu => ?_) fun _ _ h => h.tail
  obtain ⟨hnone, hsize, holds⟩ := hu
  refine ⟨hsize, ?_⟩
  have hbytes := holds.elements
  rw [headerLeases, hnone] at hbytes
  rw [← holds.fits.values]
  have shaped : Shaped { array with header := some header } :=
    ⟨holds.fits.room, holds.fits.count_le⟩
  exact Holds.intro [⟨header, headerBytes⟩] shaped hbytes rfl

/-- A region given back is not leased any more. -/
private theorem giveBack_leases {lease : Lease} (h : s.Honours (lease :: leases)) :
    Ends (giveBack lease.region) s (fun _ t => t.Honours leases) (fun _ t => t.Honours leases) := by
  have hreclaim := Pool.reclaim_leases h
  rw [ends_onPool] at hreclaim
  unfold Ends giveBack
  cases hrun : s.pool.reclaim lease.region with
  | ok found =>
    obtain ⟨done, pool⟩ := found
    cases done with
    -- the cursor went back, or the region stays where it is; either way it is not leased
    | true => exact (hreclaim.1 _ _ hrun).1
    | false => exact h.tail
  | error failure => cases failure <;> exact h.tail

/-- **Destroying an array** ends its leases, however much of its room it gives back. -/
theorem destroy_leases (h : array.Holds s values leases) :
    Ends array.destroy s (fun _ t => t.Honours leases) (fun _ t => t.Honours leases) := by
  -- a header that cannot be given back is left, and its lease given up
  have hrest : ∀ t : PoolState, t.Honours (array.headerLeases s.pool ++ leases) →
      t.Honours leases := fun t ht => ht.sublist (List.sublist_append_right _ _)
  simp only [destroy, ends_bind]
  refine (giveBack_leases h.elements).mono (fun _ t ht => ?_) fun _ t ht => hrest t ht
  cases hheader : array.header with
  | none =>
    exact (hrest t ht).setWorld (Nat.le_refl _)
  | some header =>
    simp only [ends_log, ends_bind, ends_pure]
    rw [headerLeases, hheader] at ht
    exact (giveBack_leases ht).mono (fun _ u hu => hu.setWorld (Nat.le_refl _)) fun _ _ h => h

/-! #### Appending -/

/-- **An array has made room**: its elements are what they were, in a region that may be another
one. -/
private structure Grows (array : GrowArray) (bytes : Bytes) (after : GrowArray) (t : PoolState)
    (rest : List Lease) : Prop where
  header : after.header = array.header
  count : after.count = array.count
  elementSize : after.elementSize = array.elementSize
  room : after.elements.length = after.capacity * after.elementSize
  honours : ∃ bytes', t.Honours (⟨after.elements, bytes'⟩ :: rest) ∧
    elementsOf bytes' array.elementSize array.count = elementsOf bytes array.elementSize array.count

/-- **Moving an array** takes its elements along. The old region is given up. -/
private theorem relocate_grows {rest : List Lease} (shaped : array.Shaped)
    (h : s.Honours (⟨array.elements, bytes⟩ :: rest)) :
    Ends (array.relocate capacity) s
      (fun after t => after.capacity = capacity ∧ array.Grows bytes after t rest)
      (fun _ t => t.Honours (⟨array.elements, bytes⟩ :: rest)) := by
  simp only [relocate, ends_bind, ends_log, ends_pure]
  rw [ends_ofPool]
  refine ⟨fun size hsize => ?_, fun _ _ => h⟩
  have hroom := eq_of_byteLength hsize
  refine (Pool.alloc_leases h).mono (fun region t ht => ?_) fun _ _ h => h
  obtain ⟨hlength, fresh, honours⟩ := ht
  -- the old region is still leased, so its elements can be read
  have hsource : t.pool.bytes { array.elements with length := array.count * array.elementSize } =
      .ok (bytes.take (array.count * array.elementSize)) :=
    honours.tail.pool.head.bytes_take (shaped.stop_le shaped.count_le)
  refine (Pool.copy_leases honours).mono (fun _ u hu => ⟨trivial, rfl, rfl, rfl, ?_, ?_⟩) ?_
  · exact hlength.trans hroom
  · obtain ⟨data, hdata, hcount, hcopied⟩ := hu
    rw [hsource] at hdata
    obtain rfl := Except.ok.inj hdata
    -- the copy fills the start of the new region, and the old one is let go
    refine ⟨_, (hcopied.perm (.swap _ _ _)).tail.setWorld (Nat.le_refl _), ?_⟩
    refine elementsOf_congr ?_
    rw [Bytes.overwrite, List.take_zero, List.nil_append, List.take_left' hcount]
  · rintro _ u rfl
    exact honours.tail

/-- **Growing an array** makes room for more elements, where it is or in another place. -/
private theorem growBy_grows {additional size : Nat} {moved : Except Failure Nat}
    {rest : List Lease} (shaped : array.Shaped) (h : s.Honours (⟨array.elements, bytes⟩ :: rest))
    (hsize : size = additional * array.elementSize)
    (hmoved : ∀ capacity, moved = .ok capacity → array.count + additional ≤ capacity) :
    Ends (array.growBy additional size moved) s
      (fun after t => array.count + additional ≤ after.capacity ∧ array.Grows bytes after t rest)
      (fun _ t => t.Honours (⟨array.elements, bytes⟩ :: rest)) := by
  simp only [growBy, ends_bind]
  refine (Pool.extend_leases h).mono (fun extended t ht => ?_) ?_
  · cases extended with
    | some longer =>
      -- in place: the room is longer by what was asked for, and its start reads the same
      obtain ⟨rfl, tail, -, honours⟩ := ht
      refine ⟨Nat.add_le_add_right shaped.count_le _, rfl, rfl, rfl, ?_, _, honours, ?_⟩
      · change array.elements.length + size = (array.capacity + additional) * array.elementSize
        rw [shaped.room, hsize, Nat.add_mul]
      · refine elementsOf_congr (List.take_append_of_le_length ?_)
        rw [h.pool.head.length_bytes]
        exact shaped.stop_le shaped.count_le
    | none =>
      -- no room behind: the array moves to another region
      obtain rfl : t = s := ht
      simp only [ends_bind]
      rw [ends_ofPool]
      refine ⟨fun capacity hcapacity => ?_, fun _ _ => h⟩
      refine (relocate_grows shaped h).mono (fun after t ht => ?_) fun _ _ h => h
      obtain ⟨rfl, grows⟩ := ht
      exact ⟨hmoved _ hcapacity, grows⟩
  · rintro _ t rfl
    exact h

/-- An array that has room need not grow. -/
private theorem Grows.refl {rest : List Lease} (shaped : array.Shaped)
    (h : s.Honours (⟨array.elements, bytes⟩ :: rest)) : array.Grows bytes array s rest :=
  ⟨rfl, rfl, rfl, shaped.room, _, h, rfl⟩

/-- **New elements** are counted and filled in an array that has room for them. -/
private theorem Grows.claim {header : List Lease}
    (grows : array.Grows bytes after s (header ++ leases))
    (hheader : header.map Lease.region = array.header.toList)
    (hroom : array.count + n ≤ after.capacity) :
    Ends (after.claim n >>= fun (slot, array) => return (← slot.fill content, array)) s
      (fun found t => found.1.length = n * array.elementSize ∧
        found.2.elementSize = array.elementSize ∧
        found.2.Holds t (elementsOf bytes array.elementSize array.count ++
          elementsOf (content.apply found.1) array.elementSize n) leases)
      (fun _ _ => False) := by
  obtain ⟨bytes', honours, hvalues⟩ := grows.honours
  have hstop : (after.count + n) * after.elementSize ≤ after.elements.length := by
    rw [grows.room, grows.count]
    exact Nat.mul_le_mul_right _ hroom
  let slot : Slot :=
    { region := after.elements, start := after.count * after.elementSize,
      length := n * after.elementSize }
  have hfits : slot.start + slot.length ≤ after.elements.length := by
    change after.count * after.elementSize + n * after.elementSize ≤ _
    rw [← Nat.add_mul]
    exact hstop
  have hread : slot.bytes s.pool = .ok ((bytes'.drop slot.start).take slot.length) :=
    honours.pool.head.bytesIn hfits
  have hlength : bytes'.length = after.elements.length := honours.pool.head.length_bytes
  simp only [GrowArray.claim, ends_bind, ends_discard, ends_pure]
  rw [ends_ofPool]
  refine ⟨fun _ _ => ?_, fun _ hfailure => by cases hread.symm.trans hfailure⟩
  have hfill : Ends (slot.fill content) s _ _ := Slot.fill_leases honours hfits
  refine hfill.mono (fun before t ht => ?_) fun _ _ h => h
  obtain ⟨rfl, hfilled⟩ := ht
  have hbefore : ((bytes'.drop slot.start).take slot.length).length = n * after.elementSize :=
    length_cut (hlength ▸ hfits)
  refine ⟨grows.elementSize ▸ hbefore, grows.elementSize, ?_⟩
  let data := content.apply ((bytes'.drop slot.start).take slot.length)
  have hdata : data.length = n * after.elementSize := (Content.length_apply _ _).trans hbefore
  -- the new elements are written behind the old ones
  have hend : elementsOf (bytes'.overwrite (after.count * after.elementSize) data)
      after.elementSize (after.count + n) =
        elementsOf bytes array.elementSize array.count ++ elementsOf data array.elementSize n := by
    rw [elementsOf_overwrite_end (hlength ▸ hstop) hdata, grows.elementSize, grows.count, hvalues]
  have shaped : Shaped { after with count := after.count + n } :=
    ⟨grows.room, by rw [grows.count]; exact hroom⟩
  have holds := Holds.intro header shaped hfilled (hheader.trans (by rw [grows.header]))
  exact hend ▸ holds

/-- **Appending an element** and writing it. An array that cannot be lengthened stays as it was. -/
theorem push_holds (h : array.Holds s values leases) :
    Ends (array.push >>= fun (slot, array) => return (← slot.fill content, array)) s
      (fun found t => found.2.elementSize = array.elementSize ∧
        found.2.Holds t (values ++ [content.apply found.1]) leases)
      (fun _ t => array.Holds t values leases) := by
  let bytes := s.pool.contents array.elements
  have honours := h.elements
  -- with room or with room made, the element is claimed in the same way
  have hclaimed : ∀ (after : GrowArray) (t : PoolState), array.count + 1 ≤ after.capacity →
      array.Grows bytes after t (array.headerLeases s.pool ++ leases) →
      Ends (after.claim 1 >>= fun (slot, array) => return (← slot.fill content, array)) t
        (fun found u => found.2.elementSize = array.elementSize ∧
          found.2.Holds u (values ++ [content.apply found.1]) leases)
        (fun _ u => array.Holds u values leases) := by
    intro after t hroom grows
    refine (grows.claim (map_region_headerLeases _) hroom).mono (fun found u hu => ?_)
      fun _ _ h => h.elim
    obtain ⟨hlength, hsize, holds⟩ := hu
    refine ⟨hsize, ?_⟩
    have hone : (content.apply found.1).length = array.elementSize := by
      rw [Content.length_apply, hlength, Nat.one_mul]
    rw [elementsOf_one hone, h.fits.values] at holds
    exact holds
  rw [push]
  split
  · next hfull =>
    rw [bind_assoc, ends_bind]
    refine (growBy_grows h.fits.toShaped honours (Nat.one_mul _).symm
      fun capacity hmoved => ?_).mono (fun after t ht => hclaimed after t ht.1 ht.2)
      fun _ t ht => h.frame ht
    -- twice the capacity, or one, is more than the count that filled it
    cases hdoubled : checkedCount (array.capacity * 2) with
    | error failure => rw [hdoubled] at hmoved; cases hmoved
    | ok doubled =>
      rw [hdoubled] at hmoved
      obtain rfl : max 1 doubled = capacity := Except.ok.inj hmoved
      have := eq_of_checkedCount hdoubled
      omega
  · next hroom =>
    have hle := h.fits.count_le
    exact hclaimed array s (by omega) (.refl h.fits.toShaped honours)

/-- **Appending elements** and writing them. An array that cannot be lengthened stays as it was. -/
theorem pushMany_holds (h : array.Holds s values leases) :
    Ends (array.pushMany n >>= fun (slot, array) => return (← slot.fill content, array)) s
      (fun found t => found.2.elementSize = array.elementSize ∧
        found.2.Holds t (values ++ elementsOf (content.apply found.1) array.elementSize n) leases)
      (fun _ t => array.Holds t values leases) := by
  let bytes := s.pool.contents array.elements
  have honours := h.elements
  -- as for one element
  have hclaimed : ∀ (after : GrowArray) (t : PoolState), array.count + n ≤ after.capacity →
      array.Grows bytes after t (array.headerLeases s.pool ++ leases) →
      Ends (after.claim n >>= fun (slot, array) => return (← slot.fill content, array)) t
        (fun found u => found.2.elementSize = array.elementSize ∧
          found.2.Holds u (values ++ elementsOf (content.apply found.1) array.elementSize n) leases)
        (fun _ u => array.Holds u values leases) := by
    intro after t hroom grows
    refine (grows.claim (map_region_headerLeases _) hroom).mono (fun found u hu => ?_)
      fun _ _ h => h.elim
    exact ⟨hu.2.1, h.fits.values ▸ hu.2.2⟩
  rw [pushMany, bind_assoc, ends_bind, ends_ofPool]
  refine ⟨fun needed hneeded => ?_, fun _ _ => h⟩
  obtain rfl := eq_of_checkedCount hneeded
  split
  · next hfull =>
    rw [bind_assoc, ends_bind, ends_ofPool]
    refine ⟨fun size hsize => ?_, fun _ _ => h⟩
    rw [bind_assoc, ends_bind]
    refine (growBy_grows h.fits.toShaped honours (eq_of_byteLength hsize)
      fun capacity hmoved => ?_).mono (fun after t ht => hclaimed after t ht.1 ht.2)
      fun _ t ht => h.frame ht
    have := eq_of_checkedCount hmoved
    have := h.fits.count_le
    omega
  · next hroom => exact hclaimed array s (by omega) (.refl h.fits.toShaped honours)

/-! #### Writing and reading -/

/-- **Writing to an element** changes it and no other, and it does not fail. Past the end nothing is
written. -/
theorem set?_holds {index : Nat} (h : array.Holds s values leases) :
    Ends (onPool (array.set? index content)) s
      (fun _ t => array.Holds t (values.modify index content.apply) leases) (fun _ _ => False) := by
  have honours := h.elements
  have hvalues := h.fits.values
  -- the array reads and writes its own region only, whose bytes get a name here
  generalize hbytes : s.pool.contents array.elements = bytes at honours hvalues
  obtain ⟨store, -, hlocate⟩ := honours.pool.head.locate
  -- the region is checked first, and the lease says that the check succeeds
  have hset : array.set? index content s.pool = (array.slot? index).elim (.ok (none, s.pool))
      fun slot => do
        let pool ← slot.writeContent s.pool content
        return (some (← slot.bytes pool), pool) := by
    rw [set?, hlocate]
    cases array.slot? index <;> rfl
  rw [ends_onPool]
  by_cases hindex : index < array.count
  · let slot : Slot :=
      { region := array.elements, start := index * array.elementSize, length := array.elementSize }
    have hslot : array.slot? index = some slot := if_pos hindex
    have hstop : slot.start + slot.length ≤ array.elements.length := by
      have hnext := h.fits.stop_le (Nat.le_trans hindex h.fits.count_le)
      rwa [Nat.succ_mul] at hnext
    have hread : slot.bytes s.pool = .ok (elementOf bytes array.elementSize index) :=
      honours.pool.head.bytesIn hstop
    have hold : values[index]? = some (elementOf bytes array.elementSize index) := by
      rw [← hvalues, getElem?_elementsOf, if_pos hindex]
    let data := content.apply (elementOf bytes array.elementSize index)
    have hdata : data.length = array.elementSize :=
      (Content.length_apply _ _).trans (length_cut (honours.pool.head.length_bytes ▸ hstop))
    have hfits : slot.start + data.length ≤ array.elements.length := hdata ▸ hstop
    obtain ⟨after, hwrite, hafter⟩ := honours.pool.write hfits
    have hreread : slot.bytes after = .ok _ := hafter.head.bytesIn hstop
    have hwritten : slot.writeContent s.pool content = .ok after :=
      (Slot.writeContent_eq hread).trans hwrite
    -- in the run of elements the write replaces one
    have hmodified : elementsOf (bytes.overwrite slot.start data) array.elementSize array.count =
        values.modify index content.apply := by
      have hwhole : array.count * array.elementSize ≤ bytes.length :=
        hbytes ▸ h.length_contents ▸ Nat.mul_le_mul_right _ h.fits.count_le
      rw [elementsOf_overwrite hwhole hindex hdata, hvalues, List.modify_eq_set, hold]
      rfl
    obtain ⟨found, hrun⟩ : ∃ found, array.set? index content s.pool = .ok (found, after) := by
      rw [hset, hslot, Option.elim_some, hwritten]
      exact ⟨_, bind_eq_ok_iff.mpr ⟨after, rfl, bind_eq_ok_iff.mpr ⟨_, hreread, rfl⟩⟩⟩
    rw [hrun]
    refine ⟨fun _ pool heq => ?_, fun _ heq => by cases heq⟩
    obtain ⟨-, rfl⟩ := Prod.mk.inj (Except.ok.inj heq)
    have hstate : { s with pool := after }.Honours _ :=
      ((Pool.write_leases honours hfits).ok_of (by rw [onPool, hwrite]; rfl))
    exact hmodified ▸ Holds.intro _ h.fits.toShaped hstate (map_region_headerLeases _)
  · have hnone : array.slot? index = none := if_neg hindex
    rw [hset, hnone, Option.elim_none]
    refine ⟨fun _ pool hrun => ?_, fun _ hrun => by cases hrun⟩
    obtain ⟨-, rfl⟩ := Prod.mk.inj (Except.ok.inj hrun)
    -- there is no such element
    have hsame : values.modify index content.apply = values :=
      List.modify_eq_self (by rw [← hvalues, length_elementsOf]; omega)
    rw [hsame]
    exact h

/-- **The bytes of an array** are its elements, one after the other. -/
theorem Holds.bytes_eq (h : array.Holds s values leases) :
    array.bytes s.pool = .ok values.flatten := by
  have hstop := h.fits.stop_le h.fits.count_le
  have hfits : 0 + array.count * array.elementSize ≤ array.elements.length := by omega
  have hwhole : array.count * array.elementSize ≤ (s.pool.contents array.elements).length :=
    h.length_contents ▸ Nat.mul_le_mul_right _ h.fits.count_le
  rw [← h.fits.values, flatten_elementsOf hwhole]
  exact h.elements.pool.head.bytesIn hfits

/-- The elements of an array are those of its bytes. -/
private theorem Holds.elementsOf_flatten (h : array.Holds s values leases) :
    elementsOf values.flatten array.elementSize array.count = values := by
  have hwhole : array.count * array.elementSize ≤ (s.pool.contents array.elements).length :=
    h.length_contents ▸ Nat.mul_le_mul_right _ h.fits.count_le
  rw [← h.fits.values, flatten_elementsOf hwhole, elementsOf_take (Nat.le_refl _)]

/-- **The element at an index**, or nothing past the end. -/
theorem Holds.get?_eq (h : array.Holds s values leases) (index : Nat) :
    array.get? s.pool index = .ok values[index]? := by
  have hvalues := congrArg (·[index]?) h.elementsOf_flatten
  rw [getElem?_elementsOf] at hvalues
  rw [get?, h.bytes_eq, ← hvalues]
  change (if index < array.count then _ else _) = _
  split <;> rfl

/-- **The elements of an array**, in the order in which they were appended. -/
theorem Holds.toList_eq (h : array.Holds s values leases) : array.toList s.pool = .ok values := by
  rw [toList, take, h.bytes_eq, Nat.min_self]
  exact congrArg Except.ok h.elementsOf_flatten

end

end GrowArray

/-! ### Lists -/

namespace PartList

theorem last_mem_parts (list : PartList) : list.last ∈ list.parts :=
  List.mem_append_right _ (List.mem_singleton_self _)

/-- **The shape of a list**: every part has room for as many elements as any other, and its count
stays within. -/
structure Shaped (list : PartList) : Prop where
  room : ∀ part ∈ list.parts, part.elements.length = list.partCapacity * list.elementSize
  count_le : ∀ part ∈ list.parts, part.count ≤ list.partCapacity

/-- The regions in which a list keeps its elements. -/
def regions (list : PartList) : List Region := list.parts.map Part.elements

/-- The elements of one part. -/
def valuesIn (list : PartList) (pool : Pool) (part : Part) : List Bytes :=
  elementsOf (pool.contents part.elements) list.elementSize part.count

/-- **A list has these elements** in a pool. -/
structure Fits (list : PartList) (pool : Pool) (values : List Bytes) : Prop
    extends Shaped list where
  values : list.parts.flatMap (list.valuesIn pool) = values

/-- **A list holds these elements**, beside other leases. -/
structure Holds (list : PartList) (s : PoolState) (values : List Bytes) (leases : List Lease) :
    Prop where
  fits : list.Fits s.pool values
  honours : s.Honours (list.regions.map s.pool.leaseOf ++ leases)

section

variable {list : PartList} {values : List Bytes} {bytes : Bytes} {partCapacity : PartCapacity}
  {elementSize : Nat} {content : Content}

/-- A list has the same elements wherever its regions read the same. -/
theorem Fits.congr {pool pool' : Pool} (h : list.Fits pool values)
    (hcontents : ∀ region ∈ list.regions, pool'.contents region = pool.contents region) :
    list.Fits pool' values := by
  refine ⟨h.toShaped, ?_⟩
  rw [← h.values]
  refine List.flatMap_congr fun part hmem => ?_
  rw [valuesIn, valuesIn, hcontents _ (List.mem_map_of_mem hmem)]

/-- **The frame of a list**: it holds its elements wherever its leases are honoured. -/
theorem Holds.frame {t : PoolState} (h : list.Holds s values leases)
    (honours : t.Honours (list.regions.map s.pool.leaseOf ++ leases)) :
    list.Holds t values leases := by
  obtain ⟨hcontents, hmap⟩ := map_leaseOf_eq honours
  exact ⟨h.fits.congr hcontents, hmap ▸ honours⟩

/-- The leases of the parts before the last one. -/
private def earlierLeases (list : PartList) (pool : Pool) : List Lease :=
  (list.earlier.map Part.elements).map pool.leaseOf

/-- The lease of the last part may stand in front of all others. -/
private theorem regions_perm (list : PartList) (pool : Pool) (leases : List Lease) :
    (list.regions.map pool.leaseOf ++ leases).Perm
      (pool.leaseOf list.last.elements :: (list.earlierLeases pool ++ leases)) := by
  rw [regions, parts, List.map_append, List.map_append, List.append_assoc]
  exact List.perm_middle

/-- What a list holds in its earlier parts does not change while their leases are honoured. -/
private theorem Holds.intro {t : PoolState} (h : list.Holds s values leases)
    (honours : t.Honours (⟨list.last.elements, bytes⟩ :: (list.earlierLeases s.pool ++ leases)))
    {count : Nat} (hcount : count ≤ list.partCapacity) :
    { list with last := { list.last with count } }.Holds t
      (list.earlier.flatMap (list.valuesIn s.pool) ++ elementsOf bytes list.elementSize count)
      leases := by
  have hlast : t.pool.contents list.last.elements = bytes :=
    honours.pool.contents_eq List.mem_cons_self
  obtain ⟨hcontents, hmap⟩ := map_leaseOf_eq (honours.tail)
  obtain ⟨hroom, hlastRoom⟩ := List.forall_mem_append.mp h.fits.room
  obtain ⟨hle, -⟩ := List.forall_mem_append.mp h.fits.count_le
  have hlastLength : list.last.elements.length = list.partCapacity * list.elementSize :=
    hlastRoom _ (List.mem_singleton_self _)
  refine ⟨⟨⟨List.forall_mem_append.mpr ⟨hroom, ?_⟩,
    List.forall_mem_append.mpr ⟨hle, List.forall_mem_singleton.mpr hcount⟩⟩, ?_⟩, ?_⟩
  · exact fun part hmem => List.mem_singleton.mp hmem ▸ hlastLength
  · change (list.earlier ++ [{ list.last with count }]).flatMap (list.valuesIn t.pool) = _
    rw [List.flatMap_append, List.flatMap_singleton, valuesIn, hlast]
    refine congrArg (· ++ _) (List.flatMap_congr fun part hmem => ?_)
    rw [valuesIn, valuesIn, hcontents _ (List.mem_map_of_mem hmem)]
  · refine honours.perm ?_
    have hperm := regions_perm { list with last := { list.last with count } } t.pool leases
    -- the last part reads the new bytes, and the earlier ones what they read before
    have hfirst : t.pool.leaseOf list.last.elements = ⟨list.last.elements, bytes⟩ := by
      rw [Pool.leaseOf, hlast]
    refine List.Perm.trans (.of_eq ?_) hperm.symm
    change _ = t.pool.leaseOf list.last.elements ::
      ((list.earlier.map Part.elements).map t.pool.leaseOf ++ leases)
    rw [hfirst, hmap]
    rfl

/-- The elements of a list are those of its earlier parts and those of the last one. -/
private theorem Fits.values_eq {pool : Pool} (h : list.Fits pool values) :
    values = list.earlier.flatMap (list.valuesIn pool) ++
      elementsOf (pool.contents list.last.elements) list.elementSize list.last.count := by
  rw [← h.values, parts, List.flatMap_append, List.flatMap_singleton]
  rfl

/-! #### Making -/

/-- **A new list** holds nothing. -/
theorem init_holds (h : s.Honours leases) :
    Ends (init partCapacity elementSize) s (fun list t => list.Holds t [] leases)
      (fun _ t => t.Honours leases) := by
  simp only [init, ends_bind, ends_pure]
  rw [ends_ofPool]
  refine ⟨fun size hsize => ?_, fun _ _ => h⟩
  refine (Pool.alloc_leases h).mono (fun region t ht => ?_) fun _ _ h => h
  obtain ⟨hlength, bytes, honours⟩ := ht
  have hroom : region.length = partCapacity * elementSize := hlength.trans (eq_of_byteLength hsize)
  -- the only part is empty, so it holds nothing, whatever the region reads
  have hcontents : t.pool.contents region = bytes := honours.pool.contents_eq List.mem_cons_self
  refine ⟨⟨⟨fun part hmem => ?_, fun part hmem => ?_⟩, rfl⟩, ?_⟩
  · obtain rfl := List.mem_singleton.mp hmem
    exact hroom
  · obtain rfl := List.mem_singleton.mp hmem
    exact Nat.zero_le _
  · change t.Honours (t.pool.leaseOf region :: leases)
    rw [Pool.leaseOf, hcontents]
    exact honours

/-- A new list with a header holds nothing. Nobody uses the header. -/
theorem create_holds (h : s.Honours leases) :
    Ends (create partCapacity elementSize) s (fun list t => list.Holds t [] leases)
      (fun _ t => t.Honours leases) := by
  simp only [create, ends_bind, ends_pure]
  refine (Pool.alloc_leases h).mono (fun header t ht => ?_) fun _ _ h => h
  obtain ⟨-, headerBytes, honours⟩ := ht
  refine (init_holds honours.tail).mono (fun list u hu => ?_) fun _ _ h => h
  exact ⟨⟨⟨hu.fits.room, hu.fits.count_le⟩, hu.fits.values⟩, hu.honours⟩

/-! #### Appending -/

/-- **A new part** changes nothing that the list holds. -/
private theorem appendPart_holds (h : list.Holds s values leases) :
    Ends list.appendPart s
      (fun after t => after.last.count < after.partCapacity ∧ after.Holds t values leases)
      (fun _ t => list.Holds t values leases) := by
  simp only [appendPart, ends_bind, ends_discard, ends_log, ends_pure]
  rw [ends_ofPool]
  refine ⟨fun _ _ => ?_, fun _ _ => h⟩
  refine (Pool.alloc_leases h.honours).mono (fun header t ht => ?_) fun _ _ ht => h.frame ht
  obtain ⟨-, headerBytes, honours⟩ := ht
  rw [ends_ofPool]
  refine ⟨fun size hsize => ?_, fun _ _ => h.frame honours.tail⟩
  refine (Pool.alloc_leases honours.tail).mono (fun region u hu => ⟨list.partCapacity.2, ?_⟩)
    fun _ _ ht => h.frame ht
  obtain ⟨hlength, bytes, hleased⟩ := hu
  have hold := h.frame hleased.tail
  have hregion : u.pool.contents region = bytes := hleased.pool.contents_eq List.mem_cons_self
  -- the header of a part is leased to nobody: its room is lost, but nothing else
  obtain ⟨-, hmap⟩ := map_leaseOf_eq hleased.tail
  have hroom : region.length = list.partCapacity * list.elementSize :=
    hlength.trans (eq_of_byteLength hsize)
  refine ⟨⟨⟨List.forall_mem_append.mpr ⟨h.fits.room, List.forall_mem_singleton.mpr hroom⟩,
    List.forall_mem_append.mpr ⟨h.fits.count_le, List.forall_mem_singleton.mpr (Nat.zero_le _)⟩⟩,
    ?_⟩, ?_⟩
  · change (list.parts ++ [_]).flatMap (list.valuesIn u.pool) = values
    -- a part without elements adds nothing
    rw [List.flatMap_append, hold.fits.values]
    exact List.append_nil values
  · have hfirst : u.pool.leaseOf region = ⟨region, bytes⟩ := by rw [Pool.leaseOf, hregion]
    refine (hleased.perm ?_).setWorld (Nat.le_refl _)
    change (_ :: (_ ++ leases) : List Lease).Perm
      (((list.parts ++ [_]).map Part.elements).map u.pool.leaseOf ++ leases)
    rw [List.map_append, List.map_append, List.append_assoc, ← hmap, ← hfirst]
    exact List.perm_middle.symm

/-- **A new element** is counted and filled in a last part that has room for it. -/
private theorem claim_holds (h : list.Holds s values leases)
    (hroom : list.last.count < list.partCapacity) :
    Ends (list.claim >>= fun (slot, list) => return (← slot.fill content, list)) s
      (fun found t => found.2.Holds t (values ++ [content.apply found.1]) leases)
      (fun _ _ => False) := by
  let slot : Slot :=
    { region := list.last.elements, start := list.last.count * list.elementSize,
      length := list.elementSize }
  have honours := h.honours.perm (regions_perm list s.pool leases)
  have hlast : list.last.elements.length = list.partCapacity * list.elementSize :=
    h.fits.room _ (List.mem_append_right _ (List.mem_singleton_self _))
  have hnext : (list.last.count + 1) * list.elementSize ≤ list.last.elements.length :=
    hlast ▸ Nat.mul_le_mul_right _ hroom
  have hfits : slot.start + slot.length ≤ list.last.elements.length := by
    rwa [Nat.succ_mul] at hnext
  -- only the last part is touched
  generalize hbytes : s.pool.contents list.last.elements = bytes at *
  rw [Pool.leaseOf, hbytes] at honours
  have hlength : bytes.length = list.last.elements.length := honours.pool.head.length_bytes
  have hread : slot.bytes s.pool = .ok ((bytes.drop slot.start).take slot.length) :=
    honours.pool.head.bytesIn hfits
  simp only [PartList.claim, ends_bind, ends_discard, ends_pure]
  rw [ends_ofPool]
  refine ⟨fun _ _ => ?_, fun _ hfailure => by cases hread.symm.trans hfailure⟩
  have hfill : Ends (slot.fill content) s _ _ := Slot.fill_leases honours hfits
  refine hfill.mono (fun before t ht => ?_) fun _ _ h => h
  obtain ⟨rfl, hfilled⟩ := ht
  let data := content.apply ((bytes.drop slot.start).take slot.length)
  have hdata : data.length = 1 * list.elementSize := by
    rw [Content.length_apply, length_cut (hlength ▸ hfits), Nat.one_mul]
  have hend : elementsOf (bytes.overwrite slot.start data) list.elementSize (list.last.count + 1) =
      elementsOf bytes list.elementSize list.last.count ++ [data] := by
    rw [elementsOf_overwrite_end (hlength ▸ hnext) hdata,
      elementsOf_one (hdata.trans (Nat.one_mul _))]
  have holds := h.intro hfilled hroom
  rw [hend, ← List.append_assoc, ← hbytes, ← h.fits.values_eq] at holds
  exact holds

/-- **Appending an element** and writing it. A list that cannot be lengthened stays as it was. -/
theorem push_holds (h : list.Holds s values leases) :
    Ends (list.push >>= fun (slot, list) => return (← slot.fill content, list)) s
      (fun found t => found.2.Holds t (values ++ [content.apply found.1]) leases)
      (fun _ t => list.Holds t values leases) := by
  rw [push]
  split
  · rw [bind_assoc, ends_bind]
    refine (appendPart_holds h).mono (fun after t ht => ?_) fun _ _ h => h
    exact (claim_holds ht.2 ht.1).mono (fun _ _ h => h) fun _ _ h => h.elim
  -- the last part is not full, so counting cannot fail
  · next hfull =>
    have hle := h.fits.count_le _ (List.mem_append_right _ (List.mem_singleton_self _))
    exact (claim_holds h (Nat.lt_of_le_of_ne hle hfull)).mono (fun _ _ h => h) fun _ _ h => h.elim

/-! #### Reading -/

/-- What a part shows are its elements. -/
private theorem Holds.view_eq (h : list.Holds s values leases) {part : Part}
    (hmem : part ∈ list.parts) : ∃ view, list.view s.pool part = .ok view ∧
      view.toList = list.valuesIn s.pool part := by
  have hkeeps : s.pool.Keeps (s.pool.leaseOf part.elements) :=
    h.honours.pool.keeps _ (List.mem_append_left _
      (List.mem_map_of_mem (List.mem_map_of_mem hmem)))
  have hcount : part.count * list.elementSize ≤ part.elements.length :=
    h.fits.room part hmem ▸ Nat.mul_le_mul_right _ (h.fits.count_le part hmem)
  have hfits : 0 + part.count * list.elementSize ≤ part.elements.length := by omega
  refine ⟨_, bind_eq_ok_iff.mpr ⟨_, hkeeps.bytesIn hfits, rfl⟩, ?_⟩
  exact elementsOf_take (Nat.le_refl _)

/-- **The elements of a list**, in the order in which they were appended. -/
theorem Holds.toList_eq (h : list.Holds s values leases) : list.toList s.pool = .ok values := by
  -- one part after the other, for any of the parts of the list
  have hviews : ∀ parts : List Part, (∀ part ∈ parts, part ∈ list.parts) →
      ∃ views, parts.mapM (list.view s.pool) = .ok views ∧
        views.flatMap PartView.toList = parts.flatMap (list.valuesIn s.pool) := by
    intro parts hparts
    induction parts with
    | nil => exact ⟨[], rfl, rfl⟩
    | cons part parts ih =>
      obtain ⟨view, hview, hvalues⟩ := h.view_eq (hparts part List.mem_cons_self)
      obtain ⟨views, hviews, hrest⟩ :=
        ih fun other hmem => hparts other (List.mem_cons_of_mem _ hmem)
      refine ⟨view :: views, ?_, ?_⟩
      · rw [List.mapM_cons]
        exact bind_eq_ok_iff.mpr ⟨view, hview, bind_eq_ok_iff.mpr ⟨views, hviews, rfl⟩⟩
      · rw [List.flatMap_cons, List.flatMap_cons, hvalues, hrest]
  obtain ⟨views, hrun, hvalues⟩ := hviews list.parts fun _ hmem => hmem
  rw [h.fits.values] at hvalues
  exact bind_eq_ok_iff.mpr ⟨views, hrun, congrArg Except.ok hvalues⟩

end

end PartList

end RegionPool
