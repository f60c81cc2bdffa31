import RegionPool.Proofs.Dealings
import RegionPool.Proofs.Freeing

/-!
# Large buffers that only a container knows

A container may keep its elements in a large buffer, and a caller may free large buffers as it
likes. It cannot free that of a container, because it has no region that names it: the number of a
buffer is new when the buffer is handed out, and what a container is handed out goes into the
container and nowhere else. So the buffers of a container last until its pool is reset or destroyed.

* `Region.NewTo`, `Pool.allocWith_newTo` — the number of a large buffer that is handed out was not
  given before;
* `Session.bare`, `Session.enclosed` — the regions that a caller holds itself, and those inside of
  containers;
* `Session.Secluded` — no large buffer has regions of both kinds, and `Secluded.run`;
* `Secluded.not_relinquishes` — only a reset takes a large buffer away from a container.
-/

namespace RegionPool

open PoolM

/-! ### New numbers -/

/-- **A region is new to a world** if it is not large, or the number of its buffer is still to be
given there. -/
def Region.NewTo (region : Region) (w : World) : Prop :=
  ∀ id, region.place = .large id → w.nextBuffer ≤ id.number

/-- What is new to a later world is new to an earlier one. -/
theorem Region.NewTo.earlier {region : Region} {w w' : World} (h : region.NewTo w')
    (le : w.nextBuffer ≤ w'.nextBuffer) : region.NewTo w :=
  fun id hplace => Nat.le_trans le (h id hplace)

namespace Pool

variable {s : PoolState} {size align dataSize : Nat} {packing : Packing}

/-- A region in a block has no number. -/
private theorem allocSmall_newTo :
    Ends (allocSmall size packing) s (fun region _ => region.NewTo s.world) (fun _ _ => True) := by
  -- numbers belong to large buffers, and a block is none
  have hblock : ∀ (pool : Pool) (index offset : Nat),
      (pool.regionAt size (.block index offset)).NewTo s.world := by
    rintro _ _ _ _ ⟨⟩
  have hgrow : Ends (growFor size) s (fun region _ => region.NewTo s.world) fun _ _ => True := by
    simp only [growFor, ends_bind, ends_getPool]
    rw [ends_request]
    refine ⟨fun buffer world _ => ?_, fun _ _ _ => trivial⟩
    split
    · trivial
    · exact hblock _ _ _
  simp only [allocSmall, ends_bind, ends_getPool]
  split
  · exact hblock _ _ _
  · exact hgrow

/-- The buffer of a request has the number that was next. -/
private theorem newTo_of_request {request : Request} {buffer : Buffer} {world : World} {pool : Pool}
    (call : s.world.request s.pool.allocator request = (.ok buffer, world)) :
    (pool.regionAt size (.large buffer.id)).NewTo s.world := by
  rintro _ ⟨⟩
  rw [(World.request_ok call).number]

theorem allocWith_newTo :
    Ends (allocWith packing size) s (fun region _ => region.NewTo s.world) fun _ _ => True := by
  simp only [allocWith, ends_bind, ends_getPool]
  split
  · exact allocSmall_newTo
  · simp only [allocLarge, ends_bind, ends_getPool]
    rw [ends_request]
    refine ⟨fun buffer world call => ?_, fun _ _ _ => trivial⟩
    split
    · exact newTo_of_request call
    · rw [ends_bind]
      exact .of_forall (fun _ _ => newTo_of_request call) fun _ _ => trivial

theorem allocZeroed_newTo :
    Ends (allocZeroed size) s (fun region _ => region.NewTo s.world) fun _ _ => True := by
  simp only [allocZeroed, ends_bind, ends_pure]
  refine allocWith_newTo.mono (fun region t ht => ?_) fun _ _ h => h
  exact .of_forall (fun _ _ => ht) fun _ _ => trivial

theorem allocAlignedTo_newTo :
    Ends (allocAlignedTo size align) s (fun region _ => region.NewTo s.world) fun _ _ => True := by
  unfold allocAlignedTo
  split
  · simp only [ends_bind, ends_getPool, ends_pure]
    rw [ends_request]
    refine ⟨fun buffer world call => ?_, fun _ _ _ => trivial⟩
    exact .of_forall (fun _ _ => newTo_of_request call) fun _ _ => trivial
  · trivial

/-- The bytes of a cleanup record. -/
theorem addCleanup_newTo (fit : s.Fit) : Ends (addCleanup dataSize) s
    (fun ticket _ => ∀ region ∈ ticket.data, region.NewTo s.world) fun _ _ => True := by
  have hrecord : Layout.cleanupRecordSize ≤ Layout.minMaxAlloc := by decide
  simp only [addCleanup, ends_bind, ends_discard]
  refine (allocSmall_ends fit (fit.sized.serves_record hrecord)).mono (fun _ t ht => ?_)
    fun _ _ _ => trivial
  obtain ⟨calls, hroom, -, -⟩ := ht
  split
  · simp only [ends_bind, ends_pure, ends_getPool, ends_setPool, ends_log]
    exact fun region hmem => absurd hmem (Option.not_mem_none region)
  -- the bytes are asked for after the record, so they are new to what was before
  · simp only [ends_map, ends_bind, ends_pure, ends_getPool, ends_setPool, ends_log]
    refine allocWith_newTo.mono (fun region u hu => ?_) fun _ _ h => h
    rintro _ ⟨⟩
    exact hu.earlier hroom.spares.calm.nextBuffer

theorem onDestroy_newTo {tag : String} (fit : s.Fit) : Ends (onDestroy tag) s
    (fun ticket _ => ∀ region ∈ ticket.data, region.NewTo s.world) fun _ _ => True := by
  simp only [onDestroy, ends_bind, ends_pure]
  refine (addCleanup_newTo fit).mono (fun ticket t ht => ?_) fun _ _ h => h
  exact .of_forall (fun _ _ => ht) fun _ _ => trivial

end Pool

/-- **A region comes from others**: it is where one of them is, or new. -/
def Region.ComesFrom (region : Region) (regions : List Region) (w : World) : Prop :=
  (∃ old ∈ regions, old.place = region.place) ∨ region.NewTo w

theorem Region.ComesFrom.of_mem {region : Region} {regions : List Region} {w : World}
    (h : region ∈ regions) : region.ComesFrom regions w := .inl ⟨region, h, rfl⟩

/-! ### Containers -/

section Containers

variable {s t : PoolState} {n elementSize : Nat} {headed : Bool}

/-- What comes of one request after another. -/
private theorem newTo_of_alloc {first second : Nat} {header elements : Region} {u : PoolState}
    (fit : s.Fit) (hfirst : Pool.alloc first s = .ok header t)
    (hsecond : Pool.alloc second t = .ok elements u) :
    header.NewTo s.world ∧ elements.NewTo s.world :=
  ⟨Pool.allocWith_newTo.ok_of hfirst, (Pool.allocWith_newTo.ok_of hsecond).earlier
    ((Pool.alloc_retains fit).ok_of hfirst).1.calm.nextBuffer⟩

theorem GrowArray.Made.newTo {array : GrowArray} {capacity : Nat} (fit : s.Fit)
    (h : Made capacity elementSize s headed array t) :
    ∀ region ∈ array.regions, region.NewTo s.world := by
  cases h with
  | bare run => exact List.forall_mem_singleton.mpr (Pool.allocWith_newTo.ok_of run)
  | headed first run =>
    obtain ⟨hheader, helements⟩ := newTo_of_alloc fit first run
    exact List.forall_mem_cons.mpr ⟨helements, List.forall_mem_singleton.mpr hheader⟩

/-- **An array that becomes longer** keeps its header, and its elements stay where they are or are
moved to a new region. -/
theorem GrowArray.Pushed.comesFrom {array : GrowArray} {pushed : Slot × GrowArray}
    (h : array.Pushed n s pushed t) :
    ∀ region ∈ pushed.2.regions, region.ComesFrom array.regions s.world := by
  obtain ⟨roomier, hroomier, rfl, -⟩ := h
  have hheader : ∀ region ∈ array.header.toList, region.ComesFrom array.regions s.world :=
    fun _ hmem => .of_mem (List.mem_cons_of_mem _ hmem)
  cases hroomier with
  | ample _ => exact fun _ hmem => .of_mem hmem
  -- the longer region has the place of the old one, only the length differs
  | lengthened _ run =>
    refine List.forall_mem_cons.mpr ⟨.inl ⟨array.elements, List.mem_cons_self, ?_⟩, hheader⟩
    rcases Pool.extend_eq_ok run with ⟨hnone, -⟩ | ⟨_, _, -, -, -, -, hsome, -⟩
    · cases hnone
    · obtain rfl := Option.some.inj hsome
      rfl
  | moved _ _ _ _ run _ =>
    exact List.forall_mem_cons.mpr ⟨.inr (Pool.allocWith_newTo.ok_of run), hheader⟩

theorem PartList.Made.newTo {list : PartList} {partCapacity : PartCapacity} (fit : s.Fit)
    (h : Made partCapacity elementSize s headed list t) :
    ∀ region ∈ list.handles, region.NewTo s.world := by
  cases h with
  | bare run => exact List.forall_mem_singleton.mpr (Pool.allocWith_newTo.ok_of run)
  | headed first run =>
    obtain ⟨hheader, helements⟩ := newTo_of_alloc fit first run
    exact List.forall_mem_cons.mpr ⟨hheader, List.forall_mem_singleton.mpr helements⟩

/-- What a list holds when its last part is counted up is what it held. -/
theorem PartList.handles_counted (list : PartList) : list.counted.2.handles = list.handles := by
  simp only [handles, parts, List.flatMap_append]
  rfl

/-- What a list holds when it gets a new part. -/
theorem PartList.mem_handles_started {list : PartList} {last : Part} {region : Region}
    (h : region ∈ ({ list with earlier := list.parts, last } : PartList).handles) :
    region ∈ list.handles ∨ region ∈ last.handles := by
  have hsame : ({ list with earlier := list.parts, last } : PartList).handles =
      list.handles ++ last.handles := by
    simp only [handles, parts, List.flatMap_append, List.flatMap_singleton, List.append_assoc]
  rwa [hsame, List.mem_append] at h

/-- **A list that becomes longer** keeps all of its regions, and may get those of a new part. -/
theorem PartList.Pushed.comesFrom {list : PartList} {pushed : Slot × PartList} (fit : s.Fit)
    (h : list.Pushed s pushed t) :
    ∀ region ∈ pushed.2.handles, region.ComesFrom list.handles s.world := by
  obtain ⟨opened, hopened, rfl, -⟩ := h
  rw [handles_counted]
  cases hopened with
  | ample _ => exact fun _ hmem => .of_mem hmem
  -- a part that is started brings a header and elements, both asked for just now
  | started _ _ first run =>
    obtain ⟨hheader, helements⟩ := newTo_of_alloc fit first run
    intro region hmem
    rcases mem_handles_started hmem with hold | hnew
    · exact .of_mem hold
    · rcases List.mem_cons.mp hnew with rfl | hlast
      · exact .inr helements
      · exact .inr (List.mem_singleton.mp hlast ▸ hheader)

end Containers

/-! ### What a caller holds -/

namespace Session

variable {s after : Session} {slot : Nat} {command : Command} {reply : Reply} {region : Region}
  {id : BufferId} {taken : List Holding} {history : List Command}

/-- **The regions that a caller holds itself**, those of its cleanup records included. -/
def bare (s : Session) : List Region := s.regions ++ s.tickets.filterMap CleanupTicket.data

/-- **The regions inside of containers**, which the caller does not see. -/
def enclosed (s : Session) : List Region :=
  s.arrays.reduceOption.flatMap GrowArray.regions ++ s.lists.flatMap PartList.handles

theorem handles_eq (s : Session) : s.handles = s.bare ++ s.enclosed := by
  simp only [handles, bare, enclosed, List.append_assoc]

theorem mem_enclosed_iff : region ∈ s.enclosed ↔
    (∃ array, some array ∈ s.arrays ∧ region ∈ array.regions) ∨
      ∃ list ∈ s.lists, region ∈ list.handles := by
  simp only [enclosed, List.mem_append, List.mem_flatMap, List.reduceOption_mem_iff]

theorem mem_bare_iff : region ∈ s.bare ↔
    region ∈ s.regions ∨ ∃ ticket ∈ s.tickets, ticket.data = some region := by
  simp only [bare, List.mem_append, List.mem_filterMap]

/-- **What a caller holds is secluded**: every number was given, and no large buffer has a region
inside of a container and another one outside. -/
structure Secluded (s : Session) : Prop where
  given : ∀ region ∈ s.handles, ∀ id, region.place = .large id → id.number < s.world.nextBuffer
  apart : ∀ region ∈ s.bare, ∀ other ∈ s.enclosed, ∀ id, region.place = .large id →
    other.place ≠ .large id

section Bare

/-- What the caller holds itself comes from what it held itself. -/
private def BareFrom (s : Session) (result : Reply × Session) : Prop :=
  ∀ region ∈ result.2.bare, region.ComesFrom s.bare s.world

private theorem bareFrom_same {result : Reply × Session} (regions : result.2.regions = s.regions)
    (tickets : result.2.tickets = s.tickets) : s.BareFrom result := by
  intro region hmem
  rw [bare, regions, tickets] at hmem
  exact .of_mem hmem

/-- One region is new in the table, or takes the place of another. -/
private theorem bareFrom_region {result : Reply × Session} {kept : Region}
    (regions : ∀ region ∈ result.2.regions, region ∈ s.regions ∨ region = kept)
    (tickets : result.2.tickets = s.tickets) (hkept : kept.ComesFrom s.bare s.world) :
    s.BareFrom result := by
  intro region hmem
  rcases mem_bare_iff.mp hmem with hregion | hticket
  · rcases regions region hregion with hold | rfl
    · exact .of_mem (mem_bare_iff.mpr (.inl hold))
    · exact hkept
  · exact .of_mem (mem_bare_iff.mpr (.inr (tickets ▸ hticket)))

private theorem bareFrom_append {result : Reply × Session} {kept : Region}
    (regions : result.2.regions = s.regions ++ [kept]) (tickets : result.2.tickets = s.tickets)
    (hkept : kept.ComesFrom s.bare s.world) : s.BareFrom result := by
  refine bareFrom_region (fun region hmem => ?_) tickets hkept
  rw [regions] at hmem
  exact (List.mem_append.mp hmem).imp_right List.mem_singleton.mp

/-- One ticket is new, and so is its region. -/
private theorem bareFrom_register {result : Reply × Session} {kept : CleanupTicket}
    (regions : result.2.regions = s.regions) (tickets : result.2.tickets = s.tickets ++ [kept])
    (hkept : ∀ region ∈ kept.data, region.NewTo s.world) : s.BareFrom result := by
  intro region hmem
  rcases mem_bare_iff.mp hmem with hregion | ⟨ticket, hticket, hdata⟩
  · exact .of_mem (mem_bare_iff.mpr (.inl (regions ▸ hregion)))
  · rw [tickets] at hticket
    rcases List.mem_append.mp hticket with hold | hnew
    · exact .of_mem (mem_bare_iff.mpr (.inr ⟨ticket, hold, hdata⟩))
    · exact .inr (hkept region (List.mem_singleton.mp hnew ▸ hdata))

/-- **What is allocated** is new. -/
private theorem newTo_of_allocation? {action : PoolM Region} {t u : PoolState}
    (asks : command.allocation? = some (slot, action)) (run : action t = .ok region u) :
    region.NewTo t.world := by
  cases command with
  | alloc _ _ | allocUnaligned _ _ =>
    cases asks
    exact Pool.allocWith_newTo.ok_of run
  | allocZeroed _ _ =>
    cases asks
    exact Pool.allocZeroed_newTo.ok_of run
  | allocAlignedTo _ _ _ =>
    cases asks
    exact Pool.allocAlignedTo_newTo.ok_of run
  | _ => cases asks

/-- **What a record is given** is new. -/
private theorem newTo_of_registration? {action : PoolM CleanupTicket} {ticket : CleanupTicket}
    {t u : PoolState} (fit : t.Fit) (asks : command.registration? = some (slot, action))
    (run : action t = .ok ticket u) : ∀ region ∈ ticket.data, region.NewTo t.world := by
  cases command with
  | addCleanup _ _ =>
    cases asks
    exact (Pool.addCleanup_newTo fit).ok_of run
  | onDestroy _ _ =>
    cases asks
    exact (Pool.onDestroy_newTo fit).ok_of run
  | _ => cases asks

/-- A region that is lengthened stays where it is. -/
private theorem extend_place {additional : Nat} (t : PoolState) :
    Ends (onPool (·.extend region additional)) t
      (fun extended _ => ∀ longer ∈ extended, region.place = longer.place) fun _ _ => True := by
  rw [ends_onPool]
  refine ⟨fun extended after hextend => ?_, fun _ _ => trivial⟩
  rcases Pool.extend_eq_ok hextend with ⟨rfl, -⟩ | ⟨_, _, -, -, -, -, rfl, -⟩
  · exact nofun
  · rintro _ ⟨⟩
    rfl

/-- **Every command** leaves a caller with regions of its own that it had, or that are new. -/
private theorem exec_bareFrom (vouched : s.Vouched) : s.BareFrom (s.exec command) := by
  have htabled := s.exec_tabled command
  generalize s.exec command = result at htabled ⊢
  obtain ⟨reply, after⟩ := result
  cases htabled with
  | aside leaves => exact bareFrom_same leaves.regions leaves.tickets
  | granted asks _ run => exact bareFrom_append rfl rfl (.inr (newTo_of_allocation? asks run))
  | copied held => exact bareFrom_append rfl rfl (.of_mem (mem_bare_iff.mpr held))
  | @registered _ slot _ pool _ _ asks here run =>
    exact bareFrom_register rfl rfl (newTo_of_registration? (vouched.fit slot pool here) asks run)
  -- the region that was lengthened has a new length and its old place
  | @lengthened _ index additional pool region longer t found _ run =>
    have hmem : region ∈ s.bare := mem_bare_iff.mpr (.inl (List.mem_of_getElem? found))
    have hplace := (extend_place ⟨pool, s.world⟩).ok_of run longer rfl
    exact bareFrom_region (fun _ hset => List.mem_or_eq_of_mem_set hset) rfl
      (.inl ⟨region, hmem, hplace⟩)

end Bare

/-! ### Every command -/

/-- What is inside of containers comes from what was inside of them, if one array is new. -/
private theorem enclosed_of_array (array : GrowArray) (lists : after.lists = s.lists)
    (arrays : ∀ entry ∈ after.arrays, entry ∈ s.arrays ∨ entry = some array)
    (hnew : ∀ region ∈ array.regions, region.ComesFrom s.enclosed s.world) :
    ∀ region ∈ after.enclosed, region.ComesFrom s.enclosed s.world := by
  intro region hmem
  rcases mem_enclosed_iff.mp hmem with ⟨other, hother, hof⟩ | ⟨list, hlist, hof⟩
  · rcases arrays _ hother with hold | heq
    · exact .of_mem (mem_enclosed_iff.mpr (.inl ⟨other, hold, hof⟩))
    · exact hnew region (Option.some.inj heq ▸ hof)
  · exact .of_mem (mem_enclosed_iff.mpr (.inr ⟨list, lists ▸ hlist, hof⟩))

/-- So it does if one list is. -/
private theorem enclosed_of_list (list : PartList) (arrays : after.arrays = s.arrays)
    (lists : ∀ other ∈ after.lists, other ∈ s.lists ∨ other = list)
    (hnew : ∀ region ∈ list.handles, region.ComesFrom s.enclosed s.world) :
    ∀ region ∈ after.enclosed, region.ComesFrom s.enclosed s.world := by
  intro region hmem
  rcases mem_enclosed_iff.mp hmem with ⟨array, harray, hof⟩ | ⟨other, hother, hof⟩
  · exact .of_mem (mem_enclosed_iff.mpr (.inl ⟨array, arrays ▸ harray, hof⟩))
  · rcases lists _ hother with hold | rfl
    · exact .of_mem (mem_enclosed_iff.mpr (.inr ⟨other, hold, hof⟩))
    · exact hnew region hof

/-- What comes from one container comes from inside of containers. -/
private theorem comesFrom_enclosed {regions : List Region}
    (hsub : ∀ other ∈ regions, other ∈ s.enclosed) (h : region.ComesFrom regions s.world) :
    region.ComesFrom s.enclosed s.world :=
  h.imp_left fun ⟨old, hold, hplace⟩ => ⟨old, hsub old hold, hplace⟩

/-- **A command leaves the containers alone**, or it leaves the caller's own regions alone, and what
is inside of containers then was so before, or is new. -/
private theorem exec_enclosedFrom (command : Command) (sheltered : s.Sheltered taken) :
    (∀ region ∈ (s.exec command).2.enclosed, region ∈ s.enclosed) ∨
      (∀ region ∈ (s.exec command).2.bare, region ∈ s.bare) ∧
        ∀ region ∈ (s.exec command).2.enclosed, region.ComesFrom s.enclosed s.world := by
  have fit := sheltered.vouched.fit
  have harray : ∀ {array}, some array ∈ s.arrays → ∀ region ∈ array.regions,
      region ∈ s.enclosed := fun found region hmem => mem_enclosed_iff.mpr (.inl ⟨_, found, hmem⟩)
  have hlist : ∀ {list}, list ∈ s.lists → ∀ region ∈ list.handles, region ∈ s.enclosed :=
    fun found region hmem => mem_enclosed_iff.mpr (.inr ⟨_, found, hmem⟩)
  have hdealing := s.exec_dealing command
  generalize (s.exec command).1 = reply at hdealing
  generalize (s.exec command).2 = after at hdealing ⊢
  -- one table is dealt with at a time: the other one, and the regions on their own, stay
  cases hdealing with
  | aside arrays lists _ | reset arrays lists =>
    refine .inl fun region hmem => ?_
    rwa [enclosed, arrays, lists] at hmem
  | arrayDropped arrays lists _ _ =>
    refine .inl fun region hmem => mem_enclosed_iff.mpr ?_
    rcases mem_enclosed_iff.mp hmem with ⟨array, hset, hof⟩ | ⟨list, hold, hof⟩
    · rw [arrays] at hset
      exact .inl ⟨array, (List.mem_or_eq_of_mem_set hset).resolve_right nofun, hof⟩
    · exact .inr ⟨list, lists ▸ hold, hof⟩
  | @arrayMade _ slot _ _ pool array t here run =>
    have hmade := GrowArray.make_made.ok_of run
    exact .inr ⟨fun _ hmem => hmem, enclosed_of_array array rfl
      (fun _ hmem => (List.mem_append.mp hmem).imp_right List.mem_singleton.mp)
      fun region hmem => .inr (hmade.newTo (fit slot pool here) region hmem)⟩
  | @arrayPushed growth slot index _ pool array _ longer t _ _ here found run _ =>
    have hmem := mem_arrays_of_array? found
    have hpushed := sheltered.shaped.pushed found run
    exact .inr ⟨fun _ hmem => hmem, enclosed_of_array longer rfl
      (fun _ hmem => List.mem_or_eq_of_mem_set hmem)
      fun region hof => comesFrom_enclosed (harray hmem) (hpushed.comesFrom region hof)⟩
  | @arrayCopied index array found =>
    have hmem := mem_arrays_of_array? found
    exact .inr ⟨fun _ hmem => hmem, enclosed_of_array array rfl
      (fun _ hmem => (List.mem_append.mp hmem).imp_right List.mem_singleton.mp)
      fun region hof => .of_mem (harray hmem region hof)⟩
  | @listMade _ slot _ _ pool list t here run =>
    have hmade := PartList.make_made.ok_of run
    exact .inr ⟨fun _ hmem => hmem, enclosed_of_list list rfl
      (fun _ hmem => (List.mem_append.mp hmem).imp_right List.mem_singleton.mp)
      fun region hmem => .inr (hmade.newTo (fit slot pool here) region hmem)⟩
  | @listPushed slot index _ pool list _ longer t _ _ here found run _ =>
    have hmem : list ∈ s.lists := List.mem_of_getElem? found
    have hpushed := sheltered.shaped.pushedList found run
    exact .inr ⟨fun _ hmem => hmem, enclosed_of_list longer rfl
      (fun _ hmem => List.mem_or_eq_of_mem_set hmem)
      fun region hof => comesFrom_enclosed (hlist hmem)
        (hpushed.comesFrom (fit slot pool here) region hof)⟩
  | @listCopied index list found =>
    have hmem : list ∈ s.lists := List.mem_of_getElem? found
    exact .inr ⟨fun _ hmem => hmem, enclosed_of_list list rfl
      (fun _ hmem => (List.mem_append.mp hmem).imp_right List.mem_singleton.mp)
      fun region hof => .of_mem (hlist hmem region hof)⟩

namespace Secluded

/-- **Every command** leaves what a caller holds secluded. -/
theorem exec (secluded : s.Secluded) (sheltered : s.Sheltered taken) :
    (s.exec command).2.Secluded := by
  have vouched := sheltered.vouched
  have hstep : s.Step command (s.exec command).1 (s.exec command).2 := exec_step vouched
  have hbare : ∀ region ∈ s.bare, ∀ id, region.place = .large id →
      id.number < s.world.nextBuffer := fun region hmem =>
    secluded.given region (s.handles_eq ▸ List.mem_append_left _ hmem)
  have henclosed : ∀ region ∈ s.enclosed, ∀ id, region.place = .large id →
      id.number < s.world.nextBuffer := fun region hmem =>
    secluded.given region (s.handles_eq ▸ List.mem_append_right _ hmem)
  refine ⟨fun region held id hplace => ?_, fun region hregion other hother id hplace hplace' => ?_⟩
  · by_cases hold : region ∈ s.handles
    · exact Nat.lt_of_lt_of_le (secluded.given region hold id hplace) hstep.nextBuffer_le
    · -- a large region that is new is housed, so its number was given
      obtain ⟨slot, pool, -, here, housed⟩ := houses_of_new vouched held hold
      obtain ⟨home, hsite, -⟩ := housed.site
      rw [hplace] at hsite
      obtain ⟨buffer, hfind, -⟩ := Option.map_eq_some_iff.mp hsite
      obtain ⟨hmem, rfl⟩ := LargeTable.mem_of_find? hfind
      exact ((vouched.step hstep).fit slot pool here).numbered buffer hmem
  · -- of the two regions at most one is new, and then the number of the other was given before
    have hboth : ∀ old ∈ s.bare, old.place = .large id → ∀ old' ∈ s.enclosed,
        old'.place ≠ .large id := fun old hold hold_place old' hold' =>
      secluded.apart old hold old' hold' id hold_place
    rcases exec_enclosedFrom command sheltered with hsame | ⟨hsame, hfrom⟩
    · have hold' := hsame other hother
      rcases exec_bareFrom vouched region hregion with ⟨old, hold, heq⟩ | hnew
      · exact hboth old hold (heq.trans hplace) other hold' hplace'
      · exact Nat.not_lt_of_le (hnew id hplace) (henclosed other hold' id hplace')
    · have hold := hsame region hregion
      rcases hfrom other hother with ⟨old', hold', heq⟩ | hnew
      · exact hboth region hold hplace old' hold' (heq.trans hplace')
      · exact Nat.not_lt_of_le (hnew id hplace') (hbare region hold id hplace)

/-- **Every history** does. -/
theorem run (secluded : s.Secluded) (sheltered : s.Sheltered taken)
    (admitted : s.AdmitsAll history) : (s.run history).2.Secluded := by
  induction history generalizing s taken with
  | nil => exact secluded
  | cons command history ih =>
    obtain ⟨hcommand, hhistory⟩ := admitted
    exact ih (secluded.exec sheltered) (sheltered.exec hcommand) hhistory

/-- A caller who holds nothing yet. -/
theorem ofHeap (heap : Heap) : (Session.ofHeap heap).Secluded := ⟨nofun, nofun⟩

/-- **Only a reset takes a large buffer away from a container.** -/
theorem not_relinquishes (secluded : s.Secluded) (held : region ∈ s.enclosed)
    (hplace : region.place = .large id)
    (unreset : ¬ (command = .reset slot ∧ (s.exec command).1 = .done)) :
    ¬ s.Relinquishes slot id command := by
  rintro (hreset | ⟨index, other, -, hother, hplace', -⟩)
  · exact unreset hreset
  · exact secluded.apart other (mem_bare_iff.mpr (.inl (List.mem_of_getElem? hother))) region held
      id hplace' hplace

end Secluded

end Session

end RegionPool
