import RegionPool.Proofs.Bounds
import RegionPool.Proofs.Elements
import RegionPool.Proofs.InPlace

/-!
# Growth that fails

An array that is full moves, and a list whose last part is full starts a new one. Either can fail
half way: the number of elements is too large, the region is one of an earlier generation or of
another pool, the raw allocator has nothing left. The container does not show it. An array leaves
its pool as it was, too. A list may leave the header of a part that never came to be, but no byte
of its elements changes, and the next element comes right behind the last one.

* `GrowArray.Growth` — the two ways in which an array grows; `Growth.withdraws`;
* `PoolState.Recalls`, `PoolState.Retains.alike` — whatever region it is, it reads as before, if
  only the number of its large buffer was given before;
* `PartList.Appends` — a list has become longer by one element; `PartList.push_appends`;
* `Session.run_grows` — the containers of a caller, after every history.
-/

namespace RegionPool

open PoolM

/-! ### Arrays -/

namespace GrowArray

/-- **How an array grows**: by one element, or by several at once. -/
inductive Growth where
  | one
  | many (n : Nat)

/-- What is done to the array. -/
def Growth.push : Growth → GrowArray → PoolM (Slot × GrowArray)
  | .one, array => array.push
  | .many n, array => array.pushMany n

/-- What is done to it in place. -/
def Growth.inPlace : Growth → InPlace GrowArray Slot
  | .one => pushInPlace
  | .many n => pushManyInPlace n

variable {s : PoolState} {array : GrowArray} {capacity additional size n : Nat}
  {moved : Except Failure Nat}

/-- **Moving the elements** fails before it begins, or not at all. -/
theorem relocate_withdraws (fit : s.Fit) (shaped : array.Shaped)
    (housed : s.pool.Houses array.elements) (h : array.count ≤ capacity) :
    Withdraws (array.relocate capacity) s := by
  refine .after fun size hsize => .before (Pool.alloc_withdraws fit) fun elements t ht => ?_
  obtain ⟨retains, hlength, hnew⟩ := ht
  -- the elements fit into the old region and into the new one, so they can be copied
  have hroom : elements.length = capacity * array.elementSize :=
    hlength.trans (eq_of_byteLength hsize)
  obtain ⟨after, hcopy⟩ :=
    (retains.houses housed).exists_copy hnew (inside_of_relocate shaped hroom h)
  rw [Succeeds, ends_bind, ends_onPool]
  refine ⟨fun _ _ _ => trivial, fun failure hrun => ?_⟩
  rw [hcopy] at hrun
  cases hrun

/-- **Making room** for more elements. -/
theorem growBy_withdraws (fit : s.Fit) (shaped : array.Shaped)
    (guards : s.pool.Guards array.elements)
    (hmoved : ∀ capacity, moved = .ok capacity → array.count + additional ≤ capacity) :
    Withdraws (array.growBy additional size moved) s := by
  rw [Withdraws, growBy, ends_bind, ends_onPool]
  refine ⟨fun extended pool hrun => ?_, fun _ _ => rfl⟩
  cases extended with
  | some longer => trivial
  | none =>
    -- a region that cannot be lengthened leaves the pool alone
    obtain rfl := Pool.eq_of_extend_none hrun
    exact Withdraws.after fun capacity hok =>
      relocate_withdraws fit shaped (guards (Pool.knows_of_extend hrun))
        (Nat.le_of_add_right_le (hmoved capacity hok))

/-- Counting more elements changes no pool. -/
private theorem claim_withdraws : Withdraws (array.claim n) s := by
  simp only [Withdraws, claim, ends_bind, ends_discard, ends_pure]
  exact ends_ofPool.mpr ⟨fun _ _ => trivial, fun _ _ => rfl⟩

/-- Room is made, and then the elements are counted. -/
private theorem grown_withdraws (fit : s.Fit) (shaped : array.Shaped)
    (guards : s.pool.Guards array.elements) (hsize : size = additional * array.elementSize)
    (hlawful : Lawful moved)
    (hmoved : ∀ capacity, moved = .ok capacity → array.count + additional ≤ capacity) :
    Withdraws (array.growBy additional size moved >>= fun after => after.claim additional) s := by
  refine .before ((growBy_abides fit shaped guards hsize hlawful hmoved).and
    (growBy_withdraws fit shaped guards hmoved) |>.mono (fun _ _ ht => ht.1.2)
      fun _ _ ht => ht.2) fun after t ht => ?_
  obtain ⟨hshaped, hroom, housed⟩ := ht
  exact claim_succeeds housed (inside_of_claim hshaped hroom)

/-- **An array that does not grow** leaves its pool as it was. -/
theorem Growth.withdraws (growth : Growth) (fit : s.Fit) (shaped : array.Shaped)
    (guards : s.pool.Guards array.elements) : Withdraws (growth.push array) s := by
  have hcount := shaped.count_le
  cases growth with
  | one =>
    show Withdraws array.push s
    rw [GrowArray.push]
    split
    -- an element more makes the capacity double, and a full array has at least one slot
    · refine grown_withdraws fit shaped guards (Nat.one_mul _).symm (checkedCount_lawful _).map
        fun capacity hok => ?_
      have := succ_le_of_doubled hok
      omega
    · exact claim_withdraws
  | many n =>
    refine .after fun needed hneeded => ?_
    have hsum := eq_of_checkedCount hneeded
    split
    · refine .after fun size hsize => grown_withdraws fit shaped guards (eq_of_byteLength hsize)
        (checkedCount_lawful _) fun capacity hok => ?_
      have := eq_of_checkedCount hok
      omega
    · exact claim_withdraws

/-- What makes it fail is a refusal. -/
theorem Growth.abides (growth : Growth) (fit : s.Fit) (shaped : array.Shaped)
    (guards : s.pool.Guards array.elements) :
    Abides (growth.push array) s fun pushed _ => pushed.2.Shaped := by
  cases growth with
  | one => exact (push_abides fit shaped guards).mono fun _ _ _ ht => ht.1
  | many n => exact (pushMany_abides fit shaped guards).mono fun _ _ _ ht => ht.1

/-- Growing in place writes all or nothing. -/
theorem Growth.commits (growth : Growth) (fit : s.Fit) (shaped : array.Shaped)
    (guards : s.pool.Guards array.elements) :
    InPlace.Commits growth.inPlace (growth.push array) id s array := by
  cases growth with
  | one => exact pushInPlace_commits fit shaped guards
  | many n => exact pushManyInPlace_commits fit shaped guards

end GrowArray

/-! ### Reading after a request -/

/-- **Two pools read a region alike**, with the same bytes or the same failure. -/
def Pool.Alike (pool after : Pool) (region : Region) : Prop :=
  ∀ start length, start + length ≤ region.length →
    after.bytesIn region start length = pool.bytesIn region start length

/-- **A pool recalls a region**: it guards it, and if the region is large, its number is none that
is still to be given. -/
structure PoolState.Recalls (s : PoolState) (region : Region) : Prop where
  guards : s.pool.Guards region
  given : region.pool = s.pool.id → ∀ id, region.place = .large id →
    id.number < s.world.nextBuffer

/-- A region that does not resolve cannot be read. -/
theorem Pool.bytesIn_of_resolve {pool : Pool} {region : Region} {error : PoolError}
    {start length : Nat} (h : pool.resolve region = .error error) :
    pool.bytesIn region start length = .error (.refused error) := by
  rw [bytesIn, locate, resolved, h]
  rfl

namespace PoolState.Retains

variable {s t : PoolState} {region : Region} {error : PoolError}

/-- **A region that does not resolve** does not come to do so, and for the same reason. -/
theorem resolve_eq_error (h : s.Retains t)
    (given : region.pool = s.pool.id → ∀ id, region.place = .large id →
      id.number < s.world.nextBuffer)
    (hresolve : s.pool.resolve region = .error error) :
    t.pool.resolve region = .error error := by
  rw [Pool.resolve] at hresolve ⊢
  rw [h.traits.id, h.traits.generation]
  split
  · next hforeign => rwa [if_pos hforeign] at hresolve
  · next howner =>
    rw [if_neg howner] at hresolve
    split
    · next hstale => rwa [if_pos hstale] at hresolve
    · next hcurrent =>
      rw [if_neg hcurrent] at hresolve
      cases hplace : region.place with
      | block index offset =>
        rw [hplace] at hresolve
        cases hresolve
      | large id =>
        -- nothing is found under its number before, so nothing is found after
        have hfind := h.large id (given (not_not.mp howner) id hplace)
        rw [hplace] at hresolve
        cases hbefore : s.pool.large.position? id with
        | some index => simp only [hbefore, reduceCtorEq] at hresolve
        | none =>
          cases hafter : t.pool.large.position? id with
          | none => simpa only [hbefore, hafter] using hresolve
          | some index =>
            obtain ⟨buffer, hbuffer, -⟩ := LargeTable.find?_isSome_of_position? hafter
            obtain ⟨index', hposition, -⟩ :=
              LargeTable.find?_eq_some_iff.mp (hfind.symm.trans hbuffer)
            rw [hbefore] at hposition
            cases hposition

/-- **Every region reads as before**, whether it resolves or not. -/
theorem alike (h : s.Retains t) (fit : s.Fit) (recalls : s.Recalls region) :
    s.pool.Alike t.pool region := by
  intro start length inside
  cases hresolve : s.pool.resolve region with
  | ok found => exact h.bytesIn_eq fit (recalls.guards ⟨found, hresolve⟩) inside
  | error error =>
    rw [Pool.bytesIn_of_resolve hresolve,
      Pool.bytesIn_of_resolve (h.resolve_eq_error recalls.given hresolve)]

end PoolState.Retains

/-! ### Lists -/

namespace PartList

/-- **A list has become longer by one element.** Its new element is in its last part, right behind
the others, or the first one of a new part behind that. All other parts and elements are what they
were, in the same order. -/
structure Appends (list : PartList) (pool : Pool) (slot : Slot) (longer : PartList)
    (after : Pool) : Prop where
  header : longer.header = list.header
  partCapacity : longer.partCapacity = list.partCapacity
  elementSize : longer.elementSize = list.elementSize
  place :
    (list.last.count < list.partCapacity ∧
      longer.parts = list.earlier ++ [{ list.last with count := list.last.count + 1 }] ∧
      slot = ⟨list.last.elements, list.last.count * list.elementSize, list.elementSize⟩) ∨
    (list.last.count = list.partCapacity ∧ ∃ part : Part, part.count = 1 ∧
      longer.parts = list.parts ++ [part] ∧ slot = ⟨part.elements, 0, list.elementSize⟩)
  contents : ∃ bytes, slot.bytes after = .ok bytes ∧
    longer.toList after = (· ++ [bytes]) <$> list.toList pool

variable {s t : PoolState} {list : PartList} {pool after : Pool} {part : Part}

/-- A part reads as before if its region does. -/
private theorem view_eq (shaped : list.Shaped) (hmem : part ∈ list.parts)
    (alike : pool.Alike after part.elements) : list.view after part = list.view pool part := by
  have inside : 0 + part.count * list.elementSize ≤ part.elements.length := by
    rw [Nat.zero_add, shaped.room part hmem]
    exact Nat.mul_le_mul_right _ (shaped.count_le part hmem)
  rw [view, view, Slot.bytes, Slot.bytes, alike _ _ inside]

/-- **A list reads as before** if the regions of its parts do. -/
theorem views_eq (shaped : list.Shaped)
    (alike : ∀ part ∈ list.parts, pool.Alike after part.elements) :
    list.views after = list.views pool := by
  -- one part after the other, for any of the parts of the list
  have hparts : ∀ parts : List Part, (∀ part ∈ parts, part ∈ list.parts) →
      parts.mapM (list.view after) = parts.mapM (list.view pool) := by
    intro parts hsub
    induction parts with
    | nil => rfl
    | cons part parts ih =>
      have hmem := hsub part List.mem_cons_self
      rw [List.mapM_cons, List.mapM_cons, view_eq shaped hmem (alike part hmem),
        ih fun other hother => hsub other (List.mem_cons_of_mem _ hother)]
  exact hparts list.parts fun _ hmem => hmem

/-- The elements of the parts before the last one, and those of the last one. -/
private theorem toList_of_view (list : PartList) {parts : List Part} {view : PartView}
    (hparts : list.parts = parts ++ [part]) (hview : list.view pool part = .ok view) :
    list.toList pool =
      (fun views => views.flatMap PartView.toList ++ view.toList) <$>
        parts.mapM (list.view pool) := by
  rw [toList, views, hparts, List.mapM_append]
  -- if an earlier part cannot be read, neither side can
  cases parts.mapM (list.view pool) with
  | error failure => rfl
  | ok views =>
    simp only [List.mapM_cons, List.mapM_nil, hview]
    show Except.ok ((views ++ [view]).flatMap PartView.toList) = _
    rw [List.flatMap_append, List.flatMap_singleton]
    rfl

/-- **What a part shows** that is housed: the elements its buffer holds there. -/
private theorem exists_view (list : PartList) (part : Part) {buffer : Buffer}
    (housed : pool.Houses part.elements)
    (hbuffer : pool.bufferAt? part.elements.place = some buffer)
    (inside : part.count * list.elementSize ≤ part.elements.length) :
    ∃ view, list.view pool part = .ok view ∧ view.toList =
      elementsOf (buffer.bytes.drop part.elements.place.offset) list.elementSize part.count := by
  have hread := housed.bytesIn_eq hbuffer
    (show 0 + part.count * list.elementSize ≤ _ from (Nat.zero_add _).symm ▸ inside)
  exact ⟨_, bind_eq_ok_iff.mpr ⟨_, hread, rfl⟩, elementsOf_take (Nat.le_refl _)⟩

/-- **Counting one more element** appends it. -/
private theorem claim_appends (shaped : list.Shaped) (guards : s.pool.Guards list.last.elements)
    (room : list.last.count < list.partCapacity) :
    Ends list.claim s (fun claimed t => t = s ∧ list.Appends s.pool claimed.1 claimed.2 s.pool)
      fun _ t => t = s := by
  have inside := inside_of_claim shaped room
  simp only [claim, ends_bind, ends_discard, ends_pure]
  rw [ends_ofPool]
  refine ⟨fun bytes hbytes => ⟨rfl, rfl, rfl, rfl, .inl ⟨room, rfl, rfl⟩, bytes, hbytes, ?_⟩,
    fun _ _ => rfl⟩
  obtain ⟨found, hlocate, -⟩ := bind_eq_ok_iff.mp hbytes
  have housed := (guards.of_locate hlocate).1
  obtain ⟨buffer, hbuffer, -⟩ := housed.exists_buffer
  -- the slot is read behind the elements that are there already
  have hslot : (buffer.bytes.drop (list.last.elements.place.offset +
      list.last.count * list.elementSize)).take list.elementSize = bytes :=
    Except.ok.inj ((housed.bytesIn_eq hbuffer inside).symm.trans hbytes)
  have hone : elementsOf (buffer.bytes.drop (list.last.elements.place.offset +
      list.last.count * list.elementSize)) list.elementSize 1 = [bytes] := by
    rw [← elementsOf_take (Nat.le_of_eq (Nat.one_mul list.elementSize)), hslot]
    exact elementsOf_one (Slot.length_of_bytes hbytes)
  obtain ⟨view, hview, hvalues⟩ :=
    exists_view list list.last housed hbuffer (Nat.le_of_add_right_le inside)
  let last : Part := { list.last with count := list.last.count + 1 }
  obtain ⟨view', hview', hvalues'⟩ :=
    exists_view list last housed hbuffer (by rwa [Nat.succ_mul])
  have happended : view'.toList = view.toList ++ [bytes] := by
    rw [hvalues', hvalues, elementsOf_add, List.drop_drop, hone]
  rw [toList_of_view list rfl hview, toList_of_view { list with last } rfl hview', happended,
    Functor.map_map]
  refine congrArg (· <$> list.earlier.mapM (list.view s.pool)) (funext fun views => ?_)
  exact (List.append_assoc _ _ _).symm

/-- **Starting a new part** reserves a header first, but no byte of the pool changes. -/
theorem appendPart_retains (fit : s.Fit) : Ends list.appendPart s
    (fun longer t => s.Retains t ∧ ∃ part : Part, part.count = 0 ∧
      longer = { list with earlier := list.parts, last := part } ∧ t.pool.Houses part.elements)
    fun _ t => s.Retains t := by
  have here : s.Retains s := .of_eq (.refl fit) rfl
  simp only [appendPart, ends_bind, ends_discard, ends_log, ends_pure]
  refine ends_ofPool.mpr ⟨fun _ _ => ?_, fun _ _ => here⟩
  refine (Pool.alloc_retains fit).mono (fun header t ht => ?_) fun _ _ ht => ht.1
  refine ends_ofPool.mpr ⟨fun size _ => ?_, fun _ _ => ht.1⟩
  refine (Pool.alloc_retains ht.1.fit).mono (fun elements u hu => ?_)
    fun _ _ hu => ht.1.trans hu.1
  obtain ⟨retains, -, housed⟩ := hu
  let longer : PartList :=
    { list with earlier := list.parts, last := { header := some header, elements, count := 0 } }
  -- the log is told of the new part last, and that changes no byte
  have hquiet : (Event.logged (.listPartAppended longer.partCount)).ran? = none := rfl
  have hlogged := PoolState.Spares.ofCalm retains.fit (.log u.world hquiet)
  exact ⟨(ht.1.trans retains).trans (.of_eq hlogged rfl), _, rfl, rfl, hlogged.houses housed⟩

/-- The first element of a new part comes right behind the last one of the part before. -/
private theorem Appends.of_full {slot : Slot} {longer : PartList}
    (alike : ∀ part ∈ list.parts, pool.Alike after part.elements) (shaped : list.Shaped)
    (hfull : list.last.count = list.partCapacity) (hcount : part.count = 0)
    (housed : after.Houses part.elements)
    (h : { list with earlier := list.parts, last := part }.Appends after slot longer after) :
    list.Appends pool slot longer after := by
  have hroom := list.room_of_empty hcount
  obtain ⟨-, hparts, hslot⟩ := h.place.resolve_right fun hno => Nat.ne_of_lt hroom hno.1
  have hnew : longer.parts = list.parts ++ [{ part with count := 1 }] := by
    rw [hparts, hcount]
  have hstart : slot = ⟨part.elements, 0, list.elementSize⟩ := by
    rw [hslot, hcount, Nat.zero_mul]
  obtain ⟨bytes, hbytes, htoList⟩ := h.contents
  refine ⟨h.header, h.partCapacity, h.elementSize,
    .inr ⟨hfull, { part with count := 1 }, rfl, hnew, hstart⟩, bytes, hbytes, ?_⟩
  -- the new part is empty, so it adds nothing to what the others show
  obtain ⟨buffer, hbuffer, -⟩ := housed.exists_buffer
  obtain ⟨view, hview, hvalues⟩ := exists_view list part housed hbuffer
    (by rw [hcount, Nat.zero_mul]; exact Nat.zero_le _)
  rw [hcount] at hvalues
  have hempty : view.toList = [] := hvalues
  rw [htoList, toList_of_view { list with earlier := list.parts, last := part } rfl hview, hempty]
  simp only [List.append_nil]
  show _ <$> _ <$> list.views after = _
  rw [views_eq shaped alike]
  rfl

/-- **Appending an element** appends it, or leaves the elements as they are. -/
theorem push_appends (fit : s.Fit) (shaped : list.Shaped)
    (recalls : ∀ part ∈ list.parts, s.Recalls part.elements) :
    Ends list.push s (fun pushed t => list.Appends s.pool pushed.1 pushed.2 t.pool)
      fun _ t => list.views t.pool = list.views s.pool := by
  have hlast := list.last_mem_parts
  have guards := (recalls _ hlast).guards
  rw [push]
  split
  -- a full list gets a new part, and its old parts read as before, whether that fails or not
  · next hfull =>
    rw [ends_bind]
    refine ((appendPart_retains fit).and (appendPart_abides fit shaped guards)).mono
      (fun longer t ht => ?_) fun _ t ht => ?_
    · obtain ⟨⟨retains, part, hcount, rfl, housed⟩, -, hshaped, -, -⟩ := ht
      have alike : ∀ part ∈ list.parts, s.pool.Alike t.pool part.elements :=
        fun part hmem => retains.alike fit (recalls part hmem)
      have hroom := list.room_of_empty hcount
      refine (claim_appends hshaped housed.guards hroom).mono (fun claimed u hclaimed => ?_)
        fun _ u hu => ?_
      · obtain ⟨rfl, happends⟩ := hclaimed
        exact .of_full alike shaped hfull hcount housed happends
      · rw [hu]
        exact views_eq shaped alike
    · exact views_eq shaped fun part hmem => ht.1.alike fit (recalls part hmem)
  -- the last part has room, so the element is only counted
  · next hne =>
    have hroom : list.last.count < list.partCapacity :=
      Nat.lt_of_le_of_ne (shaped.count_le _ hlast) hne
    refine (claim_appends shaped guards hroom).mono (fun claimed t ht => ?_) fun _ t ht => ?_
    · obtain ⟨rfl, happends⟩ := ht
      exact happends
    · rw [ht]

end PartList

/-! ### After every history -/

namespace Session

variable {s : Session} {slot place : Nat} {pool : Pool} {region : Region} {failure : Failure}
  {t : PoolState} {content : Content} {taken : List Holding}

/-- **What was issued** is recalled by every pool. -/
theorem Issued.recalls (issued : s.Issued region) (vouched : s.Vouched) (retired : s.Retired)
    (here : s.pool? slot = some pool) : PoolState.Recalls ⟨pool, s.world⟩ region := by
  refine ⟨issued.guards vouched retired here, fun howner id hplace => ?_⟩
  obtain ⟨issuer, home, count, tracks⟩ := issued
  obtain rfl : issuer = slot := vouched.slot_eq here (howner.symm.trans tracks.owner)
  -- the number is below the next one, whether the buffer is held or was freed
  rcases tracks.site pool here with hsite | ⟨other, hother, hfreed⟩
  · rw [hplace] at hsite
    obtain ⟨buffer, hfind, -⟩ := Option.map_eq_some_iff.mp hsite
    obtain ⟨hmem, rfl⟩ := LargeTable.mem_of_find? hfind
    exact (vouched.fit issuer pool here).numbered buffer hmem
  · obtain rfl := Place.large.inj (hplace.symm.trans hother)
    exact (retired id hfreed).1

/-- A caller whose array does not grow keeps it, and is told why. -/
private theorem pushArray_failed {push : GrowArray → PoolM (Slot × GrowArray)} {array : GrowArray}
    (here : s.pool? slot = some pool) (harray : s.array? place = some array)
    (run : push array ⟨pool, s.world⟩ = .error failure t) :
    s.pushArray slot place push content = (.failed failure, s.settle slot t) := by
  simp only [pushArray, perform, harray, here, withFound, bind_of_error run]

/-- So does a caller whose list does not grow. -/
private theorem pushList_failed {list : PartList} (here : s.pool? slot = some pool)
    (hlist : s.list? place = some list) (run : list.push ⟨pool, s.world⟩ = .error failure t) :
    s.pushList slot place content = (.failed failure, s.settle slot t) := by
  simp only [pushList, perform, hlist, here, withFound, bind_of_error run]

/-- **The containers of a caller grow wholly or not at all**, in the pool in a slot, which need not
be the one they live in. In place they become what is handed out; if they do not grow, nothing was
written to them, and the command that was to write the new element tells the reason. An array leaves
the pool as it was. A list reads as before, and whatever the caller goes on to do, an element that
is appended later comes right behind the last one. -/
structure GrowsWhole (s : Session) (slot : Nat) (pool : Pool) : Prop where
  arrays : ∀ place array, ∀ growth : GrowArray.Growth, s.array? place = some array →
    InPlace.Commits growth.inPlace (growth.push array) id ⟨pool, s.world⟩ array ∧
    ∀ failure t after, growth.inPlace (⟨pool, s.world⟩, array) = .error failure (t, after) →
      after = array ∧ t.pool = pool ∧ failure.IsRefusal ∧
        ∀ content, s.pushArray slot place growth.push content =
          (.failed failure, s.settle slot t)
  lists : ∀ place list, s.list? place = some list →
    InPlace.Commits PartList.pushInPlace list.push id ⟨pool, s.world⟩ list ∧
    ∀ failure t after, PartList.pushInPlace (⟨pool, s.world⟩, list) = .error failure (t, after) →
      after = list ∧ list.views t.pool = list.views pool ∧ failure.IsRefusal ∧
        ∀ content, s.pushList slot place content = (.failed failure, s.settle slot t)
  resumes : ∀ place list failure t after, s.list? place = some list →
    PartList.pushInPlace (⟨pool, s.world⟩, list) = .error failure (t, after) →
    ∀ history later other there, (s.settle slot t).AdmitsAll history →
      later = ((s.settle slot t).run history).2 → later.list? place = some list →
      later.pool? other = some there → ∀ appended u longer,
        PartList.pushInPlace (⟨there, later.world⟩, list) = .ok appended (u, longer) →
          list.Appends there appended longer u.pool

/-- **What comes of appending to a list** that a caller holds. -/
private theorem Sheltered.pushList_ends {list : PartList} (sheltered : s.Sheltered taken)
    (here : s.pool? slot = some pool) (hlist : s.list? place = some list) :
    InPlace.Commits PartList.pushInPlace list.push id ⟨pool, s.world⟩ list ∧
      Ends list.push ⟨pool, s.world⟩ (fun pushed t => list.Appends pool pushed.1 pushed.2 t.pool)
        fun failure t => list.views t.pool = list.views pool ∧ failure.IsRefusal := by
  have fit := sheltered.guarded.fit slot pool here
  have shaped := sheltered.shaped.lists list (List.mem_of_getElem? hlist)
  have recalls : ∀ part ∈ list.parts, PoolState.Recalls ⟨pool, s.world⟩ part.elements := by
    intro part hmem
    have held : part.elements ∈ s.handles := handles_of_list? hlist _
      (List.mem_append_right _ (List.mem_flatMap.mpr ⟨part, hmem, List.mem_cons_self⟩))
    exact (sheltered.issued _ held).recalls sheltered.vouched sheltered.retired here
  -- a list only looks at its last part before it makes room
  have guards := (recalls _ (List.mem_append_right _ (List.mem_singleton_self _))).guards
  refine ⟨PartList.pushInPlace_commits fit shaped guards, ?_⟩
  exact ((PartList.push_appends fit shaped recalls).and
    (PartList.push_abides fit shaped guards).ends).mono (fun _ _ ht => ht.1) fun _ _ ht => ht

/-- **A caller who is sheltered** has containers that grow wholly or not at all. -/
theorem Sheltered.growsWhole (sheltered : s.Sheltered taken) (here : s.pool? slot = some pool) :
    s.GrowsWhole slot pool := by
  refine ⟨fun place array growth harray => ?_, fun place list hlist => ?_, ?_⟩
  · have hmem : some array ∈ s.arrays := List.mem_of_getElem? (Option.join_eq_some_iff.mp harray)
    have fit := sheltered.guarded.fit slot pool here
    have shaped := sheltered.shaped.arrays array hmem
    have guards := sheltered.guarded.guards slot pool here _
      (handles_of_array? harray _ List.mem_cons_self)
    have hcommits := growth.commits fit shaped guards
    refine ⟨hcommits, fun failure t after run => ?_⟩
    obtain ⟨rfl, hfailed⟩ := hcommits.eq_error run
    exact ⟨rfl, (growth.withdraws fit shaped guards).fail_of hfailed,
      (growth.abides fit shaped guards).ends.fail_of hfailed,
      fun content => pushArray_failed here harray hfailed⟩
  · obtain ⟨hcommits, hends⟩ := sheltered.pushList_ends here hlist
    refine ⟨hcommits, fun failure t after run => ?_⟩
    obtain ⟨rfl, hfailed⟩ := hcommits.eq_error run
    obtain ⟨hviews, hrefusal⟩ := hends.fail_of hfailed
    exact ⟨rfl, hviews, hrefusal, fun content => pushList_failed here hlist hfailed⟩
  · intro place list failure t after hlist run history later other there admitted hlater hlist'
      hthere appended u longer hrun
    -- the caller who was refused is sheltered as well, and stays so
    obtain ⟨-, hfailed⟩ := (sheltered.pushList_ends here hlist).1.eq_error run
    have hcommand : s.Admits (.pushList slot place (.fill 0)) := trivial
    have hsheltered := sheltered.exec hcommand
    have heq : s.exec (.pushList slot place (.fill 0)) = (.failed failure, s.settle slot t) :=
      pushList_failed here hlist hfailed
    rw [heq] at hsheltered
    obtain ⟨hcommits, hends⟩ :=
      Sheltered.pushList_ends (hlater ▸ hsheltered.run admitted) hthere hlist'
    obtain ⟨pushed, hpushed, heq'⟩ := hcommits.eq_ok hrun
    obtain rfl : pushed = (appended, longer) := heq'
    exact hends.ok_of hpushed

/-- **After every history**, containers grow wholly or not at all. -/
theorem run_grows (heap : Heap) (history : List Command)
    (admitted : (Session.ofHeap heap).AdmitsAll history)
    (here : ((Session.ofHeap heap).run history).2.pool? slot = some pool) :
    ((Session.ofHeap heap).run history).2.GrowsWhole slot pool :=
  ((Sheltered.ofHeap heap).run admitted).growsWhole here

/-- A block that is nearly full, with an array and a list in it that are full, and no other block to
be had. -/
def crampedHistory : List Command :=
  [.addAllocator (.failing 1 {}), .createPool { size := 256 } (some ⟨0⟩), .initArray 0 2 16,
    .initList 0 ⟨2, Nat.two_pos⟩ 16, .alloc 0 88, .pushManyArray 0 0 2 (.fill 1),
    .pushList 0 0 (.fill 2), .pushList 0 0 (.fill 3)]

/-- Neither of them grows. -/
theorem run_grows_crampedHistory : (Session.ofHeap roomyHeap).AdmitsAll crampedHistory ∧
    (∀ command ∈ [Command.pushArray 0 0 (.fill 4), .pushList 0 0 (.fill 5)],
      (((Session.ofHeap roomyHeap).run crampedHistory).2.exec command).1 =
        .failed (.refused (.alloc (.outOfMemory 256 16)))) ∧
    ∃ pool, ((Session.ofHeap roomyHeap).run crampedHistory).2.pool? 0 = some pool ∧
      ((Session.ofHeap roomyHeap).run crampedHistory).2.GrowsWhole 0 pool := by
  have admitted : (Session.ofHeap roomyHeap).AdmitsAll crampedHistory := by decide +kernel
  have refused : ∀ command ∈ [Command.pushArray 0 0 (.fill 4), .pushList 0 0 (.fill 5)],
      (((Session.ofHeap roomyHeap).run crampedHistory).2.exec command).1 =
        .failed (.refused (.alloc (.outOfMemory 256 16))) := by
    decide +kernel
  have hsome : (((Session.ofHeap roomyHeap).run crampedHistory).2.pool? 0).isSome := by
    decide +kernel
  obtain ⟨pool, here⟩ := Option.isSome_iff_exists.mp hsome
  exact ⟨admitted, refused, pool, here, run_grows roomyHeap crampedHistory admitted here⟩

end Session

end RegionPool
