import RegionPool.Proofs.Capacities
import RegionPool.Proofs.Marks

/-!
# What the end of an array gives back

Whoever destroys an array is told how many bytes that gave back, and as many bytes fewer are in use;
only the cursors of the blocks its regions lie in have moved. How much it is depends on what was
claimed behind these regions. If nothing was, all of it comes back: the elements lie on top, and
once they are gone the header does, wherever the two were put. For the header ends at a word
boundary, so no padding in front of the elements has moved the cursor on. What remains of the array
is the padding in front of its regions, and blocks with nothing in them.

* `GrowArray.destroy_recedes` — what is given back, of any array in any pool;
* `GrowArray.Atop` — an array whose regions lie on top, and `Made.atop`, `Pushed.atop`: made there,
  and lengthened without being moved;
* `Session.Undisturbed` — a history in which that is all that happens to the array and its pool;
* `Session.run_givesBack` — the arrays of a caller, after every history.
-/

namespace RegionPool

open PoolM

/-! ### What is given back -/

/-- Moving cursors does not change which regions are guarded. -/
theorem Pool.Recedes.guards {pool after : Pool} {n : Nat} {regions : List Region} {region : Region}
    (h : pool.Recedes after n regions) (guards : pool.Guards region) : after.Guards region := by
  have hid : after.id = pool.id := by rw [h.rest]
  have hgeneration : after.generation = pool.generation := by rw [h.rest]
  have hlarge : after.large = pool.large := by rw [h.rest]
  rintro ⟨⟨store, offset⟩, hresolve⟩
  obtain ⟨owner, generation, hstore, hoffset⟩ := resolve_eq_ok_iff.mp hresolve
  have hstore' : pool.storeOf? region.place = some store := by
    rw [← hstore]
    unfold storeOf?
    rw [hlarge]
  -- the region was guarded before any cursor moved, and what resolves now resolved then
  have housed : pool.Houses region := guards ⟨_, resolve_eq_ok_iff.mpr
    ⟨owner.trans hid, generation.trans hgeneration, hstore', hoffset⟩⟩
  refine housed.of_siteOf? hid hgeneration fun site hsite => ?_
  cases hplace : region.place with
  | large id =>
    rw [hplace] at hsite
    rwa [siteOf?, hlarge]
  | block index start =>
    rw [hplace] at hsite
    obtain ⟨block, hblock, rfl⟩ := Option.map_eq_some_iff.mp hsite
    obtain ⟨cursor, hcursor, -⟩ := h.cursors index block hblock
    rw [siteOf?_block hcursor]
    rfl

namespace GrowArray

variable {array longer : GrowArray} {s t : PoolState} {region header : Region}
  {before pool after : Pool} {capacity elementSize n : Nat}

/-- **A region is given back** as far as it was claimed last. -/
theorem giveBack_recedes (guards : s.pool.Guards region) : Ends (giveBack region) s
    (fun n t => s.pool.Recedes t.pool n [region] ∧ t.world = s.world) (fun _ _ => False) := by
  have hlawful := Pool.reclaim_lawful guards.trusts
  unfold Ends giveBack
  rcases hrun : s.pool.reclaim region with (error | fault) | ⟨_ | _, after⟩
  · exact ⟨.refl s.pool, rfl⟩
  · obtain ⟨_, hrefused⟩ := hlawful _ hrun
    cases hrefused
  · exact ⟨.refl s.pool, rfl⟩
  · exact ⟨Pool.reclaim_recedes guards hrun, rfl⟩

/-- **Destroying an array** gives back what it says, and tells the log. -/
theorem destroy_recedes (guards : ∀ region ∈ array.regions, s.pool.Guards region) :
    Ends array.destroy s (fun n t => s.pool.Recedes t.pool n array.regions ∧
      t.world = s.world.log (.arrayDestroyed n)) (fun _ _ => False) := by
  have first := giveBack_recedes (guards _ List.mem_cons_self)
  cases hheader : array.header with
  | none =>
    simp only [destroy, hheader, ends_bind, ends_pure, ends_log]
    refine first.mono (fun n t ht => ?_) fun _ _ h => h
    obtain ⟨recedes, world⟩ := ht
    rw [regions, hheader, world, Nat.add_zero]
    exact ⟨recedes, rfl⟩
  | some header =>
    have hregions : array.regions = [array.elements] ++ [header] := by
      rw [regions, hheader]
      rfl
    simp only [destroy, hheader, ends_bind, ends_pure, ends_log]
    refine first.mono (fun n t ht => ?_) fun _ _ h => h
    -- the elements go first, so that a header right before them is on top when its turn comes
    obtain ⟨recedes, world⟩ := ht
    have hmem : header ∈ array.regions := hregions ▸ List.mem_append_right _ List.mem_cons_self
    refine (giveBack_recedes (recedes.guards (guards header hmem))).mono (fun m u hu => ?_)
      fun _ _ h => h
    obtain ⟨recedes', world'⟩ := hu
    rw [hregions, world', world]
    exact ⟨recedes.trans recedes', rfl⟩

/-! ### Arrays on top -/

/-- **An array lies on top** of its pool: its elements do, and without them its header; and without
both, the marks are restored to those of an earlier pool. -/
structure Atop (array : GrowArray) (header : Region) (before pool : Pool) : Prop where
  headed : array.header = some header
  length : header.length = Layout.arrayHeaderSize
  owns : ∀ region ∈ array.regions, pool.Owns region
  elements : array.elements.Tops pool.marks
  beneath : header.Tops (array.elements.retract pool.marks)
  restores : Restores before.marks (header.retract (array.elements.retract pool.marks))

namespace Atop

theorem header_mem (h : array.Atop header before pool) : header ∈ array.regions := by
  rw [regions, h.headed]
  exact List.mem_cons_of_mem _ List.mem_cons_self

/-- Only the marks of the pool matter. -/
theorem congr (h : array.Atop header before pool) (id : after.id = pool.id)
    (generation : after.generation = pool.generation) (marks : after.marks = pool.marks) :
    array.Atop header before after where
  headed := h.headed
  length := h.length
  owns region hmem := (h.owns region hmem).congr id generation
  elements := marks ▸ h.elements
  beneath := marks ▸ h.beneath
  restores := marks ▸ h.restores

end Atop

/-- A region on top is given back as a whole. -/
private theorem giveBack_of_tops (owns : s.pool.Owns region) (tops : region.Tops s.pool.marks) :
    ∃ after, giveBack region s = .ok region.length { s with pool := after } ∧
      after.id = s.pool.id ∧ after.generation = s.pool.generation ∧
      after.marks = region.retract s.pool.marks := by
  obtain ⟨after, run, hafter⟩ := owns.exists_reclaim tops
  refine ⟨after, ?_, hafter⟩
  rw [giveBack, run]

/-- **Destroying an array on top** gives all of it back. -/
theorem Atop.destroy (h : array.Atop header before s.pool) : ∃ after,
    array.destroy s = .ok (array.elements.length + Layout.arrayHeaderSize)
      ⟨after, s.world.log (.arrayDestroyed (array.elements.length + Layout.arrayHeaderSize))⟩ ∧
      Restores before.marks after.marks := by
  obtain ⟨middle, first, hid, hgeneration, hmarks⟩ :=
    giveBack_of_tops (h.owns _ List.mem_cons_self) h.elements
  -- the elements are out of the way now
  obtain ⟨after, second, -, -, hmarks'⟩ := giveBack_of_tops (s := { s with pool := middle })
    ((h.owns header h.header_mem).congr hid hgeneration) (hmarks.symm ▸ h.beneath)
  refine ⟨after, ?_, ?_⟩
  · simp only [GrowArray.destroy, h.headed, bind_of_ok first, bind_of_ok second, h.length]
    rfl
  · rw [hmarks', hmarks]
    exact h.restores

/-! ### Making an array and lengthening it -/

/-- A request below the threshold is piled on its pool, which stays regular. -/
private theorem alloc_piles {size : Nat} (fit : s.Fit) (regular : s.pool.Regular)
    (small : size ≤ s.pool.max) (run : Pool.alloc size s = .ok region t) :
    s.pool.Piles size region t.pool ∧ t.Fit ∧ t.pool.Regular := by
  have placed := (Pool.allocWith_routes regular).placed size region t small run
  have hfit := ((Pool.alloc_withdraws fit).ok_of run).1.fit
  exact ⟨placed.piles, hfit, placed.regular regular hfit⟩

/-- **An array that was just made** lies on top, if none of its requests was large. -/
theorem Made.atop (made : Made capacity elementSize s true array t) (fit : s.Fit)
    (regular : s.pool.Regular) (hheader : Layout.arrayHeaderSize ≤ s.pool.max)
    (hsize : capacity * elementSize ≤ s.pool.max) :
    ∃ header, array.Atop header s.pool t.pool := by
  cases made with
  | @headed header elements middle _ first run =>
    obtain ⟨piles, hfit, hregular⟩ := alloc_piles fit regular hheader first
    obtain ⟨piles', -, -⟩ := alloc_piles hfit hregular (piles.max ▸ hsize) run
    -- the header ends at a word boundary, so padding in front of the elements leaves it on top
    have hstop : 8 ∣ header.place.offset + header.length := by
      rw [piles.length]
      exact Nat.dvd_add piles.aligned (by decide)
    refine ⟨header, rfl, piles.length, fun region hmem => ?_, piles'.tops,
      piles'.restores.tops piles.tops hstop,
      piles.restores.trans (piles'.restores.retract piles.tops)⟩
    rcases List.mem_cons.mp hmem with rfl | hmem
    · exact piles'.owns
    · rw [List.mem_singleton.mp hmem]
      exact piles.owns.congr piles'.id piles'.generation

/-- **Elements that cannot stay where they are** go elsewhere. -/
private theorem place_ne_of_stuck {elements : Region} (owns : s.pool.Owns array.elements)
    (tops : array.elements.Tops s.pool.marks) (regular : s.pool.Regular)
    (stuck : s.pool.extend array.elements (n * array.elementSize) = .ok (none, s.pool))
    (larger : n ≤ capacity)
    (run : Pool.alloc (capacity * array.elementSize) s = .ok elements t) :
    elements.place ≠ array.elements.place := by
  intro same
  obtain ⟨index, mark, place, get, stop⟩ := tops
  obtain ⟨block, hblock, rfl⟩ := Pool.getElem?_marks_eq_some_iff.mp get
  have hsmall : capacity * array.elementSize ≤ s.pool.max := by
    refine Nat.not_lt.mp fun hlarge => ?_
    have hisLarge := ((Pool.allocWith_routes regular).isLarge_iff _ elements t run).mpr hlarge
    rw [Region.isLarge, same, place] at hisLarge
    cases hisLarge
  have placed := (Pool.allocWith_routes regular).placed _ elements t hsmall run
  rw [place] at same
  cases placed with
  | @fitted other found first hfound =>
    obtain ⟨rfl, hspot⟩ := Place.block.inj same
    obtain rfl := Option.some.inj (hblock.symm.trans hfound)
    obtain ⟨⟨-, same', hsame', room⟩, -⟩ := first
    obtain rfl := Option.some.inj (hblock.symm.trans hsame')
    -- a request at the very place the elements have means that there are no bytes in them; but then
    -- they can be lengthened by whatever fits
    have hstop : array.elements.place.offset + array.elements.length = block.cursor := stop
    have hspot' : (block.cursor + 7) / 8 * 8 = array.elements.place.offset := hspot
    have hroom : (block.cursor + 7) / 8 * 8 + capacity * array.elementSize ≤ block.limit := room
    have hle : n * array.elementSize ≤ capacity * array.elementSize := Nat.mul_le_mul_right _ larger
    have hfits : n * array.elementSize ≤ block.limit - block.cursor := by omega
    rw [owns.extend_eq place hblock hstop hfits] at stuck
    cases stuck
  | appended _ _ =>
    obtain ⟨hindex, -⟩ := Place.block.inj same
    have hlt : index < s.pool.blockCount := (List.getElem?_eq_some_iff.mp hblock).1
    exact Nat.ne_of_gt hlt hindex

/-- **Making room where the array is** leaves it on top. -/
private theorem Roomier.atop {roomier : GrowArray} (h : array.Roomier n s roomier t)
    (atop : array.Atop header before s.pool) (regular : s.pool.Regular)
    (place : roomier.elements.place = array.elements.place) :
    roomier.Atop header before t.pool := by
  cases h with
  | ample _ => exact atop
  | moved full stuck larger _ run _ =>
    have hlarger : n ≤ _ := Nat.le_trans (Nat.le_add_left n array.count)
      (Nat.le_trans (Nat.le_max_left _ _) larger)
    exact absurd place (place_ne_of_stuck (atop.owns _ List.mem_cons_self) atop.elements regular
      stuck hlarger run)
  | @lengthened elements pool _ run =>
    rcases Pool.extend_eq_ok run with
      ⟨hnone, -⟩ | ⟨index, block, hplace, hblock, stop, -, hsome, rfl⟩
    · cases hnone
    obtain rfl := Option.some.inj hsome
    have hmark := Pool.getElem?_marks hblock
    have hlt : index < s.pool.marks.length := (List.getElem?_eq_some_iff.mp hmark).1
    let moved : Block := { block with cursor := block.cursor + n * array.elementSize }
    let longer : Region :=
      { array.elements with length := array.elements.length + n * array.elementSize }
    let pool : Pool := { s.pool with chain := s.pool.chain.setBlock index moved }
    have hmarks : pool.marks = s.pool.marks.set index moved.mark := Pool.marks_setBlock _ _ _
    -- without the elements it does not matter how long they were
    have hretract : longer.retract pool.marks = array.elements.retract s.pool.marks := by
      rw [hmarks]
      exact Region.retract_set hplace rfl hmark rfl
    refine ⟨atop.headed, atop.length, fun region hmem => ?_, ?_, ?_, ?_⟩
    · rcases List.mem_cons.mp hmem with rfl | hmem
      · have owns := atop.owns array.elements List.mem_cons_self
        exact ⟨owns.owner, owns.generation⟩
      · exact (atop.owns region (List.mem_cons_of_mem _ hmem)).congr rfl rfl
    · refine ⟨index, moved.mark, hplace, ?_, ?_⟩
      · exact (congrArg (·[index]?) hmarks).trans (List.getElem?_set_self hlt)
      · change array.elements.place.offset + (array.elements.length + _) = block.cursor + _
        rw [← Nat.add_assoc, stop]
    · exact hretract.symm ▸ atop.beneath
    · exact hretract.symm ▸ atop.restores

/-- **Appending** leaves an array on top, unless it is moved. -/
theorem Pushed.atop {pushed : Slot × GrowArray} (h : array.Pushed n s pushed t)
    (atop : array.Atop header before s.pool) (regular : s.pool.Regular)
    (place : pushed.2.elements.place = array.elements.place) :
    pushed.2.Atop header before t.pool := by
  obtain ⟨roomier, hroomier, rfl, -⟩ := h
  have hroomierAtop := hroomier.atop atop regular place
  exact ⟨hroomierAtop.headed, hroomierAtop.length, hroomierAtop.owns, hroomierAtop.elements,
    hroomierAtop.beneath, hroomierAtop.restores⟩

end GrowArray

/-- Filling a slot moves no cursor. -/
private theorem Slot.fill_marks {slot : Slot} {content : Content} {s : PoolState} :
    Ends (slot.fill content) s (fun _ t => t.pool.id = s.pool.id ∧
      t.pool.generation = s.pool.generation ∧ t.pool.marks = s.pool.marks) (fun _ _ => True) := by
  simp only [Slot.fill, ends_bind, ends_pure]
  rw [ends_ofPool]
  refine ⟨fun before _ => ?_, fun _ _ => trivial⟩
  rw [ends_onPool]
  refine ⟨fun _ pool hrun => ?_, fun _ _ => trivial⟩
  obtain ⟨after, hwrite, hpure⟩ := bind_eq_ok_iff.mp hrun
  obtain ⟨-, rfl⟩ := Prod.mk.inj (pure_eq_ok_iff.mp hpure)
  -- content changes bytes, and marks are only limits and cursors
  obtain ⟨bytes, store, -, rfl⟩ := Slot.writeContent_eq_ok hwrite
  refine ⟨?_, ?_, Pool.marks_overwrite _ _ _ _⟩ <;> cases store <;> rfl

/-! ### Every history -/

namespace Session

variable {s : Session} {slot index : Nat} {command : Command} {array : GrowArray} {header : Region}
  {before pool : Pool} {c : Chronicle} {taken : List Holding} {history : List Command}

/-- **An array is undisturbed** in a history: whatever concerns its pool appends to the array, and
the array is not moved for that; and nothing else destroys it. -/
def Undisturbed (s : Session) (slot index : Nat) : List Command → Prop
  | [] => True
  | command :: history =>
    ((∃ growth content, command = GrowArray.Growth.command slot index content growth ∧
        ((s.exec command).2.array? index).map (·.elements.place) =
          (s.array? index).map (·.elements.place)) ∨
      (command.pool? ≠ some slot ∧ ∀ other, command ≠ .destroyArray other index)) ∧
    (s.exec command).2.Undisturbed slot index history

/-- **An array of a pool that is not named** stays as it is, unless it is destroyed. -/
theorem exec_keeps_array (sheltered : s.Sheltered taken) (other : command.pool? ≠ some slot)
    (undestroyed : ∀ other, command ≠ .destroyArray other index) (here : s.pool? slot = some pool)
    (found : s.array? index = some array) (owner : array.elements.pool = pool.id) :
    (s.exec command).2.array? index = some array := by
  have vouched := sheltered.vouched
  have hlt := lt_of_array? found
  have hsame : ∀ {after : Session}, after.arrays = s.arrays → after.array? index = some array :=
    fun arrays => by rwa [array?, arrays]
  have hset : ∀ {after : Session} {i entry}, after.arrays = s.arrays.set i entry → i ≠ index →
      after.array? index = some array := fun arrays hne => by
    rwa [array?, arrays, List.getElem?_set_ne hne]
  have happend : ∀ {after : Session} {entry}, after.arrays = s.arrays ++ [entry] →
      after.array? index = some array := fun arrays => by
    rwa [array?, arrays, List.getElem?_append_left hlt]
  have hdealing := s.exec_dealing command
  generalize (s.exec command).1 = reply at hdealing
  generalize (s.exec command).2 = after at hdealing ⊢
  cases hdealing with
  | aside arrays _ _ | reset arrays _ => exact hsame arrays
  | arrayMade _ _ | arrayCopied _ => exact happend rfl
  | @arrayPushed growth acting i content acted pushed appended longer t _ u hacted hpushed run _ =>
    refine hset (i := i) rfl fun heq => other ?_
    -- a pool in which the array is lengthened is its own
    subst heq
    obtain rfl := Option.some.inj (found.symm.trans hpushed)
    obtain ⟨⟨store, offset⟩, hresolve⟩ := (sheltered.shaped.pushed found run).knows
    obtain ⟨howner, -⟩ := Pool.resolve_eq_ok_iff.mp hresolve
    obtain rfl : slot = acting := vouched.slot_eq hacted
      (howner.symm.trans (owner.trans (vouched.numbered slot pool here)))
    cases growth <;> rfl
  | @arrayDropped acting i _ _ arrays _ _ _ =>
    exact hset arrays fun heq => undestroyed acting (heq ▸ rfl)
  | listMade _ _ | listPushed _ _ _ _ | listCopied _ => exact hsame rfl

/-- **An array of a caller lies on top** of the pool in a slot, above what was there before. -/
def Crowns (s : Session) (slot index : Nat) (elementSize : Nat) (before : Pool) : Prop :=
  ∃ pool array header, s.pool? slot = some pool ∧ s.array? index = some array ∧
    array.elementSize = elementSize ∧ array.Atop header before pool

namespace Crowns

variable {capacity elementSize : Nat}

/-- An array that is made lies on top. -/
theorem created (sheltered : s.Sheltered taken) (here : s.pool? slot = some pool)
    (hheader : Layout.arrayHeaderSize ≤ pool.max) (hsize : capacity * elementSize ≤ pool.max)
    (made : (s.exec (.createArray slot capacity elementSize)).1 = .array index) :
    (s.exec (.createArray slot capacity elementSize)).2.Crowns slot index elementSize pool := by
  have regular := sheltered.measured.regular sheltered.vouched here
  have hexec : s.exec (.createArray slot capacity elementSize) = s.perform slot
      (GrowArray.make true capacity elementSize) fun array u => u.keepArray array := rfl
  rw [hexec] at made ⊢
  revert made
  refine perform_ends (Q := fun result => result.1 = .array index →
    result.2.Crowns slot index elementSize pool) here ?_
  refine GrowArray.make_made.mono (fun array t ht => ?_) fun _ _ _ => nofun
  intro made
  obtain rfl : s.arrays.length = index := Reply.array.inj made
  obtain ⟨header, atop⟩ := ht.atop (sheltered.vouched.fit slot pool here) regular hheader hsize
  refine ⟨t.pool, array, header, pool?_settle_self here t, ?_, ?_, atop⟩
  · change (s.arrays ++ [some array])[s.arrays.length]?.join = some array
    rw [List.getElem?_concat_length]
    rfl
  -- an array that was made with a header has one
  · cases ht
    rfl

/-- It does as long as it is undisturbed. -/
theorem exec (crowns : s.Crowns slot index elementSize before) (h : s.Chronicled c taken)
    (undisturbed : s.Undisturbed slot index [command]) :
    (s.exec command).2.Crowns slot index elementSize before := by
  obtain ⟨pool, array, header, here, found, size, atop⟩ := crowns
  obtain ⟨⟨growth, content, rfl, stays⟩ | ⟨other, undestroyed⟩, -⟩ := undisturbed
  · have regular := h.sheltered.measured.regular h.sheltered.vouched here
    rcases h.provides.grows index array slot pool found here growth content with
      ⟨appended, longer, t, bytes, u, run, filled, hexec, -, claims⟩ | ⟨failure, t, run, hexec, -⟩
    · have hlonger :
          ((s.settle slot u).setArray index (some longer)).array? index = some longer := by
        change (s.arrays.set index (some longer))[index]?.join = some longer
        rw [List.getElem?_set_self (lt_of_array? found)]
        rfl
      rw [hexec] at stays ⊢
      rw [hlonger, found] at stays
      have hatop :=
        (h.sheltered.shaped.pushed found run).atop atop regular (Option.some.inj stays)
      obtain ⟨hid, hgeneration, hmarks⟩ := Slot.fill_marks.ok_of filled
      exact ⟨u.pool, longer, header, pool?_settle_self here u, hlonger,
        claims.elementSize.trans size, hatop.congr hid hgeneration hmarks⟩
    · -- what could not be appended has left no trace in the pool
      have guards := h.sheltered.guards_array found here _ List.mem_cons_self
      have fit := h.sheltered.vouched.fit slot pool here
      have hpool : t.pool = pool :=
        (growth.withdraws fit (h.sheltered.shaped.of_array? found) guards).fail_of run
      rw [hexec]
      exact ⟨t.pool, array, header, pool?_settle_self here t, found, size, hpool ▸ atop⟩
  · exact ⟨pool, array, header, exec_keeps_pool h.sheltered.vouched other here,
      exec_keeps_array h.sheltered other undestroyed here found
        (atop.owns _ List.mem_cons_self).owner, size, atop⟩

/-- It does all along a history in which it is undisturbed. -/
theorem run (crowns : s.Crowns slot index elementSize before) (h : s.Chronicled c taken)
    (admitted : s.AdmitsAll history) (undisturbed : s.Undisturbed slot index history) :
    (s.run history).2.Crowns slot index elementSize before := by
  induction history generalizing s c taken with
  | nil => exact crowns
  | cons command history ih =>
    have hfirst : s.AdmitsAll [command] := ⟨admitted.1, trivial⟩
    exact ih (crowns.exec h ⟨undisturbed.1, trivial⟩) (h.run hfirst) admitted.2 undisturbed.2

end Crowns

/-- **The arrays of a caller give back what they say.** Whoever destroys an array, in whatever pool,
is told how many bytes fewer are in use, and nothing but the cursors of the blocks it lies in has
changed. If the array was made below the threshold of its pool, and undisturbed since, all of its
bytes come back: every block there was before is where it was, or at the next word boundary, and
every other block is empty. -/
structure GivesBack (s : Session) : Prop where
  accounts : ∀ slot pool index array, s.pool? slot = some pool → s.array? index = some array →
    ∃ n after, s.exec (.destroyArray slot index) =
        (.number n, (s.setArray index none).settle slot
          ⟨after, s.world.log (.arrayDestroyed n)⟩) ∧
      pool.Recedes after n array.regions
  undoes : ∀ slot pool capacity elementSize index, s.pool? slot = some pool →
    Layout.arrayHeaderSize ≤ pool.max → capacity * elementSize ≤ pool.max →
      (s.exec (.createArray slot capacity elementSize)).1 = .array index → ∀ history,
        let made := (s.exec (.createArray slot capacity elementSize)).2
        made.AdmitsAll history → made.Undisturbed slot index history →
          ∃ array after, (made.run history).2.array? index = some array ∧
            array.elementSize = elementSize ∧
            ((made.run history).2.exec (.destroyArray slot index)).1 =
              .number (Layout.arrayHeaderSize + array.capacity * elementSize) ∧
            ((made.run history).2.exec (.destroyArray slot index)).2.pool? slot = some after ∧
            Restores pool.marks after.marks ∧
            ∀ block ∈ after.chain.blocks.drop pool.blockCount, block.stats.used = 0

/-- **A session that is chronicled** has arrays that give back what they say. -/
theorem Chronicled.givesBack (h : s.Chronicled c taken) : s.GivesBack := by
  refine ⟨fun slot pool index array here found => ?_,
    fun slot pool capacity elementSize index here hheader hsize made history => ?_⟩
  · have hends := GrowArray.destroy_recedes (s := ⟨pool, s.world⟩)
      (h.sheltered.guards_array found here)
    obtain ⟨n, t, run, recedes, world⟩ := hends.exists_ok
    obtain ⟨after, world'⟩ := t
    obtain rfl : world' = s.world.log (.arrayDestroyed n) := world
    exact ⟨n, after, exec_destroyArray here found run, recedes⟩
  · intro created admitted undisturbed
    have hcommand : s.AdmitsAll [.createArray slot capacity elementSize] := ⟨trivial, trivial⟩
    have hcreated : created.Chronicled _ _ := h.run hcommand
    have hafter := hcreated.run admitted
    obtain ⟨pool', array, header, here', found, size, atop⟩ :=
      (Crowns.created h.sheltered here hheader hsize made).run hcreated admitted undisturbed
    have shaped := hafter.sheltered.shaped.of_array? found
    obtain ⟨after, run, restores⟩ :=
      GrowArray.Atop.destroy (s := ⟨pool', (created.run history).2.world⟩) atop
    rw [exec_destroyArray here' found run]
    refine ⟨array, after, found, size, ?_, pool?_settle_self here' _, restores,
      fun block hmem => ?_⟩
    · rw [shaped.room, size, Nat.add_comm]
    · -- a block that came later is blank again, so nothing of it is used
      obtain ⟨i, hi⟩ := List.mem_iff_getElem?.mp hmem
      rw [List.getElem?_drop] at hi
      have hle : pool.marks.length ≤ pool.blockCount + i := by
        rw [Pool.length_marks]
        exact Nat.le_add_right _ _
      have hblank := restores.new _ _ hle (Pool.getElem?_marks hi)
      exact Nat.sub_eq_zero_of_le (Nat.le_of_eq hblank.cursor)

/-- **The arrays of a caller give back what they say**, after every history. -/
theorem run_givesBack (heap : Heap) (history : List Command)
    (admitted : (Session.ofHeap heap).AdmitsAll history) :
    ((Session.ofHeap heap).run history).2.GivesBack :=
  ((Chronicled.ofHeap heap).run admitted).givesBack

/-- A pool with its cursor inside a word, and another one beside it. -/
def unevenHistory : List Command :=
  [.createPool { size := 144 } none, .createPool { size := 144 } none, .allocUnaligned 0 3]

/-- An array is lengthened where it is and then has room, and the other pool is used. -/
def upkeep : List Command :=
  [.pushManyArray 0 0 4 (.fill 1), .alloc 1 8, .pushArray 0 0 (.fill 2)]

theorem run_givesBack_unevenHistory :
    let s := ((Session.ofHeap roomyHeap).run unevenHistory).2
    let made := (s.exec (.createArray 0 3 8)).2
    let after := (made.run upkeep).2
    (Session.ofHeap roomyHeap).AdmitsAll unevenHistory ∧
      (s.pool? 0).map (fun pool => (pool.max, pool.marks)) = some (64, [⟨80, 83⟩]) ∧
      (s.exec (.createArray 0 3 8)).1 = .array 0 ∧
      made.AdmitsAll upkeep ∧ made.Undisturbed 0 0 upkeep ∧
      (after.pool? 0).map Pool.marks = some [⟨80, 128⟩, ⟨32, 88⟩] ∧
      (after.exec (.destroyArray 0 0)).1 = .number 96 ∧
      ((after.exec (.destroyArray 0 0)).2.pool? 0).map Pool.marks = some [⟨80, 88⟩, ⟨32, 32⟩] ∧
      s.GivesBack := by
  intro s made after
  have admitted : (Session.ofHeap roomyHeap).AdmitsAll unevenHistory := by decide +kernel
  have undisturbed : made.Undisturbed 0 0 upkeep :=
    -- both appendings find the array at the end of its block, so it is lengthened there
    ⟨.inl ⟨.many 4, .fill 1, rfl, by decide +kernel⟩, .inr ⟨by decide, nofun⟩,
      .inl ⟨.one, .fill 2, rfl, by decide +kernel⟩, trivial⟩
  exact ⟨admitted, by decide +kernel, by decide +kernel, by decide +kernel, undisturbed,
    by decide +kernel, by decide +kernel, by decide +kernel,
    run_givesBack roomyHeap unevenHistory admitted⟩

end Session

end RegionPool
