import RegionPool.Proofs.Handing

/-!
# How operations fail

An operation may be refused, and a refusal is part of its contract. A fault is not: it tells of an
access outside the memory that was meant. This module says of every operation that it breaks no rule
of its own (`Abides`), if only the pool houses the regions that it resolves (`Pool.Guards`).

* `Lawful` — a function that fails with refusals only; `locate_lawful`, `extend_lawful`,
  `copy_lawful` and their like;
* `Abides` — an action that fails with refusals only and spares every site; `Abides.bind` puts
  actions together;
* `GrowArray.push_abides`, `PartList.push_abides` and their like — the containers, which keep their
  shape.

Copying is the one operation with a rule that a caller can break, and it is broken exactly if more
bytes are to be copied than one of the regions has (`copy_fault_iff`).
-/

namespace RegionPool

open PoolM

/-! ### Functions that fail with refusals only -/

/-- **A refusal**, and not a fault. -/
def Failure.IsRefusal (failure : Failure) : Prop := ∃ error, failure = .refused error

/-- **A lawful function** fails with refusals only. -/
def Lawful {α : Type} (x : Except Failure α) : Prop := ∀ failure, x = .error failure →
  failure.IsRefusal

namespace Lawful

variable {α β : Type} {x : Except Failure α} {a : α}

theorem ok (a : α) : Lawful (.ok a : Except Failure α) := nofun

theorem of_ok (h : x = .ok a) : Lawful x := by
  rw [h]
  exact .ok a

theorem refused (error : PoolError) : Lawful (.error (.refused error) : Except Failure α) := by
  rintro _ ⟨⟩
  exact ⟨error, rfl⟩

theorem bind {next : α → Except Failure β} (h : Lawful x)
    (hnext : ∀ a, x = .ok a → Lawful (next a)) : Lawful (x >>= next) := by
  intro failure heq
  cases hx : x with
  | error error =>
    rw [hx] at heq
    cases heq
    exact h _ hx
  | ok a =>
    rw [hx] at heq
    exact hnext a hx failure heq

theorem map {f : α → β} (h : Lawful x) : Lawful (f <$> x) := by
  cases x with
  | error failure =>
    rintro _ ⟨⟩
    exact h failure rfl
  | ok a => exact .ok (f a)

end Lawful

theorem byteLength_lawful (count elementSize : Nat) : Lawful (byteLength count elementSize) := by
  rw [byteLength]
  split
  · exact .ok _
  · exact .refused _

theorem checkedCount_lawful (count : Nat) : Lawful (checkedCount count) := by
  rw [checkedCount]
  split
  · exact .ok _
  · exact .refused _

namespace Pool

/-- **A pool guards a region** if it houses it, should the region resolve. -/
def Guards (pool : Pool) (region : Region) : Prop := pool.Knows region → pool.Houses region

theorem Houses.guards {pool : Pool} {region : Region} (h : pool.Houses region) :
    pool.Guards region := fun _ => h

section Memory

variable {pool : Pool} {region source target : Region} {store : Store} {offset : Nat}

/-- A pool trusts what it guards. -/
theorem Guards.trusts (guards : pool.Guards region) : pool.Trusts region := by
  intro hpool hgeneration
  cases hplace : region.place with
  | large id => exact .inr ⟨id, rfl⟩
  | block index start =>
    have hstore : pool.storeOf? region.place = some (.block index) := by
      rw [hplace]
      rfl
    exact .inl (guards ⟨_, resolve_eq_ok_iff.mpr ⟨hpool, hgeneration, hstore, rfl⟩⟩)

/-- **A region that is guarded and resolves** lies in its store. -/
theorem Guards.exists_buffer (guards : pool.Guards region)
    (h : pool.resolved region = .ok (store, offset)) : pool.Houses region ∧ ∃ buffer,
      pool.storeBuffer? store = some buffer ∧ offset + region.length ≤ buffer.length := by
  have hresolve := resolved_eq_ok_iff.mp h
  have housed := guards ⟨_, hresolve⟩
  obtain ⟨site, hsite, fits⟩ := housed.site
  obtain ⟨buffer, hbuffer, -, -, hlength⟩ := exists_bufferAt? hsite
  obtain ⟨-, -, hstore, rfl⟩ := resolve_eq_ok_iff.mp hresolve
  rw [bufferAt?, hstore, Option.bind_some] at hbuffer
  exact ⟨housed, buffer, hbuffer, hlength ▸ fits.2⟩

theorem resolved_lawful (pool : Pool) (region : Region) : Lawful (pool.resolved region) := by
  rw [resolved]
  cases pool.resolve region with
  | ok found => exact .ok found
  | error error => exact .refused error

/-- What lies in a store can be read. -/
theorem load_lawful {length : Nat} {buffer : Buffer}
    (hstore : pool.storeBuffer? store = some buffer)
    (inside : offset + length ≤ buffer.length) : Lawful (pool.load store offset length) := by
  have hslice : buffer.slice? offset length = some ((buffer.bytes.drop offset).take length) := by
    rw [Buffer.slice?_eq]
    exact Bytes.slice?_eq_some_iff.mpr ⟨by rwa [Buffer.length_bytes], rfl⟩
  exact .of_ok (load_eq_ok_iff.mpr ⟨buffer, hstore, hslice⟩)

theorem locate_lawful (guards : pool.Guards region) : Lawful (pool.locate region) := by
  refine (resolved_lawful pool region).bind fun found hfound => ?_
  obtain ⟨-, hbuffer⟩ := guards.exists_buffer hfound
  have hspans := spans_eq_true_iff.mpr hbuffer
  exact .of_ok (guard_eq_ok_iff.mpr ⟨hspans, rfl⟩)

/-- **Reading** a region that is guarded. -/
theorem bytes_lawful (guards : pool.Guards region) : Lawful (pool.bytes region) := by
  refine (resolved_lawful pool region).bind fun found hfound => ?_
  obtain ⟨-, buffer, hstore, inside⟩ := guards.exists_buffer hfound
  exact load_lawful hstore inside

/-- What is located is housed. -/
theorem Guards.of_locate (guards : pool.Guards region)
    (h : pool.locate region = .ok (store, offset)) : pool.Houses region ∧ ∃ buffer,
      pool.storeBuffer? store = some buffer ∧ offset + region.length ≤ buffer.length :=
  guards.exists_buffer (resolved_eq_ok_iff.mpr (locate_eq_ok_iff.mp h).1)

theorem bytesIn_lawful {start length : Nat} (guards : pool.Guards region)
    (inside : start + length ≤ region.length) : Lawful (pool.bytesIn region start length) := by
  refine (locate_lawful guards).bind fun found hfound => ?_
  obtain ⟨-, buffer, hstore, hlimit⟩ := guards.of_locate hfound
  dsimp only
  rw [if_pos inside]
  exact load_lawful hstore (by omega)

/-- **Writing** to a region that is guarded, inside its length. -/
theorem write_lawful {start : Nat} {data : Bytes} (guards : pool.Guards region)
    (inside : start + data.length ≤ region.length) : Lawful (pool.write region start data) :=
  (locate_lawful guards).bind fun _ _ => .of_ok (guard_eq_ok_iff.mpr ⟨inside, rfl⟩)

/-- What is read from a region is as long as the region. -/
theorem length_of_bytes {bytes : Bytes} (h : pool.bytes region = .ok bytes) :
    bytes.length = region.length := by
  obtain ⟨-, -, hcontent⟩ := bytes_eq_ok_iff.mp h
  obtain ⟨buffer, -, hlimit, rfl⟩ := content?_eq_some_iff.mp hcontent
  rw [List.length_take, List.length_drop, Buffer.length_bytes]
  omega

theorem writeContent_lawful {content : Content} (guards : pool.Guards region) :
    Lawful (pool.writeContent region content) := by
  refine (bytes_lawful guards).bind fun bytes hbytes => write_lawful guards ?_
  rw [Content.length_apply, length_of_bytes hbytes, Nat.zero_add]

theorem address_lawful (guards : pool.Guards region) : Lawful (pool.address region) := by
  refine (resolved_lawful pool region).bind fun found hfound => ?_
  obtain ⟨-, buffer, hstore, -⟩ := guards.exists_buffer hfound
  dsimp only
  rw [hstore]
  exact .ok _

/-- A block that a region resolves to is there. -/
private theorem Trusts.exists_block {index : Nat} (trusts : pool.Trusts region)
    (h : pool.resolved region = .ok (.block index, offset)) :
    ∃ block, pool.chain.blocks[index]? = some block := by
  obtain ⟨hpool, hgeneration, hstore, -⟩ := resolve_eq_ok_iff.mp (resolved_eq_ok_iff.mp h)
  have hplace := place_of_storeOf?_block hstore
  -- the place is in a block, so the region is trusted for being housed
  rcases trusts hpool hgeneration with housed | ⟨id, hlarge⟩
  · obtain ⟨site, hsite, -⟩ := housed.site
    rw [hplace] at hsite
    obtain ⟨block, hblock, -⟩ := Option.map_eq_some_iff.mp hsite
    exact ⟨block, hblock⟩
  · rw [hlarge] at hplace
    cases hplace

/-- **Lengthening** a region that is trusted. -/
theorem extend_lawful {additional : Nat} (trusts : pool.Trusts region) :
    Lawful (pool.extend region additional) := by
  refine (resolved_lawful pool region).bind fun (store, offset) hfound => ?_
  cases store with
  | slot index => exact .ok _
  | block index =>
    obtain ⟨block, hblock⟩ := trusts.exists_block hfound
    simp only [hblock]
    split <;> exact .ok _

/-- **Giving back** a region that is trusted. -/
theorem reclaim_lawful (trusts : pool.Trusts region) : Lawful (pool.reclaim region) := by
  refine (resolved_lawful pool region).bind fun (store, offset) hfound => ?_
  cases store with
  | slot index => exact .ok _
  | block index =>
    obtain ⟨block, hblock⟩ := trusts.exists_block hfound
    simp only [hblock]
    split <;> exact .ok _

/-- **Copying** between regions that are guarded, no more than each of them has. -/
theorem copy_lawful {length : Nat} (hsource : pool.Guards source) (htarget : pool.Guards target)
    (inside : length ≤ source.length ∧ length ≤ target.length) :
    Lawful (pool.copy source target length) := by
  rw [copy, if_pos inside]
  refine (resolved_lawful pool source).bind fun (store, offset) hfound => ?_
  refine (resolved_lawful pool target).bind fun (store', offset') hfound' => ?_
  obtain ⟨-, buffer, hstore, hlimit⟩ := hsource.exists_buffer hfound
  obtain ⟨-, buffer', hstore', hlimit'⟩ := htarget.exists_buffer hfound'
  change Lawful (pool.transfer store store' offset offset' length)
  rw [transfer_eq]
  -- both regions lie in their buffers, so what is read fits where it is written
  refine (load_lawful hstore (by omega)).bind fun bytes hload => ?_
  have hlength : bytes.length = length := by
    obtain ⟨_, -, hslice⟩ := load_eq_ok_iff.mp hload
    rw [Buffer.slice?_eq] at hslice
    exact Bytes.length_of_slice? hslice
  rw [save, if_pos (spans_eq_true_iff.mpr ⟨buffer', hstore', by omega⟩)]
  exact .ok _

/-- **The one rule that a caller can break.** Copying between regions that are guarded ends with a
fault exactly if more bytes are asked for than one of them has, and the fault says so. -/
theorem copy_fault_iff {length : Nat} {fault : Fault} (hsource : pool.Guards source)
    (htarget : pool.Guards target) : pool.copy source target length = .error (.fault fault) ↔
      (source.length < length ∨ target.length < length) ∧
        fault = .copyTooLong length source.length target.length := by
  by_cases inside : length ≤ source.length ∧ length ≤ target.length
  -- within the bounds only an error can come back, and that is no fault
  · constructor
    · intro h
      obtain ⟨error, herror⟩ := copy_lawful hsource htarget inside _ h
      cases herror
    · rintro ⟨hlong, -⟩
      omega
  · have hlong : source.length < length ∨ target.length < length := by omega
    have hcopy : pool.copy source target length =
        .error (.fault (.copyTooLong length source.length target.length)) := if_neg inside
    rw [hcopy]
    constructor
    · rintro ⟨⟩
      exact ⟨hlong, rfl⟩
    · rintro ⟨-, rfl⟩
      rfl

theorem cleanupRecord_lawful (pool : Pool) (ticket : CleanupTicket) :
    Lawful (pool.cleanupRecord ticket) := by
  rw [cleanupRecord]
  split
  · exact .refused _
  · split
    · exact .ok _
    · exact .refused _

/-- **Reading the bytes of a record** whose region is guarded. -/
theorem cleanupBytes_lawful {ticket : CleanupTicket}
    (guards : ∀ region ∈ ticket.data, pool.Guards region) : Lawful (pool.cleanupBytes ticket) := by
  rw [cleanupBytes]
  split
  · exact .refused _
  · split
    · next region hdata => exact bytes_lawful (guards region hdata)
    · exact .ok _

end Memory

end Pool

/-! ### Actions that fail with refusals only -/

/-- **An action abides by the rules**: it spares every site, and if it fails, it is refused. -/
def Abides {α : Type} (action : PoolM α) (s : PoolState) (ok : α → PoolState → Prop) : Prop :=
  Ends action s (fun a t => s.Spares t ∧ ok a t) (fun failure _ => failure.IsRefusal)

namespace Abides

variable {α β : Type} {action : PoolM α} {next : α → PoolM β} {s : PoolState}
  {ok ok' : α → PoolState → Prop} {done : β → PoolState → Prop}

/-- **Actions one after the other.** -/
theorem bind (h : Abides action s ok)
    (hnext : ∀ a t, s.Spares t → ok a t → Abides (next a) t done) :
    Abides (action >>= next) s done := by
  rw [Abides, ends_bind]
  refine h.mono (fun a t ht => ?_) fun _ _ hfailure => hfailure
  exact (hnext a t ht.1 ht.2).mono (fun _ _ hu => ⟨ht.1.trans hu.1, hu.2⟩) fun _ _ hfailure =>
    hfailure

theorem mono (h : Abides action s ok) (hok : ∀ a t, s.Spares t → ok a t → ok' a t) :
    Abides action s ok' :=
  Ends.mono h (fun a t ht => ⟨ht.1, hok a t ht.1 ht.2⟩) fun _ _ hfailure => hfailure

theorem pure (fit : s.Fit) {a : α} (h : ok a s) : Abides (pure a : PoolM α) s ok := ⟨.refl fit, h⟩

theorem discard (h : Abides action s ok) : Abides (discard action) s fun _ t => ∃ a, ok a t := by
  rw [Abides, ends_discard]
  exact Ends.mono h (fun a _ ht => ⟨ht.1, a, ht.2⟩) fun _ _ hfailure => hfailure

/-- What holds of the result alone. -/
theorem ends (h : Abides action s ok) : Ends action s ok fun failure _ => failure.IsRefusal :=
  Ends.mono h (fun _ _ ht => ht.2) fun _ _ hfailure => hfailure

/-- It is refused, if it fails. -/
theorem refusal (h : Abides action s ok) :
    Ends action s (fun _ _ => True) fun failure _ => failure.IsRefusal :=
  Ends.mono h (fun _ _ _ => trivial) fun _ _ hfailure => hfailure

/-- A function of the pool that changes nothing. -/
theorem ofPool {f : Pool → Except Failure α} (fit : s.Fit) (lawful : Lawful (f s.pool)) :
    Abides (ofPool f) s fun a t => t = s ∧ f s.pool = .ok a := by
  rw [Abides, ends_ofPool]
  exact ⟨fun a ha => ⟨.refl fit, rfl, ha⟩, fun failure hfailure => lawful failure hfailure⟩

/-- What is handed out by an action that fails with refusals only. -/
theorem of_hands {known : List Region} {regions : α → List Region}
    (hands : Hands action known regions) (fit : s.Fit)
    (trusts : ∀ region ∈ known, s.pool.Trusts region)
    (h : Ends action s ok fun failure _ => failure.IsRefusal) :
    Abides action s fun a t => (∀ region ∈ regions a, region ∈ known ∨ t.pool.Houses region) ∧
      ok a t :=
  ((hands s fit trusts).and h).mono (fun _ _ ht => ⟨ht.1.1, ht.1.2, ht.2⟩) fun _ _ ht => ht.2

/-- **A function that writes to a store** if it succeeds. -/
theorem writes {f : Pool → Except Failure Pool} (fit : s.Fit) (lawful : Lawful (f s.pool))
    (hwrites : ∀ after, f s.pool = .ok after →
      ∃ store offset data, after = s.pool.overwrite store offset data) :
    Abides (onPool fun pool => return ((), ← f pool)) s fun _ _ => True := by
  rw [Abides, ends_onPool]
  constructor
  · intro a pool hrun
    obtain ⟨after, hafter, hpure⟩ := bind_eq_ok_iff.mp hrun
    obtain ⟨-, rfl⟩ := Prod.mk.inj (pure_eq_ok_iff.mp hpure)
    obtain ⟨store, offset, data, rfl⟩ := hwrites after hafter
    exact ⟨.overwrite fit store offset data, trivial⟩
  · exact lawful.bind fun _ _ => .ok _

end Abides

namespace Pool

variable {s : PoolState} {size : Nat}

section Alloc

variable {packing : Packing}

/-- A small request is handed out in the length asked for. -/
private theorem length_of_allocSmall :
    Ends (allocSmall size packing) s (fun region _ => region.length = size) fun _ _ => True := by
  have hgrow : Ends (growFor size) s (fun region _ => region.length = size) fun _ _ => True := by
    simp only [growFor, ends_bind, ends_getPool]
    rw [ends_request]
    refine ⟨fun buffer world _ => ?_, fun _ _ _ => trivial⟩
    split
    · exact trivial
    · rfl
  simp only [allocSmall, ends_bind, ends_getPool]
  split
  · rfl
  · exact hgrow

/-- So is a large one. -/
private theorem length_of_allocLarge :
    Ends (allocLarge size) s (fun region _ => region.length = size) fun _ _ => True := by
  have hany : ∀ {α : Type} (action : PoolM α) (s : PoolState),
      Ends action s (fun _ _ => True) fun _ _ => True := by
    intro α action s
    unfold Ends
    split <;> trivial
  simp only [allocLarge, ends_bind, ends_getPool]
  rw [ends_request]
  refine ⟨fun buffer world _ => ?_, fun _ _ _ => trivial⟩
  split
  · rfl
  · rw [ends_bind]
    -- wherever the buffer gets its slot, the region has the length asked for
    exact (hany (enterLarge buffer) _).mono (fun _ _ _ => rfl) fun _ _ h => h

theorem length_of_allocWith :
    Ends (allocWith packing size) s (fun region _ => region.length = size) fun _ _ => True := by
  simp only [allocWith, ends_bind, ends_getPool]
  split
  · exact length_of_allocSmall
  · exact length_of_allocLarge

/-- **Allocation** hands out a region of the length asked for. -/
theorem alloc_abides (fit : s.Fit) :
    Abides (alloc size) s fun region t => region.length = size ∧ t.pool.Houses region := by
  refine ((allocWith_ends fit).and length_of_allocWith).mono (fun region t ht => ?_)
    fun failure t ht => ?_
  · obtain ⟨⟨calls, hsupplied, -⟩, hlength⟩ := ht
    exact ⟨hsupplied.spares, hlength, hsupplied.houses⟩
  · obtain ⟨⟨calls, hdeclined, -⟩, -⟩ := ht
    obtain ⟨error, rfl, -⟩ := hdeclined.reason
    exact ⟨_, rfl⟩

end Alloc

section Memory

variable {region source target : Region} {additional length start : Nat} {data : Bytes}
  {content : Content}

theorem write_abides (fit : s.Fit) (guards : s.pool.Guards region)
    (inside : start + data.length ≤ region.length) :
    Abides (onPool fun pool => return ((), ← pool.write region start data)) s fun _ _ => True := by
  refine .writes fit (write_lawful guards inside) fun after hwrite => ?_
  obtain ⟨-, store, -, -, hafter⟩ := write_eq_ok hwrite
  exact ⟨store, _, _, hafter⟩

theorem writeContent_abides (fit : s.Fit) (guards : s.pool.Guards region) :
    Abides (onPool fun pool => return ((), ← pool.writeContent region content)) s
      fun _ _ => True := by
  refine .writes fit (writeContent_lawful guards) fun after hrun => ?_
  obtain ⟨bytes, -, hwrite⟩ := bind_eq_ok_iff.mp hrun
  obtain ⟨-, store, -, -, hafter⟩ := write_eq_ok hwrite
  exact ⟨store, _, _, hafter⟩

theorem copy_abides (fit : s.Fit) (hsource : s.pool.Guards source) (htarget : s.pool.Guards target)
    (inside : length ≤ source.length ∧ length ≤ target.length) :
    Abides (onPool fun pool => return ((), ← pool.copy source target length)) s
      fun _ _ => True := by
  refine .writes fit (copy_lawful hsource htarget inside) fun after hcopy => ?_
  obtain ⟨-, store, bytes, -, -, -, -, hafter⟩ := copy_eq_ok hcopy
  exact ⟨store, _, _, hafter⟩

/-- **Lengthening a region**, or leaving it as it is. The region resolves in either case. -/
theorem extend_abides (fit : s.Fit) (guards : s.pool.Guards region) :
    Abides (onPool (·.extend region additional)) s fun extended t => t.pool.Houses region ∧
      ∀ longer ∈ extended, longer.length = region.length + additional ∧ t.pool.Houses longer := by
  have hends : Ends (onPool (·.extend region additional)) s
      (fun extended _ => s.pool.Houses region ∧
        ∀ longer ∈ extended, longer.length = region.length + additional)
      fun failure _ => failure.IsRefusal := by
    rw [ends_onPool]
    refine ⟨fun extended pool hrun => ⟨guards (knows_of_extend hrun), ?_⟩,
      extend_lawful guards.trusts⟩
    rcases extend_eq_ok hrun with ⟨rfl, -⟩ | ⟨_, _, -, -, -, -, rfl, -⟩
    · exact nofun
    · rintro _ ⟨⟩
      rfl
  -- the region that comes back is the longer one; that it is housed follows from the hands
  have hknown : ∀ other ∈ [region], s.pool.Trusts other := fun other hmem =>
    List.mem_singleton.mp hmem ▸ guards.trusts
  refine (Abides.of_hands (extend_hands (List.mem_singleton_self region)) fit hknown hends).mono
    fun extended t hspares ht => ?_
  obtain ⟨hhanded, housed, hlength⟩ := ht
  refine ⟨hspares.houses housed, fun longer hmem => ⟨hlength longer hmem, ?_⟩⟩
  rcases hhanded longer (Option.mem_toList.mpr hmem) with hsame | hnew
  · exact List.mem_singleton.mp hsame ▸ hspares.houses housed
  · exact hnew

theorem reclaim_abides (fit : s.Fit) (trusts : s.pool.Trusts region) :
    Abides (onPool (·.reclaim region)) s fun _ _ => True := by
  have hknown : ∀ other ∈ [region], s.pool.Trusts other := fun other hmem =>
    List.mem_singleton.mp hmem ▸ trusts
  have hends : Ends (onPool (·.reclaim region)) s (fun _ _ => True)
      fun failure _ => failure.IsRefusal := by
    rw [ends_onPool]
    exact ⟨fun _ _ _ => trivial, reclaim_lawful trusts⟩
  exact (Abides.of_hands (reclaim_hands (List.mem_singleton_self region)) fit hknown hends).mono
    fun _ _ _ _ => trivial

end Memory

/-- **Serving a workload** touches what it allocates, inside its length. -/
theorem serve_abides (sizes : List Nat) (fit : s.Fit) :
    Abides (serve sizes) s fun _ _ => True := by
  induction sizes generalizing s with
  | nil => exact .pure fit trivial
  | cons size sizes ih =>
    refine (alloc_abides fit).bind fun region t hspares ht => ?_
    refine (write_abides hspares.fit ht.2.guards ?_).bind fun _ u hspares' _ => ?_
    · rw [Nat.zero_add]
      exact List.length_take_le _ _
    · exact (ih hspares'.fit).bind fun _ _ hspares'' _ => .pure hspares''.fit trivial

end Pool

/-! ### Slots -/

section Slot

variable {s : PoolState} {slot : Slot} {content : Content}

theorem Slot.bytes_lawful {pool : Pool} (guards : pool.Guards slot.region)
    (inside : slot.start + slot.length ≤ slot.region.length) : Lawful (slot.bytes pool) :=
  Pool.bytesIn_lawful guards inside

/-- What is read from a slot is as long as the slot. -/
theorem Slot.length_of_bytes {pool : Pool} {bytes : Bytes} (h : slot.bytes pool = .ok bytes) :
    bytes.length = slot.length := by
  obtain ⟨found, -, hguarded⟩ := bind_eq_ok_iff.mp h
  obtain ⟨-, hload⟩ := guard_eq_ok_iff.mp hguarded
  obtain ⟨_, -, hslice⟩ := Pool.load_eq_ok_iff.mp hload
  rw [Buffer.slice?_eq] at hslice
  exact Bytes.length_of_slice? hslice

theorem Slot.writeContent_lawful {pool : Pool} (guards : pool.Guards slot.region)
    (inside : slot.start + slot.length ≤ slot.region.length) :
    Lawful (slot.writeContent pool content) := by
  refine (Slot.bytes_lawful guards inside).bind fun bytes hbytes => ?_
  refine Pool.write_lawful guards ?_
  rwa [Content.length_apply, Slot.length_of_bytes hbytes]

/-- **Filling a slot** that lies inside its region. -/
theorem Slot.fill_abides (fit : s.Fit) (housed : s.pool.Houses slot.region)
    (inside : slot.start + slot.length ≤ slot.region.length) :
    Abides (slot.fill content) s fun _ _ => True := by
  refine (Abides.ofPool fit (Slot.bytes_lawful housed.guards inside)).bind fun before t _ ht => ?_
  obtain ⟨rfl, -⟩ := ht
  refine (Abides.writes fit (Slot.writeContent_lawful housed.guards inside) ?_).bind
    fun _ _ hspares _ => .pure hspares.fit trivial
  intro after hrun
  obtain ⟨bytes, store, -, hafter⟩ := Slot.writeContent_eq_ok hrun
  exact ⟨store, _, _, hafter⟩

end Slot

/-! ### Arrays -/

namespace GrowArray

variable {s : PoolState} {array : GrowArray} {capacity elementSize additional size n index : Nat}
  {moved : Except Failure Nat} {content : Content}

/-- **A new array** has its shape. -/
theorem init_abides (fit : s.Fit) : Abides (init capacity elementSize) s fun array _ =>
    array.Shaped := by
  refine (Abides.ofPool fit (byteLength_lawful _ _)).bind fun size t _ ht => ?_
  obtain ⟨rfl, hsize⟩ := ht
  refine (Pool.alloc_abides fit).bind fun elements u hspares hu => .pure hspares.fit ?_
  exact ⟨hu.1.trans (eq_of_byteLength hsize), Nat.zero_le _⟩

theorem create_abides (fit : s.Fit) : Abides (create capacity elementSize) s fun array _ =>
    array.Shaped := by
  refine (Pool.alloc_abides fit).bind fun header t hspares _ => ?_
  exact (init_abides hspares.fit).bind fun array u hspares' shaped => .pure hspares'.fit
    ⟨shaped.room, shaped.count_le⟩

/-- The elements fit where they are and where they are moved to. -/
theorem inside_of_relocate {elements : Region} (shaped : array.Shaped)
    (hroom : elements.length = capacity * array.elementSize) (h : array.count ≤ capacity) :
    array.count * array.elementSize ≤ array.elements.length ∧
      array.count * array.elementSize ≤ elements.length := by
  rw [shaped.room, hroom]
  exact ⟨Nat.mul_le_mul_right _ shaped.count_le, Nat.mul_le_mul_right _ h⟩

/-- **Moving the elements** to at least as much room. -/
theorem relocate_abides (fit : s.Fit) (shaped : array.Shaped)
    (housed : s.pool.Houses array.elements) (h : array.count ≤ capacity) :
    Abides (array.relocate capacity) s fun after t => after.Shaped ∧ after.count = array.count ∧
      after.capacity = capacity ∧ t.pool.Houses after.elements := by
  refine (Abides.ofPool fit (byteLength_lawful _ _)).bind fun size t _ ht => ?_
  obtain ⟨rfl, hsize⟩ := ht
  refine (Pool.alloc_abides fit).bind fun elements u hspares hu => ?_
  obtain ⟨hlength, hnew⟩ := hu
  have hroom : elements.length = capacity * array.elementSize :=
    hlength.trans (eq_of_byteLength hsize)
  -- both regions are housed once the new one was handed out
  refine (Pool.copy_abides hspares.fit (hspares.houses housed).guards hnew.guards
    (inside_of_relocate shaped hroom h)).bind fun _ v hspares' _ => ?_
  have hquiet : (Event.logged (.arrayRelocated array.capacity capacity)).ran? = none := rfl
  have hlogged := PoolState.Spares.ofCalm hspares'.fit (.log v.world hquiet)
  exact ⟨hlogged, ⟨hroom, h⟩, rfl, rfl, hlogged.houses (hspares'.houses hnew)⟩

/-- **Making room** for more elements, where the array is or elsewhere. -/
theorem growBy_abides (fit : s.Fit) (shaped : array.Shaped) (guards : s.pool.Guards array.elements)
    (hsize : size = additional * array.elementSize) (hlawful : Lawful moved)
    (hmoved : ∀ capacity, moved = .ok capacity → array.count + additional ≤ capacity) :
    Abides (array.growBy additional size moved) s fun after t => after.Shaped ∧
      after.count + additional ≤ after.capacity ∧ t.pool.Houses after.elements := by
  refine (Pool.extend_abides fit guards).bind fun extended t hspares ht => ?_
  obtain ⟨housed, hlonger⟩ := ht
  cases extended with
  | some longer =>
    obtain ⟨hlength, hhoused⟩ := hlonger longer rfl
    have hcount := shaped.count_le
    refine .pure hspares.fit ⟨⟨?_, Nat.le_add_right_of_le hcount⟩, ?_, hhoused⟩
    -- lengthened in place: as many slots more as were asked for
    · change longer.length = (array.capacity + additional) * array.elementSize
      rw [hlength, shaped.room, hsize, Nat.add_mul]
    · exact Nat.add_le_add_right hcount _
  | none =>
    -- elsewhere: the new capacity is the caller's, and large enough by `hmoved`
    refine (Abides.ofPool hspares.fit hlawful).bind fun capacity u _ hu => ?_
    obtain ⟨rfl, hok⟩ := hu
    have hroom := hmoved capacity hok
    refine (relocate_abides hspares.fit shaped housed (by omega)).mono fun after v _ hv => ?_
    obtain ⟨hshaped, hcount, hcapacity, hhoused⟩ := hv
    exact ⟨hshaped, by omega, hhoused⟩

/-- Room for twice as many is room for one more. -/
theorem succ_le_of_doubled (h : (max 1) <$> checkedCount (n * 2) = .ok capacity) :
    n + 1 ≤ capacity := by
  cases hchecked : checkedCount (n * 2) with
  | error failure => rw [hchecked] at h; cases h
  | ok doubled =>
    rw [hchecked] at h
    obtain rfl : max 1 doubled = capacity := Except.ok.inj h
    have := eq_of_checkedCount hchecked
    omega

/-- The slot that is claimed lies inside the region of the array. -/
theorem inside_of_claim (shaped : array.Shaped) (h : array.count + n ≤ array.capacity) :
    array.count * array.elementSize + n * array.elementSize ≤ array.elements.length := by
  rw [shaped.room, ← Nat.add_mul]
  exact Nat.mul_le_mul_right _ h

/-- **Counting more elements**, for which there is room. -/
theorem claim_abides (fit : s.Fit) (shaped : array.Shaped) (guards : s.pool.Guards array.elements)
    (h : array.count + n ≤ array.capacity) :
    Abides (array.claim n) s fun claimed t => claimed.2.Shaped ∧
      t.pool.Houses claimed.1.region ∧
      claimed.1.start + claimed.1.length ≤ claimed.1.region.length := by
  have inside := inside_of_claim shaped h
  have hread : Lawful (Slot.bytes
      { region := array.elements, start := array.count * array.elementSize,
        length := n * array.elementSize } s.pool) := Slot.bytes_lawful guards inside
  refine (Abides.ofPool fit hread).discard.bind fun _ t _ ht => ?_
  obtain ⟨bytes, rfl, hbytes⟩ := ht
  refine .pure fit ⟨⟨shaped.room, h⟩, ?_, inside⟩
  -- the elements were read just now
  obtain ⟨found, hlocate, -⟩ := bind_eq_ok_iff.mp hbytes
  exact (guards.of_locate hlocate).1

/-- **Appending an element.** -/
theorem push_abides (fit : s.Fit) (shaped : array.Shaped) (guards : s.pool.Guards array.elements) :
    Abides array.push s fun pushed t => pushed.2.Shaped ∧ t.pool.Houses pushed.1.region ∧
      pushed.1.start + pushed.1.length ≤ pushed.1.region.length := by
  have hcount := shaped.count_le
  rw [push]
  split
  · refine (growBy_abides fit shaped guards (Nat.one_mul _).symm (checkedCount_lawful _).map
      -- a full array is doubled or gets its first slot, which is one more at least
      fun capacity hok => ?_).bind fun after t hspares ht => ?_
    · have := succ_le_of_doubled hok
      omega
    · obtain ⟨hshaped, hroom, housed⟩ := ht
      exact claim_abides hspares.fit hshaped housed.guards hroom
  · exact claim_abides fit shaped guards (by omega)

/-- **Appending several elements.** -/
theorem pushMany_abides (fit : s.Fit) (shaped : array.Shaped)
    (guards : s.pool.Guards array.elements) :
    Abides (array.pushMany n) s fun pushed t => pushed.2.Shaped ∧ t.pool.Houses pushed.1.region ∧
      pushed.1.start + pushed.1.length ≤ pushed.1.region.length := by
  have hcount := shaped.count_le
  refine (Abides.ofPool fit (checkedCount_lawful _)).bind fun needed t _ ht => ?_
  obtain ⟨rfl, hneeded⟩ := ht
  have hsum := eq_of_checkedCount hneeded
  split
  -- full: room is made first, and both sums are checked on the way
  · refine (Abides.ofPool fit (byteLength_lawful _ _)).bind fun size u _ hu => ?_
    obtain ⟨rfl, hsize⟩ := hu
    refine (growBy_abides fit shaped guards (eq_of_byteLength hsize) (checkedCount_lawful _)
      fun capacity hok => ?_).bind fun after v hspares hv => ?_
    · have := eq_of_checkedCount hok
      omega
    · obtain ⟨hshaped, hroom, housed⟩ := hv
      exact claim_abides hspares.fit hshaped housed.guards hroom
  · exact claim_abides fit shaped guards (by omega)

/-- **Giving a region back** as far as it was claimed last. -/
theorem giveBack_abides {region : Region} (fit : s.Fit) (trusts : s.pool.Trusts region) :
    Abides (giveBack region) s fun _ _ => True := by
  have hends : Ends (giveBack region) s (fun _ _ => True)
      fun failure _ => failure.IsRefusal := by
    have hlawful := Pool.reclaim_lawful trusts
    unfold Ends giveBack
    rcases hrun : s.pool.reclaim region with (_ | fault) | ⟨_ | _, pool⟩
    · trivial
    · exact hlawful _ hrun
    · trivial
    · trivial
  have hknown : ∀ other ∈ [region], s.pool.Trusts other := fun other hmem =>
    List.mem_singleton.mp hmem ▸ trusts
  exact (Abides.of_hands (giveBack_hands (List.mem_singleton_self region)) fit hknown hends).mono
    fun _ _ _ _ => trivial

/-- **Destroying an array.** -/
theorem destroy_abides (fit : s.Fit) (trusts : ∀ region ∈ array.regions, s.pool.Trusts region) :
    Abides array.destroy s fun _ _ => True := by
  have hlogged : ∀ (start : PoolState) (elements header : Nat), start.Fit → Abides (do
      log (.arrayDestroyed (elements + header))
      return elements + header) start fun _ _ => True := fun start _ _ hfit =>
    ⟨.ofCalm hfit (.log start.world rfl), trivial⟩
  refine (giveBack_abides fit (trusts _ List.mem_cons_self)).bind fun elements t hspares _ => ?_
  -- the pool may not know either of the two any more, but it is trusted with them
  split
  · next header hheader =>
    have hmem : header ∈ array.regions := by
      rw [regions, hheader]
      exact List.mem_cons_of_mem _ List.mem_cons_self
    exact (giveBack_abides hspares.fit (hspares.trusts (trusts header hmem))).bind
      fun _ _ hspares' _ => hlogged _ _ _ hspares'.fit
  · have hnone : Abides (pure 0) t fun _ _ => True := .pure hspares.fit trivial
    exact hnone.bind fun _ _ hspares' _ => hlogged _ _ _ hspares'.fit

/-- **Writing to an element**, or to none. -/
theorem set?_abides (fit : s.Fit) (shaped : array.Shaped) (guards : s.pool.Guards array.elements) :
    Abides (onPool (array.set? index content)) s fun _ _ => True := by
  have hinside : ∀ slot, array.slot? index = some slot → slot.region = array.elements ∧
      slot.start + slot.length ≤ array.elements.length := by
    intro slot hslot
    obtain ⟨hlt, heq⟩ := Option.ite_none_right_eq_some.mp hslot
    obtain rfl := Option.some.inj heq
    refine ⟨rfl, ?_⟩
    change index * array.elementSize + array.elementSize ≤ _
    rw [shaped.room, ← Nat.succ_mul]
    exact Nat.mul_le_mul_right _ (Nat.le_trans hlt shaped.count_le)
  have hlawful : Lawful (array.set? index content s.pool) := by
    refine ((Pool.locate_lawful guards).map).bind fun _ _ => ?_
    split
    · exact .ok _
    · next slot hslot =>
      obtain ⟨hregion, inside⟩ := hinside slot hslot
      rw [← hregion] at inside guards
      refine (Slot.writeContent_lawful guards inside).bind fun pool hpool => ?_
      -- the element is read again in the pool that was written to
      obtain ⟨bytes, store, hbytes, rfl⟩ := Slot.writeContent_eq_ok hpool
      obtain ⟨found, hlocate, -⟩ := bind_eq_ok_iff.mp hbytes
      have hspares := PoolState.Spares.overwrite fit store
        (slot.region.place.offset + slot.start) (content.apply bytes)
      exact (Slot.bytes_lawful (hspares.houses (guards.of_locate hlocate).1).guards inside).bind
        fun _ _ => .ok _
  have hends : Ends (onPool (array.set? index content)) s (fun _ _ => True)
      fun failure _ => failure.IsRefusal := by
    rw [ends_onPool]
    exact ⟨fun _ _ _ => trivial, hlawful⟩
  have hnone : ∀ region ∈ ([] : List Region), s.pool.Trusts region := nofun
  exact (Abides.of_hands set?_hands fit hnone hends).mono fun _ _ _ _ => trivial

end GrowArray

/-! ### Lists -/

namespace PartList

variable {s : PoolState} {list : PartList} {partCapacity : PartCapacity} {elementSize : Nat}

/-- **A new list** has its shape. -/
theorem init_abides (fit : s.Fit) :
    Abides (init partCapacity elementSize) s fun list _ => list.Shaped := by
  refine (Abides.ofPool fit (byteLength_lawful _ _)).bind fun size t _ ht => ?_
  obtain ⟨rfl, hsize⟩ := ht
  refine (Pool.alloc_abides fit).bind fun elements u hspares hu => .pure hspares.fit ?_
  refine ⟨fun part hmem => ?_, fun part hmem => ?_⟩
  · rw [List.mem_singleton.mp hmem]
    exact hu.1.trans (eq_of_byteLength hsize)
  · rw [List.mem_singleton.mp hmem]
    exact Nat.zero_le _

theorem create_abides (fit : s.Fit) :
    Abides (create partCapacity elementSize) s fun list _ => list.Shaped := by
  refine (Pool.alloc_abides fit).bind fun header t hspares _ => ?_
  exact (init_abides hspares.fit).bind fun list u hspares' shaped => .pure hspares'.fit
    ⟨shaped.room, shaped.count_le⟩

/-- **Starting a new part**, which is empty. -/
theorem appendPart_abides (fit : s.Fit) (shaped : list.Shaped)
    (guards : s.pool.Guards list.last.elements) :
    Abides list.appendPart s fun after t => after.Shaped ∧ after.last.count = 0 ∧
      t.pool.Houses after.last.elements := by
  -- the pool of the last part is looked for first, so what fails there claims nothing
  refine (Abides.ofPool fit (Pool.locate_lawful guards)).discard.bind fun _ _ hspares₀ _ => ?_
  refine (Pool.alloc_abides hspares₀.fit).bind fun header t hspares _ => ?_
  refine (Abides.ofPool hspares.fit (byteLength_lawful _ _)).bind fun size u _ hu => ?_
  obtain ⟨rfl, hsize⟩ := hu
  refine (Pool.alloc_abides hspares.fit).bind fun elements v hspares' hv => ?_
  obtain ⟨hlength, hnew⟩ := hv
  let parts := (list.parts ++ [(⟨some header, elements, 0⟩ : Part)]).length
  have hquiet : (Event.logged (.listPartAppended parts)).ran? = none := rfl
  have hlogged := PoolState.Spares.ofCalm hspares'.fit (.log v.world hquiet)
  refine ⟨hlogged, ⟨fun part hmem => ?_, fun part hmem => ?_⟩, rfl, hlogged.houses hnew⟩
  -- old parts keep their room, and the new one has what was asked for
  · rcases List.mem_append.mp hmem with hold | hpart
    · exact shaped.room part hold
    · rw [List.mem_singleton.mp hpart]
      exact hlength.trans (eq_of_byteLength hsize)
  · rcases List.mem_append.mp hmem with hold | hpart
    · exact shaped.count_le part hold
    · rw [List.mem_singleton.mp hpart]
      exact Nat.zero_le _

/-- The slot that is claimed lies inside the last part. -/
theorem inside_of_claim (shaped : list.Shaped) (h : list.last.count < list.partCapacity) :
    list.last.count * list.elementSize + list.elementSize ≤ list.last.elements.length := by
  have hlast := list.last_mem_parts
  rw [shaped.room _ hlast, ← Nat.succ_mul]
  exact Nat.mul_le_mul_right _ h

/-- **Counting one more element**, for which there is room. -/
theorem claim_abides (fit : s.Fit) (shaped : list.Shaped)
    (guards : s.pool.Guards list.last.elements) (h : list.last.count < list.partCapacity) :
    Abides list.claim s fun claimed t => claimed.2.Shaped ∧ t.pool.Houses claimed.1.region ∧
      claimed.1.start + claimed.1.length ≤ claimed.1.region.length := by
  have hlast := list.last_mem_parts
  have inside := inside_of_claim shaped h
  have hread : Lawful (Slot.bytes
      { region := list.last.elements, start := list.last.count * list.elementSize,
        length := list.elementSize } s.pool) := Slot.bytes_lawful guards inside
  -- the slot is inside the last part, so that it is found is all that is checked
  refine (Abides.ofPool fit hread).discard.bind fun _ t _ ht => ?_
  obtain ⟨bytes, rfl, hbytes⟩ := ht
  obtain ⟨found, hlocate, -⟩ := bind_eq_ok_iff.mp hbytes
  refine .pure fit ⟨⟨fun part hmem => ?_, fun part hmem => ?_⟩, (guards.of_locate hlocate).1,
    inside⟩
  -- counting changes the last part, and that one had room
  · rcases List.mem_append.mp hmem with hold | hpart
    · exact shaped.room part (List.mem_append_left _ hold)
    · rw [List.mem_singleton.mp hpart]
      exact shaped.room list.last hlast
  · rcases List.mem_append.mp hmem with hold | hpart
    · exact shaped.count_le part (List.mem_append_left _ hold)
    · rw [List.mem_singleton.mp hpart]
      exact h

/-- **Appending an element.** -/
theorem push_abides (fit : s.Fit) (shaped : list.Shaped)
    (guards : s.pool.Guards list.last.elements) :
    Abides list.push s fun pushed t => pushed.2.Shaped ∧ t.pool.Houses pushed.1.region ∧
      pushed.1.start + pushed.1.length ≤ pushed.1.region.length := by
  rw [push]
  split
  · refine (appendPart_abides fit shaped guards).bind fun after t hspares ht => ?_
    obtain ⟨hshaped, hcount, housed⟩ := ht
    have hroom : after.last.count < after.partCapacity := by
      rw [hcount]
      exact after.partCapacity.2
    exact claim_abides hspares.fit hshaped housed.guards hroom
  -- the last part has room for one more
  · next hne =>
    have hlast := list.last_mem_parts
    exact claim_abides fit shaped guards (Nat.lt_of_le_of_ne (shaped.count_le _ hlast) hne)

end PartList

end RegionPool
