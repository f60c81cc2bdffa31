import RegionPool.Proofs.Courses
import RegionPool.Proofs.Handing
import RegionPool.Proofs.Unwinding

/-!
# How a command turns out

A session is made of pools that know nothing of each other, and of a caller who may mix up what they
hand out. This module says of every command what becomes of the pools and of what the caller holds.

* `Session.handles` — every region that the caller holds, those of containers and cleanup records
  included;
* `Session.Vouched` — each of them belongs to one of the slots, and lies where that pool hands out
  bytes, if it is still there;
* `Session.Turn`, `Session.Step` — how a command turns out; `exec_spares` for commands that have
  nothing to do with cleanup records or large buffers given back, and `exec_step` for all of them;
* `Vouched.run` — every history keeps what the caller holds vouched for.
-/

namespace RegionPool

open PoolM

/-! ### What a caller holds -/

/-- **A pool bounds a region** if its place has a site there that it fits. Nothing is asked of large
regions, whose bytes may be gone. -/
def Pool.Bounds (pool : Pool) (region : Region) : Prop :=
  (∃ site, pool.siteOf? region.place = some site ∧ region.FitsIn site) ∨
    ∃ id, region.place = .large id

theorem Pool.Houses.bounds {pool : Pool} {region : Region} (h : pool.Houses region) :
    pool.Bounds region := .inl h.site

/-- Bounds last as long as the pool. -/
theorem PoolState.Endures.bounds {s t : PoolState} {region : Region} (h : s.Endures t)
    (bounds : s.pool.Bounds region) : t.pool.Bounds region := by
  cases hplace : region.place with
  | large id => exact .inr ⟨id, hplace⟩
  | block index offset =>
    -- a block keeps its site, though its cursor may be elsewhere
    rcases bounds with ⟨site, hsite, fits⟩ | ⟨id, hlarge⟩
    · rw [hplace] at hsite
      obtain ⟨block, hblock, rfl⟩ := Option.map_eq_some_iff.mp hsite
      obtain ⟨after, hafter, heq⟩ := h.blocks index block hblock
      refine .inl ⟨after.site, ?_, heq ▸ fits⟩
      rw [hplace]
      exact Pool.siteOf?_block hafter
    · rw [hlarge] at hplace
      cases hplace

/-- **A plain command** neither makes, resets nor destroys a pool, gives no large buffer back early,
and leaves cleanup records as they are. -/
def Command.Plain : Command → Prop
  | .createPool _ _ | .reset _ | .destroy _ | .free _ _ | .addCleanup _ _ | .onDestroy _ _
  | .setCustom _ _ _ | .setWithData _ _ _ _ | .setFile _ _ _ _ _ | .disableCleanup _ _
  | .runFileCleanup _ _ => False
  | _ => True

/-- **An ordinary command** neither makes, resets nor destroys a pool. -/
def Command.Ordinary : Command → Prop
  | .createPool _ _ | .reset _ | .destroy _ => False
  | _ => True

/-- **A restful command** is an ordinary one that runs no cleanup action. -/
def Command.Restful : Command → Prop
  | .createPool _ _ | .reset _ | .destroy _ | .runFileCleanup _ _ => False
  | _ => True

namespace Session

/-- **The regions that a caller holds**: its own, and those of its cleanup records, arrays and
lists. -/
def handles (s : Session) : List Region :=
  s.regions ++ s.tickets.filterMap CleanupTicket.data ++
    s.arrays.reduceOption.flatMap GrowArray.regions ++ s.lists.flatMap PartList.handles

variable {α : Type} {s u after : Session} {slot : Nat} {region : Region} {regions : List Region}
  {tickets : List CleanupTicket}

theorem mem_handles_iff : region ∈ s.handles ↔
    region ∈ s.regions ∨ (∃ ticket ∈ s.tickets, ticket.data = some region) ∨
      (∃ array, some array ∈ s.arrays ∧ region ∈ array.regions) ∨
      ∃ list ∈ s.lists, region ∈ list.handles := by
  simp only [handles, List.mem_append, List.mem_filterMap, List.mem_flatMap,
    List.reduceOption_mem_iff, or_assoc]

/-- **A session gains regions and tickets**, and nothing else happens to it. It may lose what it
held before. -/
structure Gains (s : Session) (regions : List Region) (tickets : List CleanupTicket)
    (after : Session) : Prop where
  world : after.world = s.world
  pools : after.pools = s.pools
  handles : ∀ region ∈ after.handles, region ∈ s.handles ∨ region ∈ regions
  tickets : ∀ ticket ∈ after.tickets, ticket ∈ s.tickets ∨ ticket ∈ tickets

namespace Gains

theorem refl (s : Session) : s.Gains regions tickets s :=
  ⟨rfl, rfl, fun _ hmem => .inl hmem, fun _ hmem => .inl hmem⟩

/-- What is gained is gained in one of the tables. -/
theorem of_tables (world : after.world = s.world) (pools : after.pools = s.pools)
    (hregions : ∀ region ∈ after.regions, region ∈ s.regions ∨ region ∈ regions)
    (htickets : ∀ ticket ∈ after.tickets, ticket ∈ s.tickets ∨
      (ticket ∈ tickets ∧ ∀ region ∈ ticket.data, region ∈ regions))
    (harrays : ∀ array, some array ∈ after.arrays → some array ∈ s.arrays ∨
      ∀ region ∈ array.regions, region ∈ regions)
    (hlists : ∀ list ∈ after.lists, list ∈ s.lists ∨ ∀ region ∈ list.handles, region ∈ regions) :
    s.Gains regions tickets after where
  world := world
  pools := pools
  handles region hmem := by
    rw [mem_handles_iff] at hmem ⊢
    -- a handle is in one of four tables, and each says what is new in it
    rcases hmem with hregion | ⟨ticket, hticket, hdata⟩ | ⟨array, harray, hof⟩ | ⟨list, hlist, hof⟩
    · exact (hregions region hregion).imp_left .inl
    · rcases htickets ticket hticket with hold | ⟨-, hnew⟩
      · exact .inl (.inr (.inl ⟨ticket, hold, hdata⟩))
      · exact .inr (hnew region hdata)
    · rcases harrays array harray with hold | hnew
      · exact .inl (.inr (.inr (.inl ⟨array, hold, hof⟩)))
      · exact .inr (hnew region hof)
    · rcases hlists list hlist with hold | hnew
      · exact .inl (.inr (.inr (.inr ⟨list, hold, hof⟩)))
      · exact .inr (hnew region hof)
  tickets ticket hmem := (htickets ticket hmem).imp_right And.left

/-- What is appended to a table was there or is new. -/
private theorem mem_append_singleton {a b : α} {items : List α} (h : b ∈ items ++ [a]) :
    b ∈ items ∨ b = a :=
  (List.mem_append.mp h).imp_right List.mem_singleton.mp

theorem keepRegion (s : Session) (region : Region) :
    s.Gains [region] [] (s.keepRegion region).2 :=
  .of_tables rfl rfl
    (fun _ hmem => (mem_append_singleton hmem).imp_right List.mem_singleton.mpr)
    (fun _ hmem => .inl hmem) (fun _ hmem => .inl hmem) fun _ hmem => .inl hmem

theorem keepTicket (s : Session) (ticket : CleanupTicket) :
    s.Gains ticket.data.toList [ticket] (s.keepTicket ticket).2 := by
  refine .of_tables rfl rfl (fun _ hmem => .inl hmem) (fun other hmem => ?_)
    (fun _ hmem => .inl hmem) fun _ hmem => .inl hmem
  rcases mem_append_singleton hmem with hold | rfl
  · exact .inl hold
  · exact .inr ⟨List.mem_singleton_self _, fun region hdata => Option.mem_toList.mpr hdata⟩

theorem keepArray (s : Session) (array : GrowArray) :
    s.Gains array.regions [] (s.keepArray array).2 := by
  refine .of_tables rfl rfl (fun _ hmem => .inl hmem) (fun _ hmem => .inl hmem)
    (fun other hmem => ?_) fun _ hmem => .inl hmem
  rcases mem_append_singleton hmem with hold | hnew
  · exact .inl hold
  · exact .inr fun _ hof => Option.some.inj hnew ▸ hof

theorem keepList (s : Session) (list : PartList) :
    s.Gains list.handles [] (s.keepList list).2 := by
  refine .of_tables rfl rfl (fun _ hmem => .inl hmem) (fun _ hmem => .inl hmem)
    (fun _ hmem => .inl hmem) fun other hmem => ?_
  rcases mem_append_singleton hmem with hold | rfl
  · exact .inl hold
  · exact .inr fun _ hof => hof

theorem setRegion (s : Session) (index : Nat) (region : Region) :
    s.Gains [region] [] (s.setRegion index region) :=
  .of_tables rfl rfl
    (fun _ hmem => (List.mem_or_eq_of_mem_set hmem).imp_right List.mem_singleton.mpr)
    (fun _ hmem => .inl hmem) (fun _ hmem => .inl hmem) fun _ hmem => .inl hmem

theorem setArray (s : Session) (index : Nat) (array : Option GrowArray) :
    s.Gains (array.toList.flatMap GrowArray.regions) [] (s.setArray index array) := by
  refine .of_tables rfl rfl (fun _ hmem => .inl hmem) (fun _ hmem => .inl hmem)
    (fun other hmem => ?_) fun _ hmem => .inl hmem
  rcases List.mem_or_eq_of_mem_set hmem with hold | rfl
  · exact .inl hold
  · exact .inr fun _ hof => List.mem_flatMap.mpr ⟨other, List.mem_singleton_self _, hof⟩

theorem setList (s : Session) (index : Nat) (list : PartList) :
    s.Gains list.handles [] (s.setList index list) := by
  refine .of_tables rfl rfl (fun _ hmem => .inl hmem) (fun _ hmem => .inl hmem)
    (fun _ hmem => .inl hmem) fun other hmem => ?_
  rcases List.mem_or_eq_of_mem_set hmem with hold | rfl
  · exact .inl hold
  · exact .inr fun _ hof => hof

end Gains

/-! ### Turns -/

/-- **A command takes a turn**: nothing happens to a pool, or the pool that it names goes on in this
way. What the caller holds afterwards it held before, or the pool houses it. -/
inductive Turn (Goes : PoolState → PoolState → Prop) (s : Session) (slot? : Option Nat)
    (after : Session) : Prop
  | idle (calm : s.world.Calm after.world) (pools : after.pools = s.pools)
      (handles : ∀ region ∈ after.handles, region ∈ s.handles)
      (tickets : ∀ ticket ∈ after.tickets, ticket ∈ s.tickets)
  | acted {slot pool t} (named : slot? = some slot) (here : s.pool? slot = some pool)
      (goes : Goes ⟨pool, s.world⟩ t) (pools : after.pools = s.pools.set slot (some t.pool))
      (world : after.world = t.world)
      (handles : ∀ region ∈ after.handles, region ∈ s.handles ∨ t.pool.Houses region)
      (tickets : ∀ ticket ∈ after.tickets, ticket ∈ s.tickets ∨
        (ticket.pool = t.pool.id ∧ ticket.index < t.pool.cleanups.count))

section Turn

variable {Goes Goes' : PoolState → PoolState → Prop} {slot? : Option Nat}

namespace Turn

theorem mono (h : s.Turn Goes slot? after) (imp : ∀ s t, Goes s t → Goes' s t) :
    s.Turn Goes' slot? after := by
  cases h with
  | idle calm pools handles tickets => exact .idle calm pools handles tickets
  | acted named here goes pools world handles tickets =>
    exact .acted named here (imp _ _ goes) pools world handles tickets

/-- Nothing happens to a pool, and nothing new is held. -/
theorem gains (h : s.Gains regions tickets after) (hregions : ∀ region ∈ regions,
    region ∈ s.handles) (htickets : ∀ ticket ∈ tickets, ticket ∈ s.tickets) :
    s.Turn Goes slot? after :=
  .idle (h.world ▸ .refl _) h.pools
    (fun region hmem => (h.handles region hmem).elim id (hregions region))
    fun ticket hmem => (h.tickets ticket hmem).elim id (htickets ticket)

theorem refl (s : Session) : s.Turn Goes slot? s :=
  .gains (.refl s) (fun _ hmem => (List.not_mem_nil hmem).elim)
    fun _ hmem => (List.not_mem_nil hmem).elim

/-- What a command names may not be there. -/
theorem withFound {found : Option α} {next : α → Reply × Session}
    (h : ∀ a, found = some a → s.Turn Goes slot? (next a).2) :
    s.Turn Goes slot? (s.withFound found next).2 := by
  cases found with
  | none => exact .refl s
  | some a => exact h a rfl

/-- **An action on the pool that is named**, and keeping what it came back with. -/
theorem perform {action : PoolM α} {regions : α → List Region} {tickets : α → List CleanupTicket}
    {next : α → Session → Reply × Session}
    (hends : ∀ pool, s.pool? slot = some pool → Ends action ⟨pool, s.world⟩
      (fun a t => Goes ⟨pool, s.world⟩ t ∧
        (∀ region ∈ regions a, region ∈ s.handles ∨ t.pool.Houses region) ∧
        ∀ ticket ∈ tickets a, ticket.pool = t.pool.id ∧ ticket.index < t.pool.cleanups.count)
      (fun _ t => Goes ⟨pool, s.world⟩ t))
    (hnext : ∀ a (u : Session), u.Gains (regions a) (tickets a) (next a u).2) :
    s.Turn Goes (some slot) (s.perform slot action next).2 := by
  refine .withFound fun pool here => ?_
  have hends' := hends pool here
  split
  · next a t run =>
    obtain ⟨goes, hregions, htickets⟩ := hends'.ok_of run
    -- the pool is settled first; what is kept afterwards changes the tables alone
    have hgains := hnext a (s.settle slot t)
    exact .acted rfl here goes hgains.pools hgains.world
      (fun region hmem => (hgains.handles region hmem).elim .inl (hregions region))
      fun ticket hmem => (hgains.tickets ticket hmem).imp_right (htickets ticket)
  · next failure t run =>
    exact .acted rfl here (hends'.fail_of run) rfl rfl (fun _ hmem => .inl hmem)
      fun _ hmem => .inl hmem

end Turn

end Turn

/-! ### What is vouched for -/

/-- **What the caller holds is vouched for.** Pools are numbered by their slots and fit. Every
region belongs to one of the slots, and the pool there, if there still is one, bounds it; every
ticket, too, belongs to one of the slots, where its record was registered. -/
structure Vouched (s : Session) : Prop where
  nextPool : s.world.nextPool = s.pools.length + 1
  numbered : ∀ slot pool, s.pool? slot = some pool → pool.id = ⟨slot + 1⟩
  fit : ∀ slot pool, s.pool? slot = some pool → PoolState.Fit ⟨pool, s.world⟩
  handles : ∀ region ∈ s.handles, ∃ slot, slot < s.pools.length ∧ region.pool = ⟨slot + 1⟩ ∧
    ∀ pool, s.pool? slot = some pool → pool.Bounds region
  tickets : ∀ ticket ∈ s.tickets, ∃ slot, slot < s.pools.length ∧ ticket.pool = ⟨slot + 1⟩ ∧
    ∀ pool, s.pool? slot = some pool → ticket.index < pool.cleanups.count

namespace Vouched

/-- Numbers tell slots apart. -/
theorem slot_eq {other : Nat} {pool : Pool} (vouched : s.Vouched) (here : s.pool? slot = some pool)
    (h : pool.id = ⟨other + 1⟩) : other = slot := by
  rw [vouched.numbered slot pool here] at h
  exact (Nat.succ.inj (PoolId.mk.inj h)).symm

/-- **A pool bounds the regions that are its own.** -/
theorem bounds {pool : Pool} (vouched : s.Vouched) (here : s.pool? slot = some pool)
    (held : region ∈ s.handles) (hpool : region.pool = pool.id) : pool.Bounds region := by
  obtain ⟨other, -, hid, hbounds⟩ := vouched.handles region held
  obtain rfl := vouched.slot_eq here (hpool.symm.trans hid)
  exact hbounds pool here

/-- **Every pool trusts what the caller holds.** -/
theorem trusts {pool : Pool} (vouched : s.Vouched) (here : s.pool? slot = some pool)
    (held : region ∈ s.handles) : pool.Trusts region :=
  fun hpool hgeneration => (vouched.bounds here held hpool).imp_left fun hsite =>
    ⟨hpool, hgeneration, hsite⟩

end Vouched

/-! ### Commands that spare every site -/

section Commands

variable {command : Command} {slot? : Option Nat}

/-- What is found in a table is held. -/
theorem handles_of_array? {index : Nat} {array : GrowArray} (h : s.array? index = some array) :
    ∀ region ∈ array.regions, region ∈ s.handles := by
  have hmem : some array ∈ s.arrays := List.mem_of_getElem? (Option.join_eq_some_iff.mp h)
  exact fun _ hof => mem_handles_iff.mpr (.inr (.inr (.inl ⟨array, hmem, hof⟩)))

theorem handles_of_list? {index : Nat} {list : PartList} (h : s.list? index = some list) :
    ∀ region ∈ list.handles, region ∈ s.handles :=
  fun _ hof => mem_handles_iff.mpr (.inr (.inr (.inr ⟨list, List.mem_of_getElem? h, hof⟩)))

theorem mem_handles_of_region? {index : Nat} (h : s.region? index = some region) :
    region ∈ s.handles :=
  mem_handles_iff.mpr (.inl (List.mem_of_getElem? h))

theorem mem_handles_of_ticket? {index : Nat} {ticket : CleanupTicket}
    (h : s.ticket? index = some ticket) (hdata : ticket.data = some region) : region ∈ s.handles :=
  mem_handles_iff.mpr (.inr (.inl ⟨ticket, List.mem_of_getElem? h, hdata⟩))

/-- **An action that hands out regions**, which are kept. -/
theorem Turn.hands {action : PoolM α} {regions : α → List Region}
    {next : α → Session → Reply × Session} (vouched : s.Vouched)
    (hands : Hands action s.handles regions)
    (hnext : ∀ a (u : Session), u.Gains (regions a) [] (next a u).2) :
    s.Turn PoolState.Spares (some slot) (s.perform slot action next).2 := by
  refine .perform (fun pool here => ?_) hnext
  have hends := hands ⟨pool, s.world⟩ (vouched.fit slot pool here)
    fun region held => vouched.trusts here held
  exact hends.mono (fun a t ht => ⟨ht.1, ht.2, fun _ hmem => (List.not_mem_nil hmem).elim⟩)
    fun _ _ ht => ht

/-- An action after which nothing is kept. -/
theorem Turn.performNone {Goes : PoolState → PoolState → Prop} {action : PoolM α}
    {reply : α → Reply} (hends : ∀ pool, s.pool? slot = some pool → Ends action ⟨pool, s.world⟩
      (fun _ t => Goes ⟨pool, s.world⟩ t) (fun _ t => Goes ⟨pool, s.world⟩ t)) :
    s.Turn Goes (some slot) (s.perform slot action fun a u => (reply a, u)).2 := by
  have hnext : ∀ (_ : α) (u : Session), u.Gains [] [] u := fun _ u => .refl u
  refine .perform (fun pool here => ?_) hnext
  exact (hends pool here).mono (fun _ _ goes => ⟨goes, fun _ hmem => (List.not_mem_nil hmem).elim,
    fun _ hmem => (List.not_mem_nil hmem).elim⟩) fun _ _ goes => goes

/-- An action that hands out nothing. -/
theorem Turn.handsNone {action : PoolM α} {reply : α → Reply} (vouched : s.Vouched)
    (hands : Hands action s.handles fun _ => []) :
    s.Turn PoolState.Spares (some slot) (s.perform slot action fun a u => (reply a, u)).2 :=
  .hands vouched hands fun _ u => .refl u

/-- **Something is done before** that leaves the pools and what is held, or loses some of it. -/
theorem Turn.prepend {Goes : PoolState → PoolState → Prop} (s' : Session)
    (calm : s.world.Calm s'.world) (hgains : { s with world := s'.world }.Gains [] [] s')
    (hgoes : ∀ slot pool t, s.pool? slot = some pool → Goes ⟨pool, s'.world⟩ t →
      Goes ⟨pool, s.world⟩ t)
    (h : s'.Turn Goes slot? after) : s.Turn Goes slot? after := by
  have hhandles : ∀ region ∈ s'.handles, region ∈ s.handles := fun region hmem =>
    (hgains.handles region hmem).elim id fun hnone => (List.not_mem_nil hnone).elim
  have htickets : ∀ ticket ∈ s'.tickets, ticket ∈ s.tickets := fun ticket hmem =>
    (hgains.tickets ticket hmem).elim id fun hnone => (List.not_mem_nil hnone).elim
  have hpools : s'.pools = s.pools := hgains.pools
  -- what comes after may hold whatever was held before
  cases h with
  | idle calm' pools handles tickets =>
    exact .idle (calm.trans calm') (pools.trans hpools)
      (fun region hmem => hhandles region (handles region hmem))
      fun ticket hmem => htickets ticket (tickets ticket hmem)
  | @acted slot pool t named here goes pools world handles tickets =>
    have here' : s.pool? slot = some pool := by rwa [pool?, ← hpools]
    exact .acted named here' (hgoes slot pool t here' goes) (hpools ▸ pools) world
      (fun region hmem => (handles region hmem).imp_left (hhandles region))
      fun ticket hmem => (tickets ticket hmem).imp_left (htickets ticket)

/-- Only the world changes, and it is calm. -/
theorem Turn.ofCalm {Goes : PoolState → PoolState → Prop} {world : World}
    (calm : s.world.Calm world) : s.Turn Goes slot? { s with world } :=
  .idle calm rfl (fun _ hmem => hmem) fun _ hmem => hmem

theorem allocate_turn {action : PoolM Region} (vouched : s.Vouched)
    (hands : Hands action s.handles fun region => [region]) :
    s.Turn PoolState.Spares (some slot) (s.allocate slot action).2 :=
  .hands vouched hands fun region u => .keepRegion u region

theorem extend_turn {index additional : Nat} (vouched : s.Vouched) :
    s.Turn PoolState.Spares (some slot) (s.extend slot index additional).2 := by
  refine .withFound fun region hregion => ?_
  refine .hands vouched (Pool.extend_hands (mem_handles_of_region? hregion))
    fun extended u => ?_
  cases extended with
  | none => exact .refl u
  | some longer => exact .setRegion u index longer

theorem writeCleanup_turn {index : Nat} {content : Content} (vouched : s.Vouched) :
    s.Turn PoolState.Spares (some slot) (s.writeCleanup slot index content).2 := by
  refine .withFound fun ticket _ => .handsNone vouched ?_
  refine .bind .ofPool fun before => ?_
  split
  · exact Pool.writeContent_hands.bind fun _ => .pure nofun
  · have hnone : Hands (pure () : PoolM Unit) (s.handles ++ []) fun _ => [] := .pure nofun
    exact hnone.bind fun _ => .pure fun _ hmem => (List.not_mem_nil hmem).elim

theorem pushArray_turn {index : Nat} {push : GrowArray → PoolM (Slot × GrowArray)}
    {content : Content} (vouched : s.Vouched)
    (hands : ∀ array known, (∀ region ∈ array.regions, region ∈ known) →
      Hands (push array) known fun pushed => pushed.2.regions) :
    s.Turn PoolState.Spares (some slot) (s.pushArray slot index push content).2 := by
  refine .withFound fun array harray => ?_
  have hpush := hands array s.handles (handles_of_array? harray)
  -- writing the element hands out nothing beyond what the push did
  have haction : Hands (push array >>= fun pushed =>
      pushed.1.fill content >>= fun before => pure (before, pushed.2)) s.handles
      fun pushed => pushed.2.regions :=
    hpush.bind fun _ => Slot.fill_hands.bind fun _ => .pure fun _ hmem =>
      List.mem_append_left _ (List.mem_append_right _ hmem)
  refine .hands vouched haction fun pushed u => ?_
  have hgains := Gains.setArray u index (some pushed.2)
  rwa [Option.toList_some, List.flatMap_singleton] at hgains

theorem pushList_turn {index : Nat} {content : Content} (vouched : s.Vouched) :
    s.Turn PoolState.Spares (some slot) (s.pushList slot index content).2 := by
  refine .withFound fun list hlist => ?_
  have haction : Hands (list.push >>= fun pushed =>
      pushed.1.fill content >>= fun before => pure (before, pushed.2)) s.handles
      fun pushed => pushed.2.handles :=
    (PartList.push_hands (handles_of_list? hlist)).bind fun _ => Slot.fill_hands.bind fun _ =>
      .pure fun _ hmem => List.mem_append_left _ (List.mem_append_right _ hmem)
  exact .hands vouched haction fun pushed u => .setList u index pushed.2

theorem destroyArray_turn {index : Nat} (vouched : s.Vouched) :
    s.Turn PoolState.Spares (some slot) (s.destroyArray slot index).2 := by
  refine .withFound fun _ _ => .withFound fun array harray => ?_
  refine .prepend (s.setArray index none) (.refl _) (.setArray s index none)
    (fun _ _ _ _ goes => goes) ?_
  -- the array is held no longer, but it is still trusted
  refine .performNone fun pool here => ?_
  have hends := GrowArray.destroy_hands (handles_of_array? harray) ⟨pool, s.world⟩
    (vouched.fit slot pool here) fun region held => vouched.trusts here held
  exact hends.mono (fun _ _ ht => ht.1) fun _ _ ht => ht

/-! ### The caller and raw allocators -/

theorem receiveBuffer_turn {Goes : PoolState → PoolState → Prop}
    {received : Except AllocError Buffer × World} (calm : s.world.Calm received.2) :
    s.Turn Goes slot? (s.receiveBuffer received).2 := by
  rcases received with ⟨_ | _, world⟩
  · exact .ofCalm calm
  · exact .idle calm rfl (fun _ hmem => hmem) fun _ hmem => hmem

theorem freeBuffer_turn {Goes : PoolState → PoolState → Prop} {allocator : AllocatorId}
    {index : Nat} : s.Turn Goes slot? (s.freeBuffer allocator index).2 := by
  refine .withFound fun buffer _ => ?_
  dsimp only
  split
  · next world call => exact .idle (.release call) rfl (fun _ hmem => hmem) fun _ hmem => hmem
  · next fault world call =>
    exact .idle (.release call) rfl (fun _ hmem => hmem) fun _ hmem => hmem

/-- **Every plain command** spares all sites of the pool that it names. -/
theorem exec_spares (vouched : s.Vouched) (plain : command.Plain) :
    s.Turn PoolState.Spares command.pool? (s.exec command).2 := by
  cases command with
  | createPool _ _ | reset _ | destroy _ | free _ _ | addCleanup _ _ | onDestroy _ _
  | setCustom _ _ _ | setWithData _ _ _ _ | setFile _ _ _ _ _ | disableCleanup _ _
  | runFileCleanup _ _ => exact plain.elim
  -- the caller and the raw allocators: no pool acts
  | addAllocator allocator =>
    have hsame : s.world.Calm (s.world.addAllocator allocator).2 :=
      .of_tells ⟨(List.append_nil _).symm, rfl⟩ (Nat.le_refl _) rfl
    exact .ofCalm hsame
  | refill allocator budget =>
    refine .withFound fun refilled _ => ?_
    have hsame : s.world.Calm (s.world.setAllocator allocator refilled) :=
      .of_tells ⟨(List.append_nil _).symm, rfl⟩ (Nat.le_refl _) rfl
    exact .ofCalm hsame
  | newBuffer size align => exact receiveBuffer_turn (.newBuffer rfl)
  | requestBuffer allocator request => exact receiveBuffer_turn (.request rfl)
  | writeBuffer buffer content =>
    exact .withFound fun _ _ => .idle (.refl _) rfl (fun _ hmem => hmem) fun _ hmem => hmem
  | freeBuffer allocator buffer => exact freeBuffer_turn
  -- regions: what is new in the hands of the caller is housed, or a copy of what it has already
  | serve slot sizes => exact .handsNone vouched (Pool.serve_hands sizes)
  | alloc slot size => exact allocate_turn vouched Pool.alloc_hands
  | allocUnaligned slot size => exact allocate_turn vouched Pool.allocUnaligned_hands
  | allocZeroed slot size => exact allocate_turn vouched Pool.allocZeroed_hands
  | allocAlignedTo slot size align => exact allocate_turn vouched Pool.allocAlignedTo_hands
  | keepCopy index =>
    refine .withFound fun region hregion => .gains (.keepRegion s region) (fun other hmem => ?_)
      fun _ hmem => (List.not_mem_nil hmem).elim
    exact List.mem_singleton.mp hmem ▸ mem_handles_of_region? hregion
  | write slot index content =>
    exact .withFound fun _ _ => .handsNone vouched Pool.writeContent_hands
  | extend slot index additional => exact extend_turn vouched
  | reclaim slot index =>
    exact .withFound fun _ hregion =>
      .handsNone vouched (Pool.reclaim_hands (mem_handles_of_region? hregion))
  | copy slot source target length =>
    exact .withFound fun _ _ => .withFound fun _ _ =>
      .handsNone vouched (Pool.copy_hands.bind fun _ => .ofPool)
  | writeCleanup slot index content => exact writeCleanup_turn vouched
  | holdCleanupRegion index =>
    refine .withFound fun ticket hticket => ?_
    split
    · next region hdata =>
      refine .gains (.keepRegion s region) (fun other hmem => ?_)
        fun _ hmem => (List.not_mem_nil hmem).elim
      exact List.mem_singleton.mp hmem ▸ mem_handles_of_ticket? hticket hdata
    · exact .refl s
  | unlink path => exact .ofCalm (.setFiles _ _)
  -- containers: their elements lie in regions of the pool that they are created in
  | createArray slot capacity elementSize =>
    exact .hands vouched GrowArray.create_hands fun array u => .keepArray u array
  | initArray slot capacity elementSize =>
    exact .hands vouched GrowArray.init_hands fun array u => .keepArray u array
  | pushArray slot index content =>
    exact pushArray_turn vouched fun _ _ => GrowArray.push_hands
  | pushManyArray slot index n content =>
    exact pushArray_turn vouched fun _ _ => GrowArray.pushMany_hands
  | setArray slot index position content =>
    exact .withFound fun _ _ => .handsNone vouched GrowArray.set?_hands
  | cloneArray index =>
    exact .withFound fun array harray => .gains (.keepArray s array) (handles_of_array? harray)
      fun _ hmem => (List.not_mem_nil hmem).elim
  | destroyArray slot index => exact destroyArray_turn vouched
  | createList slot partCapacity elementSize =>
    exact .hands vouched PartList.create_hands fun list u => .keepList u list
  | initList slot partCapacity elementSize =>
    exact .hands vouched PartList.init_hands fun list u => .keepList u list
  | pushList slot index content => exact pushList_turn vouched
  | cloneList index =>
    exact .withFound fun list hlist => .gains (.keepList s list) (handles_of_list? hlist)
      fun _ hmem => (List.not_mem_nil hmem).elim

/-! ### Commands that concern cleanup records -/

/-- **A record is registered**, and its ticket kept. -/
theorem register_turn {action : PoolM CleanupTicket} (vouched : s.Vouched)
    (hends : ∀ start : PoolState, start.Fit → Ends action start
      (fun ticket t => ∃ u cleanups, start.Spares u ∧ u.world.Calm t.world ∧
        t.pool = { u.pool with cleanups } ∧ cleanups.count = u.pool.cleanups.count + 1 ∧
        ticket.pool = start.pool.id ∧ ticket.index = start.pool.cleanups.count ∧
        ∀ region ∈ ticket.data, u.pool.Houses region)
      (fun _ t => start.Spares t)) :
    s.Turn PoolState.Stays (some slot)
      (s.perform slot action fun ticket u => u.keepTicket ticket).2 := by
  refine .perform (fun pool here => ?_) fun ticket u => .keepTicket u ticket
  refine (hends _ (vouched.fit slot pool here)).mono (fun ticket t ht => ?_)
    fun _ _ hspares => hspares.stays
  obtain ⟨u, cleanups, hspares, hcalm, hpool, hcount, howner, hindex, housed⟩ := ht
  -- registering changes the stack only, and the region is reached as before
  obtain ⟨after, world⟩ := t
  obtain rfl : after = _ := hpool
  have hbefore : u.pool.cleanups.count = pool.cleanups.count :=
    congrArg CleanupStack.count hspares.cleanups
  refine ⟨hspares.stays.trans (.setCleanups hspares.fit ?_ hcalm),
    fun region hmem => .inr ?_, fun other hmem => ?_⟩
  · exact hcount.symm ▸ Nat.le_succ _
  · exact (housed region (Option.mem_toList.mp hmem)).of_siteOf? rfl rfl fun _ hsite => hsite
  · obtain rfl := List.mem_singleton.mp hmem
    refine ⟨howner.trans hspares.traits.id.symm, ?_⟩
    change _ < cleanups.count
    rw [hcount, hindex, hbefore]
    exact Nat.lt_succ_self _

/-- **A record gets an action.** -/
theorem setCleanup_turn {action : CleanupAction} {reply : Reply}
    {ticket : CleanupTicket} (vouched : s.Vouched) :
    s.Turn PoolState.Stays (some slot)
      (s.perform slot (Pool.setCleanup ticket action) fun _ u => (reply, u)).2 := by
  refine .performNone fun pool here => ?_
  have fit := vouched.fit slot pool here
  refine Pool.setCleanup_ends.mono (fun _ t ht => ?_) fun _ t ht => ?_
  · obtain ⟨-, hpool, hcalm⟩ := ht
    obtain ⟨after, world⟩ := t
    obtain rfl : after = _ := hpool
    exact .setCleanups fit (Nat.le_of_eq (CleanupStack.count_setAction ..).symm) hcalm
  -- without a record the pool is the same, and the action is dropped
  · obtain ⟨-, hpool, hcalm⟩ := ht
    obtain ⟨after, world⟩ := t
    obtain rfl : after = pool := hpool
    exact (PoolState.Spares.ofCalm fit hcalm).stays

theorem setFile_turn {index : Nat} {name : String} {kind : EntryKind} {delete : Bool}
    (vouched : s.Vouched) :
    s.Turn PoolState.Stays (some slot) (s.setFile slot index name kind delete).2 := by
  refine .withFound fun ticket _ => ?_
  split
  · refine .withFound fun _ _ => ?_
    have hcalm := World.Calm.setFiles s.world (s.world.files.create name kind).2
    let made : Session :=
      { s with world := { s.world with files := (s.world.files.create name kind).2 } }
    have vouched' : made.Vouched :=
      ⟨vouched.nextPool, vouched.numbered,
        fun other pool here => (vouched.fit other pool here).later hcalm.nextBuffer,
        vouched.handles, vouched.tickets⟩
    -- the file is made before the pool does anything
    refine .prepend made hcalm (.refl _) (fun other pool t here goes => ?_)
      (setCleanup_turn vouched')
    exact (PoolState.Spares.ofCalm (vouched.fit other pool here) hcalm).stays.trans goes
  · exact .refl s

theorem disableCleanup_turn {index : Nat} (vouched : s.Vouched) :
    s.Turn PoolState.Stays (some slot) (s.disableCleanup slot index).2 := by
  refine .withFound fun ticket _ => .performNone fun pool here => ?_
  have fit := vouched.fit slot pool here
  simp only [ends_bind, ends_modifyWorld, ends_pure]
  refine Pool.disableCleanup_ends.mono (fun action t ht => ?_) fun _ t ht => ?_
  · obtain ⟨-, rfl⟩ := ht
    exact .setCleanups fit (Nat.le_of_eq (CleanupStack.count_setAction ..).symm)
      (World.Calm.dropAction _ _)
  · obtain ⟨-, rfl⟩ := ht
    exact (PoolState.Spares.refl fit).stays

theorem runFileCleanup_turn {descriptor : Int} (vouched : s.Vouched) :
    s.Turn PoolState.Persists (some slot)
      (s.perform slot (Pool.runFileCleanup descriptor) fun done u => (.flag done, u)).2 := by
  refine .performNone fun pool here => ?_
  have fit := vouched.fit slot pool here
  refine Pool.runFileCleanup_ends.mono (fun _ t ht => ?_) fun _ _ h => h.elim
  rcases ht with ⟨-, -, rfl⟩ | ⟨file, cleanups, htake, -, rfl⟩
  · exact (PoolState.Spares.refl fit).persists
  · obtain ⟨index, -, -, rfl⟩ := Pool.exists_of_takeFile? htake
    exact .setCleanups fit (Nat.le_of_eq (CleanupStack.count_setAction ..).symm)
      (World.releaseFile_later _ file).1

/-- **Every restful command** but one that frees a region lets the pool that it names keep its large
buffers. -/
theorem exec_stays (vouched : s.Vouched) (restful : command.Restful)
    (unfreeing : ∀ slot index, command ≠ .free slot index) :
    s.Turn PoolState.Stays command.pool? (s.exec command).2 := by
  cases command with
  | createPool _ _ | reset _ | destroy _ | runFileCleanup _ _ => exact restful.elim
  | free slot index => exact absurd rfl (unfreeing slot index)
  -- a record is pushed behind a region that the pool found for it
  | addCleanup slot dataSize =>
    refine register_turn vouched fun start fit => ?_
    refine (Pool.addCleanup_ends fit).mono (fun _ _ ht => ?_) fun _ _ ht => ht.1
    obtain ⟨u, calls, -, hspares, hcalm, hpool, hticket⟩ := ht
    exact ⟨u, _, hspares, hcalm, hpool, CleanupStack.count_push _ _, hticket⟩
  | onDestroy slot tag =>
    refine register_turn vouched fun start fit => ?_
    refine (Pool.onDestroy_ends fit).mono (fun _ _ ht => ?_) fun _ _ ht => ht
    obtain ⟨u, hspares, hcalm, hpool, hticket⟩ := ht
    refine ⟨u, _, hspares, hcalm, hpool, ?_, hticket⟩
    rw [CleanupStack.count_setAction, CleanupStack.count_push]
  | setCustom slot index tag => exact .withFound fun _ _ => setCleanup_turn vouched
  | setWithData slot index tag content => exact .withFound fun _ _ => setCleanup_turn vouched
  | setFile slot index name kind delete => exact setFile_turn vouched
  | disableCleanup slot index => exact disableCleanup_turn vouched
  -- what is left spares the pool altogether
  | _ =>
    refine .mono ?_ fun _ _ => PoolState.Spares.stays
    exact exec_spares vouched trivial

/-- **Every command** other than those that make, reset or destroy a pool, or run the cleanup of a
file, lets the pool that it names rest. -/
theorem exec_rests (vouched : s.Vouched) (restful : command.Restful) :
    s.Turn PoolState.Rests command.pool? (s.exec command).2 := by
  cases command with
  | createPool _ _ | reset _ | destroy _ | runFileCleanup _ _ => exact restful.elim
  | free slot index =>
    refine .withFound fun _ _ => .performNone fun pool here => ?_
    exact (Pool.free_ends (vouched.fit slot pool here)).mono (fun _ _ ht => ht.1) fun _ _ ht => ht.1
  | _ =>
    refine .mono ?_ fun _ _ => PoolState.Stays.toRests
    exact exec_stays vouched trivial (by simp)

/-- **Every command** other than those that make, reset or destroy a pool lets the pool that it
names persist. -/
theorem exec_turn (vouched : s.Vouched) (ordinary : command.Ordinary) :
    s.Turn PoolState.Persists command.pool? (s.exec command).2 := by
  cases command with
  | createPool _ _ | reset _ | destroy _ => exact ordinary.elim
  | runFileCleanup slot descriptor => exact runFileCleanup_turn vouched
  | _ =>
    refine .mono ?_ fun _ _ => PoolState.Rests.toPersists
    exact exec_rests vouched trivial

end Commands

/-! ### Steps -/

/-- **How a command turns out**, whatever it is. -/
inductive Step (s : Session) (command : Command) (reply : Reply) (after : Session) : Prop
  /-- It takes a turn that a pool persists. -/
  | turned (turn : s.Turn PoolState.Persists command.pool? after)
      (unreset : ∀ slot, command = .reset slot → reply ≠ .done)
  /-- A pool begins. -/
  | began {pool} (begins : pool.Begins s.world after.world)
      (pools : after.pools = s.pools ++ [some pool]) (handles : after.handles = s.handles)
      (tickets : after.tickets = s.tickets) (unreset : ∀ slot, command ≠ .reset slot)
  /-- A pool is reset, or gets stuck on the way. -/
  | reset {slot pool t} (named : command = .reset slot) (here : s.pool? slot = some pool)
      (endures : PoolState.Endures ⟨pool, s.world⟩ t) (settled : after = s.settle slot t)
      (calm : s.world.Calm t.world)
      (outcome : (reply = .done ∧ t.pool = pool.rewound ∧
          ∀ buffer ∈ pool.large.buffers, buffer.id ∈ t.world.freed) ∨
        ∃ id, reply = .failed (.fault (.untrackedFree id)))
  /-- A pool is destroyed. -/
  | destroyed {slot pool} (named : command = .destroy slot) (here : s.pool? slot = some pool)
      (later : s.world.Later after.world) (pools : after.pools = s.pools.set slot none)
      (handles : after.handles = s.handles) (tickets : after.tickets = s.tickets)

section Step

variable {command : Command} {slot? : Option Nat} {entry : Option Pool} {pool : Pool}

/-- **Making a pool** over an allocator that is there, or over a new one. -/
theorem createPool_step {config : PoolConfig} {allocator : Option AllocatorId} :
    s.Step (.createPool config allocator) (s.createPool config allocator).1
      (s.createPool config allocator).2 := by
  -- from here on it does not matter whose allocator the pool is over
  obtain ⟨id, w, hcalm, hmade, hrefused⟩ : ∃ id w, s.world.Calm w ∧
      (∀ pool w', Pool.create config id w = (.ok pool, w') →
        s.createPool config allocator = { s with world := w' }.keepPool pool) ∧
      ∀ error w', Pool.create config id w = (.error error, w') →
        s.createPool config allocator = (.failed (.refused error), { s with world := w' }) := by
    unfold createPool
    cases allocator with
    | some id =>
      refine ⟨id, s.world, .refl _, fun pool w' hcreate => ?_, fun error w' hcreate => ?_⟩
      · simp only [hcreate]
      · simp only [hcreate]
    | none =>
      have hsame : s.world.Calm (s.world.addAllocator .system).2 :=
        .of_tells ⟨(List.append_nil _).symm, rfl⟩ (Nat.le_refl _) rfl
      refine ⟨(s.world.addAllocator .system).1, _, hsame, fun pool w' hcreate => ?_,
        fun error w' hcreate => ?_⟩
      · simp only [hcreate]
      · simp only [hcreate]
  rcases Pool.create_begins config id w with ⟨pool, w', hcreate, begins⟩ |
    ⟨error, w', hcreate, hcalm'⟩
  · rw [hmade pool w' hcreate]
    exact .began (begins.of_calm hcalm) rfl rfl rfl
      fun _ hreset => Command.noConfusion hreset
  · rw [hrefused error w' hcreate]
    exact .turned (.ofCalm (hcalm.trans hcalm')) fun _ hreset => Command.noConfusion hreset

/-- **Resetting a pool**, whether or not all its large buffers are taken back. -/
theorem reset_step {slot : Nat} (vouched : s.Vouched) :
    s.Step (.reset slot) (s.exec (.reset slot)).1 (s.exec (.reset slot)).2 := by
  rw [exec, Session.perform]
  cases here : s.pool? slot with
  | none => exact .turned (.refl s) fun _ _ hdone => Reply.noConfusion hdone
  | some pool =>
    have hends := Pool.reset_endures (vouched.fit slot pool here)
    rw [Session.withFound]
    cases run : Pool.reset { pool, world := s.world } with
    | ok a t =>
      obtain ⟨endures, hpool, hcalm, hfreed⟩ := hends.ok_of run
      exact .reset rfl here endures rfl hcalm (.inl ⟨rfl, hpool, hfreed⟩)
    -- the reset stopped half way, but the pool goes on and keeps its sites
    | error failure t =>
      obtain ⟨endures, -, hcalm, id, hfailure⟩ := hends.fail_of run
      exact .reset rfl here endures rfl hcalm (.inr ⟨id, congrArg Reply.failed hfailure⟩)

/-- **Destroying a pool** takes it away, even if one of its buffers is not taken back. -/
theorem destroy_step {slot : Nat} :
    s.Step (.destroy slot) (s.exec (.destroy slot)).1 (s.exec (.destroy slot)).2 := by
  rcases s.destroy_ends slot with ⟨-, hrun⟩ | ⟨pool, reply, t, here, hrun, hends⟩
  · rw [hrun]
    exact .turned (.refl s) fun _ hreset => Command.noConfusion hreset
  · rw [hrun]
    have hboth := (Pool.destroy_unwinds []).and hends
    -- whether it ended with an answer or a fault, it let the world go on
    have hlater : s.world.Later t.world := by
      unfold Ends at hboth
      split at hboth
      · obtain ⟨⟨runs, u, hunwinds, hcalm, -⟩, rfl, -⟩ := hboth
        exact hunwinds.later.trans hcalm.toLater
      · obtain ⟨hlater, rfl, -⟩ := hboth
        exact hlater
    exact .destroyed rfl here hlater rfl rfl rfl

/-- **Every command** takes a step. -/
theorem exec_step (vouched : s.Vouched) :
    s.Step command (s.exec command).1 (s.exec command).2 := by
  cases command with
  | createPool config allocator => exact createPool_step
  | reset slot => exact reset_step vouched
  | destroy slot => exact destroy_step
  | _ => exact .turned (exec_turn vouched trivial) fun _ hreset => Command.noConfusion hreset

/-- Slots are never taken away. -/
theorem Step.length_le {reply : Reply} (h : s.Step command reply after) :
    s.pools.length ≤ after.pools.length := by
  cases h with
  | turned turn _ =>
    cases turn with
    | idle _ pools _ _ => rw [pools]
    | acted _ _ _ pools _ _ _ => rw [pools, List.length_set]
  | began _ pools _ _ _ =>
    rw [pools, List.length_append]
    exact Nat.le_add_right _ _
  | reset _ _ _ settled _ _ => rw [settled, length_pools_settle]
  | destroyed _ _ _ pools _ _ => rw [pools, List.length_set]

/-- Buffers are never renumbered. -/
theorem Step.nextBuffer_le {reply : Reply} (h : s.Step command reply after) :
    s.world.nextBuffer ≤ after.world.nextBuffer := by
  cases h with
  | turned turn _ =>
    cases turn with
    | idle calm _ _ _ => exact calm.nextBuffer
    | acted _ _ goes _ world _ _ => exact world ▸ goes.later.nextBuffer
  | began begins _ _ _ _ => exact begins.nextBuffer
  | reset _ _ endures settled _ _ => exact settled ▸ endures.later.nextBuffer
  | destroyed _ _ later _ _ _ => exact later.nextBuffer

/-- What was given back stays given back. -/
theorem Step.freed {reply : Reply} (h : s.Step command reply after) :
    s.world.freed ⊆ after.world.freed := by
  cases h with
  | turned turn _ =>
    cases turn with
    | idle calm _ _ _ => exact calm.freed.subset
    | acted _ _ goes _ world _ _ => exact world ▸ goes.later.freed.subset
  | began begins _ _ _ _ => exact (begins.events.filterMap _).subset
  | reset _ _ endures settled _ _ => exact settled ▸ endures.later.freed.subset
  | destroyed _ _ later _ _ _ => exact later.freed.subset

namespace Vouched

/-- **A pool that endures** stands by what it vouched for. -/
theorem turn (vouched : s.Vouched) (h : s.Turn PoolState.Endures slot? after) : after.Vouched := by
  cases h with
  | idle calm pools handles tickets =>
    have hpool : ∀ slot, after.pool? slot = s.pool? slot := fun slot => by rw [pool?, pool?, pools]
    refine ⟨?_, fun slot pool here => vouched.numbered slot pool (hpool slot ▸ here),
      fun slot pool here => (vouched.fit slot pool (hpool slot ▸ here)).later calm.nextBuffer,
      fun region held => ?_, fun ticket held => ?_⟩
    · rw [calm.nextPool, pools, vouched.nextPool]
    · obtain ⟨slot, hlt, hid, hbounds⟩ := vouched.handles region (handles region held)
      exact ⟨slot, pools ▸ hlt, hid, fun pool here => hbounds pool (hpool slot ▸ here)⟩
    · obtain ⟨slot, hlt, hid, hindex⟩ := vouched.tickets ticket (tickets ticket held)
      exact ⟨slot, pools ▸ hlt, hid, fun pool here => hindex pool (hpool slot ▸ here)⟩
  | @acted slot pool t named here goes pools world handles tickets =>
    have hpool := pool?_of_set here pools
    have hlength : after.pools.length = s.pools.length := by rw [pools, List.length_set]
    have hlt := lt_of_pool? here
    have hid : t.pool.id = ⟨slot + 1⟩ := goes.id.trans (vouched.numbered slot pool here)
    -- the pool that acted is in its slot, and all others are as they were
    have hcases : ∀ {property : Nat → Pool → Prop}, property slot t.pool →
        (∀ other pool, s.pool? other = some pool → property other pool) →
        ∀ other pool, after.pool? other = some pool → property other pool := by
      intro property hacted hothers other pool hother
      rw [hpool] at hother
      split at hother
      · next heq => exact Option.some.inj hother ▸ heq ▸ hacted
      · exact hothers other pool hother
    refine ⟨?_, hcases hid vouched.numbered, hcases (world ▸ goes.fit) fun other pool hother =>
      world ▸ (vouched.fit other pool hother).later goes.later.nextBuffer,
      fun region held => ?_, fun ticket held => ?_⟩
    · rw [world, goes.later.nextPool, hlength, vouched.nextPool]
    · rcases handles region held with hold | housed
      · obtain ⟨home, hin, hregion, hbounds⟩ := vouched.handles region hold
        refine ⟨home, hlength ▸ hin, hregion, fun pool' hother => ?_⟩
        rw [hpool] at hother
        split at hother
        · next heq => exact Option.some.inj hother ▸ goes.bounds (hbounds pool (heq ▸ here))
        · exact hbounds pool' hother
      · refine ⟨slot, hlength ▸ hlt, housed.owner.trans hid, fun pool' hother => ?_⟩
        rw [hpool, if_pos rfl] at hother
        exact Option.some.inj hother ▸ housed.bounds
    · rcases tickets ticket held with hold | ⟨howner, hindex⟩
      · obtain ⟨home, hin, hticket, hindex⟩ := vouched.tickets ticket hold
        refine ⟨home, hlength ▸ hin, hticket, fun pool' hother => ?_⟩
        rw [hpool] at hother
        split at hother
        · next heq =>
          have hlt := hindex pool (heq ▸ here)
          exact Option.some.inj hother ▸ Nat.lt_of_lt_of_le hlt goes.records
        · exact hindex pool' hother
      · refine ⟨slot, hlength ▸ hlt, howner.trans hid, fun pool' hother => ?_⟩
        rw [hpool, if_pos rfl] at hother
        exact Option.some.inj hother ▸ hindex

/-- A new pool has handed nothing out yet. -/
theorem began (vouched : s.Vouched) (begins : pool.Begins s.world after.world)
    (pools : after.pools = s.pools ++ [some pool]) (handles : after.handles = s.handles)
    (tickets : after.tickets = s.tickets) : after.Vouched := by
  have hpool := pool?_of_append pools
  have hlength : after.pools.length = s.pools.length + 1 := by
    rw [pools, List.length_append, List.length_singleton]
  -- a slot that was there before is not the new one
  have hold : ∀ other pool', other < s.pools.length → after.pool? other = some pool' →
      s.pool? other = some pool' := by
    intro other pool' hlt hother
    rwa [hpool, if_neg (Nat.ne_of_lt hlt)] at hother
  refine ⟨?_, fun other pool' hother => ?_, fun other pool' hother => ?_, fun region held => ?_,
    fun ticket held => ?_⟩
  · rw [begins.nextPool, hlength, vouched.nextPool]
  · rw [hpool] at hother
    split at hother
    · next heq => rw [← Option.some.inj hother, begins.id, vouched.nextPool, heq]
    · exact vouched.numbered other pool' hother
  · rw [hpool] at hother
    split at hother
    · exact Option.some.inj hother ▸ begins.fit
    · exact (vouched.fit other pool' hother).later begins.nextBuffer
  · rw [handles] at held
    obtain ⟨home, hlt, hid, hbounds⟩ := vouched.handles region held
    exact ⟨home, hlength ▸ Nat.lt_succ_of_lt hlt, hid,
      fun pool' hother => hbounds pool' (hold home pool' hlt hother)⟩
  · rw [tickets] at held
    obtain ⟨home, hlt, hid, hindex⟩ := vouched.tickets ticket held
    exact ⟨home, hlength ▸ Nat.lt_succ_of_lt hlt, hid,
      fun pool' hother => hindex pool' (hold home pool' hlt hother)⟩

/-- A pool that is gone has nothing to stand by. -/
theorem destroyed (vouched : s.Vouched) (here : s.pool? slot = some pool)
    (later : s.world.Later after.world) (pools : after.pools = s.pools.set slot none)
    (handles : after.handles = s.handles) (tickets : after.tickets = s.tickets) :
    after.Vouched := by
  have hlength : after.pools.length = s.pools.length := by rw [pools, List.length_set]
  -- the other slots are as they were, and the one that is gone makes no claim
  have hold : ∀ other pool', after.pool? other = some pool' → s.pool? other = some pool' := by
    intro other pool' hother
    rw [pool?_of_set here pools] at hother
    split at hother
    · cases hother
    · exact hother
  refine ⟨?_, fun other pool' hother => vouched.numbered other pool' (hold other pool' hother),
    fun other pool' hother => (vouched.fit other pool' (hold other pool' hother)).later
      later.nextBuffer, fun region held => ?_, fun ticket held => ?_⟩
  · rw [later.nextPool, hlength, vouched.nextPool]
  · rw [handles] at held
    obtain ⟨home, hlt, hid, hbounds⟩ := vouched.handles region held
    exact ⟨home, hlength ▸ hlt, hid, fun pool' hother => hbounds pool' (hold home pool' hother)⟩
  · rw [tickets] at held
    obtain ⟨home, hlt, hid, hindex⟩ := vouched.tickets ticket held
    exact ⟨home, hlength ▸ hlt, hid, fun pool' hother => hindex pool' (hold home pool' hother)⟩

/-- **However a command turns out**, what the caller holds is vouched for. -/
theorem step {reply : Reply} (vouched : s.Vouched) (h : s.Step command reply after) :
    after.Vouched := by
  cases h with
  | turned turn _ => exact vouched.turn (turn.mono fun _ _ => PoolState.Persists.toEndures)
  | began begins pools handles tickets _ => exact vouched.began begins pools handles tickets
  -- a reset is a turn of the pool that it names, in which it endures
  | @reset slot pool t named here endures settled _ _ =>
    obtain rfl := settled
    have hturn : s.Turn PoolState.Endures (some slot) (s.settle slot t) :=
      .acted rfl here endures rfl rfl (fun _ hmem => .inl hmem) fun _ hmem => .inl hmem
    exact vouched.turn hturn
  | destroyed named here later pools handles tickets =>
    exact vouched.destroyed here later pools handles tickets

/-- **Every command** keeps what the caller holds vouched for. -/
theorem exec (vouched : s.Vouched) (command : Command) : (s.exec command).2.Vouched :=
  vouched.step (exec_step vouched)

/-- **Every history** does. -/
theorem run {history : List Command} (vouched : s.Vouched) : (s.run history).2.Vouched := by
  induction history generalizing s with
  | nil => exact vouched
  | cons command history ih => exact ih (vouched.exec command)

/-- A caller who holds nothing yet. -/
theorem ofHeap (heap : Heap) : (Session.ofHeap heap).Vouched := by
  have hnone : ∀ slot, (Session.ofHeap heap).pool? slot = none := fun _ => rfl
  refine ⟨rfl, fun slot pool here => ?_, fun slot pool here => ?_, nofun, nofun⟩
  · rw [hnone] at here
    cases here
  · rw [hnone] at here
    cases here

end Vouched

end Step

end Session

end RegionPool
