import Mathlib.Data.Multiset.AddSub
import RegionPool.Proofs.Attachments
import RegionPool.Proofs.Seats

/-!
# What a caller uses

A caller may keep copies of regions, clone arrays and mix up pools. Which regions of a pool are in
use is then a matter of the history: those that were handed out since the last reset and that were
not given back. A pool does not know them. It gives a region back whenever the region ends at the
cursor of its block, and so it depends on a caller who lengthens and gives back no other regions.

* `Session.issued`, `Session.gaveBack`, `Session.occupy` — what a command hands out and takes back,
  and what is in use after it;
* `Session.Heeds` — a command that lengthens and gives back only what is in use;
* `exec_keeping`, `exec_giving`, `reset_seated`, `Occupied.exec` — what one command does;
* `run_stacks` — after every history that heeds what is in use, the regions in use are stacked in
  the blocks, and what is given back comes from the top;
* `not_onTop_of_flag` — this is not so for a region that was given back before.
-/

namespace RegionPool

open PoolM

/-! ### What may be handed out -/

/-- **A pool affords to hand regions out**: whichever of them the caller holds in the end can be in
use. -/
def PoolState.Affords (s : PoolState) (kept : List Lease) (used gained : List Region) : Prop :=
  ∀ issued : List Region, issued.Subperm gained → s.Seats kept (inUseAfter used issued)

namespace PoolState.Seats

variable {s : PoolState} {kept : List Lease} {used gained : List Region} {region : Region}

theorem affords_nil (h : s.Seats kept used) : s.Affords kept used [] := by
  intro issued hsub
  rw [List.subperm_nil.mp hsub]
  exact h.sublist inUseAfter_sublist

/-- Regions that are new. -/
theorem affords (h : s.Seats kept (gained.filter Region.occupies ++ used)) :
    s.Affords kept used gained := by
  intro issued hsub
  have hfilter := (List.subperm_append_right used).mpr (hsub.filter Region.occupies)
  exact h.subperm (inUseAfter_sublist.subperm.trans hfilter)

/-- One region, which may be a longer one than before. -/
theorem affords_singleton (h : s.Seats kept used)
    (hafter : s.Seats kept (inUseAfter used [region])) :
    s.Affords kept used [region] := by
  rintro issued ⟨between, hperm, hsub⟩
  rcases List.sublist_singleton.mp hsub with rfl | rfl
  · rw [List.nil_perm.mp hperm]
    exact h.affords_nil _ (List.Subperm.refl _)
  · rw [← List.singleton_perm.mp hperm]
    exact hafter

end PoolState.Seats

/-- An array that goes on hands out its elements if they are in a new region. -/
theorem GrowArray.Continues.affords {s : PoolState} {kept : List Lease} {used : List Region}
    {array after : GrowArray} (h : array.Continues after s kept used) :
    s.Affords kept used ([after.elements].diff [array.elements]) := by
  rcases h.elements with hsame | hafter
  · rw [hsame, List.diff_cons, List.erase_cons_head, List.diff_nil]
    exact h.seats.affords_nil
  · exact fun issued hsub => h.seats.affords_singleton hafter issued
      (hsub.trans (List.diff_sublist _ _).subperm)

namespace Session

variable {α : Type} {s after : Session} {slot : Nat} {region : Region} {gained : List Region}

/-! ### What is handed out -/

/-- **The regions that were handed out** by a command: those that the caller holds more often
afterwards. -/
def issued (s after : Session) : List Region := after.handles.diff s.handles

/-- **A session adds regions** to what the caller holds, or loses some, and nothing else happens. -/
structure Adds (s : Session) (gained : List Region) (after : Session) : Prop where
  world : after.world = s.world
  pools : after.pools = s.pools
  handles : after.handles.Subperm (gained ++ s.handles)

section Tables

variable {β γ : Type} {items : List β} {index : Nat} {old new : β}

/-- What is found in a table after one of its items was replaced. -/
private theorem flatMap_set_perm (f : β → List γ) (h : items[index]? = some old) :
    (f old ++ (items.set index new).flatMap f).Perm (f new ++ items.flatMap f) := by
  obtain ⟨hlt, rfl⟩ := List.getElem?_eq_some_iff.mp h
  have hafter := (List.set_perm_cons_eraseIdx hlt new).flatMap_right f
  have hbefore := (List.getElem_cons_eraseIdx_perm hlt).flatMap_right f
  exact (hafter.append_left _).trans
    ((List.perm_append_comm_assoc ..).trans (hbefore.append_left _))

/-- Nothing is found that is not in the new item or was there before. -/
private theorem flatMap_set_subperm (f : β → List γ) :
    ((items.set index new).flatMap f).Subperm (f new ++ items.flatMap f) := by
  cases h : items[index]? with
  | none =>
    rw [List.set_eq_of_length_le (List.getElem?_eq_none_iff.mp h)]
    exact (List.sublist_append_right _ _).subperm
  | some old =>
    exact (List.sublist_append_right _ _).subperm.trans (flatMap_set_perm f h).subperm

/-- The regions of the arrays that are still there. -/
private theorem flatMap_reduceOption (arrays : List (Option GrowArray)) :
    arrays.reduceOption.flatMap GrowArray.regions =
      arrays.flatMap fun array => array.elim [] GrowArray.regions := by
  rw [List.reduceOption, List.filterMap_eq_flatMap_toList, List.flatMap_assoc]
  refine List.flatMap_congr fun array _ => ?_
  cases array with
  | none => rfl
  | some array => exact List.flatMap_singleton ..

end Tables

/-- More is held in one of several tables. -/
private theorem subperm_of_table {new old : List Region} (front back : List Region)
    (h : new.Subperm (gained ++ old)) :
    (front ++ (new ++ back)).Subperm (gained ++ (front ++ (old ++ back))) := by
  have hall := (List.Subperm.refl front).append (h.append (List.Subperm.refl back))
  rw [List.append_assoc] at hall
  exact hall.trans (List.perm_append_comm_assoc ..).subperm

namespace Adds

theorem refl (s : Session) : s.Adds gained s :=
  ⟨rfl, rfl, (List.sublist_append_right _ _).subperm⟩

/-- **What was handed out** is what the session added, at most. -/
theorem issued_subperm (h : s.Adds gained after) : (s.issued after).Subperm gained := by
  have hmultiset := Multiset.coe_le.mpr h.handles
  rw [← Multiset.coe_add] at hmultiset
  rw [← Multiset.coe_le, issued, ← Multiset.coe_sub]
  exact Multiset.sub_le_iff_le_add.mpr hmultiset

/-- More regions of the caller's own. -/
theorem ofRegions {regions : List Region} (h : regions.Subperm (gained ++ s.regions)) :
    s.Adds gained { s with regions } := by
  refine ⟨rfl, rfl, ?_⟩
  simp only [Session.handles, List.append_assoc]
  exact subperm_of_table [] _ h

/-- More regions of cleanup records. -/
theorem ofTickets {tickets : List CleanupTicket}
    (h : (tickets.filterMap CleanupTicket.data).Subperm
      (gained ++ s.tickets.filterMap CleanupTicket.data)) :
    s.Adds gained { s with tickets } := by
  refine ⟨rfl, rfl, ?_⟩
  simp only [Session.handles, List.append_assoc]
  exact subperm_of_table _ _ h

/-- More regions of arrays. -/
theorem ofArrays {arrays : List (Option GrowArray)}
    (h : (arrays.reduceOption.flatMap GrowArray.regions).Subperm
      (gained ++ s.arrays.reduceOption.flatMap GrowArray.regions)) :
    s.Adds gained { s with arrays } := by
  refine ⟨rfl, rfl, ?_⟩
  have hall := subperm_of_table (s.regions ++ s.tickets.filterMap CleanupTicket.data)
    (s.lists.flatMap PartList.handles) h
  simpa only [Session.handles, List.append_assoc] using hall

/-- More regions of lists. -/
theorem ofLists {lists : List PartList}
    (h : (lists.flatMap PartList.handles).Subperm
      (gained ++ s.lists.flatMap PartList.handles)) :
    s.Adds gained { s with lists } := by
  refine ⟨rfl, rfl, ?_⟩
  have hall := subperm_of_table (s.regions ++ s.tickets.filterMap CleanupTicket.data ++
    s.arrays.reduceOption.flatMap GrowArray.regions) [] h
  simpa only [Session.handles, List.append_nil] using hall

theorem keepRegion (s : Session) (region : Region) : s.Adds [region] (s.keepRegion region).2 :=
  ofRegions List.perm_append_comm.subperm

theorem keepTicket (s : Session) (ticket : CleanupTicket) :
    s.Adds ticket.data.toList (s.keepTicket ticket).2 := by
  have hdata : [ticket].filterMap CleanupTicket.data = ticket.data.toList := by
    rw [List.filterMap_cons]
    cases ticket.data with
    | none => rfl
    | some region => rfl
  refine ofTickets ?_
  rw [List.filterMap_append, hdata]
  exact List.perm_append_comm.subperm

theorem keepArray (s : Session) (array : GrowArray) :
    s.Adds array.regions (s.keepArray array).2 := by
  refine ofArrays ?_
  rw [List.reduceOption_append, List.flatMap_append]
  change (_ ++ [array].flatMap GrowArray.regions).Subperm _
  rw [List.flatMap_singleton]
  exact List.perm_append_comm.subperm

theorem keepList (s : Session) (list : PartList) : s.Adds list.handles (s.keepList list).2 := by
  refine ofLists ?_
  rw [List.flatMap_append, List.flatMap_singleton]
  exact List.perm_append_comm.subperm

theorem setRegion (s : Session) (index : Nat) (region : Region) :
    s.Adds [region] (s.setRegion index region) := by
  refine ofRegions ?_
  have hset : ((s.regions.set index region).flatMap fun other => [other]).Subperm
      ([region] ++ s.regions.flatMap fun other => [other]) := flatMap_set_subperm _
  rwa [List.flatMap_singleton', List.flatMap_singleton'] at hset

/-- **An array is replaced** by one with the same header. -/
theorem setArray {index : Nat} {old array : GrowArray} (h : s.array? index = some old)
    (hheader : array.header = old.header) :
    s.Adds ([array.elements].diff [old.elements]) (s.setArray index (some array)) := by
  let regionsOf : Option GrowArray → List Region := fun array => array.elim [] GrowArray.regions
  let rest := (s.arrays.set index (some array)).flatMap regionsOf
  have hset : (old.elements :: (old.header.toList ++ rest)).Perm
      (array.elements :: (array.header.toList ++ s.arrays.flatMap regionsOf)) :=
    flatMap_set_perm regionsOf (Option.join_eq_some_iff.mp h)
  -- the headers are the same
  have hcancel : (old.elements :: rest).Perm (array.elements :: s.arrays.flatMap regionsOf) := by
    rw [hheader] at hset
    exact (List.perm_append_left_iff _).mp
      (List.perm_middle.trans (hset.trans List.perm_middle.symm))
  refine ofArrays ?_
  rw [flatMap_reduceOption, flatMap_reduceOption]
  change rest.Subperm _
  by_cases hsame : array.elements = old.elements
  · rw [hsame] at hcancel ⊢
    rw [List.diff_cons, List.erase_cons_head, List.diff_nil, List.nil_append]
    exact hcancel.cons_inv.subperm
  · have hnew : [array.elements].diff [old.elements] = [array.elements] := by
      rw [List.diff_cons, List.diff_nil, List.erase_of_not_mem]
      exact fun hmem => hsame (List.mem_singleton.mp hmem).symm
    rw [hnew]
    exact (List.sublist_cons_self _ _).subperm.trans hcancel.subperm

/-- An array is gone. -/
theorem dropArray (s : Session) (index : Nat) : s.Adds [] (s.setArray index none) := by
  refine ofArrays ?_
  rw [flatMap_reduceOption, flatMap_reduceOption]
  exact flatMap_set_subperm _

/-- **A list is replaced** by one with more parts. -/
theorem setList {index : Nat} {old list : PartList} (h : s.list? index = some old)
    (hhandles : list.handles.Perm (gained ++ old.handles)) :
    s.Adds gained (s.setList index list) := by
  have hset : (old.handles ++ (s.lists.set index list).flatMap PartList.handles).Perm
      (list.handles ++ s.lists.flatMap PartList.handles) := flatMap_set_perm PartList.handles h
  have hmore : (list.handles ++ s.lists.flatMap PartList.handles).Perm
      (old.handles ++ (gained ++ s.lists.flatMap PartList.handles)) := by
    rw [← List.append_assoc]
    exact (hhandles.trans List.perm_append_comm).append_right _
  exact ofLists ((List.perm_append_left_iff _).mp (hset.trans hmore)).subperm

end Adds

/-! ### What commands do with regions -/

/-- **The regions that a command lengthens**, or tries to. -/
def lengthens (s : Session) : Command → List Region
  | .extend _ index _ => (s.region? index).toList
  | .pushArray _ index _ | .pushManyArray _ index _ _ =>
    (s.array? index).toList.map GrowArray.elements
  | _ => []

/-- **The regions that a command gives back**, or tries to, one after the other. -/
def surrenders (s : Session) : Command → List Region
  | .reclaim _ index => (s.region? index).toList
  | .destroyArray _ index => (s.array? index).toList.flatMap GrowArray.regions
  | _ => []

/-- **The regions that a command writes to**, new ones apart. -/
def writesTo (s : Session) : Command → List Region
  | .write _ index _ | .copy _ _ index _ => (s.region? index).toList
  | .writeCleanup _ index _ => (s.ticket? index).toList.filterMap CleanupTicket.data
  | .pushArray _ index _ | .pushManyArray _ index _ _ | .setArray _ index _ _ =>
    (s.array? index).toList.map GrowArray.elements
  | .pushList _ index _ => (s.list? index).toList.map fun list => list.last.elements
  | _ => []

/-- **The regions that a command gives back** to the pool in a slot. -/
def gaveBack (s : Session) (slot : Nat) (command : Command) : List Region :=
  (s.pool? slot).elim [] (·.returned (s.surrenders command))

/-- **A command heeds which regions are in use**: it lengthens and gives back no others. -/
def Heeds (s : Session) (slot : Nat) (used : List Region) (command : Command) : Prop :=
  command.pool? = some slot → ∀ pool ∈ s.pool? slot,
    (∀ region ∈ s.lengthens command, pool.InUse used region) ∧
      pool.InUseInTurn used (s.surrenders command)

/-- **The pool in a slot has regions in use**, beside leases that are kept. -/
def Seated (s : Session) (slot : Nat) (kept : List Lease) (used : List Region) : Prop :=
  ∀ pool, s.pool? slot = some pool → PoolState.Seats ⟨pool, s.world⟩ kept used

/-- **The regions of a pool that are in use** after a command. Those of an earlier generation are in
use no longer. -/
def occupy (s : Session) (slot : Nat) (used : List Region) (command : Command) : List Region :=
  let after := (s.exec command).2
  (after.pool? slot).elim [] fun pool =>
    if command.pool? = some slot then
      (inUseAfter (inUseWithout used (s.gaveBack slot command)) (s.issued after)).filter
        (·.generation = pool.generation)
    else used

/-- **A command issues regions**: what it hands out may be used beside what is left in use. -/
def Issues (s : Session) (slot : Nat) (kept : List Lease) (rest : List Region)
    (after : Session) : Prop :=
  after.Seated slot kept (inUseAfter rest (s.issued after))

/-! ### One command -/

section Commands

variable {command : Command} {kept : List Lease} {used rest : List Region} {pool : Pool}
  {index : Nat}

theorem issued_eq_nil (h : after.handles.Subperm s.handles) : s.issued after = [] := by
  have hadds : s.Adds [] { after with world := s.world, pools := s.pools } := ⟨rfl, rfl, h⟩
  exact List.subperm_nil.mp hadds.issued_subperm

theorem issued_self (s : Session) : s.issued s = [] := issued_eq_nil (List.Subperm.refl _)

/-- What a command names may not be there. -/
theorem Seated.withFound {found : Option α} {next : α → Reply × Session}
    (seated : s.Seated slot kept rest)
    (h : ∀ a, found = some a → s.Issues slot kept rest (next a).2) :
    s.Issues slot kept rest (s.withFound found next).2 := by
  cases found with
  | none =>
    rw [Issues, Session.withFound, issued_self, inUseAfter_nil]
    exact seated
  | some a => exact h a rfl

/-- **An action on the pool that is named**, and keeping what it came back with. -/
theorem Seated.perform {action : PoolM α} {next : α → Session → Reply × Session}
    (seated : s.Seated slot kept rest)
    (hends : ∀ pool, s.pool? slot = some pool → Ends action ⟨pool, s.world⟩
      (fun a t => ∃ gained, t.Affords kept rest gained ∧
        (s.settle slot t).Adds gained (next a (s.settle slot t)).2)
      (fun _ t => t.Seats kept rest)) :
    s.Issues slot kept rest (s.perform slot action next).2 := by
  refine seated.withFound fun pool here => ?_
  have hends' := hends pool here
  split
  · next a t run =>
    obtain ⟨gained, hafter, hadds⟩ := hends'.ok_of run
    intro after hafter'
    -- the command only adds entries, and those of the pool are what it gained
    rw [pool?, hadds.pools, ← pool?, pool?_settle_self here] at hafter'
    obtain rfl := Option.some.inj hafter'
    rw [hadds.world]
    exact hafter _ hadds.issued_subperm
  -- a failure hands nothing out and gives nothing back
  · next failure t run =>
    have hafter := hends'.fail_of run
    intro after hafter'
    rw [pool?_settle_self here] at hafter'
    obtain rfl := Option.some.inj hafter'
    have hnone : s.issued (s.settle slot t) = [] := issued_self s
    rw [hnone, inUseAfter_nil]
    exact hafter

/-- An action after which nothing is kept. -/
theorem Seated.performNone {action : PoolM α} {reply : α → Reply}
    (seated : s.Seated slot kept rest)
    (hends : ∀ pool, s.pool? slot = some pool → Ends action ⟨pool, s.world⟩
      (fun _ t => t.Seats kept rest) (fun _ t => t.Seats kept rest)) :
    s.Issues slot kept rest (s.perform slot action fun a u => (reply a, u)).2 :=
  seated.perform fun pool here =>
    (hends pool here).mono (fun _ _ ht => ⟨[], ht.affords_nil, .refl _⟩) fun _ _ ht => ht

/-- Such an action leaves what is held. -/
theorem handles_performNone {action : PoolM α} {reply : α → Reply} :
    (s.perform slot action fun a u => (reply a, u)).2.handles = s.handles := by
  unfold Session.perform Session.withFound
  cases s.pool? slot with
  | none => rfl
  | some pool =>
    dsimp only
    split
    · rfl
    · rfl

/-- **Something is made** in new regions, and kept. -/
theorem Seated.create {action : PoolM α} {regions : α → List Region}
    {next : α → Session → Reply × Session} (seated : s.Seated slot kept used)
    (hends : ∀ start : PoolState, start.Seats kept used → Ends action start
      (fun made t => t.Seats kept ((regions made).filter Region.occupies ++ used))
      (fun _ t => t.Seats kept used))
    (hnext : ∀ made (u : Session), u.Adds (regions made) (next made u).2) :
    s.Issues slot kept used (s.perform slot action next).2 :=
  seated.perform fun pool here => (hends _ (seated pool here)).mono
    (fun made _ ht => ⟨regions made, ht.affords, hnext made _⟩) fun _ _ ht => ht

/-- **An allocation**, which is kept. -/
theorem Seated.allocate {action : PoolM Region} (seated : s.Seated slot kept used)
    (hends : ∀ start : PoolState, start.Seats kept used → Ends action start
      (fun region t => t.Seats kept ([region].filter Region.occupies ++ used))
      (fun _ t => t.Seats kept used)) :
    s.Issues slot kept used (s.allocate slot action).2 :=
  seated.create hends fun region u => .keepRegion u region

theorem Seated.register {action : PoolM CleanupTicket} (seated : s.Seated slot kept used)
    (hends : ∀ start : PoolState, start.Seats kept used → Ends action start
      (fun ticket t => t.Seats kept (ticket.data.toList.filter Region.occupies ++ used))
      (fun _ t => t.Seats kept used)) :
    s.Issues slot kept used (s.perform slot action fun ticket u => u.keepTicket ticket).2 :=
  seated.create hends fun ticket u => .keepTicket u ticket

/-- **Lengthening a region** that is in use. -/
theorem Seated.extend {additional : Nat} (seated : s.Seated slot kept used)
    (inUse : ∀ pool, s.pool? slot = some pool → ∀ region ∈ s.region? index,
      pool.InUse used region) :
    s.Issues slot kept used (s.extend slot index additional).2 := by
  refine seated.withFound fun region hregion => ?_
  refine seated.perform fun pool here => ?_
  refine (Pool.extend_seats (seated pool here) (inUse pool here region hregion)).mono
    (fun extended t ht => ?_) fun _ _ ht => ht
  obtain ⟨hseats, hlonger⟩ := ht
  -- a region that cannot be lengthened stays the one that is in use
  cases extended with
  | none => exact ⟨[], hseats.affords_nil, .refl _⟩
  | some longer =>
    exact ⟨[longer], hseats.affords_singleton (hlonger longer rfl).2, .setRegion _ index longer⟩

/-- **Copying** to a region that is clear of what is kept. -/
theorem Seated.copy {source target length : Nat} (seated : s.Seated slot kept used)
    (hclear : ∀ region ∈ s.region? target, ∀ lease ∈ kept, region.ClearOf lease.region) :
    s.Issues slot kept used (s.copy slot source target length).2 := by
  refine seated.withFound fun _ _ => seated.withFound fun region hregion => ?_
  refine seated.performNone fun pool here => ?_
  have h := seated pool here
  simp only [ends_bind]
  refine (Pool.writing_seats h fun after hrun =>
    Pool.seats_of_copy h (hclear region hregion) hrun).mono (fun _ t ht => ?_) fun _ _ ht => ht
  exact ends_ofPool.mpr ⟨fun _ _ => ht, fun _ _ => ht⟩

/-- **Writing to the bytes of a record.** -/
theorem Seated.writeCleanup {content : Content} (seated : s.Seated slot kept used)
    (hclear : ∀ ticket ∈ s.ticket? index, ∀ region ∈ ticket.data, ∀ lease ∈ kept,
      region.ClearOf lease.region) :
    s.Issues slot kept used (s.writeCleanup slot index content).2 := by
  refine seated.withFound fun ticket hticket => seated.performNone fun pool here => ?_
  have h := seated pool here
  simp only [ends_bind]
  refine ends_ofPool.mpr ⟨fun before _ => ?_, fun _ _ => h⟩
  -- a record without data has nothing to write to
  split
  · next region hdata =>
    rw [ends_bind]
    exact (Pool.writeContent_seats h (hclear ticket hticket region hdata)).mono
      (fun _ _ ht => ht) fun _ _ ht => ht
  · exact h

/-- **A record gets an action.** -/
theorem Seated.setCleanup {ticket : CleanupTicket} {action : CleanupAction} {reply : Reply}
    (seated : s.Seated slot kept used) :
    s.Issues slot kept used
      (s.perform slot (Pool.setCleanup ticket action) fun _ u => (reply, u)).2 :=
  seated.performNone fun pool here => Pool.setCleanup_seats (seated pool here)

/-- The file is made before the pool does anything. -/
theorem Seated.setFile {name : String} {kind : EntryKind} {delete : Bool}
    (seated : s.Seated slot kept used) :
    s.Issues slot kept used (s.setFile slot index name kind delete).2 := by
  refine seated.withFound fun ticket _ => ?_
  split
  · refine seated.withFound fun _ _ => ?_
    let made : Session :=
      { s with world := { s.world with files := (s.world.files.create name kind).2 } }
    -- making a file changes the world, and no pool
    have hmade : made.Seated slot kept used := fun pool here =>
      (seated pool here).setWorld (Nat.le_refl _)
    exact hmade.setCleanup
  · rw [Issues, issued_self, inUseAfter_nil]
    exact seated

theorem Seated.disableCleanup (seated : s.Seated slot kept used) :
    s.Issues slot kept used (s.disableCleanup slot index).2 := by
  refine seated.withFound fun ticket _ => seated.performNone fun pool here => ?_
  have h := seated pool here
  simp only [ends_bind, ends_modifyWorld, ends_pure]
  refine Pool.disableCleanup_ends.mono (fun action t ht => ?_) fun _ t ht => ?_
  · obtain ⟨-, rfl⟩ := ht
    exact (h.setCleanups _).setWorld (World.Calm.dropAction _ _).nextBuffer
  · obtain ⟨-, rfl⟩ := ht
    exact h

theorem Seated.runFileCleanup {descriptor : Int} (seated : s.Seated slot kept used) :
    s.Issues slot kept used
      (s.perform slot (Pool.runFileCleanup descriptor) fun done u => (.flag done, u)).2 := by
  refine seated.performNone fun pool here => ?_
  have h := seated pool here
  refine Pool.runFileCleanup_ends.mono (fun _ t ht => ?_) fun _ _ h => h.elim
  rcases ht with ⟨-, -, rfl⟩ | ⟨file, cleanups, -, -, rfl⟩
  · exact h
  · exact (h.setCleanups _).setWorld (World.releaseFile_later _ file).1.nextBuffer

/-- **Appending to an array** whose elements are in use. -/
theorem Seated.pushArray {push : GrowArray → PoolM (Slot × GrowArray)} {content : Content}
    (seated : s.Seated slot kept used)
    (hends : ∀ pool, s.pool? slot = some pool → ∀ array ∈ s.array? index,
      Ends (push array) ⟨pool, s.world⟩
        (fun pushed t => array.Continues pushed.2 t kept used ∧
          pushed.1.region = pushed.2.elements)
        (fun _ t => t.Seats kept used)) :
    s.Issues slot kept used (s.pushArray slot index push content).2 := by
  refine seated.withFound fun array harray => ?_
  refine seated.perform fun pool here => ?_
  simp only [ends_bind, ends_pure]
  refine (hends pool here array harray).mono (fun pushed t ht => ?_) fun _ _ ht => ht
  obtain ⟨continues, hregion⟩ := ht
  refine (continues.fill hregion).mono (fun before u hu => ?_) fun _ _ hu => hu
  exact ⟨_, hu.affords, .setArray harray hu.header⟩

/-- **Appending to a list.** -/
theorem Seated.pushList {content : Content} (seated : s.Seated slot kept used)
    (hclear : ∀ list ∈ s.list? index, ∀ lease ∈ kept, list.last.elements.ClearOf lease.region) :
    s.Issues slot kept used (s.pushList slot index content).2 := by
  refine seated.withFound fun list hlist => seated.perform fun pool here => ?_
  simp only [ends_bind, ends_pure]
  refine (PartList.push_seats (seated pool here) (hclear list hlist)).mono (fun pushed t ht => ?_)
    fun _ _ ht => ht
  obtain ⟨continues, hregion⟩ := ht
  refine (continues.fill hregion).mono (fun before u hu => ?_) fun _ _ hu => hu
  obtain ⟨issued, hperm, hseats⟩ := hu.handles
  exact ⟨issued, hseats.affords, .setList hlist hperm⟩

/-- **A command that gives nothing back** leaves in use what was in use, and what it hands out may
be used as well. -/
theorem exec_keeping (seated : s.Seated slot kept used) (named : command.pool? = some slot)
    (ordinary : command.Ordinary) (keeping : s.surrenders command = [])
    (heeds : s.Heeds slot used command)
    (hclear : ∀ region ∈ s.writesTo command, ∀ lease ∈ kept, region.ClearOf lease.region) :
    s.Issues slot kept used (s.exec command).2 := by
  have inUse : ∀ pool, s.pool? slot = some pool → ∀ region ∈ s.lengthens command,
      pool.InUse used region := fun pool here => (heeds named pool here).1
  cases command with
  | createPool _ _ | reset _ | destroy _ => exact ordinary.elim
  | addAllocator _ | refill _ _ | newBuffer _ _ | requestBuffer _ _ | writeBuffer _ _
  | freeBuffer _ _ | keepCopy _ | holdCleanupRegion _ | unlink _ | cloneArray _ | cloneList _ =>
    cases named
  | serve _ sizes =>
    cases named
    exact seated.performNone fun pool here => Pool.serve_seats (seated pool here)
  | alloc _ size =>
    cases named
    exact seated.allocate fun _ => Pool.allocWith_seats
  | allocUnaligned _ size =>
    cases named
    exact seated.allocate fun _ => Pool.allocWith_seats
  | allocZeroed _ size =>
    cases named
    exact seated.allocate fun _ => Pool.allocZeroed_seats
  | allocAlignedTo _ size align =>
    cases named
    exact seated.allocate fun _ h => Pool.allocAlignedTo_seats h
  | free _ region =>
    cases named
    exact seated.withFound fun _ _ => seated.performNone fun pool here =>
      Pool.free_seats (seated pool here)
  | write _ region content =>
    cases named
    exact seated.withFound fun _ hregion => seated.performNone fun pool here =>
      Pool.writeContent_seats (seated pool here) (hclear _ (Option.mem_toList.mpr hregion))
  | extend _ region additional =>
    cases named
    exact seated.extend fun pool here region hregion =>
      inUse pool here region (Option.mem_toList.mpr hregion)
  | reclaim _ region =>
    cases named
    -- there is no such region
    have hnone : s.region? region = none := Option.toList_eq_nil_iff.mp keeping
    refine seated.withFound fun _ hregion => ?_
    rw [hnone] at hregion
    cases hregion
  | copy _ source target length =>
    cases named
    exact seated.copy fun region hregion => hclear region (Option.mem_toList.mpr hregion)
  | addCleanup _ dataSize =>
    cases named
    exact seated.register fun _ h => Pool.addCleanup_seats h
  | onDestroy _ tag =>
    cases named
    exact seated.register fun _ h => Pool.onDestroy_seats h
  | setCustom _ ticket tag =>
    cases named
    exact seated.withFound fun _ _ => seated.setCleanup
  | setWithData _ ticket tag content =>
    cases named
    exact seated.withFound fun _ _ => seated.setCleanup
  | setFile _ ticket name kind delete =>
    cases named
    exact seated.setFile
  | disableCleanup _ ticket =>
    cases named
    exact seated.disableCleanup
  | writeCleanup _ ticket content =>
    cases named
    refine seated.writeCleanup fun ticket hticket region hdata => hclear region ?_
    exact List.mem_filterMap.mpr ⟨ticket, Option.mem_toList.mpr hticket, hdata⟩
  | runFileCleanup _ descriptor =>
    cases named
    exact seated.runFileCleanup
  | createArray _ capacity elementSize =>
    cases named
    exact seated.create (fun _ h => GrowArray.create_seats h) fun array u => .keepArray u array
  | initArray _ capacity elementSize =>
    cases named
    refine seated.create (fun _ h => ?_) fun array u => .keepArray u array
    refine (GrowArray.init_seats h).mono (fun array t ht => ?_) fun _ _ ht => ht
    obtain ⟨hheader, hseats⟩ := ht
    rwa [GrowArray.regions, hheader]
  | pushArray _ array content =>
    cases named
    refine seated.pushArray fun pool here array harray => ?_
    have helements := List.mem_map_of_mem (f := GrowArray.elements) (Option.mem_toList.mpr harray)
    exact GrowArray.push_seats (seated pool here) (inUse pool here _ helements)
      (hclear _ helements)
  | pushManyArray _ array n content =>
    cases named
    refine seated.pushArray fun pool here array harray => ?_
    have helements := List.mem_map_of_mem (f := GrowArray.elements) (Option.mem_toList.mpr harray)
    exact GrowArray.pushMany_seats (seated pool here) (inUse pool here _ helements)
      (hclear _ helements)
  | setArray _ array position content =>
    cases named
    refine seated.withFound fun array harray => seated.performNone fun pool here => ?_
    have helements := List.mem_map_of_mem (f := GrowArray.elements) (Option.mem_toList.mpr harray)
    exact GrowArray.set?_seats (seated pool here) (hclear _ helements)
  | destroyArray _ array =>
    cases named
    -- there is no such array, for an array has elements
    have hnone : s.array? array = none := by
      cases harray : s.array? array with
      | none => rfl
      | some found =>
        rw [surrenders, harray] at keeping
        cases keeping
    refine seated.withFound fun _ _ => seated.withFound fun _ harray => ?_
    rw [hnone] at harray
    cases harray
  | createList _ partCapacity elementSize =>
    cases named
    exact seated.create (fun _ h => PartList.create_seats h) fun list u => .keepList u list
  | initList _ partCapacity elementSize =>
    cases named
    refine seated.create (fun _ h => ?_) fun list u => .keepList u list
    exact (PartList.init_seats h).mono (fun _ _ ht => ht.2) fun _ _ ht => ht
  | pushList _ list content =>
    cases named
    exact seated.pushList fun list hlist =>
      hclear _ (List.mem_map_of_mem (Option.mem_toList.mpr hlist))

/-- **Giving regions back** that are in use leaves the others in use. -/
theorem exec_giving (seated : s.Seated slot kept used) (named : command.pool? = some slot)
    (giving : s.surrenders command ≠ []) (heeds : s.Heeds slot used command) :
    s.Issues slot kept (inUseWithout used (s.gaveBack slot command)) (s.exec command).2 := by
  have inUse : ∀ pool, s.pool? slot = some pool →
      pool.InUseInTurn used (s.surrenders command) := fun pool here => (heeds named pool here).2
  have hrest : s.Seated slot kept (inUseWithout used (s.gaveBack slot command)) :=
    fun pool here => (seated pool here).sublist inUseWithout_sublist
  have hback : ∀ pool, s.pool? slot = some pool →
      s.gaveBack slot command = pool.returned (s.surrenders command) := fun pool here => by
    rw [gaveBack, here, Option.elim_some]
  cases command with
  | reclaim _ index =>
    cases named
    refine hrest.withFound fun region hregion => hrest.performNone fun pool here => ?_
    have hone : s.surrenders (.reclaim slot index) = [region] :=
      congrArg Option.toList hregion
    have hregions := inUse pool here
    have hends := Pool.reclaim_seats (seated pool here) (hone ▸ hregions).1
    rw [hback pool here, hone]
    exact hends.mono (fun _ _ ht => ht) fun _ _ ht => ht.sublist inUseWithout_sublist
  | destroyArray _ index =>
    cases named
    refine hrest.withFound fun _ _ => hrest.withFound fun array harray => ?_
    have hall : s.surrenders (.destroyArray slot index) = array.regions := by
      rw [surrenders, harray]
      exact List.flatMap_singleton ..
    have hdropped : (s.setArray index none).handles.Subperm s.handles :=
      (Adds.dropArray s index).handles
    -- the array is dropped before its regions are given back, so that nothing is issued
    let destroyed := ((s.setArray index none).perform slot array.destroy
      fun reclaimed s => (.number reclaimed, s)).2
    have hsame : destroyed.handles = (s.setArray index none).handles := handles_performNone
    have hissues : (s.setArray index none).Issues slot kept
        (inUseWithout used (s.gaveBack slot (.destroyArray slot index))) destroyed := by
      refine Seated.performNone hrest fun pool here => ?_
      have hregions := inUse pool here
      rw [hback pool here, hall]
      exact GrowArray.destroy_seats (seated pool here) (hall ▸ hregions)
    rw [Issues, issued_eq_nil (hsame ▸ List.Subperm.refl _)] at hissues
    change s.Issues slot kept _ destroyed
    rw [Issues, issued_eq_nil (hsame ▸ hdropped)]
    exact hissues
  | _ => exact (giving rfl).elim

/-- A command on a pool that neither resets nor destroys it is an ordinary one. -/
private theorem ordinary_of_ne (named : command.pool? = some slot) (unreset : command ≠ .reset slot)
    (hdestroy : command ≠ .destroy slot) : command.Ordinary := by
  cases command with
  | createPool _ _ => cases named
  | reset _ =>
    cases named
    exact (unreset rfl).elim
  | destroy _ =>
    cases named
    exact (hdestroy rfl).elim
  | _ => trivial

/-- **A command that leaves the regions of a pool alone** or heeds which of them are in use. -/
theorem exec_seated (vouched : s.Vouched) (here : s.pool? slot = some pool)
    (seated : s.Seated slot kept used) (unreset : command ≠ .reset slot)
    (heeds : s.Heeds slot used command) (hclear : command.pool? = some slot →
      ∀ region ∈ s.writesTo command, ∀ lease ∈ kept, region.ClearOf lease.region) :
    (s.exec command).2.Seated slot kept (s.occupy slot used command) := by
  intro after hafter
  by_cases named : command.pool? = some slot
  · rw [occupy, hafter, Option.elim_some, if_pos named]
    -- a pool that was destroyed holds nothing in use any more
    by_cases hdestroy : command = .destroy slot
    · rw [hdestroy, exec_destroy] at hafter
      cases hafter
    have hissues : s.Issues slot kept (inUseWithout used (s.gaveBack slot command))
        (s.exec command).2 := by
      -- giving back is judged region by region; any other command only adds to those in use
      by_cases hkeeping : s.surrenders command = []
      · have hnone : s.gaveBack slot command = [] := by
          rw [gaveBack, here, hkeeping]
          rfl
        rw [hnone, inUseWithout_nil]
        exact exec_keeping seated named (ordinary_of_ne named unreset hdestroy) hkeeping heeds
          (hclear named)
      · exact exec_giving seated named hkeeping heeds
    exact (hissues after hafter).sublist List.filter_sublist
  -- a command for another pool: this one is as before, for its slot was taken already
  · rw [occupy, hafter, Option.elim_some, if_neg named]
    rcases exec_others vouched named hafter with hsame | ⟨hnew, -⟩
    · have step : s.Step command (s.exec command).1 (s.exec command).2 := exec_step vouched
      exact (seated after hsame).setWorld step.nextBuffer_le
    · exact absurd (lt_of_pool? here) (Nat.not_lt.mpr hnew)

/-- **A reset** ends the use of all regions. If it gets stuck, they are still there. -/
theorem reset_seated (vouched : s.Vouched) (seated : s.Seated slot [] used) :
    (s.exec (.reset slot)).2.Seated slot [] (s.occupy slot used (.reset slot)) := by
  have hsame : (s.exec (.reset slot)).2.handles = s.handles := handles_performNone
  have hissued : s.issued (s.exec (.reset slot)).2 = [] :=
    issued_eq_nil (hsame ▸ List.Subperm.refl _)
  have hoccupy : ∀ after, (s.exec (.reset slot)).2.pool? slot = some after →
      (s.occupy slot used (.reset slot)).Sublist
        (used.filter (·.generation = after.generation)) := by
    intro after hafter
    have named : (Command.reset slot).pool? = some slot := rfl
    rw [occupy, hafter, Option.elim_some, if_pos named, hissued, inUseAfter_nil]
    exact inUseWithout_sublist.filter _
  cases here : s.pool? slot with
  | none =>
    intro after hafter
    rw [exec_absent here rfl, here] at hafter
    cases hafter
  | some pool =>
    have hends := Pool.reset_endures (vouched.fit slot pool here)
    cases run : Pool.reset { pool, world := s.world } with
    | ok a t =>
      obtain ⟨endures, hpool, -, -⟩ := hends.ok_of run
      have hexec : s.exec (.reset slot) = (.done, s.settle slot t) := by
        rw [exec, Session.perform, here, Session.withFound, run]
      intro after hafter
      have hsub := hoccupy after hafter
      rw [hexec] at hafter ⊢
      obtain rfl := Option.some.inj ((pool?_settle_self here t).symm.trans hafter)
      -- all regions in use are of the generation before
      have hnone : used.filter (·.generation = t.pool.generation) = [] := by
        refine List.filter_eq_nil_iff.mpr fun region hmem heq => ?_
        have hgeneration := ((seated pool here).inside hmem).2.1
        rw [of_decide_eq_true heq, hpool] at hgeneration
        have hnext : (pool.generation + 1) % 2 ^ (32 : Nat) = pool.generation := hgeneration
        omega
      rw [hnone] at hsub
      rw [List.sublist_nil.mp hsub]
      exact .nobody endures.fit
    | error failure t =>
      obtain ⟨endures, hpool, hcalm, -⟩ := hends.fail_of run
      have hexec : s.exec (.reset slot) = (.failed failure, s.settle slot t) := by
        rw [exec, Session.perform, here, Session.withFound, run]
      intro after hafter
      have hsub := (hoccupy after hafter).trans List.filter_sublist
      rw [hexec] at hafter ⊢
      obtain rfl := Option.some.inj ((pool?_settle_self here t).symm.trans hafter)
      have hnext := hcalm.nextBuffer
      obtain ⟨stuck, world⟩ := t
      obtain rfl : stuck = _ := hpool
      refine ((seated pool here).setLarge fun buffer hmem => ?_).sublist hsub
      rw [LargeTable.buffers_emptied] at hmem
      exact (List.not_mem_nil hmem).elim

/-- **The regions of a pool in use.** -/
structure Occupied (s : Session) (slot : Nat) (used : List Region) : Prop where
  seated : s.Seated slot [] used
  vacant : s.pool? slot = none → used = []

theorem Occupied.exec (vouched : s.Vouched) (occupied : s.Occupied slot used)
    (heeds : s.Heeds slot used command) :
    (s.exec command).2.Occupied slot (s.occupy slot used command) where
  vacant hnone := by rw [occupy, hnone, Option.elim_none]
  seated := by
    have hclear : ∀ region ∈ s.writesTo command, ∀ lease ∈ ([] : List Lease),
        region.ClearOf lease.region := fun _ _ _ hmem => (List.not_mem_nil hmem).elim
    by_cases hreset : command = .reset slot
    · rw [hreset]
      exact reset_seated vouched occupied.seated
    cases here : s.pool? slot with
    | some pool => exact exec_seated vouched here occupied.seated hreset heeds fun _ => hclear
    | none =>
      -- nothing was in use, so a new pool may take the slot
      have hused : used = [] := occupied.vacant here
      intro after hafter
      by_cases named : command.pool? = some slot
      · rw [exec_absent here named, here] at hafter
        cases hafter
      · rw [occupy, hafter, Option.elim_some, if_neg named, hused]
        exact .nobody ((vouched.step (exec_step vouched)).fit slot after hafter)

end Commands

/-! ### Histories -/

section Histories

variable {command : Command} {history : List Command} {used : List Region} {index : Nat}

/-- **The regions of a pool in use** after a history. -/
def usedAfter (s : Session) (slot : Nat) (used : List Region) : List Command → List Region
  | [] => used
  | command :: history =>
    (s.exec command).2.usedAfter slot (s.occupy slot used command) history

/-- **A history heeds which regions of a pool are in use**, command by command. -/
def HeedsAll (s : Session) (slot : Nat) (used : List Region) : List Command → Prop
  | [] => True
  | command :: history => s.Heeds slot used command ∧
    (s.exec command).2.HeedsAll slot (s.occupy slot used command) history

instance (s : Session) (slot : Nat) (used : List Region) : DecidablePred (s.Heeds slot used) :=
  fun command => inferInstanceAs (Decidable (command.pool? = some slot →
    ∀ pool ∈ s.pool? slot, (∀ region ∈ s.lengthens command, pool.InUse used region) ∧
      pool.InUseInTurn used (s.surrenders command)))

/-- Whether a history heeds which regions are in use can be told. -/
def decidableHeedsAll (s : Session) (slot : Nat) (used : List Region) :
    (history : List Command) → Decidable (s.HeedsAll slot used history)
  | [] => .isTrue trivial
  | command :: history =>
    have := (s.exec command).2.decidableHeedsAll slot (s.occupy slot used command) history
    inferInstanceAs (Decidable (_ ∧ _))

instance (s : Session) (slot : Nat) (used : List Region) :
    DecidablePred (s.HeedsAll slot used) := s.decidableHeedsAll slot used

theorem Occupied.run (vouched : s.Vouched) (occupied : s.Occupied slot used)
    (heeds : s.HeedsAll slot used history) :
    (s.run history).2.Occupied slot (s.usedAfter slot used history) := by
  induction history generalizing s used with
  | nil => exact occupied
  | cons command history ih =>
    exact ih (vouched.step (exec_step vouched)) (occupied.exec vouched heeds.1) heeds.2

/-- **A region is on top of those in use**: it is in use, and those of its block that were not
given back with it end where it starts, or before. -/
def OnTop (used returned : List Region) (region : Region) : Prop :=
  region ∈ used ∧ ∀ other ∈ inUseWithout used returned, ∀ index start start',
    region.place = .block index start → other.place = .block index start' →
      start' + other.length ≤ start

/-- **The regions of a pool in use are stacked** in its blocks, below the cursors. What is given
back comes from the top. -/
structure Stacked (s : Session) (slot : Nat) (used : List Region) : Prop where
  inside : ∀ pool, s.pool? slot = some pool → ∀ region ∈ used,
    region.pool = pool.id ∧ region.generation = pool.generation ∧ region.length ≠ 0 ∧
      ∃ index block, region.place = .block index region.place.offset ∧
        pool.chain.blocks[index]? = some block ∧
        region.place.offset + region.length ≤ block.cursor
  apart : used.Pairwise Region.Apart
  /-- What the caller is told was given back, was. -/
  told : ∀ index, (s.exec (.reclaim slot index)).1 = .flag true →
    s.gaveBack slot (.reclaim slot index) = (s.region? index).toList
  top : ∀ command, command.pool? = some slot → s.Heeds slot used command →
    ∀ region ∈ s.gaveBack slot command, region.length ≠ 0 →
      OnTop used (s.gaveBack slot command) region

/-- What the caller is told was given back, was. -/
theorem gaveBack_of_flag (h : (s.exec (.reclaim slot index)).1 = .flag true) :
    s.gaveBack slot (.reclaim slot index) = (s.region? index).toList := by
  rw [exec] at h
  cases hregion : s.region? index with
  | none =>
    rw [hregion] at h
    cases h
  | some region =>
    rw [hregion, Session.withFound, Session.perform] at h
    cases here : s.pool? slot with
    | none =>
      rw [here] at h
      cases h
    | some pool =>
      -- the flag is the answer of the pool, which says true only when it moved the cursor
      rw [here, Session.withFound] at h
      have hone : s.surrenders (.reclaim slot index) = [region] := congrArg Option.toList hregion
      rw [gaveBack, here, Option.elim_some, hone, Pool.returned, Pool.reclaimed?]
      unfold onPool at h
      dsimp only at h
      rcases hrun : pool.reclaim region with failure | ⟨_ | _, after⟩
      · rw [hrun] at h
        cases h
      · rw [hrun] at h
        cases h
      · rfl

theorem Occupied.stacked (occupied : s.Occupied slot used) : s.Stacked slot used where
  inside pool here region hmem := (occupied.seated pool here).inside hmem
  apart := by
    cases here : s.pool? slot with
    | some pool => exact (occupied.seated pool here).apart
    | none =>
      rw [occupied.vacant here]
      exact List.Pairwise.nil
  told _ := gaveBack_of_flag
  top command named heeds region hmem hlength := by
    cases here : s.pool? slot with
    | none =>
      rw [gaveBack, here] at hmem
      exact (List.not_mem_nil hmem).elim
    | some pool =>
      -- what came back are the regions that were on top, in the order of the command
      have hback : s.gaveBack slot command = pool.returned (s.surrenders command) := by
        rw [gaveBack, here, Option.elim_some]
      rw [hback] at hmem ⊢
      exact Pool.top_of_returned (occupied.seated pool here) (heeds named pool here).2 region hmem
        hlength

/-- A caller who holds nothing yet. -/
theorem Occupied.ofHeap (heap : Heap) : (Session.ofHeap heap).Occupied slot [] := by
  have hnone : (Session.ofHeap heap).pool? slot = none := rfl
  refine ⟨fun pool here => ?_, fun _ => rfl⟩
  rw [hnone] at here
  cases here

/-- **Giving back takes nothing from anyone.** After every history that lengthened and gave back no
regions but those in use, the regions in use share no byte, and another one that is given back is on
top of them. -/
theorem run_stacks (heap : Heap) (slot : Nat) (history : List Command)
    (heeds : (Session.ofHeap heap).HeedsAll slot [] history) :
    ((Session.ofHeap heap).run history).2.Stacked slot
      ((Session.ofHeap heap).usedAfter slot [] history) :=
  ((Occupied.ofHeap heap).run (.ofHeap heap) heeds).stacked

/-- A region is lengthened while a copy of it is kept, an array is destroyed while a copy of it is
kept, and both copies are given back after a reset. -/
def stackedHistory : List Command :=
  [.createPool { size := 256 } none, .alloc 0 16, .keepCopy 0, .extend 0 0 8, .reclaim 0 1,
    .initArray 0 2 8, .pushArray 0 0 (.fill 1), .cloneArray 0, .pushManyArray 0 0 3 (.fill 2),
    .destroyArray 0 0, .alloc 0 8, .reset 0, .reclaim 0 0, .destroyArray 0 1, .alloc 0 24,
    .addCleanup 0 8]

theorem run_stacks_stackedHistory :
    (Session.ofHeap roomyHeap).HeedsAll 0 [] stackedHistory ∧
      ((Session.ofHeap roomyHeap).run stackedHistory).2.Stacked 0
        ((Session.ofHeap roomyHeap).usedAfter 0 [] stackedHistory) := by
  have heeds : (Session.ofHeap roomyHeap).HeedsAll 0 [] stackedHistory := by decide +kernel
  exact ⟨heeds, run_stacks roomyHeap 0 stackedHistory heeds⟩

/-- A region is given back, and its bytes are handed out again in two parts. -/
def partedHistory : List Command :=
  [.createPool { size := 256 } none, .alloc 0 16, .reclaim 0 0, .alloc 0 8, .alloc 0 8]

/-- **A region that is not in use can take others with it**: given back once more, it is said to
have been on top. -/
theorem not_onTop_of_flag : ¬ ∀ (heap : Heap) (slot index : Nat) (history : List Command),
    (((Session.ofHeap heap).run history).2.exec (.reclaim slot index)).1 = .flag true →
      ∀ region, ((Session.ofHeap heap).run history).2.region? index = some region →
        region.length ≠ 0 →
          OnTop ((Session.ofHeap heap).usedAfter slot [] history) [region] region := by
  intro h
  have hflag : (((Session.ofHeap roomyHeap).run partedHistory).2.exec (.reclaim 0 0)).1 =
      .flag true := by decide +kernel
  have hregion : ((Session.ofHeap roomyHeap).run partedHistory).2.region? 0 =
      some ⟨⟨1⟩, 0, 16, .block 0 80⟩ := by decide +kernel
  have hused : (⟨⟨1⟩, 0, 16, .block 0 80⟩ : Region) ∉
      (Session.ofHeap roomyHeap).usedAfter 0 [] partedHistory := by decide +kernel
  -- what is on top is in use, and this region was given back before
  exact hused (h roomyHeap 0 0 partedHistory hflag _ hregion (by decide)).1

end Histories

end Session

end RegionPool
