import RegionPool.Proofs.Cleanups
import RegionPool.Proofs.Occupancy

/-!
# What a cleanup action is given

The bytes of a cleanup record are kept for its action, which is given them when the pool is
destroyed. No one else may write to them before: neither a caller through another region, nor the
action of a newer record, which runs first. A caller who uses only what is in use cannot do so by
mistake, as long as the pool is not reset; for a reset frees the bytes of the records, too, but
keeps the records.

* `Runs.turn` — when the turn of a record comes, the newer ones have left its bytes alone;
* `Session.Respects` — a command that does not reset the pool, and writes to what is in use;
* `Session.entrustAll` — the bytes that were written for a record last, told from a history;
* `Session.Entrusted`, `Entrusted.exec`, `Entrusted.start` — the bytes are kept beside what is in
  use, from the time the record is registered;
* `run_entrusts` — the action of the record is given the bytes that were written last;
* `not_bequeaths_of_reset` — this is not so if the pool was reset.
-/

namespace RegionPool

open PoolM

/-! ### What runs before the action -/

namespace Pool

variable {pool after : Pool} {gone : List BufferId} {record : CleanupRecord} {region : Region}
  {ran : Option Ran} {runs : List Ran} {newer older : List CleanupRecord}

/-- **An action leaves the bytes of others alone**: it writes to those of its record. -/
theorem RunsRecord.content? (h : pool.RunsRecord gone record ran after)
    (hapart : ∀ data ∈ record.data, data.Apart region) :
    after.content? region = pool.content? region := by
  cases h with
  | @given tag content data store bytes kept found stored =>
    -- an action gets as many bytes as the record has, and writes no more than that
    obtain ⟨buffer, hbuffer, hle, hbytes⟩ := content?_eq_some_iff.mp found
    have hlength : bytes.length = data.length := by
      rw [← hbytes, List.length_take, List.length_drop, Buffer.length_bytes]
      omega
    have hfits : 0 + (content.apply bytes).length ≤ data.length := by
      rw [Content.length_apply, hlength, Nat.zero_add]
    have hsame : (pool.overwrite store (data.place.offset + 0) (content.apply bytes)).content?
        region = pool.content? region :=
      content?_overwrite_of_apart hbuffer hle stored hfits (hapart data rfl)
    rwa [Nat.add_zero] at hsame
  | _ => rfl

/-- **When the turn of a record comes**, those before it have left its bytes alone. -/
theorem Runs.turn (h : Runs gone pool (newer ++ record :: older) runs)
    (hapart : ∀ other ∈ newer, ∀ data ∈ other.data, data.Apart region) :
    ∃ first found after ran rest, runs = first ++ (Option.toList ran ++ rest) ∧
      RunsRecord gone found record ran after ∧ found.content? region = pool.content? region ∧
      List.Forall₂ Ran.Of first (newer.filterMap CleanupRecord.action) ∧
      List.Forall₂ Ran.Of rest (older.filterMap CleanupRecord.action) := by
  induction newer generalizing pool runs with
  | nil =>
    cases h with
    | @cons _ after _ _ ran rest first hrest =>
      exact ⟨[], pool, after, ran, rest, rfl, first, rfl, .nil, hrest.actions⟩
  | cons other newer ih =>
    cases h with
    | @cons _ after _ _ ran runs first hrest =>
      obtain ⟨earlier, found, last, turn, rest, rfl, hturn, hcontent, hearlier, holder⟩ :=
        ih hrest fun later hmem => hapart later (List.mem_cons_of_mem _ hmem)
      -- the record in front has its turn first, and writes to its own bytes only
      have hone : Runs gone pool [other] (ran.toList ++ []) := .cons first .nil
      refine ⟨ran.toList ++ earlier, found, last, turn, rest, (List.append_assoc ..).symm, hturn,
        ?_, ?_, holder⟩
      · rw [hcontent]
        exact first.content? (hapart other List.mem_cons_self)
      · have hactions := hone.actions
        rw [List.append_nil] at hactions
        have hsplit : (other :: newer).filterMap CleanupRecord.action =
            [other].filterMap CleanupRecord.action ++ newer.filterMap CleanupRecord.action :=
          List.filterMap_append (l := [other])
        rw [hsplit]
        exact List.rel_append hactions hearlier

/-- **An action that takes data** is given the bytes of its record, if they are in a block. -/
theorem RunsRecord.given_bytes {tag : String} {content : Content} {bytes : Bytes}
    (h : pool.RunsRecord gone ⟨some (.withData tag content), some region⟩ ran after)
    (hsmall : region.isLarge = false) (hcontent : pool.content? region = some bytes) :
    ran = some (.withData tag bytes) := by
  cases h with
  | bare lost =>
    obtain ⟨id, -, hplace⟩ := lost region rfl
    obtain ⟨_, _, hblock⟩ := Region.isLarge_eq_false_iff.mp hsmall
    cases hplace.symm.trans hblock
  | given kept found stored => rw [Option.some.inj (found.symm.trans hcontent)]

end Pool

/-- **A direct command** writes to the bytes of a region that it names, and does nothing else. -/
def Command.isDirect : Command → Bool
  | .write _ _ _ | .copy _ _ _ _ | .writeCleanup _ _ _ => true
  | _ => false

namespace Session

variable {s after : Session} {slot index : Nat} {command : Command} {region : Region}
  {used : List Region} {bytes : Bytes} {ticket : CleanupTicket} {pool : Pool}

/-! ### The discipline -/

/-- **A command respects the bytes of a record**: it does not reset the pool, and lengthens, gives
back and writes to no regions but those in use. The bytes themselves are written to directly. -/
structure Respects (s : Session) (slot : Nat) (used : List Region) (region : Region)
    (command : Command) : Prop where
  unreset : command ≠ .reset slot
  heeds : s.Heeds slot used command
  writes : command.pool? = some slot → ∀ pool ∈ s.pool? slot, ∀ other ∈ s.writesTo command,
    pool.InUse used other ∨ other = region ∧ command.isDirect = true

/-- **The bytes of a record** after a command: those that it wrote, if it wrote to them. -/
def entrust (s : Session) (slot : Nat) (region : Region) (bytes : Bytes) (command : Command) :
    Bytes :=
  if command.pool? = some slot ∧ region ∈ s.writesTo command then
    ((s.exec command).2.pool? slot).elim bytes (·.contents region)
  else bytes

/-- **The bytes of a record are entrusted** to the pool in a slot: they are there, beside those of
the regions in use, and no newer record shares any of them. -/
structure Entrusted (s : Session) (slot : Nat) (ticket : CleanupTicket) (lease : Lease)
    (used : List Region) : Prop where
  made : slot < s.pools.length
  seated : s.Seated slot [lease] used
  newer : ∀ index other, s.ticket? index = some other → other.pool = ⟨slot + 1⟩ →
    ticket.index < other.index → ∀ data ∈ other.data, data.Apart lease.region

/-- **The bytes of a record** after a history: those that were written last. -/
def entrustAll (s : Session) (slot : Nat) (region : Region) (bytes : Bytes) : List Command → Bytes
  | [] => bytes
  | command :: history =>
    (s.exec command).2.entrustAll slot region (s.entrust slot region bytes command) history

/-- **A history respects the bytes of a record**, command by command. -/
def RespectsAll (s : Session) (slot : Nat) (used : List Region) (region : Region) :
    List Command → Prop
  | [] => True
  | command :: history => s.Respects slot used region command ∧
    (s.exec command).2.RespectsAll slot (s.occupy slot used command) region history

instance (s : Session) (slot : Nat) (used : List Region) (region : Region) :
    DecidablePred (s.Respects slot used region) := fun command =>
  decidable_of_iff (command ≠ .reset slot ∧ s.Heeds slot used command ∧
    (command.pool? = some slot → ∀ pool ∈ s.pool? slot, ∀ other ∈ s.writesTo command,
      pool.InUse used other ∨ other = region ∧ command.isDirect = true))
    ⟨fun h => ⟨h.1, h.2.1, h.2.2⟩, fun h => ⟨h.unreset, h.heeds, h.writes⟩⟩

/-- Whether a history respects the bytes of a record can be told. -/
def decidableRespectsAll (s : Session) (slot : Nat) (used : List Region) (region : Region) :
    (history : List Command) → Decidable (s.RespectsAll slot used region history)
  | [] => .isTrue trivial
  | command :: history =>
    have := (s.exec command).2.decidableRespectsAll slot (s.occupy slot used command) region history
    inferInstanceAs (Decidable (_ ∧ _))

instance (s : Session) (slot : Nat) (used : List Region) (region : Region) :
    DecidablePred (s.RespectsAll slot used region) := s.decidableRespectsAll slot used region

/-! ### One command -/

/-- **A direct command** leaves what the caller holds. -/
theorem handles_of_isDirect (direct : command.isDirect = true) :
    (s.exec command).2.handles = s.handles := by
  have hfound : ∀ {α : Type} {found : Option α} {next : α → Reply × Session},
      (∀ a, (next a).2.handles = s.handles) → (s.withFound found next).2.handles = s.handles :=
    fun hnext => withFound_ends (Q := fun result => result.2.handles = s.handles) rfl
      fun a _ => hnext a
  cases command with
  | write _ _ _ | writeCleanup _ _ _ => exact hfound fun _ => handles_performNone
  | copy _ _ _ _ => exact hfound fun _ => hfound fun _ => handles_performNone
  | _ => cases direct

theorem issued_of_isDirect (direct : command.isDirect = true) :
    s.issued (s.exec command).2 = [] := by
  have hsame := handles_of_isDirect (s := s) direct
  exact issued_eq_nil (hsame ▸ List.Subperm.refl _)

/-- A direct command may write anywhere if nothing is kept. -/
theorem exec_direct (direct : command.isDirect = true) (named : command.pool? = some slot)
    (seated : s.Seated slot [] used) : (s.exec command).2.Seated slot [] used := by
  obtain ⟨ordinary, hkeeping, hlengthens⟩ :
      command.Ordinary ∧ s.surrenders command = [] ∧ s.lengthens command = [] := by
    cases command with
    | write _ _ _ | writeCleanup _ _ _ | copy _ _ _ _ => exact ⟨trivial, rfl, rfl⟩
    | _ => cases direct
  -- a direct command hands nothing out and takes nothing back, so it heeds anything
  have heeds : s.Heeds slot used command := by
    intro _ pool _
    rw [hlengthens, hkeeping]
    exact ⟨fun _ hmem => (List.not_mem_nil hmem).elim, trivial⟩
  have hissues := exec_keeping seated named ordinary hkeeping heeds fun _ _ _ hmem =>
    (List.not_mem_nil hmem).elim
  rwa [Issues, issued_of_isDirect direct, inUseAfter_nil] at hissues

/-- Nothing more is in use after a direct command. -/
theorem occupy_of_isDirect (direct : command.isDirect = true) :
    (s.occupy slot used command).Sublist used := by
  rw [occupy, issued_of_isDirect direct]
  cases (s.exec command).2.pool? slot with
  | none => exact List.nil_sublist _
  | some pool =>
    rw [Option.elim_some, inUseAfter_nil]
    split
    · exact List.filter_sublist.trans inUseWithout_sublist
    · exact List.Sublist.refl _

/-- A ticket that is kept after an action is the one that the action came back with. -/
private theorem apart_of_keepTicket {kept : List Lease} {action : PoolM CleanupTicket}
    (hends : ∀ pool, s.pool? slot = some pool → Ends action ⟨pool, s.world⟩
      (fun ticket t => t.Seats kept (ticket.data.toList.filter Region.occupies ++ used))
      (fun _ t => t.Seats kept used))
    (htickets : (s.perform slot action fun ticket u => u.keepTicket ticket).2.tickets =
      s.tickets ++ [ticket]) : ∀ data ∈ ticket.data, ∀ lease ∈ kept, data.Apart lease.region := by
  -- a session that holds no more tickets has kept none
  have hsame : s.tickets ≠ s.tickets ++ [ticket] := fun heq =>
    List.cons_ne_nil _ _ (List.append_right_eq_self.mp heq.symm)
  revert htickets
  refine withFound_ends (Q := fun result => result.2.tickets = s.tickets ++ [ticket] →
    ∀ data ∈ ticket.data, ∀ lease ∈ kept, data.Apart lease.region)
    (fun heq => absurd heq hsame) fun pool here => ?_
  have hends' := hends pool here
  split
  · next made t run =>
    intro htickets data hdata
    obtain rfl : made = ticket :=
      List.singleton_inj.mp (List.append_cancel_left htickets)
    have hseats := hends'.ok_of run
    rw [Option.mem_def.mp hdata, Option.toList_some] at hseats
    exact hseats.apart_of_fresh
  · exact fun heq => absurd heq hsame

/-- **A record that is registered** gets bytes that share none with what is kept. -/
theorem apart_of_registers {kept : List Lease} (registers : command.Registers)
    (named : command.pool? = some slot) (seated : s.Seated slot kept used)
    (htickets : (s.exec command).2.tickets = s.tickets ++ [ticket]) :
    ∀ data ∈ ticket.data, ∀ lease ∈ kept, data.Apart lease.region := by
  cases command with
  | addCleanup _ _ =>
    cases named
    exact apart_of_keepTicket (fun pool here => Pool.addCleanup_seats (seated pool here)) htickets
  | onDestroy _ _ =>
    cases named
    exact apart_of_keepTicket (fun pool here => Pool.onDestroy_seats (seated pool here)) htickets
  -- nothing but these two registers a record
  | _ => exact registers.elim

/-- A region that is kept is not in use. -/
private theorem not_inUse_of_kept {s : PoolState} (h : s.Seats [⟨region, bytes⟩] used)
    (hoccupies : region.occupies = true) : ¬ s.pool.InUse used region := by
  intro inUse
  have hapart := h.clear_of_inUse inUse _ List.mem_cons_self rfl rfl
  obtain ⟨hsmall, hlength⟩ := Region.occupies_iff.mp hoccupies
  obtain ⟨place, start, hplace⟩ := Region.isLarge_eq_false_iff.mp hsmall
  have hdisjoint := hapart.block place start start hplace hplace
  dsimp only at hdisjoint
  omega

namespace Entrusted

/-- **A command that respects the bytes of a record** leaves them to it. -/
theorem exec (vouched : s.Vouched) (entrusted : s.Entrusted slot ticket ⟨region, bytes⟩ used)
    (hoccupies : region.occupies = true) (respects : s.Respects slot used region command) :
    (s.exec command).2.Entrusted slot ticket ⟨region, s.entrust slot region bytes command⟩
      (s.occupy slot used command) where
  made := Nat.lt_of_lt_of_le entrusted.made (exec_step vouched).length_le
  seated := by
    intro after hafter
    cases here : s.pool? slot with
    | none =>
      -- a pool that is gone does not come back
      by_cases named : command.pool? = some slot
      · rw [exec_absent here named, here] at hafter
        cases hafter
      · rcases exec_others vouched named hafter with hold | ⟨hle, -⟩
        · rw [here] at hold
          cases hold
        · exact absurd entrusted.made (Nat.not_lt.mpr hle)
    | some pool =>
      have hseats := entrusted.seated pool here
      by_cases own : command.pool? = some slot ∧ region ∈ s.writesTo command
      · -- the bytes are written to, so for that time nothing need be kept
        obtain ⟨named, hwrites⟩ := own
        obtain ⟨-, direct⟩ := (respects.writes named pool here region hwrites).resolve_left
          (not_inUse_of_kept hseats hoccupies)
        have hback : s.Seated slot [] (region :: used) := fun other hother =>
          (entrusted.seated other hother).resume hoccupies
        rw [entrust, if_pos ⟨named, hwrites⟩, hafter, Option.elim_some]
        exact (exec_direct direct named hback after hafter).entrust.sublist
          (occupy_of_isDirect direct)
      · rw [entrust, if_neg own]
        refine exec_seated vouched here entrusted.seated respects.unreset respects.heeds
          (fun named other hother lease hmem => ?_) after hafter
        obtain rfl := List.mem_singleton.mp hmem
        rcases respects.writes named pool here other hother with inUse | ⟨rfl, -⟩
        · exact hseats.clear_of_inUse inUse _ List.mem_cons_self
        · exact absurd ⟨named, hother⟩ own
  newer := by
    intro place other held howner hindex data hdata
    rcases exec_issues vouched with hsame | ⟨acting, pool, new, named, here, htickets, hnew⟩
    · rw [ticket?, hsame] at held
      exact entrusted.newer place other held howner hindex data hdata
    · rw [ticket?_of_append htickets] at held
      split at held
      · obtain rfl := Option.some.inj held
        obtain rfl : slot = acting := vouched.slot_eq here (hnew.symm.trans howner)
        have registers : command.Registers := by
          by_contra unregistered
          rw [exec_tickets unregistered] at htickets
          exact List.cons_ne_nil _ _ (List.append_right_eq_self.mp htickets.symm)
        exact apart_of_registers registers named entrusted.seated htickets data hdata
          ⟨region, bytes⟩ List.mem_cons_self
      · exact entrusted.newer place other held howner hindex data hdata

/-- **What a pool is entrusted with** when a record is registered. -/
theorem start {dataSize : Nat} (vouched : s.Vouched) (seated : s.Seated slot [] used)
    (registered : (s.exec (.addCleanup slot dataSize)).1 = .ticket index)
    (held : (s.exec (.addCleanup slot dataSize)).2.ticket? index = some ticket)
    (hdata : ticket.data = some region) (hoccupies : region.occupies = true) :
    ticket.pool = ⟨slot + 1⟩ ∧
      ∃ pool, (s.exec (.addCleanup slot dataSize)).2.pool? slot = some pool ∧
        (s.exec (.addCleanup slot dataSize)).2.Entrusted slot ticket (pool.leaseOf region)
          used := by
  cases here : s.pool? slot with
  | none =>
    rw [exec_absent here rfl] at registered
    cases registered
  | some pool =>
    have hends : Ends (Pool.addCleanup dataSize) ⟨pool, s.world⟩ _ _ :=
      (Pool.addCleanup_seats (seated pool here)).and
        (Pool.addCleanup_ends (vouched.fit slot pool here))
    cases run : Pool.addCleanup dataSize ⟨pool, s.world⟩ with
    | error failure t =>
      have hexec : s.exec (.addCleanup slot dataSize) = (.failed failure, s.settle slot t) := by
        rw [Session.exec, Session.perform, here, Session.withFound, run]
      rw [hexec] at registered
      cases registered
    | ok made t =>
      have hexec : s.exec (.addCleanup slot dataSize) = (s.settle slot t).keepTicket made := by
        rw [Session.exec, Session.perform, here, Session.withFound, run]
      have step : s.Step (.addCleanup slot dataSize) _ _ := exec_step vouched
      have vouched' := vouched.step step
      rw [hexec] at registered held vouched' ⊢
      obtain ⟨hseats, u, calls, -, hspares, -, hpool, howner, hindex, -⟩ := hends.ok_of run
      obtain rfl : s.tickets.length = index := Reply.ticket.inj registered
      obtain rfl : made = ticket := by
        have hlast : (s.tickets ++ [made])[s.tickets.length]? = some ticket := held
        rw [List.getElem?_concat_length] at hlast
        exact Option.some.inj hlast
      have hafter : ((s.settle slot t).keepTicket made).2.pool? slot = some t.pool :=
        pool?_settle_self here t
      refine ⟨howner.trans (vouched.numbered slot pool here), t.pool, hafter, ?_, ?_, ?_⟩
      · change slot < (s.settle slot t).pools.length
        rw [length_pools_settle]
        exact lt_of_pool? here
      · intro other hother
        obtain rfl := Option.some.inj (hafter.symm.trans hother)
        rw [hdata, Option.toList_some, List.filter_cons_of_pos hoccupies] at hseats
        exact hseats.entrust
      · -- no record is newer than the one that was registered just now
        intro place other hplace hother hlt
        obtain ⟨home, -, hid, hcount⟩ := vouched'.tickets other (List.mem_of_getElem? hplace)
        rw [hother] at hid
        obtain rfl : slot = home := Nat.succ.inj (PoolId.mk.inj hid)
        have hnewest := hcount t.pool hafter
        have hrecords : u.pool.cleanups = pool.cleanups := hspares.cleanups
        rw [hpool, CleanupStack.count_push, hrecords, ← hindex] at hnewest
        omega

/-- **A history that respects the bytes of a record.** -/
theorem run {history : List Command} (vouched : s.Vouched)
    (entrusted : s.Entrusted slot ticket ⟨region, bytes⟩ used)
    (hoccupies : region.occupies = true)
    (respects : s.RespectsAll slot used region history) :
    (s.run history).2.Entrusted slot ticket
      ⟨region, s.entrustAll slot region bytes history⟩ (s.usedAfter slot used history) := by
  induction history generalizing s used bytes with
  | nil => exact entrusted
  | cons command history ih =>
    exact ih (vouched.step (exec_step vouched)) (entrusted.exec vouched hoccupies respects.1)
      respects.2

end Entrusted

/-! ### The destruction -/

/-- **The action of a record is given these bytes** when the pool in a slot is destroyed, if it is
one that takes data. The actions of newer records run before, and those of older ones after. -/
def Bequeaths (s : Session) (slot : Nat) (ticket : CleanupTicket) (bytes : Bytes) : Prop :=
  ∀ pool, s.pool? slot = some pool → ∀ tag content data,
    pool.cleanups.records[ticket.index]? = some ⟨some (.withData tag content), data⟩ →
    ∃ newer older, (s.exec (.destroy slot)).2.world.ran =
        s.world.ran ++ (newer ++ .withData tag bytes :: older) ∧
      List.Forall₂ Ran.Of newer ((pool.cleanups.records.drop (ticket.index + 1)).reverse.filterMap
        CleanupRecord.action) ∧
      List.Forall₂ Ran.Of older ((pool.cleanups.records.take ticket.index).reverse.filterMap
        CleanupRecord.action)

/-- The data of a record is that of its ticket. -/
private theorem Attached.data_eq {roster : List Attachment} {place : Nat} {record : CleanupRecord}
    (attached : s.Attached slot roster) (here : s.pool? slot = some pool)
    (h : pool.cleanups.records[place]? = some record) :
    ∃ other ticket, s.ticket? other = some ticket ∧ ticket.pool = ⟨slot + 1⟩ ∧
      ticket.index = place ∧ record.data = ticket.data := by
  rw [attached.records pool here, List.getElem?_map] at h
  obtain ⟨a, hplace, rfl⟩ := Option.map_eq_some_iff.mp h
  obtain ⟨ticket, held, howner, hindex⟩ := attached.places.exists_ticket hplace
  exact ⟨a.ticket, ticket, held, howner, hindex, by rw [Attachment.record, held]; rfl⟩

/-- **What is entrusted to a pool** is handed on when it is destroyed. -/
theorem Entrusted.bequeaths {roster : List Attachment} {taken : List Holding}
    (entrusted : s.Entrusted slot ticket ⟨region, bytes⟩ used)
    (attached : s.Attached slot roster) (accounted : s.Accounted taken) (retired : s.Retired)
    (held : s.ticket? index = some ticket) (howner : ticket.pool = ⟨slot + 1⟩)
    (hdata : ticket.data = some region) (hoccupies : region.occupies = true) :
    s.Bequeaths slot ticket bytes := by
  intro pool here tag content data hrecord
  -- the record is that of the ticket
  obtain rfl : data = some region := by
    obtain ⟨place, other, hother, howner', hindex, rfl⟩ := attached.data_eq here hrecord
    have hplace := (attached.places ticket.index place).mpr ⟨other, hother, howner', hindex⟩
    have hindex := (attached.places ticket.index index).mpr ⟨ticket, held, howner, rfl⟩
    obtain rfl := Option.some.inj (hplace.symm.trans hindex)
    obtain rfl := Option.some.inj (hother.symm.trans held)
    exact hdata
  let records := pool.cleanups.records
  have hsplit : records.reverse = (records.drop (ticket.index + 1)).reverse ++
      ⟨some (.withData tag content), some region⟩ :: (records.take ticket.index).reverse := by
    obtain ⟨hlt, hget⟩ := List.getElem?_eq_some_iff.mp hrecord
    conv_lhs => rw [← List.take_append_drop ticket.index records, List.reverse_append,
      List.drop_eq_getElem_cons hlt, hget, List.reverse_cons, List.append_assoc]
    rfl
  have hapart : ∀ other ∈ (records.drop (ticket.index + 1)).reverse, ∀ data ∈ other.data,
      data.Apart region := by
    intro other hmem data hdata'
    obtain ⟨place, hplace⟩ := List.mem_iff_getElem?.mp (List.mem_reverse.mp hmem)
    rw [List.getElem?_drop] at hplace
    obtain ⟨slot', newer, hnewer, howner', hindex, hsame⟩ := attached.data_eq here hplace
    exact entrusted.newer slot' newer hnewer howner' (by omega) data (hsame ▸ hdata')
  obtain ⟨runs, first, last, destroys⟩ := attached.destroy accounted retired here
  have unwound := destroys.unwound
  rw [List.map_reverse, ← attached.records pool here, hsplit] at unwound
  obtain ⟨newer, found, after, ran, older, hruns, hturn, hcontent, hnewer, holder⟩ :=
    unwound.turn hapart
  -- when its turn comes, the bytes are still there
  have hkeeps := (entrusted.seated pool here).honours.pool.keeps ⟨region, bytes⟩
    (List.mem_append_right _ List.mem_cons_self)
  have hgiven : ran = some (.withData tag bytes) :=
    hturn.given_bytes (Region.occupies_iff.mp hoccupies).1 (hcontent.trans hkeeps.content)
  refine ⟨newer, older, ?_, hnewer, holder⟩
  rw [World.ran, World.ran, destroys.events, List.filterMap_append, List.filterMap_append,
    destroys.ran, destroys.calm, List.append_nil, hruns, hgiven]
  rfl

/-! ### Histories -/

/-- Tickets stay in their slots. -/
theorem ticket?_run {history : List Command} (vouched : s.Vouched)
    (held : s.ticket? index = some ticket) : (s.run history).2.ticket? index = some ticket := by
  induction history generalizing s with
  | nil => exact held
  | cons command history ih =>
    have hafter : (s.exec command).2.ticket? index = some ticket := by
      rcases exec_issues vouched with hsame | ⟨_, _, _, _, _, htickets, _⟩
      · rwa [ticket?, hsame]
      · exact ticket?_mono htickets held
    exact ih (vouched.step (exec_step vouched)) hafter

/-- **A cleanup action is given the bytes that were written for it last.** A record is registered
after a history that heeds which regions are in use. If the rest of the history respects the bytes
of the record, whatever else it allocates, registers and writes, then the action of the record is
given those bytes when the pool is destroyed. -/
theorem run_entrusts (heap : Heap) (slot dataSize : Nat) (before rest : List Command) {index : Nat}
    {ticket : CleanupTicket} {region : Region} :
    let s := ((Session.ofHeap heap).run before).2
    let used := (Session.ofHeap heap).usedAfter slot [] before
    let registered := (s.exec (.addCleanup slot dataSize)).2
    (Session.ofHeap heap).AdmitsAll (before ++ .addCleanup slot dataSize :: rest) →
    (Session.ofHeap heap).HeedsAll slot [] before →
    (s.exec (.addCleanup slot dataSize)).1 = .ticket index →
    registered.ticket? index = some ticket → ticket.data = some region →
    region.occupies = true → registered.RespectsAll slot used region rest →
    ∃ pool, registered.pool? slot = some pool ∧
      (registered.run rest).2.Bequeaths slot ticket
        (registered.entrustAll slot region (pool.contents region) rest) := by
  intro s used registered admitted heeds hreply held hdata hoccupies respects
  have vouched : s.Vouched := (Vouched.ofHeap heap).run
  have occupied : s.Occupied slot used := (Occupied.ofHeap heap).run (.ofHeap heap) heeds
  obtain ⟨howner, pool, here, entrusted⟩ :=
    Entrusted.start vouched occupied.seated hreply held hdata hoccupies
  have vouched' : registered.Vouched := vouched.step (exec_step vouched)
  have hrun : ((Session.ofHeap heap).run (before ++ .addCleanup slot dataSize :: rest)).2 =
      (registered.run rest).2 := by
    rw [run_append]
    rfl
  have accounted := (Accounted.ofHeap heap).run admitted
  have retired := (Accounted.ofHeap heap).retired_run admitted nofun
  have attached := (Attached.ofHeap heap slot).run (.ofHeap heap) (Accounted.ofHeap heap) admitted
  rw [hrun] at accounted retired attached
  -- the rest of the history entrusts; the destruction after it hands over what was entrusted last
  have hlast := entrusted.run vouched' hoccupies respects
  exact ⟨pool, here, hlast.bequeaths attached accounted retired (ticket?_run vouched' held) howner
    hdata hoccupies⟩

/-- What is done before the record is registered. -/
def openingHistory : List Command :=
  [.createPool { size := 256 } none, .alloc 0 16, .addCleanup 0 8]

/-- The bytes of the record are written by way of its ticket, and then by way of its region; other
regions and another record are handed out meanwhile, and written to. -/
def writtenHistory : List Command :=
  [.setWithData 0 1 "flush" (.fill 9), .writeCleanup 0 1 (.fill 1), .alloc 0 16,
    .write 0 1 (.fill 2), .addCleanup 0 8, .setWithData 0 2 "newer" (.fill 4),
    .writeCleanup 0 2 (.fill 5), .holdCleanupRegion 1, .write 0 2 (.fill 3), .copy 0 2 0 8,
    .onDestroy 0 "leave", .setWithData 0 0 "older" (.fill 6)]

theorem run_entrusts_writtenHistory :
    let registered := (((Session.ofHeap roomyHeap).run openingHistory).2.exec (.addCleanup 0 8)).2
    ∃ pool, registered.pool? 0 = some pool ∧
      (registered.run writtenHistory).2.Bequeaths 0 ⟨⟨1⟩, 1, some ⟨⟨1⟩, 0, 8, .block 0 152⟩⟩
        (registered.entrustAll 0 ⟨⟨1⟩, 0, 8, .block 0 152⟩
          (pool.contents ⟨⟨1⟩, 0, 8, .block 0 152⟩) writtenHistory) := by
  intro registered
  have admitted : (Session.ofHeap roomyHeap).AdmitsAll
      (openingHistory ++ .addCleanup 0 8 :: writtenHistory) := by decide +kernel
  have heeds : (Session.ofHeap roomyHeap).HeedsAll 0 [] openingHistory := by decide +kernel
  have hreply : (((Session.ofHeap roomyHeap).run openingHistory).2.exec (.addCleanup 0 8)).1 =
      .ticket 1 := by decide +kernel
  have held : registered.ticket? 1 = some ⟨⟨1⟩, 1, some ⟨⟨1⟩, 0, 8, .block 0 152⟩⟩ := by
    decide +kernel
  -- nobody writes to the eight bytes but through the record itself
  have respects : registered.RespectsAll 0
      ((Session.ofHeap roomyHeap).usedAfter 0 [] openingHistory) ⟨⟨1⟩, 0, 8, .block 0 152⟩
        writtenHistory := by decide +kernel
  exact run_entrusts roomyHeap 0 8 openingHistory writtenHistory admitted heeds hreply held rfl
    (by decide) respects

/-- The action is given what was written by way of the region, and the newer record runs first. -/
example : let registered :=
      (((Session.ofHeap roomyHeap).run openingHistory).2.exec (.addCleanup 0 8)).2
    ((registered.run writtenHistory).2.exec (.destroy 0)).2.world.ran =
      [.custom "leave", .withData "newer" [5, 5, 5, 5, 5, 5, 5, 5],
        .withData "flush" [3, 3, 3, 3, 3, 3, 3, 3],
        .withData "older" [0, 0, 0, 0, 0, 0, 0, 0]] := by
  decide +kernel

/-- The pool is reset, and a record that is registered then gets the bytes of the older one. -/
def reusedHistory : List Command :=
  [.setWithData 0 0 "flush" (.fill 9), .writeCleanup 0 0 (.fill 1), .reset 0, .addCleanup 0 8,
    .writeCleanup 0 1 (.fill 2)]

/-- **After a reset** an action can be given what was written for another record. -/
theorem not_bequeaths_of_reset : ¬ ∀ (heap : Heap) (slot dataSize : Nat)
    (before rest : List Command) (index : Nat) (ticket : CleanupTicket) (region : Region),
    let s := ((Session.ofHeap heap).run before).2
    let registered := (s.exec (.addCleanup slot dataSize)).2
    (s.exec (.addCleanup slot dataSize)).1 = .ticket index →
    registered.ticket? index = some ticket → ticket.data = some region →
    region.occupies = true →
    ∃ pool, registered.pool? slot = some pool ∧
      (registered.run rest).2.Bequeaths slot ticket
        (registered.entrustAll slot region (pool.contents region) rest) := by
  intro h
  let region : Region := ⟨⟨1⟩, 0, 8, .block 0 104⟩
  let ones : Bytes := List.replicate 8 1
  let opening : List Command := [.createPool { size := 256 } none]
  let registered := (((Session.ofHeap roomyHeap).run opening).2.exec (.addCleanup 0 8)).2
  have hreply : (((Session.ofHeap roomyHeap).run opening).2.exec (.addCleanup 0 8)).1 =
      .ticket 0 := by decide +kernel
  have held : registered.ticket? 0 = some ⟨⟨1⟩, 0, some region⟩ := by decide +kernel
  have hbytes : (registered.pool? 0).map (fun pool =>
      registered.entrustAll 0 region (pool.contents region) reusedHistory) = some ones := by
    decide +kernel
  have hrecord : ((registered.run reusedHistory).2.pool? 0).bind (fun pool =>
      pool.cleanups.records[0]?) = some ⟨some (.withData "flush" (.fill 9)), some region⟩ := by
    decide +kernel
  have hran : .withData "flush" ones ∉
      ((registered.run reusedHistory).2.exec (.destroy 0)).2.world.ran := by
    decide +kernel
  have hclaim : ∃ pool, registered.pool? 0 = some pool ∧
      (registered.run reusedHistory).2.Bequeaths 0 ⟨⟨1⟩, 0, some region⟩
        (registered.entrustAll 0 region (pool.contents region) reusedHistory) :=
    h roomyHeap 0 8 opening reusedHistory 0 ⟨⟨1⟩, 0, some region⟩ region hreply held rfl
      (by decide)
  -- from here on it does not matter how the pool came about
  clear_value registered
  obtain ⟨pool, here, bequeaths⟩ := hclaim
  rw [here, Option.map_some] at hbytes
  obtain ⟨last, hlast, hrecord⟩ := Option.bind_eq_some_iff.mp hrecord
  obtain ⟨newer, older, heq, -, -⟩ := bequeaths last hlast _ _ _ hrecord
  rw [heq, Option.some.inj hbytes] at hran
  exact hran (List.mem_append_right _ (List.mem_append_right _ List.mem_cons_self))

end Session

end RegionPool
