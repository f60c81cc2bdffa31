import Mathlib.Data.List.Induction
import RegionPool.Proofs.Resolution
import RegionPool.Proofs.Tables

/-!
# Which cleanup actions are attached

A caller attaches cleanup actions to the tickets that it got for its records, replaces them, takes
them away again, or has the one for a file run early. What is attached in the end can be told from
the commands and what they came back with, and the records of the pool say the same.

* `Attachment`, `enroll`, `Session.roster` — the tickets of a pool and what is attached to them,
  told from a history;
* `Session.Filing`, `exec_filed` — how a command changes records and tickets;
* `Session.Attached` — the records of a pool are those of a roster, and `Attached.run`.
-/

namespace RegionPool

open PoolM

/-! ### Records -/

/-- A record that is registered may get its action at once. -/
theorem CleanupStack.records_setAction_push {stack : CleanupStack} {data : Option Region}
    {action : Option CleanupAction} :
    ((stack.push data).setAction stack.count action).records =
      stack.records ++ [⟨action, data⟩] := by
  rw [setAction, push, count, List.modify_eq_take_cons_drop (by simp)]
  simp

/-- Only a ticket of the pool has a record. -/
theorem Pool.owner_of_cleanupRecord {pool : Pool} {ticket : CleanupTicket} {record : CleanupRecord}
    (h : pool.cleanupRecord ticket = .ok record) : ticket.pool = pool.id := by
  unfold cleanupRecord at h
  split at h
  · cases h
  · next howner => exact not_not.mp howner

/-- To search indices from the last one on is to search the items. -/
private theorem bind_find?_range {α : Type} {p : α → Bool} {q : Nat → Bool} (items : List α)
    (h : ∀ (index : Nat) a, items[index]? = some a → q index = p a) :
    ((List.range items.length).reverse.find? q).bind (items[·]?) = items.reverse.find? p := by
  induction items using List.reverseRecOn with
  | nil => rfl
  | append_singleton items a ih =>
    have hlast := h items.length a List.getElem?_concat_length
    rw [List.length_append, List.length_singleton, List.range_succ, List.reverse_append,
      List.reverse_append, List.reverse_singleton, List.reverse_singleton, List.singleton_append,
      List.singleton_append, List.find?_cons, List.find?_cons, hlast]
    -- the last item is looked at first, and then the search goes on before it
    cases p a with
    | true => exact List.getElem?_concat_length
    | false =>
      have hrest := ih fun index b hb => h index b (by
        rw [List.getElem?_append_left (List.getElem?_eq_some_iff.mp hb).1, hb])
      rw [← hrest]
      cases hfind : (List.range items.length).reverse.find? q with
      | none => rfl
      | some index =>
        have hmem := List.mem_of_find?_eq_some hfind
        rw [List.mem_reverse, List.mem_range] at hmem
        exact List.getElem?_append_left hmem

/-! ### Rosters -/

/-- **An attachment**: the slot of a ticket, and the action that is attached to it. -/
structure Attachment where
  ticket : Nat
  action : Option CleanupAction
  deriving Repr, DecidableEq

namespace Attachment

/-- Whether the file of this descriptor would be released. -/
def releases (descriptor : Int) (a : Attachment) : Bool :=
  match a.action.bind CleanupAction.file? with
  | some file => (file.descriptor : Int) == descriptor
  | none => false

/-- The record that the ticket stands for. -/
def record (s : Session) (a : Attachment) : CleanupRecord where
  action := a.action
  data := (s.ticket? a.ticket).bind CleanupTicket.data

end Attachment

/-- An action is attached to a ticket in place of the one that was. -/
def attach (roster : List Attachment) (ticket : Nat) (action : Option CleanupAction) :
    List Attachment :=
  roster.map fun a => if a.ticket = ticket then { a with action } else a

/-- The newest action that would release a file is attached no longer. -/
def detachFile (roster : List Attachment) (descriptor : Int) : List Attachment :=
  match roster.reverse.find? (Attachment.releases descriptor) with
  | some a => attach roster a.ticket none
  | none => roster

/-- **What a command does to a roster**, told from what it came back with. -/
def enroll (roster : List Attachment) : Command → Reply → List Attachment
  | .addCleanup _ _, .ticket index => roster ++ [⟨index, none⟩]
  | .onDestroy _ tag, .ticket index => roster ++ [⟨index, some (.custom tag)⟩]
  | .setCustom _ index tag, .done => attach roster index (some (.custom tag))
  | .setWithData _ index tag content, .done => attach roster index (some (.withData tag content))
  | .setFile _ index _ _ _, .file file => attach roster index (some (.file file))
  | .disableCleanup _ index, .action _ => attach roster index none
  | .runFileCleanup _ descriptor, .flag true => detachFile roster descriptor
  | _, _ => roster

/-- Whatever is attached, the tickets stay. -/
@[simp] theorem map_ticket_attach (roster : List Attachment) (ticket : Nat)
    (action : Option CleanupAction) :
    (attach roster ticket action).map Attachment.ticket = roster.map Attachment.ticket := by
  rw [attach, List.map_map]
  refine List.map_congr_left fun a _ => ?_
  rw [Function.comp_apply]
  split <;> rfl

@[simp] theorem map_ticket_detachFile (roster : List Attachment) (descriptor : Int) :
    (detachFile roster descriptor).map Attachment.ticket = roster.map Attachment.ticket := by
  unfold detachFile
  split
  · exact map_ticket_attach _ _ _
  · rfl

namespace Session

/-- **The roster of the pool in a slot**, oldest first, after a history. -/
def roster (s : Session) (slot : Nat) (known : List Attachment) : List Command → List Attachment
  | [] => known
  | command :: history =>
    (s.exec command).2.roster slot
      (if command.pool? = some slot then enroll known command (s.exec command).1 else known) history

variable {α : Type} {s after : Session} {slot : Nat} {pool pool' : Pool} {command : Command}
  {reply : Reply}

/-! ### Filing -/

/-- **How a command changes the records of a pool**, the tickets of the caller, and the roster. -/
inductive Filing (s : Session) (pool : Pool) (command : Command) (reply : Reply) (after : Session)
    (pool' : Pool) : Prop
  | kept (tickets : after.tickets = s.tickets) (cleanups : pool'.cleanups = pool.cleanups)
      (enrolled : ∀ roster, enroll roster command reply = roster)
  | registered {ticket action} (tickets : after.tickets = s.tickets ++ [ticket])
      (owner : ticket.pool = pool.id) (index : ticket.index = pool.cleanups.count)
      (records : pool'.cleanups.records = pool.cleanups.records ++ [⟨action, ticket.data⟩])
      (housed : ∀ region ∈ ticket.data, pool'.Houses region)
      (enrolled : ∀ roster, enroll roster command reply = roster ++ [⟨s.tickets.length, action⟩])
  | attached {index ticket action} (tickets : after.tickets = s.tickets)
      (held : s.ticket? index = some ticket) (owner : ticket.pool = pool.id)
      (cleanups : pool'.cleanups = pool.cleanups.setAction ticket.index action)
      (enrolled : ∀ roster, enroll roster command reply = attach roster index action)
  | fired {descriptor file} (tickets : after.tickets = s.tickets)
      (found : pool.cleanups.takeFile? descriptor = some (file, pool'.cleanups))
      (enrolled : ∀ roster, enroll roster command reply = detachFile roster descriptor)

/-- Nothing is filed for a plain command. -/
theorem enroll_plain {roster : List Attachment} (plain : command.Plain) :
    enroll roster command reply = roster := by
  cases command <;> first | rfl | exact plain.elim

/-- Nothing is filed if nothing was done. -/
theorem enroll_unavailable {roster : List Attachment} :
    enroll roster command .unavailable = roster := by
  cases command <;> rfl

theorem enroll_failed {roster : List Attachment} {failure : Failure} :
    enroll roster command (.failed failure) = roster := by
  cases command <;> rfl

/-- **A command is filed**: the pool that it names is still there, and so are its records. -/
def Filed (s : Session) (slot : Nat) (pool : Pool) (command : Command) (result : Reply × Session) :
    Prop :=
  ∃ pool', result.2.pool? slot = some pool' ∧ s.Filing pool command result.1 result.2 pool'

/-- No record changes. -/
theorem Filed.kept {result : Reply × Session} (here : result.2.pool? slot = some pool')
    (tickets : result.2.tickets = s.tickets) (cleanups : pool'.cleanups = pool.cleanups)
    (enrolled : ∀ roster, enroll roster command result.1 = roster) :
    s.Filed slot pool command result :=
  ⟨pool', here, .kept tickets cleanups enrolled⟩

/-- Nothing is done. -/
theorem Filed.unavailable (here : s.pool? slot = some pool) :
    s.Filed slot pool command (.unavailable, s) :=
  .kept here rfl rfl fun _ => enroll_unavailable

/-- A plain command leaves all records. -/
theorem plain_filed (vouched : s.Vouched) (here : s.pool? slot = some pool)
    (named : command.pool? = some slot) (plain : command.Plain)
    (tickets : (s.exec command).2.tickets = s.tickets) :
    s.Filed slot pool command (s.exec command) := by
  -- a plain command spares the pool that it names, and a stack is part of what is spared
  cases exec_spares vouched plain with
  | idle _ pools _ _ =>
    have here' : (s.exec command).2.pool? slot = some pool := by rwa [pool?, pools]
    exact .kept here' tickets rfl fun _ => enroll_plain plain
  | @acted acting other t named' here' spares pools _ _ _ =>
    obtain rfl : slot = acting := Option.some.inj (named.symm.trans named')
    obtain rfl : pool = other := Option.some.inj (here.symm.trans here')
    have hafter : (s.exec command).2.pool? slot = some t.pool := by
      rw [pool?_of_set here pools, if_pos rfl]
    exact .kept hafter tickets spares.cleanups fun _ => enroll_plain plain

/-- **A record is registered**, and maybe an action attached. -/
theorem register_filed {action : PoolM CleanupTicket} {attached : Option CleanupAction}
    (here : s.pool? slot = some pool)
    (hends : Ends action ⟨pool, s.world⟩
      (fun ticket t => ticket.pool = pool.id ∧ ticket.index = pool.cleanups.count ∧
        t.pool.cleanups.records = pool.cleanups.records ++ [⟨attached, ticket.data⟩] ∧
        ∀ region ∈ ticket.data, t.pool.Houses region)
      (fun _ t => t.pool.cleanups = pool.cleanups))
    (enrolled : ∀ roster index,
      enroll roster command (.ticket index) = roster ++ [⟨index, attached⟩]) :
    s.Filed slot pool command
      (s.perform slot action fun ticket u => u.keepTicket ticket) := by
  refine perform_ends (Q := s.Filed slot pool command) here (hends.mono (fun ticket t ht => ?_)
    fun failure t ht => ?_)
  · obtain ⟨owner, index, records, housed⟩ := ht
    exact ⟨t.pool, pool?_settle_self here t,
      .registered rfl owner index records housed fun roster => enrolled roster _⟩
  · exact .kept (pool?_settle_self here t) rfl ht fun _ => enroll_failed

/-- **An action is attached** to a ticket, if it is one of this pool. -/
theorem setCleanup_filed {made : Session} {index : Nat} {ticket : CleanupTicket}
    {action : CleanupAction} {answer : Reply} (here : made.pool? slot = some pool)
    (tickets : made.tickets = s.tickets) (held : s.ticket? index = some ticket)
    (enrolled : ∀ roster, enroll roster command answer = attach roster index (some action)) :
    s.Filed slot pool command
      (made.perform slot (Pool.setCleanup ticket action) fun _ u => (answer, u)) := by
  refine perform_ends (Q := s.Filed slot pool command) here
    (Pool.setCleanup_ends.mono (fun _ t ht => ?_) fun failure t ht => ?_)
  · obtain ⟨⟨record, hrecord⟩, hpool, -⟩ := ht
    exact ⟨t.pool, pool?_settle_self here t, .attached tickets held
      (Pool.owner_of_cleanupRecord hrecord) (congrArg Pool.cleanups hpool) enrolled⟩
  -- without a record nothing is attached, and the reply says so
  · exact .kept (pool?_settle_self here t) tickets (congrArg Pool.cleanups ht.2.1)
      fun _ => enroll_failed

/-- **What a command files** with the pool that it names, if that stays. -/
theorem exec_filed (vouched : s.Vouched) (here : s.pool? slot = some pool)
    (named : command.pool? = some slot) (stays : ∀ other, command ≠ .destroy other) :
    s.Filed slot pool command (s.exec command) := by
  have fit := vouched.fit slot pool here
  have habsent : s.Filed slot pool command (.unavailable, s) := .unavailable here
  cases command with
  | destroy other => exact absurd rfl (stays other)
  | createPool _ _ => cases named
  -- the records outlast a reset, and a free does not concern them
  | reset _ =>
    obtain rfl := Option.some.inj named
    refine perform_ends (Q := s.Filed _ pool _) here
      ((Pool.reset_endures fit).mono (fun _ t ht => ?_) fun _ t ht => ?_)
    · have hkept : t.pool.cleanups = pool.cleanups := by rw [ht.2.1]; rfl
      exact .kept (pool?_settle_self here t) rfl hkept fun _ => rfl
    · have hkept : t.pool.cleanups = pool.cleanups := by rw [ht.2.1]
      exact .kept (pool?_settle_self here t) rfl hkept fun _ => rfl
  | free _ index =>
    obtain rfl := Option.some.inj named
    refine withFound_ends (Q := s.Filed _ pool _) habsent fun region _ => ?_
    refine perform_ends (Q := s.Filed _ pool _) here
      ((Pool.free_ends fit).mono (fun _ t ht => ?_) fun _ t ht => ?_)
    · exact .kept (pool?_settle_self here t) rfl ht.2 fun _ => rfl
    · exact .kept (pool?_settle_self here t) rfl ht.2 fun _ => rfl
  -- a record goes on top of the stack; its data is allocated before, which spares the records
  | addCleanup _ dataSize =>
    obtain rfl := Option.some.inj named
    refine register_filed here ((Pool.addCleanup_ends fit).mono (fun ticket t ht => ?_)
      fun _ t ht => ht.1.cleanups) fun _ _ => rfl
    obtain ⟨u, -, -, hspares, -, hpool, owner, index, housed⟩ := ht
    refine ⟨owner, index, ?_, fun region hdata => ?_⟩
    · rw [hpool, ← hspares.cleanups]
      rfl
    · rw [hpool]
      exact (housed region hdata).of_siteOf? rfl rfl fun _ hsite => hsite
  | onDestroy _ tag =>
    obtain rfl := Option.some.inj named
    refine register_filed here ((Pool.onDestroy_ends fit).mono (fun ticket t ht => ?_)
      fun _ t ht => ht.cleanups) fun _ _ => rfl
    obtain ⟨u, hspares, -, hpool, owner, index, housed⟩ := ht
    refine ⟨owner, index, ?_, fun region hdata => ?_⟩
    · rw [hpool, index, ← hspares.cleanups]
      exact CleanupStack.records_setAction_push
    · rw [hpool]
      exact (housed region hdata).of_siteOf? rfl rfl fun _ hsite => hsite
  -- a record that is there already gets an action, or loses it
  | setCustom _ index tag =>
    obtain rfl := Option.some.inj named
    exact withFound_ends (Q := s.Filed _ pool _) habsent fun _ held =>
      setCleanup_filed here rfl held fun _ => rfl
  | setWithData _ index tag content =>
    obtain rfl := Option.some.inj named
    exact withFound_ends (Q := s.Filed _ pool _) habsent fun _ held =>
      setCleanup_filed here rfl held fun _ => rfl
  | setFile _ index name kind delete =>
    obtain rfl := Option.some.inj named
    refine withFound_ends (Q := s.Filed _ pool _) habsent fun ticket held => ?_
    split
    · refine withFound_ends (Q := s.Filed _ pool _) habsent fun _ _ => ?_
      exact setCleanup_filed here rfl held fun _ => rfl
    · exact habsent
  | disableCleanup _ index =>
    obtain rfl := Option.some.inj named
    refine withFound_ends (Q := s.Filed _ pool _) habsent fun ticket held => ?_
    refine perform_ends (Q := s.Filed _ pool _) here ?_
    simp only [ends_bind, ends_modifyWorld, ends_pure]
    refine Pool.disableCleanup_ends.mono (fun action t ht => ?_) fun _ t ht => ?_
    · obtain ⟨⟨record, hrecord, -⟩, rfl⟩ := ht
      exact ⟨_, pool?_settle_self here _, .attached rfl held
        (Pool.owner_of_cleanupRecord hrecord) rfl fun _ => rfl⟩
    · obtain ⟨-, rfl⟩ := ht
      exact .kept (pool?_settle_self here _) rfl rfl fun _ => rfl
  | runFileCleanup _ descriptor =>
    obtain rfl := Option.some.inj named
    refine perform_ends (Q := s.Filed _ pool _) here
      (Pool.runFileCleanup_ends.mono (fun done t ht => ?_) fun _ _ h => h.elim)
    rcases ht with ⟨-, rfl, rfl⟩ | ⟨file, cleanups, htake, rfl, rfl⟩
    · exact .kept (pool?_settle_self here _) rfl rfl fun _ => rfl
    · exact ⟨_, pool?_settle_self here _, .fired rfl htake fun _ => rfl⟩
  | _ => exact plain_filed vouched here named trivial (exec_tickets id)

/-! ### Tickets and records -/

section Places

variable {tickets : List Nat} {ticket : CleanupTicket} {roster : List Attachment} {index : Nat}

/-- **The places of tickets**: those of the pool in a slot, each where its record is. -/
def Places (s : Session) (slot : Nat) (tickets : List Nat) : Prop :=
  ∀ place index : Nat, tickets[place]? = some index ↔
    ∃ ticket, s.ticket? index = some ticket ∧ ticket.pool = ⟨slot + 1⟩ ∧ ticket.index = place

/-- What is found in the table with one more ticket. -/
theorem ticket?_of_append (h : after.tickets = s.tickets ++ [ticket]) (index : Nat) :
    after.ticket? index = if index = s.tickets.length then some ticket else s.ticket? index := by
  rw [ticket?, h]
  split
  · next heq => rw [heq, List.getElem?_concat_length]
  · next hne =>
    rcases Nat.lt_or_gt_of_ne hne with hlt | hgt
    · exact List.getElem?_append_left hlt
    · have hnone : s.ticket? index = none := List.getElem?_eq_none (Nat.le_of_lt hgt)
      rw [hnone]
      exact List.getElem?_eq_none (by rw [List.length_append, List.length_singleton]; omega)

/-- A ticket that is held is in the table. -/
private theorem lt_of_ticket? (held : s.ticket? index = some ticket) : index < s.tickets.length :=
  (List.getElem?_eq_some_iff.mp held).1

/-- A table with one more ticket holds those that were there. -/
theorem ticket?_mono {other : CleanupTicket} (h : after.tickets = s.tickets ++ [ticket])
    (held : s.ticket? index = some other) : after.ticket? index = some other := by
  rw [ticket?_of_append h, if_neg (Nat.ne_of_lt (lt_of_ticket? held)), held]

namespace Places

/-- Another pool issues a ticket. -/
theorem foreign (places : s.Places slot tickets) (h : after.tickets = s.tickets ++ [ticket])
    (owner : ticket.pool ≠ ⟨slot + 1⟩) : after.Places slot tickets := by
  intro place index
  rw [places place index]
  constructor
  · rintro ⟨other, held, howner, hindex⟩
    exact ⟨other, ticket?_mono h held, howner, hindex⟩
  -- a ticket that was just issued is the other pool's, so it is none of these
  · rintro ⟨other, held, howner, hindex⟩
    rw [ticket?_of_append h] at held
    split at held
    · obtain rfl := Option.some.inj held
      exact absurd howner owner
    · exact ⟨other, held, howner, hindex⟩

/-- **The pool issues a ticket** for its next record. -/
theorem issued (places : s.Places slot tickets) (h : after.tickets = s.tickets ++ [ticket])
    (owner : ticket.pool = ⟨slot + 1⟩) (hindex : ticket.index = tickets.length) :
    after.Places slot (tickets ++ [s.tickets.length]) := by
  intro place index
  constructor
  · intro hplace
    rcases Nat.lt_or_ge place tickets.length with hlt | hge
    · rw [List.getElem?_append_left hlt] at hplace
      obtain ⟨other, held, howner, hother⟩ := (places place index).mp hplace
      exact ⟨other, ticket?_mono h held, howner, hother⟩
    · have hsome := (List.getElem?_eq_some_iff.mp hplace).1
      rw [List.length_append, List.length_singleton] at hsome
      obtain rfl : place = tickets.length := by omega
      rw [List.getElem?_concat_length] at hplace
      obtain rfl := Option.some.inj hplace
      exact ⟨ticket, by rw [ticket?_of_append h, if_pos rfl], owner, hindex⟩
  · rintro ⟨other, held, howner, rfl⟩
    rw [ticket?_of_append h] at held
    split at held
    · next heq =>
      obtain rfl := Option.some.inj held
      rw [hindex, heq, List.getElem?_concat_length]
    · -- a ticket from before keeps its place, which the new one comes after
      have hplace := (places other.index index).mpr ⟨other, held, howner, rfl⟩
      rwa [List.getElem?_append_left (List.getElem?_eq_some_iff.mp hplace).1]

/-- A ticket that a roster names is held. -/
theorem exists_ticket {a : Attachment} (places : s.Places slot (roster.map Attachment.ticket))
    {place : Nat} (h : roster[place]? = some a) : ∃ ticket, s.ticket? a.ticket = some ticket ∧
      ticket.pool = ⟨slot + 1⟩ ∧ ticket.index = place :=
  (places place a.ticket).mp (by rw [List.getElem?_map, h, Option.map_some])

/-- The records are the same for a caller who got more tickets. -/
theorem map_record (places : s.Places slot (roster.map Attachment.ticket))
    (h : ∀ index ticket, s.ticket? index = some ticket → after.ticket? index = some ticket) :
    roster.map (Attachment.record after) = roster.map (Attachment.record s) := by
  -- a record is told from its ticket alone, and that ticket was there before
  refine List.map_congr_left fun a hmem => ?_
  obtain ⟨place, hplace⟩ := List.mem_iff_getElem?.mp hmem
  obtain ⟨ticket, held, -⟩ := places.exists_ticket hplace
  rw [Attachment.record, Attachment.record, held, h _ _ held]

/-- **To attach an action** is to change one record. -/
theorem map_record_attach {action : Option CleanupAction}
    (places : s.Places slot (roster.map Attachment.ticket)) (held : s.ticket? index = some ticket)
    (owner : ticket.pool = ⟨slot + 1⟩) :
    (attach roster index action).map (Attachment.record s) =
      (roster.map (Attachment.record s)).modify ticket.index
        fun record => { record with action } := by
  refine List.ext_getElem? fun place => ?_
  rw [attach, List.getElem?_modify, List.getElem?_map, List.getElem?_map, List.getElem?_map]
  cases hplace : roster[place]? with
  | none => split <;> rfl
  | some a =>
    obtain ⟨other, hother, -, hindex⟩ := places.exists_ticket hplace
    -- the ticket is at this place if the roster names it there
    have hsame : a.ticket = index ↔ ticket.index = place := by
      constructor
      · rintro rfl
        obtain rfl := Option.some.inj (held.symm.trans hother)
        exact hindex
      · rintro rfl
        have hnamed := (places ticket.index index).mpr ⟨ticket, held, owner, rfl⟩
        rw [List.getElem?_map, hplace] at hnamed
        exact Option.some.inj hnamed
    by_cases heq : a.ticket = index
    · simp only [Option.map_some, if_pos heq, if_pos (hsame.mp heq)]
      rfl
    · simp only [Option.map_some, if_neg heq, if_neg (mt hsame.mpr heq)]
      rfl

end Places

/-! ### The cleanup of a file -/

variable {descriptor : Int} {stack stack' : CleanupStack}

/-- The records of a roster release the files that it says. -/
theorem find?_releases (h : stack.records = roster.map (Attachment.record s)) :
    (stack.fileIndex? descriptor).bind (roster[·]?) =
      roster.reverse.find? (Attachment.releases descriptor) := by
  have hlength : stack.records.length = roster.length := by rw [h, List.length_map]
  rw [CleanupStack.fileIndex?, hlength]
  refine bind_find?_range roster fun index a hindex => ?_
  have hfile : stack.file? index = a.action.bind CleanupAction.file? := by
    rw [CleanupStack.file?, h, List.getElem?_map, hindex]
    rfl
  rw [CleanupStack.releases, hfile]
  rfl

/-- **A file that is taken out of the records** is attached no longer. -/
theorem takeFile?_eq_some (places : s.Places slot (roster.map Attachment.ticket))
    (h : stack.records = roster.map (Attachment.record s)) {file : FileRelease}
    (found : stack.takeFile? descriptor = some (file, stack')) :
    stack'.records = (detachFile roster descriptor).map (Attachment.record s) ∧
      ∃ a, roster.reverse.find? (Attachment.releases descriptor) = some a ∧
        a.action = some (.file file) := by
  obtain ⟨index, hindex, hfile, rfl⟩ := Pool.exists_of_takeFile? found
  obtain ⟨record, hrecord, haction⟩ := Option.bind_eq_some_iff.mp hfile
  rw [h, List.getElem?_map] at hrecord
  obtain ⟨a, hplace, rfl⟩ := Option.map_eq_some_iff.mp hrecord
  -- the roster is searched as the records are, from the newest on
  have hfind : roster.reverse.find? (Attachment.releases descriptor) = some a := by
    rw [← find?_releases h, hindex]
    exact hplace
  refine ⟨?_, a, hfind, ?_⟩
  · obtain ⟨ticket, held, owner, rfl⟩ := places.exists_ticket hplace
    rw [detachFile, hfind, places.map_record_attach held owner, ← h]
    rfl
  -- what is found is to release a file, so that is its action
  · obtain ⟨action, hsome, heq⟩ := Option.bind_eq_some_iff.mp haction
    refine hsome.trans (congrArg some ?_)
    cases action with
    | file release => exact congrArg CleanupAction.file (Option.some.inj heq)
    | _ => cases heq

/-- If there is none to take out, none is attached. -/
theorem takeFile?_eq_none (h : stack.records = roster.map (Attachment.record s))
    (found : stack.takeFile? descriptor = none) :
    roster.reverse.find? (Attachment.releases descriptor) = none := by
  unfold CleanupStack.takeFile? at found
  rw [← find?_releases h]
  split at found
  · next hnone => rw [hnone, Option.bind_none]
  · next index hindex =>
    -- what was found does release a file
    have hreleases := List.find?_some hindex
    rw [CleanupStack.releases] at hreleases
    split at hreleases
    · next file hfile =>
      rw [hfile] at found
      cases found
    · cases hreleases

end Places

/-! ### What is attached -/

/-- **A roster is that of the pool in a slot**: it names the tickets of the pool in the order of
their records, and the records of the pool are the ones it says. -/
structure Attached (s : Session) (slot : Nat) (roster : List Attachment) : Prop where
  places : s.Places slot (roster.map Attachment.ticket)
  records : ∀ pool, s.pool? slot = some pool →
    pool.cleanups.records = roster.map (Attachment.record s)
  tracked : ∀ index ticket, s.ticket? index = some ticket → ticket.pool = ⟨slot + 1⟩ →
    ∀ region ∈ ticket.data, ∃ home count, s.Tracks slot region home count

namespace Attached

variable {roster : List Attachment} {taken : List Holding}

/-- There is nothing for a pool that was not made yet. -/
theorem eq_nil (attached : s.Attached slot roster) (vouched : s.Vouched)
    (h : s.pools.length ≤ slot) : roster = [] := by
  cases roster with
  | nil => rfl
  | cons a roster =>
    obtain ⟨ticket, held, owner, -⟩ := attached.places.exists_ticket (List.getElem?_cons_zero)
    obtain ⟨other, hlt, hother, -⟩ := vouched.tickets ticket (List.mem_of_getElem? held)
    rw [owner] at hother
    obtain rfl : slot = other := Nat.succ.inj (PoolId.mk.inj hother)
    exact absurd hlt (Nat.not_lt.mpr h)

/-- **Nothing is filed** with the pool, or it is gone or was made just now. -/
theorem others (attached : s.Attached slot roster) (vouched : s.Vouched)
    (htracks : ∀ region, (∃ home count, s.Tracks slot region home count) →
      ∃ home count, after.Tracks slot region home count)
    (hpool : ∀ pool, after.pool? slot = some pool →
      s.pool? slot = some pool ∨ (s.pools.length ≤ slot ∧ pool.cleanups = {}))
    (htickets : after.tickets = s.tickets ∨
      ∃ ticket, after.tickets = s.tickets ++ [ticket] ∧ ticket.pool ≠ ⟨slot + 1⟩) :
    after.Attached slot roster := by
  have hmono : ∀ index ticket, s.ticket? index = some ticket →
      after.ticket? index = some ticket := by
    intro index ticket held
    rcases htickets with hsame | ⟨new, happend, -⟩
    · rwa [ticket?, hsame]
    · exact ticket?_mono happend held
  refine ⟨?_, fun pool here => ?_, fun index ticket held owner region hdata => htracks region ?_⟩
  · rcases htickets with hsame | ⟨new, happend, howner⟩
    · intro place index
      rw [attached.places place index, ticket?, ticket?, hsame]
    · exact attached.places.foreign happend howner
  · rw [attached.places.map_record hmono]
    rcases hpool pool here with hold | ⟨hfresh, hnone⟩
    · exact attached.records pool hold
    · -- the slot is a new one, so no ticket names it yet
      rw [attached.eq_nil vouched hfresh, hnone]
      rfl
  · rcases htickets with hsame | ⟨new, happend, howner⟩
    · rw [ticket?, hsame] at held
      exact attached.tracked index ticket held owner region hdata
    · rw [ticket?_of_append happend] at held
      split at held
      · obtain rfl := Option.some.inj held
        exact absurd owner howner
      · exact attached.tracked index ticket held owner region hdata

/-- **What is filed with the pool** is what the roster says. -/
theorem filed (attached : s.Attached slot roster) (vouched : s.Vouched) (vouched' : after.Vouched)
    (here : s.pool? slot = some pool) (here' : after.pool? slot = some pool')
    (htracks : ∀ region, (∃ home count, s.Tracks slot region home count) →
      ∃ home count, after.Tracks slot region home count)
    (filing : s.Filing pool command reply after pool') :
    after.Attached slot (enroll roster command reply) := by
  have hid := vouched.numbered slot pool here
  have hrecords := attached.records pool here
  -- but for one that is registered, the tickets are those that were there
  have hsame : ∀ roster' : List Attachment, after.tickets = s.tickets →
      roster'.map Attachment.ticket = roster.map Attachment.ticket →
      pool'.cleanups.records = roster'.map (Attachment.record s) → after.Attached slot roster' := by
    intro roster' htickets hroster hafter
    have hticket : ∀ index, after.ticket? index = s.ticket? index := fun index => by
      rw [ticket?, ticket?, htickets]
    have hplaces : s.Places slot (roster'.map Attachment.ticket) := hroster ▸ attached.places
    refine ⟨fun place index => ?_, fun other hother => ?_,
      fun index ticket held owner region hdata =>
        htracks region (attached.tracked index ticket (hticket index ▸ held) owner region hdata)⟩
    · rw [hplaces place index, hticket]
    · obtain rfl := Option.some.inj (here'.symm.trans hother)
      rw [hafter]
      exact (hplaces.map_record fun index ticket held => (hticket index).trans held).symm
  cases filing with
  | kept tickets cleanups enrolled =>
    rw [enrolled]
    exact hsame roster tickets rfl (cleanups ▸ hrecords)
  | @registered ticket action tickets owner index records housed enrolled =>
    -- the new record comes after all others, and so does its ticket
    have hlength : pool.cleanups.count = (roster.map Attachment.ticket).length := by
      rw [CleanupStack.count, hrecords, List.length_map, List.length_map]
    have hnew : after.ticket? s.tickets.length = some ticket := by
      rw [ticket?_of_append tickets, if_pos rfl]
    rw [enrolled]
    refine ⟨?_, fun other hother => ?_, fun place other held howner region hdata => ?_⟩
    · rw [List.map_append]
      exact attached.places.issued tickets (owner.trans hid) (index.trans hlength)
    · obtain rfl := Option.some.inj (here'.symm.trans hother)
      rw [records, List.map_append, hrecords,
        attached.places.map_record fun _ _ held => ticket?_mono tickets held, List.map_singleton,
        Attachment.record, hnew]
      rfl
    · rw [ticket?_of_append tickets] at held
      split at held
      · obtain rfl := Option.some.inj held
        obtain ⟨home, hsite, -⟩ := (housed region hdata).site
        exact ⟨home, 0, .of_houses vouched' here' (housed region hdata) hsite⟩
      · exact htracks region (attached.tracked place other held howner region hdata)
  | @attached index ticket action tickets held owner cleanups enrolled =>
    rw [enrolled]
    refine hsame _ tickets (map_ticket_attach _ _ _) ?_
    rw [attached.places.map_record_attach held (owner.trans hid), cleanups, ← hrecords]
    rfl
  | fired tickets found enrolled =>
    rw [enrolled]
    refine hsame _ tickets (map_ticket_detachFile _ _) ?_
    exact (takeFile?_eq_some attached.places hrecords found).1

end Attached

/-! ### Along a history -/

/-- **A command on a pool that is not there** does nothing. -/
theorem exec_absent (absent : s.pool? slot = none) (named : command.pool? = some slot) :
    s.exec command = (.unavailable, s) := by
  -- whatever a command looks for first, without the pool it comes to nothing
  have hperform : ∀ {α : Type} {action : PoolM α} {next : α → Session → Reply × Session},
      s.perform slot action next = (.unavailable, s) := by
    intros
    rw [perform, absent, withFound]
  have hfound : ∀ {α : Type} {found : Option α} {next : α → Reply × Session},
      (∀ a, next a = (.unavailable, s)) → s.withFound found next = (.unavailable, s) :=
    fun hnext => withFound_ends (Q := fun result => result = (.unavailable, s)) rfl
      fun a _ => hnext a
  cases command with
  | destroy _ =>
    obtain rfl := Option.some.inj named
    rcases s.destroy_ends _ with ⟨-, hrun⟩ | ⟨pool, -, -, here, -⟩
    · exact hrun
    · rw [absent] at here
      cases here
  | copy _ _ _ _ =>
    obtain rfl := Option.some.inj named
    exact hfound fun _ => hfound fun _ => hperform
  | setFile _ _ _ _ _ =>
    obtain rfl := Option.some.inj named
    refine hfound fun _ => ?_
    split
    · rw [absent, withFound]
    · rfl
  | destroyArray _ _ =>
    obtain rfl := Option.some.inj named
    rw [exec, destroyArray, absent, withFound]
  | _ =>
    cases named <;> rw [exec] <;> first | exact hperform | exact hfound fun _ => hperform

/-- **Whoever issues a ticket** has the record for it. -/
theorem exec_issues (vouched : s.Vouched) : (s.exec command).2.tickets = s.tickets ∨
    ∃ acting pool ticket, command.pool? = some acting ∧ s.pool? acting = some pool ∧
      (s.exec command).2.tickets = s.tickets ++ [ticket] ∧ ticket.pool = pool.id := by
  -- only two commands register a record, and both name a pool
  by_cases hregisters : command.Registers
  · obtain ⟨acting, named, stays⟩ : ∃ acting, command.pool? = some acting ∧
        ∀ other, command ≠ .destroy other := by
      cases command with
      | addCleanup acting _ | onDestroy acting _ =>
        exact ⟨acting, rfl, fun _ heq => Command.noConfusion heq⟩
      | _ => exact hregisters.elim
    cases here : s.pool? acting with
    | none => exact .inl (by rw [exec_absent here named])
    | some pool =>
      obtain ⟨pool', -, filing⟩ := exec_filed vouched here named stays
      cases filing with
      | kept tickets _ _ | attached tickets _ _ _ _ | fired tickets _ _ => exact .inl tickets
      | registered tickets owner _ _ _ _ =>
        exact .inr ⟨acting, pool, _, named, here, tickets, owner⟩
  · exact .inl (exec_tickets hregisters)

/-- **A slot that is not named** stays as it is, or has a pool that was made just now. -/
theorem exec_elsewhere (vouched : s.Vouched) (other : command.pool? ≠ some slot) :
    (s.exec command).2.pool? slot = s.pool? slot ∨ (slot = s.pools.length ∧
      ∃ made, (s.exec command).2.pool? slot = some made ∧ made.cleanups = {}) := by
  have hstep : s.Step command (s.exec command).1 (s.exec command).2 := exec_step vouched
  -- a slot that is set is the one that the command names
  have hset : ∀ {acting before entry}, command.pool? = some acting → s.pool? acting = some before →
      (s.exec command).2.pools = s.pools.set acting entry →
        (s.exec command).2.pool? slot = s.pool? slot := by
    intro acting before entry named hbefore pools
    have hne : slot ≠ acting := fun heq => other (named.trans (congrArg some heq.symm))
    rw [pool?_of_set hbefore pools, if_neg hne]
  cases hstep with
  | turned turn _ =>
    cases turn with
    | idle _ pools _ _ => exact .inl (by rw [pool?, pool?, pools])
    | acted named hbefore _ pools _ _ _ => exact .inl (hset named hbefore pools)
  | began begins pools _ _ _ =>
    rw [pool?_of_append pools]
    split
    · next heq => exact .inr ⟨heq, _, rfl, begins.cleanups⟩
    · exact .inl rfl
  | reset named hbefore _ settled _ _ =>
    exact .inl (hset (congrArg Command.pool? named) hbefore (congrArg Session.pools settled))
  | destroyed named hbefore _ pools _ _ =>
    exact .inl (hset (congrArg Command.pool? named) hbefore pools)

/-- **A pool that is not named** stays as it is, or was made just now. -/
theorem exec_others (vouched : s.Vouched) (other : command.pool? ≠ some slot)
    (here : (s.exec command).2.pool? slot = some pool) :
    s.pool? slot = some pool ∨ (s.pools.length ≤ slot ∧ pool.cleanups = {}) := by
  rcases exec_elsewhere vouched other with hsame | ⟨hslot, made, hmade, hcleanups⟩
  · exact .inl (hsame ▸ here)
  · obtain rfl := Option.some.inj (here.symm.trans hmade)
    exact .inr ⟨Nat.le_of_eq hslot.symm, hcleanups⟩

/-- It is still there. -/
theorem exec_keeps_pool (vouched : s.Vouched) (other : command.pool? ≠ some slot)
    (here : s.pool? slot = some pool) : (s.exec command).2.pool? slot = some pool := by
  rcases exec_elsewhere vouched other with hsame | ⟨hslot, -⟩
  · exact hsame.trans here
  · exact absurd hslot (Nat.ne_of_lt (lt_of_pool? here))

/-- A pool that is destroyed leaves its slot empty. -/
theorem exec_destroy (s : Session) (slot : Nat) : (s.exec (.destroy slot)).2.pool? slot = none := by
  rcases s.destroy_ends slot with ⟨absent, hrun⟩ | ⟨pool, reply, t, here, hrun, -⟩
  · rw [hrun]
    exact absent
  · rw [hrun]
    have hpools : { s.setPool slot none with world := t.world }.pools = s.pools.set slot none := rfl
    rw [pool?_of_set here hpools, if_pos rfl]

namespace Attached

variable {roster : List Attachment} {taken : List Holding} {history : List Command}

/-- **Every command** leaves a roster that is told from it. -/
theorem exec (attached : s.Attached slot roster) (vouched : s.Vouched)
    (accounted : s.Accounted taken) (admitted : s.Admits command) :
    (s.exec command).2.Attached slot
      (if command.pool? = some slot then enroll roster command (s.exec command).1 else roster) := by
  have hstep : s.Step command (s.exec command).1 (s.exec command).2 := exec_step vouched
  have htracks : ∀ region, (∃ home count, s.Tracks slot region home count) →
      ∃ home count, (s.exec command).2.Tracks slot region home count := by
    rintro region ⟨home, count, tracks⟩
    refine ⟨home, _, tracks.step hstep fun hreset => ?_⟩
    refine (accounted.exec admitted).2 fun _ _ hfree => ?_
    rw [hreset] at hfree
    cases hfree
  by_cases named : command.pool? = some slot
  · rw [if_pos named]
    cases here : s.pool? slot with
    | none =>
      rw [exec_absent here named, enroll_unavailable]
      exact attached
    | some pool =>
      -- a pool that is destroyed leaves its tickets behind, but no records
      by_cases stays : ∀ other, command ≠ .destroy other
      · obtain ⟨pool', here', filing⟩ := exec_filed vouched here named stays
        exact attached.filed vouched (vouched.step hstep) here here' htracks filing
      · obtain ⟨other, hdestroy⟩ := not_forall_not.mp stays
        subst hdestroy
        obtain rfl : other = slot := Option.some.inj named
        refine attached.others vouched htracks (fun pool hgone => ?_) (.inl (exec_tickets id))
        rw [exec_destroy] at hgone
        cases hgone
  · rw [if_neg named]
    refine attached.others vouched htracks (fun pool here => exec_others vouched named here) ?_
    refine exec_issues vouched |>.imp_right ?_
    rintro ⟨acting, pool, ticket, hnamed, here, tickets, owner⟩
    -- two pools have different ids, so the one that issues a ticket of this slot is named
    refine ⟨ticket, tickets, fun hslot => named ?_⟩
    rw [hnamed, vouched.slot_eq here (owner.symm.trans hslot)]

/-- **Every history** leaves a roster that is told from it. -/
theorem run (attached : s.Attached slot roster) (vouched : s.Vouched)
    (accounted : s.Accounted taken) (admitted : s.AdmitsAll history) :
    (s.run history).2.Attached slot (s.roster slot roster history) := by
  induction history generalizing s roster taken with
  | nil => exact attached
  | cons command history ih =>
    obtain ⟨hcommand, hhistory⟩ := admitted
    exact ih (attached.exec vouched accounted hcommand) (vouched.step (exec_step vouched))
      (accounted.exec hcommand).1 hhistory

/-- A caller who holds nothing yet. -/
theorem ofHeap (heap : Heap) (slot : Nat) : (Session.ofHeap heap).Attached slot [] := by
  have hticket : ∀ index, (Session.ofHeap heap).ticket? index = none := fun _ => rfl
  -- there are neither tickets nor pools, so nothing has to be attached
  refine ⟨fun place index => ⟨fun hplace => ?_, fun ⟨ticket, held, _⟩ => ?_⟩, fun pool here => ?_,
    fun index ticket held => ?_⟩
  · rw [List.map_nil, List.getElem?_nil] at hplace
    cases hplace
  · rw [hticket] at held
    cases held
  · rw [show (Session.ofHeap heap).pool? slot = none from rfl] at here
    cases here
  · rw [hticket] at held
    cases held

end Attached

end Session

end RegionPool
