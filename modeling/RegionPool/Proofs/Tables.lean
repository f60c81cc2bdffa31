import RegionPool.Proofs.Action
import RegionPool.Session.Exec

/-!
# What a command leaves in the tables of its caller

A caller keeps regions, tickets, arrays and lists in tables. A command puts at most one thing into
them, and there are few ways in which it comes by it: it allocates a region, keeps one that the
caller has already, lengthens one, registers a record, or deals with a container. How containers are
dealt with is a matter of its own. Whatever else is to be known of the tables follows from this.

* `Command.allocation?`, `Command.registration?` — the actions of commands that allocate a region,
  and of those that register a record;
* `Session.Tabled` — the ways in which a command may leave the tables, and `exec_tabled`;
* `exec_tickets`, `exec_containers` — tables that a command does not concern stay as they are.
-/

namespace RegionPool

open PoolM

/-! ### What commands put into tables -/

/-- **The allocation** that a command asks for, with the slot of the pool. -/
def Command.allocation? : Command → Option (Nat × PoolM Region)
  | .alloc slot size => some (slot, Pool.alloc size)
  | .allocUnaligned slot size => some (slot, Pool.allocUnaligned size)
  | .allocZeroed slot size => some (slot, Pool.allocZeroed size)
  | .allocAlignedTo slot size align => some (slot, Pool.allocAlignedTo size align)
  | _ => none

/-- **The registration** of a record that a command asks for, with the slot of the pool. -/
def Command.registration? : Command → Option (Nat × PoolM CleanupTicket)
  | .addCleanup slot dataSize => some (slot, Pool.addCleanup dataSize)
  | .onDestroy slot tag => some (slot, Pool.onDestroy tag)
  | _ => none

/-- **A command that registers** a record. -/
def Command.Registers : Command → Prop
  | .addCleanup _ _ | .onDestroy _ _ => True
  | _ => False

/-- **A command that touches no table of containers.** -/
def Command.Containerless : Command → Prop
  | .createArray .. | .initArray .. | .pushArray .. | .pushManyArray .. | .cloneArray _
  | .destroyArray .. | .createList .. | .initList .. | .pushList .. | .cloneList _ => False
  | _ => True

theorem Command.registers_of_registration? {command : Command} {asked : Nat × PoolM CleanupTicket}
    (h : command.registration? = some asked) : command.Registers := by
  cases command with
  | addCleanup _ _ | onDestroy _ _ => trivial
  | _ => cases h

namespace Session

variable {α : Type} {s u after : Session} {slot : Nat} {pool : Pool} {command : Command}

/-! ### How commands end -/

/-- What holds however the action ends holds of an action performed. -/
theorem perform_ends {action : PoolM α} {next : α → Session → Reply × Session}
    {Q : Reply × Session → Prop} (here : s.pool? slot = some pool)
    (hends : Ends action ⟨pool, s.world⟩ (fun a t => Q (next a (s.settle slot t)))
      (fun failure t => Q (.failed failure, s.settle slot t))) :
    Q (s.perform slot action next) := by
  rw [perform, here, withFound]
  split
  · next a t run => exact hends.ok_of run
  · next failure t run => exact hends.fail_of run

/-- What a command names is there, or nothing is done. -/
theorem withFound_ends {found : Option α} {next : α → Reply × Session}
    {Q : Reply × Session → Prop} (hnone : Q (.unavailable, s))
    (hsome : ∀ a, found = some a → Q (next a)) : Q (s.withFound found next) := by
  cases found with
  | none => exact hnone
  | some a => exact hsome a rfl

/-! ### Leaving the tables alone -/

/-- **A command leaves the tables alone.** Those of the containers may change if it deals with
them. -/
structure LeavesTables (s : Session) (command : Command) (after : Session) : Prop where
  regions : after.regions = s.regions
  tickets : after.tickets = s.tickets
  containers : command.Containerless → after.arrays = s.arrays ∧ after.lists = s.lists

namespace LeavesTables

theorem refl (s : Session) : s.LeavesTables command s := ⟨rfl, rfl, fun _ => ⟨rfl, rfl⟩⟩

theorem trans (h : s.LeavesTables command u) (h' : u.LeavesTables command after) :
    s.LeavesTables command after where
  regions := h'.regions.trans h.regions
  tickets := h'.tickets.trans h.tickets
  containers containerless := by
    obtain ⟨arrays, lists⟩ := h.containers containerless
    obtain ⟨arrays', lists'⟩ := h'.containers containerless
    exact ⟨arrays'.trans arrays, lists'.trans lists⟩

/-- The world does not matter, nor do pools and raw buffers. -/
theorem elsewhere {world : World} {pools : List (Option Pool)} {buffers : List (Option Buffer)} :
    s.LeavesTables command { s with world, pools, buffers } :=
  ⟨rfl, rfl, fun _ => ⟨rfl, rfl⟩⟩

theorem withFound {found : Option α} {next : α → Reply × Session}
    (hnext : ∀ a, found = some a → s.LeavesTables command (next a).2) :
    s.LeavesTables command (s.withFound found next).2 :=
  withFound_ends (Q := fun result => s.LeavesTables command result.2) (refl s) hnext

/-- **An action**, after which nothing is kept. -/
theorem perform {action : PoolM α} {next : α → Session → Reply × Session}
    (hnext : ∀ a (u : Session), u.LeavesTables command (next a u).2) :
    s.LeavesTables command (s.perform slot action next).2 := by
  refine withFound fun pool _ => ?_
  split
  · next a t _ => exact elsewhere.trans (hnext a (s.settle slot t))
  · exact elsewhere

theorem setCleanup {ticket : CleanupTicket} {action : CleanupAction} {reply : Reply} :
    s.LeavesTables command
      (s.perform slot (Pool.setCleanup ticket action) fun _ u => (reply, u)).2 :=
  perform fun _ u => refl u

/-- The file that is made for a record is in no table. -/
theorem setFile {index : Nat} {name : String} {kind : EntryKind} {delete : Bool} :
    s.LeavesTables command (s.setFile slot index name kind delete).2 := by
  refine withFound fun ticket _ => ?_
  split
  · refine withFound fun _ _ => ?_
    have hmade : s.LeavesTables command
        { s with world := { s.world with files := (s.world.files.create name kind).2 } } :=
      elsewhere
    exact hmade.trans setCleanup
  · exact refl s

/-- An array that is destroyed is gone from its table. -/
theorem destroyArray {index : Nat} (deals : ¬ command.Containerless) :
    s.LeavesTables command (s.destroyArray slot index).2 := by
  refine withFound fun _ _ => withFound fun array _ => ?_
  have hdropped : s.LeavesTables command (s.setArray index none) :=
    ⟨rfl, rfl, fun containerless => absurd containerless deals⟩
  exact hdropped.trans (perform fun _ u => refl u)

theorem receiveBuffer {received : Except AllocError Buffer × World} :
    s.LeavesTables command (s.receiveBuffer received).2 := by
  rcases received with ⟨_ | _, _⟩ <;> exact elsewhere

theorem freeBuffer {allocator : AllocatorId} {buffer : Nat} :
    s.LeavesTables command (s.freeBuffer allocator buffer).2 := by
  refine withFound fun _ _ => ?_
  dsimp only
  split <;> exact elsewhere

theorem createPool {config : PoolConfig} {allocator : Option AllocatorId} :
    s.LeavesTables command (s.createPool config allocator).2 := by
  unfold Session.createPool
  dsimp only
  split <;> exact elsewhere

/-- Where containers are dealt with, regions and tickets are left alone. -/
theorem ofContainers (deals : ¬ command.Containerless) (regions : after.regions = s.regions)
    (tickets : after.tickets = s.tickets) : s.LeavesTables command after :=
  ⟨regions, tickets, fun containerless => absurd containerless deals⟩

end LeavesTables

/-! ### Every command -/

/-- **How a command leaves the tables of its caller.** It leaves them alone; or it adds the region
that it was granted, one that the caller has already, or the ticket of a record; or it lengthens a
region. -/
inductive Tabled (s : Session) : Command → Session → Prop
  | aside {command : Command} {after : Session} (leaves : s.LeavesTables command after) :
    Tabled s command after
  | granted {command slot action pool region t}
      (asks : command.allocation? = some (slot, action)) (here : s.pool? slot = some pool)
      (run : action ⟨pool, s.world⟩ = .ok region t) :
    Tabled s command ((s.settle slot t).keepRegion region).2
  | copied {command region}
      (held : region ∈ s.regions ∨ ∃ ticket ∈ s.tickets, ticket.data = some region) :
    Tabled s command (s.keepRegion region).2
  | lengthened {slot index additional pool region longer t}
      (found : s.region? index = some region) (here : s.pool? slot = some pool)
      (run : onPool (·.extend region additional) ⟨pool, s.world⟩ = .ok (some longer) t) :
    Tabled s (.extend slot index additional) ((s.settle slot t).setRegion index longer)
  | registered {command slot action pool ticket t}
      (asks : command.registration? = some (slot, action)) (here : s.pool? slot = some pool)
      (run : action ⟨pool, s.world⟩ = .ok ticket t) :
    Tabled s command ((s.settle slot t).keepTicket ticket).2

private theorem allocate_tabled {action : PoolM Region}
    (asks : command.allocation? = some (slot, action)) :
    s.Tabled command (s.allocate slot action).2 := by
  refine withFound_ends (Q := fun result => s.Tabled command result.2) (.aside (.refl s))
    fun pool here => ?_
  split
  · next region t run => exact .granted asks here run
  · exact .aside .elsewhere

private theorem register_tabled {action : PoolM CleanupTicket}
    (asks : command.registration? = some (slot, action)) :
    s.Tabled command (s.perform slot action fun ticket u => u.keepTicket ticket).2 := by
  refine withFound_ends (Q := fun result => s.Tabled command result.2) (.aside (.refl s))
    fun pool here => ?_
  split
  · next ticket t run => exact .registered asks here run
  · exact .aside .elsewhere

private theorem extend_tabled {index additional : Nat} :
    s.Tabled (.extend slot index additional) (s.extend slot index additional).2 := by
  refine withFound_ends (Q := fun result => s.Tabled _ result.2) (.aside (.refl s))
    fun region found => ?_
  refine withFound_ends (Q := fun result => s.Tabled _ result.2) (.aside (.refl s))
    fun pool here => ?_
  split
  · next extended t run =>
    -- only if there was room is another region written into the table
    cases extended with
    | none => exact .aside .elsewhere
    | some longer => exact .lengthened found here run
  · exact .aside .elsewhere

private theorem holdCleanupRegion_tabled {index : Nat} :
    s.Tabled command (s.holdCleanupRegion index).2 := by
  refine withFound_ends (Q := fun result => s.Tabled command result.2) (.aside (.refl s))
    fun ticket found => ?_
  split
  · next region hdata => exact .copied (.inr ⟨ticket, List.mem_of_getElem? found, hdata⟩)
  · exact .aside (.refl s)

/-- **Every command** leaves the tables in one of these ways. -/
theorem exec_tabled (s : Session) (command : Command) : s.Tabled command (s.exec command).2 := by
  cases command with
  | alloc _ _ | allocUnaligned _ _ | allocZeroed _ _ | allocAlignedTo _ _ _ =>
    exact allocate_tabled rfl
  | addCleanup _ _ | onDestroy _ _ => exact register_tabled rfl
  | extend _ _ _ => exact extend_tabled
  -- keeping a copy is the one command that adds a region without asking a pool
  | keepCopy index =>
    exact withFound_ends (Q := fun result => s.Tabled _ result.2) (.aside (.refl s))
      fun region found => .copied (.inl (List.mem_of_getElem? found))
  | holdCleanupRegion _ => exact holdCleanupRegion_tabled
  | addAllocator _ | unlink _ => exact .aside .elsewhere
  | refill _ _ | writeBuffer _ _ => exact .aside (.withFound fun _ _ => .elsewhere)
  | newBuffer _ _ | requestBuffer _ _ => exact .aside .receiveBuffer
  | freeBuffer _ _ => exact .aside .freeBuffer
  | createPool _ _ => exact .aside .createPool
  | destroy slot =>
    have hperformed : s.LeavesTables (.destroy slot)
        (s.perform slot Pool.destroy fun _ u => (.done, u)).2 := .perform fun _ u => .refl u
    exact .aside (hperformed.trans .elsewhere)
  | serve _ _ | reset _ | runFileCleanup _ _ => exact .aside (.perform fun _ u => .refl u)
  | copy _ _ _ _ =>
    exact .aside (.withFound fun _ _ => .withFound fun _ _ => .perform fun _ u => .refl u)
  | setFile _ _ _ _ _ => exact .aside .setFile
  | createArray _ _ _ | initArray _ _ _ | createList _ _ _ | initList _ _ _ =>
    exact .aside (.perform fun _ _ => .ofContainers id rfl rfl)
  | cloneArray _ | cloneList _ =>
    exact .aside (.withFound fun _ _ => .ofContainers id rfl rfl)
  | destroyArray _ _ => exact .aside (.destroyArray id)
  | pushArray _ _ _ | pushManyArray _ _ _ _ | pushList _ _ _ =>
    exact .aside (.withFound fun _ _ => .perform fun _ _ => .ofContainers id rfl rfl)
  -- what is left are commands that act on one pool and keep nothing of it
  | _ => exact .aside (.withFound fun _ _ => .perform fun _ u => .refl u)

/-- **A command that registers no record** issues no ticket. -/
theorem exec_tickets (unregistered : ¬ command.Registers) :
    (s.exec command).2.tickets = s.tickets := by
  have htabled := s.exec_tabled command
  generalize (s.exec command).2 = after at htabled ⊢
  cases htabled with
  | aside leaves => exact leaves.tickets
  | granted _ _ _ | copied _ | lengthened _ _ _ => rfl
  | registered asks _ _ => exact absurd (Command.registers_of_registration? asks) unregistered

/-- **A command that deals with no container** leaves the tables of containers alone. -/
theorem exec_containers (containerless : command.Containerless) :
    (s.exec command).2.arrays = s.arrays ∧ (s.exec command).2.lists = s.lists := by
  have htabled := s.exec_tabled command
  generalize (s.exec command).2 = after at htabled ⊢
  cases htabled with
  | aside leaves => exact leaves.containers containerless
  | granted _ _ _ | copied _ | lengthened _ _ _ | registered _ _ _ => exact ⟨rfl, rfl⟩

end Session

end RegionPool
