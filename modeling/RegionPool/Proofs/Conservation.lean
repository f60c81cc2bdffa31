import RegionPool.Proofs.Courses

/-!
# Raw memory is conserved

A caller has any number of pools over any number of raw allocators, and deals with the allocators
itself as well. After every command, each ledger lists exactly the buffers of the pools over its
allocator and those that the caller has taken from it and not given back; and nobody but the caller
ever gives an allocator a buffer that it does not list.

* `World.Counted` — a ledger counts what it lists;
* `Session.holdings`, `Session.takenBy` — what the pools hold, and what the caller has taken itself;
* `Session.Accounted` — the invariant, and `Session.Accounted.exec`: every command keeps it;
* `Session.run_conserved` — the accounts after any history.
-/

namespace RegionPool

open PoolM Relation

/-! ### Counts -/

namespace World

/-- **Every ledger adds up**: what was handed out is live or was got back. -/
def Counted (w : World) : Prop :=
  ∀ id ledger, w.ledger? id = some ledger → ledger.allocations = ledger.frees + ledger.live.length

variable {w w' : World} {id : AllocatorId} {buffer : Buffer}

namespace Counted

theorem of_ledgers (counted : w.Counted) (h : ∀ id, w'.ledger? id = w.ledger? id) : w'.Counted :=
  fun id ledger hledger => counted id ledger (h id ▸ hledger)

theorem granted (counted : w.Counted) (h : w.Grants id buffer w') : w'.Counted := by
  intro other ledger hledger
  rw [h.ledger other] at hledger
  split at hledger
  · obtain ⟨before, hbefore, rfl⟩ := Option.map_eq_some_iff.mp hledger
    have hcount := counted id before hbefore
    simp only [Ledger.record, List.length_append, List.length_singleton]
    omega
  · exact counted other ledger hledger

theorem released (counted : w.Counted) (h : w.TakesBack id buffer w') : w'.Counted := by
  intro other ledger hledger
  rcases h.of_ledger? hledger with ⟨rfl, before, hbefore, hstruck⟩ | ⟨-, hsame⟩
  · have hcount := counted other before hbefore
    have hstruck' := Ledger.counts_of_release? hstruck
    omega
  · exact counted other ledger hsame

end Counted

end World

theorem Moves.counted {a b : Stage} (h : Moves a b) (counted : a.world.Counted) :
    b.world.Counted := by
  induction h with
  | refl => exact counted
  | tail _ hmove ih =>
    rcases hmove.holdings with ⟨-, hworld⟩ | ⟨buffer, -, hworld⟩ | ⟨buffer, -, hworld⟩
    · exact ih.of_ledgers hworld.ledger
    · exact ih.granted hworld
    · exact ih.released hworld

theorem Moves.allocators_le {a b : Stage} (h : Moves a b) :
    a.world.allocators.length ≤ b.world.allocators.length := by
  induction h with
  | refl => exact Nat.le_refl _
  | tail _ hmove ih =>
    refine Nat.le_trans ih ?_
    rcases hmove.holdings with ⟨-, hworld⟩ | ⟨buffer, -, hworld⟩ | ⟨buffer, -, hworld⟩
    · exact hworld.allocators
    · exact hworld.allocators
    · exact hworld.allocators

/-- The ledgers may be the same, and numbers may be given to nobody. -/
theorem Books.of_ledgers {w w' : World} {held : List Holding} {rest : AllocatorId → List BufferId}
    (books : Books w held rest) (h : ∀ id, w'.ledger? id = w.ledger? id)
    (hnext : w.nextBuffer ≤ w'.nextBuffer) : Books w' held rest where
  listed id ledger hledger := books.listed id ledger (h id ▸ hledger)
  nodup := books.nodup
  known holding hmem := Nat.lt_of_lt_of_le (books.known holding hmem) hnext

/-! ### What is held -/

/-- The buffers of a pool, with its allocator. -/
def Pool.holdings (pool : Pool) : List Holding := pool.buffers.map pool.holding

/-- The buffers of the pool in a slot, if there is one. -/
def Pool.holdingsIn : Option Pool → List Holding
  | some pool => pool.holdings
  | none => []

theorem Stage.holdings_nil (s : PoolState) : Stage.holdings ⟨s, []⟩ = s.pool.holdings := by
  rw [Stage.holdings, List.append_nil, Pool.holdings]

namespace Session

/-- The buffers of all pools: their blocks and their large buffers. -/
def holdings (s : Session) : List Holding := s.pools.flatMap Pool.holdingsIn

/-- The buffers of the pools in the other slots. -/
def holdingsBut (s : Session) (slot : Nat) : List Holding :=
  (s.pools.eraseIdx slot).flatMap Pool.holdingsIn

/-- **What the caller has taken from raw allocators itself** and not given back to them, after one
more command. -/
def takes (s : Session) (taken : List Holding) (command : Command) : List Holding :=
  match command, s.exec command with
  | .requestBuffer allocator _, (.buffer slot, after) =>
    match after.buffer? slot with
    | some buffer => { allocator, id := buffer.id } :: taken
    | none => taken
  | .freeBuffer allocator slot, (.done, _) =>
    match s.buffer? slot with
    | some buffer => taken.erase { allocator, id := buffer.id }
    | none => taken
  | _, _ => taken

/-- The same after a history. -/
def takenBy (s : Session) (taken : List Holding) : List Command → List Holding
  | [] => taken
  | command :: history => (s.exec command).2.takenBy (s.takes taken command) history

/-- **A command that can be given**: the raw allocator that it names exists, and a new one has
handed nothing out yet. -/
def Admits (s : Session) : Command → Prop
  | .addAllocator allocator => ∀ ledger ∈ allocator.ledger?, ledger = {}
  | .requestBuffer allocator _ | .createPool _ (some allocator) =>
    allocator.index < s.world.allocators.length
  | _ => True

/-- Commands of which each can be given when its turn comes. -/
def AdmitsAll (s : Session) : List Command → Prop
  | [] => True
  | command :: history => s.Admits command ∧ (s.exec command).2.AdmitsAll history

/-- **The accounts of a session.** The books list what the pools hold and what the caller has taken;
every allocator that something is held from exists; and the raw buffers that the caller keeps are in
no pool. -/
structure Accounted (s : Session) (taken : List Holding) : Prop where
  sized : s.Sized
  books : Books s.world (s.holdings ++ taken) fun _ => []
  counted : s.world.Counted
  backed : ∀ pool, some pool ∈ s.pools → pool.allocator.index < s.world.allocators.length
  sourced : ∀ holding ∈ taken, holding.allocator.index < s.world.allocators.length
  known : ∀ id ∈ s.owned, id.number < s.world.nextBuffer
  apart : ∀ holding ∈ s.holdings, holding.id ∉ s.owned

instance (s : Session) : DecidablePred s.Admits := fun command => by
  unfold Admits
  split <;> infer_instance

/-- Whether all commands can be given can be checked by carrying them out. -/
instance decidableAdmitsAll : (s : Session) → (history : List Command) →
    Decidable (s.AdmitsAll history)
  | _, [] => .isTrue trivial
  | s, command :: history =>
    have := decidableAdmitsAll (s.exec command).2 history
    inferInstanceAs (Decidable (s.Admits command ∧ (s.exec command).2.AdmitsAll history))

section Accounted

variable {s after : Session} {slot : Nat} {pool : Pool} {entry : Option Pool} {taken : List Holding}
  {w w' : World} {buffer : Buffer}

/-- What the pools hold, with one of them in front. -/
theorem holdings_perm (h : s.pool? slot = some pool) :
    s.holdings.Perm (pool.holdings ++ s.holdingsBut slot) := by
  obtain ⟨hlt, hget⟩ := List.getElem?_eq_some_iff.mp (pool?_eq_some_iff.mp h)
  have hperm := (List.getElem_cons_eraseIdx_perm hlt).symm.flatMap_right Pool.holdingsIn
  rwa [hget] at hperm

/-- The same after the pool in a slot was replaced, or is gone. -/
theorem holdings_set_perm (h : s.pool? slot = some pool)
    (hpools : after.pools = s.pools.set slot entry) :
    after.holdings.Perm (Pool.holdingsIn entry ++ s.holdingsBut slot) := by
  obtain ⟨hlt, -⟩ := List.getElem?_eq_some_iff.mp (pool?_eq_some_iff.mp h)
  rw [holdings, hpools]
  exact (List.set_perm_cons_eraseIdx hlt entry).flatMap_right Pool.holdingsIn

/-- The same with one more pool. -/
theorem holdings_append (hpools : after.pools = s.pools ++ [some pool]) :
    after.holdings = s.holdings ++ pool.holdings := by
  rw [holdings, hpools, List.flatMap_append, List.flatMap_singleton]
  rfl

namespace Accounted

/-- The books of one pool, beside what the others hold and the caller has taken. -/
theorem stage_books (accounted : s.Accounted taken) (here : s.pool? slot = some pool) :
    Books s.world (Stage.holdings ⟨⟨pool, s.world⟩, []⟩ ++ (s.holdingsBut slot ++ taken))
      fun _ => [] := by
  rw [Stage.holdings_nil, ← List.append_assoc]
  exact accounted.books.perm ((holdings_perm here).append_right taken)

/-- The allocators of the pools exist, also with another pool in one of the slots. -/
private theorem backed_set (accounted : s.Accounted taken)
    (h : ∀ pool ∈ entry, pool.allocator.index < s.world.allocators.length)
    (hmem : some pool ∈ s.pools.set slot entry) :
    pool.allocator.index < s.world.allocators.length := by
  rcases List.mem_or_eq_of_mem_set hmem with hold | rfl
  · exact accounted.backed pool hold
  · exact h pool rfl

/-- **Nothing happens to memory.** The pools may change, but not in what they hold. -/
theorem same (accounted : s.Accounted taken) (sized : after.Sized)
    (ledgers : ∀ id, after.world.ledger? id = s.world.ledger? id)
    (next : s.world.nextBuffer ≤ after.world.nextBuffer)
    (allocators : s.world.allocators.length ≤ after.world.allocators.length)
    (holdings : after.holdings = s.holdings) (owned : ∀ id ∈ after.owned, id ∈ s.owned)
    (backed : ∀ pool, some pool ∈ after.pools →
      pool.allocator.index < s.world.allocators.length) :
    after.Accounted taken where
  sized := sized
  books := holdings ▸ accounted.books.of_ledgers ledgers next
  counted := accounted.counted.of_ledgers ledgers
  backed pool hmem := Nat.lt_of_lt_of_le (backed pool hmem) allocators
  sourced holding hmem := Nat.lt_of_lt_of_le (accounted.sourced holding hmem) allocators
  known id hmem := Nat.lt_of_lt_of_le (accounted.known id (owned id hmem)) next
  apart holding hmem hown := accounted.apart holding (holdings ▸ hmem) (owned _ hown)

/-- **A pool makes some moves.** Its new buffers are in no other hands. -/
theorem moves {t : PoolState} (accounted : s.Accounted taken) (here : s.pool? slot = some pool)
    (moves : Moves ⟨⟨pool, s.world⟩, []⟩ ⟨t, []⟩) (settled : (s.settle slot t).Alike after) :
    after.Accounted taken := by
  have traits := moves.sameTraits
  have hsized := accounted.sized pool (mem_pools_of_pool? here)
  have hperm := holdings_set_perm here settled.pools
  have hbooks := moves.books (accounted.stage_books here)
  rw [Stage.holdings_nil, ← List.append_assoc] at hbooks
  have hworld : after.world = t.world := settled.world
  have hover : ∀ after ∈ some t.pool, after.allocator.index < s.world.allocators.length := by
    intro after heq
    rw [← Option.some.inj heq, traits.allocator]
    exact accounted.backed pool (mem_pools_of_pool? here)
  refine ⟨?_, ?_, ?_, fun other hmem => ?_, fun holding hmem => ?_, fun id hmem => ?_,
    fun holding hmem hown => ?_⟩
  · refine accounted.sized.set (fun after heq => ?_) settled.pools
    exact Option.some.inj heq ▸ hsized.of_sameTraits traits
  · exact hworld ▸ hbooks.perm (hperm.symm.append_right taken)
  · exact hworld ▸ moves.counted accounted.counted
  · rw [settled.pools] at hmem
    exact hworld ▸ Nat.lt_of_lt_of_le (accounted.backed_set hover hmem) moves.allocators_le
  · exact hworld ▸ Nat.lt_of_lt_of_le (accounted.sourced holding hmem) moves.allocators_le
  · rw [settled.owned] at hmem
    exact hworld ▸ Nat.lt_of_lt_of_le (accounted.known id hmem) moves.nextBuffer_le
  · rw [settled.owned] at hown
    rcases List.mem_append.mp (hperm.mem_iff.mp hmem) with hpool | hother
    · -- A buffer that the caller keeps was not in the pool before, and it is not a new one.
      have hbefore : ∀ held ∈ Stage.holdings ⟨⟨pool, s.world⟩, []⟩, held.id ≠ holding.id := by
        intro held hheld heq
        rw [Stage.holdings_nil] at hheld
        exact accounted.apart held ((holdings_perm here).mem_iff.mpr (List.mem_append_left _ hheld))
          (heq ▸ hown)
      obtain ⟨-, hafter⟩ := moves.gone (accounted.known _ hown) hbefore
      rw [Stage.holdings_nil] at hafter
      exact hafter holding hpool rfl
    · exact accounted.apart holding
        ((holdings_perm here).mem_iff.mpr (List.mem_append_right _ hother)) hown

/-- **However a command goes**, the accounts are kept, and no pool gives an allocator a buffer that
it does not list. -/
theorem course {slot? : Option Nat} {reply : Reply} (accounted : s.Accounted taken)
    (h : s.Course slot? reply after) :
    after.Accounted taken ∧ ∀ id, reply ≠ .failed (.fault (.untrackedFree id)) := by
  have hsized := accounted.sized.course h
  cases h with
  | idle quiet pools owned succeeds =>
    refine ⟨accounted.same hsized quiet.ledger ?_ quiet.allocators ?_ (fun _ hmem => owned ▸ hmem)
      (fun pool hmem => accounted.backed pool (pools ▸ hmem)), fun _ => succeeds _⟩
    · exact Nat.le_of_eq quiet.nextBuffer.symm
    · rw [holdings, holdings, pools]
  -- what ended only moved buffers about, and what the books list cannot get stuck
  | ended _ here moves settled contained => exact ⟨accounted.moves here moves settled, contained⟩
  | stuck _ here stuck _ => exact (stuck.false_of_books (accounted.stage_books here)).elim

/-! ### The caller and raw allocators -/

/-- **A new raw allocator** has handed out nothing, and nothing is held from it. -/
theorem addAllocator {allocator : Allocator} (accounted : s.Accounted taken)
    (admitted : s.Admits (.addAllocator allocator)) :
    (s.exec (.addAllocator allocator)).2.Accounted taken := by
  let after := (s.exec (.addAllocator allocator)).2
  have hlength : after.world.allocators.length = s.world.allocators.length + 1 := List.length_append
  have hle : s.world.allocators.length ≤ after.world.allocators.length := hlength ▸ Nat.le_succ _
  -- An old allocator keeps its ledger; the new one has an empty ledger, if any.
  have hledger : ∀ id ledger, after.world.ledger? id = some ledger →
      s.world.ledger? id = some ledger ∨ (id.index = s.world.allocators.length ∧ ledger = {}) := by
    intro id ledger h
    change ((s.world.allocators ++ [allocator]).getD id.index .system).ledger? = some ledger at h
    rw [List.getD_eq_getElem?_getD, List.getElem?_append] at h
    split at h
    · rw [← List.getD_eq_getElem?_getD] at h
      exact .inl h
    · next hge =>
      cases hindex : id.index - s.world.allocators.length with
      | zero =>
        rw [hindex] at h
        exact .inr ⟨by omega, admitted ledger h⟩
      | succ k => rw [hindex] at h; cases h
  -- What is held comes from an allocator that was there before.
  have hexisting : ∀ holding ∈ s.holdings ++ taken,
      holding.allocator.index < s.world.allocators.length := by
    intro holding hmem
    rcases List.mem_append.mp hmem with hpool | htaken
    · obtain ⟨entry, hentry, hholding⟩ := List.mem_flatMap.mp hpool
      cases entry with
      | none => exact (List.not_mem_nil hholding).elim
      | some pool =>
        obtain ⟨buffer, -, rfl⟩ := List.mem_map.mp hholding
        exact accounted.backed pool hentry
    · exact accounted.sourced holding htaken
  refine ⟨accounted.sized, ⟨fun id ledger h => ?_, accounted.books.nodup, accounted.books.known⟩,
    fun id ledger h => ?_, fun pool hmem => Nat.lt_of_lt_of_le (accounted.backed pool hmem) hle,
    fun holding hmem => Nat.lt_of_lt_of_le (accounted.sourced holding hmem) hle, accounted.known,
    accounted.apart⟩
  · rcases hledger id ledger h with hold | ⟨hindex, rfl⟩
    · exact accounted.books.listed id ledger hold
    · have hnone : heldFrom id (s.holdings ++ taken) = [] := by
        rw [heldFrom, List.map_eq_nil_iff, List.filter_eq_nil_iff]
        intro holding hmem heq
        have hlt := hexisting holding hmem
        rw [of_decide_eq_true heq, hindex] at hlt
        exact Nat.lt_irrefl _ hlt
      rw [show after.holdings = s.holdings from rfl, hnone]
      exact .refl _
  · rcases hledger id ledger h with hold | ⟨-, rfl⟩
    · exact accounted.counted id ledger hold
    · rfl

/-- The caller keeps a new raw buffer. -/
private theorem kept {taken' : List Holding} (accounted : s.Accounted taken)
    (number : buffer.id = ⟨s.world.nextBuffer⟩) (next : w.nextBuffer = s.world.nextBuffer + 1)
    (allocators : s.world.allocators.length ≤ w.allocators.length)
    (books : Books w (s.holdings ++ taken') fun _ => []) (counted : w.Counted)
    (sourced : ∀ holding ∈ taken', holding.allocator.index < w.allocators.length) :
    ({ s with world := w }.keepBuffer buffer).2.Accounted taken' := by
  have howned : ({ s with world := w }.keepBuffer buffer).2.owned = s.owned ++ [buffer.id] :=
    List.filterMap_append
  refine ⟨accounted.sized, books, counted,
    fun pool hmem => Nat.lt_of_lt_of_le (accounted.backed pool hmem) allocators, sourced,
    fun id hmem => ?_, fun holding hmem hown => ?_⟩
  · change id.number < w.nextBuffer
    rw [next]
    rcases List.mem_append.mp (howned ▸ hmem) with hold | hnew
    · exact Nat.lt_succ_of_lt (accounted.known id hold)
    · rw [List.mem_singleton.mp hnew, number]
      exact Nat.lt_succ_self _
  · rcases List.mem_append.mp (howned ▸ hown) with hold | hnew
    · exact accounted.apart holding hmem hold
    -- the number was not given before, so no pool holds a buffer of that number
    · have hlt := accounted.books.known holding (List.mem_append_left taken hmem)
      rw [List.mem_singleton.mp hnew, number] at hlt
      exact Nat.lt_irrefl _ hlt

/-- **A raw buffer straight from the heap** is listed nowhere. -/
theorem newBuffer {size align : Nat} (accounted : s.Accounted taken) :
    (s.exec (.newBuffer size align)).2.Accounted taken := by
  rw [exec]
  rcases hrun : s.world.newBuffer size align with ⟨error | buffer, w⟩
  · obtain ⟨hnext, hallocators, -⟩ := World.newBuffer_error hrun
    refine accounted.same accounted.sized (fun id => ?_) (Nat.le_of_eq hnext.symm)
      (Nat.le_of_eq (congrArg List.length hallocators).symm) rfl (fun _ hmem => hmem)
      accounted.backed
    rw [World.ledger?, World.ledger?, World.allocator, World.allocator]
    exact congrArg (fun kinds => (kinds.getD id.index Allocator.system).ledger?) hallocators
  · obtain ⟨hid, hnext, hallocators, -⟩ := World.newBuffer_ok hrun
    -- no allocator was asked, so every ledger is what it was
    have hledgers : ∀ id, w.ledger? id = s.world.ledger? id := fun id => by
      rw [World.ledger?, World.ledger?, World.allocator, World.allocator, hallocators]
    refine accounted.kept hid hnext (Nat.le_of_eq (congrArg List.length hallocators).symm)
      (accounted.books.of_ledgers hledgers (hnext ▸ Nat.le_succ _))
      (accounted.counted.of_ledgers hledgers) fun holding hmem => ?_
    rw [hallocators]
    exact accounted.sourced holding hmem

/-- **A raw buffer from an allocator** is in the hands of the caller. -/
theorem requestBuffer {allocator : AllocatorId} {request : Request} (accounted : s.Accounted taken)
    (admitted : s.Admits (.requestBuffer allocator request)) :
    (s.exec (.requestBuffer allocator request)).2.Accounted
      (s.takes taken (.requestBuffer allocator request)) := by
  unfold takes
  simp only [exec]
  rcases hrun : s.world.request allocator request with ⟨error | buffer, w⟩
  · have hquiet := World.request_error hrun
    have hsame : { s with world := w }.Accounted taken :=
      accounted.same accounted.sized hquiet.ledger (Nat.le_of_eq hquiet.nextBuffer.symm)
        hquiet.allocators rfl (fun _ hmem => hmem) accounted.backed
    exact hsame
  · have hgranted := World.request_ok hrun
    have hbuffer : ({ s with world := w }.keepBuffer buffer).2.buffer? s.buffers.length =
        some buffer := by
      rw [keepBuffer, buffer?]
      dsimp only
      rw [List.getElem?_append_right (Nat.le_refl _), Nat.sub_self]
      rfl
    have hkept : ({ s with world := w }.keepBuffer buffer).2.Accounted
        (⟨allocator, buffer.id⟩ :: taken) := by
      refine accounted.kept hgranted.number hgranted.nextBuffer hgranted.allocators ?_
        (accounted.counted.granted hgranted) fun holding hmem => ?_
      -- the new holding goes to what is taken, behind what the pools hold
      · exact (accounted.books.granted hgranted).perm List.perm_middle.symm
      · rcases List.mem_cons.mp hmem with rfl | hold
        · exact Nat.lt_of_lt_of_le admitted hgranted.allocators
        · exact Nat.lt_of_lt_of_le (accounted.sourced holding hold) hgranted.allocators
    simp only [receiveBuffer, keepBuffer] at hbuffer hkept ⊢
    rwa [hbuffer]

/-- An allocator that takes back a buffer which is in no pool strikes it out as taken by the caller,
or keeps no ledger at all. -/
private theorem returned {allocator : AllocatorId} (accounted : s.Accounted taken)
    (hback : s.world.TakesBack allocator buffer w)
    (hpools : ∀ holding ∈ s.holdings, holding.id ≠ buffer.id) :
    Books w (s.holdings ++ taken.erase ⟨allocator, buffer.id⟩) (fun _ => []) ∧ w.Counted := by
  refine ⟨?_, accounted.counted.released hback⟩
  -- With a ledger that does not list the buffer as taken, the allocator would not take it back.
  by_cases hmem : ⟨allocator, buffer.id⟩ ∈ taken
  · have hperm := ((List.perm_cons_erase hmem).append_left s.holdings).trans List.perm_middle
    exact (accounted.books.perm hperm).released hback
  · rw [List.erase_of_not_mem hmem]
    have hunkept : s.world.ledger? allocator = none := by
      cases hledger : s.world.ledger? allocator with
      | none => rfl
      | some ledger =>
        obtain ⟨after, hstruck, -⟩ := hback.struck ledger hledger
        have hheld := (accounted.books.listed allocator ledger hledger).mem_iff.mp
          (Ledger.mem_ids_of_release? hstruck)
        rw [List.append_nil, mem_heldFrom] at hheld
        rcases List.mem_append.mp hheld with hpool | htaken
        · exact absurd rfl (hpools _ hpool)
        · exact absurd htaken hmem
    refine accounted.books.of_ledgers (fun id => ?_) (Nat.le_of_eq hback.nextBuffer.symm)
    by_cases heq : id = allocator
    · rw [heq, hback.unkept hunkept, hunkept]
    · exact hback.ledger id heq

/-- **A raw buffer given back.** An allocator only takes one that the caller has taken from it. -/
theorem freeBuffer {allocator : AllocatorId} {index : Nat} (accounted : s.Accounted taken) :
    (s.exec (.freeBuffer allocator index)).2.Accounted
      (s.takes taken (.freeBuffer allocator index)) := by
  unfold takes
  simp only [exec, Session.freeBuffer]
  cases hbuffer : s.buffer? index with
  | none => exact accounted
  | some buffer =>
    have hkept : buffer.id ∈ s.owned := mem_owned_of_buffer? hbuffer
    have howned : ∀ id ∈ (s.setBuffer index none).owned, id ∈ s.owned := fun _ hmem =>
      mem_owned_of_setBuffer_none hmem
    simp only [withFound]
    rcases hrun : (s.setBuffer index none).world.release allocator buffer with ⟨fault | done, w⟩
    · obtain ⟨-, rfl, -⟩ := World.release_error hrun
      exact accounted.same accounted.sized (fun _ => rfl) (Nat.le_refl _) (Nat.le_refl _) rfl howned
        accounted.backed
    · have hback := World.release_ok hrun
      -- what the caller keeps is in no pool, so the pools still hold all of theirs
      obtain ⟨hbooks, hcounted⟩ := accounted.returned hback fun holding hmem heq =>
        accounted.apart holding hmem (heq ▸ hkept)
      have hreturned : { s.setBuffer index none with world := w }.Accounted
          (taken.erase ⟨allocator, buffer.id⟩) :=
        ⟨accounted.sized, hbooks, hcounted,
          fun pool hmem => Nat.lt_of_lt_of_le (accounted.backed pool hmem) hback.allocators,
          fun holding hmem => Nat.lt_of_lt_of_le
            (accounted.sourced holding (List.mem_of_mem_erase hmem)) hback.allocators,
          fun id hmem => hback.nextBuffer ▸ accounted.known id (howned id hmem),
          fun holding hmem hown => accounted.apart holding hmem (howned _ hown)⟩
      simp only [hbuffer]
      exact hreturned

/-! ### Making, resetting and destroying pools -/

/-- **A new pool** holds one buffer, which is new. -/
private theorem opened (accounted : s.Accounted taken) (opens : pool.Opens s.world buffer w)
    (hover : pool.allocator.index < s.world.allocators.length) :
    { s with world := w, pools := s.pools ++ [some pool] }.Accounted taken := by
  let after : Session := { s with world := w, pools := s.pools ++ [some pool] }
  have hholdings : after.holdings = s.holdings ++ pool.holdings := holdings_append rfl
  have hentry : ∀ other, some other ∈ after.pools → some other ∈ s.pools ∨ other = pool := by
    intro other hmem
    rcases List.mem_append.mp hmem with hold | hlast
    · exact .inl hold
    · exact .inr (Option.some.inj (List.mem_singleton.mp hlast))
  have hnumber : ∀ holding ∈ pool.holdings, holding.id = ⟨s.world.nextBuffer⟩ := by
    intro holding hmem
    rw [Pool.holdings, opens.buffers] at hmem
    obtain rfl := List.mem_singleton.mp hmem
    exact opens.granted.number
  refine ⟨fun other hmem => ?_, ?_, accounted.counted.granted opens.granted, fun other hmem => ?_,
    fun holding hmem => ?_, fun id hmem => ?_, fun holding hmem hown => ?_⟩
  · rcases hentry other hmem with hold | rfl
    · exact accounted.sized other hold
    · exact opens.sized
  · have hbooks := opens.books accounted.books
    rw [Stage.holdings_nil] at hbooks
    refine hbooks.perm ?_
    rw [hholdings, ← List.append_assoc]
    exact List.perm_append_comm.append_right taken
  · refine Nat.lt_of_lt_of_le ?_ opens.granted.allocators
    rcases hentry other hmem with hold | rfl
    · exact accounted.backed other hold
    · exact hover
  · exact Nat.lt_of_lt_of_le (accounted.sourced holding hmem) opens.granted.allocators
  · exact opens.granted.nextBuffer ▸ Nat.lt_succ_of_lt (accounted.known id hmem)
  · rw [hholdings] at hmem
    rcases List.mem_append.mp hmem with hold | hlast
    · exact accounted.apart holding hold hown
    · -- What the caller keeps has a number already, and this one is the next.
      have hlt := accounted.known _ hown
      rw [hnumber holding hlast] at hlt
      exact Nat.lt_irrefl _ hlt

/-- **Making a pool** takes one buffer, or none if it fails. -/
theorem createPool {config : PoolConfig} {allocator : Option AllocatorId}
    (accounted : s.Accounted taken) (admitted : s.Admits (.createPool config allocator)) :
    (s.exec (.createPool config allocator)).2.Accounted taken ∧
      ∀ id, (s.exec (.createPool config allocator)).1 ≠ .failed (.fault (.untrackedFree id)) := by
  have hquieted : ∀ w, s.world.Quiet w → { s with world := w }.Accounted taken := fun w hquiet =>
    accounted.same accounted.sized hquiet.ledger (Nat.le_of_eq hquiet.nextBuffer.symm)
      hquiet.allocators rfl (fun _ hmem => hmem) accounted.backed
  rw [exec]
  rcases s.createPool_ends with ⟨w, w', pool, buffer, quiet, opens, -, hid, hnone, hrun⟩ |
    ⟨w, error, quiet, hrun⟩
  · rw [hrun]
    -- a pool without a given allocator gets one that was added for it
    have hover : pool.allocator.index < w.allocators.length := by
      cases allocator with
      | some id => exact hid id rfl ▸ Nat.lt_of_lt_of_le admitted quiet.allocators
      | none => exact hnone rfl
    exact ⟨(hquieted w quiet).opened opens hover, fun _ h => by cases h⟩
  · rw [hrun]
    exact ⟨hquieted w quiet, fun _ h => by cases h⟩

/-- **A reset** gives the large buffers of the pool back. -/
theorem reset (slot : Nat) (accounted : s.Accounted taken) :
    (s.exec (.reset slot)).2.Accounted taken ∧
      ∀ id, (s.exec (.reset slot)).1 ≠ .failed (.fault (.untrackedFree id)) := by
  rcases s.reset_ends slot with ⟨hcourse, -⟩ | ⟨pool, world, t, here, moves, -, hpool, quiet, hrun⟩
  · exact accounted.course hcourse
  · rw [hrun]
    refine ⟨?_, nofun⟩
    -- The large buffers go in moves; what a reset does then, no ledger sees.
    let emptied : PoolState := ⟨{ pool with large := pool.large.emptied }, world⟩
    have before : (s.settle slot emptied).Accounted taken := accounted.moves here moves (.refl _)
    have hin : Pool.holdingsIn (some t.pool) = Pool.holdingsIn (some emptied.pool) := by
      rw [hpool]
      exact congrArg (List.map pool.holding) (Pool.buffers_rewound pool)
    have hsized := accounted.sized pool (mem_pools_of_pool? here)
    refine before.same (accounted.sized.set (fun after heq => ?_) rfl) quiet.ledger
      (Nat.le_of_eq quiet.nextBuffer.symm) quiet.allocators ?_ (fun _ hmem => hmem)
      fun other hmem => ?_
    · obtain rfl := Option.some.inj heq
      exact hpool ▸ ⟨hsized.min, hsized.max⟩
    · change (s.pools.set slot _).flatMap _ = (s.pools.set slot _).flatMap _
      rw [List.flatMap_def, List.flatMap_def, List.map_set, List.map_set, hin]
    · refine Nat.lt_of_lt_of_le (accounted.backed_set (fun after heq => ?_) hmem)
        moves.allocators_le
      obtain rfl := Option.some.inj heq
      exact hpool ▸ accounted.backed pool (mem_pools_of_pool? here)

/-- **A destruction comes to its end**, since the allocator takes back all that the pool holds. -/
theorem destruction {reply : Reply} {t : PoolState} (accounted : s.Accounted taken)
    (here : s.pool? slot = some pool)
    (hends : Ends Pool.destroy ⟨pool, s.world⟩ (fun _ u => u = t ∧ reply = .done)
      (fun failure u => u = t ∧ reply = .failed failure)) :
    reply = .done ∧ ∃ u : PoolState, Moves ⟨⟨pool, s.world⟩, []⟩ ⟨u, []⟩ ∧
      Moves (Pool.dismantled u []) ⟨t, []⟩ ∧ t.pool.buffers = [] ∧
        t.world.freed = s.world.freed ++ pool.buffers.map Buffer.id := by
  have hbooks := accounted.stage_books here
  have hboth := (Pool.destroy_ends []).and hends
  unfold Ends at hboth
  split at hboth
  · obtain ⟨⟨u, hu⟩, rfl, hreply⟩ := hboth
    exact ⟨hreply, u, hu⟩
  · -- Neither the pool nor what is left of it can get stuck on the books.
    obtain ⟨hstuck | ⟨u, moves, hstuck⟩, -, -⟩ := hboth
    · exact (hstuck.false_of_books hbooks).elim
    · have hleft := moves.books hbooks
      rw [← Pool.holdings_dismantled u []] at hleft
      exact (hstuck.false_of_books hleft).elim

/-- **A destruction** gives every buffer of the pool back, each once. -/
theorem destroy (slot : Nat) (accounted : s.Accounted taken) :
    (s.exec (.destroy slot)).2.Accounted taken ∧
      (∀ id, (s.exec (.destroy slot)).1 ≠ .failed (.fault (.untrackedFree id))) ∧
      ∀ pool, s.pool? slot = some pool → (s.exec (.destroy slot)).1 = .done ∧
        (s.exec (.destroy slot)).2.world.freed = s.world.freed ++ pool.buffers.map Buffer.id := by
  rcases s.destroy_ends slot with ⟨here, hrun⟩ | ⟨pool, reply, t, here, hrun, hends⟩
  · rw [hrun]
    exact ⟨accounted, nofun, fun pool hpool => by rw [here] at hpool; cases hpool⟩
  obtain ⟨rfl, u, moves, moves', hempty, hfreed⟩ := accounted.destruction here hends
  rw [hrun]
  refine ⟨?_, nofun, fun other hother => ?_⟩
  · -- the large buffers go back first; then the pool is dismantled, and its blocks go back
    have hpools : { s.setPool slot none with world := t.world }.pools = s.pools.set slot none := rfl
    have hperm := holdings_set_perm here hpools
    have hleft := moves.books (accounted.stage_books here)
    rw [← Pool.holdings_dismantled u []] at hleft
    have hafter := moves'.books hleft
    rw [Stage.holdings_nil, Pool.holdings, hempty] at hafter
    have hallocators := Nat.le_trans moves.allocators_le moves'.allocators_le
    have hgone : ∀ other ∈ (none : Option Pool),
        other.allocator.index < s.world.allocators.length := fun other hmem =>
      (Option.not_mem_none other hmem).elim
    refine ⟨accounted.sized.set (fun other hmem => (Option.not_mem_none other hmem).elim) rfl,
      hafter.perm (hperm.symm.append_right taken), moves'.counted (moves.counted accounted.counted),
      fun other hmem => Nat.lt_of_lt_of_le (accounted.backed_set hgone hmem) hallocators,
      fun holding hmem => Nat.lt_of_lt_of_le (accounted.sourced holding hmem) hallocators,
      fun id hmem => ?_, fun holding hmem hown => ?_⟩
    · exact Nat.lt_of_lt_of_le (accounted.known id hmem)
        (Nat.le_trans moves.nextBuffer_le moves'.nextBuffer_le)
    · exact accounted.apart holding ((holdings_perm here).mem_iff.mpr
        (List.mem_append_right _ (hperm.mem_iff.mp hmem))) hown
  · obtain rfl := Option.some.inj (here.symm.trans hother)
    exact ⟨rfl, hfreed⟩

/-! ### Every command keeps the accounts -/

/-- Asking for a raw buffer never gives one back. -/
private theorem reply_receiveBuffer (received : Except AllocError Buffer × World) (id : BufferId) :
    (s.receiveBuffer received).1 ≠ .failed (.fault (.untrackedFree id)) := by
  rcases received with ⟨_ | _, _⟩ <;> exact nofun

/-- **Every command keeps the accounts**, and none but the caller's own gives a raw allocator a
buffer that it does not list. -/
theorem exec {command : Command} (accounted : s.Accounted taken) (admitted : s.Admits command) :
    (s.exec command).2.Accounted (s.takes taken command) ∧
      ((∀ allocator index, command ≠ .freeBuffer allocator index) →
        ∀ id, (s.exec command).1 ≠ .failed (.fault (.untrackedFree id))) := by
  cases command with
  | addAllocator allocator => exact ⟨accounted.addAllocator admitted, fun _ _ => nofun⟩
  | newBuffer size align => exact ⟨accounted.newBuffer, fun _ => reply_receiveBuffer _⟩
  | requestBuffer allocator request =>
    exact ⟨accounted.requestBuffer admitted, fun _ => reply_receiveBuffer _⟩
  | freeBuffer allocator index =>
    exact ⟨accounted.freeBuffer, fun hne => absurd rfl (hne allocator index)⟩
  | createPool config allocator =>
    obtain ⟨hafter, hreply⟩ := accounted.createPool admitted
    exact ⟨hafter, fun _ => hreply⟩
  | reset slot =>
    obtain ⟨hafter, hreply⟩ := accounted.reset slot
    exact ⟨hafter, fun _ => hreply⟩
  | destroy slot =>
    obtain ⟨hafter, hreply, -⟩ := accounted.destroy slot
    exact ⟨hafter, fun _ => hreply⟩
  | _ =>
    -- any other command runs its course with the pool that it names
    refine And.imp_right (fun hreply _ => hreply) ?_
    exact accounted.course (exec_course accounted.sized trivial)

/-- **Every history keeps the accounts.** -/
theorem run {history : List Command} (accounted : s.Accounted taken)
    (admitted : s.AdmitsAll history) :
    (s.run history).2.Accounted (s.takenBy taken history) := by
  induction history generalizing s taken with
  | nil => exact accounted
  | cons command history ih =>
    obtain ⟨hcommand, hhistory⟩ := admitted
    exact ih (accounted.exec hcommand).1 hhistory

/-- The accounts of a caller who holds nothing yet. -/
theorem ofHeap (heap : Heap) : (Session.ofHeap heap).Accounted [] := by
  have hledger : ∀ id, (Session.ofHeap heap).world.ledger? id = none := fun _ => rfl
  refine ⟨fun _ hmem => (List.not_mem_nil hmem).elim, ⟨fun id ledger h => ?_, List.nodup_nil, ?_⟩,
    fun id ledger h => ?_, ?_, ?_, ?_, ?_⟩
  · rw [hledger] at h
    cases h
  · exact fun _ hmem => (List.not_mem_nil hmem).elim
  · rw [hledger] at h
    cases h
  all_goals exact fun _ hmem => (List.not_mem_nil hmem).elim

end Accounted

/-! ### Conservation -/

/-- **Raw memory is conserved.** Every ledger lists exactly what the pools hold from its allocator
and what the caller has taken from it; no buffer is held twice; whatever is done next, only the
caller can give an allocator a buffer that it does not list; destroying a pool gives each of its
buffers back; and once no pool and nothing taken by the caller is left, everything handed out was
got back. -/
structure Conserved (s : Session) (taken : List Holding) : Prop where
  listed : ∀ allocator ledger, s.world.ledger? allocator = some ledger →
    ledger.ids.Perm (heldFrom allocator s.holdings ++ heldFrom allocator taken)
  once : ((s.holdings ++ taken).map Holding.id).Nodup
  tracked : ∀ command, s.Admits command →
    (∀ allocator index, command ≠ .freeBuffer allocator index) →
    ∀ id, (s.exec command).1 ≠ .failed (.fault (.untrackedFree id))
  destroyed : ∀ slot pool, s.pool? slot = some pool → (s.exec (.destroy slot)).1 = .done ∧
    (s.exec (.destroy slot)).2.world.freed = s.world.freed ++ pool.buffers.map Buffer.id
  settled : (∀ slot, s.pool? slot = none) → ∀ allocator ledger,
    s.world.ledger? allocator = some ledger → heldFrom allocator taken = [] →
      ledger.live = [] ∧ ledger.frees = ledger.allocations

theorem Accounted.conserved (accounted : s.Accounted taken) : s.Conserved taken where
  listed allocator ledger h := by
    have hlisted := accounted.books.listed allocator ledger h
    rwa [List.append_nil, heldFrom_append] at hlisted
  once := accounted.books.nodup
  tracked command admitted hne := (accounted.exec admitted).2 hne
  destroyed slot := (accounted.destroy slot).2.2
  settled hgone allocator ledger h htaken := by
    -- With every slot empty, nothing is held but what the caller has taken.
    have hnone : s.holdings = [] := by
      refine List.flatMap_eq_nil_iff.mpr fun entry hmem => ?_
      cases entry with
      | none => rfl
      | some pool =>
        obtain ⟨slot, hslot⟩ := List.getElem?_of_mem hmem
        cases (hgone slot).symm.trans (pool?_eq_some_iff.mpr hslot)
    have hlisted := accounted.books.listed allocator ledger h
    rw [List.append_nil, hnone, List.nil_append, htaken] at hlisted
    have hlive : ledger.live = [] := List.map_eq_nil_iff.mp hlisted.eq_nil
    have hcount := accounted.counted allocator ledger h
    rw [hlive] at hcount
    exact ⟨hlive, hcount.symm⟩

/-- **Raw memory is conserved** by every history. -/
theorem run_conserved (heap : Heap) (history : List Command)
    (admitted : (Session.ofHeap heap).AdmitsAll history) :
    ((Session.ofHeap heap).run history).2.Conserved ((Session.ofHeap heap).takenBy [] history) :=
  ((Accounted.ofHeap heap).run admitted).conserved

/-- A heap that refuses its seventh request. -/
def scarceHeap : Heap where
  place request _ _ := if request = 6 then none else some (4096 * request)

/-- Two pools share an allocator with a budget, from which the caller takes a buffer as well; a
third one counts what it hands out. One growth is refused by the heap and one by the budget. -/
def sharedHistory : List Command :=
  [.addAllocator (.failing 7 {}), .addAllocator (.counting {}),
    .createPool { size := 112 } (some ⟨0⟩), .createPool { size := 128 } (some ⟨0⟩),
    .createPool { size := 112 } (some ⟨1⟩), .requestBuffer ⟨0⟩ (.malloc 9), .newBuffer 5 8,
    .alloc 0 40, .alloc 1 50, .alloc 2 40, .addCleanup 0 3, .alloc 0 24, .alloc 0 24, .alloc 1 90,
    .free 1 1, .initArray 2 1 3, .pushArray 2 0 (.fill 1), .pushArray 2 0 (.fill 2), .extend 2 2 5,
    .freeBuffer ⟨1⟩ 1, .freeBuffer ⟨0⟩ 0, .reset 0, .reclaim 0 0, .destroy 1, .alloc 0 40,
    .destroy 0, .destroy 2]

theorem run_conserved_sharedHistory :
    (Session.ofHeap scarceHeap).AdmitsAll sharedHistory ∧
      ((Session.ofHeap scarceHeap).run sharedHistory).2.Conserved
        ((Session.ofHeap scarceHeap).takenBy [] sharedHistory) := by
  have admitted : (Session.ofHeap scarceHeap).AdmitsAll sharedHistory := by decide +kernel
  exact ⟨admitted, run_conserved scarceHeap sharedHistory admitted⟩

end Accounted

end Session

end RegionPool
