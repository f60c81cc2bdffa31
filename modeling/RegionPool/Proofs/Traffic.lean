import RegionPool.Proofs.Calls
import RegionPool.Proofs.Resolution

/-!
# Traffic with one raw allocator

Whoever holds a clone of a raw allocator may ask it for memory and give buffers back, in any order
and with any outcome: a request is granted or refused, a buffer is taken back or belongs to somebody
else. `World.Traffic` is such a sequence. It is not broken by what happens elsewhere in the world,
as long as the allocator itself is left alone and no number of a buffer is used again.

* `World.transact_traffic` — every sequence of approaches is the traffic of some run;
* `Ledger.Consistent`, `Ledger.Follows` — what a ledger keeps up whatever happens, and what it makes
  of a stretch of traffic, with one lemma for each way to change it;
* `World.Traffic.ledger` — a ledger follows the traffic; all the rest is read off it;
* `World.Traffic.tallies` — a ledger that starts empty lists exactly the buffers that were obtained
  and not returned, in the order in which they were obtained.
-/

namespace RegionPool

/-! ### Exchanges -/

/-- **A request with its answer.** -/
structure Ask where
  request : Request
  /-- Whether the heap had the memory when it was asked for. -/
  able : Bool
  answer : Except AllocError Buffer

namespace Ask

/-- Whether the request was granted. -/
def served (ask : Ask) : Bool := ask.answer.isOk

/-- The entry that a ledger makes of the request. -/
def entry? (ask : Ask) : Option (BufferId × Nat) :=
  ask.answer.toOption.map fun buffer => (buffer.id, buffer.length)

end Ask

/-- **An exchange with a raw allocator**, with what came of it. -/
inductive Exchange where
  /-- The allocator was asked for memory. -/
  | asked (ask : Ask)
  /-- A buffer was offered to the allocator, which may not know it. -/
  | gaveBack (buffer : Buffer) (outcome : Except Fault Unit)

namespace Exchange

/-- The request, if it was one. -/
def ask? : Exchange → Option Ask
  | asked ask => some ask
  | gaveBack _ _ => none

/-- The buffer that was taken back, if one was. -/
def returned? : Exchange → Option BufferId
  | gaveBack buffer (.ok ()) => some buffer.id
  | _ => none

/-- The requests, in order. -/
def asks (traffic : List Exchange) : List Ask := traffic.filterMap ask?

/-- The buffers that were obtained, with their lengths, in order. -/
def obtained (traffic : List Exchange) : List (BufferId × Nat) :=
  (asks traffic).filterMap Ask.entry?

/-- The buffers that were taken back, in order. -/
def returned (traffic : List Exchange) : List BufferId := traffic.filterMap returned?

/-- The buffers that were obtained and not taken back, in the order in which they were obtained. -/
def outstanding (traffic : List Exchange) : List (BufferId × Nat) :=
  (obtained traffic).filter fun entry => entry.1 ∉ returned traffic

section Cons

variable (request : Request) (able : Bool) (buffer : Buffer) (error : AllocError) (fault : Fault)
  (ask : Ask) (outcome : Except Fault Unit) (traffic : List Exchange)

@[simp] theorem asks_nil : asks [] = [] := rfl

@[simp] theorem obtained_nil : obtained [] = [] := rfl

@[simp] theorem returned_nil : returned [] = [] := rfl

@[simp] theorem asks_asked : asks (.asked ask :: traffic) = ask :: asks traffic := rfl

@[simp] theorem asks_gaveBack : asks (.gaveBack buffer outcome :: traffic) = asks traffic := rfl

@[simp] theorem obtained_granted :
    obtained (.asked ⟨request, able, .ok buffer⟩ :: traffic) =
      (buffer.id, buffer.length) :: obtained traffic := rfl

@[simp] theorem obtained_refused :
    obtained (.asked ⟨request, able, .error error⟩ :: traffic) = obtained traffic := rfl

@[simp] theorem obtained_gaveBack :
    obtained (.gaveBack buffer outcome :: traffic) = obtained traffic := rfl

@[simp] theorem returned_asked : returned (.asked ask :: traffic) = returned traffic := rfl

@[simp] theorem returned_taken :
    returned (.gaveBack buffer (.ok ()) :: traffic) = buffer.id :: returned traffic := rfl

@[simp] theorem returned_untracked :
    returned (.gaveBack buffer (.error fault) :: traffic) = returned traffic := rfl

end Cons

end Exchange

/-! ### Traffic -/

namespace World

/-- Whether the heap has the memory for a request. -/
def affords (w : World) (request : Request) : Bool :=
  (w.newBuffer request.size request.align).1.isOk

/-- **Traffic with the raw allocator of this number**, by which one world came from another. -/
inductive Traffic (id : AllocatorId) : World → List Exchange → World → Prop
  | nil (w : World) : Traffic id w [] w
  | elsewhere {w w₁ w' traffic} (same : w₁.allocator id = w.allocator id)
      (later : w.nextBuffer ≤ w₁.nextBuffer) (rest : Traffic id w₁ traffic w') :
      Traffic id w traffic w'
  | ask {w w₁ w' request answer traffic} (call : w.request id request = (answer, w₁))
      (rest : Traffic id w₁ traffic w') :
      Traffic id w (.asked ⟨request, w.affords request, answer⟩ :: traffic) w'
  | giveBack {w w₁ w' buffer outcome traffic} (call : w.release id buffer = (outcome, w₁))
      (rest : Traffic id w₁ traffic w') : Traffic id w (.gaveBack buffer outcome :: traffic) w'

/-- What one may approach a raw allocator with. -/
inductive Approach where
  | ask (request : Request)
  | giveBack (buffer : Buffer)

/-- **Approach a raw allocator again and again**, and write down what comes of it. -/
def transact (w : World) (id : AllocatorId) : List Approach → List Exchange × World
  | [] => ([], w)
  | .ask request :: rest =>
    let (answer, w₁) := w.request id request
    let (traffic, w') := w₁.transact id rest
    (.asked ⟨request, w.affords request, answer⟩ :: traffic, w')
  | .giveBack buffer :: rest =>
    let (outcome, w₁) := w.release id buffer
    let (traffic, w') := w₁.transact id rest
    (.gaveBack buffer outcome :: traffic, w')

/-- **Every sequence of approaches is traffic**, whatever the world. -/
theorem transact_traffic (w : World) (id : AllocatorId) (approaches : List Approach) :
    Traffic id w (w.transact id approaches).1 (w.transact id approaches).2 := by
  induction approaches generalizing w with
  | nil => exact .nil w
  | cons approach rest ih =>
    cases approach with
    | ask request => exact .ask rfl (ih _)
    | giveBack buffer => exact .giveBack rfl (ih _)

end World

/-! ### What a ledger makes of the traffic -/

namespace Ledger

/-- **A consistent ledger**: no buffer is listed twice, none is yet to come, and the counts agree
with the list. -/
structure Consistent (next : Nat) (ledger : Ledger) : Prop where
  distinct : ledger.ids.Nodup
  old : ∀ id ∈ ledger.ids, id.number < next
  balance : ledger.allocations = ledger.frees + ledger.live.length

/-- **A ledger that follows the traffic**, from what it was before. -/
structure Follows (before : Ledger) (traffic : List Exchange) (after : Ledger) : Prop where
  live : after.live = (before.live ++ Exchange.obtained traffic).filter
    fun entry => entry.1 ∉ Exchange.returned traffic
  allocations : after.allocations = before.allocations + (Exchange.obtained traffic).length
  frees : after.frees = before.frees + (Exchange.returned traffic).length

variable {next : Nat} {ledger after : Ledger} {buffer : Buffer} {id : BufferId}

theorem consistent_empty (next : Nat) : Consistent next {} := ⟨.nil, nofun, rfl⟩

namespace Consistent

theorem mono (h : ledger.Consistent next) {later : Nat} (hle : next ≤ later) :
    ledger.Consistent later :=
  ⟨h.distinct, fun id hmem => Nat.lt_of_lt_of_le (h.old id hmem) hle, h.balance⟩

/-- A new buffer is entered. -/
theorem record (h : ledger.Consistent next) (hnew : buffer.id = ⟨next⟩) :
    (ledger.record buffer).Consistent (next + 1) where
  distinct := by
    -- all numbers in the ledger are below the next one
    have hfresh : buffer.id ∉ ledger.ids := fun hmem => by
      have hlt := h.old _ hmem
      rw [hnew] at hlt
      exact Nat.lt_irrefl _ hlt
    rw [ids_record]
    exact List.nodup_append.mpr ⟨h.distinct, List.pairwise_singleton _ _, fun id hid other hother =>
      List.mem_singleton.mp hother ▸ fun heq => hfresh (heq ▸ hid)⟩
  old id hmem := by
    rw [ids_record, List.mem_append, List.mem_singleton] at hmem
    rcases hmem with hmem | rfl
    · exact Nat.lt_succ_of_lt (h.old id hmem)
    · rw [hnew]; exact Nat.lt_succ_self next
  balance := by
    have hbalance := h.balance
    simp only [Ledger.record, List.length_append, List.length_singleton]
    omega

end Consistent

/-- Where no number is listed twice, the first entry of a number is the only one. -/
private theorem eraseP_eq_filter {live : List (BufferId × Nat)} (h : (live.map (·.1)).Nodup)
    (id : BufferId) : live.eraseP (·.1 == id) = live.filter (·.1 ≠ id) := by
  induction live with
  | nil => rfl
  | cons entry rest ih =>
    obtain ⟨hhead, htail⟩ := List.nodup_cons.mp h
    by_cases heq : entry.1 = id
    -- the entry is the first one; no later one has its number
    · have hothers : ∀ other ∈ rest, other.1 ≠ id := fun other hmem hother =>
        hhead (List.mem_map.mpr ⟨other, hmem, hother.trans heq.symm⟩)
      rw [List.eraseP_cons_of_pos (by simpa using heq),
        List.filter_cons_of_neg (by simpa using heq),
        List.filter_eq_self.mpr (by simpa using hothers)]
    · rw [List.eraseP_cons_of_neg (by simpa using heq),
        List.filter_cons_of_pos (by simpa using heq), ih htail]

/-- Striking a buffer out is leaving it out of the list. -/
theorem live_of_release? (h : ledger.ids.Nodup) (hstruck : ledger.release? id = some after) :
    after.live = ledger.live.filter (·.1 ≠ id) := by
  unfold release? at hstruck
  split at hstruck
  · cases hstruck
    exact eraseP_eq_filter h id
  · cases hstruck

/-- A buffer is struck out. -/
theorem Consistent.release? (h : ledger.Consistent next)
    (hstruck : ledger.release? id = some after) : after.Consistent next where
  distinct := ids_of_release? hstruck ▸ h.distinct.erase id
  old other hmem := by
    rw [ids_of_release? hstruck] at hmem
    exact h.old other (List.mem_of_mem_erase hmem)
  balance := by
    have hcounts := counts_of_release? hstruck
    have hbalance := h.balance
    omega

namespace Follows

variable {before between : Ledger} {traffic : List Exchange} {ask : Ask} {fault : Fault}

theorem nil (ledger : Ledger) : ledger.Follows [] ledger :=
  ⟨by simp, rfl, rfl⟩

/-- A request that is granted comes first. -/
theorem granted {request : Request} {able : Bool}
    (h : (before.record buffer).Follows traffic after) :
    before.Follows (.asked ⟨request, able, .ok buffer⟩ :: traffic) after where
  live := by
    rw [h.live, Exchange.obtained_granted, Exchange.returned_asked, Ledger.record,
      List.append_assoc]
    rfl
  allocations := by
    rw [h.allocations, Exchange.obtained_granted, List.length_cons]
    simp only [Ledger.record]
    omega
  frees := h.frees

/-- A request that is refused makes no difference. -/
theorem refused {request : Request} {able : Bool} {error : AllocError}
    (h : before.Follows traffic after) :
    before.Follows (.asked ⟨request, able, .error error⟩ :: traffic) after :=
  ⟨h.live, h.allocations, h.frees⟩

/-- A buffer that is taken back comes first, and is not among those that are obtained later. -/
theorem taken (h : between.Follows traffic after) (hdistinct : before.ids.Nodup)
    (hstruck : before.release? buffer.id = some between)
    (hnew : ∀ entry ∈ Exchange.obtained traffic, entry.1 ≠ buffer.id) :
    before.Follows (.gaveBack buffer (.ok ()) :: traffic) after := by
  have hlive := live_of_release? hdistinct hstruck
  obtain ⟨hallocations, hfrees, -⟩ := counts_of_release? hstruck
  refine ⟨?_, ?_, ?_⟩
  -- later buffers have other numbers, so striking this one out first or last is the same
  · have hlater :
        (Exchange.obtained traffic).filter (·.1 ≠ buffer.id) = Exchange.obtained traffic :=
      List.filter_eq_self.mpr (by simpa using hnew)
    rw [h.live, hlive, Exchange.obtained_gaveBack, Exchange.returned_taken]
    conv => lhs; rw [← hlater, ← List.filter_append, List.filter_filter]
    refine List.filter_congr fun entry _ => ?_
    simp [Bool.and_comm]
  · rw [h.allocations, hallocations, Exchange.obtained_gaveBack]
  · rw [h.frees, hfrees, Exchange.returned_taken, List.length_cons]
    omega

/-- So does a buffer that is not taken back. -/
theorem untracked (h : before.Follows traffic after) :
    before.Follows (.gaveBack buffer (.error fault) :: traffic) after :=
  ⟨h.live, h.allocations, h.frees⟩

end Follows

end Ledger

namespace World

variable {id : AllocatorId} {w w' : World} {traffic : List Exchange} {request : Request}
  {buffer : Buffer} {error : AllocError}

/-! ### The step -/

/-- A request that is refused leaves the ledger as it is. -/
theorem ledger?_of_refused (call : w.request id request = (.error error, w')) :
    w'.ledger? id = w.ledger? id :=
  (request_error call).ledger id

/-- A buffer is taken back if it is listed. If not, nothing changes but that an attempt was made. -/
theorem release_of_ledger {ledger : Ledger} (hledger : w.ledger? id = some ledger)
    (buffer : Buffer) :
    (buffer.id ∈ ledger.ids → ∃ after, w.release id buffer = (.ok (), after)) ∧
      (buffer.id ∉ ledger.ids → ∃ after,
        w.release id buffer = (.error (.untrackedFree buffer.id), after) ∧
          after.ledger? id = some ledger) := by
  refine ⟨fun hlisted => release_of_listed fun other hother => ?_, fun hnot => ?_⟩
  · rw [hledger] at hother
    exact Option.some.inj hother ▸ hlisted
  -- a number that is not listed cannot have been struck out
  · rcases hcall : w.release id buffer with ⟨fault | ⟨⟩, w'⟩
    · obtain ⟨rfl, rfl, -⟩ := release_error hcall
      exact ⟨_, rfl, hledger⟩
    · obtain ⟨after, hstruck, -⟩ := (release_ok hcall).struck ledger hledger
      exact absurd (Ledger.mem_ids_of_release? hstruck) hnot

namespace Traffic

/-- **What is obtained is new**: its number was not in use when the traffic started. -/
theorem obtained_new (h : Traffic id w traffic w') :
    ∀ entry ∈ Exchange.obtained traffic, w.nextBuffer ≤ entry.1.number := by
  induction h with
  | nil => exact nofun
  | elsewhere _ later _ ih => exact fun entry hmem => Nat.le_trans later (ih entry hmem)
  | @ask w w₁ w' request answer traffic call _ ih =>
    rcases answer with error | buffer
    -- a request that was refused uses up no number
    · exact fun entry hmem => (request_error call).nextBuffer ▸ ih entry hmem
    · have hgrants := request_ok call
      -- the buffer has the number `nextBuffer`, and all later ones are above
      rw [hgrants.nextBuffer] at ih
      intro entry hmem
      rcases List.mem_cons.mp hmem with rfl | hmem
      · exact Nat.le_of_eq (congrArg BufferId.number hgrants.number).symm
      · exact Nat.le_of_succ_le (ih entry hmem)
  | @giveBack w w₁ w' buffer outcome traffic call _ ih =>
    rcases outcome with fault | ⟨⟩
    · obtain ⟨-, rfl, -⟩ := release_error call
      exact ih
    · exact fun entry hmem => (release_ok call).nextBuffer ▸ ih entry hmem

/-- Nothing is obtained twice. -/
theorem obtained_distinct (h : Traffic id w traffic w') :
    ((Exchange.obtained traffic).map (·.1)).Nodup := by
  induction h with
  | nil => exact .nil
  | elsewhere _ _ _ ih => exact ih
  | @ask w w₁ w' request answer traffic call rest ih =>
    rcases answer with error | buffer
    · exact ih
    · have hgrants := request_ok call
      refine List.nodup_cons.mpr ⟨fun hmem => ?_, ih⟩
      -- numbers only grow, so what comes later has another one
      obtain ⟨entry, hentry, heq⟩ := List.mem_map.mp hmem
      have hnumber : entry.1 = ⟨w.nextBuffer⟩ := heq.trans hgrants.number
      have hle := obtained_new rest entry hentry
      rw [hnumber, hgrants.nextBuffer] at hle
      exact Nat.not_succ_le_self _ hle
  | giveBack _ _ ih => exact ih

/-- **A ledger follows the traffic**, and stays consistent. By induction on the traffic, with one
lemma about ledgers for each exchange. -/
theorem ledger (h : Traffic id w traffic w') {before : Ledger}
    (hbefore : w.ledger? id = some before) (hconsistent : before.Consistent w.nextBuffer) :
    ∃ after, w'.ledger? id = some after ∧ after.Consistent w'.nextBuffer ∧
      before.Follows traffic after := by
  induction h generalizing before with
  | nil => exact ⟨before, hbefore, hconsistent, .nil before⟩
  | elsewhere same later _ ih =>
    exact ih (by rw [ledger?, same]; exact hbefore) (hconsistent.mono later)
  | @ask w w₁ w' request answer traffic call _ ih =>
    rcases answer with error | buffer
    · have hquiet := request_error call
      obtain ⟨after, hafter, hkept, hfollows⟩ :=
        ih ((hquiet.ledger id).trans hbefore) (hquiet.nextBuffer ▸ hconsistent)
      exact ⟨after, hafter, hkept, hfollows.refused⟩
    · have hgrants := request_ok call
      have hentered : w₁.ledger? id = some (before.record buffer) := by
        rw [hgrants.ledger, if_pos rfl, hbefore]
        rfl
      obtain ⟨after, hafter, hkept, hfollows⟩ :=
        ih hentered (hgrants.nextBuffer ▸ hconsistent.record hgrants.number)
      exact ⟨after, hafter, hkept, hfollows.granted⟩
  | @giveBack w w₁ w' buffer outcome traffic call rest ih =>
    rcases outcome with fault | ⟨⟩
    · obtain ⟨-, rfl, -⟩ := release_error call
      obtain ⟨after, hafter, hkept, hfollows⟩ := ih hbefore hconsistent
      exact ⟨after, hafter, hkept, hfollows.untracked⟩
    · have hback := release_ok call
      obtain ⟨between, hstruck, hledger⟩ := hback.struck before hbefore
      obtain ⟨after, hafter, hkept, hfollows⟩ :=
        ih hledger (hback.nextBuffer ▸ hconsistent.release? hstruck)
      -- the buffer is older than the rest of the traffic
      have hlisted := Ledger.mem_ids_of_release? hstruck
      have hnew : ∀ entry ∈ Exchange.obtained traffic, entry.1 ≠ buffer.id := by
        intro entry hmem heq
        have hle := obtained_new rest entry hmem
        have hlt := hconsistent.old _ hlisted
        rw [hback.nextBuffer, heq] at hle
        omega
      exact ⟨after, hafter, hkept, hfollows.taken hconsistent.distinct hstruck hnew⟩

/-- A buffer has the length that was asked for. -/
theorem length_of_obtained (h : Traffic id w traffic w') :
    ∀ ask ∈ Exchange.asks traffic, ∀ buffer, ask.answer = .ok buffer →
      buffer.length = ask.request.size := by
  induction h with
  | nil => exact nofun
  | elsewhere _ _ _ ih => exact ih
  | ask call _ ih =>
    intro ask hmem buffer hanswer
    rcases List.mem_cons.mp hmem with rfl | hmem
    · cases hanswer
      exact length_of_request call
    · exact ih ask hmem buffer hanswer
  | giveBack _ _ ih => exact ih

/-! ### A ledger from the beginning -/

end Traffic

/-- **A ledger that tells the traffic exactly.** -/
structure Tallies (w : World) (id : AllocatorId) (traffic : List Exchange) (ledger : Ledger) :
    Prop where
  /-- Live is what was obtained and not taken back, in the order in which it was obtained. -/
  live : ledger.live = Exchange.outstanding traffic
  /-- No buffer was obtained twice, and each has the length that was asked for. -/
  distinct : ((Exchange.obtained traffic).map (·.1)).Nodup
  lengths : ∀ ask ∈ Exchange.asks traffic, ∀ buffer, ask.answer = .ok buffer →
    buffer.length = ask.request.size
  allocations : ledger.allocations = (Exchange.obtained traffic).length
  frees : ledger.frees = (Exchange.returned traffic).length
  balance : ledger.allocations - ledger.frees = ledger.live.length ∧
    ledger.frees ≤ ledger.allocations
  bytes : ledger.bytes = ((Exchange.outstanding traffic).map (·.2)).sum
  /-- A request that is refused changes nothing. -/
  refused : ∀ request error after, w.request id request = (.error error, after) →
    after.ledger? id = some ledger
  /-- Every buffer that is live is taken back. -/
  taken : ∀ buffer, buffer.id ∈ ledger.ids → ∃ after, w.release id buffer = (.ok (), after)
  /-- Any other is not, and that is a fault which changes nothing. -/
  untracked : ∀ buffer, buffer.id ∉ ledger.ids → ∃ after,
    w.release id buffer = (.error (.untrackedFree buffer.id), after) ∧
      after.ledger? id = some ledger

namespace Traffic

/-- **A ledger is exact**: from an empty one on, it tells at any time which buffers were obtained
and not yet returned, whatever was refused in between and whatever else was offered to it. -/
theorem tallies (h : Traffic id w traffic w') (hempty : w.ledger? id = some {}) :
    ∃ ledger, w'.ledger? id = some ledger ∧ w'.Tallies id traffic ledger := by
  obtain ⟨ledger, hledger, hconsistent, hfollows⟩ := h.ledger hempty (Ledger.consistent_empty _)
  have hlive : ledger.live = Exchange.outstanding traffic := hfollows.live
  have hbalance := hconsistent.balance
  -- what can be told of the ledger as it is, and of what the next call would do to it
  exact ⟨ledger, hledger,
    { live := hlive
      distinct := obtained_distinct h
      lengths := length_of_obtained h
      allocations := hfollows.allocations.trans (Nat.zero_add _)
      frees := hfollows.frees.trans (Nat.zero_add _)
      balance := ⟨by omega, by omega⟩
      bytes := by rw [Ledger.bytes, Ledger.sizes, hlive]
      refused := fun request error after call => (ledger?_of_refused call).trans hledger
      taken := fun buffer => (release_of_ledger hledger buffer).1
      untracked := fun buffer => (release_of_ledger hledger buffer).2 }⟩

end Traffic

/-- A world with an allocator that keeps a ledger. -/
def countingWorld : World := { heap := Session.roomyHeap, allocators := [.counting {}] }

/-- A buffer of this number that may be anybody's. -/
def strayBuffer (number length : Nat) : Buffer :=
  { id := ⟨number⟩, base := 0, align := 1, memory := Memory.zeroed length }

/-- One request has no layout; a buffer is offered that is not known, and the second of three is
offered twice. -/
def mixedApproaches : List Approach :=
  [.ask (.malloc 10), .ask (.memalign 64 20), .ask (.memalign 3 8), .giveBack (strayBuffer 9 10),
    .ask (.calloc 5), .giveBack (strayBuffer 2 20), .giveBack (strayBuffer 2 20)]

theorem Traffic.tallies_mixedApproaches :
    ∃ ledger, (countingWorld.transact ⟨0⟩ mixedApproaches).2.ledger? ⟨0⟩ = some ledger ∧
      (countingWorld.transact ⟨0⟩ mixedApproaches).2.Tallies ⟨0⟩
        (countingWorld.transact ⟨0⟩ mixedApproaches).1 ledger ∧
      ledger = { live := [(⟨1⟩, 10), (⟨3⟩, 5)], allocations := 3, frees := 1 } ∧
      (Exchange.asks (countingWorld.transact ⟨0⟩ mixedApproaches).1).map Ask.served =
        [true, true, false, true] := by
  obtain ⟨ledger, hledger, htallies⟩ :=
    Traffic.tallies (transact_traffic countingWorld ⟨0⟩ mixedApproaches) (by decide +kernel)
  have hcounts : (countingWorld.transact ⟨0⟩ mixedApproaches).2.ledger? ⟨0⟩ =
      some { live := [(⟨1⟩, 10), (⟨3⟩, 5)], allocations := 3, frees := 1 } := by decide +kernel
  exact ⟨ledger, hledger, htallies, Option.some.inj (hledger.symm.trans hcounts),
    by decide +kernel⟩

end World

end RegionPool
