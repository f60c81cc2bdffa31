import RegionPool.Proofs.Traffic

/-!
# Allocators with a budget

An allocator with a budget passes on as many requests as its budget says and refuses every one after
that, without asking the heap. Within the budget a request is granted if the heap has the memory, so
what is granted is told from the order of the requests and from what the heap could have given.

The budget is spent before the heap is asked. A request that the heap refuses, because it is out of
memory or because no layout exists, has therefore used up a part of it, and a later request that
could be satisfied goes without. The successes are the first ones possible exactly as long as no
such request comes early enough.

* `World.request_within`, `World.request_beyond`, `World.release_of_failing` — what one exchange
  does to an allocator with a budget;
* `World.Traffic.rations` — what a stretch of traffic, of any length, comes to;
* `World.not_first_of_misaligned` — the budget may be used up by a request that no heap could grant.
-/

namespace RegionPool

namespace World

variable {id : AllocatorId} {w w' : World} {budget : Nat} {ledger : Ledger} {request : Request}
  {traffic : List Exchange}

/-! ### One exchange -/

/-- The state of an allocator that is not a plain one can be replaced. -/
private theorem allocator_setAllocator {kind allocator : Allocator} (h : w.allocator id = kind)
    (hkind : kind ≠ .system) : (w.setAllocator id allocator).allocator id = allocator := by
  have hlt : id.index < w.allocators.length := by
    by_contra hle
    exact hkind (h.symm.trans (allocator_of_length_le w id (Nat.le_of_not_lt hle)))
  simp [World.allocator, setAllocator, List.getD_eq_getElem?_getD, hlt]

/-- A ledger passes on whether the heap had the memory. -/
private theorem isOk_countedRequest (w : World) (ledger : Ledger) (request : Request) :
    (w.countedRequest ledger request).1.isOk = w.affords request := by
  have hanswer := answer_countedRequest (f := fun _ => ()) (fun _ _ => rfl) w ledger request
  unfold affords
  cases hcounted : (w.countedRequest ledger request).1 <;>
    cases hnew : (w.newBuffer request.size request.align).1 <;>
    simp_all [Except.map, Except.isOk, Except.toBool]

/-- A request through a ledger leaves the allocators alone. -/
private theorem allocators_countedRequest (w : World) (ledger : Ledger) (request : Request) :
    (w.countedRequest ledger request).2.2.allocators = w.allocators := by
  rcases hcall : w.countedRequest ledger request with ⟨error | buffer, ledger', w'⟩
  · exact (countedRequest_error hcall).2.2.1
  · exact (countedRequest_ok hcall).2.2.2.1

/-- **Within the budget** a request is granted if the heap has the memory, and costs one either
way. -/
theorem request_within {answer : Except AllocError Buffer}
    (h : w.allocator id = .failing (budget + 1) ledger)
    (call : w.request id request = (answer, w')) :
    answer.isOk = w.affords request ∧ ∃ after, w'.allocator id = .failing budget after := by
  unfold World.request at call
  rw [h] at call
  obtain ⟨rfl, rfl⟩ := call
  -- the allocator is written back with the lower budget, whatever the heap said
  have hsame := allocators_countedRequest w ledger request
  have hkept :
      (w.countedRequest ledger request).2.2.allocator id = .failing (budget + 1) ledger := by
    rw [World.allocator, hsame]
    exact h
  exact ⟨isOk_countedRequest w ledger request, _, allocator_setAllocator hkept (by simp)⟩

/-- **Beyond the budget** every request is refused, as by a full heap, and nothing else changes. -/
theorem request_beyond (h : w.allocator id = .failing 0 ledger) (request : Request) :
    ∃ w', w.request id request = (.error (.outOfMemory request.size request.align), w') ∧
      w'.allocator id = .failing 0 ledger := by
  unfold World.request
  rw [h]
  exact ⟨_, rfl, allocator_setAllocator h (by simp)⟩

/-- A buffer that is given back, or is not taken, is no matter of the budget. -/
theorem release_of_failing {buffer : Buffer} {outcome : Except Fault Unit}
    (h : w.allocator id = .failing budget ledger)
    (call : w.release id buffer = (outcome, w')) :
    ∃ after, w'.allocator id = .failing budget after := by
  have hattempt : (w.emit (.freed buffer.id)).allocator id = .failing budget ledger := h
  unfold World.release at call
  dsimp only at call
  -- only the ledger sees what comes back, and a budget is never restored
  rw [hattempt] at call
  dsimp only at call
  split at call
  · obtain ⟨rfl, rfl⟩ := call
    exact ⟨_, allocator_setAllocator hattempt (by simp)⟩
  · obtain ⟨rfl, rfl⟩ := call
    exact ⟨ledger, hattempt⟩

/-! ### A stretch of traffic -/

namespace Traffic

/-- **Requests are served in turn**: within the budget by what the heap has, beyond it not at all.
By induction on the traffic, the budget being what is left of it at each point. -/
theorem served_in_turn (h : Traffic id w traffic w')
    (hstart : w.allocator id = .failing budget ledger) :
    (∀ ask ∈ (Exchange.asks traffic).take budget, ask.served = ask.able) ∧
      (∀ ask ∈ (Exchange.asks traffic).drop budget,
        ask.answer = .error (.outOfMemory ask.request.size ask.request.align)) ∧
      ∃ after, w'.allocator id = .failing (budget - (Exchange.asks traffic).length) after := by
  induction h generalizing budget ledger with
  | nil => exact ⟨by simp, by simp, ledger, hstart⟩
  | elsewhere same _ _ ih => exact ih (same.trans hstart)
  | @ask w w₁ w' request answer traffic call _ ih =>
    rw [Exchange.asks_asked]
    cases budget with
    | zero =>
      -- nothing is left of the budget, so this request and all later ones are refused
      obtain ⟨w₂, hrefused, hkept⟩ := request_beyond hstart request
      obtain ⟨rfl, rfl⟩ := Prod.mk.inj (call.symm.trans hrefused)
      obtain ⟨hwithin, hbeyond, after, hafter⟩ := ih hkept
      refine ⟨by simp, fun ask hmem => ?_, after, by simpa using hafter⟩
      rcases List.mem_cons.mp hmem with rfl | hmem
      · rfl
      · exact hbeyond ask hmem
    | succ budget =>
      -- one of the budget is spent, whether the heap then has room or not
      obtain ⟨hserved, between, hbetween⟩ := request_within hstart call
      obtain ⟨hwithin, hbeyond, after, hafter⟩ := ih hbetween
      refine ⟨fun ask hmem => ?_, hbeyond, after, by simpa using hafter⟩
      rcases List.mem_cons.mp hmem with rfl | hmem
      · exact hserved
      · exact hwithin ask hmem
  | giveBack call _ ih =>
    obtain ⟨between, hbetween⟩ := release_of_failing hstart call
    exact ih hbetween

end Traffic

/-- **What becomes of a budget** by the end of a stretch of traffic. -/
structure Rations (w : World) (id : AllocatorId) (budget : Nat) (traffic : List Exchange) :
    Prop where
  /-- As many requests as the budget says are passed on, and those of them are granted that the heap
  has the memory for. -/
  served : (Exchange.asks traffic).filter Ask.served =
    ((Exchange.asks traffic).take budget).filter Ask.able
  /-- Every later one is refused as by a full heap. -/
  beyond : ∀ ask ∈ (Exchange.asks traffic).drop budget,
    ask.answer = .error (.outOfMemory ask.request.size ask.request.align)
  /-- If the heap refuses none of those that are passed on, then the first ones are granted that it
  has the memory for, as many as the budget says. -/
  first : (∀ ask ∈ (Exchange.asks traffic).take budget, ask.able = true) →
    (Exchange.asks traffic).filter Ask.served =
      ((Exchange.asks traffic).filter Ask.able).take budget
  /-- What is left of the budget. -/
  left : ∃ ledger, w.allocator id = .failing (budget - (Exchange.asks traffic).length) ledger
  /-- Once nothing is left, no request is granted and none changes the allocator. -/
  spent : budget ≤ (Exchange.asks traffic).length → ∀ request, ∃ after,
    w.request id request = (.error (.outOfMemory request.size request.align), after) ∧
      after.allocator id = w.allocator id

/-- **An allocator with a budget grants what its budget says**, from any ledger on, so also after
its budget was set anew. -/
theorem Traffic.rations (h : Traffic id w traffic w')
    (hstart : w.allocator id = .failing budget ledger) : w'.Rations id budget traffic := by
  obtain ⟨hwithin, hbeyond, after, hafter⟩ := h.served_in_turn hstart
  -- the requests fall into those that are passed on and those that come too late
  have hserved : (Exchange.asks traffic).filter Ask.served =
      ((Exchange.asks traffic).take budget).filter Ask.able := by
    have hlater : ((Exchange.asks traffic).drop budget).filter Ask.served = [] :=
      List.filter_eq_nil_iff.mpr fun ask hmem => by
        simp [Ask.served, hbeyond ask hmem, Except.isOk, Except.toBool]
    conv => lhs; rw [← List.take_append_drop budget (Exchange.asks traffic), List.filter_append]
    rw [hlater, List.append_nil]
    exact List.filter_congr hwithin
  refine { served := hserved, beyond := hbeyond, first := fun hable => ?_, left := ⟨after, hafter⟩,
           spent := fun hle request => ?_ }
  · -- what is passed on comes first among what is possible, and fills the budget if there is more
    have hpassed := List.filter_eq_self.mpr hable
    rw [hserved, hpassed]
    conv => rhs; rw [← List.take_append_drop budget (Exchange.asks traffic), List.filter_append]
    rw [hpassed]
    rcases Nat.le_total budget (Exchange.asks traffic).length with hle | hle
    · rw [List.take_append_of_le_length (by rw [List.length_take]; omega), List.take_take,
        Nat.min_self]
    · rw [List.drop_of_length_le hle, List.filter_nil, List.append_nil, List.take_take,
        Nat.min_self]
  · rw [Nat.sub_eq_zero_of_le hle] at hafter
    obtain ⟨w₁, hrefused, hkept⟩ := request_beyond hafter request
    exact ⟨w₁, hrefused, hkept.trans hafter.symm⟩

/-- A world with an allocator that has a budget. -/
def budgetWorld (budget : Nat) : World :=
  { heap := Session.roomyHeap, allocators := [.failing budget {}] }

/-- More requests than a budget of two allows, and a buffer that comes back in between. -/
def greedyApproaches : List Approach :=
  [.ask (.malloc 8), .giveBack (strayBuffer 1 8), .ask (.calloc 16), .ask (.memalign 64 4),
    .ask (.malloc 1)]

theorem Traffic.rations_greedyApproaches :
    (budgetWorld 2).allocator ⟨0⟩ = .failing 2 {} ∧
      ((budgetWorld 2).transact ⟨0⟩ greedyApproaches).2.Rations ⟨0⟩ 2
        ((budgetWorld 2).transact ⟨0⟩ greedyApproaches).1 ∧
      (Exchange.asks ((budgetWorld 2).transact ⟨0⟩ greedyApproaches).1).map Ask.served =
        [true, true, false, false] ∧
      (Exchange.asks ((budgetWorld 2).transact ⟨0⟩ greedyApproaches).1).all Ask.able :=
  ⟨rfl, Traffic.rations (transact_traffic (budgetWorld 2) ⟨0⟩ greedyApproaches) rfl,
    by decide +kernel, by decide +kernel⟩

/-- **A budget may be wasted.** A request for an alignment that is not a power of two has no layout,
uses up a budget of one, and the next request goes without, though the heap has the memory. -/
theorem not_first_of_misaligned :
    ¬ ∀ (w w' : World) (id : AllocatorId) (budget : Nat) (ledger : Ledger)
      (traffic : List Exchange), w.allocator id = .failing budget ledger → Traffic id w traffic w' →
        (Exchange.asks traffic).filter Ask.served =
          ((Exchange.asks traffic).filter Ask.able).take budget := by
  intro hfirst
  have htraffic := transact_traffic (budgetWorld 1) ⟨0⟩ [.ask (.memalign 3 8), .ask (.malloc 8)]
  have hcounts := congrArg List.length (hfirst _ _ ⟨0⟩ 1 {} _ rfl htraffic)
  revert hcounts
  decide +kernel

end World

end RegionPool
