import RegionPool.Proofs.Marks

/-!
# Giving back in reverse order

The region claimed last ends where the free bytes of its block start, and giving it back puts the
cursor where the region starts. So a series of regions can be given back again, the last one first.
But the cursor then stands where a region started, and not where the one before it ended: if padding
was skipped between the two, the earlier one does not end at the cursor. It is not given back, and
neither is any region of the series before it in the same block.

A region of the series is therefore given back in its turn if and only if those that were claimed
after it in its block follow it without a gap. The proof goes by induction on the series, one claim
and its return around all the others. What it carries is `Recoils`: the cursor of a block is never
before where it was, and is there again exactly if the regions of the block followed one another from
there on.

* `Gapless`, `Region.answers` — regions without padding between them, and who is given back;
* `Lays`, `Laid` — where requests are put, told from the marks of the blocks;
* `Recoils` — what is left of the regions once they were given back;
* `Session.run_retraces` — in every pool of every history;
* `Session.not_always_given_back` — where padding comes between two regions, the first one stays.
-/

namespace RegionPool

open PoolM

/-! ### Regions without gaps -/

/-- The block a region lies in. -/
def Region.block? (region : Region) : Option Nat :=
  match region.place with
  | .block index _ => some index
  | .large _ => none

/-- The offset behind the last byte of a region. -/
def Region.stop (region : Region) : Nat := region.place.offset + region.length

/-- **Without a gap**: the first region starts at this offset, and every other one where the one
before it ends. -/
def Gapless : Nat → List Region → Prop
  | _, [] => True
  | stop, region :: later => region.place.offset = stop ∧ Gapless region.stop later

instance decidableGapless : (stop : Nat) → (regions : List Region) → Decidable (Gapless stop regions)
  | _, [] => isTrue trivial
  | stop, region :: later =>
    have : Decidable (Gapless region.stop later) := decidableGapless region.stop later
    inferInstanceAs (Decidable (region.place.offset = stop ∧ Gapless region.stop later))

/-- The regions that lie in a block, in order. -/
def inBlock (index : Nat) (regions : List Region) : List Region :=
  regions.filter fun region => region.block? = some index

/-- **Who is given back** if regions are given back in reverse order, told in the order in which they
were claimed: those that the later ones of their block follow without a gap. -/
def Region.answers : List Region → List Bool
  | [] => []
  | region :: later =>
    decide (Gapless region.stop (later.filter fun other => other.block? = region.block?)) ::
      answers later

section InBlock

variable {region : Region} {later : List Region} {index other : Nat}

theorem Region.block?_of_place (place : region.place = .block index region.place.offset) :
    region.block? = some index := by
  unfold block?
  rw [place]

theorem inBlock_cons_self (place : region.place = .block index region.place.offset) :
    inBlock index (region :: later) = region :: inBlock index later := by
  unfold inBlock
  rw [List.filter_cons, if_pos (decide_eq_true (Region.block?_of_place place))]

theorem inBlock_cons_of_ne (place : region.place = .block index region.place.offset)
    (h : other ≠ index) : inBlock other (region :: later) = inBlock other later := by
  have hblock : ¬ decide (region.block? = some other) = true := by
    rw [Region.block?_of_place place, decide_eq_true_iff]
    exact fun heq => h (Option.some.inj heq).symm
  unfold inBlock
  rw [List.filter_cons, if_neg hblock]

theorem Region.answers_cons (place : region.place = .block index region.place.offset) :
    answers (region :: later) =
      decide (Gapless region.stop (inBlock index later)) :: answers later := by
  have hfellows : (later.filter fun other => other.block? = region.block?) =
      inBlock index later := by
    rw [block?_of_place place]
    rfl
  rw [answers, hfellows]

end InBlock

/-! ### Where requests are put -/

/-- The spot of a request behind a cursor. -/
def Packing.spot (cursor : Nat) : Packing → Nat
  | .aligned => (cursor + 7) / 8 * 8
  | .packed => cursor

theorem Packing.le_spot (cursor : Nat) (packing : Packing) : cursor ≤ packing.spot cursor := by
  cases packing with
  | aligned =>
    change cursor ≤ (cursor + 7) / 8 * 8
    omega
  | packed => exact Nat.le_refl _

/-- **A request is put in a block**: at its spot, or behind the header if the block is new. Only the
cursor of this block moves. -/
structure Lays (before : List Mark) (packing : Packing) (size : Nat) (region : Region)
    (after : List Mark) (index : Nat) : Prop where
  place : region.place = .block index region.place.offset
  length : region.length = size
  spot : ∀ mark, before[index]? = some mark → region.place.offset = packing.spot mark.cursor
  header : before[index]? = none → region.place.offset = Layout.blockHeaderSize
  stop : ∃ mark, after[index]? = some mark ∧ mark.cursor = region.stop
  others : ∀ (other : Nat) (mark : Mark), other ≠ index → before[other]? = some mark →
    after[other]? = some mark

/-- **Requests are put in blocks**, one after the other. -/
inductive Laid : List Mark → List (Packing × Nat) → List Region → List Mark → Prop
  | nil (marks : List Mark) : Laid marks [] [] marks
  | cons {before middle after packing size requests region later index}
      (lays : Lays before packing size region middle index)
      (laid : Laid middle requests later after) :
      Laid before ((packing, size) :: requests) (region :: later) after

/-- **What is placed** is put in a block. -/
theorem PoolState.Placed.lays {s t : PoolState} {packing : Packing} {size : Nat} {region : Region}
    (h : s.Placed packing size region t) :
    ∃ index, Lays s.pool.marks packing size region t.pool.marks index := by
  cases h with
  | @fitted index block first get =>
    let moved : Block := { block with cursor := block.spot packing + size }
    have hmark := Pool.getElem?_marks get
    have marks : { s.pool with chain := s.pool.chain.setBlock index moved }.marks =
        s.pool.marks.set index moved.mark := Pool.marks_setBlock _ _ _
    -- the block is there already, and only its mark is replaced
    refine ⟨index, rfl, rfl, fun mark hget => ?_, fun hnone => ?_, ⟨moved.mark, ?_, rfl⟩,
      fun other mark hne hget => ?_⟩
    · obtain rfl := Option.some.inj (hmark.symm.trans hget)
      cases packing <;> rfl
    · rw [hmark] at hnone
      cases hnone
    · rw [marks]
      exact List.getElem?_set_self (List.getElem?_eq_some_iff.mp hmark).1
    · rw [marks, List.getElem?_set_ne (Ne.symm hne)]
      exact hget
  | appended full appends =>
    have hcount : s.pool.marks.length = s.pool.blockCount := s.pool.length_marks
    have hnone : s.pool.marks[s.pool.blockCount]? = none := by
      rw [← hcount]
      exact List.getElem?_eq_none (Nat.le_refl _)
    -- the block is new, so there was no mark of it before
    refine ⟨s.pool.blockCount, rfl, rfl, fun mark hget => ?_, fun _ => rfl,
      ⟨⟨Layout.blockHeaderSize, Layout.blockHeaderSize + size⟩, ?_, rfl⟩,
      fun other mark _ hget => ?_⟩
    · rw [hnone] at hget
      cases hget
    · rw [appends.marks, ← hcount]
      exact List.getElem?_concat_length
    · rw [appends.marks]
      exact (List.getElem?_append_left (List.getElem?_eq_some_iff.mp hget).1).trans hget

/-! ### Requests that need no padding -/

/-- **Requests are steady** for offsets of a kind: at such an offset none of them needs padding, and
where one of them ends there is such an offset again. -/
structure Steady (good : Nat → Prop) (requests : List (Packing × Nat)) : Prop where
  spot : ∀ packing size cursor, (packing, size) ∈ requests → good cursor →
    packing.spot cursor = cursor
  stop : ∀ packing size cursor, (packing, size) ∈ requests → good (packing.spot cursor + size)

namespace Steady

variable {good : Nat → Prop} {requests : List (Packing × Nat)} {request : Packing × Nat}

theorem tail (h : Steady good (request :: requests)) : Steady good requests where
  spot packing size cursor hmem := h.spot packing size cursor (List.mem_cons_of_mem _ hmem)
  stop packing size cursor hmem := h.stop packing size cursor (List.mem_cons_of_mem _ hmem)

/-- Unaligned requests need no padding anywhere. -/
theorem packed (h : ∀ request ∈ requests, request.1 = .packed) :
    Steady (fun _ => True) requests where
  spot packing size cursor hmem _ := by
    obtain rfl : packing = .packed := h _ hmem
    rfl
  stop _ _ _ _ := trivial

/-- Requests for whole words need none behind one another. -/
theorem words (h : ∀ request ∈ requests, request.1 = .aligned ∧ 8 ∣ request.2) :
    Steady (8 ∣ ·) requests where
  spot packing size cursor hmem hgood := by
    obtain rfl : packing = .aligned := (h _ hmem).1
    change (cursor + 7) / 8 * 8 = cursor
    omega
  stop packing size cursor hmem := by
    obtain ⟨rfl, hsize⟩ : packing = .aligned ∧ 8 ∣ size := h _ hmem
    exact Nat.dvd_add (Nat.dvd_mul_left 8 _) hsize

end Steady

/-- Where a steady request ends there is a good offset. -/
theorem Lays.good {good : Nat → Prop} {requests : List (Packing × Nat)} {before after : List Mark}
    {packing : Packing} {size index : Nat} {region : Region}
    (lays : Lays before packing size region after index)
    (steady : Steady good ((packing, size) :: requests)) : good region.stop := by
  have hstop := fun cursor => steady.stop packing size cursor List.mem_cons_self
  unfold Region.stop
  rw [lays.length]
  cases hbefore : before[index]? with
  | some mark =>
    rw [lays.spot mark hbefore]
    exact hstop mark.cursor
  | none =>
    rw [lays.header hbefore]
    -- a header ends at a word boundary, so nothing is skipped there
    have hheader : packing.spot Layout.blockHeaderSize = Layout.blockHeaderSize := by
      cases packing <;> rfl
    exact hheader ▸ hstop Layout.blockHeaderSize

/-- **Steady requests leave no gaps**, so all their regions are given back. -/
theorem Laid.gapless {good : Nat → Prop} {requests : List (Packing × Nat)}
    {before after : List Mark} {claimed : List Region} (laid : Laid before requests claimed after)
    (steady : Steady good requests) :
    (∀ answer ∈ Region.answers claimed, answer = true) ∧
      ∀ (index : Nat) (mark : Mark), before[index]? = some mark → good mark.cursor →
        Gapless mark.cursor (inBlock index claimed) := by
  induction laid with
  | nil marks => exact ⟨fun _ hmem => (List.not_mem_nil hmem).elim, fun _ _ _ _ => trivial⟩
  | @cons before middle after packing size requests region later index lays laid ih =>
    obtain ⟨hanswers, hgapless⟩ := ih steady.tail
    obtain ⟨moved, hmoved, hcursor⟩ := lays.stop
    have hfollow : Gapless region.stop (inBlock index later) := by
      rw [← hcursor]
      exact hgapless index moved hmoved (hcursor ▸ lays.good steady)
    constructor
    · rw [Region.answers_cons lays.place]
      exact List.forall_mem_cons.mpr ⟨decide_eq_true hfollow, hanswers⟩
    · intro other mark get hgood
      by_cases hother : other = index
      · -- the first region starts where the cursor was, for no padding was needed
        subst hother
        have hspot := steady.spot packing size mark.cursor List.mem_cons_self hgood
        rw [inBlock_cons_self lays.place]
        exact ⟨(lays.spot mark get).trans hspot, hfollow⟩
      · rw [inBlock_cons_of_ne lays.place hother]
        exact hgapless other mark (lays.others other mark hother get) hgood

/-! ### Cursors that recoil -/

/-- **Cursors recoil** when regions are given back in reverse order: none of them is before where it
was, and it is there again exactly if the regions of the block follow one another from there on. -/
def Recoils (before after : List Mark) (claimed : List Region) : Prop :=
  ∀ (index : Nat) (mark : Mark), before[index]? = some mark →
    ∃ now : Mark, after[index]? = some now ∧ mark.cursor ≤ now.cursor ∧
      (now.cursor = mark.cursor ↔ Gapless mark.cursor (inBlock index claimed))

namespace Recoils

variable {before middle after : List Mark} {packing : Packing} {size index : Nat} {region : Region}
  {later : List Region}

theorem refl (marks : List Mark) : Recoils marks marks [] :=
  fun _ mark get => ⟨mark, get, Nat.le_refl _, iff_of_true rfl trivial⟩

/-- **One claim and its return** around all the others. -/
theorem cons (recoils : Recoils middle after later)
    (lays : Lays before packing size region middle index) : ∃ now,
    after[index]? = some now ∧
      (now.cursor = region.stop ↔ Gapless region.stop (inBlock index later)) ∧
      Recoils before (if now.cursor = region.stop then region.retract after else after)
        (region :: later) := by
  obtain ⟨moved, hmoved, hcursor⟩ := lays.stop
  obtain ⟨now, hnow, hle, hiff⟩ := recoils index moved hmoved
  rw [hcursor] at hle hiff
  refine ⟨now, hnow, hiff, fun other mark get => ?_⟩
  by_cases hother : other = index
  · subst hother
    have hspot : mark.cursor ≤ region.place.offset := by
      rw [lays.spot mark get]
      exact packing.le_spot mark.cursor
    have hstop : region.place.offset ≤ region.stop := Nat.le_add_right _ _
    rw [inBlock_cons_self lays.place]
    split
    · next heq =>
      -- the cursor goes back to where the region started
      refine ⟨{ now with cursor := region.place.offset }, ?_, hspot, ?_⟩
      · rw [Region.getElem?_retract lays.place, hnow, Option.map_some, if_pos rfl]
      · exact ⟨fun h => ⟨h, hiff.mp heq⟩, fun h => h.1⟩
    · next hne =>
      -- it stays behind the region, and what comes after the region has a gap
      refine ⟨now, hnow, by omega, iff_of_false (by omega) ?_⟩
      exact fun h => hne (hiff.mpr h.2)
  · obtain ⟨same, hsame, hle', hiff'⟩ := recoils other mark (lays.others other mark hother get)
    rw [inBlock_cons_of_ne lays.place hother]
    refine ⟨same, ?_, hle', hiff'⟩
    split
    · rw [Region.getElem?_retract lays.place, hsame, Option.map_some, if_neg (Ne.symm hother)]
    · exact hsame

end Recoils

/-- **A region is given back** if it ends at the cursor of its block, and if not nothing happens. -/
theorem Pool.Owns.exists_reclaim_iff {pool : Pool} {region : Region} {index : Nat} {mark : Mark}
    (owns : pool.Owns region) (place : region.place = .block index region.place.offset)
    (get : pool.marks[index]? = some mark) :
    ∃ after, pool.reclaim region = .ok (decide (mark.cursor = region.stop), after) ∧
      after.id = pool.id ∧ after.generation = pool.generation ∧
      after.marks = if mark.cursor = region.stop then region.retract pool.marks else pool.marks := by
  -- the cursor is compared with the end of the region, and with nothing else
  by_cases hstop : mark.cursor = region.stop
  · rw [decide_eq_true hstop, if_pos hstop]
    exact owns.exists_reclaim ⟨index, mark, place, get, hstop.symm⟩
  -- elsewhere the answer is false, and the pool is the same
  · rw [decide_eq_false hstop, if_neg hstop]
    obtain ⟨block, hblock, rfl⟩ := getElem?_marks_eq_some_iff.mp get
    have hstays : block.reclaim? region.place.offset (region.place.offset + region.length) = none :=
      if_neg fun heq => hstop heq.symm
    refine ⟨pool, bind_eq_ok_iff.mpr ⟨_, owns.resolved place, ?_⟩, rfl, rfl, rfl⟩
    simp only [hblock, hstays]
    rfl

/-! ### In every history -/

namespace Session

/-- **Claim** regions from the pool in a slot, one after the other. -/
def claims (slot : Nat) (requests : List (Packing × Nat)) : List Command :=
  requests.map fun (packing, size) => packing.command slot size

/-- **Give regions back** to the pool in a slot, the last one first. -/
def returns (slot first count : Nat) : List Command :=
  (List.range' first count).reverse.map (.reclaim slot)

/-- The replies to giving regions back in reverse order, once all were claimed. -/
def giveBack (s : Session) (slot : Nat) (requests : List (Packing × Nat)) : List Reply × Session :=
  (s.run (claims slot requests)).2.run (returns slot s.regions.length requests.length)

variable {s u : Session} {slot index size : Nat} {packing : Packing} {pool after : Pool}
  {region : Region} {requests : List (Packing × Nat)} {claimed : List Region}

/-- The first claim comes before all the others. -/
theorem run_claims_cons (exec : (s.exec (packing.command slot size)).2 = u) :
    s.run (claims slot ((packing, size) :: requests)) =
      ((s.exec (packing.command slot size)).1 :: (u.run (claims slot requests)).1,
        (u.run (claims slot requests)).2) := by
  rw [← exec]
  rfl

/-- The first claim and its return are around all the others. -/
theorem giveBack_cons (exec : (s.exec (packing.command slot size)).2 = u)
    (regions : u.regions.length = s.regions.length + 1) :
    s.giveBack slot ((packing, size) :: requests) =
      ((u.giveBack slot requests).1 ++
          [((u.giveBack slot requests).2.exec (.reclaim slot s.regions.length)).1],
        ((u.giveBack slot requests).2.exec (.reclaim slot s.regions.length)).2) := by
  -- the numbers are given back from the last one down, so the first one comes last
  have hreturns : returns slot s.regions.length (requests.length + 1) =
      returns slot u.regions.length requests.length ++ [.reclaim slot s.regions.length] := by
    unfold returns
    rw [regions, List.range'_succ, List.reverse_cons, List.map_append]
    rfl
  unfold giveBack
  rw [run_claims_cons exec, List.length_cons, hreturns, run_append]
  rfl

/-- A region is given back to its pool. -/
theorem exec_reclaim {done : Bool} (here : s.pool? slot = some pool)
    (held : s.region? index = some region) (run : pool.reclaim region = .ok (done, after)) :
    s.exec (.reclaim slot index) = (.flag done, s.settle slot ⟨after, s.world⟩) := by
  change s.withFound (s.region? index) _ = _
  rw [held]
  change s.perform slot (onPool (·.reclaim region)) _ = _
  unfold perform
  rw [here]
  simp only [withFound, onPool, run]

/-- **What becomes of a series of regions** that is claimed and given back in reverse order. -/
structure Retraced (s : Session) (slot : Nat) (pool : Pool) (requests : List (Packing × Nat))
    (claimed : List Region) : Prop where
  held : (s.run (claims slot requests)).2.regions = s.regions ++ claimed
  kept : (s.giveBack slot requests).2.regions = s.regions ++ claimed
  replies : (s.giveBack slot requests).1 = ((Region.answers claimed).map .flag).reverse
  laid : ∃ marks, Laid pool.marks requests claimed marks
  recoils : ∃ after, (s.giveBack slot requests).2.pool? slot = some after ∧ after.id = pool.id ∧
    after.generation = pool.generation ∧ Recoils pool.marks after.marks claimed

/-- **Whatever is claimed and given back in reverse order.** -/
theorem exists_retraced (here : s.pool? slot = some pool) (fit : PoolState.Fit ⟨pool, s.world⟩)
    (regular : pool.Regular) (small : ∀ request ∈ requests, request.2 ≤ pool.max)
    (served : ∀ reply ∈ (s.run (claims slot requests)).1, ∃ index, reply = .region index) :
    ∃ claimed, s.Retraced slot pool requests claimed := by
  -- the cursors recoil around the series that starts with the second claim
  induction requests generalizing s pool with
  | nil =>
    exact ⟨[], (List.append_nil _).symm, (List.append_nil _).symm, rfl, ⟨_, .nil _⟩,
      ⟨pool, here, rfl, rfl, .refl _⟩⟩
  | cons request requests ih =>
    obtain ⟨packing, size⟩ := request
    obtain ⟨hsize, hsmall⟩ := List.forall_mem_cons.mp small
    obtain ⟨index, hclaimed⟩ := served (s.exec (packing.command slot size)).1 List.mem_cons_self
    obtain ⟨region, t, run, hexec⟩ := exec_claimed here hclaimed
    obtain ⟨calls, supplied, -⟩ := (Pool.allocWith_ends fit).ok_of run
    have placed : PoolState.Placed ⟨pool, s.world⟩ packing size region t :=
      (Pool.allocSmall_placed regular).ok_of ((Pool.allocWith_of_le hsize).symm.trans run)
    obtain ⟨block, lays⟩ := placed.lays
    -- what the others find is the pool after the first claim
    have traits := supplied.spares.traits
    let u : Session := { s.settle slot t with regions := s.regions ++ [region] }
    have hexec : (s.exec (packing.command slot size)).2 = u := hexec
    rw [run_claims_cons hexec] at served
    have there : u.pool? slot = some t.pool := pool?_settle_self here t
    have hlength : u.regions.length = s.regions.length + 1 := List.length_append
    obtain ⟨later, retraced⟩ := ih there supplied.spares.fit
      (placed.regular regular supplied.spares.fit)
      (fun request hmem => Nat.le_trans (hsmall request hmem) (Nat.le_of_eq traits.max.symm))
      (List.forall_mem_cons.mp served).2
    -- what they leave is the pool that the first region is given back to
    obtain ⟨after, hafter, hid, hgeneration, recoils⟩ := retraced.recoils
    obtain ⟨now, hnow, hiff, hrecoils⟩ := recoils.cons lays
    have owns : after.Owns region :=
      ⟨supplied.houses.owner.trans hid.symm, supplied.houses.generation.trans hgeneration.symm⟩
    obtain ⟨last, hreclaim, hid', hgeneration', hmarks⟩ := owns.exists_reclaim_iff lays.place hnow
    have hassoc : u.regions ++ later = s.regions ++ region :: later := List.append_assoc ..
    have held : (u.giveBack slot requests).2.region? s.regions.length = some region := by
      unfold region?
      rw [retraced.kept, hassoc, List.getElem?_append_right (Nat.le_refl _), Nat.sub_self]
      rfl
    have hback := exec_reclaim hafter held hreclaim
    have hcons : s.giveBack slot ((packing, size) :: requests) = _ := giveBack_cons hexec hlength
    rw [hback] at hcons
    obtain ⟨marks, laid⟩ := retraced.laid
    refine ⟨region :: later, ?_, ?_, ?_, ⟨marks, .cons lays laid⟩,
      ⟨last, ?_, hid'.trans (hid.trans traits.id),
        hgeneration'.trans (hgeneration.trans traits.generation), ?_⟩⟩
    · rw [run_claims_cons hexec]
      exact retraced.held.trans hassoc
    · rw [hcons]
      exact retraced.kept.trans hassoc
    · rw [hcons, retraced.replies, Region.answers_cons lays.place, List.map_cons,
        List.reverse_cons, decide_eq_decide.mpr hiff]
    · rw [hcons]
      exact pool?_settle_self hafter _
    · rw [hmarks]
      exact hrecoils

/-- **Giving back in reverse order**: in its turn a region is given back if and only if the regions
that were claimed after it in its block follow it without a gap. So all of them are, if no request
was an aligned one, or if each was one for whole words. -/
structure Retraces (s : Session) (slot : Nat) (requests : List (Packing × Nat))
    (claimed : List Region) : Prop where
  held : (s.run (claims slot requests)).2.regions = s.regions ++ claimed
  replies : (s.giveBack slot requests).1 = ((Region.answers claimed).map .flag).reverse
  packed : (∀ request ∈ requests, request.1 = .packed) →
    ∀ reply ∈ (s.giveBack slot requests).1, reply = .flag true
  words : (∀ request ∈ requests, request.1 = .aligned ∧ 8 ∣ request.2) →
    ∀ reply ∈ (s.giveBack slot requests).1, reply = .flag true

/-- What needs no padding is given back. -/
theorem Retraced.flag_true {good : Nat → Prop} (retraced : s.Retraced slot pool requests claimed)
    (steady : Steady good requests) :
    ∀ reply ∈ (s.giveBack slot requests).1, reply = .flag true := by
  intro reply hmem
  obtain ⟨marks, laid⟩ := retraced.laid
  rw [retraced.replies, List.mem_reverse] at hmem
  obtain ⟨answer, hanswer, rfl⟩ := List.mem_map.mp hmem
  rw [(laid.gapless steady).1 answer hanswer]

/-- **Giving back in reverse order**, in every pool of every history: whatever requests up to the
threshold are served one after the other, aligned or not. -/
theorem run_retraces {heap : Heap} {history : List Command}
    (here : ((Session.ofHeap heap).run history).2.pool? slot = some pool)
    (small : ∀ request ∈ requests, request.2 ≤ pool.max)
    (served : ∀ reply ∈ (((Session.ofHeap heap).run history).2.run (claims slot requests)).1,
      ∃ index, reply = .region index) :
    ∃ claimed, ((Session.ofHeap heap).run history).2.Retraces slot requests claimed := by
  have vouched : ((Session.ofHeap heap).run history).2.Vouched := (Vouched.ofHeap heap).run
  have regular : pool.Regular :=
    ((Measured.ofHeap heap).run (.ofHeap heap)).regular vouched here
  obtain ⟨claimed, retraced⟩ :=
    exists_retraced here (vouched.fit slot pool here) regular small served
  exact ⟨claimed, retraced.held, retraced.replies,
    -- if all is packed, or all are whole words, no padding comes in between
    fun h => retraced.flag_true (.packed h), fun h => retraced.flag_true (.words h)⟩

/-- Requests of both kinds, over two blocks, with a gap in the first one. -/
def mixedRequests : List (Packing × Nat) :=
  [(.packed, 5), (.packed, 60), (.aligned, 100), (.packed, 6), (.aligned, 0), (.packed, 1)]

/-- The three regions before the gap are not given back, the one in the other block is. -/
theorem run_retraces_mixedRequests :
    (((Session.ofHeap roomyHeap).run [.createPool { size := 251 } none]).2.giveBack 0
        mixedRequests).1 =
      [.flag true, .flag true, .flag false, .flag true, .flag false, .flag false] ∧
    ∃ claimed, ((Session.ofHeap roomyHeap).run [.createPool { size := 251 } none]).2.Retraces 0
      mixedRequests claimed := by
  have present : (((Session.ofHeap roomyHeap).run [.createPool { size := 251 } none]).2.pool?
      0).isSome := by decide +kernel
  obtain ⟨pool, here⟩ := Option.isSome_iff_exists.mp present
  have threshold : ∀ pool ∈
      ((Session.ofHeap roomyHeap).run [.createPool { size := 251 } none]).2.pool? 0,
      ∀ request ∈ mixedRequests, request.2 ≤ pool.max := by decide +kernel
  have hreplies : (((Session.ofHeap roomyHeap).run [.createPool { size := 251 } none]).2.run
      (claims 0 mixedRequests)).1 = (List.range 6).map .region := by decide +kernel
  -- all six requests are served, so the hypothesis on the replies holds
  refine ⟨by decide +kernel, run_retraces here (threshold pool here) fun reply hmem => ?_⟩
  rw [hreplies] at hmem
  obtain ⟨index, -, rfl⟩ := List.mem_map.mp hmem
  exact ⟨index, rfl⟩

/-- **Not everything is given back**: behind a region of three bytes an aligned one starts at the
next word, and the bytes in between stay claimed. -/
theorem not_always_given_back : ¬ ∀ (heap : Heap) (history : List Command) (slot : Nat)
    (pool : Pool) (requests : List (Packing × Nat)),
    ((Session.ofHeap heap).run history).2.pool? slot = some pool →
    (∀ request ∈ requests, request.2 ≤ pool.max) →
    (∀ reply ∈ (((Session.ofHeap heap).run history).2.run (claims slot requests)).1,
      ∃ index, reply = .region index) →
    ∀ reply ∈ (((Session.ofHeap heap).run history).2.giveBack slot requests).1,
      reply = .flag true := by
  intro always
  -- three bytes and then eight: five bytes of padding are left between them
  let s : Session := ((Session.ofHeap roomyHeap).run [.createPool {} none]).2
  have present : (s.pool? 0).isSome := by decide +kernel
  obtain ⟨pool, here⟩ := Option.isSome_iff_exists.mp present
  have threshold : ∀ pool ∈ s.pool? 0, ∀ request ∈ [(Packing.aligned, 3), (.aligned, 8)],
      request.2 ≤ pool.max := by decide +kernel
  have hclaims : (s.run (claims 0 [(.aligned, 3), (.aligned, 8)])).1 =
      [.region 0, .region 1] := by decide +kernel
  have hback : (s.giveBack 0 [(.aligned, 3), (.aligned, 8)]).1 = [.flag true, .flag false] := by
    decide +kernel
  have hfalse : Reply.flag false = .flag true := by
    refine always roomyHeap [.createPool {} none] 0 pool [(.aligned, 3), (.aligned, 8)] here
      (threshold pool here) (fun reply hmem => ?_) (.flag false) ?_
    · change reply ∈ (s.run (claims 0 [(.aligned, 3), (.aligned, 8)])).1 at hmem
      rw [hclaims] at hmem
      simp only [List.mem_cons, List.not_mem_nil, or_false] at hmem
      rcases hmem with rfl | rfl <;> exact ⟨_, rfl⟩
    · change Reply.flag false ∈ (s.giveBack 0 [(.aligned, 3), (.aligned, 8)]).1
      rw [hback]
      exact List.mem_cons_of_mem _ List.mem_cons_self
  cases hfalse

end Session

end RegionPool
