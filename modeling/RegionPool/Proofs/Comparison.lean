import RegionPool.Proofs.Action
import RegionPool.Proofs.Origins
import RegionPool.Proofs.Repetition

/-!
# Two pools that do the same

The same action on two pools that differ in names only has the same result, in their names, and
leaves them different in names only. This holds as long as their raw allocators give the same
answers. Where they do not, nothing is said about what comes of it.

An answer that was given is never taken back. So it is enough to compare the answers at the end: if
they agree there, they agreed after every part of the action.

* `Remembers` — an action that takes nothing back of what was told;
* `Paired` — two actions on two pools end in the same way if the answers they got agree;
* `Paired.bind`, `Paired.request` and their like — pairs of actions are put together from pairs of
  their parts;
* `Twins.alloc`, `Twins.free`, `Twins.reset` and their like — the operations of a pool.
-/

namespace RegionPool

open PoolM

variable {α β γ δ : Type}

/-! ### What was told is not taken back -/

namespace PoolM

/-- The state in which an action leaves a pool and its world, however it ends. -/
def finish (action : PoolM α) (s : PoolState) : PoolState :=
  match action s with
  | .ok _ t => t
  | .error _ t => t

section Finish

variable {action : PoolM α} {next : α → PoolM β} {s t : PoolState} {a : α} {failure : Failure}

theorem finish_of_ok (h : action s = .ok a t) : finish action s = t := by
  rw [finish, h]

theorem finish_of_error (h : action s = .error failure t) : finish action s = t := by
  rw [finish, h]

theorem finish_bind_of_ok (h : action s = .ok a t) :
    finish (action >>= next) s = finish (next a) t := by
  rw [finish, bind_of_ok h, ← finish]

theorem finish_bind_of_error (h : action s = .error failure t) :
    finish (action >>= next) s = t :=
  finish_of_error (bind_of_error h)

end Finish

/-- **An action takes nothing back** of what was told. -/
def Remembers (action : PoolM α) : Prop :=
  ∀ s, s.world.events <+: (finish action s).world.events

namespace Remembers

variable {action : PoolM α} {next : α → PoolM β}

/-- An action that leaves the world alone. -/
theorem of_world (h : ∀ s, (finish action s).world = s.world) : Remembers action := fun s => by
  rw [h s]

theorem pure {a : α} : Remembers (pure a : PoolM α) := of_world fun _ => rfl

theorem refuse {error : PoolError} : Remembers (refuse error : PoolM α) := of_world fun _ => rfl

theorem getPool : Remembers getPool := of_world fun _ => rfl

theorem setPool {pool : Pool} : Remembers (setPool pool) := of_world fun _ => rfl

theorem onPool {f : Pool → Except Failure (α × Pool)} : Remembers (onPool f) := by
  refine of_world fun s => ?_
  rw [finish, PoolM.onPool]
  rcases f s.pool with _ | ⟨a, pool⟩ <;> rfl

theorem log {entry : LogEntry} : Remembers (log entry) := fun _ => List.prefix_append _ _

/-- **A request** is told, whatever comes of it. -/
theorem request {request : Request} : Remembers (PoolM.request request) := by
  intro s
  rw [finish, PoolM.request]
  rcases hcall : s.world.request s.pool.allocator request with ⟨_ | _, world⟩
  · exact (World.Calm.request hcall).events
  · exact (World.Calm.request hcall).events

theorem release {buffer : Buffer} : Remembers (release buffer) := by
  intro s
  rw [finish, PoolM.release]
  rcases hcall : s.world.release s.pool.allocator buffer with ⟨_ | _, world⟩
  · exact (World.Calm.release hcall).events
  · exact (World.Calm.release hcall).events

/-- What was told after the first part of an action is still told at the end. -/
theorem finish_bind (hnext : ∀ a, Remembers (next a)) (s : PoolState) :
    (finish action s).world.events <+: (finish (action >>= next) s).world.events := by
  cases run : action s with
  | ok a t =>
    rw [finish_of_ok run, finish_bind_of_ok run]
    exact hnext a t
  | error failure t => rw [finish_of_error run, finish_bind_of_error run]

/-- **Actions one after the other.** -/
theorem bind (h : Remembers action) (hnext : ∀ a, Remembers (next a)) :
    Remembers (action >>= next) := fun s =>
  (h s).trans (finish_bind hnext s)

/-- What a result is made into is not told. -/
theorem map {f : α → β} (h : Remembers action) : Remembers (f <$> action) :=
  h.bind fun _ => pure

theorem discard (h : Remembers action) : Remembers (discard action) := h.map

theorem forM {ε : Type} {entries : List ε} {body : ε → PoolM Unit}
    (h : ∀ entry, Remembers (body entry)) : Remembers (entries.forM body) := by
  induction entries with
  | nil => exact pure
  | cons entry entries ih => exact (h entry).bind fun _ => ih

/-- Giving a buffer back after a refusal is told in addition. -/
theorem finish_orRelease {buffer : Buffer} (s : PoolState) :
    (finish action s).world.events <+: (finish (PoolM.orRelease buffer action) s).world.events := by
  cases run : action s with
  | ok a t =>
    have hrun : PoolM.orRelease buffer action s = .ok a t := by simp only [PoolM.orRelease, run]
    rw [finish_of_ok run, finish_of_ok hrun]
  | error failure t =>
    rw [finish_of_error run]
    cases failure with
    | refused error =>
      -- what is done after a refusal only adds to what was told until then
      have hrun : PoolM.orRelease buffer action s =
          (do PoolM.release buffer; PoolM.refuse error : PoolM α) t := by
        simp only [PoolM.orRelease, run]
      have hlast : Remembers (do PoolM.release buffer; PoolM.refuse error : PoolM α) :=
        release.bind fun _ => refuse
      rw [finish, hrun, ← finish]
      exact hlast t
    | fault fault =>
      have hrun : PoolM.orRelease buffer action s = .error (.fault fault) t := by
        simp only [PoolM.orRelease, run]
      rw [finish_of_error hrun]

theorem orRelease {buffer : Buffer} (h : Remembers action) : Remembers (orRelease buffer action) :=
  fun s => (h s).trans (finish_orRelease s)

end Remembers

end PoolM

/-! ### Reasons for a refusal -/

namespace World

variable {w w' : World} {id : AllocatorId} {request : Request} {error : AllocError}

/-- The reason that is given, unless there is no layout and any other reason would do. -/
private theorem normal_of_newBuffer {size align : Nat}
    (h : w.newBuffer size align = (.error error, w')) :
    error.normal = AllocError.normal (.outOfMemory size align) := by
  unfold newBuffer at h
  split at h
  · dsimp only at h
    split at h
    · obtain ⟨rfl, -⟩ := h
      rfl
    · cases h
  -- there is no layout, and both reasons are normalised to that
  · next hnot =>
    obtain ⟨rfl, -⟩ := h
    rw [AllocError.normal, AllocError.normal, if_neg hnot]

/-- **A refusal tells no more than the request does.** -/
theorem normal_of_request (h : w.request id request = (.error error, w')) :
    error.normal = AllocError.normal (.outOfMemory request.size request.align) := by
  obtain rfl | ⟨w₁, hnew⟩ := reason_of_request h
  · rfl
  · exact normal_of_newBuffer hnew

end World

/-! ### Pairs of actions -/

section Paired

variable (o o' : Origin)

/-- **Two actions end in the same way**: with results that correspond, or with refusals that look
the same, and both times with twins. Nothing is said where one of them ends with a fault. -/
inductive Matches (same : α → β → Prop) :
    EStateM.Result Failure PoolState α → EStateM.Result Failure PoolState β → Prop
  | results {a b t v} (related : same a b) (twins : Twins o o' t v) :
    Matches same (.ok a t) (.ok b v)
  | refusals {error error' t v} (alike : o'.complaint error' = o.complaint error)
      (twins : Twins o o' t v) :
    Matches same (.error (.refused error) t) (.error (.refused error') v)
  | fault {fault t result} : Matches same (.error (.fault fault) t) result
  | fault' {fault v result} : Matches same result (.error (.fault fault) v)

/-- **Two actions are paired**: if the answers of the raw allocators agree, they end in the same
way. -/
def Paired (action : PoolM α) (other : PoolM β) (same : α → β → Prop) (s u : PoolState) : Prop :=
  Agree (o.answers (finish action s).world) (o'.answers (finish other u).world) →
    Matches o o' same (action s) (other u)

end Paired

namespace Paired

variable {o o' : Origin} {action : PoolM α} {other : PoolM β} {next : α → PoolM γ}
  {next' : β → PoolM δ} {same : α → β → Prop} {same₁ : γ → δ → Prop} {s u t v : PoolState}

/-- Two actions end with results. -/
theorem of_ok {a : α} {b : β} (h : action s = .ok a t) (h' : other u = .ok b v) (hsame : same a b)
    (twins : Twins o o' t v) : Paired o o' action other same s u := by
  intro _
  rw [h, h']
  exact .results hsame twins

/-- Two actions end with refusals. -/
theorem of_refused {error error' : PoolError} (h : action s = .error (.refused error) t)
    (h' : other u = .error (.refused error') v)
    (hsame : o'.complaint error' = o.complaint error) (twins : Twins o o' t v) :
    Paired o o' action other same s u := by
  intro _
  rw [h, h']
  exact .refusals hsame twins

/-- The first action ends with a fault. -/
theorem of_fault {fault : Fault} (h : action s = .error (.fault fault) t) :
    Paired o o' action other same s u := by
  intro _
  rw [h]
  exact .fault

theorem pure {a : α} {b : β} (twins : Twins o o' s u) (hsame : same a b) :
    Paired o o' (pure a : PoolM α) (pure b) same s u :=
  of_ok rfl rfl hsame twins

theorem refuse {error error' : PoolError} (twins : Twins o o' s u)
    (hsame : o'.complaint error' = o.complaint error) :
    Paired o o' (refuse error : PoolM α) (refuse error' : PoolM β) same s u :=
  of_refused rfl rfl hsame twins

/-- **Actions one after the other.** -/
theorem bind (h : Paired o o' action other same s u) (remembers : ∀ a, Remembers (next a))
    (remembers' : ∀ b, Remembers (next' b))
    (hnext : ∀ a b t v, same a b → Twins o o' t v → Paired o o' (next a) (next' b) same₁ t v) :
    Paired o o' (action >>= next) (other >>= next') same₁ s u := by
  intro agree
  -- the answers agree at the end, so they did after the first part
  have hmatches := h (agree.of_prefix (Origin.answers_prefix (Remembers.finish_bind remembers s))
    (Origin.answers_prefix (Remembers.finish_bind remembers' u)))
  generalize hrun : action s = result at hmatches
  generalize hrun' : other u = result' at hmatches
  cases hmatches with
  | results related twins =>
    rw [finish_bind_of_ok hrun, finish_bind_of_ok hrun'] at agree
    rw [bind_of_ok hrun, bind_of_ok hrun']
    exact hnext _ _ _ _ related twins agree
  | refusals alike twins =>
    rw [bind_of_error hrun, bind_of_error hrun']
    exact .refusals alike twins
  | fault =>
    rw [bind_of_error hrun]
    exact .fault
  | fault' =>
    rw [bind_of_error hrun']
    exact .fault'

/-- The results are all that is looked at. -/
theorem map {f : α → γ} {g : β → δ} (h : Paired o o' action other same s u)
    (hsame : ∀ a b, same a b → same₁ (f a) (g b)) :
    Paired o o' (f <$> action) (g <$> other) same₁ s u :=
  h.bind (fun _ => .pure) (fun _ => .pure) fun a b _ _ hab twins => .pure twins (hsame a b hab)

/-- Results that are not looked at. -/
theorem discard (h : Paired o o' action other same s u) :
    Paired o o' (discard action) (discard other) (fun _ _ => True) s u :=
  h.map fun _ _ _ => trivial

/-! ### Parts of actions -/

/-- Both actions start with a look at the pool. -/
theorem getPool_bind {next : Pool → PoolM γ} {next' : Pool → PoolM δ}
    (h : Paired o o' (next s.pool) (next' u.pool) same₁ s u) :
    Paired o o' (getPool >>= next) (getPool >>= next') same₁ s u := h

/-- Both pools are replaced. -/
theorem setPool_bind {pool pool' : Pool} {next : Unit → PoolM γ} {next' : Unit → PoolM δ}
    (h : Paired o o' (next ()) (next' ()) same₁ { s with pool } { u with pool := pool' }) :
    Paired o o' (setPool pool >>= next) (setPool pool' >>= next') same₁ s u := h

/-- Something is entered in both logs. -/
theorem log_bind {entry entry' : LogEntry} {next : Unit → PoolM γ} {next' : Unit → PoolM δ}
    (h : Paired o o' (next ()) (next' ()) same₁ { s with world := s.world.log entry }
      { u with world := u.world.log entry' }) :
    Paired o o' (log entry >>= next) (log entry' >>= next') same₁ s u := h

/-- **A request.** Both get a buffer or none does, and the buffers are the same ones, counted from
the origins. -/
theorem request (twins : Twins o o' s u) (request : Request) :
    Paired o o' (PoolM.request request) (PoolM.request request)
      (fun buffer buffer' => o'.offset buffer'.id = o.offset buffer.id ∧
        buffer.length = request.size ∧ buffer'.length = request.size) s u := by
  intro agree
  rw [finish, finish] at agree
  unfold PoolM.request at agree ⊢
  rcases hcall : s.world.request s.pool.allocator request with ⟨answer, world⟩
  rcases hcall' : u.world.request u.pool.allocator request with ⟨answer', world'⟩
  rw [hcall, hcall'] at agree
  have htold := World.rawCalls_request hcall
  have htold' := World.rawCalls_request hcall'
  have hanswers : Agree (o.answers world) (o'.answers world') := by
    rcases answer with error | buffer <;> rcases answer' with error' | buffer' <;> exact agree
  rw [Origin.answers, Origin.answers, Origin.calls_append htold twins.started,
    Origin.calls_append htold' twins.started', twins.calls, List.filterMap_append,
    List.filterMap_append] at hanswers
  rcases answer with error | buffer <;> rcases answer' with error' | buffer'
  · -- both are refused
    have hnormal := World.normal_of_request hcall
    have hnormal' := World.normal_of_request hcall'
    refine .refusals (by simp only [Origin.complaint, hnormal, hnormal']) ?_
    refine twins.called htold htold' rfl ?_
    rw [(World.request_error hcall).nextBuffer, (World.request_error hcall').nextBuffer]
    exact twins.nextBuffer
  · cases hanswers.last
  · cases hanswers.last
  · have hgrants := World.request_ok hcall
    have hgrants' := World.request_ok hcall'
    have hoffset : o'.offset buffer'.id = o.offset buffer.id := by
      rw [hgrants.number, hgrants'.number]
      exact twins.nextBuffer
    refine .results ⟨hoffset, World.length_of_request hcall, World.length_of_request hcall'⟩ ?_
    refine twins.called htold htold' ?_ ?_
    · simp only [RawCall.event, Origin.call?, Option.map_some, hoffset]
    · rw [hgrants.nextBuffer, hgrants'.nextBuffer]
      exact Origin.offset_succ twins.nextBuffer

/-- **Giving a buffer back.** -/
theorem release {buffer buffer' : Buffer} (twins : Twins o o' s u)
    (hid : o'.offset buffer'.id = o.offset buffer.id) :
    Paired o o' (PoolM.release buffer) (PoolM.release buffer') (fun _ _ => True) s u := by
  intro _
  unfold PoolM.release
  rcases hcall : s.world.release s.pool.allocator buffer with ⟨fault | ⟨⟩, world⟩
  · exact .fault
  -- a fault on either side ends the comparison, so both were taken back
  · rcases hcall' : u.world.release u.pool.allocator buffer' with ⟨fault' | ⟨⟩, world'⟩
    · exact .fault'
    · refine .results trivial ?_
      refine twins.called (World.rawCalls_release hcall) (World.rawCalls_release hcall') ?_ ?_
      · simp only [RawCall.event, Origin.call?, hid]
      · rw [(World.release_ok hcall).nextBuffer, (World.release_ok hcall').nextBuffer]
        exact twins.nextBuffer

/-- Buffers are given back one after the other. -/
theorem forM_release {buffers buffers' : List Buffer} (twins : Twins o o' s u)
    (hids : buffers'.map (fun buffer => o'.offset buffer.id) =
      buffers.map fun buffer => o.offset buffer.id) :
    Paired o o' (buffers.forM PoolM.release) (buffers'.forM PoolM.release) (fun _ _ => True)
      s u := by
  induction buffers generalizing buffers' s u with
  | nil =>
    obtain rfl := List.map_eq_nil_iff.mp hids
    exact .pure twins trivial
  -- the lists go side by side, for as many offsets as there are buffers
  | cons buffer buffers ih =>
    obtain ⟨buffer', rest', rfl, hid, hrest⟩ := List.map_eq_cons_iff.mp hids
    exact (release twins hid).bind (fun _ => .forM fun _ => .release)
      (fun _ => .forM fun _ => .release) fun _ _ _ _ _ twins' => ih twins' hrest

/-- **Giving a buffer back after a refusal.** -/
theorem orRelease {action : PoolM α} {other : PoolM β} {buffer buffer' : Buffer}
    (h : Paired o o' action other same s u) (hid : o'.offset buffer'.id = o.offset buffer.id) :
    Paired o o' (orRelease buffer action) (orRelease buffer' other) same s u := by
  intro agree
  have hmatches := h (agree.of_prefix (Origin.answers_prefix (Remembers.finish_orRelease s))
    (Origin.answers_prefix (Remembers.finish_orRelease u)))
  generalize hrun : action s = result at hmatches
  generalize hrun' : other u = result' at hmatches
  rw [finish, finish] at agree
  unfold PoolM.orRelease at agree ⊢
  rw [hrun, hrun'] at agree ⊢
  cases hmatches with
  | results related twins => exact .results related twins
  | refusals alike twins =>
    -- the buffers are given back, and the refusals go on
    have hlast : Paired o o' (do PoolM.release buffer; PoolM.refuse _ : PoolM α)
        (do PoolM.release buffer'; PoolM.refuse _ : PoolM β) same _ _ :=
      (release twins hid).bind (fun _ => .refuse) (fun _ => .refuse)
        fun _ _ _ _ _ twins' => .refuse twins' alike
    exact hlast agree
  | fault => exact .fault
  | fault' => exact .fault'

end Paired

/-! ### The operations of a pool remember -/

namespace Pool

variable {size align dataSize : Nat} {packing : Packing} {buffer : Buffer} {region : Region}

/-- The end of growing a chain: the new block serves the request and joins. -/
private def join (size : Nat) (buffer : Buffer) : PoolM Region :=
  match (Block.ofBuffer buffer Layout.blockHeaderSize).bump? size .aligned with
  | none => refuse .sizeOverflow
  | some (offset, block) => do
    let pool ← getPool
    let pool := { pool with chain := pool.chain.grow block }
    setPool pool
    log (.growBlockChain pool.label pool.blockCount pool.chain.current size)
    return pool.regionAt size (.block (pool.blockCount - 1) offset)

private theorem growFor_eq : growFor size = (do
    let pool ← getPool
    let buffer ← request (.memalign Layout.poolAlignment pool.blockSize)
    join size buffer) := rfl

private theorem join_remembers : Remembers (join size buffer) := by
  rw [join]
  split
  · exact .refuse
  · exact .bind .getPool fun _ => .bind .setPool fun _ => .bind .log fun _ => .pure

theorem growFor_remembers : Remembers (growFor size) :=
  .bind .getPool fun _ => .bind .request fun _ => join_remembers

theorem allocSmall_remembers : Remembers (allocSmall size packing) := by
  refine .bind .getPool fun pool => ?_
  split
  · exact .bind .setPool fun _ => .pure
  · exact growFor_remembers

theorem enterLarge_remembers : Remembers (enterLarge buffer) :=
  .bind (.discard (.orRelease allocSmall_remembers)) fun _ => .bind .getPool fun _ => .setPool

/-- A buffer gets a slot: one that is empty, or a new one. -/
private def house (buffer : Buffer) : PoolM Unit := do
  let pool ← getPool
  match pool.large.reuse? buffer with
  | some large => setPool { pool with large }
  | none => enterLarge buffer

/-- The end of a large allocation. -/
private def announce (size : Nat) (buffer : Buffer) : PoolM Region := do
  let pool ← getPool
  log (.largeAllocation pool.label buffer.id size)
  return pool.regionAt size (.large buffer.id)

private theorem allocLarge_eq : allocLarge size = (do
    let buffer ← request (.malloc size)
    house buffer
    announce size buffer) := by
  refine congrArg (request (.malloc size) >>= ·) (funext fun buffer => ?_)
  rw [house, bind_assoc]
  refine congrArg (getPool >>= ·) (funext fun pool => ?_)
  dsimp only
  cases pool.large.reuse? buffer <;> rfl

private theorem house_remembers : Remembers (house buffer) := by
  refine .bind .getPool fun pool => ?_
  split
  · exact .setPool
  · exact enterLarge_remembers

private theorem announce_remembers : Remembers (announce size buffer) :=
  .bind .getPool fun _ => .bind .log fun _ => .pure

theorem allocLarge_remembers : Remembers (allocLarge size) := by
  rw [allocLarge_eq]
  exact .bind .request fun _ => .bind house_remembers fun _ => announce_remembers

theorem allocWith_remembers : Remembers (allocWith packing size) := by
  refine .bind .getPool fun pool => ?_
  split
  · exact allocSmall_remembers
  · exact allocLarge_remembers

theorem allocAlignedTo_remembers : Remembers (allocAlignedTo size align) := by
  rw [allocAlignedTo]
  split
  · exact .bind .request fun _ => .bind enterLarge_remembers fun _ => .bind .getPool fun _ => .pure
  · exact .refuse

theorem free_remembers : Remembers (free region) := by
  refine .bind .getPool fun pool => ?_
  split
  · exact .pure
  · split
    · split
      · exact .pure
      · exact .bind .setPool fun _ => .bind .log fun _ => .bind .release fun _ => .pure
    · exact .pure

theorem claimData_remembers : Remembers (claimData dataSize) := by
  rw [claimData]
  split
  · exact .pure
  · exact .map allocWith_remembers

theorem register_remembers {data : Option Region} : Remembers (register dataSize data) :=
  .bind .getPool fun _ => .bind .setPool fun _ => .bind .log fun _ => .pure

theorem addCleanup_remembers : Remembers (addCleanup dataSize) := by
  rw [addCleanup_eq]
  exact .bind (.discard allocSmall_remembers) fun _ =>
    .bind claimData_remembers fun _ => register_remembers

theorem reset_remembers : Remembers reset :=
  .bind .getPool fun _ => .bind .setPool fun _ => .bind (.forM fun _ => .release) fun _ =>
    .bind .getPool fun _ => .bind .setPool fun _ => .log

end Pool

/-! ### The operations of twins -/

section Operations

variable {o o' : Origin} {s u : PoolState} {size align additional dataSize : Nat}
  {packing : Packing} {buffer buffer' : Buffer} {region region' : Region}

/-- Regions that look the same, each from its origin. -/
abbrev SameSight (o o' : Origin) (region region' : Region) : Prop :=
  o'.sight region' = o.sight region

/-- Functions of which the same is seen have both a value or have none. -/
theorem cases_of_map_eq {f : α → γ} {g : β → γ} {found : Option α} {found' : Option β}
    (h : found'.map g = found.map f) : (found = none ∧ found' = none) ∨
      ∃ a b, found = some a ∧ found' = some b ∧ g b = f a := by
  cases found with
  | none => exact .inl ⟨rfl, Option.map_eq_none_iff.mp h⟩
  | some a =>
    obtain ⟨b, hfound, heq⟩ := Option.map_eq_some_iff.mp h
    exact .inr ⟨a, b, rfl, hfound, heq⟩

/-- A function of the pool that succeeds, or does not. -/
private theorem onPool_of_ok {f : Pool → Except Failure (α × Pool)} {a : α} {pool : Pool}
    (h : f s.pool = .ok (a, pool)) : onPool f s = .ok a { s with pool } := by
  simp only [onPool, h]

private theorem onPool_of_error {f : Pool → Except Failure (α × Pool)} {failure : Failure}
    (h : f s.pool = .error failure) : onPool f s = .error failure s := by
  simp only [onPool, h]

namespace Pool

/-- **A new block** joins both chains. -/
private theorem join_paired (twins : Twins o o' s u) (hlength : buffer'.length = buffer.length) :
    Paired o o' (join size buffer) (join size buffer') (SameSight o o') s u := by
  -- the new blocks are the same, laid bare
  have hbare : ((Block.ofBuffer buffer' Layout.blockHeaderSize).bump? size .aligned).map
        (fun found => (found.1, found.2.bare)) =
      ((Block.ofBuffer buffer Layout.blockHeaderSize).bump? size .aligned).map
        fun found => (found.1, found.2.bare) := by
    rw [← Block.bump?_bare, ← Block.bump?_bare, Block.bare_ofBuffer, Block.bare_ofBuffer, hlength]
  unfold join
  obtain ⟨hnone, hnone'⟩ | ⟨⟨offset, block⟩, ⟨offset', block'⟩, hbump, hbump', hfound⟩ :=
    cases_of_map_eq hbare
  · rw [hnone, hnone']
    exact .refuse twins rfl
  · obtain ⟨rfl, hblock⟩ := Prod.mk.inj hfound
    rw [hbump, hbump']
    refine .getPool_bind (.setPool_bind (.log_bind ?_))
    have hchain : (u.pool.chain.grow block').bare = (s.pool.chain.grow block).bare := by
      rw [Chain.bare_grow, Chain.bare_grow, twins.chain, hblock]
    have grown := twins.setChain hchain
    refine .pure (grown.log _ _) (grown.sight_regionAt size ?_)
    exact congrArg (fun count => Spot.block (count - 1) offset') grown.blockCount

/-- **Growing the chain.** -/
theorem growFor_paired (twins : Twins o o' s u) :
    Paired o o' (growFor size) (growFor size) (SameSight o o') s u := by
  rw [growFor_eq]
  refine .getPool_bind ?_
  rw [twins.blockSize]
  refine (Paired.request twins _).bind (fun _ => join_remembers) (fun _ => join_remembers) ?_
  rintro buffer buffer' t v ⟨-, hlength, hlength'⟩ twins'
  exact join_paired twins' (hlength'.trans hlength.symm)

/-- **A small request.** -/
theorem allocSmall_paired (twins : Twins o o' s u) :
    Paired o o' (allocSmall size packing) (allocSmall size packing) (SameSight o o') s u := by
  refine .getPool_bind ?_
  have hclaim : (u.pool.chain.claim? size packing).map
        (fun found => (found.1, found.2.1, found.2.2.bare)) =
      (s.pool.chain.claim? size packing).map
        fun found => (found.1, found.2.1, found.2.2.bare) := by
    rw [← Chain.claim?_bare, ← Chain.claim?_bare, twins.chain]
  -- both claims fail, or both come to the same offset of the same block
  obtain ⟨hnone, hnone'⟩ |
      ⟨⟨index, offset, chain⟩, ⟨index', offset', chain'⟩, hfound, hfound', h⟩ :=
    cases_of_map_eq hclaim
  · rw [hnone, hnone']
    exact growFor_paired twins
  · obtain ⟨rfl, hrest⟩ := Prod.mk.inj h
    obtain ⟨rfl, hchain⟩ := Prod.mk.inj hrest
    rw [hfound, hfound']
    exact .setPool_bind (.pure (twins.setChain hchain) (twins.sight_regionAt size rfl))

/-- **A slot for a large buffer.** -/
theorem enterLarge_paired (twins : Twins o o' s u)
    (hid : o'.offset buffer'.id = o.offset buffer.id) :
    Paired o o' (enterLarge buffer) (enterLarge buffer') (fun _ _ => True) s u := by
  refine ((allocSmall_paired twins).orRelease hid).discard.bind
    (fun _ => .bind .getPool fun _ => .setPool) (fun _ => .bind .getPool fun _ => .setPool) ?_
  intro _ _ t v _ twins'
  exact .getPool_bind
    (.of_ok rfl rfl trivial (twins'.setLarge (LargeTable.slots_push_congr twins'.slots hid)))

private theorem house_paired (twins : Twins o o' s u)
    (hid : o'.offset buffer'.id = o.offset buffer.id) :
    Paired o o' (house buffer) (house buffer') (fun _ _ => True) s u := by
  refine .getPool_bind ?_
  obtain ⟨hnone, hnone'⟩ | ⟨large, large', hreuse, hreuse', hlarge⟩ :=
    cases_of_map_eq (LargeTable.reuse?_congr twins.slots hid)
  · rw [hnone, hnone']
    exact enterLarge_paired twins hid
  · rw [hreuse, hreuse']
    exact .of_ok rfl rfl trivial (twins.setLarge hlarge)

/-- **A large request.** -/
theorem allocLarge_paired (twins : Twins o o' s u) :
    Paired o o' (allocLarge size) (allocLarge size) (SameSight o o') s u := by
  rw [allocLarge_eq]
  refine (Paired.request twins _).bind (fun _ => .bind house_remembers fun _ => announce_remembers)
    (fun _ => .bind house_remembers fun _ => announce_remembers) ?_
  rintro buffer buffer' t v ⟨hid, -⟩ twins'
  refine (house_paired twins' hid).bind (fun _ => announce_remembers)
    (fun _ => announce_remembers) ?_
  intro _ _ t' v' _ twins''
  exact .getPool_bind (.log_bind
    (.pure (twins''.log _ _) (twins''.sight_regionAt size (congrArg Spot.large hid))))

/-- **A request of any size** is small for both or large for both. -/
theorem allocWith_paired (twins : Twins o o' s u) :
    Paired o o' (allocWith packing size) (allocWith packing size) (SameSight o o') s u := by
  refine .getPool_bind ?_
  rw [twins.max]
  split
  · exact allocSmall_paired twins
  · exact allocLarge_paired twins

/-- **A request at an alignment.** -/
theorem allocAlignedTo_paired (twins : Twins o o' s u) :
    Paired o o' (allocAlignedTo size align) (allocAlignedTo size align) (SameSight o o') s u := by
  unfold allocAlignedTo
  split
  -- what is done after the buffer was granted only adds to what was asked for
  · have hlast : ∀ buffer : Buffer, Remembers (do
        enterLarge buffer
        return (← getPool).regionAt size (.large buffer.id)) := fun _ =>
      .bind enterLarge_remembers fun _ => .bind .getPool fun _ => .pure
    refine (Paired.request twins _).bind hlast hlast ?_
    rintro buffer buffer' t v ⟨hid, -⟩ twins'
    refine (enterLarge_paired twins' hid).bind (fun _ => .bind .getPool fun _ => .pure)
      (fun _ => .bind .getPool fun _ => .pure) ?_
    intro _ _ t' v' _ twins''
    exact .getPool_bind (.pure twins'' (twins''.sight_regionAt size (congrArg Spot.large hid)))
  · exact .refuse twins rfl

/-- **Giving a buffer back early.** -/
theorem free_paired (twins : Twins o o' s u) (h : o'.sight region' = o.sight region) :
    Paired o o' (free region) (free region') (fun status status' => status' = status) s u := by
  refine .getPool_bind ?_
  obtain ⟨index, offset, hplace, hplace'⟩ | ⟨id, id', hplace, hplace', hid⟩ :=
    Origin.places_of_spot (congrArg Sight.spot h)
  · rw [hplace, hplace']
    exact .pure twins rfl
  · rw [hplace, hplace']
    dsimp only
    -- numbers may differ between the twins, so what they stand for is compared
    simp only [twins.own_iff h]
    split
    · obtain ⟨hnone, hnone'⟩ | ⟨⟨buffer, large⟩, ⟨buffer', large'⟩, htake, htake', htaken⟩ :=
        cases_of_map_eq (LargeTable.take?_congr twins.slots hid)
      · rw [hnone, hnone']
        exact .pure twins rfl
      · obtain ⟨hbuffer, hlarge⟩ := Prod.mk.inj htaken
        rw [htake, htake']
        refine .setPool_bind (.log_bind ?_)
        exact (Paired.release ((twins.setLarge hlarge).log _ _) hbuffer).bind (fun _ => .pure)
          (fun _ => .pure) fun _ _ _ _ _ twins' => .pure twins' rfl
    · exact .pure twins rfl

/-- **The bytes of a cleanup record.** -/
private theorem claimData_paired (twins : Twins o o' s u) :
    Paired o o' (claimData dataSize) (claimData dataSize)
      (fun data data' => data'.map o'.sight = data.map o.sight) s u := by
  rw [claimData]
  split
  · exact .pure twins rfl
  · exact (allocWith_paired twins).map fun _ _ hsight => congrArg some hsight

/-- **A cleanup record.** -/
theorem addCleanup_paired (twins : Twins o o' s u) :
    Paired o o' (addCleanup dataSize) (addCleanup dataSize)
      (fun ticket ticket' => ticket'.data.map o'.sight = ticket.data.map o.sight) s u := by
  rw [addCleanup_eq]
  refine (allocSmall_paired twins).discard.bind
    (fun _ => .bind claimData_remembers fun _ => register_remembers)
    (fun _ => .bind claimData_remembers fun _ => register_remembers) fun _ _ t v _ twins' => ?_
  refine (claimData_paired twins').bind (fun _ => register_remembers) (fun _ => register_remembers)
    fun data data' t v hdata twins'' => ?_
  exact .getPool_bind (.setPool_bind (.log_bind (.pure (twins''.setCleanups.log _ _) hdata)))

/-- **A reset.** -/
theorem reset_paired (twins : Twins o o' s u) :
    Paired o o' reset reset (fun _ _ => True) s u := by
  have hlast : Remembers (do
      let pool ← getPool
      let pool :=
        { pool with
          chain := pool.chain.reset
          generation := (pool.generation + 1) % 2 ^ (32 : Nat) }
      setPool pool
      log (.resetPool pool.label pool.generation)) :=
    .bind .getPool fun _ => .bind .setPool fun _ => .log
  -- emptying leaves as many slots on either side, and nothing in them
  have hemptied : o'.slots u.pool.large.emptied = o.slots s.pool.large.emptied := by
    rw [LargeTable.slots_emptied, LargeTable.slots_emptied, LargeTable.count_congr twins.slots]
  refine .getPool_bind (.setPool_bind ?_)
  refine (Paired.forM_release (twins.setLarge hemptied)
    (LargeTable.offsets_buffers_congr twins.slots)).bind (fun _ => hlast) (fun _ => hlast) ?_
  intro _ _ t v _ twins'
  have renewed := twins'.renewed
  exact .getPool_bind (.setPool_bind (.of_ok rfl rfl trivial (renewed.log _ _)))

/-! ### The region claimed last -/

/-- Blocks in the same place of both chains are the same, laid bare. -/
private theorem blocks_of_twins (twins : Twins o o' s u) (index : Nat) :
    (s.pool.chain.blocks[index]? = none ∧ u.pool.chain.blocks[index]? = none) ∨
      ∃ block twin, s.pool.chain.blocks[index]? = some block ∧
        u.pool.chain.blocks[index]? = some twin ∧ twin.bare = block.bare := by
  have hblocks := congrArg (fun chain : Chain => chain.blocks[index]?) twins.chain
  simp only [Chain.bare, List.getElem?_map] at hblocks
  exact cases_of_map_eq hblocks

/-- Cursors of twins move in both or in neither. -/
private theorem moveCursor_twins (twins : Twins o o' s u) {found found' : Option Block}
    (h : found'.map Block.bare = found.map Block.bare) (index : Nat) :
    Twins o o' { s with pool := s.pool.moveCursor index found }
      { u with pool := u.pool.moveCursor index found' } := by
  obtain ⟨rfl, rfl⟩ | ⟨moved, moved', rfl, rfl, hmoved⟩ := cases_of_map_eq h
  · exact twins
  · refine twins.setChain ?_
    rw [Chain.bare_setBlock, Chain.bare_setBlock, twins.chain, hmoved]

/-- What is done where the cursor of a block moves, or does not: `step` tells what comes of it for
the block of the region and the offset in it. For large regions nothing is done. -/
private def atBlock (pool : Pool) (region : Region) (idle : α)
    (step : Block → Nat → α × Option Block) : Except Failure (α × Pool) := do
  match ← pool.resolved region with
  | (.slot _, _) => return (idle, pool)
  | (.block index, offset) =>
    match pool.chain.blocks[index]? with
    | none => throw (.fault .outOfRange)
    | some block => return ((step block offset).1, pool.moveCursor index (step block offset).2)

/-- What is done to blocks that are the same, laid bare, is paired if the blocks stay so. -/
private theorem atBlock_paired {idle : α} {idle' : β} {step : Block → Nat → α × Option Block}
    {step' : Block → Nat → β × Option Block} {same : α → β → Prop} (twins : Twins o o' s u)
    (h : o'.sight region' = o.sight region) (hidle : same idle idle')
    (hstep : ∀ offset block twin, twin.bare = block.bare →
      same (step block offset).1 (step' twin offset).1 ∧
        (step' twin offset).2.map Block.bare = (step block offset).2.map Block.bare) :
    Paired o o' (onPool (·.atBlock region idle step)) (onPool (·.atBlock region' idle' step')) same
      s u := by
  obtain ⟨⟨store, offset⟩, hfound, hfound'⟩ | ⟨error, error', hfound, hfound', halike⟩ :=
    twins.resolve h
  · have hresolved := resolved_eq_ok_iff.mpr hfound
    have hresolved' := resolved_eq_ok_iff.mpr hfound'
    cases store with
    | slot index =>
      -- a large region has no cursor to move
      have hrun : s.pool.atBlock region idle step = .ok (idle, s.pool) := by
        rw [atBlock, hresolved]
        rfl
      have hrun' : u.pool.atBlock region' idle' step' = .ok (idle', u.pool) := by
        rw [atBlock, hresolved']
        rfl
      exact .of_ok (onPool_of_ok hrun) (onPool_of_ok hrun') hidle twins
    | block index =>
      obtain ⟨hnone, -⟩ | ⟨block, twin, hget, hget', hbare⟩ := blocks_of_twins twins index
      · have hrun : s.pool.atBlock region idle step = .error (.fault .outOfRange) := by
          rw [atBlock, hresolved]
          simp only [bind, Except.bind, hnone]
          rfl
        exact .of_fault (onPool_of_error hrun)
      · -- the two blocks differ in their buffers only, and `step` does not look at those
        have hrun : s.pool.atBlock region idle step = .ok ((step block offset).1,
            s.pool.moveCursor index (step block offset).2) := by
          rw [atBlock, hresolved]
          simp only [bind, Except.bind, hget]
          rfl
        have hrun' : u.pool.atBlock region' idle' step' = .ok ((step' twin offset).1,
            u.pool.moveCursor index (step' twin offset).2) := by
          rw [atBlock, hresolved']
          simp only [bind, Except.bind, hget']
          rfl
        obtain ⟨hsame, hmoved⟩ := hstep offset block twin hbare
        exact .of_ok (onPool_of_ok hrun) (onPool_of_ok hrun') hsame
          (moveCursor_twins twins hmoved index)
  · have hrun : s.pool.atBlock region idle step = .error (.refused error) := by
      rw [atBlock, resolved, hfound]
      rfl
    have hrun' : u.pool.atBlock region' idle' step' = .error (.refused error') := by
      rw [atBlock, resolved, hfound']
      rfl
    exact .of_refused (onPool_of_error hrun) (onPool_of_error hrun') halike twins

/-- **Lengthening a region.** -/
theorem extend_paired (twins : Twins o o' s u) (h : o'.sight region' = o.sight region) :
    Paired o o' (onPool (·.extend region additional)) (onPool (·.extend region' additional))
      (fun longer longer' => longer'.map o'.sight = longer.map o.sight) s u := by
  have hextend : ∀ (pool : Pool) (region : Region), pool.extend region additional =
      pool.atBlock region none fun block offset =>
        let moved := block.extend? (offset + region.length) additional
        (moved.map fun _ => { region with length := region.length + additional }, moved) := by
    intro pool region
    refine congrArg (pool.resolved region >>= ·) (funext fun ⟨store, offset⟩ => ?_)
    cases store with
    | slot index => rfl
    | block index =>
      dsimp only
      cases pool.chain.blocks[index]? with
      | none => rfl
      | some block =>
        dsimp only
        cases block.extend? (offset + region.length) additional <;> rfl
  simp only [hextend]
  refine atBlock_paired twins h rfl fun offset block twin hbare => ?_
  have hlength : region'.length = region.length := congrArg Sight.length h
  have hmoved : (twin.extend? (offset + region.length) additional).map Block.bare =
      (block.extend? (offset + region.length) additional).map Block.bare := by
    rw [← Block.extend?_bare, ← Block.extend?_bare, hbare]
  dsimp only
  rw [hlength]
  refine ⟨?_, hmoved⟩
  -- both are lengthened or neither is
  obtain ⟨hnone, hnone'⟩ | ⟨_, _, hsome, hsome', -⟩ := cases_of_map_eq hmoved
  · rw [hnone, hnone']
    rfl
  · rw [hsome, hsome']
    exact congrArg (fun sight : Sight => some { sight with length := region.length + additional }) h

/-- **Giving a region back to its block.** -/
theorem reclaim_paired (twins : Twins o o' s u) (h : o'.sight region' = o.sight region) :
    Paired o o' (onPool (·.reclaim region)) (onPool (·.reclaim region'))
      (fun done done' => done' = done) s u := by
  have hreclaim : ∀ (pool : Pool) (region : Region), pool.reclaim region =
      pool.atBlock region false fun block offset =>
        let moved := block.reclaim? offset (offset + region.length)
        (moved.isSome, moved) := by
    intro pool region
    refine congrArg (pool.resolved region >>= ·) (funext fun ⟨store, offset⟩ => ?_)
    cases store with
    | slot index => rfl
    | block index =>
      dsimp only
      cases pool.chain.blocks[index]? with
      | none => rfl
      | some block =>
        dsimp only
        cases block.reclaim? offset (offset + region.length) <;> rfl
  simp only [hreclaim]
  -- a block and its twin have their cursors in one place, so both give back or neither does
  refine atBlock_paired twins h rfl fun offset block twin hbare => ?_
  have hlength : region'.length = region.length := congrArg Sight.length h
  have hmoved : (twin.reclaim? offset (offset + region.length)).map Block.bare =
      (block.reclaim? offset (offset + region.length)).map Block.bare := by
    rw [← Block.reclaim?_bare, ← Block.reclaim?_bare, hbare]
  dsimp only
  rw [hlength]
  refine ⟨?_, hmoved⟩
  have hsome := congrArg Option.isSome hmoved
  rwa [Option.isSome_map, Option.isSome_map] at hsome

end Pool

end Operations

end RegionPool
