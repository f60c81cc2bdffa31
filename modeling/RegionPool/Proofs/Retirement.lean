import RegionPool.Proofs.Conservation
import RegionPool.Proofs.Worlds

/-!
# What was given back stays away

A buffer that was given back to a raw allocator is in nobody's hands any more, and its number is
given to no other. So the number of a large region is never that of another buffer: once it cannot
be found, it cannot be found for good.

* `Retired` — what was given back is held by nobody;
* `Moves.retired` — along the moves of a pool;
* `Accounted.retired` — along the commands of a caller.
-/

namespace RegionPool

open PoolM Relation

/-- **What was given back is retired**: its number was given before, and nobody holds it. -/
def Retired (w : World) (held : List Holding) : Prop :=
  ∀ id ∈ w.freed, id.number < w.nextBuffer ∧ ∀ holding ∈ held, holding.id ≠ id

namespace Retired

variable {w w' : World} {held after : List Holding} {allocator : AllocatorId} {buffer : Buffer}

/-- Nothing is given back, and nothing new is held. -/
theorem same (retired : Retired w held) (hfreed : w'.freed = w.freed)
    (hnext : w.nextBuffer ≤ w'.nextBuffer) (hheld : ∀ holding ∈ after, holding ∈ held) :
    Retired w' after := by
  intro id hmem
  obtain ⟨hlt, hnot⟩ := retired id (hfreed ▸ hmem)
  exact ⟨Nat.lt_of_lt_of_le hlt hnext, fun holding h => hnot holding (hheld holding h)⟩

/-- A buffer that is granted has a number that was not given before. -/
theorem granted (retired : Retired w held) (h : w.Grants allocator buffer w') :
    Retired w' (⟨allocator, buffer.id⟩ :: held) := by
  intro id hmem
  obtain ⟨hlt, hnot⟩ := retired id (h.freed ▸ hmem)
  refine ⟨h.nextBuffer ▸ Nat.lt_succ_of_lt hlt, fun holding hholding => ?_⟩
  rcases List.mem_cons.mp hholding with rfl | hold
  · rintro rfl
    rw [h.number] at hlt
    exact Nat.lt_irrefl _ hlt
  · exact hnot holding hold

/-- **A buffer that is given back** and was held once is held no longer. -/
theorem released {id : BufferId} (retired : Retired w held) (given : id.number < w.nextBuffer)
    (hfreed : w'.freed = w.freed ++ [id]) (hnext : w.nextBuffer ≤ w'.nextBuffer)
    (gone : ∀ holding ∈ after, holding ∈ held ∧ holding.id ≠ id) : Retired w' after := by
  intro other hmem
  rw [hfreed] at hmem
  rcases List.mem_append.mp hmem with hold | hnew
  · obtain ⟨hlt, hnot⟩ := retired other hold
    exact ⟨Nat.lt_of_lt_of_le hlt hnext,
      fun holding hholding => hnot holding (gone holding hholding).1⟩
  · obtain rfl := List.mem_singleton.mp hnew
    exact ⟨Nat.lt_of_lt_of_le given hnext, fun holding hholding => (gone holding hholding).2⟩

theorem perm (retired : Retired w held) (h : after.Perm held) : Retired w after :=
  retired.same rfl (Nat.le_refl _) fun _ hmem => h.mem_iff.mp hmem

end Retired

section Moves

variable {a b : Stage} {others more : List Holding} {rest : AllocatorId → List BufferId}

theorem Move.retired (h : Move a b) (books : Books a.world (a.holdings ++ (others ++ more)) rest)
    (retired : Retired a.world (a.holdings ++ others)) :
    Retired b.world (b.holdings ++ others) := by
  rcases h.holdings with ⟨hperm, hworld⟩ | ⟨buffer, hperm, hworld⟩ | ⟨buffer, hperm, hworld⟩
  · exact retired.same hworld.freed (Nat.le_of_eq hworld.nextBuffer.symm)
      fun _ hmem => (hperm.append_right others).mem_iff.mp hmem
  · exact (retired.granted hworld).perm (hperm.append_right others)
  · -- no buffer is held twice, so the one that goes is not among those that stay
    have hbooks := books.perm (hperm.append_right (others ++ more))
    have hnodup := hbooks.nodup
    rw [List.cons_append, List.map_cons, List.nodup_cons] at hnodup
    refine retired.released (hbooks.known _ List.mem_cons_self) hworld.freed
      (Nat.le_of_eq hworld.nextBuffer.symm) fun holding hmem => ⟨?_, ?_⟩
    · exact (hperm.append_right others).mem_iff.mpr (List.mem_cons_of_mem _ hmem)
    · intro heq
      refine hnodup.1 (List.mem_map.mpr ⟨holding, ?_, heq⟩)
      rw [← List.append_assoc]
      exact List.mem_append_left more hmem

/-- **Whatever moves a pool makes**, what was given back stays away. -/
theorem Moves.retired (h : Moves a b) (books : Books a.world (a.holdings ++ (others ++ more)) rest)
    (retired : Retired a.world (a.holdings ++ others)) :
    Retired b.world (b.holdings ++ others) := by
  induction h with
  | refl => exact retired
  | tail hmoves hmove ih => exact hmove.retired (Moves.books hmoves books) ih

end Moves

namespace Session

/-- What was given back in a session is in no pool. -/
def Retired (s : Session) : Prop := RegionPool.Retired s.world s.holdings

variable {s after : Session} {slot : Nat} {pool : Pool} {taken : List Holding} {reply : Reply}
  {command : Command}

namespace Accounted

/-- The pool in a slot makes some moves. -/
private theorem retired_moves {t : PoolState} (accounted : s.Accounted taken)
    (retired : s.Retired) (here : s.pool? slot = some pool)
    (moves : Moves ⟨⟨pool, s.world⟩, []⟩ ⟨t, []⟩) :
    RegionPool.Retired t.world (t.pool.holdings ++ s.holdingsBut slot) := by
  have hbefore : RegionPool.Retired s.world
      (Stage.holdings ⟨⟨pool, s.world⟩, []⟩ ++ s.holdingsBut slot) := by
    rw [Stage.holdings_nil]
    exact retired.perm (holdings_perm here).symm
  have hafter := moves.retired (accounted.stage_books here) hbefore
  rwa [Stage.holdings_nil] at hafter

/-- However a command goes, what was given back stays away. -/
private theorem retired_course {slot? : Option Nat} (accounted : s.Accounted taken)
    (retired : s.Retired) (h : s.Course slot? reply after) : after.Retired := by
  cases h with
  | idle quiet pools _ _ =>
    refine retired.same quiet.freed (Nat.le_of_eq quiet.nextBuffer.symm) fun holding hmem => ?_
    rwa [holdings, pools] at hmem
  | ended _ here moves settled _ =>
    rw [Retired, settled.world]
    exact (accounted.retired_moves retired here moves).perm (holdings_set_perm here settled.pools)
  | stuck _ here stuck _ => exact (stuck.false_of_books (accounted.stage_books here)).elim

/-- A raw buffer that the caller gives back is in no pool, whether it is taken or not. -/
private theorem retired_freeBuffer {allocator : AllocatorId} {index : Nat}
    (accounted : s.Accounted taken) (retired : s.Retired) :
    (s.exec (.freeBuffer allocator index)).2.Retired := by
  rw [Session.exec, Session.freeBuffer]
  cases hbuffer : s.buffer? index with
  | none => exact retired
  | some buffer =>
    have hkept := mem_owned_of_buffer? hbuffer
    -- the raw allocator has the buffer back even if it does not list it
    have hgone : ∀ w : World, w.freed = s.world.freed ++ [buffer.id] →
        s.world.nextBuffer ≤ w.nextBuffer → RegionPool.Retired w s.holdings := fun w hfreed hnext =>
      RegionPool.Retired.released retired (accounted.known _ hkept) hfreed hnext
        fun holding hmem => ⟨hmem, fun heq => accounted.apart holding hmem (heq ▸ hkept)⟩
    simp only [withFound]
    rcases hrun : (s.setBuffer index none).world.release allocator buffer with ⟨fault | done, w⟩
    · obtain ⟨-, rfl, -⟩ := World.release_error hrun
      exact hgone _ (World.freed_emit_freed _ _) (Nat.le_refl _)
    · have hback := World.release_ok hrun
      exact hgone w hback.freed (Nat.le_of_eq hback.nextBuffer.symm)

/-- A new pool has a buffer that was not given before. -/
private theorem retired_createPool {config : PoolConfig} {allocator : Option AllocatorId}
    (retired : s.Retired) : (s.exec (.createPool config allocator)).2.Retired := by
  rw [Session.exec]
  rcases s.createPool_ends with ⟨w, w', pool, buffer, quiet, opens, -, -, -, hrun⟩ |
    ⟨w, error, quiet, hrun⟩
  · rw [hrun]
    have hquiet : RegionPool.Retired w s.holdings :=
      RegionPool.Retired.same retired quiet.freed (Nat.le_of_eq quiet.nextBuffer.symm)
        fun _ hmem => hmem
    -- the buffer of the new pool was granted just now, so its number is new
    refine (hquiet.granted opens.granted).perm ?_
    rw [holdings_append rfl, Pool.holdings, opens.buffers]
    exact List.perm_append_comm
  · rw [hrun]
    exact RegionPool.Retired.same retired quiet.freed (Nat.le_of_eq quiet.nextBuffer.symm)
      fun _ hmem => hmem

private theorem retired_reset (slot : Nat) (accounted : s.Accounted taken) (retired : s.Retired) :
    (s.exec (.reset slot)).2.Retired := by
  rcases s.reset_ends slot with ⟨hcourse, -⟩ | ⟨pool, world, t, here, moves, -, hpool, quiet, hrun⟩
  · exact accounted.retired_course retired hcourse
  · rw [hrun]
    -- rewinding leaves all blocks, so the pool holds what the moves left it
    have hheld : t.pool.holdings =
        Pool.holdings { pool with large := pool.large.emptied } := by
      rw [hpool]
      exact congrArg (List.map pool.holding) (Pool.buffers_rewound pool)
    refine RegionPool.Retired.same (accounted.retired_moves retired here moves) quiet.freed
      (Nat.le_of_eq quiet.nextBuffer.symm) fun holding hmem => ?_
    have hmem' := (holdings_set_perm here rfl).mem_iff.mp hmem
    rwa [Pool.holdingsIn, hheld] at hmem'

private theorem retired_destroy (slot : Nat) (accounted : s.Accounted taken)
    (retired : s.Retired) : (s.exec (.destroy slot)).2.Retired := by
  rcases s.destroy_ends slot with ⟨-, hrun⟩ | ⟨pool, reply, t, here, hrun, hends⟩
  · rwa [hrun]
  · obtain ⟨-, u, moves, moves', hempty, -⟩ := accounted.destruction here hends
    rw [hrun]
    -- first the cleanups and the large buffers go, then the blocks of what is left of the pool
    have hbooks := moves.books (accounted.stage_books here)
    have hbefore := accounted.retired_moves retired here moves
    rw [← Stage.holdings_nil] at hbefore
    rw [← Pool.holdings_dismantled u []] at hbooks hbefore
    have hafter := moves'.retired hbooks hbefore
    rw [Stage.holdings_nil, Pool.holdings, hempty] at hafter
    let after : Session := { s.setPool slot none with world := t.world }
    have hperm : after.holdings.Perm (Pool.holdingsIn none ++ s.holdingsBut slot) :=
      holdings_set_perm here rfl
    exact hafter.perm hperm

/-- **Every command** leaves what was given back with the raw allocators. -/
theorem retired_exec (accounted : s.Accounted taken) (retired : s.Retired) :
    (s.exec command).2.Retired := by
  -- a call that neither frees nor reuses numbers leaves the retired ones retired
  have hsame : ∀ w : World, w.freed = s.world.freed → s.world.nextBuffer ≤ w.nextBuffer →
      RegionPool.Retired w s.holdings := fun w hfreed hnext =>
    RegionPool.Retired.same retired hfreed hnext fun _ hmem => hmem
  cases command with
  | addAllocator allocator => exact hsame _ rfl (Nat.le_refl _)
  | newBuffer size align =>
    rw [Session.exec]
    rcases hrun : s.world.newBuffer size align with ⟨error | buffer, w⟩
    · obtain ⟨hnext, -, hevents⟩ := World.newBuffer_error hrun
      exact hsame w (congrArg (List.filterMap _) hevents) (Nat.le_of_eq hnext.symm)
    · obtain ⟨-, hnext, -, hevents⟩ := World.newBuffer_ok hrun
      exact hsame w (congrArg (List.filterMap _) hevents) (hnext ▸ Nat.le_succ _)
  | requestBuffer allocator request =>
    rw [Session.exec]
    rcases hrun : s.world.request allocator request with ⟨error | buffer, w⟩
    · have hquiet := World.request_error hrun
      exact hsame w hquiet.freed (Nat.le_of_eq hquiet.nextBuffer.symm)
    · have hgranted := World.request_ok hrun
      exact hsame w hgranted.freed (hgranted.nextBuffer ▸ Nat.le_succ _)
  -- giving back is the exception: what the caller holds is owned by nobody else
  | freeBuffer allocator index => exact accounted.retired_freeBuffer retired
  | createPool config allocator => exact retired_createPool retired
  | reset slot => exact accounted.retired_reset slot retired
  | destroy slot => exact accounted.retired_destroy slot retired
  | _ => exact accounted.retired_course retired (exec_course accounted.sized trivial)

/-- **Every history** leaves what was given back with the raw allocators. -/
theorem retired_run {history : List Command} (accounted : s.Accounted taken)
    (admitted : s.AdmitsAll history) (retired : s.Retired) : (s.run history).2.Retired := by
  induction history generalizing s taken with
  | nil => exact retired
  | cons command history ih =>
    obtain ⟨hcommand, hhistory⟩ := admitted
    exact ih (accounted.exec hcommand).1 hhistory (accounted.retired_exec retired)

end Accounted

end Session

end RegionPool
