import Mathlib.Logic.Function.Iterate
import RegionPool.Proofs.Accounts
import RegionPool.Proofs.Withdrawals

/-!
# Containers whose pool has come round

Generations are counted in 32 bits. When a pool has been reset a positive multiple of `2 ^ 32` times
since a container was made, its generation is that of the container again, and it takes the regions
of the container for its own: those in blocks are at home where they always were, whatever was
handed out there since, and of the large ones nothing is known any more, because the first of the
resets gave their buffers back.

* `Session.Clocked` — the generations of pools and regions are 32-bit numbers; `Clocked.exec`,
  `Clocked.run`;
* `Pool.Readmits` — what a pool makes of a region that it takes for its own;
* `Session.Lodges.readmits` — the regions of a container whose pool has come round;
* `Session.run_replicate_reset` — resets of one pool, one after the other.
-/

namespace RegionPool

open PoolM

/-- **A pool takes a region for its own**: it houses it, or it knows that it holds no such buffer any
more. -/
def Pool.Readmits (pool : Pool) (region : Region) : Prop :=
  pool.Houses region ∨
    (∃ id, region.place = .large id) ∧ pool.resolve region = .error .unknownAllocation

namespace Session

variable {s : Session} {slot : Nat} {pool : Pool} {command : Command} {history : List Command}
  {taken : List Holding} {lodging : Lodging} {regions : List Region}

/-! ### Generations in 32 bits -/

/-- **The generations of a session are 32-bit numbers.** -/
structure Clocked (s : Session) : Prop where
  pools : ∀ slot pool, s.pool? slot = some pool → pool.generation < 2 ^ (32 : Nat)
  handles : ∀ region ∈ s.handles, region.generation < 2 ^ (32 : Nat)

namespace Clocked

/-- However a command turns out, the pools stay in step with a 32-bit counter. -/
private theorem pools_step {reply : Reply} {after : Session} (clocked : s.Clocked)
    (h : s.Step command reply after)
    (rewinds : ∀ slot, command = .reset slot → ∀ id, reply ≠ .failed (.fault (.untrackedFree id))) :
    ∀ slot pool, after.pool? slot = some pool → pool.generation < 2 ^ (32 : Nat) := by
  intro slot pool hafter
  cases h with
  | turned turn _ =>
    -- nothing but a reset and a new pool touches a generation
    cases turn with
    | idle _ pools _ _ =>
      rw [pool?, pools] at hafter
      exact clocked.pools slot pool hafter
    | acted _ here goes pools _ _ _ =>
      rw [pool?_of_set here pools] at hafter
      split at hafter
      · obtain rfl := Option.some.inj hafter
        rw [goes.generation]
        exact clocked.pools _ _ here
      · exact clocked.pools slot pool hafter
  | began begins pools _ _ _ =>
    rw [pool?_of_append pools] at hafter
    split at hafter
    · obtain rfl := Option.some.inj hafter
      rw [begins.generation]
      exact Nat.two_pow_pos 32
    · exact clocked.pools slot pool hafter
  -- a reset counts up and takes the remainder, so the counter stays below the bound
  | @reset acting before t named here _ settled _ outcome =>
    subst settled
    rcases outcome with ⟨-, hpool, -⟩ | ⟨id, hfailed⟩
    · have hpools : (s.settle acting t).pools = s.pools.set acting (some t.pool) := rfl
      rw [pool?_of_set here hpools] at hafter
      split at hafter
      · obtain rfl := Option.some.inj hafter
        rw [hpool]
        exact Nat.mod_lt _ (Nat.two_pow_pos 32)
      · exact clocked.pools slot pool hafter
    · exact absurd hfailed (rewinds acting named id)
  | destroyed _ here _ pools _ _ =>
    rw [pool?_of_set here pools] at hafter
    split at hafter
    · cases hafter
    · exact clocked.pools slot pool hafter

/-- **Every command** keeps the generations to 32 bits. -/
theorem exec (clocked : s.Clocked) (vouched : s.Vouched) (accounted : s.Accounted taken)
    (admitted : s.Admits command) : (s.exec command).2.Clocked := by
  have hstep : s.Step command (s.exec command).1 (s.exec command).2 := exec_step vouched
  -- only the caller can give back what is not listed, and a reset is not that command
  have hpools := clocked.pools_step hstep fun slot hreset =>
    (accounted.exec admitted).2 fun _ _ hfree => by
      rw [hreset] at hfree
      cases hfree
  refine ⟨hpools, fun region held => ?_⟩
  by_cases hold : region ∈ s.handles
  · exact clocked.handles region hold
  · -- a new region has the generation of the pool that handed it out
    obtain ⟨slot, pool, -, here, housed⟩ := houses_of_new vouched held hold
    rw [housed.generation]
    exact hpools slot pool here

/-- **Every history** does. -/
theorem run (clocked : s.Clocked) (vouched : s.Vouched) (accounted : s.Accounted taken)
    (admitted : s.AdmitsAll history) : (s.run history).2.Clocked := by
  induction history generalizing s taken with
  | nil => exact clocked
  | cons command history ih =>
    obtain ⟨hcommand, hhistory⟩ := admitted
    exact ih (clocked.exec vouched accounted hcommand) (vouched.exec command)
      (accounted.exec hcommand).1 hhistory

/-- A caller who holds nothing yet. -/
theorem ofHeap (heap : Heap) : (Session.ofHeap heap).Clocked := ⟨fun _ _ => nofun, nofun⟩

end Clocked

/-! ### Regions of a generation that comes round -/

/-- **A pool that has come round** takes the regions of a container for its own. -/
theorem Lodges.readmits (lodges : s.Lodges lodging regions) (vouched : s.Vouched)
    (retired : s.Retired) (clocked : s.Clocked) (within : ∀ region ∈ regions, region ∈ s.handles)
    (here : s.pool? lodging.home = some pool) (hround : lodging.resets % 2 ^ (32 : Nat) = 0) :
    ∀ region ∈ regions, pool.Readmits region := by
  intro region hmem
  obtain ⟨site, count, tracks, -, hmod⟩ := lodges.tracked region hmem
  have howner : region.pool = pool.id := tracks.owner.trans (vouched.numbered _ pool here).symm
  -- the region was handed out some whole rounds ago, so both generations are the same number
  have hgeneration : region.generation = pool.generation := by
    have hlt := clocked.handles region (within region hmem)
    have hbefore := tracks.generation pool here
    omega
  rcases tracks.site pool here with hsite | ⟨id, hplace, hfreed⟩
  · exact .inl ⟨howner, hgeneration, site, hsite, tracks.fits⟩
  · refine .inr ⟨⟨id, hplace⟩, Pool.resolve_eq_error_iff.mpr ?_⟩
    exact .unknown howner hgeneration hplace (retired.absent here hfreed)

/-! ### Resets one after the other -/

/-- **Resets of one pool** are all carried out; they leave the containers where they are, and are
counted for those that lodge in the pool. -/
theorem run_replicate_reset (vouched : s.Vouched) (accounted : s.Accounted taken)
    (here : s.pool? slot = some pool) (n : Nat) :
    s.AdmitsAll (List.replicate n (.reset slot)) ∧
      (s.run (List.replicate n (.reset slot))).2.arrays = s.arrays ∧
      (∃ after, (s.run (List.replicate n (.reset slot))).2.pool? slot = some after) ∧
      ∀ c, s.chronicle c (List.replicate n (.reset slot)) = (·.afterReset slot)^[n] c := by
  -- the books make sure that the next reset cannot fault, so the induction goes on
  induction n generalizing s taken pool with
  | zero => exact ⟨trivial, rfl, ⟨pool, here⟩, fun _ => rfl⟩
  | succ n ih =>
    have admitted : s.Admits (.reset slot) := trivial
    have hdone := accounted.reset_done vouched here
    obtain ⟨harrays, -⟩ : (s.exec (.reset slot)).2.arrays = s.arrays ∧
        (s.exec (.reset slot)).2.lists = s.lists := exec_containers trivial
    obtain ⟨pool', here'⟩ : ∃ pool', (s.exec (.reset slot)).2.pool? slot = some pool' := by
      rcases s.reset_ends slot with ⟨-, hne⟩ | ⟨before, world, t, hbefore, -, -, -, -, hrun⟩
      · exact absurd hdone hne
      · rw [hrun]
        exact ⟨t.pool, pool?_settle_self hbefore t⟩
    obtain ⟨hadmits, hsame, hafter, hchronicle⟩ :=
      ih (vouched.exec _) (accounted.exec admitted).1 here'
    refine ⟨⟨admitted, hadmits⟩, hsame.trans harrays, hafter, fun c => ?_⟩
    rw [List.replicate_succ, chronicle, hdone, hchronicle, Function.iterate_succ_apply]
    rfl

end Session

/-- The account of an array that lodges in the pool that is reset. -/
theorem Chronicle.iterate_afterReset {c : Chronicle} {index slot : Nat} {account : ArrayAccount}
    (h : c.arrays[index]? = some account) (home : account.lodging.home = slot) (n : Nat) :
    ((·.afterReset slot)^[n] c).arrays[index]? = some
      { account with lodging := ⟨slot, account.lodging.resets + n⟩ } := by
  induction n with
  | zero =>
    obtain ⟨⟨_, _⟩, _, _, _⟩ := account
    subst home
    exact h
  -- every reset of its home is counted, and nothing else about the account changes
  | succ n ih =>
    rw [Function.iterate_succ_apply', afterReset, List.getElem?_map, ih, Option.map_some,
      Lodging.afterReset, if_pos rfl]
    rfl

end RegionPool
