import RegionPool.Proofs.Allocation
import RegionPool.Proofs.Lifecycle
import RegionPool.Proofs.Operations

/-!
# A caller and the regions it was given

A `Tenancy` is a pool together with the regions that one caller was given by it, each with what
became of it and, while it is in use, with the bytes last written to it. A `Deed` is one thing the
caller does; it is carried out by the pool's own operation (`Tenancy.step`), whatever that comes
back with, and the records are only kept beside it.

A caller may do whatever it likes, with one exception: a region that was given back to its block is
not touched any more (`Handle.Kept`). Regions from before a reset are refused by the pool, as long as
it can date them (`Handle.Dated`): one that was handed out a multiple of `2 ^ 32` resets ago has the
generation of the pool again. Deeds are allowed if they touch no handles but such
(`Tenancy.allowsAll_iff`).

* `Tenancy.Sound` — the pool honours the leases of all regions in use, and large buffers that were
  given back are gone;
* `Tenancy.Sound.step`, `Tenancy.Sound.run` — every deed keeps a tenancy sound, beside the leases of
  others.
-/

namespace RegionPool

open PoolM

/-- After a reset the blocks are sound as before, and nothing is leased. -/
theorem PoolState.Honours.rewound {s t : PoolState} {leases : List Lease} (h : s.Honours leases)
    (hpool : t.pool = s.pool.rewound) : t.Honours [] where
  pool := by
    rw [hpool]
    refine ⟨fun block hmem => ?_, fun _ hmem => (List.not_mem_nil hmem).elim, List.Pairwise.nil⟩
    obtain ⟨before, hbefore, rfl⟩ := List.mem_map.mp hmem
    -- the cursor is back at the start of the block
    have hsound := h.pool.sound before hbefore
    exact ⟨Nat.le_refl _, Nat.le_trans hsound.start_le_cursor hsound.cursor_le_limit⟩
  numbered held hmem := by
    rw [hpool] at hmem
    change held ∈ s.pool.large.emptied.buffers at hmem
    rw [LargeTable.buffers_emptied] at hmem
    exact (List.not_mem_nil hmem).elim

/-! ### What a caller was given -/

/-- **What became of a region.** -/
inductive Standing where
  /-- It is in use, and these bytes were last written to it. -/
  | live (bytes : Bytes)
  /-- It was given back to its block. -/
  | reclaimed
  /-- Its large buffer was given back. -/
  | freed
  /-- The pool was reset this many times since. -/
  | stale (resets : Nat)
  deriving Repr, DecidableEq

/-- **A region that a caller was given**, in its latest value. -/
structure Handle where
  region : Region
  standing : Standing
  deriving Repr, DecidableEq

namespace Handle

/-- The lease of a region in use. -/
def leases (handle : Handle) : List Lease :=
  match handle.standing with
  | .live bytes => [{ region := handle.region, bytes }]
  | .reclaimed | .freed | .stale _ => []

/-- The handle after its region was lengthened; `tail` is what is read behind it. -/
def lengthened (handle : Handle) (longer : Region) (tail : Bytes) : Handle :=
  match handle.standing with
  | .live bytes => { region := longer, standing := .live (bytes ++ tail) }
  | .reclaimed | .freed | .stale _ => handle

/-- The handle after `data` was written to its region, from the byte `start` on. -/
def rewritten (handle : Handle) (start : Nat) (data : Bytes) : Handle :=
  match handle.standing with
  | .live bytes => { handle with standing := .live (bytes.overwrite start data) }
  | .reclaimed | .freed | .stale _ => handle

/-- The handle after a reset. -/
def outdated (handle : Handle) : Handle :=
  match handle.standing with
  | .live _ | .reclaimed => { handle with standing := .stale 1 }
  | .freed => handle
  | .stale resets => { handle with standing := .stale (resets + 1) }

/-- **Whether a handle may be used** to lengthen its region, to write to it or to give it back: not
if its region was given back already, nor if the generation of the pool has come round to it. -/
def Usable (handle : Handle) : Prop :=
  match handle.standing with
  | .live _ | .freed => True
  | .reclaimed => False
  | .stale resets => resets % 2 ^ (32 : Nat) ≠ 0

instance : DecidablePred Usable
  | ⟨_, .live _⟩ | ⟨_, .freed⟩ => .isTrue trivial
  | ⟨_, .reclaimed⟩ => .isFalse id
  | ⟨_, .stale resets⟩ => inferInstanceAs (Decidable (resets % 2 ^ (32 : Nat) ≠ 0))

/-- **A handle that the caller has kept**: its region was not given back to its block. -/
def Kept (handle : Handle) : Prop := handle.standing ≠ .reclaimed

/-- **A handle that the pool can date**: unless it was handed out since the last reset, its
generation is not the present one. Generations are counted in 32 bits, so the counter may have come
round. -/
def Dated (handle : Handle) : Prop :=
  ∀ resets, handle.standing = .stale resets → resets % 2 ^ (32 : Nat) ≠ 0

instance : DecidablePred Kept := fun handle =>
  inferInstanceAs (Decidable (handle.standing ≠ .reclaimed))

instance : DecidablePred Dated
  | ⟨_, .live _⟩ | ⟨_, .reclaimed⟩ | ⟨_, .freed⟩ => .isTrue nofun
  | ⟨_, .stale resets⟩ =>
    decidable_of_iff (resets % 2 ^ (32 : Nat) ≠ 0)
      ⟨fun h _ heq => Standing.stale.inj heq ▸ h, fun h => h resets rfl⟩

/-- To be used, a handle must have been kept, and the pool must be able to date it. -/
theorem usable_iff {handle : Handle} : handle.Usable ↔ handle.Kept ∧ handle.Dated := by
  obtain ⟨region, standing⟩ := handle
  cases standing with
  | live bytes => exact ⟨fun _ => ⟨nofun, nofun⟩, fun _ => trivial⟩
  | reclaimed => exact ⟨False.elim, fun h => h.1 rfl⟩
  | freed => exact ⟨fun _ => ⟨nofun, nofun⟩, fun _ => trivial⟩
  | stale resets =>
    exact ⟨fun h => ⟨nofun, fun _ heq => Standing.stale.inj heq ▸ h⟩, fun h => h.2 resets rfl⟩

/-- **What is known of a region that is not in use any more**: that its large buffer is gone, and
how old its generation is. -/
def Settled (handle : Handle) (s : PoolState) : Prop :=
  match handle.standing with
  | .live _ => True
  | .reclaimed => handle.region.generation = s.pool.generation ∧
      ∀ id, handle.region.place ≠ .large id
  | .freed => ∃ id, handle.region.place = .large id ∧ s.Gone id
  | .stale resets => (handle.region.generation + resets) % 2 ^ (32 : Nat) = s.pool.generation ∧
      ∀ id, handle.region.place = .large id → s.Gone id

/-- What is settled stays settled. -/
theorem Settled.onward {handle : Handle} {s t : PoolState} (h : handle.Settled s)
    (onward : s.Onward t) : handle.Settled t := by
  have hgeneration := onward.moves.sameTraits.generation
  obtain ⟨region, standing⟩ := handle
  cases standing with
  | live bytes => trivial
  | reclaimed => exact ⟨h.1.trans hgeneration.symm, h.2⟩
  | freed =>
    obtain ⟨id, hplace, gone⟩ := h
    exact ⟨id, hplace, onward.gone gone⟩
  | stale resets => exact ⟨h.1.trans hgeneration.symm, fun id hplace => onward.gone (h.2 id hplace)⟩

/-- The pool does not hold the large buffer of a region that is not in use. -/
theorem Settled.gone {handle : Handle} {s : PoolState} (h : handle.Settled s)
    (hleases : handle.leases = []) {id : BufferId} (hplace : handle.region.place = .large id) :
    s.Gone id := by
  obtain ⟨region, standing⟩ := handle
  cases standing with
  | live bytes => cases hleases
  -- only regions in blocks are given back to them
  | reclaimed => exact absurd hplace (h.2 id)
  | freed =>
    obtain ⟨other, hother, gone⟩ := h
    obtain rfl := Place.large.inj (hplace.symm.trans hother)
    exact gone
  | stale resets => exact h.2 id hplace

end Handle

/-! ### What a caller does -/

/-- **One thing that a caller does** to a pool. Handles are named by their places. -/
inductive Deed where
  | alloc (size : Nat)
  | allocUnaligned (size : Nat)
  | allocZeroed (size : Nat)
  | allocAlignedTo (size align : Nat)
  | addCleanup (dataSize : Nat)
  | free (handle : Nat)
  | extend (handle additional : Nat)
  | reclaim (handle : Nat)
  | write (handle start : Nat) (data : Bytes)
  | copy (source target length : Nat)
  | reset
  deriving Repr, DecidableEq

/-- The handle whose region a deed lengthens, gives back to its block or writes to. -/
def Deed.touched? : Deed → Option Nat
  | .extend index _ | .reclaim index | .write index _ _ | .copy _ index _ => some index
  | .alloc _ | .allocUnaligned _ | .allocZeroed _ | .allocAlignedTo .. | .addCleanup _ | .free _
  | .reset => none

/-- **A pool and what one caller was given by it.** -/
structure Tenancy where
  state : PoolState
  handles : List Handle := []

namespace Tenancy

variable {α : Type}

/-- Carry out an action. What it did stays done, also if it fails. -/
def act (t : Tenancy) (action : PoolM α) (next : α → Tenancy → Tenancy) : Tenancy :=
  match action t.state with
  | .ok a state => next a { t with state }
  | .error _ state => { t with state }

/-- The caller is given a region, in which it finds these bytes. -/
def issue (t : Tenancy) (region : Region) (bytes : Bytes) : Tenancy :=
  { t with handles := t.handles ++ [{ region, standing := .live bytes }] }

/-- Replace a handle. -/
def setHandle (t : Tenancy) (index : Nat) (handle : Handle) : Tenancy :=
  { t with handles := t.handles.set index handle }

/-- Go on with a handle; without it nothing is done. -/
def withHandle (t : Tenancy) (index : Nat) (next : Handle → Tenancy) : Tenancy :=
  match t.handles[index]? with
  | some handle => next handle
  | none => t

/-- Allocate, and look at what is given. -/
def allocate (t : Tenancy) (action : PoolM Region) : Tenancy :=
  t.act action fun region t => t.issue region (t.state.pool.contents region)

/-- **One deed.** -/
def step (t : Tenancy) : Deed → Tenancy
  | .alloc size => t.allocate (Pool.alloc size)
  | .allocUnaligned size => t.allocate (Pool.allocUnaligned size)
  | .allocZeroed size =>
    t.act (Pool.allocZeroed size) fun region t => t.issue region (List.replicate size 0)
  | .allocAlignedTo size align => t.allocate (Pool.allocAlignedTo size align)
  | .addCleanup dataSize =>
    t.act (Pool.addCleanup dataSize) fun ticket t =>
      match ticket.data with
      | some region => t.issue region (t.state.pool.contents region)
      | none => t
  | .free index =>
    t.withHandle index fun handle =>
      t.act (Pool.free handle.region) fun status t =>
        match status with
        | .freed => t.setHandle index { handle with standing := .freed }
        | .notFound => t
  | .extend index additional =>
    t.withHandle index fun handle =>
      t.act (onPool (·.extend handle.region additional)) fun extended t =>
        match extended with
        | some longer =>
          let tail := (t.state.pool.contents longer).drop handle.region.length
          t.setHandle index (handle.lengthened longer tail)
        | none => t
  | .reclaim index =>
    t.withHandle index fun handle =>
      t.act (onPool (·.reclaim handle.region)) fun done t =>
        if done then t.setHandle index { handle with standing := .reclaimed } else t
  | .write index start data =>
    t.withHandle index fun handle =>
      t.act (onPool fun pool => return ((), ← pool.write handle.region start data)) fun _ t =>
        t.setHandle index (handle.rewritten start data)
  | .copy source target length =>
    t.withHandle source fun source =>
      t.withHandle target fun handle =>
        let data := t.state.pool.contents { source.region with length }
        t.act (onPool fun pool => return ((), ← pool.copy source.region handle.region length))
          fun _ t => t.setHandle target (handle.rewritten 0 data)
  | .reset => t.act Pool.reset fun _ t => { t with handles := t.handles.map Handle.outdated }

/-- Deeds one after the other. -/
def run (t : Tenancy) : List Deed → Tenancy
  | [] => t
  | deed :: deeds => (t.step deed).run deeds

/-- **What a caller refrains from**: using a handle that is not usable. -/
def Allows (t : Tenancy) : Deed → Prop
  | .extend index _ | .reclaim index | .write index _ _ | .copy _ index _ =>
    ∀ handle ∈ t.handles[index]?, handle.Usable
  | .alloc _ | .allocUnaligned _ | .allocZeroed _ | .allocAlignedTo .. | .addCleanup _ | .free _
  | .reset => True

/-- Deeds of which each is allowed when its turn comes. -/
def AllowsAll (t : Tenancy) : List Deed → Prop
  | [] => True
  | deed :: deeds => t.Allows deed ∧ (t.step deed).AllowsAll deeds

instance (t : Tenancy) : DecidablePred t.Allows
  | .extend index _ | .reclaim index | .write index _ _ | .copy _ index _ =>
    inferInstanceAs (Decidable (∀ handle ∈ t.handles[index]?, handle.Usable))
  | .alloc _ | .allocUnaligned _ | .allocZeroed _ | .allocAlignedTo .. | .addCleanup _ | .free _
  | .reset => .isTrue trivial

/-- Whether all deeds are allowed can be checked by doing them. -/
instance decidableAllowsAll : (t : Tenancy) → (deeds : List Deed) → Decidable (t.AllowsAll deeds)
  | _, [] => .isTrue trivial
  | t, deed :: deeds =>
    have := decidableAllowsAll (t.step deed) deeds
    inferInstanceAs (Decidable (t.Allows deed ∧ (t.step deed).AllowsAll deeds))

/-- **Every handle that deeds touch** has a property when its turn comes. -/
def TouchesAll (p : Handle → Prop) (t : Tenancy) : List Deed → Prop
  | [] => True
  | deed :: deeds =>
    (∀ index ∈ deed.touched?, ∀ handle ∈ t.handles[index]?, p handle) ∧
      (t.step deed).TouchesAll p deeds

/-- Whether it has can be checked by doing the deeds. -/
instance decidableTouchesAll (p : Handle → Prop) [DecidablePred p] :
    (t : Tenancy) → (deeds : List Deed) → Decidable (t.TouchesAll p deeds)
  | _, [] => .isTrue trivial
  | t, deed :: deeds =>
    have := decidableTouchesAll p (t.step deed) deeds
    inferInstanceAs (Decidable ((∀ index ∈ deed.touched?, ∀ handle ∈ t.handles[index]?, p handle) ∧
      (t.step deed).TouchesAll p deeds))

/-- A deed is allowed if the handle that it touches is usable. -/
theorem allows_iff {t : Tenancy} {deed : Deed} :
    t.Allows deed ↔ ∀ index ∈ deed.touched?, ∀ handle ∈ t.handles[index]?, handle.Usable := by
  cases deed <;> simp [Allows, Deed.touched?]

/-- **Deeds are allowed** if the caller has kept all handles that they touch, and the pool can date
them. -/
theorem allowsAll_iff {t : Tenancy} {deeds : List Deed} :
    t.AllowsAll deeds ↔ t.TouchesAll Handle.Kept deeds ∧ t.TouchesAll Handle.Dated deeds := by
  induction deeds generalizing t with
  | nil => exact ⟨fun _ => ⟨trivial, trivial⟩, fun _ => trivial⟩
  | cons deed deeds ih =>
    rw [AllowsAll, TouchesAll, TouchesAll, ih, allows_iff]
    simp only [Handle.usable_iff]
    -- being usable is being kept and dated, for each handle that is touched
    constructor
    · rintro ⟨hdeed, hkept, hdated⟩
      exact ⟨⟨fun index hindex handle hhandle => (hdeed index hindex handle hhandle).1, hkept⟩,
        fun index hindex handle hhandle => (hdeed index hindex handle hhandle).2, hdated⟩
    · rintro ⟨⟨hdeed, hkept⟩, hdeed', hdated⟩
      exact ⟨fun index hindex handle hhandle => ⟨hdeed index hindex handle hhandle,
        hdeed' index hindex handle hhandle⟩, hkept, hdated⟩

/-- The leases of all regions in use. -/
def leases (t : Tenancy) : List Lease := t.handles.flatMap Handle.leases

/-- The leases of all regions in use but one. -/
def leasesBut (t : Tenancy) (index : Nat) : List Lease :=
  (t.handles.eraseIdx index).flatMap Handle.leases

/-! ### Sound tenancies -/

/-- **A tenancy is sound**: its pool is in order and honours the leases of the regions in use,
beside those of others, and the other regions are settled. -/
structure Sound (t : Tenancy) (others : List Lease) : Prop where
  ordered : t.state.Ordered
  honours : t.state.Honours (t.leases ++ others)
  settled : ∀ handle ∈ t.handles, handle.Settled t.state

section Sound

variable {t : Tenancy} {s : PoolState} {others : List Lease} {index : Nat} {handle moved : Handle}
  {region : Region} {bytes : Bytes}

/-- The leases of a tenancy, with those of one handle in front. -/
theorem leases_perm (h : t.handles[index]? = some handle) :
    t.leases.Perm (handle.leases ++ t.leasesBut index) := by
  obtain ⟨hlt, rfl⟩ := List.getElem?_eq_some_iff.mp h
  exact (List.getElem_cons_eraseIdx_perm hlt).symm.flatMap_right _

theorem leases_setHandle_perm (moved : Handle) (h : t.handles[index]? = some handle) :
    (t.setHandle index moved).leases.Perm (moved.leases ++ t.leasesBut index) := by
  obtain ⟨hlt, -⟩ := List.getElem?_eq_some_iff.mp h
  exact (List.set_perm_cons_eraseIdx hlt moved).flatMap_right _

namespace Sound

/-- What is honoured is read. -/
private theorem contents_eq {leases : List Lease} (h : s.Honours (⟨region, bytes⟩ :: leases)) :
    s.pool.contents region = bytes :=
  h.pool.contents_eq List.mem_cons_self

/-- The pool moves on, and the handles are what they were. -/
theorem onward {others' : List Lease} (sound : t.Sound others) (onward : t.state.Onward s)
    (honours : s.Honours (t.leases ++ others')) : { t with state := s }.Sound others' where
  ordered := onward.ordered
  honours := honours
  settled handle hmem := (sound.settled handle hmem).onward onward

/-- A region is given to the caller. -/
theorem issue (sound : t.Sound others) (onward : t.state.Onward s)
    (honours : s.Honours (⟨region, bytes⟩ :: (t.leases ++ others))) :
    ({ t with state := s }.issue region bytes).Sound others where
  ordered := onward.ordered
  honours := by
    -- the new lease stands behind those of the caller and in front of those of others
    have hleases : ({ t with state := s }.issue region bytes).leases =
        t.leases ++ [⟨region, bytes⟩] := List.flatMap_append
    rw [hleases, List.append_assoc]
    exact honours.perm List.perm_middle.symm
  settled handle hmem := by
    rcases List.mem_append.mp hmem with hmem | hmem
    · exact (sound.settled handle hmem).onward onward
    · obtain rfl := List.mem_singleton.mp hmem
      trivial

/-- A handle changes. -/
theorem setHandle (sound : t.Sound others) (hhandle : t.handles[index]? = some handle)
    (onward : t.state.Onward s)
    (honours : s.Honours (moved.leases ++ (t.leasesBut index ++ others)))
    (settled : moved.Settled s) :
    ({ t with state := s }.setHandle index moved).Sound others where
  ordered := onward.ordered
  honours := by
    -- the leases are those of the other handles, in another order
    have hperm := leases_setHandle_perm (t := { t with state := s }) moved hhandle
    refine honours.perm ?_
    rw [← List.append_assoc]
    exact (hperm.append_right others).symm
  settled other hmem := by
    rcases List.mem_or_eq_of_mem_set hmem with hmem | rfl
    · exact (sound.settled other hmem).onward onward
    · exact settled

/-- The leases of a sound tenancy, with that of one region in use in front. -/
theorem honours_live (sound : t.Sound others)
    (hhandle : t.handles[index]? = some ⟨region, .live bytes⟩) :
    t.state.Honours (⟨region, bytes⟩ :: (t.leasesBut index ++ others)) := by
  refine sound.honours.perm ?_
  exact (leases_perm hhandle).append_right others

/-- An action, and what is made of its result. -/
theorem act {α : Type} {action : PoolM α} {next : α → Tenancy → Tenancy}
    (h : Ends action t.state (fun a s => (next a { t with state := s }).Sound others)
      (fun _ s => { t with state := s }.Sound others)) : (t.act action next).Sound others := by
  rw [Tenancy.act]
  split
  · next run => exact h.ok_of run
  · next run => exact h.fail_of run

/-- **Regions not in use are not known to the pool**, if they may be touched at all. -/
theorem not_knows (sound : t.Sound others) (hhandle : t.handles[index]? = some handle)
    (usable : handle.Usable) (hleases : handle.leases = []) :
    ¬ t.state.pool.Knows handle.region := by
  intro knows
  have hsettled := sound.settled handle (List.mem_of_getElem? hhandle)
  obtain ⟨region, standing⟩ := handle
  cases standing with
  | live bytes => cases hleases
  | reclaimed => exact usable
  | freed =>
    -- a large region that is known has its buffer in the pool, but this one is gone
    obtain ⟨id, hplace, gone⟩ := hsettled
    obtain ⟨buffer, hbuffer, hid⟩ := Pool.mem_buffers_of_knows knows hplace
    exact gone.absent buffer (List.mem_append_left _ hbuffer) hid
  | stale resets =>
    obtain ⟨found, hresolve⟩ := knows
    -- a known region is of the present generation, and only whole rounds of the counter lead there
    have hage : (region.generation + resets) % 2 ^ 32 = t.state.pool.generation := hsettled.1
    have hsame : region.generation = t.state.pool.generation :=
      (Pool.resolve_eq_ok_iff.mp hresolve).2.1
    have hresets : resets % 2 ^ 32 ≠ 0 := usable
    omega

/-- A function of the pool that cannot succeed leaves it as it is. -/
theorem ends_onPool_of_ne {α : Type} {f : Pool → Except Failure (α × Pool)}
    (h : ∀ found, f s.pool ≠ .ok found) {ok : α → PoolState → Prop} :
    Ends (onPool f) s ok (fun _ t => t = s) :=
  ends_onPool.mpr ⟨fun a pool run => absurd run (h (a, pool)), fun _ _ => rfl⟩

/-- **A region is touched.** Only that of a handle in use need be looked at. -/
theorem touch {α : Type} {f : Pool → Except Failure (α × Pool)} {next : α → Tenancy → Tenancy}
    (sound : t.Sound others) (hhandle : t.handles[index]? = some handle)
    (usable : handle.Usable)
    (knows : ∀ found, f t.state.pool = .ok found → t.state.pool.Knows handle.region)
    (live : ∀ region bytes, handle = ⟨region, .live bytes⟩ →
      Ends (onPool f) t.state (fun a s => (next a { t with state := s }).Sound others)
        (fun _ s => s = t.state)) : (t.act (onPool f) next).Sound others := by
  have hends : Ends (onPool f) t.state (fun a s => (next a { t with state := s }).Sound others)
      (fun _ s => s = t.state) := by
    obtain ⟨region, standing⟩ := handle
    cases standing with
    | live bytes => exact live region bytes rfl
    -- no other handle that may be used is known, so there is nothing to look at
    | _ =>
      exact ends_onPool_of_ne fun found run => sound.not_knows hhandle usable rfl (knows found run)
  refine .act (hends.mono (fun _ _ h => h) fun _ s hs => ?_)
  obtain rfl := hs
  exact sound

/-! ### Every deed keeps a tenancy sound -/

/-- **An allocation.** -/
theorem allocate {size : Nat} {action : PoolM Region} (sound : t.Sound others)
    (orderly : Orderly action)
    (hleases : ∀ leases, t.state.Honours leases →
      Ends action t.state (fun region s => s.Leases size region leases)
        (fun _ s => s.Honours leases)) : (t.allocate action).Sound others := by
  refine .act (((hleases _ sound.honours).and (orderly.onward sound.ordered)).mono ?_ ?_)
  · rintro region s ⟨⟨-, bytes, honours⟩, onward⟩
    dsimp only
    -- what the new region reads is noted down as its contents
    rw [contents_eq honours]
    exact sound.issue onward honours
  · rintro failure s ⟨honours, onward, -⟩
    exact sound.onward onward honours

theorem allocZeroed {size : Nat} (sound : t.Sound others) :
    (t.step (.allocZeroed size)).Sound others := by
  rw [step]
  refine .act (((Pool.allocZeroed_leases sound.honours).and
    (Pool.allocZeroed_orderly.onward sound.ordered)).mono ?_ ?_)
  · rintro region s ⟨⟨-, honours⟩, onward⟩
    exact sound.issue onward honours
  · rintro failure s ⟨honours, onward, -⟩
    exact sound.onward onward honours

theorem addCleanup {dataSize : Nat} (sound : t.Sound others) :
    (t.step (.addCleanup dataSize)).Sound others := by
  rw [step]
  refine .act (((Pool.addCleanup_leases sound.honours).and
    (Pool.addCleanup_orderly.onward sound.ordered)).mono ?_ ?_)
  · rintro ticket s ⟨hticket, onward⟩
    dsimp only
    -- with data, there is one more region to stand by
    split
    · next region hdata =>
      rw [hdata] at hticket
      obtain ⟨-, bytes, honours⟩ := hticket
      rw [contents_eq honours]
      exact sound.issue onward honours
    · next hdata =>
      rw [hdata] at hticket
      exact sound.onward onward hticket
  · rintro failure s ⟨honours, onward, -⟩
    exact sound.onward onward honours

/-- **A buffer given back early.** Only a region in use is found. -/
theorem free (sound : t.Sound others) : (t.step (.free index)).Sound others := by
  rw [step, withHandle]
  split
  · next handle hhandle =>
    refine .act ((Pool.free_leases.and (Pool.free_orderly.onward sound.ordered)).mono ?_ ?_)
    · rintro status s ⟨hstatus, onward⟩
      cases status with
      | notFound =>
        obtain rfl : s = t.state := hstatus
        exact sound
      | freed =>
        obtain ⟨id, hplace, hperm, hnext, honours⟩ := hstatus
        -- the buffer was in the pool, so the handle is in use: those of the others are gone
        obtain ⟨buffer, hbuffer, hid⟩ : ∃ buffer ∈ t.state.pool.buffers, buffer.id = id :=
          List.mem_map.mp (hperm.mem_iff.mpr List.mem_cons_self)
        have hlive : handle.leases ≠ [] := fun hleases =>
          ((sound.settled handle (List.mem_of_getElem? hhandle)).gone hleases hplace).absent buffer
            hbuffer hid
        obtain ⟨region, standing⟩ := handle
        cases standing with
        | live bytes =>
          have hhonours := sound.honours_live hhandle
          refine sound.setHandle hhandle onward (honours _ hhonours.tail fun lease hmem => ?_)
            ⟨id, hplace, ?_, fun other hmem heq => ?_⟩
          · exact (hhonours.pool.apart_head lease hmem).large id hplace
          · rw [hnext, ← hid]
            exact sound.ordered.given hbuffer
          · -- no number is held twice, so the one that was struck out is not held any more
            have hnodup := hperm.nodup_iff.mp sound.ordered.nodup
            exact (List.nodup_cons.mp hnodup).1 (List.mem_map.mpr ⟨other, hmem, heq⟩)
        | _ => exact (hlive rfl).elim
    · rintro failure s ⟨⟨id, rfl⟩, -, hfailure⟩
      exact absurd rfl (hfailure id)
  · exact sound

/-- **A region lengthened where it is.** -/
theorem extend {additional : Nat} (sound : t.Sound others)
    (allowed : t.Allows (.extend index additional)) :
    (t.step (.extend index additional)).Sound others := by
  rw [step, withHandle]
  split
  · next handle hhandle =>
    refine sound.touch hhandle (allowed handle hhandle) (fun found => Pool.knows_of_extend) ?_
    rintro region bytes rfl
    have honours := sound.honours_live hhandle
    refine ((Pool.extend_leases honours).and (Pool.extend_orderly.onward sound.ordered)).mono ?_
      fun _ _ h => h.1
    rintro extended s ⟨hextended, onward⟩
    cases extended with
    | none =>
      obtain rfl : s = t.state := hextended
      exact sound
    | some longer =>
      obtain ⟨rfl, tail, -, hlonger⟩ := hextended
      -- what the caller finds behind the old bytes is the tail of the longer lease
      have htail : (s.pool.contents { region with length := region.length + additional }).drop
          region.length = tail := by
        rw [contents_eq hlonger, ← honours.pool.head.length_bytes, List.drop_left]
      dsimp only
      rw [htail]
      exact sound.setHandle hhandle onward hlonger trivial
  · exact sound

/-- **A region given back to its block.** -/
theorem reclaim (sound : t.Sound others) (allowed : t.Allows (.reclaim index)) :
    (t.step (.reclaim index)).Sound others := by
  rw [step, withHandle]
  split
  · next handle hhandle =>
    refine sound.touch hhandle (allowed handle hhandle) (fun found => Pool.knows_of_reclaim) ?_
    rintro region bytes rfl
    have honours := sound.honours_live hhandle
    refine ((Pool.reclaim_leases honours).and (Pool.reclaim_orderly.onward sound.ordered)).mono ?_
      fun _ _ h => h.1
    rintro done s ⟨⟨hafter, hkept, hblock⟩, onward⟩
    cases done with
    | false =>
      obtain rfl := hkept rfl
      exact sound
    | true =>
      refine sound.setHandle hhandle onward hafter ⟨?_, fun id hplace => ?_⟩
      · exact honours.pool.head.generation.trans onward.moves.sameTraits.generation.symm
      · -- A large region is not given back this way.
        obtain ⟨index, offset, hplace'⟩ := hblock rfl
        exact nomatch hplace.symm.trans hplace'
  · exact sound

/-- **Bytes written to a region.** -/
theorem write {start : Nat} {data : Bytes} (sound : t.Sound others)
    (allowed : t.Allows (.write index start data)) :
    (t.step (.write index start data)).Sound others := by
  rw [step, withHandle]
  split
  · next handle hhandle =>
    -- the write is all that the action does
    have hinverse : ∀ found, (do return ((), ← t.state.pool.write handle.region start data) :
        Except Failure (Unit × Pool)) = .ok found →
          ∃ after, t.state.pool.write handle.region start data = .ok after := fun found run => by
      obtain ⟨after, hrun, -⟩ := bind_eq_ok_iff.mp run
      exact ⟨after, hrun⟩
    refine sound.touch hhandle (allowed handle hhandle) (fun found run => ?_) ?_
    · obtain ⟨after, hrun⟩ := hinverse found run
      exact Pool.knows_of_write hrun
    rintro region bytes rfl
    by_cases hfits : start + data.length ≤ region.length
    · refine ((Pool.write_leases (sound.honours_live hhandle) hfits).and
        (Pool.write_orderly.onward sound.ordered)).mono ?_ fun _ _ h => h.1.elim
      rintro - s ⟨hafter, onward⟩
      exact sound.setHandle hhandle onward hafter trivial
    · -- a write that does not fit is refused
      refine ends_onPool_of_ne fun found run => ?_
      obtain ⟨after, hrun⟩ := hinverse found run
      exact hfits (Pool.write_eq_ok hrun).1
  · exact sound

/-- **Bytes copied to a region.** -/
theorem copy {source length : Nat} (sound : t.Sound others)
    (allowed : t.Allows (.copy source index length)) :
    (t.step (.copy source index length)).Sound others := by
  rw [step, withHandle]
  split
  · next origin _ =>
    rw [withHandle]
    split
    · next handle hhandle =>
      refine sound.touch hhandle (allowed handle hhandle) (fun found run => ?_) ?_
      · obtain ⟨after, hrun, -⟩ := bind_eq_ok_iff.mp run
        exact Pool.knows_of_copy hrun
      rintro region bytes rfl
      refine ((Pool.copy_leases (sound.honours_live hhandle)).and
        (Pool.copy_orderly.onward sound.ordered)).mono ?_ fun _ _ h => h.1
      rintro - s ⟨⟨data, hdata, -, hafter⟩, onward⟩
      -- whatever the source reads is what is written, also if nobody holds it any more
      have hcontents : t.state.pool.contents { origin.region with length } = data := by
        rw [Pool.contents, hdata]
      dsimp only
      rw [hcontents]
      exact sound.setHandle hhandle onward hafter trivial
    · exact sound
  · exact sound

/-- **A reset** ends all leases. -/
theorem reset (sound : t.Sound []) : (t.step .reset).Sound [] := by
  rw [step]
  refine .act ((Pool.reset_onward sound.ordered).mono ?_ fun _ _ h => h.elim)
  rintro - s ⟨ordered, hpool, hgone, hlarge⟩
  -- no handle is in use after a reset
  have hleases : ∀ handle : Handle, handle.outdated.leases = [] := by
    rintro ⟨region, standing⟩
    cases standing <;> rfl
  have hgeneration : s.pool.generation = (t.state.pool.generation + 1) % 2 ^ 32 := by
    rw [hpool]
    rfl
  refine ⟨ordered, ?_, fun handle hmem => ?_⟩
  · have hnone : Tenancy.leases { t with state := s, handles := t.handles.map Handle.outdated } =
        [] := by
      simp [leases, List.flatMap_map, hleases]
    rw [hnone]
    exact sound.honours.rewound hpool
  · obtain ⟨before, hbefore, rfl⟩ := List.mem_map.mp hmem
    have hsettled := sound.settled before hbefore
    obtain ⟨region, standing⟩ := before
    cases standing with
    | live bytes =>
      have hkeeps := sound.honours.pool.keeps ⟨region, bytes⟩
        (List.mem_append_left _ (List.mem_flatMap.mpr ⟨_, hbefore, List.mem_singleton_self _⟩))
      have hpresent : region.generation = t.state.pool.generation := hkeeps.generation
      refine ⟨(congrArg (fun g => (g + 1) % 2 ^ 32) hpresent).trans hgeneration.symm,
        fun id hplace => ?_⟩
      -- The buffer of a large region in use was still held.
      obtain ⟨buffer, hbuffer, hid⟩ := Pool.mem_buffers_of_knows hkeeps.knows hplace
      exact hid ▸ hlarge buffer hbuffer
    | reclaimed =>
      obtain ⟨hsame, hplace⟩ := hsettled
      exact ⟨(congrArg (fun g => (g + 1) % 2 ^ 32) hsame).trans hgeneration.symm,
        fun id heq => absurd heq (hplace id)⟩
    | freed =>
      obtain ⟨id, hplace, gone⟩ := hsettled
      exact ⟨id, hplace, hgone id gone⟩
    | stale resets =>
      obtain ⟨hage, gone⟩ := hsettled
      refine ⟨?_, fun id hplace => hgone id (gone id hplace)⟩
      -- both counters go on by one
      change (region.generation + resets) % 2 ^ 32 = t.state.pool.generation at hage
      change (region.generation + (resets + 1)) % 2 ^ 32 = s.pool.generation
      rw [hgeneration]
      omega

/-- **Every deed but a reset** keeps a tenancy sound, beside the leases of others. -/
theorem step_of_ne {deed : Deed} (sound : t.Sound others) (allowed : t.Allows deed)
    (hne : deed ≠ .reset) : (t.step deed).Sound others := by
  cases deed with
  | alloc size => exact sound.allocate Pool.alloc_orderly fun _ => Pool.alloc_leases
  | allocUnaligned size =>
    exact sound.allocate Pool.allocUnaligned_orderly fun _ => Pool.allocUnaligned_leases
  | allocZeroed size => exact sound.allocZeroed
  | allocAlignedTo size align =>
    exact sound.allocate Pool.allocAlignedTo_orderly fun _ => Pool.allocAlignedTo_leases
  | addCleanup dataSize => exact sound.addCleanup
  | free index => exact sound.free
  | extend index additional => exact sound.extend allowed
  | reclaim index => exact sound.reclaim allowed
  | write index start data => exact sound.write allowed
  | copy source target length => exact sound.copy allowed
  -- a reset gives up all leases at once, and has a lemma of its own
  | reset => exact absurd rfl hne

/-- **Every deed** keeps a tenancy sound. -/
theorem step {deed : Deed} (sound : t.Sound []) (allowed : t.Allows deed) :
    (t.step deed).Sound [] := by
  by_cases hreset : deed = .reset
  · obtain rfl := hreset
    exact sound.reset
  · exact sound.step_of_ne allowed hreset

/-- **All deeds** keep a tenancy sound. -/
theorem run {deeds : List Deed} (sound : t.Sound []) (allowed : t.AllowsAll deeds) :
    (t.run deeds).Sound [] := by
  induction deeds generalizing t with
  | nil => exact sound
  | cons deed deeds ih =>
    -- the first deed leaves a sound tenancy, and the others start from there
    obtain ⟨hdeed, hdeeds⟩ := allowed
    exact ih (sound.step hdeed) hdeeds

end Sound

end Sound

end Tenancy

end RegionPool
