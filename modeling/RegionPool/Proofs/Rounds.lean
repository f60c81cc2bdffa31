import Mathlib.Logic.Function.Iterate
import RegionPool.Proofs.Tenancy

/-!
# Generations that come round

A reset counts the generation of a pool up, in 32 bits. As long as there are fewer than `2 ^ 32`
resets, the generation dates every handle that was given out: it is the present one only if there
was no reset since. After a whole round of `2 ^ 32` resets the pool cannot be told from one that was
reset once, but that its generation is the old one; so handles from before the round pass for present
ones.

* `Pool.iterate_rewound` — a pool that is reset over and over, and `Pool.iterate_rewound_round`
  after a whole round;
* `Tenancy.run_replicate_reset` — what resets leave of a tenancy;
* `Tenancy.touchesAll_dated` — with fewer than `2 ^ 32` resets, the pool can date every handle.
-/

namespace RegionPool

/-! ### A pool that is reset over and over -/

theorem Chain.reset_reset (chain : Chain) : chain.reset.reset = chain.reset := by
  rw [Chain.reset, Chain.reset, List.map_map]
  rfl

theorem LargeTable.emptied_emptied (table : LargeTable) :
    table.emptied.emptied = table.emptied := by
  rw [LargeTable.emptied, LargeTable.emptied, List.map_map]
  rfl

/-- **A pool that is reset over and over** is as it was after the first time, but for its
generation. -/
theorem Pool.iterate_rewound (pool : Pool) (n : Nat) : Pool.rewound^[n + 1] pool =
    { pool.rewound with generation := (pool.generation + (n + 1)) % 2 ^ (32 : Nat) } := by
  induction n with
  | zero => rfl
  | succ n ih =>
    have hgeneration : ((pool.generation + (n + 1)) % 2 ^ (32 : Nat) + 1) % 2 ^ (32 : Nat) =
        (pool.generation + (n + 1 + 1)) % 2 ^ (32 : Nat) := by omega
    -- all else that a reset does was done by the resets before it
    rw [Function.iterate_succ_apply', ih]
    simp only [Pool.rewound, Chain.reset_reset, LargeTable.emptied_emptied, hgeneration]

/-- **After a whole round** the generation is the old one. -/
theorem Pool.iterate_rewound_round (pool : Pool) (h : pool.generation < 2 ^ (32 : Nat)) :
    Pool.rewound^[2 ^ (32 : Nat)] pool = { pool.rewound with generation := pool.generation } := by
  have hround : 2 ^ (32 : Nat) = 2 ^ (32 : Nat) - 1 + 1 := by omega
  have hgeneration : (pool.generation + (2 ^ (32 : Nat) - 1 + 1)) % 2 ^ (32 : Nat) =
      pool.generation := by omega
  rw [hround, Pool.iterate_rewound, hgeneration]

/-! ### Handles from before a reset -/

namespace Handle

variable {handle : Handle} {resets : Nat}

theorem iterate_outdated {region : Region} {bytes : Bytes} (n : Nat) :
    Handle.outdated^[n + 1] ⟨region, .live bytes⟩ = ⟨region, .stale (n + 1)⟩ := by
  induction n with
  | zero => rfl
  | succ n ih =>
    rw [Function.iterate_succ_apply', ih]
    rfl

/-- Lengthening makes no handle older, and neither does writing. -/
theorem stale_of_lengthened {longer : Region} {tail : Bytes}
    (h : (handle.lengthened longer tail).standing = .stale resets) :
    handle.standing = .stale resets := by
  obtain ⟨region, standing⟩ := handle
  cases standing with
  | live bytes => cases h
  | _ => exact h

theorem stale_of_rewritten {start : Nat} {data : Bytes}
    (h : (handle.rewritten start data).standing = .stale resets) :
    handle.standing = .stale resets := by
  obtain ⟨region, standing⟩ := handle
  cases standing with
  | live bytes => cases h
  | _ => exact h

end Handle

namespace Tenancy

variable {t : Tenancy} {p : Handle → Prop} {deeds later : List Deed}

theorem run_append : t.run (deeds ++ later) = (t.run deeds).run later := by
  induction deeds generalizing t with
  | nil => rfl
  | cons deed deeds ih => exact ih

theorem touchesAll_append :
    t.TouchesAll p (deeds ++ later) ↔ t.TouchesAll p deeds ∧ (t.run deeds).TouchesAll p later := by
  induction deeds generalizing t with
  | nil => exact ⟨fun h => ⟨trivial, h⟩, And.right⟩
  | cons deed deeds ih => simp only [List.cons_append, TouchesAll, run, ih, and_assoc]

/-- Resets touch no handle. -/
theorem touchesAll_replicate_reset (n : Nat) : t.TouchesAll p (List.replicate n .reset) := by
  induction n generalizing t with
  | zero => trivial
  | succ n ih => exact ⟨fun _ hindex => (nomatch hindex), ih⟩

/-- **Resets one after the other** go through, rewind the pool and outdate the handles. -/
theorem run_replicate_reset (sound : t.Sound []) (n : Nat) :
    ∃ w, t.run (List.replicate n .reset) =
      { state := ⟨Pool.rewound^[n] t.state.pool, w⟩,
        handles := t.handles.map Handle.outdated^[n] } := by
  induction n generalizing t with
  | zero => exact ⟨t.state.world, by simp [run]⟩
  | succ n ih =>
    obtain ⟨⟨⟩, ⟨pool, w⟩, hreset, -, hpool, -⟩ := (Pool.reset_onward sound.ordered).exists_ok
    obtain rfl : pool = t.state.pool.rewound := hpool
    have hstep : t.step .reset =
        { state := ⟨t.state.pool.rewound, w⟩, handles := t.handles.map Handle.outdated } := by
      rw [step, act, hreset]
    -- the first reset leaves a sound tenancy, so the others go through as well
    obtain ⟨w', hrun⟩ := ih (hstep ▸ sound.reset)
    refine ⟨w', ?_⟩
    rw [List.replicate_succ, run, hstep, hrun, List.map_map]
    rfl

/-- **Handles are at most so old**, in resets, and at least one reset old if they are from before
one. -/
def Aged (t : Tenancy) (age : Nat) : Prop :=
  ∀ handle ∈ t.handles, ∀ resets, handle.standing = .stale resets → 0 < resets ∧ resets ≤ age

namespace Aged

variable {age age' : Nat} {index : Nat} {handle moved : Handle}

theorem mono (aged : t.Aged age) (hle : age ≤ age') : t.Aged age' :=
  fun handle hmem resets hstale =>
    ⟨(aged handle hmem resets hstale).1, (aged handle hmem resets hstale).2.trans hle⟩

/-- A handle that is young enough can be dated. -/
theorem dated (aged : t.Aged age) (few : age < 2 ^ (32 : Nat)) (hmem : handle ∈ t.handles) :
    handle.Dated := by
  intro resets hstale
  obtain ⟨hpos, hle⟩ := aged handle hmem resets hstale
  rw [Nat.mod_eq_of_lt (hle.trans_lt few)]
  exact hpos.ne'

theorem issue {region : Region} {bytes : Bytes} (aged : t.Aged age) :
    (t.issue region bytes).Aged age := by
  intro handle hmem resets hstale
  rcases List.mem_append.mp hmem with hold | hnew
  · exact aged handle hold resets hstale
  · obtain rfl := List.mem_singleton.mp hnew
    cases hstale

/-- A handle is as old as before, or is from before no reset. -/
theorem setHandle (aged : t.Aged age) (hhandle : t.handles[index]? = some handle)
    (hmoved : ∀ resets, moved.standing = .stale resets → handle.standing = .stale resets) :
    (t.setHandle index moved).Aged age := by
  intro other hmem resets hstale
  rcases List.mem_or_eq_of_mem_set hmem with hold | rfl
  · exact aged other hold resets hstale
  · exact aged handle (List.mem_of_getElem? hhandle) resets (hmoved resets hstale)

theorem act {α : Type} {action : PoolM α} {next : α → Tenancy → Tenancy} (aged : t.Aged age)
    (hnext : ∀ a state, (next a { t with state }).Aged age) : (t.act action next).Aged age := by
  rw [Tenancy.act]
  split
  · exact hnext _ _
  · exact aged

theorem withHandle {next : Handle → Tenancy} (aged : t.Aged age)
    (hnext : ∀ handle, t.handles[index]? = some handle → (next handle).Aged age) :
    (t.withHandle index next).Aged age := by
  rw [Tenancy.withHandle]
  split
  · next handle hhandle => exact hnext handle hhandle
  · exact aged

/-- **A reset** makes every handle one reset older. -/
theorem outdated (aged : t.Aged age) :
    ∀ handle ∈ t.handles.map Handle.outdated, ∀ resets, handle.standing = .stale resets →
      0 < resets ∧ resets ≤ age + 1 := by
  intro handle hmem resets hstale
  obtain ⟨⟨region, standing⟩, hbefore, rfl⟩ := List.mem_map.mp hmem
  -- what is live or was reclaimed is one reset old from now on
  cases standing with
  | live _ | reclaimed =>
    obtain rfl := Standing.stale.inj hstale
    exact ⟨Nat.one_pos, Nat.le_add_left _ _⟩
  | freed => cases hstale
  | stale before =>
    obtain rfl := Standing.stale.inj hstale
    exact ⟨Nat.succ_pos _, Nat.succ_le_succ (aged _ hbefore before rfl).2⟩

/-- **Every deed** leaves handles as old as they are, but for a reset. -/
theorem step (aged : t.Aged age) (deed : Deed) :
    (t.step deed).Aged (age + [deed].count .reset) := by
  cases deed with
  -- a new handle is of the present generation, so it is from before no reset
  | alloc _ | allocUnaligned _ | allocZeroed _ | allocAlignedTo _ _ =>
    exact aged.act fun _ _ => aged.issue
  | addCleanup dataSize =>
    refine aged.act fun ticket state => ?_
    split
    · exact aged.issue
    · exact aged
  | free index =>
    refine aged.withHandle fun handle hhandle => aged.act fun status state => ?_
    -- a handle that is freed has no age any more
    split
    · exact aged.setHandle hhandle nofun
    · exact aged
  | extend index additional =>
    refine aged.withHandle fun handle hhandle => aged.act fun extended state => ?_
    split
    · exact aged.setHandle hhandle fun _ => Handle.stale_of_lengthened
    · exact aged
  | reclaim index =>
    refine aged.withHandle fun handle hhandle => aged.act fun done state => ?_
    split
    · exact aged.setHandle hhandle nofun
    · exact aged
  | write index start data =>
    exact aged.withHandle fun handle hhandle => aged.act fun _ state =>
      aged.setHandle hhandle fun _ => Handle.stale_of_rewritten
  | copy source target length =>
    exact aged.withHandle fun _ _ => aged.withHandle fun handle hhandle => aged.act fun _ state =>
      aged.setHandle hhandle fun _ => Handle.stale_of_rewritten
  | reset =>
    -- a reset outdates every handle by one; one that fails leaves them younger than that
    rw [Tenancy.step, Tenancy.act]
    split
    · exact aged.outdated
    · exact aged.mono (Nat.le_succ age)

end Aged

/-- **Fewer than `2 ^ 32` resets** leave the pool able to date every handle. -/
theorem touchesAll_dated {age : Nat} {deeds : List Deed} (aged : t.Aged age)
    (few : age + deeds.count .reset < 2 ^ (32 : Nat)) : t.TouchesAll Handle.Dated deeds := by
  induction deeds generalizing t age with
  | nil => trivial
  | cons deed deeds ih =>
    have hcount : (deed :: deeds).count .reset = [deed].count .reset + deeds.count .reset :=
      @List.count_append _ _ _ [deed] deeds
    refine ⟨fun index _ handle hhandle => ?_, ih (aged.step deed) (by omega)⟩
    exact aged.dated (by omega) (List.mem_of_getElem? hhandle)

end Tenancy

end RegionPool
