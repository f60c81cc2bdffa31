import RegionPool.Pool.Alloc

/-!
# How actions end

An action on a pool ends with a result or with a failure, and in either case in a state. Statements
about actions are therefore pairs: what holds of a result and its state, and what holds of a failure
and its state.

* `PoolM.Ends` — the pair holds of the way an action ends;
* `ends_bind` — an action in two parts: the second part starts where the first one ended;
* `ends_getPool`, `ends_onPool` and their like — the actions that all others are made of.

The lemmas are equivalences and simp rules, so that an action is taken apart by rewriting and each
branch of it is left as a goal of its own.
-/

namespace RegionPool

/-! ### Functions that may fail -/

section Except

variable {ε α β : Type}

/-- A function in two parts succeeds if both parts do. -/
@[simp] theorem bind_eq_ok_iff {x : Except ε α} {next : α → Except ε β} {b : β} :
    x >>= next = .ok b ↔ ∃ a, x = .ok a ∧ next a = .ok b := by
  cases x with
  | error failure =>
    constructor
    · intro h
      cases h
    · rintro ⟨a, h, -⟩
      cases h
  | ok a =>
    constructor
    · intro h
      exact ⟨a, rfl, h⟩
    · rintro ⟨a', h, h'⟩
      rwa [Except.ok.inj h]

/-- A function that checks a condition succeeds if the condition holds. -/
@[simp] theorem guard_eq_ok_iff {c : Prop} [Decidable c] {x : Except ε α} {failure : ε} {a : α} :
    (if c then x else throw failure) = .ok a ↔ c ∧ x = .ok a := by
  split
  · next h => simp [h]
  · next h => simp [h, throw, throwThe, MonadExceptOf.throw]

@[simp] theorem pure_eq_ok_iff {a b : α} : (pure a : Except ε α) = .ok b ↔ a = b :=
  ⟨Except.ok.inj, congrArg Except.ok⟩

/-- A result that is looked at is the one there was. -/
theorem eq_ok_of_mem_toOption {x : Except ε α} {a : α} (h : a ∈ x.toOption) : x = .ok a := by
  cases x with
  | error failure => cases h
  | ok a' => exact congrArg Except.ok (Option.some.inj h)

end Except

namespace PoolM

variable {α β : Type}

/-- **How an action ends.** Started in `s`, it ends either with a result and a state of which `ok`
holds, or with a failure and a state of which `fail` holds. -/
def Ends (action : PoolM α) (s : PoolState) (ok : α → PoolState → Prop)
    (fail : Failure → PoolState → Prop) : Prop :=
  match action s with
  | .ok a t => ok a t
  | .error failure t => fail failure t

section Ends

variable {action : PoolM α} {s t : PoolState} {ok ok' : α → PoolState → Prop}
  {fail fail' : Failure → PoolState → Prop}

theorem ends_of_ok {a : α} (h : action s = .ok a t) : Ends action s ok fail ↔ ok a t := by
  rw [Ends, h]

theorem ends_of_error {failure : Failure} (h : action s = .error failure t) :
    Ends action s ok fail ↔ fail failure t := by
  rw [Ends, h]

theorem Ends.ok_of {a : α} (h : Ends action s ok fail) (run : action s = .ok a t) : ok a t :=
  (ends_of_ok run).mp h

theorem Ends.fail_of {failure : Failure} (h : Ends action s ok fail)
    (run : action s = .error failure t) : fail failure t :=
  (ends_of_error run).mp h

/-- An action that does not fail has a result. -/
theorem Ends.exists_ok (h : Ends action s ok fun _ _ => False) :
    ∃ a t, action s = .ok a t ∧ ok a t := by
  cases run : action s with
  | ok a t => exact ⟨a, t, rfl, h.ok_of run⟩
  | error failure t => exact (h.fail_of run).elim

/-- An action that has no result fails. -/
theorem Ends.exists_error (h : Ends action s (fun _ _ => False) fail) :
    ∃ failure t, action s = .error failure t ∧ fail failure t := by
  cases run : action s with
  | ok a t => exact (h.ok_of run).elim
  | error failure t => exact ⟨failure, t, rfl, h.fail_of run⟩

/-- What holds of every result and of every failure holds of the end. -/
theorem Ends.of_forall (hok : ∀ a t, ok a t) (hfail : ∀ failure t, fail failure t) :
    Ends action s ok fail := by
  cases run : action s with
  | ok a t => exact (ends_of_ok run).mpr (hok a t)
  | error failure t => exact (ends_of_error run).mpr (hfail failure t)

/-- Weaker conclusions hold of the same end. -/
theorem Ends.mono (h : Ends action s ok fail) (hok : ∀ a t, ok a t → ok' a t)
    (hfail : ∀ failure t, fail failure t → fail' failure t) : Ends action s ok' fail' := by
  unfold Ends at *
  cases run : action s with
  | ok a t => rw [run] at h; exact hok a t h
  | error failure t => rw [run] at h; exact hfail failure t h

/-- Two statements about the same end. -/
theorem Ends.and (h : Ends action s ok fail) (h' : Ends action s ok' fail') :
    Ends action s (fun a t => ok a t ∧ ok' a t)
      (fun failure t => fail failure t ∧ fail' failure t) := by
  unfold Ends at *
  cases run : action s with
  | ok a t => rw [run] at h h'; exact ⟨h, h'⟩
  | error failure t => rw [run] at h h'; exact ⟨h, h'⟩

end Ends

variable {s : PoolState} {fail : Failure → PoolState → Prop}

/-! ### Sequencing -/

@[simp] theorem ends_bind {action : PoolM α} {next : α → PoolM β} {ok : β → PoolState → Prop} :
    Ends (action >>= next) s ok fail ↔
      Ends action s (fun a t => Ends (next a) t ok fail) fail := by
  cases run : action s with
  | ok a t => rw [ends_of_ok run, Ends, bind_of_ok run, ← Ends]
  | error failure t => rw [ends_of_error run, Ends, bind_of_error run]

@[simp] theorem ends_pure {a : α} {ok : α → PoolState → Prop} :
    Ends (pure a : PoolM α) s ok fail ↔ ok a s := Iff.rfl

@[simp] theorem ends_map {f : α → β} {action : PoolM α} {ok : β → PoolState → Prop} :
    Ends (f <$> action) s ok fail ↔ Ends action s (fun a t => ok (f a) t) fail := by
  cases run : action s with
  | ok a t =>
    have h : (f <$> action) s = .ok (f a) t := by simp only [Functor.map, EStateM.map, run]
    rw [ends_of_ok run, ends_of_ok h]
  | error failure t =>
    have h : (f <$> action) s = .error failure t := by simp only [Functor.map, EStateM.map, run]
    rw [ends_of_error run, ends_of_error h]

@[simp] theorem ends_discard {action : PoolM α} {ok : PUnit → PoolState → Prop} :
    Ends (discard action) s ok fail ↔ Ends action s (fun _ t => ok ⟨⟩ t) fail := by
  change Ends (Function.const α PUnit.unit <$> action) s ok fail ↔ _
  exact ends_map

/-! ### The parts of actions -/

@[simp] theorem ends_getPool {ok : Pool → PoolState → Prop} :
    Ends getPool s ok fail ↔ ok s.pool s := Iff.rfl

@[simp] theorem ends_setPool {pool : Pool} {ok : Unit → PoolState → Prop} :
    Ends (setPool pool) s ok fail ↔ ok () { s with pool } := Iff.rfl

@[simp] theorem ends_modifyWorld {f : World → World} {ok : Unit → PoolState → Prop} :
    Ends (modifyWorld f) s ok fail ↔ ok () { s with world := f s.world } := Iff.rfl

@[simp] theorem ends_log {entry : LogEntry} {ok : Unit → PoolState → Prop} :
    Ends (log entry) s ok fail ↔ ok () { s with world := s.world.log entry } := Iff.rfl

@[simp] theorem ends_refuse {error : PoolError} {ok : α → PoolState → Prop} :
    Ends (refuse error) s ok fail ↔ fail (.refused error) s := Iff.rfl

@[simp] theorem ends_throw {failure : Failure} {ok : α → PoolState → Prop} :
    Ends (throw failure : PoolM α) s ok fail ↔ fail failure s := Iff.rfl

theorem ends_ofPool {f : Pool → Except Failure α} {ok : α → PoolState → Prop} :
    Ends (ofPool f) s ok fail ↔
      (∀ a, f s.pool = .ok a → ok a s) ∧ ∀ failure, f s.pool = .error failure → fail failure s := by
  -- such an action leaves the state alone
  unfold Ends ofPool
  cases f s.pool <;> simp

theorem ends_onPool {f : Pool → Except Failure (α × Pool)} {ok : α → PoolState → Prop} :
    Ends (onPool f) s ok fail ↔
      (∀ a pool, f s.pool = .ok (a, pool) → ok a { s with pool }) ∧
        ∀ failure, f s.pool = .error failure → fail failure s := by
  unfold Ends onPool
  rcases f s.pool with _ | ⟨a, pool⟩ <;> simp

theorem ends_request {request : Request} {ok : Buffer → PoolState → Prop} :
    Ends (PoolM.request request) s ok fail ↔
      (∀ buffer world, s.world.request s.pool.allocator request = (.ok buffer, world) →
        ok buffer { s with world }) ∧
      ∀ error world, s.world.request s.pool.allocator request = (.error error, world) →
        fail (.refused (.alloc error)) { s with world } := by
  unfold Ends PoolM.request
  rcases s.world.request s.pool.allocator request with ⟨_ | _, world⟩ <;> simp

theorem ends_release {buffer : Buffer} {ok : Unit → PoolState → Prop} :
    Ends (release buffer) s ok fail ↔
      (∀ world, s.world.release s.pool.allocator buffer = (.ok (), world) →
        ok () { s with world }) ∧
      ∀ fault world, s.world.release s.pool.allocator buffer = (.error fault, world) →
        fail (.fault fault) { s with world } := by
  unfold Ends release
  rcases s.world.release s.pool.allocator buffer with ⟨_ | _, world⟩ <;> simp

/-- A refusal goes on once the buffer is given back; everything else goes on at once. -/
theorem ends_orRelease {buffer : Buffer} {action : PoolM α} {ok : α → PoolState → Prop} :
    Ends (orRelease buffer action) s ok fail ↔
      Ends action s ok fun failure t =>
        match failure with
        | .refused error => Ends (release buffer) t (fun _ u => fail (.refused error) u) fail
        | .fault fault => fail (.fault fault) t := by
  cases run : action s with
  | ok a t =>
    have h : orRelease buffer action s = .ok a t := by simp only [orRelease, run]
    rw [ends_of_ok run, ends_of_ok h]
  | error failure t =>
    rw [ends_of_error run]
    -- a fault goes on as it is: nothing is given back after one
    cases failure with
    | refused error =>
      have h : orRelease buffer action s = (do release buffer; refuse error : PoolM α) t := by
        simp only [orRelease, run]
      rw [Ends, h, ← Ends, ends_bind]
      simp only [ends_refuse]
    | fault fault =>
      have h : orRelease buffer action s = .error (.fault fault) t := by
        simp only [orRelease, run]
      rw [ends_of_error h]

end PoolM

end RegionPool
