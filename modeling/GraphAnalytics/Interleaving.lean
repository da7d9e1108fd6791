/-
# Interleaved calls

Calls that share a store without locks are described one atomic access at a time. A `Machine` says
what a call at a given point does to the store in its next access and where that leaves the call.
A `Pool` holds a store and any number of calls in progress; a list of `Move`s starts calls and
advances them one access each, in any order whatever. A statement about every list of moves is a
statement about every interleaving.

The same machine also runs alone. A sequential operation is the machine left to itself, so what is
proved of one step serves both readings.

Some accesses may fail for no visible reason. What the hardware decides in such a step is its
`luck`, chosen anew at every move; machines whose steps are certain take `Unit`.
-/

namespace GraphAnalytics

variable {χ σ ℓ α β γ : Type}

/-- Where one atomic access leaves a call: at the point from which it goes on, or with its
answer. -/
inductive Turn (ℓ α : Type) where
  | more (next : ℓ)
  | done (answer : α)

def Turn.map (f : α → β) : Turn ℓ α → Turn ℓ β
  | .more next => .more next
  | .done answer => .done (f answer)

/-- Calls on a store of type `σ` that are described by points of type `ℓ`. -/
structure Machine (χ σ ℓ α : Type) where
  /-- One atomic access. -/
  step : χ → σ → ℓ → σ × Turn ℓ α

namespace Machine

/-- Run a call from a point with nobody else moving, for at most `fuel` accesses. There is no
answer if the call needs more. -/
@[specialize] def alone (m : Machine χ σ ℓ α) (luck : χ) : (fuel : Nat) → σ → ℓ → σ × Option α
  | 0, store, _ => (store, none)
  | fuel + 1, store, point =>
      match m.step luck store point with
      | (store, .done answer) => (store, some answer)
      | (store, .more next) => m.alone luck fuel store next

theorem alone_succ (m : Machine χ σ ℓ α) (luck : χ) (fuel : Nat) (store : σ) (point : ℓ) :
    m.alone luck (fuel + 1) store point =
      match m.step luck store point with
      | (store, .done answer) => (store, some answer)
      | (store, .more next) => m.alone luck fuel store next := rfl

/-- The same calls, with every answer passed through `f` when it is returned. -/
def map (f : α → β) (m : Machine χ σ ℓ α) : Machine χ σ ℓ β where
  step luck store point := ((m.step luck store point).1, (m.step luck store point).2.map f)

theorem step_map (f : α → β) (m : Machine χ σ ℓ α) (luck : χ) (store : σ) (point : ℓ) :
    (m.map f).step luck store point =
      ((m.step luck store point).1, (m.step luck store point).2.map f) := rfl

theorem map_map (g : β → γ) (f : α → β) (m : Machine χ σ ℓ α) :
    (m.map f).map g = m.map (g ∘ f) := by
  refine congrArg Machine.mk (funext fun luck => funext fun store => funext fun point => ?_)
  rw [step_map]
  cases (m.step luck store point).2 <;> rfl

theorem alone_map (f : α → β) (m : Machine χ σ ℓ α) (luck : χ) (fuel : Nat) (store : σ)
    (point : ℓ) :
    (m.map f).alone luck fuel store point =
      ((m.alone luck fuel store point).1, (m.alone luck fuel store point).2.map f) := by
  induction fuel generalizing store point with
  | zero => rfl
  | succ fuel ih =>
      rw [alone_succ, alone_succ, step_map]
      obtain ⟨left, turn⟩ := m.step luck store point
      cases turn with
      | more next => exact ih left next
      | done answer => rfl

end Machine

/-- A shared store and every call on it that ever began, in the order in which they began. -/
structure Pool (σ ℓ α : Type) where
  shared : σ
  calls : List (Turn ℓ α) := []

/-- What can happen next in a pool. -/
inductive Pool.Move (χ ℓ : Type) where
  | start (point : ℓ)
  | access (call : Nat) (luck : χ)

namespace Pool

/-- The pool after one move. Moving a call that does not exist or has returned changes nothing. -/
def apply (m : Machine χ σ ℓ α) (pool : Pool σ ℓ α) : Move χ ℓ → Pool σ ℓ α
  | .start point => { pool with calls := pool.calls ++ [.more point] }
  | .access call luck =>
      match pool.calls[call]? with
      | some (.more point) =>
          let (shared, turn) := m.step luck pool.shared point
          { shared, calls := pool.calls.set call turn }
      | _ => pool

def replay (m : Machine χ σ ℓ α) (pool : Pool σ ℓ α) (moves : List (Move χ ℓ)) : Pool σ ℓ α :=
  moves.foldl (apply m) pool

@[simp] theorem replay_nil (m : Machine χ σ ℓ α) (pool : Pool σ ℓ α) :
    pool.replay m [] = pool := rfl

@[simp] theorem replay_cons (m : Machine χ σ ℓ α) (pool : Pool σ ℓ α) (move : Move χ ℓ)
    (moves : List (Move χ ℓ)) :
    pool.replay m (move :: moves) = (pool.apply m move).replay m moves := rfl

end Pool

end GraphAnalytics
