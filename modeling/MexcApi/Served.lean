/-!
# Requests to a server with a state

A program that is written for any monad with failures can be run against a
server: each request it makes is answered from the state of the server, which it
may change. What the program does between its requests leaves the server alone.
-/

namespace Served

variable {ε σ α β : Type}

/-- Programs whose requests are served from a state, also when they fail. -/
abbrev Program (ε σ α : Type) := ExceptT ε (StateM σ) α

def exec (x : Program ε σ α) (s : σ) : Except ε α × σ := StateT.run (ExceptT.run x) s

def ask (serve : σ → Except ε α × σ) : Program ε σ α := ExceptT.mk serve

theorem exec_ask (serve : σ → Except ε α × σ) (s : σ) : exec (ask serve) s = serve s := rfl

theorem exec_lift (x : Except ε α) (s : σ) : exec (liftM x : Program ε σ α) s = (x, s) := rfl

theorem exec_pure (a : α) (s : σ) : exec (pure a : Program ε σ α) s = (.ok a, s) := rfl

theorem exec_bind (x : Program ε σ α) (f : α → Program ε σ β) (s : σ) :
    exec (x >>= f) s =
      match exec x s with
      | (.ok a, s') => exec (f a) s'
      | (.error e, s') => (.error e, s') := by
  show exec (ExceptT.mk (ExceptT.run x >>= ExceptT.bindCont f)) s = _
  unfold exec ExceptT.mk ExceptT.run
  rw [StateT.run_bind]
  show StateT.run (ExceptT.bindCont f (StateT.run x s).1) (StateT.run x s).2 = _
  rcases StateT.run x s with ⟨result, s'⟩
  cases result <;> rfl

theorem exec_lift_bind (x : Except ε α) (f : α → Program ε σ β) (s : σ) :
    exec (liftM x >>= f) s =
      match x with
      | .ok a => exec (f a) s
      | .error e => (.error e, s) := by
  rw [exec_bind, exec_lift]
  cases x <;> rfl

/-- A program that leaves the server alone after its first part. -/
theorem exec_bind_quiet (x : Program ε σ α) {f : α → Program ε σ β} {g : α → Except ε β}
    (h : ∀ a s, exec (f a) s = (g a, s)) (s : σ) : exec (x >>= f) s = ((exec x s).1 >>= g, (exec x s).2) := by
  rw [exec_bind]
  rcases exec x s with ⟨result, s'⟩
  cases result with
  | error e => rfl
  | ok a => exact h a s'

theorem exec_lift_lift (x : Except ε α) (g : α → Except ε β) (s : σ) :
    exec (liftM x >>= fun a => (liftM (g a) : Program ε σ β)) s = (x >>= g, s) :=
  exec_bind_quiet (liftM x) (fun a s => exec_lift (g a) s) s

theorem exec_map (f : α → β) (x : Program ε σ α) (s : σ) :
    exec (f <$> x) s = ((exec x s).1.map f, (exec x s).2) := by
  rw [← bind_pure_comp, exec_bind_quiet x (fun a s => exec_pure (f a) s)]
  cases (exec x s).1 <;> rfl

end Served
