import DeviceLock.Engine.Effect

namespace DeviceLock

inductive Program (α : Type)
  | done (result : Except Fault α)
  | act (a : Act) (next : a.Answer → Program α)
  | wait (r : Request) (next : r.Answer → Program α)

namespace Program

variable {α β : Type}

def bind : Program α → (α → Program β) → Program β
  | done (.ok a), f => f a
  | done (.error e), _ => done (.error e)
  | act a next, f => act a fun x => bind (next x) f
  | wait r next, f => wait r fun x => bind (next x) f

instance : Monad Program where
  pure a := done (.ok a)
  bind := bind

theorem done_bind (a : α) (f : α → Program β) : done (.ok a) >>= f = f a := rfl

theorem error_bind (e : Fault) (f : α → Program β) : done (.error e) >>= f = done (.error e) := rfl

instance : LawfulMonad Program := LawfulMonad.mk' Program
  (fun p => by
    induction p with
    | done r => cases r <;> rfl
    | act a next ih => exact congrArg (act a) (funext ih)
    | wait r next ih => exact congrArg (wait r) (funext ih))
  (fun _ _ => rfl)
  (fun p f g => by
    induction p with
    | done r => cases r <;> rfl
    | act a next ih => exact congrArg (act a) (funext ih)
    | wait r next ih => exact congrArg (wait r) (funext ih))

def throw (e : Fault) : Program α := done (.error e)

def ofExcept (r : Except Fault α) : Program α := done r

def attempt : Program α → Program (Except Fault α)
  | done r => done (.ok r)
  | act a next => act a fun x => attempt (next x)
  | wait r next => wait r fun x => attempt (next x)

def perform (a : Act) : Program a.Answer := act a fun x => done (.ok x)

def request (r : Request) : Program r.Answer := wait r fun x => done (.ok x)

def cursor : Program ProvisionState := do ofExcept ((← request .cursor).mapError .storage)

def load : Program Document := do ofExcept ((← request .load).mapError .storage)

def write (c : Change) : Program Unit := do ofExcept ((← request (.write c)).mapError .storage)

def call (c : Call) (fault : String → Fault) : Program Unit := do
  ofExcept ((← request (.call c)).mapError fault)

def platform (c : PlatformCall) : Program Unit := call (.platform c) (.platform c)

def recovery (c : Call) : Program Unit := call c .recovery

def ask (q : Question) : Program Bool := request (.ask q)

def await (j : Job) : Program Reply := do
  ofExcept (← request (.await (← perform (.submit j))))

end Program

end DeviceLock
