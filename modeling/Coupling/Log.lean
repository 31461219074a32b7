/-
What an operation tells about its work.

`Logged α` is a result with the events on the way to it, in order. Events never
change a result: `value` commutes with everything a computation is made of.
-/
import Coupling.TypeRef

namespace Coupling

inductive Event where
  | unresolvedType (key : TypeKey)
  | unresolvedMethod (fullName : String)
  | notADirectory (path : String)
  | alreadyLoaded (name path : String)
  | loaded (modules : Nat) (path : String) (types : Nat)
  | usageLevel (level types relations : Nat)
  | dependencyGraph (entries vertices edges : Nat)

namespace Event

def level : Event → String
  | .unresolvedType _ | .unresolvedMethod _ => "TRACE"
  | _ => "DEBUG"

def message : Event → String
  | .unresolvedType key => "unresolved type reference " ++ key.render
  | .unresolvedMethod fullName => "unresolved method reference " ++ fullName
  | .notADirectory path => path ++ " is not a directory, nothing to scan"
  | .alreadyLoaded name path => "module " ++ name ++ " from " ++ path ++ " is already loaded, skipped"
  | .loaded modules path types =>
    "loaded " ++ toString modules ++ " modules from " ++ path ++ ", " ++ toString types ++ " types known"
  | .usageLevel level types relations =>
    "usage level " ++ toString level ++ ": " ++ toString types ++ " types expanded, " ++
      toString relations ++ " new relations"
  | .dependencyGraph entries vertices edges =>
    "dependency graph of " ++ toString entries ++ " entry points: " ++ toString vertices ++
      " vertices, " ++ toString edges ++ " edges"

def render (e : Event) : String := e.level ++ " " ++ e.message

end Event

structure Logged (α : Type) where
  value : α
  events : List Event := []

namespace Logged

variable {α β : Type}

def andThen (x : Logged α) (f : α → Logged β) : Logged β :=
  let y := f x.value
  ⟨y.value, x.events ++ y.events⟩

instance : Monad Logged where
  pure a := ⟨a, []⟩
  bind := andThen

def log (e : Event) : Logged Unit := ⟨(), [e]⟩

@[simp] theorem value_pure (a : α) : (pure a : Logged α).value = a := rfl

@[simp] theorem value_bind (x : Logged α) (f : α → Logged β) : (x >>= f).value = (f x.value).value := rfl

@[simp] theorem value_map (f : α → β) (x : Logged α) : (f <$> x).value = f x.value := rfl

@[simp] theorem value_log (e : Event) : (log e).value = () := rfl

@[simp] theorem events_pure (a : α) : (pure a : Logged α).events = [] := rfl

@[simp] theorem events_bind (x : Logged α) (f : α → Logged β) :
    (x >>= f).events = x.events ++ (f x.value).events := rfl

instance : LawfulMonad Logged :=
  LawfulMonad.mk' Logged
    (fun x => by
      show Logged.mk x.value (x.events ++ []) = x
      simp)
    (fun _ _ => rfl)
    (fun x f g => by
      show Logged.mk _ (x.events ++ _ ++ _) = Logged.mk _ (x.events ++ (_ ++ _))
      simp [bind, andThen])

end Logged

end Coupling
