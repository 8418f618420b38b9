import DeviceLock.Text.Blank
import DeviceLock.Text.Quoted

/-!
Enumerations whose members go over the wire as fixed names. A reader of names forgives blank
padding, the case of ASCII letters, and a dash for an underscore; nothing else.
-/

namespace DeviceLock

class WireName (α : Type) where
  kind : String
  all : List α
  name : α → String

namespace WireName

variable {α : Type} [WireName α]

def ofName? (s : String) : Option α := (all (α := α)).find? fun a => name a == s

def foldChar (c : Char) : Char := if c = '-' then '_' else c.toUpper

def fold (s : String) : String := String.ofList ((Text.trim s.toList).map foldChar)

structure Unknown where
  kind : String
  value : String
  deriving DecidableEq, Repr

def Unknown.message (e : Unknown) : String := "unknown " ++ e.kind ++ ": " ++ Text.quote e.value

def parse (s : String) : Except Unknown α :=
  match ofName? (fold s) with
  | some a => .ok a
  | none => .error ⟨kind α, s⟩

end WireName

end DeviceLock
