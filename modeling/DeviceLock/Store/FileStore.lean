import DeviceLock.Document.Json
import DeviceLock.Fault
import DeviceLock.Store.FileSystem

/-!
The store that keeps the document in a file. A write goes to a file beside it, which then takes its
place; what was read or written last is kept in memory.
-/

namespace DeviceLock

structure Mishaps where
  read : Bool := false
  makeDirectories : Option Nat := none
  broken : Option Content := none
  rename : Bool := false
  deriving DecidableEq, Repr

structure FileStore where
  path : String
  cache : Option Document := none
  deriving DecidableEq, Repr

namespace FileStore

def inFile (s : FileStore) (fs : FileSystem) (m : Mishaps) : Except StorageFault Document :=
  if m.read then .error .io
  else
    match fs.read s.path with
    | .ok c =>
      match Document.parse c with
      | some d => .ok d
      | none => .error .serialization
    | .error .notFound => .ok {}
    | .error _ => .error .io

def load (s : FileStore) (fs : FileSystem) (m : Mishaps) :
    FileStore × Except StorageFault Document :=
  match s.cache with
  | some d => (s, .ok d)
  | none =>
    match s.inFile fs m with
    | .ok d => ({ s with cache := some d }, .ok d)
    | .error e => (s, .error e)

def temporary (s : FileStore) : String := s.path ++ ".tmp"

def makeParent (s : FileStore) (fs : FileSystem) (m : Mishaps) :
    FileSystem × Except StorageFault Unit :=
  match Path.parse s.path with
  | none => (fs, .ok ())
  | some p =>
    match m.makeDirectories with
    | some n =>
      if p.parent.steps = [] then (fs, .ok ())
      else ((fs.makeWalk (fs.start p) (p.parent.steps.take n)).1, .error .io)
    | none =>
      let (fs, r) := fs.makeWalk (fs.start p) p.parent.steps
      (fs, r.mapError fun _ => .io)

def replaceFile (s : FileStore) (fs : FileSystem) (m : Mishaps) (d : Document) :
    FileSystem × Except StorageFault Unit :=
  match s.makeParent fs m with
  | (fs, .error e) => (fs, .error e)
  | (fs, .ok ()) =>
    match fs.write s.temporary (m.broken.getD (Content.ofString d.render)) with
    | .error _ => (fs, .error .io)
    | .ok fs =>
      if m.broken.isSome || m.rename then (fs, .error .io)
      else
        match fs.rename s.temporary s.path with
        | .error _ => (fs, .error .io)
        | .ok fs => (fs, .ok ())

def write (s : FileStore) (fs : FileSystem) (m : Mishaps) (c : Change) :
    FileSystem × FileStore × Except StorageFault Unit :=
  match s.cache.elim (s.inFile fs m) .ok with
  | .error e => (fs, s, .error e)
  | .ok d =>
    let d := c.apply d
    match s.replaceFile fs m d with
    | (fs, .ok ()) => (fs, { s with cache := some d }, .ok ())
    | (fs, .error e) => (fs, s, .error e)

def reopen (s : FileStore) : FileStore := { s with cache := none }

end FileStore

end DeviceLock
