import DeviceLock.Store.FileStore

namespace DeviceLock

inductive Store
  | memory (document : Document)
  | file (store : FileStore)
  deriving DecidableEq, Repr

namespace Store

def load (s : Store) (fs : FileSystem) (m : Mishaps) : Store × Except StorageFault Document :=
  match s with
  | memory d => (memory d, .ok d)
  | file f =>
    let (f, r) := f.load fs m
    (file f, r)

def write (s : Store) (fs : FileSystem) (m : Mishaps) (c : Change) :
    FileSystem × Store × Except StorageFault Unit :=
  match s with
  | memory d => (fs, memory (c.apply d), .ok ())
  | file f =>
    let (fs, f, r) := f.write fs m c
    (fs, file f, r)

def reopen : Store → Store
  | memory d => memory d
  | file f => file f.reopen

end Store

end DeviceLock
