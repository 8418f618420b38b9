import DeviceLock.Store.Path
import DeviceLock.Text.Content

namespace DeviceLock

abbrev Location := List String

inductive FileEntry
  | file (content : Content)
  | directory
  deriving DecidableEq, Repr

inductive FileFault
  | notFound
  | notDirectory
  | isDirectory
  deriving DecidableEq, Repr

structure FileSystem where
  /-- What is below the root, which is a directory itself. -/
  entries : List (Location × FileEntry) := []
  here : Location := []
  deriving Repr

namespace FileSystem

def find? (fs : FileSystem) (l : Location) : Option FileEntry :=
  if l = [] then some .directory else fs.entries.lookup l

def remove (fs : FileSystem) (l : Location) : FileSystem :=
  { fs with entries := fs.entries.filter fun e => e.1 ≠ l }

def put (fs : FileSystem) (l : Location) (e : FileEntry) : FileSystem :=
  { fs with entries := (l, e) :: (fs.remove l).entries }

theorem find?_put (fs : FileSystem) {l : Location} (e : FileEntry) (h : l ≠ []) :
    (fs.put l e).find? l = some e := by
  simp [find?, put, h]

theorem lookup_filter_ne {α : Type} (es : List (Location × α)) {l m : Location} (h : m ≠ l) :
    (es.filter fun e => e.1 ≠ l).lookup m = es.lookup m := by
  induction es with
  | nil => rfl
  | cons e es ih =>
    obtain ⟨k, v⟩ := e
    by_cases hk : k = l
    · subst hk
      have hm : (m == k) = false := beq_false_of_ne h
      rw [List.filter_cons_of_neg (by simp), ih, List.lookup_cons, hm]
    · rw [List.filter_cons_of_pos (by simpa using hk), List.lookup_cons, List.lookup_cons, ih]

theorem find?_put_of_ne (fs : FileSystem) {l m : Location} (e : FileEntry) (h : m ≠ l) :
    (fs.put l e).find? m = fs.find? m := by
  have hl : (m == l) = false := by simp [h]
  simp only [find?, put, remove, List.lookup_cons, hl]
  split
  · rfl
  · exact lookup_filter_ne fs.entries h

def enterable (fs : FileSystem) (l : Location) : Except FileFault Unit :=
  match fs.find? l with
  | some .directory => .ok ()
  | some (.file _) => .error .notDirectory
  | none => .error .notFound

def walk (fs : FileSystem) (l : Location) : List PathStep → Except FileFault Location
  | [] => .ok l
  | .down name :: steps => do
    fs.enterable l
    fs.walk (l ++ [name]) steps
  | .up :: steps => do
    fs.enterable l
    fs.walk l.dropLast steps

def start (fs : FileSystem) (p : Path) : Location := if p.absolute then [] else fs.here

def locate (fs : FileSystem) (path : String) : Except FileFault (Path × Location) :=
  match Path.parse path with
  | none => .error .notFound
  | some p => do return (p, ← fs.walk (fs.start p) p.steps)

def read (fs : FileSystem) (path : String) : Except FileFault Content := do
  let (p, l) ← fs.locate path
  match fs.find? l with
  | some (.file c) => if p.directory then .error .notDirectory else return c
  | some .directory => .error .isDirectory
  | none => .error .notFound

def write (fs : FileSystem) (path : String) (c : Content) : Except FileFault FileSystem := do
  let (p, l) ← fs.locate path
  if p.directory ∨ fs.find? l = some .directory then .error .isDirectory
  else return fs.put l (.file c)

def makeWalk (fs : FileSystem) (l : Location) : List PathStep → FileSystem × Except FileFault Unit
  | [] => (fs, .ok ())
  | .up :: steps => fs.makeWalk l.dropLast steps
  | .down name :: steps =>
    let l := l ++ [name]
    match fs.find? l with
    | some (.file _) => (fs, .error .notDirectory)
    | some .directory => fs.makeWalk l steps
    | none => (fs.put l .directory).makeWalk l steps

def makeDirectories (fs : FileSystem) (p : Path) : Except FileFault FileSystem :=
  match fs.makeWalk (fs.start p) p.steps with
  | (fs, .ok ()) => .ok fs
  | (_, .error e) => .error e

def rename (fs : FileSystem) (source target : String) : Except FileFault FileSystem := do
  let c ← fs.read source
  let (_, l) ← fs.locate source
  let (p, m) ← fs.locate target
  if p.directory then .error .notDirectory
  else if fs.find? m = some .directory then .error .isDirectory
  else return (fs.remove l).put m (.file c)

def sorted (names : List String) : List String := names.mergeSort fun a b => decide (a ≤ b)

def list (fs : FileSystem) (directory : Location) : List String :=
  sorted (fs.entries.filterMap fun e =>
    if e.1.dropLast = directory then e.1.getLast? else none)

def files (fs : FileSystem) : List String :=
  sorted (fs.entries.filterMap fun e =>
    match e.2 with
    | .file _ =>
      if fs.here.isPrefixOf e.1 then some (String.intercalate "/" (e.1.drop fs.here.length))
      else none
    | .directory => none)

end FileSystem

end DeviceLock
