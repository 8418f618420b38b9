import DeviceLock.Proofs.Document.RoundTrip
import DeviceLock.Proofs.Store.FileStore
import DeviceLock.Store.Basic

namespace DeviceLock

inductive StoreCall
  | load (m : Mishaps)
  | write (m : Mishaps) (c : Change)
  | reopen
  deriving DecidableEq, Repr

inductive StoreAnswer
  | loaded (r : Except StorageFault Document)
  | written (r : Except StorageFault Unit)
  | reopened
  deriving DecidableEq

def StoreCall.succeeded : List StoreCall → List StoreAnswer → List StoreCall
  | .write m c :: calls, .written (.ok ()) :: answers => .write m c :: succeeded calls answers
  | _ :: calls, _ :: answers => succeeded calls answers
  | _, _ => []

namespace Store

def answer (s : Store) (fs : FileSystem) : StoreCall → StoreAnswer × Store × FileSystem
  | .load m =>
    let (s, r) := s.load fs m
    (.loaded r, s, fs)
  | .write m c =>
    let (fs, s, r) := s.write fs m c
    (.written r, s, fs)
  | .reopen => (.reopened, s.reopen, fs)

def run (s : Store) (fs : FileSystem) : List StoreCall → List StoreAnswer × Store × FileSystem
  | [] => ([], s, fs)
  | call :: calls =>
    let (a, s, fs) := s.answer fs call
    let (answers, s, fs) := s.run fs calls
    (a :: answers, s, fs)

end Store

namespace FileStore

variable {s t : FileStore} {fs gs fs' : FileSystem} {m : Mishaps} {d x : Document} {c : Change}
  {e : StorageFault} {r : Except StorageFault Unit}

theorem inFile_eq (s : FileStore) (fs : FileSystem) (m : Mishaps) :
    s.inFile fs m = if m.read then .error .io else s.inFile fs {} := rfl

theorem inFile_of_read (h : gs.read s.path = fs.read s.path) : s.inFile gs m = s.inFile fs m := by
  simp only [inFile, h]

theorem load_snd (s : FileStore) (fs : FileSystem) (m : Mishaps) :
    (s.load fs m).2 = s.cache.elim (s.inFile fs m) .ok := by
  unfold load
  cases s.cache with
  | some d => rfl
  | none => cases s.inFile fs m <;> rfl

theorem load_ok (h : (s.load fs m).2 = .ok d) : (s.load fs m).1 = { s with cache := some d } := by
  obtain ⟨path, cache⟩ := s
  cases cache with
  | some x =>
    cases h
    rfl
  | none =>
    unfold load at h ⊢
    cases hr : inFile ⟨path, none⟩ fs m with
    | ok x =>
      simp only [hr] at h ⊢
      cases h
      rfl
    | error e =>
      simp only [hr] at h
      cases h

theorem load_error (h : (s.load fs m).2 = .error e) :
    (s.load fs m).1 = s := by
  unfold load at h ⊢
  cases hc : s.cache with
  | some x => rfl
  | none => cases hr : s.inFile fs m <;> simp_all

theorem write_eq (s : FileStore) (fs : FileSystem) (m : Mishaps) (c : Change) :
    s.write fs m c =
      match (s.load fs m).2 with
      | .error e => (fs, s, .error e)
      | .ok d =>
        match s.replaceFile fs m (c.apply d) with
        | (fs, .ok ()) => (fs, { s with cache := some (c.apply d) }, .ok ())
        | (fs, .error e) => (fs, s, .error e) := by
  rw [load_snd]
  rfl

theorem write_ok (h : s.write fs m c = (gs, t, .ok ())) :
    ∃ d, (s.load fs m).2 = .ok d ∧ t = { s with cache := some (c.apply d) } ∧
      gs.read s.path = .ok (Content.ofString (c.apply d).render) := by
  rw [write_eq] at h
  split at h
  · cases h
  · next d hd =>
    split at h
    · next hreplaced =>
      cases h
      exact ⟨d, hd, rfl, replaceFile_ok hreplaced⟩
    · cases h

theorem load_reopened (h : s.write fs m c = (gs, t, .ok ())) (hd : (s.load fs m).2 = .ok d)
    (hx : Document.ofJson? (c.apply d).toJson.reread = some x) : (t.reopen.load gs {}).2 = .ok x := by
  obtain ⟨y, hy, rfl, hread⟩ := write_ok h
  rw [hd] at hy
  cases hy
  rw [load_snd]
  simp [FileStore.reopen, inFile, hread, Document.parse_render_eq, hx]

theorem write_error (h : s.write fs m c = (gs, t, .error e)) :
    t = s ∧ s.Littered fs gs := by
  rw [write_eq] at h
  split at h
  · cases h
    exact ⟨rfl, .none⟩
  · split at h
    · cases h
    · next hreplaced =>
      cases h
      exact ⟨rfl, replaceFile_error hreplaced⟩

structure Holds (s : FileStore) (fs : FileSystem) (d : Document) : Prop where
  regular : d.Regular
  steady : s.Steady fs
  inFile : s.inFile fs {} = .ok d
  cached : ∀ x ∈ s.cache, x = d

namespace Holds

theorem load_eq (h : s.Holds fs d) (hx : (s.load fs m).2 = .ok x) : x = d := by
  rw [load_snd] at hx
  cases hc : s.cache with
  | some y =>
    rw [hc] at hx
    cases hx
    exact h.cached x hc
  | none =>
    rw [hc, Option.elim_none, inFile_eq, h.inFile] at hx
    split at hx
    · cases hx
    · cases hx
      rfl

theorem load_of_read (h : s.Holds fs d) (hm : m.read = false) : (s.load fs m).2 = .ok d := by
  rw [load_snd]
  cases hc : s.cache with
  | some y =>
    rw [h.cached y hc]
    rfl
  | none => rw [Option.elim_none, inFile_eq, hm, h.inFile, if_neg (by decide)]

theorem cache (h : s.Holds fs d) : { s with cache := some d : FileStore }.Holds fs d :=
  ⟨h.regular, h.steady, h.inFile, by rintro x ⟨⟩; rfl⟩

theorem of_inFile (h : s.inFile fs {} = .ok d) (hc : s.cache = none)
    (hsteady : fs.read s.path = .error .notFound → s.Steady fs) : s.Holds fs d := by
  have hcached : ∀ x ∈ s.cache, x = d := by
    rw [hc]
    rintro x ⟨⟩
  have hread := h
  unfold FileStore.inFile at hread
  cases hr : fs.read s.path with
  | ok c =>
    cases hp : Document.parse c with
    | none => simp [hr, hp] at hread
    | some x =>
      simp only [hr, hp] at hread
      cases hread
      exact ⟨Document.regular_of_parse hp, steady_of_read hr, h, hcached⟩
  | error e =>
    cases e with
    | notFound =>
      simp only [hr] at hread
      cases hread
      exact ⟨by rintro t ⟨⟩, hsteady hr, h, hcached⟩
    | notDirectory => simp [hr] at hread
    | isDirectory => simp [hr] at hread

theorem load (h : s.Holds fs d) (m : Mishaps) : (s.load fs m).1.Holds fs d := by
  cases hr : (s.load fs m).2 with
  | ok x =>
    rw [load_ok hr, h.load_eq hr]
    exact h.cache
  | error e =>
    rw [load_error hr]
    exact h

theorem reopen (h : s.Holds fs d) : s.reopen.Holds fs d :=
  ⟨h.regular, h.steady, h.inFile, by rintro x ⟨⟩⟩

theorem littered (h : s.Holds fs d) (hl : s.Littered fs gs) : s.Holds gs d := by
  obtain ⟨hsteady, hread⟩ := h.steady.littered hl
  exact ⟨h.regular, hsteady, (inFile_of_read hread).trans h.inFile, h.cached⟩

theorem write (h : s.Holds fs d) (hc : c.Regular) (hw : s.write fs m c = (gs, t, .ok ())) :
    t.Holds gs (c.apply d) := by
  obtain ⟨x, hx, rfl, hread⟩ := write_ok hw
  cases h.load_eq hx
  have hregular := h.regular.apply hc
  refine ⟨hregular, steady_of_read hread, ?_, by rintro y ⟨⟩; rfl⟩
  have hparse := Document.parse_render hregular
  simp [FileStore.inFile, hread, hparse]

end Holds

structure Unreadable (s : FileStore) (fs : FileSystem) (e : StorageFault) : Prop where
  uncached : s.cache = none
  inFile : s.inFile fs {} = .error e

theorem Unreadable.load (h : s.Unreadable fs e) (m : Mishaps) :
    ∃ e, s.load fs m = (s, .error e) := by
  cases hr : (s.load fs m).2 with
  | error e => exact ⟨e, Prod.ext (load_error hr) hr⟩
  | ok x =>
    rw [load_snd, h.uncached, Option.elim_none, inFile_eq, h.inFile] at hr
    split at hr <;> cases hr

theorem Unreadable.write (h : s.Unreadable fs e) (m : Mishaps) (c : Change) :
    ∃ e, s.write fs m c = (fs, s, .error e) := by
  obtain ⟨e, he⟩ := h.load m
  exact ⟨e, by rw [write_eq, he]⟩

theorem Unreadable.run (h : s.Unreadable fs e) (calls : List StoreCall) :
    ((Store.file s).run fs calls).2 = (.file s, fs) := by
  induction calls with
  | nil => rfl
  | cons call calls ih =>
    cases call with
    | load m =>
      obtain ⟨e, he⟩ := h.load m
      simpa only [Store.run, Store.answer, Store.load, he] using ih
    | write m c =>
      obtain ⟨e, he⟩ := h.write m c
      simpa only [Store.run, Store.answer, Store.write, he] using ih
    | reopen =>
      have hreopen : s.reopen = s := by
        rw [FileStore.reopen, ← h.uncached]
      simpa only [Store.run, Store.answer, Store.reopen, hreopen] using ih

theorem Littered.of_path (h : s.Littered fs gs) (hp : t.path = s.path) : t.Littered fs gs := by
  obtain ⟨path, cache⟩ := s
  obtain ⟨_, _⟩ := t
  cases hp
  cases h with
  | directories n => exact .directories n
  | temporary hmade hwritten => exact .temporary hmade hwritten

section Run

variable (s : FileStore) (fs : FileSystem) (m : Mishaps) (c : Change) (calls : List StoreCall)

theorem load_path : (s.load fs m).1.path = s.path := by
  cases hr : (s.load fs m).2 with
  | ok d => rw [load_ok hr]
  | error e => rw [load_error hr]

theorem run_load :
    (Store.file s).run fs (.load m :: calls) =
      (.loaded (s.load fs m).2 :: ((Store.file (s.load fs m).1).run fs calls).1,
        ((Store.file (s.load fs m).1).run fs calls).2) := rfl

theorem run_write (h : s.write fs m c = (gs, t, r)) :
    (Store.file s).run fs (.write m c :: calls) =
      (.written r :: ((Store.file t).run gs calls).1, ((Store.file t).run gs calls).2) := by
  simp only [Store.run, Store.answer, Store.write, h]

theorem run_reopen :
    (Store.file s).run fs (.reopen :: calls) =
      (.reopened :: ((Store.file s.reopen).run fs calls).1,
        ((Store.file s.reopen).run fs calls).2) := rfl

end Run

theorem Steady.of_path (h : s.Steady fs) (hp : t.path = s.path) : t.Steady fs := by
  unfold Steady makeParent
  rw [hp]
  exact h

theorem load_littered (hs : s.Steady fs) (hl : s.Littered fs gs) (m : Mishaps) :
    s.load gs m = s.load fs m := by
  simp only [load, inFile_of_read (hs.littered hl).2]

theorem write_littered (hs : s.Steady fs) (hl : s.Littered fs gs)
    (hw : s.write fs m c = (fs', t, r)) :
    ∃ gs', s.write gs m c = (gs', t, r) ∧ t.path = s.path ∧ t.Steady fs' ∧ t.Littered fs' gs' := by
  rw [write_eq] at hw ⊢
  rw [load_littered hs hl]
  cases hr : (s.load fs m).2 with
  | error e =>
    rw [hr] at hw
    cases hw
    exact ⟨gs, rfl, rfl, hs, hl⟩
  | ok d =>
    rw [hr] at hw
    dsimp only at hw ⊢
    obtain ⟨hsame, hlater⟩ := replaceFile_littered hl m (c.apply d)
    rcases hfs : s.replaceFile fs m (c.apply d) with ⟨fs', r⟩
    rcases hgs : s.replaceFile gs m (c.apply d) with ⟨gs', r'⟩
    rw [hfs, hgs] at hsame hlater
    rw [hfs] at hw
    cases hsame
    cases r with
    | ok _ =>
      cases hw
      have hsteady := steady_of_read (replaceFile_ok hfs)
      exact ⟨gs', rfl, rfl, hsteady.of_path rfl, hlater.of_path rfl⟩
    | error e =>
      cases hw
      exact ⟨gs', rfl, rfl, (hs.littered (replaceFile_error hfs)).1, hlater⟩

theorem run_littered (hs : s.Steady fs) (hl : s.Littered fs gs) (calls : List StoreCall) :
    ((Store.file s).run gs calls).1 = ((Store.file s).run fs calls).1 := by
  induction calls generalizing s fs gs with
  | nil => rfl
  | cons call calls ih =>
    cases call with
    | load m =>
      have hpath := load_path s fs m
      rw [run_load, run_load, load_littered hs hl m, ih (hs.of_path hpath) (hl.of_path hpath)]
    | write m c =>
      rcases hw : s.write fs m c with ⟨fs', t, r⟩
      obtain ⟨gs', hw', -, hs', hl'⟩ := write_littered hs hl hw
      rw [run_write _ _ _ _ _ hw, run_write _ _ _ _ _ hw', ih hs' hl']
    | reopen =>
      have hrest := ih (hs.of_path (t := s.reopen) rfl) (hl.of_path rfl)
      rw [run_reopen, run_reopen, hrest]

theorem Holds.run (h : s.Holds fs d) {calls : List StoreCall}
    (hregular : ∀ m c, .write m c ∈ calls → c.Regular) :
    ∃ t x, ((Store.file s).run fs calls).2.1 = .file t ∧
      (∀ ms, ((Store.memory d).run ms
        (StoreCall.succeeded calls ((Store.file s).run fs calls).1)).2.1 = .memory x) ∧
      t.Holds ((Store.file s).run fs calls).2.2 x ∧ t.path = s.path := by
  induction calls generalizing s fs d with
  | nil => exact ⟨s, d, rfl, fun _ => rfl, h, rfl⟩
  | cons call calls ih =>
    have hlater : ∀ m c, .write m c ∈ calls → c.Regular :=
      fun m c hc => hregular m c (List.mem_cons_of_mem _ hc)
    cases call with
    | load m =>
      obtain ⟨t, x, hrun, hmemory, ht, hpath⟩ := ih (h.load m) hlater
      exact ⟨t, x, hrun, hmemory, ht, hpath.trans (load_path s fs m)⟩
    | write m c =>
      have hchange : c.Regular := hregular m c List.mem_cons_self
      rcases hw : s.write fs m c with ⟨gs, t, r⟩
      rw [run_write _ _ _ _ _ hw]
      cases r with
      | ok _ =>
        have hpath : t.path = s.path := by
          obtain ⟨x, -, rfl, -⟩ := write_ok hw
          rfl
        obtain ⟨u, x, hrun, hmemory, hu, hp⟩ := ih (h.write hchange hw) hlater
        exact ⟨u, x, hrun, hmemory, hu, hp.trans hpath⟩
      | error e =>
        obtain ⟨rfl, hl⟩ := write_error hw
        obtain ⟨u, x, hrun, hmemory, hu, hp⟩ := ih (h.littered hl) hlater
        exact ⟨u, x, hrun, hmemory, hu, hp⟩
    | reopen => exact ih h.reopen hlater

end FileStore

namespace Store

structure Refinement (path : String) (fs : FileSystem) (calls : List StoreCall)
    (answers : List StoreAnswer) (s : Store) (gs : FileSystem) : Prop where
  loads : ∀ m x, (s.load gs m).2 = .ok x → ∃ d, FileStore.inFile { path } fs {} = .ok d ∧
    (((memory d).run fs (StoreCall.succeeded calls answers)).2.1.load fs m).2 = .ok x
  loadable : ∀ d m, FileStore.inFile { path } fs {} = .ok d → m.read = false →
    ∃ x, (s.load gs m).2 = .ok x
  writes : ∀ m n k c x y hs t, (s.load gs m).2 = .ok x → s.write gs n c = (hs, t, .ok ()) →
    (t.load hs k).2 = .ok y → y = c.apply x ∧ ∀ key ≠ c.key, y.Agree x key
  refusals : ∀ m c e hs t, s.write gs m c = (hs, t, .error e) →
    hs.read path = gs.read path ∧ ∀ later, (t.run hs later).1 = (s.run gs later).1
  unreadable : ∀ c, fs.read path = .ok c → Document.parse c = none → gs.read path = .ok c

variable {path : String} {fs : FileSystem} {calls : List StoreCall}

theorem load_file (s : FileStore) (fs : FileSystem) (m : Mishaps) :
    (file s).load fs m = (file (s.load fs m).1, (s.load fs m).2) := rfl

theorem write_file {s : FileStore} {gs : FileSystem} {m : Mishaps} {c : Change}
    {r : Except StorageFault Unit} {u : Store} (h : (file s).write fs m c = (gs, u, r)) :
    ∃ t, u = file t ∧ s.write fs m c = (gs, t, r) := by
  cases h
  exact ⟨_, rfl, rfl⟩

/-- Whatever fails on the way, a store in a file is one in memory that holds the document of the
file and sees the successful writes, as long as making the directories above a missing file does
not change what its path names and every start time that is written can be read back. -/
theorem refines_memory
    (hsteady : fs.read path = .error .notFound → FileStore.Steady { path } fs)
    (hregular : ∀ m c, .write m c ∈ calls → c.Regular) :
    Refinement path fs calls ((file { path }).run fs calls).1 ((file { path }).run fs calls).2.1
      ((file { path }).run fs calls).2.2 := by
  cases hstart : FileStore.inFile { path } fs {} with
  | error e =>
    have hs : FileStore.Unreadable { path } fs e := ⟨rfl, hstart⟩
    rw [hs.run calls]
    have hload (m : Mishaps) (x : Document) : ((file { path }).load fs m).2 ≠ .ok x := by
      intro hx
      obtain ⟨e, he⟩ := hs.load m
      rw [load_file, he] at hx
      cases hx
    refine ⟨fun m x hx => absurd hx (hload m x), fun d m hd => ?_, ?_, ?_, fun c hc _ => hc⟩
    · rw [hstart] at hd
      cases hd
    · exact fun m _ _ _ x _ _ _ hx => absurd hx (hload m x)
    · intro m c e gs u hw
      obtain ⟨e, he⟩ := hs.write m c
      obtain ⟨t, rfl, ht⟩ := write_file hw
      rw [he] at ht
      cases ht
      exact ⟨rfl, fun _ => rfl⟩
  | ok d =>
    have hs : FileStore.Holds { path } fs d := .of_inFile hstart rfl hsteady
    obtain ⟨t, x, hrun, hmemory, ht, hpath⟩ := hs.run hregular
    rw [hrun]
    dsimp only at hpath
    refine ⟨fun m y hy => ⟨d, hstart, ?_⟩, fun _ m _ hm => ⟨x, ht.load_of_read hm⟩, ?_, ?_, ?_⟩
    · cases ht.load_eq hy
      rw [hmemory]
      rfl
    · intro m n k c y z hs u hy hw hz
      obtain ⟨u, rfl, hu⟩ := write_file hw
      obtain ⟨d', hd', rfl, -⟩ := FileStore.write_ok hu
      cases ht.load_eq hy
      cases ht.load_eq hd'
      cases hz
      exact ⟨rfl, fun key hkey => Document.apply_touches x c hkey⟩
    · intro m c e hs u hw
      obtain ⟨u, rfl, hu⟩ := write_file hw
      obtain ⟨rfl, hl⟩ := FileStore.write_error hu
      have hread := (ht.steady.littered hl).2
      rw [hpath] at hread
      exact ⟨hread, fun later => FileStore.run_littered ht.steady hl later⟩
    · intro c hc hp
      simp [FileStore.inFile, hc, hp] at hstart

def restart : List StoreCall :=
  [.write { makeDirectories := some 0 } (.setupTimedOut true), .write {} (.device .locked), .reopen]

theorem refines_memory_restart :
    ((file { path := "data/state.json" }).run {} restart).1 =
        [.written (.error .io), .written (.ok ()), .reopened] ∧
      Refinement "data/state.json" {} restart
        ((file { path := "data/state.json" }).run {} restart).1
        ((file { path := "data/state.json" }).run {} restart).2.1
        ((file { path := "data/state.json" }).run {} restart).2.2 := by
  refine ⟨by decide +kernel, refines_memory (fun h => ?_) ?_⟩
  · have hclosed : ({} : FileSystem).Closed := by
      intro l name h
      simp [FileSystem.find?] at h
    have hpath : Path.parse "data/state.json" =
        some ⟨false, [.down "data", .down "state.json"], false⟩ := by
      decide
    exact FileStore.steady_of_missing hclosed hpath (by decide) h
  · intro m c hc t ht
    subst ht
    simp [restart] at hc

def detour : String := "missing/../state.json"

def damaged : FileSystem where
  entries := [(["state.json"], .file [some '\x7b'])]

def irregular : Timestamp where
  date := ⟨2026, 1, 1, by decide⟩
  clock := ⟨30, 1500000000, by decide, by decide⟩

def readAs : Timestamp where
  date := irregular.date
  clock := ⟨31, 500000000, by decide, by decide⟩

theorem overwrites_damaged :
    ((file { path := detour }).run damaged
        [.load {}, .write { rename := true } (.setupTimedOut true), .reopen, .load {}]).1 =
      [.loaded (.ok {}), .written (.error .io), .reopened, .loaded (.error .serialization)] ∧
    Document.parse [some '\x7b'] = none ∧ damaged.read "state.json" = .ok [some '\x7b'] ∧
    ((file { path := detour }).run damaged
        [.write {} (.setupTimedOut true)]).2.2.read "state.json" =
      .ok (Content.ofString (Document.render { setupTimedOut := true })) ∧
    ((file { path := "state.json" }).run {}
        [.write {} (.startTime irregular), .reopen, .load {}]).1 =
      [.written (.ok ()), .reopened, .loaded (.ok { startTime := some readAs })] := by
  refine ⟨by decide +kernel, by decide +kernel, by decide +kernel, ?_, ?_⟩
  · have hr :
        (FileStore.write { path := detour } damaged {} (.setupTimedOut true)).2.2 = .ok () := by
      decide +kernel
    have hl : (FileStore.load { path := detour } damaged {}).2 = .ok {} := by decide +kernel
    have hsame : (FileStore.write { path := detour } damaged {} (.setupTimedOut true)).1.locate
        "state.json" = .ok (⟨false, [.down "state.json"], false⟩, ["state.json"]) ∧
        (FileStore.write { path := detour } damaged {} (.setupTimedOut true)).1.locate detour =
          .ok (⟨false, [.down "missing", .up, .down "state.json"], false⟩, ["state.json"]) := by
      decide +kernel
    obtain ⟨d, hd, -, hread⟩ := FileStore.write_ok (Prod.ext rfl (Prod.ext rfl hr))
    rw [hl] at hd
    cases hd
    rw [FileSystem.read_eq_ok] at hread ⊢
    obtain ⟨p, l, hlocate, hfile, -⟩ := hread
    rw [hsame.2] at hlocate
    cases hlocate
    exact ⟨_, _, hsame.1, hfile, rfl⟩
  · have hr :
        (FileStore.write { path := "state.json" } {} {} (.startTime irregular)).2.2 = .ok () := by
      decide +kernel
    have hl : (FileStore.load { path := "state.json" } {} {}).2 = .ok {} := by decide +kernel
    have hx : Document.ofJson? (Document.toJson { startTime := some irregular }) =
        some { startTime := some readAs } := by
      decide +kernel
    obtain ⟨gs, t, hw⟩ : ∃ gs t, FileStore.write { path := "state.json" } {} {}
        (.startTime irregular) = (gs, t, .ok ()) := ⟨_, _, Prod.ext rfl (Prod.ext rfl hr)⟩
    rw [FileStore.run_write _ _ _ _ _ hw, FileStore.run_reopen, FileStore.run_load,
      FileStore.load_reopened hw hl hx]
    rfl

end Store

end DeviceLock
