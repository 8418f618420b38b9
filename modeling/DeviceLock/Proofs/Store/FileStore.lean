import DeviceLock.Proofs.Store.FileSystem
import DeviceLock.Store.FileStore

/-!
What a write of the store does to the files. A write that fails leaves at most directories above
the file and a file beside it (`Littered`), and no later write is answered differently because of
them (`replaceFile_littered`).
-/

namespace DeviceLock.FileStore

variable {s : FileStore} {fs gs : FileSystem} {m : Mishaps} {d : Document} {c : Content} {n k : Nat}

def made (s : FileStore) (fs : FileSystem) (n : Nat) : FileSystem :=
  match Path.parse s.path with
  | none => fs
  | some p => (fs.makeWalk (fs.start p) (p.parent.steps.take n)).1

@[simp] theorem made_zero : s.made fs 0 = fs := by
  unfold made
  split <;> rfl

theorem made_here : (s.made fs n).here = fs.here := by
  unfold made
  split
  · rfl
  · exact FileSystem.makeWalk_here

theorem made_eq {p : Path} (h : Path.parse s.path = some p) :
    s.made fs n = (fs.makeWalk (fs.start p) (p.parent.steps.take n)).1 := by
  simp only [made, h]

theorem made_eq_self (h : Path.parse s.path = none) : s.made fs n = fs := by
  simp only [made, h]

theorem start_made (p : Path) : (s.made fs n).start p = fs.start p := by
  rw [FileSystem.start, FileSystem.start, made_here]

theorem made_made : s.made (s.made fs n) k = s.made fs (max n k) := by
  cases hp : Path.parse s.path with
  | none => rw [made_eq_self hp, made_eq_self hp, made_eq_self hp]
  | some p =>
    rw [made_eq hp, start_made, made_eq hp, made_eq hp]
    rcases Nat.le_total n k with h | h
    · obtain ⟨rest, hrest⟩ := List.take_prefix_take_left (l := p.parent.steps) h
      rw [Nat.max_eq_right h, ← hrest, FileSystem.makeWalk_append]
    · obtain ⟨rest, hrest⟩ := List.take_prefix_take_left (l := p.parent.steps) h
      rw [Nat.max_eq_left h, ← hrest, FileSystem.makeWalk_prefix]

theorem makeParent_eq {p : Path} (h : Path.parse s.path = some p) :
    s.makeParent fs {} =
      ((fs.makeWalk (fs.start p) p.parent.steps).1,
        (fs.makeWalk (fs.start p) p.parent.steps).2.mapError fun _ => .io) := by
  simp only [makeParent, h]

theorem makeParent_cases (s : FileStore) (m : Mishaps) :
    (∃ n, ∀ fs, s.makeParent fs m = (s.made fs n, .error .io)) ∨
      ∀ fs, s.makeParent fs m = s.makeParent fs {} := by
  cases hp : Path.parse s.path with
  | none => exact .inr fun fs => by simp only [makeParent, hp]
  | some p =>
    cases hm : m.makeDirectories with
    | none => exact .inr fun fs => by simp only [makeParent, hp, hm]
    | some n =>
      by_cases hsteps : p.parent.steps = []
      · refine .inr fun fs => ?_
        rw [makeParent_eq hp, hsteps]
        simp only [makeParent, hp, hm, hsteps, if_true]
        rfl
      · exact .inl ⟨n, fun fs => by simp only [makeParent, hp, hm, hsteps, if_false, made]⟩

theorem makeParent_made : s.makeParent (s.made fs n) {} = s.makeParent fs {} := by
  cases hp : Path.parse s.path with
  | none => rw [made_eq_self hp]
  | some p =>
    have hwalk : (s.made fs n).makeWalk (fs.start p) p.parent.steps =
        fs.makeWalk (fs.start p) p.parent.steps := by
      have happend (rest : List PathStep) :
          (s.made fs n).makeWalk (fs.start p) (p.parent.steps.take n ++ rest) =
            fs.makeWalk (fs.start p) (p.parent.steps.take n ++ rest) := by
        rw [made_eq hp, FileSystem.makeWalk_append]
      simpa only [List.take_append_drop] using happend (p.parent.steps.drop n)
    rw [makeParent_eq hp, start_made, hwalk, makeParent_eq hp]

theorem makeParent_fst (s : FileStore) (m : Mishaps) :
    ∃ n, ∀ fs, (s.makeParent fs m).1 = s.made fs n := by
  rcases makeParent_cases s m with ⟨n, hn⟩ | hm
  · exact ⟨n, fun fs => by rw [hn]⟩
  · cases hp : Path.parse s.path with
    | none => exact ⟨0, fun fs => by rw [hm, made_eq_self hp, makeParent, hp]⟩
    | some p =>
      refine ⟨p.parent.steps.length, fun fs => ?_⟩
      rw [hm, makeParent_eq hp, made_eq hp, List.take_length]

/-- Making the directories above the file, or some of them, does not change what its path names. -/
def Steady (s : FileStore) (fs : FileSystem) : Prop :=
  ∀ m, (s.makeParent fs m).1.read s.path = fs.read s.path

theorem steady_iff : s.Steady fs ↔ ∀ n, (s.made fs n).read s.path = fs.read s.path := by
  constructor
  · intro h n
    have hn := h { makeDirectories := some n }
    cases hp : Path.parse s.path with
    | none => rw [made_eq_self hp]
    | some p =>
      by_cases hsteps : p.parent.steps = []
      · rw [made_eq hp, hsteps, List.take_nil]
        rfl
      · simpa only [makeParent, hp, hsteps, if_false, ← made_eq hp] using hn
  · intro h m
    obtain ⟨n, hn⟩ := makeParent_fst s m
    rw [hn, h]

theorem steady_of_read (h : fs.read s.path = .ok c) : s.Steady fs := by
  refine steady_iff.mpr fun n => ?_
  obtain ⟨p, l, hloc, hl, hp⟩ := FileSystem.read_eq_ok.mp h
  have hkept {q : Location} {e : FileEntry} (hq : fs.find? q = some e) :
      (s.made fs n).find? q = some e := by
    rw [made_eq (FileSystem.locate_eq_ok.mp hloc).1]
    exact FileSystem.find?_makeWalk hq
  rw [h]
  exact FileSystem.read_eq_ok.mpr
    ⟨p, l, FileSystem.locate_of_directories hloc made_here fun _ => hkept, hkept hl, hp⟩

theorem steady_of_missing {p : Path} (hc : fs.Closed) (hp : Path.parse s.path = some p)
    (hup : .up ∉ p.steps) (h : fs.read s.path = .error .notFound) : s.Steady fs := by
  refine steady_iff.mpr fun n => ?_
  rw [h, FileSystem.read_eq_notFound hp, start_made, made_eq hp]
  have hmissing := (FileSystem.read_eq_notFound hp).mp h
  by_cases hsteps : p.steps = []
  · have hparent : p.parent.steps = [] := by simp [Path.parent, hsteps]
    rw [hparent, List.take_nil]
    exact hmissing
  · have hsplit : p.parent.steps.take n ++ (p.parent.steps.drop n ++ [p.steps.getLast hsteps]) =
        p.steps := by
      rw [← List.append_assoc, List.take_append_drop]
      exact List.dropLast_concat_getLast hsteps
    rw [← hsplit] at hmissing hup
    have hlater := FileSystem.Missing.makeWalk hc hmissing hup (by simp)
    rwa [hsplit] at hlater

/-- What writes that fail may leave behind: directories above the file, and the file beside it. -/
inductive Littered (s : FileStore) (fs : FileSystem) : FileSystem → Prop
  | directories (n : Nat) : Littered s fs (s.made fs n)
  | temporary {hs gs : FileSystem} {c : Content} (hmade : s.makeParent fs {} = (hs, .ok ()))
      (hwritten : hs.write s.temporary c = .ok gs) : Littered s fs gs

theorem Littered.none : s.Littered fs fs := by
  have h : s.Littered fs (s.made fs 0) := .directories 0
  rwa [made_zero] at h

section Temporary

variable (h : fs.write s.temporary c = .ok gs)

include h

theorem makeWalk_temporary {p : Path} (hp : Path.parse s.path = some p) :
    gs.makeWalk (gs.start p) p.parent.steps = (gs, .ok ()) :=
  FileSystem.makeWalk_write (by decide) (by decide) h hp

theorem makeParent_temporary : s.makeParent gs {} = (gs, .ok ()) := by
  cases hp : Path.parse s.path with
  | none => simp only [makeParent, hp]
  | some p =>
    rw [makeParent_eq hp, makeWalk_temporary h hp]
    rfl

theorem made_temporary : s.made gs n = gs := by
  cases hp : Path.parse s.path with
  | none => exact made_eq_self hp
  | some p =>
    obtain ⟨rest, hrest⟩ := List.take_prefix n p.parent.steps
    have hall := makeWalk_temporary h hp
    rw [← hrest] at hall
    have hpart : ((gs.makeWalk (gs.start p) (p.parent.steps.take n ++ rest)).1.makeWalk
        (gs.start p) (p.parent.steps.take n)).1 = _ := FileSystem.makeWalk_prefix
    rwa [hall, ← made_eq hp] at hpart

theorem read_temporary : gs.read s.path = fs.read s.path :=
  FileSystem.read_write (by decide) (by decide) h

end Temporary

theorem Steady.littered (h : s.Steady fs) (hl : s.Littered fs gs) :
    s.Steady gs ∧ gs.read s.path = fs.read s.path := by
  cases hl with
  | directories n =>
    have hread := steady_iff.mp h
    exact ⟨steady_iff.mpr fun k => by rw [made_made, hread, hread], hread n⟩
  | @temporary hs _ c hmade hwritten =>
    refine ⟨steady_iff.mpr fun k => by rw [made_temporary hwritten], ?_⟩
    rw [read_temporary hwritten, ← h {}, hmade]

theorem replaceFile_littered (h : s.Littered fs gs) (m : Mishaps) (d : Document) :
    (s.replaceFile gs m d).2 = (s.replaceFile fs m d).2 ∧
      s.Littered (s.replaceFile fs m d).1 (s.replaceFile gs m d).1 := by
  rcases makeParent_cases s m with ⟨n, hn⟩ | hm
  · simp only [replaceFile, hn]
    refine ⟨trivial, ?_⟩
    cases h with
    | directories k =>
      rw [made_made, Nat.max_comm, ← made_made]
      exact .directories k
    | temporary hmade hwritten =>
      rw [made_temporary hwritten]
      refine .temporary ?_ hwritten
      rw [makeParent_made, hmade]
  · -- Nothing is left behind that the making of the directories or the write does not repeat.
    suffices s.replaceFile gs m d = s.replaceFile fs m d by
      rw [this]
      exact ⟨rfl, .none⟩
    cases h with
    | directories k => simp only [replaceFile, hm, makeParent_made]
    | temporary hmade hwritten =>
      obtain ⟨hs, hfirst, hagain⟩ :=
        FileSystem.write_written hwritten (m.broken.getD (Content.ofString d.render))
      simp only [replaceFile, hm, hmade, makeParent_temporary hwritten, hfirst, hagain]

theorem littered_makeParent (s : FileStore) (fs : FileSystem) (m : Mishaps) :
    s.Littered fs (s.makeParent fs m).1 := by
  obtain ⟨n, hn⟩ := makeParent_fst s m
  rw [hn]
  exact .directories n

theorem makeParent_ok (h : s.makeParent fs m = (gs, .ok ())) :
    s.makeParent fs {} = (gs, .ok ()) := by
  rcases makeParent_cases s m with ⟨n, hn⟩ | hm
  · rw [hn] at h
    cases h
  · rwa [hm] at h

theorem replaceFile_error {e : StorageFault} (h : s.replaceFile fs m d = (gs, .error e)) :
    s.Littered fs gs := by
  have hdirectories := littered_makeParent s fs m
  unfold replaceFile at h
  split at h
  · next hs e' hmade =>
    rw [hmade] at hdirectories
    cases h
    exact hdirectories
  · next hs hmade =>
    rw [hmade] at hdirectories
    split at h
    · cases h
      exact hdirectories
    · next hs hwritten =>
      have hlittered := Littered.temporary (makeParent_ok hmade) hwritten
      split at h
      · cases h
        exact hlittered
      · split at h
        · cases h
          exact hlittered
        · cases h

theorem replaceFile_ok (h : s.replaceFile fs m d = (gs, .ok ())) :
    gs.read s.path = .ok (Content.ofString d.render) := by
  unfold replaceFile at h
  split at h
  · cases h
  · split at h
    · cases h
    · next hs hwritten =>
      split at h
      · cases h
      · next hm =>
        split at h
        · cases h
        · next hrenamed =>
          cases h
          obtain ⟨c, hc, hread⟩ := FileSystem.read_rename hrenamed
          have hbroken : m.broken = .none := by
            cases hb : m.broken <;> simp_all
          rw [FileSystem.read_written hwritten, hbroken] at hc
          rw [hread, ← hc, Option.getD_none]

end DeviceLock.FileStore
