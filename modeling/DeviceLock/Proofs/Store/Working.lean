import DeviceLock.Proofs.Store.Refinement

namespace DeviceLock

namespace FileStore

variable {s t : FileStore} {fs gs hs : FileSystem} {d x : Document} {c : Change}

theorem replaceFile_eq_ok :
    s.replaceFile fs {} d = (gs, .ok ()) ↔ ∃ made written, s.makeParent fs {} = (made, .ok ()) ∧
      made.write s.temporary (Content.ofString d.render) = .ok written ∧
        written.rename s.temporary s.path = .ok gs := by
  simp only [replaceFile, Option.getD_none, Option.isSome_none, Bool.or_self, Bool.false_eq_true,
    if_false]
  constructor
  · intro h
    split at h
    · cases h
    · rename_i made hmade
      split at h
      · cases h
      · rename_i written hwritten
        split at h
        · cases h
        · rename_i hrenamed
          cases h
          exact ⟨made, written, hmade, hwritten, hrenamed⟩
  · rintro ⟨made, written, hmade, hwritten, hrenamed⟩
    simp only [hmade, hwritten, hrenamed]

theorem replaceFile_again (h : s.replaceFile fs {} d = (gs, .ok ())) (x : Document) :
    ∃ hs, s.replaceFile gs {} x = (hs, .ok ()) := by
  obtain ⟨made, written, hmade, hwritten, hrenamed⟩ := replaceFile_eq_ok.mp h
  obtain ⟨c, p, l, q, m, hl, hc, hp, hm, hq, hfree, rfl⟩ := FileSystem.rename_eq_ok.mp hrenamed
  have hroots := FileSystem.roots_moved hc hfree c
  generalize hgs : (written.remove l).put m (.file c) = gs at hroots ⊢
  have hparent : s.makeParent gs {} = (gs, .ok ()) := by
    cases hparse : Path.parse s.path with
    | none => simp only [makeParent, hparse]
    | some above =>
      obtain ⟨r, k, -, -, -, he⟩ := FileSystem.write_eq_ok.mp hwritten
      have hkept (d : Location) (hd : made.find? d = some .directory) :
          gs.find? d = some .directory :=
        hroots.directories d (FileSystem.find?_write hwritten hd)
      have hhere : gs.here = made.here := hroots.here.trans (he ▸ rfl)
      rw [makeParent_eq hparse,
        FileSystem.makeWalk_kept (by decide) (by decide) hwritten hparse hhere hkept]
      rfl
  have hlroot : l ≠ [] := by
    rintro rfl
    cases hc
  have hmroot : m ≠ [] := by
    rintro rfl
    exact hfree rfl
  have hagain := FileSystem.write_isOk (hroots.locate hl) hp
    (hgs ▸ FileSystem.find?_moved hlroot hmroot c) (Content.ofString x.render)
  refine ⟨_, replaceFile_eq_ok.mpr ⟨_, _, hparent, hagain, FileSystem.rename_eq_ok.mpr
    ⟨_, p, l, q, m, FileSystem.locate_write hagain (hroots.locate hl),
      FileSystem.find?_put _ _ hlroot, hp,
      FileSystem.locate_write hagain (hroots.locate hm), hq, ?_, rfl⟩⟩⟩
  subst hgs
  by_cases hml : m = l
  · subst hml
    rw [FileSystem.find?_put _ _ hmroot]
    simp
  · rw [FileSystem.find?_put_of_ne _ _ hml, FileSystem.find?_put _ _ hmroot]
    simp

theorem replaceFile_of_path (hp : t.path = s.path) :
    t.replaceFile fs {} d = s.replaceFile fs {} d := by
  obtain ⟨path, _⟩ := s
  obtain ⟨_, _⟩ := t
  obtain rfl : _ = path := hp
  rfl

theorem write_of_replaceFile (hd : (s.load fs {}).2 = .ok d)
    (h : s.replaceFile fs {} (c.apply d) = (gs, .ok ())) :
    s.write fs {} c = (gs, { s with cache := some (c.apply d) }, .ok ()) := by
  simp only [write_eq, hd, h]

theorem replaceFile_of_write (hd : (s.load fs {}).2 = .ok d)
    (h : (s.write fs {} c).2.2 = .ok ()) :
    ∃ gs, s.replaceFile fs {} (c.apply d) = (gs, .ok ()) := by
  simp only [write_eq, hd] at h
  rcases hr : s.replaceFile fs {} (c.apply d) with ⟨gs, e | u⟩
  · simp [hr] at h
  · exact ⟨gs, rfl⟩

theorem regular_of_inFile (h : s.inFile fs {} = .ok d) : d.Regular := by
  unfold inFile at h
  split at h
  · cases h
  · split at h
    · split at h
      · cases h
        exact Document.regular_of_parse ‹_›
      · cases h
    · cases h
      rintro t ⟨⟩
    · cases h

structure Works (s : FileStore) (fs : FileSystem) (d : Document) : Prop where
  load : (s.load fs {}).2 = .ok d
  writes : ∀ c, (s.write fs {} c).2.2 = .ok ()
  filed : d.Regular → s.inFile fs {} = .ok d

namespace Works

theorem of_inFile {path : String} (hread : inFile { path } fs {} = .ok d)
    (hwrites : ∀ c, (FileStore.write { path } fs {} c).2.2 = .ok ()) :
    FileStore.Works { path } fs d :=
  ⟨by rw [load_snd]; exact hread, hwrites, fun _ => hread⟩

theorem replaces (h : s.Works fs d) (c : Change) :
    ∃ gs, s.replaceFile fs {} (c.apply d) = (gs, .ok ()) :=
  replaceFile_of_write h.load (h.writes c)

theorem loaded (h : s.Works fs d) : (s.load fs {}).1.Works fs d := by
  rw [load_ok h.load]
  refine ⟨rfl, fun c => ?_, h.filed⟩
  obtain ⟨gs, hgs⟩ := h.replaces c
  have hload : (FileStore.load { s with cache := some d } fs {}).2 = .ok d := rfl
  rw [write_of_replaceFile hload ((replaceFile_of_path (s := s) rfl).trans hgs)]

theorem write (h : s.Works fs d) (c : Change) :
    ∃ gs, s.write fs {} c = (gs, { s with cache := some (c.apply d) }, .ok ()) ∧
      FileStore.Works { s with cache := some (c.apply d) } gs (c.apply d) := by
  obtain ⟨gs, hgs⟩ := h.replaces c
  refine ⟨gs, write_of_replaceFile h.load hgs, rfl, fun k => ?_, fun hregular => ?_⟩
  · obtain ⟨hs, hagain⟩ := replaceFile_again hgs (k.apply (c.apply d))
    have hload : (FileStore.load { s with cache := some (c.apply d) } gs {}).2 =
        .ok (c.apply d) := rfl
    rw [write_of_replaceFile hload ((replaceFile_of_path (s := s) rfl).trans hagain)]
  · simp only [inFile, replaceFile_ok hgs, Bool.false_eq_true, if_false,
      Document.parse_render hregular]

theorem opened (h : s.Works fs d) (hd : d.Regular) : FileStore.Works { path := s.path } fs d := by
  have hread : inFile { path := s.path } fs {} = .ok d := h.filed hd
  refine .of_inFile hread fun c => ?_
  obtain ⟨gs, hgs⟩ := h.replaces c
  have hload : (FileStore.load { path := s.path } fs {}).2 = .ok d := by
    rw [load_snd]
    exact hread
  rw [write_of_replaceFile hload ((replaceFile_of_path (s := s) rfl).trans hgs)]

end Works

end FileStore

end DeviceLock
