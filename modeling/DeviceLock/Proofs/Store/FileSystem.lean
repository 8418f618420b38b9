import DeviceLock.Store.FileSystem

namespace DeviceLock

namespace Path

theorem names_append {s t : String} (ht : '/' ∉ t.toList) :
    ∃ init last, names s = init ++ [last] ∧ names (s ++ t) = init ++ [last ++ t] := by
  have hsplit (cs : List Char) : ∃ init last, cs.splitOn '/' = init ++ [last] ∧
      (cs ++ t.toList).splitOn '/' = init ++ [last ++ t.toList] := by
    induction cs with
    | nil => exact ⟨[], [], rfl, List.splitOn_eq_singleton ht⟩
    | cons c cs ih =>
      obtain ⟨init, last, hcs, hcst⟩ := ih
      rw [List.cons_append, List.splitOn_cons_eq_if_modifyHead, List.splitOn_cons_eq_if_modifyHead,
        hcs, hcst]
      split
      · exact ⟨[] :: init, last, rfl, rfl⟩
      · cases init with
        | nil => exact ⟨[], c :: last, rfl, rfl⟩
        | cons d init => exact ⟨(c :: d) :: init, last, rfl, rfl⟩
  obtain ⟨init, last, hs, hst⟩ := hsplit s.toList
  refine ⟨init.map String.ofList, String.ofList last, ?_, ?_⟩
  · rw [names, hs, List.map_append, List.map_singleton]
  · rw [names, String.toList_append, hst, List.map_append, List.map_singleton, String.ofList_append,
      String.ofList_toList]

theorem parse_append {s t : String} {p : Path} (h : parse s = some p) (ht : '/' ∉ t.toList)
    (hlen : 2 < t.length) :
    ∃ above last, p.steps = above ++ (steps? last).toList ∧
      parse (s ++ t) = some ⟨p.absolute, above ++ [.down (last ++ t)], false⟩ := by
  obtain ⟨init, last, hs, hst⟩ := names_append (s := s) ht
  have hlong {u : String} (hu : u.length ≤ 2) : last ++ t ≠ u := by
    rintro rfl
    rw [String.length_append] at hu
    omega
  have hne : s ≠ "" := by
    rintro rfl
    cases h
  have hnet : s ++ t ≠ "" := by
    intro he
    have hlength : (s ++ t).length = 0 := by
      rw [he]
      rfl
    rw [String.length_append] at hlength
    omega
  have hstep : steps? (last ++ t) = some (.down (last ++ t)) := by
    rw [steps?, if_neg (not_or.mpr ⟨hlong (by decide), hlong (by decide)⟩),
      if_neg (hlong (by decide))]
  have hhead : (s ++ t).toList.head? = s.toList.head? := by
    rw [String.toList_append]
    cases hc : s.toList with
    | nil => exact absurd (String.toList_eq_nil_iff.mp hc) hne
    | cons c cs => rfl
  rw [parse, if_neg hne] at h
  cases h
  refine ⟨init.filterMap steps?, last, ?_, ?_⟩
  · rw [hs, List.filterMap_append]
    cases hlast : steps? last <;> simp [hlast]
  · rw [parse, if_neg hnet, hst, hhead, List.filterMap_append]
    have hdot : last ++ t ≠ "." := hlong (by decide)
    simp [hstep, hlong, hdot]

end Path

namespace FileSystem

variable {fs gs : FileSystem} {l q : Location} {s t : List PathStep} {c : Content}

theorem bind_eq_ok {ε α β : Type} {x : Except ε α} {f : α → Except ε β} {b : β} :
    x >>= f = .ok b ↔ ∃ a, x = .ok a ∧ f a = .ok b := by
  cases x with
  | error e => simp [bind, Except.bind]
  | ok a => simp [bind, Except.bind]

theorem enterable_iff : fs.enterable l = .ok () ↔ fs.find? l = some .directory := by
  unfold enterable
  split <;> simp_all

theorem walk_append : fs.walk l (s ++ t) = fs.walk l s >>= fun q => fs.walk q t := by
  induction s generalizing l with
  | nil => rfl
  | cons x s ih =>
    cases x with
    | down name =>
      simp only [List.cons_append, walk, ih]
      cases fs.enterable l <;> rfl
    | up =>
      simp only [List.cons_append, walk, ih]
      cases fs.enterable l <;> rfl

theorem walk_down_iff {name : String} :
    fs.walk l (.down name :: s) = .ok q ↔
      fs.find? l = some .directory ∧ fs.walk (l ++ [name]) s = .ok q := by
  rw [← enterable_iff, walk]
  cases fs.enterable l <;> simp [bind, Except.bind]

theorem walk_up_iff :
    fs.walk l (.up :: s) = .ok q ↔
      fs.find? l = some .directory ∧ fs.walk l.dropLast s = .ok q := by
  rw [← enterable_iff, walk]
  cases fs.enterable l <;> simp [bind, Except.bind]

theorem walk_of_directories
    (h : ∀ d, fs.find? d = some .directory → gs.find? d = some .directory)
    (hw : fs.walk l s = .ok q) : gs.walk l s = .ok q := by
  induction s generalizing l with
  | nil => exact hw
  | cons x s ih =>
    cases x with
    | down name =>
      obtain ⟨hl, hw⟩ := walk_down_iff.mp hw
      exact walk_down_iff.mpr ⟨h l hl, ih hw⟩
    | up =>
      obtain ⟨hl, hw⟩ := walk_up_iff.mp hw
      exact walk_up_iff.mpr ⟨h l hl, ih hw⟩

theorem directory_of_walk (hw : fs.walk l s = .ok q) (hq : fs.find? q = some .directory) :
    fs.find? l = some .directory := by
  cases s with
  | nil =>
    cases hw
    exact hq
  | cons x s =>
    cases x with
    | down name => exact (walk_down_iff.mp hw).1
    | up => exact (walk_up_iff.mp hw).1

section MakeWalk

theorem makeWalk_file {name : String} (h : fs.find? (l ++ [name]) = some (.file c)) :
    fs.makeWalk l (.down name :: s) = (fs, .error .notDirectory) := by
  simp [makeWalk, h]

theorem makeWalk_directory {name : String} (h : fs.find? (l ++ [name]) = some .directory) :
    fs.makeWalk l (.down name :: s) = fs.makeWalk (l ++ [name]) s := by
  simp [makeWalk, h]

theorem makeWalk_none {name : String} (h : fs.find? (l ++ [name]) = none) :
    fs.makeWalk l (.down name :: s) =
      (fs.put (l ++ [name]) .directory).makeWalk (l ++ [name]) s := by
  simp [makeWalk, h]

theorem find?_makeWalk {e : FileEntry} (h : fs.find? q = some e) :
    (fs.makeWalk l s).1.find? q = some e := by
  induction s generalizing fs l with
  | nil => exact h
  | cons x s ih =>
    cases x with
    | up => exact ih h
    | down name =>
      cases hq : fs.find? (l ++ [name]) with
      | none =>
        rw [makeWalk_none hq]
        refine ih ?_
        rwa [find?_put_of_ne]
        rintro rfl
        rw [hq] at h
        cases h
      | some f =>
        cases f with
        | file c =>
          rw [makeWalk_file hq]
          exact h
        | directory =>
          rw [makeWalk_directory hq]
          exact ih h

theorem makeWalk_here : (fs.makeWalk l s).1.here = fs.here := by
  induction s generalizing fs l with
  | nil => rfl
  | cons x s ih =>
    cases x with
    | up => exact ih
    | down name =>
      cases hq : fs.find? (l ++ [name]) with
      | none =>
        rw [makeWalk_none hq, ih]
        rfl
      | some f =>
        cases f with
        | file c => rw [makeWalk_file hq]
        | directory => rw [makeWalk_directory hq, ih]

theorem find?_makeWalk_put (h : l ≠ []) :
    ((fs.put l .directory).makeWalk q s).1.find? l = some .directory :=
  find?_makeWalk (find?_put fs _ h)

theorem makeWalk_append :
    (fs.makeWalk l s).1.makeWalk l (s ++ t) = fs.makeWalk l (s ++ t) := by
  induction s generalizing fs l with
  | nil => rfl
  | cons x s ih =>
    rw [List.cons_append]
    cases x with
    | up => exact ih
    | down name =>
      cases hq : fs.find? (l ++ [name]) with
      | none =>
        rw [makeWalk_none hq, makeWalk_none hq,
          makeWalk_directory (find?_makeWalk_put (by simp)), ih]
      | some f =>
        cases f with
        | file c => rw [makeWalk_file hq, makeWalk_file hq]
        | directory =>
          rw [makeWalk_directory hq, makeWalk_directory hq,
            makeWalk_directory (find?_makeWalk hq), ih]

theorem makeWalk_prefix :
    ((fs.makeWalk l (s ++ t)).1.makeWalk l s).1 = (fs.makeWalk l (s ++ t)).1 := by
  induction s generalizing fs l with
  | nil => rfl
  | cons x s ih =>
    rw [List.cons_append]
    cases x with
    | up => exact ih
    | down name =>
      cases hq : fs.find? (l ++ [name]) with
      | none =>
        rw [makeWalk_none hq, makeWalk_directory (find?_makeWalk_put (by simp)), ih]
      | some f =>
        cases f with
        | file c => rw [makeWalk_file hq, makeWalk_file hq]
        | directory =>
          rw [makeWalk_directory hq, makeWalk_directory (find?_makeWalk hq), ih]

theorem makeWalk_of_walk (hw : fs.walk l s = .ok q) (hq : fs.find? q = some .directory) :
    fs.makeWalk l s = (fs, .ok ()) := by
  induction s generalizing l with
  | nil => rfl
  | cons x s ih =>
    cases x with
    | down name =>
      obtain ⟨-, hw⟩ := walk_down_iff.mp hw
      rw [makeWalk_directory (directory_of_walk hw hq)]
      exact ih hw
    | up => exact ih (walk_up_iff.mp hw).2

end MakeWalk

section Files

theorem put_put (fs : FileSystem) (l : Location) (e f : FileEntry) :
    (fs.put l e).put l f = fs.put l f := by
  simp [put, remove, List.filter_filter]

theorem find?_remove_of_ne (h : q ≠ l) : (fs.remove l).find? q = fs.find? q := by
  unfold find?
  split
  · rfl
  · exact lookup_filter_ne fs.entries h

variable {path target : String} {p r : Path}

theorem locate_eq_ok :
    fs.locate path = .ok (p, l) ↔
      Path.parse path = some p ∧ fs.walk (fs.start p) p.steps = .ok l := by
  unfold locate
  split
  · next h => simp [h]
  · next p' h =>
    rw [bind_eq_ok, h]
    constructor
    · rintro ⟨q, hw, he⟩
      cases he
      exact ⟨rfl, hw⟩
    · rintro ⟨hp, hw⟩
      cases hp
      exact ⟨l, hw, rfl⟩

theorem read_eq_ok :
    fs.read path = .ok c ↔ ∃ p l, fs.locate path = .ok (p, l) ∧ fs.find? l = some (.file c) ∧
      p.directory = false := by
  rw [read, bind_eq_ok, Prod.exists]
  refine exists_congr fun p => exists_congr fun l => and_congr_right fun _ => ?_
  dsimp only
  split
  · next d hd => cases p.directory <;> simp [hd, pure, Except.pure]
  · next hd => simp [hd]
  · next hd => simp [hd]

theorem write_eq_ok :
    fs.write path c = .ok gs ↔ ∃ p l, fs.locate path = .ok (p, l) ∧ p.directory = false ∧
      fs.find? l ≠ some .directory ∧ gs = fs.put l (.file c) := by
  rw [write, bind_eq_ok, Prod.exists]
  refine exists_congr fun p => exists_congr fun l => and_congr_right fun _ => ?_
  dsimp only
  split
  · next h =>
    simp only [reduceCtorEq, false_iff, not_and]
    intro hp hd
    simp [hp, hd] at h
  · next h =>
    rw [not_or, Bool.not_eq_true] at h
    simp [h, pure, Except.pure, eq_comm]

theorem find?_write (h : fs.write path c = .ok gs) (hq : fs.find? q = some .directory) :
    gs.find? q = some .directory := by
  obtain ⟨p, l, -, -, hl, rfl⟩ := write_eq_ok.mp h
  rw [find?_put_of_ne]
  · exact hq
  · rintro rfl
    exact hl hq

theorem locate_of_directories (hl : fs.locate path = .ok (p, l)) (hhere : gs.here = fs.here)
    (h : ∀ d, fs.find? d = some .directory → gs.find? d = some .directory) :
    gs.locate path = .ok (p, l) := by
  obtain ⟨hp, hw⟩ := locate_eq_ok.mp hl
  refine locate_eq_ok.mpr ⟨hp, ?_⟩
  rw [start, hhere]
  exact walk_of_directories h hw

theorem locate_write (h : fs.write path c = .ok gs) (hl : fs.locate target = .ok (p, l)) :
    gs.locate target = .ok (p, l) := by
  obtain ⟨q, m, -, -, -, he⟩ := write_eq_ok.mp h
  exact locate_of_directories hl (he ▸ rfl) fun x => find?_write h

theorem read_written (h : fs.write path c = .ok gs) : gs.read path = .ok c := by
  obtain ⟨p, l, hloc, hp, hl, he⟩ := write_eq_ok.mp h
  refine read_eq_ok.mpr ⟨p, l, locate_write h hloc, ?_, hp⟩
  rw [he, find?_put]
  rintro rfl
  exact hl rfl

theorem write_written (h : fs.write path c = .ok gs) (x : Content) :
    ∃ hs, fs.write path x = .ok hs ∧ gs.write path x = .ok hs := by
  obtain ⟨p, l, hloc, hp, hl, he⟩ := write_eq_ok.mp h
  refine ⟨fs.put l (.file x), write_eq_ok.mpr ⟨p, l, hloc, hp, hl, rfl⟩,
    write_eq_ok.mpr ⟨p, l, locate_write h hloc, hp, ?_, by rw [he, put_put]⟩⟩
  rw [he, find?_put]
  · simp
  · rintro rfl
    exact hl rfl

theorem walk_last {t : String} (hl : fs.find? l = some .directory) (ht : 2 < t.length)
    (name : String) :
    ∃ q, fs.walk l (Path.steps? name).toList = .ok q ∧ q ≠ l ++ [name ++ t] := by
  have hlength {q : Location} (hq : q.length ≤ l.length) : q ≠ l ++ [name ++ t] := by
    rintro rfl
    rw [List.length_append, List.length_singleton] at hq
    omega
  unfold Path.steps?
  split
  · exact ⟨l, rfl, hlength (Nat.le_refl _)⟩
  · split
    · exact ⟨l.dropLast, walk_up_iff.mpr ⟨hl, rfl⟩, hlength (by simp)⟩
    · refine ⟨l ++ [name], walk_down_iff.mpr ⟨hl, rfl⟩, fun he => ?_⟩
      have hname : name = name ++ t := by simpa using he
      have hlengths := congrArg String.length hname
      rw [String.length_append] at hlengths
      omega

section Beside

variable {t : String} (ht : '/' ∉ t.toList) (hlen : 2 < t.length)

include ht hlen

theorem locate_beside (hp : Path.parse path = some p) (hl : fs.locate (path ++ t) = .ok (r, l)) :
    ∃ above last d, p.steps = above ++ (Path.steps? last).toList ∧
      fs.walk (fs.start p) above = .ok d ∧ fs.find? d = some .directory ∧ l = d ++ [last ++ t] := by
  obtain ⟨above, last, hsteps, ht⟩ := Path.parse_append hp ht hlen
  obtain ⟨hr, hw⟩ := locate_eq_ok.mp hl
  rw [ht] at hr
  cases hr
  rw [walk_append] at hw
  obtain ⟨d, hd, hw⟩ := bind_eq_ok.mp hw
  obtain ⟨hdirectory, hw⟩ := walk_down_iff.mp hw
  cases hw
  exact ⟨above, last, d, hsteps, hd, hdirectory, rfl⟩

theorem read_write (h : fs.write (path ++ t) c = .ok gs) : gs.read path = fs.read path := by
  obtain ⟨r, l, hl, -, hfree, rfl⟩ := write_eq_ok.mp h
  cases hp : Path.parse path with
  | none =>
    simp only [read, locate, hp]
    rfl
  | some p =>
    obtain ⟨above, last, d, hsteps, hw, hd, rfl⟩ := locate_beside ht hlen hp hl
    obtain ⟨q, hq, hne⟩ := walk_last hd hlen last
    have hloc : fs.locate path = .ok (p, q) := by
      refine locate_eq_ok.mpr ⟨hp, ?_⟩
      rw [hsteps, walk_append, hw]
      exact hq
    rw [read, read, hloc, locate_write h hloc]
    simp only [bind, Except.bind, find?_put_of_ne _ _ hne]

theorem walk_parent (h : fs.write (path ++ t) c = .ok gs) (hp : Path.parse path = some p) :
    ∃ q, fs.walk (fs.start p) p.parent.steps = .ok q ∧ fs.find? q = some .directory := by
  obtain ⟨r, l, hl, -, -, rfl⟩ := write_eq_ok.mp h
  obtain ⟨above, last, d, hsteps, hw, hd, rfl⟩ := locate_beside ht hlen hp hl
  obtain ⟨rest, hrest⟩ : p.parent.steps <+: above := by
    rw [Path.parent, hsteps]
    cases Path.steps? last with
    | none => simpa using List.dropLast_prefix above
    | some x => simp
  rw [← hrest, walk_append] at hw
  obtain ⟨q, hq, hw⟩ := bind_eq_ok.mp hw
  exact ⟨q, hq, directory_of_walk hw hd⟩

theorem makeWalk_kept {hs : FileSystem} (h : fs.write (path ++ t) c = .ok gs)
    (hp : Path.parse path = some p) (hhere : hs.here = fs.here)
    (hkept : ∀ d, fs.find? d = some .directory → hs.find? d = some .directory) :
    hs.makeWalk (hs.start p) p.parent.steps = (hs, .ok ()) := by
  obtain ⟨q, hq, hd⟩ := walk_parent ht hlen h hp
  rw [start, hhere]
  exact makeWalk_of_walk (walk_of_directories hkept hq) (hkept q hd)

theorem makeWalk_write (h : fs.write (path ++ t) c = .ok gs) (hp : Path.parse path = some p) :
    gs.makeWalk (gs.start p) p.parent.steps = (gs, .ok ()) := by
  obtain ⟨r, l, -, -, -, he⟩ := write_eq_ok.mp h
  exact makeWalk_kept ht hlen h hp (he ▸ rfl) fun d => find?_write h

end Beside

section Moves

variable {p q : Path} {l m : Location}

theorem write_isOk (hl : fs.locate path = .ok (p, l)) (hp : p.directory = false)
    (hfree : fs.find? l ≠ some .directory) (c : Content) :
    fs.write path c = .ok (fs.put l (.file c)) :=
  write_eq_ok.mpr ⟨p, l, hl, hp, hfree, rfl⟩

theorem rename_eq_ok :
    fs.rename path target = .ok gs ↔ ∃ c p l q m, fs.locate path = .ok (p, l) ∧
      fs.find? l = some (.file c) ∧ p.directory = false ∧ fs.locate target = .ok (q, m) ∧
        q.directory = false ∧ fs.find? m ≠ some .directory ∧
          gs = (fs.remove l).put m (.file c) := by
  unfold rename
  simp only [bind_eq_ok, read_eq_ok, Prod.exists]
  constructor
  · rintro ⟨c, ⟨p, l, hl, hc, hp⟩, p', l', hl', q, m, hm, h⟩
    cases hl.symm.trans hl'
    split at h
    · cases h
    · rename_i hq
      split at h
      · cases h
      · rename_i hfree
        cases h
        exact ⟨c, p, l, q, m, hl, hc, hp, hm, by simpa using hq, hfree, rfl⟩
  · rintro ⟨c, p, l, q, m, hl, hc, hp, hm, hq, hfree, rfl⟩
    refine ⟨c, ⟨p, l, hl, hc, hp⟩, p, l, hl, q, m, hm, ?_⟩
    simp [hq, hfree, pure, Except.pure]

structure Roots (fs gs : FileSystem) : Prop where
  here : gs.here = fs.here
  directories : ∀ d, fs.find? d = some .directory → gs.find? d = some .directory

theorem Roots.locate (h : fs.Roots gs) (hl : fs.locate path = .ok (p, l)) :
    gs.locate path = .ok (p, l) :=
  locate_of_directories hl h.here h.directories

theorem roots_moved (hl : fs.find? l = some (.file c)) (hm : fs.find? m ≠ some .directory)
    (x : Content) : fs.Roots ((fs.remove l).put m (.file x)) where
  here := rfl
  directories := fun d hd => by
    have hdm : d ≠ m := by
      rintro rfl
      exact hm hd
    have hdl : d ≠ l := by
      rintro rfl
      cases hl.symm.trans hd
    rw [find?_put_of_ne _ _ hdm, find?_remove_of_ne hdl, hd]

theorem find?_moved (hl : l ≠ []) (hm : m ≠ []) (x : Content) :
    ((fs.remove l).put m (.file x)).find? l ≠ some .directory := by
  by_cases hlm : l = m
  · subst hlm
    rw [find?_put _ _ hl]
    simp
  · have hnone : (fs.remove l).entries.lookup l = none := by
      refine List.lookup_eq_none_iff.mpr fun e he => ?_
      have hne : e.1 ≠ l := by simpa using (List.mem_filter.mp he).2
      exact bne_iff_ne.mpr hne.symm
    rw [find?_put_of_ne _ _ hlm, find?, if_neg hl, hnone]
    simp

theorem read_rename (h : fs.rename path target = .ok gs) :
    ∃ c, fs.read path = .ok c ∧ gs.read target = .ok c := by
  obtain ⟨c, p, l, q, m, hl, hc, hp, hm, hq, hfree, rfl⟩ := rename_eq_ok.mp h
  have hroot : m ≠ [] := by
    rintro rfl
    exact hfree rfl
  exact ⟨c, read_eq_ok.mpr ⟨p, l, hl, hc, hp⟩,
    read_eq_ok.mpr ⟨q, m, (roots_moved hc hfree c).locate hm, find?_put _ _ hroot, hq⟩⟩

end Moves

end Files

section Straight

variable {path : String} {p : Path} {name : String}

def Missing (fs : FileSystem) (l : Location) (s : List PathStep) : Prop :=
  fs.walk l s = .error .notFound ∨ ∃ q, fs.walk l s = .ok q ∧ fs.find? q = none

theorem read_eq_notFound (hp : Path.parse path = some p) :
    fs.read path = .error .notFound ↔ fs.Missing (fs.start p) p.steps := by
  simp only [Missing, read, locate, hp]
  cases fs.walk (fs.start p) p.steps with
  | error e => simp [bind, Except.bind]
  | ok q =>
    simp only [bind, Except.bind, pure, Except.pure, reduceCtorEq, false_or, Except.ok.injEq,
      exists_eq_left']
    cases fs.find? q with
    | none => simp
    | some e =>
      cases e with
      | file c => cases p.directory <;> simp
      | directory => simp

theorem missing_down :
    fs.Missing l (.down name :: s) ↔ fs.find? l = none ∨
      fs.find? l = some .directory ∧ fs.Missing (l ++ [name]) s := by
  simp only [Missing, walk, enterable]
  cases fs.find? l with
  | none => simp [bind, Except.bind]
  | some e => cases e <;> simp [bind, Except.bind]

theorem missing_of_none (h : fs.find? l = none) (hs : .up ∉ s) : fs.Missing l s := by
  cases s with
  | nil => exact .inr ⟨l, rfl, h⟩
  | cons x s =>
    cases x with
    | up => simp at hs
    | down name => exact missing_down.mpr (.inl h)

def Closed (fs : FileSystem) : Prop :=
  ∀ l name, fs.find? (l ++ [name]) ≠ none → fs.find? l = some .directory

theorem Closed.put (hc : fs.Closed) (hl : fs.find? l = some .directory)
    (hq : fs.find? (l ++ [name]) = none) : (fs.put (l ++ [name]) .directory).Closed := by
  intro m other hm
  by_cases he : m ++ [other] = l ++ [name]
  · obtain ⟨rfl, -⟩ := List.append_inj' he rfl
    rwa [find?_put_of_ne _ _ (by simp)]
  · rw [find?_put_of_ne _ _ he] at hm
    have hdirectory := hc m other hm
    rwa [find?_put_of_ne]
    rintro rfl
    rw [hq] at hdirectory
    cases hdirectory

theorem find?_makeWalk_of_le (h : q.length ≤ l.length) (hs : .up ∉ s) :
    (fs.makeWalk l s).1.find? q = fs.find? q := by
  induction s generalizing fs l with
  | nil => rfl
  | cons x s ih =>
    cases x with
    | up => simp at hs
    | down name =>
      have hs := List.not_mem_of_not_mem_cons hs
      have hle : q.length ≤ (l ++ [name]).length := by
        rw [List.length_append]
        omega
      cases hq : fs.find? (l ++ [name]) with
      | none =>
        rw [makeWalk_none hq, ih hle hs, find?_put_of_ne]
        rintro rfl
        rw [List.length_append, List.length_singleton] at h
        omega
      | some f =>
        cases f with
        | file c => rw [makeWalk_file hq]
        | directory => rw [makeWalk_directory hq, ih hle hs]

theorem Missing.makeWalk (hc : fs.Closed) (h : fs.Missing l (s ++ t)) (hup : .up ∉ s ++ t)
    (ht : t ≠ []) : (fs.makeWalk l s).1.Missing l (s ++ t) := by
  induction s generalizing fs l with
  | nil => exact h
  | cons x s ih =>
    have hs : .up ∉ x :: s := fun hx => hup (List.mem_append_left t hx)
    cases x with
    | up => simp at hs
    | down name =>
      have hrest : .up ∉ s ++ t := List.not_mem_of_not_mem_cons hup
      rw [List.cons_append] at h ⊢
      rw [missing_down, find?_makeWalk_of_le (Nat.le_refl _) hs]
      refine (missing_down.mp h).imp_right ?_
      rintro ⟨hl, hmissing⟩
      refine ⟨hl, ?_⟩
      cases hq : fs.find? (l ++ [name]) with
      | some f =>
        cases f with
        | directory =>
          rw [makeWalk_directory hq]
          exact ih hc hmissing hrest
        | file c =>
          rw [makeWalk_file hq]
          exact hmissing
      | none =>
        rw [makeWalk_none hq]
        refine ih (hc.put hl hq) ?_ hrest
        -- Below a directory that has only been made there is nothing.
        cases hst : s ++ t with
        | nil => exact absurd (List.append_eq_nil_iff.mp hst).2 ht
        | cons y r =>
          rw [hst] at hrest
          cases y with
          | up => simp at hrest
          | down other =>
            have hnone : fs.find? (l ++ [name] ++ [other]) = none := by
              cases hsome : fs.find? (l ++ [name] ++ [other]) with
              | none => rfl
              | some e =>
                have hdirectory := hc _ other (by rw [hsome]; exact Option.some_ne_none e)
                rw [hdirectory] at hq
                cases hq
            refine missing_down.mpr (.inr ⟨find?_put _ _ (by simp), missing_of_none ?_ ?_⟩)
            · rwa [find?_put_of_ne _ _ (by simp)]
            · exact List.not_mem_of_not_mem_cons hrest

end Straight

end FileSystem

end DeviceLock
