import DeviceLock.Document.Json
import DeviceLock.Proofs.Json.Record
import DeviceLock.Proofs.Timestamp.RoundTrip

namespace DeviceLock

theorem Timestamp.ofJson?_reread {t : Timestamp} (h : t.Regular) :
    ofJson? t.toJson.reread = some t := by
  rw [ofJson?, toJson, Json.text?_reread, Option.bind_some, parse_print_iff.mpr h]

namespace Document

/-- The start time, if there is one, is an instant that some text stands for. -/
def Regular (d : Document) : Prop := ∀ t ∈ d.startTime, t.Regular

end Document

def Change.Regular (c : Change) : Prop := ∀ t, c = .startTime t → t.Regular

namespace Document

variable {d : Document}

theorem Regular.apply {c : Change} (h : d.Regular) (hc : c.Regular) : (c.apply d).Regular := by
  cases c with
  | startTime t =>
    rintro t ⟨⟩
    exact hc t rfl
  | _ => exact h

def members (d : Document) : List (String × Json) := Key.all.map fun k => (k.name, d.get k)

theorem lookup_members (d : Document) (k : Key) : d.members.lookup k.name = some (d.get k) := by
  cases k <;> rfl

theorem ofJson?_reread (h : d.Regular) : ofJson? d.toJson.reread = some d := by
  have hfields : d.toJson.reread.fields? (Key.all.map Key.name) false =
      some (d.members.map fun m => (m.1, m.2.reread)) :=
    Json.fields?_reread rfl (by decide)
  have hprovision : Json.member? (d.get .provision).reread = some d.provision :=
    Json.member?_reread d.provision
  have hdevice : Json.member? (d.get .device).reread = some d.device :=
    Json.member?_reread d.device
  have hfinalization : Json.member? (d.get .finalization).reread = some d.finalization :=
    Json.member?_reread d.finalization
  have hstartTime :
      Json.option? Timestamp.ofJson? (d.get .startTime).reread = some d.startTime :=
    Json.option?_reread fun t ht => Timestamp.ofJson?_reread (h t ht)
  have hsetup : (d.get .setupTimedOut).reread.bool? = some d.setupTimedOut := rfl
  have hready : (d.get .provisioningReady).reread.bool? = some d.provisioningReady := rfl
  rw [ofJson?, hfields]
  simp only [Json.optional?_reread (lookup_members d _), Option.bind_eq_bind, Option.bind_some,
    hprovision, hdevice, hfinalization, hstartTime, hsetup, hready]
  rfl

theorem whole_toJson (d : Document) : d.toJson.Whole := by
  have hstart : (Json.ofOption Timestamp.toJson d.startTime).Whole := by
    cases d.startTime <;> trivial
  exact ⟨trivial, trivial, trivial, hstart, trivial, trivial, trivial⟩

theorem parse_render_eq (d : Document) :
    parse (Content.ofString d.render) = ofJson? d.toJson.reread := by
  rw [parse, render, Json.parse_pretty d.whole_toJson, Option.bind_some]

theorem parse_render (h : d.Regular) : parse (Content.ofString d.render) = some d := by
  rw [parse_render_eq, ofJson?_reread h]

theorem regular_of_startTime {j : Json} {startTime : Option Timestamp}
    (h : Json.option? Timestamp.ofJson? j = some startTime) : ∀ t ∈ startTime, t.Regular := by
  rintro t rfl
  unfold Json.option? at h
  split at h
  · cases h
  · obtain ⟨_, h, he⟩ := Option.map_eq_some_iff.mp h
    cases he
    obtain ⟨s, -, ht⟩ := Option.bind_eq_some_iff.mp h
    exact Timestamp.regular_of_parse ht

theorem regular_of_ofJson? {j : Json} (h : ofJson? j = some d) : d.Regular := by
  obtain ⟨fs, -, h⟩ := Option.bind_eq_some_iff.mp h
  obtain ⟨provision, -, h⟩ := Option.bind_eq_some_iff.mp h
  obtain ⟨device, -, h⟩ := Option.bind_eq_some_iff.mp h
  obtain ⟨finalization, -, h⟩ := Option.bind_eq_some_iff.mp h
  obtain ⟨startTime, hstart, h⟩ := Option.bind_eq_some_iff.mp h
  obtain ⟨setupTimedOut, -, h⟩ := Option.bind_eq_some_iff.mp h
  obtain ⟨provisioningReady, -, h⟩ := Option.bind_eq_some_iff.mp h
  cases h
  unfold Json.optional? at hstart
  split at hstart
  · exact regular_of_startTime hstart
  · cases hstart
    rintro t ⟨⟩

theorem regular_of_parse {c : Content} (h : parse c = some d) : d.Regular := by
  obtain ⟨j, -, h⟩ := Option.bind_eq_some_iff.mp h
  exact regular_of_ofJson? h

end Document

end DeviceLock
