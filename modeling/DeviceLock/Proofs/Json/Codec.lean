import DeviceLock.Proofs.Activation.RoundTrip

/-!
Whatever is read from a JSON text is read back from the texts that it is written as, in one line
or over several (`RoundTrips`). A text may spell a value in many ways; `roundTrips_of_reread` asks
only that what has been read stands its own printing.
-/

namespace DeviceLock

namespace Json

def RoundTrips {α : Type} (read : Json → Option α) (write : α → Json) : Prop :=
  ∀ (text : Content) (a : α), (parse text).bind read = some a →
    (parse (Content.ofString (write a).print)).bind read = some a ∧
      (parse (Content.ofString (write a).pretty)).bind read = some a

theorem roundTrips_of_reread {α : Type} {read : Json → Option α} {write : α → Json}
    (hwhole : ∀ a, (write a).Whole)
    (hreread : ∀ j a, read j = some a → read (write a).reread = some a) :
    RoundTrips read write := by
  intro text a ha
  obtain ⟨j, -, hj⟩ := Option.bind_eq_some_iff.mp ha
  constructor
  · rw [parse_print (hwhole a), Option.bind_some, hreread j a hj]
  · rw [parse_pretty (hwhole a), Option.bind_some, hreread j a hj]

theorem roundTrips_member {α : Type} [WireName α] [LawfulWireName α] :
    RoundTrips (member? (α := α)) ofMember := by
  apply roundTrips_of_reread
  · intro a
    trivial
  · intro j a _
    exact member?_reread a

end Json

open Json

theorem Document.roundTrips : RoundTrips ofJson? toJson := by
  apply roundTrips_of_reread whole_toJson
  intro j d hd
  exact ofJson?_reread (regular_of_ofJson? hd)

theorem ActivationReport.roundTrips : RoundTrips ofJson? toJson := by
  apply roundTrips_of_reread whole_toJson
  intro j r hr
  obtain ⟨hattempts, hregular⟩ := bounded_of_ofJson? hr
  exact ofJson?_reread hattempts hregular

theorem EngineConfig.roundTrips : RoundTrips ofJson? toJson := by
  apply roundTrips_of_reread whole_toJson
  intro j c _
  exact c.ofJson?_reread

/-- Nothing that is read is lost or changed when it is written; an instant that is displayed loses
the fraction of its second and nothing else. -/
structure FaithfulCodecs : Prop where
  document : RoundTrips Document.ofJson? Document.toJson
  report : RoundTrips ActivationReport.ofJson? ActivationReport.toJson
  config : RoundTrips EngineConfig.ofJson? EngineConfig.toJson
  provisionState : RoundTrips (α := ProvisionState) member? ofMember
  provisionEvent : RoundTrips (α := ProvisionEvent) member? ofMember
  deviceState : RoundTrips (α := DeviceState) member? ofMember
  deviceRequest : RoundTrips (α := DeviceRequest) member? ofMember
  lockMode : RoundTrips (α := LockMode) member? ofMember
  policyStep : RoundTrips (α := PolicyStep) member? ofMember
  finalizationState : RoundTrips (α := FinalizationState) member? ofMember
  finalizationEvent : RoundTrips (α := FinalizationEvent) member? ofMember
  alarm : RoundTrips (α := Alarm) member? ofMember
  activationStatus : RoundTrips (α := ActivationStatus) member? ofMember
  displayed : ∀ (s : String) (t : Timestamp), Timestamp.parse s = some t →
    Timestamp.parse t.display = some t.wholeSecond

theorem codecs_faithful : FaithfulCodecs where
  document := Document.roundTrips
  report := ActivationReport.roundTrips
  config := EngineConfig.roundTrips
  provisionState := roundTrips_member
  provisionEvent := roundTrips_member
  deviceState := roundTrips_member
  deviceRequest := roundTrips_member
  lockMode := roundTrips_member
  policyStep := roundTrips_member
  finalizationState := roundTrips_member
  finalizationEvent := roundTrips_member
  alarm := roundTrips_member
  activationStatus := roundTrips_member
  displayed _ _ h := Timestamp.parse_display (Timestamp.regular_of_parse h)

theorem codecs_faithful_leapSecond :
    (∃ d, (parse (Content.ofString
        "[\x7b\"KIOSK\\u005fPROVISIONED\":null\x7d,\"LOCKED\",\"UNFINALIZED\",\"-0012-6-30 15:59:60.25-08:00\"]")).bind
          Document.ofJson? = some d ∧
      (parse (Content.ofString d.toJson.print)).bind Document.ofJson? = some d) ∧
    ∃ t, Timestamp.parse "-0012-6-30 15:59:60.25-08:00" = some t ∧
      Timestamp.parse t.display = some t.wholeSecond := by
  constructor
  · obtain ⟨d, hd⟩ := Option.isSome_iff_exists.mp (show ((parse (Content.ofString
      "[\x7b\"KIOSK\\u005fPROVISIONED\":null\x7d,\"LOCKED\",\"UNFINALIZED\",\"-0012-6-30 15:59:60.25-08:00\"]")).bind
        Document.ofJson?).isSome by decide +kernel)
    exact ⟨d, hd, (codecs_faithful.document _ d hd).1⟩
  · obtain ⟨t, ht⟩ := Option.isSome_iff_exists.mp
      (show (Timestamp.parse "-0012-6-30 15:59:60.25-08:00").isSome by decide +kernel)
    exact ⟨t, ht, codecs_faithful.displayed _ t ht⟩

end DeviceLock
