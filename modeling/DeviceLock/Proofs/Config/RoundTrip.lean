import DeviceLock.Config.Json
import DeviceLock.Proofs.Json.Record

namespace DeviceLock

open Json

theorem Json.word?_nat {bits n : Nat} (h : n < 2 ^ bits) :
    (nat n).reread.word? bits = some n := by
  show Option.filter (· < Nat.pow 2 bits) (some n) = some n
  simpa using h

theorem Json.word64?_nat (n : UInt64) :
    ((nat n.toNat).reread.word? 64).map UInt64.ofNat = some n := by
  rw [word?_nat n.toNat_lt, Option.map_some, UInt64.ofNat_toNat]

theorem ActivationConfig.ofJson?_reread (c : ActivationConfig) :
    ofJson? c.toJson.reread = some c := by
  have hattempts : ((Json.nat c.maxAttempts.toNat).reread.word? 32).map UInt32.ofNat =
      some c.maxAttempts := by
    rw [word?_nat c.maxAttempts.toNat_lt, Option.map_some, UInt32.ofNat_toNat]
  rw [ofJson?, toJson, fields?_reread]
  · simp only [Option.bind_eq_bind, Option.bind_some]
    rw [optional?_reread rfl, optional?_reread rfl, hattempts]
    show Option.bind (((Json.nat c.retryDelay.toNat).reread.word? 64).map UInt64.ofNat) _ = _
    rw [word64?_nat]
    rfl
  · rfl
  · decide

theorem RecoveryConfig.ofJson?_reread (c : RecoveryConfig) :
    ofJson? c.toJson.reread = some c := by
  rw [ofJson?, toJson, fields?_reread]
  · simp only [Option.bind_eq_bind, Option.bind_some]
    rw [optional?_reread rfl, optional?_reread rfl, optional?_reread rfl]
    show Option.bind (((Json.nat c.criticalRetry.toNat).reread.word? 64).map UInt64.ofNat)
      (fun _ => Option.bind (((Json.nat c.setupCompletion.toNat).reread.word? 64).map UInt64.ofNat)
        fun _ => Option.bind
          (((Json.nat c.finalizationRetry.toNat).reread.word? 64).map UInt64.ofNat) _) = _
    rw [word64?_nat, word64?_nat, word64?_nat]
    rfl
  · rfl
  · decide

theorem DeviceConfig.ofJson?_reread (c : DeviceConfig) : ofJson? c.toJson.reread = some c := by
  rw [ofJson?, toJson, fields?_reread]
  · simp only [Option.bind_eq_bind, Option.bind_some]
    rw [optional?_reread rfl]
    rfl
  · rfl
  · decide

theorem StoreConfig.ofJson?_reread (c : StoreConfig) : ofJson? c.toJson.reread = some c := by
  have hpath : Json.option? Json.text? (Json.ofOption Json.text c.path).reread = some c.path :=
    option?_reread fun p _ => text?_reread p
  rw [ofJson?, toJson, fields?_reread]
  · simp only [Option.bind_eq_bind, Option.bind_some]
    rw [optional?_reread rfl, hpath]
    rfl
  · rfl
  · decide

theorem EngineConfig.ofJson?_reread (c : EngineConfig) : ofJson? c.toJson.reread = some c := by
  rw [ofJson?, toJson, fields?_reread]
  · simp only [Option.bind_eq_bind, Option.bind_some]
    rw [optional?_reread rfl, optional?_reread rfl, optional?_reread rfl, optional?_reread rfl,
      ActivationConfig.ofJson?_reread, RecoveryConfig.ofJson?_reread,
      DeviceConfig.ofJson?_reread, StoreConfig.ofJson?_reread]
    rfl
  · rfl
  · decide

theorem EngineConfig.whole_toJson (c : EngineConfig) : c.toJson.Whole := by
  have hpath : (Json.ofOption Json.text c.store.path).Whole := by
    cases c.store.path <;> trivial
  exact ⟨⟨rfl, rfl, trivial⟩, ⟨rfl, rfl, rfl, trivial⟩, ⟨trivial, trivial⟩, ⟨hpath, trivial⟩, trivial⟩

end DeviceLock
