import DeviceLock.Proofs.Config.Scalar
import DeviceLock.Proofs.Config.Section
import DeviceLock.Proofs.Text.Trim

namespace DeviceLock

open Yaml

inductive ConfigPart
  | activation
  | recovery
  | device
  | store

inductive ConfigField : ConfigPart → Type
  | maxAttempts : ConfigField .activation
  | retryDelay : ConfigField .activation
  | criticalRetry : ConfigField .recovery
  | setupCompletion : ConfigField .recovery
  | finalizationRetry : ConfigField .recovery
  | lenientClear : ConfigField .device
  | path : ConfigField .store

namespace ConfigField

variable {p : ConfigPart}

def name : ConfigField p → String
  | .maxAttempts => "max_attempts"
  | .retryDelay => "retry_delay_ms"
  | .criticalRetry => "critical_retry_delay_secs"
  | .setupCompletion => "setup_completion_timeout_secs"
  | .finalizationRetry => "finalization_retry_delay_secs"
  | .lenientClear => "allow_clear_when_unprovisioned"
  | .path => "path"

def Value : ConfigField p → Type
  | .maxAttempts => UInt32
  | .retryDelay | .criticalRetry | .setupCompletion | .finalizationRetry => UInt64
  | .lenientClear => Bool
  | .path => Option String

def get : (f : ConfigField p) → EngineConfig → f.Value
  | .maxAttempts, c => c.activation.maxAttempts
  | .retryDelay, c => c.activation.retryDelay
  | .criticalRetry, c => c.recovery.criticalRetry
  | .setupCompletion, c => c.recovery.setupCompletion
  | .finalizationRetry, c => c.recovery.finalizationRetry
  | .lenientClear, c => c.device.lenientClear
  | .path, c => c.store.path

def Reads : (f : ConfigField p) → Node → f.Value → Prop
  | .maxAttempts, v, x => v.IsWord 32 (UInt32.toNat x)
  | .retryDelay, v, x => v.IsWord 64 (UInt64.toNat x)
  | .criticalRetry, v, x => v.IsWord 64 (UInt64.toNat x)
  | .setupCompletion, v, x => v.IsWord 64 (UInt64.toNat x)
  | .finalizationRetry, v, x => v.IsWord 64 (UInt64.toNat x)
  | .lenientClear, v, x => v.IsFlag x
  | .path, v, x => v.IsPlace x

def Admits : (f : ConfigField p) → f.Value → Prop
  | .maxAttempts, x => x ≠ (0 : UInt32)
  | _, _ => True

end ConfigField

namespace ConfigPart

def name : ConfigPart → String
  | .activation => "activation"
  | .recovery => "recovery"
  | .device => "device"
  | .store => "store"

def all : List ConfigPart := [.activation, .recovery, .device, .store]

def settings : (p : ConfigPart) → List (ConfigField p)
  | .activation => [.maxAttempts, .retryDelay]
  | .recovery => [.criticalRetry, .setupCompletion, .finalizationRetry]
  | .device => [.lenientClear]
  | .store => [.path]

def names : List String := all.map name

def fields (p : ConfigPart) : List String := p.settings.map ConfigField.name

end ConfigPart

section

variable {c : EngineConfig} {d : Option Node} {n s v v' : Node} {p : ConfigPart}
  {es : List (String × Node)}

namespace ConfigField

def read? : (f : ConfigField p) → Node → Option f.Value
  | .maxAttempts, v => (v.word? 32).map UInt32.ofNat
  | .retryDelay, v => (v.word? 64).map UInt64.ofNat
  | .criticalRetry, v => (v.word? 64).map UInt64.ofNat
  | .setupCompletion, v => (v.word? 64).map UInt64.ofNat
  | .finalizationRetry, v => (v.word? 64).map UInt64.ofNat
  | .lenientClear, v => v.bool?
  | .path, v => v.optionalText?

theorem read?_eq_some {f : ConfigField p} {x : f.Value} : f.read? v = some x ↔ f.Reads v x := by
  cases f with
  | maxAttempts => exact Node.word32?_eq_some
  | retryDelay => exact Node.word64?_eq_some
  | criticalRetry => exact Node.word64?_eq_some
  | setupCompletion => exact Node.word64?_eq_some
  | finalizationRetry => exact Node.word64?_eq_some
  | lenientClear => exact Node.bool?_eq_some
  | path => exact Node.optionalText?_eq_some

def Given (f : ConfigField p) (d : Option Node) (v : Node) : Prop :=
  ∃ n ∈ d, ∃ s, n.Entry p.name s ∧ s.Entry f.name v

theorem Given.reordered {f : ConfigField p} {n' : Node} (hv : f.Given (some n) v)
    (h : n.Reordered n') : f.Given (some n') v := by
  obtain ⟨_, ⟨⟩, s, hs, hv⟩ := hv
  obtain ⟨s', hs', hss'⟩ := h.symm.entry Node.Permuted.same hs
  obtain ⟨_, hv', rfl⟩ := hss'.entry Eq.refl hv
  exact ⟨n', rfl, s', hs', hv'⟩

def HoldsIn (f : ConfigField p) (d : Option Node) (x : f.Value) : Prop :=
  (∀ v, f.Given d v → f.Reads v x) ∧ ((∀ v, ¬f.Given d v) → x = f.get {})

theorem field?_eq_some {f : ConfigField p} {x : f.Value} (hes : s.section? p.fields = some es) :
    Node.field? es f.name (f.get {}) f.read? = some x ↔ s.Fills f.name (f.get {}) f.Reads x :=
  Node.field?_eq_some hes fun _ _ => read?_eq_some

end ConfigField

def ConfigPart.Reads (p : ConfigPart) (s : Node) (c : EngineConfig) : Prop :=
  s.Section p.fields ∧ ∀ f : ConfigField p, s.Fills f.name (f.get {}) f.Reads (f.get c)

theorem ActivationConfig.ofYaml?_eq_some :
    ofYaml? s = some c.activation ↔ ConfigPart.activation.Reads s c := by
  refine Node.bind_section?_eq_some fun es hes => ?_
  have hfield {f : ConfigField .activation} {x : f.Value} := ConfigField.field?_eq_some (x := x) hes
  constructor
  · intro h
    obtain ⟨a, ha, h⟩ := Option.bind_eq_some_iff.mp h
    obtain ⟨b, hb, h⟩ := Option.bind_eq_some_iff.mp h
    obtain ⟨activation, _, _, _⟩ := c
    obtain rfl : activation = ⟨a, b⟩ := (Option.some.inj h).symm
    intro f
    cases f with
    | maxAttempts => exact hfield.mp ha
    | retryDelay => exact hfield.mp hb
  · intro h
    exact Option.bind_eq_some_iff.mpr ⟨_, hfield.mpr (h .maxAttempts),
      Option.bind_eq_some_iff.mpr ⟨_, hfield.mpr (h .retryDelay), rfl⟩⟩

theorem ActivationConfig.eq_default :
    c.activation = {} ↔ ∀ f : ConfigField .activation, f.get c = f.get {} := by
  refine ⟨fun h f => ?_, fun h => congrArg₂ mk (h .maxAttempts) (h .retryDelay)⟩
  cases f with
  | maxAttempts => exact congrArg maxAttempts h
  | retryDelay => exact congrArg retryDelay h

theorem RecoveryConfig.ofYaml?_eq_some :
    ofYaml? s = some c.recovery ↔ ConfigPart.recovery.Reads s c := by
  refine Node.bind_section?_eq_some fun es hes => ?_
  have hfield {f : ConfigField .recovery} {x : f.Value} := ConfigField.field?_eq_some (x := x) hes
  constructor
  · intro h
    obtain ⟨a, ha, h⟩ := Option.bind_eq_some_iff.mp h
    obtain ⟨b, hb, h⟩ := Option.bind_eq_some_iff.mp h
    obtain ⟨e, he, h⟩ := Option.bind_eq_some_iff.mp h
    obtain ⟨_, recovery, _, _⟩ := c
    obtain rfl : recovery = ⟨a, b, e⟩ := (Option.some.inj h).symm
    intro f
    cases f with
    | criticalRetry => exact hfield.mp ha
    | setupCompletion => exact hfield.mp hb
    | finalizationRetry => exact hfield.mp he
  · intro h
    exact Option.bind_eq_some_iff.mpr ⟨_, hfield.mpr (h .criticalRetry),
      Option.bind_eq_some_iff.mpr ⟨_, hfield.mpr (h .setupCompletion),
        Option.bind_eq_some_iff.mpr ⟨_, hfield.mpr (h .finalizationRetry), rfl⟩⟩⟩

theorem RecoveryConfig.eq_default :
    c.recovery = {} ↔ ∀ f : ConfigField .recovery, f.get c = f.get {} := by
  refine ⟨fun h f => ?_, fun h => congr (congrArg₂ mk (h .criticalRetry) (h .setupCompletion))
    (h .finalizationRetry)⟩
  cases f with
  | criticalRetry => exact congrArg criticalRetry h
  | setupCompletion => exact congrArg setupCompletion h
  | finalizationRetry => exact congrArg finalizationRetry h

theorem DeviceConfig.ofYaml?_eq_some : ofYaml? s = some c.device ↔ ConfigPart.device.Reads s c := by
  refine Node.bind_section?_eq_some fun es hes => ?_
  have hfield {f : ConfigField .device} {x : f.Value} := ConfigField.field?_eq_some (x := x) hes
  constructor
  · intro h
    obtain ⟨a, ha, h⟩ := Option.bind_eq_some_iff.mp h
    obtain ⟨_, _, device, _⟩ := c
    obtain rfl : device = ⟨a⟩ := (Option.some.inj h).symm
    intro f
    cases f with
    | lenientClear => exact hfield.mp ha
  · intro h
    exact Option.bind_eq_some_iff.mpr ⟨_, hfield.mpr (h .lenientClear), rfl⟩

theorem DeviceConfig.eq_default :
    c.device = {} ↔ ∀ f : ConfigField .device, f.get c = f.get {} := by
  refine ⟨fun h f => ?_, fun h => congrArg mk (h .lenientClear)⟩
  cases f with
  | lenientClear => exact congrArg lenientClear h

theorem StoreConfig.ofYaml?_eq_some : ofYaml? s = some c.store ↔ ConfigPart.store.Reads s c := by
  refine Node.bind_section?_eq_some fun es hes => ?_
  have hfield {f : ConfigField .store} {x : f.Value} := ConfigField.field?_eq_some (x := x) hes
  constructor
  · intro h
    obtain ⟨a, ha, h⟩ := Option.bind_eq_some_iff.mp h
    obtain ⟨_, _, _, store⟩ := c
    obtain rfl : store = ⟨a⟩ := (Option.some.inj h).symm
    intro f
    cases f with
    | path => exact hfield.mp ha
  · intro h
    exact Option.bind_eq_some_iff.mpr ⟨_, hfield.mpr (h .path), rfl⟩

theorem StoreConfig.eq_default :
    c.store = {} ↔ ∀ f : ConfigField .store, f.get c = f.get {} := by
  refine ⟨fun h f => ?_, fun h => congrArg mk (h .path)⟩
  cases f with
  | path => exact congrArg path h

def ConfigPart.Takes (p : ConfigPart) (n : Node) (c : EngineConfig) : Prop :=
  (∀ s, n.Entry p.name s → p.Reads s c) ∧
    ((∀ s, ¬n.Entry p.name s) → ∀ f : ConfigField p, f.get c = f.get {})

theorem ConfigPart.field?_eq_some {α : Type} {x default : α} {read : Node → Option α}
    (hes : n.section? ConfigPart.names = some es) (hread : ∀ s, read s = some x ↔ p.Reads s c)
    (hdefault : x = default ↔ ∀ f : ConfigField p, f.get c = f.get {}) :
    Node.field? es p.name default read = some x ↔ p.Takes n c := by
  rw [Node.field?_eq_some hes fun _ _ => Iff.rfl]
  exact and_congr (forall₂_congr fun s _ => hread s) (imp_congr_right fun _ => hdefault)

theorem EngineConfig.ofYaml?_eq_some :
    ofYaml? n = some c ↔ n.Section ConfigPart.names ∧ ∀ p : ConfigPart, p.Takes n c := by
  refine Node.bind_section?_eq_some fun es hes => ?_
  have hactivation := ConfigPart.field?_eq_some hes
    (fun _ => ActivationConfig.ofYaml?_eq_some) (ActivationConfig.eq_default (c := c))
  have hrecovery := ConfigPart.field?_eq_some hes
    (fun _ => RecoveryConfig.ofYaml?_eq_some) (RecoveryConfig.eq_default (c := c))
  have hdevice := ConfigPart.field?_eq_some hes
    (fun _ => DeviceConfig.ofYaml?_eq_some) (DeviceConfig.eq_default (c := c))
  have hstore := ConfigPart.field?_eq_some hes
    (fun _ => StoreConfig.ofYaml?_eq_some) (StoreConfig.eq_default (c := c))
  constructor
  · intro h
    obtain ⟨a, ha, h⟩ := Option.bind_eq_some_iff.mp h
    obtain ⟨r, hr, h⟩ := Option.bind_eq_some_iff.mp h
    obtain ⟨d, hd, h⟩ := Option.bind_eq_some_iff.mp h
    obtain ⟨s, hs, h⟩ := Option.bind_eq_some_iff.mp h
    obtain rfl : c = ⟨a, r, d, s⟩ := (Option.some.inj h).symm
    intro p
    cases p with
    | activation => exact hactivation.mp ha
    | recovery => exact hrecovery.mp hr
    | device => exact hdevice.mp hd
    | store => exact hstore.mp hs
  · intro h
    exact Option.bind_eq_some_iff.mpr ⟨_, hactivation.mpr (h .activation),
      Option.bind_eq_some_iff.mpr ⟨_, hrecovery.mpr (h .recovery),
        Option.bind_eq_some_iff.mpr ⟨_, hdevice.mpr (h .device),
          Option.bind_eq_some_iff.mpr ⟨_, hstore.mpr (h .store), rfl⟩⟩⟩⟩

structure Formed (d : Option Node) : Prop where
  sections : ∀ n ∈ d, n.Section ConfigPart.names
  fields : ∀ n ∈ d, ∀ (p : ConfigPart) (s : Node), n.Entry p.name s → s.Section p.fields

structure Acceptable (d : Option Node) : Prop extends Formed d where
  values : ∀ {p : ConfigPart} (f : ConfigField p) (v : Node), f.Given d v →
    ∃ x, f.Reads v x ∧ f.Admits x

theorem Formed.given_unique (h : Formed d) {f : ConfigField p} (hv : f.Given d v)
    (hv' : f.Given d v') : v = v' := by
  obtain ⟨n, hn, s, hs, hv⟩ := hv
  obtain ⟨n', hn', s', hs', hv'⟩ := hv'
  obtain rfl : n = n' := Option.some.inj (hn.symm.trans hn')
  obtain rfl := (h.sections n hn).unique hs hs'
  exact (h.fields n hn p s hs).unique hv hv'

theorem ConfigPart.takes_iff (hn : n.Section ConfigPart.names) :
    p.Takes n c ↔ (∀ s, n.Entry p.name s → s.Section p.fields) ∧
      ∀ f : ConfigField p, f.HoldsIn (some n) (f.get c) := by
  have hgiven {f : ConfigField p} {v : Node} :
      f.Given (some n) v ↔ ∃ s, n.Entry p.name s ∧ s.Entry f.name v := by
    simp [ConfigField.Given]
  constructor
  · rintro ⟨hreads, habsent⟩
    refine ⟨fun s hs => (hreads s hs).1, fun f => ⟨fun v hv => ?_, fun hnone => ?_⟩⟩
    · obtain ⟨s, hs, hv⟩ := hgiven.mp hv
      exact ((hreads s hs).2 f).1 v hv
    · by_cases hpart : ∃ s, n.Entry p.name s
      · obtain ⟨s, hs⟩ := hpart
        exact ((hreads s hs).2 f).2 fun v hv => hnone v (hgiven.mpr ⟨s, hs, hv⟩)
      · exact habsent (not_exists.mp hpart) f
  · rintro ⟨hfields, hholds⟩
    refine ⟨fun s hs => ⟨hfields s hs, fun f => ⟨fun v hv => ?_, fun hnone => ?_⟩⟩,
      fun habsent f => ?_⟩
    · exact (hholds f).1 v (hgiven.mpr ⟨s, hs, hv⟩)
    · refine (hholds f).2 fun v hv => ?_
      obtain ⟨s', hs', hv⟩ := hgiven.mp hv
      exact hnone v (hn.unique hs' hs ▸ hv)
    · refine (hholds f).2 fun v hv => ?_
      obtain ⟨s, hs, -⟩ := hgiven.mp hv
      exact habsent s hs

namespace EngineConfig

theorem eq_default : c = {} ↔ ∀ (p : ConfigPart) (f : ConfigField p), f.get c = f.get {} := by
  refine ⟨fun h p f => h ▸ rfl, fun h => ?_⟩
  calc c = ⟨c.activation, c.recovery, c.device, c.store⟩ := rfl
    _ = {} := by
      rw [ActivationConfig.eq_default.mpr (h _), RecoveryConfig.eq_default.mpr (h _),
        DeviceConfig.eq_default.mpr (h _), StoreConfig.eq_default.mpr (h _)]

theorem ofDocument?_eq_some :
    ofDocument? d = some c ↔
      Formed d ∧ ∀ (p : ConfigPart) (f : ConfigField p), f.HoldsIn d (f.get c) := by
  cases d with
  | none =>
    have hformed : Formed none := ⟨nofun, nofun⟩
    have hnone {p : ConfigPart} {f : ConfigField p} {v : Node} : ¬f.Given none v := nofun
    rw [ofDocument?, Option.some.injEq, eq_comm, eq_default]
    constructor
    · exact fun h => ⟨hformed, fun p f => ⟨fun v hv => (hnone hv).elim, fun _ => h p f⟩⟩
    · exact fun h p f => (h.2 p f).2 fun _ => hnone
  | some n =>
    rw [ofDocument?, ofYaml?_eq_some]
    constructor
    · rintro ⟨hn, htakes⟩
      have hparts (p : ConfigPart) := (ConfigPart.takes_iff hn).mp (htakes p)
      refine ⟨⟨?_, ?_⟩, fun p => (hparts p).2⟩
      · rintro _ ⟨⟩
        exact hn
      · rintro _ ⟨⟩ p
        exact (hparts p).1
    · rintro ⟨hformed, hholds⟩
      have hn := hformed.sections n rfl
      exact ⟨hn, fun p => (ConfigPart.takes_iff hn).mpr ⟨hformed.fields n rfl p, hholds p⟩⟩

theorem validate_iff :
    c.validate = .ok c ↔ ∀ (p : ConfigPart) (f : ConfigField p), f.Admits (f.get c) := by
  rw [validate_eq_ok]
  constructor
  · rintro ⟨-, h⟩ p f
    cases f <;> first | exact h | trivial
  · exact fun h => ⟨rfl, h _ .maxAttempts⟩

theorem exists_ofDocument? :
    (∃ c, ofDocument? d = some c ∧ c.validate = .ok c) ↔ Acceptable d := by
  simp only [ofDocument?_eq_some, validate_iff]
  constructor
  · rintro ⟨c, ⟨hformed, hholds⟩, hadmits⟩
    exact ⟨hformed, fun f v hv => ⟨f.get c, (hholds _ f).1 v hv, hadmits _ f⟩⟩
  · intro h
    have hvalue (p : ConfigPart) (f : ConfigField p) : ∃ x, f.HoldsIn d x ∧ f.Admits x := by
      by_cases hgiven : ∃ v, f.Given d v
      · obtain ⟨v, hv⟩ := hgiven
        obtain ⟨x, hx, hadmits⟩ := h.values f v hv
        refine ⟨x, ⟨fun v' hv' => ?_, fun hnone => (hnone v hv).elim⟩, hadmits⟩
        rwa [h.given_unique hv' hv]
      · have hnone := not_exists.mp hgiven
        refine ⟨f.get {}, ⟨fun v hv => (hnone v hv).elim, fun _ => rfl⟩, ?_⟩
        exact validate_iff.mp rfl p f
    -- The values are chosen field by field, and the configuration is put together from them.
    choose x hx using hvalue
    let c : EngineConfig :=
      { activation := ⟨x _ .maxAttempts, x _ .retryDelay⟩
        recovery := ⟨x _ .criticalRetry, x _ .setupCompletion, x _ .finalizationRetry⟩
        device := ⟨x _ .lenientClear⟩
        store := ⟨x _ .path⟩ }
    have hget (p : ConfigPart) (f : ConfigField p) : f.get c = x p f := by
      cases f <;> rfl
    refine ⟨c, ⟨h.toFormed, fun p f => ?_⟩, fun p f => ?_⟩
    · exact hget p f ▸ (hx p f).1
    · exact hget p f ▸ (hx p f).2

theorem ofDocument?_reordered {n' : Node} (h : n.Reordered n') :
    ofDocument? (some n) = ofDocument? (some n') := by
  -- One direction for any two such trees is enough: the order can be turned back.
  have hsome {n n' : Node} {c : EngineConfig} (h : n.Reordered n')
      (hc : ofDocument? (some n) = some c) : ofDocument? (some n') = some c := by
    rw [ofDocument?_eq_some] at hc ⊢
    obtain ⟨hformed, hholds⟩ := hc
    refine ⟨⟨?_, ?_⟩, fun p f => ?_⟩
    · rintro _ ⟨⟩
      exact h.section (hformed.sections n rfl)
    · rintro _ ⟨⟩ p s' hs'
      obtain ⟨s, hs, hss'⟩ := h.entry Node.Permuted.same hs'
      exact hss'.section (hformed.fields n rfl p s hs)
    · have hgiven (v : Node) : f.Given (some n) v ↔ f.Given (some n') v :=
        ⟨fun hv => hv.reordered h, fun hv => hv.reordered h.symm⟩
      simpa only [ConfigField.HoldsIn, hgiven] using hholds p f
  exact Option.ext fun c => ⟨hsome h, hsome h.symm⟩

theorem parse_of_blank {t : String} (h : Text.Blank t.toList) : parse t = .ok {} :=
  if_pos (Text.trim_eq_nil.mpr h)

theorem parse_of_not_blank {t : String} (h : ¬Text.Blank t.toList) :
    parse t = match (Node.parse t).bind ofDocument? with
      | some c => c.validate
      | none => .error .malformed :=
  if_neg (mt Text.trim_eq_nil.mp h)

theorem parse_eq_ok {t : String} (h : ¬Text.Blank t.toList) :
    parse t = .ok c ↔
      ∃ d, Node.parse t = some d ∧ ofDocument? d = some c ∧ c.validate = .ok c := by
  have hbind : (∃ d, Node.parse t = some d ∧ ofDocument? d = some c ∧ c.validate = .ok c) ↔
      (Node.parse t).bind ofDocument? = some c ∧ c.validate = .ok c := by
    rw [Option.bind_eq_some_iff]
    grind
  rw [parse_of_not_blank h, hbind]
  split
  · rename_i c' hc'
    rw [hc', Option.some.injEq]
    constructor
    · intro hvalid
      obtain ⟨rfl, -⟩ := validate_eq_ok.mp hvalid
      exact ⟨rfl, hvalid⟩
    · rintro ⟨rfl, hvalid⟩
      exact hvalid
  · rename_i hnone
    simp [hnone]

theorem validate_of_parse {t : String} (h : parse t = .ok c) : c.validate = .ok c := by
  by_cases hblank : Text.Blank t.toList
  · obtain rfl := Except.ok.inj ((parse_of_blank hblank).symm.trans h)
    rfl
  · obtain ⟨-, -, -, hvalid⟩ := (parse_eq_ok hblank).mp h
    exact hvalid

theorem validate_of_load {path : String} {content : Option Content}
    (h : load path content = .ok c) : c.validate = .ok c := by
  unfold load at h
  split at h
  · exact validate_of_parse h
  · cases h

def HoldsIn (c : EngineConfig) (d : Option Node) : Prop :=
  ∀ (p : ConfigPart) (f : ConfigField p), f.HoldsIn d (f.get c)

theorem ofDocument?_valid :
    ofDocument? d = some c ∧ c.validate = .ok c ↔ Acceptable d ∧ c.HoldsIn d := by
  constructor
  · rintro ⟨hc, hvalid⟩
    exact ⟨exists_ofDocument?.mp ⟨c, hc, hvalid⟩, (ofDocument?_eq_some.mp hc).2⟩
  · rintro ⟨hd, hholds⟩
    have hc := ofDocument?_eq_some.mpr ⟨hd.toFormed, hholds⟩
    obtain ⟨c', hc', hvalid⟩ := exists_ofDocument?.mpr hd
    obtain rfl := Option.some.inj (hc.symm.trans hc')
    exact ⟨hc, hvalid⟩

structure Loads : Prop where
  accepts : ∀ d : Option Node, (∃ c, ofDocument? d = some c ∧ c.validate = .ok c) ↔ Acceptable d
  result : ∀ (d : Option Node) (c : EngineConfig),
    ofDocument? d = some c ∧ c.validate = .ok c ↔ Acceptable d ∧ c.HoldsIn d
  reordered : ∀ n n' : Node, n.Reordered n' → ofDocument? (some n) = ofDocument? (some n')
  accepts_text : ∀ t : String, (∃ c, parse t = .ok c) ↔
    Text.Blank t.toList ∨ ∃ d, Node.parse t = some d ∧ Acceptable d
  result_blank : ∀ t : String, Text.Blank t.toList → parse t = .ok {}
  result_text : ∀ (t : String) (c : EngineConfig), ¬Text.Blank t.toList →
    (parse t = .ok c ↔ ∃ d, Node.parse t = some d ∧ Acceptable d ∧ c.HoldsIn d)
  reordered_text : ∀ (t t' : String) (n n' : Node), ¬Text.Blank t.toList →
    ¬Text.Blank t'.toList → Node.parse t = some (some n) → Node.parse t' = some (some n') →
    n.Reordered n' → parse t = parse t'
  valid : ∀ (t : String) (c : EngineConfig), parse t = .ok c → c.validate = .ok c
  valid_file : ∀ (path : String) (content : Option Content) (c : EngineConfig),
    load path content = .ok c → c.validate = .ok c

theorem loads : Loads where
  accepts := fun _ => exists_ofDocument?
  result := fun _ _ => ofDocument?_valid
  reordered := fun _ _ => ofDocument?_reordered
  accepts_text := fun t => by
    by_cases hblank : Text.Blank t.toList
    · simp [hblank, parse_of_blank hblank]
    · simp only [hblank, false_or, parse_eq_ok hblank, ← exists_ofDocument?]
      exact ⟨fun ⟨c, d, hd, hc⟩ => ⟨d, hd, c, hc⟩, fun ⟨d, hd, c, hc⟩ => ⟨c, d, hd, hc⟩⟩
  result_blank := fun _ => parse_of_blank
  result_text := fun t c hblank => by
    simp only [parse_eq_ok hblank, ofDocument?_valid]
  reordered_text := fun t t' n n' ht ht' hn hn' h => by
    rw [parse_of_not_blank ht, parse_of_not_blank ht', hn, hn',
      Option.bind_some, Option.bind_some, ofDocument?_reordered h]
  valid := fun _ _ => validate_of_parse
  valid_file := fun _ _ _ => validate_of_load

end EngineConfig

end

end DeviceLock
