import Telemetry.Config
import Telemetry.Proofs.Json

/-!
# Configurations read back

A configuration is told by the values of its settings (`Config.get_injective`). Giving a setting a value
changes that one and keeps the others (`Config.set?_get`), so that a run of settings, none of them twice, gives
every one of them its value and leaves the others at what they were (`Config.setAll?_get`). Thus it does not
matter in which order an object lists its members, nor whether it lists those that stand at their default
(`Config.parse_members`). What is read has either no key or one that is a key.
-/

namespace Telemetry

theorem DropletModel.ofName?_name (model : DropletModel) : ofName? model.name = some model := by
  cases model <;> rfl

theorem Setting.ofName?_name (setting : Setting) : ofName? setting.name = some setting := by
  cases setting <;> decide

namespace Config

/-! ## Settings and their values -/

/-- What is written of each setting is read back as it. -/
theorem byte?_toNat (byte : UInt8) : byte? (.integer byte.toNat) = some byte := by
  have below : (byte.toNat : Int) < 256 := by
    have := byte.toNat_lt
    omega
  rw [byte?, if_pos ⟨Int.natCast_nonneg _, below⟩, Int.toNat_natCast, UInt8.ofNat_toNat]

theorem text?_get (config : Config) : text? (config.get .key) = some config.key := by
  unfold get
  cases config.key <;> rfl

theorem model?_get (config : Config) : model? (config.get .model) = some config.model := by
  unfold get
  cases config.model with
  | none => rfl
  | some model => exact congrArg (Option.map some) model.ofName?_name

theorem allFinite_get (config : Config) (setting : Setting) : (config.get setting).AllFinite := by
  obtain ⟨key, options, nonce, positional, radioMetrics, model⟩ := config
  cases setting with
  | key =>
    cases key with
    | none => exact .null
    | some text => exact .string text
  | options => exact .integer _
  | nonce => exact .integer _
  | positional => exact .bool _
  | radioMetrics => exact .bool _
  | model =>
    cases model with
    | none => exact .null
    | some model => exact .string _

/-- Configurations with the same value of every setting are the same. -/
theorem get_injective {a b : Config} (same : ∀ setting, a.get setting = b.get setting) : a = b := by
  have key := congrArg text? (same .key)
  rw [text?_get, text?_get] at key
  have options := congrArg byte? (same .options)
  rw [get, get, byte?_toNat, byte?_toNat] at options
  have nonce := congrArg byte? (same .nonce)
  rw [get, get, byte?_toNat, byte?_toNat] at nonce
  have positional := congrArg bool? (same .positional)
  have radioMetrics := congrArg bool? (same .radioMetrics)
  have model := congrArg model? (same .model)
  rw [model?_get, model?_get] at model
  cases a
  cases b
  cases key
  cases options
  cases nonce
  cases positional
  cases radioMetrics
  cases model
  rfl

/-- Whatever value a setting is given, the others keep theirs. -/
theorem get_of_set? {config next : Config} {value : Json} {setting other : Setting}
    (set : config.set? value setting = some next) (different : other ≠ setting) :
    next.get other = config.get other := by
  cases setting <;> obtain ⟨given, -, rfl⟩ := Option.map_eq_some_iff.mp set <;> cases other <;>
    first | rfl | exact absurd rfl different

/-- A setting can be given the value that it has in a configuration. -/
theorem set?_get (config source : Config) (setting : Setting) :
    ∃ next, config.set? (source.get setting) setting = some next ∧
      next.get setting = source.get setting := by
  cases setting with
  | key => exact ⟨{ config with key := source.key }, by rw [set?, text?_get, Option.map_some], rfl⟩
  | options =>
    exact ⟨{ config with options := source.options }, by rw [set?, get, byte?_toNat, Option.map_some], rfl⟩
  | nonce => exact ⟨{ config with nonce := source.nonce }, by rw [set?, get, byte?_toNat, Option.map_some], rfl⟩
  | positional => exact ⟨{ config with positional := source.positional }, rfl, rfl⟩
  | radioMetrics => exact ⟨{ config with radioMetrics := source.radioMetrics }, rfl, rfl⟩
  | model => exact ⟨{ config with model := source.model }, by rw [set?, model?_get, Option.map_some], rfl⟩

/-- A run of settings gives each of them its value, and the others keep theirs. -/
theorem setAll?_get (source : Config) {written : List Setting} (config : Config) {given : List Setting}
    (nodup : written.Nodup) (new : ∀ setting ∈ written, setting ∉ given) :
    ∃ next, config.setAll? given (written.map fun setting => (setting, source.get setting)) = some next ∧
      (∀ setting ∈ written, next.get setting = source.get setting) ∧
      ∀ setting, setting ∉ written → next.get setting = config.get setting := by
  induction written generalizing config given with
  | nil => exact ⟨config, rfl, fun _ inside => absurd inside List.not_mem_nil, fun _ _ => rfl⟩
  | cons setting written ih =>
    obtain ⟨absent, nodup⟩ := List.nodup_cons.mp nodup
    obtain ⟨mid, set, here⟩ := config.set?_get source setting
    have still : ∀ other ∈ written, other ∉ setting :: given := by
      intro other inside twice
      rcases List.mem_cons.mp twice with rfl | before
      · exact absent inside
      · exact new other (List.mem_cons_of_mem _ inside) before
    obtain ⟨next, run, changed, kept⟩ := ih mid nodup still
    refine ⟨next, ?_, fun other inside => ?_, fun other outside => ?_⟩
    · rw [List.map_cons, setAll?, if_neg (new setting List.mem_cons_self), set]
      exact run
    · rcases List.mem_cons.mp inside with rfl | later
      · rw [kept other absent, here]
      · exact changed other later
    · obtain ⟨different, outside⟩ := not_or.mp (List.mem_cons.not.mp outside)
      rw [kept other outside, get_of_set? set different]

theorem named?_map (source : Config) (written : List Setting) :
    named? (written.map fun setting => (setting.name, source.get setting)) =
      some (written.map fun setting => (setting, source.get setting)) := by
  induction written with
  | nil => rfl
  | cons setting written ih =>
    rw [List.map_cons, named?, Setting.ofName?_name, ih]
    rfl

/-! ## Reading back -/

/-- The configuration as an object that lists these settings, in this order. -/
def members (config : Config) (written : List Setting) : Json :=
  .object (written.map fun setting => (setting.name, config.get setting))

/-- An object that lists the settings which differ from their defaults gives the configuration. -/
theorem ofJson?_members {config : Config} {written : List Setting} (nodup : written.Nodup)
    (rest : ∀ setting, setting ∉ written → config.get setting = default.get setting) :
    ofJson? (config.members written) = some config := by
  have fresh : ∀ setting ∈ written, setting ∉ ([] : List Setting) := fun _ _ => List.not_mem_nil
  obtain ⟨next, run, changed, kept⟩ := setAll?_get config default nodup fresh
  have same : next = config := by
    refine get_injective fun setting => ?_
    by_cases inside : setting ∈ written
    · exact changed setting inside
    · rw [kept setting inside, rest setting inside]
  rw [members, ofJson?, named?_map, Option.bind_some, run, same]

theorem allFinite_members (config : Config) (written : List Setting) : (config.members written).AllFinite := by
  refine .object fun member inside => ?_
  obtain ⟨setting, -, rfl⟩ := List.mem_map.mp inside
  exact config.allFinite_get setting

theorem envelopeKey_of_none {config : Config} (unset : config.key = none) :
    config.envelopeKey = .error .missingKey := by
  rw [envelopeKey, unset]

theorem envelopeKey_of_ok {config : Config} {text : String} {key : EnvelopeKey}
    (given : config.key = some text) (read : EnvelopeKey.parse text = .ok key) :
    config.envelopeKey = .ok key := by
  rw [envelopeKey, given]
  dsimp only
  rw [read]
  rfl

/-- An object that lists the settings which differ from their defaults is read as the configuration, if the key
of that, where there is one, is a key. -/
theorem parse_members {config : Config} {written : List Setting}
    (sound : ∀ text, config.key = some text → ∃ key, EnvelopeKey.parse text = .ok key)
    (nodup : written.Nodup)
    (rest : ∀ setting, setting ∉ written → config.get setting = default.get setting) :
    parse (config.members written).render = .ok config := by
  rw [parse, (config.allFinite_members written).parse?_render, Option.bind_some,
    ofJson?_members nodup rest]
  dsimp only
  cases given : config.key with
  | none => rw [envelopeKey_of_none given]
  | some text =>
    obtain ⟨key, read⟩ := sound text given
    rw [envelopeKey_of_ok given read]

/-- Whatever text a configuration was read from, the key of that is none or a key. -/
theorem exists_key_of_parse {config : Config} {text hex : String} (read : parse text = .ok config)
    (given : config.key = some hex) : ∃ key, EnvelopeKey.parse hex = .ok key := by
  unfold parse at read
  split at read
  · cases read
  · split at read
    · cases read
    · rename_i _ found _ refused
      cases read
      cases key : EnvelopeKey.parse hex with
      | ok value => exact ⟨value, rfl⟩
      | error error =>
        refine absurd ?_ (refused error)
        rw [envelopeKey, given]
        dsimp only
        rw [key]
        rfl

/-- **A written configuration is read back.** If its key, where it has one, is the text of a key, then so is the
object with all its settings, and so is any object that lists some of them in any order, as long as those
that it leaves out stand at their defaults. Conversely, of a configuration that has been read, whatever
the text was, the key is missing if and only if none is given, and a key that is given is found without an
error. -/
theorem parse_render (config : Config) :
    ((∀ text, config.key = some text → ∃ key, EnvelopeKey.parse text = .ok key) →
      parse config.toJson.render = .ok config ∧
      ∀ written : List Setting, written.Nodup →
        (∀ setting, setting ∉ written → config.get setting = default.get setting) →
        parse (config.members written).render = .ok config) ∧
    (∀ text, parse text = .ok config →
      (config.envelopeKey = .error .missingKey ↔ config.key = none) ∧
      (∀ hex, config.key = some hex →
        ∃ key, EnvelopeKey.parse hex = .ok key ∧ config.envelopeKey = .ok key) ∧
      ∀ error, config.envelopeKey ≠ .error (.invalidKey error)) := by
  refine ⟨fun sound => ⟨?_, fun written nodup rest => parse_members sound nodup rest⟩, fun text read => ?_⟩
  · exact parse_members sound (by decide) fun setting outside => absurd (by cases setting <;> decide) outside
  · cases given : config.key with
    | none =>
      have missing := envelopeKey_of_none given
      refine ⟨iff_of_true missing rfl, fun _ some => ?_, fun _ refused => ?_⟩
      · cases some
      · cases missing.symm.trans refused
    | some hex =>
      obtain ⟨key, sound⟩ := exists_key_of_parse read given
      have found := envelopeKey_of_ok given sound
      refine ⟨iff_of_false (fun missing => ?_) (by simp), fun _ same => ?_, fun _ refused => ?_⟩
      · cases found.symm.trans missing
      · cases same
        exact ⟨key, sound, found⟩
      · cases found.symm.trans refused

/-- A key with blanks and letters of both cases, in an object whose members stand in another order and which
leaves one of them out. -/
theorem parse_render_listed :
    let config : Config :=
      ⟨some "2b7E1516\t28aed2a6\u0085abf7158809cf4f3c\x0c", 3, 200, true, false, some .thl⟩
    (∃ key, EnvelopeKey.parse "2b7E1516\t28aed2a6\u0085abf7158809cf4f3c\x0c" = .ok key) ∧
      parse config.toJson.render = .ok config ∧
      parse (config.members [.model, .key, .positional, .nonce, .options]).render = .ok config ∧
      ∃ key, config.envelopeKey = .ok key := by
  intro config
  have sound : EnvelopeKey.parse "2b7E1516\t28aed2a6\u0085abf7158809cf4f3c\x0c" =
      .ok ⟨#v[0x2b, 0x7e, 0x15, 0x16, 0x28, 0xae, 0xd2, 0xa6, 0xab, 0xf7, 0x15, 0x88, 0x09, 0xcf, 0x4f, 0x3c]⟩ :=
    rfl
  obtain ⟨whole, listed⟩ := (parse_render config).1 (by
    intro text given
    cases given
    exact ⟨_, sound⟩)
  have written := listed [.model, .key, .positional, .nonce, .options] (by decide) (by
    intro setting outside
    cases setting <;> first | rfl | exact absurd (by decide) outside)
  obtain ⟨-, found, -⟩ := (parse_render config).2 _ whole
  obtain ⟨key, -, is⟩ := found _ rfl
  exact ⟨⟨_, sound⟩, whole, written, key, is⟩

end Config

end Telemetry
