import WitnessSearch.Config
import WitnessSearch.Proofs.Effects
import WitnessSearch.Proofs.Float.Values
import WitnessSearch.Proofs.Json.Numerals

/-! What the checks of a configuration ask for. They pass exactly on valid configurations, and all
doubles of a valid configuration are finite: three of them are bounded from both sides, and what is
infinite or not a number is no duration. -/

namespace WitnessSearch

namespace FloatRounding

theorem isFinite_of_le_of_le {low x high : Float} (hLow : low.isFinite = true)
    (hHigh : high.isFinite = true) (hLowX : low ≤ x) (hXHigh : x ≤ high) : x.isFinite = true := by
  rw [FloatOrder.le_iff_compare] at hLowX hXHigh
  change low.toModel.unpack.isFinite = true at hLow
  change high.toModel.unpack.isFinite = true at hHigh
  change x.toModel.unpack.isFinite = true
  cases hx : x.toModel.unpack with
  | zero => rfl
  | finite => rfl
  | notANumber =>
      rw [hx] at hXHigh
      cases hXHigh
  | infinity sign =>
      rw [hx] at hLowX hXHigh
      cases sign with
      | positive =>
          cases hParts : high.toModel.unpack <;> rw [hParts] at hHigh hXHigh <;> cases hHigh <;>
            cases hXHigh
      | negative =>
          cases hParts : low.toModel.unpack <;> rw [hParts] at hLow hLowX <;> cases hLow <;>
            cases hLowX

end FloatRounding

/-- What is a duration as a number of seconds is finite. -/
theorem Duration.isFinite_of_isSome_ofSeconds? {value : Float}
    (h : (ofSeconds? value).isSome = true) : value.isFinite = true := by
  rw [← Numeral.isSome_ofFloat?, Numeral.ofFloat?]
  rw [ofSeconds?] at h
  cases hParts : Binary64.ofFloat value with
  | finite => rfl
  | notANumber =>
      rw [hParts] at h
      cases h
  | infinite =>
      rw [hParts] at h
      cases h

namespace Config

/-- A configuration that a search can be made from. -/
structure Valid (config : Config) : Prop where
  size : 2 ≤ config.population.size
  target : config.multicoverTarget ≠ 0
  crossoverRate : 0.0 ≤ config.crossoverRate ∧ config.crossoverRate ≤ 1.0
  mutationRate : 0.0 ≤ config.mutationRate ∧ config.mutationRate ≤ 1.0
  archiveFraction : 0.0 < config.archiveFraction ∧ config.archiveFraction ≤ 1.0
  contestants : config.hasContestants = true
  timeBudget : ∀ value ∈ config.timeBudgetSecs, 0.0 < value ∧ (Duration.ofSeconds? value).isSome

/-- A rate passes exactly if it is between zero and one. What is not a number does not. -/
theorem checkRate_eq_ok_iff {name : String} {value : Float} :
    checkRate name value = .ok () ↔ 0.0 ≤ value ∧ value ≤ 1.0 := by
  unfold checkRate
  split <;> simp_all

/-- A time budget passes if there is none, or if it is positive and short enough to be a duration.
-/
theorem checkTimeBudget_eq_ok_iff {budget : Option Float} :
    checkTimeBudget budget = .ok () ↔
      ∀ value ∈ budget, 0.0 < value ∧ (Duration.ofSeconds? value).isSome := by
  cases budget with
  | none => simp [checkTimeBudget]
  | some value => by_cases h : 0.0 < value ∧ (Duration.ofSeconds? value).isSome <;>
      simp [checkTimeBudget, h]

/-- The checks pass exactly on valid configurations. The order of the checks only decides which
error is reported. -/
theorem validate_eq_ok_iff {config : Config} : config.validate = .ok () ↔ config.Valid := by
  constructor
  · intro h
    simp only [validate] at h
    split at h
    · cases h
    rename_i hSize
    split at h
    · cases h
    rename_i hTarget
    obtain ⟨_, hCrossover, h⟩ := exists_of_bind_eq_ok h
    obtain ⟨_, hMutation, h⟩ := exists_of_bind_eq_ok h
    split at h
    · cases h
    rename_i hFraction
    split at h
    · cases h
    rename_i hContestants
    exact {
      size := Nat.le_of_not_lt hSize
      target := hTarget
      crossoverRate := checkRate_eq_ok_iff.mp hCrossover
      mutationRate := checkRate_eq_ok_iff.mp hMutation
      archiveFraction := not_not.mp hFraction
      contestants := not_not.mp hContestants
      timeBudget := checkTimeBudget_eq_ok_iff.mp h }
  · intro h
    simp only [validate]
    rw [if_neg (Nat.not_lt.mpr h.size), if_neg h.target, checkRate_eq_ok_iff.mpr h.crossoverRate,
      checkRate_eq_ok_iff.mpr h.mutationRate]
    change (do
      if ¬(0.0 < config.archiveFraction ∧ config.archiveFraction ≤ 1.0) then
        throw (.invalidArchiveFraction config.archiveFraction)
      if ¬config.hasContestants then throw .invalidTournamentSize
      checkTimeBudget config.timeBudgetSecs : Except ConfigError Unit) = _
    rw [if_neg (not_not.mpr h.archiveFraction), if_neg (not_not.mpr h.contestants)]
    exact checkTimeBudget_eq_ok_iff.mpr h.timeBudget

/-- The default configuration is valid. -/
theorem valid_default : Valid {} where
  size := by decide
  target := by decide
  crossoverRate := by decide +kernel
  mutationRate := by decide +kernel
  archiveFraction := by decide +kernel
  contestants := by decide
  timeBudget := nofun

def doubles (config : Config) : List Float :=
  [config.crossoverRate, config.mutationRate, config.archiveFraction] ++
    config.timeBudgetSecs.toList

/-- No double of a valid configuration is infinite or not a number. -/
theorem Valid.isFinite {config : Config} (h : config.Valid) :
    ∀ value ∈ config.doubles, value.isFinite = true := by
  have hUnit : ∀ {value : Float}, 0.0 ≤ value ∧ value ≤ 1.0 → value.isFinite = true :=
    fun hValue => FloatRounding.isFinite_of_le_of_le FloatRounding.hasValue_zero.isFinite
      FloatRounding.hasValue_one.isFinite hValue.1 hValue.2
  have hFraction : 0.0 ≤ config.archiveFraction :=
    FloatOrder.le_iff_lt_or_beq.mpr (.inl h.archiveFraction.1)
  intro value hMem
  simp only [doubles, List.cons_append, List.nil_append, List.mem_cons, Option.mem_toList] at hMem
  rcases hMem with rfl | rfl | rfl | hBudget
  · exact hUnit h.crossoverRate
  · exact hUnit h.mutationRate
  · exact hUnit ⟨hFraction, h.archiveFraction.2⟩
  · exact Duration.isFinite_of_isSome_ofSeconds? (h.timeBudget value hBudget).2

end Config

end WitnessSearch
