import WitnessSearch.Document.Config
import WitnessSearch.Proofs.Config
import WitnessSearch.Proofs.Float.Arithmetic
import WitnessSearch.Proofs.Json.Decoding

/-! What is written of a configuration is read as the configuration. The members of its documents
are read one by one. The selection method is held back until its name is known, so its document also
has to be one that can be held: a count has a double, as rounding does not make it infinite. -/

namespace WitnessSearch

open Json FloatRounding

namespace Numeral

theorem le_ofDigitChars (digits : List Char) (value : Nat) :
    value ≤ Nat.ofDigitChars 10 digits value := by
  induction digits generalizing value with
  | nil => exact le_rfl
  | cons digit rest ih =>
      rw [Nat.ofDigitChars_cons]
      exact le_trans (by omega) (ih _)

/-- All digits are read when their value fits. -/
theorem readDigits_eq {digits : List Char} {value : Nat}
    (h : Nat.ofDigitChars 10 digits value < UInt64.size) :
    readDigits value digits = (Nat.ofDigitChars 10 digits value, []) := by
  induction digits generalizing value with
  | nil => rfl
  | cons digit rest ih =>
      have hNext : Nat.ofDigitChars 10 [digit] value < UInt64.size := by
        refine lt_of_le_of_lt ?_ h
        rw [Nat.ofDigitChars_cons]
        exact le_ofDigitChars rest _
      rw [readDigits]
      simp only [if_pos hNext]
      exact ih h

/-- A count has a double. The double of the word and its product with one both stay below the
largest power of two, so neither is infinite. -/
theorem isSome_toFloat?_of_digits {digits : List Char} (h : digitsValue digits < UInt64.size) :
    (⟨false, digits, [], none⟩ : Numeral).toFloat?.isSome = true := by
  have hDigits : readDigits 0 digits = (digitsValue digits, []) := readDigits_eq h
  have hOne : HasValue (powerOfTen 0) 1 := by
    have hPower : powerOfTen 0 = 1.0 := by decide
    exact hPower ▸ hasValue_one
  have hWord := toFloat_approximates (UInt64.ofNat (digitsValue digits))
  rw [UInt64.toNat_ofNat_of_lt' h] at hWord
  have hBound : (digitsValue digits : ℚ) ≤ 2 ^ 64 := by exact_mod_cast h.le
  have hLimit := representable_two_pow (by decide : 64 ≤ 971)
  obtain ⟨v, hValue, hUpper, -⟩ := hWord.exists_value hLimit hBound
  have hProduct := mul_approximates hValue hOne
  rw [mul_one] at hProduct
  obtain ⟨w, hScaled, -⟩ := hProduct.exists_value hLimit hUpper
  have hScale : scale (UInt64.ofNat (digitsValue digits)).toFloat 0 =
      some ((UInt64.ofNat (digitsValue digits)).toFloat * powerOfTen 0) := by
    rw [scale, if_pos le_rfl, if_pos (by decide)]
    exact if_neg (by simp [hScaled.isInf])
  simp [toFloat?, hDigits, readDigits, writtenExponent, hScale]

/-- A word written in decimal has a finite double, so a count may stand where a double is wanted. -/
theorem isSome_toFloat?_ofNat {value : Nat} (h : value < UInt64.size) :
    (Numeral.ofNat value).toFloat?.isSome = true :=
  isSome_toFloat?_of_digits (by simpa [digitsValue] using h)

end Numeral

namespace Initialization

theorem readable_toJson (initialization : Initialization) : initialization.toJson.Readable :=
  readable_ofText _

/-- A way to initialize is read back from its name. -/
theorem ofJson?_toJson (initialization : Initialization) :
    ofJson? initialization.toJson = some initialization := by
  change ofName? initialization.name = _
  cases initialization <;> decide

end Initialization

namespace PopulationConfig

theorem readable_toJson (config : PopulationConfig) : config.toJson.Readable :=
  readable_ofMembers (by simp [readable_ofNat, Initialization.readable_toJson])

/-- The settings of a population are read back if its counts are words. -/
theorem ofJson?_toJson {config : PopulationConfig} (hSize : config.size < UInt64.size)
    (hGenerations : config.maxGenerations < UInt64.size) :
    ofJson? config.toJson = some config := by
  obtain ⟨fields, hFields, hGiven⟩ := Fields.exists_withDefault
    (by decide : ["size", "max_generations", "initialization"].Nodup)
    (rfl : config.toJson = .ofMembers _) rfl
  simp only [List.forall_mem_cons] at hGiven
  simp [ofJson?, hFields, hGiven, asCount?_ofNat hSize, asCount?_ofNat hGenerations,
    Initialization.ofJson?_toJson]

end PopulationConfig

namespace SelectionMethod

def counts : SelectionMethod → List Nat
  | .tournament size => [size]
  | .rankBased | .random => []

theorem readable_toJson (method : SelectionMethod) : method.toJson.Readable := by
  cases method <;> exact readable_ofMembers (by simp [readable_ofText, readable_ofNat])

/-- The document of a method fits below one container that is held as well. -/
theorem canBeHeld_toJson {method : SelectionMethod}
    (h : ∀ count ∈ method.counts, count < UInt64.size) (depth : Nat) :
    method.toJson.canBeHeld (depth + 1) = true := by
  cases method with
  | tournament size =>
      have hSize := Numeral.isSome_toFloat?_ofNat (h size List.mem_cons_self)
      simpa [toJson, ofMembers, canBeHeld, ofText, Json.ofNat] using hSize
  | rankBased => simp [toJson, ofMembers, canBeHeld, ofText]
  | random => simp [toJson, ofMembers, canBeHeld, ofText]

/-- A selection method is read back from its document, which may stand inside of other containers.
-/
theorem ofJsonWithin?_toJson {method : SelectionMethod}
    (h : ∀ count ∈ method.counts, count < UInt64.size) (depth : Nat) :
    ofJsonWithin? (depth + 1) method.toJson = some method := by
  have hHeld := canBeHeld_toJson h depth
  cases method with
  | tournament size =>
      have hRest : Json.object [(some "size", .ofNat size)] = .ofMembers [("size", .ofNat size)] :=
        rfl
      obtain ⟨fields, hFields, hGiven⟩ :=
        Fields.exists_withDefault (by decide : ["size"].Nodup) hRest rfl
      have hSize := asCount?_ofNat (h size List.mem_cons_self)
      simp only [List.forall_mem_cons] at hGiven
      simpa [ofJsonWithin?, toJson, ofMembers, ofText, ofParts?, hFields, hGiven, hSize] using hHeld
  | rankBased =>
      simpa [ofJsonWithin?, toJson, ofMembers, ofText, ofParts?, ofParts?.unitMethod] using hHeld
  | random =>
      simpa [ofJsonWithin?, toJson, ofMembers, ofText, ofParts?, ofParts?.unitMethod] using hHeld

end SelectionMethod

namespace RankingConfig

theorem readable_toJson (config : RankingConfig) : config.toJson.Readable :=
  readable_ofMembers (by simp [Readable.bool])

/-- The settings of a ranking are read back from their document. -/
theorem ofJson?_toJson (config : RankingConfig) : ofJson? config.toJson = some config := by
  obtain ⟨fields, hFields, hGiven⟩ := Fields.exists_withDefault
    (by decide : ["preference_sorting", "demote_archived"].Nodup)
    (rfl : config.toJson = .ofMembers _) rfl
  simp only [List.forall_mem_cons] at hGiven
  simp [ofJson?, hFields, hGiven]

end RankingConfig

namespace Config

/-- All counts of a configuration, which are stored as words. The seed is a word by its type. -/
def counts (config : Config) : List Nat :=
  [config.population.size, config.population.maxGenerations, config.multicoverTarget,
    config.biasedTournamentSize] ++ config.selection.counts

theorem readable_toJson (config : Config) : config.toJson.Readable := by
  have hSeed :
      (Json.ofOption (fun seed : UInt64 => .ofNat seed.toNat) config.randomSeed).Readable := by
    cases config.randomSeed with
    | none => exact .null
    | some seed => exact readable_ofNat _
  have hBudget : (Json.ofOption .ofFloat config.timeBudgetSecs).Readable := by
    cases config.timeBudgetSecs with
    | none => exact .null
    | some seconds => exact readable_ofFloat _
  refine readable_ofMembers ?_
  simp [PopulationConfig.readable_toJson, readable_ofFloat, readable_ofNat,
    SelectionMethod.readable_toJson, RankingConfig.readable_toJson, hSeed, hBudget]

/-- Every field is read back, whether the configuration is valid or not. -/
theorem ofJson?_toJson {config : Config} (hCounts : ∀ count ∈ config.counts, count < UInt64.size)
    (hDoubles : ∀ value ∈ config.doubles, Numeral.Keeps value) :
    ofJson? config.toJson = some config := by
  obtain ⟨fields, hFields, hGiven⟩ := Fields.exists_withDefault (by decide : fieldNames.Nodup)
    (rfl : config.toJson = .ofMembers _) rfl
  simp only [List.forall_mem_cons] at hGiven
  simp only [counts, List.cons_append, List.nil_append, List.forall_mem_cons] at hCounts
  simp only [doubles, List.cons_append, List.nil_append, List.forall_mem_cons,
    Option.mem_toList] at hDoubles
  obtain ⟨hSize, hGenerations, hTarget, hTournament, hSelection⟩ := hCounts
  obtain ⟨hCrossover, hMutation, hFraction, hSeconds⟩ := hDoubles
  have hBudget : (Json.ofOption .ofFloat config.timeBudgetSecs).asOptional? Json.asFloat? =
      some config.timeBudgetSecs :=
    asOptional?_ofOption rfl fun seconds h => (asFloat?_ofFloat seconds).trans (hSeconds seconds h)
  have hSeed : (Json.ofOption (fun seed : UInt64 => .ofNat seed.toNat)
      config.randomSeed).asOptional? Json.asUInt64? = some config.randomSeed :=
    asOptional?_ofOption rfl fun seed _ => asUInt64?_ofNat seed
  have hFloat : ∀ {value : Float}, Numeral.Keeps value →
      (Json.ofFloat value).asFloat? = some value :=
    fun hKept => (asFloat?_ofFloat _).trans hKept
  simp [ofJson?, hFields, hGiven, PopulationConfig.ofJson?_toJson hSize hGenerations,
    hFloat hCrossover, hFloat hMutation, hFloat hFraction, asCount?_ofNat hTarget,
    asCount?_ofNat hTournament, SelectionMethod.depthLimit,
    SelectionMethod.ofJsonWithin?_toJson hSelection, RankingConfig.ofJson?_toJson, hBudget, hSeed]

/-- A text that holds a document holds the configuration of the document, if there is one. -/
theorem ofText?_of_parse? {document : Json} {text : String}
    (hText : Json.parse? text = some document) : ofText? text = ofJson? document := by
  rw [ofText?, hText, Option.bind_eq_bind, Option.bind_some]

/-- A text with the document of a configuration is checked like the configuration. -/
theorem parse_eq_map {config : Config} {document : Json} {text : String}
    (hText : Json.parse? text = some document) (hRead : ofJson? document = some config) :
    parse text = config.validate.map fun _ => config := by
  simp only [parse, (ofText?_of_parse? hText).trans hRead]
  cases config.validate <;> rfl

/-- A valid configuration is written and read again. Whatever its sizes and its seed, its selection
method, its way to initialize and its optional fields, either form of its document holds the
configuration itself, which passes its checks once more. That a finite double is read as it is
written is asked for its own doubles only. -/
theorem parse_written {config : Config} (hValid : config.validate = .ok ())
    (hCounts : ∀ count ∈ config.counts, count < UInt64.size)
    (hKept : ∀ value ∈ config.doubles, value.isFinite = true → Numeral.Keeps value) :
    parse config.toJson.compact = .ok config ∧ parse config.toJson.pretty = .ok config := by
  have hFinite := (validate_eq_ok_iff.mp hValid).isFinite
  have hRead : ofJson? config.toJson = some config :=
    ofJson?_toJson hCounts fun value hMem => hKept value hMem (hFinite value hMem)
  constructor
  · rw [parse_eq_map (parse?_compact config.readable_toJson) hRead, hValid]
    rfl
  · rw [parse_eq_map (parse?_pretty config.readable_toJson) hRead, hValid]
    rfl

/-- A configuration with the largest counts and seed, a rate of negative zero, a rate without a
short binary form and a time budget of less than a second is written and read again. -/
theorem parse_written_extreme :
    let config : Config := {
      population := ⟨18446744073709551615, 18446744073709551615, .uniform⟩
      crossoverRate := -0.0
      mutationRate := 0.1
      multicoverTarget := 18446744073709551615
      selection := .tournament 18446744073709551615
      biasedTournamentSize := 18446744073709551615
      archiveFraction := 1e-7
      ranking := ⟨false, true⟩
      timeBudgetSecs := some 0.25
      randomSeed := some 18446744073709551615 }
    config.validate = .ok () ∧ (∀ count ∈ config.counts, count < UInt64.size) ∧
      (∀ value ∈ config.doubles, Numeral.Keeps value) ∧
      parse config.toJson.compact = .ok config ∧ parse config.toJson.pretty = .ok config := by
  intro config
  have hValid : config.validate = .ok () := validate_eq_ok_iff.mpr {
    size := by decide
    target := by decide
    crossoverRate := by decide +kernel
    mutationRate := by decide +kernel
    archiveFraction := by decide +kernel
    contestants := by decide
    timeBudget := by decide +kernel }
  have hCounts : ∀ count ∈ config.counts, count < UInt64.size := by decide
  have hKept : ∀ value ∈ config.doubles, Numeral.Keeps value := by decide +kernel
  exact ⟨hValid, hCounts, hKept, parse_written hValid hCounts fun value hMem _ => hKept value hMem⟩

end Config

end WitnessSearch
