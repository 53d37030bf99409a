import WitnessSearch.Proofs.Document.Config
import WitnessSearch.Proofs.Json.Grammar
import WitnessSearch.Proofs.Json.Members

/-! Configurations that are given in part. Each setting may be given or not, at the top and inside
the population, the selection method and the ranking, and what is not given has its default. How the
text is laid out, in which order the members come and what other members there are is of no
consequence. -/

namespace WitnessSearch

open Json Token

namespace Initialization

/-- A way to initialize is read from its name, or from an object whose only member has the name and
a null. -/
theorem asVariant?_of_isVariant {document : Json} {initialization : Initialization}
    (h : IsVariant name document initialization) : ofJson? document = some initialization :=
  h.asVariant? fun value => by cases value <;> decide

end Initialization

namespace PopulationConfig

/-- What is given of a population. -/
structure Settings where
  size : Option Nat := none
  maxGenerations : Option Nat := none
  initialization : Option Initialization := none

def Settings.applied (settings : Settings) : PopulationConfig :=
  let default : PopulationConfig := {}
  { size := settings.size.getD default.size
    maxGenerations := settings.maxGenerations.getD default.maxGenerations
    initialization := settings.initialization.getD default.initialization }

structure Settings.Shown (settings : Settings) (members : List (Option String × Json)) : Prop where
  keys : ∀ member ∈ members, member.1.isSome = true
  size : Gives members "size" IsCount settings.size
  maxGenerations : Gives members "max_generations" IsCount settings.maxGenerations
  initialization :
    Gives members "initialization" (IsVariant Initialization.name) settings.initialization

/-- The settings of a population are read from any object that shows them, and the missing ones have
their defaults. -/
theorem ofJson?_of_shown {document : Json} {settings : Settings}
    (h : IsObject Settings.Shown document settings) :
    ofJson? document = some settings.applied := by
  obtain ⟨members, rfl, h⟩ := h
  have hOnce : ∀ name ∈ ["size", "max_generations", "initialization"],
      (members.map Prod.fst).count (some name) ≤ 1 := by
    simp only [List.forall_mem_cons]
    exact ⟨h.size.count_le, h.maxGenerations.count_le, h.initialization.count_le, nofun⟩
  obtain ⟨fields, hFields, hLookup⟩ := Fields.exists_of?_object h.keys hOnce
  simp only [List.forall_mem_cons] at hLookup
  obtain ⟨hSize, hGenerations, hInitialization, -⟩ := hLookup
  have hSize := Fields.withDefault_of_gives id hSize h.size IsCount.asCount?
  have hGenerations := Fields.withDefault_of_gives id hGenerations h.maxGenerations IsCount.asCount?
  have hInitialization := Fields.withDefault_of_gives id hInitialization h.initialization
    Initialization.asVariant?_of_isVariant
  simp [ofJson?, hFields, hSize, hGenerations, hInitialization, Settings.applied]

end PopulationConfig

namespace RankingConfig

/-- What is given of a ranking. -/
structure Settings where
  preferenceSorting : Option Bool := none
  demoteArchived : Option Bool := none

def Settings.applied (settings : Settings) : RankingConfig :=
  let default : RankingConfig := {}
  { preferenceSorting := settings.preferenceSorting.getD default.preferenceSorting
    demoteArchived := settings.demoteArchived.getD default.demoteArchived }

structure Settings.Shown (settings : Settings) (members : List (Option String × Json)) : Prop where
  keys : ∀ member ∈ members, member.1.isSome = true
  preferenceSorting : Gives members "preference_sorting" IsFlag settings.preferenceSorting
  demoteArchived : Gives members "demote_archived" IsFlag settings.demoteArchived

/-- The settings of a ranking are read from any object that shows them, and the missing ones have
their defaults. -/
theorem ofJson?_of_shown {document : Json} {settings : Settings}
    (h : IsObject Settings.Shown document settings) :
    ofJson? document = some settings.applied := by
  obtain ⟨members, rfl, h⟩ := h
  have hOnce : ∀ name ∈ ["preference_sorting", "demote_archived"],
      (members.map Prod.fst).count (some name) ≤ 1 := by
    simp only [List.forall_mem_cons]
    exact ⟨h.preferenceSorting.count_le, h.demoteArchived.count_le, nofun⟩
  obtain ⟨fields, hFields, hLookup⟩ := Fields.exists_of?_object h.keys hOnce
  simp only [List.forall_mem_cons] at hLookup
  obtain ⟨hPreference, hDemote, -⟩ := hLookup
  have hPreference :=
    Fields.withDefault_of_gives id hPreference h.preferenceSorting IsFlag.asBool?
  have hDemote := Fields.withDefault_of_gives id hDemote h.demoteArchived IsFlag.asBool?
  simp [ofJson?, hFields, hPreference, hDemote, Settings.applied]

end RankingConfig

namespace SelectionMethod

/-- A selection method without what belongs to it. -/
inductive Kind where
  | tournament
  | rankBased
  | random

def Kind.name : Kind → String
  | .tournament => "Tournament"
  | .rankBased => "RankBased"
  | .random => "Random"

/-- What is given of a selection method. Only a tournament makes use of a size. -/
structure Settings where
  kind : Kind
  size : Option Nat := none

def Settings.applied (settings : Settings) : SelectionMethod :=
  match settings.kind with
  | .tournament => .tournament (settings.size.getD defaultTournamentSize)
  | .rankBased => .rankBased
  | .random => .random

/-- There are no other members, but the name of the method may come anywhere. -/
structure Settings.Shown (settings : Settings) (members : List (Option String × Json)) : Prop where
  keys : ∀ member ∈ members, member.1 = some "method" ∨ member.1 = some "size"
  kind : Gives members "method" (fun document kind => document = .ofText kind.name)
    (some settings.kind)
  size : Gives members "size" IsCount settings.size

/-- Names and counts can be held back until the method is known. -/
theorem canBeHeld_of_shown {members : List (Option String × Json)} {settings : Settings}
    (h : settings.Shown members) (depth : Nat) :
    (Json.object members).canBeHeld (depth + 1) = true := by
  rw [canBeHeld, List.all_eq_true]
  rintro ⟨key, document⟩ hMem
  rcases h.keys _ hMem with hKey | hKey
  · obtain rfl : key = some "method" := hKey
    obtain ⟨kind, rfl⟩ := h.kind.stands_of_mem hMem
    simp [ofText, canBeHeld]
  · obtain rfl : key = some "size" := hKey
    obtain ⟨size, digits, rfl, rfl, hLess⟩ := h.size.stands_of_mem hMem
    simpa [canBeHeld] using Numeral.isSome_toFloat?_of_digits hLess

/-- The settings of a selection method are read from the members beside its name, wherever the name
stands among them. -/
theorem ofParts?_of_shown {members : List (Option String × Json)} {settings : Settings}
    (h : settings.Shown members) :
    ofParts? settings.kind.name
        (.object (members.filter fun member => member.1 ≠ some "method")) =
      some settings.applied := by
  have hSize : Gives (members.filter fun member => member.1 ≠ some "method") "size" IsCount
      settings.size := h.size.filter fun _ => by simp
  have hKeys : ∀ member ∈ members.filter (fun member => member.1 ≠ some "method"),
      member.1.isSome = true := by
    intro member hMem
    rcases h.keys member (List.mem_of_mem_filter hMem) with hKey | hKey <;> rw [hKey] <;> rfl
  obtain ⟨fields, hFields, hLookup⟩ := Fields.exists_of?_object hKeys
    (List.forall_mem_singleton.mpr hSize.count_le)
  have hSize := Fields.withDefault_of_gives id (hLookup "size" List.mem_cons_self) hSize
    IsCount.asCount?
  unfold ofParts? Settings.applied
  cases settings.kind with
  | tournament =>
      have hName : Kind.tournament.name = "Tournament" := rfl
      rw [if_pos hName, hFields]
      simp [hSize]
  | rankBased => simp [Kind.name, ofParts?.unitMethod]
  | random => simp [Kind.name, ofParts?.unitMethod]

/-- A selection method is read from any object that shows it, as long as the object is not nested
too deeply. -/
theorem ofJsonWithin?_of_shown {depth : Nat} (hDepth : 0 < depth) {document : Json}
    {settings : Settings} (h : IsObject Settings.Shown document settings) :
    ofJsonWithin? depth document = some settings.applied := by
  obtain ⟨below, rfl⟩ := Nat.exists_eq_add_one.mpr hDepth
  obtain ⟨members, rfl, h⟩ := h
  obtain ⟨_, rfl, hMethod⟩ := h.kind.exists_filter_eq
  rw [ofJsonWithin?, if_pos (canBeHeld_of_shown h below)]
  split
  · rename_i hNamed
    cases hNamed.symm.trans hMethod
    exact ofParts?_of_shown h
  · rename_i hOther
    exact (hOther _ _ hMethod).elim

end SelectionMethod

namespace Config

/-- What is given of a configuration. The optional settings may be given as missing. -/
structure Settings where
  population : Option PopulationConfig.Settings := none
  crossoverRate : Option Float := none
  mutationRate : Option Float := none
  multicoverTarget : Option Nat := none
  selection : Option SelectionMethod.Settings := none
  biasedTournamentSize : Option Nat := none
  archiveFraction : Option Float := none
  ranking : Option RankingConfig.Settings := none
  timeBudgetSecs : Option (Option Float) := none
  randomSeed : Option (Option UInt64) := none

/-- The default configuration with the given settings in place of its own. -/
def Settings.applied (settings : Settings) : Config :=
  let default : Config := {}
  { population := (settings.population.map (·.applied)).getD default.population
    crossoverRate := settings.crossoverRate.getD default.crossoverRate
    mutationRate := settings.mutationRate.getD default.mutationRate
    multicoverTarget := settings.multicoverTarget.getD default.multicoverTarget
    selection := (settings.selection.map (·.applied)).getD default.selection
    biasedTournamentSize := settings.biasedTournamentSize.getD default.biasedTournamentSize
    archiveFraction := settings.archiveFraction.getD default.archiveFraction
    ranking := (settings.ranking.map (·.applied)).getD default.ranking
    timeBudgetSecs := settings.timeBudgetSecs.getD default.timeBudgetSecs
    randomSeed := settings.randomSeed.getD default.randomSeed }

/-- The members of an object give the settings, in any order and among any other members. -/
structure Settings.Shown (settings : Settings) (members : List (Option String × Json)) : Prop where
  keys : ∀ member ∈ members, member.1.isSome = true
  population : Gives members "population" (IsObject PopulationConfig.Settings.Shown)
    settings.population
  crossoverRate : Gives members "crossover_rate" IsDouble settings.crossoverRate
  mutationRate : Gives members "mutation_rate" IsDouble settings.mutationRate
  multicoverTarget : Gives members "multicover_target" IsCount settings.multicoverTarget
  selection : Gives members "selection" (IsObject SelectionMethod.Settings.Shown)
    settings.selection
  biasedTournamentSize : Gives members "biased_tournament_size" IsCount
    settings.biasedTournamentSize
  archiveFraction : Gives members "archive_fraction" IsDouble settings.archiveFraction
  ranking : Gives members "ranking" (IsObject RankingConfig.Settings.Shown) settings.ranking
  timeBudgetSecs : Gives members "time_budget_secs" (IsOptional IsDouble) settings.timeBudgetSecs
  randomSeed : Gives members "random_seed" (IsOptional IsWord) settings.randomSeed

/-- A configuration is read from any members that show its settings, in any order and with any
others in between. -/
theorem ofJson?_of_shown {members : List (Option String × Json)} {settings : Settings}
    (h : settings.Shown members) : ofJson? (.object members) = some settings.applied := by
  have hOnce : ∀ name ∈ fieldNames, (members.map Prod.fst).count (some name) ≤ 1 := by
    simp only [fieldNames, List.forall_mem_cons]
    exact ⟨h.population.count_le, h.crossoverRate.count_le, h.mutationRate.count_le,
      h.multicoverTarget.count_le, h.selection.count_le, h.biasedTournamentSize.count_le,
      h.archiveFraction.count_le, h.ranking.count_le, h.timeBudgetSecs.count_le,
      h.randomSeed.count_le, nofun⟩
  obtain ⟨fields, hFields, hLookup⟩ := Fields.exists_of?_object h.keys hOnce
  simp only [fieldNames, List.forall_mem_cons] at hLookup
  obtain ⟨hPopulation, hCrossover, hMutation, hTarget, hSelection, hBiased, hFraction, hRanking,
    hBudget, hSeed, -⟩ := hLookup
  have hPopulation := Fields.withDefault_of_gives _ hPopulation h.population
    PopulationConfig.ofJson?_of_shown
  have hCrossover := Fields.withDefault_of_gives id hCrossover h.crossoverRate IsDouble.asFloat?
  have hMutation := Fields.withDefault_of_gives id hMutation h.mutationRate IsDouble.asFloat?
  have hTarget := Fields.withDefault_of_gives id hTarget h.multicoverTarget IsCount.asCount?
  have hLimit : 0 < SelectionMethod.depthLimit - 1 := by decide
  have hSelection := Fields.withDefault_of_gives _ hSelection h.selection
    (SelectionMethod.ofJsonWithin?_of_shown hLimit)
  have hBiased := Fields.withDefault_of_gives id hBiased h.biasedTournamentSize IsCount.asCount?
  have hFraction := Fields.withDefault_of_gives id hFraction h.archiveFraction IsDouble.asFloat?
  have hRanking := Fields.withDefault_of_gives _ hRanking h.ranking RankingConfig.ofJson?_of_shown
  have hBudget := Fields.withDefault_of_gives id hBudget h.timeBudgetSecs
    fun hStands => hStands.asOptional? rfl fun hDouble => hDouble.asFloat?
  have hSeed := Fields.withDefault_of_gives id hSeed h.randomSeed
    fun hStands => hStands.asOptional? rfl fun hWord => hWord.asUInt64?
  simp [ofJson?, hFields, hPopulation, hCrossover, hMutation, hTarget, hSelection, hBiased,
    hFraction, hRanking, hBudget, hSeed, Settings.applied]

/-- A text that gives some of the settings holds the default configuration with these settings, and
it is checked like that configuration. -/
theorem parse_settings {text : String} {members : List (Option String × Json)}
    {settings : Settings} (hText : Written text.toList (.object members))
    (hShown : settings.Shown members) :
    ofText? text = some settings.applied ∧
      parse text = settings.applied.validate.map fun _ => settings.applied := by
  have hParsed := parse?_of_written hText
  have hRead := ofJson?_of_shown hShown
  exact ⟨(ofText?_of_parse? hParsed).trans hRead, parse_eq_map hParsed hRead⟩

/-- The size of a tournament may come before its name, and nobody asks for a note. -/
theorem parse_settings_named_last :
    let text :=
      r#"{"note": null,"selection": {"size": 4,"method": "Tournament"}}"#
    let settings : Settings := { selection := some { kind := .tournament, size := some 4 } }
    ∃ members, Written text.toList (.object members) ∧ settings.Shown members ∧
      ofText? text = some settings.applied ∧ parse text = .ok settings.applied := by
  intro text settings
  let size : MemberText := ⟨r#""size""#.toList, some "size", " 4".toList, .ofNat 4⟩
  let method : MemberText :=
    ⟨r#""method""#.toList, some "method", r#" "Tournament""#.toList, .ofText "Tournament"⟩
  let tournament : Json := .object [(some "size", .ofNat 4), (some "method", .ofText "Tournament")]
  have hTournament :
      Written r#"{"size": 4,"method": "Tournament"}"#.toList tournament := by
    refine .object [size, method] (List.forall_mem_nil _) ?_ ?_ <;>
      simp only [List.forall_mem_cons]
    · exact ⟨names_plain "size".toList (by decide), names_plain "method".toList (by decide), nofun⟩
    · exact ⟨(Written.number (Numeral.wellFormed_ofNat 4) (.inl rfl)).spaced,
        (Written.string (names_plain "Tournament".toList (by decide))).spaced, nofun⟩
  let note : MemberText := ⟨r#""note""#.toList, some "note", " null".toList, .null⟩
  let selection : MemberText :=
    ⟨r#""selection""#.toList, some "selection",
      r#" {"size": 4,"method": "Tournament"}"#.toList, tournament⟩
  have hText : Written text.toList
      (.object [(some "note", .null), (some "selection", tournament)]) := by
    simp only [text]
    refine .object [note, selection] (List.forall_mem_nil _) ?_ ?_ <;>
      simp only [List.forall_mem_cons]
    · exact ⟨names_plain "note".toList (by decide), names_plain "selection".toList (by decide),
        nofun⟩
    · exact ⟨Written.null.spaced, hTournament.spaced, nofun⟩
  have hFour : IsObject SelectionMethod.Settings.Shown tournament ⟨.tournament, some 4⟩ := by
    refine ⟨_, rfl, ?_⟩
    exact {
      keys := by decide
      kind := .other (by decide) (.own rfl nofun)
      size := .own (isCount_ofNat (by decide)) (by decide) }
  have hShown : settings.Shown [(some "note", .null), (some "selection", tournament)] := {
    keys := by simp
    population := .missing (by simp)
    crossoverRate := .missing (by simp)
    mutationRate := .missing (by simp)
    multicoverTarget := .missing (by simp)
    selection := .other (by simp) (.own hFour nofun)
    biasedTournamentSize := .missing (by simp)
    archiveFraction := .missing (by simp)
    ranking := .missing (by simp)
    timeBudgetSecs := .missing (by simp)
    randomSeed := .missing (by simp) }
  have hValid : settings.applied.validate = .ok () :=
    validate_eq_ok_iff.mpr { valid_default with contestants := by decide }
  obtain ⟨hRead, hParsed⟩ := parse_settings hText hShown
  rw [hValid] at hParsed
  exact ⟨_, hText, hShown, hRead, hParsed⟩

/-- A key that is no text is not passed over, though nobody asks for the member. -/
theorem parse_unpaired_key :
    let text := r#"{"\ud800": null}"#
    Written text.toList (.object [(none, .null)]) ∧ ({} : Config).validate = .ok () ∧
      parse text = .error .malformed := by
  intro text
  have hText : Written text.toList (.object [(none, .null)]) := by
    have hKey : Names r#""\ud800""#.toList none :=
      .intro (List.forall_mem_nil _) (List.forall_mem_nil _)
        (.unit (rfl : unit? 'd' '8' '0' '0' = some 0xd800) .nil)
    simp only [text]
    let member : MemberText := ⟨r#""\ud800""#.toList, none, " null".toList, .null⟩
    exact .object [member] (List.forall_mem_nil _) (List.forall_mem_singleton.mpr hKey)
      (List.forall_mem_singleton.mpr Written.null.spaced)
  have hRead : ofText? text = none := (ofText?_of_parse? (parse?_of_written hText)).trans rfl
  refine ⟨hText, validate_eq_ok_iff.mpr valid_default, ?_⟩
  rw [parse, hRead]
  rfl

end Config

end WitnessSearch
