import WitnessSearch.Document.Archive
import WitnessSearch.Proofs.Archive.Offers
import WitnessSearch.Proofs.Json.Decoding

/-! What is saved of an archive is loaded again. A document of a record is taken apart field by
field, and a list element by element, so each part is read back by itself. The only part that may
fail is a component of an observation: what is not finite is written as a null, which is no double,
and then nothing around it can be read. -/

namespace WitnessSearch

open Json

/-- The text of a file is the text that was written to it. -/
theorem FileContent.text_toUTF8 (text : String) : FileContent.text (.ok text.toUTF8) = .ok text := by
  have hBytes : String.fromUTF8? text.toUTF8 = some text := dif_pos text.isValidUTF8
  simp only [FileContent.text, bind, Except.bind, hBytes]
  rfl

namespace Location

theorem readable_toJson (location : Location) : location.toJson.Readable :=
  readable_ofMembers (by simp [readable_ofText, readable_ofNat])

/-- A location is read back from its document. -/
theorem ofJson?_toJson (location : Location) : ofJson? location.toJson = some location := by
  obtain ⟨fields, hFields, hRequired⟩ := Fields.exists_of?
    (by decide : ["unit", "function", "line"].Nodup) (rfl : location.toJson = .ofMembers _) rfl
  simp only [List.forall_mem_cons] at hRequired
  simp [ofJson?, hFields, hRequired, asUInt32?_ofNat]

end Location

namespace Goal

theorem readable_toJson (goal : Goal) : goal.toJson.Readable :=
  readable_ofMembers (by simp [readable_ofText, goal.location.readable_toJson])

/-- A goal is read back from its document. -/
theorem ofJson?_toJson (goal : Goal) : ofJson? goal.toJson = some goal := by
  obtain ⟨fields, hFields, hRequired⟩ := Fields.exists_of?
    (by decide : ["id", "location"].Nodup) (rfl : goal.toJson = .ofMembers _) rfl
  simp only [List.forall_mem_cons] at hRequired
  simp [ofJson?, hFields, hRequired, Location.ofJson?_toJson]

end Goal

namespace Observation

theorem readable_toJson (observation : Observation) : observation.toJson.Readable :=
  readable_ofList readable_ofFloat _

def Kept (observation : Observation) : Prop :=
  ∀ value ∈ observation.values, Numeral.Keeps value

def Lost (observation : Observation) : Prop :=
  ∃ value ∈ observation.values, value.isFinite = false

/-- An observation is read back if each of its components is. -/
theorem ofJson?_toJson {observation : Observation} (h : observation.Kept) :
    ofJson? observation.toJson = some observation := by
  have hValues : observation.toJson.asList? Json.asFloat? = some observation.values :=
    asList?_ofList fun value hMem => (asFloat?_ofFloat value).trans (h value hMem)
  rw [ofJson?, hValues]
  rfl

/-- An observation with a component that is written as a null is not read back. -/
theorem ofJson?_toJson_of_lost {observation : Observation} (h : observation.Lost) :
    ofJson? observation.toJson = none := by
  obtain ⟨value, hMem, hValue⟩ := h
  have hValues : observation.toJson.asList? Json.asFloat? = none :=
    asList?_ofList_eq_none hMem (asFloat?_of_not_finite hValue)
  rw [ofJson?, hValues]
  rfl

end Observation

namespace WitnessRecord

variable {witness : WitnessRecord}

theorem readable_toJson (witness : WitnessRecord) : witness.toJson.Readable :=
  readable_ofMembers
    (by simp [readable_ofList readable_ofText, Observation.readable_toJson, readable_ofNat])

/-- A witness is read back if its observation is and its generation is a word. -/
theorem ofJson?_toJson (hObservation : witness.observation.Kept)
    (hGeneration : witness.generation < UInt64.size) :
    ofJson? witness.toJson = some witness := by
  obtain ⟨fields, hFields, hRequired⟩ := Fields.exists_of?
    (by decide : ["code", "observation", "generation"].Nodup)
    (rfl : witness.toJson = .ofMembers _) rfl
  simp only [List.forall_mem_cons] at hRequired
  have hCode : (Json.ofList .ofText witness.code).asList? Json.asText? = some witness.code :=
    asList?_ofList fun text _ => asText?_ofText text
  simp [ofJson?, hFields, hRequired, hCode, Observation.ofJson?_toJson hObservation,
    asCount?_ofNat hGeneration]

theorem ofJson?_toJson_of_lost (h : witness.observation.Lost) :
    ofJson? witness.toJson = none := by
  obtain ⟨fields, hFields, hRequired⟩ := Fields.exists_of?
    (by decide : ["code", "observation", "generation"].Nodup)
    (rfl : witness.toJson = .ofMembers _) rfl
  simp only [List.forall_mem_cons] at hRequired
  simp [ofJson?, hFields, hRequired, Observation.ofJson?_toJson_of_lost h]

end WitnessRecord

namespace GoalRecord

variable {record : GoalRecord}

theorem readable_toJson (record : GoalRecord) : record.toJson.Readable :=
  readable_ofMembers (by
    simp [Goal.readable_toJson, Readable.bool, readable_ofList WitnessRecord.readable_toJson])

/-- The witnesses of a goal are read back one by one. -/
theorem ofJson?_toJson
    (h : ∀ witness ∈ record.witnesses, WitnessRecord.ofJson? witness.toJson = some witness) :
    ofJson? record.toJson = some record := by
  obtain ⟨fields, hFields, hRequired⟩ := Fields.exists_of?
    (by decide : ["goal", "covered", "witnesses"].Nodup) (rfl : record.toJson = .ofMembers _) rfl
  simp only [List.forall_mem_cons] at hRequired
  simp [ofJson?, hFields, hRequired, Goal.ofJson?_toJson, asList?_ofList h]

/-- One witness that is not read back spoils the record of its goal. -/
theorem ofJson?_toJson_eq_none {witness : WitnessRecord} (hMem : witness ∈ record.witnesses)
    (h : WitnessRecord.ofJson? witness.toJson = none) : ofJson? record.toJson = none := by
  obtain ⟨fields, hFields, hRequired⟩ := Fields.exists_of?
    (by decide : ["goal", "covered", "witnesses"].Nodup) (rfl : record.toJson = .ofMembers _) rfl
  simp only [List.forall_mem_cons] at hRequired
  simp [ofJson?, hFields, hRequired, asList?_ofList_eq_none hMem h]

end GoalRecord

namespace ArchiveRecord

variable {record : ArchiveRecord}

theorem readable_toJson (record : ArchiveRecord) : record.toJson.Readable :=
  readable_ofMembers (by simp [readable_ofNat, readable_ofList GoalRecord.readable_toJson])

def observations (record : ArchiveRecord) : List Observation :=
  record.goals.flatMap fun goal => goal.witnesses.map (·.observation)

/-- The record of an archive is read back if all its observations are and all its numbers are words.
-/
theorem ofJson?_toJson (hTarget : record.target < UInt64.size)
    (hGenerations : ∀ goal ∈ record.goals, ∀ witness ∈ goal.witnesses,
      witness.generation < UInt64.size)
    (hObservations : ∀ goal ∈ record.goals, ∀ witness ∈ goal.witnesses,
      witness.observation.Kept) :
    ofJson? record.toJson = some record := by
  obtain ⟨fields, hFields, hRequired⟩ := Fields.exists_of?
    (by decide : ["target", "goals"].Nodup) (rfl : record.toJson = .ofMembers _) rfl
  simp only [List.forall_mem_cons] at hRequired
  have hGoals : (Json.ofList GoalRecord.toJson record.goals).asList? GoalRecord.ofJson? =
      some record.goals :=
    asList?_ofList fun goal hGoal => GoalRecord.ofJson?_toJson fun witness hMem =>
      WitnessRecord.ofJson?_toJson (hObservations goal hGoal witness hMem)
        (hGenerations goal hGoal witness hMem)
  simp [ofJson?, hFields, hRequired, asCount?_ofNat hTarget, hGoals]

/-- One lost observation spoils the record of the whole archive. -/
theorem ofJson?_toJson_of_lost {goal : GoalRecord} (hGoal : goal ∈ record.goals)
    {witness : WitnessRecord} (hMem : witness ∈ goal.witnesses) (h : witness.observation.Lost) :
    ofJson? record.toJson = none := by
  obtain ⟨fields, hFields, hRequired⟩ := Fields.exists_of?
    (by decide : ["target", "goals"].Nodup) (rfl : record.toJson = .ofMembers _) rfl
  simp only [List.forall_mem_cons] at hRequired
  have hGoals : (Json.ofList GoalRecord.toJson record.goals).asList? GoalRecord.ofJson? = none :=
    asList?_ofList_eq_none hGoal
      (GoalRecord.ofJson?_toJson_eq_none hMem (WitnessRecord.ofJson?_toJson_of_lost h))
  simp [ofJson?, hFields, hRequired, hGoals]

/-- A file with the text of a record is loaded as what the document of the record stands for. -/
theorem load_text (record : ArchiveRecord) :
    load (.ok record.text.toUTF8) = (ofJson? record.toJson).elim (.error .malformed) .ok := by
  have hRecord : ofText? record.text = ofJson? record.toJson := by
    rw [ofText?, text, parse?_pretty record.readable_toJson, Option.bind_eq_bind, Option.bind_some]
  rw [load, FileContent.text_toUTF8]
  simp only [hRecord]
  cases ofJson? record.toJson <;> rfl

end ArchiveRecord

theorem Offer.mem_of_mem_distinct {τ : Type} {offers : List (Offer τ)} {offer : Offer τ}
    (h : offer ∈ Offer.distinct offers) : offer ∈ offers := by
  induction offers using List.reverseRecOn with
  | nil => exact h
  | append_singleton offers last ih =>
      rw [Offer.distinct_append_singleton, Offer.keep] at h
      split at h
      · exact List.mem_append_left _ (ih h)
      · rcases List.mem_append.mp h with hEarlier | hLast
        · exact List.mem_append_left _ (ih hEarlier)
        · exact List.mem_append_right _ hLast

/-- An offer to a goal is one of the requests. -/
theorem Request.mem_offersTo {τ : Type} {requests : List (Request τ)} {goal : Goal}
    {offer : Offer τ} (h : offer ∈ Request.offersTo goal requests) :
    .offer goal offer ∈ requests := by
  obtain ⟨request, hMem, hOffer⟩ := List.mem_filterMap.mp h
  cases request with
  | register other => cases hOffer
  | offer other made =>
      obtain ⟨hGoal, hMade⟩ := Option.ite_none_right_eq_some.mp hOffer
      cases hMade
      exact hGoal ▸ hMem

namespace Archive

variable {τ : Type}

/-- The witnesses that are saved of a goal are its witnesses in the archive. -/
theorem exists_of_mem_record [HasCode τ] {archive : Archive τ} {goal : GoalRecord}
    (hGoal : goal ∈ archive.record.goals) {saved : WitnessRecord} (hMem : saved ∈ goal.witnesses) :
    ∃ witness ∈ archive.allWitnesses,
      saved.observation = witness.observation ∧ saved.generation = witness.generation := by
  obtain ⟨⟨key, held⟩, hEntry, rfl⟩ := List.mem_map.mp hGoal
  obtain ⟨witness, hWitness, rfl⟩ := List.mem_map.mp hMem
  exact ⟨witness, List.mem_flatMap.mpr ⟨_, hEntry, hWitness⟩, rfl, rfl⟩

/-- Every witness is saved. -/
theorem exists_mem_record [HasCode τ] {archive : Archive τ} {witness : Witness τ}
    (hMem : witness ∈ archive.allWitnesses) :
    ∃ goal ∈ archive.record.goals, ∃ saved ∈ goal.witnesses,
      saved.observation = witness.observation := by
  obtain ⟨entry, hEntry, hWitness⟩ := List.mem_flatMap.mp hMem
  exact ⟨_, List.mem_map_of_mem hEntry, _, List.mem_map_of_mem hWitness, rfl⟩

section Requests

variable [HasCode τ]

theorem exists_offer_of_mem_allWitnesses {target : Nat} {requests : List (Request τ)}
    {witness : Witness τ}
    (hMem : witness ∈ ((⟨target, []⟩ : Archive τ).serveAll requests).allWitnesses) :
    ∃ goal offer, .offer goal offer ∈ requests ∧ offer.witness = witness := by
  obtain ⟨goal, hHeld⟩ :=
    exists_of_mem_allWitnesses (ascending_serveAll (ascending_goals_empty target) requests) hMem
  rw [witnesses_eq_take_distinct] at hHeld
  obtain ⟨offer, hOffer, rfl⟩ := List.mem_map.mp hHeld
  have hMade := Offer.mem_of_mem_distinct (List.mem_of_mem_take hOffer)
  exact ⟨goal, offer, Request.mem_offersTo hMade, rfl⟩

end Requests

def components (archive : Archive τ) : List Float :=
  archive.allWitnesses.flatMap (·.observation.values)

variable [HasCode τ]

/-- An archive is saved and loaded. Whatever goals were registered and whatever was offered, with
any texts in goals and codes, the file that is written is loaded as what the archive tells of itself
when all components of the observations it holds are finite; and if one of them is not, the file is
no saved archive. That a finite double is read as it is written is asked for the components only. -/
theorem load_record {target : Nat} (hTarget : 0 < target) (hWord : target < UInt64.size) :
    ∃ fresh : Archive τ, Archive.new target = .ok fresh ∧
      ∀ requests : List (Request τ),
        (∀ goal offer, .offer goal offer ∈ requests → offer.generation < UInt64.size) →
        let archive := fresh.serveAll requests
        let file : FileContent := .ok archive.record.text.toUTF8
        (∀ value ∈ archive.components, value.isFinite = true → Numeral.Keeps value) →
          ((∀ value ∈ archive.components, value.isFinite = true) →
            ArchiveRecord.load file = .ok archive.record) ∧
          ((∃ value ∈ archive.components, value.isFinite = false) →
            ArchiveRecord.load file = .error .malformed) := by
  refine ⟨⟨target, []⟩, by rw [new, if_neg hTarget.ne'], ?_⟩
  intro requests hGenerations archive file hKept
  have hLoad : ArchiveRecord.load file =
      (ArchiveRecord.ofJson? archive.record.toJson).elim (.error .malformed) .ok :=
    ArchiveRecord.load_text archive.record
  constructor
  · intro hFinite
    have hTargetWord : archive.record.target < UInt64.size := by
      change archive.target < _
      rwa [serveAll_target]
    have hGeneration : ∀ goal ∈ archive.record.goals, ∀ saved ∈ goal.witnesses,
        saved.generation < UInt64.size := by
      intro goal hGoal saved hSaved
      obtain ⟨witness, hWitness, -, hSame⟩ := exists_of_mem_record hGoal hSaved
      obtain ⟨offered, offer, hOffer, rfl⟩ := exists_offer_of_mem_allWitnesses hWitness
      rw [hSame]
      exact hGenerations offered offer hOffer
    have hObservation : ∀ goal ∈ archive.record.goals, ∀ saved ∈ goal.witnesses,
        saved.observation.Kept := by
      intro goal hGoal saved hSaved value hValue
      obtain ⟨witness, hWitness, hSame, -⟩ := exists_of_mem_record hGoal hSaved
      have hComponent : value ∈ archive.components :=
        List.mem_flatMap.mpr ⟨witness, hWitness, hSame ▸ hValue⟩
      exact hKept value hComponent (hFinite value hComponent)
    rw [hLoad, ArchiveRecord.ofJson?_toJson hTargetWord hGeneration hObservation]
    rfl
  · rintro ⟨value, hComponent, hValue⟩
    obtain ⟨witness, hWitness, hMem⟩ := List.mem_flatMap.mp hComponent
    obtain ⟨goal, hGoal, saved, hSaved, hSame⟩ := exists_mem_record hWitness
    have hLost : saved.observation.Lost := ⟨value, hSame ▸ hMem, hValue⟩
    rw [hLoad, ArchiveRecord.ofJson?_toJson_of_lost hGoal hSaved hLost]
    rfl

/-- A goal whose texts have a quote, a backslash, control characters and a character beyond ASCII is
saved and loaded with a witness. With a further witness that captured what is not a number the file
is not loaded. -/
theorem load_record_escaped :
    let goal := Goal.located "\"g\\" "line\n" "\x01 λ" 4294967295
    let half := observedCall [0.5, -0.0, 12.0]
    let nothing := observedCall [1.0, 0.0 / 0.0]
    0 < 18446744073709551615 ∧
    ∃ fresh : Archive InputVector, Archive.new 18446744073709551615 = .ok fresh ∧
      let kept := fresh.serveAll [.register goal, .offer goal half]
      let lost := fresh.serveAll [.offer goal half, .register goal, .offer goal nothing]
      kept.components = [0.5, -0.0, 12.0] ∧
      ArchiveRecord.load (.ok kept.record.text.toUTF8) = .ok kept.record ∧
      ArchiveRecord.load (.ok lost.record.text.toUTF8) = .error .malformed := by
  intro goal half nothing
  obtain ⟨fresh, hNew, hLoad⟩ := load_record (τ := InputVector)
    (by decide : 0 < 18446744073709551615) (by decide)
  have hFresh : fresh = ⟨18446744073709551615, []⟩ := by
    cases hNew
    rfl
  subst hFresh
  refine ⟨by decide, _, hNew, ?_⟩
  intro kept lost
  have hKept : kept.components = [0.5, -0.0, 12.0] := by decide +kernel
  have hLost : lost.components = [0.5, -0.0, 12.0, 1.0, 0.0 / 0.0] := by decide +kernel
  have hGeneration : ∀ requests : List (Request InputVector),
      (∀ asked offer, .offer asked offer ∈ requests → offer = half ∨ offer = nothing) →
      ∀ asked offer, .offer asked offer ∈ requests → offer.generation < UInt64.size := by
    intro requests h asked offer hMem
    rcases h asked offer hMem with rfl | rfl <;> decide
  refine ⟨hKept, ?_, ?_⟩
  · refine (hLoad _ (hGeneration [.register goal, .offer goal half] ?_) ?_).1 ?_
    · grind
    · rw [hKept]
      decide +kernel
    · rw [hKept]
      decide
  · refine (hLoad _ (hGeneration [.offer goal half, .register goal, .offer goal nothing] ?_) ?_).2 ?_
    · grind
    · rw [hLost]
      decide +kernel
    · rw [hLost]
      decide

end Archive

end WitnessSearch
