import WitnessSearch.Json.Decode
import WitnessSearch.Proofs.Json.Documents

/-! What is written of values is well formed, and it is read back value by value. A list is read
back if its elements are, and a record if its fields have different names and each is read back. A
double is read back only if it is finite, since otherwise it is written as a null. -/

namespace WitnessSearch

/-- The double is read as it is written. -/
def Numeral.Keeps (value : Float) : Prop :=
  (Numeral.ofFloat? value).bind Numeral.toFloat? = some value

instance (value : Float) : Decidable (Numeral.Keeps value) :=
  inferInstanceAs (Decidable (_ = _))

namespace Json

section Readable

theorem readable_ofText (text : String) : (ofText text).Readable :=
  .string text

theorem readable_ofNat (value : Nat) : (ofNat value).Readable :=
  .number (Numeral.wellFormed_ofNat value)

/-- The document of a double is readable in any case. A double that is not finite is written as
`null`, which is readable, too. -/
theorem readable_ofFloat (value : Float) : (ofFloat value).Readable := by
  rw [ofFloat]
  cases hNumeral : Numeral.ofFloat? value with
  | none => exact .null
  | some numeral => exact .number (Numeral.wellFormed_of_ofFloat? hNumeral)

/-- A list is readable if its members are. -/
theorem readable_ofList {α : Type} {encode : α → Json} (h : ∀ value, (encode value).Readable)
    (values : List α) : (ofList encode values).Readable := by
  refine .array fun element hMem => ?_
  obtain ⟨value, -, rfl⟩ := List.mem_map.mp hMem
  exact h value

/-- An object is readable if its members are. All its names are given, so none of them is a broken
text. -/
theorem readable_ofMembers {members : List (String × Json)}
    (h : ∀ member ∈ members, member.2.Readable) : (ofMembers members).Readable := by
  refine .object ?_ ?_ <;> intro written hMem <;>
    obtain ⟨⟨key, value⟩, hMember, rfl⟩ := List.mem_map.mp hMem
  · exact ⟨key, rfl⟩
  · exact h (key, value) hMember

end Readable

section Decoding

variable {α : Type}

@[simp] theorem asText?_ofText (text : String) : (ofText text).asText? = some text :=
  rfl

@[simp] theorem asBool?_bool (value : Bool) : (Json.bool value).asBool? = some value :=
  rfl

/-- A natural number is read back as an integer wherever it is below the bound that is asked for. -/
theorem asIntWithin?_of_toInt? {numeral : Numeral} {value high : Nat}
    (hValue : numeral.toInt? = some (value : Int)) (h : value < high) :
    (Json.number numeral).asIntWithin? 0 high = some (value : Int) := by
  rw [asIntWithin?, hValue]
  have hBounds : (0 : Int) ≤ value ∧ (value : Int) < high := by omega
  exact if_pos hBounds

theorem asIntWithin?_ofNat {value high : Nat} (h : value < high) :
    (ofNat value).asIntWithin? 0 high = some (value : Int) :=
  asIntWithin?_of_toInt? (Numeral.toInt?_ofNat value) h

theorem asCount?_ofNat {value : Nat} (h : value < UInt64.size) :
    (ofNat value).asCount? = some value := by
  rw [asCount?, asIntWithin?_ofNat h]
  rfl

theorem asUInt32?_ofNat (value : UInt32) : (ofNat value.toNat).asUInt32? = some value := by
  rw [asUInt32?, asIntWithin?_ofNat value.toNat_lt_size]
  simp

/-- A double is read back as what its numeral stands for. Whether this is the same double is a
matter of the numerals alone. -/
theorem asFloat?_ofFloat (value : Float) :
    (ofFloat value).asFloat? = (Numeral.ofFloat? value).bind Numeral.toFloat? := by
  rw [ofFloat]
  cases Numeral.ofFloat? value <;> rfl

/-- A double that is not finite is not read back. -/
theorem asFloat?_of_not_finite {value : Float} (h : value.isFinite = false) :
    (ofFloat value).asFloat? = none := by
  have hNone : Numeral.ofFloat? value = none := by
    rw [← Option.isNone_iff_eq_none, ← Option.isSome_eq_false_iff, Numeral.isSome_ofFloat?, h]
  rw [asFloat?_ofFloat, hNone, Option.bind_none]

variable {encode : α → Json} {decode : Json → Option α}

/-- A list is read back if each of its members is. -/
theorem asList?_ofList {values : List α}
    (h : ∀ value ∈ values, decode (encode value) = some value) :
    (ofList encode values).asList? decode = some values := by
  change (values.map encode).mapM decode = some values
  induction values with
  | nil => rfl
  | cons value rest ih =>
      rw [List.map_cons, List.mapM_cons, h value List.mem_cons_self,
        ih fun next hMem => h next (List.mem_cons_of_mem _ hMem)]
      rfl

/-- A single member that is not read back is enough for a list not to be. -/
theorem asList?_ofList_eq_none {values : List α} {value : α} (hMem : value ∈ values)
    (h : decode (encode value) = none) : (ofList encode values).asList? decode = none := by
  change (values.map encode).mapM decode = none
  induction values with
  | nil => cases hMem
  | cons first rest ih =>
      rw [List.map_cons, List.mapM_cons]
      rcases List.mem_cons.mp hMem with rfl | hRest
      · rw [h]
        rfl
      · rw [ih hRest]
        cases decode (encode first) <;> rfl

/-- An optional value is read back if its document is not the one for a missing value. -/
theorem asOptional?_ofOption {value : Option α} (hNull : decode .null = none)
    (h : ∀ given, value = some given → decode (encode given) = some given) :
    (ofOption encode value).asOptional? decode = some value := by
  cases value with
  | none => rfl
  | some given =>
      have hGiven := h given rfl
      change asOptional? decode (encode given) = _
      unfold asOptional?
      split
      · rename_i hMissing
        rw [hMissing, hNull] at hGiven
        cases hGiven
      · rw [hGiven]
        rfl

theorem asUInt64?_ofNat (value : UInt64) : (ofNat value.toNat).asUInt64? = some value := by
  rw [asUInt64?, asCount?_ofNat value.toNat_lt_size]
  simp

namespace Fields

/-- The members of a written object are all known when they have different names. -/
theorem ofMembers?_eq_some (names : List String) (known : List (String × Json))
    {members : List (String × Json)} (hNames : ∀ member ∈ members, member.1 ∈ names)
    (hDistinct : ((known.reverse ++ members).map Prod.fst).Nodup) :
    ofMembers? names known (members.map fun (key, value) => (some key, value)) =
      some (members.reverse ++ known) := by
  induction members generalizing known with
  | nil => rfl
  | cons member rest ih =>
      obtain ⟨key, value⟩ := member
      have hNew : (known.lookup key).isSome = false := by
        rw [Bool.eq_false_iff]
        intro hSome
        rw [List.lookup_isSome_iff] at hSome
        obtain ⟨entry, hEntry, hKey⟩ := hSome
        rw [List.map_append, List.nodup_append] at hDistinct
        refine hDistinct.2.2 entry.1 ?_ key List.mem_cons_self (beq_iff_eq.mp hKey).symm
        exact List.mem_map_of_mem (List.mem_reverse.mpr hEntry)
      have hRest := ih ((key, value) :: known)
        (fun next hMem => hNames next (List.mem_cons_of_mem _ hMem)) (by simpa using hDistinct)
      rw [List.map_cons, ofMembers?, if_pos (hNames _ List.mem_cons_self), hNew,
        if_neg Bool.false_ne_true, hRest, List.reverse_cons, List.append_assoc]
      rfl

/-- The fields of a written object. -/
theorem of?_ofMembers {names : List String} {members : List (String × Json)}
    (hNames : members.map Prod.fst = names) (hDistinct : names.Nodup) :
    Fields.of? names (ofMembers members) = some ⟨false, members.reverse⟩ := by
  have hMembers : ∀ member ∈ members, member.1 ∈ names :=
    fun member hMem => hNames ▸ List.mem_map_of_mem hMem
  have hKnown := ofMembers?_eq_some names [] hMembers (by simpa [hNames] using hDistinct)
  rw [List.append_nil] at hKnown
  simp only [Fields.of?, Json.ofMembers, hKnown]
  rfl

/-- A written object has its fields, and each has the value of its own member. -/
theorem exists_lookup {names : List String} (hDistinct : names.Nodup) {document : Json}
    {members : List (String × Json)} (hDocument : document = ofMembers members)
    (hNames : members.map Prod.fst = names) :
    ∃ fields, Fields.of? names document = some fields ∧
      ∀ member ∈ members, fields.values.lookup member.1 = some member.2 := by
  refine ⟨_, hDocument ▸ of?_ofMembers hNames hDistinct, fun member hMem => ?_⟩
  have hKeys : (members.reverse.map Prod.fst).Nodup := by
    rwa [List.map_reverse, hNames, List.nodup_reverse]
  exact lookup_of_mem hKeys (List.mem_reverse.mpr hMem)

/-- A field that has to be given is read from its own member. -/
theorem exists_of? {names : List String} (hDistinct : names.Nodup) {document : Json}
    {members : List (String × Json)} (hDocument : document = ofMembers members)
    (hNames : members.map Prod.fst = names) :
    ∃ fields, Fields.of? names document = some fields ∧
      ∀ member ∈ members, ∀ (α : Type) (decode : Json → Option α),
        fields.required member.1 decode = decode member.2 := by
  obtain ⟨fields, hFields, hLookup⟩ := exists_lookup hDistinct hDocument hNames
  refine ⟨fields, hFields, fun member hMem α decode => ?_⟩
  rw [required, hLookup member hMem]
  rfl

/-- A field that is given is read from its own member, though it has a default. -/
theorem exists_withDefault {names : List String} (hDistinct : names.Nodup) {document : Json}
    {members : List (String × Json)} (hDocument : document = ofMembers members)
    (hNames : members.map Prod.fst = names) :
    ∃ fields, Fields.of? names document = some fields ∧
      ∀ member ∈ members, ∀ (α : Type) (default : α) (decode : Json → Option α),
        fields.withDefault member.1 default decode = decode member.2 := by
  obtain ⟨fields, hFields, hLookup⟩ := exists_lookup hDistinct hDocument hNames
  refine ⟨fields, hFields, fun member hMem α default decode => ?_⟩
  rw [withDefault, hLookup member hMem]

end Fields

end Decoding

end Json

end WitnessSearch
