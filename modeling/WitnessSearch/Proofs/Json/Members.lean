import WitnessSearch.Proofs.Json.Decoding

/-! Objects that give some fields of a record. A field is looked for by its name, so neither the
order of the members nor the members with other names make a difference. What the document of a
field stands for is said apart from how it is read, and then the two are seen to agree. -/

namespace WitnessSearch.Json

section Values

def IsCount (document : Json) (value : Nat) : Prop :=
  ∃ digits, document = .number ⟨false, digits, [], none⟩ ∧ Numeral.digitsValue digits = value ∧
    value < UInt64.size

def IsWord (document : Json) (value : UInt64) : Prop :=
  IsCount document value.toNat

/-- Any numeral whose double is finite stands for the double. -/
def IsDouble (document : Json) (value : Float) : Prop :=
  ∃ numeral : Numeral, document = .number numeral ∧ numeral.toFloat? = some value

def IsFlag (document : Json) (value : Bool) : Prop :=
  document = .bool value

/-- A null stands for a value that is left out. -/
inductive IsOptional {α : Type} (stands : Json → α → Prop) : Json → Option α → Prop where
  | missing : IsOptional stands .null none
  | given {document : Json} {value : α} (h : stands document value) :
      IsOptional stands document (some value)

/-- One of some named values, written as its name or as an object with the name for its key. -/
inductive IsVariant {α : Type} (name : α → String) : Json → α → Prop where
  | named (value : α) : IsVariant name (.string (some (name value))) value
  | keyed (value : α) : IsVariant name (.object [(some (name value), .null)]) value

theorem isCount_ofNat {value : Nat} (h : value < UInt64.size) : IsCount (.ofNat value) value :=
  ⟨_, rfl, by simp [Numeral.digitsValue], h⟩

theorem IsCount.asCount? {document : Json} {value : Nat} (h : IsCount document value) :
    document.asCount? = some value := by
  obtain ⟨digits, rfl, rfl, hLess⟩ := h
  rw [Json.asCount?, asIntWithin?_of_toInt? rfl hLess]
  rfl

theorem IsWord.asUInt64? {document : Json} {value : UInt64} (h : IsWord document value) :
    document.asUInt64? = some value := by
  rw [Json.asUInt64?, IsCount.asCount? h]
  simp

theorem IsDouble.asFloat? {document : Json} {value : Float} (h : IsDouble document value) :
    document.asFloat? = some value := by
  obtain ⟨numeral, rfl, hValue⟩ := h
  exact hValue

theorem IsFlag.asBool? {document : Json} {value : Bool} (h : IsFlag document value) :
    document.asBool? = some value := by
  obtain rfl := h
  rfl

variable {α : Type}

/-- An optional value is read, given that `null` is no value of its kind. -/
theorem IsOptional.asOptional? {stands : Json → α → Prop} {decode : Json → Option α}
    (hNull : decode .null = none)
    (hDecode : ∀ {document value}, stands document value → decode document = some value)
    {document : Json} {value : Option α} (h : IsOptional stands document value) :
    document.asOptional? decode = some value := by
  cases h with
  | missing => rfl
  | given hStands =>
      have hGiven := hDecode hStands
      unfold Json.asOptional?
      split
      · rw [hNull] at hGiven
        cases hGiven
      · rw [hGiven]
        rfl

/-- A variant is read by its name, given that the names tell the variants apart. -/
theorem IsVariant.asVariant? {name : α → String} {variant? : String → Option α}
    (hName : ∀ value, variant? (name value) = some value) {document : Json} {value : α}
    (h : IsVariant name document value) : document.asVariant? variant? = some value := by
  cases h <;> exact hName value

end Values

section Members

variable {α : Type}

/-- Among the members there is at most one with the name. If there is one, its document stands for
the value that is given, and otherwise none is given. -/
inductive Gives (members : List (Option String × Json)) (name : String)
    (stands : Json → α → Prop) : Option α → Prop where
  | missing (h : ∀ member ∈ members, member.1 ≠ some name) : Gives members name stands none
  | once {before behind : List (Option String × Json)} {document : Json} {value : α}
      (split : members = before ++ (some name, document) :: behind)
      (hBefore : ∀ member ∈ before, member.1 ≠ some name)
      (hBehind : ∀ member ∈ behind, member.1 ≠ some name) (hStands : stands document value) :
      Gives members name stands (some value)

/-- An object gives a record that its members show. -/
def IsObject (shown : α → List (Option String × Json) → Prop) (document : Json) (value : α) :
    Prop :=
  ∃ members, document = .object members ∧ shown value members

variable {members : List (Option String × Json)} {name : String} {stands : Json → α → Prop}
  {given : Option α}

/-- A member with the name gives its value, if no other one has the name. -/
theorem Gives.own {document : Json} {value : α} (hStands : stands document value)
    (h : ∀ member ∈ members, member.1 ≠ some name) :
    Gives ((some name, document) :: members) name stands (some value) :=
  .once (List.nil_append _).symm (List.forall_mem_nil _) h hStands

/-- A member with another name changes nothing for this one. -/
theorem Gives.other {member : Option String × Json} (hOther : member.1 ≠ some name)
    (h : Gives members name stands given) : Gives (member :: members) name stands given := by
  cases h with
  | missing h => exact .missing (List.forall_mem_cons.mpr ⟨hOther, h⟩)
  | @once before _ _ _ split hBefore hBehind hStands =>
      have hSplit := congrArg (member :: ·) split
      exact .once hSplit (List.forall_mem_cons.mpr ⟨hOther, hBefore⟩) hBehind hStands

theorem count_eq_zero (h : ∀ member ∈ members, member.1 ≠ some name) :
    (members.map Prod.fst).count (some name) = 0 := by
  rw [List.count_eq_zero, List.mem_map]
  rintro ⟨member, hMem, hName⟩
  exact h member hMem hName

theorem lookup_eq_none_of_count {κ : Type} [BEq κ] [LawfulBEq κ] {entries : List (κ × Json)}
    {key : κ} (h : (entries.map Prod.fst).count key = 0) : entries.lookup key = none := by
  rw [List.lookup_eq_none_iff]
  rw [List.count_eq_zero] at h
  exact fun entry hMem => bne_iff_ne.mpr fun hSame =>
    h (List.mem_map.mpr ⟨entry, hMem, hSame.symm⟩)

/-- A name that is given is given once. -/
theorem Gives.count_le (h : Gives members name stands given) :
    (members.map Prod.fst).count (some name) ≤ 1 := by
  cases h with
  | missing h =>
      rw [count_eq_zero h]
      exact Nat.zero_le 1
  | once split hBefore hBehind =>
      refine Nat.le_of_eq ?_
      rw [split, List.map_append, List.count_append, count_eq_zero hBefore, List.map_cons,
        List.count_cons_self, count_eq_zero hBehind]

/-- Other members can be left out. -/
theorem Gives.filter {keeps : Option String × Json → Bool}
    (hKeeps : ∀ document, keeps (some name, document) = true)
    (h : Gives members name stands given) : Gives (members.filter keeps) name stands given := by
  cases h with
  | missing h => exact .missing fun member hMem => h member (List.mem_of_mem_filter hMem)
  | @once before behind document value split hBefore hBehind hStands =>
      have hSplit : members.filter keeps =
          before.filter keeps ++ (some name, document) :: behind.filter keeps := by
        rw [split, List.filter_append, List.filter_cons_of_pos (hKeeps document)]
      exact .once hSplit (fun member hMem => hBefore member (List.mem_of_mem_filter hMem))
        (fun member hMem => hBehind member (List.mem_of_mem_filter hMem)) hStands

/-- The members with a given name are one member, and its document stands for the value. -/
theorem Gives.exists_filter_eq {value : α} (h : Gives members name stands (some value)) :
    ∃ document, stands document value ∧
      (members.filter fun member => member.1 = some name) = [(some name, document)] := by
  cases h with
  | @once before behind document _ split hBefore hBehind hStands =>
      refine ⟨document, hStands, ?_⟩
      rw [split, List.filter_append, List.filter_eq_nil_iff.mpr (by simpa using hBefore),
        List.filter_cons_of_pos (by simp), List.filter_eq_nil_iff.mpr (by simpa using hBehind),
        List.nil_append]

/-- Every member with a name that is given stands for the value. -/
theorem Gives.stands_of_mem {document : Json} (h : Gives members name stands given)
    (hMem : (some name, document) ∈ members) : ∃ value, stands document value := by
  cases h with
  | missing h => exact absurd rfl (h _ hMem)
  | @once before behind own value split hBefore hBehind hStands =>
      rw [split, List.mem_append, List.mem_cons] at hMem
      rcases hMem with hMem | hMem | hMem
      · exact absurd rfl (hBefore _ hMem)
      · cases hMem
        exact ⟨value, hStands⟩
      · exact absurd rfl (hBehind _ hMem)

namespace Fields

/-- A field is read from its own member, and one that is not given has its default. -/
theorem withDefault_of_gives {β : Type} {fields : Fields} {decode : Json → Option β} (f : α → β)
    (hLookup : fields.values.lookup name = members.lookup (some name))
    (h : Gives members name stands given)
    (hDecode : ∀ {document value}, stands document value → decode document = some (f value))
    (default : β) :
    fields.withDefault name default decode = some ((given.map f).getD default) := by
  rw [withDefault, hLookup]
  cases h with
  | missing h =>
      rw [lookup_eq_none_of_count (count_eq_zero h)]
      rfl
  | once split hBefore hBehind hStands =>
      rw [split, List.lookup_append, lookup_eq_none_of_count (count_eq_zero hBefore),
        Option.none_or, List.lookup_cons_self]
      exact hDecode hStands

/-- A member that is taken up still counts. -/
theorem count_moved (key name : String) (value : Json) (known : List (String × Json))
    (rest : List (Option String × Json)) :
    (((key, value) :: known).map Prod.fst).count name + (rest.map Prod.fst).count (some name) =
      (known.map Prod.fst).count name +
        (((some key, value) :: rest).map Prod.fst).count (some name) := by
  by_cases hSame : key = name
  · rw [hSame, List.map_cons, List.map_cons, List.count_cons_self, List.count_cons_self]
    omega
  · have hOther : some key ≠ some name := by simpa using hSame
    rw [List.map_cons, List.map_cons, List.count_cons_of_ne hSame, List.count_cons_of_ne hOther]

/-- A member that is taken up for the first time is found as before. -/
theorem lookup_moved {key : String} {known : List (String × Json)} (hNew : known.lookup key = none)
    (name : String) (value : Json) (rest : List (Option String × Json)) :
    (((key, value) :: known).lookup name).or (rest.lookup (some name)) =
      (known.lookup name).or (((some key, value) :: rest).lookup (some name)) := by
  by_cases hSame : name = key
  · rw [hSame, List.lookup_cons_self, List.lookup_cons_self, hNew]
    rfl
  · have hOther : (some name == some key) = false := by simpa using hSame
    rw [List.lookup_cons, List.lookup_cons, beq_eq_false_iff_ne.mpr hSame, hOther]

/-- Members whose keys are texts are taken up one after another, as long as no name comes twice. -/
theorem exists_ofMembers? {names : List String} (known : List (String × Json))
    (hKeys : ∀ member ∈ members, member.1.isSome = true)
    (hOnce : ∀ name ∈ names, (known.map Prod.fst).count name +
      (members.map Prod.fst).count (some name) ≤ 1) :
    ∃ values, ofMembers? names known members = some values ∧ ∀ name ∈ names,
      values.lookup name = (known.lookup name).or (members.lookup (some name)) := by
  induction members generalizing known with
  | nil => exact ⟨known, rfl, fun name _ => by rw [List.lookup_nil, Option.or_none]⟩
  | cons member rest ih =>
      obtain ⟨hKey, hRest⟩ := List.forall_mem_cons.mp hKeys
      obtain ⟨key, value⟩ := member
      obtain ⟨key, rfl⟩ := Option.isSome_iff_exists.mp hKey
      rw [ofMembers?]
      split
      · rename_i hName
        have hNew : known.lookup key = none := by
          have hTwice := hOnce key hName
          rw [List.map_cons, List.count_cons_self] at hTwice
          exact lookup_eq_none_of_count (by omega)
        have hLater : ∀ name ∈ names, (((key, value) :: known).map Prod.fst).count name +
            (rest.map Prod.fst).count (some name) ≤ 1 := by
          intro name hMem
          rw [count_moved]
          exact hOnce name hMem
        obtain ⟨values, hValues, hLookup⟩ := ih ((key, value) :: known) hRest hLater
        rw [hNew]
        exact ⟨values, hValues, fun name hMem =>
          (hLookup name hMem).trans (lookup_moved hNew name value rest)⟩
      · rename_i hName
        have hOther : ∀ name ∈ names, (some name == some key) = false := fun name hMem => by
          simpa using fun hSame : name = key => hName (hSame ▸ hMem)
        have hLater : ∀ name ∈ names, (known.map Prod.fst).count name +
            (rest.map Prod.fst).count (some name) ≤ 1 := by
          intro name hMem
          have hSum := hOnce name hMem
          rw [List.map_cons, List.count_cons] at hSum
          omega
        obtain ⟨values, hValues, hLookup⟩ := ih known hRest hLater
        refine ⟨values, hValues, fun name hMem => ?_⟩
        rw [hLookup name hMem, List.lookup_cons, hOther name hMem]

/-- The given fields of an object. -/
theorem exists_of?_object {names : List String}
    (hKeys : ∀ member ∈ members, member.1.isSome = true)
    (hOnce : ∀ name ∈ names, (members.map Prod.fst).count (some name) ≤ 1) :
    ∃ fields, Fields.of? names (.object members) = some fields ∧
      ∀ name ∈ names, fields.values.lookup name = members.lookup (some name) := by
  obtain ⟨values, hValues, hLookup⟩ := exists_ofMembers? [] hKeys (by simpa using hOnce)
  exact ⟨⟨false, values⟩, by simp [Fields.of?, hValues], by simpa using hLookup⟩

end Fields

end Members

end WitnessSearch.Json
