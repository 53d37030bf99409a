import Mathlib.Data.List.Forall2
import Mathlib.Data.List.GetD
import Mathlib.Order.Preorder.Finite
import WitnessSearch.Proofs.FloatOrder
import WitnessSearch.Ranking.Dominance

/-! Domination as an order. It is irreflexive and asymmetric whatever the rows hold, and among rows
of numbers it is transitive, as the strict part of being nowhere larger. So in a finite set of such
rows every descent ends at a row that nothing dominates. -/

namespace WitnessSearch

def IsNumeric (row : List Float) : Prop :=
  ∀ x ∈ row, x.isNaN = false

instance : DecidablePred IsNumeric :=
  fun row => inferInstanceAs (Decidable (∀ x ∈ row, x.isNaN = false))

/-- The scan accepts if no pair is worse, and one is better or was better before. -/
theorem dominatesFrom_iff (better : Bool) (a b : List Float) :
    dominatesFrom better a b = true ↔
      (∀ pair ∈ a.zip b, ¬pair.2 < pair.1) ∧
        (better = true ∨ ∃ pair ∈ a.zip b, pair.1 < pair.2) := by
  induction a generalizing better b with
  | nil => simp [dominatesFrom]
  | cons x a ih =>
      cases b with
      | nil => simp [dominatesFrom]
      | cons y b =>
          rw [dominatesFrom]
          split
          · rename_i hWorse
            simp [hWorse]
          · rename_i hNoWorse
            rw [ih]
            simp only [List.zip_cons_cons, List.mem_cons, forall_eq_or_imp, exists_eq_or_imp,
              hNoWorse, not_false_eq_true, true_and, Bool.or_eq_true, decide_eq_true_eq, or_assoc]

/-- Domination means to be nowhere larger and somewhere smaller. -/
theorem dominates_iff (a b : List Float) :
    dominates a b = true ↔
      (∀ pair ∈ a.zip b, ¬pair.2 < pair.1) ∧ ∃ pair ∈ a.zip b, pair.1 < pair.2 := by
  simp [dominates, dominatesFrom_iff]

/-- One row is nowhere larger than another of its length. -/
def NoWorse (a b : List Float) : Prop :=
  List.Forall₂ (fun x y => ¬y < x) a b

/-- Domination is the strict part of being nowhere larger. -/
theorem dominates_iff_noWorse {a b : List Float} (h : a.length = b.length) :
    dominates a b = true ↔ NoWorse a b ∧ ¬NoWorse b a := by
  have hForward : NoWorse a b ↔ ∀ pair ∈ a.zip b, ¬pair.2 < pair.1 := by
    simp [NoWorse, List.forall₂_iff_zip, h]
  have hBackward : NoWorse b a ↔ ∀ pair ∈ a.zip b, ¬pair.1 < pair.2 := by
    have hFlip : NoWorse b a ↔ List.Forall₂ (fun x y => ¬x < y) a b :=
      ⟨List.Forall₂.flip, List.Forall₂.flip⟩
    rw [hFlip]
    simp [List.forall₂_iff_zip, h]
  rw [dominates_iff, hForward, hBackward]
  simp

/-- Among numeric rows, being no worse is transitive. With entries that are no numbers it is not. -/
theorem NoWorse.trans {a b c : List Float} (ha : IsNumeric a) (hb : IsNumeric b)
    (hc : IsNumeric c) (hab : NoWorse a b) (hbc : NoWorse b c) : NoWorse a c := by
  induction hab generalizing c with
  | nil => exact hbc
  | @cons x y a b hFirst _ ih =>
      cases hbc with
      | @cons _ z _ c hNext hRest =>
          obtain ⟨hx, ha⟩ := List.forall_mem_cons.mp ha
          obtain ⟨hy, hb⟩ := List.forall_mem_cons.mp hb
          obtain ⟨hz, hc⟩ := List.forall_mem_cons.mp hc
          exact .cons (FloatOrder.not_lt_trans hx hy hz hFirst hNext) (ih ha hb hc hRest)

/-- Being nowhere larger is decided entry by entry. -/
theorem noWorse_iff_getD {a b : List Float} (h : a.length = b.length) :
    NoWorse a b ↔ ∀ i < a.length, ¬b.getD i 0.0 < a.getD i 0.0 := by
  rw [NoWorse, List.forall₂_iff_get]
  constructor
  · intro ⟨_, hEach⟩ i hi
    rw [List.getD_eq_getElem _ _ hi, List.getD_eq_getElem _ _ (h ▸ hi)]
    exact hEach i hi (h ▸ hi)
  · refine fun hEach => ⟨h, fun i hi hi' => ?_⟩
    have hHere := hEach i hi
    rwa [List.getD_eq_getElem _ _ hi, List.getD_eq_getElem _ _ hi'] at hHere

/-- Dominance read index by index. -/
theorem dominates_iff_getD {a b : List Float} (h : a.length = b.length) :
    dominates a b = true ↔
      (∀ i < a.length, ¬b.getD i 0.0 < a.getD i 0.0) ∧
        ∃ i < a.length, a.getD i 0.0 < b.getD i 0.0 := by
  rw [dominates_iff_noWorse h, noWorse_iff_getD h, noWorse_iff_getD h.symm, ← h]
  simp only [not_forall, not_not, exists_prop]

/-- No row dominates itself, whatever its entries are. -/
theorem dominates_irrefl (a : List Float) : dominates a a = false := by
  rw [← Bool.not_eq_true, dominates_iff_noWorse rfl]
  exact fun h => h.2 h.1

/-- No two rows of one length dominate each other. -/
theorem dominates_asymm {a b : List Float} (h : a.length = b.length)
    (hab : dominates a b = true) : dominates b a = false := by
  rw [dominates_iff_noWorse h] at hab
  rw [← Bool.not_eq_true, dominates_iff_noWorse h.symm]
  exact fun hBack => hab.2 hBack.1

/-- A row of numbers with a given number of entries. -/
structure NumericRow (width : ℕ) where
  entries : List Float
  length : entries.length = width
  numeric : IsNumeric entries

namespace NumericRow

variable {width : ℕ} {rows : Set (NumericRow width)}

/-- Rows of numbers are ordered by being nowhere larger. Domination is the strict part of this
order. Rows that differ only in the signs of zeros are each nowhere larger than the other, so it is
no partial order. -/
instance : Preorder (NumericRow width) where
  le a b := NoWorse a.entries b.entries
  lt a b := dominates a.entries b.entries = true
  le_refl a := List.forall₂_same.mpr fun x hx => FloatOrder.lt_irrefl (a.numeric x hx)
  le_trans a b c hab hbc := hab.trans a.numeric b.numeric c.numeric hbc
  lt_iff_le_not_ge a b := dominates_iff_noWorse (a.length.trans b.length.symm)

theorem lt_iff {a b : NumericRow width} : a < b ↔ dominates a.entries b.entries = true :=
  Iff.rfl

/-- A member of a set of rows that no member dominates. -/
def NonDominated (rows : Set (NumericRow width)) (a : NumericRow width) : Prop :=
  a ∈ rows ∧ ∀ b ∈ rows, dominates b.entries a.entries = false

/-- Among numeric rows of one width, what is not dominated is minimal in their order. -/
theorem nonDominated_iff_minimal {a : NumericRow width} :
    NonDominated rows a ↔ Minimal (· ∈ rows) a := by
  rw [minimal_iff_forall_lt]
  refine and_congr_right fun _ => forall_congr' fun b => ?_
  rw [lt_iff, ← Bool.not_eq_true]
  exact imp_not_comm

/-- Below each member of a finite set there is one that nothing dominates. -/
theorem exists_nonDominated_le (hFinite : rows.Finite) {b : NumericRow width} (hb : b ∈ rows) :
    ∃ a, NonDominated rows a ∧ a ≤ b := by
  obtain ⟨a, hLe, hMinimal⟩ := hFinite.exists_le_minimal hb
  exact ⟨a, nonDominated_iff_minimal.mpr hMinimal, hLe⟩

/-- What is dominated by a member of a finite set is dominated by one that nothing dominates. -/
theorem exists_nonDominated_lt (hFinite : rows.Finite) {b c : NumericRow width} (hc : c ∈ rows)
    (h : c < b) : ∃ a, NonDominated rows a ∧ a < b := by
  obtain ⟨a, hNone, hLe⟩ := exists_nonDominated_le hFinite hc
  exact ⟨a, hNone, lt_of_le_of_lt hLe h⟩

end NumericRow

/-- Among rows of numbers of one length domination is transitive. -/
theorem dominates_trans {a b c : List Float} (ha : IsNumeric a) (hb : IsNumeric b)
    (hc : IsNumeric c) (hLength : a.length = b.length) (hNext : b.length = c.length)
    (hab : dominates a b = true) (hbc : dominates b c = true) : dominates a c = true := by
  let first : NumericRow c.length := ⟨a, hLength.trans hNext, ha⟩
  let second : NumericRow c.length := ⟨b, hNext, hb⟩
  let third : NumericRow c.length := ⟨c, rfl, hc⟩
  have hFirst : first < second := hab
  have hSecond : second < third := hbc
  exact hFirst.trans hSecond

/-- Domination is a strict order on the rows of one length. It compares entry by entry: no entry is
greater than the other row's and some entry is smaller. Whatever the rows hold, none dominates
itself and no two dominate each other. Among rows of numbers domination is transitive, a finite set
of them that is not empty has a member that nothing dominates, and each member that is dominated is
dominated by such a one. -/
theorem dominates_orders_rows (width : ℕ) :
    (∀ a b : List Float, a.length = width → b.length = width →
      checkedDominates a b = .ok (dominates a b) ∧
      (dominates a b = true ↔
        (∀ i < width, ¬b.getD i 0.0 < a.getD i 0.0) ∧
          ∃ i < width, a.getD i 0.0 < b.getD i 0.0) ∧
      (dominates a b = true → dominates b a = false)) ∧
    (∀ a, dominates a a = false) ∧
    (∀ a b c : NumericRow width, dominates a.entries b.entries = true →
      dominates b.entries c.entries = true → dominates a.entries c.entries = true) ∧
    ∀ rows : Set (NumericRow width), rows.Finite →
      (rows.Nonempty → ∃ a ∈ rows, ∀ b ∈ rows, dominates b.entries a.entries = false) ∧
      ∀ b ∈ rows, (∃ c ∈ rows, dominates c.entries b.entries = true) →
        ∃ a ∈ rows, dominates a.entries b.entries = true ∧
          ∀ c ∈ rows, dominates c.entries a.entries = false := by
  refine ⟨fun a b ha hb => ?_, dominates_irrefl, fun a b c hab hbc => ?_,
    fun rows hFinite => ⟨?_, ?_⟩⟩
  · have hSame : a.length = b.length := ha.trans hb.symm
    have hEntries := dominates_iff_getD hSame
    rw [ha] at hEntries
    exact ⟨if_pos hSame, hEntries, dominates_asymm hSame⟩
  · exact dominates_trans a.numeric b.numeric c.numeric (a.length.trans b.length.symm)
      (b.length.trans c.length.symm) hab hbc
  · rintro ⟨b, hb⟩
    obtain ⟨a, ⟨ha, hFree⟩, -⟩ := NumericRow.exists_nonDominated_le hFinite hb
    exact ⟨a, ha, hFree⟩
  · rintro b - ⟨c, hc, hDominates⟩
    obtain ⟨a, ⟨ha, hFree⟩, hBelow⟩ := NumericRow.exists_nonDominated_lt hFinite hc hDominates
    exact ⟨a, ha, hBelow, hFree⟩

/-- Two rows that are each better on one entry, a third that both dominate, and a last one that the
third dominates too. -/
def crossedRows : Set (NumericRow 2) :=
  {⟨[1.0, 2.0], rfl, by decide⟩, ⟨[2.0, 1.0], rfl, by decide⟩, ⟨[2.0, 2.0], rfl, by decide⟩,
    ⟨[3.0, 2.0], rfl, by decide⟩}

theorem dominates_orders_rows_crossed :
    crossedRows.Finite ∧ crossedRows.Nonempty ∧
      (∃ a ∈ crossedRows, ∀ b ∈ crossedRows, dominates b.entries a.entries = false) ∧
      (∃ a ∈ crossedRows, dominates a.entries [3.0, 2.0] = true ∧
        ∀ c ∈ crossedRows, dominates c.entries a.entries = false) ∧
      dominates [1.0, 0.0 / 0.0] [2.0, 1.0] = true ∧
      dominates [2.0, 1.0] [1.0, 0.0 / 0.0] = false := by
  have hFinite : crossedRows.Finite := by simp [crossedRows]
  have hSome : crossedRows.Nonempty := by simp [crossedRows]
  obtain ⟨hPairs, -, -, hSets⟩ := dominates_orders_rows 2
  obtain ⟨hFree, hBelow⟩ := hSets crossedRows hFinite
  have hLast : (⟨[3.0, 2.0], rfl, by decide⟩ : NumericRow 2) ∈ crossedRows := by simp [crossedRows]
  have hThird : (⟨[2.0, 2.0], rfl, by decide⟩ : NumericRow 2) ∈ crossedRows := by simp [crossedRows]
  have hWorse : dominates [1.0, 0.0 / 0.0] [2.0, 1.0] = true := by decide
  exact ⟨hFinite, hSome, hFree hSome, hBelow _ hLast ⟨_, hThird, by decide⟩, hWorse,
    (hPairs _ _ rfl rfl).2.2 hWorse⟩

end WitnessSearch
