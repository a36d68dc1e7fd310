import Mathlib.Data.List.Induction
import Codelib.Sosper.Script

/-!
# Codelib.Sosper.Rows

**When rows are read independently** (`rows_independent`).

The column of a field is not its place in the line but its place in the file: the
counter behind `get_column_name` goes round and round the ten columns and is not set
back at the start of a line (`readData_eq`). Of the fields of one line that fall on the
same column the last one stays (`lookup_toHash`).
-/

namespace Codelib.Sosper

/-! ### One line -/

theorem colums_injective : Function.Injective colums := by
  unfold Function.Injective
  decide

/-- The column a counter that has advanced `n` times stands at. -/
def columnAt (n : Nat) : Fin 10 := ⟨n % 10, Nat.mod_lt n (by decide)⟩

theorem toHash_append (cnum : Fin 10) (hash : Entry) (values : List Text) (value : Text) :
    toHash cnum hash (values ++ [value]) =
      ((toHash cnum hash values).1.insert (colums (toHash cnum hash values).2) value,
        (getColumnName (toHash cnum hash values).2).2) := by
  induction values generalizing cnum hash with
  | nil => rfl
  | cons v values ih => exact ih _ _

/-- The counter advances once for every field. -/
theorem toHash_cnum (n : Nat) (hash : Entry) (values : List Text) :
    (toHash (columnAt n) hash values).2 = columnAt (n + values.length) := by
  induction values using List.reverseRecOn with
  | nil => rfl
  | append_singleton values value ih =>
      rw [toHash_append, ih, List.length_append, List.length_singleton]
      apply Fin.ext
      simp only [getColumnName, columnAt]
      omega

/-- **What is stored under a column**: the last of the fields that fall on it. -/
theorem lookup_toHash (n : Nat) (values : List Text) (c : Fin 10) (v : Text) :
    (toHash (columnAt n) ∅ values).1.lookup (colums c) = some v ↔
      ∃ k, values.length ≤ k + 10 ∧ (n + k) % 10 = c ∧ values[k]? = some v := by
  induction values using List.reverseRecOn with
  | nil => simp [toHash]
  | append_singleton values value ih =>
      rw [toHash_append, toHash_cnum, List.length_append, List.length_singleton]
      dsimp only
      have hlt {k : Nat} (h : (values ++ [value])[k]? = some v) : k < values.length + 1 := by
        obtain ⟨hk, -⟩ := List.getElem?_eq_some_iff.mp h
        simpa using hk
      by_cases hc : c = columnAt (n + values.length)
      · -- the new field falls on the column
        rw [hc, AList.lookup_insert]
        constructor
        · intro hp
          obtain ⟨rfl⟩ := hp
          exact ⟨values.length, by omega, rfl, List.getElem?_concat_length⟩
        · intro hp
          obtain ⟨k, hlast, hk, hv⟩ := hp
          have hk : (n + k) % 10 = (n + values.length) % 10 := hk
          have hklt := hlt hv
          obtain rfl : k = values.length := by omega
          rwa [List.getElem?_concat_length] at hv
      · rw [AList.lookup_insert_ne (colums_injective.ne hc), ih]
        have hne : (c : Nat) ≠ (n + values.length) % 10 := fun h => hc (Fin.ext h)
        refine exists_congr fun k => ?_
        rcases Nat.lt_or_ge k values.length with hk | hk
        · rw [List.getElem?_append_left hk]
          have : (n + k) % 10 = c → (values.length ≤ k + 10 ↔ values.length + 1 ≤ k + 10) := by omega
          tauto
        · rw [List.getElem?_eq_none hk]
          refine iff_of_false (by simp) ?_
          intro hp
          obtain ⟨-, hkc, hv⟩ := hp
          have hklt := hlt hv
          obtain rfl : k = values.length := by omega
          exact hne hkc.symm

/-! ### The file -/

/-- The fields of a line. -/
def fields (line : Text) : List Text := split (stripNewline line)

/-- The fields of every line. -/
def rows (file : Text) : List (List Text) := (readLines file).map fields

/-- The number of fields in the first `i` lines. -/
def fieldsBefore (rows : List (List Text)) (i : Nat) : Nat := ((rows.take i).map List.length).sum

theorem fieldsBefore_append (rows : List (List Text)) (row : List Text) {i : Nat}
    (h : i ≤ rows.length) : fieldsBefore (rows ++ [row]) i = fieldsBefore rows i := by
  rw [fieldsBefore, List.take_append_of_le_length h, fieldsBefore]

/-- Where the counter is, and what has been read, after some lines. -/
structure Read (rows : List (List Text)) (s : Reader) : Prop where
  cnum : s.cnum = columnAt (fieldsBefore rows rows.length)
  length : s.attendeeList.length = rows.length
  entry : ∀ {i row}, rows[i]? = some row →
    s.attendeeList[i]? = some (toHash (columnAt (fieldsBefore rows i)) ∅ row).1

theorem Read.snoc {rows : List (List Text)} {s : Reader} (h : Read rows s) (line : Text) :
    Read (rows ++ [fields line]) (s.line line) where
  cnum := by
    show (toHash s.cnum ∅ (fields line)).2 = _
    rw [h.cnum, toHash_cnum, fieldsBefore, fieldsBefore, List.take_length, List.take_length,
      List.map_append, List.sum_append, List.map_singleton, List.sum_singleton]
  length := by simp [Reader.line, h.length]
  entry {i row} hrow := by
    show (s.attendeeList ++ [(toHash s.cnum ∅ (fields line)).1])[i]? = _
    rcases Nat.lt_or_ge i rows.length with hi | hi
    · rw [List.getElem?_append_left hi] at hrow
      rw [List.getElem?_append_left (h.length ▸ hi), fieldsBefore_append rows _ hi.le]
      exact h.entry hrow
    · obtain ⟨hlt, -⟩ := List.getElem?_eq_some_iff.mp hrow
      obtain rfl : i = rows.length := by simp at hlt; omega
      rw [List.getElem?_concat_length] at hrow
      obtain rfl := Option.some.inj hrow
      rw [fieldsBefore_append rows _ (Nat.le_refl _), ← h.cnum, ← h.length,
        List.getElem?_concat_length]

/-- Every line is read from where the one before it has left the counter. -/
theorem readData_read (file : Text) : Read (rows file) (readData file) := by
  unfold rows readData
  induction readLines file using List.reverseRecOn with
  | nil => exact ⟨rfl, rfl, by simp⟩
  | append_singleton lines line ih =>
      rw [List.map_append, List.foldl_append]
      exact ih.snoc line

/-- The first ten fields of every line are stored under the ten columns, in order. -/
def Aligned (file : Text) : Prop :=
  ∀ (i : Nat) (row : List Text), (rows file)[i]? = some row →
    ∀ (j : Fin 10) (v : Text), row[(j : Nat)]? = some v →
      ∃ r : Entry, (readData file).attendeeList[i]? = some r ∧ r.lookup (colums j) = some v

/-- Where the last field that falls on a column is not the one that belongs there, it is
equal to it. -/
def Coincides (file : Text) : Prop :=
  ∀ (i : Nat) (row : List Text), (rows file)[i]? = some row →
    ∀ (j : Fin 10) (v : Text), row[(j : Nat)]? = some v →
      ∃ k, row.length ≤ k + 10 ∧ (fieldsBefore (rows file) i + k) % 10 = j ∧ row[k]? = some v

theorem aligned_iff_coincides (file : Text) : Aligned file ↔ Coincides file := by
  unfold Aligned Coincides
  refine forall_congr' fun i => forall_congr' fun row => forall_congr' fun hrow =>
    forall_congr' fun j => forall_congr' fun v => forall_congr' fun _ => ?_
  rw [← lookup_toHash, (readData_read file).entry hrow]
  simp

/-- Without equal fields in a line: every line begins at the first column, and has ten
fields at most. -/
theorem coincides_iff {file : Text} (hdistinct : ∀ row ∈ rows file, row.Nodup) :
    Coincides file ↔ ∀ (i : Nat) (row : List Text), (rows file)[i]? = some row → row ≠ [] →
      10 ∣ fieldsBefore (rows file) i ∧ row.length ≤ 10 := by
  constructor
  · intro h i row hrow hne
    obtain ⟨v, hv⟩ : ∃ v, row[0]? = some v :=
      ⟨row.head hne, by rw [← List.head?_eq_getElem?, List.head?_eq_some_head hne]⟩
    obtain ⟨k, hlast, hk, hkv⟩ := h i row hrow 0 v hv
    obtain rfl : k = 0 := by
      have hnodup := hdistinct row (List.mem_of_getElem? hrow)
      obtain ⟨hlt, -⟩ := List.getElem?_eq_some_iff.mp hkv
      exact (List.getElem?_inj hlt hnodup).mp (hkv.trans hv.symm)
    exact ⟨Nat.dvd_of_mod_eq_zero hk, by omega⟩
  · intro h i row hrow j v hv
    obtain ⟨hlt, -⟩ := List.getElem?_eq_some_iff.mp hv
    obtain ⟨hdvd, hlen⟩ := h i row hrow (List.ne_nil_of_length_pos (by omega))
    exact ⟨j, by omega, by have := j.isLt; omega, hv⟩

/-- **Exactly when rows are read independently**: if what falls on a column last is equal
to what belongs there. Where no line has two equal fields, that is if every line that has
fields begins at a multiple of ten and has ten at most. -/
theorem rows_independent (file : Text) :
    (Aligned file ↔ Coincides file) ∧
    ((∀ row ∈ rows file, row.Nodup) → (Aligned file ↔
      ∀ (i : Nat) (row : List Text), (rows file)[i]? = some row → row ≠ [] →
        10 ∣ fieldsBefore (rows file) i ∧ row.length ≤ 10)) :=
  ⟨aligned_iff_coincides file, fun h => (aligned_iff_coincides file).trans (coincides_iff h)⟩

/-- One line of two fields, and an empty one. -/
theorem rows_independent_one : Aligned [97, 9, 98, 13, 10, 10] := by
  refine ((rows_independent _).2 (by decide)).mpr fun i row hrow hne => ?_
  have hrows : rows [97, 9, 98, 13, 10, 10] = [[[97], [98]], []] := by decide
  rw [hrows] at hrow ⊢
  rcases i with _ | _ | i
  · obtain rfl := Option.some.inj hrow
    exact ⟨by decide, by decide⟩
  · exact absurd (Option.some.inj hrow).symm hne
  · exact absurd hrow (by simp)

/-- Two lines of one field: the second one is stored under the second column. -/
theorem rows_drift : ¬ ∀ file, Aligned file := by
  intro hall
  obtain ⟨r, hr, hid⟩ := hall [97, 10, 98, 10] 1 [[98]] (by decide) 0 [98] (by decide)
  have hread : (readData [97, 10, 98, 10]).attendeeList[1]?.bind (·.lookup "id") = none := by decide
  rw [hr, Option.bind_some] at hread
  exact absurd (hid.symm.trans hread) (by simp)

end Codelib.Sosper
