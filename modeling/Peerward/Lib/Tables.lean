import Peerward.Lib.Decoder

/-!
# Tables and unique indexes

A table is the list of its rows. A unique index forbids two rows with one key, possibly among some
rows only; an insert checks it, an update that leaves the key alone and a delete cannot break it.
-/

namespace Peerward.Lib

variable {ρ κ : Type}

/-! ## Updates -/

/-- `UPDATE ... SET f WHERE p`. -/
def updateWhere (p : ρ → Bool) (f : ρ → ρ) (rows : List ρ) : List ρ :=
  rows.map fun row => if p row then f row else row

section

variable {p : ρ → Bool} {f : ρ → ρ} {rows : List ρ} {row : ρ}

theorem mem_updateWhere :
    row ∈ updateWhere p f rows ↔ ∃ old ∈ rows, row = if p old then f old else old := by
  simp only [updateWhere, List.mem_map, eq_comm]

theorem mem_updateWhere_of_not (hmem : row ∈ rows) (hp : p row = false) :
    row ∈ updateWhere p f rows :=
  mem_updateWhere.mpr ⟨row, hmem, by simp [hp]⟩

theorem mem_updateWhere_of (hmem : row ∈ rows) (hp : p row = true) :
    f row ∈ updateWhere p f rows :=
  mem_updateWhere.mpr ⟨row, hmem, by simp [hp]⟩

/-- A row after an update is as it was, or one of the updated. -/
theorem updateWhere_cases (h : row ∈ updateWhere p f rows) :
    (row ∈ rows ∧ p row = false) ∨ ∃ old ∈ rows, p old = true ∧ row = f old := by
  obtain ⟨old, hmem, rfl⟩ := mem_updateWhere.mp h
  by_cases hp : p old = true
  · rw [if_pos hp]
    exact .inr ⟨old, hmem, hp, rfl⟩
  · rw [if_neg hp]
    exact .inl ⟨hmem, Bool.eq_false_iff.mpr hp⟩

end

/-! ## Unique indexes

A partial unique index covers the rows that meet a condition. It refuses an insert, so it is kept by every
statement; what it gives is that a key names one row.
-/

/-- No two of the covered rows have one key. -/
def Unique (covers : ρ → Bool) (key : ρ → κ) (rows : List ρ) : Prop :=
  rows.Pairwise fun a b => covers a = true → covers b = true → key a ≠ key b

/-- An insert that the index refuses. -/
def collides [DecidableEq κ] (covers : ρ → Bool) (key : ρ → κ) (rows : List ρ) (row : ρ) : Bool :=
  covers row && rows.any fun other => covers other && key other = key row

namespace Unique

variable {covers : ρ → Bool} {key : ρ → κ} {rows : List ρ} {row : ρ}

theorem nil : Unique covers key [] := List.Pairwise.nil

theorem insert [DecidableEq κ] (h : Unique covers key rows)
    (hfree : collides covers key rows row = false) : Unique covers key (rows ++ [row]) := by
  refine List.pairwise_append.mpr ⟨h, List.pairwise_singleton _ _, fun a ha b hb => ?_⟩
  cases List.mem_singleton.mp hb
  intro hcovers hrow hkey
  have : collides covers key rows row = true := by
    simp only [collides, hrow, Bool.true_and, List.any_eq_true]
    exact ⟨a, ha, by simp [hcovers, hkey]⟩
  rw [hfree] at this
  cases this

theorem filter (h : Unique covers key rows) (keep : ρ → Bool) :
    Unique covers key (rows.filter keep) :=
  List.Pairwise.sublist List.filter_sublist h

theorem update {p : ρ → Bool} {f : ρ → ρ} (h : Unique covers key rows)
    (hcovers : ∀ row ∈ rows, p row = true → covers (f row) = true → covers row = true)
    (hkey : ∀ row ∈ rows, p row = true → key (f row) = key row) :
    Unique covers key (updateWhere p f rows) := by
  have hold : ∀ row ∈ rows, covers (if p row then f row else row) = true → covers row = true := by
    intro row hmem hc
    split at hc
    · exact hcovers row hmem ‹_› hc
    · exact hc
  have hsame : ∀ row ∈ rows, key (if p row then f row else row) = key row := by
    intro row hmem
    split
    · exact hkey row hmem ‹_›
    · rfl
  refine List.pairwise_map.mpr (List.Pairwise.imp_of_mem (fun {a b} ha hb hab hca hcb => ?_) h)
  rw [hsame a ha, hsame b hb]
  exact hab (hold a ha hca) (hold b hb hcb)

/-- A key names at most one of the covered rows. -/
theorem eq (h : Unique covers key rows) {a b : ρ} (ha : a ∈ rows) (hb : b ∈ rows)
    (hca : covers a = true) (hcb : covers b = true) (hkey : key a = key b) : a = b := by
  induction rows with
  | nil => cases ha
  | cons first rest ih =>
      obtain ⟨hfirst, hrest⟩ := List.pairwise_cons.mp h
      rcases List.mem_cons.mp ha with haf | har <;> rcases List.mem_cons.mp hb with hbf | hbr
      · rw [haf, hbf]
      · exact absurd hkey (haf ▸ hfirst b hbr (haf ▸ hca) hcb)
      · exact absurd hkey.symm (hbf ▸ hfirst a har (hbf ▸ hcb) hca)
      · exact ih hrest har hbr

/-- A unique key finds its row. -/
theorem find_eq {p : ρ → Bool} (h : Unique covers key rows) (hmem : row ∈ rows) (hp : p row = true)
    (honly : ∀ other ∈ rows, p other = true →
      covers other = true ∧ covers row = true ∧ key other = key row) :
    rows.find? p = some row := by
  cases hfind : rows.find? p with
  | none => exact absurd hp (List.find?_eq_none.mp hfind row hmem)
  | some found =>
      have hfound := List.mem_of_find?_eq_some hfind
      obtain ⟨hco, hcr, hkey⟩ := honly found hfound (List.find?_some hfind)
      rw [h.eq hfound hmem hco hcr hkey]

/-- A unique key counts once. -/
theorem countP_eq_one {p : ρ → Bool} {k : κ} (h : Unique covers key rows) (hmem : row ∈ rows)
    (hp : p row = true) (honly : ∀ other ∈ rows, p other = true → covers other = true ∧ key other = k) :
    rows.countP p = 1 := by
  induction rows with
  | nil => cases hmem
  | cons first rest ih =>
      obtain ⟨hfirst, hrest⟩ := List.pairwise_cons.mp h
      have honlyRest := fun other hother => honly other (List.mem_cons_of_mem first hother)
      by_cases hpf : p first = true
      · obtain ⟨hcf, hkf⟩ := honly first List.mem_cons_self hpf
        have hzero : rest.countP p = 0 := by
          refine List.countP_eq_zero.mpr fun other hother hpo => ?_
          obtain ⟨hco, hko⟩ := honlyRest other hother hpo
          exact hfirst other hother hcf hco (hkf.trans hko.symm)
        rw [List.countP_cons_of_pos hpf, hzero]
      · have hrow : row ∈ rest := by
          rcases List.mem_cons.mp hmem with rfl | hrow
          · exact absurd hp hpf
          · exact hrow
        rw [List.countP_cons_of_neg hpf]
        exact ih hrest hrow honlyRest

end Unique

/-- Room for a row whose key no covered row has. -/
theorem collides_eq_false [DecidableEq κ] {covers : ρ → Bool} {key : ρ → κ} {rows : List ρ} {row : ρ} :
    collides covers key rows row = false ↔
      (covers row = true → ∀ other ∈ rows, covers other = true → key other ≠ key row) := by
  cases hrow : covers row with
  | false => simp [collides, hrow]
  | true => simp [collides, hrow]

end Peerward.Lib
