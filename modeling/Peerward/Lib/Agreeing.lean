import Mathlib.Data.List.Basic
import Peerward.Lib.Decoder
import Peerward.Lib.Ordered

/-!
# Maps merged from several sources

`BTreeMap::insert` that refuses a second, different value for a key. A loop of such inserts succeeds
exactly when its entries agree, and then the map holds these entries and nothing else; the order of
the entries shows in neither.
-/

namespace Peerward.Lib

open Std

variable {κ β ε : Type} [Ord κ]

/-- `if let Some(existing) = entries.insert(key, value) && existing != value` fails. -/
def insertAgreeing [TransOrd κ] [DecidableEq β] (conflict : ε) (entries : ExtTreeMap κ β)
    (entry : κ × β) : Except ε (ExtTreeMap κ β) :=
  if entries[entry.1]?.any (· ≠ entry.2) then .error conflict
  else .ok (entries.insert entry.1 entry.2)

/-- No key has two values. -/
def Agree (entries : List (κ × β)) : Prop :=
  ∀ first ∈ entries, ∀ second ∈ entries, first.1 = second.1 → first.2 = second.2

omit [Ord κ] in
theorem Agree.subset {entries larger : List (κ × β)} (h : Agree larger) (hsub : entries ⊆ larger) :
    Agree entries :=
  fun first hfirst second hsecond => h first (hsub hfirst) second (hsub hsecond)

variable [TransOrd κ]

/-- The map has exactly these entries. -/
def Lists (map : ExtTreeMap κ β) (entries : List (κ × β)) : Prop :=
  ∀ key value, map[key]? = some value ↔ (key, value) ∈ entries

namespace Lists

theorem empty : Lists (∅ : ExtTreeMap κ β) [] := fun key value => by simp

variable {map other : ExtTreeMap κ β} {entries : List (κ × β)}

theorem agree (h : Lists map entries) : Agree entries := by
  rintro ⟨key, value⟩ hfirst ⟨_, value'⟩ hsecond rfl
  have hvalue := (h key value).mpr hfirst
  rw [(h key value').mpr hsecond] at hvalue
  exact (Option.some.inj hvalue).symm

variable [LawfulEqOrd κ]

/-- The entries determine the map, in whatever order they were collected. -/
theorem unique {entries' : List (κ × β)} (h : Lists map entries) (h' : Lists other entries')
    (hsame : ∀ entry, entry ∈ entries ↔ entry ∈ entries') : map = other := by
  refine ExtTreeMap.ext_getElem? fun key => Option.ext fun value => ?_
  rw [h key value, h' key value, hsame]

variable {entry : κ × β}

theorem insert (h : Lists map entries) (hagree : Agree (entries ++ [entry])) :
    Lists (map.insert entry.1 entry.2) (entries ++ [entry]) := by
  intro key value
  rw [ExtTreeMap.getElem?_insert, List.mem_append, List.mem_singleton]
  by_cases hkey : entry.1 = key
  · rw [if_pos (LawfulEqOrd.compare_eq_iff_eq.mpr hkey), Option.some.injEq]
    constructor
    · intro hvalue
      exact .inr (by rw [← hkey, ← hvalue])
    · rintro (hmem | rfl)
      · exact hagree entry (by simp) (key, value) (by simp [hmem]) hkey
      · rfl
  · rw [if_neg (fun heq => hkey (LawfulEqOrd.eq_of_compare heq)), h key value]
    exact ⟨.inl, fun hmem => hmem.resolve_right fun heq => hkey (by rw [← heq])⟩

variable [DecidableEq β] {conflict : ε}

omit [LawfulEqOrd κ] in
/-- One insert: it fails exactly when its entry disagrees with an earlier one. -/
theorem insertAgreeing_eq_ok (h : Lists map entries) :
    insertAgreeing conflict map entry = .ok other ↔
      Agree (entries ++ [entry]) ∧ other = map.insert entry.1 entry.2 := by
  have hany : (map[entry.1]?.any (· ≠ entry.2) : Bool) = false ↔ Agree (entries ++ [entry]) := by
    rw [Option.any_eq_false_iff_get]
    constructor
    · intro hany
      -- two entries of the old list agree; the new one is compared with the stored value
      have hnew : ∀ old ∈ entries, old.1 = entry.1 → old.2 = entry.2 := by
        intro old hold hkey
        have hget := (h old.1 old.2).mpr hold
        rw [hkey] at hget
        simpa [hget] using hany
      intro first hfirst second hsecond hkey
      rw [List.mem_append, List.mem_singleton] at hfirst hsecond
      rcases hfirst with hfirst | rfl <;> rcases hsecond with hsecond | rfl
      · exact h.agree first hfirst second hsecond hkey
      · exact hnew first hfirst hkey
      · exact (hnew second hsecond hkey.symm).symm
      · rfl
    · intro hagree hsome
      obtain ⟨value, hvalue⟩ := Option.isSome_iff_exists.mp hsome
      have hmem := (h entry.1 value).mp hvalue
      have heq := hagree (entry.1, value) (by simp [hmem]) entry (by simp) rfl
      simpa [hvalue] using heq
  unfold insertAgreeing
  rw [← hany]
  cases (map[entry.1]?.any (· ≠ entry.2) : Bool) <;> simp [eq_comm]

/-- The whole loop. -/
theorem foldlM_eq_ok {new : List (κ × β)} (h : Lists map entries)
    (hok : new.foldlM (insertAgreeing conflict) map = .ok other) : Lists other (entries ++ new) := by
  induction new generalizing map entries with
  | nil => simpa [← Except.ok.inj hok] using h
  | cons entry new ih =>
      obtain ⟨next, hnext, hok⟩ := bind_eq_ok.mp hok
      obtain ⟨hagree, rfl⟩ := h.insertAgreeing_eq_ok.mp hnext
      simpa using ih (h.insert hagree) hok

/-- Entries that agree can all be inserted. -/
theorem exists_foldlM (conflict : ε) {new : List (κ × β)} (h : Lists map entries)
    (hagree : Agree (entries ++ new)) : ∃ other, new.foldlM (insertAgreeing conflict) map = .ok other := by
  induction new generalizing map entries with
  | nil => exact ⟨map, rfl⟩
  | cons entry new ih =>
      have hfirst : Agree (entries ++ [entry]) := hagree.subset fun e he => by
        simp only [List.mem_append, List.mem_cons] at he ⊢
        tauto
      obtain ⟨other, hother⟩ := ih (h.insert hfirst) (by simpa using hagree)
      exact ⟨other, bind_eq_ok.mpr ⟨_, h.insertAgreeing_eq_ok.mpr ⟨hfirst, rfl⟩, hother⟩⟩

end Lists

end Peerward.Lib
