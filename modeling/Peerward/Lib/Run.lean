import Mathlib

/-!
# Runs and their histories

A stateful component is a step function; a run is a list of operations, oldest first. Most of what
is worth saying about a run relates the state it reaches to the operations that led there, so the
induction principle below carries an invariant over both. `Happened` and `Along` say that some, or
every, operation of a run met a condition where it ran.
-/

namespace Peerward.Lib

variable {S Op : Type}

/-- The state a run reaches. -/
def exec (step : S → Op → S) (s : S) (ops : List Op) : S := ops.foldl step s

@[simp] theorem exec_nil (step : S → Op → S) (s : S) : exec step s [] = s := rfl

@[simp] theorem exec_concat (step : S → Op → S) (s : S) (ops : List Op) (op : Op) :
    exec step s (ops ++ [op]) = step (exec step s ops) op := by
  simp [exec]

theorem exec_cons (step : S → Op → S) (s : S) (op : Op) (ops : List Op) :
    exec step s (op :: ops) = exec step (step s op) ops := rfl

theorem exec_append (step : S → Op → S) (s : S) (ops ops' : List Op) :
    exec step s (ops ++ ops') = exec step (exec step s ops) ops' := by
  simp [exec]

/-- **Invariants over histories.** What holds before any operation, and is kept by one more
operation at the end of any history, holds after every run. -/
theorem exec_history {step : S → Op → S} {s : S} {I : List Op → S → Prop} (init : I [] s)
    (keep : ∀ ops op, I ops (exec step s ops) →
      I (ops ++ [op]) (step (exec step s ops) op)) (ops : List Op) :
    I ops (exec step s ops) := by
  induction ops using List.reverseRecOn with
  | nil => exact init
  | append_singleton ops op ih =>
      rw [exec_concat]
      exact keep ops op ih

/-- Invariants of the state alone. -/
theorem exec_invariant {step : S → Op → S} {s : S} {I : S → Prop} (init : I s)
    (keep : ∀ s op, I s → I (step s op)) (ops : List Op) : I (exec step s ops) :=
  exec_history (I := fun _ s => I s) init (fun _ op h => keep _ op h) ops

/-! ## Events of a run

Some invariants speak of what has happened, not only of the state. They are kept by induction on the
operations so far, and so are conditions that every step of a run is to meet.
-/

/-- Some operation of the run met `P` in the state it ran in. -/
def Happened (step : S → Op → S) (s : S) (P : S → Op → Prop) (ops : List Op) : Prop :=
  ∃ before op after, ops = before ++ op :: after ∧ P (exec step s before) op

/-- Every operation of the run met `P`, which may depend on the operations before it. -/
def Along (P : List Op → Op → Prop) (ops : List Op) : Prop :=
  ∀ before op after, ops = before ++ op :: after → P before op

/-- Where the last operation of a history stands when the history is cut in two. -/
theorem concat_eq_append_cons {ops before after : List Op} {op op' : Op}
    (h : ops ++ [op] = before ++ op' :: after) :
    (before = ops ∧ op' = op ∧ after = []) ∨ ∃ rest, ops = before ++ op' :: rest := by
  rcases List.eq_nil_or_concat after with rfl | ⟨rest, last, rfl⟩
  · obtain ⟨hops, hop⟩ := List.append_inj' h rfl
    exact .inl ⟨hops.symm, (List.cons.inj hop).1.symm, rfl⟩
  · rw [List.concat_eq_append, ← List.cons_append, ← List.append_assoc] at h
    exact .inr ⟨rest, List.append_inj_left' h rfl⟩

theorem happened_nil {step : S → Op → S} {s : S} {P : S → Op → Prop} :
    ¬ Happened step s P [] := by
  rintro ⟨before, op, after, h, -⟩
  simp at h

theorem happened_concat {step : S → Op → S} {s : S} {P : S → Op → Prop} {ops : List Op} {op : Op} :
    Happened step s P (ops ++ [op]) ↔ Happened step s P ops ∨ P (exec step s ops) op := by
  constructor
  · rintro ⟨before, op', after, h, hP⟩
    rcases concat_eq_append_cons h with ⟨rfl, rfl, -⟩ | ⟨rest, rfl⟩
    · exact .inr hP
    · exact .inl ⟨before, op', rest, rfl, hP⟩
  · rintro (⟨before, op', after, rfl, hP⟩ | hP)
    · exact ⟨before, op', after ++ [op], by simp, hP⟩
    · exact ⟨ops, op, [], rfl, hP⟩

theorem along_nil {P : List Op → Op → Prop} : Along P [] := by
  intro before op after h
  simp at h

theorem along_concat {P : List Op → Op → Prop} {ops : List Op} {op : Op} :
    Along P (ops ++ [op]) ↔ Along P ops ∧ P ops op := by
  constructor
  · intro h
    refine ⟨fun before op' after heq => h before op' (after ++ [op]) ?_, h ops op [] rfl⟩
    rw [heq, List.append_assoc, List.cons_append]
  · rintro ⟨hops, hop⟩ before op' after h
    rcases concat_eq_append_cons h with ⟨rfl, rfl, -⟩ | ⟨rest, rfl⟩
    · exact hop
    · exact hops before op' rest rfl

theorem Along.left {P : List Op → Op → Prop} {ops more : List Op} (h : Along P (ops ++ more)) :
    Along P ops := by
  intro before op after hops
  refine h before op (after ++ more) ?_
  rw [hops, List.append_assoc, List.cons_append]

theorem Along.mono {P Q : List Op → Op → Prop} {ops : List Op} (h : Along P ops)
    (hPQ : ∀ before op, P before op → Q before op) : Along Q ops :=
  fun before op after heq => hPQ before op (h before op after heq)

/-- Some operation of the run met `E`, and none after it met `R`. -/
def Since (step : S → Op → S) (s : S) (E R : S → Op → Prop) (ops : List Op) : Prop :=
  ∃ before op after, ops = before ++ op :: after ∧ E (exec step s before) op ∧
    Along (fun between op' => ¬ R (exec step s (before ++ op :: between)) op') after

theorem since_now {step : S → Op → S} {s : S} {E R : S → Op → Prop} {ops : List Op} {op : Op}
    (h : E (exec step s ops) op) : Since step s E R (ops ++ [op]) :=
  ⟨ops, op, [], rfl, h, along_nil⟩

theorem Since.concat {step : S → Op → S} {s : S} {E R : S → Op → Prop} {ops : List Op} {op : Op}
    (h : Since step s E R ops) (hop : ¬ R (exec step s ops) op) : Since step s E R (ops ++ [op]) := by
  obtain ⟨before, op', after, rfl, hE, halong⟩ := h
  exact ⟨before, op', after ++ [op], by simp, hE, along_concat.mpr ⟨halong, hop⟩⟩

/-- What one more operation makes of `Since`. -/
theorem since_concat {step : S → Op → S} {s : S} {E R : S → Op → Prop} {ops : List Op} {op : Op} :
    Since step s E R (ops ++ [op]) ↔
      E (exec step s ops) op ∨ Since step s E R ops ∧ ¬ R (exec step s ops) op := by
  constructor
  · rintro ⟨before, op', after, h, hE, halong⟩
    rcases List.eq_nil_or_concat after with rfl | ⟨rest, last, rfl⟩
    · obtain ⟨rfl, hop⟩ := List.append_inj' h rfl
      cases hop
      exact .inl hE
    · rw [List.concat_eq_append, ← List.cons_append, ← List.append_assoc] at h
      obtain ⟨rfl, hop⟩ := List.append_inj' h rfl
      cases hop
      rw [List.concat_eq_append, along_concat] at halong
      exact .inr ⟨⟨before, op', rest, rfl, hE, halong.1⟩, halong.2⟩
  · rintro (hE | ⟨hsince, hR⟩)
    · exact since_now hE
    · exact hsince.concat hR

/-- Histories whose operations all met `P` keep what such an operation keeps. -/
theorem along_history {P : List Op → Op → Prop} {I : List Op → Prop} (init : I [])
    (keep : ∀ ops op, P ops op → I ops → I (ops ++ [op])) {ops : List Op} (h : Along P ops) :
    I ops := by
  induction ops using List.reverseRecOn with
  | nil => exact init
  | append_singleton ops op ih =>
      obtain ⟨hops, hop⟩ := along_concat.mp h
      exact keep ops op hop (ih hops)

/-! ## Conditions and counts along a run

For conditions on the state alone the run can be followed from its start, so that a condition on a closed
run is decidable. Counts follow a run in the same way.
-/

/-- Every operation of the run meets `P` in the state it runs in. -/
def Throughout (step : S → Op → S) (P : S → Op → Prop) : S → List Op → Prop
  | _, [] => True
  | s, op :: ops => P s op ∧ Throughout step P (step s op) ops

instance Throughout.decidable (step : S → Op → S) (P : S → Op → Prop)
    [∀ s op, Decidable (P s op)] : ∀ s ops, Decidable (Throughout step P s ops)
  | _, [] => .isTrue trivial
  | s, op :: ops =>
    have := Throughout.decidable step P (step s op) ops
    inferInstanceAs (Decidable (_ ∧ _))

theorem along_cons {P : List Op → Op → Prop} {op : Op} {ops : List Op} :
    Along P (op :: ops) ↔ P [] op ∧ Along (fun before => P (op :: before)) ops := by
  constructor
  · intro h
    exact ⟨h [] op ops rfl, fun before op' after heq => h (op :: before) op' after (by rw [heq]; rfl)⟩
  · rintro ⟨hop, hops⟩ before op' after heq
    cases before with
    | nil =>
        obtain ⟨rfl, -⟩ := List.cons.inj heq
        exact hop
    | cons first before =>
        obtain ⟨hfirst, hrest⟩ := List.cons.inj heq
        subst hfirst
        exact hops before op' after hrest

/-- A condition on the state alone can be followed from the start of the run, and so decided. -/
theorem along_iff_throughout {step : S → Op → S} {P : S → Op → Prop} {s : S} {ops : List Op} :
    Along (fun before op => P (exec step s before) op) ops ↔ Throughout step P s ops := by
  induction ops generalizing s with
  | nil => exact iff_of_true along_nil trivial
  | cons op ops ih => rw [along_cons, Throughout, ← ih, exec_nil]; rfl

/-- How many operations of the run meet `p` in the state they run in. -/
def tally (step : S → Op → S) (p : S → Op → Bool) : S → List Op → Nat
  | _, [] => 0
  | s, op :: ops => (if p s op then 1 else 0) + tally step p (step s op) ops

/-- What the operations of the run gave, in order. -/
def gather {A : Type} (step : S → Op → S) (f : S → Op → List A) : S → List Op → List A
  | _, [] => []
  | s, op :: ops => f s op ++ gather step f (step s op) ops

theorem gather_map {A B : Type} (step : S → Op → S) (f : S → Op → List A) (g : List A → List B)
    (hnil : g [] = []) (happend : ∀ l l', g (l ++ l') = g l ++ g l') (s : S) (ops : List Op) :
    g (gather step f s ops) = gather step (fun s op => g (f s op)) s ops := by
  induction ops generalizing s with
  | nil => exact hnil
  | cons op ops ih => rw [gather, happend, ih, gather]

/-- **Conservation.** If every operation moves what comes in from the end of `held` to what goes out
at its front, so does a run. -/
theorem gather_conserves {A : Type} {step : S → Op → S} {incoming outgoing : S → Op → List A}
    {held : S → List A}
    (h : ∀ s op, held s ++ incoming s op = outgoing s op ++ held (step s op)) (s : S)
    (ops : List Op) :
    held s ++ gather step incoming s ops =
      gather step outgoing s ops ++ held (exec step s ops) := by
  induction ops generalizing s with
  | nil => simp [gather]
  | cons op ops ih =>
      rw [gather, gather, exec_cons, ← List.append_assoc, h, List.append_assoc, ih,
        ← List.append_assoc]

section Throughout

variable {step : S → Op → S} {P Q : S → Op → Prop} {s : S} {ops more : List Op}

theorem throughout_append :
    Throughout step P s (ops ++ more) ↔
      Throughout step P s ops ∧ Throughout step P (exec step s ops) more := by
  induction ops generalizing s with
  | nil => simp [Throughout]
  | cons op ops ih => rw [List.cons_append, Throughout, Throughout, ih, exec_cons, and_assoc]

theorem tally_append {p : S → Op → Bool} :
    tally step p s (ops ++ more) = tally step p s ops + tally step p (exec step s ops) more := by
  induction ops generalizing s with
  | nil => simp [tally]
  | cons op ops ih => rw [List.cons_append, tally, tally, ih, exec_cons, Nat.add_assoc]

theorem Throughout.mono (hPQ : ∀ s op, P s op → Q s op) (h : Throughout step P s ops) :
    Throughout step Q s ops := by
  induction ops generalizing s with
  | nil => trivial
  | cons op ops ih => exact ⟨hPQ s op h.1, ih h.2⟩

theorem Throughout.and (h : Throughout step P s ops) (h' : Throughout step Q s ops) :
    Throughout step (fun s op => P s op ∧ Q s op) s ops := by
  induction ops generalizing s with
  | nil => trivial
  | cons op ops ih => exact ⟨⟨h.1, h'.1⟩, ih h.2 h'.2⟩

/-- What operations that meet `P` keep, a run of them keeps. -/
theorem Throughout.keeps {I : S → Prop} (h : Throughout step P s ops)
    (keep : ∀ s op, I s → P s op → I (step s op)) (hI : I s) : I (exec step s ops) := by
  induction ops generalizing s with
  | nil => exact hI
  | cons op ops ih => exact ih h.2 (keep s op hI h.1)

/-- **Ranking a run.** If, until it is done, each operation that counts lowers the rank and each one
that costs raises it by at most `c`, then a run that is not done has had no more counting
operations than the rank it started with and the costs allow. -/
theorem Throughout.tally_add_rank_le {I D : S → Prop} {p q : S → Op → Bool} {r : S → Nat}
    {c : Nat} (keep : ∀ s op, I s → P s op → I (step s op))
    (keepDone : ∀ s op, I s → P s op → D s → D (step s op))
    (hrank : ∀ s op, I s → P s op → ¬ D s → (if p s op then 1 else 0) + r (step s op) ≤
      r s + c * (if q s op then 1 else 0))
    (h : Throughout step P s ops) (hI : I s) (hend : ¬ D (exec step s ops)) :
    tally step p s ops + r (exec step s ops) ≤ r s + c * tally step q s ops := by
  induction ops generalizing s with
  | nil => simp [tally]
  | cons op ops ih =>
      have hnot : ¬ D s := fun hdone => hend <|
        (Throughout.keeps (I := fun s => I s ∧ D s) h
          (fun s op hs hop => ⟨keep s op hs.1 hop, keepDone s op hs.1 hop hs.2⟩) ⟨hI, hdone⟩).2
      have hstep := hrank s op hI h.1 hnot
      have hrest := ih h.2 (keep s op hI h.1) hend
      rw [exec_cons, tally, tally, Nat.mul_add]
      omega

end Throughout

end Peerward.Lib
