import Mathlib

/-!
# Programs that may crash between two writes

A durable state changes by atomic writes. A program reads the state, decides, and writes, one write
after the other; where the process dies in between, the writes it has made stay. So a program is what
it writes from a state and what it returns, and a crash after `k` writes leaves the first `k` of them.

`Ensures s m C Q` is the triple for such programs: `C` holds of every state a crash of `m` can leave,
the first and the last included, and `Q` of what `m` returns and the state it ends in.
-/

namespace Peerward.Lib

/-- A state, and what an atomic write does to it. -/
class Disk (S : Type) (W : outParam Type) where
  write : S → W → S

section

variable {S W : Type} [Disk S W]

/-- The state after some writes. -/
def writes (s : S) (ws : List W) : S := ws.foldl Disk.write s

@[simp] theorem writes_nil (s : S) : writes s ([] : List W) = s := rfl

theorem writes_append (s : S) (ws ws' : List W) :
    writes s (ws ++ ws') = writes (writes s ws) ws' := by
  simp [writes]

end

/-- The writes a program makes from a state, and its result. -/
def Durable (S : Type) {W : Type} [Disk S W] (ε α : Type) : Type := S → List W × Except ε α

namespace Durable

variable {S W ε α β : Type} [Disk S W]

/-- The program after a result, in the state the writes so far have led to. -/
def andThen (m : Durable S ε α) (f : α → Durable S ε β) : Durable S ε β := fun s =>
  match (m s).2 with
  | .error error => ((m s).1, .error error)
  | .ok a => ((m s).1 ++ (f a (writes s (m s).1)).1, (f a (writes s (m s).1)).2)

instance : Monad (Durable S ε) where
  pure a := fun _ => ([], .ok a)
  bind := andThen

/-- A decision on the state, which writes nothing. -/
def ask (f : S → Except ε α) : Durable S ε α := fun s => ([], f s)

/-- One write. -/
def put (w : W) : Durable S ε Unit := fun _ => ([w], .ok ())

def fail (error : ε) : Durable S ε α := ask fun _ => .error error

/-- A program whose error is a value. -/
def attempt (m : Durable S ε α) : Durable S ε (Except ε α) := fun s => ((m s).1, .ok (m s).2)

/-- The state a program ends in. -/
def run (m : Durable S ε α) (s : S) : S := writes s (m s).1

/-- The state a crash after `k` writes leaves. -/
def crash (m : Durable S ε α) (k : Nat) (s : S) : S := writes s ((m s).1.take k)

theorem crash_of_length_le {m : Durable S ε α} {s : S} {k : Nat} (h : (m s).1.length ≤ k) :
    m.crash k s = m.run s := by
  rw [crash, run, List.take_of_length_le h]

@[simp] theorem crash_zero (m : Durable S ε α) (s : S) : m.crash 0 s = s := rfl

/-! ## Triples

A crash may come after any write, so a triple says two things: what every prefix of the writes leaves, and
what the whole program returns and leaves. Sequencing composes both.
-/

/-- Every state a crash can leave meets `C`, the result and the last state meet `Q`. -/
def Ensures (s : S) (m : Durable S ε α) (C : S → Prop) (Q : Except ε α → S → Prop) : Prop :=
  (∀ k, C (m.crash k s)) ∧ Q (m s).2 (m.run s)

variable {s : S} {m : Durable S ε α} {f : α → Durable S ε β} {C C' : S → Prop}
  {Q Q' : Except ε α → S → Prop} {R : Except ε β → S → Prop}

theorem Ensures.crash (h : Ensures s m C Q) (k : Nat) : C (m.crash k s) := h.1 k

theorem Ensures.run (h : Ensures s m C Q) : C (m.run s) := by
  rw [← crash_of_length_le (Nat.le_refl _)]
  exact h.1 _

theorem Ensures.mono (h : Ensures s m C Q) (hC : ∀ t, C t → C' t) (hQ : ∀ r t, Q r t → Q' r t) :
    Ensures s m C' Q' :=
  ⟨fun k => hC _ (h.1 k), hQ _ _ h.2⟩

theorem ensures_ask {g : S → Except ε α} (hC : C s) (hQ : Q (g s) s) : Ensures s (ask g) C Q := by
  refine ⟨fun k => ?_, hQ⟩
  rw [Durable.crash, ask, List.take_nil]
  exact hC

theorem ensures_pure {a : α} (hC : C s) (hQ : Q (.ok a) s) : Ensures s (pure a) C Q :=
  ensures_ask (g := fun _ => .ok a) hC hQ

theorem ensures_fail {error : ε} (hC : C s) (hQ : Q (.error error) s) :
    Ensures s (fail error) C Q :=
  ensures_ask hC hQ

theorem ensures_put {w : W} {Q : Except ε Unit → S → Prop} (hC : C s) (hC' : C (Disk.write s w))
    (hQ : Q (.ok ()) (Disk.write s w)) : Ensures s (put w) C Q := by
  refine ⟨fun k => ?_, hQ⟩
  cases k with
  | zero => exact hC
  | succ k =>
      rw [Durable.crash, put, List.take_succ_cons, List.take_nil]
      exact hC'

theorem ensures_attempt {R : Except ε (Except ε α) → S → Prop}
    (h : Ensures s m C fun r t => R (.ok r) t) : Ensures s (attempt m) C R := h

/-- The rule for sequencing: an error skips the rest. -/
theorem ensures_bind (h : Ensures s m C fun r t => match r with
    | .error error => R (.error error) t
    | .ok a => Ensures t (f a) C R) : Ensures s (m >>= f) C R := by
  obtain ⟨hcrash, hend⟩ := h
  have hbind : (m >>= f) s = andThen m f s := rfl
  cases hresult : (m s).2 with
  | error error =>
      rw [hresult] at hend
      have hboth : (m >>= f) s = ((m s).1, .error error) := by rw [hbind, andThen, hresult]
      refine ⟨fun k => ?_, ?_⟩
      · rw [Durable.crash, hboth]
        exact hcrash k
      · rw [Durable.run, hboth]
        exact hend
  | ok a =>
      rw [hresult] at hend
      have hboth : (m >>= f) s =
          ((m s).1 ++ (f a (m.run s)).1, (f a (m.run s)).2) := by
        rw [hbind, andThen, hresult]
        rfl
      refine ⟨fun k => ?_, ?_⟩
      · rw [Durable.crash, hboth, List.take_append, writes_append]
        by_cases hk : k ≤ (m s).1.length
        · rw [Nat.sub_eq_zero_of_le hk, List.take_zero, writes_nil]
          exact hcrash k
        · rw [List.take_of_length_le (Nat.le_of_not_le hk)]
          exact hend.1 (k - (m s).1.length)
      · rw [Durable.run, hboth, writes_append]
        exact hend.2

/-! ## Counting writes

A file that is written once is, after a crash, as before or as afterwards. So much is known without looking
at what is written.
-/

/-- A program makes at most `n` writes of some kind. -/
def AtMost (p : W → Bool) (n : Nat) (m : Durable S ε α) : Prop := ∀ s, (m s).1.countP p ≤ n

variable {p : W → Bool} {n a b : Nat}

/-- Writes of another kind do not change what `g` sees. -/
theorem writes_unseen {β : Type} {g : S → β} (hg : ∀ s w, p w = false → g (Disk.write s w) = g s)
    {ws : List W} (hws : ws.countP p = 0) (s : S) : g (writes s ws) = g s := by
  induction ws generalizing s with
  | nil => rfl
  | cons w ws ih =>
      have hnone := List.countP_eq_zero.mp hws
      have hw : p w = false := Bool.eq_false_iff.mpr (hnone w List.mem_cons_self)
      have hrest : ws.countP p = 0 :=
        List.countP_eq_zero.mpr fun w' hw' => hnone w' (List.mem_cons_of_mem w hw')
      exact (ih hrest _).trans (hg s w hw)

/-- **Atomicity**: what changes with one write only is, after a crash, as it was or as it will be. -/
theorem AtMost.crash {β : Type} (hm : AtMost p 1 m) (g : S → β)
    (hg : ∀ s w, p w = false → g (Disk.write s w) = g s) (k : Nat) (s : S) :
    g (m.crash k s) = g s ∨ g (m.crash k s) = g (m.run s) := by
  have hsplit : ((m s).1.take k).countP p + ((m s).1.drop k).countP p ≤ 1 := by
    rw [← List.countP_append, List.take_append_drop]
    exact hm s
  by_cases hfirst : ((m s).1.take k).countP p = 0
  · exact .inl (writes_unseen hg hfirst s)
  · right
    have hrest : ((m s).1.drop k).countP p = 0 := by omega
    have hrun : m.run s = writes (m.crash k s) ((m s).1.drop k) := by
      rw [Durable.run, Durable.crash, ← writes_append, List.take_append_drop]
    rw [hrun]
    exact (writes_unseen hg hrest _).symm

end Durable

end Peerward.Lib
