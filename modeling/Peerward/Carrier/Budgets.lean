import Peerward.Lib.Intervals
import Peerward.Carrier.FragmentSteps

/-!
# Shared reassembly budgets

Every connection of a relay charges its incomplete frames to one process budget and to the budget of
its mesh. A reassembler is run here on the budgets as they stand and leaves them as it changed them;
`Accounted` says what it holds of the two, the rest of which others hold, and every operation keeps
it. What all connections hold is then the whole of a budget.
-/

namespace Peerward.Carrier

open Std Peerward.Lib

/-- A budget of which `size` more is reserved. -/
def Budget.plus (budget : Budget) (size : Nat) : Budget :=
  { budget with used := budget.used + size }

theorem Budget.reserve_eq_some {budget next : Budget} {size : Nat} :
    budget.reserve size = some next ↔ budget.used + size ≤ budget.limit ∧ next = budget.plus size := by
  simp [Budget.reserve, Budget.plus, eq_comm]

theorem Budget.release_plus (budget : Budget) (size rest : Nat) :
    (budget.plus (size + rest)).release size = budget.plus rest := by
  simp only [Budget.release, Budget.plus, Budget.mk.injEq, true_and]
  omega

@[simp] theorem Budget.plus_zero (budget : Budget) : budget.plus 0 = budget := rfl

theorem Budget.plus_plus (budget : Budget) (size more : Nat) :
    (budget.plus size).plus more = budget.plus (more + size) := by
  simp only [Budget.plus, Budget.mk.injEq, true_and]
  omega

namespace Reassembler

/-! ## What one reassembler holds

`Accounted` is said of one connection beside whatever the others hold, so that it can be kept by a call
without looking at them.
-/

/-- The sizes its live frames have reserved. -/
def reserved (r : Reassembler) : Nat := total Partial.reserved r.frames

/-- The lengths of the data of its live frames. -/
def held (r : Reassembler) : Nat := total (fun frame => frame.data.length) r.frames

/-- The bounds of one connection, whatever the budgets are. -/
structure Sized (r : Reassembler) : Prop where
  reserved_eq : ∀ ⦃id : Nat⦄ ⦃frame : Partial⦄,
    r.frames[id]? = some frame → frame.reserved = frame.data.length
  buffered_eq : r.buffered = r.held
  size_le : r.frames.size ≤ MAX_INCOMPLETE
  buffered_le : r.buffered ≤ MAX_BUFFERED

/-- Of each budget the reassembler holds what its frames have reserved, where others hold `process`
and `mesh`. -/
structure Accounted (process mesh : Budget) (r : Reassembler) : Prop extends Sized r where
  process_eq : r.process = process.plus r.reserved
  mesh_eq : r.mesh = mesh.plus r.reserved
  process_le : r.process.used ≤ r.process.limit
  mesh_le : r.mesh.used ≤ r.mesh.limit

variable {process mesh : Budget} {r : Reassembler}

/-- Retirement is no matter of accounting. -/
theorem Accounted.retired (h : Accounted process mesh r) (retired : Retired) :
    Accounted process mesh { r with retired } where
  reserved_eq := h.reserved_eq
  buffered_eq := h.buffered_eq
  size_le := h.size_le
  buffered_le := h.buffered_le
  process_eq := h.process_eq
  mesh_eq := h.mesh_eq
  process_le := h.process_le
  mesh_le := h.mesh_le

theorem Accounted.remove (h : Accounted process mesh r) (id : Nat) :
    Accounted process mesh (r.remove id) := by
  unfold Reassembler.remove
  split
  · exact h
  · next frame hframe =>
    have hheld := total_erase (fun frame : Partial => frame.data.length) hframe
    have hreserved := total_erase Partial.reserved hframe
    have hprocess : r.process = process.plus (frame.reserved + total Partial.reserved (r.frames.erase id)) := by
      rw [hreserved]
      exact h.process_eq
    have hmesh : r.mesh = mesh.plus (frame.reserved + total Partial.reserved (r.frames.erase id)) := by
      rw [hreserved]
      exact h.mesh_eq
    have hbuffered := h.buffered_eq
    rw [held] at hbuffered
    refine ⟨⟨?_, ?_, ?_, ?_⟩, ?_, ?_, ?_, ?_⟩
    · intro k other hother
      rw [ExtTreeMap.getElem?_erase] at hother
      split at hother
      · cases hother
      · exact h.reserved_eq hother
    · simp only [held]
      omega
    · exact (ExtTreeMap.size_erase_le).trans h.size_le
    · exact (Nat.sub_le _ _).trans h.buffered_le
    · simp only [hprocess, Budget.release_plus, reserved]
    · simp only [hmesh, Budget.release_plus, reserved]
    · exact (Nat.sub_le _ _).trans h.process_le
    · exact (Nat.sub_le _ _).trans h.mesh_le

theorem Accounted.retire (h : Accounted process mesh r) (id : Nat) :
    Accounted process mesh (r.retire id) := (h.remove id).retired _

theorem Accounted.expire (h : Accounted process mesh r) (now : Nat) :
    Accounted process mesh (r.expire now) := by
  show Accounted process mesh (exec Reassembler.retire r (r.overdueIds now))
  exact exec_invariant h (fun _ id hr => hr.retire id) _

theorem Accounted.clear (h : Accounted process mesh r) : Accounted process mesh r.clear := by
  have hrelease : ∀ b : Budget, (b.plus r.reserved).release r.reserved = b := by
    intro b
    simpa using b.release_plus r.reserved 0
  have hclear : r.clear = { r with
      frames := ∅, buffered := 0, process := process, mesh := mesh } := by
    rw [Reassembler.clear]
    simp only [Reassembler.mk.injEq, true_and]
    exact ⟨by rw [h.process_eq]; exact hrelease process, by rw [h.mesh_eq]; exact hrelease mesh⟩
  have hprocess := h.process_le
  have hmesh := h.mesh_le
  rw [h.process_eq] at hprocess
  rw [h.mesh_eq] at hmesh
  rw [hclear]
  exact ⟨⟨by simp, rfl, by simp, by simp⟩, rfl, rfl, (Nat.le_add_right _ _).trans hprocess,
    (Nat.le_add_right _ _).trans hmesh⟩

/-! ## Pushes

A push is a sweep and then at most one new reservation in each budget. The two are made in order, and the
second failing drops the first.
-/

theorem reserve_eq_some {size : Nat} {budgets : Budget × Budget}
    (h : r.reserve size = some budgets) :
    r.frames.size < MAX_INCOMPLETE ∧ r.buffered + size ≤ MAX_BUFFERED ∧
      r.process.reserve size = some budgets.1 ∧ r.mesh.reserve size = some budgets.2 := by
  unfold Reassembler.reserve at h
  split at h
  · cases h
  · next hfree =>
    simp only [Option.bind_eq_bind, Option.bind_eq_some_iff] at h
    obtain ⟨p, hp, m, hm, heq⟩ := h
    cases heq
    exact ⟨by omega, by omega, hp, hm⟩

theorem Accounted.opened (h : Accounted process mesh r) {header : Header} (now : Nat)
    {budgets : Budget × Budget} (hfree : r.frames[header.id]? = none)
    (hreserve : r.reserve header.total = some budgets) :
    Accounted process mesh (r.opened header now budgets) := by
  obtain ⟨hsize, hbuffered, hprocess, hmesh⟩ := reserve_eq_some hreserve
  obtain ⟨hprocess, hp⟩ := Budget.reserve_eq_some.mp hprocess
  obtain ⟨hmesh, hm⟩ := Budget.reserve_eq_some.mp hmesh
  have hreserved : (r.opened header now budgets).reserved = header.total + r.reserved :=
    total_insert_fresh _ _ hfree
  have hheld : (r.opened header now budgets).held = header.total + r.held := by
    refine (total_insert_fresh _ _ hfree).trans ?_
    simp only [fresh, List.length_replicate, held]
  refine ⟨⟨?_, ?_, ?_, hbuffered⟩, ?_, ?_, ?_, ?_⟩
  · intro k frame hframe
    simp only [Reassembler.opened, ExtTreeMap.getElem?_insert] at hframe
    split at hframe
    · cases hframe
      simp [fresh]
    · exact h.reserved_eq hframe
  · rw [hheld, ← h.buffered_eq]
    exact Nat.add_comm _ _
  · exact (ExtTreeMap.size_insert_le).trans hsize
  · rw [hreserved, ← Budget.plus_plus, ← h.process_eq]
    exact hp
  · rw [hreserved, ← Budget.plus_plus, ← h.mesh_eq]
    exact hm
  · simp only [Reassembler.opened, hp]
    exact hprocess
  · simp only [Reassembler.opened, hm]
    exact hmesh

/-- A body that lies inside its frame changes none of its sizes. -/
theorem Accounted.filled (h : Accounted process mesh r) {header : Header} {body : Bytes}
    {frame : Partial} (hframe : r.frames[header.id]? = some frame)
    (hfits : header.index * header.stride + body.length ≤ frame.data.length) :
    Accounted process mesh
      { r with frames := r.frames.insert header.id (fill frame header body) } := by
  have hlength : (fill frame header body).data.length = frame.data.length := length_overwrite hfits
  have hheld : total (fun frame : Partial => frame.data.length)
      (r.frames.insert header.id (fill frame header body)) = r.held := by
    rw [total_insert, hlength, held]
    exact total_erase (fun frame : Partial => frame.data.length) hframe
  have hreserved : total Partial.reserved
      (r.frames.insert header.id (fill frame header body)) = r.reserved := by
    have hsame : (fill frame header body).reserved = frame.reserved := rfl
    rw [total_insert, hsame]
    exact total_erase Partial.reserved hframe
  have hmem : r.frames.contains header.id = true := by
    rw [ExtTreeMap.contains_eq_isSome_getElem?, hframe]
    rfl
  refine ⟨⟨?_, ?_, ?_, h.buffered_le⟩, ?_, ?_, h.process_le, h.mesh_le⟩
  · intro k other hother
    simp only [ExtTreeMap.getElem?_insert] at hother
    split at hother
    · cases hother
      rw [hlength]
      exact h.reserved_eq hframe
    · exact h.reserved_eq hother
  · rw [held, hheld]
    exact h.buffered_eq
  · simp only [ExtTreeMap.size_insert, hmem, if_true]
    exact h.size_le
  · rw [reserved, hreserved]
    exact h.process_eq
  · rw [reserved, hreserved]
    exact h.mesh_eq

theorem Accounted.accept (h : Accounted process mesh r) {header : Header} {body : Bytes}
    {frame : Partial} (hindex : header.index < 64) (hframe : r.frames[header.id]? = some frame)
    (hfits : header.index * header.stride + body.length ≤ frame.data.length) :
    Accounted process mesh (r.accept header body frame).2 := by
  generalize hr : r.accept header body frame = result
  have hcases := hr ▸ accepted r frame hindex
  cases hcases with
  | conflict _ _ => exact h.retire _
  | duplicate _ _ => exact h
  | stored _ _ => exact h.filled hframe hfits
  | completed _ _ => exact (h.filled hframe hfits).retire _

theorem Accounted.push (h : Accounted process mesh r) (bytes : Bytes) (now : Nat) :
    Accounted process mesh (r.push bytes now).2 := by
  have hswept := h.expire now
  generalize hr : r.push bytes now = result
  have hcases := hr ▸ pushed r bytes now
  cases hcases with
  | malformed _ => exact hswept
  | retired _ _ => exact hswept
  | conflict _ _ _ _ => exact hswept.retire _
  | refused _ _ _ _ => exact hswept.retired _
  | joined hparse _ hframe hfits =>
      have hlength := (Header.parse_eq_ok hparse).2.fits_total
      simp only [fits, Bool.and_eq_true, decide_eq_true_eq] at hfits
      exact hswept.accept (index_lt_of_parse hparse) hframe (by rw [hfits.1.1]; exact hlength)
  | opened hparse _ hfree hreserve =>
      have hlength := (Header.parse_eq_ok hparse).2.fits_total
      refine (hswept.opened now hfree hreserve).accept (index_lt_of_parse hparse) ?_ ?_
      · simp [Reassembler.opened]
      · simpa [fresh] using hlength

end Reassembler

/-! ## Connections that share the budgets

A call loads the budgets as they stand, runs, and stores them back. `Exact` sums what the connections hold;
taking one connection out of the sum gives the rest that `Accounted` is said beside.
-/

/-- A connection is charged to the budget of its mesh. -/
structure Connection (M : Type) where
  mesh : M
  reassembler : Reassembler

/-- The shared budgets, and the connections by a number of their own. -/
structure Budgets (M : Type) where
  process : Budget
  mesh : M → Budget
  connections : ExtTreeMap Nat (Connection M) := ∅

namespace Budgets

variable {M : Type} [DecidableEq M]

/-- `Budget::new` for the process and for every mesh. -/
def new (process : Nat) (mesh : M → Nat) : Budgets M where
  process := { limit := process, used := 0 }
  mesh m := { limit := mesh m, used := 0 }

/-- The reassembler of a connection, on the budgets as they stand. -/
def load (s : Budgets M) (connection : Connection M) : Reassembler :=
  { connection.reassembler with process := s.process, mesh := s.mesh connection.mesh }

/-- Puts a reassembler back, with what it did to the budgets. -/
def store (s : Budgets M) (i : Nat) (mesh : M) (reassembler : Reassembler) : Budgets M where
  process := reassembler.process
  mesh := Function.update s.mesh mesh reassembler.mesh
  connections := s.connections.insert i { mesh, reassembler }

/-- One call on the reassembler of a connection. -/
def call (s : Budgets M) (i : Nat) (f : Reassembler → Reassembler) : Budgets M :=
  match s.connections[i]? with
  | none => s
  | some connection => s.store i connection.mesh (f (s.load connection))

inductive Op (M : Type) where
  /-- `Reassembler::new`, under a number not in use. -/
  | connect (i : Nat) (mesh : M)
  | push (i : Nat) (bytes : Bytes) (now : Nat)
  | expire (i : Nat) (now : Nat)
  | clear (i : Nat)
  /-- Dropping a reassembler drops its frames, and with them their reservations. -/
  | drop (i : Nat)

def step (s : Budgets M) : Op M → Budgets M
  | .connect i mesh =>
    if s.connections.contains i then s
    else s.store i mesh (.new s.process (s.mesh mesh))
  | .push i bytes now => s.call i fun r => (r.push bytes now).2
  | .expire i now => s.call i fun r => r.expire now
  | .clear i => s.call i Reassembler.clear
  | .drop i =>
    let s := s.call i Reassembler.clear
    { s with connections := s.connections.erase i }

def run (s : Budgets M) (ops : List (Op M)) : Budgets M := exec step s ops

/-- What a connection holds of the budget of `mesh`. -/
def charge (mesh : M) (connection : Connection M) : Nat :=
  if connection.mesh = mesh then connection.reassembler.reserved else 0

/-- What the live frames of all connections have reserved. -/
def processCharge (s : Budgets M) : Nat :=
  total (fun connection => connection.reassembler.reserved) s.connections

/-- What the live frames charged to `mesh` have reserved. -/
def meshCharge (s : Budgets M) (mesh : M) : Nat := total (charge mesh) s.connections

/-- Every connection keeps its bounds, and each budget stands at what is charged to it. -/
structure Exact (limit : Nat) (limits : M → Nat) (s : Budgets M) : Prop where
  sized : ∀ ⦃i : Nat⦄ ⦃connection : Connection M⦄,
    s.connections[i]? = some connection → connection.reassembler.Sized
  process_eq : s.process = ⟨limit, s.processCharge⟩
  mesh_eq : ∀ mesh, s.mesh mesh = ⟨limits mesh, s.meshCharge mesh⟩
  process_le : s.processCharge ≤ limit
  mesh_le : ∀ mesh, s.meshCharge mesh ≤ limits mesh

variable {limit : Nat} {limits : M → Nat} {s : Budgets M}

theorem Exact.new : (new limit limits).Exact limit limits where
  sized := by
    intro i connection h
    simp [Budgets.new] at h
  process_eq := rfl
  mesh_eq _ := rfl
  process_le := Nat.zero_le _
  mesh_le _ := Nat.zero_le _

/-- What others than connection `i` hold of the process budget. -/
def processRest (s : Budgets M) (i : Nat) : Nat :=
  total (fun connection => connection.reassembler.reserved) (s.connections.erase i)

/-- What others than connection `i` hold of the budget of `mesh`. -/
def meshRest (s : Budgets M) (i : Nat) (mesh : M) : Nat :=
  total (charge mesh) (s.connections.erase i)

/-- A reassembler that is accounted for beside all others can be put in its place. -/
theorem Exact.store (h : s.Exact limit limits) {i : Nat} {mesh : M} {r : Reassembler}
    (hothers : ∀ other, other ≠ mesh → s.meshRest i other = s.meshCharge other)
    (hr : r.Accounted ⟨limit, s.processRest i⟩ ⟨limits mesh, s.meshRest i mesh⟩) :
    (s.store i mesh r).Exact limit limits := by
  have hprocess : (s.store i mesh r).processCharge = r.reserved + s.processRest i :=
    total_insert _ _ _ _
  have hcharge : ∀ other, (s.store i mesh r).meshCharge other =
      (if mesh = other then r.reserved else 0) + s.meshRest i other :=
    fun other => total_insert _ _ _ _
  have hown : (s.store i mesh r).meshCharge mesh = r.reserved + s.meshRest i mesh := by
    rw [hcharge, if_pos rfl]
  have hkept : ∀ other, other ≠ mesh → (s.store i mesh r).meshCharge other = s.meshCharge other := by
    intro other hne
    rw [hcharge, if_neg hne.symm, Nat.zero_add, hothers other hne]
  have hp := hr.process_eq
  have hm := hr.mesh_eq
  have hple := hr.process_le
  have hmle := hr.mesh_le
  rw [hp] at hple
  rw [hm] at hmle
  simp only [Budget.plus] at hp hm hple hmle
  refine ⟨?_, ?_, ?_, by omega, ?_⟩
  · intro k connection hk
    simp only [Budgets.store, ExtTreeMap.getElem?_insert] at hk
    split at hk
    · cases hk
      exact hr.toSized
    · exact h.sized hk
  · rw [hprocess, Nat.add_comm]
    exact hp
  · intro other
    by_cases hother : other = mesh
    · subst hother
      rw [hown, Nat.add_comm]
      simpa [Budgets.store] using hm
    · rw [hkept other hother, ← h.mesh_eq other]
      simp [Budgets.store, hother]
  · intro other
    by_cases hother : other = mesh
    · subst hother
      omega
    · rw [hkept other hother]
      exact h.mesh_le other

/-- A connection on the budgets as they stand is accounted for beside the others. -/
theorem Exact.load (h : s.Exact limit limits) {i : Nat} {connection : Connection M}
    (hi : s.connections[i]? = some connection) :
    (s.load connection).Accounted ⟨limit, s.processRest i⟩
      ⟨limits connection.mesh, s.meshRest i connection.mesh⟩ := by
  have hsized := h.sized hi
  have hreserved : (s.load connection).reserved = connection.reassembler.reserved := rfl
  have hprocess : connection.reassembler.reserved + s.processRest i = s.processCharge :=
    total_erase (fun connection : Connection M => connection.reassembler.reserved) hi
  have hmesh := total_erase (charge connection.mesh) hi
  rw [charge, if_pos rfl] at hmesh
  refine ⟨⟨hsized.reserved_eq, hsized.buffered_eq, hsized.size_le, hsized.buffered_le⟩, ?_, ?_, ?_, ?_⟩
  · rw [hreserved, Budget.plus, Nat.add_comm, hprocess]
    exact h.process_eq
  · rw [hreserved, Budget.plus, Nat.add_comm, meshRest, hmesh]
    exact h.mesh_eq _
  · simp only [Budgets.load, h.process_eq]
    exact h.process_le
  · simp only [Budgets.load, h.mesh_eq]
    exact h.mesh_le _

theorem Exact.call (h : s.Exact limit limits) (i : Nat) {f : Reassembler → Reassembler}
    (hf : ∀ {process mesh : Budget} {r : Reassembler},
      r.Accounted process mesh → (f r).Accounted process mesh) :
    (s.call i f).Exact limit limits := by
  unfold Budgets.call
  split
  · exact h
  · next connection hi =>
    refine h.store ?_ (hf (h.load hi))
    intro other hne
    have herase := total_erase (charge other) hi
    rwa [charge, if_neg hne.symm, Nat.zero_add] at herase

theorem Exact.connect (h : s.Exact limit limits) {i : Nat} (mesh : M)
    (hfree : s.connections[i]? = none) :
    (s.store i mesh (.new s.process (s.mesh mesh))).Exact limit limits := by
  have hrest : s.processRest i = s.processCharge := total_erase_none _ hfree
  have hmesh : ∀ mesh, s.meshRest i mesh = s.meshCharge mesh := fun mesh => total_erase_none _ hfree
  refine h.store (fun other _ => hmesh other) ?_
  rw [hrest, hmesh, ← h.process_eq, ← h.mesh_eq]
  refine ⟨⟨by simp [Reassembler.new], rfl, by simp [Reassembler.new], by simp [Reassembler.new]⟩,
    rfl, rfl, ?_, ?_⟩
  · simp only [Reassembler.new, h.process_eq]
    exact h.process_le
  · simp only [Reassembler.new, h.mesh_eq]
    exact h.mesh_le _

/-- A connection that holds nothing can go. -/
theorem Exact.erase (h : s.Exact limit limits) {i : Nat}
    (hempty : ∀ connection, s.connections[i]? = some connection →
      connection.reassembler.reserved = 0) :
    Exact limit limits { s with connections := s.connections.erase i } := by
  have hcharge : ∀ f : Connection M → Nat, (∀ c, s.connections[i]? = some c → f c = 0) →
      total f (s.connections.erase i) = total f s.connections := by
    intro f hf
    cases hi : s.connections[i]? with
    | none => exact total_erase_none f hi
    | some connection => rw [← total_erase f hi, hf connection hi, Nat.zero_add]
  have hprocess : processCharge { s with connections := s.connections.erase i } = s.processCharge :=
    hcharge _ hempty
  have hmesh : ∀ mesh,
      meshCharge { s with connections := s.connections.erase i } mesh = s.meshCharge mesh := by
    intro mesh
    refine hcharge _ fun connection hi => ?_
    rw [charge, hempty connection hi, ite_self]
  refine ⟨?_, ?_, ?_, ?_, ?_⟩
  · intro k connection hk
    simp only [ExtTreeMap.getElem?_erase] at hk
    split at hk
    · cases hk
    · exact h.sized hk
  · rw [hprocess]
    exact h.process_eq
  · intro mesh
    rw [hmesh]
    exact h.mesh_eq mesh
  · rw [hprocess]
    exact h.process_le
  · intro mesh
    rw [hmesh]
    exact h.mesh_le mesh

theorem Exact.step (h : s.Exact limit limits) (op : Op M) : (s.step op).Exact limit limits := by
  cases op with
  | connect i mesh =>
      rw [Budgets.step]
      split
      · exact h
      · next hfree =>
        rw [ExtTreeMap.contains_eq_isSome_getElem?, Option.not_isSome_iff_eq_none] at hfree
        exact h.connect mesh hfree
  | push i bytes now => exact h.call i fun hr => hr.push bytes now
  | expire i now => exact h.call i fun hr => hr.expire now
  | clear i => exact h.call i fun hr => hr.clear
  | drop i =>
      refine (h.call i fun hr => hr.clear).erase ?_
      intro connection hi
      unfold Budgets.call at hi
      split at hi
      · next hnone =>
        rw [hnone] at hi
        cases hi
      · simp only [Budgets.store, ExtTreeMap.getElem?_insert_self, Option.some.injEq] at hi
        rw [← hi]
        rfl

theorem Exact.run (ops : List (Op M)) : ((Budgets.new limit limits).run ops).Exact limit limits :=
  exec_invariant Exact.new (fun _ op h => h.step op) ops

/-- Two connections of one mesh: its budget holds only the first frame. -/
example :
    let bytes := Header.encode { id := 1, total := 4, stride := 2, index := 0, count := 2 } [7, 8]
    let s := (Budgets.new 10 fun _ : Nat => 6).run
      [.connect 0 0, .connect 1 0, .push 0 bytes 0, .push 1 bytes 0]
    s.process.used = 4 ∧ (s.mesh 0).used = 4 ∧ ((s.step (.drop 0)).process.used = 0) := by
  decide +kernel

end Budgets

end Peerward.Carrier
