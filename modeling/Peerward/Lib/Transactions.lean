import Peerward.Lib.Run

/-!
# Transactions that lock rows

A transaction is a script of statements, each of which reads the tables as committed when it runs,
with the transaction's own writes on top. A statement that locks or writes rows waits until no other
transaction holds them, and keeps them to the end. A commit applies the writes and an abort drops
them; both let go of the rows.

Sound scripts compose. While a transaction holds its rows, the others and the world outside do what
they promise and leave those rows alone; if each script, run against any such interference, commits
only what it promises itself, then every run of all of them together is a run of promises.
-/

namespace Peerward.Lib

/-! ## Scripts -/

/-- A transaction over the tables `σ`, whose rows have the names `κ`, and what it answers. -/
inductive Script (σ κ α : Type) where
  /-- Takes `rows` and writes; the rows, the write and what follows depend on what it reads. -/
  | statement (rows : σ → List κ) (write : σ → σ → σ) (next : σ → Script σ κ α)
  | commit (answer : α)
  | rollback (answer : α)

namespace Script

variable {σ κ α : Type}

/-- `SELECT`. -/
def select (next : σ → Script σ κ α) : Script σ κ α := statement (fun _ => []) (fun _ db => db) next

/-- `SELECT .. FOR UPDATE`. -/
def lock (rows : σ → List κ) (next : σ → Script σ κ α) : Script σ κ α :=
  statement rows (fun _ db => db) next

/-- `INSERT`, `UPDATE` and `DELETE`: the first argument of `write` is what the statement reads. -/
def update (rows : σ → List κ) (write : σ → σ → σ) (next : Script σ κ α) : Script σ κ α :=
  statement rows write fun _ => next

/-- The answer, once no statement is left. -/
def answer? : Script σ κ α → Option α
  | statement _ _ _ => none
  | commit answer => some answer
  | rollback answer => some answer

end Script

/-! ## Sessions

Sessions take turns at their statements. A statement waits for the rows it wants, sees what is committed
together with its own session's writes, and a commit applies these at once.
-/

/-- A transaction on its way: its writes so far, and its remaining statements. -/
structure Session (σ κ ρ α : Type) where
  request : ρ
  pending : σ → σ
  script : Script σ κ α

/-- The committed tables, the transactions under way, and who holds which rows. -/
structure Sessions (ι σ κ ρ α : Type) where
  tables : σ
  session : ι → Option (Session σ κ ρ α)
  holder : κ → Option ι

/-- What happens next. -/
inductive Turn (ι ρ ω : Type) where
  | call (i : ι) (request : ρ)
  | advance (i : ι)
  | abort (i : ι)
  | outside (event : ω)

namespace Sessions

variable {ι σ κ ρ α ω : Type}

/-- Nothing under way. -/
def idle (tables : σ) : Sessions ι σ κ ρ α := ⟨tables, fun _ => none, fun _ => none⟩

/-- The rows of session `i`. -/
def Held (s : Sessions ι σ κ ρ α) (i : ι) (row : κ) : Prop := s.holder row = some i

variable [DecidableEq ι]

/-- The rows a statement of `i` wants, and `i` can have. -/
def free (s : Sessions ι σ κ ρ α) (i : ι) (rows : List κ) : Bool :=
  rows.all fun row => s.holder row = none || s.holder row = some i

def finish (s : Sessions ι σ κ ρ α) (i : ι) (tables : σ) : Sessions ι σ κ ρ α where
  tables := tables
  session := Function.update s.session i none
  holder := fun row => if s.holder row = some i then none else s.holder row

/-- The others keep their rows when a session ends. -/
theorem held_finish {s : Sessions ι σ κ ρ α} {i j : ι} {db : σ} (hji : j ≠ i) : (s.finish i db).Held j = s.Held j := by
  funext row
  simp only [Held, finish, eq_iff_iff]
  by_cases hi : s.holder row = some i
  · simp [hi, Ne.symm hji]
  · simp [hi]

theorem session_finish {s : Sessions ι σ κ ρ α} {i j : ι} {db : σ} {session : Session σ κ ρ α}
    (h : (s.finish i db).session j = some session) : j ≠ i ∧ s.session j = some session := by
  by_cases hji : j = i
  · simp [finish, hji] at h
  · exact ⟨hji, by simpa [finish, hji] using h⟩

variable [DecidableEq κ] (script : ρ → Script σ κ α) (world : ω → σ → σ)

/-- One turn. A statement whose rows another session holds waits; a session that is under way
takes no other call. -/
def step (s : Sessions ι σ κ ρ α) : Turn ι ρ ω → Sessions ι σ κ ρ α
  | .call i request =>
      match s.session i with
      | some _ => s
      | none =>
          { s with session := Function.update s.session i (some ⟨request, id, script request⟩) }
  | .advance i =>
      match s.session i with
      | none => s
      | some ⟨request, pending, .statement rows write next⟩ =>
          let view := pending s.tables
          if s.free i (rows view) then
            { s with
              session := Function.update s.session i
                (some ⟨request, fun db => write view (pending db), next view⟩)
              holder := fun row => if row ∈ rows view then some i else s.holder row }
          else s
      | some ⟨_, pending, .commit _⟩ => s.finish i (pending s.tables)
      | some ⟨_, _, .rollback _⟩ => s.finish i s.tables
  | .abort i => s.finish i s.tables
  | .outside event => { s with tables := world event s.tables }

end Sessions

/-! ## Contracts

A request promises something of its commit. It may rely, in between, on the rows it holds being the same and
on whatever no change undoes; `Sound` is that it keeps its promise then.
-/

/-- What the transactions of a system promise each other. `Same row` says that a row is the same in
two states of the tables, and `Promise` what the commit of a request may do to them. -/
structure Contract (σ κ ρ α ω : Type) where
  script : ρ → Script σ κ α
  world : ω → σ → σ
  Same : κ → σ → σ → Prop
  Inv : σ → Prop
  Promise : ρ → α → σ → σ → Prop
  same_refl : ∀ row db, Same row db db
  same_trans : ∀ row a b c, Same row a b → Same row b c → Same row a c
  inv_world : ∀ event db, Inv db → Inv (world event db)
  same_world : ∀ event db row, Same row db (world event db)
  inv_promise : ∀ request answer db db', Inv db → Promise request answer db db' → Inv db'

namespace Contract

variable {ι σ κ ρ α ω : Type} (c : Contract σ κ ρ α ω)

/-- One change of the tables. -/
inductive Change (a : σ) : σ → Prop where
  | world (event : ω) : Change a (c.world event a)
  | commit {b : σ} (request : ρ) (answer : α) (promise : c.Promise request answer a b) : Change a b

theorem Change.inv {a b : σ} (h : c.Change a b) (inv : c.Inv a) : c.Inv b := by
  cases h with
  | world event => exact c.inv_world event a inv
  | commit request answer promise => exact c.inv_promise request answer a b inv promise

/-- One change that leaves the rows `held` alone. -/
def Elsewhere (held : κ → Prop) (a b : σ) : Prop :=
  c.Change a b ∧ ∀ row, held row → c.Same row a b

/-- What others may have made of the tables while the rows `held` were held. -/
def Later (held : κ → Prop) : σ → σ → Prop := Relation.ReflTransGen (c.Elsewhere held)

variable {c}

theorem Later.inv {held : κ → Prop} {a b : σ} (h : c.Later held a b) (inv : c.Inv a) : c.Inv b := by
  induction h with
  | refl => exact inv
  | tail _ hlast ih => exact hlast.1.inv c ih

/-- What no change undoes. -/
theorem Later.keep {held : κ → Prop} {P : σ → Prop} {a b : σ} (h : c.Later held a b)
    (keep : ∀ a b, c.Inv a → c.Change a b → P a → P b) (inv : c.Inv a) (ha : P a) : P b := by
  induction h with
  | refl => exact ha
  | tail hfirst hlast ih => exact keep _ _ (Later.inv hfirst inv) hlast.1 ih

theorem Later.mono {held held' : κ → Prop} {a b : σ} (h : c.Later held' a b)
    (hmono : ∀ row, held row → held' row) : c.Later held a b := by
  refine Relation.ReflTransGen.mono (fun a b hab => ?_) _ _ h
  exact ⟨hab.1, fun row hrow => hab.2 row (hmono row hrow)⟩

/-- A row that is held stays the same. -/
theorem Later.same {held : κ → Prop} {a b : σ} (h : c.Later held a b) (row : κ) (hrow : held row) :
    c.Same row a b := by
  induction h with
  | refl => exact c.same_refl row a
  | tail _ hlast ih => exact c.same_trans row _ _ _ ih (hlast.2 row hrow)

variable (c) in
/-- Whatever others do in between, the commit keeps its promise and changes no row but `held`. -/
def Sound (request : ρ) : Script σ κ α → (κ → Prop) → (σ → σ) → σ → Prop
  | .statement rows write next, held, pending, db =>
      ∀ db', c.Later held db db' → c.Inv db' →
        Sound request (next (pending db')) (fun row => row ∈ rows (pending db') ∨ held row)
          (fun db => write (pending db') (pending db)) db'
  | .commit answer, held, pending, db =>
      ∀ db', c.Later held db db' → c.Inv db' →
        c.Promise request answer db' (pending db') ∧
          ∀ row, ¬ held row → c.Same row db' (pending db')
  | .rollback _, _, _, _ => True

theorem Sound.later {request : ρ} {script : Script σ κ α} {held : κ → Prop} {pending : σ → σ}
    {db db' : σ} (h : c.Sound request script held pending db) (hlater : c.Later held db db') :
    c.Sound request script held pending db' := by
  cases script with
  | statement rows write next => exact fun after hafter => h after (hlater.trans hafter)
  | commit answer => exact fun after hafter => h after (hlater.trans hafter)
  | rollback answer => trivial

/-- More rows are no harm. -/
theorem Sound.mono {request : ρ} {script : Script σ κ α} {held held' : κ → Prop} {pending : σ → σ}
    {db : σ} (h : c.Sound request script held pending db) (hmono : ∀ row, held row → held' row) :
    c.Sound request script held' pending db := by
  induction script generalizing held held' pending db with
  | statement rows write next ih =>
      intro db' hdb inv
      refine ih _ (h db' (hdb.mono hmono) inv) fun row hrow => ?_
      exact hrow.imp_right (hmono row)
  | commit answer =>
      intro db' hdb inv
      obtain ⟨hpromise, hsame⟩ := h db' (hdb.mono hmono) inv
      exact ⟨hpromise, fun row hrow => hsame row fun hheld => hrow (hmono row hheld)⟩
  | rollback answer => trivial

theorem Sound.select {request : ρ} {next : σ → Script σ κ α} {held : κ → Prop} {pending : σ → σ} {db : σ}
    (h : ∀ db', c.Later held db db' → c.Inv db' → c.Sound request (next (pending db')) held pending db') :
    c.Sound request (.select next) held pending db :=
  fun db' hlater inv => (h db' hlater inv).mono fun _ => .inr

theorem Sound.lock {request : ρ} {rows : σ → List κ} {next : σ → Script σ κ α} {held : κ → Prop}
    {pending : σ → σ} {db : σ}
    (h : ∀ db', c.Later held db db' → c.Inv db' → c.Sound request (next (pending db'))
      (fun row => row ∈ rows (pending db') ∨ held row) pending db') :
    c.Sound request (.lock rows next) held pending db := h

/-! ## Runs

If every script is sound, each commit of a run keeps its promise in the tables that it changes, and so what
every promised change keeps holds throughout.
-/

/-- What every state of a run keeps. -/
structure Kept (c : Contract σ κ ρ α ω) (s : Sessions ι σ κ ρ α) : Prop where
  inv : c.Inv s.tables
  /-- What is under way will keep its promise. -/
  sound : ∀ i session, s.session i = some session →
    c.Sound session.request session.script (s.Held i) session.pending s.tables

theorem kept_idle {db : σ} (inv : c.Inv db) :
    Kept c (Sessions.idle db : Sessions ι σ κ ρ α) where
  inv := inv
  sound := by
    intro i session h
    cases h

variable [DecidableEq ι] {s : Sessions ι σ κ ρ α}

/-- A session that ends without a change. -/
theorem Kept.dropped (kept : Kept c s) (i : ι) : Kept c (s.finish i s.tables) where
  inv := kept.inv
  sound := by
    intro j session h
    obtain ⟨hji, hj⟩ := Sessions.session_finish h
    rw [Sessions.held_finish hji]
    exact kept.sound j session hj

/-- A session that ends with a change of its own rows. -/
theorem Kept.committed (kept : Kept c s) {i : ι} {db : σ} (hchange : c.Change s.tables db)
    (hsame : ∀ row, ¬ s.Held i row → c.Same row s.tables db) : Kept c (s.finish i db) where
  inv := hchange.inv c kept.inv
  sound := by
    intro j session h
    obtain ⟨hji, hj⟩ := Sessions.session_finish h
    rw [Sessions.held_finish hji]
    refine (kept.sound j session hj).later (.single ⟨hchange, fun row hrow => hsame row ?_⟩)
    intro hi
    exact hji (Option.some.inj (hrow.symm.trans hi))

variable [DecidableEq κ]

/-- What one turn makes of the tables. -/
theorem Kept.tables_step (kept : Kept c s) (turn : Turn ι ρ ω) :
    (s.step c.script c.world turn).tables = s.tables ∨
      (∃ event, turn = .outside event ∧
        (s.step c.script c.world turn).tables = c.world event s.tables) ∨
      ∃ i request pending answer, turn = .advance i ∧
        s.session i = some ⟨request, pending, .commit answer⟩ ∧
        c.Promise request answer s.tables (s.step c.script c.world turn).tables := by
  cases turn with
  | call i request =>
      left
      simp only [Sessions.step]
      split <;> rfl
  | outside event => exact .inr (.inl ⟨event, rfl, rfl⟩)
  | abort i => exact .inl rfl
  | advance i =>
      simp only [Sessions.step]
      split
      · exact .inl rfl
      · split <;> exact .inl rfl
      · next request pending answer h =>
          refine .inr (.inr ⟨i, request, pending, answer, rfl, h, ?_⟩)
          exact (kept.sound i _ h s.tables .refl kept.inv).1
      · exact .inl rfl

/-- **One turn of sound scripts.** -/
theorem Kept.step (kept : Kept c s)
    (sound : ∀ request db, c.Inv db → c.Sound request (c.script request) (fun _ => False) id db)
    (turn : Turn ι ρ ω) : Kept c (s.step c.script c.world turn) := by
  cases turn with
  | abort i => exact kept.dropped i
  | outside event =>
      refine ⟨c.inv_world event _ kept.inv, fun i session h => ?_⟩
      exact (kept.sound i session h).later
        (.single ⟨.world event, fun row _ => c.same_world event _ row⟩)
  | call i request =>
      simp only [Sessions.step]
      split
      · exact kept
      · refine ⟨kept.inv, fun j session h => ?_⟩
        by_cases hji : j = i
        · subst hji
          simp only [Function.update_self, Option.some.injEq] at h
          subst h
          exact (sound request s.tables kept.inv).mono fun row hrow => hrow.elim
        · simp only [Function.update_of_ne hji] at h
          exact kept.sound j session h
  | advance i =>
      simp only [Sessions.step]
      split
      · exact kept
      · next request pending rows write next h =>
          split
          · next hfree =>
              refine ⟨kept.inv, fun j session hj => ?_⟩
              by_cases hji : j = i
              · subst hji
                simp only [Function.update_self, Option.some.injEq] at hj
                subst hj
                refine (kept.sound j _ h s.tables .refl kept.inv).mono fun row hrow => ?_
                rcases hrow with hrow | hrow
                · simp [Sessions.Held, hrow]
                · simp only [Sessions.Held] at hrow ⊢
                  split <;> simp [hrow]
              · simp only [Function.update_of_ne hji] at hj
                refine (kept.sound j session hj).mono fun row hrow => ?_
                have hnot : row ∉ rows (pending s.tables) := by
                  intro hmem
                  have := List.all_eq_true.mp hfree row hmem
                  simp only [Sessions.Held] at hrow
                  simp [hrow, hji] at this
                simpa [Sessions.Held, hnot] using hrow
          · exact kept
      · next request pending answer h =>
          obtain ⟨hpromise, hsame⟩ := kept.sound i _ h s.tables .refl kept.inv
          exact kept.committed (.commit request answer hpromise) hsame
      · exact kept.dropped i

/-- **Runs of sound scripts**, from tables where nothing is under way. -/
theorem kept_run (sound : ∀ request db, c.Inv db →
      c.Sound request (c.script request) (fun _ => False) id db)
    {db : σ} (inv : c.Inv db) (turns : List (Turn ι ρ ω)) :
    Kept c (exec (Sessions.step c.script c.world) (Sessions.idle db) turns) :=
  exec_invariant (kept_idle inv) (fun _ turn kept => kept.step sound turn) turns

end Contract

end Peerward.Lib
