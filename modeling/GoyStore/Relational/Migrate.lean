import GoyStore.Library.Effects
import GoyStore.Library.Runs
import Mathlib.Data.List.Nodup

/-!
# Migrations

`migrate` of `PostgresRelationalStore` asks, for each migration in turn, whether its version is
recorded, and otherwise runs its script and records its version in one transaction.  The question
is asked outside of the transaction.

Here any number of calls of both libraries share one database.  A statement may fail, a caller may
give up or be cut off while its request is still on the way, the server may end a transaction at any
time, and an answer may never arrive; what the server does is committed atomically, and no version
can be recorded twice.  In every reachable state each migration has taken effect exactly when it is
recorded, none twice, and in the order of the list (`always_exactlyOnce`).
-/

namespace GoyStore

open Runs Effects

/-- `Migration`. -/
structure Migration where
  /-- The field `version`. -/
  version : String
  /-- The field `up_sql`. -/
  upSql : String
  deriving DecidableEq, Repr

/-! ### The calls of the database -/

/-- What `migrate` asks of the database. -/
inductive DbCall where
  /-- `CREATE TABLE IF NOT EXISTS schema_migrations`. -/
  | createTable
  /-- Is there a row with the version? -/
  | selectVersion (version : String)
  /-- Begin a transaction. -/
  | beginTx
  /-- Execute the script `up_sql` of a migration in the transaction. -/
  | execute (migration : Migration)
  /-- Insert a row with the version in the transaction. -/
  | insertVersion (version : String)
  /-- Commit the transaction. -/
  | commit
  /-- Roll the transaction back, if it is not closed yet. -/
  | rollback
  deriving DecidableEq, Repr

namespace DbCall

/-- What a call returns: whether there is a row, or nothing. -/
abbrev Result : DbCall → Type
  | .selectVersion _ => Bool
  | _ => Unit

/-- The answer to a call: what it returns, or an error. -/
abbrev Answer (c : DbCall) : Type := Except String c.Result

end DbCall

/-- A program that calls the database. -/
abbrev DbProg (ρ : Type) : Type := Prog String DbCall DbCall.Answer ρ

/-- A call of the database whose error is wrapped. -/
def query (wrap : String → String) (c : DbCall) : DbProg c.Result := .call c fun
  | .ok r => .done r
  | .error e => .fail (wrap e)

/-! ### Rust -/

namespace Rust

/-- A call of the database, with the operator `?`. -/
def query (c : DbCall) : DbProg c.Result := GoyStore.query id c

/-- The body of the loop of `PostgresRelationalStore::migrate`. -/
def applyMigration (migration : Migration) : DbProg Unit := do
  let applied ← query (.selectVersion migration.version)
  if !applied then
    query .beginTx
    query (.execute migration)
    query (.insertVersion migration.version)
    query .commit

/-- The loop of `PostgresRelationalStore::migrate`. -/
def applyMigrations : List Migration → DbProg Unit
  | [] => .done ()
  | migration :: migrations => applyMigration migration >>= fun _ => applyMigrations migrations

/-- `PostgresRelationalStore::migrate`; a transaction that is dropped is rolled back by the driver,
after the call. -/
def migrate (migrations : List Migration) : DbProg Unit :=
  query .createTable >>= fun _ => applyMigrations migrations

end Rust

/-! ### Go -/

namespace Go

/-- `PostgresRelationalStore.Transaction`, with its deferred rollback. -/
def transaction (fn : DbProg Unit) : DbProg Unit := do
  query (fun e => s!"failed to begin transaction: {e}") .beginTx
  Prog.ensuring
    (fn >>= fun _ => query (fun e => s!"failed to commit transaction: {e}") .commit)
    (Prog.perform .rollback)

/-- The function that `Migrate` runs in a transaction. -/
def applyInTransaction (m : Migration) : DbProg Unit := do
  query (fun e => s!"failed executing migration up_sql for {m.version}: {e}") (.execute m)
  query (fun e => s!"failed recording migration {m.version}: {e}") (.insertVersion m.version)

/-- The body of the loop of `PostgresRelationalStore.Migrate`. -/
def applyMigration (m : Migration) : DbProg Unit := do
  let exists_ ← query (fun e => s!"failed to check migration {m.version}: {e}")
    (.selectVersion m.version)
  if !exists_ then
    transaction (applyInTransaction m)

/-- The loop of `PostgresRelationalStore.Migrate`. -/
def applyMigrations : List Migration → DbProg Unit
  | [] => .done ()
  | m :: migrations => applyMigration m >>= fun _ => applyMigrations migrations

/-- `PostgresRelationalStore.Migrate`. -/
def migrate (migrations : List Migration) : DbProg Unit :=
  query (fun e => s!"failed to create schema_migrations table: {e}") .createTable >>= fun _ =>
    applyMigrations migrations

end Go

/-! ### The database -/

/-- An open transaction: what it would commit. -/
structure Tx where
  /-- The migrations whose scripts it has executed. -/
  scripts : List Migration
  /-- The versions that it has inserted. -/
  rows : List String
  deriving DecidableEq, Repr

/-- What is committed. -/
structure Db where
  /-- The table `schema_migrations` exists. -/
  table : Bool
  /-- The recorded versions. -/
  versions : List String
  /-- The migrations whose scripts have taken effect, in the order of their commits. -/
  scripts : List Migration
  deriving DecidableEq, Repr

/-- The server performs a call for a connection with the transaction `tx`; `none` when the call
cannot succeed.  At read committed a query sees the committed rows; an insert fails on a committed
row, and a commit that would repeat a version is impossible. -/
def Db.perform (db : Db) (tx : Option Tx) : (c : DbCall) → Option (Db × Option Tx × c.Answer)
  | .createTable => some ({ db with table := true }, tx, .ok ())
  | .selectVersion version =>
    if db.table then some (db, tx, .ok (decide (version ∈ db.versions))) else none
  | .beginTx => some (db, some ⟨[], []⟩, .ok ())
  | .execute m => tx.map fun t => (db, some { t with scripts := t.scripts ++ [m] }, .ok ())
  | .insertVersion version =>
    if db.table ∧ version ∉ db.versions then
      tx.map fun t => (db, some { t with rows := t.rows ++ [version] }, .ok ())
    else none
  | .commit =>
    match tx with
    | some t =>
      if (db.versions ++ t.rows).Nodup then
        some ({ db with versions := db.versions ++ t.rows, scripts := db.scripts ++ t.scripts },
          none, .ok ())
      else none
    | none => none
  | .rollback => some (db, none, .ok ())

/-! ### Calls of `migrate` -/

/-- The caller's side of a call of `migrate`. -/
inductive Client where
  /-- The rest of the call; a program that starts with a call has its request on the way. -/
  | running (p : DbProg Unit)
  /-- The request is served, the answer is on the way. -/
  | served (c : DbCall) (a : c.Answer) (k : c.Answer → DbProg Unit)
  /-- Cut off. -/
  | gone

/-- A call of `migrate` with its connection. -/
structure Session where
  /-- The caller's side. -/
  client : Client
  /-- The caller can use the connection. -/
  linked : Bool
  /-- A request that was still on the way when the caller lost the connection. -/
  late : Option DbCall
  /-- The transaction that is open on the connection. -/
  tx : Option Tx

/-- A call that begins. -/
def Session.start (p : DbProg Unit) : Session := ⟨.running p, true, none, none⟩

/-- What can happen to a call. -/
inductive Act where
  /-- The server serves the request. -/
  | serve
  /-- The request fails, and the transaction with it. -/
  | refuse (e : String)
  /-- The answer arrives. -/
  | receive
  /-- The caller loses the connection while it waits, and goes on with an error. -/
  | giveUp (e : String)
  /-- The caller is cut off. -/
  | cut
  /-- The server serves a request that was still on the way. -/
  | late
  /-- The server ends the transaction and closes the connection. -/
  | abort

/-- The request that a caller leaves behind. -/
def Session.left (s : Session) (c : DbCall) : Option DbCall := if s.linked then some c else s.late

/-- A call after an action, and what is committed then. -/
def Session.act (db : Db) (s : Session) : Act → Option (Db × Session)
  | .serve =>
    match s.client with
    | .running (.call c k) =>
      if s.linked then
        (db.perform s.tx c).map fun r => (r.1, { s with client := .served c r.2.2 k, tx := r.2.1 })
      else none
    | _ => none
  | .refuse e =>
    match s.client with
    | .running (.call c k) => some (db, { s with client := .served c (.error e) k, tx := none })
    | _ => none
  | .receive =>
    match s.client with
    | .served _ a k => some (db, { s with client := .running (k a) })
    | _ => none
  | .giveUp e =>
    match s.client with
    | .running (.call c k) =>
      some (db, { s with client := .running (k (.error e)), linked := false, late := s.left c })
    | .served _ _ k => some (db, { s with client := .running (k (.error e)), linked := false })
    | _ => none
  | .cut =>
    match s.client with
    | .running (.call c _) =>
      some (db, { s with client := .gone, linked := false, late := s.left c })
    | .served _ _ _ => some (db, { s with client := .gone, linked := false })
    | _ => none
  | .late =>
    match s.late with
    | some c => (db.perform s.tx c).map fun r => (r.1, { s with late := none, tx := r.2.1 })
    | none => none
  | .abort => some (db, { s with linked := false, late := none, tx := none })

/-- The two libraries. -/
inductive MigrateLibrary where
  /-- The Rust library. -/
  | rust
  /-- The Go library. -/
  | go

/-- `migrate` of a library. -/
def MigrateLibrary.migrate : MigrateLibrary → List Migration → DbProg Unit
  | .rust => Rust.migrate
  | .go => Go.migrate

/-- The database and all the calls that were ever made. -/
structure MigrateState where
  /-- What is committed. -/
  db : Db
  /-- The calls. -/
  sessions : ℕ → Option Session

/-- What can happen to the system. -/
inductive MigrateLabel where
  /-- A new call begins. -/
  | call (i : ℕ) (library : MigrateLibrary)
  /-- Something happens to a call. -/
  | act (i : ℕ) (a : Act)

namespace MigrateState

/-- Nothing is committed, and no call was made. -/
def new : MigrateState := ⟨⟨false, [], []⟩, fun _ => none⟩

/-- The step function, for calls that all have the same list of migrations. -/
def step (migrations : List Migration) (s : MigrateState) : MigrateLabel → Option MigrateState
  | .call i library =>
    match s.sessions i with
    | none => some ⟨s.db, Function.update s.sessions i
        (some (.start (library.migrate migrations)))⟩
    | some _ => none
  | .act i a =>
    match s.sessions i with
    | none => none
    | some session => (session.act s.db a).map fun r =>
        ⟨r.1, Function.update s.sessions i (some r.2)⟩

end MigrateState

/-- What is committed is as it should be. -/
structure ExactlyOnce (migrations : List Migration) (s : MigrateState) : Prop where
  /-- A migration has taken effect if and only if its version is recorded. -/
  effect_iff : ∀ m ∈ migrations, m ∈ s.db.scripts ↔ m.version ∈ s.db.versions
  /-- No migration has taken effect twice. -/
  once : s.db.scripts.Nodup
  /-- The migrations have taken effect in the order of the list, none of them left out. -/
  in_order : s.db.scripts <+: migrations
  /-- The recorded versions are those of a prefix of the list. -/
  versions_prefix : s.db.versions <+: migrations.map Migration.version
  /-- A call that has returned success has left all migrations committed. -/
  success : ∀ i session, s.sessions i = some session → session.client = .running (.done ()) →
    ∀ m ∈ migrations, m ∈ s.db.scripts ∧ m.version ∈ s.db.versions

/-! ### The protocol of a call -/

namespace Migrate

/-- How far a call is with the transaction of a migration. -/
inductive Phase where
  /-- No transaction. -/
  | idle
  /-- The transaction is open. -/
  | opened
  /-- The script has been executed. -/
  | scripted
  /-- The version has been inserted. -/
  | recorded
  /-- An error was answered. -/
  | lost
  deriving DecidableEq

/-- What a call knows: the first `applied` migrations are committed. -/
structure Knowledge where
  /-- The number of migrations that are known to be committed. -/
  applied : ℕ
  /-- How far it is with the next one. -/
  phase : Phase

/-- The protocol that both libraries keep to. -/
def protocol (migrations : List Migration) : Protocol Knowledge DbCall DbCall.Answer where
  pre K
    | .createTable | .beginTx => K.phase = .idle
    | .selectVersion version =>
      K.phase = .idle ∧ ∃ m, migrations[K.applied]? = some m ∧ m.version = version
    | .execute m => K.phase = .opened ∧ migrations[K.applied]? = some m
    | .insertVersion version =>
      K.phase = .scripted ∧ ∃ m, migrations[K.applied]? = some m ∧ m.version = version
    | .commit => K.phase = .recorded
    | .rollback => K.phase = .idle ∨ K.phase = .lost
  next K
    | .rollback, _ | .createTable, .ok _ | .selectVersion _, .ok false => K
    | .selectVersion _, .ok true => ⟨K.applied + 1, .idle⟩
    | .beginTx, .ok _ => ⟨K.applied, .opened⟩
    | .execute _, .ok _ => ⟨K.applied, .scripted⟩
    | .insertVersion _, .ok _ => ⟨K.applied, .recorded⟩
    | .commit, .ok _ => ⟨K.applied + 1, .idle⟩
    | _, .error _ => ⟨K.applied, .lost⟩

/-- A call that returns knows that all migrations are committed. -/
def Knows (migrations : List Migration) (K : Knowledge) : Except String Unit → Prop
  | .ok _ => K.applied = migrations.length
  | .error _ => True

variable {migrations : List Migration}

/-- Errors teach nothing. -/
lemma applied_next_error (K : Knowledge) (c : DbCall) (e : String) :
    ((protocol migrations).next K c (.error e)).applied = K.applied := by
  cases c <;> rfl

/-- What a call knows once a migration is applied. -/
def Advances (n : ℕ) (K : Knowledge) (r : Except String Unit) : Prop :=
  r = .ok () → K = ⟨n + 1, .idle⟩

/-- An error promises nothing. -/
lemma advances_error (n : ℕ) (K : Knowledge) (e : String) : Advances n K (.error e) :=
  fun h => nomatch h

/-- The loop over the migrations from an index on, when its body applies one migration. -/
lemma follows_applyMigrations {body : Migration → DbProg Unit} {loop : List Migration → DbProg Unit}
    (hnil : loop [] = .done ()) (hcons : ∀ m ms, loop (m :: ms) = body m >>= fun _ => loop ms)
    (hbody : ∀ n m, migrations[n]? = some m →
      (body m).Follows (protocol migrations) (Advances n) ⟨n, .idle⟩)
    (n : ℕ) (hn : n ≤ migrations.length) :
    (loop (migrations.drop n)).Follows (protocol migrations) (Knows migrations) ⟨n, .idle⟩ := by
  induction hk : migrations.length - n generalizing n with
  | zero =>
    have hlength : n = migrations.length := by omega
    rw [hlength, List.drop_length, hnil]
    exact rfl
  | succ k ih =>
    have hlt : n < migrations.length := by omega
    rw [List.drop_eq_getElem_cons hlt, hcons]
    refine Prog.Follows.bind ((hbody n _ (List.getElem?_eq_getElem hlt)).mono ?_)
    rintro K (e | r) hK
    · trivial
    · rw [hK rfl]
      exact ih (n + 1) hlt (by omega)

/-- A call of the database before the rest of a program. -/
lemma follows_query {wrap : String → String} {c : DbCall} {ρ : Type} {f : c.Result → DbProg ρ}
    {Q : Knowledge → Except String ρ → Prop} {K : Knowledge}
    (hpre : (protocol migrations).pre K c)
    (herror : ∀ e, Q ((protocol migrations).next K c (.error e)) (.error (wrap e)))
    (hok : ∀ r, (f r).Follows (protocol migrations) Q ((protocol migrations).next K c (.ok r))) :
    (query wrap c >>= f).Follows (protocol migrations) Q K := by
  refine ⟨hpre, ?_⟩
  rintro (e | r)
  · exact herror e
  · exact hok r

/-- A call of the database at the end of a program. -/
lemma follows_last_query {wrap : String → String} {c : DbCall}
    {Q : Knowledge → Except String c.Result → Prop} {K : Knowledge}
    (hpre : (protocol migrations).pre K c)
    (herror : ∀ e, Q ((protocol migrations).next K c (.error e)) (.error (wrap e)))
    (hok : ∀ r, Q ((protocol migrations).next K c (.ok r)) (.ok r)) :
    (query wrap c).Follows (protocol migrations) Q K := by
  refine ⟨hpre, ?_⟩
  rintro (e | r)
  · exact herror e
  · exact hok r

/-- The body of the Rust loop applies one migration. -/
lemma follows_rust_applyMigration {n : ℕ} {m : Migration} (hm : migrations[n]? = some m) :
    (Rust.applyMigration m).Follows (protocol migrations) (Advances n) ⟨n, .idle⟩ := by
  refine follows_query ⟨rfl, m, hm, rfl⟩ (fun _ => advances_error n _ _) ?_
  rintro (_ | _)
  · refine follows_query rfl (fun _ => advances_error n _ _) fun _ => ?_
    refine follows_query ⟨rfl, hm⟩ (fun _ => advances_error n _ _) fun _ => ?_
    refine follows_query ⟨rfl, m, hm, rfl⟩ (fun _ => advances_error n _ _) fun _ => ?_
    exact follows_last_query rfl (fun _ => advances_error n _ _) fun _ _ => rfl
  · exact fun _ => rfl

/-- `migrate` of the Rust library keeps to the protocol. -/
theorem follows_rust_migrate : (Rust.migrate migrations).Follows (protocol migrations)
    (Knows migrations) ⟨0, .idle⟩ := by
  refine follows_query rfl (fun _ => trivial) fun _ => ?_
  exact follows_applyMigrations rfl (fun _ _ => rfl) (fun _ _ => follows_rust_applyMigration) 0
    (Nat.zero_le _)

/-- The body of the Go loop applies one migration; the deferred rollback finds the transaction
closed, or follows an error. -/
lemma follows_go_applyMigration {n : ℕ} {m : Migration} (hm : migrations[n]? = some m) :
    (Go.applyMigration m).Follows (protocol migrations) (Advances n) ⟨n, .idle⟩ := by
  refine follows_query ⟨rfl, m, hm, rfl⟩ (fun _ => advances_error n _ _) ?_
  rintro (_ | _)
  · have hfailed : ∀ e, (Prog.perform .rollback : DbProg _).Follows (protocol migrations)
        (fun K _ => Advances n K (.error e)) ⟨n, .lost⟩ :=
      fun e => ⟨Or.inr rfl, fun _ => advances_error n _ _⟩
    have hcommitted : (Prog.perform .rollback : DbProg _).Follows (protocol migrations)
        (fun K _ => Advances n K (.ok ())) ⟨n + 1, .idle⟩ :=
      ⟨Or.inl rfl, fun _ _ => rfl⟩
    refine follows_query rfl (fun _ => advances_error n _ _) fun _ => ?_
    refine Prog.Follows.ensuring (Prog.Follows.bind ?_)
    refine follows_query ⟨rfl, hm⟩ (fun _ => hfailed _) fun _ => ?_
    refine follows_last_query ⟨rfl, m, hm, rfl⟩ (fun _ => hfailed _) fun _ => ?_
    exact follows_last_query rfl (fun _ => hfailed _) fun _ => hcommitted
  · exact fun _ => rfl

/-- `Migrate` of the Go library keeps to the protocol. -/
theorem follows_go_migrate : (Go.migrate migrations).Follows (protocol migrations)
    (Knows migrations) ⟨0, .idle⟩ := by
  refine follows_query rfl (fun _ => trivial) fun _ => ?_
  exact follows_applyMigrations rfl (fun _ _ => rfl) (fun _ _ => follows_go_applyMigration) 0
    (Nat.zero_le _)

/-! ### The invariant -/

/-- The first `n` migrations are committed, and nothing else. -/
structure Committed (migrations : List Migration) (n : ℕ) (db : Db) : Prop where
  /-- There are so many migrations. -/
  le_length : n ≤ migrations.length
  /-- Their scripts have taken effect. -/
  scripts_eq : db.scripts = migrations.take n
  /-- Their versions are recorded. -/
  versions_eq : db.versions = (migrations.take n).map Migration.version

/-- The open transaction of a call is as far as the call knows. -/
def TxOk (migrations : List Migration) (K : Knowledge) : Option Tx → Prop
  | none => True
  | some t =>
    match K.phase with
    | .idle | .lost => False
    | .opened => t = ⟨[], []⟩
    | .scripted => ∃ m, migrations[K.applied]? = some m ∧ t = ⟨[m], []⟩
    | .recorded => ∃ m, migrations[K.applied]? = some m ∧ t = ⟨[m], [m.version]⟩

/-- What a call knows is true: the migrations that it counts are committed, and its transaction is
as it should be. -/
def Sound (migrations : List Migration) (n : ℕ) (tx : Option Tx) (K : Knowledge) : Prop :=
  K.applied ≤ n ∧ TxOk migrations K tx

/-- With distinct versions, a recorded version is that of a committed migration. -/
lemma lt_of_version_mem {n k : ℕ} {m : Migration}
    (hdistinct : (migrations.map Migration.version).Nodup) (hm : migrations[k]? = some m)
    (hmem : m.version ∈ (migrations.take n).map Migration.version) : k < n := by
  obtain ⟨m', hm', hversion⟩ := List.mem_map.mp hmem
  obtain ⟨j, hj⟩ := List.mem_iff_getElem?.mp hm'
  have hjn : j < n := by
    by_contra hle
    rw [List.getElem?_take_eq_none (by omega)] at hj
    cases hj
  have hj' : migrations[j]? = some m' := by
    rwa [List.getElem?_take_of_lt hjn] at hj
  have hlength : k < (migrations.map Migration.version).length := by
    rw [List.length_map]
    exact (List.getElem?_eq_some_iff.mp hm).1
  have heq : (migrations.map Migration.version)[k]? = (migrations.map Migration.version)[j]? := by
    rw [List.getElem?_map, List.getElem?_map, hm, hj', Option.map_some, Option.map_some, hversion]
  rw [List.getElem?_inj hlength hdistinct] at heq
  omega

/-- A migration whose version is not recorded is not committed. -/
lemma le_of_version_not_mem {n k : ℕ} {m : Migration} (hm : migrations[k]? = some m)
    (hmem : m.version ∉ (migrations.take n).map Migration.version) : n ≤ k := by
  by_contra hlt
  refine hmem (List.mem_map_of_mem (List.mem_iff_getElem?.mpr ⟨k, ?_⟩))
  rwa [List.getElem?_take_of_lt (by omega)]

/-- The next migration is committed. -/
lemma Committed.succ {n : ℕ} {db db' : Db} {m : Migration} (hdb : Committed migrations n db)
    (hm : migrations[n]? = some m) (hscripts : db'.scripts = db.scripts ++ [m])
    (hversions : db'.versions = db.versions ++ [m.version]) :
    Committed migrations (n + 1) db' := by
  have htake : migrations.take (n + 1) = migrations.take n ++ [m] := by
    rw [List.take_add_one, hm]
    rfl
  refine ⟨(List.getElem?_eq_some_iff.mp hm).1, ?_, ?_⟩
  · rw [hscripts, htake, hdb.scripts_eq]
  · rw [hversions, htake, hdb.versions_eq, List.map_append]
    rfl

/-- What the server does for a call that keeps to the protocol commits at most the next migration,
and what the call then knows is true. -/
theorem perform_sound (hdistinct : (migrations.map Migration.version).Nodup) {n : ℕ} {db db' : Db}
    (hdb : Committed migrations n db) {tx tx' : Option Tx} {K : Knowledge}
    (hK : Sound migrations n tx K) {c : DbCall} (hpre : (protocol migrations).pre K c)
    {a : c.Answer} (h : db.perform tx c = some (db', tx', a)) :
    ∃ n', n ≤ n' ∧ Committed migrations n' db' ∧
      Sound migrations n' tx' ((protocol migrations).next K c a) := by
  obtain ⟨happlied, htx⟩ := hK
  cases c with
  | createTable =>
    obtain ⟨rfl, rfl, rfl⟩ : _ ∧ _ ∧ _ := by simpa [Db.perform] using h
    exact ⟨n, le_rfl, ⟨hdb.le_length, hdb.scripts_eq, hdb.versions_eq⟩, happlied, htx⟩
  | selectVersion version =>
    obtain ⟨hidle, m, hm, rfl⟩ := hpre
    unfold Db.perform at h
    split_ifs at h with htable
    obtain ⟨rfl, rfl, rfl⟩ : _ ∧ _ ∧ _ := by simpa using h
    refine ⟨n, le_rfl, hdb, ?_⟩
    have htx' : TxOk migrations ⟨K.applied + 1, .idle⟩ tx := by
      cases tx with
      | none => trivial
      | some t =>
        simp only [TxOk, hidle] at htx
    by_cases hmem : m.version ∈ db.versions
    · rw [decide_eq_true hmem]
      rw [hdb.versions_eq] at hmem
      exact ⟨lt_of_version_mem hdistinct hm hmem, htx'⟩
    · rw [decide_eq_false hmem]
      exact ⟨happlied, htx⟩
  | beginTx =>
    obtain ⟨rfl, rfl, rfl⟩ : _ ∧ _ ∧ _ := by simpa [Db.perform] using h
    exact ⟨n, le_rfl, hdb, happlied, rfl⟩
  | execute m =>
    obtain ⟨hopened, hm⟩ := hpre
    obtain ⟨t, rfl, heq⟩ := Option.map_eq_some_iff.mp h
    obtain ⟨rfl, rfl, rfl⟩ : _ ∧ _ ∧ _ := by simpa using heq
    simp only [TxOk, hopened] at htx
    subst htx
    exact ⟨n, le_rfl, hdb, happlied, m, hm, rfl⟩
  | insertVersion version =>
    obtain ⟨hscripted, m, hm, rfl⟩ := hpre
    simp only [Db.perform] at h
    split_ifs at h with hfresh
    obtain ⟨t, rfl, heq⟩ := Option.map_eq_some_iff.mp h
    obtain ⟨rfl, rfl, rfl⟩ : _ ∧ _ ∧ _ := by simpa using heq
    simp only [TxOk, hscripted] at htx
    obtain ⟨m', hm', rfl⟩ := htx
    obtain rfl := Option.some.inj (hm'.symm.trans hm)
    exact ⟨n, le_rfl, hdb, happlied, m', hm, rfl⟩
  | commit =>
    cases tx with
    | none => cases h
    | some t =>
      simp only [TxOk, show K.phase = .recorded from hpre] at htx
      obtain ⟨m, hm, rfl⟩ := htx
      simp only [Db.perform] at h
      split_ifs at h with hnodup
      obtain ⟨rfl, rfl, rfl⟩ : _ ∧ _ ∧ _ := by simpa using h
      -- the primary key: no other call has committed this migration in the meantime
      have hfresh : m.version ∉ db.versions := fun hmem =>
        (List.nodup_append.mp hnodup).2.2 _ hmem _ (List.mem_singleton_self _) rfl
      rw [hdb.versions_eq] at hfresh
      have hn : K.applied = n := by
        have hle := le_of_version_not_mem hm hfresh
        omega
      rw [hn] at hm
      exact ⟨n + 1, Nat.le_succ n, hdb.succ hm rfl rfl, Nat.succ_le_succ happlied, trivial⟩
  | rollback =>
    obtain ⟨rfl, rfl, rfl⟩ : _ ∧ _ ∧ _ := by simpa [Db.perform] using h
    exact ⟨n, le_rfl, hdb, happlied, trivial⟩

/-- What a call knows stays true when more is committed. -/
lemma Sound.mono {n n' : ℕ} {tx : Option Tx} {K : Knowledge} (h : Sound migrations n tx K)
    (hn : n ≤ n') : Sound migrations n' tx K := ⟨h.1.trans hn, h.2⟩

/-- The caller keeps to the protocol from what it knows, and what it knows is true; once the
connection is lost it has no transaction. -/
def OnCourse (migrations : List Migration) (n : ℕ) (linked : Bool) (tx : Option Tx)
    (p : DbProg Unit) : Prop :=
  ∃ K, p.Follows (protocol migrations) (Knows migrations) K ∧
    Sound migrations n (if linked then tx else none) K

/-- A request that the server may serve at any time: it was made by the protocol. -/
def Pending (migrations : List Migration) (n : ℕ) (tx : Option Tx) (c : DbCall) : Prop :=
  ∃ K, (protocol migrations).pre K c ∧ Sound migrations n tx K

/-- The caller stays right when others commit. -/
lemma OnCourse.mono {n n' : ℕ} {linked : Bool} {tx : Option Tx} {p : DbProg Unit}
    (h : OnCourse migrations n linked tx p) (hn : n ≤ n') : OnCourse migrations n' linked tx p := by
  obtain ⟨K, hp, hK⟩ := h
  exact ⟨K, hp, hK.mono hn⟩

/-- When its request fails, the caller goes on without a transaction. -/
lemma OnCourse.error {n : ℕ} {linked linked' : Bool} {tx tx' : Option Tx} {c : DbCall}
    {k : c.Answer → DbProg Unit} (h : OnCourse migrations n linked tx (.call c k)) (e : String)
    (htx : (if linked' then tx' else none) = none) :
    OnCourse migrations n linked' tx' (k (.error e)) := by
  obtain ⟨K, ⟨_, hk⟩, happlied, _⟩ := h
  refine ⟨_, hk (.error e), ?_, ?_⟩
  · rw [applied_next_error]
    exact happlied
  · rw [htx]
    trivial

/-- The invariant of a call. -/
structure SessionOk (migrations : List Migration) (n : ℕ) (s : Session) : Prop where
  /-- The caller is right. -/
  running : ∀ p, s.client = .running p → OnCourse migrations n s.linked s.tx p
  /-- The caller will be right when the answer arrives, or an error instead of it. -/
  served : ∀ c a k, s.client = .served c a k → OnCourse migrations n s.linked s.tx (k a) ∧
    ∀ e, OnCourse migrations n false s.tx (k (.error e))
  /-- A request was left behind by the protocol. -/
  late : ∀ c, s.late = some c → Pending migrations n s.tx c
  /-- A request is left behind on a lost connection only. -/
  late_eq : s.linked = true → s.late = none

/-- The invariant of a call is kept when others commit. -/
lemma SessionOk.mono {n n' : ℕ} {s : Session} (h : SessionOk migrations n s) (hn : n ≤ n') :
    SessionOk migrations n' s where
  running p hp := (h.running p hp).mono hn
  served c a k hc :=
    ⟨((h.served c a k hc).1).mono hn, fun e => ((h.served c a k hc).2 e).mono hn⟩
  late c hc := by
    obtain ⟨K, hpre, hK⟩ := h.late c hc
    exact ⟨K, hpre, hK.mono hn⟩
  late_eq := h.late_eq

/-- The request that a caller leaves behind was made by the protocol. -/
lemma SessionOk.left {n : ℕ} {s : Session} (h : SessionOk migrations n s) {c : DbCall}
    {k : c.Answer → DbProg Unit} (hclient : s.client = .running (.call c k)) :
    ∀ c', s.left c = some c' → Pending migrations n s.tx c' := by
  intro c' hc'
  unfold Session.left at hc'
  split_ifs at hc' with hlinked
  · obtain rfl := Option.some.inj hc'
    obtain ⟨K, hp, hK⟩ := h.running _ hclient
    rw [if_pos hlinked] at hK
    exact ⟨K, hp.1, hK⟩
  · exact h.late c' hc'

/-- What an action of a call does. -/
inductive Acts (db : Db) (s : Session) : Db → Session → Prop where
  /-- The request is served. -/
  | serve {c k db' tx' a} (hclient : s.client = .running (.call c k)) (hlinked : s.linked = true)
      (hperform : db.perform s.tx c = some (db', tx', a)) :
      Acts db s db' { s with client := .served c a k, tx := tx' }
  /-- The request fails. -/
  | refuse {c k} (e : String) (hclient : s.client = .running (.call c k)) :
      Acts db s db { s with client := .served c (.error e) k, tx := none }
  /-- The answer arrives. -/
  | receive {c a k} (hclient : s.client = .served c a k) :
      Acts db s db { s with client := .running (k a) }
  /-- The caller gives up before the request is served. -/
  | giveUp {c k} (e : String) (hclient : s.client = .running (.call c k)) :
      Acts db s db { s with client := .running (k (.error e)), linked := false, late := s.left c }
  /-- The caller gives up before the answer arrives. -/
  | lose {c a k} (e : String) (hclient : s.client = .served c a k) :
      Acts db s db { s with client := .running (k (.error e)), linked := false }
  /-- The caller is cut off before the request is served. -/
  | cut {c k} (hclient : s.client = .running (.call c k)) :
      Acts db s db { s with client := .gone, linked := false, late := s.left c }
  /-- The caller is cut off before the answer arrives. -/
  | cutServed {c a k} (hclient : s.client = .served c a k) :
      Acts db s db { s with client := .gone, linked := false }
  /-- A request that was left behind is served. -/
  | late {c db' tx' a} (hlate : s.late = some c)
      (hperform : db.perform s.tx c = some (db', tx', a)) :
      Acts db s db' { s with late := none, tx := tx' }
  /-- The transaction is rolled back. -/
  | abort : Acts db s db { s with linked := false, late := none, tx := none }

/-- An action does what it does. -/
lemma acts_of_act {db db' : Db} {s s' : Session} {a : Act} (h : s.act db a = some (db', s')) :
    Acts db s db' s' := by
  cases a with
  | serve =>
    simp only [Session.act] at h
    split at h
    · rename_i c k hclient
      split_ifs at h with hlinked
      obtain ⟨⟨db₁, tx₁, a⟩, hperform, heq⟩ := Option.map_eq_some_iff.mp h
      obtain ⟨rfl, rfl⟩ := Prod.mk.inj heq
      exact .serve hclient hlinked hperform
    · cases h
  | refuse e =>
    simp only [Session.act] at h
    split at h
    · rename_i c k hclient
      obtain ⟨rfl, rfl⟩ := Prod.mk.inj (Option.some.inj h)
      exact .refuse e hclient
    · cases h
  | receive =>
    simp only [Session.act] at h
    split at h
    · rename_i c a k hclient
      obtain ⟨rfl, rfl⟩ := Prod.mk.inj (Option.some.inj h)
      exact .receive hclient
    · cases h
  | giveUp e =>
    simp only [Session.act] at h
    split at h
    · rename_i c k hclient
      obtain ⟨rfl, rfl⟩ := Prod.mk.inj (Option.some.inj h)
      exact .giveUp e hclient
    · rename_i c a k hclient
      obtain ⟨rfl, rfl⟩ := Prod.mk.inj (Option.some.inj h)
      exact .lose e hclient
    · cases h
  | cut =>
    simp only [Session.act] at h
    split at h
    · rename_i c k hclient
      obtain ⟨rfl, rfl⟩ := Prod.mk.inj (Option.some.inj h)
      exact .cut hclient
    · rename_i c a k hclient
      obtain ⟨rfl, rfl⟩ := Prod.mk.inj (Option.some.inj h)
      exact .cutServed hclient
    · cases h
  | late =>
    simp only [Session.act] at h
    split at h
    · rename_i c hlate
      obtain ⟨⟨db₁, tx₁, a⟩, hperform, heq⟩ := Option.map_eq_some_iff.mp h
      obtain ⟨rfl, rfl⟩ := Prod.mk.inj heq
      exact .late hlate hperform
    · cases h
  | abort =>
    obtain ⟨rfl, rfl⟩ := Prod.mk.inj (Option.some.inj h)
    exact .abort

/-- A call that has nothing left to do but the requests that it left behind. -/
lemma SessionOk.cutOff {n : ℕ} {s : Session} {late : Option DbCall}
    (hlate : ∀ c, late = some c → Pending migrations n s.tx c) :
    SessionOk migrations n { s with client := .gone, linked := false, late := late } where
  running _ hp := nomatch hp
  served _ _ _ hc := nomatch hc
  late := hlate
  late_eq hlinked := nomatch hlinked

/-- An action of a call keeps its invariant, and commits at most the next migration. -/
theorem acts_ok (hdistinct : (migrations.map Migration.version).Nodup) {n : ℕ} {db db' : Db}
    (hdb : Committed migrations n db) {s s' : Session} (hs : SessionOk migrations n s)
    (h : Acts db s db' s') :
    ∃ n', n ≤ n' ∧ Committed migrations n' db' ∧ SessionOk migrations n' s' := by
  cases h with
  | @serve c k _ tx' a hclient hlinked hperform =>
    obtain ⟨K, ⟨hpre, hk⟩, hK⟩ := hs.running _ hclient
    rw [if_pos hlinked] at hK
    obtain ⟨n', hn, hdb', hK'⟩ := perform_sound hdistinct hdb hK hpre hperform
    refine ⟨n', hn, hdb', ⟨nofun, ?_, fun c' hlate => ?_, hs.late_eq⟩⟩
    · rintro c' a' k' ⟨⟩
      refine ⟨⟨_, hk a, ?_⟩, fun e => ((hs.running _ hclient).mono hn).error e rfl⟩
      rw [if_pos hlinked]
      exact hK'
    · rw [hs.late_eq hlinked] at hlate
      cases hlate
  | @refuse c k e hclient =>
    have hcall := hs.running _ hclient
    refine ⟨n, le_rfl, hdb, ⟨nofun, ?_, fun c' hlate => ?_, hs.late_eq⟩⟩
    · rintro c' a' k' ⟨⟩
      exact ⟨hcall.error e (ite_self none), fun e' => hcall.error e' rfl⟩
    · obtain ⟨K, hpre, happlied, _⟩ := hs.late c' hlate
      exact ⟨K, hpre, happlied, trivial⟩
  | @receive c a k hclient =>
    refine ⟨n, le_rfl, hdb, ⟨?_, nofun, hs.late, hs.late_eq⟩⟩
    rintro p ⟨⟩
    exact (hs.served c a k hclient).1
  | @giveUp c k e hclient =>
    refine ⟨n, le_rfl, hdb, ⟨?_, nofun, hs.left hclient,
      nofun⟩⟩
    rintro p ⟨⟩
    exact (hs.running _ hclient).error e rfl
  | @lose c a k e hclient =>
    refine ⟨n, le_rfl, hdb, ⟨?_, nofun, hs.late,
      nofun⟩⟩
    rintro p ⟨⟩
    exact (hs.served c a k hclient).2 e
  | @cut c k hclient => exact ⟨n, le_rfl, hdb, SessionOk.cutOff (hs.left hclient)⟩
  | @cutServed c a k hclient => exact ⟨n, le_rfl, hdb, SessionOk.cutOff hs.late⟩
  | @late c _ tx' a hlate hperform =>
    have hlinked : s.linked = false := by
      by_contra hne
      have hnone := hs.late_eq (by simpa using hne)
      rw [hnone] at hlate
      cases hlate
    obtain ⟨K, hpre, hK⟩ := hs.late c hlate
    obtain ⟨n', hn, hdb', _⟩ := perform_sound hdistinct hdb hK hpre hperform
    -- the caller has lost the connection, so its transaction is not the one of the request
    have hcaller : ∀ p, OnCourse migrations n false s.tx p → OnCourse migrations n' false tx' p :=
      fun p hp => OnCourse.mono hp hn
    refine ⟨n', hn, hdb', ⟨fun p hp => ?_, fun c' a' k' hc => ⟨?_, fun e => ?_⟩,
      nofun, fun _ => rfl⟩⟩
    · have hcall := hs.running p hp
      rw [hlinked] at hcall ⊢
      exact hcaller p hcall
    · have hanswer := (hs.served c' a' k' hc).1
      rw [hlinked] at hanswer ⊢
      exact hcaller _ hanswer
    · exact hcaller _ ((hs.served c' a' k' hc).2 e)
  | abort =>
    have hcaller : ∀ p, OnCourse migrations n s.linked s.tx p →
        OnCourse migrations n false none p := by
      rintro p ⟨K, hp, happlied, _⟩
      exact ⟨K, hp, happlied, trivial⟩
    refine ⟨n, le_rfl, hdb, ⟨fun p hp => hcaller p (hs.running p hp), fun c a k hc => ?_,
      nofun, nofun⟩⟩
    exact ⟨hcaller _ (hs.served c a k hc).1, (hs.served c a k hc).2⟩

/-- The invariant of the system. -/
def MigrateOk (migrations : List Migration) (s : MigrateState) : Prop :=
  ∃ n, Committed migrations n s.db ∧
    ∀ i session, s.sessions i = some session → SessionOk migrations n session

/-- A new call is on course. -/
lemma sessionOk_start {n : ℕ} (library : MigrateLibrary) :
    SessionOk migrations n (.start (library.migrate migrations)) where
  running p hp := by
    obtain rfl := Client.running.inj hp
    refine ⟨⟨0, .idle⟩, ?_, Nat.zero_le n, trivial⟩
    cases library with
    | rust => exact follows_rust_migrate
    | go => exact follows_go_migrate
  served _ _ _ hc := nomatch hc
  late _ hc := nomatch hc
  late_eq _ := rfl

/-- At first nothing is committed, and there is no call. -/
lemma migrateOk_new : MigrateOk migrations .new := by
  refine ⟨0, ⟨Nat.zero_le _, rfl, rfl⟩, fun i session h => ?_⟩
  exact absurd h (Option.some_ne_none _).symm

/-- Every step keeps the invariant of the system. -/
lemma migrateOk_step (hdistinct : (migrations.map Migration.version).Nodup) (s : MigrateState)
    (l : MigrateLabel) (s' : MigrateState) (h : MigrateOk migrations s)
    (hstep : MigrateState.step migrations s l = some s') : MigrateOk migrations s' := by
  obtain ⟨n, hdb, hsessions⟩ := h
  cases l with
  | call i library =>
    simp only [MigrateState.step] at hstep
    split at hstep
    · obtain rfl := Option.some.inj hstep
      refine ⟨n, hdb, fun j session hj => ?_⟩
      by_cases hij : j = i
      · subst hij
        simp only [Function.update_self] at hj
        obtain rfl := Option.some.inj hj
        exact sessionOk_start library
      · simp only [Function.update_of_ne hij] at hj
        exact hsessions j session hj
    · cases hstep
  | act i a =>
    simp only [MigrateState.step] at hstep
    split at hstep
    · cases hstep
    · rename_i session hi
      obtain ⟨⟨db', session'⟩, hact, rfl⟩ := Option.map_eq_some_iff.mp hstep
      obtain ⟨n', hn, hdb', hsession'⟩ :=
        acts_ok hdistinct hdb (hsessions i session hi) (acts_of_act hact)
      refine ⟨n', hdb', fun j other hj => ?_⟩
      by_cases hij : j = i
      · subst hij
        simp only [Function.update_self] at hj
        obtain rfl := Option.some.inj hj
        exact hsession'
      · simp only [Function.update_of_ne hij] at hj
        exact (hsessions j other hj).mono hn

/-- The invariant of the system says that what is committed is as it should be. -/
lemma MigrateOk.exactlyOnce (hdistinct : (migrations.map Migration.version).Nodup)
    {s : MigrateState} (h : MigrateOk migrations s) : ExactlyOnce migrations s := by
  obtain ⟨n, hdb, hsessions⟩ := h
  have hprefix : s.db.scripts <+: migrations := by
    rw [hdb.scripts_eq]
    exact List.take_prefix n migrations
  refine ⟨fun m hm => ?_, ?_, hprefix, ?_, fun i session hi hdone => ?_⟩
  · rw [hdb.scripts_eq, hdb.versions_eq]
    refine ⟨List.mem_map_of_mem, fun hmem => ?_⟩
    obtain ⟨k, hk⟩ := List.mem_iff_getElem?.mp hm
    have hlt := lt_of_version_mem hdistinct hk hmem
    exact List.mem_iff_getElem?.mpr ⟨k, by rwa [List.getElem?_take_of_lt hlt]⟩
  · exact hprefix.sublist.nodup (List.Nodup.of_map _ hdistinct)
  · rw [hdb.versions_eq]
    exact (List.take_prefix n migrations).map Migration.version
  · obtain ⟨K, hlength, happlied, _⟩ := (hsessions i session hi).running _ hdone
    have hn : migrations.take n = migrations := by
      have heq : K.applied = migrations.length := hlength
      exact List.take_of_length_le (by omega)
    intro m hm
    rw [hdb.scripts_eq, hdb.versions_eq, hn]
    exact ⟨hm, List.mem_map_of_mem hm⟩

end Migrate

/-- Along any run, with any number of calls of both libraries and a list of migrations with
distinct versions, what is committed is as it should be. -/
theorem always_exactlyOnce (migrations : List Migration)
    (hdistinct : (migrations.map Migration.version).Nodup) (labels : List MigrateLabel) :
    Always (MigrateState.step migrations) (ExactlyOnce migrations) .new labels := by
  intro pre s _ hrun
  have hok : Migrate.MigrateOk migrations s :=
    invariant_of_runFrom (Migrate.migrateOk_step hdistinct) Migrate.migrateOk_new hrun
  exact hok.exactlyOnce hdistinct

/-- Two calls, the first of which gives up while its commit is on the way. -/
theorem always_exactlyOnce_two :
    Always (MigrateState.step [⟨"1", "CREATE TABLE a ()"⟩, ⟨"2", "CREATE TABLE b ()"⟩])
      (ExactlyOnce [⟨"1", "CREATE TABLE a ()"⟩, ⟨"2", "CREATE TABLE b ()"⟩]) .new
      [.call 0 .go, .call 1 .rust, .act 0 .serve, .act 0 .receive, .act 0 .serve, .act 0 .receive,
        .act 0 .serve, .act 0 .receive, .act 0 .serve, .act 0 .receive, .act 0 .serve,
        .act 0 .receive, .act 0 (.giveUp "timeout"), .act 1 .serve, .act 1 .receive,
        .act 0 .late, .act 1 .serve] :=
  always_exactlyOnce _ (by decide) _

end GoyStore
