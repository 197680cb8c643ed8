import GoyStore.Resilience.Executor
import GoyStore.Resilience.FailureCount

/-!
# Calls one after the other

One executor serves calls one after the other.  Some operations always succeed, the others always
fail and leave the backend as it is: an operation that rejects its arguments, say.  The executors
do not tell such a failure from a fault of the backend: they retry it and report each attempt to the
breaker.

A call whose operation succeeds is refused only after failed attempts of the other calls have
reached the threshold (`refused_after_failures`), and it returns what it returns in the run in which
only the calls of its kind that are not refused are made (`run_spared`).
-/

namespace GoyStore

/-- An executor whose calls come one after the other: the report of a failure is one piece, and the
counter of the breaker is read. -/
structure SequentialModel extends ExecutorModel where
  /-- The report of a failure. -/
  onFailure : ℕ → Cb → Cb
  /-- The number of failures in a row, as the breaker counts them. -/
  counter : Cb → ℤ
  /-- The threshold. -/
  threshold : Cb → ℤ
  /-- A new breaker is closed and has counted nothing. -/
  newBreaker_counter : ∀ ex, state (newBreaker ex) = .Closed ∧ counter (newBreaker ex) = 0
  /-- The admission check changes the state at most. -/
  canExecute_frame : ∀ now b, counter (canExecute now b).2 = counter b ∧
    threshold (canExecute now b).2 = threshold b ∧
    lastFailure (canExecute now b).2 = lastFailure b ∧
    resetTimeout (canExecute now b).2 = resetTimeout b
  /-- A success resets the counter. -/
  onSuccess_frame : ∀ b, counter (onSuccess b) = 0 ∧ threshold (onSuccess b) = threshold b ∧
    resetTimeout (onSuccess b) = resetTimeout b
  /-- A failure is counted, with its time. -/
  onFailure_frame : ∀ now b, counter (onFailure now b) ≤ counter b + 1 ∧
    threshold (onFailure now b) = threshold b ∧ lastFailure (onFailure now b) = some now ∧
    resetTimeout (onFailure now b) = resetTimeout b
  /-- A failure leaves the state, or opens the circuit with the counter at the threshold. -/
  onFailure_state : ∀ now b, state (onFailure now b) = state b ∨
    threshold b ≤ counter (onFailure now b)

/-- A call: its operation, the time of its admission check and the times at which its attempts end.
A call that needs more attempts is cut off after the last of these times. -/
structure Request (β : Type) where
  /-- What is called. -/
  op : β
  /-- The time of the admission check. -/
  start : ℕ
  /-- The times at which the attempts end. -/
  ends : List ℕ

/-- A call and what became of it. -/
structure Entry (β α : Type) where
  /-- The call. -/
  request : Request β
  /-- The admission check refused it. -/
  refused : Bool
  /-- What it returned; `none` when it was cut off. -/
  result : Option (Except String α)
  /-- The times of its failed attempts. -/
  failedAt : List ℕ

/-- The times of failed attempts since the last success, after one more call. -/
def Entry.addFailures {β α : Type} (times : List ℕ) (e : Entry β α) : List ℕ :=
  match e.result with
  | some (.ok _) => []
  | _ => times ++ e.failedAt

namespace SequentialModel

/-- Where the loop of a call ends. -/
structure LoopEnd (X : SequentialModel) (S α : Type) where
  /-- What the call returns; `none` when it was cut off. -/
  result : Option (Except String α)
  /-- The times of the failed attempts. -/
  failedAt : List ℕ
  /-- The breaker. -/
  breaker : X.Cb
  /-- The backend. -/
  store : S

variable (X : SequentialModel) {β S α : Type}

/-- The loop of `execute` from an attempt on. -/
def attempts (ex : X.Executor) (opName : String) (operation : S → Except String α × S) :
    X.Counter → List ℕ → X.Cb → S → LoopEnd X S α
  | _, [], b, s => ⟨none, [], b, s⟩
  | attempt, now :: ends, b, s =>
    match operation s with
    | (.ok value, s') => ⟨some (.ok value), [], X.onSuccess b, s'⟩
    | (.error err, s') =>
      match X.nextAttempt ex attempt with
      | none => ⟨some (.error (X.finalError ex opName (some err))), [now], X.onFailure now b, s'⟩
      | some next =>
        let rest := attempts ex opName operation next ends (X.onFailure now b) s'
        { rest with failedAt := now :: rest.failedAt }

/-- The operations that are called: their names and what they do at the backend. -/
structure Operations (β S α : Type) where
  /-- The argument `op_name`. -/
  opName : β → String
  /-- What an operation does. -/
  perform : β → S → Except String α × S

/-- `execute`, with the breaker and the backend afterwards. -/
def execute (ex : X.Executor) (ops : Operations β S α) (r : Request β) (b : X.Cb) (s : S) :
    Entry β α × X.Cb × S :=
  match X.canExecute r.start b with
  | (.error err, b') => (⟨r, true, some (.error err), []⟩, b', s)
  | (.ok (), b') =>
    match X.firstAttempt ex with
    | none => (⟨r, false, some (.error (X.finalError ex (ops.opName r.op) none)), []⟩, b', s)
    | some attempt =>
      let loop := X.attempts ex (ops.opName r.op) (ops.perform r.op) attempt r.ends b' s
      (⟨r, false, loop.result, loop.failedAt⟩, loop.breaker, loop.store)

/-- Calls one after the other. -/
def run (ex : X.Executor) (ops : Operations β S α) : List (Request β) → X.Cb → S → List (Entry β α)
  | [], _, _ => []
  | r :: rs, b, s =>
    let e := X.execute ex ops r b s
    e.1 :: run ex ops rs e.2.1 e.2.2

/-- The times of the failed attempts since the last call that returned successfully. -/
def failedSince : List (Entry β α) → List ℕ := List.foldl Entry.addFailures []

/-- An operation that succeeds, whatever the backend holds. -/
def Operations.Succeeds (ops : Operations β S α) (op : β) : Prop :=
  ∀ s, ∃ value s', ops.perform op s = (.ok value, s')

/-- An operation that fails and leaves the backend as it is. -/
def Operations.Rejects (ops : Operations β S α) (op : β) : Prop :=
  ∀ s, ∃ err, ops.perform op s = (.error err, s)

/-! ### What the breaker has counted -/

/-- The breaker has counted the failures at the given times, and no longer is closed only if they
reach the threshold. -/
structure Counted (X : SequentialModel) (ex : X.Executor) (b : X.Cb) (times : List ℕ) : Prop where
  /-- The counter is at most their number. -/
  counter : X.counter b ≤ times.length
  /-- The threshold is that of the new breaker. -/
  threshold : X.threshold b = X.threshold (X.newBreaker ex)
  /-- The reset timeout is that of the new breaker. -/
  resetTimeout : X.resetTimeout b = X.resetTimeout (X.newBreaker ex)
  /-- A breaker that is not closed has counted failures up to the threshold, and knows the time of
  the last one. -/
  tripped : X.state b ≠ .Closed → X.threshold (X.newBreaker ex) ≤ times.length ∧
    ∃ t, times.getLast? = some t ∧ X.lastFailure b = some t

variable {X} {ex : X.Executor} {ops : Operations β S α} {b : X.Cb} {times : List ℕ}

/-- A new breaker has counted nothing. -/
lemma counted_newBreaker : Counted X ex (X.newBreaker ex) [] where
  counter := Int.le_of_eq (X.newBreaker_counter ex).2
  threshold := rfl
  resetTimeout := rfl
  tripped hne := absurd (X.newBreaker_counter ex).1 hne

/-- The admission check counts nothing. -/
lemma Counted.canExecute (h : Counted X ex b times) (now : ℕ) :
    Counted X ex (X.canExecute now b).2 times := by
  obtain ⟨hcounter, hthreshold, hlast, hreset⟩ := X.canExecute_frame now b
  refine ⟨hcounter ▸ h.counter, hthreshold.trans h.threshold, hreset.trans h.resetTimeout,
    fun hne => ?_⟩
  rw [hlast]
  apply h.tripped
  rw [X.canExecute_state] at hne
  intro hclosed
  rw [hclosed] at hne
  simp at hne

/-- After a success nothing is counted. -/
lemma Counted.onSuccess (h : Counted X ex b times) : Counted X ex (X.onSuccess b) [] := by
  obtain ⟨hcounter, hthreshold, hreset⟩ := X.onSuccess_frame b
  exact ⟨Int.le_of_eq hcounter, hthreshold.trans h.threshold, hreset.trans h.resetTimeout,
    fun hne => absurd (X.onSuccess_state b) hne⟩

/-- One more failure is counted. -/
lemma Counted.onFailure (h : Counted X ex b times) (now : ℕ) :
    Counted X ex (X.onFailure now b) (times ++ [now]) := by
  obtain ⟨hcounter, hthreshold, hlast, hreset⟩ := X.onFailure_frame now b
  have hlength : ((times ++ [now]).length : ℤ) = times.length + 1 := by simp
  have hle := h.counter
  refine ⟨by omega, hthreshold.trans h.threshold, hreset.trans h.resetTimeout, fun hne => ?_⟩
  refine ⟨?_, now, List.getLast?_concat, hlast⟩
  rcases X.onFailure_state now b with hstate | hreached
  · have hbefore := (h.tripped (hstate ▸ hne)).1
    omega
  · have hsame := h.threshold
    omega

/-- What is counted at the end of the loop of a call. -/
lemma Counted.attempts (opName : String) (operation : S → Except String α × S) (r : Request β)
    {attempt : X.Counter} {ends : List ℕ} {s : S} (h : Counted X ex b times) :
    Counted X ex (X.attempts ex opName operation attempt ends b s).breaker
      (Entry.addFailures times ⟨r, false,
        (X.attempts ex opName operation attempt ends b s).result,
        (X.attempts ex opName operation attempt ends b s).failedAt⟩) := by
  induction ends generalizing attempt b s times with
  | nil =>
    have hnone : Entry.addFailures times (⟨r, false, none, []⟩ : Entry β α) = times :=
      List.append_nil times
    exact hnone.symm ▸ h
  | cons now ends ih =>
    rw [SequentialModel.attempts]
    rcases operation s with ⟨err | value, s'⟩
    · rcases hnext : X.nextAttempt ex attempt with - | next
      · exact h.onFailure now
      · have hrest := @ih _ _ next s' (h.onFailure now)
        simp only
        rcases hresult : (X.attempts ex opName operation next ends (X.onFailure now b) s').result
          with - | (e | v)
        all_goals
          simp only [Entry.addFailures, hresult, List.append_assoc, List.singleton_append]
            at hrest ⊢
          exact hrest
    · exact h.onSuccess

/-! ### One call -/

variable {r : Request β} {s : S}

/-- A refused call gets the error of the open circuit, and the breaker and the backend stay as they
are. -/
lemma execute_of_blocked (h : X.Blocked r.start b) :
    X.execute ex ops r b s = (⟨r, true, some (.error X.openError), []⟩, b, s) := by
  rw [execute, X.canExecute_of_blocked r.start b h]

/-- An admission check that admits, and keeps a closed circuit closed. -/
lemma canExecute_of_admitted (h : ¬ X.Blocked r.start b) :
    ∃ b', X.canExecute r.start b = (.ok (), b') ∧ (X.state b = .Closed → X.state b' = .Closed) := by
  have hadmitted := X.canExecute_of_not_blocked r.start b h
  refine ⟨(X.canExecute r.start b).2, Prod.ext hadmitted rfl, fun hclosed => ?_⟩
  rw [X.canExecute_state, if_neg, hclosed]
  rintro ⟨hopen, -⟩
  rw [hclosed] at hopen
  cases hopen

/-- A call is refused exactly while the circuit is blocked. -/
lemma execute_refused_iff :
    (X.execute ex ops r b s).1.refused = true ↔ X.Blocked r.start b := by
  by_cases hblocked : X.Blocked r.start b
  · rw [execute_of_blocked hblocked]
    exact ⟨fun _ => hblocked, fun _ => rfl⟩
  · obtain ⟨b', hcheck, -⟩ := canExecute_of_admitted hblocked
    rw [execute, hcheck]
    refine ⟨fun h => ?_, fun h => absurd h hblocked⟩
    rcases hfirst : X.firstAttempt ex with - | attempt
    all_goals
      simp only [hfirst] at h
      cases h

/-- A call is kept with what became of it. -/
lemma execute_request : (X.execute ex ops r b s).1.request = r := by
  by_cases hblocked : X.Blocked r.start b
  · rw [execute_of_blocked hblocked]
  · obtain ⟨b', hcheck, -⟩ := canExecute_of_admitted hblocked
    rw [execute, hcheck]
    rcases hfirst : X.firstAttempt ex with - | attempt
    all_goals rfl

/-- A call with an error and no failed attempt adds no failures. -/
lemma addFailures_error (refused : Bool) (err : String) :
    Entry.addFailures times (⟨r, refused, some (.error err), []⟩ : Entry β α) = times :=
  List.append_nil times

/-- What is counted after a call. -/
lemma Counted.execute (h : Counted X ex b times) :
    Counted X ex (X.execute ex ops r b s).2.1
      (Entry.addFailures times (X.execute ex ops r b s).1) := by
  by_cases hblocked : X.Blocked r.start b
  · rw [execute_of_blocked hblocked, addFailures_error]
    exact h
  · obtain ⟨b', hcheck, -⟩ := canExecute_of_admitted hblocked
    have hcounted : Counted X ex b' times := by
      have := h.canExecute r.start
      rwa [hcheck] at this
    rw [SequentialModel.execute, hcheck]
    rcases hfirst : X.firstAttempt ex with - | attempt
    · simp only [addFailures_error]
      exact hcounted
    · exact hcounted.attempts (ops.opName r.op) (ops.perform r.op) r

/-- The loop of an operation that rejects its arguments leaves the backend as it is. -/
lemma attempts_of_rejects {opName : String} {operation : S → Except String α × S}
    (h : ∀ s, ∃ err, operation s = (.error err, s)) {attempt : X.Counter} {ends : List ℕ} :
    (X.attempts ex opName operation attempt ends b s).store = s := by
  induction ends generalizing attempt b with
  | nil => rfl
  | cons now ends ih =>
    obtain ⟨err, hoperation⟩ := h s
    rw [attempts, hoperation]
    rcases hnext : X.nextAttempt ex attempt with - | next
    · rfl
    · exact ih

/-- A call whose operation rejects its arguments leaves the backend as it is. -/
lemma execute_of_rejects (h : ops.Rejects r.op) : (X.execute ex ops r b s).2.2 = s := by
  by_cases hblocked : X.Blocked r.start b
  · rw [execute_of_blocked hblocked]
  · obtain ⟨b', hcheck, -⟩ := canExecute_of_admitted hblocked
    rw [execute, hcheck]
    rcases hfirst : X.firstAttempt ex with - | attempt
    · rfl
    · exact attempts_of_rejects h

/-- An admitted call whose operation succeeds returns the same and leaves the same backend whatever
the breaker has counted, makes no failed attempt, and keeps a closed circuit closed. -/
lemma execute_of_succeeds (h : ops.Succeeds r.op) (ex : X.Executor) (s : S) :
    ∃ e s', e.request = r ∧ e.refused = false ∧ e.failedAt = [] ∧
      ∀ b, ¬ X.Blocked r.start b → ∃ b', X.execute ex ops r b s = (e, b', s') ∧
        (X.state b = .Closed → X.state b' = .Closed) := by
  rcases hfirst : X.firstAttempt ex with - | attempt
  · refine ⟨⟨r, false, some (.error (X.finalError ex (ops.opName r.op) none)), []⟩, s,
      rfl, rfl, rfl, fun b hb => ?_⟩
    obtain ⟨b', hcheck, hclosed⟩ := canExecute_of_admitted hb
    refine ⟨b', ?_, hclosed⟩
    rw [execute, hcheck, hfirst]
  · rcases hends : r.ends with - | ⟨now, ends⟩
    · refine ⟨⟨r, false, none, []⟩, s, rfl, rfl, rfl, fun b hb => ?_⟩
      obtain ⟨b', hcheck, hclosed⟩ := canExecute_of_admitted hb
      refine ⟨b', ?_, hclosed⟩
      rw [execute, hcheck, hfirst]
      simp only [hends, attempts]
    · obtain ⟨value, s', hvalue⟩ := h s
      refine ⟨⟨r, false, some (.ok value), []⟩, s', rfl, rfl, rfl, fun b hb => ?_⟩
      obtain ⟨b', hcheck, -⟩ := canExecute_of_admitted hb
      refine ⟨X.onSuccess b', ?_, fun _ => X.onSuccess_state b'⟩
      rw [execute, hcheck, hfirst]
      simp only [hends, attempts, hvalue]

/-! ### The runs -/

/-- The calls whose operations are accepted and that are not refused. -/
def spared (accepted : β → Bool) (entries : List (Entry β α)) : List (Entry β α) :=
  entries.filter fun e => accepted e.request.op && !e.refused

variable {accepted : β → Bool} {rs : List (Request β)}

/-- The accepted calls that are not refused return what they return in the run in which only they
are made. -/
theorem run_spared
    (hgood : ∀ r ∈ rs, accepted r.op = true → ops.Succeeds r.op)
    (hbad : ∀ r ∈ rs, accepted r.op = false → ops.Rejects r.op)
    (b : X.Cb) {b₀ : X.Cb} (hclosed : X.state b₀ = .Closed) (s : S) :
    X.run ex ops ((spared accepted (X.run ex ops rs b s)).map Entry.request) b₀ s =
      spared accepted (X.run ex ops rs b s) := by
  induction rs generalizing b b₀ s with
  | nil => rfl
  | cons r rs ih =>
    replace ih := @ih (fun r' hr' => hgood r' (List.mem_cons_of_mem r hr'))
      (fun r' hr' => hbad r' (List.mem_cons_of_mem r hr'))
    have hrequest : (X.execute ex ops r b s).1.request = r := execute_request
    rw [run, spared]
    rcases hop : accepted r.op with - | -
    · -- the call is rejected: neither the backend nor the other run notices it
      rw [List.filter_cons_of_neg (by simp [hrequest, hop])]
      have hstore : (X.execute ex ops r b s).2.2 = s :=
        execute_of_rejects (hbad r List.mem_cons_self hop)
      rw [hstore]
      exact ih _ hclosed s
    · by_cases hblocked : X.Blocked r.start b
      · rw [execute_of_blocked hblocked, List.filter_cons_of_neg (by simp)]
        exact ih b hclosed s
      · -- the breaker of the other run is closed, so that it admits the call as well
        obtain ⟨e, s', he, hrefused, -, hexecute⟩ :=
          execute_of_succeeds (hgood r List.mem_cons_self hop) ex s
        have hadmitted : ¬ X.Blocked r.start b₀ := fun hb => by
          have hopen := hb.1
          rw [hclosed] at hopen
          cases hopen
        obtain ⟨b₁, hfull, -⟩ := hexecute b hblocked
        obtain ⟨b₂, halone, hclosed₂⟩ := hexecute b₀ hadmitted
        rw [hfull, List.filter_cons_of_pos (by simp [he, hop, hrefused]), List.map_cons, run, he,
          halone]
        exact congrArg (e :: ·) (ih b₁ (hclosed₂ hclosed) s')

/-- A refused call finds the failed attempts since the last success at the threshold, and the last
of them less than the reset timeout ago. -/
theorem refused_after_failures {hist : List (Entry β α)}
    (hcounted : Counted X ex b (failedSince hist)) {pre post : List (Entry β α)} {e : Entry β α}
    (hrun : X.run ex ops rs b s = pre ++ e :: post) (hrefused : e.refused = true) :
    e.result = some (.error X.openError) ∧
      X.threshold (X.newBreaker ex) ≤ (failedSince (hist ++ pre)).length ∧
      ∃ t ∈ (failedSince (hist ++ pre)).getLast?,
        ((e.request.start - t : ℕ) : ℤ) < X.resetTimeout (X.newBreaker ex) := by
  induction rs generalizing hist pre b s with
  | nil => simp [run] at hrun
  | cons r rs ih =>
    rw [run] at hrun
    rcases pre with - | ⟨e', pre⟩
    · obtain ⟨rfl, -⟩ := List.cons.inj hrun
      have hblocked := execute_refused_iff.mp hrefused
      have htripped := hcounted.tripped fun hclosed => by
        have hopen := hblocked.1
        rw [hclosed] at hopen
        cases hopen
      obtain ⟨hthreshold, t, hlast, hfailure⟩ := htripped
      have hrunning := hblocked.2 t hfailure
      rw [hcounted.resetTimeout] at hrunning
      rw [execute_of_blocked hblocked, List.append_nil]
      exact ⟨rfl, hthreshold, t, hlast, hrunning⟩
    · obtain ⟨rfl, hrest⟩ := List.cons.inj hrun
      have hnext : Counted X ex (X.execute ex ops r b s).2.1
          (failedSince (hist ++ [(X.execute ex ops r b s).1])) := by
        rw [failedSince, List.foldl_append]
        exact hcounted.execute
      have hlater := ih hnext hrest
      rwa [List.append_assoc] at hlater

/-- An accepted call makes no failed attempt. -/
theorem failedAt_of_accepted (hgood : ∀ r ∈ rs, accepted r.op = true → ops.Succeeds r.op)
    {e : Entry β α} (he : e ∈ X.run ex ops rs b s) (haccepted : accepted e.request.op = true) :
    e.failedAt = [] := by
  induction rs generalizing b s with
  | nil => simp [run] at he
  | cons r rs ih =>
    rw [run] at he
    rcases List.mem_cons.mp he with rfl | he
    · rw [execute_request] at haccepted
      by_cases hblocked : X.Blocked r.start b
      · rw [execute_of_blocked hblocked]
      · obtain ⟨e, s', -, -, hfailed, hexecute⟩ :=
          execute_of_succeeds (hgood r List.mem_cons_self haccepted) ex s
        obtain ⟨b', hfull, -⟩ := hexecute b hblocked
        rw [hfull]
        exact hfailed
    · exact ih (fun r' hr' => hgood r' (List.mem_cons_of_mem r hr')) he

end SequentialModel

/-! ### The two instances -/

namespace Rust

namespace CircuitBreaker

/-- The admission check changes the state at most. -/
lemma canExecute_fields (now : ℕ) (cb : CircuitBreaker) :
    (cb.canExecute now).2.consecutiveFailures = cb.consecutiveFailures ∧
      (cb.canExecute now).2.failureThreshold = cb.failureThreshold ∧
      (cb.canExecute now).2.lastFailureTime = cb.lastFailureTime ∧
      (cb.canExecute now).2.resetTimeout = cb.resetTimeout := by
  rcases canExecute_frame now cb with heq | ⟨-, heq⟩ <;> rw [heq] <;> exact ⟨rfl, rfl, rfl, rfl⟩

/-- A failure is counted, with its time, and changes the state only at the threshold. -/
lemma onFailure_fields (now : ℕ) (cb : CircuitBreaker) :
    (cb.onFailure now).consecutiveFailures = cb.consecutiveFailures + 1 ∧
      (cb.onFailure now).failureThreshold = cb.failureThreshold ∧
      (cb.onFailure now).lastFailureTime = some now ∧
      (cb.onFailure now).resetTimeout = cb.resetTimeout ∧
      ((cb.onFailure now).state = cb.state ∨
        cb.failureThreshold ≤ cb.consecutiveFailures + 1) := by
  unfold onFailure countFailure stampFailure openCircuit
  simp only
  split_ifs with h
  · exact ⟨rfl, rfl, rfl, rfl, Or.inr h⟩
  · exact ⟨rfl, rfl, rfl, rfl, Or.inl rfl⟩

end CircuitBreaker

/-- The Rust executor, one call after the other. -/
def sequentialModel : SequentialModel where
  toExecutorModel := executorModel
  onFailure := CircuitBreaker.onFailure
  counter b := (CircuitBreaker.consecutiveFailures b).toNat
  threshold b := (CircuitBreaker.failureThreshold b).toNat
  newBreaker_counter _ := ⟨rfl, rfl⟩
  canExecute_frame now b := by
    obtain ⟨hcounter, hthreshold, hlast, hreset⟩ := CircuitBreaker.canExecute_fields now b
    exact ⟨congrArg (fun n : UInt32 => (n.toNat : ℤ)) hcounter,
      congrArg (fun n : UInt32 => (n.toNat : ℤ)) hthreshold, hlast, congrArg Nat.cast hreset⟩
  onSuccess_frame _ := ⟨rfl, rfl, rfl⟩
  onFailure_frame now b := by
    obtain ⟨hcounter, hthreshold, hlast, hreset, -⟩ := CircuitBreaker.onFailure_fields now b
    have hle : (CircuitBreaker.consecutiveFailures b + 1).toNat ≤
        (CircuitBreaker.consecutiveFailures b).toNat + 1 := by
      rw [UInt32.toNat_add]
      exact Nat.mod_le _ _
    rw [← hcounter] at hle
    exact ⟨by exact_mod_cast hle, congrArg (fun n : UInt32 => (n.toNat : ℤ)) hthreshold, hlast,
      congrArg Nat.cast hreset⟩
  onFailure_state now b := by
    obtain ⟨hcounter, -, -, -, hstate | hle⟩ := CircuitBreaker.onFailure_fields now b
    · exact Or.inl hstate
    · rw [← hcounter] at hle
      exact Or.inr (by exact_mod_cast UInt32.le_iff_toNat_le.mp hle)

end Rust

namespace Go

namespace CircuitBreaker

/-- The admission check changes the state at most. -/
lemma canExecute_fields (now : ℕ) (cb : CircuitBreaker) :
    (cb.canExecute now).2.consecutiveFailures = cb.consecutiveFailures ∧
      (cb.canExecute now).2.failureThreshold = cb.failureThreshold ∧
      (cb.canExecute now).2.lastFailureTime = cb.lastFailureTime ∧
      (cb.canExecute now).2.resetTimeout = cb.resetTimeout := by
  unfold canExecute
  cases cb.state with
  | Closed => exact ⟨rfl, rfl, rfl, rfl⟩
  | HalfOpen => exact ⟨rfl, rfl, rfl, rfl⟩
  | Open =>
    simp only
    split_ifs <;> exact ⟨rfl, rfl, rfl, rfl⟩

/-- A failure is counted, with its time, and changes the state only at the threshold. -/
lemma onFailure_fields (now : ℕ) (cb : CircuitBreaker) :
    (cb.onFailure now).consecutiveFailures = cb.consecutiveFailures + 1 ∧
      (cb.onFailure now).failureThreshold = cb.failureThreshold ∧
      (cb.onFailure now).lastFailureTime = now ∧
      (cb.onFailure now).resetTimeout = cb.resetTimeout ∧
      ((cb.onFailure now).state = cb.state ∨
        cb.failureThreshold ≤ cb.consecutiveFailures + 1) := by
  unfold onFailure
  simp only
  split_ifs with h
  · exact ⟨rfl, rfl, rfl, rfl, Or.inr h⟩
  · exact ⟨rfl, rfl, rfl, rfl, Or.inl rfl⟩

end CircuitBreaker

/-- One more in `int32` is at most one more. -/
lemma toInt_add_one_le (n : Int32) : (n + 1).toInt ≤ n.toInt + 1 := by
  have hone : (1 : Int32).toInt = 1 := by decide
  have hlow := n.le_toInt
  have hhigh := n.toInt_lt
  rw [Int32.toInt_add, hone, Int.bmod_def]
  split_ifs <;> omega

/-- The Go executor, one call after the other. -/
def sequentialModel : SequentialModel where
  toExecutorModel := executorModel
  onFailure := CircuitBreaker.onFailure
  counter b := (CircuitBreaker.consecutiveFailures b).toInt
  threshold b := (CircuitBreaker.failureThreshold b).toInt
  newBreaker_counter _ := ⟨rfl, rfl⟩
  canExecute_frame now b := by
    obtain ⟨hcounter, hthreshold, hlast, hreset⟩ := CircuitBreaker.canExecute_fields now b
    exact ⟨congrArg Int32.toInt hcounter, congrArg Int32.toInt hthreshold, congrArg some hlast,
      congrArg Int64.toInt hreset⟩
  onSuccess_frame _ := ⟨rfl, rfl, rfl⟩
  onFailure_frame now b := by
    obtain ⟨hcounter, hthreshold, hlast, hreset, -⟩ := CircuitBreaker.onFailure_fields now b
    have hle := toInt_add_one_le (CircuitBreaker.consecutiveFailures b)
    rw [← hcounter] at hle
    exact ⟨hle, congrArg Int32.toInt hthreshold, congrArg some hlast, congrArg Int64.toInt hreset⟩
  onFailure_state now b := by
    obtain ⟨hcounter, -, -, -, hstate | hle⟩ := CircuitBreaker.onFailure_fields now b
    · exact Or.inl hstate
    · rw [← hcounter] at hle
      exact Or.inr (Int32.le_iff_toInt_le.mp hle)

end Go

end GoyStore
