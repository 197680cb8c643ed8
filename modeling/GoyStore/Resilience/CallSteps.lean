import GoyStore.Resilience.ExecutorRuns

/-!
# The steps of one call

A run interleaves the steps of many calls.  `Setup.CallMoves` lists what the steps of one call do to
its own phase (`callMoves_of_step`); the steps of the others leave it (`phase_of_caller_ne`).  An
invariant that speaks of each call apart needs one argument for each of these cases.  The first one
is that a call ends each attempt before it starts the next (`count_invoking`).
-/

namespace GoyStore

open Runs

/-! ### The moves of a call -/

namespace Setup

variable {X : ExecutorModel} {ι κ S α : Type*} [DecidableEq ι] [DecidableEq κ]
  {P : Setup X ι κ S α} {s s' : ExecState X ι κ S α} {l : ExecLabel κ} {c : κ}

/-- What a step of a call does to its phase: one case for each branch of `step`. -/
inductive CallMoves (P : Setup X ι κ S α) (s s' : ExecState X ι κ S α) (c : κ) :
    ExecLabel κ → Prop
  | start (r : Except String Unit) (hc : s.phase c = .notStarted)
    (hc' : s'.phase c = P.afterCheck c r) (hadmitted : s'.admitted c = r.isOk) :
    CallMoves P s s' c (.start c)
  | invoke (attempt : X.Counter) (hc : s.phase c = .ready attempt)
    (hc' : s'.phase c = .running attempt none) : CallMoves P s s' c (.invoke c)
  | takeEffect (attempt : X.Counter) (result : α) (hc : s.phase c = .running attempt none)
    (hc' : s'.phase c = .running attempt (some result)) : CallMoves P s s' c (.takeEffect c)
  | succeed (attempt : X.Counter) (result : α) (hc : s.phase c = .running attempt (some result))
    (hc' : s'.phase c = .reporting (.success result) none) : CallMoves P s s' c (.succeed c)
  | fail (err : String) (attempt : X.Counter) (effect : Option α)
    (hc : s.phase c = .running attempt effect)
    (hc' : s'.phase c = .reporting (.failure attempt err) none) : CallMoves P s s' c (.fail c err)
  | report (outcome : Outcome X α) (point point' : Option X.FailPoint)
    (hc : s.phase c = .reporting outcome point) (hc' : s'.phase c = afterReport outcome point') :
    CallMoves P s s' c (.report c)
  | readState (outcome : Outcome X α) (code : ℕ) (hc : s.phase c = .publishing outcome none)
    (hc' : s'.phase c = .publishing outcome (some code)) : CallMoves P s s' c (.publish c)
  | publish (outcome : Outcome X α) (code : Option ℕ) (hc : s.phase c = .publishing outcome code)
    (hc' : s'.phase c = P.afterPublish c outcome) : CallMoves P s s' c (.publish c)
  | wake (attempt : X.Counter) (err : String) (hc : s.phase c = .backingOff attempt err)
    (hc' : s'.phase c = P.nextRound c attempt err) : CallMoves P s s' c (.wake c)
  | cancel (err : String) (attempt : X.Counter) (e : String)
    (hc : s.phase c = .backingOff attempt e) (hc' : s'.phase c = .returned (.error err)) :
    CallMoves P s s' c (.cancel c err)

/-- Every step of a call is one of its moves. -/
theorem callMoves_of_step (h : P.step s l = some s') (hl : l.caller = some c) :
    CallMoves P s s' c l := by
  cases moves_of_step h with
  | tick d => cases hl
  | lateEffect d n hd => cases hl
  | start d hd =>
    obtain rfl := Option.some.inj hl
    exact .start _ hd (Function.update_self ..) (Function.update_self ..)
  | invoke d attempt hd =>
    obtain rfl := Option.some.inj hl
    exact .invoke attempt hd (Function.update_self ..)
  | takeEffect d attempt hd =>
    obtain rfl := Option.some.inj hl
    exact .takeEffect attempt _ hd (Function.update_self ..)
  | succeed d attempt result hd =>
    obtain rfl := Option.some.inj hl
    exact .succeed attempt result hd (Function.update_self ..)
  | fail d err attempt effect hd =>
    obtain rfl := Option.some.inj hl
    exact .fail err attempt effect hd (Function.update_self ..)
  | report d outcome point hd =>
    obtain rfl := Option.some.inj hl
    exact .report outcome point _ hd (Function.update_self ..)
  | readState d outcome hd hmetrics =>
    obtain rfl := Option.some.inj hl
    exact .readState outcome _ hd (Function.update_self ..)
  | publish d outcome code metrics hd hcode =>
    obtain rfl := Option.some.inj hl
    exact .publish outcome code hd (Function.update_self ..)
  | wake d attempt err hd =>
    obtain rfl := Option.some.inj hl
    exact .wake attempt err hd (Function.update_self ..)
  | cancel d err attempt e hd =>
    obtain rfl := Option.some.inj hl
    exact .cancel err attempt e hd (Function.update_self ..)

/-- A call is admitted by its admission check only. -/
lemma admitted_of_ne_start (h : P.step s l = some s') (hl : l ≠ .start c) :
    s'.admitted c = s.admitted c := by
  cases moves_of_step h with
  | start d hd => exact Function.update_of_ne (fun hc => hl (congrArg _ hc.symm)) _ _
  | _ => rfl

/-- A step of another call does not admit a call. -/
lemma admitted_of_caller_ne (h : P.step s l = some s') (hl : l.caller ≠ some c) :
    s'.admitted c = s.admitted c := by
  refine admitted_of_ne_start h ?_
  rintro rfl
  exact hl rfl

/-- A call that makes a step after its admission check is under way. -/
lemma active_of_caller (h : P.step s l = some s') (hcaller : l.caller = some c)
    (hl : l ≠ .start c) : Active (s.phase c) := by
  cases callMoves_of_step h hcaller with
  | start r hc hc' hadmitted => exact absurd rfl hl
  | _ =>
    rename_i hc hc'
    rw [hc]
    trivial

omit [DecidableEq ι] [DecidableEq κ] in
/-- After its admission check a call has started. -/
lemma afterCheck_ne_notStarted (r : Except String Unit) : P.afterCheck c r ≠ .notStarted := by
  rcases r with err | a
  · exact fun h => by cases h
  · rw [afterCheck]
    split
    · exact fun h => by cases h
    · exact fun h => by cases h

omit [DecidableEq ι] [DecidableEq κ] in
/-- At the top of the loop a call has started. -/
lemma nextRound_ne_notStarted (a : X.Counter) (err : String) :
    P.nextRound c a err ≠ .notStarted := by
  rw [nextRound]
  split
  · exact fun h => by cases h
  · exact fun h => by cases h

/-- A call that has made a step has started. -/
lemma started_of_caller (h : P.step s l = some s') (hl : l.caller = some c) :
    s'.phase c ≠ .notStarted := by
  cases callMoves_of_step h hl with
  | start r hc hc' hadmitted => exact hc' ▸ afterCheck_ne_notStarted r
  | report outcome point point' hc hc' =>
    rw [hc']
    rcases point' with - | p
    · exact fun h => by cases h
    · exact fun h => by cases h
  | publish outcome code hc hc' =>
    rw [hc']
    rcases outcome with result | ⟨a, err⟩
    · exact fun h => by cases h
    · rw [afterPublish]
      split_ifs
      · exact fun h => by cases h
      · exact nextRound_ne_notStarted a err
  | wake a err hc hc' => exact hc' ▸ nextRound_ne_notStarted a err
  | _ =>
    rename_i hc hc'
    rw [hc']
    exact fun h => by cases h

/-- No call gets back to where it was before its admission check. -/
lemma notStarted_of_step (h : P.step s l = some s') (hc : s'.phase c = .notStarted) :
    s.phase c = .notStarted := by
  by_cases hl : l.caller = some c
  · exact absurd hc (started_of_caller h hl)
  · rwa [phase_of_caller_ne h hl] at hc

end Setup

/-! ### The attempts of a call -/

namespace ExecLabel

variable {κ : Type*} {l : ExecLabel κ} {c : κ}

/-- The call whose attempt is started. -/
def invoking : ExecLabel κ → Option κ
  | .invoke c => some c
  | _ => none

/-- The call whose attempt ends. -/
def ending : ExecLabel κ → Option κ
  | .succeed c => some c
  | .fail c _ => some c
  | _ => none

/-- The call whose attempt fails. -/
def failing : ExecLabel κ → Option κ
  | .fail c _ => some c
  | _ => none

/-- A call starts its own attempts. -/
lemma caller_of_invoking (h : l.invoking = some c) : l.caller = some c := by
  cases l <;> first | exact h | cases h

/-- A call ends its own attempts. -/
lemma caller_of_ending (h : l.ending = some c) : l.caller = some c := by
  cases l <;> first | exact h | cases h

/-- A call's own attempts fail. -/
lemma caller_of_failing (h : l.failing = some c) : l.caller = some c := by
  cases l <;> first | exact h | cases h

/-- One more step counts for the call that it belongs to. -/
lemma count_filterMap_concat [DecidableEq κ] (f : ExecLabel κ → Option κ)
    (ls : List (ExecLabel κ)) (l : ExecLabel κ) (c : κ) :
    ((ls ++ [l]).filterMap f).count c =
      (ls.filterMap f).count c + (decide (f l = some c)).toNat := by
  rw [List.filterMap_append, List.count_append]
  cases hf : f l with
  | none => simp [hf]
  | some d => by_cases hd : d = c <;> simp [hf, hd]

end ExecLabel

/-- An attempt is under way. -/
def Phase.attempting {X : ExecutorModel} {α : Type*} : Phase X α → Bool
  | .running _ _ => true
  | _ => false

namespace Setup

variable {X : ExecutorModel} {ι κ S α : Type*} [DecidableEq ι] [DecidableEq κ]
  {P : Setup X ι κ S α} {s s' : ExecState X ι κ S α} {l : ExecLabel κ}

omit [DecidableEq ι] [DecidableEq κ] in
/-- After its admission check a call has no attempt under way. -/
lemma attempting_afterCheck (c : κ) (r : Except String Unit) :
    (P.afterCheck c r).attempting = false := by
  rcases r with err | ⟨⟩
  · rfl
  · rw [afterCheck]
    split <;> rfl

omit [DecidableEq ι] [DecidableEq κ] in
/-- At the top of the loop a call has no attempt under way. -/
lemma attempting_nextRound (c : κ) (a : X.Counter) (err : String) :
    (P.nextRound c a err).attempting = false := by
  rw [nextRound]
  split <;> rfl

omit [DecidableEq ι] [DecidableEq κ] in
/-- After the publication of an outcome a call has no attempt under way. -/
lemma attempting_afterPublish (c : κ) (outcome : Outcome X α) :
    (P.afterPublish c outcome).attempting = false := by
  rcases outcome with result | ⟨a, err⟩
  · rfl
  · rw [afterPublish]
    split_ifs
    · rfl
    · exact attempting_nextRound c a err

/-- A step starts the attempt of a call, ends it, or leaves it. -/
lemma attempting_step (h : P.step s l = some s') (c : κ) :
    (decide (l.invoking = some c)).toNat + (s.phase c).attempting.toNat =
      (decide (l.ending = some c)).toNat + (s'.phase c).attempting.toNat := by
  by_cases hl : l.caller = some c
  · cases callMoves_of_step h hl with
    | start r hc hc' hadmitted =>
      rw [hc, hc', attempting_afterCheck]
      rfl
    | report outcome point point' hc hc' =>
      rw [hc, hc']
      rcases point' with - | p <;> rfl
    | publish outcome code hc hc' =>
      rw [hc, hc', attempting_afterPublish]
      rfl
    | wake a err hc hc' =>
      rw [hc, hc', attempting_nextRound]
      rfl
    | _ =>
      rename_i hc hc'
      rw [hc, hc']
      simp [ExecLabel.invoking, ExecLabel.ending, Phase.attempting]
  · have hinvoking : l.invoking ≠ some c := mt ExecLabel.caller_of_invoking hl
    have hending : l.ending ≠ some c := mt ExecLabel.caller_of_ending hl
    rw [phase_of_caller_ne h hl, decide_eq_false hinvoking, decide_eq_false hending]

/-- A call has as many attempts that ended as attempts that were started, but for the one under
way. -/
lemma count_invoking {clock : ℕ} {store : S} {ls : List (ExecLabel κ)}
    (h : runFrom P.step (P.init clock store) ls = some s) (c : κ) :
    (ls.filterMap ExecLabel.invoking).count c =
      (ls.filterMap ExecLabel.ending).count c + (s.phase c).attempting.toNat := by
  refine history_of_runFrom (I := fun s ls => (ls.filterMap ExecLabel.invoking).count c =
    (ls.filterMap ExecLabel.ending).count c + (s.phase c).attempting.toNat)
    (fun ls l u u' _ hu hl => ?_) rfl h
  have hstep := attempting_step hl c
  rw [ExecLabel.count_filterMap_concat, ExecLabel.count_filterMap_concat]
  omega

/-- After as many ends as starts no attempt is under way. -/
lemma attempting_eq_false {clock : ℕ} {store : S} {ls : List (ExecLabel κ)}
    (h : runFrom P.step (P.init clock store) ls = some s)
    (hends : ls.filterMap ExecLabel.invoking = ls.filterMap ExecLabel.ending) (c : κ) :
    (s.phase c).attempting = false := by
  have hcount := count_invoking h c
  rw [hends] at hcount
  exact Bool.toNat_eq_zero.mp (Nat.left_eq_add.mp hcount)

/-- When no attempt is under way, those that were started are those that ended. -/
lemma perm_invoking {clock : ℕ} {store : S} {ls : List (ExecLabel κ)}
    (h : runFrom P.step (P.init clock store) ls = some s)
    (hidle : ∀ c, (s.phase c).attempting = false) :
    (ls.filterMap ExecLabel.invoking).Perm (ls.filterMap ExecLabel.ending) :=
  List.perm_iff_count.mpr fun c => by rw [count_invoking h c, hidle c]; rfl

end Setup

end GoyStore
