import AppHome.Auth.Sequential

/-!
# Which step can fail with which error

Storage, the decoding of rows and the blocking tasks fail with `InternalError`, and hashing a
refresh token also with `TokenGenerationFailed`. So a request that answers with any other error got
it from a check of its own (`*_ne`), or has saved first (`commits_of_specific`).
-/

namespace AppHome

open Interleave

/-- An error that says something about the request. -/
def AuthError.Specific (e : AuthError) : Prop := ∀ m, e ≠ .internalError m

theorem AuthError.specific_invalidRefreshToken : AuthError.invalidRefreshToken.Specific := by
  rintro m ⟨⟩

theorem AuthError.specific_sessionInvalidated : AuthError.sessionInvalidated.Specific := by
  rintro m ⟨⟩

section Specific
variable {e : AuthError} (he : e.Specific)
include he

theorem mapError_ne {α : Type} (x : Except String α) :
    x.mapError AuthError.internalError ≠ .error e := by
  cases x with
  | ok a => simp [Except.mapError]
  | error m => simpa [Except.mapError] using (he m).symm

/-! ## Loads -/

theorem UserRow.intoUser_ne (r : UserRow) : r.intoUser ≠ .error e := by
  refine bind_ne_error (mapError_ne he _) fun email _ => ?_
  refine bind_ne_error (mapError_ne he _) fun provider _ => ?_
  cases r.passwordHash with
  | none => simp [pure, Except.pure, bind, Except.bind]
  | some h =>
      have hmap : some <$> (HashedPassword.new h).mapError AuthError.internalError ≠ .error e := by
        rw [map_eq_pure_bind]
        exact bind_ne_error (mapError_ne he _) fun hash _ => by simp [pure, Except.pure]
      exact bind_ne_error hmap fun hash _ => by simp [pure, Except.pure]

theorem SessionRow.intoSession_ne (r : SessionRow) : r.intoSession ≠ .error e := by
  refine bind_ne_error (mapError_ne he _) fun hash _ => ?_
  exact bind_ne_error (mapError_ne he _) fun method _ => by simp [pure, Except.pure]

theorem mapM_intoSession_ne (rows : List SessionRow) :
    rows.mapM SessionRow.intoSession ≠ .error e := by
  induction rows with
  | nil => simp [pure, Except.pure]
  | cons r rows ih =>
      rw [List.mapM_cons]
      refine bind_ne_error (r.intoSession_ne he) fun s _ => ?_
      exact bind_ne_error ih fun ss _ => by simp [pure, Except.pure]

theorem Db.findAggregateById_ne (db : Db) (id : Uuid) : db.findAggregateById id ≠ .error e := by
  unfold Db.findAggregateById Db.findAggregate
  split
  · simp
  · refine bind_ne_error (UserRow.intoUser_ne he _) fun user _ => ?_
    refine bind_ne_error ?_ fun a _ => by simp [pure, Except.pure]
    exact bind_ne_error (mapM_intoSession_ne he _) fun ss _ => by simp [pure, Except.pure]

theorem orFail_ne {α : Type} {answer : Except AuthError α} (h : answer ≠ .error e) (f : Fate) :
    orFail f answer ≠ .error e := by
  cases f with
  | done => exact h
  | failed m => simpa [orFail] using (he m).symm
  | failedApplied m => simpa [orFail] using (he m).symm

/-! ## Saves -/

theorem Db.insertSession_ne (db : Db) (s : NewSession) (now : Instant) :
    db.insertSession s now ≠ .error e := by
  unfold Db.insertSession Db.sqlError
  split_ifs
  · simpa using (he _).symm
  · split
    · simpa using (he _).symm
    · simp

theorem Db.insertSessions_ne (now : Nat → Instant) (l : List (NewSession × Nat)) (db : Db) :
    db.insertSessions now l ≠ .error e := by
  induction l generalizing db with
  | nil => simp [Db.insertSessions]
  | cons p l ih => exact bind_ne_error (db.insertSession_ne he _ _) fun db' _ => ih db'

theorem Db.saveAggregate_ne (db : Db) (a : UserAggregate) (news : List NewSession)
    (now : Nat → Instant) :
    db.saveAggregate a news now ≠ .error e :=
  bind_ne_error (Db.insertSessions_ne he now _ db) fun db' _ => by simp [pure, Except.pure]

theorem World.exec_saveAggregate_ne (w : World) (i : Nat) (a : UserAggregate)
    (news : List NewSession) (now : Nat → Instant) (f : Fate) :
    (w.exec i (.saveAggregate a news now) f).1 ≠ .error e := by
  refine orFail_ne he (fun h => w.db.saveAggregate_ne he a news now ?_) f
  cases hs : w.db.saveAggregate a news now with
  | ok db =>
      rw [hs] at h
      cases h
  | error e' =>
      rw [hs] at h
      cases h
      rfl

/-- A request that ends with a specific error its plan does not hold has committed its save. -/
theorem commits_of_specific {α : Type} {f : α → Response} {plan : Except AuthError (Plan α)}
    (hplan : plan ≠ .error e) {now : Nat → Instant} {w : World} {fates : Nat → Fate}
    (h : (machine.alone 0 (commitPlan now plan >>= fun r => .ret (r.map f)) w fates).1 = .error e) :
    (machine.alone 0 (commitPlan now plan >>= fun r => .ret (r.map f)) w fates).2.commits ≠
      w.commits := by
  cases plan with
  | error e' =>
      cases h
      exact absurd rfl hplan
  | ok p =>
      simp only [commitPlan, Bind.bind, Prog.bind, Machine.alone] at h ⊢
      rcases w.exec_saveAggregate 0 p.aggregate p.newSessions now (fates 0) with
        ⟨e', hx⟩ | ⟨db, -, ⟨-, hx⟩ | ⟨e', -, hx⟩⟩
      · rw [show machine.exec w 0 (.saveAggregate p.aggregate p.newSessions now) (fates 0) =
          _ from hx] at h
        cases h
        exact absurd (congrArg Prod.fst hx)
          (w.exec_saveAggregate_ne he 0 p.aggregate p.newSessions now _)
      · rw [show machine.exec w 0 (.saveAggregate p.aggregate p.newSessions now) (fates 0) = _
          from hx]
        show w.commits ++ [_] ≠ w.commits
        simp
      · rw [show machine.exec w 0 (.saveAggregate p.aggregate p.newSessions now) (fates 0) = _
          from hx]
        show w.commits ++ [_] ≠ w.commits
        simp

/-! ## Computations -/

theorem runBounded_ne {α : Type} (fate : TaskFate) (a : α) : runBounded fate a ≠ .error e := by
  cases fate with
  | completed => simp [runBounded]
  | semaphoreClosed => simpa [runBounded] using (he _).symm
  | failed m => simpa [runBounded] using (he _).symm

theorem hashRefreshToken_ne (hgen : e ≠ .tokenGenerationFailed) (bcrypt : Bcrypt)
    (settings : AuthSettings) (env : Env) (token : Bytes) :
    hashRefreshToken bcrypt settings env token ≠ .error e := by
  refine bind_ne_error (runBounded_ne he _ _) fun answer _ => ?_
  rcases answer with m | hash
  · simpa [throw, throwThe, MonadExceptOf.throw] using hgen.symm
  · cases hn : HashedPassword.new hash with
    | ok h => simp [hn, pure, Except.pure]
    | error m => simpa [hn, throw, throwThe, MonadExceptOf.throw] using hgen.symm

theorem presentedTokenMatches_ne (bcrypt : Bcrypt) (env : Env) (a : UserAggregate)
    (sessionId : Uuid) (token : Bytes) :
    presentedTokenMatches bcrypt env a sessionId token ≠ .error e := by
  unfold presentedTokenMatches
  split
  · exact bind_ne_error (runBounded_ne he _ _) fun answer _ => by simp [pure, Except.pure]
  · simp [pure, Except.pure]

end Specific

end AppHome
