import AppHome.Lib.Base64
import AppHome.Lib.Decimal
import AppHome.Lib.Table
import AppHome.Auth.UseCases

/-!
# The bcrypt work of a password check

`verify_password_timing_safe` with what it does besides its answer: the process keeps dummy hashes,
one for each cost, and every check leaves a trace of the bcrypt computations it ran.

* `BcryptHash` : a well-formed hash, with its text;
* `Process`, `dummyPasswordHash`, `padTimingTo`, `verifyPasswordTimingSafe` : the checks, step by
  step;
* `BcryptWork` : what is assumed of the `bcrypt` crate;
* `Process.Valid` : the dummy hashes kept for a cost are hashes of that cost, after any checks;
* `work_check` : the work of one check;
* `checked_work` : that work where the dummy hash is kept already.
-/

namespace AppHome.Timing

/-! ## Hashes -/

inductive Version where
  | a
  | b
  | x
  | y

def Version.text : Version → List Char
  | .a => ['2', 'a']
  | .b => ['2', 'b']
  | .x => ['2', 'x']
  | .y => ['2', 'y']

/-- A hash of the form `$2b$12$…`, with a salt of 16 bytes and a digest of 23. -/
structure BcryptHash where
  version : Version
  cost : Nat
  salt : List UInt8
  digest : List UInt8
  minCost_le : 4 ≤ cost
  le_maxCost : cost ≤ 31
  length_salt : salt.length = 16
  length_digest : digest.length = 23

/-- The 22 characters of the salt and the 31 of the digest. -/
def BcryptHash.rest (h : BcryptHash) : List Char :=
  Base64.encode Base64.bcrypt h.salt ++ Base64.encode Base64.bcrypt h.digest

def BcryptHash.text (h : BcryptHash) : String :=
  String.ofList ('$' :: h.version.text ++ '$' :: Decimal.twoDigits h.cost ++ '$' :: h.rest)

/-- The cost in a hash like `$2b$12$…`. -/
def storedHashCost (hash : String) : Option UInt32 :=
  match hash.toList.splitOn '$' with
  | first :: _ :: cost :: _ => if first.isEmpty then
    (Decimal.unsigned (2 ^ 32 - 1) cost).map UInt32.ofNat else none
  | _ => none

theorem dollar_notMem_version (v : Version) : '$' ∉ v.text := by
  cases v <;> decide

theorem dollar_notMem_twoDigits (n : Nat) : '$' ∉ Decimal.twoDigits n := by
  simp [Decimal.twoDigits]

theorem storedHashCost_text (h : BcryptHash) : storedHashCost h.text = some (.ofNat h.cost) := by
  have hsplit : h.text.toList.splitOn '$' =
      [] :: h.version.text :: Decimal.twoDigits h.cost :: h.rest.splitOn '$' := by
    have htext : h.text.toList = [] ++ '$' ::
        (h.version.text ++ '$' :: (Decimal.twoDigits h.cost ++ '$' :: h.rest)) := by
      simp [BcryptHash.text]
    rw [htext, List.splitOn_append_cons_self, List.splitOn_append_cons_self,
      List.splitOn_append_cons_self,
      List.splitOn_eq_singleton (dollar_notMem_version h.version),
        List.splitOn_eq_singleton (dollar_notMem_twoDigits h.cost)]
    rfl
  have hcost := h.le_maxCost
  rw [storedHashCost, hsplit]
  show (Decimal.unsigned (2 ^ 32 - 1) (Decimal.twoDigits h.cost)).map UInt32.ofNat = _
  rw [Decimal.unsigned_twoDigits (by omega) (by omega)]
  rfl

/-! ## The checks -/

/-- A bcrypt computation, or a delay in place of one. -/
inductive Step where
  | hash (cost : UInt32)
  | verify (hash : String)
  | sleep (millis : Nat)

/-- `DUMMY_PASSWORD_HASHES`, and what the process has computed so far. -/
structure Process where
  dummyPasswordHashes : Table (Prod.fst : UInt32 × Option String → UInt32)
  steps : List Step

def Process.record (p : Process) (step : Step) : Process := { p with steps := p.steps ++ [step] }

section Checks
variable (lib : Bcrypt)

def dummyPassword : Bytes := "dummy-password-for-timing-safety".toUTF8.toList

/-- The dummy hash of a cost. It is computed outside the lock, and the one that is there first
stays. -/
def dummyPasswordHash (salt : Bytes) (cost : UInt32) (p : Process) : Option String × Process :=
  match p.dummyPasswordHashes.find? cost with
  | some e => (e.2, p)
  | none =>
    let hash := (lib.hash salt dummyPassword cost.toNat).toOption
    let p := p.record (.hash cost)
    (hash, { p with dummyPasswordHashes :=
      (p.dummyPasswordHashes.insert? (cost, hash)).getD p.dummyPasswordHashes })

/-- `for _ in 0..n { bcrypt::verify(…, &hash) }`. -/
def verifyTimes : Nat → String → Process → Process
  | 0, _, p => p
  | n + 1, hash, p => verifyTimes n hash (p.record (.verify hash))

/-- `(1u32 << (configured_cost - stored_cost)) - 1`. -/
def extraVerifies (configuredCost storedCost : UInt32) : UInt32 :=
  (1 <<< (configuredCost - storedCost)) - 1

def padTimingTo (salt : Bytes) (storedHash : String) (configuredCost : UInt32) (p : Process) :
    Process :=
  match storedHashCost storedHash with
  | none => p
  | some storedCost =>
    if configuredCost ≤ storedCost then p
    else
      match dummyPasswordHash lib salt storedCost p with
      | (none, p) => p.record (.sleep 50)
      | (some dummy, p) => verifyTimes (extraVerifies configuredCost storedCost).toNat dummy p

def verifyPasswordTimingSafe (salt : Bytes) (user : Option User) (password : Bytes)
    (cost : UInt32) (p : Process) :
    Bool × Process :=
  match user.bind (·.passwordHash) with
  | some hash =>
    let p := padTimingTo lib salt hash.value cost p
    ((lib.verify password hash.value).toOption.getD false, p.record (.verify hash.value))
  | none =>
    match dummyPasswordHash lib salt cost p with
    | (some hash, p) => (false, p.record (.verify hash))
    | (none, p) => (false, p.record (.sleep 50))

/-- The answer is the one the use cases see. -/
theorem verifyPasswordTimingSafe_answer (salt : Bytes) (user : Option User) (password : Bytes)
    (cost : UInt32) (p : Process) :
    (verifyPasswordTimingSafe lib salt user password cost p).1 =
      AppHome.verifyPasswordTimingSafe lib user password := by
  unfold verifyPasswordTimingSafe AppHome.verifyPasswordTimingSafe
  cases user.bind (·.passwordHash) with
  | some hash => rfl
  | none =>
      dsimp only
      split <;> rfl

end Checks

/-! ## Work -/

/-- What is assumed of the crate: `hash` writes well-formed hashes of the cost it is given, and a
`verify` against a well-formed hash runs at that hash's cost. Other texts may be rejected sooner. -/
structure BcryptWork (lib : Bcrypt) where
  verifyWork : String → Nat
  verifyWork_text : ∀ h : BcryptHash, verifyWork h.text = 2 ^ h.cost
  hash_text : ∀ {salt password : Bytes} {cost : Nat} {t : String},
    lib.hash salt password cost = .ok t → ∃ h : BcryptHash, h.text = t ∧ h.cost = cost

section Work
variable {lib : Bcrypt} (w : BcryptWork lib)

def Step.work : Step → Nat
  | .hash cost => 2 ^ cost.toNat
  | .verify t => w.verifyWork t
  | .sleep _ => 0

/-- `2 ^ c` for each computation at cost `c`. -/
def Process.work (p : Process) : Nat := (p.steps.map (Step.work w)).sum

@[simp] theorem work_record (p : Process) (step : Step) :
    (p.record step).work w = p.work w + step.work w := by
  simp [Process.record, Process.work]

theorem work_verifyTimes (h : BcryptHash) (n : Nat) (p : Process) :
    (verifyTimes n h.text p).work w = p.work w + n * 2 ^ h.cost := by
  induction n generalizing p with
  | zero => simp [verifyTimes]
  | succ n ih =>
      rw [verifyTimes, ih, work_record, Step.work, w.verifyWork_text]
      ring

/-! ## The dummy hashes -/

/-- A dummy hash kept for a cost is a hash of that cost. -/
def Process.Valid (p : Process) : Prop :=
  ∀ e ∈ p.dummyPasswordHashes.rows, ∀ t, e.2 = some t →
    ∃ h : BcryptHash, h.text = t ∧ h.cost = e.1.toNat

theorem valid_record {p : Process} (h : p.Valid) (step : Step) : (p.record step).Valid := h

theorem valid_verifyTimes {p : Process} (h : p.Valid) (n : Nat) (hash : String) :
    (verifyTimes n hash p).Valid := by
  induction n generalizing p with
  | zero => exact h
  | succ n ih => exact ih (valid_record h _)

include w in
theorem valid_dummyPasswordHash {p : Process} (h : p.Valid) (salt : Bytes) (cost : UInt32) :
    (dummyPasswordHash lib salt cost p).2.Valid := by
  unfold dummyPasswordHash
  split
  · exact h
  · next hnone =>
      intro e he t ht
      obtain ⟨table, hinsert, hrows⟩ := Table.insert?_of_fresh
        (r := (cost, (lib.hash salt dummyPassword cost.toNat).toOption))
        (Table.find?_eq_none.mp hnone)
      simp only [Process.record, hinsert, Option.getD_some, hrows, List.mem_append,
        List.mem_singleton] at he
      rcases he with he | rfl
      · exact h e he t ht
      · cases hhash : lib.hash salt dummyPassword cost.toNat with
        | error e =>
            rw [hhash] at ht
            cases ht
        | ok t' =>
            rw [hhash] at ht
            cases ht
            exact w.hash_text hhash

include w in
theorem valid_padTimingTo {p : Process} (h : p.Valid) (salt : Bytes) (storedHash : String)
    (cost : UInt32) :
    (padTimingTo lib salt storedHash cost p).Valid := by
  unfold padTimingTo
  split
  · exact h
  · next storedCost _ =>
      have hdummy := valid_dummyPasswordHash w h salt storedCost
      split_ifs
      · exact h
      · split
        · next heq =>
            rw [heq] at hdummy
            exact valid_record hdummy _
        · next heq =>
            rw [heq] at hdummy
            exact valid_verifyTimes hdummy _ _

include w in
theorem valid_check {p : Process} (h : p.Valid) (salt : Bytes) (user : Option User)
    (password : Bytes) (cost : UInt32) :
    (verifyPasswordTimingSafe lib salt user password cost p).2.Valid := by
  unfold verifyPasswordTimingSafe
  split
  · exact valid_record (valid_padTimingTo w h salt _ cost) _
  · have hdummy := valid_dummyPasswordHash w h salt cost
    split
    · next heq =>
        rw [heq] at hdummy
        exact valid_record hdummy _
    · next heq =>
        rw [heq] at hdummy
        exact valid_record hdummy _

/-- A call of `verify_password_timing_safe`. -/
structure Check where
  salt : Bytes
  user : Option User
  password : Bytes
  cost : UInt32

/-- The process after some calls. -/
def after (lib : Bcrypt) (checks : List Check) : Process :=
  checks.foldl (fun p c => (verifyPasswordTimingSafe lib c.salt c.user c.password c.cost p).2)
    ⟨.empty, []⟩

include w in
theorem valid_after (checks : List Check) : (after lib checks).Valid := by
  have hrun : ∀ p : Process, p.Valid → (checks.foldl
      (fun p c => (verifyPasswordTimingSafe lib c.salt c.user c.password c.cost p).2) p).Valid := by
    induction checks with
    | nil => exact fun p h => h
    | cons c checks ih => exact fun p h => ih _ (valid_check w h c.salt c.user c.password c.cost)
  refine hrun _ fun e he => ?_
  cases he

/-- There is a dummy hash for the cost, or one can be computed. -/
def Process.Offers (lib : Bcrypt) (salt : Bytes) (p : Process) (cost : UInt32) : Prop :=
  match p.dummyPasswordHashes.find? cost with
  | some e => e.2.isSome
  | none => (lib.hash salt dummyPassword cost.toNat).toOption.isSome

/-- The dummy hash of a cost is kept. -/
def Process.Keeps (p : Process) (cost : UInt32) : Prop :=
  ∃ t, p.dummyPasswordHashes.find? cost = some (cost, some t)

/-- The work for the dummy hash of a cost: none if it is kept. -/
def Process.toCompute (p : Process) (cost : UInt32) : Nat :=
  if (p.dummyPasswordHashes.find? cost).isSome then 0 else 2 ^ cost.toNat

theorem Process.Keeps.offers {p : Process} {cost : UInt32} (h : p.Keeps cost) {salt : Bytes} :
    p.Offers lib salt cost := by
  obtain ⟨t, ht⟩ := h
  simp [Process.Offers, ht]

theorem Process.Keeps.toCompute {p : Process} {cost : UInt32} (h : p.Keeps cost) :
    p.toCompute cost = 0 := by
  obtain ⟨t, ht⟩ := h
  simp [Process.toCompute, ht]

theorem dummyPasswordHash_work {p : Process} (hp : p.Valid) {salt : Bytes} {cost : UInt32}
    (ho : p.Offers lib salt cost) :
    ∃ h : BcryptHash, h.cost = cost.toNat ∧ (dummyPasswordHash lib salt cost p).1 = some h.text ∧
      (dummyPasswordHash lib salt cost p).2.work w = p.work w + p.toCompute cost := by
  unfold Process.Offers at ho
  unfold dummyPasswordHash Process.toCompute
  cases hfind : p.dummyPasswordHashes.find? cost with
  | some e =>
      rw [hfind] at ho
      obtain ⟨he, hkey⟩ := Table.find?_eq_some.mp hfind
      obtain ⟨t, ht⟩ := Option.isSome_iff_exists.mp ho
      obtain ⟨h, rfl, hcost⟩ := hp e he t ht
      exact ⟨h, by rw [hcost, hkey], ht, rfl⟩
  | none =>
      rw [hfind] at ho
      cases hhash : lib.hash salt dummyPassword cost.toNat with
      | error e =>
          rw [hhash] at ho
          cases ho
      | ok t =>
          obtain ⟨h, rfl, hcost⟩ := w.hash_text hhash
          refine ⟨h, hcost, rfl, ?_⟩
          exact work_record w p (.hash cost)

/-! ## One check -/

/-- The shift stays below 32 and the number of verifications below `2 ^ 32`. -/
theorem extraVerifies_toNat {configuredCost storedCost : UInt32} (hmax : configuredCost.toNat ≤ 31)
    (hlt : storedCost.toNat < configuredCost.toNat) :
    (configuredCost - storedCost).toNat < 32 ∧
      (extraVerifies configuredCost storedCost).toNat =
        2 ^ (configuredCost.toNat - storedCost.toNat) - 1 := by
  have hsub : (configuredCost - storedCost).toNat = configuredCost.toNat - storedCost.toNat :=
    UInt32.toNat_sub_of_le _ _ hlt.le
  have hpow : 2 ^ (configuredCost.toNat - storedCost.toNat) < 2 ^ 32 :=
    Nat.pow_lt_pow_right (by decide) (by omega)
  have hpos : 1 ≤ 2 ^ (configuredCost.toNat - storedCost.toNat) := Nat.one_le_two_pow
  have hshift : ((1 : UInt32) <<< (configuredCost - storedCost)).toNat =
      2 ^ (configuredCost.toNat - storedCost.toNat) := by
    have hmod : (configuredCost.toNat - storedCost.toNat) % 32 =
        configuredCost.toNat - storedCost.toNat :=
      Nat.mod_eq_of_lt (by omega)
    rw [UInt32.toNat_shiftLeft, hsub, hmod, UInt32.toNat_one, Nat.one_shiftLeft,
      Nat.mod_eq_of_lt hpow]
  refine ⟨by omega, ?_⟩
  rw [extraVerifies,
    UInt32.toNat_sub_of_le _ _ (by rw [UInt32.le_iff_toNat_le, hshift]; exact hpos), hshift]
  rfl

theorem toNat_ofNat_cost (h : BcryptHash) : (UInt32.ofNat h.cost).toNat = h.cost := by
  have hcost := h.le_maxCost
  exact UInt32.toNat_ofNat_of_lt' (by show h.cost < 2 ^ 32; omega)

/-- A legacy hash is padded to one verification short of the configured cost. -/
theorem padTimingTo_work {p : Process} (hp : p.Valid) {salt : Bytes} {h : BcryptHash}
    {cost : UInt32} (hmax : cost.toNat ≤ 31) (hlt : h.cost < cost.toNat)
    (ho : p.Offers lib salt (.ofNat h.cost)) :
    (padTimingTo lib salt h.text cost p).work w =
      p.work w + p.toCompute (.ofNat h.cost) + (2 ^ (cost.toNat - h.cost) - 1) * 2 ^ h.cost := by
  obtain ⟨dummy, hdummy, hhash, hwork⟩ := dummyPasswordHash_work w hp ho
  have hle : ¬ cost ≤ UInt32.ofNat h.cost := by
    rw [UInt32.le_iff_toNat_le, toNat_ofNat_cost]
    omega
  rw [toNat_ofNat_cost] at hdummy
  rw [padTimingTo, storedHashCost_text]
  dsimp only
  rw [if_neg hle]
  generalize dummyPasswordHash lib salt (.ofNat h.cost) p = outcome at hhash hwork
  obtain ⟨hash, p'⟩ := outcome
  subst hhash
  rw [work_verifyTimes, (extraVerifies_toNat hmax (by rwa [toNat_ofNat_cost])).2, toNat_ofNat_cost,
    hdummy, hwork]

theorem padTimingTo_of_le {p : Process} {salt : Bytes} {h : BcryptHash} {cost : UInt32}
    (hle : cost.toNat ≤ h.cost) :
    padTimingTo lib salt h.text cost p = p := by
  rw [padTimingTo, storedHashCost_text]
  exact if_pos (by rwa [UInt32.le_iff_toNat_le, toNat_ofNat_cost])

def minBcryptCost : UInt32 := 12

def maxBcryptCost : UInt32 := 31

def validateBcryptCost (cost : UInt32) : Except String Unit :=
  if cost < minBcryptCost then
    .error ("BCRYPT_COST must be at least " ++ toString minBcryptCost ++
      " (OWASP minimum for new applications); got " ++ toString cost)
  else if maxBcryptCost < cost then
    .error ("BCRYPT_COST must be at most " ++ toString maxBcryptCost ++
      " (bcrypt's maximum); got " ++ toString cost)
  else .ok ()

theorem le_of_validateBcryptCost {cost : UInt32} (h : validateBcryptCost cost = .ok ()) :
    cost.toNat ≤ 31 := by
  unfold validateBcryptCost at h
  split_ifs at h with hmin hmax
  exact UInt32.not_lt.mp hmax

/-- The cost of the dummy hash that a check needs: that of a user's hash if it is too cheap, the
configured cost if there is no hash. -/
def dummyCost (cost : UInt32) : Option BcryptHash → Option UInt32
  | none => some cost
  | some h => if h.cost < cost.toNat then some (.ofNat h.cost) else none

theorem absent_work {p : Process} (hp : p.Valid) {salt : Bytes} {user : Option User}
    (huser : user.bind (·.passwordHash) = none) (password : Bytes) {cost : UInt32}
    (ho : p.Offers lib salt cost) :
    (verifyPasswordTimingSafe lib salt user password cost p).2.work w =
      p.work w + (p.toCompute cost + 2 ^ cost.toNat) := by
  obtain ⟨h, hcost, hhash, hwork⟩ := dummyPasswordHash_work w hp ho
  rw [verifyPasswordTimingSafe, huser]
  dsimp only
  generalize dummyPasswordHash lib salt cost p = outcome at hhash hwork
  obtain ⟨hash, p'⟩ := outcome
  subst hhash
  show (p'.record (.verify h.text)).work w = _
  rw [work_record, hwork, Step.work, w.verifyWork_text, hcost, Nat.add_assoc]

theorem stored_work {p : Process} (hp : p.Valid) {salt : Bytes} {user : Option User}
    {hash : HashedPassword} (huser : user.bind (·.passwordHash) = some hash) {h : BcryptHash}
    (htext : h.text = hash.value) (password : Bytes) {cost : UInt32} (hmax : cost.toNat ≤ 31)
    (ho : ∀ c, dummyCost cost (some h) = some c → p.Offers lib salt c) :
    (verifyPasswordTimingSafe lib salt user password cost p).2.work w =
      p.work w + ((dummyCost cost (some h)).elim 0 p.toCompute + 2 ^ max cost.toNat h.cost) := by
  rw [verifyPasswordTimingSafe, huser]
  dsimp only
  rw [work_record, ← htext, Step.work, w.verifyWork_text]
  by_cases hlt : h.cost < cost.toNat
  · have hdummy : dummyCost cost (some h) = some (.ofNat h.cost) := if_pos hlt
    -- the padding and the real verification make one at the configured cost
    have hpad : (2 ^ (cost.toNat - h.cost) - 1) * 2 ^ h.cost + 2 ^ h.cost = 2 ^ cost.toNat := by
      rw [← Nat.succ_mul, Nat.succ_eq_add_one, Nat.sub_add_cancel Nat.one_le_two_pow, ← Nat.pow_add,
        Nat.sub_add_cancel hlt.le]
    rw [padTimingTo_work w hp hmax hlt (ho _ hdummy), hdummy, Nat.max_eq_left hlt.le, ← hpad]
    show _ = p.work w + (p.toCompute (.ofNat h.cost) + _)
    omega
  · have hdummy : dummyCost cost (some h) = none := if_neg hlt
    rw [padTimingTo_of_le (by omega), hdummy, Nat.max_eq_right (by omega)]
    show p.work w + 2 ^ h.cost = p.work w + (0 + 2 ^ h.cost)
    rw [Nat.zero_add]

section Check
variable (earlier : List Check) (salt : Bytes) (user : Option User) (password : Bytes)
  (cost : UInt32)
  (stored : Option BcryptHash) (hcost : validateBcryptCost cost = .ok ())
  (hstored : (user.bind (·.passwordHash)).map (·.value) = stored.map BcryptHash.text)
include hcost

include hstored in
/-- The work of a check, after any others: that of one verification at the configured cost, or at
the cost of the user's hash if that is higher, and what it takes to compute the dummy hash. -/
theorem work_check
    (hoffers : ∀ c, dummyCost cost stored = some c → (after lib earlier).Offers lib salt c) :
    (verifyPasswordTimingSafe lib salt user password cost (after lib earlier)).2.work w =
      (after lib earlier).work w + ((dummyCost cost stored).elim 0 (after lib earlier).toCompute +
        2 ^ max cost.toNat ((stored.map BcryptHash.cost).getD 0)) := by
  have hmax := le_of_validateBcryptCost hcost
  have hvalid := valid_after w earlier
  cases huser : user.bind (·.passwordHash) with
  | none =>
      rw [huser] at hstored
      obtain rfl : stored = none := by simpa using hstored.symm
      have hwork := absent_work w hvalid huser password (hoffers cost rfl)
      rwa [← Nat.max_zero cost.toNat] at hwork
  | some hash =>
      rw [huser] at hstored
      obtain ⟨h, rfl, htext⟩ := Option.map_eq_some_iff.mp hstored.symm
      exact stored_work w hvalid huser htext password hmax hoffers

/-- **The work of a check** for which no dummy hash has to be computed: that of one verification at
the configured cost, or at the cost of the user's hash if that is higher. The shift and the number
of padding verifications never overflow. -/
theorem checked_work :
    ((user.bind (·.passwordHash)).map (·.value) = stored.map BcryptHash.text →
      (∀ c, dummyCost cost stored = some c → (after lib earlier).Keeps c) →
      (verifyPasswordTimingSafe lib salt user password cost (after lib earlier)).2.work w =
        (after lib earlier).work w + 2 ^ max cost.toNat ((stored.map BcryptHash.cost).getD 0)) ∧
    ∀ h, stored = some h → h.cost < cost.toNat →
      (cost - .ofNat h.cost).toNat < 32 ∧
        (extraVerifies cost (.ofNat h.cost)).toNat = 2 ^ (cost.toNat - h.cost) - 1 := by
  refine ⟨fun hstored hkeeps => ?_, fun h _ hlt => ?_⟩
  · have hnone : (dummyCost cost stored).elim 0 (after lib earlier).toCompute = 0 := by
      cases hdummy : dummyCost cost stored with
      | none => rfl
      | some c => exact (hkeeps c hdummy).toCompute
    rw [work_check w earlier salt user password cost stored hcost hstored fun c hc =>
      (hkeeps c hc).offers, hnone, Nat.zero_add]
  · have h := @extraVerifies_toNat cost (.ofNat h.cost) (le_of_validateBcryptCost hcost)
      (by rwa [toNat_ofNat_cost])
    rwa [toNat_ofNat_cost] at h

end Check

end Work

/-! ## Checks in one process -/

def plainHash (cost : Nat) (h : 4 ≤ cost ∧ cost ≤ 31) : BcryptHash :=
  ⟨.b, cost, List.replicate 16 0, List.replicate 23 0, h.1, h.2, List.length_replicate,
    List.length_replicate⟩

/-- A crate that verifies nothing. -/
def plainBcrypt : Bcrypt where
  hash _ _ cost := if h : 4 ≤ cost ∧ cost ≤ 31 then
    .ok (plainHash cost h).text else .error "invalid cost"
  verify _ _ := .ok false

def plainWork : BcryptWork plainBcrypt where
  verifyWork t := 2 ^ ((storedHashCost t).map UInt32.toNat).getD 0
  verifyWork_text h := by
    rw [storedHashCost_text, Option.map_some, toNat_ofNat_cost]
    rfl
  hash_text {_ _ cost t} ht := by
    simp only [plainBcrypt] at ht
    split_ifs at ht with h
    cases ht
    exact ⟨plainHash cost h, rfl, rfl⟩

theorem BcryptHash.text_ne_empty (h : BcryptHash) : h.text ≠ "" := by
  intro heq
  have hlist := congrArg String.toList heq
  simp [BcryptHash.text] at hlist

theorem plainEmail_valid : "a@x" ≠ "" ∧ '@' ∈ "a@x".toList := by decide

def userWith (h : BcryptHash) : User :=
  ⟨1, none, ⟨"a@x", plainEmail_valid⟩, "A", some ⟨h.text, h.text_ne_empty⟩, .localUser, 0, 0⟩

theorem legacyCost_mem : 4 ≤ 10 ∧ 10 ≤ 31 := by decide

theorem higherCost_mem : 4 ≤ 13 ∧ 13 ≤ 31 := by decide

def legacyUser : User := userWith (plainHash 10 legacyCost_mem)

def costlyUser : User := userWith (plainHash 13 higherCost_mem)

/-- A check for nobody and one for a user with a legacy hash: the dummy hashes of both costs are
kept. -/
def warmedUp : List Check := [⟨[], none, [], 12⟩, ⟨[], some legacyUser, [], 12⟩]

/-- From then on a check takes the same work for nobody and for the legacy hash; a hash at cost 13
takes twice as much. -/
theorem checked_work_warmedUp :
    (verifyPasswordTimingSafe plainBcrypt [] none [] 12 (after plainBcrypt warmedUp)).2.work
      plainWork =
      (after plainBcrypt warmedUp).work plainWork + 2 ^ 12 ∧
    (verifyPasswordTimingSafe plainBcrypt [] (some legacyUser) [] 12
      (after plainBcrypt warmedUp)).2.work plainWork =
      (after plainBcrypt warmedUp).work plainWork + 2 ^ 12 ∧
    (verifyPasswordTimingSafe plainBcrypt [] (some costlyUser) [] 12
      (after plainBcrypt warmedUp)).2.work plainWork =
      (after plainBcrypt warmedUp).work plainWork + 2 ^ 13 := by
  refine ⟨(checked_work plainWork warmedUp [] none [] 12 none rfl).1 rfl fun c hc => ?_,
    (checked_work plainWork warmedUp [] (some legacyUser) [] 12
      (some (plainHash 10 legacyCost_mem)) rfl).1 rfl
      fun c hc => ?_,
    (checked_work plainWork warmedUp [] (some costlyUser) [] 12
      (some (plainHash 13 higherCost_mem)) rfl).1 rfl
      fun c hc => ?_⟩
  · cases hc
    exact ⟨_, rfl⟩
  · cases hc
    exact ⟨_, rfl⟩
  · cases hc

/-- A check against a hash whose cost is higher by one than the configured cost takes twice the
work. -/
theorem costly_hash_doubled :
    validateBcryptCost 12 = .ok () ∧
    (verifyPasswordTimingSafe plainBcrypt [] (some costlyUser) [] 12 (after plainBcrypt [])).2.work
      plainWork = 2 ^ 13 :=
  ⟨rfl, by decide +kernel⟩

end AppHome.Timing
