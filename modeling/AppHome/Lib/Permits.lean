import Mathlib.Data.List.Basic

/-!
# Permits and their holders

A pool of `free` permits and a list of holders, some of whose states hold one permit.

* `Effect` : what a move of one holder does to the pool, `Effect.apply` with its refusal when the
  pool is empty;
* `Effect.Accounts` : the move's effect agrees with what the holder holds before and after it;
* `conserve` : then the permits that are free and those that are held add up to the same number.
-/

namespace Permits

/-- What a move of one holder does to the pool. -/
inductive Effect where
  | keep
  | take
  | giveBack
  deriving DecidableEq, Repr

/-- The free permits afterwards; nothing can be taken from an empty pool. -/
def Effect.apply : Effect → Nat → Option Nat
  | .keep, free => some free
  | .take, 0 => none
  | .take, free + 1 => some free
  | .giveBack, free => some (free + 1)

section Holders
variable {S : Type} (holds : S → Bool)

/-- The effect is what the change of the holder's state says. -/
def Effect.Accounts (e : Effect) (a b : S) : Prop :=
  match e with
  | .keep => holds b = holds a
  | .take => holds a = false ∧ holds b = true
  | .giveBack => holds a = true ∧ holds b = false

theorem countP_set {l : List S} {i : Nat} {a : S} (ha : l[i]? = some a) (b : S) :
    (l.set i b).countP holds + (holds a).toNat = l.countP holds + (holds b).toNat := by
  induction l generalizing i with
  | nil => cases ha
  | cons c l ih =>
      cases i with
      | zero =>
          cases ha
          simp only [List.set_cons_zero, List.countP_cons]
          cases holds a <;> cases holds b <;> simp
      | succ i =>
          have := ih ha
          simp only [List.set_cons_succ, List.countP_cons]
          omega

variable {holds}

/-- **One move keeps the sum** of what is free and what is held. -/
theorem conserve {l : List S} {i free free' : Nat} {a b : S} {e : Effect} (ha : l[i]? = some a)
    (he : e.Accounts holds a b) (hfree : e.apply free = some free') :
    free' + (l.set i b).countP holds = free + l.countP holds := by
  have hcount := countP_set holds ha b
  cases e with
  | keep =>
      cases hfree
      rw [show holds b = holds a from he] at hcount
      omega
  | take =>
      obtain ⟨h1, h2⟩ := he
      rw [h1, h2, Bool.toNat_true, Bool.toNat_false] at hcount
      cases free with
      | zero => cases hfree
      | succ free =>
          cases hfree
          omega
  | giveBack =>
      obtain ⟨h1, h2⟩ := he
      rw [h1, h2, Bool.toNat_true, Bool.toNat_false] at hcount
      cases hfree
      omega

end Holders

end Permits
