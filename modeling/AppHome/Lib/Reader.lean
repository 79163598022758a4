import Mathlib

/-!
# Readers

A reader takes tokens from the front of its input and answers what it read and what is left, or
fails and leaves the input to the next alternative.

* `given`, `orElse`, `whole` : one given token; the second reader where the first fails; a reader
  that has to take everything;
* `Over ok` : every token a successful reader has taken satisfies `ok`, with a rule for each way to
  build a reader (`Over.bind`, `Over.orElse`, `over_given`, `over_pure`).
-/

/-- Takes tokens from the front of a list, or fails. -/
abbrev Reader (τ α : Type) : Type := StateT (List τ) Option α

namespace Reader
variable {τ α β : Type}

/-- The next token, which has to be `t`. -/
def given [DecidableEq τ] (t : τ) : Reader τ Unit
  | [] => none
  | x :: s => if x = t then some ((), s) else none

/-- The second reader where the first one fails. -/
def orElse (r r' : Reader τ α) : Reader τ α := fun s => (r s).or (r' s)

/-- What a reader makes of an input, if it takes all of it. -/
def whole (r : Reader τ α) (s : List τ) : Option α :=
  match r s with
  | some (a, []) => some a
  | _ => none

/-- What was taken satisfies `ok`. -/
def Taken (ok : τ → Prop) (s rest : List τ) : Prop := ∃ taken, s = taken ++ rest ∧ ∀ x ∈ taken, ok x

/-- Every token a successful reader has taken satisfies `ok`. -/
def Over (ok : τ → Prop) (r : Reader τ α) : Prop :=
  ∀ s a rest, r s = some (a, rest) → Taken ok s rest

variable {ok : τ → Prop}

theorem Taken.refl (s : List τ) : Taken ok s s := ⟨[], rfl, by simp⟩

theorem Taken.cons {x : τ} {s rest : List τ} (hx : ok x) (h : Taken ok s rest) :
    Taken ok (x :: s) rest := by
  obtain ⟨taken, rfl, hok⟩ := h
  exact ⟨x :: taken, rfl, by simpa [hx] using hok⟩

theorem Taken.trans {s s' s'' : List τ} (h : Taken ok s s') (h' : Taken ok s' s'') :
    Taken ok s s'' := by
  obtain ⟨taken, rfl, hok⟩ := h
  obtain ⟨taken', rfl, hok'⟩ := h'
  refine ⟨taken ++ taken', by simp, fun x hx => ?_⟩
  exact (List.mem_append.mp hx).elim (hok x) (hok' x)

theorem over_pure (a : α) : Over ok (pure a : Reader τ α) := by
  intro s b rest h
  have hs : s = rest := (Prod.mk.inj (Option.some.inj h)).2
  subst hs
  exact .refl s

theorem over_given [DecidableEq τ] {t : τ} (ht : ok t) : Over ok (given t) := by
  intro s a rest h
  cases s with
  | nil => cases h
  | cons x s =>
      simp only [given, Option.ite_none_right_eq_some, Option.some.injEq, Prod.mk.injEq,
        true_and] at h
      obtain ⟨rfl, rfl⟩ := h
      exact .cons ht (.refl s)

theorem bind_eq_some {r : Reader τ α} {f : α → Reader τ β} {s : List τ} {b : β} {rest : List τ} :
    (r >>= f) s = some (b, rest) ↔ ∃ a s', r s = some (a, s') ∧ f a s' = some (b, rest) := by
  change (r s).bind (fun p => f p.1 p.2) = some (b, rest) ↔ _
  simp [Option.bind_eq_some_iff]

theorem Over.bind {r : Reader τ α} {f : α → Reader τ β} (hr : Over ok r) (hf : ∀ a, Over ok (f a)) :
    Over ok (r >>= f) := by
  intro s b rest h
  obtain ⟨a, s', hs, hs'⟩ := bind_eq_some.mp h
  exact (hr s a s' hs).trans (hf a s' b rest hs')

theorem Over.orElse {r r' : Reader τ α} (hr : Over ok r) (hr' : Over ok r') :
    Over ok (r.orElse r') := by
  intro s a rest h
  rcases Option.or_eq_some_iff.mp h with h | ⟨-, h⟩
  · exact hr s a rest h
  · exact hr' s a rest h

/-- A text that is read as a whole has only tokens that satisfy `ok`. -/
theorem Over.whole {r : Reader τ α} (hr : Over ok r) {s : List τ} {a : α} (h : whole r s = some a) :
    ∀ x ∈ s, ok x := by
  unfold Reader.whole at h
  split at h
  · next b hs =>
      obtain ⟨taken, rfl, hok⟩ := hr s b [] hs
      simpa using hok
  · cases h

end Reader
