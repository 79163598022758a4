import Mathlib

/-!
# Interleaved programs over a shared state, and rely-guarantee reasoning about them

* `Prog Op Res α` : a program that performs atomic operations `o : Op`, each answered in `Res o`,
  and ends with a value of `α`; `Fallible` adds the early exit of a failed computation;
* `Machine` : what an operation does to the shared state, under a `Fate` the environment picks for
  it, and the moves (`Ext`) the environment makes on its own;
* `Cfg`, `Machine.step`, `Machine.run` : any number of threads, one program each, taking single
  operations in the order a schedule gives;
* `Machine.alone` : one program run to its end with nobody else moving;
* `Contract`, `wp` : the weakest precondition of a thread whose operations must meet a guarantee,
  while the others may change the state along a rely relation between any two of them;
* `run_wp`, `run_post`, `run_guar` : every schedule keeps every thread's precondition, so a finished
  thread meets its postcondition and the next operation of a running one meets its guarantee;
  `alone_wp` is the same for a thread that runs by itself.
-/

namespace Interleave

/-! ## Programs -/

/-- A program over atomic operations. -/
inductive Prog (Op : Type) (Res : Op → Type) (α : Type) : Type where
  | ret (a : α)
  | op (o : Op) (k : Res o → Prog Op Res α)

namespace Prog
variable {Op : Type} {Res : Op → Type} {α β : Type}

def bind : Prog Op Res α → (α → Prog Op Res β) → Prog Op Res β
  | .ret a, f => f a
  | .op o k, f => .op o fun r => (k r).bind f

instance : Monad (Prog Op Res) where
  pure := .ret
  bind := .bind

theorem bind_assoc {γ : Type} (p : Prog Op Res α) (f : α → Prog Op Res β) (g : β → Prog Op Res γ) :
    p >>= f >>= g = p >>= fun a => f a >>= g := by
  induction p with
  | ret a => rfl
  | op o k ih =>
      show Prog.op o (fun r => (k r >>= f) >>= g) = Prog.op o fun r => k r >>= fun a => f a >>= g
      simp only [ih]

/-- Every operation of the program meets `P`, whatever it is answered. -/
def Ops (P : Op → Prop) : Prog Op Res α → Prop
  | .ret _ => True
  | .op o k => P o ∧ ∀ r, (k r).Ops P

theorem Ops.bind {P : Op → Prop} {p : Prog Op Res α} {f : α → Prog Op Res β} (hp : p.Ops P)
    (hf : ∀ a, (f a).Ops P) :
    (p >>= f).Ops P := by
  induction p with
  | ret a => exact hf a
  | op o k ih => exact ⟨hp.1, fun r => ih r (hp.2 r)⟩

/-- The same program over a wider set of operations. -/
def widen {Op' : Type} {Res' : Op' → Type} (wide : Op → Op') (answer : ∀ o, Res' (wide o) → Res o) :
    Prog Op Res α → Prog Op' Res' α
  | .ret a => .ret a
  | .op o k => .op (wide o) fun r => (k (answer o r)).widen wide answer

end Prog

/-- A program that may stop early with an error. -/
abbrev Fallible (Op : Type) (Res : Op → Type) (ε α : Type) : Type := ExceptT ε (Prog Op Res) α

namespace Fallible
variable {Op : Type} {Res : Op → Type} {ε α β : Type}

/-- The rest of a program after an early exit is skipped. -/
def andThen (f : α → Fallible Op Res ε β) : Except ε α → Prog Op Res (Except ε β)
  | .ok a => (f a).run
  | .error e => .ret (.error e)

theorem run_bind (p : Fallible Op Res ε α) (f : α → Fallible Op Res ε β) :
    (p >>= f).run = p.run >>= andThen f := by
  change p.run.bind (ExceptT.bindCont f) = p.run.bind (andThen f)
  have h : ExceptT.bindCont f = andThen f := by
    funext r
    cases r <;> rfl
  rw [h]

theorem run_lift_bind (x : Except ε α) (f : α → Fallible Op Res ε β) :
    ((liftM x : Fallible Op Res ε α) >>= f).run = andThen f x := by
  cases x <;> rfl

theorem ops_bind {P : Op → Prop} {p : Fallible Op Res ε α} {f : α → Fallible Op Res ε β}
    (hp : p.run.Ops P) (hf : ∀ a, (f a).run.Ops P) : (p >>= f).run.Ops P := by
  rw [run_bind]
  refine Prog.Ops.bind hp fun r => ?_
  cases r with
  | ok a => exact hf a
  | error e => trivial

end Fallible

/-- A sequence of two computations goes through when the first one does and then the second. -/
theorem bind_eq_ok_iff {ε α β : Type} (x : Except ε α) (f : α → Except ε β) (b : β) :
    x.bind f = .ok b ↔ ∃ a, x = .ok a ∧ f a = .ok b := by
  rcases x with e | a
  · simp [Except.bind]
  · simp [Except.bind]

theorem bind_eq_error_iff {ε α β : Type} (x : Except ε α) (f : α → Except ε β) (e : ε) :
    x.bind f = .error e ↔ x = .error e ∨ ∃ a, x = .ok a ∧ f a = .error e := by
  rcases x with e' | a
  · simp [Except.bind]
  · simp [Except.bind]

theorem bind_ne_error {ε α β : Type} {x : Except ε α} {f : α → Except ε β} {e : ε}
    (hx : x ≠ .error e) (hf : ∀ a, x = .ok a → f a ≠ .error e) : x.bind f ≠ .error e := by
  intro h
  rcases (bind_eq_error_iff x f e).mp h with h | ⟨a, ha, h⟩
  · exact hx h
  · exact hf a ha h

theorem ok_of_mapError {ε ε' α : Type} {x : Except ε α} {f : ε → ε'} {a : α}
    (h : x.mapError f = .ok a) :
    x = .ok a := by
  rcases x with e | b
  · cases h
  · cases h
    rfl

/-! ## Machines and runs -/

/-- The effect of an operation of thread `i` under the fate chosen for it, and of the environment's
own moves. -/
structure Machine (σ Op : Type) (Res : Op → Type) (Fate Ext : Type) where
  exec : σ → Nat → (o : Op) → Fate → Res o × σ
  ext : σ → Ext → σ

structure Cfg (σ Op : Type) (Res : Op → Type) (α : Type) where
  shared : σ
  thread : Nat → Prog Op Res α

inductive Label (Fate Ext : Type) where
  | run (i : Nat) (f : Fate)
  | ext (e : Ext)

section Runs
variable {σ Op : Type} {Res : Op → Type} {Fate Ext α : Type}

/-- One scheduled move. A finished thread stays as it is. -/
def Machine.step (m : Machine σ Op Res Fate Ext) (c : Cfg σ Op Res α) :
    Label Fate Ext → Cfg σ Op Res α
  | .run i f =>
    match c.thread i with
    | .ret _ => c
    | .op o k =>
      let r := m.exec c.shared i o f
      ⟨r.2, Function.update c.thread i (k r.1)⟩
  | .ext e => ⟨m.ext c.shared e, c.thread⟩

def Machine.run (m : Machine σ Op Res Fate Ext) (c : Cfg σ Op Res α) (l : List (Label Fate Ext)) :
    Cfg σ Op Res α := l.foldl m.step c

/-- Every move of the schedule is allowed where it is made. -/
def Machine.Along (m : Machine σ Op Res Fate Ext) (g : Cfg σ Op Res α → Label Fate Ext → Prop) :
    Cfg σ Op Res α → List (Label Fate Ext) → Prop
  | _, [] => True
  | c, a :: l => g c a ∧ m.Along g (m.step c a) l

instance Machine.decidableAlong (m : Machine σ Op Res Fate Ext)
    (g : Cfg σ Op Res α → Label Fate Ext → Prop) [∀ c a, Decidable (g c a)] :
    ∀ c l, Decidable (m.Along g c l)
  | _, [] => isTrue trivial
  | c, a :: l =>
    have := m.decidableAlong g (m.step c a) l
    inferInstanceAs (Decidable (g c a ∧ m.Along g (m.step c a) l))

/-- Threads take turns, each for a number of operations that all fare as `f`. -/
def turns (f : Fate) (l : List (Nat × Nat)) : List (Label Fate Ext) :=
  l.flatMap fun turn => List.replicate turn.2 (.run turn.1 f)

/-- A program run to its end by itself, with the fates of its successive operations. -/
def Machine.alone (m : Machine σ Op Res Fate Ext) (i : Nat) :
    Prog Op Res α → σ → (Nat → Fate) → α × σ
  | .ret a, s, _ => (a, s)
  | .op o k, s, f =>
    let r := m.exec s i o (f 0)
    m.alone i (k r.1) r.2 fun n => f (n + 1)

/-- The states in which a program that runs by itself performs its operations. -/
def Machine.stops (m : Machine σ Op Res Fate Ext) (i : Nat) :
    Prog Op Res α → σ → (Nat → Fate) → List σ
  | .ret _, _, _ => []
  | .op o k, s, f =>
    let r := m.exec s i o (f 0)
    s :: m.stops i (k r.1) r.2 fun n => f (n + 1)

variable (m : Machine σ Op Res Fate Ext)

theorem step_ret {c : Cfg σ Op Res α} {i : Nat} {a : α} (f : Fate) (h : c.thread i = .ret a) :
    m.step c (.run i f) = c := by
  simp only [Machine.step, h]

theorem step_op {c : Cfg σ Op Res α} {i : Nat} {o : Op} {k : Res o → Prog Op Res α} (f : Fate)
    (h : c.thread i = .op o k) :
    m.step c (.run i f) = ⟨(m.exec c.shared i o f).2,
      Function.update c.thread i (k (m.exec c.shared i o f).1)⟩ := by
  simp only [Machine.step, h]

@[simp] theorem run_nil (c : Cfg σ Op Res α) : m.run c [] = c := rfl

@[simp] theorem run_cons (c : Cfg σ Op Res α) (a : Label Fate Ext) (l : List (Label Fate Ext)) :
    m.run c (a :: l) = m.run (m.step c a) l := rfl

theorem run_append (c : Cfg σ Op Res α) (l l' : List (Label Fate Ext)) :
    m.run c (l ++ l') = m.run (m.run c l) l' := List.foldl_append

theorem Along.mono {g g' : Cfg σ Op Res α → Label Fate Ext → Prop} (hg : ∀ c a, g c a → g' c a)
    {c : Cfg σ Op Res α} {l : List (Label Fate Ext)} (h : m.Along g c l) : m.Along g' c l := by
  induction l generalizing c with
  | nil => trivial
  | cons a l ih => exact ⟨hg c a h.1, ih h.2⟩

theorem along_append {g : Cfg σ Op Res α → Label Fate Ext → Prop} {c : Cfg σ Op Res α}
    {l l' : List (Label Fate Ext)} (h : m.Along g c l) (h' : m.Along g (m.run c l) l') :
    m.Along g c (l ++ l') := by
  induction l generalizing c with
  | nil => exact h'
  | cons a l ih => exact ⟨h.1, ih h.2 h'⟩

theorem along_of_forall {g : Cfg σ Op Res α → Label Fate Ext → Prop} {l : List (Label Fate Ext)}
    (h : ∀ a ∈ l, ∀ c, g c a) (c : Cfg σ Op Res α) : m.Along g c l := by
  induction l generalizing c with
  | nil => trivial
  | cons a l ih =>
    exact ⟨h a List.mem_cons_self c, ih (fun b hb => h b (List.mem_cons_of_mem a hb)) _⟩

theorem along_true (c : Cfg σ Op Res α) (l : List (Label Fate Ext)) :
    m.Along (fun _ _ => True) c l :=
  along_of_forall m (fun _ _ _ => trivial) c

/-- A property of programs that every answer to their next operation keeps is kept by a thread. -/
theorem run_thread {P : Prog Op Res α → Prop} (hP : ∀ o k r, P (.op o k) → P (k r))
    {c : Cfg σ Op Res α} {i : Nat} (h : P (c.thread i)) (l : List (Label Fate Ext)) :
    P ((m.run c l).thread i) := by
  induction l generalizing c with
  | nil => exact h
  | cons a l ih =>
      refine ih ?_
      cases a with
      | ext e => exact h
      | run j f =>
          cases hj : c.thread j with
          | ret a =>
              rw [step_ret m f hj]
              exact h
          | op o k =>
              rw [step_op m f hj]
              by_cases hij : i = j
              · subst hij
                rw [hj] at h
                simpa only [Function.update_self] using hP o k _ h
              · simpa only [Function.update_of_ne hij] using h

theorem step_thread_of_ne {c : Cfg σ Op Res α} {i j : Nat} (hij : i ≠ j) (f : Fate) :
    (m.step c (.run j f)).thread i = c.thread i := by
  cases hj : c.thread j with
  | ret a => rw [step_ret m f hj]
  | op o k =>
      rw [step_op m f hj]
      exact Function.update_of_ne hij ..

/-- A thread that has come to its end did so in a step of its own. -/
theorem run_finish {c : Cfg σ Op Res α} {i : Nat} {a : α} {l : List (Label Fate Ext)}
    (hbegin : c.thread i ≠ .ret a) (h : (m.run c l).thread i = .ret a) :
    ∃ l₁ f l₂, l = l₁ ++ .run i f :: l₂ ∧ (m.run c l₁).thread i ≠ .ret a ∧
      (m.step (m.run c l₁) (.run i f)).thread i = .ret a := by
  induction l generalizing c with
  | nil => exact absurd h hbegin
  | cons b l ih =>
      by_cases hb : (m.step c b).thread i = .ret a
      · cases b with
        | ext e => exact absurd hb hbegin
        | run j f =>
            by_cases hij : i = j
            · subst hij
              exact ⟨[], f, l, rfl, hbegin, hb⟩
            · rw [step_thread_of_ne m hij] at hb
              exact absurd hb hbegin
      · obtain ⟨l₁, f, l₂, rfl, hbefore, hend⟩ := ih hb h
        exact ⟨b :: l₁, f, l₂, rfl, hbefore, hend⟩

theorem alone_op (i : Nat) (o : Op) (k : Res o → Prog Op Res α) (s : σ) (f : Nat → Fate) :
    m.alone i (.op o k) s f =
      m.alone i (k (m.exec s i o (f 0)).1) (m.exec s i o (f 0)).2 fun n => f (n + 1) := rfl

/-- A thread that is scheduled long enough comes to its end. -/
theorem run_alone (i : Nat) (f : Fate) (c : Cfg σ Op Res α) :
    ∃ n, m.run c (List.replicate n (.run i f)) =
      ⟨(m.alone i (c.thread i) c.shared fun _ => f).2,
        Function.update c.thread i (.ret (m.alone i (c.thread i) c.shared fun _ => f).1)⟩ := by
  generalize hp : c.thread i = p
  induction p generalizing c with
  | ret a =>
      refine ⟨0, ?_⟩
      show c = ⟨c.shared, Function.update c.thread i (.ret a)⟩
      rw [← hp, Function.update_eq_self]
  | op o k ih =>
      have hnext : (m.step c (.run i f)).thread i = k (m.exec c.shared i o f).1 := by
        rw [step_op m f hp]
        exact Function.update_self ..
      obtain ⟨n, hn⟩ := ih _ _ hnext
      refine ⟨n + 1, ?_⟩
      rw [List.replicate_succ, run_cons, hn, step_op m f hp, alone_op]
      simp only [Function.update_idem]

theorem alone_bind (i : Nat) (p : Prog Op Res α) (k : α → Prog Op Res β) (s : σ) (f : Fate) :
    m.alone i (p >>= k) s (fun _ => f) =
      m.alone i (k (m.alone i p s fun _ => f).1) (m.alone i p s fun _ => f).2 fun _ => f := by
  induction p generalizing s with
  | ret a => rfl
  | op o k' ih => exact ih _ _

theorem alone_widen {Op' : Type} {Res' : Op' → Type} {m' : Machine σ Op' Res' Fate Ext}
    {wide : Op → Op'} {answer : ∀ o, Res' (wide o) → Res o}
    (hexec : ∀ s i o f, (answer o (m'.exec s i (wide o) f).1, (m'.exec s i (wide o) f).2) =
      m.exec s i o f)
    (i : Nat) (p : Prog Op Res α) (s : σ) (f : Nat → Fate) :
    m'.alone i (p.widen wide answer) s f = m.alone i p s f := by
  induction p generalizing s f with
  | ret a => rfl
  | op o k ih =>
      have hexec := hexec s i o (f 0)
      show m'.alone i ((k (answer o (m'.exec s i (wide o) (f 0)).1)).widen wide answer) _ _ =
          m.alone i (k _) _ _
      rw [ih, ← hexec]

section Relation
variable {m} {R : σ → σ → Prop} (hrefl : ∀ s, R s s) (htrans : ∀ {s t u}, R s t → R t u → R s u)
  (hexec : ∀ s i o f, R s (m.exec s i o f).2)
include hrefl htrans hexec

theorem run_rel (hext : ∀ s e, R s (m.ext s e)) (c : Cfg σ Op Res α) (l : List (Label Fate Ext)) :
    R c.shared (m.run c l).shared := by
  induction l generalizing c with
  | nil => exact hrefl _
  | cons a l ih =>
      refine htrans ?_ (ih (m.step c a))
      cases a with
      | ext e => exact hext _ _
      | run i f =>
          cases hi : c.thread i with
          | ret a =>
              rw [step_ret m f hi]
              exact hrefl _
          | op o k =>
              rw [step_op m f hi]
              exact hexec ..

theorem alone_rel (i : Nat) (p : Prog Op Res α) (s : σ) (f : Nat → Fate) :
    R s (m.alone i p s f).2 := by
  induction p generalizing s f with
  | ret a => exact hrefl s
  | op o k ih => exact htrans (hexec s i o (f 0)) (ih _ _ _)

end Relation

end Runs

/-! ## Rely and guarantee -/

/-- `rely i` is how the shared state may change before the next operation of thread `i`, `guar i`
what the thread promises about an operation it is about to perform. -/
structure Contract (σ Op : Type) where
  rely : Nat → σ → σ → Prop
  guar : Nat → σ → Op → Prop

/-- Threads that keep the contract may run side by side: an operation that meets its promise changes
the state along what the other threads rely on. -/
structure Contract.Sound {σ Op : Type} {Res : Op → Type} {Fate Ext : Type} (ct : Contract σ Op)
    (m : Machine σ Op Res Fate Ext) : Prop where
  refl : ∀ i s, ct.rely i s s
  trans : ∀ {i s t u}, ct.rely i s t → ct.rely i t u → ct.rely i s u
  exec : ∀ {i j s o} (f : Fate), ct.guar j s o → i ≠ j → ct.rely i s (m.exec s j o f).2

section Logic
variable {σ Op : Type} {Res : Op → Type} {Fate Ext α β : Type}
variable (m : Machine σ Op Res Fate Ext) (ct : Contract σ Op)

/-- From `s`, thread `i` meets its guarantee at every operation and ends where `Q` holds, whatever
the others do in between. -/
def wp (i : Nat) : Prog Op Res α → (α → σ → Prop) → σ → Prop
  | .ret a, Q, s => Q a s
  | .op o k, Q, s => ∀ s', ct.rely i s s' →
      ct.guar i s' o ∧ ∀ f, wp i (k (m.exec s' i o f).1) Q (m.exec s' i o f).2

variable {m ct} {i : Nat}

@[simp] theorem wp_ret {a : α} {Q : α → σ → Prop} {s : σ} : wp m ct i (.ret a) Q s ↔ Q a s :=
  Iff.rfl

theorem wp_op {o : Op} {k : Res o → Prog Op Res α} {Q : α → σ → Prop} {s : σ} :
    wp m ct i (.op o k) Q s ↔ ∀ s', ct.rely i s s' →
      ct.guar i s' o ∧ ∀ f, wp m ct i (k (m.exec s' i o f).1) Q (m.exec s' i o f).2 := Iff.rfl

theorem wp_bind {p : Prog Op Res α} {f : α → Prog Op Res β} {Q : β → σ → Prop} {s : σ} :
    wp m ct i (p >>= f) Q s ↔ wp m ct i p (fun a s' => wp m ct i (f a) Q s') s := by
  change wp m ct i (p.bind f) Q s ↔ _
  induction p generalizing s with
  | ret a => exact Iff.rfl
  | op o k ih => simp only [Prog.bind, wp_op, ih]

theorem wp_mono {p : Prog Op Res α} {Q Q' : α → σ → Prop} {s : σ} (hQ : ∀ a s, Q a s → Q' a s)
    (h : wp m ct i p Q s) : wp m ct i p Q' s := by
  induction p generalizing s with
  | ret a => exact hQ a s h
  | op o k ih =>
      intro s' hs'
      exact ⟨(h s' hs').1, fun f => ih _ ((h s' hs').2 f)⟩

theorem wp_of_ops {P : Op → Prop} (hP : ∀ s o, P o → ct.guar i s o) {p : Prog Op Res α}
    (h : p.Ops P) (s : σ) :
    wp m ct i p (fun _ _ => True) s := by
  induction p generalizing s with
  | ret a => trivial
  | op o k ih =>
      intro s' _
      exact ⟨hP s' o h.1, fun f => ih _ (h.2 _) _⟩

/-- A thread that copes with more interference than it has to, and promises more. -/
theorem wp_weaken {ct' : Contract σ Op} (hrely : ∀ s s', ct'.rely i s s' → ct.rely i s s')
    (hguar : ∀ s o, ct.guar i s o → ct'.guar i s o) {p : Prog Op Res α} {Q : α → σ → Prop} {s : σ}
    (h : wp m ct i p Q s) : wp m ct' i p Q s := by
  induction p generalizing s with
  | ret a => exact h
  | op o k ih =>
      intro s' hs'
      obtain ⟨hg, hk⟩ := h s' (hrely s s' hs')
      exact ⟨hguar s' o hg, fun f => ih _ (hk f)⟩

theorem alone_wp (hrefl : ∀ s, ct.rely i s s) {p : Prog Op Res α} {Q : α → σ → Prop} {s : σ}
    (f : Nat → Fate) (h : wp m ct i p Q s) : Q (m.alone i p s f).1 (m.alone i p s f).2 := by
  induction p generalizing s f with
  | ret a => exact h
  | op o k ih => exact ih _ (fun n => f (n + 1)) ((h s (hrefl s)).2 (f 0))

/-- What is guaranteed of every operation holds wherever the thread performs one. -/
theorem stops_wp (hrefl : ∀ s, ct.rely i s s) {P : σ → Prop} (hP : ∀ s o, ct.guar i s o → P s)
    {p : Prog Op Res α} {Q : α → σ → Prop} {s : σ} (f : Nat → Fate) (h : wp m ct i p Q s) :
    ∀ s' ∈ m.stops i p s f, P s' := by
  induction p generalizing s f with
  | ret a =>
      intro s' hs'
      cases hs'
  | op o k ih =>
      obtain ⟨hg, hk⟩ := h s (hrefl s)
      intro s' hs'
      rcases List.mem_cons.mp hs' with rfl | hs'
      · exact hP _ o hg
      · exact ih _ _ (hk (f 0)) s' hs'

/-! ### Soundness -/

section Sound
variable (hct : ct.Sound m)
include hct

/-- A precondition outlives what the others do, if the postcondition does. -/
theorem wp_rely {p : Prog Op Res α} {Q : α → σ → Prop}
    (hQ : ∀ a s s', ct.rely i s s' → Q a s → Q a s') {s s' : σ} (hs : ct.rely i s s')
    (h : wp m ct i p Q s) : wp m ct i p Q s' := by
  cases p with
  | ret a => exact hQ a s s' hs h
  | op o k =>
      intro s'' hs''
      exact h s'' (hct.trans hs hs'')

variable {g : Cfg σ Op Res α → Label Fate Ext → Prop} {Q : Nat → α → σ → Prop}
  (hQ : ∀ i a s s', ct.rely i s s' → Q i a s → Q i a s')
  (hext : ∀ i c e, g c (.ext e) → ct.rely i c.shared (m.ext c.shared e))
include hQ hext

theorem step_wp {c : Cfg σ Op Res α} {a : Label Fate Ext} (ha : g c a)
    (h : ∀ i, wp m ct i (c.thread i) (Q i) c.shared) (i : Nat) :
    wp m ct i ((m.step c a).thread i) (Q i) (m.step c a).shared := by
  cases a with
  | ext e => exact wp_rely hct (hQ i) (hext i c e ha) (h i)
  | run j f =>
      cases hj : c.thread j with
      | ret a =>
          rw [step_ret m f hj]
          exact h i
      | op o k =>
          have hop := h j
          rw [hj] at hop
          obtain ⟨hg, hk⟩ := hop c.shared (hct.refl j _)
          rw [step_op m f hj]
          by_cases hij : i = j
          · subst hij
            simpa only [Function.update_self] using hk f
          · simpa only [Function.update_of_ne hij] using
              wp_rely hct (hQ i) (hct.exec f hg hij) (h i)

/-- **Every schedule keeps every thread's precondition.** -/
theorem run_wp {c : Cfg σ Op Res α} {l : List (Label Fate Ext)} (hl : m.Along g c l)
    (h : ∀ i, wp m ct i (c.thread i) (Q i) c.shared) (i : Nat) :
    wp m ct i ((m.run c l).thread i) (Q i) (m.run c l).shared := by
  induction l generalizing c with
  | nil => exact h i
  | cons a l ih => exact ih hl.2 (step_wp hct hQ hext hl.1 h)

/-- A finished thread meets its postcondition. -/
theorem run_post {c : Cfg σ Op Res α} {l : List (Label Fate Ext)} (hl : m.Along g c l)
    (h : ∀ i, wp m ct i (c.thread i) (Q i) c.shared) {i : Nat} {a : α}
    (hi : (m.run c l).thread i = .ret a) : Q i a (m.run c l).shared := by
  have := run_wp hct hQ hext hl h i
  rwa [hi] at this

/-- The operation a thread is about to perform meets its guarantee. -/
theorem run_guar {c : Cfg σ Op Res α} {l : List (Label Fate Ext)} (hl : m.Along g c l)
    (h : ∀ i, wp m ct i (c.thread i) (Q i) c.shared) {i : Nat} {o : Op} {k : Res o → Prog Op Res α}
    (hi : (m.run c l).thread i = .op o k) : ct.guar i (m.run c l).shared o := by
  have := run_wp hct hQ hext hl h i
  rw [hi] at this
  exact (this _ (hct.refl i _)).1

/-- An invariant of the shared state needs to be shown only for operations that meet their
guarantee. -/
theorem run_shared {I : σ → Prop}
    (hop : ∀ {c : Cfg σ Op Res α} {i o k f}, c.thread i = .op o k → g c (.run i f) →
      ct.guar i c.shared o → I c.shared → I (m.exec c.shared i o f).2)
    (hmove : ∀ {c : Cfg σ Op Res α} {e}, g c (.ext e) → I c.shared → I (m.ext c.shared e))
    {c : Cfg σ Op Res α} {l : List (Label Fate Ext)} (hl : m.Along g c l)
    (h : ∀ i, wp m ct i (c.thread i) (Q i) c.shared) (hI : I c.shared) : I (m.run c l).shared := by
  induction l generalizing c with
  | nil => exact hI
  | cons a l ih =>
      refine ih hl.2 (step_wp hct hQ hext hl.1 h) ?_
      cases a with
      | ext e => exact hmove hl.1 hI
      | run i f =>
          cases hi : c.thread i with
          | ret a => rwa [step_ret m f hi]
          | op o k =>
              have hg := h i
              rw [hi] at hg
              rw [step_op m f hi]
              exact hop hi hl.1 (hg c.shared (hct.refl i _)).1 hI

end Sound

end Logic

end Interleave
