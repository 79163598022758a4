import AppHome.Lib.Interleave

/-!
# Programs of a component inside a larger machine

A component's program is widened to the operations of the whole (`Prog.widen`), and the component's
state is a view of the whole's.

* `wp_widen` : what was shown of the component's program holds of the widened one; `wp_ops` is the
  rule for a program of which only the kinds of operations matter, `wp_frame` adds what every
  operation keeps;
* `run_local` : one thread, where the others are known only by how they change the state;
* `Erases`, `Becomes`, `run_becomes` : the whole simulates the component. Operations outside the
  component are left out; their answers decide which of some candidates the component's own thread
  is;
* `Prog.Until`, `run_until` : an operation that no path of a program reaches before some other one
  was answered in some way is preceded by that answer in every run;
* `run_change`, `run_last_change` : what a run changes, an operation of one of its threads changes.
-/

namespace Interleave

section Component
variable {σ Op : Type} {Res : Op → Type} {Fate Ext : Type} {σ' Op' : Type} {Res' : Op' → Type}
  {Fate' Ext' : Type}
variable {α β γ : Type}

/-! ## Preconditions -/

section Rules
variable {m : Machine σ Op Res Fate Ext} {ct : Contract σ Op} {i : Nat}

variable (ct) in
/-- A program whose operations keep the contract where `J` holds, and keep `J`. -/
theorem wp_ops {J : σ → Prop} {P : Op → Prop} (hrely : ∀ s s', ct.rely i s s' → J s → J s')
    (hguar : ∀ s o, J s → P o → ct.guar i s o) (hexec : ∀ s o f, J s → P o → J (m.exec s i o f).2)
    {p : Prog Op Res α} (hp : p.Ops P) {s : σ} (hJ : J s) : wp m ct i p (fun _ => J) s := by
  induction p generalizing s with
  | ret a => exact hJ
  | op o k ih =>
      intro s' hs'
      have hJ' : J s' := hrely s s' hs' hJ
      exact ⟨hguar s' o hJ' hp.1, fun f => ih _ (hp.2 _) (hexec s' o f hJ' hp.1)⟩

theorem wp_frame {J : σ → Prop} (hrely : ∀ s s', ct.rely i s s' → J s → J s')
    (hexec : ∀ s o f, ct.guar i s o → J s → J (m.exec s i o f).2) {p : Prog Op Res α}
    {Q : α → σ → Prop} {s : σ} (h : wp m ct i p Q s) (hJ : J s) :
    wp m ct i p (fun a s => Q a s ∧ J s) s := by
  induction p generalizing s with
  | ret a => exact ⟨h, hJ⟩
  | op o k ih =>
      intro s' hs'
      obtain ⟨hg, hk⟩ := h s' hs'
      exact ⟨hg, fun f => ih _ (hk f) (hexec s' o f hg (hrely s s' hs' hJ))⟩

theorem wp_and {p : Prog Op Res α} {Q Q' : α → σ → Prop} {s : σ} (h : wp m ct i p Q s)
    (h' : wp m ct i p Q' s) :
    wp m ct i p (fun a s => Q a s ∧ Q' a s) s := by
  induction p generalizing s with
  | ret a => exact ⟨h, h'⟩
  | op o k ih =>
    exact fun s' hs' => ⟨(h s' hs').1, fun f => ih _ ((h s' hs').2 f) ((h' s' hs').2 f)⟩

/-- **A component's program in the whole.** -/
theorem wp_widen {m' : Machine σ' Op' Res' Fate' Ext'} {ct' : Contract σ' Op'} {wide : Op' → Op}
    {answer : ∀ o, Res (wide o) → Res' o} (view : σ → σ')
    (hexec : ∀ s o f, ∃ f', answer o (m.exec s i (wide o) f).1 = (m'.exec (view s) i o f').1 ∧
      view (m.exec s i (wide o) f).2 = (m'.exec (view s) i o f').2)
    (hrely : ∀ s s', ct.rely i s s' → ct'.rely i (view s) (view s'))
    (hguar : ∀ s o, ct'.guar i (view s) o → ct.guar i s (wide o)) {p : Prog Op' Res' α}
    {Q : α → σ' → Prop} {s : σ} (h : wp m' ct' i p Q (view s)) :
    wp m ct i (p.widen wide answer) (fun a s => Q a (view s)) s := by
  induction p generalizing s with
  | ret a => exact h
  | op o k ih =>
      intro s' hs'
      obtain ⟨hg, hk⟩ := h (view s') (hrely s s' hs')
      refine ⟨hguar s' o hg, fun f => ih _ ?_⟩
      obtain ⟨f', hanswer, hview⟩ := hexec s' o f
      rw [hanswer, hview]
      exact hk f'

end Rules

namespace Prog

/-- Every result of the program satisfies `P`, whatever its operations are answered. -/
def Rets (P : α → Prop) : Prog Op Res α → Prop
  | .ret a => P a
  | .op _ k => ∀ r, (k r).Rets P

theorem Rets.bind {P : α → Prop} {P' : β → Prop} {p : Prog Op Res α} {f : α → Prog Op Res β}
    (hp : p.Rets P) (hf : ∀ a, P a → (f a).Rets P') : (p >>= f).Rets P' := by
  induction p with
  | ret a => exact hf a hp
  | op o k ih => exact fun r => ih r (hp r)

theorem Ops.bind_rets {P : Op → Prop} {P' : α → Prop} {p : Prog Op Res α} {f : α → Prog Op Res β}
    (hrets : p.Rets P') (hp : p.Ops P) (hf : ∀ a, P' a → (f a).Ops P) : (p >>= f).Ops P := by
  induction p with
  | ret a => exact hf a hrets
  | op o k ih => exact ⟨hp.1, fun r => ih r (hrets r) (hp.2 r)⟩

theorem Rets.mono {P P' : α → Prop} {p : Prog Op Res α} (h : p.Rets P) (hP : ∀ a, P a → P' a) :
    p.Rets P' := by
  induction p with
  | ret a => exact hP a h
  | op o k ih => exact fun r => ih r (h r)

theorem rets_true (p : Prog Op Res α) : p.Rets fun _ => True := by
  induction p with
  | ret a => trivial
  | op o k ih => exact ih

theorem Ops.mono {P P' : Op → Prop} (hP : ∀ o, P o → P' o) {p : Prog Op Res α} (h : p.Ops P) :
    p.Ops P' := by
  induction p with
  | ret a => trivial
  | op o k ih => exact ⟨hP o h.1, fun r => ih r (h.2 r)⟩

theorem Ops.of_bind {P : Op → Prop} {p : Prog Op Res α} {f : α → Prog Op Res β}
    (h : (p >>= f).Ops P) : p.Ops P := by
  induction p with
  | ret a => trivial
  | op o k ih => exact ⟨h.1, fun r => ih r (h.2 r)⟩

theorem ops_widen {P : Op → Prop} {wide : Op' → Op} {answer : ∀ o, Res (wide o) → Res' o}
    {p : Prog Op' Res' α} (h : p.Ops fun o => P (wide o)) : (p.widen wide answer).Ops P := by
  induction p with
  | ret a => trivial
  | op o k ih => exact ⟨h.1, fun r => ih _ (h.2 _)⟩

theorem ops_true (p : Prog Op Res α) : p.Ops fun _ => True := by
  induction p with
  | ret a => trivial
  | op o k ih => exact ⟨trivial, ih⟩

end Prog

theorem wp_rets {m : Machine σ Op Res Fate Ext} {ct : Contract σ Op} {i : Nat} {P : Op → Prop}
    {R : α → Prop} (hguar : ∀ s o, P o → ct.guar i s o) {p : Prog Op Res α} (hp : p.Ops P)
    (hrets : p.Rets R) (s : σ) :
    wp m ct i p (fun a _ => R a) s := by
  induction p generalizing s with
  | ret a => exact hrets
  | op o k ih => exact fun s' _ => ⟨hguar s' o hp.1, fun f => ih _ (hp.2 _) (hrets _) _⟩

/-- A thread by itself: where the others change the state as it relies on, it keeps its
precondition, whatever else is known of them. -/
theorem run_local {m : Machine σ Op Res Fate Ext} {ct : Contract σ Op} {i : Nat}
    {Q : α → σ → Prop} (htrans : ∀ {s t u}, ct.rely i s t → ct.rely i t u → ct.rely i s u)
    (hQ : ∀ a s s', ct.rely i s s' → Q a s → Q a s') (hrefl : ∀ s, ct.rely i s s)
    {c : Cfg σ Op Res α} {l : List (Label Fate Ext)}
    (hl : m.Along (fun c a => (∀ f, a ≠ .run i f) → ct.rely i c.shared (m.step c a).shared) c l)
    (h : wp m ct i (c.thread i) Q c.shared) :
    wp m ct i ((m.run c l).thread i) Q (m.run c l).shared := by
  have hothers : ∀ {p : Prog Op Res α} {s s' : σ}, ct.rely i s s' → wp m ct i p Q s →
      wp m ct i p Q s' := by
    intro p s s' hs h
    cases p with
    | ret a => exact hQ a s s' hs h
    | op o k => exact fun s'' hs'' => h s'' (htrans hs hs'')
  induction l generalizing c with
  | nil => exact h
  | cons a l ih =>
      refine ih hl.2 ?_
      by_cases ha : ∃ f, a = .run i f
      · obtain ⟨f, rfl⟩ := ha
        cases hi : c.thread i with
        | ret a =>
            rw [step_ret m f hi, hi]
            rw [hi] at h
            exact h
        | op o k =>
            rw [hi] at h
            rw [step_op m f hi]
            simpa only [Function.update_self] using (h c.shared (hrefl _)).2 f
      · have hne : ∀ f, a ≠ .run i f := fun f hf => ha ⟨f, hf⟩
        have hthread : (m.step c a).thread i = c.thread i := by
          cases a with
          | ext e => rfl
          | run j f =>
              have hij : i ≠ j := by
                rintro rfl
                exact hne f rfl
              exact step_thread_of_ne m hij f
        rw [hthread]
        exact hothers (hl.1 hne) h

/-! ## Erasure -/

section Erasure
variable {wide : Op' → Op} {answer : ∀ o, Res (wide o) → Res' o} {ρ : α → β → Prop}

/-- The operation is not one of the component. -/
def Outside (wide : Op' → Op) (o : Op) : Prop := ∀ o', o ≠ wide o'

variable (wide answer ρ) in
/-- The program is the component's program `q` with operations of others in between. -/
inductive Erases : Prog Op Res α → Prog Op' Res' β → Prop
  | ret {a b} (h : ρ a b) : Erases (.ret a) (.ret b)
  | keep {o k k'} (h : ∀ r, Erases (k r) (k' (answer o r))) : Erases (.op (wide o) k) (.op o k')
  | skip {o k q} (ho : Outside wide o) (h : ∀ r, Erases (k r) q) : Erases (.op o k) q

variable (wide answer ρ) in
/-- What the others answer decides which of the programs in `C` the program is, or that it is none
and leaves the component alone. -/
inductive Becomes (C : Set (Prog Op' Res' β)) : Prog Op Res α → Prop
  | erases {p q} (hq : q ∈ C) (h : Erases wide answer ρ p q) : Becomes C p
  | silent {p} (hops : p.Ops (Outside wide)) (hrets : p.Rets fun a => ∀ b, ¬ ρ a b) : Becomes C p
  | skip {o k} (ho : Outside wide o) (h : ∀ r, Becomes C (k r)) : Becomes C (.op o k)

theorem Erases.bind_outside {p : Prog Op Res γ} {f : γ → Prog Op Res α} {q : Prog Op' Res' β}
    (hp : p.Ops (Outside wide)) (hf : ∀ a, Erases wide answer ρ (f a) q) :
    Erases wide answer ρ (p >>= f) q := by
  induction p with
  | ret a => exact hf a
  | op o k ih => exact .skip hp.1 fun r => ih r (hp.2 r)

theorem Erases.bind_widen {p : Prog Op' Res' γ} {f : γ → Prog Op Res α} {f' : γ → Prog Op' Res' β}
    (hf : ∀ a, Erases wide answer ρ (f a) (f' a)) :
    Erases wide answer ρ (p.widen wide answer >>= f) (p >>= f') := by
  induction p with
  | ret a => exact hf a
  | op o k ih => exact .keep fun r => ih (answer o r)

theorem Becomes.bind_outside {C : Set (Prog Op' Res' β)} {p : Prog Op Res γ}
    {f : γ → Prog Op Res α} (hp : p.Ops (Outside wide)) (hf : ∀ a, Becomes wide answer ρ C (f a)) :
    Becomes wide answer ρ C (p >>= f) := by
  induction p with
  | ret a => exact hf a
  | op o k ih => exact .skip hp.1 fun r => ih r (hp.2 r)

theorem Erases.step_outside {o : Op} {k : Res o → Prog Op Res α} {q : Prog Op' Res' β}
    (h : Erases wide answer ρ (.op o k) q) (ho : Outside wide o) (r : Res o) :
    Erases wide answer ρ (k r) q := by
  cases h with
  | keep h => exact absurd rfl (ho _)
  | skip _ h => exact h r

theorem Becomes.step_outside {C : Set (Prog Op' Res' β)} {o : Op} {k : Res o → Prog Op Res α}
    (h : Becomes wide answer ρ C (.op o k)) (ho : Outside wide o) (r : Res o) :
    Becomes wide answer ρ C (k r) := by
  cases h with
  | erases hq h => exact .erases hq (h.step_outside ho r)
  | silent hops hrets => exact .silent (hops.2 r) (hrets r)
  | skip _ h => exact h r

/-- A program that is about to perform an operation of the component is decided. -/
theorem Becomes.step_inside (hwide : Function.Injective wide) {C : Set (Prog Op' Res' β)} {o : Op'}
    {k : Res (wide o) → Prog Op Res α} (h : Becomes wide answer ρ C (.op (wide o) k)) :
    ∃ k', .op o k' ∈ C ∧ ∀ r, Erases wide answer ρ (k r) (k' (answer o r)) := by
  cases h with
  | erases hq h =>
      generalize hp : Prog.op (wide o) k = p at h
      cases h with
      | ret h => cases hp
      | skip ho h =>
          injection hp with hop
          exact absurd hop.symm (ho o)
      | @keep o' k₀ k' h =>
          injection hp with hop hk
          have ho : o = o' := hwide hop
          subst ho
          cases hk
          exact ⟨k', hq, h⟩
  | silent hops hrets => exact absurd rfl (hops.1 o)
  | skip ho h => exact absurd rfl (ho o)

variable (ρ) in
/-- Where the program has ended with a result that the component can have, the component's program
has ended with it. -/
def Settled (p : Prog Op Res α) (q : Prog Op' Res' β) : Prop :=
  ∀ a b, p = .ret a → ρ a b → ∃ b', q = .ret b' ∧ ρ a b'

theorem Becomes.exists_settled {C : Set (Prog Op' Res' β)} (hne : C.Nonempty) {p : Prog Op Res α}
    (h : Becomes wide answer ρ C p) : ∃ q ∈ C, Settled ρ p q := by
  cases h with
  | @erases _ q hq h =>
      refine ⟨q, hq, ?_⟩
      rintro a b rfl -
      cases h with
      | ret h => exact ⟨_, rfl, h⟩
  | silent hops hrets =>
      obtain ⟨q, hq⟩ := hne
      refine ⟨q, hq, ?_⟩
      rintro a b rfl hab
      exact absurd hab (hrets b)
  | skip ho h =>
      obtain ⟨q, hq⟩ := hne
      exact ⟨q, hq, fun a b hp => by cases hp⟩

section Simulation
variable {m : Machine σ Op Res Fate Ext} {m' : Machine σ' Op' Res' Fate' Ext'} {R : σ → σ' → Prop}

variable (wide m) in
/-- Thread `i` performs an operation of the component in the course of `l`. -/
def TakesPart (c : Cfg σ Op Res α) (i : Nat) (l : List (Label Fate Ext)) : Prop :=
  ∃ l₁ f l₂ o k, l = l₁ ++ .run i f :: l₂ ∧ (m.run c l₁).thread i = .op (wide o) k

theorem TakesPart.cons {c : Cfg σ Op Res α} {i : Nat} {a : Label Fate Ext}
    {l : List (Label Fate Ext)} (h : TakesPart wide m (m.step c a) i l) :
    TakesPart wide m c i (a :: l) := by
  obtain ⟨l₁, f, l₂, o, k, rfl, hi⟩ := h
  exact ⟨a :: l₁, f, l₂, o, k, rfl, hi⟩

variable (wide ρ m m' R) in
/-- Every moment of the run from `c` along `l` is a moment of a run of the component from `c'`, in
which a thread moves only if it does in `l`. -/
def Mirrors (c : Cfg σ Op Res α) (c' : Cfg σ' Op' Res' β) (l : List (Label Fate Ext)) : Prop :=
  ∀ l₁, l₁ <+: l → ∃ l', R (m.run c l₁).shared (m'.run c' l').shared ∧
    (∀ i, Settled ρ ((m.run c l₁).thread i) ((m'.run c' l').thread i)) ∧
    ∀ a ∈ l', ∃ i f, a = .run i f ∧ TakesPart wide m c i l₁

theorem Mirrors.cons {c : Cfg σ Op Res α} {c' : Cfg σ' Op' Res' β} {a : Label Fate Ext}
    {l : List (Label Fate Ext)} (hR : R c.shared c'.shared)
    (hc : ∀ i, Settled ρ (c.thread i) (c'.thread i)) (first : List (Label Fate' Ext'))
    (hfirst : ∀ b ∈ first, ∃ i f, b = .run i f ∧ ∃ f₀ o k, a = .run i f₀ ∧
      c.thread i = .op (wide o) k)
    (h : Mirrors wide ρ m m' R (m.step c a) (m'.run c' first) l) :
    Mirrors wide ρ m m' R c c' (a :: l) := by
  intro l₁ hl₁
  rcases List.prefix_cons_iff.mp hl₁ with rfl | ⟨l₂, rfl, hl₂⟩
  · exact ⟨[], hR, hc, fun b hb => absurd hb List.not_mem_nil⟩
  · obtain ⟨l', hl', hsettled, hmoves⟩ := h l₂ hl₂
    rw [← run_append] at hl' hsettled
    refine ⟨first ++ l', hl', hsettled, fun b hb => ?_⟩
    rcases List.mem_append.mp hb with hb | hb
    · obtain ⟨i, f, rfl, f₀, o, k, rfl, hi⟩ := hfirst b hb
      exact ⟨i, f, rfl, [], f₀, l₂, o, k, rfl, hi⟩
    · obtain ⟨i, f, rfl, htakes⟩ := hmoves b hb
      exact ⟨i, f, rfl, htakes.cons⟩

theorem becomes_step {C : Nat → Set (Prog Op' Res' β)} {c : Cfg σ Op Res α} {j : Nat} {f : Fate}
    {o : Op} {k : Res o → Prog Op Res α} (hj : c.thread j = .op o k)
    (hC : ∀ i, Becomes wide answer ρ (C i) (c.thread i)) {D : Set (Prog Op' Res' β)}
    (hD : Becomes wide answer ρ D (k (m.exec c.shared j o f).1)) (i : Nat) :
    Becomes wide answer ρ (Function.update C j D i) ((m.step c (.run j f)).thread i) := by
  rw [step_op m f hj]
  by_cases hij : i = j
  · subst hij
    simpa only [Function.update_self] using hD
  · simpa only [Function.update_of_ne hij] using hC i

/-- A thread that has a move to make has not ended. -/
theorem settled_before {c : Cfg σ Op Res α} {j : Nat} {f : Fate} {o : Op}
    {k : Res o → Prog Op Res α} (hj : c.thread j = .op o k) {q : Nat → Prog Op' Res' β}
    (h : ∀ i, i ≠ j → Settled ρ ((m.step c (.run j f)).thread i) (q i)) (i : Nat) :
    Settled ρ (c.thread i) (q i) := by
  by_cases hij : i = j
  · intro a b hret
    rw [hij, hj] at hret
    cases hret
  · rw [← step_thread_of_ne m hij f]
    exact h i hij

variable (hwide : Function.Injective wide)
  (hkeep : ∀ s t i o f, R s t → ∃ f', answer o (m.exec s i (wide o) f).1 = (m'.exec t i o f').1 ∧
    R (m.exec s i (wide o) f).2 (m'.exec t i o f').2)
  (hskip : ∀ s t i o f, R s t → Outside wide o → R (m.exec s i o f).2 t)
  (hext : ∀ s t e, R s t → R (m.ext s e) t)
include hwide hkeep hskip hext

variable (m m' R) in
/-- **The whole simulates the component.** Some choice among the candidates makes every moment of
the run a moment of a run of the component. The choice is made at the end of the run, when all that
decides it is known. -/
theorem run_becomes {C : Nat → Set (Prog Op' Res' β)} (hne : ∀ i, (C i).Nonempty)
    {c : Cfg σ Op Res α} {t : σ'} (hR : R c.shared t)
    (hC : ∀ i, Becomes wide answer ρ (C i) (c.thread i)) (l : List (Label Fate Ext)) :
    ∃ q : Nat → Prog Op' Res' β, (∀ i, q i ∈ C i) ∧ (∀ i, Settled ρ (c.thread i) (q i)) ∧
      Mirrors wide ρ m m' R c ⟨t, q⟩ l := by
  induction l generalizing c t C with
  | nil =>
      choose q hq hsettled using fun i => (hC i).exists_settled (hne i)
      refine ⟨q, hq, hsettled, fun l₁ hl₁ => ⟨[], ?_⟩⟩
      rw [List.prefix_nil.mp hl₁]
      exact ⟨hR, hsettled, fun b hb => absurd hb List.not_mem_nil⟩
  | cons a l ih =>
      have hnone : ∀ b ∈ ([] : List (Label Fate' Ext')), ∃ i f, b = .run i f ∧
          ∃ f₀ o k, a = .run i f₀ ∧ c.thread i = .op (wide o) k :=
            fun b hb => absurd hb List.not_mem_nil
      cases a with
      | ext e =>
          obtain ⟨q, hq, hsettled, hrun⟩ := ih (c := m.step c (.ext e)) hne (hext _ _ e hR) hC
          exact ⟨q, hq, hsettled, .cons hR hsettled [] hnone hrun⟩
      | run j f =>
          cases hj : c.thread j with
          | ret a =>
              have hstay : m.step c (.run j f) = c := step_ret m f hj
              obtain ⟨q, hq, hsettled, hrun⟩ := ih hne hR hC
              exact ⟨q, hq, hsettled, .cons hR hsettled [] hnone (by rw [hstay]; exact hrun)⟩
          | op o k =>
              have hstep := step_op m f hj
              have hCj := hC j
              rw [hj] at hCj
              by_cases ho : Outside wide o
              · have hC' := becomes_step (m := m) (f := f) hj hC (hCj.step_outside ho _)
                rw [Function.update_eq_self] at hC'
                have hR' : R (m.step c (.run j f)).shared t := by
                  rw [hstep]
                  exact hskip _ _ j o f hR ho
                obtain ⟨q, hq, hsettled, hrun⟩ := ih hne hR' hC'
                have hbefore := settled_before hj fun i _ => hsettled i
                exact ⟨q, hq, hbefore, .cons hR hbefore [] hnone hrun⟩
              · obtain ⟨o', rfl⟩ : ∃ o', o = wide o' := by simpa [Outside] using ho
                obtain ⟨k', hk', herases⟩ := hCj.step_inside hwide
                obtain ⟨f', hanswer, hR'⟩ := hkeep c.shared t j o' f hR
                have hnext : Becomes wide answer ρ {k' (m'.exec t j o' f').1}
                    (k (m.exec c.shared j (wide o') f).1) := by
                  rw [← hanswer]
                  exact .erases (Set.mem_singleton _) (herases _)
                have hC' := becomes_step (m := m) (f := f) hj hC hnext
                have hne' : ∀ i, (Function.update C j {k' (m'.exec t j o' f').1} i).Nonempty := by
                  intro i
                  by_cases hij : i = j
                  · rw [hij, Function.update_self]
                    exact Set.singleton_nonempty _
                  · rw [Function.update_of_ne hij]
                    exact hne i
                have hR' : R (m.step c (.run j f)).shared (m'.exec t j o' f').2 := by
                  rw [hstep]
                  exact hR'
                obtain ⟨q, hq, hsettled, hrun⟩ := ih hne' hR' hC'
                have hqj : q j = k' (m'.exec t j o' f').1 := by
                  have h := hq j
                  rwa [Function.update_self, Set.mem_singleton_iff] at h
                have hbefore : ∀ i, Settled ρ (c.thread i) (Function.update q j (.op o' k') i) :=
                  settled_before hj fun i hij => by
                    rw [Function.update_of_ne hij]
                    exact hsettled i
                refine ⟨Function.update q j (.op o' k'), fun i => ?_, hbefore,
                  .cons hR hbefore [.run j f'] ?_ ?_⟩
                · by_cases hij : i = j
                  · rw [hij, Function.update_self]
                    exact hk'
                  · have h := hq i
                    rw [Function.update_of_ne hij] at h ⊢
                    exact h
                · intro b hb
                  rw [List.mem_singleton] at hb
                  exact ⟨j, f', hb, f, o', k, rfl, hj⟩
                · rw [run_cons, run_nil, step_op m' f' (Function.update_self ..),
                    Function.update_idem, ← hqj, Function.update_eq_self]
                  exact hrun

end Simulation

end Erasure

/-! ## What comes first -/

/-- No operation in `danger` is performed before one was answered as `opens` says, and `Q` holds of
a result that comes before that. -/
def Prog.Until (danger : Op → Prop) (opens : ∀ o, Res o → Prop) (Q : α → Prop) :
    Prog Op Res α → Prop
  | .ret a => Q a
  | .op o k => ¬ danger o ∧ ∀ r, ¬ opens o r → (k r).Until danger opens Q

/-- The program is at one of these operations, or has ended with another result. -/
def Prog.Reaches (danger : Op → Prop) (Q : α → Prop) : Prog Op Res α → Prop
  | .ret a => ¬ Q a
  | .op o _ => danger o

section Until
variable {danger : Op → Prop} {opens : ∀ o, Res o → Prop}

theorem Prog.Until.of_ops {p : Prog Op Res α} {Q : α → Prop} (h : p.Ops fun o => ¬ danger o)
    (hrets : p.Rets Q) :
    p.Until danger opens Q := by
  induction p with
  | ret a => exact hrets
  | op o k ih => exact ⟨h.1, fun r _ => ih r (h.2 r) (hrets r)⟩

theorem Prog.Until.bind {p : Prog Op Res α} {f : α → Prog Op Res β} {Q : β → Prop}
    (hp : p.Until danger opens fun a => (f a).Until danger opens Q) :
    (p >>= f).Until danger opens Q := by
  induction p with
  | ret a => exact hp
  | op o k ih => exact ⟨hp.1, fun r hr => ih r (hp.2 r hr)⟩

theorem Prog.Until.mono {p : Prog Op Res α} {Q Q' : α → Prop} (hQ : ∀ a, Q a → Q' a)
    (hp : p.Until danger opens Q) :
    p.Until danger opens Q' := by
  induction p with
  | ret a => exact hQ a hp
  | op o k ih => exact ⟨hp.1, fun r hr => ih r (hp.2 r hr)⟩

theorem Prog.Until.widen {wide : Op' → Op} {answer : ∀ o, Res (wide o) → Res' o}
    {danger' : Op' → Prop} {opens' : ∀ o, Res' o → Prop}
    (hdanger : ∀ o, danger (wide o) → danger' o)
    (hopens : ∀ o r, opens' o (answer o r) → opens (wide o) r) {p : Prog Op' Res' α}
    {Q : α → Prop} (hp : p.Until danger' opens' Q) :
    (p.widen wide answer).Until danger opens Q := by
  induction p with
  | ret a => exact hp
  | op o k ih =>
    exact ⟨fun h => hp.1 (hdanger o h), fun r hr => ih _ (hp.2 _ fun h => hr (hopens o r h))⟩

theorem Fallible.until_bind {ε : Type} {p : Fallible Op Res ε α} {f : α → Fallible Op Res ε β}
    {Q : Except ε β → Prop}
    (hp : p.run.Until danger opens fun r => (∀ e, r = .error e → Q (.error e)) ∧ ∀ a, r = .ok a →
      (f a).run.Until danger opens Q) :
    (p >>= f).run.Until danger opens Q := by
  rw [Fallible.run_bind]
  refine (hp.mono fun r hr => ?_).bind
  cases r with
  | error e => exact hr.1 e rfl
  | ok a => exact hr.2 a rfl

theorem Prog.Until.not_reaches {p : Prog Op Res α} {Q : α → Prop} (hp : p.Until danger opens Q) :
    ¬ p.Reaches danger Q := by
  cases p with
  | ret a => exact fun h => h hp
  | op o k => exact hp.1

/-- In every run, a thread that has come to such an operation, or to such an end, was answered as
`opens` says before. -/
theorem run_until (m : Machine σ Op Res Fate Ext) {c : Cfg σ Op Res α} {i : Nat} {Q : α → Prop}
    (h : (c.thread i).Until danger opens Q) {l : List (Label Fate Ext)}
    (hi : ((m.run c l).thread i).Reaches danger Q) : ∃ l₁ f l₂ o k, l = l₁ ++ .run i f :: l₂ ∧
      (m.run c l₁).thread i = .op o k ∧ opens o (m.exec (m.run c l₁).shared i o f).1 := by
  induction l generalizing c with
  | nil => exact absurd hi h.not_reaches
  | cons a l ih =>
      -- if `a` does not open, what is left of the thread still has to wait
      have hrest : ((m.step c a).thread i).Until danger opens Q →
          ∃ l₁ f l₂ o k, a :: l = l₁ ++ .run i f :: l₂ ∧
          (m.run c l₁).thread i = .op o k ∧ opens o (m.exec (m.run c l₁).shared i o f).1 := by
        intro hnext
        obtain ⟨l₁, f, l₂, o, k, rfl, hthread, hopens⟩ := ih hnext hi
        exact ⟨a :: l₁, f, l₂, o, k, rfl, hthread, hopens⟩
      cases a with
      | ext e => exact hrest h
      | run j f =>
          by_cases hij : i = j
          · subst hij
            cases hc : c.thread i with
            | ret a =>
                refine hrest ?_
                rw [step_ret m f hc]
                exact h
            | op o k =>
                by_cases hopens : opens o (m.exec c.shared i o f).1
                · exact ⟨[], f, l, o, k, rfl, hc, hopens⟩
                · refine hrest ?_
                  rw [hc] at h
                  rw [step_op m f hc]
                  simpa only [Function.update_self] using h.2 _ hopens
          · refine hrest ?_
            rw [step_thread_of_ne m hij f]
            exact h

end Until

/-! ## What comes after -/

/-- Once an operation in `P` is performed, `Q` holds of the result. -/
def Prog.Behind (P : Op → Prop) (Q : α → Prop) : Prog Op Res α → Prop
  | .ret _ => True
  | .op o k => ∀ r, (P o → (k r).Rets Q) ∧ (k r).Behind P Q

section Behind
variable {P : Op → Prop} {Q : α → Prop}

theorem Prog.Rets.behind {p : Prog Op Res α} (h : p.Rets Q) : p.Behind P Q := by
  induction p with
  | ret a => trivial
  | op o k ih => exact fun r => ⟨fun _ => h r, ih r (h r)⟩

theorem Prog.Behind.bind {p : Prog Op Res γ} {f : γ → Prog Op Res α} (hp : p.Ops fun o => ¬ P o)
    (hf : ∀ a, (f a).Behind P Q) : (p >>= f).Behind P Q := by
  induction p with
  | ret a => exact hf a
  | op o k ih => exact fun r => ⟨fun ho => absurd ho hp.1, ih r (hp.2 r)⟩

/-- In every run, a thread that has performed such an operation ends with such a result. -/
theorem run_behind (m : Machine σ Op Res Fate Ext) {c : Cfg σ Op Res α} {i : Nat}
    (h : (c.thread i).Behind P Q) {l₁ l₂ : List (Label Fate Ext)} {f : Fate} {o : Op}
    {k : Res o → Prog Op Res α} (hi : (m.run c l₁).thread i = .op o k) (ho : P o) {a : α}
    (hend : (m.run c (l₁ ++ .run i f :: l₂)).thread i = .ret a) : Q a := by
  have hbehind := run_thread m (P := Prog.Behind P Q) (fun _ _ r h => (h r).2) h l₁
  rw [hi] at hbehind
  rw [run_append, run_cons] at hend
  have hrets := run_thread m (P := Prog.Rets Q) (c := m.step (m.run c l₁) (.run i f)) (i := i)
    (fun _ _ r h => h r)
    (by rw [step_op m f hi]; simpa only [Function.update_self] using (hbehind _).1 ho) l₂
  rw [hend] at hrets
  exact hrets

end Behind

theorem run_ops (m : Machine σ Op Res Fate Ext) {c : Cfg σ Op Res α} {i : Nat} {P : Op → Prop}
    (h : (c.thread i).Ops P) {l : List (Label Fate Ext)} {o : Op} {k : Res o → Prog Op Res α}
    (hi : (m.run c l).thread i = .op o k) : P o := by
  have hrun := run_thread m (P := Prog.Ops P) (fun _ _ r h => h.2 r) h l
  rw [hi] at hrun
  exact hrun.1

theorem run_change (m : Machine σ Op Res Fate Ext) {P : σ → Prop}
    (hext : ∀ s e, P (m.ext s e) → P s) {c : Cfg σ Op Res α} {l : List (Label Fate Ext)}
    (h : ¬ P c.shared) (h' : P (m.run c l).shared) :
    ∃ l₁ i f l₂ o k, l = l₁ ++ .run i f :: l₂ ∧ (m.run c l₁).thread i = .op o k ∧
      ¬ P (m.run c l₁).shared ∧ P (m.exec (m.run c l₁).shared i o f).2 := by
  induction l generalizing c with
  | nil => exact absurd h' h
  | cons a l ih =>
      by_cases ha : P (m.step c a).shared
      · cases a with
        | ext e => exact absurd (hext _ e ha) h
        | run i f =>
            cases hi : c.thread i with
            | ret a =>
                rw [step_ret m f hi] at ha
                exact absurd ha h
            | op o k =>
                rw [step_op m f hi] at ha
                exact ⟨[], i, f, l, o, k, rfl, hi, h, ha⟩
      · obtain ⟨l₁, i, f, l₂, o, k, rfl, hi, hbefore, hafter⟩ := ih ha h'
        exact ⟨a :: l₁, i, f, l₂, o, k, rfl, hi, hbefore, hafter⟩

/-- The last change of what one sees of the state. -/
theorem run_last_change (m : Machine σ Op Res Fate Ext) {δ : Type} {v : σ → δ}
    (hext : ∀ s e, v (m.ext s e) = v s) {c : Cfg σ Op Res α} {l : List (Label Fate Ext)}
    (h : v (m.run c l).shared ≠ v c.shared) :
    ∃ l₁ i f l₂ o k, l = l₁ ++ .run i f :: l₂ ∧ (m.run c l₁).thread i = .op o k ∧
      v (m.exec (m.run c l₁).shared i o f).2 ≠ v (m.run c l₁).shared ∧
      ∀ l₃, l₃ <+: l₂ → v (m.run c (l₁ ++ .run i f :: l₃)).shared = v (m.run c l).shared := by
  induction l using List.reverseRecOn with
  | nil => exact absurd rfl h
  | append_singleton l a ih =>
      by_cases hsame : v (m.run c (l ++ [a])).shared = v (m.run c l).shared
      · rw [hsame] at h ⊢
        obtain ⟨l₁, i, f, l₂, o, k, rfl, hi, hchange, hlater⟩ := ih h
        refine ⟨l₁, i, f, l₂ ++ [a], o, k, by simp, hi, hchange, fun l₃ hl₃ => ?_⟩
        rcases List.prefix_concat_iff.mp hl₃ with rfl | hl₃
        · simpa using hsame
        · exact hlater l₃ hl₃
      · rw [run_append, run_cons, run_nil] at hsame
        cases a with
        | ext e => exact absurd (hext _ e) hsame
        | run i f =>
            cases hi : (m.run c l).thread i with
            | ret a =>
                rw [step_ret m f hi] at hsame
                exact absurd rfl hsame
            | op o k =>
                rw [step_op m f hi] at hsame
                refine ⟨l, i, f, [], o, k, rfl, hi, hsame, fun l₃ hl₃ => ?_⟩
                rw [List.prefix_nil.mp hl₃]

end Component

end Interleave
