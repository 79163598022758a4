import AppHome.Lib.Component

/-!
# Operations that a program performs at most once

* `Prog.Once` : no path of the program has two operations of a kind;
* `run_once` : so no thread comes to one after it has performed one;
* `run_raises` : a number that only such operations raise, each by one at most, has been raised by
  that many threads.
-/

namespace Interleave

section Once
variable {σ Op : Type} {Res : Op → Type} {Fate Ext : Type} {α β : Type} {P : Op → Prop}

/-- After an operation in `P` the program performs no other. -/
def Prog.Once (P : Op → Prop) : Prog Op Res α → Prop
  | .ret _ => True
  | .op o k => (P o → ∀ r, (k r).Ops fun o => ¬ P o) ∧ ∀ r, (k r).Once P

theorem Prog.Once.of_ops {p : Prog Op Res α} (h : p.Ops fun o => ¬ P o) : p.Once P := by
  induction p with
  | ret a => trivial
  | op o k ih => exact ⟨fun ho => absurd ho h.1, fun r => ih r (h.2 r)⟩

theorem Prog.Once.bind {p : Prog Op Res α} {f : α → Prog Op Res β} (hp : p.Once P)
    (hf : ∀ a, (f a).Ops fun o => ¬ P o) : (p >>= f).Once P := by
  induction p with
  | ret a => exact .of_ops (hf a)
  | op o k ih => exact ⟨fun ho r => (hp.1 ho r).bind hf, fun r => ih r (hp.2 r)⟩

theorem Prog.Once.widen {Op' : Type} {Res' : Op' → Type} {wide : Op' → Op}
    {answer : ∀ o, Res (wide o) → Res' o} {P' : Op' → Prop} (hP : ∀ o, P (wide o) ↔ P' o)
    {p : Prog Op' Res' α} (hp : p.Once P') :
    (p.widen wide answer).Once P := by
  induction p with
  | ret a => trivial
  | op o k ih =>
      refine ⟨fun ho r => ?_, fun r => ih _ (hp.2 _)⟩
      refine Prog.ops_widen ((hp.1 ((hP o).mp ho) (answer o r)).mono fun o' ho' h => ?_)
      exact ho' ((hP o').mp h)

section Runs
variable (m : Machine σ Op Res Fate Ext) {c : Cfg σ Op Res α}

theorem run_once {i : Nat} (h : (c.thread i).Once P) {l₁ l₂ : List (Label Fate Ext)} {f : Fate}
    {o o' : Op} {k : Res o → Prog Op Res α} {k' : Res o' → Prog Op Res α}
    (hi : (m.run c l₁).thread i = .op o k) (ho : P o)
    (hi' : (m.run c (l₁ ++ .run i f :: l₂)).thread i = .op o' k') : ¬ P o' := by
  have hbefore := run_thread m (P := Prog.Once P) (fun _ _ r h => h.2 r) h l₁
  rw [hi] at hbefore
  rw [run_append, run_cons, step_op m f hi] at hi'
  refine run_ops m (P := fun o => ¬ P o) ?_ hi'
  simpa only [Function.update_self] using hbefore.1 ho _

variable (μ : σ → Nat)

/-- **Who has raised a number.** If only operations in `P` raise it, each by one at most, and every
thread performs one of them at most, then as many threads have. -/
theorem run_raises (honce : ∀ i, (c.thread i).Once P)
    (hquiet : ∀ s i o f, ¬ P o → μ (m.exec s i o f).2 ≤ μ s)
    (hraise : ∀ s i o f, P o → μ (m.exec s i o f).2 ≤ μ s + 1) {l : List (Label Fate Ext)}
    (hext : ∀ s e, .ext e ∈ l → μ (m.ext s e) ≤ μ s) :
    ∃ threads : Finset Nat, μ (m.run c l).shared ≤ μ c.shared + threads.card ∧
      ∀ i ∈ threads, ∃ l₁ f l₂ o k, l = l₁ ++ .run i f :: l₂ ∧
        (m.run c l₁).thread i = .op o k ∧ P o ∧
        μ (m.run c l₁).shared < μ (m.exec (m.run c l₁).shared i o f).2 := by
  induction l using List.reverseRecOn with
  | nil => exact ⟨∅, le_rfl, fun i hi => absurd hi (Finset.notMem_empty i)⟩
  | append_singleton l a ih =>
      obtain ⟨threads, hcard, hthreads⟩ := ih fun s e he => hext s e (List.mem_append_left _ he)
      have hmore : ∀ i ∈ threads, ∃ l₁ f l₂ o k, l ++ [a] = l₁ ++ .run i f :: l₂ ∧
          (m.run c l₁).thread i = .op o k ∧
          P o ∧ μ (m.run c l₁).shared < μ (m.exec (m.run c l₁).shared i o f).2 := by
        intro i hi
        obtain ⟨l₁, f, l₂, o, k, rfl, h⟩ := hthreads i hi
        exact ⟨l₁, f, l₂ ++ [a], o, k, by simp, h⟩
      rw [run_append, run_cons, run_nil]
      cases a with
      | ext e =>
          have hle := hext (m.run c l).shared e (List.mem_append_right _ List.mem_cons_self)
          exact ⟨threads, hle.trans hcard, hmore⟩
      | run i f =>
          cases hi : (m.run c l).thread i with
          | ret a =>
              rw [step_ret m f hi]
              exact ⟨threads, hcard, hmore⟩
          | op o k =>
              rw [step_op m f hi]
              by_cases hlt : μ (m.run c l).shared < μ (m.exec (m.run c l).shared i o f).2
              · have hP : P o := by
                  by_contra hP
                  exact absurd (hquiet _ i o f hP) (not_le.mpr hlt)
                have hnew : i ∉ threads := by
                  intro hmem
                  obtain ⟨l₁, f', l₂, o', k', rfl, hi', ho', -⟩ := hthreads i hmem
                  exact run_once m (honce i) hi' ho' hi hP
                refine ⟨insert i threads, ?_, fun j hj => ?_⟩
                · have hone := hraise (m.run c l).shared i o f hP
                  rw [Finset.card_insert_of_notMem hnew]
                  show μ (m.exec (m.run c l).shared i o f).2 ≤ _
                  omega
                · rcases Finset.mem_insert.mp hj with rfl | hj
                  · exact ⟨l, f, [], o, k, rfl, hi, hP, hlt⟩
                  · exact hmore j hj
              · exact ⟨threads, (not_lt.mp hlt).trans hcard, hmore⟩

end Runs

end Once

end Interleave
