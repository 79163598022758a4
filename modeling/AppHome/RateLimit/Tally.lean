import AppHome.RateLimit.Outage

/-!
# What a counter says about an address

A key in Redis and an entry of a shadow are both a number of attempts in a window with a start.

* `Fleet.tally` : what a counter says, for Redis as for a shadow. The key says when its window ends,
  so it started `window_seconds` before;
* `Op.Counts` : the operations that count an attempt of an address with a counter;
* `tally_exec`, `tally_tick` : everything a step can do to a tally. It stays or goes, or an attempt
  starts a window or is added to one;
* `Timed` : windows start no later than now, and a key has an end. Every step keeps that;
* `refused_tryScript`, `refused_tryRecord` : an attempt is refused only where the limit is reached
  in a window that is not over.
-/

namespace AppHome.MemoryRateLimiter

variable {l : MemoryRateLimiter} {ip ip' : IpAddr} {now : Instant} {e : RateLimitEntry}

theorem entryOf_of_makeRoom (h : (l.makeRoom ip').entryOf ip = some e) : l.entryOf ip = some e := by
  obtain ⟨r, hr, rfl⟩ := Option.map_eq_some_iff.mp h
  obtain ⟨hmem, hkey⟩ := Table.find?_eq_some.mp hr
  exact Option.map_eq_some_iff.mpr ⟨r, Table.find?_eq_some.mpr ⟨mem_makeRoom hmem, hkey⟩, rfl⟩

theorem entryOf_makeRoom (l : MemoryRateLimiter) (ip : IpAddr) :
    (l.makeRoom ip).entryOf ip = l.entryOf ip := by
  by_cases hip : (l.entryOf ip).isSome
  · rw [makeRoom, if_pos hip]
  · have hnone : l.entryOf ip = none := Option.not_isSome_iff_eq_none.mp hip
    rw [hnone]
    by_contra hsome
    obtain ⟨e, he⟩ := Option.ne_none_iff_exists'.mp hsome
    cases hnone.symm.trans (entryOf_of_makeRoom he)

end AppHome.MemoryRateLimiter

namespace AppHome.RateLimit

open Interleave

/-- What a counter says about an address. -/
def Fleet.tally (cfg : RedisRateLimiter) (s : Fleet) (ip : IpAddr) : Source → Option RateLimitEntry
  | .redis => (s.counters.live? s.now ip).bind fun c =>
      c.expiresAt.map fun e => ⟨c.value, e - ofSecs cfg.windowSeconds⟩
  | .shadow k => (s.shadow k).entryOf ip

/-- The operation counts an attempt of `ip` with the counter. -/
def Op.Counts (ip : IpAddr) (src : Source) : Op → Prop
  | .tryScript ip' => src = .redis ∧ ip' = ip
  | .incrWithExpire ip' => src = .redis ∧ ip' = ip
  | .shadow k (.tryRecord ip') => src = .shadow k ∧ ip' = ip
  | .shadow k (.record ip') => src = .shadow k ∧ ip' = ip
  | _ => False

/-- An attempt started a window, or was added to the one that was there. -/
def Counted (now : Instant) (before : Option RateLimitEntry) (e : RateLimitEntry) : Prop :=
  e.windowStart = now ∧ e.attempts ≤ 1 ∨
    ∃ e₀, before = some e₀ ∧ e.windowStart = e₀.windowStart ∧ e.attempts ≤ e₀.attempts + 1

section Shadow
variable {l : MemoryRateLimiter} {now : Instant} {ip ip' : IpAddr} {e e₁ : RateLimitEntry}

theorem counted_recorded : Counted now (l.entryOf ip) (l.recorded now (l.entryOrNew ip now)) := by
  unfold MemoryRateLimiter.recorded
  split_ifs
  · exact Or.inl ⟨rfl, le_rfl⟩
  · cases h : l.entryOf ip with
    | none =>
        rw [MemoryRateLimiter.entryOrNew, h]
        exact Or.inl ⟨rfl, Nat.mod_le _ _⟩
    | some e₀ =>
        rw [MemoryRateLimiter.entryOrNew, h]
        exact Or.inr ⟨e₀, rfl, rfl, Nat.mod_le _ _⟩

theorem counted_tried : Counted now (l.entryOf ip) (l.tried now (l.entryOrNew ip now)).2 := by
  unfold MemoryRateLimiter.tried
  split_ifs
  · exact Or.inl ⟨rfl, le_rfl⟩
  · cases h : l.entryOf ip with
    | none =>
        rw [MemoryRateLimiter.entryOrNew, h]
        exact Or.inl ⟨rfl, le_rfl⟩
    | some e₀ =>
        rw [MemoryRateLimiter.entryOrNew, h]
        exact Or.inr ⟨e₀, rfl, rfl, le_rfl⟩
  · cases h : l.entryOf ip with
    | none =>
        rw [MemoryRateLimiter.entryOrNew, h]
        exact Or.inl ⟨rfl, Nat.zero_le _⟩
    | some e₀ =>
        rw [MemoryRateLimiter.entryOrNew, h]
        exact Or.inr ⟨e₀, rfl, rfl, Nat.le_succ _⟩

theorem entryOf_stored (h : ((l.makeRoom ip').store ip' e₁).entryOf ip = some e) :
    l.entryOf ip = some e ∨ ip' = ip ∧ e = e₁ := by
  rw [MemoryRateLimiter.entryOf_store] at h
  split_ifs at h with hip
  · exact Or.inr ⟨hip, (Option.some.inj h).symm⟩
  · exact Or.inl (MemoryRateLimiter.entryOf_of_makeRoom h)

theorem entryOf_record_cases (h : (l.record now ip').entryOf ip = some e) :
    l.entryOf ip = some e ∨ ip' = ip ∧ Counted now (l.entryOf ip) e := by
  rcases entryOf_stored h with h | ⟨rfl, rfl⟩
  · exact Or.inl h
  · refine Or.inr ⟨rfl, ?_⟩
    rw [← MemoryRateLimiter.entryOf_makeRoom l ip']
    exact counted_recorded

theorem entryOf_tryRecord_cases (h : (l.tryRecord now ip').2.entryOf ip = some e) :
    l.entryOf ip = some e ∨ ip' = ip ∧ Counted now (l.entryOf ip) e := by
  rcases entryOf_stored h with h | ⟨rfl, rfl⟩
  · exact Or.inl h
  · refine Or.inr ⟨rfl, ?_⟩
    rw [← MemoryRateLimiter.entryOf_makeRoom l ip']
    exact counted_tried

end Shadow

section Steps
variable {server : RedisServer} {cfg : RedisRateLimiter} {s : Fleet} {ip : IpAddr} {src : Source}
  {e : RateLimitEntry}

/-! ## Steps -/

theorem grantIf_frame (s : Fleet) (b : Bool) (g : Grant) :
    (s.grantIf b g).now = s.now ∧ (s.grantIf b g).counters = s.counters ∧
    (s.grantIf b g).shadow = s.shadow := by
  unfold Fleet.grantIf
  split_ifs <;> exact ⟨rfl, rfl, rfl⟩

@[simp] theorem tally_grantIf (b : Bool) (g : Grant) :
    (s.grantIf b g).tally cfg ip src = s.tally cfg ip src := by
  obtain ⟨hnow, hcounters, hshadow⟩ := grantIf_frame s b g
  cases src with
  | redis => simp only [Fleet.tally, hnow, hcounters]
  | shadow k => simp only [Fleet.tally, hshadow]

theorem tally_shadowExec {i k : Nat} {step : ShadowStep}
    (h : (shadowExec s i k step).2.tally cfg ip src = some e) :
    s.tally cfg ip src = some e ∨ (Op.shadow k step).Counts ip src ∧
    Counted s.now (s.tally cfg ip src) e := by
  have hother : ∀ l, src ≠ .shadow k → (s.setShadow k l).tally cfg ip src = s.tally cfg ip src := by
    intro l hne
    cases src with
    | redis => rfl
    | shadow k' =>
        have hk : k' ≠ k := fun h => hne (by rw [h])
        simp only [Fleet.tally, Fleet.setShadow_shadow_of_ne s l hk]
  have hown : ∀ l, (s.setShadow k l).tally cfg ip (.shadow k) = l.entryOf ip := by
    intro l
    simp only [Fleet.tally, Fleet.setShadow_shadow]
  have hset : ∀ l, (s.setShadow k l).tally cfg ip src = some e →
      (∀ e', l.entryOf ip = some e' → (s.shadow k).entryOf ip = some e' ∨
        (Op.shadow k step).Counts ip (.shadow k) ∧ Counted s.now ((s.shadow k).entryOf ip) e') →
      s.tally cfg ip src = some e ∨ (Op.shadow k step).Counts ip src ∧
      Counted s.now (s.tally cfg ip src) e := by
    intro l h hl
    by_cases hsrc : src = .shadow k
    · subst hsrc
      rw [hown] at h
      exact hl e h
    · rw [hother l hsrc] at h
      exact Or.inl h
  cases step with
  | clean =>
      refine hset _ h fun e' he' => Or.inl ?_
      rw [MemoryRateLimiter.entryOf_cleanExpired] at he'
      exact (Option.filter_eq_some_iff.mp he').1
  | allows ip' => exact Or.inl h
  | record ip' =>
      refine hset _ h fun e' he' => ?_
      exact (entryOf_record_cases he').imp_right fun hc => ⟨⟨rfl, hc.1⟩, hc.2⟩
  | tryRecord ip' =>
      rw [shadowExec, tally_grantIf] at h
      refine hset _ h fun e' he' => ?_
      exact (entryOf_tryRecord_cases he').imp_right fun hc => ⟨⟨rfl, hc.1⟩, hc.2⟩
  | remaining ip' => exact Or.inl h
  | reset ip' =>
      refine hset _ h fun e' he' => Or.inl ?_
      rw [MemoryRateLimiter.entryOf_reset] at he'
      split_ifs at he'
      exact he'

variable (hw : 0 < ofSecs cfg.windowSeconds)
  (hserver : ∀ now, server.expireAccepts cfg.windowSeconds now = true)
include hw hserver

theorem live?_script {k : Counters} {now : Instant} {ip' : IpAddr} {c : RedisCounter}
    (h : (k.incrWithExpire server cfg.windowSeconds now ip').2.live? now ip = some c) :
    k.live? now ip = some c ∨ ip' = ip ∧ (c = ⟨1, some (now + ofSecs cfg.windowSeconds)⟩ ∨
      ∃ c₀, k.live? now ip = some c₀ ∧ c = { c₀ with value := c₀.value + 1 }) := by
  have hput : ∀ c', c'.live now = true → Counters.live? (k.put (ip', c')) now ip = some c →
      k.live? now ip = some c ∨ ip' = ip ∧ c = c' := by
    intro c' hc' hlive
    rw [Counters.live?_put hc'] at hlive
    split_ifs at hlive with hip
    · exact Or.inr ⟨hip, (Option.some.inj hlive).symm⟩
    · exact Or.inl hlive
  have hstart : (⟨1, some (now + ofSecs cfg.windowSeconds)⟩ : RedisCounter).live now = true :=
    decide_eq_true (lt_add_of_pos_right now hw)
  unfold Counters.incrWithExpire Counters.incr at h
  cases hk : k.live? now ip' with
  | none =>
      simp only [hk, hserver, if_true] at h
      exact (hput _ hstart h).imp_right fun h => ⟨h.1, Or.inl h.2⟩
  | some c₀ =>
      have hc₀ : c₀.live now = true := (Option.filter_eq_some_iff.mp hk).2
      simp only [hk, hserver, if_true] at h
      split_ifs at h with hone
      · rcases hput _ hstart (by rw [← hone]; exact h) with h | ⟨hip, rfl⟩
        · exact Or.inl h
        · exact Or.inr ⟨hip, Or.inl rfl⟩
      · rcases hput { c₀ with value := c₀.value + 1 } hc₀ h with h | ⟨hip, rfl⟩
        · exact Or.inl h
        · exact Or.inr ⟨hip, Or.inr ⟨c₀, by rw [← hip, hk], rfl⟩⟩

theorem tally_perform {w : Write} (h : (perform server cfg s w).tally cfg ip src = some e) :
    s.tally cfg ip src = some e ∨ w = .script ip ∧ src = .redis ∧
    Counted s.now (s.tally cfg ip src) e := by
  cases src with
  | shadow k => cases w <;> exact Or.inl h
  | redis =>
      obtain ⟨c, hlive, he⟩ := Option.bind_eq_some_iff.mp h
      obtain ⟨exp, hexp, rfl⟩ := Option.map_eq_some_iff.mp he
      have hbefore : ∀ c₀, s.counters.live? s.now ip = some c₀ → c₀.expiresAt = some exp →
          s.tally cfg ip .redis = some ⟨c₀.value, exp - ofSecs cfg.windowSeconds⟩ := by
        intro c₀ hc₀ hexp₀
        simp only [Fleet.tally, hc₀, Option.bind_some, hexp₀, Option.map_some]
      cases w with
      | del ip' =>
          have hlive : (s.counters.del ip').live? s.now ip = some c := hlive
          rw [Counters.live?_del] at hlive
          split_ifs at hlive
          exact Or.inl (hbefore c hlive hexp)
      | script ip' =>
          rcases live?_script hw hserver hlive with hlive | ⟨rfl, rfl | ⟨c₀, hc₀, rfl⟩⟩
          · exact Or.inl (hbefore c hlive hexp)
          · cases hexp
            exact Or.inr ⟨rfl, rfl, Or.inl ⟨by simp, le_rfl⟩⟩
          · exact Or.inr ⟨rfl, rfl, Or.inr ⟨_, hbefore c₀ hc₀ hexp, rfl, le_rfl⟩⟩

theorem tally_unanswered {w : Write} {f : Fate}
    (h : (unanswered server cfg s w f).tally cfg ip src = some e) :
    s.tally cfg ip src = some e ∨ w = .script ip ∧ src = .redis ∧
    Counted s.now (s.tally cfg ip src) e := by
  cases f with
  | failedApplied => exact tally_perform hw hserver h
  | failedLate => cases src <;> exact Or.inl h
  | _ => exact Or.inl h

/-- **Everything an operation can do to a tally.** -/
theorem tally_exec {i : Nat} {o : Op} {f : Fate}
    (h : (exec server cfg s i o f).2.tally cfg ip src = some e) :
    s.tally cfg ip src = some e ∨ o.Counts ip src ∧ Counted s.now (s.tally cfg ip src) e := by
  cases o with
  | get ip' => cases f <;> exact Or.inl h
  | incrWithExpire ip' =>
      have hcases : s.tally cfg ip src = some e ∨ Write.script ip' = .script ip ∧ src = .redis ∧
          Counted s.now (s.tally cfg ip src) e := by
        cases f with
        | done => exact tally_perform hw hserver h
        | _ => exact tally_unanswered hw hserver h
      exact hcases.imp_right fun hc => ⟨⟨hc.2.1, Write.script.inj hc.1⟩, hc.2.2⟩
  | tryScript ip' =>
      have hcases : s.tally cfg ip src = some e ∨ Write.script ip' = .script ip ∧ src = .redis ∧
          Counted s.now (s.tally cfg ip src) e := by
        cases f with
        | done =>
            simp only [exec] at h
            rw [tally_grantIf] at h
            exact tally_perform hw hserver h
        | _ => exact tally_unanswered hw hserver h
      exact hcases.imp_right fun hc => ⟨⟨hc.2.1, Write.script.inj hc.1⟩, hc.2.2⟩
  | del ip' =>
      have hcases : s.tally cfg ip src = some e ∨ Write.del ip' = .script ip ∧ src = .redis ∧
          Counted s.now (s.tally cfg ip src) e := by
        cases f with
        | done => exact tally_perform hw hserver h
        | _ => exact tally_unanswered hw hserver h
      rcases hcases with h | ⟨h, -⟩
      · exact Or.inl h
      · cases h
  | shadow k step => exact tally_shadowExec h

end Steps

theorem tally_tick {cfg : RedisRateLimiter} {s : Fleet} {ip : IpAddr} {src : Source}
    {e : RateLimitEntry} {nanos : Nat}
    (h : ({ s with now := s.now + nanos } : Fleet).tally cfg ip src = some e) :
    s.tally cfg ip src = some e := by
  cases src with
  | shadow k => exact h
  | redis =>
      obtain ⟨c, hlive, he⟩ := Option.bind_eq_some_iff.mp h
      rw [Counters.live?_later (le_add_of_nonneg_right (Int.natCast_nonneg nanos))] at hlive
      exact Option.bind_eq_some_iff.mpr ⟨c, (Option.filter_eq_some_iff.mp hlive).1, he⟩

/-! ## Windows -/

/-- Windows start no later than now, and keys have an end. -/
structure Timed (cfg : RedisRateLimiter) (ip : IpAddr) (s : Fleet) : Prop where
  starts : ∀ src e, s.tally cfg ip src = some e → e.windowStart ≤ s.now
  ends : ∀ c, s.counters.live? s.now ip = some c → c.expiresAt ≠ none
  config : ∀ k, (s.shadow k).windowDuration = ofSecs cfg.windowSeconds ∧
    (s.shadow k).maxAttempts = cfg.maxAttempts

theorem Unused.timed {cfg : RedisRateLimiter} {ip : IpAddr} {s : Fleet} (h : Unused cfg ip s) :
    Timed cfg ip s where
  starts src e he := by
    cases src with
    | redis =>
        simp only [Fleet.tally, h.key, Option.bind_none] at he
        cases he
    | shadow k => cases (h.entry k).symm.trans he
  ends c hc := by cases h.key.symm.trans hc
  config := h.config

section Timed
variable {server : RedisServer} {cfg : RedisRateLimiter} {s : Fleet} {ip : IpAddr}

theorem shadowExec_config (i k : Nat) (step : ShadowStep) (k' : Nat) :
    ((shadowExec s i k step).2.shadow k').windowDuration = (s.shadow k').windowDuration ∧
      ((shadowExec s i k step).2.shadow k').maxAttempts = (s.shadow k').maxAttempts := by
  have hset : ∀ l : MemoryRateLimiter, l.windowDuration = (s.shadow k).windowDuration ∧
      l.maxAttempts = (s.shadow k).maxAttempts →
      ((s.setShadow k l).shadow k').windowDuration = (s.shadow k').windowDuration ∧
        ((s.setShadow k l).shadow k').maxAttempts = (s.shadow k').maxAttempts := by
    intro l hl
    by_cases hk : k' = k
    · rw [hk, Fleet.setShadow_shadow]
      exact hl
    · rw [Fleet.setShadow_shadow_of_ne s l hk]
      exact ⟨rfl, rfl⟩
  cases step with
  | clean => exact hset _ ⟨rfl, rfl⟩
  | allows ip' => exact ⟨rfl, rfl⟩
  | record ip' => exact hset _ ((s.shadow k).makeRoom_config ip')
  | tryRecord ip' =>
      rw [shadowExec, (grantIf_frame _ _ _).2.2]
      exact hset _ ((s.shadow k).makeRoom_config ip')
  | remaining ip' => exact ⟨rfl, rfl⟩
  | reset ip' => exact hset _ ⟨rfl, rfl⟩

/-- An attempt leaves no window that starts later than now. -/
theorem Timed.start_le {src : Source} {e : RateLimitEntry} (h : Timed cfg ip s)
    (he : s.tally cfg ip src = some e ∨ Counted s.now (s.tally cfg ip src) e) :
    e.windowStart ≤ s.now := by
  rcases he with he | ⟨hstart, -⟩ | ⟨e₀, he₀, hstart, -⟩
  · exact h.starts src e he
  · exact hstart.le
  · rw [hstart]
    exact h.starts src e₀ he₀

variable (hw : 0 < ofSecs cfg.windowSeconds)
  (hserver : ∀ now, server.expireAccepts cfg.windowSeconds now = true)
include hw hserver

theorem Timed.perform (h : Timed cfg ip s) (w : Write) : Timed cfg ip (perform server cfg s w) where
  starts src e he := by
    have hnow : (RateLimit.perform server cfg s w).now = s.now := by cases w <;> rfl
    rw [hnow]
    exact h.start_le ((tally_perform hw hserver he).imp_right fun hc => hc.2.2)
  ends c hc := by
    cases w with
    | del ip' =>
        have hc : (s.counters.del ip').live? s.now ip = some c := hc
        rw [Counters.live?_del] at hc
        split_ifs at hc
        exact h.ends c hc
    | script ip' =>
        rcases live?_script hw hserver hc with hc | ⟨-, rfl | ⟨c₀, hc₀, rfl⟩⟩
        · exact h.ends c hc
        · exact Option.some_ne_none _
        · exact h.ends c₀ hc₀
  config k := by cases w <;> exact h.config k

omit hw hserver in
theorem Timed.of_late (h : Timed cfg ip s) (late : List Write) : Timed cfg ip { s with late } := by
  refine ⟨fun src e he => ?_, h.ends, h.config⟩
  cases src with
  | redis => exact h.starts .redis e he
  | shadow k => exact h.starts (.shadow k) e he

omit hw hserver in
theorem Timed.grantIf (h : Timed cfg ip s) (b : Bool) (g : Grant) :
    Timed cfg ip (s.grantIf b g) := by
  obtain ⟨hnow, hcounters, hshadow⟩ := grantIf_frame s b g
  refine ⟨fun src e he => ?_, fun c hc => ?_, fun k => ?_⟩
  · rw [tally_grantIf] at he
    rw [hnow]
    exact h.starts src e he
  · rw [hnow, hcounters] at hc
    exact h.ends c hc
  · rw [hshadow]
    exact h.config k

theorem Timed.unanswered (h : Timed cfg ip s) (w : Write) (f : Fate) :
    Timed cfg ip (unanswered server cfg s w f) := by
  cases f with
  | failedApplied => exact h.perform hw hserver w
  | failedLate => exact h.of_late _
  | _ => exact h

theorem Timed.exec (h : Timed cfg ip s) (i : Nat) (o : Op) (f : Fate) :
    Timed cfg ip (exec server cfg s i o f).2 := by
  cases o with
  | get ip' => cases f <;> exact h
  | incrWithExpire ip' =>
      cases f with
      | done => exact h.perform hw hserver (.script ip')
      | failed => exact h.unanswered hw hserver (.script ip') .failed
      | failedApplied => exact h.unanswered hw hserver (.script ip') .failedApplied
      | failedLate => exact h.unanswered hw hserver (.script ip') .failedLate
  | tryScript ip' =>
      cases f with
      | done => exact (h.perform hw hserver (.script ip')).grantIf _ _
      | failed => exact h.unanswered hw hserver (.script ip') .failed
      | failedApplied => exact h.unanswered hw hserver (.script ip') .failedApplied
      | failedLate => exact h.unanswered hw hserver (.script ip') .failedLate
  | del ip' =>
      cases f with
      | done => exact h.perform hw hserver (.del ip')
      | failed => exact h.unanswered hw hserver (.del ip') .failed
      | failedApplied => exact h.unanswered hw hserver (.del ip') .failedApplied
      | failedLate => exact h.unanswered hw hserver (.del ip') .failedLate
  | shadow k step =>
      have hnow : (RateLimit.exec server cfg s i (.shadow k step) f).2.now = s.now :=
        exec_now s i (.shadow k step) f
      have hcounters : (shadowExec s i k step).2.counters = s.counters := by
        cases step with
        | tryRecord ip' => exact (grantIf_frame _ _ _).2.1
        | _ => rfl
      refine ⟨fun src e he => ?_, fun c hc => ?_, fun k' => ?_⟩
      · exact (h.start_le ((tally_shadowExec he).imp_right And.right)).trans hnow.ge
      · refine h.ends c ?_
        rw [← hcounters, ← hnow]
        exact hc
      · obtain ⟨hduration, hlimit⟩ := shadowExec_config (s := s) i k step k'
        exact ⟨hduration.trans (h.config k').1, hlimit.trans (h.config k').2⟩

omit hw hserver in
theorem Timed.tick (h : Timed cfg ip s) (nanos : Nat) :
    Timed cfg ip { s with now := s.now + nanos } := by
  have hle : s.now ≤ s.now + nanos := le_add_of_nonneg_right (Int.natCast_nonneg nanos)
  refine ⟨fun src e he => ?_, fun c hc => ?_, h.config⟩
  · exact (h.starts src e (tally_tick he)).trans hle
  · rw [Counters.live?_later hle] at hc
    exact h.ends c (Option.filter_eq_some_iff.mp hc).1

theorem Timed.move (h : Timed cfg ip s) (e : Move) : Timed cfg ip (move server cfg s e) := by
  cases e with
  | tick nanos => exact h.tick nanos
  | takeEffect n =>
      simp only [RateLimit.move]
      split
      · next w _ => exact (h.perform hw hserver w).of_late _
      · exact h

end Timed

/-! ## Attempts in a window -/

/-- The attempts that a counter has in the window that started at `t`. -/
def Fleet.attemptsFrom (cfg : RedisRateLimiter) (ip : IpAddr) (src : Source) (t : Instant)
    (s : Fleet) : Nat :=
  match s.tally cfg ip src with
  | some e => if e.windowStart = t then e.attempts else 0
  | none => 0

section Attempts
variable {cfg : RedisRateLimiter} {s s' : Fleet} {ip : IpAddr} {src : Source} {t : Instant}

theorem attemptsFrom_of_tally {e : RateLimitEntry} (h : s.tally cfg ip src = some e) :
    s.attemptsFrom cfg ip src e.windowStart = e.attempts := by
  simp only [Fleet.attemptsFrom, h, if_true]

theorem exists_tally (h : 0 < s.attemptsFrom cfg ip src t) :
    ∃ e, s.tally cfg ip src = some e ∧ e.windowStart = t ∧
      s.attemptsFrom cfg ip src t = e.attempts := by
  cases he : s.tally cfg ip src with
  | none =>
      simp only [Fleet.attemptsFrom, he] at h
      exact absurd h (lt_irrefl 0)
  | some e =>
      have hstart : e.windowStart = t := by
        by_contra hne
        simp only [Fleet.attemptsFrom, he, if_neg hne] at h
        exact absurd h (lt_irrefl 0)
      exact ⟨e, rfl, hstart, by rw [← hstart, attemptsFrom_of_tally he]⟩

theorem attemptsFrom_le (h : ∀ e, s'.tally cfg ip src = some e → s.tally cfg ip src = some e) :
    s'.attemptsFrom cfg ip src t ≤ s.attemptsFrom cfg ip src t := by
  by_cases hpos : 0 < s'.attemptsFrom cfg ip src t
  · obtain ⟨e, he, rfl, hcount⟩ := exists_tally hpos
    rw [hcount, attemptsFrom_of_tally (h e he)]
  · omega

theorem attemptsFrom_le_succ (h : ∀ e, s'.tally cfg ip src = some e → s.tally cfg ip src = some e ∨
      Counted s.now (s.tally cfg ip src) e) :
    s'.attemptsFrom cfg ip src t ≤ s.attemptsFrom cfg ip src t + 1 := by
  by_cases hpos : 0 < s'.attemptsFrom cfg ip src t
  · obtain ⟨e, he, rfl, hcount⟩ := exists_tally hpos
    rw [hcount]
    rcases h e he with hsame | ⟨-, hone⟩ | ⟨e₀, he₀, hstart, hmore⟩
    · rw [attemptsFrom_of_tally hsame]
      exact Nat.le_succ _
    · omega
    · rw [hstart, attemptsFrom_of_tally he₀]
      exact hmore
  · omega

/-! ## Refusals -/

variable (hw : 0 < ofSecs cfg.windowSeconds) (h : Timed cfg ip s)
include hw h

theorem refused_tryScript {server : RedisServer} {i : Nat} {f : Fate}
    (hserver : ∀ now, server.expireAccepts cfg.windowSeconds now = true)
    (hanswer : (exec server cfg s i (.tryScript ip) f).1 = some false) :
    ∃ t, s.now < t + ofSecs cfg.windowSeconds ∧
      cfg.maxAttempts ≤ s.attemptsFrom cfg ip .redis t := by
  cases f with
  | done =>
      have hcurrent : ¬ (s.counters.incr s.now ip).value ≤ cfg.maxAttempts := by
        simp only [exec, Counters.tryScript, Counters.incrWithExpire, hserver, if_true] at hanswer
        split_ifs at hanswer <;>
        simpa only [Option.map_some, Option.some.injEq, decide_eq_false_iff_not] using hanswer
      unfold Counters.incr at hcurrent
      cases hlive : s.counters.live? s.now ip with
      | none =>
          rw [hlive] at hcurrent
          have hzero : cfg.maxAttempts = 0 := by
            have hone : ¬ 1 ≤ cfg.maxAttempts := hcurrent
            omega
          refine ⟨s.now, lt_add_of_pos_right _ hw, ?_⟩
          rw [hzero]
          exact Nat.zero_le _
      | some c =>
          rw [hlive] at hcurrent
          obtain ⟨e, he⟩ := Option.ne_none_iff_exists'.mp (h.ends c hlive)
          have hend : s.now < e := by
            have hc := (Option.filter_eq_some_iff.mp hlive).2
            simpa only [RedisCounter.live, he, decide_eq_true_eq] using hc
          have htally : s.tally cfg ip .redis = some ⟨c.value, e - ofSecs cfg.windowSeconds⟩ := by
            simp only [Fleet.tally, hlive, Option.bind_some, he, Option.map_some]
          refine ⟨e - ofSecs cfg.windowSeconds, by rwa [sub_add_cancel], ?_⟩
          have hvalue : ¬ c.value + 1 ≤ cfg.maxAttempts := hcurrent
          rw [attemptsFrom_of_tally htally]
          show cfg.maxAttempts ≤ c.value
          omega
  | _ => cases hanswer

theorem refused_tryRecord {k : Nat} (hanswer : ((s.shadow k).tryRecord s.now ip).1 = false) :
    ∃ t, s.now < t + ofSecs cfg.windowSeconds ∧
      cfg.maxAttempts ≤ s.attemptsFrom cfg ip (.shadow k) t := by
  obtain ⟨hduration, hlimit⟩ := h.config k
  obtain ⟨hduration', hlimit'⟩ := (s.shadow k).makeRoom_config ip
  have hentry := (s.shadow k).entryOf_makeRoom ip
  unfold MemoryRateLimiter.tryRecord MemoryRateLimiter.tried MemoryRateLimiter.entryOrNew at hanswer
  simp only [hentry, hlimit', hlimit] at hanswer
  split_ifs at hanswer with helapsed hbelow
  have helapsed : ((s.shadow k).makeRoom ip).elapsed s.now
      (((s.shadow k).entryOf ip).getD ⟨0, s.now⟩) = false := by
    simpa using helapsed
  have hwindow : 0 < ((s.shadow k).makeRoom ip).windowDuration := by
    rw [hduration', hduration]
    exact hw
  rw [MemoryRateLimiter.elapsed_eq_false_iff hwindow, hduration', hduration] at helapsed
  refine ⟨_, helapsed, ?_⟩
  cases he : (s.shadow k).entryOf ip with
  | none =>
      rw [he] at hbelow
      have hzero : cfg.maxAttempts = 0 := by simpa using hbelow
      rw [hzero]
      exact Nat.zero_le _
  | some e =>
      have htally : s.tally cfg ip (.shadow k) = some e := he
      rw [he] at hbelow
      rw [show (some e).getD ⟨0, s.now⟩ = e from rfl, attemptsFrom_of_tally htally]
      simpa using hbelow

end Attempts

end AppHome.RateLimit
