import AppHome.RateLimit.Memory

/-!
# The table of the memory limiter stays bounded

An attempt of an address that is not tracked makes room first, so the table never has more than
`MAX_ENTRIES` entries. Making room costs another address its entry, and with it the attempts it had
counted:

* `oldest_spec`, `evictOldestIfFull_spec` : what is evicted, and when;
* `Removes`, `Evictable` : a call takes the unexpired entry of another address out, and what has to
  be the case for that;
* `table_bounded` : the bound, and that no call takes out more than one such entry.
-/

namespace AppHome.MemoryRateLimiter

variable {l : MemoryRateLimiter}

/-! ## Eviction -/

theorem exists_oldest {rows : List (IpAddr × RateLimitEntry)} (h : 0 < rows.length) :
    ∃ r, oldest rows = some r := by
  cases rows with
  | nil => cases h
  | cons e es =>
      unfold oldest
      split
      · split_ifs <;> exact ⟨_, rfl⟩
      · exact ⟨_, rfl⟩

theorem oldest_spec {rows : List (IpAddr × RateLimitEntry)} {r : IpAddr × RateLimitEntry}
    (h : oldest rows = some r) :
    r ∈ rows ∧ ∀ r' ∈ rows, r.2.windowStart ≤ r'.2.windowStart := by
  induction rows generalizing r with
  | nil => simp [oldest] at h
  | cons e es ih =>
      unfold oldest at h
      split at h
      · next e' he' =>
          obtain ⟨hmem, hmin⟩ := ih he'
          split_ifs at h with hle
          · cases h
            refine ⟨List.mem_cons_self, fun r' hr' => ?_⟩
            rcases List.mem_cons.mp hr' with rfl | hr'
            · exact le_rfl
            · exact hle.trans (hmin r' hr')
          · cases h
            refine ⟨List.mem_cons_of_mem _ hmem, fun r' hr' => ?_⟩
            rcases List.mem_cons.mp hr' with rfl | hr'
            · exact (not_le.mp hle).le
            · exact hmin r' hr'
      · next hnone =>
          cases h
          have hes : es = [] := by
            apply List.eq_nil_of_length_eq_zero
            by_contra hlen
            obtain ⟨r', hr'⟩ := exists_oldest (Nat.pos_of_ne_zero hlen)
            rw [hnone] at hr'
            cases hr'
          subst hes
          simp

/-- Everything `evict_oldest_if_full` can do. -/
theorem evictOldestIfFull_spec (l : MemoryRateLimiter) :
    l.entries.rows.length < maxEntries ∧ l.evictOldestIfFull = l ∨
    maxEntries ≤ l.entries.rows.length ∧ ∃ r ∈ l.entries.rows,
      (∀ r' ∈ l.entries.rows, r.2.windowStart ≤ r'.2.windowStart) ∧
      l.evictOldestIfFull = { l with entries := l.entries.filter fun e => e.1 ≠ r.1 } := by
  by_cases hroom : l.entries.rows.length < maxEntries
  · exact Or.inl ⟨hroom, if_pos hroom⟩
  · have hfull : maxEntries ≤ l.entries.rows.length := not_lt.mp hroom
    obtain ⟨r, hr⟩ := exists_oldest (lt_of_lt_of_le (by decide : 0 < maxEntries) hfull)
    obtain ⟨hmem, hmin⟩ := oldest_spec hr
    refine Or.inr ⟨hfull, r, hmem, hmin, ?_⟩
    rw [evictOldestIfFull, if_neg hroom]
    simp only [hr]

theorem length_evictOldestIfFull_lt (h : l.entries.rows.length ≤ maxEntries) :
    l.evictOldestIfFull.entries.rows.length < maxEntries := by
  rcases l.evictOldestIfFull_spec with ⟨hroom, heq⟩ | ⟨-, r, hr, -, heq⟩
  · rwa [heq]
  · rw [heq]
    refine lt_of_lt_of_le ?_ h
    show (l.entries.rows.filter fun e => e.1 ≠ r.1).length < l.entries.rows.length
    rw [List.length_filter_lt_length_iff_exists]
    exact ⟨r, hr, by simp⟩

/-! ## One call -/

/-- The call takes the unexpired entry of another address out of the table. -/
def Removes (l : MemoryRateLimiter) (c : RateCall) (r : IpAddr × RateLimitEntry) : Prop :=
  r ∈ l.entries.rows ∧ r.1 ≠ c.ip ∧ l.elapsed c.cleanAt r.2 = false ∧ r ∉ (l.call c).2.entries.rows

/-- The call is an attempt of an address that is not tracked, the table is full of unexpired
entries, and none of them has an older window than `r`. -/
structure Evictable (l : MemoryRateLimiter) (c : RateCall)
    (r : IpAddr × RateLimitEntry) : Prop where
  attempt : c.method.isAttempt = true
  full : l.entries.rows.length = maxEntries
  unexpired : ∀ r' ∈ l.entries.rows, l.elapsed c.cleanAt r'.2 = false
  untracked : l.entryOf c.ip = none
  oldest : ∀ r' ∈ l.entries.rows, r.2.windowStart ≤ r'.2.windowStart

theorem entryOf_eq_none {ip : IpAddr} : l.entryOf ip = none ↔ ∀ r ∈ l.entries.rows, r.1 ≠ ip := by
  rw [entryOf, Option.map_eq_none_iff, Table.find?_eq_none]

/-- A sweep that leaves a full table has found nothing to remove. -/
theorem cleanExpired_full {now : Instant} (h : l.entries.rows.length ≤ maxEntries)
    (hfull : maxEntries ≤ (l.cleanExpired now).entries.rows.length) :
    l.entries.rows.length = maxEntries ∧ (∀ r ∈ l.entries.rows, l.elapsed now r.2 = false) := by
  have hle := l.cleanExpired_length_le now
  have hlen : (l.entries.rows.filter fun e => !l.elapsed now e.2).length = l.entries.rows.length :=
    le_antisymm hle (h.trans hfull)
  refine ⟨le_antisymm h (hfull.trans hle), fun r hr => ?_⟩
  simpa using List.length_filter_eq_length_iff.mp hlen r hr

theorem length_store_le (l : MemoryRateLimiter) (ip : IpAddr) (e : RateLimitEntry) :
    (l.store ip e).entries.rows.length ≤ l.entries.rows.length + 1 :=
  Nat.succ_le_succ (List.length_filter_le _ _)

theorem length_store_of_tracked {ip : IpAddr} (h : (l.entryOf ip).isSome) (e : RateLimitEntry) :
    (l.store ip e).entries.rows.length ≤ l.entries.rows.length := by
  obtain ⟨r, hr, hip⟩ : ∃ r ∈ l.entries.rows, r.1 = ip := by
    by_contra hnone
    rw [entryOf_eq_none.mpr fun r hr hip => hnone ⟨r, hr, hip⟩] at h
    cases h
  show (l.entries.rows.filter fun r' => r'.1 ≠ ip).length < l.entries.rows.length
  rw [List.length_filter_lt_length_iff_exists]
  exact ⟨r, hr, by simp [hip]⟩

theorem length_store_makeRoom (h : l.entries.rows.length ≤ maxEntries) (ip : IpAddr)
    (e : RateLimitEntry) :
    ((l.makeRoom ip).store ip e).entries.rows.length ≤ maxEntries := by
  by_cases htracked : (l.entryOf ip).isSome
  · rw [makeRoom, if_pos htracked]
    exact (length_store_of_tracked htracked e).trans h
  · rw [makeRoom, if_neg htracked]
    exact (length_store_le _ ip e).trans (length_evictOldestIfFull_lt h)

theorem length_call_le (h : l.entries.rows.length ≤ maxEntries) (c : RateCall) :
    (l.call c).2.entries.rows.length ≤ maxEntries := by
  have hswept := (l.cleanExpired_length_le c.cleanAt).trans h
  unfold call
  split
  · exact hswept
  · exact length_store_makeRoom hswept c.ip _
  · exact length_store_makeRoom hswept c.ip _
  · exact h
  · exact (List.length_filter_le _ _).trans h

theorem length_run_le_maxEntries (maxAttempts windowSeconds : Nat) (calls : List RateCall) :
    ((new maxAttempts windowSeconds).run calls).entries.rows.length ≤ maxEntries := by
  have hrun : ∀ {l : MemoryRateLimiter}, l.entries.rows.length ≤ maxEntries →
      (l.run calls).entries.rows.length ≤ maxEntries := by
    induction calls with
    | nil => exact fun h => h
    | cons c calls ih => exact fun h => ih (length_call_le h c)
  exact hrun (Nat.zero_le _)

/-! ## What a call removes -/

/-- Room is made at the expense of at most one entry. -/
theorem makeRoom_removes {ip : IpAddr} {r : IpAddr × RateLimitEntry} (hr : r ∈ l.entries.rows)
    (hgone : r ∉ (l.makeRoom ip).entries.rows) :
    l.entryOf ip = none ∧ maxEntries ≤ l.entries.rows.length ∧
      (∀ r' ∈ l.entries.rows, r.2.windowStart ≤ r'.2.windowStart) ∧
      ∀ r' ∈ l.entries.rows, r' ∉ (l.makeRoom ip).entries.rows → r' = r := by
  by_cases htracked : (l.entryOf ip).isSome
  · rw [makeRoom, if_pos htracked] at hgone
    exact absurd hr hgone
  · rw [makeRoom, if_neg htracked] at hgone ⊢
    rcases l.evictOldestIfFull_spec with ⟨-, heq⟩ | ⟨hfull, v, hv, hmin, heq⟩
    · rw [heq] at hgone
      exact absurd hr hgone
    · rw [heq] at hgone ⊢
      have hevicted : ∀ r' ∈ l.entries.rows, r' ∉ (l.entries.filter fun e => e.1 ≠ v.1).rows →
          r' = v := by
        intro r' hr' hgone'
        apply Table.eq_of_key hr' hv
        by_contra hne
        exact hgone' (Table.mem_filter.mpr ⟨hr', by simpa using hne⟩)
      obtain rfl := hevicted r hr hgone
      exact ⟨Option.not_isSome_iff_eq_none.mp htracked, hfull, hmin, hevicted⟩

theorem mem_store_of_ne {ip : IpAddr} {r : IpAddr × RateLimitEntry} (hr : r ∈ l.entries.rows)
    (hne : r.1 ≠ ip) (e : RateLimitEntry) : r ∈ (l.store ip e).entries.rows :=
  Table.mem_put.mpr (Or.inr ⟨hr, hne⟩)

/-- What is removed although it has not expired made room for the address of an attempt. -/
theorem Removes.makeRoom {c : RateCall} {r : IpAddr × RateLimitEntry} (h : l.Removes c r) :
    c.method.isAttempt = true ∧ r ∈ (l.cleanExpired c.cleanAt).entries.rows ∧
      r ∉ ((l.cleanExpired c.cleanAt).makeRoom c.ip).entries.rows := by
  obtain ⟨hr, hne, hlive, hgone⟩ := h
  have hswept : r ∈ (l.cleanExpired c.cleanAt).entries.rows :=
    Table.mem_filter.mpr ⟨hr, by simp [hlive]⟩
  unfold call at hgone
  cases hm : c.method with
  | check =>
      simp only [hm] at hgone
      exact absurd hswept hgone
  | recordAttempt =>
      simp only [hm] at hgone
      exact ⟨rfl, hswept, fun hroom => hgone (mem_store_of_ne hroom hne _)⟩
  | tryCheckAndRecord =>
      simp only [hm] at hgone
      exact ⟨rfl, hswept, fun hroom => hgone (mem_store_of_ne hroom hne _)⟩
  | remainingAttempts =>
      simp only [hm] at hgone
      exact absurd hr hgone
  | reset =>
      simp only [hm] at hgone
      exact absurd (Table.mem_filter.mpr ⟨hr, by simpa using hne⟩) hgone

theorem Removes.evictable (hlen : l.entries.rows.length ≤ maxEntries) {c : RateCall}
    {r : IpAddr × RateLimitEntry} (h : l.Removes c r) : l.Evictable c r := by
  obtain ⟨hattempt, hswept, hgone⟩ := h.makeRoom
  obtain ⟨huntracked, hfull, holdest, -⟩ := makeRoom_removes hswept hgone
  obtain ⟨hlen, hlive⟩ := cleanExpired_full hlen hfull
  have hall : ∀ r' ∈ l.entries.rows, r' ∈ (l.cleanExpired c.cleanAt).entries.rows := fun r' hr' =>
    Table.mem_filter.mpr ⟨hr', by simp [hlive r' hr']⟩
  refine ⟨hattempt, hlen, hlive, ?_, fun r' hr' => holdest r' (hall r' hr')⟩
  rw [entryOf_eq_none] at huntracked ⊢
  exact fun r' hr' => huntracked r' (hall r' hr')

theorem Removes.unique {c : RateCall} {r r' : IpAddr × RateLimitEntry} (h : l.Removes c r)
    (h' : l.Removes c r') :
    r' = r := by
  obtain ⟨-, hswept, hgone⟩ := h.makeRoom
  obtain ⟨-, hswept', hgone'⟩ := h'.makeRoom
  exact (makeRoom_removes hswept hgone).2.2.2 r' hswept' hgone'

theorem entryOf_call_isSome {c : RateCall} (h : c.method.isAttempt = true) :
    ((l.call c).2.entryOf c.ip).isSome = true := by
  cases hm : c.method with
  | recordAttempt =>
      simp only [call, hm, recordAttempt, record, entryOf_store, if_true, Option.isSome_some]
  | tryCheckAndRecord =>
      simp only [call, hm, tryCheckAndRecord, tryRecord, entryOf_store, if_true, Option.isSome_some]
  | check => rw [hm] at h; cases h
  | remainingAttempts => rw [hm] at h; cases h
  | reset => rw [hm] at h; cases h

/-- **The table stays bounded.** After any run and one more call, the table has at most
`MAX_ENTRIES` entries, one for each address, and the address of an attempt is among them. The
entries of other addresses are the ones from before the call. At most one unexpired entry of another
address is gone, and only when the table was full of unexpired entries, that of the attempting
address not among them; it had the oldest window. -/
theorem table_bounded (maxAttempts windowSeconds : Nat) (calls : List RateCall) (c : RateCall) :
    let l := (new maxAttempts windowSeconds).run calls
    let l' := (l.call c).2
    l'.entries.rows.length ≤ maxEntries ∧ (l'.entries.rows.map Prod.fst).Nodup ∧
    (c.method.isAttempt = true → (l'.entryOf c.ip).isSome = true) ∧
    (∀ r ∈ l'.entries.rows, r.1 ≠ c.ip → r ∈ l.entries.rows) ∧
    (∀ r, l.Removes c r → l.Evictable c r) ∧
    (∀ r r', l.Removes c r → l.Removes c r' → r' = r) := by
  intro l l'
  have hlen : l.entries.rows.length ≤ maxEntries :=
    length_run_le_maxEntries maxAttempts windowSeconds calls
  refine ⟨length_call_le hlen c, l'.entries.nodup, entryOf_call_isSome, ?_, fun r =>
    Removes.evictable hlen, fun r r' => Removes.unique⟩
  intro r hr hne
  exact (mem_call hr).resolve_right hne

end AppHome.MemoryRateLimiter
