import Mathlib.Data.List.Basic
import Mathlib.Data.List.Count
import Mathlib.Logic.Function.Basic

/-! The limiter in front of the public endpoints: a counter for each key that Redis forgets
when its window is over. Redis may fail at any request, before or after it has counted. -/
namespace RateLimiter
open Function


structure Counter where
  value : Nat
  expiresAt : Option Nat

abbrev Redis := String → Option Counter

/-- What a key holds at a moment; an expired key is gone. -/
def Redis.get (redis : Redis) (now : Nat) (key : String) : Option Counter :=
  (redis key).filter fun c => c.expiresAt.all fun e => now ≤ e

def Redis.incr (redis : Redis) (now : Nat) (key : String) : Nat × Redis :=
  let c := (redis.get now key).getD ⟨0, none⟩
  (c.value + 1, update redis key (some { c with value := c.value + 1 }))

def Redis.pexpire (redis : Redis) (now : Nat) (key : String) (ms : Nat) : Redis :=
  update redis key ((redis.get now key).map fun c => { c with expiresAt := some (now + ms) })

def incrementScript (redis : Redis) (now : Nat) (key : String) (window : Nat) : Nat × Redis :=
  let (current, redis) := redis.incr now key
  if current = 1 then (current, redis.pexpire now key window) else (current, redis)

inductive FailureMode
  | failOpen
  | failClosed
  deriving DecidableEq

inductive RedisFailure
  | uncounted
  | counted
  deriving DecidableEq

inductive Reply
  | served
  | limited
  | unavailable
  deriving DecidableEq

/-- A request as the middleware of its route sees it. -/
structure Request where
  now : Nat
  ns : String
  path : String
  clientIP : String
  limit : Nat
  mode : FailureMode
  failure : Option RedisFailure

def Request.key (q : Request) : String :=
  "rate:" ++ q.ns ++ ":" ++ q.path ++ ":" ++ q.clientIP

def Request.onFailure (q : Request) : Reply :=
  if q.mode = .failOpen then .served else .unavailable

variable (window : Nat)

def middleware (redis : Redis) (q : Request) : Reply × Redis :=
  let (current, redis') := incrementScript redis q.now q.key window
  match q.failure with
  | some .uncounted => (q.onFailure, redis)
  | some .counted => (q.onFailure, redis')
  | none => (if current ≤ q.limit then .served else .limited, redis')

/-- How many requests with the key are let through. -/
def served (key : String) : Redis → List Request → Nat
  | _, [] => 0
  | redis, q :: rest =>
    let answer := middleware window redis q
    (if q.key = key ∧ answer.1 = .served then 1 else 0) + served key answer.2 rest

/-- Where the store is after the requests. -/
def after : Redis → List Request → Redis
  | redis, [] => redis
  | redis, q :: rest => after (middleware window redis q).2 rest

section Script
variable {window : Nat} {redis : Redis} {q : Request} {key : String} {c : Counter} {now : Nat}

theorem get_some (h : redis.get now key = some c) :
    redis key = some c ∧ ∀ e ∈ c.expiresAt, now ≤ e := by
  obtain ⟨hc, hlive⟩ := Option.filter_eq_some_iff.1 h
  refine ⟨hc, fun e he => ?_⟩
  rw [Option.mem_def.1 he] at hlive
  simpa using hlive

theorem get_of (hc : redis key = some c) (hlive : ∀ e ∈ c.expiresAt, now ≤ e) :
    redis.get now key = some c := by
  refine Option.filter_eq_some_iff.2 ⟨hc, ?_⟩
  cases he : c.expiresAt with
  | none => rfl
  | some e => simpa using hlive e he

theorem script_live (h : redis.get now key = some c) (hpos : 0 < c.value) :
    incrementScript redis now key window =
      (c.value + 1, update redis key (some { c with value := c.value + 1 })) := by
  have hne : c.value ≠ 0 := Nat.pos_iff_ne_zero.1 hpos
  simp [incrementScript, Redis.incr, h, hne]

theorem script_fresh (h : redis.get now key = none) :
    incrementScript redis now key window = (1, update redis key (some ⟨1, some (now + window)⟩)) := by
  have hget : Redis.get (update redis key (some ⟨1, none⟩)) now key = some ⟨1, none⟩ :=
    get_of (update_self ..) fun e he => by cases he
  simp [incrementScript, Redis.incr, Redis.pexpire, h, hget]

/-- What a request makes of the answer of the script. -/
theorem middleware_cases {n : Nat} {redis' : Redis}
    (h : incrementScript redis q.now q.key window = (n, redis')) :
    (q.failure = some .uncounted ∧ middleware window redis q = (q.onFailure, redis)) ∨
      (q.failure = some .counted ∧ middleware window redis q = (q.onFailure, redis')) ∨
      (q.failure = none ∧
        middleware window redis q = (if n ≤ q.limit then .served else .limited, redis')) := by
  unfold middleware
  rw [h]
  cases hf : q.failure with
  | none => exact .inr (.inr ⟨rfl, rfl⟩)
  | some failure =>
    cases failure with
    | uncounted => exact .inl ⟨rfl, rfl⟩
    | counted => exact .inr (.inl ⟨rfl, rfl⟩)

theorem script_other (h : q.key ≠ key) :
    (incrementScript redis q.now q.key window).2 key = redis key := by
  unfold incrementScript Redis.incr Redis.pexpire
  dsimp only
  split <;> simp [h.symm]

/-- The store is left alone or counts. -/
theorem middleware_store : (middleware window redis q).2 = redis ∨
    (middleware window redis q).2 = (incrementScript redis q.now q.key window).2 := by
  rcases @middleware_cases window redis q _ _ (Prod.eta _).symm with ⟨-, heq⟩ | ⟨-, heq⟩ | ⟨-, heq⟩
  · exact .inl (by rw [heq])
  · exact .inr (by rw [heq])
  · exact .inr (by rw [heq])

theorem middleware_other (h : q.key ≠ key) : (middleware window redis q).2 key = redis key := by
  rcases @middleware_store window redis q with heq | heq
  · rw [heq]
  · rw [heq]
    exact script_other h

theorem get_none_later {now' : Nat} (h : redis.get now key = none) (hle : now ≤ now') :
    redis.get now' key = none := by
  by_contra hsome
  obtain ⟨c, hc⟩ := Option.ne_none_iff_exists'.1 hsome
  obtain ⟨hkey, hlive⟩ := get_some hc
  have hget := get_of hkey fun e he => Nat.le_trans hle (hlive e he)
  cases h.symm.trans hget

end Script

section Bound
variable {window limit : Nat} {redis : Redis} {key : String} {qs : List Request}

/-- The routes with the key let nothing through that has not been counted. -/
def Strict (key : String) (limit : Nat) (qs : List Request) : Prop :=
  ∀ q ∈ qs, q.key = key → q.limit ≤ limit ∧ (q.failure ≠ none → q.mode = .failClosed)

theorem Strict.tail {q : Request} (h : Strict key limit (q :: qs)) : Strict key limit qs :=
  fun p hp => h p (List.mem_cons_of_mem _ hp)

theorem onFailure_closed {q : Request} (h : q.mode = .failClosed) : q.onFailure ≠ .served := by
  simp [Request.onFailure, h]

/-- One request with the key, of which the script has said `n`. -/
theorem served_cons {q : Request} (hs : Strict key limit (q :: qs)) (hk : q.key = key) {n : Nat}
    {redis' : Redis} (h : incrementScript redis q.now q.key window = (n, redis')) {left bound : Nat}
    (hsame : q.failure = some .uncounted → served window key redis qs ≤ bound)
    (hnext : served window key redis' qs ≤ left) (hbound : left ≤ bound)
    (hroom : n ≤ limit → left + 1 ≤ bound) :
    served window key redis (q :: qs) ≤ bound := by
  obtain ⟨hlimit, hmode⟩ := hs q List.mem_cons_self hk
  rcases middleware_cases h with ⟨hf, heq⟩ | ⟨hf, heq⟩ | ⟨hf, heq⟩
  · have hclosed := onFailure_closed (hmode (by rw [hf]; exact Option.some_ne_none _))
    simpa [served, heq, hclosed] using hsame hf
  · have hclosed := onFailure_closed (hmode (by rw [hf]; exact Option.some_ne_none _))
    simp only [served, heq, hclosed, and_false, if_false, Nat.zero_add]
    omega
  · by_cases hn : n ≤ q.limit
    · simp only [served, heq, hk, hn, if_true, and_self]
      have := hroom (Nat.le_trans hn hlimit)
      omega
    · simp only [served, heq, hn, if_false, reduceCtorEq, and_false, Nat.zero_add]
      omega

theorem served_other {q : Request} (hk : q.key ≠ key) :
    served window key redis (q :: qs) = served window key (middleware window redis q).2 qs := by
  simp [served, hk]

/-- As long as a counter lives, it lets through what is left of the limit. -/
theorem served_live {v e : Nat} (hc : redis key = some ⟨v, some e⟩) (hv : 0 < v)
    (hlive : ∀ q ∈ qs, q.now ≤ e) (hs : Strict key limit qs) :
    served window key redis qs ≤ limit - v := by
  induction qs generalizing redis v with
  | nil => exact Nat.zero_le _
  | cons q rest ih =>
    have hrest : ∀ p ∈ rest, p.now ≤ e := fun p hp => hlive p (List.mem_cons_of_mem _ hp)
    by_cases hk : q.key = key
    · have hget : redis.get q.now q.key = some ⟨v, some e⟩ := by
        rw [hk]
        refine get_of hc fun e' he' => ?_
        cases he'
        exact hlive q List.mem_cons_self
      have hnext : update redis q.key (some ⟨v + 1, some e⟩) key = some ⟨v + 1, some e⟩ := by
        rw [hk, update_self]
      refine served_cons hs hk (script_live hget hv) (fun _ => ih hc hv hrest hs.tail)
        (ih hnext (Nat.succ_pos v) hrest hs.tail) (by omega) fun hroom => ?_
      dsimp only at hroom
      omega
    · rw [served_other hk]
      exact ih ((middleware_other hk).trans hc) hv hrest hs.tail

/-- From a moment at which there is no counter on, a window lets through the limit. -/
theorem served_fresh {now t : Nat} (hnone : redis.get now key = none)
    (hlater : ∀ q ∈ qs, now ≤ q.now) (hwithin : ∀ q ∈ qs, t ≤ q.now ∧ q.now ≤ t + window)
    (hs : Strict key limit qs) : served window key redis qs ≤ limit := by
  induction qs generalizing redis with
  | nil => exact Nat.zero_le _
  | cons q rest ih =>
    have hlater' : ∀ p ∈ rest, now ≤ p.now := fun p hp => hlater p (List.mem_cons_of_mem _ hp)
    have hwithin' : ∀ p ∈ rest, t ≤ p.now ∧ p.now ≤ t + window :=
      fun p hp => hwithin p (List.mem_cons_of_mem _ hp)
    by_cases hk : q.key = key
    · have hget : redis.get q.now q.key = none := by
        rw [hk]
        exact get_none_later hnone (hlater q List.mem_cons_self)
      have hq := hwithin q List.mem_cons_self
      have hcounter : update redis q.key (some ⟨1, some (q.now + window)⟩) key =
          some ⟨1, some (q.now + window)⟩ := by rw [hk, update_self]
      have hlive : ∀ p ∈ rest, p.now ≤ q.now + window := by
        intro p hp
        obtain ⟨-, hlt⟩ := hwithin' p hp
        omega
      exact served_cons hs hk (script_fresh hget) (fun _ => ih hnone hlater' hwithin' hs.tail)
        (served_live hcounter Nat.one_pos hlive hs.tail) (by omega) (by omega)
    · rw [served_other hk]
      refine ih ?_ hlater' hwithin' hs.tail
      rw [← hnone]
      unfold Redis.get
      rw [middleware_other hk]

/-- Whatever the counter stands at, a window sees the rest of it and one more at most. -/
theorem served_twice {v e t : Nat} (hc : redis key = some ⟨v, some e⟩) (hv : 0 < v)
    (hsorted : qs.Pairwise fun p q => p.now ≤ q.now)
    (hwithin : ∀ q ∈ qs, t ≤ q.now ∧ q.now ≤ t + window) (hs : Strict key limit qs) :
    served window key redis qs ≤ limit - v + limit := by
  induction qs generalizing redis v with
  | nil => exact Nat.zero_le _
  | cons q rest ih =>
    obtain ⟨hfirst, hrest⟩ := List.pairwise_cons.1 hsorted
    have hwithin' : ∀ p ∈ rest, t ≤ p.now ∧ p.now ≤ t + window :=
      fun p hp => hwithin p (List.mem_cons_of_mem _ hp)
    by_cases hk : q.key = key
    · by_cases hlive : q.now ≤ e
      · have hget : redis.get q.now q.key = some ⟨v, some e⟩ := by
          rw [hk]
          refine get_of hc fun e' he' => ?_
          cases he'
          exact hlive
        have hnext : update redis q.key (some ⟨v + 1, some e⟩) key = some ⟨v + 1, some e⟩ := by
          rw [hk, update_self]
        refine served_cons hs hk (script_live hget hv) (fun _ => ih hc hv hrest hwithin' hs.tail)
          (ih hnext (Nat.succ_pos v) hrest hwithin' hs.tail) (by omega) fun hroom => ?_
        dsimp only at hroom
        omega
      · -- the counter is gone, and the next one lives to the end of the window
        have hnone : redis.get q.now key = none := by
          simpa [Redis.get, hc] using hlive
        refine Nat.le_trans (served_fresh hnone (fun p hp => ?_) hwithin hs) (Nat.le_add_left _ _)
        rcases List.mem_cons.1 hp with rfl | hp
        · exact Nat.le_refl _
        · exact hfirst p hp
    · rw [served_other hk]
      exact ih ((middleware_other hk).trans hc) hv hrest hwithin' hs.tail

end Bound

section History
variable {window : Nat} {redis : Redis} {past within : List Request} {q : Request} {key : String}

def empty : Redis := fun _ => none

/-- How many requests with the key have come since `since`. -/
def requested (key : String) (since : Nat) (qs : List Request) : Nat :=
  qs.countP fun q => q.key = key && since ≤ q.now

/-- A counter was opened by a request, and counts no more than have come since. -/
def Tallied (window : Nat) (past : List Request) (redis : Redis) : Prop :=
  ∀ key c, redis key = some c → 0 < c.value ∧ ∃ p ∈ past, c.expiresAt = some (p.now + window) ∧
    c.value ≤ requested key p.now past

theorem requested_append (key : String) (since : Nat) (past more : List Request) :
    requested key since (past ++ more) = requested key since past + requested key since more :=
  List.countP_append

theorem requested_self {since : Nat} (h : since ≤ q.now) : requested q.key since [q] = 1 := by
  simp [requested, h]

theorem Tallied.later (h : Tallied window past redis) (more : List Request) :
    Tallied window (past ++ more) redis := by
  intro key c hc
  obtain ⟨hpos, p, hp, he, hle⟩ := h key c hc
  refine ⟨hpos, p, List.mem_append_left _ hp, he, ?_⟩
  rw [requested_append]
  exact Nat.le_trans hle (Nat.le_add_right _ _)

theorem Tallied.script (h : Tallied window past redis) (hsorted : ∀ p ∈ past, p.now ≤ q.now) :
    Tallied window (past ++ [q]) (incrementScript redis q.now q.key window).2 := by
  intro key c hc
  by_cases hk : key = q.key
  · subst hk
    cases hget : redis.get q.now q.key with
    | none =>
      rw [script_fresh hget] at hc
      simp only [update_self, Option.some.injEq] at hc
      subst hc
      refine ⟨Nat.one_pos, q, by simp, rfl, ?_⟩
      rw [requested_append, requested_self (Nat.le_refl _)]
      exact Nat.le_add_left _ _
    | some c₀ =>
      obtain ⟨hpos, p, hp, he, hle⟩ := h q.key c₀ (get_some hget).1
      rw [script_live hget hpos] at hc
      simp only [update_self, Option.some.injEq] at hc
      subst hc
      refine ⟨Nat.succ_pos _, p, List.mem_append_left _ hp, he, ?_⟩
      rw [requested_append, requested_self (hsorted p hp)]
      exact Nat.succ_le_succ hle
  · rw [script_other (Ne.symm hk)] at hc
    exact h.later [q] key c hc

theorem Tallied.middleware (h : Tallied window past redis) (hsorted : ∀ p ∈ past, p.now ≤ q.now) :
    Tallied window (past ++ [q]) (middleware window redis q).2 := by
  rcases @middleware_store window redis q with heq | heq
  · rw [heq]
    exact h.later [q]
  · rw [heq]
    exact h.script hsorted

theorem Tallied.after (h : Tallied window past redis)
    (hsorted : (past ++ within).Pairwise fun p q => p.now ≤ q.now) :
    Tallied window (past ++ within) (after window redis within) := by
  induction within generalizing past redis with
  | nil =>
    rw [List.append_nil]
    exact h
  | cons q rest ih =>
    have hbefore : ∀ p ∈ past, p.now ≤ q.now := fun p hp =>
      (List.pairwise_append.1 hsorted).2.2 p hp q List.mem_cons_self
    have hstep := ih (h.middleware hbefore) (by simpa using hsorted)
    simpa [RateLimiter.after] using hstep

theorem requested_since {since since' : Nat} (h : since' ≤ since) (key : String) (qs : List Request) :
    requested key since qs ≤ requested key since' qs := by
  refine List.countP_mono_left fun q _ hq => ?_
  simp only [Bool.and_eq_true, decide_eq_true_eq] at hq ⊢
  exact ⟨hq.1, Nat.le_trans h hq.2⟩

theorem limited_count {n : Nat} {redis' : Redis}
    (h : incrementScript redis q.now q.key window = (n, redis'))
    (hlimited : (middleware window redis q).1 = .limited) : q.limit < n := by
  have other : q.onFailure ≠ .limited := by
    unfold Request.onFailure
    split <;> simp
  rcases middleware_cases h with ⟨-, heq⟩ | ⟨-, heq⟩ | ⟨-, heq⟩
  · rw [heq] at hlimited
    exact absurd hlimited other
  · rw [heq] at hlimited
    exact absurd hlimited other
  · by_contra hle
    rw [heq, if_pos (Nat.not_lt.1 hle)] at hlimited
    cases hlimited

/-- Who is turned away belongs to more requests than the limit within one window. -/
theorem limited_exceeds (h : Tallied window past redis)
    (hlimited : (middleware window redis q).1 = .limited) :
    q.limit < requested q.key (q.now - window) (past ++ [q]) := by
  have self : requested q.key (q.now - window) [q] = 1 := requested_self (by omega)
  rw [requested_append, self]
  cases hget : redis.get q.now q.key with
  | none =>
    have hn := limited_count (script_fresh hget) hlimited
    omega
  | some c =>
    obtain ⟨hc, hlive⟩ := get_some hget
    obtain ⟨hpos, p, -, he, hle⟩ := h q.key c hc
    have hn := limited_count (script_live hget hpos) hlimited
    have hnow := hlive _ he
    have hsince := requested_since (by omega : q.now - window ≤ p.now) q.key past
    omega

def requestAt (now : Nat) : Request := ⟨now, "performance", "/api/v1/performance/rum", "192.0.2.1", 2, .failClosed, none⟩

end History

end RateLimiter
