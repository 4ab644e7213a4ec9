import LexiGo.JsText
import LexiGo.StepHistories
import LexiGo.Text.UrlEncoded

/-! The session that a browser document restores once and shares between its routes. The
promises of the document are known by the order in which they were made; a request may be
answered, and the callbacks behind it may run, at any later moment. -/
namespace SessionBootstrap
open StepHistories

def csrfCookieName : String := "lexigo_csrf"

/-- One part of a cookie header, cut at its first `=`. -/
def cookiePart (part : String) : String × String :=
  match JsText.split (· = '=') (JsText.trim part) with
  | [] => ("", "")
  | rawName :: rawValue => (rawName, String.intercalate "=" rawValue)

def cookieValue (cookieHeader name : String) : String :=
  (((JsText.split (· = ';') cookieHeader).map cookiePart).find? fun part => part.1 = name).elim ""
    fun part => (UrlEncoded.decodeURIComponent part.2).getD ""

def csrfTokenFromCookie (cookieHeader : String) : String := cookieValue cookieHeader csrfCookieName

variable {Session : Type}

structure SessionBootstrapState (Session : Type) where
  cachedSession : Option Session
  cachedCSRFToken : String
  activeRestore : Option Nat
  generation : Nat

/-- What becomes of a call of `restoreSession`. -/
inductive Outcome (Session : Type)
  | fulfilled (session : Option Session)
  | rejected

/-- A request that was started in a generation. It is `finished` when its last callback has
run, and only then do those who wait for the promise learn the outcome. -/
structure Restore (Session : Type) where
  generation : Nat
  outcome : Option (Outcome Session)
  finished : Bool

/-- What a call returns: a promise that is resolved at once, or that of a request. -/
inductive Answer (Session : Type)
  | resolved (session : Option Session)
  | promise (restore : Nat)

/-- The document: its cookies, the state kept at its global object, the requests there have
been and the answers to the calls, each in the order in which they came. -/
structure Page (Session : Type) where
  cookie : String
  bootstrap : SessionBootstrapState Session
  restores : List (Restore Session)
  answers : List (Answer Session)

def bootstrapState : SessionBootstrapState Session := ⟨none, "", none, 0⟩

def initial : Page Session := ⟨"", bootstrapState, [], []⟩

def clearCachedSession (state : SessionBootstrapState Session) : SessionBootstrapState Session :=
  { state with cachedSession := none, cachedCSRFToken := "" }

def cacheSession (cookie : String) (session : Session) (state : SessionBootstrapState Session) :
    SessionBootstrapState Session :=
  { state with cachedSession := some session, cachedCSRFToken := csrfTokenFromCookie cookie }

def answered (answer : Answer Session) (page : Page Session) : Page Session :=
  { page with answers := page.answers ++ [answer] }

/-- The cache counts while the cookie holds the token that it was filled with. -/
def cached (page : Page Session) : Option Session :=
  if page.bootstrap.cachedCSRFToken = csrfTokenFromCookie page.cookie then
    page.bootstrap.cachedSession
  else none

/-- A call that found nothing in the cache. -/
def requestRestore (page : Page Session) : Page Session :=
  match page.bootstrap.activeRestore with
  | some restore => answered (.promise restore) page
  | none =>
    let restore := page.restores.length
    answered (.promise restore)
      { page with
        bootstrap := { page.bootstrap with activeRestore := some restore }
        restores := page.restores ++ [⟨page.bootstrap.generation, none, false⟩] }

/-- The cache is emptied where something is in it. -/
def dropCached (page : Page Session) : Page Session :=
  if page.bootstrap.cachedSession.isSome then
    { page with bootstrap := clearCachedSession page.bootstrap }
  else page

def restoreBootstrappedSession (page : Page Session) : Page Session :=
  if csrfTokenFromCookie page.cookie = "" then answered (.resolved none) (dropCached page)
  else
    match cached page with
    | some session => answered (.resolved (some session)) page
    | none => requestRestore (dropCached page)

/-- A new generation, in which nothing is under way. -/
def nextGeneration (state : SessionBootstrapState Session) : SessionBootstrapState Session :=
  { state with generation := state.generation + 1, activeRestore := none }

def adoptBootstrappedSession (session : Session) (page : Page Session) : Page Session :=
  { page with bootstrap := cacheSession page.cookie session (nextGeneration page.bootstrap) }

def invalidateBootstrappedSession (page : Page Session) : Page Session :=
  { page with bootstrap := clearCachedSession (nextGeneration page.bootstrap) }

/-- The callback behind a request that was fulfilled; a rejection passes it by. -/
def afterRestore (restoreGeneration : Nat) (outcome : Outcome Session) (page : Page Session) :
    Page Session :=
  match outcome with
  | .fulfilled (some session) =>
    if page.bootstrap.generation = restoreGeneration then
      { page with bootstrap := cacheSession page.cookie session page.bootstrap }
    else page
  | _ => page

/-- A request is answered. -/
def settle (i : Nat) (outcome : Outcome Session) (page : Page Session) : Page Session :=
  match page.restores[i]? with
  | some ⟨generation, none, finished⟩ =>
    afterRestore generation outcome
      { page with restores := page.restores.set i ⟨generation, some outcome, finished⟩ }
  | _ => page

/-- The last callback behind a request runs. -/
def finish (i : Nat) (page : Page Session) : Page Session :=
  match page.restores[i]? with
  | some ⟨generation, some outcome, false⟩ =>
    { page with
      bootstrap :=
        if page.bootstrap.activeRestore = some i then { page.bootstrap with activeRestore := none }
        else page.bootstrap
      restores := page.restores.set i ⟨generation, some outcome, true⟩ }
  | _ => page

/-- What may happen in the document: a cookie is set, one of the three functions is called, or
a callback runs. -/
inductive Act (Session : Type)
  | setCookie (cookie : String)
  | restore
  | adopt (session : Session)
  | invalidate
  | settle (i : Nat) (outcome : Outcome Session)
  | finish (i : Nat)

def step (page : Page Session) : Act Session → Page Session
  | .setCookie cookie => { page with cookie := cookie }
  | .restore => restoreBootstrappedSession page
  | .adopt session => adoptBootstrappedSession session page
  | .invalidate => invalidateBootstrappedSession page
  | .settle i outcome => settle i outcome page
  | .finish i => finish i page

/-- A request of a generation whose callers still wait. -/
def InFlight (page : Page Session) (generation i : Nat) : Prop :=
  ∃ r, page.restores[i]? = some r ∧ r.generation = generation ∧ r.finished = false

/-- The commands with which another part of the document takes the session over. -/
def Act.Supersedes : Act Session → Prop
  | .adopt _ | .invalidate => True
  | _ => False

/-- The commands that put a session into the cache: it is adopted, or a request of the present
generation brings it. -/
def Caches (session : Session) (page : Page Session) : Act Session → Prop
  | .adopt adopted => adopted = session
  | .settle i (.fulfilled (some restored)) =>
    restored = session ∧
      ∃ r, page.restores[i]? = some r ∧ r.outcome = none ∧ r.generation = page.bootstrap.generation
  | _ => False

/-- What a caller learns from the answer that it was given, once it learns it. -/
def result (page : Page Session) : Answer Session → Option (Outcome Session)
  | .resolved session => some (.fulfilled session)
  | .promise i => (page.restores[i]?).bind fun restore => if restore.finished then restore.outcome else none

section Requests

variable {page : Page Session}

/-- Who owns the state: at most one request of each generation is in flight, and the one of the
present generation is known to the state. -/
structure Owned (page : Page Session) : Prop where
  active : ∀ i, page.bootstrap.activeRestore = some i → InFlight page page.bootstrap.generation i
  current : ∀ i, InFlight page page.bootstrap.generation i → page.bootstrap.activeRestore = some i
  bounded : ∀ r ∈ page.restores, r.generation ≤ page.bootstrap.generation
  alone : ∀ g i j, InFlight page g i → InFlight page g j → i = j

theorem owned_initial : Owned (initial : Page Session) where
  active := nofun
  current := nofun
  bounded := nofun
  alone := nofun

/-- Nothing matters but which requests are in flight and which one the state knows. -/
theorem Owned.kept {page' : Page Session} (h : Owned page)
    (hflight : ∀ g i, InFlight page' g i ↔ InFlight page g i)
    (hbounded : ∀ r ∈ page'.restores, r.generation ≤ page.bootstrap.generation)
    (hactive : page'.bootstrap.activeRestore = page.bootstrap.activeRestore)
    (hgeneration : page'.bootstrap.generation = page.bootstrap.generation) : Owned page' where
  active := by
    intro i hi
    rw [hgeneration, hflight]
    exact h.active i (hactive ▸ hi)
  current := by
    intro i hi
    rw [hgeneration, hflight] at hi
    rw [hactive]
    exact h.current i hi
  bounded := by
    intro r hr
    rw [hgeneration]
    exact hbounded r hr
  alone := by
    intro g i j hi hj
    rw [hflight] at hi hj
    exact h.alone g i j hi hj

theorem Owned.same {page' : Page Session} (h : Owned page) (hrestores : page'.restores = page.restores)
    (hactive : page'.bootstrap.activeRestore = page.bootstrap.activeRestore)
    (hgeneration : page'.bootstrap.generation = page.bootstrap.generation) : Owned page' := by
  refine h.kept ?_ ?_ hactive hgeneration
  · intro g i
    unfold InFlight
    rw [hrestores]
  · rw [hrestores]
    exact h.bounded

/-- A new generation starts with nothing under way. -/
theorem Owned.next {page' : Page Session} (h : Owned page) (hrestores : page'.restores = page.restores)
    (hactive : page'.bootstrap.activeRestore = none)
    (hgeneration : page'.bootstrap.generation = page.bootstrap.generation + 1) : Owned page' where
  active := by
    intro i hi
    rw [hactive] at hi
    cases hi
  current := by
    rintro i ⟨r, hr, hnext, -⟩
    rw [hrestores] at hr
    have hle := h.bounded r (List.mem_of_getElem? hr)
    omega
  bounded := by
    intro r hr
    rw [hrestores] at hr
    have hle := h.bounded r hr
    omega
  alone := by
    rintro g i j ⟨r, hr, hi⟩ ⟨r', hr', hj⟩
    rw [hrestores] at hr hr'
    exact h.alone g i j ⟨r, hr, hi⟩ ⟨r', hr', hj⟩

theorem inFlight_append {restores : List (Restore Session)} {r : Restore Session} {g i : Nat}
    (hpage : page.restores = restores ++ [r]) (h : InFlight page g i) :
    (∃ r', restores[i]? = some r' ∧ r'.generation = g ∧ r'.finished = false) ∨
      i = restores.length ∧ r.generation = g := by
  obtain ⟨r', hr', hg, hfinished⟩ := h
  rw [hpage] at hr'
  by_cases hi : i < restores.length
  · rw [List.getElem?_append_left hi] at hr'
    exact .inl ⟨r', hr', hg, hfinished⟩
  · rw [List.getElem?_append_right (by omega), List.getElem?_singleton] at hr'
    split at hr'
    · cases hr'
      exact .inr ⟨by omega, hg⟩
    · cases hr'

theorem inFlight_set {page' : Page Session} {old new : Restore Session} {i : Nat}
    (hold : page.restores[i]? = some old) (hpage : page'.restores = page.restores.set i new)
    (g j : Nat) :
    InFlight page' g j ↔
      j = i ∧ new.generation = g ∧ new.finished = false ∨ j ≠ i ∧ InFlight page g j := by
  have hi : i < page.restores.length := (List.getElem?_eq_some_iff.1 hold).1
  unfold InFlight
  rw [hpage, List.getElem?_set]
  by_cases hji : j = i
  · subst hji
    simp [hi]
  · simp [hji, Ne.symm hji]

/-- A request that is started where none is known to the state. -/
theorem Owned.started {page' : Page Session} (h : Owned page)
    (hnone : page.bootstrap.activeRestore = none)
    (hrestores : page'.restores = page.restores ++ [⟨page.bootstrap.generation, none, false⟩])
    (hactive : page'.bootstrap.activeRestore = some page.restores.length)
    (hgeneration : page'.bootstrap.generation = page.bootstrap.generation) : Owned page' := by
  -- of the present generation nothing was in flight before
  have hfree : ∀ i, ¬ InFlight page page.bootstrap.generation i := by
    intro i hi
    have hknown := h.current i hi
    rw [hnone] at hknown
    cases hknown
  constructor
  · intro i hi
    rw [hactive] at hi
    cases hi
    refine ⟨⟨page.bootstrap.generation, none, false⟩, ?_, hgeneration.symm, rfl⟩
    rw [hrestores, List.getElem?_concat_length]
  · intro i hi
    rw [hgeneration] at hi
    rcases inFlight_append hrestores hi with hbefore | ⟨rfl, -⟩
    · exact absurd hbefore (hfree i)
    · exact hactive
  · intro r hr
    rw [hrestores, List.mem_append, List.mem_singleton] at hr
    rcases hr with hr | rfl
    · rw [hgeneration]
      exact h.bounded r hr
    · exact Nat.le_of_eq hgeneration.symm
  · intro g i j hi hj
    rcases inFlight_append hrestores hi with hbefore | ⟨rfl, rfl⟩
    · rcases inFlight_append hrestores hj with hbefore' | ⟨-, rfl⟩
      · exact h.alone g i j hbefore hbefore'
      · exact absurd hbefore (hfree i)
    · rcases inFlight_append hrestores hj with hbefore | ⟨rfl, -⟩
      · exact absurd hbefore (hfree j)
      · rfl

theorem Owned.bounded_set {old new r : Restore Session} {i : Nat} (h : Owned page)
    (hold : page.restores[i]? = some old) (hr : r ∈ page.restores.set i new)
    (hg : new.generation = old.generation) : r.generation ≤ page.bootstrap.generation := by
  rcases List.mem_or_eq_of_mem_set hr with hr | rfl
  · exact h.bounded r hr
  · rw [hg]
    exact h.bounded old (List.mem_of_getElem? hold)

theorem Owned.settled {page' : Page Session} {outcome outcome' : Option (Outcome Session)}
    {g i : Nat} {finished : Bool} (h : Owned page)
    (hold : page.restores[i]? = some ⟨g, outcome, finished⟩)
    (hrestores : page'.restores = page.restores.set i ⟨g, outcome', finished⟩)
    (hactive : page'.bootstrap.activeRestore = page.bootstrap.activeRestore)
    (hgeneration : page'.bootstrap.generation = page.bootstrap.generation) : Owned page' := by
  refine h.kept ?_ ?_ hactive hgeneration
  · intro g' j
    rw [inFlight_set hold hrestores]
    by_cases hj : j = i
    · subst hj
      unfold InFlight
      simp [hold]
    · simp [hj]
  · intro r hr
    rw [hrestores] at hr
    exact h.bounded_set hold hr rfl

theorem Owned.finished {page' : Page Session} {outcome : Option (Outcome Session)} {g i : Nat}
    (h : Owned page) (hold : page.restores[i]? = some ⟨g, outcome, false⟩)
    (hrestores : page'.restores = page.restores.set i ⟨g, outcome, true⟩)
    (hactive : page'.bootstrap.activeRestore =
      if page.bootstrap.activeRestore = some i then none else page.bootstrap.activeRestore)
    (hgeneration : page'.bootstrap.generation = page.bootstrap.generation) : Owned page' := by
  have hflight : ∀ g' j, InFlight page' g' j ↔ j ≠ i ∧ InFlight page g' j := by
    intro g' j
    rw [inFlight_set hold hrestores]
    simp
  constructor
  · intro j hj
    rw [hactive] at hj
    split at hj
    · cases hj
    · next hother =>
      rw [hgeneration, hflight]
      exact ⟨fun heq => hother (heq ▸ hj), h.active j hj⟩
  · intro j hj
    rw [hgeneration, hflight] at hj
    have hknown := h.current j hj.2
    rw [hactive, if_neg]
    · exact hknown
    · rw [hknown]
      exact fun heq => hj.1 (Option.some.inj heq)
  · intro r hr
    rw [hgeneration]
    rw [hrestores] at hr
    exact h.bounded_set hold hr rfl
  · intro g' j k hj hk
    rw [hflight] at hj hk
    exact h.alone g' j k hj.2 hk.2

@[simp] theorem dropCached_restores : (dropCached page).restores = page.restores := by
  unfold dropCached
  split <;> rfl

@[simp] theorem dropCached_active :
    (dropCached page).bootstrap.activeRestore = page.bootstrap.activeRestore := by
  unfold dropCached
  split <;> rfl

@[simp] theorem dropCached_generation :
    (dropCached page).bootstrap.generation = page.bootstrap.generation := by
  unfold dropCached
  split <;> rfl

@[simp] theorem dropCached_answers : (dropCached page).answers = page.answers := by
  unfold dropCached
  split <;> rfl

theorem dropCached_empties : (dropCached page).bootstrap.cachedSession = none := by
  unfold dropCached
  split
  · rfl
  · next hnone => simpa using hnone

/-- The callback behind a request touches nothing but the cache. -/
theorem afterRestore_frame (g : Nat) (outcome : Outcome Session) (page : Page Session) :
    (afterRestore g outcome page).restores = page.restores ∧
      (afterRestore g outcome page).bootstrap.activeRestore = page.bootstrap.activeRestore ∧
      (afterRestore g outcome page).bootstrap.generation = page.bootstrap.generation := by
  unfold afterRestore
  split
  · split <;> exact ⟨rfl, rfl, rfl⟩
  · exact ⟨rfl, rfl, rfl⟩

theorem owned_restore (h : Owned page) : Owned (restoreBootstrappedSession page) := by
  unfold restoreBootstrappedSession
  split
  · exact h.same dropCached_restores dropCached_active dropCached_generation
  · split
    · exact h.same rfl rfl rfl
    · unfold requestRestore
      split
      · exact h.same dropCached_restores dropCached_active dropCached_generation
      · next hnone =>
        rw [dropCached_active] at hnone
        refine h.started hnone ?_ ?_ dropCached_generation
        · simp [answered]
        · simp [answered]

theorem owned_settle (h : Owned page) (i : Nat) (outcome : Outcome Session) :
    Owned (settle i outcome page) := by
  unfold settle
  split
  · next g finished hold =>
    obtain ⟨hrestores, hactive, hgeneration⟩ := afterRestore_frame g outcome
      { page with restores := page.restores.set i ⟨g, some outcome, finished⟩ }
    exact h.settled hold hrestores hactive hgeneration
  · exact h

theorem owned_finish (h : Owned page) (i : Nat) : Owned (finish i page) := by
  unfold finish
  split
  · next g outcome hold =>
    refine h.finished hold rfl ?_ ?_
    · dsimp only
      split <;> rfl
    · dsimp only
      split <;> rfl
  · exact h

theorem step_owned (page : Page Session) (a : Act Session) (h : Owned page) : Owned (step page a) := by
  cases a with
  | setCookie cookie => exact h.same rfl rfl rfl
  | restore => exact owned_restore h
  | adopt session => exact h.next rfl rfl rfl
  | invalidate => exact h.next rfl rfl rfl
  | settle i outcome => exact owned_settle h i outcome
  | finish i => exact owned_finish h i

end Requests

section Histories

variable {page : Page Session}

/-- A request keeps its place and its generation, and all of itself once it is finished. -/
def Grows (page page' : Page Session) : Prop :=
  page.bootstrap.generation ≤ page'.bootstrap.generation ∧
    ∀ (i : Nat) (r : Restore Session), page.restores[i]? = some r → ∃ r',
      page'.restores[i]? = some r' ∧ r'.generation = r.generation ∧ (r.outcome.isSome = true → r.finished = true → r' = r)

theorem grows_same {page' : Page Session}
    (hgeneration : page.bootstrap.generation ≤ page'.bootstrap.generation)
    (hrestores : page'.restores = page.restores) : Grows page page' := by
  refine ⟨hgeneration, fun i r hr => ⟨r, ?_, rfl, fun _ _ => rfl⟩⟩
  rw [hrestores, hr]

theorem grows_set {page' : Page Session} {old new : Restore Session} {i : Nat}
    (hold : page.restores[i]? = some old) (hrestores : page'.restores = page.restores.set i new)
    (hgeneration : page'.bootstrap.generation = page.bootstrap.generation)
    (hnew : new.generation = old.generation) (hopen : old.outcome = none ∨ old.finished = false) :
    Grows page page' := by
  refine ⟨Nat.le_of_eq hgeneration.symm, fun j r hr => ?_⟩
  rw [hrestores]
  by_cases hj : i = j
  · subst hj
    rw [hold] at hr
    cases hr
    refine ⟨new, List.getElem?_set_self (List.getElem?_eq_some_iff.1 hold).1, hnew, ?_⟩
    intro houtcome hfinished
    rcases hopen with hnone | hfalse
    · rw [hnone] at houtcome
      cases houtcome
    · rw [hfalse] at hfinished
      cases hfinished
  · exact ⟨r, by rw [List.getElem?_set_ne hj, hr], rfl, fun _ _ => rfl⟩

theorem grows_restore (page : Page Session) : Grows page (restoreBootstrappedSession page) := by
  unfold restoreBootstrappedSession
  split
  · exact grows_same (Nat.le_of_eq dropCached_generation.symm) dropCached_restores
  · split
    · exact grows_same (Nat.le_refl _) rfl
    · unfold requestRestore
      split
      · exact grows_same (Nat.le_of_eq dropCached_generation.symm) dropCached_restores
      · refine ⟨Nat.le_of_eq dropCached_generation.symm, fun i r hr => ⟨r, ?_, rfl, fun _ _ => rfl⟩⟩
        have hi : i < page.restores.length := (List.getElem?_eq_some_iff.1 hr).1
        simp [answered, List.getElem?_append_left hi, hr]

theorem step_grows (page : Page Session) (a : Act Session) : Grows page (step page a) := by
  cases a with
  | setCookie cookie => exact grows_same (Nat.le_refl _) rfl
  | restore => exact grows_restore page
  | adopt session => exact grows_same (Nat.le_succ _) rfl
  | invalidate => exact grows_same (Nat.le_succ _) rfl
  | settle i outcome =>
    dsimp only [step, settle]
    split
    · next g finished hold =>
      obtain ⟨hrestores, -, hgeneration⟩ := afterRestore_frame g outcome
        { page with restores := page.restores.set i ⟨g, some outcome, finished⟩ }
      exact grows_set hold hrestores hgeneration rfl (.inl rfl)
    · exact grows_same (Nat.le_refl _) rfl
  | finish i =>
    dsimp only [step, finish]
    split
    · next g outcome hold =>
      refine grows_set hold rfl ?_ rfl (.inr rfl)
      dsimp only
      split <;> rfl
    · exact grows_same (Nat.le_refl _) rfl

/-- A request of an earlier generation. -/
def Superseded (i : Nat) (page : Page Session) : Prop :=
  ∃ r, page.restores[i]? = some r ∧ r.generation < page.bootstrap.generation

theorem step_superseded (i : Nat) (page : Page Session) (a : Act Session) (h : Superseded i page) :
    Superseded i (step page a) := by
  obtain ⟨r, hr, hlt⟩ := h
  obtain ⟨hle, hkept⟩ := step_grows page a
  obtain ⟨r', hr', hg, -⟩ := hkept i r hr
  exact ⟨r', hr', by omega⟩

/-- What has become of such a request does not reach the state any more. -/
theorem superseded_idle {i : Nat} (howned : Owned page) (h : Superseded i page) :
    (∀ outcome, (settle i outcome page).bootstrap = page.bootstrap) ∧
      (finish i page).bootstrap = page.bootstrap := by
  obtain ⟨r, hr, hlt⟩ := h
  constructor
  · intro outcome
    unfold settle
    split
    · next g finished hold =>
      rw [hr] at hold
      cases hold
      have hother : page.bootstrap.generation ≠ g := Nat.ne_of_gt hlt
      unfold afterRestore
      split
      · rw [if_neg hother]
      · rfl
    · rfl
  · unfold finish
    split
    · next g outcome hold =>
      refine if_neg fun hactive => ?_
      obtain ⟨r', hr', hg, -⟩ := howned.active i hactive
      rw [hr] at hr'
      cases hr'
      omega
    · rfl

theorem supersedes_spec {a : Act Session} (ha : a.Supersedes) (page : Page Session) :
    (step page a).restores = page.restores ∧
      page.bootstrap.generation < (step page a).bootstrap.generation := by
  cases a with
  | adopt session => exact ⟨rfl, Nat.lt_succ_self _⟩
  | invalidate => exact ⟨rfl, Nat.lt_succ_self _⟩
  | _ => exact ha.elim

theorem restore_cache (page : Page Session) :
    (restoreBootstrappedSession page).bootstrap.cachedSession = none ∨
      (restoreBootstrappedSession page).bootstrap = page.bootstrap := by
  unfold restoreBootstrappedSession
  split
  · exact .inl dropCached_empties
  · split
    · exact .inr rfl
    · unfold requestRestore
      split
      · exact .inl dropCached_empties
      · exact .inl dropCached_empties

theorem settle_cache (i : Nat) (outcome : Outcome Session) (page : Page Session) :
    (settle i outcome page).bootstrap = page.bootstrap ∨
      ∃ session, Caches session page (.settle i outcome) ∧
        (settle i outcome page).bootstrap = cacheSession page.cookie session page.bootstrap := by
  unfold settle
  split
  · next g finished hold =>
    unfold afterRestore
    split
    · next session =>
      by_cases hg : page.bootstrap.generation = g
      · refine .inr ⟨session, ⟨rfl, _, hold, rfl, hg.symm⟩, ?_⟩
        rw [if_pos hg]
      · rw [if_neg hg]
        exact .inl rfl
    · exact .inl rfl
  · exact .inl rfl

theorem finish_cache (i : Nat) (page : Page Session) :
    (finish i page).bootstrap.cachedSession = page.bootstrap.cachedSession ∧
      (finish i page).bootstrap.cachedCSRFToken = page.bootstrap.cachedCSRFToken := by
  unfold finish
  split
  · dsimp only
    split <;> exact ⟨rfl, rfl⟩
  · exact ⟨rfl, rfl⟩

/-- A session comes into the cache by a command that puts it there, with the token of that
moment, and stays there with that token. -/
theorem step_cached (page : Page Session) (a : Act Session) {session : Session}
    (h : (step page a).bootstrap.cachedSession = some session) :
    Caches session page a ∧
        (step page a).bootstrap.cachedCSRFToken = csrfTokenFromCookie page.cookie ∨
      page.bootstrap.cachedSession = some session ∧
        (step page a).bootstrap.cachedCSRFToken = page.bootstrap.cachedCSRFToken := by
  cases a with
  | setCookie cookie => exact .inr ⟨h, rfl⟩
  | restore =>
    rcases restore_cache page with hnone | hsame
    · exact absurd (hnone.symm.trans h) nofun
    · exact .inr ⟨hsame ▸ h, congrArg SessionBootstrapState.cachedCSRFToken hsame⟩
  | adopt adopted => exact .inl ⟨Option.some.inj h, rfl⟩
  | invalidate => cases h
  | settle i outcome =>
    rcases settle_cache i outcome page with hsame | ⟨restored, hcaches, hcache⟩
    · exact .inr ⟨hsame ▸ h, congrArg SessionBootstrapState.cachedCSRFToken hsame⟩
    · have hsession : restored = session := by
        rw [step, hcache] at h
        exact Option.some.inj h
      exact .inl ⟨hsession ▸ hcaches, congrArg SessionBootstrapState.cachedCSRFToken hcache⟩
  | finish i =>
    obtain ⟨hsession, htoken⟩ := finish_cache i page
    exact .inr ⟨hsession.symm.trans h, htoken⟩

/-- The session was put into the cache by a command of the history, while the cookie held the
token, and has been there with it ever since. -/
def CachedWith (session : Session) (token : String) (history : List (Act Session)) : Prop :=
  ∃ before a after, history = before ++ a :: after ∧
    Caches session (replay step initial before) a ∧
    csrfTokenFromCookie (replay step initial before).cookie = token ∧
    ∀ since, since <+: after →
      (replay step initial (before ++ a :: since)).bootstrap.cachedSession = some session ∧
        (replay step initial (before ++ a :: since)).bootstrap.cachedCSRFToken = token

theorem CachedWith.concat {session : Session} {token : String} {history : List (Act Session)}
    (h : CachedWith session token history) (a : Act Session)
    (hsession : (replay step initial (history ++ [a])).bootstrap.cachedSession = some session)
    (htoken : (replay step initial (history ++ [a])).bootstrap.cachedCSRFToken = token) :
    CachedWith session token (history ++ [a]) := by
  obtain ⟨before, first, after, rfl, hcaches, hcookie, hsince⟩ := h
  rw [List.append_assoc, List.cons_append] at hsession htoken ⊢
  refine ⟨before, first, after ++ [a], rfl, hcaches, hcookie, ?_⟩
  intro since hprefix
  rcases List.prefix_concat_iff.1 hprefix with rfl | hprefix
  · exact ⟨hsession, htoken⟩
  · exact hsince since hprefix

/-- What is in the cache at the end of a history. -/
theorem replay_cached (history : List (Act Session)) {session : Session}
    (h : (replay step initial history).bootstrap.cachedSession = some session) :
    CachedWith session (replay step initial history).bootstrap.cachedCSRFToken history := by
  induction history using List.reverseRecOn with
  | nil => cases h
  | append_singleton history a ih =>
    have hlast : replay step initial (history ++ [a]) = step (replay step initial history) a := by
      rw [replay_append, replay_cons, replay_nil]
    rw [hlast] at h ⊢
    rcases step_cached _ a h with ⟨hcaches, htoken⟩ | ⟨hbefore, htoken⟩
    · refine ⟨history, a, [], rfl, hcaches, htoken.symm, ?_⟩
      intro since hprefix
      rw [List.prefix_nil.1 hprefix, hlast]
      exact ⟨h, rfl⟩
    · rw [htoken]
      refine (ih hbefore).concat a ?_ ?_
      · rw [hlast, h]
      · rw [hlast, htoken]

theorem replay_owned (history : List (Act Session)) : Owned (replay step initial history) :=
  replay_keeps step_owned owned_initial history

/-- An answer that a caller has learned is final. -/
theorem step_result (page : Page Session) (a : Act Session) (answer : Answer Session)
    (o : Outcome Session) (h : result page answer = some o) : result (step page a) answer = some o := by
  cases answer with
  | resolved session => exact h
  | promise i =>
    obtain ⟨r, hr, hresult⟩ := Option.bind_eq_some_iff.1 h
    split at hresult
    · next hfinished =>
      obtain ⟨r', hr', -, hsame⟩ := (step_grows page a).2 i r hr
      have hr'' : r' = r := hsame (by rw [hresult]; rfl) hfinished
      rw [hr''] at hr'
      rw [result, hr', Option.bind_some, if_pos hfinished, hresult]
    · cases hresult

/-- The answer to a call while a request of the present generation is in flight. -/
theorem restore_shares {i : Nat} (howned : Owned page)
    (hflight : InFlight page page.bootstrap.generation i) :
    (restoreBootstrappedSession page).restores = page.restores ∧
      (restoreBootstrappedSession page).answers = page.answers ++
        [if csrfTokenFromCookie page.cookie = "" then .resolved none
          else (cached page).elim (.promise i) fun session => .resolved (some session)] := by
  have hactive : (dropCached page).bootstrap.activeRestore = some i := by
    rw [dropCached_active]
    exact howned.current i hflight
  unfold restoreBootstrappedSession
  split
  · exact ⟨dropCached_restores, by simp [answered]⟩
  · cases cached page with
    | some session => exact ⟨rfl, rfl⟩
    | none =>
      dsimp only [requestRestore, Option.elim]
      rw [hactive]
      exact ⟨dropCached_restores, by simp [answered]⟩

/-- A call that is answered with a session at once takes it from the cache. -/
theorem restore_fromCache {session : Session}
    (h : (restoreBootstrappedSession page).answers = page.answers ++ [.resolved (some session)]) :
    page.bootstrap.cachedSession = some session ∧ csrfTokenFromCookie page.cookie ≠ "" ∧
      page.bootstrap.cachedCSRFToken = csrfTokenFromCookie page.cookie := by
  unfold restoreBootstrappedSession at h
  split at h
  · simp [answered] at h
  · next htoken =>
    split at h
    · next found hcached =>
      have hfound : found = session := by simpa [answered] using h
      unfold cached at hcached
      split at hcached
      · next hsame => exact ⟨hfound ▸ hcached, htoken, hsame⟩
      · cases hcached
    · unfold requestRestore at h
      split at h <;> simp [answered] at h

/-- What holds of the document after a history, whatever the order in which the calls and the
callbacks came. -/
structure Ordered (history : List (Act Session)) : Prop where
  /-- A request that was started before the session was taken over changes nothing any more. -/
  superseded : ∀ before a after i, history = before ++ a :: after → a.Supersedes →
    i < (replay step initial before).restores.length →
    (∀ outcome, (settle i outcome (replay step initial history)).bootstrap =
        (replay step initial history).bootstrap) ∧
      (finish i (replay step initial history)).bootstrap = (replay step initial history).bootstrap
  /-- No generation has two requests in flight. -/
  single : ∀ g i j, InFlight (replay step initial history) g i →
    InFlight (replay step initial history) g j → i = j
  /-- A call that finds one in flight starts none: it is answered from the cookie or the cache,
  or waits for the same promise. -/
  shared : ∀ i, InFlight (replay step initial history)
      (replay step initial history).bootstrap.generation i →
    (restoreBootstrappedSession (replay step initial history)).restores =
        (replay step initial history).restores ∧
      (restoreBootstrappedSession (replay step initial history)).answers =
        (replay step initial history).answers ++
          [if csrfTokenFromCookie (replay step initial history).cookie = "" then .resolved none
            else (cached (replay step initial history)).elim (.promise i)
              fun session => .resolved (some session)]
  /-- What one of the callers has learned, all of them learn, however much later. -/
  final : ∀ answer o rest, result (replay step initial history) answer = some o →
    result (replay step initial (history ++ rest)) answer = some o
  /-- A session comes from the cache only under the cookie with which it came into it. -/
  fromCache : ∀ session, (restoreBootstrappedSession (replay step initial history)).answers =
      (replay step initial history).answers ++ [.resolved (some session)] →
    csrfTokenFromCookie (replay step initial history).cookie ≠ "" ∧
      CachedWith session (csrfTokenFromCookie (replay step initial history).cookie) history

theorem history_ordered (history : List (Act Session)) : Ordered history where
  superseded := by
    rintro before a after i rfl ha hi
    obtain ⟨hrestores, hlt⟩ := supersedes_spec ha (replay step initial before)
    have hold : Superseded i (step (replay step initial before) a) := by
      have hle := (replay_owned before).bounded _ (List.getElem_mem hi)
      refine ⟨_, ?_, Nat.lt_of_le_of_lt hle hlt⟩
      rw [hrestores]
      exact List.getElem?_eq_getElem hi
    refine superseded_idle (replay_owned _) ?_
    rw [replay_append, replay_cons]
    exact replay_keeps (step_superseded i) hold after
  single := (replay_owned history).alone
  shared := fun i hi => restore_shares (replay_owned history) hi
  final := by
    intro answer o rest h
    rw [replay_append]
    have hstep : ∀ (page : Page Session) (a : Act Session), result page answer = some o →
        result (step page a) answer = some o := fun page a => step_result page a answer o
    exact replay_keeps hstep h rest
  fromCache := by
    intro session h
    obtain ⟨hsession, htoken, hsame⟩ := restore_fromCache h
    exact ⟨htoken, hsame ▸ replay_cached history hsession⟩

end Histories

end SessionBootstrap
