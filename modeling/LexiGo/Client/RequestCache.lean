import LexiGo.StepHistories
import LexiGo.Text.UrlReference

/-! The requests of the client, and the answers that it keeps for a few seconds. Requests
are numbered in the order in which they are made. A response carries the numbers of those
that had taken effect when the server produced it, which the client does not read. -/
namespace RequestCache
open StepHistories UrlReference

structure Response where
  status : Nat
  effects : List Nat
  deriving DecidableEq

def Response.ok (r : Response) : Bool := 200 ≤ r.status && r.status ≤ 299

/-- What a request is made from: an address, what a `Request` object says, what the options
say, and whether the caller's signal is aborted already. -/
structure FetchInput where
  address : String
  requestMethod : Option String := none
  requestAuthorization : Option String := none
  method : Option String := none
  authorization : Option String := none
  aborted : Bool := false

structure ClientRequestDetails where
  method : String
  url : Url
  authorization : String
  deriving DecidableEq

structure ClientResourceCacheEntry where
  expiresAt : Int
  response : Response

abbrev ResourceCache := String → Option ClientResourceCacheEntry

def clientResourceCacheTtlMs : Int := 15000

def clientResourceCachePaths : List String := ["/api/v1/progress", "/api/v1/lessons/active"]

def toUpperCase (s : String) : String := String.ofList (s.toList.map Char.toUpper)

def isApiPath (pathname : String) : Bool := "/api/v1/".toList.isPrefixOf pathname.toList

def clientResourceCacheKey (details : ClientRequestDetails) : Option String :=
  if details.method ≠ "GET" || details.url.pathname ∉ clientResourceCachePaths then none
  else some (details.authorization ++ "\n" ++ details.url.href)

def cachedClientResource (now : Int) (key : String) (cache : ResourceCache) :
    Option Response × ResourceCache :=
  match cache key with
  | none => (none, cache)
  | some cached =>
    if cached.expiresAt ≤ now then (none, fun key' => if key' = key then none else cache key')
    else (some cached.response, cache)

/-- What the cache holds for a request, if it may hold anything. -/
def cachedAnswer (now : Int) (details : Option ClientRequestDetails) (cache : ResourceCache) :
    Option Response × ResourceCache :=
  match details.bind clientResourceCacheKey with
  | none => (none, cache)
  | some key => cachedClientResource now key cache

def shouldCacheClientResource (pathname : String) (response : Response) : Bool :=
  if pathname = "/api/v1/progress" then response.ok
  else pathname = "/api/v1/lessons/active" && response.status = 404

def invalidateClientResources (details : Option ClientRequestDetails) (cache : ResourceCache) :
    ResourceCache :=
  match details with
  | none => cache
  | some details =>
    if details.method = "GET" || !isApiPath details.url.pathname then cache else fun _ => none

/-- Where a request has come to: `produced` is a response on its way. -/
inductive Progress
  | sent
  | produced (r : Response)
  | returned (r : Response)
  | failed
  deriving DecidableEq

structure Request where
  details : Option ClientRequestDetails
  progress : Progress
  deriving DecidableEq

structure State where
  now : Int
  cache : ResourceCache
  requests : List Request
  effects : List Nat

def State.advance (s : State) (i : Nat) (request : Request) (progress : Progress) : State :=
  { s with requests := s.requests.set i { request with progress := progress } }

def mutatingMethods : List String := ["POST", "PUT", "PATCH", "DELETE"]

/-- Whether a request is one that may change what the API serves. -/
def Request.mutates (request : Request) : Bool :=
  request.details.any fun details =>
    details.method ∈ mutatingMethods && isApiPath details.url.pathname

/-- Whether the client keeps a response to a request. -/
def Request.stores (request : Request) (r : Response) : Bool :=
  request.details.any fun details =>
    (clientResourceCacheKey details).isSome && shouldCacheClientResource details.url.pathname r

section Fetch
variable (newURL : String → String → Option Url) (origin : Option String)

/-- `origin` is that of the window, if there is one. -/
def clientRequestDetails (input : FetchInput) : Option ClientRequestDetails := do
  let url ← newURL input.address (← origin)
  some
    { method := toUpperCase ((input.method.or input.requestMethod).getD "GET")
      url := url
      authorization := (input.authorization.or input.requestAuthorization).getD "" }

/-- `fetchWithTimeout` until it waits for the server, or returns what it has kept. -/
def beginFetch (s : State) (input : FetchInput) : State :=
  let details := clientRequestDetails newURL origin input
  let cache := invalidateClientResources details s.cache
  let found := cachedAnswer s.now details cache
  let progress := if input.aborted then .failed
    else match found.1 with
      | some response => .returned response
      | none => .sent
  { s with cache := found.2, requests := s.requests ++ [⟨details, progress⟩] }

/-- `fetchWithTimeout` from the response on. -/
def endFetch (s : State) (i : Nat) (request : Request) (r : Response) : State :=
  let kept := match request.details with
    | none => s.cache
    | some details =>
      match clientResourceCacheKey details with
      | none => s.cache
      | some key =>
        if shouldCacheClientResource details.url.pathname r then
          fun key' => if key' = key then some ⟨s.now + clientResourceCacheTtlMs, r⟩ else s.cache key'
        else s.cache
  { s.advance i request (.returned r) with cache := kept }

/-- What may happen next: the clock moves, a request is made, it takes effect on the server,
the server produces the response to it, the response arrives, the client gives up. -/
inductive Act
  | clock (now : Int)
  | fetch (input : FetchInput)
  | takeEffect (i : Nat)
  | produce (i : Nat) (status : Nat)
  | arrive (i : Nat)
  | fail (i : Nat)

/-- The server answers a mutating request with success only once it has taken effect. -/
def mayProduce (s : State) (i : Nat) (request : Request) (r : Response) : Bool :=
  !(request.mutates && r.ok) || i ∈ s.effects

def step (s : State) : Act → State
  | .clock now => { s with now := now }
  | .fetch input => beginFetch newURL origin s input
  | .takeEffect i =>
    match s.requests[i]? with
    | some request => if request.mutates then { s with effects := i :: s.effects } else s
    | none => s
  | .produce i status =>
    match s.requests[i]? with
    | some request =>
      if request.progress = .sent && mayProduce s i request ⟨status, s.effects⟩ then
        s.advance i request (.produced ⟨status, s.effects⟩)
      else s
    | none => s
  | .arrive i =>
    match s.requests[i]? with
    | some ⟨details, .produced r⟩ => endFetch s i ⟨details, .produced r⟩ r
    | _ => s
  | .fail i =>
    match s.requests[i]? with
    | some ⟨details, .sent⟩ => s.advance i ⟨details, .sent⟩ .failed
    | some ⟨details, .produced r⟩ => s.advance i ⟨details, .produced r⟩ .failed
    | _ => s

end Fetch

def initial (now : Int) : State := ⟨now, fun _ => none, [], []⟩

/-- The response to a request, on its way or arrived. -/
def Progress.response : Progress → Option Response
  | .produced r => some r
  | .returned r => some r
  | _ => none

def Progress.arriving : Progress → Option Response
  | .produced r => some r
  | _ => none

/-- Whether a mutating request has not come to nothing. -/
def Request.underway (request : Request) : Bool :=
  request.mutates && request.progress ≠ .failed && request.progress.response.all Response.ok

def Underway (s : State) (m : Nat) : Prop := ∃ request ∈ s.requests[m]?, request.underway = true

instance (s : State) (m : Nat) : Decidable (Underway s m) :=
  inferInstanceAs (Decidable (∃ request ∈ s.requests[m]?, request.underway = true))

def Completed (s : State) (m : Nat) : Prop :=
  ∃ request r, s.requests[m]? = some request ∧ request.mutates = true ∧
    request.progress = .returned r ∧ r.ok = true

/-- No response is kept that the server produced before a mutating request took effect which
had been made by the time the response arrived. -/
def KeepsNothingOlder (s : State) : Act → Prop
  | .arrive i => ∀ request ∈ s.requests[i]?, ∀ r ∈ request.progress.arriving,
      request.stores r = true → ∀ m < s.requests.length, Underway s m → m ∈ r.effects
  | _ => True

instance (s : State) : ∀ a, Decidable (KeepsNothingOlder s a)
  | .arrive i =>
    inferInstanceAs (Decidable (∀ request ∈ s.requests[i]?, ∀ r ∈ request.progress.arriving,
      request.stores r = true → ∀ m < s.requests.length, Underway s m → m ∈ r.effects))
  | .clock _ | .fetch _ | .takeEffect _ | .produce _ _ | .fail _ => isTrue trivial

section Steps
variable {newURL : String → String → Option Url} {origin : Option String}

/-- How a request may get on in a state. -/
inductive Advances (s : State) (i : Nat) (request : Request) : Progress → Prop
  | produced (status : Nat) (h : request.progress = .sent)
      (hserver : mayProduce s i request ⟨status, s.effects⟩ = true) :
      Advances s i request (.produced ⟨status, s.effects⟩)
  | arrived (r : Response) (h : request.progress = .produced r) : Advances s i request (.returned r)
  | failed : Advances s i request .failed

/-- What a request of the next state was in this one: the same, one that has got on, or
none. -/
inductive Came (newURL : String → String → Option Url) (origin : Option String) (s : State) :
    Act → Nat → Request → Prop
  | same {a : Act} {i : Nat} {request : Request} (h : s.requests[i]? = some request) :
      Came newURL origin s a i request
  | advanced {a : Act} {i : Nat} {request : Request} {progress : Progress}
      (h : s.requests[i]? = some request) (hadvances : Advances s i request progress) :
      Came newURL origin s a i { request with progress := progress }
  | made {input : FetchInput} {request : Request}
      (h : (beginFetch newURL origin s input).requests[s.requests.length]? = some request) :
      Came newURL origin s (.fetch input) s.requests.length request

theorem came_advance {s : State} {a : Act} {i j : Nat} {request request' : Request}
    {progress : Progress} (h : s.requests[i]? = some request)
    (hadvances : Advances s i request progress)
    (hj : (s.advance i request progress).requests[j]? = some request') :
    Came newURL origin s a j request' := by
  rw [State.advance, List.getElem?_set] at hj
  split at hj
  · next hij =>
    subst hij
    split at hj
    · cases hj
      exact .advanced h hadvances
    · cases hj
  · exact .same hj

theorem step_came (s : State) (a : Act) {j : Nat} {request : Request}
    (h : (step newURL origin s a).requests[j]? = some request) : Came newURL origin s a j request := by
  cases a with
  | clock now => exact .same h
  | fetch input =>
    by_cases hj : j < s.requests.length
    · refine .same ?_
      rw [step, beginFetch, List.getElem?_append_left hj] at h
      exact h
    · have hlength : (beginFetch newURL origin s input).requests.length = s.requests.length + 1 := by
        simp [beginFetch]
      obtain ⟨hlt, -⟩ := List.getElem?_eq_some_iff.1 h
      have hlast : j = s.requests.length := by
        have hle : j < s.requests.length + 1 := hlength ▸ hlt
        omega
      subst hlast
      exact .made h
  | takeEffect i =>
    rw [step] at h
    refine .same ?_
    split at h
    · split at h <;> exact h
    · exact h
  | produce i status =>
    rw [step] at h
    split at h
    · next request' hrequest =>
      split at h
      · next hserver =>
        rw [Bool.and_eq_true, decide_eq_true_eq] at hserver
        exact came_advance hrequest (.produced status hserver.1 hserver.2) h
      · exact .same h
    · exact .same h
  | arrive i =>
    rw [step] at h
    split at h
    · next details r hrequest => exact came_advance hrequest (.arrived r rfl) h
    · exact .same h
  | fail i =>
    rw [step] at h
    split at h
    · next hrequest => exact came_advance hrequest .failed h
    · next hrequest => exact came_advance hrequest .failed h
    · exact .same h

theorem step_requests (s : State) (a : Act) :
    s.requests.length ≤ (step newURL origin s a).requests.length := by
  have hadvance : ∀ i request progress,
      s.requests.length ≤ (s.advance i request progress).requests.length :=
    fun i request progress => (List.length_set).ge
  cases a with
  | clock now => exact le_rfl
  | fetch input => simp [step, beginFetch]
  | takeEffect i =>
    rw [step]
    split
    · split <;> exact le_rfl
    · exact le_rfl
  | produce i status =>
    rw [step]
    split
    · split
      · exact hadvance i _ _
      · exact le_rfl
    · exact le_rfl
  | arrive i =>
    rw [step]
    split
    · exact hadvance i _ _
    · exact le_rfl
  | fail i =>
    rw [step]
    split
    · exact hadvance i _ _
    · exact hadvance i _ _
    · exact le_rfl

theorem step_effects (s : State) (a : Act) {m : Nat} (h : m ∈ s.effects) :
    m ∈ (step newURL origin s a).effects := by
  cases a with
  | clock | fetch => exact h
  | takeEffect i =>
    rw [step]
    split
    · split
      · exact List.mem_cons_of_mem _ h
      · exact h
    · exact h
  | produce i status =>
    rw [step]
    split
    · split <;> exact h
    · exact h
  | arrive i =>
    rw [step]
    split <;> exact h
  | fail i =>
    rw [step]
    split <;> exact h

theorem cachedAnswer_kept {now : Int} {details : Option ClientRequestDetails} {key : String}
    {cache : ResourceCache} {entry : ClientResourceCacheEntry}
    (h : (cachedAnswer now details cache).2 key = some entry) : cache key = some entry := by
  unfold cachedAnswer at h
  split at h
  · exact h
  · unfold cachedClientResource at h
    split at h
    · exact h
    · split at h
      · dsimp only at h
        split at h
        · cases h
        · exact h
      · exact h

theorem cachedAnswer_found {now : Int} {details : Option ClientRequestDetails}
    {cache : ResourceCache} {r : Response} (h : (cachedAnswer now details cache).1 = some r) :
    ∃ key entry, cache key = some entry ∧ entry.response = r := by
  unfold cachedAnswer at h
  split at h
  · cases h
  · next key hkey =>
    unfold cachedClientResource at h
    split at h
    · cases h
    · next cached hcached =>
      split at h
      · cases h
      · cases h
        exact ⟨key, cached, hcached, rfl⟩

/-- A request that may change what the API serves leaves nothing in the cache. -/
theorem invalidate_mutates {request : Request} (h : request.mutates = true) (cache : ResourceCache) :
    invalidateClientResources request.details cache = fun _ => none := by
  obtain ⟨details, progress⟩ := request
  cases details with
  | none => cases h
  | some details =>
    rw [Request.mutates, Option.any_some, Bool.and_eq_true, decide_eq_true_eq] at h
    obtain ⟨hmethod, hpath⟩ := h
    have hget : details.method ≠ "GET" := by
      intro hget
      rw [hget] at hmethod
      exact absurd hmethod (by decide)
    rw [invalidateClientResources, if_neg]
    simp [hget, hpath]

theorem invalidate_kept {details : Option ClientRequestDetails} {cache : ResourceCache} {key : String}
    {entry : ClientResourceCacheEntry} (h : invalidateClientResources details cache key = some entry) :
    cache key = some entry := by
  unfold invalidateClientResources at h
  split at h
  · exact h
  · split at h
    · exact h
    · cases h

theorem beginFetch_cache {s : State} {input : FetchInput} {key : String}
    {entry : ClientResourceCacheEntry} (h : (beginFetch newURL origin s input).cache key = some entry) :
    invalidateClientResources (clientRequestDetails newURL origin input) s.cache key = some entry :=
  cachedAnswer_kept h

/-- What a request returns at once has been in the cache. -/
theorem beginFetch_request {s : State} {input : FetchInput} {request : Request}
    (h : (beginFetch newURL origin s input).requests[s.requests.length]? = some request) :
    request.details = clientRequestDetails newURL origin input ∧
      ∀ r ∈ request.progress.response, ∃ key entry,
        invalidateClientResources request.details s.cache key = some entry ∧ entry.response = r := by
  unfold beginFetch at h
  dsimp only at h
  rw [List.getElem?_concat_length, Option.some.injEq] at h
  subst h
  refine ⟨rfl, fun r hr => ?_⟩
  dsimp only at hr ⊢
  split at hr
  · cases hr
  · cases hfound : (cachedAnswer s.now (clientRequestDetails newURL origin input)
        (invalidateClientResources (clientRequestDetails newURL origin input) s.cache)).1 with
    | none =>
      rw [hfound] at hr
      cases hr
    | some response =>
      rw [hfound] at hr
      cases hr
      exact cachedAnswer_found hfound

theorem endFetch_cache {s : State} {i : Nat} {request : Request} {r : Response} {key : String}
    {entry : ClientResourceCacheEntry} (h : (endFetch s i request r).cache key = some entry) :
    s.cache key = some entry ∨ (request.stores r = true ∧ entry.response = r) := by
  obtain ⟨details, progress⟩ := request
  cases details with
  | none => exact .inl h
  | some details =>
    dsimp only [endFetch] at h
    cases hkey : clientResourceCacheKey details with
    | none =>
      rw [hkey] at h
      exact .inl h
    | some key' =>
      rw [hkey] at h
      dsimp only at h
      split at h
      · next hcached =>
        dsimp only at h
        split at h
        · cases h
          refine .inr ⟨?_, rfl⟩
          rw [Request.stores, Option.any_some, hkey, hcached]
          rfl
        · exact .inl h
      · exact .inl h

/-- What is in the cache next was there before, or is the response that arrives. -/
theorem step_cache {s : State} {a : Act} {key : String} {entry : ClientResourceCacheEntry}
    (h : (step newURL origin s a).cache key = some entry) :
    s.cache key = some entry ∨ ∃ i request, a = .arrive i ∧ s.requests[i]? = some request ∧
      request.progress = .produced entry.response ∧ request.stores entry.response = true := by
  cases a with
  | clock now => exact .inl h
  | fetch input => exact .inl (invalidate_kept (beginFetch_cache h))
  | takeEffect i =>
    rw [step] at h
    refine .inl ?_
    split at h
    · split at h <;> exact h
    · exact h
  | produce i status =>
    rw [step] at h
    refine .inl ?_
    split at h
    · split at h <;> exact h
    · exact h
  | arrive i =>
    rw [step] at h
    split at h
    · next details r hrequest =>
      rcases endFetch_cache h with hold | ⟨hstores, hentry⟩
      · exact .inl hold
      · subst hentry
        exact .inr ⟨i, _, rfl, hrequest, rfl, hstores⟩
    · exact .inl h
  | fail i =>
    rw [step] at h
    refine .inl ?_
    split at h <;> exact h

theorem underway_lt {s : State} {m : Nat} (h : Underway s m) : m < s.requests.length := by
  obtain ⟨request, hrequest, -⟩ := h
  exact (List.getElem?_eq_some_iff.1 hrequest).1

theorem Request.underway_iff {request : Request} : request.underway = true ↔
    request.mutates = true ∧ request.progress ≠ .failed ∧
      ∀ r ∈ request.progress.response, r.ok = true := by
  rw [Request.underway, Bool.and_eq_true, Bool.and_eq_true, decide_eq_true_eq, and_assoc,
    Option.all_eq_true]
  rfl

/-- A mutating request that is under way was so before, unless it has just been made. -/
theorem step_underway {s : State} {a : Act} {m : Nat} (h : Underway (step newURL origin s a) m) :
    Underway s m ∨ ∀ key, (step newURL origin s a).cache key = none := by
  obtain ⟨request, hrequest, hunderway⟩ := h
  obtain ⟨hmutates, hprogress, hok⟩ := Request.underway_iff.1 hunderway
  cases step_came s a hrequest with
  | same hold => exact .inl ⟨request, hold, hunderway⟩
  | made hmade =>
    refine .inr fun key => Option.eq_none_iff_forall_ne_some.2 fun entry hentry => ?_
    have hentry := beginFetch_cache hentry
    rw [← (beginFetch_request hmade).1, invalidate_mutates hmutates] at hentry
    cases hentry
  | advanced hold hadvances =>
    refine .inl ⟨_, hold, Request.underway_iff.2 ⟨hmutates, ?_⟩⟩
    cases hadvances with
    | produced status hsent hserver =>
      rw [hsent]
      exact ⟨nofun, nofun⟩
    | arrived r hproduced =>
      rw [hproduced]
      exact ⟨nofun, hok⟩
    | failed => exact absurd rfl hprogress

/-- Every mutating request that is answered with success has taken effect, and what the cache
holds is younger than every mutating request that is under way. -/
structure Fresh (s : State) : Prop where
  applied : ∀ m request r, s.requests[m]? = some request → request.mutates = true →
    r ∈ request.progress.response → r.ok = true → m ∈ s.effects
  kept : ∀ key entry, s.cache key = some entry → ∀ m, Underway s m → m ∈ entry.response.effects

theorem fresh_initial (now : Int) : Fresh (initial now) where
  applied := fun m request r h => by
    rw [initial, List.getElem?_nil] at h
    cases h
  kept := fun _ _ h => (nomatch h)

theorem step_fresh {s : State} (h : Fresh s) {a : Act} (hkeeps : KeepsNothingOlder s a) :
    Fresh (step newURL origin s a) where
  applied := by
    intro m request r hrequest hmutates hr hok
    cases step_came s a hrequest with
    | same hold => exact step_effects s a (h.applied m request r hold hmutates hr hok)
    | made hmade =>
      obtain ⟨key, entry, hentry, -⟩ := (beginFetch_request hmade).2 r hr
      rw [invalidate_mutates hmutates] at hentry
      cases hentry
    | advanced hold hadvances =>
      refine step_effects s a ?_
      cases hadvances with
      | produced status hsent hserver =>
        cases hr
        rw [mayProduce, Bool.or_eq_true, decide_eq_true_eq] at hserver
        refine hserver.resolve_left fun hnot => ?_
        rw [Request.mutates] at hmutates hnot
        rw [hmutates, hok] at hnot
        cases hnot
      | arrived r' hproduced =>
        cases hr
        exact h.applied m _ r hold hmutates (by rw [hproduced]; rfl) hok
      | failed => cases hr
  kept := by
    intro key entry hentry m hunderway
    rcases step_underway hunderway with hbefore | hcleared
    · rcases step_cache hentry with hold | ⟨i, request, rfl, hrequest, hproduced, hstores⟩
      · exact h.kept key entry hold m hbefore
      · refine hkeeps request hrequest entry.response ?_ hstores m (underway_lt hbefore) hbefore
        rw [hproduced]
        rfl
    · rw [hcleared key] at hentry
      cases hentry

/-- A request that is answered, if it is, by a response that has seen certain effects. -/
structure Since (k : Nat) (P : Nat → Prop) (s : State) : Prop where
  made : k < s.requests.length
  applied : ∀ m, P m → m ∈ s.effects
  answered : ∀ request r, s.requests[k]? = some request → r ∈ request.progress.response →
    ∀ m, P m → m ∈ r.effects

theorem step_since {k : Nat} {P : Nat → Prop} {s : State} (h : Since k P s) (a : Act) :
    Since k P (step newURL origin s a) where
  made := h.made.trans_le (step_requests s a)
  applied := fun m hm => step_effects s a (h.applied m hm)
  answered := by
    intro request r hrequest hr m hm
    cases step_came s a hrequest with
    | same hold => exact h.answered request r hold hr m hm
    | made hmade => exact absurd h.made (lt_irrefl _)
    | advanced hold hadvances =>
      cases hadvances with
      | produced status hsent hserver =>
        cases hr
        exact h.applied m hm
      | arrived r' hproduced =>
        cases hr
        exact h.answered _ r hold (by rw [hproduced]; rfl) m hm
      | failed => cases hr

theorem since_replay {k : Nat} {P : Nat → Prop} {s : State} (h : Since k P s) (history : List Act) :
    Since k P (replay (step newURL origin) s history) := by
  have hstep : ∀ s a, Since k P s → Since k P (step newURL origin s a) :=
    fun s a hs => step_since hs a
  exact replay_keeps hstep h history

/-- A request that has just been made is answered from the cache, if at all, by a response that
is younger than every mutating request which has completed. -/
theorem fetch_since {s : State} (h : Fresh s) (input : FetchInput) :
    Since s.requests.length (Completed s) (step newURL origin s (.fetch input)) where
  made := by simp [step, beginFetch]
  applied := by
    rintro m ⟨request, r, hrequest, hmutates, hreturned, hok⟩
    exact h.applied m request r hrequest hmutates (by rw [hreturned]; rfl) hok
  answered := by
    rintro request r hrequest hr m ⟨request', r', hrequest', hmutates, hreturned, hok⟩
    obtain ⟨key, entry, hentry, rfl⟩ := (beginFetch_request hrequest).2 r hr
    have hunderway : request'.underway = true := by
      refine Request.underway_iff.2 ⟨hmutates, ?_⟩
      rw [hreturned]
      refine ⟨nofun, fun r hr => ?_⟩
      cases hr
      exact hok
    exact h.kept key entry (invalidate_kept hentry) m ⟨request', hrequest', hunderway⟩

/-- A request is never answered by a response that the server produced before a mutating
request took effect which had completed when the request was made. -/
theorem fetch_current {now : Int} {before after : List Act} {input : FetchInput}
    (h : EachStep (step newURL origin) KeepsNothingOlder (initial now)
      (before ++ .fetch input :: after))
    {request : Request} {r : Response}
    (hrequest : (replay (step newURL origin) (initial now) (before ++ .fetch input :: after)).requests[
      (replay (step newURL origin) (initial now) before).requests.length]? = some request)
    (hreturned : request.progress = .returned r) {m : Nat}
    (hm : Completed (replay (step newURL origin) (initial now) before) m) : m ∈ r.effects := by
  obtain ⟨hbefore, hafter⟩ := eachStep_append.1 h
  have hstep : ∀ s a, Fresh s → KeepsNothingOlder s a → Fresh (step newURL origin s a) :=
    fun s a hs ha => step_fresh hs ha
  have hfresh := replay_keeps_each hstep (fresh_initial now) hbefore
  rw [replay_append, replay_cons] at hrequest
  refine (since_replay (fetch_since hfresh input) after).answered request r hrequest ?_ m hm
  rw [hreturned]
  rfl

end Steps

/-- Paths of one origin. -/
def lexigoURL (path base : String) : Option Url := some ⟨base, path, "", ""⟩

def readProgress : FetchInput := { address := "/api/v1/progress", authorization := some "Bearer t" }

def submitReview : FetchInput :=
  { address := "/api/v1/reviews", method := some "POST", authorization := some "Bearer t" }

/-- A review is submitted while the progress is on its way. -/
def overtakenRead : List Act :=
  [.fetch readProgress, .produce 0 200, .fetch submitReview, .arrive 0, .takeEffect 1,
    .produce 1 204, .arrive 1]

def readBefore : List Act :=
  [.fetch readProgress, .produce 0 200, .arrive 0, .fetch submitReview, .takeEffect 1,
    .produce 1 204, .arrive 1]

abbrev lexigoStep : State → Act → State := step lexigoURL (some "https://lexigo.test")

abbrev lexigoReplay (history : List Act) : State := replay lexigoStep (initial 0) history

def progressRequest (progress : Progress) : Request :=
  ⟨clientRequestDetails lexigoURL (some "https://lexigo.test") readProgress, progress⟩

def reviewRequest (progress : Progress) : Request :=
  ⟨clientRequestDetails lexigoURL (some "https://lexigo.test") submitReview, progress⟩

theorem readBefore_current :
    (lexigoReplay (readBefore ++ .fetch readProgress :: [.produce 2 200, .arrive 2])).requests[
      (lexigoReplay readBefore).requests.length]? =
        some (progressRequest (.returned ⟨200, [1]⟩)) ∧ 1 ∈ (⟨200, [1]⟩ : Response).effects := by
  have hrun : EachStep lexigoStep KeepsNothingOlder (initial 0)
      (readBefore ++ .fetch readProgress :: [.produce 2 200, .arrive 2]) := by decide +kernel
  have hrequest : (lexigoReplay (readBefore ++ .fetch readProgress ::
      [.produce 2 200, .arrive 2])).requests[(lexigoReplay readBefore).requests.length]? =
        some (progressRequest (.returned ⟨200, [1]⟩)) := by decide +kernel
  have hcompleted : Completed (lexigoReplay readBefore) 1 :=
    ⟨reviewRequest (.returned ⟨204, [1]⟩), ⟨204, [1]⟩, by decide +kernel⟩
  exact ⟨hrequest, fetch_current hrun hrequest rfl hcompleted⟩

/-- The progress from before the review is served once more after it. -/
theorem overtakenRead_stale :
    Completed (lexigoReplay overtakenRead) 1 ∧ (lexigoReplay overtakenRead).requests.length = 2 ∧
      (lexigoReplay (overtakenRead ++ [.fetch readProgress])).requests[2]? =
        some (progressRequest (.returned ⟨200, []⟩)) ∧ 1 ∉ (⟨200, []⟩ : Response).effects :=
  ⟨⟨reviewRequest (.returned ⟨204, [1]⟩), ⟨204, [1]⟩, by decide +kernel⟩, by decide +kernel,
    by decide +kernel, List.not_mem_nil⟩

end RequestCache
