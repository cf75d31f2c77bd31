import Mathlib.Logic.Function.Basic
import SwaptoshiService.Lib.Except
import SwaptoshiService.Lib.JsonText
import SwaptoshiService.Lib.Run

/-!
# The cache of RPC answers

The action `call` of the gateway (`shared/moleculer-io/index.js`) keeps what it answers to a request
for a few seconds, under its method and its parameters: `${method}:${JSON.stringify(params)}`. The
requests of all namespaces share the cache, and many of them are under way at a time.

A key says what was asked for (`cacheKey_inj`): no method goes over into the parameters of another
one. So in every run an answer is what a namespace was answered by the service for **the same method
and parameters**, for this request or, less than the time of expiry after it was stored, for another
one that was answered while it was under way (`rpc_cache`). Errors and empty answers are never taken
from the cache.
-/

namespace SwaptoshiService

namespace RpcCache

open JsonText

/-- `JSON.stringify(params)`; there may be no parameters. -/
def paramsText (params : Option Value) : List Char := params.elim "undefined".toList text

/-- `rpcRequestCacheKey` -/
def cacheKey (method : String) (params : Option Value) : List Char :=
  method.toList ++ ':' :: paramsText params

theorem closed_paramsText (params : Option Value) :
    Closed (paramsText params) ∧ Guarded (paramsText params) := by
  cases params with
  | none => exact closed_literal (by decide) (by decide)
  | some v => exact closed_text v

theorem paramsText_injective : Function.Injective paramsText := by
  have hne (v : Value) : text v ≠ "undefined".toList := by
    intro h
    have hhead := kindOf_head v []
    rw [h] at hhead
    cases hhead
  rintro (_ | v) (_ | v') h
  · rfl
  · exact absurd h.symm (hne v')
  · exact absurd h (hne v)
  · rw [text_injective h]

/-- **The key of a request.** -/
theorem cacheKey_inj {method method' : String} {params params' : Option Value}
    (h : cacheKey method params = cacheKey method' params') :
    method = method' ∧ params = params' := by
  obtain ⟨hmethod, hparams⟩ :=
    append_colon_inj (closed_paramsText params) (closed_paramsText params') h
  exact ⟨String.ext hmethod, paramsText_injective hparams⟩

/-! ### Requests -/

/-- The settings of a namespace. -/
structure HandlerItem (ε ρ : Type) where
  aliases : Option (String → Option String)
  restrict : Bool
  whitelist : Option (String → Bool)
  onBeforeCall : Option (String → Option Value → Except ε (Option Value))
  onAfterCall : Option (String → ρ → Except ε (Option ρ))

/-- What the gateway calls, and what it is answered at a time. -/
structure Broker (ε ρ : Type) where
  serviceNotFound : String → ε
  /-- Whether the endpoint of an action is published, if there is one. -/
  published : ℕ → String → Except ε Bool
  call : ℕ → String → Option Value → Except ε ρ

section Requests

variable {ε ρ : Type} (broker : Broker ε ρ) (item : HandlerItem ε ρ)

/-- The action that a method stands for, at the time `t`. -/
def HandlerItem.resolve (t : ℕ) (method : String) : Except ε String := do
  let action ← match item.aliases.bind (· method) with
    | some action => pure action
    | none => if item.restrict then throw (broker.serviceNotFound method) else pure method
  if item.whitelist.any fun allowed => !allowed action then
    throw (broker.serviceNotFound action)
  else
    let published ← broker.published t action
    if published then pure action else throw (broker.serviceNotFound action)

/-- What comes before the cache: the action and the parameters. -/
def HandlerItem.prepare (t : ℕ) (method : String) (params : Option Value) :
    Except ε (String × Option Value) := do
  let action ← item.resolve broker t method
  match item.onBeforeCall with
  | some onBeforeCall => return (action, ← onBeforeCall method params)
  | none => return (action, params)

/-- `ctx.call` and `onAfterCall`, when the service answers at the time `t`. -/
def HandlerItem.served (t : ℕ) (method action : String) (params : Option Value) :
    Except ε ρ := do
  let res ← broker.call t action params
  match item.onAfterCall with
  | some onAfterCall => do
    let transformed ← onAfterCall method res
    pure (transformed.getD res)
  | none => pure res

end Requests

/-! ### The cache -/

/-- An answer that is kept. -/
structure Entry (ρ : Type) where
  response : ρ
  expiresAt : ℕ

/-- A request whose parameters are checked and transformed. -/
structure Request (ε ρ : Type) where
  item : HandlerItem ε ρ
  receivedAt : ℕ
  method : String
  action : String
  params : Option Value

/-- How far a request has come. -/
inductive Phase (ε ρ : Type)
  | looking (r : Request ε ρ)
  | calling (r : Request ε ρ)
  | storing (r : Request ε ρ) (res : ρ) (computedAt : ℕ)

structure Answer (ε ρ : Type) where
  request : Request ε ρ
  result : Except ε ρ
  time : ℕ

structure World (ε ρ : Type) where
  now : ℕ
  cache : List Char → Option (Entry ρ)
  running : ℕ → Option (Phase ε ρ)
  answers : List (Answer ε ρ)

section Steps

variable {ε ρ : Type}

/-- `rpcCache.get(key)` -/
def World.get (w : World ε ρ) (key : List Char) : Option ρ :=
  ((w.cache key).filter fun e => w.now < e.expiresAt).map Entry.response

def World.setPhase (w : World ε ρ) (id : ℕ) (phase : Option (Phase ε ρ)) : World ε ρ :=
  { w with running := Function.update w.running id phase }

/-- The request is over. -/
def World.answer (w : World ε ρ) (id : ℕ) (r : Request ε ρ) (result : Except ε ρ) : World ε ρ :=
  { w with
    running := Function.update w.running id none
    answers := w.answers ++ [⟨r, result, w.now⟩] }

variable (broker : Broker ε ρ) (isValidNonEmptyResponse : ρ → Bool) (overJson : ρ → ρ) (ttl : ℕ)

/-- `rpcCache.set(key, JSON.stringify(res), ttl)`, unless the answer is empty. -/
def store (w : World ε ρ) (r : Request ε ρ) (res : ρ) : World ε ρ :=
  if isValidNonEmptyResponse res then
    { w with
      cache := Function.update w.cache (cacheKey r.method r.params)
        (some ⟨overJson res, w.now + ttl⟩) }
  else w

inductive Action
  | tick
  | receive
  | lookup
  | respond
  | store
  | evict

/-- The steps of the requests, in any order. -/
inductive Step (enable : Bool) : World ε ρ → Action → World ε ρ → Prop
  | tick (w : World ε ρ) : Step enable w .tick { w with now := w.now + 1 }
  | rejected {w : World ε ρ} (id : ℕ) (item : HandlerItem ε ρ) (method : String)
      (params : Option Value) {e : ε} (hid : w.running id = none)
      (he : item.prepare broker w.now method params = .error e) :
      Step enable w .receive (w.answer id ⟨item, w.now, method, method, params⟩ (.error e))
  | receive {w : World ε ρ} (id : ℕ) (item : HandlerItem ε ρ) (method : String)
      (params : Option Value) {action : String} {params' : Option Value}
      (hid : w.running id = none)
      (hparams : item.prepare broker w.now method params = .ok (action, params')) :
      Step enable w .receive (w.setPhase id (some
        (if enable then .looking ⟨item, w.now, method, action, params'⟩
        else .calling ⟨item, w.now, method, action, params'⟩)))
  | hit {w : World ε ρ} (id : ℕ) {r : Request ε ρ} {res : ρ}
      (hid : w.running id = some (.looking r))
      (hget : w.get (cacheKey r.method r.params) = some res) :
      Step enable w .lookup (w.answer id r (.ok res))
  | miss {w : World ε ρ} (id : ℕ) {r : Request ε ρ} (hid : w.running id = some (.looking r))
      (hget : w.get (cacheKey r.method r.params) = none) :
      Step enable w .lookup (w.setPhase id (some (.calling r)))
  | failed {w : World ε ρ} (id : ℕ) {r : Request ε ρ} {e : ε}
      (hid : w.running id = some (.calling r))
      (he : r.item.served broker w.now r.method r.action r.params = .error e) :
      Step enable w .respond (w.answer id r (.error e))
  | respond {w : World ε ρ} (id : ℕ) {r : Request ε ρ} {res : ρ}
      (hid : w.running id = some (.calling r))
      (hres : r.item.served broker w.now r.method r.action r.params = .ok res) :
      Step enable w .respond (w.setPhase id (some (.storing r res w.now)))
  | store {w : World ε ρ} (id : ℕ) {r : Request ε ρ} {res : ρ} {computedAt : ℕ}
      (hid : w.running id = some (.storing r res computedAt)) :
      Step enable w .store ((if enable then
        RpcCache.store isValidNonEmptyResponse overJson ttl w r res else w).answer id r (.ok res))
  | evict (w : World ε ρ) (key : List Char) :
      Step enable w .evict { w with cache := Function.update w.cache key none }

/-! ### What an answer is -/

/-- What the namespace is answered for the request at a time. -/
def Request.served (r : Request ε ρ) (t : ℕ) : Except ε ρ :=
  r.item.served broker t r.method r.action r.params

/-- The namespace admits the request when it comes, and makes these parameters. -/
def Request.Admitted (r : Request ε ρ) : Prop :=
  ∃ params, r.item.prepare broker r.receivedAt r.method params = .ok (r.action, r.params)

/-- A response of the service, for this request and while it was under way. -/
def Answer.Own (a : Answer ε ρ) : Prop :=
  ∃ t, a.request.receivedAt ≤ t ∧ t ≤ a.time ∧ a.request.served broker t = a.result

/-- A response for an admitted request `r`, that is not empty and was stored at the time `t`. -/
def Stored (r : Request ε ρ) (t : ℕ) (response : ρ) : Prop :=
  r.Admitted broker ∧ ∃ t₀ res, r.receivedAt ≤ t₀ ∧ t₀ ≤ t ∧ r.served broker t₀ = .ok res ∧
    isValidNonEmptyResponse res ∧ response = overJson res

/-- A response that was stored for a request for the same, and has not expired. -/
def Answer.Shared (a : Answer ε ρ) : Prop :=
  ∃ r t response, a.result = .ok response ∧ t ≤ a.time ∧ a.time < t + ttl ∧
    r.method = a.request.method ∧ r.params = a.request.params ∧
    Stored broker isValidNonEmptyResponse overJson r t response

/-- The namespace refuses the request. -/
def Answer.Rejected (a : Answer ε ρ) : Prop :=
  ∃ e, a.result = .error e ∧
    a.request.item.prepare broker a.request.receivedAt a.request.method a.request.params = .error e

end Steps

/-! ### What holds in every run -/

section Sound

variable {ε ρ : Type} {broker : Broker ε ρ} {isValidNonEmptyResponse : ρ → Bool}
  {overJson : ρ → ρ} {ttl : ℕ} {enable : Bool} {w w' : World ε ρ} {act : Action}

def Phase.request : Phase ε ρ → Request ε ρ
  | .looking r => r
  | .calling r => r
  | .storing r _ _ => r

/-- **The invariant.** -/
structure World.Sound (broker : Broker ε ρ) (isValidNonEmptyResponse : ρ → Bool)
    (overJson : ρ → ρ) (ttl : ℕ) (enable : Bool) (w : World ε ρ) : Prop where
  /-- What is kept under a key was stored for a request with this key. -/
  cache : ∀ key e, w.cache key = some e → enable = true ∧
    ∃ r t, key = cacheKey r.method r.params ∧ t ≤ w.now ∧ e.expiresAt = t + ttl ∧
      Stored broker isValidNonEmptyResponse overJson r t e.response
  admitted : ∀ id phase, w.running id = some phase →
    phase.request.Admitted broker ∧ phase.request.receivedAt ≤ w.now
  looking : ∀ id r, w.running id = some (.looking r) → enable = true
  storing : ∀ id r res t, w.running id = some (.storing r res t) →
    r.receivedAt ≤ t ∧ t ≤ w.now ∧ r.served broker t = .ok res
  answers : ∀ a ∈ w.answers, a.Rejected broker ∨ (a.request.Admitted broker ∧
    (a.Own broker ∨ enable = true ∧ a.Shared broker isValidNonEmptyResponse overJson ttl))

theorem eq_some_of_update {α β : Type} [DecidableEq α] {f : α → Option β} {i j : α} {x : Option β}
    {b : β} (h : Function.update f i x j = some b) : (j = i ∧ x = some b) ∨ f j = some b := by
  by_cases heq : j = i
  · subst heq
    rw [Function.update_self] at h
    exact .inl ⟨rfl, h⟩
  · rw [Function.update_of_ne heq] at h
    exact .inr h

theorem store_now (w : World ε ρ) (r : Request ε ρ) (res : ρ) :
    (store isValidNonEmptyResponse overJson ttl w r res).now = w.now := by
  rw [store]
  split_ifs <;> rfl

namespace World.Sound

/-- A request goes on. -/
theorem setPhase (h : w.Sound broker isValidNonEmptyResponse overJson ttl enable) {id : ℕ}
    {phase : Phase ε ρ}
    (hadmitted : phase.request.Admitted broker ∧ phase.request.receivedAt ≤ w.now)
    (hlooking : ∀ r, phase = .looking r → enable = true)
    (hstoring : ∀ r res t, phase = .storing r res t →
      r.receivedAt ≤ t ∧ t ≤ w.now ∧ r.served broker t = .ok res) :
    (w.setPhase id (some phase)).Sound broker isValidNonEmptyResponse overJson ttl enable := by
  refine { h with admitted := ?_, looking := ?_, storing := ?_ }
  · intro id' phase' hid'
    rcases eq_some_of_update hid' with ⟨-, hnew⟩ | hold
    · obtain rfl := Option.some.inj hnew
      exact hadmitted
    · exact h.admitted id' phase' hold
  · intro id' r hid'
    rcases eq_some_of_update hid' with ⟨-, hnew⟩ | hold
    · exact hlooking r (Option.some.inj hnew)
    · exact h.looking id' r hold
  · intro id' r res t hid'
    rcases eq_some_of_update hid' with ⟨-, hnew⟩ | hold
    · exact hstoring r res t (Option.some.inj hnew)
    · exact h.storing id' r res t hold

/-- A request ends. -/
theorem answer (h : w.Sound broker isValidNonEmptyResponse overJson ttl enable) (id : ℕ)
    (r : Request ε ρ) (result : Except ε ρ)
    (hanswer : (⟨r, result, w.now⟩ : Answer ε ρ).Rejected broker ∨ (r.Admitted broker ∧
      ((⟨r, result, w.now⟩ : Answer ε ρ).Own broker ∨ enable = true ∧
        (⟨r, result, w.now⟩ : Answer ε ρ).Shared broker isValidNonEmptyResponse overJson ttl))) :
    (w.answer id r result).Sound broker isValidNonEmptyResponse overJson ttl enable := by
  have hrunning {id' : ℕ} {phase : Phase ε ρ}
      (hid' : (w.answer id r result).running id' = some phase) : w.running id' = some phase :=
    (eq_some_of_update hid').resolve_left fun hnew => nomatch hnew.2
  exact { h with
    admitted := fun id' phase hid' => h.admitted id' phase (hrunning hid')
    looking := fun id' r' hid' => h.looking id' r' (hrunning hid')
    storing := fun id' r' res t hid' => h.storing id' r' res t (hrunning hid')
    answers := List.forall_mem_append.mpr ⟨h.answers, List.forall_mem_singleton.mpr hanswer⟩ }

/-- A response is stored. -/
theorem store (h : w.Sound broker isValidNonEmptyResponse overJson ttl true) {r : Request ε ρ}
    {res : ρ} {t : ℕ} (hadmitted : r.Admitted broker) (hreceived : r.receivedAt ≤ t)
    (ht : t ≤ w.now) (hres : r.served broker t = .ok res) :
    (RpcCache.store isValidNonEmptyResponse overJson ttl w r res).Sound broker
      isValidNonEmptyResponse overJson ttl true := by
  rw [RpcCache.store]
  split_ifs with hvalid
  · refine { h with cache := fun key e he => ?_ }
    rcases eq_some_of_update he with ⟨rfl, hnew⟩ | hold
    · obtain rfl := Option.some.inj hnew
      exact ⟨rfl, r, w.now, rfl, le_rfl, rfl, hadmitted, t, res, hreceived, ht, hres, hvalid, rfl⟩
    · exact h.cache key e hold
  · exact h

/-- What is found is a response for the same method and parameters. -/
theorem get (h : w.Sound broker isValidNonEmptyResponse overJson ttl enable) {r : Request ε ρ}
    {res : ρ} (hget : w.get (cacheKey r.method r.params) = some res) :
    (⟨r, .ok res, w.now⟩ : Answer ε ρ).Shared broker isValidNonEmptyResponse overJson ttl := by
  obtain ⟨e, he, rfl⟩ := Option.map_eq_some_iff.mp hget
  obtain ⟨hcache, hlive⟩ := Option.filter_eq_some_iff.mp he
  obtain ⟨-, r', t, hkey, ht, hexpires, hstored⟩ := h.cache _ e hcache
  obtain ⟨hmethod, hparams⟩ := cacheKey_inj hkey
  exact ⟨r', t, e.response, rfl, ht, hexpires ▸ of_decide_eq_true hlive, hmethod.symm,
    hparams.symm, hstored⟩

end World.Sound

/-- **One step.** -/
theorem Step.sound
    (hstep : Step broker isValidNonEmptyResponse overJson ttl enable w act w')
    (h : w.Sound broker isValidNonEmptyResponse overJson ttl enable) :
    w'.Sound broker isValidNonEmptyResponse overJson ttl enable := by
  cases hstep with
  | tick =>
    refine { h with
      cache := fun key e he => ?_
      admitted := fun id phase hid => ?_
      storing := fun id r res t hid => ?_ }
    · obtain ⟨henable, r, t, hkey, ht, hrest⟩ := h.cache key e he
      exact ⟨henable, r, t, hkey, Nat.le_succ_of_le ht, hrest⟩
    · obtain ⟨hadmitted, hreceived⟩ := h.admitted id phase hid
      exact ⟨hadmitted, Nat.le_succ_of_le hreceived⟩
    · obtain ⟨hreceived, ht, hres⟩ := h.storing id r res t hid
      exact ⟨hreceived, Nat.le_succ_of_le ht, hres⟩
  | rejected id item method params hid he => exact h.answer id _ _ (.inl ⟨_, rfl, he⟩)
  | receive id item method params hid hparams =>
    refine h.setPhase ?_ (fun r hr => ?_) (fun r res t hr => ?_)
    · split_ifs <;> exact ⟨⟨params, hparams⟩, le_rfl⟩
    · split_ifs at hr with henable
      exact henable
    · split_ifs at hr
  | @hit id r res hid hget =>
    have hadmitted := h.admitted id _ hid
    have henable := h.looking id r hid
    exact h.answer id r _ (.inr ⟨hadmitted.1, .inr ⟨henable, h.get hget⟩⟩)
  | @miss id r hid hget =>
    have hadmitted := h.admitted id _ hid
    exact h.setPhase hadmitted nofun nofun
  | @failed id r e hid he =>
    obtain ⟨hadmitted, hreceived⟩ := h.admitted id _ hid
    exact h.answer id r _ (.inr ⟨hadmitted, .inl ⟨w.now, hreceived, le_rfl, he⟩⟩)
  | @respond id r res hid hres =>
    have hadmitted := h.admitted id _ hid
    refine h.setPhase hadmitted nofun ?_
    rintro _ _ _ ⟨⟩
    exact ⟨hadmitted.2, le_rfl, hres⟩
  | @store id r res computedAt hid =>
    have hadmitted := (h.admitted id _ hid).1
    obtain ⟨hreceived, ht, hres⟩ := h.storing id r res computedAt hid
    -- The broker answered after the request came, whether or not the answer is stored.
    cases enable with
    | false => exact h.answer id r _ (.inr ⟨hadmitted, .inl ⟨computedAt, hreceived, ht, hres⟩⟩)
    | true =>
      refine (h.store hadmitted hreceived ht hres).answer id r _ (.inr ⟨hadmitted, .inl ?_⟩)
      exact ⟨computedAt, hreceived, ht.trans (store_now ..).ge, hres⟩
  | evict key =>
    refine { h with cache := fun key' e he => ?_ }
    exact h.cache key' e ((eq_some_of_update he).resolve_left fun hnew => nomatch hnew.2)

/-- Nothing is cached, under way or answered. -/
structure World.Fresh (w : World ε ρ) : Prop where
  cache : ∀ key, w.cache key = none
  running : ∀ id, w.running id = none
  answers : w.answers = []

theorem World.Fresh.sound (h : w.Fresh) :
    w.Sound broker isValidNonEmptyResponse overJson ttl enable where
  cache key e he := by
    rw [h.cache] at he
    cases he
  admitted id phase hid := by
    rw [h.running] at hid
    cases hid
  looking id r hid := by
    rw [h.running] at hid
    cases hid
  storing id r res t hid := by
    rw [h.running] at hid
    cases hid
  answers a ha := by
    rw [h.answers] at ha
    cases ha

/-- **The cache of answers.** In every run of requests a request is refused by its namespace, or it
is admitted, and answered as the service answers it, or as it was answered for another request for
the same, less than the time of expiry ago. -/
theorem rpc_cache {w₀ : World ε ρ} (hw₀ : w₀.Fresh)
    (hrun : Run (Step broker isValidNonEmptyResponse overJson ttl enable) Unrestricted w₀ w) :
    ∀ a ∈ w.answers, a.Rejected broker ∨ (a.request.Admitted broker ∧
      (a.Own broker ∨ enable = true ∧ a.Shared broker isValidNonEmptyResponse overJson ttl)) :=
  (hrun.invariant (World.Sound broker isValidNonEmptyResponse overJson ttl enable) hw₀.sound
    fun _ _ _ h _ hstep => hstep.sound h).answers

/-- Of two requests of two namespaces the second one is answered from the cache. -/
theorem rpc_cache_twoRequests :
    let broker : Broker String ℕ := ⟨id, fun _ _ => .ok true, fun t _ _ => .ok t⟩
    let test : HandlerItem String ℕ := ⟨none, false, none, none, some fun _ n => .ok (some (n + 1))⟩
    let r : Request String ℕ := ⟨test, 0, "get.blocks", "get.blocks", none⟩
    let a : Answer String ℕ := ⟨r, .ok 0, 0⟩
    a.Rejected broker ∨ (a.request.Admitted broker ∧
      (a.Own broker ∨ true = true ∧ a.Shared broker (fun _ => true) id 5)) := by
  intro broker test r a
  have hrun : Run (Step broker (fun _ => true) id 5 true) Unrestricted _ _ :=
    (((((Run.refl (s := ⟨0, fun _ => none, fun _ => none, []⟩)).tail
      (.receive 1 ⟨none, false, none, none, none⟩ "get.blocks" none rfl rfl) trivial).tail
      (.miss 1 rfl rfl) trivial).tail
      (.respond 1 rfl rfl) trivial).tail
      (.store 1 rfl) trivial).tail
      (.receive 2 test "get.blocks" none rfl rfl) trivial
  refine rpc_cache ⟨fun _ => rfl, fun _ => rfl, rfl⟩
    (hrun.tail (.hit 2 (r := r) rfl (?_ : _ = some 0)) trivial) a
    (List.mem_cons_of_mem _ List.mem_cons_self)
  simp only [World.get, World.setPhase, World.answer, store, if_true]
  simp [r]

end Sound

end RpcCache

end SwaptoshiService
