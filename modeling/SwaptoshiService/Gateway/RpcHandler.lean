import Mathlib.Data.Int.Notation
import Mathlib.Data.List.Basic
import Mathlib.Data.List.Induction
import Mathlib.Logic.Function.Basic

/-!
# Batches of requests over a socket

A client sends one request or several in an array, and either gives a callback or waits for an event
(`gateway/shared/moleculer-io/index.js`). The requests are performed side by side. One that succeeds
calls the callback **by itself** and returns nothing, so that the handler, which looks for an error
in what was returned, throws; the callback is called once more, and a socket sends only what a
callback is called with first.

`rpc_batch_iff`: whatever order the requests end in, a batch is answered by the answers to all
requests, in the order of the requests, if and only if there is no callback or no request succeeds.
Otherwise the client gets the answer to the request that succeeds first, and no other. A request
that is not in an array is always answered.
-/

namespace SwaptoshiService

namespace RpcHandler

/-- `id` of a request; `0` and the empty text are as good as none. -/
inductive RequestId
  | number (n : ℕ)
  | text (s : String)
  deriving DecidableEq

/-- A request; a `method` that is no text counts as missing. -/
structure Request (π : Type) where
  jsonrpc : Option String
  id : Option RequestId
  method : Option String
  params : π

/-- What `svc.actions.call` throws; the message may be an object with a code of its own. -/
structure CallError where
  code : Option ℕ
  message : String ⊕ ℤ × String

/-- `addJsonRpcEnvelope(id, result)` and `addErrorEnvelope(id, code, message)`. -/
inductive Envelope (ρ : Type)
  | result (id : RequestId) (result : ρ)
  | error (id : RequestId) (code : ℤ) (message : String)

def invalidRequest : ℤ := -32600

def methodNotFound : ℤ := -32601

def serverError : ℤ := -32000

/-- `translateHttpToRpcCode(code)` -/
def translateHttpToRpcCode (code : Option ℕ) : ℤ :=
  if code = some 404 then methodNotFound
  else if code = some 400 then invalidRequest
  else serverError

section Code

variable {π ρ : Type}

/-- `request.id || requests.indexOf(request) + 1` -/
def idAt (request : Request π) (i : ℕ) : RequestId :=
  match request.id with
  | some (.number (n + 1)) => .number (n + 1)
  | some (.text s) => if s = "" then .number (i + 1) else .text s
  | _ => .number (i + 1)

variable (strictMode : Bool) (inspect : Request π → String)
  (call : Request π → String → Except CallError ρ)

/-- `performClientRequest(jsonRpcInput, id)`: the envelope that it makes. -/
def performClientRequest (request : Request π) (id : RequestId) : Envelope ρ :=
  if strictMode && request.jsonrpc ≠ some "2.0" then
    .error id invalidRequest ("Client input error: The given data is not a proper JSON-RPC 2.0 " ++
      "request: " ++ inspect request)
  else
    match request.method with
    | none | some "" =>
      .error id invalidRequest ("Client input error: Missing method in the request " ++
        inspect request)
    | some action =>
      match call request action with
      | .ok res => .result id res
      | .error ⟨code, .inl message⟩ =>
        if code = none ∨ code = some 0 ∨ code = some 500 then
          .error id (translateHttpToRpcCode code) ("Server error: " ++ message)
        else .error id (translateHttpToRpcCode code) message
      | .error ⟨_, .inr (code, message)⟩ => .error id code message

/-- The envelope for each request. -/
def envelopes (requests : List (Request π)) : List (Envelope ρ) :=
  requests.mapIdx fun i request =>
    performClientRequest strictMode inspect call request (idAt request i)

end Code

/-! ### The handler -/

section Handler

variable {ρ : Type}

def Envelope.isResult : Envelope ρ → Bool
  | .result .. => true
  | .error .. => false

/-- What a client gets: an answer, the answers to a batch, or that the handler has thrown. -/
inductive Message (ρ : Type)
  | single (envelope : Envelope ρ)
  | batch (envelopes : List (Envelope ρ))
  | thrown

/-- What the requests have returned so far, what was sent, and whether the handler has thrown. -/
structure Progress (ρ : Type) where
  returned : ℕ → Option (Envelope ρ)
  sent : Option (Message ρ)
  thrown : Bool

/-- Only the first message is sent. -/
def Progress.respond (s : Progress ρ) (message : Message ρ) : Progress ρ :=
  { s with sent := s.sent.or (some message) }

/-- A request ends. With a callback, a result is answered at once and nothing is returned, and what
`response.error` throws is answered, too. -/
def Progress.finish (callback : Bool) (s : Progress ρ) (i : ℕ) (envelope : Envelope ρ) :
    Progress ρ :=
  if callback && envelope.isResult then
    { (s.respond (.single envelope)).respond .thrown with thrown := true }
  else { s with returned := Function.update s.returned i (some envelope) }

/-- Requests end one after another. -/
def finishAll (callback : Bool) (envelopes : List (Envelope ρ)) (order : List ℕ) : Progress ρ :=
  order.foldl (fun s i => match envelopes[i]? with
    | some envelope => s.finish callback i envelope
    | none => s) ⟨fun _ => none, none, false⟩

/-- All requests have ended, or one has made the handler throw: then the others need not begin. -/
def Progress.Over (s : Progress ρ) (n : ℕ) : Prop :=
  s.thrown = true ∨ ∀ i < n, (s.returned i).isSome

/-- `[response] = data` for one request, `response = data` for a batch. -/
def responseOf (singleResponse : Bool) (data : List (Envelope ρ)) : Message ρ :=
  match singleResponse, data with
  | true, response :: _ => .single response
  | _, _ => .batch data

/-- What is sent in the end. -/
def answer (callback singleResponse : Bool) (envelopes : List (Envelope ρ)) (order : List ℕ) :
    Option (Message ρ) :=
  let s := finishAll callback envelopes order
  if s.thrown then s.sent
  else
    let data := (List.range envelopes.length).filterMap s.returned
    (s.respond (responseOf singleResponse data)).sent

variable {callback : Bool} {es : List (Envelope ρ)} {order : List ℕ} {i : ℕ}

/-- The request that succeeds first. -/
def firstResult (es : List (Envelope ρ)) (order : List ℕ) : Option (Envelope ρ) :=
  order.findSome? fun i => es[i]?.filter Envelope.isResult

theorem mem_of_firstResult {envelope : Envelope ρ} (h : firstResult es order = some envelope) :
    envelope ∈ es ∧ envelope.isResult = true := by
  obtain ⟨i, -, hi⟩ := List.exists_of_findSome?_eq_some h
  obtain ⟨hget, hresult⟩ := Option.filter_eq_some_iff.mp hi
  exact ⟨List.mem_of_getElem? hget, hresult⟩

theorem finishAll_concat (callback : Bool) (es : List (Envelope ρ)) (order : List ℕ) (i : ℕ) :
    finishAll callback es (order ++ [i]) = match es[i]? with
      | some envelope => (finishAll callback es order).finish callback i envelope
      | none => finishAll callback es order := by
  rw [finishAll, List.foldl_append]
  rfl

theorem firstResult_concat (es : List (Envelope ρ)) (order : List ℕ) (i : ℕ) :
    firstResult es (order ++ [i]) =
      (firstResult es order).or (es[i]?.filter Envelope.isResult) := by
  rw [firstResult, List.findSome?_append, List.findSome?_singleton, firstResult]

/-- **Without a result**, or without a callback, everything is returned. -/
theorem finishAll_of_none (h : callback = false ∨ firstResult es order = none) :
    (finishAll callback es order).thrown = false ∧ (finishAll callback es order).sent = none ∧
      ∀ i, (finishAll callback es order).returned i = if i ∈ order then es[i]? else none := by
  induction order using List.reverseRecOn with
  | nil => exact ⟨rfl, rfl, fun i => rfl⟩
  | append_singleton order j ih =>
    have hj : callback = false ∨ es[j]?.filter Envelope.isResult = none :=
      h.imp_right fun hnone => by
        rw [firstResult_concat, Option.or_eq_none_iff] at hnone
        exact hnone.2
    obtain ⟨hthrown, hsent, hreturned⟩ := ih (h.imp_right fun hnone => by
      rw [firstResult_concat, Option.or_eq_none_iff] at hnone
      exact hnone.1)
    rw [finishAll_concat]
    cases hget : es[j]? with
    | none =>
      refine ⟨hthrown, hsent, fun i => ?_⟩
      simp only [hreturned, List.mem_append, List.mem_singleton]
      by_cases hij : i = j
      · subst hij
        simp [hget]
      · simp [hij]
    | some envelope =>
      have hnot : (callback && envelope.isResult) = false := by
        rcases hj with rfl | hnone
        · rfl
        · rw [hget, Option.filter_eq_none_iff] at hnone
          simpa using fun _ => hnone envelope rfl
      simp only [Progress.finish, hnot, Bool.false_eq_true, if_false]
      refine ⟨hthrown, hsent, fun i => ?_⟩
      simp only [List.mem_append, List.mem_singleton]
      by_cases hij : i = j
      · subst hij
        simp [hget]
      · simp [hreturned, hij]

/-- **With a callback**, the first result is sent, and after it nothing. -/
theorem finishAll_of_result {envelope : Envelope ρ} (h : firstResult es order = some envelope) :
    (finishAll true es order).thrown = true ∧
      (finishAll true es order).sent = some (.single envelope) := by
  induction order using List.reverseRecOn with
  | nil => cases h
  | append_singleton order j ih =>
    rw [firstResult_concat] at h
    rw [finishAll_concat]
    cases hfirst : firstResult es order with
    | none =>
      rw [hfirst, Option.none_or] at h
      obtain ⟨hget, hresult⟩ := Option.filter_eq_some_iff.mp h
      have hnot : true = false ∨ firstResult es order = none := .inr hfirst
      obtain ⟨-, hsent, -⟩ := finishAll_of_none hnot
      simp [hget, Progress.finish, hresult, Progress.respond, hsent]
    | some envelope' =>
      rw [hfirst, Option.some_or] at h
      obtain ⟨hthrown, hsent⟩ := ih (hfirst.trans h)
      cases es[j]? with
      | none => exact ⟨hthrown, hsent⟩
      | some last =>
        simp only [Progress.finish]
        split_ifs
        · exact ⟨rfl, by simp [Progress.respond, hsent]⟩
        · exact ⟨hthrown, hsent⟩

theorem filterMap_range_getElem? (es : List (Envelope ρ)) :
    ((List.range es.length).filterMap fun i => es[i]?) = es := by
  induction es using List.reverseRecOn with
  | nil => rfl
  | append_singleton es e ih =>
    have hget : ∀ i ∈ List.range es.length, (es ++ [e])[i]? = es[i]? := fun i hi =>
      List.getElem?_append_left (List.mem_range.mp hi)
    rw [List.length_append, List.length_singleton, List.range_succ, List.filterMap_append,
      List.filterMap_congr hget, ih]
    simp

/-- A result is the first one, or comes after it. -/
theorem exists_firstResult (hover : (finishAll true es order).Over es.length) {e : Envelope ρ}
    (he : e ∈ es) (hresult : e.isResult = true) : ∃ e', firstResult es order = some e' := by
  by_contra hnot
  have hnone := Option.eq_none_iff_forall_ne_some.mpr (not_exists.mp hnot)
  have hnone' : true = false ∨ firstResult es order = none := .inr hnone
  obtain ⟨hthrown, -, hreturned⟩ := finishAll_of_none hnone'
  have hall := hover.resolve_left (by rw [hthrown]; exact Bool.false_ne_true)
  obtain ⟨i, hi, hget⟩ := List.mem_iff_getElem.mp he
  have hsome := hall i hi
  rw [hreturned] at hsome
  split_ifs at hsome with hmem
  · rw [firstResult, List.findSome?_eq_none_iff] at hnone
    have hskip := hnone i hmem
    rw [List.getElem?_eq_getElem hi, hget, Option.filter_some, if_pos hresult] at hskip
    cases hskip
  · cases hsome

/-- What is sent when nothing has thrown. -/
theorem answer_of_none (h : callback = false ∨ firstResult es order = none)
    (hover : (finishAll callback es order).Over es.length) (singleResponse : Bool) :
    answer callback singleResponse es order = some (responseOf singleResponse es) := by
  obtain ⟨hthrown, hsent, hreturned⟩ := finishAll_of_none h
  have hall := hover.resolve_left (by rw [hthrown]; exact Bool.false_ne_true)
  have hdata : (List.range es.length).filterMap (finishAll callback es order).returned = es := by
    have hget : ∀ i ∈ List.range es.length,
        (finishAll callback es order).returned i = es[i]? := by
      intro i hi
      have hsome := hall i (List.mem_range.mp hi)
      rw [hreturned] at hsome ⊢
      split_ifs at hsome ⊢
      · rfl
      · cases hsome
    rw [List.filterMap_congr hget, filterMap_range_getElem?]
  rw [answer, hthrown, if_neg Bool.false_ne_true, hdata]
  exact congrArg (Option.or · _) hsent

end Handler

/-- **Batches.** When a batch is over, in whatever order its requests have ended, the answers to all
its requests are sent in their order if and only if there is no callback or no request succeeds;
with a callback, the answer to the request that succeeds first is sent instead. One request that is
not in an array is answered in any case. -/
theorem rpc_batch_iff {π ρ : Type} (strictMode : Bool) (inspect : Request π → String)
    (call : Request π → String → Except CallError ρ) (requests : List (Request π))
    (callback : Bool) (order : List ℕ) :
    let es := envelopes strictMode inspect call requests
    (finishAll callback es order).Over es.length →
      (answer callback false es order = some (.batch es) ↔
        callback = false ∨ ∀ e ∈ es, e.isResult = false) ∧
      (callback = true → ∀ e, firstResult es order = some e →
        answer callback false es order = some (.single e)) ∧
      ∀ e, es = [e] → answer callback true es order = some (.single e) := by
  intro es hover
  have hresult {e : Envelope ρ} (hcallback : callback = true) (he : firstResult es order = some e)
      (singleResponse : Bool) : answer callback singleResponse es order = some (.single e) := by
    subst hcallback
    obtain ⟨hthrown, hsent⟩ := finishAll_of_result he
    rw [answer, hthrown, if_pos rfl, hsent]
  refine ⟨⟨fun hbatch => ?_, fun h => ?_⟩, fun hcallback e he => hresult hcallback he false,
    fun e hes => ?_⟩
  · by_contra hnot
    push Not at hnot
    obtain ⟨hcallback, e, he, hsuccess⟩ := hnot
    have hcallback : callback = true := by simpa using hcallback
    obtain ⟨e', he'⟩ := exists_firstResult (hcallback ▸ hover) he (by simpa using hsuccess)
    rw [hresult hcallback he' false] at hbatch
    cases hbatch
  · refine answer_of_none (h.imp_right fun hall => ?_) hover false
    refine Option.eq_none_iff_forall_ne_some.mpr fun e he => ?_
    obtain ⟨hmem, hsuccess⟩ := mem_of_firstResult he
    rw [hall e hmem] at hsuccess
    cases hsuccess
  · cases hfirst : firstResult es order with
    | none =>
      rw [answer_of_none (.inr hfirst) hover true, hes]
      rfl
    | some e' =>
      cases hcallback : callback with
      | false =>
        rw [hcallback] at hover
        rw [answer_of_none (.inl rfl) hover true, hes]
        rfl
      | true =>
        have hanswer := hresult hcallback hfirst true
        have hmem := (mem_of_firstResult hfirst).1
        rw [hes, List.mem_singleton] at hmem
        rwa [hcallback, hmem] at hanswer

/-- A request for the blocks and one for the transactions. -/
def twoRequests : List (Request Unit) :=
  [⟨some "2.0", some (.number 4), some "get.blocks", ()⟩,
    ⟨some "2.0", some (.number 5), some "get.transactions", ()⟩]

/-- The second request ends first, and its answer is all that is sent. -/
theorem rpc_batch_twoRequests :
    answer true false (envelopes false (fun _ => "") (fun _ action => .ok action) twoRequests)
      [1, 0] = some (.single (.result (.number 5) "get.transactions")) :=
  (rpc_batch_iff false (fun _ => "") (fun _ action => .ok action) twoRequests true [1, 0]
    (.inl rfl)).2.1 rfl _ rfl

end RpcHandler

end SwaptoshiService
