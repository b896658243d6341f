import Mathlib.Data.List.Nodup
import Mathlib.Data.List.FinRange
import Mathlib.Data.List.ReduceOption
import Mathlib.Tactic.Tauto

/-!
# Asynchronous networks and calls to a group of servers

A `Network` is two logs: the messages that were sent and the messages that were delivered, newest
first. A message is in flight when it was sent and not yet delivered. Delivery order is free, and
nothing here forbids that a message is delivered twice; a system whose channel delivers at most
once says so in the guard of its runs.

`Calls` is the pattern of a client that asks every server of a group and counts answers. A call has
a name `κ`; issuing it sends one request to each server, a server that handles its request sends
one answer under the same name, and the client collects answers. `Calls.WellFormed` states what
this bookkeeping guarantees when every name is issued at most once and every message is delivered
at most once: for each server and each name there is one request and one answer. From it
`Calls.nodup_readings_server`: the answers collected for one name come from pairwise different
servers, so counting answers counts servers.
-/

set_option autoImplicit false
set_option relaxedAutoImplicit false

/-- A network as the log of the messages sent and the log of the messages delivered. -/
structure Network (μ : Type*) where
  /-- The messages sent so far, newest first. -/
  sent : List μ
  /-- The messages delivered so far, newest first. -/
  delivered : List μ

namespace Network

variable {μ : Type*}

/-- The network on which nothing has happened. -/
def empty : Network μ := ⟨[], []⟩

/-- Send messages. -/
def send (net : Network μ) (messages : List μ) : Network μ :=
  { net with sent := messages ++ net.sent }

/-- Deliver a message. -/
def deliver (net : Network μ) (message : μ) : Network μ :=
  { net with delivered := message :: net.delivered }

/-- No message with the property is in flight: all that were sent have been delivered. -/
def NoneInFlight (net : Network μ) (P : μ → Prop) : Prop :=
  ∀ m ∈ net.sent, P m → m ∈ net.delivered

instance [DecidableEq μ] (net : Network μ) (P : μ → Prop) [DecidablePred P] :
    Decidable (net.NoneInFlight P) :=
  inferInstanceAs (Decidable (∀ m ∈ net.sent, P m → m ∈ net.delivered))

@[simp] theorem sent_empty : (empty : Network μ).sent = [] := rfl

@[simp] theorem delivered_empty : (empty : Network μ).delivered = [] := rfl

@[simp] theorem sent_send (net : Network μ) (messages : List μ) :
    (net.send messages).sent = messages ++ net.sent := rfl

@[simp] theorem delivered_send (net : Network μ) (messages : List μ) :
    (net.send messages).delivered = net.delivered := rfl

@[simp] theorem sent_deliver (net : Network μ) (message : μ) :
    (net.deliver message).sent = net.sent := rfl

@[simp] theorem delivered_deliver (net : Network μ) (message : μ) :
    (net.deliver message).delivered = message :: net.delivered := rfl

@[simp] theorem send_nil (net : Network μ) : net.send [] = net := rfl

/-! ### The messages delivered under a name -/

section Readings

variable {ι κ α : Type*} [DecidableEq κ]

/-- The messages delivered under a name with the members they came from, oldest first. -/
def readings (net : Network (ι × κ × α)) (name : κ) : List (ι × α) :=
  (net.delivered.filterMap fun m ↦ if m.2.1 = name then some (m.1, m.2.2) else none).reverse

variable {net : Network (ι × κ × α)} {name : κ}

/-- A reading is a delivered message. -/
theorem mem_readings {i : ι} {a : α} :
    (i, a) ∈ net.readings name ↔ (i, name, a) ∈ net.delivered := by
  simp only [readings, List.mem_reverse, List.mem_filterMap, Prod.exists]
  constructor
  · rintro ⟨j, other, b, hmem, hsome⟩
    split_ifs at hsome with hname
    obtain ⟨rfl, rfl⟩ := by simpa using hsome
    exact hname ▸ hmem
  · intro hmem
    exact ⟨i, name, a, hmem, by simp⟩

/-- Delivering a message under the name appends it to the readings. -/
theorem readings_deliver_self (i : ι) (name : κ) (a : α) :
    (net.deliver (i, name, a)).readings name = net.readings name ++ [(i, a)] := by
  simp [readings]

/-- Delivering a message under another name leaves the readings as they are. -/
theorem readings_deliver_of_ne {message : ι × κ × α} (hne : message.2.1 ≠ name) :
    (net.deliver message).readings name = net.readings name := by
  simp [readings, hne]

@[simp] theorem readings_send (name : κ) (messages : List (ι × κ × α)) :
    (net.send messages).readings name = net.readings name := rfl

/-- If no message is delivered twice, no reading occurs twice. -/
theorem nodup_readings (honce : net.delivered.Nodup) : (net.readings name).Nodup := by
  refine List.nodup_reverse.mpr (honce.filterMap fun m m' b hm hm' ↦ ?_)
  simp only [Option.mem_def] at hm hm'
  split_ifs at hm hm' with hname hname'
  have hboth := hm.trans hm'.symm
  simp only [Option.some.injEq, Prod.mk.injEq] at hboth
  exact Prod.ext hboth.1 (Prod.ext (hname.trans hname'.symm) hboth.2)

end Readings

end Network

/-- Calls of named requests to a group of servers `ι`, with the requests and the answers as two
networks. A message carries the server, the name of the call and its content. -/
structure Calls (ι κ : Type*) (req ans : Type*) where
  /-- The requests to the servers. -/
  requests : Network (ι × κ × req)
  /-- The answers of the servers. -/
  answers : Network (ι × κ × ans)

namespace Calls

variable {n : ℕ} {κ req ans : Type*}

/-- No call was made. -/
def empty : Calls (Fin n) κ req ans := ⟨Network.empty, Network.empty⟩

/-- Issue a call: one request to each server. -/
def issue (calls : Calls (Fin n) κ req ans) (name : κ) (content : Fin n → req) :
    Calls (Fin n) κ req ans :=
  { calls with
    requests := calls.requests.send ((List.finRange n).map fun i ↦ (i, name, content i)) }

/-- A server handles a request. -/
def serve (calls : Calls (Fin n) κ req ans) (message : Fin n × κ × req) :
    Calls (Fin n) κ req ans :=
  { calls with requests := calls.requests.deliver message }

/-- A server sends an answer. -/
def answer (calls : Calls (Fin n) κ req ans) (message : Fin n × κ × ans) :
    Calls (Fin n) κ req ans :=
  { calls with answers := calls.answers.send [message] }

/-- A client collects an answer. -/
def collect (calls : Calls (Fin n) κ req ans) (message : Fin n × κ × ans) :
    Calls (Fin n) κ req ans :=
  { calls with answers := calls.answers.deliver message }

/-- The name was used by some request. -/
def Issued (calls : Calls (Fin n) κ req ans) (name : κ) : Prop :=
  ∃ i content, (i, name, content) ∈ calls.requests.sent

section Fields

variable (calls : Calls (Fin n) κ req ans) (name : κ) (content : Fin n → req)
  (request : Fin n × κ × req) (reply : Fin n × κ × ans)

@[simp] theorem requests_issue : (calls.issue name content).requests =
    calls.requests.send ((List.finRange n).map fun i ↦ (i, name, content i)) := rfl

@[simp] theorem answers_issue : (calls.issue name content).answers = calls.answers := rfl

@[simp] theorem requests_serve : (calls.serve request).requests =
    calls.requests.deliver request := rfl

@[simp] theorem answers_serve : (calls.serve request).answers = calls.answers := rfl

@[simp] theorem requests_answer : (calls.answer reply).requests = calls.requests := rfl

@[simp] theorem answers_answer : (calls.answer reply).answers = calls.answers.send [reply] := rfl

@[simp] theorem requests_collect : (calls.collect reply).requests = calls.requests := rfl

@[simp] theorem answers_collect : (calls.collect reply).answers = calls.answers.deliver reply := rfl

@[simp] theorem requests_empty : (empty : Calls (Fin n) κ req ans).requests = Network.empty := rfl

@[simp] theorem answers_empty : (empty : Calls (Fin n) κ req ans).answers = Network.empty := rfl

end Fields

/-- A request is among those a new call sends exactly when it carries the name and the content for
its server. -/
theorem mem_issueRequests {name : κ} {content : Fin n → req} {i : Fin n} {other : κ} {c : req} :
    (i, other, c) ∈ (List.finRange n).map (fun i ↦ (i, name, content i)) ↔
      other = name ∧ c = content i := by
  simp only [List.mem_map, List.mem_finRange, true_and, Prod.mk.injEq]
  constructor
  · rintro ⟨j, rfl, rfl, rfl⟩
    exact ⟨rfl, rfl⟩
  · rintro ⟨rfl, rfl⟩
    exact ⟨i, rfl, rfl, rfl⟩

/-! ### Bookkeeping of calls that are issued once and delivered once -/

/-- One request and one answer for each server and name, every answer to a handled request, and
answers collected once. -/
structure WellFormed (calls : Calls (Fin n) κ req ans) : Prop where
  /-- Only requests that were sent are handled. -/
  served : ∀ m ∈ calls.requests.delivered, m ∈ calls.requests.sent
  /-- A server has one request for each name. -/
  request_unique : ∀ {i name c c'}, (i, name, c) ∈ calls.requests.sent →
    (i, name, c') ∈ calls.requests.sent → c = c'
  /-- Every answer is to a handled request. -/
  answered : ∀ {i name a}, (i, name, a) ∈ calls.answers.sent →
    ∃ c, (i, name, c) ∈ calls.requests.delivered
  /-- A server has one answer for each name. -/
  answer_unique : ∀ {i name a a'}, (i, name, a) ∈ calls.answers.sent →
    (i, name, a') ∈ calls.answers.sent → a = a'
  /-- Only answers that were sent are collected. -/
  collected : ∀ m ∈ calls.answers.delivered, m ∈ calls.answers.sent
  /-- No answer is collected twice. -/
  once : calls.answers.delivered.Nodup

variable {calls : Calls (Fin n) κ req ans}

theorem wellFormed_empty : (empty : Calls (Fin n) κ req ans).WellFormed where
  served := by simp
  request_unique := by simp
  answered := by simp
  answer_unique := by simp
  collected := by simp
  once := by simp

/-- Every answer was sent to a call that was issued. -/
theorem WellFormed.issued_of_answer (h : calls.WellFormed) {i : Fin n} {name : κ} {a : ans}
    (ha : (i, name, a) ∈ calls.answers.sent) : calls.Issued name := by
  obtain ⟨c, hc⟩ := h.answered ha
  exact ⟨i, c, h.served _ hc⟩

/-- Issuing a call under a new name keeps the bookkeeping. -/
theorem WellFormed.issue (h : calls.WellFormed) {name : κ} {content : Fin n → req}
    (hnew : ¬ calls.Issued name) : (calls.issue name content).WellFormed where
  served := fun m hm ↦ List.mem_append_right _ (h.served m hm)
  request_unique := by
    intro i other c c' hc hc'
    rw [requests_issue, Network.sent_send, List.mem_append, mem_issueRequests] at hc hc'
    rcases hc with ⟨rfl, rfl⟩ | hc <;> rcases hc' with ⟨hname, rfl⟩ | hc'
    · rfl
    · exact absurd ⟨i, c', hc'⟩ hnew
    · exact absurd ⟨i, c, hname ▸ hc⟩ hnew
    · exact h.request_unique hc hc'
  answered := h.answered
  answer_unique := h.answer_unique
  collected := h.collected
  once := h.once

/-- Handling a request for the first time and answering it keeps the bookkeeping. -/
theorem WellFormed.serve_answer (h : calls.WellFormed) {i : Fin n} {name : κ} {c : req} {a : ans}
    (hsent : (i, name, c) ∈ calls.requests.sent)
    (honce : (i, name, c) ∉ calls.requests.delivered) :
    ((calls.serve (i, name, c)).answer (i, name, a)).WellFormed where
  served := fun m hm ↦ by
    rcases List.mem_cons.mp hm with rfl | hm
    · exact hsent
    · exact h.served m hm
  request_unique := h.request_unique
  answered := by
    intro j other b hb
    rcases List.mem_cons.mp hb with heq | hb
    · obtain ⟨rfl, rfl, rfl⟩ := by simpa using heq
      exact ⟨c, List.mem_cons_self ..⟩
    · obtain ⟨d, hd⟩ := h.answered hb
      exact ⟨d, List.mem_cons_of_mem _ hd⟩
  answer_unique := by
    -- an earlier answer under this name would have handled the same request before
    have hfirst : ∀ b, (i, name, b) ∉ calls.answers.sent := by
      intro b hb
      obtain ⟨d, hd⟩ := h.answered hb
      exact honce (h.request_unique hsent (h.served _ hd) ▸ hd)
    intro j other b b' hb hb'
    rcases List.mem_cons.mp hb with heq | hold <;> rcases List.mem_cons.mp hb' with heq' | hold'
    · obtain ⟨rfl, rfl, rfl⟩ := by simpa using heq
      obtain ⟨-, -, rfl⟩ := by simpa using heq'
      rfl
    · obtain ⟨rfl, rfl, rfl⟩ := by simpa using heq
      exact absurd hold' (hfirst _)
    · obtain ⟨rfl, rfl, rfl⟩ := by simpa using heq'
      exact absurd hold (hfirst _)
    · exact h.answer_unique hold hold'
  collected := fun m hm ↦ List.mem_cons_of_mem _ (h.collected m hm)
  once := h.once

/-- Handling a request for the first time without an answer keeps the bookkeeping. -/
theorem WellFormed.serve (h : calls.WellFormed) {request : Fin n × κ × req}
    (hsent : request ∈ calls.requests.sent) : (calls.serve request).WellFormed where
  served := fun m hm ↦ by
    rcases List.mem_cons.mp hm with rfl | hm
    · exact hsent
    · exact h.served m hm
  request_unique := h.request_unique
  answered := fun ha ↦ by
    obtain ⟨c, hc⟩ := h.answered ha
    exact ⟨c, List.mem_cons_of_mem _ hc⟩
  answer_unique := h.answer_unique
  collected := h.collected
  once := h.once

/-- Collecting an answer for the first time keeps the bookkeeping. -/
theorem WellFormed.collect (h : calls.WellFormed) {reply : Fin n × κ × ans}
    (hsent : reply ∈ calls.answers.sent) (honce : reply ∉ calls.answers.delivered) :
    (calls.collect reply).WellFormed where
  served := h.served
  request_unique := h.request_unique
  answered := h.answered
  answer_unique := h.answer_unique
  collected := fun m hm ↦ by
    rcases List.mem_cons.mp hm with rfl | hm
    · exact hsent
    · exact h.collected m hm
  once := List.nodup_cons.mpr ⟨honce, h.once⟩

/-! ### The answers collected for one name -/

section Readings

variable [DecidableEq κ]

/-- The answers collected for a name with the servers they came from, oldest first. -/
def readings (calls : Calls (Fin n) κ req ans) (name : κ) : List (Fin n × ans) :=
  calls.answers.readings name

/-- A reading is a collected answer. -/
theorem mem_readings {name : κ} {i : Fin n} {a : ans} :
    (i, a) ∈ calls.readings name ↔ (i, name, a) ∈ calls.answers.delivered :=
  Network.mem_readings

/-- Collecting an answer to the name appends it to the readings. -/
theorem readings_collect_self (i : Fin n) (name : κ) (a : ans) :
    (calls.collect (i, name, a)).readings name = calls.readings name ++ [(i, a)] :=
  Network.readings_deliver_self i name a

/-- Collecting an answer to another name leaves the readings as they are. -/
theorem readings_collect_of_ne {reply : Fin n × κ × ans} {name : κ} (hne : reply.2.1 ≠ name) :
    (calls.collect reply).readings name = calls.readings name :=
  Network.readings_deliver_of_ne hne

@[simp] theorem readings_issue (name other : κ) (content : Fin n → req) :
    (calls.issue other content).readings name = calls.readings name := rfl

@[simp] theorem readings_serve (name : κ) (request : Fin n × κ × req) :
    (calls.serve request).readings name = calls.readings name := rfl

@[simp] theorem readings_answer (name : κ) (reply : Fin n × κ × ans) :
    (calls.answer reply).readings name = calls.readings name := rfl

/-- A name that was not issued has no readings. -/
theorem WellFormed.readings_eq_nil (h : calls.WellFormed) {name : κ}
    (hnew : ¬ calls.Issued name) : calls.readings name = [] := by
  refine List.eq_nil_iff_forall_not_mem.mpr fun ⟨i, a⟩ hmem ↦ hnew ?_
  exact h.issued_of_answer (h.collected _ (mem_readings.mp hmem))

/-- The readings of one name come from pairwise different servers. -/
theorem WellFormed.nodup_readings_server (h : calls.WellFormed) (name : κ) :
    ((calls.readings name).map Prod.fst).Nodup := by
  have hnodup : (calls.readings name).Nodup := Network.nodup_readings h.once
  refine hnodup.map_on fun x hx y hy heq ↦ ?_
  have hx' := h.collected _ (mem_readings.mp (show (x.1, x.2) ∈ calls.readings name from hx))
  have hy' := h.collected _ (mem_readings.mp (show (y.1, y.2) ∈ calls.readings name from hy))
  rw [← heq] at hy'
  exact Prod.ext heq (h.answer_unique hx' hy')

end Readings

end Calls
