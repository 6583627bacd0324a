/-
Notifications (`alerts/notify.go`).

An alert goes to every enabled channel at once, each in a goroutine of its own that fills one place of a shared slice;
the summary is made when all of them are done. A channel is tried a second time after no answer and after a server
error, unless the wait is cut short by a shutdown or by the deadline. The JSON encoder and the network are parameters;
the encoder is total, for these payloads make `json.Marshal` fail only when an alert fired after the year 9999.

Results:
- `deliver_attempts`: how often a channel is tried, and why again;
- `deliver_redacted`: the token of a Telegram channel does not get into the error of a request without an answer;
- `outcomes_complete`: the slice does not depend on the order in which the channels are done;
- `deliverAll_sound`: what the one result of an alert says about all its channels.
-/
import LogDeck.Lib.GoQuote
import LogDeck.Lib.ReplaceAll
import LogDeck.Alerts.Engine

namespace LogDeck.Alerts

open LogDeck.Config (AlertChannel)
open ReplaceAll (replaceAll not_infix_replaceAll)

/-- what has come of the delivery of an alert; no HTTP status is 0, no error is empty -/
structure DeliveryResult where
  status : String
  httpStatus : ℕ
  error : String
deriving DecidableEq, Repr, Inhabited

/-- an alert as the history has it -/
structure HistoryEntry extends Alert where
  id : String
  delivery : Option DeliveryResult
deriving DecidableEq, Repr

/-! ## Requests -/

inductive Payload where
  | webhook (source : String) (version : ℕ) (text content : String) (alert : HistoryEntry)
  | gotify (title message : String) (priority : ℕ)
  | telegram (chatID text : String)
deriving DecidableEq, Repr

structure RequestSpec where
  method : String
  url : String
  headers : List (String × String)
  body : String
  /-- kept out of delivery errors; empty when there is none -/
  secret : String
deriving DecidableEq, Repr

def gotifyPriority : ℕ := 5

def alertTitle : String := "LogDeck alert"

def redactSecret (msg secret : String) : String :=
  if secret = "" then msg else String.ofList (replaceAll secret.toList "***".toList msg.toList)

def alertText (a : Alert) : String :=
  let target := a.host ++ (if a.containerName ≠ "" then "/" ++ a.containerName else "")
  if target ≠ "" then "LogDeck alert: " ++ a.ruleName ++ ": " ++ a.reason ++ " (" ++ target ++ ")"
  else "LogDeck alert: " ++ a.ruleName ++ ": " ++ a.reason

/-- `strings.TrimRight(s, "/")` -/
def trimRightSlashes (s : String) : String := String.ofList (s.toList.reverse.dropWhile (· = '/')).reverse

def buildRequestSpec (marshal : Payload → String) (ch : AlertChannel) (alert : HistoryEntry) :
    Except String RequestSpec :=
  let text := alertText alert.toAlert
  if ch.type = "webhook" then
    .ok { method := "POST", url := ch.url, headers := [("Content-Type", "application/json")]
          body := marshal (.webhook "logdeck" 1 text text alert), secret := "" }
  else if ch.type = "ntfy" then
    .ok { method := "POST", url := ch.url
          headers := [("Title", alertTitle), ("Priority", "high"), ("Tags", "warning")]
          body := text, secret := "" }
  else if ch.type = "gotify" then
    .ok { method := "POST", url := trimRightSlashes ch.url ++ "/message"
          headers := [("Content-Type", "application/json"), ("X-Gotify-Key", ch.token)]
          body := marshal (.gotify alertTitle text gotifyPriority), secret := "" }
  else if ch.type = "telegram" then
    .ok { method := "POST", url := "https://api.telegram.org/bot" ++ ch.token ++ "/sendMessage"
          headers := [("Content-Type", "application/json")]
          body := marshal (.telegram ch.target text), secret := ch.token }
  else .error ("unknown channel type " ++ GoQuote.quote ch.type)

/-! ## Delivery to one channel -/

/-- what comes back for a request -/
inductive Reply where
  /-- no request can be made of it -/
  | invalid (err : String)
  | noAnswer (err : String)
  | answer (statusCode : ℕ) (status : String)
deriving DecidableEq, Repr

def Reply.Accepts : Reply → Prop
  | .answer statusCode _ => 200 ≤ statusCode ∧ statusCode < 300
  | .invalid _ | .noAnswer _ => False

instance : DecidablePred Reply.Accepts
  | .answer statusCode _ => inferInstanceAs (Decidable (200 ≤ statusCode ∧ statusCode < 300))
  | .invalid _ | .noAnswer _ => .isFalse id

/-- the result of a reply, and whether to try again -/
def attempt (spec : RequestSpec) : Reply → DeliveryResult × Bool
  | .invalid err => ({ status := "failed", httpStatus := 0, error := redactSecret err spec.secret }, false)
  | .noAnswer err => ({ status := "failed", httpStatus := 0, error := redactSecret err spec.secret }, true)
  | .answer statusCode status =>
    if 200 ≤ statusCode ∧ statusCode < 300 then ({ status := "ok", httpStatus := statusCode, error := "" }, false)
    else
      ({ status := "failed", httpStatus := statusCode, error := "channel returned " ++ status },
        decide (500 ≤ statusCode))

/-- what one channel meets -/
structure Network where
  first : RequestSpec → Reply
  second : RequestSpec → Reply
  /-- the wait before the second attempt runs to its end -/
  waits : Bool

/-- the result, and the replies to the requests that were made -/
def deliver (marshal : Payload → String) (net : Network) (ch : AlertChannel) (alert : HistoryEntry) :
    DeliveryResult × List Reply :=
  match buildRequestSpec marshal ch alert with
  | .error err => ({ status := "failed", httpStatus := 0, error := err }, [])
  | .ok spec =>
    let (result, retryable) := attempt spec (net.first spec)
    if retryable ∧ net.waits then ((attempt spec (net.second spec)).1, [net.first spec, net.second spec])
    else (result, [net.first spec])

/-! ## Delivery to all channels -/

structure ChannelOutcome where
  channel : AlertChannel
  result : DeliveryResult
deriving Inhabited

def enabledChannels (channels : List AlertChannel) : List AlertChannel := channels.filter AlertChannel.enabled

def channelLabel (ch : AlertChannel) : String := if ch.name ≠ "" then ch.name else ch.type

def failure (o : ChannelOutcome) : Option String :=
  if o.result.status = "ok" then none
  else some (channelLabel o.channel ++ ": " ++ (if o.result.error = "" then o.result.status else o.result.error))

def summarizeDeliveries (outcomes : List ChannelOutcome) : DeliveryResult :=
  let failed := outcomes.filterMap failure
  { status := if failed.length > 0 then "failed" else "ok"
    httpStatus := match outcomes with
      | [o] => o.result.httpStatus
      | _ => 0
    error := if failed.length > 0 then "; ".intercalate failed else "" }

/-- the order in which the goroutines of n channels are done; each is waited for -/
structure Schedule (n : ℕ) where
  order : List ℕ
  complete : ∀ i < n, i ∈ order

/-- one goroutine is done -/
def fill (marshal : Payload → String) (nets : ℕ → Network) (channels : List AlertChannel) (alert : HistoryEntry)
    (outcomes : List ChannelOutcome) (i : ℕ) : List ChannelOutcome :=
  match channels[i]? with
  | none => outcomes
  | some ch => outcomes.set i { channel := ch, result := (deliver marshal (nets i) ch alert).1 }

def deliverAll (marshal : Payload → String) (nets : ℕ → Network) (channels : List AlertChannel)
    (schedule : Schedule channels.length) (alert : HistoryEntry) : DeliveryResult :=
  summarizeDeliveries
    (schedule.order.foldl (fill marshal nets channels alert) (List.replicate channels.length default))

/-! ## One channel -/

section
variable {marshal : Payload → String} {spec : RequestSpec} {net : Network} {ch : AlertChannel} {alert : HistoryEntry}

theorem attempt_ok (r : Reply) : (attempt spec r).1.status = "ok" ↔ r.Accepts := by
  cases r with
  | invalid err => simp [attempt, Reply.Accepts]
  | noAnswer err => simp [attempt, Reply.Accepts]
  | answer statusCode status =>
    by_cases haccepts : 200 ≤ statusCode ∧ statusCode < 300
    · simp [attempt, Reply.Accepts, haccepts]
    · simp only [attempt, Reply.Accepts, haccepts, if_false, iff_false]
      decide

/-- no answer, or a server error -/
def Reply.Retryable : Reply → Prop
  | .noAnswer _ => True
  | .answer statusCode _ => 500 ≤ statusCode
  | .invalid _ => False

theorem attempt_retryable (r : Reply) : (attempt spec r).2 = true ↔ r.Retryable := by
  cases r with
  | invalid err => simp [attempt, Reply.Retryable]
  | noAnswer err => simp [attempt, Reply.Retryable]
  | answer statusCode status =>
    by_cases haccepts : 200 ≤ statusCode ∧ statusCode < 300
    · simp only [attempt, Reply.Retryable, haccepts, and_self, if_true, Bool.false_eq_true, false_iff, not_le]
      omega
    · simp [attempt, Reply.Retryable, haccepts]

/-- the error of a reply that is no answer, with the secret taken out -/
theorem attempt_redacted {r : Reply} (hanswer : ∀ statusCode status, r ≠ .answer statusCode status) :
    ∃ err, (attempt spec r).1.error = redactSecret err spec.secret := by
  cases r with
  | invalid err => exact ⟨err, rfl⟩
  | noAnswer err => exact ⟨err, rfl⟩
  | answer statusCode status => exact absurd rfl (hanswer statusCode status)

/-- a channel is delivered to when the last reply accepts -/
theorem deliver_ok :
    (deliver marshal net ch alert).1.status = "ok" ↔
      ∃ r, (deliver marshal net ch alert).2.getLast? = some r ∧ r.Accepts := by
  unfold deliver
  cases buildRequestSpec marshal ch alert with
  | error err => simp
  | ok spec =>
    dsimp only
    split_ifs with hagain
    · simp [attempt_ok]
    · simp [attempt_ok]

/-- a channel is tried at most twice, the second time after no answer or a server error and a wait to its end -/
theorem deliver_attempts :
    (deliver marshal net ch alert).2.length ≤ 2 ∧
      ∀ r r', (deliver marshal net ch alert).2 = [r, r'] → r.Retryable ∧ net.waits = true := by
  unfold deliver
  cases buildRequestSpec marshal ch alert with
  | error err => simp
  | ok spec =>
    dsimp only
    split_ifs with hagain
    · refine ⟨Nat.le_refl 2, fun r r' hreplies => ?_⟩
      obtain ⟨rfl, -⟩ := List.cons.inj hreplies
      exact ⟨(attempt_retryable _).1 hagain.1, hagain.2⟩
    · simp

/-- the token of a Telegram channel is not in the error of requests that were not answered -/
theorem deliver_redacted (htype : ch.type = "telegram") (htoken : ch.token ≠ "") (hstar : '*' ∉ ch.token.toList)
    (hanswer : ∀ r ∈ (deliver marshal net ch alert).2, ∀ statusCode status, r ≠ .answer statusCode status) :
    ¬ ch.token.toList <:+: (deliver marshal net ch alert).1.error.toList := by
  have hsafe : ∀ err, ¬ ch.token.toList <:+: (redactSecret err ch.token).toList := by
    intro err
    rw [redactSecret, if_neg htoken, String.toList_ofList]
    apply not_infix_replaceAll
    · decide
    · simpa using htoken
    · intro a ha hmem
      have hmark : a = '*' := by simpa using hmem
      exact hstar (hmark ▸ ha)
  unfold deliver at hanswer ⊢
  have hspec : ∃ spec, buildRequestSpec marshal ch alert = .ok spec ∧ spec.secret = ch.token := by
    simp [buildRequestSpec, htype]
  obtain ⟨spec, hspec, hsecret⟩ := hspec
  rw [hspec] at hanswer ⊢
  dsimp only at hanswer ⊢
  split_ifs at hanswer ⊢ with hagain
  · obtain ⟨err, herr⟩ := @attempt_redacted spec (net.second spec) (hanswer _ (by simp))
    rw [herr, hsecret]
    exact hsafe err
  · obtain ⟨err, herr⟩ := @attempt_redacted spec (net.first spec) (hanswer _ (by simp))
    rw [herr, hsecret]
    exact hsafe err

end

/-! ## All channels -/

section
variable {marshal : Payload → String} {nets : ℕ → Network} {channels : List AlertChannel} {alert : HistoryEntry}

/-- what the goroutine of a channel puts into the slice -/
def outcomeOf (marshal : Payload → String) (nets : ℕ → Network) (alert : HistoryEntry) (i : ℕ) (ch : AlertChannel) :
    ChannelOutcome :=
  { channel := ch, result := (deliver marshal (nets i) ch alert).1 }

theorem fill_length (outcomes : List ChannelOutcome) (i : ℕ) :
    (fill marshal nets channels alert outcomes i).length = outcomes.length := by
  unfold fill
  cases channels[i]? with
  | none => rfl
  | some ch => exact List.length_set

/-- a place is filled once its goroutine is done, and keeps what it was filled with -/
theorem fills_getElem? (order : List ℕ) {outcomes : List ChannelOutcome} (hlen : outcomes.length = channels.length)
    (i : ℕ) :
    (order.foldl (fill marshal nets channels alert) outcomes)[i]? =
      if i ∈ order then (channels[i]?).map (outcomeOf marshal nets alert i) else outcomes[i]? := by
  induction order generalizing outcomes with
  | nil => simp
  | cons j order ih =>
    rw [List.foldl_cons, ih ((fill_length outcomes j).trans hlen)]
    by_cases hmem : i ∈ order
    · simp [hmem]
    · simp only [hmem, if_false, List.mem_cons, or_false]
      unfold fill
      by_cases hij : i = j
      · subst hij
        cases hch : channels[i]? with
        | none =>
          have hout : channels.length ≤ i := List.getElem?_eq_none_iff.1 hch
          simp [hlen, hout]
        | some ch =>
          have hin : i < outcomes.length := hlen ▸ (List.getElem?_eq_some_iff.1 hch).1
          simp [hin, outcomeOf]
      · cases channels[j]? with
        | none => simp [hij]
        | some ch => simp [hij, List.getElem?_set_ne (Ne.symm hij)]

/-- the slice does not depend on the order in which the channels are done -/
theorem outcomes_complete (schedule : Schedule channels.length) :
    schedule.order.foldl (fill marshal nets channels alert) (List.replicate channels.length default) =
      channels.mapIdx (outcomeOf marshal nets alert) := by
  apply List.ext_getElem?
  intro i
  rw [fills_getElem? schedule.order (by simp), List.getElem?_mapIdx]
  by_cases hi : i < channels.length
  · rw [if_pos (schedule.complete i hi)]
  · simp [hi]

theorem failure_some {o : ChannelOutcome} (h : o.result.status ≠ "ok") :
    ∃ detail, failure o = some (channelLabel o.channel ++ ": " ++ detail) :=
  ⟨_, if_neg h⟩

theorem intercalate_mem {sep s : String} {l : List String} (h : s ∈ l) :
    ∃ before after, sep.intercalate l = before ++ s ++ after := by
  induction l with
  | nil => simp at h
  | cons t l ih =>
    by_cases hl : l = []
    · subst hl
      obtain rfl : s = t := by simpa using h
      exact ⟨"", "", by simp⟩
    · rw [String.intercalate_cons_of_ne_nil hl]
      rcases List.mem_cons.1 h with rfl | hmem
      · exact ⟨"", sep ++ sep.intercalate l, by simp [String.append_assoc]⟩
      · obtain ⟨before, after, heq⟩ := ih hmem
        exact ⟨t ++ sep ++ before, after, by simp [heq, String.append_assoc]⟩

theorem summarize_status (outcomes : List ChannelOutcome) :
    (summarizeDeliveries outcomes).status = "ok" ↔ ∀ o ∈ outcomes, o.result.status = "ok" := by
  have hnone : outcomes.filterMap failure = [] ↔ ∀ o ∈ outcomes, o.result.status = "ok" := by
    simp [failure]
  unfold summarizeDeliveries
  rw [← hnone]
  cases outcomes.filterMap failure <;> simp

theorem summarize_error {outcomes : List ChannelOutcome} {o : ChannelOutcome} (ho : o ∈ outcomes)
    (hfailed : o.result.status ≠ "ok") :
    ∃ before detail after,
      (summarizeDeliveries outcomes).error = before ++ (channelLabel o.channel ++ ": " ++ detail) ++ after := by
  obtain ⟨detail, hdetail⟩ := failure_some hfailed
  have hmem : channelLabel o.channel ++ ": " ++ detail ∈ outcomes.filterMap failure :=
    List.mem_filterMap.2 ⟨o, ho, hdetail⟩
  have hsome : (outcomes.filterMap failure).length > 0 := List.length_pos_of_mem hmem
  obtain ⟨before, after, heq⟩ := @intercalate_mem "; " _ _ hmem
  refine ⟨before, detail, after, ?_⟩
  simp only [summarizeDeliveries, hsome, if_true, heq]

end

/-- **Delivery.** However the network answers, whichever waits are cut short and in whatever order the channels are
done: the result of an alert is ok exactly when every channel has accepted it with its last reply, and otherwise names
every channel that has not. Each channel is asked at most twice, a second time only after no answer or a server error
and a wait to its end; and what is reported of a Telegram channel that did not answer does not contain its token, if that
is not empty and has no `*`. -/
theorem deliverAll_sound (marshal : Payload → String) (nets : ℕ → Network) (channels : List AlertChannel)
    (schedule : Schedule channels.length) (alert : HistoryEntry) :
    let result := deliverAll marshal nets channels schedule alert
    (result.status = "ok" ↔
      ∀ i ch, channels[i]? = some ch → ∃ r, (deliver marshal (nets i) ch alert).2.getLast? = some r ∧ r.Accepts) ∧
    (∀ i ch, channels[i]? = some ch → (∀ r, (deliver marshal (nets i) ch alert).2.getLast? = some r → ¬ r.Accepts) →
      ∃ before detail after, result.error = before ++ (channelLabel ch ++ ": " ++ detail) ++ after) ∧
    ∀ i ch, channels[i]? = some ch →
      (deliver marshal (nets i) ch alert).2.length ≤ 2 ∧
      (∀ r r', (deliver marshal (nets i) ch alert).2 = [r, r'] → r.Retryable ∧ (nets i).waits = true) ∧
      (ch.type = "telegram" → ch.token ≠ "" → '*' ∉ ch.token.toList →
        (∀ r ∈ (deliver marshal (nets i) ch alert).2, ∀ statusCode status, r ≠ .answer statusCode status) →
          ¬ ch.token.toList <:+: (deliver marshal (nets i) ch alert).1.error.toList) := by
  intro result
  have hresult : result = summarizeDeliveries (channels.mapIdx (outcomeOf marshal nets alert)) := by
    rw [← outcomes_complete schedule]
    rfl
  have hmem : ∀ o, o ∈ channels.mapIdx (outcomeOf marshal nets alert) ↔
      ∃ i ch, channels[i]? = some ch ∧ outcomeOf marshal nets alert i ch = o := by
    intro o
    simp only [List.mem_iff_getElem?, List.getElem?_mapIdx, Option.map_eq_some_iff]
  refine ⟨?_, fun i ch hch hrefused => ?_, fun i ch hch => ?_⟩
  · rw [hresult, summarize_status]
    constructor
    · intro hall i ch hch
      exact deliver_ok.1 (hall _ ((hmem _).2 ⟨i, ch, hch, rfl⟩))
    · intro hall o ho
      obtain ⟨i, ch, hch, rfl⟩ := (hmem o).1 ho
      exact deliver_ok.2 (hall i ch hch)
  · rw [hresult]
    have hfailed : (outcomeOf marshal nets alert i ch).result.status ≠ "ok" := by
      intro hok
      obtain ⟨r, hlast, haccepts⟩ := deliver_ok.1 hok
      exact hrefused r hlast haccepts
    have hin : outcomeOf marshal nets alert i ch ∈ channels.mapIdx (outcomeOf marshal nets alert) :=
      (hmem _).2 ⟨i, ch, hch, rfl⟩
    obtain ⟨before, detail, after, heq⟩ := summarize_error hin hfailed
    exact ⟨before, detail, after, heq⟩
  · exact ⟨deliver_attempts.1, deliver_attempts.2, fun htype htoken hstar => deliver_redacted htype htoken hstar⟩

end LogDeck.Alerts
