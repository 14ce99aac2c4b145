import FormulaOutline.Http.Client
import Mathlib

/-!
# Repeated requests

A client repeats a request while the server asks it to wait and the wait is short. What comes of it
depends only on the outcomes of the server, one after another.

* `Waits`: the times that a client waits out, by the outcomes of a server that never stops replying,
  with `Waits.exists_of` and `Waits.unique`.
* `attempts`: a request, and again after each of some times.
* `retrying_eq_attempts`: the loop does these attempts with the times that are waited out.
* `Client.attempts_line`: what attempts do to a line.
* `Client.get_answers`: how many requests are sent, when, and what the answer is.
-/

namespace FormulaOutline.Http

/-! ## The times that are waited out -/

/-- The times that are waited out with a number of repetitions, by the outcomes of the requests: those
of the longest row of outcomes at the front that are short waits, as far as there are repetitions. -/
structure Waits (outcomes : Nat → Outcome) (retries : Nat) (waits : List Nat) : Prop where
  atMost : waits.length ≤ retries
  outcome : ∀ i ms, waits[i]? = some ms → outcomes i = .rateLimited ms
  short : ∀ ms ∈ waits, ms ≤ longestPause
  longest : waits.length < retries → ∀ ms, outcomes waits.length = .rateLimited ms → longestPause < ms

namespace Waits

variable {outcomes : Nat → Outcome} {retries ms : Nat} {waits waits' : List Nat}

theorem nil_iff : Waits outcomes retries [] ↔
    retries = 0 ∨ ∀ ms, outcomes 0 = .rateLimited ms → longestPause < ms := by
  constructor
  · intro h
    rcases Nat.eq_zero_or_pos retries with hNone | hSome
    · exact Or.inl hNone
    · exact Or.inr (h.longest hSome)
  · intro h
    refine ⟨Nat.zero_le retries, by simp, by simp, fun hSome => ?_⟩
    exact h.resolve_left (Nat.ne_of_gt hSome)

theorem cons_iff : Waits outcomes retries (ms :: waits) ↔
    outcomes 0 = .rateLimited ms ∧ ms ≤ longestPause ∧
      ∃ more, retries = more + 1 ∧ Waits (fun i => outcomes (i + 1)) more waits := by
  constructor
  · intro h
    obtain ⟨more, rfl⟩ := Nat.exists_eq_succ_of_ne_zero (Nat.ne_of_gt (Nat.lt_of_lt_of_le
      (Nat.zero_lt_succ waits.length) h.atMost))
    exact ⟨h.outcome 0 ms rfl, h.short ms List.mem_cons_self, more, rfl,
      Nat.le_of_succ_le_succ h.atMost, fun i w hw => h.outcome (i + 1) w hw,
      fun w hw => h.short w (List.mem_cons_of_mem ms hw),
      fun hMore => h.longest (Nat.succ_lt_succ hMore)⟩
  · rintro ⟨hFirst, hShort, more, rfl, h⟩
    refine ⟨Nat.succ_le_succ h.atMost, ?_, ?_, fun hMore => h.longest (Nat.lt_of_succ_lt_succ hMore)⟩
    · rintro (_ | i) w hw
      · obtain rfl := Option.some.inj hw
        exact hFirst
      · exact h.outcome i w hw
    · intro w hw
      rcases List.mem_cons.mp hw with rfl | hw
      · exact hShort
      · exact h.short w hw

theorem exists_of (outcomes : Nat → Outcome) (retries : Nat) :
    ∃ waits, Waits outcomes retries waits := by
  induction retries generalizing outcomes with
  | zero => exact ⟨[], nil_iff.mpr (Or.inl rfl)⟩
  | succ retries ih =>
    by_cases hShort : ∃ ms, outcomes 0 = .rateLimited ms ∧ ms ≤ longestPause
    · obtain ⟨ms, hFirst, hShort⟩ := hShort
      obtain ⟨waits, h⟩ := ih fun i => outcomes (i + 1)
      exact ⟨ms :: waits, cons_iff.mpr ⟨hFirst, hShort, retries, rfl, h⟩⟩
    · refine ⟨[], nil_iff.mpr (Or.inr fun ms hFirst => ?_)⟩
      exact Nat.lt_of_not_le fun hLe => hShort ⟨ms, hFirst, hLe⟩

theorem unique (h : Waits outcomes retries waits) (h' : Waits outcomes retries waits') :
    waits' = waits := by
  induction waits generalizing outcomes retries waits' with
  | nil =>
    cases waits' with
    | nil => rfl
    | cons ms _ =>
      obtain ⟨hFirst, hShort, more, rfl, -⟩ := cons_iff.mp h'
      rcases nil_iff.mp h with hNone | hLong
      · cases hNone
      · exact absurd hShort (Nat.not_le_of_gt (hLong ms hFirst))
  | cons ms waits ih =>
    obtain ⟨hFirst, hShort, more, rfl, hRest⟩ := cons_iff.mp h
    cases waits' with
    | nil =>
      rcases nil_iff.mp h' with hNone | hLong
      · cases hNone
      · exact absurd hShort (Nat.not_le_of_gt (hLong ms hFirst))
    | cons ms' _ =>
      obtain ⟨hFirst', -, more', hMore, hRest'⟩ := cons_iff.mp h'
      obtain rfl := Nat.succ.inj hMore
      obtain rfl := Outcome.rateLimited.inj (hFirst.symm.trans hFirst')
      rw [ih hRest hRest']

end Waits

/-- The outcomes that are waits are the replies with the status for too many requests. -/
theorem Reply.outcome_eq_rateLimited_iff {reply : Reply} {provider : String} {ms : Nat} :
    reply.outcome provider = .rateLimited ms ↔ reply.status = 429 ∧ reply.retryAfterMs = ms := by
  rw [Reply.outcome]
  by_cases hStatus : reply.status = 429
  · simp [Reply.isNoAnswer, Reply.isSuccess, hStatus]
  · constructor
    · intro h
      split at h
      · cases h
      · split at h
        · split at h <;> cases h
        · cases h
    · rintro ⟨h, -⟩
      exact (hStatus h).elim

/-! ## Attempts -/

section Attempts

variable {σ : Type} (send : σ → Outcome × σ) (pause : Nat → σ → σ)

/-- Sends a request, and again after each of some times. -/
def attempts : (waits : List Nat) → σ → Outcome × σ
  | [], s => send s
  | ms :: waits, s => attempts waits (pause ms (send s).2)

variable {send pause}

/-- The loop stops by itself after the attempts with the times that are waited out. -/
theorem retrying_eq_attempts {outcomes : Nat → Outcome} {retries : Nat} {waits : List Nat} {s : σ}
    (hWaits : Waits outcomes retries waits)
    (hOutcomes : ∀ i ≤ waits.length, (attempts send pause (waits.take i) s).1 = outcomes i) :
    retrying send pause retries s = attempts send pause waits s := by
  have hFirst : (send s).1 = outcomes 0 := hOutcomes 0 (Nat.zero_le _)
  induction waits generalizing outcomes retries s with
  | nil =>
    rw [attempts]
    cases retries with
    | zero => rw [retrying]
    | succ retries =>
      have hLong := (Waits.nil_iff.mp hWaits).resolve_left (Nat.succ_ne_zero retries)
      rw [retrying]
      cases hSend : send s with
      | mk o s' =>
        rw [hSend] at hFirst
        cases o with
        | body text => rfl
        | failed e => rfl
        | rateLimited ms =>
          dsimp only
          rw [if_neg (Nat.not_le_of_gt (hLong ms hFirst.symm))]
  | cons ms waits ih =>
    obtain ⟨hOutcome, hShort, more, rfl, hRest⟩ := Waits.cons_iff.mp hWaits
    have hSent : send s = (.rateLimited ms, (send s).2) := Prod.ext (hFirst.trans hOutcome) rfl
    have hMore : ∀ i ≤ waits.length,
        (attempts send pause (waits.take i) (pause ms (send s).2)).1 = outcomes (i + 1) :=
      fun i hi => hOutcomes (i + 1) (Nat.succ_le_succ hi)
    rw [retrying, hSent]
    dsimp only
    rw [if_pos hShort, ih hRest hMore (hMore 0 (Nat.zero_le _)), attempts, hSent]

end Attempts

/-! ## Attempts in a line -/

namespace Client

variable {c : Client} {r : Request} {l : Line}

/-- What a number of attempts has come to: their requests have been sent, their replies have been
used, and each request has gone out as soon after the one before as the time to wait and the pacing
allow. -/
structure Attempted (c : Client) (r : Request) (l : Line) (waits : List Nat) (l' : Line) : Prop where
  requests : l'.requests = l.requests ++ List.replicate (waits.length + 1) r
  replies : l'.replies = l.replies.drop (waits.length + 1)
  now : l'.now = l.now + l.pacing.wait l.now + (waits.map (max · l.pacing.interval)).sum
  pacing : l'.pacing = ⟨l.pacing.interval, some l'.now⟩

theorem sendOnce_line (c : Client) (r : Request) {l : Line} {reply : Reply}
    (hReply : l.replies[0]? = some reply) :
    ∃ l', c.sendOnce (some r) l = (reply.outcome c.provider, l') ∧ c.Attempted r l [] l' := by
  obtain ⟨rest, hReplies⟩ : ∃ rest, l.replies = reply :: rest := by
    cases hList : l.replies with
    | nil => rw [hList] at hReply; cases hReply
    | cons first rest =>
      rw [hList] at hReply
      exact ⟨rest, by rw [Option.some.inj hReply]⟩
  have hSent : c.sendOnce (some r) l = (reply.outcome c.provider,
      { l.keepPace with replies := rest, requests := l.requests ++ [r] }) := by
    simp [sendOnce, Line.keepPace, Line.pass, hReplies]
  refine ⟨_, hSent, rfl, by rw [hReplies]; rfl, rfl, rfl⟩

/-- A request that follows another one after a time is held back as long as is missing to the
interval. -/
theorem Attempted.wait {l' : Line} (h : c.Attempted r l [] l') (ms : Nat) :
    (l'.pass ms).now + (l'.pass ms).pacing.wait (l'.pass ms).now =
      l'.now + max ms l.pacing.interval := by
  simp only [Line.pass, h.pacing, Pacing.wait]
  omega

theorem attempts_line (c : Client) (r : Request) (replies : Nat → Reply) (waits : List Nat) {l : Line}
    (hReplies : ∀ i ≤ waits.length, l.replies[i]? = some (replies i)) :
    ∃ l', attempts (c.sendOnce (some r)) (fun ms l => l.pass ms) waits l =
        ((replies waits.length).outcome c.provider, l') ∧ c.Attempted r l waits l' := by
  induction waits generalizing l replies with
  | nil => exact sendOnce_line c r (hReplies 0 (Nat.le_refl 0))
  | cons ms waits ih =>
    obtain ⟨l₁, hSent, h₁⟩ := sendOnce_line c r (hReplies 0 (Nat.zero_le _))
    have hRest : ∀ i ≤ waits.length, (l₁.pass ms).replies[i]? = some (replies (i + 1)) := by
      intro i hi
      rw [Line.pass, h₁.replies, List.getElem?_drop, Nat.add_comm]
      exact hReplies (i + 1) (Nat.succ_le_succ hi)
    obtain ⟨l', hMore, h'⟩ := ih (fun i => replies (i + 1)) hRest
    refine ⟨l', by rw [attempts, hSent]; exact hMore, ?_, ?_, ?_, ?_⟩
    · rw [h'.requests, Line.pass, h₁.requests, List.append_assoc, List.replicate_append_replicate,
        List.length_cons, List.length_nil, Nat.add_comm 1]
    · rw [h'.replies, Line.pass, h₁.replies, List.drop_drop, List.length_cons, List.length_nil,
        Nat.add_comm 1]
    · rw [h'.now, h₁.wait ms, h₁.now, Line.pass, h₁.pacing, List.map_cons, List.sum_cons, List.map_nil,
        List.sum_nil, Nat.add_zero, Nat.add_assoc]
    · rw [h'.pacing, Line.pass, h₁.pacing]

/-- What a client answers when its last request has come to an outcome. -/
def Answers {α : Type} (c : Client) (d : Json.Decoder α) :
    Outcome → Except ProviderError α → Prop
  | .body text, answer =>
      (∃ a, (Json.parse text.toList).bind d = some a ∧ answer = .ok a) ∨
        (Json.parse text.toList).bind d = none ∧
          ∃ message, answer = .error (.invalidResponse c.provider message)
  | .rateLimited ms, answer => answer = .error (.rateLimited c.provider ms)
  | .failed e, answer => answer = .error e

theorem answers_decode {α : Type} (c : Client) (d : Json.Decoder α) (o : Outcome) :
    c.Answers d o (c.decode d o) := by
  cases o with
  | body text =>
    rw [decode]
    cases hRead : (Json.parse text.toList).bind d with
    | some a => exact Or.inl ⟨a, hRead, rfl⟩
    | none => exact Or.inr ⟨hRead, _, rfl⟩
  | rateLimited ms => rfl
  | failed e => rfl

/-- A request that cannot be written fails without being sent, and is not repeated. -/
theorem get_of_request?_eq_none {α : Type} {path : String} {query : List (String × String)}
    (d : Json.Decoder α) (hRequest : c.request? path query = none) (l : Line) :
    c.get path query d l = (.error (noAnswer c.provider), l.keepPace) := by
  have hWaits : Waits (fun _ => .failed (noAnswer c.provider)) c.retries [] :=
    Waits.nil_iff.mpr (Or.inr fun _ hFailed => nomatch hFailed)
  have hSent : c.sendOnce none l = (.failed (noAnswer c.provider), l.keepPace) := by
    rw [sendOnce]
    exact fun _ _ _ hSome => nomatch hSome
  rw [get, hRequest, retrying_eq_attempts hWaits, attempts, hSent]
  · rfl
  · intro i _
    rw [List.take_nil, attempts, hSent]

/-- The requests of a client to a server that goes on replying are repeated as often as the outcomes
are short waits, and at most as often as the client repeats requests. Between them just these times
are waited out, in this order, besides what the pacing holds the requests back. The answer is what the
last outcome comes to. A request that cannot be written is not sent at all. -/
theorem get_answers {α : Type} (c : Client) (path : String) (query : List (String × String))
    (d : Json.Decoder α) (replies : Nat → Reply) (l : Line)
    (hReplies : ∀ i ≤ c.retries, l.replies[i]? = some (replies i)) :
    (∀ r, c.request? path query = some r →
      ∃ waits answer l', c.get path query d l = (answer, l') ∧
        Waits (fun i => (replies i).outcome c.provider) c.retries waits ∧
        (∀ waits', Waits (fun i => (replies i).outcome c.provider) c.retries waits' →
          waits' = waits) ∧
        attempts (c.sendOnce (some r)) (fun ms l => l.pass ms) waits l =
          ((replies waits.length).outcome c.provider, l') ∧
        c.Attempted r l waits l' ∧
        c.Answers d ((replies waits.length).outcome c.provider) answer) ∧
    (c.request? path query = none →
      c.get path query d l = (.error (noAnswer c.provider), l.keepPace)) := by
  refine ⟨fun r hRequest => ?_, fun hRequest => get_of_request?_eq_none d hRequest l⟩
  obtain ⟨waits, hWaits⟩ := Waits.exists_of (fun i => (replies i).outcome c.provider) c.retries
  have hTaken : ∀ i ≤ waits.length, (attempts (c.sendOnce (some r)) (fun ms l => l.pass ms)
      (waits.take i) l).1 = (replies i).outcome c.provider := by
    intro i hi
    have hLength : (waits.take i).length = i := List.length_take_of_le hi
    obtain ⟨l', hAttempts, -⟩ := attempts_line c r replies (waits.take i) fun j hj =>
      hReplies j (Nat.le_trans (hLength ▸ hj) (Nat.le_trans hi hWaits.atMost))
    rw [hAttempts, hLength]
  obtain ⟨l', hAttempts, hAttempted⟩ := attempts_line c r replies waits fun j hj =>
    hReplies j (Nat.le_trans hj hWaits.atMost)
  refine ⟨waits, _, l', ?_, hWaits, fun _ => hWaits.unique, hAttempts, hAttempted,
    answers_decode c d _⟩
  rw [get, hRequest, retrying_eq_attempts hWaits hTaken, hAttempts]

/-- A client that repeats a request once. -/
def forecasts : Client := ⟨"weather", "http://localhost", none, .perMinute 6000, 1⟩

/-- A server that is asked too often, and then has an answer. -/
def forecastReplies (i : Nat) : Reply :=
  if i = 0 then ⟨429, "", some "0.5", false⟩ else ⟨200, "\"sun\"", none, false⟩

/-- The request is sent twice, with half a second between. -/
theorem get_answers_forecasts :
    ∃ l', forecasts.get "/day" [] Json.asString? (forecasts.line ((List.range 2).map forecastReplies)) =
        (.ok "sun", l') ∧
      l'.requests = [⟨"/day", none⟩, ⟨"/day", none⟩] ∧ l'.now = 500 := by
  have hReplies : ∀ i ≤ forecasts.retries,
      (forecasts.line ((List.range 2).map forecastReplies)).replies[i]? = some (forecastReplies i) := by
    intro i hi
    have hTwo : i < 2 := Nat.lt_succ_of_le hi
    simp [line, hTwo]
  have hRequest : forecasts.request? "/day" [] = some ⟨"/day", none⟩ := by decide +kernel
  have hFirst : (forecastReplies 0).outcome "weather" = .rateLimited 500 := by decide +kernel
  have hSecond : (forecastReplies 1).outcome "weather" = .body "\"sun\"" := by decide +kernel
  obtain ⟨waits, answer, l', hGet, -, hUnique, -, hAttempted, hAnswers⟩ :=
    (get_answers forecasts "/day" [] Json.asString? forecastReplies _ hReplies).1 _ hRequest
  obtain rfl := hUnique [500] (Waits.cons_iff.mpr ⟨hFirst, by decide, 0, rfl,
    Waits.nil_iff.mpr (Or.inl rfl)⟩)
  have hAnswer : answer = .ok "sun" := by
    have hRead : (Json.parse "\"sun\"".toList).bind Json.asString? = some "sun" := by decide +kernel
    rw [List.length_singleton, show forecasts.provider = "weather" from rfl, hSecond] at hAnswers
    obtain ⟨a, hDecoded, rfl⟩ | ⟨hNone, -⟩ := hAnswers
    · rw [Option.some.inj (hRead.symm.trans hDecoded)]
    · rw [hRead] at hNone
      cases hNone
  exact ⟨l', by rw [hGet, hAnswer], hAttempted.requests, hAttempted.now⟩

end Client

end FormulaOutline.Http
