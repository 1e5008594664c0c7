/-
The credential and the session of a client: what a request carries, one presentation at a time, and
what a 401 means depending on what it carried.

Any number of requests run on one client.  Each checks the valve, decides what it carries, waiting at
the gate when it has no session to ride, goes out, and settles its answer; one answered 429 sleeps and
goes out once more, one whose session had ended comes back round.  A step of the model is one such
stretch of one request, with the answer of the server as part of the event.

Main definitions:

* `SessionJar` — the cookies, their generation, and what is known of sessions here;
* `Valve`, `AuthState` — what stops a refused client;
* `Phase` — how far a request has come;
* `Client`, `Event`, `Client.step` — the whole client and its steps.
-/
import Mathlib.Logic.Function.Basic
import Nutsh.Lib.IndexMap
import Nutsh.Lib.Run
import Nutsh.Lib.Text

set_option relaxedAutoImplicit false
set_option autoImplicit false

namespace Nutsh.Prism

/-- The status of a refused request. -/
def unauthorized : ℕ := 401

/-- The status of a request that came too soon. -/
def tooManyRequests : ℕ := 429

/-! ### The jar -/

/-- How many answered URLs the jar remembers. -/
def probeUrls : ℕ := 4

/-- The sessions that come to nothing before reuse is given up. -/
def giveUpRenewals : ℕ := 2

/-- The session cookies a Prism Central hands out. -/
structure SessionJar where
  cookies : IndexMap String String := IndexMap.empty
  /-- Bumped by `expire` alone. -/
  generation : ℕ := 0
  everAnswered : Bool := false
  /-- The last URLs answered on, oldest first. -/
  okUrls : List String := []
  /-- How many sessions came to nothing. -/
  renewals : ℕ := 0

/-- One `Set-Cookie` header read: the name, the value, and whether it deletes the cookie. -/
def parseSetCookie (text : String) : Option (String × String × Bool) :=
  (Text.splitOnce "=" text).map fun p =>
    let value := Text.trim ((Text.splitChar ';' p.2).headD "")
    let deleted := value == "" ||
      (Text.splitChar ';' (Text.lower text)).any fun a => Text.trim a == "max-age=0"
    (Text.trim p.1, value, deleted)

namespace SessionJar

/-- Whether session reuse is still worth attempting; `false` is the degraded mode. -/
def usable (jar : SessionJar) : Bool := jar.everAnswered || decide (jar.renewals < giveUpRenewals)

/-- The generation of the session there is to ride. -/
def ride (jar : SessionJar) : Option ℕ :=
  if jar.cookies.isEmpty || !jar.usable then none else some jar.generation

/-- A URL this account was answered on goes to the end of the remembered ones. -/
def rememberOk (jar : SessionJar) (url : String) : SessionJar :=
  if jar.okUrls.getLast? == some url then jar
  else
    let urls := (jar.okUrls.filter (· != url)) ++ [url]
    { jar with okUrls := if probeUrls < urls.length then urls.drop 1 else urls }

/-- A request riding a session was answered. -/
def answered (jar : SessionJar) (url : String) : SessionJar :=
  { jar with everAnswered := true }.rememberOk url

/-- The newest URL answered on, other than `not_`. -/
def probeUrl (jar : SessionJar) (not_ : String) : Option String :=
  jar.okUrls.reverse.find? (· != not_)

/-- A presentation was answered; one that left the jar empty opened no session. -/
def presented (jar : SessionJar) : SessionJar :=
  if jar.cookies.isEmpty then { jar with renewals := jar.renewals + 1 } else jar

/-- The session of a generation was refused: the jar is emptied if it is still that one's. -/
def expire (jar : SessionJar) (generation : ℕ) : SessionJar :=
  if jar.generation != generation then { jar with renewals := jar.renewals + 1 }
  else
    { jar with
      renewals := jar.renewals + 1, cookies := IndexMap.empty, generation := jar.generation + 1 }

/-- One `Set-Cookie` header on the cookies. -/
def setCookie (cookies : IndexMap String String) (text : String) : IndexMap String String :=
  match parseSetCookie text with
  | none => cookies
  | some (name, value, deleted) => if deleted then cookies.erase name else cookies.insert name value

/-- The `Set-Cookie` headers of a response, banked while reuse is worth attempting. -/
def setCookies (jar : SessionJar) (headers : List String) : SessionJar :=
  if jar.usable then { jar with cookies := headers.foldl setCookie jar.cookies } else jar

end SessionJar

/-! ### The valve and the state of the credential -/

/-- Refusals inside the window before the valve latches. -/
def presentations : ℕ := 3

/-- The window the refusals are counted over, in seconds. -/
def window : ℕ := 600

/-- The cap on how often a credential is refused. -/
structure Valve where
  /-- When each refusal inside the window happened, oldest first. -/
  refusals : List ℕ := []
  latched : Bool := false

namespace Valve

/-- Whether the client may make a request at all. -/
def isOpen (v : Valve) : Bool := !v.latched

/-- The valve shut for good. -/
def latch (v : Valve) : Valve := { v with latched := true }

/-- A presented credential was refused. -/
def refused (v : Valve) (now : ℕ) : Valve :=
  let refusals := (v.refusals.dropWhile fun t => decide (window ≤ now - t)) ++ [now]
  { v with refusals, latched := v.latched || decide (presentations ≤ refusals.length) }

end Valve

/-- What a Prism Central has said about the credential. -/
inductive AuthState where
  | unauthenticated
  | established
  | rejected
  deriving DecidableEq

/-- What one answer proves about the credential; a refusal is never unsaid. -/
def AuthState.settle (state : AuthState) (presented : Bool) (status : ℕ) : AuthState :=
  if presented = false ∧ status = unauthorized then state
  else if state = .rejected then state
  else if status = unauthorized then .rejected
  else .established

/-- A refused presentation rejects the credential. -/
@[simp] theorem AuthState.settle_unauthorized (state : AuthState) :
    state.settle true unauthorized = .rejected := by
  cases state <;> rfl

@[simp] theorem AuthState.settle_rejected (presented : Bool) (status : ℕ) :
    AuthState.rejected.settle presented status = .rejected := by
  simp [AuthState.settle]

/-! ### Requests -/

/-- How one trip of a request is to treat the session. -/
inductive Pass where
  | first
  | renewing
  | authenticate
  deriving DecidableEq

/-- The pass after a session that ended, `none` after the last. -/
def Pass.next : Pass → Option Pass
  | first => some renewing
  | renewing => some authenticate
  | authenticate => none

/-- What a request carries to prove who it is: the credential, or the session of a generation. -/
inductive Carry where
  | credential
  | session (generation : ℕ)
  deriving DecidableEq

/-- How far a request has come. -/
inductive Phase where
  | idle
  /-- At the head of a trip, paced, before the valve. -/
  | head (url : String) (pass : Pass)
  /-- Past the valve, before it decides what to carry. -/
  | checked (url : String) (pass : Pass)
  /-- Waiting for the permit of the gate. -/
  | waiting (url : String) (pass : Pass)
  /-- What it carries is decided, it has not gone out. -/
  | carrying (url : String) (pass : Pass) (carry : Carry)
  /-- On the wire, for the second time when `retried`. -/
  | onWire (url : String) (pass : Pass) (carry : Carry) (retried : Bool)
  /-- Answered 429, asleep before it goes out again. -/
  | sleeping (url : String) (pass : Pass) (carry : Carry)
  /-- Its session was answered 401 and is checked on another URL. -/
  | probing (url : String) (pass : Pass) (generation : ℕ)
  | done
  deriving DecidableEq

/-- The final answer to a presentation of the credential. -/
structure Answer where
  pass : Pass
  status : ℕ
  deriving DecidableEq

/-- One client: its jar, the state of its credential, the holder of the one permit, its valve, and
its requests. -/
structure Client where
  jar : SessionJar := {}
  state : AuthState := .unauthenticated
  gate : Option ℕ := none
  valve : Valve := {}
  requests : ℕ → Phase := fun _ => .idle
  /-- The presentations answered so far, newest first.  Nothing reads it: it is what an observer at
  the far end has seen. -/
  answers : List Answer := []

/-- One stretch of one request, with what the server answers in it. -/
inductive Event where
  /-- A caller sends a request. -/
  | send (r : ℕ) (url : String)
  /-- The request looks at the valve. -/
  | check (r : ℕ)
  /-- It decides what it carries, or that it has to wait. -/
  | carry (r : ℕ)
  /-- It gets the permit, and decides behind it. -/
  | acquire (r : ℕ)
  /-- It goes out. -/
  | execute (r : ℕ)
  /-- It is answered, at a reading of the clock, with a status and `Set-Cookie` headers. -/
  | answer (r : ℕ) (now status : ℕ) (setCookies : List String)
  /-- It has slept and goes out again. -/
  | wake (r : ℕ)
  /-- The check of its session is answered, or gets no answer. -/
  | probed (r : ℕ) (response : Option (ℕ × List String))
  /-- It ends without an answer: the pipe failed, or its task was dropped. -/
  | fail (r : ℕ)

namespace Client

/-- The client with one request moved on. -/
def move (c : Client) (r : ℕ) (p : Phase) : Client :=
  { c with requests := Function.update c.requests r p }

/-- The client with the permit given back, if the request holds it. -/
def release (c : Client) (r : ℕ) : Client :=
  if c.gate = some r then { c with gate := none } else c

/-- A session of a generation that ended: the jar lets it go, and the request comes back round. -/
def sessionEnded (c : Client) (r : ℕ) (url : String) (pass : Pass) (generation : ℕ) : Client :=
  { c with jar := c.jar.expire generation }.move r
    (match pass.next with
    | some pass => .head url pass
    | none => .done)

/-- What a request decides to carry without the permit: everything the credential in the degraded
mode, nothing once the credential is rejected, the session on a first pass that may ride one. -/
def carry (c : Client) (r : ℕ) (url : String) (pass : Pass) : Client :=
  if c.jar.usable = false then c.move r (.carrying url pass .credential)
  else if c.state = .rejected then c.move r .done
  else
    match c.state, pass, c.jar.ride with
    | .established, .first, some generation => c.move r (.carrying url pass (.session generation))
    | _, _, _ => c.move r (.waiting url pass)

/-- What a request decides behind the permit: it keeps the permit only to present. -/
def acquire (c : Client) (r : ℕ) (url : String) (pass : Pass) : Client :=
  if c.state = .rejected then c.move r .done
  else
    match pass, c.jar.ride with
    | .first, some generation => c.move r (.carrying url pass (.session generation))
    | .renewing, some generation => c.move r (.carrying url pass (.session generation))
    | _, _ => { c with gate := some r }.move r (.carrying url pass .credential)

/-- The answer to a request that rode a session: a 401 is checked on another URL, or taken for the
end of the session where there is none. -/
def settleSession (c : Client) (r : ℕ) (url : String) (pass : Pass) (generation status : ℕ) :
    Client :=
  if status = unauthorized then
    match c.jar.probeUrl url with
    | some _ => c.move r (.probing url pass generation)
    | none => c.sessionEnded r url pass generation
  else
    { c with jar := c.jar.answered url, state := c.state.settle false status }.move r .done

/-- The answer to a request that presented the credential. -/
def settleCredential (c : Client) (r : ℕ) (url : String) (pass : Pass) (now status : ℕ) : Client :=
  let c := { c with answers := ⟨pass, status⟩ :: c.answers, state := c.state.settle true status }
  if status = unauthorized then
    ({ c with valve := (c.valve.refused now).latch }.release r).move r .done
  else
    ({ c with jar := (c.jar.rememberOk url).presented }.release r).move r .done

/-- One step of the client. -/
def step (c : Client) : Event → Option Client
  | .send r url =>
      match c.requests r with
      | .idle => some (c.move r (.head url .first))
      | _ => none
  | .check r =>
      match c.requests r with
      | .head url pass => some (c.move r (if c.valve.isOpen then .checked url pass else .done))
      | _ => none
  | .carry r =>
      match c.requests r with
      | .checked url pass => some (c.carry r url pass)
      | _ => none
  | .acquire r =>
      match c.requests r, c.gate with
      | .waiting url pass, none => some (c.acquire r url pass)
      | _, _ => none
  | .execute r =>
      match c.requests r with
      | .carrying url pass carry => some (c.move r (.onWire url pass carry false))
      | _ => none
  | .answer r now status headers =>
      match c.requests r with
      | .onWire url pass carry retried =>
          let c := { c with jar := c.jar.setCookies headers }
          if status = tooManyRequests ∧ retried = false then
            some (c.move r (.sleeping url pass carry))
          else
            match carry with
            | .credential => some (c.settleCredential r url pass now status)
            | .session generation => some (c.settleSession r url pass generation status)
      | _ => none
  | .wake r =>
      match c.requests r with
      | .sleeping url pass carry => some (c.move r (.onWire url pass carry true))
      | _ => none
  | .probed r response =>
      match c.requests r with
      | .probing url pass generation =>
          match response with
          | none => some (c.move r .done)
          | some (status, headers) =>
              let c := { c with jar := c.jar.setCookies headers }
              if status = unauthorized then some (c.sessionEnded r url pass generation)
              else some (c.move r .done)
      | _ => none
  | .fail r =>
      match c.requests r with
      | .idle | .done => none
      | _ => some ((c.release r).move r .done)

/-- The client a list of events leads to from a fresh one. -/
def run (events : List Event) : Option Client := Run.exec step {} events

/-! ### What moving a request leaves alone -/

@[simp] theorem requests_move_self (c : Client) (r : ℕ) (p : Phase) :
    (c.move r p).requests r = p := by
  simp [move]

theorem requests_move_ne {c : Client} {r r' : ℕ} {p : Phase} (h : r' ≠ r) :
    (c.move r p).requests r' = c.requests r' := by
  simp [move, h]

@[simp] theorem state_move (c : Client) (r : ℕ) (p : Phase) : (c.move r p).state = c.state := rfl

@[simp] theorem gate_move (c : Client) (r : ℕ) (p : Phase) : (c.move r p).gate = c.gate := rfl

@[simp] theorem jar_move (c : Client) (r : ℕ) (p : Phase) : (c.move r p).jar = c.jar := rfl

@[simp] theorem answers_move (c : Client) (r : ℕ) (p : Phase) :
    (c.move r p).answers = c.answers := rfl

@[simp] theorem requests_release (c : Client) (r : ℕ) : (c.release r).requests = c.requests := by
  unfold release
  split <;> rfl

@[simp] theorem state_release (c : Client) (r : ℕ) : (c.release r).state = c.state := by
  unfold release
  split <;> rfl

@[simp] theorem jar_release (c : Client) (r : ℕ) : (c.release r).jar = c.jar := by
  unfold release
  split <;> rfl

@[simp] theorem answers_release (c : Client) (r : ℕ) : (c.release r).answers = c.answers := by
  unfold release
  split <;> rfl

/-- A property of phases that the moved request does not gain is gained by no request. -/
theorem of_move {c : Client} {q : Phase → Bool} {r r' : ℕ} {p : Phase} (hp : q p = true → q (c.requests r) = true)
    (h : q ((c.move r p).requests r') = true) : q (c.requests r') = true := by
  by_cases hr : r' = r
  · subst hr
    exact hp (by simpa using h)
  · rwa [requests_move_ne hr] at h

/-! ### What a step can do -/

/-- Every step of the client, with what its request was at and found. -/
inductive Stretch (c : Client) : Event → Client → Prop where
  | send {r : ℕ} {url : String} (hp : c.requests r = .idle) :
      Stretch c (.send r url) (c.move r (.head url .first))
  | checkOpen {r : ℕ} {url : String} {pass : Pass} (hp : c.requests r = .head url pass)
      (hv : c.valve.latched = false) : Stretch c (.check r) (c.move r (.checked url pass))
  | checkShut {r : ℕ} {url : String} {pass : Pass} (hp : c.requests r = .head url pass)
      (hv : c.valve.latched = true) : Stretch c (.check r) (c.move r .done)
  | carryDegraded {r : ℕ} {url : String} {pass : Pass} (hp : c.requests r = .checked url pass)
      (hu : c.jar.usable = false) :
      Stretch c (.carry r) (c.move r (.carrying url pass .credential))
  | carryRejected {r : ℕ} {url : String} {pass : Pass} (hp : c.requests r = .checked url pass)
      (hs : c.state = .rejected) : Stretch c (.carry r) (c.move r .done)
  | carryRide {r generation : ℕ} {url : String} {pass : Pass}
      (hp : c.requests r = .checked url pass) (hs : c.state ≠ .rejected)
      (hr : c.jar.ride = some generation) :
      Stretch c (.carry r) (c.move r (.carrying url pass (.session generation)))
  | carryWait {r : ℕ} {url : String} {pass : Pass} (hp : c.requests r = .checked url pass)
      (hs : c.state ≠ .rejected) : Stretch c (.carry r) (c.move r (.waiting url pass))
  | acquireRejected {r : ℕ} {url : String} {pass : Pass} (hp : c.requests r = .waiting url pass)
      (hg : c.gate = none) (hs : c.state = .rejected) : Stretch c (.acquire r) (c.move r .done)
  | acquireRide {r generation : ℕ} {url : String} {pass : Pass}
      (hp : c.requests r = .waiting url pass) (hg : c.gate = none) (hs : c.state ≠ .rejected)
      (hr : c.jar.ride = some generation) :
      Stretch c (.acquire r) (c.move r (.carrying url pass (.session generation)))
  | acquirePresent {r : ℕ} {url : String} {pass : Pass} (hp : c.requests r = .waiting url pass)
      (hg : c.gate = none) (hs : c.state ≠ .rejected)
      (hr : pass = .authenticate ∨ c.jar.ride = none) :
      Stretch c (.acquire r) ({ c with gate := some r }.move r (.carrying url pass .credential))
  | execute {r : ℕ} {url : String} {pass : Pass} {carry : Carry}
      (hp : c.requests r = .carrying url pass carry) :
      Stretch c (.execute r) (c.move r (.onWire url pass carry false))
  | sleep {r now status : ℕ} {headers : List String} {url : String} {pass : Pass} {carry : Carry}
      (hp : c.requests r = .onWire url pass carry false) (hs : status = tooManyRequests) :
      Stretch c (.answer r now status headers)
        ({ c with jar := c.jar.setCookies headers }.move r (.sleeping url pass carry))
  | settleRefused {r now status : ℕ} {headers : List String} {url : String} {pass : Pass}
      {retried : Bool} (hp : c.requests r = .onWire url pass .credential retried)
      (hs : status = unauthorized) :
      Stretch c (.answer r now status headers)
        (({ c with
            jar := c.jar.setCookies headers, answers := ⟨pass, status⟩ :: c.answers,
            state := .rejected, valve := (c.valve.refused now).latch }.release r).move r .done)
  | settlePresented {r now status : ℕ} {headers : List String} {url : String} {pass : Pass}
      {retried : Bool} (hp : c.requests r = .onWire url pass .credential retried)
      (hw : status = tooManyRequests → retried = true) (hs : status ≠ unauthorized) :
      Stretch c (.answer r now status headers)
        (({ c with
            jar := ((c.jar.setCookies headers).rememberOk url).presented,
            answers := ⟨pass, status⟩ :: c.answers,
            state := c.state.settle true status }.release r).move r .done)
  | settleRidden {r now status generation : ℕ} {headers : List String} {url : String}
      {pass : Pass} {retried : Bool}
      (hp : c.requests r = .onWire url pass (.session generation) retried)
      (hs : status ≠ unauthorized) :
      Stretch c (.answer r now status headers)
        ({ c with
            jar := (c.jar.setCookies headers).answered url,
            state := c.state.settle false status }.move r .done)
  | settleProbe {r now status generation : ℕ} {headers : List String} {url : String}
      {pass : Pass} {retried : Bool}
      (hp : c.requests r = .onWire url pass (.session generation) retried)
      (hs : status = unauthorized) :
      Stretch c (.answer r now status headers)
        ({ c with jar := c.jar.setCookies headers }.move r (.probing url pass generation))
  | settleEnded {r now status generation : ℕ} {headers : List String} {url : String}
      {pass : Pass} {retried : Bool}
      (hp : c.requests r = .onWire url pass (.session generation) retried)
      (hs : status = unauthorized) :
      Stretch c (.answer r now status headers)
        ({ c with jar := c.jar.setCookies headers }.sessionEnded r url pass generation)
  | wake {r : ℕ} {url : String} {pass : Pass} {carry : Carry}
      (hp : c.requests r = .sleeping url pass carry) :
      Stretch c (.wake r) (c.move r (.onWire url pass carry true))
  | probeFailed {r generation : ℕ} {url : String} {pass : Pass}
      (hp : c.requests r = .probing url pass generation) :
      Stretch c (.probed r none) (c.move r .done)
  | probeAlive {r generation status : ℕ} {headers : List String} {url : String} {pass : Pass}
      (hp : c.requests r = .probing url pass generation) (hs : status ≠ unauthorized) :
      Stretch c (.probed r (some (status, headers)))
        ({ c with jar := c.jar.setCookies headers }.move r .done)
  | probeEnded {r generation status : ℕ} {headers : List String} {url : String} {pass : Pass}
      (hp : c.requests r = .probing url pass generation) (hs : status = unauthorized) :
      Stretch c (.probed r (some (status, headers)))
        ({ c with jar := c.jar.setCookies headers }.sessionEnded r url pass generation)
  | fail {r : ℕ} (hi : c.requests r ≠ .idle) (hd : c.requests r ≠ .done) :
      Stretch c (.fail r) ((c.release r).move r .done)

/-- What a request decides without the permit. -/
theorem stretch_carry {c : Client} {r : ℕ} {url : String} {pass : Pass}
    (hp : c.requests r = .checked url pass) : Stretch c (.carry r) (c.carry r url pass) := by
  unfold carry
  split
  · exact .carryDegraded hp ‹_›
  · split
    · exact .carryRejected hp ‹_›
    · split
      · exact .carryRide hp ‹_› ‹_›
      · exact .carryWait hp ‹_›

/-- What a request decides behind the permit. -/
theorem stretch_acquire {c : Client} {r : ℕ} {url : String} {pass : Pass}
    (hp : c.requests r = .waiting url pass) (hg : c.gate = none) :
    Stretch c (.acquire r) (c.acquire r url pass) := by
  unfold acquire
  split
  · exact .acquireRejected hp hg ‹_›
  · rename_i hs
    cases hr : c.jar.ride with
    | none => cases pass <;> exact .acquirePresent hp hg hs (Or.inr hr)
    | some generation =>
        cases pass with
        | authenticate => exact .acquirePresent hp hg hs (Or.inl rfl)
        | first => exact .acquireRide hp hg hs hr
        | renewing => exact .acquireRide hp hg hs hr

/-- **What a step can do**: every step is one of the stretches. -/
theorem step_stretch {c c' : Client} {e : Event} (h : c.step e = some c') : Stretch c e c' := by
  cases e with
  | send r url =>
      simp only [step] at h
      split at h
      · cases h
        exact .send ‹_›
      · cases h
  | check r =>
      simp only [step] at h
      split at h
      · cases h
        cases hv : c.valve.latched with
        | false => simpa [Valve.isOpen, hv] using Stretch.checkOpen ‹_› hv
        | true => simpa [Valve.isOpen, hv] using Stretch.checkShut ‹_› hv
      · cases h
  | carry r =>
      simp only [step] at h
      split at h
      · cases h
        exact stretch_carry ‹_›
      · cases h
  | acquire r =>
      simp only [step] at h
      split at h
      · cases h
        exact stretch_acquire ‹_› ‹_›
      · cases h
  | execute r =>
      simp only [step] at h
      split at h
      · cases h
        exact .execute ‹_›
      · cases h
  | answer r now status headers =>
      simp only [step] at h
      split at h
      · rename_i url pass carry retried hp
        split at h
        · rename_i hs
          cases h
          exact .sleep (by rw [hp, hs.2]) hs.1
        · rename_i hw
          cases carry with
          | credential =>
              cases h
              by_cases hs : status = unauthorized
              · have hst : Stretch c (.answer r now status headers) _ := .settleRefused hp hs
                simpa [settleCredential, hs] using hst
              · have hst : Stretch c (.answer r now status headers) _ :=
                  .settlePresented hp (fun h => by simpa [h] using hw) hs
                simpa [settleCredential, hs] using hst
          | session generation =>
              cases h
              unfold settleSession
              by_cases hs : status = unauthorized
              · rw [if_pos hs]
                split
                · exact .settleProbe hp hs
                · exact .settleEnded hp hs
              · rw [if_neg hs]
                exact .settleRidden hp hs
      · cases h
  | wake r =>
      simp only [step] at h
      split at h
      · cases h
        exact .wake ‹_›
      · cases h
  | probed r response =>
      simp only [step] at h
      split at h
      · split at h
        · cases h
          exact .probeFailed ‹_›
        · split at h
          · cases h
            exact .probeEnded ‹_› ‹_›
          · cases h
            exact .probeAlive ‹_› ‹_›
      · cases h
  | fail r =>
      simp only [step] at h
      split at h
      · cases h
      · cases h
      · cases h
        exact .fail ‹_› ‹_›

end Client

end Nutsh.Prism
