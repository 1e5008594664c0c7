/-
Nothing carries a refused credential out again.

Once a presentation has been answered 401 the client is to present the credential no more; only the
presentations on the wire at that instant may still be answered.  The latch is read at the head of a
trip and where a request decides what to carry, so what stays is a request past both with the
credential in hand: one about to go out, or one asleep after a 429.  This file says after which
steps no request is in that place.

Main definitions:

* `Phase.armed` — the request has the credential in hand and off the wire;
* `Client.presents` — the step sends the credential out;
* `Client.Settled` — the step leaves no credential in hand behind a refusal.

Main results:

* `Client.silent_step`, `Client.silent_exec` — a refused client stays silent;
* `Client.no_presentation_after_refusal` — in a run of such steps nothing presents after a refusal;
* `Client.not_no_presentation_after_refusal` — in the degraded mode a run of others does.
-/
import Nutsh.Prism.Session

set_option relaxedAutoImplicit false
set_option autoImplicit false

namespace Nutsh.Prism

namespace Phase

/-- The request has the credential in hand, off the wire: it is about to go out with it. -/
def armed : Phase → Bool
  | carrying _ _ .credential | sleeping _ _ .credential => true
  | _ => false

/-- The request has the credential on the wire. -/
def presenting : Phase → Bool
  | onWire _ _ .credential _ => true
  | _ => false

end Phase

namespace Client

variable {c c' : Client} {e : Event}

/-- The step sends the credential out. -/
def presents (c : Client) : Event → Bool
  | .execute r | .wake r => (c.requests r).armed
  | _ => false

/-- A presentation was answered 401. -/
def Refused (c : Client) : Prop := ∃ a ∈ c.answers, a.status = unauthorized

/-- The step leaves no credential in hand behind a refusal: none is decided on in the degraded mode
once the credential is rejected, none is in the hand of another request when a presentation is
refused, and a presentation still on the wire then is not put to sleep by a 429. -/
def Settled (c : Client) : Event → Prop
  | .carry _ => c.state = .rejected → c.jar.usable = true
  | .answer r _ status _ =>
      match c.requests r with
      | .onWire _ _ .credential retried =>
          (status = unauthorized → ∀ r', (c.requests r').armed = false) ∧
            (status = tooManyRequests → retried = false → c.state ≠ .rejected)
      | _ => True
  | _ => True

/-- A rejected client with the credential in no request's hand. -/
structure Silent (c : Client) : Prop where
  rejected : c.state = .rejected
  unarmed : ∀ r, (c.requests r).armed = false

/-- No step of a silent client presents. -/
theorem Silent.not_presents (h : Silent c) (e : Event) : c.presents e = false := by
  cases e with
  | execute r => exact h.unarmed r
  | wake r => exact h.unarmed r
  | _ => rfl

/-- Moving a request to a phase without the credential in hand keeps a client silent. -/
theorem Silent.move (h : Silent c) {p : Phase} (hp : p.armed = false) (r : ℕ) :
    Silent (c.move r p) where
  rejected := h.rejected
  unarmed r' := by
    by_cases hr : r' = r
    · simpa [hr] using hp
    · rw [requests_move_ne hr]
      exact h.unarmed r'

/-- What else a step changes of a silent client does not arm a request. -/
theorem Silent.of_eq {d : Client} (h : Silent c) (hs : d.state = .rejected)
    (hr : d.requests = c.requests) : Silent d where
  rejected := hs
  unarmed r := hr ▸ h.unarmed r

/-- A request whose session ended is at the head of its next trip, or done. -/
theorem sessionEnded_eq (c : Client) (r : ℕ) (url : String) (pass : Pass) (generation : ℕ) :
    ∃ p : Phase, c.sessionEnded r url pass generation =
        { c with jar := c.jar.expire generation }.move r p ∧
      (p = .done ∨ ∃ next, p = .head url next) := by
  refine ⟨_, rfl, ?_⟩
  cases pass.next with
  | none => exact Or.inl rfl
  | some next => exact Or.inr ⟨next, rfl⟩

/-- **A refused client stays silent.**  A settled step of a silent client leaves it silent, and puts
no presentation on the wire. -/
theorem silent_step (h : Silent c) (hset : c.Settled e) (hst : Stretch c e c') :
    Silent c' ∧ ∀ r, (c'.requests r).presenting = true → (c.requests r).presenting = true := by
  -- a step moves one request to a phase that neither holds nor presents the credential
  have key : ∀ (d : Client) (r : ℕ) (p : Phase), d.state = .rejected → d.requests = c.requests →
      p.armed = false → p.presenting = false →
      Silent (d.move r p) ∧
        ∀ r', ((d.move r p).requests r').presenting = true →
          (c.requests r').presenting = true := by
    intro d r p hs hr ha hp
    refine ⟨(h.of_eq hs hr).move ha r, fun r' hr' => ?_⟩
    rw [← hr]
    exact of_move (fun hq => absurd hq (by simp [hp])) hr'
  have hrej := h.rejected
  cases hst with
  | send hp => exact key c _ _ hrej rfl rfl rfl
  | checkOpen hp hv => exact key c _ _ hrej rfl rfl rfl
  | checkShut hp hv => exact key c _ _ hrej rfl rfl rfl
  | carryDegraded hp hu =>
      rw [hset hrej] at hu
      cases hu
  | carryRejected hp hs => exact key c _ _ hrej rfl rfl rfl
  | carryRide hp hs hr => exact absurd hrej hs
  | carryWait hp hs => exact absurd hrej hs
  | acquireRejected hp hg hs => exact key c _ _ hrej rfl rfl rfl
  | acquireRide hp hg hs hr => exact absurd hrej hs
  | acquirePresent hp hg hs hr => exact absurd hrej hs
  | @execute r url pass carry hp =>
      have ha := h.unarmed r
      rw [hp] at ha
      cases carry with
      | credential => cases ha
      | session g => exact key c _ _ hrej rfl rfl rfl
  | @sleep r now status headers url pass carry hp hs =>
      cases carry with
      | credential =>
          simp only [Settled, hp] at hset
          exact absurd hrej (hset.2 hs trivial)
      | session g => exact key _ _ _ hrej rfl rfl rfl
  | settleRefused hp hs => exact key _ _ _ (by simp) (by simp) rfl rfl
  | settlePresented hp hw hs => exact key _ _ _ (by simp [hrej]) (by simp) rfl rfl
  | settleRidden hp hs => exact key _ _ _ (by simp [hrej]) rfl rfl rfl
  | settleProbe hp hs => exact key _ _ _ hrej rfl rfl rfl
  | @settleEnded r now status generation headers url pass retried hp hs =>
      obtain ⟨p, he, rfl | ⟨next, rfl⟩⟩ :=
        sessionEnded_eq { c with jar := c.jar.setCookies headers } r url pass generation <;>
      · rw [he]
        exact key _ _ _ hrej rfl rfl rfl
  | @wake r url pass carry hp =>
      have ha := h.unarmed r
      rw [hp] at ha
      cases carry with
      | credential => cases ha
      | session g => exact key c _ _ hrej rfl rfl rfl
  | probeFailed hp => exact key c _ _ hrej rfl rfl rfl
  | probeAlive hp hs => exact key _ _ _ hrej rfl rfl rfl
  | @probeEnded r generation status headers url pass hp hs =>
      obtain ⟨p, he, rfl | ⟨next, rfl⟩⟩ :=
        sessionEnded_eq { c with jar := c.jar.setCookies headers } r url pass generation <;>
      · rw [he]
        exact key _ _ _ hrej rfl rfl rfl
  | fail hi hd => exact key _ _ _ (by simp [hrej]) (by simp) rfl rfl

/-- A settled step that refuses the credential leaves the client silent. -/
theorem silent_of_refused (hset : c.Settled e) (hst : Stretch c e c') (hn : ¬ c.Refused)
    (hr : c'.Refused) : Silent c' := by
  -- only the settling of a presentation records an answer
  have hold : c'.answers = c.answers → Silent c' := fun he => by
    rw [Refused, he] at hr
    exact absurd hr hn
  cases hst with
  | @settleRefused r now status headers url pass retried hp hs =>
      simp only [Settled, hp] at hset
      refine ⟨by simp, fun r' => ?_⟩
      by_cases hrr : r' = r
      · simp [hrr, Phase.armed]
      · rw [requests_move_ne hrr, requests_release]
        exact hset.1 hs r'
  | settlePresented hp hw hs =>
      obtain ⟨a, ha, hau⟩ := hr
      simp only [answers_move, answers_release, List.mem_cons] at ha
      rcases ha with rfl | ha
      · exact absurd hau hs
      · exact absurd ⟨a, ha, hau⟩ hn
  | fail hi hd => exact hold (by simp)
  | _ => exact hold rfl

/-- In a run of settled steps a refused client is silent. -/
theorem silent_exec {d : Client} {es : List Event} (h : c.Refused → Silent c)
    (hset : Run.Along step Settled c es) (hrun : Run.exec step c es = some d) :
    d.Refused → Silent d := by
  refine Run.exec_inv_along (I := fun c => c.Refused → Silent c) ?_ h hset hrun
  intro c e c' hc hs hstep hr
  by_cases hn : c.Refused
  · exact (silent_step (hc hn) hs (step_stretch hstep)).1
  · exact silent_of_refused hs (step_stretch hstep) hn hr

/-- From a silent client on, a run of settled steps presents nothing, and what is on the wire at its
end was there at its start. -/
theorem silent_run {d : Client} {es : List Event} (h : Silent c)
    (hset : Run.Along step Settled c es) (hrun : Run.exec step c es = some d) :
    Run.Along step (fun c e => c.presents e = false) c es ∧
      ∀ r, (d.requests r).presenting = true → (c.requests r).presenting = true := by
  induction es generalizing c with
  | nil =>
      cases hrun
      exact ⟨trivial, fun _ => id⟩
  | cons e es ih =>
      obtain ⟨u, hu, hrun⟩ := Run.exec_cons_eq_some.1 hrun
      obtain ⟨hsil, hwire⟩ := silent_step h hset.1 (step_stretch hu)
      obtain ⟨hal, hlast⟩ := ih hsil (hset.2 u hu) hrun
      exact ⟨.cons (h.not_presents e) hu hal, fun r hr => hwire r (hlast r hr)⟩

/-- **Nothing presents after a refusal.**  In a run all of whose steps are settled, once a
presentation has been answered 401 no later step sends the credential out, and a presentation on the
wire later was on the wire then. -/
theorem no_presentation_after_refusal {es fs : List Event} {c d : Client}
    (hset : Run.Along step Settled {} (es ++ fs)) (hc : run es = some c)
    (hd : Run.exec step c fs = some d) (hr : c.Refused) :
    Run.Along step (fun c e => c.presents e = false) c fs ∧
      ∀ r, (d.requests r).presenting = true → (c.requests r).presenting = true := by
  obtain ⟨hes, hfs⟩ := Run.along_append.1 hset
  have h₀ : ({} : Client).Refused → Silent {} := by rintro ⟨a, ha, -⟩; cases ha
  exact silent_run (silent_exec h₀ hes hc hr) (hfs c hc) hd

/-- One presentation refused, and a second request stopped at the valve. -/
theorem no_presentation_after_one_refusal :
    Run.Along step (fun c e => c.presents e = false)
      ((run [.send 0 "/a", .check 0, .carry 0, .acquire 0, .execute 0, .answer 0 0 401 []]).getD {})
      [.send 1 "/a", .check 1] :=
  (no_presentation_after_refusal
    (show Run.Along step Settled {}
        ([.send 0 "/a", .check 0, .carry 0, .acquire 0, .execute 0, .answer 0 0 401 []] ++
          [.send 1 "/a", .check 1]) from
      .cons trivial rfl <| .cons trivial rfl <| .cons (fun h => nomatch h) rfl <|
        .cons trivial rfl <| .cons trivial rfl <|
        .cons ⟨fun _ r => by cases r <;> rfl, fun h => nomatch h⟩ rfl <|
        .cons trivial rfl <| .cons trivial rfl trivial)
    rfl rfl ⟨⟨.first, 401⟩, by decide, rfl⟩).1

/-- Two sessions that came to nothing put the client in the degraded mode; there a request asleep
after a 429 goes out with the credential although another was refused meanwhile. -/
theorem not_no_presentation_after_refusal :
    ¬ ∀ (es : List Event) (c : Client) (e : Event), run es = some c → c.Refused →
      (c.step e).isSome = true → c.presents e = false := by
  intro h
  have hp := h
    [.send 0 "/a", .check 0, .carry 0, .acquire 0, .execute 0, .answer 0 0 200 [],
      .send 1 "/a", .check 1, .carry 1, .acquire 1, .execute 1, .answer 1 0 200 [],
      .send 2 "/a", .check 2, .carry 2, .execute 2, .answer 2 0 429 [],
      .send 3 "/a", .check 3, .carry 3, .execute 3, .answer 3 0 401 []] _ (.wake 2) rfl
    ⟨⟨.first, 401⟩, by decide, rfl⟩ rfl
  cases hp

end Client

end Nutsh.Prism
