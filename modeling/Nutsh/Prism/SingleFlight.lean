/-
One password a session.

While session reuse is in force a credential goes out only in the hand of the holder of the one
permit, and on a first or a renewing pass only when the jar is empty.  A server that opens a session
on every presentation it accepts fills the jar with the first of them, and the jar is emptied again
only by the bump of its generation; so the presentations accepted are paid for by the bumps.

Main definitions:

* `Client.Owned` — who has the credential in hand holds the permit;
* `Client.accepted`, `Client.pending` — the presentations accepted, and the one in flight;
* `Client.Serves` — what the server is taken to do;
* `Client.Paid` — the invariant: the accepted presentations are paid for by the generations.

Main results:

* `Client.paid_step` — the steps keep the invariant;
* `Client.accepted_le_generation` — at most one acceptance more than generations, and one at most
  between the requests that find one session ended;
* `Client.settled_exec` — with reuse in force every step is settled, so nothing presents after a
  refusal.
-/
import Nutsh.Prism.Refusal

set_option relaxedAutoImplicit false
set_option autoImplicit false

namespace Nutsh.Prism

namespace Phase

/-- The request has the credential in hand or on the wire. -/
def holding (p : Phase) : Bool := p.armed || p.presenting

/-- The credential goes out on a first or a renewing pass. -/
def fresh : Phase → Bool
  | carrying _ pass .credential | sleeping _ pass .credential | onWire _ pass .credential _ =>
      decide (pass ≠ .authenticate)
  | _ => false

/-- An answer of this status is the final one to a presentation: a first 429 is not. -/
def settles (status : ℕ) : Phase → Bool
  | onWire _ _ .credential retried => status != tooManyRequests || retried
  | _ => false

end Phase

/-! ### What the server sends -/

/-- No header deletes a cookie. -/
def Keeps (headers : List String) : Prop :=
  ∀ h ∈ headers, ∀ p, parseSetCookie h = some p → p.2.2 = false

/-- Some header sets a cookie. -/
def Sets (headers : List String) : Prop := ∃ h ∈ headers, ∃ p, parseSetCookie h = some p

instance (headers : List String) : Decidable (Keeps headers) :=
  inferInstanceAs (Decidable (∀ h ∈ headers, ∀ p ∈ parseSetCookie h, p.2.2 = false))

instance (headers : List String) : Decidable (Sets headers) :=
  decidable_of_iff (∃ h ∈ headers, (parseSetCookie h).isSome = true)
    (by simp only [Sets, Option.isSome_iff_exists])

theorem isEmpty_setCookie {cookies : IndexMap String String} {h : String}
    (hk : ∀ p, parseSetCookie h = some p → p.2.2 = false)
    (he : (SessionJar.setCookie cookies h).isEmpty = true) :
    cookies.isEmpty = true ∧ parseSetCookie h = none := by
  unfold SessionJar.setCookie at he
  cases hp : parseSetCookie h with
  | none => exact ⟨by simpa [hp] using he, rfl⟩
  | some p =>
      have hd := hk p hp
      obtain ⟨name, value, deleted⟩ := p
      simp only at hd
      simp [hp, hd] at he

/-- Headers that delete nothing leave an empty jar only where they found one and set nothing. -/
theorem isEmpty_foldl_setCookie {headers : List String} {cookies : IndexMap String String}
    (hk : Keeps headers) (he : (headers.foldl SessionJar.setCookie cookies).isEmpty = true) :
    cookies.isEmpty = true ∧ ¬ Sets headers := by
  induction headers generalizing cookies with
  | nil => exact ⟨he, by rintro ⟨h, hh, -⟩; cases hh⟩
  | cons h hs ih =>
      obtain ⟨he', hns⟩ := ih (fun x hx => hk x (List.mem_cons_of_mem h hx)) he
      obtain ⟨hc, hn⟩ := isEmpty_setCookie (hk h List.mem_cons_self) he'
      refine ⟨hc, ?_⟩
      rintro ⟨x, hx, p, hp⟩
      rcases List.mem_cons.1 hx with rfl | hx
      · rw [hn] at hp
        cases hp
      · exact hns ⟨x, hx, p, hp⟩

namespace SessionJar

theorem isEmpty_setCookies {jar : SessionJar} {headers : List String} (hk : Keeps headers)
    (he : (jar.setCookies headers).cookies.isEmpty = true) : jar.cookies.isEmpty = true := by
  unfold setCookies at he
  split at he
  · exact (isEmpty_foldl_setCookie hk he).1
  · exact he

theorem not_isEmpty_setCookies {jar : SessionJar} {headers : List String} (hu : jar.usable = true)
    (hk : Keeps headers) (hs : Sets headers) :
    ¬ (jar.setCookies headers).cookies.isEmpty = true := fun he => by
  rw [setCookies, if_pos hu] at he
  exact (isEmpty_foldl_setCookie hk he).2 hs

@[simp] theorem generation_setCookies (jar : SessionJar) (headers : List String) :
    (jar.setCookies headers).generation = jar.generation := by
  unfold setCookies
  split <;> rfl

@[simp] theorem generation_rememberOk (jar : SessionJar) (url : String) :
    (jar.rememberOk url).generation = jar.generation := by
  unfold rememberOk
  split <;> rfl

@[simp] theorem cookies_rememberOk (jar : SessionJar) (url : String) :
    (jar.rememberOk url).cookies = jar.cookies := by
  unfold rememberOk
  split <;> rfl

@[simp] theorem generation_answered (jar : SessionJar) (url : String) :
    (jar.answered url).generation = jar.generation := by
  simp [answered]

@[simp] theorem cookies_answered (jar : SessionJar) (url : String) :
    (jar.answered url).cookies = jar.cookies := by
  simp [answered]

@[simp] theorem generation_presented (jar : SessionJar) :
    jar.presented.generation = jar.generation := by
  unfold presented
  split <;> rfl

@[simp] theorem cookies_presented (jar : SessionJar) : jar.presented.cookies = jar.cookies := by
  unfold presented
  split <;> rfl

/-- An expiry empties the jar only with a bump of its generation. -/
theorem expire_cases (jar : SessionJar) (generation : ℕ) :
    ((jar.expire generation).generation = jar.generation ∧
        (jar.expire generation).cookies = jar.cookies ∧ jar.generation ≠ generation) ∨
      ((jar.expire generation).generation = jar.generation + 1 ∧ jar.generation = generation) := by
  unfold expire
  by_cases h : jar.generation = generation
  · exact Or.inr ⟨by simp [h], h⟩
  · exact Or.inl ⟨by simp [h], by simp [h], h⟩

/-- While reuse is worth attempting, a jar there is nothing to ride in is empty. -/
theorem isEmpty_of_ride {jar : SessionJar} (hu : jar.usable = true) (hr : jar.ride = none) :
    jar.cookies.isEmpty = true := by
  simpa [ride, hu] using hr

end SessionJar

namespace Client

variable {c c' : Client} {e : Event} {accepts : ℕ → Bool}

/-! ### The holder of the permit -/

/-- Who has the credential in hand or on the wire holds the permit. -/
def Owned (c : Client) : Prop := ∀ r, (c.requests r).holding = true → c.gate = some r

theorem Owned.of_eq {d : Client} (h : Owned c) (hg : d.gate = c.gate)
    (hr : d.requests = c.requests) : Owned d := by
  intro r hh
  rw [hg]
  exact h r (hr ▸ hh)

theorem Owned.move (h : Owned c) {r : ℕ} {p : Phase}
    (hp : p.holding = true → c.gate = some r) : Owned (c.move r p) := by
  intro r' hh
  by_cases hr : r' = r
  · subst hr
    exact hp (by simpa using hh)
  · rw [requests_move_ne hr] at hh
    exact h r' hh

/-- A request that gives its permit back and is done leaves the others with theirs. -/
theorem Owned.release_done (h : Owned c) (r : ℕ) : Owned ((c.release r).move r .done) := by
  intro r' hh
  by_cases hr : r' = r
  · rw [hr, requests_move_self] at hh
    cases hh
  · rw [requests_move_ne hr, requests_release] at hh
    have hg := h r' hh
    have hne : ¬ c.gate = some r := fun hg' => hr (Option.some.inj (hg.symm.trans hg'))
    rw [gate_move, release, if_neg hne]
    exact hg

/-- A request that holds the credential gives the one permit back when it is done. -/
theorem gate_release (h : Owned c) {r : ℕ} (hr : (c.requests r).holding = true) :
    (c.release r).gate = none := by
  simp [release, h r hr]

/-! ### The account -/

/-- The presentations accepted on a first or a renewing pass. -/
def accepted (accepts : ℕ → Bool) (c : Client) : ℕ :=
  c.answers.countP fun a => accepts a.status && decide (a.pass ≠ .authenticate)

/-- The presentation of a first or a renewing pass in flight, one at most: the permit is one. -/
def pending (c : Client) : ℕ :=
  match c.gate with
  | some r => if (c.requests r).fresh then 1 else 0
  | none => 0

/-- What the server is taken to do: no header deletes a cookie, and the final answer to a
presentation it accepts sets one. -/
def Serves (accepts : ℕ → Bool) (c : Client) : Event → Prop
  | .answer r _ status headers =>
      Keeps headers ∧
        ((c.requests r).settles status = true → accepts status = true → Sets headers)
  | .probed _ (some (_, headers)) => Keeps headers
  | _ => True

instance (accepts : ℕ → Bool) (c : Client) : (e : Event) → Decidable (Serves accepts c e)
  | .answer r _ status headers =>
      inferInstanceAs (Decidable (Keeps headers ∧
        ((c.requests r).settles status = true → accepts status = true → Sets headers)))
  | .probed _ (some (_, headers)) => inferInstanceAs (Decidable (Keeps headers))
  | .probed _ none | .send .. | .check _ | .carry _ | .acquire _ | .execute _ | .wake _
  | .fail _ => isTrue trivial

/-- **The invariant**: from `a₀` accepted at generation `g₀` on, the presentations accepted and the
one in flight are paid for by the generations, with one to spare while the jar is empty. -/
structure Paid (accepts : ℕ → Bool) (a₀ g₀ : ℕ) (c : Client) : Prop where
  owned : Owned c
  bound : accepted accepts c + pending c + g₀ ≤ c.jar.generation + a₀
  spare : c.jar.cookies.isEmpty = true → pending c = 0 →
    accepted accepts c + 1 + g₀ ≤ c.jar.generation + a₀

theorem pending_le_one (c : Client) : pending c ≤ 1 := by
  unfold pending
  split
  · split <;> omega
  · omega

theorem pending_of_gate_none (h : c.gate = none) : pending c = 0 := by
  simp [pending, h]

/-- Moving a request between phases of the same kind does not change what is in flight. -/
theorem pending_move {r : ℕ} {p : Phase} (hp : p.fresh = (c.requests r).fresh) :
    pending (c.move r p) = pending c := by
  unfold pending
  rw [gate_move]
  cases c.gate with
  | none => rfl
  | some r' =>
      by_cases hr : r' = r
      · subst hr
        simp [hp]
      · simp [requests_move_ne hr]

/-- A request that ends takes at most its own presentation out of flight. -/
theorem pending_release_done (c : Client) (r : ℕ) :
    pending ((c.release r).move r .done) ≤ pending c := by
  by_cases hg : c.gate = some r
  · rw [pending_of_gate_none (by simp [release, hg])]
    exact Nat.zero_le _
  · rw [release, if_neg hg]
    unfold pending
    rw [gate_move]
    cases hg' : c.gate with
    | none => exact Nat.le_refl _
    | some r' =>
        have hne : r' ≠ r := fun h => hg (h ▸ hg')
        simp [requests_move_ne hne]

/-- A quiet stretch: the request moves between phases of the same kind, and the jar is emptied at
most with a bump. -/
theorem Paid.quiet {a₀ g₀ : ℕ} (h : Paid accepts a₀ g₀ c) {d : Client} {r : ℕ} {p : Phase}
    (hd : d.requests = c.requests ∧ d.gate = c.gate ∧ d.answers = c.answers)
    (hgen : c.jar.generation ≤ d.jar.generation)
    (hjar : d.jar.cookies.isEmpty = true →
      c.jar.cookies.isEmpty = true ∨ c.jar.generation + 1 ≤ d.jar.generation)
    (hfresh : p.fresh = (c.requests r).fresh)
    (hhold : p.holding = true → (c.requests r).holding = true) : Paid accepts a₀ g₀ (d.move r p) := by
  obtain ⟨hreq, hgate, hans⟩ := hd
  have hpend : pending (d.move r p) = pending c := by
    rw [pending_move (by rw [hreq, hfresh])]
    simp [pending, hgate, hreq]
  have hacc : accepted accepts (d.move r p) = accepted accepts c := by
    simp [accepted, hans]
  have hb := h.bound
  refine ⟨?_, ?_, fun he hp0 => ?_⟩
  · exact (h.owned.of_eq hgate hreq).move fun hp => hgate ▸ h.owned r (hhold hp)
  · rw [hpend, hacc, jar_move]
    omega
  · rw [hpend] at hp0
    rw [hacc, jar_move]
    rcases hjar he with hemp | hbump
    · have hs := h.spare hemp hp0
      omega
    · omega

/-- A presentation answered: its permit is back, and what it had in flight is accepted or not. -/
theorem Paid.settle {a₀ g₀ : ℕ} (h : Paid accepts a₀ g₀ c) {d : Client} {r status : ℕ}
    {url : String} {pass : Pass} {retried : Bool}
    (hp : c.requests r = .onWire url pass .credential retried)
    (hd : d.requests = c.requests ∧ d.gate = c.gate ∧ d.answers = ⟨pass, status⟩ :: c.answers)
    (hgen : d.jar.generation = c.jar.generation)
    (hjar : d.jar.cookies.isEmpty = true → c.jar.cookies.isEmpty = true ∧ accepts status = false) :
    Paid accepts a₀ g₀ ((d.release r).move r .done) := by
  obtain ⟨hreq, hgate, hans⟩ := hd
  have howned : Owned d := h.owned.of_eq hgate hreq
  have hhold : (d.requests r).holding = true := by rw [hreq, hp]; rfl
  have hgr : c.gate = some r := h.owned r (by rw [hp]; rfl)
  have hpend : pending ((d.release r).move r .done) = 0 :=
    pending_of_gate_none (gate_release howned hhold)
  have hwas : pending c = if pass = .authenticate then 0 else 1 := by
    cases pass <;> simp [pending, hgr, hp, Phase.fresh]
  have hacc : accepted accepts ((d.release r).move r .done) =
      accepted accepts c + if accepts status && decide (pass ≠ .authenticate) then 1 else 0 := by
    simp [accepted, hans, List.countP_cons]
  have hb := h.bound
  refine ⟨howned.release_done r, ?_, fun he _ => ?_⟩
  · -- an acceptance on a counted pass takes the place of what was in flight
    rw [hpend, hacc, jar_move, jar_release, hgen]
    by_cases hpass : pass = .authenticate
    · simp only [hwas, hpass, if_true] at hb
      simpa [hpass] using hb
    · rw [hwas, if_neg hpass] at hb
      split <;> omega
  · -- an empty jar was empty before, and the answer was no acceptance
    rw [jar_move, jar_release] at he ⊢
    obtain ⟨hemp, hno⟩ := hjar he
    rw [hacc, hgen, hno, Bool.false_and, if_neg Bool.false_ne_true]
    by_cases hpass : pass = .authenticate
    · exact h.spare hemp (by rw [hwas, if_pos hpass])
    · rw [hwas, if_neg hpass] at hb
      omega

/-- What a session that ended makes of a request is neither held nor counted. -/
theorem Paid.sessionEnded {a₀ g₀ : ℕ} (h : Paid accepts a₀ g₀ c) {headers : List String}
    (hk : Keeps headers) {r generation : ℕ} {url : String} {pass : Pass}
    (hfresh : (c.requests r).fresh = false) :
    Paid accepts a₀ g₀
      ({ c with jar := c.jar.setCookies headers }.sessionEnded r url pass generation) := by
  obtain ⟨p, hend, hp⟩ :=
    sessionEnded_eq { c with jar := c.jar.setCookies headers } r url pass generation
  have hquiet : p.fresh = false ∧ p.holding = false := by
    rcases hp with rfl | ⟨next, rfl⟩ <;> exact ⟨rfl, rfl⟩
  rw [hend]
  refine h.quiet ⟨rfl, rfl, rfl⟩ ?_ (fun he => ?_) (hquiet.1.trans hfresh.symm)
    (fun hh => absurd hh (by simp [hquiet.2]))
  · rcases (c.jar.setCookies headers).expire_cases generation with ⟨hg, -⟩ | ⟨hg, -⟩ <;>
      rw [SessionJar.generation_setCookies] at hg <;> simp only [hg] <;> omega
  · rcases (c.jar.setCookies headers).expire_cases generation with ⟨-, hc, -⟩ | ⟨hg, -⟩
    · simp only [hc] at he
      exact Or.inl (SessionJar.isEmpty_setCookies hk he)
    · rw [SessionJar.generation_setCookies] at hg
      exact Or.inr (by simp only [hg]; omega)

/-- **The steps keep the account**, while reuse is in force and the server does what it is taken to
do. -/
theorem paid_step {a₀ g₀ : ℕ} (h401 : accepts unauthorized = false) (h : Paid accepts a₀ g₀ c)
    (hu : c.jar.usable = true) (hs : c.Serves accepts e) (hst : Stretch c e c') :
    Paid accepts a₀ g₀ c' := by
  -- a stretch that leaves the jar alone
  have still : ∀ {r : ℕ} {p : Phase}, p.fresh = (c.requests r).fresh →
      (p.holding = true → (c.requests r).holding = true) → Paid accepts a₀ g₀ (c.move r p) :=
    h.quiet ⟨rfl, rfl, rfl⟩ (Nat.le_refl _) Or.inl
  -- a stretch that banks the cookies of an answer, and nothing else
  have bank : ∀ {r : ℕ} {p : Phase} {headers : List String}, Keeps headers →
      p.fresh = (c.requests r).fresh → (p.holding = true → (c.requests r).holding = true) →
      Paid accepts a₀ g₀ ({ c with jar := c.jar.setCookies headers }.move r p) := by
    intro r p headers hk hf hh
    exact h.quiet ⟨rfl, rfl, rfl⟩ (by simp)
      (fun he => Or.inl (SessionJar.isEmpty_setCookies hk he)) hf hh
  cases hst with
  | send hp => exact still (by rw [hp]; rfl) (fun hh => by cases hh)
  | checkOpen hp hv => exact still (by rw [hp]; rfl) (fun hh => by cases hh)
  | checkShut hp hv => exact still (by rw [hp]; rfl) (fun hh => by cases hh)
  | carryDegraded hp hd =>
      rw [hu] at hd
      cases hd
  | carryRejected hp hr => exact still (by rw [hp]; rfl) (fun hh => by cases hh)
  | carryRide hp hr hg => exact still (by rw [hp]; rfl) (fun hh => by cases hh)
  | carryWait hp hr => exact still (by rw [hp]; rfl) (fun hh => by cases hh)
  | acquireRejected hp hg hr => exact still (by rw [hp]; rfl) (fun hh => by cases hh)
  | acquireRide hp hg hr hg' => exact still (by rw [hp]; rfl) (fun hh => by cases hh)
  | @acquirePresent r url pass hp hg hr hride =>
      -- the permit was free, so nothing was in flight; a counted pass found the jar empty
      have hown : Owned { c with gate := some r } := fun r' hh => by
        have := h.owned r' hh
        rw [hg] at this
        cases this
      have hpend := pending_of_gate_none hg
      have hb := h.bound
      have hnow : pending ({ c with gate := some r }.move r (.carrying url pass .credential)) =
          if pass = .authenticate then 0 else 1 := by
        cases pass <;> simp [pending, Phase.fresh]
      refine ⟨hown.move fun _ => rfl, ?_, fun he hp0 => h.spare he hpend⟩
      rw [hnow, jar_move]
      rcases hride with rfl | hride
      · simpa [accepted, hpend] using hb
      · have hs := h.spare (SessionJar.isEmpty_of_ride hu hride) hpend
        simp only [accepted, answers_move] at hs ⊢
        split <;> omega
  | @execute r url pass carry hp =>
      cases carry <;> exact still (by rw [hp]; rfl) (by rw [hp]; exact fun hh => hh)
  | @sleep r now status headers url pass carry hp hs' =>
      cases carry <;> exact bank hs.1 (by rw [hp]; rfl) (by rw [hp]; exact fun hh => hh)
  | @settleRefused r now status headers url pass retried hp hs' =>
      refine h.settle hp ⟨rfl, rfl, rfl⟩ (by simp) fun he => ?_
      exact ⟨SessionJar.isEmpty_setCookies hs.1 he, hs' ▸ h401⟩
  | @settlePresented r now status headers url pass retried hp hw hs' =>
      refine h.settle hp ⟨rfl, rfl, rfl⟩ (by simp) fun he => ?_
      simp only [SessionJar.cookies_presented, SessionJar.cookies_rememberOk] at he
      refine ⟨SessionJar.isEmpty_setCookies hs.1 he, ?_⟩
      -- an accepted presentation would have filled the jar
      by_contra hacc
      have hfinal : (c.requests r).settles status = true := by
        rw [hp]
        by_cases hw' : status = tooManyRequests
        · simp [Phase.settles, hw hw']
        · simp [Phase.settles, hw']
      exact SessionJar.not_isEmpty_setCookies hu hs.1 (hs.2 hfinal (by simpa using hacc)) he
  | settleRidden hp hs' =>
      exact h.quiet ⟨rfl, rfl, rfl⟩ (by simp)
        (fun he => Or.inl (SessionJar.isEmpty_setCookies hs.1 (by simpa using he)))
        (by rw [hp]; rfl) (fun hh => by cases hh)
  | settleProbe hp hs' => exact bank hs.1 (by rw [hp]; rfl) (fun hh => by cases hh)
  | settleEnded hp hs' => exact h.sessionEnded hs.1 (by rw [hp]; rfl)
  | @wake r url pass carry hp =>
      cases carry <;> exact still (by rw [hp]; rfl) (by rw [hp]; exact fun hh => hh)
  | probeFailed hp => exact still (by rw [hp]; rfl) (fun hh => by cases hh)
  | probeAlive hp hs' => exact bank hs (by rw [hp]; rfl) (fun hh => by cases hh)
  | probeEnded hp hs' => exact h.sessionEnded hs (by rw [hp]; rfl)
  | @fail r hi hd =>
      have hle := pending_release_done c r
      have hb := h.bound
      refine ⟨h.owned.release_done r, ?_, fun he _ => ?_⟩
      · simp only [accepted, answers_move, answers_release, jar_move, jar_release] at hb ⊢
        omega
      · rw [jar_move, jar_release] at he ⊢
        rcases Nat.eq_zero_or_pos (pending c) with hz | hz
        · simpa [accepted] using h.spare he hz
        · simp only [accepted, answers_move, answers_release] at hb ⊢
          omega

/-! ### Runs -/

/-- The generation of the session whose end the step settles. -/
def ends (c : Client) : Event → Option ℕ
  | .answer r _ status _ =>
      match c.requests r with
      | .onWire _ _ (.session generation) _ =>
          if status = unauthorized then some generation else none
      | _ => none
  | .probed r (some (status, _)) =>
      match c.requests r with
      | .probing _ _ generation => if status = unauthorized then some generation else none
      | _ => none
  | _ => none

/-- The jar moves to its next generation only where the end of its own session is settled. -/
theorem generation_step (hst : Stretch c e c') :
    c'.jar.generation = c.jar.generation ∨
      (c'.jar.generation = c.jar.generation + 1 ∧ c.ends e = some c.jar.generation) := by
  cases hst with
  | @settleEnded r now status generation headers url pass retried hp hs =>
      obtain ⟨p, hend, -⟩ :=
        sessionEnded_eq { c with jar := c.jar.setCookies headers } r url pass generation
      rw [hend, jar_move]
      rcases (c.jar.setCookies headers).expire_cases generation with ⟨hg, -⟩ | ⟨hg, he⟩
      · exact Or.inl (by simpa using hg)
      · exact Or.inr ⟨by simpa using hg, by simpa [ends, hp, hs] using he.symm⟩
  | @probeEnded r generation status headers url pass hp hs =>
      obtain ⟨p, hend, -⟩ :=
        sessionEnded_eq { c with jar := c.jar.setCookies headers } r url pass generation
      rw [hend, jar_move]
      rcases (c.jar.setCookies headers).expire_cases generation with ⟨hg, -⟩ | ⟨hg, he⟩
      · exact Or.inl (by simpa using hg)
      · exact Or.inr ⟨by simpa using hg, by simpa [ends, hp, hs] using he.symm⟩
  | _ => exact Or.inl (by simp)

theorem paid_exec {a₀ g₀ : ℕ} {d : Client} {es : List Event} (h401 : accepts unauthorized = false)
    (h : Paid accepts a₀ g₀ c)
    (hs : Run.Along step (fun c e => c.jar.usable = true ∧ c.Serves accepts e) c es)
    (hrun : Run.exec step c es = some d) : Paid accepts a₀ g₀ d :=
  Run.exec_inv_along (fun _ _ _ hc hP hstep => paid_step h401 hc hP.1 hP.2 (step_stretch hstep))
    h hs hrun

/-- While the only sessions that end are of one generation, the jar is bumped once at most. -/
theorem generation_exec {d : Client} {es : List Event} {g : ℕ} (hg : c.jar.generation ≤ g + 1)
    (hsame : Run.Along step (fun c e => ∀ k, c.ends e = some k → k = g) c es)
    (hrun : Run.exec step c es = some d) : d.jar.generation ≤ g + 1 := by
  refine Run.exec_inv_along (I := fun c => c.jar.generation ≤ g + 1) ?_ hg hsame hrun
  intro c e c' hc hk hstep
  rcases generation_step (step_stretch hstep) with he | ⟨he, hend⟩
  · omega
  · have := hk _ hend
    omega

/-- A fresh client has accepted nothing and may spend one password. -/
theorem paid_init : Paid accepts 1 0 {} where
  owned r hh := by cases hh
  bound := by simp [accepted, pending]
  spare _ _ := by simp [accepted]

/-- **One password a session.**  While reuse is in force, with a server that sets a cookie on every
presentation it accepts and deletes none: at most one first or renewing presentation more than the
generations of the jar is accepted, and from a state with a live session on, the requests that find
that one session ended cost one accepted presentation between them. -/
theorem accepted_le_generation {es fs : List Event} {c d : Client}
    (h401 : accepts unauthorized = false)
    (hs : Run.Along step (fun c e => c.jar.usable = true ∧ c.Serves accepts e) {} (es ++ fs))
    (hc : run es = some c) (hd : Run.exec step c fs = some d) :
    accepted accepts d ≤ d.jar.generation + 1 ∧
      (c.jar.cookies.isEmpty = false →
        Run.Along step (fun s e => ∀ k, s.ends e = some k → k = c.jar.generation) c fs →
          accepted accepts d ≤ accepted accepts c + pending c + 1) := by
  obtain ⟨hes, hfs⟩ := Run.along_append.1 hs
  have hpc : Paid accepts 1 0 c := paid_exec h401 paid_init hes hc
  constructor
  · have hb := (paid_exec h401 hpc (hfs c hc) hd).bound
    omega
  · intro hlive hsame
    have hfrom : Paid accepts (accepted accepts c + pending c) c.jar.generation c :=
      ⟨hpc.owned, by omega, fun he => absurd he (by simp [hlive])⟩
    have hb := (paid_exec h401 hfrom (hfs c hc) hd).bound
    have hg := generation_exec (Nat.le_succ _) hsame hd
    omega

/-- One request presents the credential and is answered with a session, another rides it. -/
def login : List Event :=
  [.send 0 "/a", .check 0, .carry 0, .acquire 0, .execute 0, .answer 0 0 200 ["s=1"],
    .send 3 "/a", .check 3, .carry 3, .execute 3, .answer 3 0 200 []]

/-- Two requests ride one session, find it ended, and come back round. -/
def twoHolders : List Event :=
  [.send 1 "/a", .check 1, .carry 1, .execute 1, .send 2 "/a", .check 2, .carry 2, .execute 2,
    .answer 1 0 401 [], .answer 2 0 401 [], .check 1, .carry 1, .check 2, .carry 2, .acquire 1,
    .execute 1, .answer 1 0 200 ["s=2"], .acquire 2, .execute 2]

/-- Two requests that find one session ended cost one password between them. -/
theorem accepted_le_generation_two_holders :
    ∃ c d : Client, run login = some c ∧ Run.exec step c twoHolders = some d ∧
      d.accepted (· == 200) ≤ c.accepted (· == 200) + c.pending + 1 :=
  ⟨_, _, rfl, rfl, (accepted_le_generation rfl
    (show Run.Along step (fun c e => c.jar.usable = true ∧ c.Serves (· == 200) e) {}
      (login ++ twoHolders) by decide) rfl rfl).2 rfl (by decide)⟩

/-! ### Reuse in force -/

/-- The credential is in the hand of the holder of the permit alone, and of nobody once it is
rejected. -/
structure Gated (c : Client) : Prop where
  owned : Owned c
  rejected : c.state = .rejected → ∀ r, (c.requests r).holding = false

/-- A stretch in which no request comes to hold the credential. -/
theorem Gated.quiet (h : Gated c) {d : Client} {r : ℕ} {p : Phase}
    (hd : d.requests = c.requests ∧ d.gate = c.gate)
    (hstate : d.state = .rejected → c.state = .rejected)
    (hhold : p.holding = true → (c.requests r).holding = true) : Gated (d.move r p) where
  owned := (h.owned.of_eq hd.2 hd.1).move fun hp => hd.2 ▸ h.owned r (hhold hp)
  rejected hs r' := by
    refine Bool.eq_false_iff.2 fun hh => ?_
    have hwas := of_move (q := Phase.holding) (fun hp => hd.1 ▸ hhold hp) hh
    rw [hd.1, h.rejected (hstate hs) r'] at hwas
    cases hwas

/-- A request that ends gives its permit back, and no other holds the credential after a refusal. -/
theorem Gated.release_done (h : Gated c) {d : Client} {r : ℕ}
    (hd : d.requests = c.requests ∧ d.gate = c.gate)
    (hstate : d.state = .rejected → c.state = .rejected ∨ (c.requests r).holding = true) :
    Gated ((d.release r).move r .done) where
  owned := (h.owned.of_eq hd.2 hd.1).release_done r
  rejected hs r' := by
    rw [state_move, state_release] at hs
    by_cases hr : r' = r
    · rw [hr, requests_move_self]
      rfl
    · rw [requests_move_ne hr, requests_release, hd.1]
      rcases hstate hs with hs | hhold
      · exact h.rejected hs r'
      · refine Bool.eq_false_iff.2 fun hh => hr ?_
        exact Option.some.inj ((h.owned r' hh).symm.trans (h.owned r hhold))

/-- While reuse is in force every step leaves the credential with the holder of the permit. -/
theorem gated_step (h : Gated c) (hu : c.jar.usable = true) (hst : Stretch c e c') : Gated c' := by
  have still : ∀ {r : ℕ} {p : Phase}, (p.holding = true → (c.requests r).holding = true) →
      Gated (c.move r p) := h.quiet ⟨rfl, rfl⟩ id
  cases hst with
  | carryDegraded hp hd =>
      rw [hu] at hd
      cases hd
  | @acquirePresent r url pass hp hg hr hride =>
      refine ⟨Owned.move (fun r' hh => ?_) fun _ => rfl, fun hs => absurd hs hr⟩
      have := h.owned r' hh
      rw [hg] at this
      cases this
  | @execute r url pass carry hp => cases carry <;> exact still (by rw [hp]; exact fun hh => hh)
  | @sleep r now status headers url pass carry hp hs =>
      cases carry <;> exact h.quiet ⟨rfl, rfl⟩ id (by rw [hp]; exact fun hh => hh)
  | settleRefused hp hs => exact h.release_done ⟨rfl, rfl⟩ fun _ => Or.inr (by rw [hp]; rfl)
  | settlePresented hp hw hs => exact h.release_done ⟨rfl, rfl⟩ fun _ => Or.inr (by rw [hp]; rfl)
  | settleRidden hp hs =>
      refine h.quiet ⟨rfl, rfl⟩ (fun hr => ?_) (fun hh => by cases hh)
      by_contra hne
      simp [AuthState.settle, hne, hs] at hr
  | @settleEnded r now status generation headers url pass retried hp hs =>
      obtain ⟨p, hend, rfl | ⟨next, rfl⟩⟩ :=
        sessionEnded_eq { c with jar := c.jar.setCookies headers } r url pass generation <;>
      · rw [hend]
        exact h.quiet ⟨rfl, rfl⟩ id (fun hh => by cases hh)
  | @wake r url pass carry hp => cases carry <;> exact still (by rw [hp]; exact fun hh => hh)
  | @probeEnded r generation status headers url pass hp hs =>
      obtain ⟨p, hend, rfl | ⟨next, rfl⟩⟩ :=
        sessionEnded_eq { c with jar := c.jar.setCookies headers } r url pass generation <;>
      · rw [hend]
        exact h.quiet ⟨rfl, rfl⟩ id (fun hh => by cases hh)
  | fail hi hd => exact h.release_done ⟨rfl, rfl⟩ Or.inl
  | _ => exact h.quiet ⟨rfl, rfl⟩ id (fun hh => by cases hh)

/-- With the credential in the hand of the holder of the permit alone, every step is settled. -/
theorem settled_of_gated (h : Gated c) (hu : c.jar.usable = true) (e : Event) : c.Settled e := by
  cases e with
  | carry r => exact fun _ => hu
  | answer r now status headers =>
      simp only [Settled]
      split
      · rename_i url pass retried hp
        have hhold : (c.requests r).holding = true := by rw [hp]; rfl
        refine ⟨fun _ r' => Bool.eq_false_iff.2 fun ha => ?_, fun _ _ hs => ?_⟩
        · have hr : r' = r := Option.some.inj ((h.owned r' (by simp [Phase.holding, ha])).symm.trans
            (h.owned r hhold))
          rw [hr, hp] at ha
          cases ha
        · rw [h.rejected hs r] at hhold
          cases hhold
      · trivial
  | _ => trivial

/-- **With reuse in force every step is settled**, so nothing presents after a refusal. -/
theorem settled_exec {es : List Event} (h : Gated c)
    (hu : Run.Along step (fun c _ => c.jar.usable = true) c es) : Run.Along step Settled c es :=
  Run.Along.imp (fun _ _ _ hc hP hstep => gated_step hc hP (step_stretch hstep))
    (fun _ e hc hP => settled_of_gated hc hP e) h hu

/-- A fresh client is gated. -/
theorem gated_init : Gated {} where
  owned r hh := by cases hh
  rejected hs := by cases hs

/-- While reuse is in force, once a presentation has been answered 401 no later step presents. -/
theorem silent_of_usable {es fs : List Event} {c d : Client}
    (hu : Run.Along step (fun c _ => c.jar.usable = true) {} (es ++ fs)) (hc : run es = some c)
    (hd : Run.exec step c fs = some d) (hr : c.Refused) :
    Run.Along step (fun c e => c.presents e = false) c fs := by
  obtain ⟨hes, hfs⟩ := Run.along_append.1 (settled_exec gated_init hu)
  have h₀ : ({} : Client).Refused → Silent {} := by rintro ⟨a, ha, -⟩; cases ha
  exact (silent_run (silent_exec h₀ hes hc hr) (hfs c hc) hd).1

end Client

end Nutsh.Prism
