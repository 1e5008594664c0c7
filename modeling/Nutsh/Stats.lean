/-
The counters of the header.

A cycle asks for the counters one after another.  A counter that is answered shows its total, one that is
refused is blanked and never asked for again, one that fails otherwise keeps its number, and one with
nothing behind it is blanked without asking.  A cycle in which every request failed is dropped: what was
shown before it stays, and is drawn as stale.

* `Stats`, `COUNTERS`, `CounterDef.ask` — what is shown, the counters, and what is asked for one of them;
* `cycle`, `fold`, `Poller.step` — one pass over the counters, what is shown after it, and the loop;
* `Honest` — what is shown, against everything that was asked and answered;
* `honest_of_run` — it holds after every run of cycles.
-/
import Nutsh.Catalog
import Nutsh.Lib.Replace
import Nutsh.Lib.Run
import Nutsh.Prism.Negotiate

set_option relaxedAutoImplicit false
set_option autoImplicit false

namespace Nutsh.Counters

open Prism (PrismError)

inductive Counter where
  | clusters | hosts | vms | vmsOn | alertsCritical | alertsWarning | tasksRunning
  deriving DecidableEq, Repr

/-- A counter, or nothing when it could not be read. -/
abbrev Count := Option ℕ

structure Stats where
  clusters : Count := none
  hosts : Count := none
  vms : Count := none
  vmsOn : Count := none
  alertsCritical : Count := none
  alertsWarning : Count := none
  tasksRunning : Count := none
  /-- Every request of the last cycle failed, and the numbers are those before it. -/
  stale : Bool := false
  deriving DecidableEq, Repr

namespace Stats

/-- What a counter shows. -/
def slot (s : Stats) : Counter → Count
  | .clusters => s.clusters
  | .hosts => s.hosts
  | .vms => s.vms
  | .vmsOn => s.vmsOn
  | .alertsCritical => s.alertsCritical
  | .alertsWarning => s.alertsWarning
  | .tasksRunning => s.tasksRunning

def write (s : Stats) (c : Counter) (n : Count) : Stats :=
  match c with
  | .clusters => { s with clusters := n }
  | .hosts => { s with hosts := n }
  | .vms => { s with vms := n }
  | .vmsOn => { s with vmsOn := n }
  | .alertsCritical => { s with alertsCritical := n }
  | .alertsWarning => { s with alertsWarning := n }
  | .tasksRunning => { s with tasksRunning := n }

@[simp] theorem slot_write (s : Stats) (c d : Counter) (n : Count) :
    (s.write c n).slot d = if d = c then n else s.slot d := by
  cases c <;> cases d <;> rfl

@[simp] theorem stale_write (s : Stats) (c : Counter) (n : Count) : (s.write c n).stale = s.stale := by
  cases c <;> rfl

end Stats

structure CounterDef where
  counter : Counter
  kind : String
  filter : Option String
  /-- The property a pinned cluster is matched on, if the counter can be scoped to one. -/
  clusterOn : Option String

def COUNTERS : List CounterDef :=
  [ { counter := .clusters, kind := "clustermgmt.config.Cluster", filter := none, clusterOn := none },
    { counter := .hosts, kind := "clustermgmt.config.Host", filter := none, clusterOn := none },
    { counter := .vms, kind := "vmm.ahv.config.Vm", filter := none, clusterOn := some "cluster/extId" },
    { counter := .vmsOn, kind := "vmm.ahv.config.Vm",
      filter := some "powerState eq Vmm.Ahv.Config.PowerState'ON'", clusterOn := some "cluster/extId" },
    { counter := .alertsCritical, kind := "monitoring.serviceability.Alert",
      filter := some "severity eq Monitoring.Common.Severity'CRITICAL' and isResolved eq false",
      clusterOn := some "clusterUUID" },
    { counter := .alertsWarning, kind := "monitoring.serviceability.Alert",
      filter := some "severity eq Monitoring.Common.Severity'WARNING' and isResolved eq false",
      clusterOn := some "clusterUUID" },
    { counter := .tasksRunning, kind := "prism.config.Task",
      filter := some "status eq Prism.Config.TaskStatus'RUNNING'", clusterOn := none } ]

/-- What a session is of: the kinds of its catalog, and the cluster it is pinned to. -/
structure Session where
  kind : String → Option Kind
  cluster : Option String := none

/-- What a cycle meets. -/
structure Round where
  served : Kind → Bool
  /-- The total of the first page of a counter's list, or why there is none. -/
  answer : Counter → Except PrismError Count
  /-- After the cycle: the credential was refused. -/
  authRejected : Bool := false

/-- Whether the server refused a request rather than failed to answer it. -/
def isRefusal : PrismError → Bool
  | .auth | .denied _ | .forbidden _ | .notFound _ => true
  | .api status _ _ => 400 ≤ status && status ≤ 499
  | _ => false

def odataLiteral (s : String) : String := Text.replace "'" "''" s

/-- A request for the total of a list. -/
structure Request where
  kind : Kind
  page : ℕ := 0
  limit : ℕ := 1
  filter : Option String

/-- The request for a counter; none where nothing is behind it, or only what is not of the pinned cluster. -/
def CounterDef.ask (session : Session) (served : Kind → Bool) (refused : List Counter) (d : CounterDef) :
    Option Request :=
  if refused.contains d.counter then none
  else
    match session.kind d.kind with
    | none => none
    | some kind =>
        if !served kind then none
        else
          let limited (filter : Option String) : Option Request :=
            -- a list that takes no filter would count the fleet
            if filter.isSome && !kind.filter then none else some { kind, filter }
          match session.cluster, d.clusterOn with
          | none, _ => limited d.filter
          | some c, some field =>
              let scope := s!"{field} eq '{odataLiteral c}'"
              match d.filter with
              | some f => limited (some s!"{f} and {scope}")
              | none => limited (some scope)
          | some _, none => none

/-- A request that went out for a counter, and what it was answered. -/
structure Sent where
  counter : Counter
  request : Request
  answer : Except PrismError Count

/-- A cycle under way. -/
structure Pass where
  stats : Stats
  refused : List Counter
  sent : List Sent := []
  answered : Bool := false

inductive Outcome where
  | answered
  /-- Every request that went out failed. -/
  | allFailed
  /-- No request went out. -/
  | nothingAsked
  deriving DecidableEq, Repr

def cycleStep (session : Session) (r : Round) (p : Pass) (d : CounterDef) : Pass :=
  match d.ask session r.served p.refused with
  | none => { p with stats := p.stats.write d.counter none }
  | some request =>
      let answer := r.answer d.counter
      let p := { p with sent := p.sent ++ [{ counter := d.counter, request, answer }] }
      match answer with
      | .ok total => { p with answered := true, stats := p.stats.write d.counter total }
      | .error e =>
          if isRefusal e then
            { p with refused := p.refused ++ [d.counter], stats := p.stats.write d.counter none }
          else p

def outcome (answered asked : Bool) : Outcome :=
  match answered, asked with
  | true, _ => .answered
  | false, true => .allFailed
  | false, false => .nothingAsked

/-- One pass over the counters, and what it managed. -/
def cycle (session : Session) (r : Round) (previous : Stats) (refused : List Counter) : Pass × Outcome :=
  let p := COUNTERS.foldl (cycleStep session r) { stats := { previous with stale := false }, refused }
  let stats := if session.cluster.isSome then p.stats.write .clusters (some 1) else p.stats
  ({ p with stats }, outcome p.answered !p.sent.isEmpty)

def fold (previous stats : Stats) : Outcome → Stats
  | .answered | .nothingAsked => stats
  | .allFailed => { previous with stale := true }

/-- The poller of a session, with the requests of its cycles. -/
structure Poller where
  previous : Stats := {}
  refused : List Counter := []
  /-- What went out, cycle by cycle. -/
  log : List (List Sent) := []
  ended : Bool := false

/-- One cycle; a refused credential ends the loop. -/
def Poller.step (session : Session) (s : Poller) (r : Round) : Option Poller :=
  if s.ended then none
  else
    let (p, outcome) := cycle session r s.previous s.refused
    some { previous := fold s.previous p.stats outcome, refused := p.refused, log := s.log ++ [p.sent],
           ended := r.authRejected }

/-! ### What is shown against what was asked -/

def Sent.isRefused (x : Sent) : Bool :=
  match x.answer with
  | .error e => isRefusal e
  | .ok _ => false

/-- A request for the counter was refused. -/
def Refused (sent : List Sent) (c : Counter) : Prop :=
  ∃ x ∈ sent, x.counter = c ∧ ∃ e, x.answer = .error e ∧ isRefusal e = true

instance (sent : List Sent) (c : Counter) : Decidable (Refused sent c) :=
  decidable_of_iff (∃ x ∈ sent, x.counter = c ∧ x.isRefused = true) <| by
    refine exists_congr fun x => and_congr_right fun _ => and_congr_right fun _ => ?_
    rw [Sent.isRefused]
    cases x.answer <;> simp

/-- The total of an answered request for the counter. -/
def totalOf (c : Counter) (x : Sent) : Option Count :=
  if x.counter = c then x.answer.toOption else none

/-- The total of the last answered request for a counter. -/
def lastTotal (log : List (List Sent)) (c : Counter) : Option Count :=
  (log.flatten.filterMap (totalOf c)).getLast?

/-- The requests of the last cycle. -/
def lastSent (log : List (List Sent)) : List Sent := log.getLast?.getD []

/-- What is shown, against all that was asked and answered. -/
structure Honest (session : Session) (log : List (List Sent)) (shown : Stats) : Prop where
  /-- No request for a counter follows its refusal. -/
  once : log.Pairwise fun earlier later => ∀ x ∈ later, ¬ Refused earlier x.counter
  /-- A counter that was refused shows a number only in a stale block. -/
  blank : ∀ c, Refused log.flatten c → shown.stale = false → shown.slot c = none
  /-- A number is the total of the counter's own last answered request, or the one cluster of a pin. -/
  own : ∀ c n, shown.slot c = some n →
    lastTotal log c = some (some n) ∨ session.cluster.isSome = true ∧ c = .clusters ∧ n = 1
  /-- The block is stale exactly when the last cycle sent requests and none was answered. -/
  stale : shown.stale = true ↔
    lastSent log ≠ [] ∧ ∀ x ∈ lastSent log, ∃ e, x.answer = .error e

/-! ### One cycle -/

section Cycle

variable {session : Session} {r : Round} {previous : Stats} {refused : List Counter} {p : Pass} {d : CounterDef}

theorem ask_of_refused (h : d.counter ∈ refused) : d.ask session r.served refused = none := by
  rw [CounterDef.ask, if_pos (List.contains_iff_mem.2 h)]

/-- A pinned session does not ask for what cannot be scoped. -/
theorem ask_of_pinned (h : session.cluster.isSome = true) (hd : d.clusterOn = none) :
    d.ask session r.served refused = none := by
  obtain ⟨c, hc⟩ := Option.isSome_iff_exists.1 h
  rw [CounterDef.ask]
  split_ifs
  · rfl
  · cases session.kind d.kind with
    | none => rfl
    | some kind => simp [hc, hd]

/-- What a cycle has done once it is through with some of the counters. -/
structure PassInv (session : Session) (previous : Stats) (refused : List Counter) (done : List Counter)
    (p : Pass) : Prop where
  stale : p.stats.stale = false
  fresh : ∀ x ∈ p.sent, x.counter ∈ done ∧ x.counter ∉ refused
  nodup : (p.sent.map Sent.counter).Nodup
  pinned : session.cluster.isSome = true → ∀ x ∈ p.sent, x.counter ≠ .clusters
  refused : ∀ c, c ∈ p.refused ↔ c ∈ refused ∨ Refused p.sent c
  answered : p.answered = true ↔ ∃ x ∈ p.sent, ∃ total, x.answer = .ok total
  shown : ∀ c n, p.stats.slot c = some n →
    (∃ x ∈ p.sent, totalOf c x = some (some n)) ∨
      previous.slot c = some n ∧ (∀ x ∈ p.sent, totalOf c x = none) ∧ (c ∈ done → c ∉ p.refused)

theorem totalOf_eq_some {c : Counter} {x : Sent} {total : Count} :
    totalOf c x = some total ↔ x.counter = c ∧ x.answer = .ok total := by
  rw [totalOf]
  cases x.answer <;> simp [Except.toOption]

theorem totalOf_of_ne {c : Counter} {x : Sent} (h : x.counter ≠ c) : totalOf c x = none := if_neg h

theorem refused_append (sent : List Sent) (x : Sent) (c : Counter) :
    Refused (sent ++ [x]) c ↔ Refused sent c ∨ x.counter = c ∧ ∃ e, x.answer = .error e ∧ isRefusal e = true := by
  simp only [Refused, List.mem_append, List.mem_singleton]
  constructor
  · rintro ⟨y, hy | rfl, hc⟩
    · exact Or.inl ⟨y, hy, hc⟩
    · exact Or.inr hc
  · rintro (⟨y, hy, hc⟩ | hc)
    · exact ⟨y, Or.inl hy, hc⟩
    · exact ⟨x, Or.inr rfl, hc⟩

/-- One counter more. -/
theorem PassInv.step {done : List Counter} (h : PassInv session previous refused done p)
    (hnew : d.counter ∉ done) (hclusters : d.counter = .clusters → d.clusterOn = none) :
    PassInv session previous refused (d.counter :: done) (cycleStep session r p d) := by
  have hunsent : ∀ x ∈ p.sent, x.counter ≠ d.counter := fun x hx he => hnew (he ▸ (h.fresh x hx).1)
  rw [cycleStep]
  cases hask : d.ask session r.served p.refused with
  | none =>
      -- nothing goes out, and the counter is blanked
      refine ⟨by simpa using h.stale, fun x hx => ?_, h.nodup, h.pinned, h.refused, h.answered,
        fun c n hn => ?_⟩
      · exact ⟨List.mem_cons_of_mem _ (h.fresh x hx).1, (h.fresh x hx).2⟩
      · rw [Stats.slot_write] at hn
        split_ifs at hn with hc
        rcases h.shown c n hn with hsent | ⟨hprev, hnone, hdone⟩
        · exact Or.inl hsent
        · exact Or.inr ⟨hprev, hnone, fun hmem => hdone ((List.mem_cons.1 hmem).resolve_left hc)⟩
  | some request =>
      have hd : d.counter ∉ p.refused := fun hmem => by
        rw [ask_of_refused hmem] at hask
        cases hask
      have hpin : session.cluster.isSome = true → d.counter ≠ .clusters := fun hpinned he => by
        rw [ask_of_pinned hpinned (hclusters he)] at hask
        cases hask
      generalize hx : ({ counter := d.counter, request, answer := r.answer d.counter } : Sent) = x
      have hcounter : x.counter = d.counter := hx ▸ rfl
      have hanswer : x.answer = r.answer d.counter := hx ▸ rfl
      have hfresh : ∀ y ∈ p.sent ++ [x], y.counter ∈ d.counter :: done ∧ y.counter ∉ refused := by
        intro y hy
        rcases List.mem_append.1 hy with hy | hy
        · exact ⟨List.mem_cons_of_mem _ (h.fresh y hy).1, (h.fresh y hy).2⟩
        · rw [List.mem_singleton.1 hy, hcounter]
          exact ⟨List.mem_cons_self, fun hmem => hd ((h.refused _).2 (Or.inl hmem))⟩
      have hnodup : ((p.sent ++ [x]).map Sent.counter).Nodup := by
        rw [List.map_append, List.nodup_append]
        refine ⟨h.nodup, List.nodup_singleton _, fun c hc e he => ?_⟩
        obtain ⟨y, hy, rfl⟩ := List.mem_map.1 hc
        rw [List.map_singleton, List.mem_singleton, hcounter] at he
        exact he ▸ hunsent y hy
      have hpinned : session.cluster.isSome = true → ∀ y ∈ p.sent ++ [x], y.counter ≠ .clusters := by
        intro hpinned y hy
        rcases List.mem_append.1 hy with hy | hy
        · exact h.pinned hpinned y hy
        · rw [List.mem_singleton.1 hy, hcounter]
          exact hpin hpinned
      -- what another counter shows, where this one's number was replaced or kept
      have hother : ∀ c n, c ≠ d.counter → p.stats.slot c = some n →
          (∃ y ∈ p.sent ++ [x], totalOf c y = some (some n)) ∨
            previous.slot c = some n ∧ (∀ y ∈ p.sent ++ [x], totalOf c y = none) ∧
              (c ∈ d.counter :: done → c ∉ p.refused) := by
        intro c n hc hn
        rcases h.shown c n hn with ⟨y, hy, htotal⟩ | ⟨hprev, hnone, hdone⟩
        · exact Or.inl ⟨y, List.mem_append_left _ hy, htotal⟩
        · refine Or.inr ⟨hprev, fun y hy => ?_, fun hmem => hdone ((List.mem_cons.1 hmem).resolve_left hc)⟩
          rcases List.mem_append.1 hy with hy | hy
          · exact hnone y hy
          · exact List.mem_singleton.1 hy ▸ totalOf_of_ne (hcounter ▸ hc.symm)
      cases hr : r.answer d.counter with
      | ok total =>
          rw [hr] at hanswer
          rw [hr] at hx
          simp only [hx]
          refine ⟨by simpa using h.stale, hfresh, hnodup, hpinned, fun c => ?_, ?_, fun c n hn => ?_⟩
          · rw [refused_append, h.refused, hanswer]
            simp
          · exact ⟨fun _ => ⟨x, List.mem_append_right _ (List.mem_singleton.2 rfl), total, hanswer⟩, fun _ => rfl⟩
          · rw [Stats.slot_write] at hn
            split_ifs at hn with hc
            · exact Or.inl ⟨x, List.mem_append_right _ (List.mem_singleton.2 rfl),
                totalOf_eq_some.2 ⟨hc ▸ hcounter, hn ▸ hanswer⟩⟩
            · exact hother c n hc hn
      | error e =>
          rw [hr] at hanswer
          rw [hr] at hx
          have hanswered : p.answered = true ↔ ∃ y ∈ p.sent ++ [x], ∃ total, y.answer = .ok total := by
            rw [h.answered]
            constructor
            · rintro ⟨y, hy, htotal⟩
              exact ⟨y, List.mem_append_left _ hy, htotal⟩
            · rintro ⟨y, hy, total, htotal⟩
              rcases List.mem_append.1 hy with hy | hy
              · exact ⟨y, hy, total, htotal⟩
              · rw [List.mem_singleton.1 hy, hanswer] at htotal
                cases htotal
          simp only [hx]
          split_ifs with hrefusal
          · refine ⟨by simpa using h.stale, hfresh, hnodup, hpinned, fun c => ?_, hanswered, fun c n hn => ?_⟩
            · have hself : (x.counter = c ∧ ∃ e', x.answer = .error e' ∧ isRefusal e' = true) ↔ c = d.counter :=
                ⟨fun hc => hc.1.symm.trans hcounter, fun hc => ⟨hcounter.trans hc.symm, e, hanswer, hrefusal⟩⟩
              rw [refused_append, hself, List.mem_append, h.refused, List.mem_singleton, or_assoc]
            · rw [Stats.slot_write] at hn
              split_ifs at hn with hc
              rcases hother c n hc hn with hsent | ⟨hprev, hnone, hdone⟩
              · exact Or.inl hsent
              · refine Or.inr ⟨hprev, hnone, fun hmem hrefused => ?_⟩
                rcases List.mem_append.1 hrefused with hrefused | hrefused
                · exact hdone hmem hrefused
                · exact hc (List.mem_singleton.1 hrefused)
          · refine ⟨h.stale, hfresh, hnodup, hpinned, fun c => ?_, hanswered, fun c n hn => ?_⟩
            · rw [refused_append, h.refused, hanswer]
              simp [hrefusal]
            · by_cases hc : c = d.counter
              · rcases h.shown c n hn with ⟨y, hy, htotal⟩ | ⟨hprev, hnone, hdone⟩
                · exact absurd ((totalOf_eq_some.1 htotal).1.trans hc) (hunsent y hy)
                · -- a request that failed otherwise leaves the number
                  refine Or.inr ⟨hprev, fun y hy => ?_, fun _ => hc ▸ hd⟩
                  rcases List.mem_append.1 hy with hy | hy
                  · exact hnone y hy
                  · rw [List.mem_singleton.1 hy, totalOf, hanswer]
                    split_ifs <;> rfl
              · exact hother c n hc hn

theorem PassInv.foldl {d : List Counter} {defs : List CounterDef} (h : PassInv session previous refused d p)
    (hnew : (defs.map CounterDef.counter ++ d).Nodup)
    (hclusters : ∀ c ∈ defs, c.counter = .clusters → c.clusterOn = none) :
    PassInv session previous refused ((defs.map CounterDef.counter).reverse ++ d)
      (defs.foldl (cycleStep session r) p) := by
  induction defs generalizing d p with
  | nil => exact h
  | cons c defs ih =>
      obtain ⟨hd, hclusters⟩ := List.forall_mem_cons.1 hclusters
      rw [List.map_cons, List.cons_append, List.nodup_cons, List.mem_append, not_or] at hnew
      have hnext := ih (h.step (r := r) hnew.1.2 hd)
        ((List.perm_middle.nodup_iff).2 (List.nodup_cons.2 ⟨fun hmem => ?_, hnew.2⟩)) hclusters
      · rw [List.map_cons, List.reverse_cons, List.append_assoc, List.singleton_append]
        exact hnext
      · exact (List.mem_append.1 hmem).elim hnew.1.1 hnew.1.2

theorem mem_COUNTERS (c : Counter) : c ∈ COUNTERS.map CounterDef.counter := by cases c <;> decide

/-- What a whole cycle has done. -/
theorem passInv_cycle (session : Session) (r : Round) (previous : Stats) (refused : List Counter) :
    ∃ done, (∀ c, c ∈ done) ∧ PassInv session previous refused done
      (COUNTERS.foldl (cycleStep session r) { stats := { previous with stale := false }, refused }) := by
  refine ⟨_, fun c => ?_, PassInv.foldl (d := []) ⟨rfl, ?_, List.nodup_nil, ?_, fun c => ?_, ?_, fun c n hn => ?_⟩
    (by decide) (by decide)⟩
  · rw [List.append_nil, List.mem_reverse]
    exact mem_COUNTERS c
  · exact fun x hx => absurd hx List.not_mem_nil
  · exact fun _ x hx => absurd hx List.not_mem_nil
  · simp [Refused]
  · simp
  · refine Or.inr ⟨?_, fun x hx => absurd hx List.not_mem_nil, fun hmem => absurd hmem List.not_mem_nil⟩
    cases c <;> exact hn

end Cycle

/-! ### Runs of cycles -/

theorem refused_flatten_append (log : List (List Sent)) (sent : List Sent) (c : Counter) :
    Refused (log ++ [sent]).flatten c ↔ Refused log.flatten c ∨ Refused sent c := by
  simp only [Refused, List.flatten_append, List.flatten_singleton, List.mem_append, or_and_right, exists_or]

theorem filterMap_totalOf {sent : List Sent} {c : Counter} (h : ∀ x ∈ sent, totalOf c x = none) :
    sent.filterMap (totalOf c) = [] :=
  List.filterMap_eq_nil_iff.2 h

/-- A counter is asked for once in a cycle. -/
theorem filterMap_totalOf_of_mem {sent : List Sent} (hnodup : (sent.map Sent.counter).Nodup) {c : Counter}
    {x : Sent} (hx : x ∈ sent) {total : Count} (htotal : totalOf c x = some total) :
    sent.filterMap (totalOf c) = [total] := by
  obtain ⟨before, after, rfl⟩ := List.append_of_mem hx
  have hc := (totalOf_eq_some.1 htotal).1
  rw [List.map_append, List.map_cons, List.nodup_append, List.nodup_cons] at hnodup
  obtain ⟨-, ⟨hafter, -⟩, hbefore⟩ := hnodup
  rw [List.filterMap_append, List.filterMap_cons_some htotal,
    filterMap_totalOf fun y hy => totalOf_of_ne fun he => ?_,
    filterMap_totalOf fun y hy => totalOf_of_ne fun he => ?_, List.nil_append]
  · exact hafter (List.mem_map.2 ⟨y, hy, he.trans hc.symm⟩)
  · exact hbefore _ (List.mem_map.2 ⟨y, hy, he⟩) _ (hc ▸ List.mem_cons_self) rfl

theorem lastTotal_append (log : List (List Sent)) (sent : List Sent) (c : Counter) :
    lastTotal (log ++ [sent]) c = (sent.filterMap (totalOf c)).getLast?.or (lastTotal log c) := by
  rw [lastTotal, List.flatten_append, List.flatten_singleton, List.filterMap_append, List.getLast?_append, lastTotal]

@[simp] theorem lastSent_append (log : List (List Sent)) (sent : List Sent) :
    lastSent (log ++ [sent]) = sent := by
  rw [lastSent, List.getLast?_concat, Option.getD_some]

/-- What holds of the poller between two cycles. -/
structure Inv (session : Session) (s : Poller) : Prop where
  honest : Honest session s.log s.previous
  refused : ∀ c, c ∈ s.refused ↔ Refused s.log.flatten c
  pinned : session.cluster.isSome = true → ¬ Refused s.log.flatten .clusters

variable {session : Session}

theorem inv_start (session : Session) : Inv session {} := by
  refine ⟨⟨List.Pairwise.nil, fun c hc => ?_, fun c n hn => ?_, ?_⟩, fun c => ?_, fun _ => ?_⟩
  · obtain ⟨x, hx, -⟩ := hc
    exact absurd hx List.not_mem_nil
  · cases c <;> cases hn
  · simp [lastSent]
  · simp [Refused]
  · simp [Refused]

/-- The numbers a cycle ends with: those of its counters, and the one cluster of a pin. -/
theorem slot_pinned (stats : Stats) (c : Counter) {n : ℕ}
    (h : (if session.cluster.isSome then stats.write .clusters (some 1) else stats).slot c = some n) :
    session.cluster.isSome = true ∧ c = .clusters ∧ n = 1 ∨ stats.slot c = some n := by
  split_ifs at h with hpin
  · rw [Stats.slot_write] at h
    split_ifs at h with hc
    · exact Or.inl ⟨hpin, hc, (Option.some.inj h).symm⟩
    · exact Or.inr h
  · exact Or.inr h

/-- **One cycle** keeps what is shown true to what was asked. -/
theorem Inv.step {s t : Poller} {r : Round} (h : Inv session s) (hstep : s.step session r = some t) :
    Inv session t := by
  rw [Poller.step] at hstep
  split_ifs at hstep
  obtain ⟨done, hall, hpass⟩ := passInv_cycle session r s.previous s.refused
  rw [cycle] at hstep
  generalize hp : COUNTERS.foldl (cycleStep session r)
    { stats := { s.previous with stale := false }, refused := s.refused } = p at hstep hpass
  cases hstep
  have hrefused : ∀ c, c ∈ p.refused ↔ Refused (s.log ++ [p.sent]).flatten c := by
    intro c
    rw [hpass.refused, h.refused, refused_flatten_append]
  have hpinned : session.cluster.isSome = true → ¬ Refused (s.log ++ [p.sent]).flatten .clusters := by
    intro hpin hr
    rcases (refused_flatten_append _ _ _).1 hr with hr | ⟨x, hx, hc, -⟩
    · exact h.pinned hpin hr
    · exact hpass.pinned hpin x hx hc
  have honce : (s.log ++ [p.sent]).Pairwise fun earlier later =>
      ∀ x ∈ later, ¬ Refused earlier x.counter := by
    rw [List.pairwise_append]
    refine ⟨h.honest.once, List.pairwise_singleton _ _, fun earlier hearlier later hlater x hx hr => ?_⟩
    obtain ⟨y, hy, hrest⟩ := hr
    rw [List.mem_singleton.1 hlater] at hx
    exact (hpass.fresh x hx).2 ((h.refused _).2 ⟨y, List.mem_flatten.2 ⟨earlier, hearlier, hy⟩, hrest⟩)
  refine ⟨?_, hrefused, hpinned⟩
  have hunanswered : p.answered = false → ∀ x ∈ p.sent, ∃ e, x.answer = .error e := by
    intro hfalse x hx
    cases hanswer : x.answer with
    | ok total => rw [hpass.answered.2 ⟨x, hx, total, hanswer⟩] at hfalse; cases hfalse
    | error e => exact ⟨e, rfl⟩
  by_cases hfailed : p.answered = false ∧ p.sent ≠ []
  · -- everything failed: the numbers are those before the cycle, and stale
    have hempty : p.sent.isEmpty = false := List.isEmpty_eq_false_iff.2 hfailed.2
    have houtcome : outcome p.answered (!p.sent.isEmpty) = .allFailed := by
      rw [hfailed.1, hempty]
      rfl
    simp only [houtcome, fold]
    refine ⟨honce, fun c _ hstale => absurd hstale (by simp), fun c n hn => ?_, ?_⟩
    · have hprevious : s.previous.slot c = some n := by cases c <;> exact hn
      have hnone : p.sent.filterMap (totalOf c) = [] := by
        refine filterMap_totalOf fun x hx => ?_
        obtain ⟨e, he⟩ := hunanswered hfailed.1 x hx
        rw [totalOf, he]
        split_ifs <;> rfl
      rw [lastTotal_append, hnone]
      exact h.honest.own c n hprevious
    · rw [lastSent_append]
      exact ⟨fun _ => ⟨hfailed.2, hunanswered hfailed.1⟩, fun _ => rfl⟩
  · -- the numbers are those of the cycle
    have hfold (stats : Stats) : fold s.previous stats (outcome p.answered (!p.sent.isEmpty)) = stats := by
      cases hanswered : p.answered with
      | true => rfl
      | false =>
          have hempty : p.sent = [] := by simpa [hanswered] using hfailed
          rw [hempty]
          rfl
    simp only [hfold]
    refine ⟨honce, fun c hc _ => ?_, fun c n hn => ?_, ?_⟩
    · -- a counter that was refused is blank
      by_contra hsome
      obtain ⟨n, hn⟩ := Option.ne_none_iff_exists'.1 hsome
      rcases slot_pinned p.stats c hn with ⟨hpin, rfl, -⟩ | hn
      · exact hpinned hpin hc
      · rcases hpass.shown c n hn with ⟨x, hx, htotal⟩ | ⟨-, -, hdone⟩
        · obtain ⟨rfl, hanswer⟩ := totalOf_eq_some.1 htotal
          rcases (hpass.refused _).1 ((hrefused _).2 hc) with hold | ⟨y, hy, hsame, e, he, -⟩
          · exact (hpass.fresh x hx).2 hold
          · rw [List.inj_on_of_nodup_map hpass.nodup hy hx hsame, hanswer] at he
            cases he
        · exact hdone (hall c) ((hrefused c).2 hc)
    · rcases slot_pinned p.stats c hn with hpin | hn
      · exact Or.inr hpin
      · rw [lastTotal_append]
        rcases hpass.shown c n hn with ⟨x, hx, htotal⟩ | ⟨hprevious, hnone, -⟩
        · rw [filterMap_totalOf_of_mem hpass.nodup hx htotal]
          exact Or.inl rfl
        · rw [filterMap_totalOf hnone]
          exact h.honest.own c n hprevious
    · have hstale : (if session.cluster.isSome then p.stats.write .clusters (some 1) else p.stats).stale =
          false := by
        split_ifs
        · rw [Stats.stale_write]
          exact hpass.stale
        · exact hpass.stale
      rw [hstale, lastSent_append]
      refine ⟨fun hfalse => absurd hfalse (by decide), fun ⟨hsent, herrors⟩ => absurd ⟨?_, hsent⟩ hfailed⟩
      rw [Bool.eq_false_iff]
      intro htrue
      obtain ⟨x, hx, total, hanswer⟩ := hpass.answered.1 htrue
      obtain ⟨e, he⟩ := herrors x hx
      rw [hanswer] at he
      cases he

/-- **What the header shows** is true to what was asked and answered, after every run of cycles. -/
theorem honest_of_run {session : Session} {rounds : List Round} {s : Poller}
    (h : Run.exec (Poller.step session) {} rounds = some s) : Honest session s.log s.previous :=
  (Run.exec_inv (fun _ _ _ hi hstep => Inv.step hi hstep) (inv_start session) h).honest

/-- A session whose catalog has every kind. -/
def listed (cluster : Option String) : Session where
  kind id := some { id, filter := true }
  cluster

/-- Every counter answers five. -/
def answering : Round where
  served _ := true
  answer _ := .ok (some 5)

/-- The hosts are refused, and every other request is cut off. -/
def failing : Round where
  served _ := true
  answer
    | .hosts => .error (.notFound "hosts")
    | _ => .error (.transport "reset")

/-- The hosts refused in a cycle in which nothing else was answered. -/
theorem honest_of_run_failing :
    ∃ s, Run.exec (Poller.step (listed none)) {} [answering, failing] = some s ∧
      Honest (listed none) s.log s.previous :=
  ⟨_, rfl, @honest_of_run _ [answering, failing] _ rfl⟩

/-- The hosts were refused, and five are still shown, as stale, two cycles later; a pinned session shows one
cluster and never asks for it. -/
theorem not_blank :
    ¬ (∀ session rounds s, Run.exec (Poller.step session) {} rounds = some s →
        ∀ c, Refused s.log.flatten c → s.previous.slot c = none) ∧
      ¬ (∀ session rounds s, Run.exec (Poller.step session) {} rounds = some s →
        ∀ c n, s.previous.slot c = some n → lastTotal s.log c = some (some n)) := by
  constructor
  · intro h
    have hblank := h (listed none) [answering, failing, failing] _ rfl .hosts
    exact absurd (hblank (by decide +kernel)) (by decide +kernel)
  · intro h
    have hown := h (listed (some "c1")) [answering] _ rfl .clusters 1
    exact absurd (hown (by decide +kernel)) (by decide +kernel)

end Nutsh.Counters
