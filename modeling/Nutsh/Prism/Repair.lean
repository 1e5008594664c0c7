/-
Negotiations that overlap.

The pins, the verdicts and the adopted namespaces are three tables, each behind a lock of its own, and a
negotiation writes them one after the other.  A repair first looks whether the namespace is adopted, then
whether its window is open.  Several of them may run at once, so that another can come between any two of
these steps.

Main definitions:

* `Task`, `Negotiator`, `Negotiator.step` — the negotiations under way, and one access to a table;
* `Task.Writes`, `Task.Owes` — a namespace is still being written, or its verdict still is to be;
* `Negotiator.Fit` — what is to hold of the tables and the repairs;
* `Negotiator.InTurn` — the step comes neither after one that overtook it nor after one that outlived it.

Main results:

* `Negotiator.settled_exec`, `Negotiator.spaced_exec` — what no interleaving breaks;
* `Negotiator.next_alone` — an undisturbed negotiation is the one of `negotiateNamespace`;
* `Negotiator.fit_exec` — in a run whose steps are all in turn the tables fit;
* `Negotiator.not_fit_of_crossing` — two negotiations that cross leave a pin and the verdict of another.
-/
import Nutsh.Lib.Run
import Nutsh.Prism.Negotiate

set_option relaxedAutoImplicit false
set_option autoImplicit false

namespace Nutsh.Prism

/-- The shortest gap between two repairs of one namespace, in milliseconds. -/
def REPAIR_INTERVAL : ℕ := 60000

/-- Where a negotiation stands: each phase but the first and the last is followed by an access to a table
or by the answers to a probe. -/
inductive Task where
  | idle
  /-- A repair that found the namespace adopted. -/
  | looked (name : String)
  | probing (name : String)
  | pinning (status : NamespaceStatus)
  | recording (status : NamespaceStatus)
  | settling (status : NamespaceStatus)
  | probingAll
  | pinningAll (statuses : List NamespaceStatus)
  | recordingAll (statuses : List NamespaceStatus)
  | settlingAll
  | done
  deriving DecidableEq, Repr

namespace Task

/-- The tables are still being written for the namespace. -/
def Writes (name : String) : Task → Prop
  | pinning status | recording status | settling status => status.name = name
  | pinningAll _ | recordingAll _ | settlingAll => True
  | _ => False

/-- The pin of the namespace is written and the verdict is not. -/
def Owes (name : String) : Task → Prop
  | recording status => status.name = name
  | recordingAll _ => True
  | _ => False

theorem Owes.writes {name : String} {p : Task} (h : p.Owes name) : p.Writes name := by
  cases p <;> first | exact h | exact h.elim

end Task

/-- A repair that got through its window. -/
structure Reprobe where
  name : String
  «at» : ℕ
  /-- The namespace was adopted then. -/
  adopted : Bool
  deriving DecidableEq, Repr

/-- A client whose versions are negotiated.  The last five fields are what happened: whose pin and whose
verdict stand, `none` for the last run, which namespaces a probe of this session came to a verdict on,
which repairs looked at a namespace that was settled after, and which went through. -/
structure Negotiator where
  routing : Routing := {}
  /-- When each namespace was last repaired. -/
  repaired : String → Option ℕ := fun _ => none
  clock : ℕ := 0
  tasks : ℕ → Task := fun _ => .idle
  pinOf : String → Option ℕ := fun _ => none
  statusOf : String → Option ℕ := fun _ => none
  probed : String → Bool := fun _ => false
  overtaken : ℕ → Bool := fun _ => false
  reprobes : List Reprobe := []

namespace Negotiator

inductive Event where
  /-- A list of the namespace failed. -/
  | listFailed (t : ℕ) (name : String) (e : PrismError)
  /-- The repair looks at its window. -/
  | enter (t now : ℕ)
  | negotiateNamespace (t : ℕ) (name : String)
  | negotiate (t : ℕ)
  /-- The probe has its answers. -/
  | answered (t : ℕ) (ask : Kind → String → Listing)
  /-- The next of the three tables is written. -/
  | next (t : ℕ)

def move (n : Negotiator) (t : ℕ) (p : Task) : Negotiator :=
  { n with tasks := Function.update n.tasks t p }

variable (kinds : Catalog) (namespaces : List Namespace)

/-- One access to a table, or the answers to a probe. -/
def step (n : Negotiator) : Event → Option Negotiator
  | .listFailed t name e =>
      if n.tasks t = .idle then
        some (n.move t (if e.worthRepairing && n.routing.adopted name then .looked name else .done))
      else none
  | .enter t now =>
      match n.tasks t with
      | .looked name =>
          if now < n.clock then none
          else if (n.repaired name).any fun last => now - last < REPAIR_INTERVAL then
            some ({ n with clock := now }.move t .done)
          else
            some ({ n with clock := now, repaired := Function.update n.repaired name (some now),
                           reprobes := ⟨name, now, n.routing.adopted name⟩ :: n.reprobes }.move t
              (.probing name))
      | _ => none
  | .negotiateNamespace t name => if n.tasks t = .idle then some (n.move t (.probing name)) else none
  | .negotiate t => if n.tasks t = .idle then some (n.move t .probingAll) else none
  | .answered t ask =>
      match n.tasks t with
      | .probing name =>
          match namespaces.find? fun ns => ns.name == name with
          | none => some (n.move t .done)
          | some ns =>
              match probeNamespace kinds ns ask with
              | .error _ => some (n.move t .done)
              | .ok status =>
                  some ({ n with probed := Function.update n.probed ns.name true }.move t (.pinning status))
      | .probingAll =>
          match namespaces.mapM fun ns => probeNamespace kinds ns ask with
          | .error _ => some (n.move t .done)
          | .ok statuses =>
              some ({ n with probed := fun name =>
                        n.probed name || namespaces.any fun ns => ns.name == name }.move t
                (.pinningAll statuses))
      | _ => none
  | .next t =>
      match n.tasks t with
      | .pinning status =>
          some ({ n with routing := n.routing.pin status
                         pinOf := Function.update n.pinOf status.name (some t) }.move t (.recording status))
      | .recording status =>
          some ({ n with routing := n.routing.record status
                         statusOf := Function.update n.statusOf status.name (some t) }.move t
            (.settling status))
      | .settling status =>
          some ({ n with routing := n.routing.settle status.name
                         overtaken := fun t => n.overtaken t || n.tasks t == Task.looked status.name }.move t
            .done)
      | .pinningAll statuses =>
          some ({ n with routing := n.routing.pinAll statuses, pinOf := fun _ => some t }.move t
            (.recordingAll statuses))
      | .recordingAll statuses =>
          some ({ n with routing := n.routing.recordAll statuses, statusOf := fun _ => some t }.move t
            .settlingAll)
      | .settlingAll =>
          some ({ n with routing := n.routing.settleAll
                         overtaken := fun t => n.overtaken t || (match n.tasks t with
                           | .looked _ => true
                           | _ => false) }.move t .done)
      | _ => none

/-- A client before its first negotiation: it knows nothing, or what the last run negotiated. -/
def Starts (n : Negotiator) : Prop :=
  n = {} ∨ ∃ pins statuses, n = { routing := .adoptPins namespaces pins statuses }

/-- What is to hold.  A namespace a probe came to a verdict on is not adopted, once that is written; the
repairs that went through were of adopted namespaces, a window apart; and unless a verdict is still to be
written, pin and verdict are of one probe. -/
structure Fit (n : Negotiator) : Prop where
  settled : ∀ name, n.probed name = true → n.routing.adopted name = true → ∃ t, (n.tasks t).Writes name
  spaced : n.reprobes.Pairwise fun later earlier =>
    later.name = earlier.name → earlier.at + REPAIR_INTERVAL ≤ later.at
  adopted : ∀ p ∈ n.reprobes, p.adopted = true
  paired : ∀ name, (∀ t, ¬ (n.tasks t).Owes name) → n.statusOf name = n.pinOf name

/-- The step is in turn.  A repair gets through its window only when no negotiation settled the namespace
since it looked, and a verdict is written only while the negotiation whose pin stands has not written its
own, or is this one. -/
def InTurn (n : Negotiator) : Event → Prop
  | .enter t _ => n.overtaken t = false
  | .next t =>
      ∀ name, (n.tasks t).Owes name → ∀ t', n.pinOf name = some t' → (n.tasks t').Owes name
  | _ => True

variable {kinds namespaces} {n n' : Negotiator} {e : Event}

@[simp] theorem tasks_move_self (n : Negotiator) (t : ℕ) (p : Task) : (n.move t p).tasks t = p :=
  Function.update_self ..

theorem tasks_move_ne {t t' : ℕ} (h : t' ≠ t) (n : Negotiator) (p : Task) :
    (n.move t p).tasks t' = n.tasks t' := Function.update_of_ne h ..

/-! ### What a step does -/

/-- What one step leads to. -/
inductive Access (n : Negotiator) : Event → Negotiator → Prop where
  | passed {t : ℕ} {name : String} {e : PrismError} (h : n.tasks t = .idle) :
      Access n (.listFailed t name e) (n.move t .done)
  | looked {t : ℕ} {name : String} {e : PrismError} (h : n.tasks t = .idle)
      (hworth : e.worthRepairing = true) (hadopted : n.routing.adopted name = true) :
      Access n (.listFailed t name e) (n.move t (.looked name))
  | shut {t now : ℕ} {name : String} (h : n.tasks t = .looked name) :
      Access n (.enter t now) ({ n with clock := now }.move t .done)
  | entered {t now : ℕ} {name : String} (h : n.tasks t = .looked name)
      (hopen : ∀ last, n.repaired name = some last → last + REPAIR_INTERVAL ≤ now) :
      Access n (.enter t now) ({ n with
          clock := now, repaired := Function.update n.repaired name (some now)
          reprobes := ⟨name, now, n.routing.adopted name⟩ :: n.reprobes }.move t (.probing name))
  | started {t : ℕ} {name : String} (h : n.tasks t = .idle) :
      Access n (.negotiateNamespace t name) (n.move t (.probing name))
  | startedAll {t : ℕ} (h : n.tasks t = .idle) : Access n (.negotiate t) (n.move t .probingAll)
  | failed {t : ℕ} {ask : Kind → String → Listing} (h : ∀ name, ¬ (n.tasks t).Writes name)
      (hlooked : ∀ name, n.tasks t ≠ .looked name) :
      Access n (.answered t ask) (n.move t .done)
  | answered {t : ℕ} {ask : Kind → String → Listing} {name : String} {status : NamespaceStatus}
      (h : n.tasks t = .probing name) :
      Access n (.answered t ask)
        ({ n with probed := Function.update n.probed status.name true }.move t (.pinning status))
  | answeredAll {t : ℕ} {ask : Kind → String → Listing} {probed : String → Bool}
      {statuses : List NamespaceStatus} (h : n.tasks t = .probingAll) :
      Access n (.answered t ask) ({ n with probed := probed }.move t (.pinningAll statuses))
  | pinned {t : ℕ} {status : NamespaceStatus} (h : n.tasks t = .pinning status) :
      Access n (.next t) ({ n with
          routing := n.routing.pin status
          pinOf := Function.update n.pinOf status.name (some t) }.move t (.recording status))
  | recorded {t : ℕ} {status : NamespaceStatus} (h : n.tasks t = .recording status) :
      Access n (.next t) ({ n with
          routing := n.routing.record status
          statusOf := Function.update n.statusOf status.name (some t) }.move t (.settling status))
  | settled {t : ℕ} {status : NamespaceStatus} (h : n.tasks t = .settling status) :
      Access n (.next t) ({ n with
          routing := n.routing.settle status.name
          overtaken := fun t => n.overtaken t || n.tasks t == Task.looked status.name }.move t .done)
  | pinnedAll {t : ℕ} {statuses : List NamespaceStatus} (h : n.tasks t = .pinningAll statuses) :
      Access n (.next t) ({ n with
          routing := n.routing.pinAll statuses, pinOf := fun _ => some t }.move t (.recordingAll statuses))
  | recordedAll {t : ℕ} {statuses : List NamespaceStatus} (h : n.tasks t = .recordingAll statuses) :
      Access n (.next t) ({ n with
          routing := n.routing.recordAll statuses, statusOf := fun _ => some t }.move t .settlingAll)
  | settledAll {t : ℕ} {overtaken : ℕ → Bool} (h : n.tasks t = .settlingAll)
      (hlooked : ∀ t name, n.tasks t = .looked name → overtaken t = true) :
      Access n (.next t) ({ n with routing := n.routing.settleAll, overtaken }.move t .done)

/-- A probe speaks of its namespace. -/
theorem name_of_probeNamespace {ns : Namespace} {ask : Kind → String → Listing} {status : NamespaceStatus}
    (h : probeNamespace kinds ns ask = .ok status) : status.name = ns.name := by
  have hnone : ∀ e, ¬ HostFails kinds ns ask e := fun e he => by
    rw [probeNamespace_of_hostFails he] at h
    cases h
  obtain ⟨status', hok, hname, -⟩ := probeNamespace_of_not_hostFails hnone
  rw [hok, Except.ok.injEq] at h
  exact h ▸ hname

theorem access_of_answered {t : ℕ} {ask : Kind → String → Listing}
    (h : step kinds namespaces n (.answered t ask) = some n') : Access n (.answered t ask) n' := by
  simp only [step] at h
  split at h
  case h_1 name htask =>
    have hfailed : Access n (.answered t ask) (n.move t .done) :=
      .failed (fun _ => by rw [htask]; exact id) (fun _ => by simp [htask])
    split at h
    · exact Option.some.inj h ▸ hfailed
    case h_2 ns hns =>
      split at h
      · exact Option.some.inj h ▸ hfailed
      case h_2 status hok =>
        rw [← name_of_probeNamespace hok] at h
        exact Option.some.inj h ▸ .answered htask
  case h_2 htask =>
    split at h
    · refine Option.some.inj h ▸ .failed (fun _ => ?_) fun _ => by simp [htask]
      rw [htask]
      exact id
    · exact Option.some.inj h ▸ .answeredAll htask
  · cases h

theorem access_of_next {t : ℕ} (h : step kinds namespaces n (.next t) = some n') :
    Access n (.next t) n' := by
  simp only [step] at h
  split at h
  case h_1 status htask => exact Option.some.inj h ▸ .pinned htask
  case h_2 status htask => exact Option.some.inj h ▸ .recorded htask
  case h_3 status htask => exact Option.some.inj h ▸ .settled htask
  case h_4 statuses htask => exact Option.some.inj h ▸ .pinnedAll htask
  case h_5 statuses htask => exact Option.some.inj h ▸ .recordedAll htask
  case h_6 htask =>
    refine Option.some.inj h ▸ .settledAll htask fun t' name hlooked => ?_
    simp [hlooked]
  · cases h

/-- A step is one of these. -/
theorem access_of_step (h : step kinds namespaces n e = some n') : Access n e n' := by
  cases e with
  | listFailed t name e =>
      simp only [step] at h
      split at h
      case isTrue hidle =>
        rw [← Option.some.inj h]
        cases hrepair : e.worthRepairing && n.routing.adopted name with
        | false => exact .passed hidle
        | true =>
            obtain ⟨hworth, hadopted⟩ := Bool.and_eq_true_iff.1 hrepair
            exact .looked hidle hworth hadopted
      · cases h
  | enter t now =>
      simp only [step] at h
      split at h
      case h_1 name hlooked =>
        split at h
        · cases h
        split at h
        · exact Option.some.inj h ▸ .shut hlooked
        case isFalse hshut =>
          refine Option.some.inj h ▸ .entered hlooked fun last hlast => ?_
          have hlate : REPAIR_INTERVAL ≤ now - last := by simpa [hlast] using hshut
          have hpos : 0 < REPAIR_INTERVAL := by decide
          omega
      · cases h
  | negotiateNamespace t name =>
      obtain ⟨hidle, rfl⟩ : n.tasks t = .idle ∧ n.move t (.probing name) = n' := by simpa [step] using h
      exact .started hidle
  | negotiate t =>
      obtain ⟨hidle, rfl⟩ : n.tasks t = .idle ∧ n.move t .probingAll = n' := by simpa [step] using h
      exact .startedAll hidle
  | answered t ask => exact access_of_answered h
  | next t => exact access_of_next h

/-! ### The adopted namespaces -/

/-- A task that moves on leaves what it stood for to its new phase. -/
theorem exists_update {tasks : ℕ → Task} {t : ℕ} {p : Task} {Q : Task → Prop} (h : Q (tasks t) → Q p)
    (hex : ∃ t', Q (tasks t')) : ∃ t', Q (Function.update tasks t p t') := by
  obtain ⟨t', ht'⟩ := hex
  by_cases htt : t' = t
  · subst htt
    exact ⟨t', by simpa using h ht'⟩
  · exact ⟨t', by simpa [htt] using ht'⟩

/-- A namespace a probe came to a verdict on is adopted no more, once that is written. -/
def Settled (n : Negotiator) : Prop :=
  ∀ name, n.probed name = true → n.routing.adopted name = true → ∃ t, (n.tasks t).Writes name

theorem settled_step (h : Settled n) (hstep : step kinds namespaces n e = some n') : Settled n' := by
  intro name hprobed hadopted
  cases access_of_step hstep with
  | passed hidle => exact exists_update (by simp [hidle, Task.Writes]) (h name hprobed hadopted)
  | looked hidle hworth hadopted' =>
      exact exists_update (by simp [hidle, Task.Writes]) (h name hprobed hadopted)
  | shut hlooked => exact exists_update (by simp [hlooked, Task.Writes]) (h name hprobed hadopted)
  | entered hlooked hopen =>
      exact exists_update (by simp [hlooked, Task.Writes]) (h name hprobed hadopted)
  | started hidle => exact exists_update (by simp [hidle, Task.Writes]) (h name hprobed hadopted)
  | startedAll hidle => exact exists_update (by simp [hidle, Task.Writes]) (h name hprobed hadopted)
  | failed hwrites => exact exists_update (fun hw => absurd hw (hwrites name)) (h name hprobed hadopted)
  | @answered t ask probing status htask =>
      by_cases hname : status.name = name
      · exact ⟨t, by simp [Task.Writes, hname]⟩
      · have hold : n.probed name = true := by simpa [move, Ne.symm hname] using hprobed
        exact exists_update (by simp [htask, Task.Writes]) (h name hold hadopted)
  | @answeredAll t => exact ⟨t, by simp [Task.Writes]⟩
  | pinned htask => exact exists_update (by simp [htask, Task.Writes]) (h name hprobed hadopted)
  | recorded htask => exact exists_update (by simp [htask, Task.Writes]) (h name hprobed hadopted)
  | @settled t status htask =>
      -- The one namespace that is settled is adopted no more.
      by_cases hname : name = status.name
      · simp [move, Routing.settle, hname] at hadopted
      · have hold : n.routing.adopted name = true := by simpa [move, Routing.settle, hname] using hadopted
        refine exists_update (fun hw => ?_) (h name hprobed hold)
        rw [htask] at hw
        exact absurd hw.symm hname
  | pinnedAll htask => exact exists_update (by simp [Task.Writes]) (h name hprobed hadopted)
  | recordedAll htask => exact exists_update (by simp [Task.Writes]) (h name hprobed hadopted)
  | settledAll htask hlooked => cases hadopted

/-! ### The windows -/

/-- The repairs that went through are a window apart, and the last of each is remembered. -/
structure Spaced (n : Negotiator) : Prop where
  remembered : ∀ p ∈ n.reprobes, ∃ last, n.repaired p.name = some last ∧ p.at ≤ last
  apart : n.reprobes.Pairwise fun later earlier =>
    later.name = earlier.name → earlier.at + REPAIR_INTERVAL ≤ later.at

theorem spaced_step (h : Spaced n) (hstep : step kinds namespaces n e = some n') : Spaced n' := by
  cases access_of_step hstep with
  | @entered t now name hlooked hopen =>
      refine ⟨fun p hp => ?_, List.pairwise_cons.2 ⟨fun p hp hname => ?_, h.apart⟩⟩
      · rcases List.mem_cons.1 hp with rfl | hp
        · exact ⟨now, by simp [move], le_rfl⟩
        · obtain ⟨last, hlast, hle⟩ := h.remembered p hp
          by_cases hname : p.name = name
          · have hgap := hopen last (hname ▸ hlast)
            refine ⟨now, by simp [move, hname], ?_⟩
            omega
          · exact ⟨last, by simpa [move, hname] using hlast, hle⟩
      · obtain ⟨last, hlast, hle⟩ := h.remembered p hp
        have hgap := hopen last ((congrArg n.repaired hname).trans hlast)
        show p.at + REPAIR_INTERVAL ≤ now
        omega
  | _ => exact ⟨h.remembered, h.apart⟩

/-! ### The repairs -/

/-- A repair that was not overtaken looks at an adopted namespace, and so did those that went through. -/
structure Looking (n : Negotiator) : Prop where
  looking : ∀ t name, n.tasks t = .looked name → n.overtaken t = false → n.routing.adopted name = true
  through : ∀ p ∈ n.reprobes, p.adopted = true

/-- A step that takes no namespace out of the adopted ones leaves the repairs looking, when it sends none
of its own to look. -/
theorem Looking.of_eq (h : Looking n) {t : ℕ} {p : Task} (hp : ∀ name, p ≠ .looked name)
    (htasks : n'.tasks = Function.update n.tasks t p) (hadopted : n'.routing.adopted = n.routing.adopted)
    (hovertaken : n'.overtaken = n.overtaken) (hreprobes : n'.reprobes = n.reprobes) : Looking n' where
  looking t' name hlooked hfresh := by
    rw [hovertaken] at hfresh
    rw [hadopted]
    by_cases ht : t' = t
    · rw [htasks, ht, Function.update_self] at hlooked
      exact absurd hlooked (hp name)
    · rw [htasks, Function.update_of_ne ht] at hlooked
      exact h.looking t' name hlooked hfresh
  through p hp := h.through p (hreprobes ▸ hp)

theorem looking_step (h : Looking n) (hturn : n.InTurn e) (hstep : step kinds namespaces n e = some n') :
    Looking n' := by
  cases access_of_step hstep with
  | @looked t name e hidle hworth hadopted =>
      refine ⟨fun t' name' hlooked hfresh => ?_, h.through⟩
      by_cases ht : t' = t
      · rw [ht, tasks_move_self, Task.looked.injEq] at hlooked
        exact hlooked ▸ hadopted
      · rw [tasks_move_ne ht] at hlooked
        exact h.looking t' name' hlooked hfresh
  | @entered t now name hlooked hopen =>
      have hadopted : n.routing.adopted name = true := h.looking t name hlooked hturn
      refine ⟨fun t' name' hlooked' hfresh => ?_, List.forall_mem_cons.2 ⟨hadopted, h.through⟩⟩
      by_cases ht : t' = t
      · rw [ht, tasks_move_self] at hlooked'
        cases hlooked'
      · rw [tasks_move_ne ht] at hlooked'
        exact h.looking t' name' hlooked' hfresh
  | @settled t status htask =>
      refine ⟨fun t' name hlooked hfresh => ?_, h.through⟩
      by_cases ht : t' = t
      · rw [ht, tasks_move_self] at hlooked
        cases hlooked
      · rw [tasks_move_ne ht] at hlooked
        obtain ⟨hfresh, hother⟩ := Bool.or_eq_false_iff.1 hfresh
        have hname : name ≠ status.name := fun he => beq_eq_false_iff_ne.1 hother (he ▸ hlooked)
        simpa [move, Routing.settle, hname] using h.looking t' name hlooked hfresh
  | @settledAll t overtaken htask hall =>
      refine ⟨fun t' name hlooked hfresh => ?_, h.through⟩
      by_cases ht : t' = t
      · rw [ht, tasks_move_self] at hlooked
        cases hlooked
      · rw [tasks_move_ne ht] at hlooked
        have hovertaken : overtaken t' = false := hfresh
        rw [hall t' name hlooked] at hovertaken
        cases hovertaken
  | _ => exact h.of_eq (by simp) rfl rfl rfl rfl

/-! ### Pins and verdicts -/

/-- A negotiation that still has to write a verdict has written a pin, and where the pin is not the one
of a negotiation that has, the verdict is of the same probe. -/
structure Paired (n : Negotiator) : Prop where
  owing : ∀ t name, (n.tasks t).Owes name → ∃ t', n.pinOf name = some t'
  paired : ∀ name, (∃ t, n.pinOf name = some t ∧ (n.tasks t).Owes name) ∨ n.statusOf name = n.pinOf name

/-- A step of a task that owes no verdict before it or after it leaves the pairs. -/
theorem Paired.of_eq (h : Paired n) {t : ℕ} {p : Task} (hold : ∀ name, ¬ (n.tasks t).Owes name)
    (hp : ∀ name, ¬ p.Owes name) (htasks : n'.tasks = Function.update n.tasks t p)
    (hpin : n'.pinOf = n.pinOf) (hstatus : n'.statusOf = n.statusOf) : Paired n' where
  owing t' name howes := by
    rw [hpin]
    by_cases ht : t' = t
    · rw [htasks, ht, Function.update_self] at howes
      exact absurd howes (hp name)
    · rw [htasks, Function.update_of_ne ht] at howes
      exact h.owing t' name howes
  paired name := by
    rw [hpin, hstatus, htasks]
    refine (h.paired name).imp_left fun ⟨t', ht', howes⟩ => ⟨t', ht', ?_⟩
    have ht : t' ≠ t := fun ht => hold name (ht ▸ howes)
    rwa [Function.update_of_ne ht]

/-- A negotiation that writes a pin owes the verdict. -/
theorem Paired.pin (h : Paired n) {t : ℕ} {p : Task} (hold : ∀ name, ¬ (n.tasks t).Owes name)
    (htasks : n'.tasks = Function.update n.tasks t p) (hpin : ∀ name, p.Owes name → n'.pinOf name = some t)
    (hkeep : ∀ name, ¬ p.Owes name → n'.pinOf name = n.pinOf name) (hstatus : n'.statusOf = n.statusOf) :
    Paired n' where
  owing t' name howes := by
    by_cases hp : p.Owes name
    · exact ⟨t, hpin name hp⟩
    rw [hkeep name hp]
    by_cases ht : t' = t
    · rw [htasks, ht, Function.update_self] at howes
      exact absurd howes hp
    · rw [htasks, Function.update_of_ne ht] at howes
      exact h.owing t' name howes
  paired name := by
    rw [htasks, hstatus]
    by_cases hp : p.Owes name
    · exact .inl ⟨t, hpin name hp, by rwa [Function.update_self]⟩
    rw [hkeep name hp]
    refine (h.paired name).imp_left fun ⟨t', ht', howes⟩ => ⟨t', ht', ?_⟩
    have ht : t' ≠ t := fun ht => hold name (ht ▸ howes)
    rwa [Function.update_of_ne ht]

/-- A negotiation that writes its verdict in turn: the pin that stands is its own, or its writer still
owes. -/
theorem Paired.record (h : Paired n) {t : ℕ} {p : Task}
    (hturn : ∀ name, (n.tasks t).Owes name → ∀ t', n.pinOf name = some t' → (n.tasks t').Owes name)
    (hp : ∀ name, ¬ p.Owes name) (htasks : n'.tasks = Function.update n.tasks t p)
    (hpin : n'.pinOf = n.pinOf) (hstatus : ∀ name, (n.tasks t).Owes name → n'.statusOf name = some t)
    (hkeep : ∀ name, ¬ (n.tasks t).Owes name → n'.statusOf name = n.statusOf name) : Paired n' where
  owing t' name howes := by
    rw [hpin]
    by_cases ht : t' = t
    · rw [htasks, ht, Function.update_self] at howes
      exact absurd howes (hp name)
    · rw [htasks, Function.update_of_ne ht] at howes
      exact h.owing t' name howes
  paired name := by
    rw [htasks, hpin]
    by_cases howes : (n.tasks t).Owes name
    · obtain ⟨t', ht'⟩ := h.owing t name howes
      by_cases ht : t' = t
      · exact .inr ((hstatus name howes).trans (ht ▸ ht'.symm))
      · exact .inl ⟨t', ht', by
          rw [Function.update_of_ne ht]
          exact hturn name howes t' ht'⟩
    · rw [hkeep name howes]
      refine (h.paired name).imp_left fun ⟨t', ht', howes'⟩ => ⟨t', ht', ?_⟩
      have ht : t' ≠ t := fun ht => howes (ht ▸ howes')
      rwa [Function.update_of_ne ht]

theorem paired_step (h : Paired n) (hturn : n.InTurn e) (hstep : step kinds namespaces n e = some n') :
    Paired n' := by
  cases access_of_step hstep with
  | passed hidle => exact h.of_eq (by simp [hidle, Task.Owes]) (by simp [Task.Owes]) rfl rfl rfl
  | looked hidle => exact h.of_eq (by simp [hidle, Task.Owes]) (by simp [Task.Owes]) rfl rfl rfl
  | shut hlooked => exact h.of_eq (by simp [hlooked, Task.Owes]) (by simp [Task.Owes]) rfl rfl rfl
  | entered hlooked => exact h.of_eq (by simp [hlooked, Task.Owes]) (by simp [Task.Owes]) rfl rfl rfl
  | started hidle => exact h.of_eq (by simp [hidle, Task.Owes]) (by simp [Task.Owes]) rfl rfl rfl
  | startedAll hidle => exact h.of_eq (by simp [hidle, Task.Owes]) (by simp [Task.Owes]) rfl rfl rfl
  | failed hwrites =>
      refine h.of_eq (fun name howes => hwrites name ?_) (by simp [Task.Owes]) rfl rfl rfl
      exact Task.Owes.writes howes
  | answered htask => exact h.of_eq (by simp [htask, Task.Owes]) (by simp [Task.Owes]) rfl rfl rfl
  | answeredAll htask => exact h.of_eq (by simp [htask, Task.Owes]) (by simp [Task.Owes]) rfl rfl rfl
  | @pinned t status htask =>
      refine h.pin (by simp [htask, Task.Owes]) rfl (fun name hname => ?_) (fun name hname => ?_) rfl
      · exact hname ▸ Function.update_self ..
      · exact Function.update_of_ne (Ne.symm hname) ..
  | @recorded t status htask =>
      refine h.record hturn (by simp [Task.Owes]) rfl rfl (fun name hname => ?_) (fun name hname => ?_)
      · rw [htask] at hname
        exact hname ▸ Function.update_self ..
      · rw [htask] at hname
        exact Function.update_of_ne (Ne.symm hname) ..
  | settled htask => exact h.of_eq (by simp [htask, Task.Owes]) (by simp [Task.Owes]) rfl rfl rfl
  | @pinnedAll t statuses htask =>
      exact h.pin (by simp [htask, Task.Owes]) rfl (fun _ _ => rfl) (fun _ hname => absurd trivial hname) rfl
  | @recordedAll t statuses htask =>
      refine h.record hturn (by simp [Task.Owes]) rfl rfl (fun _ _ => rfl) fun name hname => ?_
      rw [htask] at hname
      exact absurd trivial hname
  | settledAll htask => exact h.of_eq (by simp [htask, Task.Owes]) (by simp [Task.Owes]) rfl rfl rfl

/-! ### Runs -/

variable {es : List Event}

theorem settled_exec (h : Starts namespaces n) (hrun : Run.exec (step kinds namespaces) n es = some n') :
    Settled n' := by
  refine Run.exec_inv (I := Settled) (fun _ _ _ hs hstep => settled_step hs hstep) ?_ hrun
  rcases h with rfl | ⟨pins, statuses, rfl⟩ <;> intro name hprobed <;> cases hprobed

theorem spaced_exec (h : Starts namespaces n) (hrun : Run.exec (step kinds namespaces) n es = some n') :
    Spaced n' := by
  refine Run.exec_inv (I := Spaced) (fun _ _ _ hs hstep => spaced_step hs hstep) ?_ hrun
  rcases h with rfl | ⟨pins, statuses, rfl⟩ <;> exact ⟨by simp, by simp⟩

theorem looking_exec (h : Starts namespaces n) (hturn : Run.Along (step kinds namespaces) InTurn n es)
    (hrun : Run.exec (step kinds namespaces) n es = some n') : Looking n' := by
  refine Run.exec_inv_along (I := Looking) (fun _ _ _ hs ht hstep => looking_step hs ht hstep) ?_ hturn hrun
  rcases h with rfl | ⟨pins, statuses, rfl⟩ <;> exact ⟨by simp, by simp⟩

theorem paired_exec (h : Starts namespaces n) (hturn : Run.Along (step kinds namespaces) InTurn n es)
    (hrun : Run.exec (step kinds namespaces) n es = some n') : Paired n' := by
  refine Run.exec_inv_along (I := Paired) (fun _ _ _ hs ht hstep => paired_step hs ht hstep) ?_ hturn hrun
  rcases h with rfl | ⟨pins, statuses, rfl⟩ <;> exact ⟨by simp [Task.Owes], by simp⟩

/-- **In turn.**  In a run whose steps are all in turn the tables and the repairs fit in every state. -/
theorem fit_exec (h : Starts namespaces n) (hturn : Run.Along (step kinds namespaces) InTurn n es)
    (hrun : Run.exec (step kinds namespaces) n es = some n') : Fit n' where
  settled := settled_exec h hrun
  spaced := (spaced_exec h hrun).apart
  adopted := (looking_exec h hturn hrun).through
  paired name hquiet := ((paired_exec h hturn hrun).paired name).resolve_left fun ⟨t, _, howes⟩ =>
    hquiet t howes

/-! ### Alone, and across one another -/

/-- A negotiation that nothing comes between writes what `negotiateNamespace` writes. -/
theorem next_alone {t : ℕ} {ns : Namespace} {ask : Kind → String → Listing} {status : NamespaceStatus}
    (htask : n.tasks t = .probing ns.name)
    (hns : namespaces.find? (fun n => n.name == ns.name) = some ns)
    (hok : probeNamespace kinds ns ask = .ok status) :
    ∃ n', Run.exec (step kinds namespaces) n [.answered t ask, .next t, .next t, .next t] = some n' ∧
      n'.routing = (negotiateNamespace kinds namespaces ask ns.name n.routing).2 := by
  rw [negotiateNamespace_ok hns hok, ← name_of_probeNamespace hok]
  refine ⟨_, by simp [Run.exec, step, htask, hns, hok]; rfl, rfl⟩

/-- The task of an event. -/
def Event.task : Event → ℕ
  | .listFailed t _ _ | .enter t _ | .negotiateNamespace t _ | .negotiate t | .answered t _ | .next t => t

/-- A step moves its own task only. -/
theorem tasks_step_ne {t : ℕ} (h : t ≠ e.task) (hstep : step kinds namespaces n e = some n') :
    n'.tasks t = n.tasks t := by
  cases access_of_step hstep <;> exact tasks_move_ne h ..

theorem tasks_exec_ne {t : ℕ} (h : ∀ e ∈ es, t ≠ e.task)
    (hrun : Run.exec (step kinds namespaces) n es = some n') : n'.tasks t = n.tasks t := by
  induction es generalizing n with
  | nil => exact Option.some.inj hrun ▸ rfl
  | cons e es ih =>
      obtain ⟨u, hu, hrun⟩ := Run.exec_cons_eq_some.1 hrun
      obtain ⟨he, hes⟩ := List.forall_mem_cons.1 h
      exact (ih hes hrun).trans (tasks_step_ne he hu)

/-- The virtual machines routed as the last run negotiated them. -/
def adoptedVms : Negotiator := { routing := .adoptPins [vmmNamespace] [("vmm", "v4.3")] [] }

/-- The list of the virtual machines is answered. -/
def listsVms : Kind → String → Listing := fun _ _ => .ok []

/-- A repair whose probe takes longer than its window, and the next one: the first finds nothing, the
second finds the virtual machines, and each writes between the writes of the other. -/
def crossing : List Event :=
  [.listFailed 1 "vmm" (.notFound "vms"), .enter 1 0, .listFailed 2 "vmm" (.notFound "vms"),
   .enter 2 REPAIR_INTERVAL, .answered 1 absentVms, .answered 2 listsVms, .next 1, .next 2, .next 2, .next 1,
   .next 1, .next 2]

/-- Repairs that cross leave the pin of one and the verdict of the other. -/
theorem not_fit_of_crossing : Starts [vmmNamespace] adoptedVms ∧
    ¬ ∀ n', Run.exec (step [vmsKind] [vmmNamespace]) adoptedVms crossing = some n' → Fit n' := by
  refine ⟨.inr ⟨_, _, rfl⟩, fun hfit => ?_⟩
  have hmixed : (Run.exec (step [vmsKind] [vmmNamespace]) adoptedVms crossing).map
      (fun n => (n.statusOf "vmm", n.pinOf "vmm", n.tasks 1, n.tasks 2)) =
        some (some 1, some 2, .done, .done) := by decide +kernel
  obtain ⟨n', hrun, hn'⟩ := Option.map_eq_some_iff.1 hmixed
  obtain ⟨hstatus, hpin, h1, h2⟩ : n'.statusOf "vmm" = some 1 ∧ n'.pinOf "vmm" = some 2 ∧
      n'.tasks 1 = .done ∧ n'.tasks 2 = .done := by simpa using hn'
  have hquiet : ∀ t, ¬ (n'.tasks t).Owes "vmm" := by
    intro t
    by_cases ht1 : t = 1
    · rw [ht1, h1]
      exact id
    by_cases ht2 : t = 2
    · rw [ht2, h2]
      exact id
    rw [tasks_exec_ne (by simp [crossing, Event.task, ht1, ht2]) hrun]
    exact id
  have hsame := (hfit n' hrun).paired "vmm" hquiet
  rw [hstatus, hpin] at hsame
  cases hsame

theorem fit_exec_adoptedVms :
    ∃ n', Run.exec (step [vmsKind] [vmmNamespace]) adoptedVms
        [.listFailed 1 "vmm" (.notFound "vms"), .enter 1 0, .answered 1 listsVms] = some n' ∧ Fit n' := by
  obtain ⟨n', hrun⟩ := Option.isSome_iff_exists.1 (show (Run.exec (step [vmsKind] [vmmNamespace]) adoptedVms
    [.listFailed 1 "vmm" (.notFound "vms"), .enter 1 0, .answered 1 listsVms]).isSome = true by
      decide +kernel)
  have hturn : Run.Along (step [vmsKind] [vmmNamespace]) InTurn adoptedVms
      [.listFailed 1 "vmm" (.notFound "vms"), .enter 1 0, .answered 1 listsVms] := by
    refine ⟨trivial, fun n1 h1 => ⟨?_, fun _ _ => ⟨trivial, fun _ _ => trivial⟩⟩⟩
    rw [← Option.some.inj h1]
    rfl
  exact ⟨n', hrun, fit_exec (.inr ⟨_, _, rfl⟩) hturn hrun⟩

end Negotiator

end Nutsh.Prism
