/-
What a write leaves behind.

Nothing is under the name of a write before its file is made, and nothing once that is moved, so that a write that
returns, with an error or without, has left nothing there unless removing it failed.

Main definitions:

* `Tidy` — what is under the names of writes.

Main results:

* `Called.names` — what a call does to the names writes write under;
* `temp_gone` — a write that returns has left nothing.
-/
import Nutsh.Atomic.Whole

set_option relaxedAutoImplicit false
set_option autoImplicit false

namespace Nutsh.Atomic

variable {d₀ : Disk String UInt8} {s s' : World} {k : ℕ} {w w' : Write} {dir : Option ℕ}

/-! ### What is left behind -/

/-- Under the name of a write there is nothing before its file is made, and nothing once that is moved. -/
structure Tidy (s : World) : Prop where
  unmade : ∀ t, IsTemp t →
    (∀ k w, s.writes k = some w → w.temp = t → w.phase = .start ∨ w.phase = .opening) → ∀ i, ¬ s.disk.Held t i
  moved : ∀ k w, s.writes k = some w → w.phase = .syncing → s.disk.names w.temp = none

/-- What a call leaves of the names other writes write under, and of its own. -/
theorem Called.names (h : Called s k w s') (hfile : ¬ IsTemp w.file) :
    (∀ t, IsTemp t → t ≠ w.temp → s'.disk.names t = s.disk.names t ∧ ∀ i, s'.disk.Held t i → s.disk.Held t i) ∧
    ∃ w', s'.writes = Function.update s.writes k (some w') ∧ w'.temp = w.temp ∧
      (w'.phase = .start ∨ w'.phase = .opening → w.phase = .start ∧ s'.disk = s.disk) ∧
      (w'.phase = .syncing → s'.disk.names w.temp = none) ∧
      ∀ ok, w'.phase = .returned ok →
        (w.phase = .start ∨ w.phase = .syncing) ∧ s'.disk.names = s.disk.names ∨ s'.disk.names w.temp = none := by
  have hne {t : String} (ht : IsTemp t) : t ≠ w.file := by
    rintro rfl
    exact hfile ht
  cases h with
  | dir mode hphase =>
      exact ⟨fun t _ _ => ⟨rfl, fun i hi => hi⟩, _, rfl, rfl, fun _ => ⟨hphase, rfl⟩, (fun hp => by cases hp),
        fun ok hp => by cases hp⟩
  | create made hphase hmade =>
      rw [Disk.create] at hmade
      split at hmade
      · cases hmade
      rw [Option.some.injEq] at hmade
      subst hmade
      refine ⟨fun t _ ht => ⟨Disk.names_set_of_ne ht, fun i hi => (Disk.held_set_of_ne ht).1 hi⟩, _, rfl, rfl, ?_,
        (fun hp => by cases hp), fun ok hp => by cases hp⟩
      rintro (hp | hp)
      · cases hp
      · cases hp
  | write i n rest hphase =>
      refine ⟨fun t _ _ => ⟨rfl, fun i hi => hi⟩, _, rfl, rfl, ?_, (fun hp => by cases hp), fun ok hp => by cases hp⟩
      rintro (hp | hp)
      · cases hp
      · cases hp
  | sync i hphase =>
      refine ⟨fun t _ _ => ⟨rfl, fun i hi => hi⟩, _, rfl, rfl, ?_, (fun hp => by cases hp), fun ok hp => by cases hp⟩
      rintro (hp | hp)
      · cases hp
      · cases hp
  | move i disk hphase hmade =>
      rw [Disk.move, Option.map_eq_some_iff] at hmade
      obtain ⟨j, -, rfl⟩ := hmade
      refine ⟨fun t hIs ht => ⟨?_, fun l hl => ?_⟩, _, rfl, rfl, ?_, fun _ => ?_, fun ok hp => by cases hp⟩
      · exact (Disk.names_set_of_ne (hne hIs)).trans (Disk.names_set_of_ne ht)
      · exact (Disk.held_set_of_ne ht).1 ((Disk.held_set_of_ne (hne hIs)).1 hl)
      · rintro (hp | hp)
        · cases hp
        · cases hp
      · exact (Disk.names_set_of_ne (hne (isTemp_temp w))).trans Disk.names_set_self
  | remove disk hphase hmade =>
      rw [Disk.remove, Option.map_eq_some_iff] at hmade
      obtain ⟨j, -, rfl⟩ := hmade
      refine ⟨fun t _ ht => ⟨Disk.names_set_of_ne ht, fun l hl => (Disk.held_set_of_ne ht).1 hl⟩, _, rfl, rfl, ?_,
        (fun hp => by cases hp), fun ok _ => .inr Disk.names_set_self⟩
      rintro (hp | hp)
      · cases hp
      · cases hp
  | syncNames hphase =>
      refine ⟨fun t _ _ => ⟨rfl, fun i hi => Disk.held_of_names (Disk.held_syncNames.1 hi)⟩, _, rfl, rfl, ?_,
        (fun hp => by cases hp), fun ok _ => .inl ⟨.inr hphase, rfl⟩⟩
      rintro (hp | hp)
      · cases hp
      · cases hp
  | error hphase =>
      refine ⟨fun t _ _ => ⟨rfl, fun i hi => hi⟩, _, rfl, rfl, ?_, (fun hp => by cases hp),
        fun ok _ => .inl ⟨hphase, rfl⟩⟩
      rintro (hp | hp)
      · cases hp
      · cases hp
  | clean hearly =>
      refine ⟨fun t _ _ => ⟨rfl, fun i hi => hi⟩, _, rfl, rfl, ?_, (fun hp => by cases hp), fun ok hp => by cases hp⟩
      rintro (hp | hp)
      · cases hp
      · cases hp
  | left hphase =>
      refine ⟨fun t _ _ => ⟨rfl, fun i hi => hi⟩, _, rfl, rfl, ?_, (fun hp => by cases hp), fun ok hp => by cases hp⟩
      rintro (hp | hp)
      · cases hp
      · cases hp

theorem Tidy.step (h : Tidy s) (hinv : Inv d₀ s) (hstep : Step s s') : Tidy s' := by
  cases hstep with
  | begin k file text pid nanos hk hfile hfresh =>
      constructor
      · intro t ht hall i hi
        refine h.unmade t ht (fun j w hw heq => ?_) i hi
        have hj : j ≠ k := by
          rintro rfl
          rw [hk] at hw
          cases hw
        exact hall j w (writes_put.2 (.inr ⟨hj, hw⟩)) heq
      · intro j w hw hphase
        rw [writes_put] at hw
        obtain ⟨rfl, rfl⟩ | ⟨-, hw⟩ := hw
        · cases hphase
        · exact h.moved j w hw hphase
  | call k o hcall =>
      obtain ⟨w, hk, hcall⟩ := call_cases hcall
      obtain ⟨hother, w', hwrites, htemp, hearly, hsyncing, -⟩ := hcall.names (hinv.named k w hk)
      constructor
      · intro t ht hall i hi
        rw [hwrites] at hall
        by_cases heq : t = w.temp
        · subst heq
          obtain ⟨hphase, hdisk⟩ := hearly (hall k w' (Function.update_self ..) htemp)
          rw [hdisk] at hi
          refine h.unmade w.temp ht (fun j v hv hvt => ?_) i hi
          by_cases hj : j = k
          · subst hj
            obtain rfl : w = v := Option.some.inj (hk.symm.trans hv)
            exact .inl hphase
          · exact absurd hvt (hinv.apart j k v w hv hk hj)
        · refine h.unmade t ht (fun j v hv hvt => ?_) i ((hother t ht heq).2 i hi)
          have hj : j ≠ k := by
            rintro rfl
            obtain rfl : w = v := Option.some.inj (hk.symm.trans hv)
            exact heq hvt.symm
          exact hall j v (by rwa [Function.update_of_ne hj]) hvt
      · intro j v hv hphase
        rw [hwrites] at hv
        by_cases hj : j = k
        · subst hj
          rw [Function.update_self, Option.some.injEq] at hv
          subst hv
          rw [htemp]
          exact hsyncing hphase
        · rw [Function.update_of_ne hj] at hv
          rw [(hother v.temp (isTemp_temp v) (hinv.apart j k v w hv hk hj)).1]
          exact h.moved j v hv hphase
  | kill k w hk =>
      constructor
      · intro t ht hall i hi
        refine h.unmade t ht (fun j v hv hvt => ?_) i hi
        by_cases hj : j = k
        · subst hj
          obtain rfl : w = v := Option.some.inj (hk.symm.trans hv)
          obtain hp | hp := hall j w.kill (Function.update_self ..) (by rw [kill_temp, hvt])
          · exact absurd hp (kill_phase w).1
          · exact absurd hp (kill_phase w).2.1
        · exact hall j v (writes_put.2 (.inr ⟨hj, hv⟩)) hvt
      · intro j v hv hphase
        rw [writes_put] at hv
        obtain ⟨rfl, rfl⟩ | ⟨-, hv⟩ := hv
        · exact absurd hphase (kill_phase w).2.2
        · exact h.moved j v hv hphase
  | crash disk hc =>
      constructor
      · intro t ht hall i hi
        refine h.unmade t ht (fun j v hv hvt => ?_) i (hc.held hi)
        obtain hp | hp := hall j v.kill (by simp [hv]) (by rw [kill_temp, hvt])
        · exact absurd hp (kill_phase v).1
        · exact absurd hp (kill_phase v).2.1
      · intro j v hv hphase
        obtain ⟨u, -, rfl⟩ := Option.map_eq_some_iff.1 hv
        exact absurd hphase (kill_phase u).2.2

theorem tidy_of_reaches (hd : d₀.Settled) (htemps : ∀ t, IsTemp t → d₀.names t = none)
    (h : Reaches (start d₀ dir) s) : Tidy s := by
  induction h with
  | refl =>
      constructor
      · intro t ht _ i hi
        have hnames := hd.held hi
        rw [htemps t ht] at hnames
        cases hnames
      · intro j v hv
        cases hv
  | tail hreach hstep ih => exact ih.step (inv_of_reaches hd hreach) hstep

/-- **A write that returns has left nothing** under the name it wrote under, with an error or without, unless that
name could not be removed. -/
theorem temp_gone (hd : d₀.Settled) (htemps : ∀ t, IsTemp t → d₀.names t = none) (h : Reaches (start d₀ dir) s)
    {o : Outcome} (hcall : s.call k o = some s') (hk : s'.writes k = some w) {ok : Bool}
    (hreturned : w.phase = .returned ok) : s'.disk.names w.temp = none := by
  have hinv := inv_of_reaches hd h
  have htidy := tidy_of_reaches hd htemps h
  obtain ⟨v, hv, hcall⟩ := call_cases hcall
  obtain ⟨-, w', hwrites, htemp, -, -, hret⟩ := hcall.names (hinv.named k v hv)
  rw [hwrites, Function.update_self, Option.some.injEq] at hk
  subst hk
  rw [htemp]
  obtain ⟨hphase | hphase, hnames⟩ | hnone := hret ok hreturned
  · rw [hnames]
    have hunmade := htidy.unmade v.temp (isTemp_temp v) fun j u hu hut => by
      by_cases hj : j = k
      · subst hj
        obtain rfl : v = u := Option.some.inj (hv.symm.trans hu)
        exact .inl hphase
      · exact absurd hut (hinv.apart j k u v hu hv hj)
    cases hi : s.disk.names v.temp with
    | none => rfl
    | some i => exact absurd (Disk.held_of_names hi) (hunmade i)
  · rw [hnames]
    exact htidy.moved k v hv hphase
  · exact hnone

/-- A write whose rename fails. -/
theorem temp_gone_failed : ∃ s s' w, Reaches (start bare none) s ∧ s.call 0 (.done 0) = some s' ∧
    s'.writes 0 = some w ∧ w.phase = .returned false ∧ s'.disk.names w.temp = none := by
  obtain ⟨s, hs⟩ : ∃ s, begun.calls 0 [.done 0, .done 0, .done 2, .done 0, .failed] = some s := ⟨_, rfl⟩
  have hreach := reaches_begun.trans (reaches_calls hs)
  obtain ⟨s', w, hcall, hw, hphase⟩ : ∃ s' w, s.call 0 (.done 0) = some s' ∧ s'.writes 0 = some w ∧
      w.phase = .returned false := by
    obtain rfl := Option.some.inj hs
    exact ⟨_, _, rfl, rfl, rfl⟩
  exact ⟨s, s', w, hreach, hcall, hw, hphase, temp_gone settled_bare (fun _ _ => rfl) hreach hcall hw hphase⟩

end Nutsh.Atomic
