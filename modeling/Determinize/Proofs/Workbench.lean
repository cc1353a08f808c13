import Determinize.Proofs.Minimal.Passes
import Determinize.Proofs.Reading
import Determinize.Proofs.Subset.Automaton
import Determinize.Workbench

/-!
# What is kept on the workbench

Copying an automaton puts its parts in order again. So a copy is the same automaton only where the
parts are in order already, and that has to hold of everything that can be copied: of what the
constructor makes of values of any kind, of what each operation makes of another automaton, and of
what is left of an automaton that was changed in place, under whatever names it is known.

One request keeps this, whether it succeeds or fails, and so does any number of them. The only
exception is a request that replaces a part without any check, and that is not among the requests
here.

## Main definitions

* `Draft.Orderly`, `Workbench.Orderly` — nothing stray, and everything well formed
* `Workbench.Command.IsChecked` — the commands that replace no part
* `Workbench.Command.IsOperation` — the commands that make or change an automaton

## Main results

* `Workbench.Orderly.yields_perform` — one request
* `Workbench.Orderly.after` — any number of requests
* `Workbench.wellFormed_after` — so every copy is exact
-/

namespace Determinize

/-- The draft is an automaton, without anything stray, and well formed. -/
def Draft.Orderly (d : Draft) : Prop := ∃ a, d = .of a ∧ a.WellFormed

theorem Automaton.WellFormed.orderly {a : Automaton} (h : a.WellFormed) : (Draft.of a).Orderly :=
  ⟨a, rfl, h⟩

theorem Draft.Orderly.yields_asked {d : Draft} (h : d.Orderly) (facet : Draft.Facet)
    (bad : Fault → Prop) : (Reading.ofExcept (d.asked facet)).Yields Automaton.WellFormed bad := by
  obtain ⟨a, rfl, ha⟩ := h
  exact ha

namespace Workbench

variable {w : Workbench} {r : Request} {name : String} {slot : ℕ} {d : Draft} {a : Automaton}

/-- Everything kept is a well-formed automaton. -/
def Orderly (w : Workbench) : Prop := ∀ d ∈ w.slots, d.Orderly

/-- The command puts nothing onto the workbench but what the constructor makes, and replaces no part
of an automaton. -/
def Command.IsChecked : Command → Prop
  | .new automaton => ∀ a, automaton.outcome = .ok a → a.Constructed
  | .set _ => False
  | _ => True

theorem orderly_empty : empty.Orderly := fun _ hd => absurd hd List.not_mem_nil

theorem Orderly.put (h : w.Orderly) (name : String) (ha : a.WellFormed) :
    (w.put name a).Orderly := by
  intro d hd
  rcases List.mem_append.mp hd with hd | hd
  · exact h d hd
  · exact List.mem_singleton.mp hd ▸ ha.orderly

theorem Orderly.replace (h : w.Orderly) (slot : ℕ) (ha : a.WellFormed) :
    (w.replace slot (.of a)).Orderly := by
  intro d hd
  rcases List.mem_or_eq_of_mem_set hd with hd | rfl
  · exact h d hd
  · exact ha.orderly

theorem mem_slots_of_find (h : w.find name = .ok (slot, d)) : d ∈ w.slots := by
  rw [find] at h
  obtain ⟨place, -, h⟩ := bind_eq_ok_iff.mp h
  split at h
  · rename_i e he
    cases h
    exact List.mem_of_getElem? he
  · cases h

theorem Orderly.yields_find (h : w.Orderly) (name : String) :
    (Reading.ofExcept (w.find name)).Yields (fun p => p.2.Orderly) fun _ => True :=
  Reading.yields_ofExcept (fun p hp => h p.2 (mem_slots_of_find hp)) fun _ _ => trivial

/-- What is shown at a step of a replay is the outcome of a construction with a limit. -/
theorem wellFormed_of_stepFor {step : Raw} {shown : Replay × ℕ × Construction}
    (h : w.stepFor name step = .ok shown) : shown.2.2.automaton.WellFormed := by
  rw [stepFor] at h
  obtain ⟨⟨replay, d⟩, -, h⟩ := bind_eq_ok_iff.mp h
  obtain ⟨⟨k, c⟩, hstep, h⟩ := bind_eq_ok_iff.mp h
  obtain ⟨a, -, h⟩ := bind_eq_ok_iff.mp h
  cases h
  obtain ⟨-, hat⟩ := Replay.stepAtRaw_eq_ok_iff.mp hstep
  obtain ⟨-, rfl⟩ := Replay.stepAt?_eq_some_iff.mp hat
  exact Automaton.wellFormed_determinizedWithin replay.automaton (some k)

theorem yields_stepFor (w : Workbench) (name : String) (step : Raw) :
    (Reading.ofExcept (w.stepFor name step)).Yields (fun p => p.2.2.automaton.WellFormed)
      fun _ => True :=
  Reading.yields_ofExcept (fun _ hp => wellFormed_of_stepFor hp) fun _ _ => trivial

theorem Orderly.yields_perform (h : w.Orderly) (hr : r.command.IsChecked) :
    (w.perform r).Yields (fun p => p.1.Orderly) fun _ => True := by
  obtain ⟨source, target, command⟩ := r
  unfold perform
  cases command with
  | new automaton =>
    have hmade : automaton.Yields Automaton.WellFormed fun _ => True := by
      rw [Reading.Yields]
      split
      · exact (hr _ ‹_›).wellFormed
      · trivial
    exact hmade.bind fun a ha => Reading.yields_pure (h.put target ha)
  | eliminate =>
    refine (h.yields_find source).bind ?_
    rintro ⟨slot, d⟩ hd
    refine (hd.yields_asked .silence _).bind fun a ha => ?_
    split
    · exact Reading.yields_pure (h.put target (Automaton.wellFormed_eliminated ha))
    · exact Reading.yields_pure h
  | generate limit =>
    refine .bind_any ?_
    rintro ⟨slot, d⟩
    refine .bind_any fun k? => .bind_any fun a => ?_
    exact Reading.yields_pure (h.put target (Automaton.wellFormed_determinizedWithin a k?))
  | minimize mode =>
    refine (h.yields_find source).bind ?_
    rintro ⟨slot, d⟩ hd
    refine .bind_any fun m => (hd.yields_asked .source _).bind fun a ha => ?_
    exact Reading.yields_pure (h.replace slot (ha.minimized m))
  | copy =>
    refine .bind_any fun place => .bind_any fun a => ?_
    exact Reading.yields_pure (h.put target (Automaton.wellFormed_of ..))
  | «set» change => exact hr.elim
  | stepAt step name =>
    refine (yields_stepFor w name step).bind ?_
    rintro ⟨replay, k, c⟩ hc
    exact Reading.yields_pure (h.put target hc)
  -- what is asked for is read off, and nothing that is kept changes
  | describe | hasEpsilon | index _ | run _ | accepts _ | ids | table _ | isFinalStep _ _ | dot _ =>
    repeat refine Reading.Yields.bind_any fun _ => ?_
    exact Reading.yields_pure h
  | isFinal _ | next _ _ _ | closure _ | equivalent _ _ _ | words _ | replay _ =>
    refine Reading.Yields.bind_any ?_
    rintro ⟨_, _⟩
    repeat refine Reading.Yields.bind_any fun _ => ?_
    exact Reading.yields_pure h

/-- Whether a request succeeds or fails, everything kept stays a well-formed automaton. -/
theorem Orderly.following (h : w.Orderly) (hr : r.command.IsChecked) : (w.following r).Orderly := by
  have hyields := h.yields_perform hr
  rw [Reading.Yields] at hyields
  rw [Workbench.following]
  cases houtcome : (w.perform r).outcome with
  | ok next =>
    rw [houtcome] at hyields
    exact hyields
  | error fault => exact h

theorem Orderly.after {requests : List Request} (h : w.Orderly)
    (hrequests : ∀ r ∈ requests, r.command.IsChecked) : (w.after requests).Orderly := by
  induction requests generalizing w with
  | nil => exact h
  | cons r requests ih =>
    obtain ⟨hr, hrequests⟩ := List.forall_mem_cons.mp hrequests
    exact ih (h.following hr) hrequests

/-- The command makes an automaton of another one or changes it, and its argument is one of those
that it takes. -/
inductive Command.IsOperation : Command → Prop
  /-- Removing epsilon transitions. -/
  | eliminate : IsOperation .eliminate
  /-- The subset construction, with a limit or without. -/
  | generate {limit : Raw} {k? : Option ℕ} : stepLimit limit = .ok k? → IsOperation (.generate limit)
  /-- Minimizing, in some mode. -/
  | minimize {mode : Raw} {m : Mode} : Mode.ofRaw mode = .ok m → IsOperation (.minimize mode)
  /-- Copying. -/
  | copy : IsOperation .copy

/-- On what a name stands for, every operation succeeds. -/
theorem exists_perform_eq_ok {command : Command} (hfind : w.find name = .ok (slot, .of a))
    (hcommand : command.IsOperation) (target : String) :
    ∃ next, (w.perform ⟨name, target, command⟩).outcome = .ok next := by
  cases hcommand with
  | eliminate =>
    simp only [perform, hfind]
    show ∃ next, (if a.hasEpsilon = true then (pure _ : Reading _) else pure _).outcome = .ok next
    split <;> exact ⟨_, rfl⟩
  | generate hlimit =>
    simp only [perform, hfind, hlimit]
    exact ⟨_, rfl⟩
  | minimize hmode =>
    simp only [perform, hfind, hmode]
    exact ⟨_, rfl⟩
  | copy =>
    simp only [perform, hfind]
    exact ⟨_, rfl⟩

theorem perform_copy (hfind : w.find name = .ok (slot, .of a)) (target : String) :
    (w.perform ⟨name, target, .copy⟩).outcome =
      .ok (w.put target a.copy, .automaton (.of a.copy)) := by
  simp only [perform, hfind]
  rfl

/-- **Every automaton that is handed out is well formed, and its copy is the same automaton.** The
constructor makes a well-formed automaton of its arguments or refuses one of them. From there on,
whatever is asked for, what is kept under any name is well formed, every operation on it succeeds,
and copying it is exact. -/
theorem wellFormed_after :
    (∀ initial finals states alphabet transitions : Raw,
      (∃ a, (Automaton.ofRaw initial finals states alphabet transitions).outcome = .ok a ∧
        a.WellFormed) ∨
      ∃ fault, (Automaton.ofRaw initial finals states alphabet transitions).outcome =
        .error fault ∧ (fault.category = .kind ∨ fault.category = .value)) ∧
    ∀ requests : List Request, (∀ r ∈ requests, r.command.IsChecked) →
      (∀ d ∈ (empty.after requests).slots, ∃ a, d = .of a ∧ a.WellFormed ∧ a.copy = a) ∧
      ∀ name slot a, (empty.after requests).find name = .ok (slot, .of a) → ∀ target,
        (∀ command : Command, command.IsOperation →
          ∃ next, ((empty.after requests).perform ⟨name, target, command⟩).outcome = .ok next) ∧
        ((empty.after requests).perform ⟨name, target, .copy⟩).outcome =
          .ok ((empty.after requests).put target a, .automaton (.of a)) := by
  refine ⟨fun initial finals states alphabet transitions => ?_, fun requests hrequests => ?_⟩
  · exact Reading.yields_iff.mp
      (Automaton.yields_ofRaw initial finals states alphabet transitions)
  · have hslots :
        ∀ d ∈ (empty.after requests).slots, ∃ a, d = .of a ∧ a.WellFormed ∧ a.copy = a := by
      intro d hd
      obtain ⟨a, hda, ha⟩ := orderly_empty.after hrequests d hd
      exact ⟨a, hda, ha, ha.copy_eq⟩
    refine ⟨hslots, fun name slot a hfind target => ⟨fun command hcommand => ?_, ?_⟩⟩
    · exact exists_perform_eq_ok hfind hcommand target
    · obtain ⟨b, hb, -, hcopy⟩ := hslots _ (mem_slots_of_find hfind)
      obtain rfl : a = b := congrArg Draft.automaton hb
      rw [perform_copy hfind target, hcopy]

/-- An automaton from a name, a single final state, repeated states and symbols and an epsilon
symbol; removing epsilon transitions gives it a second name, under which it is minimized; and then
it is determinized. -/
def mixedRequests : List Request :=
  [⟨"a", "a", .new (Automaton.ofRaw (.str "A") (.str "B")
      (.list [.str "A", .state (.simple "B"), .str "A"]) (.list [.str "0", .str "λ", .str "0"])
      (.list [.transition ⟨.simple "A", [.simple "A", .simple "B"], "0"⟩]))⟩,
    ⟨"a", "b", .eliminate⟩, ⟨"b", "b", .minimize (.str "single")⟩, ⟨"b", "d", .generate (.int 3)⟩]

theorem wellFormed_after_mixedRequests :
    (∀ r ∈ mixedRequests, r.command.IsChecked) ∧
      ∃ slot a, (empty.after mixedRequests).find "d" = .ok (slot, .of a) ∧
        ((empty.after mixedRequests).perform ⟨"d", "e", .copy⟩).outcome =
          .ok ((empty.after mixedRequests).put "e" a, .automaton (.of a)) := by
  have hchecked : ∀ r ∈ mixedRequests, r.command.IsChecked := by
    simp only [mixedRequests, List.forall_mem_cons]
    exact ⟨fun a ha => ⟨_, _, _, _, _, ha⟩, trivial, trivial, trivial, by simp⟩
  have hfind : ∃ a, (empty.after mixedRequests).find "d" = .ok (1, .of a) := ⟨_, rfl⟩
  obtain ⟨a, hfind⟩ := hfind
  obtain ⟨-, hrun⟩ := wellFormed_after
  obtain ⟨-, hcopy⟩ := hrun mixedRequests hchecked
  exact ⟨hchecked, 1, a, hfind, (hcopy "d" 1 a hfind "e").2⟩

end Workbench

end Determinize
