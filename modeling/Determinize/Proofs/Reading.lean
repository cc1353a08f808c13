import Determinize.Automaton.Reading

/-!
# What comes of a reading

A reading ends in a value or in a fault. What is said of it as a whole is therefore a property of
the values and a property of the faults. Readings are put together by doing one after the other, and
so are these properties: what comes of the first is all that the second may use.

The constructor of automata is a case of this. Its parts are read one by one in a fixed order. Each
of them, whatever it is, is read or refused, as a value of the wrong kind or one that cannot be
used, and in the end the automaton is put together with all its parts in order. Nothing else is
well formed, so the invariant of automata says no less than what the constructor does.

## Main definitions

* `Reading.Yields` — what holds of the value, or of the fault, in which a reading ends
* `Automaton.Constructed` — the constructor makes the automaton of some values
* `Fault.IsRefusal` — a value of the wrong kind, or one that cannot be used

## Main results

* `Reading.Yields.bind`, `Reading.Yields.mapM` — one reading after another, and one for each element
* `Automaton.yields_ofRaw` — what comes of putting an automaton together from values of any kind
* `Automaton.constructed_iff_wellFormed` — these are the well-formed automata
-/

namespace Determinize

/-- What comes of two outcomes in a row comes of the second, after the first. -/
theorem bind_eq_ok_iff {ε α β : Type} {outcome : Except ε α} {f : α → Except ε β} {b : β} :
    outcome >>= f = .ok b ↔ ∃ a, outcome = .ok a ∧ f a = .ok b := by
  cases outcome <;> simp [bind, Except.bind]

namespace Reading

variable {α β : Type} {r : Reading α} {f : α → Reading β} {good : α → Prop} {after : β → Prop}
  {bad : Fault → Prop}

/-- What holds of the value in which the reading ends, or of the fault. -/
def Yields (r : Reading α) (good : α → Prop) (bad : Fault → Prop) : Prop :=
  match r.outcome with
  | .ok a => good a
  | .error fault => bad fault

theorem yields_iff :
    r.Yields good bad ↔
      (∃ a, r.outcome = .ok a ∧ good a) ∨ ∃ fault, r.outcome = .error fault ∧ bad fault := by
  rw [Yields]
  cases r.outcome <;> simp

theorem yields_pure {a : α} (h : good a) : (pure a : Reading α).Yields good bad := h

theorem yields_fail {fault : Fault} (h : bad fault) : (fail fault : Reading α).Yields good bad := h

theorem yields_warn (w : Warning) : (warn w).Yields (fun _ => True) bad := trivial

/-- An outcome without warnings, by what it is. -/
theorem yields_ofExcept {outcome : Except Fault α} (hgood : ∀ a, outcome = .ok a → good a)
    (hbad : ∀ fault, outcome = .error fault → bad fault) : (ofExcept outcome).Yields good bad := by
  rw [Yields, ofExcept]
  cases outcome with
  | ok a => exact hgood a rfl
  | error fault => exact hbad fault rfl

/-- An outcome without warnings, where it does not matter what is read. -/
theorem yields_ofExcept_of_error {outcome : Except Fault α}
    (hbad : ∀ fault, outcome = .error fault → bad fault) :
    (ofExcept outcome).Yields (fun _ => True) bad :=
  yields_ofExcept (fun _ _ => trivial) hbad

/-- Of some value or some fault there is nothing to say. -/
theorem yields_true (r : Reading α) : r.Yields (fun _ => True) fun _ => True := by
  rw [Yields]
  cases r.outcome <;> trivial

/-- One reading after another: what comes of the first is what the second goes on from. -/
theorem Yields.bind (h : r.Yields good bad) (hnext : ∀ a, good a → (f a).Yields after bad) :
    (r >>= f).Yields after bad := by
  obtain ⟨warnings, outcome⟩ := r
  cases outcome with
  | ok a => exact hnext a h
  | error fault => exact h

/-- Where neither what comes first nor a fault matters. -/
theorem Yields.bind_any (hnext : ∀ a, (f a).Yields after fun _ => True) :
    (r >>= f).Yields after fun _ => True :=
  (yields_true r).bind fun a _ => hnext a

/-- One reading for each element of a list. -/
theorem Yields.mapM {l : List α} (h : ∀ x ∈ l, (f x).Yields after bad) :
    (l.mapM f).Yields (fun k => ∀ b ∈ k, after b) bad := by
  -- what has been read is kept the other way round
  have hloop : ∀ read : List β, (∀ b ∈ read, after b) →
      (List.mapM.loop f l read).Yields (fun k => ∀ b ∈ k, after b) bad := by
    induction l with
    | nil => exact fun read hread => yields_pure fun b hb => hread b (List.mem_reverse.mp hb)
    | cons x l ih =>
      intro read hread
      refine (h x List.mem_cons_self).bind fun b hb => ?_
      exact ih (fun y hy => h y (List.mem_cons_of_mem x hy)) _
        (List.forall_mem_cons.mpr ⟨hb, hread⟩)
  exact hloop [] fun b hb => absurd hb List.not_mem_nil

end Reading

/-! ### Refusals -/

/-- The fault is about a value of the wrong kind, or about one that cannot be used. -/
def Fault.IsRefusal (fault : Fault) : Prop := fault.category = .kind ∨ fault.category = .value

namespace State

variable {s : String} {fault : Fault}

/-- A text that names no state is one that cannot be used. -/
theorem isRefusal_of_ofText (h : ofText s = .error fault) : fault.IsRefusal := by
  rw [ofText] at h
  split at h
  · exact absurd h (by simp)
  · rw [ofPieces] at h
    split at h
    case h_1 hpiece =>
      obtain ⟨p, -, hp⟩ := List.exists_of_findSome?_eq_some hpiece
      obtain rfl := Except.error.inj h
      exact Or.inr (category_of_pieceFault? hp)
    case h_2 =>
      split at h <;> cases h <;> exact Or.inr rfl

theorem isRefusal_of_ofRaw {x : Raw} (h : ofRaw x = .error fault) : fault.IsRefusal := by
  unfold ofRaw at h
  split at h
  · exact absurd h (by simp)
  · exact isRefusal_of_ofText h
  · cases h
    exact Or.inl rfl

end State

theorem Raw.isRefusal_of_symbol {x : Raw} {fault : Fault} (h : x.symbol = .error fault) :
    fault.IsRefusal := by
  unfold symbol at h
  split at h <;> cases h
  exact Or.inl rfl

theorem Transition.isRefusal_of_ofValue {x : Raw} {fault : Fault} (h : ofValue x = .error fault) :
    fault.IsRefusal := by
  unfold ofValue at h
  split at h <;> cases h
  exact Or.inl rfl

namespace Reading

variable {α β : Type} {g : Raw → Except Fault β} {k : List β → Reading α} {good : α → Prop}
  {bad : Fault → Prop}

/-- Whatever a value is, it is taken for a collection, and then its elements are read one by one. -/
theorem yields_collection_bind (x : Raw) (what : String)
    (hg : ∀ y fault, g y = .error fault → bad fault) (hk : ∀ l, (k l).Yields good bad) :
    (x.collection what >>= fun l => (l.mapM fun y => ofExcept (g y)) >>= k).Yields good bad := by
  have hcollection : (x.collection what).Yields (fun _ => True) bad := by
    unfold Raw.collection
    split
    · exact yields_pure trivial
    · exact yields_pure trivial
    · exact (yields_warn _).bind fun _ _ => yields_pure trivial
  have helements (l : List Raw) :
      (l.mapM fun y => ofExcept (g y)).Yields (fun k => ∀ b ∈ k, True) bad :=
    .mapM fun y _ => yields_ofExcept_of_error (hg y)
  exact hcollection.bind fun l _ => (helements l).bind fun read _ => hk read

/-- Elements that are read without warnings can be read apart from any. -/
theorem mapM_ofExcept (g : Raw → Except Fault β) (l : List Raw) :
    (l.mapM fun y => ofExcept (g y)) = ofExcept (l.mapM g) := by
  -- what has been read is kept the other way round
  have hloop : ∀ read : List β, List.mapM.loop (fun y => ofExcept (g y)) l read =
      ofExcept ((l.mapM g).map (read.reverse ++ ·)) := by
    induction l with
    | nil =>
      intro read
      show _ = ofExcept (Except.ok (read.reverse ++ []))
      rw [List.append_nil]
      rfl
    | cons y l ih =>
      intro read
      rw [List.mapM.loop, List.mapM_cons]
      cases g y with
      | error fault => rfl
      | ok b =>
        refine (ih (b :: read)).trans ?_
        rw [List.reverse_cons]
        cases l.mapM g with
        | error fault => rfl
        | ok k => simp [ofExcept, bind, Except.bind, pure, Except.pure, Except.map]
  refine (hloop []).trans ?_
  cases l.mapM g <;> rfl

/-- What a list of values was made of is read from it again. -/
theorem collection_list_bind (wrap : β → Raw) (h : ∀ b, g (wrap b) = .ok b) (l : List β)
    (what : String) :
    ((Raw.list (l.map wrap)).collection what >>= fun l => (l.mapM fun y => ofExcept (g y)) >>= k) =
      k l := by
  have hread : (l.map wrap).mapM g = .ok l := by
    have hwrap : g ∘ wrap = pure := funext h
    rw [List.mapM_map, hwrap, List.mapM_pure, List.map_id']
    rfl
  show ((l.map wrap).mapM fun y => ofExcept (g y)) >>= k = k l
  rw [mapM_ofExcept, hread]
  rfl

end Reading

namespace Automaton

variable {a : Automaton}

/-- **Putting an automaton together from values of any kind** gives a well-formed automaton or
refuses a value. -/
theorem yields_ofRaw (initial finals states alphabet transitions : Raw) :
    (ofRaw initial finals states alphabet transitions).Yields WellFormed Fault.IsRefusal := by
  unfold ofRaw
  extract_lets rest
  have hrest : (rest ()).Yields WellFormed Fault.IsRefusal := by
    refine (Reading.yields_ofExcept_of_error fun _ => State.isRefusal_of_ofRaw).bind
      fun start _ => ?_
    refine Reading.yields_collection_bind _ _ (fun _ _ => State.isRefusal_of_ofRaw) fun ends => ?_
    refine Reading.yields_collection_bind _ _ (fun _ _ => State.isRefusal_of_ofRaw) fun listed => ?_
    refine Reading.yields_collection_bind _ _ (fun _ _ => Raw.isRefusal_of_symbol) fun symbols => ?_
    refine Reading.yields_collection_bind _ _ (fun _ _ => Transition.isRefusal_of_ofValue)
      fun moves => ?_
    exact Reading.yields_pure (wellFormed_of ..)
  split
  · exact Reading.yields_fail (Or.inl rfl)
  · exact hrest

/-- The constructor makes the automaton of some values. -/
def Constructed (a : Automaton) : Prop :=
  ∃ initial finals states alphabet transitions,
    (ofRaw initial finals states alphabet transitions).outcome = .ok a

theorem Constructed.wellFormed (h : a.Constructed) : a.WellFormed := by
  obtain ⟨initial, finals, states, alphabet, transitions, hmade⟩ := h
  have := yields_ofRaw initial finals states alphabet transitions
  rwa [Reading.Yields, hmade] at this

theorem WellFormed.constructed (h : a.WellFormed) : a.Constructed := by
  refine ⟨.state a.initial, .list (a.finals.map .state), .list (a.states.map .state),
    .list (a.alphabet.map .str), .list (a.transitions.map .transition), ?_⟩
  rw [ofRaw]
  simp only [Reading.collection_list_bind .state (g := State.ofRaw) (fun _ => rfl),
    Reading.collection_list_bind .str (g := Raw.symbol) (fun _ => rfl),
    Reading.collection_list_bind .transition (g := Transition.ofValue) (fun _ => rfl)]
  exact congrArg Except.ok h.copy_eq

/-- **What the constructor makes are the well-formed automata.** -/
theorem constructed_iff_wellFormed : a.Constructed ↔ a.WellFormed :=
  ⟨Constructed.wellFormed, WellFormed.constructed⟩

end Automaton

end Determinize
