import Determinize.Proofs.Reading
import Mathlib.Data.List.Perm.Basic

/-!
# Sets of states as collections

A set has no order, so where it is taken for a collection its members are sorted first, by their
texts. Members with one text keep the order in which the set is walked through, and it is only this
order that can be seen afterwards. A text is not enough to tell what a member stands for: the trap
and a simple state may both be written `TRAP`, and a set of names may be written like one name.

So all ways to walk through a set lead to the same only if members that are written alike stand for
the same state. Otherwise they lead to the same states in different orders. Faults are no matter of
order: of the members that are written alike, only the name can fail, and of all names that fail the
least is refused.

## Main definitions

* `Raw.isStateLike` — names of states, and states
* `Raw.statesIn` — the states of the members of a set, as they are taken
* `Raw.Settled` — members that are written alike stand for the same state, or some member fails
* `Raw.Alike`, `Raw.UpToOrder` — the same comes of two sets, or the same states in some order
* `Reading.Agree` — two readings with the same warnings and the same fault, or related values

## Main results

* `Raw.filter_inTextOrder` — members that are written alike keep their order
* `Raw.statesIn_eq_error_iff` — which fault is reported
* `Raw.alike_iff_settled` — for which sets the way of walking through makes no difference
-/

namespace Determinize

/-! ### Readings that agree -/

/-- Two readings give the same warnings, and then the same fault or values that are related. -/
inductive Reading.Agree {α β : Type} (related : α → β → Prop) : Reading α → Reading β → Prop
  /-- Both end in a value. -/
  | ok {warnings : List Warning} {a : α} {b : β} :
      related a b → Agree related ⟨warnings, .ok a⟩ ⟨warnings, .ok b⟩
  /-- Both end in the same fault. -/
  | error {warnings : List Warning} {fault : Fault} :
      Agree related ⟨warnings, .error fault⟩ ⟨warnings, .error fault⟩

namespace Reading

variable {α β : Type} {r r' : Reading α} {f g : α → Reading β} {related : α → α → Prop}
  {after : β → β → Prop}

theorem Agree.refl (h : ∀ a, related a a) (r : Reading α) : r.Agree related r := by
  obtain ⟨warnings, outcome⟩ := r
  cases outcome with
  | ok a => exact .ok (h a)
  | error fault => exact .error

theorem Agree.bind (h : r.Agree related r') (hnext : ∀ a b, related a b → (f a).Agree after (g b)) :
    (r >>= f).Agree after (r' >>= g) := by
  cases h with
  | ok hab =>
    have hfg := hnext _ _ hab
    simp only [Bind.bind]
    generalize f _ = s at hfg ⊢
    generalize g _ = s' at hfg ⊢
    cases hfg with
    | ok h => exact .ok h
    | error => exact .error
  | error => exact .error

/-- Two readings that begin alike and go on from there. -/
theorem Agree.bind_right (h : ∀ a, (f a).Agree after (g a)) : (r >>= f).Agree after (r >>= g) :=
  (Agree.refl (fun _ => rfl) r).bind fun a _ hab => hab ▸ h a

end Reading

namespace Raw

variable {l k : List Raw} {x y : Raw} {t : String} {fault : Fault}

/-! ### Text order -/

theorem perm_inTextOrder (l : List Raw) : (inTextOrder l).Perm l := List.mergeSort_perm l _

theorem textOrder_trans (x y z : Raw) (hxy : (!decide (y.text < x.text)) = true)
    (hyz : (!decide (z.text < y.text)) = true) : (!decide (z.text < x.text)) = true := by
  simp only [Bool.not_eq_true', decide_eq_false_iff_not, String.not_lt] at *
  exact String.le_trans hxy hyz

theorem textOrder_total (x y : Raw) :
    ((!decide (y.text < x.text)) || !decide (x.text < y.text)) = true := by
  simp only [Bool.or_eq_true, Bool.not_eq_true', decide_eq_false_iff_not, String.not_lt]
  exact String.le_total x.text y.text

/-- No member stands before one with a lesser text. -/
theorem pairwise_inTextOrder (l : List Raw) :
    (inTextOrder l).Pairwise fun x y => ¬y.text < x.text := by
  refine (List.pairwise_mergeSort textOrder_trans textOrder_total l).imp fun h => ?_
  simpa only [Bool.not_eq_true', decide_eq_false_iff_not] using h

/-- The texts of the members come in one order only. -/
theorem map_text_inTextOrder (h : l.Perm k) :
    (inTextOrder l).map text = (inTextOrder k).map text := by
  have hsorted : ∀ l : List Raw, ((inTextOrder l).map text).Pairwise fun s t => ¬t < s :=
    fun l => List.pairwise_map.mpr (pairwise_inTextOrder l)
  have hperm : (inTextOrder l).Perm (inTextOrder k) :=
    ((perm_inTextOrder l).trans h).trans (perm_inTextOrder k).symm
  refine List.Perm.eq_of_pairwise (fun s t _ _ hst hts => ?_) (hsorted l) (hsorted k)
    (hperm.map text)
  exact String.le_antisymm (String.not_lt.mp hst) (String.not_lt.mp hts)

/-- Members that are written alike keep the order in which they came. -/
theorem filter_inTextOrder (l : List Raw) (t : String) :
    ((inTextOrder l).filter fun x => x.text = t) = l.filter fun x => x.text = t := by
  have halike : (l.filter fun x => x.text = t).Pairwise
      fun x y => (!decide (y.text < x.text)) = true := by
    refine List.pairwise_filter.mpr (List.pairwise_of_forall fun x y hx hy => ?_)
    rw [of_decide_eq_true hx, of_decide_eq_true hy, decide_eq_false (String.lt_irrefl t)]
    rfl
  have hsublist : (l.filter fun x => x.text = t).Sublist (inTextOrder l) :=
    List.sublist_mergeSort textOrder_trans textOrder_total halike List.filter_sublist
  have hkept := hsublist.filter fun x => x.text = t
  simp only [List.filter_filter, Bool.and_self] at hkept
  exact (hkept.eq_of_length ((perm_inTextOrder l).filter _).length_eq.symm).symm

/-! ### The states of the members -/

/-- Whether the value is the name of a state, or a state. -/
def isStateLike : Raw → Bool
  | str _ => true
  | state _ => true
  | _ => false

/-- The states of the members of a set, in the order in which the members are taken. -/
def statesIn (members : List Raw) : Except Fault (List State) :=
  (inTextOrder members).mapM State.ofRaw

/-- Members that are written alike stand for the same state, or some member stands for none. -/
def Settled (members : List Raw) : Prop :=
  (∀ x ∈ members, ∀ y ∈ members, x.text = y.text → State.ofRaw x = State.ofRaw y) ∨
    ∃ x ∈ members, ∃ fault, State.ofRaw x = .error fault

/-- All members are read if each of them is. -/
theorem mapM_eq_ok_iff {α β : Type} {f : α → Except Fault β} {l : List α} {k : List β} :
    l.mapM f = .ok k ↔ l.map f = k.map .ok := by
  induction l generalizing k with
  | nil => cases k <;> simp [pure, Except.pure]
  | cons x l ih =>
    rw [List.mapM_cons]
    cases hx : f x with
    | error fault => cases k <;> simp [bind, Except.bind, hx]
    | ok b =>
      cases k with
      | nil => cases l.mapM f <;> simp [bind, Except.bind, pure, Except.pure]
      | cons c k =>
        rw [List.map_cons, List.map_cons, hx, List.cons_eq_cons, ← ih]
        cases l.mapM f <;> simp [bind, Except.bind, pure, Except.pure]

theorem exists_ofRaw_eq_ok_of_statesIn {states : List State} (h : statesIn l = .ok states)
    (hx : x ∈ l) : ∃ s ∈ states, State.ofRaw x = .ok s := by
  have hmem : State.ofRaw x ∈ states.map Except.ok := by
    rw [← mapM_eq_ok_iff.mp h]
    exact List.mem_map_of_mem ((perm_inTextOrder l).mem_iff.mpr hx)
  obtain ⟨s, hs, hxs⟩ := List.mem_map.mp hmem
  exact ⟨s, hs, hxs.symm⟩

/-! ### Which fault is reported -/

/-- The fault is that of the least name among the members that is the name of no state. -/
def LeastRefused (members : List Raw) (fault : Fault) : Prop :=
  ∃ n, str n ∈ members ∧ State.ofText n = .error fault ∧
    ∀ m < n, str m ∈ members → ∃ s, State.ofText m = .ok s

theorem leastRefused_congr (h : ∀ x, x ∈ l ↔ x ∈ k) :
    LeastRefused l fault ↔ LeastRefused k fault := by
  simp only [LeastRefused, h]

/-- A list that is in text order fails at the least name that can fail. -/
theorem mapM_ofRaw_eq_error_iff (hl : ∀ x ∈ l, x.isStateLike = true)
    (hsorted : l.Pairwise fun x y => ¬y.text < x.text) :
    l.mapM State.ofRaw = .error fault ↔ LeastRefused l fault := by
  induction l with
  | nil => simp [LeastRefused, pure, Except.pure]
  | cons x l ih =>
    obtain ⟨hfirst, hsorted⟩ := List.pairwise_cons.mp hsorted
    obtain ⟨hxlike, hl⟩ := List.forall_mem_cons.mp hl
    rw [List.mapM_cons]
    cases hx : State.ofRaw x with
    | ok s =>
      have hrest : (Except.ok s >>= fun s => l.mapM State.ofRaw >>= fun k => pure (s :: k)) =
          Except.error fault ↔ l.mapM State.ofRaw = .error fault := by
        cases l.mapM State.ofRaw <;> simp [bind, Except.bind, pure, Except.pure]
      rw [hrest, ih hl hsorted]
      constructor
      · rintro ⟨n, hn, hfault, hleast⟩
        refine ⟨n, List.mem_cons_of_mem x hn, hfault, fun m hm hmem => ?_⟩
        rcases List.mem_cons.mp hmem with rfl | hmem
        · exact ⟨s, hx⟩
        · exact hleast m hm hmem
      · rintro ⟨n, hn, hfault, hleast⟩
        refine ⟨n, ?_, hfault, fun m hm hmem => hleast m hm (List.mem_cons_of_mem x hmem)⟩
        rcases List.mem_cons.mp hn with rfl | hn
        · exact absurd (hx.symm.trans hfault) (by simp)
        · exact hn
    | error first =>
      obtain ⟨n, rfl⟩ : ∃ n, x = str n := by
        cases x with
        | str n => exact ⟨n, rfl⟩
        | state s => exact absurd hx (by simp [State.ofRaw])
        | _ => exact absurd hxlike (by simp [isStateLike])
      show Except.error first = Except.error fault ↔ _
      constructor
      · rintro ⟨⟩
        refine ⟨n, List.mem_cons_self, hx, fun m hm hmem => ?_⟩
        rcases List.mem_cons.mp hmem with hmem | hmem
        · obtain rfl := str.inj hmem
          exact absurd hm (String.lt_irrefl m)
        · exact absurd hm (hfirst _ hmem)
      · rintro ⟨m, hm, hfault, hleast⟩
        obtain rfl : m = n := by
          rcases List.mem_cons.mp hm with hm | hm
          · exact str.inj hm
          · -- the first name is not less than the one refused, since it is refused itself
            refine String.le_antisymm (String.not_lt.mp fun hlt => ?_)
              (String.not_lt.mp (hfirst _ hm))
            obtain ⟨s, hs⟩ := hleast n hlt List.mem_cons_self
            exact absurd (hx.symm.trans hs) (by simp)
        exact congrArg Except.error (Except.error.inj (hx.symm.trans hfault))

/-- Of all names that fail, the least is refused, whatever order the members are in. -/
theorem statesIn_eq_error_iff (hl : ∀ x ∈ l, x.isStateLike = true) :
    statesIn l = .error fault ↔ LeastRefused l fault := by
  have hmem : ∀ x, x ∈ inTextOrder l ↔ x ∈ l := fun x => (perm_inTextOrder l).mem_iff
  rw [← leastRefused_congr hmem]
  exact mapM_ofRaw_eq_error_iff (fun x hx => hl x ((hmem x).mp hx)) (pairwise_inTextOrder l)

/-! ### Two ways to walk through a set -/

theorem map_ofRaw_inTextOrder (h : l.Perm k)
    (halike : ∀ x ∈ l, ∀ y ∈ l, x.text = y.text → State.ofRaw x = State.ofRaw y) :
    (inTextOrder l).map State.ofRaw = (inTextOrder k).map State.ofRaw := by
  have htext := map_text_inTextOrder h
  refine List.ext_getElem (by simpa using congrArg List.length htext) fun i hi hi' => ?_
  have htexti := List.getElem_of_eq htext (by simpa using hi : i < _)
  rw [List.getElem_map, List.getElem_map] at htexti ⊢
  exact halike _ ((perm_inTextOrder l).mem_iff.mp (List.getElem_mem _)) _
    (h.mem_iff.mpr ((perm_inTextOrder k).mem_iff.mp (List.getElem_mem _))) htexti

/-- The same fault, or the same states in some order. -/
theorem statesIn_of_perm (hl : ∀ x ∈ l, x.isStateLike = true) (h : l.Perm k) :
    (∃ fault, statesIn l = .error fault ∧ statesIn k = .error fault) ∨
      ∃ ls ks, statesIn l = .ok ls ∧ statesIn k = .ok ks ∧ ls.Perm ks := by
  have hk : ∀ x ∈ k, x.isStateLike = true := fun x hx => hl x (h.mem_iff.mpr hx)
  have herror : ∀ fault, statesIn l = .error fault ↔ statesIn k = .error fault := fun fault => by
    rw [statesIn_eq_error_iff hl, statesIn_eq_error_iff hk, leastRefused_congr fun x => h.mem_iff]
  cases hls : statesIn l with
  | error fault => exact Or.inl ⟨fault, rfl, (herror fault).mp hls⟩
  | ok ls =>
    cases hks : statesIn k with
    | error fault => exact absurd ((herror fault).mpr hks) (by simp [hls])
    | ok ks =>
      refine Or.inr ⟨ls, ks, rfl, rfl, ?_⟩
      have hperm : ((inTextOrder l).map State.ofRaw).Perm ((inTextOrder k).map State.ofRaw) :=
        (((perm_inTextOrder l).trans h).trans (perm_inTextOrder k).symm).map _
      rw [mapM_eq_ok_iff.mp hls, mapM_eq_ok_iff.mp hks] at hperm
      simpa [List.filterMap_map, Function.comp_def, Except.toOption] using
        hperm.filterMap Except.toOption

theorem Settled.statesIn_eq (hsettled : Settled l) (hl : ∀ x ∈ l, x.isStateLike = true)
    (h : l.Perm k) : statesIn l = statesIn k := by
  rcases statesIn_of_perm hl h with ⟨fault, hls, hks⟩ | ⟨ls, ks, hls, hks, -⟩
  · rw [hls, hks]
  · rcases hsettled with halike | ⟨x, hx, fault, hfault⟩
    · have hmap := map_ofRaw_inTextOrder h halike
      rw [mapM_eq_ok_iff.mp hls, mapM_eq_ok_iff.mp hks] at hmap
      rw [hls, hks, List.map_injective_iff.mpr (fun _ _ => Except.ok.inj) hmap]
    · obtain ⟨s, -, hs⟩ := exists_ofRaw_eq_ok_of_statesIn hls hx
      exact absurd (hfault.symm.trans hs) (by simp)

/-- A set can be walked through from any of its members on. -/
theorem exists_perm_cons (hx : x ∈ l) : ∃ rest, l.Perm (x :: rest) := by
  obtain ⟨before, after, rfl⟩ := List.append_of_mem hx
  exact ⟨before ++ after, List.perm_middle⟩

/-- The members that are written `t`, with what they stand for, can be told from the texts and the
states in the order in which the members are taken. -/
theorem filter_map_inTextOrder (l : List Raw) (t : String) :
    (((inTextOrder l).map text).zip ((inTextOrder l).map State.ofRaw)).filter (fun p => p.1 = t) =
      (l.filter fun x => x.text = t).map fun x => (x.text, State.ofRaw x) := by
  rw [List.zip_map', List.filter_map, ← filter_inTextOrder]
  rfl

/-- If all ways to walk through a set give the same states, then two members that are written alike
stand for the same state: each of them can be the first of its kind to be met. -/
theorem settled_of_statesIn_eq (hl : ∀ x ∈ l, x.isStateLike = true)
    (h : ∀ k, l.Perm k → statesIn l = statesIn k) : Settled l := by
  cases hls : statesIn l with
  | error fault =>
    obtain ⟨n, hn, hfault, -⟩ := (statesIn_eq_error_iff hl).mp hls
    exact Or.inr ⟨str n, hn, fault, hfault⟩
  | ok ls =>
    have hstates : ∀ k, l.Perm k → (inTextOrder k).map State.ofRaw = ls.map .ok := fun k hk =>
      mapM_eq_ok_iff.mp ((h k hk).symm.trans hls)
    refine Or.inl fun x hx y hy hxy => ?_
    obtain ⟨rest, hrest⟩ := exists_perm_cons hx
    obtain ⟨rest', hrest'⟩ := exists_perm_cons hy
    have hpairs := filter_map_inTextOrder (x :: rest) y.text
    rw [hstates _ hrest, map_text_inTextOrder (hrest.symm.trans hrest'), ← hstates _ hrest',
      filter_map_inTextOrder, List.filter_cons_of_pos (by simp),
      List.filter_cons_of_pos (by simpa using hxy)] at hpairs
    exact (Prod.ext_iff.mp (List.cons_eq_cons.mp hpairs).1).2.symm

/-! ### What is made of a set -/

/-- Where a set is taken for a collection of states, its states are read in text order. -/
theorem collection_set_bind {α : Type} (members : List Raw) (what : String)
    (f : List State → Reading α) :
    ((set members).collection what >>= fun l =>
        (l.mapM fun x => Reading.ofExcept (State.ofRaw x)) >>= f) =
      Reading.ofExcept (statesIn members) >>= f := by
  show ((inTextOrder members).mapM fun x => Reading.ofExcept (State.ofRaw x)) >>= f = _
  rw [Reading.mapM_ofExcept, statesIn]

/-- The same comes of two sets wherever a set of states may be given. -/
structure Alike (l k : List Raw) : Prop where
  /-- As next states of a transition. -/
  next : ∀ source symbol,
    Transition.ofRaw source (.set l) symbol = Transition.ofRaw source (.set k) symbol
  /-- As final states of an automaton. -/
  finals : ∀ initial states alphabet transitions,
    Automaton.ofRaw initial (.set l) states alphabet transitions =
      Automaton.ofRaw initial (.set k) states alphabet transitions
  /-- As states of an automaton. -/
  states : ∀ initial finals alphabet transitions,
    Automaton.ofRaw initial finals (.set l) alphabet transitions =
      Automaton.ofRaw initial finals (.set k) alphabet transitions

theorem alike_of_statesIn_eq (h : statesIn l = statesIn k) : Alike l k where
  next source symbol := by
    simp only [Transition.ofRaw, collection_set_bind, h]
  finals initial states alphabet transitions := by
    simp only [Automaton.ofRaw, collection_set_bind, h]
  states initial finals alphabet transitions := by
    simp only [Automaton.ofRaw, collection_set_bind, h]

/-- The same states come of two sets, in some order, wherever a set of states may be given; all else
is the same, and so are faults and warnings. -/
structure UpToOrder (l k : List Raw) : Prop where
  /-- As next states of a transition. -/
  next : ∀ source symbol, (Transition.ofRaw source (.set l) symbol).Agree
    (fun t u => u = { t with targets := u.targets } ∧ t.targets.Perm u.targets)
    (Transition.ofRaw source (.set k) symbol)
  /-- As final states of an automaton. -/
  finals : ∀ initial states alphabet transitions,
    (Automaton.ofRaw initial (.set l) states alphabet transitions).Agree
      (fun a b => b = { a with finals := b.finals } ∧ a.finals.Perm b.finals)
      (Automaton.ofRaw initial (.set k) states alphabet transitions)
  /-- As states of an automaton. -/
  states : ∀ initial finals alphabet transitions,
    (Automaton.ofRaw initial finals (.set l) alphabet transitions).Agree
      (fun a b => b = { a with states := b.states } ∧ a.states.Perm b.states)
      (Automaton.ofRaw initial finals (.set k) alphabet transitions)

theorem agree_statesIn (hl : ∀ x ∈ l, x.isStateLike = true) (h : l.Perm k) :
    (Reading.ofExcept (statesIn l)).Agree List.Perm (Reading.ofExcept (statesIn k)) := by
  rcases statesIn_of_perm hl h with ⟨fault, hls, hks⟩ | ⟨ls, ks, hls, hks, hperm⟩ <;>
    rw [hls, hks]
  · exact .error
  · exact .ok hperm

theorem perm_eraseDups {ls ks : List State} (h : ls.Perm ks) : ls.eraseDups.Perm ks.eraseDups := by
  refine (List.perm_ext_iff_of_nodup (nodup_eraseDups ls) (nodup_eraseDups ks)).mpr fun s => ?_
  rw [List.mem_eraseDups, List.mem_eraseDups, h.mem_iff]

theorem upToOrder_of_perm (hl : ∀ x ∈ l, x.isStateLike = true) (h : l.Perm k) : UpToOrder l k where
  next source symbol := by
    simp only [Transition.ofRaw, collection_set_bind]
    split
    · exact .error
    · refine .bind_right fun a => .bind_right fun s => ?_
      exact (agree_statesIn hl h).bind fun _ _ hperm => .ok ⟨rfl, hperm⟩
  finals initial states alphabet transitions := by
    simp only [Automaton.ofRaw, collection_set_bind]
    split
    · exact .error
    · refine .bind_right fun start => (agree_statesIn hl h).bind fun _ _ hperm => ?_
      refine .bind_right fun _ => .bind_right fun listed => ?_
      refine .bind_right fun _ => .bind_right fun symbols => ?_
      exact .bind_right fun _ => .bind_right fun moves => .ok ⟨rfl, perm_eraseDups hperm⟩
  states initial finals alphabet transitions := by
    simp only [Automaton.ofRaw, collection_set_bind]
    split
    · exact .error
    · refine .bind_right fun start => .bind_right fun _ => .bind_right fun ends => ?_
      refine (agree_statesIn hl h).bind fun _ _ hperm => ?_
      refine .bind_right fun _ => .bind_right fun symbols => ?_
      exact .bind_right fun _ => .bind_right fun moves => .ok ⟨rfl, perm_eraseDups hperm⟩

/-- The next states of a transition show the states of a set in their order. -/
theorem Alike.statesIn_eq (h : Alike l k) : statesIn l = statesIn k := by
  have hnext := congrArg Reading.outcome (h.next (.state .trap) (.str ""))
  have houtcome : ∀ members, (Transition.ofRaw (.state .trap) (.set members) (.str "")).outcome =
      (statesIn members).map fun states => ⟨.trap, states, ""⟩ := by
    intro members
    simp only [Transition.ofRaw, collection_set_bind]
    cases statesIn members <;> rfl
  rw [houtcome, houtcome] at hnext
  cases hls : statesIn l <;> cases hks : statesIn k <;> simp_all [Except.map]

/-- **What is made of a set of states does not depend on how the set is walked through, up to the
order of its states, and not even that exactly if the set is settled**: members that are written
alike stand for the same state, or some member is refused, and then it is the same fault. -/
theorem alike_iff_settled (hl : ∀ x ∈ l, x.isStateLike = true) :
    (∀ k, l.Perm k → UpToOrder l k) ∧ ((∀ k, l.Perm k → Alike l k) ↔ Settled l) := by
  refine ⟨fun k => upToOrder_of_perm hl, fun h => ?_, fun hsettled k h => ?_⟩
  · exact settled_of_statesIn_eq hl fun k hk => (h k hk).statesIn_eq
  · exact alike_of_statesIn_eq (hsettled.statesIn_eq hl h)

/-- A set of two states and of names for them. Of the members that are written `p` one is a name and
one is a state. -/
def namesBeside : List Raw :=
  [.state (.composite ⟨["p", "q"], by decide, by decide⟩), .str "p", .str "\x7bq,p\x7d",
    .state (.simple "p"), .str "\x7bp,q\x7d"]

/-- The trap, and a simple state that is written like it. -/
def trapTwins : List Raw := [.state (.simple "TRAP"), .state .trap]

theorem not_settled_trapTwins : ¬Settled trapTwins := by
  rintro (halike | ⟨x, hx, fault, hfault⟩)
  · have := halike (.state (.simple "TRAP")) (by simp [trapTwins]) (.state .trap)
      (by simp [trapTwins]) rfl
    exact absurd this (by simp [State.ofRaw])
  · rcases List.mem_pair.mp hx with rfl | rfl <;> exact absurd hfault (by simp [State.ofRaw])

/-- A settled set, walked through from its end, and one that is not settled. -/
theorem alike_iff_settled_namesBeside :
    (∀ x ∈ namesBeside, x.isStateLike = true) ∧ namesBeside.Perm namesBeside.reverse ∧
      Settled namesBeside ∧ Alike namesBeside namesBeside.reverse ∧
      (∀ x ∈ trapTwins, x.isStateLike = true) ∧ UpToOrder trapTwins trapTwins.reverse ∧
      ¬∀ k, trapTwins.Perm k → Alike trapTwins k := by
  have hnames : ∀ x ∈ namesBeside, x.isStateLike = true := by decide
  have htwins : ∀ x ∈ trapTwins, x.isStateLike = true := by decide
  have hperm : namesBeside.Perm namesBeside.reverse := (List.reverse_perm _).symm
  have hsettled : Settled namesBeside := Or.inl (by decide)
  obtain ⟨horder, htwinsIff⟩ := alike_iff_settled htwins
  exact ⟨hnames, hperm, hsettled, (alike_iff_settled hnames).2.mpr hsettled _ hperm, htwins,
    horder _ (List.reverse_perm _).symm, mt htwinsIff.mp not_settled_trapTwins⟩

/-- Members that are all written alike stay in their order. -/
theorem inTextOrder_eq_self (h : ∀ x ∈ l, x.text = t) : inTextOrder l = l := by
  have hkept := filter_inTextOrder l t
  rwa [List.filter_eq_self.mpr fun x hx => decide_eq_true (h x hx),
    List.filter_eq_self.mpr fun x hx =>
      decide_eq_true (h x ((perm_inTextOrder l).mem_iff.mp hx))] at hkept

/-- A set that holds the trap and a simple state that is written like it becomes two different lists
of next states, by which of the two is met first. -/
theorem not_forall_alike :
    ¬∀ l k : List Raw, (∀ x ∈ l, x.isStateLike = true) → ofMembers l = .ok (.set l) →
      ofMembers k = .ok (.set k) → l.Perm k → Alike l k := by
  intro h
  have hset : ofMembers trapTwins = .ok (.set trapTwins) := by cbv
  have hturned : ofMembers trapTwins.reverse = .ok (.set trapTwins.reverse) := by cbv
  have halike := h trapTwins trapTwins.reverse (by decide) hset hturned (List.reverse_perm _).symm
  have htext : ∀ x ∈ trapTwins, x.text = "TRAP" := by decide
  have hstates := halike.statesIn_eq
  rw [statesIn, statesIn, inTextOrder_eq_self htext,
    inTextOrder_eq_self fun x hx => htext x (List.mem_reverse.mp hx)] at hstates
  exact absurd hstates (by decide)

end Raw

end Determinize
