import RuntimeTrace.Proofs.Request.Transition
import RuntimeTrace.Proofs.Table

/-!
# Unrelated requests do not meet

Two groups of events may arrive in any order, mixed event by event.  If no event of
one group has a key, its own or its parent's, that a start of the other put in
play, then each group is followed as if the other were not there.

## The two parts of a tracker

Let `owns g` be the keys that the starts of group `g` put in play.  A tracker that
has seen the whole trace then falls into two parts, and each of them *is* the
tracker that has seen one group alone (`Splits`): the same requests in the same
order, the same aliases; and the misses of both add up to those of the whole.

An event of a group asks for its own key, its parent's, and perhaps the request
that one of them is an alias of.  A key that the other group does not own is looked
up in the part as in the whole, so the part and the whole go through the same
outcome (`Splits.exists_transition`).  What the outcome changes lies under keys of the group,
so the other part stays as it was.

The last point is where a shared table could leak: the end of a request forgets its
aliases by what they lead to and not by their own keys.  Therefore `Splits` also
says that an alias and the request it leads to belong to one group.

Main statement: `unrelated_groups_apart`.
-/

namespace RuntimeTrace

/-! ## Counting misses apart -/

/-- A change of the misses that can be made to either of two summands. -/
def Misses.IsTally (f : Misses → Misses) : Prop :=
  ∀ m n : Misses, (f m).add n = f (m.add n) ∧ m.add (f n) = f (m.add n)

namespace Misses

theorem isTally_id : IsTally fun m => m := fun _ _ => ⟨rfl, rfl⟩

theorem isTally_orphanStop : IsTally orphanStop := by
  intro m n
  constructor <;> simp only [orphanStop, add, mk.injEq, and_true] <;> omega

theorem isTally_orphanDetail : IsTally orphanDetail := by
  intro m n
  constructor <;> simp only [orphanDetail, add, mk.injEq, true_and, and_true] <;> omega

theorem isTally_duplicateStart : IsTally duplicateStart := by
  intro m n
  constructor <;> simp only [duplicateStart, add, mk.injEq, true_and, and_true] <;> omega

end Misses

namespace RequestTracker

/-! ## A part and the whole -/

/-- The tracker `t` falls into two parts, each with the keys its group owns. -/
structure Splits (owns : Bool → String → Bool) (t : RequestTracker)
    (parts : Bool → RequestTracker) : Prop where
  requests : ∀ g, (parts g).requests = t.requests.restrict (owns g)
  aliases : ∀ g, (parts g).aliases = t.aliases.restrict (owns g)
  misses : t.misses = (parts true).misses.add (parts false).misses
  owned : t.requests.Forall fun key _ => ∃ g, owns g key = true
  aliased : t.aliases.Forall fun key root => ∃ g, owns g key = true ∧ owns g root = true

/-- An event of a group stays clear of the keys of the other group. -/
structure Confined (owns : Bool → String → Bool) (g : Bool) (c : EventContext)
    (event : NetworkEvent) : Prop where
  own : owns (!g) c.activityId.key = false
  parent : ∀ key, c.activityId.parentKey? = some key → owns (!g) key = false
  starts : event.opening?.isSome → owns g c.activityId.key = true

/-- No key belongs to both groups. -/
def Exclusive (owns : Bool → String → Bool) : Prop :=
  ∀ g key, owns g key = true → owns (!g) key = false

section

variable {owns : Bool → String → Bool} {t : RequestTracker} {parts : Bool → RequestTracker}
  {g : Bool} {c : EventContext} {event : NetworkEvent}

/-! ### Whose key it is -/

theorem eq_of_owns {g' : Bool} {key : String} (hforeign : owns (!g) key = false)
    (h : owns g' key = true) : g' = g := by
  cases g <;> cases g' <;> simp_all

theorem Splits.owns_of_open (hs : Splits owns t parts) {key : String} {request : OpenRequest}
    (hforeign : owns (!g) key = false) (h : t.requests.get? key = some request) :
    owns g key = true := by
  obtain ⟨g', hg'⟩ := hs.owned key request h
  rwa [← eq_of_owns hforeign hg']

theorem Splits.owns_of_alias (hs : Splits owns t parts) {key root : String}
    (hforeign : owns (!g) key = false) (h : t.aliases.get? key = some root) :
    owns g key = true ∧ owns g root = true := by
  obtain ⟨g', hkey, hroot⟩ := hs.aliased key root h
  rw [← eq_of_owns hforeign hkey]
  exact ⟨hkey, hroot⟩

/-! ### Lookups -/

theorem Splits.get?_requests (hs : Splits owns t parts) {key : String}
    (hforeign : owns (!g) key = false) :
    (parts g).requests.get? key = t.requests.get? key := by
  rw [hs.requests]
  exact Table.get?_restrict_of_forall fun _ h => hs.owns_of_open hforeign h

theorem Splits.get?_aliases (hs : Splits owns t parts) {key : String}
    (hforeign : owns (!g) key = false) : (parts g).aliases.get? key = t.aliases.get? key := by
  rw [hs.aliases]
  exact Table.get?_restrict_of_forall fun _ h => (hs.owns_of_alias hforeign h).1

theorem Splits.redirectingParent? (hs : Splits owns t parts) (hc : Confined owns g c event) :
    (parts g).redirectingParent? c.activityId = t.redirectingParent? c.activityId := by
  unfold RequestTracker.redirectingParent?
  cases hparent : c.activityId.parentKey? with
  | none => rfl
  | some parent =>
    simp only [Option.bind_eq_bind, Option.bind_some, hs.get?_requests (hc.parent parent hparent)]

theorem Splits.rootOf? (hs : Splits owns t parts) {key : String}
    (hforeign : owns (!g) key = false) : (parts g).rootOf? key = t.rootOf? key := by
  unfold RequestTracker.rootOf?
  rw [Table.contains, hs.get?_requests hforeign, hs.get?_aliases hforeign]
  rfl

theorem Splits.resolve? (hs : Splits owns t parts) (hc : Confined owns g c event) :
    (parts g).resolve? c.activityId = t.resolve? c.activityId := by
  unfold RequestTracker.resolve?
  rw [hs.rootOf? hc.own]
  cases hparent : c.activityId.parentKey? with
  | none => rfl
  | some parent =>
    rw [Option.bind_some, Option.bind_some, hs.rootOf? (hc.parent parent hparent)]

theorem Splits.owns_of_rootOf? (hs : Splits owns t parts) {key root : String}
    (hforeign : owns (!g) key = false) (h : t.rootOf? key = some root) : owns g root = true := by
  unfold RequestTracker.rootOf? at h
  split at h
  · rename_i hopen
    obtain ⟨request, hrequest⟩ := Option.isSome_iff_exists.mp hopen
    rw [← Option.some.inj h]
    exact hs.owns_of_open hforeign hrequest
  · exact (hs.owns_of_alias hforeign h).2

theorem Splits.owns_of_resolve? (hs : Splits owns t parts) (hc : Confined owns g c event)
    {root : String} (h : t.resolve? c.activityId = some root) : owns g root = true := by
  rw [RequestTracker.resolve?, Option.or_eq_some_iff] at h
  rcases h with h | ⟨-, h⟩
  · exact hs.owns_of_rootOf? hc.own h
  · obtain ⟨parent, hparent, h⟩ := Option.bind_eq_some_iff.mp h
    exact hs.owns_of_rootOf? (hc.parent parent hparent) h

theorem Splits.owns_of_redirectingParent? (hs : Splits owns t parts)
    (hc : Confined owns g c event) {parent : String}
    (h : t.redirectingParent? c.activityId = some parent) : owns g parent = true := by
  obtain ⟨key, hparent, h⟩ := Option.bind_eq_some_iff.mp h
  obtain ⟨request, hrequest, h⟩ := Option.bind_eq_some_iff.mp h
  split at h
  · rw [← Option.some.inj h]
    exact hs.owns_of_open (hc.parent key hparent) hrequest
  · exact absurd h (by simp)

/-! ### Changes of one part -/

/-- A change of one part that the other does not see. -/
theorem Splits.update (hs : Splits owns t parts) {t' part : RequestTracker}
    {f : Misses → Misses} (hf : Misses.IsTally f)
    (hrequests : part.requests = t'.requests.restrict (owns g))
    (haliases : part.aliases = t'.aliases.restrict (owns g))
    (hrequests' : t'.requests.restrict (owns !g) = t.requests.restrict (owns !g))
    (haliases' : t'.aliases.restrict (owns !g) = t.aliases.restrict (owns !g))
    (hmisses : t'.misses = f t.misses) (hpart : part.misses = f (parts g).misses)
    (howned : t'.requests.Forall fun key _ => ∃ g, owns g key = true)
    (haliased : t'.aliases.Forall fun key root => ∃ g, owns g key = true ∧ owns g root = true) :
    Splits owns t' (Function.update parts g part) := by
  refine ⟨?_, ?_, ?_, howned, haliased⟩
  · intro g'
    by_cases h : g' = g
    · rw [h, Function.update_self]
      exact hrequests
    · rw [Function.update_of_ne h, hs.requests, Bool.eq_not_of_ne h, hrequests']
  · intro g'
    by_cases h : g' = g
    · rw [h, Function.update_self]
      exact haliases
    · rw [Function.update_of_ne h, hs.aliases, Bool.eq_not_of_ne h, haliases']
  · rw [hmisses, hs.misses]
    cases g with
    | true =>
      rw [Function.update_self, Function.update_of_ne (by decide), hpart]
      exact (hf _ _).1.symm
    | false =>
      rw [Function.update_self, Function.update_of_ne (by decide), hpart]
      exact (hf _ _).2.symm

theorem Splits.tally (hs : Splits owns t parts) {f : Misses → Misses} (hf : Misses.IsTally f) :
    Splits owns { t with misses := f t.misses }
      (Function.update parts g { parts g with misses := f (parts g).misses }) :=
  hs.update hf (hs.requests g) (hs.aliases g) rfl rfl rfl rfl hs.owned hs.aliased

theorem Splits.insert (hs : Splits owns t parts) (hx : Exclusive owns) {f : Misses → Misses}
    (hf : Misses.IsTally f) {key : String} (hkey : owns g key = true) (request : OpenRequest) :
    Splits owns { t with requests := t.requests.insert key request, misses := f t.misses }
      (Function.update parts g
        { parts g with
          requests := (parts g).requests.insert key request
          misses := f (parts g).misses }) := by
  refine hs.update hf ?_ (hs.aliases g) (Table.restrict_insert_of_not (hx g key hkey) _) rfl rfl
    rfl (hs.owned.insert ⟨g, hkey⟩) hs.aliased
  rw [Table.restrict_insert_of_mem hkey, hs.requests]

theorem Splits.attach (hs : Splits owns t parts) (hx : Exclusive owns) {key parent : String}
    (hkey : owns g key = true) (hparent : owns g parent = true) (url : String) (now : Instant) :
    Splits owns (t.attach key parent url now)
      (Function.update parts g ((parts g).attach key parent url now)) := by
  refine hs.update Misses.isTally_id ?_ ?_ (Table.restrict_modify_of_not (hx g parent hparent) _)
    (Table.restrict_insert_of_not (hx g key hkey) _) rfl rfl (hs.owned.modify fun _ h => h)
    (hs.aliased.insert ⟨g, hkey, hparent⟩)
  · exact (congrArg (Table.modify · parent _) (hs.requests g)).trans
      (Table.restrict_modify _ _ _ _).symm
  · exact (congrArg (Table.insert · key parent) (hs.aliases g)).trans
      (Table.restrict_insert_of_mem hkey _).symm

/-- The end of a request forgets no alias of the other group, since its aliases
lead elsewhere. -/
theorem Splits.close (hs : Splits owns t parts) (hx : Exclusive owns) {key : String}
    (hkey : owns g key = true) :
    Splits owns
      { t with
        requests := t.requests.erase key
        aliases := t.aliases.filter fun _ root => root ≠ key }
      (Function.update parts g
        { parts g with
          requests := (parts g).requests.erase key
          aliases := (parts g).aliases.filter fun _ root => root ≠ key }) := by
  refine hs.update Misses.isTally_id ?_ ?_ (Table.restrict_erase_of_not (hx g key hkey)) ?_ rfl rfl
    (hs.owned.filter _) (hs.aliased.filter _)
  · exact (congrArg (Table.erase · key) (hs.requests g)).trans (Table.restrict_erase _ _ _).symm
  · exact (congrArg (Table.filter · fun _ root => root ≠ key) (hs.aliases g)).trans
      (Table.restrict_filter _ _ _).symm
  · apply Table.restrict_filter_of_forall
    intro other root halias hother
    obtain ⟨g', hg', hroot⟩ := hs.aliased other root halias
    apply decide_eq_true
    rintro rfl
    have hg : g' = g := eq_of_owns (hx g root hkey) hroot
    rw [hg] at hg'
    have hnot := hx g other hg'
    rw [hother] at hnot
    exact absurd hnot (by simp)

theorem Splits.endLeg (hs : Splits owns t parts) (hx : Exclusive owns) {key root : String}
    (hkey : owns g key = true) (hroot : owns g root = true) (f : OpenRequest → OpenRequest) :
    Splits owns
      { t with aliases := t.aliases.erase key, requests := t.requests.modify root f }
      (Function.update parts g
        { parts g with
          aliases := (parts g).aliases.erase key
          requests := (parts g).requests.modify root f }) := by
  refine hs.update Misses.isTally_id ?_ ?_ (Table.restrict_modify_of_not (hx g root hroot) _)
    (Table.restrict_erase_of_not (hx g key hkey)) rfl rfl (hs.owned.modify fun _ h => h)
    (hs.aliased.filter _)
  · exact (congrArg (Table.modify · root f) (hs.requests g)).trans
      (Table.restrict_modify _ _ _ _).symm
  · exact (congrArg (Table.erase · key) (hs.aliases g)).trans (Table.restrict_erase _ _ _).symm

/-! ### One event -/

/-- The part meets the outcome that the whole meets. -/
theorem Splits.exists_transition (hs : Splits owns t parts) (hx : Exclusive owns)
    (hc : Confined owns g c event) {result : Option ClosedRequest} {t' : RequestTracker}
    (h : Transition t c event result t') :
    ∃ part, Transition (parts g) c event result part ∧
      Splits owns t' (Function.update parts g part) := by
  have hget := hs.get?_requests hc.own
  have halias := hs.get?_aliases hc.own
  cases h with
  | duplicate hopening hknown =>
    refine ⟨_, .duplicate hopening ?_, hs.tally Misses.isTally_duplicateStart⟩
    rw [Table.contains, Table.contains, hget, halias]
    exact hknown
  | attached hopening hclosed hunaliased hparent =>
    exact ⟨_, .attached hopening (hget.trans hclosed) (halias.trans hunaliased)
      ((hs.redirectingParent? hc).trans hparent),
      hs.attach hx (hc.starts (by rw [hopening]; rfl))
        (hs.owns_of_redirectingParent? hc hparent) _ _⟩
  | opened hopening hclosed hunaliased hparent =>
    exact ⟨_, .opened hopening (hget.trans hclosed) (halias.trans hunaliased)
      ((hs.redirectingParent? hc).trans hparent),
      hs.insert hx Misses.isTally_id (hc.starts (by rw [hopening]; rfl)) _⟩
  | closed houtcome hopen =>
    exact ⟨_, .closed houtcome (hget.trans hopen), hs.close hx (hs.owns_of_open hc.own hopen)⟩
  | legEnded houtcome hclosed hroot =>
    obtain ⟨hkey, howns⟩ := hs.owns_of_alias hc.own hroot
    exact ⟨_, .legEnded houtcome (hget.trans hclosed) (halias.trans hroot),
      hs.endLeg hx hkey howns _⟩
  | orphanStop houtcome hclosed hunaliased =>
    exact ⟨_, .orphanStop houtcome (hget.trans hclosed) (halias.trans hunaliased),
      hs.tally Misses.isTally_orphanStop⟩
  | @detail root request hopening houtcome hroot hopen =>
    have howns := hs.owns_of_resolve? hc hroot
    refine ⟨_, .detail hopening houtcome ((hs.resolve? hc).trans hroot)
      ((hs.get?_requests (hx g root howns)).trans hopen), ?_⟩
    by_cases hfitted : (request.addDetail c.time event).2 = true
    · simp only [if_pos hfitted]
      exact hs.insert hx Misses.isTally_id howns _
    · simp only [if_neg hfitted]
      exact hs.insert hx Misses.isTally_orphanDetail howns _
  | orphanDetail hopening houtcome hlost =>
    refine ⟨_, .orphanDetail hopening houtcome ?_, hs.tally Misses.isTally_orphanDetail⟩
    rw [hs.resolve? hc]
    cases hroot : t.resolve? c.activityId with
    | none => rfl
    | some root =>
      rw [Option.bind_some, hs.get?_requests (hx g root (hs.owns_of_resolve? hc hroot))]
      rwa [hroot, Option.bind_some] at hlost

/-- **One event**: the part gives the same result as the whole, and the two parts
go on as parts. -/
theorem Splits.feed (hs : Splits owns t parts) (hx : Exclusive owns)
    (hc : Confined owns g c event) :
    ((parts g).feed (c, event)).1 = (t.feed (c, event)).1 ∧
      Splits owns (t.feed (c, event)).2
        (Function.update parts g ((parts g).feed (c, event)).2) := by
  obtain ⟨result, t', hstep, htransition⟩ := RequestTracker.exists_transition t c event
  obtain ⟨part, hpart, hsplits⟩ := hs.exists_transition hx hc htransition
  have hwhole : t.feed (c, event) = (result, t') := hstep
  have hpart : (parts g).feed (c, event) = (result, part) := hpart.step_eq
  rw [hwhole, hpart]
  exact ⟨rfl, hsplits⟩

end

/-! ## A trace in two groups -/

/-- What belongs to one group, in order. -/
def ofGroup {α : Type} (g : Bool) (labelled : List (Bool × α)) : List α :=
  (labelled.filter fun x => x.1 == g).map Prod.snd

theorem ofGroup_cons_self {α : Type} (g : Bool) (a : α) (rest : List (Bool × α)) :
    ofGroup g ((g, a) :: rest) = a :: ofGroup g rest := by
  rw [ofGroup, List.filter_cons_of_pos (by simp)]
  rfl

theorem ofGroup_cons_of_ne {α : Type} {g g' : Bool} (h : g ≠ g') (a : α)
    (rest : List (Bool × α)) : ofGroup g' ((g, a) :: rest) = ofGroup g' rest := by
  rw [ofGroup, List.filter_cons_of_neg (by simpa using h)]
  rfl

/-- The results of a whole trace, each with the group of its event. -/
def labelledResults (t : RequestTracker) (trace : List (Bool × Input)) :
    List (Bool × Option ClosedRequest) :=
  (trace.map Prod.fst).zip (Run.outputs feed t (trace.map Prod.snd))

theorem labelledResults_cons (t : RequestTracker) (g : Bool) (x : Input)
    (rest : List (Bool × Input)) :
    t.labelledResults ((g, x) :: rest) = (g, (t.feed x).1) :: (t.feed x).2.labelledResults rest :=
  rfl

/-- **A whole run is two runs side by side.** -/
theorem Splits.run {owns : Bool → String → Bool} {t : RequestTracker}
    {parts : Bool → RequestTracker} (hs : Splits owns t parts)
    (hx : Exclusive owns) (trace : List (Bool × Input))
    (hc : ∀ x ∈ trace, Confined owns x.1 x.2.1 x.2.2) :
    (∀ g, ofGroup g (t.labelledResults trace) =
        Run.outputs RequestTracker.feed (parts g) (ofGroup g trace)) ∧
      Splits owns (Run.after RequestTracker.feed t (trace.map Prod.snd))
        (fun g => Run.after RequestTracker.feed (parts g) (ofGroup g trace)) := by
  induction trace generalizing t parts with
  | nil => exact ⟨fun _ => rfl, hs⟩
  | cons x rest ih =>
    obtain ⟨g, c, event⟩ := x
    obtain ⟨hresult, hsplits⟩ := hs.feed hx (hc (g, c, event) List.mem_cons_self)
    obtain ⟨houtputs, hafter⟩ := ih hsplits fun x hx => hc x (List.mem_cons_of_mem _ hx)
    -- the part that took the event goes on from its next state, the other from its own
    have hself : Function.update parts g ((parts g).feed (c, event)).2 g =
        ((parts g).feed (c, event)).2 := Function.update_self _ _ _
    have hother : ∀ g', g ≠ g' →
        Function.update parts g ((parts g).feed (c, event)).2 g' = parts g' :=
      fun g' h => Function.update_of_ne h.symm _ _
    constructor
    · intro g'
      have hrest := houtputs g'
      rw [labelledResults_cons]
      by_cases h : g = g'
      · subst h
        rw [hself] at hrest
        rw [ofGroup_cons_self, ofGroup_cons_self, Run.outputs_cons, hresult, hrest]
      · rw [hother g' h] at hrest
        rw [ofGroup_cons_of_ne h, ofGroup_cons_of_ne h, hrest]
    · have hparts : (fun g' => Run.after RequestTracker.feed (parts g')
            (ofGroup g' ((g, c, event) :: rest))) =
          fun g' => Run.after RequestTracker.feed
            (Function.update parts g ((parts g).feed (c, event)).2 g') (ofGroup g' rest) := by
        funext g'
        by_cases h : g = g'
        · subst h
          rw [hself, ofGroup_cons_self, Run.after_cons]
        · rw [hother g' h, ofGroup_cons_of_ne h]
      rw [hparts]
      exact hafter

/-! ## Two groups from the start -/

/-- The keys that the starts of a group put in play. -/
def startKeys (trace : List (Bool × Input)) (g : Bool) (key : String) : Bool :=
  (ofGroup g trace).any fun x => x.2.opening?.isSome && x.1.activityId.key == key

/-- No event has a key, its own or its parent's, under which a start of the other
group begins an activity. -/
def Unrelated (trace : List (Bool × Input)) : Prop :=
  ∀ x ∈ trace, ∀ y ∈ trace, x.1 ≠ y.1 → y.2.2.opening?.isSome = true →
    x.2.1.activityId.key ≠ y.2.1.activityId.key ∧
      x.2.1.activityId.parentKey? ≠ some y.2.1.activityId.key

theorem mem_ofGroup {α : Type} {g : Bool} {a : α} {labelled : List (Bool × α)} :
    a ∈ ofGroup g labelled ↔ (g, a) ∈ labelled := by
  rw [ofGroup, List.mem_map]
  constructor
  · rintro ⟨⟨g', a'⟩, hmem, rfl⟩
    obtain ⟨hmem, hg⟩ := List.mem_filter.mp hmem
    rwa [← eq_of_beq hg]
  · exact fun h => ⟨(g, a), List.mem_filter.mpr ⟨h, by simp⟩, rfl⟩

theorem startKeys_eq_true {trace : List (Bool × Input)} {g : Bool} {key : String} :
    startKeys trace g key = true ↔ ∃ c event, (g, c, event) ∈ trace ∧
      event.opening?.isSome = true ∧ c.activityId.key = key := by
  simp only [startKeys, List.any_eq_true, mem_ofGroup, Prod.exists, Bool.and_eq_true, beq_iff_eq]

/-- A key that no start of the group has. -/
theorem startKeys_eq_false {trace : List (Bool × Input)} {g : Bool} {key : String}
    (h : ∀ c event, (g, c, event) ∈ trace → event.opening?.isSome = true →
      key ≠ c.activityId.key) : startKeys trace g key = false := by
  apply Bool.eq_false_iff.mpr
  intro hkey
  obtain ⟨c, event, hmem, hopening, rfl⟩ := startKeys_eq_true.mp hkey
  exact h c event hmem hopening rfl

theorem exclusive_startKeys {trace : List (Bool × Input)} (h : Unrelated trace) :
    Exclusive (startKeys trace) := by
  intro g key hkey
  obtain ⟨c, event, hmem, -, rfl⟩ := startKeys_eq_true.mp hkey
  apply startKeys_eq_false
  intro c' event' hmem' hopening'
  exact (h (g, c, event) hmem (!g, c', event') hmem' (by simp) hopening').1

theorem confined_startKeys {trace : List (Bool × Input)} (h : Unrelated trace) :
    ∀ x ∈ trace, Confined (startKeys trace) x.1 x.2.1 x.2.2 := by
  rintro ⟨g, c, event⟩ hmem
  refine ⟨?_, ?_, ?_⟩
  · apply startKeys_eq_false
    intro c' event' hmem' hopening'
    exact (h (g, c, event) hmem (!g, c', event') hmem' (by simp) hopening').1
  · intro key hparent
    apply startKeys_eq_false
    rintro c' event' hmem' hopening' rfl
    exact (h (g, c, event) hmem (!g, c', event') hmem' (by simp) hopening').2 hparent
  · intro hopening
    exact startKeys_eq_true.mpr ⟨c, event, hmem, hopening, rfl⟩

theorem splits_start (owns : Bool → String → Bool) : Splits owns start fun _ => start :=
  ⟨fun _ => rfl, fun _ => rfl, rfl, Table.forall_empty, Table.forall_empty⟩

/-- The open requests of the two parts add up to those of the whole. -/
theorem Splits.openCount {owns : Bool → String → Bool} (hx : Exclusive owns) {t : RequestTracker}
    {parts : Bool → RequestTracker} (hs : Splits owns t parts) :
    t.openCount = (parts true).openCount + (parts false).openCount := by
  unfold RequestTracker.openCount
  rw [hs.requests, hs.requests]
  apply Table.size_eq_add
  intro e he
  obtain ⟨g, hg⟩ := hs.owned e.1 e.2 (Table.get?_of_mem_entries he)
  have hnot := hx g e.1 hg
  cases g <;> simp_all

/-- **Unrelated groups of events do not interfere**, however they are mixed.  Event
by event, each group gives what it gives alone; the open requests of the whole are
as many as those of the two groups, and so are the misses of every kind. -/
theorem unrelated_groups_apart (trace : List (Bool × Input)) (h : Unrelated trace) :
    (∀ g, ofGroup g ((trace.map Prod.fst).zip (results (trace.map Prod.snd))) =
        results (ofGroup g trace)) ∧
      (following (trace.map Prod.snd)).openCount =
        (following (ofGroup true trace)).openCount + (following (ofGroup false trace)).openCount ∧
      (following (trace.map Prod.snd)).misses =
        (following (ofGroup true trace)).misses.add (following (ofGroup false trace)).misses := by
  have hx := exclusive_startKeys h
  obtain ⟨houtputs, hsplits⟩ :=
    (splits_start (startKeys trace)).run hx trace (confined_startKeys h)
  exact ⟨houtputs, hsplits.openCount hx, hsplits.misses⟩

/-- Two requests at once, the activities `1/5` and `1/6` with a part `1` each.  The first is
redirected; the second fails and is ended twice. -/
def twoRequests : List (Bool × Input) :=
  let about (time : UInt64) (first second : UInt8) : EventContext :=
    ⟨⟨time⟩, 7, 0, ActivityId.ofPath (first :: second :: List.replicate 10 0) rfl 0,
      ActivityId.nil, 0, none⟩
  [(true, about 10 0x15 0, .requestStart "https" "a" 443 "/" 1 1),
    (false, about 12 0x16 0, .requestStart "http" "b" 0 "/x" 2 0),
    (false, about 13 0x16 0x10, .dnsStart "b"),
    (true, about 15 0x15 0, .responseHeadersStop 302),
    (true, about 16 0x15 0x10, .requestStart "https" "c" 443 "/" 1 1),
    (false, about 17 0x16 0, .requestFailed "refused"),
    (true, about 18 0x15 0x10, .requestStop 200),
    (false, about 19 0x16 0, .requestStop 500),
    (true, about 20 0x15 0, .requestStop 200)]

theorem unrelated_groups_apart_twoRequests :
    Unrelated twoRequests ∧
      (∀ g, ofGroup g ((twoRequests.map Prod.fst).zip (results (twoRequests.map Prod.snd))) =
        results (ofGroup g twoRequests)) ∧
      (following (twoRequests.map Prod.snd)).openCount =
        (following (ofGroup true twoRequests)).openCount +
          (following (ofGroup false twoRequests)).openCount ∧
      (following (twoRequests.map Prod.snd)).misses =
        (following (ofGroup true twoRequests)).misses.add
          (following (ofGroup false twoRequests)).misses := by
  have h : Unrelated twoRequests := by
    unfold Unrelated
    decide +kernel
  exact ⟨h, unrelated_groups_apart twoRequests h⟩

end RequestTracker
end RuntimeTrace
