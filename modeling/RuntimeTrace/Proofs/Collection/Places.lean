import RuntimeTrace.Collection

/-!
# Where collections wait

A tracker keeps what it knows of a collection up to date until it lets go of it.
For the question which collections are where, all of that is noise: a collection is
told from others by what its start said (`CollectionIdentity`), and an event either
leaves the collections in their places, or moves one of them.

`Places` is a tracker seen so, and `Move` lists what an event can do to it, with the
collection that comes out.  Every step is a move (`moves_feed`), whatever the rule.
A run needs three facts about a move: it loses no collection without counting it
(`Move.count`), what comes out is what waited for its kind (`Move.waiting?_of_out`),
and what waits afterwards was started just now or waited before
(`Move.waiting?_after`).
-/

namespace RuntimeTrace

/-- What the start of a collection says about it; nothing changes it later. -/
structure CollectionIdentity where
  processId : ProcessId
  number : UInt32
  generation : UInt32
  reason : CollectionReason
  mode : CollectionMode
  start : Instant
  deriving DecidableEq

/-- Which collection of its process it is. -/
def CollectionIdentity.kind (id : CollectionIdentity) : CollectionKind :=
  if id.generation == 2 && id.mode == .background then .background else .ephemeral

/-- Which collection was reported. -/
def ClosedCollection.identity (c : ClosedCollection) : CollectionIdentity :=
  ⟨c.processId, c.number, c.generation, c.reason, c.mode, c.start⟩

/-- What a tracker of collections is given: an event in its context, or the order to
forget everything. -/
inductive CollectionInput where
  | event (context : EventContext) (event : CollectionEvent)
  | reset

/-- The collection that an input starts. -/
def CollectionInput.started? : CollectionInput → Option CollectionIdentity
  | .event context (.start count depth reason mode) =>
    some ⟨context.processId, count, depth, CollectionReason.ofCode reason,
      CollectionMode.ofCode mode, context.time⟩
  | _ => none

/-- The identities of the collections of a process, and how many were replaced. -/
structure Places where
  background : Option CollectionIdentity
  ephemeral : Option CollectionIdentity
  held : Option CollectionIdentity
  replaced : Nat

namespace Places

/-- The collections that wait. -/
def count (p : Places) : Nat :=
  p.background.isSome.toNat + p.ephemeral.isSome.toNat + p.held.isSome.toNat

/-- The collection of a kind that waits, open or held back. -/
def waiting? (p : Places) : CollectionKind → Option CollectionIdentity
  | .ephemeral => p.ephemeral.or p.held
  | .background => p.background

/-- No collection is in the place of another, and a collection is not held back while
the next of its kind is open. -/
structure Sound (p : Places) : Prop where
  kind : ∀ k id, p.waiting? k = some id → id.kind = k
  one : p.ephemeral = none ∨ p.held = none

/-- Every collection that waits has a property. -/
structure All (p : Places) (P : CollectionIdentity → Prop) : Prop where
  background : ∀ id, p.background = some id → P id
  ephemeral : ∀ id, p.ephemeral = some id → P id
  held : ∀ id, p.held = some id → P id

end Places

/-- What a step does to the places, given the collection that it starts and the number
of those that it throws away, and the collection that comes out. -/
inductive Move (p : Places) :
    Option CollectionIdentity → Nat → Option CollectionIdentity → Places → Prop where
  | stays : Move p none 0 none p
  | releases : Move p none 0 p.held { p with held := none }
  /-- What is open is thrown away, what is held back is not. -/
  | triggers : Move p none (p.background.isSome.toNat + p.ephemeral.isSome.toNat) p.held
      ⟨none, none, none, p.replaced⟩
  | resets : Move p none p.count none ⟨none, none, none, p.replaced⟩
  | opensBackground {id : CollectionIdentity} (hkind : id.kind = .background) :
      Move p (some id) 0 p.held
        ⟨some id, p.ephemeral, none, p.replaced + p.background.isSome.toNat⟩
  | opensEphemeral {id : CollectionIdentity} (hkind : id.kind = .ephemeral) :
      Move p (some id) 0 p.held
        ⟨p.background, some id, none, p.replaced + p.ephemeral.isSome.toNat⟩
  | closesBackground {id : CollectionIdentity} (hopen : p.background = some id) :
      Move p none 0 (some id) { p with background := none }
  | closesEphemeral {id : CollectionIdentity} (hopen : p.ephemeral = some id) :
      Move p none 0 (some id) { p with ephemeral := none }
  | holds {id : CollectionIdentity} (hopen : p.ephemeral = some id) :
      Move p none 0 p.held { p with ephemeral := none, held := some id }

namespace Move

variable {p p' : Places} {started out : Option CollectionIdentity} {lost : Nat}

/-- **Every collection is somewhere**: it waits, came out, was replaced or was thrown
away. -/
theorem count (h : Move p started lost out p') :
    p.count + p.replaced + started.isSome.toNat =
      p'.count + p'.replaced + out.isSome.toNat + lost := by
  cases h with
  | stays => simp [Places.count]
  | releases => simp [Places.count]; omega
  | triggers => simp [Places.count]; omega
  | resets => simp [Places.count]; omega
  | opensBackground hkind => simp [Places.count]; omega
  | opensEphemeral hkind => simp [Places.count]; omega
  | closesBackground hopen => simp [Places.count, hopen]; omega
  | closesEphemeral hopen => simp [Places.count, hopen]; omega
  | holds hopen => simp [Places.count, hopen]; omega

/-- **What holds of all that waits and of what starts** holds of all that waits then. -/
theorem all (h : Move p started lost out p') {P : CollectionIdentity → Prop} (hp : p.All P)
    (hstarted : ∀ id, started = some id → P id) : p'.All P := by
  have hnone : ∀ id, (none : Option CollectionIdentity) = some id → P id :=
    fun _ h => absurd h (by simp)
  cases h with
  | stays => exact hp
  | releases => exact ⟨hp.background, hp.ephemeral, hnone⟩
  | triggers => exact ⟨hnone, hnone, hnone⟩
  | resets => exact ⟨hnone, hnone, hnone⟩
  | opensBackground hkind => exact ⟨hstarted, hp.ephemeral, hnone⟩
  | opensEphemeral hkind => exact ⟨hp.background, hstarted, hnone⟩
  | closesBackground hopen => exact ⟨hnone, hp.ephemeral, hp.held⟩
  | closesEphemeral hopen => exact ⟨hp.background, hnone, hp.held⟩
  | holds hopen =>
    refine ⟨hp.background, hnone, ?_⟩
    rintro _ ⟨⟩
    exact hp.ephemeral _ hopen

/-- What holds of all that waits holds of what comes out. -/
theorem all_out (h : Move p started lost out p') {P : CollectionIdentity → Prop} (hp : p.All P)
    {id : CollectionIdentity} (hout : out = some id) : P id := by
  cases h with
  | stays => exact absurd hout (by simp)
  | releases => exact hp.held id hout
  | triggers => exact hp.held id hout
  | resets => exact absurd hout (by simp)
  | opensBackground hkind => exact hp.held id hout
  | opensEphemeral hkind => exact hp.held id hout
  | closesBackground hopen => exact hp.background id (hopen.trans hout)
  | closesEphemeral hopen => exact hp.ephemeral id (hopen.trans hout)
  | holds hopen => exact hp.held id hout

end Move

namespace Places.Sound

variable {p : Places}

/-- What is held back is the one of its kind that waits. -/
theorem waiting?_of_held (hp : p.Sound) {id : CollectionIdentity} (h : p.held = some id) :
    p.waiting? .ephemeral = some id := by
  rcases hp.one with hnone | hnone
  · rw [waiting?, hnone, h]
    rfl
  · rw [h] at hnone
    exact absurd hnone (by simp)

theorem kind_of_held (hp : p.Sound) {id : CollectionIdentity} (h : p.held = some id) :
    id.kind = .ephemeral :=
  hp.kind .ephemeral id (hp.waiting?_of_held h)

theorem waiting?_of_ephemeral {id : CollectionIdentity} (h : p.ephemeral = some id) :
    p.waiting? .ephemeral = some id := by
  rw [waiting?, h]
  rfl

theorem kind_of_ephemeral (hp : p.Sound) {id : CollectionIdentity} (h : p.ephemeral = some id) :
    id.kind = .ephemeral :=
  hp.kind .ephemeral id (waiting?_of_ephemeral h)

theorem held_eq_none (hp : p.Sound) {id : CollectionIdentity} (h : p.ephemeral = some id) :
    p.held = none := by
  rcases hp.one with hnone | hnone
  · rw [h] at hnone
    exact absurd hnone (by simp)
  · exact hnone

end Places.Sound

namespace Move

variable {p p' : Places} {started out : Option CollectionIdentity} {lost : Nat}

/-- **What comes out is what waited** for its kind. -/
theorem waiting?_of_out (h : Move p started lost out p') (hp : p.Sound) {id : CollectionIdentity}
    (hout : out = some id) : p.waiting? id.kind = some id := by
  have hheld : p.held = some id → p.waiting? id.kind = some id := by
    intro h
    rw [hp.kind_of_held h]
    exact hp.waiting?_of_held h
  cases h with
  | stays => exact absurd hout (by simp)
  | releases => exact hheld hout
  | triggers => exact hheld hout
  | resets => exact absurd hout (by simp)
  | opensBackground hkind => exact hheld hout
  | opensEphemeral hkind => exact hheld hout
  | closesBackground hopen =>
    rw [Option.some.inj hout] at hopen
    rw [hp.kind .background id hopen]
    exact hopen
  | closesEphemeral hopen =>
    rw [Option.some.inj hout] at hopen
    rw [hp.kind_of_ephemeral hopen]
    exact Places.Sound.waiting?_of_ephemeral hopen
  | holds hopen => exact hheld hout

/-- **What waits was started just now, or waited before**; and then nothing of its
kind came out or was started. -/
theorem waiting?_after (h : Move p started lost out p') (hp : p.Sound) {k : CollectionKind}
    {id : CollectionIdentity} (hwaits : p'.waiting? k = some id) :
    started = some id ∧ id.kind = k ∨
      p.waiting? k = some id ∧ ∀ id', out = some id' ∨ started = some id' → id'.kind ≠ k := by
  have hheld : ∀ id', p.held = some id' → id'.kind = .ephemeral := fun id' => hp.kind_of_held
  -- without the collection held back, an ephemeral one that waits is open, and none was held
  have hopen : p.ephemeral.or none = some id →
      p.waiting? .ephemeral = some id ∧ p.held = none := by
    rw [Option.or_none]
    exact fun h => ⟨Places.Sound.waiting?_of_ephemeral h, hp.held_eq_none h⟩
  cases h with
  | stays => exact Or.inr ⟨hwaits, by simp⟩
  | releases =>
    cases k with
    | background => exact Or.inr ⟨hwaits, by simp +contextual [hheld]⟩
    | ephemeral => exact Or.inr ⟨(hopen hwaits).1, by simp [(hopen hwaits).2]⟩
  | triggers => cases k <;> exact absurd hwaits (by simp [Places.waiting?])
  | resets => cases k <;> exact absurd hwaits (by simp [Places.waiting?])
  | opensBackground hkind =>
    cases k with
    | background => exact Or.inl ⟨hwaits, by rw [← Option.some.inj hwaits, hkind]⟩
    | ephemeral => exact Or.inr ⟨(hopen hwaits).1, by simp [(hopen hwaits).2, hkind]⟩
  | opensEphemeral hkind =>
    cases k with
    | background =>
      refine Or.inr ⟨hwaits, ?_⟩
      rintro id' (h | h)
      · simp [hheld id' h]
      · simp [← Option.some.inj h, hkind]
    | ephemeral => exact Or.inl ⟨hwaits, by rw [← Option.some.inj hwaits, hkind]⟩
  | closesBackground hclosed =>
    cases k with
    | background => exact absurd hwaits (by simp [Places.waiting?])
    | ephemeral => exact Or.inr ⟨hwaits, by simp [hp.kind .background _ hclosed]⟩
  | closesEphemeral hclosed =>
    cases k with
    | background => exact Or.inr ⟨hwaits, by simp [hp.kind_of_ephemeral hclosed]⟩
    | ephemeral => exact absurd hwaits (by simp [Places.waiting?, hp.held_eq_none hclosed])
  | holds hclosed =>
    cases k with
    | background => exact Or.inr ⟨hwaits, by simp [hp.held_eq_none hclosed]⟩
    | ephemeral =>
      refine Or.inr ⟨?_, by simp [hp.held_eq_none hclosed]⟩
      rw [← hwaits]
      exact Places.Sound.waiting?_of_ephemeral hclosed

/-- A move keeps every collection in a place of its kind. -/
theorem sound (h : Move p started lost out p') (hp : p.Sound) : p'.Sound := by
  constructor
  · intro k id hwaits
    rcases h.waiting?_after hp hwaits with ⟨-, hkind⟩ | ⟨hbefore, -⟩
    · exact hkind
    · exact hp.kind k id hbefore
  · cases h with
    | stays => exact hp.one
    | releases => exact Or.inr rfl
    | triggers => exact Or.inr rfl
    | resets => exact Or.inr rfl
    | opensBackground hkind => exact Or.inr rfl
    | opensEphemeral hkind => exact Or.inr rfl
    | closesBackground hclosed => exact hp.one
    | closesEphemeral hclosed => exact Or.inl rfl
    | holds hclosed => exact Or.inl rfl

end Move

/-! ## Steps are moves -/

namespace OpenCollection

/-- Which collection goes on. -/
def identity (c : OpenCollection) : CollectionIdentity := c.report.identity

end OpenCollection

namespace CollectionTracker

/-- The places of the collections of a tracker. -/
def places (t : CollectionTracker) : Places :=
  ⟨t.background.map OpenCollection.identity, t.ephemeral.map OpenCollection.identity,
    t.held.map OpenCollection.identity, t.misses.duplicateStarts⟩

theorem isSome_background (t : CollectionTracker) :
    t.places.background.isSome = t.hasBackground :=
  Option.isSome_map

theorem isSome_ephemeral (t : CollectionTracker) : t.places.ephemeral.isSome = t.hasEphemeral :=
  Option.isSome_map

theorem isSome_held (t : CollectionTracker) : t.places.held.isSome = t.hasHeld :=
  Option.isSome_map

/-- The places that are taken. -/
theorem count_places (t : CollectionTracker) :
    t.places.count = t.hasBackground.toNat + t.hasEphemeral.toNat + t.hasHeld.toNat := by
  rw [Places.count, isSome_background, isSome_ephemeral, isSome_held]

/-- What an input throws away: a trigger what is open, a reset everything. -/
def discardedBy (t : CollectionTracker) : CollectionInput → Nat
  | .event _ (.triggered _) => t.hasBackground.toNat + t.hasEphemeral.toNat
  | .event _ _ => 0
  | .reset => t.hasBackground.toNat + t.hasEphemeral.toNat + t.hasHeld.toNat

/-- Takes in an input. -/
def feed (t : CollectionTracker) : CollectionInput → Option ClosedCollection × CollectionTracker
  | .event context event => t.step context event
  | .reset => (none, t.reset)

/-- A result and the next state are a move from the present one. -/
def Moves (t : CollectionTracker) (started : Option CollectionIdentity) (lost : Nat)
    (result : Option ClosedCollection × CollectionTracker) : Prop :=
  Move t.places started lost (result.1.map ClosedCollection.identity) result.2.places

/-- What is learnt about the current collection does not move it. -/
theorem places_modifyCurrent (t : CollectionTracker) (f : OpenCollection → OpenCollection)
    (hf : ∀ c, (f c).identity = c.identity) : (t.modifyCurrent f).places = t.places := by
  have hmap : ∀ o : Option OpenCollection,
      (o.map f).map OpenCollection.identity = o.map OpenCollection.identity := by
    intro o
    rw [Option.map_map]
    congr 1
    funext c
    exact hf c
  unfold modifyCurrent
  split
  · rename_i c hc
    rw [places, places, hc, Option.map_some, Option.map_some, hf]
  · rw [places, places, hmap]

theorem moves_stays {t t' : CollectionTracker} (h : t'.places = t.places) :
    t.Moves none 0 (none, t') := by
  rw [Moves, h]
  exact Move.stays

/-- What is let go of comes out, whatever becomes of the rest. -/
theorem fst_release (t : CollectionTracker) :
    t.release.1.map ClosedCollection.identity = t.places.held := by
  rw [release, places, Option.map_map]
  rfl

/-- Collections in the same places move alike. -/
theorem Moves.congr {t t' : CollectionTracker} {started : Option CollectionIdentity} {lost : Nat}
    {result : Option ClosedCollection × CollectionTracker} (h : t'.places = t.places)
    (hmoves : t'.Moves started lost result) : t.Moves started lost result := by
  rw [Moves, ← h]
  exact hmoves

theorem places_ephemeral {t : CollectionTracker} {c : OpenCollection} (h : t.ephemeral = some c) :
    t.places.ephemeral = some c.identity := by
  rw [places, h]
  rfl

theorem moves_takeHeapSizes (t : CollectionTracker) (now : Instant) (sizes : GenerationSizes) :
    t.Moves none 0 (t.takeHeapSizes now sizes) := by
  unfold takeHeapSizes
  split
  · exact moves_stays rfl
  · refine Moves.congr (t.places_modifyCurrent
      (fun c => { c with report := { c.report with heapSizes := sizes } }) fun _ => rfl) ?_
    dsimp only
    split
    · rename_i c hrule hc
      split
      · exact Move.closesEphemeral (places_ephemeral hc)
      · unfold Moves
        dsimp only
        rw [fst_release]
        have hmove := Move.holds (places_ephemeral hc)
        exact hmove
    · exact Move.stays

theorem moves_takeHeapHistory (t : CollectionTracker) (generations : List GenerationChange) :
    t.Moves none 0 (none, t.takeHeapHistory generations) := by
  unfold takeHeapHistory
  split
  · exact moves_stays rfl
  · exact moves_stays (t.places_modifyCurrent _ fun _ => rfl)

theorem moves_takeGlobalHistory (t : CollectionTracker) (now : Instant)
    (condemned mechanisms : UInt32) :
    t.Moves none 0 (t.takeGlobalHistory now condemned mechanisms) := by
  unfold takeGlobalHistory
  split
  · exact moves_stays rfl
  · refine Moves.congr (t.places_modifyCurrent (fun c => { c with report := { c.report with
      isCompacting := mechanisms &&& compactionBit != 0 } }) fun _ => rfl) ?_
    dsimp only
    split
    · exact moves_stays rfl
    · split
      · rename_i c hc
        split
        · apply Move.closesBackground
          rw [places, hc]
          rfl
        · exact moves_stays rfl
      · exact moves_stays rfl

theorem identity_restart (c : OpenCollection) (now : Instant) (waiting : Option Instant) :
    (c.restart now waiting).identity = c.identity := by
  unfold OpenCollection.restart
  dsimp only
  split <;> rfl

theorem moves_takeRestart (t : CollectionTracker) (now : Instant) :
    t.Moves none 0 (t.takeRestart now) := by
  unfold takeRestart
  dsimp only
  split
  · rename_i c hc
    have hout : t.places.held = some (c.restart now t.suspension).identity := by
      rw [identity_restart, places, hc]
      rfl
    unfold Moves
    rw [Option.map_some, ← OpenCollection.identity, ← hout]
    exact Move.releases
  · split
    · exact moves_stays rfl
    · refine Moves.congr (({ t with suspension := none } : CollectionTracker).places_modifyCurrent
        (fun c => c.restart now t.suspension) fun c => identity_restart c now t.suspension) ?_
      split
      · rename_i c hrule hc
        exact Move.closesEphemeral (places_ephemeral hc)
      · exact Move.stays

/-- A collection takes its place by the same test that its identity does. -/
theorem kind_started (context : EventContext) (count depth reason mode : UInt32) :
    (CollectionIdentity.mk context.processId count depth (CollectionReason.ofCode reason)
      (CollectionMode.ofCode mode) context.time).kind =
      if startsBackground depth mode then .background else .ephemeral :=
  rfl

/-- A start takes the place of its kind, and counts what was there. -/
theorem moves_start (t : CollectionTracker) (context : EventContext)
    (count depth reason mode : UInt32) :
    t.Moves (CollectionInput.event context (.start count depth reason mode)).started? 0
      (t.step context (.start count depth reason mode)) := by
  have hkind := kind_started context count depth reason mode
  rw [Moves, CollectionInput.started?, step]
  dsimp only
  rw [fst_release]
  unfold openCollection
  split
  · rename_i hbackground
    rw [if_pos hbackground] at hkind
    have hmove := Move.opensBackground (p := t.places) hkind
    rw [isSome_background] at hmove
    rw [places, places, Misses.duplicateStarts_duplicateStartIf]
    exact hmove
  · rename_i hephemeral
    rw [if_neg hephemeral] at hkind
    have hmove := Move.opensEphemeral (p := t.places) hkind
    rw [isSome_ephemeral] at hmove
    rw [places, places, Misses.duplicateStarts_duplicateStartIf]
    exact hmove

theorem moves_triggered (t : CollectionTracker) (context : EventContext) (reason : UInt32) :
    t.Moves none (t.hasBackground.toNat + t.hasEphemeral.toNat)
      (t.step context (.triggered reason)) := by
  rw [← isSome_background, ← isSome_ephemeral, Moves, step]
  dsimp only
  rw [fst_release]
  exact Move.triggers

theorem moves_reset (t : CollectionTracker) :
    t.Moves none (t.hasBackground.toNat + t.hasEphemeral.toNat + t.hasHeld.toNat)
      (none, t.reset) := by
  rw [← count_places]
  exact Move.resets

theorem moves_suspendBegin (t : CollectionTracker) (context : EventContext) (reason : UInt32) :
    t.Moves none 0 (t.step context (.suspendBegin reason)) := by
  rw [Moves, step]
  dsimp only
  rw [fst_release]
  exact Move.releases

/-- **Every step is a move.** -/
theorem moves_feed (t : CollectionTracker) (x : CollectionInput) :
    t.Moves x.started? (t.discardedBy x) (t.feed x) := by
  cases x with
  | reset => exact t.moves_reset
  | event context event =>
    cases event with
    | triggered reason => exact t.moves_triggered context reason
    | start count depth reason mode => exact t.moves_start context count depth reason mode
    | suspendBegin reason => exact t.moves_suspendBegin context reason
    | heapStats sizes => exact t.moves_takeHeapSizes context.time sizes
    | perHeapHistory generations => exact t.moves_takeHeapHistory generations
    | globalHeapHistory condemned mechanisms =>
      exact t.moves_takeGlobalHistory context.time condemned mechanisms
    | restartEnd => exact t.moves_takeRestart context.time

end CollectionTracker
end RuntimeTrace
