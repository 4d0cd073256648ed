import RuntimeTrace.Proofs.Request.Aliases
import RuntimeTrace.Proofs.Request.Changes

/-!
# Which request a start belongs to

A detail and a start both look for the request of their activity, and they do not look alike.  A
detail asks for its own key and then for its parent's, and an alias counts for the request it
leads to.  A start that is new under its own key asks for its parent's, too, but an alias does not
count (`redirectingParent?_eq_some_iff`).

So they agree right below a redirected request: the start becomes the second leg of the request
that the details of its activity belong to (`JoinsLeg`).  Below an activity that has itself joined
a request they do not.  Its details belong to the request, but a start there opens a request of its
own (`OpensApart`), and from then on its details belong to that one.  A redirected request that is
redirected again and followed further down is reported as two.

Main statement: `start_below_redirected_request`.
-/

namespace RuntimeTrace
namespace RequestTracker

/-! ## The two lookups -/

section Lookups

variable {t : RequestTracker} {id : ActivityId} {key root : String}

theorem hasLeg_iff :
    t.HasLeg root ↔ ((t.requests.get? root).bind OpenRequest.redirect).isSome = true := by
  rw [Option.isSome_iff_exists]
  constructor
  · rintro ⟨request, leg, hopen, hleg⟩
    exact ⟨leg, Option.bind_eq_some_iff.mpr ⟨request, hopen, hleg⟩⟩
  · rintro ⟨leg, h⟩
    obtain ⟨request, hopen, hleg⟩ := Option.bind_eq_some_iff.mp h
    exact ⟨request, leg, hopen, hleg⟩

instance (t : RequestTracker) (root : String) : Decidable (t.HasLeg root) :=
  decidable_of_iff _ hasLeg_iff.symm

/-- **What a start asks for**: its parent's key, open and with a second leg. -/
theorem redirectingParent?_eq_some_iff :
    t.redirectingParent? id = some root ↔ id.parentKey? = some root ∧ t.HasLeg root := by
  constructor
  · intro h
    refine ⟨?_, hasLeg_of_redirectingParent? h⟩
    obtain ⟨key, hkey, h⟩ := Option.bind_eq_some_iff.mp h
    obtain ⟨request, -, h⟩ := Option.bind_eq_some_iff.mp h
    split at h
    · rw [← Option.some.inj h]
      exact hkey
    · exact absurd h (by simp)
  · rintro ⟨hkey, request, leg, hopen, hleg⟩
    simp [redirectingParent?, hkey, hopen, hleg]

theorem rootOf?_of_open {request : OpenRequest} (hopen : t.requests.get? key = some request) :
    t.rootOf? key = some key := by
  rw [rootOf?, Table.contains, hopen]
  rfl

theorem rootOf?_of_closed (hclosed : t.requests.get? key = none) :
    t.rootOf? key = t.aliases.get? key := by
  rw [rootOf?, Table.contains, hclosed]
  rfl

/-- What a key stands for is the key itself or what it is an alias of. -/
theorem rootOf?_eq_some (h : t.rootOf? key = some root) :
    root = key ∨ t.requests.get? key = none ∧ t.aliases.get? key = some root := by
  cases hopen : t.requests.get? key with
  | some request =>
    rw [rootOf?_of_open hopen] at h
    exact Or.inl (Option.some.inj h).symm
  | none =>
    rw [rootOf?_of_closed hopen] at h
    exact Or.inr ⟨rfl, h⟩

/-- **What a detail asks for** under a key that is new: its parent's key, open or an alias. -/
theorem resolve?_of_new (hclosed : t.requests.get? id.key = none)
    (hunaliased : t.aliases.get? id.key = none) :
    t.resolve? id = id.parentKey?.bind t.rootOf? := by
  rw [resolve?, rootOf?_of_closed hclosed, hunaliased, Option.none_or]

end Lookups

/-! ## What a start does -/

/-- A start has become the second leg of a request, and no request was opened. -/
structure JoinsLeg (t t' : RequestTracker) (key root url : String) (now : Instant) : Prop where
  leg : ∃ request leg, t.requests.get? root = some request ∧ request.redirect = some leg ∧
    t'.requests.get? root = some { request with
      redirect := some { leg with start := now, url := if url = "" then leg.url else url } }
  others : ∀ other, other ≠ root → t'.requests.get? other = t.requests.get? other
  count : t'.openCount = t.openCount
  owner : t'.rootOf? key = some root

/-- A start has opened a request, and all others are as they were. -/
structure OpensApart (t t' : RequestTracker) (key url : String) (version : Option String)
    (now : Instant) : Prop where
  request : t'.requests.get? key = some (.begin url now version)
  others : ∀ other, other ≠ key → t'.requests.get? other = t.requests.get? other
  count : t'.openCount = t.openCount + 1
  owner : t'.rootOf? key = some key

section Start

variable {t : RequestTracker} {key root url : String} {now : Instant}

theorem joinsLeg_attach (hclosed : t.requests.get? key = none) (hleg : t.HasLeg root) :
    JoinsLeg t (t.attach key root url now) key root url now := by
  obtain ⟨request, leg, hopen, hredirect⟩ := hleg
  have hrequests : ∀ other, (t.attach key root url now).requests.get? other =
      if other = root then (t.requests.get? root).map fun request => { request with
        redirect := request.redirect.map fun leg =>
          { leg with start := now, url := if url = "" then leg.url else url } }
      else t.requests.get? other :=
    fun other => Table.get?_modify _ _ _ _
  have hne : key ≠ root := by
    rintro rfl
    rw [hclosed] at hopen
    exact absurd hopen (by simp)
  refine ⟨⟨request, leg, hopen, hredirect, ?_⟩, ?_, ?_, ?_⟩
  · rw [hrequests, if_pos rfl, hopen, Option.map_some, hredirect, Option.map_some]
  · intro other hother
    rw [hrequests, if_neg hother]
  · exact Table.size_modify _ _ _
  · rw [rootOf?_of_closed]
    · show (t.aliases.insert key root).get? key = some root
      rw [Table.get?_insert, if_pos rfl]
    · rw [hrequests, if_neg hne, hclosed]

theorem opensApart_insert (hclosed : t.requests.get? key = none) (version : Option String) :
    OpensApart t { t with requests := t.requests.insert key (.begin url now version) } key url
      version now := by
  have hrequest : (t.requests.insert key (.begin url now version)).get? key =
      some (.begin url now version) := by
    rw [Table.get?_insert, if_pos rfl]
  refine ⟨hrequest, ?_, ?_, rootOf?_of_open hrequest⟩
  · intro other hother
    show (Table.insert _ _ _).get? other = _
    rw [Table.get?_insert, if_neg hother]
  · have hsize := t.requests.size_insert key (.begin url now version)
    rw [Table.contains, hclosed] at hsize
    exact hsize

end Start

/-- **A start below a redirected request.**  After any events, let a start come whose own key is
new, and let the details of its activity belong to an open request with a second leg.  The start
ends no request.  If its parent is the request itself, it becomes the second leg and opens nothing.
Otherwise its parent is an activity that has joined the request; then it opens a request of its own,
to which the details of its activity belong from then on. -/
theorem start_below_redirected_request (events : List Input) {c : EventContext}
    {event : NetworkEvent} {url root : String} {version : Option String}
    (hopening : event.opening? = some (url, version))
    (hclosed : (following events).requests.get? c.activityId.key = none)
    (hunaliased : (following events).aliases.get? c.activityId.key = none)
    (hroot : (following events).resolve? c.activityId = some root)
    (hleg : (following events).HasLeg root) :
    ((following events).step c event).1 = none ∧
    (c.activityId.parentKey? = some root →
      JoinsLeg (following events) ((following events).step c event).2 c.activityId.key root url
        c.time) ∧
    (c.activityId.parentKey? ≠ some root →
      (∃ parent, c.activityId.parentKey? = some parent ∧
        (following events).aliases.get? parent = some root) ∧
      OpensApart (following events) ((following events).step c event).2 c.activityId.key url version
        c.time) := by
  generalize following events = t at hclosed hunaliased hroot hleg ⊢
  refine ⟨by rw [step_of_opening hopening], ?_, ?_⟩
  · intro hparent
    have hredirecting := redirectingParent?_eq_some_iff.mpr ⟨hparent, hleg⟩
    rw [(Transition.attached hopening hclosed hunaliased hredirecting).step_eq]
    exact joinsLeg_attach hclosed hleg
  · intro hne
    rw [resolve?_of_new hclosed hunaliased] at hroot
    obtain ⟨parent, hparent, hroot⟩ := Option.bind_eq_some_iff.mp hroot
    -- a parent that is open would be the request itself
    obtain ⟨hshut, halias⟩ : t.requests.get? parent = none ∧ t.aliases.get? parent = some root := by
      rcases rootOf?_eq_some hroot with rfl | halias
      · exact absurd hparent hne
      · exact halias
    have hnone : t.redirectingParent? c.activityId = none := by
      rw [Option.eq_none_iff_forall_ne_some]
      intro found hfound
      obtain ⟨hkey, request, leg, hopen, -⟩ := redirectingParent?_eq_some_iff.mp hfound
      rw [← Option.some.inj (hparent.symm.trans hkey), hshut] at hopen
      exact absurd hopen (by simp)
    rw [(Transition.opened hopening hclosed hunaliased hnone).step_eq]
    exact ⟨⟨parent, hparent, halias⟩, opensApart_insert hclosed version⟩

/-- The request `1/5` is redirected twice; the activity `1/5/2` follows the first redirect, and
`1/5/2/1` follows the second one from there. -/
def redirectedDownwards : List Input :=
  [(below 10 0, .requestStart "https" "a" 443 "/" 1 1),
    (below 12 0, .responseHeadersStop 302),
    (below 13 0x20, .requestStart "https" "b" 443 "/" 1 1),
    (below 14 0x20, .responseHeadersStop 307),
    (below 15 0x21, .requestStart "https" "c" 443 "/" 1 1),
    (below 17 0x21, .requestStop 200),
    (below 18 0, .requestStop 200)]

theorem start_below_redirected_request_redirectedDownwards :
    (before redirectedDownwards 2).HasLeg "1/5" ∧
    JoinsLeg (before redirectedDownwards 2) (before redirectedDownwards 3) "1/5/2" "1/5"
      "https://b:443/" ⟨13⟩ ∧
    (before redirectedDownwards 4).HasLeg "1/5" ∧
    OpensApart (before redirectedDownwards 4) (before redirectedDownwards 5) "1/5/2/1"
      "https://c:443/" (some "1.1") ⟨15⟩ := by
  have hfirst : (before redirectedDownwards 2).HasLeg "1/5" := by decide +kernel
  have hsecond : (before redirectedDownwards 4).HasLeg "1/5" := by decide +kernel
  have hb : NetworkEvent.opening? (.requestStart "https" "b" 443 "/" 1 1) =
      some ("https://b:443/", some "1.1") := by decide +kernel
  have hc : NetworkEvent.opening? (.requestStart "https" "c" 443 "/" 1 1) =
      some ("https://c:443/", some "1.1") := by decide +kernel
  refine ⟨hfirst, ?_, hsecond, ?_⟩
  · obtain ⟨-, hjoins, -⟩ := start_below_redirected_request (redirectedDownwards.take 2)
      (c := below 13 0x20) hb (by decide +kernel) (by decide +kernel) (by decide +kernel) hfirst
    have hkey : (below 13 0x20).activityId.key = "1/5/2" := by decide +kernel
    rw [before_succ rfl, ← hkey]
    exact hjoins (by decide +kernel)
  · obtain ⟨-, -, hopens⟩ := start_below_redirected_request (redirectedDownwards.take 4)
      (c := below 15 0x21) hc (by decide +kernel) (by decide +kernel) (by decide +kernel) hsecond
    have hkey : (below 15 0x21).activityId.key = "1/5/2/1" := by decide +kernel
    rw [before_succ rfl, ← hkey]
    exact (hopens (by decide +kernel)).2

/-- Before the start under `1/5/2/1` the details of that activity belong to `1/5`; after it they do
not, and it is reported as a request of its own. -/
theorem start_splits_request :
    (before redirectedDownwards 4).resolve? (below 15 0x21).activityId = some "1/5" ∧
    (before redirectedDownwards 5).resolve? (below 15 0x21).activityId = some "1/5/2/1" ∧
    (before redirectedDownwards 4).openCount = 1 ∧ (before redirectedDownwards 5).openCount = 2 ∧
    (results redirectedDownwards).filterMap (·.map ClosedRequest.activity) =
      ["1/5/2/1", "1/5"] := by
  decide +kernel

end RequestTracker
end RuntimeTrace
