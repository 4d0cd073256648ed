import RuntimeTrace.Proofs.Table
import RuntimeTrace.Symbols

/-!
# Names given to addresses

A name is an answer, and an answer is kept.  So what an address is called is a matter of
two things, the answers given so far and, where there is none, what is known now
(`resolve_fst`).

Asking changes the first only, and only for the address that is asked for.  It follows that
the addresses of a stack do not disturb each other: each is called what it would be called
if it were asked for alone (`fst_frames`), and afterwards has an answer
(`get?_answers_frames`).
-/

namespace RuntimeTrace
namespace Symbols

/-- **What an address is called**: what it was called before, else what is known now. -/
theorem resolve_fst (s : Symbols) (a : UInt64) :
    (s.resolve a).1 = (s.answers.get? a).getD (s.lookup a) := by
  unfold resolve
  cases h : s.answers.get? a with
  | some name => rfl
  | none => rfl

/-- Asking makes no method known and none unknown. -/
theorem known_resolve (s : Symbols) (a : UInt64) :
    (s.resolve a).2.methods = s.methods ∧ (s.resolve a).2.native = s.native := by
  unfold resolve
  split
  · exact ⟨rfl, rfl⟩
  · exact ⟨rfl, rfl⟩

/-- **Asking gives one address an answer.** -/
theorem get?_answers_resolve (s : Symbols) (a b : UInt64) :
    (s.resolve a).2.answers.get? b =
      if b = a then some (s.resolve a).1 else s.answers.get? b := by
  unfold resolve
  split
  · rename_i name h
    by_cases hb : b = a
    · rw [if_pos hb, hb, h]
    · rw [if_neg hb]
  · exact Table.get?_insert s.answers a b (s.lookup a)

/-- What is known now is all that a name without an answer depends on. -/
theorem lookup_congr {s t : Symbols} (hmethods : s.methods = t.methods)
    (hnative : s.native = t.native) (a : UInt64) : s.lookup a = t.lookup a := by
  rw [lookup, hmethods, hnative, lookup]

/-- **Asking for one address does not change what another is called**, nor what the same
one is called when it is asked for again. -/
theorem resolve_resolve_fst (s : Symbols) (a b : UInt64) :
    ((s.resolve a).2.resolve b).1 = (s.resolve b).1 := by
  obtain ⟨hmethods, hnative⟩ := s.known_resolve a
  rw [resolve_fst, get?_answers_resolve, lookup_congr hmethods hnative]
  by_cases hb : b = a
  · rw [if_pos hb, hb, Option.getD_some]
  · rw [if_neg hb, resolve_fst]

theorem frames_cons (s : Symbols) (a : UInt64) (rest : List UInt64) :
    s.frames (a :: rest) =
      (⟨a, (s.resolve a).1⟩ :: ((s.resolve a).2.frames rest).1,
        ((s.resolve a).2.frames rest).2) := rfl

/-- **The frames of a stack** are its addresses, each under the name it has on its own. -/
theorem fst_frames (s : Symbols) (addresses : List UInt64) :
    (s.frames addresses).1 = addresses.map fun a => ⟨a, (s.resolve a).1⟩ := by
  induction addresses generalizing s with
  | nil => rfl
  | cons a rest ih =>
    rw [frames_cons, ih, List.map_cons]
    simp only [resolve_resolve_fst]

theorem known_frames (s : Symbols) (addresses : List UInt64) :
    (s.frames addresses).2.methods = s.methods ∧ (s.frames addresses).2.native = s.native := by
  induction addresses generalizing s with
  | nil => exact ⟨rfl, rfl⟩
  | cons a rest ih =>
    obtain ⟨hmethods, hnative⟩ := ih (s.resolve a).2
    rw [frames_cons, hmethods, hnative]
    exact s.known_resolve a

/-- Naming a stack gives answers to its addresses and to no other. -/
theorem get?_answers_frames (s : Symbols) (addresses : List UInt64) (b : UInt64) :
    (s.frames addresses).2.answers.get? b =
      if b ∈ addresses then some (s.resolve b).1 else s.answers.get? b := by
  induction addresses generalizing s with
  | nil => rfl
  | cons a rest ih =>
    rw [frames_cons, ih, resolve_resolve_fst, get?_answers_resolve]
    by_cases hrest : b ∈ rest
    · rw [if_pos hrest, if_pos (List.mem_cons_of_mem a hrest)]
    · rw [if_neg hrest]
      by_cases hb : b = a
      · rw [if_pos hb, if_pos (hb ▸ List.mem_cons_self), hb]
      · rw [if_neg hb, if_neg fun h => (List.mem_cons.mp h).elim hb hrest]

end Symbols
end RuntimeTrace
