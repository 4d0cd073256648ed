import Mathlib.Data.Finset.Card
import Mathlib.Data.Finset.Dedup
import RuntimeTrace.Proofs.Run
import RuntimeTrace.Proofs.Symbols

/-!
# The first answer stands

Between two questions for an address anything may happen: methods are loaded that contain it,
and another resolver for native code is put in place.  None of this is seen at the second
question, which is answered as the first one was.  So a name is a matter of the moment at
which the address was asked for first, and `Called` says what it is then, in terms of the
inputs alone: the methods loaded so far, the resolver put in place last, the digits.  A resolver
whose answers change is one that is replaced between two questions.

A body may reach past the last address.  `Method.Covers` reckons its end as a number, which
does not wrap; the test that the library runs takes a difference instead, and agrees
(`Method.contains_iff`).

The answers that were not remembered are counted by `scans`.  Along a run it grows by the
addresses that are asked for and had no answer at the start of the run (`scans_after`), each
once, so from nothing it is the number of addresses that were asked for.

Main statement: `first_answer_stands`.
-/

namespace RuntimeTrace

namespace Method

/-- The address lies in the body, whose end is a number and may exceed every address. -/
def Covers (m : Method) (a : UInt64) : Prop :=
  m.start.toNat ≤ a.toNat ∧ a.toNat < m.start.toNat + m.size.toNat

instance (m : Method) (a : UInt64) : Decidable (m.Covers a) :=
  inferInstanceAs (Decidable (_ ∧ _))

theorem contains_iff (m : Method) (a : UInt64) : m.contains a = true ↔ m.Covers a := by
  rw [contains, Bool.and_eq_true, decide_eq_true_iff, decide_eq_true_iff, Covers]
  omega

end Method

/-- What is asked of the names of a process. -/
inductive SymbolsInput where
  /-- A method is loaded. -/
  | load (method : MethodLoad)
  /-- Another resolver for native code is put in place. -/
  | setNative (native : NativeNames)
  /-- The name of an address is asked for. -/
  | resolve (address : UInt64)

namespace SymbolsInput

/-- The method that an input makes known. -/
def method? : SymbolsInput → Option Method
  | .load method => some (.ofLoad method)
  | _ => none

/-- The resolver that an input puts in place. -/
def native? : SymbolsInput → Option NativeNames
  | .setNative native => some native
  | _ => none

/-- The address whose name is asked for. -/
def address? : SymbolsInput → Option UInt64
  | .resolve a => some a
  | _ => none

/-- The methods that some inputs make known, in the order they were loaded. -/
def loaded (inputs : List SymbolsInput) : List Method := inputs.filterMap method?

/-- The resolver in place after some inputs, in place of one that was there. -/
def resolverAfter (native : NativeNames) (inputs : List SymbolsInput) : NativeNames :=
  (inputs.filterMap native?).getLast?.getD native

/-- The addresses that are asked for. -/
def asked (inputs : List SymbolsInput) : List UInt64 := inputs.filterMap address?

end SymbolsInput

open SymbolsInput (loaded resolverAfter asked)

/-- **What an address is called after some inputs**: by the method loaded first among those that
cover it, else as the resolver has it, else by its digits. -/
inductive Called (inputs : List SymbolsInput) (a : UInt64) : String → Prop where
  | method {m : Method} {earlier later : List Method}
      (hmethods : loaded inputs = earlier ++ m :: later) (hcovers : m.Covers a)
      (hfirst : ∀ m' ∈ earlier, ¬ m'.Covers a) : Called inputs a m.fullName
  | native {name : String} (huncovered : ∀ m ∈ loaded inputs, ¬ m.Covers a)
      (hnative : resolverAfter (fun _ => none) inputs a = some name) : Called inputs a name
  | digits (huncovered : ∀ m ∈ loaded inputs, ¬ m.Covers a)
      (hunknown : resolverAfter (fun _ => none) inputs a = none) :
      Called inputs a ("0x" ++ String.ofList (Nat.toDigits 16 a.toNat))

namespace Symbols

/-- Takes in an input; gives the name that is asked for, if any. -/
def feed (s : Symbols) : SymbolsInput → Option String × Symbols
  | .load method => (none, s.addMethod (.ofLoad method))
  | .setNative native => (none, s.setNative native)
  | .resolve a => (some (s.resolve a).1, (s.resolve a).2)

variable {s : Symbols} {inputs : List SymbolsInput} {a : UInt64}

/-! ## What is known along a run -/

theorem methods_after (s : Symbols) (inputs : List SymbolsInput) :
    (Run.after feed s inputs).methods = s.methods ++ loaded inputs := by
  induction inputs generalizing s with
  | nil => exact (List.append_nil _).symm
  | cons x rest ih =>
    rw [Run.after_cons, ih]
    cases x with
    | load method => exact List.append_assoc s.methods [.ofLoad method] (loaded rest)
    | setNative native => rfl
    | resolve a => rw [feed, (s.known_resolve a).1]; rfl

theorem native_after (s : Symbols) (inputs : List SymbolsInput) :
    (Run.after feed s inputs).native = resolverAfter s.native inputs := by
  induction inputs generalizing s with
  | nil => rfl
  | cons x rest ih =>
    rw [Run.after_cons, ih]
    cases x with
    | load method => rfl
    | setNative native =>
      rw [resolverAfter, resolverAfter, List.filterMap_cons_some (by rfl), List.getLast?_cons]
      rfl
    | resolve a => rw [feed, (s.known_resolve a).2]; rfl

/-- **The name of an address by what is known** is what it is called. -/
theorem called_lookup (inputs : List SymbolsInput) (a : UInt64) :
    Called inputs a ((Run.after feed empty inputs).lookup a) := by
  rw [lookup, methods_after, native_after, show empty.methods = [] from rfl, List.nil_append]
  cases hfind : (loaded inputs).find? fun m => m.contains a with
  | some m =>
    obtain ⟨hcontains, earlier, later, hmethods, hfirst⟩ :=
      List.find?_eq_some_iff_append.mp hfind
    refine .method hmethods ((m.contains_iff a).mp hcontains) fun m' hm' hcovers => ?_
    have hnot := hfirst m' hm'
    rw [(m'.contains_iff a).mpr hcovers] at hnot
    exact absurd hnot (by simp)
  | none =>
    have huncovered : ∀ m ∈ loaded inputs, ¬ m.Covers a := fun m hm hcovers =>
      List.find?_eq_none.mp hfind m hm ((m.contains_iff a).mpr hcovers)
    cases hnative : resolverAfter empty.native inputs a with
    | some name => exact .native huncovered hnative
    | none => exact .digits huncovered hnative

/-! ## Answers along a run -/

/-- An answer stays through every input. -/
theorem get?_answers_feed {name : String} (h : s.answers.get? a = some name) (x : SymbolsInput) :
    (s.feed x).2.answers.get? a = some name := by
  cases x with
  | load method => exact h
  | setNative native => exact h
  | resolve b =>
    rw [feed, get?_answers_resolve]
    split
    · rename_i hab
      subst hab
      rw [resolve_fst, h, Option.getD_some]
    · exact h

theorem get?_answers_after {name : String} (h : s.answers.get? a = some name)
    (inputs : List SymbolsInput) : (Run.after feed s inputs).answers.get? a = some name := by
  induction inputs generalizing s with
  | nil => exact h
  | cons x rest ih => exact ih (get?_answers_feed h x)

/-- An address that is not asked for gets no answer. -/
theorem get?_answers_of_not_asked (h : s.answers.get? a = none) (hnot : a ∉ asked inputs) :
    (Run.after feed s inputs).answers.get? a = none := by
  induction inputs generalizing s with
  | nil => exact h
  | cons x rest ih =>
    rw [Run.after_cons]
    cases x with
    | load method => exact ih h hnot
    | setNative native => exact ih h hnot
    | resolve b =>
      rw [asked, List.filterMap_cons_some (by rfl), List.mem_cons, not_or] at hnot
      refine ih ?_ hnot.2
      rw [feed, get?_answers_resolve, if_neg hnot.1]
      exact h

/-- **Questions are counted once**: along a run, those for addresses that had no answer. -/
theorem scans_after (s : Symbols) (inputs : List SymbolsInput) :
    (Run.after feed s inputs).scans =
      s.scans + ((asked inputs).toFinset.filter fun a => s.answers.get? a = none).card := by
  induction inputs generalizing s with
  | nil => rfl
  | cons x rest ih =>
    rw [Run.after_cons, ih]
    cases x with
    | load method => rfl
    | setNative native => rfl
    | resolve b =>
      have hasked : (asked (.resolve b :: rest)).toFinset = insert b (asked rest).toFinset := by
        rw [asked, List.filterMap_cons_some (by rfl), List.toFinset_cons]
        rfl
      rw [hasked, Finset.filter_insert, feed]
      cases hb : s.answers.get? b with
      | some name =>
        have hsame : (s.resolve b).2 = s := by
          unfold resolve
          rw [hb]
        rw [hsame, if_neg (by simp)]
      | none =>
        -- the address has an answer from now on, and is not counted again
        have hrest : (asked rest).toFinset.filter
              (fun a => (s.resolve b).2.answers.get? a = none) =
            ((asked rest).toFinset.filter fun a => s.answers.get? a = none).erase b := by
          ext a
          rw [Finset.mem_filter, Finset.mem_erase, Finset.mem_filter, get?_answers_resolve]
          by_cases hab : a = b
          · simp [hab]
          · simp [hab]
        have hscans : (s.resolve b).2.scans = s.scans + 1 := by
          unfold resolve
          rw [hb]
        rw [if_pos rfl, hrest, hscans, ← Finset.card_erase_add_one (Finset.mem_insert_self b _),
          Finset.erase_insert_eq_erase]
        omega

/-! ## Positions of a trace -/

/-- The names after the first inputs of a trace. -/
def before (inputs : List SymbolsInput) (n : Nat) : Symbols :=
  Run.after feed empty (inputs.take n)

/-- What each input gives. -/
def answersTo (inputs : List SymbolsInput) : List (Option String) :=
  Run.outputs feed empty inputs

/-- Position `m` is the first to ask for an address. -/
structure FirstAsked (inputs : List SymbolsInput) (m : Nat) (a : UInt64) : Prop where
  asks : inputs[m]? = some (.resolve a)
  first : ∀ k, k < m → inputs[k]? ≠ some (.resolve a)

theorem exists_firstAsked {n : Nat} (h : inputs[n]? = some (.resolve a)) :
    ∃ m, m ≤ n ∧ FirstAsked inputs m a := by
  induction n using Nat.strongRecOn with
  | ind n ih =>
    by_cases hearlier : ∃ k, k < n ∧ inputs[k]? = some (.resolve a)
    · obtain ⟨k, hkn, hk⟩ := hearlier
      obtain ⟨m, hmk, hfirst⟩ := ih k hkn hk
      exact ⟨m, Nat.le_trans hmk (Nat.le_of_lt hkn), hfirst⟩
    · exact ⟨n, Nat.le_refl n, h, fun k hkn hk => hearlier ⟨k, hkn, hk⟩⟩

theorem getElem?_answersTo {n : Nat} (h : inputs[n]? = some (.resolve a)) :
    (answersTo inputs)[n]? = some (some ((before inputs n).resolve a).1) := by
  rw [answersTo, Run.getElem?_outputs, h]
  rfl

/-- The first question is answered by what is known then, and the answer is kept. -/
theorem FirstAsked.answer {m : Nat} (h : FirstAsked inputs m a) :
    ((before inputs m).resolve a).1 = (before inputs m).lookup a ∧
      (before inputs (m + 1)).answers.get? a = some ((before inputs m).lookup a) := by
  have hnot : a ∉ asked (inputs.take m) := by
    intro hasked
    obtain ⟨x, hx, haddress⟩ := List.mem_filterMap.mp hasked
    obtain ⟨k, hk⟩ := List.getElem?_of_mem hx
    cases x with
    | load method => exact absurd haddress (by simp [SymbolsInput.address?])
    | setNative native => exact absurd haddress (by simp [SymbolsInput.address?])
    | resolve b =>
      obtain rfl : b = a := Option.some.inj haddress
      have hkm : k < m := by
        have hlt := (List.getElem?_eq_some_iff.mp hk).1
        rw [List.length_take] at hlt
        omega
      exact h.first k hkm ((List.getElem?_take_of_lt hkm).symm.trans hk)
  have hnone : (before inputs m).answers.get? a = none :=
    get?_answers_of_not_asked (Table.get?_empty a) hnot
  have hanswer : ((before inputs m).resolve a).1 = (before inputs m).lookup a := by
    rw [resolve_fst, hnone, Option.getD_none]
  refine ⟨hanswer, ?_⟩
  rw [before, Run.after_take_succ feed empty h.asks, ← before, feed, get?_answers_resolve,
    if_pos rfl, hanswer]

/-- **The first answer stands.**  In every sequence of loads, changes of the resolver and
questions, a question for an address is answered as the first one for it was, and that with what
the address was called by the inputs before: by the method loaded first among those that cover
it, else as the resolver then in place had it, else by its lowercase digits.  And the lookups that
were made are at every point as many as the addresses asked for so far. -/
theorem first_answer_stands (inputs : List SymbolsInput) :
    (∀ n a, inputs[n]? = some (.resolve a) →
      ∃ m name, m ≤ n ∧ FirstAsked inputs m a ∧ Called (inputs.take m) a name ∧
        (answersTo inputs)[m]? = some (some name) ∧ (answersTo inputs)[n]? = some (some name)) ∧
    ∀ n, (before inputs n).scans = (asked (inputs.take n)).toFinset.card := by
  constructor
  · intro n a hn
    obtain ⟨m, hmn, hfirst⟩ := exists_firstAsked hn
    obtain ⟨hanswer, hkept⟩ := hfirst.answer
    refine ⟨m, (before inputs m).lookup a, hmn, hfirst, called_lookup _ a, ?_, ?_⟩
    · rw [getElem?_answersTo hfirst.asks, hanswer]
    · rw [getElem?_answersTo hn]
      rcases Nat.lt_or_eq_of_le hmn with hlt | rfl
      · -- what is after position `m` is a run from there on, through which the answer stays
        have hsplit := List.take_append_drop (m + 1) (inputs.take n)
        rw [List.take_take, Nat.min_eq_left hlt] at hsplit
        have hlater : (before inputs n).answers.get? a = some ((before inputs m).lookup a) := by
          rw [before, ← hsplit, Run.after_append]
          exact get?_answers_after hkept _
        rw [resolve_fst, hlater, Option.getD_some]
      · rw [hanswer]
  · intro n
    rw [before, scans_after]
    have hall : (asked (inputs.take n)).toFinset.filter
        (fun a => empty.answers.get? a = none) = (asked (inputs.take n)).toFinset :=
      Finset.filter_true_of_mem fun a _ => Table.get?_empty a
    rw [hall]
    exact Nat.zero_add _

/-- A method that is loaded too late names only the addresses that were not asked for; one whose
body reaches past the last address names the last one. -/
theorem first_answer_stands_lateLoad :
    let load (start : UInt64) (size : UInt32) (name : String) : SymbolsInput :=
      .load ⟨start, size, "T", name, "void  ()"⟩
    let inputs : List SymbolsInput :=
      [.resolve 16, load 16 4 "late", .resolve 16, .resolve 17,
        .setNative fun a => if a = 99 then some "n" else none, .resolve 99,
        load 0xfffffffffffffff0 64 "high", .resolve 0xffffffffffffffff, .resolve 15]
    (answersTo inputs).filterMap id =
        ["0x10", "0x10", "T.late()", "n", "T.high()", "0xf"] ∧
      (∃ m ≤ 2, FirstAsked inputs m 16 ∧ Called (inputs.take m) 16 "0x10" ∧
        (answersTo inputs)[m]? = some (some "0x10")) ∧
      (∃ m ≤ 7, FirstAsked inputs m 0xffffffffffffffff ∧
        Called (inputs.take m) 0xffffffffffffffff "T.high()" ∧
        (answersTo inputs)[m]? = some (some "T.high()")) ∧
      (before inputs 9).scans = 5 ∧
      (before inputs 9).scans = (asked (inputs.take 9)).toFinset.card := by
  intro load inputs
  have hanswers : (answersTo inputs).filterMap id =
      ["0x10", "0x10", "T.late()", "n", "T.high()", "0xf"] := by decide +kernel
  have hsecond : (answersTo inputs)[2]? = some (some "0x10") := by decide +kernel
  have hhigh : (answersTo inputs)[7]? = some (some "T.high()") := by decide +kernel
  obtain ⟨hfirst, hscans⟩ := first_answer_stands inputs
  obtain ⟨m, name, hm, hasked, hcalled, hanswer, hsame⟩ := hfirst 2 16 rfl
  obtain ⟨m', name', hm', hasked', hcalled', hanswer', hsame'⟩ := hfirst 7 0xffffffffffffffff rfl
  obtain rfl : name = "0x10" := by simpa [hsecond] using hsame.symm
  obtain rfl : name' = "T.high()" := by simpa [hhigh] using hsame'.symm
  exact ⟨hanswers, ⟨m, hm, hasked, hcalled, hanswer⟩, ⟨m', hm', hasked', hcalled', hanswer'⟩,
    by decide +kernel, hscans 9⟩

end Symbols
end RuntimeTrace
