import Mathlib.Order.Bounds.Basic
import RuntimeTrace.Proofs.Text.Utf8
import RuntimeTrace.Recording.Lines

/-!
# The first bad line

A recording is read line by line, and reading stops at the first line that cannot be used.
There are two ways to be such a line: it is not text, or it is text that is neither blank nor a
comment nor a record.  What is reported is decided by the first bad line alone, and of the lines
before it nothing is kept (`readLines_of_sound`, `readLines_of_fault`).

The lines of the reader are not quite those an editor shows.  It cuts bytes, takes endings off
and decodes what is left, and makes no line of nothing behind the last line feed.  An editor
shows the pieces of the text between line feeds.  The two differ in carriage returns, which are
blanks and are trimmed away, and in a blank line at the end; so the recording is read as if its
lines were the pieces (`readTrace_linesOfBytes`), and everything below is said of these.

Main statement: `first_malformed_line_reported`.
-/

namespace RuntimeTrace

open Recording

namespace Record

/-! ## One line -/

/-- A line with nothing on it but blanks, or a comment. -/
def Skipped (line : List Char) : Prop :=
  Text.trimChars line = [] ∨ (Text.trimChars line).head? = some '#'

instance (line : List Char) : Decidable (Skipped line) :=
  inferInstanceAs (Decidable (_ ∨ _))

/-- The record on a line that is not skipped. -/
def recordOf? (line : List Char) : Option Record :=
  if Skipped line then none
  else (Json.parse (String.ofList (Text.trimChars line))).bind ofJson?

/-- A line that should hold a record and does not. -/
def Malformed (line : List Char) : Prop := ¬ Skipped line ∧ recordOf? line = none

theorem isSkipped_iff (line : List Char) :
    isSkipped (Text.trimChars line) = true ↔ Skipped line := by
  unfold Skipped
  cases Text.trimChars line with
  | nil => simp [isSkipped]
  | cons c rest => simp [isSkipped]

/-- What a line is read as. -/
theorem ofLine_ofList (line : List Char) (number : Nat) :
    (¬ Malformed line → ofLine (String.ofList line) number = .ok (recordOf? line)) ∧
      (Malformed line → ofLine (String.ofList line) number = .error (.invalidRecord number)) := by
  have htrim : Text.trim (String.ofList line) = String.ofList (Text.trimChars line) := by
    rw [Text.trim, String.toList_ofList]
  rw [ofLine, htrim, String.toList_ofList]
  by_cases hskipped : Skipped line
  · rw [if_pos ((isSkipped_iff line).mpr hskipped), recordOf?, if_pos hskipped]
    exact ⟨fun _ => rfl, fun h => absurd hskipped h.1⟩
  · rw [if_neg (mt (isSkipped_iff line).mp hskipped)]
    have hrecord : recordOf? line =
        (Json.parse (String.ofList (Text.trimChars line))).bind ofJson? := if_neg hskipped
    rw [← hrecord]
    cases h : recordOf? line with
    | none => exact ⟨fun hsound => absurd ⟨hskipped, h⟩ hsound, fun _ => rfl⟩
    | some record => exact ⟨fun _ => rfl, fun hbad => absurd (h.symm.trans hbad.2) nofun⟩

end Record

/-! ## Numbered lines -/

namespace Recording

section Numbers

variable {α : Type} {kind : α → Prop} {before after : List α} {line : α} {n : Nat}

/-- The line with this number, counted from 1, is of a kind. -/
def LineAt (kind : α → Prop) (lines : List α) (n : Nat) : Prop :=
  ∃ i line, n = i + 1 ∧ lines[i]? = some line ∧ kind line

theorem lineAt_map {β : Type} (kind : β → Prop) (g : α → β) (lines : List α) (n : Nat) :
    LineAt kind (lines.map g) n ↔ LineAt (fun a => kind (g a)) lines n := by
  simp only [LineAt, List.getElem?_map, Option.map_eq_some_iff]
  constructor
  · rintro ⟨i, _, hn, ⟨line, hline, rfl⟩, hkind⟩
    exact ⟨i, line, hn, hline, hkind⟩
  · rintro ⟨i, line, hn, hline, hkind⟩
    exact ⟨i, g line, hn, ⟨line, hline, rfl⟩, hkind⟩

theorem lineAt_append_cons :
    LineAt kind (before ++ line :: after) (before.length + 1) ↔ kind line := by
  constructor
  · rintro ⟨i, found, hn, hfound, hkind⟩
    obtain rfl := Nat.succ.inj hn
    rw [List.getElem?_append_right (Nat.le_refl _), Nat.sub_self] at hfound
    rwa [Option.some.inj hfound]
  · intro hkind
    refine ⟨before.length, line, rfl, ?_, hkind⟩
    rw [List.getElem?_append_right (Nat.le_refl _), Nat.sub_self]
    rfl

/-- The lines with smaller numbers are those before. -/
theorem forall_lt_not_lineAt_iff :
    (∀ k < before.length + 1, ¬ LineAt kind (before ++ line :: after) k) ↔
      ∀ l ∈ before, ¬ kind l := by
  constructor
  · intro h l hl hkind
    obtain ⟨i, hi, rfl⟩ := List.mem_iff_getElem.mp hl
    refine h (i + 1) (Nat.succ_lt_succ hi) ⟨i, before[i], rfl, ?_, hkind⟩
    rw [List.getElem?_append_left hi, List.getElem?_eq_getElem hi]
  · rintro h k hk ⟨i, l, rfl, hl, hkind⟩
    rw [List.getElem?_append_left (Nat.lt_of_succ_lt_succ hk)] at hl
    exact h l (List.mem_of_getElem? hl) hkind

/-- A line of a kind has lines before it and behind it. -/
theorem LineAt.exists_append {lines : List α} (h : LineAt kind lines n) :
    ∃ before line after, lines = before ++ line :: after ∧ n = before.length + 1 ∧ kind line := by
  obtain ⟨i, line, rfl, hline, hkind⟩ := h
  obtain ⟨hi, rfl⟩ := List.getElem?_eq_some_iff.mp hline
  refine ⟨lines.take i, lines[i], lines.drop (i + 1), ?_, ?_, hkind⟩
  · rw [← List.drop_eq_getElem_cons hi, List.take_append_drop]
  · rw [List.length_take, Nat.min_eq_left (Nat.le_of_lt hi)]

/-- **The first line of a kind**, with no line of the other kind before it: where its number is
the least, the lines before it are of neither kind. -/
theorem isLeast_lineAt_iff {other : α → Prop} {lines : List α} :
    (IsLeast {m | LineAt kind lines m} n ∧ ∀ m < n, ¬ LineAt other lines m) ↔
      ∃ before line after, lines = before ++ line :: after ∧ n = before.length + 1 ∧ kind line ∧
        ∀ l ∈ before, ¬ kind l ∧ ¬ other l := by
  constructor
  · rintro ⟨⟨hn, hleast⟩, hother⟩
    obtain ⟨before, line, after, rfl, rfl, hkind⟩ := LineAt.exists_append hn
    have hnone : ∀ m < before.length + 1, ¬ LineAt kind (before ++ line :: after) m :=
      fun m hm h => Nat.not_lt_of_le (hleast h) hm
    rw [forall_lt_not_lineAt_iff] at hnone hother
    exact ⟨before, line, after, rfl, rfl, hkind, fun l hl => ⟨hnone l hl, hother l hl⟩⟩
  · rintro ⟨before, line, after, rfl, rfl, hkind, hnone⟩
    refine ⟨⟨lineAt_append_cons.mpr hkind, fun m h => Nat.le_of_not_lt fun hm => ?_⟩,
      forall_lt_not_lineAt_iff.mpr fun l hl => (hnone l hl).2⟩
    exact forall_lt_not_lineAt_iff.mpr (fun l hl => (hnone l hl).1) m hm h

end Numbers

namespace Line

/-- A line of text that should hold a record and does not. -/
def IsMalformed : Line → Prop
  | .text s => Record.Malformed s.toList
  | .undecodable _ => False

/-- A line that is not text. -/
def IsUndecodable : Line → Prop
  | .text _ => False
  | .undecodable _ => True

/-- The record on a line. -/
def record? : Line → Option Record
  | .text s => Record.recordOf? s.toList
  | .undecodable _ => none

/-- A line that reading goes past. -/
def Sound (line : Line) : Prop := ¬ line.IsMalformed ∧ ¬ line.IsUndecodable

/-- What a line is read as. -/
def reading : Line → Nat → Except RecordingError (Option Record)
  | .text s, number => Record.ofLine s number
  | .undecodable _, _ => .error .readFailed

theorem reading_of_sound {line : Line} (h : line.Sound) (number : Nat) :
    line.reading number = .ok line.record? := by
  cases line with
  | text s =>
    have hread := (Record.ofLine_ofList s.toList number).1 h.1
    rwa [String.ofList_toList] at hread
  | undecodable fault => exact absurd trivial h.2

theorem reading_eq_invalidRecord_iff {line : Line} {number n : Nat} :
    line.reading number = .error (.invalidRecord n) ↔ n = number ∧ line.IsMalformed := by
  cases line with
  | text s =>
    have hread := Record.ofLine_ofList s.toList number
    rw [String.ofList_toList] at hread
    rw [reading, IsMalformed]
    by_cases h : Record.Malformed s.toList
    · rw [hread.2 h, Except.error.injEq, RecordingError.invalidRecord.injEq, eq_comm]
      exact (and_iff_left h).symm
    · rw [hread.1 h]
      exact ⟨fun heq => (nomatch heq), fun hbad => absurd hbad.2 h⟩
  | undecodable fault => exact ⟨fun heq => (nomatch heq), fun hbad => absurd hbad.2 id⟩

theorem reading_eq_readFailed_iff {line : Line} {number : Nat} :
    line.reading number = .error .readFailed ↔ line.IsUndecodable := by
  cases line with
  | text s =>
    have hread := Record.ofLine_ofList s.toList number
    rw [String.ofList_toList] at hread
    refine ⟨fun heq => ?_, fun h => absurd h id⟩
    rw [reading] at heq
    by_cases h : Record.Malformed s.toList
    · exact nomatch (hread.2 h).symm.trans heq
    · exact nomatch (hread.1 h).symm.trans heq
  | undecodable fault => exact iff_of_true rfl trivial

/-- A line that is not sound is read as an error. -/
theorem exists_reading_of_not_sound {line : Line} (h : ¬ line.Sound) (number : Nat) :
    ∃ e, line.reading number = .error e := by
  rw [Sound, not_and_or, not_not, not_not] at h
  rcases h with h | h
  · exact ⟨_, reading_eq_invalidRecord_iff.mpr ⟨rfl, h⟩⟩
  · exact ⟨_, reading_eq_readFailed_iff.mpr h⟩

end Line

end Recording

/-! ## All lines -/

namespace Record

theorem readLines_cons (number : Nat) (line : Line) (lines : List Line) :
    readLines number (line :: lines) =
      (line.reading number).bind fun record? =>
        (readLines (number + 1) lines).map (record?.toList ++ ·) := by
  cases line with
  | text s =>
    rw [readLines, Line.reading]
    cases ofLine s number with
    | error e => rfl
    | ok record? => cases readLines (number + 1) lines <;> rfl
  | undecodable fault => rfl

/-- **Sound lines give their records.** -/
theorem readLines_of_sound {lines : List Line} (h : ∀ line ∈ lines, line.Sound) (number : Nat) :
    readLines number lines = .ok (lines.filterMap Line.record?) := by
  induction lines generalizing number with
  | nil => rfl
  | cons line lines ih =>
    rw [List.forall_mem_cons] at h
    rw [readLines_cons, Line.reading_of_sound h.1, ih h.2, List.filterMap_cons]
    cases line.record? <;> rfl

/-- **The first line that fails decides**, and it fails with its number. -/
theorem readLines_of_fault {before : List Line} (h : ∀ line ∈ before, line.Sound) {bad : Line}
    {number : Nat} {e : RecordingError} (hbad : bad.reading (number + before.length) = .error e)
    (after : List Line) : readLines number (before ++ bad :: after) = .error e := by
  induction before generalizing number with
  | nil =>
    rw [List.nil_append, readLines_cons]
    rw [List.length_nil, Nat.add_zero] at hbad
    rw [hbad]
    rfl
  | cons line before ih =>
    rw [List.forall_mem_cons] at h
    rw [List.length_cons, Nat.add_comm before.length, ← Nat.add_assoc] at hbad
    rw [List.cons_append, readLines_cons, Line.reading_of_sound h.1, ih h.2 hbad]
    rfl

variable {lines : List Line} {n : Nat}

/-- If not all lines are sound, the first that is not decides. -/
theorem exists_fault (h : ¬ ∀ line ∈ lines, line.Sound) :
    ∃ (before : List Line) (bad : Line) (after : List Line) (e : RecordingError),
      lines = before ++ bad :: after ∧ (∀ line ∈ before, line.Sound) ∧
        bad.reading (before.length + 1) = .error e ∧ readTrace lines = .error e := by
  obtain ⟨before, bad, after, rfl, hbefore, hbad⟩ := Text.exists_first h
  obtain ⟨e, he⟩ := Line.exists_reading_of_not_sound hbad (before.length + 1)
  exact ⟨before, bad, after, e, rfl, hbefore, he,
    readLines_of_fault hbefore (by rwa [Nat.add_comm]) after⟩

/-- All records are read exactly where all lines are sound. -/
theorem readTrace_eq_ok_iff {records : List Record} :
    readTrace lines = .ok records ↔
      (∀ line ∈ lines, line.Sound) ∧ records = lines.filterMap Line.record? := by
  constructor
  · intro h
    by_cases hsound : ∀ line ∈ lines, line.Sound
    · exact ⟨hsound, Except.ok.inj (h.symm.trans (readLines_of_sound hsound 1))⟩
    · obtain ⟨_, _, _, e, -, -, -, he⟩ := exists_fault hsound
      exact nomatch he.symm.trans h
  · rintro ⟨hsound, rfl⟩
    exact readLines_of_sound hsound 1

/-- Reading ends in an error exactly where the first line that is not sound gives it. -/
theorem readTrace_eq_error_iff {e : RecordingError} :
    readTrace lines = .error e ↔
      ∃ (before : List Line) (bad : Line) (after : List Line),
        lines = before ++ bad :: after ∧ (∀ line ∈ before, line.Sound) ∧
          bad.reading (before.length + 1) = .error e := by
  constructor
  · intro h
    have hbad : ¬ ∀ line ∈ lines, line.Sound :=
      fun hsound => nomatch (readLines_of_sound hsound 1).symm.trans h
    obtain ⟨before, bad, after, e', hlines, hbefore, he', hread⟩ := exists_fault hbad
    obtain rfl := Except.error.inj (hread.symm.trans h)
    exact ⟨before, bad, after, hlines, hbefore, he'⟩
  · rintro ⟨before, bad, after, rfl, hsound, hbad⟩
    exact readLines_of_fault hsound (by rwa [Nat.add_comm]) after

/-- A line is reported as no record exactly when it is the first malformed one, and every line
before it is text. -/
theorem readTrace_eq_invalidRecord_iff :
    readTrace lines = .error (.invalidRecord n) ↔
      IsLeast {m | LineAt Line.IsMalformed lines m} n ∧
        ∀ k < n, ¬ LineAt Line.IsUndecodable lines k := by
  rw [readTrace_eq_error_iff, isLeast_lineAt_iff]
  simp only [Line.reading_eq_invalidRecord_iff]
  constructor
  · rintro ⟨before, bad, after, rfl, hsound, hn, hbad⟩
    exact ⟨before, bad, after, rfl, hn, hbad, hsound⟩
  · rintro ⟨before, bad, after, rfl, hn, hbad, hsound⟩
    exact ⟨before, bad, after, rfl, hsound, hn, hbad⟩

/-- Reading fails exactly when some line is not text, and no line before the first such line is
malformed. -/
theorem readTrace_eq_readFailed_iff :
    readTrace lines = .error .readFailed ↔
      ∃ k, IsLeast {m | LineAt Line.IsUndecodable lines m} k ∧
        ∀ m < k, ¬ LineAt Line.IsMalformed lines m := by
  rw [readTrace_eq_error_iff]
  simp only [isLeast_lineAt_iff, Line.reading_eq_readFailed_iff]
  constructor
  · rintro ⟨before, bad, after, rfl, hsound, hbad⟩
    exact ⟨_, before, bad, after, rfl, rfl, hbad, fun line hl => (hsound line hl).symm⟩
  · rintro ⟨_, before, bad, after, rfl, rfl, hbad, hsound⟩
    exact ⟨before, bad, after, rfl, fun line hl => (hsound line hl).symm, hbad⟩

end Record

/-! ## Lines and pieces -/

namespace Recording

/-- Two lines that are read alike, whatever their number. -/
def Line.Alike (a b : Line) : Prop := ∀ number, a.reading number = b.reading number

theorem alike_of_trim_eq {s t : String} (h : Text.trim s = Text.trim t) :
    Line.Alike (.text s) (.text t) := by
  intro number
  rw [Line.reading, Line.reading, Record.ofLine, Record.ofLine, h]

theorem readLines_congr {as bs : List Line} (h : List.Forall₂ Line.Alike as bs) (number : Nat) :
    Record.readLines number as = Record.readLines number bs := by
  induction h generalizing number with
  | nil => rfl
  | cons hline hlines ih =>
    rw [Record.readLines_cons, Record.readLines_cons, hline, ih]

/-- A blank line at the end says nothing. -/
theorem readLines_append_blank (lines : List Line) (number : Nat) :
    Record.readLines number (lines ++ [.text ""]) = Record.readLines number lines := by
  induction lines generalizing number with
  | nil => rfl
  | cons line lines ih =>
    rw [List.cons_append, Record.readLines_cons, Record.readLines_cons, ih]

/-- **The lines of a recording may be taken for the pieces** between its line feeds, if a carriage
return at the end of a line does not matter and an empty line is blank. -/
theorem readTrace_lines {α : Type} [DecidableEq α] {feed carriage : α} {read : List α → Line}
    (hcarriage : ∀ line, Line.Alike (read line) (read (line ++ [carriage])))
    (hblank : read [] = .text "") (as : List α) :
    Record.readTrace ((Text.cutAfter feed as).map fun l => read (Text.dropEnding feed carriage l)) =
      Record.readTrace ((as.splitOn feed).map read) := by
  obtain ⟨pieces, last, hsplit, hlast, hlines⟩ := Text.forall₂_lines feed carriage as
  rw [List.forall₂_map_left_iff] at hlines
  have hread : List.Forall₂ Line.Alike
      ((Text.cutAfter feed as).map fun l => read (Text.dropEnding feed carriage l))
      (pieces.map read) := by
    rw [List.forall₂_map_left_iff, List.forall₂_map_right_iff]
    refine hlines.imp fun line piece hpiece => ?_
    rcases hpiece with rfl | rfl
    · exact fun _ => rfl
    · exact hcarriage _
  rw [Record.readTrace, readLines_congr hread, hsplit, List.map_append]
  rcases hlast with rfl | rfl
  · rw [List.map_nil, List.append_nil]
    rfl
  · rw [List.map_singleton, hblank]
    exact (readLines_append_blank _ 1).symm

/-- A line of characters. -/
def textLine (cs : List Char) : Line := .text (String.ofList cs)

theorem alike_textLine_carriageReturn (cs : List Char) :
    Line.Alike (textLine cs) (textLine (cs ++ ['\r'])) := by
  apply alike_of_trim_eq
  rw [Text.trim, Text.trim, String.toList_ofList, String.toList_ofList,
    Text.trimChars_append_of_blank cs (by decide)]

/-- A line of bytes. -/
def decodedLine (bytes : List UInt8) : Line :=
  match Utf8.decode bytes with
  | .ok cs => textLine cs
  | .error fault => .undecodable fault

/-- No text has these bytes. -/
def NotText (line : List UInt8) : Prop := ∀ text : String, Utf8.bytesOf text ≠ line

theorem decodedLine_bytesOf (text : String) : decodedLine (Utf8.bytesOf text) = .text text := by
  rw [decodedLine, Utf8.decode_eq_ok_iff.mpr (Utf8.bytesOf_eq text)]
  exact congrArg Line.text String.ofList_toList

theorem decodedLine_of_notText {line : List UInt8} (h : NotText line) :
    ∃ fault, decodedLine line = .undecodable fault := by
  cases hdecode : Utf8.decode line with
  | ok cs =>
    refine absurd ?_ (h (String.ofList cs))
    rw [Utf8.bytesOf_eq, String.toList_ofList]
    exact (Utf8.decode_eq_ok_iff.mp hdecode).symm
  | error fault =>
    refine ⟨fault, ?_⟩
    rw [decodedLine, hdecode]

/-- A carriage return at the end of a line neither mends nor breaks it. -/
theorem alike_decodedLine_carriageReturn (line : List UInt8) :
    Line.Alike (decodedLine line) (decodedLine (line ++ [carriageReturn])) := by
  have hreturn {cs : List Char} : line ++ [carriageReturn] = Utf8.encode cs ↔
      ∃ as, cs = as ++ ['\r'] ∧ line = Utf8.encode as :=
    Utf8.append_singleton_eq_encode_iff (by decide)
  by_cases h : NotText line
  · obtain ⟨fault, hline⟩ := decodedLine_of_notText h
    have hlonger : NotText (line ++ [carriageReturn]) := by
      intro text htext
      obtain ⟨as, -, hline⟩ := hreturn.mp (htext.symm.trans (Utf8.bytesOf_eq text))
      refine h (String.ofList as) ?_
      rw [Utf8.bytesOf_eq, String.toList_ofList, hline]
      rfl
    obtain ⟨fault', hlonger⟩ := decodedLine_of_notText hlonger
    rw [hline, hlonger]
    exact fun _ => rfl
  · obtain ⟨text, htext⟩ := not_forall.mp h
    obtain rfl := not_not.mp htext
    have hlonger : Utf8.bytesOf text ++ [carriageReturn] =
        Utf8.bytesOf (String.ofList (text.toList ++ ['\r'])) := by
      rw [Utf8.bytesOf_eq (String.ofList _), String.toList_ofList]
      exact hreturn.mpr ⟨text.toList, rfl, Utf8.bytesOf_eq text⟩
    rw [hlonger, decodedLine_bytesOf, decodedLine_bytesOf]
    have halike := alike_textLine_carriageReturn text.toList
    rwa [textLine, String.ofList_toList] at halike

/-- **A recording is read by the pieces between its line feeds.** -/
theorem readTrace_linesOfBytes (bytes : List UInt8) :
    Record.readTrace (linesOfBytes bytes) =
      Record.readTrace ((bytes.splitOn lineFeed).map decodedLine) :=
  readTrace_lines alike_decodedLine_carriageReturn (decodedLine_bytesOf "") bytes

/-- A text is read alike as text and as bytes, and by its own pieces. -/
theorem readTrace_bytesOf (text : String) :
    Record.readTrace (linesOfBytes (Utf8.bytesOf text)) =
      Record.readTrace ((text.toList.splitOn '\n').map textLine) := by
  have hpieces : (Utf8.bytesOf text).splitOn lineFeed =
      (text.toList.splitOn '\n').map Utf8.encode := by
    rw [Utf8.bytesOf_eq]
    exact Utf8.splitOn_encode (by decide) text.toList
  rw [readTrace_linesOfBytes, hpieces, List.map_map]
  congr 2
  funext cs
  have hline := decodedLine_bytesOf (String.ofList cs)
  rwa [Utf8.bytesOf_eq, String.toList_ofList] at hline

theorem readTrace_linesOfText (text : String) :
    Record.readTrace (linesOfText text) =
      Record.readTrace ((text.toList.splitOn '\n').map textLine) := by
  rw [linesOfText, Text.lines, List.map_map]
  exact readTrace_lines alike_textLine_carriageReturn rfl text.toList

/-! ## What is reported -/

/-- These are the bytes of a malformed line. -/
def MalformedText (line : List UInt8) : Prop :=
  ∃ text : String, Utf8.bytesOf text = line ∧ Record.Malformed text.toList

theorem isUndecodable_decodedLine_iff (line : List UInt8) :
    (decodedLine line).IsUndecodable ↔ NotText line := by
  constructor
  · rintro h text rfl
    rw [decodedLine_bytesOf] at h
    exact h
  · intro h
    obtain ⟨fault, hline⟩ := decodedLine_of_notText h
    rw [hline]
    exact trivial

theorem isMalformed_decodedLine_iff (line : List UInt8) :
    (decodedLine line).IsMalformed ↔ MalformedText line := by
  constructor
  · intro h
    by_cases hline : NotText line
    · obtain ⟨fault, hread⟩ := decodedLine_of_notText hline
      rw [hread] at h
      exact absurd h id
    · obtain ⟨text, htext⟩ := not_forall.mp hline
      obtain rfl := not_not.mp htext
      rw [decodedLine_bytesOf] at h
      exact ⟨text, rfl, h⟩
  · rintro ⟨text, rfl, h⟩
    rw [decodedLine_bytesOf]
    exact h

theorem isMalformed_textLine_iff (line : List Char) :
    (textLine line).IsMalformed ↔ Record.Malformed line := by
  rw [textLine, Line.IsMalformed, String.toList_ofList]

end Recording

namespace Record

/-- All lines of a text are read exactly when none is malformed. -/
theorem readTrace_bytesOf_eq_ok_iff {text : String} {records : List Record} :
    readTrace (linesOfBytes (Utf8.bytesOf text)) = .ok records ↔
      (∀ line ∈ text.toList.splitOn '\n', ¬ Malformed line) ∧
        records = (text.toList.splitOn '\n').filterMap recordOf? := by
  have hsound (line : List Char) : (textLine line).Sound ↔ ¬ Malformed line := by
    rw [Line.Sound, isMalformed_textLine_iff]
    exact and_iff_left id
  have hrecord (line : List Char) : (textLine line).record? = recordOf? line :=
    congrArg recordOf? String.toList_ofList
  rw [readTrace_bytesOf, readTrace_eq_ok_iff, List.forall_mem_map, List.filterMap_map]
  simp only [hsound, Function.comp_def, hrecord]

theorem readTrace_bytesOf_eq_invalidRecord_iff {text : String} {n : Nat} :
    readTrace (linesOfBytes (Utf8.bytesOf text)) = .error (.invalidRecord n) ↔
      IsLeast {m | LineAt Malformed (text.toList.splitOn '\n') m} n := by
  rw [readTrace_bytesOf, readTrace_eq_invalidRecord_iff]
  simp only [lineAt_map, isMalformed_textLine_iff]
  refine and_iff_left fun k _ hk => ?_
  obtain ⟨i, line, -, -, hline⟩ := hk
  exact hline

/-- Lines joined to a text are read line by line. -/
theorem readTrace_intercalate_eq_ok_iff {lines : List String}
    (h : ∀ line ∈ lines, '\n' ∉ line.toList) {records : List Record} :
    readTrace (linesOfBytes (Utf8.bytesOf ("\n".intercalate lines))) = .ok records ↔
      (∀ line ∈ lines, ¬ Malformed line.toList) ∧
        records = lines.filterMap fun line => recordOf? line.toList := by
  have htext : ("\n".intercalate lines).toList = ['\n'].intercalate (lines.map String.toList) :=
    String.toList_intercalate
  rw [readTrace_bytesOf_eq_ok_iff, htext]
  by_cases hlines : lines = []
  · -- no lines make an empty text, which is one blank line
    subst hlines
    have hblank : Skipped [] := Or.inl rfl
    simp [Malformed, recordOf?, hblank]
  · have hnone : ∀ piece ∈ lines.map String.toList, '\n' ∉ piece := List.forall_mem_map.mpr h
    rw [List.splitOn_intercalate '\n' hnone (mt List.map_eq_nil_iff.mp hlines), List.forall_mem_map,
      List.filterMap_map]
    rfl

/-- **The first bad line is what is reported.**  A text is refused at a line exactly when that
is the first line, counted from 1 with blank lines and comments, that should hold a record and
does not; otherwise its records are those of its lines, in order.  So a blank line or a comment
may be put anywhere between lines without changing the records.  Where some bytes are not text,
reading fails exactly when no line before the first such line is malformed, and a malformed
line is reported exactly when it is the first and all lines before it are text. -/
theorem first_malformed_line_reported :
    (∀ (text : String) (n : Nat),
      readTrace (linesOfBytes (Utf8.bytesOf text)) = .error (.invalidRecord n) ↔
        IsLeast {m | LineAt Malformed (text.toList.splitOn '\n') m} n) ∧
    (∀ (text : String) (records : List Record),
      readTrace (linesOfBytes (Utf8.bytesOf text)) = .ok records ↔
        (∀ line ∈ text.toList.splitOn '\n', ¬ Malformed line) ∧
          records = (text.toList.splitOn '\n').filterMap recordOf?) ∧
    (∀ text : String,
      readTrace (linesOfText text) = readTrace (linesOfBytes (Utf8.bytesOf text))) ∧
    (∀ (before after : List String) (line : String),
      (∀ l ∈ before ++ line :: after, '\n' ∉ l.toList) → Skipped line.toList →
      ∀ records,
        readTrace (linesOfBytes (Utf8.bytesOf ("\n".intercalate (before ++ line :: after)))) =
            .ok records ↔
          readTrace (linesOfBytes (Utf8.bytesOf ("\n".intercalate (before ++ after)))) =
            .ok records) ∧
    (∀ bytes : List UInt8, readTrace (linesOfBytes bytes) = .error .readFailed ↔
      ∃ k, IsLeast {m | LineAt NotText (bytes.splitOn lineFeed) m} k ∧
        ∀ m < k, ¬ LineAt MalformedText (bytes.splitOn lineFeed) m) ∧
    ∀ (bytes : List UInt8) (n : Nat),
      readTrace (linesOfBytes bytes) = .error (.invalidRecord n) ↔
        IsLeast {m | LineAt MalformedText (bytes.splitOn lineFeed) m} n ∧
          ∀ k < n, ¬ LineAt NotText (bytes.splitOn lineFeed) k := by
  refine ⟨fun _ _ => readTrace_bytesOf_eq_invalidRecord_iff,
    fun _ _ => readTrace_bytesOf_eq_ok_iff,
    fun text => (readTrace_linesOfText text).trans (readTrace_bytesOf text).symm, ?_, ?_, ?_⟩
  · intro before after line hlines hskipped records
    have hkept : ∀ l ∈ before ++ after, '\n' ∉ l.toList := fun l hl =>
      hlines l (List.mem_append.mpr ((List.mem_append.mp hl).imp_right (List.mem_cons_of_mem line)))
    have hsound : ¬ Malformed line.toList := fun h => h.1 hskipped
    have hnone : recordOf? line.toList = none := if_pos hskipped
    rw [readTrace_intercalate_eq_ok_iff hlines, readTrace_intercalate_eq_ok_iff hkept,
      List.forall_mem_append, List.forall_mem_append, List.forall_mem_cons, and_iff_right hsound,
      List.filterMap_append, List.filterMap_append,
      List.filterMap_cons_none (f := fun l : String => recordOf? l.toList) hnone]
  · intro bytes
    rw [readTrace_linesOfBytes, readTrace_eq_readFailed_iff]
    simp only [lineAt_map, isMalformed_decodedLine_iff, isUndecodable_decodedLine_iff]
  · intro bytes n
    rw [readTrace_linesOfBytes, readTrace_eq_invalidRecord_iff]
    simp only [lineAt_map, isMalformed_decodedLine_iff, isUndecodable_decodedLine_iff]

/-- A sample of which nothing is given that may be left out. -/
def bareSample : Record :=
  ⟨⟨⟨1⟩, 2, 3, ActivityId.nil, ActivityId.nil, 0, none⟩, .sample .processor⟩

/-- The line of the sample. -/
def bareSampleLine : String :=
  "\x7b\"timestamp\":1,\"process_id\":2,\"thread_id\":3," ++
    "\"payload\":\x7b\"sample\":\x7b\"event\":\"cpu_sample\"\x7d\x7d\x7d"

theorem recordOf?_bareSampleLine : recordOf? bareSampleLine.toList = some bareSample := by
  decide +kernel

theorem first_malformed_line_reported_noteInserted :
    (∀ l ∈ [bareSampleLine, "\t# again", bareSampleLine], '\n' ∉ l.toList) ∧
    Skipped "\t# again".toList ∧
    readTrace (linesOfBytes (Utf8.bytesOf
      ("\n".intercalate [bareSampleLine, "\t# again", bareSampleLine]))) =
        .ok [bareSample, bareSample] ∧
    readTrace (linesOfBytes (Utf8.bytesOf "\n\t# again\n[]\n")) = .error (.invalidRecord 3) := by
  have hnone : '\n' ∉ bareSampleLine.toList := by decide
  have hlines : ∀ l ∈ [bareSampleLine, "\t# again", bareSampleLine], '\n' ∉ l.toList := by
    simp [hnone]
  have hskipped : Skipped "\t# again".toList := by decide
  have hread := recordOf?_bareSampleLine
  have hsound : ¬ Malformed bareSampleLine.toList := fun h =>
    Option.some_ne_none bareSample (hread.symm.trans h.2)
  have hbad : Malformed "[]".toList := ⟨by decide, rfl⟩
  obtain ⟨hrefused, -, -, hinserted, -⟩ := first_malformed_line_reported
  refine ⟨hlines, hskipped,
    (hinserted [bareSampleLine] [bareSampleLine] "\t# again" hlines hskipped _).mpr ?_,
    (hrefused _ 3).mpr ⟨⟨2, "[]".toList, rfl, rfl, hbad⟩, ?_⟩⟩
  · rw [List.singleton_append, readTrace_intercalate_eq_ok_iff (by simp [hnone])]
    simp [hsound, hread]
  · rintro n ⟨i, line, rfl, hline, hkind⟩
    rcases i with _ | _ | i
    · exact absurd (Option.some.inj hline ▸ by decide) hkind.1
    · exact absurd (Option.some.inj hline ▸ by decide) hkind.1
    · omega

end Record
end RuntimeTrace
