import RuntimeTrace.Proofs.Activity.Keys

/-!
# The process in an identifier

A producer may fold the number of its process into the checksum of a path.  A reader that
does not know the process has only the checksum to tell a path from a random identifier, and
so cannot take any number for a process: it compares the top twelve bits of the word and
takes what it finds in the other twenty.

A number fits those twenty bits exactly when it is below `2 ^ 20`
(`and_comparedBits_eq_zero_iff`).  Folded into the checksum of a path, such a number is found
again, and any larger one makes the identifier look like a random one
(`path?_ofPath_of_le`).  The path itself plays no part in that: whether the checksum is
accepted depends on the number alone.

Main statement: `path?_of_encodeIn?`.
-/

namespace RuntimeTrace
namespace ActivityId

/-! ## The compared bits -/

/-- The top twelve bits of a word, as a number. -/
theorem toNat_and_comparedBits (n : UInt32) :
    (n &&& 0xFFF00000).toNat = n.toNat / 0x100000 * 0x100000 := by
  have hn : n.toNat < 0x100000000 := n.toNat_lt
  have hmask : (0xFFF00000 : UInt32).toNat = 0xFFF00000 := rfl
  have hhigh : (n.toNat &&& 0xFFF00000) / 2 ^ 20 = n.toNat / 0x100000 := by
    have hshift : (n.toNat &&& 0xFFF00000) >>> 20 = n.toNat >>> 20 &&& (2 ^ 12 - 1) :=
      Nat.shiftRight_and_distrib
    rw [Nat.and_two_pow_sub_one_eq_mod, Nat.shiftRight_eq_div_pow, Nat.shiftRight_eq_div_pow]
      at hshift
    rw [hshift]
    omega
  have hlow : (n.toNat &&& 0xFFF00000) % 2 ^ 20 = 0 := by
    rw [Nat.and_mod_two_pow]
    exact Nat.and_zero _
  rw [UInt32.toNat_and, hmask]
  omega

/-- **A number leaves the compared bits alone** exactly when it is below `2 ^ 20`. -/
theorem and_comparedBits_eq_zero_iff {n : UInt32} :
    n &&& 0xFFF00000 = 0 ↔ n.toNat < 0x100000 := by
  rw [← UInt32.toNat_inj, toNat_and_comparedBits, UInt32.toNat_zero]
  omega

/-- A number that changes a compared bit of a word makes another word of those bits. -/
theorem and_eq_zero_of_xor_and_eq {word mask n : UInt32}
    (h : (word ^^^ n) &&& mask = word &&& mask) : n &&& mask = 0 := by
  have hdistrib : (word ^^^ n) &&& mask = (word &&& mask) ^^^ (n &&& mask) := by
    apply UInt32.toNat_inj.mp
    simp only [UInt32.toNat_and, UInt32.toNat_xor, Nat.and_xor_distrib_right]
  rw [hdistrib] at h
  calc n &&& mask = (word &&& mask) ^^^ ((word &&& mask) ^^^ (n &&& mask)) := by
        rw [← UInt32.xor_assoc, UInt32.xor_self, UInt32.zero_xor]
    _ = 0 := by rw [h, UInt32.xor_self]

/-- **A checksum with a large process in it is refused**, whatever the path. -/
theorem path?_ofPath_of_le {path : List UInt8} (h : path.length = 12) {processId : UInt32}
    (hprocess : 0x100000 ≤ processId.toNat) : (ofPath path h processId).path? = none := by
  have hchecksum : ¬ (ofPath path h processId).hasPathChecksum 0 = true := by
    simp only [hasPathChecksum, ↓reduceIte, pathBytes_ofPath, checksum_ofPath, beq_iff_eq]
    intro hcompared
    have hsmall := and_comparedBits_eq_zero_iff.mp (and_eq_zero_of_xor_and_eq hcompared)
    omega
  rw [path?, if_neg hchecksum]

end ActivityId

namespace ActivityPath

/-- The identifier of ordinary segments made in a process. -/
theorem encodeIn?_eq_some_iff {values : List UInt32} {processId : UInt32} {id : ActivityId}
    (hprocess : processId ≠ 0) :
    encodeIn? values processId = some id ↔
      ∃ w, PathWriter.start.putSegments (values.map Segment.plain) = some w ∧
        ActivityId.ofPath w.toBytes w.length_toBytes processId = id := by
  unfold encodeIn? ofValues
  rw [if_neg hprocess]
  exact encode?_eq_some_iff

/-- **A process below `2 ^ 20` is found again** with exactly the numbers of its path, and an
identifier with a larger one is no path to its reader. -/
theorem path?_of_encodeIn? (values : List UInt32) (processId : UInt32) (id : ActivityId)
    (hprocess : processId ≠ 0) (h : encodeIn? values processId = some id) :
    id.path? = if processId.toNat < 0x100000 then
      some ⟨some processId, values.map Segment.plain⟩ else none := by
  obtain ⟨w, hw, rfl⟩ := (encodeIn?_eq_some_iff hprocess).mp h
  split
  · rename_i hsmall
    rw [ActivityId.path?_ofPath w.length_toBytes (PathWriter.segments?_toBytes hw)
      (ActivityId.and_comparedBits_eq_zero_iff.mpr hsmall), if_neg hprocess]
  · rename_i hlarge
    exact ActivityId.path?_ofPath_of_le w.length_toBytes (Nat.not_lt.mp hlarge)

/-- The path `1/4/300` of the largest process that is found again. -/
theorem path?_of_encodeIn?_largest :
    ∃ id, encodeIn? [1, 4, 300] 0xFFFFF = some id ∧
      id.path? = some ⟨some 0xFFFFF, [.plain 1, .plain 4, .plain 300]⟩ := by
  obtain ⟨id, h⟩ := Option.isSome_iff_exists.mp (by decide :
    (encodeIn? [1, 4, 300] 0xFFFFF).isSome = true)
  refine ⟨id, h, ?_⟩
  rw [path?_of_encodeIn? [1, 4, 300] 0xFFFFF id (by decide) h]
  rfl

/-- The next process is lost, and the path with it. -/
theorem process_lost :
    ∃ (values : List UInt32) (processId : UInt32) (id : ActivityId), processId ≠ 0 ∧
      encodeIn? values processId = some id ∧
      ¬ ∃ path, id.path? = some path ∧ path.processId = some processId ∧
        path.values = values := by
  obtain ⟨id, h⟩ := Option.isSome_iff_exists.mp (by decide :
    (encodeIn? [1] 0x100000).isSome = true)
  obtain ⟨w, -, rfl⟩ := (encodeIn?_eq_some_iff (by decide)).mp h
  refine ⟨[1], 0x100000, _, by decide, h, ?_⟩
  rintro ⟨path, hpath, -⟩
  rw [ActivityId.path?_ofPath_of_le w.length_toBytes (by decide)] at hpath
  exact absurd hpath (by simp)

end ActivityPath
end RuntimeTrace
