import Mathlib.Algebra.Group.Nat.Defs
import Mathlib.Data.Prod.Lex
import Mathlib.Order.Bounds.Basic
import Stela.Proofs.Source.Positions

/-!
# Positions of byte offsets

An offset counts bytes and may fall inside of a character. No byte of a longer character is a
newline byte, so the line starts of a text are those of its bytes, and what is known of places
between two characters holds of places between two bytes.
-/

namespace Stela
namespace Lines

variable {text : String} {bs cs : List UInt8} {offset i j : Nat}

/-! ## The specification -/

/-- The byte of a newline. -/
def newline : UInt8 := 10

/-- The bytes of a text. -/
def bytes (text : String) : List UInt8 := text.toByteArray.data.toList

/-- Lines start at the start of a text and just behind each of its newlines. -/
def StartsLine (text : String) (start : Nat) : Prop :=
  start = 0 ∨ ∃ place, (bytes text)[place]? = some newline ∧ start = place + 1

/-- Line and column of an offset: the newlines before it are counted, and its distance from the
last line start that is not behind it is measured, both from one. -/
structure IsPosition (text : String) (offset : Nat) (position : Nat × Nat) : Prop where
  line : position.1 = ((bytes text).take offset).count newline + 1
  column : ∃ start, IsGreatest {start | StartsLine text start ∧ start ≤ offset} start ∧
    position.2 = offset - start + 1

/-! ## A text of one-byte characters with the same lines -/

/-- A character of one byte for a byte, the newline for a newline byte only. -/
def mark (byte : UInt8) : Char := if byte = newline then '\n' else ' '

theorem mark_eq_iff {byte : UInt8} : mark byte = '\n' ↔ byte = newline := by
  unfold mark
  split <;> simp_all

theorem utf8Size_mark (byte : UInt8) : (mark byte).utf8Size = 1 := by
  unfold mark
  split <;> rfl

theorem utf8Length_map_mark : Lexer.utf8Length (bs.map mark) = bs.length := by
  induction bs with
  | nil => rfl
  | cons byte rest ih => rw [List.map_cons, utf8Length_cons, utf8Size_mark, ih, List.length_cons, Nat.add_comm]

theorem count_map_mark : (bs.map mark).count '\n' = bs.count newline := by
  rw [List.count_eq_countP, List.count_eq_countP, List.countP_map]
  refine List.countP_congr fun byte _ => ?_
  simp [mark_eq_iff]

theorem rtakeWhile_map_mark :
    (bs.map mark).rtakeWhile (· != '\n') = (bs.rtakeWhile (· != newline)).map mark := by
  have hmark : ((· != '\n') ∘ mark) = (· != newline) := by
    funext byte
    exact Bool.eq_iff_iff.mpr (by simp [mark_eq_iff])
  rw [List.rtakeWhile, ← List.map_reverse, List.takeWhile_map, hmark, ← List.map_reverse]
  rfl

theorem startsAfter_map_mark (h : newline ∉ bs) : startsAfter offset (bs.map mark) = [] :=
  List.eq_nil_of_length_eq_zero (length_startsAfter.trans (count_map_mark.trans (List.count_eq_zero.mpr h)))

/-- Only the newline itself has a newline byte. -/
theorem newline_notMem_utf8EncodeChar {c : Char} (h : c ≠ '\n') : newline ∉ String.utf8EncodeChar c := by
  have hval : c.val.toNat ≠ 10 := fun hval => h (Char.ext (UInt32.toNat_inj.mp hval))
  have hbyte (n : Nat) : newline = UInt8.ofNat n ↔ 10 = n % 256 := by simp [← UInt8.toNat_inj, newline]
  -- A character of one byte is its own code; every byte of a longer one is at least 128.
  fun_cases String.utf8EncodeChar c <;>
    simp only [List.mem_cons, List.not_mem_nil, or_false, hbyte] <;> omega

theorem startsAfter_marks (cs : List Char) :
    startsAfter offset ((cs.flatMap String.utf8EncodeChar).map mark) = startsAfter offset cs := by
  induction cs generalizing offset with
  | nil => rfl
  | cons c rest ih =>
      rw [List.flatMap_cons, List.map_append, startsAfter_append, utf8Length_map_mark,
        String.length_utf8EncodeChar, ih]
      by_cases hc : c = '\n'
      · subst hc
        rfl
      · rw [startsAfter_map_mark (newline_notMem_utf8EncodeChar hc), startsAfter, if_neg hc]
        rfl

theorem bytes_eq : bytes text = text.toList.flatMap String.utf8EncodeChar := by
  have hencode : (text.toList.flatMap String.utf8EncodeChar).toByteArray = text.toByteArray :=
    String.utf8Encode_toList
  rw [bytes, ← hencode, List.data_toByteArray]

theorem ofText_bytes : ofText (String.ofList ((bytes text).map mark)) = ofText text := by
  rw [ofText, String.toList_ofList, bytes_eq, startsAfter_marks, ofText]

/-! ## Looking up an offset -/

theorem marks_eq (text : String) (offset : Nat) : (String.ofList ((bytes text).map mark)).toList =
    ((bytes text).take offset).map mark ++ ((bytes text).drop offset).map mark := by
  rw [String.toList_ofList, ← List.map_append, List.take_append_drop]

theorem utf8Length_marks (h : offset ≤ text.utf8ByteSize) :
    Lexer.utf8Length (((bytes text).take offset).map mark) = offset := by
  rw [utf8Length_map_mark, List.length_take_of_le (by exact h)]

/-- Lines and columns as they are counted, before they are cut to 32 bits. -/
theorem locate_bytes (h : offset ≤ text.utf8ByteSize) : (ofText text).locate offset =
    (wrap (((bytes text).take offset).count newline + 1),
      wrap ((((bytes text).take offset).rtakeWhile (· != newline)).length + 1)) := by
  have hlocate := locate_ofText (marks_eq text offset)
  rwa [ofText_bytes, utf8Length_marks h, lineAfter, columnAfter, count_map_mark, rtakeWhile_map_mark,
    utf8Length_map_mark] at hlocate

/-- The entry that is subtracted from an offset exists and is not behind it. -/
theorem exists_start (h : offset ≤ text.utf8ByteSize) : ∃ start,
    (0 :: (ofText text).later.toList)[countUpTo (ofText text).later offset 0 (ofText text).later.size]? =
      some start ∧ start ≤ offset := by
  have hcount := countUpTo_ofText (marks_eq text offset)
  have hentry := getElem?_starts_ofText (marks_eq text offset)
  have hlast := @getLastD_startsAfter (((bytes text).take offset).map mark) 0
  rw [ofText_bytes, utf8Length_marks h] at hcount
  rw [ofText_bytes, ← hcount] at hentry
  rw [utf8Length_marks h, Nat.zero_add] at hlast
  exact ⟨_, hentry, (Nat.le_add_right _ _).trans hlast.le⟩

/-- A line starts behind a newline, and no other does up to the next newline. -/
theorem isGreatest_of_split {head line rest : List UInt8} (h : bytes text = head ++ line ++ rest)
    (hhead : ∀ hne : head ≠ [], head.getLast hne = newline) (hline : newline ∉ line) :
    IsGreatest {start | StartsLine text start ∧ start ≤ head.length + line.length} head.length := by
  refine ⟨⟨?_, Nat.le_add_right _ _⟩, ?_⟩
  · rcases List.eq_nil_or_concat head with rfl | ⟨init, last, rfl⟩
    · exact .inl rfl
    · have hlast : last = newline := by simpa using hhead (by simp)
      exact .inr ⟨init.length, by rw [h, hlast]; simp, List.length_concat⟩
  · rintro start ⟨rfl | ⟨place, hplace, rfl⟩, hle⟩
    · exact Nat.zero_le _
    · by_contra hlt
      rw [h, List.append_assoc, List.getElem?_append_right (Nat.le_of_lt_succ (Nat.lt_of_not_le hlt)),
        List.getElem?_append_left (by omega)] at hplace
      exact hline (List.mem_of_getElem? hplace)

theorem isGreatest_start (h : offset ≤ text.utf8ByteSize) :
    IsGreatest {start | StartsLine text start ∧ start ≤ offset}
      (offset - (((bytes text).take offset).rtakeWhile (· != newline)).length) := by
  have hsplit : ((bytes text).take offset).rdropWhile (· != newline) ++
      ((bytes text).take offset).rtakeWhile (· != newline) = (bytes text).take offset :=
    List.rdropWhile_append_rtakeWhile
  have hlength := congrArg List.length hsplit
  rw [List.length_append, List.length_take_of_le (by exact h)] at hlength
  have hgreatest := isGreatest_of_split
    ((List.take_append_drop offset (bytes text)).symm.trans (congrArg (· ++ _) hsplit.symm))
    (fun hne => by simpa using List.rdropWhile_last_not (· != newline) ((bytes text).take offset) hne)
    (fun hmem => by simpa using List.mem_rtakeWhile_imp hmem)
  rwa [hlength, Nat.eq_sub_of_add_eq hlength] at hgreatest

/-! ## The order of positions -/

/-- A byte behind a text moves its position forward. -/
theorem position_lt_append (bs : List UInt8) (hne : cs ≠ []) :
    toLex (bs.count newline, (bs.rtakeWhile (· != newline)).length) <
      toLex ((bs ++ cs).count newline, ((bs ++ cs).rtakeWhile (· != newline)).length) := by
  rw [Prod.Lex.toLex_lt_toLex, List.count_append]
  by_cases hmem : newline ∈ cs
  · exact .inl (Nat.lt_add_of_pos_right (List.count_pos_iff.mpr hmem))
  · refine .inr ⟨by rw [List.count_eq_zero.mpr hmem, Nat.add_zero], ?_⟩
    have hall : ∀ byte ∈ cs.reverse, (byte != newline) = true := fun byte hbyte =>
      bne_iff_ne.mpr fun heq => hmem (heq ▸ List.mem_reverse.mp hbyte)
    rw [List.rtakeWhile, List.rtakeWhile, List.reverse_append, List.takeWhile_append_of_pos hall]
    simpa using List.length_pos_iff.mpr hne

/-- Looking up any two offsets of a text, also inside of a character: the position that is found,
the line start that is subtracted, and the order of the positions. -/
structure Locates (text : String) : Prop where
  position : ∀ offset ≤ text.utf8ByteSize, IsPosition text offset ((ofText text).locate offset)
  start : ∀ offset ≤ text.utf8ByteSize, ∃ start,
    (0 :: (ofText text).later.toList)[countUpTo (ofText text).later offset 0 (ofText text).later.size]? =
      some start ∧ start ≤ offset ∧ ((ofText text).locate offset).2 = offset - start + 1
  distinct : ∀ i ≤ text.utf8ByteSize, ∀ j ≤ text.utf8ByteSize, i ≠ j →
    (ofText text).locate i ≠ (ofText text).locate j
  order : ∀ i ≤ text.utf8ByteSize, ∀ j ≤ text.utf8ByteSize,
    i < j ↔ toLex ((ofText text).locate i) < toLex ((ofText text).locate j)

section
variable (hsize : text.utf8ByteSize < 2 ^ 32 - 1)

include hsize

theorem wrap_eq {n : Nat} (h : n ≤ text.utf8ByteSize) : wrap (n + 1) = n + 1 :=
  Nat.mod_eq_of_lt (Nat.lt_of_le_of_lt (Nat.succ_le_succ h) (by rw [UInt32.size]; omega))

/-- Nothing is cut in a text of fewer than `2 ^ 32 - 1` bytes. -/
theorem locate_eq (h : offset ≤ text.utf8ByteSize) : (ofText text).locate offset =
    (((bytes text).take offset).count newline + 1,
      (((bytes text).take offset).rtakeWhile (· != newline)).length + 1) := by
  have htake : ((bytes text).take offset).length ≤ text.utf8ByteSize := List.length_take_le' ..
  have hline := (List.rtakeWhile_suffix (· != newline) ((bytes text).take offset)).length_le.trans htake
  rw [locate_bytes h, wrap_eq hsize (List.count_le_length.trans htake), wrap_eq hsize hline]

theorem locate_lt_locate (hij : i < j) (hj : j ≤ text.utf8ByteSize) :
    toLex ((ofText text).locate i) < toLex ((ofText text).locate j) := by
  have hbetween : ((bytes text).take j).drop i ≠ [] :=
    List.ne_nil_of_length_pos (by rw [List.length_drop, List.length_take_of_le (by exact hj)]; omega)
  have hlt := position_lt_append ((bytes text).take i) hbetween
  have htake : (bytes text).take i = ((bytes text).take j).take i := by
    rw [List.take_take, Nat.min_eq_left hij.le]
  rw [htake, List.take_append_drop, ← htake] at hlt
  rw [locate_eq hsize (hij.le.trans hj), locate_eq hsize hj]
  simpa [Prod.Lex.toLex_lt_toLex] using hlt

theorem locates_ofText : Locates text where
  position offset h := by
    rw [locate_eq hsize h]
    have hstart := isGreatest_start h
    refine ⟨rfl, _, hstart, ?_⟩
    have hlength : (((bytes text).take offset).rtakeWhile (· != newline)).length ≤ offset :=
      (List.rtakeWhile_suffix (· != newline) ((bytes text).take offset)).length_le.trans (List.length_take_le ..)
    dsimp only
    omega
  start offset h := by
    obtain ⟨start, hentry, hle⟩ := exists_start h
    refine ⟨start, hentry, hle, ?_⟩
    rw [locate_of_start hentry]
    exact wrap_eq hsize ((Nat.sub_le ..).trans h)
  distinct i hi j hj hne heq := by
    rcases Nat.lt_or_gt_of_ne hne with hlt | hlt
    · exact (heq ▸ locate_lt_locate hsize hlt hj).false
    · exact (heq ▸ locate_lt_locate hsize hlt hi).false
  order i hi j hj := by
    refine ⟨fun hlt => locate_lt_locate hsize hlt hj, fun hlt => ?_⟩
    rcases Nat.lt_trichotomy i j with hij | rfl | hji
    · exact hij
    · exact absurd hlt (lt_irrefl _)
    · exact absurd hlt (locate_lt_locate hsize hji hi).not_gt

end

/-- The offsets of a text that has a character of two bytes in its first line and ends with a
newline: inside of the character, at the newline and at the end. -/
theorem locates_accented : "é\n".utf8ByteSize < 2 ^ 32 - 1 ∧ Locates "é\n" ∧
    (ofText "é\n").locate 1 = (1, 2) ∧ (ofText "é\n").locate 2 = (1, 3) ∧
      (ofText "é\n").locate 3 = (2, 1) :=
  ⟨by decide, locates_ofText (by decide), by decide +kernel, by decide +kernel, by decide +kernel⟩

end Lines
end Stela
