import Mathlib.Data.List.DropRight
import Stela.Token.Lexer

/-!
# Lines and columns

The line of a place in a text is one more than the number of newlines before it, and its column
is one more than the number of bytes behind the last of them. Bisection finds how many line
starts are not behind the place, so a place that is looked up gets this line and this column.
-/

namespace Stela

open Lexer

variable {before after cs ds : List Char} {c : Char} {offset : Nat}

/-! ## Lengths in bytes -/

theorem utf8Length_append : utf8Length (cs ++ ds) = utf8Length cs + utf8Length ds := by
  have hacc (n : Nat) : ds.foldl (fun n c => n + c.utf8Size) n = n + utf8Length ds := by
    unfold utf8Length
    induction ds generalizing n with
    | nil => rfl
    | cons d rest ih => rw [List.foldl_cons, ih, List.foldl_cons, ih (0 + _), Nat.zero_add, Nat.add_assoc]
  rw [utf8Length, List.foldl_append]
  exact hacc _

theorem utf8Length_cons : utf8Length (c :: cs) = c.utf8Size + utf8Length cs := by
  rw [← List.singleton_append, utf8Length_append]
  exact congrArg (· + _) (Nat.zero_add _)

theorem utf8Length_pos (h : cs ≠ []) : 0 < utf8Length cs := by
  obtain ⟨c, rest, rfl⟩ := List.exists_cons_of_ne_nil h
  rw [utf8Length_cons]
  exact Nat.lt_of_lt_of_le c.utf8Size_pos (Nat.le_add_right _ _)

/-- The length of a text in bytes. -/
theorem utf8Length_toList (text : String) : utf8Length text.toList = text.utf8ByteSize := by
  have hencode (cs : List Char) : cs.utf8Encode.size = utf8Length cs := by
    induction cs with
    | nil => rfl
    | cons c rest ih =>
        rw [List.utf8Encode_cons, ByteArray.size_append, ih, utf8Length_cons, List.utf8Encode_singleton,
          List.size_toByteArray, String.length_utf8EncodeChar]
  rw [← hencode, String.utf8Encode_toList, String.size_toByteArray]

namespace Lines

/-! ## The specification -/

/-- The line of what follows a text. -/
def lineAfter (before : List Char) : Nat := before.count '\n' + 1

/-- The column of what follows a text. -/
def columnAfter (before : List Char) : Nat := utf8Length (before.rtakeWhile (· != '\n')) + 1

/-! ## Line starts -/

theorem startsAfter_append :
    startsAfter offset (cs ++ ds) = startsAfter offset cs ++ startsAfter (offset + utf8Length cs) ds := by
  induction cs generalizing offset with
  | nil => rfl
  | cons c rest ih =>
      simp only [List.cons_append, startsAfter, utf8Length_cons, ih, ← Nat.add_assoc]
      split <;> rfl

theorem lt_of_mem_startsAfter {start : Nat} (h : start ∈ startsAfter offset cs) : offset < start := by
  induction cs generalizing offset with
  | nil => exact absurd h List.not_mem_nil
  | cons c rest ih =>
      have hlt : offset < offset + c.utf8Size := Nat.lt_add_of_pos_right c.utf8Size_pos
      simp only [startsAfter] at h
      split at h
      · rcases List.mem_cons.mp h with rfl | h
        · exact hlt
        · exact Nat.lt_trans hlt (ih h)
      · exact Nat.lt_trans hlt (ih h)

theorem le_of_mem_startsAfter {start : Nat} (h : start ∈ startsAfter offset cs) :
    start ≤ offset + utf8Length cs := by
  induction cs generalizing offset with
  | nil => exact absurd h List.not_mem_nil
  | cons c rest ih =>
      rw [utf8Length_cons, ← Nat.add_assoc]
      simp only [startsAfter] at h
      split at h
      · rcases List.mem_cons.mp h with rfl | h
        · exact Nat.le_add_right _ _
        · exact ih h
      · exact ih h

theorem length_startsAfter : (startsAfter offset cs).length = cs.count '\n' := by
  induction cs generalizing offset with
  | nil => rfl
  | cons c rest ih =>
      simp only [startsAfter]
      split
      · next hc => rw [hc, List.count_cons_self, List.length_cons, ih]
      · next hc => rw [List.count_cons_of_ne hc, ih]

/-- The last line of a text starts in front of what is left of it. -/
theorem getLastD_startsAfter : (startsAfter offset cs).getLastD offset +
    utf8Length (cs.rtakeWhile (· != '\n')) = offset + utf8Length cs := by
  induction cs using List.reverseRecOn with
  | nil => rfl
  | append_singleton cs c ih =>
      rw [startsAfter_append, List.rtakeWhile_concat, utf8Length_append, utf8Length_cons]
      by_cases hc : c = '\n'
      · have hstart : startsAfter (offset + utf8Length cs) [c] = [offset + utf8Length cs + c.utf8Size] :=
          if_pos hc
        rw [hstart, List.getLastD_concat, if_neg (by simp [hc])]
        simp only [Nat.add_assoc]
      · have hstart : startsAfter (offset + utf8Length cs) [c] = [] := if_neg hc
        rw [hstart, List.append_nil, if_pos (by simp [hc]), utf8Length_append, ← Nat.add_assoc, ih,
          utf8Length_cons, Nat.add_assoc]

/-! ## Bisection -/

/-- Where the entries up to an offset come before all others, bisection counts them. -/
theorem countUpTo_eq {early late : List Nat} {lo hi : Nat} (hearly : ∀ start ∈ early, start ≤ offset)
    (hlate : ∀ start ∈ late, offset < start) (hlo : lo ≤ early.length) (hhi : early.length ≤ hi)
    (hsize : hi ≤ (early ++ late).length) :
    countUpTo (early ++ late).toArray offset lo hi = early.length := by
  have hentry {mid : Nat} (h : mid < (early ++ late).length) :
      (early ++ late).toArray.getD mid 0 ≤ offset ↔ mid < early.length := by
    have hget : (early ++ late).toArray.getD mid 0 = (early ++ late)[mid] := dif_pos h
    rw [hget]
    constructor
    · intro hle
      by_contra hge
      have hge : early.length ≤ mid := Nat.le_of_not_lt hge
      rw [List.getElem_append_right hge] at hle
      exact absurd (hlate _ (List.getElem_mem _)) (Nat.not_lt_of_le hle)
    · intro hlt
      rw [List.getElem_append_left hlt]
      exact hearly _ (List.getElem_mem _)
  induction lo, hi using countUpTo.induct (early ++ late).toArray offset with
  | case1 lo hi hlt mid hmid ih =>
      have hmid' : mid < hi := by dsimp only [mid]; omega
      rw [countUpTo, if_pos hlt, if_pos hmid]
      exact ih ((hentry (Nat.lt_of_lt_of_le hmid' hsize)).mp hmid) hhi hsize
  | case2 lo hi hlt mid hmid ih =>
      have hmid' : mid < hi := by dsimp only [mid]; omega
      rw [countUpTo, if_pos hlt, if_neg hmid]
      have hge := mt (hentry (Nat.lt_of_lt_of_le hmid' hsize)).mpr hmid
      exact ih hlo (Nat.le_of_not_lt hge) (Nat.le_trans (Nat.le_of_lt hmid') hsize)
  | case3 lo hi hle =>
      rw [countUpTo, if_neg hle]
      exact Nat.le_antisymm hlo (Nat.le_trans hhi (Nat.le_of_not_lt hle))

theorem later_ofText {text : String} (h : text.toList = before ++ after) :
    (ofText text).later = (startsAfter 0 before ++ startsAfter (utf8Length before) after).toArray := by
  rw [ofText, h, startsAfter_append, Nat.zero_add]

/-- Bisection counts the line starts up to a place between two characters. -/
theorem countUpTo_ofText {text : String} (h : text.toList = before ++ after) :
    countUpTo (ofText text).later (utf8Length before) 0 (ofText text).later.size =
      (startsAfter 0 before).length := by
  rw [later_ofText h]
  refine countUpTo_eq (fun start hstart => ?_) (fun _ => lt_of_mem_startsAfter) (Nat.zero_le _) ?_
    (Nat.le_refl _)
  · exact Nat.zero_add (utf8Length before) ▸ le_of_mem_startsAfter hstart
  · simp

/-- The entry that bisection arrives at is the start of the last line in front of the place. -/
theorem getElem?_starts_ofText {text : String} (h : text.toList = before ++ after) :
    (0 :: (ofText text).later.toList)[(startsAfter 0 before).length]? =
      some ((startsAfter 0 before).getLastD 0) := by
  rw [later_ofText h, List.getLastD_eq_getLast?, List.getLast?_eq_getElem?]
  cases hlength : (startsAfter 0 before).length with
  | zero => rw [List.eq_nil_of_length_eq_zero hlength]; rfl
  | succ n =>
      have hn : n < (startsAfter 0 before).length := hlength ▸ Nat.lt_succ_self n
      rw [List.getElem?_cons_succ, List.getElem?_append_left hn, Nat.add_sub_cancel,
        List.getElem?_eq_getElem hn]
      rfl

/-- An offset is on the line of the entry that bisection arrives at, and its column is counted from
there. -/
theorem locate_of_start {lines : Lines} {start : Nat}
    (h : (0 :: lines.later.toList)[countUpTo lines.later offset 0 lines.later.size]? = some start) :
    lines.locate offset =
      (wrap (countUpTo lines.later offset 0 lines.later.size + 1), wrap (offset - start + 1)) := by
  unfold locate
  cases hcount : countUpTo lines.later offset 0 lines.later.size with
  | zero =>
      rw [hcount, List.getElem?_cons_zero] at h
      rw [← Option.some.inj h]
      rfl
  | succ n =>
      rw [hcount, List.getElem?_cons_succ, Array.getElem?_toList] at h
      dsimp only
      rw [Array.getD_eq_getD_getElem?, h, Option.getD_some]

/-- A place between two characters is looked up. -/
theorem locate_ofText {text : String} (h : text.toList = before ++ after) :
    (ofText text).locate (utf8Length before) = (wrap (lineAfter before), wrap (columnAfter before)) := by
  have hlast : (startsAfter 0 before).getLastD 0 + utf8Length (before.rtakeWhile (· != '\n')) =
      utf8Length before := by rw [getLastD_startsAfter, Nat.zero_add]
  have hcount := countUpTo_ofText h
  rw [locate_of_start (hcount ▸ getElem?_starts_ofText h), hcount, length_startsAfter, lineAfter, columnAfter,
    ← Nat.eq_sub_of_add_eq' hlast]

end Lines

end Stela
