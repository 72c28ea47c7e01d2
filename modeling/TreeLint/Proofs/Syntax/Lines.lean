import Mathlib.Data.List.DropRight
import TreeLint.Syntax.Span

/-!
# The line on which a span begins

The lines of a source are its pieces between newlines, numbered from zero.  The
line that a span reports is the one whose number is the number of newlines before
the span.
-/

namespace TreeLint

namespace Text

theorem getElem?_zero_splitOn (d : Char) (cs : List Char) :
    (cs.splitOn d)[0]? = some (cs.takeWhile (· != d)) := by
  induction cs with
  | nil => rfl
  | cons c cs ih =>
      rw [List.splitOn_cons_eq_if_modifyHead]
      by_cases hc : c = d
      · simp [hc]
      · cases hps : cs.splitOn d with
        | nil => exact absurd hps (List.splitOn_ne_nil d cs)
        | cons p ps =>
            simp only [hps, List.getElem?_cons_zero, Option.some.injEq] at ih
            simp [hc, ih]

theorem length_splitOn (d : Char) (cs : List Char) :
    (cs.splitOn d).length = cs.count d + 1 := by
  induction cs with
  | nil => rfl
  | cons c cs ih =>
      rw [List.splitOn_cons_eq_if_modifyHead]
      by_cases hc : c = d
      · simp [hc, ih]
      · simp [hc, ih]

end Text

namespace Span

theorem newline_not_mem_lastLine (cs : List Char) : '\n' ∉ lastLine cs := by
  intro hmem
  have hne := List.mem_rtakeWhile_imp hmem
  simp at hne

/-- A text is its last line, or has a newline before it. -/
theorem lastLine_cases (cs : List Char) :
    lastLine cs = cs ∨ ∃ earlier, cs = earlier ++ '\n' :: lastLine cs := by
  have hsplit : cs.rdropWhile (· != '\n') ++ lastLine cs = cs :=
    List.rdropWhile_append_rtakeWhile
  by_cases hnil : cs.rdropWhile (· != '\n') = []
  · rw [hnil, List.nil_append] at hsplit
    exact .inl hsplit
  · have hends := List.dropLast_append_getLast hnil
    have hlast := List.rdropWhile_last_not (· != '\n') cs hnil
    have hnewline : (cs.rdropWhile (· != '\n')).getLast hnil = '\n' := by simpa using hlast
    rw [hnewline] at hends
    refine .inr ⟨(cs.rdropWhile (· != '\n')).dropLast, ?_⟩
    rw [← List.singleton_append, ← List.append_assoc, hends, hsplit]

/-- The piece of a text that goes on behind its first part. -/
theorem getElem?_splitOn_count (before after : List Char) :
    ((before ++ after).splitOn '\n')[before.count '\n']? =
      some (lastLine before ++ after.takeWhile (· != '\n')) := by
  have hfirst : ∀ line, '\n' ∉ line →
      ((line ++ after).splitOn '\n')[0]? = some (line ++ after.takeWhile (· != '\n')) := by
    intro line hline
    rw [Text.getElem?_zero_splitOn, List.takeWhile_append_of_pos]
    intro c hc
    simp only [bne_iff_ne, ne_eq]
    rintro rfl
    exact hline hc
  have hline := newline_not_mem_lastLine before
  rcases lastLine_cases before with hall | ⟨earlier, hbefore⟩
  · rw [hall] at hline ⊢
    rw [List.count_eq_zero_of_not_mem hline, hfirst before hline]
  · -- The pieces of what stands before the last line come first, one for each newline.
    have hcount : before.count '\n' = (earlier.splitOn '\n').length := by
      rw [Text.length_splitOn]
      conv_lhs => rw [hbefore]
      rw [List.count_append, List.count_cons_self, List.count_eq_zero_of_not_mem hline]
    have hpieces : (before ++ after).splitOn '\n' =
        earlier.splitOn '\n' ++ (lastLine before ++ after).splitOn '\n' := by
      conv_lhs => rw [hbefore]
      rw [List.append_assoc, List.cons_append, List.splitOn_append_cons_self]
    rw [hpieces, hcount, List.getElem?_append_right (Nat.le_refl _), Nat.sub_self,
      hfirst _ hline]

/-- A span that begins between two parts of the source takes up its line on both sides. -/
theorem firstLine_between {span : Span} {source before after : String}
    (hsource : source = before ++ after) (hstart : before.utf8ByteSize = span.startByte.toNat) :
    (span.firstLine source).toList =
      (lastLine before.toList ++ after.toList.takeWhile (· != '\n')).rdropWhile (· == '\r') := by
  have hbytes : Text.byteLength before.toList = span.startByte.toNat := by
    rw [Text.byteLength_toList, hstart]
  have hchars : source.toList = before.toList ++ after.toList := by
    rw [hsource, String.toList_append]
  have htake : Text.takeBytes? source.toList span.startByte.toNat = some before.toList :=
    Text.takeBytes?_eq_some_iff.2 ⟨after.toList, hchars, hbytes⟩
  have hdrop : Text.dropBytes? source.toList span.startByte.toNat = some after.toList :=
    Text.dropBytes?_eq_some_iff.2 ⟨before.toList, hchars, hbytes⟩
  simp only [firstLine, htake, hdrop, String.toList_ofList]
  rfl

/-- Any other span reports the beginning of the source. -/
theorem firstLine_inside {span : Span} {source : String}
    (h : ¬ ∃ before after, source = before ++ after ∧
      before.utf8ByteSize = span.startByte.toNat) :
    (span.firstLine source).toList =
      (source.toList.takeWhile (· != '\n')).rdropWhile (· == '\r') := by
  have htake : Text.takeBytes? source.toList span.startByte.toNat = none := by
    rw [Option.eq_none_iff_forall_ne_some]
    intro before hbefore
    obtain ⟨after, hchars, hbytes⟩ := Text.takeBytes?_eq_some_iff.1 hbefore
    refine h ⟨String.ofList before, String.ofList after, ?_, ?_⟩
    · rw [← String.ofList_append, ← hchars, String.ofList_toList]
    · rw [← Text.byteLength_toList, String.toList_ofList, hbytes]
  simp only [firstLine, htake, String.toList_ofList]
  rfl

theorem exists_line (span : Span) (source : String) :
    ∃ line : List Char, '\n' ∉ line ∧
      (span.firstLine source).toList = line.rdropWhile (· == '\r') := by
  have htaken : ∀ cs : List Char, '\n' ∉ cs.takeWhile (· != '\n') := by
    intro cs hmem
    have hne := List.mem_takeWhile_imp hmem
    simp at hne
  by_cases h : ∃ before after, source = before ++ after ∧
      before.utf8ByteSize = span.startByte.toNat
  · obtain ⟨before, after, hsource, hstart⟩ := h
    refine ⟨_, ?_, firstLine_between hsource hstart⟩
    rw [List.mem_append, not_or]
    exact ⟨newline_not_mem_lastLine _, htaken _⟩
  · exact ⟨_, htaken _, firstLine_inside h⟩

/--
The line of a span is the piece of the source with the number of the newlines
before the span, without the carriage returns at its end.  A span that does not
begin between two characters has the first piece.  No line holds a newline, and
a span that begins with one reports what stands before it on the same line.
-/
theorem firstLine_is_line_of_start (span : Span) (source : String) :
    (∀ before after : String, source = before ++ after →
      before.utf8ByteSize = span.startByte.toNat →
      ∃ line, (source.toList.splitOn '\n')[before.toList.count '\n']? = some line ∧
        (span.firstLine source).toList = line.rdropWhile (· == '\r')) ∧
      ((¬ ∃ before after, source = before ++ after ∧
          before.utf8ByteSize = span.startByte.toNat) →
        ∃ line, (source.toList.splitOn '\n')[0]? = some line ∧
          (span.firstLine source).toList = line.rdropWhile (· == '\r')) ∧
      '\n' ∉ (span.firstLine source).toList ∧
      ∀ before after : String, source = before ++ "\n" ++ after →
        before.utf8ByteSize = span.startByte.toNat →
        ∃ earlier line, before.toList = earlier ++ line ∧
          (earlier = [] ∨ ∃ more, earlier = more ++ ['\n']) ∧ '\n' ∉ line ∧
          (span.firstLine source).toList = line.rdropWhile (· == '\r') := by
  refine ⟨?_, ?_, ?_, ?_⟩
  · intro before after hsource hstart
    refine ⟨_, ?_, firstLine_between hsource hstart⟩
    rw [hsource, String.toList_append, getElem?_splitOn_count]
  · intro h
    exact ⟨_, Text.getElem?_zero_splitOn '\n' source.toList, firstLine_inside h⟩
  · obtain ⟨line, hline, hreported⟩ := exists_line span source
    rw [hreported]
    exact fun hmem => hline ((List.rdropWhile_prefix _ line).subset hmem)
  · intro before after hsource hstart
    rw [String.append_assoc] at hsource
    have hreported := firstLine_between hsource hstart
    have hnewline : ("\n" ++ after).toList.takeWhile (· != '\n') = [] := by simp
    rw [hnewline, List.append_nil] at hreported
    rcases lastLine_cases before.toList with hall | ⟨more, hbefore⟩
    · exact ⟨[], _, hall.symm, .inl rfl, newline_not_mem_lastLine _, hreported⟩
    · refine ⟨more ++ ['\n'], _, ?_, .inr ⟨more, rfl⟩, newline_not_mem_lastLine _, hreported⟩
      rw [List.append_assoc, List.singleton_append]
      exact hbefore

def mixedLines : String :=
  "é\r\n\n日b\r\r\nx"

theorem not_between_mixedLines :
    ¬ ∃ before after, mixedLines = before ++ after ∧ before.utf8ByteSize = 1 := by
  rintro ⟨before, after, hsource, hbytes⟩
  have htake : Text.takeBytes? mixedLines.toList 1 = some before.toList :=
    Text.takeBytes?_eq_some_iff.2 ⟨after.toList, by rw [hsource, String.toList_append],
      by rw [Text.byteLength_toList, hbytes]⟩
  have hnone : Text.takeBytes? mixedLines.toList 1 = none := by decide +kernel
  rw [hnone] at htake
  cases htake

/-- The third line; the inside of a character on the first; and the newline that ends the first. -/
theorem firstLine_mixedLines :
    firstLine ⟨5, 8, default, default⟩ mixedLines = "日b" ∧
      (∃ line, (mixedLines.toList.splitOn '\n')[0]? = some line ∧
        (firstLine ⟨1, 8, default, default⟩ mixedLines).toList = line.rdropWhile (· == '\r')) ∧
      ∃ earlier line, "é\r".toList = earlier ++ line ∧
        (earlier = [] ∨ ∃ more, earlier = more ++ ['\n']) ∧ '\n' ∉ line ∧
        (firstLine ⟨3, 8, default, default⟩ mixedLines).toList = line.rdropWhile (· == '\r') := by
  refine ⟨?_, (firstLine_is_line_of_start _ _).2.1 not_between_mixedLines,
    (firstLine_is_line_of_start _ _).2.2.2 _ "\n日b\r\r\nx" (by decide +kernel) (by decide +kernel)⟩
  obtain ⟨line, hline, hreported⟩ := (firstLine_is_line_of_start ⟨5, 8, default, default⟩
    mixedLines).1 "é\r\n\n" "日b\r\r\nx" (by decide +kernel) (by decide +kernel)
  have hpiece : (mixedLines.toList.splitOn '\n')["é\r\n\n".toList.count '\n']? =
      some ['日', 'b', '\r', '\r'] := by decide +kernel
  rw [hpiece, Option.some.injEq] at hline
  rw [← String.toList_inj, hreported, ← hline]
  decide +kernel

end Span

end TreeLint
